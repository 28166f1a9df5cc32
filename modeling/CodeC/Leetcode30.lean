import Mathlib.Algebra.Group.Nat.Defs
import Mathlib.Data.Char
import Mathlib.Data.List.Dedup
import Mathlib.Data.List.Lex
import Mathlib.Data.List.Basic

/-!
# Substrings made of all words: `leetcode/30.cpp`

`findSubstring` starts at every occurrence of a word and takes the following words from a multiset
of indices. What word stands at a position is kept in `status_` for all starts.

Strings are lists of characters. Positions and indices are natural numbers without a bound, where the
source passes them as `int`: the length of `s` is taken to be at most `INT_MAX`.
-/

namespace CodeC.Leetcode30

/-- 保存s_中对words_的匹配信息：-2未匹配，-1不匹配，其他值是匹配的words_下标 -/
inductive Status where
  | unknown
  | noMatch
  | word (k : ℕ)
  deriving DecidableEq

/-- The members that `find` and `search` write. -/
structure Memo where
  status : List Status
  result : List ℕ

/-- The difference of two values of type `size_t` -/
def sizeSub (a b : ℕ) : ℕ := if b ≤ a then a - b else a + 2 ^ 64 - b

/-- `s.find(w, pos)`, with `none` for `npos` -/
def strFind (s w : List Char) (pos : ℕ) : Option ℕ :=
  (List.range' pos (s.length + 1 - pos)).find? fun p => w.isPrefixOf (s.drop p)

/-- One copy of `k` is erased from the multiset, when there is one. -/
def takeOne (wordset : List ℕ) (k : ℕ) : Option (List ℕ) :=
  if k ∈ wordset then some (wordset.erase k) else none

section members

/-- The members `s_`, `words_` and `word_len_` -/
structure Env where
  s : List Char
  words : List (List Char)
  wordLen : ℕ

/-- `s_.substr(i, word_len_)` -/
def Env.chunk (e : Env) (i : ℕ) : List Char := (e.s.drop i).take e.wordLen

variable (e : Env)

/-- 如果匹配words_，返回words_中的index；如果没有匹配，则返回-1. The result true comes with the rest of the
multiset. -/
def search (i : ℕ) (wordset : List ℕ) (status : List Status) : Option (List ℕ) × List Status :=
  match status.getD i .unknown with
  -- 不匹配
  | .noMatch => (none, status)
  -- 已匹配
  | .word k => (takeOne wordset k, status)
  -- 未匹配过
  | .unknown =>
    let ss := e.chunk i
    if ss ∈ e.words then
      (takeOne wordset (e.words.idxOf ss), status.set i (.word (e.words.idxOf ss)))
    else (none, status.set i .noMatch)

lemma length_takeOne {wordset ws : List ℕ} {k : ℕ} (h : takeOne wordset k = some ws) :
    ws.length < wordset.length := by
  rw [takeOne] at h
  split at h
  · rename_i hk
    obtain rfl := Option.some.inj h
    rw [List.length_erase_of_mem hk]
    exact Nat.sub_lt (List.length_pos_of_mem hk) Nat.zero_lt_one
  · cases h

lemma length_search {i : ℕ} {wordset ws : List ℕ} {status status' : List Status}
    (h : search e i wordset status = (some ws, status')) : ws.length < wordset.length := by
  rw [search] at h
  split at h
  · cases h
  · exact length_takeOne (Prod.ext_iff.mp h).1
  · dsimp only at h
    split at h
    · exact length_takeOne (Prod.ext_iff.mp h).1
    · cases h

/-- [i, j)已经匹配，这里从j开始向右搜索剩余的words -/
def find (i j : ℕ) (wordset : List ℕ) (m : Memo) : Memo :=
  if wordset.length = 0 then { m with result := m.result ++ [i] }
  else if j ≥ e.s.length then m
  else
    match _h : search e j wordset m.status with
    | (none, status) => { m with status := status }
    | (some ws, status) => find i (j + e.wordLen) ws { m with status := status }
  termination_by wordset.length
  decreasing_by exact length_search e _h

/-- The loop over the occurrences of `words_[i]` from `pos` on. `total` is
`words.size() * word_len_`. -/
def occurrences (total : ℕ) (wordsetint : List ℕ) (i pos : ℕ) (m : Memo) : Memo :=
  match _h : strFind e.s (e.words.getD i []) pos with
  | none => m
  | some p =>
    if p > sizeSub e.s.length total then m
    else
      let m := { m with status := m.status.set p (.word i) }
      occurrences total wordsetint i (p + 1) (find e p (p + e.wordLen) (wordsetint.erase i) m)
  termination_by e.s.length + 1 - pos
  decreasing_by
    have hmem := List.mem_of_find?_eq_some _h
    rw [List.mem_range'_1] at hmem
    omega

end members

/-- `set<string>(words.begin(), words.end())`: words_是去重后的vector<string> -/
def wordsetstr (words : List (List Char)) : List (List Char) :=
  words.dedup.mergeSort fun u w => decide (u ≤ w)

/-- The members that `findSubstring` sets first -/
def Env.of (s : List Char) (words : List (List Char)) : Env :=
  ⟨s, wordsetstr words, (words.getLastD []).length⟩

/-- The indices of all words -/
def wordsetint (e : Env) (words : List (List Char)) : List ℕ := words.map fun w => e.words.idxOf w

/-- On a fresh object -/
def findSubstring (s : List Char) (words : List (List Char)) : List ℕ :=
  if words.length = 0 then []
  else
    let e := Env.of s words
    let m : Memo := ⟨List.replicate s.length .unknown, []⟩
    ((List.range e.words.length).foldl (fun m i =>
      occurrences e (words.length * e.wordLen) (wordsetint e words) i 0 m) m).result

/-- `status_.resize(n, -2)`: what earlier calls have written stays. -/
def resize (status : List Status) (n : ℕ) : List Status :=
  status.take n ++ List.replicate (n - status.length) .unknown

/-- The empty word also stands at the end of the string. When the test on `pos` lets that position
pass, `status_[pos]` is outside the vector. -/
def WritesOutside (s : List Char) (words : List (List Char)) : Prop :=
  [] ∈ words ∧ s.length ≤ sizeSub s.length (words.length * (Env.of s words).wordLen)

instance (s : List Char) (words : List (List Char)) : Decidable (WritesOutside s words) :=
  inferInstanceAs (Decidable (_ ∧ _))

/-- `findSubstring` on an object whose member `status_` is `status`: the result and the new
`status_`. The other members are set before they are read. -/
def call (status : List Status) (s : List Char) (words : List (List Char)) :
    Option (List ℕ × List Status) :=
  if words.length = 0 then some ([], status)
  else if WritesOutside s words then none
  else
    let e := Env.of s words
    let m : Memo := ⟨resize status s.length, []⟩
    let m := (List.range e.words.length).foldl (fun m i =>
      occurrences e (words.length * e.wordLen) (wordsetint e words) i 0 m) m
    some (m.result, m.status)

/-- The member `status_` after some calls on a new object -/
def after (calls : List (List Char × List (List Char))) : Option (List Status) :=
  calls.foldlM (fun status c => (call status c.1 c.2).map Prod.snd) []

end CodeC.Leetcode30
