import Mathlib.Data.List.Basic

/-!
# The wildcard matchers of `leetcode/44.cpp` and `leetcode/44-2.cpp`

Strings are lists of characters and `string::npos` is `none`. `stringSplit` is the same function
in both files; the definitions of `44-2.cpp` are in the namespace `V2`. Positions are of type `int` in the
source, so the lengths of both strings are taken to be at most `INT_MAX`.
-/

namespace CodeC.Leetcode44

/-- The loop of `stringSplit` over the rest of the string. `cur` is the substring from `from` up to
the loop variable. -/
def stringSplitLoop (delim : Char) : List Char → List Char → List (List Char) → List (List Char)
  | [], cur, elems => if cur = [] then elems else elems ++ [cur]
  | c :: str, cur, elems =>
    if c = delim then
      stringSplitLoop delim str [] ((if cur = [] then elems else elems ++ [cur]) ++ [[c]])
    else stringSplitLoop delim str (cur ++ [c]) elems

def stringSplit (str : List Char) (delim : Char) : List (List Char) :=
  stringSplitLoop delim str [] []

/-- `std::string::substr` -/
def substr (s : List Char) (pos len : ℕ) : List Char := (s.drop pos).take len

/-- `std::string::find` -/
def find (s p : List Char) (i : ℕ) : Option ℕ :=
  (List.range' i (s.length - p.length + 1 - i)).find? fun j => substr s j p.length = p

/-- The loop of `match`, whose body is `attempt`. -/
def search (attempt : List Char → ℕ → List Char → Option ℕ) (s : List Char) (i : ℕ)
    (p : List Char) : Option ℕ :=
  (List.range' i (s.length - p.length + 1 - i)).findSome? fun j => attempt s j p

/-! ## `44.cpp` -/

/-- The loop of `match2`. `star` says that the first run of letters is still to come. -/
def match2Loop (s : List Char) : List (List Char) → ℕ → Bool → Option ℕ
  | [], i, _ => if i > s.length then none else some i
  | p :: ps, i, star =>
    if p = ['?'] then match2Loop s ps (i + 1) star
    else if i + p.length > s.length then none
    else if star then
      match find s p i with
      | none => none
      | some i => match2Loop s ps (i + p.length) false
    else if p ≠ substr s i p.length then none
    else match2Loop s ps (i + p.length) false

def match2 (s : List Char) (i : ℕ) (p1 : List Char) : Option ℕ :=
  match2Loop s (stringSplit p1 '?') i true

/-- `match` -/
def matchFrom (s : List Char) (i : ℕ) (p1 : List Char) : Option ℕ := search match2 s i p1

/-- The loop of `stripright`, with the elements of `ps` from the back to the front. -/
def striprightLoop : List Char → List (List Char) → Option (List Char × List (List Char))
  | s, [] => some (s, [])
  | s, back :: ps =>
    if back = ['*'] then some (s, back :: ps)
    else if back.length > s.length then none
    else
      match matchFrom (substr s (s.length - back.length) back.length) 0 back with
      | none => none
      | some _ => striprightLoop (substr s 0 (s.length - back.length)) ps

/-- `stripright`; `none` is the result false. -/
def stripright (s : List Char) (ps : List (List Char)) : Option (List Char × List (List Char)) :=
  (striprightLoop s ps.reverse).map fun r => (r.1, r.2.reverse)

/-- The loop of `isMatch` over `ps`. -/
def isMatchLoop (s : List Char) : List (List Char) → Bool → ℕ → Bool
  | [], _, _ => true
  | p :: ps, star, i =>
    if p = ['*'] then isMatchLoop s ps true i
    else if i + p.length > s.length then false
    else if star then
      match matchFrom s i p with
      | none => false
      | some i => isMatchLoop s ps false i
    else
      match matchFrom s i p with
      | none => false
      | some i => if i ≠ p.length then false else isMatchLoop s ps star i

def isMatch (s p : List Char) : Bool :=
  match stripright s (stringSplit p '*') with
  | none => false
  | some (s, ps) => if ps = [] then decide (s = []) else isMatchLoop s ps false 0

/-! ## `44-2.cpp` -/

namespace V2

/-- 从i开始严格匹配带?的p -/
def matchExact (s : List Char) (i : ℕ) (p : List Char) : Option ℕ :=
  if s.length < i + p.length then none
  else if (List.range p.length).all fun j => p[j]? == some '?' || p[j]? == s[i + j]? then
    some (i + p.length)
  else none

/-- `match`: 从i开始，非严格匹配带?的p。非严格表示起点不确定 -/
def matchFrom (s : List Char) (i : ℕ) (p : List Char) : Option ℕ := search matchExact s i p

/-- `stripleft` with what it leaves of `s` and `ps`; `none` is the result false. -/
def stripleft : List Char → List (List Char) → Option (List Char × List (List Char))
  | s, [] => if s = [] then some (s, []) else none
  | s, front :: ps =>
    if front = ['*'] then some (s, front :: ps)
    else if front.length > s.length then none
    else
      match matchExact s 0 front with
      | none => none
      | some _ => stripleft (substr s front.length (s.length - front.length)) ps

/-- The loop of `stripright`, with the elements of `ps` from the back to the front. -/
def striprightLoop : List Char → List (List Char) → Option (List Char × List (List Char))
  | s, [] => if s = [] then some (s, []) else none
  | s, back :: ps =>
    if back = ['*'] then some (s, back :: ps)
    else if back.length > s.length then none
    else
      match matchExact (substr s (s.length - back.length) back.length) 0 back with
      | none => none
      | some _ => striprightLoop (substr s 0 (s.length - back.length)) ps

def stripright (s : List Char) (ps : List (List Char)) : Option (List Char × List (List Char)) :=
  (striprightLoop s ps.reverse).map fun r => (r.1, r.2.reverse)

/-- The loop of `isMatch` over `ps`. -/
def isMatchLoop (s : List Char) : List (List Char) → ℕ → Bool
  | [], _ => true
  | p :: ps, i =>
    if p = ['*'] then isMatchLoop s ps i
    else if i + p.length > s.length then false
    else
      match matchFrom s i p with
      | none => false
      | some i => isMatchLoop s ps i

def isMatch (s p : List Char) : Bool :=
  match stripleft s (stringSplit p '*') with
  | none => false
  | some (s, ps) =>
    match stripright s ps with
    | none => false
    | some (s, ps) => isMatchLoop s ps 0

end V2

end CodeC.Leetcode44
