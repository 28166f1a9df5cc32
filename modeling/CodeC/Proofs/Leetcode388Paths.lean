import CodeC.Leetcode388
import Mathlib.Algebra.BigOperators.Group.List.Basic
import Mathlib.Algebra.GroupWithZero.Nat

/-!
# The longest path of a listed forest

The listing of a forest is read line by line, and the vector holds the lengths of the paths to the
directories above the current line.
-/

namespace CodeC.Leetcode388
open Library

/-- A name without tab and newline -/
structure Name where
  text : List Char
  ne_nil : text ≠ []
  tab : '\t' ∉ text
  newline : '\n' ∉ text

/-- Directories and files; the names of files have a dot, and those of directories have none. -/
inductive Forest where
  | nil
  | file (name : Name) (hdot : '.' ∈ name.text) (rest : Forest)
  | dir (name : Name) (hdot : '.' ∉ name.text) (children rest : Forest)

/-- The entries in depth-first order, with their depths -/
def Forest.entries (d : ℕ) : Forest → List (ℕ × Name)
  | .nil => []
  | .file name _ rest => (d, name) :: rest.entries d
  | .dir name _ children rest => (d, name) :: (children.entries (d + 1) ++ rest.entries d)

/-- The line of an entry -/
def entryLine (e : ℕ × Name) : List Char := List.replicate e.1 '\t' ++ e.2.text

/-- The lines, separated by newlines -/
def listing (f : Forest) : List Char := ['\n'].intercalate ((f.entries 0).map entryLine)

/-- The `'/'`-joined paths of the files, below the directories `above` -/
def Forest.paths (above : List Name) : Forest → List (List Char)
  | .nil => []
  | .file name _ rest => ['/'].intercalate ((above ++ [name]).map Name.text) :: rest.paths above
  | .dir name _ children rest => children.paths (above ++ [name]) ++ rest.paths above

/-- The rest of the listing from `pos` on. After the last line the position is behind the end. -/
def At (input : List Char) (pos : ℕ) : List (ℕ × Name) → Prop
  | [] => input.length ≤ pos
  | e :: es => input.drop pos = ['\n'].intercalate ((e :: es).map entryLine)

lemma scan_tabs (d : ℕ) (rest : List Char) (pos level : ℕ) (isfile : Bool) :
    scan (List.replicate d '\t' ++ rest) pos level isfile = scan rest (pos + d) (level + d) isfile := by
  induction d generalizing pos level with
  | zero => rfl
  | succ d ih =>
    rw [List.replicate_succ, List.cons_append, scan, if_neg (by decide), if_pos rfl, ih]
    congr 1 <;> omega

lemma scan_name {text : List Char} (htab : '\t' ∉ text) (hnewline : '\n' ∉ text) (rest : List Char)
    (pos level : ℕ) (isfile : Bool) :
    scan (text ++ rest) pos level isfile =
      scan rest (pos + text.length) level (isfile || decide ('.' ∈ text)) := by
  induction text generalizing pos isfile with
  | nil => simp
  | cons c text ih =>
    have hc : c ≠ '\n' ∧ c ≠ '\t' :=
      ⟨fun h => hnewline (by simp [h]), fun h => htab (by simp [h])⟩
    have ih' := fun pos isfile => ih (fun h => htab (by simp [h])) (fun h => hnewline (by simp [h])) pos isfile
    rw [List.cons_append, scan, if_neg hc.1, if_neg hc.2]
    have hpos : pos + 1 + text.length = pos + (c :: text).length := by
      rw [List.length_cons]
      omega
    by_cases hdot : c = '.'
    · rw [if_pos hdot, ih', hpos, hdot]
      simp
    · rw [if_neg hdot, ih', hpos]
      have hdot' : '.' ≠ c := Ne.symm hdot
      simp [hdot']

lemma length_entryLine (e : ℕ × Name) : (entryLine e).length = e.1 + e.2.text.length := by
  rw [entryLine, List.length_append, List.length_replicate]

lemma scan_entryLine (e : ℕ × Name) (rest : List Char) (pos : ℕ) :
    scan (entryLine e ++ rest) pos 0 false =
      scan rest (pos + (entryLine e).length) e.1 (decide ('.' ∈ e.2.text)) := by
  rw [length_entryLine, entryLine, List.append_assoc, scan_tabs, scan_name e.2.tab e.2.newline,
    Bool.false_or, Nat.zero_add, Nat.add_assoc]

lemma nextline_eq {input rest : List Char} {pos : ℕ} {e : ℕ × Name}
    (h : input.drop pos = entryLine e ++ rest) (hrest : ∀ p l b, scan rest p l b = (p + 1, l, b)) :
    nextline input pos =
      ⟨e.2.text.length, pos + (entryLine e).length + 1, e.1, decide ('.' ∈ e.2.text)⟩ := by
  have hlen := congrArg List.length h
  have hpos : 0 < e.2.text.length := List.length_pos_iff.mpr e.2.ne_nil
  rw [List.length_drop, List.length_append, length_entryLine] at hlen
  rw [nextline, if_neg (by omega), h, scan_entryLine, hrest]
  simp only [Line.mk.injEq, and_true]
  rw [length_entryLine]
  omega

/-- `nextline` reads the line of an entry and stops behind it. -/
lemma nextline_at {input : List Char} {pos : ℕ} {e : ℕ × Name} {es : List (ℕ × Name)}
    (h : At input pos (e :: es)) :
    ∃ pos', nextline input pos = ⟨e.2.text.length, pos', e.1, decide ('.' ∈ e.2.text)⟩ ∧
      At input pos' es := by
  refine ⟨pos + (entryLine e).length + 1, ?_⟩
  cases es with
  | nil =>
    -- the last line ends with the string
    have hline : input.drop pos = entryLine e ++ [] := by simpa [At, List.intercalate] using h
    have hlen := congrArg List.length hline
    rw [List.length_drop, List.append_nil] at hlen
    refine ⟨nextline_eq hline fun _ _ _ => rfl, ?_⟩
    rw [At]
    omega
  | cons e' es =>
    have hline : input.drop pos =
        entryLine e ++ '\n' :: ['\n'].intercalate ((e' :: es).map entryLine) := by
      simpa [At, List.intercalate] using h
    refine ⟨nextline_eq hline fun _ _ _ => if_pos rfl, ?_⟩
    rw [At, Nat.add_assoc, ← List.drop_drop, hline]
    simp

/-- The vector and the maximum after the line of an entry -/
def record (s : List ℕ × ℕ) (e : ℕ × Name) : List ℕ × ℕ :=
  let v := resize s.1 e.1
  let cur := v.getLastD 0 + 1 + e.2.text.length
  if '.' ∈ e.2.text then (v, max s.2 cur) else (v ++ [cur], s.2)

lemma body_at {input : List Char} {pos pos' : ℕ} {e : ℕ × Name}
    (h : nextline input pos = ⟨e.2.text.length, pos', e.1, decide ('.' ∈ e.2.text)⟩)
    (v : List ℕ) (m : ℕ) :
    body input ⟨pos, m, v⟩ = .again ⟨pos', (record (v, m) e).2, (record (v, m) e).1⟩ := by
  have hpos : e.2.text.length > 0 := List.length_pos_iff.mpr e.2.ne_nil
  simp only [body, h, if_pos hpos, record]
  by_cases hdot : '.' ∈ e.2.text
  · simp only [hdot, decide_true, Bool.not_true, Bool.false_eq_true, if_false, if_true]
    split
    · rw [Nat.max_eq_right (by omega)]
    · rw [Nat.max_eq_left (by omega)]
  · simp [hdot]

lemma loop_at {input : List Char} {pos fuel : ℕ} {es : List (ℕ × Name)} (h : At input pos es)
    (hfuel : es.length < fuel) (v : List ℕ) (m : ℕ) :
    loop (body input) fuel ⟨pos, m, v⟩ = some (es.foldl record (v, m)).2 := by
  induction es generalizing pos fuel v m with
  | nil =>
    obtain ⟨k, rfl⟩ : ∃ k, fuel = k + 1 := ⟨fuel - 1, by omega⟩
    have hline : nextline input pos = ⟨0, pos, 0, false⟩ := if_pos h
    rw [loop]
    simp [body, hline]
  | cons e es ih =>
    obtain ⟨k, rfl⟩ : ∃ k, fuel = k + 1 := ⟨fuel - 1, by omega⟩
    obtain ⟨pos', hline, hat⟩ := nextline_at h
    have hk : es.length < k := by
      rw [List.length_cons] at hfuel
      omega
    rw [loop, body_at hline, List.foldl_cons]
    exact ih hat hk (record (v, m) e).1 (record (v, m) e).2

lemma at_listing (f : Forest) : At (listing f) 0 (f.entries 0) := by
  rw [listing]
  cases f.entries 0 with
  | nil => exact Nat.le_refl 0
  | cons e es => rfl

/-- The greatest length of a path below a directory whose own path has the length `base`; every
name is counted with the slash before it. -/
def Forest.deepest (base : ℕ) : Forest → ℕ
  | .nil => 0
  | .file name _ rest => max (base + 1 + name.text.length) (rest.deepest base)
  | .dir name _ children rest =>
    max (children.deepest (base + 1 + name.text.length)) (rest.deepest base)

lemma resize_of_prefix {st v : List ℕ} (h : st <+: v) : resize v st.length = st := by
  have hlen := h.length_le
  rw [resize, ← List.prefix_iff_eq_take.mp h, Nat.sub_eq_zero_of_le hlen, List.replicate_zero,
    List.append_nil]

/-- The directories above the forest stay in the vector. -/
lemma foldl_entries (f : Forest) {st v : List ℕ} (h : st <+: v) (m : ℕ) :
    st <+: ((f.entries st.length).foldl record (v, m)).1 ∧
      ((f.entries st.length).foldl record (v, m)).2 = max m (f.deepest (st.getLastD 0)) := by
  induction f generalizing st v m with
  | nil => exact ⟨h, (Nat.max_zero m).symm⟩
  | file name hdot rest ih =>
    have hrecord : record (v, m) (st.length, name) =
        (st, max m (st.getLastD 0 + 1 + name.text.length)) := by
      simp only [record, resize_of_prefix h, if_pos hdot]
    obtain ⟨hpre, hmax⟩ := ih (List.prefix_refl st) (max m (st.getLastD 0 + 1 + name.text.length))
    rw [Forest.entries, List.foldl_cons, hrecord]
    exact ⟨hpre, by rw [hmax, Forest.deepest, Nat.max_assoc]⟩
  | dir name hdot children rest ihc ihr =>
    have hrecord : record (v, m) (st.length, name) =
        (st ++ [st.getLastD 0 + 1 + name.text.length], m) := by
      simp only [record, resize_of_prefix h, if_neg hdot]
    obtain ⟨hpre, hmax⟩ := ihc (List.prefix_refl (st ++ [st.getLastD 0 + 1 + name.text.length])) m
    have hlast : (st ++ [st.getLastD 0 + 1 + name.text.length]).getLastD 0 =
        st.getLastD 0 + 1 + name.text.length := by simp
    have hlen : (st ++ [st.getLastD 0 + 1 + name.text.length]).length = st.length + 1 := by simp
    rw [hlast] at hmax
    rw [hlen] at hpre hmax
    rw [Forest.entries, List.foldl_cons, hrecord, List.foldl_append]
    generalize (children.entries (st.length + 1)).foldl record
      (st ++ [st.getLastD 0 + 1 + name.text.length], m) = s at hpre hmax ⊢
    obtain ⟨v', m'⟩ := s
    obtain ⟨hpre', hmax'⟩ := ihr ((List.prefix_append st _).trans hpre) m'
    simp only at hmax
    exact ⟨hpre', by rw [hmax', hmax, Forest.deepest, Nat.max_assoc]⟩

/-- The length of the path through these directories, every name with a slash -/
def cost (names : List Name) : ℕ := (names.map fun name => name.text.length + 1).sum

lemma length_path_add_one {names : List Name} (hne : names ≠ []) :
    (['/'].intercalate (names.map Name.text)).length + 1 = cost names := by
  induction names with
  | nil => exact absurd rfl hne
  | cons name names ih =>
    cases names with
    | nil => simp [cost, List.intercalate]
    | cons name' names =>
      have ih' := ih (by simp)
      have hpath : ['/'].intercalate ((name :: name' :: names).map Name.text) =
          name.text ++ '/' :: ['/'].intercalate ((name' :: names).map Name.text) := by
        simp [List.intercalate]
      rw [hpath, List.length_append, List.length_cons]
      simp only [cost, List.map_cons, List.sum_cons] at ih' ⊢
      omega

/-- The greatest of the lengths with a slash in front, 0 for no path -/
def maxCost (ps : List (List Char)) : ℕ := ps.foldr (fun p m => max (p.length + 1) m) 0

lemma maxCost_cons (p : List Char) (ps : List (List Char)) :
    maxCost (p :: ps) = max (p.length + 1) (maxCost ps) := rfl

lemma maxCost_append (ps qs : List (List Char)) :
    maxCost (ps ++ qs) = max (maxCost ps) (maxCost qs) := by
  induction ps with
  | nil => exact (Nat.zero_max _).symm
  | cons p ps ih => rw [List.cons_append, maxCost_cons, maxCost_cons, ih, Nat.max_assoc]

lemma cost_concat (above : List Name) (name : Name) :
    cost (above ++ [name]) = cost above + 1 + name.text.length := by
  simp only [cost, List.map_append, List.sum_append, List.map_singleton, List.sum_singleton]
  omega

lemma deepest_eq_maxCost (f : Forest) (above : List Name) :
    f.deepest (cost above) = maxCost (f.paths above) := by
  induction f generalizing above with
  | nil => rfl
  | file name hdot rest ih =>
    have hpath : (['/'].intercalate ((above ++ [name]).map Name.text)).length + 1 =
        cost (above ++ [name]) := length_path_add_one (by simp)
    rw [Forest.deepest, Forest.paths, ih, maxCost_cons, hpath, cost_concat]
  | dir name hdot children rest ihc ihr =>
    rw [Forest.deepest, Forest.paths, maxCost_append, ← ihc, ← ihr, cost_concat]

/-- Without the slash in front. -/
lemma pred_maxCost (ps : List (List Char)) :
    (if maxCost ps > 0 then maxCost ps - 1 else 0) = (ps.map List.length).max?.getD 0 := by
  induction ps with
  | nil => rfl
  | cons p ps ih =>
    rw [maxCost_cons, if_pos (by omega), List.map_cons, List.max?_cons, Option.getD_some]
    cases ps with
    | nil => rfl
    | cons q ps =>
      rw [maxCost_cons, List.map_cons, List.max?_cons] at ih ⊢
      rw [if_pos (by omega), Option.getD_some] at ih
      rw [Option.elim_some, ← ih]
      omega

/-- The longest path of a file, or 0 for a forest without files. -/
theorem lengthLongestPath_listing (f : Forest) :
    ∀ fuel, (f.entries 0).length < fuel → lengthLongestPath fuel (listing f) =
      some (((f.paths []).map List.length).max?.getD 0) := by
  intro fuel hfuel
  obtain ⟨-, hmax⟩ := foldl_entries f (List.prefix_refl []) 0
  have hdeepest : ((f.entries 0).foldl record ([], 0)).2 = maxCost (f.paths []) := by
    rw [← deepest_eq_maxCost]
    exact hmax.trans (Nat.zero_max _)
  rw [lengthLongestPath, loop_at (at_listing f) hfuel, Option.map_some, hdeepest, pred_maxCost]

/-- The directory of `main` -/
def mainForest : Forest :=
  .dir ⟨"dir".toList, by decide, by decide, by decide⟩ (by decide)
    (.dir ⟨"subdir1".toList, by decide, by decide, by decide⟩ (by decide) .nil
      (.dir ⟨"subdir2".toList, by decide, by decide, by decide⟩ (by decide)
        (.file ⟨"file.ext".toList, by decide, by decide, by decide⟩ (by decide) .nil) .nil)) .nil

theorem lengthLongestPath_listing_main :
    listing mainForest = "dir\n\tsubdir1\n\tsubdir2\n\t\tfile.ext".toList ∧
      mainForest.paths [] = ["dir/subdir2/file.ext".toList] ∧
      lengthLongestPath 5 (listing mainForest) =
        some (((mainForest.paths []).map List.length).max?.getD 0) :=
  ⟨by decide, by decide, lengthLongestPath_listing mainForest 5 (by decide)⟩

end CodeC.Leetcode388
