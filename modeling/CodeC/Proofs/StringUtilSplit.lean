import CodeC.StringUtil

/-!
# `split` and joined strings

`std::getline` fails at the end of the input when it has extracted nothing, so an empty string behind
the last delimiter is not an element of the result.
-/

namespace CodeC.StringUtil
open Library

variable {delim : Char}

lemma extract_append {w : List Char} (hw : delim ∉ w) (item rest : List Char) :
    extract delim item (w ++ rest) = extract delim (item ++ w) rest := by
  induction w generalizing item with
  | nil => rw [List.nil_append, List.append_nil]
  | cons c w ih =>
    rw [List.mem_cons, not_or] at hw
    rw [List.cons_append, extract, if_neg (Ne.symm hw.1), ih hw.2]
    simp

/-- A string in front of a delimiter -/
lemma getline_delim {w : List Char} (hw : delim ∉ w) (item rest : List Char) :
    getline ⟨w ++ delim :: rest, false, false⟩ item delim = (w, ⟨rest, false, false⟩) := by
  have hlen : ¬(w ++ delim :: rest).length = 0 := by simp
  unfold getline
  rw [if_neg (by simp), if_neg hlen, extract_append hw, extract, if_pos rfl, List.nil_append]

/-- A string at the end of the input -/
lemma getline_last {w : List Char} (hw : delim ∉ w) (hne : w ≠ []) (item : List Char) :
    getline ⟨w, false, false⟩ item delim = (w, ⟨[], true, false⟩) := by
  have hlen : ¬w.length = 0 := fun h => hne (List.eq_nil_of_length_eq_zero h)
  have hextract := extract_append hw [] []
  rw [List.append_nil] at hextract
  unfold getline
  rw [if_neg (by simp), if_neg hlen, hextract, extract, List.nil_append]

/-- The loop from a good stream that holds the joined strings -/
lemma loop_split {strs : List (List Char)} (hne : strs ≠ []) (hd : ∀ w ∈ strs, delim ∉ w)
    (elems : List (List Char)) (item : List Char) {fuel : ℕ} (hfuel : strs.length < fuel) :
    loop (splitRound delim) fuel ⟨elems, ⟨[delim].intercalate strs, false, false⟩, item⟩ =
      some (elems ++ if strs.getLast? = some [] then strs.dropLast else strs) := by
  induction strs generalizing elems item fuel with
  | nil => exact absurd rfl hne
  | cons w strs ih =>
    have hw := hd w (by simp)
    obtain ⟨fuel, rfl⟩ : ∃ k, fuel = k + 1 := ⟨fuel - 1, by omega⟩
    rw [List.length_cons] at hfuel
    cases strs with
    | nil =>
      rw [List.intercalate_singleton, List.getLast?_singleton]
      by_cases hempty : w = []
      · subst hempty
        simp [loop, splitRound, getline]
      · obtain ⟨fuel, rfl⟩ : ∃ k, fuel = k + 1 := ⟨fuel - 1, by omega⟩
        rw [if_neg (by simpa using hempty)]
        rw [loop, splitRound, getline_last hw hempty]
        -- the next call finds `eofbit` set
        simp [loop, splitRound, getline]
    | cons v strs =>
      have hjoin : [delim].intercalate (w :: v :: strs) =
          w ++ delim :: [delim].intercalate (v :: strs) := by simp [List.intercalate]
      have hih := ih (by simp) (fun u hu => hd u (by simp [hu])) (elems ++ [w]) w
        (show (v :: strs).length < fuel by omega)
      rw [loop, splitRound, hjoin, getline_delim hw]
      simp only [Bool.false_eq_true, if_false]
      rw [hih, List.getLast?_cons_cons]
      split <;> simp

/-- `split` gives back the strings that were joined, without the last one when that is empty. -/
theorem split_intercalate (delim : Char) (strs : List (List Char)) (hne : strs ≠ [])
    (hd : ∀ w ∈ strs, delim ∉ w) (fuel : ℕ) (hfuel : strs.length < fuel) :
    split fuel ([delim].intercalate strs) delim =
      some (if strs.getLast? = some [] then strs.dropLast else strs) := by
  have h := loop_split hne hd [] [] hfuel
  rwa [List.nil_append] at h

theorem split_intercalate_three :
    split 4 ",a,b".toList ',' = some [[], ['a'], ['b']] := by
  exact split_intercalate ',' [[], ['a'], ['b']] (by simp) (by simp) 4 (by decide)

/-- The empty string behind the last delimiter is lost. -/
theorem split_drops_last_empty :
    split 3 ([','].intercalate [['a'], []]) ',' = some [['a']] := by
  decide

end CodeC.StringUtil
