import Mathlib.Data.List.Basic
import Mathlib.Data.Nat.Notation

/-!
# Texts in buffers of fixed size

A buffer is a list of fixed length. Storing behind its end ends the computation with `none`.
`Begins` says which elements a computation has stored at the front of the buffer; a text that is
written piece by piece is the concatenation of its pieces.
-/

namespace CodeC.Library.CBuffer

variable {α : Type}

/-- Store `xs` from `offset` on. -/
def write (buf : List α) (offset : ℕ) (xs : List α) : Option (List α) :=
  if offset + xs.length ≤ buf.length then
    some (buf.take offset ++ xs ++ buf.drop (offset + xs.length))
  else none

/-- `sprintf(buf + offset, "%s", xs)` -/
def sprintf (nul : α) (buf : List α) (offset : ℕ) (xs : List α) : Option (List α) :=
  write buf offset (xs ++ [nul])

/-- `snprintf(buf + offset, size, "%s", xs)` -/
def snprintf (nul : α) (buf : List α) (offset size : ℕ) (xs : List α) : Option (List α) :=
  if size = 0 then some buf else write buf offset (xs.take (size - 1) ++ [nul])

/-- The text in front of the first `nul` -/
def cString [DecidableEq α] (nul : α) : List α → Option (List α)
  | [] => none
  | c :: cs => if c = nul then some [] else (cString nul cs).map (c :: ·)

/-- The computation has ended with a buffer of `size` elements, the first of which are `p`. -/
def Begins (r : Option (List α)) (size : ℕ) (p : List α) : Prop :=
  ∃ buf, r = some buf ∧ buf.length = size ∧ p <+: buf

/-- The computation goes on with a buffer of `size` elements, behind its first ones, which are `p`. -/
def Reaches (r : Option (List α × ℕ)) (size : ℕ) (p : List α) : Prop :=
  ∃ buf, r = some (buf, p.length) ∧ buf.length = size ∧ p <+: buf

section
variable {buf p q xs : List α} {size offset : ℕ}

/-- What is stored within the front replaces a part of it. -/
lemma begins_write (offset i : ℕ) (xs : List α) (hsize : buf.length = size) (hp : p ++ q <+: buf)
    (hoffset : offset = p.length + i) (hfits : i + xs.length ≤ q.length) :
    Begins (write buf offset xs) size (p ++ (q.take i ++ xs ++ q.drop (i + xs.length))) := by
  obtain ⟨rest, rfl⟩ := hp
  simp only [List.length_append] at hsize
  have hle : offset + xs.length ≤ (p ++ q ++ rest).length := by
    simp only [List.length_append]
    omega
  refine ⟨_, if_pos hle, ?_, rest, ?_⟩
  · simp only [List.length_append, List.length_take, List.length_drop]
    omega
  · rw [hoffset, List.append_assoc p q rest, List.take_length_add_append, Nat.add_assoc,
      List.drop_length_add_append, List.take_append_of_le_length (by omega),
      List.drop_append_of_le_length hfits]
    simp only [List.append_assoc]

/-- What is stored behind the front prolongs it. -/
lemma begins_append (xs : List α) (hsize : buf.length = size) (hp : p <+: buf) (hoffset : offset = p.length)
    (hfits : offset + xs.length ≤ size) : Begins (write buf offset xs) size (p ++ xs) := by
  obtain ⟨rest, rfl⟩ := hp
  rw [List.length_append] at hsize
  have hle : offset + xs.length ≤ (p ++ rest).length := by
    rw [List.length_append]
    omega
  refine ⟨_, if_pos hle, ?_, rest.drop xs.length, ?_⟩
  · simp only [List.length_append, List.length_take, List.length_drop]
    omega
  · rw [hoffset, List.take_left, List.drop_length_add_append]

lemma begins_sprintf (nul : α) (xs : List α) (hsize : buf.length = size) (hp : p <+: buf)
    (hoffset : offset = p.length) (hfits : offset + xs.length < size) :
    Begins (sprintf nul buf offset xs) size (p ++ xs ++ [nul]) := by
  rw [List.append_assoc]
  refine begins_append (xs ++ [nul]) hsize hp hoffset ?_
  rw [List.length_append, List.length_singleton]
  omega

/-- A text that fits is not cut. -/
lemma begins_snprintf (nul : α) (xs : List α) {room : ℕ} (hsize : buf.length = size) (hp : p <+: buf)
    (hoffset : offset = p.length) (hroom : offset + room = size) (hfits : xs.length < room) :
    Begins (snprintf nul buf offset room xs) size (p ++ xs ++ [nul]) := by
  unfold snprintf
  rw [if_neg (by omega), List.take_of_length_le (by omega)]
  exact begins_sprintf nul xs hsize hp hoffset (by omega)

end

lemma cString_of_begins [DecidableEq α] {nul : α} {buf p : List α} (hp : p ++ [nul] <+: buf)
    (hnul : nul ∉ p) : cString nul buf = some p := by
  obtain ⟨rest, rfl⟩ := hp
  induction p with
  | nil => exact if_pos rfl
  | cons c p ih =>
    rw [List.mem_cons, not_or] at hnul
    change (if c = nul then some [] else (cString nul (p ++ [nul] ++ rest)).map (c :: ·)) = _
    rw [if_neg (Ne.symm hnul.1), ih hnul.2]
    rfl

end CodeC.Library.CBuffer
