import Mathlib.Logic.Function.Basic
import Mathlib.Data.List.Basic

/-!
# Total store order

Each processor keeps its stores in a first-in first-out buffer until they reach the memory. It
sees the memory as it will be when its own buffer is written out, and nothing of the other buffers.
-/

namespace CodeC.Library

/-- The buffers hold the oldest store first. -/
structure Tso (κ ℓ ν : Type) where
  memory : ℓ → ν
  buffer : κ → List (ℓ × ν)

namespace Tso

variable {κ ℓ ν : Type} [DecidableEq κ] [DecidableEq ℓ]

def writeOut (m : ℓ → ν) (stores : List (ℓ × ν)) : ℓ → ν :=
  stores.foldl (fun m e => Function.update m e.1 e.2) m

/-- What a load of processor `c` returns -/
def load (t : Tso κ ℓ ν) (c : κ) (x : ℓ) : ν := writeOut t.memory (t.buffer c) x

def store (t : Tso κ ℓ ν) (c : κ) (x : ℓ) (v : ν) : Tso κ ℓ ν :=
  { t with buffer := Function.update t.buffer c (t.buffer c ++ [(x, v)]) }

/-- The oldest store of processor `c` reaches the memory. -/
def flush (t : Tso κ ℓ ν) (c : κ) : Option (Tso κ ℓ ν) :=
  match t.buffer c with
  | [] => none
  | e :: es => some ⟨Function.update t.memory e.1 e.2, Function.update t.buffer c es⟩

/-- A fence and a locked instruction of `c` wait for this. -/
def Drained (t : Tso κ ℓ ν) (c : κ) : Prop := (t.buffer c).isEmpty

instance (t : Tso κ ℓ ν) (c : κ) : Decidable (t.Drained c) := inferInstanceAs (Decidable (_ = _))

lemma writeOut_cons (m : ℓ → ν) (e : ℓ × ν) (stores : List (ℓ × ν)) :
    writeOut m (e :: stores) = writeOut (Function.update m e.1 e.2) stores := rfl

lemma writeOut_of_notMem {m : ℓ → ν} {stores : List (ℓ × ν)} {x : ℓ}
    (h : ∀ v, (x, v) ∉ stores) : writeOut m stores x = m x := by
  induction stores generalizing m with
  | nil => rfl
  | cons e stores ih =>
    have hne : x ≠ e.1 := by
      rintro rfl
      exact h e.2 (by simp)
    rw [writeOut_cons, ih (fun v hv => h v (by simp [hv])), Function.update_of_ne hne]

/-- A location that only `a` is stored to, and that holds `a` -/
lemma writeOut_eq {m : ℓ → ν} {stores : List (ℓ × ν)} {x : ℓ} {a : ν}
    (h : ∀ v, (x, v) ∈ stores → v = a) (hm : m x = a) : writeOut m stores x = a := by
  induction stores generalizing m with
  | nil => exact hm
  | cons e stores ih =>
    rw [writeOut_cons]
    apply ih
    · intro v hv
      exact h v (by simp [hv])
    · by_cases hx : x = e.1
      · subst hx
        rw [Function.update_self]
        exact h e.2 (by simp)
      · rw [Function.update_of_ne hx, hm]

lemma writeOut_congr {m m' : ℓ → ν} (stores : List (ℓ × ν)) {x : ℓ} (h : m x = m' x) :
    writeOut m stores x = writeOut m' stores x := by
  induction stores generalizing m m' with
  | nil => exact h
  | cons e stores ih =>
    rw [writeOut_cons, writeOut_cons]
    apply ih
    by_cases hx : x = e.1
    · subst hx
      rw [Function.update_self, Function.update_self]
    · rw [Function.update_of_ne hx, Function.update_of_ne hx, h]

omit [DecidableEq κ] in
lemma load_of_notMem {t : Tso κ ℓ ν} {c : κ} {x : ℓ} (h : ∀ v, (x, v) ∉ t.buffer c) :
    t.load c x = t.memory x := writeOut_of_notMem h

omit [DecidableEq κ] in
lemma load_of_drained {t : Tso κ ℓ ν} {c : κ} (h : t.Drained c) (x : ℓ) :
    t.load c x = t.memory x := by
  apply load_of_notMem
  intro v
  rw [List.isEmpty_iff.mp h]
  simp

lemma load_store_self (t : Tso κ ℓ ν) (c : κ) (x : ℓ) (v : ν) : (t.store c x v).load c x = v := by
  unfold load store writeOut
  dsimp only
  rw [Function.update_self, List.foldl_append]
  exact Function.update_self ..

lemma load_store_of_ne (t : Tso κ ℓ ν) (c c' : κ) {x y : ℓ} (v : ν) (h : y ≠ x) :
    (t.store c x v).load c' y = t.load c' y := by
  unfold load store writeOut
  dsimp only
  by_cases hc : c' = c
  · subst hc
    rw [Function.update_self, List.foldl_append]
    exact Function.update_of_ne h ..
  · rw [Function.update_of_ne hc]

omit [DecidableEq ℓ] in
lemma mem_buffer_store {t : Tso κ ℓ ν} {c c' : κ} {x y : ℓ} {v w : ν} :
    (y, w) ∈ (t.store c x v).buffer c' ↔ (y, w) ∈ t.buffer c' ∨ (c' = c ∧ y = x ∧ w = v) := by
  unfold store
  dsimp only
  by_cases hc : c' = c
  · subst hc
    simp
  · rw [Function.update_of_ne hc]
    simp [hc]

lemma flush_eq_some {t t' : Tso κ ℓ ν} {c : κ} (h : t.flush c = some t') :
    ∃ y w es, t.buffer c = (y, w) :: es ∧
      t' = ⟨Function.update t.memory y w, Function.update t.buffer c es⟩ := by
  unfold flush at h
  cases hb : t.buffer c with
  | nil => simp [hb] at h
  | cons e es =>
    simp only [hb, Option.some.injEq] at h
    exact ⟨e.1, e.2, es, rfl, h.symm⟩

lemma mem_buffer_of_flush {t t' : Tso κ ℓ ν} {c c' : κ} {e : ℓ × ν} (h : t.flush c = some t')
    (he : e ∈ t'.buffer c') : e ∈ t.buffer c' := by
  obtain ⟨y, w, es, hb, rfl⟩ := flush_eq_some h
  dsimp only at he
  by_cases hc : c' = c
  · subst hc
    rw [Function.update_self] at he
    rw [hb]
    exact List.mem_cons_of_mem _ he
  · rwa [Function.update_of_ne hc] at he

/-- A processor does not see its own stores reach the memory. -/
lemma load_flush_self {t t' : Tso κ ℓ ν} {c : κ} (h : t.flush c = some t') (x : ℓ) :
    t'.load c x = t.load c x := by
  obtain ⟨y, w, es, hb, rfl⟩ := flush_eq_some h
  unfold load
  dsimp only
  rw [Function.update_self, hb]
  rfl

lemma load_flush_of_notMem {t t' : Tso κ ℓ ν} {c : κ} (c' : κ) {x : ℓ} (h : t.flush c = some t')
    (hx : ∀ v, (x, v) ∉ t.buffer c) : t'.load c' x = t.load c' x := by
  by_cases hc : c' = c
  · subst hc
    exact load_flush_self h x
  · obtain ⟨y, w, es, hb, rfl⟩ := flush_eq_some h
    have hne : x ≠ y := by
      rintro rfl
      exact hx w (by simp [hb])
    unfold load
    dsimp only
    rw [Function.update_of_ne hc]
    exact writeOut_congr _ (Function.update_of_ne hne ..)

/-- A location that only `a` is stored to keeps the value `a`. -/
lemma load_flush_eq {t t' : Tso κ ℓ ν} {c c' : κ} {x : ℓ} {a : ν} (h : t.flush c = some t')
    (hx : ∀ c v, (x, v) ∈ t.buffer c → v = a) (hload : t.load c' x = a) : t'.load c' x = a := by
  by_cases hc : c' = c
  · subst hc
    rw [load_flush_self h, hload]
  · obtain ⟨y, w, es, hb, rfl⟩ := flush_eq_some h
    unfold load at hload ⊢
    dsimp only
    rw [Function.update_of_ne hc]
    by_cases hxy : x = y
    · subst hxy
      apply writeOut_eq (hx c')
      rw [Function.update_self]
      exact hx c w (by simp [hb])
    · rw [writeOut_congr _ (Function.update_of_ne hxy ..), hload]

end Tso

end CodeC.Library
