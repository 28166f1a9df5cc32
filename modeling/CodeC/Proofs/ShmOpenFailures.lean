import CodeC.ShmOpen

/-!
# What a failed open call leaves in the object

The open calls set `managed_shm_` to the result of `mmap` before they look at it. Only `Open` of
`shm.hpp` sets it back. After a failure in `mmap`, and in `shmblock4.cpp` after a failed `CheckValid`,
the object counts as attached.
-/

namespace CodeC.ShmOpen
open Library ShmBlock4

/-- When the call has failed, the object is unattached as before, and the next acquire call makes an
open call first. -/
def Kept (b : ShmBlock) (c : Call) : Prop :=
  c.result = false → c.block.managedShm = .null ∧ c.block.state = b.state ∧
    c.block.buffer = b.buffer ∧ ∀ call, openFirst c.block call = some call

variable {b : ShmBlock} {c : Call}

lemma kept_of_success (h : c.result = true) : Kept b c := by
  intro hfail
  rw [h] at hfail
  cases hfail

lemma kept_of_same (hb : b.managedShm = .null) (h : c.block = b) : Kept b c := by
  intro _
  rw [h]
  exact ⟨hb, rfl, rfl, fun call => if_pos hb⟩

lemma not_kept_of_attached (hfail : c.result = false) (h : c.block.managedShm ≠ .null) :
    ¬Kept b c :=
  fun hkept => h (hkept hfail).1

lemma kept_ite_iff {P : Prop} [Decidable P] {d : Call} (hc : ¬Kept b c) (hd : Kept b d) :
    Kept b (if P then c else d) ↔ ¬P := by
  split
  · rename_i hP
    exact iff_of_false hc (not_not_intro hP)
  · rename_i hP
    exact iff_of_true hd hP

section calls

variable (m : Memory) (f : Faults) (hb : b.managedShm = .null)
include hb

lemma create_kept_iff (eexist : Bool) :
    Kept b (create m b f eexist) ↔
      (f.shmCreate = false → f.ftruncate = false → 0 ≤ cap b → f.mmap = false ∧ cap b ≠ 0) := by
  unfold create
  rw [if_neg (not_not_intro hb)]
  cases hopen : f.shmCreate with
  | true =>
    -- without a descriptor `ftruncate` fails as well
    simp only [shmOpenCreate, if_true, ftruncate]
    refine iff_of_true ?_ (fun h => by cases h)
    split
    · exact kept_of_same hb rfl
    · exact kept_of_same hb rfl
  | false =>
    obtain ⟨m', g, hfd⟩ : ∃ m' g, shmOpenCreate m false = (m', some g) := by
      unfold shmOpenCreate
      cases m.name with
      | some g => exact ⟨_, _, rfl⟩
      | none => exact ⟨_, _, rfl⟩
    simp only [hfd, ftruncate]
    rw [if_neg (by simp)]
    by_cases hsize : f.ftruncate = true ∨ cap b < 0
    · rw [if_pos hsize]
      refine iff_of_true (kept_of_same hb rfl) fun _ htrunc hcap => ?_
      rw [htrunc] at hsize
      exact absurd hsize (by simpa using hcap)
    · rw [if_neg hsize]
      dsimp only
      rw [kept_ite_iff (not_kept_of_attached rfl (by simp)) (kept_of_success rfl)]
      rw [not_or, Bool.not_eq_true, not_lt] at hsize
      simp [hsize]

lemma openShm_kept : Kept b (openShm m b f) := by
  unfold openShm
  rw [if_neg (not_not_intro hb)]
  split
  · exact kept_of_same hb rfl
  · split
    · exact kept_of_same hb rfl
    · split
      · apply kept_of_same hb
        rw [← hb]
      · exact kept_of_success rfl

/-- The segment, when there is one, can be mapped and has the geometry of the object. -/
def Fits (m : Memory) (b : ShmBlock) (f : Faults) : Prop :=
  ∀ g, m.name = some g → f.shmOpen = false → f.fstat = false →
    f.mmap = false ∧ (m.segment g).size ≠ 0 ∧ checkValid (m.segment g) b = true

lemma openOnly_kept_iff : Kept b (openOnly m b f) ↔ Fits m b f := by
  unfold openOnly Fits
  rw [if_neg (not_not_intro hb)]
  cases hname : m.name with
  | none =>
    refine iff_of_true (kept_of_same hb rfl) fun g h => ?_
    cases h
  | some g =>
    dsimp only
    by_cases hopen : (f.shmOpen || f.fstat) = true
    · rw [if_pos hopen]
      refine iff_of_true (kept_of_same hb rfl) fun g' _ h₁ h₂ => ?_
      rw [h₁, h₂] at hopen
      cases hopen
    · rw [if_neg hopen]
      rw [Bool.or_eq_true, not_or, Bool.not_eq_true, Bool.not_eq_true] at hopen
      by_cases hmap : f.mmap = true ∨ (m.segment g).size = 0
      · rw [if_pos hmap]
        refine iff_of_false (not_kept_of_attached rfl (by simp)) fun h => ?_
        obtain ⟨hmmap, hsize, -⟩ := h g rfl hopen.1 hopen.2
        rw [hmmap] at hmap
        exact absurd hmap (by simpa using hsize)
      · rw [if_neg hmap, kept_ite_iff (not_kept_of_attached rfl (by simp [ShmBlock.attach]))
          (kept_of_success rfl)]
        rw [not_or, Bool.not_eq_true] at hmap
        simp [hopen, hmap]

lemma openOrCreate_kept_iff :
    Kept b (openOrCreate m b f) ↔ (f.shmCreate = false → Fits m b f ∧
      (m.name = none → f.ftruncate = false → 0 ≤ b.cap → f.mmap = false ∧ b.cap ≠ 0)) := by
  unfold openOrCreate
  rw [if_neg (not_not_intro hb)]
  by_cases hcreate : f.shmCreate = true
  · rw [if_pos hcreate]
    refine iff_of_true (kept_of_same hb rfl) fun h => ?_
    rw [hcreate] at h
    cases h
  · rw [if_neg hcreate]
    cases hname : m.name with
    | some g =>
      dsimp only
      rw [openOnly_kept_iff m f hb]
      simp [hcreate]
    | none =>
      have hfits : Fits m b f := by
        intro g hg
        rw [hname] at hg
        cases hg
      dsimp only
      by_cases hsize : f.ftruncate = true ∨ b.cap < 0
      · rw [if_pos hsize]
        refine iff_of_true (kept_of_same hb rfl) fun _ => ⟨hfits, fun _ htrunc hcap => ?_⟩
        rw [htrunc] at hsize
        exact absurd hsize (by simpa using hcap)
      · rw [if_neg hsize, kept_ite_iff (not_kept_of_attached rfl (by simp)) (kept_of_success rfl)]
        rw [not_or, Bool.not_eq_true, not_lt] at hsize
        simp [hcreate, hsize, hfits]

end calls

/-- A failed open call leaves the object unattached unless it failed in `mmap` or, in
`shmblock4.cpp`, in `CheckValid`; `Open` always does. -/
theorem failed_open_keeps_iff (m : Memory) (b : ShmBlock) (f : Faults)
    (hb : b.managedShm = .null) :
    (∀ eexist, Kept b (create m b f eexist) ↔
      (f.shmCreate = false → f.ftruncate = false → 0 ≤ cap b → f.mmap = false ∧ cap b ≠ 0)) ∧
    Kept b (openShm m b f) ∧
    (Kept b (openOnly m b f) ↔ Fits m b f) ∧
    (Kept b (openOrCreate m b f) ↔ (f.shmCreate = false → Fits m b f ∧
      (m.name = none → f.ftruncate = false → 0 ≤ b.cap → f.mmap = false ∧ b.cap ≠ 0))) :=
  ⟨create_kept_iff m f hb, openShm_kept m f hb, openOnly_kept_iff m f hb,
    openOrCreate_kept_iff m f hb⟩

/-- A name for a segment of four blocks of ten bytes -/
def fourBlocks : Memory := ⟨some 0, fun _ => ⟨488, 10, 4, 1⟩, 1⟩

theorem failed_open_keeps_iff_fstat :
    Kept ⟨4, 10, .null, none, none⟩
      (openOnly fourBlocks ⟨4, 10, .null, none, none⟩ ⟨false, false, false, true, false⟩) ∧
    Kept ⟨5, 10, .null, none, none⟩
      (create fourBlocks ⟨5, 10, .null, none, none⟩ ⟨false, false, true, false, true⟩ false) := by
  constructor
  · apply (failed_open_keeps_iff fourBlocks ⟨4, 10, .null, none, none⟩
      ⟨false, false, false, true, false⟩ rfl).2.2.1.mpr
    intro g _ _ hfstat
    cases hfstat
  · apply ((failed_open_keeps_iff fourBlocks ⟨5, 10, .null, none, none⟩
      ⟨false, false, true, false, true⟩ rfl).1 false).mpr
    intro _ htrunc
    cases htrunc

/-- After a failed `mmap` in `Create` the object holds `MAP_FAILED`. After a failed `CheckValid` it
is attached, and the next `OpenOnly` returns true. -/
theorem failed_open_stays_attached :
    ((create fourBlocks ⟨4, 10, .null, none, none⟩ ⟨false, false, false, false, true⟩ false).result =
        false ∧
      (create fourBlocks ⟨4, 10, .null, none, none⟩ ⟨false, false, false, false, true⟩
        false).block.managedShm = .failed) ∧
    (openOnly fourBlocks ⟨5, 10, .null, none, none⟩ ⟨false, false, false, false, false⟩).result =
      false ∧
    (openOnly fourBlocks ⟨5, 10, .null, none, none⟩ ⟨false, false, false, false, false⟩).block =
      ⟨5, 10, .segment 0, some 0, none⟩ ∧
    (openOnly fourBlocks ⟨5, 10, .segment 0, some 0, none⟩
      ⟨false, false, false, false, false⟩).result = true := by
  decide

end CodeC.ShmOpen
