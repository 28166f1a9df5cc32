import CodeC.Zmalloc
import Mathlib.Data.Nat.Bitwise

/-!
# What `used_memory` counts

The counter is the sum of the blocks' sizes with their padding until `zmalloc_enable_thread_safeness`
is called. From then on it counts sizes without padding, and the padding of the blocks that were
allocated at that moment stays in it forever.
-/

namespace CodeC.Zmalloc
open Library

def total (f : Block → UInt64) (bs : List Block) : UInt64 := bs.foldr (fun b n => f b + n) 0

lemma total_cons (f : Block → UInt64) (b : Block) (bs : List Block) :
    total f (b :: bs) = f b + total f bs := rfl

lemma total_eraseP (f : Block → UInt64) {bs : List Block} {ptr : ℕ} {b : Block}
    (h : bs.find? (fun b => b.ptr == ptr) = some b) :
    total f bs = f b + total f (bs.eraseP fun b => b.ptr == ptr) := by
  induction bs with
  | nil => simp at h
  | cons c bs ih =>
    by_cases hc : c.ptr = ptr
    · have hb : c = b := by simpa [hc] using h
      rw [List.eraseP_cons_of_pos (by simpa using hc), total_cons, hb]
    · have hrest : bs.find? (fun b => b.ptr == ptr) = some b := by simpa [hc] using h
      rw [List.eraseP_cons_of_neg (by simpa using hc), total_cons, total_cons, ih hrest]
      grind

lemma total_remove (f : Block → UInt64) {s : State} {ptr : ℕ} {b : Block}
    (h : s.lookup ptr = some b) : total f s.blocks = f b + total f (s.remove ptr).blocks :=
  total_eraseP f h

lemma total_add (f g : Block → UInt64) (bs : List Block) :
    total (fun b => f b + g b) bs = total f bs + total g bs := by
  induction bs with
  | nil => rfl
  | cons b bs ih =>
    rw [total_cons, total_cons, total_cons, ih]
    grind

/-- The prefix is a multiple of `sizeof(long)`. -/
lemma padding_add_prefixSize (n : UInt64) : padding (n + prefixSize) = padding n := by
  have hmod : ∀ m : UInt64, (m &&& 7).toNat = m.toNat % 8 := by
    intro m
    rw [UInt64.toNat_and]
    exact Nat.and_two_pow_sub_one_eq_mod m.toNat 3
  have hand : (n + prefixSize) &&& 7 = n &&& 7 := by
    apply UInt64.toNat_inj.mp
    have hadd : (n + prefixSize).toNat = (n.toNat + 8) % 2 ^ 64 := UInt64.toNat_add n prefixSize
    rw [hmod, hmod, hadd]
    omega
  unfold padding
  rw [hand]

/-- What the macros count for a block when no prefix is added -/
def counted (threadSafe : Bool) (n : UInt64) : UInt64 := if threadSafe then n else n + padding n

/-- The counter is the sum over the blocks, and `drift` more. -/
def Counts (drift : UInt64) (s : State) : Prop :=
  s.usedMemory = total (fun b => counted s.threadSafe b.size + prefixSize) s.blocks + drift

lemma counted_add_prefixSize (threadSafe : Bool) (n : UInt64) :
    counted threadSafe (n + prefixSize) = counted threadSafe n + prefixSize := by
  unfold counted
  cases threadSafe with
  | true => rfl
  | false =>
    rw [padding_add_prefixSize]
    simp only [Bool.false_eq_true, if_false]
    grind

lemma Counts.handOut {drift : UInt64} {s : State} (h : Counts drift s) (ptr : ℕ) (size : UInt64) :
    Counts drift (handOut s ptr size) := by
  unfold Counts at h ⊢
  change s.usedMemory + counted s.threadSafe (size + prefixSize) =
    total (fun b => counted s.threadSafe b.size + prefixSize) (⟨ptr, size⟩ :: s.blocks) + drift
  rw [h, total_cons, counted_add_prefixSize]
  grind

lemma Counts.free {drift : UInt64} {s : State} {ptr : ℕ} {b : Block} (h : Counts drift s)
    (hb : s.lookup ptr = some b) : Counts drift ((statFree s (b.size + prefixSize)).remove ptr) := by
  unfold Counts at h ⊢
  change s.usedMemory - counted s.threadSafe (b.size + prefixSize) =
    total (fun b => counted s.threadSafe b.size + prefixSize) (s.remove ptr).blocks + drift
  rw [h, total_remove _ hb, counted_add_prefixSize]
  grind

/-- The prefix is counted neither for the old block nor for the new one. -/
lemma Counts.realloc {drift : UInt64} {s : State} {ptr : ℕ} {b : Block} (h : Counts drift s)
    (hb : s.lookup ptr = some b) (newptr : ℕ) (size : UInt64) :
    Counts drift (statAlloc (statFree
      { s.remove ptr with blocks := ⟨newptr, size⟩ :: (s.remove ptr).blocks } b.size) size) := by
  unfold Counts at h ⊢
  change s.usedMemory - counted s.threadSafe b.size + counted s.threadSafe size =
    total (fun b => counted s.threadSafe b.size + prefixSize)
      (⟨newptr, size⟩ :: (s.remove ptr).blocks) + drift
  rw [h, total_remove _ hb, total_cons]
  grind

/-- Each call changes the counter by what it changes the blocks by. Switching to the thread-safe
mode keeps this only when the mode is on. -/
lemma Counts.step {drift : UInt64} {s s' : State} {a : Action} (h : Counts drift s)
    (ha : a = .enable → s.threadSafe = true) (hs : step s a = some s') :
    Counts drift s' ∧ s'.threadSafe = s.threadSafe := by
  cases a with
  | malloc ptr size =>
    obtain rfl := Option.some.inj hs
    exact ⟨h.handOut ptr size, rfl⟩
  | calloc ptr size =>
    obtain rfl := Option.some.inj hs
    exact ⟨h.handOut ptr size, rfl⟩
  | strdup ptr len =>
    obtain rfl := Option.some.inj hs
    exact ⟨h.handOut ptr _, rfl⟩
  | enable =>
    obtain rfl := Option.some.inj hs
    have hs' : zmallocEnableThreadSafeness s = s := by
      unfold zmallocEnableThreadSafeness
      rw [← ha rfl]
    rw [hs']
    exact ⟨h, rfl⟩
  | free ptr =>
    cases ptr with
    | none =>
      obtain rfl := Option.some.inj hs
      exact ⟨h, rfl⟩
    | some ptr =>
      simp only [Zmalloc.step, zfree] at hs
      cases hb : s.lookup ptr with
      | none => simp [hb] at hs
      | some b =>
        simp only [hb, Option.some.injEq] at hs
        obtain rfl := hs
        exact ⟨h.free hb, rfl⟩
  | realloc ptr newptr size =>
    cases ptr with
    | none =>
      obtain rfl := Option.some.inj hs
      exact ⟨h.handOut newptr size, rfl⟩
    | some ptr =>
      simp only [Zmalloc.step, zrealloc] at hs
      cases hb : s.lookup ptr with
      | none => simp [hb] at hs
      | some b =>
        simp only [hb, Option.some.injEq] at hs
        obtain rfl := hs
        exact ⟨h.realloc hb newptr size, rfl⟩

lemma Counts.run_before {drift : UInt64} {s t : State} {as : List Action} {es : List Empty}
    (h : Counts drift s) (hs : s.threadSafe = false) (has : ∀ a ∈ as, a ≠ .enable)
    (hrun : run (silent Zmalloc.step) s as = some (t, es)) :
    Counts drift t ∧ t.threadSafe = false := by
  refine run_invariant_on (silent Zmalloc.step) (fun (g : Unit) _ => g) (· ≠ Action.enable)
    (fun u _ => Counts drift u ∧ u.threadSafe = false) ?_ has (g := ()) ⟨h, hs⟩ hrun
  intro u _ a u' fs ha hu hstep
  obtain ⟨hc, hmode⟩ := hu.1.step (fun he => absurd he ha) (silent_eq_some hstep)
  exact ⟨hc, hmode.trans hu.2⟩

lemma Counts.run_after {drift : UInt64} {s t : State} {as : List Action} {es : List Empty}
    (h : Counts drift s) (hs : s.threadSafe = true)
    (hrun : run (silent Zmalloc.step) s as = some (t, es)) :
    Counts drift t ∧ t.threadSafe = true := by
  refine run_invariant_state (silent Zmalloc.step)
    (fun u => Counts drift u ∧ u.threadSafe = true) ?_ ⟨h, hs⟩ hrun
  intro u a u' fs hu hstep
  obtain ⟨hc, hmode⟩ := hu.1.step (fun _ => hu.2) (silent_eq_some hstep)
  exact ⟨hc, hmode.trans hu.2⟩

/-- The switch turns the padding of the blocks into drift. -/
lemma Counts.enable {s : State} (h : Counts 0 s) (hs : s.threadSafe = false) :
    Counts (total (fun b => padding b.size) s.blocks) (zmallocEnableThreadSafeness s) := by
  unfold Counts at h ⊢
  change s.usedMemory = total (fun b => b.size + prefixSize) s.blocks + _
  rw [h, hs, ← total_add]
  simp only [counted, Bool.false_eq_true, if_false]
  have hsum : ∀ n : UInt64, n + padding n + prefixSize = n + prefixSize + padding n := by
    intro n
    grind
  simp only [hsum]
  grind

/-- Until the thread-safe mode is enabled the counter is the sum of what `zmalloc_size` returns for
the allocated blocks. After that it is the sum of the sizes with their prefixes, and on top of it
the padding of the blocks that were allocated at the switch, whether they have been freed or not. -/
theorem used_memory_counts_blocks (as bs : List Action) (u t : State) (es fs : List Empty)
    (has : ∀ a ∈ as, a ≠ .enable) (hu : run (silent step) init as = some (u, es))
    (ht : run (silent step) u (.enable :: bs) = some (t, fs)) :
    zmallocUsedMemory u = total zmallocSize u.blocks ∧
      zmallocUsedMemory t =
        total (fun b => b.size + prefixSize) t.blocks + total (fun b => padding b.size) u.blocks := by
  have hinit : Counts 0 init := rfl
  obtain ⟨hcount, hmode⟩ := hinit.run_before rfl has hu
  constructor
  · have hc := hcount
    unfold Counts counted at hc
    rw [hmode, UInt64.add_zero] at hc
    exact hc
  · obtain ⟨v, e, f, hstep, hrun, -⟩ := (run_cons_iff _ _ _ _ _ _).mp ht
    obtain rfl := Option.some.inj (silent_eq_some hstep)
    obtain ⟨hc, hsafe⟩ := (hcount.enable hmode).run_after rfl hrun
    unfold Counts counted at hc
    rw [hsafe] at hc
    exact hc

/-- A string of two characters is duplicated before the switch and freed after it. -/
theorem used_memory_counts_blocks_string :
    ∃ u t es fs, run (silent step) init [.strdup 1 2, .malloc 2 16] = some (u, es) ∧
      run (silent step) u [.enable, .free (some 1), .free (some 2)] = some (t, fs) ∧
      zmallocUsedMemory u = total zmallocSize u.blocks ∧
      zmallocUsedMemory t =
        total (fun b => b.size + prefixSize) t.blocks + total (fun b => padding b.size) u.blocks ∧
      t.blocks = [] ∧ zmallocUsedMemory t = 5 := by
  refine ⟨_, _, _, _, rfl, rfl, ?_, ?_, rfl, by decide⟩
  · exact (used_memory_counts_blocks [.strdup 1 2, .malloc 2 16] [.free (some 1), .free (some 2)]
      _ _ _ _ (by simp) rfl rfl).1
  · exact (used_memory_counts_blocks [.strdup 1 2, .malloc 2 16] [.free (some 1), .free (some 2)]
      _ _ _ _ (by simp) rfl rfl).2

end CodeC.Zmalloc
