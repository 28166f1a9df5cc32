import CodeC.Proofs.CanFrameLongText
import Mathlib.Data.List.Flatten
import Mathlib.Data.List.Forall2

/-!
# The description of an error frame

`errorText` is the text that `snprintf_can_error_frame` prints piece by piece. It is never cut in the
buffer of `fprint_long_canframe`. For some error classes the function prints nothing; the buffer then
still holds the line of the frame, which is printed once more.
-/

namespace CodeC.CanFrame
open Library.CBuffer

/-- The buffer begins with the text `t`, with a NUL behind it as soon as something is printed. -/
def Front (buf t : List UInt8) : Prop := t <+: buf ∧ (t ≠ [] → t ++ [0] <+: buf)

/-- The printer puts `ys` behind what is in the buffer, if there is room for it and a NUL. -/
def Prints (p : Printer) (ys : List UInt8) : Prop :=
  ∀ buf t len, buf.length = t.length + len → len < UInt64.size → Front buf t → ys.length < len →
    ∃ buf', p buf t.length len = some (buf', ys.length) ∧ buf'.length = buf.length ∧
      Front buf' (t ++ ys)

/-- The printers print `ys` in turn. -/
def PrintAll (ps : List Printer) (ys : List UInt8) : Prop :=
  ∃ yss, List.Forall₂ Prints ps yss ∧ yss.flatten = ys

lemma prints_printText (xs : List UInt8) : Prints (printText xs) xs := by
  intro buf t len hsize _ hfront hfits
  obtain ⟨buf', hprint, hsize', hp⟩ :=
    begins_snprintf 0 xs hsize hfront.1 rfl rfl hfits
  refine ⟨buf', ?_, hsize'.trans hsize.symm, (List.prefix_append _ [0]).trans hp, fun _ => hp⟩
  unfold printText
  rw [hprint]
  rfl

lemma sizeSub_of_le {len n : ℕ} (hn : n ≤ len) (hlen : len < UInt64.size) :
    sizeSub len n = len - n := by
  unfold sizeSub
  rw [show len + UInt64.size - n = len - n + UInt64.size by omega, Nat.add_mod_right,
    Nat.mod_eq_of_lt (by omega)]

lemma foldlM_advance {ps : List Printer} {yss : List (List UInt8)} (h : List.Forall₂ Prints ps yss)
    {buf t : List UInt8} {base len n : ℕ} (hbase : t.length = base + n)
    (hsize : buf.length = base + len) (hlen : len < UInt64.size) (hfront : Front buf t)
    (hfits : n + yss.flatten.length < len) :
    ∃ buf', ps.foldlM (advance base len) (buf, n) = some (buf', n + yss.flatten.length) ∧
      buf'.length = buf.length ∧ Front buf' (t ++ yss.flatten) := by
  induction h generalizing buf t n with
  | nil => exact ⟨buf, rfl, rfl, by rw [List.flatten_nil, List.append_nil]; exact hfront⟩
  | @cons p ys ps yss hp _ ih =>
    rw [List.flatten_cons, List.length_append] at hfits ⊢
    have hroom : sizeSub len n = len - n := sizeSub_of_le (by omega) hlen
    obtain ⟨buf1, hprint, hsize1, hfront1⟩ := hp buf t (len - n) (by omega) (by omega) hfront (by omega)
    have hstep : advance base len (buf, n) p = some (buf1, n + ys.length) := by
      unfold advance
      rw [hroom, ← hbase, hprint]
      rfl
    obtain ⟨buf2, hrest, hsize2, hfront2⟩ := ih (n := n + ys.length) (by
      rw [List.length_append, hbase, Nat.add_assoc]) (hsize1.trans hsize) hfront1 (by omega)
    refine ⟨buf2, ?_, hsize2.trans hsize1, by rw [← List.append_assoc]; exact hfront2⟩
    rw [List.foldlM_cons, hstep, Option.bind_eq_bind, Option.bind_some, hrest, Nat.add_assoc]

lemma prints_inTurn {ps : List Printer} {ys : List UInt8} (h : PrintAll ps ys) :
    Prints (inTurn ps) ys := by
  obtain ⟨yss, hall, rfl⟩ := h
  intro buf t len hsize hlen hfront hfits
  obtain ⟨buf', hfold, hsize', hfront'⟩ := foldlM_advance hall (n := 0) rfl hsize hlen hfront (by omega)
  rw [Nat.zero_add] at hfold
  exact ⟨buf', hfold, hsize', hfront'⟩

/-- The check for an empty rest of the buffer does not change what is printed. -/
lemma Prints.guarded {p : Printer} {ys : List UInt8} (h : Prints p ys) :
    Prints (fun buf base len => if len = 0 then some (buf, 0) else p buf base len) ys := by
  intro buf t len hsize hlen hfront hfits
  obtain ⟨buf', hprint, hrest⟩ := h buf t len hsize hlen hfront hfits
  exact ⟨buf', (if_neg (by omega)).trans hprint, hrest⟩

lemma printAll_nil : PrintAll [] [] := ⟨[], List.Forall₂.nil, rfl⟩

lemma printAll_singleton {p : Printer} {ys : List UInt8} (h : Prints p ys) : PrintAll [p] ys :=
  ⟨[ys], List.Forall₂.cons h List.Forall₂.nil, by rw [List.flatten_cons, List.flatten_nil, List.append_nil]⟩

lemma PrintAll.append {ps qs : List Printer} {ys zs : List UInt8} (hp : PrintAll ps ys)
    (hq : PrintAll qs zs) : PrintAll (ps ++ qs) (ys ++ zs) := by
  obtain ⟨yss, hyss, rfl⟩ := hp
  obtain ⟨zss, hzss, rfl⟩ := hq
  exact ⟨yss ++ zss, List.rel_append hyss hzss, List.flatten_append⟩

lemma PrintAll.ite {c : Prop} [Decidable c] {ps : List Printer} {ys : List UInt8}
    (h : PrintAll ps ys) : PrintAll (if c then ps else []) (if c then ys else []) := by
  split_ifs
  · exact h
  · exact printAll_nil

lemma intercalate_cons {α : Type} (sep x : List α) (l : List (List α)) :
    sep.intercalate (x :: l) = x ++ (l.map (sep ++ ·)).flatten := by
  induction l generalizing x with
  | nil => simp [List.intercalate]
  | cons y l ih =>
    rw [List.map_cons, List.flatten_cons, List.append_assoc, ← ih y]
    simp [List.intercalate]

/-- The texts of the items whose bits are set -/
def itemTexts (bit : ℕ → Bool) (text : ℕ → List UInt8) (i k : ℕ) : List (List UInt8) :=
  ((List.range' i k).filter bit).map text

lemma mem_itemTexts {bit : ℕ → Bool} {text : ℕ → List UInt8} {k : ℕ} {x : List UInt8} :
    x ∈ itemTexts bit text 0 k ↔ ∃ i < k, bit i = true ∧ text i = x := by
  unfold itemTexts
  simp only [List.mem_map, List.mem_filter, List.mem_range'_1, Nat.zero_le, true_and, Nat.zero_add]
  constructor
  · rintro ⟨i, ⟨hi, hbit⟩, hx⟩
    exact ⟨i, hi, hbit, hx⟩
  · rintro ⟨i, hi, hbit, hx⟩
    exact ⟨i, ⟨hi, hbit⟩, hx⟩

lemma itemTexts_eq_nil {bit : ℕ → Bool} {text : ℕ → List UInt8} {k : ℕ}
    (h : ∀ i < k, bit i = false) : itemTexts bit text 0 k = [] := by
  apply List.eq_nil_iff_forall_not_mem.mpr
  intro x hx
  obtain ⟨i, hi, hbit, -⟩ := mem_itemTexts.mp hx
  rw [h i hi] at hbit
  cases hbit

lemma printItems_eq_nil {sep : Printer} {bit : ℕ → Bool} {item : ℕ → List Printer} {k i count : ℕ}
    (h : ∀ j < i + k, bit j = false) : printItems sep bit item k i count = [] := by
  induction k generalizing i with
  | zero => rfl
  | succ k ih =>
    unfold printItems
    rw [h i (by omega), if_neg Bool.false_ne_true]
    exact ih fun j hj => h j (by omega)

lemma printAll_printItems {sep : Printer} (bit : ℕ → Bool) {item : ℕ → List Printer}
    {sepText : List UInt8} {text : ℕ → List UInt8} (hsep : Prints sep sepText)
    (hitem : ∀ i, PrintAll (item i) (text i)) (k i count : ℕ) :
    PrintAll (printItems sep bit item k i count)
      (if count ≠ 0 then ((itemTexts bit text i k).map (sepText ++ ·)).flatten
        else sepText.intercalate (itemTexts bit text i k)) := by
  induction k generalizing i count with
  | zero =>
    have hempty : itemTexts bit text i 0 = [] := rfl
    rw [hempty]
    split_ifs <;> exact printAll_nil
  | succ k ih =>
    unfold printItems
    by_cases hbit : bit i
    · have hcons : itemTexts bit text i (k + 1) = text i :: itemTexts bit text (i + 1) k := by
        unfold itemTexts
        rw [List.range'_succ, List.filter_cons_of_pos hbit, List.map_cons]
      have hrest := ih (i + 1) (count + 1)
      rw [if_pos (Nat.succ_ne_zero count)] at hrest
      rw [if_pos hbit, hcons, intercalate_cons, List.map_cons, List.flatten_cons]
      have hitems := ((printAll_singleton hsep).ite (c := count ≠ 0)).append (hitem i) |>.append hrest
      split_ifs at hitems ⊢
      · exact hitems
      · exact hitems
    · have hskip : itemTexts bit text i (k + 1) = itemTexts bit text (i + 1) k := by
        unfold itemTexts
        rw [List.range'_succ, List.filter_cons_of_neg hbit]
      rw [if_neg hbit, hskip]
      exact ih (i + 1) count

/-- The items take no more room than all items together. -/
lemma length_intercalate_le (sep : List UInt8) (bit : ℕ → Bool) (text : ℕ → List UInt8) (k : ℕ) :
    (sep.intercalate (itemTexts bit text 0 k)).length ≤
      ((List.range' 0 k).map fun i => sep ++ text i).flatten.length := by
  have hall : ((itemTexts bit text 0 k).map (sep ++ ·)).flatten.length ≤
      ((List.range' 0 k).map fun i => sep ++ text i).flatten.length := by
    apply List.Sublist.length_le
    apply List.Sublist.flatten
    unfold itemTexts
    rw [List.map_map]
    exact List.filter_sublist.map _
  refine Nat.le_trans ?_ hall
  cases itemTexts bit text 0 k with
  | nil => exact Nat.zero_le _
  | cons x l =>
    rw [intercalate_cons, List.map_cons, List.flatten_cons, List.length_append, List.length_append,
      List.length_append]
    omega

def errorDataText (err : UInt8) (arr : List (List UInt8)) : List UInt8 :=
  (bytes ",").intercalate (itemTexts err.toNat.testBit (fun i => arr.getD i []) 0 arr.length)

def lostarbText (cf : CanfdFrame) : List UInt8 :=
  123 :: bytes "at bit " ++ decimal (dataByte cf 0).toNat ++ [125]

def ctrlText (cf : CanfdFrame) : List UInt8 :=
  123 :: errorDataText (dataByte cf 1) controllerProblems ++ [125]

def protText (cf : CanfdFrame) : List UInt8 :=
  123 :: 123 :: errorDataText (dataByte cf 2) protocolViolationTypes ++ ([125, 123] : List UInt8) ++
    (if dataByte cf 3 > 0 ∧ (dataByte cf 3).toNat < protocolViolationLocations.length then
      protocolViolationLocations.getD (dataByte cf 3).toNat [] else []) ++ [125, 125]

def classText (cf : CanfdFrame) (i : ℕ) : List UInt8 :=
  errorClasses.getD i [] ++ (if i = 1 then lostarbText cf else []) ++
    (if i = 2 then ctrlText cf else []) ++ (if i = 3 then protText cf else [])

/-- The classes with their details and the counters, one after the other -/
def errorText (cf : CanfdFrame) (sep : List UInt8) : List UInt8 :=
  sep.intercalate (itemTexts (errorClass cf).toNat.testBit (classText cf) 0 9) ++
    if dataByte cf 6 ≠ 0 ∨ dataByte cf 7 ≠ 0 then sep ++ errorCounters cf else []

lemma prints_snprintfErrorData (err : UInt8) (arr : List (List UInt8)) :
    Prints (snprintfErrorData err arr) (errorDataText err arr) := by
  have hitems := prints_inTurn (printAll_printItems err.toNat.testBit
    (prints_printText (bytes ","))
    (fun i => printAll_singleton (prints_printText (arr.getD i []))) arr.length 0 0)
  rw [if_neg (by simp)] at hitems
  intro buf t len hsize hlen hfront hfits
  unfold snprintfErrorData
  by_cases herr : err = 0
  · have hempty : errorDataText err arr = [] := by
      have hnone : itemTexts err.toNat.testBit (fun i => arr.getD i []) 0 arr.length = [] := by
        apply itemTexts_eq_nil
        intro i _
        rw [herr]
        exact Nat.zero_testBit i
      unfold errorDataText
      rw [hnone]
      rfl
    rw [hempty, List.append_nil, if_pos (Or.inl herr)]
    exact ⟨buf, rfl, rfl, hfront⟩
  · rw [if_neg (not_or.mpr ⟨herr, by omega⟩)]
    exact hitems buf t len hsize hlen hfront hfits

lemma prints_snprintfErrorLostarb (cf : CanfdFrame) :
    Prints (snprintfErrorLostarb cf) (lostarbText cf) :=
  (prints_printText (lostarbText cf)).guarded

lemma prints_snprintfErrorCtrl (cf : CanfdFrame) : Prints (snprintfErrorCtrl cf) (ctrlText cf) := by
  have hopen := printAll_singleton (prints_printText [123])
  have hdata := printAll_singleton (prints_snprintfErrorData (dataByte cf 1) controllerProblems)
  have hclose := printAll_singleton (prints_printText [125])
  exact (prints_inTurn ((hopen.append hdata).append hclose)).guarded

lemma prints_snprintfErrorProt (cf : CanfdFrame) : Prints (snprintfErrorProt cf) (protText cf) := by
  have hopen := printAll_singleton (prints_printText [123, 123])
  have htypes := printAll_singleton (prints_snprintfErrorData (dataByte cf 2) protocolViolationTypes)
  have hmiddle := printAll_singleton (prints_printText [125, 123])
  have hlocation := (printAll_singleton (prints_printText
    (protocolViolationLocations.getD (dataByte cf 3).toNat []))).ite
      (c := dataByte cf 3 > 0 ∧ (dataByte cf 3).toNat < protocolViolationLocations.length)
  have hclose := printAll_singleton (prints_printText [125, 125])
  exact (prints_inTurn ((((hopen.append htypes).append hmiddle).append hlocation).append
    hclose)).guarded

lemma printAll_printClass (cf : CanfdFrame) (i : ℕ) :
    PrintAll (printClass cf i) (classText cf i) := by
  have hname := printAll_singleton (prints_printText (errorClasses.getD i []))
  have hlostarb := (printAll_singleton (prints_snprintfErrorLostarb cf)).ite (c := i = 1)
  have hctrl := (printAll_singleton (prints_snprintfErrorCtrl cf)).ite (c := i = 2)
  have hprot := (printAll_singleton (prints_snprintfErrorProt cf)).ite (c := i = 3)
  exact ((hname.append hlostarb).append hctrl).append hprot

/-- Something is printed for the frame. -/
def Described (cf : CanfdFrame) : Prop :=
  (errorClass cf).toNat ≤ 512 ∧
    ((errorClass cf).toNat % 512 ≠ 0 ∨ dataByte cf 6 ≠ 0 ∨ dataByte cf 7 ≠ 0)

instance (cf : CanfdFrame) : Decidable (Described cf) := inferInstanceAs (Decidable (_ ∧ _))

lemma class_bits (n : ℕ) : n % 512 = 0 ↔ ∀ i < 9, n.testBit i = false := by
  have hbit : ∀ i, (n % 2 ^ 9).testBit i = (decide (i < 9) && n.testBit i) :=
    fun i => Nat.testBit_mod_two_pow n 9 i
  constructor
  · intro h i hi
    have hi' := hbit i
    rw [show n % 2 ^ 9 = 0 from h, Nat.zero_testBit, decide_eq_true hi, Bool.true_and] at hi'
    exact hi'.symm
  · intro h
    apply Nat.eq_of_testBit_eq
    intro i
    rw [Nat.zero_testBit]
    refine (hbit i).trans ?_
    by_cases hi : i < 9
    · rw [h i hi, Bool.and_false]
    · rw [decide_eq_false hi, Bool.false_and]

lemma classText_ne_nil (cf : CanfdFrame) {i : ℕ} (hi : i < 9) : classText cf i ≠ [] := by
  have hname : ∀ i < 9, errorClasses.getD i [] ≠ [] := by decide
  unfold classText
  intro h
  simp only [List.append_eq_nil_iff] at h
  exact hname i hi h.1.1.1

lemma errorText_ne_nil {cf : CanfdFrame} (sep : List UInt8)
    (h : (errorClass cf).toNat % 512 ≠ 0 ∨ dataByte cf 6 ≠ 0 ∨ dataByte cf 7 ≠ 0) :
    errorText cf sep ≠ [] := by
  unfold errorText
  intro hnil
  rw [List.append_eq_nil_iff] at hnil
  rcases h with hclass | hcounters
  · apply hclass
    rw [class_bits]
    intro i hi
    cases hitems : itemTexts (errorClass cf).toNat.testBit (classText cf) 0 9 with
    | nil =>
      by_contra hbit
      have hmem : classText cf i ∈ itemTexts (errorClass cf).toNat.testBit (classText cf) 0 9 :=
        mem_itemTexts.mpr ⟨i, hi, Bool.eq_true_of_not_eq_false hbit, rfl⟩
      rw [hitems] at hmem
      cases hmem
    | cons x l =>
      -- the first item is printed without a separator and is not empty
      obtain ⟨j, hj, -, hx⟩ := mem_itemTexts.mp (hitems ▸ List.mem_cons_self)
      rw [hitems, intercalate_cons, List.append_eq_nil_iff] at hnil
      exact absurd (hx.trans hnil.1.1) (classText_ne_nil cf hj)
  · rw [if_pos hcounters, List.append_eq_nil_iff] at hnil
    exact absurd hnil.2.2 (by simp [errorCounters])

lemma length_decimal_le : ∀ n < 256, (decimal n).length ≤ 3 := by decide +kernel

lemma length_errorDataText_le (err : UInt8) (arr : List (List UInt8)) :
    (errorDataText err arr).length ≤
      ((List.range' 0 arr.length).map fun i => bytes "," ++ arr.getD i []).flatten.length :=
  length_intercalate_le (bytes ",") err.toNat.testBit (fun i => arr.getD i []) arr.length

lemma length_lostarbText_le (cf : CanfdFrame) : (lostarbText cf).length ≤ 12 := by
  have hdecimal := length_decimal_le (dataByte cf 0).toNat (dataByte cf 0).toNat_lt
  have hword : (bytes "at bit ").length = 7 := by decide
  unfold lostarbText
  simp only [List.cons_append, List.length_cons, List.length_append, List.length_nil, hword]
  omega

lemma length_ctrlText_le (cf : CanfdFrame) : (ctrlText cf).length ≤ 115 := by
  have hdata := length_errorDataText_le (dataByte cf 1) controllerProblems
  have hall : ((List.range' 0 controllerProblems.length).map fun i =>
      bytes "," ++ controllerProblems.getD i []).flatten.length = 113 := by decide +kernel
  unfold ctrlText
  simp only [List.cons_append, List.length_cons, List.length_append, List.length_nil]
  omega

lemma length_protText_le (cf : CanfdFrame) : (protText cf).length ≤ 166 := by
  have hdata := length_errorDataText_le (dataByte cf 2) protocolViolationTypes
  have hall : ((List.range' 0 protocolViolationTypes.length).map fun i =>
      bytes "," ++ protocolViolationTypes.getD i []).flatten.length = 138 := by decide +kernel
  have hlocation : ∀ i < 32, (protocolViolationLocations.getD i []).length ≤ 22 := by decide
  unfold protText
  simp only [List.cons_append, List.length_cons, List.length_append, List.length_nil]
  split_ifs with hplace
  · have hle := hlocation (dataByte cf 3).toNat hplace.2
    omega
  · simp only [List.length_nil]
    omega

/-- The room for a class with its details -/
def classRoom (i : ℕ) : ℕ := [10, 28, 133, 184, 18, 24, 7, 9, 23].getD i 0

lemma length_classText_le (cf : CanfdFrame) {i : ℕ} (hi : i < 9) :
    (classText cf i).length ≤ classRoom i := by
  have hlostarb := length_lostarbText_le cf
  have hctrl := length_ctrlText_le cf
  have hprot := length_protText_le cf
  have hname : ∀ i < 9, (errorClasses.getD i []).length + (if i = 1 then 12 else 0) +
      (if i = 2 then 115 else 0) + (if i = 3 then 166 else 0) ≤ classRoom i := by decide
  refine Nat.le_trans ?_ (hname i hi)
  unfold classText
  simp only [List.length_append]
  gcongr <;> split_ifs <;> first | assumption | exact Nat.le_refl 0

lemma length_errorCounters_le (cf : CanfdFrame) : (errorCounters cf).length ≤ 31 := by
  have htx := length_decimal_le (dataByte cf 6).toNat (dataByte cf 6).toNat_lt
  have hrx := length_decimal_le (dataByte cf 7).toNat (dataByte cf 7).toNat_lt
  have hword : (bytes "error-counter-tx-rx").length = 19 := by decide
  unfold errorCounters
  simp only [List.length_cons, List.length_append, List.length_nil, hword]
  omega

/-- The classes before `k` fit into their rooms, each with a separator of two characters. -/
lemma length_classTexts_le (cf : CanfdFrame) {k : ℕ} (hk : k ≤ 9) :
    ((List.range' 0 k).map fun i => [10, 9] ++ classText cf i).flatten.length ≤
      ((List.range' 0 k).map fun i => List.replicate (2 + classRoom i) 0).flatten.length := by
  induction k with
  | zero => exact Nat.le_refl 0
  | succ k ih =>
    have hlast := length_classText_le cf (i := k) (by omega)
    have hrest := ih (by omega)
    rw [List.range'_concat]
    simp only [List.map_append, List.flatten_append, List.length_append, List.map_cons, List.map_nil,
      List.flatten_cons, List.flatten_nil, List.length_nil, List.length_cons, List.length_replicate,
      Nat.zero_add, Nat.one_mul]
    omega

lemma length_errorText_le (cf : CanfdFrame) : (errorText cf [10, 9]).length ≤ 487 := by
  have hcounters := length_errorCounters_le cf
  have hitems := length_intercalate_le [10, 9] (errorClass cf).toNat.testBit (classText cf) 9
  have hle := length_classTexts_le cf (Nat.le_refl 9)
  have hroom : ((List.range' 0 9).map fun i =>
      List.replicate (2 + classRoom i) 0).flatten.length = 454 := by decide +kernel
  unfold errorText
  rw [List.length_append]
  split_ifs
  · rw [List.length_append]
    simp only [List.length_cons, List.length_nil]
    omega
  · rw [List.length_nil]
    omega

lemma nul_notMem_decimal : ∀ n < 256, 0 ∉ decimal n := by decide +kernel

lemma mem_intercalate {sep : List UInt8} {l : List (List UInt8)} {c : UInt8}
    (h : c ∈ sep.intercalate l) : c ∈ sep ∨ ∃ x ∈ l, c ∈ x := by
  cases l with
  | nil => cases h
  | cons x l =>
    rw [intercalate_cons, List.mem_append, List.mem_flatten] at h
    rcases h with hx | ⟨y, hy, hc⟩
    · exact Or.inr ⟨x, List.mem_cons_self, hx⟩
    · obtain ⟨z, hz, rfl⟩ := List.mem_map.mp hy
      rcases List.mem_append.mp hc with hsep | hmem
      · exact Or.inl hsep
      · exact Or.inr ⟨z, List.mem_cons_of_mem x hz, hmem⟩

/-- No text of the tables contains a NUL. -/
lemma nul_notMem_tables : (∀ i < 9, 0 ∉ errorClasses.getD i []) ∧
    (∀ i < controllerProblems.length, 0 ∉ controllerProblems.getD i []) ∧
    (∀ i < protocolViolationTypes.length, 0 ∉ protocolViolationTypes.getD i []) ∧
    ∀ i < protocolViolationLocations.length, 0 ∉ protocolViolationLocations.getD i [] := by
  refine ⟨?_, ?_, ?_, ?_⟩ <;> decide +kernel

lemma nul_notMem_errorDataText {arr : List (List UInt8)} (err : UInt8)
    (harr : ∀ i < arr.length, 0 ∉ arr.getD i []) : 0 ∉ errorDataText err arr := by
  intro h
  rcases mem_intercalate h with hsep | ⟨x, hx, hmem⟩
  · exact absurd hsep (by decide)
  · obtain ⟨i, hi, -, rfl⟩ := mem_itemTexts.mp hx
    exact harr i hi hmem

lemma nul_notMem_lostarbText (cf : CanfdFrame) : 0 ∉ lostarbText cf := by
  have hdecimal := nul_notMem_decimal (dataByte cf 0).toNat (dataByte cf 0).toNat_lt
  have hword : 0 ∉ bytes "at bit " := by decide
  unfold lostarbText
  simp [hdecimal, hword]

lemma nul_notMem_ctrlText (cf : CanfdFrame) : 0 ∉ ctrlText cf := by
  have hdata := nul_notMem_errorDataText (dataByte cf 1) nul_notMem_tables.2.1
  unfold ctrlText
  simp [hdata]

lemma nul_notMem_protText (cf : CanfdFrame) : 0 ∉ protText cf := by
  have hdata := nul_notMem_errorDataText (dataByte cf 2) nul_notMem_tables.2.2.1
  have hlocation : 0 ∉ if dataByte cf 3 > 0 ∧ (dataByte cf 3).toNat < protocolViolationLocations.length then
      protocolViolationLocations.getD (dataByte cf 3).toNat [] else [] := by
    split_ifs with hplace
    · exact nul_notMem_tables.2.2.2 (dataByte cf 3).toNat hplace.2
    · exact List.not_mem_nil
  unfold protText
  simp only [List.cons_append, List.mem_cons, List.mem_append, hdata, hlocation, or_false]
  decide

lemma nul_notMem_classText (cf : CanfdFrame) {i : ℕ} (hi : i < 9) : 0 ∉ classText cf i := by
  have hname := nul_notMem_tables.1 i hi
  have hlostarb := nul_notMem_lostarbText cf
  have hctrl := nul_notMem_ctrlText cf
  have hprot := nul_notMem_protText cf
  unfold classText
  simp only [List.mem_append, hname, false_or]
  split_ifs <;> simp [hlostarb, hctrl, hprot]

lemma nul_notMem_errorText (cf : CanfdFrame) : 0 ∉ errorText cf [10, 9] := by
  have htx := nul_notMem_decimal (dataByte cf 6).toNat (dataByte cf 6).toNat_lt
  have hrx := nul_notMem_decimal (dataByte cf 7).toNat (dataByte cf 7).toNat_lt
  have hword : 0 ∉ bytes "error-counter-tx-rx" := by decide
  unfold errorText
  rw [List.mem_append, not_or]
  constructor
  · intro h
    rcases mem_intercalate h with hsep | ⟨x, hx, hmem⟩
    · exact absurd hsep (by decide)
    · obtain ⟨i, hi, -, rfl⟩ := mem_itemTexts.mp hx
      exact nul_notMem_classText cf hi hmem
  · split_ifs
    · simp [errorCounters, htx, hrx, hword]
    · exact List.not_mem_nil

/-- The buffer of a frame that is described -/
lemma begins_snprintfCanErrorFrame {buf : List UInt8} {cf : CanfdFrame}
    (herr : hasFlag cf.canId canErrFlag = true) (h : Described cf)
    (hsize : buf.length = clLongcfsz) :
    ∃ buf', snprintfCanErrorFrame buf clLongcfsz cf (some [10, 9]) = some (buf', []) ∧
      errorText cf [10, 9] ++ [0] <+: buf' := by
  have hsep := prints_printText [10, 9]
  have hitems := printAll_printItems (errorClass cf).toNat.testBit hsep
    (printAll_printClass cf) errorClasses.length 0 0
  have hcounters := ((printAll_singleton hsep).append
    (printAll_singleton (prints_printText (errorCounters cf)))).ite
      (c := dataByte cf 6 ≠ 0 ∨ dataByte cf 7 ≠ 0)
  rw [if_neg (by simp)] at hitems
  have hlength := length_errorText_le cf
  have hcap : clLongcfsz = 675 := rfl
  obtain ⟨buf', hprint, -, hfront⟩ := prints_inTurn (hitems.append hcounters) buf [] clLongcfsz
    (by rw [hsize, List.length_nil, Nat.zero_add]) (by decide)
    ⟨List.nil_prefix, fun hnil => absurd rfl hnil⟩ (by
      change (errorText cf [10, 9]).length < clLongcfsz
      omega)
  refine ⟨buf', ?_, hfront.2 (errorText_ne_nil [10, 9] h.2)⟩
  unfold snprintfCanErrorFrame
  rw [if_neg (by simp [herr]), if_neg (by have := h.1; omega)]
  exact congrArg (Option.map fun r : List UInt8 × ℕ => (r.1, ([] : List UInt8))) hprint

/-- The message for a class that is not valid -/
def invalidClass (cf : CanfdFrame) : List UInt8 :=
  if (errorClass cf).toNat > 512 then
    bytes "Error class " ++ hexadecimal (errorClass cf).toNat ++ bytes " is invalid\n"
  else []

/-- The buffer of a frame that is not described is left as it is. -/
lemma snprintfCanErrorFrame_of_not_described {cf : CanfdFrame} (buf : List UInt8)
    (herr : hasFlag cf.canId canErrFlag = true) (h : ¬Described cf) :
    snprintfCanErrorFrame buf clLongcfsz cf (some [10, 9]) = some (buf, invalidClass cf) := by
  unfold snprintfCanErrorFrame invalidClass
  rw [if_neg (by simp [herr])]
  by_cases hclass : (errorClass cf).toNat > 512
  · rw [if_pos hclass, if_pos hclass]
  · have hnone := not_and.mp h (Nat.le_of_not_lt hclass)
    rw [not_or, not_not] at hnone
    have hitems : printItems (printText [10, 9]) (errorClass cf).toNat.testBit (printClass cf)
        errorClasses.length 0 0 = [] := by
      apply printItems_eq_nil
      intro j hj
      rw [Nat.zero_add] at hj
      exact (class_bits _).mp hnone.1 j hj
    rw [if_neg hclass, if_neg hclass]
    dsimp only [Option.getD_some]
    rw [hitems, if_neg hnone.2]
    rfl

/-- What is printed in front of the end of the line, and the message to `stderr` -/
def longOutput (cf : CanfdFrame) (view : BitVec 32) (maxdlen : ℕ) : Output :=
  if hasFlag view canlibViewError ∧ hasFlag cf.canId canErrFlag then
    ⟨longText cf view maxdlen ++ [10, 9] ++
      (if Described cf then errorText cf [10, 9] else longText cf view maxdlen), invalidClass cf⟩
  else ⟨longText cf view maxdlen, []⟩

/-- Whatever its buffer holds at first, `fprint_long_canframe` stores and reads within it and prints the
long text of the frame, cut nowhere. An error frame is described behind its line; one whose class is
above 512, or which has no class below 512 and no counter, has its line printed once more. -/
theorem long_frame_is_printed (buf : List UInt8) (cf : CanfdFrame) (eol : Option (List UInt8))
    (view : BitVec 32) (maxdlen : ℕ) (hbuf : buf.length = clLongcfsz)
    (hmax : maxdlen = canMaxDlen ∨ maxdlen = canfdMaxDlen) :
    fprintLongCanframe buf cf eol view maxdlen =
      some ⟨(longOutput cf view maxdlen).stream ++ eol.getD [], (longOutput cf view maxdlen).stderr⟩ := by
  have hle : maxdlen ≤ 64 := by
    rcases hmax with rfl | rfl
    · decide
    · decide
  obtain ⟨buf1, hline, hsize, hp⟩ :=
    begins_sprintLongCanframe cf view hle hbuf (Nat.le_refl clLongcfsz)
  have htext : cString 0 buf1 = some (longText cf view maxdlen) :=
    cString_of_begins hp (nul_notMem_longText cf view hle)
  unfold fprintLongCanframe longOutput
  simp only [hline, htext, Option.bind_eq_bind, Option.bind_some]
  split_ifs with hview hdescribed
  · obtain ⟨buf2, herror, hp2⟩ := begins_snprintfCanErrorFrame hview.2 hdescribed hsize
    have htext2 : cString 0 buf2 = some (errorText cf [10, 9]) :=
      cString_of_begins hp2 (nul_notMem_errorText cf)
    have hvalid : invalidClass cf = [] := if_neg (Nat.not_lt.mpr hdescribed.1)
    simp only [herror, htext2, hvalid, Option.bind_some]
  · have herror := snprintfCanErrorFrame_of_not_described buf1 hview.2 hdescribed
    simp only [herror, htext, Option.bind_some]
  · rfl

/-- A frame of the class `CAN_ERR_CNT | CAN_ERR_CRTL` -/
def countedFrame : CanfdFrame := ⟨0x20000204#32, 8, 0, (Vector.replicate 64 0).setIfInBounds 1 4⟩

theorem long_frame_is_printed_twice : ¬Described countedFrame ∧
    (longOutput countedFrame canlibViewError canMaxDlen).stderr =
      bytes "Error class 0x204 is invalid\n" ∧
    fprintLongCanframe (List.replicate clLongcfsz 255) countedFrame (some [10]) canlibViewError
      canMaxDlen = some ⟨(longOutput countedFrame canlibViewError canMaxDlen).stream ++
        (some [10]).getD [], (longOutput countedFrame canlibViewError canMaxDlen).stderr⟩ :=
  ⟨by decide, by decide, long_frame_is_printed (List.replicate clLongcfsz 255) countedFrame (some [10])
    canlibViewError canMaxDlen List.length_replicate (Or.inl rfl)⟩

end CodeC.CanFrame
