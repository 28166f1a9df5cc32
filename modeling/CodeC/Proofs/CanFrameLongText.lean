import CodeC.CanFrameLong
import CodeC.Proofs.CanFrameRoundTrip

/-!
# The long text of a frame

`longText` is the text that `sprint_long_canframe` prints, as the concatenation of its fields. It fits
into every buffer of `CL_LONGCFSZ` bytes and nothing of what was in the buffer is left in it.
-/

namespace CodeC.CanFrame
open Library.CBuffer

def idField (id view : BitVec 32) : List UInt8 :=
  if hasFlag id canErrFlag then putId 8 (id &&& (canErrMask ||| canErrFlag)) ++ [32, 32]
  else if hasFlag id canEffFlag then putId 8 (id &&& canEffMask) ++ [32, 32]
  else if hasFlag view canlibViewIndentSff then
    List.replicate 5 32 ++ putId 3 (id &&& canSffMask) ++ [32, 32]
  else putId 3 (id &&& canSffMask) ++ [32, 32]

def lengthField (len maxdlen : ℕ) : List UInt8 :=
  if maxdlen = canMaxDlen then [32, 91, UInt8.ofNat (len + 48), 93, 32]
  else [91, UInt8.ofNat (len / 10 + 48), UInt8.ofNat (len % 10 + 48), 93, 32]

def columns (view : BitVec 32) : UInt8 → List UInt8 → List UInt8
  | _, [] => []
  | lead, b :: bs => lead :: digits view b ++ columns view (delimiter view) bs

def tailText (id view : BitVec 32) (data : List UInt8) : List UInt8 :=
  if hasFlag id canErrFlag then padLeft (dlen view * (8 - data.length) + 13) (bytes "ERRORFRAME")
  else if hasFlag view canlibViewAscii then
    padLeft (dlen view * (8 - data.length) + 4) (quote view) ++
      (inOrder view data).map printable ++ quote view
  else []

/-- What follows the identifier and the length -/
def bodyText (id view : BitVec 32) (data : List UInt8) : List UInt8 :=
  columns view 32 (inOrder view data) ++
    if data.length > canMaxDlen then [] else tailText id view data

def longText (cf : CanfdFrame) (view : BitVec 32) (maxdlen : ℕ) : List UInt8 :=
  idField cf.canId view ++ lengthField (shown cf maxdlen).length maxdlen ++
    if maxdlen = canMaxDlen ∧ hasFlag cf.canId canRtrFlag then bytes " remote request"
    else bodyText cf.canId view (shown cf maxdlen)

lemma length_idField (id view : BitVec 32) :
    (idField id view).length = 10 ∨ (idField id view).length = 5 := by
  unfold idField
  split_ifs <;> simp [length_putId]

lemma length_lengthField (len maxdlen : ℕ) : (lengthField len maxdlen).length = 5 := by
  unfold lengthField
  split_ifs <;> rfl

lemma length_digits (view : BitVec 32) (b : UInt8) : (digits view b).length + 1 = dlen view := by
  unfold digits dlen
  split_ifs <;> rfl

lemma length_columns (view : BitVec 32) (lead : UInt8) (bs : List UInt8) :
    (columns view lead bs).length = dlen view * bs.length := by
  induction bs generalizing lead with
  | nil => rfl
  | cons b bs ih =>
    have hdigits := length_digits view b
    simp only [columns, List.cons_append, List.length_cons, List.length_append, ih]
    rw [Nat.mul_succ]
    omega

lemma length_inOrder (view : BitVec 32) (data : List UInt8) :
    (inOrder view data).length = data.length := by
  unfold inOrder
  split_ifs
  · exact List.length_reverse
  · rfl

lemma length_quote (view : BitVec 32) : (quote view).length = 1 := by
  unfold quote
  split_ifs <;> rfl

lemma length_padLeft {width : ℕ} {xs : List UInt8} (h : xs.length ≤ width) :
    (padLeft width xs).length = width := by
  unfold padLeft
  rw [List.length_append, List.length_replicate]
  omega

lemma dlen_le (view : BitVec 32) : dlen view ≤ 9 := by
  unfold dlen
  split_ifs <;> omega

lemma length_shown {cf : CanfdFrame} {maxdlen : ℕ} (hmax : maxdlen ≤ 64) :
    (shown cf maxdlen).length = if cf.len.toNat > maxdlen then maxdlen else cf.len.toNat := by
  unfold shown
  rw [List.length_take, Vector.length_toList]
  split_ifs <;> omega

lemma length_tailText_le (id view : BitVec 32) {data : List UInt8} (h : data.length ≤ 8) :
    dlen view * data.length + (tailText id view data).length ≤ dlen view * 8 + 13 := by
  have hsplit : dlen view * data.length + dlen view * (8 - data.length) = dlen view * 8 := by
    rw [← Nat.mul_add]
    congr 1
    omega
  unfold tailText
  split_ifs
  · have herror : (bytes "ERRORFRAME").length = 10 := by decide
    rw [length_padLeft (by omega)]
    omega
  · have hquote := length_quote view
    simp only [List.length_append, List.length_map, length_inOrder]
    rw [length_padLeft (by omega)]
    omega
  · simp only [List.length_nil]
    omega

lemma length_bodyText_le (id view : BitVec 32) {data : List UInt8} (h : data.length ≤ 64) :
    (bodyText id view data).length ≤ 576 := by
  have hdlen := dlen_le view
  unfold bodyText
  rw [List.length_append, length_columns, length_inOrder]
  split_ifs with hlong
  · have hmul : dlen view * data.length ≤ 9 * 64 := Nat.mul_le_mul hdlen h
    simp only [List.length_nil]
    omega
  · have hle : data.length ≤ 8 := Nat.le_of_not_lt hlong
    have htail := length_tailText_le id view hle
    omega

lemma length_longText_le (cf : CanfdFrame) (view : BitVec 32) {maxdlen : ℕ} (hmax : maxdlen ≤ 64) :
    (longText cf view maxdlen).length ≤ 591 := by
  have hid := length_idField cf.canId view
  have hshown : (shown cf maxdlen).length ≤ 64 := by
    rw [length_shown hmax]
    split_ifs <;> omega
  unfold longText
  simp only [List.length_append, length_lengthField]
  split_ifs
  · have hremote : (bytes " remote request").length = 15 := by decide
    omega
  · have hbody := length_bodyText_le cf.canId view hshown
    omega

lemma nul_notMem_putId (k : ℕ) (id : BitVec 32) : 0 ∉ putId k id := by
  induction k generalizing id with
  | zero => exact List.not_mem_nil
  | succ k ih =>
    rw [putId, List.mem_append, List.mem_singleton, not_or]
    exact ⟨ih (id >>> 4), (hexAscUpper_ne _ (idDigit_lt id)).2.2.2.2.symm⟩

lemma nul_notMem_idField (id view : BitVec 32) : 0 ∉ idField id view := by
  unfold idField
  split_ifs <;> simp [nul_notMem_putId]

lemma nul_notMem_lengthField {len : ℕ} (maxdlen : ℕ) (hlen : len ≤ 64) :
    0 ∉ lengthField len maxdlen := by
  have hdigit : ∀ n ≤ 64, (0 : UInt8) ≠ UInt8.ofNat (n + 48) := by decide
  have htens := hdigit (len / 10) (by omega)
  have hones := hdigit (len % 10) (by omega)
  unfold lengthField
  split_ifs
  · simp only [List.mem_cons, List.not_mem_nil, or_false, not_or]
    exact ⟨by decide, by decide, hdigit len hlen, by decide, by decide⟩
  · simp only [List.mem_cons, List.not_mem_nil, or_false, not_or]
    exact ⟨by decide, htens, hones, by decide, by decide⟩

lemma nul_notMem_digits (view : BitVec 32) (b : UInt8) : 0 ∉ digits view b := by
  unfold digits
  split_ifs
  · unfold binaryDigits
    rw [List.mem_map]
    rintro ⟨j, -, hj⟩
    split_ifs at hj <;> exact absurd hj (by decide)
  · have hnibble := nibble_lt b
    unfold putHexByte
    simp only [List.mem_cons, List.not_mem_nil, or_false, not_or]
    exact ⟨(hexAscUpper_ne _ hnibble.1).2.2.2.2.symm, (hexAscUpper_ne _ hnibble.2).2.2.2.2.symm⟩

lemma nul_notMem_columns (view : BitVec 32) {lead : UInt8} (bs : List UInt8) (hlead : 0 ≠ lead) :
    0 ∉ columns view lead bs := by
  induction bs generalizing lead with
  | nil => exact List.not_mem_nil
  | cons b bs ih =>
    have hdelimiter : 0 ≠ delimiter view := by
      unfold delimiter
      split_ifs <;> decide
    rw [columns, List.cons_append, List.mem_cons, List.mem_append, not_or, not_or]
    exact ⟨hlead, nul_notMem_digits view b, ih hdelimiter⟩

lemma printable_ne (b : UInt8) : printable b ≠ 0 := by
  unfold printable
  split_ifs with h
  · intro hzero
    rw [hzero] at h
    exact absurd h.1 (by decide)
  · decide

lemma nul_notMem_quote (view : BitVec 32) : 0 ∉ quote view := by
  unfold quote
  split_ifs <;> decide

lemma nul_notMem_padLeft (width : ℕ) {xs : List UInt8} (h : 0 ∉ xs) : 0 ∉ padLeft width xs := by
  unfold padLeft
  simp [h]

lemma nul_notMem_tailText (id view : BitVec 32) (data : List UInt8) : 0 ∉ tailText id view data := by
  unfold tailText
  split_ifs
  · exact nul_notMem_padLeft _ (by decide)
  · have hpad := nul_notMem_padLeft (dlen view * (8 - data.length) + 4) (nul_notMem_quote view)
    have hascii : 0 ∉ (inOrder view data).map printable := by
      rw [List.mem_map]
      rintro ⟨b, -, hb⟩
      exact printable_ne b hb
    simp only [List.mem_append, hpad, hascii, nul_notMem_quote, or_false, not_false_eq_true]
  · exact List.not_mem_nil

lemma nul_notMem_longText (cf : CanfdFrame) (view : BitVec 32) {maxdlen : ℕ} (hmax : maxdlen ≤ 64) :
    0 ∉ longText cf view maxdlen := by
  have hlength : (shown cf maxdlen).length ≤ 64 := by
    rw [length_shown hmax]
    split_ifs <;> omega
  have hremote : 0 ∉ bytes " remote request" := by decide
  unfold longText bodyText
  simp only [List.mem_append, not_or]
  refine ⟨⟨nul_notMem_idField _ _, nul_notMem_lengthField _ hlength⟩, ?_⟩
  split_ifs
  · exact hremote
  · simp [nul_notMem_columns view (inOrder view (shown cf maxdlen)) (show (0 : UInt8) ≠ 32 by decide)]
  · simp [nul_notMem_columns view (inOrder view (shown cf maxdlen)) (show (0 : UInt8) ≠ 32 by decide),
      nul_notMem_tailText]

section
variable {buf p : List UInt8} {size : ℕ}

/-- An identifier within spaces -/
lemma begins_putId (pre : List UInt8) (k m : ℕ) (x : BitVec 32) (hsize : buf.length = size)
    (hp : pre ++ List.replicate (k + (7 + m)) 32 <+: buf) :
    Begins (write buf pre.length (putId k x)) size
      (pre ++ putId k x ++ [32, 32] ++ [32, 32, 32, 32, 32] ++ List.replicate m 32) := by
  obtain ⟨buf', hwrite, hsize', hfront⟩ := begins_write pre.length 0 (putId k x) hsize hp rfl (by
    rw [length_putId, List.length_replicate]
    omega)
  refine ⟨buf', hwrite, hsize', ?_⟩
  have hrest : (List.replicate (k + (7 + m)) (32 : UInt8)).drop (0 + k) =
      [32, 32] ++ ([32, 32, 32, 32, 32] ++ List.replicate m 32) := by
    rw [List.drop_replicate, Nat.zero_add, Nat.add_sub_cancel_left, List.replicate_add]
    rfl
  rw [length_putId, hrest] at hfront
  simpa only [List.take_zero, List.nil_append, List.append_assoc] using hfront

lemma storeId_eq (id view : BitVec 32) (hsize : buf.length = size)
    (hp : List.replicate 15 32 <+: buf) :
    ∃ buf' m, storeId buf id view = some (buf', (idField id view).length) ∧ buf'.length = size ∧
      idField id view ++ [32, 32, 32, 32, 32] ++ List.replicate m 32 <+: buf' := by
  have hlong : ∀ x : BitVec 32, ∃ buf' m,
      (write buf 0 (putId 8 x)).map (fun buf => (buf, 10)) =
        some (buf', (putId 8 x ++ [32, 32]).length) ∧ buf'.length = size ∧
      putId 8 x ++ [32, 32] ++ [32, 32, 32, 32, 32] ++ List.replicate m 32 <+: buf' := by
    intro x
    obtain ⟨buf', hwrite, hsize', hfront⟩ := begins_putId [] 8 0 x hsize hp
    exact ⟨buf', 0, by rw [← List.length_nil, hwrite, List.length_append, length_putId]; rfl, hsize', hfront⟩
  unfold storeId idField
  split_ifs
  · exact hlong _
  · exact hlong _
  · obtain ⟨buf', hwrite, hsize', hfront⟩ :=
      begins_putId (List.replicate 5 32) 3 0 (id &&& canSffMask) hsize hp
    refine ⟨buf', 0, ?_, hsize', hfront⟩
    rw [List.length_replicate] at hwrite
    rw [hwrite, List.length_append, List.length_append, length_putId]
    rfl
  · obtain ⟨buf', hwrite, hsize', hfront⟩ := begins_putId [] 3 5 (id &&& canSffMask) hsize hp
    refine ⟨buf', 5, ?_, hsize', hfront⟩
    rw [List.length_nil] at hwrite
    rw [hwrite, List.length_append, length_putId]
    rfl

lemma begins_storeLength {rest : List UInt8} (len maxdlen : ℕ) (hsize : buf.length = size)
    (hp : p ++ [32, 32, 32, 32, 32] ++ rest <+: buf) :
    Begins (storeLength buf p.length len maxdlen) size (p ++ lengthField len maxdlen) := by
  have hfront : p ++ [32, 32, 32, 32, 32] <+: buf := (List.prefix_append _ rest).trans hp
  unfold storeLength lengthField
  split_ifs
  · obtain ⟨buf1, h1, hsize1, hp1⟩ := begins_write (p.length + 1) 1 [91] hsize hfront rfl (by simp)
    obtain ⟨buf2, h2, hsize2, hp2⟩ :=
      begins_write (p.length + 2) 2 [UInt8.ofNat (len + 48)] hsize1 hp1 rfl (by simp)
    obtain ⟨buf3, h3, hsize3, hp3⟩ := begins_write (p.length + 3) 3 [93] hsize2 hp2 rfl (by simp)
    refine ⟨buf3, ?_, hsize3, hp3⟩
    rw [h1, Option.bind_eq_bind, Option.bind_some, h2, Option.bind_some, h3]
  · obtain ⟨buf1, h1, hsize1, hp1⟩ := begins_write p.length 0 [91] hsize hfront rfl (by simp)
    obtain ⟨buf2, h2, hsize2, hp2⟩ :=
      begins_write (p.length + 1) 1 [UInt8.ofNat (len / 10 + 48)] hsize1 hp1 rfl (by simp)
    obtain ⟨buf3, h3, hsize3, hp3⟩ :=
      begins_write (p.length + 2) 2 [UInt8.ofNat (len % 10 + 48)] hsize2 hp2 rfl (by simp)
    obtain ⟨buf4, h4, hsize4, hp4⟩ := begins_write (p.length + 3) 3 [93] hsize3 hp3 rfl (by simp)
    refine ⟨buf4, ?_, hsize4, hp4⟩
    rw [h1, Option.bind_eq_bind, Option.bind_some, h2, Option.bind_some, h3,
      Option.bind_some, h4]

lemma reaches_storeData (view : BitVec 32) (bs : List UInt8) (lead : UInt8)
    (hsize : buf.length = size) (hp : p <+: buf)
    (hfits : p.length + (columns view lead bs).length ≤ size) :
    Reaches (storeData view bs lead buf p.length) size (p ++ columns view lead bs) := by
  induction bs generalizing buf p lead with
  | nil =>
    rw [columns, List.append_nil]
    exact ⟨buf, rfl, hsize, hp⟩
  | cons b bs ih =>
    simp only [columns, List.cons_append, List.length_cons, List.length_append] at hfits
    obtain ⟨buf1, h1, hsize1, hp1⟩ := begins_append [lead] hsize hp rfl (by simp; omega)
    obtain ⟨buf2, h2, hsize2, hp2⟩ := begins_append (digits view b) hsize1 hp1 rfl (by
      rw [List.length_append, List.length_singleton]
      omega)
    have hlen : (p ++ [lead] ++ digits view b).length = p.length + 1 + (digits view b).length := by
      simp only [List.length_append, List.length_singleton]
    have hrest := ih (delimiter view) hsize2 hp2 (by omega)
    have hstep : storeData view (b :: bs) lead buf p.length =
        storeData view bs (delimiter view) buf2 (p ++ [lead] ++ digits view b).length := by
      rw [List.length_append, List.length_singleton] at h2
      rw [storeData, h1, Option.bind_eq_bind, Option.bind_some, h2, Option.bind_some, hlen]
    rw [hstep]
    simpa only [columns, List.append_assoc, List.cons_append, List.nil_append] using hrest

lemma reaches_storeAscii (bs : List UInt8) (hsize : buf.length = size) (hp : p <+: buf)
    (hfits : p.length + bs.length ≤ size) :
    Reaches (storeAscii bs buf p.length) size (p ++ bs.map printable) := by
  induction bs generalizing buf p with
  | nil =>
    rw [List.map_nil, List.append_nil]
    exact ⟨buf, rfl, hsize, hp⟩
  | cons b bs ih =>
    rw [List.length_cons] at hfits
    obtain ⟨buf1, h1, hsize1, hp1⟩ := begins_append [printable b] hsize hp rfl (by simp; omega)
    have hlen : (p ++ [printable b]).length = p.length + 1 := by
      rw [List.length_append, List.length_singleton]
    have hrest := ih hsize1 hp1 (by omega)
    rw [storeAscii, h1, Option.bind_eq_bind, Option.bind_some, ← hlen]
    simpa only [List.map_cons, List.append_assoc, List.singleton_append] using hrest

lemma begins_storeTail (id view : BitVec 32) (data : List UInt8) (hsize : buf.length = size)
    (hp : p ++ [0] <+: buf) (hfits : p.length + (tailText id view data).length < size) :
    Begins (storeTail buf p.length id view data) size (p ++ tailText id view data ++ [0]) := by
  have hfront : p <+: buf := (List.prefix_append p [0]).trans hp
  unfold storeTail
  unfold tailText at hfits ⊢
  split_ifs at hfits ⊢ with herror hascii
  · exact begins_sprintf 0 _ hsize hfront rfl hfits
  · have hquote := length_quote view
    have hpad : (padLeft (dlen view * (8 - data.length) + 4) (quote view)).length =
        dlen view * (8 - data.length) + 4 := length_padLeft (by omega)
    simp only [List.length_append, List.length_map, length_inOrder, hpad] at hfits
    obtain ⟨buf1, h1, hsize1, hp1⟩ := begins_sprintf 0
      (padLeft (dlen view * (8 - data.length) + 4) (quote view)) hsize hfront rfl (by omega)
    have hlen : (p ++ padLeft (dlen view * (8 - data.length) + 4) (quote view)).length =
        p.length + (dlen view * (8 - data.length) + 4) := by rw [List.length_append, hpad]
    obtain ⟨buf2, h2, hsize2, hp2⟩ := reaches_storeAscii (inOrder view data) hsize1
      ((List.prefix_append _ [0]).trans hp1) (by rw [hlen, length_inOrder]; omega)
    obtain ⟨buf3, h3, hsize3, hp3⟩ := begins_sprintf 0 (quote view) hsize2 hp2 rfl (by
      rw [List.length_append, hlen, List.length_map, length_inOrder]
      omega)
    refine ⟨buf3, ?_, hsize3, ?_⟩
    · rw [hlen] at h2
      simp only [h1, h2, h3, Option.bind_eq_bind, Option.bind_some]
    · simpa only [List.append_assoc] using hp3
  · rw [List.append_nil]
    exact ⟨buf, rfl, hsize, hp⟩

lemma begins_storeBody (id view : BitVec 32) (data : List UInt8) (hsize : buf.length = size)
    (hp : p <+: buf) (hfits : p.length + (bodyText id view data).length < size) :
    Begins (storeBody buf p.length id view data) size (p ++ bodyText id view data ++ [0]) := by
  unfold bodyText at hfits ⊢
  rw [List.length_append] at hfits
  obtain ⟨buf1, h1, hsize1, hp1⟩ :=
    reaches_storeData view (inOrder view data) 32 hsize hp (by omega)
  obtain ⟨buf2, h2, hsize2, hp2⟩ := begins_append [0] hsize1 hp1 rfl (by
    rw [List.length_append, List.length_singleton]
    omega)
  unfold storeBody
  simp only [h1, h2, Option.bind_eq_bind, Option.bind_some]
  split_ifs at hfits ⊢
  · rw [List.append_nil]
    exact ⟨buf2, rfl, hsize2, hp2⟩
  · rw [← List.append_assoc]
    refine begins_storeTail id view data hsize2 hp2 ?_
    rw [List.length_append]
    omega

/-- The buffer begins with the long text and its terminating NUL, whatever was in it before. -/
lemma begins_sprintLongCanframe (cf : CanfdFrame) (view : BitVec 32) {maxdlen : ℕ}
    (hmax : maxdlen ≤ 64) (hsize : buf.length = size) (hroom : clLongcfsz ≤ size) :
    Begins (sprintLongCanframe buf cf view maxdlen) size (longText cf view maxdlen ++ [0]) := by
  have hcap : 675 ≤ size := hroom
  obtain ⟨buf1, h1, hsize1, hp1⟩ := begins_append (List.replicate 15 32) hsize List.nil_prefix rfl (by
    rw [List.length_nil, List.length_replicate]
    omega)
  obtain ⟨buf2, m, h2, hsize2, hp2⟩ := storeId_eq cf.canId view hsize1 hp1
  obtain ⟨buf3, h3, hsize3, hp3⟩ := begins_storeLength (shown cf maxdlen).length maxdlen hsize2 hp2
  have hlen : (idField cf.canId view ++ lengthField (shown cf maxdlen).length maxdlen).length =
      (idField cf.canId view).length + 5 := by rw [List.length_append, length_lengthField]
  have htext := length_longText_le cf view hmax
  rw [List.length_nil] at h1
  unfold sprintLongCanframe
  simp only [h1, h2, h3, ← hlen, Option.bind_eq_bind, Option.bind_some]
  unfold longText at htext ⊢
  rw [List.length_append] at htext
  split_ifs at htext ⊢
  · exact begins_sprintf 0 _ hsize3 hp3 rfl (by omega)
  · exact begins_storeBody cf.canId view (shown cf maxdlen) hsize3 hp3 (by omega)

end

end CodeC.CanFrame
