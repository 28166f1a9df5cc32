import CodeC.ServiceDiscover
import CodeC.Discovery

/-!
# What arrives of a datagram sent by `ServiceDiscover::Send`

The topic survives the trip for every earlier content of the receiver's buffer. The value given
to the callbacks is the payload followed by whatever the buffer held behind it, because
`discover_read_cb` measures it by the size of the buffer. Callbacks that read no more than the
sender's payload, as those of publishers and subscribers do, are not affected.
-/

namespace CodeC.ServiceDiscover

variable {κ : Type}

lemma copyTo_zero (dst src : List UInt8) : copyTo dst 0 src = src ++ dst.drop src.length := by
  simp [copyTo]

lemma send_eq (topic buf : List UInt8) : send topic buf = topic ++ 0 :: buf := by
  have hzeros : (List.replicate (buf.length + topic.length + 1) (0 : UInt8)).drop topic.length =
      0 :: List.replicate buf.length 0 := by
    rw [List.drop_replicate, ← List.replicate_succ]
    congr 1
    omega
  have htopic : topic ++ 0 :: List.replicate buf.length (0 : UInt8) =
      (topic ++ [0]) ++ List.replicate buf.length 0 := by simp
  unfold send
  simp only [copyTo_zero, hzeros]
  rw [List.set_append_right _ _ (le_refl _), Nat.sub_self, List.set_cons_zero, htopic]
  have hlen : topic.length + 1 = (topic ++ [(0 : UInt8)]).length := by simp
  rw [copyTo, hlen, List.take_left, List.drop_append]
  simp

lemma cString_append (topic rest : List UInt8) (hnul : 0 ∉ topic) :
    cString (topic ++ 0 :: rest) = some topic := by
  have hne : ∀ b ∈ topic, decide (b ≠ 0) = true := by
    intro b hb
    have hb0 : b ≠ 0 := fun h => hnul (h ▸ hb)
    simpa using hb0
  rw [cString, if_pos (by simp), List.takeWhile_append_of_pos hne]
  simp

/-- The bytes behind the payload that the callbacks are given with it. -/
def leftover (buffer : Buffer) (topic payload : List UInt8) : List UInt8 :=
  buffer.bytes.drop (topic.length + 1 + payload.length)

lemma leftover_length (buffer : Buffer) (topic payload : List UInt8) :
    (leftover buffer topic payload).length = bufferSize - (topic.length + 1 + payload.length) := by
  rw [leftover, List.length_drop, buffer.length_eq]

lemma readInto_send (buffer : Buffer) (topic payload : List UInt8)
    (hsize : topic.length + 1 + payload.length ≤ bufferSize) :
    readInto buffer (send topic payload) =
      topic ++ 0 :: (payload ++ leftover buffer topic payload) := by
  have hlen : (topic ++ 0 :: payload).length = topic.length + 1 + payload.length := by
    rw [List.length_append, List.length_cons]
    omega
  rw [readInto, send_eq, List.take_of_length_le (hlen ▸ hsize), copyTo_zero, hlen]
  simp [leftover]

/-- What the callbacks are called with when a datagram of `Send` arrives. -/
theorem arrive_send (callbacks : List UInt8 → List κ) (buffer : Buffer)
    (topic payload : List UInt8) (hnul : 0 ∉ topic)
    (hsize : topic.length + 1 + payload.length ≤ bufferSize) :
    arrive callbacks buffer (send topic payload) = some ((callbacks topic).map fun cb =>
      ⟨cb, topic, payload ++ leftover buffer topic payload⟩) := by
  have hpos : 0 < ((send topic payload).take bufferSize).length := by
    rw [send_eq, List.length_take, List.length_append, List.length_cons]
    unfold bufferSize
    omega
  rw [arrive, discoverReadCb, if_neg (by omega), if_neg (by omega), readInto_send _ _ _ hsize,
    cString_append _ _ hnul]
  have hdrop : (topic ++ 0 :: (payload ++ leftover buffer topic payload)).drop (topic.length + 1) =
      payload ++ leftover buffer topic payload := by
    rw [List.drop_append]
    simp
  simp only [hdrop]
  rw [List.take_of_length_le]
  simp

/-- The round trip is exact only when nothing is registered for the topic or the datagram fills
the receiver's buffer; in all other cases the value is longer than the payload. -/
theorem roundTrip_iff_fills_buffer (callbacks : List UInt8 → List κ) (buffer : Buffer)
    (topic payload : List UInt8) (hnul : 0 ∉ topic)
    (hsize : topic.length + 1 + payload.length ≤ bufferSize) :
    arrive callbacks buffer (send topic payload) =
        some ((callbacks topic).map fun cb => ⟨cb, topic, payload⟩) ↔
      callbacks topic = [] ∨ topic.length + 1 + payload.length = bufferSize := by
  rw [arrive_send callbacks buffer topic payload hnul hsize]
  have hlen := leftover_length buffer topic payload
  cases hcb : callbacks topic with
  | nil => simp
  | cons cb cbs =>
    constructor
    · intro h
      have hvalue : payload ++ leftover buffer topic payload = payload := by
        have hhead := (List.cons.inj (Option.some.inj h)).1
        exact (Call.mk.inj hhead).2.2
      have hnil : leftover buffer topic payload = [] := List.append_right_eq_self.mp hvalue
      rw [hnil, List.length_nil] at hlen
      exact Or.inr (by omega)
    · rintro (hnone | hfull)
      · cases hnone
      · have hnil : leftover buffer topic payload = [] := by
          apply List.eq_nil_of_length_eq_zero
          omega
        rw [hnil, List.append_nil]

theorem roundTrip_iff_fills_buffer_full :
    arrive (recv (fun _ => []) [65] ()) ⟨List.replicate 1500 7, List.length_replicate⟩
        (send [65] (List.replicate 1498 1)) =
      some [⟨(), [65], List.replicate 1498 1⟩] := by
  apply (roundTrip_iff_fills_buffer (recv (fun _ => []) [65] ())
    ⟨List.replicate 1500 7, List.length_replicate⟩ [65] (List.replicate 1498 1) (by decide) ?_).mpr
  · right
    rw [List.length_replicate]
    rfl
  · rw [List.length_replicate]
    decide

/-- A payload of five bytes arrives as 1498 bytes. -/
theorem short_payload_arrives_longer :
    ∃ value, arrive (recv (fun _ => []) [65] ()) ⟨List.replicate 1500 0, List.length_replicate⟩
        (send [65] [1, 2, 3, 4, 5]) = some [⟨(), [65], value⟩] ∧
      value.length = 1498 ∧ value ≠ [1, 2, 3, 4, 5] := by
  have harrive := arrive_send (recv (fun _ => []) [65] ())
    ⟨List.replicate 1500 0, List.length_replicate⟩ [65] [1, 2, 3, 4, 5] (by decide) (by decide)
  refine ⟨_, harrive, ?_, ?_⟩
  · rw [List.length_append, leftover_length]
    rfl
  · intro h
    have hlen := congrArg List.length h
    rw [List.length_append, leftover_length] at hlen
    revert hlen
    decide

section addresses

variable {n : ℕ} {A : Type}

/-- `sizeof(struct sockaddr_in)` -/
def sockaddrSize : ℕ := 16

/-- The callbacks of publishers and subscribers run in order, each on the address that it reads
at the start of its value. -/
def runCalls (net : Discovery.Network n A) (ofBytes : List UInt8 → A) (r : Fin n) (topic : String)
    (s : Discovery.State n A) (calls : List (Call Discovery.Callback)) : Discovery.State n A :=
  calls.foldl (fun s c => Discovery.runCallback net r
    ⟨topic, ofBytes (c.value.take sockaddrSize)⟩ s c.callback) s

/-- For the callbacks of publishers and subscribers a datagram is its topic and the address
sent with it, whatever else the value holds. -/
theorem arrive_runs_discoverReadCb (net : Discovery.Network n A) (toBytes : A → List UInt8)
    (ofBytes : List UInt8 → A) (topicBytes : String → List UInt8)
    (callbacks : List UInt8 → List Discovery.Callback) (buffer : Buffer)
    (s : Discovery.State n A) (r : Fin n) (d : Discovery.Datagram A)
    (haddr : (toBytes d.payload).length = sockaddrSize ∧ ofBytes (toBytes d.payload) = d.payload)
    (hcb : callbacks (topicBytes d.topic) = (s.party r).callbacks d.topic)
    (hnul : 0 ∉ topicBytes d.topic)
    (hsize : (topicBytes d.topic).length + 1 + sockaddrSize ≤ bufferSize) :
    ∃ calls, arrive callbacks buffer (send (topicBytes d.topic) (toBytes d.payload)) = some calls ∧
      runCalls net ofBytes r d.topic s calls = Discovery.discoverReadCb net s r d := by
  refine ⟨_, arrive_send callbacks buffer _ _ hnul (haddr.1 ▸ hsize), ?_⟩
  have hread : ofBytes ((toBytes d.payload ++
      leftover buffer (topicBytes d.topic) (toBytes d.payload)).take sockaddrSize) = d.payload := by
    rw [← haddr.1, List.take_left]
    exact haddr.2
  rw [runCalls, List.foldl_map, hcb, Discovery.discoverReadCb]
  simp only [hread]

end addresses

end CodeC.ServiceDiscover
