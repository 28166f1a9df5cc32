import CodeC.Proofs.ServiceDiscoverWire

/-!
# What earlier datagrams leave in the buffer

`discover_read_cb` reads the topic up to the first NUL of the buffer and the value up to the end of
the buffer, and it looks at `nread` only to see that something has arrived. So the bytes of earlier
datagrams behind a short datagram are read along with it.
-/

namespace CodeC.ServiceDiscover

variable {κ : Type}

/-- The topic that is looked up, and the calls of the callbacks -/
def observe (callbacks : List UInt8 → List κ) (buffer : Buffer) (datagram : List UInt8) :
    Option (List UInt8) × Option (List (Call κ)) :=
  (cString (readInto buffer datagram), arrive callbacks buffer datagram)

/-- The datagrams of 1 to 1500 bytes -/
def Sized (datagrams : List (List UInt8)) : Prop :=
  ∀ d ∈ datagrams, 1 ≤ d.length ∧ d.length ≤ bufferSize

/-- Earlier datagrams make no difference. -/
def Determined (callbacks : List UInt8 → List κ) (datagram : List UInt8) : Prop :=
  ∀ buffer earlier earlier', Sized earlier → Sized earlier' →
    observe callbacks (receiveAll buffer earlier) datagram =
      observe callbacks (receiveAll buffer earlier') datagram

/-- The topic and the values end before the end of the datagram, and the length of the value,
`buf->len - topic.size() - 1`, does not underflow. -/
def Inside (callbacks : List UInt8 → List κ) (datagram : List UInt8) : Prop :=
  ∀ buffer earlier, Sized earlier → ∃ topic calls,
    observe callbacks (receiveAll buffer earlier) datagram = (some topic, some calls) ∧
    topic.length ≤ datagram.length ∧ topic.length + 1 ≤ bufferSize ∧
    ∀ c ∈ calls, c.value ≠ [] → c.topic.length + 1 + c.value.length ≤ datagram.length

/-- A datagram with a NUL byte is one that `Send` could have sent. -/
lemma exists_send_of_mem {d : List UInt8} (h : 0 ∈ d) :
    ∃ payload, 0 ∉ d.takeWhile (· ≠ 0) ∧ send (d.takeWhile (· ≠ 0)) payload = d := by
  obtain ⟨topic, payload, rfl, hnul⟩ := List.eq_append_cons_of_mem h
  have htopic := cString_append topic payload hnul
  rw [cString, if_pos h] at htopic
  rw [Option.some.inj htopic]
  exact ⟨payload, hnul, send_eq topic payload⟩

/-- A datagram that fills the buffer leaves nothing of what was there. -/
lemma bytes_receiveAll_full (buffer : Buffer) (b : UInt8) :
    (receiveAll buffer [List.replicate bufferSize b]).bytes = List.replicate bufferSize b := by
  rw [receiveAll, List.foldl_cons, List.foldl_nil]
  simp only [readInto]
  rw [List.take_of_length_le (by rw [List.length_replicate]), copyTo_zero,
    List.drop_of_length_le (by rw [buffer.length_eq, List.length_replicate]), List.append_nil]

lemma readInto_receiveAll_full (buffer : Buffer) (b : UInt8) {d : List UInt8}
    (hd : d.length ≤ bufferSize) :
    readInto (receiveAll buffer [List.replicate bufferSize b]) d =
      d ++ List.replicate (bufferSize - d.length) b := by
  rw [readInto, bytes_receiveAll_full, List.take_of_length_le hd, copyTo_zero, List.drop_replicate]

/-- What is observed of a datagram with a NUL byte -/
lemma observe_send (callbacks : List UInt8 → List κ) (buffer : Buffer) (topic payload : List UInt8)
    (hnul : 0 ∉ topic) (hsize : (send topic payload).length ≤ bufferSize) :
    observe callbacks buffer (send topic payload) = (some topic, some ((callbacks topic).map fun cb =>
      ⟨cb, topic, payload ++ leftover buffer topic payload⟩)) := by
  have hle : topic.length + 1 + payload.length ≤ bufferSize := by
    rw [send_eq, List.length_append, List.length_cons] at hsize
    omega
  rw [observe, arrive_send callbacks buffer topic payload hnul hle, readInto_send _ _ _ hle,
    cString_append _ _ hnul]

/-- A buffer of zeros -/
def zeros : Buffer := ⟨List.replicate bufferSize 0, List.length_replicate⟩

lemma sized_full (b : UInt8) : Sized [List.replicate bufferSize b] := by
  intro d hd
  rw [List.mem_singleton.mp hd, List.length_replicate]
  decide

/-- Without a NUL byte of its own, a datagram has no topic behind a datagram of ones. -/
lemma nul_mem_of_inside {callbacks : List UInt8 → List κ} {d : List UInt8}
    (hsize : d.length ≤ bufferSize) (h : Inside callbacks d) : 0 ∈ d := by
  by_contra hno
  obtain ⟨topic, calls, hobs, -⟩ := h zeros [List.replicate bufferSize 1] (sized_full 1)
  have hstring : cString (d ++ List.replicate (bufferSize - d.length) 1) = some topic := by
    rw [← readInto_receiveAll_full zeros 1 hsize]
    exact congrArg Prod.fst hobs
  rw [cString, if_neg (by simp [hno])] at hstring
  cases hstring

section send

variable {callbacks : List UInt8 → List κ} {topic payload : List UInt8} (hnul : 0 ∉ topic)
  (hsize : (send topic payload).length ≤ bufferSize)
include hnul hsize

/-- The value that a callback is given reaches to the end of the buffer. -/
lemma fills_of_inside (h : Inside callbacks (send topic payload)) :
    callbacks topic = [] ∨ (send topic payload).length = bufferSize := by
  obtain ⟨topic', calls, hobs, -, -, hcalls⟩ := h zeros [] (by simp [Sized])
  rw [observe_send callbacks _ topic payload hnul hsize] at hobs
  obtain ⟨rfl, rfl⟩ : topic = topic' ∧ _ = calls := by simpa using hobs
  cases hcb : callbacks topic with
  | nil => exact .inl rfl
  | cons cb cbs =>
    right
    have hlen : (send topic payload).length = topic.length + 1 + payload.length := by
      rw [send_eq, List.length_append, List.length_cons]
      omega
    have hleft := leftover_length (receiveAll zeros []) topic payload
    have hend := hcalls ⟨cb, topic, payload ++ leftover (receiveAll zeros []) topic payload⟩
      (by simp [hcb])
    dsimp only at hend
    rw [List.length_append, hleft, hlen] at hend
    rw [hlen] at hsize ⊢
    by_cases hempty : payload ++ leftover (receiveAll zeros []) topic payload = []
    · have hzero := congrArg List.length hempty
      rw [List.length_append, hleft, List.length_nil] at hzero
      omega
    · have := hend hempty
      omega

lemma read_alone_of_fills
    (h : callbacks topic = [] ∨ (send topic payload).length = bufferSize) :
    Determined callbacks (send topic payload) ∧ Inside callbacks (send topic payload) := by
  have hlen : (send topic payload).length = topic.length + 1 + payload.length := by
    rw [send_eq, List.length_append, List.length_cons]
    omega
  -- the calls do not depend on the buffer
  have hcalls : ∀ buffer, observe callbacks buffer (send topic payload) =
      (some topic, some ((callbacks topic).map fun cb => ⟨cb, topic, payload⟩)) := by
    intro buffer
    rw [observe_send callbacks buffer topic payload hnul hsize]
    rcases h with hnone | hfull
    · rw [hnone, List.map_nil, List.map_nil]
    · have hnil : leftover buffer topic payload = [] := by
        apply List.eq_nil_of_length_eq_zero
        rw [leftover_length]
        omega
      rw [hnil, List.append_nil]
  constructor
  · intro buffer earlier earlier' _ _
    rw [hcalls, hcalls]
  · intro buffer earlier _
    refine ⟨topic, _, hcalls _, by omega, by omega, fun c hc _ => ?_⟩
    obtain ⟨cb, -, rfl⟩ := List.mem_map.mp hc
    exact Nat.le_of_eq hlen.symm

end send

/-- A datagram is read on its own, whatever came before it, exactly when it holds a NUL byte and
either no callback is registered for its topic or it fills the buffer. -/
theorem datagram_read_alone_iff (callbacks : List UInt8 → List κ) (d : List UInt8)
    (hsize : d.length ≤ bufferSize) :
    Determined callbacks d ∧ Inside callbacks d ↔
      0 ∈ d ∧ (callbacks (d.takeWhile (· ≠ 0)) = [] ∨ d.length = bufferSize) := by
  constructor
  · rintro ⟨-, hinside⟩
    have hnul := nul_mem_of_inside hsize hinside
    obtain ⟨payload, htopic, hsend⟩ := exists_send_of_mem hnul
    rw [← hsend] at hsize hinside
    have hfills := fills_of_inside htopic hsize hinside
    rw [hsend] at hfills
    exact ⟨hnul, hfills⟩
  · rintro ⟨hnul, hfills⟩
    obtain ⟨payload, htopic, hsend⟩ := exists_send_of_mem hnul
    rw [← hsend] at hsize
    have halone : Determined callbacks _ ∧ Inside callbacks _ :=
      read_alone_of_fills htopic hsize (by rwa [hsend])
    rwa [hsend] at halone

theorem datagram_read_alone_iff_unregistered :
    Determined (recv (fun _ => []) [65] ()) [66, 0, 1] ∧
      Inside (recv (fun _ => []) [65] ()) [66, 0, 1] := by
  apply (datagram_read_alone_iff (recv (fun _ => []) [65] ()) [66, 0, 1] (by decide)).mpr
  decide

/-- Behind a full datagram of zeros and behind one of ones the same short datagrams are read
differently: one with a NUL byte has another value, one without has another topic. -/
theorem stale_bytes_are_read :
    ¬Determined (recv (fun _ => []) [65] ()) [65, 0, 1] ∧
      ¬Determined (recv (fun _ => []) [65] ()) [65] := by
  constructor
  · intro h
    have hvalue := h zeros _ _ (sized_full 0) (sized_full 1)
    have hsend : ([65, 0, 1] : List UInt8) = send [65] [1] := rfl
    rw [hsend, observe_send _ _ _ _ (by decide) (by decide),
      observe_send _ _ _ _ (by decide) (by decide), leftover, leftover, bytes_receiveAll_full,
      bytes_receiveAll_full] at hvalue
    have hnone : bufferSize - 3 = 0 := by simpa [recv] using hvalue
    exact absurd hnone (by decide)
  · intro h
    have htopic := congrArg Prod.fst (h zeros _ _ (sized_full 0) (sized_full 1))
    simp only [observe] at htopic
    rw [readInto_receiveAll_full _ _ (by decide), readInto_receiveAll_full _ _ (by decide)] at htopic
    have hnone : bufferSize - 1 = 0 := by simpa [cString] using htopic
    exact absurd hnone (by decide)

end CodeC.ServiceDiscover
