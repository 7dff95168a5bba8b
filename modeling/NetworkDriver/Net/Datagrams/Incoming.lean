import NetworkDriver.Net.Datagrams.Outgoing

/-! # One read of the event-driven transport

`readOnce` is one turn of the loop of `handle_read_event`. `pending` are the bytes that wait in the
read buffer; a datagram that arrives is put behind them as far as there is room (`fill`), and if
`min_size` is reached then, they are handed over together (`readOnce_eq`).

* `AlongReads`: a condition on every turn of a read event. -/

namespace NetworkDriver.Net.Datagrams.Incoming

open NetworkDriver.Net.Types NetworkDriver.Net.Datagrams.Model NetworkDriver.Net.Datagrams.Callbacks
open DatagramTransport

variable {M σ : Type} {P : ReceivePolicy → Prop}

/-- The bytes that wait in the read buffer. -/
def pending (t : DatagramTransport M σ) : List Byte := t.readBuffer.take t.received

/-- The received bytes are in the buffer. -/
def Room (t : DatagramTransport M σ) : Prop := t.received ≤ t.readBuffer.length

theorem span_eq {t : DatagramTransport M σ} (h : Room t) : t.span = pending t := by
  unfold span pending
  rw [Nat.sub_eq_zero_of_le h, List.range'_zero, List.map_nil, List.append_nil]

theorem length_pending {t : DatagramTransport M σ} (h : Room t) : (pending t).length = t.received := by
  unfold pending
  rw [List.length_take, Nat.min_eq_left h]

/-! ### A datagram arrives -/

/-- What of a datagram fits behind the pending bytes. -/
def chunkOf (t : DatagramTransport M σ) (source : Endpoint) (payload : List UInt8) : List Byte :=
  (marked source t.trace.arrived.length payload).take t.readBufferSize

/-- The transport with `chunk` behind the pending bytes, and counted. -/
def fill (source : Endpoint) (payload : List UInt8) (chunk : List Byte) (t : DatagramTransport M σ) :
    DatagramTransport M σ :=
  { t with
    received := t.received + chunk.length
    readBuffer := t.readBuffer.take t.received ++ chunk ++ t.readBuffer.drop (t.received + chunk.length)
    trace := { t.trace with arrived := t.trace.arrived ++ [(source, payload)] } }

theorem length_marked (source : Endpoint) (n : ℕ) (payload : List UInt8) :
    (marked source n payload).length = payload.length := by
  simp [marked]

theorem length_chunkOf {t : DatagramTransport M σ} (h : Room t) (source : Endpoint)
    (payload : List UInt8) :
    (chunkOf t source payload).length = min (t.readBuffer.length - t.received) payload.length := by
  have hsize : t.readBufferSize = t.readBuffer.length - t.received := subSize_of_le h
  rw [chunkOf, List.length_take, length_marked, hsize]

section Fill

variable {t : DatagramTransport M σ} {source : Endpoint} {payload : List UInt8} {chunk : List Byte}

theorem length_fill (h : t.received + chunk.length ≤ t.readBuffer.length) :
    (fill source payload chunk t).readBuffer.length = t.readBuffer.length := by
  simp only [fill, List.length_append, List.length_take, List.length_drop]
  omega

theorem room_fill (h : t.received + chunk.length ≤ t.readBuffer.length) :
    Room (fill source payload chunk t) := by
  unfold Room
  rw [length_fill h]
  exact h

theorem pending_fill (h : t.received + chunk.length ≤ t.readBuffer.length) :
    pending (fill source payload chunk t) = pending t ++ chunk := by
  simp only [pending, fill]
  refine List.take_left' ?_
  rw [List.length_append, List.length_take, Nat.min_eq_left (by omega)]

theorem chunkOf_fits (h : Room t) (source : Endpoint) (payload : List UInt8) :
    t.received + (chunkOf t source payload).length ≤ t.readBuffer.length := by
  have hlen := length_chunkOf h source payload
  unfold Room at h
  omega

end Fill

/-! ### One turn -/

section Turn

variable (reg : Register M σ) (app : NextLayer σ)

/-- One turn of the loop of `handle_read_event`. -/
def readOnce (outcome : ReadOutcome) (t : DatagramTransport M σ) :
    ManagerResult × DatagramTransport M σ :=
  handleReadResult reg app (t.recvfrom outcome).1 (t.recvfrom outcome).2.1 outcome.temporary
    (t.recvfrom outcome).2.2

/-- What `handle_read_result` makes of the answer of `consume`. -/
def handed (o : ManagerResult × DatagramTransport M σ) : ManagerResult × DatagramTransport M σ :=
  if o.1 = .error then o else (.ok, { o.2 with received := 0 })

/-- `handle_read_result` of a read that did not fail. -/
theorem handleReadResult_eq (ep : Endpoint) (n : ℕ) (temporary : Bool) (t : DatagramTransport M σ) :
    handleReadResult reg app ep n temporary t =
      if t.minReadSize ≤ t.received + n then
        handed (consume reg app (span { t with received := t.received + n }) ep
          { t with received := t.received + n })
      else (.ok, { t with received := t.received + n }) := by
  unfold handleReadResult
  rw [if_neg (by omega), Int.toNat_natCast]
  dsimp only
  by_cases hmin : t.minReadSize ≤ t.received + n
  · rw [if_pos hmin, if_pos hmin]
    generalize consume reg app _ ep _ = o
    obtain ⟨v, t'⟩ := o
    cases v <;> rfl
  · rw [if_neg hmin, if_neg hmin]

/-- **A datagram is put behind the pending bytes, and all of them are handed over if they suffice.** -/
theorem readOnce_eq {t : DatagramTransport M σ} (h : Room t) (source : Endpoint) (payload : List UInt8) :
    readOnce reg app (.datagram source payload) t =
      if t.minReadSize ≤ t.received + (chunkOf t source payload).length then
        handed (consume reg app (pending t ++ chunkOf t source payload) source
          (fill source payload (chunkOf t source payload) t))
      else (.ok, fill source payload (chunkOf t source payload) t) := by
  have hfits := chunkOf_fits h source payload
  have hspan : (fill source payload (chunkOf t source payload) t).span =
      pending t ++ chunkOf t source payload := by
    rw [span_eq (room_fill hfits), pending_fill hfits]
  rw [← hspan]
  exact handleReadResult_eq reg app source (chunkOf t source payload).length false
    (t.recvfrom (.datagram source payload)).2.2

/-- The loop makes one turn after the other. -/
theorem readLoop_succ (n : ℕ) (kernel : List ReadOutcome) (t : DatagramTransport M σ) :
    readLoop reg app (n + 1) kernel t =
      if t.readBufferSize = 0 then (.ok, t)
      else if (readOnce reg app (kernel.headD (.failed true)) t).1 = .ok then
        readLoop reg app n kernel.tail (readOnce reg app (kernel.headD (.failed true)) t).2
      else readOnce reg app (kernel.headD (.failed true)) t := by
  by_cases hspace : t.readBufferSize = 0
  · rw [if_pos hspace]
    unfold readLoop
    rw [if_pos hspace]
  · rw [if_neg hspace]
    conv_lhs => unfold readLoop
    rw [if_neg hspace]
    unfold readOnce
    dsimp only
    generalize handleReadResult reg app _ _ _ _ = o
    obtain ⟨v, t'⟩ := o
    cases v <;> rfl

/-- `C` holds at every turn of a read event. -/
def AlongReads (C : DatagramTransport M σ → ReadOutcome → Prop) :
    ℕ → List ReadOutcome → DatagramTransport M σ → Prop
  | 0, _, _ => True
  | n + 1, kernel, t => t.readBufferSize ≠ 0 → C t (kernel.headD (.failed true)) ∧
      ((readOnce reg app (kernel.headD (.failed true)) t).1 = .ok →
        AlongReads C n kernel.tail (readOnce reg app (kernel.headD (.failed true)) t).2)

/-- `C` holds at every turn of the event, if it is a read event that is handled. -/
def AtReads (C : DatagramTransport M σ → ReadOutcome → Prop) (s : Session M σ) : Event → Prop
  | .readEvent kernel => s.failed = false →
      AlongReads reg app C s.transport.config.maxConsecutiveReads kernel s.transport
  | _ => True

instance AlongReads.decidable {C : DatagramTransport M σ → ReadOutcome → Prop}
    [∀ t o, Decidable (C t o)] :
    (n : ℕ) → (kernel : List ReadOutcome) → (t : DatagramTransport M σ) →
      Decidable (AlongReads reg app C n kernel t)
  | 0, _, _ => .isTrue trivial
  | n + 1, kernel, t =>
    have := AlongReads.decidable (C := C) n kernel.tail
      (readOnce reg app (kernel.headD (.failed true)) t).2
    inferInstanceAs (Decidable (t.readBufferSize ≠ 0 → C t (kernel.headD (.failed true)) ∧
      ((readOnce reg app (kernel.headD (.failed true)) t).1 = .ok →
        AlongReads reg app C n kernel.tail (readOnce reg app (kernel.headD (.failed true)) t).2)))

instance AtReads.decidable {C : DatagramTransport M σ → ReadOutcome → Prop} [∀ t o, Decidable (C t o)]
    (s : Session M σ) : (e : Event) → Decidable (AtReads reg app C s e)
  | .readEvent kernel => inferInstanceAs (Decidable (s.failed = false →
      AlongReads reg app C s.transport.config.maxConsecutiveReads kernel s.transport))
  | .writeEvent _ => .isTrue trivial
  | .timeout _ => .isTrue trivial
  | .call _ => .isTrue trivial

end Turn

end NetworkDriver.Net.Datagrams.Incoming
