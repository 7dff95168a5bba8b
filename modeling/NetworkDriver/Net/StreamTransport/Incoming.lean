import NetworkDriver.Net.StreamTransport.Queue

/-! # The incoming bytes of the event-driven transport

Between two reads a transport is `Buffered`: the buffer is that of the policy in force, fewer than
`min_size` bytes wait in it, and the spans consumed with these bytes behind them are the bytes
delivered. While `consume` runs it is only `Delivering`: the span has been handed over and the
application may configure the next read, which keeps the facts a later `received_ = 0` needs.

* `incoming_faithful`: the byte stream over runs, whatever the kernel delivers and the application
  configures.
* `absorb`: a reader that gets the bytes one at a time. With exact policies the transport refines it
  (`readEvents_refine`), so how the stream was segmented cannot be seen. -/

namespace NetworkDriver.Net.StreamTransport.Incoming

open NetworkDriver.Library.Run
open NetworkDriver.Net.Types NetworkDriver.Net.StreamTransport.Model
open NetworkDriver.Net.StreamTransport.Callbacks NetworkDriver.Net.StreamTransport.Queue
open StreamTransportBase

variable {M σ : Type}

/-- The application configures policies in `P`, from `init` and from `consume` only. -/
structure Configures (P : ReceivePolicy → Prop) (app : NextLayer σ) : Prop where
  init : ∀ s, ∀ c ∈ (app.init s).2.1, Call.Allowed P c
  consume : ∀ s span, ∀ c ∈ (app.consume s span).2.1, Call.Allowed P c
  produce : NextLayer.Produces (fun _ => False) app
  handleTimeout : ∀ s id, ∀ c ∈ (app.handleTimeout s id).2.1, Call.Allowed (fun _ => False) c

/-- All bytes handed to `consume`, in order. -/
def consumedBytes (t : StreamTransportBase M σ) : List UInt8 := t.trace.consumed.flatMap Prod.snd

/-- The bytes that wait in the read buffer. -/
def pending (t : StreamTransportBase M σ) : List UInt8 := t.readBuffer.take t.received

theorem consumedBytes_recordSpan (t : StreamTransportBase M σ) (span : List UInt8)
    (verdict : ManagerResult) : consumedBytes (t.recordSpan span verdict) = consumedBytes t ++ span := by
  rw [consumedBytes, consumedBytes, recordSpan, List.flatMap_append, List.flatMap_singleton]

/-- The span is within the bounds of the policy that was in force. -/
def Fits (c : ReceivePolicy × List UInt8) : Prop :=
  c.1.minSize.toNat ≤ c.2.length ∧ c.2.length ≤ c.1.maxSize.toNat

/-! ### The invariant -/

/-- While `consume` runs: nothing of what was delivered is left to hand over. -/
structure Delivering (t : StreamTransportBase M σ) : Prop where
  minSize : t.minReadSize = t.policy.minSize.toNat
  maxSize : t.readBuffer.length = t.policy.maxSize.toNat
  le : t.minReadSize ≤ t.readBuffer.length
  room : t.received ≤ t.readBuffer.length
  spans : ∀ c ∈ t.trace.consumed, Fits c
  bytes : consumedBytes t = t.trace.delivered

/-- **The invariant between two reads.** -/
structure Buffered (t : StreamTransportBase M σ) : Prop where
  minSize : t.minReadSize = t.policy.minSize.toNat
  maxSize : t.readBuffer.length = t.policy.maxSize.toNat
  le : t.minReadSize ≤ t.readBuffer.length
  waiting : t.received = 0 ∨ t.received < t.minReadSize
  spans : ∀ c ∈ t.trace.consumed, Fits c
  bytes : consumedBytes t ++ pending t = t.trace.delivered

theorem Buffered.room {t : StreamTransportBase M σ} (h : Buffered t) : t.received ≤ t.readBuffer.length := by
  have := h.le
  rcases h.waiting with h0 | h0 <;> omega

/-- What `handle_read_result` does after `consume`. -/
theorem Delivering.buffered {t : StreamTransportBase M σ} (h : Delivering t) :
    Buffered { t with received := 0 } := by
  refine ⟨h.minSize, h.maxSize, h.le, Or.inl rfl, h.spans, ?_⟩
  simp only [pending, List.take_zero, List.append_nil]
  exact h.bytes

theorem Delivering.buffered_of_zero {t : StreamTransportBase M σ} (h : Delivering t)
    (h0 : t.received = 0) : Buffered t := by
  refine ⟨h.minSize, h.maxSize, h.le, Or.inl h0, h.spans, ?_⟩
  rw [pending, h0, List.take_zero, List.append_nil]
  exact h.bytes

theorem delivering_fresh (m : M) (s : σ) (config : TransportConfig) : Delivering (fresh m s config) :=
  ⟨rfl, rfl, Nat.le_refl _, Nat.le_refl _, by simp [fresh], rfl⟩

theorem delivering_change (t t' : StreamTransportBase M σ) (hc : Change ReceivePolicy.Proper t t')
    (h : Delivering t) : Delivering t' := by
  cases hc with
  | manager m => exact ⟨h.minSize, h.maxSize, h.le, h.room, h.spans, h.bytes⟩
  | nextLayer s => exact ⟨h.minSize, h.maxSize, h.le, h.room, h.spans, h.bytes⟩
  | configureNextRead p _ hp =>
    have hlen : (t.configureNextRead p).readBuffer.length = p.maxSize.toNat := by
      simp only [configureNextRead, List.length_append, List.length_take, List.length_replicate]
      omega
    refine ⟨rfl, hlen, ?_, Nat.zero_le _, h.spans, h.bytes⟩
    rw [hlen]
    exact UInt32.le_iff_toNat_le.mp hp.2
  | pushNew bytes spare => exact ⟨h.minSize, h.maxSize, h.le, h.room, h.spans, h.bytes⟩
  | pushCopy bytes =>
    rw [pushCopy_eq]
    exact ⟨h.minSize, h.maxSize, h.le, h.room, h.spans, h.bytes⟩

theorem buffered_change (t t' : StreamTransportBase M σ) (hc : Change (fun _ => False) t t')
    (h : Buffered t) : Buffered t' := by
  cases hc with
  | manager m => exact ⟨h.minSize, h.maxSize, h.le, h.waiting, h.spans, h.bytes⟩
  | nextLayer s => exact ⟨h.minSize, h.maxSize, h.le, h.waiting, h.spans, h.bytes⟩
  | configureNextRead p _ hp => exact hp.elim
  | pushNew bytes spare => exact ⟨h.minSize, h.maxSize, h.le, h.waiting, h.spans, h.bytes⟩
  | pushCopy bytes =>
    rw [pushCopy_eq]
    exact ⟨h.minSize, h.maxSize, h.le, h.waiting, h.spans, h.bytes⟩

/-- Writing does not touch the read side. -/
theorem buffered_write (t : StreamTransportBase M σ) (outcome : WriteOutcome) (h : Buffered t) :
    Buffered ((t.writev outcome).2.handleWriteResult (toInt (t.writev outcome).1)
      outcome.temporary).2 := by
  obtain ⟨memory, cache, count, queue, iovecs, he⟩ :=
    handleWriteResult_frame (toInt (t.writev outcome).1) outcome.temporary (t.writev outcome).2
  rw [he]
  cases outcome <;> exact ⟨h.minSize, h.maxSize, h.le, h.waiting, h.spans, h.bytes⟩

/-! ### One read -/

/-- The part of `bytes` that one `recv` delivers. -/
def chunkOf (t : StreamTransportBase M σ) (bytes : List UInt8) : List UInt8 :=
  bytes.take (min t.readBufferSize maxRwCount)

/-- The transport with `chunk` behind the received bytes, and counted. -/
def fill (chunk : List UInt8) (t : StreamTransportBase M σ) : StreamTransportBase M σ :=
  { t with
    received := t.received + chunk.length
    readBuffer := t.readBuffer.take t.received ++ chunk ++ t.readBuffer.drop (t.received + chunk.length)
    trace := { t.trace with delivered := t.trace.delivered ++ chunk } }

theorem length_chunkOf_le {t : StreamTransportBase M σ} (h : t.received ≤ t.readBuffer.length)
    (bytes : List UInt8) :
    t.received + (chunkOf t bytes).length ≤ t.readBuffer.length ∧ (chunkOf t bytes).length < 2 ^ 31 := by
  have hsize : t.readBufferSize = t.readBuffer.length - t.received := subSize_of_le h
  have hlen : (chunkOf t bytes).length ≤ min t.readBufferSize maxRwCount := by
    rw [chunkOf, List.length_take]
    omega
  have hmax : maxRwCount < 2 ^ 31 := by decide
  omega

theorem length_fill {t : StreamTransportBase M σ} {chunk : List UInt8}
    (h : t.received + chunk.length ≤ t.readBuffer.length) :
    (fill chunk t).readBuffer.length = t.readBuffer.length := by
  simp only [fill, List.length_append, List.length_take, List.length_drop]
  omega

theorem pending_fill {t : StreamTransportBase M σ} {chunk : List UInt8}
    (h : t.received + chunk.length ≤ t.readBuffer.length) : pending (fill chunk t) = pending t ++ chunk := by
  simp only [pending, fill]
  refine List.take_left' ?_
  rw [List.length_append, List.length_take, Nat.min_eq_left (by omega)]

theorem length_pending {t : StreamTransportBase M σ} (h : t.received ≤ t.readBuffer.length) :
    (pending t).length = t.received := by
  rw [pending, List.length_take, Nat.min_eq_left h]

/-- **What `handle_read_result` does with a chunk.** -/
theorem handleReadResult_data (reg : Register M σ) (app : NextLayer σ) {t : StreamTransportBase M σ}
    (h : t.received ≤ t.readBuffer.length) (bytes : List UInt8) (temporary : Bool) :
    handleReadResult reg app (toInt (t.recv (.data bytes)).1) temporary (t.recv (.data bytes)).2 =
      if chunkOf t bytes = [] then (.done, t)
      else if t.minReadSize ≤ t.received + (chunkOf t bytes).length then
        match consume reg app (pending (fill (chunkOf t bytes) t)) (fill (chunkOf t bytes) t) with
        | (.error, t) => (.error, t)
        | (_, t) => (.ok, { t with received := 0 })
      else (.ok, fill (chunkOf t bytes) t) := by
  obtain ⟨-, hsmall⟩ := length_chunkOf_le h bytes
  have hres : toInt (t.recv (.data bytes)).1 = ((chunkOf t bytes).length : ℕ) := toInt_of_lt hsmall
  have hnil : chunkOf t bytes = [] ↔ (chunkOf t bytes).length = 0 := List.length_eq_zero_iff.symm
  unfold handleReadResult
  rw [hres, if_neg (by omega)]
  by_cases h0 : chunkOf t bytes = []
  · rw [if_pos (by rw [hnil.mp h0]; rfl), if_pos h0]
    have : (t.recv (.data bytes)).2 = t := by
      have hc : bytes.take (min t.readBufferSize maxRwCount) = [] := h0
      simp [recv, hc]
    rw [this]
  · have hpos : (chunkOf t bytes).length ≠ 0 := fun hz => h0 (hnil.mpr hz)
    rw [if_neg (by omega), if_neg h0]
    rfl

section Reads

variable (r : Registration (fun _ => False) M σ) {app : NextLayer σ}

/-- The last `consume` answered `error`. -/
def Refused (t : StreamTransportBase M σ) : Prop := t.trace.verdicts.getLast? = some .error

/-- A failing `consume` has left its span in the buffer. -/
structure Abandoned (t : StreamTransportBase M σ) : Prop where
  refused : Refused t
  delivering : Delivering t

/-- The answer of a read handler: buffered, except that a failing `consume` leaves its span. -/
def Settled (answer : ManagerResult × StreamTransportBase M σ) : Prop :=
  Buffered answer.2 ∨ answer.1 = .error ∧ Abandoned answer.2

omit r in
/-- What a callback answers is recorded, and the changes do not touch the record. -/
theorem refused_change {P : ReceivePolicy → Prop} (t t' : StreamTransportBase M σ) (hc : Change P t t')
    (h : Refused t) : Refused t' := by
  cases hc with
  | pushCopy bytes => rw [pushCopy_eq]; exact h
  | _ => exact h

omit r in
/-- The pending bytes and what arrived behind them are handed over. -/
theorem delivering_handed {t : StreamTransportBase M σ} (h : Buffered t) {chunk : List UInt8}
    (verdict : ManagerResult)
    (hle : t.received + chunk.length ≤ t.readBuffer.length)
    (hmin : t.minReadSize ≤ t.received + chunk.length) :
    Delivering ((fill chunk t).recordSpan (pending (fill chunk t)) verdict) := by
  have hlen := length_fill hle
  have hspan : (pending (fill chunk t)).length = t.received + chunk.length := by
    rw [pending_fill hle, List.length_append, length_pending h.room]
  refine ⟨h.minSize, hlen.trans h.maxSize, hlen.symm ▸ h.le, hlen.symm ▸ hle, ?_, ?_⟩
  · intro c hc
    rcases List.mem_append.mp hc with hc | hc
    · exact h.spans c hc
    · obtain rfl := List.mem_singleton.mp hc
      refine ⟨?_, ?_⟩
      · rw [hspan]
        exact h.minSize ▸ hmin
      · rw [hspan]
        exact h.maxSize ▸ hle
  · rw [consumedBytes_recordSpan, pending_fill hle, ← List.append_assoc]
    exact congrArg (· ++ chunk) h.bytes

theorem settled_read (happ : Configures ReceivePolicy.Proper app) {t : StreamTransportBase M σ}
    (h : Buffered t) (outcome : ReadOutcome) :
    Settled (handleReadResult r.register app (toInt (t.recv outcome).1) outcome.temporary
      (t.recv outcome).2) := by
  have hroom := h.room
  cases outcome with
  | closed => exact Or.inl h
  | failed temporary =>
    have hneg : toInt (-1) < 0 := by decide
    rw [show (t.recv (.failed temporary)).1 = -1 from rfl, handleReadResult, if_pos hneg]
    exact Or.inl h
  | data bytes =>
    obtain ⟨hle, -⟩ := length_chunkOf_le hroom bytes
    rw [handleReadResult_data r.register app hroom]
    generalize chunkOf t bytes = chunk at hle
    split_ifs with h0 hmin
    · exact Or.inl h
    · -- the span is handed over, and the application may configure the next read
      have hcons : Delivering (consume r.register app (pending (fill chunk t)) (fill chunk t)).2 :=
        (callback_changes (r.weaken fun _ => False.elim) _ (happ.consume _ _) _).keeps
          delivering_change (delivering_handed h _ hle hmin)
      have hrefused : (app.consume (fill chunk t).nextLayer (pending (fill chunk t))).2.2 = .error →
          Refused (consume r.register app (pending (fill chunk t)) (fill chunk t)).2 := fun herr =>
        (callback_changes (r.weaken fun _ => False.elim) _ (happ.consume _ _) _).keeps refused_change
          (List.getLast?_concat.trans (congrArg some herr))
      have hverdict : (consume r.register app (pending (fill chunk t)) (fill chunk t)).1 =
          (app.consume (fill chunk t).nextLayer (pending (fill chunk t))).2.2 := rfl
      rw [← hverdict] at hrefused
      generalize consume r.register app (pending (fill chunk t)) (fill chunk t) = o at hcons hrefused ⊢
      obtain ⟨v, t'⟩ := o
      cases v with
      | error => exact Or.inr ⟨rfl, ⟨hrefused rfl, hcons⟩⟩
      | ok => exact Or.inl hcons.buffered
      | done => exact Or.inl hcons.buffered
      | temporaryError => exact Or.inl hcons.buffered
    · have hlen := length_fill hle
      have hdelivered : consumedBytes t ++ pending (fill chunk t) = t.trace.delivered ++ chunk := by
        rw [pending_fill hle, ← List.append_assoc, h.bytes]
      refine Or.inl ⟨h.minSize, hlen.trans h.maxSize, hlen.symm ▸ h.le, Or.inr ?_, h.spans, hdelivered⟩
      exact Nat.not_le.mp hmin

/-- **A read event.** -/
theorem settled_readLoop (happ : Configures ReceivePolicy.Proper app) (n : ℕ) :
    ∀ (kernel : List ReadOutcome) (t : StreamTransportBase M σ), Buffered t →
      Settled (readLoop r.register app n kernel t) := by
  induction n with
  | zero => exact fun _ _ h => Or.inl h
  | succ n ih =>
    intro kernel t h
    have hread := settled_read r happ h (kernel.headD (.failed true))
    unfold readLoop
    dsimp only
    generalize handleReadResult r.register app (toInt (t.recv (kernel.headD (.failed true))).1)
      (kernel.headD (.failed true)).temporary (t.recv (kernel.headD (.failed true))).2 = o at hread ⊢
    obtain ⟨v, t'⟩ := o
    cases v with
    | ok =>
      rcases hread with hread | hread
      · exact ih kernel.tail t' hread
      · exact ManagerResult.noConfusion hread.1
    | error => exact hread
    | done => exact hread
    | temporaryError => exact hread

end Reads

/-! ### Runs -/

/-- **The incoming byte stream.** -/
structure Faithful (s : Session M σ) : Prop where
  room : s.transport.received ≤ s.transport.readBuffer.length
  spans : ∀ c ∈ s.transport.trace.consumed, Fits c
  bytes : s.failed = false →
    consumedBytes s.transport ++ pending s.transport = s.transport.trace.delivered
  failed : s.failed = true →
    consumedBytes s.transport ++ pending s.transport = s.transport.trace.delivered ∨
      Refused s.transport ∧ consumedBytes s.transport = s.transport.trace.delivered

/-- The invariant of sessions: a session that failed may have been left by `consume`. -/
def Kept (s : Session M σ) : Prop :=
  Buffered s.transport ∨ s.failed = true ∧ Abandoned s.transport

theorem Kept.faithful {s : Session M σ} (h : Kept s) : Faithful s := by
  rcases h with h | ⟨hf, h⟩
  · exact ⟨h.room, h.spans, fun _ => h.bytes, fun _ => Or.inl h.bytes⟩
  · refine ⟨h.delivering.room, h.delivering.spans, fun h0 => ?_, fun _ => Or.inr ⟨h.refused, h.delivering.bytes⟩⟩
    rw [hf] at h0
    cases h0

section Runs

variable (r : Registration (fun _ => False) M σ) {app : NextLayer σ}

theorem received_change {P : ReceivePolicy → Prop} (t t' : StreamTransportBase M σ) (hc : Change P t t')
    (h : t.received = 0) : t'.received = 0 := by
  cases hc with
  | pushCopy bytes => rw [pushCopy_eq]; exact h
  | configureNextRead p => rfl
  | _ => exact h

theorem buffered_start (happ : Configures ReceivePolicy.Proper app) (m : M) (s : σ)
    (config : TransportConfig) : Buffered (Session.start r.register app m s config).transport := by
  have hcalls := calls_changes (r.weaken (Q := ReceivePolicy.Proper) fun _ => False.elim)
    (app.init s).2.1 (happ.init s) { fresh m (app.init s).1 config with config := config }
  have h0 := hcalls.keeps received_change rfl
  exact (hcalls.keeps delivering_change (delivering_fresh m _ config)).buffered_of_zero h0

theorem kept_step (happ : Configures ReceivePolicy.Proper app) (s : Session M σ) (e : Event)
    (h : Kept s) : Kept (Session.step r.register app s e) := by
  unfold Session.step
  split_ifs with hf
  · exact h
  have hb : Buffered s.transport := h.resolve_right fun h => hf h.1
  cases e with
  | readEvent kernel =>
    refine (settled_readLoop r happ _ kernel s.transport hb).imp_right fun h => ?_
    exact ⟨decide_eq_true h.1, h.2⟩
  | writeEvent kernel =>
    refine Or.inl (writeLoop_keeps ?_ buffered_write _ kernel s.transport hb)
    exact fun t => (fetchMoreData_changes r happ.produce t).keeps buffered_change
  | timeout id => exact Or.inl ((callback_changes r _ (happ.handleTimeout _ id) _).keeps buffered_change hb)
  | enqueue bytes => exact Or.inl ((call_changes r _ (c := .enqueue bytes) trivial).keeps buffered_change hb)
  | enqueueBuffer bytes spare =>
    exact Or.inl ((call_changes r _ (c := .enqueueBuffer bytes spare) trivial).keeps buffered_change hb)

end Runs

/-! ### Segmentation -/

/-- A reader that is handed its bytes one at a time. -/
structure Reader (σ : Type) where
  nextLayer : σ
  policy : ReceivePolicy
  waiting : List UInt8
  consumed : List (ReceivePolicy × List UInt8)
  failed : Bool

/-- The policy in force after some calls. -/
def nextPolicy (calls : List Call) (p : ReceivePolicy) : ReceivePolicy :=
  calls.foldl (fun p c => match c with
    | .configureNextRead q => q
    | _ => p) p

/-- The reader after one more byte: with `min_size` bytes it consumes. -/
def absorb (app : NextLayer σ) (x : Reader σ) (b : UInt8) : Reader σ :=
  if x.failed then x
  else if (x.waiting ++ [b]).length < x.policy.minSize.toNat then
    { x with waiting := x.waiting ++ [b] }
  else
    let answer := app.consume x.nextLayer (x.waiting ++ [b])
    { nextLayer := answer.1
      policy := nextPolicy answer.2.1 x.policy
      waiting := []
      consumed := x.consumed ++ [(x.policy, x.waiting ++ [b])]
      failed := answer.2.2 = .error }

/-- What a transport is to its application. -/
def view (t : StreamTransportBase M σ) : Reader σ :=
  ⟨t.nextLayer, t.policy, pending t, t.trace.consumed, false⟩

theorem absorb_waiting (app : NextLayer σ) (chunk : List UInt8) : ∀ x : Reader σ, x.failed = false →
    (x.waiting ++ chunk).length < x.policy.minSize.toNat →
    chunk.foldl (absorb app) x = { x with waiting := x.waiting ++ chunk } := by
  induction chunk with
  | nil => intro x _ _; simp
  | cons b chunk ih =>
    intro x hf hlt
    have hb : absorb app x b = { x with waiting := x.waiting ++ [b] } := by
      rw [absorb, if_neg (by simp [hf]), if_pos (by simp at hlt ⊢; omega)]
    have hrest := ih { x with waiting := x.waiting ++ [b] } hf (by simp at hlt ⊢; omega)
    rw [List.foldl_cons, hb, hrest, List.append_assoc, List.singleton_append]

/-- **The byte that completes a span.** -/
theorem absorb_consume (app : NextLayer σ) {chunk : List UInt8} {x : Reader σ} (hf : x.failed = false)
    (hne : chunk ≠ []) (hlen : (x.waiting ++ chunk).length = x.policy.minSize.toNat) :
    chunk.foldl (absorb app) x =
      { nextLayer := (app.consume x.nextLayer (x.waiting ++ chunk)).1
        policy := nextPolicy (app.consume x.nextLayer (x.waiting ++ chunk)).2.1 x.policy
        waiting := []
        consumed := x.consumed ++ [(x.policy, x.waiting ++ chunk)]
        failed := (app.consume x.nextLayer (x.waiting ++ chunk)).2.2 = .error } := by
  obtain ⟨front, b, rfl⟩ := List.eq_nil_or_concat chunk |>.resolve_left hne
  rw [List.concat_eq_append] at hlen ⊢
  rw [List.foldl_append, absorb_waiting app front x hf (by simp at hlen ⊢; omega)]
  have hfull : ¬ (x.waiting ++ (front ++ [b])).length < x.policy.minSize.toNat := by omega
  simp only [List.foldl_cons, List.foldl_nil, absorb, hf, Bool.false_eq_true, if_false,
    List.append_assoc, if_neg hfull]

/-- The calls of a callback, as far as the application can see. -/
theorem calls_eventRegister (calls : List Call) : ∀ t : StreamTransportBase Operation σ,
    (calls.foldl (call eventRegister) t).nextLayer = t.nextLayer ∧
      (calls.foldl (call eventRegister) t).policy = nextPolicy calls t.policy ∧
      (calls.foldl (call eventRegister) t).trace.consumed = t.trace.consumed ∧
      (calls.foldl (call eventRegister) t).trace.delivered = t.trace.delivered := by
  have hreg : ∀ op (t : StreamTransportBase Operation σ),
      ∃ m, eventRegister op t = { t with manager := m } := by
    intro op t
    unfold eventRegister
    split_ifs
    · exact ⟨_, rfl⟩
    · exact ⟨t.manager, rfl⟩
  induction calls with
  | nil => exact fun t => ⟨rfl, rfl, rfl, rfl⟩
  | cons c calls ih =>
    intro t
    have hcall : (call eventRegister t c).nextLayer = t.nextLayer ∧
        (call eventRegister t c).policy = nextPolicy [c] t.policy ∧
        (call eventRegister t c).trace.consumed = t.trace.consumed ∧
        (call eventRegister t c).trace.delivered = t.trace.delivered := by
      cases c with
      | configureNextRead p => exact ⟨rfl, rfl, rfl, rfl⟩
      | enqueue bytes =>
        obtain ⟨m, hm⟩ := hreg .write (t.pushCopy bytes)
        rw [call, enqueue, hm, pushCopy_eq]
        exact ⟨rfl, rfl, rfl, rfl⟩
      | enqueueBuffer bytes spare =>
        obtain ⟨m, hm⟩ := hreg .write (t.pushNew bytes spare)
        rw [call, enqueueBuffer, hm]
        exact ⟨rfl, rfl, rfl, rfl⟩
      | registerReading =>
        obtain ⟨m, hm⟩ := hreg .read t
        rw [call, hm]
        exact ⟨rfl, rfl, rfl, rfl⟩
      | registerWriting =>
        obtain ⟨m, hm⟩ := hreg .write t
        rw [call, hm]
        exact ⟨rfl, rfl, rfl, rfl⟩
    obtain ⟨h₁, h₂, h₃, h₄⟩ := hcall
    obtain ⟨h₁', h₂', h₃', h₄'⟩ := ih (call eventRegister t c)
    rw [List.foldl_cons]
    exact ⟨h₁'.trans h₁, by rw [h₂', h₂]; rfl, h₃'.trans h₃, h₄'.trans h₄⟩

theorem consume_eventRegister (app : NextLayer σ) (span : List UInt8)
    (t : StreamTransportBase Operation σ) :
    (consume eventRegister app span t).1 = (app.consume t.nextLayer span).2.2 ∧
      (consume eventRegister app span t).2.nextLayer = (app.consume t.nextLayer span).1 ∧
      (consume eventRegister app span t).2.policy =
        nextPolicy (app.consume t.nextLayer span).2.1 t.policy ∧
      (consume eventRegister app span t).2.trace.consumed =
        t.trace.consumed ++ [(t.policy, span)] ∧
      (consume eventRegister app span t).2.trace.delivered = t.trace.delivered :=
  ⟨rfl, calls_eventRegister _ _⟩

/-- `t` answers `v` after some more bytes, and the reader of single bytes did the same. -/
structure Refines (app : NextLayer σ) (t : StreamTransportBase Operation σ)
    (answer : ManagerResult × StreamTransportBase Operation σ) (chunk : List UInt8) : Prop where
  delivered : answer.2.trace.delivered = t.trace.delivered ++ chunk
  consumed : (chunk.foldl (absorb app) (view t)).consumed = answer.2.trace.consumed
  open_ : answer.1 ≠ .error → chunk.foldl (absorb app) (view t) = view answer.2

theorem refines_refl (app : NextLayer σ) (v : ManagerResult) (t : StreamTransportBase Operation σ) :
    Refines app t (v, t) [] :=
  ⟨by simp, rfl, fun _ => rfl⟩

/-- **One read with an exact policy.** -/
theorem read_refines (app : NextLayer σ) {t : StreamTransportBase Operation σ} (h : Buffered t)
    (hexact : t.policy.minSize = t.policy.maxSize) (outcome : ReadOutcome) :
    ∃ chunk, Refines app t (handleReadResult eventRegister app (toInt (t.recv outcome).1)
      outcome.temporary (t.recv outcome).2) chunk := by
  have hroom := h.room
  cases outcome with
  | closed => exact ⟨[], refines_refl app _ t⟩
  | failed temporary =>
    have hneg : toInt (-1) < 0 := by decide
    rw [show (t.recv (.failed temporary)).1 = -1 from rfl, handleReadResult, if_pos hneg]
    exact ⟨[], refines_refl app _ t⟩
  | data bytes =>
    obtain ⟨hle, -⟩ := length_chunkOf_le hroom bytes
    rw [handleReadResult_data eventRegister app hroom]
    generalize chunkOf t bytes = chunk at hle
    have hpend := pending_fill hle
    have hwait : ((view t).waiting ++ chunk).length = t.received + chunk.length := by
      rw [List.length_append, show (view t).waiting = pending t from rfl, length_pending hroom]
    have hmax : t.readBuffer.length = t.minReadSize := by rw [h.maxSize, h.minSize, hexact]
    split_ifs with h0 hmin
    · exact ⟨[], refines_refl app _ t⟩
    · -- the buffer is full, so this is the byte that completes the span
      have hfull := absorb_consume app (x := view t) rfl h0
        (by rw [hwait]; show _ = t.policy.minSize.toNat; rw [← h.minSize]; omega)
      rw [show (view t).waiting = pending t from rfl, ← hpend] at hfull
      obtain ⟨hverdict, hlayer, hpolicy, hconsumed, hdelivered⟩ :=
        consume_eventRegister app (pending (fill chunk t)) (fill chunk t)
      generalize consume eventRegister app (pending (fill chunk t)) (fill chunk t) = o
        at hverdict hlayer hpolicy hconsumed hdelivered ⊢
      obtain ⟨v, t'⟩ := o
      dsimp only at hverdict hlayer hpolicy hconsumed hdelivered
      have hopen : v ≠ .error → chunk.foldl (absorb app) (view t) = view { t' with received := 0 } := by
        intro hne
        rw [hverdict] at hne
        rw [hfull, view, view, hlayer, hpolicy, hconsumed]
        rw [Reader.mk.injEq]
        exact ⟨rfl, rfl, rfl, rfl, decide_eq_false hne⟩
      refine ⟨chunk, ?_⟩
      cases v with
      | error => exact ⟨hdelivered, by rw [hfull]; exact hconsumed.symm, fun hne => absurd rfl hne⟩
      | ok => exact ⟨hdelivered, by rw [hfull]; exact hconsumed.symm, fun _ => hopen nofun⟩
      | done => exact ⟨hdelivered, by rw [hfull]; exact hconsumed.symm, fun _ => hopen nofun⟩
      | temporaryError => exact ⟨hdelivered, by rw [hfull]; exact hconsumed.symm, fun _ => hopen nofun⟩
    · have hshort := absorb_waiting app chunk (view t) rfl
        (by rw [hwait]; show _ < t.policy.minSize.toNat; rw [← h.minSize]; omega)
      refine ⟨chunk, rfl, by rw [hshort]; rfl, fun _ => ?_⟩
      rw [hshort, view, view, hpend]
      rfl

/-- The policies `exactly(n)` with `n > 0`. -/
def Exact (p : ReceivePolicy) : Prop := ∃ n, 0 < n ∧ p = ReceivePolicy.exactly n

theorem Exact.proper {p : ReceivePolicy} (h : Exact p) : p.Proper := by
  obtain ⟨n, hn, rfl⟩ := h
  exact ⟨hn, UInt32.le_refl n⟩

theorem Configures.mono {P Q : ReceivePolicy → Prop} (hPQ : ∀ p, P p → Q p) {app : NextLayer σ}
    (h : Configures P app) : Configures Q app :=
  ⟨fun s c hc => (h.init s c hc).mono hPQ, fun s span c hc => (h.consume s span c hc).mono hPQ,
    h.produce, h.handleTimeout⟩

theorem exact_change (t t' : StreamTransportBase M σ) (hc : Change Exact t t')
    (h : t.policy.minSize = t.policy.maxSize) : t'.policy.minSize = t'.policy.maxSize := by
  cases hc with
  | configureNextRead p _ hp =>
    obtain ⟨n, -, rfl⟩ := hp
    rfl
  | pushCopy bytes => rw [pushCopy_eq]; exact h
  | _ => exact h

/-- What refines after one chunk refines after the next. -/
theorem Refines.trans {app : NextLayer σ} {t t' : StreamTransportBase Operation σ}
    {answer : ManagerResult × StreamTransportBase Operation σ} {v : ManagerResult}
    {chunk chunk' : List UInt8} (h : Refines app t (v, t') chunk) (hv : v ≠ .error)
    (h' : Refines app t' answer chunk') : Refines app t answer (chunk ++ chunk') := by
  have hview := h.open_ hv
  refine ⟨?_, ?_, fun hne => ?_⟩
  · rw [h'.delivered, h.delivered, List.append_assoc]
  · rw [List.foldl_append, hview, h'.consumed]
  · rw [List.foldl_append, hview, h'.open_ hne]

/-- The state between two reads with exact policies. -/
def BufferedExact (t : StreamTransportBase M σ) : Prop :=
  Buffered t ∧ t.policy.minSize = t.policy.maxSize

theorem readLoop_refines {app : NextLayer σ} (happ : Configures Exact app) (n : ℕ) :
    ∀ (kernel : List ReadOutcome) (t : StreamTransportBase Operation σ), BufferedExact t →
      (∃ chunk, Refines app t (readLoop eventRegister app n kernel t) chunk) ∧
        ((readLoop eventRegister app n kernel t).1 ≠ .error →
          BufferedExact (readLoop eventRegister app n kernel t).2) := by
  induction n with
  | zero => exact fun _ t h => ⟨⟨[], refines_refl app _ t⟩, fun _ => h⟩
  | succ n ih =>
    intro kernel t h
    have hproper := happ.mono fun _ => Exact.proper
    obtain ⟨chunk, hchunk⟩ := read_refines app h.1 h.2 (kernel.headD (.failed true))
    have hset := settled_read (eventRegistration σ) hproper h.1 (kernel.headD (.failed true))
    have hex : (handleReadResult eventRegister app (toInt (t.recv (kernel.headD (.failed true))).1)
        (kernel.headD (.failed true)).temporary (t.recv (kernel.headD (.failed true))).2).2.policy.minSize =
      (handleReadResult eventRegister app (toInt (t.recv (kernel.headD (.failed true))).1)
        (kernel.headD (.failed true)).temporary
        (t.recv (kernel.headD (.failed true))).2).2.policy.maxSize := by
      refine handleReadResult_keeps (I := fun t => t.policy.minSize = t.policy.maxSize)
        (fun _ _ _ _ _ _ h => h) (fun t span h => ?_) t _ h.2
      exact (callback_changes (eventRegistration σ) _ (happ.consume _ span) t).keeps exact_change h
    unfold readLoop
    dsimp only at hset hchunk ⊢
    simp only [eventRegistration] at hset
    generalize handleReadResult eventRegister app _ _ _ = o at hchunk hset hex ⊢
    obtain ⟨v, t'⟩ := o
    have hnext : v ≠ .error → BufferedExact t' := fun hne => ⟨hset.resolve_right fun h => hne h.1, hex⟩
    cases v with
    | ok =>
      obtain ⟨⟨chunk', hchunk'⟩, hlast⟩ := ih kernel.tail t' (hnext (by decide))
      exact ⟨⟨chunk ++ chunk', hchunk.trans (by decide) hchunk'⟩, hlast⟩
    | error => exact ⟨⟨chunk, hchunk⟩, hnext⟩
    | done => exact ⟨⟨chunk, hchunk⟩, hnext⟩
    | temporaryError => exact ⟨⟨chunk, hchunk⟩, hnext⟩

theorem run_failed (reg : Register M σ) (app : NextLayer σ) {s : Session M σ} (h : s.failed = true)
    (es : List Event) : run (Session.step reg app) s es = s := by
  induction es with
  | nil => rfl
  | cons e es ih => rw [run_cons, show Session.step reg app s e = s from if_pos h, ih]

/-- **Any run of read events refines the reader of single bytes.** -/
theorem readEvents_refine {app : NextLayer σ} (happ : Configures Exact app)
    (kernels : List (List ReadOutcome)) : ∀ s : Session Operation σ, s.failed = false →
      BufferedExact s.transport → ∃ chunk,
        (run (Session.step eventRegister app) s (kernels.map .readEvent)).transport.trace.delivered =
          s.transport.trace.delivered ++ chunk ∧
        (chunk.foldl (absorb app) (view s.transport)).consumed =
          (run (Session.step eventRegister app) s (kernels.map .readEvent)).transport.trace.consumed := by
  induction kernels with
  | nil => exact fun s _ _ => ⟨[], by simp, rfl⟩
  | cons kernel kernels ih =>
    intro s hf h
    obtain ⟨⟨chunk, hchunk⟩, hlast⟩ :=
      readLoop_refines happ s.transport.config.maxConsecutiveReads kernel s.transport h
    have hstep : Session.step eventRegister app s (.readEvent kernel) = Session.answered
        (readLoop eventRegister app s.transport.config.maxConsecutiveReads kernel s.transport) := by
      rw [Session.step, hf]
      rfl
    rw [List.map_cons, run_cons, hstep]
    generalize readLoop eventRegister app _ kernel s.transport = o at hchunk hlast ⊢
    by_cases herr : o.1 = .error
    · rw [run_failed eventRegister app (decide_eq_true herr)]
      exact ⟨chunk, hchunk.delivered, hchunk.consumed⟩
    · obtain ⟨chunk', hdelivered, hconsumed⟩ := ih (Session.answered o) (decide_eq_false herr) (hlast herr)
      refine ⟨chunk ++ chunk', ?_, ?_⟩
      · rw [hdelivered, ← List.append_assoc, ← hchunk.delivered]
        rfl
      · rw [List.foldl_append, hchunk.open_ herr, ← hconsumed]
        rfl

/-! ### The byte stream -/

theorem bufferedExact_start {app : NextLayer σ} (happ : Configures Exact app) (s : σ)
    (config : TransportConfig) :
    BufferedExact (Session.start eventRegister app Operation.none s config).transport := by
  refine ⟨buffered_start (eventRegistration σ) (happ.mono fun _ => Exact.proper) _ s config, ?_⟩
  exact (calls_changes (eventRegistration σ) _ (happ.init s) _).keeps exact_change rfl

/-- **The incoming byte stream.** With proper policies, set from `init` and `consume`: in every
state of every run the spans are within the bounds of the policies in force and, up to what a
failing `consume` leaves, the bytes delivered are those consumed and those that wait. With exact
policies, runs of read events that deliver the same bytes make the same `consume` calls. -/
theorem incoming_faithful (app : NextLayer σ) (happ : Configures ReceivePolicy.Proper app) (s : σ)
    (config : TransportConfig) :
    (∀ es, Always (Session.step eventRegister app) Faithful
        (Session.start eventRegister app Operation.none s config) es) ∧
      (Configures Exact app → ∀ kernels kernels' : List (List ReadOutcome),
        (run (Session.step eventRegister app) (Session.start eventRegister app Operation.none s config)
            (kernels.map .readEvent)).transport.trace.delivered =
          (run (Session.step eventRegister app) (Session.start eventRegister app Operation.none s config)
            (kernels'.map .readEvent)).transport.trace.delivered →
        (run (Session.step eventRegister app) (Session.start eventRegister app Operation.none s config)
            (kernels.map .readEvent)).transport.trace.consumed =
          (run (Session.step eventRegister app) (Session.start eventRegister app Operation.none s config)
            (kernels'.map .readEvent)).transport.trace.consumed) := by
  refine ⟨fun es => ?_, fun hexact kernels kernels' he => ?_⟩
  · have hstart : Kept (Session.start eventRegister app Operation.none s config) :=
      Or.inl (buffered_start (eventRegistration σ) happ _ s config)
    exact (always_of_step (kept_step (eventRegistration σ) happ) es hstart).imp fun _ h => h.faithful
  · have hstart := bufferedExact_start hexact s config
    obtain ⟨chunk, hd, hc⟩ := readEvents_refine hexact kernels
      (Session.start eventRegister app Operation.none s config) rfl hstart
    obtain ⟨chunk', hd', hc'⟩ := readEvents_refine hexact kernels'
      (Session.start eventRegister app Operation.none s config) rfl hstart
    rw [hd, hd'] at he
    rw [← hc, ← hc', List.append_cancel_left he]

/-- A next layer that reads pairs of bytes and answers them with `verdict`. -/
def pairLayer (verdict : ManagerResult) : NextLayer Unit where
  init s := (s, [.configureNextRead (.exactly 2)], true)
  hasMoreData _ := false
  produce s := (s, [], .ok)
  consume s _ := (s, [], verdict)
  handleTimeout s _ := (s, [], .ok)

theorem pairLayer_exact (verdict : ManagerResult) : Configures Exact (pairLayer verdict) := by
  refine ⟨fun s c hc => ?_, by simp [pairLayer], by simp [NextLayer.Produces, pairLayer],
    by simp [pairLayer]⟩
  obtain rfl := List.mem_singleton.mp hc
  exact ⟨2, by decide, rfl⟩

/-- Three bytes, in two segmentations. -/
theorem incoming_faithful_pairs :
    Always (Session.step eventRegister (pairLayer .ok)) Faithful
        (Session.start eventRegister (pairLayer .ok) Operation.none () {})
        [.readEvent [.data [1], .failed true], .enqueue [7], .readEvent [.data [2], .data [3]]] ∧
      (run (Session.step eventRegister (pairLayer .ok))
          (Session.start eventRegister (pairLayer .ok) Operation.none () {})
          ([[.data [1], .data [2], .data [3]]].map .readEvent)).transport.trace.consumed =
        (run (Session.step eventRegister (pairLayer .ok))
          (Session.start eventRegister (pairLayer .ok) Operation.none () {})
          ([[.data [1, 2], .failed true], [.data [3]]].map .readEvent)).transport.trace.consumed :=
  have h := incoming_faithful (pairLayer .ok) ((pairLayer_exact .ok).mono fun _ => Exact.proper) () {}
  ⟨h.1 _, h.2 (pairLayer_exact .ok) _ _ (by decide +kernel)⟩

/-- When `consume` fails, the span it was handed still counts as received: it is there twice. -/
theorem incoming_failed_consume :
    ¬ ∀ (app : NextLayer Unit), Configures ReceivePolicy.Proper app → ∀ es,
      Always (Session.step eventRegister app)
        (fun s => consumedBytes s.transport ++ pending s.transport = s.transport.trace.delivered)
        (Session.start eventRegister app Operation.none () {}) es := by
  intro h
  have hlast := (h (pairLayer .error) ((pairLayer_exact .error).mono fun _ => Exact.proper)
    [.readEvent [.data [1, 2]]]).last
  revert hlast
  decide +kernel

end NetworkDriver.Net.StreamTransport.Incoming
