import NetworkDriver.Net.Datagrams.Attribution

/-! # Receiving datagrams

`Receiver` is what receiving datagrams is about: bytes wait until `min_size` is reached and are then
handed over, whereupon the application may configure the next read or refuse to go on. What an
application answers is a function of what was handed to it so far (`Strategy`). A transport tracks a
receiver (`Tracks`) if its read side is that of the receiver after the datagrams that arrived.

* `arrival_tracks`: `handle_read_result` does what a receiver does, if the kernel put the datagram
  behind the bytes that wait. -/

namespace NetworkDriver.Net.Datagrams.Reception

open NetworkDriver.Net.Types NetworkDriver.Net.Datagrams.Model NetworkDriver.Net.Datagrams.Callbacks
open NetworkDriver.Net.Datagrams.Incoming NetworkDriver.Net.Datagrams.Attribution
open NetworkDriver.Net.StreamTransport.Model (TransportConfig)
open DatagramTransport

variable {M σ : Type}

/-! ### Receivers -/

/-- What a call of `consume` is given. -/
abbrev Span := List UInt8 × Endpoint

/-- What an application answers, by what was handed to it so far. -/
abbrev Strategy := List Span → Answer

/-- The state of a receiver. -/
structure Receiver where
  minSize : ℕ := 0
  maxSize : ℕ := 0
  pending : List UInt8 := []
  consumed : List Span := []

namespace Receiver

/-- The next read is configured; what waits is dropped. -/
def configure (s : Receiver) (p : ReceivePolicy) : Receiver :=
  { s with minSize := p.minSize.toNat, maxSize := p.maxSize.toNat, pending := [] }

variable (strategy : Strategy)

/-- The bytes that wait are handed over. -/
def handOver (s : Receiver) (ep : Endpoint) : Receiver :=
  let s := { s with consumed := s.consumed ++ [(s.pending, ep)] }
  { (strategy s.consumed).policies.foldl configure s with pending := [] }

/-- The application has refused what it was given last. -/
def Over (spans : List Span) : Prop := spans ≠ [] ∧ (strategy spans).verdict = .error

instance (spans : List Span) : Decidable (Over strategy spans) :=
  inferInstanceAs (Decidable (spans ≠ [] ∧ (strategy spans).verdict = .error))

/-- A datagram arrives. -/
def receive (s : Receiver) (d : Endpoint × List UInt8) : Receiver :=
  if Over strategy s.consumed then s
  else
    let s := { s with pending := s.pending ++ d.2 }
    if s.minSize ≤ s.pending.length then s.handOver strategy d.1 else s

/-- Datagrams arrive one after the other. -/
def receiveAll (s : Receiver) (ds : List (Endpoint × List UInt8)) : Receiver :=
  ds.foldl (receive strategy) s

/-- A datagram that finds no room leads to no call. -/
def Admits (s : Receiver) (d : Endpoint × List UInt8) : Prop :=
  s.maxSize ≤ s.pending.length → d.2 = [] ∧ s.pending.length < s.minSize

/-- So does none of the datagrams. -/
def AdmitsAll : Receiver → List (Endpoint × List UInt8) → Prop
  | _, [] => True
  | s, d :: ds => s.Admits d ∧ (s.receive strategy d).AdmitsAll ds

variable {strategy} {s : Receiver}

theorem consumed_configure (ps : List ReceivePolicy) (s : Receiver) :
    (ps.foldl configure s).consumed = s.consumed := by
  induction ps generalizing s with
  | nil => rfl
  | cons p ps ih => exact ih _

theorem consumed_handOver (ep : Endpoint) :
    (s.handOver strategy ep).consumed = s.consumed ++ [(s.pending, ep)] :=
  consumed_configure _ _

theorem receiveAll_append (ds ds' : List (Endpoint × List UInt8)) :
    s.receiveAll strategy (ds ++ ds') = (s.receiveAll strategy ds).receiveAll strategy ds' :=
  List.foldl_append

/-- Nothing is handed over any more once the application has refused. -/
theorem receiveAll_of_over (h : Over strategy s.consumed) (ds : List (Endpoint × List UInt8)) :
    s.receiveAll strategy ds = s := by
  induction ds with
  | nil => rfl
  | cons d ds ih =>
    have hreceive : s.receive strategy d = s := if_pos h
    rw [receiveAll, List.foldl_cons, hreceive]
    exact ih

/-- What was handed over stays handed over. -/
theorem consumed_receiveAll (s : Receiver) (ds : List (Endpoint × List UInt8)) :
    s.consumed <+: (s.receiveAll strategy ds).consumed := by
  induction ds generalizing s with
  | nil => exact List.prefix_refl _
  | cons d ds ih =>
    have hreceive : s.consumed <+: (s.receive strategy d).consumed := by
      unfold receive
      dsimp only
      split_ifs
      · exact List.prefix_refl _
      · rw [consumed_handOver]
        exact List.prefix_append _ _
      · exact List.prefix_refl _
    exact hreceive.trans (ih _)

/-- A receiver without room stays as it is. -/
theorem receiveAll_of_full (hfull : s.maxSize ≤ s.pending.length) (ds : List (Endpoint × List UInt8))
    (hadmits : s.AdmitsAll strategy ds) : s.receiveAll strategy ds = s := by
  induction ds with
  | nil => rfl
  | cons d ds ih =>
    obtain ⟨hnone, hmin⟩ := hadmits.1 hfull
    have hreceive : s.receive strategy d = s := by
      unfold receive
      rw [hnone, List.append_nil]
      dsimp only
      split_ifs with _ hle
      · rfl
      · exact absurd hle (Nat.not_le.mpr hmin)
      · rfl
    rw [receiveAll, List.foldl_cons, hreceive]
    exact ih (hreceive ▸ hadmits.2)

theorem admitsAll_append (ds ds' : List (Endpoint × List UInt8)) :
    s.AdmitsAll strategy (ds ++ ds') ↔
      s.AdmitsAll strategy ds ∧ (s.receiveAll strategy ds).AdmitsAll strategy ds' := by
  induction ds generalizing s with
  | nil => exact (and_iff_right trivial).symm
  | cons d ds ih => exact (and_congr_right fun _ => ih).trans and_assoc.symm

end Receiver

open Receiver

/-! ### Answers -/

/-- The answers of a strategy to the spans, one after the other. -/
def replies (strategy : Strategy) (spans : List Span) : List Answer :=
  (List.range spans.length).map fun i => strategy (spans.take (i + 1))

theorem replies_snoc (strategy : Strategy) (spans : List Span) (c : Span) :
    replies strategy (spans ++ [c]) = replies strategy spans ++ [strategy (spans ++ [c])] := by
  unfold replies
  rw [List.length_append, List.length_singleton, List.range_succ, List.map_append, List.map_singleton,
    List.take_of_length_le (by simp)]
  congr 1
  refine List.map_congr_left fun i hi => ?_
  rw [List.take_append_of_le_length (List.mem_range.mp hi)]

theorem getLast?_replies (strategy : Strategy) (spans : List Span) :
    ((replies strategy spans).getLast?.map Answer.verdict = some .error) ↔ Over strategy spans := by
  rcases List.eq_nil_or_concat spans with rfl | ⟨spans, c, rfl⟩
  · exact ⟨fun h => (by cases h), fun h => absurd rfl h.1⟩
  · rw [List.concat_eq_append, replies_snoc, List.getLast?_concat, Option.map_some, Option.some_inj]
    exact (and_iff_right (List.concat_ne_nil c spans)).symm

/-- The calls of `consume` that a transport made. -/
def spans (t : DatagramTransport M σ) : List Span :=
  t.trace.consumed.map fun c => (c.1.map Byte.value, c.2)

/-- The application has answered by the strategy. -/
def Follows (strategy : Strategy) (t : DatagramTransport M σ) : Prop :=
  t.trace.answers = replies strategy (spans t)

/-- The last `consume` answered `error`. -/
def Rejected (t : DatagramTransport M σ) : Prop :=
  t.trace.answers.getLast?.map Answer.verdict = some .error

instance (t : DatagramTransport M σ) : Decidable (Rejected t) :=
  inferInstanceAs (Decidable (t.trace.answers.getLast?.map Answer.verdict = some .error))

theorem Follows.rejected_iff_over {strategy : Strategy} {t : DatagramTransport M σ} (h : Follows strategy t) :
    Rejected t ↔ Over strategy (spans t) := by
  rw [← getLast?_replies, ← h]
  exact Iff.rfl

/-- The application configures policies in `init` and `consume` only. -/
structure ConfiguresOnRead (app : NextLayer σ) : Prop where
  produce : NextLayer.Produces (fun _ => False) app
  handleTimeout : ∀ s id, ∀ c ∈ (app.handleTimeout s id).2.1, Call.Allowed (fun _ => False) c

/-! ### Refinement -/

/-- The read side of a transport is that of a receiver. -/
structure Reflects (s : Receiver) (t : DatagramTransport M σ) : Prop where
  room : Room t
  minSize : t.minReadSize = s.minSize
  maxSize : t.readBuffer.length = s.maxSize
  pending : (pending t).map Byte.value = s.pending
  consumed : spans t = s.consumed

/-- What went through the read sides of two transports is the same, and so are their settings. -/
structure SameTrace (t t' : DatagramTransport M σ) : Prop where
  config : t'.config = t.config
  arrived : t'.trace.arrived = t.trace.arrived
  consumed : t'.trace.consumed = t.trace.consumed
  answers : t'.trace.answers = t.trace.answers

/-- The read sides of two transports are the same. -/
structure SameReads (t t' : DatagramTransport M σ) : Prop extends SameTrace t t' where
  received : t'.received = t.received
  minReadSize : t'.minReadSize = t.minReadSize
  readBuffer : t'.readBuffer = t.readBuffer

section Same

variable {s : Receiver} {strategy : Strategy} {t t' t'' : DatagramTransport M σ}

theorem SameTrace.trans (h : SameTrace t t') (h' : SameTrace t' t'') : SameTrace t t'' :=
  ⟨h'.config.trans h.config, h'.arrived.trans h.arrived, h'.consumed.trans h.consumed, h'.answers.trans h.answers⟩

theorem SameReads.refl (t : DatagramTransport M σ) : SameReads t t := ⟨⟨rfl, rfl, rfl, rfl⟩, rfl, rfl, rfl⟩

theorem SameReads.trans (h : SameReads t t') (h' : SameReads t' t'') : SameReads t t'' :=
  ⟨h.toSameTrace.trans h'.toSameTrace, h'.received.trans h.received,
    h'.minReadSize.trans h.minReadSize, h'.readBuffer.trans h.readBuffer⟩

theorem SameTrace.spans (h : SameTrace t t') : spans t' = spans t := by
  unfold Reception.spans
  rw [h.consumed]

theorem SameTrace.follows (h : SameTrace t t') : Follows strategy t' ↔ Follows strategy t := by
  unfold Follows
  rw [h.answers, h.spans]

theorem SameReads.reflects (h : SameReads t t') (hs : Reflects s t) : Reflects s t' := by
  refine ⟨?_, h.minReadSize.trans hs.minSize, ?_, ?_, h.spans.trans hs.consumed⟩
  · unfold Room
    rw [h.received, h.readBuffer]
    exact hs.room
  · rw [h.readBuffer]
    exact hs.maxSize
  · unfold Incoming.pending
    rw [h.received, h.readBuffer]
    exact hs.pending

theorem Reflects.length_pending (h : Reflects s t) : s.pending.length = t.received := by
  rw [← h.pending, List.length_map, Incoming.length_pending h.room]

/-- Without a policy, the read side does not change. -/
theorem sameReads_change (t t' : DatagramTransport M σ) (hc : Change (fun _ => False) t t') :
    SameReads t t' := by
  cases hc with
  | configureNextRead p _ hp => exact hp.elim
  | manager m => exact ⟨⟨rfl, rfl, rfl, rfl⟩, rfl, rfl, rfl⟩
  | nextLayer s => exact ⟨⟨rfl, rfl, rfl, rfl⟩, rfl, rfl, rfl⟩
  | push buf ep heap cache => exact ⟨⟨rfl, rfl, rfl, rfl⟩, rfl, rfl, rfl⟩
  | markSubmitted i d id => exact ⟨⟨rfl, rfl, rfl, rfl⟩, rfl, rfl, rfl⟩

theorem sameReads_changes (hc : Changes (fun _ => False) t t') : SameReads t t' :=
  hc.keeps (I := SameReads t) (fun _ _ hc h => h.trans (sameReads_change _ _ hc)) (.refl t)

/-- Writing does not read. -/
theorem sameReads_written (t : DatagramTransport M σ) (res : ℤ) (temporary : Bool) (it : ℕ)
    (d : Datagram) : SameReads t (handleWriteResult res temporary it d t).2 := by
  unfold handleWriteResult written returnBuffer
  dsimp only
  split_ifs <;> exact ⟨⟨rfl, rfl, rfl, rfl⟩, rfl, rfl, rfl⟩

end Same

/-! ### Callbacks -/

section Callbacks

variable (r : Registration (fun _ => False) M σ) {app : NextLayer σ} {s : Receiver}
  {strategy : Strategy} {t : DatagramTransport M σ}

/-- A policy is configured. -/
theorem configureNextRead_reflects (h : Reflects s t) (p : ReceivePolicy) :
    Reflects (s.configure p) (t.configureNextRead p) := by
  refine ⟨Nat.zero_le _, rfl, ?_, ?_, h.consumed⟩
  · simp only [DatagramTransport.configureNextRead, configure, List.length_append, List.length_take,
      List.length_replicate]
    omega
  · unfold Incoming.pending
    rw [show (t.configureNextRead p).received = 0 from rfl, List.take_zero]
    rfl

/-- Calls pass nothing through the read side. -/
theorem call_sameTrace (c : Call) (t : DatagramTransport M σ) : SameTrace t (t.call r.register c) := by
  have hquiet (hc : Call.Allowed (fun _ => False) c) : SameTrace t (t.call r.register c) :=
    (sameReads_changes (call_changes r t hc)).toSameTrace
  cases c with
  | configureNextRead p => exact ⟨rfl, rfl, rfl, rfl⟩
  | enqueue bytes ep => exact hquiet trivial
  | enqueueBuffer bytes capacity ep => exact hquiet trivial
  | registerReading => exact hquiet trivial
  | registerWriting => exact hquiet trivial

theorem calls_sameTrace (cs : List Call) (t : DatagramTransport M σ) :
    SameTrace t (cs.foldl (call r.register) t) := by
  induction cs generalizing t with
  | nil => exact (SameReads.refl t).toSameTrace
  | cons c cs ih => exact (call_sameTrace r c t).trans (ih _)

/-- The calls configure their policies in order. -/
theorem calls_reflects (cs : List Call) (h : Reflects s t) :
    Reflects ((cs.filterMap Call.policy?).foldl configure s) (cs.foldl (call r.register) t) := by
  induction cs generalizing s t with
  | nil => exact h
  | cons c cs ih =>
    have hquiet (hc : Call.Allowed (fun _ => False) c) : Reflects s (t.call r.register c) :=
      (sameReads_changes (call_changes r t hc)).reflects h
    cases c with
    | configureNextRead p => exact ih (configureNextRead_reflects h p)
    | enqueue bytes ep => exact ih (hquiet trivial)
    | enqueueBuffer bytes capacity ep => exact ih (hquiet trivial)
    | registerReading => exact ih (hquiet trivial)
    | registerWriting => exact ih (hquiet trivial)

/-- The answer of `consume`, as the trace records it. -/
def answerOf (app : NextLayer σ) (span : List Byte) (ep : Endpoint) (t : DatagramTransport M σ) : Answer :=
  let answer := app.consume t.nextLayer (span.map Byte.value) ep
  ⟨answer.2.1.filterMap Call.policy?, answer.2.2⟩

/-- An application that follows its strategy in `consume` has done so before. -/
theorem consume_follows (span : List Byte) (ep : Endpoint)
    (hf : Follows strategy (consume r.register app span ep t).2) :
    Follows strategy t ∧
      answerOf app span ep t = strategy (spans t ++ [(span.map Byte.value, ep)]) := by
  have htrace := calls_sameTrace r (app.consume t.nextLayer (span.map Byte.value) ep).2.1
    { t with
      nextLayer := (app.consume t.nextLayer (span.map Byte.value) ep).1
      trace := { t.trace with
        consumed := t.trace.consumed ++ [(span, ep)]
        answers := t.trace.answers ++ [answerOf app span ep t] } }
  have hfollows := htrace.follows.mp hf
  unfold Follows at hfollows
  have hspans : (t.trace.consumed ++ [(span, ep)]).map (fun c => (c.1.map Byte.value, c.2)) =
      spans t ++ [(span.map Byte.value, ep)] := List.map_append
  unfold spans at hfollows
  dsimp only at hfollows
  rw [hspans, replies_snoc] at hfollows
  obtain ⟨hbefore, hreply⟩ := List.append_inj' hfollows rfl
  exact ⟨hbefore, List.singleton_inj.mp hreply⟩

/-- **What waits is handed over**, and the application answers. -/
theorem consume_reflects (h : Reflects s t) (ep : Endpoint)
    (hanswer : answerOf app (pending t) ep t = strategy (s.consumed ++ [(s.pending, ep)])) :
    Reflects (s.handOver strategy ep)
      { (consume r.register app (pending t) ep t).2 with received := 0 } := by
  have hstart : Reflects { s with consumed := s.consumed ++ [(s.pending, ep)] }
      { t with
        nextLayer := (app.consume t.nextLayer ((pending t).map Byte.value) ep).1
        trace := { t.trace with
          consumed := t.trace.consumed ++ [(pending t, ep)]
          answers := t.trace.answers ++ [answerOf app (pending t) ep t] } } := by
    refine ⟨h.room, h.minSize, h.maxSize, h.pending, ?_⟩
    unfold spans
    dsimp only
    rw [List.map_append, List.map_singleton, h.pending]
    exact congrArg (· ++ _) h.consumed
  have hcalls := calls_reflects r (app.consume t.nextLayer ((pending t).map Byte.value) ep).2.1 hstart
  have hpolicies : (strategy (s.consumed ++ [(s.pending, ep)])).policies =
      (app.consume t.nextLayer ((pending t).map Byte.value) ep).2.1.filterMap Call.policy? := by
    rw [← hanswer]
    rfl
  unfold handOver
  dsimp only
  rw [hpolicies]
  exact ⟨Nat.zero_le _, hcalls.minSize, hcalls.maxSize, rfl, hcalls.consumed⟩

theorem consume_arrived (span : List Byte) (ep : Endpoint) (t : DatagramTransport M σ) :
    (consume r.register app span ep t).2.trace.arrived = t.trace.arrived :=
  (calls_sameTrace r (app.consume t.nextLayer (span.map Byte.value) ep).2.1 _).arrived

end Callbacks

/-! ### Tracking a receiver -/

/-- The transport has done what a receiver does with the datagrams that arrived, if the application
answers by the strategy; while it runs, its read side is that of the receiver. -/
def Tracks (strategy : Strategy) (s : Receiver) (failed : Prop) (t : DatagramTransport M σ) : Prop :=
  Follows strategy t → spans t = (s.receiveAll strategy t.trace.arrived).consumed ∧
    (¬ failed → Reflects (s.receiveAll strategy t.trace.arrived) t ∧
      ¬ Over strategy (s.receiveAll strategy t.trace.arrived).consumed)

section Tracks

variable {s : Receiver} {strategy : Strategy} {t t' : DatagramTransport M σ}

theorem SameReads.tracks {failed : Prop} (h : SameReads t t') (ht : Tracks strategy s failed t) :
    Tracks strategy s failed t' := by
  intro hf
  obtain ⟨hspans, hreflects⟩ := ht (h.toSameTrace.follows.mp hf)
  rw [h.spans, h.arrived]
  exact ⟨hspans, fun hok => (hreflects hok).imp_left h.reflects⟩

theorem Tracks.imp {failed failed' : Prop} (himp : failed → failed') (h : Tracks strategy s failed t) :
    Tracks strategy s failed' t :=
  fun hf => ⟨(h hf).1, fun hn => (h hf).2 fun hfailed => hn (himp hfailed)⟩

/-- The kernel has put a datagram behind the bytes that wait. -/
structure Arrival (source : Endpoint) (payload : List UInt8) (t t' : DatagramTransport M σ) : Prop where
  arrived : t'.trace.arrived = t.trace.arrived ++ [(source, payload)]
  consumed : t'.trace.consumed = t.trace.consumed
  answers : t'.trace.answers = t.trace.answers
  reflects : ∀ s, Reflects s t → Reflects { s with pending := s.pending ++ payload }
    { t' with received := t'.received + payload.length }

variable (r : Registration (fun _ => False) M σ) (app : NextLayer σ)

theorem handed_sameTrace (o : ManagerResult × DatagramTransport M σ) : SameTrace o.2 (handed o).2 := by
  unfold handed
  split_ifs <;> exact ⟨rfl, rfl, rfl, rfl⟩

/-- **`handle_read_result` does what a receiver does.** -/
theorem arrival_tracks {source : Endpoint} {payload : List UInt8} (h : Arrival source payload t t')
    (ht : Tracks strategy s False t) (temporary : Bool) :
    Tracks strategy s
      ((handleReadResult r.register app source payload.length temporary t').1 = .error)
      (handleReadResult r.register app source payload.length temporary t').2 := by
  rw [handleReadResult_eq]
  set t₁ := { t' with received := t'.received + payload.length } with ht₁
  have hsame : Follows strategy t₁ ↔ Follows strategy t := by
    unfold Follows spans
    rw [ht₁]
    dsimp only
    rw [h.answers, h.consumed]
  set s₁ := { s.receiveAll strategy t.trace.arrived with
    pending := (s.receiveAll strategy t.trace.arrived).pending ++ payload } with hs₁
  have hnow (hf : Follows strategy t₁) : Reflects s₁ t₁ := h.reflects _ ((ht (hsame.mp hf)).2 id).1
  have hon (hf : Follows strategy t₁) : ¬ Over strategy s₁.consumed := ((ht (hsame.mp hf)).2 id).2
  have hreceive (hf : Follows strategy t₁) :
      s.receiveAll strategy (t.trace.arrived ++ [(source, payload)]) =
        if s₁.minSize ≤ s₁.pending.length then s₁.handOver strategy source else s₁ := by
    rw [receiveAll_append]
    exact if_neg (hon hf)
  have hthreshold (hf : Follows strategy t₁) :
      s₁.minSize ≤ s₁.pending.length ↔ t'.minReadSize ≤ t'.received + payload.length := by
    rw [(hnow hf).length_pending, ← (hnow hf).minSize]
  by_cases hmin : t'.minReadSize ≤ t'.received + payload.length
  · rw [if_pos hmin]
    intro hf
    have hhanded := handed_sameTrace (consume r.register app t₁.span source t₁)
    obtain ⟨hbefore, hanswer⟩ := consume_follows r t₁.span source (hhanded.follows.mp hf)
    have hreflects := hnow hbefore
    rw [span_eq hreflects.room] at hhanded hanswer ⊢
    rw [hreflects.consumed, hreflects.pending] at hanswer
    have hover := consume_reflects r hreflects source hanswer
    rw [hhanded.arrived, consume_arrived, h.arrived, hreceive hbefore,
      if_pos ((hthreshold hbefore).mpr hmin)]
    refine ⟨hhanded.spans.trans hover.consumed, fun hok => ?_⟩
    unfold handed at hok ⊢
    split_ifs at hok ⊢ with herr
    · exact absurd herr hok
    · refine ⟨hover, fun hrefused => herr ?_⟩
      rw [consumed_handOver] at hrefused
      exact (congrArg Answer.verdict hanswer).trans hrefused.2
  · rw [if_neg hmin]
    intro hf
    change spans t₁ = (s.receiveAll strategy t'.trace.arrived).consumed ∧ _
    rw [h.arrived, hreceive hf, if_neg fun hle => hmin ((hthreshold hf).mp hle)]
    exact ⟨(hnow hf).consumed, fun _ => ⟨hnow hf, hon hf⟩⟩

end Tracks

end NetworkDriver.Net.Datagrams.Reception
