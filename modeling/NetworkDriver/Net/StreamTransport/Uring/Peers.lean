import NetworkDriver.Net.StreamTransport.Uring.Incoming
import NetworkDriver.Net.StreamTransport.Uring.Outgoing

/-! # Two io_uring transports over one connection

What the kernel of one side has written is in flight until the kernel of the other side reads it, which
may be long before the completion of the write, or of the read, is dispatched.

* `moved`: what a transport and its kernel have moved in one direction. Only the kernel adds to it
  (`step_moved`).
* `Carried`: what was enqueued on one side is what the other consumed, what waits there, what its kernel
  has read, what is in flight and the rest of the queue.
* `streams_carried`: both directions, over all runs. -/

namespace NetworkDriver.Net.StreamTransport.Uring.Peers

open NetworkDriver.Library.Outbox (modify_at split_at erase_at flatMap_alone)
open NetworkDriver.Library.Run
open NetworkDriver.Net.Types NetworkDriver.Net.Multiplexer.Base
open NetworkDriver.Net.Multiplexer.Uring.Model NetworkDriver.Net.Multiplexer.Uring.Submissions
open NetworkDriver.Net.StreamTransport.Model hiding Event
open NetworkDriver.Net.StreamTransport.Callbacks
open NetworkDriver.Net.StreamTransport.Incoming (consumedBytes pending Refused pairLayer)
open NetworkDriver.Net.StreamTransport.Outgoing (queued)
open NetworkDriver.Net.StreamTransport.Queue (handleWriteResult_frame)
open NetworkDriver.Net.StreamTransport.Uring.Model NetworkDriver.Net.StreamTransport.Uring.Callbacks
open NetworkDriver.Net.StreamTransport.Uring.Single NetworkDriver.Net.StreamTransport.Uring.Outgoing
open NetworkDriver.Net.StreamTransport.Uring.Incoming hiding Fits
open StreamTransportBase

variable {σ τ : Type}

/-! ### What the kernel moves -/

/-- The bytes of an entry that the kernel has moved. -/
def bytesOf (op : Operation) : Entry → List UInt8
  | .finished o _ bytes => if o = op then bytes else []
  | _ => []

/-- The bytes that were moved and whose completion is to come. -/
def underway (op : Operation) (t : Stream σ) : List UInt8 := t.manager.entries.flatMap (bytesOf op)

/-- The bytes whose completion was dispatched. -/
def dispatched (op : Operation) (t : Stream σ) : List UInt8 :=
  if op = Operation.read then t.trace.delivered else t.trace.taken

/-- All bytes moved, in their order. -/
def moved (op : Operation) (t : Stream σ) : List UInt8 := dispatched op t ++ underway op t

/-- What a read puts into its span. -/
def bytesRead (size : ℕ) : ReadOutcome → List UInt8
  | .data bytes => bytes.take (min size maxRwCount)
  | _ => []

/-- What a `writev` takes. -/
def bytesWritten (iovecs : List IoVec) (t : Stream σ) : WriteOutcome → List UInt8
  | .took n => (describedBy iovecs t).take (min n (min (iovecs.map IoVec.len).sum maxRwCount))
  | .failed _ => []

/-- What the kernel moves at an event. -/
def transferred (op : Operation) (t : Stream σ) : Event → List UInt8
  | .read k outcome =>
    match t.manager.entries[k]? with
    | some (.read _ size) => if op = Operation.read then bytesRead size outcome else []
    | _ => []
  | .write k outcome =>
    match t.manager.entries[k]? with
    | some (.sending iovecs) => if op = Operation.write then bytesWritten iovecs t outcome else []
    | _ => []
  | _ => []

variable {op : Operation}

/-- What does not serve the operation has nothing of it. -/
theorem bytesOf_other (hop : Sided op) {e : Entry} (h : serves e ≠ op) : bytesOf op e = [] := by
  cases e with
  | finished o res bytes =>
    refine if_neg ?_
    rintro rfl
    rcases hop with rfl | rfl <;> exact h rfl
  | _ => rfl

/-- Callbacks and registrations move nothing. -/
theorem moved_rule (op : Operation) (bytes : List UInt8) :
    Rule (fun _ => True) (fun t : Stream σ => moved op t = bytes) where
  change t t' hc hmanager h := by
    have hmoved : moved op t' = moved op t := by
      unfold moved underway dispatched
      rw [hmanager]
      cases hc with
      | pushCopy bytes =>
        rw [pushCopy_eq]
        rfl
      | _ => rfl
    exact hmoved.trans h
  port _ _ h := h
  grow t h := by
    unfold grow
    split_ifs <;> exact h
  submit t entry hfresh h := by
    have hnone : bytesOf op entry = [] := by cases hfresh <;> rfl
    have hmoved : moved op (appended entry t) = moved op t := by
      unfold moved underway appended
      dsimp only
      rw [List.flatMap_append, List.flatMap_singleton, hnone, List.append_nil]
      rfl
    exact hmoved.trans h

/-- Another entry in the place of one, with the same bytes. -/
theorem moved_set {t : Stream σ} {k : ℕ} {e e' : Entry} (hk : t.manager.entries[k]? = some e)
    (hbytes : bytesOf op e' = bytesOf op e) : moved op (setEntry k e' t) = moved op t := by
  change dispatched op t ++ (t.manager.entries.set k e').flatMap (bytesOf op) = _
  unfold moved underway
  conv_rhs => rw [split_at hk]
  rw [List.set_eq_modify, modify_at hk]
  simp only [List.flatMap_append, List.flatMap_cons, hbytes]

section Sided

variable (hop : Sided op) {t : Stream σ} (harmed : Armed op t.manager) {k : ℕ} {e : Entry}
  (hk : t.manager.entries[k]? = some e)

include hop harmed hk

theorem underway_alone (hserves : serves e = op) : underway op t = bytesOf op e :=
  flatMap_alone hk fun e' he' => bytesOf_other hop (alone harmed hk hserves e' he')

/-- **The kernel finishes the submission**, which is the only one. -/
theorem moved_finished (hserves : serves e = op) (hnone : bytesOf op e = []) (res : ℤ) (bytes : List UInt8) :
    moved op (setEntry k (.finished op res bytes) t) = moved op t ++ bytes := by
  have hset : (t.manager.entries.set k (.finished op res bytes))[k]? = some (.finished op res bytes) :=
    List.getElem?_set_self (List.getElem?_eq_some_iff.mp hk).1
  have hone : underway op (setEntry k (.finished op res bytes) t) = bytes := by
    refine (flatMap_alone hset fun e' he' => ?_).trans (if_pos rfl)
    rw [List.eraseIdx_set_eq] at he'
    exact bytesOf_other hop (alone harmed hk hserves e' he')
  unfold moved
  rw [hone, underway_alone hop harmed hk hserves, hnone, List.append_nil]
  rfl

end Sided

/-- **The kernel reads.** -/
theorem transferRead_moved (hop : Sided op) {t : Stream σ} (harmed : Armed op t.manager) {k offset size : ℕ}
    (hk : t.manager.entries[k]? = some (.read offset size)) (outcome : ReadOutcome) :
    moved op (transferRead k offset size outcome t) =
      moved op t ++ if op = Operation.read then bytesRead size outcome else [] := by
  by_cases hread : op = Operation.read
  · subst hread
    rw [if_pos rfl]
    cases outcome with
    | data bytes => exact moved_finished hop harmed hk rfl rfl _ _
    | closed => exact moved_finished hop harmed hk rfl rfl _ _
    | failed temporary => exact moved_finished hop harmed hk rfl rfl _ _
  · rw [if_neg hread, List.append_nil]
    have hnone : ∀ res bytes, bytesOf op (.finished Operation.read res bytes) = [] := fun _ _ =>
      if_neg fun h => hread h.symm
    cases outcome with
    | data bytes => exact moved_set hk (hnone _ _)
    | closed => exact moved_set hk (hnone _ _)
    | failed temporary => exact moved_set hk (hnone _ _)

/-- **The kernel writes.** -/
theorem transferWrite_moved (hop : Sided op) {t : Stream σ} (harmed : Armed op t.manager) {k : ℕ}
    {iovecs : List IoVec} (hk : t.manager.entries[k]? = some (.sending iovecs)) (outcome : WriteOutcome) :
    moved op (transferWrite k iovecs outcome t) =
      moved op t ++ if op = Operation.write then bytesWritten iovecs t outcome else [] := by
  by_cases hwrite : op = Operation.write
  · subst hwrite
    rw [if_pos rfl]
    cases outcome with
    | took n => exact moved_finished hop harmed hk rfl rfl _ _
    | failed temporary => exact moved_finished hop harmed hk rfl rfl _ _
  · rw [if_neg hwrite, List.append_nil]
    have hnone : ∀ res bytes, bytesOf op (.finished Operation.write res bytes) = [] := fun _ _ =>
      if_neg fun h => hwrite h.symm
    cases outcome with
    | took n => exact moved_set hk (hnone _ _)
    | failed temporary => exact moved_set hk (hnone _ _)

/-- **The completion is taken.** -/
theorem moved_passed (hop : Sided op) {t : Stream σ} (harmed : Armed op t.manager) {k : ℕ} {o : Operation}
    {res : ℤ} {bytes : List UInt8} (hk : t.manager.entries[k]? = some (.finished o res bytes)) :
    moved op (passed k o bytes t) = moved op t := by
  by_cases ho : o = op
  · subst ho
    have hserves : serves (.finished o res bytes) = o := by rcases hop with rfl | rfl <;> rfl
    have hothers : underway o (passed k o bytes t) = [] :=
      List.flatMap_eq_nil_iff.mpr fun e' he' => bytesOf_other hop (alone harmed hk hserves e' he')
    have hbytes : dispatched o (passed k o bytes t) = dispatched o t ++ bytes := by
      rcases hop with rfl | rfl <;> rfl
    have hone : underway o t = bytes := (underway_alone hop harmed hk hserves).trans (if_pos rfl)
    unfold moved
    rw [hothers, hbytes, hone, List.append_nil]
  · have hsame : underway op (passed k o bytes t) = underway op t := by
      have hnone : bytesOf op (.finished o res bytes) = [] := if_neg ho
      change (t.manager.entries.eraseIdx k).flatMap (bytesOf op) = t.manager.entries.flatMap (bytesOf op)
      conv_rhs => rw [split_at hk]
      rw [erase_at, List.flatMap_append, List.flatMap_append, List.flatMap_cons, hnone, List.nil_append]
    have hdispatched : dispatched op (passed k o bytes t) = dispatched op t := by
      rcases hop with rfl | rfl
      · change (if o = Operation.read then t.trace.delivered ++ bytes else t.trace.delivered) = _
        exact if_neg ho
      · change (if o = Operation.write then t.trace.taken ++ bytes else t.trace.taken) = _
        exact if_neg ho
    unfold moved
    rw [hsame, hdispatched]

variable (app : NextLayer σ)

theorem dispatch_moved (hop : Sided op) {t : Stream σ} (harmed : Armed op t.manager) {k : ℕ} {o : Operation}
    {res : ℤ} {bytes : List UInt8} (temporary : Bool)
    (hk : t.manager.entries[k]? = some (.finished o res bytes)) :
    moved op (dispatch app k o res bytes temporary t) = moved op t := by
  have happ : NextLayer.Produces (fun _ => True) app := NextLayer.produces_true app
  have hrule := moved_rule (σ := σ) op (moved op t)
  have hpassed := moved_passed hop harmed hk
  refine hrule.dispatch happ (fun _ => ?_) (fun _ => ?_) fun _ _ => hpassed
  · exact (hrule.callable (hrule.register happ)).afterRead (fun _ _ _ _ h => h)
      (fun _ _ c _ => Call.allowed_true c) res temporary hpassed
  · obtain ⟨memory, cache, count, queue, iovecs, hframe⟩ :=
      handleWriteResult_frame res temporary (passed k o bytes t)
    rw [hframe]
    exact hpassed

/-- **Only the kernel moves bytes.** -/
theorem step_moved (hop : Sided op) (t : Stream σ) (e : Event) (harmed : Armed op t.manager) :
    moved op (step app t e) = moved op t ++ transferred op t e := by
  have happ : NextLayer.Produces (fun _ => True) app := NextLayer.produces_true app
  have hrule := moved_rule (σ := σ) op (moved op t)
  have hcalls := hrule.callable (hrule.register happ)
  cases e with
  | enable o =>
    refine Eq.trans ?_ (List.append_nil _).symm
    exact hrule.enableBy (fun t => hrule.enable happ (hrule.register happ) o) rfl
  | call c => exact (hcalls.call c t (Call.allowed_true c) rfl).trans (List.append_nil _).symm
  | timeout id =>
    exact (hcalls.callback (fun c _ => Call.allowed_true c) rfl).trans (List.append_nil _).symm
  | ring r => exact (List.append_nil _).symm
  | submit k =>
    refine Eq.trans ?_ (List.append_nil _).symm
    unfold step
    dsimp only
    split
    · rename_i array count hk
      unfold importIovecs
      split_ifs
      · exact moved_set hk rfl
      · rfl
    · rfl
  | read k outcome =>
    unfold step transferred
    dsimp only
    cases hk : t.manager.entries[k]? with
    | none => exact (List.append_nil _).symm
    | some entry =>
      cases entry with
      | read offset size => exact transferRead_moved hop harmed hk outcome
      | _ => exact (List.append_nil _).symm
  | write k outcome =>
    unfold step transferred
    dsimp only
    cases hk : t.manager.entries[k]? with
    | none => exact (List.append_nil _).symm
    | some entry =>
      cases entry with
      | sending iovecs => exact transferWrite_moved hop harmed hk outcome
      | _ => exact (List.append_nil _).symm
  | poll k =>
    refine Eq.trans ?_ (List.append_nil _).symm
    unfold step
    dsimp only
    split
    · rename_i o hk
      exact moved_set hk (ite_self _)
    · rfl
  | complete k temporary =>
    refine Eq.trans ?_ (List.append_nil _).symm
    unfold step
    dsimp only
    split
    · rename_i o res bytes hk
      exact dispatch_moved app hop harmed temporary hk
    · rfl

theorem start_moved (port : Multiplexer.Uring.Managers.Port) (s : σ) (config : TransportConfig) :
    moved op (start app port s config) = [] := by
  have happ : NextLayer.Produces (fun _ => True) app := NextLayer.produces_true app
  have hrule := moved_rule (σ := σ) op []
  refine (hrule.callable (hrule.register happ)).calls (fun c _ => Call.allowed_true c) ?_
  exact (List.append_nil _).trans (ite_self _)

/-! ### The connection -/

/-- The two sides, and what is in flight to each. -/
structure Connection (σ τ : Type) where
  left : Stream σ
  right : Stream τ
  toLeft : List UInt8 := []
  toRight : List UInt8 := []

/-- The same connection seen from the other side. -/
def Connection.swap (c : Connection σ τ) : Connection τ σ := ⟨c.right, c.left, c.toRight, c.toLeft⟩

/-- What a read of the kernel meets: up to `n + 1` bytes have arrived, or the end of the stream, which
comes behind all bytes, or the read fails. -/
inductive Arrival where
  | bytes (n : ℕ)
  | closed
  | failure
  deriving DecidableEq

/-- The outcome of the read, by what is in flight; without one, it stays outstanding. -/
def Arrival.outcome (inFlight : List UInt8) : Arrival → Option ReadOutcome
  | .bytes n => if inFlight = [] then none else some (.data (inFlight.take (n + 1)))
  | .closed => if inFlight = [] then some .closed else none
  | .failure => some (.failed false)

/-- What happens on one side. -/
inductive SideEvent where
  | enable (op : Operation)
  | call (c : Call)
  | timeout (id : UInt64)
  | ring (r : Ring)
  | submit (k : ℕ)
  | read (k : ℕ) (arrival : Arrival)
  | write (k : ℕ) (outcome : WriteOutcome)
  | poll (k : ℕ)
  | complete (k : ℕ) (temporary : Bool)

/-- The event of the transport. -/
def SideEvent.event (inFlight : List UInt8) : SideEvent → Option Event
  | .enable op => some (.enable op)
  | .call c => some (.call c)
  | .timeout id => some (.timeout id)
  | .ring r => some (.ring r)
  | .submit k => some (.submit k)
  | .read k arrival => (arrival.outcome inFlight).map (.read k)
  | .write k outcome => some (.write k outcome)
  | .poll k => some (.poll k)
  | .complete k temporary => some (.complete k temporary)

section Steps

variable (app' : NextLayer τ)

/-- One event of the left side: what its kernel reads leaves the network, what it writes enters it. -/
def advance (c : Connection σ τ) (e : Event) : Connection σ τ :=
  { c with
    left := step app c.left e
    toLeft := c.toLeft.drop (transferred Operation.read c.left e).length
    toRight := c.toRight ++ transferred Operation.write c.left e }

/-- One step of the left side. -/
def stepLeft (c : Connection σ τ) (e : SideEvent) : Connection σ τ :=
  match e.event c.toLeft with
  | some e => advance app c e
  | none => c

/-- One step of either side. -/
def stepSide (c : Connection σ τ) : SideEvent ⊕ SideEvent → Connection σ τ
  | .inl e => stepLeft app c e
  | .inr e => (stepLeft app' c.swap e).swap

/-- Both sides after their `init`. -/
def connect (port : Multiplexer.Uring.Managers.Port) (s : σ) (config : TransportConfig)
    (port' : Multiplexer.Uring.Managers.Port) (s' : τ) (config' : TransportConfig) : Connection σ τ where
  left := start app port s config
  right := start app' port' s' config'

end Steps

/-! ### What a step takes and gives -/

/-- The kernel reads from the front. -/
theorem transferred_front (t : Stream σ) {inFlight : List UInt8} {side : SideEvent} {e : Event}
    (he : e ∈ side.event inFlight) : transferred Operation.read t e <+: inFlight := by
  have hnone : ([] : List UInt8) <+: inFlight := List.nil_prefix
  cases side with
  | read k arrival =>
    obtain ⟨outcome, houtcome, rfl⟩ := Option.map_eq_some_iff.mp he
    have hread : ∀ size, bytesRead size outcome <+: inFlight := by
      intro size
      cases arrival with
      | bytes n =>
        unfold Arrival.outcome at houtcome
        split_ifs at houtcome
        obtain rfl := Option.some.inj houtcome
        exact (List.take_prefix _ _).trans (List.take_prefix _ _)
      | closed =>
        unfold Arrival.outcome at houtcome
        split_ifs at houtcome
        obtain rfl := Option.some.inj houtcome
        exact hnone
      | failure =>
        obtain rfl := Option.some.inj houtcome
        exact hnone
    unfold transferred
    dsimp only
    split
    · rw [if_pos rfl]
      exact hread _
    · exact hnone
  | write k outcome =>
    obtain rfl := Option.some.inj he
    unfold transferred
    dsimp only
    split
    · rw [if_neg (by decide)]
      exact hnone
    · exact hnone
  | _ =>
    obtain rfl := Option.some.inj he
    exact hnone

/-- What one side gave to the network is what the other took from it and what is in flight. -/
def Conserved (sender : Stream σ) (inFlight : List UInt8) (receiver : Stream τ) : Prop :=
  moved Operation.read receiver ++ inFlight = moved Operation.write sender

/-- **The condition on an event.** -/
structure Orderly (t : Stream σ) (e : Event) : Prop where
  quiet : Unconfigured e
  placed : Placed t e
  clean : Clean t e
  reads : Unhindered Operation.read t e
  writes : Unhindered Operation.write t e

/-- The invariant of one side. -/
structure Kept (t : Stream σ) : Prop where
  outgoing : Intact t
  inbound : Inbound t
  reads : Armed Operation.read t.manager
  writes : Armed Operation.write t.manager

/-- The invariant of a connection. -/
structure Linked (c : Connection σ τ) : Prop where
  left : Kept c.left
  right : Kept c.right
  toLeft : Conserved c.right c.toLeft c.left
  toRight : Conserved c.left c.toRight c.right

theorem Linked.swap {c : Connection σ τ} (h : Linked c) : Linked c.swap :=
  ⟨h.right, h.left, h.toRight, h.toLeft⟩

variable {app}

theorem kept_step (happ : ConfiguresFirst app) (t : Stream σ) (e : Event) (h : Kept t) (he : Orderly t e) :
    Kept (step app t e) where
  outgoing := step_outgoing app t e h.outgoing h.writes he.placed he.clean
  inbound := step_inbound happ t e h.inbound h.reads he.quiet he.reads
  reads := step_armed app sided_read t e h.reads he.reads
  writes := step_armed app sided_write t e h.writes he.writes

theorem kept_start (happ : ConfiguresFirst app) (mgr : Manager) (ring : Ring) (s : σ)
    (config : TransportConfig) : Kept (start app ⟨mgr, Operation.none, ring⟩ s config) where
  outgoing := start_outgoing app _ s config
  inbound := start_inbound happ _ s config
  reads := start_armed app sided_read mgr ring s config
  writes := start_armed app sided_write mgr ring s config

theorem Linked.advance (happ : ConfiguresFirst app) {c : Connection σ τ} (h : Linked c) {e : Event}
    (hfront : transferred Operation.read c.left e <+: c.toLeft) (he : Orderly c.left e) :
    Linked (advance app c e) where
  left := kept_step happ c.left e h.left he
  right := h.right
  toLeft := by
    obtain ⟨rest, hrest⟩ := hfront
    change moved Operation.read (step app c.left e) ++ c.toLeft.drop _ = _
    rw [step_moved app sided_read c.left e h.left.reads, ← hrest, List.drop_left, List.append_assoc, hrest]
    exact h.toLeft
  toRight := by
    change moved Operation.read c.right ++ (c.toRight ++ _) = moved Operation.write (step app c.left e)
    rw [step_moved app sided_write c.left e h.left.writes, ← List.append_assoc]
    exact congrArg (· ++ _) h.toRight

/-- The step is orderly on its side. -/
def OrderlyStep (c : Connection σ τ) : SideEvent ⊕ SideEvent → Prop
  | .inl e => ∀ e' ∈ e.event c.toLeft, Orderly c.left e'
  | .inr e => ∀ e' ∈ e.event c.toRight, Orderly c.right e'

instance : (e : Event) → Decidable (Unconfigured e)
  | .call (.configureNextRead _) => .isFalse id
  | .call (.enqueue _) | .call (.enqueueBuffer _ _) | .call .registerReading | .call .registerWriting
  | .enable _ | .timeout _ | .ring _ | .submit _ | .read _ _ | .write _ _ | .poll _ | .complete _ _ =>
    .isTrue trivial

instance (t : Stream σ) (e : Event) : Decidable (Orderly t e) :=
  decidable_of_iff (Unconfigured e ∧ Placed t e ∧ Clean t e ∧ Unhindered Operation.read t e ∧
      Unhindered Operation.write t e)
    ⟨fun h => ⟨h.1, h.2.1, h.2.2.1, h.2.2.2.1, h.2.2.2.2⟩, fun h => ⟨h.1, h.2, h.3, h.4, h.5⟩⟩

instance (c : Connection σ τ) : (e : SideEvent ⊕ SideEvent) → Decidable (OrderlyStep c e)
  | .inl e => inferInstanceAs (Decidable (∀ e' ∈ e.event c.toLeft, Orderly c.left e'))
  | .inr e => inferInstanceAs (Decidable (∀ e' ∈ e.event c.toRight, Orderly c.right e'))

theorem Linked.stepLeft (happ : ConfiguresFirst app) {c : Connection σ τ} (h : Linked c) {side : SideEvent}
    (horderly : ∀ e ∈ side.event c.toLeft, Orderly c.left e) : Linked (stepLeft app c side) := by
  unfold Peers.stepLeft
  split
  · rename_i e he
    exact h.advance happ (transferred_front c.left he) (horderly e he)
  · exact h

variable {app' : NextLayer τ}

theorem linked_step (happ : ConfiguresFirst app) (happ' : ConfiguresFirst app') (c : Connection σ τ)
    (e : SideEvent ⊕ SideEvent) (h : Linked c) (horderly : OrderlyStep c e) :
    Linked (stepSide app app' c e) := by
  cases e with
  | inl e => exact h.stepLeft happ horderly
  | inr e => exact (h.swap.stepLeft happ' horderly).swap

theorem linked_start (happ : ConfiguresFirst app) (happ' : ConfiguresFirst app') (mgr : Manager) (ring : Ring)
    (s : σ) (config : TransportConfig) (mgr' : Manager) (ring' : Ring) (s' : τ) (config' : TransportConfig) :
    Linked (connect app app' ⟨mgr, Operation.none, ring⟩ s config ⟨mgr', Operation.none, ring'⟩ s' config') where
  left := kept_start happ mgr ring s config
  right := kept_start happ' mgr' ring' s' config'
  toLeft := (List.append_nil _).trans ((start_moved app _ s config).trans (start_moved app' _ s' config').symm)
  toRight := (List.append_nil _).trans ((start_moved app' _ s' config').trans (start_moved app _ s config).symm)

/-! ### The byte streams -/

/-- **What is enqueued on one side arrives on the other**: it is what was consumed there, what waits in
the read buffer, what the kernel there has read, what is in flight, and the queue behind what is still
to be confirmed. After an error from `consume`, all was consumed that the kernel there has read. -/
structure Carried (sender : Stream σ) (inFlight : List UInt8) (receiver : Stream τ) : Prop where
  consumed : consumedBytes receiver <+: sender.trace.enqueued
  complete :
    consumedBytes receiver ++ pending receiver ++ underway Operation.read receiver ++ inFlight ++
        (queued sender).drop (underway Operation.write sender).length = sender.trace.enqueued ∨
      Refused receiver ∧
        consumedBytes receiver ++ inFlight ++
          (queued sender).drop (underway Operation.write sender).length = sender.trace.enqueued ∧
        outstanding Operation.read receiver.manager = 0 ∧
        receiver.manager.port.mask.contains Operation.read = true

theorem underway_write (t : Stream σ) : underway Operation.write t = unconfirmed t := by
  have hbytes : bytesOf Operation.write = wireOf := by
    funext e
    cases e <;> rfl
  unfold underway unconfirmed
  rw [hbytes]

theorem Kept.carried {sender : Stream σ} {receiver : Stream τ} (hsender : Kept sender)
    (hreceiver : Kept receiver) {inFlight : List UInt8} (h : Conserved sender inFlight receiver) :
    Carried sender inFlight receiver := by
  have hrest : moved Operation.read receiver ++ inFlight ++
      (queued sender).drop (underway Operation.write sender).length = sender.trace.enqueued := by
    rw [show _ ++ inFlight = _ from h]
    have hsent := (hsender.outgoing.sent hsender.writes).rest
    rw [← underway_write] at hsent
    exact hsent
  have hmoved : moved Operation.read receiver =
      receiver.trace.delivered ++ underway Operation.read receiver := rfl
  rw [hmoved] at hrest
  rcases hreceiver.inbound.received.bytes with hbytes | ⟨hrefused, hbytes, hnone, hflag⟩
  · rw [← hbytes] at hrest
    refine ⟨?_, .inl hrest⟩
    rw [← hrest]
    simp only [List.append_assoc, List.prefix_append]
  · have hunderway : underway Operation.read receiver = [] :=
      List.flatMap_eq_nil_iff.mpr fun e he => bytesOf_other sided_read (serves_ne hnone he)
    rw [← hbytes, hunderway, List.append_nil] at hrest
    refine ⟨?_, .inr ⟨hrefused, hrest, hnone, hflag⟩⟩
    rw [← hrest]
    simp only [List.append_assoc, List.prefix_append]

/-- **The connection under io_uring.** Whatever the two applications send and in which order the events
of both sides come: in every state of a run whose steps are orderly, both directions carry their bytes. -/
theorem streams_carried (happ : ConfiguresFirst app) (happ' : ConfiguresFirst app') (mgr : Manager)
    (ring : Ring) (s : σ) (config : TransportConfig) (mgr' : Manager) (ring' : Ring) (s' : τ)
    (config' : TransportConfig) (es : List (SideEvent ⊕ SideEvent))
    (horderly : Along (stepSide app app') OrderlyStep
      (connect app app' ⟨mgr, Operation.none, ring⟩ s config ⟨mgr', Operation.none, ring'⟩ s' config') es) :
    Always (stepSide app app')
      (fun c => Carried c.left c.toRight c.right ∧ Carried c.right c.toLeft c.left)
      (connect app app' ⟨mgr, Operation.none, ring⟩ s config ⟨mgr', Operation.none, ring'⟩ s' config') es := by
  have hlinked := always_of_along (linked_step happ happ')
    (linked_start happ happ' mgr ring s config mgr' ring' s' config') horderly
  exact hlinked.imp fun c h => ⟨h.left.carried h.right h.toRight, h.right.carried h.left h.toLeft⟩

/-- Three bytes are sent, of which the other side reads two before the write is confirmed. -/
def threeBytes : List (SideEvent ⊕ SideEvent) :=
  [.inl (.call (.enqueue [1, 2, 3])), .inr (.enable Operation.read), .inl (.submit 0),
    .inl (.write 0 (.took 3)), .inr (.read 0 (.bytes 2)), .inl (.complete 0 false),
    .inr (.complete 0 false)]

/-- Two transports that read pairs of bytes. -/
def pairs : Connection Unit Unit :=
  connect (pairLayer .ok) (pairLayer .ok) ⟨⟨0, 3⟩, Operation.none, Ring.empty⟩ () {}
    ⟨⟨0, 3⟩, Operation.none, Ring.empty⟩ () {}

theorem streams_carried_pairs :
    Always (stepSide (pairLayer .ok) (pairLayer .ok))
        (fun c => Carried c.left c.toRight c.right ∧ Carried c.right c.toLeft c.left) pairs threeBytes ∧
      (run (stepSide (pairLayer .ok) (pairLayer .ok)) pairs threeBytes).toRight = [3] ∧
      consumedBytes (run (stepSide (pairLayer .ok) (pairLayer .ok)) pairs threeBytes).right = [1, 2] :=
  ⟨streams_carried pairLayer_configuresFirst pairLayer_configuresFirst ⟨0, 3⟩ Ring.empty () {} ⟨0, 3⟩
    Ring.empty () {} threeBytes (by decide +kernel), by decide +kernel, by decide +kernel⟩

end NetworkDriver.Net.StreamTransport.Uring.Peers
