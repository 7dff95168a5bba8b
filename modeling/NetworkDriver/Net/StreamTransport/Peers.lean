import Mathlib.Data.List.Infix
import NetworkDriver.Library.Codec
import NetworkDriver.Net.StreamTransport.Outgoing
import NetworkDriver.Net.StreamTransport.Reads

/-! # Two transports over one connection

A stream transport on each side of a connection. What one side has written is in flight until the
other side reads it; a `recv` finds some of it, from its front, or nothing yet, or the end of the
stream, once the other side is gone and nothing is in flight any more.

* `receive`: the outcomes that the `recv` calls of one read event meet, and what stays in flight.
* `Carried`: between two steps, what one side enqueued is what the other consumed, what waits in its
  read buffer, what is in flight and what is still queued, in this order.
* `connection_faithful`: the byte streams of both directions, over all runs.
* `messages_whole`: messages of one size arrive one by one. -/

namespace NetworkDriver.Net.StreamTransport.Peers

open NetworkDriver.Library.Codec NetworkDriver.Library.Run
open NetworkDriver.Net.Types NetworkDriver.Net.StreamTransport.Model
open NetworkDriver.Net.StreamTransport.Callbacks NetworkDriver.Net.StreamTransport.Queue
open NetworkDriver.Net.StreamTransport.Incoming NetworkDriver.Net.StreamTransport.Outgoing
open NetworkDriver.Net.StreamTransport.Reads
open StreamTransportBase

variable {M σ τ : Type}

/-! ### The network -/

/-- What a `recv` meets: up to `k + 1` bytes have arrived, or nothing, or the call fails. -/
inductive Arrival where
  | bytes (k : ℕ)
  | nothing
  | failure
  deriving DecidableEq

/-- The outcome of the `recv`, by what is in flight and whether the other side is gone. -/
def Arrival.outcome (gone : Bool) (inFlight : List UInt8) : Arrival → ReadOutcome
  | .bytes k =>
    if inFlight = [] then (if gone then .closed else .failed true) else .data (inFlight.take (k + 1))
  | .nothing => .failed true
  | .failure => .failed false

section Receive

variable (reg : Register M σ) (app : NextLayer σ)

/-- The outcomes of up to `n` passes of a read event, and what is in flight behind them. -/
def receive (gone : Bool) : ℕ → List Arrival → List UInt8 → StreamTransportBase M σ →
    List ReadOutcome × List UInt8
  | 0, _, inFlight, _ => ([], inFlight)
  | n + 1, arrivals, inFlight, t =>
    let outcome := (arrivals.headD .nothing).outcome gone inFlight
    let inFlight := inFlight.drop (t.recv outcome).1.toNat
    let (verdict, t) := readOnce reg app outcome t
    if verdict = .ok then
      let (outcomes, inFlight) := receive gone n arrivals.tail inFlight t
      (outcome :: outcomes, inFlight)
    else ([outcome], inFlight)

end Receive

/-! ### The connection -/

/-- The two sides, and what is in flight to each. -/
structure Connection (M σ τ : Type) where
  left : Session M σ
  right : Session M τ
  toLeft : List UInt8 := []
  toRight : List UInt8 := []

/-- The same connection seen from the other side. -/
def Connection.swap (c : Connection M σ τ) : Connection M τ σ := ⟨c.right, c.left, c.toRight, c.toLeft⟩

/-- What happens on one side. -/
inductive SideEvent where
  | readEvent (arrivals : List Arrival)
  | writeEvent (kernel : List WriteOutcome)
  | timeout (id : UInt64)
  | enqueue (bytes : List UInt8)
  | enqueueBuffer (bytes spare : List UInt8)

section Steps

variable (reg : Register M σ) (app : NextLayer σ) (reg' : Register M τ) (app' : NextLayer τ)

/-- The event of the transport. -/
def sessionEvent (c : Connection M σ τ) : SideEvent → Event
  | .readEvent arrivals =>
    .readEvent (receive reg app c.right.failed c.left.transport.config.maxConsecutiveReads arrivals c.toLeft
      c.left.transport).1
  | .writeEvent kernel => .writeEvent kernel
  | .timeout id => .timeout id
  | .enqueue bytes => .enqueue bytes
  | .enqueueBuffer bytes spare => .enqueueBuffer bytes spare

/-- What is in flight to the left side behind a step of it. -/
def remaining (c : Connection M σ τ) : SideEvent → List UInt8
  | .readEvent arrivals =>
    if c.left.failed then c.toLeft
    else (receive reg app c.right.failed c.left.transport.config.maxConsecutiveReads arrivals c.toLeft
      c.left.transport).2
  | _ => c.toLeft

/-- One step of the left side. -/
def stepLeft (c : Connection M σ τ) (e : SideEvent) : Connection M σ τ :=
  let left := Session.step reg app c.left (sessionEvent reg app c e)
  { c with
    left := left
    toLeft := remaining reg app c e
    toRight := c.toRight ++ left.transport.trace.taken.drop c.left.transport.trace.taken.length }

/-- One step of either side. -/
def step (c : Connection M σ τ) : SideEvent ⊕ SideEvent → Connection M σ τ
  | .inl e => stepLeft reg app c e
  | .inr e => (stepLeft reg' app' c.swap e).swap

/-- Both sides after their `init`. -/
def start (m : M) (s : σ) (config : TransportConfig) (m' : M) (s' : τ) (config' : TransportConfig) :
    Connection M σ τ where
  left := Session.start reg app m s config
  right := Session.start reg' app' m' s' config'

end Steps

/-! ### What a read takes -/

/-- The callbacks have nothing to do with the network. -/
theorem changes_network {P : ReceivePolicy → Prop} {t t' : StreamTransportBase M σ} (h : Changes P t t') :
    t'.trace.delivered = t.trace.delivered ∧ t'.trace.taken = t.trace.taken := by
  refine h.keeps (I := fun t' => t'.trace.delivered = t.trace.delivered ∧ t'.trace.taken = t.trace.taken)
    (fun t₁ t₂ hc h => ?_) ⟨rfl, rfl⟩
  cases hc with
  | pushCopy bytes =>
    rw [pushCopy_eq]
    exact h
  | _ => exact h

variable (r : Registration (fun _ => True) M σ) (app : NextLayer σ)

/-- `handle_read_result` takes nothing from the network itself. -/
theorem handleReadResult_delivered (readRes : ℤ) (temporary : Bool) (t : StreamTransportBase M σ) :
    (handleReadResult r.register app readRes temporary t).2.trace.delivered = t.trace.delivered := by
  unfold handleReadResult
  dsimp only
  split_ifs
  · rfl
  · rfl
  · rfl
  · have hcons : (consume r.register app (t.readBuffer.take (t.received + readRes.toNat))
        { t with received := t.received + readRes.toNat }).2.trace.delivered = t.trace.delivered :=
      (changes_network (callback_changes r _ (fun c _ => Call.allowed_true c) _)).1
    generalize consume r.register app _ _ = o at hcons ⊢
    obtain ⟨v, t'⟩ := o
    cases v <;> exact hcons
  · rfl

/-- One `recv` takes bytes from the front. -/
theorem recv_delivered (gone : Bool) (inFlight : List UInt8) (arrival : Arrival)
    (t : StreamTransportBase M σ) :
    (t.recv (arrival.outcome gone inFlight)).2.trace.delivered ++
        inFlight.drop (t.recv (arrival.outcome gone inFlight)).1.toNat =
      t.trace.delivered ++ inFlight := by
  cases arrival with
  | nothing => rfl
  | failure => rfl
  | bytes k =>
    unfold Arrival.outcome
    dsimp only
    split_ifs with hnone hgone
    · rfl
    · rfl
    · dsimp only [recv]
      rw [List.append_assoc, List.take_take, Int.toNat_natCast, List.length_take]
      congr 1
      by_cases hle : min (min t.readBufferSize maxRwCount) (k + 1) ≤ inFlight.length
      · rw [Nat.min_eq_left hle, List.take_append_drop]
      · have hall : inFlight.length ≤ min (min t.readBufferSize maxRwCount) (k + 1) := by omega
        rw [Nat.min_eq_right hall, List.take_of_length_le hall, List.drop_length, List.append_nil]

theorem receive_ok {gone : Bool} {n : ℕ} {arrivals : List Arrival} {inFlight : List UInt8}
    {t : StreamTransportBase M σ} {outcome : ReadOutcome}
    (ho : (arrivals.headD .nothing).outcome gone inFlight = outcome)
    (hok : (readOnce r.register app outcome t).1 = .ok) :
    receive r.register app gone (n + 1) arrivals inFlight t =
      (outcome :: (receive r.register app gone n arrivals.tail (inFlight.drop (t.recv outcome).1.toNat)
          (readOnce r.register app outcome t).2).1,
        (receive r.register app gone n arrivals.tail (inFlight.drop (t.recv outcome).1.toNat)
          (readOnce r.register app outcome t).2).2) := by
  subst ho
  conv_lhs => unfold receive
  dsimp only
  rw [if_pos hok]

theorem receive_ended {gone : Bool} {n : ℕ} {arrivals : List Arrival} {inFlight : List UInt8}
    {t : StreamTransportBase M σ} {outcome : ReadOutcome}
    (ho : (arrivals.headD .nothing).outcome gone inFlight = outcome)
    (hend : (readOnce r.register app outcome t).1 ≠ .ok) :
    receive r.register app gone (n + 1) arrivals inFlight t =
      ([outcome], inFlight.drop (t.recv outcome).1.toNat) := by
  subst ho
  conv_lhs => unfold receive
  dsimp only
  rw [if_neg hend]

/-- **A read event takes bytes from the front of what is in flight**, and leaves the rest. -/
theorem receive_delivered (gone : Bool) (n : ℕ) (arrivals : List Arrival) (inFlight : List UInt8)
    (t : StreamTransportBase M σ) :
    (readLoop r.register app n (receive r.register app gone n arrivals inFlight t).1 t).2.trace.delivered ++
        (receive r.register app gone n arrivals inFlight t).2 =
      t.trace.delivered ++ inFlight := by
  induction n generalizing arrivals inFlight t with
  | zero => rfl
  | succ n ih =>
    have hrecv := recv_delivered gone inFlight (arrivals.headD .nothing) t
    generalize ho : (arrivals.headD .nothing).outcome gone inFlight = outcome at hrecv
    have honce : (readOnce r.register app outcome t).2.trace.delivered =
        (t.recv outcome).2.trace.delivered := handleReadResult_delivered r app _ _ _
    by_cases hok : (readOnce r.register app outcome t).1 = .ok
    · rw [receive_ok r app ho hok, readLoop_succ, List.headD_cons, if_pos hok, List.tail_cons, ih, honce]
      exact hrecv
    · rw [receive_ended r app ho hok, readLoop_succ, List.headD_cons, if_neg hok, honce]
      exact hrecv

/-! ### What a step takes and gives -/

theorem handleWriteResult_trace (readRes : ℤ) (temporary : Bool) (t : StreamTransportBase M σ) :
    (t.handleWriteResult readRes temporary).2.trace = t.trace := by
  obtain ⟨memory, cache, count, queue, iovecs, he⟩ := handleWriteResult_frame readRes temporary t
  rw [he]

theorem write_delivered (d : List UInt8) (t : StreamTransportBase M σ) (outcome : WriteOutcome)
    (h : t.trace.delivered = d) :
    ((t.writev outcome).2.handleWriteResult (toInt (t.writev outcome).1)
      outcome.temporary).2.trace.delivered = d := by
  rw [handleWriteResult_trace]
  cases outcome <;> exact h

theorem write_taken (k : List UInt8) (t : StreamTransportBase M σ) (outcome : WriteOutcome)
    (h : k <+: t.trace.taken) :
    k <+: ((t.writev outcome).2.handleWriteResult (toInt (t.writev outcome).1)
      outcome.temporary).2.trace.taken := by
  rw [handleWriteResult_trace]
  cases outcome with
  | took n => exact h.trans (List.prefix_append _ _)
  | failed temporary => exact h

theorem read_taken (k : List UInt8) (t : StreamTransportBase M σ) (outcome : ReadOutcome)
    (h : k <+: t.trace.taken) :
    k <+: (handleReadResult r.register app (toInt (t.recv outcome).1) outcome.temporary
      (t.recv outcome).2).2.trace.taken := by
  refine handleReadResult_keeps (I := fun t => k <+: t.trace.taken) (fun _ _ _ _ _ _ h => h)
    (fun t span h => ?_) t outcome h
  rw [(changes_network (callback_changes r _ (fun c _ => Call.allowed_true c) t)).2]
  exact h

/-- What a step that is no read or write event does comes from callbacks. -/
theorem step_changes (s : Session M σ) {e : Event} (hread : ∀ kernel, e ≠ .readEvent kernel)
    (hwrite : ∀ kernel, e ≠ .writeEvent kernel) :
    Changes (fun _ => True) s.transport (Session.step r.register app s e).transport := by
  unfold Session.step
  split_ifs
  · exact Relation.ReflTransGen.refl
  · cases e with
    | readEvent kernel => exact absurd rfl (hread kernel)
    | writeEvent kernel => exact absurd rfl (hwrite kernel)
    | timeout id => exact callback_changes r _ (fun c _ => Call.allowed_true c) _
    | enqueue bytes => exact call_changes r _ (Call.allowed_true (.enqueue bytes))
    | enqueueBuffer bytes spare => exact call_changes r _ (Call.allowed_true (.enqueueBuffer bytes spare))

theorem fetch_network (t : StreamTransportBase M σ) :
    (fetchMoreData r.register app t).2.trace.delivered = t.trace.delivered ∧
      (fetchMoreData r.register app t).2.trace.taken = t.trace.taken :=
  changes_network (fetchMoreData_changes r (NextLayer.produces_true app) t)

/-- What was given to the network stays given. -/
theorem step_taken (s : Session M σ) (e : Event) :
    s.transport.trace.taken <+: (Session.step r.register app s e).transport.trace.taken := by
  by_cases hf : s.failed = true
  · unfold Session.step
    rw [if_pos hf]
  · cases e with
    | readEvent kernel =>
      unfold Session.step
      rw [if_neg hf]
      exact readLoop_keeps (read_taken r app _) _ kernel _ (List.prefix_refl _)
    | writeEvent kernel =>
      unfold Session.step
      rw [if_neg hf]
      refine writeLoop_keeps (I := fun t => s.transport.trace.taken <+: t.trace.taken)
        (fun t h => ?_) (write_taken _) _ kernel _ (List.prefix_refl _)
      rw [(fetch_network r app t).2]
      exact h
    | _ =>
      rw [(changes_network (step_changes r app s (fun _ => Event.noConfusion)
        fun _ => Event.noConfusion)).2]

/-- Only a read event takes bytes from the network. -/
theorem step_delivered (s : Session M σ) {e : Event} (he : ∀ kernel, e ≠ .readEvent kernel) :
    (Session.step r.register app s e).transport.trace.delivered = s.transport.trace.delivered := by
  cases e with
  | readEvent kernel => exact absurd rfl (he kernel)
  | writeEvent kernel =>
    unfold Session.step
    split_ifs
    · rfl
    · refine writeLoop_keeps (I := fun t => t.trace.delivered = s.transport.trace.delivered)
        (fun t h => ?_) (write_delivered _) _ kernel _ rfl
      rw [(fetch_network r app t).1]
      exact h
  | _ => exact (changes_network (step_changes r app s he fun _ => Event.noConfusion)).1

/-! ### The invariant -/

theorem start_network (m : M) (s : σ) (config : TransportConfig) :
    (Session.start r.register app m s config).transport.trace.delivered = [] ∧
      (Session.start r.register app m s config).transport.trace.taken = [] :=
  changes_network (calls_changes r _ (fun c _ => Call.allowed_true c) _)

/-- What one side gave to the network is what the other took from it and what is in flight. -/
def Conserved (sender : Session M σ) (inFlight : List UInt8) (receiver : Session M τ) : Prop :=
  receiver.transport.trace.delivered ++ inFlight = sender.transport.trace.taken

/-- Both directions conserve. -/
def Linked (c : Connection M σ τ) : Prop :=
  Conserved c.right c.toLeft c.left ∧ Conserved c.left c.toRight c.right

theorem linked_swap {c : Connection M σ τ} (h : Linked c) : Linked c.swap := ⟨h.2, h.1⟩

theorem linked_stepLeft {c : Connection M σ τ} (h : Linked c) (e : SideEvent) :
    Linked (stepLeft r.register app c e) := by
  obtain ⟨htoLeft, htoRight⟩ := h
  refine ⟨?_, ?_⟩
  · -- the left side takes what it reads, and only a read event reads
    change (Session.step r.register app c.left (sessionEvent r.register app c e)).transport.trace.delivered ++
      remaining r.register app c e = _
    refine Eq.trans ?_ htoLeft
    cases e with
    | readEvent arrivals =>
      unfold remaining sessionEvent Session.step
      by_cases hf : c.left.failed = true
      · dsimp only
        rw [if_pos hf, if_pos hf]
      · dsimp only
        rw [if_neg hf, if_neg hf]
        exact receive_delivered r app _ _ arrivals c.toLeft c.left.transport
    | writeEvent kernel =>
      exact congrArg (· ++ c.toLeft) (step_delivered r app c.left fun _ => Event.noConfusion)
    | timeout id =>
      exact congrArg (· ++ c.toLeft) (step_delivered r app c.left fun _ => Event.noConfusion)
    | enqueue bytes =>
      exact congrArg (· ++ c.toLeft) (step_delivered r app c.left fun _ => Event.noConfusion)
    | enqueueBuffer bytes spare =>
      exact congrArg (· ++ c.toLeft) (step_delivered r app c.left fun _ => Event.noConfusion)
  · obtain ⟨new, hnew⟩ := step_taken r app c.left (sessionEvent r.register app c e)
    refine Eq.trans ?_ hnew
    change c.right.transport.trace.delivered ++
      (c.toRight ++ (Session.step r.register app c.left _).transport.trace.taken.drop _) = _
    rw [← hnew, List.drop_left, ← List.append_assoc]
    exact congrArg (· ++ new) htoRight

/-- **What is enqueued on one side arrives on the other**: what was consumed is a prefix of it, and
unless the application there failed, the rest waits in the read buffer, in flight and in the queue. -/
structure Carried (sender : Session M σ) (inFlight : List UInt8) (receiver : Session M τ) : Prop where
  consumed : consumedBytes receiver.transport <+: sender.transport.trace.enqueued
  complete : receiver.failed = false →
    consumedBytes receiver.transport ++ pending receiver.transport ++ inFlight ++
      queued sender.transport = sender.transport.trace.enqueued

theorem carried_of_conserved {sender : Session M σ} {inFlight : List UInt8} {receiver : Session M τ}
    (hsender : Sound sender.transport) (hreceiver : Kept receiver)
    (h : Conserved sender inFlight receiver) : Carried sender inFlight receiver := by
  have hrest : receiver.transport.trace.delivered ++ inFlight ++ queued sender.transport =
      sender.transport.trace.enqueued := by
    rw [show _ ++ inFlight = _ from h]
    exact hsender.rest
  have hfaithful := hreceiver.faithful
  refine ⟨?_, fun hok => ?_⟩
  · have hdelivered : consumedBytes receiver.transport <+: receiver.transport.trace.delivered := by
      cases hf : receiver.failed with
      | false => exact ⟨_, hfaithful.bytes hf⟩
      | true =>
        rcases hfaithful.failed hf with hall | hall
        · exact ⟨_, hall⟩
        · rw [hall.2]
    rw [← hrest, List.append_assoc]
    exact hdelivered.trans (List.prefix_append _ _)
  · rw [hfaithful.bytes hok]
    exact hrest

/-! ### Runs -/

section Runs

variable (r : Registration (fun _ => False) M σ) (app : NextLayer σ)
  (r' : Registration (fun _ => False) M τ) (app' : NextLayer τ)

/-- Every `writev` of the step is good. -/
def GoodWrites (c : Connection M σ τ) : SideEvent ⊕ SideEvent → Prop
  | .inl e => AtWrites r.register app GoodOutcome c.left (sessionEvent r.register app c e)
  | .inr e => AtWrites r'.register app' GoodOutcome c.right (sessionEvent r'.register app' c.swap e)

/-- The invariant of a connection. -/
structure Invariant (c : Connection M σ τ) : Prop where
  linked : Linked c
  soundLeft : Sound c.left.transport
  soundRight : Sound c.right.transport
  keptLeft : Kept c.left
  keptRight : Kept c.right

variable {r app r' app'}

theorem Invariant.swap {c : Connection M σ τ} (h : Invariant c) : Invariant c.swap :=
  ⟨linked_swap h.linked, h.soundRight, h.soundLeft, h.keptRight, h.keptLeft⟩

theorem Invariant.stepLeft (happ : Configures ReceivePolicy.Proper app) {c : Connection M σ τ}
    (h : Invariant c) {e : SideEvent}
    (hgood : AtWrites r.register app GoodOutcome c.left (sessionEvent r.register app c e)) :
    Invariant (stepLeft r.register app c e) where
  linked := linked_stepLeft (r.weaken fun _ => False.elim) app h.linked e
  soundLeft := (sound_step (r.weaken fun _ => False.elim) app c.left _ h.soundLeft hgood).1
  soundRight := h.soundRight
  keptLeft := kept_step r happ c.left _ h.keptLeft
  keptRight := h.keptRight

theorem invariant_step (happ : Configures ReceivePolicy.Proper app)
    (happ' : Configures ReceivePolicy.Proper app') (c : Connection M σ τ) (e : SideEvent ⊕ SideEvent)
    (h : Invariant c) (hgood : GoodWrites r app r' app' c e) :
    Invariant (step r.register app r'.register app' c e) := by
  cases e with
  | inl e => exact h.stepLeft happ hgood
  | inr e => exact (h.swap.stepLeft happ' hgood).swap

theorem invariant_start (happ : Configures ReceivePolicy.Proper app)
    (happ' : Configures ReceivePolicy.Proper app') (m : M) (s : σ) (config : TransportConfig) (m' : M)
    (s' : τ) (config' : TransportConfig) :
    Invariant (start r.register app r'.register app' m s config m' s' config') where
  linked := by
    obtain ⟨hdelivered, htaken⟩ := start_network (r.weaken fun _ => False.elim) app m s config
    obtain ⟨hdelivered', htaken'⟩ := start_network (r'.weaken fun _ => False.elim) app' m' s' config'
    refine ⟨?_, ?_⟩
    · exact (List.append_nil _).trans (hdelivered.trans htaken'.symm)
    · exact (List.append_nil _).trans (hdelivered'.trans htaken.symm)
  soundLeft := sound_start (r.weaken fun _ => False.elim) app m s config
  soundRight := sound_start (r'.weaken fun _ => False.elim) app' m' s' config'
  keptLeft := Or.inl (buffered_start r happ m s config)
  keptRight := Or.inl (buffered_start r' happ' m' s' config')

/-- **The connection is faithful.** Whatever the two applications send and in which order the events of
both sides come, in every state of a run all of whose writes are good: in each direction the bytes
consumed are a prefix of the bytes enqueued on the other side, and unless the application failed the
others are all on their way. -/
theorem connection_faithful (r : Registration (fun _ => False) M σ) (app : NextLayer σ)
    (r' : Registration (fun _ => False) M τ) (app' : NextLayer τ)
    (happ : Configures ReceivePolicy.Proper app) (happ' : Configures ReceivePolicy.Proper app') (m : M)
    (s : σ) (config : TransportConfig) (m' : M) (s' : τ) (config' : TransportConfig)
    (es : List (SideEvent ⊕ SideEvent))
    (hgood : Along (step r.register app r'.register app') (GoodWrites r app r' app')
      (start r.register app r'.register app' m s config m' s' config') es) :
    Always (step r.register app r'.register app')
      (fun c => Carried c.left c.toRight c.right ∧ Carried c.right c.toLeft c.left)
      (start r.register app r'.register app' m s config m' s' config') es := by
  have hinv := always_of_along (invariant_step happ happ')
    (invariant_start happ happ' m s config m' s' config') hgood
  exact hinv.imp fun c h => ⟨carried_of_conserved h.soundLeft h.keptRight h.linked.2,
    carried_of_conserved h.soundRight h.keptLeft h.linked.1⟩

end Runs

/-- One side enqueues four bytes, which are written at once; the other reads three of them, in pairs. -/
def fourBytes : List (SideEvent ⊕ SideEvent) :=
  [.inl (.enqueue [1, 2, 3, 4]), .inl (.writeEvent [.took 4]),
    .inr (.readEvent [.bytes 0, .bytes 1, .bytes 0])]

/-- Two transports that read pairs of bytes. -/
def pairs : Connection Operation Unit Unit :=
  start eventRegister (pairLayer .ok) eventRegister (pairLayer .ok) Operation.none () {} Operation.none () {}

theorem fourBytes_good :
    Along (step eventRegister (pairLayer .ok) eventRegister (pairLayer .ok))
      (GoodWrites (eventRegistration Unit) (pairLayer .ok) (eventRegistration Unit) (pairLayer .ok)) pairs
      fourBytes := by
  have hwrite : AtWrites eventRegister (pairLayer .ok) GoodOutcome
      (step eventRegister (pairLayer .ok) eventRegister (pairLayer .ok) pairs
        (.inl (.enqueue [1, 2, 3, 4]))).left (.writeEvent [.took 4]) := by
    unfold AtWrites
    decide +kernel
  exact ⟨trivial, hwrite, trivial, trivial⟩

theorem connection_faithful_pairs :
    Always (step eventRegister (pairLayer .ok) eventRegister (pairLayer .ok))
        (fun c => Carried c.left c.toRight c.right ∧ Carried c.right c.toLeft c.left) pairs fourBytes ∧
      (run (step eventRegister (pairLayer .ok) eventRegister (pairLayer .ok)) pairs fourBytes).toRight =
        [4] :=
  have hproper := (pairLayer_exact .ok).mono fun _ => Exact.proper
  ⟨connection_faithful (eventRegistration Unit) (pairLayer .ok) (eventRegistration Unit) (pairLayer .ok)
    hproper hproper Operation.none () {} Operation.none () {} fourBytes fourBytes_good, by decide +kernel⟩

/-! ### Messages of one size -/

section Messages

/-- The spans consumed so far were consumed under the policy for messages of `n` bytes, and the read
buffer is that of the policy in force. -/
structure Sized (n : UInt32) (t : StreamTransportBase M σ) : Prop where
  maxSize : t.readBuffer.length = t.policy.maxSize.toNat
  room : t.received ≤ t.readBuffer.length
  policy : t.policy = .stop ∨ t.policy = .exactly n
  consumed : ∀ c ∈ t.trace.consumed, c.1 = .exactly n

variable {n : UInt32}

theorem sized_change (t t' : StreamTransportBase M σ) (hc : Change (· = .exactly n) t t')
    (h : Sized n t) : Sized n t' := by
  cases hc with
  | manager m => exact ⟨h.maxSize, h.room, h.policy, h.consumed⟩
  | nextLayer s => exact ⟨h.maxSize, h.room, h.policy, h.consumed⟩
  | configureNextRead p _ hp =>
    have hlen : (t.configureNextRead p).readBuffer.length = p.maxSize.toNat := by
      simp only [configureNextRead, List.length_append, List.length_take, List.length_replicate]
      omega
    exact ⟨hlen, Nat.zero_le _, Or.inr hp, h.consumed⟩
  | pushNew bytes spare => exact ⟨h.maxSize, h.room, h.policy, h.consumed⟩
  | pushCopy bytes =>
    rw [pushCopy_eq]
    exact ⟨h.maxSize, h.room, h.policy, h.consumed⟩

theorem sized_write (t : StreamTransportBase M σ) (outcome : WriteOutcome) (h : Sized n t) :
    Sized n ((t.writev outcome).2.handleWriteResult (toInt (t.writev outcome).1)
      outcome.temporary).2 := by
  obtain ⟨memory, cache, count, queue, iovecs, he⟩ :=
    handleWriteResult_frame (toInt (t.writev outcome).1) outcome.temporary (t.writev outcome).2
  rw [he]
  cases outcome <;> exact ⟨h.maxSize, h.room, h.policy, h.consumed⟩

/-- A policy without room delivers nothing, so `consume` is called under the policy for messages. -/
theorem Sized.policy_of_chunk {t : StreamTransportBase M σ} (h : Sized n t) {bytes : List UInt8}
    (hchunk : chunkOf t bytes ≠ []) : t.policy = .exactly n := by
  refine h.policy.resolve_left fun hstop => hchunk ?_
  have hlen : t.readBuffer.length = 0 := by
    rw [h.maxSize, hstop]
    rfl
  obtain ⟨hle, -⟩ := length_chunkOf_le h.room bytes
  exact List.eq_nil_of_length_eq_zero (by omega)

theorem sized_read (r : Registration (fun _ => False) M σ) {app : NextLayer σ}
    (happ : Configures (· = .exactly n) app) (t : StreamTransportBase M σ) (outcome : ReadOutcome)
    (h : Sized n t) :
    Sized n (handleReadResult r.register app (toInt (t.recv outcome).1) outcome.temporary
      (t.recv outcome).2).2 := by
  cases outcome with
  | closed => exact h
  | failed temporary =>
    have hneg : toInt (-1) < 0 := by decide
    rw [show (t.recv (.failed temporary)).1 = -1 from rfl, handleReadResult, if_pos hneg]
    exact h
  | data bytes =>
    obtain ⟨hle, -⟩ := length_chunkOf_le h.room bytes
    have hpolicy : chunkOf t bytes ≠ [] → t.policy = .exactly n := h.policy_of_chunk
    rw [handleReadResult_data r.register app h.room]
    generalize chunkOf t bytes = chunk at hle hpolicy
    have hlen := length_fill hle
    split_ifs with h0 hmin
    · exact h
    · have hhanded : Sized n ((fill chunk t).recordSpan (pending (fill chunk t))
          (app.consume (fill chunk t).nextLayer (pending (fill chunk t))).2.2) := by
        refine ⟨hlen.trans h.maxSize, hlen.symm ▸ hle, h.policy, fun c hc => ?_⟩
        rcases List.mem_append.mp hc with hc | hc
        · exact h.consumed c hc
        · obtain rfl := List.mem_singleton.mp hc
          exact hpolicy h0
      have hcons : Sized n (consume r.register app (pending (fill chunk t)) (fill chunk t)).2 :=
        (callback_changes (r.weaken fun _ => False.elim) _ (happ.consume _ _) _).keeps
          sized_change hhanded
      generalize consume r.register app (pending (fill chunk t)) (fill chunk t) = o at hcons ⊢
      obtain ⟨v, t'⟩ := o
      cases v with
      | error => exact hcons
      | ok | done | temporaryError =>
        exact ⟨hcons.maxSize, Nat.zero_le _, hcons.policy, hcons.consumed⟩
    · exact ⟨hlen.trans h.maxSize, hlen.symm ▸ hle, h.policy, h.consumed⟩

theorem sized_step (r : Registration (fun _ => False) M σ) {app : NextLayer σ}
    (happ : Configures (· = .exactly n) app) (s : Session M σ) (e : Event) (h : Sized n s.transport) :
    Sized n (Session.step r.register app s e).transport := by
  have hkeeps : ∀ {t t' : StreamTransportBase M σ}, Changes (fun _ => False) t t' → Sized n t →
      Sized n t' := fun hc ht => (hc.mono fun _ => False.elim).keeps sized_change ht
  unfold Session.step
  split_ifs
  · exact h
  · cases e with
    | readEvent kernel => exact readLoop_keeps (sized_read r happ) _ kernel _ h
    | writeEvent kernel =>
      exact writeLoop_keeps (fun t => hkeeps (fetchMoreData_changes r happ.produce t)) sized_write _
        kernel _ h
    | timeout id => exact hkeeps (callback_changes r _ (happ.handleTimeout _ id) _) h
    | enqueue bytes => exact hkeeps (call_changes r _ (c := .enqueue bytes) trivial) h
    | enqueueBuffer bytes spare =>
      exact hkeeps (call_changes r _ (c := .enqueueBuffer bytes spare) trivial) h

theorem sized_start (r : Registration (fun _ => False) M σ) {app : NextLayer σ}
    (happ : Configures (· = .exactly n) app) (m : M) (s : σ) (config : TransportConfig) :
    Sized n (Session.start r.register app m s config).transport := by
  have hcalls := calls_changes (r.weaken (Q := (· = .exactly n)) fun _ => False.elim)
    (app.init s).2.1 (happ.init s) { fresh m (app.init s).1 config with config := config }
  exact hcalls.keeps sized_change ⟨rfl, Nat.le_refl _, Or.inl rfl, fun _ hc => nomatch hc⟩

/-- The spans are the blocks of what was consumed. -/
theorem consumed_prefix (hn : 0 < n) {sender : Session M σ} {inFlight : List UInt8}
    {receiver : Session M τ} (h : Carried sender inFlight receiver) (hspans : Kept receiver)
    (hsized : Sized n receiver.transport) {msgs : List (List UInt8)}
    (hmsgs : ∀ msg ∈ msgs, msg.length = n.toNat)
    (henqueued : sender.transport.trace.enqueued = msgs.flatten) :
    receiver.transport.trace.consumed.map Prod.snd <+: msgs := by
  have hlen : ∀ span ∈ receiver.transport.trace.consumed.map Prod.snd, span.length = n.toNat := by
    intro span hspan
    obtain ⟨c, hc, rfl⟩ := List.mem_map.mp hspan
    obtain ⟨hmin, hmax⟩ := hspans.faithful.spans c hc
    rw [hsized.consumed c hc] at hmin hmax
    exact Nat.le_antisymm hmax hmin
  have hconsumed := h.consumed
  rw [henqueued, consumedBytes, List.flatMap_def] at hconsumed
  exact prefix_of_flatten hn hlen hmsgs hconsumed

/-- **Messages of one size arrive one by one.** If the receiving application asks for exactly the size
of a message each time, and what was enqueued on the other side is a list of messages, then each
call of `consume` gets one message, and the calls are a prefix of the list: however the kernels cut
the stream, and however the messages were cut into buffers. -/
theorem messages_whole (r : Registration (fun _ => False) M σ) (app : NextLayer σ)
    (r' : Registration (fun _ => False) M τ) (app' : NextLayer τ)
    (happ : Configures ReceivePolicy.Proper app) (hn : 0 < n) (happ' : Configures (· = .exactly n) app')
    (m : M) (s : σ) (config : TransportConfig) (m' : M) (s' : τ) (config' : TransportConfig)
    (es : List (SideEvent ⊕ SideEvent))
    (hgood : Along (step r.register app r'.register app') (GoodWrites r app r' app')
      (start r.register app r'.register app' m s config m' s' config') es) :
    Always (step r.register app r'.register app')
      (fun c => ∀ msgs, (∀ msg ∈ msgs, msg.length = n.toNat) →
        c.left.transport.trace.enqueued = msgs.flatten →
        c.right.transport.trace.consumed.map Prod.snd <+: msgs)
      (start r.register app r'.register app' m s config m' s' config') es := by
  have hproper : Configures ReceivePolicy.Proper app' :=
    happ'.mono fun p hp => Exact.proper ⟨n, hn, hp⟩
  have hinv := always_of_along (invariant_step happ hproper)
    (invariant_start happ hproper m s config m' s' config') hgood
  have hsized : Always (step r.register app r'.register app') (fun c => Sized n c.right.transport)
      (start r.register app r'.register app' m s config m' s' config') es := by
    refine always_of_step (fun c e h => ?_) es (sized_start r' happ' m' s' config')
    cases e with
    | inl e => exact h
    | inr e => exact sized_step r' happ' c.right _ h
  refine (hinv.and hsized).imp fun c h msgs hmsgs henqueued => ?_
  exact consumed_prefix hn (carried_of_conserved h.1.soundLeft h.1.keptRight h.1.linked.2)
    h.1.keptRight h.2 hmsgs henqueued

/-- Two messages of two bytes, of which the first and half of the second have been read. -/
theorem messages_whole_pairs :
    (run (step eventRegister (pairLayer .ok) eventRegister (pairLayer .ok)) pairs
      fourBytes).right.transport.trace.consumed.map Prod.snd <+: [[1, 2], [3, 4]] := by
  have hpairs : Configures (· = .exactly 2) (pairLayer .ok) := by
    refine ⟨fun s c hc => ?_, by simp [pairLayer], by simp [NextLayer.Produces, pairLayer],
      by simp [pairLayer]⟩
    obtain rfl := List.mem_singleton.mp hc
    exact rfl
  have h := messages_whole (eventRegistration Unit) (pairLayer .ok) (eventRegistration Unit)
    (pairLayer .ok) ((pairLayer_exact .ok).mono fun _ => Exact.proper) (n := 2) (by decide) hpairs
    Operation.none () {} Operation.none () {} fourBytes fourBytes_good
  exact h.last [[1, 2], [3, 4]] (by decide) (by decide +kernel)

end Messages

end NetworkDriver.Net.StreamTransport.Peers
