import NetworkDriver.Library.Codec
import NetworkDriver.Net.StreamTransport.Uring.Peers

/-! # Messages of one size under io_uring

An application that asks for exactly the size of a message each time gets one message with each call of
`consume`, however the kernels cut the stream and whenever their completions are dispatched.

* `Sized`: no other policy was in force when bytes were consumed.
* `messages_arrive`: the calls of `consume` are a prefix of the messages, over all runs. -/

namespace NetworkDriver.Net.StreamTransport.Uring.Messages

open NetworkDriver.Library.Codec (prefix_of_flatten)
open NetworkDriver.Library.Run
open NetworkDriver.Net.Types NetworkDriver.Net.Multiplexer.Base
open NetworkDriver.Net.Multiplexer.Uring.Model NetworkDriver.Net.Multiplexer.Uring.Submissions
open NetworkDriver.Net.StreamTransport.Model hiding Event
open NetworkDriver.Net.StreamTransport.Callbacks
open NetworkDriver.Net.StreamTransport.Incoming (consumedBytes pairLayer Configures)
open NetworkDriver.Net.StreamTransport.Queue (handleWriteResult_frame)
open NetworkDriver.Net.StreamTransport.Uring.Model NetworkDriver.Net.StreamTransport.Uring.Callbacks
open NetworkDriver.Net.StreamTransport.Uring.Incoming NetworkDriver.Net.StreamTransport.Uring.Peers
open StreamTransportBase

variable {σ τ : Type} {n : UInt32}

/-! ### The policy for messages -/

/-- The spans consumed so far were consumed under the policy for messages of `n` bytes, and no other
was configured. -/
structure Sized (n : UInt32) (t : Stream σ) : Prop where
  policy : t.policy = .stop ∨ t.policy = .exactly n
  consumed : ∀ c ∈ t.trace.consumed, c.1 = .exactly n

theorem sized_rule : Rule (· = ReceivePolicy.exactly n) (Sized (σ := σ) n) where
  change t t' hc _ h := by
    cases hc with
    | configureNextRead p _ hp => exact ⟨.inr hp, h.consumed⟩
    | pushCopy bytes =>
      rw [pushCopy_eq]
      exact ⟨h.policy, h.consumed⟩
    | _ => exact ⟨h.policy, h.consumed⟩
  port _ _ h := ⟨h.policy, h.consumed⟩
  grow t h := by
    unfold grow
    split_ifs
    · exact h
    · exact ⟨h.policy, h.consumed⟩
  submit _ _ _ h := ⟨h.policy, h.consumed⟩

section Transport

variable {app : NextLayer σ} (hexact : Configures (· = ReceivePolicy.exactly n) app)

include hexact

theorem sized_callable : Callable (register app) (Call.Allowed (· = ReceivePolicy.exactly n)) (Sized n) :=
  sized_rule.callable (sized_rule.register fun s c hc => (hexact.produce s c hc).mono fun _ => False.elim)

theorem sized_result {t : Stream σ} (h : Sized n t) {res : ℤ} (temporary : Bool)
    (hpolicy : 0 < res → t.policy = .exactly n) :
    Sized n (handleReadResult (register app) app res temporary t).2 := by
  unfold handleReadResult
  dsimp only
  split_ifs with hneg hzero hmin
  · exact h
  · exact h
  · exact h
  · have hhanded : ∀ c ∈ t.trace.consumed ++ [(t.policy, t.readBuffer.take (t.received + res.toNat))],
        c.1 = .exactly n := by
      intro c hc
      rcases List.mem_append.mp hc with hc | hc
      · exact h.consumed c hc
      · obtain rfl := List.mem_singleton.mp hc
        exact hpolicy (by omega)
    have hconsume : Sized n (consume (register app) app (t.readBuffer.take (t.received + res.toNat))
        { t with received := t.received + res.toNat }).2 :=
      (sized_callable hexact).callback (hexact.consume _ _) ⟨h.policy, hhanded⟩
    generalize consume (register app) app _ _ = o at hconsume ⊢
    obtain ⟨v, t'⟩ := o
    cases v with
    | error => exact hconsume
    | ok => exact ⟨hconsume.policy, hconsume.consumed⟩
    | done => exact ⟨hconsume.policy, hconsume.consumed⟩
    | temporaryError => exact ⟨hconsume.policy, hconsume.consumed⟩
  · exact ⟨h.policy, h.consumed⟩

omit hexact in
/-- A policy without room reads nothing. -/
theorem policy_of_read {t : Stream σ} (h : Sized n t) (hwaiting : Waiting t) {k : ℕ} {res : ℤ}
    {bytes : List UInt8} (hk : t.manager.entries[k]? = some (.finished Operation.read res bytes))
    (hpos : 0 < res) : t.policy = .exactly n := by
  refine h.policy.resolve_left fun hstop => ?_
  rcases hwaiting.fits _ (List.mem_of_getElem? hk) rfl with hfilled | ⟨hneg, -⟩
  · have hlength : t.readBuffer.length = 0 := by
      rw [hwaiting.buffered.maxSize, hstop]
      rfl
    have hsize : t.readBufferSize = t.readBuffer.length - t.received := subSize_of_le hwaiting.buffered.room
    have hroom := hfilled.room
    have hres := hfilled.res
    omega
  · omega

theorem sized_step (t : Stream σ) (e : Event) (h : Sized n t) (hinbound : Inbound t)
    (hquiet : Unconfigured e) : Sized n (step app t e) := by
  have hproduce : NextLayer.Produces (· = ReceivePolicy.exactly n) app := fun s c hc =>
    (hexact.produce s c hc).mono fun _ => False.elim
  have hcalls := sized_callable hexact
  cases e with
  | enable op =>
    exact sized_rule.enableBy (fun t => sized_rule.enable hproduce (sized_rule.register hproduce) op) h
  | call c => exact hcalls.call c t (Call.Allowed.mono (fun _ => False.elim) hquiet) h
  | timeout id =>
    exact hcalls.callback (fun c hc => (hexact.handleTimeout t.nextLayer id c hc).mono fun _ => False.elim) h
  | ring r => exact ⟨h.policy, h.consumed⟩
  | submit k =>
    unfold step
    dsimp only
    split
    · unfold importIovecs
      split_ifs
      · exact ⟨h.policy, h.consumed⟩
      · exact ⟨h.policy, h.consumed⟩
    · exact h
  | read k outcome =>
    unfold step
    dsimp only
    split
    · cases outcome <;> exact ⟨h.policy, h.consumed⟩
    · exact h
  | write k outcome =>
    unfold step
    dsimp only
    split
    · cases outcome <;> exact ⟨h.policy, h.consumed⟩
    · exact h
  | poll k =>
    unfold step
    dsimp only
    split
    · exact ⟨h.policy, h.consumed⟩
    · exact h
  | complete k temporary =>
    unfold step
    dsimp only
    split
    · rename_i op res bytes hk
      refine sized_rule.dispatch hproduce (fun hread => ?_) (fun _ => ?_) fun _ _ => ⟨h.policy, h.consumed⟩
      · subst hread
        exact sized_result hexact (t := passed k Operation.read bytes t) ⟨h.policy, h.consumed⟩ temporary
          (policy_of_read h (hinbound.waiting hk rfl) hk)
      · obtain ⟨memory, cache, count, queue, iovecs, hframe⟩ :=
          handleWriteResult_frame res temporary (passed k op bytes t)
        rw [hframe]
        exact ⟨h.policy, h.consumed⟩
    · exact h

theorem sized_start (port : Multiplexer.Uring.Managers.Port) (s : σ) (config : TransportConfig) :
    Sized n (start app port s config) :=
  (sized_callable hexact).calls (hexact.init s) ⟨.inl rfl, fun _ hc => nomatch hc⟩

end Transport

/-! ### Runs -/

/-- The spans are the blocks of what was consumed. -/
theorem consumed_messages (hn : 0 < n) {sender : Stream σ} {inFlight : List UInt8} {receiver : Stream τ}
    (h : Carried sender inFlight receiver) (hspans : Received receiver) (hsized : Sized n receiver)
    {msgs : List (List UInt8)} (hmsgs : ∀ msg ∈ msgs, msg.length = n.toNat)
    (henqueued : sender.trace.enqueued = msgs.flatten) :
    receiver.trace.consumed.map Prod.snd <+: msgs := by
  have hlength : ∀ span ∈ receiver.trace.consumed.map Prod.snd, span.length = n.toNat := by
    intro span hspan
    obtain ⟨c, hc, rfl⟩ := List.mem_map.mp hspan
    obtain ⟨hmin, hmax⟩ := hspans.spans c hc
    rw [hsized.consumed c hc] at hmin hmax
    exact Nat.le_antisymm hmax hmin
  have hconsumed := h.consumed
  rw [henqueued, consumedBytes, List.flatMap_def] at hconsumed
  exact prefix_of_flatten hn hlength hmsgs hconsumed

variable {app : NextLayer σ} {app' : NextLayer τ}

/-- **Messages of one size arrive one by one.** If the receiving application asks for exactly the size
of a message each time, and what was enqueued on the other side is a list of messages, then each call
of `consume` gets one message, and the calls are a prefix of the list. -/
theorem messages_arrive (happ : ConfiguresFirst app) (hn : 0 < n) (happ' : ConfiguresFirst app')
    (hexact : Configures (· = ReceivePolicy.exactly n) app') (mgr : Manager) (ring : Ring) (s : σ)
    (config : TransportConfig) (mgr' : Manager) (ring' : Ring) (s' : τ) (config' : TransportConfig)
    (es : List (SideEvent ⊕ SideEvent))
    (horderly : Along (stepSide app app') OrderlyStep
      (connect app app' ⟨mgr, Operation.none, ring⟩ s config ⟨mgr', Operation.none, ring'⟩ s' config') es) :
    Always (stepSide app app')
      (fun c => ∀ msgs, (∀ msg ∈ msgs, msg.length = n.toNat) → c.left.trace.enqueued = msgs.flatten →
        c.right.trace.consumed.map Prod.snd <+: msgs)
      (connect app app' ⟨mgr, Operation.none, ring⟩ s config ⟨mgr', Operation.none, ring'⟩ s' config') es := by
  have hkept := always_of_along (I := fun c : Connection σ τ => Linked c ∧ Sized n c.right)
    (fun c e h he => ⟨linked_step happ happ' c e h.1 he, ?_⟩)
    ⟨linked_start happ happ' mgr ring s config mgr' ring' s' config', sized_start hexact _ s' config'⟩ horderly
  · refine hkept.imp fun c h msgs hmsgs henqueued => ?_
    exact consumed_messages hn (h.1.left.carried h.1.right h.1.toRight) h.1.right.inbound.received h.2 hmsgs
      henqueued
  · cases e with
    | inl e =>
      change Sized n (stepLeft app c e).right
      unfold stepLeft
      split <;> exact h.2
    | inr e =>
      change Sized n (stepLeft app' c.swap e).left
      unfold stepLeft
      split
      · rename_i e' he'
        exact sized_step hexact c.right e' h.2 h.1.right.inbound (he e' he').quiet
      · exact h.2

/-- One side enqueues two messages and the kernel writes three of their bytes; the other reads in pairs. -/
def twoMessages : List (SideEvent ⊕ SideEvent) :=
  [.inl (.call (.enqueue [1, 2, 3, 4])), .inr (.enable Operation.read), .inl (.submit 0),
    .inl (.write 0 (.took 3)), .inl (.complete 0 false), .inr (.read 0 (.bytes 2)), .inr (.complete 0 false),
    .inr (.read 0 (.bytes 2)), .inr (.complete 0 false)]

/-- Two messages of two bytes, of which the first and half of the second are sent before they are read. -/
theorem messages_arrive_pairs :
    (run (stepSide (pairLayer .ok) (pairLayer .ok)) pairs twoMessages).right.trace.consumed.map Prod.snd <+:
      [[1, 2], [3, 4]] := by
  have hpairs : Configures (· = ReceivePolicy.exactly 2) (pairLayer .ok) := by
    refine ⟨fun s c hc => ?_, by simp [pairLayer], by simp [NextLayer.Produces, pairLayer],
      by simp [pairLayer]⟩
    obtain rfl := List.mem_singleton.mp hc
    exact rfl
  have h := messages_arrive pairLayer_configuresFirst (n := 2) (by decide) pairLayer_configuresFirst hpairs
    ⟨0, 3⟩ Ring.empty () {} ⟨0, 3⟩ Ring.empty () {} twoMessages (by decide +kernel)
  exact h.last [[1, 2], [3, 4]] (by decide) (by decide +kernel)

end NetworkDriver.Net.StreamTransport.Uring.Messages
