import NetworkDriver.Net.Datagrams.Outgoing
import NetworkDriver.Net.Dispatcher.Fetching

/-! # Sessions over one socket

A dispatcher is the next layer of an event-driven datagram transport: all endpoints share the socket,
the read buffer and the queue. Seen from one endpoint it is a connection of its own: its application is
handed what the transport consumed from the endpoint, and what it enqueues is sent to the endpoint.

* `Left`: what a function of the dispatcher leaves behind, and how two of them compose.
* `Tied`: between two callbacks, what the dispatcher recorded is what the transport recorded.
* `sessions_apart`: both directions, for every endpoint, in every run. -/

namespace NetworkDriver.Net.Dispatcher.Routing

open NetworkDriver.Library.Keyed NetworkDriver.Library.Run NetworkDriver.Library.Scripts
open NetworkDriver.Net.Types NetworkDriver.Net.Dispatcher.Model NetworkDriver.Net.Dispatcher.Isolation
open NetworkDriver.Net.Dispatcher.Applications NetworkDriver.Net.Dispatcher.Fetching
open NetworkDriver.Net.StreamTransport.Model (TransportConfig)
open NetworkDriver.Net.Datagrams.Model (Endpoint Call DatagramTransport Register Session Byte ReadOutcome
  SendOutcome Datagram eventRegister)
open NetworkDriver.Net.Datagrams.Model.DatagramTransport
open NetworkDriver.Net.Datagrams.Callbacks (writeLoop_keeps eventRegistration)
open NetworkDriver.Net.Datagrams.Outgoing (Faithful faithful_start faithful_step eventRegister_eq calls_trace)

variable {σ : Type}

/-! ### What a function of the dispatcher leaves -/

/-- The calls collected on the way from `s` to `s'` enqueue what is recorded there. -/
def Collects (s s' : DatagramDispatcher Collected σ) : Prop :=
  ∃ calls, s'.parent.1 = s.parent.1 ++ calls ∧
    s'.trace.enqueued.map Prod.snd = s.trace.enqueued.map Prod.snd ++ calls.filterMap Call.payload?

theorem Collects.refl (s : DatagramDispatcher Collected σ) : Collects s s :=
  ⟨[], (List.append_nil _).symm, (List.append_nil _).symm⟩

theorem Collects.trans {s s' s'' : DatagramDispatcher Collected σ} (h : Collects s s')
    (h' : Collects s' s'') : Collects s s'' := by
  obtain ⟨calls, hparent, henqueued⟩ := h
  obtain ⟨calls', hparent', henqueued'⟩ := h'
  refine ⟨calls ++ calls', ?_, ?_⟩
  · rw [hparent', hparent, List.append_assoc]
  · rw [henqueued', henqueued, List.append_assoc, List.filterMap_append]

/-- What a function of the dispatcher leaves. -/
structure Left (s s' : DatagramDispatcher Collected σ) : Prop where
  keyed : Keyed s'
  addressed : Addressed s'
  collects : Collects s s'

theorem Left.trans {s s' s'' : DatagramDispatcher Collected σ} (h : Left s s') (h' : Left s' s'') :
    Left s s'' where
  keyed := h'.keyed
  addressed := h'.addressed
  collects := h.collects.trans h'.collects

/-- The wrappers pass on what a layer tells. -/
theorem told_collects (ep : Endpoint) (t : Tell) (s : DatagramDispatcher Collected σ) :
    Collects s (DatagramDispatcher.told collecting ep ep t s) := by
  cases t with
  | enqueue bytes => exact ⟨[.enqueue bytes ep], rfl, List.map_append⟩
  | enqueueBuffer bytes capacity => exact ⟨[.enqueueBuffer bytes capacity ep], rfl, List.map_append⟩
  | configureNextRead policy => exact ⟨[.configureNextRead policy], rfl, (List.append_nil _).symm⟩

theorem asked_collects (ep : Endpoint) (q : Ask) (s : DatagramDispatcher Collected σ) :
    Collects s (DatagramDispatcher.asked collecting ep ep q s).2 := by
  cases q with
  | setTimeoutIn duration => exact Collects.refl s
  | setTimeoutAt point => exact Collects.refl s

theorem runLayer_collects {β : Type} (ep : Endpoint) (st : σ) (script : LayerScript (σ × β))
    (s : DatagramDispatcher Collected σ) :
    Collects s (DatagramDispatcher.runLayer collecting ep ⟨ep, st⟩ script s).2 := by
  have hrun : Collects s (script.run (DatagramDispatcher.told collecting ep ep)
      (DatagramDispatcher.asked collecting ep ep) s).state :=
    Script.run_keeps (I := fun s' _ => Collects s s')
      (fun t s' _ h => h.trans (told_collects ep t s'))
      (fun q s' _ h => h.trans (asked_collects ep q s')) script (l := []) (Collects.refl s)
  exact hrun

/-- **A function of a layer**, which is found where its endpoint says; all others stay. -/
theorem runLayer_left {β : Type} {ep : Endpoint} {w : EndpointWrapper σ}
    {s : DatagramDispatcher Collected σ} (hk : Keyed s) (ha : Addressed s)
    (hfind : s.layers.find? ep = some (ep, w)) (script : LayerScript (σ × β)) :
    Left s (DatagramDispatcher.runLayer collecting ep w script s).2 ∧
      ∀ e, e ≠ ep → (DatagramDispatcher.runLayer collecting ep w script s).2.layers.find? e =
        s.layers.find? e := by
  have hep : w.ep = ep := hk ep _ hfind
  obtain ⟨ids, next, hran⟩ := runLayer_ran collecting hfind hep script
  obtain ⟨ep', st⟩ := w
  obtain rfl : ep' = ep := hep
  refine ⟨⟨fun e l hl => ?_, addressed_append hran.enqueued ha, runLayer_collects ep' st script s⟩,
    fun e he => ?_⟩
  · rw [hran.layers] at hl
    split_ifs at hl with he
    · obtain rfl := Option.some.inj hl
      exact he.symm
    · exact hk e l hl
  · rw [hran.layers, if_neg he]

/-! ### The functions of the dispatcher -/

section Functions

variable (app : NextLayer σ) (made : σ)

/-- The layer of an endpoint, which is made and initialized for its first datagram. -/
theorem nextLayer_left (hinit : (app.init made).Returns fun r => r.2 = true) (ep : Endpoint)
    {s : DatagramDispatcher Collected σ} (hk : Keyed s) (ha : Addressed s) :
    ∃ w s', DatagramDispatcher.nextLayer collecting app made ep s = (some w, s') ∧ Left s s' ∧
      s'.layers.find? ep = some (ep, w) := by
  unfold DatagramDispatcher.nextLayer
  cases hfind : s.layers.find? ep with
  | some l =>
    obtain ⟨key, w⟩ := l
    obtain rfl : key = ep := (KeyedMap.find?_eq_some.mp hfind).2
    exact ⟨w, s, rfl, ⟨hk, ha, Collects.refl s⟩, hfind⟩
  | none =>
    set s₀ : DatagramDispatcher Collected σ := { s with layers := s.layers.emplace (ep, ⟨ep, made⟩) }
    have hlayers : ∀ e, s₀.layers.find? e = if e = ep then some (ep, ⟨ep, made⟩) else s.layers.find? e := by
      intro e
      change (s.layers.emplace _).find? e = _
      rw [KeyedMap.find?_emplace_eq]
      by_cases he : e = ep
      · rw [he, hfind, if_pos rfl]
        rfl
      · rw [if_neg he, if_neg (Ne.symm he), Option.or_none]
    have hkeyed : Keyed s₀ := by
      intro e l hl
      rw [hlayers] at hl
      split_ifs at hl with he
      · obtain rfl := Option.some.inj hl
        exact he.symm
      · exact hk e l hl
    have hmade : s₀.layers.find? ep = some (ep, ⟨ep, made⟩) := by
      rw [hlayers, if_pos rfl]
    obtain ⟨hleft, -⟩ := runLayer_left hkeyed ha hmade (app.init made)
    obtain ⟨ids, next, hran⟩ := runLayer_ran collecting hmade rfl (app.init made)
    have hok : (DatagramDispatcher.runLayer collecting ep ⟨ep, made⟩ (app.init made) s₀).1 = true :=
      Script.returns_run hinit s₀
    have hfound : (DatagramDispatcher.runLayer collecting ep ⟨ep, made⟩ (app.init made) s₀).2.layers.find? ep =
        some (ep, ⟨ep, next⟩) := by
      rw [hran.layers, if_pos rfl]
    refine ⟨⟨ep, next⟩, _, ?_, ⟨hleft.keyed, hleft.addressed, hleft.collects⟩, hfound⟩
    dsimp only
    rw [hok, if_pos rfl, hfound]
    rfl

/-- The record of calls does not matter to the function of a layer. -/
theorem runLayer_recorded {β : Type} {ep : Endpoint} {w : EndpointWrapper σ}
    {s : DatagramDispatcher Collected σ} (hk : Keyed s) (ha : Addressed s)
    (hfind : s.layers.find? ep = some (ep, w)) (script : LayerScript (σ × β))
    (delivered : List (Endpoint × Delivery)) :
    Left s (DatagramDispatcher.runLayer collecting ep w script
      { s with trace := { s.trace with delivered := delivered } }).2 := by
  obtain ⟨hleft, -⟩ := runLayer_left (s := { s with
    trace := { s.trace with delivered := delivered } }) hk ha hfind script
  exact ⟨hleft.keyed, hleft.addressed, hleft.collects⟩

theorem consume_left (hinit : (app.init made).Returns fun r => r.2 = true) (data : List UInt8)
    (ep : Endpoint) {s : DatagramDispatcher Collected σ} (hk : Keyed s) (ha : Addressed s) :
    Left s (s.consume collecting app made data ep).2 := by
  obtain ⟨w, s', hnext, hleft, hfind⟩ := nextLayer_left app made hinit ep hk ha
  have hep : w.ep = ep := hleft.keyed ep _ hfind
  unfold DatagramDispatcher.consume DatagramDispatcher.wrapperConsume
  rw [hnext]
  dsimp only
  rw [if_neg (not_not.mpr hep)]
  exact hleft.trans (runLayer_recorded hleft.keyed hleft.addressed hfind _ _)

theorem handleTimeout_left (id : UInt64) {s : DatagramDispatcher Collected σ} (hk : Keyed s)
    (ha : Addressed s) :
    Left s (s.handleTimeout collecting app id).2 := by
  have hsame : Left s s := ⟨hk, ha, Collects.refl s⟩
  unfold DatagramDispatcher.handleTimeout
  cases s.timeouts.find? id with
  | none => exact hsame
  | some timeout =>
    dsimp only
    cases hfind : s.layers.find? timeout.2 with
    | none => exact hsame
    | some l =>
      obtain ⟨key, w⟩ := l
      obtain rfl : key = timeout.2 := (KeyedMap.find?_eq_some.mp hfind).2
      exact runLayer_recorded hk ha hfind _ _

theorem produceLoop_left (ls : List (Endpoint × EndpointWrapper σ)) {s : DatagramDispatcher Collected σ}
    (hk : Keyed s) (ha : Addressed s) (hnodup : (ls.map Prod.fst).Nodup)
    (hls : ∀ l ∈ ls, s.layers.find? l.1 = some l) :
    Left s (DatagramDispatcher.produceLoop collecting app ls s).2 := by
  induction ls generalizing s with
  | nil => exact ⟨hk, ha, Collects.refl s⟩
  | cons l ls ih =>
    obtain ⟨hl, hrest⟩ := List.nodup_cons.mp hnodup
    obtain ⟨hfirst, hlater⟩ := List.forall_mem_cons.mp hls
    obtain ⟨hleft, hothers⟩ := runLayer_left hk ha hfirst (app.produce l.2.nextLayer)
    have hfound : ∀ l' ∈ ls, (DatagramDispatcher.runLayer collecting l.1 l.2
        (app.produce l.2.nextLayer) s).2.layers.find? l'.1 = some l' := by
      intro l' hmem
      have hne : l'.1 ≠ l.1 := fun heq => hl (List.mem_map.mpr ⟨l', hmem, heq⟩)
      rw [hothers l'.1 hne]
      exact hlater l' hmem
    unfold DatagramDispatcher.produceLoop
    generalize DatagramDispatcher.runLayer collecting l.1 l.2 (app.produce l.2.nextLayer) s = o
      at hleft hfound ⊢
    obtain ⟨verdict, s'⟩ := o
    cases verdict with
    | ok => exact hleft.trans (ih hleft.keyed hleft.addressed hrest hfound)
    | done | error | temporaryError => exact hleft

theorem produce_left {s : DatagramDispatcher Collected σ} (hk : Keyed s) (ha : Addressed s) :
    Left s (s.produce collecting app).2 :=
  produceLoop_left app s.layers.elems hk ha s.layers.nodup
    fun _ hl => KeyedMap.find?_eq_some.mpr ⟨hl, rfl⟩

end Functions

/-! ### What applications are handed -/

/-- The datagram of a call of an application. -/
def datagram? : LayerCall → Option (List UInt8)
  | .consume data => some data
  | _ => none

/-- The payloads that an application was handed, as it recorded them itself. -/
def handedBy (a : Application σ) : List (List UInt8) := a.history.filterMap datagram?

/-- The payloads that the application of an endpoint was handed, if there is one. -/
def handedAt (e : Endpoint) (s : DatagramDispatcher Collected (Application σ)) : List (List UInt8) :=
  (applicationOf e s).elim [] handedBy

section Handed

variable (app : NextLayer σ) {made a a' : Application σ} {s : DatagramDispatcher Collected (Application σ)}
  (hk : Keyed s)

theorem handedBy_called {c : LayerCall} (h : Called c a a') :
    handedBy a' = handedBy a ++ (datagram? c).toList := by
  unfold handedBy
  rw [h.2, List.filterMap_append, List.filterMap_cons]
  cases datagram? c <;> rfl

theorem handedAt_becomes {ep : Endpoint} {s' : DatagramDispatcher Collected (Application σ)}
    (h : Becomes ep a s s') (e : Endpoint) :
    handedAt e s' = if e = ep then handedBy a else handedAt e s := by
  unfold handedAt
  rw [h.applicationOf]
  split_ifs <;> rfl

include hk

/-- **`consume`** hands the datagram to the application of its endpoint. -/
theorem consume_handed (hmade : made.history = [])
    (hinit : ((logged app).init made).Returns fun r => r.2 = true) (data : List UInt8)
    (ep e : Endpoint) :
    handedAt e (s.consume collecting (logged app) made data ep).2 =
      handedAt e s ++ entriesOf e [(ep, data)] := by
  obtain ⟨a, hconsumed, hbecomes⟩ := consume_cases collecting app hk made data ep
  have hanswer : initAnswer collecting (logged app) made ep s = true := Script.returns_run hinit _
  rw [handedAt_becomes hbecomes, show entriesOf e [(ep, data)] = _ from entriesOf_map e ep [data]]
  by_cases he : e = ep
  · subst he
    rw [if_pos rfl, if_pos rfl]
    unfold handedAt
    generalize applicationOf e s = before at hconsumed ⊢
    cases hconsumed with
    | known hcalled => exact handedBy_called hcalled
    | opened _ _ hhistory =>
      unfold handedBy
      rw [hhistory, hmade]
      rfl
    | failed hfailed => exact absurd (hanswer.symm.trans hfailed) (by decide)
  · rw [if_neg he, if_neg he, List.append_nil]

/-- `handle_timeout` hands over nothing. -/
theorem handleTimeout_handed (id : UInt64) (e : Endpoint) :
    handedAt e (s.handleTimeout collecting (logged app) id).2 = handedAt e s := by
  rcases handleTimeout_cases collecting app hk id with hsame | ⟨ep, a, a', ha, hcalled, hbecomes⟩
  · rw [hsame]
  · rw [handedAt_becomes hbecomes]
    split_ifs with he
    · subst he
      rw [handedBy_called hcalled, handedAt, ha]
      exact List.append_nil _
    · rfl

/-- Neither does `produce`. -/
theorem produce_handed (e : Endpoint) :
    handedAt e (s.produce collecting (logged app)).2 = handedAt e s := by
  unfold handedAt
  rcases produce_called collecting app (produce_returns app) hk e with hsame | ⟨a, a', ha, hcalled, ha'⟩
  · rw [hsame]
  · rw [ha, ha']
    exact (handedBy_called hcalled).trans (List.append_nil _)

end Handed

/-! ### The transport -/

/-- The transport of a dispatcher. -/
abbrev Transport (σ : Type) := DatagramTransport Operation (DatagramDispatcher Collected (Application σ))

/-- What the transport consumed, as the dispatcher sees it. -/
def consumedValues (t : Transport σ) : List (Endpoint × List UInt8) :=
  t.trace.consumed.map fun x => (x.2, x.1.map Byte.value)

/-- **Between two callbacks**, what the dispatcher passed on is what the transport recorded, and the
applications were handed what it consumed. -/
structure Tied (t : Transport σ) : Prop where
  keyed : Keyed t.nextLayer
  addressed : Addressed t.nextLayer
  enqueued : t.nextLayer.trace.enqueued.map Prod.snd = t.trace.enqueued
  handed : ∀ e, handedAt e t.nextLayer = entriesOf e (consumedValues t)

theorem eventRegister_nextLayer (op : Operation) (t : Transport σ) :
    (eventRegister op t).nextLayer = t.nextLayer := by
  obtain ⟨m, hm⟩ := eventRegister_eq op t
  rw [hm]

/-- **A callback** that hands over what the transport consumed since. -/
theorem tied_callback {s : DatagramDispatcher Collected (Application σ)} {t : Transport σ}
    {o : ManagerResult × DatagramDispatcher Collected (Application σ)}
    (hleft : Left (cleared s) o.2) (henqueued : s.trace.enqueued.map Prod.snd = t.trace.enqueued)
    (hhanded : ∀ e, handedAt e o.2 = entriesOf e (consumedValues t)) :
    Tied (callback eventRegister (answered o) t).2 := by
  obtain ⟨cs, hparent, hcollected⟩ := hleft.collects
  have hcs : o.2.parent.1 = cs := hparent.trans (List.nil_append cs)
  have hnext : (callback eventRegister (answered o) t).2.nextLayer = o.2 :=
    calls_nextLayer eventRegister_nextLayer o.2.parent.1 _
  obtain ⟨hpushed, hconsumed⟩ := calls_trace o.2.parent.1 { t with nextLayer := o.2 }
  refine ⟨?_, ?_, ?_, fun e => ?_⟩
  · rw [hnext]
    exact hleft.keyed
  · rw [hnext]
    exact hleft.addressed
  · rw [hnext, hcollected]
    refine Eq.trans ?_ hpushed.symm
    rw [hcs]
    exact congrArg (· ++ cs.filterMap Call.payload?) henqueued
  · rw [hnext, hhanded e]
    exact congrArg (fun l : List (List Byte × Endpoint) =>
      entriesOf e (l.map fun x => (x.2, x.1.map Byte.value))) hconsumed.symm

section Handlers

variable (app : NextLayer σ) {made : Application σ} (hmade : made.history = [])
  (hinit : ((logged app).init made).Returns fun r => r.2 = true)

omit hmade hinit in
/-- A callback that hands over nothing. -/
theorem tied_silent {t : Transport σ} (ht : Tied t)
    {o : ManagerResult × DatagramDispatcher Collected (Application σ)}
    (hleft : Left (cleared t.nextLayer) o.2) (hhanded : ∀ e, handedAt e o.2 = handedAt e t.nextLayer) :
    Tied (callback eventRegister (answered o) t).2 :=
  tied_callback hleft ht.enqueued fun e => (hhanded e).trans (ht.handed e)

omit hmade hinit in
theorem tied_fetchMoreData {t : Transport σ} (ht : Tied t) :
    Tied (fetchMoreData eventRegister (asNextLayer app made) t).2 := by
  have hloop : ∀ (i : ℕ) (t : Transport σ), Tied t →
      Tied (fetchLoop eventRegister (asNextLayer app made) i t) := by
    intro i
    induction i with
    | zero => exact fun _ h => h
    | succ i ih =>
      intro t h
      unfold fetchLoop
      split_ifs
      · exact ih _ (tied_silent h (produce_left (logged app) (s := cleared t.nextLayer) h.keyed h.addressed)
          (produce_handed app (s := cleared t.nextLayer) h.keyed))
      · exact h
      · exact h
  exact hloop t.config.maxConsecutiveFetches t ht

include hmade hinit

theorem tied_consume (span : List Byte) (ep : Endpoint) {t : Transport σ} (ht : Tied t) :
    Tied (consume eventRegister (asNextLayer app made) span ep t).2 := by
  refine tied_callback (s := t.nextLayer)
    (consume_left (logged app) made hinit (span.map Byte.value) ep (s := cleared t.nextLayer)
      ht.keyed ht.addressed) ht.enqueued fun e => ?_
  have hhanded := consume_handed app (s := cleared t.nextLayer) ht.keyed hmade hinit (span.map Byte.value) ep e
  refine hhanded.trans ?_
  rw [show handedAt e (cleared t.nextLayer) = _ from ht.handed e, ← entriesOf_append]
  refine congrArg (entriesOf e) (Eq.symm ?_)
  change (t.trace.consumed ++ [(span, ep)]).map _ = consumedValues t ++ _
  exact List.map_append

theorem tied_handleReadResult (ep : Endpoint) (readRes : ℤ) (temporary : Bool) {t : Transport σ}
    (ht : Tied t) :
    Tied (handleReadResult eventRegister (asNextLayer app made) ep readRes temporary t).2 := by
  have hframe : ∀ (t : Transport σ) (n : ℕ), Tied t → Tied { t with received := n } :=
    fun _ _ h => ⟨h.keyed, h.addressed, h.enqueued, h.handed⟩
  unfold handleReadResult
  by_cases hneg : readRes < 0
  · rw [if_pos hneg]
    exact ht
  · rw [if_neg hneg]
    dsimp only
    by_cases hmin : t.minReadSize ≤ t.received + readRes.toNat
    · rw [if_pos hmin]
      have hconsume := tied_consume app hmade hinit (span { t with received := t.received + readRes.toNat }) ep
        (hframe t (t.received + readRes.toNat) ht)
      generalize consume eventRegister (asNextLayer app made) _ ep _ = o at hconsume ⊢
      obtain ⟨v, t'⟩ := o
      cases v with
      | error => exact hconsume
      | ok | done | temporaryError => exact hframe t' 0 hconsume
    · rw [if_neg hmin]
      exact hframe t _ ht

theorem tied_readLoop (n : ℕ) (kernel : List ReadOutcome) {t : Transport σ} (ht : Tied t) :
    Tied (readLoop eventRegister (asNextLayer app made) n kernel t).2 := by
  induction n generalizing kernel t with
  | zero => exact ht
  | succ n ih =>
    unfold readLoop
    by_cases hspace : t.readBufferSize = 0
    · rw [if_pos hspace]
      exact ht
    · rw [if_neg hspace]
      have hrecv : Tied (t.recvfrom (kernel.headD (.failed true))).2.2 := by
        cases kernel.headD (.failed true) with
        | datagram source payload => exact ⟨ht.keyed, ht.addressed, ht.enqueued, ht.handed⟩
        | failed temporary => exact ht
      dsimp only
      have hread := tied_handleReadResult app hmade hinit (t.recvfrom (kernel.headD (.failed true))).1
        (t.recvfrom (kernel.headD (.failed true))).2.1 (kernel.headD (.failed true)).temporary hrecv
      generalize handleReadResult eventRegister (asNextLayer app made) _ _ _ _ = o at hread ⊢
      obtain ⟨v, t'⟩ := o
      cases v with
      | ok => exact ih kernel.tail hread
      | error | done | temporaryError => exact hread

end Handlers

/-- One `sendto` and its result are not seen by the dispatcher. -/
theorem tied_send (t : Transport σ) (d : Datagram) (outcome : SendOutcome)
    (_hd : t.writeQueue.elems[0]? = some d) (ht : Tied t) :
    Tied ((t.sendto d outcome).2.2.handleWriteResult (toInt (t.sendto d outcome).1)
      (t.sendto d outcome).2.1 0 d).2 := by
  have hsendto : Tied (t.sendto d outcome).2.2 := by
    cases outcome with
    | sent =>
      unfold sendto
      split_ifs
      · exact ⟨ht.keyed, ht.addressed, ht.enqueued, ht.handed⟩
      · exact ht
    | failed temporary => exact ht
  generalize t.sendto d outcome = o at hsendto ⊢
  obtain ⟨res, temporary, t'⟩ := o
  have hwritten : Tied (written 0 d t') := by
    unfold written returnBuffer
    dsimp only
    split_ifs
    · exact ⟨hsendto.keyed, hsendto.addressed, hsendto.enqueued, hsendto.handed⟩
    · exact ⟨hsendto.keyed, hsendto.addressed, hsendto.enqueued, hsendto.handed⟩
  unfold handleWriteResult
  split_ifs
  · exact ⟨hsendto.keyed, hsendto.addressed, hsendto.enqueued, hsendto.handed⟩
  · exact hsendto
  · exact hsendto
  · exact hwritten

/-! ### Runs -/

/-- No one but the applications enqueues. -/
def Quiet : Datagrams.Model.Event → Prop
  | .call c => c.payload? = none
  | _ => True

variable (app : NextLayer σ) {made : Application σ}

theorem tied_start (made : Application σ) (id : UInt64) (beyond : ℕ → UInt8) (config : TransportConfig) :
    Tied (Session.start eventRegister (asNextLayer app made) Operation.none { parent := ([], id) } beyond
      config).transport where
  keyed := fun _ _ hl => by cases hl
  addressed := fun _ hx => by cases hx
  enqueued := rfl
  handed := fun _ => rfl

theorem tied_step (hmade : made.history = []) (hinit : ((logged app).init made).Returns fun r => r.2 = true)
    (s : Session Operation (DatagramDispatcher Collected (Application σ))) (e : Datagrams.Model.Event)
    (hs : Tied s.transport) (he : Quiet e) :
    Tied (s.step eventRegister (asNextLayer app made) e).transport := by
  unfold Session.step
  by_cases hfailed : s.failed = true
  · rw [if_pos hfailed]
    exact hs
  · rw [if_neg hfailed]
    cases e with
    | readEvent kernel => exact tied_readLoop app hmade hinit _ kernel hs
    | writeEvent kernel =>
      exact writeLoop_keeps (fun _ ht => tied_fetchMoreData app ht) tied_send _ kernel hs
    | timeout id =>
      exact tied_silent hs
        (handleTimeout_left (logged app) id (s := cleared s.transport.nextLayer) hs.keyed hs.addressed)
        (handleTimeout_handed app (s := cleared s.transport.nextLayer) hs.keyed id)
    | call c =>
      have hnext : (s.transport.call eventRegister c).nextLayer = s.transport.nextLayer :=
        calls_nextLayer eventRegister_nextLayer [c] s.transport
      obtain ⟨henqueued, hconsumed⟩ := calls_trace [c] s.transport
      have hnone : [c].filterMap Call.payload? = [] := by
        rw [List.filterMap_cons, show c.payload? = none from he, List.filterMap_nil]
      rw [hnone, List.append_nil] at henqueued
      change Tied (s.transport.call eventRegister c)
      refine ⟨?_, ?_, ?_, fun e => ?_⟩
      · rw [hnext]
        exact hs.keyed
      · rw [hnext]
        exact hs.addressed
      · rw [hnext, hs.enqueued]
        exact henqueued.symm
      · rw [hnext, hs.handed e]
        exact congrArg (fun l : List (List Byte × Endpoint) =>
          entriesOf e (l.map fun x => (x.2, x.1.map Byte.value))) hconsumed.symm

/-! ### One endpoint -/

/-- The payloads that the application of an endpoint was handed. -/
def handedTo (e : Endpoint) (t : Transport σ) : List (List UInt8) := handedAt e t.nextLayer

/-- The payloads that the transport consumed from an endpoint. -/
def consumedFrom (e : Endpoint) (t : Transport σ) : List (List UInt8) := entriesOf e (consumedValues t)

/-- The payloads that the application of an endpoint enqueued. -/
def enqueuedBy (e : Endpoint) (t : Transport σ) : List (List UInt8) :=
  (entriesOf e t.nextLayer.trace.enqueued).map Prod.fst

theorem payloadsFor_append (e : Endpoint) (l l' : List (List UInt8 × Endpoint)) :
    payloadsFor e (l ++ l') = payloadsFor e l ++ payloadsFor e l' := by
  unfold payloadsFor
  rw [List.filter_append, List.map_append]

/-- **A session of its own**: the application is handed what was consumed from its endpoint, and what it
enqueues is sent to its endpoint or still queued for it, each in order. -/
structure Apart (e : Endpoint) (t : Transport σ) : Prop where
  incoming : handedTo e t = consumedFrom e t
  outgoing : payloadsFor e t.trace.sent ++ payloadsFor e (t.writeQueue.elems.map Datagram.message) =
    enqueuedBy e t

theorem Tied.apart {t : Transport σ} (h : Tied t) (hf : Faithful t) (e : Endpoint) : Apart e t where
  incoming := h.handed e
  outgoing := by
    rw [← payloadsFor_append, hf.rest, ← h.enqueued]
    exact payloadsFor_enqueued e _ h.addressed

/-- **Sessions over one socket.** If applications always initialize and no one else enqueues, then in
every state of every run every endpoint has a session of its own. -/
theorem sessions_apart (app : NextLayer σ) (number : ℕ) (made : σ)
    (hinit : (app.init made).Returns fun r => r.2 = true) (id : UInt64) (beyond : ℕ → UInt8)
    (config : TransportConfig) (es : List Datagrams.Model.Event) (hes : ∀ e ∈ es, Quiet e) :
    Always (Session.step eventRegister (asNextLayer app ⟨number, [], made⟩)) (fun s => ∀ e, Apart e s.transport)
      (Session.start eventRegister (asNextLayer app ⟨number, [], made⟩) Operation.none { parent := ([], id) } beyond config)
      es := by
  have hlogged : ((logged app).init (⟨number, [], made⟩ : Application σ)).Returns fun r => r.2 = true :=
    Script.returns_map.mpr hinit
  have hkeeps := always_of_along
    (I := fun s : Session Operation (DatagramDispatcher Collected (Application σ)) =>
      Tied s.transport ∧ Faithful s.transport)
    (fun s e hs he => ⟨tied_step app rfl hlogged s e hs.1 he,
      faithful_step (eventRegistration _) (asNextLayer app ⟨number, [], made⟩) s e hs.2⟩)
    ⟨tied_start app ⟨number, [], made⟩ id beyond config,
      faithful_start (eventRegistration _) (asNextLayer app ⟨number, [], made⟩) Operation.none { parent := ([], id) } beyond
        config⟩
    (along_of_mem _ hes)
  exact hkeeps.imp fun s hs e => hs.1.apart hs.2 e

/-- An application that answers every datagram with a copy, and has a greeting to produce. -/
def greeter : NextLayer Bool where
  init _ := .done (true, true)
  hasMoreData s := s
  produce _ := .tell (.enqueue [0]) (.done (false, .ok))
  consume s data := .tell (.enqueue data) (.done (s, .ok))
  handleTimeout s _ := .done (s, .ok)

/-- Two peers whose datagrams alternate. -/
def twoPeers : List Datagrams.Model.Event :=
  [.call (.configureNextRead ⟨1, 8⟩),
    .readEvent [.datagram ⟨1, 1⟩ [7], .datagram ⟨2, 2⟩ [8], .datagram ⟨1, 1⟩ [9]],
    .writeEvent [.sent, .sent]]

/-- The transport after it. -/
def afterTwoPeers : Session Operation (DatagramDispatcher Collected (Application Bool)) :=
  run (Session.step eventRegister (asNextLayer greeter ⟨0, [], false⟩))
    (Session.start eventRegister (asNextLayer greeter ⟨0, [], false⟩) Operation.none { parent := ([], 0) }
      (fun _ => 0) {}) twoPeers

/-- Both are answered; what the socket did not take is queued behind. -/
theorem sessions_apart_twoPeers :
    (∀ e, Apart e afterTwoPeers.transport) ∧
      handedTo ⟨1, 1⟩ afterTwoPeers.transport = [[7], [9]] ∧
      handedTo ⟨2, 2⟩ afterTwoPeers.transport = [[8]] ∧
      payloadsFor ⟨1, 1⟩ afterTwoPeers.transport.trace.sent = [[7]] ∧
      enqueuedBy ⟨1, 1⟩ afterTwoPeers.transport = [[7], [9], [0]] := by
  have hquiet : ∀ e ∈ twoPeers, Quiet e := by
    unfold twoPeers
    intro e he
    simp only [List.mem_cons, List.not_mem_nil, or_false] at he
    rcases he with rfl | rfl | rfl
    · rfl
    · trivial
    · trivial
  have hruns := sessions_apart greeter 0 false rfl 0 (fun _ => 0) {} twoPeers hquiet
  exact ⟨hruns.last, by decide +kernel⟩

end NetworkDriver.Net.Dispatcher.Routing
