import NetworkDriver.Net.Dispatcher.Isolation

/-! # The applications of a dispatcher

A layer is an application that the factory made. `Application` is a layer with the number of the
call of the factory that made it and with the calls of its functions so far; no function reads them.
`Host` is a dispatcher of such layers, with what was made, seen and fired, and its events are the
calls of `consume`, `produce` and `handle_timeout`. The factory is an argument of `try_emplace` and
is called for every datagram.

* `consume_cases`, `handleTimeout_cases`, `produce_cases`: what one call does to the layers.
* `onePerEndpoint_iff`: exactly when every endpoint has one application. -/

namespace NetworkDriver.Net.Dispatcher.Applications

open NetworkDriver.Library.Keyed NetworkDriver.Library.Run NetworkDriver.Library.Scripts
open NetworkDriver.Net.Types NetworkDriver.Net.Dispatcher.Model NetworkDriver.Net.Dispatcher.Isolation
open NetworkDriver.Net.Datagrams.Model (Endpoint)
open DatagramDispatcher

variable {π σ : Type}

/-- A call of a function of an application. -/
inductive LayerCall where
  | init (success : Bool)
  | produce
  | consume (data : List UInt8)
  | handleTimeout (id : UInt64)
  deriving DecidableEq

def LayerCall.isInit : LayerCall → Bool
  | .init _ => true
  | _ => false

/-- An application, with the call of the factory that made it and the calls of its functions. -/
structure Application (σ : Type) where
  number : ℕ
  history : List LayerCall := []
  state : σ
  deriving DecidableEq

/-- After a call, in a new state. -/
def Application.after (a : Application σ) (call : LayerCall) (state : σ) : Application σ :=
  { a with history := a.history ++ [call], state := state }

/-- The functions of an application, with their calls recorded. -/
def logged (app : NextLayer σ) : NextLayer (Application σ) where
  init a := (app.init a.state).map fun r => (a.after (.init r.2) r.1, r.2)
  hasMoreData a := app.hasMoreData a.state
  produce a := (app.produce a.state).map fun r => (a.after .produce r.1, r.2)
  consume a data := (app.consume a.state data).map fun r => (a.after (.consume data) r.1, r.2)
  handleTimeout a id := (app.handleTimeout a.state id).map fun r => (a.after (.handleTimeout id) r.1, r.2)

/-- A dispatcher of applications: the endpoint for each call of the factory, those of the datagrams,
and the ids of the timeouts that fired. -/
structure Host (π σ : Type) where
  dispatcher : DatagramDispatcher π (Application σ)
  made : List Endpoint := []
  seen : List Endpoint := []
  fired : List UInt64 := []

/-- A call of the dispatcher; the order of the map is any one when it produces. -/
inductive HostEvent where
  | consume (data : List UInt8) (ep : Endpoint)
  | produce (order : List Endpoint)
  | handleTimeout (id : UInt64)
  deriving DecidableEq

section Step

variable (par : Parent π) (app : NextLayer σ) (factory : ℕ → σ)

/-- What the next call of the factory makes. -/
def nextMade (h : Host π σ) : Application σ := ⟨h.made.length, [], factory h.made.length⟩

/-- The map of the layers in another order. -/
def rearranged (order : List Endpoint) (s : DatagramDispatcher π (Application σ)) :
    DatagramDispatcher π (Application σ) :=
  { s with layers := s.layers.arrange order }

/-- One call. -/
def hostStep (h : Host π σ) : HostEvent → Host π σ
  | .consume data ep =>
    { h with
      dispatcher := (h.dispatcher.consume par (logged app) (nextMade factory h) data ep).2
      made := h.made ++ [ep]
      seen := h.seen ++ [ep] }
  | .produce order =>
    { h with dispatcher := ((rearranged order h.dispatcher).produce par (logged app)).2 }
  | .handleTimeout id =>
    { h with
      dispatcher := (h.dispatcher.handleTimeout par (logged app) id).2
      fired := h.fired ++ [id] }

/-- What `init` of a new layer for the endpoint answers. -/
def initAnswer (made : σ) (ep : Endpoint) (s : DatagramDispatcher π σ) : Bool :=
  (runLayer par ep ⟨ep, made⟩ (app.init made) { s with layers := s.layers.emplace (ep, ⟨ep, made⟩) }).1

end Step

/-! ### What a call does -/

/-- Every wrapper has the endpoint it is kept under. -/
def Keyed (s : DatagramDispatcher π σ) : Prop := ∀ e l, s.layers.find? e = some l → l.2.ep = e

/-- The application of an endpoint. -/
def applicationOf (e : Endpoint) (s : DatagramDispatcher π (Application σ)) : Option (Application σ) :=
  layerState e s

/-- The application of `ep` is now `a`, and all others are as they were. -/
structure Becomes (ep : Endpoint) (a : Application σ) (s s' : DatagramDispatcher π (Application σ)) :
    Prop where
  layers : ∀ e, s'.layers.find? e = if e = ep then some (ep, ⟨ep, a⟩) else s.layers.find? e

/-- An application after a call. -/
def Called (call : LayerCall) (a a' : Application σ) : Prop :=
  a'.number = a.number ∧ a'.history = a.history ++ [call]

theorem Becomes.applicationOf {ep : Endpoint} {a : Application σ}
    {s s' : DatagramDispatcher π (Application σ)} (h : Becomes ep a s s') (e : Endpoint) :
    applicationOf e s' = if e = ep then some a else applicationOf e s := by
  unfold Applications.applicationOf layerState
  rw [h.layers]
  split_ifs <;> rfl

theorem Becomes.keyed {ep : Endpoint} {a : Application σ} {s s' : DatagramDispatcher π (Application σ)}
    (h : Becomes ep a s s') (hs : Keyed s) : Keyed s' := by
  intro e l hl
  rw [h.layers] at hl
  split_ifs at hl with he
  · obtain rfl := Option.some.inj hl
    exact he.symm
  · exact hs e l hl

theorem find?_of_applicationOf {s : DatagramDispatcher π (Application σ)} (hs : Keyed s) {e : Endpoint}
    {a : Application σ} (h : applicationOf e s = some a) : s.layers.find? e = some (e, ⟨e, a⟩) := by
  unfold applicationOf layerState at h
  obtain ⟨⟨key, ep, state⟩, hfind, rfl⟩ := Option.map_eq_some_iff.mp h
  obtain rfl : key = e := (KeyedMap.find?_eq_some.mp hfind).2
  obtain rfl : ep = key := hs _ _ hfind
  exact hfind

theorem applicationOf_mem {s : DatagramDispatcher π (Application σ)}
    {l : Endpoint × EndpointWrapper (Application σ)} (hl : l ∈ s.layers.elems) :
    applicationOf l.1 s = some l.2.nextLayer := by
  have hfind : s.layers.find? l.1 = some l := KeyedMap.find?_eq_some.mpr ⟨hl, rfl⟩
  unfold applicationOf layerState
  rw [hfind]
  rfl

theorem exists_mem_of_applicationOf {s : DatagramDispatcher π (Application σ)} {e : Endpoint}
    {a : Application σ} (ha : applicationOf e s = some a) :
    ∃ l ∈ s.layers.elems, l.1 = e ∧ l.2.nextLayer = a := by
  unfold applicationOf layerState at ha
  obtain ⟨l, hfind, hl⟩ := Option.map_eq_some_iff.mp ha
  obtain ⟨hmem, hkey⟩ := KeyedMap.find?_eq_some.mp hfind
  exact ⟨l, hmem, hkey, hl⟩

theorem applicationOf_eq_none {s : DatagramDispatcher π (Application σ)} {e : Endpoint} :
    applicationOf e s = none ↔ s.layers.find? e = none := Option.map_eq_none_iff

variable (par : Parent π) (app : NextLayer σ)

/-- **A function of an application runs.** -/
theorem runLayer_becomes {β : Type} {ep : Endpoint} {a : Application σ}
    {s : DatagramDispatcher π (Application σ)} (hfind : s.layers.find? ep = some (ep, ⟨ep, a⟩))
    {p : Application σ × β → Prop} {script : LayerScript (Application σ × β)} (hscript : script.Returns p) :
    ∃ a', p (a', (runLayer par ep ⟨ep, a⟩ script s).1) ∧
      Becomes ep a' s (runLayer par ep ⟨ep, a⟩ script s).2 := by
  obtain ⟨ids, next, hran⟩ := runLayer_ran par hfind rfl script
  exact ⟨next, Script.returns_feed hscript hran.feed, ⟨hran.layers⟩⟩

theorem logged_returns {β : Type} (a : Application σ) (call : LayerCall) (script : LayerScript (σ × β)) :
    (script.map fun r => (a.after call r.1, r.2)).Returns fun r => Called call a r.1 :=
  Script.returns_map.mpr (Script.returns_of_forall (fun _ => ⟨rfl, rfl⟩) script)

theorem wrapperConsume_becomes {ep : Endpoint} {a : Application σ}
    {s : DatagramDispatcher π (Application σ)} (hfind : s.layers.find? ep = some (ep, ⟨ep, a⟩))
    (data : List UInt8) :
    ∃ a', Called (.consume data) a a' ∧
      Becomes ep a' s (wrapperConsume par (logged app) ep ⟨ep, a⟩ data ep s).2 := by
  unfold wrapperConsume
  rw [if_neg (not_not.mpr rfl)]
  obtain ⟨a', hcalled, hbecomes⟩ := runLayer_becomes par (s := { s with
    trace := { s.trace with delivered := s.trace.delivered ++ [(ep, .consume data)] } })
    hfind (logged_returns a (.consume data) (app.consume a.state data))
  exact ⟨a', hcalled, ⟨hbecomes.layers⟩⟩

/-- What `consume` does to the application of the endpoint: to one that is there, and to a new one. -/
inductive Consumed (made : Application σ) (data : List UInt8) (answer : Bool) :
    Option (Application σ) → Application σ → Prop
  | known {a a'} (h : Called (.consume data) a a') : Consumed made data answer (some a) a'
  | opened {a'} (hanswer : answer = true) (hnumber : a'.number = made.number)
      (hhistory : a'.history = made.history ++ [.init true, .consume data]) :
      Consumed made data answer none a'
  | failed {a'} (hanswer : answer = false) (hnumber : a'.number = made.number)
      (hhistory : a'.history = made.history ++ [.init false]) : Consumed made data answer none a'

/-- **A call of `consume`.** -/
theorem consume_cases {s : DatagramDispatcher π (Application σ)} (hs : Keyed s) (made : Application σ)
    (data : List UInt8) (ep : Endpoint) :
    ∃ a, Consumed made data (initAnswer par (logged app) made ep s) (applicationOf ep s) a ∧
      Becomes ep a s (s.consume par (logged app) made data ep).2 := by
  unfold DatagramDispatcher.consume nextLayer
  cases happ : applicationOf ep s with
  | some a =>
    have hfind := find?_of_applicationOf hs happ
    rw [hfind]
    obtain ⟨a', hcalled, hbecomes⟩ := wrapperConsume_becomes par app hfind data
    exact ⟨a', .known hcalled, hbecomes⟩
  | none =>
    have hnone := applicationOf_eq_none.mp happ
    rw [hnone]
    set s₀ : DatagramDispatcher π (Application σ) :=
      { s with layers := s.layers.emplace (ep, ⟨ep, made⟩) } with hs₀
    have hlayers₀ : ∀ e, s₀.layers.find? e = if e = ep then some (ep, ⟨ep, made⟩) else s.layers.find? e := by
      intro e
      change (s.layers.emplace _).find? e = _
      rw [KeyedMap.find?_emplace_eq]
      by_cases he : e = ep
      · rw [he, hnone, if_pos rfl]
        rfl
      · rw [if_neg he, if_neg (Ne.symm he), Option.or_none]
    have hfind₀ : s₀.layers.find? ep = some (ep, ⟨ep, made⟩) := by
      rw [hlayers₀, if_pos rfl]
    have hinit : ((logged app).init made).Returns fun r => Called (.init r.2) made r.1 :=
      Script.returns_map.mpr (Script.returns_of_forall (fun _ => ⟨rfl, rfl⟩) _)
    obtain ⟨a₁, hcalled₁, hbecomes₁⟩ := runLayer_becomes par hfind₀ hinit
    have hfirst : Becomes ep a₁ s (runLayer par ep ⟨ep, made⟩ ((logged app).init made) s₀).2 := by
      refine ⟨fun e => ?_⟩
      rw [hbecomes₁.layers, hlayers₀]
      split_ifs <;> rfl
    have hfound : (runLayer par ep ⟨ep, made⟩ ((logged app).init made) s₀).2.layers.find? ep =
        some (ep, ⟨ep, a₁⟩) := by
      rw [hfirst.layers, if_pos rfl]
    have hanswer : (runLayer par ep ⟨ep, made⟩ ((logged app).init made) s₀).1 =
        initAnswer par (logged app) made ep s := rfl
    dsimp only
    rw [← hs₀, hanswer]
    cases hsuccess : initAnswer par (logged app) made ep s with
    | false =>
      rw [hanswer, hsuccess] at hcalled₁
      exact ⟨a₁, .failed rfl hcalled₁.1 hcalled₁.2, hfirst⟩
    | true =>
      rw [hanswer, hsuccess] at hcalled₁
      rw [if_pos rfl, hfound]
      obtain ⟨a₂, hcalled₂, hbecomes₂⟩ := wrapperConsume_becomes par app hfound data
      refine ⟨a₂, .opened rfl (hcalled₂.1.trans hcalled₁.1) ?_, ⟨fun e => ?_⟩⟩
      · rw [hcalled₂.2, hcalled₁.2, List.append_assoc]
        rfl
      · refine (hbecomes₂.layers e).trans ?_
        rw [hfirst.layers]
        split_ifs <;> rfl

/-- **A call of `handle_timeout`.** -/
theorem handleTimeout_cases {s : DatagramDispatcher π (Application σ)} (hs : Keyed s) (id : UInt64) :
    (s.handleTimeout par (logged app) id).2 = s ∨
      ∃ ep a a', applicationOf ep s = some a ∧ Called (.handleTimeout id) a a' ∧
        Becomes ep a' s (s.handleTimeout par (logged app) id).2 := by
  unfold DatagramDispatcher.handleTimeout
  cases s.timeouts.find? id with
  | none => exact .inl rfl
  | some timeout =>
    dsimp only
    cases happ : applicationOf timeout.2 s with
    | none =>
      rw [applicationOf_eq_none.mp happ]
      exact .inl rfl
    | some a =>
      have hfind := find?_of_applicationOf hs happ
      rw [hfind]
      obtain ⟨a', hcalled, hbecomes⟩ :=
        runLayer_becomes par (s := { s with
          trace := { s.trace with delivered := s.trace.delivered ++ [(timeout.2, .handleTimeout id)] } })
          hfind (logged_returns a (.handleTimeout id) (app.handleTimeout a.state id))
      exact .inr ⟨timeout.2, a, a', happ, hcalled, ⟨hbecomes.layers⟩⟩

/-- The layers that the loop of `produce` comes to. -/
def visited (app : NextLayer σ) :
    List (Endpoint × EndpointWrapper σ) → DatagramDispatcher π σ → List (Endpoint × EndpointWrapper σ)
  | [], _ => []
  | l :: ls, s =>
    match runLayer par l.1 l.2 (app.produce l.2.nextLayer) s with
    | (.ok, s) => l :: visited app ls s
    | _ => [l]

theorem visited_initial (app : NextLayer σ) (ls : List (Endpoint × EndpointWrapper σ))
    (s : DatagramDispatcher π σ) : visited par app ls s <+: ls := by
  induction ls generalizing s with
  | nil => exact List.prefix_rfl
  | cons l ls ih =>
    unfold visited
    split
    · exact (List.prefix_cons_inj l).mpr (ih _)
    · exact ⟨ls, rfl⟩

/-- The layers that the loop comes to are called, and no other; `p` is what a call of `produce`
does. -/
theorem produceLoop_layers {p : Application σ → Application σ → Prop}
    (hp : ∀ a, ((logged app).produce a).Returns fun r => p a r.1)
    {ls : List (Endpoint × EndpointWrapper (Application σ))}
    {s : DatagramDispatcher π (Application σ)} (hnodup : (ls.map Prod.fst).Nodup)
    (hls : ∀ l ∈ ls, l.2.ep = l.1 ∧ s.layers.find? l.1 = some l) :
    (∀ l ∈ visited par (logged app) ls s, ∃ a, p l.2.nextLayer a ∧
        (produceLoop par (logged app) ls s).2.layers.find? l.1 = some (l.1, ⟨l.1, a⟩)) ∧
      ∀ e, e ∉ (visited par (logged app) ls s).map Prod.fst →
        (produceLoop par (logged app) ls s).2.layers.find? e = s.layers.find? e := by
  induction ls generalizing s with
  | nil => exact ⟨fun l hl => absurd hl List.not_mem_nil, fun e _ => rfl⟩
  | cons l ls ih =>
    obtain ⟨hl, hnodupRest⟩ := List.nodup_cons.mp hnodup
    obtain ⟨hfirst, hrest⟩ := List.forall_mem_cons.mp hls
    obtain ⟨key, ep, a⟩ := l
    obtain ⟨hep, hfind⟩ := hfirst
    obtain rfl : ep = key := hep
    obtain ⟨a', hcalled, hbecomes⟩ := runLayer_becomes par hfind (hp a)
    unfold visited produceLoop
    generalize hrun : runLayer par ep ⟨ep, a⟩ ((logged app).produce a) s = o
    have hlayers : ∀ e, o.2.layers.find? e = if e = ep then some (ep, ⟨ep, a'⟩) else s.layers.find? e := by
      rw [← hrun]
      exact hbecomes.layers
    have hlater : ∀ l ∈ ls, l.2.ep = l.1 ∧ o.2.layers.find? l.1 = some l := by
      intro l hmem
      refine ⟨(hrest l hmem).1, ?_⟩
      have hne : l.1 ≠ ep := fun heq => hl (List.mem_map.mpr ⟨l, hmem, heq⟩)
      rw [hlayers, if_neg hne]
      exact (hrest l hmem).2
    obtain ⟨verdict, s₁⟩ := o
    have hstop : (∀ l ∈ [(ep, (⟨ep, a⟩ : EndpointWrapper (Application σ)))], ∃ a,
          p l.2.nextLayer a ∧ s₁.layers.find? l.1 = some (l.1, ⟨l.1, a⟩)) ∧
        ∀ e, e ∉ [ep] → s₁.layers.find? e = s.layers.find? e := by
      constructor
      · intro l hmem
        obtain rfl := List.mem_singleton.mp hmem
        refine ⟨a', hcalled, ?_⟩
        exact (hlayers ep).trans (if_pos rfl)
      · intro e he
        exact (hlayers e).trans (if_neg fun heq => he (List.mem_singleton.mpr heq))
    cases verdict with
    | ok =>
      obtain ⟨hvisited, hother⟩ := ih hnodupRest hlater
      have hnot : ep ∉ (visited par (logged app) ls s₁).map Prod.fst := fun hmem =>
        hl (((visited_initial par (logged app) ls s₁).sublist.map Prod.fst).subset hmem)
      constructor
      · intro l hmem
        rcases List.mem_cons.mp hmem with rfl | hmem
        · refine ⟨a', hcalled, ?_⟩
          exact (hother ep hnot).trans ((hlayers ep).trans (if_pos rfl))
        · exact hvisited l hmem
      · intro e he
        obtain ⟨hne, he⟩ := List.ne_and_not_mem_of_not_mem_cons he
        exact (hother e he).trans ((hlayers e).trans (if_neg hne))
    | done => exact hstop
    | error => exact hstop
    | temporaryError => exact hstop

/-- **A call of `produce`.** -/
theorem produce_cases {p : Application σ → Application σ → Prop}
    (hp : ∀ a, ((logged app).produce a).Returns fun r => p a r.1)
    {s : DatagramDispatcher π (Application σ)} (hs : Keyed s) :
    (∀ l ∈ visited par (logged app) s.layers.elems s, ∃ a, p l.2.nextLayer a ∧
        applicationOf l.1 (s.produce par (logged app)).2 = some a) ∧
      (∀ e, e ∉ (visited par (logged app) s.layers.elems s).map Prod.fst →
        applicationOf e (s.produce par (logged app)).2 = applicationOf e s) ∧
      Keyed (s.produce par (logged app)).2 := by
  have hls : ∀ l ∈ s.layers.elems, l.2.ep = l.1 ∧ s.layers.find? l.1 = some l := by
    intro l hl
    have hfind : s.layers.find? l.1 = some l := KeyedMap.find?_eq_some.mpr ⟨hl, rfl⟩
    exact ⟨hs _ _ hfind, hfind⟩
  obtain ⟨hvisited, hother⟩ := produceLoop_layers par app hp s.layers.nodup hls
  refine ⟨fun l hl => ?_, fun e he => ?_, fun e l hl => ?_⟩
  · obtain ⟨a, hcalled, hfind⟩ := hvisited l hl
    refine ⟨a, hcalled, ?_⟩
    unfold applicationOf layerState DatagramDispatcher.produce
    rw [hfind]
    rfl
  · unfold applicationOf layerState DatagramDispatcher.produce
    rw [hother e he]
  · unfold DatagramDispatcher.produce at hl
    by_cases he : e ∈ (visited par (logged app) s.layers.elems s).map Prod.fst
    · obtain ⟨l', hl', rfl⟩ := List.mem_map.mp he
      obtain ⟨a, -, hfind⟩ := hvisited l' hl'
      rw [hfind] at hl
      obtain rfl := Option.some.inj hl
      rfl
    · rw [hother e he] at hl
      exact hs e l hl

theorem produce_returns (a : Application σ) :
    ((logged app).produce a).Returns fun r => Called .produce a r.1 :=
  logged_returns a .produce (app.produce a.state)

/-- Each application is as it was, or its `produce` was called. -/
theorem produce_called {p : Application σ → Application σ → Prop}
    (hp : ∀ a, ((logged app).produce a).Returns fun r => p a r.1)
    {s : DatagramDispatcher π (Application σ)} (hs : Keyed s) (e : Endpoint) :
    applicationOf e (s.produce par (logged app)).2 = applicationOf e s ∨
      ∃ a a', applicationOf e s = some a ∧ p a a' ∧
        applicationOf e (s.produce par (logged app)).2 = some a' := by
  obtain ⟨hvisited, hother, -⟩ := produce_cases par app hp hs
  by_cases he : e ∈ (visited par (logged app) s.layers.elems s).map Prod.fst
  · obtain ⟨l, hl, rfl⟩ := List.mem_map.mp he
    obtain ⟨a', hcalled, happ⟩ := hvisited l hl
    have hmem := (visited_initial par (logged app) s.layers.elems s).subset hl
    exact .inr ⟨l.2.nextLayer, a', applicationOf_mem hmem, hcalled, happ⟩
  · exact .inl (hother e he)

/-! ### Hosts -/

/-- An application after any calls but `init`. -/
def Continues (a a' : Application σ) : Prop :=
  a'.number = a.number ∧ ∃ calls, (∀ c ∈ calls, LayerCall.isInit c = false) ∧ a'.history = a.history ++ calls

theorem Continues.refl (a : Application σ) : Continues a a :=
  ⟨rfl, [], fun _ h => absurd h List.not_mem_nil, (List.append_nil _).symm⟩

theorem Called.continues {call : LayerCall} {a a' : Application σ} (h : Called call a a')
    (hcall : call.isInit = false) : Continues a a' :=
  ⟨h.1, [call], fun _ hc => List.mem_singleton.mp hc ▸ hcall, h.2⟩

/-- The endpoints with an application have been seen, and wrappers are where they belong. -/
structure Known (h : Host π σ) : Prop where
  keyed : Keyed h.dispatcher
  seen : ∀ ep a, applicationOf ep h.dispatcher = some a → ep ∈ h.seen

theorem rearranged_keyed {s : DatagramDispatcher π (Application σ)} (hs : Keyed s) (order : List Endpoint) :
    Keyed (rearranged order s) := by
  intro e l hl
  refine hs e l ?_
  rw [← hl]
  exact (KeyedMap.find?_arrange _ _ _).symm

theorem applicationOf_rearranged (order : List Endpoint) (s : DatagramDispatcher π (Application σ))
    (e : Endpoint) : applicationOf e (rearranged order s) = applicationOf e s := by
  unfold applicationOf layerState rearranged
  rw [KeyedMap.find?_arrange]

variable (factory : ℕ → σ) {h : Host π σ} (hk : Known h)

/-- What `init` of the application that would be made next answers. -/
def nextAnswer (par : Parent π) (app : NextLayer σ) (factory : ℕ → σ) (h : Host π σ)
    (ep : Endpoint) : Bool :=
  initAnswer par (logged app) (nextMade factory h) ep h.dispatcher

include hk

/-- An application that is there stays, and is not initialized again. -/
theorem hostStep_continues (ev : HostEvent) {e : Endpoint} {a : Application σ}
    (ha : applicationOf e h.dispatcher = some a) :
    ∃ a', applicationOf e (hostStep par app factory h ev).dispatcher = some a' ∧ Continues a a' := by
  cases ev with
  | consume data ep =>
    obtain ⟨a', hconsumed, hbecomes⟩ := consume_cases par app hk.keyed (nextMade factory h) data ep
    have happ := hbecomes.applicationOf e
    by_cases he : e = ep
    · subst he
      rw [if_pos rfl] at happ
      rw [ha] at hconsumed
      cases hconsumed with
      | known hcalled => exact ⟨a', happ, hcalled.continues rfl⟩
    · rw [if_neg he, ha] at happ
      exact ⟨a, happ, .refl a⟩
  | produce order =>
    rw [← applicationOf_rearranged order] at ha
    rcases produce_called par app (produce_returns app) (rearranged_keyed hk.keyed order) e
      with hsame | ⟨b, a', hb, hcalled, ha'⟩
    · exact ⟨a, hsame.trans ha, .refl a⟩
    · obtain rfl := Option.some.inj (ha.symm.trans hb)
      exact ⟨a', ha', hcalled.continues rfl⟩
  | handleTimeout id =>
    rcases handleTimeout_cases par app hk.keyed id with hsame | ⟨ep, b, a', hb, hcalled, hbecomes⟩
    · refine ⟨a, ?_, .refl a⟩
      change applicationOf e (h.dispatcher.handleTimeout par (logged app) id).2 = some a
      rw [hsame, ha]
    · have happ := hbecomes.applicationOf e
      by_cases he : e = ep
      · subst he
        rw [if_pos rfl] at happ
        obtain rfl := Option.some.inj (ha.symm.trans hb)
        exact ⟨a', happ, hcalled.continues rfl⟩
      · rw [if_neg he, ha] at happ
        exact ⟨a, happ, .refl a⟩

/-- A new application is the one made for a datagram, initialized once. -/
theorem hostStep_new (ev : HostEvent) {e : Endpoint} (hnone : applicationOf e h.dispatcher = none)
    {a : Application σ} (ha : applicationOf e (hostStep par app factory h ev).dispatcher = some a) :
    ∃ data, ev = .consume data e ∧ a.number = h.made.length ∧
      if nextAnswer par app factory h e then a.history = [.init true, .consume data]
      else a.history = [.init false] := by
  cases ev with
  | consume data ep =>
    obtain ⟨a', hconsumed, hbecomes⟩ := consume_cases par app hk.keyed (nextMade factory h) data ep
    have happ := (hbecomes.applicationOf e).symm.trans ha
    by_cases he : e = ep
    · subst he
      rw [if_pos rfl] at happ
      obtain rfl := Option.some.inj happ
      rw [hnone] at hconsumed
      refine ⟨data, rfl, ?_⟩
      unfold nextAnswer
      cases hconsumed with
      | opened hanswer hnumber hhistory =>
        rw [hanswer, if_pos rfl]
        exact ⟨hnumber, hhistory⟩
      | failed hanswer hnumber hhistory =>
        rw [hanswer, if_neg Bool.false_ne_true]
        exact ⟨hnumber, hhistory⟩
    · rw [if_neg he, hnone] at happ
      cases happ
  | produce order =>
    rw [← applicationOf_rearranged order] at hnone
    rcases produce_called par app (produce_returns app) (rearranged_keyed hk.keyed order) e
      with hsame | ⟨b, a', hb, -, -⟩
    · have hboth := (hsame.trans hnone).symm.trans ha
      cases hboth
    · rw [hnone] at hb
      cases hb
  | handleTimeout id =>
    rcases handleTimeout_cases par app hk.keyed id with hsame | ⟨ep, b, a', hb, hcalled, hbecomes⟩
    · change applicationOf e (h.dispatcher.handleTimeout par (logged app) id).2 = some a at ha
      rw [hsame, hnone] at ha
      cases ha
    · have happ := (hbecomes.applicationOf e).symm.trans ha
      by_cases he : e = ep
      · subst he
        rw [hnone] at hb
        cases hb
      · rw [if_neg he, hnone] at happ
        cases happ

theorem hostStep_consume (data : List UInt8) (ep : Endpoint) :
    ∃ a, applicationOf ep (hostStep par app factory h (.consume data ep)).dispatcher = some a := by
  obtain ⟨a, -, hbecomes⟩ := consume_cases par app hk.keyed (nextMade factory h) data ep
  refine ⟨a, ?_⟩
  have happ := hbecomes.applicationOf ep
  rw [if_pos rfl] at happ
  exact happ

theorem hostStep_known (ev : HostEvent) : Known (hostStep par app factory h ev) := by
  have hseen : h.seen ⊆ (hostStep par app factory h ev).seen := by
    cases ev with
    | consume data ep => exact List.subset_append_left _ _
    | produce order => exact List.Subset.refl _
    | handleTimeout id => exact List.Subset.refl _
  refine ⟨?_, fun ep a ha => ?_⟩
  · cases ev with
    | consume data ep =>
      obtain ⟨a, -, hbecomes⟩ := consume_cases par app hk.keyed (nextMade factory h) data ep
      exact hbecomes.keyed hk.keyed
    | produce order =>
      have hkeyed := rearranged_keyed hk.keyed order
      exact (produce_cases par app (produce_returns app) hkeyed).2.2
    | handleTimeout id =>
      rcases handleTimeout_cases par app hk.keyed id with hsame | ⟨ep, b, a', hb, hcalled, hbecomes⟩
      · have hkeyed := hk.keyed
        rw [← hsame] at hkeyed
        exact hkeyed
      · exact hbecomes.keyed hk.keyed
  · cases hbefore : applicationOf ep h.dispatcher with
    | some b => exact hseen (hk.seen ep b hbefore)
    | none =>
      obtain ⟨data, rfl, -⟩ := hostStep_new par app factory hk ev hbefore ha
      exact List.mem_append_right _ (List.mem_singleton_self ep)

omit hk

theorem known_fresh (parent : π) : Known ({ dispatcher := { parent := parent } } : Host π σ) := by
  refine ⟨fun e l hl => ?_, fun ep a ha => ?_⟩
  · cases hl
  · cases ha

/-! ### One application for each endpoint -/

/-- The factory was called once for each endpoint seen, and what it made is stored there and was
initialized once. -/
structure OnePerEndpoint (h : Host π σ) : Prop where
  once : ∀ ep, h.made.count ep = if ep ∈ h.seen then 1 else 0
  stored : ∀ n ep, h.made[n]? = some ep → ∃ a, applicationOf ep h.dispatcher = some a ∧ a.number = n ∧
    a.history.countP LayerCall.isInit = 1

/-- No datagram came from its endpoint before. -/
def FirstDatagram (h : Host π σ) : HostEvent → Prop
  | .consume _ ep => ep ∉ h.seen
  | _ => True

theorem onePerEndpoint_fresh (parent : π) :
    OnePerEndpoint ({ dispatcher := { parent := parent } } : Host π σ) :=
  ⟨fun _ => rfl, fun _ _ hn => by cases hn⟩

theorem Continues.countP {a a' : Application σ} (hc : Continues a a') :
    a'.history.countP LayerCall.isInit = a.history.countP LayerCall.isInit := by
  obtain ⟨-, calls, hcalls, hhistory⟩ := hc
  rw [hhistory, List.countP_append]
  have hzero : calls.countP LayerCall.isInit = 0 :=
    List.countP_eq_zero.mpr fun c hc => by rw [hcalls c hc]; exact Bool.false_ne_true
  rw [hzero, Nat.add_zero]

/-- What was stored stays stored. -/
theorem stored_step (hk : Known h) (hone : OnePerEndpoint h) (ev : HostEvent) {n : ℕ} {ep : Endpoint}
    (hn : h.made[n]? = some ep) :
    ∃ a, applicationOf ep (hostStep par app factory h ev).dispatcher = some a ∧ a.number = n ∧
      a.history.countP LayerCall.isInit = 1 := by
  obtain ⟨a, ha, hnumber, hinit⟩ := hone.stored n ep hn
  obtain ⟨a', ha', hcontinues⟩ := hostStep_continues par app factory hk ev ha
  exact ⟨a', ha', hcontinues.1.trans hnumber, hcontinues.countP.trans hinit⟩

theorem onePerEndpoint_step (hk : Known h) (hone : OnePerEndpoint h) (ev : HostEvent) :
    OnePerEndpoint (hostStep par app factory h ev) ↔ FirstDatagram h ev := by
  cases ev with
  | produce order =>
    exact ⟨fun _ => trivial, fun _ => ⟨hone.once, fun n ep hn => stored_step par app factory hk hone _ hn⟩⟩
  | handleTimeout id =>
    exact ⟨fun _ => trivial, fun _ => ⟨hone.once, fun n ep hn => stored_step par app factory hk hone _ hn⟩⟩
  | consume data ep =>
    constructor
    · intro hafter hseen
      have hcount := hafter.once ep
      change (h.made ++ [ep]).count ep = if ep ∈ h.seen ++ [ep] then 1 else 0 at hcount
      rw [List.count_append, hone.once ep, if_pos hseen, List.count_singleton_self,
        if_pos (List.mem_append_left _ hseen)] at hcount
      omega
    · intro hfirst
      refine ⟨fun e => ?_, fun n e hn => ?_⟩
      · change (h.made ++ [ep]).count e = if e ∈ h.seen ++ [ep] then 1 else 0
        rw [List.count_append, hone.once e]
        by_cases he : e = ep
        · subst he
          rw [if_neg hfirst, if_pos (List.mem_append_right _ (List.mem_singleton_self e)),
            List.count_singleton_self]
        · have hnot : e ∉ [ep] := fun hmem => he (List.mem_singleton.mp hmem)
          rw [List.count_eq_zero.mpr hnot, Nat.add_zero]
          simp [he]
      · change (h.made ++ [ep])[n]? = some e at hn
        by_cases hlt : n < h.made.length
        · rw [List.getElem?_append_left hlt] at hn
          exact stored_step par app factory hk hone _ hn
        · have hnone : applicationOf ep h.dispatcher = none := by
            by_contra hsome
            obtain ⟨b, hb⟩ := Option.ne_none_iff_exists'.mp hsome
            exact hfirst (hk.seen ep b hb)
          rw [List.getElem?_append_right (not_lt.mp hlt), List.getElem?_singleton] at hn
          split_ifs at hn with hzero
          obtain rfl := Option.some.inj hn
          obtain ⟨a, ha⟩ := hostStep_consume par app factory hk data ep
          obtain ⟨data', -, hnumber, hhistory⟩ := hostStep_new par app factory hk _ hnone ha
          refine ⟨a, ha, by omega, ?_⟩
          split_ifs at hhistory
          · rw [hhistory]
            rfl
          · rw [hhistory]
            rfl

/-- **Every endpoint has one application, in every state of a run, exactly if** no two datagrams
come from the same endpoint. -/
theorem onePerEndpoint_iff (par : Parent π) (app : NextLayer σ) (factory : ℕ → σ) (parent : π)
    (es : List HostEvent) :
    Always (hostStep par app factory) OnePerEndpoint { dispatcher := { parent := parent } } es ↔
      Along (hostStep par app factory) FirstDatagram { dispatcher := { parent := parent } } es := by
  have hknown : Along (hostStep par app factory) (fun h _ => Known h)
      { dispatcher := { parent := parent } } es :=
    Always.along (D := fun _ _ => True) (fun _ _ hk _ => hk)
      (always_of_step (fun _ ev hk => hostStep_known par app factory hk ev) es (known_fresh parent))
      (along_of_forall (fun _ _ => trivial) _ es)
  have hstep : ∀ (h : Host π σ) (ev : HostEvent), OnePerEndpoint h → Known h →
      (OnePerEndpoint (hostStep par app factory h ev) ↔ FirstDatagram h ev) :=
    fun h ev hone hk => onePerEndpoint_step par app factory hk hone ev
  exact always_iff_along hstep (onePerEndpoint_fresh parent) hknown

/-- The factory is called again for the second datagram of a peer. -/
theorem second_datagram_made :
    ¬∀ es : List HostEvent, Always (hostStep numberingParent alarmLayer fun _ => []) OnePerEndpoint
      { dispatcher := { parent := 0 } } es := by
  intro hall
  have hrun := hall [.consume [7] ⟨1, 1⟩, .consume [8] ⟨1, 1⟩]
  have hcount := hrun.last.once ⟨1, 1⟩
  exact absurd hcount (by decide +kernel)

end NetworkDriver.Net.Dispatcher.Applications
