import NetworkDriver.Net.Multiplexer.Epoll.Mirror

/-! # Errors and hang-ups under epoll

epoll reports errors and hang-ups unasked, alone or with other flags. `handle_events` removes a manager
if its event has exactly the flags `EPOLLHUP | EPOLLRDHUP | EPOLLERR`, and looks at `EPOLLIN` and
`EPOLLOUT` otherwise.

* `serviced_iff`: an event calls a handler of its manager or removes it if and only if it has exactly
  these flags, or says that the manager can read or write.
* `heeded_iff`: so it is for all errors and hang-ups of a run.
* `hangup_unheeded`: the hang-up of the pipe reader after `shutdown` is ignored for ever. -/

namespace NetworkDriver.Net.Multiplexer.Epoll.Hangup

open NetworkDriver.Library.Keyed NetworkDriver.Library.Results
open NetworkDriver.Net.Types NetworkDriver.Net.Multiplexer.Base
open NetworkDriver.Net.Multiplexer.Epoll.Model NetworkDriver.Net.Multiplexer.Epoll.Mirror

variable {κ : Type}

/-- The event has a flag that removes its manager or calls a handler. -/
def Answered (flags : EpollFlags) : Prop :=
  flags = epollHup ||| epollRdHup ||| epollErr ∨ flags &&& epollIn = epollIn ∨
    flags &&& epollOut = epollOut

/-- The event reports an error or a hang-up. -/
def Alarming (flags : EpollFlags) : Prop :=
  flags &&& epollErr = epollErr ∨ flags &&& epollHup = epollHup

section Service

variable (ctl : EpollCtl κ) (interest : κ → SocketId → Option EpollFlags) (depth : ℕ)

/-- The event calls a handler of its manager, or removes the manager from the map and from the epoll
instance. -/
def Serviced (mgr : Manager) (event : Event) (s : EpollMultiplexer κ) : Prop :=
  ∀ s', handleEvent ctl depth event { s with derived.dispatches := [] } = .ok s' →
    (∃ d ∈ s'.derived.dispatches, d.mgr = mgr) ∨
      (mgr ∉ s'.managers.elems ∧ interest s'.derived.kernel mgr.handle = none)

/-- If the event is an error or a hang-up of a registered manager that is watched, then `C`. -/
def OnAlarm (C : Manager → Event → EpollMultiplexer κ → Prop) (event : Event)
    (s : EpollMultiplexer κ) : Prop :=
  ∀ mgr, s.managers.find? event.fd = some mgr → interest s.derived.kernel event.fd ≠ none →
    Alarming event.flags → C mgr event s

/-- Every event that a run dispatches meets `C` in the state in which it is handled. -/
def AlongDispatch (C : Event → EpollMultiplexer κ → Prop) : List Call → EpollMultiplexer κ → Prop :=
  AlongCalls ctl depth fun c s => ∀ events, c = .events events →
    AlongEvents ctl depth C events { s with derived.dispatches := [] }

/-- No error and no hang-up of a registered manager is ignored in a run. -/
def Heeded : List Call → EpollMultiplexer κ → Prop :=
  AlongDispatch ctl depth (OnAlarm interest (Serviced ctl interest depth))

end Service

variable {ctl : EpollCtl κ} {interest : κ → SocketId → Option EpollFlags} {depth : ℕ}
  {s s' : EpollMultiplexer κ} {mgr : Manager}

/-! ### One event -/

/-- A dispatch is recorded. -/
theorem dispatch_recorded {handler : Handler} {kind op : Operation} {further : Bool}
    (h : dispatch ctl depth mgr handler kind op s = .ok (further, s')) :
    ∃ d ∈ s'.derived.dispatches, d.mgr = mgr := by
  obtain ⟨s₁, -, h⟩ := bind_eq_ok.mp h
  obtain ⟨⟨further', s₂⟩, -, h⟩ := bind_eq_ok.mp h
  obtain ⟨rfl, rfl⟩ := Prod.mk.inj (Except.ok.inj h)
  exact ⟨_, List.mem_append_right _ List.mem_cons_self, rfl⟩

theorem handleWrite_recorded {event : Event} (hout : event.flags &&& epollOut = epollOut)
    (h : handleWrite ctl depth mgr event s = .ok s') : ∃ d ∈ s'.derived.dispatches, d.mgr = mgr := by
  unfold handleWrite at h
  rw [if_pos hout] at h
  split_ifs at h
  obtain ⟨⟨further, s₁⟩, hok, rfl⟩ := map_eq_ok.mp h
  exact dispatch_recorded hok

/-- An event with `EPOLLIN` or `EPOLLOUT` calls a handler. -/
theorem handleEvent_recorded {event : Event} (hreg : s.managers.find? event.fd = some mgr)
    (hhup : event.flags ≠ epollHup ||| epollRdHup ||| epollErr)
    (hready : event.flags &&& epollIn = epollIn ∨ event.flags &&& epollOut = epollOut)
    (h : handleEvent ctl depth event s = .ok s') : ∃ d ∈ s'.derived.dispatches, d.mgr = mgr := by
  unfold handleEvent at h
  rw [if_neg hhup] at h
  simp only [hreg] at h
  by_cases hin : event.flags &&& epollIn = epollIn
  · rw [if_pos hin] at h
    obtain ⟨⟨further, s₁⟩, hok, h⟩ := bind_eq_ok.mp h
    have hlog := dispatch_recorded hok
    cases further with
    | false =>
      obtain rfl := Except.ok.inj h
      exact hlog
    | true =>
      by_cases hout : event.flags &&& epollOut = epollOut
      · exact handleWrite_recorded hout h
      · simp only [↓reduceIte, handleWrite, hout] at h
        obtain rfl := Except.ok.inj h
        exact hlog
  · rw [if_neg hin] at h
    exact handleWrite_recorded (hready.resolve_left hin) h

/-- An event with exactly the three flags removes its manager. -/
theorem handleEvent_removes (hK : Instance ctl (fun _ => True) interest) {event : Event}
    (hfd : mgr.handle = event.fd) (hlisted : interest s.derived.kernel event.fd ≠ none)
    (hhup : event.flags = epollHup ||| epollRdHup ||| epollErr)
    (h : handleEvent ctl depth event s = .ok s') :
    mgr ∉ s'.managers.elems ∧ interest s'.derived.kernel mgr.handle = none := by
  obtain ⟨hdel, -, hint⟩ :=
    hK.del s.derived.kernel event.fd (toEpollFlag Operation.none) trivial hlisted
  unfold handleEvent del at h
  rw [if_pos hhup, mod_ok _ hdel] at h
  obtain rfl := Except.ok.inj h
  constructor
  · intro hmem
    rw [erased_managers, KeyedMap.mem_erase] at hmem
    exact hmem.2 hfd
  · rw [erased_derived, hfd]
    exact (congrFun hint event.fd).trans (Function.update_self _ _ _)

/-- An event that is not answered changes nothing. -/
theorem handleEvent_ignored {event : Event} (hreg : s.managers.find? event.fd = some mgr)
    (hno : ¬ Answered event.flags) : handleEvent ctl depth event s = .ok s := by
  obtain ⟨hhup, hno⟩ := not_or.mp hno
  obtain ⟨hin, hout⟩ := not_or.mp hno
  unfold handleEvent handleWrite
  simp only [hhup, hreg, hin, hout, ↓reduceIte]

/-- **An event is serviced if and only if it is answered**, for every state of the multiplexer in which
its manager is registered and watched. -/
theorem serviced_iff (hK : Instance ctl (fun _ => True) interest) {event : Event}
    (hreg : s.managers.find? event.fd = some mgr)
    (hlisted : interest s.derived.kernel event.fd ≠ none) :
    Serviced ctl interest depth mgr event s ↔ Answered event.flags := by
  obtain ⟨hmgr, hfd⟩ := KeyedMap.find?_eq_some.mp hreg
  have hreg' : ({ s with derived.dispatches := [] } : EpollMultiplexer κ).managers.find? event.fd =
      some mgr := hreg
  constructor
  · intro h
    by_contra hno
    rcases h _ (handleEvent_ignored hreg' hno) with ⟨d, hd, -⟩ | ⟨hgone, -⟩
    · exact absurd hd List.not_mem_nil
    · exact hgone hmgr
  · intro h s' hok
    by_cases hhup : event.flags = epollHup ||| epollRdHup ||| epollErr
    · refine Or.inr (handleEvent_removes hK hfd ?_ hhup hok)
      exact hlisted
    · exact Or.inl (handleEvent_recorded hreg' hhup (h.resolve_left hhup) hok)

/-! ### Runs -/

theorem alongEvents_congr {C D : Event → EpollMultiplexer κ → Prop} (h : ∀ e s, C e s ↔ D e s)
    {events : List Event} : AlongEvents ctl depth C events s ↔ AlongEvents ctl depth D events s := by
  induction events generalizing s with
  | nil => exact Iff.rfl
  | cons event events ih => exact and_congr (h event s) (forall₂_congr fun s' _ => ih)

theorem alongCalls_congr {C D : Call → EpollMultiplexer κ → Prop} (h : ∀ c s, C c s ↔ D c s)
    {cs : List Call} : AlongCalls ctl depth C cs s ↔ AlongCalls ctl depth D cs s := by
  induction cs generalizing s with
  | nil => exact Iff.rfl
  | cons c cs ih => exact and_congr (h c s) (forall₂_congr fun s' _ => ih)

/-- **No error and no hang-up is ignored in a run if and only if each of them has exactly the three
flags, or comes with `EPOLLIN` or `EPOLLOUT`**, for every run from every state. -/
theorem heeded_iff (hK : Instance ctl (fun _ => True) interest) (depth : ℕ) (cs : List Call)
    (s : EpollMultiplexer κ) :
    Heeded ctl interest depth cs s ↔
      AlongDispatch ctl depth (OnAlarm interest fun _ event _ => Answered event.flags) cs s := by
  have hevent : ∀ event s, OnAlarm interest (Serviced ctl interest depth) event s ↔
      OnAlarm interest (fun _ event _ => Answered event.flags) event s := by
    intro event s
    exact forall_congr' fun mgr => forall₃_congr fun hreg hlisted _ => serviced_iff hK hreg hlisted
  exact alongCalls_congr fun c s => forall₂_congr fun events _ => alongEvents_congr hevent

/-- What every event of the calls meets in any state, the events of a run meet. -/
theorem alongDispatch_of_mem {C : Event → EpollMultiplexer κ → Prop} {cs : List Call}
    (h : ∀ events, Call.events events ∈ cs → ∀ event ∈ events, ∀ s, C event s) :
    AlongDispatch ctl depth C cs s := by
  have hevents : ∀ (events : List Event) (s : EpollMultiplexer κ), (∀ event ∈ events, ∀ s, C event s) →
      AlongEvents ctl depth C events s := by
    intro events
    induction events with
    | nil => exact fun _ _ => trivial
    | cons event events ih =>
      intro s hall
      exact ⟨hall event List.mem_cons_self s, fun s' _ =>
        ih s' fun e he => hall e (List.mem_cons_of_mem _ he)⟩
  unfold AlongDispatch
  induction cs generalizing s with
  | nil => trivial
  | cons c cs ih =>
    refine ⟨fun events hc => hevents events _ (h events (hc ▸ List.mem_cons_self)), fun s' _ => ?_⟩
    exact ih fun events hmem => h events (List.mem_cons_of_mem _ hmem)

/-- A multiplexer whose pipe reader is the socket 3, as it is constructed. -/
def piped : EpollMultiplexer (SocketId → Option EpollFlags) :=
  { MultiplexerBase.init ⟨fun _ => none, []⟩ with pipeReader := 3, pipeWriter := 4, running := true }

/-- The updater is added, and a manager on the socket 5. The pipe reader hangs up while there is something
to read, and the other socket has failed. -/
def erring : List Call :=
  [.act (.add ⟨0, 3⟩ Operation.read [] false), .act (.add ⟨1, 5⟩ Operation.readWrite [] false),
    .events [⟨3, epollIn ||| epollHup, ⟨[], .ok⟩, ⟨[], .ok⟩⟩,
      ⟨5, epollHup ||| epollRdHup ||| epollErr, ⟨[], .ok⟩, ⟨[], .ok⟩⟩]]

/-- The read handler of the updater is called, and the other manager is removed. -/
theorem heeded_iff_erring :
    Heeded flagCtl (fun k => k) 1 erring piped ∧
      (calls flagCtl 1 erring piped).map (fun s => (s.managers.elems, s.derived.dispatches.map Dispatch.mgr)) =
        .ok ([⟨0, 3⟩], [⟨0, 3⟩]) := by
  refine ⟨(heeded_iff flagCtl_instance 1 erring piped).mpr (alongDispatch_of_mem ?_), by decide +kernel⟩
  intro events hmem event hevent s mgr _ _ _
  unfold erring at hmem
  simp only [List.mem_cons, List.not_mem_nil, reduceCtorEq, Call.events.injEq, false_or, or_false] at hmem
  subst hmem
  rcases List.mem_cons.mp hevent with rfl | hevent
  · exact .inr (.inl (by decide))
  · obtain rfl := List.mem_singleton.mp hevent
    exact .inl rfl

/-! ### The pipe reader after `shutdown` -/

/-- The updater is added, and `shutdown` is called on the thread of the multiplexer. -/
def closing : List Call := [.act (.add ⟨0, 3⟩ Operation.read [] false), .act .shutdown]

/-- The write end of the pipe is closed. -/
def hangup : Event := ⟨3, epollHup, ⟨[], .ok⟩, ⟨[], .ok⟩⟩

/-- The state after `shutdown`. -/
def closed : EpollMultiplexer (SocketId → Option EpollFlags) :=
  match calls flagCtl 1 closing piped with
  | .ok s => s
  | .error _ => piped

/-- **The hang-up of the pipe reader is ignored**, as often as it is reported: the updater stays
registered and watched. -/
theorem hangup_unheeded :
    calls flagCtl 1 closing piped = .ok closed ∧
      closed.managers.find? hangup.fd = some ⟨0, 3⟩ ∧ closed.derived.kernel hangup.fd ≠ none ∧
      Alarming hangup.flags ∧ ¬ Serviced flagCtl (fun k => k) 1 ⟨0, 3⟩ hangup closed ∧
      ∀ n, calls flagCtl 1 (List.replicate n (.events [hangup])) closed = .ok closed := by
  have hreg : closed.managers.find? hangup.fd = some ⟨0, 3⟩ := rfl
  have hlisted : closed.derived.kernel hangup.fd ≠ none := by decide +kernel
  refine ⟨rfl, hreg, hlisted, Or.inr rfl, ?_, fun n => ?_⟩
  · intro h
    rcases h _ rfl with ⟨d, hd, -⟩ | ⟨hgone, -⟩
    · exact absurd hd List.not_mem_nil
    · exact hgone (KeyedMap.find?_eq_some.mp hreg).1
  · induction n with
    | zero => rfl
    | succ n ih => exact ih

end NetworkDriver.Net.Multiplexer.Epoll.Hangup
