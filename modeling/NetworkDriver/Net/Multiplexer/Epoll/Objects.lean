import NetworkDriver.Net.Multiplexer.Epoll.Membership

/-! # An object behind a manager

The handlers that `Epoll.Model` takes as given belong to objects that keep a state from one call to
the next. Here one manager has such an object, and its handlers are computed when they are called.
The callbacks of the object that answered `error` are recorded.

* `pollOnce_resolved`: what the multiplexer does is what `Epoll.Model` says of the handlers that
  were computed.
* `pollOnce_closes`: if the read handler of the object forwards the errors of its callbacks, the
  manager is gone after a `poll_once` in which only these answered `error`. -/

namespace NetworkDriver.Net.Multiplexer.Epoll.Objects

open NetworkDriver.Library.Keyed NetworkDriver.Library.Results NetworkDriver.Net.Types
open NetworkDriver.Net.Multiplexer.Base NetworkDriver.Net.Multiplexer.Epoll.Model
open NetworkDriver.Net.Multiplexer.Epoll.Membership

/-! ### Objects -/

/-- The callbacks of an application that answer a `manager_result`. -/
inductive Callback where
  | produce
  | consume
  | handleTimeout
  deriving DecidableEq, Repr

/-- What a handler of an object does: its acts and its verdict, the callbacks that answered `error`
meanwhile, in their order, and the object after it. -/
structure Reply (τ : Type) extends Handler where
  errors : List Callback
  object : τ

/-- An object with states `τ`; `ι` is what its handlers find in the world. -/
structure Object (ι τ : Type) where
  handleReadEvent : ι → τ → Reply τ
  handleWriteEvent : ι → τ → Reply τ
  handleTimeout : ι → UInt64 → τ → Reply τ

/-- The multiplexer, the state of the object, and the callbacks that answered `error` in the last
`poll_once`. -/
structure Hosted (κ τ : Type) where
  mpx : EpollMultiplexer κ
  object : τ
  errors : List Callback := []

/-- An event that `epoll_wait` reports, with the handlers of the managers without an object, and what a
handler of the object finds. -/
structure Wakeup (ι : Type) extends Event where
  input : ι

/-- What `epoll_wait` answers, as in `Epoll.Model`. -/
inductive Poll (ι : Type) where
  | failed (interrupted : Bool)
  | events (now : ℕ → ℤ) (onTimeout : ℕ → List Act) (input : ℕ → ι) (events : List (Wakeup ι))

variable {κ ι τ : Type}

/-- A handler that has nothing to do with the object. -/
def Reply.other (handler : Handler) (t : τ) : Reply τ := { handler with errors := [], object := t }

/-! ### The event loop -/

section Loop

-- `mgr` is the manager of the object
variable (ctl : EpollCtl κ) (depth : ℕ) (mgr : Manager) (obj : Object ι τ)

/-- `m->handle_read_event()`. -/
def replyRead (m : Manager) (w : Wakeup ι) (t : τ) : Reply τ :=
  if m = mgr then obj.handleReadEvent w.input t else .other w.onRead t

/-- `m->handle_write_event()`. -/
def replyWrite (m : Manager) (w : Wakeup ι) (t : τ) : Reply τ :=
  if m = mgr then obj.handleWriteEvent w.input t else .other w.onWrite t

/-- `m->handle_timeout(id)`. -/
def replyTimeout (m : Manager) (acts : List Act) (input : ι) (id : UInt64) (t : τ) : Reply τ :=
  if m = mgr then obj.handleTimeout input id t else .other ⟨acts, .ok⟩ t

/-- A handler of `m` is called and its verdict is handled. -/
def dispatchReply (m : Manager) (r : Reply τ) (kind op : Operation) (s : Hosted κ τ) :
    Except Fault (Bool × Hosted κ τ) :=
  (dispatch ctl depth m r.toHandler kind op s.mpx).map fun x =>
    (x.1, ⟨x.2, r.object, s.errors ++ r.errors⟩)

/-- The write part of an event. -/
def handleWrite (m : Manager) (w : Wakeup ι) (s : Hosted κ τ) : Except Fault (Hosted κ τ) :=
  if w.flags &&& epollOut = epollOut then
    if m ∈ s.mpx.managers.elems then
      (dispatchReply ctl depth m (replyWrite mgr obj m w s.object) Operation.write Operation.read s).map
        Prod.snd
    else .error .dangling
  else .ok s

/-- The body of the loop of `handle_events`. -/
def handleEvent (w : Wakeup ι) (s : Hosted κ τ) : Except Fault (Hosted κ τ) :=
  if w.flags = epollHup ||| epollRdHup ||| epollErr then
    (del ctl (shutdown ctl depth) w.fd s.mpx).map fun mpx => { s with mpx := mpx }
  else
    match s.mpx.managers.find? w.fd with
    | none => .ok s
    | some m =>
      if w.flags &&& epollIn = epollIn then do
        let (further, s) ← dispatchReply ctl depth m (replyRead mgr obj m w s.object) Operation.read
          Operation.read s
        if further then handleWrite ctl depth mgr obj m w s else return s
      else handleWrite ctl depth mgr obj m w s

/-- The loop of `handle_events`. -/
def eventLoop : List (Wakeup ι) → Hosted κ τ → Except Fault (Hosted κ τ)
  | [], s => .ok s
  | w :: ws, s => handleEvent ctl depth mgr obj w s >>= eventLoop ws

/-- `handle_events`. -/
def handleEvents (ws : List (Wakeup ι)) (s : Hosted κ τ) : Except Fault (Hosted κ τ) :=
  eventLoop ctl depth mgr obj ws { s with mpx.derived.dispatches := [] }

section Timeouts

variable (now : ℕ → ℤ) (onTimeout : ℕ → List Act) (input : ℕ → ι)

/-- The loop of `handle_timeouts`. The verdict of a handler is not looked at. -/
def expire : ℕ → List TimeoutEntry → Hosted κ τ → Except Fault (Hosted κ τ × List TimeoutEntry)
  | _, [], s => .ok (s, [])
  | k, e :: rest, s =>
    if e.hasExpired (now k) then
      match s.mpx.managers.find? e.handle with
      | none => .error .outOfRange
      | some m => do
        let r := replyTimeout mgr obj m (onTimeout k) (input k) e.id s.object
        let mpx ← performAll ctl depth r.acts s.mpx
        expire (k + 1) rest ⟨mpx, r.object, s.errors ++ r.errors⟩
    else .ok (s, e :: rest)

/-- `handle_timeouts`. -/
def handleTimeouts (s : Hosted κ τ) : Except Fault (Hosted κ τ) := do
  let mpx := { s.mpx with timeouts := s.mpx.cachedTimeouts, cachedTimeouts := s.mpx.timeouts }
  let (s, rest) ← expire ctl depth mgr obj now onTimeout input 0 mpx.cachedTimeouts.elems
    { s with mpx := mpx }
  let mpx := { s.mpx with timeouts := s.mpx.timeouts.insertAll rest, cachedTimeouts := .empty }
  return { s with mpx := { mpx with
    currentTimeout := mpx.timeouts.elems.head?.map TimeoutEntry.when } }

end Timeouts

/-- `poll_once`: whether it returns an error. -/
def pollOnce (poll : Poll ι) (s : Hosted κ τ) : Except Fault (Bool × Hosted κ τ) :=
  match poll with
  | .failed interrupted => .ok (!interrupted, { s with errors := [] })
  | .events now onTimeout input ws => do
    let s ← handleTimeouts ctl depth mgr obj now onTimeout input { s with errors := [] }
    let s ← handleEvents ctl depth mgr obj ws s
    return (false, s)

end Loop

/-! ### Errors of the object -/

/-- What the verdicts of an object make of the errors of its callbacks: the read handler forwards those
of `consume`, which are the only ones it meets; the other handlers meet none of them. -/
structure Forwards (obj : Object ι τ) : Prop where
  read : ∀ i t, (obj.handleReadEvent i t).errors ≠ [] → (obj.handleReadEvent i t).verdict = .error
  write : ∀ i t, Callback.consume ∉ (obj.handleWriteEvent i t).errors
  timeout : ∀ i id t, Callback.consume ∉ (obj.handleTimeout i id t).errors

section Runs

variable (ctl : EpollCtl κ) (depth : ℕ) (mgr : Manager) (obj : Object ι τ)

/-- Every event of a batch meets `C` in the state in which it is handled. -/
def AlongWakeups (C : Wakeup ι → Hosted κ τ → Prop) : List (Wakeup ι) → Hosted κ τ → Prop
  | [], _ => True
  | w :: ws, s =>
    C w s ∧ ∀ s', handleEvent ctl depth mgr obj w s = .ok s' → AlongWakeups C ws s'

/-- Every `poll_once` of a run meets `C` in the state in which it is called. -/
def AlongPolls (C : Poll ι → Hosted κ τ → Prop) : List (Poll ι) → Hosted κ τ → Prop
  | [], _ => True
  | poll :: polls, s =>
    C poll s ∧ ∀ failed s', pollOnce ctl depth mgr obj poll s = .ok (failed, s') →
      AlongPolls C polls s'

/-- If a callback of the object answers `error` in this `poll_once`, the manager is not registered any
more when it returns. -/
def Closes (poll : Poll ι) (s : Hosted κ τ) : Prop :=
  ∀ failed s', pollOnce ctl depth mgr obj poll s = .ok (failed, s') → s'.errors ≠ [] →
    mgr ∉ s'.mpx.managers.elems

/-- In this `poll_once` no callback but `consume` answers `error`. -/
def OnlyConsume (poll : Poll ι) (s : Hosted κ τ) : Prop :=
  ∀ failed s', pollOnce ctl depth mgr obj poll s = .ok (failed, s') → ∀ c ∈ s'.errors, c = .consume

/-- In this `poll_once` no handler of another manager that is called after an error of the object hands
its manager to `add` again. -/
def NoReturn (poll : Poll ι) (s : Hosted κ τ) : Prop :=
  ∀ now onTimeout input ws, poll = .events now onTimeout input ws →
    ∀ s', handleTimeouts ctl depth mgr obj now onTimeout input { s with errors := [] } = .ok s' →
      AlongWakeups ctl depth mgr obj
        (fun w s => s.errors ≠ [] → ¬ AddsAny mgr w.onRead.acts ∧ ¬ AddsAny mgr w.onWrite.acts) ws
        { s' with mpx.derived.dispatches := [] }

end Runs

variable {ctl : EpollCtl κ} {depth : ℕ} {mgr : Manager} {obj : Object ι τ}

/-! ### The handlers resolved -/

theorem dispatchReply_resolved {m : Manager} {r : Reply τ} {kind op : Operation} {further : Bool}
    {s s' : Hosted κ τ} (h : dispatchReply ctl depth m r kind op s = .ok (further, s')) :
    dispatch ctl depth m r.toHandler kind op s.mpx = .ok (further, s'.mpx) ∧ s'.object = r.object ∧
      s'.errors = s.errors ++ r.errors := by
  obtain ⟨x, hok, heq⟩ := map_eq_ok.mp h
  obtain ⟨rfl, rfl⟩ := Prod.mk.inj heq
  exact ⟨hok, rfl, rfl⟩

theorem handleWrite_resolved {m : Manager} {w : Wakeup ι} {s s' : Hosted κ τ}
    (h : handleWrite ctl depth mgr obj m w s = .ok s') (onRead : Handler) :
    Model.handleWrite ctl depth m
      ⟨w.fd, w.flags, onRead, (replyWrite mgr obj m w s.object).toHandler⟩ s.mpx = .ok s'.mpx := by
  unfold handleWrite at h
  unfold Model.handleWrite
  by_cases hout : w.flags &&& epollOut = epollOut
  · rw [if_pos hout] at h
    dsimp only
    rw [if_pos hout]
    split_ifs at h with hmem
    rw [if_pos hmem]
    obtain ⟨⟨further, s₁⟩, hok, rfl⟩ := map_eq_ok.mp h
    exact map_eq_ok.mpr ⟨_, (dispatchReply_resolved hok).1, rfl⟩
  · rw [if_neg hout] at h
    dsimp only
    rw [if_neg hout]
    obtain rfl := Except.ok.inj h
    rfl

/-- An event is handled as in `Epoll.Model`, with the handlers that are computed for it. -/
theorem handleEvent_resolved {w : Wakeup ι} {s s' : Hosted κ τ}
    (h : handleEvent ctl depth mgr obj w s = .ok s') :
    ∃ onRead onWrite, Model.handleEvent ctl depth ⟨w.fd, w.flags, onRead, onWrite⟩ s.mpx =
      .ok s'.mpx := by
  unfold handleEvent at h
  unfold Model.handleEvent
  by_cases hhup : w.flags = epollHup ||| epollRdHup ||| epollErr
  · rw [if_pos hhup] at h
    obtain ⟨mpx, hok, rfl⟩ := map_eq_ok.mp h
    refine ⟨w.onRead, w.onWrite, ?_⟩
    dsimp only
    rw [if_pos hhup]
    exact hok
  · rw [if_neg hhup] at h
    cases hfind : s.mpx.managers.find? w.fd with
    | none =>
      rw [hfind] at h
      obtain rfl := Except.ok.inj h
      refine ⟨w.onRead, w.onWrite, ?_⟩
      dsimp only
      rw [if_neg hhup, hfind]
    | some m =>
      rw [hfind] at h
      by_cases hin : w.flags &&& epollIn = epollIn
      · simp only [hin, ↓reduceIte] at h
        obtain ⟨⟨further, s₁⟩, hok, h⟩ := bind_eq_ok.mp h
        obtain ⟨hread, -, -⟩ := dispatchReply_resolved hok
        refine ⟨(replyRead mgr obj m w s.object).toHandler, (replyWrite mgr obj m w s₁.object).toHandler,
          ?_⟩
        dsimp only
        simp only [hhup, hfind, hin, ↓reduceIte]
        refine bind_eq_ok.mpr ⟨_, hread, ?_⟩
        cases further with
        | true => exact handleWrite_resolved h _
        | false =>
          obtain rfl := Except.ok.inj h
          rfl
      · simp only [hin, ↓reduceIte] at h
        refine ⟨w.onRead, (replyWrite mgr obj m w s.object).toHandler, ?_⟩
        dsimp only
        simp only [hhup, hfind, hin, ↓reduceIte]
        exact handleWrite_resolved h _

theorem eventLoop_resolved {ws : List (Wakeup ι)} {s s' : Hosted κ τ}
    (h : eventLoop ctl depth mgr obj ws s = .ok s') :
    ∃ events, Model.eventLoop ctl depth events s.mpx = .ok s'.mpx := by
  induction ws generalizing s with
  | nil =>
    obtain rfl := Except.ok.inj h
    exact ⟨[], rfl⟩
  | cons w ws ih =>
    obtain ⟨s₁, hok, h⟩ := bind_eq_ok.mp h
    obtain ⟨onRead, onWrite, hevent⟩ := handleEvent_resolved hok
    obtain ⟨events, hloop⟩ := ih h
    exact ⟨_ :: events, bind_eq_ok.mpr ⟨_, hevent, hloop⟩⟩

/-- The handlers before the `k`-th have no part in the rest of the loop of `handle_timeouts`. -/
theorem expire_congr {now : ℕ → ℤ} {f g : ℕ → List Act} {k : ℕ} (hfg : ∀ i, k ≤ i → f i = g i)
    (l : List TimeoutEntry) (s : EpollMultiplexer κ) :
    MultiplexerBase.expire (fun i _ _ => performAll ctl depth (f i)) now k l s =
      MultiplexerBase.expire (fun i _ _ => performAll ctl depth (g i)) now k l s := by
  induction l generalizing k s with
  | nil => rfl
  | cons e l ih =>
    unfold MultiplexerBase.expire
    rw [hfg k le_rfl]
    have hrest : ∀ s', MultiplexerBase.expire (fun i _ _ => performAll ctl depth (f i)) now (k + 1) l s' =
        MultiplexerBase.expire (fun i _ _ => performAll ctl depth (g i)) now (k + 1) l s' :=
      ih fun i hi => hfg i (by omega)
    simp only [hrest]

theorem expire_resolved {now : ℕ → ℤ} {onTimeout : ℕ → List Act} {input : ℕ → ι} {k : ℕ}
    {l rest : List TimeoutEntry} {s s' : Hosted κ τ}
    (h : expire ctl depth mgr obj now onTimeout input k l s = .ok (s', rest)) :
    ∃ acts : ℕ → List Act, MultiplexerBase.expire (fun i _ _ => performAll ctl depth (acts i)) now k l
      s.mpx = .ok (s'.mpx, rest) := by
  induction l generalizing k s with
  | nil =>
    obtain ⟨rfl, rfl⟩ := Prod.mk.inj (Except.ok.inj h)
    exact ⟨onTimeout, rfl⟩
  | cons e l ih =>
    unfold expire at h
    by_cases hx : e.hasExpired (now k)
    · rw [if_pos hx] at h
      cases hfind : s.mpx.managers.find? e.handle with
      | none =>
        rw [hfind] at h
        cases h
      | some m =>
        rw [hfind] at h
        set r := replyTimeout mgr obj m (onTimeout k) (input k) e.id s.object
        obtain ⟨mpx, hmpx, h⟩ := bind_eq_ok.mp h
        obtain ⟨acts, hacts⟩ := ih h
        -- the handler that was computed is the `k`-th one
        refine ⟨Function.update acts k r.acts, ?_⟩
        unfold MultiplexerBase.expire
        rw [if_pos hx, hfind]
        refine bind_eq_ok.mpr ⟨mpx, ?_, ?_⟩
        · rw [Function.update_self]
          exact hmpx
        · rw [← hacts]
          refine expire_congr (fun i hi => ?_) l mpx
          have hne : i ≠ k := by omega
          exact Function.update_of_ne hne _ _
    · rw [if_neg hx] at h
      obtain ⟨rfl, rfl⟩ := Prod.mk.inj (Except.ok.inj h)
      refine ⟨onTimeout, ?_⟩
      unfold MultiplexerBase.expire
      rw [if_neg hx]

/-- **A `poll_once` is one of `Epoll.Model`**, with the handlers that are computed in it. -/
theorem pollOnce_resolved {poll : Poll ι} {failed : Bool} {s s' : Hosted κ τ}
    (h : pollOnce ctl depth mgr obj poll s = .ok (failed, s')) :
    ∃ resolved, Model.pollOnce ctl depth resolved s.mpx = .ok (failed, s'.mpx) := by
  cases poll with
  | failed interrupted =>
    obtain ⟨rfl, rfl⟩ := Prod.mk.inj (Except.ok.inj h)
    exact ⟨.failed interrupted, rfl⟩
  | events now onTimeout input ws =>
    obtain ⟨s₁, htimeouts, h⟩ := bind_eq_ok.mp h
    obtain ⟨s₂, hevents, h⟩ := bind_eq_ok.mp h
    obtain ⟨rfl, rfl⟩ := Prod.mk.inj (Except.ok.inj h)
    obtain ⟨⟨s₃, rest⟩, hexpire, htimeouts⟩ := bind_eq_ok.mp htimeouts
    obtain rfl := Except.ok.inj htimeouts
    obtain ⟨acts, hacts⟩ := expire_resolved hexpire
    obtain ⟨events, hloop⟩ := eventLoop_resolved hevents
    exact ⟨.events now acts events, bind_eq_ok.mpr ⟨_, bind_eq_ok.mpr ⟨_, hacts, rfl⟩,
      bind_eq_ok.mpr ⟨_, hloop, rfl⟩⟩⟩

/-! ### One event -/

/-- The manager of the object is not registered any more once a callback has answered `error`. -/
def Closed (mgr : Manager) (s : Hosted κ τ) : Prop :=
  s.errors ≠ [] → mgr ∉ s.mpx.managers.elems

/-- What a call adds to the record. -/
def Extends (s s' : Hosted κ τ) : Prop := ∃ new, s'.errors = s.errors ++ new

theorem Extends.refl (s : Hosted κ τ) : Extends s s := ⟨[], (List.append_nil _).symm⟩

theorem Extends.trans {s s' s'' : Hosted κ τ} (h : Extends s s') (h' : Extends s' s'') :
    Extends s s'' := by
  obtain ⟨new, heq⟩ := h
  obtain ⟨new', heq'⟩ := h'
  exact ⟨new ++ new', by rw [heq', heq, List.append_assoc]⟩

theorem Extends.mem {s s' : Hosted κ τ} (h : Extends s s') {c : Callback} (hc : c ∈ s.errors) :
    c ∈ s'.errors := by
  obtain ⟨new, heq⟩ := h
  rw [heq]
  exact List.mem_append_left _ hc

theorem handleWrite_extends {m : Manager} {w : Wakeup ι} {s s' : Hosted κ τ}
    (h : handleWrite ctl depth mgr obj m w s = .ok s') : Extends s s' := by
  unfold handleWrite at h
  split_ifs at h
  · obtain ⟨⟨further, s₁⟩, hok, rfl⟩ := map_eq_ok.mp h
    exact ⟨_, (dispatchReply_resolved hok).2.2⟩
  · obtain rfl := Except.ok.inj h
    exact Extends.refl s

theorem handleEvent_extends {w : Wakeup ι} {s s' : Hosted κ τ}
    (h : handleEvent ctl depth mgr obj w s = .ok s') : Extends s s' := by
  unfold handleEvent at h
  by_cases hhup : w.flags = epollHup ||| epollRdHup ||| epollErr
  · rw [if_pos hhup] at h
    obtain ⟨mpx, -, rfl⟩ := map_eq_ok.mp h
    exact Extends.refl _
  · rw [if_neg hhup] at h
    cases hfind : s.mpx.managers.find? w.fd with
    | none =>
      rw [hfind] at h
      obtain rfl := Except.ok.inj h
      exact Extends.refl s
    | some m =>
      rw [hfind] at h
      by_cases hin : w.flags &&& epollIn = epollIn
      · simp only [hin, ↓reduceIte] at h
        obtain ⟨⟨further, s₁⟩, hok, h⟩ := bind_eq_ok.mp h
        have hread : Extends s s₁ := ⟨_, (dispatchReply_resolved hok).2.2⟩
        cases further with
        | true => exact hread.trans (handleWrite_extends h)
        | false =>
          obtain rfl := Except.ok.inj h
          exact hread
      · simp only [hin, ↓reduceIte] at h
        exact handleWrite_extends h

theorem eventLoop_extends {ws : List (Wakeup ι)} {s s' : Hosted κ τ}
    (h : eventLoop ctl depth mgr obj ws s = .ok s') : Extends s s' := by
  induction ws generalizing s with
  | nil =>
    obtain rfl := Except.ok.inj h
    exact Extends.refl s
  | cons w ws ih =>
    obtain ⟨s₁, hok, h⟩ := bind_eq_ok.mp h
    exact (handleEvent_extends hok).trans (ih h)

/-- The read handler of any manager. An event that is processed further added nothing to the record. -/
theorem handleRead_closed (hobj : Forwards obj) {m : Manager} {w : Wakeup ι} {further : Bool}
    {s s' : Hosted κ τ} (hmem : m ∈ s.mpx.managers.elems)
    (h : dispatchReply ctl depth m (replyRead mgr obj m w s.object) Operation.read Operation.read s =
      .ok (further, s')) (hs : Closed mgr s) (hno : s.errors ≠ [] → ¬ AddsAny mgr w.onRead.acts) :
    Closed mgr s' ∧ (further = true → s'.errors = s.errors) := by
  obtain ⟨hdispatch, -, herrors⟩ := dispatchReply_resolved h
  unfold replyRead at hdispatch herrors
  by_cases hown : m = mgr
  · subst hown
    rw [if_pos rfl] at hdispatch herrors
    have hnone : s.errors = [] := by
      by_contra hne
      exact hs hne hmem
    by_cases hnew : (obj.handleReadEvent w.input s.object).errors = []
    · rw [hnew, List.append_nil] at herrors
      exact ⟨fun hne => absurd (herrors.trans hnone) hne, fun _ => herrors⟩
    · -- the verdict takes the manager away
      obtain ⟨hstop, hgone⟩ := dispatch_error (hobj.read _ _ hnew) hdispatch
      exact ⟨fun _ => hgone, fun hfurther => absurd hfurther (by rw [hstop]; simp)⟩
  · rw [if_neg hown] at hdispatch herrors
    have hsame : s'.errors = s.errors := herrors.trans (List.append_nil _)
    refine ⟨fun hne => ?_, fun _ => hsame⟩
    rw [hsame] at hne
    exact dispatch_absent (hno hne) (hs hne) hdispatch

/-- The write handler of any manager, if no callback but `consume` answers `error`. -/
theorem handleWrite_closed (hobj : Forwards obj) {m : Manager} {w : Wakeup ι} {s s' : Hosted κ τ}
    (h : handleWrite ctl depth mgr obj m w s = .ok s') (hs : Closed mgr s)
    (honly : ∀ c ∈ s'.errors, c = .consume)
    (hno : s.errors ≠ [] → ¬ AddsAny mgr w.onWrite.acts) : Closed mgr s' := by
  unfold handleWrite at h
  by_cases hout : w.flags &&& epollOut = epollOut
  · rw [if_pos hout] at h
    split_ifs at h with hmem
    obtain ⟨⟨further, s₁⟩, hok, rfl⟩ := map_eq_ok.mp h
    obtain ⟨hdispatch, -, herrors⟩ := dispatchReply_resolved hok
    -- a write handler adds nothing to the record
    have hnew : (replyWrite mgr obj m w s.object).errors = [] := by
      refine List.eq_nil_iff_forall_not_mem.mpr fun c hc => ?_
      have hconsume : c = .consume := honly c (by rw [herrors]; exact List.mem_append_right _ hc)
      subst hconsume
      unfold replyWrite at hc
      split_ifs at hc
      · exact hobj.write _ _ hc
      · cases hc
    rw [hnew, List.append_nil] at herrors
    intro hne
    rw [herrors] at hne
    have hgone : mgr ∉ s.mpx.managers.elems := hs hne
    have hother : m ≠ mgr := fun heq => hgone (heq ▸ hmem)
    have hacts : ¬ AddsAny mgr (replyWrite mgr obj m w s.object).acts := by
      unfold replyWrite
      rw [if_neg hother]
      exact hno hne
    exact dispatch_absent hacts hgone hdispatch
  · rw [if_neg hout] at h
    obtain rfl := Except.ok.inj h
    exact hs

/-- **One event.** -/
theorem handleEvent_closed (hobj : Forwards obj) {w : Wakeup ι} {s s' : Hosted κ τ}
    (h : handleEvent ctl depth mgr obj w s = .ok s') (hs : Closed mgr s)
    (honly : ∀ c ∈ s'.errors, c = .consume)
    (hno : s.errors ≠ [] → ¬ AddsAny mgr w.onRead.acts ∧ ¬ AddsAny mgr w.onWrite.acts) :
    Closed mgr s' := by
  unfold handleEvent at h
  by_cases hhup : w.flags = epollHup ||| epollRdHup ||| epollErr
  · rw [if_pos hhup] at h
    obtain ⟨mpx, hok, rfl⟩ := map_eq_ok.mp h
    exact fun hne hm => hs hne (del_removes (shutdown_fewer depth) _ hok hm).1
  · rw [if_neg hhup] at h
    cases hfind : s.mpx.managers.find? w.fd with
    | none =>
      rw [hfind] at h
      obtain rfl := Except.ok.inj h
      exact hs
    | some m =>
      rw [hfind] at h
      have hmem : m ∈ s.mpx.managers.elems := (KeyedMap.find?_eq_some.mp hfind).1
      by_cases hin : w.flags &&& epollIn = epollIn
      · simp only [hin, ↓reduceIte] at h
        obtain ⟨⟨further, s₁⟩, hok, h⟩ := bind_eq_ok.mp h
        obtain ⟨hread, hsame⟩ := handleRead_closed hobj hmem hok hs fun hne => (hno hne).1
        cases further with
        | true =>
          refine handleWrite_closed hobj h hread honly fun hne => ?_
          rw [hsame rfl] at hne
          exact (hno hne).2
        | false =>
          obtain rfl := Except.ok.inj h
          exact hread
      · simp only [hin, ↓reduceIte] at h
        exact handleWrite_closed hobj h hs honly fun hne => (hno hne).2

theorem eventLoop_closed (hobj : Forwards obj) {ws : List (Wakeup ι)} {s s' : Hosted κ τ}
    (h : eventLoop ctl depth mgr obj ws s = .ok s') (hs : Closed mgr s)
    (honly : ∀ c ∈ s'.errors, c = .consume)
    (hno : AlongWakeups ctl depth mgr obj
      (fun w s => s.errors ≠ [] → ¬ AddsAny mgr w.onRead.acts ∧ ¬ AddsAny mgr w.onWrite.acts) ws s) :
    Closed mgr s' := by
  induction ws generalizing s with
  | nil =>
    obtain rfl := Except.ok.inj h
    exact hs
  | cons w ws ih =>
    obtain ⟨s₁, hok, h⟩ := bind_eq_ok.mp h
    have hlater := eventLoop_extends h
    have hs₁ := handleEvent_closed hobj hok hs (fun c hc => honly c (hlater.mem hc)) hno.1
    exact ih h hs₁ (hno.2 s₁ hok)

/-! ### One `poll_once` -/

/-- The handlers of `handle_timeouts` add no `consume` to the record. -/
theorem expire_errors (hobj : Forwards obj) {now : ℕ → ℤ} {onTimeout : ℕ → List Act} {input : ℕ → ι}
    {k : ℕ} {l rest : List TimeoutEntry} {s s' : Hosted κ τ}
    (h : expire ctl depth mgr obj now onTimeout input k l s = .ok (s', rest))
    (hs : Callback.consume ∉ s.errors) : Callback.consume ∉ s'.errors := by
  induction l generalizing k s with
  | nil =>
    obtain ⟨rfl, rfl⟩ := Prod.mk.inj (Except.ok.inj h)
    exact hs
  | cons e l ih =>
    unfold expire at h
    by_cases hx : e.hasExpired (now k)
    · rw [if_pos hx] at h
      cases hfind : s.mpx.managers.find? e.handle with
      | none =>
        rw [hfind] at h
        cases h
      | some m =>
        rw [hfind] at h
        obtain ⟨mpx, -, h⟩ := bind_eq_ok.mp h
        refine ih h ?_
        rw [List.mem_append, not_or]
        refine ⟨hs, ?_⟩
        unfold replyTimeout
        split_ifs
        · exact hobj.timeout _ _ _
        · exact List.not_mem_nil
    · rw [if_neg hx] at h
      obtain ⟨rfl, rfl⟩ := Prod.mk.inj (Except.ok.inj h)
      exact hs

/-- **One `poll_once`**: the errors of `consume` close the manager. -/
theorem pollOnce_closes (hobj : Forwards obj) {poll : Poll ι} {s : Hosted κ τ}
    (honly : OnlyConsume ctl depth mgr obj poll s) (hno : NoReturn ctl depth mgr obj poll s) :
    Closes ctl depth mgr obj poll s := by
  intro failed s' h
  have honly := honly failed s' h
  cases poll with
  | failed interrupted =>
    obtain ⟨rfl, rfl⟩ := Prod.mk.inj (Except.ok.inj h)
    exact fun hne => absurd rfl hne
  | events now onTimeout input ws =>
    obtain ⟨s₁, htimeouts, h⟩ := bind_eq_ok.mp h
    obtain ⟨s₂, hevents, h⟩ := bind_eq_ok.mp h
    obtain ⟨rfl, rfl⟩ := Prod.mk.inj (Except.ok.inj h)
    have hno := hno now onTimeout input ws rfl s₁ htimeouts
    -- `handle_timeouts` recorded nothing: it could only have been `consume`
    have hnone : s₁.errors = [] := by
      obtain ⟨⟨s₃, rest⟩, hexpire, htimeouts⟩ := bind_eq_ok.mp htimeouts
      obtain rfl := Except.ok.inj htimeouts
      have hconsume := expire_errors hobj hexpire List.not_mem_nil
      refine List.eq_nil_iff_forall_not_mem.mpr fun c hc => ?_
      have heq := honly c ((eventLoop_extends hevents).mem hc)
      subst heq
      exact hconsume hc
    exact eventLoop_closed hobj hevents (fun hne => absurd hnone hne) honly hno

/-- **A run of `poll_once`.** -/
theorem polls_close (hobj : Forwards obj) {polls : List (Poll ι)} {s : Hosted κ τ}
    (h : AlongPolls ctl depth mgr obj
      (fun poll s => OnlyConsume ctl depth mgr obj poll s ∧ NoReturn ctl depth mgr obj poll s) polls s) :
    AlongPolls ctl depth mgr obj (Closes ctl depth mgr obj) polls s := by
  induction polls generalizing s with
  | nil => trivial
  | cons poll polls ih =>
    obtain ⟨⟨honly, hno⟩, hrest⟩ := h
    exact ⟨pollOnce_closes hobj honly hno, fun failed s' hok => ih (hrest failed s' hok)⟩

end NetworkDriver.Net.Multiplexer.Epoll.Objects
