import NetworkDriver.Net.Multiplexer.Epoll.Mirror

/-! # Handlers that call `shutdown`

`handle_events` holds a pointer to a manager across the calls of its handlers, and `shutdown` inside
a handler removes the managers that wait for nothing but reading and accepting, the one of the
handler included. Applying a verdict to a manager that is gone, and calling its write handler, is
the fault `dangling`. The calls of `epoll_ctl` are logged.

* `updaterRead_careful`, `acceptorRead_careful`: the pollset updater is spared by `shutdown`; the
  acceptor is not, and returns an error after it when `accept` fails.
* `handleEvent_careful`: one event, if the read handler does not lose its manager and then retires
  it.
* `reentry_safe`: a run of such events goes through, and deletes each registered socket once.
* `reentry_faults`: a failed `accept`, and a hang-up after a removal in the same batch. -/

namespace NetworkDriver.Net.Multiplexer.Epoll.Reentry

open NetworkDriver.Library.Keyed NetworkDriver.Net.Types NetworkDriver.Net.Multiplexer.Base
open NetworkDriver.Net.Multiplexer.Epoll.Model NetworkDriver.Net.Multiplexer.Epoll.Mirror

variable {κ : Type}

/-! ### The calls of `epoll_ctl` -/

/-- A kernel that logs the calls. -/
def logged (ctl : EpollCtl κ) : EpollCtl (κ × List (CtlOp × SocketId)) :=
  fun k op fd flags =>
    let res := ctl k.1 op fd flags
    (res.1, res.2, k.2 ++ [(op, fd)])

/-- What a call makes of the sockets that are added and not deleted. -/
def record (added : SocketId → Bool) (call : CtlOp × SocketId) : SocketId → Bool :=
  match call.1 with
  | .add => Function.update added call.2 true
  | .mod => added
  | .del => Function.update added call.2 false

/-- The sockets that are added and not deleted after the calls. -/
def added (log : List (CtlOp × SocketId)) : SocketId → Bool := log.foldl record fun _ => false

/-- **`EPOLL_CTL_DEL` comes once for a registration**: whenever it is called, its socket was added and
not deleted since. -/
def DelOnce (log : List (CtlOp × SocketId)) : Prop :=
  ∀ l fd, l ++ [(.del, fd)] <+: log → added l fd = true

@[simp] theorem added_append (log : List (CtlOp × SocketId)) (call : CtlOp × SocketId) :
    added (log ++ [call]) = record (added log) call := List.foldl_append

theorem delOnce_nil : DelOnce [] := by
  intro l fd h
  simp at h

theorem DelOnce.snoc {log : List (CtlOp × SocketId)} {op : CtlOp} {fd : SocketId} (h : DelOnce log)
    (hdel : op = .del → added log fd = true) : DelOnce (log ++ [(op, fd)]) := by
  intro l fd' hl
  rcases List.prefix_concat_iff.mp hl with he | hl
  · obtain ⟨rfl, hlast⟩ := List.append_inj' he rfl
    obtain ⟨rfl, rfl⟩ := Prod.mk.inj (List.singleton_inj.mp hlast)
    exact hdel rfl
  · exact h l fd' hl

/-- The log is right, and agrees with the kernel. -/
structure LogValid (valid : κ → Prop) (interest : κ → SocketId → Option EpollFlags)
    (k : κ × List (CtlOp × SocketId)) : Prop where
  valid : valid k.1
  once : DelOnce k.2
  agrees : ∀ fd, added k.2 fd = true ↔ interest k.1 fd ≠ none

/-- A call that makes sense, with what it makes of the interest in its socket. -/
theorem LogValid.snoc {valid : κ → Prop} {interest : κ → SocketId → Option EpollFlags} {k : κ}
    {log : List (CtlOp × SocketId)} {k' : κ} {op : CtlOp} {fd : SocketId} {flags : Option EpollFlags}
    (h : LogValid valid interest (k, log)) (hvalid : valid k')
    (hint : interest k' = Function.update (interest k) fd flags)
    (hdel : op = .del → added log fd = true)
    (hself : record (added log) (op, fd) fd = true ↔ flags ≠ none) :
    LogValid valid interest (k', log ++ [(op, fd)]) := by
  refine ⟨hvalid, h.once.snoc hdel, fun fd' => ?_⟩
  dsimp only
  rw [added_append, hint]
  by_cases hne : fd' = fd
  · subst hne
    rw [Function.update_self]
    exact hself
  · rw [Function.update_of_ne hne, ← h.agrees fd']
    cases op with
    | add => exact iff_of_eq (congrArg (· = true) (Function.update_of_ne hne _ _))
    | mod => exact Iff.rfl
    | del => exact iff_of_eq (congrArg (· = true) (Function.update_of_ne hne _ _))

/-- **A kernel with a log keeps the promises of epoll.** -/
theorem logged_instance {ctl : EpollCtl κ} {valid : κ → Prop}
    {interest : κ → SocketId → Option EpollFlags} (hK : Instance ctl valid interest) :
    Instance (logged ctl) (LogValid valid interest) fun k => interest k.1 where
  add k fd flags hv hnone := by
    obtain ⟨hok, hvalid, hint⟩ := hK.add k.1 fd flags hv.valid hnone
    refine ⟨hok, hv.snoc hvalid hint (fun h => by cases h) ?_, hint⟩
    simp [record]
  mod k fd flags hv hsome := by
    obtain ⟨hok, hvalid, hint⟩ := hK.mod k.1 fd flags hv.valid hsome
    refine ⟨hok, hv.snoc hvalid hint (fun h => by cases h) ?_, hint⟩
    simpa [record] using (hv.agrees fd).mpr hsome
  del k fd flags hv hsome := by
    obtain ⟨hok, hvalid, hint⟩ := hK.del k.1 fd flags hv.valid hsome
    refine ⟨hok, hv.snoc hvalid hint (fun _ => (hv.agrees fd).mpr hsome) ?_, hint⟩
    simp [record]

/-! ### Handlers that lose their manager -/

section Handlers

variable (ctl : EpollCtl κ) (depth : ℕ)

mutual

/-- Every `shutdown` inside the act spares the manager. -/
def Spares (mgr : Manager) : Act → EpollMultiplexer κ → Prop
  | .registerReading _, _ => True
  | .registerWriting _, _ => True
  | .setTimeout _ _, _ => True
  | .add m initial init fails, s =>
    ∀ s₁, mod ctl (shutdown ctl depth) m.handle .add initial (s.maskSet m initial) = .ok s₁ →
      SparesAll mgr init (s₁.add m) ∧
        (fails = true → ∀ s₂, performAll ctl depth init (s₁.add m) = .ok s₂ → Spared mgr s₂)
  | .shutdown, s => Spared mgr s
  | .rehash _, _ => True

/-- So does every `shutdown` inside the acts, each in the state that it meets. -/
def SparesAll (mgr : Manager) : List Act → EpollMultiplexer κ → Prop
  | [], _ => True
  | act :: acts, s =>
    Spares mgr act s ∧ ∀ s', perform ctl depth act s = .ok s' → SparesAll mgr acts s'

end

/-- A handler that retires its manager does not lose it before. -/
def Careful (mgr : Manager) (handler : Handler) (s : EpollMultiplexer κ) : Prop :=
  handler.verdict = .done ∨ handler.verdict = .error → SparesAll ctl depth mgr handler.acts s

end Handlers

/-- What `accept` gives to the acceptor: the manager that the factory makes for the connection, or an
error, which may be temporary. -/
inductive Accepted where
  | connection (mgr : Manager) (initial : Operation) (init : List Act) (fails : Bool)
  | temporaryError
  | error

/-- `acceptor<event_handler>::handle_read_event`. -/
def acceptorRead : Accepted → Handler
  | .connection mgr initial init fails => ⟨[.add mgr initial init fails], .ok⟩
  | .temporaryError => ⟨[], .ok⟩
  | .error => ⟨[.shutdown], .error⟩

/-- What the pollset updater reads from the pipe: a message, or too few bytes. -/
inductive Message where
  | add (mgr : Manager) (initial : Operation) (init : List Act) (fails : Bool)
  | shutdown
  | unhandled
  | short

/-- `pollset_updater<event_handler>::handle_read_event`. -/
def updaterRead : Message → Handler
  | .add mgr initial init fails => ⟨[.add mgr initial init fails], .ok⟩
  | .shutdown => ⟨[.shutdown], .done⟩
  | .unhandled => ⟨[], .error⟩
  | .short => ⟨[], .error⟩

section InTree

variable {ctl : EpollCtl κ} {depth : ℕ} {s : EpollMultiplexer κ} {mgr : Manager}

/-- **The pollset updater is careful**, whatever it reads: `shutdown` spares the pipe reader. -/
theorem updaterRead_careful (h : mgr.handle = s.pipeReader) (msg : Message) :
    Careful ctl depth mgr (updaterRead msg) s := by
  intro hv
  cases msg with
  | add mgr initial init fails => rcases hv with hv | hv <;> cases hv
  | shutdown => exact ⟨Or.inl h, fun _ _ => trivial⟩
  | unhandled => trivial
  | short => trivial

/-- **The acceptor is careful if and only if `accept` does not fail for good**, or `shutdown` spares
the acceptor. -/
theorem acceptorRead_careful (res : Accepted) :
    Careful ctl depth mgr (acceptorRead res) s ↔ (res = .error → Spared mgr s) := by
  cases res with
  | connection mgr initial init fails =>
    refine iff_of_true (fun hv => ?_) fun h => by cases h
    rcases hv with hv | hv <;> cases hv
  | temporaryError =>
    refine iff_of_true (fun hv => ?_) fun h => by cases h
    rcases hv with hv | hv <;> cases hv
  | error => exact ⟨fun h _ => (h (Or.inr rfl)).1, fun h _ => ⟨h rfl, fun _ _ => trivial⟩⟩

end InTree

/-! ### The conditions on events -/

section Events

variable (ctl : EpollCtl κ) (depth : ℕ)

/-- A batch as `epoll_wait` reports it: one event for a socket, and `EPOLLOUT` only for managers that
wait for writing. -/
structure Reported (events : List Event) (s : EpollMultiplexer κ) : Prop where
  distinct : (events.map Event.fd).Nodup
  writers : ∀ event ∈ events, event.flags &&& epollOut = epollOut →
    ∃ mgr, s.managers.find? event.fd = some mgr ∧ s.mask mgr &&& Operation.write = Operation.write

/-- The handlers of an event register registered managers, and add managers on sockets of their own. -/
def Ordinary (event : Event) (s : EpollMultiplexer κ) : Prop :=
  ∀ mgr, s.managers.find? event.fd = some mgr →
    (event.flags &&& epollIn = epollIn →
      ProperAll (fun _ => True) ctl depth event.onRead.acts s ∧
        ∀ s', dispatch ctl depth mgr event.onRead Operation.read Operation.read s = .ok (true, s') →
          ProperAll (fun _ => True) ctl depth event.onWrite.acts s') ∧
    (event.flags &&& epollIn ≠ epollIn → ProperAll (fun _ => True) ctl depth event.onWrite.acts s)

/-- **The condition**: an event with exactly the three flags is for a registered manager, and the read
handler of an event is careful. -/
def CarefulEvent (event : Event) (s : EpollMultiplexer κ) : Prop :=
  (event.flags = epollHup ||| epollRdHup ||| epollErr → (s.managers.find? event.fd).isSome) ∧
    (event.flags ≠ epollHup ||| epollRdHup ||| epollErr → event.flags &&& epollIn = epollIn →
      ∀ mgr, s.managers.find? event.fd = some mgr → Careful ctl depth mgr event.onRead s)

/-- A call as the program makes it. -/
def OrdinaryCall : Call → EpollMultiplexer κ → Prop
  | .events events, s =>
    Reported events s ∧
      AlongEvents ctl depth (Ordinary ctl depth) events { s with derived.dispatches := [] }
  | .act act, s => ProperCall (fun _ => True) ctl depth (.act act) s
  | .enable mgr op, s => ProperCall (fun _ => True) ctl depth (.enable mgr op) s
  | .disable mgr op remove, s => ProperCall (fun _ => True) ctl depth (.disable mgr op remove) s
  | .del handle, s => ProperCall (fun _ => True) ctl depth (.del handle) s
  | .delIt mgr, s => ProperCall (fun _ => True) ctl depth (.delIt mgr) s

/-- The events of the call meet the condition. -/
def CarefulCall (c : Call) (s : EpollMultiplexer κ) : Prop :=
  ∀ events, c = .events events →
    AlongEvents ctl depth (CarefulEvent ctl depth) events { s with derived.dispatches := [] }

end Events

section Steps

variable {ctl : EpollCtl κ} {depth : ℕ} {valid : κ → Prop} {interest : κ → SocketId → Option EpollFlags}
  {R : Operation → Prop} {s s' : EpollMultiplexer κ} {mgr : Manager}

/-! ### Acts that spare a manager -/

mutual

/-- One act of a handler, by recursion on the acts of the `init` of a new manager. -/
theorem perform_spares (hK : Instance ctl valid interest) (hR : Closed R) (act : Act)
    {s s' : EpollMultiplexer κ} (h : Mirrors valid interest R s) (hact : Proper R ctl (depth + 1) act s)
    (hspares : Spares ctl (depth + 1) mgr act s) (hmgr : mgr ∈ s.managers.elems)
    (hok : perform ctl (depth + 1) act s = .ok s') : mgr ∈ s'.managers.elems := by
  cases act with
  | registerReading m =>
    obtain ⟨s₁, hok₁, -, hman, -⟩ :=
      register_mirrors hK (shutdown ctl (depth + 1)) h hR hact hR.read
    obtain rfl := Except.ok.inj (hok₁.symm.trans hok)
    exact hman ▸ hmgr
  | registerWriting m =>
    obtain ⟨s₁, hok₁, -, hman, -⟩ :=
      register_mirrors hK (shutdown ctl (depth + 1)) h hR hact hR.write
    obtain rfl := Except.ok.inj (hok₁.symm.trans hok)
    exact hman ▸ hmgr
  | setTimeout m when =>
    obtain rfl := Except.ok.inj hok
    exact hmgr
  | add m initial init fails =>
    obtain ⟨hfresh, hinitial, hinit⟩ := hact
    obtain ⟨s₁, hok₁, h₁, -, -, hstay⟩ :=
      mod_add_mirrors hK (shutdown ctl (depth + 1)) h hfresh hinitial
    obtain ⟨hsparesInit, hsparesFail⟩ := hspares s₁ hok₁
    obtain ⟨s₂, hok₂, h₂, -⟩ := performAll_mirrors depth hK hR init h₁ (hinit s₁ hok₁)
    have hmgr₂ : mgr ∈ s₂.managers.elems :=
      performAll_spares hK hR init h₁ (hinit s₁ hok₁) hsparesInit (hstay mgr hmgr) hok₂
    unfold perform add at hok
    simp only [hok₁, hok₂, bind, Except.bind, Except.map] at hok
    cases fails with
    | false =>
      obtain rfl := Except.ok.inj hok
      exact hmgr₂
    | true =>
      obtain ⟨s₃, hok₃, -, hk⟩ := shutdown_mirrors hK depth h₂ hR
      obtain rfl := Except.ok.inj (hok₃.symm.trans hok)
      exact (hk.stays mgr hmgr₂ trivial (hsparesFail rfl s₂ hok₂)).1
  | shutdown =>
    obtain ⟨s₁, hok₁, -, hk⟩ := shutdown_mirrors hK depth h hR
    obtain rfl := Except.ok.inj (hok₁.symm.trans hok)
    exact (hk.stays mgr hmgr trivial hspares).1
  | rehash order =>
    obtain rfl := Except.ok.inj hok
    exact (s.managers.rehash_perm order).mem_iff.mpr hmgr

/-- The acts of a handler. -/
theorem performAll_spares (hK : Instance ctl valid interest) (hR : Closed R) (acts : List Act)
    {s s' : EpollMultiplexer κ} (h : Mirrors valid interest R s)
    (hacts : ProperAll R ctl (depth + 1) acts s) (hspares : SparesAll ctl (depth + 1) mgr acts s)
    (hmgr : mgr ∈ s.managers.elems) (hok : performAll ctl (depth + 1) acts s = .ok s') :
    mgr ∈ s'.managers.elems := by
  cases acts with
  | nil =>
    obtain rfl := Except.ok.inj hok
    exact hmgr
  | cons act acts =>
    obtain ⟨s₁, hok₁, h₁, -⟩ := perform_mirrors depth hK hR act h hacts.1
    have hmgr₁ := perform_spares hK hR act h hacts.1 hspares.1 hmgr hok₁
    have hok' : performAll ctl (depth + 1) acts s₁ = .ok s' := by
      unfold performAll at hok
      rw [hok₁] at hok
      exact hok
    exact performAll_spares hK hR acts h₁ (hacts.2 s₁ hok₁) (hspares.2 s₁ hok₁) hmgr₁ hok'

end

/-! ### Events -/

theorem and_not_read (m : Operation) (h : m &&& Operation.write = Operation.write) :
    m &&& ~~~Operation.read ≠ Operation.none ∧
      ∀ m', m' &&& ~~~Operation.read = m &&& ~~~Operation.read →
        m' &&& Operation.write = Operation.write := by
  have hwrite : ~~~Operation.read &&& Operation.write = Operation.write := by decide
  constructor
  · intro hnone
    rw [← hwrite, ← BitVec.and_assoc, hnone, hwrite] at h
    exact absurd h (by decide)
  · intro m' he
    rw [← hwrite, ← BitVec.and_assoc, he, BitVec.and_assoc, hwrite]
    exact h

section Dispatch

variable (hK : Instance ctl valid interest) (hR : Closed R)

include hK hR

/-- A handler of a manager that waits for writing: the manager is there for the verdict, and for the
write handler unless the verdict is an error. -/
theorem dispatch_writer {handler : Handler} (kind : Operation) (h : Mirrors valid interest R s)
    (hacts : ProperAll R ctl (depth + 1) handler.acts s) (hmgr : mgr ∈ s.managers.elems)
    (hw : s.mask mgr &&& Operation.write = Operation.write) :
    ∃ further s', dispatch ctl (depth + 1) mgr handler kind Operation.read s = .ok (further, s') ∧
      Mirrors valid interest R s' ∧ Keeps (· ≠ mgr) s s' ∧
      (further = true → mgr ∈ s'.managers.elems ∧
        s'.mask mgr &&& Operation.write = Operation.write) := by
  obtain ⟨s₁, hok₁, h₁, hk₁⟩ := performAll_mirrors depth hK hR handler.acts h hacts
  obtain ⟨hmgr₁, hw₁⟩ := hk₁.writer hmgr trivial hw
  obtain ⟨further, s₂, hok₂, h₂, hk₂, hstays⟩ := handleResult_mirrors (depth + 1) hK hR
    handler.verdict Operation.read h₁ fun _ => hmgr₁
  unfold dispatch
  simp only [hok₁, hok₂, bind, Except.bind]
  refine ⟨further, _, rfl, h₂.congr (List.Perm.refl _) rfl rfl, ?_, fun hf => ?_⟩
  · exact (hk₁.imp fun _ _ => trivial).trans ⟨hk₂.stays, hk₂.write⟩
  · obtain ⟨hmgr₂, hmask⟩ := hstays hf hmgr₁ (and_not_read _ hw₁).1
    exact ⟨hmgr₂, (and_not_read _ hw₁).2 _ hmask⟩

/-- The write part of an event. -/
theorem handleWrite_careful {event : Event} (h : Mirrors valid interest R s)
    (hacts : ProperAll R ctl (depth + 1) event.onWrite.acts s)
    (hw : event.flags &&& epollOut = epollOut →
      mgr ∈ s.managers.elems ∧ s.mask mgr &&& Operation.write = Operation.write) :
    ∃ s', handleWrite ctl (depth + 1) mgr event s = .ok s' ∧ Mirrors valid interest R s' ∧
      Keeps (· ≠ mgr) s s' := by
  unfold handleWrite
  by_cases hout : event.flags &&& epollOut = epollOut
  · obtain ⟨hmgr, hw⟩ := hw hout
    obtain ⟨further, s', hok, hs', hk, -⟩ :=
      dispatch_writer hK hR Operation.write h hacts hmgr hw
    rw [if_pos hout, if_pos hmgr, hok]
    exact ⟨s', rfl, hs', hk⟩
  · rw [if_neg hout]
    exact ⟨s, rfl, h, Keeps.refl⟩

end Dispatch

/-- **One event.** -/
theorem handleEvent_careful (hK : Instance ctl valid interest) {event : Event}
    (h : Mirrors valid interest (fun _ => True) s) (hordinary : Ordinary ctl (depth + 1) event s)
    (hcareful : CarefulEvent ctl (depth + 1) event s)
    (hw : event.flags &&& epollOut = epollOut →
      ∃ mgr, s.managers.find? event.fd = some mgr ∧
        s.mask mgr &&& Operation.write = Operation.write) :
    ∃ s', handleEvent ctl (depth + 1) event s = .ok s' ∧
      Mirrors valid interest (fun _ => True) s' ∧ Keeps (·.handle ≠ event.fd) s s' := by
  have hkeeps : ∀ {mgr s'}, mgr.handle = event.fd → Keeps (· ≠ mgr) s s' →
      Keeps (·.handle ≠ event.fd) s s' := by
    intro mgr s' hfd hk
    refine hk.imp fun m hne => ?_
    rintro rfl
    exact hne hfd
  unfold handleEvent
  by_cases hhup : event.flags = epollHup ||| epollRdHup ||| epollErr
  · obtain ⟨mgr, hfind⟩ := Option.isSome_iff_exists.mp (hcareful.1 hhup)
    obtain ⟨hmgr, hfd⟩ := KeyedMap.find?_eq_some.mp hfind
    obtain ⟨s', hok, hs', hk⟩ := del_mirrors hK (shutdown ctl (depth + 1)) h hmgr
    rw [if_pos hhup, ← hfd]
    exact ⟨s', hok, hs', hkeeps hfd hk |>.imp fun m hm => hfd ▸ hm⟩
  · rw [if_neg hhup]
    cases hfind : s.managers.find? event.fd with
    | none => exact ⟨s, rfl, h, Keeps.refl⟩
    | some mgr =>
      obtain ⟨hmgr, hfd⟩ := KeyedMap.find?_eq_some.mp hfind
      obtain ⟨hread, hwrite⟩ := hordinary mgr hfind
      have hwriter : event.flags &&& epollOut = epollOut →
          s.mask mgr &&& Operation.write = Operation.write := by
        intro hout
        obtain ⟨m, hm, hw⟩ := hw hout
        rw [hfind] at hm
        exact Option.some.inj hm ▸ hw
      by_cases hin : event.flags &&& epollIn = epollIn
      · obtain ⟨hacts, hnext⟩ := hread hin
        simp only [if_pos hin, bind, Except.bind]
        by_cases hout : event.flags &&& epollOut = epollOut
        · obtain ⟨further, s₁, hok₁, h₁, hk₁, hstays⟩ :=
            dispatch_writer hK any_closed Operation.read h hacts hmgr (hwriter hout)
          simp only [hok₁]
          cases further with
          | false => exact ⟨s₁, rfl, h₁, hkeeps hfd hk₁⟩
          | true =>
            obtain ⟨s₂, hok₂, h₂, hk₂⟩ :=
              handleWrite_careful hK any_closed h₁ (hnext s₁ hok₁) fun _ => hstays rfl
            exact ⟨s₂, hok₂, h₂, hkeeps hfd (hk₁.trans hk₂)⟩
        · obtain ⟨further, s₁, hok₁, h₁, hk₁⟩ :=
            dispatch_mirrors depth hK any_closed Operation.read Operation.read h hacts
              fun hv s' => performAll_spares hK any_closed event.onRead.acts h hacts
                (hcareful.2 hhup hin mgr hfind hv) hmgr
          simp only [hok₁]
          cases further with
          | false => exact ⟨s₁, rfl, h₁, hkeeps hfd hk₁⟩
          | true =>
            unfold handleWrite
            rw [if_neg hout]
            exact ⟨s₁, rfl, h₁, hkeeps hfd hk₁⟩
      · simp only [if_neg hin]
        obtain ⟨s', hok, hs', hk⟩ :=
          handleWrite_careful hK any_closed h (hwrite hin) fun hout => ⟨hmgr, hwriter hout⟩
        exact ⟨s', hok, hs', hkeeps hfd hk⟩

/-- The loop of `handle_events`: the managers that wait for writing stay for their events. -/
theorem eventLoop_careful (hK : Instance ctl valid interest) {events : List Event}
    (h : Mirrors valid interest (fun _ => True) s) (hreported : Reported events s)
    (hordinary : AlongEvents ctl (depth + 1) (Ordinary ctl (depth + 1)) events s)
    (hcareful : AlongEvents ctl (depth + 1) (CarefulEvent ctl (depth + 1)) events s) :
    ∃ s', eventLoop ctl (depth + 1) events s = .ok s' ∧
      Mirrors valid interest (fun _ => True) s' := by
  induction events generalizing s with
  | nil => exact ⟨s, rfl, h⟩
  | cons event events ih =>
    obtain ⟨hfresh, hdistinct⟩ := List.nodup_cons.mp hreported.distinct
    obtain ⟨hw, hwriters⟩ := List.forall_mem_cons.mp hreported.writers
    obtain ⟨s₁, hok₁, h₁, hk₁⟩ := handleEvent_careful hK h hordinary.1 hcareful.1 hw
    have hreported₁ : Reported events s₁ := by
      refine ⟨hdistinct, fun event' hevent' hout => ?_⟩
      obtain ⟨m, hm, hwm⟩ := hwriters event' hevent' hout
      obtain ⟨hmem, hfd⟩ := KeyedMap.find?_eq_some.mp hm
      have hne : m.handle ≠ event.fd := fun he =>
        hfresh (he ▸ hfd ▸ List.mem_map_of_mem hevent')
      obtain ⟨hmem₁, hwm₁⟩ := hk₁.writer hmem hne hwm
      exact ⟨m, KeyedMap.find?_eq_some.mpr ⟨hmem₁, hfd⟩, hwm₁⟩
    obtain ⟨s₂, hok₂, h₂⟩ := ih h₁ hreported₁ (hordinary.2 s₁ hok₁) (hcareful.2 s₁ hok₁)
    refine ⟨s₂, ?_, h₂⟩
    unfold eventLoop
    rw [hok₁]
    exact hok₂

/-- One call. -/
theorem call_careful (hK : Instance ctl valid interest) {c : Call}
    (h : Mirrors valid interest (fun _ => True) s) (hordinary : OrdinaryCall ctl (depth + 1) c s)
    (hcareful : CarefulCall ctl (depth + 1) c s) :
    ∃ s', call ctl (depth + 1) c s = .ok s' ∧ Mirrors valid interest (fun _ => True) s' := by
  cases c with
  | events events =>
    have hreported : Reported events ({ s with derived.dispatches := [] } : EpollMultiplexer κ) :=
      ⟨hordinary.1.distinct, hordinary.1.writers⟩
    exact eventLoop_careful hK (h.congr (List.Perm.refl _) rfl rfl) hreported hordinary.2
      (hcareful events rfl)
  | act act => exact call_mirrors depth hK any_closed h hordinary
  | enable mgr op => exact call_mirrors depth hK any_closed h hordinary
  | disable mgr op remove => exact call_mirrors depth hK any_closed h hordinary
  | del handle => exact call_mirrors depth hK any_closed h hordinary
  | delIt mgr => exact call_mirrors depth hK any_closed h hordinary

end Steps

/-! ### Runs -/

/-- **Handlers that call `shutdown` do no harm**, in a run whose events meet the condition: no
manager is touched after its removal, since the run goes through, and each registered socket is
deleted once. -/
theorem reentry_safe {ctl : EpollCtl κ} {valid : κ → Prop}
    {interest : κ → SocketId → Option EpollFlags} (hK : Instance ctl valid interest) (depth : ℕ)
    {s : EpollMultiplexer (κ × List (CtlOp × SocketId))}
    (hs : Fresh (fun k => valid k.1) (fun k => interest k.1) s) (hlog : s.derived.kernel.2 = [])
    {cs : List Call}
    (hordinary : AlongCalls (logged ctl) (depth + 1) (OrdinaryCall (logged ctl) (depth + 1)) cs s)
    (hcareful : AlongCalls (logged ctl) (depth + 1) (CarefulCall (logged ctl) (depth + 1)) cs s) :
    ∃ s', calls (logged ctl) (depth + 1) cs s = .ok s' ∧ DelOnce s'.derived.kernel.2 := by
  have hfresh : Fresh (LogValid valid interest) (fun k => interest k.1) s := by
    refine ⟨hs.managers, ⟨hs.valid, hlog ▸ delOnce_nil, fun fd => ?_⟩, hs.unwatched⟩
    rw [hlog]
    exact iff_of_false (by simp [added]) (not_not.mpr (hs.unwatched fd))
  have hboth := alongCalls_and (depth + 1) hordinary hcareful
  obtain ⟨s', hok, hs'⟩ := calls_preserve (I := Mirrors (LogValid valid interest)
      (fun k => interest k.1) fun _ => True) (depth + 1)
    (fun c s h hc => call_careful (logged_instance hK) h hc.1 hc.2) hfresh.mirrors hboth
  exact ⟨s', hok, hs'.valid.once⟩

/-- A multiplexer with its updater and its acceptor, on the sockets 3 and 5. -/
def serving : List Call :=
  [.act (.add ⟨0, 3⟩ Operation.read [] false), .act (.add ⟨1, 5⟩ Operation.read [] false)]

/-- A multiplexer as it is constructed. -/
def constructed : EpollMultiplexer ((SocketId → Option EpollFlags) × List (CtlOp × SocketId)) :=
  { MultiplexerBase.init ⟨(fun _ => none, []), []⟩ with pipeReader := 3, pipeWriter := 4, running := true }

/-- A connection for the acceptor, or an error. -/
def incoming (res : Accepted) : Event := ⟨5, epollIn, acceptorRead res, ⟨[], .ok⟩⟩

/-- The message `shutdown` for the updater. -/
def shutdownMessage : Event := ⟨3, epollIn, updaterRead .shutdown, ⟨[], .ok⟩⟩

theorem constructed_fresh :
    Fresh (fun _ => True) (fun k : (SocketId → Option EpollFlags) × List (CtlOp × SocketId) => k.1)
      constructed := ⟨rfl, trivial, fun _ => rfl⟩

/-- The acceptor is busy for a moment. -/
theorem reentry_safe_busy :
    ∃ s', calls (logged flagCtl) 1 (serving ++ [.events [incoming .temporaryError]]) constructed =
        .ok s' ∧ DelOnce s'.derived.kernel.2 := by
  refine reentry_safe flagCtl_instance 0 constructed_fresh rfl ?_ ?_
  · refine ⟨⟨by decide, trivial, fun _ _ => trivial⟩, fun s₁ h₁ => ?_⟩
    obtain rfl := Except.ok.inj h₁
    refine ⟨⟨by decide, trivial, fun _ _ => trivial⟩, fun s₂ h₂ => ?_⟩
    obtain rfl := Except.ok.inj h₂
    refine ⟨⟨⟨List.nodup_singleton _, ?_⟩, fun mgr _ => ⟨fun _ => ⟨trivial, fun _ _ => trivial⟩,
      fun _ => trivial⟩, fun _ _ => trivial⟩, fun _ _ => trivial⟩
    intro event hevent hout
    rw [List.mem_singleton.mp hevent] at hout
    exact absurd hout (by decide)
  · refine ⟨fun _ h => (by cases h), fun _ _ => ⟨fun _ h => (by cases h), fun s _ => ⟨?_, fun _ _ => trivial⟩⟩⟩
    intro events h
    obtain rfl := Call.events.inj h
    refine ⟨⟨fun h => absurd h (by decide), fun _ _ mgr _ => ?_⟩, fun _ _ => trivial⟩
    exact (acceptorRead_careful _).mpr fun h => by cases h

/-- **A failed `accept`**: the acceptor calls `shutdown`, which removes it, and then returns an
error. And the hang-up of a socket that the updater's `shutdown` removed in the same batch deletes
it again. -/
theorem reentry_faults :
    calls (logged flagCtl) 2 (serving ++ [.events [incoming .error]]) constructed =
        .error .dangling ∧
      ∃ s', calls (logged flagCtl) 2 (serving ++ [.events [shutdownMessage,
          ⟨5, epollHup ||| epollRdHup ||| epollErr, ⟨[], .ok⟩, ⟨[], .ok⟩⟩]]) constructed = .ok s' ∧
        ¬ DelOnce s'.derived.kernel.2 := by
  refine ⟨rfl, _, rfl, fun h => ?_⟩
  have hlog := h [(.add, 3), (.add, 5), (.mod, 5), (.del, 5), (.mod, 3), (.del, 3)] 5
  exact absurd (hlog (by decide +kernel)) (by decide)

end NetworkDriver.Net.Multiplexer.Epoll.Reentry
