import NetworkDriver.Net.Multiplexer.Epoll.Mirror
import NetworkDriver.Net.Multiplexer.Epoll.Termination
import NetworkDriver.Net.Socket.Model
import NetworkDriver.Util.Configuration.Model

/-! # The initialization of the epoll multiplexer

`epoll_multiplexer::init` makes an epoll instance and goes on with `multiplexer_base::init`, which
makes the pipe and registers the updater before it makes the socket of the acceptor. An error is
returned as it comes; what was made before it stays.

* `baseInit_failed`, `init_failed_port`: what a failure leaves alone.
* `init_left_iff`: exactly when an `init` that fails leaves the multiplexer as it was.
* `init_port_in_use`: what is left breaks the `shutdown` of a multiplexer whose next `init`
  succeeds. -/

namespace NetworkDriver.Net.Multiplexer.Epoll.Init

open NetworkDriver.Library.Bounded NetworkDriver.Library.Keyed NetworkDriver.Library.Results
open NetworkDriver.Net.Types
open NetworkDriver.Net.Ip.Model NetworkDriver.Net.Socket.Model
open NetworkDriver.Net.Multiplexer.Base NetworkDriver.Net.Multiplexer.Epoll.Model
open NetworkDriver.Net.Multiplexer.Epoll.Mirror (flagCtl)
open NetworkDriver.Util.Configuration.Model (Config)
open NetworkDriver.Util.Formatting.Model (format)

/-! ### State -/

variable {κ δ : Type}

/-- `epoll_multiplexer`, with the members that no other function than `init` sets. `mpx_thread_id_` is
`none` if it is no thread, and the numbers of `cfg_` are of a type `δ`. -/
structure Instance (κ δ : Type) where
  mpx : EpollMultiplexer κ
  mpxFd : SocketId
  port : UInt16
  cfg : Option (Config δ)
  threadId : Option ℕ
  initialized : Bool

/-- A multiplexer as it is constructed. -/
def Instance.fresh (kernel : κ) : Instance κ δ where
  mpx := MultiplexerBase.init ⟨kernel, []⟩
  mpxFd := -1
  port := 0
  cfg := none
  threadId := none
  initialized := false

/-- What a call of `init` meets: the thread it runs on, the answers of the system calls, where
`epoll_create1` is negative and `pipe` is `none` if they fail, and the identities of the managers
that it makes. -/
structure Attempt where
  thread : ℕ
  epollCreate1 : SocketId
  pipe : Option (SocketId × SocketId)
  sockets : Kernel
  updater : ℕ
  acceptor : ℕ

/-! ### Initialization -/

/-- `make_pipe`. -/
def makePipe (a : Attempt) : Except Error (SocketId × SocketId) :=
  match a.pipe with
  | none => .error (socketError (format "make_pipe: {0}".toUTF8.toList [.text a.sockets.lastError]))
  | some fds => .ok fds

/-- The endpoint of the acceptor. -/
def acceptEndpoint (cfg : Config δ) : NetworkDriver.Net.Datagrams.Model.Endpoint where
  address := if cfg.getOr .bool "multiplexer.local".toUTF8.toList true then localhost else anyAddress
  port := (cfg.getOr .int64 "multiplexer.port".toUTF8.toList (0 : Int64)).toUInt64.toUInt16

/-- The backlog that `make_tcp_accept_socket` has by default. -/
def connBacklog : ℤ := 10

/-- `"multiplexer_base was already initialized"`. -/
def alreadyInitialized : Error := ⟨.runtimeError, "multiplexer_base was already initialized".toUTF8.toList⟩

section Init

-- `ctl fd` is `epoll_ctl` on the epoll instance `fd`, and failures nest up to `depth`
variable (ctl : SocketId → EpollCtl κ) (depth : ℕ)

/-- `add`, on the thread of the multiplexer, for the updater and the acceptor, whose `init` does
nothing and whose `initial_operation` is the one of `manager_base`. -/
def addManager (mgr : Manager) (s : Instance κ δ) : Except Fault (Instance κ δ) :=
  (add (ctl s.mpxFd) (shutdown (ctl s.mpxFd) depth) mgr Operation.read (fun s => .ok (true, s)) s.mpx).map
    fun mpx => { s with mpx := mpx }

/-- `multiplexer_base::init`. -/
def baseInit (cfg : Config δ) (a : Attempt) (s : Instance κ δ) :
    Except Fault (Option Error × Instance κ δ) :=
  if s.initialized then .ok (some alreadyInitialized, s)
  else
    let s := { s with cfg := some cfg }
    match makePipe a with
    | .error err => .ok (some err, s)
    | .ok (reader, writer) => do
      let s := { s with mpx.pipeReader := reader, mpx.pipeWriter := writer }
      let s ← addManager ctl depth ⟨a.updater, reader⟩ s
      match (makeTcpAcceptSocket a.sockets (acceptEndpoint cfg) connBacklog).2 with
      | .error err => return (some err, s)
      | .ok (sock, port) => do
        let s := { s with port := port }
        let s ← addManager ctl depth ⟨a.acceptor, sock⟩ s
        return (none, { s with initialized := true })

/-- `epoll_multiplexer::init`: the error that it returns, if there is one. -/
def init (cfg : Config δ) (a : Attempt) (s : Instance κ δ) : Except Fault (Option Error × Instance κ δ) :=
  if s.initialized then .ok (some alreadyInitialized, s)
  else
    let s := { s with threadId := some a.thread, mpxFd := a.epollCreate1 }
    if s.mpxFd < 0 then
      .ok (some ⟨.runtimeError, "[epoll_multiplexer]: Creating epoll fd failed".toUTF8.toList⟩, s)
    else do
      let (err, s) ← baseInit ctl depth cfg a s
      match err with
      | some err => return (some err, s)
      | none => return (none, { s with threadId := none })

end Init

/-! ### What a failure leaves -/

/-- **The multiplexer is left as it was**: its managers, the interest of its epoll instance, its
port, the ends of its pipe, and with the epoll instance the descriptors that it owns, which are
this, the writer of the pipe and the sockets of its managers. -/
structure LeftAsBefore (interest : κ → SocketId → SocketId → Option EpollFlags) (s s' : Instance κ δ) :
    Prop where
  managers : s'.mpx.managers = s.mpx.managers
  interest : ∀ fd, interest s'.mpx.derived.kernel s'.mpxFd fd = interest s.mpx.derived.kernel s.mpxFd fd
  port : s'.port = s.port
  pipeReader : s'.mpx.pipeReader = s.mpx.pipeReader
  pipeWriter : s'.mpx.pipeWriter = s.mpx.pipeWriter
  epoll : s'.mpxFd = s.mpxFd

section Left

variable {ctl : SocketId → EpollCtl κ} {depth : ℕ} {cfg : Config δ} {a : Attempt} {s s' : Instance κ δ}

/-- `add` concerns the members of the base only. -/
theorem addManager_eq {mgr : Manager} (h : addManager ctl depth mgr s = .ok s') :
    s' = { s with mpx := s'.mpx } := by
  obtain ⟨mpx, -, rfl⟩ := map_eq_ok.mp h
  rfl

/-- **A failure of `multiplexer_base::init`**: the epoll instance, the port and `initialized_` stay,
and so does everything in the base if the pipe is not made. -/
theorem baseInit_failed {e : Error} (h : baseInit ctl depth cfg a s = .ok (some e, s')) :
    s'.mpxFd = s.mpxFd ∧ s'.port = s.port ∧ s'.initialized = s.initialized ∧
      (a.pipe = none → s'.mpx = s.mpx) := by
  unfold baseInit makePipe at h
  by_cases hinit : s.initialized = true
  · rw [if_pos hinit] at h
    obtain ⟨-, rfl⟩ := Prod.mk.inj (Except.ok.inj h)
    exact ⟨rfl, rfl, rfl, fun _ => rfl⟩
  · rw [if_neg hinit] at h
    cases hpipe : a.pipe with
    | none =>
      rw [hpipe] at h
      obtain ⟨-, rfl⟩ := Prod.mk.inj (Except.ok.inj h)
      exact ⟨rfl, rfl, rfl, fun _ => rfl⟩
    | some fds =>
      rw [hpipe] at h
      obtain ⟨s₁, hs₁, h⟩ := bind_eq_ok.mp h
      have hupdater := addManager_eq hs₁
      cases hsock : (makeTcpAcceptSocket a.sockets (acceptEndpoint cfg) connBacklog).2 with
      | error err =>
        rw [hsock] at h
        obtain ⟨-, rfl⟩ := Prod.mk.inj (Except.ok.inj h)
        rw [hupdater]
        exact ⟨rfl, rfl, rfl, fun h => by cases h⟩
      | ok accepting =>
        -- after the port is set nothing fails any more
        rw [hsock] at h
        obtain ⟨s₂, -, h⟩ := bind_eq_ok.mp h
        cases h

/-- The port is as before, and another `init` may follow. -/
theorem init_failed_port {e : Error} (h : init ctl depth cfg a s = .ok (some e, s')) :
    s'.port = s.port ∧ s'.initialized = s.initialized := by
  unfold init at h
  by_cases hinit : s.initialized = true
  · rw [if_pos hinit] at h
    obtain ⟨-, rfl⟩ := Prod.mk.inj (Except.ok.inj h)
    exact ⟨rfl, rfl⟩
  · rw [if_neg hinit] at h
    dsimp only at h
    by_cases hepoll : a.epollCreate1 < 0
    · rw [if_pos hepoll] at h
      obtain ⟨-, rfl⟩ := Prod.mk.inj (Except.ok.inj h)
      exact ⟨rfl, rfl⟩
    · rw [if_neg hepoll] at h
      obtain ⟨⟨res, s₁⟩, hs₁, h⟩ := bind_eq_ok.mp h
      cases res with
      | none => cases h
      | some err =>
        obtain ⟨-, rfl⟩ := Prod.mk.inj (Except.ok.inj h)
        have hbase := baseInit_failed hs₁
        exact ⟨hbase.2.1, hbase.2.2.1⟩

/-- **An `init` that fails leaves the multiplexer as it was if and only if** it has been initialized
before, or no epoll instance is made and none was there: `epoll_create1` never returns a descriptor
that is open, and the multiplexer does not close the one it has. Of a failure at any later step, at
least the new epoll instance is left. -/
theorem init_left_iff (interest : κ → SocketId → SocketId → Option EpollFlags) {e : Error}
    (hfresh : 0 ≤ a.epollCreate1 → a.epollCreate1 ≠ s.mpxFd)
    (h : init ctl depth cfg a s = .ok (some e, s')) :
    LeftAsBefore interest s s' ↔
      s.initialized = true ∨ a.epollCreate1 < 0 ∧ s.mpxFd = a.epollCreate1 := by
  unfold init at h
  by_cases hinit : s.initialized = true
  · rw [if_pos hinit] at h
    obtain ⟨-, rfl⟩ := Prod.mk.inj (Except.ok.inj h)
    exact iff_of_true ⟨rfl, fun _ => rfl, rfl, rfl, rfl, rfl⟩ (Or.inl hinit)
  · rw [if_neg hinit] at h
    dsimp only at h
    by_cases hepoll : a.epollCreate1 < 0
    · rw [if_pos hepoll] at h
      obtain ⟨-, rfl⟩ := Prod.mk.inj (Except.ok.inj h)
      constructor
      · intro hleft
        exact Or.inr ⟨hepoll, hleft.epoll.symm⟩
      · rintro (hyes | ⟨-, hsame⟩)
        · exact absurd hyes hinit
        · exact ⟨rfl, fun fd => by rw [hsame], rfl, rfl, rfl, hsame.symm⟩
    · rw [if_neg hepoll] at h
      obtain ⟨⟨res, s₁⟩, hs₁, h⟩ := bind_eq_ok.mp h
      cases res with
      | none => cases h
      | some err =>
        obtain ⟨-, rfl⟩ := Prod.mk.inj (Except.ok.inj h)
        have hfd := (baseInit_failed hs₁).1
        refine iff_of_false (fun hleft => ?_) ?_
        · exact hfresh (not_lt.mp hepoll) (hfd.symm.trans hleft.epoll)
        · rintro (hyes | ⟨hno, -⟩)
          · exact hinit hyes
          · exact hepoll hno

end Left

/-! ### A port in use -/

/-- The epoll instances of a kernel, each with the flags of the sockets it watches. -/
abbrev Instances := SocketId → SocketId → Option EpollFlags

/-- `epoll_ctl` on an instance. -/
def instanceCtl (epfd : SocketId) : EpollCtl Instances := fun k op fd flags =>
  let res := flagCtl (k epfd) op fd flags
  (res.1, Function.update k epfd res.2)

/-- A kernel that makes the socket 9, and binds it if the port is not in use. -/
def kernelWith (bound : Bool) : Kernel where
  socket := 9
  bind _ _ := bound
  listen _ _ := true
  connect _ _ := true
  getsockname _ := some ⟨afInet, htons 80, localhost⟩
  sendto _ _ _ := 0
  recvfrom _ _ := (⟨afInet, 0, 0⟩, 0)
  lastError := []

/-- The port is in use. -/
def portInUse : Attempt := ⟨1, 3, some (4, 5), kernelWith false, 0, 1⟩

/-- The port is free again. -/
def portFree : Attempt := ⟨1, 6, some (7, 8), kernelWith true, 2, 3⟩

/-- A new multiplexer. -/
def new : Instance Instances Unit := .fresh fun _ _ => none

/-- An `init` with an empty configuration: the error and the multiplexer after it. -/
def initDefault (a : Attempt) (s : Instance Instances Unit) : Option Error × Instance Instances Unit :=
  match init instanceCtl 1 ⟨.empty⟩ a s with
  | .ok res => res
  | .error _ => (none, s)

/-- What `shutdown` does after an `init`, up to a depth. -/
def shutdownAfter (s : Instance Instances Unit) (depth : ℕ) :
    Except Fault (EpollMultiplexer Instances) :=
  shutdown (instanceCtl s.mpxFd) depth s.mpx

/-- The port is in use, in the first attempt. -/
theorem init_left_port_in_use :
    ∃ e s', init instanceCtl 1 ⟨.empty⟩ portInUse new = .ok (some e, s') ∧
      (LeftAsBefore (fun k : Instances => k) new s' ↔
        new.initialized = true ∨ portInUse.epollCreate1 < 0 ∧ new.mpxFd = portInUse.epollCreate1) := by
  obtain ⟨e, s', h⟩ : ∃ e s', init instanceCtl 1 ⟨.empty⟩ portInUse new = .ok (some e, s') :=
    ⟨_, _, rfl⟩
  exact ⟨e, s', h, init_left_iff (fun k : Instances => k) (by decide) h⟩

/-- **A port in use**: the `init` that fails leaves an epoll instance and the updater, and the next
one succeeds. After that a `shutdown` never returns, as the old updater is not in the new epoll
instance; it returns if the failure had not been. -/
theorem init_port_in_use :
    (initDefault portInUse new).1.isSome = true ∧
      ¬ LeftAsBefore (fun k : Instances => k) new (initDefault portInUse new).2 ∧
      (initDefault portFree (initDefault portInUse new).2).1 = none ∧
      (¬ ∃ s', Returns (shutdownAfter (initDefault portFree (initDefault portInUse new).2).2) s') ∧
      (initDefault portFree new).1 = none ∧
      ∃ s', Returns (shutdownAfter (initDefault portFree new).2) s' := by
  have hreturns : ∀ s : Instance Instances Unit, (∃ s', Returns (shutdownAfter s) s') ↔
      ((Failures.pollset s.mpx).sweep (instanceCtl s.mpxFd)).isSome = true := fun s =>
    (Failures.shutdown_refines (instanceCtl s.mpxFd) s.mpx).returns_iff
  refine ⟨by decide +kernel, fun h => ?_, by decide +kernel, ?_, by decide +kernel, ?_⟩
  · have hepoll := h.epoll
    revert hepoll
    decide +kernel
  · rw [hreturns]
    decide +kernel
  · rw [hreturns]
    decide +kernel

end NetworkDriver.Net.Multiplexer.Epoll.Init
