import NetworkDriver.Net.Multiplexer.Uring.Model
import NetworkDriver.Net.Multiplexer.Shutdown

/-! # Graceful shutdown under io_uring

The runs of the event loop over managers of any kind: a handler is what it does (`Act`s) and what it
returns, and so is the `enable` of a manager. The ring itself plays no part in the law.

* `delQualified_serving`: a removal past the check breaks the law exactly when it is recorded so.
* `run_between`: over a whole run of the event loop, the law holds if and only if the history is
  orderly. -/

namespace NetworkDriver.Net.Multiplexer.Uring.Shutdown

open NetworkDriver.Library.Keyed NetworkDriver.Library.Results
open NetworkDriver.Net.Types NetworkDriver.Net.Multiplexer.Base
open NetworkDriver.Net.Multiplexer.Uring.Model NetworkDriver.Net.Multiplexer.Shutdown

/-! ### Handlers and runs -/

/-- `uring_multiplexer`, but for the ring. -/
abbrev UringBase := MultiplexerBase Unit

/-- What a handler may do: registrations and new managers, with what the managers' `init` and `enable`
do and return; timeouts; `handle_error` or `shutdown`. An unordered map may order its elements anew at
any time. -/
inductive Act where
  | registerReading (mgr : Manager) (enable : List Act) (res : ManagerResult)
  | registerWriting (mgr : Manager) (enable : List Act) (res : ManagerResult)
  | setTimeout (mgr : Manager) (when : ℤ)
  | add (mgr : Manager) (initial : Operation) (init : List Act) (fails : Bool) (enable : List Act)
      (res : ManagerResult)
  | shutdown
  | rehash (order : List Manager)

/-- `enable`, for a manager whose `enable` is given. -/
def enable (mgr : Manager) (op : Operation) (virt : UringBase → Except Fault UringBase)
    (res : ManagerResult) (s : UringBase) : Except Fault UringBase :=
  enableWith (fun s => s.mask mgr) (fun mask s => s.maskSet mgr mask)
    (fun s => (virt s).map (res, ·)) op s

/-- `register_reading` and `register_writing`, by the operation registered for. -/
def register (mgr : Manager) (op : Operation) (virt : UringBase → Except Fault UringBase)
    (res : ManagerResult) (s : UringBase) : Except Fault UringBase :=
  if s.mask mgr &&& op = Operation.none then enable mgr op virt res s else .ok s

mutual

/-- One act of a handler. -/
def perform : Act → UringBase → Except Fault UringBase
  | .registerReading mgr acts res, s => register mgr Operation.read (performAll acts) res s
  | .registerWriting mgr acts res, s => register mgr Operation.write (performAll acts) res s
  | .setTimeout mgr when, s => .ok (s.setTimeout mgr when).2
  | .add mgr initial init fails acts res, s =>
    add mgr (fun _ s => (performAll init s).map (!fails, ·))
      (fun added s => enable added initial (performAll acts) res s) s
  | .shutdown, s => shutdown s
  | .rehash order, s => .ok { s with managers := s.managers.rehash order }

/-- The acts of a handler, in order. -/
def performAll : List Act → UringBase → Except Fault UringBase
  | [], s => .ok s
  | act :: acts, s => perform act s >>= performAll acts

end

/-- A completion of a submission for `op`, with what `handle_completion` of its manager does and
returns. -/
structure Completion where
  mgr : Manager
  op : Operation
  acts : List Act
  verdict : ManagerResult

/-- The loop of `handle_events`. -/
def handleEvents : List Completion → UringBase → Except Fault UringBase
  | [], s => .ok s
  | c :: cs, s => do
    let s ← performAll c.acts s
    handleEvents cs (handleVerdict c.mgr c.op c.verdict s)

/-- What an iteration meets: a call of the ring that fails, or completions; then the readings of the
clock and the acts of the timeout handlers in the call of `handle_timeouts`. -/
inductive Poll where
  | failed
  | completions (now : ℕ → ℤ) (onTimeout : ℕ → List Act) (completions : List Completion)

/-- One iteration of the loop of `run`: an error of `poll_once` stops it. -/
def loopStep (poll : Poll) (s : UringBase) : Except Fault UringBase :=
  if s.running then
    match poll with
    | .failed => .ok { s with running := false }
    | .completions now onTimeout completions => do
      let s ← s.handleTimeouts (fun k _ _ => performAll (onTimeout k)) now
      handleEvents completions s
  else .ok s

/-- `run`. -/
def run : List Poll → UringBase → Except Fault UringBase
  | [], s => .ok s
  | poll :: polls, s => loopStep poll s >>= run polls

/-! ### The invariant -/

section Generic

variable {δ : Type} {s s' : MultiplexerBase δ} {mgr : Manager}

theorem disable_cutsReads :
    CutsReads fun mgr (s : MultiplexerBase δ) => .ok (disable mgr Operation.readAccept false s) := by
  intro mgr s s' h
  obtain rfl := Except.ok.inj h
  unfold disable
  cases hdel : maskDel (s.mask mgr) Operation.readAccept with
  | none => exact ⟨Grows.refl _, Or.inl ⟨Cuts.refl _, and_of_maskDel_none hdel⟩⟩
  | some mask =>
    obtain ⟨hcut, hclear⟩ := maskDel_cuts hdel
    refine ⟨hcut.grows, Or.inl ⟨hcut, ?_⟩⟩
    change (s.maskSet mgr mask).mask mgr &&& _ = _
    rw [MultiplexerBase.maskSet_mask_self]
    exact hclear

/-- **`shutdown` is calm.** -/
theorem shutdown_calm (h : shutdown s = .ok s') : Calm s s' := by
  refine shutdownWith_calm disable_cutsReads ?_ h
  intro mgr s s' h
  exact ⟨s, (Cuts.refl s).calm, (Except.ok.inj h).symm⟩

/-- **A removal past the check**: it is lawful if and only if it is orderly, as the loop goes on in any
case. -/
theorem delQualified_serving {handle : SocketId} (hs : Serving s) :
    Serving (s.delQualified handle) := by
  unfold MultiplexerBase.delQualified
  dsimp only
  split_ifs with hfound
  · have hgrows : Grows s.history ({ (s.del handle).logRemoval with
        history.bypasses := (s.del handle).history.bypasses ++
          [⟨(s.del handle).shuttingDown, !(s.del handle).hasManagers⟩] } :
          MultiplexerBase δ).history :=
      ⟨List.subset_append_left _ _, List.Subset.refl _, List.subset_append_left _ _⟩
    rcases hs with hb | ⟨hl, ho, hr⟩
    · exact Or.inl (hgrows.broken hb)
    · by_cases hlast : (s.del handle).shuttingDown = true ∧ (s.del handle).hasManagers = false
      · refine Or.inl ⟨fun hl' => ?_, fun ho' => ?_⟩
        · have := hl' _ (List.mem_append_right _ (List.mem_singleton_self _)) hlast.1
          simp only [hlast.2, Bool.not_false, iff_true] at this
          exact absurd (this.symm.trans hr) (by decide)
        · have := ho'.2 _ (List.mem_append_right _ (List.mem_singleton_self _)) hlast.1
          simp [hlast.2] at this
      · rw [not_and, Bool.not_eq_false] at hlast
        refine Or.inr ⟨fun r hmem hsd => ?_, ⟨ho.1, fun b hmem hsd => ?_⟩, hr⟩
        · rcases List.mem_append.mp hmem with hmem | hmem
          · exact hl r hmem hsd
          · obtain rfl := List.mem_singleton.mp hmem
            refine iff_of_false ?_ ?_
            · exact fun hf => absurd (hf.symm.trans hr) (by decide)
            · simp [hlast hsd]
        · rcases List.mem_append.mp hmem with hmem | hmem
          · exact ho.2 b hmem hsd
          · obtain rfl := List.mem_singleton.mp hmem
            simp [hlast hsd]
  · exact hs

theorem disable_serving {op : Operation} {remove : Bool} (hs : Serving s) :
    Serving (disable mgr op remove s) := by
  unfold disable
  cases maskDel (s.mask mgr) op with
  | none => exact hs
  | some mask =>
    dsimp only
    split_ifs
    · exact delQualified_serving (s := s.maskSet mgr mask) hs
    · exact hs

theorem handleVerdict_serving {op : Operation} {verdict : ManagerResult} (hs : Serving s) :
    Serving (handleVerdict mgr op verdict s) := by
  cases verdict with
  | ok => exact hs
  | done => exact disable_serving hs
  | temporaryError => exact disable_serving hs
  | error => exact delQualified_serving hs

end Generic

variable {s s' : UringBase} {mgr : Manager}

theorem enable_serving {op : Operation} {virt : UringBase → Except Fault UringBase}
    {res : ManagerResult} (hvirt : ∀ s s', Serving s → virt s = .ok s' → Serving s')
    (hs : Serving s) (h : enable mgr op virt res s = .ok s') : Serving s' := by
  unfold enable enableWith at h
  cases ha : maskAdd (s.mask mgr) op with
  | none =>
    rw [ha] at h
    obtain rfl := Except.ok.inj h
    exact hs
  | some mask =>
    rw [ha] at h
    obtain ⟨⟨res', s₁⟩, hs₁, h⟩ := bind_eq_ok.mp h
    obtain ⟨s₂, hs₂, hpair⟩ := map_eq_ok.mp hs₁
    obtain ⟨rfl, rfl⟩ := Prod.mk.inj hpair
    have hserve : Serving s₂ := hvirt (s.maskSet mgr mask) s₂ hs hs₂
    dsimp only at h
    split_ifs at h
    · obtain rfl := Except.ok.inj h
      exact hserve
    · cases hd : maskDel (s₂.mask mgr) op with
      | none =>
        rw [hd] at h
        obtain rfl := Except.ok.inj h
        exact hserve
      | some old =>
        rw [hd] at h
        obtain rfl := Except.ok.inj h
        exact hserve

theorem register_serving {op : Operation} {virt : UringBase → Except Fault UringBase}
    {res : ManagerResult} (hvirt : ∀ s s', Serving s → virt s = .ok s' → Serving s')
    (hs : Serving s) (h : register mgr op virt res s = .ok s') : Serving s' := by
  unfold register at h
  split_ifs at h
  · exact enable_serving hvirt hs h
  · obtain rfl := Except.ok.inj h
    exact hs

mutual

/-- One act of a handler, by recursion on the acts of the managers it calls. -/
theorem perform_serving (act : Act) {s s' : UringBase} (hs : Serving s)
    (h : perform act s = .ok s') : Serving s' := by
  cases act with
  | registerReading mgr acts res =>
    exact register_serving (fun s s' hs h => performAll_serving acts hs h) hs h
  | registerWriting mgr acts res =>
    exact register_serving (fun s s' hs h => performAll_serving acts hs h) hs h
  | setTimeout mgr when =>
    obtain rfl := Except.ok.inj h
    exact hs
  | add mgr initial init fails acts res =>
    obtain ⟨⟨ok, s₁⟩, hs₁, h⟩ := bind_eq_ok.mp h
    obtain ⟨s₂, hs₂, hpair⟩ := map_eq_ok.mp hs₁
    obtain ⟨rfl, rfl⟩ := Prod.mk.inj hpair
    have hserve₂ : Serving s₂ := performAll_serving init (s := s.add mgr) hs hs₂
    obtain ⟨s₃, hs₃, h⟩ := bind_eq_ok.mp h
    have hserve₃ : Serving s₃ := by
      split_ifs at hs₃
      · obtain rfl := Except.ok.inj hs₃
        exact hserve₂
      · exact (shutdown_calm hs₃).serving hserve₂
    split_ifs at h
    exact enable_serving (fun s s' hs h => performAll_serving acts hs h) hserve₃ h
  | shutdown => exact (shutdown_calm h).serving hs
  | rehash order =>
    obtain rfl := Except.ok.inj h
    exact hs

/-- The acts of a handler. -/
theorem performAll_serving (acts : List Act) {s s' : UringBase} (hs : Serving s)
    (h : performAll acts s = .ok s') : Serving s' := by
  cases acts with
  | nil =>
    obtain rfl := Except.ok.inj h
    exact hs
  | cons act acts =>
    obtain ⟨s₁, hs₁, h⟩ := bind_eq_ok.mp h
    exact performAll_serving acts (perform_serving act hs hs₁) h

end

theorem handleEvents_serving {cs : List Completion} (hs : Serving s)
    (h : handleEvents cs s = .ok s') : Serving s' := by
  induction cs generalizing s with
  | nil =>
    obtain rfl := Except.ok.inj h
    exact hs
  | cons c cs ih =>
    obtain ⟨s₁, hs₁, h⟩ := bind_eq_ok.mp h
    exact ih (handleVerdict_serving (performAll_serving c.acts hs hs₁)) h

/-! ### The event loop -/

/-- **One iteration of the event loop.** -/
theorem loopStep_between {poll : Poll} (hs : Between s) (h : loopStep poll s = .ok s') :
    Between s' := by
  unfold loopStep at h
  by_cases hr : s.running = true
  · rw [if_pos hr] at h
    cases poll with
    | failed =>
      obtain rfl := Except.ok.inj h
      exact ⟨hs.1, fun hstop => by cases hstop⟩
    | completions now onTimeout completions =>
      obtain ⟨s₁, hs₁, h⟩ := bind_eq_ok.mp h
      have hserve₁ : Serving s₁ := MultiplexerBase.handleTimeouts_preserves
        (fun k mgr e s s' hs _ h => performAll_serving (onTimeout k) hs h) (fun s t c o hs => hs)
        (hs.2 hr) hs₁
      have hserve := handleEvents_serving hserve₁ h
      exact hserve.settled.between
  · rw [if_neg hr] at h
    obtain rfl := Except.ok.inj h
    exact hs

theorem run_between {polls : List Poll} (hs : Between s) (h : run polls s = .ok s') : Between s' := by
  induction polls generalizing s with
  | nil =>
    obtain rfl := Except.ok.inj h
    exact hs
  | cons poll polls ih =>
    obtain ⟨s₁, hs₁, h⟩ := bind_eq_ok.mp h
    exact ih (loopStep_between hs hs₁) h

end NetworkDriver.Net.Multiplexer.Uring.Shutdown
