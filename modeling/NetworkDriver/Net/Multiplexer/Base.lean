import NetworkDriver.Library.Keyed
import NetworkDriver.Library.Results
import NetworkDriver.Net.Types
import Mathlib.Logic.Function.Basic

/-! # The base of the multiplexers

`multiplexer_base` and `manager_base`: the managers by socket, their masks, the two flags of the
event loop and the timeouts. A `MultiplexerBase δ` holds the members of `multiplexer_base` and, as `δ`,
what the derived class adds. What the base calls through a virtual function or through a manager is a
parameter here.

A call may fail: `managers_.at` throws on a missing key, and code that goes on with an erased element
has no defined behaviour. `Fault` says which.

* `MultiplexerBase.setTimeout`, `MultiplexerBase.handleTimeouts`: the timeouts.
* `MultiplexerBase.shutdownWith`: `shutdown` on the thread of the multiplexer. -/

namespace NetworkDriver.Net.Multiplexer.Base

open NetworkDriver.Library.Keyed NetworkDriver.Library.Results NetworkDriver.Net.Types

/-! ### Managers and their masks -/

/-- `socket_id`. -/
abbrev SocketId := ℤ

/-- `invalid_socket_id`. -/
def invalidSocketId : SocketId := -1

/-- The identity of a manager object, and its socket, which never changes. -/
structure Manager where
  id : ℕ
  handle : SocketId
  deriving DecidableEq, Repr

/-- `manager_base::mask_add`: the new mask, if it changes. -/
def maskAdd (mask flag : Operation) : Option Operation :=
  if mask &&& flag = flag then none else some (mask ||| flag)

/-- `manager_base::mask_del`: the new mask, if it changes. -/
def maskDel (mask flag : Operation) : Option Operation :=
  if mask &&& flag = Operation.none then none else some (mask &&& ~~~flag)

theorem maskAdd_none {mask flag : Operation} (h : maskAdd mask flag = none) : mask &&& flag = flag := by
  unfold maskAdd at h
  split_ifs at h with hmask
  exact hmask

theorem maskAdd_some {mask flag new : Operation} (h : maskAdd mask flag = some new) :
    new = mask ||| flag ∧ new &&& flag = flag ∧ mask &&& flag ≠ flag := by
  unfold maskAdd at h
  split_ifs at h with hmask
  obtain rfl := Option.some.inj h
  refine ⟨rfl, ?_, hmask⟩
  ext i hi
  simp only [BitVec.getElem_and, BitVec.getElem_or]
  cases mask[i] <;> cases flag[i] <;> rfl

theorem and_of_maskDel_none {mask flag : Operation} (h : maskDel mask flag = none) :
    mask &&& flag = Operation.none := by
  unfold maskDel at h
  split_ifs at h with hnone
  exact hnone

theorem mask_of_maskDel_none {mask flag : Operation} (h : maskDel mask flag = none) :
    mask &&& ~~~flag = mask := by
  have hnone := and_of_maskDel_none h
  have hsplit : mask &&& (flag ||| ~~~flag) = mask := by
    rw [BitVec.or_not_self, BitVec.and_allOnes]
  rw [BitVec.and_or_distrib_left, hnone] at hsplit
  exact (BitVec.zero_or.symm.trans hsplit :)

theorem mask_of_maskDel_some {mask flag new : Operation} (h : maskDel mask flag = some new) :
    new = mask &&& ~~~flag := by
  unfold maskDel at h
  split_ifs at h
  exact (Option.some.inj h).symm

/-! ### Timeouts -/

/-- `timeout_entry`. -/
structure TimeoutEntry where
  handle : SocketId
  when : ℤ
  id : UInt64
  deriving DecidableEq, Repr

/-- `has_expired`, at a reading of the clock. -/
def TimeoutEntry.hasExpired (e : TimeoutEntry) (now : ℤ) : Prop := e.when ≤ now

instance (e : TimeoutEntry) (now : ℤ) : Decidable (e.hasExpired now) := by
  unfold TimeoutEntry.hasExpired; infer_instance

/-- `timeout_entry_set`: the comparison of `timeout_entry` looks at the deadline only. -/
abbrev TimeoutEntrySet := OrderedSet TimeoutEntry.when

/-! ### State -/

/-- What ends a call before its end: `std::out_of_range`, the use of an erased element, or a nesting
deeper than allowed. -/
inductive Fault where
  | outOfRange
  | dangling
  | tooDeep
  deriving DecidableEq, Repr

/-- The removal of a manager: the flags and whether a manager is left, after it. -/
structure Removal where
  shuttingDown : Bool
  running : Bool
  empty : Bool
  deriving DecidableEq, Repr

/-- A call of `shutdown`: whether the event loop runs, and whether a manager other than the pipe reader
waits for nothing but reading and accepting, before it. -/
structure ShutdownCall where
  running : Bool
  idle : Bool
  deriving DecidableEq, Repr

/-- A removal by a qualified call of `multiplexer_base::del`: whether the multiplexer is shutting down,
and whether no other manager is there. -/
structure Bypass where
  shuttingDown : Bool
  last : Bool
  deriving DecidableEq, Repr

/-- What happened so far; no function of the source reads it. -/
structure History where
  removals : List Removal := []
  shutdowns : List ShutdownCall := []
  bypasses : List Bypass := []
  deriving DecidableEq, Repr

/-- The members of `multiplexer_base`, the `mask_` of every manager object, the history and the members
of the derived class. -/
structure MultiplexerBase (δ : Type) where
  managers : KeyedMap Manager.handle
  mask : Manager → Operation
  shuttingDown : Bool
  running : Bool
  pipeWriter : SocketId
  pipeReader : SocketId
  timeouts : TimeoutEntrySet
  cachedTimeouts : TimeoutEntrySet
  currentTimeoutId : UInt64
  currentTimeout : Option ℤ
  history : History := {}
  derived : δ

namespace MultiplexerBase

variable {δ : Type}

/-- A multiplexer as it is constructed. -/
def init (derived : δ) : MultiplexerBase δ where
  managers := .empty
  mask _ := Operation.none
  shuttingDown := false
  running := false
  pipeWriter := invalidSocketId
  pipeReader := invalidSocketId
  timeouts := .empty
  cachedTimeouts := .empty
  currentTimeoutId := 0
  currentTimeout := none
  derived := derived

/-- `mask_set`. -/
def maskSet (s : MultiplexerBase δ) (mgr : Manager) (mask : Operation) : MultiplexerBase δ :=
  { s with mask := Function.update s.mask mgr mask }

@[simp] theorem maskSet_mask_self (s : MultiplexerBase δ) (mgr : Manager) (mask : Operation) :
    (s.maskSet mgr mask).mask mgr = mask :=
  Function.update_self ..

theorem maskSet_mask_of_ne (s : MultiplexerBase δ) {mgr m : Manager} (mask : Operation) (h : m ≠ mgr) :
    (s.maskSet mgr mask).mask m = s.mask m :=
  Function.update_of_ne h ..

/-- `multiplexer_base::add`. -/
def add (s : MultiplexerBase δ) (mgr : Manager) : MultiplexerBase δ :=
  { s with managers := s.managers.emplace mgr }

/-- `multiplexer_base::del`. -/
def del (s : MultiplexerBase δ) (handle : SocketId) : MultiplexerBase δ :=
  { s with managers := s.managers.erase handle }

/-- `has_managers`. -/
def hasManagers (s : MultiplexerBase δ) : Bool := !s.managers.elems.isEmpty

/-- Records a removal that just ended. -/
def logRemoval (s : MultiplexerBase δ) : MultiplexerBase δ :=
  { s with
    history.removals := s.history.removals ++ [⟨s.shuttingDown, s.running, !s.hasManagers⟩] }

/-- A qualified call of `multiplexer_base::del` from a derived class, past its own `del`. Only a
manager that was there is removed. -/
def delQualified (s : MultiplexerBase δ) (handle : SocketId) : MultiplexerBase δ :=
  let found := (s.managers.find? handle).isSome
  let s := s.del handle
  if found then
    { s.logRemoval with
      history.bypasses := s.history.bypasses ++ [⟨s.shuttingDown, !s.hasManagers⟩] }
  else s

/-- `del(iterator)`, as epoll and io_uring override it, after what epoll does first. -/
def eraseIt (s : MultiplexerBase δ) (mgr : Manager) : MultiplexerBase δ :=
  let s := s.del mgr.handle
  let s := if s.shuttingDown && s.hasManagers then { s with running := false } else s
  s.logRemoval

@[simp] theorem eraseIt_managers (s : MultiplexerBase δ) (mgr : Manager) :
    (s.eraseIt mgr).managers = s.managers.erase mgr.handle := by
  unfold eraseIt
  dsimp only
  split_ifs <;> rfl

@[simp] theorem eraseIt_mask (s : MultiplexerBase δ) (mgr : Manager) :
    (s.eraseIt mgr).mask = s.mask := by
  unfold eraseIt
  dsimp only
  split_ifs <;> rfl

@[simp] theorem eraseIt_pipeReader (s : MultiplexerBase δ) (mgr : Manager) :
    (s.eraseIt mgr).pipeReader = s.pipeReader := by
  unfold eraseIt
  dsimp only
  split_ifs <;> rfl

@[simp] theorem eraseIt_derived (s : MultiplexerBase δ) (mgr : Manager) :
    (s.eraseIt mgr).derived = s.derived := by
  unfold eraseIt
  dsimp only
  split_ifs <;> rfl

/-! ### Timeout management -/

/-- `set_timeout`: the id it returns, and the state after it. -/
def setTimeout (s : MultiplexerBase δ) (mgr : Manager) (when : ℤ) : UInt64 × MultiplexerBase δ :=
  (s.currentTimeoutId,
    { s with
      timeouts := s.timeouts.insert ⟨mgr.handle, when, s.currentTimeoutId⟩
      currentTimeout := some (match s.currentTimeout with
        | some t => min when t
        | none => when)
      currentTimeoutId := s.currentTimeoutId + 1 })

section Timeouts

-- `handle k mgr e` is the `k`-th `mgr->handle_timeout(e.id())` of a call, and `now k` its `k`-th
-- reading of the clock
variable (handle : ℕ → Manager → TimeoutEntry → MultiplexerBase δ → Except Fault (MultiplexerBase δ))
  (now : ℕ → ℤ)

/-- The loop of `handle_timeouts` over the cached set, from its `k`-th step on. What is left of the
set is returned. -/
def expire : ℕ → List TimeoutEntry → MultiplexerBase δ →
    Except Fault (MultiplexerBase δ × List TimeoutEntry)
  | _, [], s => .ok (s, [])
  | k, e :: rest, s =>
    if e.hasExpired (now k) then
      match s.managers.find? e.handle with
      | none => .error .outOfRange
      | some mgr => do
        let s ← handle k mgr e s
        expire (k + 1) rest s
    else .ok (s, e :: rest)

/-- `handle_timeouts`. -/
def handleTimeouts (s : MultiplexerBase δ) : Except Fault (MultiplexerBase δ) := do
  let s := { s with timeouts := s.cachedTimeouts, cachedTimeouts := s.timeouts }
  let (s, rest) ← expire handle now 0 s.cachedTimeouts.elems s
  let s := { s with timeouts := s.timeouts.insertAll rest, cachedTimeouts := .empty }
  return { s with currentTimeout := s.timeouts.elems.head?.map TimeoutEntry.when }

variable {handle now} {I : MultiplexerBase δ → Prop}

/-- What the handlers of registered managers preserve, the loop of `handle_timeouts` preserves. -/
theorem expire_preserves
    (hhandle : ∀ k mgr e s s', I s → mgr ∈ s.managers.elems → handle k mgr e s = .ok s' → I s')
    {k : ℕ} {l rest : List TimeoutEntry} {s s' : MultiplexerBase δ} (hs : I s)
    (h : expire handle now k l s = .ok (s', rest)) : I s' := by
  induction l generalizing k s with
  | nil =>
    obtain ⟨rfl, rfl⟩ := Prod.mk.inj (Except.ok.inj h)
    exact hs
  | cons e l ih =>
    unfold expire at h
    by_cases hx : e.hasExpired (now k)
    · rw [if_pos hx] at h
      cases hfind : s.managers.find? e.handle with
      | none =>
        rw [hfind] at h
        cases h
      | some mgr =>
        rw [hfind] at h
        obtain ⟨s₁, hs₁, h⟩ := bind_eq_ok.mp h
        exact ih (hhandle k mgr e s s₁ hs (KeyedMap.find?_eq_some.mp hfind).1 hs₁) h
    · rw [if_neg hx] at h
      obtain ⟨rfl, rfl⟩ := Prod.mk.inj (Except.ok.inj h)
      exact hs

/-- **`handle_timeouts` preserves what its handlers preserve**, if it does not depend on the
timeouts. -/
theorem handleTimeouts_preserves
    (hhandle : ∀ k mgr e s s', I s → mgr ∈ s.managers.elems → handle k mgr e s = .ok s' → I s')
    (hI : ∀ s t c o, I s →
      I { s with timeouts := t, cachedTimeouts := c, currentTimeout := o })
    {s s' : MultiplexerBase δ} (hs : I s) (h : s.handleTimeouts handle now = .ok s') : I s' := by
  obtain ⟨⟨s₁, rest⟩, hs₁, h⟩ := bind_eq_ok.mp h
  obtain rfl := Except.ok.inj h
  exact hI s₁ _ _ _ (expire_preserves hhandle (hI s _ _ _ hs) hs₁)

/-- Handlers that do not fail leave one fault to the loop: a timeout whose manager is not there. -/
theorem expire_total (hhandle : ∀ k mgr e s, I s → ∃ s', handle k mgr e s = .ok s' ∧ I s') {k : ℕ}
    {l : List TimeoutEntry} {s : MultiplexerBase δ} (hs : I s) :
    (∃ s' rest, expire handle now k l s = .ok (s', rest) ∧ I s') ∨
      expire handle now k l s = .error .outOfRange := by
  induction l generalizing k s with
  | nil => exact .inl ⟨s, [], rfl, hs⟩
  | cons e l ih =>
    unfold expire
    by_cases hx : e.hasExpired (now k)
    · rw [if_pos hx]
      cases s.managers.find? e.handle with
      | none => exact .inr rfl
      | some mgr =>
        obtain ⟨s₁, hok, hs₁⟩ := hhandle k mgr e s hs
        dsimp only
        rw [hok]
        exact ih hs₁
    · rw [if_neg hx]
      exact .inl ⟨s, e :: l, rfl, hs⟩

/-- **`handle_timeouts` ends regularly, or with that fault.** -/
theorem handleTimeouts_total (hhandle : ∀ k mgr e s, I s → ∃ s', handle k mgr e s = .ok s' ∧ I s')
    (hI : ∀ s t c o, I s → I { s with timeouts := t, cachedTimeouts := c, currentTimeout := o })
    {s : MultiplexerBase δ} (hs : I s) :
    (∃ s', s.handleTimeouts handle now = .ok s' ∧ I s') ∨
      s.handleTimeouts handle now = .error .outOfRange := by
  unfold handleTimeouts
  rcases expire_total (k := 0) (l := s.timeouts.elems) hhandle
    (hI s s.cachedTimeouts s.timeouts s.currentTimeout hs) with ⟨s', rest, hok, hs'⟩ | hfault
  · dsimp only
    rw [hok]
    exact .inl ⟨_, rfl, hI s' _ _ _ hs'⟩
  · dsimp only
    rw [hfault]
    exact .inr rfl

end Timeouts

/-! ### Shutdown -/

section Shutdown

-- the virtual functions `disable(mgr, operation::read_accept, false)` and `del(it)`
variable (disable del : Manager → MultiplexerBase δ → Except Fault (MultiplexerBase δ))

/-- A manager, other than the pipe reader, that waits for nothing but reading and accepting. -/
def Idle (s : MultiplexerBase δ) : Prop :=
  ∃ mgr ∈ s.managers.elems, mgr.handle ≠ s.pipeReader ∧
    s.mask mgr &&& ~~~Operation.readAccept = Operation.none

instance (s : MultiplexerBase δ) : Decidable s.Idle := by unfold Idle; infer_instance

/-- Records a call of `shutdown` that starts. -/
def logShutdown (s : MultiplexerBase δ) : MultiplexerBase δ :=
  { s with history.shutdowns := s.history.shutdowns ++ [⟨s.running, decide s.Idle⟩] }

/-- The loop of `shutdown`. An element that an inner call has erased is not visited any more; one that
is erased while it is visited leaves a dangling reference. -/
def shutdownLoop : List Manager → MultiplexerBase δ → Except Fault (MultiplexerBase δ)
  | [], s => .ok s
  | mgr :: rest, s =>
    if mgr ∈ s.managers.elems ∧ mgr.handle ≠ s.pipeReader then do
      let s ← disable mgr s
      if mgr ∉ s.managers.elems then .error .dangling
      else if s.mask mgr = Operation.none then do
        let s ← del mgr s
        shutdownLoop rest s
      else shutdownLoop rest s
    else shutdownLoop rest s

/-- `shutdown`, on the thread of the multiplexer. -/
def shutdownWith (s : MultiplexerBase δ) : Except Fault (MultiplexerBase δ) := do
  let s := { s.logShutdown with shuttingDown := true }
  let s ← shutdownLoop disable del s.managers.elems s
  return { s with pipeWriter := invalidSocketId }

end Shutdown

section Visits

variable (disable del : Manager → MultiplexerBase δ → MultiplexerBase δ)

/-- A round of the loop of `shutdown`, for functions that do not fail. -/
def visit (s : MultiplexerBase δ) (mgr : Manager) : MultiplexerBase δ :=
  if mgr ∈ s.managers.elems ∧ mgr.handle ≠ s.pipeReader then
    if (disable mgr s).mask mgr = Operation.none then del mgr (disable mgr s) else disable mgr s
  else s

variable {disable del}

/-- A `disable` that does not erase the manager it is about leaves no dangling reference: the loop
makes its rounds. -/
theorem shutdownLoop_eq_foldl
    (hstay : ∀ s mgr, mgr ∈ s.managers.elems → mgr ∈ (disable mgr s).managers.elems)
    (l : List Manager) (s : MultiplexerBase δ) :
    shutdownLoop (fun mgr s => .ok (disable mgr s)) (fun mgr s => .ok (del mgr s)) l s =
      .ok (l.foldl (visit disable del) s) := by
  induction l generalizing s with
  | nil => rfl
  | cons mgr l ih =>
    rw [List.foldl_cons, ← ih]
    conv_lhs => unfold shutdownLoop
    unfold visit
    by_cases hvisit : mgr ∈ s.managers.elems ∧ mgr.handle ≠ s.pipeReader
    · have hmem := hstay s mgr hvisit.1
      rw [if_pos hvisit, if_pos hvisit]
      change (if mgr ∉ (disable mgr s).managers.elems then _ else if _ then _ else _) = _
      rw [if_neg (not_not_intro hmem)]
      split_ifs
      · rfl
      · rfl
    · rw [if_neg hvisit, if_neg hvisit]

/-- **What such a `shutdown` does.** -/
theorem shutdownWith_eq_ok
    (hstay : ∀ s mgr, mgr ∈ s.managers.elems → mgr ∈ (disable mgr s).managers.elems)
    (s : MultiplexerBase δ) :
    s.shutdownWith (fun mgr s => .ok (disable mgr s)) (fun mgr s => .ok (del mgr s)) =
      .ok { s.managers.elems.foldl (visit disable del) { s.logShutdown with shuttingDown := true } with
        pipeWriter := invalidSocketId } := by
  unfold shutdownWith
  dsimp only
  rw [shutdownLoop_eq_foldl hstay]
  rfl

end Visits

end MultiplexerBase

end NetworkDriver.Net.Multiplexer.Base
