import NetworkDriver.Library.Run
import NetworkDriver.Library.Tally
import NetworkDriver.Net.Multiplexer.Base

/-! # Socket guards

The `socket_guard` variables of a program, which may exist or not, with their `sock_`, and the
descriptors of the process. `std::swap` is a move construction and two move assignments, and the
move assignment of a guard is a move construction and a `std::swap`: its calls are counted by their
depth, and it never returns.

* `moveAssign_eq_none`: however deep its calls may go.
* `Owned`: an open socket is in at most one guard, any other one in none; what entered a guard was
  released, closed or is still there.
* `owned_step_iff`: exactly which operations keep that.
* `owned_iff`: exactly which programs do. -/

namespace NetworkDriver.Net.Socket.Guard

open NetworkDriver.Library.Run NetworkDriver.Library.Tally
open NetworkDriver.Net.Multiplexer.Base (SocketId invalidSocketId)

/-- The descriptors that are open, the guards of a program, and the guards on the stack of an
operation in progress. How often a socket entered a guard, was released by one or closed by one is
kept for the statements only, like whether one was closed that was not open. -/
structure Process (ι : Type) where
  isOpen : SocketId → Bool
  guards : ι → Option SocketId
  stack : List SocketId := []
  entered : SocketId → ℕ := fun _ => 0
  released : SocketId → ℕ := fun _ => 0
  closed : SocketId → ℕ := fun _ => 0
  misused : Bool := false

variable {ι : Type}

/-- No descriptor and no guard. -/
def Process.start : Process ι := { isOpen := fun _ => false, guards := fun _ => none }

/-- A guard: a variable, or one on the stack, from below. -/
inductive Ref (ι : Type) where
  | var (v : ι)
  | temp (n : ℕ)

/-! ### `socket_guard` -/

section Operations

variable [DecidableEq ι]

/-- One more. -/
def count (f : SocketId → ℕ) (sock : SocketId) : SocketId → ℕ := Function.update f sock (f sock + 1)

/-- `close`, called by a guard. -/
def close (hdl : SocketId) (p : Process ι) : Process ι :=
  if hdl ≠ invalidSocketId then
    { p with
      isOpen := Function.update p.isOpen hdl false
      closed := count p.closed hdl
      misused := p.misused || !p.isOpen hdl }
  else p

/-- `sock_`, invalid for a guard that does not exist. -/
def get (p : Process ι) : Ref ι → SocketId
  | .var v => (p.guards v).getD invalidSocketId
  | .temp n => p.stack.getD n invalidSocketId

/-- `sock_ = sock`. -/
def setSock (r : Ref ι) (sock : SocketId) (p : Process ι) : Process ι :=
  match r with
  | .var v => { p with guards := Function.update p.guards v (some sock) }
  | .temp n => { p with stack := p.stack.set n sock }

def release (r : Ref ι) (p : Process ι) : SocketId × Process ι := (get p r, setSock r invalidSocketId p)

def reset (r : Ref ι) (sock : SocketId) (p : Process ι) : Process ι :=
  setSock r sock (if get p r ≠ invalidSocketId then close (get p r) p else p)

/-- `socket_guard tmp{std::move(other)}`. -/
def pushMoved (other : Ref ι) (p : Process ι) : Ref ι × Process ι :=
  let moved := release other p
  (.temp moved.2.stack.length, { moved.2 with stack := moved.2.stack ++ [moved.1] })

/-- The end of the scope of the last guard on the stack. -/
def popDestroyed (p : Process ι) : Process ι :=
  let p := reset (.temp (p.stack.length - 1)) invalidSocketId p
  { p with stack := p.stack.dropLast }

/-- `std::swap`, for a type with that move assignment. -/
def swap (moveAssign : Ref ι → Ref ι → Process ι → Option (Process ι)) (a b : Ref ι) (p : Process ι) :
    Option (Process ι) := do
  let (t, p) := pushMoved a p
  let p ← moveAssign a b p
  let p ← moveAssign b t p
  return popDestroyed p

/-- `operator=(socket_guard&&)`, with calls of at most some depth. -/
def moveAssign : ℕ → Ref ι → Ref ι → Process ι → Option (Process ι)
  | 0, _, _, _ => none
  | depth + 1, self, other, p => do
    let (tmp, p) := pushMoved other p
    let p ← swap (moveAssign depth) self tmp p
    return popDestroyed p

/-! ### Programs -/

/-- What a program does with its guards; it opens a socket, and closes one itself. -/
inductive Op (ι : Type) where
  | openSocket (sock : SocketId)
  | closeSocket (sock : SocketId)
  | construct (v : ι) (sock : SocketId)
  | makeEmpty (v : ι)
  | moveConstruct (v other : ι)
  | moveAssign (v other : ι)
  | rawAssign (v : ι) (sock : SocketId)
  | reset (v : ι) (sock : SocketId)
  | release (v : ι)
  | destroy (v : ι)

/-- A socket that a guard is given. -/
def enter (sock : SocketId) (p : Process ι) : Process ι :=
  if sock = invalidSocketId then p else { p with entered := count p.entered sock }

/-- A socket that a guard gives away. -/
def leave (sock : SocketId) (p : Process ι) : Process ι :=
  if sock = invalidSocketId then p else { p with released := count p.released sock }

/-- An operation, whose calls may have some depth. -/
def exec (depth : ℕ) (p : Process ι) : Op ι → Option (Process ι)
  | .openSocket sock => some { p with isOpen := Function.update p.isOpen sock true }
  | .closeSocket sock => some { p with isOpen := Function.update p.isOpen sock false }
  | .construct v sock => some (enter sock (setSock (.var v) sock p))
  | .makeEmpty v => some (setSock (.var v) invalidSocketId p)
  | .moveConstruct v other =>
    some (setSock (.var v) (release (.var other) p).1 (release (.var other) p).2)
  | .moveAssign v other => moveAssign depth (.var v) (.var other) p
  | .rawAssign v sock => some (enter sock (reset (.var v) sock p))
  | .reset v sock => some (enter sock (reset (.var v) sock p))
  | .release v => some (leave (release (.var v) p).1 (release (.var v) p).2)
  | .destroy v =>
    let p := reset (.var v) invalidSocketId p
    some { p with guards := Function.update p.guards v none }

/-- A step of a program; there is no state behind an operation that does not return. -/
def step (depth : ℕ) (p : Option (Process ι)) (op : Op ι) : Option (Process ι) :=
  p.bind fun p => exec depth p op

/-- **A move assignment does not return**, however deep its calls may go. -/
theorem moveAssign_eq_none (depth : ℕ) (self other : Ref ι) (p : Process ι) :
    moveAssign depth self other p = none := by
  induction depth generalizing self other p with
  | zero => rfl
  | succ depth ih =>
    unfold moveAssign swap
    dsimp only
    rw [ih]
    rfl

end Operations

/-! ### Ownership -/

section Ownership

variable [Fintype ι]

/-- The guards that hold a socket. -/
def holders (p : Process ι) (sock : SocketId) : ℕ := tally p.guards (some sock)

/-- **Unique ownership**: an open socket is in at most one guard, any other one in none; what
entered a guard was released, closed or is still there; and nothing was closed that was not open. -/
structure Owned (p : Process ι) : Prop where
  held : ∀ sock ≠ invalidSocketId, holders p sock ≤ if p.isOpen sock then 1 else 0
  balance : ∀ sock ≠ invalidSocketId, p.entered sock = p.released sock + p.closed sock + holders p sock
  unmisused : p.misused = false

/-- The socket is invalid, or open and in no other guard. -/
def Unowned (p : Process ι) (v : ι) (sock : SocketId) : Prop :=
  sock = invalidSocketId ∨ p.isOpen sock = true ∧ ∀ w, w ≠ v → p.guards w ≠ some sock

/-- The guards of an operation exist, or do not where it makes one, and a raw socket is open and
owned by no guard, but perhaps the one it is assigned to. -/
def Admissible (p : Process ι) : Op ι → Prop
  | .openSocket sock => sock ≠ invalidSocketId ∧ p.isOpen sock = false
  | .closeSocket sock => ∀ w, p.guards w ≠ some sock
  | .construct v sock => p.guards v = none ∧ Unowned p v sock
  | .makeEmpty v => p.guards v = none
  | .moveConstruct v other => p.guards v = none ∧ p.guards other ≠ none
  | .moveAssign v other => p.guards v ≠ none ∧ p.guards other ≠ none
  | .rawAssign v sock | .reset v sock => p.guards v ≠ none ∧ Unowned p v sock
  | .release v | .destroy v => p.guards v ≠ none

/-- **The condition**: no guard is move-assigned, or given the socket that it holds. -/
def Kept (p : Process ι) : Op ι → Prop
  | .moveAssign _ _ => False
  | .rawAssign v sock | .reset v sock => sock = invalidSocketId ∨ p.guards v ≠ some sock
  | _ => True

variable [DecidableEq ι]

instance (p : Process ι) (v : ι) (sock : SocketId) : Decidable (Unowned p v sock) :=
  inferInstanceAs (Decidable (sock = invalidSocketId ∨
    p.isOpen sock = true ∧ ∀ w, w ≠ v → p.guards w ≠ some sock))

instance (p : Process ι) : (op : Op ι) → Decidable (Admissible p op)
  | .openSocket sock => inferInstanceAs (Decidable (sock ≠ invalidSocketId ∧ p.isOpen sock = false))
  | .closeSocket sock => inferInstanceAs (Decidable (∀ w, p.guards w ≠ some sock))
  | .construct v sock => inferInstanceAs (Decidable (p.guards v = none ∧ Unowned p v sock))
  | .makeEmpty v => inferInstanceAs (Decidable (p.guards v = none))
  | .moveConstruct v other => inferInstanceAs (Decidable (p.guards v = none ∧ p.guards other ≠ none))
  | .moveAssign v other => inferInstanceAs (Decidable (p.guards v ≠ none ∧ p.guards other ≠ none))
  | .rawAssign v sock | .reset v sock =>
    inferInstanceAs (Decidable (p.guards v ≠ none ∧ Unowned p v sock))
  | .release v | .destroy v => inferInstanceAs (Decidable (p.guards v ≠ none))

omit [Fintype ι] in
instance (p : Process ι) : (op : Op ι) → Decidable (Kept p op)
  | .moveAssign _ _ => .isFalse id
  | .rawAssign v sock | .reset v sock =>
    inferInstanceAs (Decidable (sock = invalidSocketId ∨ p.guards v ≠ some sock))
  | .openSocket _ | .closeSocket _ | .construct .. | .makeEmpty _ | .moveConstruct .. | .release _ |
    .destroy _ => .isTrue trivial

variable {p : Process ι} {v : ι} {sock : SocketId}

omit [DecidableEq ι] in
theorem holders_eq_zero (h : ∀ w, p.guards w ≠ some sock) : holders p sock = 0 :=
  Finset.sum_eq_zero fun w _ => if_neg (h w)

/-- A guard that gets another value. -/
theorem holders_update (p : Process ι) (v : ι) (x : Option SocketId) (sock : SocketId) :
    tally (Function.update p.guards v x) (some sock) + (if p.guards v = some sock then 1 else 0) =
      holders p sock + (if x = some sock then 1 else 0) :=
  tally_update p.guards v x (some sock)

theorem holders_pos (h : p.guards v = some sock) : 0 < holders p sock := tally_pos h

/-- A held socket is open. -/
theorem Owned.isOpen (h : Owned p) (hv : p.guards v = some sock) (hsock : sock ≠ invalidSocketId) :
    p.isOpen sock = true := by
  have hheld := h.held sock hsock
  have hpos := holders_pos hv
  by_contra hclosed
  rw [if_neg hclosed] at hheld
  omega

omit [Fintype ι] [DecidableEq ι] in
theorem get_var (h : p.guards v = some sock) : get p (.var v) = sock := by
  change (p.guards v).getD invalidSocketId = sock
  rw [h]
  rfl

omit [Fintype ι] in
/-- What a reset of a guard that holds `old` leaves. -/
theorem reset_eq {old : SocketId} (h : p.guards v = some old) (sock : SocketId) :
    reset (.var v) sock p = { close old p with guards := Function.update p.guards v (some sock) } := by
  unfold reset
  rw [get_var h]
  by_cases hold : old = invalidSocketId
  · subst hold
    rfl
  · rw [if_pos hold]
    unfold close
    rw [if_pos hold]
    rfl

theorem count_apply (f : SocketId → ℕ) (a s : SocketId) :
    count f a s = f s + if s = a then 1 else 0 := by
  unfold count
  rw [Function.update_apply]
  split_ifs with h
  · rw [h]
  · rfl

omit [Fintype ι] [DecidableEq ι] in
/-- What `close` does to a valid socket. -/
theorem close_apply (old : SocketId) (p : Process ι) {s : SocketId} (hs : s ≠ invalidSocketId) :
    (close old p).isOpen s = (if s = old then false else p.isOpen s) ∧
      (close old p).closed s = p.closed s + (if s = old then 1 else 0) := by
  unfold close
  by_cases hold : old = invalidSocketId
  · have hne : s ≠ old := hold ▸ hs
    rw [if_neg (not_not.mpr hold), if_neg hne, if_neg hne]
    exact ⟨rfl, rfl⟩
  · rw [if_pos hold]
    exact ⟨Function.update_apply _ _ _ _, count_apply _ _ _⟩

omit [Fintype ι] [DecidableEq ι] in
theorem close_fields (old : SocketId) (p : Process ι) :
    (close old p).entered = p.entered ∧ (close old p).released = p.released ∧
      (close old p).guards = p.guards := by
  unfold close
  split_ifs <;> exact ⟨rfl, rfl, rfl⟩

omit [Fintype ι] [DecidableEq ι] in
theorem enter_apply (sock : SocketId) (p : Process ι) {s : SocketId} (hs : s ≠ invalidSocketId) :
    (enter sock p).entered s = p.entered s + if s = sock then 1 else 0 := by
  unfold enter
  by_cases hsock : sock = invalidSocketId
  · have hne : s ≠ sock := hsock ▸ hs
    rw [if_pos hsock, if_neg hne]
    rfl
  · rw [if_neg hsock]
    exact count_apply _ _ _

omit [Fintype ι] [DecidableEq ι] in
theorem enter_fields (sock : SocketId) (p : Process ι) :
    (enter sock p).isOpen = p.isOpen ∧ (enter sock p).guards = p.guards ∧
      (enter sock p).released = p.released ∧ (enter sock p).closed = p.closed ∧
      (enter sock p).misused = p.misused := by
  unfold enter
  split_ifs <;> exact ⟨rfl, rfl, rfl, rfl, rfl⟩

/-- A guard that closes what it holds closes something open. -/
theorem Owned.close_unmisused {old : SocketId} (h : Owned p) (hv : p.guards v = some old) :
    (close old p).misused = false := by
  unfold close
  split_ifs with hold
  · change (p.misused || !p.isOpen old) = false
    rw [h.unmisused, h.isOpen hv hold]
    rfl
  · exact h.unmisused

/-- What a guard that holds `old` and is reset to `sock` leaves, for a valid socket. -/
theorem reset_fields {old : SocketId} (hold : p.guards v = some old) (sock : SocketId) {s : SocketId}
    (hs : s ≠ invalidSocketId) :
    holders (enter sock (reset (.var v) sock p)) s + (if old = s then 1 else 0) =
        holders p s + (if sock = s then 1 else 0) ∧
      (enter sock (reset (.var v) sock p)).isOpen s = (if s = old then false else p.isOpen s) ∧
      (enter sock (reset (.var v) sock p)).closed s = p.closed s + (if s = old then 1 else 0) ∧
      (enter sock (reset (.var v) sock p)).released s = p.released s ∧
      (enter sock (reset (.var v) sock p)).entered s = p.entered s + (if s = sock then 1 else 0) := by
  obtain ⟨hisOpen, hguards, hreleased, hclosed, _⟩ := enter_fields sock (reset (.var v) sock p)
  obtain ⟨hentered', hreleased', _⟩ := close_fields old p
  obtain ⟨hisOpen', hclosed'⟩ := close_apply old p hs
  have hentered := enter_apply sock (reset (.var v) sock p) hs
  have hupdate := holders_update p v (some sock) s
  simp only [hold, Option.some.injEq] at hupdate
  refine ⟨?_, ?_, ?_, ?_, ?_⟩
  · rw [← hupdate]
    unfold holders
    rw [hguards, reset_eq hold]
  · rw [hisOpen, reset_eq hold]
    exact hisOpen'
  · rw [hclosed, reset_eq hold]
    exact hclosed'
  · rw [hreleased, reset_eq hold]
    exact congrFun hreleased' s
  · rw [hentered, reset_eq hold]
    exact congrArg (· + _) (congrFun hentered' s)

/-- A socket of no guard. -/
theorem Unowned.holders_eq_zero (h : Unowned p v sock) (hvalid : sock ≠ invalidSocketId)
    (hv : p.guards v ≠ some sock) : holders p sock = 0 := by
  refine Guard.holders_eq_zero fun w => ?_
  by_cases hw : w = v
  · rw [hw]
    exact hv
  · exact (h.resolve_left hvalid).2 w hw

/-- A guard that is reset to the socket that it holds goes on holding it, closed. -/
theorem not_owned_reset (hv : p.guards v = some sock) (hvalid : sock ≠ invalidSocketId) :
    ¬ Owned (enter sock (reset (.var v) sock p)) := by
  intro hafter
  have hheld := hafter.held sock hvalid
  have hpos := holders_pos hv
  obtain ⟨hcount, hisOpen, _⟩ := reset_fields hv sock hvalid
  rw [hisOpen, if_pos rfl, if_neg Bool.false_ne_true] at hheld
  omega

theorem owned_reset {old : SocketId} (h : Owned p) (hold : p.guards v = some old)
    (hsock : Unowned p v sock) (hkept : sock = invalidSocketId ∨ p.guards v ≠ some sock) :
    Owned (enter sock (reset (.var v) sock p)) := by
  refine ⟨fun s hs => ?_, fun s hs => ?_, ?_⟩
  · obtain ⟨hcount, hisOpen, _⟩ := reset_fields hold sock hs
    have hheld := h.held s hs
    rw [hisOpen]
    by_cases hold' : s = old
    · subst hold'
      have hopen := h.isOpen hold hs
      have hne : sock ≠ s := by
        rintro rfl
        exact hkept.resolve_left hs hold
      rw [hopen, if_pos rfl] at hheld
      rw [if_pos rfl, if_neg hne] at hcount
      omega
    · rw [if_neg (Ne.symm hold')] at hcount
      rw [if_neg hold']
      by_cases hnew : sock = s
      · subst hnew
        have hzero := hsock.holders_eq_zero hs (hkept.resolve_left hs)
        rw [(hsock.resolve_left hs).1, if_pos rfl]
        rw [if_pos rfl] at hcount
        omega
      · rw [if_neg hnew] at hcount
        omega
  · obtain ⟨hcount, _, hclosed, hreleased, hentered⟩ := reset_fields hold sock hs
    have hbalance := h.balance s hs
    rw [hclosed, hreleased, hentered]
    simp only [eq_comm (a := s)]
    omega
  · rw [(enter_fields _ _).2.2.2.2, reset_eq hold]
    exact h.close_unmisused hold

/-- **A reset keeps the ownership exactly if the guard does not hold the new socket already.** -/
theorem owned_reset_iff (h : Owned p) (hv : p.guards v ≠ none) (hsock : Unowned p v sock) :
    Owned (enter sock (reset (.var v) sock p)) ↔ sock = invalidSocketId ∨ p.guards v ≠ some sock := by
  obtain ⟨old, hold⟩ := Option.ne_none_iff_exists'.mp hv
  constructor
  · intro hafter
    by_contra hno
    obtain ⟨hvalid, hsame⟩ := not_or.mp hno
    exact not_owned_reset (not_not.mp hsame) hvalid hafter
  · exact owned_reset h hold hsock

omit [DecidableEq ι] in
/-- What leaves the guards of each socket as many keeps the ownership. -/
theorem Owned.congr {p' : Process ι} (h : Owned p)
    (hholders : ∀ s ≠ invalidSocketId, holders p' s = holders p s) (hisOpen : p'.isOpen = p.isOpen)
    (hentered : p'.entered = p.entered) (hreleased : p'.released = p.released)
    (hclosed : p'.closed = p.closed) (hmisused : p'.misused = p.misused) : Owned p' where
  held s hs := by
    rw [hholders s hs, hisOpen]
    exact h.held s hs
  balance s hs := by
    rw [hholders s hs, hentered, hreleased, hclosed]
    exact h.balance s hs
  unmisused := hmisused.trans h.unmisused

/-- A value that is no valid socket. -/
theorem holders_update_of_ne {x : Option SocketId} {s : SocketId} (hold : p.guards v ≠ some s)
    (hnew : x ≠ some s) : tally (Function.update p.guards v x) (some s) = holders p s := by
  have hupdate := holders_update p v x s
  rw [if_neg hold, if_neg hnew] at hupdate
  omega

omit [DecidableEq ι] in
theorem owned_openSocket (h : Owned p) (hsock : p.isOpen sock = false) :
    Owned { p with isOpen := Function.update p.isOpen sock true } where
  held s hs := by
    have hheld := h.held s hs
    change holders p s ≤ if Function.update p.isOpen sock true s = true then 1 else 0
    by_cases hsame : s = sock
    · rw [hsame, hsock, if_neg Bool.false_ne_true] at hheld
      rw [hsame, Function.update_self]
      exact hheld.trans (Nat.zero_le _)
    · rw [Function.update_of_ne hsame]
      exact hheld
  balance := h.balance
  unmisused := h.unmisused

omit [DecidableEq ι] in
theorem owned_closeSocket (h : Owned p) (hsock : ∀ w, p.guards w ≠ some sock) :
    Owned { p with isOpen := Function.update p.isOpen sock false } where
  held s hs := by
    change holders p s ≤ if Function.update p.isOpen sock false s = true then 1 else 0
    by_cases hsame : s = sock
    · rw [hsame, holders_eq_zero hsock]
      exact Nat.zero_le _
    · rw [Function.update_of_ne hsame]
      exact h.held s hs
  balance := h.balance
  unmisused := h.unmisused

theorem owned_construct (h : Owned p) (hnew : p.guards v = none) (hsock : Unowned p v sock) :
    Owned (enter sock (setSock (.var v) sock p)) := by
  obtain ⟨hisOpen, hguards, hreleased, hclosed, hmisused⟩ := enter_fields sock (setSock (.var v) sock p)
  have hupdate : ∀ s, holders (enter sock (setSock (.var v) sock p)) s =
      holders p s + (if sock = s then 1 else 0) := by
    intro s
    have hv := holders_update p v (some sock) s
    simp only [hnew, reduceCtorEq, ↓reduceIte, Nat.add_zero, Option.some.injEq] at hv
    rw [← hv]
    exact congrArg (tally · (some s)) hguards
  have hfree : p.guards v ≠ some sock := by
    rw [hnew]
    exact (Option.some_ne_none _).symm
  refine ⟨fun s hs => ?_, fun s hs => ?_, hmisused.trans h.unmisused⟩
  · have hheld := h.held s hs
    rw [hupdate, hisOpen]
    change _ ≤ if p.isOpen s = true then 1 else 0
    by_cases hsame : sock = s
    · subst hsame
      rw [hsock.holders_eq_zero hs hfree, (hsock.resolve_left hs).1, if_pos rfl, if_pos rfl]
    · rw [if_neg hsame]
      exact hheld
  · have hbalance := h.balance s hs
    have hentered : (enter sock (setSock (.var v) sock p)).entered s =
        p.entered s + if s = sock then 1 else 0 := enter_apply sock _ hs
    rw [hupdate, hentered, hreleased, hclosed]
    change _ = p.released s + p.closed s + _
    simp only [eq_comm (a := s)]
    omega

theorem owned_makeEmpty (h : Owned p) (hnew : p.guards v = none) :
    Owned (setSock (.var v) invalidSocketId p) := by
  refine h.congr (fun s hs => ?_) rfl rfl rfl rfl rfl
  refine holders_update_of_ne ?_ (mt Option.some.inj (Ne.symm hs))
  rw [hnew]
  exact (Option.some_ne_none _).symm

theorem owned_moveConstruct {other : ι} (h : Owned p) (hnew : p.guards v = none)
    (hother : p.guards other ≠ none) :
    Owned (setSock (.var v) (release (.var other) p).1 (release (.var other) p).2) := by
  obtain ⟨old, hold⟩ := Option.ne_none_iff_exists'.mp hother
  refine h.congr (fun s hs => ?_) rfl rfl rfl rfl rfl
  have hne : v ≠ other := by
    rintro rfl
    exact hother hnew
  have hgive := holders_update p other (some invalidSocketId) s
  have htake := tally_update (Function.update p.guards other (some invalidSocketId)) v (some old)
    (some s)
  have hinvalid : ¬ invalidSocketId = s := Ne.symm hs
  simp only [hold, Option.some.injEq, if_neg hinvalid, Function.update_of_ne hne, hnew, reduceCtorEq,
    ↓reduceIte, Nat.add_zero] at hgive htake
  change tally (Function.update (Function.update p.guards other (some invalidSocketId)) v
    (some (get p (.var other)))) (some s) = _
  rw [get_var hold]
  omega

theorem owned_release (h : Owned p) (hv : p.guards v ≠ none) :
    Owned (leave (release (.var v) p).1 (release (.var v) p).2) := by
  obtain ⟨old, hold⟩ := Option.ne_none_iff_exists'.mp hv
  have hrelease : release (.var v) p = (old, setSock (.var v) invalidSocketId p) :=
    Prod.ext (get_var hold) rfl
  rw [hrelease]
  have hupdate : ∀ s ≠ invalidSocketId,
      holders (setSock (.var v) invalidSocketId p) s + (if old = s then 1 else 0) = holders p s := by
    intro s hs
    have hgive := holders_update p v (some invalidSocketId) s
    have hinvalid : ¬ invalidSocketId = s := Ne.symm hs
    simp only [hold, Option.some.injEq, if_neg hinvalid, Nat.add_zero] at hgive
    exact hgive
  unfold leave
  dsimp only
  by_cases hvalid : old = invalidSocketId
  · rw [if_pos hvalid]
    refine h.congr (fun s hs => ?_) rfl rfl rfl rfl rfl
    have hcount := hupdate s hs
    rw [if_neg (hvalid ▸ Ne.symm hs)] at hcount
    exact hcount
  · rw [if_neg hvalid]
    refine ⟨fun s hs => ?_, fun s hs => ?_, h.unmisused⟩
    · have hle : holders (setSock (.var v) invalidSocketId p) s ≤ holders p s := by
        have hcount := hupdate s hs
        omega
      exact hle.trans (h.held s hs)
    · have hcount := hupdate s hs
      have hbalance := h.balance s hs
      change p.entered s = count p.released old s + p.closed s +
        holders (setSock (.var v) invalidSocketId p) s
      rw [count_apply]
      simp only [eq_comm (a := s)]
      omega

theorem owned_destroy (h : Owned p) (hv : p.guards v ≠ none) :
    Owned { reset (.var v) invalidSocketId p with
      guards := Function.update (reset (.var v) invalidSocketId p).guards v none } := by
  have hreset := (owned_reset_iff h hv (Or.inl rfl)).mpr (Or.inl rfl)
  obtain ⟨old, hold⟩ := Option.ne_none_iff_exists'.mp hv
  refine hreset.congr (fun s hs => ?_) rfl rfl rfl rfl rfl
  refine holders_update_of_ne ?_ (Option.some_ne_none _).symm
  rw [reset_eq hold]
  change Function.update p.guards v (some invalidSocketId) v ≠ some s
  rw [Function.update_self]
  exact mt Option.some.inj (Ne.symm hs)

/-- **One operation**, for calls of any depth: exactly when it returns and keeps the ownership. -/
theorem owned_exec_iff (depth : ℕ) {op : Op ι} (h : Owned p) (hop : Admissible p op) :
    (∃ p', exec depth p op = some p' ∧ Owned p') ↔ Kept p op := by
  have hreturns : ∀ {q : Process ι}, (∃ p', some q = some p' ∧ Owned p') ↔ Owned q :=
    ⟨fun ⟨_, heq, hq⟩ => Option.some.inj heq ▸ hq, fun hq => ⟨_, rfl, hq⟩⟩
  cases op with
  | openSocket sock => exact hreturns.trans (iff_of_true (owned_openSocket h hop.2) trivial)
  | closeSocket sock => exact hreturns.trans (iff_of_true (owned_closeSocket h hop) trivial)
  | construct v sock => exact hreturns.trans (iff_of_true (owned_construct h hop.1 hop.2) trivial)
  | makeEmpty v => exact hreturns.trans (iff_of_true (owned_makeEmpty h hop) trivial)
  | moveConstruct v other =>
    exact hreturns.trans (iff_of_true (owned_moveConstruct h hop.1 hop.2) trivial)
  | moveAssign v other =>
    refine iff_of_false ?_ id
    rintro ⟨p', hreturn, _⟩
    have hnone : exec depth p (.moveAssign v other) = none := moveAssign_eq_none depth _ _ p
    rw [hnone] at hreturn
    cases hreturn
  | rawAssign v sock => exact hreturns.trans (owned_reset_iff h hop.1 hop.2)
  | reset v sock => exact hreturns.trans (owned_reset_iff h hop.1 hop.2)
  | release v => exact hreturns.trans (iff_of_true (owned_release h hop) trivial)
  | destroy v => exact hreturns.trans (iff_of_true (owned_destroy h hop) trivial)

omit [DecidableEq ι] in
theorem owned_start : Owned (Process.start : Process ι) := by
  have hzero : ∀ sock, holders (Process.start : Process ι) sock = 0 :=
    fun sock => holders_eq_zero fun w => (Option.some_ne_none sock).symm
  refine ⟨fun sock _ => ?_, fun sock _ => ?_, rfl⟩
  · rw [hzero]
    exact Nat.zero_le _
  · rw [hzero]
    rfl

end Ownership

/-! ### Programs and ownership -/

section Programs

variable [Fintype ι] [DecidableEq ι]

/-- The program has come this far, and the ownership holds. -/
def Arrived (p : Option (Process ι)) : Prop := ∃ q, p = some q ∧ Owned q

/-- A condition on an operation that a program comes to. -/
def Reached (C : Process ι → Op ι → Prop) (p : Option (Process ι)) (op : Op ι) : Prop :=
  ∀ q, p = some q → C q op

instance (C : Process ι → Op ι → Prop) [∀ q op, Decidable (C q op)] :
    (p : Option (Process ι)) → (op : Op ι) → Decidable (Reached C p op)
  | none, _ => .isTrue nofun
  | some q, op => decidable_of_iff (C q op)
      ⟨fun h _ heq => Option.some.inj heq ▸ h, fun h => h q rfl⟩

omit [DecidableEq ι] in
/-- Once all guards are destroyed, what entered them was released or closed. -/
theorem Owned.settled {p : Process ι} (h : Owned p) (hnone : ∀ v, p.guards v = none) {sock : SocketId}
    (hsock : sock ≠ invalidSocketId) : p.entered sock = p.released sock + p.closed sock := by
  have hzero : holders p sock = 0 := holders_eq_zero fun w => by
    rw [hnone w]
    exact (Option.some_ne_none sock).symm
  have hbalance := h.balance sock hsock
  omega

/-- **A program returns from every operation and owns every socket uniquely exactly if it
move-assigns no guard and gives none the socket that it holds**, whatever the depth of its calls;
once its guards are destroyed, what entered them and was not released was closed as often. -/
theorem owned_iff (depth : ℕ) (ops : List (Op ι))
    (hops : Along (step depth) (Reached Admissible) (some Process.start) ops) :
    (Always (step depth) Arrived (some (Process.start : Process ι)) ops ↔
      Along (step depth) (Reached Kept) (some Process.start) ops) ∧
    (Along (step depth) (Reached Kept) (some Process.start) ops →
      ∃ p, run (step depth) (some Process.start) ops = some p ∧
        ((∀ v, p.guards v = none) → ∀ sock ≠ invalidSocketId,
          p.entered sock = p.released sock + p.closed sock)) := by
  have hiff : Always (step depth) Arrived (some (Process.start : Process ι)) ops ↔
      Along (step depth) (Reached Kept) (some Process.start) ops := by
    refine always_iff_along ?_ ⟨_, rfl, owned_start⟩ hops
    rintro _ op ⟨q, rfl, hq⟩ hop
    have hexec := owned_exec_iff depth hq (hop q rfl)
    constructor
    · rintro harrived q' hq'
      obtain rfl := Option.some.inj hq'
      exact hexec.mp harrived
    · exact fun hkept => hexec.mpr (hkept q rfl)
  refine ⟨hiff, fun hkept => ?_⟩
  obtain ⟨p, hrun, hp⟩ := (hiff.mpr hkept).last
  exact ⟨p, hrun, fun hnone sock hsock => hp.settled hnone hsock⟩

/-- A socket that is moved to another guard and released, and one that takes its place and is
closed. -/
def movingProgram : List (Op Bool) :=
  [.openSocket 3, .construct false 3, .moveConstruct true false, .openSocket 4, .rawAssign false 4,
    .release true, .reset false invalidSocketId, .destroy false, .destroy true]

theorem moving_program_owned :
    (Always (step 0) Arrived (some (Process.start : Process Bool)) movingProgram ↔
      Along (step 0) (Reached Kept) (some Process.start) movingProgram) ∧
    (Along (step 0) (Reached Kept) (some Process.start) movingProgram →
      ∃ p, run (step 0) (some Process.start) movingProgram = some p ∧
        ((∀ v, p.guards v = none) → ∀ sock ≠ invalidSocketId,
          p.entered sock = p.released sock + p.closed sock)) :=
  owned_iff 0 movingProgram (by decide +kernel)

/-- A guard that is moved into another one does not arrive there, at any depth of calls. -/
theorem move_assignment_diverges :
    ¬ ∃ depth, Always (step depth) Arrived (some (Process.start : Process Bool))
      [.openSocket 3, .construct false 3, .makeEmpty true, .moveAssign true false] := by
  rintro ⟨depth, h⟩
  obtain ⟨q, hrun, _⟩ := h.last
  have hnone : run (step depth) (some (Process.start : Process Bool))
      [.openSocket 3, .construct false 3, .makeEmpty true, .moveAssign true false] = none :=
    moveAssign_eq_none depth _ _ _
  rw [hnone] at hrun
  cases hrun

end Programs

end NetworkDriver.Net.Socket.Guard
