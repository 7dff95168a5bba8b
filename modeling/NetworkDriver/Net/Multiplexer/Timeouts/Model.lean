import NetworkDriver.Library.Run
import NetworkDriver.Net.Multiplexer.Base

/-! # Runs of the timeouts

A session is a `multiplexer_base` with the log of what its timeouts did: the ids that `set_timeout`
returned, the ids that were passed to `handle_timeout`, and the calls of `handle_timeouts`. Between
the calls, and from inside every `handle_timeout`, timeouts are set and managers come and go.

The clock is any sequence of readings; a session counts how many of them are past.

* `step`: one call.
* `handleTimeouts_eq`: what a call of `handle_timeouts` does, by its loop. -/

namespace NetworkDriver.Net.Multiplexer.Timeouts.Model

open NetworkDriver.Library.Keyed NetworkDriver.Net.Multiplexer.Base

/-! ### The log -/

/-- A registered timeout: the id that `set_timeout` returned, for whom and when it is due. -/
structure Timeout where
  id : UInt64
  manager : Manager
  deadline : ℤ
  deriving DecidableEq, Repr

/-- A call of `handle_timeout`, at a reading of the clock. -/
structure Delivery where
  timeout : Timeout
  time : ℤ
  deriving DecidableEq, Repr

/-- A call of `handle_timeouts`: its first reading of the clock, the timeouts that were registered
and not yet delivered when it started, and those that it delivered, in order. -/
structure Round where
  start : ℤ
  before : List Timeout
  delivered : List Timeout
  deriving DecidableEq, Repr

/-- What the timeouts did so far. -/
structure Log where
  registered : List Timeout
  delivered : List Delivery
  rounds : List Round
  deriving DecidableEq, Repr

/-- The timeouts delivered so far. -/
def Log.done (l : Log) : List Timeout := l.delivered.map Delivery.timeout

/-! ### Calls -/

/-- What may happen between the calls of `handle_timeouts` and inside of `handle_timeout`. However a
manager is removed, it ends in `multiplexer_base::del`. -/
inductive Call where
  | setTimeout (mgr : Manager) (when : ℤ)
  | add (mgr : Manager)
  | del (handle : SocketId)
  deriving DecidableEq, Repr

/-- A call, with the entry it leaves in the log. -/
def Call.perform (s : MultiplexerBase Log) : Call → MultiplexerBase Log
  | .setTimeout mgr when =>
    let (id, s') := s.setTimeout mgr when
    { s' with derived.registered := s'.derived.registered ++ [⟨id, mgr, when⟩] }
  | .add mgr => s.add mgr
  | .del handle => s.del handle

/-- The `k`-th `handle_timeout` of a call of `handle_timeouts` makes the calls of `script k`. -/
def answer (script : ℕ → List Call) (now : ℕ → ℤ) (k : ℕ) (mgr : Manager) (e : TimeoutEntry)
    (s : MultiplexerBase Log) : Except Fault (MultiplexerBase Log) :=
  let delivery : Delivery := ⟨⟨e.id, mgr, e.when⟩, now k⟩
  .ok ((script k).foldl Call.perform
    { s with derived.delivered := s.derived.delivered ++ [delivery] })

/-! ### Sessions -/

/-- A multiplexer, the number of readings of the clock so far, and whether a call has failed. -/
structure Session where
  mpx : MultiplexerBase Log
  ticks : ℕ
  failed : Bool

/-- One call from outside of the multiplexer's own handlers. -/
inductive Event where
  | call (c : Call)
  | handleTimeouts (script : ℕ → List Call)

namespace Session

/-- A session in which the given managers are registered and nothing has happened yet. -/
def start (managers : KeyedMap Manager.handle) : Session :=
  { mpx := { MultiplexerBase.init ⟨[], [], []⟩ with managers := managers }, ticks := 0, failed := false }

/-- The readings of the clock from now on. -/
def readings (clock : ℕ → ℤ) (s : Session) (k : ℕ) : ℤ := clock (s.ticks + k)

/-- The record of a call of `handle_timeouts` that turned `s` into `s'`. -/
def round (clock : ℕ → ℤ) (s : Session) (s' : MultiplexerBase Log) : Round where
  start := s.readings clock 0
  before := s.mpx.derived.registered.diff s.mpx.derived.done
  delivered := s'.derived.done.drop s.mpx.derived.delivered.length

/-- One event. A call that fails is the last one. A call of `handle_timeouts` reads the clock at most
once for each entry. -/
def step (clock : ℕ → ℤ) (s : Session) (e : Event) : Session :=
  if s.failed then s
  else match e with
    | .call c => { s with mpx := c.perform s.mpx }
    | .handleTimeouts script =>
      match s.mpx.handleTimeouts (answer script (s.readings clock)) (s.readings clock) with
      | .error _ => { s with failed := true }
      | .ok mpx =>
        { s with
          mpx := { mpx with derived.rounds := mpx.derived.rounds ++ [s.round clock mpx] }
          ticks := s.ticks + s.mpx.timeouts.elems.length }

/-- A call from outside. -/
theorem step_call {clock : ℕ → ℤ} {s : Session} {c : Call} (h : s.failed = false) :
    s.step clock (.call c) = { s with mpx := c.perform s.mpx } := by
  unfold step
  rw [h]
  rfl

/-- A call of `handle_timeouts` that does not fail. -/
theorem step_handleTimeouts {clock : ℕ → ℤ} {s : Session} {script : ℕ → List Call}
    {mpx : MultiplexerBase Log} (h : s.failed = false)
    (hok : s.mpx.handleTimeouts (answer script (s.readings clock)) (s.readings clock) = .ok mpx) :
    s.step clock (.handleTimeouts script) =
      { s with
        mpx := { mpx with derived.rounds := mpx.derived.rounds ++ [s.round clock mpx] }
        ticks := s.ticks + s.mpx.timeouts.elems.length } := by
  unfold step
  simp only [h, hok]
  rfl

end Session

/-! ### The loop of `handle_timeouts` -/

/-- How many entries the loop finds expired, if its `k`-th reading of the clock is `now k`. -/
def expiredCount (now : ℕ → ℤ) : ℕ → List TimeoutEntry → ℕ
  | _, [] => 0
  | k, e :: rest => if e.hasExpired (now k) then expiredCount now (k + 1) rest + 1 else 0

variable {script : ℕ → List Call} {now : ℕ → ℤ}

/-- The state in which the loop of `handle_timeouts` starts. -/
def swapped (s : MultiplexerBase Log) : MultiplexerBase Log :=
  { s with timeouts := s.cachedTimeouts, cachedTimeouts := s.timeouts }

/-- The state that the end of `handle_timeouts` makes of the one after the loop. -/
def merged (s : MultiplexerBase Log) (rest : List TimeoutEntry) : MultiplexerBase Log :=
  { s with
    timeouts := s.timeouts.insertAll rest
    cachedTimeouts := .empty
    currentTimeout := (s.timeouts.insertAll rest).elems.head?.map TimeoutEntry.when }

/-- **A call of `handle_timeouts`**: it swaps the sets, runs the loop and merges what is left. -/
theorem handleTimeouts_eq (s : MultiplexerBase Log) :
    s.handleTimeouts (answer script now) now =
      (MultiplexerBase.expire (answer script now) now 0 s.timeouts.elems (swapped s)).map
        fun x => merged x.1 x.2 := by
  unfold MultiplexerBase.handleTimeouts
  change (MultiplexerBase.expire _ now 0 s.timeouts.elems (swapped s)).bind _ = _
  cases MultiplexerBase.expire (answer script now) now 0 s.timeouts.elems (swapped s) <;> rfl

/-- Due entries of a sorted list are among those that the loop finds expired. -/
theorem due_sublist_expired {start : ℤ} {k : ℕ} (h : ∀ i, start ≤ now i) {l : List TimeoutEntry}
    (hl : l.Pairwise fun a b => a.when < b.when) :
    (l.filter fun e => e.when ≤ start).Sublist (l.take (expiredCount now k l)) := by
  induction l generalizing k with
  | nil => exact List.Sublist.refl _
  | cons e l ih =>
    obtain ⟨he, hl⟩ := List.pairwise_cons.mp hl
    unfold expiredCount
    by_cases hx : e.hasExpired (now k)
    · rw [if_pos hx, List.take_succ_cons, List.filter_cons]
      split_ifs
      · exact (ih hl).cons_cons e
      · exact (ih hl).cons e
    · -- the loop ends at an entry that is not due, and neither are those behind it
      have hlt : start < e.when := lt_of_le_of_lt (h k) (not_le.mp hx)
      have hnil : (e :: l).filter (fun e => e.when ≤ start) = [] := by
        refine List.filter_eq_nil_iff.mpr fun e' he' => ?_
        rcases List.mem_cons.mp he' with rfl | he'
        · simpa using hlt
        · simpa using hlt.trans (he e' he')
      rw [hnil]
      exact List.nil_sublist _

end NetworkDriver.Net.Multiplexer.Timeouts.Model
