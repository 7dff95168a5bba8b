import NetworkDriver.Net.Multiplexer.Timeouts.Delivery
import NetworkDriver.Net.Multiplexer.Timeouts.Earliest
import NetworkDriver.Net.Multiplexer.Timeouts.Sleep

/-! # Polls that end in time

`poll_once(true)` reads the clock, hands the time until `current_timeout_` to the system call, and calls
`handle_timeouts` when that returns, for an event or because the time is over. The kernel may be late by a
slack. Between the polls, and from inside every `handle_timeout`, timeouts are set.

* `sleep`: how long the system call of a backend waits at most.
* `sleep_bound`: no backend sleeps a millisecond past the earliest deadline.
* `timeouts_punctual`: over all runs, what is due when a poll returns is delivered by it, and no poll returns
  later than a millisecond and the slack past a deadline that was pending, or past its own beginning. -/

namespace NetworkDriver.Net.Multiplexer.Timeouts.Punctual

open NetworkDriver.Library.Keyed NetworkDriver.Library.Run
open NetworkDriver.Net.Multiplexer.Base NetworkDriver.Net.Multiplexer.Timeouts.Model
open NetworkDriver.Net.Multiplexer.Timeouts.Delivery NetworkDriver.Net.Multiplexer.Timeouts.Earliest
open NetworkDriver.Net.Multiplexer.Timeouts.Sleep

/-! ### The system calls -/

/-- The multiplexers. -/
inductive Backend where
  | epoll
  | kqueue
  | uring
  deriving DecidableEq, Repr

/-- The nanoseconds that the system call of a blocking poll waits at most; `none` is without end. -/
def sleep (b : Backend) (currentTimeout : Option ℤ) (now : ℤ) : Option ℤ :=
  match b with
  | .epoll =>
    let timeout := epollTimeout true currentTimeout now
    if timeout < 0 then none else some (timeout * 1000000)
  | .kqueue => (kqueueTimeout true currentTimeout now).map Timespec.nanos
  | .uring => (uringTimeout true currentTimeout now).map Timespec.nanos

/-- The deadlines that a backend can wait for: epoll has an `int` of milliseconds, kqueue a difference
of counts, and io_uring, which never waits longer than a second, a clock that is not negative. -/
def InReach (b : Backend) (now deadline : ℤ) : Prop :=
  match b with
  | .epoll => deadline - now ≤ (2 ^ 31 - 1) * 1000000
  | .kqueue => deadline - now < 2 ^ 63
  | .uring => 0 ≤ now

instance (b : Backend) (now deadline : ℤ) : Decidable (InReach b now deadline) := by
  unfold InReach
  cases b <;> infer_instance

instance (x : ℤ) : Decidable (Count x) := by unfold Count; infer_instance

variable {now deadline : ℤ}

theorem epoll_bound (hnow : Count now) (hdeadline : Count deadline) (h : InReach .epoll now deadline) :
    ∃ d, sleep .epoll (some deadline) now = some d ∧ d < max 0 (deadline - now) + 1000000 := by
  by_cases hpassed : deadline ≤ now
  · have hzero : epollTimeout true (some deadline) now = 0 := if_pos hpassed
    refine ⟨0, ?_, by omega⟩
    unfold sleep
    dsimp only
    rw [hzero]
    rfl
  · obtain ⟨hpos, hclose⟩ := (epoll_exact_iff hnow hdeadline (not_le.mp hpassed)).mpr h
    refine ⟨epollTimeout true (some deadline) now * 1000000, if_neg (not_lt.mpr hpos), ?_⟩
    have hle := le_max_right 0 (deadline - now)
    have hlt := hclose.1
    omega

theorem kqueue_bound (hnow : Count now) (hdeadline : Count deadline) (h : InReach .kqueue now deadline) :
    ∃ d, sleep .kqueue (some deadline) now = some d ∧ d < max 0 (deadline - now) + 1000000 := by
  rcases lt_trichotomy deadline now with hpassed | rfl | hahead
  · have hzero : kqueueTimeout true (some deadline) now = some ⟨0, 0⟩ := if_pos hpassed
    refine ⟨0, ?_, by omega⟩
    unfold sleep
    dsimp only
    rw [hzero]
    rfl
  · refine ⟨0, ?_, by omega⟩
    have hsub : subCounts deadline deadline = 0 := by
      unfold subCounts
      rw [sub_self]
      rfl
    unfold sleep kqueueTimeout
    dsimp only
    rw [if_neg (lt_irrefl _), hsub]
    rfl
  · obtain ⟨t, ht, -, hclose⟩ := (kqueue_exact_iff hnow hdeadline hahead).mpr h
    refine ⟨t.nanos, ?_, ?_⟩
    · unfold sleep
      dsimp only
      rw [ht]
      rfl
    · have hle := le_max_right 0 (deadline - now)
      have hlt := hclose.1
      omega

/-- The seconds that io_uring drops only make it return early. -/
theorem uring_bound (h : InReach .uring now deadline) :
    ∃ d, sleep .uring (some deadline) now = some d ∧ d < max 0 (deadline - now) + 1000000 := by
  change 0 ≤ now at h
  have hnow := (castMillis_bounds now).1 h
  unfold sleep uringTimeout
  dsimp only
  by_cases hpassed : deadline < castMillis now * 1000000
  · rw [if_pos hpassed]
    refine ⟨0, rfl, ?_⟩
    omega
  · rw [if_neg hpassed]
    refine ⟨_, rfl, ?_⟩
    have hdeadline := (castMillis_bounds deadline).1 (by omega)
    have hpos : 0 ≤ castMillis deadline - castMillis now := by omega
    unfold Timespec.nanos
    dsimp only
    rw [Int.tmod_eq_emod_of_nonneg hpos]
    omega

/-- **No backend sleeps a millisecond past the deadline.** -/
theorem sleep_bound (b : Backend) (hnow : Count now) (hdeadline : Count deadline)
    (h : InReach b now deadline) :
    ∃ d, sleep b (some deadline) now = some d ∧ d < max 0 (deadline - now) + 1000000 := by
  cases b with
  | epoll => exact epoll_bound hnow hdeadline h
  | kqueue => exact kqueue_bound hnow hdeadline h
  | uring => exact uring_bound h

/-! ### Polls -/

/-- A poll that called `handle_timeouts`: the reading of the clock with which it was entered, and the
call. -/
structure Poll where
  entered : ℤ
  round : Round
  deriving DecidableEq, Repr

/-- A session, with the polls so far. -/
structure Polling where
  session : Session
  polls : List Poll

/-- What happens: a call between the polls or from a handler of an event, a blocking poll that ends
with `handle_timeouts`, or one that a signal interrupts. -/
inductive Event where
  | call (c : Call)
  | poll (script : ℕ → List Call)
  | interrupted

/-- The session in which a poll has read the clock. -/
def entered (s : Session) : Session := { s with ticks := s.ticks + 1 }

/-- One event. -/
def step (clock : ℕ → ℤ) (x : Polling) (e : Event) : Polling :=
  match e with
  | .call c => { x with session := x.session.step clock (.call c) }
  | .poll script =>
    let s := (entered x.session).step clock (.handleTimeouts script)
    ⟨s, x.polls ++ if s.failed then [] else
      [⟨clock x.session.ticks, (entered x.session).round clock s.mpx⟩]⟩
  | .interrupted => { x with session := entered x.session }

/-- A multiplexer in which the given managers are registered, before its first poll. -/
def start (managers : KeyedMap Manager.handle) : Polling := ⟨Session.start managers, []⟩

/-! ### The conditions -/

/-- Timeouts are set for registered managers, and no deadline meets an equal one. -/
def Careful (clock : ℕ → ℤ) (x : Polling) : Event → Prop
  | .call c => Domain x.session (.call c) ∧ TieFree clock x.session (.call c)
  | .poll script => Domain (entered x.session) (.handleTimeouts script) ∧
      TieFree clock (entered x.session) (.handleTimeouts script)
  | .interrupted => True

/-- The system call of a poll returns at the latest the slack after the time that it was given, and can
be given the time until the earliest deadline. -/
def Wakes (b : Backend) (slack : ℤ) (clock : ℕ → ℤ) (x : Polling) : Event → Prop
  | .poll _ =>
    (∀ d ∈ sleep b x.session.mpx.currentTimeout (clock x.session.ticks),
      clock (x.session.ticks + 1) ≤ clock x.session.ticks + d + slack) ∧
    ∀ d ∈ x.session.mpx.currentTimeout,
      Count (clock x.session.ticks) ∧ Count d ∧ InReach b (clock x.session.ticks) d
  | _ => True

instance (b : Backend) (slack : ℤ) (clock : ℕ → ℤ) (x : Polling) :
    (e : Event) → Decidable (Wakes b slack clock x e)
  | .poll _ => inferInstanceAs (Decidable
    ((∀ d ∈ sleep b x.session.mpx.currentTimeout (clock x.session.ticks),
      clock (x.session.ticks + 1) ≤ clock x.session.ticks + d + slack) ∧
    ∀ d ∈ x.session.mpx.currentTimeout,
      Count (clock x.session.ticks) ∧ Count d ∧ InReach b (clock x.session.ticks) d))
  | .call _ => instDecidableTrue
  | .interrupted => instDecidableTrue

/-- A poll delivers what is due when it returns, and returns in time for all that was pending. -/
structure OnTime (slack : ℤ) (p : Poll) : Prop where
  delivers : (p.round.before.filter fun t => t.deadline ≤ p.round.start).Subperm p.round.delivered
  returns : ∀ t ∈ p.round.before, p.round.start < max p.entered t.deadline + 1000000 + slack

/-! ### Runs -/

/-- What holds between the events. -/
structure Sound (slack : ℤ) (x : Polling) : Prop where
  inv : Inv x.session
  current : Current x.session.mpx
  polls : ∀ p ∈ x.polls, OnTime slack p

theorem entered_inv {s : Session} (h : Inv s) : Inv (entered s) :=
  ⟨h.sound, h.cached, h.pending, h.contract⟩

variable {b : Backend} {slack : ℤ} {clock : ℕ → ℤ}

/-- The deadline of what is pending is not before `current_timeout_`. -/
theorem current_le {s : Session} (hinv : Inv s) (hcurrent : Current s.mpx) {t : Timeout}
    (ht : t ∈ s.mpx.derived.registered.diff s.mpx.derived.done) :
    ∃ d, s.mpx.currentTimeout = some d ∧ d ≤ t.deadline := by
  obtain ⟨e, he, rfl⟩ := List.mem_map.mp (hinv.pending.before.mem_iff.mp ht)
  cases hcur : s.mpx.currentTimeout with
  | none =>
    rw [hcurrent.none_iff.mp hcur] at he
    cases he
  | some d => exact ⟨d, rfl, (hcurrent.least d hcur).2 e he⟩

/-- **A poll returns in time.** -/
theorem poll_returns {x : Polling} {script : ℕ → List Call} (hinv : Inv x.session)
    (hcurrent : Current x.session.mpx) (hw : Wakes b slack clock x (.poll script)) {t : Timeout}
    (ht : t ∈ x.session.mpx.derived.registered.diff x.session.mpx.derived.done) :
    clock (x.session.ticks + 1) < max (clock x.session.ticks) t.deadline + 1000000 + slack := by
  obtain ⟨d, hd, hle⟩ := current_le hinv hcurrent ht
  obtain ⟨hreturns, hreach⟩ := hw
  obtain ⟨hnow, hcount, hreach⟩ := hreach d hd
  obtain ⟨slept, hsleep, hslept⟩ := sleep_bound b hnow hcount hreach
  rw [hd] at hreturns
  have hreturned := hreturns slept hsleep
  omega

/-- **A poll.** -/
theorem poll_sound (hclock : Monotone clock) {x : Polling} {script : ℕ → List Call} (h : Sound slack x)
    (hc : Careful clock x (.poll script)) (hw : Wakes b slack clock x (.poll script)) :
    Sound slack (step clock x (.poll script)) := by
  obtain ⟨hD, hT⟩ := hc
  have hentered := entered_inv h.inv
  have hnext : Inv ((entered x.session).step clock (.handleTimeouts script)) :=
    step_handleTimeouts hclock hentered hD hT
  refine ⟨hnext, step_earliest clock _ _ h.current, fun p hp => ?_⟩
  unfold step at hp
  dsimp only at hp
  rw [hnext.sound, if_neg Bool.false_ne_true] at hp
  rcases List.mem_append.mp hp with hp | hp
  · exact h.polls p hp
  · obtain rfl := List.mem_singleton.mp hp
    refine ⟨?_, fun t ht => poll_returns h.inv h.current hw ht⟩
    -- the round that the poll records is the last one of the log
    obtain ⟨mpx, ds, hok, -⟩ := handleTimeouts_delivers hentered hD hT
    refine hnext.contract.inTime _ ?_
    rw [Session.step_handleTimeouts hentered.sound hok]
    exact List.mem_append_right _ (List.mem_singleton.mpr rfl)

/-- **One event.** -/
theorem step_sound (hclock : Monotone clock) {x : Polling} {e : Event} (h : Sound slack x)
    (hc : Careful clock x e) (hw : Wakes b slack clock x e) : Sound slack (step clock x e) := by
  cases e with
  | call c => exact ⟨step_call h.inv hc.1 hc.2, step_earliest clock _ _ h.current, h.polls⟩
  | poll script => exact poll_sound hclock h hc hw
  | interrupted => exact ⟨entered_inv h.inv, h.current, h.polls⟩

/-- **Timeouts are punctual** on every backend. In every state of every run whose kernel wakes a poll in
time: every timeout was delivered at most once, to its manager, and not before its deadline; every poll
delivered what was due when it returned; and no poll returned later than a millisecond and the slack
after the first deadline that was pending, or after it was entered, if that was later. -/
theorem timeouts_punctual (b : Backend) (slack : ℤ) (clock : ℕ → ℤ) (hclock : Monotone clock)
    (managers : KeyedMap Manager.handle) (es : List Event)
    (hcareful : Along (step clock) (Careful clock) (start managers) es)
    (hwakes : Along (step clock) (Wakes b slack clock) (start managers) es) :
    Always (step clock) (fun x => x.session.failed = false ∧ Contract x.session.mpx.derived ∧
      ∀ p ∈ x.polls, OnTime slack p) (start managers) es := by
  have hstart : Sound slack (start managers) :=
    ⟨start_inv managers, ⟨iff_of_true rfl rfl, fun t ht => (by cases ht)⟩, fun p hp => by cases hp⟩
  have hsound := always_of_along (fun x e h he => step_sound hclock h he.1 he.2) hstart
    (hcareful.and hwakes)
  exact hsound.imp fun x h => ⟨h.inv.sound, h.inv.contract, h.polls⟩

/-- A timeout 2 s ahead and one 3.5 s ahead. An event ends the first poll after a second, a signal the
second one; the others are late by 0.2 ms each. -/
def twoTimeouts : List Event :=
  [.call (.setTimeout ⟨0, 4⟩ 2000000000), .call (.setTimeout ⟨0, 4⟩ 3500000000), .poll fun _ => [],
    .interrupted, .poll fun _ => [], .poll fun _ => []]

/-- The readings of the clock. -/
def readings (i : ℕ) : ℤ :=
  [0, 1000000000, 1100000000, 1200000000, 1300000000, 2000200000, 2000300000, 2000400000,
    3500300000].getD i 3500400000

theorem timeouts_punctual_twoTimeouts :
    Always (step readings) (fun x => x.session.failed = false ∧ Contract x.session.mpx.derived ∧
      ∀ p ∈ x.polls, OnTime 300000 p) (start oneManager) twoTimeouts := by
  have hsilent : ∀ (x : Polling) (k : ℕ), ∀ c ∈ ([] : List Call), SetsTimeout x.session.mpx.managers c :=
    fun _ _ _ hc => absurd hc List.not_mem_nil
  refine timeouts_punctual .epoll 300000 readings ?_ oneManager twoTimeouts ?_ (by decide +kernel)
  · refine monotone_nat_of_le_succ fun i => ?_
    by_cases hi : i < 9
    · interval_cases i <;> decide
    · have hlast : ∀ j, 9 ≤ j → readings j = 3500400000 := fun j hj => List.getD_eq_default _ _ hj
      rw [hlast i (by omega), hlast (i + 1) (by omega)]
  · refine ⟨⟨rfl, fun d _ => List.not_mem_nil⟩, ⟨rfl, fun d hd => ?_⟩, ⟨hsilent _, ?_⟩, trivial,
      ⟨hsilent _, ?_⟩, ⟨hsilent _, ?_⟩, trivial⟩
    · obtain rfl := Option.some.inj hd
      decide +kernel
    · change List.Nodup _
      decide +kernel
    · change List.Nodup _
      decide +kernel
    · change List.Nodup _
      decide +kernel

end NetworkDriver.Net.Multiplexer.Timeouts.Punctual
