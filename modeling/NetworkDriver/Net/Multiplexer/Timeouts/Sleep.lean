import NetworkDriver.Net.Types

/-! # The duration of a blocking poll

`poll_once(true)` sleeps until the earliest deadline. Each backend turns the difference between two
counts of nanoseconds into what its system call takes: `epoll_wait` an `int` of milliseconds,
`kevent` a `timespec`, io_uring a `__kernel_timespec`. A subtraction that overflows is undefined; it
wraps here.

* `epoll_exact_iff`: the `int` holds less than 25 days.
* `kqueue_exact_iff`: the `timespec` is exact, if the difference is a count.
* `uring_exact_iff`: the seconds are dropped.
* `sleeps_iff`: when each backend sleeps until the deadline. -/

namespace NetworkDriver.Net.Multiplexer.Timeouts.Sleep

open NetworkDriver.Net.Types

/-! ### `std::chrono` -/

/-- A count of nanoseconds, a 64-bit integer. -/
def Count (x : ℤ) : Prop := -2 ^ 63 ≤ x ∧ x < 2 ^ 63

/-- The difference of two counts. -/
def subCounts (a b : ℤ) : ℤ := (a - b).bmod (2 ^ 64)

/-- `duration_cast<milliseconds>`, and `time_point_cast`: towards zero. -/
def castMillis (d : ℤ) : ℤ := d.tdiv 1000000

/-- `ceil<milliseconds>`. -/
def ceilMillis (d : ℤ) : ℤ :=
  if castMillis d * 1000000 < d then castMillis d + 1 else castMillis d

/-! ### The system calls -/

/-- `timespec` and `__kernel_timespec`. -/
structure Timespec where
  tvSec : ℤ
  tvNsec : ℤ
  deriving DecidableEq, Repr

/-- The timeout of `epoll_wait`. -/
def epollTimeout (blocking : Bool) (currentTimeout : Option ℤ) (now : ℤ) : ℤ :=
  match blocking, currentTimeout with
  | true, some deadline =>
    if deadline ≤ now then 0 else toInt (max 0 (ceilMillis (subCounts deadline now)))
  | true, none => -1
  | false, _ => 0

/-- The timeout of `kevent`; `none` is the null pointer. -/
def kqueueTimeout (blocking : Bool) (currentTimeout : Option ℤ) (now : ℤ) : Option Timespec :=
  match blocking, currentTimeout with
  | true, some deadline =>
    -- `timeout_passed`
    if deadline < now then some ⟨0, 0⟩
    else
      let diff := subCounts deadline now
      let secs := diff.tdiv 1000000000
      some ⟨secs, diff - secs * 1000000000⟩
  | true, none => none
  | false, _ => some ⟨0, 0⟩

/-- The timeout of `io_uring_wait_cqe_timeout`; `none` is the null pointer. -/
def uringTimeout (blocking : Bool) (currentTimeout : Option ℤ) (clock : ℤ) : Option Timespec :=
  let now := castMillis clock
  match blocking, currentTimeout with
  | true, some deadline =>
    -- `timeout_passed`, where the milliseconds are compared with nanoseconds
    if deadline < now * 1000000 then some ⟨0, 0⟩
    else
      let diffMs := castMillis deadline - now
      let timeout : Timespec := ⟨0, diffMs.tdiv 1000⟩
      -- the second assignment goes to the same member
      some { timeout with tvNsec := diffMs.tmod 1000 * 1000000 }
  | true, none => none
  | false, _ => some ⟨0, 0⟩

/-! ### The property -/

/-- The duration differs from the time until the deadline by less than a millisecond. -/
def Close (slept now deadline : ℤ) : Prop :=
  slept < deadline - now + 1000000 ∧ deadline - now < slept + 1000000

/-- A time in nanoseconds, as a `timespec` may hold it. -/
structure Timespec.Valid (t : Timespec) : Prop where
  sec : 0 ≤ t.tvSec
  nsec : 0 ≤ t.tvNsec
  bound : t.tvNsec < 1000000000

/-- The duration that a `timespec` stands for. -/
def Timespec.nanos (t : Timespec) : ℤ := t.tvSec * 1000000000 + t.tvNsec

/-- `epoll_wait` sleeps until the deadline: its timeout is not negative, which would mean for ever. -/
def EpollExact (now deadline : ℤ) : Prop :=
  0 ≤ epollTimeout true (some deadline) now ∧
    Close (epollTimeout true (some deadline) now * 1000000) now deadline

/-- A call with a `timespec` sleeps until the deadline. -/
def SpecExact (timeout : Option Timespec) (now deadline : ℤ) : Prop :=
  ∃ t, timeout = some t ∧ t.Valid ∧ Close t.nanos now deadline

/-- `kevent` sleeps until the deadline. -/
def KqueueExact (now deadline : ℤ) : Prop :=
  SpecExact (kqueueTimeout true (some deadline) now) now deadline

/-- `io_uring_wait_cqe_timeout` sleeps until the deadline. -/
def UringExact (now deadline : ℤ) : Prop :=
  SpecExact (uringTimeout true (some deadline) now) now deadline

theorem specExact_some {t : Timespec} {now deadline : ℤ} :
    SpecExact (some t) now deadline ↔ t.Valid ∧ Close t.nanos now deadline := by
  constructor
  · rintro ⟨t', heq, hvalid, hclose⟩
    obtain rfl := Option.some.inj heq
    exact ⟨hvalid, hclose⟩
  · rintro ⟨hvalid, hclose⟩
    exact ⟨t, rfl, hvalid, hclose⟩

/-! ### Casts -/

theorem castMillis_of_nonneg {d : ℤ} (h : 0 ≤ d) : castMillis d = d / 1000000 :=
  Int.tdiv_eq_ediv_of_nonneg h

theorem castMillis_of_nonpos {d : ℤ} (h : d ≤ 0) : castMillis d = -(-d / 1000000) := by
  have hneg : castMillis (-d) = -d / 1000000 := castMillis_of_nonneg (by omega)
  unfold castMillis at hneg ⊢
  rw [← hneg, Int.neg_tdiv, neg_neg]

/-- A cast towards zero misses less than a millisecond. -/
theorem castMillis_bounds (d : ℤ) :
    (0 ≤ d → castMillis d * 1000000 ≤ d ∧ d < castMillis d * 1000000 + 1000000) ∧
      (d ≤ 0 → d ≤ castMillis d * 1000000 ∧ castMillis d * 1000000 < d + 1000000) := by
  constructor
  · intro h
    rw [castMillis_of_nonneg h]
    omega
  · intro h
    rw [castMillis_of_nonpos h]
    omega

theorem subCounts_of_lt {a b : ℤ} (h : b < a) (hlt : a - b < 2 ^ 63) : subCounts a b = a - b := by
  unfold subCounts
  exact Int.bmod_eq_of_le (by omega) (by omega)

/-- A difference that is no count wraps below zero. -/
theorem subCounts_of_le {a b : ℤ} (ha : Count a) (hb : Count b) (h : 2 ^ 63 ≤ a - b) :
    subCounts a b = a - b - 2 ^ 64 := by
  obtain ⟨-, ha⟩ := ha
  obtain ⟨hb, -⟩ := hb
  unfold subCounts
  rw [Int.bmod_def]
  split_ifs <;> omega

/-! ### The backends -/

variable {now deadline : ℤ}

/-- **epoll** sleeps until the deadline if and only if the milliseconds fit into an `int`. -/
theorem epoll_exact_iff (hnow : Count now) (hdeadline : Count deadline) (h : now < deadline) :
    EpollExact now deadline ↔ deadline - now ≤ (2 ^ 31 - 1) * 1000000 := by
  have hcall : epollTimeout true (some deadline) now =
      toInt (max 0 (ceilMillis (subCounts deadline now))) := by
    unfold epollTimeout
    dsimp only
    rw [if_neg (not_le.mpr h)]
  unfold EpollExact Close
  rw [hcall]
  by_cases hcount : deadline - now < 2 ^ 63
  · rw [subCounts_of_lt h hcount]
    have hcast := (castMillis_bounds (deadline - now)).1 (by omega)
    have hceil : deadline - now ≤ ceilMillis (deadline - now) * 1000000 ∧
        ceilMillis (deadline - now) * 1000000 < deadline - now + 1000000 := by
      unfold ceilMillis
      split_ifs <;> omega
    rw [max_eq_right (by omega)]
    generalize ceilMillis (deadline - now) = ms at hceil ⊢
    by_cases hfit : ms < 2 ^ 31
    · have hint : toInt ms = ms := Int.bmod_eq_of_le (by omega) (by omega)
      rw [hint]
      omega
    · -- it wraps, below zero or to a time that is 2^32 milliseconds too short
      have hwrap : toInt ms < 0 ∨ toInt ms ≤ ms - 2 ^ 32 := by
        unfold toInt
        rw [Int.bmod_def]
        split_ifs <;> omega
      omega
  · rw [subCounts_of_le hdeadline hnow (by omega)]
    have hpast := (castMillis_bounds (deadline - now - 2 ^ 64)).2 (by
      have := hnow.1
      have := hdeadline.2
      omega)
    have hceil : ceilMillis (deadline - now - 2 ^ 64) ≤ 0 := by
      unfold ceilMillis
      have := hnow.1
      have := hdeadline.2
      split_ifs <;> omega
    rw [max_eq_left hceil]
    have hzero : toInt 0 = 0 := rfl
    rw [hzero]
    omega

/-- **kqueue** sleeps until the deadline if and only if the difference is a count. -/
theorem kqueue_exact_iff (hnow : Count now) (hdeadline : Count deadline) (h : now < deadline) :
    KqueueExact now deadline ↔ deadline - now < 2 ^ 63 := by
  have hcall : kqueueTimeout true (some deadline) now =
      some ⟨(subCounts deadline now).tdiv 1000000000, subCounts deadline now -
        (subCounts deadline now).tdiv 1000000000 * 1000000000⟩ := by
    unfold kqueueTimeout
    dsimp only
    rw [if_neg (not_lt.mpr h.le)]
  unfold KqueueExact
  rw [hcall, specExact_some]
  unfold Timespec.nanos Close
  by_cases hcount : deadline - now < 2 ^ 63
  · rw [subCounts_of_lt h hcount, Int.tdiv_eq_ediv_of_nonneg (by omega)]
    refine iff_of_true ⟨⟨?_, ?_, ?_⟩, ?_⟩ hcount
    · dsimp only
      omega
    · dsimp only
      omega
    · dsimp only
      omega
    · dsimp only
      omega
  · rw [subCounts_of_le hdeadline hnow (by omega)]
    refine iff_of_false ?_ hcount
    rintro ⟨-, hclose⟩
    dsimp only at hclose
    omega

/-- **io_uring** sleeps until the deadline if and only if it is less than a second away, in whole
milliseconds of both counts, and, for a clock below zero and a deadline above it, what both casts
drop is less than a millisecond together. -/
theorem uring_exact_iff (h : now < deadline) :
    UringExact now deadline ↔ castMillis deadline - castMillis now < 1000 ∧
      (now < 0 → 0 < deadline → deadline % 1000000 + -now % 1000000 < 1000000) := by
  have hnow := castMillis_bounds now
  have hdeadline := castMillis_bounds deadline
  unfold UringExact uringTimeout
  dsimp only
  by_cases hpassed : deadline < castMillis now * 1000000
  · -- the deadline is in the same millisecond
    rw [if_pos hpassed, specExact_some]
    unfold Timespec.nanos Close
    refine iff_of_true ⟨⟨le_rfl, le_rfl, by decide⟩, ?_⟩ ⟨?_, ?_⟩
    · dsimp only
      omega
    · omega
    · omega
  · rw [if_neg hpassed, specExact_some]
    unfold Timespec.nanos Close
    have hpos : 0 ≤ castMillis deadline - castMillis now := by omega
    rw [Int.tmod_eq_emod_of_nonneg hpos]
    dsimp only
    have hvalid : Timespec.Valid ⟨0, (castMillis deadline - castMillis now) % 1000 * 1000000⟩ := by
      constructor
      · exact le_rfl
      · dsimp only
        omega
      · dsimp only
        omega
    rw [and_iff_right hvalid]
    rcases le_or_gt 0 now with hn | hn
    · rw [castMillis_of_nonneg hn, castMillis_of_nonneg (hn.trans h.le)]
      omega
    · rw [castMillis_of_nonpos hn.le]
      rcases le_or_gt deadline 0 with hd | hd
      · rw [castMillis_of_nonpos hd]
        omega
      · rw [castMillis_of_nonneg hd.le]
        omega

/-- **When the backends sleep until the deadline**, for all counts of the clock and of a deadline
behind it. -/
theorem sleeps_iff (now deadline : ℤ) (hnow : Count now) (hdeadline : Count deadline)
    (h : now < deadline) :
    (EpollExact now deadline ↔ deadline - now ≤ (2 ^ 31 - 1) * 1000000) ∧
      (KqueueExact now deadline ↔ deadline - now < 2 ^ 63) ∧
      (UringExact now deadline ↔ castMillis deadline - castMillis now < 1000 ∧
        (now < 0 → 0 < deadline → deadline % 1000000 + -now % 1000000 < 1000000)) :=
  ⟨epoll_exact_iff hnow hdeadline h, kqueue_exact_iff hnow hdeadline h, uring_exact_iff h⟩

/-- Half a second ahead, all of them do. -/
theorem sleeps_half_second :
    EpollExact 0 500000000 ∧ KqueueExact 0 500000000 ∧ UringExact 0 500000000 := by
  obtain ⟨hepoll, hkqueue, huring⟩ := sleeps_iff 0 500000000 (by unfold Count; omega)
    (by unfold Count; omega) (by omega)
  exact ⟨hepoll.mpr (by omega), hkqueue.mpr (by omega), huring.mpr (by decide)⟩

/-- Two seconds ahead io_uring does not wait at all, and thirty days ahead epoll waits for ever. -/
theorem sleeps_wrongly :
    ¬ UringExact 0 2000000000 ∧ ¬ EpollExact 0 (30 * 86400 * 1000000000) := by
  constructor
  · rintro ⟨t, ht, -, hclose⟩
    have hzero : t = ⟨0, 0⟩ := Option.some.inj (ht.symm.trans (by decide))
    subst hzero
    exact absurd hclose.2 (by decide)
  · rintro ⟨hpos, -⟩
    exact absurd hpos (by decide)

end NetworkDriver.Net.Multiplexer.Timeouts.Sleep
