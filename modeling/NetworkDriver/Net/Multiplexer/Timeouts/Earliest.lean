import NetworkDriver.Net.Multiplexer.Timeouts.Model

/-! # The earliest deadline

`current_timeout_` caches the earliest deadline in `timeouts_`. `set_timeout` updates it with a
minimum; `handle_timeouts` leaves it stale while the set is swapped out and its handlers set
timeouts, and recomputes it from the merged set at its end.

* `current_earliest`: between the calls it is the earliest deadline, in every run. -/

namespace NetworkDriver.Net.Multiplexer.Timeouts.Earliest

open NetworkDriver.Library.Keyed NetworkDriver.Library.Results NetworkDriver.Library.Run
open NetworkDriver.Net.Multiplexer.Base NetworkDriver.Net.Multiplexer.Timeouts.Model

/-- `current_timeout_` is empty if and only if `timeouts_` is, and is the least deadline of its entries
otherwise. -/
structure Current {δ : Type} (s : MultiplexerBase δ) : Prop where
  none_iff : s.currentTimeout = none ↔ s.timeouts.elems = []
  least : ∀ t, s.currentTimeout = some t →
    (∃ e ∈ s.timeouts.elems, e.when = t) ∧ ∀ e ∈ s.timeouts.elems, t ≤ e.when

variable {δ : Type} {s : MultiplexerBase δ}

/-- `set_timeout` keeps the earliest deadline. -/
theorem setTimeout_earliest (h : Current s) (mgr : Manager) (when : ℤ) :
    Current (s.setTimeout mgr when).2 := by
  set entry : TimeoutEntry := ⟨mgr.handle, when, s.currentTimeoutId⟩
  obtain ⟨e₀, he₀, hkey⟩ := OrderedSet.exists_mem_insert s.timeouts entry
  constructor
  · refine iff_of_false (fun hnone => by cases hnone) fun hnil => ?_
    have hempty : (s.timeouts.insert entry).elems = [] := hnil
    rw [hempty] at he₀
    cases he₀
  · intro t ht
    cases hcur : s.currentTimeout with
    | none =>
      have hnil := h.none_iff.mp hcur
      have hwhen : when = t := by
        have hsome := ht
        unfold MultiplexerBase.setTimeout at hsome
        rw [hcur] at hsome
        exact Option.some.inj hsome
      subst hwhen
      refine ⟨⟨e₀, he₀, hkey⟩, fun e he => ?_⟩
      rcases OrderedSet.mem_of_mem_insert he with rfl | he
      · exact le_rfl
      · rw [hnil] at he
        cases he
    | some t₀ =>
      obtain ⟨⟨e₁, he₁, hwhen₁⟩, hle⟩ := h.least t₀ hcur
      have hmin : min when t₀ = t := by
        have hsome := ht
        unfold MultiplexerBase.setTimeout at hsome
        rw [hcur] at hsome
        exact Option.some.inj hsome
      subst hmin
      refine ⟨?_, fun e he => ?_⟩
      · rcases le_total when t₀ with hle' | hle'
        · exact ⟨e₀, he₀, hkey.trans (min_eq_left hle').symm⟩
        · exact ⟨e₁, OrderedSet.mem_insert_of_mem he₁, hwhen₁.trans (min_eq_right hle').symm⟩
      · rcases OrderedSet.mem_of_mem_insert he with rfl | he
        · exact min_le_left _ _
        · exact (min_le_right _ _).trans (hle e he)

/-- What `handle_timeouts` recomputes at its end is the earliest deadline, whatever happened before. -/
theorem merged_earliest (s : MultiplexerBase Log) (rest : List TimeoutEntry) :
    Current (merged s rest) where
  none_iff := by
    refine Option.map_eq_none_iff.trans ?_
    exact List.head?_eq_none_iff
  least t ht := by
    obtain ⟨e, he, rfl⟩ := Option.map_eq_some_iff.mp ht
    exact ⟨⟨e, List.mem_of_head? he, rfl⟩, fun _ he' => OrderedSet.head_le he he'⟩

theorem perform_earliest {s : MultiplexerBase Log} (h : Current s) (c : Call) :
    Current (c.perform s) := by
  cases c with
  | setTimeout mgr when =>
    have hset := setTimeout_earliest h mgr when
    exact ⟨hset.none_iff, hset.least⟩
  | add mgr => exact ⟨h.none_iff, h.least⟩
  | del handle => exact ⟨h.none_iff, h.least⟩

/-- One event. -/
theorem step_earliest (clock : ℕ → ℤ) (s : Session) (e : Event) (h : Current s.mpx) :
    Current (s.step clock e).mpx := by
  cases hfailed : s.failed with
  | true =>
    unfold Session.step
    rw [if_pos hfailed]
    exact h
  | false =>
    cases e with
    | call c =>
      rw [Session.step_call hfailed]
      exact perform_earliest h c
    | handleTimeouts script =>
      cases hok : s.mpx.handleTimeouts (answer script (s.readings clock)) (s.readings clock) with
      | error fault =>
        unfold Session.step
        simp only [hfailed, hok]
        exact h
      | ok mpx =>
        rw [Session.step_handleTimeouts hfailed hok]
        rw [handleTimeouts_eq] at hok
        obtain ⟨⟨s', rest⟩, -, rfl⟩ := map_eq_ok.mp hok
        have hmerged := merged_earliest s' rest
        exact ⟨hmerged.none_iff, hmerged.least⟩

/-- **`current_timeout_` is always the earliest pending deadline**, in every state between the calls
of every run: managers come and go, timeouts are set at any deadline, also from inside of the
handlers that `handle_timeouts` calls, and the clock reads anything. -/
theorem current_earliest (clock : ℕ → ℤ) (managers : KeyedMap Manager.handle) (es : List Event) :
    Always (Session.step clock) (fun s => Current s.mpx) (Session.start managers) es := by
  refine always_of_step (fun s e => step_earliest clock s e) es ⟨?_, ?_⟩
  · exact iff_of_true rfl rfl
  · intro t ht
    cases ht

end NetworkDriver.Net.Multiplexer.Timeouts.Earliest
