import NetworkDriver.Net.Dispatcher.Applications
import NetworkDriver.Net.Dispatcher.Keeping

/-! # The table of timeouts

The wrapper of the dispatcher enters every id that it answers into `timeouts_`; nothing takes one out
again. So the table holds every id that was ever set.

* `tabled_step`: the keys of the table are the ids that were set.
* `exact_iff`: exactly when they are the ids that are pending. -/

namespace NetworkDriver.Net.Dispatcher.TimeoutTable

open NetworkDriver.Library.Keyed NetworkDriver.Library.Run NetworkDriver.Library.Scripts
open NetworkDriver.Net.Types NetworkDriver.Net.Dispatcher.Model NetworkDriver.Net.Dispatcher.Isolation
open NetworkDriver.Net.Dispatcher.Applications NetworkDriver.Net.Dispatcher.Keeping
open NetworkDriver.Net.Datagrams.Model (Endpoint)
open DatagramDispatcher

variable {π σ : Type}

/-- The ids that the layers were answered. -/
def idsSet (s : DatagramDispatcher π σ) : List UInt64 := s.trace.obtained.map Prod.snd

/-- The keys of `timeouts_`. -/
def keys (s : DatagramDispatcher π σ) : List UInt64 := s.timeouts.elems.map Prod.fst

/-- The table holds exactly the ids that were set and have not fired yet. -/
def HoldsPending (h : Host π σ) : Prop :=
  ∀ id, id ∈ keys h.dispatcher ↔ id ∈ idsSet h.dispatcher ∧ id ∉ h.fired

/-- A timeout fires once, after it was set. -/
def Fires (h : Host π σ) : HostEvent → Prop
  | .handleTimeout id => id ∈ idsSet h.dispatcher ∧ id ∉ h.fired
  | _ => True

/-- No timeout fires. -/
def Quiet (_ : Host π σ) : HostEvent → Prop
  | .handleTimeout _ => False
  | _ => True

variable {par : Parent π}

theorem hostStep_keeps {app : NextLayer σ} {factory : ℕ → σ}
    {J : DatagramDispatcher π (Application σ) → Prop} (hJ : Keeps par J) {h : Host π σ}
    (hs : J h.dispatcher) (ev : HostEvent) : J (hostStep par app factory h ev).dispatcher := by
  cases ev with
  | consume data ep => exact hJ.consume _ data ep hs
  | produce order => exact hJ.produceLoop _ (hJ.frame _ h.dispatcher.trace.delivered hs)
  | handleTimeout id => exact hJ.handleTimeout id hs

/-! ### The keys of the table -/

/-- The keys of the table are the ids that were set. -/
def Tabled (s : DatagramDispatcher π σ) : Prop := ∀ id, id ∈ keys s ↔ id ∈ idsSet s

theorem setTimeout_set (set : ℤ → π → UInt64 × π) (key : Endpoint) (time : ℤ) (ep : Endpoint)
    (s : DatagramDispatcher π σ) :
    idsSet (setTimeout set key time ep s).2 = idsSet s ++ [(set time s.parent).1] :=
  List.map_append

theorem setTimeout_keys (set : ℤ → π → UInt64 × π) (key : Endpoint) (time : ℤ) (ep : Endpoint)
    (s : DatagramDispatcher π σ) (id : UInt64) :
    id ∈ keys (setTimeout set key time ep s).2 ↔ id ∈ keys s ∨ id = (set time s.parent).1 := by
  change id ∈ (s.timeouts.emplace ((set time s.parent).1, ep)).elems.map Prod.fst ↔ _
  unfold keys
  constructor
  · intro hid
    obtain ⟨x, hx, rfl⟩ := List.mem_map.mp hid
    rcases KeyedMap.mem_emplace.mp hx with hx | ⟨rfl, -⟩
    · exact .inl (List.mem_map_of_mem hx)
    · exact .inr rfl
  · intro hid
    by_cases hold : id ∈ s.timeouts.elems.map Prod.fst
    · obtain ⟨x, hx, rfl⟩ := List.mem_map.mp hold
      exact List.mem_map_of_mem (KeyedMap.mem_emplace.mpr (.inl hx))
    · obtain rfl := hid.resolve_left hold
      exact List.mem_map.mpr ⟨((set time s.parent).1, ep), KeyedMap.mem_emplace.mpr (.inr ⟨rfl, hold⟩), rfl⟩

theorem tabled_keeps (par : Parent π) : Keeps par (Tabled : DatagramDispatcher π σ → Prop) where
  frame _ _ hs := hs
  told key ep t s hs := by
    cases t <;> exact hs
  asked key ep q s hs := by
    have hset (set : ℤ → π → UInt64 × π) (time : ℤ) : Tabled (setTimeout set key time ep s).2 := by
      intro id
      rw [setTimeout_keys, setTimeout_set, List.mem_append, List.mem_singleton, hs id]
    cases q with
    | setTimeoutIn duration => exact hset par.setTimeoutIn duration
    | setTimeoutAt point => exact hset par.setTimeoutAt point

/-- An id that was set stays in the record. -/
theorem set_keeps (par : Parent π) (id : UInt64) :
    Keeps par (fun s : DatagramDispatcher π σ => id ∈ idsSet s) where
  frame _ _ hs := hs
  told key ep t s hs := by
    cases t <;> exact hs
  asked key ep q s hs := by
    have hset (set : ℤ → π → UInt64 × π) (time : ℤ) : id ∈ idsSet (setTimeout set key time ep s).2 := by
      rw [setTimeout_set]
      exact List.mem_append_left _ hs
    cases q with
    | setTimeoutIn duration => exact hset par.setTimeoutIn duration
    | setTimeoutAt point => exact hset par.setTimeoutAt point

variable (par : Parent π) (app : NextLayer σ) (factory : ℕ → σ)

theorem tabled_step {h : Host π σ} (hs : Tabled h.dispatcher) (ev : HostEvent) :
    Tabled (hostStep par app factory h ev).dispatcher := hostStep_keeps (tabled_keeps par) hs ev

/-- Every id that fired was set. -/
structure FiredSet (h : Host π σ) : Prop where
  tabled : Tabled h.dispatcher
  fired : ∀ id ∈ h.fired, id ∈ idsSet h.dispatcher

theorem firedSet_step {h : Host π σ} (hs : FiredSet h) (ev : HostEvent) (hfires : Fires h ev) :
    FiredSet (hostStep par app factory h ev) := by
  refine ⟨tabled_step par app factory hs.tabled ev, fun id hid => ?_⟩
  refine hostStep_keeps (set_keeps par id) ?_ ev
  cases ev with
  | consume data ep => exact hs.fired id hid
  | produce order => exact hs.fired id hid
  | handleTimeout id' =>
    rcases List.mem_append.mp hid with hid | hid
    · exact hs.fired id hid
    · rw [List.mem_singleton.mp hid]
      exact hfires.1

/-- A timeout that fired is in the table. -/
theorem not_holdsPending {h : Host π σ} (hs : FiredSet h) {id : UInt64} (hid : id ∈ h.fired) :
    ¬HoldsPending h := by
  intro hpending
  have hkey := (hs.tabled id).mpr (hs.fired id hid)
  exact ((hpending id).mp hkey).2 hid

theorem holdsPending_of_nil {h : Host π σ} (hs : Tabled h.dispatcher) (hfired : h.fired = []) :
    HoldsPending h := by
  intro id
  rw [hs id, hfired]
  simp

theorem holdsPending_step {h : Host π σ} (hpending : HoldsPending h) (ev : HostEvent)
    (hs : FiredSet h ∧ Fires h ev) : HoldsPending (hostStep par app factory h ev) ↔ Quiet h ev := by
  have hafter := firedSet_step par app factory hs.1 ev hs.2
  have hnone : h.fired = [] :=
    List.eq_nil_iff_forall_not_mem.mpr fun id hid => not_holdsPending hs.1 hid hpending
  cases ev with
  | consume data ep => exact ⟨fun _ => trivial, fun _ => holdsPending_of_nil hafter.tabled hnone⟩
  | produce order => exact ⟨fun _ => trivial, fun _ => holdsPending_of_nil hafter.tabled hnone⟩
  | handleTimeout id =>
    have hfired : id ∈ (hostStep par app factory h (.handleTimeout id)).fired :=
      List.mem_append_right _ (List.mem_singleton_self id)
    exact ⟨not_holdsPending hafter hfired, False.elim⟩

/-- **The table holds only pending timeouts, in every state of a run whose timeouts fire once and after
they were set, exactly if** no timeout fires. -/
theorem exact_iff (parent : π) (es : List HostEvent)
    (hfires : Along (hostStep par app factory) Fires { dispatcher := { parent := parent } } es) :
    Always (hostStep par app factory) HoldsPending { dispatcher := { parent := parent } } es ↔
      Along (hostStep par app factory) Quiet { dispatcher := { parent := parent } } es := by
  have hfresh : FiredSet ({ dispatcher := { parent := parent } } : Host π σ) :=
    ⟨fun _ => Iff.rfl, fun _ hid => absurd hid List.not_mem_nil⟩
  have hkept : Always (hostStep par app factory) FiredSet { dispatcher := { parent := parent } } es :=
    always_of_along (fun _ ev hs hf => firedSet_step par app factory hs ev hf) hfresh hfires
  have hdomain := hkept.along (C := fun h ev => FiredSet h ∧ Fires h ev) (fun _ _ hs hf => ⟨hs, hf⟩) hfires
  have hstep : ∀ (h : Host π σ) (ev : HostEvent), HoldsPending h → FiredSet h ∧ Fires h ev →
      (HoldsPending (hostStep par app factory h ev) ↔ Quiet h ev) :=
    fun h ev hpending hs => holdsPending_step par app factory hpending ev hs
  exact always_iff_along hstep (holdsPending_of_nil hfresh.tabled rfl) hdomain

/-- A datagram sets a timeout, and nothing fires. -/
theorem pending_timeout_held :
    Always (hostStep numberingParent alarmLayer fun _ => []) HoldsPending { dispatcher := { parent := 0 } }
      [.consume [7] ⟨1, 1⟩, .produce [⟨1, 1⟩]] :=
  (exact_iff numberingParent alarmLayer (fun _ => []) 0 [.consume [7] ⟨1, 1⟩, .produce [⟨1, 1⟩]]
    ⟨trivial, trivial, trivial⟩).mpr ⟨trivial, trivial, trivial⟩

/-- A timeout that was set fires, and is still in the table. -/
theorem fired_timeout_held :
    ¬∀ es : List HostEvent,
      Along (hostStep numberingParent alarmLayer fun _ => []) Fires { dispatcher := { parent := 0 } } es →
      Always (hostStep numberingParent alarmLayer fun _ => []) HoldsPending
        { dispatcher := { parent := 0 } } es := by
  intro hall
  have hset : 0 ∈ idsSet (hostStep numberingParent alarmLayer (fun _ => []) { dispatcher := { parent := 0 } }
      (.consume [7] ⟨1, 1⟩)).dispatcher := by decide +kernel
  have hfires : Along (hostStep numberingParent alarmLayer fun _ => []) Fires
      { dispatcher := { parent := 0 } }
      [.consume [7] ⟨1, 1⟩, .handleTimeout 0] := ⟨trivial, ⟨hset, List.not_mem_nil⟩, trivial⟩
  have hlast := (hall _ hfires).last 0
  exact absurd hlast (by decide +kernel)

end NetworkDriver.Net.Dispatcher.TimeoutTable
