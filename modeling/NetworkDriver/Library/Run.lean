import Mathlib.Data.List.Basic

/-! # Runs of a step function

A system is a state and a step function; a run is a list of events. `Along C` says that every step of
the run meets a condition on the state before it and the event; `Always I` says that a property holds
in every state reached, the first one included.

* `always_of_along`: what one step preserves under `C`, a run whose steps meet `C` preserves.
* `always_iff_along`: if `C` is exactly when one step preserves `I`, it is exactly when runs do.
* `run_congr`: a run does not depend on a part of its events that no step depends on.
* `run_related`: two systems whose steps keep a relation are related after every run. -/

namespace NetworkDriver.Library.Run

variable {σ ε : Type*} (step : σ → ε → σ)

/-- The state after a run. -/
def run (s : σ) (es : List ε) : σ := es.foldl step s

/-- Every step of the run meets `C`. -/
def Along (C : σ → ε → Prop) : σ → List ε → Prop
  | _, [] => True
  | s, e :: es => C s e ∧ Along C (step s e) es

/-- `I` holds in every state of the run. -/
def Always (I : σ → Prop) : σ → List ε → Prop
  | s, [] => I s
  | s, e :: es => I s ∧ Always I (step s e) es

variable {step} in
instance Along.decidable {C : σ → ε → Prop} [∀ s e, Decidable (C s e)] (s : σ) :
    (es : List ε) → Decidable (Along step C s es)
  | [] => .isTrue trivial
  | e :: es => @instDecidableAnd _ _ _ (Along.decidable (step s e) es)

variable {step} in
instance Always.decidable {I : σ → Prop} [DecidablePred I] (s : σ) :
    (es : List ε) → Decidable (Always step I s es)
  | [] => inferInstanceAs (Decidable (I s))
  | e :: es => @instDecidableAnd _ _ _ (Always.decidable (step s e) es)

@[simp] theorem run_nil (s : σ) : run step s [] = s := rfl

@[simp] theorem run_cons (s : σ) (e : ε) (es : List ε) :
    run step s (e :: es) = run step (step s e) es := rfl

/-- A run leads from one state to the other. -/
def Reaches (s s' : σ) : Prop := ∃ es, run step s es = s'

variable {step}

theorem Reaches.refl (s : σ) : Reaches step s s := ⟨[], rfl⟩

theorem Reaches.next {s s' : σ} (h : Reaches step s s') (e : ε) : Reaches step s (step s' e) := by
  obtain ⟨es, rfl⟩ := h
  refine ⟨es ++ [e], ?_⟩
  unfold run
  rw [List.foldl_append]
  rfl

theorem Always.head {I : σ → Prop} {s : σ} {es : List ε} (h : Always step I s es) : I s := by
  cases es with
  | nil => exact h
  | cons e es => exact h.1

theorem Always.last {I : σ → Prop} {s : σ} {es : List ε} (h : Always step I s es) :
    I (run step s es) := by
  induction es generalizing s with
  | nil => exact h
  | cons e es ih => exact ih h.2

theorem Always.imp {I J : σ → Prop} (hIJ : ∀ s, I s → J s) {s : σ} {es : List ε}
    (h : Always step I s es) : Always step J s es := by
  induction es generalizing s with
  | nil => exact hIJ s h
  | cons e es ih => exact ⟨hIJ s h.1, ih h.2⟩

theorem Always.and {I J : σ → Prop} {s : σ} {es : List ε} (hI : Always step I s es)
    (hJ : Always step J s es) : Always step (fun s => I s ∧ J s) s es := by
  induction es generalizing s with
  | nil => exact ⟨hI, hJ⟩
  | cons e es ih => exact ⟨⟨hI.1, hJ.1⟩, ih hI.2 hJ.2⟩

theorem Along.and {C D : σ → ε → Prop} {s : σ} {es : List ε} (hC : Along step C s es)
    (hD : Along step D s es) : Along step (fun s e => C s e ∧ D s e) s es := by
  induction es generalizing s with
  | nil => trivial
  | cons e es ih => exact ⟨⟨hC.1, hD.1⟩, ih hC.2 hD.2⟩

/-- A condition that the invariant implies is met along a run that keeps the invariant. -/
theorem Always.along {I : σ → Prop} {C D : σ → ε → Prop} (hI : ∀ s e, I s → D s e → C s e) {s : σ}
    {es : List ε} (h : Always step I s es) (hD : Along step D s es) : Along step C s es := by
  induction es generalizing s with
  | nil => trivial
  | cons e es ih => exact ⟨hI s e h.1 hD.1, ih h.2 hD.2⟩

/-- What holds in every state holds after every step. -/
theorem Always.along_next {I : σ → Prop} {s : σ} {es : List ε} (h : Always step I s es) :
    Along step (fun s e => I (step s e)) s es := by
  induction es generalizing s with
  | nil => trivial
  | cons e es ih => exact ⟨h.2.head, ih h.2⟩

/-- **The invariant rule.** -/
theorem always_of_along {I : σ → Prop} {C : σ → ε → Prop}
    (hstep : ∀ s e, I s → C s e → I (step s e)) {s : σ} {es : List ε} (hs : I s)
    (h : Along step C s es) : Always step I s es := by
  induction es generalizing s with
  | nil => exact hs
  | cons e es ih => exact ⟨hs, ih (hstep s e hs h.1) h.2⟩

/-- What every step preserves holds in every run. -/
theorem always_of_step {I : σ → Prop} (hstep : ∀ s e, I s → I (step s e)) {s : σ} (es : List ε)
    (hs : I s) : Always step I s es := by
  induction es generalizing s with
  | nil => exact hs
  | cons e es ih => exact ⟨hs, ih (hstep s e hs)⟩

/-- **The exact invariant rule**, on the runs whose steps are in the domain `D`. -/
theorem always_iff_along {I : σ → Prop} {C D : σ → ε → Prop}
    (hstep : ∀ s e, I s → D s e → (I (step s e) ↔ C s e)) {s : σ} {es : List ε} (hs : I s)
    (hD : Along step D s es) : Always step I s es ↔ Along step C s es := by
  induction es generalizing s with
  | nil => exact ⟨fun _ => trivial, fun _ => hs⟩
  | cons e es ih =>
    constructor
    · intro h
      have he := h.2.head
      exact ⟨(hstep s e hs hD.1).mp he, (ih he hD.2).mp h.2⟩
    · intro h
      have he := (hstep s e hs hD.1).mpr h.1
      exact ⟨hs, (ih he hD.2).mpr h.2⟩

/-- **The exact rule for steps**: conditions that say the same under an invariant, which one keeps. -/
theorem along_iff_along {I : σ → Prop} {C D : σ → ε → Prop} (hCD : ∀ s e, I s → (C s e ↔ D s e))
    (hstep : ∀ s e, I s → D s e → I (step s e)) {s : σ} {es : List ε} (hs : I s) :
    Along step C s es ↔ Along step D s es := by
  induction es generalizing s with
  | nil => exact Iff.rfl
  | cons e es ih =>
    constructor
    · intro h
      have hD := (hCD s e hs).mp h.1
      exact ⟨hD, (ih (hstep s e hs hD)).mp h.2⟩
    · intro h
      exact ⟨(hCD s e hs).mpr h.1, (ih (hstep s e hs h.1)).mpr h.2⟩

theorem along_of_forall {C : σ → ε → Prop} (h : ∀ s e, C s e) (s : σ) (es : List ε) :
    Along step C s es := by
  induction es generalizing s with
  | nil => trivial
  | cons e es ih => exact ⟨h s e, ih _⟩

/-- A condition on the events alone. -/
theorem along_of_mem {D : ε → Prop} (s : σ) {es : List ε} (h : ∀ e ∈ es, D e) :
    Along step (fun _ e => D e) s es := by
  induction es generalizing s with
  | nil => trivial
  | cons e es ih =>
    exact ⟨h e List.mem_cons_self, ih _ fun e' he' => h e' (List.mem_cons_of_mem e he')⟩

/-- **The two-run rule**, for events that are the same but for what `f` forgets. -/
theorem run_congr {α : Type*} {f : ε → α} {C : σ → ε → Prop}
    (hstep : ∀ s e e', f e = f e' → C s e → step s e = step s e') {s : σ} {es es' : List ε}
    (hf : es.map f = es'.map f) (h : Along step C s es) : run step s es = run step s es' := by
  induction es generalizing s es' with
  | nil =>
    obtain rfl := List.map_eq_nil_iff.mp hf.symm
    rfl
  | cons e es ih =>
    obtain ⟨e', es', rfl, he, hes⟩ := List.map_eq_cons_iff.mp hf.symm
    rw [run_cons, run_cons, ← hstep s e e' he.symm h.1]
    exact ih hes.symm h.2

/-- **The simulation rule**, for two systems with the same events. -/
theorem run_related {τ : Type*} {step' : τ → ε → τ} {R : σ → τ → Prop} {D : ε → Prop}
    (hstep : ∀ s t e, R s t → D e → R (step s e) (step' t e)) {s : σ} {t : τ} {es : List ε}
    (h : R s t) (hD : ∀ e ∈ es, D e) : R (run step s es) (run step' t es) := by
  induction es generalizing s t with
  | nil => exact h
  | cons e es ih =>
    have hhead := hstep s t e h (hD e List.mem_cons_self)
    exact ih hhead fun e' he' => hD e' (List.mem_cons_of_mem e he')

end NetworkDriver.Library.Run
