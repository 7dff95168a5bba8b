import NetworkDriver.Library.Run

/-! # Pools of bounded size

A pool keeps what is no longer needed for later use: it is taken from the front, and put at the end
as long as the pool holds less than its capacity.

A system `Serves` a pool if each of its steps takes from it or puts something there. The limit that
its pool should respect may be another than the capacity.

* `putAll_eq`: of many put in a row the first ones stay.
* `Serves.always_forall`: what is in the pool in a run.
* `Serves.always_le_iff`: the runs in which the pool respects its limit. -/

namespace NetworkDriver.Library.Pool

open NetworkDriver.Library.Run

variable {α : Type*}

/-- One more, if there is space. -/
def put (capacity : ℕ) (pool : List α) (a : α) : List α :=
  if pool.length < capacity then pool ++ [a] else pool

/-- Many, one after the other. -/
def putAll (capacity : ℕ) (pool as : List α) : List α := as.foldl (put capacity) pool

variable {capacity limit : ℕ} {pool as : List α}

@[simp] theorem putAll_nil : putAll capacity pool [] = pool := rfl

@[simp] theorem putAll_cons (a : α) :
    putAll capacity pool (a :: as) = putAll capacity (put capacity pool a) as := rfl

theorem putAll_eq : putAll capacity pool as = pool ++ as.take (capacity - pool.length) := by
  induction as generalizing pool with
  | nil => simp
  | cons a as ih =>
    rw [putAll_cons, ih]
    unfold put
    split_ifs with hspace
    · have hsub : capacity - pool.length = capacity - (pool ++ [a]).length + 1 := by
        simp only [List.length_append, List.length_singleton]
        omega
      rw [hsub, List.take_succ_cons, List.append_assoc, List.singleton_append]
    · have hfull : capacity - pool.length = 0 := by omega
      rw [hfull, List.take_zero, List.take_zero]

theorem mem_putAll {a : α} (h : a ∈ putAll capacity pool as) : a ∈ pool ∨ a ∈ as := by
  rw [putAll_eq, List.mem_append] at h
  rcases h with h | h
  · exact .inl h
  · exact .inr (List.mem_of_mem_take h)

theorem length_putAll :
    (putAll capacity pool as).length = pool.length + min (capacity - pool.length) as.length := by
  rw [putAll_eq, List.length_append, List.length_take]

/-- **The limit**: a pool of another limit stays below it if its capacity does, or if there is room. -/
theorem length_putAll_le_iff (h : pool.length ≤ limit) :
    (putAll capacity pool as).length ≤ limit ↔
      capacity ≤ limit ∨ pool.length + as.length ≤ limit := by
  rw [length_putAll]
  omega

/-! ### Systems with a pool -/

/-- Every step takes from the pool, or puts `added` there; the settings stay. -/
structure Serves {σ ε : Type*} (step : σ → ε → σ) (pool : σ → List α) (capacity limit : σ → ℕ)
    (added : σ → ε → List α) : Prop where
  capacity_step : ∀ s e, capacity (step s e) = capacity s
  limit_step : ∀ s e, limit (step s e) = limit s
  pool_step : ∀ s e, added s e = [] ∧ pool (step s e) <:+ pool s ∨
    pool (step s e) = putAll (capacity s) (pool s) (added s e)

section Serves

variable {σ ε : Type*} {step : σ → ε → σ} {pool : σ → List α} {capacity limit : σ → ℕ}
  {added : σ → ε → List α} {s : σ}

/-- What holds of all that is put into the pool holds of all that is in it. -/
theorem Serves.always_forall {P : α → Prop} (h : Serves step pool capacity limit added)
    (hadded : ∀ s e, ∀ a ∈ added s e, P a) (hs : ∀ a ∈ pool s, P a) (es : List ε) :
    Always step (fun s => ∀ a ∈ pool s, P a) s es := by
  refine always_of_step (fun s e hs a ha => ?_) es hs
  rcases h.pool_step s e with ⟨-, hsuffix⟩ | hput
  · exact hs a (hsuffix.subset ha)
  · rw [hput] at ha
    rcases mem_putAll ha with ha | ha
    · exact hs a ha
    · exact hadded s e a ha

theorem Serves.step_le_iff (h : Serves step pool capacity limit added) (e : ε)
    (hs : (pool s).length ≤ limit s) : (pool (step s e)).length ≤ limit (step s e) ↔
      (added s e ≠ [] → capacity s ≤ limit s ∨ (pool s).length + (added s e).length ≤ limit s) := by
  rw [h.limit_step]
  rcases h.pool_step s e with ⟨hnone, hsuffix⟩ | hput
  · exact iff_of_true (Nat.le_trans hsuffix.length_le hs) fun hne => absurd hnone hne
  · rw [hput]
    by_cases hnone : added s e = []
    · rw [hnone]
      exact iff_of_true hs fun hne => absurd rfl hne
    · rw [length_putAll_le_iff hs]
      simp only [ne_eq, hnone, not_false_eq_true, forall_const]

/-- **The limit in a run**: it is respected exactly if there is room for all that is put. -/
theorem Serves.always_le_iff (h : Serves step pool capacity limit added)
    (hs : (pool s).length ≤ limit s) (es : List ε) :
    Always step (fun s => (pool s).length ≤ limit s) s es ↔
      Along step (fun s e => added s e ≠ [] →
        capacity s ≤ limit s ∨ (pool s).length + (added s e).length ≤ limit s) s es :=
  always_iff_along (D := fun _ _ => True) (fun _ e hs _ => h.step_le_iff e hs) hs
    (along_of_forall (fun _ _ => trivial) _ _)

/-- A capacity within the limit is enough. -/
theorem Serves.always_le (h : Serves step pool capacity limit added)
    (hs : (pool s).length ≤ limit s) (hle : capacity s ≤ limit s) (es : List ε) :
    Always step (fun s => (pool s).length ≤ limit s) s es := by
  have hsettings : Always step (fun s => capacity s ≤ limit s) s es := by
    refine always_of_step (fun s e hs => ?_) es hle
    rw [h.capacity_step, h.limit_step]
    exact hs
  refine (h.always_le_iff hs es).mpr ?_
  exact hsettings.along (D := fun _ _ => True) (fun _ _ hs _ _ => .inl hs)
    (along_of_forall (fun _ _ => trivial) _ _)

theorem Serves.run_limit (h : Serves step pool capacity limit added) (s : σ) (es : List ε) :
    limit (run step s es) = limit s := by
  induction es generalizing s with
  | nil => rfl
  | cons e es ih => rw [run_cons, ih, h.limit_step]

end Serves

end NetworkDriver.Library.Pool
