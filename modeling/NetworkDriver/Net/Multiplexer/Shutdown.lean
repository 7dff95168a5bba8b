import NetworkDriver.Net.Multiplexer.Base

/-! # Graceful shutdown

The law of a graceful shutdown: once the multiplexer is shutting down, a removal leaves the event loop
stopped if and only if it leaves no manager (`Lawful`). What breaks it is `Orderly`'s negation: a
`shutdown` of a running loop that finds a manager to remove at once, or a removal of the last manager
that bypasses the check.

This module has the part that the backends share. A function is `Calm` if it leaves managers and flags
alone, but for a `shutdown` in an idle state, which breaks the law; `Calm` functions keep the
invariants `Serving` and `Settled`.

* `shutdownWith_breaks`: a `shutdown` of a running loop with an idle manager breaks the law.
* `shutdownWith_calm`: `shutdown` is calm, if what it calls is.
* `Settled.iff`: the invariant says that the law holds if and only if the history is orderly. -/

namespace NetworkDriver.Net.Multiplexer.Shutdown

open NetworkDriver.Library.Keyed NetworkDriver.Library.Results
open NetworkDriver.Net.Types NetworkDriver.Net.Multiplexer.Base

/-! ### The law and what breaks it -/

/-- Once the multiplexer is shutting down, a removal leaves the loop stopped iff no manager is left. -/
def Lawful (h : History) : Prop :=
  ∀ r ∈ h.removals, r.shuttingDown = true → (r.running = false ↔ r.empty = true)

/-- No `shutdown` of a running loop finds a manager, the pipe reader apart, that waits for nothing but
reading and accepting, and no qualified `multiplexer_base::del` removes the last manager of a
multiplexer that is shutting down. -/
def Orderly (h : History) : Prop :=
  (∀ c ∈ h.shutdowns, c.running = true → c.idle = false) ∧
    ∀ b ∈ h.bypasses, b.shuttingDown = true → b.last = false

/-- Both fail. -/
def Broken (h : History) : Prop := ¬ Lawful h ∧ ¬ Orderly h

/-- A history goes on. -/
structure Grows (h h' : History) : Prop where
  removals : h.removals ⊆ h'.removals
  shutdowns : h.shutdowns ⊆ h'.shutdowns
  bypasses : h.bypasses ⊆ h'.bypasses

theorem Grows.refl (h : History) : Grows h h :=
  ⟨List.Subset.refl _, List.Subset.refl _, List.Subset.refl _⟩

theorem Grows.trans {h h' h'' : History} (g : Grows h h') (g' : Grows h' h'') : Grows h h'' :=
  ⟨List.Subset.trans g.removals g'.removals, List.Subset.trans g.shutdowns g'.shutdowns,
    List.Subset.trans g.bypasses g'.bypasses⟩

theorem Grows.not_lawful {h h' : History} (g : Grows h h') (hl : ¬ Lawful h) : ¬ Lawful h' :=
  fun hl' => hl fun r hr => hl' r (g.removals hr)

theorem Grows.broken {h h' : History} (g : Grows h h') (hb : Broken h) : Broken h' :=
  ⟨g.not_lawful hb.1, fun ho => hb.2
    ⟨fun c hc => ho.1 c (g.shutdowns hc), fun b hb => ho.2 b (g.bypasses hb)⟩⟩

variable {δ : Type} {s s' s'' : MultiplexerBase δ}

/-! ### Cuts -/

/-- `s'` follows `s` by the loss of interests in reading and accepting, and by calls of `shutdown` that
found no idle manager. -/
structure Cuts (s s' : MultiplexerBase δ) : Prop where
  managers : s'.managers = s.managers
  running : s'.running = s.running
  pipeReader : s'.pipeReader = s.pipeReader
  shuttingDown : s.shuttingDown = true → s'.shuttingDown = true
  keeps : ∀ mgr, s'.mask mgr &&& ~~~Operation.readAccept = s.mask mgr &&& ~~~Operation.readAccept
  shrinks : ∀ mgr, s'.mask mgr &&& s.mask mgr = s'.mask mgr
  removals : s'.history.removals = s.history.removals
  bypasses : s'.history.bypasses = s.history.bypasses
  shutdowns : s.history.shutdowns ⊆ s'.history.shutdowns
  quiet : ∀ c ∈ s'.history.shutdowns, c ∈ s.history.shutdowns ∨ c.idle = false

theorem Cuts.refl (s : MultiplexerBase δ) : Cuts s s :=
  ⟨rfl, rfl, rfl, id, fun _ => rfl, fun _ => BitVec.and_self, rfl, rfl, List.Subset.refl _,
    fun _ => Or.inl⟩

theorem Cuts.trans (h : Cuts s s') (h' : Cuts s' s'') : Cuts s s'' where
  managers := h'.managers.trans h.managers
  running := h'.running.trans h.running
  pipeReader := h'.pipeReader.trans h.pipeReader
  shuttingDown := h'.shuttingDown ∘ h.shuttingDown
  keeps mgr := (h'.keeps mgr).trans (h.keeps mgr)
  shrinks mgr := by
    rw [← h'.shrinks mgr, BitVec.and_assoc, h.shrinks mgr]
  removals := h'.removals.trans h.removals
  bypasses := h'.bypasses.trans h.bypasses
  shutdowns := List.Subset.trans h.shutdowns h'.shutdowns
  quiet c hc := by
    rcases h'.quiet c hc with hc | hc
    · exact h.quiet c hc
    · exact Or.inr hc

theorem Cuts.grows (h : Cuts s s') : Grows s.history s'.history where
  removals := by rw [h.removals]; exact List.Subset.refl _
  shutdowns := h.shutdowns
  bypasses := by rw [h.bypasses]; exact List.Subset.refl _

theorem Cuts.idle_iff (h : Cuts s s') : s'.Idle ↔ s.Idle := by
  unfold MultiplexerBase.Idle
  simp only [h.managers, h.pipeReader, h.keeps]

/-- `mask_del` for reading and accepting cuts these interests. -/
theorem maskDel_cuts {mgr : Manager} {mask : Operation}
    (h : maskDel (s.mask mgr) Operation.readAccept = some mask) :
    Cuts s (s.maskSet mgr mask) ∧ mask &&& Operation.readAccept = Operation.none := by
  obtain rfl := mask_of_maskDel_some h
  have hbits : ∀ m : Operation,
      (m &&& ~~~Operation.readAccept) &&& ~~~Operation.readAccept = m &&& ~~~Operation.readAccept ∧
      (m &&& ~~~Operation.readAccept) &&& m = m &&& ~~~Operation.readAccept ∧
      (m &&& ~~~Operation.readAccept) &&& Operation.readAccept = Operation.none := by
    decide +kernel
  obtain ⟨hkeep, hshrink, hclear⟩ := hbits (s.mask mgr)
  refine ⟨⟨rfl, rfl, rfl, id, fun m => ?_, fun m => ?_, rfl, rfl, List.Subset.refl _, fun _ => Or.inl⟩,
    hclear⟩
  · by_cases hm : m = mgr
    · rw [hm, MultiplexerBase.maskSet_mask_self]
      exact hkeep
    · rw [MultiplexerBase.maskSet_mask_of_ne _ _ hm]
  · by_cases hm : m = mgr
    · rw [hm, MultiplexerBase.maskSet_mask_self]
      exact hshrink
    · rw [MultiplexerBase.maskSet_mask_of_ne _ _ hm]
      exact BitVec.and_self

/-! ### Calm functions -/

/-- The outcome of a call that is calm: a cut, or what a `shutdown` makes of an idle state, which
breaks the law if the loop was running. -/
structure Calm (s s' : MultiplexerBase δ) : Prop where
  grows : Grows s.history s'.history
  cuts : Cuts s s' ∨ (s.Idle ∧ (s.running = true → Broken s'.history))

theorem Cuts.calm (h : Cuts s s') : Calm s s' := ⟨h.grows, Or.inl h⟩

theorem Calm.trans (h : Calm s s') (h' : Calm s' s'') : Calm s s'' := by
  refine ⟨h.grows.trans h'.grows, ?_⟩
  rcases h.cuts with hc | ⟨hi, hb⟩
  · rcases h'.cuts with hc' | ⟨hi', hb'⟩
    · exact Or.inl (hc.trans hc')
    · refine Or.inr ⟨hc.idle_iff.mp hi', fun hr => hb' ?_⟩
      rw [hc.running]
      exact hr
  · exact Or.inr ⟨hi, fun hr => h'.grows.broken (hb hr)⟩

/-- In a state that is not idle a calm call is a cut. -/
theorem Calm.cuts_of_not_idle (h : Calm s s') (hi : ¬ s.Idle) : Cuts s s' :=
  h.cuts.resolve_right fun hc => hi hc.1

/-! ### The invariants -/

/-- The loop runs, and the law holds and the history is orderly; or both are broken. -/
def Serving (s : MultiplexerBase δ) : Prop :=
  Broken s.history ∨ (Lawful s.history ∧ Orderly s.history ∧ s.running = true)

/-- As `Serving`, but the loop may be stopped, if no manager is left. -/
def Settled (s : MultiplexerBase δ) : Prop :=
  Broken s.history ∨ (Lawful s.history ∧ Orderly s.history ∧
    (s.running = true ∨ s.managers.elems = []))

theorem Serving.settled (h : Serving s) : Settled s :=
  h.imp_right fun h => ⟨h.1, h.2.1, Or.inl h.2.2⟩

/-- Where a manager is registered, the loop runs. -/
theorem Settled.serving (h : Settled s) {mgr : Manager} (hm : mgr ∈ s.managers.elems) : Serving s := by
  refine h.imp_right fun ⟨hl, ho, hr⟩ => ⟨hl, ho, hr.resolve_right fun he => ?_⟩
  rw [he] at hm
  exact List.not_mem_nil hm

theorem Settled.iff (h : Settled s) : Lawful s.history ↔ Orderly s.history := by
  rcases h with ⟨hl, ho⟩ | ⟨hl, ho, -⟩
  · exact iff_of_false hl ho
  · exact iff_of_true hl ho

/-- Between two iterations of the event loop: the law holds iff the history is orderly, and as long as
the loop runs it can go on. -/
def Between (s : MultiplexerBase δ) : Prop :=
  (Lawful s.history ↔ Orderly s.history) ∧ (s.running = true → Serving s)

theorem Settled.between (h : Settled s) : Between s :=
  ⟨h.iff, fun hr => h.imp_right fun ⟨hl, ho, _⟩ => ⟨hl, ho, hr⟩⟩

/-- A running loop in which nothing has happened yet. -/
theorem between_start (hr : s.running = true) (hh : s.history = {}) : Between s := by
  have hserve : Serving s := by
    refine Or.inr ⟨?_, ⟨?_, ?_⟩, hr⟩ <;> rw [hh]
    · exact fun r hmem => absurd hmem List.not_mem_nil
    · exact fun c hmem => absurd hmem List.not_mem_nil
    · exact fun b hmem => absurd hmem List.not_mem_nil
  exact hserve.settled.between

theorem Cuts.orderly (h : Cuts s s') (ho : Orderly s.history) : Orderly s'.history := by
  refine ⟨fun c hc hr => ?_, fun b hb => ?_⟩
  · rcases h.quiet c hc with hc | hc
    · exact ho.1 c hc hr
    · exact hc
  · rw [h.bypasses] at hb
    exact ho.2 b hb

theorem Cuts.lawful (h : Cuts s s') (hl : Lawful s.history) : Lawful s'.history := by
  unfold Lawful
  rw [h.removals]
  exact hl

theorem Calm.serving (h : Calm s s') (hs : Serving s) : Serving s' := by
  rcases hs with hb | ⟨hl, ho, hr⟩
  · exact Or.inl (h.grows.broken hb)
  · rcases h.cuts with hc | ⟨-, hb⟩
    · exact Or.inr ⟨hc.lawful hl, hc.orderly ho, hc.running.trans hr⟩
    · exact Or.inl (hb hr)

theorem Calm.settled (h : Calm s s') (hs : Settled s) : Settled s' := by
  rcases hs with hb | ⟨hl, ho, hr | he⟩
  · exact Or.inl (h.grows.broken hb)
  · exact (h.serving (Or.inr ⟨hl, ho, hr⟩)).settled
  · -- without managers the state is not idle
    have hc := h.cuts_of_not_idle fun ⟨mgr, hm, _⟩ => List.not_mem_nil (he ▸ hm)
    refine Or.inr ⟨hc.lawful hl, hc.orderly ho, Or.inr ?_⟩
    rw [hc.managers]
    exact he

/-! ### Removals -/

theorem logRemoval_grows (s : MultiplexerBase δ) : Grows s.history s.logRemoval.history :=
  ⟨List.subset_append_left _ _, List.Subset.refl _, List.Subset.refl _⟩

/-- A removal from a running loop, after which the loop is stopped iff the multiplexer is shutting down
and no manager is left, is lawful. -/
theorem logRemoval_settled (hl : Lawful s.history) (ho : Orderly s.history)
    (hr : s.running = !(s.shuttingDown && !s.hasManagers)) : Settled s.logRemoval := by
  have hempty : s.hasManagers = false → s.managers.elems = [] := by
    simp [MultiplexerBase.hasManagers]
  refine Or.inr ⟨fun r hmem hsd => ?_, ho, ?_⟩
  · rcases List.mem_append.mp hmem with hmem | hmem
    · exact hl r hmem hsd
    · obtain rfl := List.mem_singleton.mp hmem
      change s.shuttingDown = true at hsd
      change s.running = false ↔ (!s.hasManagers) = true
      rw [hr, hsd]
      cases s.hasManagers <;> simp
  · change s.running = true ∨ s.managers.elems = []
    rw [hr]
    cases hm : s.hasManagers
    · exact Or.inr (hempty hm)
    · exact Or.inl (by simp)

/-- What a removal in the loop of `shutdown` leaves is unlawful: the check of `del(iterator)` stops the
loop if managers are left, and only then. -/
theorem eraseIt_not_lawful {mgr : Manager} (hs : s.shuttingDown = true) (hr : s.running = true) :
    ¬ Lawful (s.eraseIt mgr).history := by
  intro hl
  have hmem : (⟨true, !(s.del mgr.handle).hasManagers, !(s.del mgr.handle).hasManagers⟩ : Removal) ∈
      (s.eraseIt mgr).history.removals := by
    refine List.mem_append_right _ (List.mem_singleton.mpr ?_)
    cases hm : (s.del mgr.handle).hasManagers <;>
      simp_all [MultiplexerBase.del, MultiplexerBase.hasManagers]
  have hiff := hl _ hmem rfl
  cases hm : (s.del mgr.handle).hasManagers
  · rw [hm] at hiff
    exact absurd (hiff.mpr rfl) (by decide)
  · rw [hm] at hiff
    exact absurd (hiff.mp rfl) (by decide)

theorem eraseIt_grows (s : MultiplexerBase δ) (mgr : Manager) :
    Grows s.history (s.eraseIt mgr).history := by
  unfold MultiplexerBase.eraseIt
  dsimp only
  split_ifs
  · exact logRemoval_grows { s.del mgr.handle with running := false }
  · exact logRemoval_grows (s.del mgr.handle)

/-! ### The loop of `shutdown` -/

/-- `disable(mgr, operation::read_accept, false)` cuts these interests of the manager, or it fails over
to a `shutdown` of an idle state. -/
def CutsReads (disable : Manager → MultiplexerBase δ → Except Fault (MultiplexerBase δ)) : Prop :=
  ∀ mgr s s', disable mgr s = .ok s' → Grows s.history s'.history ∧
    ((Cuts s s' ∧ s'.mask mgr &&& Operation.readAccept = Operation.none) ∨
      (s.Idle ∧ (s.running = true → Broken s'.history)))

/-- `del(it)` erases the manager after a calm call. -/
def Erases (del : Manager → MultiplexerBase δ → Except Fault (MultiplexerBase δ)) : Prop :=
  ∀ mgr s s', del mgr s = .ok s' → ∃ s₁, Calm s s₁ ∧ s' = s₁.eraseIt mgr

section Loop

variable {disable del : Manager → MultiplexerBase δ → Except Fault (MultiplexerBase δ)}
  {l : List Manager}

/-- The manager is one that `shutdown` removes at once. -/
def RemovedAtOnce (s : MultiplexerBase δ) (mgr : Manager) : Prop :=
  mgr ∈ s.managers.elems ∧ mgr.handle ≠ s.pipeReader ∧
    s.mask mgr &&& ~~~Operation.readAccept = Operation.none

theorem Cuts.removedAtOnce (h : Cuts s s') {mgr : Manager} (hm : RemovedAtOnce s mgr) :
    RemovedAtOnce s' mgr := by
  obtain ⟨hmem, hpipe, hmask⟩ := hm
  refine ⟨?_, ?_, ?_⟩
  · rw [h.managers]
    exact hmem
  · rw [h.pipeReader]
    exact hpipe
  · rw [h.keeps]
    exact hmask

/-- A mask within two complementary ones is empty. -/
theorem mask_eq_none {m op : Operation} (h : m &&& op = Operation.none)
    (h' : m &&& ~~~op = Operation.none) : m = Operation.none := by
  have hsplit : m = (m &&& op) ||| (m &&& ~~~op) := by
    ext i hi
    simp only [BitVec.getElem_or, BitVec.getElem_and, BitVec.getElem_not]
    cases m[i] <;> cases op[i] <;> rfl
  rw [hsplit, h, h']
  rfl

theorem shutdownLoop_grows (hdis : CutsReads disable) (hdel : Erases del)
    (h : MultiplexerBase.shutdownLoop disable del l s = .ok s') : Grows s.history s'.history := by
  induction l generalizing s with
  | nil =>
    obtain rfl := Except.ok.inj h
    exact Grows.refl _
  | cons mgr l ih =>
    unfold MultiplexerBase.shutdownLoop at h
    split_ifs at h with hvisit
    · obtain ⟨s₁, hs₁, h⟩ := bind_eq_ok.mp h
      have hg₁ := (hdis mgr s s₁ hs₁).1
      split_ifs at h with hgone hnone
      · obtain ⟨s₂, hs₂, h⟩ := bind_eq_ok.mp h
        obtain ⟨s₃, hc, rfl⟩ := hdel mgr s₁ s₂ hs₂
        exact (hg₁.trans (hc.grows.trans (eraseIt_grows s₃ mgr))).trans (ih h)
      · exact hg₁.trans (ih h)
    · exact ih h

/-- **The loop breaks the law** when it meets a manager that is removed at once. -/
theorem shutdownLoop_breaks (hdis : CutsReads disable) (hdel : Erases del)
    (h : MultiplexerBase.shutdownLoop disable del l s = .ok s') (hr : s.running = true)
    (hsd : s.shuttingDown = true) {mgr : Manager} (hl : mgr ∈ l) (hm : RemovedAtOnce s mgr) :
    ¬ Lawful s'.history := by
  induction l generalizing s with
  | nil => exact absurd hl List.not_mem_nil
  | cons m l ih =>
    unfold MultiplexerBase.shutdownLoop at h
    split_ifs at h with hvisit
    · obtain ⟨s₁, hs₁, h⟩ := bind_eq_ok.mp h
      split_ifs at h with hgone hnone
      · -- this manager is removed
        obtain ⟨s₂, hs₂, h⟩ := bind_eq_ok.mp h
        obtain ⟨s₃, hc, rfl⟩ := hdel m s₁ s₂ hs₂
        have hrest := shutdownLoop_grows hdis hdel h
        refine hrest.not_lawful ?_
        rcases (hdis m s s₁ hs₁).2 with ⟨hcut, -⟩ | ⟨-, hb⟩
        · rcases hc.cuts with hcut' | ⟨-, hb⟩
          · have hcut'' := hcut.trans hcut'
            exact eraseIt_not_lawful (hcut''.shuttingDown hsd) (hcut''.running.trans hr)
          · exact (eraseIt_grows s₃ m).not_lawful (hb (hcut.running.trans hr)).1
        · exact (hc.grows.trans (eraseIt_grows s₃ m)).not_lawful (hb hr).1
      · rcases (hdis m s s₁ hs₁).2 with ⟨hcut, hclear⟩ | ⟨-, hb⟩
        · have hm₁ := hcut.removedAtOnce hm
          refine ih h (hcut.running.trans hr) (hcut.shuttingDown hsd) ?_ hm₁
          refine (List.mem_cons.mp hl).resolve_left ?_
          rintro rfl
          exact hnone (mask_eq_none hclear hm₁.2.2)
        · exact (shutdownLoop_grows hdis hdel h).not_lawful (hb hr).1
    · refine ih h hr hsd ((List.mem_cons.mp hl).resolve_left ?_) hm
      rintro rfl
      exact hvisit ⟨hm.1, hm.2.1⟩

/-- **The loop removes nothing** from a state that is not idle. -/
theorem shutdownLoop_cuts (hdis : CutsReads disable)
    (h : MultiplexerBase.shutdownLoop disable del l s = .ok s') (hi : ¬ s.Idle) : Cuts s s' := by
  induction l generalizing s with
  | nil =>
    obtain rfl := Except.ok.inj h
    exact Cuts.refl s
  | cons mgr l ih =>
    unfold MultiplexerBase.shutdownLoop at h
    split_ifs at h with hvisit
    · obtain ⟨s₁, hs₁, h⟩ := bind_eq_ok.mp h
      obtain ⟨hcut, -⟩ := (hdis mgr s s₁ hs₁).2.resolve_right fun hc => hi hc.1
      have hi₁ : ¬ s₁.Idle := fun hi₁ => hi (hcut.idle_iff.mp hi₁)
      split_ifs at h with hgone hnone
      · refine absurd ⟨mgr, hvisit.1, hvisit.2, ?_⟩ hi
        rw [← hcut.keeps mgr, hnone]
        rfl
      · exact hcut.trans (ih h hi₁)
    · exact ih h hi

/-- **A `shutdown` of a running loop with an idle manager** breaks the law, and is recorded. -/
theorem shutdownWith_breaks (hdis : CutsReads disable) (hdel : Erases del)
    (h : s.shutdownWith disable del = .ok s') (hr : s.running = true) (hi : s.Idle) :
    Broken s'.history := by
  obtain ⟨s₁, hs₁, h⟩ := bind_eq_ok.mp h
  obtain rfl := Except.ok.inj h
  obtain ⟨mgr, hm⟩ := hi
  have hlaw := shutdownLoop_breaks hdis hdel hs₁ hr rfl hm.1 hm
  refine ⟨hlaw, fun ho => ?_⟩
  have hcall : (⟨true, true⟩ : ShutdownCall) ∈ s₁.history.shutdowns := by
    refine (shutdownLoop_grows hdis hdel hs₁).shutdowns (List.mem_append_right _ ?_)
    have hi : s.Idle := ⟨mgr, hm⟩
    simp [hr, hi]
  exact absurd (ho.1 _ hcall rfl) (by decide)

/-- **`shutdown` is calm.** -/
theorem shutdownWith_calm (hdis : CutsReads disable) (hdel : Erases del)
    (h : s.shutdownWith disable del = .ok s') : Calm s s' := by
  have hbreaks := shutdownWith_breaks hdis hdel h
  obtain ⟨s₁, hs₁, h⟩ := bind_eq_ok.mp h
  obtain rfl := Except.ok.inj h
  have hg := shutdownLoop_grows hdis hdel hs₁
  constructor
  · exact ⟨hg.removals, List.Subset.trans (List.subset_append_left _ _) hg.shutdowns, hg.bypasses⟩
  · by_cases hi : s.Idle
    · exact Or.inr ⟨hi, fun hr => hbreaks hr hi⟩
    · have hc := shutdownLoop_cuts hdis hs₁ hi
      refine Or.inl ⟨hc.managers, hc.running, hc.pipeReader, fun _ => hc.shuttingDown rfl, hc.keeps,
        hc.shrinks, hc.removals, hc.bypasses,
        List.Subset.trans (List.subset_append_left _ _) hc.shutdowns, fun c hcall => ?_⟩
      rcases hc.quiet c hcall with hcall | hcall
      · rcases List.mem_append.mp hcall with hcall | hcall
        · exact Or.inl hcall
        · rw [List.mem_singleton.mp hcall]
          exact Or.inr (decide_eq_false hi)
      · exact Or.inr hcall

end Loop

end NetworkDriver.Net.Multiplexer.Shutdown
