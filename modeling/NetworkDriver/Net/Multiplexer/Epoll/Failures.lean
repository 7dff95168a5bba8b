import NetworkDriver.Library.Bounded
import NetworkDriver.Net.Multiplexer.Epoll.Membership

/-! # Failures of `epoll_ctl`

A failure of `epoll_ctl` is a `shutdown`, which calls `epoll_ctl` again. The specification here has no
such recursion: `shutdown` is one pass over the managers (`Pollset.sweep`), in which a failure does not
matter if its manager stays, and has no result if its manager waits for nothing but reading and
accepting. It is about the part of the multiplexer that the calls of `epoll_ctl` depend on.

* `shutdown_gone`: a `shutdown` that returns leaves no manager that waits for nothing.
* `loop_sound`, `loop_complete`: the loop of `shutdown` returns exactly if the rest of the pass has a
  result, however often it is nested.
* `shutdown_refines`, `mod_refines`, `perform_refines`: so do the calls of the multiplexer. -/

namespace NetworkDriver.Net.Multiplexer.Epoll.Failures

open NetworkDriver.Library.Bounded NetworkDriver.Library.Keyed NetworkDriver.Library.Results
open NetworkDriver.Net.Types
open NetworkDriver.Net.Multiplexer.Base NetworkDriver.Net.Multiplexer.Epoll.Model
open NetworkDriver.Net.Multiplexer.Epoll.Membership

variable {κ : Type}

/-! ### The specification -/

/-- What the calls of `epoll_ctl` depend on. -/
structure Pollset (κ : Type) where
  managers : KeyedMap Manager.handle
  mask : Manager → Operation
  pipeReader : SocketId
  kernel : κ

def pollset (s : EpollMultiplexer κ) : Pollset κ := ⟨s.managers, s.mask, s.pipeReader, s.derived.kernel⟩

namespace Pollset

variable (ctl : EpollCtl κ)

def maskSet (p : Pollset κ) (mgr : Manager) (mask : Operation) : Pollset κ :=
  { p with mask := Function.update p.mask mgr mask }

def erase (p : Pollset κ) (handle : SocketId) : Pollset κ := { p with managers := p.managers.erase handle }

/-- A call of `epoll_ctl`: whether it succeeds. -/
def call (op : CtlOp) (fd : SocketId) (events : Operation) (p : Pollset κ) : Bool × Pollset κ :=
  let res := ctl p.kernel op fd (toEpollFlag events)
  (res.1, { p with kernel := res.2 })

/-- The manager stops waiting for reading and accepting: whether no call for that fails. -/
def cut (p : Pollset κ) (mgr : Manager) : Bool × Pollset κ :=
  match maskDel (p.mask mgr) Operation.readAccept with
  | none => (true, p)
  | some mask => (p.maskSet mgr mask).call ctl .mod mgr.handle mask

/-- A manager in the pass of `shutdown`. No call may fail for one that is removed. -/
def visit (p : Pollset κ) (mgr : Manager) : Option (Pollset κ) :=
  if mgr.handle = p.pipeReader then some p
  else
    let res := p.cut ctl mgr
    if res.2.mask mgr = Operation.none then
      let del := res.2.call ctl .del mgr.handle Operation.none
      if res.1 && del.1 then some (del.2.erase mgr.handle) else none
    else some res.2

/-- The pass of `shutdown`. -/
def sweep (p : Pollset κ) : Option (Pollset κ) := p.managers.elems.foldlM (visit ctl) p

/-- `mod`. -/
def mod (fd : SocketId) (op : CtlOp) (events : Operation) (p : Pollset κ) : Option (Pollset κ) :=
  let res := p.call ctl op fd events
  if res.1 then some res.2 else res.2.sweep ctl

/-- `enable`. -/
def enable (mgr : Manager) (op : Operation) (p : Pollset κ) : Option (Pollset κ) :=
  match maskAdd (p.mask mgr) op with
  | none => some p
  | some mask => (p.maskSet mgr mask).mod ctl mgr.handle .mod mask

/-- `del(socket)`. -/
def del (handle : SocketId) (p : Pollset κ) : Option (Pollset κ) :=
  (p.mod ctl handle .del Operation.none).bind fun p => some (p.erase handle)

/-- `disable`. With `remove`, the manager has to be there still. -/
def disable (mgr : Manager) (op : Operation) (remove : Bool) (p : Pollset κ) : Option (Pollset κ) :=
  match maskDel (p.mask mgr) op with
  | none => some p
  | some mask => ((p.maskSet mgr mask).mod ctl mgr.handle .mod mask).bind fun p =>
    if remove then
      if mgr ∈ p.managers.elems then
        if p.mask mgr = Operation.none then p.del ctl mgr.handle else some p
      else none
    else some p

/-- `register_reading` and `register_writing`. -/
def register (mgr : Manager) (op : Operation) (p : Pollset κ) : Option (Pollset κ) :=
  if p.mask mgr &&& op = Operation.none then p.enable ctl mgr op else some p

mutual

/-- One act of a handler. -/
def perform : Act → Pollset κ → Option (Pollset κ)
  | .registerReading mgr, p => p.register ctl mgr Operation.read
  | .registerWriting mgr, p => p.register ctl mgr Operation.write
  | .setTimeout _ _, p => some p
  | .add mgr initial init fails, p =>
    ((p.maskSet mgr initial).mod ctl mgr.handle .add initial).bind fun p =>
      (performAll init { p with managers := p.managers.emplace mgr }).bind fun p =>
        if fails then p.sweep ctl else some p
  | .shutdown, p => p.sweep ctl
  | .rehash order, p => some { p with managers := p.managers.rehash order }

/-- The acts of a handler, in order. -/
def performAll : List Act → Pollset κ → Option (Pollset κ)
  | [], p => some p
  | act :: acts, p => (perform act p).bind (performAll acts)

end

/-- The pass is through with the manager, and it stays. -/
def Settled (p : Pollset κ) (mgr : Manager) : Prop :=
  mgr.handle = p.pipeReader ∨
    (p.mask mgr &&& Operation.readAccept = Operation.none ∧ p.mask mgr ≠ Operation.none)

end Pollset

/-! ### What `shutdown` leaves -/

variable {ctl : EpollCtl κ} {s s' s'' : EpollMultiplexer κ} {mgr : Manager}

/-- A manager that waits for nothing goes on to, and the pipe reader is the same. -/
structure Rests (mgr : Manager) (s s' : EpollMultiplexer κ) : Prop where
  mask : s.mask mgr = Operation.none → s'.mask mgr = Operation.none
  pipeReader : s'.pipeReader = s.pipeReader

theorem Rests.refl : Rests mgr s s := ⟨id, rfl⟩

theorem Rests.trans (h : Rests mgr s s') (h' : Rests mgr s' s'') : Rests mgr s s'' :=
  ⟨h'.mask ∘ h.mask, h'.pipeReader.trans h.pipeReader⟩

theorem maskDel_none (op : Operation) : maskDel Operation.none op = none := by
  unfold maskDel
  rw [if_pos]
  exact BitVec.zero_and

section Rests

variable {onError : EpollMultiplexer κ → Except Fault (EpollMultiplexer κ)}
  (herror : ∀ s s', onError s = .ok s' → Rests mgr s s')

include herror

theorem mod_rests {fd : SocketId} {op : CtlOp} {events : Operation}
    (h : mod ctl onError fd op events s = .ok s') : Rests mgr s s' := by
  have hkernel : ∀ k, Rests mgr s { s with derived.kernel := k } := fun k => ⟨id, rfl⟩
  unfold mod at h
  dsimp only at h
  split_ifs at h
  · obtain rfl := Except.ok.inj h
    exact hkernel _
  · exact (hkernel _).trans (herror _ _ h)

theorem disable_rests {m : Manager} {op : Operation}
    (h : disable ctl onError m op false s = .ok s') : Rests mgr s s' := by
  unfold disable at h
  cases hd : maskDel (s.mask m) op with
  | none =>
    rw [hd] at h
    obtain rfl := Except.ok.inj h
    exact Rests.refl
  | some mask =>
    rw [hd] at h
    obtain ⟨s₁, hs₁, h⟩ := bind_eq_ok.mp h
    obtain rfl := Except.ok.inj h
    have hset : Rests mgr s (s.maskSet m mask) := by
      refine ⟨fun hnone => ?_, rfl⟩
      have hne : mgr ≠ m := by
        rintro rfl
        rw [hnone, maskDel_none] at hd
        cases hd
      rw [MultiplexerBase.maskSet_mask_of_ne s mask hne]
      exact hnone
    exact hset.trans (mod_rests herror hs₁)

theorem delIt_rests {m : Manager} (h : delIt ctl onError m s = .ok s') : Rests mgr s s' := by
  obtain ⟨s₁, hs₁, h⟩ := bind_eq_ok.mp h
  split_ifs at h
  obtain rfl := Except.ok.inj h
  refine (mod_rests herror hs₁).trans ⟨fun hnone => ?_, ?_⟩
  · rw [MultiplexerBase.eraseIt_mask]
    exact hnone
  · exact MultiplexerBase.eraseIt_pipeReader _ _

end Rests

/-- The loop of `shutdown`, whose calls may nest to `depth`. -/
def loop (ctl : EpollCtl κ) (depth : ℕ) :
    List Manager → EpollMultiplexer κ → Except Fault (EpollMultiplexer κ) :=
  MultiplexerBase.shutdownLoop
    (fun mgr => disable ctl (shutdown ctl depth) mgr Operation.readAccept false)
    (delIt ctl (shutdown ctl depth))

/-- The state in which the loop of `shutdown` starts. -/
def entered (s : EpollMultiplexer κ) : EpollMultiplexer κ := { s.logShutdown with shuttingDown := true }

theorem shutdown_succ_eq_ok {depth : ℕ} : shutdown ctl (depth + 1) s = .ok s' ↔
    ∃ s₁, loop ctl depth s.managers.elems (entered s) = .ok s₁ ∧
      { s₁ with pipeWriter := invalidSocketId } = s' := by
  refine bind_eq_ok.trans (exists_congr fun s₁ => and_congr_right fun _ => ?_)
  exact ⟨Except.ok.inj, congrArg Except.ok⟩

section Visit

variable {depth : ℕ} {l : List Manager}

theorem loop_absent (h : ¬(mgr ∈ s.managers.elems ∧ mgr.handle ≠ s.pipeReader)) :
    loop ctl depth (mgr :: l) s = loop ctl depth l s := if_neg h

/-- The loop goes on with a manager whose interest in reading and accepting was taken away. -/
def resume (ctl : EpollCtl κ) (depth : ℕ) (mgr : Manager) (l : List Manager) (s : EpollMultiplexer κ) :
    Except Fault (EpollMultiplexer κ) :=
  if mgr ∉ s.managers.elems then .error .dangling
  else if s.mask mgr = Operation.none then
    delIt ctl (shutdown ctl depth) mgr s >>= loop ctl depth l
  else loop ctl depth l s

theorem loop_visit (hm : mgr ∈ s.managers.elems) (hp : mgr.handle ≠ s.pipeReader) :
    loop ctl depth (mgr :: l) s =
      (disable ctl (shutdown ctl depth) mgr Operation.readAccept false s >>=
        resume ctl depth mgr l) := if_pos ⟨hm, hp⟩

theorem resume_stay (hm : mgr ∈ s.managers.elems) (hmask : s.mask mgr ≠ Operation.none) :
    resume ctl depth mgr l s = loop ctl depth l s := (if_neg (not_not.mpr hm)).trans (if_neg hmask)

theorem resume_gone (hm : mgr ∉ s.managers.elems) :
    resume ctl depth mgr l s = .error .dangling := if_pos hm

theorem resume_removed (hm : mgr ∈ s.managers.elems) (hmask : s.mask mgr = Operation.none) :
    resume ctl depth mgr l s = (delIt ctl (shutdown ctl depth) mgr s >>= loop ctl depth l) :=
  (if_neg (not_not.mpr hm)).trans (if_pos hmask)

end Visit

/-- The manager waits for nothing still when the loop is through. -/
theorem loop_rests {depth : ℕ} (herror : ∀ s s', shutdown ctl depth s = .ok s' → Rests mgr s s')
    {l : List Manager} (h : loop ctl depth l s = .ok s') : Rests mgr s s' := by
  induction l generalizing s with
  | nil =>
    obtain rfl := Except.ok.inj h
    exact Rests.refl
  | cons m l ih =>
    by_cases hm : m ∈ s.managers.elems ∧ m.handle ≠ s.pipeReader
    · rw [loop_visit hm.1 hm.2] at h
      obtain ⟨s₁, hs₁, h⟩ := bind_eq_ok.mp h
      have h₁ := disable_rests herror hs₁
      unfold resume at h
      split_ifs at h
      · obtain ⟨s₂, hs₂, h⟩ := bind_eq_ok.mp h
        exact (h₁.trans (delIt_rests herror hs₂)).trans (ih h)
      · exact h₁.trans (ih h)
    · rw [loop_absent hm] at h
      exact ih h

theorem shutdown_rests (depth : ℕ) (s s' : EpollMultiplexer κ)
    (h : shutdown ctl depth s = .ok s') : Rests mgr s s' := by
  induction depth generalizing s s' with
  | zero => cases h
  | succ depth ih =>
    obtain ⟨s₁, hs₁, rfl⟩ := shutdown_succ_eq_ok.mp h
    have hloop := loop_rests ih hs₁
    exact ⟨hloop.mask, hloop.pipeReader⟩

theorem loop_fewer {depth : ℕ} {l : List Manager} : Fewer (loop ctl depth l) :=
  shutdownLoop_fewer (fun m => disable_fewer (shutdown_fewer depth) m _ _)
    (fun m => delIt_fewer (shutdown_fewer depth) m) l

theorem delIt_gone {depth : ℕ} (h : delIt ctl (shutdown ctl depth) mgr s = .ok s') :
    mgr ∉ s'.managers.elems := by
  obtain ⟨s₁, hs₁, h⟩ := bind_eq_ok.mp h
  split_ifs at h
  obtain rfl := Except.ok.inj h
  rw [MultiplexerBase.eraseIt_managers, KeyedMap.mem_erase]
  exact fun hm => hm.2 rfl

theorem loop_gone {depth : ℕ} {l : List Manager} (h : loop ctl depth l s = .ok s') (hl : mgr ∈ l)
    (hmask : s.mask mgr = Operation.none) (hpipe : mgr.handle ≠ s.pipeReader) :
    mgr ∉ s'.managers.elems := by
  induction l generalizing s with
  | nil => cases hl
  | cons m l ih =>
    by_cases hm : m ∈ s.managers.elems ∧ m.handle ≠ s.pipeReader
    · rw [loop_visit hm.1 hm.2] at h
      obtain ⟨s₁, hs₁, h⟩ := bind_eq_ok.mp h
      have h₁ : Rests mgr s s₁ := disable_rests (shutdown_rests depth) hs₁
      unfold resume at h
      split_ifs at h with hgone hnone
      · obtain ⟨s₂, hs₂, hrest⟩ := bind_eq_ok.mp h
        rcases List.mem_cons.mp hl with rfl | hl
        · exact fun hmem => delIt_gone hs₂ (loop_fewer s₂ s' hrest _ hmem)
        · have h₂ := h₁.trans (delIt_rests (shutdown_rests depth) hs₂)
          exact ih hrest hl (h₂.mask hmask) (h₂.pipeReader ▸ hpipe)
      · refine ih h ((List.mem_cons.mp hl).resolve_left ?_) (h₁.mask hmask) (h₁.pipeReader ▸ hpipe)
        rintro rfl
        exact hnone (h₁.mask hmask)
    · rw [loop_absent hm] at h
      rcases List.mem_cons.mp hl with rfl | hl
      · exact fun hmem => hm ⟨loop_fewer s s' h _ hmem, hpipe⟩
      · exact ih h hl hmask hpipe

/-- **A manager that waits for nothing is gone after a `shutdown`**, unless it is the pipe reader. -/
theorem shutdown_gone {depth : ℕ} (h : shutdown ctl depth s = .ok s')
    (hmask : s.mask mgr = Operation.none) (hpipe : mgr.handle ≠ s.pipeReader) :
    mgr ∉ s'.managers.elems := by
  cases depth with
  | zero => cases h
  | succ depth =>
    intro hmem
    obtain ⟨s₁, hs₁, rfl⟩ := shutdown_succ_eq_ok.mp h
    have hl : mgr ∈ s.managers.elems := loop_fewer _ _ hs₁ mgr hmem
    exact loop_gone hs₁ hl hmask hpipe hmem

/-! ### The pass over the managers -/

theorem pollset_eraseIt (s : EpollMultiplexer κ) (mgr : Manager) :
    pollset (s.eraseIt mgr) = (pollset s).erase mgr.handle := by
  unfold pollset Pollset.erase
  rw [MultiplexerBase.eraseIt_managers, MultiplexerBase.eraseIt_mask,
    MultiplexerBase.eraseIt_pipeReader, MultiplexerBase.eraseIt_derived]

theorem pollset_erased (handle : SocketId) (s : EpollMultiplexer κ) :
    pollset (erased handle s) = (pollset s).erase handle := by
  unfold pollset Pollset.erase
  rw [erased_managers, erased_mask, erased_pipeReader, erased_derived]

variable (ctl) in
/-- `disable` as `shutdown` calls it. -/
theorem disable_cut (s : EpollMultiplexer κ) (mgr : Manager) :
    ∃ s₁, pollset s₁ = ((pollset s).cut ctl mgr).2 ∧ ∀ onError,
      disable ctl onError mgr Operation.readAccept false s =
        if ((pollset s).cut ctl mgr).1 then .ok s₁ else onError s₁ := by
  unfold disable Pollset.cut
  rw [show (pollset s).mask mgr = s.mask mgr from rfl]
  cases maskDel (s.mask mgr) Operation.readAccept with
  | none => exact ⟨s, rfl, fun _ => rfl⟩
  | some mask =>
    refine ⟨{ s.maskSet mgr mask with
      derived.kernel := (ctl s.derived.kernel .mod mgr.handle (toEpollFlag mask)).2 }, rfl, ?_⟩
    exact fun _ => bind_pure _

variable (ctl) in
/-- `del(iterator)`. -/
theorem delIt_call (s : EpollMultiplexer κ) (mgr : Manager) :
    ∃ s₁, pollset s₁ = ((pollset s).call ctl .del mgr.handle Operation.none).2 ∧ ∀ onError,
      delIt ctl onError mgr s =
        ((if ((pollset s).call ctl .del mgr.handle Operation.none).1 then .ok s₁ else onError s₁) >>=
          fun s => if mgr ∈ s.managers.elems then .ok (s.eraseIt mgr) else .error .dangling) :=
  ⟨{ s with derived.kernel := (ctl s.derived.kernel .del mgr.handle (toEpollFlag Operation.none)).2 },
    rfl, fun _ => rfl⟩

namespace Pollset

variable {p p' : Pollset κ}

theorem cut_managers (p : Pollset κ) (mgr : Manager) : (p.cut ctl mgr).2.managers = p.managers := by
  unfold cut
  cases maskDel (p.mask mgr) Operation.readAccept <;> rfl

theorem cut_pipeReader (p : Pollset κ) (mgr : Manager) :
    (p.cut ctl mgr).2.pipeReader = p.pipeReader := by
  unfold cut
  cases maskDel (p.mask mgr) Operation.readAccept <;> rfl

theorem cut_mask_of_ne (p : Pollset κ) {mgr m : Manager} (h : m ≠ mgr) :
    (p.cut ctl mgr).2.mask m = p.mask m := by
  unfold cut
  cases maskDel (p.mask mgr) Operation.readAccept with
  | none => rfl
  | some mask => exact Function.update_of_ne h ..

theorem cut_mask_self (p : Pollset κ) (mgr : Manager) :
    (p.cut ctl mgr).2.mask mgr &&& Operation.readAccept = Operation.none := by
  have hclear : ∀ m : Operation,
      m &&& ~~~Operation.readAccept &&& Operation.readAccept = Operation.none := by decide +kernel
  unfold cut
  cases hd : maskDel (p.mask mgr) Operation.readAccept with
  | none => exact and_of_maskDel_none hd
  | some mask =>
    dsimp only [call, maskSet]
    rw [Function.update_self, mask_of_maskDel_some hd]
    exact hclear _

theorem Settled.congr {mgr : Manager} (h : p.Settled mgr) (hmask : p'.mask mgr = p.mask mgr)
    (hpipe : p'.pipeReader = p.pipeReader) : p'.Settled mgr := by
  unfold Settled
  rw [hmask, hpipe]
  exact h

/-- The pass is through with the managers in `done`, and goes on with those in `rest`. -/
structure Pass (done rest : List Manager) (p : Pollset κ) : Prop where
  elems : p.managers.elems = done ++ rest
  settled : ∀ mgr ∈ done, p.Settled mgr

variable {done rest : List Manager} {mgr : Manager}

theorem Pass.mem (h : Pass done (mgr :: rest) p) : mgr ∈ p.managers.elems := by
  rw [h.elems]
  exact List.mem_append_right _ List.mem_cons_self

theorem Pass.ne (h : Pass done (mgr :: rest) p) : (∀ m ∈ done, m.handle ≠ mgr.handle) ∧
    ∀ m ∈ rest, m.handle ≠ mgr.handle := by
  have hn := p.managers.nodup
  rw [h.elems, List.map_append, List.map_cons] at hn
  obtain ⟨-, hcons, hdisjoint⟩ := List.nodup_append.mp hn
  refine ⟨fun m hm => hdisjoint _ (List.mem_map_of_mem hm) _ List.mem_cons_self, fun m hm he => ?_⟩
  exact (List.nodup_cons.mp hcons).1 (he ▸ List.mem_map_of_mem hm)

theorem Pass.all (h : Pass done [] p) {m : Manager} (hm : m ∈ p.managers.elems) : p.Settled m := by
  rw [h.elems, List.append_nil] at hm
  exact h.settled m hm

/-- The manager stays. -/
theorem Pass.keep (h : Pass done (mgr :: rest) p) (hman : p'.managers = p.managers)
    (hmask : ∀ m, m ≠ mgr → p'.mask m = p.mask m) (hpipe : p'.pipeReader = p.pipeReader)
    (hsettled : p'.Settled mgr) : Pass (done ++ [mgr]) rest p' := by
  refine ⟨by rw [hman, h.elems, List.append_cons], fun m hm => ?_⟩
  rcases List.mem_append.mp hm with hm | hm
  · have hne : m ≠ mgr := fun he => h.ne.1 m hm (congrArg Manager.handle he)
    exact (h.settled m hm).congr (hmask m hne) hpipe
  · rw [List.mem_singleton.mp hm]
    exact hsettled

/-- The manager is removed. -/
theorem Pass.drop (h : Pass done (mgr :: rest) p) (hman : p'.managers = p.managers.erase mgr.handle)
    (hmask : ∀ m, m ≠ mgr → p'.mask m = p.mask m) (hpipe : p'.pipeReader = p.pipeReader) :
    Pass done rest p' := by
  obtain ⟨hdone, hrest⟩ := h.ne
  refine ⟨?_, fun m hm => ?_⟩
  · have hd : done.filter (fun m => decide (m.handle ≠ mgr.handle)) = done :=
      List.filter_eq_self.mpr fun m hm => decide_eq_true (hdone m hm)
    have hr : rest.filter (fun m => decide (m.handle ≠ mgr.handle)) = rest :=
      List.filter_eq_self.mpr fun m hm => decide_eq_true (hrest m hm)
    rw [hman]
    unfold KeyedMap.erase
    dsimp only
    rw [h.elems, List.filter_append, hd, List.filter_cons_of_neg (by simp), hr]
  · have hne : m ≠ mgr := fun he => hdone m hm (congrArg Manager.handle he)
    exact (h.settled m hm).congr (hmask m hne) hpipe

/-- A visit that leaves the manager, after it no longer waits for reading and accepting. -/
theorem Pass.kept (h : Pass done (mgr :: rest) p)
    (hmask : (p.cut ctl mgr).2.mask mgr ≠ Operation.none) :
    Pass (done ++ [mgr]) rest (p.cut ctl mgr).2 :=
  h.keep (cut_managers p mgr) (fun _ hne => cut_mask_of_ne p hne) (cut_pipeReader p mgr)
    (Or.inr ⟨cut_mask_self p mgr, hmask⟩)

/-- A visit that removes it. -/
theorem Pass.removed (h : Pass done (mgr :: rest) p) :
    Pass done rest (((p.cut ctl mgr).2.call ctl .del mgr.handle Operation.none).2.erase mgr.handle) :=
  h.drop (congrArg (KeyedMap.erase · mgr.handle) (cut_managers p mgr))
    (fun _ hne => cut_mask_of_ne p hne) (cut_pipeReader p mgr)

theorem visit_pipeReader (h : mgr.handle = p.pipeReader) : p.visit ctl mgr = some p := if_pos h

theorem visit_keep (h : mgr.handle ≠ p.pipeReader)
    (hmask : (p.cut ctl mgr).2.mask mgr ≠ Operation.none) :
    p.visit ctl mgr = some (p.cut ctl mgr).2 := (if_neg h).trans (if_neg hmask)

theorem visit_drop (h : mgr.handle ≠ p.pipeReader)
    (hmask : (p.cut ctl mgr).2.mask mgr = Operation.none) :
    p.visit ctl mgr =
      if (p.cut ctl mgr).1 && ((p.cut ctl mgr).2.call ctl .del mgr.handle Operation.none).1 then
        some (((p.cut ctl mgr).2.call ctl .del mgr.handle Operation.none).2.erase mgr.handle)
      else none := (if_neg h).trans (if_pos hmask)

/-- One visit of the pass. -/
theorem Pass.visited (h : Pass done (mgr :: rest) p) (hv : p.visit ctl mgr = some p') :
    ∃ kept, Pass (done ++ kept) rest p' := by
  by_cases hpipe : mgr.handle = p.pipeReader
  · rw [visit_pipeReader hpipe] at hv
    obtain rfl := Option.some.inj hv
    exact ⟨[mgr], h.keep rfl (fun _ _ => rfl) rfl (Or.inl hpipe)⟩
  · by_cases hmask : (p.cut ctl mgr).2.mask mgr = Operation.none
    · rw [visit_drop hpipe hmask] at hv
      split_ifs at hv
      obtain rfl := Option.some.inj hv
      exact ⟨[], by rw [List.append_nil]; exact h.removed⟩
    · rw [visit_keep hpipe hmask] at hv
      obtain rfl := Option.some.inj hv
      exact ⟨[mgr], h.kept hmask⟩

/-- **What the pass leaves**: those it was through with, and others that it is through with then. -/
theorem Pass.swept (h : Pass done rest p) (hs : rest.foldlM (visit ctl) p = some p') :
    ∃ kept, Pass (done ++ kept) [] p' := by
  induction rest generalizing done p with
  | nil =>
    obtain rfl := Option.some.inj hs
    exact ⟨[], by rw [List.append_nil]; exact h⟩
  | cons mgr rest ih =>
    rw [List.foldlM_cons] at hs
    obtain ⟨p₁, hv, hs⟩ := Option.bind_eq_some_iff.mp hs
    obtain ⟨kept, h₁⟩ := h.visited hv
    obtain ⟨kept', h₂⟩ := ih h₁ hs
    exact ⟨kept ++ kept', by rw [← List.append_assoc]; exact h₂⟩

end Pollset

/-! ### The loop of `shutdown` -/

section Loop

variable {depth : ℕ} {done l : List Manager}

/-- A manager that the pass is through with is skipped. -/
theorem loop_skip (h : (pollset s).Settled mgr) : loop ctl depth (mgr :: l) s = loop ctl depth l s := by
  by_cases hvisit : mgr ∈ s.managers.elems ∧ mgr.handle ≠ s.pipeReader
  · obtain ⟨hread, hmask⟩ := h.resolve_left hvisit.2
    have hdis : disable ctl (shutdown ctl depth) mgr Operation.readAccept false s = .ok s := by
      have hnone : maskDel (s.mask mgr) Operation.readAccept = none := if_pos hread
      unfold disable
      rw [hnone]
    rw [loop_visit hvisit.1 hvisit.2, hdis]
    exact resume_stay hvisit.1 hmask
  · exact loop_absent hvisit

theorem loop_skips (h : ∀ m ∈ done, (pollset s).Settled m) :
    loop ctl depth (done ++ l) s = loop ctl depth l s := by
  induction done with
  | nil => rfl
  | cons m done ih =>
    obtain ⟨hm, hdone⟩ := List.forall_mem_cons.mp h
    rw [List.cons_append, loop_skip hm, ih hdone]

/-- So is one that is not there. -/
theorem loop_through (h : ∀ m ∈ s.managers.elems, (pollset s).Settled m) :
    loop ctl depth l s = .ok s := by
  induction l with
  | nil => rfl
  | cons m l ih =>
    by_cases hm : m ∈ s.managers.elems
    · rw [loop_skip (h m hm), ih]
    · rw [loop_absent (fun hvisit => hm hvisit.1), ih]

/-- The nested `shutdown` after a failure for a manager that stays: it makes the rest of the pass. -/
theorem loop_nested (h : Pollset.Pass done l (pollset s)) :
    loop ctl depth s.managers.elems (entered s) = loop ctl depth l (entered s) := by
  rw [show s.managers.elems = done ++ l from h.elems]
  exact loop_skips (s := entered s) h.settled

/-- One visit, after the call of the polling layer for it. -/
theorem loop_cut (ctl : EpollCtl κ) (hm : mgr ∈ s.managers.elems) (hp : mgr.handle ≠ s.pipeReader) :
    ∃ t, pollset t = ((pollset s).cut ctl mgr).2 ∧ mgr ∈ t.managers.elems ∧
      t.pipeReader = s.pipeReader ∧ ∀ depth, loop ctl depth (mgr :: l) s =
        (if ((pollset s).cut ctl mgr).1 then .ok t else shutdown ctl depth t) >>=
          resume ctl depth mgr l := by
  obtain ⟨t, ht, hdis⟩ := disable_cut ctl s mgr
  have hman : t.managers = s.managers :=
    (congrArg Pollset.managers ht).trans (Pollset.cut_managers _ _)
  refine ⟨t, ht, ?_, (congrArg Pollset.pipeReader ht).trans (Pollset.cut_pipeReader _ _), fun depth => ?_⟩
  · rw [hman]
    exact hm
  · rw [loop_visit hm hp, hdis]

/-- **A visit that returns** removed the manager or left it, without a failure, or there was a failure
for a manager that stays, which a nested `shutdown` handled. -/
theorem loop_cases (hm : mgr ∈ s.managers.elems) (hp : mgr.handle ≠ s.pipeReader)
    (hok : loop ctl depth (mgr :: l) s = .ok s') :
    (((pollset s).cut ctl mgr).2.mask mgr = Operation.none ∧ ((pollset s).cut ctl mgr).1 = true ∧
      (((pollset s).cut ctl mgr).2.call ctl .del mgr.handle Operation.none).1 = true ∧
      ∃ t, loop ctl depth l t = .ok s' ∧ pollset t =
        (((pollset s).cut ctl mgr).2.call ctl .del mgr.handle Operation.none).2.erase mgr.handle) ∨
    (((pollset s).cut ctl mgr).2.mask mgr ≠ Operation.none ∧
      ∃ t, pollset t = ((pollset s).cut ctl mgr).2 ∧
        (loop ctl depth l t = .ok s' ∨
          ∃ s₁, shutdown ctl depth t = .ok s₁ ∧ resume ctl depth mgr l s₁ = .ok s')) := by
  obtain ⟨t, ht, hmem, hpipe, hloop⟩ := loop_cut (l := l) ctl hm hp
  rw [hloop] at hok
  obtain ⟨s₁, hs₁, hok⟩ := bind_eq_ok.mp hok
  rw [← ht]
  by_cases hnone : t.mask mgr = Operation.none
  · -- the manager is to be removed: after a failure it is gone, and its reference dangles
    refine Or.inl ⟨hnone, ?_⟩
    split_ifs at hs₁ with hcut
    · obtain rfl := Except.ok.inj hs₁
      rw [resume_removed hmem hnone] at hok
      obtain ⟨s₂, hs₂, hok⟩ := bind_eq_ok.mp hok
      obtain ⟨t₂, ht₂, hdel⟩ := delIt_call ctl t mgr
      rw [hdel] at hs₂
      obtain ⟨s₃, hs₃, hs₂⟩ := bind_eq_ok.mp hs₂
      split_ifs at hs₃ with hcall
      · obtain rfl := Except.ok.inj hs₃
        split_ifs at hs₂
        obtain rfl := Except.ok.inj hs₂
        exact ⟨hcut, hcall, t₂.eraseIt mgr, hok, by rw [pollset_eraseIt, ht₂]⟩
      · have hpipe₂ : t₂.pipeReader = t.pipeReader := congrArg Pollset.pipeReader ht₂
        have hmask₂ : t₂.mask mgr = t.mask mgr := congrArg (Pollset.mask · mgr) ht₂
        have hgone := shutdown_gone hs₃ (hmask₂.trans hnone) (by rw [hpipe₂, hpipe]; exact hp)
        rw [if_neg hgone] at hs₂
        cases hs₂
    · rw [resume_gone (shutdown_gone hs₁ hnone (by rw [hpipe]; exact hp))] at hok
      cases hok
  · refine Or.inr ⟨hnone, t, rfl, ?_⟩
    split_ifs at hs₁ with hcut
    · obtain rfl := Except.ok.inj hs₁
      rw [resume_stay hmem hnone] at hok
      exact Or.inl hok
    · exact Or.inr ⟨s₁, hs₁, hok⟩

/-- A visit that removes the manager without a failure. -/
theorem loop_removed (hm : mgr ∈ s.managers.elems) (hp : mgr.handle ≠ s.pipeReader)
    (hmask : ((pollset s).cut ctl mgr).2.mask mgr = Operation.none)
    (hcut : ((pollset s).cut ctl mgr).1 = true)
    (hcall : (((pollset s).cut ctl mgr).2.call ctl .del mgr.handle Operation.none).1 = true) :
    ∃ t, pollset t =
        (((pollset s).cut ctl mgr).2.call ctl .del mgr.handle Operation.none).2.erase mgr.handle ∧
      ∀ depth, loop ctl depth (mgr :: l) s = loop ctl depth l t := by
  obtain ⟨t, ht, hmem, -, hloop⟩ := loop_cut (l := l) ctl hm hp
  obtain ⟨t₂, ht₂, hdel⟩ := delIt_call ctl t mgr
  rw [← ht] at hmask hcall
  have hmem₂ : mgr ∈ t₂.managers.elems := by
    rw [show t₂.managers = t.managers from congrArg Pollset.managers ht₂]
    exact hmem
  refine ⟨t₂.eraseIt mgr, by rw [pollset_eraseIt, ht₂, ht], fun depth => ?_⟩
  rw [hloop, if_pos hcut]
  refine (resume_removed hmem hmask).trans ?_
  rw [hdel, if_pos hcall]
  exact congrArg (· >>= loop ctl depth l) (if_pos hmem₂)

/-- The loop has nothing to do after a nested `shutdown`. -/
theorem resume_nested (hm : mgr ∈ s.managers.elems) (hp : mgr.handle ≠ s.pipeReader)
    (h : ∀ m ∈ s.managers.elems, (pollset s).Settled m) : resume ctl depth mgr l s = .ok s := by
  rw [resume_stay hm ((h mgr hm).resolve_left hp).2]
  exact loop_through h

/-- A nested call has made the rest of the pass, and leaves nothing to do. -/
theorem resume_swept {t : EpollMultiplexer κ} (h : Pollset.Pass (done ++ [mgr]) l (pollset t))
    (hrest : l.foldlM (Pollset.visit ctl) (pollset t) = some (pollset s))
    (hp : mgr.handle ≠ s.pipeReader) :
    resume ctl depth mgr l { s with pipeWriter := invalidSocketId } =
      .ok { s with pipeWriter := invalidSocketId } := by
  obtain ⟨kept, hend⟩ := h.swept hrest
  have hmem : mgr ∈ s.managers.elems := by
    rw [show s.managers.elems = _ from hend.elems]
    simp
  exact resume_nested (s := { s with pipeWriter := invalidSocketId }) hmem hp fun m hm => hend.all hm

/-- **Soundness**: if the loop returns, the rest of the pass has a result. -/
theorem loop_sound (h : Pollset.Pass done l (pollset s)) (hok : loop ctl depth l s = .ok s') :
    l.foldlM (Pollset.visit ctl) (pollset s) = some (pollset s') := by
  induction l generalizing depth done s s' with
  | nil =>
    obtain rfl := Except.ok.inj hok
    rfl
  | cons mgr l ih =>
    rw [List.foldlM_cons]
    by_cases hpipe : mgr.handle = s.pipeReader
    · have hkeep := h.keep rfl (fun _ _ => rfl) rfl (Or.inl hpipe)
      rw [loop_skip (Or.inl hpipe)] at hok
      rw [Pollset.visit_pipeReader hpipe]
      exact ih hkeep hok
    · rcases loop_cases h.mem hpipe hok with ⟨hmask, hcut, hcall, t, hok, ht⟩ | ⟨hmask, t, ht, hok⟩
      · rw [Pollset.visit_drop hpipe hmask, if_pos (by rw [hcut, hcall]; rfl), ← ht]
        exact ih (ht ▸ h.removed) hok
      · have hkept : Pollset.Pass (done ++ [mgr]) l (pollset t) := ht ▸ h.kept hmask
        rw [Pollset.visit_keep hpipe hmask, ← ht]
        rcases hok with hok | ⟨s₁, hs₁, hok⟩
        · exact ih hkept hok
        · have hrests : Rests mgr t s₁ := shutdown_rests _ _ _ hs₁
          have hpipe₁ : s₁.pipeReader = s.pipeReader :=
            hrests.pipeReader.trans
              ((congrArg Pollset.pipeReader ht).trans (Pollset.cut_pipeReader _ _))
          cases depth with
          | zero => cases hs₁
          | succ depth =>
            obtain ⟨s₂, hs₂, rfl⟩ := shutdown_succ_eq_ok.mp hs₁
            rw [loop_nested hkept] at hs₂
            have hrest := ih (s := entered t) hkept hs₂
            have hpipe₂ : mgr.handle ≠ s₂.pipeReader := fun heq => hpipe (heq.trans hpipe₁)
            rw [resume_swept hkept hrest hpipe₂] at hok
            obtain rfl := Except.ok.inj hok
            exact hrest

/-- **Completeness**: if the rest of the pass has a result, the loop returns, nested at most once for
each manager that is left. -/
theorem loop_complete (h : Pollset.Pass done l (pollset s)) {p : Pollset κ}
    (hp : l.foldlM (Pollset.visit ctl) (pollset s) = some p) :
    ∃ s', ∀ depth ≥ l.length, loop ctl depth l s = .ok s' := by
  induction l generalizing done s p with
  | nil => exact ⟨s, fun _ _ => rfl⟩
  | cons mgr l ih =>
    rw [List.foldlM_cons] at hp
    obtain ⟨p₁, hv, hp⟩ := Option.bind_eq_some_iff.mp hp
    have hle : ∀ depth ≥ (mgr :: l).length, depth ≥ l.length := fun depth hd =>
      (Nat.le_succ _).trans hd
    by_cases hpipe : mgr.handle = s.pipeReader
    · have hkeep := h.keep rfl (fun _ _ => rfl) rfl (Or.inl hpipe)
      rw [Pollset.visit_pipeReader hpipe] at hv
      obtain rfl := Option.some.inj hv
      obtain ⟨s', hs'⟩ := ih hkeep hp
      exact ⟨s', fun depth hd => (loop_skip (Or.inl hpipe)).trans (hs' depth (hle depth hd))⟩
    by_cases hmask : ((pollset s).cut ctl mgr).2.mask mgr = Operation.none
    · rw [Pollset.visit_drop hpipe hmask] at hv
      split_ifs at hv with hok
      obtain ⟨hcut, hcall⟩ := Bool.and_eq_true_iff.mp hok
      obtain ⟨t, ht, hloop⟩ := loop_removed (l := l) h.mem hpipe hmask hcut hcall
      rw [← Option.some.inj hv, ← ht] at hp
      obtain ⟨s', hs'⟩ := ih (ht ▸ h.removed) hp
      exact ⟨s', fun depth hd => (hloop depth).trans (hs' depth (hle depth hd))⟩
    · rw [Pollset.visit_keep hpipe hmask] at hv
      obtain ⟨t, ht, hmem, hpipe₁, hloop⟩ := loop_cut (l := l) ctl h.mem hpipe
      have hkept : Pollset.Pass (done ++ [mgr]) l (pollset t) := ht ▸ h.kept hmask
      rw [← Option.some.inj hv, ← ht] at hp
      rw [← ht] at hmask
      by_cases hcut : ((pollset s).cut ctl mgr).1 = true
      · obtain ⟨s', hs'⟩ := ih hkept hp
        refine ⟨s', fun depth hd => ?_⟩
        rw [hloop, if_pos hcut]
        exact (resume_stay hmem hmask).trans (hs' depth (hle depth hd))
      · -- the rest of the pass is made by a nested call
        obtain ⟨s₂, hs₂⟩ := ih (s := entered t) hkept hp
        refine ⟨{ s₂ with pipeWriter := invalidSocketId }, fun depth hd => ?_⟩
        have hrest := loop_sound (s := entered t) hkept (hs₂ _ le_rfl)
        have hrests : Rests mgr (entered t) s₂ := loop_rests (shutdown_rests l.length) (hs₂ _ le_rfl)
        have hpipe₂ : mgr.handle ≠ s₂.pipeReader := fun heq =>
          hpipe (heq.trans (hrests.pipeReader.trans hpipe₁))
        obtain ⟨depth, rfl⟩ := Nat.exists_eq_add_of_le' (le_trans (Nat.le_add_left 1 l.length) hd)
        have hnested : shutdown ctl (depth + 1) t = .ok { s₂ with pipeWriter := invalidSocketId } :=
          shutdown_succ_eq_ok.mpr
            ⟨s₂, (loop_nested hkept).trans (hs₂ depth (Nat.le_of_succ_le_succ hd)), rfl⟩
        rw [hloop, if_neg hcut, hnested]
        exact resume_swept hkept hrest hpipe₂

end Loop

/-! ### The calls of the multiplexer -/

/-- **`shutdown` refines the pass over the managers.** -/
theorem shutdown_refines (ctl : EpollCtl κ) (s : EpollMultiplexer κ) :
    Refines pollset (shutdown ctl · s) ((pollset s).sweep ctl) := by
  have hpass : Pollset.Pass [] s.managers.elems (pollset (entered s)) :=
    ⟨rfl, fun m hm => absurd hm List.not_mem_nil⟩
  constructor
  · intro depth s' h
    cases depth with
    | zero => cases h
    | succ depth =>
      obtain ⟨s₁, hs₁, rfl⟩ := shutdown_succ_eq_ok.mp h
      have hsound := loop_sound hpass hs₁
      exact hsound
  · intro p hp
    obtain ⟨s₁, hs₁⟩ := loop_complete (s := entered s) hpass hp
    refine ⟨{ s₁ with pipeWriter := invalidSocketId }, s.managers.elems.length + 1, fun depth hd => ?_⟩
    obtain ⟨depth, rfl⟩ := Nat.exists_eq_add_of_le' (le_trans (Nat.le_add_left 1 _) hd)
    exact shutdown_succ_eq_ok.mpr ⟨s₁, hs₁ depth (Nat.le_of_succ_le_succ hd), rfl⟩

section Calls

variable (ctl : EpollCtl κ)

theorem mod_refines (fd : SocketId) (op : CtlOp) (events : Operation) (s : EpollMultiplexer κ) :
    Refines pollset (fun depth => mod ctl (shutdown ctl depth) fd op events s)
      ((pollset s).mod ctl fd op events) := by
  unfold mod Pollset.mod
  change Refines pollset (fun depth =>
    if (ctl s.derived.kernel op fd (toEpollFlag events)).1 then .ok _ else _)
    (if (ctl s.derived.kernel op fd (toEpollFlag events)).1 then _ else _)
  split_ifs
  · exact Refines.ok _
  · exact shutdown_refines ctl _

theorem enable_refines (mgr : Manager) (op : Operation) (s : EpollMultiplexer κ) :
    Refines pollset (fun depth => enable ctl (shutdown ctl depth) mgr op s)
      ((pollset s).enable ctl mgr op) := by
  unfold enable Pollset.enable
  rw [show (pollset s).mask mgr = s.mask mgr from rfl]
  cases maskAdd (s.mask mgr) op with
  | none => exact Refines.ok s
  | some mask => exact mod_refines ctl mgr.handle .mod mask (s.maskSet mgr mask)

theorem register_refines (mgr : Manager) (op : Operation) (s : EpollMultiplexer κ) :
    Refines pollset (fun depth => register ctl (shutdown ctl depth) mgr op s)
      ((pollset s).register ctl mgr op) := by
  unfold register Pollset.register
  rw [show (pollset s).mask mgr = s.mask mgr from rfl]
  split_ifs
  · exact enable_refines ctl mgr op s
  · exact Refines.ok s

theorem del_refines (handle : SocketId) (s : EpollMultiplexer κ) :
    Refines pollset (fun depth => del ctl (shutdown ctl depth) handle s)
      ((pollset s).del ctl handle) := by
  refine Refines.bind (mod_refines ctl handle .del Operation.none s) fun s₁ => ?_
  rw [← pollset_erased]
  exact Refines.ok _

theorem disable_refines (mgr : Manager) (op : Operation) (remove : Bool) (s : EpollMultiplexer κ) :
    Refines pollset (fun depth => disable ctl (shutdown ctl depth) mgr op remove s)
      ((pollset s).disable ctl mgr op remove) := by
  unfold disable Pollset.disable
  rw [show (pollset s).mask mgr = s.mask mgr from rfl]
  cases maskDel (s.mask mgr) op with
  | none => exact Refines.ok s
  | some mask =>
    refine Refines.bind (mod_refines ctl mgr.handle .mod mask (s.maskSet mgr mask)) fun s₁ => ?_
    rw [show (pollset s₁).mask mgr = s₁.mask mgr from rfl,
      show (pollset s₁).managers = s₁.managers from rfl]
    split_ifs
    · exact del_refines ctl mgr.handle s₁
    · exact Refines.ok s₁
    · exact Refines.error Fault.dangling
    · exact Refines.ok s₁

mutual

/-- One act of a handler, by recursion on the acts of the `init` of a new manager. -/
theorem perform_refines (act : Act) (s : EpollMultiplexer κ) :
    Refines pollset (fun depth => perform ctl depth act s) ((pollset s).perform ctl act) := by
  cases act with
  | registerReading mgr => exact register_refines ctl mgr Operation.read s
  | registerWriting mgr => exact register_refines ctl mgr Operation.write s
  | setTimeout mgr when => exact Refines.ok (s.setTimeout mgr when).2
  | add mgr initial init fails =>
    refine Refines.bind (mod_refines ctl mgr.handle .add initial (s.maskSet mgr initial)) fun s₁ => ?_
    have hinit : ∀ depth, ((performAll ctl depth init (s₁.add mgr)).map fun s => (!fails, s)) >>=
        (fun x => if x.1 then .ok x.2 else shutdown ctl depth x.2) =
          performAll ctl depth init (s₁.add mgr) >>=
            fun s => if fails then shutdown ctl depth s else .ok s := by
      intro depth
      cases performAll ctl depth init (s₁.add mgr) <;> cases fails <;> rfl
    refine Eq.mp (congrArg (Refines pollset · _) (funext fun depth => (hinit depth).symm)) ?_
    refine Refines.bind (performAll_refines init (s₁.add mgr)) fun s₂ => ?_
    cases fails with
    | false => exact Refines.ok s₂
    | true => exact shutdown_refines ctl s₂
  | shutdown => exact shutdown_refines ctl s
  | rehash order => exact Refines.ok _

/-- The acts of a handler. -/
theorem performAll_refines (acts : List Act) (s : EpollMultiplexer κ) :
    Refines pollset (fun depth => performAll ctl depth acts s) ((pollset s).performAll ctl acts) := by
  cases acts with
  | nil => exact Refines.ok s
  | cons act acts =>
    exact Refines.bind (perform_refines act s) fun s₁ => performAll_refines acts s₁

end

end Calls

end NetworkDriver.Net.Multiplexer.Epoll.Failures
