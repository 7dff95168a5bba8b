import NetworkDriver.Net.Multiplexer.Epoll.Model

/-! # Who is registered

Only `add` makes a manager registered: everything else that `epoll_multiplexer` does leaves managers or
removes them, whatever `epoll_ctl` answers.

* `shutdown_fewer`, `handleResult_fewer`: so do `shutdown` and the handling of a verdict.
* `performAll_absent`: a manager that is not registered is registered by no act but its `add`.
* `handleResult_error`: the verdict `error` removes the manager. -/

namespace NetworkDriver.Net.Multiplexer.Epoll.Membership

open NetworkDriver.Library.Keyed NetworkDriver.Library.Results NetworkDriver.Net.Types
open NetworkDriver.Net.Multiplexer.Base NetworkDriver.Net.Multiplexer.Epoll.Model

/-- The call registers no manager. -/
def Fewer {δ : Type} (f : MultiplexerBase δ → Except Fault (MultiplexerBase δ)) : Prop :=
  ∀ s s', f s = .ok s' → ∀ m ∈ s'.managers.elems, m ∈ s.managers.elems

/-! ### `shutdown` -/

section Base

variable {δ : Type} {disable del : Manager → MultiplexerBase δ → Except Fault (MultiplexerBase δ)}

theorem shutdownLoop_fewer (hdis : ∀ mgr, Fewer (disable mgr)) (hdel : ∀ mgr, Fewer (del mgr))
    (l : List Manager) : Fewer (MultiplexerBase.shutdownLoop disable del l) := by
  induction l with
  | nil =>
    intro s s' h m hm
    obtain rfl := Except.ok.inj h
    exact hm
  | cons mgr l ih =>
    intro s s' h m hm
    unfold MultiplexerBase.shutdownLoop at h
    by_cases hvisit : mgr ∈ s.managers.elems ∧ mgr.handle ≠ s.pipeReader
    · rw [if_pos hvisit] at h
      obtain ⟨s₁, hs₁, h⟩ := bind_eq_ok.mp h
      refine hdis mgr s s₁ hs₁ m ?_
      split_ifs at h
      · obtain ⟨s₂, hs₂, h⟩ := bind_eq_ok.mp h
        exact hdel mgr s₁ s₂ hs₂ m (ih s₂ s' h m hm)
      · exact ih s₁ s' h m hm
    · rw [if_neg hvisit] at h
      exact ih s s' h m hm

theorem shutdownWith_fewer (hdis : ∀ mgr, Fewer (disable mgr)) (hdel : ∀ mgr, Fewer (del mgr)) :
    Fewer fun s => s.shutdownWith disable del := by
  intro s s' h m hm
  obtain ⟨s₁, hs₁, h⟩ := bind_eq_ok.mp h
  obtain rfl := Except.ok.inj h
  exact shutdownLoop_fewer hdis hdel _ _ s₁ hs₁ m hm

end Base

/-! ### The interface functions -/

variable {κ : Type} {ctl : EpollCtl κ}

section Interface

variable {onError : EpollMultiplexer κ → Except Fault (EpollMultiplexer κ)} (herror : Fewer onError)

include herror

theorem mod_fewer (fd : SocketId) (op : CtlOp) (events : Operation) :
    Fewer (mod ctl onError fd op events) := by
  intro s s' h m hm
  unfold mod at h
  dsimp only at h
  split_ifs at h
  · obtain rfl := Except.ok.inj h
    exact hm
  · exact herror _ s' h m hm

theorem register_fewer (mgr : Manager) (op : Operation) : Fewer (register ctl onError mgr op) := by
  intro s s' h m hm
  unfold register enable at h
  split_ifs at h
  · cases ha : maskAdd (s.mask mgr) op with
    | none =>
      rw [ha] at h
      obtain rfl := Except.ok.inj h
      exact hm
    | some mask =>
      rw [ha] at h
      exact mod_fewer herror _ _ _ (s.maskSet mgr mask) s' h m hm
  · obtain rfl := Except.ok.inj h
    exact hm

/-- `del(socket)` registers no manager, and removes the one with this socket. -/
theorem del_removes (handle : SocketId) {s s' : EpollMultiplexer κ}
    (h : del ctl onError handle s = .ok s') {m : Manager} (hm : m ∈ s'.managers.elems) :
    m ∈ s.managers.elems ∧ m.handle ≠ handle := by
  obtain ⟨s₁, hs₁, h⟩ := bind_eq_ok.mp h
  obtain rfl := Except.ok.inj h
  rw [erased_managers, KeyedMap.mem_erase] at hm
  exact ⟨mod_fewer herror _ _ _ s s₁ hs₁ m hm.1, hm.2⟩

theorem delIt_fewer (mgr : Manager) : Fewer (delIt ctl onError mgr) := by
  intro s s' h m hm
  obtain ⟨s₁, hs₁, h⟩ := bind_eq_ok.mp h
  split_ifs at h
  obtain rfl := Except.ok.inj h
  rw [MultiplexerBase.eraseIt_managers, KeyedMap.mem_erase] at hm
  exact mod_fewer herror _ _ _ s s₁ hs₁ m hm.1

theorem disable_fewer (mgr : Manager) (op : Operation) (remove : Bool) :
    Fewer (disable ctl onError mgr op remove) := by
  intro s s' h m hm
  unfold disable at h
  cases hd : maskDel (s.mask mgr) op with
  | none =>
    rw [hd] at h
    obtain rfl := Except.ok.inj h
    exact hm
  | some mask =>
    rw [hd] at h
    obtain ⟨s₁, hs₁, h⟩ := bind_eq_ok.mp h
    refine mod_fewer herror _ _ _ (s.maskSet mgr mask) s₁ hs₁ m ?_
    split_ifs at h
    · exact (del_removes herror _ h hm).1
    · obtain rfl := Except.ok.inj h
      exact hm
    · obtain rfl := Except.ok.inj h
      exact hm

end Interface

/-- **`shutdown` registers no manager**, at any depth of nesting. -/
theorem shutdown_fewer (depth : ℕ) : Fewer (shutdown ctl depth) := by
  induction depth with
  | zero =>
    intro s s' h
    cases h
  | succ depth ih =>
    exact shutdownWith_fewer (fun mgr => disable_fewer ih mgr _ _) (fun mgr => delIt_fewer ih mgr)

/-! ### The acts of handlers -/

mutual

/-- The act hands the manager to `add`. -/
def Adds (mgr : Manager) : Act → Prop
  | .add m _ init _ => m = mgr ∨ AddsAny mgr init
  | _ => False

/-- One of the acts does. -/
def AddsAny (mgr : Manager) : List Act → Prop
  | [] => False
  | act :: acts => Adds mgr act ∨ AddsAny mgr acts

end

variable {depth : ℕ} {mgr : Manager}

mutual

theorem perform_absent (act : Act) {s s' : EpollMultiplexer κ} (hact : ¬ Adds mgr act)
    (hs : mgr ∉ s.managers.elems) (h : perform ctl depth act s = .ok s') : mgr ∉ s'.managers.elems := by
  cases act with
  | registerReading m => exact fun hm => hs (register_fewer (shutdown_fewer depth) m _ s s' h mgr hm)
  | registerWriting m => exact fun hm => hs (register_fewer (shutdown_fewer depth) m _ s s' h mgr hm)
  | setTimeout m when =>
    obtain rfl := Except.ok.inj h
    exact hs
  | add m initial init fails =>
    obtain ⟨hne, hinit⟩ := not_or.mp hact
    obtain ⟨s₁, hs₁, h⟩ := bind_eq_ok.mp h
    obtain ⟨⟨ok, s₂⟩, hs₂, h⟩ := bind_eq_ok.mp h
    obtain ⟨s₃, hs₃, hpair⟩ := map_eq_ok.mp hs₂
    obtain ⟨rfl, rfl⟩ := Prod.mk.inj hpair
    have hadded : mgr ∉ (s₁.add m).managers.elems := by
      intro hm
      rcases KeyedMap.mem_emplace.mp hm with hm | ⟨rfl, -⟩
      · exact hs (mod_fewer (shutdown_fewer depth) _ _ _ (s.maskSet m initial) s₁ hs₁ mgr hm)
      · exact hne rfl
    have hdone : mgr ∉ s₃.managers.elems := performAll_absent init hinit hadded hs₃
    dsimp only at h
    split_ifs at h
    · obtain rfl := Except.ok.inj h
      exact hdone
    · exact fun hm => hdone (shutdown_fewer depth _ s' h mgr hm)
  | shutdown => exact fun hm => hs (shutdown_fewer depth _ s' h mgr hm)
  | rehash order =>
    obtain rfl := Except.ok.inj h
    exact fun hm => hs ((s.managers.rehash_perm order).mem_iff.mp hm)

/-- **An absent manager stays absent**, unless it is handed to `add`. -/
theorem performAll_absent (acts : List Act) {s s' : EpollMultiplexer κ} (hacts : ¬ AddsAny mgr acts)
    (hs : mgr ∉ s.managers.elems) (h : performAll ctl depth acts s = .ok s') :
    mgr ∉ s'.managers.elems := by
  cases acts with
  | nil =>
    obtain rfl := Except.ok.inj h
    exact hs
  | cons act acts =>
    obtain ⟨hact, hacts⟩ := not_or.mp hacts
    obtain ⟨s₁, hs₁, h⟩ := bind_eq_ok.mp h
    exact performAll_absent acts hacts (perform_absent act hact hs hs₁) h

end

/-! ### Verdicts -/

theorem handleResult_fewer {m : Manager} {res : ManagerResult} {op : Operation} {further : Bool}
    {s s' : EpollMultiplexer κ} (h : handleResult ctl depth m res op s = .ok (further, s')) :
    ∀ m' ∈ s'.managers.elems, m' ∈ s.managers.elems := by
  intro m' hm'
  unfold handleResult at h
  cases res with
  | ok | temporaryError =>
    obtain ⟨rfl, rfl⟩ := Prod.mk.inj (Except.ok.inj h)
    exact hm'
  | done =>
    dsimp only at h
    split_ifs at h
    obtain ⟨s₁, hs₁, hpair⟩ := map_eq_ok.mp h
    obtain ⟨rfl, rfl⟩ := Prod.mk.inj hpair
    exact disable_fewer (shutdown_fewer depth) m op true s s₁ hs₁ m' hm'
  | error =>
    dsimp only at h
    split_ifs at h
    obtain ⟨s₁, hs₁, hpair⟩ := map_eq_ok.mp h
    obtain ⟨rfl, rfl⟩ := Prod.mk.inj hpair
    exact (del_removes (shutdown_fewer depth) _ hs₁ hm').1

/-- **The verdict `error` removes the manager**, and its event is not processed further. -/
theorem handleResult_error {op : Operation} {further : Bool} {s s' : EpollMultiplexer κ}
    (h : handleResult ctl depth mgr .error op s = .ok (further, s')) :
    further = false ∧ mgr ∉ s'.managers.elems := by
  unfold handleResult at h
  dsimp only at h
  split_ifs at h
  obtain ⟨s₁, hs₁, hpair⟩ := map_eq_ok.mp h
  obtain ⟨rfl, rfl⟩ := Prod.mk.inj hpair
  exact ⟨rfl, fun hm => (del_removes (shutdown_fewer depth) _ hs₁ hm).2 rfl⟩

variable {m : Manager} {handler : Handler} {kind op : Operation} {further : Bool}
  {s s' : EpollMultiplexer κ}

theorem dispatch_absent (hacts : ¬ AddsAny mgr handler.acts) (hs : mgr ∉ s.managers.elems)
    (h : dispatch ctl depth m handler kind op s = .ok (further, s')) : mgr ∉ s'.managers.elems := by
  obtain ⟨s₁, hs₁, h⟩ := bind_eq_ok.mp h
  obtain ⟨⟨further', s₂⟩, hs₂, h⟩ := bind_eq_ok.mp h
  obtain ⟨rfl, rfl⟩ := Prod.mk.inj (Except.ok.inj h)
  exact fun hm => performAll_absent handler.acts hacts hs hs₁ (handleResult_fewer hs₂ mgr hm)

theorem dispatch_error (hv : handler.verdict = .error)
    (h : dispatch ctl depth mgr handler kind op s = .ok (further, s')) :
    further = false ∧ mgr ∉ s'.managers.elems := by
  obtain ⟨s₁, -, h⟩ := bind_eq_ok.mp h
  obtain ⟨⟨further', s₂⟩, hs₂, h⟩ := bind_eq_ok.mp h
  obtain ⟨rfl, rfl⟩ := Prod.mk.inj (Except.ok.inj h)
  rw [hv] at hs₂
  obtain ⟨hstop, hgone⟩ := handleResult_error hs₂
  exact ⟨hstop, hgone⟩

end NetworkDriver.Net.Multiplexer.Epoll.Membership
