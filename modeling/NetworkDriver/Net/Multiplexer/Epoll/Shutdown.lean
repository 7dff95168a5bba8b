import NetworkDriver.Net.Multiplexer.Epoll.Model
import NetworkDriver.Net.Multiplexer.Shutdown

/-! # Graceful shutdown under epoll

The calls of `epoll_multiplexer` keep the invariants of `Shutdown`, whatever `epoll_ctl` answers: a
failure is a `shutdown` in the middle of a call.

* `shutdown_calm`: `shutdown` at any depth of nesting.
* `perform_serving`, `performAll_serving`: the acts of a handler.
* `run_between`: over a whole run of the event loop, the law holds if and only if the history is
  orderly. -/

namespace NetworkDriver.Net.Multiplexer.Epoll.Shutdown

open NetworkDriver.Library.Keyed NetworkDriver.Library.Results
open NetworkDriver.Net.Types NetworkDriver.Net.Multiplexer.Base
open NetworkDriver.Net.Multiplexer.Epoll.Model NetworkDriver.Net.Multiplexer.Shutdown

variable {κ : Type} {ctl : EpollCtl κ} {s s' : EpollMultiplexer κ} {mgr : Manager}

/-! ### Calm calls -/

section Calm

variable {onError : EpollMultiplexer κ → Except Fault (EpollMultiplexer κ)}
  (hcalm : ∀ s s', onError s = .ok s' → Calm s s')

include hcalm

theorem mod_calm {fd : SocketId} {op : CtlOp} {events : Operation}
    (h : mod ctl onError fd op events s = .ok s') : Calm s s' := by
  have hkernel : ∀ k, Cuts s { s with derived.kernel := k } := fun k =>
    ⟨rfl, rfl, rfl, id, fun _ => rfl, fun _ => BitVec.and_self, rfl, rfl, List.Subset.refl _,
      fun _ => Or.inl⟩
  unfold mod at h
  dsimp only at h
  split_ifs at h with hok
  · obtain rfl := Except.ok.inj h
    exact (hkernel _).calm
  · exact (hkernel _).calm.trans (hcalm _ _ h)

theorem disable_cutsReads :
    CutsReads fun mgr => disable ctl onError mgr Operation.readAccept false := by
  intro mgr s s' h
  dsimp only at h
  unfold disable at h
  cases hdel : maskDel (s.mask mgr) Operation.readAccept with
  | none =>
    rw [hdel] at h
    obtain rfl := Except.ok.inj h
    exact ⟨Grows.refl _, Or.inl ⟨Cuts.refl _, and_of_maskDel_none hdel⟩⟩
  | some mask =>
    rw [hdel] at h
    obtain ⟨s₁, hs₁, h⟩ := bind_eq_ok.mp h
    obtain ⟨hcut, hclear⟩ := maskDel_cuts (s := s) hdel
    have hmod := mod_calm hcalm hs₁
    obtain rfl := Except.ok.inj h
    refine ⟨hcut.grows.trans hmod.grows, ?_⟩
    rcases hmod.cuts with hc | ⟨hi, hb⟩
    · refine Or.inl ⟨hcut.trans hc, ?_⟩
      rw [← hc.shrinks mgr, MultiplexerBase.maskSet_mask_self, BitVec.and_assoc, hclear]
      exact BitVec.and_zero
    · exact Or.inr ⟨hcut.idle_iff.mp hi, fun hr => hb (hcut.running.trans hr)⟩

theorem delIt_erases : Erases fun mgr => delIt ctl onError mgr := by
  intro mgr s s' h
  obtain ⟨s₁, hs₁, h⟩ := bind_eq_ok.mp h
  split_ifs at h with hmem
  exact ⟨s₁, mod_calm hcalm hs₁, (Except.ok.inj h).symm⟩

end Calm

/-- **`shutdown` is calm**, at any depth and whatever `epoll_ctl` answers. -/
theorem shutdown_calm (depth : ℕ) (s s' : EpollMultiplexer κ) (h : shutdown ctl depth s = .ok s') :
    Calm s s' := by
  induction depth generalizing s s' with
  | zero => cases h
  | succ depth ih => exact shutdownWith_calm (disable_cutsReads ih) (delIt_erases ih) h

/-! ### The acts of handlers -/

section Invariants

variable {depth : ℕ}

theorem register_serving {op : Operation} (hs : Serving s)
    (h : register ctl (shutdown ctl depth) mgr op s = .ok s') : Serving s' := by
  unfold register enable at h
  split_ifs at h
  · cases ha : maskAdd (s.mask mgr) op with
    | none =>
      rw [ha] at h
      obtain rfl := Except.ok.inj h
      exact hs
    | some mask =>
      rw [ha] at h
      exact (mod_calm (shutdown_calm depth) h).serving hs
  · obtain rfl := Except.ok.inj h
    exact hs

mutual

/-- One act of a handler, by recursion on the acts of the `init` of a new manager. -/
theorem perform_serving (act : Act) {s s' : EpollMultiplexer κ} (hs : Serving s)
    (h : perform ctl depth act s = .ok s') : Serving s' := by
  cases act with
  | registerReading mgr => exact register_serving hs h
  | registerWriting mgr => exact register_serving hs h
  | setTimeout mgr when =>
    obtain rfl := Except.ok.inj h
    exact hs
  | add mgr initial init fails =>
    obtain ⟨s₁, hs₁, h⟩ := bind_eq_ok.mp h
    obtain ⟨⟨ok, s₂⟩, hs₂, h⟩ := bind_eq_ok.mp h
    obtain ⟨s₃, hs₃, hpair⟩ := map_eq_ok.mp hs₂
    obtain ⟨rfl, rfl⟩ := Prod.mk.inj hpair
    have hserve₁ : Serving s₁ := (mod_calm (shutdown_calm depth) hs₁).serving hs
    have hserve₃ : Serving s₃ := performAll_serving init (s := s₁.add mgr) hserve₁ hs₃
    dsimp only at h
    split_ifs at h
    · obtain rfl := Except.ok.inj h
      exact hserve₃
    · exact (shutdown_calm depth _ _ h).serving hserve₃
  | shutdown => exact (shutdown_calm depth _ _ h).serving hs
  | rehash order =>
    obtain rfl := Except.ok.inj h
    exact hs

/-- The acts of a handler. -/
theorem performAll_serving (acts : List Act) {s s' : EpollMultiplexer κ} (hs : Serving s)
    (h : performAll ctl depth acts s = .ok s') : Serving s' := by
  cases acts with
  | nil =>
    obtain rfl := Except.ok.inj h
    exact hs
  | cons act acts =>
    obtain ⟨s₁, hs₁, h⟩ := bind_eq_ok.mp h
    exact performAll_serving acts (perform_serving act hs hs₁) h

end

/-! ### Dispatch -/

/-- What `del(socket)` does behind `mod`: its check stops the loop exactly when no manager is left. -/
theorem erased_settled {handle : SocketId} (hs : Settled s) : Settled (erased handle s) := by
  have hempty : (s.del handle).hasManagers = false → (s.del handle).managers.elems = [] := by
    simp [MultiplexerBase.hasManagers]
  unfold erased
  dsimp only
  by_cases hstop : ((s.del handle).shuttingDown && !(s.del handle).hasManagers) = true
  · have hnone := (Bool.and_eq_true_iff.mp hstop).2
    rw [if_pos hstop]
    split_ifs
    · rcases hs with hb | ⟨hl, ho, -⟩
      · exact Or.inl ((logRemoval_grows { s.del handle with running := false }).broken hb)
      · refine logRemoval_settled (s := { s.del handle with running := false }) hl ho ?_
        exact (congrArg (!·) hstop).symm
    · exact hs.imp_right fun h => ⟨h.1, h.2.1, Or.inr (hempty (by simpa using hnone))⟩
  · rw [if_neg hstop]
    split_ifs with hfound
    · obtain ⟨mgr, hmgr⟩ := Option.isSome_iff_exists.mp hfound
      rcases hs.serving (KeyedMap.find?_eq_some.mp hmgr).1 with hb | ⟨hl, ho, hr⟩
      · exact Or.inl ((logRemoval_grows (s.del handle)).broken hb)
      · refine logRemoval_settled (s := s.del handle) hl ho ?_
        rw [Bool.not_eq_true] at hstop
        exact hr.trans (congrArg (!·) hstop).symm
    · refine hs.imp_right fun h => ⟨h.1, h.2.1, h.2.2.imp_right fun he => ?_⟩
      simp [MultiplexerBase.del, KeyedMap.erase, he]

theorem del_settled {handle : SocketId} (hs : Settled s)
    (h : del ctl (shutdown ctl depth) handle s = .ok s') : Settled s' := by
  obtain ⟨s₁, hs₁, h⟩ := bind_eq_ok.mp h
  obtain rfl := Except.ok.inj h
  exact erased_settled ((mod_calm (shutdown_calm depth) hs₁).settled hs)

theorem disable_settled {op : Operation} {remove : Bool} (hs : Settled s)
    (h : disable ctl (shutdown ctl depth) mgr op remove s = .ok s') : Settled s' := by
  unfold disable at h
  cases hdel : maskDel (s.mask mgr) op with
  | none =>
    rw [hdel] at h
    obtain rfl := Except.ok.inj h
    exact hs
  | some mask =>
    rw [hdel] at h
    obtain ⟨s₁, hs₁, h⟩ := bind_eq_ok.mp h
    have hset₁ : Settled s₁ :=
      (mod_calm (shutdown_calm depth) hs₁).settled (s := s.maskSet mgr mask) hs
    split_ifs at h
    · exact del_settled hset₁ h
    · obtain rfl := Except.ok.inj h
      exact hset₁
    · obtain rfl := Except.ok.inj h
      exact hset₁

/-- A handler is called while its manager is registered, and its verdict is handled. -/
theorem dispatch_settled {handler : Handler} {kind op : Operation} {further : Bool} (hs : Serving s)
    (h : dispatch ctl depth mgr handler kind op s = .ok (further, s')) : Settled s' := by
  obtain ⟨s₁, hs₁, h⟩ := bind_eq_ok.mp h
  obtain ⟨⟨further', s₂⟩, hs₂, h⟩ := bind_eq_ok.mp h
  obtain ⟨rfl, rfl⟩ := Prod.mk.inj (Except.ok.inj h)
  have hset₁ : Settled s₁ := (performAll_serving handler.acts hs hs₁).settled
  have hset₂ : Settled s₂ := by
    unfold handleResult at hs₂
    cases hv : handler.verdict with
    | done =>
      simp only [hv] at hs₂
      split_ifs at hs₂
      obtain ⟨s₃, hs₃, hpair⟩ := map_eq_ok.mp hs₂
      obtain ⟨-, rfl⟩ := Prod.mk.inj hpair
      exact disable_settled hset₁ hs₃
    | error =>
      simp only [hv] at hs₂
      split_ifs at hs₂
      obtain ⟨s₃, hs₃, hpair⟩ := map_eq_ok.mp hs₂
      obtain ⟨-, rfl⟩ := Prod.mk.inj hpair
      exact del_settled hset₁ hs₃
    | ok =>
      simp only [hv] at hs₂
      obtain ⟨-, rfl⟩ := Prod.mk.inj (Except.ok.inj hs₂)
      exact hset₁
    | temporaryError =>
      simp only [hv] at hs₂
      obtain ⟨-, rfl⟩ := Prod.mk.inj (Except.ok.inj hs₂)
      exact hset₁
  exact hset₂

theorem handleWrite_settled {event : Event} (hs : Settled s)
    (h : handleWrite ctl depth mgr event s = .ok s') : Settled s' := by
  unfold handleWrite at h
  split_ifs at h with hout hmem
  · obtain ⟨⟨further, s₁⟩, hs₁, rfl⟩ := map_eq_ok.mp h
    exact dispatch_settled (hs.serving hmem) hs₁
  · obtain rfl := Except.ok.inj h
    exact hs

/-- **One event.** -/
theorem handleEvent_settled {event : Event} (hs : Settled s)
    (h : handleEvent ctl depth event s = .ok s') : Settled s' := by
  unfold handleEvent at h
  by_cases hhup : event.flags = epollHup ||| epollRdHup ||| epollErr
  · rw [if_pos hhup] at h
    exact del_settled hs h
  · rw [if_neg hhup] at h
    cases hfind : s.managers.find? event.fd with
    | none =>
      simp only [hfind] at h
      obtain rfl := Except.ok.inj h
      exact hs
    | some mgr =>
      simp only [hfind] at h
      split_ifs at h with hin
      · obtain ⟨⟨further, s₁⟩, hs₁, h⟩ := bind_eq_ok.mp h
        have hserve := hs.serving (KeyedMap.find?_eq_some.mp hfind).1
        have hset₁ := dispatch_settled hserve hs₁
        dsimp only at h
        split_ifs at h
        · exact handleWrite_settled hset₁ h
        · obtain rfl := Except.ok.inj h
          exact hset₁
      · exact handleWrite_settled hs h

theorem eventLoop_settled {events : List Event} (hs : Settled s)
    (h : eventLoop ctl depth events s = .ok s') : Settled s' := by
  induction events generalizing s with
  | nil =>
    obtain rfl := Except.ok.inj h
    exact hs
  | cons event events ih =>
    obtain ⟨s₁, hs₁, h⟩ := bind_eq_ok.mp h
    exact ih (handleEvent_settled hs hs₁) h

/-! ### The event loop -/

/-- **One iteration of the event loop.** -/
theorem loopStep_between {poll : Poll} (hs : Between s) (h : loopStep ctl depth poll s = .ok s') :
    Between s' := by
  unfold loopStep at h
  split_ifs at h with hr
  · obtain ⟨⟨failed, s₁⟩, hs₁, rfl⟩ := map_eq_ok.mp h
    cases poll with
    | failed interrupted =>
      obtain ⟨rfl, rfl⟩ := Prod.mk.inj (Except.ok.inj hs₁)
      dsimp only
      split_ifs
      · exact ⟨hs.1, fun hstop => by cases hstop⟩
      · exact hs
    | events now onTimeout events =>
      obtain ⟨s₂, hs₂, hs₁⟩ := bind_eq_ok.mp hs₁
      obtain ⟨s₃, hs₃, hs₁⟩ := bind_eq_ok.mp hs₁
      obtain ⟨rfl, rfl⟩ := Prod.mk.inj (Except.ok.inj hs₁)
      have hset₂ : Settled s₂ := MultiplexerBase.handleTimeouts_preserves
        (fun k mgr e s s' hs hmem h => (performAll_serving (onTimeout k) (hs.serving hmem) h).settled)
        (fun s t c o hs => hs) (hs.2 hr).settled hs₂
      exact Settled.between (eventLoop_settled (s := { s₂ with derived.dispatches := [] }) hset₂ hs₃)
  · obtain rfl := Except.ok.inj h
    exact hs

theorem run_between {polls : List Poll} (hs : Between s) (h : run ctl depth polls s = .ok s') :
    Between s' := by
  induction polls generalizing s with
  | nil =>
    obtain rfl := Except.ok.inj h
    exact hs
  | cons poll polls ih =>
    obtain ⟨s₁, hs₁, h⟩ := bind_eq_ok.mp h
    exact ih (loopStep_between hs hs₁) h

end Invariants

end NetworkDriver.Net.Multiplexer.Epoll.Shutdown
