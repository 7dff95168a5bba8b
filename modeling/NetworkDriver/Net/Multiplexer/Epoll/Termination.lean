import NetworkDriver.Net.Multiplexer.Epoll.Failures

/-! # When calls return although `epoll_ctl` fails

A failure for a manager that `shutdown` leaves is harmless: the nested `shutdown` makes the rest of the
pass. A failure for one that it removes is not: the nested call meets the same manager, and either it
removes it under the outer one, or it fails in the same way, without end.

* `sweep_permanent`: the condition for a `shutdown` when a failure depends on the call and the socket.
* `request_once`: no manager is erased twice.
* `terminates_iff`: a call returns exactly if the specification has a result.
* `endless_and_dangling`: a socket that cannot be deleted, and a single failure. -/

namespace NetworkDriver.Net.Multiplexer.Epoll.Termination

open NetworkDriver.Library.Bounded NetworkDriver.Library.Keyed NetworkDriver.Library.Results
open NetworkDriver.Net.Types
open NetworkDriver.Net.Multiplexer.Base NetworkDriver.Net.Multiplexer.Epoll.Model
open NetworkDriver.Net.Multiplexer.Epoll.Failures

variable {κ : Type} {ctl : EpollCtl κ}

/-! ### Calls on the thread of the multiplexer -/

/-- `add` and `shutdown` are acts, besides whatever else a handler may do. -/
inductive Request where
  | act (act : Act)
  | enable (mgr : Manager) (op : Operation)
  | disable (mgr : Manager) (op : Operation) (remove : Bool)
  | del (handle : SocketId)

/-- A call, whose failures may nest to `depth`. -/
def request (ctl : EpollCtl κ) (depth : ℕ) : Request → EpollMultiplexer κ →
    Except Fault (EpollMultiplexer κ)
  | .act act, s => perform ctl depth act s
  | .enable mgr op, s => enable ctl (shutdown ctl depth) mgr op s
  | .disable mgr op remove, s => disable ctl (shutdown ctl depth) mgr op remove s
  | .del handle, s => del ctl (shutdown ctl depth) handle s

/-- The call in the specification: it has a result if no call of `epoll_ctl` fails for a manager that a
`shutdown` is about to remove, and `disable` with a removal finds its manager. -/
def harmless (ctl : EpollCtl κ) : Request → Pollset κ → Option (Pollset κ)
  | .act act, p => p.perform ctl act
  | .enable mgr op, p => p.enable ctl mgr op
  | .disable mgr op remove, p => p.disable ctl mgr op remove
  | .del handle, p => p.del ctl handle

theorem request_refines (ctl : EpollCtl κ) (c : Request) (s : EpollMultiplexer κ) :
    Refines pollset (fun depth => request ctl depth c s) (harmless ctl c (pollset s)) := by
  cases c with
  | act act => exact perform_refines ctl act s
  | enable mgr op => exact enable_refines ctl mgr op s
  | disable mgr op remove => exact disable_refines ctl mgr op remove s
  | del handle => exact del_refines ctl handle s

/-! ### Failures that depend on the call and the socket -/

/-- A manager that waits for nothing but reading and accepting can be changed, if it waits for that,
and deleted. -/
def Removable (fails : CtlOp → SocketId → Bool) (p : Pollset κ) (mgr : Manager) : Prop :=
  mgr.handle ≠ p.pipeReader → p.mask mgr &&& ~~~Operation.readAccept = Operation.none →
    (p.mask mgr ≠ Operation.none → fails .mod mgr.handle = false) ∧ fails .del mgr.handle = false

section Permanent

variable {fails : CtlOp → SocketId → Bool} {p p' : Pollset κ} {mgr : Manager}

theorem cut_removes (p : Pollset κ) (mgr : Manager) :
    (p.cut ctl mgr).2.mask mgr = p.mask mgr &&& ~~~Operation.readAccept := by
  unfold Pollset.cut
  cases hd : maskDel (p.mask mgr) Operation.readAccept with
  | none => exact (mask_of_maskDel_none hd).symm
  | some mask => exact (Function.update_self ..).trans (mask_of_maskDel_some hd)

theorem cut_succeeds (hfails : ∀ k op fd flags, (ctl k op fd flags).1 = !fails op fd)
    (hidle : p.mask mgr &&& ~~~Operation.readAccept = Operation.none) :
    (p.cut ctl mgr).1 = true ↔ (p.mask mgr ≠ Operation.none → fails .mod mgr.handle = false) := by
  have hread : ∀ m : Operation, m &&& ~~~Operation.readAccept = Operation.none →
      (m &&& Operation.readAccept = Operation.none ↔ m = Operation.none) := by decide +kernel
  unfold Pollset.cut maskDel
  split_ifs with hnone
  · exact iff_of_true rfl fun hne => absurd ((hread _ hidle).mp hnone) hne
  · have hne : p.mask mgr ≠ Operation.none := fun h => hnone ((hread _ hidle).mpr h)
    simp only [Pollset.call, hfails, Bool.not_eq_true', hne, ne_eq, not_false_eq_true, forall_const]

theorem visit_isSome (hfails : ∀ k op fd flags, (ctl k op fd flags).1 = !fails op fd) :
    (p.visit ctl mgr).isSome = true ↔ Removable fails p mgr := by
  unfold Removable
  by_cases hpipe : mgr.handle = p.pipeReader
  · rw [Pollset.visit_pipeReader hpipe]
    exact iff_of_true rfl fun h => absurd hpipe h
  · by_cases hidle : p.mask mgr &&& ~~~Operation.readAccept = Operation.none
    · rw [Pollset.visit_drop hpipe ((cut_removes p mgr).trans hidle), ← cut_succeeds hfails hidle]
      simp only [Pollset.call, hfails, hpipe, hidle, ne_eq, not_false_eq_true, forall_const]
      cases (p.cut ctl mgr).1 <;> cases fails .del mgr.handle <;> simp
    · rw [Pollset.visit_keep hpipe (by rw [cut_removes]; exact hidle)]
      exact iff_of_true rfl fun _ h => absurd h hidle

/-- A visit does not affect the other managers. -/
theorem visit_other (h : p.visit ctl mgr = some p') {m : Manager} (hne : m ≠ mgr) :
    Removable fails p' m ↔ Removable fails p m := by
  have hsame : p'.mask m = p.mask m ∧ p'.pipeReader = p.pipeReader := by
    by_cases hpipe : mgr.handle = p.pipeReader
    · rw [Pollset.visit_pipeReader hpipe] at h
      obtain rfl := Option.some.inj h
      exact ⟨rfl, rfl⟩
    · by_cases hmask : (p.cut ctl mgr).2.mask mgr = Operation.none
      · rw [Pollset.visit_drop hpipe hmask] at h
        split_ifs at h
        obtain rfl := Option.some.inj h
        exact ⟨Pollset.cut_mask_of_ne p hne, Pollset.cut_pipeReader p mgr⟩
      · rw [Pollset.visit_keep hpipe hmask] at h
        obtain rfl := Option.some.inj h
        exact ⟨Pollset.cut_mask_of_ne p hne, Pollset.cut_pipeReader p mgr⟩
  unfold Removable
  rw [hsame.1, hsame.2]

theorem visits_isSome (hfails : ∀ k op fd flags, (ctl k op fd flags).1 = !fails op fd)
    {l : List Manager} (hl : l.Nodup) :
    (l.foldlM (Pollset.visit ctl) p).isSome = true ↔ ∀ mgr ∈ l, Removable fails p mgr := by
  induction l generalizing p with
  | nil => exact iff_of_true rfl fun _ h => absurd h List.not_mem_nil
  | cons mgr l ih =>
    obtain ⟨hmgr, hl⟩ := List.nodup_cons.mp hl
    rw [List.foldlM_cons, List.forall_mem_cons, ← visit_isSome hfails]
    cases hv : p.visit ctl mgr with
    | none => simp
    | some p₁ =>
      refine (ih hl).trans ?_
      rw [Option.isSome_some, and_iff_right rfl]
      refine forall₂_congr fun m hm => visit_other hv ?_
      rintro rfl
      exact hmgr hm

/-- **A `shutdown` whose failures depend on the call and the socket** has a result exactly if every
manager that it removes can be changed and deleted. -/
theorem sweep_permanent (hfails : ∀ k op fd flags, (ctl k op fd flags).1 = !fails op fd) :
    (p.sweep ctl).isSome = true ↔ ∀ mgr ∈ p.managers.elems, Removable fails p mgr :=
  visits_isSome hfails (List.Nodup.of_map _ p.managers.nodup)

end Permanent

/-! ### Removals -/

mutual

/-- How many managers the act hands to `add`. -/
def addsOf : Act → ℕ
  | .add _ _ init _ => addsAll init + 1
  | _ => 0

def addsAll : List Act → ℕ
  | [] => 0
  | act :: acts => addsOf act + addsAll acts

end

/-- How many managers the call hands to `add`. -/
def Request.adds : Request → ℕ
  | .act a => addsOf a
  | _ => 0

/-- A removal takes out a manager that was there or was added, and no two take out the same. -/
def ErasedOnce (n : ℕ) (s s' : EpollMultiplexer κ) : Prop :=
  s'.history.removals.length + s'.managers.elems.length ≤
    s.history.removals.length + s.managers.elems.length + n

section ErasedOnce

variable {s s' s'' : EpollMultiplexer κ} {n n' : ℕ} {mgr : Manager}

theorem ErasedOnce.refl : ErasedOnce 0 s s := le_rfl

theorem ErasedOnce.trans (h : ErasedOnce n s s') (h' : ErasedOnce n' s' s'') :
    ErasedOnce (n + n') s s'' := by
  unfold ErasedOnce at *
  omega

theorem erase_length_le (m : KeyedMap Manager.handle) (handle : SocketId) :
    (m.erase handle).elems.length ≤ m.elems.length := List.length_filter_le ..

theorem erase_length_lt {m : KeyedMap Manager.handle} (hm : mgr ∈ m.elems) :
    (m.erase mgr.handle).elems.length < m.elems.length :=
  List.length_filter_lt_length_iff_exists.mpr ⟨mgr, hm, by simp⟩

theorem erased_once (handle : SocketId) (s : EpollMultiplexer κ) : ErasedOnce 0 s (erased handle s) := by
  have hle := erase_length_le s.managers handle
  unfold ErasedOnce
  rw [erased_managers]
  unfold erased
  dsimp only
  cases hfind : s.managers.find? handle with
  | none =>
    simp only [Option.isSome_none, Bool.false_eq_true, ↓reduceIte]
    split_ifs <;> exact Nat.add_le_add_left hle _
  | some m =>
    obtain ⟨hm, rfl⟩ := KeyedMap.find?_eq_some.mp hfind
    have hlt := erase_length_lt hm
    simp only [Option.isSome_some, ↓reduceIte]
    split_ifs <;> simp only [MultiplexerBase.logRemoval, MultiplexerBase.del, List.length_append,
      List.length_singleton] <;> omega

theorem eraseIt_once (hm : mgr ∈ s.managers.elems) : ErasedOnce 0 s (s.eraseIt mgr) := by
  have hlt := erase_length_lt hm
  unfold ErasedOnce
  rw [MultiplexerBase.eraseIt_managers]
  unfold MultiplexerBase.eraseIt
  dsimp only
  split_ifs <;> simp only [MultiplexerBase.logRemoval, MultiplexerBase.del, List.length_append,
    List.length_singleton] <;> omega

section Calls

variable {onError : EpollMultiplexer κ → Except Fault (EpollMultiplexer κ)}
  (herror : ∀ s s', onError s = .ok s' → ErasedOnce 0 s s')

include herror

theorem mod_once {fd : SocketId} {op : CtlOp} {events : Operation}
    (h : mod ctl onError fd op events s = .ok s') : ErasedOnce 0 s s' := by
  unfold mod at h
  dsimp only at h
  split_ifs at h
  · obtain rfl := Except.ok.inj h
    exact ErasedOnce.refl
  · have hnested := herror _ _ h
    exact hnested

theorem enable_once {op : Operation} (h : enable ctl onError mgr op s = .ok s') :
    ErasedOnce 0 s s' := by
  unfold enable at h
  cases ha : maskAdd (s.mask mgr) op with
  | none =>
    rw [ha] at h
    obtain rfl := Except.ok.inj h
    exact ErasedOnce.refl
  | some mask =>
    rw [ha] at h
    exact mod_once (s := s.maskSet mgr mask) herror h

theorem del_once {handle : SocketId} (h : del ctl onError handle s = .ok s') : ErasedOnce 0 s s' := by
  obtain ⟨s₁, hs₁, h⟩ := bind_eq_ok.mp h
  obtain rfl := Except.ok.inj h
  exact (mod_once herror hs₁).trans (erased_once handle s₁)

theorem delIt_once (h : delIt ctl onError mgr s = .ok s') : ErasedOnce 0 s s' := by
  obtain ⟨s₁, hs₁, h⟩ := bind_eq_ok.mp h
  split_ifs at h with hm
  obtain rfl := Except.ok.inj h
  exact (mod_once herror hs₁).trans (eraseIt_once hm)

theorem disable_once {op : Operation} {remove : Bool}
    (h : disable ctl onError mgr op remove s = .ok s') : ErasedOnce 0 s s' := by
  unfold disable at h
  cases hd : maskDel (s.mask mgr) op with
  | none =>
    rw [hd] at h
    obtain rfl := Except.ok.inj h
    exact ErasedOnce.refl
  | some mask =>
    rw [hd] at h
    obtain ⟨s₁, hs₁, h⟩ := bind_eq_ok.mp h
    have h₁ : ErasedOnce 0 s s₁ := mod_once (s := s.maskSet mgr mask) herror hs₁
    split_ifs at h
    · exact h₁.trans (del_once herror h)
    · obtain rfl := Except.ok.inj h
      exact h₁
    · obtain rfl := Except.ok.inj h
      exact h₁

end Calls

theorem loop_once {depth : ℕ} (herror : ∀ s s', shutdown ctl depth s = .ok s' → ErasedOnce 0 s s')
    {l : List Manager} (h : loop ctl depth l s = .ok s') : ErasedOnce 0 s s' := by
  induction l generalizing s with
  | nil =>
    obtain rfl := Except.ok.inj h
    exact ErasedOnce.refl
  | cons m l ih =>
    by_cases hm : m ∈ s.managers.elems ∧ m.handle ≠ s.pipeReader
    · rw [loop_visit hm.1 hm.2] at h
      obtain ⟨s₁, hs₁, h⟩ := bind_eq_ok.mp h
      have h₁ := disable_once herror hs₁
      unfold resume at h
      split_ifs at h
      · obtain ⟨s₂, hs₂, h⟩ := bind_eq_ok.mp h
        exact (h₁.trans (delIt_once herror hs₂)).trans (ih h)
      · exact h₁.trans (ih h)
    · rw [loop_absent hm] at h
      exact ih h

theorem shutdown_once (depth : ℕ) (s s' : EpollMultiplexer κ)
    (h : shutdown ctl depth s = .ok s') : ErasedOnce 0 s s' := by
  induction depth generalizing s s' with
  | zero => cases h
  | succ depth ih =>
    obtain ⟨s₁, hs₁, rfl⟩ := shutdown_succ_eq_ok.mp h
    have hloop := loop_once ih hs₁
    exact hloop

theorem add_once (s : EpollMultiplexer κ) (mgr : Manager) : ErasedOnce 1 s (s.add mgr) := by
  have hle : (s.managers.emplace mgr).elems.length ≤ s.managers.elems.length + 1 := by
    unfold KeyedMap.emplace
    split_ifs <;> simp
  exact Nat.add_le_add_left hle _

theorem register_once {depth : ℕ} {op : Operation}
    (h : register ctl (shutdown ctl depth) mgr op s = .ok s') : ErasedOnce 0 s s' := by
  unfold register at h
  split_ifs at h
  · exact enable_once (shutdown_once depth) h
  · obtain rfl := Except.ok.inj h
    exact ErasedOnce.refl

mutual

/-- One act of a handler, by recursion on the acts of the `init` of a new manager. -/
theorem perform_once {depth : ℕ} (act : Act) {s s' : EpollMultiplexer κ}
    (h : perform ctl depth act s = .ok s') : ErasedOnce (addsOf act) s s' := by
  cases act with
  | registerReading mgr => exact register_once h
  | registerWriting mgr => exact register_once h
  | setTimeout mgr when =>
    obtain rfl := Except.ok.inj h
    exact ErasedOnce.refl
  | add mgr initial init fails =>
    obtain ⟨s₁, hs₁, h⟩ := bind_eq_ok.mp h
    obtain ⟨⟨ok, s₂⟩, hs₂, h⟩ := bind_eq_ok.mp h
    obtain ⟨s₃, hs₃, hpair⟩ := map_eq_ok.mp hs₂
    obtain ⟨rfl, rfl⟩ := Prod.mk.inj hpair
    have h₁ : ErasedOnce 0 s s₁ := mod_once (s := s.maskSet mgr initial) (shutdown_once depth) hs₁
    have h₃ := (h₁.trans (add_once s₁ mgr)).trans (performAll_once init hs₃)
    have h₄ : ErasedOnce 0 s₃ s' := by
      dsimp only at h
      split_ifs at h
      · obtain rfl := Except.ok.inj h
        exact ErasedOnce.refl
      · exact shutdown_once depth _ _ h
    refine (h₃.trans h₄).trans_eq ?_
    unfold addsOf
    omega
  | shutdown => exact shutdown_once depth s s' h
  | rehash order =>
    obtain rfl := Except.ok.inj h
    exact (Nat.add_le_add_left (s.managers.rehash_perm order).length_eq.le _)

/-- The acts of a handler. -/
theorem performAll_once {depth : ℕ} (acts : List Act) {s s' : EpollMultiplexer κ}
    (h : performAll ctl depth acts s = .ok s') : ErasedOnce (addsAll acts) s s' := by
  cases acts with
  | nil =>
    obtain rfl := Except.ok.inj h
    exact ErasedOnce.refl
  | cons act acts =>
    obtain ⟨s₁, hs₁, h⟩ := bind_eq_ok.mp h
    exact (perform_once act hs₁).trans (performAll_once acts h)

end

/-- **No manager is erased twice.** -/
theorem request_once {depth : ℕ} {c : Request} (h : request ctl depth c s = .ok s') :
    ErasedOnce c.adds s s' := by
  cases c with
  | act act => exact perform_once act h
  | enable mgr op => exact enable_once (shutdown_once depth) h
  | disable mgr op remove => exact disable_once (shutdown_once depth) h
  | del handle => exact del_once (shutdown_once depth) h

end ErasedOnce

/-! ### Termination -/

/-- The call returns: its failures do not nest without end, no `shutdown` in it goes on with an element
that was erased, and each removal takes out a manager of its own. -/
def Terminates (ctl : EpollCtl κ) (c : Request) (s : EpollMultiplexer κ) : Prop :=
  ∃ s', Returns (fun depth => request ctl depth c s) s' ∧ ErasedOnce c.adds s s'

/-- **A call terminates exactly if it is harmless.** -/
theorem terminates_iff (ctl : EpollCtl κ) (c : Request) (s : EpollMultiplexer κ) :
    Terminates ctl c s ↔ (harmless ctl c (pollset s)).isSome = true := by
  rw [← (request_refines ctl c s).returns_iff]
  constructor
  · rintro ⟨s', h, -⟩
    exact ⟨s', h⟩
  · rintro ⟨s', n, h⟩
    exact ⟨s', ⟨n, h⟩, request_once (h n le_rfl)⟩

section Failing

variable {mgr : Manager}

/-- `EPOLL_CTL_DEL` fails, every time. -/
def undeletable : EpollCtl Unit := fun _ op _ _ => (decide (op ≠ .del), ())

/-- The first change fails. -/
def flaky : EpollCtl Bool := fun failed op _ _ =>
  (failed || decide (op ≠ .mod), failed || decide (op = .mod))

/-- A manager waits for reading. -/
def reader {κ : Type} (k : κ) : EpollMultiplexer κ :=
  { MultiplexerBase.init ⟨k, []⟩ with
    managers := KeyedMap.empty.emplace ⟨0, 4⟩
    mask := fun _ => Operation.read }

/-- The only manager is one that `shutdown` removes, and cannot be deleted: every call nests
another. -/
theorem shutdown_endless (depth : ℕ) (s : EpollMultiplexer Unit) (hs : s.managers.elems = [mgr])
    (hp : mgr.handle ≠ s.pipeReader) (hidle : s.mask mgr &&& ~~~Operation.readAccept = Operation.none) :
    shutdown undeletable depth s = .error .tooDeep := by
  induction depth generalizing s with
  | zero => rfl
  | succ depth ih =>
    have hmem : mgr ∈ s.managers.elems := hs ▸ List.mem_singleton_self mgr
    obtain ⟨t, ht, hdis⟩ := disable_cut undeletable (entered s) mgr
    obtain ⟨t₂, ht₂, hdel⟩ := delIt_call undeletable t mgr
    have hman : t₂.managers = s.managers := (congrArg Pollset.managers ht₂).trans
      ((congrArg Pollset.managers ht).trans (Pollset.cut_managers _ _))
    have hpipe : t₂.pipeReader = s.pipeReader := (congrArg Pollset.pipeReader ht₂).trans
      ((congrArg Pollset.pipeReader ht).trans (Pollset.cut_pipeReader _ _))
    have hmask : t.mask mgr = Operation.none :=
      (congrArg (Pollset.mask · mgr) ht).trans ((cut_removes _ _).trans hidle)
    have hmask₂ : t₂.mask mgr = Operation.none :=
      (congrArg (Pollset.mask · mgr) ht₂).trans hmask
    have hmem₁ : mgr ∈ t.managers.elems := by
      rw [show t.managers = t₂.managers from (congrArg Pollset.managers ht₂).symm, hman]
      exact hmem
    have hcut : ((pollset (entered s)).cut undeletable mgr).1 = true := by
      unfold Pollset.cut
      cases maskDel ((pollset (entered s)).mask mgr) Operation.readAccept <;> rfl
    have hnested : shutdown undeletable depth t₂ = .error .tooDeep := by
      refine ih t₂ (hman ▸ hs) (hpipe ▸ hp) ?_
      rw [hmask₂]
      rfl
    have hloop : loop undeletable depth [mgr] (entered s) = .error .tooDeep := by
      rw [loop_visit (s := entered s) hmem hp, hdis, if_pos hcut]
      refine (resume_removed hmem₁ hmask).trans ?_
      rw [hdel, hnested]
      rfl
    have hstart : loop undeletable depth s.managers.elems (entered s) = .error .tooDeep := by
      rw [hs]
      exact hloop
    exact congrArg (· >>= fun s => Except.ok { s with pipeWriter := invalidSocketId }) hstart

/-- A socket that cannot be deleted makes a `shutdown` nest without end, and a single failure makes
it go on with an element that is gone. -/
theorem endless_and_dangling :
    (∀ depth, shutdown undeletable depth (reader ()) = .error .tooDeep) ∧
      shutdown flaky 3 (reader false) = .error .dangling ∧
      ¬Terminates undeletable (.act .shutdown) (reader ()) := by
  have hendless : ∀ depth, shutdown undeletable depth (reader ()) = .error .tooDeep := fun depth =>
    shutdown_endless depth _ rfl (by decide) (by decide)
  refine ⟨hendless, rfl, ?_⟩
  rintro ⟨s', ⟨n, h⟩, -⟩
  have hok : shutdown undeletable n (reader ()) = .ok s' := h n le_rfl
  rw [hendless] at hok
  cases hok

end Failing

end NetworkDriver.Net.Multiplexer.Epoll.Termination
