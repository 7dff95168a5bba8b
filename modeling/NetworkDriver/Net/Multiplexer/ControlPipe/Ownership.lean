import NetworkDriver.Net.Multiplexer.ControlPipe.Model

/-! # Ownership through the control pipe

A reference to a manager is owned by an `intrusive_ptr`, or by a message from the moment `add` gives
the pointer to it until the updater takes it. The reference count is the number of owners as long as
every message of an `add` is written and read.

* `shutdown_counted`, `emplace_counted`: what the thread of the multiplexer does to its managers
  keeps the count.
* `leave_counted_iff`: when the updater leaves, the references of the messages left in the pipe are
  lost.
* `step_sound_iff`, `ownership_sound_iff`: exactly when a step, and a run, keep the ownership sound.
  -/

namespace NetworkDriver.Net.Multiplexer.ControlPipe.Ownership

open NetworkDriver.Library.Run NetworkDriver.Library.Keyed NetworkDriver.Net.Types
open NetworkDriver.Net.Multiplexer.Base NetworkDriver.Net.Multiplexer.ControlPipe.Model

/-! ### Owners -/

/-- The message owns a reference to the manager. -/
def messageOwns (mgr : Manager) : Message → Bool
  | .add m _ => m = mgr
  | .shutdown => false

/-- The call owns a reference for the message that it is about to write. -/
def callOwns (mgr : Manager) : Call → Bool
  | .adding m _ => m = mgr
  | _ => false

/-- The parameter of the call is an `intrusive_ptr` to the manager. Under io_uring it is released. -/
def parameter (backend : Backend) (mgr : Manager) : Call → Bool
  | .adding m _ => backend = .kqueue && m = mgr
  | .added m => backend = .kqueue && m = mgr
  | .shuttingDown => false

/-- The number of `intrusive_ptr`s to the manager. -/
def pointers (backend : Backend) (s : State) (mgr : Manager) : ℕ :=
  s.held.count mgr + s.calls.countP (parameter backend mgr) + s.managers.elems.count mgr

/-- The number of messages that own a reference to the manager. -/
def inFlight (s : State) (mgr : Manager) : ℕ :=
  s.pipe.countP (messageOwns mgr) + s.calls.countP (callOwns mgr)

/-- The reference count of every manager is the number of its owners. -/
def Counted (backend : Backend) (s : State) : Prop :=
  ∀ mgr, s.refCount mgr = pointers backend s mgr + inFlight s mgr

/-! ### Requests -/

def messageCarries (mgr : Manager) (op : Operation) : Message → Bool
  | .add m o => m = mgr && o = op
  | .shutdown => false

def callCarries (mgr : Manager) (op : Operation) : Call → Bool
  | .adding m o => m = mgr && o = op
  | _ => false

/-- How often the manager is on its way with the operation, or was added with it. -/
def served (s : State) (mgr : Manager) (op : Operation) : ℕ :=
  s.pipe.countP (messageCarries mgr op) + s.calls.countP (callCarries mgr op) +
    s.registrations.countP fun r => r.mgr = mgr ∧ r.op = op

/-- **The ownership is sound**: the reference counts are right, so that no reference is stranded; a
manager is added at most once for each time it was handed over, and with the operation requested then,
which is in its mask if it is registered; and no reference dangles. -/
structure Sound (backend : Backend) (s : State) : Prop where
  counted : Counted backend s
  once : ∀ mgr op, served s mgr op ≤ s.handed.count (mgr, op)
  requested : ∀ r ∈ s.registrations, r.registered = true → r.mask &&& r.op = r.op
  defined : s.dangling = false

/-! ### The thread of the multiplexer -/

/-- What only concerns the managers. -/
structure Inner (s s' : State) : Prop where
  held : s'.held = s.held
  calls : s'.calls = s.calls
  pipe : s'.pipe = s.pipe
  handed : s'.handed = s.handed
  registrations : s'.registrations = s.registrations
  dangling : s'.dangling = s.dangling

variable {backend : Backend} {s s' s'' : State} {mgr : Manager} {op : Operation}

theorem Inner.refl : Inner s s := ⟨rfl, rfl, rfl, rfl, rfl, rfl⟩

theorem Inner.trans (h : Inner s s') (h' : Inner s' s'') : Inner s s'' :=
  ⟨h'.held.trans h.held, h'.calls.trans h.calls, h'.pipe.trans h.pipe, h'.handed.trans h.handed,
    h'.registrations.trans h.registrations, h'.dangling.trans h.dangling⟩

theorem Inner.inFlight (h : Inner s s') (mgr : Manager) : inFlight s' mgr = inFlight s mgr := by
  unfold Ownership.inFlight
  rw [h.pipe, h.calls]

theorem Inner.served (h : Inner s s') (mgr : Manager) (op : Operation) :
    served s' mgr op = served s mgr op := by
  unfold Ownership.served
  rw [h.pipe, h.calls, h.registrations]

theorem Inner.pointers (h : Inner s s') (backend : Backend) (mgr : Manager) :
    pointers backend s' mgr + s.managers.elems.count mgr =
      pointers backend s mgr + s'.managers.elems.count mgr := by
  unfold Ownership.pointers
  rw [h.held, h.calls]
  omega

/-- A change of the managers by which as many references are given up as pointers are destroyed. -/
theorem Inner.counted (h : Inner s s') (hs : Counted backend s)
    (hmgr : ∀ mgr, s'.refCount mgr + s.managers.elems.count mgr =
      s.refCount mgr + s'.managers.elems.count mgr) : Counted backend s' := by
  intro mgr
  have hpointers := h.pointers backend mgr
  have hcount := hmgr mgr
  rw [hs mgr] at hcount
  rw [h.inFlight]
  omega

theorem erase_inner (s : State) (mgr : Manager) : Inner s (s.erase mgr) := by
  unfold State.erase
  split_ifs
  · exact ⟨rfl, rfl, rfl, rfl, rfl, rfl⟩
  · exact Inner.refl

theorem erase_counted (hs : Counted backend s) (mgr : Manager) : Counted backend (s.erase mgr) := by
  refine (erase_inner s mgr).counted hs fun m => ?_
  unfold State.erase
  split_ifs with hmem
  · have hperm := (KeyedMap.perm_cons_erase hmem).count_eq m
    rw [List.count_cons] at hperm
    have hcount := hs m
    unfold pointers at hcount
    dsimp only [State.deref]
    by_cases hm : m = mgr
    · subst hm
      rw [Function.update_self]
      simp only [BEq.rfl, ↓reduceIte] at hperm
      omega
    · rw [Function.update_of_ne hm]
      simp only [beq_iff_eq, Ne.symm hm, ↓reduceIte] at hperm
      omega
  · rfl

theorem maskSet_inner (s : State) (mgr : Manager) (mask : Operation) : Inner s (s.maskSet mgr mask) :=
  ⟨rfl, rfl, rfl, rfl, rfl, rfl⟩

/-- What `shutdown` leaves of a mask. -/
def withoutReads (mask : Operation) : Operation := mask &&& ~~~Operation.readAccept

theorem visit_eq (s : State) (mgr : Manager) :
    s.visit mgr =
      if withoutReads (s.mask mgr) = Operation.none then
        (s.maskSet mgr (withoutReads (s.mask mgr))).erase mgr
      else s.maskSet mgr (withoutReads (s.mask mgr)) := by
  have hset : (s.maskSet mgr (withoutReads (s.mask mgr))).mask mgr = withoutReads (s.mask mgr) :=
    Function.update_self ..
  cases hdel : maskDel (s.mask mgr) Operation.readAccept with
  | none =>
    have hsame : withoutReads (s.mask mgr) = s.mask mgr := mask_of_maskDel_none hdel
    have hid : s.maskSet mgr (s.mask mgr) = s := by
      unfold State.maskSet
      rw [Function.update_eq_self]
    unfold State.visit
    rw [hdel, hsame, hid]
  | some mask =>
    have hmask : mask = withoutReads (s.mask mgr) := mask_of_maskDel_some hdel
    unfold State.visit
    rw [hdel, hmask]
    dsimp only
    rw [hset]

theorem visit_inner (s : State) (mgr : Manager) : Inner s (s.visit mgr) := by
  rw [visit_eq]
  split_ifs
  · exact (maskSet_inner s mgr _).trans (erase_inner _ mgr)
  · exact maskSet_inner s mgr _

theorem visit_counted (hs : Counted backend s) (mgr : Manager) : Counted backend (s.visit mgr) := by
  rw [visit_eq]
  split_ifs
  · exact erase_counted (s := s.maskSet mgr _) hs mgr
  · exact hs

theorem visit_mask (s : State) (mgr : Manager) :
    (s.visit mgr).mask = Function.update s.mask mgr (withoutReads (s.mask mgr)) := by
  rw [visit_eq]
  unfold State.erase
  split_ifs <;> rfl

theorem mem_erase_managers {m : Manager} :
    m ∈ (s.erase mgr).managers.elems ↔ m ∈ s.managers.elems ∧ m ≠ mgr := by
  unfold State.erase
  split_ifs with hmgr
  · change m ∈ (s.managers.erase mgr.handle).elems ↔ _
    rw [KeyedMap.mem_erase]
    refine and_congr_right fun hm => not_congr ⟨fun h => ?_, fun h => congrArg _ h⟩
    exact List.inj_on_of_nodup_map s.managers.nodup hm hmgr h
  · exact ⟨fun hm => ⟨hm, fun h => hmgr (h ▸ hm)⟩, And.left⟩

theorem mem_visit {m : Manager} :
    m ∈ (s.visit mgr).managers.elems ↔
      m ∈ s.managers.elems ∧ (m = mgr → withoutReads (s.mask m) ≠ Operation.none) := by
  rw [visit_eq]
  split_ifs with hnone
  · rw [mem_erase_managers]
    refine and_congr_right fun _ => ⟨fun h hm => absurd hm h, fun h hm => ?_⟩
    exact h hm (hm ▸ hnone)
  · exact ⟨fun hm => ⟨hm, fun h => h ▸ hnone⟩, And.left⟩

theorem visits_inner (l : List Manager) (s : State) : Inner s (l.foldl State.visit s) := by
  induction l generalizing s with
  | nil => exact Inner.refl
  | cons mgr l ih => exact (visit_inner s mgr).trans (ih (s.visit mgr))

theorem visits_counted (l : List Manager) (hs : Counted backend s) :
    Counted backend (l.foldl State.visit s) := by
  induction l generalizing s with
  | nil => exact hs
  | cons mgr l ih => exact ih (visit_counted hs mgr)

/-- What the visits of different managers leave of one of them. -/
theorem visits_manager {l : List Manager} (hl : l.Nodup) (s : State) (m : Manager) :
    (l.foldl State.visit s).mask m = (if m ∈ l then withoutReads (s.mask m) else s.mask m) ∧
      (m ∈ (l.foldl State.visit s).managers.elems ↔
        m ∈ s.managers.elems ∧ (m ∈ l → withoutReads (s.mask m) ≠ Operation.none)) := by
  induction l generalizing s with
  | nil => exact ⟨rfl, by simp⟩
  | cons mgr l ih =>
    obtain ⟨hmgr, hl⟩ := List.nodup_cons.mp hl
    obtain ⟨hmask, hmem⟩ := ih hl (s.visit mgr)
    rw [List.foldl_cons, hmask, hmem, mem_visit, visit_mask]
    by_cases hm : m = mgr
    · subst hm
      simp [hmgr]
    · simp [hm]

theorem shutdown_inner (s : State) : Inner s s.shutdown := by
  have h := visits_inner s.managers.elems { s with shuttingDown := true }
  exact ⟨h.held, h.calls, h.pipe, h.handed, h.registrations, h.dangling⟩

/-- **`shutdown` keeps the count.** -/
theorem shutdown_counted (hs : Counted backend s) : Counted backend s.shutdown := by
  have h := visits_counted (s := { s with shuttingDown := true }) s.managers.elems hs
  exact h

theorem shutdown_manager (s : State) {mgr : Manager} (hmgr : mgr ∈ s.managers.elems) :
    s.shutdown.mask mgr = withoutReads (s.mask mgr) ∧
      (mgr ∈ s.shutdown.managers.elems ↔ withoutReads (s.mask mgr) ≠ Operation.none) := by
  have hnodup : s.managers.elems.Nodup := List.Nodup.of_map Manager.handle s.managers.nodup
  obtain ⟨hmask, hmem⟩ := visits_manager hnodup { s with shuttingDown := true } mgr
  rw [if_pos hmgr] at hmask
  refine ⟨hmask, hmem.trans ?_⟩
  rw [and_iff_right hmgr]
  exact forall_prop_of_true hmgr

/-- The references are counted, but for one pointer to the manager that a function has taken over. -/
def CountedWith (backend : Backend) (s : State) (mgr : Manager) : Prop :=
  ∀ m, s.refCount m = pointers backend s m + inFlight s m + if m = mgr then 1 else 0

theorem emplace_inner (s : State) (mgr : Manager) : Inner s (s.emplace mgr) := by
  unfold State.emplace
  split_ifs <;> exact ⟨rfl, rfl, rfl, rfl, rfl, rfl⟩

/-- **`multiplexer_base::add` keeps the count**: the pointer is in the map, or destroyed. -/
theorem emplace_counted (hs : CountedWith backend s mgr) : Counted backend (s.emplace mgr) := by
  intro m
  have hpointers := (emplace_inner s mgr).pointers backend m
  have hcount := hs m
  rw [(emplace_inner s mgr).inFlight]
  unfold State.emplace at *
  split_ifs at * with htaken hm hm
  · subst hm
    dsimp only [State.deref] at *
    rw [Function.update_self]
    omega
  · dsimp only [State.deref] at *
    rw [Function.update_of_ne hm]
    omega
  · subst hm
    dsimp only at *
    rw [KeyedMap.elems_emplace htaken, List.count_cons_self] at hpointers
    omega
  · dsimp only at *
    rw [KeyedMap.elems_emplace htaken, List.count_cons_of_ne (Ne.symm hm)] at hpointers
    omega

theorem init_inner (s : State) (mgr : Manager) (answers : State.Answers) :
    Inner s (s.init mgr answers) := by
  have hset := maskSet_inner s mgr (s.mask mgr ||| answers.waits)
  unfold State.init
  dsimp only
  split_ifs
  · exact hset.trans (shutdown_inner _)
  · exact hset

theorem init_counted (hs : Counted backend s) (mgr : Manager) (answers : State.Answers) :
    Counted backend (s.init mgr answers) := by
  unfold State.init
  dsimp only
  split_ifs
  · exact shutdown_counted (s := s.maskSet mgr _) hs
  · exact hs

/-! ### `add` on the thread of the multiplexer -/

/-- The state after an `add` differs from the one before it by the registration and in what concerns
the managers. -/
structure Adds (s s' : State) (r : Registration) : Prop where
  held : s'.held = s.held
  calls : s'.calls = s.calls
  pipe : s'.pipe = s.pipe
  handed : s'.handed = s.handed
  registrations : s'.registrations = s.registrations ++ [r]

/-- What the two forms of `add` have in common. -/
theorem register_counted (hs : CountedWith backend s mgr) (answers : State.Answers) :
    Counted backend ((s.emplace mgr).init ((s.emplace mgr).addedMgr mgr) answers) ∧
      Inner s ((s.emplace mgr).init ((s.emplace mgr).addedMgr mgr) answers) :=
  ⟨init_counted (emplace_counted hs) _ answers, (emplace_inner s mgr).trans (init_inner _ _ answers)⟩

theorem addKqueue_adds (hs : CountedWith backend s mgr) (op : Operation) (answers : State.Answers) :
    Counted backend (s.addKqueue mgr op answers) ∧
      (s.addKqueue mgr op answers).dangling = s.dangling ∧
      ∃ mask, mask &&& op = op ∧
        Adds s (s.addKqueue mgr op answers) ⟨mgr, op, s.registers mgr, mask⟩ := by
  unfold State.addKqueue
  dsimp only
  cases ha : maskAdd (s.mask mgr) op with
  | none =>
    dsimp only
    obtain ⟨hcounted, hinner⟩ := register_counted (s := { s with
      registrations := s.registrations ++ [⟨mgr, op, s.registers mgr, s.mask mgr⟩] }) hs answers
    exact ⟨hcounted, hinner.dangling, _, maskAdd_none ha,
      hinner.held, hinner.calls, hinner.pipe, hinner.handed, hinner.registrations⟩
  | some new =>
    dsimp only
    obtain ⟨hcounted, hinner⟩ := register_counted (s := { s.maskSet mgr new with
      registrations := s.registrations ++
        [⟨mgr, op, s.registers mgr, (s.maskSet mgr new).mask mgr⟩] }) hs answers
    refine ⟨hcounted, hinner.dangling, _, ?_,
      hinner.held, hinner.calls, hinner.pipe, hinner.handed, hinner.registrations⟩
    rw [show (s.maskSet mgr new).mask mgr = new from Function.update_self ..]
    exact (maskAdd_some ha).2.1

/-- The state in which `uring_multiplexer::add` enables the manager on the socket. -/
def prepared (s : State) (mgr : Manager) (answers : State.Answers) : State :=
  (s.emplace mgr).init ((s.emplace mgr).addedMgr mgr) answers

/-- What `init` leaves of the mask of a manager: where it fails, the multiplexer shuts down. -/
def initMask (mask : Operation) (answers : State.Answers) : Operation :=
  if answers.fails then withoutReads (mask ||| answers.waits) else mask ||| answers.waits

/-- Where `init` fails, the manager on the socket waits for something else than to read, and so is
kept; and one that is registered by the `add` accepts the operation, or waits for it already. -/
def Accepted (s : State) (mgr : Manager) (op : Operation) (answers : State.Answers) : Prop :=
  (answers.fails = true → initMask (s.mask (s.addedMgr mgr)) answers ≠ Operation.none) ∧
    (s.registers mgr = true → answers.accepts = true ∨ initMask (s.mask mgr) answers &&& op = op)

/-- A manager on a socket of its own is the one that `add` goes on with. -/
theorem addedMgr_registers (h : s.registers mgr = true) : s.addedMgr mgr = mgr := by
  have hfree : mgr.handle ∉ s.managers.elems.map Manager.handle := of_decide_eq_true h
  unfold State.addedMgr
  cases hfind : s.managers.find? mgr.handle with
  | none => rfl
  | some m =>
    obtain ⟨hm, hhandle⟩ := KeyedMap.find?_eq_some.mp hfind
    exact absurd (List.mem_map.mpr ⟨m, hm, hhandle⟩) hfree

theorem addedMgr_emplace (s : State) (mgr : Manager) :
    (s.emplace mgr).addedMgr mgr = s.addedMgr mgr ∧
      s.addedMgr mgr ∈ (s.emplace mgr).managers.elems := by
  by_cases htaken : mgr.handle ∈ s.managers.elems.map Manager.handle
  · obtain ⟨m, hm, hhandle⟩ := List.mem_map.mp htaken
    have hfind : s.managers.find? mgr.handle = some m := KeyedMap.find?_eq_some.mpr ⟨hm, hhandle⟩
    unfold State.addedMgr State.emplace
    rw [if_pos htaken]
    dsimp only [State.deref]
    rw [hfind]
    exact ⟨rfl, hm⟩
  · have hmem : mgr ∈ (s.managers.emplace mgr).elems := KeyedMap.mem_emplace.mpr (Or.inr ⟨rfl, htaken⟩)
    have hfind : (s.managers.emplace mgr).find? mgr.handle = some mgr :=
      KeyedMap.find?_eq_some.mpr ⟨hmem, rfl⟩
    rw [addedMgr_registers (decide_eq_true htaken)]
    unfold State.addedMgr State.emplace
    rw [if_neg htaken, hfind]
    exact ⟨rfl, hmem⟩

theorem emplace_mask (s : State) (mgr : Manager) : (s.emplace mgr).mask = s.mask := by
  unfold State.emplace
  split_ifs <;> rfl

/-- What `init` leaves of the manager on the socket. -/
theorem prepared_manager (s : State) (mgr : Manager) (answers : State.Answers) :
    (prepared s mgr answers).mask (s.addedMgr mgr) = initMask (s.mask (s.addedMgr mgr)) answers ∧
      (s.addedMgr mgr ∈ (prepared s mgr answers).managers.elems ↔
        (answers.fails = true → initMask (s.mask (s.addedMgr mgr)) answers ≠ Operation.none)) := by
  obtain ⟨hadded, hmem⟩ := addedMgr_emplace s mgr
  unfold prepared State.init initMask
  rw [hadded, emplace_mask]
  dsimp only
  generalize s.addedMgr mgr = added at hmem
  have hset : ((s.emplace mgr).maskSet added (s.mask added ||| answers.waits)).mask added =
      s.mask added ||| answers.waits := Function.update_self ..
  cases answers.fails with
  | false => exact ⟨hset, iff_of_true hmem fun h => absurd h Bool.false_ne_true⟩
  | true =>
    obtain ⟨hmask, hkept⟩ :=
      shutdown_manager ((s.emplace mgr).maskSet added (s.mask added ||| answers.waits)) hmem
    rw [hset] at hmask hkept
    exact ⟨hmask, hkept.trans ⟨fun h _ => h, fun h => h rfl⟩⟩

theorem enableUring_inner (s : State) (mgr : Manager) (op : Operation) (accepts : Bool) :
    Inner s (s.enableUring mgr op accepts) ∧
      (s.enableUring mgr op accepts).refCount = s.refCount ∧
      (s.enableUring mgr op accepts).managers = s.managers := by
  unfold State.enableUring
  cases maskAdd (s.mask mgr) op with
  | none => exact ⟨Inner.refl, rfl, rfl⟩
  | some new =>
    dsimp only
    split_ifs
    · exact ⟨maskSet_inner s mgr new, rfl, rfl⟩
    · cases maskDel ((s.maskSet mgr new).mask mgr) op with
      | none => exact ⟨maskSet_inner s mgr new, rfl, rfl⟩
      | some old => exact ⟨(maskSet_inner s mgr new).trans (maskSet_inner _ mgr old), rfl, rfl⟩

/-- The operation is taken away from a mask that it is not in. -/
theorem maskDel_contains {mask new : Operation} (h : maskAdd mask op = some new) :
    (maskDel new op).getD new &&& op ≠ op := by
  obtain ⟨rfl, hnew, hmask⟩ := maskAdd_some h
  intro hop
  -- an operation without a bit is in every mask
  have hne : op ≠ Operation.none := by
    rintro rfl
    exact hmask BitVec.and_zero
  unfold maskDel at hop
  rw [hnew, if_neg hne, Option.getD_some, BitVec.and_assoc, BitVec.not_and_self] at hop
  exact hne (hop.symm.trans BitVec.and_zero)

theorem enableUring_mask (s : State) (mgr : Manager) (op : Operation) (accepts : Bool) :
    (s.enableUring mgr op accepts).mask mgr &&& op = op ↔
      accepts = true ∨ s.mask mgr &&& op = op := by
  unfold State.enableUring
  cases ha : maskAdd (s.mask mgr) op with
  | none => exact iff_of_true (maskAdd_none ha) (Or.inr (maskAdd_none ha))
  | some new =>
    obtain ⟨-, hnew, hold⟩ := maskAdd_some ha
    have hcontains := maskDel_contains ha
    have hset : (s.maskSet mgr new).mask mgr = new := Function.update_self ..
    dsimp only
    cases accepts with
    | true =>
      refine iff_of_true ?_ (Or.inl rfl)
      rw [if_pos rfl, hset]
      exact hnew
    | false =>
      rw [if_neg Bool.false_ne_true, hset]
      refine iff_of_false ?_ (fun h => h.elim Bool.false_ne_true hold)
      cases hd : maskDel new op with
      | none =>
        rw [hd] at hcontains
        dsimp only
        rw [hset]
        exact hcontains
      | some old =>
        rw [hd] at hcontains
        dsimp only
        rw [show ((s.maskSet mgr new).maskSet mgr old).mask mgr = old from Function.update_self ..]
        exact hcontains

theorem addUring_adds (hs : CountedWith backend s mgr) (hd : s.dangling = false) (op : Operation)
    (answers : State.Answers) :
    Counted backend (s.addUring mgr op answers) ∧
      ∃ r, r.mgr = mgr ∧ r.op = op ∧ Adds s (s.addUring mgr op answers) r ∧
        ((s.addUring mgr op answers).dangling = false ∧
          (r.registered = true → r.mask &&& r.op = r.op) ↔ Accepted s mgr op answers) := by
  obtain ⟨hcounted, hinner⟩ := register_counted hs answers
  obtain ⟨hmask, hkept⟩ := prepared_manager s mgr answers
  unfold State.addUring Accepted
  dsimp only
  rw [show (s.emplace mgr).init ((s.emplace mgr).addedMgr mgr) answers = prepared s mgr answers from rfl]
    at hcounted hinner ⊢
  rw [(addedMgr_emplace s mgr).1, ← hkept]
  split_ifs with hmem
  · obtain ⟨henable, hrefs, hman⟩ :=
      enableUring_inner (prepared s mgr answers) (s.addedMgr mgr) op answers.accepts
    have hall := hinner.trans henable
    have hcount : Counted backend
        ((prepared s mgr answers).enableUring (s.addedMgr mgr) op answers.accepts) :=
      henable.counted hcounted fun m => by rw [hrefs, hman]
    refine ⟨hcount, ⟨mgr, op, s.registers mgr,
      ((prepared s mgr answers).enableUring (s.addedMgr mgr) op answers.accepts).mask mgr⟩, rfl, rfl,
      ⟨hall.held, hall.calls, hall.pipe, hall.handed, ?_⟩, ?_⟩
    · exact congrArg (· ++ _) hall.registrations
    · rw [and_iff_right (hall.dangling.trans hd), and_iff_right hmem]
      refine forall_congr' fun hregisters => ?_
      rw [addedMgr_registers hregisters] at hmask ⊢
      rw [← hmask]
      exact enableUring_mask _ _ op answers.accepts
  · refine ⟨hcounted, ⟨mgr, op, s.registers mgr, (prepared s mgr answers).mask mgr⟩, rfl, rfl,
      ⟨hinner.held, hinner.calls, hinner.pipe, hinner.handed, ?_⟩, ?_⟩
    · exact congrArg (· ++ _) hinner.registrations
    · exact iff_of_false (fun h => by cases h.1) fun h => hmem h.1

/-! ### The reads of the updater -/

/-- No message of an `add` is in the pipe. -/
def NoAdds (pipe : List Message) : Prop := ∀ mgr op, Message.add mgr op ∉ pipe

theorem noAdds_iff {pipe : List Message} :
    NoAdds pipe ↔ ∀ mgr, pipe.countP (messageOwns mgr) = 0 := by
  constructor
  · intro h mgr
    refine List.countP_eq_zero.mpr fun msg hmsg => ?_
    cases msg with
    | add m op => exact absurd hmsg (h m op)
    | shutdown => exact Bool.false_ne_true
  · intro h mgr op hmsg
    have hnot := List.countP_eq_zero.mp (h mgr) _ hmsg
    simp [messageOwns] at hnot

/-- **When the updater leaves**, the references of the messages left in the pipe are lost. -/
theorem leave_counted_iff (hs : Counted backend s) : Counted backend s.leave ↔ NoAdds s.pipe := by
  rw [noAdds_iff]
  refine forall_congr' fun mgr => ?_
  have hcount := hs mgr
  have hpointers : pointers backend s.leave mgr = pointers backend s mgr := rfl
  have hleave : inFlight s.leave mgr = s.calls.countP (callOwns mgr) := Nat.zero_add _
  rw [hpointers, hleave, show s.leave.refCount = s.refCount from rfl]
  unfold inFlight at hcount
  omega

theorem Inner.sound (h : Inner s s') (hs : Sound backend s) (hcounted : Counted backend s') :
    Sound backend s' where
  counted := hcounted
  once mgr op := by
    rw [h.served, h.handed]
    exact hs.once mgr op
  requested := by
    rw [h.registrations]
    exact hs.requested
  defined := h.dangling.trans hs.defined

theorem leave_sound_iff (hs : Sound backend s) : Sound backend s.leave ↔ NoAdds s.pipe := by
  rw [← leave_counted_iff hs.counted]
  refine ⟨Sound.counted, fun hcounted => ⟨hcounted, fun mgr op => ?_, hs.requested, hs.defined⟩⟩
  refine le_trans ?_ (hs.once mgr op)
  unfold served
  have hpipe : s.leave.pipe.countP (messageCarries mgr op) = 0 := rfl
  rw [hpipe]
  change 0 + s.calls.countP _ + s.registrations.countP _ ≤ _
  omega

theorem shutdown_sound (hs : Sound backend s) : Sound backend s.shutdown :=
  (shutdown_inner s).sound hs (shutdown_counted hs.counted)

/-- The calls and the messages of `shutdown` own nothing. -/
theorem Sound.unowned (hs : Sound backend s) {calls : List Call} {pipe : List Message}
    (hcalls : ∀ p : Call → Bool, p .shuttingDown = false → calls.countP p = s.calls.countP p)
    (hpipe : ∀ p : Message → Bool, p .shutdown = false → pipe.countP p = s.pipe.countP p)
    (terminated : Bool) :
    Sound backend { s with calls := calls, pipe := pipe, terminated := terminated } where
  counted mgr := by
    have hcount := hs.counted mgr
    unfold pointers inFlight at hcount ⊢
    dsimp only
    rw [hcalls _ rfl, hcalls _ rfl, hpipe _ rfl]
    exact hcount
  once mgr op := by
    have honce := hs.once mgr op
    unfold served at honce ⊢
    dsimp only
    rw [hcalls _ rfl, hpipe _ rfl]
    exact honce
  requested := hs.requested
  defined := hs.defined

section Read

variable {pipe : List Message}

theorem pop_shutdown (hs : Sound backend s) (hpipe : s.pipe = .shutdown :: pipe) :
    Sound backend { s with pipe := pipe } := by
  refine hs.unowned (fun _ _ => rfl) (fun p hp => ?_) s.terminated
  rw [hpipe, List.countP_cons_of_neg (ne_true_of_eq_false hp)]

/-- The updater takes the reference of a message over. -/
theorem pop_add (hs : Counted backend s) (hpipe : s.pipe = .add mgr op :: pipe) :
    CountedWith backend { s with pipe := pipe } mgr := by
  intro m
  have hcount := hs m
  unfold inFlight at hcount ⊢
  rw [hpipe, List.countP_cons] at hcount
  simp only [messageOwns, decide_eq_true_eq, eq_comm (a := mgr)] at hcount
  rw [hcount]
  dsimp only [pointers]
  omega

/-- An `add` for the message that was read. -/
theorem Adds.sound_iff {r : Registration} (hs : Sound backend s) (hpipe : s.pipe = .add mgr op :: pipe)
    (h : Adds { s with pipe := pipe } s' r) (hmgr : r.mgr = mgr) (hop : r.op = op)
    (hcounted : Counted backend s') : Sound backend s' ↔
      s'.dangling = false ∧ (r.registered = true → r.mask &&& r.op = r.op) := by
  constructor
  · intro hs'
    refine ⟨hs'.defined, hs'.requested r ?_⟩
    rw [h.registrations]
    exact List.mem_append_right _ (List.mem_singleton_self r)
  · rintro ⟨hd, hr⟩
    refine ⟨hcounted, fun m o => ?_, fun r' hr' => ?_, hd⟩
    · have honce := hs.once m o
      unfold served at honce ⊢
      rw [h.pipe, h.calls, h.registrations, h.handed]
      dsimp only
      rw [hpipe, List.countP_cons] at honce
      rw [List.countP_append, List.countP_singleton, hmgr, hop]
      simp only [messageCarries, Bool.and_eq_true, decide_eq_true_eq] at honce ⊢
      omega
    · rw [h.registrations] at hr'
      rcases List.mem_append.mp hr' with hr' | hr'
      · exact hs.requested r' hr'
      · rw [List.mem_singleton.mp hr']
        exact hr

/-- Under io_uring the updater leaves if its next read cannot be submitted. -/
theorem resubmit_sound_iff {r : Registration} (h : Adds { s with pipe := pipe } s' r)
    (hsound : Sound backend s' ↔
      s'.dangling = false ∧ (r.registered = true → r.mask &&& r.op = r.op))
    (resubmits : Bool) :
    Sound backend (if s'.dangling || resubmits then s' else s'.leave) ↔
      (s'.dangling = false ∧ (r.registered = true → r.mask &&& r.op = r.op)) ∧
        (resubmits = true ∨ NoAdds pipe) := by
  cases resubmits with
  | true =>
    rw [Bool.or_true, if_pos rfl, hsound]
    exact (and_iff_left (Or.inl rfl)).symm
  | false =>
    rw [Bool.or_false]
    by_cases hd : s'.dangling = true
    · rw [if_pos hd]
      exact iff_of_false (fun ht => by rw [ht.defined] at hd; cases hd)
        fun hall => by rw [hall.1.1] at hd; cases hd
    · rw [if_neg hd]
      constructor
      · intro hleave
        have hr : r.registered = true → r.mask &&& r.op = r.op := by
          refine hleave.requested r ?_
          rw [show s'.leave.registrations = s'.registrations from rfl, h.registrations]
          exact List.mem_append_right _ (List.mem_singleton_self r)
        have hkept := And.intro (Bool.eq_false_of_not_eq_true hd) hr
        have hnone := (leave_sound_iff (hsound.mpr hkept)).mp hleave
        rw [h.pipe] at hnone
        exact ⟨hkept, Or.inr hnone⟩
      · rintro ⟨hkept, hnone⟩
        refine (leave_sound_iff (hsound.mpr hkept)).mpr ?_
        rw [h.pipe]
        exact hnone.resolve_left Bool.false_ne_true

/-- **The condition on a read**: when the updater leaves, no message of an `add` is left in the
pipe, and io_uring can enable the manager. -/
def ReadKeeps (backend : Backend) (answers : State.Answers) (s : State) : Prop :=
  match s.pipe with
  | [] => True
  | .shutdown :: pipe => NoAdds pipe
  | .add mgr op :: pipe =>
    match backend with
    | .kqueue => True
    | .uring =>
      Accepted { s with pipe := pipe } mgr op answers ∧ (answers.resubmits = true ∨ NoAdds pipe)

theorem read_sound_iff (hs : Sound backend s) (hup : s.updater = true) (answers : State.Answers) :
    Sound backend (s.read backend answers) ↔ ReadKeeps backend answers s := by
  unfold State.read ReadKeeps
  rw [if_pos hup]
  cases hpipe : s.pipe with
  | nil =>
    dsimp only
    refine iff_of_true ?_ trivial
    split_ifs
    · exact hs
    · refine (leave_sound_iff hs).mpr ?_
      rw [hpipe]
      exact fun _ _ => List.not_mem_nil
  | cons msg pipe =>
    cases msg with
    | shutdown =>
      dsimp only
      rw [leave_sound_iff (shutdown_sound (pop_shutdown hs hpipe)), (shutdown_inner _).pipe]
    | add mgr op =>
      have hwith := pop_add hs.counted hpipe
      cases backend with
      | kqueue =>
        dsimp only
        refine iff_of_true ?_ trivial
        obtain ⟨hcounted, hd, mask, hmask, hadds⟩ := addKqueue_adds hwith op answers
        exact (hadds.sound_iff hs hpipe rfl rfl hcounted).mpr ⟨hd.trans hs.defined, fun _ => hmask⟩
      | uring =>
        dsimp only
        obtain ⟨hcounted, r, hmgr, hop, hadds, haccepted⟩ := addUring_adds hwith hs.defined op answers
        rw [← haccepted]
        have hsound := hadds.sound_iff hs hpipe hmgr hop hcounted
        exact resubmit_sound_iff hadds hsound answers.resubmits

end Read

/-! ### The calls of other threads -/

/-- What the calls in progress own, with one of them set apart. -/
theorem countP_erase {call : Call} (h : call ∈ s.calls) (p : Call → Bool) :
    s.calls.countP p = (s.calls.erase call).countP p + if p call then 1 else 0 := by
  rw [(List.perm_cons_erase h).countP_eq p, List.countP_cons]

theorem count_erase_held (h : mgr ∈ s.held) (m : Manager) :
    s.held.count m = (s.held.erase mgr).count m + if m = mgr then 1 else 0 := by
  rw [(List.perm_cons_erase h).count_eq m, List.count_cons]
  simp only [beq_iff_eq, eq_comm (a := mgr)]

theorem ref_refCount (s : State) (mgr m : Manager) :
    (s.ref mgr).refCount m = s.refCount m + if m = mgr then 1 else 0 := by
  dsimp only [State.ref]
  by_cases hm : m = mgr
  · subst hm
    rw [Function.update_self, if_pos rfl]
  · rw [Function.update_of_ne hm, if_neg hm, Nat.add_zero]

theorem deref_refCount (s : State) (mgr m : Manager) :
    (s.deref mgr).refCount m = s.refCount m - if m = mgr then 1 else 0 := by
  dsimp only [State.deref]
  by_cases hm : m = mgr
  · subst hm
    rw [Function.update_self, if_pos rfl]
  · rw [Function.update_of_ne hm, if_neg hm, Nat.sub_zero]

/-- `add` hands a manager over: one more request, and one more on its way. -/
theorem handed_once (h : ∀ m o, served s m o ≤ s.handed.count (m, o)) (m : Manager) (o : Operation) :
    s.pipe.countP (messageCarries m o) + (.adding mgr op :: s.calls).countP (callCarries m o) +
        s.registrations.countP (fun r => r.mgr = m ∧ r.op = o) ≤
      (s.handed ++ [(mgr, op)]).count (m, o) := by
  have honce := h m o
  unfold served at honce
  rw [List.countP_cons, List.count_append, List.count_singleton]
  simp only [callCarries, Bool.and_eq_true, decide_eq_true_eq, beq_iff_eq, Prod.mk.injEq]
  omega

theorem startAdd_sound (hs : Sound backend s) (mgr : Manager) (op : Operation) :
    Sound backend (s.startAdd backend mgr op) := by
  unfold State.startAdd
  split_ifs with hheld
  · cases backend with
    | kqueue =>
      refine ⟨fun m => ?_, fun m o => handed_once hs.once m o, hs.requested, hs.defined⟩
      have hcount := hs.counted m
      have herase := count_erase_held hheld m
      dsimp only
      rw [ref_refCount]
      unfold pointers inFlight at hcount ⊢
      dsimp only [State.ref] at hcount ⊢
      rw [List.countP_cons, List.countP_cons]
      simp only [parameter, callOwns, decide_true, Bool.true_and, decide_eq_true_eq, eq_comm (a := mgr)]
      omega
    | uring =>
      refine ⟨fun m => ?_, fun m o => handed_once hs.once m o, hs.requested, hs.defined⟩
      have hcount := hs.counted m
      have herase := count_erase_held hheld m
      unfold pointers inFlight at hcount ⊢
      dsimp only at hcount ⊢
      rw [List.countP_cons, List.countP_cons]
      simp only [parameter, callOwns, decide_eq_true_eq, eq_comm (a := mgr), reduceCtorEq, decide_false,
        Bool.false_and, Bool.false_eq_true, ↓reduceIte]
      omega
  · exact hs

theorem startShutdown_sound (hs : Sound backend s) : Sound backend s.startShutdown := by
  unfold State.startShutdown
  split_ifs
  · exact hs
  · refine hs.unowned (fun p hp => ?_) (fun _ _ => rfl) s.terminated
    exact List.countP_cons_of_neg (ne_true_of_eq_false hp)

theorem returnFrom_sound (hs : Sound backend s) (mgr : Manager) :
    Sound backend (s.returnFrom backend mgr) := by
  unfold State.returnFrom
  split_ifs with hcall
  · have honce : ∀ m o, s.pipe.countP (messageCarries m o) +
        (s.calls.erase (.added mgr)).countP (callCarries m o) +
        s.registrations.countP (fun r => r.mgr = m ∧ r.op = o) ≤ s.handed.count (m, o) := by
      intro m o
      have honce := hs.once m o
      unfold served at honce
      rw [countP_erase hcall] at honce
      omega
    cases backend with
    | kqueue =>
      refine ⟨fun m => ?_, honce, hs.requested, hs.defined⟩
      have hcount := hs.counted m
      dsimp only
      rw [deref_refCount]
      unfold pointers inFlight at hcount ⊢
      rw [countP_erase hcall, countP_erase hcall] at hcount
      simp only [parameter, callOwns, decide_true, Bool.true_and, decide_eq_true_eq, eq_comm (a := mgr),
        Bool.false_eq_true, ↓reduceIte] at hcount
      dsimp only [State.deref]
      omega
    | uring =>
      refine ⟨fun m => ?_, honce, hs.requested, hs.defined⟩
      have hcount := hs.counted m
      unfold pointers inFlight at hcount ⊢
      rw [countP_erase hcall, countP_erase hcall] at hcount
      simp only [parameter, callOwns, reduceCtorEq, decide_false, Bool.false_and, Bool.false_eq_true,
        ↓reduceIte] at hcount
      exact hcount
  · exact hs

/-- The condition on a write: a message of an `add` is written. -/
def WriteKeeps (call : Call) (ok : Bool) (s : State) : Prop :=
  match call with
  | .adding mgr op => Call.adding mgr op ∈ s.calls → s.writes ok = true
  | .added _ => True
  | .shuttingDown => True

/-- The manager is on its way in the call, or in the pipe. -/
theorem written_once {pipe : List Message} (h : ∀ m o, served s m o ≤ s.handed.count (m, o))
    (hcall : .adding mgr op ∈ s.calls) (hpipe : ∀ m o, pipe.countP (messageCarries m o) ≤
      s.pipe.countP (messageCarries m o) + if mgr = m ∧ op = o then 1 else 0)
    (m : Manager) (o : Operation) :
    pipe.countP (messageCarries m o) +
        (.added mgr :: s.calls.erase (.adding mgr op)).countP (callCarries m o) +
        s.registrations.countP (fun r => r.mgr = m ∧ r.op = o) ≤ s.handed.count (m, o) := by
  have honce := h m o
  have hle := hpipe m o
  unfold served at honce
  rw [countP_erase hcall] at honce
  rw [List.countP_cons_of_neg Bool.false_ne_true]
  simp only [callCarries, Bool.and_eq_true, decide_eq_true_eq] at honce
  omega

/-- **The write of an `add`**: its reference is with the message, or lost. -/
theorem writeAdd_sound_iff (hs : Sound backend s) (hcall : .adding mgr op ∈ s.calls) (ok : Bool) :
    Sound backend (s.writeToPipe (.adding mgr op) ok) ↔ s.writes ok = true := by
  unfold State.writeToPipe
  rw [if_pos hcall]
  dsimp only
  have hparameter : ∀ m, (.added mgr :: s.calls.erase (.adding mgr op)).countP (parameter backend m) =
      s.calls.countP (parameter backend m) := by
    intro m
    rw [countP_erase hcall, List.countP_cons]
    rfl
  have howns : ∀ m, s.calls.countP (callOwns m) =
      (.added mgr :: s.calls.erase (.adding mgr op)).countP (callOwns m) + if m = mgr then 1 else 0 := by
    intro m
    rw [countP_erase hcall, List.countP_cons_of_neg Bool.false_ne_true]
    simp only [callOwns, decide_eq_true_eq, eq_comm (a := mgr)]
  cases hwrites : s.writes ok with
  | true =>
    refine iff_of_true ⟨fun m => ?_, written_once hs.once hcall fun m o => ?_, hs.requested, hs.defined⟩ rfl
    · have hcount := hs.counted m
      have hparam := hparameter m
      have howner := howns m
      unfold pointers inFlight at hcount ⊢
      dsimp only
      rw [if_pos rfl, List.countP_append, List.countP_singleton]
      simp only [messageOwns, decide_eq_true_eq, eq_comm (a := mgr)]
      omega
    · rw [if_pos rfl, List.countP_append, List.countP_singleton]
      simp only [messageCarries, Bool.and_eq_true, decide_eq_true_eq, le_refl]
  | false =>
    refine iff_of_false (fun hs' => ?_) Bool.false_ne_true
    have hcount := hs.counted mgr
    have hcount' := hs'.counted mgr
    have hparam := hparameter mgr
    have howner := howns mgr
    unfold pointers inFlight at hcount hcount'
    dsimp only at hcount'
    rw [if_neg Bool.false_ne_true] at hcount'
    rw [if_pos rfl] at howner
    omega

/-- A write of the message of a `shutdown` succeeds, or ends the program. -/
theorem writeShutdown_sound (hs : Sound backend s) (ok : Bool) :
    Sound backend (s.writeToPipe .shuttingDown ok) := by
  unfold State.writeToPipe
  by_cases hcall : .shuttingDown ∈ s.calls
  · rw [if_pos hcall]
    dsimp only
    have hcalls : ∀ p : Call → Bool, p .shuttingDown = false →
        (s.calls.erase .shuttingDown).countP p = s.calls.countP p := by
      intro p hp
      rw [countP_erase hcall, hp]
      rfl
    split_ifs
    · refine hs.unowned hcalls (fun p hp => ?_) s.terminated
      rw [List.countP_append, List.countP_singleton, hp]
      rfl
    · exact hs.unowned hcalls (fun _ _ => rfl) true
  · rw [if_neg hcall]
    exact hs

theorem writeToPipe_sound_iff (hs : Sound backend s) (call : Call) (ok : Bool) :
    Sound backend (s.writeToPipe call ok) ↔ WriteKeeps call ok s := by
  cases call with
  | adding mgr op =>
    unfold WriteKeeps
    dsimp only
    by_cases hcall : .adding mgr op ∈ s.calls
    · rw [writeAdd_sound_iff hs hcall]
      exact ⟨fun h _ => h, fun h => h hcall⟩
    · unfold State.writeToPipe
      rw [if_neg hcall]
      exact iff_of_true hs fun h => absurd h hcall
  | added mgr =>
    unfold State.writeToPipe
    split_ifs <;> exact iff_of_true hs trivial
  | shuttingDown => exact iff_of_true (writeShutdown_sound hs ok) trivial

/-! ### Steps and runs -/

theorem copy_sound (hs : Sound backend s) (mgr : Manager) :
    Sound backend ({ s with held := mgr :: s.held }.ref mgr) := by
  refine ⟨fun m => ?_, hs.once, hs.requested, hs.defined⟩
  have hcount := hs.counted m
  rw [ref_refCount]
  unfold pointers inFlight at hcount ⊢
  dsimp only [State.ref]
  rw [List.count_cons]
  simp only [beq_iff_eq, eq_comm (a := mgr)]
  omega

theorem drop_sound (hs : Sound backend s) (hheld : mgr ∈ s.held) :
    Sound backend ({ s with held := s.held.erase mgr }.deref mgr) := by
  refine ⟨fun m => ?_, hs.once, hs.requested, hs.defined⟩
  have hcount := hs.counted m
  have herase := count_erase_held hheld m
  rw [deref_refCount]
  unfold pointers inFlight at hcount ⊢
  dsimp only [State.deref]
  omega

/-- **The condition on a step**: a message of an `add` is written, and the updater takes it; the steps
of the multiplexer on its managers have none. -/
def Keeps (backend : Backend) (s : State) : Event → Prop
  | .write call ok => s.terminated = false → WriteKeeps call ok s
  | .read answers => s.terminated = false → s.updater = true → ReadKeeps backend answers s
  | .readFails => s.terminated = false → s.updater = true → NoAdds s.pipe
  | _ => True

/-- **Exactly when a step keeps the ownership sound.** -/
theorem step_sound_iff (hs : Sound backend s) (e : Event) :
    Sound backend (step backend s e) ↔ Keeps backend s e := by
  have hdefined : (s.terminated || s.dangling) = s.terminated := by rw [hs.defined, Bool.or_false]
  unfold step
  rw [hdefined]
  by_cases hterminated : s.terminated = true
  · rw [if_pos hterminated]
    refine iff_of_true hs ?_
    cases e <;> simp [Keeps, hterminated]
  · rw [if_neg hterminated]
    rw [Bool.not_eq_true] at hterminated
    cases e with
    | copy mgr =>
      refine iff_of_true ?_ trivial
      dsimp only
      split_ifs
      · exact copy_sound hs mgr
      · exact hs
    | drop mgr =>
      refine iff_of_true ?_ trivial
      dsimp only
      split_ifs with hheld
      · exact drop_sound hs hheld
      · exact hs
    | startAdd mgr op => exact iff_of_true (startAdd_sound hs mgr op) trivial
    | startShutdown => exact iff_of_true (startShutdown_sound hs) trivial
    | write call ok =>
      exact (writeToPipe_sound_iff hs call ok).trans ⟨fun h _ => h, fun h => h hterminated⟩
    | «return» mgr => exact iff_of_true (returnFrom_sound hs mgr) trivial
    | read answers =>
      by_cases hup : s.updater = true
      · exact (read_sound_iff hs hup answers).trans ⟨fun h _ _ => h, fun h => h hterminated hup⟩
      · dsimp only
        unfold State.read
        rw [if_neg hup]
        exact iff_of_true hs fun _ h => absurd h hup
    | readFails =>
      dsimp only
      split_ifs with hup
      · exact (leave_sound_iff hs).trans ⟨fun h _ _ => h, fun h => h hterminated hup⟩
      · exact iff_of_true hs fun _ h => absurd h hup
    | shutdown => exact iff_of_true (shutdown_sound hs) trivial
    | erase mgr =>
      exact iff_of_true ((erase_inner s mgr).sound hs (erase_counted hs.counted mgr)) trivial
    | maskSet mgr mask =>
      exact iff_of_true ((maskSet_inner s mgr mask).sound hs hs.counted) trivial

theorem start_sound (backend : Backend) (held : List Manager) : Sound backend (start held) where
  counted _ := rfl
  once _ _ := Nat.le_refl 0
  requested _ hr := absurd hr List.not_mem_nil
  defined := rfl

/-- **Exactly when a run keeps the ownership sound**, from any state in which it is. -/
theorem ownership_sound_iff (backend : Backend) (s : State) (hs : Sound backend s) (es : List Event) :
    Always (step backend) (Sound backend) s es ↔ Along (step backend) (Keeps backend) s es :=
  always_iff_along (D := fun _ _ => True) (fun _ e ht _ => step_sound_iff ht e) hs
    (along_of_forall (fun _ _ => trivial) s es)

/-- A manager is added through io_uring, and then the multiplexer shuts down. -/
theorem ownership_sound_added :
    Always (step .uring) (Sound .uring) (start [⟨0, 4⟩])
      [.startAdd ⟨0, 4⟩ Operation.read, .startShutdown, .write (.adding ⟨0, 4⟩ Operation.read) true,
        .write .shuttingDown true, .return ⟨0, 4⟩, .read ⟨Operation.none, false, true, true⟩,
        .read ⟨Operation.none, false, true, true⟩] :=
  (ownership_sound_iff .uring (start [⟨0, 4⟩]) (start_sound .uring [⟨0, 4⟩]) _).mpr
    ⟨trivial, trivial, fun _ _ => rfl, fun _ => trivial, trivial,
      fun _ _ => ⟨⟨fun h => absurd h Bool.false_ne_true, fun _ => Or.inl rfl⟩, Or.inl rfl⟩,
      fun _ _ _ _ h => absurd h List.not_mem_nil, trivial⟩

/-- A message that cannot be written, and one behind the message of a `shutdown`. -/
theorem reference_stranded :
    (¬Always (step .kqueue) (Sound .kqueue) (start [⟨0, 4⟩])
        [.startAdd ⟨0, 4⟩ Operation.read, .write (.adding ⟨0, 4⟩ Operation.read) false,
          .return ⟨0, 4⟩]) ∧
      (¬Always (step .uring) (Sound .uring) (start [⟨0, 4⟩])
        [.startAdd ⟨0, 4⟩ Operation.read, .write (.adding ⟨0, 4⟩ Operation.read) false,
          .return ⟨0, 4⟩]) ∧
      (¬Always (step .kqueue) (Sound .kqueue) (start [⟨0, 4⟩])
        [.startShutdown, .write .shuttingDown true, .startAdd ⟨0, 4⟩ Operation.read,
          .write (.adding ⟨0, 4⟩ Operation.read) true, .return ⟨0, 4⟩,
          .read ⟨Operation.none, false, true, true⟩]) ∧
      ¬Always (step .uring) (Sound .uring) (start [⟨0, 4⟩])
        [.startShutdown, .write .shuttingDown true, .startAdd ⟨0, 4⟩ Operation.read,
          .write (.adding ⟨0, 4⟩ Operation.read) true, .return ⟨0, 4⟩,
          .read ⟨Operation.none, false, true, true⟩] := by
  refine ⟨fun h => ?_, fun h => ?_, fun h => ?_, fun h => ?_⟩ <;>
    exact absurd (h.last.counted ⟨0, 4⟩) (by decide)

end NetworkDriver.Net.Multiplexer.ControlPipe.Ownership
