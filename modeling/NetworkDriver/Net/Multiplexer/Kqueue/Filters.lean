import NetworkDriver.Library.Run
import NetworkDriver.Net.Multiplexer.Kqueue.Model
import NetworkDriver.Net.Multiplexer.Uring.Submissions

/-! # Filters and masks

The entries that `kqueue_multiplexer` appends, replayed in order, give the filters of every socket.
They mirror the masks of the registered managers as long as no entry is made of an operation that
`to_kevent_filter` does not know.

* `filters_mod`: what `mod` does to the filters, for the operations it translates.
* `visits_mirrored_iff`: what the loop of `shutdown` must not meet.
* `call_mirrored_iff`, `filters_mirror_iff`: exactly when a call, and a run, keep the mirror. -/

namespace NetworkDriver.Net.Multiplexer.Kqueue.Filters

open NetworkDriver.Library.Keyed NetworkDriver.Library.Run NetworkDriver.Net.Types
open NetworkDriver.Net.Multiplexer.Base NetworkDriver.Net.Multiplexer.Kqueue.Model
open NetworkDriver.Net.Multiplexer.Uring.Submissions (submittable contains_or contains_and_not)

/-! ### The law -/

/-- The filters, after all entries so far. -/
def filters (s : KqueueMultiplexer) : Filters := replay (entries s)

/-- **The filters mirror the masks** of the registered managers, and every entry names a filter. -/
structure Mirrored (s : KqueueMultiplexer) : Prop where
  read : ∀ mgr ∈ s.managers.elems, filters s mgr.handle evfiltRead = some true ↔
    (s.mask mgr).contains Operation.read = true
  write : ∀ mgr ∈ s.managers.elems, filters s mgr.handle evfiltWrite = some true ↔
    (s.mask mgr).contains Operation.write = true
  valid : ∀ e ∈ entries s, e.Valid

instance (s : KqueueMultiplexer) : Decidable (Mirrored s) :=
  decidable_of_iff
    ((∀ mgr ∈ s.managers.elems, filters s mgr.handle evfiltRead = some true ↔
        (s.mask mgr).contains Operation.read = true) ∧
      (∀ mgr ∈ s.managers.elems, filters s mgr.handle evfiltWrite = some true ↔
        (s.mask mgr).contains Operation.write = true) ∧ ∀ e ∈ entries s, e.Valid)
    ⟨fun ⟨hread, hwrite, hvalid⟩ => ⟨hread, hwrite, hvalid⟩, fun h => ⟨h.read, h.write, h.valid⟩⟩

/-- The law for a run, which did not end in a fault either. -/
def Mirrors : Except Fault KqueueMultiplexer → Prop
  | .ok s => Mirrored s
  | .error _ => False

instance : DecidablePred Mirrors
  | .ok s => inferInstanceAs (Decidable (Mirrored s))
  | .error _ => .isFalse id

/-- The operations for which `mod` makes entries that name a filter. -/
def Translatable (op : Operation) : Prop :=
  op = Operation.read ∨ op = Operation.write ∨ op = Operation.readWrite

instance (op : Operation) : Decidable (Translatable op) := by unfold Translatable; infer_instance

/-- The call is about a manager that is registered; a new one has a socket that nobody else has. -/
def OnRegistered (s : KqueueMultiplexer) : Call → Prop
  | .register mgr _ => mgr.handle ∉ s.managers.elems.map Manager.handle
  | .enable mgr _ => mgr ∈ s.managers.elems
  | .disable mgr _ _ => mgr ∈ s.managers.elems
  | _ => True

instance (s : KqueueMultiplexer) : DecidablePred (OnRegistered s)
  | .register mgr _ => inferInstanceAs (Decidable (mgr.handle ∉ s.managers.elems.map Manager.handle))
  | .enable mgr _ => inferInstanceAs (Decidable (mgr ∈ s.managers.elems))
  | .disable mgr _ _ => inferInstanceAs (Decidable (mgr ∈ s.managers.elems))
  | .del _ => .isTrue trivial
  | .shutdown => .isTrue trivial
  | .flush => .isTrue trivial
  | .rehash _ => .isTrue trivial

/-- The mask that `enable` makes, and the operation that `disable` takes from a mask, are
translated. `shutdown` takes `read_accept`, so it must not meet a manager that reads or accepts. A
new manager whose mask does not change must not wait for anything yet. -/
def Translates (s : KqueueMultiplexer) : Call → Prop
  | .register mgr initial =>
    (maskAdd (s.mask mgr) initial = none → s.mask mgr &&& Operation.readWrite = Operation.none) ∧
      ∀ mask, maskAdd (s.mask mgr) initial = some mask → Translatable mask
  | .enable mgr op => ∀ mask, maskAdd (s.mask mgr) op = some mask → Translatable mask
  | .disable mgr op _ => s.mask mgr &&& op ≠ Operation.none → Translatable op
  | .shutdown => ∀ mgr ∈ s.managers.elems, mgr.handle ≠ s.pipeReader →
      s.mask mgr &&& Operation.readAccept = Operation.none
  | _ => True

/-! ### The two sides of a socket -/

/-- Reading and writing. -/
inductive Side where
  | reading
  | writing

/-- The operation of a side. -/
def Side.operation : Side → Operation
  | .reading => Operation.read
  | .writing => Operation.write

/-- The filter of a side. -/
def Side.filter : Side → Filter
  | .reading => evfiltRead
  | .writing => evfiltWrite

theorem Side.operation_mem (side : Side) : side.operation ∈ submittable := by
  cases side with
  | reading => decide
  | writing => decide

/-- The filter of the side mirrors the mask. -/
def Follows (s : KqueueMultiplexer) (mgr : Manager) (side : Side) : Prop :=
  filters s mgr.handle side.filter = some true ↔ (s.mask mgr).contains side.operation = true

/-- Every entry names a filter. -/
def AllValid (s : KqueueMultiplexer) : Prop := ∀ e ∈ entries s, e.Valid

variable {s s' : KqueueMultiplexer} {mgr m : Manager} {op mask : Operation} {fd : SocketId}
  {flags : KeventFlags}

theorem mirrored_iff :
    Mirrored s ↔ AllValid s ∧ ∀ mgr ∈ s.managers.elems, ∀ side, Follows s mgr side := by
  constructor
  · intro h
    refine ⟨h.valid, fun mgr hmgr side => ?_⟩
    cases side with
    | reading => exact h.read mgr hmgr
    | writing => exact h.write mgr hmgr
  · rintro ⟨hvalid, hfollows⟩
    exact ⟨fun mgr hmgr => hfollows mgr hmgr .reading,
      fun mgr hmgr => hfollows mgr hmgr .writing, hvalid⟩

/-! ### Entries -/

theorem entries_pushBack (e : Kevent) (s : KqueueMultiplexer) :
    entries (pushBack e s) = entries s ++ [e] :=
  (List.append_assoc ..).symm

theorem filters_pushBack (e : Kevent) (s : KqueueMultiplexer) :
    filters (pushBack e s) = e.change (filters s) := by
  unfold filters replay
  rw [entries_pushBack, List.foldl_append]
  rfl

@[simp] theorem mod_managers : (mod fd flags op s).managers = s.managers := by
  unfold mod
  split_ifs <;> rfl

@[simp] theorem mod_mask : (mod fd flags op s).mask = s.mask := by
  unfold mod
  split_ifs <;> rfl

@[simp] theorem mod_pipeReader : (mod fd flags op s).pipeReader = s.pipeReader := by
  unfold mod
  split_ifs <;> rfl

theorem not_valid_zero : ¬ (⟨fd, 0, flags⟩ : Kevent).Valid := by
  rintro (h | h)
  · exact absurd h (by decide : (0 : ℤ) ≠ -1)
  · exact absurd h (by decide : (0 : ℤ) ≠ -2)

theorem toKeventFilter_of_not (h : ¬ Translatable op) : toKeventFilter op = 0 := by
  unfold Translatable at h
  rw [not_or, not_or] at h
  unfold toKeventFilter
  rw [if_neg h.1, if_neg h.2.1, ite_self]

/-- **The entries of `mod` name filters if and only if the operation is translated.** -/
theorem mod_allValid : AllValid (mod fd flags op s) ↔ AllValid s ∧ Translatable op := by
  have hpush : ∀ e (s : KqueueMultiplexer), AllValid (pushBack e s) ↔ AllValid s ∧ e.Valid := by
    intro e s
    unfold AllValid
    rw [entries_pushBack]
    simp only [List.forall_mem_append, List.forall_mem_singleton]
  unfold mod
  by_cases hrw : op = Operation.readWrite
  · rw [if_pos hrw, hpush, hpush]
    have hread : (⟨fd, toKeventFilter Operation.read, flags⟩ : Kevent).Valid := Or.inl rfl
    have hwrite : (⟨fd, toKeventFilter Operation.write, flags⟩ : Kevent).Valid := Or.inr rfl
    exact ⟨fun h => ⟨h.1.1, Or.inr (Or.inr hrw)⟩, fun h => ⟨⟨h.1, hread⟩, hwrite⟩⟩
  · rw [if_neg hrw, hpush]
    refine and_congr_right fun _ => ⟨fun h => ?_, fun h => ?_⟩
    · by_contra hno
      rw [toKeventFilter_of_not hno] at h
      exact not_valid_zero h
    · rcases h with rfl | rfl | rfl
      · exact Or.inl rfl
      · exact Or.inr rfl
      · exact absurd rfl hrw

/-- **What `mod` does to the filters**, for an operation that is translated. -/
theorem filters_mod (hop : Translatable op) (side : Side) (h : SocketId) :
    filters (mod fd flags op s) h side.filter =
      if h = fd ∧ op.contains side.operation = true then after flags (filters s h side.filter)
      else filters s h side.filter := by
  have hne : evfiltRead ≠ evfiltWrite := by decide
  rcases hop with rfl | rfl | rfl
  · have hmod : filters (mod fd flags Operation.read s) =
        (⟨fd, evfiltRead, flags⟩ : Kevent).change (filters s) := filters_pushBack ..
    rw [hmod]
    cases side with
    | reading => simp [Kevent.change, Kevent.Valid, Side.filter, Side.operation, Operation.contains]
    | writing =>
      have hno : Operation.read.contains Operation.write = false := by decide
      simp [Kevent.change, Side.filter, Side.operation, hno, hne.symm]
  · have hmod : filters (mod fd flags Operation.write s) =
        (⟨fd, evfiltWrite, flags⟩ : Kevent).change (filters s) := filters_pushBack ..
    rw [hmod]
    cases side with
    | reading =>
      have hno : Operation.write.contains Operation.read = false := by decide
      simp [Kevent.change, Side.filter, Side.operation, hno, hne]
    | writing => simp [Kevent.change, Kevent.Valid, Side.filter, Side.operation, Operation.contains]
  · have hmod : filters (mod fd flags Operation.readWrite s) =
        (⟨fd, evfiltWrite, flags⟩ : Kevent).change
          ((⟨fd, evfiltRead, flags⟩ : Kevent).change (filters s)) := by
      rw [← filters_pushBack, ← filters_pushBack]
      rfl
    have hread : Operation.readWrite.contains Operation.read = true := by decide
    have hwrite : Operation.readWrite.contains Operation.write = true := by decide
    rw [hmod]
    cases side with
    | reading => simp [Kevent.change, Kevent.Valid, Side.filter, Side.operation, hread, hne]
    | writing => simp [Kevent.change, Kevent.Valid, Side.filter, Side.operation, hwrite, hne.symm]

/-- An entry that names no filter changes none. -/
theorem filters_mod_of_not (hop : ¬ Translatable op) : filters (mod fd flags op s) = filters s := by
  have hrw : op ≠ Operation.readWrite := fun h => hop (Or.inr (Or.inr h))
  unfold mod
  rw [if_neg hrw, filters_pushBack, toKeventFilter_of_not hop]
  funext ident filter
  exact if_neg fun h => not_valid_zero h.1

theorem filters_mod_of_ne {h : SocketId} (hne : h ≠ fd) (side : Side) :
    filters (mod fd flags op s) h side.filter = filters s h side.filter := by
  by_cases hop : Translatable op
  · rw [filters_mod hop, if_neg fun hh => hne hh.1]
  · rw [filters_mod_of_not hop]

/-! ### Filters that are there -/

/-- Both filters of every registered manager are there. -/
def Present (s : KqueueMultiplexer) : Prop :=
  ∀ mgr ∈ s.managers.elems, ∀ side : Side, ∃ on, filters s mgr.handle side.filter = some on

/-- Flags that do not delete keep a filter. -/
theorem mod_some {side : Side} {h : SocketId} (hflags : flags &&& evDelete = 0)
    (hon : ∃ on, filters s h side.filter = some on) :
    ∃ on, filters (mod fd flags op s) h side.filter = some on := by
  obtain ⟨on, hon⟩ := hon
  by_cases hop : Translatable op
  · rw [filters_mod hop]
    split_ifs
    · rw [hon]
      unfold after
      rw [if_neg (not_not_intro hflags)]
      split_ifs
      · exact ⟨_, rfl⟩
      · exact ⟨_, rfl⟩
      · exact ⟨_, rfl⟩
      · exact ⟨_, rfl⟩
    · exact ⟨on, hon⟩
  · rw [filters_mod_of_not hop]
    exact ⟨on, hon⟩

theorem mod_present (hflags : flags &&& evDelete = 0) (hp : Present s) :
    Present (mod fd flags op s) := by
  intro m hm side
  rw [mod_managers] at hm
  exact mod_some hflags (hp m hm side)

/-- A change of a mask appends nothing. -/
@[simp] theorem filters_maskSet : filters (s.maskSet mgr mask) = filters s := rfl

theorem maskSet_present (hp : Present s) : Present (s.maskSet mgr mask) := hp

theorem enable_some {side : Side} {h : SocketId} (hon : ∃ on, filters s h side.filter = some on) :
    ∃ on, filters (enable mgr op s) h side.filter = some on := by
  unfold enable
  cases maskAdd (s.mask mgr) op with
  | none => exact hon
  | some mask => exact mod_some (by decide) hon

@[simp] theorem enable_managers : (enable mgr op s).managers = s.managers := by
  unfold enable
  cases maskAdd (s.mask mgr) op with
  | none => rfl
  | some mask => exact mod_managers

theorem enable_present (hp : Present s) : Present (enable mgr op s) := by
  intro m hm side
  rw [enable_managers] at hm
  exact enable_some (hp m hm side)

@[simp] theorem stopIfLast_managers : (stopIfLast s).managers = s.managers := by
  unfold stopIfLast
  split_ifs <;> rfl

@[simp] theorem stopIfLast_mask : (stopIfLast s).mask = s.mask := by
  unfold stopIfLast
  split_ifs <;> rfl

@[simp] theorem stopIfLast_pipeReader : (stopIfLast s).pipeReader = s.pipeReader := by
  unfold stopIfLast
  split_ifs <;> rfl

theorem entries_stopIfLast : entries (stopIfLast s) = entries s := by
  unfold stopIfLast
  split_ifs <;> rfl

theorem mem_del : m ∈ (del fd s).managers.elems ↔ m ∈ s.managers.elems ∧ m.handle ≠ fd := by
  unfold del
  rw [stopIfLast_managers]
  change m ∈ ((mod fd evDelete Operation.readWrite s).managers.erase fd).elems ↔ _
  rw [mod_managers, KeyedMap.mem_erase]

@[simp] theorem del_mask : (del fd s).mask = s.mask := by
  unfold del
  rw [stopIfLast_mask]
  exact mod_mask

@[simp] theorem del_pipeReader : (del fd s).pipeReader = s.pipeReader := by
  unfold del
  rw [stopIfLast_pipeReader]
  exact mod_pipeReader

theorem entries_del : entries (del fd s) = entries (mod fd evDelete Operation.readWrite s) := by
  unfold del
  rw [entries_stopIfLast]
  rfl

theorem filters_del : filters (del fd s) = filters (mod fd evDelete Operation.readWrite s) := by
  unfold filters
  rw [entries_del]

theorem del_present (hp : Present s) : Present (del fd s) := by
  intro m hm side
  obtain ⟨hm, hne⟩ := mem_del.mp hm
  rw [filters_del, filters_mod_of_ne hne]
  exact hp m hm side

theorem disable_present {remove : Bool} (hp : Present s) : Present (disable mgr op remove s) := by
  unfold disable
  cases maskDel (s.mask mgr) op with
  | none => exact hp
  | some mask =>
    have hmod : Present (mod mgr.handle evDisable op (s.maskSet mgr mask)) :=
      mod_present (by decide) (maskSet_present hp)
    dsimp only
    split_ifs
    · exact del_present hmod
    · exact hmod

/-! ### Masks -/

theorem maskAdd_contains {new : Operation} (h : maskAdd mask op = some new) (side : Side)
    (hc : mask.contains side.operation = true) : new.contains side.operation = true := by
  obtain ⟨rfl, -, -⟩ := maskAdd_some h
  rw [contains_or side.operation_mem, hc, Bool.true_or]

theorem maskDel_contains {new : Operation} (h : maskDel mask op = some new) (side : Side) :
    new.contains side.operation = (mask.contains side.operation && !op.contains side.operation) := by
  obtain rfl := mask_of_maskDel_some h
  exact contains_and_not side.operation_mem mask op

theorem not_contains_readWrite {side : Side} (h : mask &&& Operation.readWrite = Operation.none) :
    mask.contains side.operation = false := by
  have hall : ∀ mask : Operation, mask &&& Operation.readWrite = Operation.none →
      mask.contains Operation.read = false ∧ mask.contains Operation.write = false := by decide +kernel
  cases side with
  | reading => exact (hall mask h).1
  | writing => exact (hall mask h).2

theorem and_readWrite_of_not_contains (h : ∀ side : Side, mask.contains side.operation = false) :
    mask &&& Operation.readWrite = Operation.none := by
  have hall : ∀ mask : Operation, mask.contains Operation.read = false →
      mask.contains Operation.write = false → mask &&& Operation.readWrite = Operation.none := by
    decide +kernel
  exact hall mask (h .reading) (h .writing)

theorem handle_ne (hm : m ∈ s.managers.elems) (hmgr : mgr ∈ s.managers.elems) (h : m ≠ mgr) :
    m.handle ≠ mgr.handle :=
  fun hh => h (List.inj_on_of_nodup_map s.managers.nodup hm hmgr hh)

/-! ### One call -/

/-- What is appended for one manager leaves the others alone. -/
theorem mod_follows_of_ne (h : m.handle ≠ mgr.handle) (side : Side) :
    Follows (mod mgr.handle flags op (s.maskSet mgr mask)) m side ↔ Follows s m side := by
  have hne : m ≠ mgr := fun he => h (congrArg Manager.handle he)
  unfold Follows
  rw [filters_mod_of_ne h, filters_maskSet, mod_mask, MultiplexerBase.maskSet_mask_of_ne s mask hne]

/-- **A manager that is enabled for a mask**, of which no other side is enabled. -/
theorem enabled_follows {side : Side} {on : Bool} (hop : Translatable mask)
    (hon : filters s mgr.handle side.filter = some on)
    (hold : on = true → mask.contains side.operation = true) :
    Follows (mod mgr.handle evEnable mask (s.maskSet mgr mask)) mgr side := by
  unfold Follows
  rw [filters_mod hop, filters_maskSet, hon, mod_mask, MultiplexerBase.maskSet_mask_self]
  split_ifs with hc
  · exact iff_of_true rfl hc.2
  · refine iff_of_false (fun h => hc ⟨rfl, hold (Option.some.inj h)⟩) fun h => hc ⟨rfl, h⟩

/-- **A manager that is disabled for an operation.** -/
theorem disabled_follows {side : Side} {on : Bool} (hop : Translatable op)
    (hdel : maskDel (s.mask mgr) op = some mask) (hon : filters s mgr.handle side.filter = some on)
    (hf : Follows s mgr side) : Follows (mod mgr.handle evDisable op (s.maskSet mgr mask)) mgr side := by
  unfold Follows at hf ⊢
  rw [filters_mod hop, filters_maskSet, mod_mask, MultiplexerBase.maskSet_mask_self,
    maskDel_contains hdel side]
  split_ifs with hc
  · rw [hon, hc.2]
    refine iff_of_false (fun h => ?_) (by simp)
    cases h
  · have hno : op.contains side.operation = false := Bool.eq_false_iff.mpr fun h => hc ⟨rfl, h⟩
    rw [hno, Bool.not_false, Bool.and_true]
    exact hf

/-- **`enable`** of a registered manager. -/
theorem enable_mirrored_iff (hp : Present s) (hm : Mirrored s) (hmgr : mgr ∈ s.managers.elems) :
    Mirrored (enable mgr op s) ↔ Translates s (.enable mgr op) := by
  obtain ⟨hvalid, hfollows⟩ := mirrored_iff.mp hm
  change _ ↔ ∀ mask, maskAdd (s.mask mgr) op = some mask → Translatable mask
  unfold enable
  cases hadd : maskAdd (s.mask mgr) op with
  | none => exact iff_of_true hm fun mask h => by cases h
  | some mask =>
    simp only [Option.some.injEq, forall_eq']
    rw [mirrored_iff, mod_allValid]
    constructor
    · rintro ⟨⟨-, hop⟩, -⟩
      exact hop
    · intro hop
      refine ⟨⟨hvalid, hop⟩, fun m hmem side => ?_⟩
      rw [mod_managers] at hmem
      by_cases he : m = mgr
      · subst he
        obtain ⟨on, hon⟩ := hp m hmem side
        refine enabled_follows hop hon fun ht => maskAdd_contains hadd side ?_
        exact (hfollows m hmem side).mp (ht ▸ hon)
      · exact (mod_follows_of_ne (handle_ne hmem hmgr he) side).mpr (hfollows m hmem side)

/-- **`del`** keeps the mirror. -/
theorem del_mirrored (hm : Mirrored s) : Mirrored (del fd s) := by
  obtain ⟨hvalid, hfollows⟩ := mirrored_iff.mp hm
  refine mirrored_iff.mpr ⟨?_, fun m hmem side => ?_⟩
  · unfold AllValid
    rw [entries_del]
    exact mod_allValid.mpr ⟨hvalid, Or.inr (Or.inr rfl)⟩
  · obtain ⟨hmem, hne⟩ := mem_del.mp hmem
    unfold Follows
    rw [filters_del, filters_mod_of_ne hne, del_mask]
    exact hfollows m hmem side

/-- Every entry that was appended stays. -/
theorem allValid_of_del (h : AllValid (del fd s)) : AllValid s := by
  unfold AllValid at h
  rw [entries_del] at h
  exact (mod_allValid.mp h).1

/-- **`disable`** of a registered manager. -/
theorem disable_mirrored_iff {remove : Bool} (hp : Present s) (hm : Mirrored s)
    (hmgr : mgr ∈ s.managers.elems) :
    Mirrored (disable mgr op remove s) ↔ Translates s (.disable mgr op remove) := by
  obtain ⟨hvalid, hfollows⟩ := mirrored_iff.mp hm
  change _ ↔ (s.mask mgr &&& op ≠ Operation.none → Translatable op)
  unfold disable
  cases hdel : maskDel (s.mask mgr) op with
  | none => exact iff_of_true hm fun h => absurd (and_of_maskDel_none hdel) h
  | some mask =>
    have hsome : s.mask mgr &&& op ≠ Operation.none := by
      intro hnone
      have habsent : maskDel (s.mask mgr) op = none := if_pos hnone
      rw [habsent] at hdel
      cases hdel
    have hmod : Mirrored (mod mgr.handle evDisable op (s.maskSet mgr mask)) ↔ Translatable op := by
      rw [mirrored_iff, mod_allValid]
      constructor
      · rintro ⟨⟨-, hop⟩, -⟩
        exact hop
      · intro hop
        refine ⟨⟨hvalid, hop⟩, fun m hmem side => ?_⟩
        rw [mod_managers] at hmem
        by_cases he : m = mgr
        · subst he
          obtain ⟨on, hon⟩ := hp m hmem side
          exact disabled_follows hop hdel hon (hfollows m hmem side)
        · exact (mod_follows_of_ne (handle_ne hmem hmgr he) side).mpr (hfollows m hmem side)
    dsimp only
    split_ifs
    · constructor
      · intro h _
        exact (mod_allValid.mp (allValid_of_del h.valid)).2
      · intro h
        exact del_mirrored (hmod.mpr (h hsome))
    · exact hmod.trans ⟨fun h _ => h, fun h => h hsome⟩

/-! ### New managers -/

/-- A new manager is registered with both of its filters, which are disabled. -/
def added (mgr : Manager) (s : KqueueMultiplexer) : KqueueMultiplexer :=
  mod mgr.handle (evAdd ||| evDisable) Operation.readWrite s

theorem added_mask : (added mgr s).mask = s.mask := mod_mask

theorem filters_added (side : Side) : filters (added mgr s) mgr.handle side.filter = some false := by
  have hc : Operation.readWrite.contains side.operation = true := by
    cases side with
    | reading => decide
    | writing => decide
  unfold added
  rw [filters_mod (Or.inr (Or.inr rfl)), if_pos ⟨rfl, hc⟩]
  unfold after
  rw [if_neg (by decide), if_pos (by decide)]
  decide

theorem added_allValid (h : AllValid s) : AllValid (added mgr s) :=
  mod_allValid.mpr ⟨h, Or.inr (Or.inr rfl)⟩

theorem added_follows {side : Side} (hne : m.handle ≠ mgr.handle) (h : Follows s m side) :
    Follows (added mgr s) m side := by
  unfold Follows added
  rw [filters_mod_of_ne hne, mod_mask]
  exact h

theorem mem_register {initial : Operation} (hfresh : mgr.handle ∉ s.managers.elems.map Manager.handle) :
    m ∈ (register mgr initial s).managers.elems ↔ m = mgr ∨ m ∈ s.managers.elems := by
  unfold register
  change m ∈ ((enable mgr initial (added mgr s)).managers.emplace mgr).elems ↔ _
  unfold added
  rw [enable_managers, mod_managers, KeyedMap.elems_emplace hfresh, List.mem_cons]

theorem register_present {initial : Operation}
    (hfresh : mgr.handle ∉ s.managers.elems.map Manager.handle) (hp : Present s) :
    Present (register mgr initial s) := by
  intro m hm side
  refine enable_some (s := added mgr s) ?_
  rcases (mem_register hfresh).mp hm with rfl | hm
  · exact ⟨false, filters_added side⟩
  · exact mod_some (by decide) (hp m hm side)

/-- A new manager whose mask does not change: its filters are disabled. -/
theorem added_follows_self_iff :
    (∀ side, Follows (added mgr s) mgr side) ↔ s.mask mgr &&& Operation.readWrite = Operation.none := by
  have hfollows : ∀ side, Follows (added mgr s) mgr side ↔
      (s.mask mgr).contains side.operation = false := by
    intro side
    unfold Follows
    rw [filters_added side, added_mask]
    cases (s.mask mgr).contains side.operation with
    | false => simp
    | true => simp
  simp only [hfollows]
  exact ⟨and_readWrite_of_not_contains, fun h side => not_contains_readWrite h⟩

/-- **The part of `add` before `init`**, for a manager with a socket that nobody else has. -/
theorem register_mirrored_iff {initial : Operation}
    (hfresh : mgr.handle ∉ s.managers.elems.map Manager.handle) (hm : Mirrored s) :
    Mirrored (register mgr initial s) ↔ Translates s (.register mgr initial) := by
  obtain ⟨hvalid, hfollows⟩ := mirrored_iff.mp hm
  have hothers : ∀ m ∈ s.managers.elems, m.handle ≠ mgr.handle := by
    intro m hmem he
    exact hfresh (he ▸ List.mem_map_of_mem hmem)
  have hstay : ∀ m ∈ s.managers.elems, ∀ side, Follows (added mgr s) m side :=
    fun m hmem side => added_follows (hothers m hmem) (hfollows m hmem side)
  have hparts : Mirrored (register mgr initial s) ↔ AllValid (enable mgr initial (added mgr s)) ∧
      ∀ m, m = mgr ∨ m ∈ s.managers.elems →
        ∀ side, Follows (enable mgr initial (added mgr s)) m side := by
    rw [mirrored_iff]
    simp only [mem_register hfresh]
    exact Iff.rfl
  rw [hparts]
  change _ ↔ (maskAdd (s.mask mgr) initial = none → _) ∧
    ∀ mask, maskAdd (s.mask mgr) initial = some mask → Translatable mask
  unfold enable
  rw [added_mask]
  cases hadd : maskAdd (s.mask mgr) initial with
  | none =>
    simp only [forall_const, reduceCtorEq, false_implies, and_true]
    rw [← added_follows_self_iff]
    constructor
    · rintro ⟨-, h⟩
      exact h mgr (Or.inl rfl)
    · intro hself
      refine ⟨added_allValid hvalid, ?_⟩
      rintro m (rfl | hmem)
      · exact hself
      · exact hstay m hmem
  | some mask =>
    simp only [reduceCtorEq, false_implies, Option.some.injEq, forall_eq', true_and]
    rw [mod_allValid]
    constructor
    · rintro ⟨⟨-, hop⟩, -⟩
      exact hop
    · intro hop
      refine ⟨⟨added_allValid hvalid, hop⟩, ?_⟩
      rintro m (rfl | hmem) side
      · exact enabled_follows hop (filters_added side) fun h => by cases h
      · exact (mod_follows_of_ne (hothers m hmem) side).mpr (hstay m hmem side)

/-! ### Shutdown -/

theorem mem_disable : m ∈ (disable mgr op false s).managers.elems ↔ m ∈ s.managers.elems := by
  unfold disable
  cases maskDel (s.mask mgr) op with
  | none => exact Iff.rfl
  | some mask =>
    change m ∈ (mod mgr.handle evDisable op (s.maskSet mgr mask)).managers.elems ↔ _
    rw [mod_managers]
    exact Iff.rfl

theorem allValid_of_disable (h : AllValid (disable mgr op false s)) : AllValid s := by
  unfold disable at h
  cases hdel : maskDel (s.mask mgr) op with
  | none =>
    rw [hdel] at h
    exact h
  | some mask =>
    rw [hdel] at h
    exact (mod_allValid.mp h).1

/-- A round of the loop of `shutdown`. -/
def visit (s : KqueueMultiplexer) (mgr : Manager) : KqueueMultiplexer :=
  s.visit (fun mgr => disable mgr Operation.readAccept false) delIt mgr

/-- **A round, in any case**: the filters are there after it, and an entry that names none stays. -/
theorem visit_present (mgr : Manager) (hp : Present s) :
    Present (visit s mgr) ∧ (AllValid (visit s mgr) → AllValid s) := by
  have hp₁ : Present (disable mgr Operation.readAccept false s) := disable_present hp
  unfold visit MultiplexerBase.visit
  split_ifs
  · exact ⟨del_present hp₁, fun h => allValid_of_disable (allValid_of_del h)⟩
  · exact ⟨hp₁, allValid_of_disable⟩
  · exact ⟨hp, id⟩

theorem visits_present (l : List Manager) (hp : Present s) :
    Present (l.foldl visit s) ∧ (AllValid (l.foldl visit s) → AllValid s) := by
  induction l generalizing s with
  | nil => exact ⟨hp, id⟩
  | cons mgr l ih =>
    obtain ⟨hp₁, hvalid₁⟩ := visit_present mgr hp
    obtain ⟨hp', hvalid'⟩ := ih hp₁
    exact ⟨hp', fun h => hvalid₁ (hvalid' h)⟩

/-- A round that finds nothing to disable. -/
theorem visit_of_idle
    (hidle : mgr.handle ≠ s.pipeReader → s.mask mgr &&& Operation.readAccept = Operation.none) :
    visit s mgr = s ∨ visit s mgr = delIt mgr s := by
  unfold visit MultiplexerBase.visit
  by_cases hvisit : mgr ∈ s.managers.elems ∧ mgr.handle ≠ s.pipeReader
  · have hnone : maskDel (s.mask mgr) Operation.readAccept = none := if_pos (hidle hvisit.2)
    have hsame : disable mgr Operation.readAccept false s = s := by
      unfold disable
      rw [hnone]
    rw [if_pos hvisit]
    split_ifs
    · exact Or.inr (congrArg (delIt mgr) hsame)
    · exact Or.inl hsame
  · rw [if_neg hvisit]
    exact Or.inl rfl

/-- A round that finds something to disable leaves an entry that names no filter. -/
theorem idle_of_visit (hmgr : mgr ∈ s.managers.elems) (hpipe : mgr.handle ≠ s.pipeReader)
    (h : AllValid (visit s mgr)) : s.mask mgr &&& Operation.readAccept = Operation.none := by
  by_contra hbusy
  have hdisable : AllValid (disable mgr Operation.readAccept false s) := by
    unfold visit MultiplexerBase.visit at h
    rw [if_pos ⟨hmgr, hpipe⟩] at h
    split_ifs at h
    · exact allValid_of_del h
    · exact h
  have hsome : maskDel (s.mask mgr) Operation.readAccept =
      some (s.mask mgr &&& ~~~Operation.readAccept) := if_neg hbusy
  unfold disable at hdisable
  rw [hsome] at hdisable
  have hmod : AllValid (mod mgr.handle evDisable Operation.readAccept
    (s.maskSet mgr (s.mask mgr &&& ~~~Operation.readAccept))) := hdisable
  exact absurd (mod_allValid.mp hmod).2 (by decide)

/-- **The loop of `shutdown`** keeps the mirror if and only if it meets nobody that reads or
accepts. -/
theorem visits_mirrored_iff {l : List Manager} (hp : Present s) (hm : Mirrored s)
    (hl : ∀ m ∈ l, m ∈ s.managers.elems) (hnodup : l.Nodup) :
    Mirrored (l.foldl visit s) ↔ ∀ m ∈ l, m.handle ≠ s.pipeReader →
      s.mask m &&& Operation.readAccept = Operation.none := by
  induction l generalizing s with
  | nil => exact iff_of_true hm fun m hmem => absurd hmem List.not_mem_nil
  | cons mgr l ih =>
    obtain ⟨hmgr, hrest⟩ := List.forall_mem_cons.mp hl
    obtain ⟨hnot, hnodup⟩ := List.nodup_cons.mp hnodup
    rw [List.foldl_cons, List.forall_mem_cons]
    by_cases hidle : mgr.handle ≠ s.pipeReader → s.mask mgr &&& Operation.readAccept = Operation.none
    · rw [and_iff_right hidle]
      rcases visit_of_idle hidle with hsame | hdel
      · rw [hsame]
        exact ih hp hm hrest hnodup
      · have hl' : ∀ m ∈ l, m ∈ (delIt mgr s).managers.elems := by
          intro m hmem
          have hne : m ≠ mgr := fun he => hnot (he ▸ hmem)
          exact mem_del.mpr ⟨hrest m hmem, handle_ne (hrest m hmem) hmgr hne⟩
        have hmask : (delIt mgr s).mask = s.mask := del_mask
        have hreader : (delIt mgr s).pipeReader = s.pipeReader := del_pipeReader
        rw [hdel, ← hmask, ← hreader]
        exact ih (del_present hp) (del_mirrored hm) hl' hnodup
    · -- an entry that names no filter stays
      refine iff_of_false (fun h => ?_) fun h => hidle h.1
      have hvalid := (visits_present l (visit_present mgr hp).1).2 h.valid
      obtain ⟨hpipe, hbusy⟩ := Classical.not_imp.mp hidle
      exact hbusy (idle_of_visit hmgr hpipe hvalid)

/-- **`shutdown`.** -/
theorem shutdown_present (hp : Present s) :
    ∃ s', shutdown s = .ok s' ∧ Present s' ∧
      (Mirrored s → (Mirrored s' ↔ Translates s .shutdown)) := by
  have hnodup : s.managers.elems.Nodup := List.Nodup.of_map Manager.handle s.managers.nodup
  have hstay : ∀ (s : KqueueMultiplexer) (mgr : Manager), mgr ∈ s.managers.elems →
      mgr ∈ (disable mgr Operation.readAccept false s).managers.elems := fun s mgr => mem_disable.mpr
  have hok : shutdown s = _ := MultiplexerBase.shutdownWith_eq_ok hstay s
  obtain ⟨hp', -⟩ :=
    visits_present (s := { s.logShutdown with shuttingDown := true }) s.managers.elems hp
  refine ⟨_, hok, hp', fun hm => ?_⟩
  have hm' : Mirrored { s.logShutdown with shuttingDown := true } := ⟨hm.read, hm.write, hm.valid⟩
  have hiff := visits_mirrored_iff (s := { s.logShutdown with shuttingDown := true })
    (l := s.managers.elems) hp hm' (fun m h => h) hnodup
  refine Iff.trans ⟨fun h => ?_, fun h => ?_⟩ hiff
  · exact ⟨h.read, h.write, h.valid⟩
  · exact ⟨h.read, h.write, h.valid⟩

/-! ### Runs -/

/-- **One call**: the filters of the registered managers stay, and the mirror stays if and only if the
call makes no entry of an operation that is not translated. -/
theorem call_mirrored_iff {c : Call} (hp : Present s) (hc : OnRegistered s c) :
    ∃ s', call c s = .ok s' ∧ Present s' ∧ (Mirrored s → (Mirrored s' ↔ Translates s c)) := by
  cases c with
  | register mgr initial =>
    exact ⟨_, rfl, register_present hc hp, fun hm => register_mirrored_iff hc hm⟩
  | enable mgr op => exact ⟨_, rfl, enable_present hp, fun hm => enable_mirrored_iff hp hm hc⟩
  | disable mgr op remove => exact ⟨_, rfl, disable_present hp, fun hm => disable_mirrored_iff hp hm hc⟩
  | del handle => exact ⟨_, rfl, del_present hp, fun hm => iff_of_true (del_mirrored hm) trivial⟩
  | shutdown => exact shutdown_present hp
  | flush =>
    have hentries : entries (flush s) = entries s := List.append_nil _
    have hfilters : filters (flush s) = filters s := congrArg replay hentries
    refine ⟨_, rfl, fun m hmem side => hfilters ▸ hp m hmem side, fun hm => iff_of_true ?_ trivial⟩
    exact ⟨hfilters ▸ hm.read, hfilters ▸ hm.write, hentries ▸ hm.valid⟩
  | rehash order =>
    have hmem : ∀ m, m ∈ (s.managers.rehash order).elems → m ∈ s.managers.elems :=
      fun m => (s.managers.rehash_perm order).mem_iff.mp
    refine ⟨_, rfl, fun m hm side => hp m (hmem m hm) side, fun hm => iff_of_true ?_ trivial⟩
    exact ⟨fun m h => hm.read m (hmem m h), fun m h => hm.write m (hmem m h), hm.valid⟩

/-- The call meets the condition, unless the run ended in a fault. -/
def Meets (C : KqueueMultiplexer → Call → Prop) : Except Fault KqueueMultiplexer → Call → Prop
  | .ok s, c => C s c
  | .error _, _ => True

instance (C : KqueueMultiplexer → Call → Prop) [∀ s, DecidablePred (C s)]
    (s : Except Fault KqueueMultiplexer) (c : Call) : Decidable (Meets C s c) :=
  match s with
  | .ok s => inferInstanceAs (Decidable (C s c))
  | .error _ => .isTrue trivial

/-- A run that did not end in a fault, with both filters of every registered manager. -/
def Sound : Except Fault KqueueMultiplexer → Prop
  | .ok s => Present s
  | .error _ => False

theorem runStep_sound (s : Except Fault KqueueMultiplexer) (c : Call) (hs : Sound s)
    (hc : Meets OnRegistered s c) : Sound (runStep s c) := by
  cases s with
  | error fault => exact hs
  | ok s =>
    obtain ⟨s', hok, hp, -⟩ := call_mirrored_iff hs hc
    change Sound (call c s)
    rw [hok]
    exact hp

theorem runStep_mirrors_iff (s : Except Fault KqueueMultiplexer) (c : Call) (hs : Sound s)
    (hm : Mirrors s) (hc : Meets OnRegistered s c) : Mirrors (runStep s c) ↔ Meets Translates s c := by
  cases s with
  | error fault => exact hs.elim
  | ok s =>
    obtain ⟨s', hok, -, hiff⟩ := call_mirrored_iff hs hc
    change Mirrors (call c s) ↔ _
    rw [hok]
    exact hiff hm

/-- **The filters mirror the masks in a whole run if and only if no call of it makes an entry of an
operation that is not translated.** -/
theorem filters_mirror_iff (pipeReader pipeWriter : SocketId) (calls : List Call)
    (hcalls : Along runStep (Meets OnRegistered) (.ok (start pipeReader pipeWriter)) calls) :
    Always runStep Mirrors (.ok (start pipeReader pipeWriter)) calls ↔
      Along runStep (Meets Translates) (.ok (start pipeReader pipeWriter)) calls := by
  have hpresent : Sound (.ok (start pipeReader pipeWriter)) := fun m hm => absurd hm List.not_mem_nil
  have hmirrors : Mirrors (.ok (start pipeReader pipeWriter)) :=
    ⟨fun m hm => absurd hm List.not_mem_nil, fun m hm => absurd hm List.not_mem_nil,
      fun e he => absurd he List.not_mem_nil⟩
  have hsound := always_of_along runStep_sound hpresent hcalls
  have hexact : Always runStep (fun s => Sound s ∧ Mirrors s) (.ok (start pipeReader pipeWriter)) calls ↔
      Along runStep (Meets Translates) (.ok (start pipeReader pipeWriter)) calls :=
    always_iff_along
      (fun s c hs hc =>
        (and_iff_right (runStep_sound s c hs.1 hc)).trans (runStep_mirrors_iff s c hs.1 hs.2 hc))
      ⟨hpresent, hmirrors⟩ hcalls
  exact ⟨fun h => hexact.mp (hsound.and h), fun h => (hexact.mpr h).imp fun _ hs => hs.2⟩

/-- The updater and a stream are registered, and the stream writes too. -/
def connected : List Call :=
  [.register ⟨0, 3⟩ Operation.read, .register ⟨1, 4⟩ Operation.read, .flush, .enable ⟨1, 4⟩ Operation.write]

/-- The stream is done with reading, and then with writing. -/
theorem filters_mirror_done :
    Always runStep Mirrors (.ok (start 3 6)) (connected ++
        [.disable ⟨1, 4⟩ Operation.read true, .disable ⟨1, 4⟩ Operation.write true]) ↔
      Along runStep (Meets Translates) (.ok (start 3 6)) (connected ++
        [.disable ⟨1, 4⟩ Operation.read true, .disable ⟨1, 4⟩ Operation.write true]) :=
  filters_mirror_iff 3 6 _ (by decide +kernel)

/-- `shutdown` takes reading from the mask of the stream, and leaves `EVFILT_READ` enabled. -/
theorem filters_mirror_shutdown :
    ¬ ∀ (pipeReader pipeWriter : SocketId) (calls : List Call),
      Along runStep (Meets OnRegistered) (.ok (start pipeReader pipeWriter)) calls →
      Always runStep Mirrors (.ok (start pipeReader pipeWriter)) calls := by
  intro h
  have hrun := h 3 6 (connected ++ [.shutdown]) (by decide +kernel)
  revert hrun
  decide +kernel

end NetworkDriver.Net.Multiplexer.Kqueue.Filters
