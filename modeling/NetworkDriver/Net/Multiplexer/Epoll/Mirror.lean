import NetworkDriver.Net.Multiplexer.Epoll.Model

/-! # The epoll instance mirrors the masks

`epoll_multiplexer` keeps what it knows three times: the managers by socket, the mask of each
manager, and the interest list of the epoll instance. `Mirrors` says that they agree, and every call
that is made for a registered manager, or adds one on a socket of its own, preserves it.

* `shutdown_mirrors`: `shutdown`, with the deletion by iterator inside.
* `performAll_mirrors`: the acts of a handler, with the `init` of the managers it adds.
* `handleEvent_mirrors`: one event with its handlers and their verdicts.
* `interest_mirrors`: over every run of calls the epoll instance watches exactly the sockets of the
  registered managers, for reading and for writing as their masks say. -/

namespace NetworkDriver.Net.Multiplexer.Epoll.Mirror

open NetworkDriver.Library.Keyed NetworkDriver.Net.Types
open NetworkDriver.Net.Multiplexer.Base NetworkDriver.Net.Multiplexer.Epoll.Model

variable {κ : Type}

/-! ### The kernel and the property -/

/-- What epoll promises of `epoll_ctl` in a valid state of the kernel, if `interest k fd` is what
the instance watches `fd` for: a socket that is not watched can be added, one that is watched can be
changed and deleted, and no other socket is affected. -/
structure Instance (ctl : EpollCtl κ) (valid : κ → Prop)
    (interest : κ → SocketId → Option EpollFlags) : Prop where
  add : ∀ k fd flags, valid k → interest k fd = none →
    (ctl k .add fd flags).1 = true ∧ valid (ctl k .add fd flags).2 ∧
      interest (ctl k .add fd flags).2 = Function.update (interest k) fd (some flags)
  mod : ∀ k fd flags, valid k → interest k fd ≠ none →
    (ctl k .mod fd flags).1 = true ∧ valid (ctl k .mod fd flags).2 ∧
      interest (ctl k .mod fd flags).2 = Function.update (interest k) fd (some flags)
  del : ∀ k fd flags, valid k → interest k fd ≠ none →
    (ctl k .del fd flags).1 = true ∧ valid (ctl k .del fd flags).2 ∧
      interest (ctl k .del fd flags).2 = Function.update (interest k) fd none

/-- **The epoll instance mirrors the managers**: the watched sockets are the keys of `managers_`, and
`EPOLLIN` and `EPOLLOUT` stand for reading and writing in the masks. -/
structure Mirrored (interest : κ → SocketId → Option EpollFlags) (s : EpollMultiplexer κ) : Prop where
  fds : ∀ fd, interest s.derived.kernel fd ≠ none ↔ fd ∈ s.managers.elems.map Manager.handle
  read : ∀ mgr ∈ s.managers.elems, ∀ flags, interest s.derived.kernel mgr.handle = some flags →
    (flags &&& epollIn = epollIn ↔ s.mask mgr &&& Operation.read = Operation.read)
  write : ∀ mgr ∈ s.managers.elems, ∀ flags, interest s.derived.kernel mgr.handle = some flags →
    (flags &&& epollOut = epollOut ↔ s.mask mgr &&& Operation.write = Operation.write)

/-- No manager is registered, and nothing is watched. -/
structure Fresh (valid : κ → Prop) (interest : κ → SocketId → Option EpollFlags)
    (s : EpollMultiplexer κ) : Prop where
  managers : s.managers.elems = []
  valid : valid s.derived.kernel
  unwatched : ∀ fd, interest s.derived.kernel fd = none

/-! ### Masks -/

/-- A class of masks that the multiplexer does not leave. -/
structure Closed (R : Operation → Prop) : Prop where
  or : ∀ m op, R m → R op → R (m ||| op)
  and : ∀ m op, R m → R (m &&& op)
  read : R Operation.read
  write : R Operation.write

/-- A mask of reading and writing only. -/
def Ready (m : Operation) : Prop := m &&& ~~~Operation.readWrite = Operation.none

instance (m : Operation) : Decidable (Ready m) := by unfold Ready; infer_instance

theorem ready_closed : Closed Ready where
  or m op h h' := by
    unfold Ready at *
    rw [BitVec.and_comm, BitVec.and_or_distrib_left, BitVec.and_comm _ m, BitVec.and_comm _ op, h, h']
    rfl
  and m op h := by
    unfold Ready at *
    rw [BitVec.and_assoc, BitVec.and_comm op, ← BitVec.and_assoc, h]
    exact BitVec.zero_and
  read := by decide
  write := by decide

theorem any_closed : Closed fun _ => True :=
  ⟨fun _ _ _ _ => trivial, fun _ _ _ => trivial, trivial, trivial⟩

/-- The flags that a mask is registered with. -/
theorem toEpollFlag_bits (m : Operation) (h : Ready m) :
    (toEpollFlag m &&& epollIn = epollIn ↔ m &&& Operation.read = Operation.read) ∧
      (toEpollFlag m &&& epollOut = epollOut ↔ m &&& Operation.write = Operation.write) := by
  revert m
  decide +kernel

/-! ### The invariant -/

/-- **The invariant**: every registered manager is watched for what its mask says, and nothing else is
watched. -/
structure Mirrors (valid : κ → Prop) (interest : κ → SocketId → Option EpollFlags)
    (R : Operation → Prop) (s : EpollMultiplexer κ) : Prop where
  valid : valid s.derived.kernel
  watched : ∀ mgr ∈ s.managers.elems,
    interest s.derived.kernel mgr.handle = some (toEpollFlag (s.mask mgr))
  masks : ∀ mgr ∈ s.managers.elems, R (s.mask mgr)
  known : ∀ fd, interest s.derived.kernel fd ≠ none → ∃ mgr ∈ s.managers.elems, mgr.handle = fd

variable {valid : κ → Prop} {interest : κ → SocketId → Option EpollFlags} {R : Operation → Prop}
  {s s' s'' : EpollMultiplexer κ} {mgr : Manager}

theorem Fresh.mirrors (h : Fresh valid interest s) : Mirrors valid interest R s where
  valid := h.valid
  watched mgr hmgr := by simp [h.managers] at hmgr
  masks mgr hmgr := by simp [h.managers] at hmgr
  known fd hfd := absurd (h.unwatched fd) hfd

theorem Mirrors.mirrored (h : Mirrors valid interest Ready s) : Mirrored interest s := by
  have hflags : ∀ mgr ∈ s.managers.elems, ∀ flags,
      interest s.derived.kernel mgr.handle = some flags → flags = toEpollFlag (s.mask mgr) :=
    fun mgr hmgr flags hf => Option.some.inj (hf.symm.trans (h.watched mgr hmgr))
  refine ⟨fun fd => ?_, fun mgr hmgr flags hf => ?_, fun mgr hmgr flags hf => ?_⟩
  · rw [List.mem_map]
    refine ⟨h.known fd, ?_⟩
    rintro ⟨mgr, hmgr, rfl⟩
    rw [h.watched mgr hmgr]
    exact Option.some_ne_none _
  · rw [hflags mgr hmgr flags hf]
    exact (toEpollFlag_bits _ (h.masks mgr hmgr)).1
  · rw [hflags mgr hmgr flags hf]
    exact (toEpollFlag_bits _ (h.masks mgr hmgr)).2

theorem Mirrors.listed (h : Mirrors valid interest R s) (hmgr : mgr ∈ s.managers.elems) :
    interest s.derived.kernel mgr.handle ≠ none := by
  rw [h.watched mgr hmgr]
  exact Option.some_ne_none _

/-- A registered manager waits for something else. -/
theorem Mirrors.change {mask : Operation} (h : Mirrors valid interest R s)
    (hmgr : mgr ∈ s.managers.elems) (hR : R mask) (hman : s'.managers = s.managers)
    (hmask : s'.mask = Function.update s.mask mgr mask) (hvalid : valid s'.derived.kernel)
    (hint : interest s'.derived.kernel =
      Function.update (interest s.derived.kernel) mgr.handle (some (toEpollFlag mask))) :
    Mirrors valid interest R s' := by
  -- another registered manager has another socket
  have hother : ∀ m ∈ s.managers.elems, m ≠ mgr → m.handle ≠ mgr.handle := fun m hm hne he =>
    hne (List.inj_on_of_nodup_map s.managers.nodup hm hmgr he)
  refine ⟨hvalid, fun m hm => ?_, fun m hm => ?_, fun fd hfd => ?_⟩
  · rw [hman] at hm
    rw [hint, hmask]
    by_cases hne : m = mgr
    · subst hne
      simp
    · rw [Function.update_of_ne (hother m hm hne), Function.update_of_ne hne]
      exact h.watched m hm
  · rw [hman] at hm
    rw [hmask]
    by_cases hne : m = mgr
    · subst hne
      simpa using hR
    · rw [Function.update_of_ne hne]
      exact h.masks m hm
  · rw [hman]
    by_cases hne : fd = mgr.handle
    · exact ⟨mgr, hmgr, hne.symm⟩
    · rw [hint, Function.update_of_ne hne] at hfd
      exact h.known fd hfd

/-- A manager is registered on a socket of its own. -/
theorem Mirrors.insert {mask : Operation} (h : Mirrors valid interest R s)
    (hfresh : mgr.handle ∉ s.managers.elems.map Manager.handle) (hR : R mask)
    (hman : s'.managers = s.managers.emplace mgr)
    (hmask : s'.mask = Function.update s.mask mgr mask) (hvalid : valid s'.derived.kernel)
    (hint : interest s'.derived.kernel =
      Function.update (interest s.derived.kernel) mgr.handle (some (toEpollFlag mask))) :
    Mirrors valid interest R s' := by
  have hmem : ∀ m, m ∈ s'.managers.elems ↔ m ∈ s.managers.elems ∨ m = mgr := by
    intro m
    rw [hman, KeyedMap.mem_emplace]
    exact or_congr Iff.rfl (and_iff_left hfresh)
  have hother : ∀ m ∈ s.managers.elems, m.handle ≠ mgr.handle := fun m hm he =>
    hfresh (he ▸ List.mem_map_of_mem hm)
  refine ⟨hvalid, fun m hm => ?_, fun m hm => ?_, fun fd hfd => ?_⟩
  · rw [hint, hmask]
    rcases (hmem m).mp hm with hm | rfl
    · have hne : m ≠ mgr := fun he => hother m hm (congrArg Manager.handle he)
      rw [Function.update_of_ne (hother m hm), Function.update_of_ne hne]
      exact h.watched m hm
    · simp
  · rw [hmask]
    rcases (hmem m).mp hm with hm | rfl
    · have hne : m ≠ mgr := fun he => hother m hm (congrArg Manager.handle he)
      rw [Function.update_of_ne hne]
      exact h.masks m hm
    · simpa using hR
  · by_cases hne : fd = mgr.handle
    · exact ⟨mgr, (hmem mgr).mpr (Or.inr rfl), hne.symm⟩
    · rw [hint, Function.update_of_ne hne] at hfd
      obtain ⟨m, hm, hk⟩ := h.known fd hfd
      exact ⟨m, (hmem m).mpr (Or.inl hm), hk⟩

/-- The manager on a socket is removed. -/
theorem Mirrors.remove {handle : SocketId} {k : κ} (h : Mirrors valid interest R s)
    (hman : s'.managers = s.managers.erase handle) (hmask : s'.mask = s.mask)
    (hkernel : s'.derived.kernel = k) (hvalid : valid k)
    (hint : interest k = Function.update (interest s.derived.kernel) handle none) :
    Mirrors valid interest R s' := by
  rw [← hkernel] at hvalid hint
  refine ⟨hvalid, fun m hm => ?_, fun m hm => ?_, fun fd hfd => ?_⟩
  · rw [hman, KeyedMap.mem_erase] at hm
    rw [hint, hmask, Function.update_of_ne hm.2]
    exact h.watched m hm.1
  · rw [hman, KeyedMap.mem_erase] at hm
    rw [hmask]
    exact h.masks m hm.1
  · rw [hint] at hfd
    by_cases hne : fd = handle
    · subst hne
      exact absurd (Function.update_self _ _ _) hfd
    · rw [Function.update_of_ne hne] at hfd
      obtain ⟨m, hm, hk⟩ := h.known fd hfd
      exact ⟨m, hman ▸ KeyedMap.mem_erase.mpr ⟨hm, hk ▸ hne⟩, hk⟩

/-- What the managers, their masks and the kernel do not show. -/
theorem Mirrors.congr (h : Mirrors valid interest R s)
    (hman : s'.managers.elems.Perm s.managers.elems) (hmask : s'.mask = s.mask)
    (hkernel : s'.derived.kernel = s.derived.kernel) : Mirrors valid interest R s' := by
  refine ⟨hkernel ▸ h.valid, fun m hm => ?_, fun m hm => ?_, fun fd hfd => ?_⟩
  · rw [hkernel, hmask]
    exact h.watched m (hman.mem_iff.mp hm)
  · rw [hmask]
    exact h.masks m (hman.mem_iff.mp hm)
  · rw [hkernel] at hfd
    obtain ⟨m, hm, hk⟩ := h.known fd hfd
    exact ⟨m, hman.mem_iff.mpr hm, hk⟩

/-! ### Managers that stay -/

/-- `shutdown` leaves the manager registered: it is the pipe reader, or waits for more than reading and
accepting. -/
def Spared (mgr : Manager) (s : EpollMultiplexer κ) : Prop :=
  mgr.handle = s.pipeReader ∨ s.mask mgr &&& ~~~Operation.readAccept ≠ Operation.none

/-- The managers in `P` that `shutdown` spares are registered still, and those that wait for writing
wait for it still. -/
structure Keeps (P : Manager → Prop) (s s' : EpollMultiplexer κ) : Prop where
  stays : ∀ m ∈ s.managers.elems, P m → Spared m s → m ∈ s'.managers.elems ∧ Spared m s'
  write : ∀ m ∈ s.managers.elems, P m → s.mask m &&& Operation.write = Operation.write →
    s'.mask m &&& Operation.write = Operation.write

variable {P Q : Manager → Prop}

theorem spared_of_write (h : s.mask mgr &&& Operation.write = Operation.write) : Spared mgr s := by
  refine Or.inr ?_
  revert h
  generalize s.mask mgr = m
  revert m
  decide +kernel

theorem Keeps.refl : Keeps P s s := ⟨fun _ hm _ h => ⟨hm, h⟩, fun _ _ _ h => h⟩

theorem Keeps.trans (h : Keeps P s s') (h' : Keeps P s' s'') : Keeps P s s'' where
  stays m hm hP hs := by
    obtain ⟨hm', hs'⟩ := h.stays m hm hP hs
    exact h'.stays m hm' hP hs'
  write m hm hP hw :=
    h'.write m (h.stays m hm hP (spared_of_write hw)).1 hP (h.write m hm hP hw)

theorem Keeps.imp (h : Keeps P s s') (hPQ : ∀ m, Q m → P m) : Keeps Q s s' where
  stays m hm hQ := h.stays m hm (hPQ m hQ)
  write m hm hQ := h.write m hm (hPQ m hQ)

/-- The manager that has an event waiting for writing is there when the event is handled. -/
theorem Keeps.writer (h : Keeps P s s') (hmgr : mgr ∈ s.managers.elems) (hP : P mgr)
    (hw : s.mask mgr &&& Operation.write = Operation.write) :
    mgr ∈ s'.managers.elems ∧ s'.mask mgr &&& Operation.write = Operation.write :=
  ⟨(h.stays mgr hmgr hP (spared_of_write hw)).1, h.write mgr hmgr hP hw⟩

/-- A change that leaves the managers in `P` and their masks alone. -/
theorem Keeps.of_same (hman : ∀ m ∈ s.managers.elems, P m → m ∈ s'.managers.elems)
    (hmask : ∀ m ∈ s.managers.elems, P m → s'.mask m = s.mask m)
    (hpipe : s'.pipeReader = s.pipeReader) : Keeps P s s' where
  stays m hm hP hs := by
    refine ⟨hman m hm hP, ?_⟩
    unfold Spared
    rw [hpipe, hmask m hm hP]
    exact hs
  write m hm hP hw := by
    rw [hmask m hm hP]
    exact hw

/-- A manager waits for more than before. -/
theorem Keeps.of_or {op : Operation} (hman : s'.managers = s.managers)
    (hmask : s'.mask = Function.update s.mask mgr (s.mask mgr ||| op))
    (hpipe : s'.pipeReader = s.pipeReader) : Keeps P s s' := by
  have hgrow : ∀ m, ∃ op, s'.mask m = s.mask m ||| op := by
    intro m
    rw [hmask]
    by_cases hne : m = mgr
    · subst hne
      exact ⟨op, Function.update_self _ _ _⟩
    · exact ⟨0#8, by rw [Function.update_of_ne hne, BitVec.or_zero]⟩
  refine ⟨fun m hm _ hs => ⟨hman ▸ hm, ?_⟩, fun m _ _ hw => ?_⟩
  · refine hs.imp (fun h => h.trans hpipe.symm) fun h hnone => h ?_
    obtain ⟨op', hop⟩ := hgrow m
    rw [hop, BitVec.and_comm, BitVec.and_or_distrib_left] at hnone
    rw [BitVec.and_comm]
    exact (BitVec.or_eq_zero_iff.mp hnone).1
  · obtain ⟨op', hop⟩ := hgrow m
    rw [hop, BitVec.and_comm, BitVec.and_or_distrib_left, BitVec.and_comm _ (s.mask m), hw,
      BitVec.and_comm]
    clear hop
    revert op'
    decide +kernel

/-- A manager stops waiting for reading and accepting. -/
theorem Keeps.of_and (hman : s'.managers = s.managers)
    (hmask : s'.mask = Function.update s.mask mgr (s.mask mgr &&& ~~~Operation.readAccept))
    (hpipe : s'.pipeReader = s.pipeReader) : Keeps P s s' := by
  have hshrink : ∀ m, s'.mask m = s.mask m ∨ s'.mask m = s.mask m &&& ~~~Operation.readAccept := by
    intro m
    rw [hmask]
    by_cases hne : m = mgr
    · subst hne
      exact Or.inr (Function.update_self _ _ _)
    · exact Or.inl (Function.update_of_ne hne _ _)
  refine ⟨fun m hm _ hs => ⟨hman ▸ hm, ?_⟩, fun m _ _ hw => ?_⟩
  · unfold Spared
    rw [hpipe]
    rcases hshrink m with he | he
    · rw [he]
      exact hs
    · rw [he, BitVec.and_assoc, BitVec.and_self]
      exact hs
  · rcases hshrink m with he | he
    · rw [he]
      exact hw
    · rw [he]
      revert hw
      generalize s.mask m = m'
      revert m'
      decide +kernel

/-- A manager that is removed, where `shutdown` would not spare it. -/
theorem Keeps.of_unspared (h : Keeps (· ≠ mgr) s s') (hs : ¬ Spared mgr s) :
    Keeps (fun _ => True) s s' := by
  refine ⟨fun m hm _ hspared => h.stays m hm ?_ hspared, fun m hm _ hw => h.write m hm ?_ hw⟩
  · rintro rfl
    exact hs hspared
  · rintro rfl
    exact hs (spared_of_write hw)

/-! ### Interface functions -/

section Calls

variable {ctl : EpollCtl κ} (hK : Instance ctl valid interest)
  (onError : EpollMultiplexer κ → Except Fault (EpollMultiplexer κ))

/-- `mod`, when `epoll_ctl` succeeds. -/
theorem mod_ok {fd : SocketId} {op : CtlOp} {events : Operation}
    (hok : (ctl s.derived.kernel op fd (toEpollFlag events)).1 = true) :
    mod ctl onError fd op events s =
      .ok { s with derived.kernel := (ctl s.derived.kernel op fd (toEpollFlag events)).2 } := by
  unfold mod
  simp only [hok, ↓reduceIte]

include hK

/-- A registered manager gets another mask. -/
theorem mod_mirrors {mask : Operation} (h : Mirrors valid interest R s)
    (hmgr : mgr ∈ s.managers.elems) (hmask : R mask) :
    ∃ k, mod ctl onError mgr.handle .mod mask (s.maskSet mgr mask) =
        .ok { s.maskSet mgr mask with derived.kernel := k } ∧
      Mirrors valid interest R { s.maskSet mgr mask with derived.kernel := k } := by
  obtain ⟨hok, hvalid, hint⟩ :=
    hK.mod s.derived.kernel mgr.handle (toEpollFlag mask) h.valid (h.listed hmgr)
  exact ⟨_, mod_ok onError (s := s.maskSet mgr mask) hok,
    h.change hmgr hmask rfl rfl hvalid hint⟩

/-- A manager goes to the instance and to the map, before its `init`. -/
theorem mod_add_mirrors {initial : Operation} (h : Mirrors valid interest R s)
    (hfresh : mgr.handle ∉ s.managers.elems.map Manager.handle) (hinitial : R initial) :
    ∃ s', mod ctl onError mgr.handle .add initial (s.maskSet mgr initial) = .ok s' ∧
      Mirrors valid interest R (s'.add mgr) ∧ Keeps (fun _ => True) s (s'.add mgr) ∧
      mgr ∈ (s'.add mgr).managers.elems ∧
      (∀ m ∈ s.managers.elems, m ∈ (s'.add mgr).managers.elems) := by
  have hnone : interest s.derived.kernel mgr.handle = none := by
    by_contra hne
    obtain ⟨m, hm, hk⟩ := h.known _ hne
    exact hfresh (hk ▸ List.mem_map_of_mem hm)
  obtain ⟨hok, hvalid, hint⟩ :=
    hK.add s.derived.kernel mgr.handle (toEpollFlag initial) h.valid hnone
  have hstay : ∀ m ∈ s.managers.elems, m ∈ (s.managers.emplace mgr).elems :=
    fun m hm => KeyedMap.mem_emplace.mpr (Or.inl hm)
  refine ⟨_, mod_ok onError (s := s.maskSet mgr initial) hok,
    h.insert hfresh hinitial rfl rfl hvalid hint,
    Keeps.of_same (fun m hm _ => hstay m hm) (fun m hm _ => ?_) rfl,
    KeyedMap.mem_emplace.mpr (Or.inr ⟨rfl, hfresh⟩), hstay⟩
  refine Function.update_of_ne ?_ _ _
  rintro rfl
  exact hfresh (List.mem_map_of_mem hm)

/-- `EPOLL_CTL_DEL` for a registered manager. -/
theorem mod_del_ok (h : Mirrors valid interest R s) (hmgr : mgr ∈ s.managers.elems) :
    ∃ k, mod ctl onError mgr.handle .del Operation.none s = .ok { s with derived.kernel := k } ∧
      valid k ∧ interest k = Function.update (interest s.derived.kernel) mgr.handle none := by
  obtain ⟨hok, hvalid, hint⟩ :=
    hK.del s.derived.kernel mgr.handle (toEpollFlag Operation.none) h.valid (h.listed hmgr)
  exact ⟨_, mod_ok onError hok, hvalid, hint⟩

/-- `del(socket)` for the socket of a registered manager. -/
theorem del_mirrors (h : Mirrors valid interest R s) (hmgr : mgr ∈ s.managers.elems) :
    ∃ s', del ctl onError mgr.handle s = .ok s' ∧ Mirrors valid interest R s' ∧
      Keeps (· ≠ mgr) s s' := by
  obtain ⟨k, hok, hvalid, hint⟩ := mod_del_ok hK onError h hmgr
  refine ⟨erased mgr.handle { s with derived.kernel := k }, ?_,
    h.remove (erased_managers _ _) (erased_mask _ _)
      (congrArg EpollData.kernel (erased_derived _ _)) hvalid hint,
    Keeps.of_same (fun m hm hne => ?_) (fun m _ _ => ?_) (erased_pipeReader _ _)⟩
  · unfold del
    rw [hok]
    rfl
  · rw [erased_managers]
    refine KeyedMap.mem_erase.mpr ⟨hm, fun he => hne ?_⟩
    exact List.inj_on_of_nodup_map s.managers.nodup hm hmgr he
  · rw [erased_mask]

theorem delIt_mirrors (h : Mirrors valid interest R s) (hmgr : mgr ∈ s.managers.elems) :
    ∃ s', delIt ctl onError mgr s = .ok s' ∧ Mirrors valid interest R s' ∧
      Keeps (· ≠ mgr) s s' := by
  obtain ⟨k, hok, hvalid, hint⟩ := mod_del_ok hK onError h hmgr
  refine ⟨MultiplexerBase.eraseIt { s with derived.kernel := k } mgr, ?_,
    h.remove (MultiplexerBase.eraseIt_managers _ _) (MultiplexerBase.eraseIt_mask _ _)
      (congrArg EpollData.kernel (MultiplexerBase.eraseIt_derived _ _)) hvalid hint,
    Keeps.of_same (fun m hm hne => ?_) (fun m _ _ => ?_) (MultiplexerBase.eraseIt_pipeReader _ _)⟩
  · unfold delIt
    rw [hok]
    exact if_pos hmgr
  · rw [MultiplexerBase.eraseIt_managers]
    refine KeyedMap.mem_erase.mpr ⟨hm, fun he => hne ?_⟩
    exact List.inj_on_of_nodup_map s.managers.nodup hm hmgr he
  · rw [MultiplexerBase.eraseIt_mask]

/-- `disable`, when it changes the mask. -/
theorem disable_mod {op mask : Operation} (remove : Bool) (h : Mirrors valid interest R s)
    (hR : Closed R) (hmgr : mgr ∈ s.managers.elems) (hd : maskDel (s.mask mgr) op = some mask) :
    ∃ s₁, Mirrors valid interest R s₁ ∧ s₁.managers = s.managers ∧ s₁.pipeReader = s.pipeReader ∧
      s₁.mask = Function.update s.mask mgr (s.mask mgr &&& ~~~op) ∧
      disable ctl onError mgr op remove s =
        if remove && s₁.mask mgr = Operation.none then del ctl onError mgr.handle s₁ else .ok s₁ := by
  have hmask : mask = s.mask mgr &&& ~~~op := mask_of_maskDel_some hd
  obtain ⟨k, hok, hs⟩ := mod_mirrors hK onError h hmgr (hmask ▸ hR.and _ _ (h.masks mgr hmgr))
  refine ⟨_, hs, rfl, rfl, hmask ▸ rfl, ?_⟩
  unfold disable
  simp only [hd, hok, bind, Except.bind]
  cases remove with
  | false => rfl
  | true => exact (if_pos hmgr).trans (by simp only [Bool.true_and, decide_eq_true_eq]; rfl)

/-- `disable` without a removal. -/
theorem disable_stays (op : Operation) (h : Mirrors valid interest R s) (hR : Closed R)
    (hmgr : mgr ∈ s.managers.elems) :
    ∃ s', disable ctl onError mgr op false s = .ok s' ∧ Mirrors valid interest R s' ∧
      s'.managers = s.managers ∧ s'.pipeReader = s.pipeReader ∧
      s'.mask = Function.update s.mask mgr (s.mask mgr &&& ~~~op) := by
  cases hd : maskDel (s.mask mgr) op with
  | none =>
    refine ⟨s, ?_, h, rfl, rfl, ?_⟩
    · unfold disable
      rw [hd]
    · rw [mask_of_maskDel_none hd, Function.update_eq_self]
  | some mask =>
    obtain ⟨s₁, h₁, hman, hpipe, hmask, hok⟩ := disable_mod hK onError false h hR hmgr hd
    exact ⟨s₁, hok, h₁, hman, hpipe, hmask⟩

/-- A registered manager stops waiting for `op`, and is removed if it shall be and waits for
nothing. -/
theorem disable_mirrors (op : Operation) (remove : Bool) (h : Mirrors valid interest R s)
    (hR : Closed R) (hmgr : mgr ∈ s.managers.elems) :
    ∃ s', disable ctl onError mgr op remove s = .ok s' ∧ Mirrors valid interest R s' ∧
      Keeps (· ≠ mgr) s s' ∧
      (s.mask mgr &&& ~~~op ≠ Operation.none →
        mgr ∈ s'.managers.elems ∧ s'.mask mgr = s.mask mgr &&& ~~~op) := by
  cases hd : maskDel (s.mask mgr) op with
  | none =>
    refine ⟨s, ?_, h, Keeps.refl, fun _ => ⟨hmgr, (mask_of_maskDel_none hd).symm⟩⟩
    unfold disable
    rw [hd]
  | some mask =>
    obtain ⟨s₁, h₁, hman, hpipe, hmask, hok⟩ := disable_mod hK onError remove h hR hmgr hd
    have hmgr₁ : mgr ∈ s₁.managers.elems := hman ▸ hmgr
    have hself : s₁.mask mgr = s.mask mgr &&& ~~~op := by
      rw [hmask, Function.update_self]
    have hk₁ : Keeps (· ≠ mgr) s s₁ := Keeps.of_same (fun m hm _ => hman ▸ hm)
      (fun m _ hne => by rw [hmask, Function.update_of_ne hne]) hpipe
    rw [hok]
    by_cases hremove : (remove && decide (s₁.mask mgr = Operation.none)) = true
    · obtain ⟨s₂, hok₂, h₂, hk₂⟩ := del_mirrors hK onError h₁ hmgr₁
      have hnone : s₁.mask mgr = Operation.none :=
        of_decide_eq_true (Bool.and_eq_true_iff.mp hremove).2
      rw [if_pos hremove]
      exact ⟨s₂, hok₂, h₂, hk₁.trans hk₂, fun hne => absurd (hself.symm.trans hnone) hne⟩
    · rw [if_neg hremove]
      exact ⟨s₁, rfl, h₁, hk₁, fun _ => ⟨hmgr₁, hself⟩⟩

theorem enable_mirrors {op : Operation} (h : Mirrors valid interest R s) (hR : Closed R)
    (hmgr : mgr ∈ s.managers.elems) (hop : R op) :
    ∃ s', enable ctl onError mgr op s = .ok s' ∧ Mirrors valid interest R s' ∧
      s'.managers = s.managers ∧ Keeps (fun _ => True) s s' := by
  unfold enable
  cases ha : maskAdd (s.mask mgr) op with
  | none => exact ⟨s, rfl, h, rfl, Keeps.refl⟩
  | some mask =>
    have hmask : mask = s.mask mgr ||| op := (maskAdd_some ha).1
    obtain ⟨k, hok, hs⟩ :=
      mod_mirrors hK onError h hmgr (hmask ▸ hR.or _ _ (h.masks mgr hmgr) hop)
    have hgrow : (s.maskSet mgr mask).mask = Function.update s.mask mgr (s.mask mgr ||| op) := by
      rw [← hmask]
      rfl
    exact ⟨_, hok, hs, rfl, Keeps.of_or rfl hgrow rfl⟩

theorem register_mirrors {op : Operation} (h : Mirrors valid interest R s) (hR : Closed R)
    (hmgr : mgr ∈ s.managers.elems) (hop : R op) :
    ∃ s', register ctl onError mgr op s = .ok s' ∧ Mirrors valid interest R s' ∧
      s'.managers = s.managers ∧ Keeps (fun _ => True) s s' := by
  unfold register
  by_cases hm : s.mask mgr &&& op = Operation.none
  · rw [if_pos hm]
    exact enable_mirrors hK onError h hR hmgr hop
  · rw [if_neg hm]
    exact ⟨s, rfl, h, rfl, Keeps.refl⟩

/-- The loop of `shutdown` over the managers. -/
theorem shutdownLoop_mirrors (l : List Manager) (h : Mirrors valid interest R s) (hR : Closed R) :
    ∃ s', MultiplexerBase.shutdownLoop
        (fun mgr => disable ctl onError mgr Operation.readAccept false) (delIt ctl onError) l s =
          .ok s' ∧ Mirrors valid interest R s' ∧ Keeps (fun _ => True) s s' := by
  induction l generalizing s with
  | nil => exact ⟨s, rfl, h, Keeps.refl⟩
  | cons mgr l ih =>
    unfold MultiplexerBase.shutdownLoop
    by_cases hvisit : mgr ∈ s.managers.elems ∧ mgr.handle ≠ s.pipeReader
    · obtain ⟨s₁, hok₁, h₁, hman₁, hpipe₁, hmask₁⟩ :=
        disable_stays hK onError Operation.readAccept h hR hvisit.1
      have hk₁ : Keeps (fun _ => True) s s₁ := Keeps.of_and hman₁ hmask₁ hpipe₁
      have hmgr₁ : mgr ∈ s₁.managers.elems := hman₁ ▸ hvisit.1
      rw [if_pos hvisit]
      simp only [hok₁, bind, Except.bind, hmgr₁, not_true_eq_false, ↓reduceIte]
      by_cases hnone : s₁.mask mgr = Operation.none
      · obtain ⟨s₂, hok₂, h₂, hk₂⟩ := delIt_mirrors hK onError h₁ hmgr₁
        have hunspared : ¬ Spared mgr s₁ := by
          unfold Spared
          rw [hnone, hpipe₁]
          exact not_or.mpr ⟨hvisit.2, not_not.mpr BitVec.zero_and⟩
        obtain ⟨s₃, hok₃, h₃, hk₃⟩ := ih h₂
        simp only [hnone, hok₂, ↓reduceIte]
        exact ⟨s₃, hok₃, h₃, (hk₁.trans (hk₂.of_unspared hunspared)).trans hk₃⟩
      · obtain ⟨s₃, hok₃, h₃, hk₃⟩ := ih h₁
        rw [if_neg hnone]
        exact ⟨s₃, hok₃, h₃, hk₁.trans hk₃⟩
    · rw [if_neg hvisit]
      exact ih h

/-- **`shutdown`**. -/
theorem shutdown_mirrors (depth : ℕ) (h : Mirrors valid interest R s) (hR : Closed R) :
    ∃ s', shutdown ctl (depth + 1) s = .ok s' ∧ Mirrors valid interest R s' ∧
      Keeps (fun _ => True) s s' := by
  have hstart : Mirrors valid interest R { s.logShutdown with shuttingDown := true } :=
    h.congr (List.Perm.refl _) rfl rfl
  obtain ⟨s₁, hok, h₁, hk₁⟩ :=
    shutdownLoop_mirrors hK (shutdown ctl depth) s.managers.elems hstart hR
  refine ⟨{ s₁ with pipeWriter := invalidSocketId }, ?_, h₁.congr (List.Perm.refl _) rfl rfl,
    ⟨hk₁.stays, hk₁.write⟩⟩
  unfold shutdown MultiplexerBase.shutdownWith
  simp only [bind, Except.bind]
  change Except.bind (MultiplexerBase.shutdownLoop _ _ s.managers.elems _) _ = _
  rw [hok]
  rfl

end Calls

/-! ### Handlers -/

section Handlers

variable (R) (ctl : EpollCtl κ) (depth : ℕ)

mutual

/-- The act is about a registered manager, or adds one on a socket of its own. -/
def Proper : Act → EpollMultiplexer κ → Prop
  | .registerReading mgr, s => mgr ∈ s.managers.elems
  | .registerWriting mgr, s => mgr ∈ s.managers.elems
  | .setTimeout _ _, _ => True
  | .add mgr initial init _, s =>
    mgr.handle ∉ s.managers.elems.map Manager.handle ∧ R initial ∧
      ∀ s', mod ctl (shutdown ctl depth) mgr.handle .add initial (s.maskSet mgr initial) = .ok s' →
        ProperAll init (s'.add mgr)
  | .shutdown, _ => True
  | .rehash _, _ => True

/-- So are the acts of a handler, each in the state that it meets. -/
def ProperAll : List Act → EpollMultiplexer κ → Prop
  | [], _ => True
  | act :: acts, s => Proper act s ∧ ∀ s', perform ctl depth act s = .ok s' → ProperAll acts s'

end

/-- A handler of a registered manager, which does not remove its manager. -/
def ProperHandler (mgr : Manager) (handler : Handler) (s : EpollMultiplexer κ) : Prop :=
  ProperAll R ctl depth handler.acts s ∧
    ∀ s', performAll ctl depth handler.acts s = .ok s' → mgr ∈ s'.managers.elems

/-- The write part of an event: its manager is registered still. -/
def ProperWrite (mgr : Manager) (event : Event) (s : EpollMultiplexer κ) : Prop :=
  event.flags &&& epollOut = epollOut →
    mgr ∈ s.managers.elems ∧ ProperHandler R ctl depth mgr event.onWrite s

/-- An event is dispatched on registered managers, and none is removed inside its own handler. -/
def ProperEvent (event : Event) (s : EpollMultiplexer κ) : Prop :=
  (event.flags = epollHup ||| epollRdHup ||| epollErr → (s.managers.find? event.fd).isSome) ∧
    (event.flags ≠ epollHup ||| epollRdHup ||| epollErr →
      ∀ mgr, s.managers.find? event.fd = some mgr →
        (event.flags &&& epollIn = epollIn →
          ProperHandler R ctl depth mgr event.onRead s ∧
            ∀ s', dispatch ctl depth mgr event.onRead Operation.read Operation.read s =
              .ok (true, s') → ProperWrite R ctl depth mgr event s') ∧
        (event.flags &&& epollIn ≠ epollIn → ProperWrite R ctl depth mgr event s))

/-- Every event of a batch meets `C` in the state in which it is handled. -/
def AlongEvents (C : Event → EpollMultiplexer κ → Prop) : List Event → EpollMultiplexer κ → Prop
  | [], _ => True
  | event :: events, s =>
    C event s ∧ ∀ s', handleEvent ctl depth event s = .ok s' → AlongEvents C events s'

variable {R ctl}

mutual

/-- One act of a handler, by recursion on the acts of the `init` of a new manager. -/
theorem perform_mirrors (hK : Instance ctl valid interest) (hR : Closed R) (act : Act)
    {s : EpollMultiplexer κ} (h : Mirrors valid interest R s) (hact : Proper R ctl (depth + 1) act s) :
    ∃ s', perform ctl (depth + 1) act s = .ok s' ∧ Mirrors valid interest R s' ∧
      Keeps (fun _ => True) s s' := by
  cases act with
  | registerReading mgr =>
    obtain ⟨s', hok, hs', -, hk⟩ := register_mirrors hK (shutdown ctl (depth + 1)) h hR hact hR.read
    exact ⟨s', hok, hs', hk⟩
  | registerWriting mgr =>
    obtain ⟨s', hok, hs', -, hk⟩ := register_mirrors hK (shutdown ctl (depth + 1)) h hR hact hR.write
    exact ⟨s', hok, hs', hk⟩
  | setTimeout mgr when =>
    exact ⟨_, rfl, h.congr (List.Perm.refl _) rfl rfl,
      Keeps.of_same (fun _ hm _ => hm) (fun _ _ _ => rfl) rfl⟩
  | add mgr initial init fails =>
    obtain ⟨hfresh, hinitial, hinit⟩ := hact
    obtain ⟨s₁, hok₁, h₁, hk₁, -⟩ :=
      mod_add_mirrors hK (shutdown ctl (depth + 1)) h hfresh hinitial
    obtain ⟨s₂, hok₂, h₂, hk₂⟩ := performAll_mirrors hK hR init h₁ (hinit s₁ hok₁)
    unfold perform add
    simp only [hok₁, hok₂, bind, Except.bind, Except.map]
    cases fails with
    | false => exact ⟨s₂, rfl, h₂, hk₁.trans hk₂⟩
    | true =>
      obtain ⟨s₃, hok₃, h₃, hk₃⟩ := shutdown_mirrors hK depth h₂ hR
      exact ⟨s₃, hok₃, h₃, (hk₁.trans hk₂).trans hk₃⟩
  | shutdown => exact shutdown_mirrors hK depth h hR
  | rehash order =>
    have hperm := s.managers.rehash_perm order
    exact ⟨_, rfl, h.congr hperm rfl rfl,
      Keeps.of_same (fun m hm _ => hperm.mem_iff.mpr hm) (fun _ _ _ => rfl) rfl⟩

/-- The acts of a handler. -/
theorem performAll_mirrors (hK : Instance ctl valid interest) (hR : Closed R) (acts : List Act)
    {s : EpollMultiplexer κ} (h : Mirrors valid interest R s)
    (hacts : ProperAll R ctl (depth + 1) acts s) :
    ∃ s', performAll ctl (depth + 1) acts s = .ok s' ∧ Mirrors valid interest R s' ∧
      Keeps (fun _ => True) s s' := by
  cases acts with
  | nil => exact ⟨s, rfl, h, Keeps.refl⟩
  | cons act acts =>
    obtain ⟨s₁, hok₁, h₁, hk₁⟩ := perform_mirrors hK hR act h hacts.1
    obtain ⟨s₂, hok₂, h₂, hk₂⟩ := performAll_mirrors hK hR acts h₁ (hacts.2 s₁ hok₁)
    refine ⟨s₂, ?_, h₂, hk₁.trans hk₂⟩
    unfold performAll
    rw [hok₁]
    exact hok₂

end

/-! ### Dispatch -/

section Dispatch

variable (hK : Instance ctl valid interest) (hR : Closed R)

include hK hR

/-- The verdict of a handler whose manager is registered. A manager that waits for more than what the
verdict retires stays. -/
theorem handleResult_mirrors (res : ManagerResult) (op : Operation) (h : Mirrors valid interest R s)
    (hmgr : res = .done ∨ res = .error → mgr ∈ s.managers.elems) :
    ∃ further s', handleResult ctl depth mgr res op s = .ok (further, s') ∧
      Mirrors valid interest R s' ∧ Keeps (· ≠ mgr) s s' ∧
      (further = true → mgr ∈ s.managers.elems → s.mask mgr &&& ~~~op ≠ Operation.none →
        mgr ∈ s'.managers.elems ∧ s'.mask mgr &&& ~~~op = s.mask mgr &&& ~~~op) := by
  unfold handleResult
  cases res with
  | ok => exact ⟨true, s, rfl, h, Keeps.refl, fun _ hm _ => ⟨hm, rfl⟩⟩
  | temporaryError => exact ⟨true, s, rfl, h, Keeps.refl, fun _ hm _ => ⟨hm, rfl⟩⟩
  | done =>
    have hmem := hmgr (Or.inl rfl)
    obtain ⟨s', hok, hs', hk, hstays⟩ :=
      disable_mirrors hK (shutdown ctl depth) op true h hR hmem
    simp only [if_pos hmem, hok, Except.map]
    refine ⟨true, s', rfl, hs', hk, fun _ _ hne => ?_⟩
    obtain ⟨hmem', hmask⟩ := hstays hne
    exact ⟨hmem', by rw [hmask, BitVec.and_assoc, BitVec.and_self]⟩
  | error =>
    have hmem := hmgr (Or.inr rfl)
    obtain ⟨s', hok, hs', hk⟩ := del_mirrors hK (shutdown ctl depth) h hmem
    simp only [if_pos hmem, hok, Except.map]
    exact ⟨false, s', rfl, hs', hk, fun hf => absurd hf (by decide)⟩

/-- A handler is called and its verdict is handled. -/
theorem dispatch_mirrors {handler : Handler} (kind op : Operation) (h : Mirrors valid interest R s)
    (hacts : ProperAll R ctl (depth + 1) handler.acts s)
    (hstays : handler.verdict = .done ∨ handler.verdict = .error →
      ∀ s', performAll ctl (depth + 1) handler.acts s = .ok s' → mgr ∈ s'.managers.elems) :
    ∃ further s', dispatch ctl (depth + 1) mgr handler kind op s = .ok (further, s') ∧
      Mirrors valid interest R s' ∧ Keeps (· ≠ mgr) s s' := by
  obtain ⟨s₁, hok₁, h₁, hk₁⟩ := performAll_mirrors depth hK hR handler.acts h hacts
  obtain ⟨further, s₂, hok₂, h₂, hk₂, -⟩ :=
    handleResult_mirrors (depth + 1) hK hR handler.verdict op h₁ fun hv => hstays hv s₁ hok₁
  unfold dispatch
  simp only [hok₁, hok₂, bind, Except.bind]
  refine ⟨further, _, rfl, h₂.congr (List.Perm.refl _) rfl rfl, ?_⟩
  exact (hk₁.imp fun _ _ => trivial).trans ⟨hk₂.stays, hk₂.write⟩

theorem handleWrite_mirrors {event : Event} (h : Mirrors valid interest R s)
    (hproper : ProperWrite R ctl (depth + 1) mgr event s) :
    ∃ s', handleWrite ctl (depth + 1) mgr event s = .ok s' ∧ Mirrors valid interest R s' := by
  unfold handleWrite
  by_cases hout : event.flags &&& epollOut = epollOut
  · obtain ⟨hmgr, hacts, hstays⟩ := hproper hout
    obtain ⟨further, s', hok, hs', -⟩ :=
      dispatch_mirrors depth hK hR Operation.write Operation.read h hacts fun _ => hstays
    rw [if_pos hout, if_pos hmgr, hok]
    exact ⟨s', rfl, hs'⟩
  · rw [if_neg hout]
    exact ⟨s, rfl, h⟩

/-- **One event.** -/
theorem handleEvent_mirrors {event : Event} (h : Mirrors valid interest R s)
    (hproper : ProperEvent R ctl (depth + 1) event s) :
    ∃ s', handleEvent ctl (depth + 1) event s = .ok s' ∧ Mirrors valid interest R s' := by
  unfold handleEvent
  by_cases hhup : event.flags = epollHup ||| epollRdHup ||| epollErr
  · obtain ⟨mgr, hfind⟩ := Option.isSome_iff_exists.mp (hproper.1 hhup)
    obtain ⟨hmgr, hfd⟩ := KeyedMap.find?_eq_some.mp hfind
    obtain ⟨s', hok, hs', -⟩ := del_mirrors hK (shutdown ctl (depth + 1)) h hmgr
    rw [if_pos hhup, ← hfd]
    exact ⟨s', hok, hs'⟩
  · rw [if_neg hhup]
    cases hfind : s.managers.find? event.fd with
    | none => exact ⟨s, rfl, h⟩
    | some mgr =>
      obtain ⟨hread, hwrite⟩ := hproper.2 hhup mgr hfind
      by_cases hin : event.flags &&& epollIn = epollIn
      · obtain ⟨⟨hacts, hstays⟩, hnext⟩ := hread hin
        obtain ⟨further, s₁, hok₁, h₁, -⟩ :=
          dispatch_mirrors depth hK hR Operation.read Operation.read h hacts fun _ => hstays
        simp only [if_pos hin, hok₁, bind, Except.bind]
        cases further with
        | false => exact ⟨s₁, rfl, h₁⟩
        | true => exact handleWrite_mirrors depth hK hR h₁ (hnext s₁ hok₁)
      · simp only [if_neg hin]
        exact handleWrite_mirrors depth hK hR h (hwrite hin)

theorem eventLoop_mirrors {events : List Event} (h : Mirrors valid interest R s)
    (hproper : AlongEvents ctl (depth + 1) (ProperEvent R ctl (depth + 1)) events s) :
    ∃ s', eventLoop ctl (depth + 1) events s = .ok s' ∧ Mirrors valid interest R s' := by
  induction events generalizing s with
  | nil => exact ⟨s, rfl, h⟩
  | cons event events ih =>
    obtain ⟨s₁, hok₁, h₁⟩ := handleEvent_mirrors depth hK hR h hproper.1
    obtain ⟨s₂, hok₂, h₂⟩ := ih h₁ (hproper.2 s₁ hok₁)
    refine ⟨s₂, ?_, h₂⟩
    unfold eventLoop
    rw [hok₁]
    exact hok₂

end Dispatch

/-! ### Runs -/

/-- A call of the multiplexer; `enable`, `disable` and both forms of `del` besides what a handler may
do. -/
inductive Call where
  | act (act : Act)
  | enable (mgr : Manager) (op : Operation)
  | disable (mgr : Manager) (op : Operation) (remove : Bool)
  | del (handle : SocketId)
  | delIt (mgr : Manager)
  | events (events : List Event)

variable (ctl) in
/-- One call. -/
def call : Call → EpollMultiplexer κ → Except Fault (EpollMultiplexer κ)
  | .act act, s => perform ctl depth act s
  | .enable mgr op, s => enable ctl (shutdown ctl depth) mgr op s
  | .disable mgr op remove, s => disable ctl (shutdown ctl depth) mgr op remove s
  | .del handle, s => del ctl (shutdown ctl depth) handle s
  | .delIt mgr, s => delIt ctl (shutdown ctl depth) mgr s
  | .events events, s => handleEvents ctl depth events s

variable (ctl) in
/-- The calls of a run, in order. -/
def calls : List Call → EpollMultiplexer κ → Except Fault (EpollMultiplexer κ)
  | [], s => .ok s
  | c :: cs, s => call ctl depth c s >>= calls cs

variable (ctl) in
/-- Every call of a run meets `C` in the state in which it is made. -/
def AlongCalls (C : Call → EpollMultiplexer κ → Prop) : List Call → EpollMultiplexer κ → Prop
  | [], _ => True
  | c :: cs, s => C c s ∧ ∀ s', call ctl depth c s = .ok s' → AlongCalls C cs s'

variable (R ctl) in
/-- A call for registered managers, or one that adds a manager on a socket of its own. Events are
dispatched on registered managers, and none is removed inside its own handler. -/
def ProperCall : Call → EpollMultiplexer κ → Prop
  | .act act, s => Proper R ctl depth act s
  | .enable mgr op, s => mgr ∈ s.managers.elems ∧ R op
  | .disable mgr _ _, s => mgr ∈ s.managers.elems
  | .del handle, s => handle ∈ s.managers.elems.map Manager.handle
  | .delIt mgr, s => mgr ∈ s.managers.elems
  | .events events, s =>
    AlongEvents ctl depth (ProperEvent R ctl depth) events { s with derived.dispatches := [] }

theorem alongCalls_and {C D : Call → EpollMultiplexer κ → Prop} {cs : List Call}
    (h : AlongCalls ctl depth C cs s) (h' : AlongCalls ctl depth D cs s) :
    AlongCalls ctl depth (fun c s => C c s ∧ D c s) cs s := by
  induction cs generalizing s with
  | nil => trivial
  | cons c cs ih => exact ⟨⟨h.1, h'.1⟩, fun s' hok => ih (h.2 s' hok) (h'.2 s' hok)⟩

/-- What every call that meets `C` preserves, and goes through with, a run does. -/
theorem calls_preserve {I : EpollMultiplexer κ → Prop} {C : Call → EpollMultiplexer κ → Prop}
    (hstep : ∀ c s, I s → C c s → ∃ s', call ctl depth c s = .ok s' ∧ I s')
    {cs : List Call} (h : I s) (hcs : AlongCalls ctl depth C cs s) :
    ∃ s', calls ctl depth cs s = .ok s' ∧ I s' := by
  induction cs generalizing s with
  | nil => exact ⟨s, rfl, h⟩
  | cons c cs ih =>
    obtain ⟨s₁, hok₁, h₁⟩ := hstep c s h hcs.1
    obtain ⟨s₂, hok₂, h₂⟩ := ih h₁ (hcs.2 s₁ hok₁)
    refine ⟨s₂, ?_, h₂⟩
    unfold calls
    rw [hok₁]
    exact hok₂

/-- A call other than the dispatch of events. -/
theorem call_mirrors_of_no_events (hK : Instance ctl valid interest) (hR : Closed R) {c : Call}
    (hc : ∀ events, c ≠ .events events) (h : Mirrors valid interest R s)
    (hproper : ProperCall R ctl (depth + 1) c s) :
    ∃ s', call ctl (depth + 1) c s = .ok s' ∧ Mirrors valid interest R s' := by
  cases c with
  | act act =>
    obtain ⟨s', hok, hs', -⟩ := perform_mirrors depth hK hR act h hproper
    exact ⟨s', hok, hs'⟩
  | enable mgr op =>
    obtain ⟨s', hok, hs', -⟩ :=
      enable_mirrors hK (shutdown ctl (depth + 1)) h hR hproper.1 hproper.2
    exact ⟨s', hok, hs'⟩
  | disable mgr op remove =>
    obtain ⟨s', hok, hs', -⟩ :=
      disable_mirrors hK (shutdown ctl (depth + 1)) op remove h hR hproper
    exact ⟨s', hok, hs'⟩
  | del handle =>
    obtain ⟨mgr, hmgr, rfl⟩ := List.mem_map.mp hproper
    obtain ⟨s', hok, hs', -⟩ := del_mirrors hK (shutdown ctl (depth + 1)) h hmgr
    exact ⟨s', hok, hs'⟩
  | delIt mgr =>
    obtain ⟨s', hok, hs', -⟩ := delIt_mirrors hK (shutdown ctl (depth + 1)) h hproper
    exact ⟨s', hok, hs'⟩
  | events events => exact absurd rfl (hc events)

/-- **One call.** -/
theorem call_mirrors (hK : Instance ctl valid interest) (hR : Closed R) {c : Call}
    (h : Mirrors valid interest R s) (hc : ProperCall R ctl (depth + 1) c s) :
    ∃ s', call ctl (depth + 1) c s = .ok s' ∧ Mirrors valid interest R s' := by
  by_cases hevents : ∃ events, c = .events events
  · obtain ⟨events, rfl⟩ := hevents
    exact eventLoop_mirrors depth hK hR (h.congr (List.Perm.refl _) rfl rfl) hc
  · exact call_mirrors_of_no_events depth hK hR (not_exists.mp hevents) h hc

/-- **The epoll instance mirrors the masks after every run of calls**, and every such run goes
through. -/
theorem interest_mirrors (hK : Instance ctl valid interest) (hs : Fresh valid interest s)
    {cs : List Call} (hcs : AlongCalls ctl (depth + 1) (ProperCall Ready ctl (depth + 1)) cs s) :
    ∃ s', calls ctl (depth + 1) cs s = .ok s' ∧ Mirrored interest s' := by
  obtain ⟨s', hok, hs'⟩ := calls_preserve (I := Mirrors valid interest Ready) (depth + 1)
    (fun c s h hc => call_mirrors depth hK ready_closed h hc) hs.mirrors hcs
  exact ⟨s', hok, hs'.mirrored⟩

end Handlers

/-- A kernel that keeps the flags of every watched socket. -/
def flagCtl : EpollCtl (SocketId → Option EpollFlags)
  | k, .add, fd, flags =>
    if k fd = none then (true, Function.update k fd (some flags)) else (false, k)
  | k, .mod, fd, flags =>
    if k fd = none then (false, k) else (true, Function.update k fd (some flags))
  | k, .del, fd, _ => if k fd = none then (false, k) else (true, Function.update k fd none)

theorem flagCtl_instance : Instance flagCtl (fun _ => True) fun k => k where
  add k fd flags _ h := by simp [flagCtl, h]
  mod k fd flags _ h := by simp [flagCtl, h]
  del k fd flags _ h := by simp [flagCtl, h]

/-- A manager that is added for reading and registers for writing in its `init`. -/
def connect : Call :=
  .act (.add ⟨0, 4⟩ Operation.read [.registerWriting ⟨0, 4⟩] false)

/-- The read handler of the manager is done. -/
def readDone : Call := .events [⟨4, epollIn, ⟨[], .done⟩, ⟨[], .ok⟩⟩]

theorem interest_mirrors_connect :
    ∃ s', calls flagCtl 1 [connect, readDone, .act .shutdown] (MultiplexerBase.init ⟨fun _ => none, []⟩) =
        .ok s' ∧ Mirrored (fun k => k) s' := by
  refine interest_mirrors 0 flagCtl_instance ⟨rfl, trivial, fun _ => rfl⟩
    ⟨⟨by decide, by decide, ?_⟩, ?_⟩
  · intro s' h
    obtain rfl := Except.ok.inj h
    exact ⟨List.mem_cons_self, fun _ _ => trivial⟩
  · intro s₁ h₁
    obtain rfl := Except.ok.inj h₁
    refine ⟨⟨⟨fun h => absurd h (by decide), fun _ mgr hmgr => ⟨fun _ => ⟨⟨trivial, ?_⟩, ?_⟩, ?_⟩⟩, ?_⟩, ?_⟩
    · intro s' h
      obtain rfl := Except.ok.inj h
      exact (KeyedMap.find?_eq_some.mp hmgr).1
    · exact fun s' _ hout => absurd hout (by decide)
    · exact fun h => absurd (by decide) h
    · exact fun _ _ => trivial
    · exact fun _ _ => ⟨trivial, fun _ _ => trivial⟩

end NetworkDriver.Net.Multiplexer.Epoll.Mirror
