import NetworkDriver.Net.Multiplexer.Epoll.Mirror

/-! # Verdicts of the handlers under epoll

A verdict `done` retires the operation of the handler that returned it, and a verdict `error`, or a
`done` that leaves nothing to wait for, removes the manager: `Kept` says so of the dispatches of one
manager, `BatchKept` of a whole batch. `handle_events` retires reading after the write handler as
well.

* `handleEvents_kept_iff`: a batch is handled, and its verdicts are kept if and only if no write
  handler that is called returns `done`.
* `handleEvents_write_done`: a manager that finishes writing keeps the interest in writing.

Handlers register managers, set timeouts and add managers (`Mild`). Of the other managers that were
there before the batch, one event removes none and lets each wait for no less (`Touches`), so the batch
is taken apart event by event. -/

namespace NetworkDriver.Net.Multiplexer.Epoll.Dispatch

open NetworkDriver.Library.Keyed NetworkDriver.Net.Types
open NetworkDriver.Net.Multiplexer.Base NetworkDriver.Net.Multiplexer.Epoll.Model
open NetworkDriver.Net.Multiplexer.Epoll.Mirror (AlongEvents)

/-! ### The property -/

/-- The dispatch cleared an operation from the mask. -/
def Clears (d : Dispatch) (op : Operation) : Prop :=
  d.before &&& op ≠ Operation.none ∧ d.after &&& op = Operation.none

/-- The dispatches of one manager respect the verdicts of its handlers; `gone` says whether it was
removed. -/
structure Kept (ds : List Dispatch) (gone : Prop) : Prop where
  read : (∃ d ∈ ds, Clears d Operation.read) ↔
    ∃ d ∈ ds, d.handler = Operation.read ∧ d.verdict = .done
  write : (∃ d ∈ ds, Clears d Operation.write) ↔
    ∃ d ∈ ds, d.handler = Operation.write ∧ d.verdict = .done
  removed : gone ↔
    ∃ d ∈ ds, d.verdict = .error ∨ (d.verdict = .done ∧ d.after = Operation.none)

variable {κ : Type}

/-- The dispatches of a manager in the last batch. -/
def dispatchesOf (mgr : Manager) (ds : List Dispatch) : List Dispatch := ds.filter (·.mgr = mgr)

/-- The verdicts of a batch are respected for every manager, and the mask of a manager without an event
is the same as before. -/
structure BatchKept (s s' : EpollMultiplexer κ) (events : List Event) : Prop where
  kept : ∀ mgr ∈ s.managers.elems,
    Kept (dispatchesOf mgr s'.derived.dispatches) (mgr ∉ s'.managers.elems)
  untouched : ∀ mgr ∈ s.managers.elems, mgr.handle ∉ events.map Event.fd → s'.mask mgr = s.mask mgr

/-- The event leads to a call of the read handler. -/
def callsRead (event : Event) : Prop := event.flags &&& epollIn = epollIn

/-- The event leads to a call of the write handler. -/
def callsWrite (event : Event) : Prop :=
  event.flags &&& epollOut = epollOut ∧ (callsRead event → event.onRead.verdict ≠ .error)

/-! ### The events of a batch -/

/-- What epoll promises: `EPOLL_CTL_ADD` succeeds for a socket that is not on the interest list, the
others for one that is, and they change the list for this socket only. -/
structure Interest (ctl : EpollCtl κ) (listed : κ → SocketId → Prop) : Prop where
  add_ok : ∀ k fd flags, ¬ listed k fd → (ctl k .add fd flags).1 = true ∧
    ∀ fd', listed (ctl k .add fd flags).2 fd' ↔ fd' = fd ∨ listed k fd'
  mod_ok : ∀ k fd flags, listed k fd → (ctl k .mod fd flags).1 = true ∧
    ∀ fd', listed (ctl k .mod fd flags).2 fd' ↔ listed k fd'
  del_ok : ∀ k fd flags, listed k fd → (ctl k .del fd flags).1 = true ∧
    ∀ fd', fd' ≠ fd → (listed (ctl k .del fd flags).2 fd' ↔ listed k fd')

/-- An event as `epoll_wait` reports it for a registered manager: for what the manager waits for, which
is reading or writing. -/
structure Reports (listed : κ → SocketId → Prop) (s : EpollMultiplexer κ) (mgr : Manager)
    (event : Event) : Prop where
  registered : s.managers.find? event.fd = some mgr
  listed : listed s.derived.kernel event.fd
  flags : event.flags &&& (epollIn ||| epollOut) ≠ 0
  read : callsRead event → s.mask mgr &&& Operation.read = Operation.read
  write : event.flags &&& epollOut = epollOut → s.mask mgr &&& Operation.write = Operation.write

section Handlers

-- `old` are the managers registered before the batch, and `fds` the sockets that have an event in it
variable (old : List Manager) (fds : List SocketId)

/-- The manager has an event in the batch, or was not there before it. -/
def Concerned (mgr : Manager) : Prop := mgr ∈ old → mgr.handle ∈ fds

variable (listed : κ → SocketId → Prop) (ctl : EpollCtl κ) (depth : ℕ)

mutual

/-- What a handler may do: register a manager for reading or writing, set timeouts, and add new
managers, each on a socket of its own, whose `init` does no more and succeeds. Neither `shutdown` nor
`handle_error` is called. -/
def Mild : Act → EpollMultiplexer κ → Prop
  | .registerReading mgr, s => mgr ∈ s.managers.elems ∧ Concerned old fds mgr
  | .registerWriting mgr, s => mgr ∈ s.managers.elems ∧ Concerned old fds mgr
  | .setTimeout _ _, _ => True
  | .add mgr initial init fails, s =>
    mgr ∉ old ∧ mgr.handle ∉ s.managers.elems.map Manager.handle ∧
      ¬ listed s.derived.kernel mgr.handle ∧ fails = false ∧
      ∀ s', mod ctl (shutdown ctl depth) mgr.handle .add initial (s.maskSet mgr initial) = .ok s' →
        MildAll init (s'.add mgr)
  | .shutdown, _ => False
  | .rehash _, _ => True

/-- The acts of a handler, each in the state that it meets. -/
def MildAll : List Act → EpollMultiplexer κ → Prop
  | [], _ => True
  | act :: acts, s => Mild act s ∧ ∀ s', perform ctl depth act s = .ok s' → MildAll acts s'

end

/-- The write part of an event. -/
def MildWrite (event : Event) (s : EpollMultiplexer κ) : Prop :=
  event.flags &&& epollOut = epollOut → MildAll old fds listed ctl depth event.onWrite.acts s

/-- The handlers of an event, each in the state that it meets. -/
def MildEvent (event : Event) (s : EpollMultiplexer κ) : Prop :=
  ∀ mgr, s.managers.find? event.fd = some mgr →
    (callsRead event → MildAll old fds listed ctl depth event.onRead.acts s ∧
      ∀ s', dispatch ctl depth mgr event.onRead Operation.read Operation.read s = .ok (true, s') →
        MildWrite old fds listed ctl depth event s') ∧
    (¬ callsRead event → MildWrite old fds listed ctl depth event s)

/-- A batch of events for distinct registered sockets, with handlers that are mild when they are
called. -/
structure Reported (s : EpollMultiplexer κ) (events : List Event) : Prop where
  distinct : (events.map Event.fd).Nodup
  reports : ∀ event ∈ events, ∃ mgr, Reports listed s mgr event
  mild : AlongEvents ctl depth
    (MildEvent s.managers.elems (events.map Event.fd) listed ctl depth) events
    { s with derived.dispatches := [] }

end Handlers

/-! ### Masks -/

theorem or_keeps (m op : Operation) (h : m &&& op = op) (op' : Operation) :
    (m ||| op') &&& op = op := by
  rw [← h]
  ext i hi
  simp only [BitVec.getElem_and, BitVec.getElem_or]
  cases m[i] <;> cases op[i] <;> cases op'[i] <;> rfl

theorem retire_read (m : Operation) :
    (m &&& Operation.read = Operation.read →
      maskDel m Operation.read = some (m &&& ~~~Operation.read) ∧
      m &&& Operation.read ≠ Operation.none) ∧
    (m &&& ~~~Operation.read) &&& Operation.read = Operation.none ∧
    (m &&& ~~~Operation.read) &&& Operation.write = m &&& Operation.write := by
  revert m
  decide +kernel

theorem read_or_none (m : Operation) :
    m &&& Operation.read = Operation.read ∨ maskDel m Operation.read = none := by
  revert m
  decide +kernel

theorem write_ne_none (m : Operation) (h : m &&& Operation.write = Operation.write) :
    m ≠ Operation.none ∧ m &&& Operation.write ≠ Operation.none := by
  revert m
  decide +kernel

/-! ### What an event touches -/

section Touches

variable (old : List Manager) (fds : List SocketId) (listed : κ → SocketId → Prop)

/-- The registered managers that the batch is concerned with are on the interest list. -/
def Watched (s : EpollMultiplexer κ) : Prop :=
  ∀ m ∈ s.managers.elems, Concerned old fds m → listed s.derived.kernel m.handle

/-- The other managers stay and wait for no less, and the managers without an event for the same as
before. Whoever came is new. -/
structure Touches (mgr : Manager) (s s' : EpollMultiplexer κ) : Prop where
  mask : ∀ m ∈ s.managers.elems, m ≠ mgr → ∀ op, s.mask m &&& op = op → s'.mask m &&& op = op
  same : ∀ m, ¬ Concerned old fds m → s'.mask m = s.mask m
  stays : ∀ m ∈ s.managers.elems, m ≠ mgr → m ∈ s'.managers.elems
  new : ∀ m ∈ s'.managers.elems, m ∈ s.managers.elems ∨ m ∉ old
  watched : Watched old fds listed s'

/-- The manager is registered, and the batch is concerned with it. -/
structure Present (mgr : Manager) (s : EpollMultiplexer κ) : Prop where
  member : mgr ∈ s.managers.elems
  concerned : Concerned old fds mgr
  watched : Watched old fds listed s

/-- All managers stay and wait for no less than before. -/
structure Grows (s s' : EpollMultiplexer κ) : Prop where
  mask : ∀ m ∈ s.managers.elems, ∀ op, s.mask m &&& op = op → s'.mask m &&& op = op
  same : ∀ m, ¬ Concerned old fds m → s'.mask m = s.mask m
  stays : ∀ m ∈ s.managers.elems, m ∈ s'.managers.elems
  new : ∀ m ∈ s'.managers.elems, m ∈ s.managers.elems ∨ m ∉ old
  watched : Watched old fds listed s'
  dispatches : s'.derived.dispatches = s.derived.dispatches

end Touches

section Effects

variable {old : List Manager} {fds : List SocketId} {listed : κ → SocketId → Prop} {ctl : EpollCtl κ}
  {mgr : Manager} {s s' s'' : EpollMultiplexer κ}
  {onError : EpollMultiplexer κ → Except Fault (EpollMultiplexer κ)} {depth : ℕ}

theorem Touches.refl (h : Watched old fds listed s) : Touches old fds listed mgr s s :=
  ⟨fun _ _ _ _ => id, fun _ _ => rfl, fun _ hm _ => hm, fun _ => Or.inl, h⟩

theorem Touches.trans (h : Touches old fds listed mgr s s') (h' : Touches old fds listed mgr s' s'') :
    Touches old fds listed mgr s s'' where
  mask m hm hne op hop := h'.mask m (h.stays m hm hne) hne op (h.mask m hm hne op hop)
  same m hm := (h'.same m hm).trans (h.same m hm)
  stays m hm hne := h'.stays m (h.stays m hm hne) hne
  new m hm := (h'.new m hm).elim (h.new m) Or.inr
  watched := h'.watched

theorem Grows.refl (h : Watched old fds listed s) : Grows old fds listed s s :=
  ⟨fun _ _ _ => id, fun _ _ => rfl, fun _ hm => hm, fun _ => Or.inl, h, rfl⟩

theorem Grows.trans (h : Grows old fds listed s s') (h' : Grows old fds listed s' s'') :
    Grows old fds listed s s'' where
  mask m hm op hop := h'.mask m (h.stays m hm) op (h.mask m hm op hop)
  same m hm := (h'.same m hm).trans (h.same m hm)
  stays m hm := h'.stays m (h.stays m hm)
  new m hm := (h'.new m hm).elim (h.new m) Or.inr
  watched := h'.watched
  dispatches := h'.dispatches.trans h.dispatches

theorem Grows.touches (h : Grows old fds listed s s') (mgr : Manager) : Touches old fds listed mgr s s' :=
  ⟨fun m hm _ => h.mask m hm, h.same, fun m hm _ => h.stays m hm, h.new, h.watched⟩

theorem Grows.present (h : Grows old fds listed s s') (hp : Present old fds listed mgr s) :
    Present old fds listed mgr s' :=
  ⟨h.stays mgr hp.member, hp.concerned, h.watched⟩

/-- One mask changes, and the kernel keeps its list. -/
theorem Present.change {k : κ} (hp : Present old fds listed mgr s) (mask : Operation)
    (hk : ∀ fd, listed k fd ↔ listed s.derived.kernel fd) :
    Present old fds listed mgr { s.maskSet mgr mask with derived.kernel := k } :=
  ⟨hp.member, hp.concerned, fun m hm hc => (hk _).mpr (hp.watched m hm hc)⟩

variable (onError) in
/-- `mod` of a manager that is present. -/
theorem mod_present (hI : Interest ctl listed) (hp : Present old fds listed mgr s) (mask : Operation) :
    ∃ k, mod ctl onError mgr.handle .mod mask (s.maskSet mgr mask) =
        .ok { s.maskSet mgr mask with derived.kernel := k } ∧
      ∀ fd, listed k fd ↔ listed s.derived.kernel fd := by
  obtain ⟨hok, hlisted⟩ := hI.mod_ok s.derived.kernel mgr.handle (toEpollFlag mask)
    (hp.watched mgr hp.member hp.concerned)
  refine ⟨_, ?_, hlisted⟩
  unfold mod
  simp only [MultiplexerBase.maskSet, hok, ↓reduceIte]

/-- A manager that the batch is concerned with is none of the others. -/
theorem ne_of_not_concerned {m : Manager} (hc : Concerned old fds mgr) (hm : ¬ Concerned old fds m) :
    m ≠ mgr := by
  rintro rfl
  exact hm hc

/-- `register_reading` and `register_writing`. -/
theorem register_grows (hI : Interest ctl listed) (hp : Present old fds listed mgr s) (op : Operation) :
    ∃ s', register ctl onError mgr op s = .ok s' ∧ Grows old fds listed s s' := by
  have hsame : Grows old fds listed s s := Grows.refl hp.watched
  unfold register enable
  by_cases hm : s.mask mgr &&& op = Operation.none
  · rw [if_pos hm]
    unfold maskAdd
    by_cases ha : s.mask mgr &&& op = op
    · rw [if_pos ha]
      exact ⟨s, rfl, hsame⟩
    · rw [if_neg ha]
      obtain ⟨k, hok, hk⟩ := mod_present onError hI hp (s.mask mgr ||| op)
      refine ⟨_, hok, fun m hm op' hop' => ?_, fun m hm => ?_, fun _ hm => hm, fun _ => Or.inl,
        (hp.change _ hk).watched, rfl⟩
      · change Function.update s.mask mgr (s.mask mgr ||| op) m &&& op' = op'
        by_cases hne : m = mgr
        · subst hne
          rw [Function.update_self]
          exact or_keeps _ _ hop' _
        · rw [Function.update_of_ne hne]
          exact hop'
      · exact Function.update_of_ne (ne_of_not_concerned hp.concerned hm) _ _
  · rw [if_neg hm]
    exact ⟨s, rfl, hsame⟩

variable (onError) in
/-- A new manager is put on the interest list and into the map. -/
theorem mod_add_grows (hI : Interest ctl listed) (hw : Watched old fds listed s) (initial : Operation)
    (hnew : mgr ∉ old) (hfresh : mgr.handle ∉ s.managers.elems.map Manager.handle)
    (hfree : ¬ listed s.derived.kernel mgr.handle) :
    ∃ s', mod ctl onError mgr.handle .add initial (s.maskSet mgr initial) = .ok s' ∧
      Grows old fds listed s (s'.add mgr) := by
  obtain ⟨hok, hlisted⟩ := hI.add_ok s.derived.kernel mgr.handle (toEpollFlag initial) hfree
  have hadd : mod ctl onError mgr.handle .add initial (s.maskSet mgr initial) =
      .ok { s.maskSet mgr initial with
        derived.kernel := (ctl s.derived.kernel .add mgr.handle (toEpollFlag initial)).2 } := by
    unfold mod
    simp only [MultiplexerBase.maskSet, hok, ↓reduceIte]
  have hmem : ∀ m, m ∈ (s.managers.emplace mgr).elems ↔ m ∈ s.managers.elems ∨ m = mgr := by
    intro m
    rw [KeyedMap.mem_emplace, and_iff_left hfresh]
  have hne : ∀ m, m ∈ s.managers.elems ∨ ¬ Concerned old fds m → m ≠ mgr := by
    rintro m (hm | hm) rfl
    · exact hfresh (List.mem_map_of_mem hm)
    · exact hm fun h => absurd h hnew
  refine ⟨_, hadd, fun m hm op hop => ?_, fun m hm => ?_, fun m hm => (hmem m).mpr (Or.inl hm),
    fun m hm => ?_, fun m hm hc => ?_, rfl⟩
  · change Function.update s.mask mgr initial m &&& op = op
    rw [Function.update_of_ne (hne m (Or.inl hm))]
    exact hop
  · exact Function.update_of_ne (hne m (Or.inr hm)) _ _
  · refine ((hmem m).mp hm).imp_right ?_
    rintro rfl
    exact hnew
  · refine (hlisted m.handle).mpr ?_
    rcases (hmem m).mp hm with hm | rfl
    · exact Or.inr (hw m hm hc)
    · exact Or.inl rfl

mutual

/-- One act of a handler, by recursion on the acts of the `init` of a new manager. -/
theorem perform_grows (hI : Interest ctl listed) (act : Act) {s : EpollMultiplexer κ}
    (hw : Watched old fds listed s) (ha : Mild old fds listed ctl depth act s) :
    ∃ s', perform ctl depth act s = .ok s' ∧ Grows old fds listed s s' := by
  cases act with
  | registerReading mgr => exact register_grows hI ⟨ha.1, ha.2, hw⟩ _
  | registerWriting mgr => exact register_grows hI ⟨ha.1, ha.2, hw⟩ _
  | setTimeout mgr when =>
    exact ⟨_, rfl, fun _ _ _ => id, fun _ _ => rfl, fun _ hm => hm, fun _ => Or.inl, hw, rfl⟩
  | add mgr initial init fails =>
    obtain ⟨hnew, hfresh, hfree, rfl, hinit⟩ := ha
    obtain ⟨s₁, hok₁, hg₁⟩ := mod_add_grows (shutdown ctl depth) hI hw initial hnew hfresh hfree
    obtain ⟨s₂, hok₂, hg₂⟩ := performAll_grows hI init hg₁.watched (hinit s₁ hok₁)
    refine ⟨s₂, ?_, hg₁.trans hg₂⟩
    unfold perform add
    simp only [hok₁, hok₂, bind, Except.bind, Except.map, Bool.not_false, ↓reduceIte]
    rfl
  | shutdown => exact ha.elim
  | rehash order =>
    have hmem : ∀ m, m ∈ (s.managers.rehash order).elems ↔ m ∈ s.managers.elems := fun m =>
      (s.managers.rehash_perm order).mem_iff
    exact ⟨_, rfl, fun _ _ _ => id, fun _ _ => rfl, fun m => (hmem m).mpr,
      fun m hm => Or.inl ((hmem m).mp hm), fun m hm => hw m ((hmem m).mp hm), rfl⟩

/-- The acts of a handler. -/
theorem performAll_grows (hI : Interest ctl listed) (acts : List Act) {s : EpollMultiplexer κ}
    (hw : Watched old fds listed s) (ha : MildAll old fds listed ctl depth acts s) :
    ∃ s', performAll ctl depth acts s = .ok s' ∧ Grows old fds listed s s' := by
  cases acts with
  | nil => exact ⟨s, rfl, Grows.refl hw⟩
  | cons act acts =>
    obtain ⟨s₁, hok₁, hg₁⟩ := perform_grows hI act hw ha.1
    obtain ⟨s₂, hok₂, hg₂⟩ := performAll_grows hI acts hg₁.watched (ha.2 s₁ hok₁)
    refine ⟨s₂, ?_, hg₁.trans hg₂⟩
    unfold performAll
    rw [hok₁]
    exact hok₂

end

/-- Another registered manager has another socket. -/
theorem handle_ne {m : Manager} (hm : m ∈ s.managers.elems) (hmgr : mgr ∈ s.managers.elems)
    (hne : m ≠ mgr) : m.handle ≠ mgr.handle :=
  fun he => hne (List.inj_on_of_nodup_map s.managers.nodup hm hmgr he)

variable (onError) in
/-- `del` of a manager that is present. -/
theorem del_present (hI : Interest ctl listed) (hp : Present old fds listed mgr s) :
    ∃ s', del ctl onError mgr.handle s = .ok s' ∧ Touches old fds listed mgr s s' ∧
      mgr ∉ s'.managers.elems ∧ s'.derived.dispatches = s.derived.dispatches ∧
      s'.mask mgr = s.mask mgr := by
  obtain ⟨hok, hlisted⟩ := hI.del_ok s.derived.kernel mgr.handle (toEpollFlag Operation.none)
    (hp.watched mgr hp.member hp.concerned)
  set k := (ctl s.derived.kernel .del mgr.handle (toEpollFlag Operation.none)).2
  have hdel : del ctl onError mgr.handle s =
      .ok (erased mgr.handle { s with derived.kernel := k }) := by
    unfold del mod
    simp only [hok, ↓reduceIte]
    rfl
  refine ⟨_, hdel, ⟨?_, ?_, ?_, ?_, ?_⟩, ?_, ?_, ?_⟩
  · intro m _ _ op hop
    rw [erased_mask]
    exact hop
  · intro m _
    rw [erased_mask]
  · intro m hm hne
    rw [erased_managers, KeyedMap.mem_erase]
    exact ⟨hm, handle_ne hm hp.member hne⟩
  · intro m hm
    rw [erased_managers, KeyedMap.mem_erase] at hm
    exact Or.inl hm.1
  · intro m hm hc
    rw [erased_managers, KeyedMap.mem_erase] at hm
    rw [erased_derived]
    exact (hlisted _ hm.2).mpr (hp.watched m hm.1 hc)
  · rw [erased_managers, KeyedMap.mem_erase]
    exact fun h => h.2 rfl
  · rw [erased_derived]
  · rw [erased_mask]

variable (onError) in
/-- `disable` for reading, of a manager that waits for it. -/
theorem disable_read (hI : Interest ctl listed) (hp : Present old fds listed mgr s)
    (hr : s.mask mgr &&& Operation.read = Operation.read) :
    ∃ s', disable ctl onError mgr Operation.read true s = .ok s' ∧ Touches old fds listed mgr s s' ∧
      s'.derived.dispatches = s.derived.dispatches ∧
      s'.mask mgr = s.mask mgr &&& ~~~Operation.read ∧
      (s'.mask mgr = Operation.none → mgr ∉ s'.managers.elems) ∧
      (s'.mask mgr ≠ Operation.none → Present old fds listed mgr s') := by
  set m := s.mask mgr &&& ~~~Operation.read with hm
  obtain ⟨k, hok, hk⟩ := mod_present onError hI hp m
  set s₁ : EpollMultiplexer κ := { s.maskSet mgr m with derived.kernel := k } with hs₁
  have hp₁ : Present old fds listed mgr s₁ := hp.change m hk
  have hmask : s₁.mask mgr = m := Function.update_self _ _ _
  have hother : ∀ m', m' ≠ mgr → s₁.mask m' = s.mask m' := fun m' hm' => Function.update_of_ne hm' _ _
  have ht₁ : Touches old fds listed mgr s s₁ := by
    refine ⟨fun m' _ hm' op hop => ?_, fun m' hm' => ?_, fun _ hm' _ => hm', fun _ => Or.inl, hp₁.watched⟩
    · rw [hother m' hm']
      exact hop
    · exact hother m' (ne_of_not_concerned hp.concerned hm')
  have halive : mgr ∈ s₁.managers.elems := hp₁.member
  unfold disable
  simp only [((retire_read _).1 hr).1, ← hm, hok]
  change ∃ s', (if mgr ∈ s₁.managers.elems then if s₁.mask mgr = Operation.none
    then del ctl onError mgr.handle s₁ else .ok s₁ else .error .dangling) = .ok s' ∧ _
  rw [if_pos halive, hmask]
  by_cases hnone : m = Operation.none
  · obtain ⟨s₂, hdel, ht₂, hgone, hd, hmask₂⟩ := del_present onError hI hp₁
    refine ⟨s₂, ?_, ht₁.trans ht₂, hd, hmask₂.trans hmask, fun _ => hgone, fun h => ?_⟩
    · rw [if_pos hnone]
      exact hdel
    · exact absurd (hmask₂.trans (hmask.trans hnone)) h
  · refine ⟨s₁, ?_, ht₁, rfl, hmask, fun h => ?_, fun _ => hp₁⟩
    · rw [if_neg hnone]
    · exact absurd (hmask.symm.trans h) hnone

/-! ### Dispatches -/

/-- What the dispatch `d` of a handler of `mgr` made of `s`, if `handle_result` got
`operation::read`. -/
structure Outcome (old : List Manager) (fds : List SocketId) (listed : κ → SocketId → Prop) (mgr : Manager)
    (further : Bool) (d : Dispatch) (s s' : EpollMultiplexer κ) : Prop where
  touches : Touches old fds listed mgr s s'
  dispatches : s'.derived.dispatches = s.derived.dispatches ++ [d]
  owner : d.mgr = mgr
  further : further = true ↔ d.verdict ≠ .error
  after : d.after = s'.mask mgr
  read : s.mask mgr &&& Operation.read = Operation.read → d.verdict = .done →
    Clears d Operation.read
  quiet : d.verdict ≠ .done → ¬ Clears d Operation.read
  write : ¬ Clears d Operation.write
  keepsWrite : s.mask mgr &&& Operation.write = Operation.write →
    s'.mask mgr &&& Operation.write = Operation.write
  gone : d.verdict = .error ∨ (d.verdict = .done ∧ d.after = Operation.none) →
    mgr ∉ s'.managers.elems
  stays : ¬ (d.verdict = .error ∨ (d.verdict = .done ∧ d.after = Operation.none)) →
    Present old fds listed mgr s'

theorem not_clears {d : Dispatch} (h : d.after = d.before) (op : Operation) : ¬ Clears d op := by
  rintro ⟨hb, ha⟩
  rw [h] at ha
  exact hb ha

section Outcomes

variable {s₁ s₂ : EpollMultiplexer κ} (hg : Grows old fds listed s s₁)
  (hp : Present old fds listed mgr s) (kind : Operation)

include hg hp

/-- A verdict that changes nothing: `done` of a manager that does not wait to read is one. -/
theorem outcome_unchanged {v : ManagerResult} (herror : v ≠ .error)
    (hread : v = .done → ¬ s.mask mgr &&& Operation.read = Operation.read)
    (hmask : v = .done → s₁.mask mgr ≠ Operation.none) :
    Outcome old fds listed mgr true ⟨mgr, kind, v, s₁.mask mgr, s₁.mask mgr⟩ s { s₁ with
      derived.dispatches := s₁.derived.dispatches ++
        [⟨mgr, kind, v, s₁.mask mgr, s₁.mask mgr⟩] } where
  touches := ⟨(hg.touches mgr).mask, hg.same, (hg.touches mgr).stays, hg.new, hg.watched⟩
  dispatches := by rw [hg.dispatches]
  owner := rfl
  further := iff_of_true rfl herror
  after := rfl
  read hr hdone := absurd hr (hread hdone)
  quiet _ := not_clears rfl _
  write := not_clears rfl _
  keepsWrite := hg.mask mgr hp.member _
  gone := by
    rintro (h | ⟨hdone, hnone⟩)
    · exact absurd h herror
    · exact absurd hnone (hmask hdone)
  stays _ := ⟨(hg.present hp).member, hp.concerned, hg.watched⟩

/-- After `error` the manager is removed. -/
theorem outcome_removed (ht : Touches old fds listed mgr s₁ s₂) (hgone : mgr ∉ s₂.managers.elems)
    (hds : s₂.derived.dispatches = s₁.derived.dispatches) (hmask : s₂.mask mgr = s₁.mask mgr) :
    Outcome old fds listed mgr false ⟨mgr, kind, .error, s₁.mask mgr, s₂.mask mgr⟩ s { s₂ with
      derived.dispatches := s₂.derived.dispatches ++
        [⟨mgr, kind, .error, s₁.mask mgr, s₂.mask mgr⟩] } where
  touches :=
    have ht' := (hg.touches mgr).trans ht
    ⟨ht'.mask, ht'.same, ht'.stays, ht'.new, ht'.watched⟩
  dispatches := by rw [hds, hg.dispatches]
  owner := rfl
  further := by simp
  after := rfl
  read _ hdone := absurd hdone (by simp)
  quiet _ := not_clears hmask _
  write := not_clears hmask _
  keepsWrite h := by
    change s₂.mask mgr &&& _ = _
    rw [hmask]
    exact hg.mask mgr hp.member _ h
  gone _ := hgone
  stays h := absurd (Or.inl rfl) h

/-- After `done` the manager does not wait to read, and is removed if it waits for nothing else. -/
theorem outcome_disabled (hr : s₁.mask mgr &&& Operation.read = Operation.read)
    (ht : Touches old fds listed mgr s₁ s₂) (hds : s₂.derived.dispatches = s₁.derived.dispatches)
    (hmask : s₂.mask mgr = s₁.mask mgr &&& ~~~Operation.read)
    (hgone : s₂.mask mgr = Operation.none → mgr ∉ s₂.managers.elems)
    (hstays : s₂.mask mgr ≠ Operation.none → Present old fds listed mgr s₂) :
    Outcome old fds listed mgr true ⟨mgr, kind, .done, s₁.mask mgr, s₂.mask mgr⟩ s { s₂ with
      derived.dispatches := s₂.derived.dispatches ++
        [⟨mgr, kind, .done, s₁.mask mgr, s₂.mask mgr⟩] } := by
  obtain ⟨hset, hclear, hwrite⟩ := retire_read (s₁.mask mgr)
  have ht' := (hg.touches mgr).trans ht
  refine ⟨⟨ht'.mask, ht'.same, ht'.stays, ht'.new, ht'.watched⟩, by rw [hds, hg.dispatches], rfl, by simp, rfl,
    fun _ _ => ⟨(hset hr).2, ?_⟩, fun h => absurd rfl h, ?_, fun h => ?_, ?_, fun h => ?_⟩
  · rw [hmask]
    exact hclear
  · rintro ⟨hbefore, hafter⟩
    rw [hmask, hwrite] at hafter
    exact hbefore hafter
  · change s₂.mask mgr &&& _ = _
    rw [hmask, hwrite]
    exact hg.mask mgr hp.member _ h
  · rintro (h | h)
    · exact absurd h (by simp)
    · exact hgone h.2
  · have hp₂ := hstays fun hnone => h (Or.inr ⟨rfl, hnone⟩)
    exact ⟨hp₂.member, hp₂.concerned, hp₂.watched⟩

end Outcomes

variable (depth) in
/-- **A handler is called and its verdict is handled.** -/
theorem dispatch_outcome (hI : Interest ctl listed) {handler : Handler}
    (ha : MildAll old fds listed ctl depth handler.acts s) (hp : Present old fds listed mgr s)
    (kind : Operation)
    (hw : s.mask mgr &&& Operation.read = Operation.read ∨
      s.mask mgr &&& Operation.write = Operation.write) :
    ∃ further s' d, dispatch ctl depth mgr handler kind Operation.read s = .ok (further, s') ∧
      d.handler = kind ∧ d.verdict = handler.verdict ∧ Outcome old fds listed mgr further d s s' := by
  obtain ⟨s₁, hok₁, hg⟩ := performAll_grows hI handler.acts hp.watched ha
  have hp₁ := hg.present hp
  have halive : mgr ∈ s₁.managers.elems := hp₁.member
  unfold dispatch handleResult
  rw [hok₁]
  cases hv : handler.verdict with
  | ok | temporaryError =>
    exact ⟨true, _, _, rfl, rfl, rfl, outcome_unchanged hg hp kind (by simp) (by simp) (by simp)⟩
  | error =>
    obtain ⟨s₂, hdel, ht, hgone, hds, hmask⟩ :=
      del_present (shutdown ctl depth) hI hp₁
    simp only [bind, Except.bind, halive, ↓reduceIte, hdel, Except.map]
    exact ⟨false, _, _, rfl, rfl, rfl, outcome_removed hg hp kind ht hgone hds hmask⟩
  | done =>
    rcases read_or_none (s₁.mask mgr) with hr | hnone
    · obtain ⟨s₂, hdis, ht, hds, hmask, hgone, hstays⟩ :=
        disable_read (shutdown ctl depth) hI hp₁ hr
      simp only [bind, Except.bind, halive, ↓reduceIte, hdis, Except.map]
      exact ⟨true, _, _, rfl, rfl, rfl, outcome_disabled hg hp kind hr ht hds hmask hgone hstays⟩
    · -- reading is not in the mask: nothing is disabled
      have hdis : disable ctl (shutdown ctl depth) mgr Operation.read true s₁ = .ok s₁ := by
        unfold disable
        rw [hnone]
      have hnot : ¬ s.mask mgr &&& Operation.read = Operation.read := by
        intro h
        have hsome := ((retire_read _).1 (hg.mask mgr hp.member _ h)).1
        rw [hnone] at hsome
        exact absurd hsome (by simp)
      have hwrite := hg.mask mgr hp.member _ (hw.resolve_left hnot)
      simp only [bind, Except.bind, halive, ↓reduceIte, hdis, Except.map]
      exact ⟨true, _, _, rfl, rfl, rfl, outcome_unchanged hg hp kind (by simp) (fun _ => hnot)
        fun _ => (write_ne_none _ hwrite).1⟩

theorem Outcome.gone_iff {further : Bool} {d : Dispatch} (h : Outcome old fds listed mgr further d s s') :
    mgr ∉ s'.managers.elems ↔ d.verdict = .error ∨ (d.verdict = .done ∧ d.after = Operation.none) := by
  constructor
  · intro hgone
    by_contra hn
    exact hgone (h.stays hn).member
  · exact h.gone

/-- The dispatch of a read handler keeps its verdict. -/
theorem kept_read {further : Bool} {d : Dispatch} (h : Outcome old fds listed mgr further d s s')
    (hd : d.handler = Operation.read) (hr : s.mask mgr &&& Operation.read = Operation.read) :
    Kept [d] (mgr ∉ s'.managers.elems) := by
  have hne : Operation.read ≠ Operation.write := by decide
  refine ⟨?_, ?_, ?_⟩ <;> simp only [List.mem_singleton, exists_eq_left]
  · rw [hd]
    refine ⟨fun hc => ⟨rfl, ?_⟩, fun hc => h.read hr hc.2⟩
    by_contra hn
    exact h.quiet hn hc
  · rw [hd]
    exact iff_of_false h.write fun hc => hne hc.1
  · exact h.gone_iff

/-- The dispatch of a write handler keeps the verdicts if and only if it is not `done`: it never
clears writing. -/
theorem kept_write_iff {further : Bool} {l : List Dispatch} {d : Dispatch}
    (h : Outcome old fds listed mgr further d s s') (hd : d.handler = Operation.write) (hl : Kept l False)
    (hlr : ∀ d ∈ l, d.handler = Operation.read) :
    Kept (l ++ [d]) (mgr ∉ s'.managers.elems) ↔ d.verdict ≠ .done := by
  have hne : Operation.read ≠ Operation.write := by decide
  -- nothing in `l` comes from a write handler
  have hlw : ¬ ∃ d ∈ l, Clears d Operation.write := by
    rw [hl.write]
    rintro ⟨d, hd, hw, -⟩
    exact hne ((hlr d hd).symm.trans hw)
  constructor
  · intro hk hv
    obtain ⟨d', hd', hc⟩ := hk.write.mpr ⟨d, List.mem_append_right _ List.mem_cons_self, hd, hv⟩
    rcases List.mem_append.mp hd' with hd' | hd'
    · exact hlw ⟨d', hd', hc⟩
    · rw [List.mem_singleton.mp hd'] at hc
      exact h.write hc
  · intro hv
    refine ⟨?_, ?_, ?_⟩ <;> simp only [List.mem_append, or_and_right, exists_or,
      List.mem_singleton, exists_eq_left]
    · rw [hl.read]
      refine or_congr Iff.rfl (iff_of_false (h.quiet hv) fun hc => hv hc.2)
    · refine or_congr (iff_of_false hlw ?_) (iff_of_false h.write fun hc => hv hc.2)
      rintro ⟨d', hd', hw, -⟩
      exact hne ((hlr d' hd').symm.trans hw)
    · have hnone := (not_congr hl.removed).mp id
      rw [h.gone_iff, or_iff_right hnone]

variable (depth) in
/-- **The write part of an event**, after the dispatches `l` of read handlers. -/
theorem handleWrite_effect (hI : Interest ctl listed) {event : Event}
    (ha : MildWrite old fds listed ctl depth event s) (hout : event.flags &&& epollOut = epollOut)
    (hp : Present old fds listed mgr s)
    (hw : s.mask mgr &&& Operation.write = Operation.write) {l : List Dispatch} (hl : Kept l False)
    (hlr : ∀ d ∈ l, d.handler = Operation.read) :
    ∃ s' d, handleWrite ctl depth mgr event s = .ok s' ∧ Touches old fds listed mgr s s' ∧
      s'.derived.dispatches = s.derived.dispatches ++ [d] ∧ d.mgr = mgr ∧
      (Kept (l ++ [d]) (mgr ∉ s'.managers.elems) ↔ event.onWrite.verdict ≠ .done) := by
  obtain ⟨further, s', d, hok, hkind, hverdict, ho⟩ :=
    dispatch_outcome depth hI (ha hout) hp Operation.write (Or.inr hw)
  refine ⟨s', d, ?_, ho.touches, ho.dispatches, ho.owner, ?_⟩
  · unfold handleWrite
    rw [if_pos hout, if_pos hp.member, hok]
    rfl
  · rw [kept_write_iff ho hkind hl hlr, hverdict]

/-- The event is about a manager that was there before the batch. -/
structure Awaits (old : List Manager) (fds : List SocketId) (listed : κ → SocketId → Prop)
    (s : EpollMultiplexer κ) (mgr : Manager) (event : Event) : Prop extends Reports listed s mgr event where
  old : mgr ∈ old
  fd : event.fd ∈ fds

theorem Awaits.handle {event : Event} (h : Awaits old fds listed s mgr event) : mgr.handle = event.fd :=
  (KeyedMap.find?_eq_some.mp h.registered).2

theorem Awaits.present {event : Event} (h : Awaits old fds listed s mgr event)
    (hw : Watched old fds listed s) : Present old fds listed mgr s :=
  ⟨(KeyedMap.find?_eq_some.mp h.registered).1, fun _ => h.handle ▸ h.fd, hw⟩

variable (depth) in
/-- **One event**: it keeps the verdicts of the handlers of its manager if and only if no write handler
returns `done`. -/
theorem handleEvent_effect (hI : Interest ctl listed) {event : Event} (hR : Awaits old fds listed s mgr event)
    (hwatched : Watched old fds listed s) (hmild : MildEvent old fds listed ctl depth event s) :
    ∃ s' ds, handleEvent ctl depth event s = .ok s' ∧ Touches old fds listed mgr s s' ∧
      s'.derived.dispatches = s.derived.dispatches ++ ds ∧ (∀ d ∈ ds, d.mgr = mgr) ∧
      (Kept ds (mgr ∉ s'.managers.elems) ↔ (callsWrite event → event.onWrite.verdict ≠ .done)) := by
  have hp : Present old fds listed mgr s := hR.present hwatched
  have hflags : event.flags ≠ epollHup ||| epollRdHup ||| epollErr := by
    intro h
    have hbits := hR.flags
    rw [h] at hbits
    exact absurd hbits (by decide)
  obtain ⟨hmildRead, hmildWrite⟩ := hmild mgr hR.registered
  unfold handleEvent
  rw [if_neg hflags, hR.registered]
  by_cases hin : event.flags &&& epollIn = epollIn
  · have hr := hR.read hin
    obtain ⟨hacts, hnext⟩ := hmildRead hin
    obtain ⟨further, s₁, d₁, hok₁, hkind₁, hverdict₁, ho₁⟩ :=
      dispatch_outcome depth hI hacts hp Operation.read (Or.inl hr)
    simp only [hin, ↓reduceIte, hok₁, bind, Except.bind]
    have hk₁ := kept_read ho₁ hkind₁ hr
    by_cases herr : d₁.verdict = .error
    · have hf : further = false := by
        simpa using (not_congr ho₁.further).mpr (not_not.mpr herr)
      subst hf
      refine ⟨s₁, [d₁], rfl, ho₁.touches, ho₁.dispatches, by simpa using ho₁.owner, ?_⟩
      refine iff_of_true hk₁ fun hc => absurd ?_ (hc.2 hin)
      exact hverdict₁.symm.trans herr
    · have hf : further = true := ho₁.further.mpr herr
      subst hf
      by_cases hout : event.flags &&& epollOut = epollOut
      · have hw₁ := ho₁.keepsWrite (hR.write hout)
        have hstays : Present old fds listed mgr s₁ := by
          refine ho₁.stays ?_
          rintro (h | h)
          · exact herr h
          · exact (write_ne_none _ hw₁).1 (ho₁.after ▸ h.2)
        have hk : Kept [d₁] False := by
          refine ⟨hk₁.read, hk₁.write, ?_⟩
          rw [← hk₁.removed]
          exact iff_of_false id (not_not.mpr hstays.member)
        obtain ⟨s₂, d₂, hok₂, ht₂, hds₂, howner₂, hkept₂⟩ :=
          handleWrite_effect depth hI (hnext s₁ hok₁) hout hstays hw₁ hk (by simpa using hkind₁)
        refine ⟨s₂, [d₁] ++ [d₂], hok₂, ho₁.touches.trans ht₂, ?_, ?_, hkept₂.trans ?_⟩
        · rw [hds₂, ho₁.dispatches, List.append_assoc]
        · simpa using ⟨ho₁.owner, howner₂⟩
        · refine ⟨fun h _ => h, fun h => h ⟨hout, fun _ => ?_⟩⟩
          exact hverdict₁ ▸ herr
      · refine ⟨s₁, [d₁], if_neg hout, ho₁.touches, ho₁.dispatches, by simpa using ho₁.owner, ?_⟩
        exact iff_of_true hk₁ fun hc => absurd hc.1 hout
  · have hnil : Kept [] False := by
      refine ⟨?_, ?_, ?_⟩ <;> simp
    simp only [hin, ↓reduceIte]
    by_cases hout : event.flags &&& epollOut = epollOut
    · obtain ⟨s₂, d₂, hok₂, ht₂, hds₂, howner₂, hkept₂⟩ :=
        handleWrite_effect depth hI (hmildWrite hin) hout hp (hR.write hout) hnil (by simp)
      refine ⟨s₂, [d₂], hok₂, ht₂, hds₂, by simpa using howner₂, hkept₂.trans ?_⟩
      exact ⟨fun h _ => h, fun h => h ⟨hout, fun hin' => absurd hin' hin⟩⟩
    · refine ⟨s, [], if_neg hout, Touches.refl hwatched, (List.append_nil _).symm, by simp, ?_⟩
      refine iff_of_true ⟨hnil.read, hnil.write, ?_⟩ fun hc => absurd hc.1 hout
      rw [← hnil.removed]
      exact iff_of_false (not_not.mpr hp.member) id

/-! ### Batches -/

/-- What an event leaves as it was reported for the other managers. -/
theorem Awaits.touched {m : Manager} {event : Event} (h : Awaits old fds listed s m event) (hm : m ≠ mgr)
    (ht : Touches old fds listed mgr s s') : Awaits old fds listed s' m event := by
  obtain ⟨hmem, hk⟩ := KeyedMap.find?_eq_some.mp h.registered
  have hstays := ht.stays m hmem hm
  refine ⟨⟨KeyedMap.find?_eq_some.mpr ⟨hstays, hk⟩, ?_, h.flags, fun hc => ?_, fun hc => ?_⟩, h.old, h.fd⟩
  · rw [← hk]
    exact ht.watched m hstays fun _ => hk ▸ h.fd
  · exact ht.mask m hmem hm _ (h.read hc)
  · exact ht.mask m hmem hm _ (h.write hc)

/-- A manager that was there before the batch is there behind an event of another one if and only if it
was there in front of it. -/
theorem Touches.member_iff {m : Manager} (ht : Touches old fds listed mgr s s') (hm : m ≠ mgr)
    (hold : m ∈ old) : m ∈ s'.managers.elems ↔ m ∈ s.managers.elems :=
  ⟨fun hmem => (ht.new m hmem).resolve_right (not_not.mpr hold), fun hmem => ht.stays m hmem hm⟩

theorem dispatchesOf_append (ds ds' : List Dispatch) :
    dispatchesOf mgr (ds ++ ds') = dispatchesOf mgr ds ++ dispatchesOf mgr ds' :=
  List.filter_append ..

theorem dispatchesOf_self {ds : List Dispatch} (h : ∀ d ∈ ds, d.mgr = mgr) : dispatchesOf mgr ds = ds :=
  List.filter_eq_self.mpr fun d hd => decide_eq_true (h d hd)

theorem dispatchesOf_other {ds : List Dispatch} (h : ∀ d ∈ ds, d.mgr ≠ mgr) : dispatchesOf mgr ds = [] :=
  List.filter_eq_nil_iff.mpr fun d hd => by simpa using h d hd

/-- What a batch did: nothing to the managers without an event; and the dispatches of a manager with
one keep its verdicts if and only if its write handler does not return `done`. -/
structure Batch (old : List Manager) (fds : List SocketId) (s s' : EpollMultiplexer κ) (events : List Event)
    (ds : List Dispatch) : Prop where
  dispatches : s'.derived.dispatches = s.derived.dispatches ++ ds
  mask : ∀ mgr, ¬ Concerned old fds mgr → s'.mask mgr = s.mask mgr
  member : ∀ mgr ∈ old, mgr.handle ∉ events.map Event.fd →
    (mgr ∈ s'.managers.elems ↔ mgr ∈ s.managers.elems)
  others : ∀ mgr, mgr.handle ∉ events.map Event.fd → ∀ d ∈ ds, d.mgr ≠ mgr
  kept : ∀ event ∈ events, ∀ mgr ∈ old, s.managers.find? event.fd = some mgr →
    (Kept (dispatchesOf mgr ds) (mgr ∉ s'.managers.elems) ↔
      (callsWrite event → event.onWrite.verdict ≠ .done))

section Batches

variable {event : Event} {events : List Event} {s₁ s₂ : EpollMultiplexer κ} {ds₁ ds₂ : List Dispatch}

/-- An event in front of a batch. -/
theorem Batch.cons (hmgr : Awaits old fds listed s mgr event)
    (hne : mgr.handle ∉ events.map Event.fd) (ht : Touches old fds listed mgr s s₁)
    (hds₁ : s₁.derived.dispatches = s.derived.dispatches ++ ds₁) (howner : ∀ d ∈ ds₁, d.mgr = mgr)
    (hkept₁ : Kept ds₁ (mgr ∉ s₁.managers.elems) ↔
      (callsWrite event → event.onWrite.verdict ≠ .done))
    (hb : Batch old fds s₁ s₂ events ds₂) : Batch old fds s s₂ (event :: events) (ds₁ ++ ds₂) := by
  have hother : ∀ m : Manager, m.handle ∉ (event :: events).map Event.fd →
      m ≠ mgr ∧ m.handle ∉ events.map Event.fd := by
    intro m hm
    rw [List.map_cons, List.mem_cons, not_or] at hm
    refine ⟨?_, hm.2⟩
    rintro rfl
    exact hm.1 hmgr.handle
  refine ⟨?_, fun m hm => (hb.mask m hm).trans (ht.same m hm), fun m hold hm => ?_, fun m hm d hd => ?_, ?_⟩
  · rw [hb.dispatches, hds₁, List.append_assoc]
  · obtain ⟨hm, hm'⟩ := hother m hm
    exact (hb.member m hold hm').trans (ht.member_iff hm hold)
  · obtain ⟨hm, hm'⟩ := hother m hm
    rcases List.mem_append.mp hd with hd | hd
    · rw [howner d hd]
      exact hm.symm
    · exact hb.others m hm' d hd
  · intro event' hevent' m hold hm
    rw [dispatchesOf_append]
    rcases List.mem_cons.mp hevent' with rfl | hevent'
    · rw [hmgr.registered] at hm
      obtain rfl := Option.some.inj hm
      rw [dispatchesOf_self howner, dispatchesOf_other (hb.others _ hne), List.append_nil,
        hb.member _ hold hne]
      exact hkept₁
    · obtain ⟨hmem', hk⟩ := KeyedMap.find?_eq_some.mp hm
      have hmne : m ≠ mgr := by
        rintro rfl
        exact hne (hk ▸ List.mem_map_of_mem hevent')
      have hm₁ : s₁.managers.find? event'.fd = some m :=
        KeyedMap.find?_eq_some.mpr ⟨ht.stays m hmem' hmne, hk⟩
      rw [dispatchesOf_other (fun d hd => howner d hd ▸ hmne.symm), List.nil_append]
      exact hb.kept event' hevent' m hold hm₁

end Batches

variable (depth) in
/-- **The loop of `handle_events`.** -/
theorem eventLoop_batch (hI : Interest ctl listed) {events : List Event}
    (hdistinct : (events.map Event.fd).Nodup)
    (hR : ∀ event ∈ events, ∃ mgr, Awaits old fds listed s mgr event)
    (hwatched : Watched old fds listed s)
    (hmild : AlongEvents ctl depth (MildEvent old fds listed ctl depth) events s) :
    ∃ s' ds, eventLoop ctl depth events s = .ok s' ∧ Batch old fds s s' events ds := by
  induction events generalizing s with
  | nil =>
    refine ⟨s, [], rfl, (List.append_nil _).symm, fun _ _ => rfl, fun _ _ _ => Iff.rfl, ?_, ?_⟩
    · simp
    · simp
  | cons event events ih =>
    obtain ⟨hfresh, hdistinct⟩ := List.nodup_cons.mp hdistinct
    obtain ⟨mgr, hmgr⟩ := hR event List.mem_cons_self
    have hne : mgr.handle ∉ events.map Event.fd := hmgr.handle ▸ hfresh
    obtain ⟨s₁, ds₁, hok₁, ht, hds₁, howner, hkept₁⟩ :=
      handleEvent_effect depth hI hmgr hwatched hmild.1
    have hR₁ : ∀ event' ∈ events, ∃ m, Awaits old fds listed s₁ m event' := by
      intro event' hevent'
      obtain ⟨m, hm⟩ := hR event' (List.mem_cons_of_mem _ hevent')
      refine ⟨m, hm.touched ?_ ht⟩
      rintro rfl
      exact hne (hm.handle ▸ List.mem_map_of_mem hevent')
    obtain ⟨s₂, ds₂, hok₂, hb⟩ := ih hdistinct hR₁ ht.watched (hmild.2 s₁ hok₁)
    refine ⟨s₂, ds₁ ++ ds₂, ?_, hb.cons hmgr hne ht hds₁ howner hkept₁⟩
    unfold eventLoop
    rw [hok₁]
    exact hok₂

end Effects

/-- **The verdicts of a batch are kept if and only if no write handler returns `done`**, for every
state and every batch of reported events, whatever managers the handlers register and add. -/
theorem handleEvents_kept_iff {ctl : EpollCtl κ} {listed : κ → SocketId → Prop} (hI : Interest ctl listed)
    (depth : ℕ) {s : EpollMultiplexer κ} {events : List Event} (hR : Reported listed ctl depth s events) :
    ∃ s', handleEvents ctl depth events s = .ok s' ∧
      (BatchKept s s' events ↔
        ∀ event ∈ events, callsWrite event → event.onWrite.verdict ≠ .done) := by
  -- what the events wait for, and what is on the interest list, at the beginning
  have hawaits : ∀ event ∈ events, ∃ mgr, Awaits s.managers.elems (events.map Event.fd) listed
      { s with derived.dispatches := [] } mgr event := by
    intro event hevent
    obtain ⟨mgr, h⟩ := hR.reports event hevent
    exact ⟨mgr, ⟨h.registered, h.listed, h.flags, h.read, h.write⟩,
      (KeyedMap.find?_eq_some.mp h.registered).1, List.mem_map_of_mem hevent⟩
  have hwatched : Watched s.managers.elems (events.map Event.fd) listed
      { s with derived.dispatches := [] } := by
    intro m hm hc
    obtain ⟨event, hevent, hfd⟩ := List.mem_map.mp (hc hm)
    obtain ⟨mgr, h⟩ := hR.reports event hevent
    rw [← hfd]
    exact h.listed
  obtain ⟨s', ds, hok, hb⟩ := eventLoop_batch depth hI hR.distinct hawaits hwatched hR.mild
  have hds : s'.derived.dispatches = ds := hb.dispatches
  refine ⟨s', hok, fun hk event hevent => ?_, fun h => ⟨fun mgr hmgr => ?_, fun mgr hmgr hfd => ?_⟩⟩
  · obtain ⟨mgr, hmgr⟩ := hR.reports event hevent
    have hmem := (KeyedMap.find?_eq_some.mp hmgr.registered).1
    have hkept := hk.kept mgr hmem
    rw [hds] at hkept
    exact (hb.kept event hevent mgr hmem hmgr.registered).mp hkept
  · rw [hds]
    by_cases hm : mgr.handle ∈ events.map Event.fd
    · obtain ⟨event, hevent, hfd⟩ := List.mem_map.mp hm
      have hfind : s.managers.find? event.fd = some mgr :=
        KeyedMap.find?_eq_some.mpr ⟨hmgr, hfd.symm⟩
      exact (hb.kept event hevent mgr hmgr hfind).mpr (h event hevent)
    · rw [dispatchesOf_other (hb.others mgr hm)]
      have hstays := (hb.member mgr hmgr hm).mpr hmgr
      refine ⟨?_, ?_, ?_⟩ <;> simp [hstays]
  · exact hb.mask mgr fun hc => hfd (hc hmgr)

/-- A kernel that keeps its interest list and nothing else. -/
def listCtl : EpollCtl (List SocketId)
  | k, .add, fd, _ => (decide (fd ∉ k), if fd ∈ k then k else fd :: k)
  | k, .mod, fd, _ => (decide (fd ∈ k), k)
  | k, .del, fd, _ => (decide (fd ∈ k), k.filter (· ≠ fd))

theorem listCtl_interest : Interest listCtl fun k fd => fd ∈ k where
  add_ok k fd flags h := by
    refine ⟨decide_eq_true h, fun fd' => ?_⟩
    change fd' ∈ (if fd ∈ k then k else fd :: k) ↔ _
    rw [if_neg h, List.mem_cons]
  mod_ok k fd flags h := ⟨decide_eq_true h, fun _ => Iff.rfl⟩
  del_ok k fd flags h := by
    refine ⟨decide_eq_true h, fun fd' hne => ?_⟩
    change fd' ∈ k.filter (· ≠ fd) ↔ fd' ∈ k
    simp [hne]

/-- One manager that waits for reading and writing, and one that waits to accept. -/
def serving : EpollMultiplexer (List SocketId) :=
  let s : EpollMultiplexer (List SocketId) := { MultiplexerBase.init ⟨[4, 5], []⟩ with running := true }
  ((s.add ⟨0, 4⟩).maskSet ⟨0, 4⟩ Operation.readWrite).add ⟨1, 5⟩ |>.maskSet ⟨1, 5⟩ Operation.read

/-- The acceptor adds a manager, whose `init` registers it for writing, and sets a timeout. -/
def incoming : Event :=
  ⟨5, epollIn,
    ⟨[.add ⟨2, 6⟩ Operation.read [.registerWriting ⟨2, 6⟩] false, .setTimeout ⟨1, 5⟩ 100], .ok⟩, ⟨[], .ok⟩⟩

/-- An event with handlers that do nothing else than the write handler's verdict. -/
def writeReady (verdict : ManagerResult) : Event := ⟨4, epollOut, ⟨[], .ok⟩, ⟨[], verdict⟩⟩

theorem serving_reported (verdict : ManagerResult) :
    Reported (fun k fd => fd ∈ k) listCtl 1 serving [incoming, writeReady verdict] := by
  have hdistinct : ([5, 4] : List SocketId).Nodup := by decide
  have hlisted : (4 : SocketId) ∈ ([4, 5] : List SocketId) := by decide
  have hflags : epollOut &&& (epollIn ||| epollOut) ≠ 0 := by decide
  have hread : ¬ epollOut &&& epollIn = epollIn := by decide
  refine ⟨hdistinct, ?_, ?_⟩
  · simp only [List.mem_cons, List.not_mem_nil, or_false, forall_eq_or_imp, forall_eq]
    constructor
    · exact ⟨⟨1, 5⟩, rfl, by decide +kernel, by decide, fun _ => by decide +kernel, fun h => absurd h (by decide)⟩
    · exact ⟨⟨0, 4⟩, rfl, hlisted, hflags, fun h => absurd h hread, fun _ => by decide +kernel⟩
  · refine ⟨fun mgr _ => ⟨fun _ => ⟨?_, fun _ _ h => absurd h (by decide)⟩, fun h => absurd rfl h⟩,
      fun s _ => ⟨fun mgr _ => ⟨fun h => absurd h hread, fun _ _ => trivial⟩, fun _ _ => trivial⟩⟩
    refine ⟨⟨by decide +kernel, by decide +kernel, by decide +kernel, rfl, fun s' h => ?_⟩,
      fun _ _ => ⟨trivial, fun _ _ => trivial⟩⟩
    obtain rfl := Except.ok.inj h
    exact ⟨⟨List.mem_cons_self, fun h => absurd h (by decide +kernel)⟩, fun _ _ => trivial⟩

theorem handleEvents_kept_iff_writing :
    ∃ s', handleEvents listCtl 1 [incoming, writeReady .ok] serving = .ok s' ∧
      (BatchKept serving s' [incoming, writeReady .ok] ↔
        ∀ event ∈ [incoming, writeReady .ok], callsWrite event → event.onWrite.verdict ≠ .done) :=
  handleEvents_kept_iff listCtl_interest 1 (serving_reported .ok)

/-- **A manager that finishes writing**: the interest in reading is retired instead of the one in
writing. -/
theorem handleEvents_write_done :
    Reported (fun k fd => fd ∈ k) listCtl 1 serving [incoming, writeReady .done] ∧
      ¬ ∃ s', handleEvents listCtl 1 [incoming, writeReady .done] serving = .ok s' ∧
        BatchKept serving s' [incoming, writeReady .done] := by
  refine ⟨serving_reported .done, ?_⟩
  rintro ⟨s', hok, hk⟩
  have hrun : (handleEvents listCtl 1 [incoming, writeReady .done] serving).toOption.map
      (fun s => dispatchesOf ⟨0, 4⟩ s.derived.dispatches) =
        some [⟨⟨0, 4⟩, Operation.write, .done, Operation.readWrite, Operation.write⟩] := by
    decide +kernel
  rw [hok] at hrun
  have hds : dispatchesOf ⟨0, 4⟩ s'.derived.dispatches = _ := Option.some.inj hrun
  obtain ⟨d, hd, hc⟩ := (hk.kept ⟨0, 4⟩ (by decide +kernel)).write.mpr (by
    rw [hds]
    exact ⟨_, List.mem_singleton_self _, rfl, rfl⟩)
  rw [hds] at hd
  rw [List.mem_singleton.mp hd] at hc
  exact absurd hc.2 (by decide)

end NetworkDriver.Net.Multiplexer.Epoll.Dispatch
