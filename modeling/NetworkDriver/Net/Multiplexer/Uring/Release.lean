import NetworkDriver.Net.Multiplexer.Uring.Records

/-! # The release of the records

A run keeps books of the ring and of the references, whatever it meets: no record is used after it was
deleted, or deleted twice. What may go wrong is that a record is not deleted at all.

* `step_kept`: every step keeps the books of the ring, and the reference counts.
* `accounted_iff`: under these, the records are released as they should be if and only if every record
  that is there is pending.
* `released_once_iff`: exactly when all records of a run are released as they should be. -/

namespace NetworkDriver.Net.Multiplexer.Uring.Release

open NetworkDriver.Library.Allocation NetworkDriver.Library.Keyed NetworkDriver.Library.Results
open NetworkDriver.Library.Run
open NetworkDriver.Net.Types NetworkDriver.Net.Multiplexer.Base
open NetworkDriver.Net.Multiplexer.Uring.Model (disable visit shutdown shutdown_eq_ok handleVerdict)
open NetworkDriver.Net.Multiplexer.Uring.Records

/-! ### The books of the ring -/

/-- The ring refers to records that are there, and to each for a last completion at most once; and only
a multishot has a record that is not pending. -/
structure Kept (u : Ring) : Prop where
  nodup : u.pending.Nodup
  entry : ∀ e ∈ u.queued ++ u.inFlight,
    ∃ data, u.heap.find? e.data = some data ∧ data.multishot = e.multishot
  completion : ∀ c ∈ u.completions, ∀ p, c.data = some p →
    ∃ data, u.heap.find? p = some data ∧ (c.more = true → data.multishot = true)
  ended : ∀ p data, u.heap.find? p = some data → p ∉ u.pending → data.multishot = true

/-- Every record that is there is pending. -/
def Exact (u : Ring) : Prop := ∀ p ∈ u.heap.addresses, p ∈ u.pending

/-- The number of records of a manager. -/
def records (u : Ring) (mgr : Manager) : ℕ := u.heap.live.countP fun x => x.2.mgr = mgr

/-- Every reference is owned by a record, by `managers_` or by a holder. -/
def Counted (s : UringMultiplexer) : Prop :=
  ∀ mgr, s.derived.refCount mgr =
    s.managers.elems.count mgr + records s.derived mgr + s.derived.held.count mgr

variable {u u' : Ring} {s s' : UringMultiplexer}

theorem last_eq_some {c : Cqe} {p : ℕ} : c.last = some p ↔ c.more = false ∧ c.data = some p := by
  unfold Cqe.last
  cases c.more with
  | false => simp
  | true => simp

/-- A completion that is not the last one of its record is the last one of none. -/
theorem last_eq_none {c : Cqe} {p : ℕ} (hp : c.data = some p) (h : c.last ≠ some p) : c.last = none := by
  rw [Option.eq_none_iff_forall_ne_some]
  intro q hq
  obtain rfl := Option.some.inj ((last_eq_some.mp hq).2.symm.trans hp)
  exact h hq

theorem mem_pending {p : ℕ} : p ∈ u.pending ↔
    (∃ e ∈ u.queued ++ u.inFlight, e.data = p) ∨ ∃ c ∈ u.completions, c.last = some p := by
  unfold Ring.pending
  rw [List.mem_append, List.mem_map, List.mem_filterMap]

/-- What is pending is there. -/
theorem Kept.there (h : Kept u) {p : ℕ} (hp : p ∈ u.pending) : ∃ data, u.heap.find? p = some data := by
  rcases mem_pending.mp hp with ⟨e, he, rfl⟩ | ⟨c, hc, hlast⟩
  · obtain ⟨data, hdata, -⟩ := h.entry e he
    exact ⟨data, hdata⟩
  · obtain ⟨data, hdata, -⟩ := h.completion c hc p (last_eq_some.mp hlast).2
    exact ⟨data, hdata⟩

theorem Kept.pending_subset (h : Kept u) {p : ℕ} (hp : p ∈ u.pending) : p ∈ u.heap.addresses := by
  obtain ⟨data, hdata⟩ := h.there hp
  exact Heap.mem_addresses_of_find? hdata

/-- The only completion of a single shot is its last one. -/
theorem Kept.last_of_single (h : Kept u) {c : Cqe} {p : ℕ} {data : SubmissionData}
    (hc : c ∈ u.completions) (hp : c.data = some p) (hdata : u.heap.find? p = some data)
    (hm : data.multishot = false) : c.last = some p := by
  obtain ⟨other, hother, hmore⟩ := h.completion c hc p hp
  obtain rfl := Option.some.inj (hdata.symm.trans hother)
  refine last_eq_some.mpr ⟨Bool.eq_false_iff.mpr fun hgoes => ?_, hp⟩
  rw [hmore hgoes] at hm
  cases hm

/-- **The law is that every record that is there is pending.** -/
theorem accounted_iff (h : Kept s.derived) (hc : Counted s) : Accounted s ↔ Exact s.derived := by
  constructor
  · intro ha p hp
    have honce := ha.once p (Heap.lt_next_of_mem hp)
    rw [Heap.count_freed _ (Heap.lt_next_of_mem hp), if_pos hp] at honce
    by_contra hno
    rw [if_neg hno] at honce
    omega
  · intro hx
    have hiff : ∀ p, p ∈ s.derived.heap.addresses ↔ p ∈ s.derived.pending :=
      fun p => ⟨hx p, h.pending_subset⟩
    have hperm := (List.perm_ext_iff_of_nodup s.derived.heap.addresses_nodup h.nodup).mpr hiff
    refine ⟨?_, fun p hp => ?_, fun c hmem p hp => ?_, fun mgr hmgr hheld hnone => ?_⟩
    · rw [← hperm.length_eq]
      exact (List.length_map _).symm
    · rw [Heap.count_freed _ hp]
      simp only [hiff]
    · obtain ⟨data, hdata, -⟩ := h.completion c hmem p hp
      exact Heap.mem_addresses_of_find? hdata
    · have hrecords : records s.derived mgr = 0 := by
        refine List.countP_eq_zero.mpr fun x hmem hx' => ?_
        have hfind := Heap.find?_eq_some.mpr hmem
        have hp := hx x.1 (Heap.mem_addresses_of_find? hfind)
        exact hnone x.1 hp x.2 hfind (of_decide_eq_true hx')
      rw [hc mgr, hrecords, List.count_eq_zero_of_not_mem hmgr, List.count_eq_zero_of_not_mem hheld]

/-! ### Acts -/

/-- What an act does to the ring and the heap: no completion is touched, and no record is released. -/
structure Acted (u u' : Ring) : Prop where
  completions : u'.completions = u.completions
  found : ∀ p data, u.heap.find? p = some data → u'.heap.find? p = some data
  kept : Kept u → Kept u'
  exact : Kept u → Exact u → Exact u'

theorem Acted.refl (u : Ring) : Acted u u := ⟨rfl, fun _ _ h => h, fun h => h, fun _ h => h⟩

theorem Acted.trans {u'' : Ring} (h : Acted u u') (h' : Acted u' u'') : Acted u u'' :=
  ⟨h'.completions.trans h.completions, fun p data hp => h'.found p data (h.found p data hp),
    fun hk => h'.kept (h.kept hk), fun hk hx => h'.exact (h.kept hk) (h.exact hk hx)⟩

/-- A change of the reference counts and of the holders. -/
theorem acted_of_eq (hheap : u'.heap = u.heap) (hqueued : u'.queued = u.queued)
    (hflight : u'.inFlight = u.inFlight) (hcompletions : u'.completions = u.completions) :
    Acted u u' := by
  have hpending : u'.pending = u.pending := by
    unfold Ring.pending
    rw [hqueued, hflight, hcompletions]
  refine ⟨hcompletions, fun p data h => hheap ▸ h, fun h => ⟨?_, ?_, ?_, ?_⟩, fun _ h => ?_⟩
  · rw [hpending]
    exact h.nodup
  · rw [hqueued, hflight, hheap]
    exact h.entry
  · rw [hcompletions, hheap]
    exact h.completion
  · rw [hheap, hpending]
    exact h.ended
  · unfold Exact
    rw [hheap, hpending]
    exact h

/-- The ring and the heap after a submission that found an entry. -/
def submitted (op : Operation) (multishot : Bool) (mgr : Manager) (u : Ring) : Ring :=
  { u.ref mgr with
    heap := u.heap.alloc ⟨mgr, op, u.currentSubmissionId, multishot⟩
    queued := u.queued ++ [⟨u.heap.next, multishot⟩]
    currentSubmissionId := u.currentSubmissionId + 1 }

/-- **A submission makes a record, or leaves everything as it was.** -/
theorem submit_eq (op : Operation) (multishot : Bool) (mgr : Manager) (u : Ring) :
    (u.submit op multishot mgr).2 = submitted op multishot mgr u ∨
      (u.submit op multishot mgr).2 = u := by
  unfold Ring.submit Ring.prepareSubmission
  by_cases hroom : (u.ref mgr).queued.length < Submissions.maxUringDepth
  · rw [if_pos hroom]
    exact Or.inl rfl
  · rw [if_neg hroom]
    refine Or.inr ?_
    unfold Ring.ref Ring.deref
    dsimp only
    rw [Function.update_self, Nat.add_sub_cancel, Function.update_idem, Function.update_eq_self]

theorem pending_submitted (op : Operation) (multishot : Bool) (mgr : Manager) (u : Ring) :
    (submitted op multishot mgr u).pending.Perm (u.heap.next :: u.pending) := by
  unfold Ring.pending submitted Ring.ref
  simp only [List.append_assoc, List.map_append, List.map_cons, List.singleton_append]
  exact List.perm_middle

theorem submitted_acted (op : Operation) (multishot : Bool) (mgr : Manager) (u : Ring) :
    Acted u (submitted op multishot mgr u) := by
  have hpending := pending_submitted op multishot mgr u
  refine ⟨rfl, fun p data h => Heap.find?_alloc h, fun h => ⟨?_, ?_, ?_, ?_⟩, fun _ h p hp => ?_⟩
  · refine hpending.nodup_iff.mpr (List.nodup_cons.mpr ⟨fun hmem => ?_, h.nodup⟩)
    exact lt_irrefl _ (Heap.lt_next_of_mem (h.pending_subset hmem))
  · intro e he
    have hcases : e ∈ u.queued ++ u.inFlight ∨ e = ⟨u.heap.next, multishot⟩ := by
      simp only [submitted, List.mem_append, List.mem_singleton] at he ⊢
      tauto
    rcases hcases with he | rfl
    · obtain ⟨data, hdata, hmultishot⟩ := h.entry e he
      exact ⟨data, Heap.find?_alloc hdata, hmultishot⟩
    · exact ⟨_, Heap.find?_alloc_self .., rfl⟩
  · intro c hc p hp
    obtain ⟨data, hdata, hmore⟩ := h.completion c hc p hp
    exact ⟨data, Heap.find?_alloc hdata, hmore⟩
  · intro p data hdata hp
    rw [hpending.mem_iff, List.mem_cons, not_or] at hp
    rcases List.mem_cons.mp (Heap.find?_eq_some.mp hdata) with heq | hmem
    · exact absurd (congrArg Prod.fst heq) hp.1
    · exact h.ended p data (Heap.find?_eq_some.mpr hmem) hp.2
  · rw [hpending.mem_iff, List.mem_cons]
    exact (List.mem_cons.mp hp).imp_right (h p)

theorem request_acted (r : Ring.Request) (mgr : Manager) (u : Ring) :
    Acted u (u.request r mgr).2 := by
  have hsubmit : ∀ op multishot, Acted u (u.submit op multishot mgr).2 := by
    intro op multishot
    rcases submit_eq op multishot mgr u with heq | heq
    · rw [heq]
      exact submitted_acted op multishot mgr u
    · rw [heq]
      exact Acted.refl u
  cases r with
  | accept multishot => exact hsubmit _ _
  | pollRead multishot => exact hsubmit _ _
  | pollWrite multishot => exact hsubmit _ _
  | read => exact hsubmit _ _
  | write => exact hsubmit _ _
  | readv => exact hsubmit _ _
  | writev => exact hsubmit _ _
  | recvmsg multishot => exact hsubmit _ _
  | sendmsg => exact hsubmit _ _

theorem request_counted (hc : Counted s) (r : Ring.Request) (mgr : Manager) :
    Counted { s with derived := (s.derived.request r mgr).2 } := by
  have hsubmit : ∀ op multishot,
      Counted { s with derived := (s.derived.submit op multishot mgr).2 } := by
    intro op multishot m
    rcases submit_eq op multishot mgr s.derived with heq | heq
    · rw [heq]
      have hm := hc m
      unfold records at hm ⊢
      simp only [submitted, Ring.ref, Heap.alloc, List.countP_cons, decide_eq_true_eq]
      by_cases he : m = mgr
      · subst he
        rw [Function.update_self, if_pos rfl]
        omega
      · rw [Function.update_of_ne he, if_neg (Ne.symm he)]
        omega
    · rw [heq]
      exact hc m
  cases r with
  | accept multishot => exact hsubmit _ _
  | pollRead multishot => exact hsubmit _ _
  | pollWrite multishot => exact hsubmit _ _
  | read => exact hsubmit _ _
  | write => exact hsubmit _ _
  | readv => exact hsubmit _ _
  | writev => exact hsubmit _ _
  | recvmsg multishot => exact hsubmit _ _
  | sendmsg => exact hsubmit _ _

/-- A call that at most removes managers. -/
structure Removes (s s' : UringMultiplexer) : Prop where
  derived : s'.derived = s.derived
  fewer : ∀ mgr, s'.managers.elems.count mgr ≤ s.managers.elems.count mgr

theorem Removes.refl (s : UringMultiplexer) : Removes s s := ⟨rfl, fun _ => le_rfl⟩

theorem Removes.trans {s'' : UringMultiplexer} (h : Removes s s') (h' : Removes s' s'') :
    Removes s s'' :=
  ⟨h'.derived.trans h.derived, fun mgr => (h'.fewer mgr).trans (h.fewer mgr)⟩

theorem removes_of_erase {handle : SocketId} (hm : s'.managers = s.managers.erase handle)
    (hd : s'.derived = s.derived) : Removes s s' := by
  refine ⟨hd, fun mgr => ?_⟩
  rw [hm]
  exact List.filter_sublist.count_le mgr

theorem delQualified_removes (handle : SocketId) (s : UringMultiplexer) :
    Removes s (s.delQualified handle) := by
  unfold MultiplexerBase.delQualified
  dsimp only
  split_ifs
  · exact removes_of_erase rfl rfl
  · exact removes_of_erase rfl rfl

theorem disable_removes (mgr : Manager) (op : Operation) (remove : Bool) (s : UringMultiplexer) :
    Removes s (disable mgr op remove s) := by
  unfold disable
  cases maskDel (s.mask mgr) op with
  | none => exact Removes.refl s
  | some mask =>
    dsimp only
    split_ifs
    · have hmask : Removes s (s.maskSet mgr mask) := ⟨rfl, fun _ => le_rfl⟩
      exact hmask.trans (delQualified_removes mgr.handle _)
    · exact ⟨rfl, fun _ => le_rfl⟩

theorem handleVerdict_removes (mgr : Manager) (op : Operation) (verdict : ManagerResult)
    (s : UringMultiplexer) : Removes s (handleVerdict mgr op verdict s) := by
  cases verdict with
  | ok => exact Removes.refl s
  | temporaryError => exact disable_removes mgr op true s
  | done => exact disable_removes mgr op true s
  | error => exact delQualified_removes mgr.handle s

/-- A round of the loop of `shutdown`. -/
theorem visit_removes (s : UringMultiplexer) (mgr : Manager) : Removes s (visit s mgr) := by
  have hdisable := disable_removes mgr Operation.readAccept false s
  unfold visit MultiplexerBase.visit
  split_ifs
  · exact hdisable.trans (removes_of_erase (MultiplexerBase.eraseIt_managers _ mgr)
      (MultiplexerBase.eraseIt_derived _ mgr))
  · exact hdisable
  · exact Removes.refl s

theorem visits_removes (l : List Manager) (s : UringMultiplexer) : Removes s (l.foldl visit s) := by
  induction l generalizing s with
  | nil => exact Removes.refl s
  | cons mgr l ih => exact (visit_removes s mgr).trans (ih (visit s mgr))

/-- **`shutdown` ends regularly**, and at most removes managers. -/
theorem shutdown_removes (s : UringMultiplexer) : ∃ s', shutdown s = .ok s' ∧ Removes s s' := by
  have hstart : Removes s { s.logShutdown with shuttingDown := true } := ⟨rfl, fun _ => le_rfl⟩
  have hloop := visits_removes s.managers.elems { s.logShutdown with shuttingDown := true }
  exact ⟨_, shutdown_eq_ok s, hstart.trans (hloop.trans ⟨rfl, fun _ => le_rfl⟩)⟩

/-- **The pointers that are destroyed with the managers give up one reference each.** -/
theorem settle_counted (hc : Counted s) (h : Removes s s') : Counted (settle s s') := by
  intro mgr
  have hmgr := hc mgr
  have hfewer := h.fewer mgr
  unfold settle records at *
  dsimp only
  rw [h.derived]
  omega

theorem settle_acted (h : Removes s s') : Acted s.derived (settle s s').derived := by
  unfold settle
  dsimp only
  rw [h.derived]
  exact acted_of_eq rfl rfl rfl rfl

theorem add_counted (hc : Counted s) (mgr : Manager) : Counted (add mgr s) := by
  unfold add
  split_ifs with hheld hfound
  · intro m
    have hm := hc m
    have herase := (List.perm_cons_erase hheld).count_eq m
    obtain ⟨other, hfind⟩ := Option.isSome_iff_exists.mp hfound
    obtain ⟨hmem, hkey⟩ := KeyedMap.find?_eq_some.mp hfind
    have hstay : s.managers.emplace mgr = s.managers := by
      unfold KeyedMap.emplace
      exact dif_pos (List.mem_map.mpr ⟨other, hmem, hkey⟩)
    simp only [MultiplexerBase.add, hstay, Ring.deref, List.count_cons, records] at hm herase ⊢
    by_cases he : m = mgr
    · subst he
      simp only [Function.update_self, BEq.rfl, if_true] at herase ⊢
      omega
    · simp only [Function.update_of_ne he, beq_iff_eq, Ne.symm he, if_false] at herase ⊢
      omega
  · intro m
    have hm := hc m
    have herase := (List.perm_cons_erase hheld).count_eq m
    rw [Bool.not_eq_true, Option.isSome_eq_false_iff, Option.isNone_iff_eq_none] at hfound
    have hnew : (s.managers.emplace mgr).elems = mgr :: s.managers.elems :=
      KeyedMap.elems_emplace (KeyedMap.find?_eq_none.mp hfound)
    simp only [MultiplexerBase.add, hnew, List.count_cons, records] at hm herase ⊢
    omega
  · exact hc

theorem add_acted (mgr : Manager) (s : UringMultiplexer) : Acted s.derived (add mgr s).derived := by
  unfold add
  split_ifs
  · exact acted_of_eq rfl rfl rfl rfl
  · exact acted_of_eq rfl rfl rfl rfl
  · exact Acted.refl _

/-- **One act.** -/
theorem perform_acted (act : Act) (hc : Counted s) :
    ∃ s', perform act s = .ok s' ∧ Acted s.derived s'.derived ∧ Counted s' := by
  cases act with
  | submit mgr r => exact ⟨_, rfl, request_acted r mgr s.derived, request_counted hc r mgr⟩
  | maskSet mgr mask => exact ⟨_, rfl, Acted.refl _, hc⟩
  | setTimeout mgr when => exact ⟨_, rfl, Acted.refl _, hc⟩
  | acquire mgr =>
    refine ⟨_, rfl, acted_of_eq rfl rfl rfl rfl, fun m => ?_⟩
    have hm := hc m
    simp only [Ring.ref, List.count_cons, records] at hm ⊢
    by_cases he : m = mgr
    · subst he
      simp only [Function.update_self, BEq.rfl, if_true]
      omega
    · simp only [Function.update_of_ne he, beq_iff_eq, Ne.symm he, if_false]
      omega
  | release mgr =>
    unfold perform
    dsimp only
    split_ifs with hheld
    · refine ⟨_, rfl, acted_of_eq rfl rfl rfl rfl, fun m => ?_⟩
      have hm := hc m
      have herase := (List.perm_cons_erase hheld).count_eq m
      simp only [Ring.deref, List.count_cons, records] at hm herase ⊢
      by_cases he : m = mgr
      · subst he
        simp only [Function.update_self, BEq.rfl, if_true] at herase ⊢
        omega
      · simp only [Function.update_of_ne he, beq_iff_eq, Ne.symm he, if_false] at herase ⊢
        omega
    · exact ⟨s, rfl, Acted.refl _, hc⟩
  | add mgr => exact ⟨_, rfl, add_acted mgr s, add_counted hc mgr⟩
  | shutdown =>
    obtain ⟨s', hok, hs'⟩ := shutdown_removes s
    exact ⟨_, map_eq_ok.mpr ⟨s', hok, rfl⟩, settle_acted hs', settle_counted hc hs'⟩
  | rehash order =>
    refine ⟨_, rfl, Acted.refl _, fun m => ?_⟩
    have hm := hc m
    have hcount := (s.managers.rehash_perm order).count_eq m
    unfold records at hm ⊢
    dsimp only
    omega

/-- **Acts, in order.** -/
theorem performAll_acted (acts : List Act) (hc : Counted s) :
    ∃ s', performAll acts s = .ok s' ∧ Acted s.derived s'.derived ∧ Counted s' := by
  induction acts generalizing s with
  | nil => exact ⟨s, rfl, Acted.refl _, hc⟩
  | cons act acts ih =>
    obtain ⟨s₁, hs₁, hacted, hc₁⟩ := perform_acted act hc
    obtain ⟨s₂, hs₂, hacted', hc₂⟩ := ih hc₁
    exact ⟨s₂, bind_eq_ok.mpr ⟨s₁, hs₁, hs₂⟩, hacted.trans hacted', hc₂⟩

/-! ### The kernel -/

/-- A change by which no record is touched, and none begins or ceases to be pending. -/
structure Moved (u u' : Ring) : Prop where
  heap : u'.heap = u.heap
  pending : u'.pending.Perm u.pending
  entries : ∀ e ∈ u'.queued ++ u'.inFlight, e ∈ u.queued ++ u.inFlight
  completions : ∀ c ∈ u'.completions, c ∈ u.completions ∨ ∀ p, c.data = some p →
    ∃ e ∈ u.queued ++ u.inFlight, e.data = p ∧ (c.more = true → e.multishot = true)

theorem Moved.kept (h : Moved u u') (hk : Kept u) : Kept u' := by
  refine ⟨h.pending.nodup_iff.mpr hk.nodup, fun e he => ?_, fun c hc p hp => ?_,
    fun p data hdata hp => ?_⟩
  · rw [h.heap]
    exact hk.entry e (h.entries e he)
  · rw [h.heap]
    rcases h.completions c hc with hc | hc
    · exact hk.completion c hc p hp
    · obtain ⟨e, he, rfl, hmore⟩ := hc p hp
      obtain ⟨data, hdata, hmultishot⟩ := hk.entry e he
      exact ⟨data, hdata, fun hm => hmultishot.trans (hmore hm)⟩
  · rw [h.heap] at hdata
    exact hk.ended p data hdata fun hmem => hp (h.pending.mem_iff.mpr hmem)

theorem Moved.exact_congr (h : Moved u u') : Exact u' ↔ Exact u := by
  unfold Exact
  simp only [h.heap, h.pending.mem_iff]

theorem toKernel_moved (n : ℕ) (u : Ring) : Moved u (u.toKernel n) := by
  have hperm : (u.queued.drop n ++ (u.inFlight ++ u.queued.take n)).Perm (u.queued ++ u.inFlight) := by
    rw [← List.append_assoc]
    refine List.perm_append_comm.trans ?_
    rw [← List.append_assoc, List.take_append_drop]
  exact ⟨rfl, (hperm.map Sqe.data).append_right _, fun e he => hperm.mem_iff.mp he,
    fun c hc => Or.inl hc⟩

theorem pending_complete_last {k : ℕ} {e : Sqe} (he : u.inFlight[k]? = some e) (cs : List Cqe)
    (res : ℤ) :
    ((u.queued ++ u.inFlight.eraseIdx k).map Sqe.data ++
      (cs ++ [(⟨some e.data, res, false⟩ : Cqe)]).filterMap Cqe.last).Perm
      ((u.queued ++ u.inFlight).map Sqe.data ++ cs.filterMap Cqe.last) := by
  obtain ⟨hk, rfl⟩ := List.getElem?_eq_some_iff.mp he
  have hflight := (List.getElem_cons_eraseIdx_perm hk).map Sqe.data
  have hnew : ([⟨some u.inFlight[k].data, res, false⟩] : List Cqe).filterMap Cqe.last =
      [u.inFlight[k].data] := rfl
  rw [List.filterMap_append, hnew, List.map_append, List.map_append, ← List.append_assoc]
  refine (List.perm_append_singleton _ _).trans ?_
  rw [← List.cons_append]
  have hmiddle :
      (u.inFlight[k].data :: (u.queued.map Sqe.data ++ (u.inFlight.eraseIdx k).map Sqe.data)).Perm
      (u.queued.map Sqe.data ++ u.inFlight[k].data :: (u.inFlight.eraseIdx k).map Sqe.data) :=
    List.perm_middle.symm
  exact (hmiddle.trans (hflight.append_left _)).append_right _

theorem complete_moved (k : ℕ) (res : ℤ) (more : Bool) (u : Ring) : Moved u (u.complete k res more) := by
  unfold Ring.complete
  cases he : u.inFlight[k]? with
  | none => exact ⟨rfl, List.Perm.refl _, fun e he => he, fun c hc => Or.inl hc⟩
  | some e =>
    have hmem : e ∈ u.queued ++ u.inFlight := List.mem_append_right _ (List.mem_of_getElem? he)
    have hposted : ∀ c ∈ u.completions ++ [⟨some e.data, res, e.multishot && more⟩],
        c ∈ u.completions ∨ ∀ p, c.data = some p →
          ∃ e ∈ u.queued ++ u.inFlight, e.data = p ∧ (c.more = true → e.multishot = true) := by
      intro c hc
      rcases List.mem_append.mp hc with hc | hc
      · exact Or.inl hc
      · obtain rfl := List.mem_singleton.mp hc
        refine Or.inr fun p hp => ⟨e, hmem, Option.some.inj hp, fun hm => ?_⟩
        exact (Bool.and_eq_true _ _ ▸ hm).1
    by_cases hstays : (e.multishot && more) = true
    · refine ⟨rfl, ?_, fun x hx => ?_, hposted⟩
      · unfold Ring.pending
        dsimp only
        rw [if_pos hstays, List.filterMap_append]
        simp [Cqe.last, hstays]
      · dsimp only at hx
        rw [if_pos hstays] at hx
        exact hx
    · refine ⟨rfl, ?_, fun x hx => ?_, hposted⟩
      · unfold Ring.pending
        dsimp only
        rw [if_neg hstays, Bool.eq_false_iff.mpr hstays]
        exact pending_complete_last he u.completions res
      · dsimp only at hx
        rw [if_neg hstays] at hx
        exact (List.mem_append.mp hx).elim (List.mem_append_left _)
          fun hx => List.mem_append_right _ (List.mem_of_mem_eraseIdx hx)

theorem stray_moved (res : ℤ) (u : Ring) : Moved u (u.stray res) := by
  refine ⟨rfl, ?_, fun e he => he, fun c hc => ?_⟩
  · unfold Ring.pending Ring.stray
    simp [Cqe.last]
  · rcases List.mem_append.mp hc with hc | hc
    · exact Or.inl hc
    · obtain rfl := List.mem_singleton.mp hc
      exact Or.inr fun p hp => by cases hp

/-! ### Completions -/

/-- A completion that is consumed takes its record from the pending ones, if it is the last one. -/
theorem pending_advance {c : Cqe} {cs : List Cqe} (hcs : u.completions = c :: cs) :
    u.pending.Perm (c.last.toList ++ u.advance.pending) := by
  unfold Ring.pending Ring.advance
  rw [hcs]
  cases hlast : c.last with
  | none => simp [hlast]
  | some p =>
    simp only [List.filterMap_cons, hlast, List.tail_cons, Option.toList_some, List.singleton_append]
    exact List.perm_middle

theorem mem_completions_advance {c : Cqe} (hc : c ∈ u.advance.completions) : c ∈ u.completions :=
  List.mem_of_mem_tail hc

/-- A completion after which another one follows, or without a record. -/
theorem advance_moved {c : Cqe} {cs : List Cqe} (hcs : u.completions = c :: cs) (hlast : c.last = none) :
    Moved u u.advance := by
  have hpending := pending_advance hcs
  rw [hlast] at hpending
  exact ⟨rfl, hpending.symm, fun e he => he, fun c hc => Or.inl (mem_completions_advance hc)⟩

/-- **The last completion of a multishot**: its record stays, and is pending no more. -/
theorem advance_multishot {c : Cqe} {cs : List Cqe} {p : ℕ} {data : SubmissionData} (hk : Kept u)
    (hcs : u.completions = c :: cs) (hlast : c.last = some p) (hdata : u.heap.find? p = some data)
    (hm : data.multishot = true) : Kept u.advance ∧ ¬ Exact u.advance := by
  have hpending := pending_advance hcs
  rw [hlast] at hpending
  obtain ⟨hnot, hnodup⟩ := List.nodup_cons.mp (hpending.nodup_iff.mp hk.nodup)
  refine ⟨⟨hnodup, hk.entry, fun c hc => hk.completion c (mem_completions_advance hc), ?_⟩, fun hx => ?_⟩
  · intro q other hother hq
    by_cases he : q = p
    · subst he
      obtain rfl := Option.some.inj (hdata.symm.trans hother)
      exact hm
    · refine hk.ended q other hother fun hmem => ?_
      exact (List.mem_cons.mp (hpending.mem_iff.mp hmem)).elim he hq
  · exact hnot (hx p (Heap.mem_addresses_of_find? hdata))

/-- **The completion of a single shot**: its record is deleted. -/
theorem advance_delete {c : Cqe} {cs : List Cqe} {p : ℕ} {data : SubmissionData}
    {heap : Heap SubmissionData} (hk : Kept u) (hcs : u.completions = c :: cs) (hlast : c.last = some p)
    (hdata : u.heap.find? p = some data) (hm : data.multishot = false)
    (hfree : u.heap.free p = some heap) :
    Kept { u.deref data.mgr with heap := heap }.advance ∧
      (Exact u → Exact { u.deref data.mgr with heap := heap }.advance) := by
  have hpending := pending_advance hcs
  rw [hlast] at hpending
  obtain ⟨hnot, hnodup⟩ := List.nodup_cons.mp (hpending.nodup_iff.mp hk.nodup)
  change Kept { u.advance with heap := heap, refCount := (u.deref data.mgr).refCount } ∧
    (Exact u → Exact { u.advance with heap := heap, refCount := (u.deref data.mgr).refCount })
  refine ⟨⟨hnodup, fun e he => ?_, fun c hc q hq => ?_, fun q other hother hq => ?_⟩, fun hx q hq => ?_⟩
  · obtain ⟨other, hother, hmultishot⟩ := hk.entry e he
    refine ⟨other, Heap.find?_free hfree hother fun hp => hnot ?_, hmultishot⟩
    exact hp ▸ mem_pending.mpr (Or.inl ⟨e, he, rfl⟩)
  · obtain ⟨other, hother, hmore⟩ := hk.completion c (mem_completions_advance hc) q hq
    refine ⟨other, Heap.find?_free hfree hother fun hp => ?_, hmore⟩
    -- another completion of the record: not a last one, and this is no multishot
    subst hp
    obtain rfl := Option.some.inj (hdata.symm.trans hother)
    have hother' := hk.last_of_single (mem_completions_advance hc) hq hdata hm
    exact hnot (mem_pending.mpr (Or.inr ⟨c, hc, hother'⟩))
  · have hthere := (Heap.mem_addresses_free hfree).mp (Heap.mem_addresses_of_find? hother)
    refine hk.ended q other (Heap.find?_of_free hfree hother) fun hmem => ?_
    exact (List.mem_cons.mp (hpending.mem_iff.mp hmem)).elim hthere.2 hq
  · obtain ⟨hthere, hne⟩ := (Heap.mem_addresses_free hfree).mp hq
    exact (List.mem_cons.mp (hpending.mem_iff.mp (hx q hthere))).resolve_left hne

theorem delete_counted {p : ℕ} {data : SubmissionData} {heap : Heap SubmissionData} (hc : Counted s)
    (hdata : s.derived.heap.find? p = some data) (hfree : s.derived.heap.free p = some heap) :
    Counted { s with derived := { s.derived.deref data.mgr with heap := heap } } := by
  intro m
  have hm := hc m
  have hlive := (Heap.perm_cons_filter (Heap.find?_eq_some.mp hdata)).countP_eq
    fun x => decide (x.2.mgr = m)
  rw [← Heap.live_free hfree, List.countP_cons] at hlive
  simp only [Ring.deref, records, decide_eq_true_eq] at hm hlive ⊢
  by_cases he : m = data.mgr
  · subst he
    simp only [Function.update_self, if_true] at hlive ⊢
    omega
  · simp only [Function.update_of_ne he, Ne.symm he, if_false] at hlive ⊢
    omega

/-- A use of a record that is there. -/
theorem load_eq {p : ℕ} {data : SubmissionData} (h : u.heap.find? p = some data) :
    u.load p = .ok data := by
  unfold Ring.load
  rw [h]

/-- The body of the loop, if the record stays where it is until it is deleted. -/
theorem handleEvent_eq {handle : HandleCompletion} {c : Cqe} {p : ℕ} {data : SubmissionData}
    {reply : List Act × ManagerResult} {s₁ s₂ : UringMultiplexer} (hp : c.data = some p)
    (hdata : s.derived.heap.find? p = some data) (hreply : handle data.mgr data.op c.res data.id = reply)
    (hs₁ : performAll reply.1 s = .ok s₁) (hdata₁ : s₁.derived.heap.find? p = some data)
    (hs₂ : settle s₁ (handleVerdict data.mgr data.op reply.2 s₁) = s₂)
    (hdata₂ : s₂.derived.heap.find? p = some data) :
    handleEvent handle c s =
      if data.multishot then .ok s₂
      else (s₂.derived.delete p).map fun u => { s₂ with derived := u } := by
  subst hreply
  unfold handleEvent
  rw [hp]
  change s.derived.load p >>= _ = _
  rw [load_eq hdata]
  change performAll (handle data.mgr data.op c.res data.id).1 s >>= _ = _
  rw [hs₁]
  change s₁.derived.load p >>= _ = _
  rw [load_eq hdata₁]
  change (settle s₁ (handleVerdict data.mgr data.op
    (handle data.mgr data.op c.res data.id).2 s₁)).derived.load p >>= _ = _
  rw [hs₂, load_eq hdata₂]
  subst hs₂
  change (if data.multishot then _ else _) = _
  split_ifs
  · rfl
  · cases Ring.delete p _ <;> rfl

/-- **The body of the loop**, for a record that is there: the acts of the handler and the verdict
leave it where it is, and a single shot is deleted after them. -/
theorem handleEvent_acted (handle : HandleCompletion) {c : Cqe} {p : ℕ} {data : SubmissionData}
    (hc : Counted s) (hp : c.data = some p) (hdata : s.derived.heap.find? p = some data) :
    ∃ s', Acted s.derived s'.derived ∧ Counted s' ∧ handleEvent handle c s =
      if data.multishot then .ok s'
      else (s'.derived.delete p).map fun u => { s' with derived := u } := by
  generalize hreply : handle data.mgr data.op c.res data.id = reply
  obtain ⟨s₁, hs₁, hacted₁, hc₁⟩ := performAll_acted reply.1 hc
  have hremoves := handleVerdict_removes data.mgr data.op reply.2 s₁
  have hacted := hacted₁.trans (settle_acted hremoves)
  refine ⟨_, hacted, settle_counted hc₁ hremoves, ?_⟩
  exact handleEvent_eq hp hdata hreply hs₁ (hacted₁.found p data hdata) rfl (hacted.found p data hdata)

theorem dispatch_eq {handle : HandleCompletion} {c : Cqe} {cs : List Cqe}
    (hcs : s.derived.completions = c :: cs) (h : handleEvent handle c s = .ok s') :
    dispatch handle s = .ok { s' with derived := s'.derived.advance } := by
  unfold dispatch
  rw [hcs]
  exact bind_eq_ok.mpr ⟨s', h, rfl⟩

theorem endsMultishot_iff {handle : HandleCompletion} {c : Cqe} {cs : List Cqe} {p : ℕ}
    {data : SubmissionData} (hcs : u.completions = c :: cs) (hp : c.data = some p)
    (hdata : u.heap.find? p = some data) :
    EndsMultishot u (.dispatch handle) ↔ c.last = some p ∧ data.multishot = true := by
  unfold EndsMultishot
  rw [hcs]
  simp only [List.head?_cons, Option.mem_def, Option.some.injEq, exists_eq_left']
  constructor
  · rintro ⟨q, hlast, other, hother, hm⟩
    obtain rfl := Option.some.inj ((last_eq_some.mp hlast).2.symm.trans hp)
    obtain rfl := Option.some.inj (hdata.symm.trans hother)
    exact ⟨hlast, hm⟩
  · rintro ⟨hlast, hm⟩
    exact ⟨p, hlast, data, hdata, hm⟩

/-- A pass for a completion without a record. -/
theorem dispatch_stray (handle : HandleCompletion) {c : Cqe} {cs : List Cqe} (hk : Kept s.derived)
    (hc : Counted s) (hcs : s.derived.completions = c :: cs) (hp : c.data = none) :
    ∃ s', dispatch handle s = .ok s' ∧ Kept s'.derived ∧ Counted s' ∧
      (Exact s.derived → (Exact s'.derived ↔ ¬ EndsMultishot s.derived (.dispatch handle))) := by
  have hlast : c.last = none := by
    unfold Cqe.last
    rw [hp, ite_self]
  have hevent : handleEvent handle c s = .ok s := by
    unfold handleEvent
    rw [hp]
  have hmoved := advance_moved hcs hlast
  refine ⟨_, dispatch_eq hcs hevent, hmoved.kept hk, hc, fun hx => ?_⟩
  refine iff_of_true (hmoved.exact_congr.mpr hx) ?_
  unfold EndsMultishot
  rw [hcs]
  simp [hlast]

/-- **One pass of the loop of `handle_events`.** -/
theorem dispatch_kept (handle : HandleCompletion) (hk : Kept s.derived) (hc : Counted s) :
    ∃ s', dispatch handle s = .ok s' ∧ Kept s'.derived ∧ Counted s' ∧
      (Exact s.derived → (Exact s'.derived ↔ ¬ EndsMultishot s.derived (.dispatch handle))) := by
  cases hcs : s.derived.completions with
  | nil =>
    refine ⟨s, ?_, hk, hc, fun hx => iff_of_true hx ?_⟩
    · unfold dispatch
      rw [hcs]
    · unfold EndsMultishot
      rw [hcs]
      simp
  | cons c cs =>
    cases hp : c.data with
    | none => exact dispatch_stray handle hk hc hcs hp
    | some p =>
      have hmem : c ∈ s.derived.completions := hcs ▸ List.mem_cons_self
      obtain ⟨data, hdata, -⟩ := hk.completion c hmem p hp
      obtain ⟨s₁, hacted, hc₁, hevent⟩ := handleEvent_acted handle hc hp hdata
      have hdata₁ := hacted.found p data hdata
      have hcs₁ : s₁.derived.completions = c :: cs := hacted.completions.trans hcs
      have hk₁ := hacted.kept hk
      have hx₁ := hacted.exact hk
      rw [endsMultishot_iff hcs hp hdata]
      cases hm : data.multishot with
      | true =>
        rw [if_pos hm] at hevent
        by_cases hlast : c.last = some p
        · -- its record stays
          obtain ⟨hkept, hleak⟩ := advance_multishot hk₁ hcs₁ hlast hdata₁ hm
          exact ⟨_, dispatch_eq hcs hevent, hkept, hc₁,
            fun _ => iff_of_false hleak (not_not_intro ⟨hlast, rfl⟩)⟩
        · have hmoved := advance_moved hcs₁ (last_eq_none hp hlast)
          exact ⟨_, dispatch_eq hcs hevent, hmoved.kept hk₁, hc₁,
            fun hx => iff_of_true (hmoved.exact_congr.mpr (hx₁ hx)) fun h => hlast h.1⟩
      | false =>
        have hlast := hk.last_of_single hmem hp hdata hm
        obtain ⟨heap, hfree⟩ := Heap.free_isSome (Heap.mem_addresses_of_find? hdata₁)
        have hdelete : s₁.derived.delete p = .ok { s₁.derived.deref data.mgr with heap := heap } := by
          unfold Ring.delete
          rw [hdata₁, hfree]
        rw [if_neg (Bool.eq_false_iff.mp hm), hdelete] at hevent
        obtain ⟨hkept, hexact⟩ := advance_delete hk₁ hcs₁ hlast hdata₁ hm hfree
        exact ⟨_, dispatch_eq hcs hevent, hkept, delete_counted hc₁ hdata₁ hfree,
          fun hx => iff_of_true (hexact (hx₁ hx)) fun h => by cases h.2⟩

/-! ### Runs -/

/-- **One event**: the books are kept, and every record that is there is pending as before, if and only
if the event does not handle the last completion of a multishot. -/
theorem step_kept (e : Event) (hk : Kept s.derived) (hc : Counted s) :
    ∃ s', step e s = .ok s' ∧ Kept s'.derived ∧ Counted s' ∧
      (Exact s.derived → (Exact s'.derived ↔ ¬ EndsMultishot s.derived e)) := by
  cases e with
  | act act =>
    obtain ⟨s', hok, hacted, hc'⟩ := perform_acted act hc
    exact ⟨s', hok, hacted.kept hk, hc', fun hx => iff_of_true (hacted.exact hk hx) not_false⟩
  | submit n =>
    have hmoved := toKernel_moved n s.derived
    exact ⟨_, rfl, hmoved.kept hk, hc, fun hx => iff_of_true (hmoved.exact_congr.mpr hx) not_false⟩
  | complete k res more =>
    have hmoved := complete_moved k res more s.derived
    refine ⟨_, rfl, hmoved.kept hk, fun m => ?_,
      fun hx => iff_of_true (hmoved.exact_congr.mpr hx) not_false⟩
    have hm := hc m
    unfold records Ring.complete at *
    cases s.derived.inFlight[k]? with
    | none => exact hm
    | some e => exact hm
  | stray res =>
    have hmoved := stray_moved res s.derived
    exact ⟨_, rfl, hmoved.kept hk, hc, fun hx => iff_of_true (hmoved.exact_congr.mpr hx) not_false⟩
  | dispatch handle => exact dispatch_kept handle hk hc

/-- The books of a run: they are kept, and it did not end in a fault. -/
def Booked : Except Fault UringMultiplexer → Prop
  | .ok s => Kept s.derived ∧ Counted s
  | .error _ => False

/-- The event does not handle the last completion of a multishot submission. -/
def GoesOn (s : Except Fault UringMultiplexer) (e : Event) : Prop :=
  ∀ t, s = .ok t → ¬ EndsMultishot t.derived e

theorem start_booked : Booked (.ok start) := by
  refine ⟨⟨List.nodup_nil, fun e he => ?_, fun c hc => ?_, fun p data h => ?_⟩, fun mgr => rfl⟩
  · cases he
  · cases hc
  · cases h

theorem runStep_booked (s : Except Fault UringMultiplexer) (e : Event) (hs : Booked s) :
    Booked (runStep s e) := by
  cases s with
  | error fault => exact hs
  | ok s =>
    obtain ⟨s', hok, hk, hc, -⟩ := step_kept e hs.1 hs.2
    change Booked (step e s)
    rw [hok]
    exact ⟨hk, hc⟩

/-- **Exactly when one event keeps the law.** -/
theorem runStep_released_iff (s : Except Fault UringMultiplexer) (e : Event) (hs : Booked s)
    (hr : Released s) : Released (runStep s e) ↔ GoesOn s e := by
  cases s with
  | error fault => exact hs.elim
  | ok s =>
    obtain ⟨s', hok, hk, hc, hiff⟩ := step_kept e hs.1 hs.2
    change Released (step e s) ↔ _
    rw [hok]
    change Accounted s' ↔ _
    rw [accounted_iff hk hc, hiff ((accounted_iff hs.1 hs.2).mp hr)]
    exact ⟨fun h t ht => by rwa [← Except.ok.inj ht], fun h => h s rfl⟩

/-- **Every record is released exactly once in a run if and only if the run handles no last completion
of a multishot submission.** -/
theorem released_once_iff (events : List Event) :
    Always runStep Released (.ok start) events ↔ Along runStep GoesOn (.ok start) events := by
  have hbooked : Always runStep Booked (.ok start) events :=
    always_of_step runStep_booked events start_booked
  have hstart : Released (.ok start) := by
    refine (accounted_iff start_booked.1 start_booked.2).mpr fun p hp => ?_
    cases hp
  have hexact : Always runStep (fun s => Booked s ∧ Released s) (.ok start) events ↔
      Along runStep GoesOn (.ok start) events :=
    always_iff_along (D := fun _ _ => True)
      (fun s e hs _ =>
        (and_iff_right (runStep_booked s e hs.1)).trans (runStep_released_iff s e hs.1 hs.2))
      ⟨start_booked, hstart⟩ (along_of_forall (fun _ _ => trivial) _ events)
  exact ⟨fun h => hexact.mp (hbooked.and h), fun h => (hexact.mpr h).imp fun _ hs => hs.2⟩

/-- An acceptor that is registered and accepts; the kernel reports that it has no descriptor left, and
the acceptor shuts the multiplexer down and is removed. -/
def exhausted : List Event :=
  [.act (.acquire ⟨0, 4⟩), .act (.add ⟨0, 4⟩), .act (.maskSet ⟨0, 4⟩ Operation.accept),
    .act (.submit ⟨0, 4⟩ (.accept true)), .submit 1, .complete 0 (-24) false,
    .dispatch fun _ _ _ _ => ([.shutdown], .error)]

/-- How many records are there beyond the pending ones. -/
def surplus : Except Fault UringMultiplexer → ℕ
  | .ok s => s.derived.heap.live.length - s.derived.pending.length
  | .error _ => 0

theorem surplus_of_released {s : Except Fault UringMultiplexer} (h : Released s) : surplus s = 0 := by
  cases s with
  | ok s => exact Nat.sub_eq_zero_of_le h.live.le
  | error fault => rfl

/-- The record of the accept stays after its last completion. -/
theorem released_once_exhausted : ¬ ∀ events, Always runStep Released (.ok start) events := by
  intro h
  have hrun := surplus_of_released (h exhausted).last
  revert hrun
  decide +kernel

end NetworkDriver.Net.Multiplexer.Uring.Release
