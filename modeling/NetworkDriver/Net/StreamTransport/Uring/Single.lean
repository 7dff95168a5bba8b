import NetworkDriver.Library.Outbox
import NetworkDriver.Net.StreamTransport.Queue
import NetworkDriver.Net.StreamTransport.Uring.Model

/-! # One submission at a time

A transport has at most one submission outstanding that serves reading, and one that serves writing, and
only while its mask contains the operation (`Armed`). A registration keeps this, whatever it runs, since
it submits only what was missing from the mask; and a completion does, as it is followed by at most one
submission of its kind. A temporary error is not: it leaves a poll behind and takes the flag away. -/

namespace NetworkDriver.Net.StreamTransport.Uring.Single

open NetworkDriver.Library.Outbox (map_perm_eraseIdx modify_at split_at)
open NetworkDriver.Net.Types NetworkDriver.Net.Multiplexer.Base
open NetworkDriver.Net.Multiplexer.Uring.Model NetworkDriver.Net.Multiplexer.Uring.Submissions
open NetworkDriver.Net.StreamTransport.Model hiding Event
open NetworkDriver.Net.StreamTransport.Callbacks
open NetworkDriver.Net.StreamTransport.Queue (handleWriteResult_frame)
open NetworkDriver.Net.StreamTransport.Uring.Model
open StreamTransportBase

variable {σ : Type}

/-! ### Counting -/

/-- The operation that an entry serves. -/
def serves : Entry → Operation
  | .read _ _ => Operation.read
  | .prepared _ _ => Operation.write
  | .sending _ => Operation.write
  | .poll op => served op
  | .finished op _ _ => served op

/-- The number of outstanding submissions that serve an operation. -/
def outstanding (op : Operation) (l : Line) : ℕ := (l.entries.map serves).count op

/-- **At most one, and only while the mask contains the operation.** -/
def Armed (op : Operation) (l : Line) : Prop :=
  outstanding op l = 0 ∨ outstanding op l = 1 ∧ l.port.mask.contains op = true

/-- What is armed stays so; while the mask contains the operation, flag and submission stay as they
are. -/
structure Stays (op : Operation) (l l' : Line) : Prop where
  flag : l.port.mask.contains op = true → l'.port.mask.contains op = true
  count : l.port.mask.contains op = true → outstanding op l' = outstanding op l
  armed : Armed op l → Armed op l'

variable {op o : Operation}

instance : Std.Refl (Stays op) where
  refl _ := ⟨id, fun _ => rfl, id⟩

instance : IsTrans Line (Stays op) where
  trans _ _ _ h h' := ⟨fun hc => h'.flag (h.flag hc), fun hc => (h'.count (h.flag hc)).trans (h.count hc),
    fun ha => h'.armed (h.armed ha)⟩

/-- Flag and submissions are the same. -/
theorem stays_of_eq {l l' : Line} (hmask : l'.port.mask.contains op = l.port.mask.contains op)
    (hcount : outstanding op l' = outstanding op l) : Stays op l l' where
  flag hc := hmask.trans hc
  count _ := hcount
  armed h := by
    unfold Armed
    rw [hmask, hcount]
    exact h

theorem stays_maskSet {mask : Operation} {t : Stream σ}
    (h : mask.contains op = t.manager.port.mask.contains op) :
    Stays op t.manager (maskSet mask t).manager := stays_of_eq h rfl

theorem grow_stays (t : Stream σ) : Stays op t.manager (grow t).manager := by
  unfold grow
  split_ifs
  · exact refl_of (Stays op) _
  · exact stays_of_eq rfl rfl

theorem emplaced_stays (t : Stream σ) : Stays op t.manager (emplaced o t).manager := by
  unfold emplaced
  split_ifs
  · exact grow_stays t
  · exact refl_of (Stays op) _

/-! ### Submissions -/

section Submit

variable {f : Manager → Ring → (Bool × UInt64) × Ring} {entry : Entry}

theorem outstanding_submitBy (t : Stream σ) : outstanding op (submitBy f entry t).2.manager =
    outstanding op t.manager + if (submitBy f entry t).1 = true ∧ serves entry = op then 1 else 0 := by
  unfold submitBy
  dsimp only
  cases (f t.manager.port.mgr t.manager.port.ring).1.1 with
  | false => simp [outstanding]
  | true =>
    simp only [outstanding, if_true, true_and, List.map_append, List.map_cons, List.map_nil,
      List.count_append, List.count_singleton, beq_iff_eq]

theorem submitBy_other (h : serves entry ≠ op) (t : Stream σ) :
    Stays op t.manager (submitBy f entry t).2.manager := by
  refine stays_of_eq rfl ?_
  rw [outstanding_submitBy, if_neg fun hs => h hs.2, add_zero]

theorem submitRead_other (h : Operation.read ≠ op) (t : Stream σ) :
    Stays op t.manager (submitRead t).2.manager := by
  unfold submitRead
  refine submitBy_other ?_ t
  exact h

theorem submitWritev_other (h : Operation.write ≠ op) (t : Stream σ) :
    Stays op t.manager (submitWritev t).2.manager := by
  unfold submitWritev
  refine submitBy_other ?_ t
  exact h

/-- The poll after a temporary error. -/
theorem poll_other {p : Operation} (h : served p ≠ op) (t : Stream σ) :
    Stays op t.manager (submitBy f (.poll p) t).2.manager := by
  refine submitBy_other ?_ t
  exact h

/-- A submission for an operation that had none. -/
theorem submitBy_armed {t : Stream σ} (hc : t.manager.port.mask.contains op = true)
    (hnone : outstanding op t.manager = 0) : Armed op (submitBy f entry t).2.manager := by
  have hcount : outstanding op (submitBy f entry t).2.manager = _ := outstanding_submitBy t
  rw [hnone, zero_add] at hcount
  split_ifs at hcount
  · exact .inr ⟨hcount, hc⟩
  · exact .inl hcount

end Submit

/-! ### Registrations -/

section Register

variable {virt : Operation → Stream σ → ManagerResult × Stream σ}

/-- `enable`, written out. -/
theorem enableBy_eq (t : Stream σ) : enableBy virt op t =
    match maskAdd t.manager.port.mask op with
    | none => t
    | some new =>
      if (virt op (maskSet new t)).1 = .ok then (virt op (maskSet new t)).2
      else
        match maskDel (virt op (maskSet new t)).2.manager.port.mask op with
        | none => (virt op (maskSet new t)).2
        | some old => maskSet old (virt op (maskSet new t)).2 := by
  unfold enableBy enableWith
  cases maskAdd t.manager.port.mask op <;> rfl

/-- What an `enable` answers that may submit for its operation: it leaves the flag, and there is one
submission more exactly if it succeeds. -/
structure Answers (op : Operation) (t : Stream σ) (o : ManagerResult × Stream σ) : Prop where
  flag : o.2.manager.port.mask.contains op = true
  count : outstanding op o.2.manager = outstanding op t.manager + if o.1 = .ok then 1 else 0

/-- **An `enable` for the operation itself.** -/
theorem enableBy_self (hvirt : ∀ t : Stream σ, t.manager.port.mask.contains op = true →
    Answers op t (virt op t)) (t : Stream σ) : Stays op t.manager (enableBy virt op t).manager := by
  rw [enableBy_eq]
  cases hadd : maskAdd t.manager.port.mask op with
  | none => exact refl_of (Stays op) _
  | some new =>
    obtain ⟨hold, hnew, -⟩ := contains_maskAdd hadd
    have hnot : t.manager.port.mask.contains op ≠ true := by
      rw [hold]
      exact Bool.false_ne_true
    refine ⟨fun hc => absurd hc hnot, fun hc => absurd hc hnot, fun harmed => ?_⟩
    have hzero : outstanding op (maskSet new t).manager = 0 := harmed.resolve_right fun h => hnot h.2
    obtain ⟨hflag, hcount⟩ := hvirt (maskSet new t) hnew
    rw [hzero, zero_add] at hcount
    dsimp only
    by_cases hok : (virt op (maskSet new t)).1 = .ok
    · rw [if_pos hok] at hcount ⊢
      exact .inr ⟨hcount, hflag⟩
    · rw [if_neg hok] at hcount ⊢
      cases maskDel (virt op (maskSet new t)).2.manager.port.mask op with
      | none => exact .inl hcount
      | some old => exact .inl hcount

/-- **An `enable` for another operation.** -/
theorem enableBy_other (hop : op ∈ submittable) (hne : o.contains op = false)
    (hvirt : ∀ t : Stream σ, Stays op t.manager (virt o t).2.manager) (t : Stream σ) :
    Stays op t.manager (enableBy virt o t).manager := by
  rw [enableBy_eq]
  cases hadd : maskAdd t.manager.port.mask o with
  | none => exact refl_of (Stays op) _
  | some new =>
    obtain ⟨rfl, -, -⟩ := maskAdd_some hadd
    have hset : Stays op t.manager (maskSet (t.manager.port.mask ||| o) t).manager := by
      refine stays_maskSet ?_
      rw [contains_or hop, hne, Bool.or_false]
    have hrun : Stays op t.manager (virt o (maskSet (t.manager.port.mask ||| o) t)).2.manager :=
      IsTrans.trans _ _ _ hset (hvirt _)
    dsimp only
    generalize virt o (maskSet (t.manager.port.mask ||| o) t) = out at hrun
    split_ifs
    · exact hrun
    · cases hdel : maskDel out.2.manager.port.mask o with
      | none => exact hrun
      | some old =>
        obtain rfl := mask_of_maskDel_some hdel
        refine IsTrans.trans _ _ _ hrun (stays_maskSet ?_)
        rw [contains_and_not hop, hne, Bool.not_false, Bool.and_true]

/-- An operation that the transport does not know is taken from the mask again. -/
theorem enableBy_unknown {t : Stream σ} (hd : t.manager.port.mask &&& op = Operation.none)
    (hvirt : ∀ t : Stream σ, virt op t = (.error, t)) : enableBy virt op t = t := by
  rw [enableBy_eq]
  cases hadd : maskAdd t.manager.port.mask op with
  | none => rfl
  | some new =>
    dsimp only
    rw [hvirt, if_neg (by decide : ManagerResult.error ≠ ManagerResult.ok)]
    have hdel : maskDel (maskSet new t).manager.port.mask op = some t.manager.port.mask :=
      maskDel_maskAdd hd hadd
    rw [hdel]
    rfl

theorem registerBy_stays {t : Stream σ} (h : t.manager.port.mask &&& o = Operation.none →
    Stays op t.manager (enableBy virt o t).manager) :
    Stays op t.manager (registerBy virt o t).manager := by
  unfold registerBy
  split_ifs with hd
  · exact h hd
  · exact refl_of (Stays op) _

end Register

/-- The operations of a stream. -/
def Sided (op : Operation) : Prop := op = Operation.read ∨ op = Operation.write

theorem sided_read : Sided Operation.read := .inl rfl

theorem sided_write : Sided Operation.write := .inr rfl

theorem Sided.mem (h : Sided op) : op ∈ submittable := by
  rcases h with rfl | rfl <;> decide

theorem answered_self {f : Manager → Ring → (Bool × UInt64) × Ring} {entry : Entry}
    (hserves : serves entry = op) {t : Stream σ} (hc : t.manager.port.mask.contains op = true) :
    Answers op t (answered (submitBy f entry t)) where
  flag := hc
  count := by
    have hcount : outstanding op (submitBy f entry t).2.manager = _ := outstanding_submitBy t
    unfold answered
    dsimp only
    rw [hcount]
    cases (submitBy f entry t).1 <;> simp [hserves]

theorem submitRead_answers {t : Stream σ} (hc : t.manager.port.mask.contains Operation.read = true) :
    Answers Operation.read t (answered (submitRead t)) := by
  unfold submitRead
  exact answered_self (by rfl) hc

theorem submitWritev_answers {t : Stream σ} (hc : t.manager.port.mask.contains Operation.write = true) :
    Answers Operation.write t (answered (submitWritev t)) := by
  unfold submitWritev
  exact answered_self (by rfl) hc

theorem innerRegister_stays (hop : Sided op) (o : Operation) (t : Stream σ) :
    Stays op t.manager (innerRegister o t).manager := by
  unfold innerRegister
  split_ifs with hread
  · refine registerBy_stays fun _ => ?_
    rcases hop with rfl | rfl
    · exact enableBy_self (fun t hc => submitRead_answers hc) t
    · exact enableBy_other (by decide) (by decide) (fun t => submitRead_other (by decide) t) t
  · exact emplaced_stays t

section Enable

variable {reg : Register Line σ} (app : NextLayer σ)
  (hreg : ∀ o (t : Stream σ), Stays op t.manager (reg o t).manager)

include hreg

/-- `enable` for reading or writing, if the registrations from its callbacks keep `Stays`. -/
theorem enable_stays (hop : Sided op) (ho : Sided o) (t : Stream σ) :
    Stays op t.manager (enableBy (enable reg app) o t).manager := by
  rcases ho with rfl | rfl
  · have hvirt : enable reg app Operation.read = fun t => answered (submitRead t) := by
      funext t
      exact if_pos rfl
    rcases hop with rfl | rfl
    · refine enableBy_self (fun t hc => ?_) t
      rw [hvirt]
      exact submitRead_answers hc
    · refine enableBy_other (by decide) (by decide) (fun t => ?_) t
      rw [hvirt]
      exact submitRead_other (by decide) t
  · have hvirt : enable reg app Operation.write = fun t =>
        if (fetchMoreData reg app t).2.doneWriting app then (.done, (fetchMoreData reg app t).2)
        else answered (submitWritev (fetchMoreData reg app t).2) := by
      funext t
      unfold enable
      rw [if_neg (by decide), if_pos rfl]
    rcases hop with rfl | rfl
    · refine enableBy_other (by decide) (by decide) (fun t => ?_) t
      have hfetch := fetchMoreData_manager app hreg t
      rw [hvirt]
      dsimp only
      split_ifs
      · exact hfetch
      · exact IsTrans.trans _ _ _ hfetch (submitWritev_other (by decide) _)
    · refine enableBy_self (fun t hc => ?_) t
      have hfetch := fetchMoreData_manager app hreg t
      rw [hvirt]
      dsimp only
      split_ifs
      · exact ⟨hfetch.flag hc, by simpa using hfetch.count hc⟩
      · obtain ⟨hflag, hcount⟩ := submitWritev_answers (hfetch.flag hc)
        rw [hfetch.count hc] at hcount
        exact ⟨hflag, hcount⟩

end Enable

variable (app : NextLayer σ)

/-- **A registration**, whatever it runs. -/
theorem register_stays (hop : Sided op) (o : Operation) (t : Stream σ) :
    Stays op t.manager (register app o t).manager := by
  refine IsTrans.trans _ _ _ (emplaced_stays (o := o) t) (registerBy_stays fun hd => ?_)
  by_cases ho : Sided o
  · exact enable_stays app (innerRegister_stays hop) hop ho _
  · have hunknown : enableBy (enable innerRegister app) o (emplaced o t) = emplaced o t := by
      refine enableBy_unknown hd fun t => ?_
      unfold enable
      rw [if_neg fun h => ho (.inl h), if_neg fun h => ho (.inr h)]
    rw [hunknown]
    exact refl_of (Stays op) _

/-! ### Events -/

/-- What keeps `Armed`: a transport is enabled for one of its operations, and a completion of `op` is no
temporary error. -/
def Unhindered (op : Operation) (t : Stream σ) : Event → Prop
  | .enable o => Sided o
  | .complete k temporary =>
    match t.manager.entries[k]? with
    | some (.finished o res _) => o = op → res < 0 → temporary = false
    | _ => True
  | _ => True

instance (o : Operation) : Decidable (Sided o) := by unfold Sided; infer_instance

instance (op : Operation) (t : Stream σ) (e : Event) : Decidable (Unhindered op t e) := by
  unfold Unhindered
  split
  · infer_instance
  · split <;> infer_instance
  · infer_instance

/-- The kernel works on an entry. -/
theorem set_stays {k : ℕ} {e : Entry} {l : Line} (hk : l.entries[k]? = some e) {e' : Entry}
    (hserves : serves e' = serves e) : Stays op l { l with entries := l.entries.set k e' } := by
  refine stays_of_eq rfl ?_
  unfold outstanding
  dsimp only
  rw [List.set_eq_modify, modify_at hk]
  conv_rhs => rw [split_at hk]
  rw [List.map_append, List.map_append, List.map_cons, List.map_cons, hserves]

/-- An entry leaves. -/
theorem outstanding_passed (op : Operation) {k : ℕ} {e : Entry} {t : Stream σ}
    (hk : t.manager.entries[k]? = some e) (o : Operation) (bytes : List UInt8) : outstanding op t.manager =
      outstanding op (passed k o bytes t).manager + if serves e = op then 1 else 0 := by
  have hperm := (map_perm_eraseIdx serves hk).count_eq op
  rw [List.count_cons] at hperm
  simp only [beq_iff_eq] at hperm
  exact hperm

/-- The submission that is armed is the only one. -/
theorem alone {op : Operation} {t : Stream σ} (h : Armed op t.manager) {k : ℕ} {e : Entry}
    (hk : t.manager.entries[k]? = some e) (hserves : serves e = op) :
    ∀ e' ∈ t.manager.entries.eraseIdx k, serves e' ≠ op := by
  have hperm := (map_perm_eraseIdx serves hk).count_eq op
  rw [hserves, List.count_cons_self] at hperm
  have hone : outstanding op t.manager ≤ 1 := by
    rcases h with h | ⟨h, -⟩ <;> omega
  have hzero : ((t.manager.entries.eraseIdx k).map serves).count op = 0 := by
    unfold outstanding at hone
    omega
  intro e' he' heq
  exact List.count_eq_zero.mp hzero (List.mem_map.mpr ⟨e', he', heq⟩)

theorem handleWriteResult_manager (res : ℤ) (temporary : Bool) (t : Stream σ) :
    (handleWriteResult res temporary t).2.manager = t.manager := by
  obtain ⟨memory, cache, count, queue, iovecs, hframe⟩ := handleWriteResult_frame res temporary t
  rw [hframe]

/-- The verdict on a completion of another operation takes away another flag. -/
theorem settle_stays (hop : op ∈ submittable) (hne : o.contains op = false) (v : ManagerResult)
    (t : Stream σ) : Stays op t.manager (settle o v t).manager := by
  have hmask : Stays op t.manager
      (maskSet ((maskDel t.manager.port.mask o).getD t.manager.port.mask) t).manager := by
    refine stays_maskSet ?_
    cases hdel : maskDel t.manager.port.mask o with
    | none => rfl
    | some old =>
      obtain rfl := mask_of_maskDel_some hdel
      rw [Option.getD_some, contains_and_not hop, hne, Bool.not_false, Bool.and_true]
  cases v with
  | ok => exact refl_of (Stays op) _
  | error => exact refl_of (Stays op) _
  | done => exact hmask
  | temporaryError => exact hmask

/-- With nothing outstanding, any verdict leaves it armed. -/
theorem settle_armed {v : ManagerResult} {t : Stream σ} (hnone : outstanding op t.manager = 0) :
    Armed op (settle o v t).manager := by
  cases v <;> exact .inl hnone

theorem submitWriteAgain_other (t : Stream σ) :
    Stays Operation.read t.manager (submitWriteAgain app t).2.manager := by
  have hfetch := fetchMoreData_manager app (register_stays app sided_read) t
  unfold submitWriteAgain
  dsimp only
  split_ifs
  · exact hfetch
  · exact IsTrans.trans _ _ _ hfetch (submitWritev_other (by decide) _)

/-- The end of a completion for writing, with nothing outstanding. -/
theorem submitWriteAgain_armed {t : Stream σ} (hc : t.manager.port.mask.contains Operation.write = true)
    (hnone : outstanding Operation.write t.manager = 0) (o : Operation) :
    Armed Operation.write (settle o (submitWriteAgain app t).1 (submitWriteAgain app t).2).manager := by
  have hfetch := fetchMoreData_manager app (register_stays app sided_write) t
  have hzero := (hfetch.count hc).trans hnone
  unfold submitWriteAgain
  dsimp only
  split_ifs
  · exact settle_armed hzero
  · change Armed Operation.write (submitWritev (fetchMoreData (register app) app t).2).2.manager
    unfold submitWritev
    exact submitBy_armed (hfetch.flag hc) hzero

theorem submitReadAgain_armed {t : Stream σ} (hc : t.manager.port.mask.contains Operation.read = true)
    (hnone : outstanding Operation.read t.manager = 0) :
    Armed Operation.read (submitReadAgain t).2.manager := by
  change Armed Operation.read (submitRead t).2.manager
  unfold submitRead
  exact submitBy_armed hc hnone

/-- A temporary error is an error that `last_socket_error_is_temporary()` takes for one. -/
theorem handleReadResult_temporary (reg : Register Line σ) (res : ℤ) (temporary : Bool) (t : Stream σ)
    (h : (handleReadResult reg app res temporary t).1 = .temporaryError) : res < 0 ∧ temporary = true := by
  unfold handleReadResult at h
  dsimp only at h
  split_ifs at h with hneg htemporary
  · exact ⟨hneg, htemporary⟩
  · generalize consume reg app _ _ = o at h
    obtain ⟨v, t'⟩ := o
    cases v <;> cases h

theorem handleWriteResult_temporary (res : ℤ) (temporary : Bool) (t : Stream σ)
    (h : (handleWriteResult res temporary t).1 = .temporaryError) : res < 0 ∧ temporary = true := by
  unfold handleWriteResult at h
  split_ifs at h with hneg htemporary
  exact ⟨hneg, htemporary⟩

theorem of_served_read (h : served o = Operation.read) : o = Operation.read ∨ o = Operation.pollRead := by
  revert h
  revert o
  decide +kernel

theorem of_served_write (h : served o = Operation.write) :
    o = Operation.write ∨ o = Operation.pollWrite := by
  revert h
  revert o
  decide +kernel

section Completion

variable {res : ℤ} {temporary : Bool} {t : Stream σ}

/-- **A completion for reading**, seen from writing. -/
theorem completion_read (ho : served o = Operation.read) : Stays Operation.write t.manager
    (settle o (handleCompletion app o res temporary t).1 (handleCompletion app o res temporary t).2).manager := by
  have hread := of_served_read ho
  refine IsTrans.trans _ _ _ ?_ (settle_stays (by decide) (by rcases hread with rfl | rfl <;> decide) _ _)
  unfold handleCompletion
  rcases hread with rfl | rfl
  · rw [if_pos rfl]
    have hstays := handleReadResult_manager app (register_stays app sided_write) res
      temporary t
    generalize handleReadResult (register app) app res temporary t = p at hstays
    obtain ⟨v, t'⟩ := p
    cases v with
    | ok => exact IsTrans.trans _ _ _ hstays (submitRead_other (by decide) t')
    | done => exact hstays
    | error => exact hstays
    | temporaryError =>
      have hpoll : Stays Operation.write t'.manager
          (submitBy Ring.submitPollRead (.poll Operation.pollRead) t').2.manager := by
        refine poll_other ?_ t'
        decide
      exact IsTrans.trans _ _ _ hstays hpoll
  · rw [if_neg (by decide), if_pos rfl]
    exact submitRead_other (by decide) t

/-- **A completion for writing**, seen from reading. -/
theorem completion_write (ho : served o = Operation.write) : Stays Operation.read t.manager
    (settle o (handleCompletion app o res temporary t).1 (handleCompletion app o res temporary t).2).manager := by
  have hwrite := of_served_write ho
  refine IsTrans.trans _ _ _ ?_ (settle_stays (by decide) (by rcases hwrite with rfl | rfl <;> decide) _ _)
  unfold handleCompletion
  rcases hwrite with rfl | rfl
  · rw [if_neg (by decide), if_neg (by decide), if_pos rfl]
    have hsame := handleWriteResult_manager res temporary t
    generalize handleWriteResult res temporary t = p at hsame
    obtain ⟨v, t'⟩ := p
    rw [← hsame]
    cases v with
    | ok => exact submitWriteAgain_other app t'
    | done => exact refl_of (Stays Operation.read) _
    | error => exact refl_of (Stays Operation.read) _
    | temporaryError =>
      have hpoll : Stays Operation.read t'.manager
          (submitBy Ring.submitPollWrite (.poll Operation.pollWrite) t').2.manager := by
        refine poll_other ?_ t'
        decide
      exact hpoll
  · rw [if_neg (by decide), if_neg (by decide), if_neg (by decide), if_pos rfl]
    exact submitWriteAgain_other app t

/-- **A completion for neither.** -/
theorem completion_unknown (hread : served o ≠ Operation.read) (hwrite : served o ≠ Operation.write) :
    handleCompletion app o res temporary t = (.error, t) := by
  unfold handleCompletion
  rw [if_neg (by rintro rfl; exact hread rfl), if_neg (by rintro rfl; exact hread rfl),
    if_neg (by rintro rfl; exact hwrite rfl), if_neg (by rintro rfl; exact hwrite rfl)]

/-- **A completion for reading.** -/
theorem completion_armed_read (ho : served o = Operation.read)
    (hc : t.manager.port.mask.contains Operation.read = true)
    (hnone : outstanding Operation.read t.manager = 0)
    (htemporary : o = Operation.read → res < 0 → temporary = false) : Armed Operation.read
    (settle o (handleCompletion app o res temporary t).1 (handleCompletion app o res temporary t).2).manager := by
  have hread := of_served_read ho
  unfold handleCompletion
  rcases hread with rfl | rfl
  · rw [if_pos rfl]
    have hstays := handleReadResult_manager app (register_stays app sided_read) res
      temporary t
    have hgenuine := handleReadResult_temporary app (register app) res temporary t
    generalize handleReadResult (register app) app res temporary t = p at hstays hgenuine
    obtain ⟨v, t'⟩ := p
    have hzero : outstanding Operation.read t'.manager = 0 := (hstays.count hc).trans hnone
    cases v with
    | ok => exact submitReadAgain_armed (hstays.flag hc) hzero
    | done => exact settle_armed hzero
    | error => exact settle_armed hzero
    | temporaryError =>
      obtain ⟨hneg, htrue⟩ := hgenuine rfl
      rw [htemporary rfl hneg] at htrue
      cases htrue
  · rw [if_neg (by decide), if_pos rfl]
    exact submitReadAgain_armed hc hnone

/-- **A completion for writing.** -/
theorem completion_armed_write (ho : served o = Operation.write)
    (hc : t.manager.port.mask.contains Operation.write = true)
    (hnone : outstanding Operation.write t.manager = 0)
    (htemporary : o = Operation.write → res < 0 → temporary = false) : Armed Operation.write
    (settle o (handleCompletion app o res temporary t).1 (handleCompletion app o res temporary t).2).manager := by
  have hwrite := of_served_write ho
  unfold handleCompletion
  rcases hwrite with rfl | rfl
  · rw [if_neg (by decide), if_neg (by decide), if_pos rfl]
    have hsame := handleWriteResult_manager res temporary t
    have hgenuine := handleWriteResult_temporary res temporary t
    generalize handleWriteResult res temporary t = p at hsame hgenuine
    obtain ⟨v, t'⟩ := p
    rw [← hsame] at hc hnone
    cases v with
    | ok => exact submitWriteAgain_armed app hc hnone _
    | done => exact settle_armed hnone
    | error => exact settle_armed hnone
    | temporaryError =>
      obtain ⟨hneg, htrue⟩ := hgenuine rfl
      rw [htemporary rfl hneg] at htrue
      cases htrue
  · rw [if_neg (by decide), if_neg (by decide), if_neg (by decide), if_pos rfl]
    exact submitWriteAgain_armed app hc hnone _

end Completion

/-- **The dispatch of a completion.** -/
theorem dispatch_armed (hop : Sided op) {k : ℕ} {res : ℤ} {bytes : List UInt8} {temporary : Bool}
    {t : Stream σ} (h : Armed op t.manager) (hk : t.manager.entries[k]? = some (.finished o res bytes))
    (htemporary : o = op → res < 0 → temporary = false) :
    Armed op (dispatch app k o res bytes temporary t).manager := by
  have hleft := outstanding_passed op hk o bytes
  change _ = _ + if served o = op then 1 else 0 at hleft
  by_cases hserved : served o = op
  · rw [if_pos hserved] at hleft
    have hone : outstanding op t.manager = 1 ∧ t.manager.port.mask.contains op = true :=
      h.resolve_left fun h0 => by omega
    have hnone : outstanding op (passed k o bytes t).manager = 0 := by omega
    rcases hop with rfl | rfl
    · exact completion_armed_read app hserved hone.2 hnone htemporary
    · exact completion_armed_write app hserved hone.2 hnone htemporary
  · rw [if_neg hserved, add_zero] at hleft
    have harmed : Armed op (passed k o bytes t).manager :=
      (stays_of_eq rfl hleft.symm : Stays op t.manager (passed k o bytes t).manager).armed h
    by_cases hread : served o = Operation.read
    · rcases hop with rfl | rfl
      · exact absurd hread hserved
      · exact (completion_read app hread).armed harmed
    · by_cases hwrite : served o = Operation.write
      · rcases hop with rfl | rfl
        · exact (completion_write app hwrite).armed harmed
        · exact absurd hwrite hserved
      · unfold dispatch
        rw [completion_unknown app hread hwrite]
        exact harmed

/-- **Every event.** -/
theorem step_armed (hop : Sided op) (t : Stream σ) (e : Event) (h : Armed op t.manager)
    (he : Unhindered op t e) : Armed op (step app t e).manager := by
  cases e with
  | enable o => exact (enable_stays app (register_stays app hop) hop he t).armed h
  | call c => exact (call_manager (register_stays app hop) t c).armed h
  | timeout id => exact (callback_manager (register_stays app hop) (app.handleTimeout t.nextLayer id) t).armed h
  | ring r => exact h
  | submit k =>
    unfold step
    dsimp only
    split
    · rename_i array count hk
      unfold importIovecs
      split_ifs
      · exact (set_stays hk (by rfl)).armed h
      · exact h
    · exact h
  | read k outcome =>
    unfold step
    dsimp only
    split
    · rename_i offset size hk
      unfold transferRead
      cases outcome <;> exact (set_stays hk (by rfl)).armed h
    · exact h
  | write k outcome =>
    unfold step
    dsimp only
    split
    · rename_i iovecs hk
      unfold transferWrite
      cases outcome <;> exact (set_stays hk (by rfl)).armed h
    · exact h
  | poll k =>
    unfold step
    dsimp only
    split
    · rename_i op hk
      exact (set_stays hk (by rfl)).armed h
    · exact h
  | complete k temporary =>
    unfold step
    unfold Unhindered at he
    dsimp only at he ⊢
    split
    · rename_i o res bytes hk
      rw [hk] at he
      exact dispatch_armed app hop h hk he
    · exact h

/-- A transport after `init`. -/
theorem start_armed (hop : Sided op) (mgr : Manager) (ring : Ring) (s : σ) (config : TransportConfig) :
    Armed op (start app ⟨mgr, Operation.none, ring⟩ s config).manager :=
  (init_manager app (register_stays app hop) config _).armed (.inl rfl)

end NetworkDriver.Net.StreamTransport.Uring.Single
