import NetworkDriver.Net.Multiplexer.Uring.Managers
import NetworkDriver.Net.StreamTransport.Queue

/-! # What managers do to their ports

Whatever a manager does to its port leaves the submissions of other managers alone and moves its own
balances by a known amount (`Moves`). A registration moves none of them and takes no flag away
(`Keeps`): either a submission and a flag come together, or both do not.

* `streamRegister_keeps`, `Kind.enable_keeps`, `Kind.init_keeps`: registrations and what runs them.
* `streamRegister_eq`: a registration runs `enable`, whose callbacks may register again. -/

namespace NetworkDriver.Net.Multiplexer.Uring.Ports

open NetworkDriver.Net.Types NetworkDriver.Net.Multiplexer.Base
open NetworkDriver.Net.Multiplexer.Uring.Model NetworkDriver.Net.Multiplexer.Uring.Submissions
open NetworkDriver.Net.Multiplexer.Uring.Managers
open NetworkDriver.Net.StreamTransport.Model NetworkDriver.Net.StreamTransport.Callbacks
open NetworkDriver.Net.StreamTransport.Queue (handleWriteResult_frame)

variable {σ : Type}

/-! ### Moves -/

/-- The balance of a port. -/
def portBalance (p : Port) (op : Operation) : ℤ := balance p.mask p.ring p.mgr op

/-- The submissions of other managers stay. -/
structure Own (p p' : Port) : Prop where
  mgr : p'.mgr = p.mgr
  others : ∀ m ≠ p.mgr, ∀ o, p'.ring.outstanding m o = p.ring.outstanding m o

instance : Std.Refl Own where
  refl _ := ⟨rfl, fun _ _ _ => rfl⟩

instance : IsTrans Port Own where
  trans _ _ _ h h' := ⟨h'.mgr.trans h.mgr, fun m hm o => by
    rw [h'.others m (by rwa [h.mgr]) o, h.others m hm o]⟩

/-- The submissions of other managers stay, and the balances move by `δ`. -/
structure Moves (δ : Operation → ℤ) (p p' : Port) : Prop extends Own p p' where
  balance : ∀ o ∈ submittable, portBalance p' o = portBalance p o + δ o

/-- One for the operation, nothing for the others. -/
def one (op o : Operation) : ℤ := if op = o then 1 else 0

theorem Moves.trans {δ δ' : Operation → ℤ} {p p' p'' : Port} (h : Moves δ p p') (h' : Moves δ' p' p'') :
    Moves (fun o => δ o + δ' o) p p'' where
  toOwn := IsTrans.trans _ _ _ h.toOwn h'.toOwn
  balance o ho := by
    rw [h'.balance o ho, h.balance o ho]
    omega

/-- Whatever a manager does to its port, it moves its balances somehow. -/
theorem Own.moves {p p' : Port} (h : Own p p') :
    Moves (fun o => portBalance p' o - portBalance p o) p p' :=
  ⟨h, fun o _ => (add_sub_cancel (portBalance p o) (portBalance p' o)).symm⟩

theorem Moves.congr {δ δ' : Operation → ℤ} {p p' : Port} (h : Moves δ p p')
    (hδ : ∀ o ∈ submittable, δ o = δ' o) : Moves δ' p p' :=
  ⟨h.toOwn, fun o ho => by rw [h.balance o ho, hδ o ho]⟩

/-- No balance moves and no flag is lost. -/
structure Keeps (p p' : Port) : Prop where
  moves : Moves (fun _ => 0) p p'
  flags : ∀ o ∈ submittable, p.mask.contains o = true → p'.mask.contains o = true

instance : Std.Refl Keeps where
  refl _ := ⟨⟨refl_of Own _, fun _ _ => (add_zero _).symm⟩, fun _ _ h => h⟩

instance : IsTrans Port Keeps where
  trans _ _ _ h h' := ⟨(h.moves.trans h'.moves).congr fun _ _ => rfl,
    fun o ho hc => h'.flags o ho (h.flags o ho hc)⟩

/-! ### Submissions -/

/-- A submission moves the balance of the operation that it serves, if there is room. -/
theorem submitBy_moves {op : Operation} {multishot : Bool}
    {accepts : multishot = true → op = Operation.accept} (t : Object σ) :
    Moves (fun o => if t.manager.ring.HasRoom then one (served op) o else 0) t.manager
      (submitBy (Ring.submit op multishot accepts) t).2.manager where
  mgr := rfl
  others m hm o := by
    have hout := Ring.outstanding_submit t.manager.ring t.manager.mgr m op o multishot accepts
    rw [if_neg fun h => hm h.2.1.symm, add_zero] at hout
    exact hout
  balance o _ := by
    have hout := Ring.outstanding_submit t.manager.ring t.manager.mgr t.manager.mgr op o multishot accepts
    change ((Ring.submit op multishot accepts t.manager.mgr t.manager.ring).2.outstanding t.manager.mgr o
      : ℤ) - bit t.manager.mask o = _
    unfold portBalance Submissions.balance one
    by_cases hroom : t.manager.ring.HasRoom
    · by_cases hserve : served op = o
      · rw [if_pos ⟨hroom, rfl, hserve⟩] at hout
        rw [if_pos hroom, if_pos hserve]
        omega
      · rw [if_neg fun h => hserve h.2.2] at hout
        rw [if_pos hroom, if_neg hserve]
        omega
    · rw [if_neg fun h => hroom h.1] at hout
      rw [if_neg hroom]
      omega

theorem submitBy_success {op : Operation} {multishot : Bool}
    {accepts : multishot = true → op = Operation.accept} (t : Object σ) :
    (submitBy (Ring.submit op multishot accepts) t).1 = decide t.manager.ring.HasRoom :=
  Ring.submit_success ..

/-! ### Enabling -/

/-- The answer of an `enable` for `op`: a submission for it, and only then success. -/
structure Answers (op : Operation) (p : Port) (o : ManagerResult × Object σ) : Prop where
  moves : Moves (fun x => if o.1 = .ok then one op x else 0) p o.2.manager
  flags : ∀ x ∈ submittable, p.mask.contains x = true → o.2.manager.mask.contains x = true

theorem submitted_answers {op : Operation} {multishot : Bool}
    {accepts : multishot = true → op = Operation.accept} (hop : served op = op) (t : Object σ) :
    Answers op t.manager (submitted (Ring.submit op multishot accepts) t) where
  moves := by
    have hmoves : Moves _ t.manager (submitBy (Ring.submit op multishot accepts) t).2.manager :=
      submitBy_moves t
    have hres : (submitted (Ring.submit op multishot accepts) t).1 =
        if t.manager.ring.HasRoom then ManagerResult.ok else .error := by
      unfold submitted
      dsimp only
      rw [submitBy_success]
      simp
    refine hmoves.congr fun x _ => ?_
    rw [hres, hop]
    by_cases hroom : t.manager.ring.HasRoom
    · simp [hroom]
    · simp [hroom]
  flags _ _ h := h

variable {virt : Operation → Object σ → ManagerResult × Object σ} {op : Operation}

/-- `enable`, written out. -/
theorem enableBy_eq (t : Object σ) : enableBy virt op t =
    match maskAdd t.manager.mask op with
    | none => t
    | some new =>
      if (virt op (maskSet new t)).1 = .ok then (virt op (maskSet new t)).2
      else
        match maskDel (virt op (maskSet new t)).2.manager.mask op with
        | none => (virt op (maskSet new t)).2
        | some old => maskSet old (virt op (maskSet new t)).2 := by
  unfold enableBy enableWith
  cases maskAdd t.manager.mask op <;> rfl

/-- A change of the own mask moves the balances against it. -/
theorem maskSet_moves {mask : Operation} {δ : Operation → ℤ} {t : Object σ}
    (h : ∀ o ∈ submittable, bit mask o = bit t.manager.mask o - δ o) :
    Moves δ t.manager (maskSet mask t).manager where
  mgr := rfl
  others _ _ _ := rfl
  balance o ho := by
    change (t.manager.ring.outstanding t.manager.mgr o : ℤ) - bit mask o = _
    rw [h o ho]
    unfold portBalance balance
    omega

theorem contains_of_bit {mask op : Operation} (h : bit mask op = 1) : mask.contains op = true := by
  unfold bit at h
  by_contra hc
  rw [if_neg hc] at h
  cases h

theorem bit_of_contains {mask op : Operation} (h : mask.contains op = true) : bit mask op = 1 :=
  if_pos h

/-- **An `enable` whose manager answers as it should.** -/
theorem enableBy_keeps (hop : op ∈ submittable)
    (hvirt : ∀ t : Object σ, t.manager.mask.contains op = true → Answers op t.manager (virt op t))
    (t : Object σ) : Keeps t.manager (enableBy virt op t).manager := by
  rw [enableBy_eq]
  cases hadd : maskAdd t.manager.mask op with
  | none => exact refl_of Keeps _
  | some new =>
    have hnew : ∀ o ∈ submittable, bit new o = bit t.manager.mask o - -one op o := by
      intro o ho
      rw [bit_maskAdd hop ho hadd]
      unfold one
      omega
    have hset : Moves (fun o => -one op o) t.manager (maskSet new t).manager := maskSet_moves hnew
    obtain ⟨hold, hcontains, hgrow⟩ := contains_maskAdd hadd
    have hans := hvirt (maskSet new t) hcontains
    dsimp only
    by_cases hok : (virt op (maskSet new t)).1 = .ok
    · rw [if_pos hok]
      refine ⟨(hset.trans hans.moves).congr fun o _ => ?_, fun o ho hc => hans.flags o ho (hgrow o ho hc)⟩
      rw [if_pos hok]
      omega
    · rw [if_neg hok]
      generalize virt op (maskSet new t) = out at hans hok
      have hin : out.2.manager.mask.contains op = true := hans.flags op hop hcontains
      cases hdel : maskDel out.2.manager.mask op with
      | none =>
        rw [contains_eq hop, decide_eq_true_eq] at hin
        exact absurd (and_of_maskDel_none hdel) hin
      | some old =>
        have hback : Moves (one op) out.2.manager (maskSet old out.2).manager :=
          maskSet_moves fun o ho => bit_maskDel hop ho hdel
        refine ⟨((hset.trans hans.moves).trans hback).congr fun o _ => ?_, fun o ho hc => ?_⟩
        · rw [if_neg hok]
          omega
        · have hbit := bit_maskDel hop ho hdel
          have hout := bit_of_contains (hans.flags o ho (hgrow o ho hc))
          have hne : op ≠ o := by
            rintro rfl
            rw [hold] at hc
            cases hc
          rw [if_neg hne, hout] at hbit
          exact contains_of_bit hbit

/-- A mask that contains the operation already is left alone. -/
theorem enableBy_of_contains {t : Object σ} (h : t.manager.mask &&& op = op) :
    enableBy virt op t = t := by
  have hadd : maskAdd t.manager.mask op = none := if_pos h
  rw [enableBy_eq, hadd]

/-- An operation that the manager does not know is taken from the mask again. -/
theorem enableBy_of_error {t : Object σ} (hd : t.manager.mask &&& op = Operation.none)
    (hvirt : ∀ t : Object σ, virt op t = (.error, t)) : enableBy virt op t = t := by
  rw [enableBy_eq]
  cases hadd : maskAdd t.manager.mask op with
  | none => rfl
  | some new =>
    dsimp only
    rw [hvirt, if_neg (by decide : ManagerResult.error ≠ ManagerResult.ok)]
    have hdel : maskDel (maskSet new t).manager.mask op = some t.manager.mask :=
      maskDel_maskAdd hd hadd
    rw [hdel]
    rfl

theorem registerBy_keeps (h : ∀ t : Object σ, t.manager.mask &&& op = Operation.none →
    Keeps t.manager (enableBy virt op t).manager) (t : Object σ) :
    Keeps t.manager (registerBy virt op t).manager := by
  unfold registerBy
  by_cases hd : t.manager.mask &&& op = Operation.none
  · rw [if_pos hd]
    exact h t hd
  · rw [if_neg hd]
    exact refl_of Keeps _

/-! ### Streams -/

section Stream

open StreamTransportBase

variable {reg : Register Port σ} {app : NextLayer σ}

theorem read_mem : Operation.read ∈ submittable := by decide

theorem write_mem : Operation.write ∈ submittable := by decide

theorem accept_mem : Operation.accept ∈ submittable := by decide

/-- `enable` of a stream, if its registrations keep the port. -/
theorem streamEnable_answers (hreg : ∀ op (t : Object σ), Keeps t.manager (reg op t).manager)
    (t : Object σ) : Answers op t.manager (streamEnable reg app op t) := by
  unfold streamEnable
  by_cases hread : op = Operation.read
  · rw [if_pos hread, hread]
    exact submitted_answers (by decide) t
  · rw [if_neg hread]
    by_cases hwrite : op = Operation.write
    · rw [if_pos hwrite, hwrite]
      have hfetch := fetchMoreData_manager app hreg t
      dsimp only
      generalize (fetchMoreData reg app t).2 = t' at hfetch ⊢
      by_cases hdone : t'.doneWriting app = true
      · rw [if_pos hdone]
        exact ⟨hfetch.moves, hfetch.flags⟩
      · rw [if_neg hdone]
        have hsub : Answers Operation.write t'.manager (submitted Ring.submitWritev t') :=
          submitted_answers (by decide) t'
        refine ⟨(hfetch.moves.trans hsub.moves).congr fun o _ => zero_add _, fun o ho hc => ?_⟩
        exact hsub.flags o ho (hfetch.flags o ho hc)
    · rw [if_neg hwrite]
      exact ⟨(refl_of Keeps t.manager).moves, fun _ _ h => h⟩

/-- Registering with a stream whose callbacks keep the port. -/
theorem enableBy_stream_keeps (hreg : ∀ op (t : Object σ), Keeps t.manager (reg op t).manager)
    {t : Object σ} (hd : t.manager.mask &&& op = Operation.none) :
    Keeps t.manager (enableBy (streamEnable reg app) op t).manager := by
  by_cases hread : op = Operation.read
  · exact enableBy_keeps (hread ▸ read_mem) (fun t _ => streamEnable_answers hreg t) t
  · by_cases hwrite : op = Operation.write
    · exact enableBy_keeps (hwrite ▸ write_mem) (fun t _ => streamEnable_answers hreg t) t
    · have herr : enableBy (streamEnable reg app) op t = t := by
        refine enableBy_of_error hd fun t => ?_
        unfold streamEnable
        rw [if_neg hread, if_neg hwrite]
      rw [herr]
      exact refl_of Keeps _

theorem innerRegister_keeps (op : Operation) (t : Object σ) :
    Keeps t.manager (innerRegister op t).manager := by
  unfold innerRegister
  by_cases hread : op = Operation.read
  · rw [if_pos hread]
    refine registerBy_keeps (fun t _ => ?_) t
    exact enableBy_keeps read_mem (fun t _ => submitted_answers (by decide) t) t
  · rw [if_neg hread]
    exact refl_of Keeps _

variable (app) in
/-- **A registration keeps the port**, whatever it runs. -/
theorem streamRegister_keeps (op : Operation) (t : Object σ) :
    Keeps t.manager (streamRegister app op t).manager :=
  registerBy_keeps (fun _ hd => enableBy_stream_keeps innerRegister_keeps hd) t

/-! ### Registrations in callbacks -/

/-- Two ways of registering that answer the same wherever the mask contains `write`, which the first
one keeps. -/
structure Agree (reg reg' : Register Port σ) : Prop where
  read : ∀ t : Object σ, reg Operation.read t = reg' Operation.read t
  write : ∀ t : Object σ, t.manager.mask.contains Operation.write = true →
    reg Operation.write t = reg' Operation.write t
  keeps : ∀ op (t : Object σ), Keeps t.manager (reg op t).manager

variable {reg' : Register Port σ}

theorem Agree.call (h : Agree reg reg') {t : Object σ}
    (ht : t.manager.mask.contains Operation.write = true) (c : Call) : t.call reg c = t.call reg' c := by
  cases c with
  | configureNextRead p => rfl
  | enqueue bytes =>
    refine h.write (t.pushCopy bytes) ?_
    rw [pushCopy_eq]
    exact ht
  | enqueueBuffer bytes spare => exact h.write (t.pushNew bytes spare) ht
  | registerReading => exact h.read t
  | registerWriting => exact h.write t ht

theorem Agree.calls (h : Agree reg reg') (cs : List Call) {t : Object σ}
    (ht : t.manager.mask.contains Operation.write = true) :
    cs.foldl (StreamTransportBase.call reg) t = cs.foldl (StreamTransportBase.call reg') t := by
  induction cs generalizing t with
  | nil => rfl
  | cons c cs ih =>
    rw [List.foldl_cons, List.foldl_cons, ← h.call ht c]
    exact ih ((call_manager h.keeps t c).flags _ write_mem ht)

theorem Agree.fetchLoop (h : Agree reg reg') (i : ℕ) {t : Object σ}
    (ht : t.manager.mask.contains Operation.write = true) :
    StreamTransportBase.fetchLoop reg app i t = StreamTransportBase.fetchLoop reg' app i t := by
  induction i generalizing t with
  | zero => rfl
  | succ i ih =>
    have hback : callback reg (app.produce t.nextLayer) t = callback reg' (app.produce t.nextLayer) t :=
      congrArg (Prod.mk _) (h.calls (app.produce t.nextLayer).2.1 ht)
    unfold StreamTransportBase.fetchLoop
    split_ifs
    · rw [← hback]
      exact ih ((callback_manager h.keeps (app.produce t.nextLayer) t).flags _ write_mem ht)
    · rfl
    · rfl

theorem innerRegister_agree : Agree innerRegister (streamRegister app) where
  read _ := rfl
  write t ht := by
    rw [contains_eq write_mem, decide_eq_true_eq] at ht
    exact (if_neg ht).symm
  keeps := innerRegister_keeps

/-- **A registration runs `enable`**, whose callbacks may register again. -/
theorem streamRegister_eq (op : Operation) (t : Object σ) :
    streamRegister app op t = registerBy (streamEnable (streamRegister app) app) op t := by
  have henable : ∀ new, maskAdd t.manager.mask op = some new →
      streamEnable innerRegister app op (maskSet new t) =
        streamEnable (streamRegister app) app op (maskSet new t) := by
    intro new hadd
    unfold streamEnable fetchMoreData
    by_cases hwrite : op = Operation.write
    · have hnew : (maskSet new t).manager.mask.contains Operation.write = true := by
        rw [← hwrite]
        exact (contains_maskAdd hadd).2.1
      rw [innerRegister_agree.fetchLoop _ hnew]
    · rw [if_neg hwrite, if_neg hwrite]
  unfold streamRegister registerBy
  rw [enableBy_eq, enableBy_eq]
  cases hadd : maskAdd t.manager.mask op with
  | none => rfl
  | some new =>
    dsimp only
    rw [henable new hadd]
    rfl

end Stream

/-! ### Every class of managers -/

/-- **`enable` keeps the port**, for an operation that the mask contains or is disjoint from. -/
theorem Kind.enable_keeps (kind : Kind σ) {t : Object σ}
    (h : t.manager.mask &&& op = Operation.none ∨ t.manager.mask &&& op = op) :
    Keeps t.manager (enableBy kind.enable op t).manager := by
  rcases h with hd | hc
  · cases kind with
    | stream app => exact enableBy_stream_keeps (streamRegister_keeps app) hd
    | updater =>
      by_cases hread : op = Operation.read
      · subst hread
        refine enableBy_keeps read_mem (fun t ht => ?_) t
        have hadd : maskAdd t.manager.mask Operation.read = none := if_pos (eq_of_beq ht)
        change Answers _ _ (updaterEnable Operation.read t)
        unfold updaterEnable
        rw [if_neg (not_not.mpr rfl), hadd]
        exact submitted_answers (by decide) t
      · have herr : enableBy updaterEnable op t = t := enableBy_of_error hd fun t => if_pos hread
        change Keeps t.manager (enableBy updaterEnable op t).manager
        rw [herr]
        exact refl_of Keeps _
    | acceptor =>
      by_cases haccept : op = Operation.accept
      · subst haccept
        refine enableBy_keeps accept_mem (fun t ht => ?_) t
        have hadd : maskAdd t.manager.mask Operation.accept = none := if_pos (eq_of_beq ht)
        change Answers _ _ (acceptorEnable Operation.accept t)
        unfold acceptorEnable
        rw [if_neg (not_not.mpr rfl), hadd]
        exact submitted_answers (by decide) t
      · have herr : enableBy acceptorEnable op t = t := enableBy_of_error hd fun t => if_pos haccept
        change Keeps t.manager (enableBy acceptorEnable op t).manager
        rw [herr]
        exact refl_of Keeps _
  · rw [enableBy_of_contains hc]
    exact refl_of Keeps _

theorem Kind.init_keeps (config : TransportConfig) (kind : Kind σ) (t : Object σ) :
    Keeps t.manager (kind.init config t).2.manager := by
  cases kind with
  | stream app => exact init_manager app (streamRegister_keeps app) config t
  | updater => exact refl_of Keeps _
  | acceptor => exact refl_of Keeps _

/-! ### Completions of a stream -/

section Completions

open StreamTransportBase

variable (app : NextLayer σ)

/-- There is room for what `handle_completion` submits once a write is done with. -/
def WriteAgainMeets (t : Object σ) : Prop :=
  let t := (fetchMoreData (streamRegister app) app t).2
  t.doneWriting app = false → t.manager.ring.HasRoom

/-- What keeps a stream armed through the completion of a submission for `op`: there is room for a
submission where `handle_completion` makes one; a temporary error takes away the only flag of the mask,
or finds no room for the poll; and no poll for writing finds the stream done. -/
def StreamMeets (op : Operation) (res : ℤ) (temporary : Bool) (t : Object σ) : Prop :=
  if op = Operation.read then
    match handleReadResult (streamRegister app) app res temporary t with
    | (.temporaryError, t) =>
      t.manager.ring.HasRoom → t.manager.mask &&& ~~~Operation.read = Operation.none
    | (.ok, t) => t.manager.ring.HasRoom
    | _ => True
  else if op = Operation.pollRead then t.manager.ring.HasRoom
  else if op = Operation.write then
    match handleWriteResult res temporary t with
    | (.temporaryError, t) =>
      t.manager.ring.HasRoom → t.manager.mask &&& ~~~Operation.write = Operation.none
    | (.ok, t) => WriteAgainMeets app t
    | _ => True
  else if op = Operation.pollWrite then
    (fetchMoreData (streamRegister app) app t).2.doneWriting app = false ∧ WriteAgainMeets app t
  else True

instance (t : Object σ) : Decidable (WriteAgainMeets app t) := by
  unfold WriteAgainMeets; infer_instance

instance (op : Operation) (res : ℤ) (temporary : Bool) (t : Object σ) :
    Decidable (StreamMeets app op res temporary t) := by
  unfold StreamMeets
  repeat' split
  all_goals infer_instance

/-- The verdict of a completion fits to what `handle_completion` did: on `ok` one submission was
made in place of the completed one; on `done` none; on a temporary error none, or a poll although
the mask contains nothing else. -/
def Settles (op : Operation) (p : Port) (o : ManagerResult × Object σ) : Prop :=
  match o.1 with
  | .ok => Moves (one (served op)) p o.2.manager
  | .done => op ∈ submittable ∧ Moves (fun _ => 0) p o.2.manager
  | .temporaryError => op ∈ submittable ∧ (Moves (fun _ => 0) p o.2.manager ∨
      Moves (one op) p o.2.manager ∧ o.2.manager.mask &&& ~~~op = Operation.none)
  | .error => Own p o.2.manager

variable {app}

theorem submitReadAgain_settles {t : Object σ} {p : Port} (hop : served op = Operation.read)
    (ht : Keeps p t.manager) (hroom : t.manager.ring.HasRoom) : Settles op p (submitReadAgain t) := by
  have hsub : Moves _ t.manager (submitBy Ring.submitRead t).2.manager := submitBy_moves t
  refine (ht.moves.trans hsub).congr fun o _ => ?_
  rw [if_pos hroom, hop, zero_add]
  rfl

theorem submitWriteAgain_settles {t : Object σ} {p : Port} (hop : served op = Operation.write)
    (ht : Keeps p t.manager) (hroom : WriteAgainMeets app t)
    (hdone : (fetchMoreData (streamRegister app) app t).2.doneWriting app = true → op = Operation.write) :
    Settles op p (submitWriteAgain app t) := by
  have hfetch := fetchMoreData_manager app (streamRegister_keeps app) t
  unfold submitWriteAgain
  unfold WriteAgainMeets at hroom
  dsimp only at hroom ⊢
  generalize (fetchMoreData (streamRegister app) app t).2 = t' at hfetch hroom hdone ⊢
  have hkeep : Keeps p t'.manager := IsTrans.trans _ _ _ ht hfetch
  by_cases hd : t'.doneWriting app = true
  · rw [if_pos hd]
    exact ⟨hdone hd ▸ write_mem, hkeep.moves⟩
  · rw [if_neg hd]
    have hsub : Moves _ t'.manager (submitBy Ring.submitWritev t').2.manager := submitBy_moves t'
    refine (hkeep.moves.trans hsub).congr fun o _ => ?_
    rw [if_pos (hroom (Bool.eq_false_iff.mpr hd)), hop, zero_add]
    rfl

/-- The end of a temporary error: the poll is submitted, or finds no room. -/
theorem poll_settles {poll : Operation} {t : Object σ} {p : Port} (hop : op ∈ submittable)
    (hserve : served poll = op) (ht : Keeps p t.manager)
    (h : t.manager.ring.HasRoom → t.manager.mask &&& ~~~op = Operation.none)
    {accepts : false = true → poll = Operation.accept} :
    Settles op p (.temporaryError, (submitBy (Ring.submit poll false accepts) t).2) := by
  have hsub : Moves _ t.manager (submitBy (Ring.submit poll false accepts) t).2.manager :=
    submitBy_moves t
  refine ⟨hop, ?_⟩
  by_cases hroom : t.manager.ring.HasRoom
  · refine Or.inr ⟨(ht.moves.trans hsub).congr fun o _ => ?_, h hroom⟩
    rw [if_pos hroom, hserve, zero_add]
  · refine Or.inl ((ht.moves.trans hsub).congr fun o _ => ?_)
    rw [if_neg hroom, zero_add]

/-- A write result does not touch the port. -/
theorem handleWriteResult_manager (res : ℤ) (temporary : Bool) (t : Object σ) :
    (handleWriteResult res temporary t).2.manager = t.manager := by
  obtain ⟨memory, cache, count, queue, iovecs, hframe⟩ := handleWriteResult_frame res temporary t
  rw [hframe]

/-- **A completion that meets the condition.** -/
theorem streamHandleCompletion_settles {res : ℤ} {temporary : Bool} {t : Object σ}
    (h : StreamMeets app op res temporary t) :
    Settles op t.manager (streamHandleCompletion app op res temporary t) := by
  unfold StreamMeets at h
  unfold streamHandleCompletion
  by_cases hread : op = Operation.read
  · subst hread
    rw [if_pos rfl] at h ⊢
    have hkeep := handleReadResult_manager app (streamRegister_keeps app) res temporary t
    generalize handleReadResult (streamRegister app) app res temporary t = o at h hkeep ⊢
    obtain ⟨v, t'⟩ := o
    cases v with
    | ok => exact submitReadAgain_settles (by decide) hkeep h
    | done => exact ⟨read_mem, hkeep.moves⟩
    | error => exact hkeep.moves.toOwn
    | temporaryError => exact poll_settles read_mem (by decide) hkeep h
  · rw [if_neg hread] at h ⊢
    by_cases hpollRead : op = Operation.pollRead
    · subst hpollRead
      rw [if_pos rfl] at h ⊢
      exact submitReadAgain_settles (by decide) (refl_of Keeps _) h
    · rw [if_neg hpollRead] at h ⊢
      by_cases hwrite : op = Operation.write
      · subst hwrite
        rw [if_pos rfl] at h ⊢
        have hkeep : Keeps t.manager (handleWriteResult res temporary t).2.manager := by
          rw [handleWriteResult_manager]
          exact refl_of Keeps _
        generalize handleWriteResult res temporary t = o at h hkeep ⊢
        obtain ⟨v, t'⟩ := o
        cases v with
        | ok => exact submitWriteAgain_settles (by decide) hkeep h fun _ => rfl
        | done => exact ⟨write_mem, hkeep.moves⟩
        | error => exact hkeep.moves.toOwn
        | temporaryError => exact poll_settles write_mem (by decide) hkeep h
      · rw [if_neg hwrite] at h ⊢
        by_cases hpollWrite : op = Operation.pollWrite
        · subst hpollWrite
          rw [if_pos rfl] at h ⊢
          refine submitWriteAgain_settles (by decide) (refl_of Keeps _) h.2 fun hdone => ?_
          rw [h.1] at hdone
          cases hdone
        · rw [if_neg hpollWrite]
          exact refl_of Own _

theorem submitBy_own {multishot : Bool} {accepts : multishot = true → op = Operation.accept}
    {t : Object σ} {p : Port} (ht : Keeps p t.manager) :
    Own p (submitBy (Ring.submit op multishot accepts) t).2.manager :=
  (ht.moves.trans (submitBy_moves t)).toOwn

theorem submitWriteAgain_own {t : Object σ} {p : Port} (ht : Keeps p t.manager) :
    Own p (submitWriteAgain app t).2.manager := by
  have hfetch := fetchMoreData_manager app (streamRegister_keeps app) t
  have hkeep : Keeps p _ := IsTrans.trans _ _ _ ht hfetch
  unfold submitWriteAgain
  dsimp only
  split_ifs
  · exact hkeep.moves.toOwn
  · exact submitBy_own hkeep

variable (app op) in
/-- Whatever a completion meets, it leaves the submissions of other managers alone. -/
theorem streamHandleCompletion_own (res : ℤ) (temporary : Bool) (t : Object σ) :
    Own t.manager (streamHandleCompletion app op res temporary t).2.manager := by
  have hread := handleReadResult_manager app (streamRegister_keeps app) res
    temporary t
  have hwrite : Keeps t.manager (handleWriteResult res temporary t).2.manager := by
    rw [handleWriteResult_manager]
    exact refl_of Keeps _
  unfold streamHandleCompletion
  split_ifs
  · generalize handleReadResult (streamRegister app) app res temporary t = o at hread ⊢
    obtain ⟨v, t'⟩ := o
    cases v with
    | ok => exact submitBy_own hread
    | done => exact hread.moves.toOwn
    | error => exact hread.moves.toOwn
    | temporaryError => exact submitBy_own hread
  · exact submitBy_own (refl_of Keeps _)
  · generalize handleWriteResult res temporary t = o at hwrite ⊢
    obtain ⟨v, t'⟩ := o
    cases v with
    | ok => exact submitWriteAgain_own hwrite
    | done => exact hwrite.moves.toOwn
    | error => exact hwrite.moves.toOwn
    | temporaryError => exact submitBy_own hwrite
  · exact submitWriteAgain_own (refl_of Keeps _)
  · exact refl_of Own _

end Completions

end NetworkDriver.Net.Multiplexer.Uring.Ports
