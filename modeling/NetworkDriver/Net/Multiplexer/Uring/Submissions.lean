import NetworkDriver.Net.Multiplexer.Base

/-! # Submissions

The submission queue of a `uring_multiplexer`, the submissions the kernel works on, and the
functions that prepare one. The queue has room for `max_uring_depth` entries; a submission that
meets a full queue fails. What a submission tells the kernel besides its operation (the buffers and
the flags) is left out.

An outstanding submission serves an operation: itself, or the one it is the poll form of. The
`balance` of a mask for an operation is the number of outstanding submissions that serve it, less
one if the mask contains it.

* `outstanding_submit`: a submission adds exactly one outstanding submission, if there is room.
* `bit_maskAdd`, `bit_maskDel`: a change of the mask for one operation. -/

namespace NetworkDriver.Net.Multiplexer.Uring.Submissions

open NetworkDriver.Net.Types NetworkDriver.Net.Multiplexer.Base

/-! ### The ring -/

/-- `max_uring_depth`. -/
def maxUringDepth : ℕ := 32

/-- `submission_data`. Nothing but an accept is submitted as a multishot. -/
structure Submission where
  mgr : Manager
  op : Operation
  id : UInt64
  multishot : Bool
  accepts : multishot = true → op = Operation.accept
  deriving DecidableEq

/-- The submissions that wait in the queue, those the kernel has, and `current_submission_id_`. -/
structure Ring where
  queued : List Submission
  inFlight : List Submission
  currentSubmissionId : UInt64
  deriving DecidableEq

namespace Ring

/-- The ring of a new multiplexer. -/
def empty : Ring := ⟨[], [], 0⟩

/-- `io_uring_get_sqe` finds an entry. -/
def HasRoom (r : Ring) : Prop := r.queued.length < maxUringDepth

instance (r : Ring) : Decidable r.HasRoom := by unfold HasRoom; infer_instance

/-- `prepare_submission`. -/
def prepareSubmission (mgr : Manager) (op : Operation) (multishot : Bool)
    (accepts : multishot = true → op = Operation.accept) (r : Ring) : Option Ring :=
  if r.HasRoom then
    some { r with queued := r.queued ++ [⟨mgr, op, r.currentSubmissionId, multishot, accepts⟩] }
  else none

/-- The common form of the functions below: success and the id of the submission. -/
def submit (op : Operation) (multishot : Bool) (accepts : multishot = true → op = Operation.accept)
    (mgr : Manager) (r : Ring) : (Bool × UInt64) × Ring :=
  match r.prepareSubmission mgr op multishot accepts with
  | some r =>
    ((true, r.currentSubmissionId), { r with currentSubmissionId := r.currentSubmissionId + 1 })
  | none => ((false, 0), r)

/-- `submit_accept`. -/
def submitAccept (multishot : Bool) : Manager → Ring → (Bool × UInt64) × Ring :=
  submit Operation.accept multishot fun _ => rfl

/-- `submit_poll_read`. -/
def submitPollRead : Manager → Ring → (Bool × UInt64) × Ring := submit Operation.pollRead false (by decide)

/-- `submit_poll_write`. -/
def submitPollWrite : Manager → Ring → (Bool × UInt64) × Ring := submit Operation.pollWrite false (by decide)

/-- `submit_read`. -/
def submitRead : Manager → Ring → (Bool × UInt64) × Ring := submit Operation.read false (by decide)

/-- `submit_readv`. -/
def submitReadv : Manager → Ring → (Bool × UInt64) × Ring := submit Operation.read false (by decide)

/-- `submit_writev`. -/
def submitWritev : Manager → Ring → (Bool × UInt64) × Ring := submit Operation.write false (by decide)

/-- `io_uring_submit`: the first `n` entries of the queue go to the kernel. -/
def toKernel (n : ℕ) (r : Ring) : Ring :=
  { r with queued := r.queued.drop n, inFlight := r.inFlight ++ r.queued.take n }

/-- The completion of the `k`-th submission in flight is taken: a multishot that goes on stays. -/
def complete (k : ℕ) (stays : Bool) (r : Ring) : Ring :=
  if stays then r else { r with inFlight := r.inFlight.eraseIdx k }

/-! ### Outstanding submissions -/

end Ring

/-- The operation that a submission for `op` serves. -/
def served (op : Operation) : Operation :=
  if op = Operation.pollRead then Operation.read
  else if op = Operation.pollWrite then Operation.write
  else op

/-- The operations that are submitted. -/
def submittable : List Operation := [Operation.read, Operation.write, Operation.accept]

namespace Ring

/-- The number of outstanding submissions of a manager that serve an operation. -/
def outstanding (r : Ring) (mgr : Manager) (op : Operation) : ℕ :=
  (r.queued ++ r.inFlight).countP fun x => x.mgr = mgr ∧ served x.op = op

variable (r : Ring) (mgr m : Manager) (op o : Operation)

/-- **A submission, if there is room, is one more that is outstanding.** -/
theorem outstanding_submit (multishot : Bool) (accepts : multishot = true → op = Operation.accept) :
    (submit op multishot accepts mgr r).2.outstanding m o =
      r.outstanding m o + if r.HasRoom ∧ mgr = m ∧ served op = o then 1 else 0 := by
  unfold submit prepareSubmission
  by_cases h : r.HasRoom
  · rw [if_pos h]
    unfold outstanding
    simp only [List.countP_append, List.countP_cons, List.countP_nil, h, true_and, decide_eq_true_eq]
    omega
  · rw [if_neg h]
    simp [h]

theorem submit_success (multishot : Bool) (accepts : multishot = true → op = Operation.accept) :
    (submit op multishot accepts mgr r).1.1 = decide r.HasRoom := by
  unfold submit prepareSubmission
  by_cases h : r.HasRoom
  · simp [h]
  · simp [h]

theorem outstanding_toKernel (n : ℕ) : (r.toKernel n).outstanding m o = r.outstanding m o := by
  unfold outstanding toKernel
  have hsplit := congrArg (List.countP fun x : Submission => x.mgr = m ∧ served x.op = o)
    (List.take_append_drop n r.queued)
  simp only [List.countP_append] at hsplit ⊢
  omega

/-- A completion that ends its submission. -/
theorem outstanding_complete {k : ℕ} {x : Submission} (hx : r.inFlight[k]? = some x) (stays : Bool) :
    ((r.complete k stays).outstanding m o : ℤ) =
      r.outstanding m o - if stays = false ∧ x.mgr = m ∧ served x.op = o then 1 else 0 := by
  unfold complete
  cases stays with
  | true => simp
  | false =>
    obtain ⟨hk, rfl⟩ := List.getElem?_eq_some_iff.mp hx
    have hperm := (List.getElem_cons_eraseIdx_perm hk).countP_eq
      fun x : Submission => decide (x.mgr = m ∧ served x.op = o)
    rw [List.countP_cons] at hperm
    unfold outstanding
    simp only [Bool.false_eq_true, if_false, List.countP_append, true_and]
    simp only [decide_eq_true_eq] at hperm
    rw [← hperm]
    split_ifs
    · push_cast
      omega
    · push_cast
      omega

end Ring

/-! ### Masks and their balance -/

/-- One if the mask contains the operation. -/
def bit (mask op : Operation) : ℤ := if mask.contains op then 1 else 0

/-- The outstanding submissions that the mask does not account for. -/
def balance (mask : Operation) (r : Ring) (mgr : Manager) (op : Operation) : ℤ :=
  r.outstanding mgr op - bit mask op

theorem bit_cases (mask op : Operation) : bit mask op = 0 ∨ bit mask op = 1 := by
  unfold bit
  split_ifs
  · exact Or.inr rfl
  · exact Or.inl rfl

/-- A mask without outstanding submissions to spare contains what it lacks submissions for. -/
theorem bit_of_balance {mask : Operation} {r : Ring} {mgr : Manager} {op : Operation}
    (h : balance mask r mgr op = -1) : bit mask op = 1 := by
  have hb := bit_cases mask op
  unfold balance at h
  omega

/-- A submittable operation is a single flag. -/
theorem contains_flag {op : Operation} (h : op ∈ submittable) :
    ∃ i < 8, ∀ mask : Operation, mask.contains op = mask.getLsbD i := by
  simp only [submittable, List.mem_cons, List.not_mem_nil, or_false] at h
  rcases h with rfl | rfl | rfl
  · exact ⟨0, by decide, by decide +kernel⟩
  · exact ⟨1, by decide, by decide +kernel⟩
  · exact ⟨2, by decide, by decide +kernel⟩

/-- Containing a single flag is meeting it. -/
theorem contains_eq {op : Operation} (h : op ∈ submittable) (mask : Operation) :
    mask.contains op = decide (mask &&& op ≠ Operation.none) := by
  have hall : ∀ op ∈ submittable, ∀ mask : Operation,
      mask.contains op = decide (mask &&& op ≠ Operation.none) := by decide +kernel
  exact hall op h mask

section Masks

variable {op : Operation} (hop : op ∈ submittable) (mask flag : Operation)

include hop

theorem contains_or : (mask ||| flag).contains op = (mask.contains op || flag.contains op) := by
  obtain ⟨i, -, hi⟩ := contains_flag hop
  rw [hi, hi, hi, BitVec.getLsbD_or]

theorem contains_and_not :
    (mask &&& ~~~flag).contains op = (mask.contains op && !flag.contains op) := by
  obtain ⟨i, hlt, hi⟩ := contains_flag hop
  rw [hi, hi, hi, BitVec.getLsbD_and, BitVec.getLsbD_not, decide_eq_true hlt, Bool.true_and]

end Masks

/-- Two submittable operations contain each other only if they are the same. -/
theorem contains_submittable {op o : Operation} (hop : op ∈ submittable) (ho : o ∈ submittable) :
    op.contains o = decide (op = o) := by
  have hall : ∀ op ∈ submittable, ∀ o ∈ submittable, op.contains o = decide (op = o) := by
    decide +kernel
  exact hall op hop o ho

/-- An operation was missing from a mask that grows by it, and no other flag is lost. -/
theorem contains_maskAdd {mask new op : Operation} (h : maskAdd mask op = some new) :
    mask.contains op = false ∧ new.contains op = true ∧
      ∀ o ∈ submittable, mask.contains o = true → new.contains o = true := by
  obtain ⟨rfl, hnew, hold⟩ := maskAdd_some h
  refine ⟨beq_eq_false_iff_ne.mpr hold, beq_iff_eq.mpr hnew, fun o ho hc => ?_⟩
  rw [contains_or ho, hc, Bool.true_or]

/-- One that shrinks by it contained it. -/
theorem contains_maskDel {mask new op : Operation} (hop : op ∈ submittable)
    (h : maskDel mask op = some new) : mask.contains op = true := by
  rw [contains_eq hop, decide_eq_true_eq]
  intro hnone
  have habsent : maskDel mask op = none := if_pos hnone
  rw [habsent] at h
  cases h

/-- **A mask that grows by one operation.** -/
theorem bit_maskAdd {mask new op o : Operation} (hop : op ∈ submittable) (ho : o ∈ submittable)
    (h : maskAdd mask op = some new) : bit new o = bit mask o + if op = o then 1 else 0 := by
  have hnot := (contains_maskAdd h).1
  obtain ⟨rfl, -, -⟩ := maskAdd_some h
  unfold bit
  rw [contains_or ho, contains_submittable hop ho]
  by_cases he : op = o
  · subst he
    simp [hnot]
  · simp [he]

/-- **A mask that shrinks by one operation.** -/
theorem bit_maskDel {mask new op o : Operation} (hop : op ∈ submittable) (ho : o ∈ submittable)
    (h : maskDel mask op = some new) : bit new o = bit mask o - if op = o then 1 else 0 := by
  have hc := contains_maskDel hop h
  obtain rfl := mask_of_maskDel_some h
  unfold bit
  rw [contains_and_not ho, contains_submittable hop ho]
  by_cases he : op = o
  · subst he
    simp [hc]
  · simp [he]

/-- A mask that an operation was added to, without effect on the flags it had, and taken from again. -/
theorem maskDel_maskAdd {mask new op : Operation} (hd : mask &&& op = Operation.none)
    (h : maskAdd mask op = some new) : maskDel new op = some mask := by
  obtain ⟨rfl, -, hm⟩ := maskAdd_some h
  have hback : (mask ||| op) &&& ~~~op = mask := by
    ext i hi
    have hbit := congrArg (fun x : Operation => x[i]) hd
    simp only [BitVec.getElem_and, Operation.none, BitVec.getElem_zero] at hbit
    simp only [BitVec.getElem_and, BitVec.getElem_or, BitVec.getElem_not]
    revert hbit
    cases mask[i] <;> cases op[i] <;> decide
  have hsome : (mask ||| op) &&& op ≠ Operation.none := by
    intro hnone
    have hop : op = Operation.none := by
      rw [← hnone, BitVec.and_comm, BitVec.or_comm]
      ext i hi
      simp only [BitVec.getElem_and, BitVec.getElem_or]
      cases mask[i] <;> cases op[i] <;> rfl
    exact hm (by rw [hd, hop])
  unfold maskDel
  rw [if_neg hsome, hback]

end NetworkDriver.Net.Multiplexer.Uring.Submissions
