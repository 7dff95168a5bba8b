import NetworkDriver.Net.StreamTransport.Outgoing
import NetworkDriver.Net.StreamTransport.Uring.Callbacks
import NetworkDriver.Net.StreamTransport.Uring.Single

/-! # The outgoing bytes under io_uring

A `writev` is three things at three times: the address of the array of iovecs in a submission, a copy of
the array in the kernel, and bytes on the wire. The queue may grow meanwhile, but it is the result of the
same write that it is cut by (`Single`), so each of them still speaks about the front of the queue when
its turn comes (`Intact`).

* `Placed`: the array has not moved when `io_uring_submit` reads it.
* `Clean`: what the kernel reads is what is queued, and a write ends where a buffer ends, or inside the
  last one.
* `step_outgoing`: an event; `sent_faithful`: any run. -/

namespace NetworkDriver.Net.StreamTransport.Uring.Outgoing

open NetworkDriver.Library.Outbox (flatMap_alone)
open NetworkDriver.Library.Vectors NetworkDriver.Library.Run
open NetworkDriver.Net.Types NetworkDriver.Net.Multiplexer.Base
open NetworkDriver.Net.Multiplexer.Uring.Submissions
open NetworkDriver.Net.StreamTransport.Model hiding Event
open NetworkDriver.Net.StreamTransport.Callbacks
open NetworkDriver.Net.StreamTransport.Queue hiding step
open NetworkDriver.Net.StreamTransport.Outgoing (queued Sound InLast sound_change sound_fresh
  sound_removeWritten described_take length_queued staleIov)
open NetworkDriver.Net.StreamTransport.Uring.Model NetworkDriver.Net.StreamTransport.Uring.Callbacks
open NetworkDriver.Net.StreamTransport.Uring.Single
open StreamTransportBase

variable {σ : Type}

/-! ### The invariant -/

/-- What an outstanding submission is to the queue. -/
def Fits (t : Stream σ) : Entry → Prop
  | .prepared array count =>
    array ≤ t.manager.array ∧ (array = t.manager.array → count ≤ t.iovecs.length)
  | .sending iovecs => iovecs <+: t.iovecs
  | .finished op res bytes => op = Operation.write →
    bytes = (queued t).take res.toNat ∧ res.toNat ≤ (queued t).length
  | .poll op => served op ≠ op
  | .read _ _ => True

/-- **The invariant.** -/
structure Intact (t : Stream σ) : Prop where
  sound : Sound t
  fits : ∀ e ∈ t.manager.entries, Fits t e
  current : t.manager.dangling = false

/-- A change only adds to the queue. -/
theorem change_grows {P : ReceivePolicy → Prop} {t t' : Stream σ} (hc : Change P t t') :
    t'.trace.taken = t.trace.taken ∧ t.trace.enqueued <+: t'.trace.enqueued ∧ t.iovecs <+: t'.iovecs := by
  cases hc with
  | pushNew bytes spare =>
    rw [pushNew_eq]
    exact ⟨rfl, List.prefix_append _ _, List.prefix_append _ _⟩
  | pushCopy bytes =>
    rw [pushCopy_eq]
    exact ⟨rfl, List.prefix_append _ _, List.prefix_append _ _⟩
  | _ => exact ⟨rfl, List.prefix_refl _, List.prefix_refl _⟩

/-- So the bytes queued stay in front. -/
theorem queued_grows {t t' : Stream σ} (h : Sound t) (h' : Sound t')
    (htaken : t'.trace.taken = t.trace.taken) (henqueued : t.trace.enqueued <+: t'.trace.enqueued) :
    queued t <+: queued t' := by
  have hrest' := h'.rest
  rw [htaken] at hrest'
  rw [← h.rest, ← hrest'] at henqueued
  exact (List.prefix_append_right_inj _).mp henqueued

/-- What fits a queue fits a longer one. -/
theorem Fits.mono {t t' : Stream σ} {e : Entry} (h : Fits t e) (hqueued : queued t <+: queued t')
    (hiovecs : t.iovecs <+: t'.iovecs) (harray : t'.manager.array = t.manager.array) : Fits t' e := by
  cases e with
  | prepared array count =>
    refine ⟨harray ▸ h.1, fun heq => ?_⟩
    exact (h.2 (heq.trans harray)).trans hiovecs.length_le
  | sending iovecs => exact h.trans hiovecs
  | finished op res bytes =>
    intro hwrite
    obtain ⟨hbytes, hle⟩ := h hwrite
    refine ⟨?_, hle.trans hqueued.length_le⟩
    obtain ⟨new, hnew⟩ := hqueued
    rw [hbytes, ← hnew, List.take_append_of_le_length hle]
  | poll op => exact h
  | read offset size => trivial

theorem Intact.congr {t t' : Stream σ} (h : Intact t) (hsound : Sound t')
    (hmanager : t'.manager = t.manager) (hqueued : queued t <+: queued t')
    (hiovecs : t.iovecs <+: t'.iovecs) : Intact t' := by
  refine ⟨hsound, fun e he => ?_, by rw [hmanager]; exact h.current⟩
  rw [hmanager] at he
  exact (h.fits e he).mono hqueued hiovecs (by rw [hmanager])

theorem sound_manager {t : Stream σ} (h : Sound t) (l : Line) : Sound { t with manager := l } :=
  ⟨h.wf, h.valid, h.separate, h.iovecs, h.rest⟩

/-- **The primitive changes.** -/
theorem outgoing_rule : Rule (fun _ => True) (Intact (σ := σ)) where
  change t t' hc hmanager h := by
    have hsound := sound_change t t' hc h.sound
    obtain ⟨htaken, henqueued, hiovecs⟩ := change_grows hc
    exact h.congr hsound hmanager (queued_grows h.sound hsound htaken henqueued) hiovecs
  port port t h := ⟨sound_manager h.sound _, fun e he =>
    (h.fits e he).mono (List.prefix_refl _) (List.prefix_refl _) rfl, h.current⟩
  grow t h := by
    unfold grow
    split_ifs
    · exact h
    · refine ⟨sound_manager h.sound _, fun e he => ?_, h.current⟩
      have hfits := h.fits e he
      cases e with
      | prepared array count =>
        obtain ⟨hle, -⟩ := hfits
        exact ⟨Nat.le_succ_of_le hle, fun heq => absurd (heq ▸ hle) (Nat.not_succ_le_self _)⟩
      | _ => exact hfits
  submit t entry hfresh h := by
    refine ⟨sound_manager h.sound _, fun e he => ?_, h.current⟩
    rcases List.mem_append.mp he with he | he
    · exact (h.fits e he).mono (List.prefix_refl _) (List.prefix_refl _) rfl
    · obtain rfl := List.mem_singleton.mp he
      cases hfresh with
      | read => trivial
      | writev => exact ⟨le_refl _, fun _ => le_refl _⟩
      | poll op hop => exact hop

/-! ### The kernel -/

/-- Another entry in the place of one. -/
theorem outgoing_set {t : Stream σ} (h : Intact t) (k : ℕ) {entry : Entry} (hfits : Fits t entry) :
    Intact (setEntry k entry t) := by
  refine ⟨sound_manager h.sound _, fun e he => ?_, h.current⟩
  rcases List.mem_or_eq_of_mem_set he with he | rfl
  · exact (h.fits e he).mono (List.prefix_refl _) (List.prefix_refl _) rfl
  · exact hfits.mono (List.prefix_refl _) (List.prefix_refl _) rfl

/-- The kernel writes the first bytes of the queue: the iovecs are exact, or it stays in the first
buffer. -/
def Exact (t : Stream σ) (n : ℕ) : Prop :=
  t.iovecs = t.writeQueue.map iovOf ∨ n ≤ (t.writeQueue.headD Vec.null).size

instance (t : Stream σ) (n : ℕ) : Decidable (Exact t n) := by unfold Exact; infer_instance

theorem length_queued_eq {t : Stream σ} (h : Sound t) : (queued t).length = totalSize t.writeQueue :=
  length_queued fun v hv => h.valid v (List.mem_append_left _ hv)

theorem described_eq {t : Stream σ} {iovecs : List IoVec} (hfront : iovecs <+: t.iovecs) :
    describedBy iovecs t <+: t.described := by
  obtain ⟨rest, hrest⟩ := hfront
  unfold described describedBy
  rw [← hrest, List.flatMap_append]
  exact List.prefix_append _ _

/-- The kernel finds as many bytes as it takes. -/
theorem length_describedBy {t : Stream σ} (h : Sound t) {iovecs : List IoVec} (hfront : iovecs <+: t.iovecs)
    {n : ℕ} (hn : n ≤ (iovecs.map IoVec.len).sum) (hexact : Exact t n) :
    n ≤ (describedBy iovecs t).length ∧ n ≤ (queued t).length := by
  rw [length_queued_eq h]
  rcases hexact with hexact | hhead
  · -- the iovecs are those of the first buffers
    have hqueue : iovecs = (t.writeQueue.take iovecs.length).map iovOf := by
      rw [List.map_take, ← hexact]
      exact List.prefix_iff_eq_take.mp hfront
    generalize iovecs.length = m at hqueue
    subst hqueue
    have hlength : (describedBy ((t.writeQueue.take m).map iovOf) t).length =
        totalSize (t.writeQueue.take m) := by
      unfold describedBy
      rw [List.flatMap_map]
      exact length_queued fun v hv => h.valid v (List.mem_append_left _ (List.mem_of_mem_take hv))
    rw [map_iovOf_len] at hn
    have hsplit := totalSize_take_add_drop t.writeQueue m
    omega
  · obtain ⟨extra, hstale⟩ := h.iovecs
    cases hq : t.writeQueue with
    | nil =>
      rw [hq] at hhead
      exact ⟨hhead.trans (Nat.zero_le _), hhead.trans (Nat.zero_le _)⟩
    | cons v q =>
      rw [hq] at hhead hstale
      have hfirst : n ≤ v.size := hhead
      refine ⟨?_, by rw [totalSize_cons]; omega⟩
      cases iovecs with
      | nil => exact hn
      | cons i iovecs =>
        have hi : i = ⟨v.data, v.size + extra⟩ := by
          obtain ⟨rest, hrest⟩ := hfront
          rw [hstale] at hrest
          exact (List.cons.inj hrest).1
        have hfits := (h.valid v (by simp [hq])).fits
        subst hi
        simp only [describedBy, List.flatMap_cons, List.length_append, Memory.view, List.length_take]
        omega

/-- **The kernel writes.** -/
theorem transferWrite_outgoing {t : Stream σ} (h : Intact t) {k : ℕ} {iovecs : List IoVec}
    (hk : t.manager.entries[k]? = some (.sending iovecs)) {outcome : WriteOutcome}
    (hexact : ∀ n, outcome = .took n → Exact t (min n (min (iovecs.map IoVec.len).sum maxRwCount))) :
    Intact (transferWrite k iovecs outcome t) := by
  have hfront : iovecs <+: t.iovecs := h.fits _ (List.mem_of_getElem? hk)
  cases outcome with
  | failed temporary => exact outgoing_set h k fun _ => ⟨rfl, Nat.zero_le _⟩
  | took n =>
    have hn := hexact n rfl
    unfold transferWrite
    dsimp only
    generalize hm : min n (min (iovecs.map IoVec.len).sum maxRwCount) = m at hn ⊢
    obtain ⟨hdescribed, hqueued⟩ := length_describedBy h.sound hfront (by omega) hn
    refine outgoing_set h k fun _ => ⟨?_, ?_⟩
    · obtain ⟨rest, hrest⟩ := described_eq hfront
      have htake := described_take h.sound hn
      rw [← hrest, List.take_append_of_le_length hdescribed] at htake
      rw [Int.toNat_natCast]
      exact htake
    · rw [Int.toNat_natCast]
      exact hqueued

/-! ### Completions -/

/-- What does not serve writing fits any queue. -/
theorem Fits.of_other {t : Stream σ} {e : Entry} (h : Fits t e) (hserves : serves e ≠ Operation.write)
    (t' : Stream σ) : Fits t' e := by
  cases e with
  | prepared array count => exact absurd rfl hserves
  | sending iovecs => exact absurd rfl hserves
  | finished op res bytes =>
    rintro rfl
    exact absurd rfl hserves
  | poll op => exact h
  | read offset size => trivial

/-- **The result of a write**, after which nothing is outstanding for writing. -/
theorem written_outgoing (temporary : Bool) {t : Stream σ} (h : Intact t)
    (harmed : Armed Operation.write t.manager) {k : ℕ} {res : ℤ} {bytes : List UInt8}
    (hk : t.manager.entries[k]? = some (.finished Operation.write res bytes))
    (hends : 0 ≤ res → EndsBuffer t.writeQueue res.toNat ∨ InLast t.writeQueue res.toNat) :
    Intact (handleWriteResult res temporary (passed k Operation.write bytes t)).2 := by
  obtain ⟨hbytes, -⟩ := h.fits _ (List.mem_of_getElem? hk) rfl
  have halone := alone harmed hk rfl
  have hfits : ∀ t' : Stream σ, t'.manager = (passed k Operation.write bytes t).manager →
      ∀ e ∈ t'.manager.entries, Fits t' e := by
    intro t' hmanager e he
    rw [hmanager] at he
    exact (h.fits e (List.mem_of_mem_eraseIdx he)).of_other (halone e he) t'
  have hmanager := handleWriteResult_manager res temporary (passed k Operation.write bytes t)
  have hcurrent : (handleWriteResult res temporary (passed k Operation.write bytes t)).2.manager.dangling =
      false := by
    rw [hmanager]
    exact h.current
  refine ⟨?_, hfits _ hmanager, hcurrent⟩
  unfold handleWriteResult
  by_cases hneg : res < 0
  · rw [if_pos hneg]
    have hnil : bytes = [] := by
      rw [hbytes, Int.toNat_of_nonpos hneg.le, List.take_zero]
    subst hnil
    refine ⟨h.sound.wf, h.sound.valid, h.sound.separate, h.sound.iovecs, ?_⟩
    change t.trace.taken ++ [] ++ queued t = _
    rw [List.append_nil]
    exact h.sound.rest
  · rw [if_neg hneg]
    subst hbytes
    have hremoved := sound_removeWritten
      (sound_manager h.sound (passed k Operation.write ((queued t).take res.toNat) t).manager)
      (hends (not_lt.mp hneg))
    exact hremoved

variable (app : NextLayer σ)

/-- The condition on a completion. -/
def Ends (t : Stream σ) (op : Operation) (res : ℤ) : Prop :=
  op = Operation.write → 0 ≤ res → EndsBuffer t.writeQueue res.toNat ∨ InLast t.writeQueue res.toNat

/-- **The dispatch of a completion.** -/
theorem dispatch_outgoing {t : Stream σ} (h : Intact t) (harmed : Armed Operation.write t.manager) {k : ℕ}
    {op : Operation} {res : ℤ} {bytes : List UInt8} {temporary : Bool}
    (hk : t.manager.entries[k]? = some (.finished op res bytes)) (hends : Ends t op res) :
    Intact (dispatch app k op res bytes temporary t) := by
  have happ : NextLayer.Produces (fun _ => True) app := NextLayer.produces_true app
  have hcalls := outgoing_rule.callable (outgoing_rule.register happ)
  have hpassed : op ≠ Operation.write → Intact (passed k op bytes t) := by
    intro hwrite
    refine ⟨⟨h.sound.wf, h.sound.valid, h.sound.separate, h.sound.iovecs, ?_⟩, fun e he => ?_, h.current⟩
    · unfold passed
      dsimp only
      rw [if_neg hwrite]
      exact h.sound.rest
    · exact (h.fits e (List.mem_of_mem_eraseIdx he)).mono (List.prefix_refl _) (List.prefix_refl _) rfl
  refine outgoing_rule.dispatch happ (fun hread => ?_) (fun hwrite => ?_) fun _ => hpassed
  · exact hcalls.afterRead (fun t received consumed verdicts h => ⟨⟨h.sound.wf, h.sound.valid, h.sound.separate,
      h.sound.iovecs, h.sound.rest⟩, fun e he =>
      (h.fits e he).mono (List.prefix_refl _) (List.prefix_refl _) rfl, h.current⟩)
      (fun _ _ c _ => Call.allowed_true c) res temporary (hpassed (by rw [hread]; decide))
  · subst hwrite
    exact written_outgoing temporary h harmed hk (hends rfl)

/-! ### Events -/

/-- A `writev` that waits is for the array where it is now. -/
def Found (t : Stream σ) : Entry → Prop
  | .prepared array _ => array = t.manager.array
  | _ => True

/-- The kernel may write `n` bytes of what it was given. -/
def Covered (t : Stream σ) (n : ℕ) : Entry → Prop
  | .sending iovecs => Exact t (min n (min (iovecs.map IoVec.len).sum maxRwCount))
  | _ => True

/-- The condition on the result in a completion. -/
def Cut (t : Stream σ) : Entry → Prop
  | .finished op res _ => Ends t op res
  | _ => True

/-- `io_uring_submit` finds the array where it was. -/
def Placed (t : Stream σ) : Event → Prop
  | .submit k => ∀ entry ∈ t.manager.entries[k]?, Found t entry
  | _ => True

/-- The kernel writes what is queued, and a completion cuts the queue at the end of a buffer or inside
the last one. -/
def Clean (t : Stream σ) : Event → Prop
  | .write k (.took n) => ∀ entry ∈ t.manager.entries[k]?, Covered t n entry
  | .complete k _ => ∀ entry ∈ t.manager.entries[k]?, Cut t entry
  | _ => True

instance (t : Stream σ) (op : Operation) (res : ℤ) : Decidable (Ends t op res) := by
  unfold Ends; infer_instance

instance (t : Stream σ) : (entry : Entry) → Decidable (Found t entry)
  | .prepared array _ => inferInstanceAs (Decidable (array = t.manager.array))
  | .read _ _ | .sending _ | .poll _ | .finished _ _ _ => .isTrue trivial

instance (t : Stream σ) (n : ℕ) : (entry : Entry) → Decidable (Covered t n entry)
  | .sending iovecs => inferInstanceAs (Decidable (Exact t (min n (min (iovecs.map IoVec.len).sum maxRwCount))))
  | .read _ _ | .prepared _ _ | .poll _ | .finished _ _ _ => .isTrue trivial

instance (t : Stream σ) : (entry : Entry) → Decidable (Cut t entry)
  | .finished op res _ => inferInstanceAs (Decidable (Ends t op res))
  | .read _ _ | .prepared _ _ | .sending _ | .poll _ => .isTrue trivial

instance (t : Stream σ) : (e : Event) → Decidable (Placed t e)
  | .submit k => inferInstanceAs (Decidable (∀ entry ∈ t.manager.entries[k]?, Found t entry))
  | .enable _ | .call _ | .timeout _ | .ring _ | .read _ _ | .write _ _ | .poll _ | .complete _ _ =>
    .isTrue trivial

instance (t : Stream σ) : (e : Event) → Decidable (Clean t e)
  | .write k (.took n) => inferInstanceAs (Decidable (∀ entry ∈ t.manager.entries[k]?, Covered t n entry))
  | .complete k _ => inferInstanceAs (Decidable (∀ entry ∈ t.manager.entries[k]?, Cut t entry))
  | .write _ (.failed _) | .enable _ | .call _ | .timeout _ | .ring _ | .submit _ | .read _ _ | .poll _ =>
    .isTrue trivial

/-- **Every event.** -/
theorem step_outgoing (t : Stream σ) (e : Event) (h : Intact t) (harmed : Armed Operation.write t.manager)
    (hplaced : Placed t e) (hclean : Clean t e) : Intact (step app t e) := by
  have happ : NextLayer.Produces (fun _ => True) app := NextLayer.produces_true app
  have hcalls := outgoing_rule.callable (outgoing_rule.register happ)
  cases e with
  | enable op =>
    exact outgoing_rule.enableBy (fun t => outgoing_rule.enable happ (outgoing_rule.register happ) op) h
  | call c => exact hcalls.call c t (Call.allowed_true c) h
  | timeout id => exact hcalls.callback (fun c _ => Call.allowed_true c) h
  | ring r => exact outgoing_rule.port _ t h
  | submit k =>
    unfold step
    dsimp only
    split
    · rename_i array count hk
      have hfound : array = t.manager.array := hplaced _ hk
      have hfits := h.fits _ (List.mem_of_getElem? hk)
      unfold importIovecs
      rw [if_pos ⟨hfound, hfits.2 hfound⟩]
      exact outgoing_set h k (List.take_prefix _ _)
    · exact h
  | read k outcome =>
    unfold step
    dsimp only
    split
    · rename_i offset size hk
      unfold transferRead
      cases outcome with
      | data bytes =>
        have hframe : Intact { t with
            readBuffer := t.readBuffer.take offset ++ bytes.take (min size maxRwCount) ++
              t.readBuffer.drop (offset + (bytes.take (min size maxRwCount)).length) } :=
          ⟨⟨h.sound.wf, h.sound.valid, h.sound.separate, h.sound.iovecs, h.sound.rest⟩, fun e he =>
            (h.fits e he).mono (List.prefix_refl _) (List.prefix_refl _) rfl, h.current⟩
        exact outgoing_set hframe k fun hread => absurd hread (by decide)
      | closed => exact outgoing_set h k fun hread => absurd hread (by decide)
      | failed temporary => exact outgoing_set h k fun hread => absurd hread (by decide)
    · exact h
  | write k outcome =>
    unfold step
    dsimp only
    split
    · rename_i iovecs hk
      refine transferWrite_outgoing h hk fun n hn => ?_
      subst hn
      exact hclean _ hk
    · exact h
  | poll k =>
    unfold step
    dsimp only
    split
    · rename_i op hk
      have hpoll : served op ≠ op := h.fits _ (List.mem_of_getElem? hk)
      refine outgoing_set h k fun hwrite => ?_
      subst hwrite
      exact absurd rfl hpoll
    · exact h
  | complete k temporary =>
    unfold step
    dsimp only
    split
    · rename_i op res bytes hk
      exact dispatch_outgoing app h harmed hk (hclean _ hk)
    · exact h

theorem start_outgoing (port : Multiplexer.Uring.Managers.Port) (s : σ) (config : TransportConfig) :
    Intact (start app port s config) := by
  have happ : NextLayer.Produces (fun _ => True) app := NextLayer.produces_true app
  have hfresh : Sound (fresh (⟨port, 0, 0, [], false⟩ : Line) s {}) := sound_fresh _ s {}
  refine (outgoing_rule.callable (outgoing_rule.register happ)).calls (fun c _ => Call.allowed_true c) ?_
  exact ⟨⟨hfresh.wf, hfresh.valid, hfresh.separate, hfresh.iovecs, hfresh.rest⟩, (fun e he => by cases he), rfl⟩

/-! ### What is on the wire -/

/-- The bytes of an entry that the kernel has written. -/
def wireOf : Entry → List UInt8
  | .finished op _ bytes => if op = Operation.write then bytes else []
  | _ => []

/-- The bytes that were written and whose completion is to come. -/
def unconfirmed (t : Stream σ) : List UInt8 := t.manager.entries.flatMap wireOf

theorem wireOf_other {e : Entry} (h : serves e ≠ Operation.write) : wireOf e = [] := by
  cases e with
  | finished op res bytes =>
    refine if_neg ?_
    rintro rfl
    exact h rfl
  | _ => rfl

/-- They are the first bytes of the queue. -/
theorem unconfirmed_prefix {t : Stream σ} (h : Intact t) (harmed : Armed Operation.write t.manager) :
    unconfirmed t <+: queued t := by
  by_cases hnone : ∀ e ∈ t.manager.entries, wireOf e = []
  · have hnil : unconfirmed t = [] := List.flatMap_eq_nil_iff.mpr hnone
    rw [hnil]
    exact List.nil_prefix
  · push Not at hnone
    obtain ⟨e, he, hwire⟩ := hnone
    obtain ⟨k, hk⟩ := List.mem_iff_getElem?.mp he
    have hserves : serves e = Operation.write := by
      by_contra hne
      exact hwire (wireOf_other hne)
    -- it is the only one
    have halone := alone harmed hk hserves
    have honly : unconfirmed t = wireOf e := flatMap_alone hk fun e' he' => wireOf_other (halone e' he')
    rw [honly]
    cases e with
    | finished op res bytes =>
      change (if op = Operation.write then bytes else []) <+: queued t
      split_ifs with hwrite
      · rw [(h.fits _ he hwrite).1]
        exact List.take_prefix _ _
      · exact List.nil_prefix
    | _ => exact List.nil_prefix

/-- **Nothing is lost, duplicated or reordered**: what is on the wire is a prefix of what was enqueued,
and the queue holds the rest behind what is still to be confirmed. -/
structure Sent (t : Stream σ) : Prop where
  wire : t.trace.taken ++ unconfirmed t <+: t.trace.enqueued
  rest : t.trace.taken ++ unconfirmed t ++ (queued t).drop (unconfirmed t).length = t.trace.enqueued

theorem Intact.sent {t : Stream σ} (h : Intact t) (harmed : Armed Operation.write t.manager) :
    Sent t := by
  have hrest : t.trace.taken ++ unconfirmed t ++ (queued t).drop (unconfirmed t).length =
      t.trace.enqueued := by
    obtain ⟨rest, hqueued⟩ := unconfirmed_prefix h harmed
    rw [← h.sound.rest, ← hqueued, List.drop_left, List.append_assoc]
  exact ⟨⟨_, hrest⟩, hrest⟩

section Run

variable (mgr : Manager) (ring : Ring) (s : σ) (config : TransportConfig) {es : List Event}
  (hplaced : Along (step app) Placed (start app ⟨mgr, Operation.none, ring⟩ s config) es)
  (hclean : Along (step app) Clean (start app ⟨mgr, Operation.none, ring⟩ s config) es)
  (hplain : Along (step app) (Unhindered Operation.write) (start app ⟨mgr, Operation.none, ring⟩ s config) es)

include hplaced hclean hplain

theorem outgoing_run : Always (step app) (fun t => Intact t ∧ Armed Operation.write t.manager)
    (start app ⟨mgr, Operation.none, ring⟩ s config) es :=
  always_of_along
    (fun t e h he => ⟨step_outgoing app t e h.1 h.2 he.1 he.2.1, step_armed app sided_write t e h.2 he.2.2⟩)
    ⟨start_outgoing app _ s config, start_armed app sided_write mgr ring s config⟩
    (hplaced.and (hclean.and hplain))

/-- **The outgoing bytes.** In a run without temporary errors of `writev` whose steps are placed and clean,
the kernel is never given an array that was left, and nothing is lost, duplicated or reordered. -/
theorem sent_faithful : Always (step app) (fun t => t.manager.dangling = false ∧ Sent t)
    (start app ⟨mgr, Operation.none, ring⟩ s config) es :=
  (outgoing_run app mgr ring s config hplaced hclean hplain).imp fun _ h => ⟨h.1.current, h.1.sent h.2⟩

end Run

/-- Two buffers are enqueued, the second while the first is being written. -/
theorem sent_faithful_behind :
    Always (step Queue.idleLayer) (fun t => t.manager.dangling = false ∧ Sent t)
      (start Queue.idleLayer ⟨⟨0, 3⟩, Operation.none, Ring.empty⟩ () {})
      [.call (.enqueue [1, 2, 3]), .submit 0, .call (.enqueue [4, 5]), .write 0 (.took 3),
        .complete 0 false, .submit 0, .write 0 (.took 1), .complete 0 false] :=
  sent_faithful Queue.idleLayer ⟨0, 3⟩ Ring.empty () {} (by decide +kernel) (by decide +kernel)
    (by decide +kernel)

/-- The array of the first `writev` has moved before the kernel reads it. -/
example : (run (step Queue.idleLayer) (start Queue.idleLayer ⟨⟨0, 3⟩, Operation.none, Ring.empty⟩ () {})
    [.call (.enqueue [1, 2, 3]), .call (.enqueue [4, 5]), .submit 0]).manager.dangling = true := by
  decide +kernel

end NetworkDriver.Net.StreamTransport.Uring.Outgoing
