import NetworkDriver.Library.Outbox
import NetworkDriver.Library.Run
import NetworkDriver.Net.Datagrams.Outgoing
import NetworkDriver.Net.Datagrams.Pointers

/-! # The accounts of the io_uring datagram transport

Every datagram in the queue is sent by a submission of its own, and completions come in any order. A
completion is attributed by the id of its submission, which is compared with `id_` of every datagram,
submitted or not. `Kernel` is what a `uring_multiplexer` and io_uring are for one transport: ids are
numbers of a counter that all managers share, and a submission finds room or not.

* `Rule`: an invariant of the primitive changes under io_uring is one of all functions but a completion
  of a send.
* `Accounted`: the books between two completions.
* `datagrams_accounted`: they are right in every run, whatever the order of completions. -/

namespace NetworkDriver.Net.Datagrams.Accounting

open NetworkDriver.Library.Slots NetworkDriver.Library.Outbox NetworkDriver.Library.Run
open NetworkDriver.Net.Types NetworkDriver.Net.Datagrams.Model NetworkDriver.Net.Datagrams.Callbacks
open NetworkDriver.Net.Datagrams.Outgoing (map_modify)
open NetworkDriver.Net.Datagrams.Pointers (silentLayer)
open NetworkDriver.Net.StreamTransport.Model (TransportConfig)
open DatagramTransport

variable {M σ : Type}

/-! ### The rule -/

/-- An invariant of the primitive changes under io_uring: unlike in `Change`, the manager part changes
with the datagram that is submitted. -/
structure Rule (port : Port M) (I : DatagramTransport M σ → Prop) : Prop where
  nextLayer : ∀ s t, I t → I { t with nextLayer := s }
  configureNextRead : ∀ p t, I t → I (t.configureNextRead p)
  push : ∀ buf ep heap cache t, I t → I (push buf ep { t with heap := heap, bufferCache := cache })
  mask : ∀ mask t, I t → I { t with manager := port.maskSet mask t.manager }
  other : ∀ op t, op ≠ Operation.write → I t → I { t with manager := (port.submit op t.manager).2 }
  sent : ∀ i d t, t.writeQueue.elems[i]? = some d → d.currentlySubmitted = false →
    (port.submit .write t.manager).1.1 = true → I t →
      I ({ t with manager := (port.submit .write t.manager).2 }.markSubmitted i d
        (port.submit .write t.manager).1.2)
  full : ∀ t, (port.submit .write t.manager).1.1 = false → I t →
    I { t with manager := (port.submit .write t.manager).2 }

section Rule

variable {port : Port M} {I : DatagramTransport M σ → Prop} (h : Rule port I)

include h

section Registered

variable {reg : Register M σ} (hreg : ∀ op t, I t → I (reg op t))

include hreg

theorem Rule.call (c : Call) {t : DatagramTransport M σ} (ht : I t) : I (t.call reg c) := by
  cases c with
  | configureNextRead p => exact h.configureNextRead p t ht
  | enqueue bytes ep =>
    obtain ⟨buf, heap, cache, heq, -⟩ := pushCopy_eq bytes ep t
    have hpushed := hreg .write _ (h.push buf ep heap cache t ht)
    rw [← heq] at hpushed
    exact hpushed
  | enqueueBuffer bytes capacity ep =>
    obtain ⟨buf, heap, heq, -⟩ := pushNew_eq bytes capacity ep t
    have hpushed := hreg .write _ (h.push buf ep heap t.bufferCache t ht)
    rw [← heq] at hpushed
    exact hpushed
  | registerReading => exact hreg .read t ht
  | registerWriting => exact hreg .write t ht

theorem Rule.calls (cs : List Call) {t : DatagramTransport M σ} (ht : I t) :
    I (cs.foldl (DatagramTransport.call reg) t) := by
  induction cs generalizing t with
  | nil => exact ht
  | cons c cs ih => exact ih (h.call hreg c ht)

theorem Rule.callback (answer : σ × List Call × ManagerResult) {t : DatagramTransport M σ} (ht : I t) :
    I (DatagramTransport.callback reg answer t).2 :=
  h.calls hreg _ (h.nextLayer _ t ht)

theorem Rule.fetchMoreData (app : NextLayer σ) {t : DatagramTransport M σ} (ht : I t) :
    I (DatagramTransport.fetchMoreData reg app t).2 := by
  have hloop : ∀ (i : ℕ) (t : DatagramTransport M σ), I t → I (fetchLoop reg app i t) := by
    intro i
    induction i with
    | zero => exact fun _ ht => ht
    | succ i ih =>
      intro t ht
      unfold fetchLoop
      split_ifs
      · exact ih _ (h.callback hreg _ ht)
      · exact ht
      · exact ht
  exact hloop t.config.maxConsecutiveFetches t ht

end Registered

theorem Rule.submitLoop (is : List ℕ) {t : DatagramTransport M σ} (ht : I t) :
    I (DatagramTransport.submitLoop port is t).2 := by
  induction is generalizing t with
  | nil => exact ht
  | cons i is ih =>
    unfold DatagramTransport.submitLoop
    cases hd : t.writeQueue.elems[i]? with
    | none => exact ih ht
    | some d =>
      dsimp only
      cases hsubmitted : d.currentlySubmitted with
      | true => exact ih ht
      | false =>
        cases hsuccess : (port.submit .write t.manager).1.1 with
        | true => exact ih (h.sent i d t hd hsubmitted hsuccess ht)
        | false => exact h.full t hsuccess ht

theorem Rule.submitDatagrams {reg : Register M σ} (hreg : ∀ op t, I t → I (reg op t)) (app : NextLayer σ)
    {t : DatagramTransport M σ} (ht : I t) : I (DatagramTransport.submitDatagrams port reg app t).2 := by
  have hfetched := h.fetchMoreData hreg app ht
  unfold DatagramTransport.submitDatagrams
  dsimp only
  split_ifs
  · exact hfetched
  · exact h.submitLoop _ hfetched

theorem Rule.registerBy
    {virt : Operation → DatagramTransport M σ → ManagerResult × DatagramTransport M σ}
    (hvirt : ∀ op t, I t → I (virt op t).2) (op : Operation) (t : DatagramTransport M σ) (ht : I t) :
    I (DatagramTransport.registerBy port virt op t) := by
  unfold DatagramTransport.registerBy Multiplexer.Uring.Model.enableWith
  by_cases hmask : port.mask t.manager &&& op = Operation.none
  · rw [if_pos hmask]
    cases Multiplexer.Base.maskAdd (port.mask t.manager) op with
    | none => exact ht
    | some new =>
      have hrun := hvirt op _ (h.mask new t ht)
      dsimp only [bind, pure]
      split_ifs
      · exact hrun
      · cases Multiplexer.Base.maskDel (port.mask
            (virt op { t with manager := port.maskSet new t.manager }).2.manager) op with
        | none => exact hrun
        | some old => exact h.mask old _ hrun
  · rw [if_neg hmask]
    exact ht

theorem Rule.innerRegister (op : Operation) (t : DatagramTransport M σ) (ht : I t) :
    I (DatagramTransport.innerRegister port op t) := by
  unfold DatagramTransport.innerRegister
  split_ifs
  · exact h.registerBy (fun _ t ht => h.other .read t (by decide) ht) .read t ht
  · exact ht

/-- **The registrations of the transport.** -/
theorem Rule.register (app : NextLayer σ) (op : Operation) (t : DatagramTransport M σ) (ht : I t) :
    I (uringRegister port app op t) := by
  refine h.registerBy (fun op t ht => ?_) op t ht
  unfold uringEnable
  split_ifs
  · exact h.other .read t (by decide) ht
  · exact h.submitDatagrams h.innerRegister app ht
  · exact ht

theorem Rule.init (app : NextLayer σ) (config : TransportConfig) {t : DatagramTransport M σ}
    (ht : I { t with config := config }) :
    I (DatagramTransport.init (uringRegister port app) app config t).2 :=
  h.calls (h.register app) _ (h.nextLayer _ _ ht)

end Rule

/-! ### The kernel -/

/-- What a `uring_multiplexer` and its ring are for one transport: the mask of its manager, whether the
next submissions find room, `current_submission_id_`, and the sends whose completion is to come. The
submissions that the multiplexer has made for itself have taken the number zero. -/
structure Kernel where
  mask : Operation := Operation.none
  room : List Bool := []
  next : ℕ := 1
  pending : List UInt64 := []
  deriving DecidableEq

/-- A submission: `{true, current_submission_id_++}`, or `{false, 0}` if there is no room. -/
def Kernel.submit (op : Operation) (k : Kernel) : (Bool × UInt64) × Kernel :=
  if k.room.headD true then
    ((true, UInt64.ofNat k.next), { k with
      room := k.room.tail
      next := k.next + 1
      pending := if op = Operation.write then k.pending ++ [UInt64.ofNat k.next] else k.pending })
  else ((false, 0), { k with room := k.room.tail })

/-- What the transport sees of it. -/
def port : Port Kernel where
  mask := Kernel.mask
  maskSet mask k := { k with mask := mask }
  submit := Kernel.submit

/-! ### The books -/

/-- The ticket of a datagram that is in flight. -/
def inFlight (d : Datagram) : Option UInt64 := if d.currentlySubmitted then some d.id else none

/-- **The books**, with the datagrams whose send is finished: the tickets that are out are the sends
that the kernel has, each with a number of its own, which no datagram that waits has; and every datagram
enqueued is finished or in the queue. -/
structure Accounted (finished : List (List UInt8 × Endpoint)) (t : DatagramTransport Kernel σ) : Prop where
  positive : 0 < t.manager.next
  tickets : (tickets inFlight t.writeQueue.elems).Perm t.manager.pending
  distinct : t.manager.pending.Nodup
  issued : ∀ id ∈ t.manager.pending, ∃ n, 0 < n ∧ n < t.manager.next ∧ id = UInt64.ofNat n
  waiting : ∀ d ∈ t.writeQueue.elems, d.currentlySubmitted = false →
    d.id ∉ t.manager.pending ∧ ∃ n < t.manager.next, d.id = UInt64.ofNat n
  conserved : t.trace.enqueued.Perm (finished ++ t.writeQueue.elems.map Datagram.message)

/-- The books are right as long as the counter has not come round. -/
def Balanced (finished : List (List UInt8 × Endpoint)) (t : DatagramTransport Kernel σ) : Prop :=
  t.manager.next ≤ 2 ^ 64 → Accounted finished t

theorem ofNat_ne {n m : ℕ} (hn : n < 2 ^ 64) (hm : m < 2 ^ 64) (h : n ≠ m) :
    UInt64.ofNat n ≠ UInt64.ofNat m := by
  intro heq
  have hnat := congrArg UInt64.toNat heq
  rw [UInt64.toNat_ofNat_of_lt' hn, UInt64.toNat_ofNat_of_lt' hm] at hnat
  exact h hnat

variable {finished : List (List UInt8 × Endpoint)}

/-- A submission that is no send takes a number, or finds no room. -/
theorem submit_other {op : Operation} (hop : op ≠ Operation.write) (k : Kernel) :
    ∃ room next, (port.submit op k).2 = { k with room := room, next := next } ∧ k.next ≤ next := by
  change ∃ room next, (Kernel.submit op k).2 = _ ∧ _
  unfold Kernel.submit
  split_ifs
  · exact ⟨k.room.tail, k.next + 1, rfl, by omega⟩
  · exact ⟨k.room.tail, k.next, rfl, le_rfl⟩

/-- The counter may go on, and the mask and the room are not in the books. -/
theorem Accounted.manager {t : DatagramTransport Kernel σ} (h : Accounted finished t) {k : Kernel}
    (hnext : t.manager.next ≤ k.next) (hpending : k.pending = t.manager.pending) :
    Accounted finished { t with manager := k } where
  positive := lt_of_lt_of_le h.positive hnext
  tickets := hpending ▸ h.tickets
  distinct := hpending ▸ h.distinct
  issued id hid := by
    obtain ⟨n, hpos, hlt, rfl⟩ := h.issued id (hpending ▸ hid)
    exact ⟨n, hpos, lt_of_lt_of_le hlt hnext, rfl⟩
  waiting d hd hnot := by
    obtain ⟨hout, n, hlt, hid⟩ := h.waiting d hd hnot
    exact ⟨hpending ▸ hout, n, lt_of_lt_of_le hlt hnext, hid⟩
  conserved := h.conserved

/-- **A new datagram** waits, with the number zero. -/
theorem Accounted.push {t : DatagramTransport Kernel σ} (h : Accounted finished t)
    (hnext : t.manager.next ≤ 2 ^ 64) (buf : Buffer) (ep : Endpoint) (heap : ℕ) (cache : List Buffer) :
    Accounted finished (DatagramTransport.push buf ep { t with heap := heap, bufferCache := cache }) where
  positive := h.positive
  tickets := by
    change (Library.Outbox.tickets inFlight (t.writeQueue.elems ++ [makeDatagram buf ep _])).Perm _
    rw [tickets_append, tickets_cons_none rfl]
    exact (List.append_nil _).symm ▸ h.tickets
  distinct := h.distinct
  issued := h.issued
  waiting d hd hnot := by
    rcases List.mem_append.mp hd with hd | hd
    · exact h.waiting d hd hnot
    · obtain rfl := List.mem_singleton.mp hd
      refine ⟨fun hmem => ?_, 0, h.positive, rfl⟩
      obtain ⟨n, hpos, hlt, hid⟩ := h.issued _ hmem
      exact ofNat_ne (by omega) (by omega) hpos.ne hid
  conserved := by
    change (t.trace.enqueued ++ [(buf.bytes, ep)]).Perm
      (finished ++ (t.writeQueue.elems ++ [makeDatagram buf ep _]).map Datagram.message)
    rw [List.map_append, ← List.append_assoc]
    exact h.conserved.append_right _

/-- **A datagram is submitted** under a number that no one has. -/
theorem Accounted.sent {t : DatagramTransport Kernel σ} (h : Accounted finished t) {k : Kernel} {i : ℕ}
    {d : Datagram} (hd : t.writeQueue.elems[i]? = some d) (hnot : d.currentlySubmitted = false)
    (hnext : t.manager.next < 2 ^ 64) (hk : k.next = t.manager.next + 1)
    (hpending : k.pending = t.manager.pending ++ [UInt64.ofNat t.manager.next]) :
    Accounted finished
      ({ t with manager := k }.markSubmitted i d (UInt64.ofNat t.manager.next)) where
  positive := hk ▸ Nat.succ_pos _
  tickets := by
    have hlaunch : (Library.Outbox.tickets inFlight (t.writeQueue.elems.modify i fun d =>
        { d with id := UInt64.ofNat t.manager.next, currentlySubmitted := true })).Perm
        (UInt64.ofNat t.manager.next :: Library.Outbox.tickets inFlight t.writeQueue.elems) :=
      launch_perm hd (by simp [inFlight, hnot]) rfl
    change (Library.Outbox.tickets inFlight (t.writeQueue.elems.modify i _)).Perm k.pending
    rw [hpending]
    exact (hlaunch.trans (h.tickets.cons _)).trans (List.perm_append_singleton _ _).symm
  distinct := by
    change k.pending.Nodup
    rw [hpending]
    refine List.nodup_append.mpr ⟨h.distinct, List.nodup_singleton _, fun id hid id' hid' heq => ?_⟩
    obtain rfl := List.mem_singleton.mp hid'
    obtain ⟨n, -, hlt, rfl⟩ := h.issued id hid
    exact ofNat_ne (by omega) hnext hlt.ne heq
  issued id hid := by
    change id ∈ k.pending at hid
    change ∃ n, 0 < n ∧ n < k.next ∧ _
    rw [hpending] at hid
    rw [hk]
    rcases List.mem_append.mp hid with hid | hid
    · obtain ⟨n, hpos, hlt, rfl⟩ := h.issued id hid
      exact ⟨n, hpos, by omega, rfl⟩
    · exact ⟨t.manager.next, h.positive, by omega, List.mem_singleton.mp hid⟩
  waiting d' hd' hnot' := by
    change d' ∈ t.writeQueue.elems.modify i _ at hd'
    change d'.id ∉ k.pending ∧ ∃ n < k.next, _
    rw [modify_at hd] at hd'
    have hmem : d' ∈ t.writeQueue.elems := by
      rcases List.mem_append.mp hd' with hd' | hd'
      · exact List.mem_of_mem_take hd'
      · rcases List.mem_cons.mp hd' with rfl | hd'
        · cases hnot'
        · exact List.mem_of_mem_drop hd'
    obtain ⟨hout, n, hlt, hid⟩ := h.waiting d' hmem hnot'
    rw [hpending, hk]
    refine ⟨fun hin => ?_, n, by omega, hid⟩
    rcases List.mem_append.mp hin with hin | hin
    · exact hout hin
    · rw [List.mem_singleton, hid] at hin
      exact ofNat_ne (by omega) hnext hlt.ne hin
  conserved := by
    change t.trace.enqueued.Perm (finished ++ (t.writeQueue.elems.modify i _).map Datagram.message)
    rw [map_modify Datagram.message _ (fun _ => by rfl)]
    exact h.conserved

/-- **All functions but the completion of a send keep the books.** -/
theorem balanced_rule : Rule (σ := σ) port (Balanced finished) where
  nextLayer s t h hnext :=
    ⟨(h hnext).positive, (h hnext).tickets, (h hnext).distinct, (h hnext).issued, (h hnext).waiting,
      (h hnext).conserved⟩
  configureNextRead p t h hnext :=
    ⟨(h hnext).positive, (h hnext).tickets, (h hnext).distinct, (h hnext).issued, (h hnext).waiting,
      (h hnext).conserved⟩
  push buf ep heap cache t h hnext := (h hnext).push hnext buf ep heap cache
  mask mask t h hnext := (h hnext).manager le_rfl rfl
  other op t hop h hnext := by
    obtain ⟨room, next, heq, hle⟩ := submit_other hop t.manager
    change (port.submit op t.manager).2.next ≤ _ at hnext
    rw [heq] at hnext ⊢
    exact (h (hle.trans hnext)).manager hle rfl
  sent i d t hd hnot hsuccess h hnext := by
    have hroom : t.manager.room.headD true = true := by
      change (Kernel.submit .write t.manager).1.1 = true at hsuccess
      unfold Kernel.submit at hsuccess
      by_contra hno
      rw [if_neg hno] at hsuccess
      cases hsuccess
    have hsubmit : port.submit .write t.manager = ((true, UInt64.ofNat t.manager.next), { t.manager with
        room := t.manager.room.tail
        next := t.manager.next + 1
        pending := t.manager.pending ++ [UInt64.ofNat t.manager.next] }) := by
      change Kernel.submit .write t.manager = _
      unfold Kernel.submit
      rw [if_pos hroom, if_pos rfl]
    rw [hsubmit] at hnext ⊢
    change t.manager.next + 1 ≤ 2 ^ 64 at hnext
    exact (h (by omega)).sent hd hnot (by omega) rfl rfl
  full t hsuccess h hnext := by
    have hsubmit : (port.submit .write t.manager).2 = { t.manager with room := t.manager.room.tail } := by
      change (Kernel.submit .write t.manager).1.1 = false at hsuccess
      change (Kernel.submit .write t.manager).2 = _
      unfold Kernel.submit at hsuccess ⊢
      split_ifs at hsuccess ⊢
      · rfl
    rw [hsubmit] at hnext ⊢
    exact (h hnext).manager le_rfl rfl

/-! ### The completion of a send -/

/-- The kernel has completed a send. -/
def completedBy (id : UInt64) (t : DatagramTransport Kernel σ) : DatagramTransport Kernel σ :=
  { t with manager.pending := t.manager.pending.erase id }

theorem id_of_inFlight {d : Datagram} {id : UInt64} (h : inFlight d = some id) : d.id = id := by
  unfold inFlight at h
  split_ifs at h
  exact Option.some.inj h

/-- **The datagram that is found** is the one that was submitted under the number. -/
theorem Accounted.found {t : DatagramTransport Kernel σ} (h : Accounted finished t) {id : UInt64}
    (hid : id ∈ t.manager.pending) :
    ∃ it d, t.writeQueue.elems.findIdx? (fun d => d.id = id) = some it ∧
      t.writeQueue.elems[it]? = some d ∧ inFlight d = some id := by
  have howner : ∀ d ∈ t.writeQueue.elems, d.id = id → inFlight d = some id := by
    intro d hd heq
    cases hsub : d.currentlySubmitted with
    | true => simp [inFlight, hsub, heq]
    | false => exact absurd (heq ▸ hid) (h.waiting d hd hsub).1
  obtain ⟨d, hd, hticket⟩ := entry_of_ticket (h.tickets.symm.subset hid)
  have hdid := id_of_inFlight hticket
  cases hfind : t.writeQueue.elems.findIdx? (fun d => d.id = id) with
  | none =>
    have hnone := List.findIdx?_eq_none_iff.mp hfind d hd
    exact absurd hdid (of_decide_eq_false hnone)
  | some it =>
    obtain ⟨hit, hfound, -⟩ := List.findIdx?_eq_some_iff_getElem.mp hfind
    exact ⟨it, t.writeQueue.elems[it], rfl, List.getElem?_eq_getElem hit,
      howner _ (List.getElem_mem hit) (of_decide_eq_true hfound)⟩

/-- The datagram that `handle_completion` takes for the completion of a number: the only one in flight
under it. -/
def Attributed (t : DatagramTransport Kernel σ) (id : UInt64) : Prop :=
  ∃ it d, t.writeQueue.elems.findIdx? (fun d => d.id = id) = some it ∧
    t.writeQueue.elems[it]? = some d ∧ inFlight d = some id ∧
    ∀ j d', t.writeQueue.elems[j]? = some d' → inFlight d' = some id → j = it

theorem Accounted.attributed {t : DatagramTransport Kernel σ} (h : Accounted finished t) {id : UInt64}
    (hid : id ∈ t.manager.pending) : Attributed t id := by
  obtain ⟨it, d, hfind, hit, hd⟩ := h.found hid
  have hnodup := h.tickets.nodup_iff.mpr h.distinct
  exact ⟨it, d, hfind, hit, hd, fun j d' hj hd' => entry_unique hnodup hj hd' hit hd⟩

section Completed

variable {t : DatagramTransport Kernel σ} {id : UInt64} {it : ℕ} {d : Datagram}

/-- **After a temporary error** the datagram waits, under a number that is out of use. -/
theorem Accounted.retried (h : Accounted finished t) (hid : id ∈ t.manager.pending)
    (hit : t.writeQueue.elems[it]? = some d) (hd : inFlight d = some id) :
    Accounted finished { completedBy id t with
      writeQueue := t.writeQueue.modify it fun d => { d with currentlySubmitted := false } } where
  positive := h.positive
  tickets := by
    have hrecall := recall_perm (f := fun d : Datagram => { d with currentlySubmitted := false }) hit hd rfl
    change (Library.Outbox.tickets inFlight (t.writeQueue.elems.modify it _)).Perm (t.manager.pending.erase id)
    exact List.cons_perm_iff_perm_erase.mp (hrecall.symm.trans h.tickets) |>.2
  distinct := h.distinct.erase id
  issued id' hid' := h.issued id' (List.mem_of_mem_erase hid')
  waiting d' hd' hnot' := by
    change d' ∈ t.writeQueue.elems.modify it _ at hd'
    change d'.id ∉ t.manager.pending.erase id ∧ _
    rw [modify_at hit] at hd'
    have hcases : d' ∈ t.writeQueue.elems ∨ d' = { d with currentlySubmitted := false } := by
      rcases List.mem_append.mp hd' with hd' | hd'
      · exact .inl (List.mem_of_mem_take hd')
      · rcases List.mem_cons.mp hd' with rfl | hd'
        · exact .inr rfl
        · exact .inl (List.mem_of_mem_drop hd')
    rcases hcases with hmem | rfl
    · obtain ⟨hout, hn⟩ := h.waiting d' hmem hnot'
      exact ⟨fun hin => hout (List.mem_of_mem_erase hin), hn⟩
    · obtain ⟨n, -, hlt, hn⟩ := h.issued id hid
      have hdid := id_of_inFlight hd
      exact ⟨hdid ▸ h.distinct.not_mem_erase, n, hlt, hdid.trans hn⟩
  conserved := by
    change t.trace.enqueued.Perm (finished ++ (t.writeQueue.elems.modify it _).map Datagram.message)
    rw [map_modify Datagram.message _ (fun _ => by rfl)]
    exact h.conserved

theorem written_eq (it : ℕ) (d : Datagram) (t : DatagramTransport Kernel σ) :
    ∃ n cache, t.written it d =
      { t with numEnqueuedBytes := n, bufferCache := cache, writeQueue := t.writeQueue.erase it } := by
  unfold written returnBuffer
  dsimp only
  split_ifs
  · exact ⟨_, _, rfl⟩
  · exact ⟨_, t.bufferCache, rfl⟩

/-- **After a send** the datagram is finished. -/
theorem Accounted.written (h : Accounted finished t) (hit : t.writeQueue.elems[it]? = some d)
    (hd : inFlight d = some id) :
    Accounted (finished ++ [d.message]) ((completedBy id t).written it d) := by
  obtain ⟨n, cache, heq⟩ := written_eq it d (completedBy id t)
  rw [heq]
  refine ⟨h.positive, ?_, h.distinct.erase id, fun id' hid' => h.issued id' (List.mem_of_mem_erase hid'),
    fun d' hd' hnot' => ?_, ?_⟩
  · exact List.cons_perm_iff_perm_erase.mp ((settle_perm hit hd).symm.trans h.tickets) |>.2
  · have hmem : d' ∈ t.writeQueue.elems := List.mem_of_mem_eraseIdx hd'
    obtain ⟨hout, hn⟩ := h.waiting d' hmem hnot'
    exact ⟨fun hin => hout (List.mem_of_mem_erase hin), hn⟩
  · change t.trace.enqueued.Perm
      ((finished ++ [d.message]) ++ (t.writeQueue.elems.eraseIdx it).map Datagram.message)
    rw [List.append_assoc]
    exact h.conserved.trans ((map_perm_eraseIdx Datagram.message hit).append_left finished)

end Completed

/-! ### Runs -/

/-- What happens to a transport: the completions, timeouts, calls from outside, and what its multiplexer
does meanwhile: it sets the mask and submits for other managers. -/
inductive Event where
  | sent (id : UInt64) (res : ℤ) (temporary : Bool)
  | pollWrite
  | read (outcome : ReadOutcome)
  | pollRead
  | timeout (id : UInt64)
  | call (c : Call)
  | multiplexer (mask : Operation) (others : ℕ) (room : List Bool)

/-- A transport with the datagrams whose send is finished, until a handler answers `error`. -/
structure Sender (σ : Type) where
  transport : DatagramTransport Kernel σ
  failed : Bool := false
  finished : List (List UInt8 × Endpoint) := []

/-- After a handler. -/
def Sender.answered (s : Sender σ) (o : ManagerResult × DatagramTransport Kernel σ) : Sender σ :=
  { s with transport := o.2, failed := o.1 = .error }

/-- The datagram that a result finishes. -/
def finishes (id : UInt64) (res : ℤ) (t : DatagramTransport Kernel σ) : List (List UInt8 × Endpoint) :=
  match t.writeQueue.elems.find? fun d => d.id = id with
  | some d => if (d.buf.bytes.length : ℤ) ≤ res then [d.message] else []
  | none => []

/-- One event; only sends that are pending are completed. -/
def Sender.step (app : NextLayer σ) (s : Sender σ) (e : Event) : Sender σ :=
  if s.failed then s
  else match e with
    | .sent id res temporary =>
      if id ∈ s.transport.manager.pending then
        { s.answered ((completedBy id s.transport).complete port app (.write res temporary id)) with
          finished := s.finished ++ finishes id res s.transport }
      else s
    | .pollWrite => s.answered (s.transport.complete port app .pollWrite)
    | .read outcome => s.answered (s.transport.complete port app (.read outcome))
    | .pollRead => s.answered (s.transport.complete port app .pollRead)
    | .timeout id => s.answered (s.transport.complete port app (.timeout id))
    | .call c => s.answered (s.transport.complete port app (.call c))
    | .multiplexer mask others room =>
      s.answered (s.transport.complete port app (.multiplexer
        { s.transport.manager with mask := mask, next := s.transport.manager.next + others, room := room }))

/-- The transport after `init`, when so many other submissions have been made. -/
def Sender.start (app : NextLayer σ) (s : σ) (beyond : ℕ → UInt8) (config : TransportConfig) (others : ℕ)
    (room : List Bool) : Sender σ :=
  ⟨uringStart port app { room := room, next := others + 1 } s beyond config, false, []⟩

/-- **The books of a sender**: nothing is lost and nothing is finished twice, and until it fails every
completion to come belongs to one datagram. -/
structure Books (s : Sender σ) : Prop where
  conserved : s.transport.trace.enqueued.Perm
    (s.finished ++ s.transport.writeQueue.elems.map Datagram.message)
  accounted : s.failed = false → Accounted s.finished s.transport
  attributed : s.failed = false → ∀ id ∈ s.transport.manager.pending, Attributed s.transport id

theorem Accounted.books {s : Sender σ} (h : Accounted s.finished s.transport) : Books s :=
  ⟨h.conserved, fun _ => h, fun _ _ hid => h.attributed hid⟩

/-- The counter of the submissions has not come round. -/
def InRange (s : Sender σ) : Prop := s.transport.manager.next ≤ 2 ^ 64

instance (s : Sender σ) : Decidable (InRange s) := by unfold InRange; infer_instance

/-- A handler that keeps the books right. -/
theorem Balanced.answered {s : Sender σ} {o : ManagerResult × DatagramTransport Kernel σ}
    (h : Balanced s.finished o.2) (hnext : InRange (s.answered o)) : Books (s.answered o) :=
  (h hnext).books

variable (app : NextLayer σ)

theorem readResult_balanced (ep : Endpoint) (res : ℤ) (temporary : Bool) {t : DatagramTransport Kernel σ}
    (h : Balanced finished t) :
    Balanced finished (handleReadResult (uringRegister port app) app ep res temporary t).2 := by
  refine handleReadResult_keeps (fun t span ep ht => ?_) (fun t received consumed answers ht => ?_) ep res
    temporary h
  · exact balanced_rule.callback (balanced_rule.register app) _ ht
  · exact fun hnext => ⟨(ht hnext).positive, (ht hnext).tickets, (ht hnext).distinct, (ht hnext).issued,
      (ht hnext).waiting, (ht hnext).conserved⟩

/-- **The completion of a read.** -/
theorem read_balanced (outcome : ReadOutcome) {t : DatagramTransport Kernel σ} (h : Balanced finished t) :
    Balanced finished (t.complete port app (.read outcome)).2 := by
  have hrecv : Balanced finished (t.recvmsg outcome).2 := by
    cases outcome with
    | datagram source payload =>
      exact fun hnext => ⟨(h hnext).positive, (h hnext).tickets, (h hnext).distinct, (h hnext).issued,
        (h hnext).waiting, (h hnext).conserved⟩
    | failed temporary => exact h
  unfold complete handleCompletion
  dsimp only
  rw [if_pos rfl]
  have hresult := readResult_balanced app (t.recvmsg outcome).2.readAddr (t.recvmsg outcome).1
    outcome.temporary hrecv
  generalize handleReadResult (uringRegister port app) app _ _ _ _ = o at hresult ⊢
  obtain ⟨v, t'⟩ := o
  cases v with
  | ok => exact balanced_rule.other .read t' (by decide) hresult
  | temporaryError => exact balanced_rule.other .pollRead t' (by decide) hresult
  | done | error => exact hresult

/-- What `handle_write_result` answers for a datagram, with what the answer leads to. -/
theorem write_completion {t : DatagramTransport Kernel σ} {id : UInt64} {it : ℕ} {d : Datagram}
    (hfind : t.writeQueue.elems.findIdx? (fun d => d.id = id) = some it)
    (hit : t.writeQueue.elems[it]? = some d) (res : ℤ) (temporary : Bool) :
    t.complete port app (.write res temporary id) =
      if res < 0 then
        if temporary then
          (.temporaryError, (submitOther port .pollWrite { t with
            writeQueue := t.writeQueue.modify it fun d => { d with currentlySubmitted := false } }).2)
        else (.error, t)
      else if res.toNat < d.buf.bytes.length then (.error, t)
      else submitDatagrams port (uringRegister port app) app (t.written it d) := by
  change t.handleCompletion port app .write res temporary id = _
  unfold handleCompletion
  rw [if_neg (by decide), if_neg (by decide), if_pos rfl, hfind]
  dsimp only
  rw [hit]
  unfold handleWriteResult
  dsimp only
  split_ifs <;> rfl

/-- **The completion of a send**, with any result. -/
theorem sent_books {s : Sender σ} (h : Accounted s.finished s.transport) {id : UInt64}
    (hid : id ∈ s.transport.manager.pending) (res : ℤ) (temporary : Bool)
    (hnext : InRange (s.answered ((completedBy id s.transport).complete port app
      (.write res temporary id)))) :
    Books { s.answered ((completedBy id s.transport).complete port app (.write res temporary id)) with
      finished := s.finished ++ finishes id res s.transport } := by
  obtain ⟨it, d, hfind, hit, hd⟩ := h.found hid
  have hfinishes : finishes id res s.transport =
      if (d.buf.bytes.length : ℤ) ≤ res then [d.message] else [] := by
    have hfound : s.transport.writeQueue.elems.find? (fun d => d.id = id) = some d := by
      rw [List.find?_eq_bind_findIdx?_getElem?, hfind]
      exact hit
    unfold finishes
    rw [hfound]
  have hcompletion := write_completion app (t := completedBy id s.transport) hfind hit res temporary
  have hfailed : Books { s.answered (.error, completedBy id s.transport) with finished := s.finished ++ [] } :=
    ⟨(List.append_nil s.finished).symm ▸ h.conserved, fun hno => (by cases hno), fun hno => by cases hno⟩
  rw [hcompletion] at hnext ⊢
  rw [hfinishes]
  by_cases hneg : res < 0
  · have hno : ¬(d.buf.bytes.length : ℤ) ≤ res := by omega
    rw [if_neg hno]
    cases temporary with
    | false =>
      rw [if_pos hneg, if_neg Bool.false_ne_true]
      exact hfailed
    | true =>
      rw [if_pos hneg, if_pos rfl] at hnext ⊢
      rw [List.append_nil]
      exact Balanced.answered
        (balanced_rule.other .pollWrite _ (by decide) fun _ => h.retried hid hit hd) hnext
  · by_cases hshort : res.toNat < d.buf.bytes.length
    · have hno : ¬(d.buf.bytes.length : ℤ) ≤ res := by omega
      rw [if_neg hno, if_neg hneg, if_pos hshort]
      exact hfailed
    · have hyes : (d.buf.bytes.length : ℤ) ≤ res := by omega
      rw [if_pos hyes]
      rw [if_neg hneg, if_neg hshort] at hnext ⊢
      have hwritten : Balanced (s.finished ++ [d.message]) ((completedBy id s.transport).written it d) :=
        fun _ => h.written hit hd
      have hsubmitted := balanced_rule.submitDatagrams (balanced_rule.register app) app hwritten
      exact Balanced.answered (s := { s with finished := s.finished ++ [d.message] }) hsubmitted hnext

/-- **One event.** -/
theorem step_books {s : Sender σ} (h : Books s) (e : Event) (hnext : InRange (s.step app e)) :
    Books (s.step app e) := by
  unfold Sender.step at hnext ⊢
  cases hfailed : s.failed with
  | true =>
    rw [if_pos rfl]
    exact h
  | false =>
    rw [hfailed, if_neg Bool.false_ne_true] at hnext
    rw [if_neg Bool.false_ne_true]
    have hacc := h.accounted hfailed
    have hbalanced : Balanced s.finished s.transport := fun _ => hacc
    cases e with
    | sent id res temporary =>
      dsimp only at hnext ⊢
      by_cases hid : id ∈ s.transport.manager.pending
      · rw [if_pos hid] at hnext ⊢
        exact sent_books app hacc hid res temporary hnext
      · rw [if_neg hid]
        exact h
    | pollWrite =>
      have hsubmitted := balanced_rule.submitDatagrams (balanced_rule.register app) app hbalanced
      exact Balanced.answered hsubmitted hnext
    | read outcome => exact Balanced.answered (read_balanced app outcome hbalanced) hnext
    | pollRead => exact Balanced.answered (balanced_rule.other .read _ (by decide) hbalanced) hnext
    | timeout id => exact Balanced.answered (balanced_rule.callback (balanced_rule.register app) _ hbalanced) hnext
    | call c => exact Balanced.answered (balanced_rule.call (balanced_rule.register app) c hbalanced) hnext
    | multiplexer mask others room =>
      have hmanager : Balanced s.finished { s.transport with manager := { s.transport.manager with
          mask := mask, next := s.transport.manager.next + others, room := room } } :=
        fun _ => hacc.manager (Nat.le_add_right _ _) rfl
      exact Balanced.answered hmanager hnext

/-- **The accounts of the io_uring datagram transport.** As long as the counter of the submissions has
not come round, in every state of every run, with completions in any order and with any results: every
datagram enqueued is either finished or in the queue, and as often as it was enqueued; and until a
handler fails, the sends that the kernel has are the datagrams in flight, one each, so that every
completion is attributed to the datagram that it is about. -/
theorem datagrams_accounted (s : σ) (beyond : ℕ → UInt8) (config : TransportConfig) (others : ℕ)
    (room : List Bool) (es : List Event)
    (hnext : Always (Sender.step app) InRange (Sender.start app s beyond config others room) es) :
    Always (Sender.step app) Books (Sender.start app s beyond config others room) es := by
  have hfresh : Balanced (σ := σ) [] (fresh { room := room, next := others + 1 } s beyond) :=
    fun _ => ⟨Nat.succ_pos _, List.Perm.refl _, List.nodup_nil, fun id hid => absurd hid List.not_mem_nil,
      fun d hd => absurd hd List.not_mem_nil, List.Perm.refl _⟩
  have hstart : Balanced [] (Sender.start app s beyond config others room).transport :=
    balanced_rule.init app config (t := fresh { room := room, next := others + 1 } s beyond)
      fun h => ⟨(hfresh h).positive, (hfresh h).tickets, (hfresh h).distinct, (hfresh h).issued,
        (hfresh h).waiting, (hfresh h).conserved⟩
  exact always_of_along (fun s e h hnext => step_books app h e hnext) (hstart hnext.head).books
    hnext.along_next

/-- Three datagrams are in flight at once when the last is finished first; another has a temporary error
and is submitted again, under a new number, with a datagram that was enqueued in between. -/
def overtaking : List Event :=
  [.call (.enqueue [1] ⟨1, 1⟩), .call (.enqueue [2, 2] ⟨2, 2⟩), .call (.enqueue [3] ⟨3, 3⟩),
    .call (.enqueue [4] ⟨4, 4⟩), .sent 8 1 false, .sent 11 1 false, .multiplexer Operation.write 2 [],
    .sent 9 (-11) true, .call (.enqueue [5] ⟨5, 5⟩), .pollWrite, .sent 16 1 false, .sent 10 1 false,
    .sent 15 2 false]

theorem datagrams_accounted_overtaking :
    Always (Sender.step silentLayer) Books (Sender.start silentLayer () (fun _ => 0) {} 7 []) overtaking :=
  datagrams_accounted silentLayer () (fun _ => 0) {} 7 [] overtaking (by decide +kernel)

end NetworkDriver.Net.Datagrams.Accounting
