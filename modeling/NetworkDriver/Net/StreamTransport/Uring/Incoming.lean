import NetworkDriver.Net.StreamTransport.Incoming
import NetworkDriver.Net.StreamTransport.Uring.Callbacks
import NetworkDriver.Net.StreamTransport.Uring.Single

/-! # The incoming bytes under io_uring

A read tells the kernel a span of the read buffer when it is submitted; the kernel fills the span some
time later, and the completion counts the bytes later still. In between, nothing may configure the next
read, and nothing does if the application configures from `consume`, which runs with no read outstanding.

* `Waiting`: the transport is `Buffered`, and the span of the read that is outstanding, or what the kernel
  has put into it, is right behind the bytes that wait.
* `Stopped`: after an error from `consume` there is no read any more.
* `received_faithful`: any run. -/

namespace NetworkDriver.Net.StreamTransport.Uring.Incoming

open NetworkDriver.Library.Outbox (modify_at erase_at)
open NetworkDriver.Library.Run
open NetworkDriver.Net.Types NetworkDriver.Net.Multiplexer.Base
open NetworkDriver.Net.Multiplexer.Uring.Model NetworkDriver.Net.Multiplexer.Uring.Submissions
open NetworkDriver.Net.StreamTransport.Model hiding Event
open NetworkDriver.Net.StreamTransport.Callbacks
open NetworkDriver.Net.StreamTransport.Incoming (Configures consumedBytes pending Delivering Buffered Refused Abandoned
  Settled settled_read buffered_change delivering_change refused_change delivering_fresh chunkOf fill
  length_chunkOf_le length_fill pairLayer)
open NetworkDriver.Net.StreamTransport.Queue (handleWriteResult_frame)
open NetworkDriver.Net.StreamTransport.Uring.Model NetworkDriver.Net.StreamTransport.Uring.Callbacks
open NetworkDriver.Net.StreamTransport.Uring.Single
open StreamTransportBase

variable {σ : Type}

/-! ### Registrations -/

/-- Whatever a registration does consists of primitive changes. -/
theorem changes_rule {P : ReceivePolicy → Prop} (t₀ : Stream σ) : Rule P (Changes P t₀) where
  change _ _ hc _ h := h.tail hc
  port _ t h := h.tail (Change.manager _ t)
  grow t h := by
    unfold grow
    split_ifs
    · exact h
    · exact h.tail (Change.manager _ t)
  submit t entry _ h := h.tail (Change.manager _ t)

/-- The registrations of a stream. -/
def registration {P : ReceivePolicy → Prop} {app : NextLayer σ} (happ : NextLayer.Produces P app) :
    Registration P Line σ where
  register := register app
  changes op t := (changes_rule t).register happ op t Relation.ReflTransGen.refl

/-! ### The invariant -/

/-- What the kernel has moved is right behind the bytes that wait. -/
structure Filled (t : Stream σ) (res : ℤ) (bytes : List UInt8) : Prop where
  res : res = bytes.length
  room : bytes.length ≤ min t.readBufferSize maxRwCount
  buffer : t.readBuffer = t.readBuffer.take t.received ++ bytes ++ t.readBuffer.drop (t.received + bytes.length)

/-- What an outstanding submission is to the read buffer. -/
def Fits (t : Stream σ) : Entry → Prop
  | .read offset size => offset = t.received ∧ size = t.readBufferSize
  | .finished op res bytes => op = Operation.read → Filled t res bytes ∨ res < 0 ∧ bytes = []
  | .poll op => op ≠ Operation.read
  | _ => True

/-- **While reads go on.** -/
structure Waiting (t : Stream σ) : Prop where
  buffered : Buffered t
  fits : ∀ e ∈ t.manager.entries, Fits t e

/-- **After an error from `consume`**: there is no read, and none will be registered. -/
structure Stopped (t : Stream σ) : Prop where
  abandoned : Abandoned t
  none : outstanding Operation.read t.manager = 0
  flag : t.manager.port.mask.contains Operation.read = true

/-- The invariant. -/
def Inbound (t : Stream σ) : Prop := Waiting t ∨ Stopped t

/-- What does not serve reading fits. -/
theorem fits_of_other {e : Entry} (h : serves e ≠ Operation.read) (t : Stream σ) : Fits t e := by
  cases e with
  | read offset size => exact absurd rfl h
  | finished op res bytes =>
    rintro rfl
    exact absurd rfl h
  | poll op =>
    rintro rfl
    exact absurd rfl h
  | _ => trivial

/-- With no read outstanding, everything fits. -/
theorem waiting_idle {t : Stream σ} (hbuffered : Buffered t)
    (hnone : outstanding Operation.read t.manager = 0) : Waiting t := by
  refine ⟨hbuffered, fun e he => fits_of_other (fun hserves => ?_) t⟩
  exact List.count_eq_zero.mp hnone (List.mem_map.mpr ⟨e, he, hserves⟩)

/-- Only the read side matters. -/
theorem Fits.congr {t t' : Stream σ} {e : Entry} (h : Fits t e) (hreceived : t'.received = t.received)
    (hbuffer : t'.readBuffer = t.readBuffer) : Fits t' e := by
  have hsize : t'.readBufferSize = t.readBufferSize := by
    unfold readBufferSize
    rw [hreceived, hbuffer]
  cases e with
  | read offset size => exact ⟨h.1.trans hreceived.symm, h.2.trans hsize.symm⟩
  | finished op res bytes =>
    intro hread
    refine (h hread).imp_left fun hfilled => ⟨hfilled.res, ?_, ?_⟩
    · rw [hsize]
      exact hfilled.room
    · rw [hreceived, hbuffer]
      exact hfilled.buffer
  | _ => exact h

/-- The changes that leave the read side alone. -/
theorem readSide_change {t t' : Stream σ} (hc : Change (fun _ => False) t t') :
    t'.received = t.received ∧ t'.readBuffer = t.readBuffer := by
  cases hc with
  | configureNextRead p _ hp => exact hp.elim
  | pushCopy bytes =>
    rw [pushCopy_eq]
    exact ⟨rfl, rfl⟩
  | _ => exact ⟨rfl, rfl⟩

theorem waiting_rule : Rule (fun _ => False) (Waiting (σ := σ)) where
  change t t' hc hmanager h := by
    obtain ⟨hreceived, hbuffer⟩ := readSide_change hc
    refine ⟨buffered_change t t' hc h.buffered, fun e he => ?_⟩
    rw [hmanager] at he
    exact (h.fits e he).congr hreceived hbuffer
  port port t h := ⟨buffered_change t _ (.manager _ t) h.buffered, fun e he => (h.fits e he).congr rfl rfl⟩
  grow t h := by
    unfold grow
    split_ifs
    · exact h
    · exact ⟨buffered_change t _ (.manager _ t) h.buffered, fun e he => (h.fits e he).congr rfl rfl⟩
  submit t entry hfresh h := by
    refine ⟨buffered_change t _ (.manager _ t) h.buffered, fun e he => ?_⟩
    rcases List.mem_append.mp he with he | he
    · exact (h.fits e he).congr rfl rfl
    · obtain rfl := List.mem_singleton.mp he
      cases hfresh with
      | read => exact ⟨rfl, rfl⟩
      | writev => trivial
      | poll op hop =>
        rintro rfl
        exact hop rfl

theorem abandoned_change (t t' : Stream σ) (hc : Change (fun _ => False) t t') (h : Abandoned t) :
    Abandoned t' := by
  have hchanges : Changes ReceivePolicy.Proper t t' :=
    Changes.mono (fun _ => False.elim) (Relation.ReflTransGen.single hc)
  exact ⟨refused_change t t' hc h.refused, hchanges.keeps delivering_change h.delivering⟩

theorem abandoned_rule : Rule (fun _ => False) (Abandoned (M := Line) (σ := σ)) where
  change t t' hc _ h := abandoned_change t t' hc h
  port _ t h := abandoned_change t _ (.manager _ t) h
  grow t h := by
    unfold grow
    split_ifs
    · exact h
    · exact abandoned_change t _ (.manager _ t) h
  submit t _ _ h := abandoned_change t _ (.manager _ t) h

/-- **What leaves the read side alone and keeps the flag and the read.** -/
theorem Inbound.next {t t' : Stream σ} (h : Inbound t)
    (hkeeps : ∀ I : Stream σ → Prop, Rule (fun _ => False) I → I t → I t')
    (hstays : Stays Operation.read t.manager t'.manager) : Inbound t' := by
  refine h.imp (hkeeps _ waiting_rule) fun hstopped => ?_
  exact ⟨hkeeps _ abandoned_rule hstopped.abandoned, (hstays.count hstopped.flag).trans hstopped.none,
    hstays.flag hstopped.flag⟩

/-- The kernel works on an entry that does not matter for reading. -/
theorem Inbound.line {t : Stream σ} (h : Inbound t) {l : Line}
    (hentries : ∀ e ∈ l.entries, e ∈ t.manager.entries ∨ ∀ t : Stream σ, Fits t e)
    (hstays : Stays Operation.read t.manager l) : Inbound { t with manager := l } := by
  refine h.imp (fun hwaiting => ?_) fun hstopped => ?_
  · refine ⟨buffered_change t _ (.manager _ t) hwaiting.buffered, fun e he => ?_⟩
    rcases hentries e he with he | hfits
    · exact (hwaiting.fits e he).congr rfl rfl
    · exact hfits _
  · exact ⟨abandoned_change t _ (.manager _ t) hstopped.abandoned,
      (hstays.count hstopped.flag).trans hstopped.none, hstays.flag hstopped.flag⟩

theorem inbound_set {t : Stream σ} (h : Inbound t) {k : ℕ} {e e' : Entry} (hk : t.manager.entries[k]? = some e)
    (hserves : serves e' = serves e) (hfits : ∀ t : Stream σ, Fits t e') : Inbound (setEntry k e' t) := by
  refine h.line (fun e he => ?_) (set_stays hk hserves)
  rcases List.mem_or_eq_of_mem_set he with he | rfl
  · exact .inl he
  · exact .inr hfits

/-- With nothing outstanding, no entry serves the operation. -/
theorem serves_ne {op : Operation} {l : Line} (hnone : outstanding op l = 0) {e : Entry} (he : e ∈ l.entries) :
    serves e ≠ op :=
  fun hserves => List.count_eq_zero.mp hnone (List.mem_map.mpr ⟨e, he, hserves⟩)

/-- A read that is outstanding is one of a transport that waits. -/
theorem Inbound.waiting {t : Stream σ} (h : Inbound t) {k : ℕ} {e : Entry}
    (hk : t.manager.entries[k]? = some e) (hserves : serves e = Operation.read) : Waiting t :=
  h.resolve_right fun hstopped => serves_ne hstopped.none (List.mem_of_getElem? hk) hserves

/-! ### The kernel reads -/

/-- Another entry in the place of the read. -/
theorem waiting_set {t : Stream σ} (hbuffered : Buffered t) {k : ℕ} {e e' : Entry}
    (hk : t.manager.entries[k]? = some e) (halone : ∀ e ∈ t.manager.entries.eraseIdx k, serves e ≠ Operation.read)
    (hfits : Fits t e') : Waiting (setEntry k e' t) := by
  refine ⟨buffered_change t _ (.manager _ t) hbuffered, fun e he => ?_⟩
  change e ∈ t.manager.entries.set k e' at he
  rw [List.set_eq_modify, modify_at hk] at he
  rw [erase_at] at halone
  rcases List.mem_append.mp he with he | he
  · exact fits_of_other (halone e (List.mem_append_left _ he)) _
  · rcases List.mem_cons.mp he with rfl | he
    · exact hfits.congr rfl rfl
    · exact fits_of_other (halone e (List.mem_append_right _ he)) _

/-- **The kernel fills the span**, which is right behind the bytes that wait. -/
theorem transferRead_waiting {t : Stream σ} (h : Waiting t) (harmed : Armed Operation.read t.manager) {k offset size : ℕ}
    (hk : t.manager.entries[k]? = some (.read offset size)) (outcome : ReadOutcome) :
    Waiting (transferRead k offset size outcome t) := by
  obtain ⟨rfl, rfl⟩ : offset = t.received ∧ size = t.readBufferSize := h.fits _ (List.mem_of_getElem? hk)
  have halone := alone harmed hk rfl
  cases outcome with
  | closed =>
    refine waiting_set h.buffered hk halone fun _ => .inl ⟨rfl, Nat.zero_le _, ?_⟩
    rw [List.append_nil]
    exact (List.take_append_drop _ _).symm
  | failed temporary => exact waiting_set h.buffered hk halone fun _ => .inr ⟨by decide, rfl⟩
  | data bytes =>
    have hroom := h.buffered.room
    obtain ⟨hle, -⟩ := length_chunkOf_le hroom bytes
    have hchunk : (chunkOf t bytes).length ≤ min t.readBufferSize maxRwCount := List.length_take_le _ _
    unfold transferRead
    dsimp only
    change Waiting (setEntry k (.finished Operation.read (chunkOf t bytes).length (chunkOf t bytes))
      { t with readBuffer := (fill (chunkOf t bytes) t).readBuffer })
    generalize chunkOf t bytes = chunk at hle hchunk
    have hlength := length_fill hle
    have hfront : (t.readBuffer.take t.received).length = t.received := by
      rw [List.length_take, Nat.min_eq_left hroom]
    -- the bytes that wait are as they were
    have htake : (fill chunk t).readBuffer.take t.received = t.readBuffer.take t.received := by
      change (t.readBuffer.take t.received ++ chunk ++ _).take t.received = _
      rw [List.append_assoc, List.take_left' hfront]
    have hdrop : (fill chunk t).readBuffer.drop (t.received + chunk.length) =
        t.readBuffer.drop (t.received + chunk.length) := by
      change (t.readBuffer.take t.received ++ chunk ++ _).drop _ = _
      rw [List.drop_left' (by rw [List.length_append, hfront])]
    refine waiting_set ?_ hk halone fun _ => .inl ⟨rfl, ?_, ?_⟩
    · refine ⟨h.buffered.minSize, hlength.trans h.buffered.maxSize, hlength.symm ▸ h.buffered.le,
        h.buffered.waiting, h.buffered.spans, ?_⟩
      change consumedBytes t ++ (fill chunk t).readBuffer.take t.received = _
      rw [htake]
      exact h.buffered.bytes
    · change chunk.length ≤ min (subSize (fill chunk t).readBuffer.length t.received) maxRwCount
      rw [hlength]
      exact hchunk
    · change (fill chunk t).readBuffer = _
      dsimp only
      rw [htake, hdrop]
      rfl

/-! ### Completions -/

/-- Whether an error is temporary matters for errors only. -/
theorem handleReadResult_data {reg : Register Line σ} {app : NextLayer σ} {res : ℤ} (hres : 0 ≤ res)
    (temporary temporary' : Bool) (t : Stream σ) :
    handleReadResult reg app res temporary t = handleReadResult reg app res temporary' t := by
  unfold handleReadResult
  rw [if_neg (not_lt.mpr hres), if_neg (not_lt.mpr hres)]

section Completion

variable {app : NextLayer σ} (happ : Configures ReceivePolicy.Proper app)

include happ

/-- **The result of a read** is that of a `recv` at this time. -/
theorem read_settled {t : Stream σ} (h : Waiting t) {k : ℕ} {res : ℤ} {bytes : List UInt8} (temporary : Bool)
    (hk : t.manager.entries[k]? = some (.finished Operation.read res bytes)) :
    Settled (handleReadResult (register app) app res temporary (passed k Operation.read bytes t)) := by
  have hleft : Buffered { t with manager := { t.manager with entries := t.manager.entries.eraseIdx k } } :=
    buffered_change t _ (.manager _ t) h.buffered
  rcases h.fits _ (List.mem_of_getElem? hk) rfl with hfilled | ⟨hneg, rfl⟩
  · have htake : bytes.take (min t.readBufferSize maxRwCount) = bytes := List.take_of_length_le hfilled.room
    have hrecv : recv { t with manager := { t.manager with entries := t.manager.entries.eraseIdx k } }
        (.data bytes) = ((bytes.length : ℤ), passed k Operation.read bytes t) := by
      have hsize : readBufferSize
          { t with manager := { t.manager with entries := t.manager.entries.eraseIdx k } } =
          t.readBufferSize := rfl
      unfold recv passed
      dsimp only
      rw [hsize, htake, ← hfilled.buffer, if_pos rfl, if_neg (by decide)]
    have hsmall : bytes.length < 2 ^ 31 := by
      have hmax : maxRwCount < 2 ^ 31 := by decide
      have hroom := hfilled.room
      omega
    have hread := settled_read (registration happ.produce) happ hleft (.data bytes)
    rw [hrecv, toInt_of_lt hsmall, ← hfilled.res] at hread
    have hres : 0 ≤ res := by
      rw [hfilled.res]
      exact Int.natCast_nonneg _
    rw [handleReadResult_data hres temporary (ReadOutcome.data bytes).temporary]
    exact hread
  · unfold handleReadResult
    rw [if_pos hneg]
    refine .inl ⟨hleft.minSize, hleft.maxSize, hleft.le, hleft.waiting, hleft.spans, ?_⟩
    change consumedBytes t ++ pending t = t.trace.delivered ++ []
    rw [List.append_nil]
    exact h.buffered.bytes

/-- **A completed read.** -/
theorem dispatch_read {t : Stream σ} (h : Waiting t) (harmed : Armed Operation.read t.manager) {k : ℕ} {res : ℤ}
    {bytes : List UInt8} (temporary : Bool)
    (hk : t.manager.entries[k]? = some (.finished Operation.read res bytes)) :
    Inbound (dispatch app k Operation.read res bytes temporary t) := by
  have hleft := outstanding_passed Operation.read hk Operation.read bytes
  change _ = _ + if served Operation.read = Operation.read then 1 else 0 at hleft
  rw [if_pos (by decide)] at hleft
  have hone : outstanding Operation.read t.manager = 1 ∧ _ := harmed.resolve_left fun h0 => by omega
  have hstays := handleReadResult_manager app (register_stays app sided_read) res temporary
    (passed k Operation.read bytes t)
  have hsettled := read_settled happ h temporary hk
  unfold dispatch handleCompletion
  rw [if_pos rfl]
  generalize handleReadResult (register app) app res temporary (passed k Operation.read bytes t) = o
    at hstays hsettled
  obtain ⟨v, t'⟩ := o
  dsimp only at hstays
  have hnone : outstanding Operation.read t'.manager = 0 := (hstays.count hone.2).trans (by omega)
  have hwaiting : v ≠ .error → Waiting t' := fun hne =>
    waiting_idle (hsettled.resolve_right fun herror => hne herror.1) hnone
  cases v with
  | ok =>
    have hread : Waiting (submitRead t').2 := waiting_rule.submitRead (hwaiting (by decide))
    exact .inl hread
  | done => exact .inl (waiting_rule.port _ t' (hwaiting (by decide)))
  | temporaryError =>
    have hpoll : Waiting (submitBy Ring.submitPollRead (.poll Operation.pollRead) t').2 :=
      waiting_rule.submitBy (.poll Operation.pollRead (by decide)) (hwaiting (by decide))
    exact .inl (waiting_rule.port _ _ hpoll)
  | error =>
    rcases hsettled with hbuffered | ⟨-, habandoned⟩
    · exact .inl (waiting_idle hbuffered hnone)
    · exact .inr ⟨habandoned, hnone, hstays.flag hone.2⟩

omit happ in
/-- **A completion that is not for reading.** -/
theorem dispatch_other (happ : NextLayer.Produces (fun _ => False) app) {I : Stream σ → Prop}
    (hI : Rule (fun _ => False) I) {op : Operation} (hop : served op ≠ Operation.read) {k : ℕ} {res : ℤ}
    {bytes : List UInt8} {temporary : Bool} {t : Stream σ} (hpassed : I (passed k op bytes t))
    (hwritten : ∀ t : Stream σ, I t → I (handleWriteResult res temporary t).2) :
    I (dispatch app k op res bytes temporary t) := by
  refine hI.dispatch happ (fun hread => ?_) (fun _ => hwritten _ hpassed) fun _ _ => hpassed
  exact absurd (by rw [hread]; decide) hop

omit happ in
/-- It keeps the flag and the read. -/
theorem dispatch_stays {op : Operation} (hop : served op ≠ Operation.read) {k : ℕ} {res : ℤ}
    {bytes : List UInt8} (temporary : Bool) {t : Stream σ}
    (hk : t.manager.entries[k]? = some (.finished op res bytes)) :
    Stays Operation.read t.manager (dispatch app k op res bytes temporary t).manager := by
  have hleft := outstanding_passed Operation.read hk op bytes
  change _ = _ + if served op = Operation.read then 1 else 0 at hleft
  rw [if_neg hop, add_zero] at hleft
  refine IsTrans.trans _ (passed k op bytes t).manager _ (stays_of_eq rfl hleft.symm) ?_
  by_cases hwrite : served op = Operation.write
  · exact completion_write app hwrite
  · unfold dispatch
    rw [completion_unknown app hop hwrite]
    exact refl_of (Stays Operation.read) _

end Completion

/-! ### Events -/

/-- What keeps the read side to `consume`: the calls from outside configure nothing. -/
def Unconfigured : Event → Prop
  | .call c => Call.Allowed (fun _ => False) c
  | _ => True

/-- The application configures from `init`, before it does anything else there, and from `consume`. -/
structure ConfiguresFirst (app : NextLayer σ) : Prop where
  init : ∀ s, ∃ (policies : List ReceivePolicy) (rest : List Call),
    (app.init s).2.1 = policies.map Call.configureNextRead ++ rest ∧ (∀ p ∈ policies, p.Proper) ∧
      ∀ c ∈ rest, Call.Allowed (fun _ => False) c
  consume : ∀ s span, ∀ c ∈ (app.consume s span).2.1, Call.Allowed ReceivePolicy.Proper c
  produce : NextLayer.Produces (fun _ => False) app
  handleTimeout : ∀ s id, ∀ c ∈ (app.handleTimeout s id).2.1, Call.Allowed (fun _ => False) c

variable {app : NextLayer σ}

theorem ConfiguresFirst.configures (h : ConfiguresFirst app) : Configures ReceivePolicy.Proper app := by
  refine ⟨fun s c hc => ?_, h.consume, h.produce, h.handleTimeout⟩
  obtain ⟨policies, rest, heq, hpolicies, hrest⟩ := h.init s
  rw [heq] at hc
  rcases List.mem_append.mp hc with hc | hc
  · obtain ⟨p, hp, rfl⟩ := List.mem_map.mp hc
    exact hpolicies p hp
  · exact (hrest c hc).mono fun _ => False.elim

section Frame

variable {t : Stream σ} {k : ℕ} {op : Operation} {bytes : List UInt8} {res : ℤ} {temporary : Bool}

/-- An entry leaves that is no read. -/
theorem passed_waiting (h : Waiting t) (hop : op ≠ Operation.read) : Waiting (passed k op bytes t) := by
  refine ⟨⟨h.buffered.minSize, h.buffered.maxSize, h.buffered.le, h.buffered.waiting, h.buffered.spans, ?_⟩,
    fun e he => (h.fits e (List.mem_of_mem_eraseIdx he)).congr rfl rfl⟩
  unfold passed
  dsimp only
  rw [if_neg hop]
  exact h.buffered.bytes

theorem passed_abandoned (h : Abandoned t) (hop : op ≠ Operation.read) : Abandoned (passed k op bytes t) := by
  obtain ⟨hrefused, h⟩ := h
  refine ⟨hrefused, h.minSize, h.maxSize, h.le, h.room, h.spans, ?_⟩
  unfold passed
  dsimp only
  rw [if_neg hop]
  exact h.bytes

/-- The result of a write. -/
theorem written_waiting (h : Waiting t) : Waiting (handleWriteResult res temporary t).2 := by
  obtain ⟨memory, cache, count, queue, iovecs, hframe⟩ := handleWriteResult_frame res temporary t
  rw [hframe]
  exact ⟨⟨h.buffered.minSize, h.buffered.maxSize, h.buffered.le, h.buffered.waiting, h.buffered.spans,
    h.buffered.bytes⟩, fun e he => (h.fits e he).congr rfl rfl⟩

theorem written_abandoned (h : Abandoned t) : Abandoned (handleWriteResult res temporary t).2 := by
  obtain ⟨memory, cache, count, queue, iovecs, hframe⟩ := handleWriteResult_frame res temporary t
  obtain ⟨hrefused, h⟩ := h
  rw [hframe]
  exact ⟨hrefused, h.minSize, h.maxSize, h.le, h.room, h.spans, h.bytes⟩

end Frame

/-- **A completion.** -/
theorem dispatch_inbound (happ : ConfiguresFirst app) {t : Stream σ} (h : Inbound t)
    (harmed : Armed Operation.read t.manager) {k : ℕ} {op : Operation} {res : ℤ} {bytes : List UInt8}
    (temporary : Bool) (hk : t.manager.entries[k]? = some (.finished op res bytes)) :
    Inbound (dispatch app k op res bytes temporary t) := by
  by_cases hserved : served op = Operation.read
  · have hwaiting := h.waiting hk hserved
    rcases of_served_read hserved with rfl | rfl
    · exact dispatch_read happ.configures hwaiting harmed temporary hk
    · have hpassed : Waiting (passed k Operation.pollRead bytes t) := passed_waiting hwaiting (by decide)
      unfold dispatch handleCompletion
      rw [if_neg (by decide), if_pos rfl]
      have hread : Waiting (submitRead (passed k Operation.pollRead bytes t)).2 := waiting_rule.submitRead hpassed
      exact .inl hread
  · have hne : op ≠ Operation.read := by
      rintro rfl
      exact hserved rfl
    have hstays : Stays Operation.read t.manager (dispatch app k op res bytes temporary t).manager :=
      dispatch_stays hserved temporary hk
    refine h.imp (fun hwaiting => ?_) fun hstopped => ?_
    · exact dispatch_other happ.produce waiting_rule hserved (passed_waiting hwaiting hne) fun t =>
        written_waiting
    · refine ⟨?_, (hstays.count hstopped.flag).trans hstopped.none, hstays.flag hstopped.flag⟩
      exact dispatch_other happ.produce abandoned_rule hserved (passed_abandoned hstopped.abandoned hne)
        fun t => written_abandoned

/-- **Every event.** -/
theorem step_inbound (happ : ConfiguresFirst app) (t : Stream σ) (e : Event) (h : Inbound t)
    (harmed : Armed Operation.read t.manager) (hquiet : Unconfigured e) (he : Unhindered Operation.read t e) :
    Inbound (step app t e) := by
  have hstays := register_stays app sided_read
  have hcalls : ∀ I : Stream σ → Prop, Rule (fun _ => False) I →
      Callable (register app) (Call.Allowed fun _ => False) I := fun I hI => hI.callable (hI.register happ.produce)
  cases e with
  | enable op =>
    refine h.next (fun I hI => hI.enableBy fun t => ?_) (enable_stays app hstays sided_read he t)
    exact hI.enable happ.produce (hI.register happ.produce) op
  | call c => exact h.next (fun I hI => (hcalls I hI).call c t hquiet) (call_manager hstays t c)
  | timeout id =>
    exact h.next (fun I hI => (hcalls I hI).callback (happ.handleTimeout t.nextLayer id))
      (callback_manager hstays (app.handleTimeout t.nextLayer id) t)
  | ring r => exact h.line (fun _ => .inl) (stays_of_eq rfl rfl)
  | submit k =>
    unfold step
    dsimp only
    split
    · rename_i array count hk
      unfold importIovecs
      split_ifs
      · exact inbound_set h hk (by rfl) fun _ => trivial
      · exact h.line (fun _ => .inl) (stays_of_eq rfl rfl)
    · exact h
  | read k outcome =>
    unfold step
    dsimp only
    split
    · rename_i offset size hk
      exact .inl (transferRead_waiting (h.waiting hk rfl) harmed hk outcome)
    · exact h
  | write k outcome =>
    unfold step
    dsimp only
    split
    · rename_i iovecs hk
      unfold transferWrite
      cases outcome <;> exact inbound_set h hk (by rfl) fun _ hread => absurd hread (by decide)
    · exact h
  | poll k =>
    unfold step
    dsimp only
    split
    · rename_i op hk
      have hne : op ≠ Operation.read := by
        rintro rfl
        exact (h.waiting hk rfl).fits _ (List.mem_of_getElem? hk) rfl
      exact inbound_set h hk (by rfl) fun _ hread => absurd hread hne
    · exact h
  | complete k temporary =>
    unfold step
    dsimp only
    split
    · rename_i op res bytes hk
      exact dispatch_inbound happ h harmed temporary hk
    · exact h

/-- A transport after `init`. -/
theorem start_inbound (happ : ConfiguresFirst app) (port : Multiplexer.Uring.Managers.Port) (s : σ)
    (config : TransportConfig) : Inbound (start app port s config) := by
  obtain ⟨policies, rest, hinit, hpolicies, hrest⟩ := happ.init s
  have hconfigure : Callable (register app) (fun c => ∃ p : ReceivePolicy, p.Proper ∧ c = .configureNextRead p)
      (fun t => Delivering t ∧ t.received = 0 ∧ t.manager.entries = []) := by
    refine ⟨fun s t h => ⟨delivering_change t _ (.nextLayer s t) h.1, h.2⟩, ?_⟩
    rintro c t ⟨p, hp, rfl⟩ h
    exact ⟨delivering_change t _ (.configureNextRead p t hp) h.1, rfl, h.2.2⟩
  have hcalls : ∀ c ∈ policies.map Call.configureNextRead, ∃ p : ReceivePolicy, p.Proper ∧
      c = .configureNextRead p := by
    intro c hc
    obtain ⟨p, hp, rfl⟩ := List.mem_map.mp hc
    exact ⟨p, hpolicies p hp, rfl⟩
  have hconfigured := hconfigure.calls hcalls (t := { fresh (⟨port, 0, 0, [], false⟩ : Line) (app.init s).1 {} with
    config := config }) ⟨delivering_fresh _ _ config, rfl, rfl⟩
  have hwaiting := Waiting.mk (hconfigured.1.buffered_of_zero hconfigured.2.1) fun e he => by
    rw [hconfigured.2.2] at he
    cases he
  unfold start StreamTransportBase.init
  change Inbound ((app.init s).2.1.foldl (call (register app)) _)
  rw [hinit, List.foldl_append]
  exact .inl ((waiting_rule.callable (waiting_rule.register happ.produce)).calls hrest hwaiting)

/-! ### The byte stream -/

/-- **Nothing is lost, duplicated or reordered**: the bytes delivered are those consumed and those that
wait, within the bounds of the policies, and the kernel only has spans of the read buffer. After an error
from `consume`, all were consumed and there is no read. -/
structure Received (t : Stream σ) : Prop where
  spans : ∀ c ∈ t.trace.consumed, StreamTransport.Incoming.Fits c
  bytes : consumedBytes t ++ pending t = t.trace.delivered ∨
    Refused t ∧ consumedBytes t = t.trace.delivered ∧ outstanding Operation.read t.manager = 0 ∧
      t.manager.port.mask.contains Operation.read = true
  inside : ∀ offset size, .read offset size ∈ t.manager.entries →
    offset = t.received ∧ offset + size = t.readBuffer.length

theorem Inbound.received {t : Stream σ} (h : Inbound t) : Received t := by
  rcases h with h | h
  · refine ⟨h.buffered.spans, .inl h.buffered.bytes, fun offset size he => ?_⟩
    obtain ⟨rfl, rfl⟩ : offset = t.received ∧ size = t.readBufferSize := h.fits _ he
    have hroom := h.buffered.room
    have hsize : t.readBufferSize = t.readBuffer.length - t.received := subSize_of_le hroom
    exact ⟨rfl, by omega⟩
  · obtain ⟨hrefused, hdelivering⟩ := h.abandoned
    exact ⟨hdelivering.spans, .inr ⟨hrefused, hdelivering.bytes, h.none, h.flag⟩, fun offset size he =>
      absurd rfl (serves_ne h.none he)⟩

/-- **The incoming bytes.** In any run without temporary errors of reads and without outside calls that
configure, whatever the kernel delivers and the application does. -/
theorem received_faithful (happ : ConfiguresFirst app) (mgr : Manager) (ring : Ring) (s : σ)
    (config : TransportConfig) (es : List Event) (hquiet : ∀ e ∈ es, Unconfigured e)
    (hplain : Along (step app) (Unhindered Operation.read)
      (start app ⟨mgr, Operation.none, ring⟩ s config) es) :
    Always (step app) Received (start app ⟨mgr, Operation.none, ring⟩ s config) es := by
  have hkept := always_of_along (I := fun t => Inbound t ∧ Armed Operation.read t.manager)
    (fun t e h he => ⟨step_inbound happ t e h.1 h.2 he.1 he.2, step_armed app sided_read t e h.2 he.2⟩)
    ⟨start_inbound happ _ s config, start_armed app sided_read mgr ring s config⟩
    ((along_of_mem _ hquiet).and hplain)
  exact hkept.imp fun _ h => h.1.received

theorem pairLayer_configuresFirst : ConfiguresFirst (pairLayer .ok) := by
  refine ⟨fun s => ⟨[.exactly 2], [], rfl, fun p hp => ?_, fun c hc => ?_⟩, fun s span c hc => ?_,
    fun s c hc => ?_, fun s id c hc => ?_⟩
  · obtain rfl := List.mem_singleton.mp hp
    exact ⟨by decide, by decide⟩
  all_goals cases hc

/-- Three bytes in two segments, with an `enqueue` in between. -/
theorem received_faithful_pairs :
    Always (step (pairLayer .ok)) Received
      (start (pairLayer .ok) ⟨⟨0, 3⟩, Operation.none, Ring.empty⟩ () {})
      [.enable Operation.read, .read 0 (.data [1]), .complete 0 false, .call (.enqueue [7]),
        .read 0 (.data [2, 3]), .complete 0 false, .read 1 (.data [3]), .complete 1 false] :=
  received_faithful pairLayer_configuresFirst ⟨0, 3⟩ Ring.empty () {} _
    (by simp [Unconfigured, Call.Allowed]) (by decide +kernel)

/-- With a read outstanding, a smaller buffer leaves the kernel with a span that is not in it. -/
example : (run (step (pairLayer .ok)) (start (pairLayer .ok) ⟨⟨0, 3⟩, Operation.none, Ring.empty⟩ () {})
    [.enable Operation.read, .call (.configureNextRead (.exactly 1))]).manager.entries = [.read 0 2] ∧
    (run (step (pairLayer .ok)) (start (pairLayer .ok) ⟨⟨0, 3⟩, Operation.none, Ring.empty⟩ () {})
    [.enable Operation.read, .call (.configureNextRead (.exactly 1))]).readBuffer.length = 1 := by
  decide +kernel

end NetworkDriver.Net.StreamTransport.Uring.Incoming
