import NetworkDriver.Net.StreamTransport.Incoming

/-! # Reads without room

A `recv` that is given an empty span answers 0, as it does when the peer has closed its side, and
`handle_read_result` takes every 0 for the end of the stream. The read buffer has no room when the
policy in force has `max_size` 0, as `receive_policy::stop()` has, and when it fills up below
`min_size`.

* `ended_by_peer_iff`: the read events that answer `done` have met the end of the stream exactly if
  every `recv` that finds data is given room; it is, if every policy leaves room to reach its
  minimum.
* `cut_off`: while a policy that does not is in force, some data ends the stream. -/

namespace NetworkDriver.Net.StreamTransport.Reads

open NetworkDriver.Library.Run
open NetworkDriver.Net.Types NetworkDriver.Net.StreamTransport.Model
open NetworkDriver.Net.StreamTransport.Callbacks NetworkDriver.Net.StreamTransport.Queue
open NetworkDriver.Net.StreamTransport.Incoming
open StreamTransportBase

variable {M σ : Type}

/-! ### The passes of a read event -/

section Passes

variable (reg : Register M σ) (app : NextLayer σ)

/-- One pass of the loop of `handle_read_event`. -/
def readOnce (outcome : ReadOutcome) (t : StreamTransportBase M σ) :
    ManagerResult × StreamTransportBase M σ :=
  handleReadResult reg app (toInt (t.recv outcome).1) outcome.temporary (t.recv outcome).2

/-- The loop makes one pass after the other. -/
theorem readLoop_succ (n : ℕ) (kernel : List ReadOutcome) (t : StreamTransportBase M σ) :
    readLoop reg app (n + 1) kernel t =
      if (readOnce reg app (kernel.headD (.failed true)) t).1 = .ok then
        readLoop reg app n kernel.tail (readOnce reg app (kernel.headD (.failed true)) t).2
      else readOnce reg app (kernel.headD (.failed true)) t := by
  conv_lhs => unfold readLoop
  unfold readOnce
  dsimp only
  generalize handleReadResult reg app _ _ _ = o
  obtain ⟨v, t'⟩ := o
  cases v <;> rfl

/-- `C` holds at every pass of a read event. -/
def AlongReads (C : StreamTransportBase M σ → ReadOutcome → Prop) :
    ℕ → List ReadOutcome → StreamTransportBase M σ → Prop
  | 0, _, _ => True
  | n + 1, kernel, t => C t (kernel.headD (.failed true)) ∧
      ((readOnce reg app (kernel.headD (.failed true)) t).1 = .ok →
        AlongReads C n kernel.tail (readOnce reg app (kernel.headD (.failed true)) t).2)

/-- `C` holds at every pass of the event, if it is a read event that is handled. -/
def AtReads (C : StreamTransportBase M σ → ReadOutcome → Prop) (s : Session M σ) : Event → Prop
  | .readEvent kernel => s.failed = false →
      AlongReads reg app C s.transport.config.maxConsecutiveReads kernel s.transport
  | _ => True

instance AlongReads.decidable {C : StreamTransportBase M σ → ReadOutcome → Prop}
    [∀ t o, Decidable (C t o)] :
    (n : ℕ) → (kernel : List ReadOutcome) → (t : StreamTransportBase M σ) →
      Decidable (AlongReads reg app C n kernel t)
  | 0, _, _ => .isTrue trivial
  | n + 1, kernel, t =>
    have := AlongReads.decidable (C := C) n kernel.tail
      (readOnce reg app (kernel.headD (.failed true)) t).2
    inferInstanceAs (Decidable (C t (kernel.headD (.failed true)) ∧
      ((readOnce reg app (kernel.headD (.failed true)) t).1 = .ok →
        AlongReads reg app C n kernel.tail (readOnce reg app (kernel.headD (.failed true)) t).2)))

instance AtReads.decidable {C : StreamTransportBase M σ → ReadOutcome → Prop} [∀ t o, Decidable (C t o)]
    (s : Session M σ) : (e : Event) → Decidable (AtReads reg app C s e)
  | .readEvent kernel => inferInstanceAs (Decidable (s.failed = false →
      AlongReads reg app C s.transport.config.maxConsecutiveReads kernel s.transport))
  | .writeEvent _ => .isTrue trivial
  | .timeout _ => .isTrue trivial
  | .enqueue _ => .isTrue trivial
  | .enqueueBuffer _ _ => .isTrue trivial

/-- The outcome that the loop of `handle_read_event` ends with, if it does not go on to the last
pass. -/
def endedBy : ℕ → List ReadOutcome → StreamTransportBase M σ → Option ReadOutcome
  | 0, _, _ => none
  | n + 1, kernel, t =>
    if (readOnce reg app (kernel.headD (.failed true)) t).1 = .ok then
      endedBy n kernel.tail (readOnce reg app (kernel.headD (.failed true)) t).2
    else some (kernel.headD (.failed true))

end Passes

/-! ### The end of the stream -/

/-- There is data, and the span that `recv` is given is not empty. -/
def RoomAt (t : StreamTransportBase M σ) : ReadOutcome → Prop
  | .data _ => t.readBufferSize ≠ 0
  | _ => True

instance (t : StreamTransportBase M σ) : (o : ReadOutcome) → Decidable (RoomAt t o)
  | .data _ => inferInstanceAs (Decidable (t.readBufferSize ≠ 0))
  | .closed => .isTrue trivial
  | .failed _ => .isTrue trivial

/-- Data is not nothing: 0 is the answer to a span that is not empty at the end of the stream only. -/
def Delivers (kernel : List ReadOutcome) : Prop := ∀ bytes, .data bytes ∈ kernel → bytes ≠ []

/-- The outcomes of a read event are those of a socket. -/
def Genuine : Event → Prop
  | .readEvent kernel => Delivers kernel
  | _ => True

theorem Delivers.tail {kernel : List ReadOutcome} (h : Delivers kernel) : Delivers kernel.tail :=
  fun bytes hb => h bytes (List.mem_of_mem_tail hb)

theorem Delivers.head {kernel : List ReadOutcome} (h : Delivers kernel) {bytes : List UInt8}
    (hb : kernel.headD (.failed true) = .data bytes) : bytes ≠ [] := by
  cases kernel with
  | nil => cases hb
  | cons o kernel => exact h bytes (List.mem_cons.mpr (Or.inl hb.symm))

section Ends

variable (reg : Register M σ) (app : NextLayer σ)

/-- The verdict of `handle_read_result` is `done` for 0 only. -/
theorem handleReadResult_done_iff (readRes : ℤ) (temporary : Bool) (t : StreamTransportBase M σ) :
    (handleReadResult reg app readRes temporary t).1 = .done ↔ readRes = 0 := by
  unfold handleReadResult
  dsimp only
  split_ifs with hneg htemporary hzero hmin
  · exact iff_of_false (by simp) hneg.ne
  · exact iff_of_false (by simp) hneg.ne
  · exact iff_of_true rfl hzero
  · generalize consume reg app _ _ = o
    obtain ⟨v, t'⟩ := o
    refine iff_of_false ?_ hzero
    cases v <;> simp
  · exact iff_of_false (by simp) hzero

theorem recv_zero_iff (t : StreamTransportBase M σ) (bytes : List UInt8) :
    toInt (t.recv (.data bytes)).1 = 0 ↔ bytes = [] ∨ t.readBufferSize = 0 := by
  have hlen : (bytes.take (min t.readBufferSize maxRwCount)).length < 2 ^ 31 := by
    have hmax : maxRwCount < 2 ^ 31 := by decide
    rw [List.length_take]
    omega
  have hpos : 0 < maxRwCount := by decide
  have hres : toInt (t.recv (.data bytes)).1 =
      ((bytes.take (min t.readBufferSize maxRwCount)).length : ℕ) := toInt_of_lt hlen
  rw [hres, List.length_take, ← List.length_eq_zero_iff]
  omega

/-- **When one pass answers `done`.** -/
theorem readOnce_done_iff (outcome : ReadOutcome) (t : StreamTransportBase M σ) :
    (readOnce reg app outcome t).1 = .done ↔
      outcome = .closed ∨ ∃ bytes, outcome = .data bytes ∧ (bytes = [] ∨ t.readBufferSize = 0) := by
  unfold readOnce
  rw [handleReadResult_done_iff]
  cases outcome with
  | data bytes => simp [recv_zero_iff]
  | closed => simp [recv, toInt]
  | failed temporary => simp [recv, toInt]

/-- **One read event**, for the passes still to come. -/
theorem readLoop_done_iff (n : ℕ) (kernel : List ReadOutcome) (t : StreamTransportBase M σ)
    (hk : Delivers kernel) :
    ((readLoop reg app n kernel t).1 = .done → endedBy reg app n kernel t = some .closed) ↔
      AlongReads reg app RoomAt n kernel t := by
  induction n generalizing kernel t with
  | zero => exact iff_of_true (fun h => ManagerResult.noConfusion h) trivial
  | succ n ih =>
    rw [readLoop_succ, endedBy, AlongReads]
    have hdone := readOnce_done_iff reg app (kernel.headD (.failed true)) t
    by_cases hok : (readOnce reg app (kernel.headD (.failed true)) t).1 = .ok
    · -- a pass that goes on has had room
      have hroom : RoomAt t (kernel.headD (.failed true)) := by
        cases ho : kernel.headD (.failed true) with
        | data bytes =>
          intro hzero
          rw [hok] at hdone
          exact ManagerResult.noConfusion (hdone.mpr (Or.inr ⟨bytes, ho, Or.inr hzero⟩))
        | closed | failed => trivial
      rw [if_pos hok, if_pos hok, imp_iff_right hok, and_iff_right hroom]
      exact ih kernel.tail _ hk.tail
    · rw [if_neg hok, if_neg hok, Option.some.injEq, hdone]
      have hlast : ((readOnce reg app (kernel.headD (.failed true)) t).1 = .ok →
        AlongReads reg app RoomAt n kernel.tail (readOnce reg app (kernel.headD (.failed true)) t).2) :=
        fun h => absurd h hok
      rw [and_iff_left hlast]
      cases ho : kernel.headD (.failed true) with
      | data bytes => simp [RoomAt, hk.head ho]
      | closed | failed => simp [RoomAt]

/-- The event, if it is a read event that answers `done`, has met the end of the stream. -/
def EndedByPeer (s : Session M σ) : Event → Prop
  | .readEvent kernel => s.failed = false → (s.transport.handleReadEvent reg app kernel).1 = .done →
      endedBy reg app s.transport.config.maxConsecutiveReads kernel s.transport = some .closed
  | _ => True

instance (s : Session M σ) (e : Event) : Decidable (EndedByPeer reg app s e) := by
  unfold EndedByPeer; split <;> infer_instance

theorem endedByPeer_iff (s : Session M σ) {e : Event} (he : Genuine e) :
    EndedByPeer reg app s e ↔ AtReads reg app RoomAt s e := by
  cases e with
  | readEvent kernel => exact forall_congr' fun _ => readLoop_done_iff reg app _ kernel s.transport he
  | writeEvent | timeout | enqueue | enqueueBuffer => rfl

end Ends

/-! ### Policies -/

/-- The policy leaves room, and enough of it to reach its minimum. -/
def Roomy (p : ReceivePolicy) : Prop := 0 < p.maxSize ∧ p.minSize ≤ p.maxSize

/-- Every policy that the application configures, from whatever callback, is in `P`. -/
structure Restricted (P : ReceivePolicy → Prop) (app : NextLayer σ) : Prop where
  init : ∀ s, ∀ c ∈ (app.init s).2.1, Call.Allowed P c
  consume : ∀ s span, ∀ c ∈ (app.consume s span).2.1, Call.Allowed P c
  produce : NextLayer.Produces P app
  handleTimeout : ∀ s id, ∀ c ∈ (app.handleTimeout s id).2.1, Call.Allowed P c

/-- `init` configures the first read. -/
def StartsReading (app : NextLayer σ) (s : σ) : Prop := ∃ p, .configureNextRead p ∈ (app.init s).2.1

/-- The buffer has room for the minimum, and is not empty. -/
structure Sized (t : StreamTransportBase M σ) : Prop where
  pos : 0 < t.readBuffer.length
  le : t.minReadSize ≤ t.readBuffer.length

/-- **The invariant between two reads.** -/
structure Ready (t : StreamTransportBase M σ) : Prop extends Sized t where
  room : t.received < t.readBuffer.length

theorem length_configureNextRead (p : ReceivePolicy) (t : StreamTransportBase M σ) :
    (t.configureNextRead p).readBuffer.length = p.maxSize.toNat := by
  simp only [configureNextRead, List.length_append, List.length_take, List.length_replicate]
  omega

theorem ready_configureNextRead {p : ReceivePolicy} (hp : Roomy p) (t : StreamTransportBase M σ) :
    Ready (t.configureNextRead p) := by
  have hlen := length_configureNextRead p t
  have hpos : 0 < p.maxSize.toNat := UInt32.lt_iff_toNat_lt.mp hp.1
  exact ⟨⟨hlen ▸ hpos, hlen ▸ UInt32.le_iff_toNat_le.mp hp.2⟩, hlen ▸ hpos⟩

theorem sized_change (t t' : StreamTransportBase M σ) (hc : Change Roomy t t') (h : Sized t) :
    Sized t' := by
  cases hc with
  | configureNextRead p _ hp => exact (ready_configureNextRead hp t).toSized
  | pushCopy bytes => rw [pushCopy_eq]; exact ⟨h.pos, h.le⟩
  | manager | nextLayer | pushNew => exact ⟨h.pos, h.le⟩

theorem ready_change (t t' : StreamTransportBase M σ) (hc : Change Roomy t t') (h : Ready t) :
    Ready t' := by
  cases hc with
  | configureNextRead p _ hp => exact ready_configureNextRead hp t
  | pushCopy bytes => rw [pushCopy_eq]; exact ⟨⟨h.pos, h.le⟩, h.room⟩
  | manager | nextLayer | pushNew => exact ⟨⟨h.pos, h.le⟩, h.room⟩

theorem ready_write (t : StreamTransportBase M σ) (outcome : WriteOutcome) (h : Ready t) :
    Ready ((t.writev outcome).2.handleWriteResult (toInt (t.writev outcome).1) outcome.temporary).2 := by
  obtain ⟨memory, cache, count, queue, iovecs, he⟩ :=
    handleWriteResult_frame (toInt (t.writev outcome).1) outcome.temporary (t.writev outcome).2
  rw [he]
  cases outcome <;> exact ⟨⟨h.pos, h.le⟩, h.room⟩

theorem Ready.roomAt {t : StreamTransportBase M σ} (h : Ready t) (outcome : ReadOutcome) :
    RoomAt t outcome := by
  cases outcome with
  | data bytes =>
    have hsize : t.readBufferSize = t.readBuffer.length - t.received := subSize_of_le h.room.le
    have hroom := h.room
    change t.readBufferSize ≠ 0
    omega
  | closed | failed => trivial

section Kept

variable (r : Registration (fun _ => False) M σ) {app : NextLayer σ}

/-- What one pass leaves is ready for the next, unless `consume` failed. -/
theorem readOnce_ready (happ : Restricted Roomy app) {t : StreamTransportBase M σ} (h : Ready t)
    (outcome : ReadOutcome) :
    (readOnce r.register app outcome t).1 = .error ∨ Ready (readOnce r.register app outcome t).2 := by
  cases outcome with
  | closed => exact Or.inr h
  | failed temporary =>
    have hneg : toInt (-1) < 0 := by decide
    unfold readOnce
    rw [show (t.recv (.failed temporary)).1 = -1 from rfl, handleReadResult, if_pos hneg]
    exact Or.inr h
  | data bytes =>
    obtain ⟨hle, -⟩ := length_chunkOf_le h.room.le bytes
    unfold readOnce
    rw [handleReadResult_data r.register app h.room.le]
    generalize chunkOf t bytes = chunk at hle
    have hlen := length_fill hle
    have hsized : Sized (fill chunk t) := ⟨hlen.symm ▸ h.pos, hlen.symm ▸ h.le⟩
    split_ifs with h0 hmin
    · exact Or.inr h
    · have hcons : Sized (consume r.register app (pending (fill chunk t)) (fill chunk t)).2 :=
        (callback_changes (r.weaken fun _ => False.elim) _ (happ.consume _ _) _).keeps sized_change
          ⟨hsized.pos, hsized.le⟩
      generalize consume r.register app (pending (fill chunk t)) (fill chunk t) = o at hcons ⊢
      obtain ⟨v, t'⟩ := o
      have hready : Ready { t' with received := 0 } := ⟨⟨hcons.pos, hcons.le⟩, hcons.pos⟩
      cases v with
      | error => exact Or.inl rfl
      | ok => exact Or.inr hready
      | done => exact Or.inr hready
      | temporaryError => exact Or.inr hready
    · have hle := h.le
      refine Or.inr ⟨hsized, ?_⟩
      rw [hlen]
      exact lt_of_lt_of_le (Nat.not_le.mp hmin) hle

theorem alongReads_ready (happ : Restricted Roomy app) (n : ℕ) (kernel : List ReadOutcome)
    {t : StreamTransportBase M σ} (h : Ready t) : AlongReads r.register app RoomAt n kernel t := by
  induction n generalizing kernel t with
  | zero => trivial
  | succ n ih =>
    refine ⟨h.roomAt _, fun hok => ih kernel.tail ?_⟩
    refine (readOnce_ready r happ h _).resolve_left fun herr => ?_
    rw [hok] at herr
    cases herr

theorem readLoop_ready (happ : Restricted Roomy app) (n : ℕ) (kernel : List ReadOutcome)
    {t : StreamTransportBase M σ} (h : Ready t) :
    (readLoop r.register app n kernel t).1 = .error ∨ Ready (readLoop r.register app n kernel t).2 := by
  induction n generalizing kernel t with
  | zero => exact Or.inr h
  | succ n ih =>
    rw [readLoop_succ]
    have hread := readOnce_ready r happ h (kernel.headD (.failed true))
    split_ifs with hok
    · refine ih kernel.tail (hread.resolve_left fun herr => ?_)
      rw [hok] at herr
      cases herr
    · exact hread

/-- The invariant of sessions. -/
def Open (s : Session M σ) : Prop := s.failed = false → Ready s.transport

theorem open_step (happ : Restricted Roomy app) (s : Session M σ) (e : Event) (h : Open s) :
    Open (Session.step r.register app s e) := by
  unfold Session.step
  split_ifs with hf
  · exact h
  have hready := h (Bool.eq_false_of_not_eq_true hf)
  have hr : ∀ {t t' : StreamTransportBase M σ}, Changes Roomy t t' → Ready t → Ready t' :=
    fun hc => hc.keeps ready_change
  cases e with
  | readEvent kernel =>
    intro hopen
    exact (readLoop_ready r happ _ kernel hready).resolve_left (of_decide_eq_false hopen)
  | writeEvent kernel =>
    intro _
    refine writeLoop_keeps (fun t => hr ?_) ready_write _ kernel s.transport hready
    exact fetchMoreData_changes (r.weaken fun _ => False.elim) happ.produce t
  | timeout id =>
    intro _
    exact hr (callback_changes (r.weaken fun _ => False.elim) _ (happ.handleTimeout _ id) _) hready
  | enqueue bytes =>
    intro _
    exact hr (call_changes (r.weaken fun _ => False.elim) _ (c := .enqueue bytes) trivial) hready
  | enqueueBuffer bytes spare =>
    intro _
    exact hr (call_changes (r.weaken fun _ => False.elim) _ (c := .enqueueBuffer bytes spare) trivial) hready

theorem open_start (happ : Restricted Roomy app) {s : σ} (hs : StartsReading app s) (m : M)
    (config : TransportConfig) : Open (Session.start r.register app m s config) := by
  intro _
  obtain ⟨p, hp⟩ := hs
  obtain ⟨before, after, hcalls⟩ := List.append_of_mem hp
  have hroomy : Roomy p := happ.init s _ hp
  change Ready ((app.init s).2.1.foldl (call r.register) _)
  rw [hcalls, List.foldl_append, List.foldl_cons]
  refine (calls_changes (r.weaken fun _ => False.elim) after (fun c hc => ?_) _).keeps ready_change
    (ready_configureNextRead hroomy _)
  exact happ.init s c (by rw [hcalls]; simp [hc])

/-- **With roomy policies every `recv` that finds data is given room.** -/
theorem room_of_roomy (happ : Restricted Roomy app) {s : σ} (hs : StartsReading app s) (m : M)
    (config : TransportConfig) (es : List Event) :
    Along (Session.step r.register app) (AtReads r.register app RoomAt)
      (Session.start r.register app m s config) es := by
  have hopen := always_of_step (open_step r happ) es (open_start r happ hs m config)
  refine hopen.along (D := fun _ _ => True) (fun s e h _ => ?_) (along_of_forall (fun _ _ => trivial) _ _)
  cases e with
  | readEvent kernel => exact fun hf => alongReads_ready r happ _ kernel (h hf)
  | writeEvent | timeout | enqueue | enqueueBuffer => trivial

end Kept

/-! ### Policies without room -/

section CutOff

variable (reg : Register M σ) (app : NextLayer σ)

/-- A byte that the policy in force still waits for others with. -/
theorem readLoop_byte {t : StreamTransportBase M σ} (hroom : t.received < t.readBuffer.length)
    (hmin : t.received + 1 < t.minReadSize) (x : UInt8) (n : ℕ) :
    (readLoop reg app (n + 1) [.data [x]] t).1 ≠ .error ∧
      (readLoop reg app (n + 1) [.data [x]] t).2 = fill [x] t := by
  have hsize : t.readBufferSize = t.readBuffer.length - t.received := subSize_of_le hroom.le
  have hchunk : chunkOf t [x] = [x] := by
    have hmax : 1 ≤ maxRwCount := by decide
    exact List.take_of_length_le (le_min (by rw [hsize]; exact Nat.sub_pos_of_lt hroom) hmax)
  have hread : readOnce reg app (.data [x]) t = (.ok, fill [x] t) := by
    unfold readOnce
    rw [handleReadResult_data reg app hroom.le, hchunk, if_neg (by simp),
      if_neg (show ¬ t.minReadSize ≤ t.received + [x].length from Nat.not_le.mpr hmin)]
  rw [readLoop_succ, List.headD_cons, hread, if_pos rfl]
  cases n with
  | zero => exact ⟨by simp [readLoop], rfl⟩
  | succ n =>
    -- there is nothing more to read
    have hempty : readOnce reg app (.failed true) (fill [x] t) = (.temporaryError, fill [x] t) := rfl
    rw [readLoop_succ, List.tail_cons, List.headD_nil, hempty]
    exact ⟨by simp, rfl⟩

/-- A read event that finds a byte and has no room for it. -/
theorem not_endedByPeer {t : StreamTransportBase M σ} (hfull : t.received = t.readBuffer.length)
    (hreads : 0 < t.config.maxConsecutiveReads) :
    ¬ EndedByPeer reg app ⟨t, false⟩ (.readEvent [.data [0]]) := by
  rw [endedByPeer_iff reg app ⟨t, false⟩ (e := .readEvent [.data [0]]) (by simp [Genuine, Delivers])]
  intro h
  obtain ⟨n, hn⟩ := Nat.exists_eq_succ_of_ne_zero hreads.ne'
  have hpass := h rfl
  change AlongReads reg app RoomAt t.config.maxConsecutiveReads _ t at hpass
  rw [hn] at hpass
  refine hpass.1 ?_
  rw [readBufferSize, subSize_of_le hfull.le, hfull, Nat.sub_self]

/-- **A policy without room cuts the stream off**: while it is in force, data alone ends the stream. -/
theorem cut_off {t : StreamTransportBase M σ} (hsized : ¬ Sized t)
    (hroom : t.received ≤ t.readBuffer.length) (hreads : 0 < t.config.maxConsecutiveReads) :
    ∃ kernels : List (List ReadOutcome), (∀ kernel ∈ kernels, Delivers kernel ∧ .closed ∉ kernel) ∧
      ¬ Along (Session.step reg app) (EndedByPeer reg app) ⟨t, false⟩ (kernels.map .readEvent) := by
  have hbyte : Delivers [.data [0]] ∧ .closed ∉ [ReadOutcome.data [0]] := by simp [Delivers]
  -- by induction on the room that is left
  obtain ⟨k, hk⟩ : ∃ k, t.readBuffer.length = t.received + k := Nat.exists_eq_add_of_le hroom
  induction k generalizing t with
  | zero =>
    refine ⟨[[.data [0]]], by simpa using hbyte, fun h => ?_⟩
    exact not_endedByPeer reg app (hk.trans (Nat.add_zero _)).symm hreads h.1
  | succ k ih =>
    have hlt : t.received < t.readBuffer.length := by omega
    have hmin : t.readBuffer.length < t.minReadSize := by
      by_contra hle
      exact hsized ⟨by omega, Nat.not_lt.mp hle⟩
    obtain ⟨n, hn⟩ := Nat.exists_eq_succ_of_ne_zero hreads.ne'
    obtain ⟨hv, ht⟩ := readLoop_byte reg app hlt (by omega) 0 n
    have hfill : (fill [0] t).readBuffer.length = t.readBuffer.length := length_fill (Nat.succ_le_of_lt hlt)
    have hreceived : (fill [0] t).received = t.received + 1 := rfl
    obtain ⟨kernels, hall, hcut⟩ := ih (t := fill [0] t)
      (fun h => absurd (hfill ▸ h.le : t.minReadSize ≤ t.readBuffer.length) (by omega))
      (by rw [hfill, hreceived]; omega) hreads (by rw [hfill, hreceived]; omega)
    refine ⟨[.data [0]] :: kernels, ?_, fun h => hcut ?_⟩
    · intro kernel hmem
      rcases List.mem_cons.mp hmem with rfl | hmem
      · exact hbyte
      · exact hall kernel hmem
    · have hstep : Session.step reg app ⟨t, false⟩ (.readEvent [.data [0]]) = ⟨fill [0] t, false⟩ := by
        change Session.answered (readLoop reg app t.config.maxConsecutiveReads [.data [0]] t) = _
        rw [hn, Session.answered, ht, decide_eq_false hv]
      have hrest := h.2
      rw [hstep] at hrest
      exact hrest

end CutOff

/-! ### Runs -/

/-- **The end of the stream.** For every application and every run: the read events that answer `done`
have met the end of the stream exactly if every `recv` that finds data is given room; and it is, if the
application configures its first read and only policies that leave room to reach their minimum. -/
theorem ended_by_peer_iff (app : NextLayer σ) (s : σ) (config : TransportConfig) (es : List Event)
    (hes : ∀ e ∈ es, Genuine e) :
    (Along (Session.step eventRegister app) (EndedByPeer eventRegister app)
        (Session.start eventRegister app Operation.none s config) es ↔
      Along (Session.step eventRegister app) (AtReads eventRegister app RoomAt)
        (Session.start eventRegister app Operation.none s config) es) ∧
    (Restricted Roomy app → StartsReading app s →
      Along (Session.step eventRegister app) (AtReads eventRegister app RoomAt)
        (Session.start eventRegister app Operation.none s config) es) := by
  refine ⟨?_, fun happ hs => room_of_roomy (eventRegistration σ) happ hs Operation.none config es⟩
  generalize Session.start eventRegister app Operation.none s config = t
  induction es generalizing t with
  | nil => rfl
  | cons e es ih =>
    have he := endedByPeer_iff eventRegister app t (hes e (by simp))
    exact and_congr he (ih (fun e' he' => hes e' (by simp [he'])) _)

theorem pairLayer_roomy (verdict : ManagerResult) : Restricted Roomy (pairLayer verdict) := by
  refine ⟨fun s c hc => ?_, by simp [pairLayer], by simp [NextLayer.Produces, pairLayer],
    by simp [pairLayer]⟩
  obtain rfl := List.mem_singleton.mp hc
  exact ⟨by decide, by decide⟩

/-- Three bytes and the end of the stream. -/
theorem ended_by_peer_pairs :
    Along (Session.step eventRegister (pairLayer .ok)) (EndedByPeer eventRegister (pairLayer .ok))
      (Session.start eventRegister (pairLayer .ok) Operation.none () {})
      [.readEvent [.data [1], .data [2, 3]], .readEvent [.closed]] :=
  have h := ended_by_peer_iff (pairLayer .ok) () {}
    [.readEvent [.data [1], .data [2, 3]], .readEvent [.closed]] (by simp [Genuine, Delivers])
  h.1.mpr (h.2 (pairLayer_roomy .ok) ⟨.exactly 2, by simp [pairLayer]⟩)

/-- A next layer that pauses after what it reads first. -/
def pausingLayer : NextLayer Unit where
  init s := (s, [.configureNextRead (.upTo 4)], true)
  hasMoreData _ := false
  produce s := (s, [], .ok)
  consume s _ := (s, [.configureNextRead .stop], .ok)
  handleTimeout s _ := (s, [], .ok)

/-- A byte that arrives while reading is paused ends the stream, although the peer has not closed. -/
theorem paused_is_ended :
    ¬ ∀ (app : NextLayer Unit) (es : List Event), (∀ e ∈ es, Genuine e) →
      Along (Session.step eventRegister app) (EndedByPeer eventRegister app)
        (Session.start eventRegister app Operation.none () {}) es := by
  intro h
  have hrun := h pausingLayer [.readEvent [.data [1], .failed true], .readEvent [.data [2]]]
    (by simp [Genuine, Delivers])
  revert hrun
  decide +kernel

end NetworkDriver.Net.StreamTransport.Reads
