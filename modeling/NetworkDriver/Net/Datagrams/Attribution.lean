import NetworkDriver.Net.Datagrams.Incoming

/-! # Where the bytes of a span came from

A span is handed to `consume` with the sender of the last datagram in it. `Attributed`: all its bytes
came from this sender, and no byte is handed over twice. The second part always holds (`Collected`,
`Handed`); the first one does as long as no datagram joins bytes of another peer in the buffer
(`SameSource`).

* `readLoop_sourced_iff`: one read event, exactly.
* `attributed_iff`: whole runs, exactly. -/

namespace NetworkDriver.Net.Datagrams.Attribution

open NetworkDriver.Library.Run
open NetworkDriver.Net.Types NetworkDriver.Net.Datagrams.Model NetworkDriver.Net.Datagrams.Callbacks
open NetworkDriver.Net.Datagrams.Incoming
open NetworkDriver.Net.StreamTransport.Model (TransportConfig)
open DatagramTransport

variable {M σ : Type} {P : ReceivePolicy → Prop}

/-! ### Bytes of datagrams -/

/-- The byte is the one at its origin. -/
def Genuine (arrived : List (Endpoint × List UInt8)) (b : Byte) : Prop :=
  ∃ o payload, b.origin = some o ∧ arrived[o.datagram]? = some (o.source, payload) ∧
    payload[o.pos]? = some b.value

/-- Genuine bytes, each at most once. -/
structure Distinct (arrived : List (Endpoint × List UInt8)) (bytes : List Byte) : Prop where
  genuine : ∀ b ∈ bytes, Genuine arrived b
  once : (bytes.map Byte.origin).Nodup

theorem Distinct.left {arrived : List (Endpoint × List UInt8)} {bytes bytes' : List Byte}
    (h : Distinct arrived (bytes ++ bytes')) : Distinct arrived bytes := by
  refine ⟨fun b hb => h.genuine b (List.mem_append_left _ hb), ?_⟩
  have honce := h.once
  rw [List.map_append] at honce
  exact honce.of_append_left

theorem mem_marked {source : Endpoint} {n : ℕ} {payload : List UInt8} {b : Byte}
    (h : b ∈ marked source n payload) :
    ∃ pos, b.origin = some ⟨source, n, pos⟩ ∧ payload[pos]? = some b.value := by
  obtain ⟨pos, hpos, rfl⟩ := List.mem_mapIdx.mp h
  exact ⟨pos, rfl, List.getElem?_eq_getElem hpos⟩

theorem nodup_marked (source : Endpoint) (n : ℕ) (payload : List UInt8) :
    ((marked source n payload).map Byte.origin).Nodup := by
  have heq : (marked source n payload).map Byte.origin =
      (List.range payload.length).map fun pos => some ⟨source, n, pos⟩ := by
    refine List.ext_getElem ?_ fun i _ _ => ?_
    · simp [marked]
    · simp [marked]
  rw [heq]
  refine List.nodup_range.map fun i j hij => ?_
  injection hij with hij
  injection hij

/-- **The bytes of a new datagram** are new. -/
theorem Distinct.append {arrived : List (Endpoint × List UInt8)} {bytes : List Byte}
    (h : Distinct arrived bytes) (source : Endpoint) (payload : List UInt8) (k : ℕ) :
    Distinct (arrived ++ [(source, payload)])
      (bytes ++ (marked source arrived.length payload).take k) := by
  constructor
  · intro b hb
    rcases List.mem_append.mp hb with hb | hb
    · obtain ⟨o, payload', ho, harrived, hvalue⟩ := h.genuine b hb
      refine ⟨o, payload', ho, ?_, hvalue⟩
      rw [List.getElem?_append_left (List.getElem?_eq_some_iff.mp harrived).1]
      exact harrived
    · obtain ⟨pos, ho, hvalue⟩ := mem_marked (List.mem_of_mem_take hb)
      exact ⟨_, payload, ho, List.getElem?_concat_length, hvalue⟩
  · rw [List.map_append]
    refine h.once.append ?_ ?_
    · exact ((List.take_sublist k _).map _).nodup (nodup_marked source _ payload)
    · intro o ho ho'
      -- the old bytes are of datagrams that had arrived before
      obtain ⟨b, hb, rfl⟩ := List.mem_map.mp ho
      obtain ⟨b', hb', heq⟩ := List.mem_map.mp ho'
      obtain ⟨o, payload', horigin, harrived, -⟩ := h.genuine b hb
      obtain ⟨pos, horigin', -⟩ := mem_marked (List.mem_of_mem_take hb')
      have hlt := (List.getElem?_eq_some_iff.mp harrived).1
      rw [horigin, horigin'] at heq
      obtain rfl := Option.some.inj heq
      exact lt_irrefl _ hlt

/-! ### Attribution -/

/-- All bytes handed to `consume`, in order. -/
def delivered (t : DatagramTransport M σ) : List Byte := t.trace.consumed.flatMap Prod.fst

/-- Every span has only bytes of the endpoint it was handed over with. -/
def Sourced (t : DatagramTransport M σ) : Prop :=
  ∀ c ∈ t.trace.consumed, ∀ b ∈ c.1, b.origin.map Origin.source = some c.2

/-- The bytes handed over were received, each of them once. -/
def Handed (t : DatagramTransport M σ) : Prop := Distinct t.trace.arrived (delivered t)

/-- **Every span consists of bytes received from its endpoint, and no byte is in two places.** -/
def Attributed (t : DatagramTransport M σ) : Prop := Sourced t ∧ Handed t

/-- The invariant between two reads: the pending bytes are new. -/
structure Collected (t : DatagramTransport M σ) : Prop where
  room : Room t
  bytes : Distinct t.trace.arrived (delivered t ++ pending t)

/-- If the datagram completes `min_size`, it comes from where the pending bytes came from. -/
def SameSource (t : DatagramTransport M σ) : ReadOutcome → Prop
  | .datagram source payload =>
    t.minReadSize ≤ t.received + min (t.readBuffer.length - t.received) payload.length →
      ∀ b ∈ pending t, b.origin.map Origin.source = some source
  | .failed _ => True

theorem Collected.handed {t : DatagramTransport M σ} (h : Collected t) : Handed t := h.bytes.left

theorem Handed.collected {t : DatagramTransport M σ} (h : Handed t) :
    Collected { t with received := 0 } := by
  refine ⟨Nat.zero_le _, ?_⟩
  unfold pending
  rw [List.take_zero, List.append_nil]
  exact h

/-! ### What does not read -/

/-- Changes neither hand over bytes nor receive any. -/
theorem change_trace (t t' : DatagramTransport M σ) (hc : Change P t t') :
    t'.trace.consumed = t.trace.consumed ∧ t'.trace.arrived = t.trace.arrived := by
  cases hc <;> exact ⟨rfl, rfl⟩

theorem sourced_change (t t' : DatagramTransport M σ) (hc : Change P t t') : Sourced t' ↔ Sourced t := by
  unfold Sourced
  rw [(change_trace t t' hc).1]

theorem handed_change (t t' : DatagramTransport M σ) (hc : Change P t t') (h : Handed t) : Handed t' := by
  unfold Handed delivered
  rw [(change_trace t t' hc).1, (change_trace t t' hc).2]
  exact h

theorem collected_change (t t' : DatagramTransport M σ) (hc : Change P t t') (h : Collected t) :
    Collected t' := by
  cases hc with
  | configureNextRead p =>
    refine ⟨Nat.zero_le _, ?_⟩
    unfold pending
    rw [show (t.configureNextRead p).received = 0 from rfl, List.take_zero, List.append_nil]
    exact h.handed
  | manager m => exact ⟨h.room, h.bytes⟩
  | nextLayer s => exact ⟨h.room, h.bytes⟩
  | push buf ep heap cache => exact ⟨h.room, h.bytes⟩
  | markSubmitted i d id => exact ⟨h.room, h.bytes⟩

theorem sourced_changes {t t' : DatagramTransport M σ} (hc : Changes P t t') : Sourced t' ↔ Sourced t := by
  induction hc with
  | refl => exact Iff.rfl
  | tail _ hc ih => exact (sourced_change _ _ hc).trans ih

/-- What a `sendto` and its result leave alone. -/
theorem send_frame {I : DatagramTransport M σ → Prop}
    (hI : ∀ t bytes cache queue sent, I t →
      I { t with
        numEnqueuedBytes := bytes, bufferCache := cache, writeQueue := queue
        trace := { t.trace with sent := sent } })
    (t : DatagramTransport M σ) (d : Datagram) (outcome : SendOutcome) (h : I t) :
    I ((t.sendto d outcome).2.2.handleWriteResult (toInt (t.sendto d outcome).1)
      (t.sendto d outcome).2.1 0 d).2 := by
  have hsend : ∃ sent, (t.sendto d outcome).2.2 = { t with trace := { t.trace with sent := sent } } := by
    cases outcome with
    | failed temporary => exact ⟨t.trace.sent, rfl⟩
    | sent =>
      unfold sendto
      split_ifs
      · exact ⟨_, rfl⟩
      · exact ⟨t.trace.sent, rfl⟩
  obtain ⟨sent, hsend⟩ := hsend
  have hsame := hI t t.numEnqueuedBytes t.bufferCache t.writeQueue sent h
  rw [hsend]
  generalize toInt (t.sendto d outcome).1 = writeRes
  unfold handleWriteResult written returnBuffer
  dsimp only
  split_ifs
  · exact hI t t.numEnqueuedBytes t.bufferCache _ sent h
  · exact hsame
  · exact hsame
  · exact hI t _ _ _ sent h
  · exact hI t _ _ _ sent h

/-! ### One turn -/

section Turn

variable (r : Registration (fun _ => True) M σ) (app : NextLayer σ)

theorem consume_sourced_iff (span : List Byte) (source : Endpoint) (t : DatagramTransport M σ) :
    Sourced (consume r.register app span source t).2 ↔
      Sourced t ∧ ∀ b ∈ span, b.origin.map Origin.source = some source := by
  refine (sourced_changes (callback_changes r _ (allowed_true _) _)).trans ?_
  unfold Sourced
  dsimp only
  rw [List.forall_mem_append, List.forall_mem_singleton]

theorem consume_handed (span : List Byte) (source : Endpoint) {t : DatagramTransport M σ}
    (h : Distinct t.trace.arrived (delivered t ++ span)) :
    Handed (consume r.register app span source t).2 := by
  refine (callback_changes r _ (allowed_true _) _).keeps handed_change ?_
  unfold Handed delivered
  dsimp only
  rw [List.flatMap_append, List.flatMap_singleton]
  exact h

/-- What handing over leaves behind. -/
theorem handed_collected {o : ManagerResult × DatagramTransport M σ} (h : Handed o.2) :
    Handed (handed o).2 ∧ ((handed o).1 ≠ .error → Collected (handed o).2) := by
  unfold handed
  by_cases herr : o.1 = .error
  · rw [if_pos herr]
    exact ⟨h, fun hne => absurd herr hne⟩
  · rw [if_neg herr]
    exact ⟨h, fun _ => h.collected⟩

theorem handed_sourced (o : ManagerResult × DatagramTransport M σ) :
    Sourced (handed o).2 ↔ Sourced o.2 := by
  unfold handed
  split_ifs <;> exact Iff.rfl

variable {t : DatagramTransport M σ}

theorem fill_bytes (h : Collected t) (source : Endpoint) (payload : List UInt8) :
    Distinct (fill source payload (chunkOf t source payload) t).trace.arrived
      (delivered t ++ (pending t ++ chunkOf t source payload)) := by
  rw [← List.append_assoc]
  exact h.bytes.append source payload _

theorem fill_collected (h : Collected t) (source : Endpoint) (payload : List UInt8) :
    Collected (fill source payload (chunkOf t source payload) t) := by
  have hfits := chunkOf_fits h.room source payload
  refine ⟨room_fill hfits, ?_⟩
  rw [pending_fill hfits]
  exact fill_bytes h source payload

/-- **One turn hands over received bytes only**, and if the loop goes on, those left are new. -/
theorem readOnce_collected (h : Collected t) (outcome : ReadOutcome) :
    Handed (readOnce r.register app outcome t).2 ∧
      ((readOnce r.register app outcome t).1 ≠ .error →
        Collected (readOnce r.register app outcome t).2) := by
  cases outcome with
  | failed temporary => exact ⟨h.handed, fun _ => h⟩
  | datagram source payload =>
    rw [readOnce_eq _ _ h.room]
    split_ifs
    · have hcons := consume_handed r app (pending t ++ chunkOf t source payload) source
        (t := fill source payload (chunkOf t source payload) t) (fill_bytes h source payload)
      exact handed_collected hcons
    · exact ⟨(fill_collected h source payload).handed, fun _ => fill_collected h source payload⟩

/-- **One turn, exactly.** -/
theorem readOnce_sourced_iff (h : Room t) (outcome : ReadOutcome) :
    Sourced (readOnce r.register app outcome t).2 ↔ Sourced t ∧ SameSource t outcome := by
  cases outcome with
  | failed temporary => exact ⟨fun hs => ⟨hs, trivial⟩, fun hs => hs.1⟩
  | datagram source payload =>
    have hchunk : ∀ b ∈ chunkOf t source payload, b.origin.map Origin.source = some source := by
      intro b hb
      obtain ⟨pos, ho, -⟩ := mem_marked (List.mem_of_mem_take hb)
      rw [ho]
      rfl
    rw [readOnce_eq _ _ h]
    unfold SameSource
    rw [length_chunkOf h]
    split_ifs with hmin
    · rw [handed_sourced, consume_sourced_iff, List.forall_mem_append]
      exact and_congr_right fun _ => ⟨fun hp _ => hp.1, fun hp => ⟨hp hmin, hchunk⟩⟩
    · exact ⟨fun hs => ⟨hs, fun hmin' => absurd hmin' hmin⟩, fun hs => hs.1⟩

/-! ### Read events -/

/-- The invariant of sessions; a `consume` that failed leaves its span behind. -/
def Inv (s : Session M σ) : Prop := Handed s.transport ∧ (s.failed = false → Collected s.transport)

theorem readLoop_collected (n : ℕ) (kernel : List ReadOutcome) (h : Collected t) :
    Inv (Session.answered (readLoop r.register app n kernel t)) := by
  induction n generalizing kernel t with
  | zero => exact ⟨h.handed, fun _ => h⟩
  | succ n ih =>
    rw [readLoop_succ]
    by_cases hspace : t.readBufferSize = 0
    · rw [if_pos hspace]
      exact ⟨h.handed, fun _ => h⟩
    · rw [if_neg hspace]
      have hread := readOnce_collected r app h (kernel.headD (.failed true))
      generalize readOnce r.register app (kernel.headD (.failed true)) t = o at hread ⊢
      obtain ⟨v, t'⟩ := o
      have hnext : v ≠ .error → Collected t' := hread.2
      cases v with
      | ok => exact ih kernel.tail (hnext (by decide))
      | temporaryError => exact ⟨hread.1, fun _ => hnext (by decide)⟩
      | done => exact ⟨hread.1, fun _ => hnext (by decide)⟩
      | error => exact ⟨hread.1, fun h => by cases h⟩

/-- **A read event, exactly.** -/
theorem readLoop_sourced_iff (n : ℕ) (kernel : List ReadOutcome) (h : Collected t) :
    Sourced (readLoop r.register app n kernel t).2 ↔
      Sourced t ∧ AlongReads r.register app SameSource n kernel t := by
  induction n generalizing kernel t with
  | zero => exact ⟨fun hs => ⟨hs, trivial⟩, fun hs => hs.1⟩
  | succ n ih =>
    rw [readLoop_succ]
    unfold AlongReads
    by_cases hspace : t.readBufferSize = 0
    · rw [if_pos hspace]
      exact ⟨fun hs => ⟨hs, fun hne => absurd hspace hne⟩, fun hs => hs.1⟩
    · rw [if_neg hspace, imp_iff_right hspace, ← and_assoc, ← readOnce_sourced_iff r app h.room]
      have hread := readOnce_collected r app h (kernel.headD (.failed true))
      generalize readOnce r.register app (kernel.headD (.failed true)) t = o at hread ⊢
      by_cases hok : o.1 = .ok
      · rw [if_pos hok, imp_iff_right hok]
        exact ih kernel.tail (hread.2 (by rw [hok]; decide))
      · rw [if_neg hok]
        exact ⟨fun hs => ⟨hs, fun hok' => absurd hok' hok⟩, fun hs => hs.1⟩

end Turn

/-! ### Runs -/

variable (r : Registration (fun _ => True) M σ) (app : NextLayer σ)

theorem inv_start (m : M) (s : σ) (beyond : ℕ → UInt8) (config : TransportConfig) :
    Inv (Session.start r.register app m s beyond config) := by
  have hstart := init_keeps r collected_change (fun s => allowed_true (app.init s).2.1) config
    (t := fresh m s beyond)
    ⟨Nat.zero_le _, ⟨fun _ hb => absurd hb List.not_mem_nil, List.nodup_nil⟩⟩
  exact ⟨hstart.handed, fun _ => hstart⟩

theorem sourced_start (m : M) (s : σ) (beyond : ℕ → UInt8) (config : TransportConfig) :
    Sourced (Session.start r.register app m s beyond config).transport :=
  init_keeps r (fun t t' hc => (sourced_change t t' hc).mpr) (fun _ => allowed_true _) config
    (t := fresh m s beyond) fun _ hc => absurd hc List.not_mem_nil

/-- One event keeps what is known about the bytes. -/
theorem inv_step (s : Session M σ) (e : Event) (h : Inv s) : Inv (s.step r.register app e) := by
  unfold Session.step
  by_cases hfailed : s.failed = true
  · rw [if_pos hfailed]
    exact h
  · rw [if_neg hfailed]
    have hs := h.2 (Bool.eq_false_of_not_eq_true hfailed)
    cases e with
    | readEvent kernel => exact readLoop_collected r app _ kernel hs
    | writeEvent kernel =>
      have hkeep : Collected (s.transport.handleWriteEvent r.register app kernel).2 :=
        writeLoop_keeps
          (fun t => (fetchMoreData_changes r (NextLayer.produces_true app) t).keeps collected_change)
          (fun t d outcome _ => send_frame (fun _ _ _ _ _ h => ⟨h.room, h.bytes⟩) t d outcome) _ kernel hs
      exact ⟨hkeep.handed, fun _ => hkeep⟩
    | timeout id =>
      have hkeep := (callback_changes r (app.handleTimeout s.transport.nextLayer id) (allowed_true _)
        s.transport).keeps collected_change hs
      exact ⟨hkeep.handed, fun _ => hkeep⟩
    | call c =>
      have hkeep := (call_changes r s.transport (Call.allowed_true c)).keeps collected_change hs
      exact ⟨hkeep.handed, fun _ => hkeep⟩

/-- **One event, exactly.** -/
theorem step_sourced_iff (s : Session M σ) (e : Event) (h : Inv s) (hs : Sourced s.transport) :
    Sourced (s.step r.register app e).transport ↔ AtReads r.register app SameSource s e := by
  unfold Session.step
  by_cases hfailed : s.failed = true
  · rw [if_pos hfailed]
    refine iff_of_true hs ?_
    cases e with
    | readEvent kernel =>
      intro hf
      rw [hfailed] at hf
      cases hf
    | writeEvent kernel => trivial
    | timeout id => trivial
    | call c => trivial
  · rw [if_neg hfailed]
    have hf := Bool.eq_false_of_not_eq_true hfailed
    cases e with
    | readEvent kernel =>
      unfold AtReads
      dsimp only
      rw [imp_iff_right hf]
      exact (readLoop_sourced_iff r app _ kernel (h.2 hf)).trans (and_iff_right hs)
    | writeEvent kernel =>
      refine iff_of_true ?_ trivial
      exact writeLoop_keeps
        (fun t => (sourced_changes (fetchMoreData_changes r (NextLayer.produces_true app) t)).mpr)
        (fun t d outcome _ => send_frame (fun _ _ _ _ _ h => h) t d outcome) _ kernel hs
    | timeout id =>
      exact iff_of_true ((sourced_changes (callback_changes r _ (allowed_true _) _)).mpr hs) trivial
    | call c => exact iff_of_true ((sourced_changes (call_changes r _ (Call.allowed_true c))).mpr hs) trivial

/-- **Source attribution.** In every run, whatever arrives and whatever the application configures:
every span that was handed to `consume` has only bytes received from its endpoint, and no byte was
handed over twice, if and only if no datagram that completed `min_size` joined bytes of another
peer. -/
theorem attributed_iff (m : M) (s : σ) (beyond : ℕ → UInt8) (config : TransportConfig)
    (es : List Event) :
    Always (Session.step r.register app) (fun s => Attributed s.transport)
        (Session.start r.register app m s beyond config) es ↔
      Along (Session.step r.register app) (AtReads r.register app SameSource)
        (Session.start r.register app m s beyond config) es := by
  have hinv := always_of_step (inv_step r app) es (inv_start r app m s beyond config)
  have hdomain : Along (Session.step r.register app) (fun s _ => Inv s)
      (Session.start r.register app m s beyond config) es :=
    hinv.along (D := fun _ _ => True) (fun _ _ h _ => h) (along_of_forall (fun _ _ => trivial) _ _)
  refine always_iff_along (fun s e h hI => ?_)
    ⟨sourced_start r app m s beyond config, (inv_start r app m s beyond config).1⟩ hdomain
  rw [← step_sourced_iff r app s e hI h.1]
  exact and_iff_left (inv_step r app s e hI).1

/-- A next layer that waits for four bytes. -/
def fourLayer : NextLayer Unit where
  init _ := ((), [.configureNextRead (.between 4 8), .registerReading], true)
  hasMoreData _ := false
  produce _ := ((), [], .ok)
  consume _ _ _ := ((), [], .ok)
  handleTimeout _ _ := ((), [], .ok)

/-- Two bytes of one peer and two of another are handed over as four bytes of the second. -/
theorem mixed_span :
    ¬ Attributed (run (Session.step eventRegister fourLayer)
      (Session.start eventRegister fourLayer Operation.none () (fun _ => 0) {})
      [.readEvent [.datagram ⟨1, 1⟩ [1, 2], .datagram ⟨2, 2⟩ [3, 4]]]).transport := by
  unfold Attributed Sourced
  intro h
  have hall : (run (Session.step eventRegister fourLayer)
      (Session.start eventRegister fourLayer Operation.none () (fun _ => 0) {})
      [.readEvent [.datagram ⟨1, 1⟩ [1, 2], .datagram ⟨2, 2⟩ [3, 4]]]).transport.trace.consumed =
      [([⟨1, some ⟨⟨1, 1⟩, 0, 0⟩⟩, ⟨2, some ⟨⟨1, 1⟩, 0, 1⟩⟩, ⟨3, some ⟨⟨2, 2⟩, 1, 0⟩⟩,
        ⟨4, some ⟨⟨2, 2⟩, 1, 1⟩⟩], ⟨2, 2⟩)] := by decide +kernel
  have hmixed := h.1 _ (by rw [hall]; exact List.mem_singleton_self _) ⟨1, some ⟨⟨1, 1⟩, 0, 0⟩⟩
    List.mem_cons_self
  cases hmixed

end NetworkDriver.Net.Datagrams.Attribution
