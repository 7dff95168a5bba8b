import NetworkDriver.Net.Datagrams.Pointers
import NetworkDriver.Net.Datagrams.Reception

/-! # Reception under both backends

Both transports track a receiver: the event-driven one whenever the datagrams fit
(`readLoop_tracks`), the io_uring one as long as no datagram arrives while bytes wait (`read_tracks`),
since it would be put over them. A socket hands out the datagrams that were sent to it in order
(`FromSocket`); the event-driven transport takes none while its read buffer has no room, the io_uring
transport does.

* `reception_agrees`: the two backends make the same calls of `consume`. -/

namespace NetworkDriver.Net.Datagrams.Backends

open NetworkDriver.Library.Run
open NetworkDriver.Net.Types NetworkDriver.Net.Datagrams.Model NetworkDriver.Net.Datagrams.Callbacks
open NetworkDriver.Net.Datagrams.Incoming NetworkDriver.Net.Datagrams.Attribution
open NetworkDriver.Net.Datagrams.Reception
open NetworkDriver.Net.StreamTransport.Model (TransportConfig)
open DatagramTransport Receiver

variable {M σ : Type}

/-! ### The socket -/

/-- What a read delivers. -/
def datagram? : ReadOutcome → Option (Endpoint × List UInt8)
  | .datagram source payload => some (source, payload)
  | .failed _ => none

/-- The reads deliver the datagrams that were sent in order, each of them once. -/
def FromSocket (ds : List (Endpoint × List UInt8)) (t : DatagramTransport M σ)
    (kernel : List ReadOutcome) : Prop :=
  kernel.filterMap datagram? <+: ds.drop t.trace.arrived.length

instance (ds : List (Endpoint × List UInt8)) (t : DatagramTransport M σ) (kernel : List ReadOutcome) :
    Decidable (FromSocket ds t kernel) :=
  inferInstanceAs (Decidable (kernel.filterMap datagram? <+: ds.drop t.trace.arrived.length))

/-- A run is over: `consume` answered `error`, or nothing failed and the next datagram would not be
received either. -/
def Finished {ε : Type} (step : Session M σ → ε → Session M σ) (read : ReadOutcome → ε)
    (ds : List (Endpoint × List UInt8)) (x : Session M σ) : Prop :=
  Rejected x.transport ∨ x.failed = false ∧ ∀ d ∈ ds[x.transport.trace.arrived.length]?,
    (step x (read (.datagram d.1 d.2))).transport.trace.arrived = x.transport.trace.arrived

instance {ε : Type} (step : Session M σ → ε → Session M σ) (read : ReadOutcome → ε)
    (ds : List (Endpoint × List UInt8)) (x : Session M σ) : Decidable (Finished step read ds x) :=
  inferInstanceAs (Decidable (_ ∨ x.failed = false ∧ ∀ d ∈ ds[x.transport.trace.arrived.length]?,
    (step x (read (.datagram d.1 d.2))).transport.trace.arrived = x.transport.trace.arrived))

section Socket

variable {ds : List (Endpoint × List UInt8)} {t t' : DatagramTransport M σ} {kernel : List ReadOutcome}

/-- What was received is a part of what was sent. -/
theorem FromSocket.received (h : FromSocket ds t kernel) (ht : t.trace.arrived <+: ds)
    {taken : List (Endpoint × List UInt8)} (htaken : taken <+: kernel.filterMap datagram?)
    (harrived : t'.trace.arrived = t.trace.arrived ++ taken) : t'.trace.arrived <+: ds := by
  obtain ⟨rest, rfl⟩ := ht
  have hrest : taken <+: rest := by
    have hdrop := htaken.trans h
    rwa [List.drop_left] at hdrop
  rw [harrived]
  exact (List.prefix_append_right_inj _).mpr hrest

end Socket

/-! ### The event-driven transport -/

theorem map_marked (source : Endpoint) (n : ℕ) (payload : List UInt8) :
    (marked source n payload).map Byte.value = payload := by
  refine List.ext_getElem (by simp [marked]) fun i _ _ => ?_
  simp [marked]

section Event

variable {s : Receiver} {strategy : Strategy} {t : DatagramTransport M σ}

/-- The datagram fits behind the bytes that wait. -/
def Fits (t : DatagramTransport M σ) : ReadOutcome → Prop
  | .datagram _ payload => payload.length ≤ t.readBufferSize
  | .failed _ => True

instance (t : DatagramTransport M σ) : (o : ReadOutcome) → Decidable (Fits t o)
  | .datagram _ payload => inferInstanceAs (Decidable (payload.length ≤ t.readBufferSize))
  | .failed _ => .isTrue trivial

theorem recvfrom_arrival {source : Endpoint} {payload : List UInt8}
    (hfits : payload.length ≤ t.readBufferSize) :
    Arrival source payload t (t.recvfrom (.datagram source payload)).2.2 := by
  refine ⟨rfl, rfl, rfl, fun s h => ?_⟩
  have hchunk : chunkOf t source payload = marked source t.trace.arrived.length payload :=
    List.take_of_length_le (by rw [length_marked]; exact hfits)
  have hroom := chunkOf_fits h.room source payload
  have hlen : (chunkOf t source payload).length = payload.length := by
    rw [hchunk, length_marked]
  rw [← hlen]
  change Reflects _ (fill source payload (chunkOf t source payload) t)
  refine ⟨room_fill hroom, h.minSize, (length_fill hroom).trans h.maxSize, ?_, h.consumed⟩
  rw [pending_fill hroom, List.map_append, h.pending, hchunk, map_marked]

variable (r : Registration (fun _ => False) M σ) (app : NextLayer σ)

theorem readOnce_tracks (ht : Tracks strategy s False t) {outcome : ReadOutcome} (hfits : Fits t outcome) :
    Tracks strategy s ((readOnce r.register app outcome t).1 = .error)
      (readOnce r.register app outcome t).2 := by
  cases outcome with
  | failed temporary => exact ht.imp False.elim
  | datagram source payload =>
    have hlen : (t.recvfrom (.datagram source payload)).2.1 = payload.length := by
      have hle : payload.length ≤ t.readBufferSize := hfits
      simp only [recvfrom, List.length_take, length_marked, Nat.min_eq_right hle]
    unfold readOnce
    rw [hlen]
    exact arrival_tracks r app (recvfrom_arrival hfits) ht false

theorem readLoop_tracks (n : ℕ) (kernel : List ReadOutcome) (ht : Tracks strategy s False t)
    (hfits : AlongReads r.register app Fits n kernel t) :
    Tracks strategy s ((readLoop r.register app n kernel t).1 = .error)
      (readLoop r.register app n kernel t).2 := by
  induction n generalizing kernel t with
  | zero => exact ht.imp False.elim
  | succ n ih =>
    rw [readLoop_succ]
    by_cases hspace : t.readBufferSize = 0
    · rw [if_pos hspace]
      exact ht.imp False.elim
    · rw [if_neg hspace]
      obtain ⟨hnow, hrest⟩ := hfits hspace
      have hread := readOnce_tracks r app ht hnow
      by_cases hok : (readOnce r.register app (kernel.headD (.failed true)) t).1 = .ok
      · rw [if_pos hok]
        refine ih kernel.tail (hread.imp fun herr => ?_) (hrest hok)
        rw [hok] at herr
        cases herr
      · rw [if_neg hok]
        exact hread

theorem handleReadResult_arrived (ep : Endpoint) (res : ℤ) (temporary : Bool)
    (t : DatagramTransport M σ) :
    (handleReadResult r.register app ep res temporary t).2.trace.arrived = t.trace.arrived :=
  handleReadResult_keeps (I := fun t' => t'.trace.arrived = t.trace.arrived)
    (fun _ _ _ h => (calls_sameTrace r _ _).arrived.trans h) (fun _ _ _ _ h => h) ep res temporary rfl

/-- One read receives what it delivers. -/
theorem readOnce_arrived (outcome : ReadOutcome) (t : DatagramTransport M σ) :
    (readOnce r.register app outcome t).2.trace.arrived =
      t.trace.arrived ++ (datagram? outcome).toList := by
  unfold readOnce
  rw [handleReadResult_arrived]
  cases outcome with
  | datagram source payload => rfl
  | failed temporary => exact (List.append_nil _).symm

/-- The loop receives the first of the datagrams that are delivered. -/
theorem readLoop_arrived (n : ℕ) (kernel : List ReadOutcome) (t : DatagramTransport M σ) :
    ∃ taken, taken <+: kernel.filterMap datagram? ∧
      (readLoop r.register app n kernel t).2.trace.arrived = t.trace.arrived ++ taken := by
  induction n generalizing kernel t with
  | zero => exact ⟨[], List.nil_prefix, (List.append_nil _).symm⟩
  | succ n ih =>
    have hsplit : kernel.filterMap datagram? =
        (datagram? (kernel.headD (.failed true))).toList ++ kernel.tail.filterMap datagram? := by
      cases kernel with
      | nil => rfl
      | cons outcome kernel =>
        rw [List.filterMap_cons]
        cases hd : datagram? outcome <;> simp [hd]
    have hread := readOnce_arrived r app (kernel.headD (.failed true)) t
    rw [readLoop_succ]
    split_ifs
    · exact ⟨[], List.nil_prefix, (List.append_nil _).symm⟩
    · obtain ⟨taken, htaken, hrest⟩ := ih kernel.tail
        (readOnce r.register app (kernel.headD (.failed true)) t).2
      refine ⟨(datagram? (kernel.headD (.failed true))).toList ++ taken, ?_, ?_⟩
      · rw [hsplit]
        exact (List.prefix_append_right_inj _).mpr htaken
      · rw [hrest, hread, List.append_assoc]
    · exact ⟨_, hsplit ▸ List.prefix_append _ _, hread⟩

/-- A read event takes a datagram that waits, if there is room for it. -/
theorem readLoop_takes {n : ℕ} (hn : 0 < n) (d : Endpoint × List UInt8) {t : DatagramTransport M σ}
    (hroom : t.readBufferSize ≠ 0) :
    (readLoop r.register app n [.datagram d.1 d.2] t).2.trace.arrived ≠ t.trace.arrived := by
  obtain ⟨n, rfl⟩ := Nat.exists_eq_succ_of_ne_zero hn.ne'
  have hread := readOnce_arrived r app (.datagram d.1 d.2) t
  have hlonger : ∀ rest : List (Endpoint × List UInt8),
      t.trace.arrived ++ [d] ++ rest ≠ t.trace.arrived := by
    intro rest h
    have hlen := congrArg List.length h
    rw [List.length_append, List.length_append, List.length_singleton] at hlen
    omega
  rw [Nat.succ_eq_add_one, readLoop_succ, if_neg hroom, List.headD_cons, List.tail_cons]
  split_ifs
  · obtain ⟨rest, -, hrest⟩ := readLoop_arrived r app n [] (readOnce r.register app (.datagram d.1 d.2) t).2
    rw [hrest, hread]
    exact hlonger rest
  · intro h
    exact hlonger [] ((List.append_nil _).trans (hread.symm.trans h))

/-- The calls from outside configure no policy. -/
def Quiet : Event → Prop
  | .call c => Call.Allowed (fun _ => False) c
  | _ => True

/-- The read events find what was sent. -/
def AtSocket (ds : List (Endpoint × List UInt8)) (x : Session M σ) : Event → Prop
  | .readEvent kernel => x.failed = false → FromSocket ds x.transport kernel
  | _ => True

instance AtSocket.decidable (ds : List (Endpoint × List UInt8)) (x : Session M σ) :
    (e : Event) → Decidable (AtSocket ds x e)
  | .readEvent kernel => inferInstanceAs (Decidable (x.failed = false → FromSocket ds x.transport kernel))
  | .writeEvent _ => .isTrue trivial
  | .timeout _ => .isTrue trivial
  | .call _ => .isTrue trivial

/-- Every other event leaves the read side as it is. -/
theorem step_sameReads (happ : ConfiguresOnRead app) (x : Session M σ) (e : Event) (hquiet : Quiet e)
    (hread : ∀ kernel, e ≠ .readEvent kernel) :
    SameReads x.transport (x.step r.register app e).transport := by
  unfold Session.step
  split_ifs
  · exact .refl _
  · cases e with
    | readEvent kernel => exact absurd rfl (hread kernel)
    | writeEvent kernel =>
      refine writeLoop_keeps (fun t h => ?_) (fun t d outcome _ h => ?_) _ kernel (.refl _)
      · exact h.trans (sameReads_changes (fetchMoreData_changes r happ.produce t))
      · exact send_frame (I := SameReads x.transport)
          (fun t bytes cache queue sent h => h.trans ⟨⟨rfl, rfl, rfl, rfl⟩, rfl, rfl, rfl⟩) t d outcome h
    | timeout id => exact sameReads_changes (callback_changes r _ (happ.handleTimeout _ id) _)
    | call c => exact sameReads_changes (call_changes r _ hquiet)

/-- **The event-driven transport refines a receiver.** -/
theorem step_tracks (happ : ConfiguresOnRead app) (x : Session M σ) (e : Event) (hquiet : Quiet e)
    (hfits : AtReads r.register app Fits x e)
    (hx : Tracks strategy s (x.failed = true) x.transport) :
    Tracks strategy s ((x.step r.register app e).failed = true) (x.step r.register app e).transport := by
  unfold Session.step
  by_cases hfailed : x.failed = true
  · rw [if_pos hfailed]
    exact hx
  · rw [if_neg hfailed]
    have ht : Tracks strategy s False x.transport := hx.imp hfailed
    cases e with
    | readEvent kernel =>
      have hread := readLoop_tracks r app x.transport.config.maxConsecutiveReads kernel ht
        (hfits (Bool.eq_false_of_not_eq_true hfailed))
      exact hread.imp fun herr => decide_eq_true herr
    | writeEvent kernel | timeout id | call c =>
      have hsame := step_sameReads r app happ x _ hquiet (fun _ h => by cases h)
      unfold Session.step at hsame
      rw [if_neg hfailed] at hsame
      exact hsame.tracks (ht.imp False.elim)

/-- What was received is a part of what was sent, after every event. -/
theorem step_received {ds : List (Endpoint × List UInt8)} (happ : ConfiguresOnRead app)
    (x : Session M σ) (e : Event) (hquiet : Quiet e) (hsocket : AtSocket ds x e)
    (hx : x.transport.trace.arrived <+: ds) :
    (x.step r.register app e).transport.trace.arrived <+: ds := by
  cases e with
  | readEvent kernel =>
    unfold Session.step
    by_cases hfailed : x.failed = true
    · rw [if_pos hfailed]
      exact hx
    · rw [if_neg hfailed]
      obtain ⟨taken, htaken, harrived⟩ :=
        readLoop_arrived r app x.transport.config.maxConsecutiveReads kernel x.transport
      exact (hsocket (Bool.eq_false_of_not_eq_true hfailed)).received hx htaken harrived
  | writeEvent kernel | timeout id | call c =>
    rw [(step_sameReads r app happ x _ hquiet (fun _ h => by cases h)).arrived]
    exact hx

/-- The settings stay as they are. -/
theorem step_config (happ : ConfiguresOnRead app) (x : Session M σ) (e : Event) (hquiet : Quiet e) :
    (x.step r.register app e).transport.config = x.transport.config := by
  by_cases hread : ∃ kernel, e = .readEvent kernel
  · obtain ⟨kernel, rfl⟩ := hread
    unfold Session.step
    split_ifs
    · rfl
    · exact readLoop_keeps (I := fun t => t.config = x.transport.config)
        (fun _ _ _ h => (calls_sameTrace r _ _).config.trans h) (fun _ _ _ _ h => h)
        (fun _ _ _ h => h) _ kernel rfl
  · exact (step_sameReads r app happ x e hquiet fun kernel h => hread ⟨kernel, h⟩).config

end Event

/-! ### The io_uring transport -/

section Uring

variable {s : Receiver} {strategy : Strategy} {t : DatagramTransport M σ}

/-- The datagram fits into the read buffer. -/
def FitsBuffer (t : DatagramTransport M σ) : ReadOutcome → Prop
  | .datagram _ payload => payload.length ≤ t.readBuffer.length
  | .failed _ => True

/-- No bytes wait, or none arrive; and a datagram that finds no room is not handed over. -/
def Alone (t : DatagramTransport M σ) : ReadOutcome → Prop
  | .datagram _ payload => (t.received = 0 ∨ payload = []) ∧
      (t.readBuffer.length ≤ t.received → t.received < t.minReadSize)
  | .failed _ => True

instance (t : DatagramTransport M σ) : (o : ReadOutcome) → Decidable (FitsBuffer t o)
  | .datagram _ payload => inferInstanceAs (Decidable (payload.length ≤ t.readBuffer.length))
  | .failed _ => .isTrue trivial

instance (t : DatagramTransport M σ) : (o : ReadOutcome) → Decidable (Alone t o)
  | .datagram _ payload => inferInstanceAs (Decidable ((t.received = 0 ∨ payload = []) ∧
      (t.readBuffer.length ≤ t.received → t.received < t.minReadSize)))
  | .failed _ => .isTrue trivial

theorem recvmsg_arrival {source : Endpoint} {payload : List UInt8}
    (hfits : payload.length ≤ t.readBuffer.length) (halone : t.received = 0 ∨ payload = []) :
    Arrival source payload t (t.recvmsg (.datagram source payload)).2 := by
  refine ⟨rfl, rfl, rfl, fun s h => ?_⟩
  have hmarked := length_marked source t.trace.arrived.length payload
  have hchunk : (marked source t.trace.arrived.length payload).take t.readBuffer.length =
      marked source t.trace.arrived.length payload :=
    List.take_of_length_le (by rw [hmarked]; exact hfits)
  have hbuffer : (t.recvmsg (.datagram source payload)).2.readBuffer =
      marked source t.trace.arrived.length payload ++ t.readBuffer.drop payload.length := by
    simp only [recvmsg, hchunk, hmarked]
  have hlen : (t.recvmsg (.datagram source payload)).2.readBuffer.length = t.readBuffer.length := by
    rw [hbuffer, List.length_append, hmarked, List.length_drop]
    omega
  have hpending : ((t.recvmsg (.datagram source payload)).2.readBuffer.take
      (t.received + payload.length)).map Byte.value = s.pending ++ payload := by
    rw [hbuffer]
    rcases halone with h0 | rfl
    · -- the datagram is put where the bytes that wait would be
      have hnone : s.pending = [] := List.eq_nil_of_length_eq_zero (h.length_pending.trans h0)
      rw [h0, Nat.zero_add, ← hmarked, List.take_left, map_marked, hnone, List.nil_append]
    · rw [List.append_nil]
      exact h.pending
  refine ⟨?_, h.minSize, hlen.trans h.maxSize, hpending, h.consumed⟩
  change t.received + payload.length ≤ _
  rw [hlen]
  rcases halone with h0 | rfl
  · omega
  · exact h.room

variable (port : Port M) (app : NextLayer σ)

/-- `handle_read_result` on what a completion of `recvmsg` delivers. -/
def readResult (outcome : ReadOutcome) (t : DatagramTransport M σ) :
    ManagerResult × DatagramTransport M σ :=
  handleReadResult (uringRegister port app) app (t.recvmsg outcome).2.readAddr (t.recvmsg outcome).1
    outcome.temporary (t.recvmsg outcome).2

/-- What follows the result submits, and reads nothing. -/
theorem sameReads_readResult (outcome : ReadOutcome) (t : DatagramTransport M σ) :
    (t.complete port app (.read outcome)).1 = (readResult port app outcome t).1 ∧
      SameReads (readResult port app outcome t).2 (t.complete port app (.read outcome)).2 := by
  unfold complete handleCompletion readResult
  dsimp only
  rw [if_pos rfl]
  generalize handleReadResult (uringRegister port app) app _ _ _ _ = o
  obtain ⟨v, t'⟩ := o
  cases v with
  | ok | temporaryError => exact ⟨rfl, sameReads_changes (submitOther_changes port _ t')⟩
  | done | error => exact ⟨rfl, .refl t'⟩

/-- The completion of a `recvmsg`. -/
theorem read_tracks (happ : ConfiguresOnRead app) (ht : Tracks strategy s False t)
    {outcome : ReadOutcome} (hfits : FitsBuffer t outcome) (halone : Alone t outcome) :
    Tracks strategy s ((t.complete port app (.read outcome)).1 = .error)
      (t.complete port app (.read outcome)).2 := by
  obtain ⟨hverdict, hsame⟩ := sameReads_readResult port app outcome t
  rw [hverdict]
  refine hsame.tracks ?_
  cases outcome with
  | failed temporary => exact ht.imp False.elim
  | datagram source payload =>
    have hlen : (t.recvmsg (.datagram source payload)).1 = payload.length := by
      have hle : payload.length ≤ t.readBuffer.length := hfits
      simp only [recvmsg, List.length_take, length_marked, Nat.min_eq_right hle]
    unfold readResult
    rw [hlen]
    exact arrival_tracks (uringRegistration port happ.produce) app (recvmsg_arrival hfits halone.1) ht
      false

/-- A completion receives what it delivers. -/
theorem read_arrived (happ : ConfiguresOnRead app) (outcome : ReadOutcome) (t : DatagramTransport M σ) :
    (t.complete port app (.read outcome)).2.trace.arrived =
      t.trace.arrived ++ (datagram? outcome).toList := by
  have hresult : (readResult port app outcome t).2.trace.arrived = (t.recvmsg outcome).2.trace.arrived :=
    handleReadResult_arrived (uringRegistration port happ.produce) app _ _ _ _
  rw [(sameReads_readResult port app outcome t).2.arrived, hresult]
  cases outcome with
  | datagram source payload => rfl
  | failed temporary => exact (List.append_nil _).symm

/-- An application that follows its strategy at a completion has done so before. -/
theorem read_follows (happ : ConfiguresOnRead app) (outcome : ReadOutcome)
    (hf : Follows strategy (t.complete port app (.read outcome)).2) : Follows strategy t := by
  have hresult := (sameReads_readResult port app outcome t).2.follows.mp hf
  cases outcome with
  | failed temporary => exact hresult
  | datagram source payload =>
    unfold readResult recvmsg at hresult
    rw [handleReadResult_eq] at hresult
    split_ifs at hresult
    · exact (consume_follows (uringRegistration port happ.produce) _ source
        ((handed_sameTrace _).follows.mp hresult)).1
    · exact hresult

/-- A datagram that finds no room is one that the receiver admits. -/
theorem Alone.admits (h : Reflects s t) {d : Endpoint × List UInt8}
    (hfits : FitsBuffer t (.datagram d.1 d.2)) (halone : Alone t (.datagram d.1 d.2)) : s.Admits d := by
  intro hfull
  rw [← h.maxSize, h.length_pending] at hfull
  have hmin := halone.2 hfull
  rw [h.minSize] at hmin
  refine ⟨?_, by rwa [h.length_pending]⟩
  rcases halone.1 with h0 | hnone
  · have hle : d.2.length ≤ t.readBuffer.length := hfits
    exact List.eq_nil_of_length_eq_zero (by omega)
  · exact hnone

/-- The calls from outside configure no policy. -/
def QuietCompletion : Completion M → Prop
  | .call c => Call.Allowed (fun _ => False) c
  | _ => True

/-- The condition holds at every read completion that is handled. -/
def AtCompletions (C : DatagramTransport M σ → ReadOutcome → Prop) (x : Session M σ) :
    Completion M → Prop
  | .read outcome => x.failed = false → C x.transport outcome
  | _ => True

instance AtCompletions.decidable {C : DatagramTransport M σ → ReadOutcome → Prop}
    [∀ t o, Decidable (C t o)] (x : Session M σ) : (e : Completion M) → Decidable (AtCompletions C x e)
  | .read outcome => inferInstanceAs (Decidable (x.failed = false → C x.transport outcome))
  | .pollRead => .isTrue trivial
  | .write _ _ _ => .isTrue trivial
  | .pollWrite => .isTrue trivial
  | .timeout _ => .isTrue trivial
  | .call _ => .isTrue trivial
  | .multiplexer _ => .isTrue trivial

/-- Every other completion leaves the read side as it is. -/
theorem completeStep_sameReads (happ : ConfiguresOnRead app) (x : Session M σ) (e : Completion M)
    (hquiet : QuietCompletion e) (hread : ∀ outcome, e ≠ .read outcome) :
    SameReads x.transport (x.completeStep port app e).transport := by
  unfold Session.completeStep
  split_ifs
  · exact .refl _
  · cases e with
    | read outcome => exact absurd rfl (hread outcome)
    | write res temporary id =>
      refine writeCompletion_keeps port happ.produce (fun t t' hc h => ?_)
        (fun t res temporary it d h => ?_) res temporary id (.refl _)
      · exact h.trans (sameReads_change t t' hc)
      · exact h.trans (sameReads_written t res temporary it d)
    | pollRead => exact sameReads_changes (poll_changes port happ.produce _ (.inl rfl))
    | pollWrite => exact sameReads_changes (poll_changes port happ.produce _ (.inr rfl))
    | timeout id =>
      exact sameReads_changes
        (callback_changes (uringRegistration port happ.produce) _ (happ.handleTimeout _ id) _)
    | call c => exact sameReads_changes (call_changes (uringRegistration port happ.produce) _ hquiet)
    | multiplexer m => exact sameReads_changes (Relation.ReflTransGen.single (Change.manager m _))

/-- **The io_uring transport refines a receiver**, if datagrams arrive alone. -/
theorem completeStep_tracks (happ : ConfiguresOnRead app) (x : Session M σ) (e : Completion M)
    (hquiet : QuietCompletion e) (hfits : AtCompletions FitsBuffer x e) (halone : AtCompletions Alone x e)
    (hx : Tracks strategy s (x.failed = true) x.transport) :
    Tracks strategy s ((x.completeStep port app e).failed = true)
      (x.completeStep port app e).transport := by
  by_cases hfailed : x.failed = true
  · unfold Session.completeStep
    rw [if_pos hfailed]
    exact hx
  · have ht : Tracks strategy s False x.transport := hx.imp hfailed
    have hf := Bool.eq_false_of_not_eq_true hfailed
    cases e with
    | read outcome =>
      unfold Session.completeStep
      rw [if_neg hfailed]
      exact (read_tracks port app happ ht (hfits hf) (halone hf)).imp fun herr => decide_eq_true herr
    | write res temporary id | pollRead | pollWrite | timeout id | call c | multiplexer m =>
      exact ((completeStep_sameReads port app happ x _ hquiet fun _ h => by cases h).tracks ht).imp
        False.elim

/-- What was received is a part of what was sent, after every completion. -/
theorem completeStep_received {ds : List (Endpoint × List UInt8)} (happ : ConfiguresOnRead app)
    (x : Session M σ) (e : Completion M) (hquiet : QuietCompletion e)
    (hsocket : AtCompletions (fun t outcome => FromSocket ds t [outcome]) x e)
    (hx : x.transport.trace.arrived <+: ds) :
    (x.completeStep port app e).transport.trace.arrived <+: ds := by
  cases e with
  | read outcome =>
    unfold Session.completeStep
    by_cases hfailed : x.failed = true
    · rw [if_pos hfailed]
      exact hx
    · rw [if_neg hfailed]
      refine (hsocket (Bool.eq_false_of_not_eq_true hfailed)).received hx ?_
        (read_arrived port app happ outcome x.transport)
      rw [List.filterMap_cons, List.filterMap_nil]
      cases datagram? outcome <;> exact List.prefix_refl _
  | write res temporary id | pollRead | pollWrite | timeout id | call c | multiplexer m =>
    rw [(completeStep_sameReads port app happ x _ hquiet fun _ h => by cases h).arrived]
    exact hx

/-- The datagrams that arrived are admitted, as long as the application follows its strategy. -/
def Admitting (strategy : Strategy) (s : Receiver) (t : DatagramTransport M σ) : Prop :=
  Follows strategy t → s.AdmitsAll strategy t.trace.arrived

theorem completeStep_admitting (happ : ConfiguresOnRead app) (x : Session M σ) (e : Completion M)
    (hquiet : QuietCompletion e) (hfits : AtCompletions FitsBuffer x e) (halone : AtCompletions Alone x e)
    (hx : Tracks strategy s (x.failed = true) x.transport) (hadmits : Admitting strategy s x.transport) :
    Admitting strategy s (x.completeStep port app e).transport := by
  cases e with
  | read outcome =>
    unfold Session.completeStep
    by_cases hfailed : x.failed = true
    · rw [if_pos hfailed]
      exact hadmits
    · rw [if_neg hfailed]
      intro hf
      have hbefore := read_follows port app happ outcome hf
      change s.AdmitsAll strategy (x.transport.complete port app (.read outcome)).2.trace.arrived
      rw [read_arrived port app happ, admitsAll_append]
      refine ⟨hadmits hbefore, ?_⟩
      cases outcome with
      | failed temporary => trivial
      | datagram source payload =>
        have hok := Bool.eq_false_of_not_eq_true hfailed
        exact ⟨Alone.admits ((hx hbefore).2 hfailed).1 (hfits hok) (halone hok), trivial⟩
  | write res temporary id | pollRead | pollWrite | timeout id | call c | multiplexer m =>
    have hsame := completeStep_sameReads port app happ x _ hquiet fun _ h => by cases h
    unfold Admitting
    rw [hsame.arrived, hsame.follows]
    exact hadmits

end Uring

/-! ### Runs -/

section Runs

variable {N : Type} (strategy : Strategy)

/-- The receiver of an application, after `init`. -/
def receiverOf (app : NextLayer σ) (s : σ) : Receiver :=
  ((app.init s).2.1.filterMap Call.policy?).foldl configure {}

theorem init_sameTrace (r : Registration (fun _ => False) M σ) (app : NextLayer σ) (m : M) (s : σ)
    (beyond : ℕ → UInt8) (config : TransportConfig) :
    SameTrace { (fresh m s beyond : DatagramTransport M σ) with config := config }
      (init r.register app config (fresh m s beyond)).2 := by
  have hcalls := calls_sameTrace r (app.init s).2.1
    { (fresh m s beyond : DatagramTransport M σ) with config := config, nextLayer := (app.init s).1 }
  exact ⟨hcalls.config, hcalls.arrived, hcalls.consumed, hcalls.answers⟩

theorem init_tracks (r : Registration (fun _ => False) M σ) (app : NextLayer σ) (m : M) (s : σ)
    (beyond : ℕ → UInt8) (config : TransportConfig) (failed : Prop) :
    Tracks strategy (receiverOf app s) failed (init r.register app config (fresh m s beyond)).2 := by
  have hfresh : Reflects {} { (fresh m s beyond : DatagramTransport M σ) with
      config := config, nextLayer := (app.init s).1 } := ⟨Nat.zero_le _, rfl, rfl, rfl, rfl⟩
  have hinit : Reflects (receiverOf app s) (init r.register app config (fresh m s beyond)).2 :=
    calls_reflects r (app.init s).2.1 hfresh
  have hnone : (init r.register app config (fresh m s beyond)).2.trace.arrived = [] :=
    (init_sameTrace r app m s beyond config).arrived
  unfold Tracks
  rw [hnone]
  exact fun _ => ⟨hinit.consumed, fun _ => ⟨hinit, fun hover => hover.1 (consumed_configure _ _)⟩⟩

variable (r : Registration (fun _ => False) M σ) (port : Port N) {app : NextLayer σ}

/-- The run of an event-driven transport. -/
abbrev eventRun (app : NextLayer σ) (m : M) (s : σ) (beyond : ℕ → UInt8) (config : TransportConfig)
    (es : List Event) : Session M σ :=
  run (Session.step r.register app) (Session.start r.register app m s beyond config) es

/-- The run of an io_uring transport. -/
abbrev uringRun (app : NextLayer σ) (n : N) (s : σ) (beyond : ℕ → UInt8) (config : TransportConfig)
    (cs : List (Completion N)) : Session N σ :=
  run (Session.completeStep port app) ⟨uringStart port app n s beyond config, false⟩ cs

section Finished

variable {strategy} {s : Receiver} {ds rest : List (Endpoint × List UInt8)} {d : Endpoint × List UInt8}

theorem getElem?_of_front {arrived : List (Endpoint × List UInt8)} (h : arrived ++ d :: rest <+: ds) :
    ds[arrived.length]? = some d := by
  obtain ⟨tail, rfl⟩ := h
  rw [List.append_assoc, List.getElem?_append_right (Nat.le_refl _), Nat.sub_self]
  rfl

/-- If there is more to receive after a finished run of the event-driven transport, the application
has refused, or there is no room. -/
theorem event_finished {x : Session M σ} (hx : Tracks strategy s (x.failed = true) x.transport)
    (hf : Follows strategy x.transport) (hreads : 0 < x.transport.config.maxConsecutiveReads)
    (hfinished : Finished (Session.step r.register app) (fun outcome => .readEvent [outcome]) ds x)
    (hmore : x.transport.trace.arrived ++ d :: rest <+: ds) :
    Over strategy (s.receiveAll strategy x.transport.trace.arrived).consumed ∨
      (s.receiveAll strategy x.transport.trace.arrived).maxSize ≤
        (s.receiveAll strategy x.transport.trace.arrived).pending.length := by
  obtain ⟨hspans, hruns⟩ := hx hf
  rcases hfinished with hrejected | ⟨hok, hidle⟩
  · left
    rw [← hspans]
    exact hf.rejected_iff_over.mp hrejected
  · right
    have hrefl := (hruns (Bool.not_eq_true _ ▸ hok)).1
    have hstays := hidle d (getElem?_of_front hmore)
    unfold Session.step at hstays
    rw [if_neg (Bool.not_eq_true _ ▸ hok)] at hstays
    have hfull : x.transport.readBufferSize = 0 :=
      not_not.mp fun hroom => readLoop_takes r app hreads d hroom hstays
    have hsize : x.transport.readBufferSize = x.transport.readBuffer.length - x.transport.received :=
      subSize_of_le hrefl.room
    rw [← hrefl.maxSize, hrefl.length_pending]
    omega

/-- If there is more to receive after a finished run of the io_uring transport, the application has
refused. -/
theorem uring_finished (happ : ConfiguresOnRead app) {x : Session N σ}
    (hx : Tracks strategy s (x.failed = true) x.transport) (hf : Follows strategy x.transport)
    (hfinished : Finished (Session.completeStep port app) .read ds x)
    (hmore : x.transport.trace.arrived ++ d :: rest <+: ds) :
    Over strategy (s.receiveAll strategy x.transport.trace.arrived).consumed := by
  rcases hfinished with hrejected | ⟨hok, hidle⟩
  · rw [← (hx hf).1]
    exact hf.rejected_iff_over.mp hrejected
  · have hstays := hidle d (getElem?_of_front hmore)
    unfold Session.completeStep at hstays
    rw [if_neg (Bool.not_eq_true _ ▸ hok)] at hstays
    have htaken := read_arrived port app happ (.datagram d.1 d.2) x.transport
    have hlen := congrArg List.length (hstays.symm.trans htaken)
    rw [List.length_append] at hlen
    exact absurd hlen (by simp [datagram?])

end Finished

/-- What a run of the event-driven transport keeps. -/
theorem eventRun_keeps (happ : ConfiguresOnRead app) (m : M) (s : σ) (beyond : ℕ → UInt8)
    (config : TransportConfig) (ds : List (Endpoint × List UInt8)) (es : List Event)
    (hquiet : Along (Session.step r.register app) (fun _ e => Quiet e)
      (Session.start r.register app m s beyond config) es)
    (hsocket : Along (Session.step r.register app) (AtSocket ds)
      (Session.start r.register app m s beyond config) es)
    (hfits : Along (Session.step r.register app) (AtReads r.register app Fits)
      (Session.start r.register app m s beyond config) es) :
    let x := eventRun r app m s beyond config es
    Tracks strategy (receiverOf app s) (x.failed = true) x.transport ∧
      x.transport.trace.arrived <+: ds ∧ x.transport.config = config := by
  have hstart := init_sameTrace r app m s beyond config
  refine (always_of_along (I := fun x : Session M σ =>
    Tracks strategy (receiverOf app s) (x.failed = true) x.transport ∧
      x.transport.trace.arrived <+: ds ∧ x.transport.config = config) (fun x e hx hc => ?_) ?_
    ((hquiet.and hsocket).and hfits)).last
  · exact ⟨step_tracks r app happ x e hc.1.1 hc.2 hx.1,
      step_received r app happ x e hc.1.1 hc.1.2 hx.2.1,
      (step_config r app happ x e hc.1.1).trans hx.2.2⟩
  · exact ⟨init_tracks strategy r app m s beyond config _, hstart.arrived ▸ List.nil_prefix,
      hstart.config⟩

/-- What a run of the io_uring transport keeps. -/
theorem uringRun_keeps (happ : ConfiguresOnRead app) (n : N) (s : σ) (beyond : ℕ → UInt8)
    (config : TransportConfig) (ds : List (Endpoint × List UInt8)) (cs : List (Completion N))
    (hquiet : Along (Session.completeStep port app) (fun _ e => QuietCompletion e)
      ⟨uringStart port app n s beyond config, false⟩ cs)
    (hsocket : Along (Session.completeStep port app)
      (AtCompletions fun t outcome => FromSocket ds t [outcome])
      ⟨uringStart port app n s beyond config, false⟩ cs)
    (hfits : Along (Session.completeStep port app) (AtCompletions FitsBuffer)
      ⟨uringStart port app n s beyond config, false⟩ cs)
    (halone : Along (Session.completeStep port app) (AtCompletions Alone)
      ⟨uringStart port app n s beyond config, false⟩ cs) :
    let x := uringRun port app n s beyond config cs
    Tracks strategy (receiverOf app s) (x.failed = true) x.transport ∧
      x.transport.trace.arrived <+: ds ∧ Admitting strategy (receiverOf app s) x.transport := by
  have hnone : (uringStart port app n s beyond config).trace.arrived = [] :=
    (init_sameTrace (uringRegistration port happ.produce) app n s beyond config).arrived
  refine (always_of_along (I := fun x : Session N σ =>
    Tracks strategy (receiverOf app s) (x.failed = true) x.transport ∧
      x.transport.trace.arrived <+: ds ∧ Admitting strategy (receiverOf app s) x.transport)
    (fun x e hx hc => ?_) ?_ ((hquiet.and hsocket).and (hfits.and halone))).last
  · exact ⟨completeStep_tracks port app happ x e hc.1.1 hc.2.1 hc.2.2 hx.1,
      completeStep_received port app happ x e hc.1.1 hc.1.2 hx.2.1,
      completeStep_admitting port app happ x e hc.1.1 hc.2.1 hc.2.2 hx.1 hx.2.2⟩
  · refine ⟨init_tracks strategy (uringRegistration port happ.produce) app n s beyond config _,
      hnone ▸ List.nil_prefix, fun _ => ?_⟩
    rw [hnone]
    trivial

/-- **The two backends agree on reception.** The same datagrams are sent to two sockets, one of which
is served by an event-driven transport and one by an io_uring transport, and the application answers
`consume` by the same strategy. If every datagram fits into the space offered and, under io_uring,
datagrams arrive alone, neither transport makes a call of `consume` that the other one has not made
at this place or will not have made there; and once both runs are over, their calls are the same. -/
theorem reception_agrees (happ : ConfiguresOnRead app) (m : M) (n : N) (s : σ)
    (beyond beyond' : ℕ → UInt8) (config config' : TransportConfig)
    (hreads : 0 < config.maxConsecutiveReads) (ds : List (Endpoint × List UInt8)) (es : List Event)
    (cs : List (Completion N))
    (hquiet : Along (Session.step r.register app) (fun _ e => Quiet e)
      (Session.start r.register app m s beyond config) es)
    (hsocket : Along (Session.step r.register app) (AtSocket ds)
      (Session.start r.register app m s beyond config) es)
    (hfits : Along (Session.step r.register app) (AtReads r.register app Fits)
      (Session.start r.register app m s beyond config) es)
    (hfollows : Follows strategy (eventRun r app m s beyond config es).transport)
    (hquiet' : Along (Session.completeStep port app) (fun _ e => QuietCompletion e)
      ⟨uringStart port app n s beyond' config', false⟩ cs)
    (hsocket' : Along (Session.completeStep port app)
      (AtCompletions fun t outcome => FromSocket ds t [outcome])
      ⟨uringStart port app n s beyond' config', false⟩ cs)
    (hfits' : Along (Session.completeStep port app) (AtCompletions FitsBuffer)
      ⟨uringStart port app n s beyond' config', false⟩ cs)
    (hfollows' : Follows strategy (uringRun port app n s beyond' config' cs).transport)
    (halone : Along (Session.completeStep port app) (AtCompletions Alone)
      ⟨uringStart port app n s beyond' config', false⟩ cs) :
    (spans (eventRun r app m s beyond config es).transport <+:
        spans (uringRun port app n s beyond' config' cs).transport ∨
      spans (uringRun port app n s beyond' config' cs).transport <+:
        spans (eventRun r app m s beyond config es).transport) ∧
    (Finished (Session.step r.register app) (fun outcome => .readEvent [outcome]) ds
        (eventRun r app m s beyond config es) →
      Finished (Session.completeStep port app) .read ds (uringRun port app n s beyond' config' cs) →
      spans (eventRun r app m s beyond config es).transport =
        spans (uringRun port app n s beyond' config' cs).transport) := by
  obtain ⟨hevent, hsent, hconfig⟩ :=
    eventRun_keeps strategy r happ m s beyond config ds es hquiet hsocket hfits
  obtain ⟨huring, hsent', hadmits⟩ :=
    uringRun_keeps strategy port happ n s beyond' config' ds cs hquiet' hsocket' hfits' halone
  rw [(hevent hfollows).1, (huring hfollows').1]
  rcases List.prefix_or_prefix_of_prefix hsent hsent' with ⟨rest, hrest⟩ | ⟨rest, hrest⟩
  · rw [← hrest, receiveAll_append]
    refine ⟨.inl (consumed_receiveAll _ rest), fun hfinished _ => ?_⟩
    cases rest with
    | nil => rfl
    | cons d rest =>
      have hmore := event_finished r hevent hfollows (by rw [hconfig]; exact hreads) hfinished
        (hrest.symm ▸ hsent' : _ ++ d :: rest <+: ds)
      have hadmitted := hadmits hfollows'
      rw [← hrest, admitsAll_append] at hadmitted
      rcases hmore with hover | hfull
      · rw [receiveAll_of_over hover]
      · rw [receiveAll_of_full hfull _ hadmitted.2]
  · rw [← hrest, receiveAll_append]
    refine ⟨.inr (consumed_receiveAll _ rest), fun _ hfinished' => ?_⟩
    cases rest with
    | nil => rfl
    | cons d rest =>
      rw [receiveAll_of_over (uring_finished port happ huring hfollows' hfinished' (hrest.symm ▸ hsent))]

end Runs

/-- A next layer that asks for two bytes, and then for three. -/
def growingLayer : NextLayer Unit where
  init _ := ((), [.configureNextRead (.between 2 8), .registerReading], true)
  hasMoreData _ := false
  produce _ := ((), [], .ok)
  consume _ _ _ := ((), [.configureNextRead (.between 3 8)], .ok)
  handleTimeout _ _ := ((), [], .ok)

theorem growingLayer_configuresOnRead : ConfiguresOnRead growingLayer :=
  ⟨fun _ _ hc => absurd hc List.not_mem_nil, fun _ _ _ hc => absurd hc List.not_mem_nil⟩

/-- A datagram of two bytes and one of three. -/
theorem reception_agrees_growing :
    spans (run (Session.step eventRegister growingLayer)
        (Session.start eventRegister growingLayer Operation.none () (fun _ => 0) {})
        [.readEvent [.datagram ⟨1, 1⟩ [1, 2], .datagram ⟨2, 2⟩ [3, 4, 5]]]).transport =
      spans (run (Session.completeStep Pointers.numberingPort growingLayer)
        ⟨uringStart Pointers.numberingPort growingLayer (Operation.none, 0) () (fun _ => 0) {}, false⟩
        [.read (.datagram ⟨1, 1⟩ [1, 2]), .read (.datagram ⟨2, 2⟩ [3, 4, 5])]).transport :=
  (reception_agrees (fun _ => ⟨[.between 3 8], .ok⟩) (eventRegistration Unit) Pointers.numberingPort
    growingLayer_configuresOnRead Operation.none (Operation.none, 0) () (fun _ => 0) (fun _ => 0) {} {}
    (by decide) [(⟨1, 1⟩, [1, 2]), (⟨2, 2⟩, [3, 4, 5])]
    [.readEvent [.datagram ⟨1, 1⟩ [1, 2], .datagram ⟨2, 2⟩ [3, 4, 5]]]
    [.read (.datagram ⟨1, 1⟩ [1, 2]), .read (.datagram ⟨2, 2⟩ [3, 4, 5])]
    ⟨trivial, trivial⟩ (by decide +kernel) (by decide +kernel) (by unfold Follows; decide +kernel)
    ⟨trivial, trivial, trivial⟩ (by decide +kernel) (by decide +kernel) (by unfold Follows; decide +kernel)
    (by decide +kernel)).2 (by decide +kernel) (by decide +kernel)

/-- The second datagram is put over the first: io_uring hands over other bytes than epoll. -/
theorem overlaid_span :
    let ds : List (Endpoint × List UInt8) := [(⟨1, 1⟩, [1, 2]), (⟨1, 1⟩, [3, 4])]
    let es : List Event := [.readEvent [.datagram ⟨1, 1⟩ [1, 2], .datagram ⟨1, 1⟩ [3, 4]]]
    let cs : List (Completion (Operation × UInt64)) :=
      [.read (.datagram ⟨1, 1⟩ [1, 2]), .read (.datagram ⟨1, 1⟩ [3, 4])]
    let x := Session.start eventRegister fourLayer Operation.none () (fun _ => 0) {}
    let y := ⟨uringStart Pointers.numberingPort fourLayer (Operation.none, 0) () (fun _ => 0) {}, false⟩
    (Along (Session.step eventRegister fourLayer) (AtSocket ds) x es ∧
      Along (Session.completeStep Pointers.numberingPort fourLayer)
        (AtCompletions fun t outcome => FromSocket ds t [outcome]) y cs) ∧
    (Along (Session.step eventRegister fourLayer) (AtReads eventRegister fourLayer Fits) x es ∧
      Along (Session.completeStep Pointers.numberingPort fourLayer) (AtCompletions FitsBuffer) y cs) ∧
    (Finished (Session.step eventRegister fourLayer) (fun outcome => .readEvent [outcome]) ds
        (run (Session.step eventRegister fourLayer) x es) ∧
      Finished (Session.completeStep Pointers.numberingPort fourLayer) .read ds
        (run (Session.completeStep Pointers.numberingPort fourLayer) y cs)) ∧
    spans (run (Session.step eventRegister fourLayer) x es).transport = [([1, 2, 3, 4], ⟨1, 1⟩)] ∧
    spans (run (Session.completeStep Pointers.numberingPort fourLayer) y cs).transport =
      [([3, 4, 0, 0], ⟨1, 1⟩)] := by
  decide +kernel

/-- A next layer that has stopped to read. -/
def stoppedLayer : NextLayer Unit where
  init _ := ((), [.configureNextRead .stop, .registerReading], true)
  hasMoreData _ := false
  produce _ := ((), [], .ok)
  consume _ _ _ := ((), [], .ok)
  handleTimeout _ _ := ((), [], .ok)

-- An empty datagram is handed over by io_uring only.
example :
    spans (eventRun (eventRegistration Unit) stoppedLayer Operation.none () (fun _ => 0) {}
      [.readEvent [.datagram ⟨1, 1⟩ []]]).transport = [] ∧
    spans (uringRun Pointers.numberingPort stoppedLayer (Operation.none, 0) () (fun _ => 0) {}
      [.read (.datagram ⟨1, 1⟩ [])]).transport = [([], ⟨1, 1⟩)] := by
  decide +kernel

end NetworkDriver.Net.Datagrams.Backends
