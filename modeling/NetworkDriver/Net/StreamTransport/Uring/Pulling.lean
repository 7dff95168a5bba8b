import NetworkDriver.Net.StreamTransport.Uring.Outgoing

/-! # An application that only produces

The address in a `writev` is that of the array behind `iovecs_`, and it is read in `io_uring_submit`. An
`enqueue` in between may move the array. An application that enqueues from `produce` only is safe from
this: `fetch_more_data` runs in front of a submission, with none outstanding for writing, so the array
moves only while the kernel has no address of it.

* `Anchored`: the array has room for the iovecs, and every address that waits is that of the array.
* `enableBy_anchored`, `completion_anchored`: the two places that fetch.
* `pulling_anchored`: any run. -/

namespace NetworkDriver.Net.StreamTransport.Uring.Pulling

open NetworkDriver.Library.Run
open NetworkDriver.Net.Types NetworkDriver.Net.Multiplexer.Base
open NetworkDriver.Net.Multiplexer.Uring.Model NetworkDriver.Net.Multiplexer.Uring.Submissions
open NetworkDriver.Net.StreamTransport.Model hiding Event
open NetworkDriver.Net.StreamTransport.Callbacks
open NetworkDriver.Net.StreamTransport.Queue (removeLoop_frame)
open NetworkDriver.Net.StreamTransport.Uring.Model NetworkDriver.Net.StreamTransport.Uring.Callbacks
open NetworkDriver.Net.StreamTransport.Uring.Single
open StreamTransportBase

variable {σ : Type}

/-! ### Applications -/

/-- The call enqueues nothing. -/
def Quiet : Call → Prop
  | .enqueue _ => False
  | .enqueueBuffer _ _ => False
  | _ => True

instance : (c : Call) → Decidable (Quiet c)
  | .enqueue _ | .enqueueBuffer _ _ => .isFalse id
  | .configureNextRead _ | .registerReading | .registerWriting => .isTrue trivial

/-- The application enqueues from `produce` only. -/
structure Pulls (app : NextLayer σ) : Prop where
  init : ∀ s, ∀ c ∈ (app.init s).2.1, Quiet c
  consume : ∀ s span, ∀ c ∈ (app.consume s span).2.1, Quiet c
  handleTimeout : ∀ s id, ∀ c ∈ (app.handleTimeout s id).2.1, Quiet c

/-! ### Room -/

/-- The array has room for the iovecs. -/
def Roomy (t : Stream σ) : Prop := t.iovecs.length ≤ t.manager.capacity

theorem grow_roomy (t : Stream σ) : Roomy (grow t) := by
  unfold grow
  split_ifs with h
  · exact h
  · exact le_max_left _ _

theorem grow_of_roomy {t : Stream σ} (h : Roomy t) : grow t = t := if_pos h

theorem emplaced_of_roomy (op : Operation) {t : Stream σ} (h : Roomy t) : emplaced op t = t := by
  unfold emplaced
  split_ifs
  · exact grow_of_roomy h
  · rfl

/-- Calls keep room, if registering for writing makes room. -/
theorem roomy_callable {reg : Register Line σ} (hwrite : ∀ t, Roomy (reg .write t))
    (hread : ∀ t, Roomy t → Roomy (reg .read t)) : Callable reg (fun _ => True) Roomy where
  nextLayer _ _ ht := ht
  call c t _ ht := by
    cases c with
    | configureNextRead p => exact ht
    | enqueue bytes => exact hwrite _
    | enqueueBuffer bytes spare => exact hwrite _
    | registerReading => exact hread t ht
    | registerWriting => exact hwrite t

theorem innerRegister_roomy : Callable (σ := σ) innerRegister (fun _ => True) Roomy := by
  refine roomy_callable (fun t => ?_) fun t ht => ?_
  · exact grow_roomy t
  · exact registerBy_keeps ht (enableBy_keeps (fun _ _ ht => ht) ht fun _ _ => ht)

variable (app : NextLayer σ)

theorem fetch_roomy {reg : Register Line σ} (hreg : Callable reg (fun _ => True) Roomy) {t : Stream σ}
    (ht : Roomy t) : Roomy (fetchMoreData reg app t).2 :=
  hreg.fetchMoreData (fun _ _ _ => trivial) ht

theorem register_roomy : Callable (register app) (fun _ => True) Roomy := by
  have hregister : ∀ op (t : Stream σ), Roomy (emplaced op t) → Roomy (register app op t) := by
    intro op t ht
    refine registerBy_keeps ht (enableBy_keeps (fun _ _ ht => ht) ht fun new _ => ?_)
    have hfetched : Roomy (fetchMoreData innerRegister app (maskSet new (emplaced op t))).2 :=
      fetch_roomy app innerRegister_roomy ht
    unfold enable
    dsimp only
    split_ifs
    · exact ht
    · exact hfetched
    · exact hfetched
    · exact ht
  exact roomy_callable (fun t => hregister .write t (grow_roomy t)) fun t ht => hregister .read t ht

/-! ### The invariant -/

/-- The address that waits is that of the array, which has as many iovecs as were submitted. -/
def Held (t : Stream σ) : Entry → Prop
  | .prepared array count => array = t.manager.array ∧ count ≤ t.iovecs.length
  | _ => True

/-- **The invariant.** -/
structure Anchored (t : Stream σ) : Prop where
  room : Roomy t
  held : ∀ e ∈ t.manager.entries, Held t e
  current : t.manager.dangling = false

theorem held_of_other {e : Entry} (h : serves e ≠ Operation.write) (t : Stream σ) : Held t e := by
  cases e with
  | prepared array count => exact absurd rfl h
  | _ => trivial

/-- With nothing outstanding for writing, no address waits. -/
theorem anchored_idle {t : Stream σ} (hroom : Roomy t) (hcurrent : t.manager.dangling = false)
    (hnone : outstanding Operation.write t.manager = 0) : Anchored t := by
  refine ⟨hroom, fun e he => held_of_other (fun hserves => ?_) t, hcurrent⟩
  exact List.count_eq_zero.mp hnone (List.mem_map.mpr ⟨e, he, hserves⟩)

/-- The rest of the transport does not matter. -/
theorem Anchored.congr {t t' : Stream σ} (h : Anchored t) (hmanager : t'.manager = t.manager)
    (hiovecs : t'.iovecs = t.iovecs) : Anchored t' := by
  refine ⟨?_, fun e he => ?_, by rw [hmanager]; exact h.current⟩
  · unfold Roomy
    rw [hmanager, hiovecs]
    exact h.room
  · rw [hmanager] at he
    have hheld := h.held e he
    cases e with
    | prepared array count => exact ⟨hmanager ▸ hheld.1, hiovecs ▸ hheld.2⟩
    | _ => trivial

theorem anchored_port (port : Multiplexer.Uring.Managers.Port) (t : Stream σ) (h : Anchored t) :
    Anchored { t with manager := { t.manager with port := port } } := ⟨h.room, h.held, h.current⟩

/-- The submissions that a transport makes. -/
theorem anchored_submit {t : Stream σ} {entry : Entry} (hfresh : Fresh t entry) (h : Anchored t) :
    Anchored (appended entry t) := by
  refine ⟨h.room, fun e he => ?_, h.current⟩
  rcases List.mem_append.mp he with he | he
  · exact h.held e he
  · obtain rfl := List.mem_singleton.mp he
    cases hfresh with
    | writev => exact ⟨rfl, le_rfl⟩
    | _ => trivial

theorem submitBy_anchored {f : Manager → Ring → (Bool × UInt64) × Ring} {t : Stream σ} {entry : Entry}
    (hfresh : Fresh t entry) (h : Anchored t) : Anchored (submitBy f entry t).2 :=
  submitBy_keeps anchored_port h (anchored_submit hfresh h)

theorem submitRead_anchored {t : Stream σ} (h : Anchored t) : Anchored (submitRead t).2 :=
  submitBy_anchored .read h

theorem submitWritev_anchored {t : Stream σ} (h : Anchored t) : Anchored (submitWritev t).2 :=
  submitBy_anchored .writev h

/-! ### Registrations -/

/-- Only `io_uring_submit` finds out about an array that was left. -/
theorem current_rule : Rule (fun _ => True) (fun t : Stream σ => t.manager.dangling = false) where
  change _ _ _ hmanager ht := by
    rw [hmanager]
    exact ht
  port _ _ ht := ht
  grow t ht := by
    unfold grow
    split_ifs
    · exact ht
    · exact ht
  submit _ _ _ ht := ht

/-- What registrations from callbacks keep. -/
structure Sane (reg : Register Line σ) : Prop where
  stays : ∀ op (t : Stream σ), Stays Operation.write t.manager (reg op t).manager
  room : Callable reg (fun _ => True) Roomy
  current : ∀ op (t : Stream σ), t.manager.dangling = false → (reg op t).manager.dangling = false

theorem innerRegister_sane : Sane (σ := σ) innerRegister :=
  ⟨innerRegister_stays sided_write, innerRegister_roomy, fun op _ => current_rule.innerRegister op⟩

theorem register_sane : Sane (register app) :=
  ⟨register_stays app sided_write, register_roomy app, current_rule.register (NextLayer.produces_true app)⟩

/-- **With nothing outstanding, `fetch_more_data` may move the array.** -/
theorem fetch_anchored {reg : Register Line σ} (hreg : Sane reg) {t : Stream σ} (h : Anchored t)
    (hc : t.manager.port.mask.contains Operation.write = true)
    (hnone : outstanding Operation.write t.manager = 0) : Anchored (fetchMoreData reg app t).2 := by
  have hstays := fetchMoreData_manager app hreg.stays t
  refine anchored_idle (fetch_roomy app hreg.room h.room) ?_ ((hstays.count hc).trans hnone)
  exact (current_rule.callable hreg.current).fetchMoreData (NextLayer.produces_true app) h.current

/-- **`enable`.** -/
theorem enableBy_anchored {reg : Register Line σ} (hreg : Sane reg) (op : Operation) {t : Stream σ}
    (h : Anchored t) (harmed : Armed Operation.write t.manager) :
    Anchored (enableBy (enable reg app) op t) := by
  refine enableBy_keeps anchored_port h fun new hadd => ?_
  have hset : Anchored (maskSet new t) := anchored_port _ t h
  unfold enable
  split_ifs with hread hwrite
  · exact submitRead_anchored hset
  · subst hwrite
    obtain ⟨hold, hnew, -⟩ := contains_maskAdd hadd
    have hnone : outstanding Operation.write (maskSet new t).manager = 0 :=
      harmed.resolve_right fun hone => by rw [hold] at hone; exact absurd hone.2 (by decide)
    have hfetched := fetch_anchored app hreg hset hnew hnone
    dsimp only
    split_ifs
    · exact hfetched
    · exact submitWritev_anchored hfetched
  · exact hset

/-- **A quiet call.** -/
theorem quiet_callable : Callable (register app) Quiet
    (fun t => Anchored t ∧ Armed Operation.write t.manager) := by
  have hstays := register_stays app sided_write
  have hregister : ∀ op (t : Stream σ), Anchored t ∧ Armed Operation.write t.manager →
      Anchored (register app op t) ∧ Armed Operation.write (register app op t).manager := by
    intro op t ⟨h, harmed⟩
    refine ⟨?_, (hstays op t).armed harmed⟩
    unfold register
    rw [emplaced_of_roomy op h.room]
    exact registerBy_keeps h (enableBy_anchored app innerRegister_sane op h harmed)
  constructor
  · exact fun s t h => ⟨h.1.congr rfl rfl, h.2⟩
  · intro c t hc h
    cases c with
    | configureNextRead p => exact ⟨h.1.congr rfl rfl, h.2⟩
    | enqueue bytes => exact hc.elim
    | enqueueBuffer bytes spare => exact hc.elim
    | registerReading => exact hregister .read t h
    | registerWriting => exact hregister .write t h

/-! ### Events -/

/-- The calls from outside are quiet, too. -/
def Untouched : Event → Prop
  | .call c => Quiet c
  | _ => True

instance : (e : Event) → Decidable (Untouched e)
  | .call c => inferInstanceAs (Decidable (Quiet c))
  | .enable _ | .timeout _ | .ring _ | .submit _ | .read _ _ | .write _ _ | .poll _ | .complete _ _ =>
    .isTrue trivial

/-- An entry leaves. -/
theorem passed_anchored {t : Stream σ} (h : Anchored t) (k : ℕ) (op : Operation) (bytes : List UInt8) :
    Anchored (passed k op bytes t) :=
  ⟨h.room, fun e he => h.held e (List.mem_of_mem_eraseIdx he), h.current⟩

/-- Another entry in the place of one. -/
theorem set_anchored {t : Stream σ} (h : Anchored t) (k : ℕ) {entry : Entry}
    (hheld : ∀ t : Stream σ, Held t entry) : Anchored (setEntry k entry t) := by
  refine ⟨h.room, fun e he => ?_, h.current⟩
  rcases List.mem_or_eq_of_mem_set he with he | rfl
  · exact h.held e he
  · exact hheld _

theorem handleWriteResult_iovecs (res : ℤ) (temporary : Bool) (t : Stream σ) :
    ∃ n, (handleWriteResult res temporary t).2.iovecs = t.iovecs.drop n := by
  unfold handleWriteResult removeWrittenDataFromQueue
  split_ifs
  · exact ⟨0, rfl⟩
  · exact ⟨0, rfl⟩
  · exact ⟨0, rfl⟩
  · obtain ⟨memory, cache, hloop⟩ := removeLoop_frame t.writeQueue res.toNat
      { t with numEnqueuedBytes := subSize t.numEnqueuedBytes res.toNat }
    dsimp only
    rw [hloop]
    exact ⟨_, rfl⟩

/-- **The result of a write**, with nothing outstanding any more. -/
theorem handleWriteResult_anchored (res : ℤ) (temporary : Bool) {t : Stream σ} (h : Anchored t)
    (hnone : outstanding Operation.write t.manager = 0) : Anchored (handleWriteResult res temporary t).2 := by
  have hmanager := handleWriteResult_manager res temporary t
  obtain ⟨n, hiovecs⟩ := handleWriteResult_iovecs res temporary t
  refine anchored_idle ?_ (by rw [hmanager]; exact h.current) (by rw [hmanager]; exact hnone)
  unfold Roomy
  rw [hmanager, hiovecs, List.length_drop]
  exact (Nat.sub_le _ _).trans h.room

/-- **A completion for writing**, after which none is outstanding. -/
theorem submitWriteAgain_anchored {t : Stream σ} (h : Anchored t)
    (hc : t.manager.port.mask.contains Operation.write = true)
    (hnone : outstanding Operation.write t.manager = 0) : Anchored (submitWriteAgain app t).2 := by
  have hfetched := fetch_anchored app (register_sane app) h hc hnone
  unfold submitWriteAgain
  dsimp only
  split_ifs
  · exact hfetched
  · exact submitWritev_anchored hfetched

variable {app}

/-- **The dispatch of a completion.** -/
theorem dispatch_anchored (happ : Pulls app) {t : Stream σ} (h : Anchored t)
    (harmed : Armed Operation.write t.manager) {k : ℕ} {op : Operation} {res : ℤ} {bytes : List UInt8}
    (hk : t.manager.entries[k]? = some (.finished op res bytes)) (temporary : Bool) :
    Anchored (dispatch app k op res bytes temporary t) := by
  have hpassed := passed_anchored h k op bytes
  have hleft := outstanding_passed Operation.write hk op bytes
  change _ = _ + if served op = Operation.write then 1 else 0 at hleft
  suffices hdone : Anchored (handleCompletion app op res temporary (passed k op bytes t)).2 from
    settle_keeps anchored_port op _ hdone
  unfold handleCompletion
  by_cases hserved : served op = Operation.write
  · rw [if_pos hserved] at hleft
    have hone : outstanding Operation.write t.manager = 1 ∧ _ := harmed.resolve_left fun h0 => by omega
    have hnone : outstanding Operation.write (passed k op bytes t).manager = 0 := by omega
    rcases of_served_write hserved with rfl | rfl
    · rw [if_neg (by decide), if_neg (by decide), if_pos rfl]
      have hwritten := handleWriteResult_anchored res temporary hpassed hnone
      have hmanager := handleWriteResult_manager res temporary (passed k Operation.write bytes t)
      generalize handleWriteResult res temporary (passed k Operation.write bytes t) = o at hwritten hmanager
      obtain ⟨v, t'⟩ := o
      dsimp only at hwritten hmanager
      cases v with
      | ok => exact submitWriteAgain_anchored app hwritten (hmanager ▸ hone.2) (hmanager ▸ hnone)
      | done => exact hwritten
      | error => exact hwritten
      | temporaryError =>
        exact submitBy_anchored (f := Ring.submitPollWrite) (.poll Operation.pollWrite (by decide)) hwritten
    · rw [if_neg (by decide), if_neg (by decide), if_neg (by decide), if_pos rfl]
      exact submitWriteAgain_anchored app hpassed hone.2 hnone
  · rw [if_neg hserved, add_zero] at hleft
    have hstill : Armed Operation.write (passed k op bytes t).manager :=
      (stays_of_eq rfl hleft.symm : Stays Operation.write t.manager (passed k op bytes t).manager).armed harmed
    have hread := ((quiet_callable app).afterRead (fun t _ _ _ h => ⟨h.1.congr rfl rfl, h.2⟩) happ.consume res
      temporary ⟨hpassed, hstill⟩).1
    split_ifs with _ _ hwrite hpoll
    · generalize handleReadResult (register app) app res temporary (passed k op bytes t) = o at hread
      obtain ⟨v, t'⟩ := o
      dsimp only at hread
      cases v with
      | ok => exact submitRead_anchored hread
      | done => exact hread
      | error => exact hread
      | temporaryError =>
        exact submitBy_anchored (f := Ring.submitPollRead) (.poll Operation.pollRead (by decide)) hread
    · exact submitRead_anchored hpassed
    · exact absurd (by rw [hwrite]; decide) hserved
    · exact absurd (by rw [hpoll]; decide) hserved
    · exact hpassed

/-- **Every event.** -/
theorem step_anchored (happ : Pulls app) (t : Stream σ) (e : Event) (h : Anchored t)
    (harmed : Armed Operation.write t.manager) (he : Untouched e) : Anchored (step app t e) := by
  have hquiet := quiet_callable app
  cases e with
  | enable op => exact enableBy_anchored app (register_sane app) op h harmed
  | call c => exact (hquiet.call c t he ⟨h, harmed⟩).1
  | timeout id => exact (hquiet.callback (happ.handleTimeout t.nextLayer id) ⟨h, harmed⟩).1
  | ring r => exact anchored_port _ t h
  | submit k =>
    unfold step
    dsimp only
    split
    · rename_i array count hk
      obtain ⟨harray, hcount⟩ : Held t (.prepared array count) := h.held _ (List.mem_of_getElem? hk)
      unfold importIovecs
      rw [if_pos ⟨harray, hcount⟩]
      exact set_anchored h k fun _ => trivial
    · exact h
  | read k outcome =>
    unfold step
    dsimp only
    split
    · unfold transferRead
      cases outcome with
      | data bytes =>
        refine set_anchored ?_ k fun _ => trivial
        exact h.congr rfl rfl
      | closed => exact set_anchored h k fun _ => trivial
      | failed temporary => exact set_anchored h k fun _ => trivial
    · exact h
  | write k outcome =>
    unfold step
    dsimp only
    split
    · unfold transferWrite
      cases outcome <;> exact set_anchored h k fun _ => trivial
    · exact h
  | poll k =>
    unfold step
    dsimp only
    split
    · exact set_anchored h k fun _ => trivial
    · exact h
  | complete k temporary =>
    unfold step
    dsimp only
    split
    · rename_i op res bytes hk
      exact dispatch_anchored happ h harmed hk temporary
    · exact h

theorem start_anchored (happ : Pulls app) (mgr : Manager) (ring : Ring) (s : σ) (config : TransportConfig) :
    Anchored (start app ⟨mgr, Operation.none, ring⟩ s config) := by
  have hfresh : Anchored { fresh (⟨⟨mgr, Operation.none, ring⟩, 0, 0, [], false⟩ : Line) (app.init s).1 {} with
      config := config } := ⟨le_refl 0, (fun _ he => by cases he), rfl⟩
  exact ((quiet_callable app).calls (happ.init s) ⟨hfresh, .inl rfl⟩).1

/-- Every address that waits is found. -/
theorem Anchored.placed {t : Stream σ} (h : Anchored t) (e : Event) : Outgoing.Placed t e := by
  cases e with
  | submit k =>
    intro entry hk
    have hheld := h.held entry (List.mem_of_getElem? hk)
    cases entry with
    | prepared array count => exact hheld.1
    | _ => trivial
  | _ => trivial

/-- **An application that only produces.** In any run without temporary errors of `writev`, the array
that a `writev` points to is there when the kernel reads it; and if the writes are clean, nothing is
lost, duplicated or reordered. -/
theorem pulling_faithful (happ : Pulls app) (mgr : Manager) (ring : Ring) (s : σ) (config : TransportConfig)
    (es : List Event) (huntouched : ∀ e ∈ es, Untouched e)
    (hplain : Along (step app) (Unhindered Operation.write)
      (start app ⟨mgr, Operation.none, ring⟩ s config) es) :
    Always (step app) (fun t => t.manager.dangling = false)
        (start app ⟨mgr, Operation.none, ring⟩ s config) es ∧
      (Along (step app) Outgoing.Clean (start app ⟨mgr, Operation.none, ring⟩ s config) es →
        Always (step app) Outgoing.Sent (start app ⟨mgr, Operation.none, ring⟩ s config) es) := by
  have hkept := always_of_along (I := fun t => Anchored t ∧ Armed Operation.write t.manager)
    (fun t e h he => ⟨step_anchored happ t e h.1 h.2 he.1, step_armed app sided_write t e h.2 he.2⟩)
    ⟨start_anchored happ mgr ring s config, start_armed app sided_write mgr ring s config⟩
    ((along_of_mem _ huntouched).and hplain)
  refine ⟨hkept.imp fun _ h => h.1.current, fun hclean => ?_⟩
  have hplaced := hkept.along (C := Outgoing.Placed) (fun t e h _ => h.1.placed e) hclean
  exact (Outgoing.outgoing_run app mgr ring s config hplaced hclean hplain).imp fun _ h => h.1.sent h.2

/-- An application with two messages, the second of which it has only when the first was fetched. -/
def messagesLayer : NextLayer ℕ where
  init s := (s, [.configureNextRead (.exactly 2)], true)
  hasMoreData s := s < 2
  produce s := (s + 1, [.enqueue [1, 2, 3]], .ok)
  consume s _ := (s, [.registerWriting], .ok)
  handleTimeout s _ := (s, [], .ok)

theorem messagesLayer_pulls : Pulls messagesLayer := by
  refine ⟨fun s c hc => ?_, fun s span c hc => ?_, fun s id c hc => ?_⟩
  · obtain rfl := List.mem_singleton.mp hc
    trivial
  · obtain rfl := List.mem_singleton.mp hc
    trivial
  · cases hc

/-- Both messages are fetched at once and written one by one, with a read in between. -/
theorem pulling_faithful_messages :
    Always (step messagesLayer) (fun t => t.manager.dangling = false)
        (start messagesLayer ⟨⟨0, 3⟩, Operation.none, Ring.empty⟩ 0 {})
        [.enable Operation.read, .enable Operation.write, .submit 1, .write 1 (.took 3), .complete 1 false,
          .read 0 (.data [7, 7]), .complete 0 false, .submit 0, .write 0 (.took 3), .complete 0 false] ∧
      Always (step messagesLayer) Outgoing.Sent
        (start messagesLayer ⟨⟨0, 3⟩, Operation.none, Ring.empty⟩ 0 {})
        [.enable Operation.read, .enable Operation.write, .submit 1, .write 1 (.took 3), .complete 1 false,
          .read 0 (.data [7, 7]), .complete 0 false, .submit 0, .write 0 (.took 3), .complete 0 false] :=
  have h := pulling_faithful messagesLayer_pulls ⟨0, 3⟩ Ring.empty 0 {}
    [.enable Operation.read, .enable Operation.write, .submit 1, .write 1 (.took 3), .complete 1 false,
      .read 0 (.data [7, 7]), .complete 0 false, .submit 0, .write 0 (.took 3), .complete 0 false]
    (by decide) (by decide +kernel)
  ⟨h.1, h.2 (by decide +kernel)⟩

end NetworkDriver.Net.StreamTransport.Uring.Pulling
