import NetworkDriver.Net.Multiplexer.Uring.Ports

/-! # The arming of managers under io_uring

A manager is armed if its mask and its outstanding submissions agree: for each operation that the
mask contains there is exactly one submission, itself or its poll form, and for the others there is
none. The multiplexer is armed if every registered manager is.

The code keeps this only in part: on a temporary error the poll is submitted and the flag is taken
away; a submission that finds the queue full is forgotten; the end of a multishot is not noticed; a
shutdown takes the flag for reading from a manager that is still writing, whose read stays in
flight; a poll for writing that ends the writing is answered by taking away the flag of the poll;
and an initial operation of several flags that `init` has enabled in part takes these flags away.
`Meets` is the condition on an event under which none of this happens.

* `step_armed`: an event that meets the condition keeps the multiplexer armed.
* `armed_always`: so does a run whose events meet it. -/

namespace NetworkDriver.Net.Multiplexer.Uring.Arming

open NetworkDriver.Library.Keyed NetworkDriver.Library.Results NetworkDriver.Library.Run
open NetworkDriver.Net.Types NetworkDriver.Net.Multiplexer.Base
open NetworkDriver.Net.Multiplexer.Uring.Submissions NetworkDriver.Net.Multiplexer.Uring.Managers
open NetworkDriver.Net.Multiplexer.Uring.Ports
open NetworkDriver.Net.StreamTransport.Callbacks (callback_manager call_manager)
open NetworkDriver.Net.StreamTransport.Model (NextLayer StreamTransportBase TransportConfig)

variable {σ : Type}

/-! ### The property -/

/-- The mask of a manager contains an operation if and only if exactly one submission for it is
outstanding, and more than one never is. -/
def ArmedAt (s : UringMultiplexer σ) (mgr : Manager) : Prop :=
  ∀ op ∈ submittable, ((s.mask mgr).contains op = true ↔ s.derived.ring.outstanding mgr op = 1) ∧
    s.derived.ring.outstanding mgr op ≤ 1

instance (s : UringMultiplexer σ) (mgr : Manager) : Decidable (ArmedAt s mgr) := by
  unfold ArmedAt; infer_instance

/-- Every registered manager is armed. -/
def Armed (s : UringMultiplexer σ) : Prop := ∀ mgr ∈ s.managers.elems, ArmedAt s mgr

instance (s : UringMultiplexer σ) : Decidable (Armed s) := by unfold Armed; infer_instance

/-! ### The condition -/

/-- No manager but the pipe reader waits for reading or accepting and for something else. -/
def ShutdownMeets (s : UringMultiplexer σ) : Prop :=
  ∀ mgr ∈ s.managers.elems, mgr.handle ≠ s.pipeReader →
    s.mask mgr &&& Operation.readAccept = Operation.none ∨
      s.mask mgr &&& ~~~Operation.readAccept = Operation.none

instance (s : UringMultiplexer σ) : Decidable (ShutdownMeets s) := by
  unfold ShutdownMeets; infer_instance

-- the classes of the manager objects, and the settings
variable (kind : Manager → Kind σ) (config : TransportConfig)

/-- The manager that `add` goes on with: the new one, unless its socket is registered. -/
def added (mgr : Manager) (s : UringMultiplexer σ) : Manager :=
  ((s.add mgr).managers.find? mgr.handle).getD mgr

/-- `add` up to the end of `init`. -/
def initialized (mgr : Manager) (s : UringMultiplexer σ) : Bool × UringMultiplexer σ :=
  onObject (added mgr s) ((kind (added mgr s)).init config) (s.add mgr)

/-- `add` up to the call of `enable`: a failed `init` shuts down. -/
def prepared (mgr : Manager) (s : UringMultiplexer σ) : Except Fault (UringMultiplexer σ) :=
  if (initialized kind config mgr s).1 then .ok (initialized kind config mgr s).2
  else Model.shutdown (initialized kind config mgr s).2

/-- A property of the state that a call ends with, if it does end. -/
def Holds {α : Type} (P : α → Prop) : Except Fault α → Prop
  | .ok a => P a
  | .error _ => True

instance {α : Type} {P : α → Prop} [DecidablePred P] (x : Except Fault α) : Decidable (Holds P x) := by
  cases x <;> unfold Holds <;> infer_instance

/-- What keeps the managers armed through an `add`: a manager that enters is armed in the state
`before` the event; the shutdown after a failed `init` meets its condition; and the initial
operation is not enabled in part. -/
def AddMeets (before : UringMultiplexer σ) (mgr : Manager) (initial : Operation)
    (s : UringMultiplexer σ) : Prop :=
  (s.managers.find? mgr.handle = none → ArmedAt before mgr) ∧
  ((initialized kind config mgr s).1 = false → ShutdownMeets (initialized kind config mgr s).2) ∧
  Holds (fun s' => s'.mask (added mgr s) &&& initial = Operation.none ∨
    s'.mask (added mgr s) &&& initial = initial) (prepared kind config mgr s)

instance (before : UringMultiplexer σ) (mgr : Manager) (initial : Operation) (s : UringMultiplexer σ) :
    Decidable (AddMeets kind config before mgr initial s) := by
  unfold AddMeets; infer_instance

/-- The state in which the completion of a submission is handled. -/
def completed (s : UringMultiplexer σ) (k : ℕ) (x : Submission) (c : Completion) : UringMultiplexer σ :=
  { s with derived := { s.derived with ring := s.derived.ring.complete k (x.multishot && c.more) } }

/-- What keeps the managers armed through the completion of a submission. -/
def DispatchMeets (s : UringMultiplexer σ) (k : ℕ) (x : Submission) (c : Completion) : Prop :=
  match kind x.mgr with
  | .stream app => x.mgr ∈ s.managers.elems →
    StreamMeets app x.op c.res c.temporary
      (if x.op = Operation.read then ((object (completed s k x c) x.mgr).recv (.data c.bytes)).2
        else object (completed s k x c) x.mgr)
  | .updater => x.op = Operation.read → c.res = messageSize →
    (c.message.code = addCode →
      AddMeets kind config s c.message.mgr c.message.op (completed s k x c)) ∧
    (c.message.code = shutdownCode → ShutdownMeets (completed s k x c))
  | .acceptor => x.op = Operation.accept →
    (c.res < 0 → ShutdownMeets (completed s k x c)) ∧
    (0 ≤ c.res → AddMeets kind config s c.accepted c.initial (completed s k x c) ∧
      (x.mgr ∈ s.managers.elems ∨ x.mgr = c.accepted → x.multishot = true ∧ c.more = true))

instance (s : UringMultiplexer σ) (k : ℕ) (x : Submission) (c : Completion) :
    Decidable (DispatchMeets kind config s k x c) := by
  unfold DispatchMeets; split <;> infer_instance

/-- **The condition on an event.** -/
def Meets (s : UringMultiplexer σ) : Event → Prop
  | .dispatch k c =>
    match s.derived.ring.inFlight[k]? with
    | none => True
    | some x => DispatchMeets kind config s k x c
  | .add mgr initial => AddMeets kind config s mgr initial s
  | .shutdown => ShutdownMeets s
  | _ => True

instance (s : UringMultiplexer σ) (e : Event) : Decidable (Meets kind config s e) := by
  unfold Meets; split <;> first | infer_instance | (split <;> infer_instance)

/-! ### Balances -/

/-- The balance of a manager. -/
def stateBalance (s : UringMultiplexer σ) (mgr : Manager) (op : Operation) : ℤ :=
  balance (s.mask mgr) s.derived.ring mgr op

theorem armedAt_iff {s : UringMultiplexer σ} {mgr : Manager} :
    ArmedAt s mgr ↔ ∀ op ∈ submittable, stateBalance s mgr op = 0 := by
  refine forall₂_congr fun op _ => ?_
  unfold stateBalance balance bit
  by_cases hc : (s.mask mgr).contains op = true
  · simp only [hc, true_iff, if_true]
    omega
  · simp only [hc, false_iff, if_false, Bool.false_eq_true]
    omega

/-- The balances of the registered managers are `d`. -/
def ArmedUpto (d : Manager → Operation → ℤ) (s : UringMultiplexer σ) : Prop :=
  ∀ mgr ∈ s.managers.elems, ∀ op ∈ submittable, stateBalance s mgr op = d mgr op

theorem armed_iff {s : UringMultiplexer σ} : Armed s ↔ ArmedUpto (fun _ _ => 0) s :=
  forall₂_congr fun _ _ => armedAt_iff

variable {d : Manager → Operation → ℤ} {s s' : UringMultiplexer σ} {mgr : Manager}

theorem ArmedUpto.congr (h : ArmedUpto d s) {d' : Manager → Operation → ℤ}
    (hd : ∀ mgr ∈ s.managers.elems, ∀ op ∈ submittable, d mgr op = d' mgr op) : ArmedUpto d' s :=
  fun mgr hmgr op hop => (h mgr hmgr op hop).trans (hd mgr hmgr op hop)

/-- Fewer managers, with what the others have unchanged. -/
theorem ArmedUpto.mono (h : ArmedUpto d s) (hmem : ∀ m ∈ s'.managers.elems, m ∈ s.managers.elems)
    (hmask : ∀ m ∈ s'.managers.elems, s'.mask m = s.mask m) (hring : s'.derived.ring = s.derived.ring) :
    ArmedUpto d s' := by
  intro m hm op hop
  unfold stateBalance
  rw [hmask m hm, hring]
  exact h m (hmem m hm) op hop

/-- What a manager does to its port moves its own balances. -/
theorem setObject_armedUpto {δ : Operation → ℤ} {t : Object σ} (h : ArmedUpto d s)
    (ht : Moves δ (object s mgr).manager t.manager) :
    ArmedUpto (fun m op => d m op + if m = mgr then δ op else 0) (setObject s mgr t) := by
  intro m hm op hop
  have hold := h m hm op hop
  change balance ((s.maskSet mgr t.manager.mask).mask m) t.manager.ring m op =
    d m op + if m = mgr then δ op else 0
  by_cases he : m = mgr
  · subst he
    rw [MultiplexerBase.maskSet_mask_self, if_pos rfl, ← hold]
    have hbal := ht.balance op hop
    unfold portBalance at hbal
    rw [ht.mgr] at hbal
    exact hbal
  · rw [MultiplexerBase.maskSet_mask_of_ne _ _ he, if_neg he, add_zero, ← hold]
    unfold stateBalance balance
    rw [ht.others m he op]
    rfl

theorem setObject_keeps {t : Object σ} (h : ArmedUpto d s)
    (ht : Keeps (object s mgr).manager t.manager) : ArmedUpto d (setObject s mgr t) :=
  (setObject_armedUpto h ht.moves).congr fun m _ op _ => by simp

/-! ### Removals and shutdown -/

theorem delQualified_managers (s : UringMultiplexer σ) (handle : SocketId) :
    (s.delQualified handle).managers = s.managers.erase handle := by
  unfold MultiplexerBase.delQualified
  dsimp only
  split_ifs <;> rfl

theorem delQualified_armedUpto (h : ArmedUpto d s) (handle : SocketId) :
    ArmedUpto d (s.delQualified handle) := by
  refine h.mono (fun m hm => ?_) (fun m _ => ?_) ?_
  · rw [delQualified_managers] at hm
    exact (KeyedMap.mem_erase.mp hm).1
  · unfold MultiplexerBase.delQualified
    dsimp only
    split_ifs <;> rfl
  · unfold MultiplexerBase.delQualified
    dsimp only
    split_ifs <;> rfl

theorem eraseIt_managers (s : UringMultiplexer σ) (mgr : Manager) :
    (s.eraseIt mgr).managers = s.managers.erase mgr.handle := by
  unfold MultiplexerBase.eraseIt
  dsimp only
  split_ifs <;> rfl

theorem eraseIt_mask (s : UringMultiplexer σ) (mgr : Manager) : (s.eraseIt mgr).mask = s.mask := by
  unfold MultiplexerBase.eraseIt
  dsimp only
  split_ifs <;> rfl

theorem eraseIt_rest (s : UringMultiplexer σ) (mgr : Manager) :
    (s.eraseIt mgr).derived = s.derived ∧ (s.eraseIt mgr).pipeReader = s.pipeReader := by
  unfold MultiplexerBase.eraseIt
  dsimp only
  split_ifs <;> exact ⟨rfl, rfl⟩

theorem ShutdownMeets.mono (h : ShutdownMeets s) (hmem : ∀ m ∈ s'.managers.elems, m ∈ s.managers.elems)
    (hmask : ∀ m ∈ s'.managers.elems, s'.mask m = s.mask m) (hpipe : s'.pipeReader = s.pipeReader) :
    ShutdownMeets s' := by
  intro m hm hne
  rw [hmask m hm]
  exact h m (hmem m hm) (hpipe ▸ hne)

/-- A manager is gone once its socket is erased. -/
theorem ne_of_mem_erase {m : Manager} (hm : m ∈ (s.managers.erase mgr.handle).elems) : m ≠ mgr := by
  rintro rfl
  exact (KeyedMap.mem_erase.mp hm).2 rfl

variable (mgr) in
/-- A manager whose mask may have changed is erased. -/
theorem eraseIt_maskSet_armedUpto (h : ArmedUpto d s) (hs : ShutdownMeets s) (mask : Operation) :
    ArmedUpto d ((s.maskSet mgr mask).eraseIt mgr) ∧ ShutdownMeets ((s.maskSet mgr mask).eraseIt mgr) := by
  have hmem : ∀ m ∈ ((s.maskSet mgr mask).eraseIt mgr).managers.elems,
      m ∈ s.managers.elems ∧ ((s.maskSet mgr mask).eraseIt mgr).mask m = s.mask m := by
    intro m hm
    rw [eraseIt_managers] at hm
    rw [eraseIt_mask]
    exact ⟨(KeyedMap.mem_erase.mp hm).1,
      MultiplexerBase.maskSet_mask_of_ne s mask (ne_of_mem_erase (s := s) hm)⟩
  obtain ⟨hderived, hpipe⟩ := eraseIt_rest (s.maskSet mgr mask) mgr
  refine ⟨h.mono (fun m hm => (hmem m hm).1) (fun m hm => (hmem m hm).2) ?_,
    hs.mono (fun m hm => (hmem m hm).1) (fun m hm => (hmem m hm).2) hpipe⟩
  rw [hderived]
  rfl

/-- One manager of the loop of `shutdown`: it is left as it is, or loses all flags and is erased. -/
theorem shutdownPass_armedUpto (h : ArmedUpto d s) (hs : ShutdownMeets s)
    (hm : mgr ∈ s.managers.elems) (hpipe : mgr.handle ≠ s.pipeReader) :
    let s₁ := Model.disable mgr Operation.readAccept false s
    (s₁.mask mgr = Operation.none → ArmedUpto d (s₁.eraseIt mgr) ∧ ShutdownMeets (s₁.eraseIt mgr)) ∧
      (s₁.mask mgr ≠ Operation.none → ArmedUpto d s₁ ∧ ShutdownMeets s₁) := by
  intro s₁
  cases hdel : maskDel (s.mask mgr) Operation.readAccept with
  | none =>
    have hsame : s₁ = s := by
      change Model.disable _ _ _ _ = _
      unfold Model.disable
      rw [hdel]
    have hback : s.maskSet mgr (s.mask mgr) = s := by
      unfold MultiplexerBase.maskSet
      rw [Function.update_eq_self]
    rw [hsame]
    refine ⟨fun _ => ?_, fun _ => ⟨h, hs⟩⟩
    have herase := eraseIt_maskSet_armedUpto mgr h hs (s.mask mgr)
    rwa [hback] at herase
  | some mask =>
    have hset : s₁ = s.maskSet mgr mask := by
      change Model.disable _ _ _ _ = _
      unfold Model.disable
      rw [hdel]
      exact if_neg (by simp)
    rw [hset]
    refine ⟨fun _ => eraseIt_maskSet_armedUpto mgr h hs mask, fun hne => ?_⟩
    rw [MultiplexerBase.maskSet_mask_self] at hne
    -- the flags for reading and accepting were not the only ones, which the condition excludes
    unfold maskDel at hdel
    split_ifs at hdel with hsome
    obtain rfl := Option.some.inj hdel
    rcases hs mgr hm hpipe with hnone | hnone
    · exact absurd hnone hsome
    · exact absurd hnone hne

theorem visits_armedUpto {l : List Manager} (h : ArmedUpto d s) (hs : ShutdownMeets s) :
    ArmedUpto d (l.foldl Model.visit s) := by
  induction l generalizing s with
  | nil => exact h
  | cons mgr l ih =>
    rw [List.foldl_cons]
    unfold Model.visit MultiplexerBase.visit
    by_cases hvisit : mgr ∈ s.managers.elems ∧ mgr.handle ≠ s.pipeReader
    · obtain ⟨hnone, hsome⟩ := shutdownPass_armedUpto h hs hvisit.1 hvisit.2
      rw [if_pos hvisit]
      by_cases hmask : (Model.disable mgr Operation.readAccept false s).mask mgr = Operation.none
      · rw [if_pos hmask]
        exact ih (hnone hmask).1 (hnone hmask).2
      · rw [if_neg hmask]
        exact ih (hsome hmask).1 (hsome hmask).2
    · rw [if_neg hvisit]
      exact ih h hs

/-- **A shutdown that meets its condition.** -/
theorem shutdown_armedUpto (h : ArmedUpto d s) (hs : ShutdownMeets s)
    (hok : Model.shutdown s = .ok s') : ArmedUpto d s' := by
  obtain rfl := Except.ok.inj ((Model.shutdown_eq_ok s).symm.trans hok)
  have hloop : ArmedUpto d
      (s.managers.elems.foldl Model.visit { s.logShutdown with shuttingDown := true }) :=
    visits_armedUpto h hs
  exact hloop

/-! ### Verdicts -/

/-- What is left to a verdict: on `ok` nothing; on `done` or a temporary error the flag that has lost
its submission, or one that is alone in the mask. -/
def Due (op : Operation) (δ : Operation → ℤ) (mask : Operation) : ManagerResult → Prop
  | .ok => ∀ o ∈ submittable, δ o = 0
  | .done => op ∈ submittable ∧ ∀ o ∈ submittable, δ o = -one op o
  | .temporaryError => op ∈ submittable ∧ ((∀ o ∈ submittable, δ o = -one op o) ∨
      (∀ o ∈ submittable, δ o = 0) ∧ mask &&& ~~~op = Operation.none)
  | .error => True

/-- `disable` of a manager whose flag is due, or alone. -/
theorem disable_armed {op : Operation} (h : ArmedUpto d s)
    (hd : ∀ m ≠ mgr, ∀ o ∈ submittable, d m o = 0)
    (hdue : mgr ∈ s.managers.elems → op ∈ submittable ∧ ((∀ o ∈ submittable, d mgr o = -one op o) ∨
      (∀ o ∈ submittable, d mgr o = 0) ∧ s.mask mgr &&& ~~~op = Operation.none)) :
    Armed (Model.disable mgr op true s) := by
  rw [armed_iff]
  unfold Model.disable
  cases hdel : maskDel (s.mask mgr) op with
  | none =>
    refine h.congr fun m hm o ho => ?_
    by_cases he : m = mgr
    · subst he
      obtain ⟨hop, hone | hzero⟩ := hdue hm
      · have hbit := bit_of_balance ((h m hm op hop).trans ((hone op hop).trans (by simp [one])))
        have hc := contains_of_bit hbit
        rw [contains_eq hop, decide_eq_true_eq] at hc
        exact absurd (and_of_maskDel_none hdel) hc
      · exact hzero.1 o ho
    · exact hd m he o ho
  | some mask =>
    dsimp only
    rw [MultiplexerBase.maskSet_mask_self, Bool.true_and]
    by_cases hmask : mask = Operation.none
    · rw [if_pos (decide_eq_true hmask)]
      intro m hm o ho
      rw [delQualified_managers] at hm
      have hne : m ≠ mgr := ne_of_mem_erase (s := s) hm
      have hmem : m ∈ s.managers.elems := (KeyedMap.mem_erase.mp hm).1
      have hsame := (delQualified_armedUpto (d := stateBalance (s.maskSet mgr mask))
        (fun _ _ _ _ => rfl) mgr.handle) m (by rw [delQualified_managers]; exact hm) o ho
      rw [hsame]
      unfold stateBalance
      rw [MultiplexerBase.maskSet_mask_of_ne _ _ hne]
      exact (h m hmem o ho).trans (hd m hne o ho)
    · rw [if_neg (by simp [hmask])]
      intro m hm o ho
      have hmem : m ∈ s.managers.elems := hm
      unfold stateBalance
      by_cases he : m = mgr
      · subst he
        rw [MultiplexerBase.maskSet_mask_self]
        obtain ⟨hop, hone | hzero⟩ := hdue hmem
        · have hbal := (h m hmem o ho).trans (hone o ho)
          have hbit := bit_maskDel hop ho hdel
          unfold stateBalance balance at hbal
          unfold balance
          unfold one at hbal
          change (s.derived.ring.outstanding m o : ℤ) - bit mask o = 0
          omega
        · exact absurd ((mask_of_maskDel_some hdel).trans hzero.2) hmask
      · rw [MultiplexerBase.maskSet_mask_of_ne _ _ he]
        exact (h m hmem o ho).trans (hd m he o ho)

/-- **The verdict of a completion.** -/
theorem handleVerdict_armed {op : Operation} {verdict : ManagerResult} (h : ArmedUpto d s)
    (hd : ∀ m ≠ mgr, ∀ o ∈ submittable, d m o = 0)
    (hdue : mgr ∈ s.managers.elems → Due op (d mgr) (s.mask mgr) verdict) :
    Armed (Model.handleVerdict mgr op verdict s) := by
  cases verdict with
  | ok =>
    refine armed_iff.mpr (h.congr fun m hm o ho => ?_)
    by_cases he : m = mgr
    · subst he
      exact hdue hm o ho
    · exact hd m he o ho
  | done => exact disable_armed h hd fun hm => ⟨(hdue hm).1, Or.inl (hdue hm).2⟩
  | temporaryError => exact disable_armed h hd hdue
  | error =>
    refine armed_iff.mpr ((delQualified_armedUpto h mgr.handle).congr fun m hm o ho => ?_)
    rw [delQualified_managers] at hm
    exact hd m (ne_of_mem_erase (s := s) hm) o ho

/-! ### New managers -/

variable {kind : Manager → Kind σ} {config : TransportConfig}

theorem enable_armedUpto {op : Operation} (h : ArmedUpto d s)
    (hop : s.mask mgr &&& op = Operation.none ∨ s.mask mgr &&& op = op) :
    ArmedUpto d (enable kind mgr op s) :=
  setObject_keeps h (Kind.enable_keeps (kind mgr) hop)

theorem visit_subset (s : UringMultiplexer σ) (mgr : Manager) :
    (Model.visit s mgr).managers.elems ⊆ s.managers.elems := by
  unfold Model.visit MultiplexerBase.visit
  split_ifs
  · rw [eraseIt_managers, Model.disable_managers]
    exact fun m hm => (KeyedMap.mem_erase.mp hm).1
  · rw [Model.disable_managers]
    exact List.Subset.refl _
  · exact List.Subset.refl _

theorem visits_subset (l : List Manager) (s : UringMultiplexer σ) :
    (l.foldl Model.visit s).managers.elems ⊆ s.managers.elems := by
  induction l generalizing s with
  | nil => exact List.Subset.refl _
  | cons mgr l ih => exact List.Subset.trans (ih (Model.visit s mgr)) (visit_subset s mgr)

theorem shutdown_subset (hok : Model.shutdown s = .ok s') :
    s'.managers.elems ⊆ s.managers.elems := by
  obtain rfl := Except.ok.inj ((Model.shutdown_eq_ok s).symm.trans hok)
  have hloop := visits_subset s.managers.elems { s.logShutdown with shuttingDown := true }
  exact hloop

/-- **A new manager that meets the condition**, and nobody else is new. -/
theorem add_armedUpto {before : UringMultiplexer σ} {initial : Operation} (h : ArmedUpto d s)
    (hbefore : ArmedAt before mgr → ∀ o ∈ submittable, stateBalance s mgr o = d mgr o)
    (hm : AddMeets kind config before mgr initial s) (hok : add kind config mgr initial s = .ok s') :
    ArmedUpto d s' ∧ ∀ m ∈ s'.managers.elems, m ∈ s.managers.elems ∨ m = mgr := by
  obtain ⟨henter, hshut, hinitial⟩ := hm
  have hnew : ∀ m ∈ (s.add mgr).managers.elems, m ∈ s.managers.elems ∨ m = mgr ∧
      s.managers.find? mgr.handle = none := by
    intro m hm
    rcases KeyedMap.mem_emplace.mp hm with hm | ⟨rfl, hfresh⟩
    · exact Or.inl hm
    · refine Or.inr ⟨rfl, ?_⟩
      cases hfind : s.managers.find? m.handle with
      | none => rfl
      | some m' =>
        obtain ⟨hmem, hkey⟩ := KeyedMap.find?_eq_some.mp hfind
        exact absurd (hkey ▸ List.mem_map_of_mem hmem) hfresh
  have hadd : ArmedUpto d (s.add mgr) := by
    intro m hm o ho
    rcases hnew m hm with hm | ⟨rfl, hnone⟩
    · exact h m hm o ho
    · exact hbefore (henter hnone) o ho
  have hinit : ArmedUpto d (initialized kind config mgr s).2 :=
    setObject_keeps hadd (Kind.init_keeps config (kind (added mgr s)) _)
  have hprepared : ∀ s₁, prepared kind config mgr s = .ok s₁ →
      ArmedUpto d s₁ ∧ s₁.managers.elems ⊆ (s.add mgr).managers.elems := by
    intro s₁ hs₁
    unfold prepared at hs₁
    by_cases hsucc : (initialized kind config mgr s).1 = true
    · rw [if_pos hsucc] at hs₁
      obtain rfl := Except.ok.inj hs₁
      exact ⟨hinit, List.Subset.refl _⟩
    · rw [if_neg hsucc] at hs₁
      have hsub := shutdown_subset (s := (initialized kind config mgr s).2) hs₁
      exact ⟨shutdown_armedUpto hinit (hshut (Bool.eq_false_iff.mpr hsucc)) hs₁, hsub⟩
  obtain ⟨o, ho, hok⟩ := bind_eq_ok.mp hok
  obtain rfl := Except.ok.inj ho
  obtain ⟨s₁, hs₁, hok⟩ := bind_eq_ok.mp hok
  have hs₁' : prepared kind config mgr s = .ok s₁ := hs₁
  obtain ⟨harmed, hsub⟩ := hprepared s₁ hs₁'
  rw [hs₁'] at hinitial
  change (if added mgr s ∈ s₁.managers.elems then _ else _) = _ at hok
  split_ifs at hok
  obtain rfl := Except.ok.inj hok
  refine ⟨enable_armedUpto harmed hinitial, fun m hm => ?_⟩
  exact (hnew m (hsub hm)).imp_right fun h => h.1

/-! ### Completions -/

/-- What the end of a submission takes from the balance of its manager. -/
def taken (x : Submission) (c : Completion) (op : Operation) : ℤ :=
  if (x.multishot && c.more) = false then -one (served x.op) op else 0

/-- The same, among all managers. -/
def takenAt (x : Submission) (c : Completion) (mgr : Manager) (op : Operation) : ℤ :=
  if mgr = x.mgr then taken x c op else 0

/-- Nothing but an accept goes on after its completion. -/
theorem taken_eq {x : Submission} (c : Completion) (hop : x.op ≠ Operation.accept) (op : Operation) :
    taken x c op = -one (served x.op) op := by
  refine if_pos ?_
  cases hm : x.multishot with
  | false => rfl
  | true => exact absurd (x.accepts hm) hop

variable {k : ℕ} {x : Submission} {c : Completion}

theorem completed_balance (hx : s.derived.ring.inFlight[k]? = some x) (m : Manager) (op : Operation) :
    stateBalance (completed s k x c) m op = stateBalance s m op + takenAt x c m op := by
  have hout := Ring.outstanding_complete s.derived.ring m op hx (x.multishot && c.more)
  unfold stateBalance balance takenAt taken one
  change ((s.derived.ring.complete k (x.multishot && c.more)).outstanding m op : ℤ) -
    bit (s.mask m) op = _
  rw [hout]
  by_cases hm : m = x.mgr
  · subst hm
    simp only [true_and, if_true]
    cases hstay : x.multishot && c.more with
    | true => simp
    | false =>
      simp only [true_and, if_true]
      omega
  · rw [if_neg fun h => hm h.2.1.symm, if_neg hm]
    omega

theorem completed_armedUpto (h : Armed s) (hx : s.derived.ring.inFlight[k]? = some x) :
    ArmedUpto (takenAt x c) (completed s k x c) := by
  intro m hm op hop
  rw [completed_balance hx, (armed_iff.mp h) m hm op hop, zero_add]

theorem takenAt_of_ne {m : Manager} (hm : m ≠ x.mgr) (op : Operation) : takenAt x c m op = 0 := if_neg hm

theorem takenAt_self (op : Operation) : takenAt x c x.mgr op = taken x c op := if_pos rfl

/-- The verdict, after its manager has moved its balances once more. -/
theorem verdict_armed {δ : Operation → ℤ} {t : Object σ} {verdict : ManagerResult}
    (h : ArmedUpto (takenAt x c) s) (ht : Moves δ (object s x.mgr).manager t.manager)
    (hdue : x.mgr ∈ s.managers.elems →
      Due x.op (fun op => taken x c op + δ op) t.manager.mask verdict) :
    Armed (Model.handleVerdict x.mgr x.op verdict (setObject s x.mgr t)) := by
  refine handleVerdict_armed (setObject_armedUpto h ht) (fun m hm op _ => ?_) fun hm => ?_
  · rw [takenAt_of_ne hm, if_neg hm, add_zero]
  · have hmask : (setObject s x.mgr t).mask x.mgr = t.manager.mask :=
      MultiplexerBase.maskSet_mask_self ..
    rw [hmask]
    simp only [takenAt_self, if_true]
    exact hdue hm

theorem served_of_mem {op : Operation} (h : op ∈ submittable) : served op = op := by
  have hall : ∀ op ∈ submittable, served op = op := by decide
  exact hall op h

/-- What is settled is due. -/
theorem Settles.due {t : Object σ} {o : ManagerResult × Object σ} (hop : x.op ≠ Operation.accept)
    (ho : Settles x.op t.manager o) :
    ∃ δ, Moves δ t.manager o.2.manager ∧
      Due x.op (fun op => taken x c op + δ op) o.2.manager.mask o.1 := by
  obtain ⟨verdict, t'⟩ := o
  cases verdict with
  | ok =>
    refine ⟨_, ho, fun op _ => ?_⟩
    dsimp only
    rw [taken_eq c hop]
    omega
  | done =>
    refine ⟨_, ho.2, ho.1, fun op _ => ?_⟩
    dsimp only
    rw [taken_eq c hop, served_of_mem ho.1]
    omega
  | temporaryError =>
    obtain ⟨hmem, hnone | ⟨hpoll, hmask⟩⟩ := ho
    · refine ⟨_, hnone, hmem, Or.inl fun op _ => ?_⟩
      dsimp only
      rw [taken_eq c hop, served_of_mem hmem]
      omega
    · refine ⟨_, hpoll, hmem, Or.inr ⟨fun op _ => ?_, hmask⟩⟩
      dsimp only
      rw [taken_eq c hop, served_of_mem hmem]
      omega
  | error => exact ⟨_, Own.moves ho, trivial⟩

/-- **A completion of a stream.** -/
theorem streamDispatch_armed {app : NextLayer σ} {t : Object σ} (h : Armed s)
    (hx : s.derived.ring.inFlight[k]? = some x)
    (ht : t.manager = (object (completed s k x c) x.mgr).manager)
    (hm : x.mgr ∈ s.managers.elems → StreamMeets app x.op c.res c.temporary t) :
    Armed (Model.handleVerdict x.mgr x.op (streamHandleCompletion app x.op c.res c.temporary t).1
      (setObject (completed s k x c) x.mgr
        (streamHandleCompletion app x.op c.res c.temporary t).2)) := by
  have harmed := completed_armedUpto (c := c) h hx
  have hown := streamHandleCompletion_own x.op app c.res c.temporary t
  by_cases haccept : x.op = Operation.accept
  · -- a stream answers an error to what it never submits
    have herr : (streamHandleCompletion app x.op c.res c.temporary t).1 = .error := by
      rw [haccept]
      rfl
    rw [herr]
    exact verdict_armed harmed (ht ▸ hown.moves) fun _ => trivial
  · by_cases hmem : x.mgr ∈ s.managers.elems
    · obtain ⟨δ, hmoves, hdue⟩ := Settles.due (c := c) haccept
        (streamHandleCompletion_settles (hm hmem))
      exact verdict_armed harmed (ht ▸ hmoves) fun _ => hdue
    · exact verdict_armed harmed (ht ▸ hown.moves) fun h => absurd h hmem

/-- The verdict over a state in which nothing but the completed submission is missing. -/
theorem verdict_armed_of_taken {verdict : ManagerResult} (h : ArmedUpto (takenAt x c) s)
    (hdue : x.mgr ∈ s.managers.elems → Due x.op (taken x c) (s.mask x.mgr) verdict) :
    Armed (Model.handleVerdict x.mgr x.op verdict s) := by
  refine handleVerdict_armed h (fun m hm op _ => takenAt_of_ne hm op) fun hm => ?_
  have hself : takenAt x c x.mgr = taken x c := funext takenAt_self
  rw [hself]
  exact hdue hm

/-- A manager that is armed before the event, in the state in which the completion is handled. -/
theorem completed_of_armedAt (hx : s.derived.ring.inFlight[k]? = some x) (h : ArmedAt s mgr) :
    ∀ op ∈ submittable, stateBalance (completed s k x c) mgr op = takenAt x c mgr op := by
  intro op hop
  rw [completed_balance hx, armedAt_iff.mp h op hop, zero_add]

/-- What the next read of the updater takes back. -/
theorem resubmitted_due (hop : x.op = Operation.read) (t : Object σ) :
    ∃ δ, Moves δ t.manager (submitted Ring.submitReadv t).2.manager ∧
      Due x.op (fun op => taken x c op + δ op) (submitted Ring.submitReadv t).2.manager.mask
        (submitted Ring.submitReadv t).1 := by
  have hne : x.op ≠ Operation.accept := by
    rw [hop]
    decide
  have hans : Answers Operation.read t.manager (submitted Ring.submitReadv t) :=
    submitted_answers (by decide) _
  have hres : (submitted Ring.submitReadv t).1 = .ok ∨ (submitted Ring.submitReadv t).1 = .error := by
    unfold submitted
    dsimp only
    split_ifs
    · exact Or.inl rfl
    · exact Or.inr rfl
  refine ⟨_, hans.moves, ?_⟩
  rcases hres with hres | hres
  · simp only [hres, if_true]
    intro op _
    dsimp only
    rw [taken_eq c hne, hop]
    change -one Operation.read op + one Operation.read op = 0
    omega
  · simp only [hres]
    trivial

/-- **A completion of the updater.** -/
theorem updaterDispatch_armed (h : Armed s) (hx : s.derived.ring.inFlight[k]? = some x)
    (hm : x.op = Operation.read → c.res = messageSize →
      (c.message.code = addCode →
        AddMeets kind config s c.message.mgr c.message.op (completed s k x c)) ∧
      (c.message.code = shutdownCode → ShutdownMeets (completed s k x c)))
    {o : ManagerResult × UringMultiplexer σ}
    (hok : updaterHandleCompletion kind config x.mgr x.op c.res c.message (completed s k x c) = .ok o) :
    Armed (Model.handleVerdict x.mgr x.op o.1 o.2) := by
  have harmed := completed_armedUpto (c := c) h hx
  unfold updaterHandleCompletion at hok
  by_cases hop : x.op = Operation.read
  · have hne : x.op ≠ Operation.accept := by
      rw [hop]
      decide
    rw [if_neg (not_not.mpr hop)] at hok
    by_cases hres : c.res = messageSize
    · rw [if_neg (not_not.mpr hres)] at hok
      obtain ⟨hadd, hshut⟩ := hm hop hres
      obtain ⟨⟨handled, s₁⟩, hs₁, hok⟩ := bind_eq_ok.mp hok
      unfold handleOperation at hs₁
      by_cases hcode : c.message.code = addCode
      · rw [if_pos hcode] at hs₁
        obtain ⟨s₂, hs₂, hpair⟩ := map_eq_ok.mp hs₁
        obtain ⟨rfl, rfl⟩ := Prod.mk.inj hpair
        have harmed₂ := (add_armedUpto harmed (completed_of_armedAt hx) (hadd hcode) hs₂).1
        obtain rfl := Except.ok.inj hok
        obtain ⟨δ, hmoves, hdue⟩ := resubmitted_due (c := c) hop (object s₂ x.mgr)
        exact verdict_armed harmed₂ hmoves fun _ => hdue
      · rw [if_neg hcode] at hs₁
        by_cases hcode : c.message.code = shutdownCode
        · rw [if_pos hcode] at hs₁
          obtain ⟨s₂, hs₂, hpair⟩ := map_eq_ok.mp hs₁
          obtain ⟨rfl, rfl⟩ := Prod.mk.inj hpair
          obtain rfl := Except.ok.inj hok
          refine verdict_armed_of_taken (shutdown_armedUpto harmed (hshut hcode) hs₂) fun _ => ?_
          refine ⟨hop ▸ read_mem, fun op _ => ?_⟩
          rw [taken_eq c hne, served_of_mem (hop ▸ read_mem)]
        · rw [if_neg hcode] at hs₁
          obtain ⟨rfl, rfl⟩ := Prod.mk.inj (Except.ok.inj hs₁)
          obtain rfl := Except.ok.inj hok
          exact verdict_armed_of_taken harmed fun _ => trivial
    · rw [if_pos hres] at hok
      obtain rfl := Except.ok.inj hok
      exact verdict_armed_of_taken harmed fun _ => trivial
  · rw [if_pos hop] at hok
    obtain rfl := Except.ok.inj hok
    exact verdict_armed_of_taken harmed fun _ => trivial

/-- **A completion of the acceptor.** -/
theorem acceptorDispatch_armed (h : Armed s) (hx : s.derived.ring.inFlight[k]? = some x)
    (hm : x.op = Operation.accept →
      (c.res < 0 → ShutdownMeets (completed s k x c)) ∧
      (0 ≤ c.res → AddMeets kind config s c.accepted c.initial (completed s k x c) ∧
        (x.mgr ∈ s.managers.elems ∨ x.mgr = c.accepted → x.multishot = true ∧ c.more = true)))
    {o : ManagerResult × UringMultiplexer σ}
    (hok : acceptorHandleCompletion kind config x.op c.res c.accepted c.initial (completed s k x c) =
      .ok o) :
    Armed (Model.handleVerdict x.mgr x.op o.1 o.2) := by
  have harmed := completed_armedUpto (c := c) h hx
  unfold acceptorHandleCompletion at hok
  by_cases hop : x.op = Operation.accept
  · rw [if_neg (not_not.mpr hop)] at hok
    obtain ⟨hshut, hadd⟩ := hm hop
    by_cases hres : c.res < 0
    · rw [if_pos hres] at hok
      obtain ⟨s₂, hs₂, rfl⟩ := map_eq_ok.mp hok
      exact verdict_armed_of_taken (shutdown_armedUpto harmed (hshut hres) hs₂) fun _ => trivial
    · rw [if_neg hres] at hok
      obtain ⟨hmeets, hmore⟩ := hadd (not_lt.mp hres)
      obtain ⟨s₂, hs₂, rfl⟩ := map_eq_ok.mp hok
      obtain ⟨harmed₂, hmem⟩ := add_armedUpto harmed (completed_of_armedAt hx) hmeets hs₂
      refine verdict_armed_of_taken harmed₂ fun hin op _ => ?_
      obtain ⟨hmulti, hgoes⟩ := hmore (hmem _ hin)
      unfold taken
      rw [hmulti, hgoes]
      rfl
  · rw [if_pos hop] at hok
    obtain rfl := Except.ok.inj hok
    exact verdict_armed_of_taken harmed fun _ => trivial

/-! ### Events and runs -/

theorem dispatch_armed (h : Armed s)
    (hm : ∀ x, s.derived.ring.inFlight[k]? = some x → DispatchMeets kind config s k x c)
    (hok : dispatch kind config k c s = .ok s') : Armed s' := by
  unfold dispatch at hok
  cases hx : s.derived.ring.inFlight[k]? with
  | none =>
    rw [hx] at hok
    obtain rfl := Except.ok.inj hok
    exact h
  | some x =>
    rw [hx] at hok
    obtain ⟨o, ho, hok⟩ := bind_eq_ok.mp hok
    obtain rfl := Except.ok.inj hok
    have hmeets := hm x hx
    unfold DispatchMeets at hmeets
    unfold handleCompletion at ho
    cases hkind : kind x.mgr with
    | stream app =>
      rw [hkind] at ho
      simp only [hkind] at hmeets
      obtain rfl := Except.ok.inj ho
      refine streamDispatch_armed h hx ?_ hmeets
      split_ifs <;> rfl
    | updater =>
      rw [hkind] at ho
      simp only [hkind] at hmeets
      exact updaterDispatch_armed h hx hmeets ho
    | acceptor =>
      rw [hkind] at ho
      simp only [hkind] at hmeets
      exact acceptorDispatch_armed h hx hmeets ho

/-- **One event that meets the condition.** -/
theorem step_armed {e : Event} (h : Armed s) (hm : Meets kind config s e)
    (hok : step kind config e s = .ok s') : Armed s' := by
  cases e with
  | submit n =>
    obtain rfl := Except.ok.inj hok
    intro m hm op hop
    change (_ ↔ (s.derived.ring.toKernel n).outstanding m op = 1) ∧
      (s.derived.ring.toKernel n).outstanding m op ≤ 1
    rw [Ring.outstanding_toKernel]
    exact h m hm op hop
  | timeouts now =>
    refine MultiplexerBase.handleTimeouts_preserves (I := Armed) ?_ (fun _ _ _ _ h => h) h hok
    intro _ mgr e s s' h _ hok
    obtain rfl := Except.ok.inj hok
    unfold handleTimeout
    cases kind mgr with
    | stream app =>
      exact armed_iff.mpr (setObject_keeps (armed_iff.mp h)
        (callback_manager (streamRegister_keeps app) _ _))
    | updater => exact h
    | acceptor => exact h
  | dispatch k c =>
    refine dispatch_armed h (fun x hx => ?_) hok
    unfold Meets at hm
    simpa only [hx] using hm
  | call mgr c =>
    unfold step at hok
    cases hkind : kind mgr with
    | stream app =>
      simp only [hkind] at hok
      obtain rfl := Except.ok.inj hok
      exact armed_iff.mpr (setObject_keeps (armed_iff.mp h)
        (call_manager (streamRegister_keeps app) _ c))
    | updater =>
      simp only [hkind] at hok
      obtain rfl := Except.ok.inj hok
      exact h
    | acceptor =>
      simp only [hkind] at hok
      obtain rfl := Except.ok.inj hok
      exact h
  | setTimeout mgr when =>
    obtain rfl := Except.ok.inj hok
    exact h
  | add mgr initial =>
    have hadd := add_armedUpto (armed_iff.mp h) (fun harmed => armedAt_iff.mp harmed) hm hok
    exact armed_iff.mpr hadd.1
  | shutdown => exact armed_iff.mpr (shutdown_armedUpto (armed_iff.mp h) hm hok)
  | rehash order =>
    obtain rfl := Except.ok.inj hok
    intro m hmem
    exact h m ((s.managers.rehash_perm order).mem_iff.mp hmem)

/-- One event of a run that may have ended in a fault. -/
def runStep (kind : Manager → Kind σ) (config : TransportConfig) (s : Except Fault (UringMultiplexer σ))
    (e : Event) : Except Fault (UringMultiplexer σ) := s >>= step kind config e

/-- **The arming of every run whose events meet the condition.** -/
theorem armed_always (kind : Manager → Kind σ) (config : TransportConfig)
    (pipeReader pipeWriter : SocketId) (objects : Manager → StreamTransportBase Unit σ)
    (events : List Event)
    (h : Along (runStep kind config) (fun s e => Holds (fun s => Meets kind config s e) s)
      (.ok (start pipeReader pipeWriter objects)) events) :
    Always (runStep kind config) (Holds Armed) (.ok (start pipeReader pipeWriter objects)) events := by
  refine always_of_along (fun s e hs hm => ?_) ?_ h
  · cases s with
    | error fault => trivial
    | ok s =>
      change Holds Armed (step kind config e s)
      cases hstep : step kind config e s with
      | error fault => trivial
      | ok s' => exact step_armed hs hm hstep
  · intro m hm
    cases hm

/-! ### An echo -/

/-- A layer that sends back what it receives. -/
def echoLayer : NextLayer Unit where
  init s := (s, [.configureNextRead (.upTo 8)], true)
  hasMoreData _ := false
  produce s := (s, [], .ok)
  consume s bytes := (s, [.enqueue bytes], .ok)
  handleTimeout s _ := (s, [], .ok)

/-- The updater on socket 3, the acceptor on socket 4, and streams. -/
def echoKind (mgr : Manager) : Kind Unit :=
  if mgr.handle = 3 then .updater else if mgr.handle = 4 then .acceptor else .stream echoLayer

/-- A completion of a stream. -/
def streamCompletion (res : ℤ) (temporary : Bool) (bytes : List UInt8) : Completion :=
  ⟨res, false, temporary, bytes, ⟨0, ⟨0, 0⟩, Operation.none⟩, ⟨0, 0⟩, Operation.none⟩

/-- The updater and the acceptor start, and a connection is accepted. -/
def connected : List Event :=
  [.add ⟨0, 3⟩ Operation.read, .add ⟨1, 4⟩ Operation.accept, .submit 2,
    .dispatch 1 ⟨5, true, false, [], ⟨0, ⟨0, 0⟩, Operation.none⟩, ⟨2, 5⟩, Operation.read⟩, .submit 1]

/-- Two bytes are received, echoed and read on. -/
theorem armed_always_echo :
    Always (runStep echoKind {}) (Holds Armed)
      (.ok (start 3 6 fun _ => StreamTransportBase.fresh () () {}))
      (connected ++ [.dispatch 2 (streamCompletion 2 false [7, 8]), .submit 2,
        .dispatch 2 (streamCompletion 2 false []), .timeouts fun _ => 0]) :=
  armed_always echoKind {} 3 6 _ _ (by decide +kernel)

/-- A read that meets a temporary error while the echo is being written: the poll is outstanding, and
the mask does not contain `read`. -/
theorem armed_temporary_error :
    ¬ ∀ (kind : Manager → Kind Unit) (config : TransportConfig) (pipeReader pipeWriter : SocketId)
      (objects : Manager → StreamTransportBase Unit Unit) (events : List Event),
      Always (runStep kind config) (Holds Armed) (.ok (start pipeReader pipeWriter objects)) events := by
  intro h
  have hrun := h echoKind {} 3 6 (fun _ => StreamTransportBase.fresh () () {})
    (connected ++ [.dispatch 2 (streamCompletion 2 false [7, 8]), .submit 2,
      .dispatch 3 (streamCompletion (-11) true [])])
  revert hrun
  decide +kernel

end NetworkDriver.Net.Multiplexer.Uring.Arming
