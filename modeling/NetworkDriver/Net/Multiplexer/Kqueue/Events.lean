import NetworkDriver.Library.Results
import NetworkDriver.Net.Multiplexer.Kqueue.Filters

/-! # The events of kqueue

`poll_once` and `handle_events` of `kqueue_multiplexer`. One call of `kevent` hands over the entries
appended since the last one and reports events; the events of a call are handled one after the other, by
managers that are looked up by the number of the socket. A handler is what it does and what it returns
in the state that it meets. `Loop` adds what was registered at the last `kevent` and has been since,
and a record of the handlers called; no function reads them.

* `handleEvents`, `pollOnce`: the dispatch.
* `Settled`: what `handle_events` makes of a verdict.
* `polls_sound`: before a shutdown, in every run of polls, the filters mirror the masks, the first call
  of a handler in a batch is for an operation that its manager waits for, and verdicts are settled. -/

namespace NetworkDriver.Net.Multiplexer.Kqueue.Events

open NetworkDriver.Library.Keyed NetworkDriver.Library.Run NetworkDriver.Library.Results
open NetworkDriver.Net.Types NetworkDriver.Net.Multiplexer.Base
open NetworkDriver.Net.Multiplexer.Kqueue.Model NetworkDriver.Net.Multiplexer.Kqueue.Filters
open NetworkDriver.Net.Multiplexer.Uring.Submissions (contains_or contains_and_not)

/-! ### Handlers -/

/-- `EV_ERROR`: the report of an entry that failed. -/
def evError : KeventFlags := 0x4000#16
/-- `EV_EOF`. -/
def evEof : KeventFlags := 0x8000#16

/-- What a handler may do; an `add` is `register`, what `init` does, and `shutdown` if `init` fails. An
unordered map may order its elements anew at any time. -/
inductive Act where
  | registerReading (mgr : Manager)
  | registerWriting (mgr : Manager)
  | setTimeout (mgr : Manager) (when : ℤ)
  | add (mgr : Manager) (initial : Operation)
  | shutdown
  | rehash (order : List Manager)

/-- `manager_base::register_reading` and `register_writing`, by the operation registered for. -/
def registerFor (mgr : Manager) (op : Operation) (s : KqueueMultiplexer) : KqueueMultiplexer :=
  if s.mask mgr &&& op = Operation.none then enable mgr op s else s

/-- One act. -/
def perform (s : KqueueMultiplexer) : Act → Except Fault KqueueMultiplexer
  | .registerReading mgr => .ok (registerFor mgr Operation.read s)
  | .registerWriting mgr => .ok (registerFor mgr Operation.write s)
  | .setTimeout mgr when => .ok (s.setTimeout mgr when).2
  | .add mgr initial => .ok (register mgr initial s)
  | .shutdown => shutdown s
  | .rehash order => .ok { s with managers := s.managers.rehash order }

/-- A handler: what it does, and what it returns. -/
structure Handler where
  acts : KqueueMultiplexer → List Act
  verdict : KqueueMultiplexer → ManagerResult

/-! ### `handle_events` -/

/-- An event that `kevent` reports, and the handler that it leads to. -/
structure Event where
  ident : SocketId
  filter : Filter
  flags : KeventFlags
  handler : Handler

/-- A handler that was called: for which operation and with which event flags, whether its manager has
been registered since the `kevent`, its verdict, the mask before the call and after the verdict was
handled, and whether the manager is registered then. -/
structure Dispatch where
  mgr : Manager
  op : Operation
  flags : KeventFlags
  polled : Bool
  verdict : ManagerResult
  before : Operation
  after : Operation
  kept : Bool
  deriving DecidableEq

/-- The multiplexer, the managers that have been registered since the last `kevent`, and the handlers
called for its events. -/
structure Loop where
  mpx : KqueueMultiplexer
  polled : List Manager := []
  dispatches : List Dispatch := []

/-- The multiplexer has gone on. -/
def Loop.goOn (l : Loop) (s : KqueueMultiplexer) : Loop :=
  { l with mpx := s, polled := l.polled.filter (· ∈ s.managers.elems) }

/-- The lambda `handle_result` of `handle_events`. -/
def handleResult (mgr : Manager) (res : ManagerResult) (op : Operation) (s : KqueueMultiplexer) :
    Except Fault KqueueMultiplexer :=
  match res with
  | .done => if mgr ∈ s.managers.elems then .ok (disable mgr op true s) else .error .dangling
  | .error => if mgr ∈ s.managers.elems then .ok (del mgr.handle s) else .error .dangling
  | _ => .ok s

/-- The handler of an event is called and its verdict is handled. -/
def dispatch (mgr : Manager) (event : Event) (op : Operation) (l : Loop) : Except Fault Loop := do
  let s ← (event.handler.acts l.mpx).foldlM perform l.mpx
  let verdict := event.handler.verdict l.mpx
  let s ← handleResult mgr verdict op s
  return { l.goOn s with
    dispatches := l.dispatches ++
      [⟨mgr, op, event.flags, decide (mgr ∈ l.polled), verdict, l.mpx.mask mgr, s.mask mgr,
        decide (mgr ∈ s.managers.elems)⟩] }

/-- The body of the loop of `handle_events`. -/
def handleEvent (l : Loop) (event : Event) : Except Fault Loop :=
  if event.flags &&& evEof ≠ 0 then .ok (l.goOn (del event.ident l.mpx))
  else
    match l.mpx.managers.find? event.ident with
    | none => .ok l
    | some mgr =>
      if event.filter = evfiltRead then dispatch mgr event Operation.read l
      else if event.filter = evfiltWrite then dispatch mgr event Operation.write l
      else .ok l

/-- `handle_events`. -/
def handleEvents (events : List Event) (l : Loop) : Except Fault Loop := events.foldlM handleEvent l

/-! ### `poll_once` -/

/-- What `kevent` answers: an error, of which `EINTR` is none, or events; then the readings of the clock
and the acts of the timeout handlers in the call of `handle_timeouts`. -/
inductive Poll where
  | failed (interrupted : Bool)
  | events (now : ℕ → ℤ) (onTimeout : ℕ → KqueueMultiplexer → List Act) (events : List Event)

/-- `handle_timeouts`, with the acts of its handlers. -/
def timeouts (now : ℕ → ℤ) (onTimeout : ℕ → KqueueMultiplexer → List Act) (s : KqueueMultiplexer) :
    Except Fault KqueueMultiplexer :=
  s.handleTimeouts (fun k _ _ s => (onTimeout k s).foldlM perform s) now

/-- `poll_once`: whether it returns an error. In any case `update_cache_` is cleared. -/
def pollOnce (poll : Poll) (l : Loop) : Except Fault (Bool × Loop) :=
  let s := flush l.mpx
  match poll with
  | .failed interrupted => .ok (!interrupted, ⟨s, s.managers.elems, []⟩)
  | .events now onTimeout events => do
    let s' ← timeouts now onTimeout s
    let l ← handleEvents events (Loop.goOn ⟨s, s.managers.elems, []⟩ s')
    return (false, l)

/-! ### Runs -/

/-- What happens on the thread of the multiplexer: an act outside of handlers, such as those of `init`,
or a call of `poll_once`. -/
inductive Step where
  | act (a : Act)
  | poll (p : Poll)

/-- One step of a run that may have ended in a fault. -/
def runStep (r : Except Fault Loop) : Step → Except Fault Loop
  | .act a => do
    let l ← r
    let s ← perform l.mpx a
    return l.goOn s
  | .poll p => do
    let l ← r
    let (_, l) ← pollOnce p l
    return l

/-! ### What acts do -/

/-- Before a shutdown: a manager registers itself while it is there, and a new one, with a socket that
nobody else has, waits for nothing yet and is to read or write. -/
def Legal (s : KqueueMultiplexer) : Act → Prop
  | .registerReading mgr => mgr ∈ s.managers.elems
  | .registerWriting mgr => mgr ∈ s.managers.elems
  | .setTimeout _ _ => True
  | .add mgr initial => mgr.handle ∉ s.managers.elems.map Manager.handle ∧
      s.mask mgr = Operation.none ∧ Translatable initial
  | .shutdown => False
  | .rehash _ => True

/-- Every act is legal where it happens. -/
def LegalActs : List Act → KqueueMultiplexer → Prop
  | [], _ => True
  | a :: as, s => Legal s a ∧ ∀ s', perform s a = .ok s' → LegalActs as s'

/-- **What holds between two calls**: the filters mirror the masks, which ask for reading and writing
only. -/
structure Inv (s : KqueueMultiplexer) : Prop where
  present : Present s
  mirrored : Mirrored s
  narrow : ∀ mgr ∈ s.managers.elems, s.mask mgr &&& ~~~Operation.readWrite = Operation.none

/-- No manager leaves, and no manager waits for less. -/
structure Grows (s s' : KqueueMultiplexer) : Prop where
  stays : ∀ mgr ∈ s.managers.elems, mgr ∈ s'.managers.elems
  mask : ∀ mgr ∈ s.managers.elems, ∀ side : Side, (s.mask mgr).contains side.operation = true →
    (s'.mask mgr).contains side.operation = true

variable {s s' : KqueueMultiplexer} {mgr m : Manager} {op : Operation}

theorem Grows.refl (s : KqueueMultiplexer) : Grows s s := ⟨fun _ h => h, fun _ _ _ h => h⟩

theorem Grows.trans {s'' : KqueueMultiplexer} (h : Grows s s') (h' : Grows s' s'') : Grows s s'' :=
  ⟨fun m hm => h'.stays m (h.stays m hm),
    fun m hm side hc => h'.mask m (h.stays m hm) side (h.mask m hm side hc)⟩

theorem translatable_or {mask : Operation} (side : Side)
    (hmask : mask &&& ~~~Operation.readWrite = Operation.none) :
    Translatable (mask ||| side.operation) ∧
      (mask ||| side.operation) &&& ~~~Operation.readWrite = Operation.none := by
  have hall : ∀ mask : Operation, mask &&& ~~~Operation.readWrite = Operation.none →
      (Translatable (mask ||| Operation.read) ∧
        (mask ||| Operation.read) &&& ~~~Operation.readWrite = Operation.none) ∧
      (Translatable (mask ||| Operation.write) ∧
        (mask ||| Operation.write) &&& ~~~Operation.readWrite = Operation.none) := by decide +kernel
  cases side with
  | reading => exact (hall mask hmask).1
  | writing => exact (hall mask hmask).2

/-- `enable` sets a mask that contains the old one. -/
theorem enable_mask (mgr m : Manager) (op : Operation) (s : KqueueMultiplexer) :
    (enable mgr op s).mask m = s.mask m ∨
      m = mgr ∧ (enable mgr op s).mask m = s.mask m ||| op ∧
        maskAdd (s.mask m) op = some (s.mask m ||| op) := by
  unfold enable
  cases hadd : maskAdd (s.mask mgr) op with
  | none => exact .inl rfl
  | some mask =>
    dsimp only
    rw [mod_mask]
    by_cases hm : m = mgr
    · subst hm
      obtain ⟨rfl, -, -⟩ := maskAdd_some hadd
      rw [MultiplexerBase.maskSet_mask_self]
      exact .inr ⟨rfl, rfl, hadd⟩
    · rw [MultiplexerBase.maskSet_mask_of_ne s mask hm]
      exact .inl rfl

/-- **A registered manager registers for a side.** -/
theorem registerFor_inv (side : Side) (hmgr : mgr ∈ s.managers.elems) (h : Inv s) :
    Inv (registerFor mgr side.operation s) ∧ Grows s (registerFor mgr side.operation s) := by
  unfold registerFor
  split_ifs
  · have htranslates : Translates s (.enable mgr side.operation) := by
      intro mask hmask
      obtain ⟨rfl, -, -⟩ := maskAdd_some hmask
      exact (translatable_or side (h.narrow mgr hmgr)).1
    refine ⟨⟨enable_present h.present, (enable_mirrored_iff h.present h.mirrored hmgr).mpr htranslates,
      fun m hm => ?_⟩, fun m hm => ?_, fun m hm side' hc => ?_⟩
    · rw [enable_managers] at hm
      rcases enable_mask mgr m side.operation s with hsame | ⟨-, hmask, -⟩
      · rw [hsame]
        exact h.narrow m hm
      · rw [hmask]
        exact (translatable_or side (h.narrow m hm)).2
    · rw [enable_managers]
      exact hm
    · rcases enable_mask mgr m side.operation s with hsame | ⟨-, hmask, hadd⟩
      · rw [hsame]
        exact hc
      · rw [hmask]
        exact maskAdd_contains hadd side' hc
  · exact ⟨h, Grows.refl s⟩

/-- **A new manager is registered.** -/
theorem register_inv {initial : Operation} (hfresh : mgr.handle ∉ s.managers.elems.map Manager.handle)
    (hmask : s.mask mgr = Operation.none) (hinitial : Translatable initial) (h : Inv s) :
    Inv (register mgr initial s) ∧ Grows s (register mgr initial s) := by
  have hnone : ∀ op : Operation, Operation.none &&& op = Operation.none := by decide +kernel
  have hzero : ∀ op : Operation, Operation.none ||| op = op := by decide +kernel
  have hadd : maskAdd (s.mask mgr) initial = some initial := by
    have hne : s.mask mgr &&& initial ≠ initial := by
      rw [hmask, hnone]
      rcases hinitial with rfl | rfl | rfl
      · decide
      · decide
      · decide
    have hsome : maskAdd (s.mask mgr) initial = some (s.mask mgr ||| initial) := if_neg hne
    rw [hsome, hmask, hzero]
  have hmasks : ∀ m, (register mgr initial s).mask m = if m = mgr then initial else s.mask m := by
    intro m
    have hmod : (mod mgr.handle (evAdd ||| evDisable) Operation.readWrite s).mask = s.mask := mod_mask
    change (enable mgr initial (mod mgr.handle (evAdd ||| evDisable) Operation.readWrite s)).mask m = _
    unfold enable
    rw [hmod, hadd]
    dsimp only
    rw [mod_mask]
    split_ifs with hm
    · subst hm
      rw [MultiplexerBase.maskSet_mask_self]
    · rw [MultiplexerBase.maskSet_mask_of_ne _ initial hm, hmod]
  have hother : ∀ m ∈ s.managers.elems, m ≠ mgr := fun m hm he => hfresh (he ▸ List.mem_map_of_mem hm)
  refine ⟨⟨register_present hfresh h.present, (register_mirrored_iff hfresh h.mirrored).mpr ⟨?_, ?_⟩,
    fun m hm => ?_⟩, fun m hm => (mem_register hfresh).mpr (Or.inr hm), fun m hm side hc => ?_⟩
  · intro habsent
    rw [hadd] at habsent
    cases habsent
  · intro mask hsome
    rw [hadd] at hsome
    obtain rfl := Option.some.inj hsome
    exact hinitial
  · rw [hmasks]
    split_ifs with he
    · rcases hinitial with rfl | rfl | rfl
      · decide
      · decide
      · decide
    · exact h.narrow m (((mem_register hfresh).mp hm).resolve_left he)
  · rw [hmasks, if_neg (hother m hm)]
    exact hc

/-- **One legal act.** -/
theorem perform_inv {a : Act} (ha : Legal s a) (h : Inv s) :
    ∃ s', perform s a = .ok s' ∧ Inv s' ∧ Grows s s' := by
  cases a with
  | registerReading mgr =>
    obtain ⟨hinv, hgrows⟩ := registerFor_inv .reading ha h
    exact ⟨_, rfl, hinv, hgrows⟩
  | registerWriting mgr =>
    obtain ⟨hinv, hgrows⟩ := registerFor_inv .writing ha h
    exact ⟨_, rfl, hinv, hgrows⟩
  | setTimeout mgr when =>
    refine ⟨_, rfl, ⟨h.present, ?_, h.narrow⟩, ⟨fun _ hm => hm, fun _ _ _ hc => hc⟩⟩
    exact ⟨h.mirrored.read, h.mirrored.write, h.mirrored.valid⟩
  | add mgr initial =>
    obtain ⟨hfresh, hmask, hinitial⟩ := ha
    obtain ⟨hinv, hgrows⟩ := register_inv hfresh hmask hinitial h
    exact ⟨_, rfl, hinv, hgrows⟩
  | shutdown => exact ha.elim
  | rehash order =>
    have hmem : ∀ m, m ∈ (s.managers.rehash order).elems ↔ m ∈ s.managers.elems :=
      fun m => (s.managers.rehash_perm order).mem_iff
    refine ⟨_, rfl, ⟨fun m hm side => h.present m ((hmem m).mp hm) side, ?_,
      fun m hm => h.narrow m ((hmem m).mp hm)⟩, ⟨fun m hm => (hmem m).mpr hm, fun _ _ _ hc => hc⟩⟩
    exact ⟨fun m hm => h.mirrored.read m ((hmem m).mp hm), fun m hm => h.mirrored.write m ((hmem m).mp hm),
      h.mirrored.valid⟩

/-- **Legal acts.** -/
theorem acts_inv {as : List Act} (ha : LegalActs as s) (h : Inv s) :
    ∃ s', as.foldlM perform s = .ok s' ∧ Inv s' ∧ Grows s s' := by
  induction as generalizing s with
  | nil => exact ⟨s, rfl, h, Grows.refl s⟩
  | cons a as ih =>
    obtain ⟨s₁, hperform, hinv, hgrows⟩ := perform_inv ha.1 h
    obtain ⟨s', hrest, hinv', hgrows'⟩ := ih (ha.2 s₁ hperform) hinv
    refine ⟨s', ?_, hinv', hgrows.trans hgrows'⟩
    rw [List.foldlM_cons, hperform]
    exact hrest

/-! ### What verdicts do -/

/-- **What a verdict leads to.** After `done` the operation is not waited for, and a manager that was
waiting for it is removed exactly if it waits for nothing else; after `error` the manager is removed; and
after any other verdict it is there and waits for as much as before. -/
def Settled (d : Dispatch) : Prop :=
  match d.verdict with
  | .done => d.after.contains d.op = false ∧
      (d.before.contains d.op = true → (d.kept = true ↔ d.after ≠ Operation.none))
  | .error => d.kept = false
  | _ => d.kept = true ∧ ∀ side : Side, d.before.contains side.operation = true →
      d.after.contains side.operation = true

/-- A handler that runs for an event of this `kevent`, for the first time, belongs to a manager that
waits for the operation. -/
def Due (earlier : List Dispatch) (d : Dispatch) : Prop :=
  d.polled = true → d.flags &&& evError = 0 → (∀ d' ∈ earlier, ¬(d'.mgr = d.mgr ∧ d'.op = d.op)) →
    d.before.contains d.op = true

/-- What holds of the handlers called for the events of a `kevent`. -/
def Served (l : List Dispatch) : Prop := ∀ i d, l[i]? = some d → Due (l.take i) d ∧ Settled d

theorem served_append {l : List Dispatch} {d : Dispatch} (hl : Served l) (hdue : Due l d)
    (hsettled : Settled d) : Served (l ++ [d]) := by
  intro i d' hd'
  rcases lt_trichotomy i l.length with hlt | rfl | hgt
  · rw [List.getElem?_append_left hlt] at hd'
    rw [List.take_append_of_le_length hlt.le]
    exact hl i d' hd'
  · rw [List.getElem?_append_right le_rfl, Nat.sub_self] at hd'
    obtain rfl : d = d' := Option.some.inj hd'
    rw [List.take_left']
    · exact ⟨hdue, hsettled⟩
    · rfl
  · rw [List.getElem?_append_right hgt.le] at hd'
    have hnone : [d][i - l.length]? = none := List.getElem?_eq_none (by rw [List.length_singleton]; omega)
    rw [hnone] at hd'
    cases hd'

/-- `del` of any socket. -/
theorem del_inv (fd : SocketId) (h : Inv s) : Inv (del fd s) := by
  refine ⟨del_present h.present, del_mirrored h.mirrored, fun m hm => ?_⟩
  rw [del_mask]
  exact h.narrow m (mem_del.mp hm).1

theorem not_contains_self (side : Side) (mask : Operation) :
    (mask &&& ~~~side.operation).contains side.operation = false := by
  rw [contains_and_not side.operation_mem]
  cases side with
  | reading => exact Bool.and_false _
  | writing => exact Bool.and_false _

theorem contains_other {side side' : Side} (h : side' ≠ side) (mask : Operation) :
    (mask &&& ~~~side.operation).contains side'.operation = mask.contains side'.operation := by
  rw [contains_and_not side'.operation_mem]
  have hno : side.operation.contains side'.operation = false := by
    cases side with
    | reading =>
      cases side' with
      | reading => exact absurd rfl h
      | writing => decide
    | writing =>
      cases side' with
      | reading => decide
      | writing => exact absurd rfl h
  rw [hno]
  exact Bool.and_true _

/-- **`done` for a side**: only the one manager changes, and only for that side. -/
theorem disable_inv (side : Side) (hmgr : mgr ∈ s.managers.elems) (h : Inv s) :
    Inv (disable mgr side.operation true s) ∧
      (∀ m ∈ (disable mgr side.operation true s).managers.elems, m ∈ s.managers.elems) ∧
      (∀ m, m ≠ mgr → (disable mgr side.operation true s).mask m = s.mask m) ∧
      (disable mgr side.operation true s).mask mgr = s.mask mgr &&& ~~~side.operation ∧
      ((s.mask mgr).contains side.operation = true →
        (mgr ∈ (disable mgr side.operation true s).managers.elems ↔
          s.mask mgr &&& ~~~side.operation ≠ Operation.none)) := by
  have htranslates : Translates s (.disable mgr side.operation true) := by
    intro _
    cases side with
    | reading => exact .inl rfl
    | writing => exact .inr (.inl rfl)
  have hpresent : Present (disable mgr side.operation true s) := disable_present h.present
  have hmirrored : Mirrored (disable mgr side.operation true s) :=
    (disable_mirrored_iff h.present h.mirrored hmgr).mpr htranslates
  have hnarrow : ∀ mask : Operation, mask &&& ~~~Operation.readWrite = Operation.none →
      (mask &&& ~~~side.operation) &&& ~~~Operation.readWrite = Operation.none := by
    intro mask hmask
    rw [BitVec.and_assoc, BitVec.and_comm (~~~side.operation), ← BitVec.and_assoc, hmask]
    exact BitVec.zero_and
  unfold disable at hpresent hmirrored ⊢
  cases hdel : maskDel (s.mask mgr) side.operation with
  | none =>
    have hsame := mask_of_maskDel_none hdel
    refine ⟨h, fun m hm => hm, fun m _ => rfl, hsame.symm, fun hc => ?_⟩
    have hnone := and_of_maskDel_none hdel
    unfold Operation.contains at hc
    rw [hnone] at hc
    cases side with
    | reading => exact absurd hc (by decide)
    | writing => exact absurd hc (by decide)
  | some mask =>
    obtain rfl := mask_of_maskDel_some hdel
    rw [hdel] at hpresent hmirrored
    dsimp only at hpresent hmirrored ⊢
    rw [Bool.true_and, mod_mask, MultiplexerBase.maskSet_mask_self] at hpresent hmirrored ⊢
    have hmasks : ∀ m, m ≠ mgr →
        (s.maskSet mgr (s.mask mgr &&& ~~~side.operation)).mask m = s.mask m :=
      fun m hm => MultiplexerBase.maskSet_mask_of_ne s _ hm
    by_cases hempty : s.mask mgr &&& ~~~side.operation = Operation.none
    · rw [if_pos (decide_eq_true hempty)] at hpresent hmirrored ⊢
      have hmem : ∀ m, m ∈ (del mgr.handle (mod mgr.handle evDisable side.operation
          (s.maskSet mgr (s.mask mgr &&& ~~~side.operation)))).managers.elems ↔
          m ∈ s.managers.elems ∧ m.handle ≠ mgr.handle := by
        intro m
        rw [mem_del, mod_managers]
        exact Iff.rfl
      refine ⟨⟨hpresent, hmirrored, fun m hm => ?_⟩, fun m hm => ((hmem m).mp hm).1, fun m hm => ?_, ?_,
        fun _ => ?_⟩
      · obtain ⟨hm, hne⟩ := (hmem m).mp hm
        rw [del_mask, mod_mask, hmasks m fun he => hne (congrArg Manager.handle he)]
        exact h.narrow m hm
      · rw [del_mask, mod_mask, hmasks m hm]
      · rw [del_mask, mod_mask, MultiplexerBase.maskSet_mask_self]
      · rw [hmem]
        exact iff_of_false (fun hno => hno.2 rfl) fun hno => hno hempty
    · rw [if_neg (Bool.eq_false_iff.mp (decide_eq_false hempty))] at hpresent hmirrored ⊢
      refine ⟨⟨hpresent, hmirrored, fun m hm => ?_⟩, fun m hm => ?_, fun m hm => ?_, ?_, fun _ => ?_⟩
      · rw [mod_managers] at hm
        rw [mod_mask]
        by_cases he : m = mgr
        · subst he
          rw [MultiplexerBase.maskSet_mask_self]
          exact hnarrow _ (h.narrow m hm)
        · rw [hmasks m he]
          exact h.narrow m hm
      · rw [mod_managers] at hm
        exact hm
      · rw [mod_mask, hmasks m hm]
      · rw [mod_mask, MultiplexerBase.maskSet_mask_self]
      · rw [mod_managers]
        exact iff_of_true hmgr hempty

/-- **A verdict is handled** where the handler has left as many operations as it was called with. -/
theorem handleResult_inv (side : Side) (res : ManagerResult) (hmgr : mgr ∈ s.managers.elems) (h : Inv s) :
    ∃ s', handleResult mgr res side.operation s = .ok s' ∧ Inv s' ∧
      (∀ m side', (m ≠ mgr ∨ side' ≠ side) → (s.mask m).contains side'.operation = true →
        (s'.mask m).contains side'.operation = true) ∧
      ∀ flags polled before, (∀ side' : Side, before.contains side'.operation = true →
          (s.mask mgr).contains side'.operation = true) →
        Settled ⟨mgr, side.operation, flags, polled, res, before, s'.mask mgr,
          decide (mgr ∈ s'.managers.elems)⟩ := by
  unfold handleResult
  cases res with
  | done =>
    obtain ⟨hinv, -, hothers, hself, hkept⟩ := disable_inv side hmgr h
    refine ⟨_, if_pos hmgr, hinv, fun m side' hne hc => ?_, fun flags polled before hbefore => ?_⟩
    · by_cases hm : m = mgr
      · subst hm
        rw [hself, contains_other (hne.resolve_left (not_not_intro rfl))]
        exact hc
      · rw [hothers m hm]
        exact hc
    · dsimp only [Settled]
      rw [hself]
      exact ⟨not_contains_self side _, fun hc => decide_eq_true_iff.trans (hkept (hbefore side hc))⟩
  | error =>
    refine ⟨_, if_pos hmgr, del_inv mgr.handle h, fun m side' _ hc => ?_, fun flags polled before _ => ?_⟩
    · rw [del_mask]
      exact hc
    · exact decide_eq_false fun hm => (mem_del.mp hm).2 rfl
  | ok | temporaryError =>
    exact ⟨s, rfl, h, fun _ _ _ hc => hc, fun _ _ _ hbefore => ⟨decide_eq_true hmgr, hbefore⟩⟩

/-! ### A batch -/

/-- **Between two events of a batch**, where `s₀` is the multiplexer at the `kevent`: who has been
registered since waits for as much as then, up to the operations whose handler was called. -/
structure Batch (s₀ : KqueueMultiplexer) (l : Loop) : Prop where
  inv : Inv l.mpx
  registered : ∀ m ∈ l.polled, m ∈ s₀.managers.elems ∧ m ∈ l.mpx.managers.elems
  waits : ∀ m ∈ l.polled, ∀ side : Side, (s₀.mask m).contains side.operation = true →
    (∀ d ∈ l.dispatches, ¬(d.mgr = m ∧ d.op = side.operation)) →
      (l.mpx.mask m).contains side.operation = true
  served : Served l.dispatches

/-- What keeps the masks of those that are left keeps the batch. -/
theorem Batch.goOn {s₀ : KqueueMultiplexer} {l : Loop} (h : Batch s₀ l) (hinv : Inv s')
    (hmask : ∀ m ∈ l.mpx.managers.elems, ∀ side : Side,
      (l.mpx.mask m).contains side.operation = true → (s'.mask m).contains side.operation = true) :
    Batch s₀ (l.goOn s') := by
  have hpolled : ∀ m ∈ (l.goOn s').polled, m ∈ l.polled ∧ m ∈ s'.managers.elems := by
    intro m hm
    obtain ⟨hm, hs'⟩ := List.mem_filter.mp hm
    exact ⟨hm, of_decide_eq_true hs'⟩
  refine ⟨hinv, fun m hm => ?_, fun m hm side hc hnone => ?_, h.served⟩
  · obtain ⟨hm, hs'⟩ := hpolled m hm
    exact ⟨(h.registered m hm).1, hs'⟩
  · obtain ⟨hm, -⟩ := hpolled m hm
    exact hmask m (h.registered m hm).2 side (h.waits m hm side hc hnone)

/-- **A handler is called**, for an error report or for an operation that its manager waited for. -/
theorem dispatch_batch (side : Side) {s₀ : KqueueMultiplexer} {l : Loop} {event : Event} (h : Batch s₀ l)
    (hmgr : mgr ∈ l.mpx.managers.elems)
    (hreal : event.flags &&& evError = 0 → mgr ∈ s₀.managers.elems →
      (s₀.mask mgr).contains side.operation = true)
    (hacts : LegalActs (event.handler.acts l.mpx) l.mpx) :
    ∃ l', dispatch mgr event side.operation l = .ok l' ∧ Batch s₀ l' := by
  obtain ⟨s₁, hrun, hinv₁, hgrows⟩ := acts_inv hacts h.inv
  obtain ⟨s₂, hresult, hinv₂, hmasks, hsettled⟩ :=
    handleResult_inv side (event.handler.verdict l.mpx) (hgrows.stays mgr hmgr) hinv₁
  set d : Dispatch := ⟨mgr, side.operation, event.flags, decide (mgr ∈ l.polled),
    event.handler.verdict l.mpx, l.mpx.mask mgr, s₂.mask mgr, decide (mgr ∈ s₂.managers.elems)⟩
  have hdue : Due l.dispatches d := by
    intro hpolled hflags hfirst
    have hmem : mgr ∈ l.polled := of_decide_eq_true hpolled
    exact h.waits mgr hmem side (hreal hflags (h.registered mgr hmem).1) hfirst
  have hserved : Served (l.dispatches ++ [d]) :=
    served_append h.served hdue (hsettled event.flags _ (l.mpx.mask mgr) (hgrows.mask mgr hmgr))
  refine ⟨{ l.goOn s₂ with dispatches := l.dispatches ++ [d] }, ?_,
    ⟨hinv₂, fun m hm => ?_, fun m hm side' hc hnone => ?_, hserved⟩⟩
  · unfold dispatch
    rw [hrun]
    change (handleResult mgr _ side.operation s₁ >>= _) = _
    rw [hresult]
    rfl
  · obtain ⟨hm, hs₂⟩ := List.mem_filter.mp hm
    exact ⟨(h.registered m hm).1, of_decide_eq_true hs₂⟩
  · obtain ⟨hm, -⟩ := List.mem_filter.mp hm
    have hbefore := h.waits m hm side' hc fun d hd => hnone d (List.mem_append_left _ hd)
    have hother : m ≠ mgr ∨ side' ≠ side := by
      by_contra hboth
      rw [not_or, not_not, not_not] at hboth
      obtain ⟨rfl, rfl⟩ := hboth
      exact hnone _ (List.mem_append_right _ (List.mem_singleton_self _)) ⟨rfl, rfl⟩
    exact hmasks m side' hother (hgrows.mask m (h.registered m hm).2 side' hbefore)

/-- `kevent` reports that a filter is ready which is enabled, or that an entry failed. -/
def Reported (s : KqueueMultiplexer) (event : Event) : Prop :=
  event.flags &&& evError = 0 → filters s event.ident event.filter = some true

/-- **One event.** -/
theorem handleEvent_batch {s₀ : KqueueMultiplexer} {l : Loop} {event : Event} (h : Batch s₀ l)
    (h₀ : Inv s₀) (hevent : Reported s₀ event) (hacts : ∀ s, LegalActs (event.handler.acts s) s) :
    ∃ l', handleEvent l event = .ok l' ∧ Batch s₀ l' := by
  unfold handleEvent
  by_cases heof : event.flags &&& evEof ≠ 0
  · rw [if_pos heof]
    refine ⟨_, rfl, h.goOn (del_inv event.ident h.inv) fun m _ side hc => ?_⟩
    rw [del_mask]
    exact hc
  · rw [if_neg heof]
    cases hfind : l.mpx.managers.find? event.ident with
    | none => exact ⟨l, rfl, h⟩
    | some mgr =>
      obtain ⟨hmgr, hhandle⟩ := KeyedMap.find?_eq_some.mp hfind
      have hreal : ∀ side : Side, event.filter = side.filter → event.flags &&& evError = 0 →
          mgr ∈ s₀.managers.elems → (s₀.mask mgr).contains side.operation = true := by
        intro side hfilter hflags hmem
        have hon := hevent hflags
        rw [← hhandle, hfilter] at hon
        exact ((mirrored_iff.mp h₀.mirrored).2 mgr hmem side).mp hon
      dsimp only
      by_cases hread : event.filter = evfiltRead
      · rw [if_pos hread]
        exact dispatch_batch .reading h hmgr (hreal .reading hread) (hacts l.mpx)
      · rw [if_neg hread]
        by_cases hwrite : event.filter = evfiltWrite
        · rw [if_pos hwrite]
          exact dispatch_batch .writing h hmgr (hreal .writing hwrite) (hacts l.mpx)
        · rw [if_neg hwrite]
          exact ⟨l, rfl, h⟩

/-- **All events of a batch.** -/
theorem handleEvents_batch {s₀ : KqueueMultiplexer} (h₀ : Inv s₀) {events : List Event} {l : Loop}
    (h : Batch s₀ l)
    (hevents : ∀ event ∈ events, Reported s₀ event ∧ ∀ s, LegalActs (event.handler.acts s) s) :
    ∃ l', handleEvents events l = .ok l' ∧ Batch s₀ l' := by
  induction events generalizing l with
  | nil => exact ⟨l, rfl, h⟩
  | cons event events ih =>
    obtain ⟨hevent, hrest⟩ := List.forall_mem_cons.mp hevents
    obtain ⟨l₁, hfirst, h₁⟩ := handleEvent_batch h h₀ hevent.1 hevent.2
    obtain ⟨l', hlater, h'⟩ := ih h₁ hrest
    refine ⟨l', ?_, h'⟩
    unfold handleEvents at hlater ⊢
    rw [List.foldlM_cons, hfirst]
    exact hlater

/-! ### Polls -/

theorem flush_inv (h : Inv s) : Inv (flush s) := by
  have hentries : entries (flush s) = entries s := List.append_nil _
  have hfilters : filters (flush s) = filters s := congrArg replay hentries
  refine ⟨fun m hm side => hfilters ▸ h.present m hm side, ⟨?_, ?_, ?_⟩, h.narrow⟩
  · exact hfilters ▸ h.mirrored.read
  · exact hfilters ▸ h.mirrored.write
  · exact hentries ▸ h.mirrored.valid

/-- **`handle_timeouts`** removes nobody; a timeout whose manager is gone ends it. -/
theorem timeouts_inv {now : ℕ → ℤ} {onTimeout : ℕ → KqueueMultiplexer → List Act}
    (hacts : ∀ k s, LegalActs (onTimeout k s) s) (h : Inv s) :
    (∃ s', timeouts now onTimeout s = .ok s' ∧ Inv s' ∧ Grows s s') ∨
      timeouts now onTimeout s = .error .outOfRange := by
  refine MultiplexerBase.handleTimeouts_total (I := fun s' => Inv s' ∧ Grows s s')
    (fun k _ _ s₁ h₁ => ?_) (fun s₁ _ _ _ h₁ => ?_) ⟨h, Grows.refl s⟩
  · obtain ⟨s₂, hok, hinv, hgrows⟩ := acts_inv (hacts k s₁) h₁.1
    exact ⟨s₂, hok, hinv, h₁.2.trans hgrows⟩
  · obtain ⟨hinv, hgrows⟩ := h₁
    exact ⟨⟨hinv.present, ⟨hinv.mirrored.read, hinv.mirrored.write, hinv.mirrored.valid⟩, hinv.narrow⟩,
      ⟨hgrows.stays, hgrows.mask⟩⟩

/-- Before a shutdown, with a kernel that reports enabled filters. -/
def LegalPoll (s : KqueueMultiplexer) : Poll → Prop
  | .failed _ => True
  | .events _ onTimeout events => (∀ k s, LegalActs (onTimeout k s) s) ∧
      ∀ event ∈ events, Reported (flush s) event ∧ ∀ s, LegalActs (event.handler.acts s) s

/-- What a run leads to: the invariant and handlers that are served, or a timeout whose manager is
gone. -/
def Sound : Except Fault Loop → Prop
  | .ok l => Inv l.mpx ∧ Served l.dispatches
  | .error fault => fault = .outOfRange

/-- **One call of `poll_once`.** -/
theorem pollOnce_sound {p : Poll} {l : Loop} (hp : LegalPoll l.mpx p) (h : Inv l.mpx) :
    Sound ((pollOnce p l).map Prod.snd) := by
  have hnone : Served [] := fun i d hd => by cases hd
  have hflush := flush_inv h
  cases p with
  | failed interrupted => exact ⟨hflush, hnone⟩
  | events now onTimeout events =>
    obtain ⟨hacts, hevents⟩ := hp
    have hbatch : Batch (flush l.mpx) ⟨flush l.mpx, (flush l.mpx).managers.elems, []⟩ :=
      ⟨hflush, fun m hm => ⟨hm, hm⟩, fun m _ side hc _ => hc, hnone⟩
    unfold pollOnce
    dsimp only
    have htimeouts : (∃ s', timeouts now onTimeout (flush l.mpx) = .ok s' ∧ Inv s' ∧ Grows (flush l.mpx) s') ∨
        timeouts now onTimeout (flush l.mpx) = .error .outOfRange := timeouts_inv hacts hflush
    rcases htimeouts with ⟨s', hok, hinv, hgrows⟩ | hfault
    · obtain ⟨l', hall, h'⟩ := handleEvents_batch hflush (hbatch.goOn hinv hgrows.mask) hevents
      rw [hok]
      change Sound ((handleEvents events _ >>= _).map Prod.snd)
      rw [hall]
      exact ⟨h'.inv, h'.served⟩
    · rw [hfault]
      rfl

/-! ### Runs -/

/-- Before a shutdown, with a kernel that reports enabled filters; a run that ended is left alone. -/
def LegalStep : Except Fault Loop → Step → Prop
  | .ok l, .act a => Legal l.mpx a
  | .ok l, .poll p => LegalPoll l.mpx p
  | .error _, _ => True

theorem runStep_sound (r : Except Fault Loop) (e : Step) (h : Sound r) (he : LegalStep r e) :
    Sound (runStep r e) := by
  cases r with
  | error fault =>
    cases e with
    | act a => exact h
    | poll p => exact h
  | ok l =>
    cases e with
    | act a =>
      obtain ⟨s', hok, hinv, -⟩ := perform_inv he h.1
      change Sound (perform l.mpx a >>= _)
      rw [hok]
      exact ⟨hinv, h.2⟩
    | poll p =>
      have hpoll := pollOnce_sound he h.1
      change Sound (pollOnce p l >>= _)
      generalize pollOnce p l = o at hpoll ⊢
      cases o with
      | error fault => exact hpoll
      | ok x => exact hpoll

/-- **The event loop of kqueue before a shutdown.** In every state of every run: the filters that the
kernel is told of mirror the masks of the registered managers; the first call of a handler in a batch,
unless for an error report or for a manager that came after the `kevent`, is for an operation that its
manager waits for; every verdict is settled; and nothing that was erased is used. Only a timeout whose
manager is gone ends a run. -/
theorem polls_sound (pipeReader pipeWriter : SocketId) (steps : List Step)
    (hlegal : Along runStep LegalStep (.ok { mpx := start pipeReader pipeWriter }) steps) :
    Always runStep Sound (.ok { mpx := start pipeReader pipeWriter }) steps := by
  have hinv : Inv (start pipeReader pipeWriter) :=
    ⟨fun m hm => absurd hm List.not_mem_nil,
      ⟨fun m hm => absurd hm List.not_mem_nil, fun m hm => absurd hm List.not_mem_nil,
        fun e he => absurd he List.not_mem_nil⟩,
      fun m hm => absurd hm List.not_mem_nil⟩
  exact always_of_along runStep_sound ⟨hinv, fun i d hd => by cases hd⟩ hlegal

/-- A read handler that registers its manager for writing. -/
def answering : Handler where
  acts s := if (⟨1, 4⟩ : Manager) ∈ s.managers.elems then [.registerWriting ⟨1, 4⟩] else []
  verdict _ := .ok

/-- A handler that has nothing more to do. -/
def finishing : Handler := ⟨fun _ => [], fun _ => .done⟩

/-- The updater and a stream are added; the stream reads, writes and is done with both. -/
def session : List Step :=
  [.act (.add ⟨0, 3⟩ Operation.read), .act (.add ⟨1, 4⟩ Operation.read),
    .poll (.events (fun _ => 0) (fun _ _ => []) [⟨4, evfiltRead, 0, answering⟩]),
    .poll (.events (fun _ => 0) (fun _ _ => [])
      [⟨4, evfiltWrite, 0, finishing⟩, ⟨4, evfiltRead, 0, finishing⟩])]

/-- What the run leads to: the stream is removed, and its two handlers were called for what it waited
for. -/
theorem polls_sound_session :
    Always runStep Sound (.ok { mpx := start 3 6 }) session ∧
      (run runStep (.ok { mpx := start 3 6 }) session).map
          (fun l => (l.mpx.managers.elems, l.dispatches)) =
        .ok ([⟨0, 3⟩],
          [⟨⟨1, 4⟩, Operation.write, 0, true, .done, Operation.readWrite, Operation.read, true⟩,
            ⟨⟨1, 4⟩, Operation.read, 0, true, .done, Operation.read, Operation.none, false⟩]) := by
  have hnothing : ∀ s, LegalActs [] s := fun _ => trivial
  have hanswering : ∀ s, LegalActs (answering.acts s) s := by
    intro s
    unfold answering
    dsimp only
    split_ifs with hmem
    · exact ⟨hmem, fun _ _ => trivial⟩
    · trivial
  refine ⟨polls_sound 3 6 session ⟨?_, ?_, ?_, ?_, trivial⟩, by decide +kernel⟩
  · exact ⟨by decide, rfl, .inl rfl⟩
  · exact ⟨by decide +kernel, rfl, .inl rfl⟩
  · refine ⟨fun _ => hnothing, fun event hevent => ?_⟩
    obtain rfl := List.mem_singleton.mp hevent
    exact ⟨fun _ => by decide +kernel, hanswering⟩
  · refine ⟨fun _ => hnothing, fun event hevent => ?_⟩
    rcases List.mem_cons.mp hevent with rfl | hevent
    · exact ⟨fun _ => by decide +kernel, hnothing⟩
    · obtain rfl := List.mem_singleton.mp hevent
      exact ⟨fun _ => by decide +kernel, hnothing⟩

end NetworkDriver.Net.Multiplexer.Kqueue.Events
