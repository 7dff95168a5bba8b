import NetworkDriver.Net.Multiplexer.Uring.Ports
import NetworkDriver.Net.StreamTransport.Uring.Model

/-! # The transport without its spans

What the functions of a stream transport do to its own members does not depend on the manager part. So a
map of the manager part that commutes with the registrations commutes with every function
(`fetchMoreData_map`, `handleReadResult_map`, `handleWriteResult_map`), and `bare`, which keeps the port
of a line only, takes the transport to the one of `Uring.Managers`.

The result is that the two models of the transport make the same moves: its own functions, what the
kernel puts into the read buffer, and what passes through the transport.

* `bare_run`: without its spans, every run of the transport is a run of moves.
* `object_dispatch`: so is what `Uring.Managers` does to a transport for a completion, for which the kernel
  fills the buffer only when it is dispatched. -/

namespace NetworkDriver.Net.StreamTransport.Uring.Bare

open NetworkDriver.Library.Run
open NetworkDriver.Net.Types NetworkDriver.Net.Multiplexer.Base
open NetworkDriver.Net.Multiplexer.Uring.Model NetworkDriver.Net.Multiplexer.Uring.Submissions
open NetworkDriver.Net.Multiplexer.Uring
open NetworkDriver.Net.Multiplexer.Uring.Managers (Port Object UringMultiplexer Kind withManager object
  setObject)
open NetworkDriver.Net.StreamTransport.Model hiding Event
open NetworkDriver.Net.StreamTransport.Callbacks
open NetworkDriver.Net.StreamTransport.Uring.Model
open StreamTransportBase

variable {M M' σ : Type}

/-! ### Maps of the manager part -/

/-- The same members with the image of the manager part. -/
def mapManager (f : M → M') (t : StreamTransportBase M σ) : StreamTransportBase M' σ :=
  withManager (f t.manager) t

section Map

variable (f : M → M')

theorem returnBuffer_map (buf : Library.Vectors.Vec) (t : StreamTransportBase M σ) :
    (mapManager f t).returnBuffer buf = ((t.returnBuffer buf).1, mapManager f (t.returnBuffer buf).2) := by
  change (if t.bufferCacheHasSpace then _ else _) = _
  unfold returnBuffer
  split_ifs <;> rfl

theorem removeStep_map (n : ℕ) (buf : Library.Vectors.Vec) (t : StreamTransportBase M σ) :
    removeStep n buf (mapManager f t) =
      ((removeStep n buf t).1, (removeStep n buf t).2.1, (removeStep n buf t).2.2.1,
        mapManager f (removeStep n buf t).2.2.2) := by
  unfold removeStep
  by_cases hfull : buf.size ≤ n
  · simp only [if_pos hfull, if_true, returnBuffer_map]
  · have hmemory : (mapManager f t).memory = t.memory := rfl
    have hcut : ({ mapManager f t with memory := (t.memory.eraseFront buf n).1 } :
        StreamTransportBase M' σ) = mapManager f { t with memory := (t.memory.eraseFront buf n).1 } := rfl
    simp only [if_neg hfull, hmemory, hcut, returnBuffer_map]
    split_ifs <;> rfl

theorem removeLoop_map (q : List Library.Vectors.Vec) (n : ℕ) (t : StreamTransportBase M σ) :
    removeLoop n q (mapManager f t) =
      ((removeLoop n q t).1, (removeLoop n q t).2.1, mapManager f (removeLoop n q t).2.2) := by
  induction q generalizing n t with
  | nil => rfl
  | cons buf q ih =>
    unfold removeLoop
    simp only [removeStep_map, ih]
    split_ifs <;> rfl

theorem removeWritten_map (n : ℕ) (t : StreamTransportBase M σ) :
    (mapManager f t).removeWrittenDataFromQueue n = mapManager f (t.removeWrittenDataFromQueue n) := by
  unfold removeWrittenDataFromQueue
  by_cases hzero : n = 0
  · rw [if_pos hzero, if_pos hzero]
  · rw [if_neg hzero, if_neg hzero]
    have hloop := removeLoop_map f t.writeQueue n
      { t with numEnqueuedBytes := subSize t.numEnqueuedBytes n }
    have hcount : ({ mapManager f t with
        numEnqueuedBytes := subSize (mapManager f t).numEnqueuedBytes n } : StreamTransportBase M' σ) =
        mapManager f { t with numEnqueuedBytes := subSize t.numEnqueuedBytes n } := rfl
    have hqueue : (mapManager f t).writeQueue = t.writeQueue := rfl
    dsimp only
    rw [hcount, hqueue, hloop]
    rfl

/-- **A write result.** -/
theorem handleWriteResult_map (res : ℤ) (temporary : Bool) (t : StreamTransportBase M σ) :
    (mapManager f t).handleWriteResult res temporary =
      ((t.handleWriteResult res temporary).1, mapManager f (t.handleWriteResult res temporary).2) := by
  unfold handleWriteResult
  rw [removeWritten_map]
  split_ifs <;> rfl

variable {reg : Register M σ} {reg' : Register M' σ} {f}
  (hreg : ∀ op t, mapManager f (reg op t) = reg' op (mapManager f t))

include hreg

theorem call_map (t : StreamTransportBase M σ) (c : Call) :
    mapManager f (t.call reg c) = (mapManager f t).call reg' c := by
  cases c with
  | configureNextRead p => rfl
  | enqueue bytes =>
    refine (hreg .write _).trans (congrArg (reg' .write) ?_)
    rw [pushCopy_eq, pushCopy_eq]
    rfl
  | enqueueBuffer bytes spare => exact hreg .write _
  | registerReading => exact hreg .read t
  | registerWriting => exact hreg .write t

theorem calls_map (cs : List Call) (t : StreamTransportBase M σ) :
    mapManager f (cs.foldl (call reg) t) = cs.foldl (call reg') (mapManager f t) := by
  induction cs generalizing t with
  | nil => rfl
  | cons c cs ih => rw [List.foldl_cons, List.foldl_cons, ih, call_map hreg]

theorem callback_map (answer : σ × List Call × ManagerResult) (t : StreamTransportBase M σ) :
    callback reg' answer (mapManager f t) = (answer.2.2, mapManager f (callback reg answer t).2) :=
  congrArg (Prod.mk answer.2.2) (calls_map hreg answer.2.1 { t with nextLayer := answer.1 }).symm

variable (app : NextLayer σ)

theorem fetchLoop_map (i : ℕ) (t : StreamTransportBase M σ) :
    fetchLoop reg' app i (mapManager f t) = mapManager f (fetchLoop reg app i t) := by
  induction i generalizing t with
  | zero => rfl
  | succ i ih =>
    unfold fetchLoop
    have hback := callback_map hreg (app.produce t.nextLayer) t
    change (if t.numEnqueuedBytes < t.config.maxEnqueuedBytes then
      if t.hasMoreData app then
        fetchLoop reg' app i (callback reg' (app.produce t.nextLayer) (mapManager f t)).2
      else mapManager f t else mapManager f t) = _
    rw [hback, ih]
    split_ifs <;> rfl

/-- **`fetch_more_data`.** -/
theorem fetchMoreData_map (t : StreamTransportBase M σ) :
    fetchMoreData reg' app (mapManager f t) =
      ((fetchMoreData reg app t).1, mapManager f (fetchMoreData reg app t).2) := by
  unfold fetchMoreData
  change (if (fetchLoop reg' app t.config.maxConsecutiveFetches (mapManager f t)).doneWriting app then _
    else _, fetchLoop reg' app t.config.maxConsecutiveFetches (mapManager f t)) = _
  rw [fetchLoop_map hreg]
  rfl

/-- **A read result.** -/
theorem handleReadResult_map (res : ℤ) (temporary : Bool) (t : StreamTransportBase M σ) :
    handleReadResult reg' app res temporary (mapManager f t) =
      ((handleReadResult reg app res temporary t).1,
        mapManager f (handleReadResult reg app res temporary t).2) := by
  have hconsume : ∀ (span : List UInt8) (t : StreamTransportBase M σ),
      consume reg' app span (mapManager f t) =
        ((consume reg app span t).1, mapManager f (consume reg app span t).2) := fun span t =>
    callback_map hreg (app.consume t.nextLayer span)
      (t.recordSpan span (app.consume t.nextLayer span).2.2)
  unfold handleReadResult
  by_cases hneg : res < 0
  · rw [if_pos hneg, if_pos hneg]
  · rw [if_neg hneg, if_neg hneg]
    by_cases hzero : res = 0
    · rw [if_pos hzero, if_pos hzero]
    · rw [if_neg hzero, if_neg hzero]
      have hconsumed : consume reg' app
          ((mapManager f t).readBuffer.take ((mapManager f t).received + res.toNat))
          { mapManager f t with received := (mapManager f t).received + res.toNat } =
          ((consume reg app (t.readBuffer.take (t.received + res.toNat))
              { t with received := t.received + res.toNat }).1,
            mapManager f (consume reg app (t.readBuffer.take (t.received + res.toNat))
              { t with received := t.received + res.toNat }).2) :=
        hconsume _ { t with received := t.received + res.toNat }
      dsimp only
      by_cases hmin : t.minReadSize ≤ t.received + res.toNat
      · have hmin' : (mapManager f t).minReadSize ≤ (mapManager f t).received + res.toNat := hmin
        rw [if_pos hmin, if_pos hmin', hconsumed]
        generalize consume reg app _ _ = o
        obtain ⟨v, t'⟩ := o
        cases v <;> rfl
      · have hmin' : ¬ (mapManager f t).minReadSize ≤ (mapManager f t).received + res.toNat := hmin
        rw [if_neg hmin, if_neg hmin']
        rfl

end Map

/-! ### Without the spans -/

/-- The transport without what its submissions tell the kernel. -/
def bare (t : Stream σ) : Object σ := mapManager Line.port t

theorem bare_grow (t : Stream σ) : bare (grow t) = bare t := by
  unfold grow
  split_ifs <;> rfl

theorem bare_emplaced (op : Operation) (t : Stream σ) : bare (emplaced op t) = bare t := by
  unfold emplaced
  split_ifs
  · exact bare_grow t
  · rfl

/-- `virt'` does without spans what `virt` does. -/
def Bares (virt : Operation → Stream σ → ManagerResult × Stream σ)
    (virt' : Operation → Object σ → ManagerResult × Object σ) : Prop :=
  ∀ op t, virt' op (bare t) = ((virt op t).1, bare (virt op t).2)

variable {virt : Operation → Stream σ → ManagerResult × Stream σ}
  {virt' : Operation → Object σ → ManagerResult × Object σ}

theorem bare_enableBy (h : Bares virt virt') (op : Operation) (t : Stream σ) :
    bare (enableBy virt op t) = Managers.enableBy virt' op (bare t) := by
  have hvirt : ∀ new, virt' op (Managers.maskSet new (bare t)) =
      ((virt op (maskSet new t)).1, bare (virt op (maskSet new t)).2) := fun new => h op (maskSet new t)
  have hmask : ∀ t : Stream σ, (bare t).manager.mask = t.manager.port.mask := fun _ => rfl
  unfold enableBy Managers.enableBy enableWith
  dsimp only [bind, pure]
  rw [hmask]
  cases maskAdd t.manager.port.mask op with
  | none => rfl
  | some new =>
    dsimp only
    rw [hvirt]
    dsimp only
    by_cases hok : (virt op (maskSet new t)).1 = .ok
    · rw [if_pos hok, if_pos hok]
    · rw [if_neg hok, if_neg hok, hmask]
      cases maskDel (virt op (maskSet new t)).2.manager.port.mask op with
      | none => rfl
      | some old => rfl

theorem bare_registerBy (h : Bares virt virt') (op : Operation) (t : Stream σ) :
    bare (registerBy virt op t) = Managers.registerBy virt' op (bare t) := by
  unfold registerBy Managers.registerBy
  rw [← bare_enableBy h op t]
  change bare (if t.manager.port.mask &&& op = Operation.none then _ else _) =
    if t.manager.port.mask &&& op = Operation.none then _ else _
  split_ifs <;> rfl

theorem bare_innerRegister (op : Operation) (t : Stream σ) :
    bare (innerRegister op t) = Managers.innerRegister op (bare t) := by
  unfold innerRegister Managers.innerRegister
  by_cases hread : op = Operation.read
  · rw [if_pos hread, if_pos hread]
    exact bare_registerBy (fun _ _ => rfl) _ t
  · rw [if_neg hread, if_neg hread]
    exact bare_emplaced op t

variable {app : NextLayer σ}

theorem enable_bares {reg : Register Line σ} {reg' : Register Port σ}
    (hreg : ∀ op t, bare (reg op t) = reg' op (bare t)) :
    Bares (enable reg app) (Managers.streamEnable reg' app) := by
  intro op t
  unfold enable Managers.streamEnable
  by_cases hread : op = Operation.read
  · rw [if_pos hread, if_pos hread]
    rfl
  · rw [if_neg hread, if_neg hread]
    by_cases hwrite : op = Operation.write
    · rw [if_pos hwrite, if_pos hwrite]
      have hfetch : fetchMoreData reg' app (bare t) = _ := fetchMoreData_map hreg app t
      rw [hfetch]
      change (if (fetchMoreData reg app t).2.doneWriting app = true then _ else _) = _
      dsimp only
      split_ifs <;> rfl
    · rw [if_neg hwrite, if_neg hwrite]

variable (app)

/-- **A registration.** -/
theorem bare_register (op : Operation) (t : Stream σ) :
    bare (register app op t) = Managers.streamRegister app op (bare t) := by
  have hinner : Bares (enable innerRegister app) (Managers.streamEnable Managers.innerRegister app) :=
    enable_bares bare_innerRegister
  refine (bare_registerBy hinner op (emplaced op t)).trans ?_
  rw [bare_emplaced]
  rfl

/-- **`enable`.** -/
theorem bare_enable (op : Operation) (t : Stream σ) :
    Managers.streamEnable (Managers.streamRegister app) app op (bare t) =
      ((enable (register app) app op t).1, bare (enable (register app) app op t).2) :=
  enable_bares (bare_register app) op t

theorem bare_submitWriteAgain (t : Stream σ) :
    Managers.submitWriteAgain app (bare t) = ((submitWriteAgain app t).1, bare (submitWriteAgain app t).2) := by
  have hfetch : fetchMoreData (Managers.streamRegister app) app (bare t) = _ :=
    fetchMoreData_map (bare_register app) app t
  unfold Managers.submitWriteAgain submitWriteAgain
  rw [hfetch]
  change (if (fetchMoreData (register app) app t).2.doneWriting app = true then _ else _) = _
  dsimp only
  split_ifs <;> rfl

/-- **`handle_completion`.** -/
theorem bare_handleCompletion (op : Operation) (res : ℤ) (temporary : Bool) (t : Stream σ) :
    Managers.streamHandleCompletion app op res temporary (bare t) =
      ((handleCompletion app op res temporary t).1, bare (handleCompletion app op res temporary t).2) := by
  have hread : handleReadResult (Managers.streamRegister app) app res temporary (bare t) = _ :=
    handleReadResult_map (bare_register app) app res temporary t
  have hwrite : (bare t).handleWriteResult res temporary = _ := handleWriteResult_map _ res temporary t
  unfold Managers.streamHandleCompletion handleCompletion
  split_ifs
  · rw [hread]
    generalize handleReadResult (register app) app res temporary t = o
    obtain ⟨v, t'⟩ := o
    cases v <;> rfl
  · rfl
  · rw [hwrite]
    generalize t.handleWriteResult res temporary = o
    obtain ⟨v, t'⟩ := o
    cases v with
    | ok => exact bare_submitWriteAgain app t'
    | _ => rfl
  · exact bare_submitWriteAgain app t
  · rfl

/-! ### Moves -/

/-- What happens to a transport, whatever its submissions told the kernel. -/
inductive Move where
  | enable (op : Operation)
  | call (c : Call)
  | timeout (id : UInt64)
  | ring (r : Ring)
  /-- The kernel puts bytes into the read buffer. -/
  | fill (offset : ℕ) (bytes : List UInt8)
  /-- Bytes pass through the transport. -/
  | passed (op : Operation) (bytes : List UInt8)
  | complete (op : Operation) (res : ℤ) (temporary : Bool)

/-- What the verdict of a completion means for the mask. -/
def settled (op : Operation) (o : ManagerResult × Object σ) : Object σ :=
  match o.1 with
  | .ok => o.2
  | .error => o.2
  | .done => Managers.maskSet ((maskDel o.2.manager.mask op).getD o.2.manager.mask) o.2
  | .temporaryError => Managers.maskSet ((maskDel o.2.manager.mask op).getD o.2.manager.mask) o.2

/-- One move. -/
def perform (t : Object σ) : Move → Object σ
  | .enable op => Managers.enableBy (Managers.streamEnable (Managers.streamRegister app) app) op t
  | .call c => t.call (Managers.streamRegister app) c
  | .timeout id => (StreamTransportBase.handleTimeout (Managers.streamRegister app) app id t).2
  | .ring r => { t with manager := { t.manager with ring := r } }
  | .fill offset bytes =>
    { t with readBuffer := t.readBuffer.take offset ++ bytes ++ t.readBuffer.drop (offset + bytes.length) }
  | .passed op bytes =>
    { t with trace := { t.trace with
        delivered := if op = Operation.read then t.trace.delivered ++ bytes else t.trace.delivered
        taken := if op = Operation.write then t.trace.taken ++ bytes else t.trace.taken } }
  | .complete op res temporary => settled op (Managers.streamHandleCompletion app op res temporary t)

/-- The moves of an event. A submission and the kernel's work on a `writev` or a poll are none. -/
def moves (t : Stream σ) : Event → List Move
  | .enable op => [.enable op]
  | .call c => [.call c]
  | .timeout id => [.timeout id]
  | .ring r => [.ring r]
  | .submit _ => []
  | .read k outcome =>
    match t.manager.entries[k]?, outcome with
    | some (.read offset size), .data bytes => [.fill offset (bytes.take (min size maxRwCount))]
    | _, _ => []
  | .write _ _ => []
  | .poll _ => []
  | .complete k temporary =>
    match t.manager.entries[k]? with
    | some (.finished op res bytes) => [.passed op bytes, .complete op res temporary]
    | _ => []

/-- The moves of a run. -/
def movesAlong : Stream σ → List Event → List Move
  | _, [] => []
  | t, e :: es => moves t e ++ movesAlong (step app t e) es

theorem bare_settle (op : Operation) (verdict : ManagerResult) (t : Stream σ) :
    bare (settle op verdict t) = settled op (verdict, bare t) := by
  cases verdict <;> rfl

/-- **An event** is its moves. -/
theorem bare_step (t : Stream σ) (e : Event) :
    bare (step app t e) = run (perform app) (bare t) (moves t e) := by
  cases e with
  | enable op =>
    exact bare_enableBy (fun op t => bare_enable app op t) op t
  | call c => exact call_map (bare_register app) t c
  | timeout id =>
    exact (congrArg Prod.snd (callback_map (bare_register app) (app.handleTimeout t.nextLayer id) t)).symm
  | ring r => rfl
  | submit k =>
    unfold step
    dsimp only
    split
    · unfold importIovecs
      split_ifs <;> rfl
    · rfl
  | read k outcome =>
    unfold step moves
    dsimp only
    cases t.manager.entries[k]? with
    | none => rfl
    | some entry => cases entry <;> cases outcome <;> rfl
  | write k outcome =>
    unfold step
    dsimp only
    split
    · cases outcome <;> rfl
    · rfl
  | poll k =>
    unfold step
    dsimp only
    split <;> rfl
  | complete k temporary =>
    unfold step moves
    dsimp only
    cases t.manager.entries[k]? with
    | none => rfl
    | some entry =>
      cases entry with
      | finished op res bytes =>
        unfold dispatch
        rw [bare_settle]
        exact congrArg (settled op) (bare_handleCompletion app op res temporary (passed k op bytes t)).symm
      | _ => rfl

/-- **Without its spans the transport makes its moves**, in every run. -/
theorem bare_run (t : Stream σ) (es : List Event) :
    bare (run (step app) t es) = run (perform app) (bare t) (movesAlong app t es) := by
  induction es generalizing t with
  | nil => rfl
  | cons e es ih =>
    rw [run_cons, ih, bare_step]
    exact (List.foldl_append ..).symm

/-! ### In the multiplexer -/

theorem object_setObject {s : UringMultiplexer σ} {mgr : Manager} {t : Object σ}
    (h : t.manager.mgr = mgr) : object (setObject s mgr t) mgr = t := by
  subst h
  unfold object setObject
  dsimp only
  rw [MultiplexerBase.maskSet_mask_self, Function.update_self]
  rfl

/-- A manager that leaves the map leaves its object as it is. -/
theorem object_delQualified (s : UringMultiplexer σ) (handle : SocketId) (mgr : Manager) :
    object (s.delQualified handle) mgr = object s mgr := by
  unfold MultiplexerBase.delQualified
  dsimp only
  split_ifs <;> rfl

theorem object_handleVerdict {s : UringMultiplexer σ} {mgr : Manager} {o : ManagerResult × Object σ}
    (h : o.2.manager.mgr = mgr) (op : Operation) :
    object (handleVerdict mgr op o.1 (setObject s mgr o.2)) mgr = settled op o := by
  have hobject := object_setObject (s := s) h
  have hmask : (setObject s mgr o.2).mask mgr = o.2.manager.mask := MultiplexerBase.maskSet_mask_self ..
  have hdisable : object (disable mgr op true (setObject s mgr o.2)) mgr =
      Managers.maskSet ((maskDel o.2.manager.mask op).getD o.2.manager.mask) o.2 := by
    unfold disable
    rw [hmask]
    cases hdel : maskDel o.2.manager.mask op with
    | none => exact hobject
    | some mask =>
      have hset : object ((setObject s mgr o.2).maskSet mgr mask) mgr = Managers.maskSet mask o.2 := by
        conv_rhs => rw [← hobject]
        unfold object
        rw [MultiplexerBase.maskSet_mask_self]
        rfl
      dsimp only
      split_ifs
      · exact (object_delQualified _ _ _).trans hset
      · exact hset
  unfold settled handleVerdict
  cases o.1 with
  | ok => exact hobject
  | error => exact (object_delQualified _ _ _).trans hobject
  | done => exact hdisable
  | temporaryError => exact hdisable

/-- What a completed read brings: the kernel fills the buffer, and the bytes are delivered. -/
def arrived (op : Operation) (bytes : List UInt8) (t : Object σ) : List Move :=
  if op = Operation.read then
    [.fill t.received (bytes.take (min t.readBufferSize maxRwCount)),
      .passed Operation.read (bytes.take (min t.readBufferSize maxRwCount))]
  else []

/-- **A completion in the multiplexer.** -/
theorem object_dispatch {kind : Manager → Kind σ} {config : TransportConfig} {s s' : UringMultiplexer σ}
    {k : ℕ} {c : Managers.Completion} {x : Submission} (hx : s.derived.ring.inFlight[k]? = some x)
    (hkind : kind x.mgr = .stream app) (h : Managers.dispatch kind config k c s = .ok s') :
    object s' x.mgr = run (perform app) (object s x.mgr)
      (.ring (s.derived.ring.complete k (x.multishot && c.more)) ::
        (arrived x.op c.bytes (object s x.mgr) ++ [.complete x.op c.res c.temporary])) := by
  unfold Managers.dispatch Managers.handleCompletion at h
  rw [hx] at h
  dsimp only at h
  rw [hkind] at h
  obtain rfl := Except.ok.inj h
  refine (object_handleVerdict ?_ x.op).trans ?_
  · refine (Ports.streamHandleCompletion_own x.op app c.res c.temporary _).mgr.trans ?_
    split_ifs <;> rfl
  · unfold arrived
    by_cases hread : x.op = Operation.read
    · simp only [if_pos hread]
      rfl
    · simp only [if_neg hread]
      rfl

end NetworkDriver.Net.StreamTransport.Uring.Bare
