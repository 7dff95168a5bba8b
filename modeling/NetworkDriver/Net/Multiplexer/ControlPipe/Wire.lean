import NetworkDriver.Net.Multiplexer.ControlPipe.Ownership
import NetworkDriver.Util.Batching

/-! # The bytes in the control pipe

What `write_to_pipe` writes and the `pollset_updater` reads. A message is what a `binary_serializer`
leaves in an empty buffer for an opcode, a pointer and an operation; the updater scatters the bytes of
one `readv` over its members `code_`, `mgr_` and `op_`, and refuses what is not as long as a message.

The system here has the bytes in the place of the queue of whole messages, so its `core` never has a
message in the pipe.

* `message`, `writeToPipe`: the side of the other threads.
* `readv`, `handleOperation`, `read`: the side of the updater.
* `readv_message`: the members hold what was written.
* `runs_refine`: the two systems are the same in every run. -/

namespace NetworkDriver.Net.Multiplexer.ControlPipe.Wire

open NetworkDriver.Library.Codec NetworkDriver.Library.Run NetworkDriver.Net.Types
open NetworkDriver.Net.Multiplexer.Base NetworkDriver.Net.Multiplexer.ControlPipe.Model
open NetworkDriver.Util.Types NetworkDriver.Util.Serializer

/-! ### Messages -/

/-- `enum class pollset_opcode : std::uint8_t`. -/
abbrev PollsetOpcode := BitVec 8

namespace PollsetOpcode

def none : PollsetOpcode := 0x00#8
def add : PollsetOpcode := 0x01#8
def shutdown : PollsetOpcode := 0x02#8

end PollsetOpcode

/-- `message_size`. -/
def messageSize : ℕ := Width.w8.bytes + Scalar.pointer.size + Width.w8.bytes

/-- An address. -/
abbrev Address := BitVec 64

variable (address : Manager → Address)

/-- The arguments of `write_to_pipe`. -/
def arguments : Message → Args
  | .add mgr op =>
    ⟨.cons (.scalar (.enumeration .w8))
      (.cons (.scalar .pointer) (.cons (.scalar (.enumeration .w8)) .nil)),
      (PollsetOpcode.add, address mgr, op, ())⟩
  | .shutdown =>
    ⟨.cons (.scalar (.enumeration .w8))
      (.cons (.scalar .nullPtr) (.cons (.scalar (.enumeration .w8)) .nil)),
      (PollsetOpcode.shutdown, (0#64 : Address), Operation.none, ())⟩

/-- The buffer `write_to_pipe` writes. -/
def message (msg : Message) : List UInt8 :=
  match BinarySerializer.operator (fun _ => true) (arguments address msg)
      (BinarySerializer.new [] (by decide)) with
  | .ok s => s.buf
  | .error _ => []

/-! ### The updater -/

/-- The members `code_`, `mgr_` and `op_` as they lie in the `iovec`s, and the system without its
queue of messages. -/
structure State where
  core : Model.State
  bytes : List UInt8
  members : List UInt8

namespace State

def code (w : State) : PollsetOpcode := ofBytes 1 (w.members.take 1)

def mgr (w : State) : Address := ofBytes 8 ((w.members.drop 1).take 8)

def op (w : State) : Operation := ofBytes 1 ((w.members.drop 9).take 1)

/-- `readv`: how many bytes were read, and the members behind it. -/
def readv (w : State) : ℕ × State :=
  let n := min messageSize w.bytes.length
  (n, { w with
    bytes := w.bytes.drop n
    members := w.bytes.take n ++ w.members.drop n })

/-- The updater is removed, and the read end of the pipe closed with it. -/
def leave (w : State) : State := { w with core := w.core.leave, bytes := [] }

variable (object : Address → Manager)

/-- `handle_operation`, and what the event loop does with the answer. -/
def handleOperation (backend : Backend) (answers : Model.State.Answers) (w : State) : State :=
  if w.code = PollsetOpcode.add then
    match backend with
    | .kqueue => { w with core := w.core.addKqueue (object w.mgr) w.op answers }
    | .uring =>
      let w : State := { w with core := w.core.addUring (object w.mgr) w.op answers }
      if w.core.dangling || answers.resubmits then w else w.leave
  else if w.code = PollsetOpcode.shutdown then { w with core := w.core.shutdown }.leave
  else w.leave

/-- `handle_read_event` and `handle_completion`. A pipe without bytes answers once its write end is
closed. -/
def read (backend : Backend) (answers : Model.State.Answers) (w : State) : State :=
  if w.core.updater then
    if w.bytes = [] ∧ w.core.writerOpen then w
    else
      let (res, w) := w.readv
      if res ≠ messageSize then w.leave else w.handleOperation object backend answers
  else w

/-- `write_to_pipe` in a call in progress. -/
def writeToPipe (call : Call) (ok : Bool) (w : State) : State :=
  if call ∈ w.core.calls then
    match call with
    | .adding mgr op =>
      { w with
        core := { w.core with calls := .added mgr :: w.core.calls.erase (.adding mgr op) }
        bytes := if w.core.writes ok then w.bytes ++ message address (.add mgr op) else w.bytes }
    | .added _ => w
    | .shuttingDown =>
      let w' : State := { w with core := { w.core with calls := w.core.calls.erase .shuttingDown } }
      if w.core.writes ok then { w' with bytes := w.bytes ++ message address .shutdown }
      else { w' with core := { w'.core with terminated := true } }
  else w

end State

open State

/-- One step. Only the reads and the writes of the pipe differ. -/
def step (object : Address → Manager) (backend : Backend) (w : State) (e : Event) : State :=
  if w.core.terminated || w.core.dangling then w
  else
    match e with
    | .write call ok => w.writeToPipe address call ok
    | .read answers => w.read object backend answers
    | .readFails => if w.core.updater then w.leave else w
    | e => { w with core := Model.step backend w.core e }

/-- The members are not initialized. -/
def start (held : List Manager) (members : List UInt8) : State where
  core := Model.start held
  bytes := []
  members := members

/-! ### The format -/

variable {address}

theorem message_eq (msg : Message) : message address msg = (arguments address msg).encoding := by
  have hlen : (arguments address msg).encoding.length < 2 ^ 64 := by
    cases msg <;> simp [arguments, Args.encoding, encs, enc, Scalar.size, Width.bytes]
  obtain ⟨s, hs⟩ := Util.Batching.operator_returns (fun _ => true) (fun _ => rfl) (arguments address msg)
    (s := BinarySerializer.new [] (by decide)) (by simpa [BinarySerializer.new] using hlen)
  have hsupported : (arguments address msg).types.supported = true := by cases msg <;> rfl
  unfold message
  rw [hs]
  exact BinarySerializer.buf_of_operator (fun _ => true) hsupported hs

theorem length_message (msg : Message) : (message address msg).length = messageSize := by
  rw [message_eq]
  cases msg <;>
    simp [arguments, Args.encoding, encs, enc, messageSize, Scalar.size, Width.bytes]

/-- What lies in the members behind a `readv` that finds a message. -/
theorem readv_message {w : State} {msg : Message} {bytes : List UInt8}
    (h : w.bytes = message address msg ++ bytes) (hmembers : w.members.length = messageSize) :
    w.readv = (messageSize, { w with bytes := bytes, members := message address msg }) := by
  have hlen : (message address msg).length = messageSize := length_message msg
  have hmin : min messageSize w.bytes.length = messageSize := by
    rw [h, List.length_append, hlen]
    omega
  unfold State.readv
  dsimp only
  rw [hmin, h, ← hlen, List.drop_left, List.take_left, hlen, ← hmembers, List.drop_length,
    List.append_nil]

theorem add_members {w : State} {mgr : Manager} {op : Operation}
    (h : w.members = message address (.add mgr op)) :
    w.code = PollsetOpcode.add ∧ w.mgr = address mgr ∧ w.op = op := by
  rw [message_eq] at h
  have hmembers : w.members =
      toBytes (n := 1) PollsetOpcode.add ++ (toBytes (n := 8) (address mgr) ++
        (toBytes (n := 1) op ++ [])) := h
  have hcode : (toBytes (n := 1) PollsetOpcode.add).length = 1 := length_toBytes _
  have hmgr : (toBytes (n := 8) (address mgr)).length = 8 := length_toBytes _
  have hop : (toBytes (n := 1) op).length = 1 := length_toBytes _
  refine ⟨?_, ?_, ?_⟩
  · rw [State.code, hmembers, List.take_left' hcode]
    exact ofBytes_toBytes (n := 1) _
  · rw [State.mgr, hmembers, List.drop_left' hcode, List.take_left' hmgr]
    exact ofBytes_toBytes (n := 8) _
  · rw [State.op, hmembers, ← List.append_assoc, List.drop_left' (by simp [hcode, hmgr]),
      List.take_left' hop]
    exact ofBytes_toBytes (n := 1) _

theorem shutdown_members {w : State} (h : w.members = message address .shutdown) :
    w.code = PollsetOpcode.shutdown := by
  rw [message_eq] at h
  have hmembers : w.members =
      toBytes (n := 1) PollsetOpcode.shutdown ++ (toBytes (n := 8) (0#64 : Address) ++
        (toBytes (n := 1) Operation.none ++ [])) := h
  rw [State.code, hmembers, List.take_left' (length_toBytes _)]
  exact ofBytes_toBytes (n := 1) _

/-! ### The queue aside -/

/-- The system with other messages in its pipe. -/
def withPipe (pipe : List Message) (s : Model.State) : Model.State := { s with pipe := pipe }

section Frame

variable (pipe : List Message) (s : Model.State) (mgr : Manager) (op : Operation)
  (answers : Model.State.Answers)

theorem erase_withPipe : (withPipe pipe s).erase mgr = withPipe pipe (s.erase mgr) := by
  by_cases hmem : mgr ∈ s.managers.elems
  · have hmem' : mgr ∈ (withPipe pipe s).managers.elems := hmem
    unfold Model.State.erase
    rw [if_pos hmem, if_pos hmem']
    rfl
  · have hmem' : mgr ∉ (withPipe pipe s).managers.elems := hmem
    unfold Model.State.erase
    rw [if_neg hmem, if_neg hmem']

theorem emplace_withPipe : (withPipe pipe s).emplace mgr = withPipe pipe (s.emplace mgr) := by
  by_cases htaken : mgr.handle ∈ s.managers.elems.map Manager.handle
  · have htaken' : mgr.handle ∈ (withPipe pipe s).managers.elems.map Manager.handle := htaken
    unfold Model.State.emplace
    rw [if_pos htaken, if_pos htaken']
    rfl
  · have htaken' : mgr.handle ∉ (withPipe pipe s).managers.elems.map Manager.handle := htaken
    unfold Model.State.emplace
    rw [if_neg htaken, if_neg htaken']
    rfl

theorem visit_withPipe : (withPipe pipe s).visit mgr = withPipe pipe (s.visit mgr) := by
  have hkeep : ∀ s : Model.State,
      (if (withPipe pipe s).mask mgr = Operation.none then (withPipe pipe s).erase mgr
        else withPipe pipe s) =
      withPipe pipe (if s.mask mgr = Operation.none then s.erase mgr else s) := by
    intro s
    rw [erase_withPipe]
    exact (apply_ite (withPipe pipe) (s.mask mgr = Operation.none) _ _).symm
  cases hdel : maskDel (s.mask mgr) Operation.readAccept with
  | none =>
    have hdel' : maskDel ((withPipe pipe s).mask mgr) Operation.readAccept = none := hdel
    unfold Model.State.visit
    rw [hdel, hdel']
    exact hkeep s
  | some mask =>
    have hdel' : maskDel ((withPipe pipe s).mask mgr) Operation.readAccept = some mask := hdel
    unfold Model.State.visit
    rw [hdel, hdel']
    exact hkeep (s.maskSet mgr mask)

theorem visits_withPipe (l : List Manager) :
    l.foldl Model.State.visit (withPipe pipe s) = withPipe pipe (l.foldl Model.State.visit s) := by
  induction l generalizing s with
  | nil => rfl
  | cons mgr l ih => rw [List.foldl_cons, visit_withPipe, ih, List.foldl_cons]

theorem shutdown_withPipe : (withPipe pipe s).shutdown = withPipe pipe s.shutdown := by
  have hvisits := visits_withPipe pipe { s with shuttingDown := true } s.managers.elems
  unfold Model.State.shutdown
  exact congrArg (fun s : Model.State => { s with writerOpen := false }) hvisits

theorem init_withPipe : (withPipe pipe s).init mgr answers = withPipe pipe (s.init mgr answers) := by
  unfold Model.State.init
  dsimp only
  split_ifs
  · exact shutdown_withPipe pipe (s.maskSet mgr _)
  · rfl

theorem addKqueue_withPipe :
    (withPipe pipe s).addKqueue mgr op answers = withPipe pipe (s.addKqueue mgr op answers) := by
  have hgo : ∀ s : Model.State,
      ((withPipe pipe s).emplace mgr).init (((withPipe pipe s).emplace mgr).addedMgr mgr) answers =
        withPipe pipe ((s.emplace mgr).init ((s.emplace mgr).addedMgr mgr) answers) := by
    intro s
    rw [emplace_withPipe]
    exact init_withPipe pipe (s.emplace mgr) _ answers
  cases hadd : maskAdd (s.mask mgr) op with
  | none =>
    have hadd' : maskAdd ((withPipe pipe s).mask mgr) op = none := hadd
    unfold Model.State.addKqueue
    dsimp only
    rw [hadd, hadd']
    exact hgo { s with registrations := s.registrations ++ [⟨mgr, op, s.registers mgr, s.mask mgr⟩] }
  | some mask =>
    have hadd' : maskAdd ((withPipe pipe s).mask mgr) op = some mask := hadd
    unfold Model.State.addKqueue
    dsimp only
    rw [hadd, hadd']
    exact hgo
      { s.maskSet mgr mask with
        registrations := s.registrations ++
          [⟨mgr, op, s.registers mgr, (s.maskSet mgr mask).mask mgr⟩] }

theorem enableUring_withPipe (accepts : Bool) :
    (withPipe pipe s).enableUring mgr op accepts = withPipe pipe (s.enableUring mgr op accepts) := by
  cases hadd : maskAdd (s.mask mgr) op with
  | none =>
    have hadd' : maskAdd ((withPipe pipe s).mask mgr) op = none := hadd
    unfold Model.State.enableUring
    rw [hadd, hadd']
  | some mask =>
    have hadd' : maskAdd ((withPipe pipe s).mask mgr) op = some mask := hadd
    unfold Model.State.enableUring
    rw [hadd, hadd']
    dsimp only
    split_ifs
    · rfl
    · cases hdel : maskDel ((s.maskSet mgr mask).mask mgr) op with
      | none =>
        have hdel' : maskDel (((withPipe pipe s).maskSet mgr mask).mask mgr) op = none := hdel
        rw [hdel']
        rfl
      | some mask' =>
        have hdel' : maskDel (((withPipe pipe s).maskSet mgr mask).mask mgr) op = some mask' := hdel
        rw [hdel']
        rfl

theorem addUring_withPipe :
    (withPipe pipe s).addUring mgr op answers = withPipe pipe (s.addUring mgr op answers) := by
  have hadded : ((withPipe pipe s).emplace mgr).addedMgr mgr = (s.emplace mgr).addedMgr mgr := by
    rw [emplace_withPipe]
    rfl
  have hinit : ((withPipe pipe s).emplace mgr).init (((withPipe pipe s).emplace mgr).addedMgr mgr)
      answers = withPipe pipe ((s.emplace mgr).init ((s.emplace mgr).addedMgr mgr) answers) := by
    rw [hadded, emplace_withPipe]
    exact init_withPipe pipe (s.emplace mgr) _ answers
  unfold Model.State.addUring
  dsimp only
  rw [hinit, hadded]
  by_cases hmem : (s.emplace mgr).addedMgr mgr ∈
      ((s.emplace mgr).init ((s.emplace mgr).addedMgr mgr) answers).managers.elems
  · rw [if_pos hmem, if_pos (by exact hmem), enableUring_withPipe]
    rfl
  · rw [if_neg hmem, if_neg (by exact hmem)]
    rfl

end Frame

/-! ### The refinement -/

/-- The address of a manager leads back to it. -/
def Addressed (address : Manager → Address) (object : Address → Manager) (mgr : Manager) : Prop :=
  object (address mgr) = mgr

/-- **The bytes are the messages in the pipe**, and all else is the same. -/
structure Refines (address : Manager → Address) (object : Address → Manager) (w : State)
    (s : Model.State) : Prop where
  core : w.core = withPipe [] s
  bytes : w.bytes = s.pipe.flatMap (message address)
  members : w.members.length = messageSize
  calls : ∀ mgr op, Call.adding mgr op ∈ s.calls → Addressed address object mgr
  pipe : ∀ mgr op, Message.add mgr op ∈ s.pipe → Addressed address object mgr

variable {object : Address → Manager} {backend : Backend} {w : State} {s s' : Model.State}

theorem Refines.leave (h : Refines address object w s) : Refines address object w.leave s.leave where
  core := by
    unfold State.leave
    rw [h.core]
    rfl
  bytes := rfl
  members := h.members
  calls := h.calls
  pipe _ _ hmem := nomatch hmem

/-- A step of the core that leaves the pipe and the calls alone. -/
theorem Refines.inner (h : Refines address object w s) {core : Model.State}
    (hcore : core = withPipe [] s') (hcalls : s'.calls = s.calls) (hpipe : s'.pipe = s.pipe) :
    Refines address object { w with core := core } s' where
  core := hcore
  bytes := by
    rw [hpipe]
    exact h.bytes
  members := h.members
  calls := by
    rw [hcalls]
    exact h.calls
  pipe := by
    rw [hpipe]
    exact h.pipe

theorem init_calls (s : Model.State) (mgr : Manager) (answers : State.Answers) :
    ((s.emplace mgr).init ((s.emplace mgr).addedMgr mgr) answers).calls = s.calls :=
  ((Ownership.emplace_inner s mgr).trans (Ownership.init_inner _ _ answers)).calls

theorem addKqueue_calls (s : Model.State) (mgr : Manager) (op : Operation) (answers : State.Answers) :
    (s.addKqueue mgr op answers).calls = s.calls := by
  unfold Model.State.addKqueue
  dsimp only
  rw [init_calls]
  cases maskAdd (s.mask mgr) op <;> rfl

theorem addUring_calls (s : Model.State) (mgr : Manager) (op : Operation) (answers : State.Answers) :
    (s.addUring mgr op answers).calls = s.calls := by
  unfold Model.State.addUring
  dsimp only
  split_ifs
  · exact (Ownership.enableUring_inner _ _ op answers.accepts).1.calls.trans (init_calls s mgr answers)
  · exact init_calls s mgr answers

-- what is the same whatever is in the pipe leaves it as it is
theorem addKqueue_pipe (s : Model.State) (mgr : Manager) (op : Operation) (answers : State.Answers) :
    (s.addKqueue mgr op answers).pipe = s.pipe :=
  congrArg (·.pipe) (addKqueue_withPipe s.pipe s mgr op answers)

theorem addUring_pipe (s : Model.State) (mgr : Manager) (op : Operation) (answers : State.Answers) :
    (s.addUring mgr op answers).pipe = s.pipe :=
  congrArg (·.pipe) (addUring_withPipe s.pipe s mgr op answers)

/-! ### Reads -/

/-- The updater behind the `readv` of an `add`. -/
theorem handleOperation_add {mgr : Manager} {op : Operation} {pipe : List Message}
    (h : Refines address object w { s with pipe := pipe }) (hmgr : Addressed address object mgr)
    (hmembers : w.members = message address (.add mgr op)) (answers : State.Answers) :
    Refines address object (w.handleOperation object backend answers)
      (match backend with
        | .kqueue => { s with pipe := pipe }.addKqueue mgr op answers
        | .uring =>
          let s := { s with pipe := pipe }.addUring mgr op answers
          if s.dangling || answers.resubmits then s else s.leave) := by
  obtain ⟨hcode, haddress, hop⟩ := add_members hmembers
  have hobject : object w.mgr = mgr := by
    rw [haddress]
    exact hmgr
  unfold State.handleOperation
  rw [if_pos hcode, hobject, hop]
  cases backend with
  | kqueue =>
    refine h.inner ?_ (addKqueue_calls _ mgr op answers) (addKqueue_pipe _ mgr op answers)
    rw [h.core]
    exact addKqueue_withPipe [] _ mgr op answers
  | uring =>
    have hadded : Refines address object { w with core := w.core.addUring mgr op answers }
        ({ s with pipe := pipe }.addUring mgr op answers) := by
      refine h.inner ?_ (addUring_calls _ mgr op answers) (addUring_pipe _ mgr op answers)
      rw [h.core]
      exact addUring_withPipe [] _ mgr op answers
    have hdangling : (w.core.addUring mgr op answers).dangling =
        ({ s with pipe := pipe }.addUring mgr op answers).dangling := congrArg (·.dangling) hadded.core
    dsimp only
    rw [hdangling]
    split_ifs
    · exact hadded
    · exact hadded.leave

theorem shutdown_refines (h : Refines address object w s) :
    Refines address object { w with core := w.core.shutdown } s.shutdown := by
  refine h.inner ?_ (Ownership.shutdown_inner s).calls (Ownership.shutdown_inner s).pipe
  rw [h.core]
  exact shutdown_withPipe [] s

/-- The updater behind the `readv` of a `shutdown`. -/
theorem handleOperation_shutdown (h : Refines address object w s)
    (hmembers : w.members = message address .shutdown) (answers : State.Answers) :
    Refines address object (w.handleOperation object backend answers) s.shutdown.leave := by
  have hcode := shutdown_members hmembers
  unfold State.handleOperation
  rw [if_neg (by rw [hcode]; decide), if_pos hcode]
  exact (shutdown_refines h).leave

theorem message_ne_nil (msg : Message) : message address msg ≠ [] := by
  intro h
  have hlen : (message address msg).length = messageSize := length_message msg
  rw [h] at hlen
  exact absurd hlen (by decide)

/-- **A read takes one message off the pipe**, or finds it closed. -/
theorem read_refines (h : Refines address object w s) (answers : State.Answers) :
    Refines address object (w.read object backend answers) (s.read backend answers) := by
  have hupdater : w.core.updater = s.updater := congrArg (·.updater) h.core
  have hwriter : w.core.writerOpen = s.writerOpen := congrArg (·.writerOpen) h.core
  unfold State.read Model.State.read
  rw [hupdater, hwriter]
  by_cases hup : s.updater = true
  · rw [if_pos hup, if_pos hup]
    have hbytes := h.bytes
    cases hpipe : s.pipe with
    | nil =>
      rw [hpipe, List.flatMap_nil] at hbytes
      dsimp only
      by_cases hopen : s.writerOpen = true
      · rw [if_pos ⟨hbytes, hopen⟩, if_pos hopen]
        exact h
      · have hread : w.readv = (0, w) := by
          unfold State.readv
          rw [hbytes]
          cases w
          simp_all
        rw [if_neg fun hc => hopen hc.2, if_neg hopen, hread]
        exact h.leave
    | cons msg pipe =>
      rw [hpipe, List.flatMap_cons] at hbytes
      have hne : w.bytes ≠ [] := by
        rw [hbytes]
        exact List.append_ne_nil_of_left_ne_nil (message_ne_nil msg) _
      rw [if_neg fun hc => hne hc.1, readv_message hbytes h.members]
      have hrest : Refines address object
          { w with bytes := pipe.flatMap (message address), members := message address msg }
          { s with pipe := pipe } := by
        refine ⟨h.core, rfl, length_message msg, h.calls, fun mgr op hmem => h.pipe mgr op ?_⟩
        rw [hpipe]
        exact List.mem_cons_of_mem msg hmem
      cases msg with
      | shutdown => exact handleOperation_shutdown hrest rfl answers
      | add mgr op =>
        have hmgr : Addressed address object mgr := h.pipe mgr op (by rw [hpipe]; exact List.mem_cons_self)
        exact handleOperation_add hrest hmgr rfl answers
  · rw [if_neg hup, if_neg hup]
    exact h

/-! ### Writes and the other steps -/

/-- A call goes on, and hands no other manager over. -/
theorem Refines.proceed (h : Refines address object w s) (calls : List Call)
    (hcalls : ∀ mgr op, Call.adding mgr op ∈ calls → Call.adding mgr op ∈ s.calls) :
    Refines address object { w with core := { w.core with calls := calls } }
      { s with calls := calls } where
  core := by
    rw [h.core]
    rfl
  bytes := h.bytes
  members := h.members
  calls mgr op hcall := h.calls mgr op (hcalls mgr op hcall)
  pipe := h.pipe

/-- The program ends. -/
theorem Refines.terminate (h : Refines address object w s) :
    Refines address object { w with core := { w.core with terminated := true } }
      { s with terminated := true } where
  core := by
    rw [h.core]
    rfl
  bytes := h.bytes
  members := h.members
  calls := h.calls
  pipe := h.pipe

/-- A message is written. -/
theorem Refines.append (h : Refines address object w s) (msg : Message)
    (hmsg : ∀ mgr op, msg = .add mgr op → Addressed address object mgr) :
    Refines address object { w with bytes := w.bytes ++ message address msg }
      { s with pipe := s.pipe ++ [msg] } where
  core := h.core
  bytes := by
    rw [List.flatMap_append, List.flatMap_singleton, ← h.bytes]
  members := h.members
  calls := h.calls
  pipe mgr op hmem := by
    rcases List.mem_append.mp hmem with hold | hnew
    · exact h.pipe mgr op hold
    · exact hmsg mgr op (List.mem_singleton.mp hnew).symm

theorem writeToPipe_refines (h : Refines address object w s) (call : Call) (ok : Bool) :
    Refines address object (w.writeToPipe address call ok) (s.writeToPipe call ok) := by
  have hcalls : w.core.calls = s.calls := congrArg (·.calls) h.core
  have hterminated : w.core.terminated = s.terminated := congrArg (·.terminated) h.core
  have hwrites : w.core.writes ok = s.writes ok := by
    rw [h.core]
    rfl
  unfold State.writeToPipe Model.State.writeToPipe
  rw [hcalls, hwrites]
  by_cases hcall : call ∈ s.calls
  · rw [if_pos hcall, if_pos hcall]
    cases call with
    | added mgr => exact h
    | adding mgr op =>
      have hgo := h.proceed (.added mgr :: s.calls.erase (.adding mgr op)) fun m o hmem =>
        List.mem_of_mem_erase ((List.mem_cons.mp hmem).resolve_left Call.noConfusion)
      dsimp only
      split_ifs
      · refine hgo.append (.add mgr op) fun m o hmsg => ?_
        obtain ⟨rfl, rfl⟩ := Message.add.inj hmsg
        exact h.calls mgr op hcall
      · exact hgo
    | shuttingDown =>
      have hgo := h.proceed (s.calls.erase .shuttingDown) fun m o => List.mem_of_mem_erase
      dsimp only
      split_ifs
      · exact hgo.append .shutdown fun _ _ hmsg => nomatch hmsg
      · exact hgo.terminate
  · rw [if_neg hcall, if_neg hcall]
    exact h

/-- The steps that have nothing to do with the pipe. -/
def apart : Event → Bool
  | .write _ _ => false
  | .read _ => false
  | .readFails => false
  | _ => true

theorem startAdd_withPipe (pipe : List Message) (s : Model.State) (mgr : Manager) (op : Operation) :
    (withPipe pipe s).startAdd backend mgr op = withPipe pipe (s.startAdd backend mgr op) := by
  by_cases hheld : mgr ∈ s.held
  · have hheld' : mgr ∈ (withPipe pipe s).held := hheld
    unfold Model.State.startAdd
    rw [if_pos hheld, if_pos hheld']
    cases backend <;> rfl
  · have hheld' : mgr ∉ (withPipe pipe s).held := hheld
    unfold Model.State.startAdd
    rw [if_neg hheld, if_neg hheld']

theorem returnFrom_withPipe (pipe : List Message) (s : Model.State) (mgr : Manager) :
    (withPipe pipe s).returnFrom backend mgr = withPipe pipe (s.returnFrom backend mgr) := by
  by_cases hcall : Call.added mgr ∈ s.calls
  · have hcall' : Call.added mgr ∈ (withPipe pipe s).calls := hcall
    unfold Model.State.returnFrom
    rw [if_pos hcall, if_pos hcall']
    cases backend <;> rfl
  · have hcall' : Call.added mgr ∉ (withPipe pipe s).calls := hcall
    unfold Model.State.returnFrom
    rw [if_neg hcall, if_neg hcall']

theorem step_withPipe {e : Event} (he : apart e = true) (pipe : List Message) (s : Model.State) :
    Model.step backend (withPipe pipe s) e = withPipe pipe (Model.step backend s e) := by
  unfold Model.step
  by_cases hend : (s.terminated || s.dangling) = true
  · have hend' : ((withPipe pipe s).terminated || (withPipe pipe s).dangling) = true := hend
    rw [if_pos hend, if_pos hend']
  · have hend' : ¬ ((withPipe pipe s).terminated || (withPipe pipe s).dangling) = true := hend
    rw [if_neg hend, if_neg hend']
    cases e with
    | write call ok => cases he
    | read answers => cases he
    | readFails => cases he
    | startAdd mgr op => exact startAdd_withPipe pipe s mgr op
    | «return» mgr => exact returnFrom_withPipe pipe s mgr
    | shutdown => exact shutdown_withPipe pipe s
    | erase mgr => exact erase_withPipe pipe s mgr
    | maskSet mgr mask => rfl
    | copy mgr =>
      by_cases hlive : mgr ∈ s.held ∨ mgr ∈ s.managers.elems
      · have hlive' : mgr ∈ (withPipe pipe s).held ∨ mgr ∈ (withPipe pipe s).managers.elems := hlive
        dsimp only
        rw [if_pos hlive, if_pos hlive']
        rfl
      · have hlive' : ¬ (mgr ∈ (withPipe pipe s).held ∨ mgr ∈ (withPipe pipe s).managers.elems) := hlive
        dsimp only
        rw [if_neg hlive, if_neg hlive']
    | drop mgr =>
      by_cases hheld : mgr ∈ s.held
      · have hheld' : mgr ∈ (withPipe pipe s).held := hheld
        dsimp only
        rw [if_pos hheld, if_pos hheld']
        rfl
      · have hheld' : mgr ∉ (withPipe pipe s).held := hheld
        dsimp only
        rw [if_neg hheld, if_neg hheld']
    | startShutdown =>
      dsimp only
      unfold Model.State.startShutdown
      by_cases hdown : s.shuttingDown = true
      · have hdown' : (withPipe pipe s).shuttingDown = true := hdown
        rw [if_pos hdown, if_pos hdown']
      · have hdown' : ¬ (withPipe pipe s).shuttingDown = true := hdown
        rw [if_neg hdown, if_neg hdown']
        rfl

/-- Only `add` hands a manager over. -/
theorem step_calls {e : Event} (he : apart e = true) {mgr : Manager} {op : Operation}
    (hcall : Call.adding mgr op ∈ (Model.step backend s e).calls) :
    Call.adding mgr op ∈ s.calls ∨ e = .startAdd mgr op := by
  unfold Model.step at hcall
  by_cases hend : (s.terminated || s.dangling) = true
  · rw [if_pos hend] at hcall
    exact Or.inl hcall
  · rw [if_neg hend] at hcall
    cases e with
    | write call ok => cases he
    | read answers => cases he
    | readFails => cases he
    | shutdown => exact Or.inl ((Ownership.shutdown_inner s).calls ▸ hcall)
    | erase m => exact Or.inl ((Ownership.erase_inner s m).calls ▸ hcall)
    | maskSet m mask => exact Or.inl hcall
    | copy m =>
      dsimp only at hcall
      split_ifs at hcall <;> exact Or.inl hcall
    | drop m =>
      dsimp only at hcall
      split_ifs at hcall <;> exact Or.inl hcall
    | startAdd m o =>
      dsimp only [Model.State.startAdd] at hcall
      split_ifs at hcall
      · have hmem : Call.adding mgr op ∈ Call.adding m o :: s.calls := by cases backend <;> exact hcall
        rcases List.mem_cons.mp hmem with heq | hold
        · obtain ⟨rfl, rfl⟩ := Call.adding.inj heq
          exact Or.inr rfl
        · exact Or.inl hold
      · exact Or.inl hcall
    | startShutdown =>
      dsimp only [Model.State.startShutdown] at hcall
      split_ifs at hcall
      · exact Or.inl hcall
      · exact Or.inl ((List.mem_cons.mp hcall).resolve_left Call.noConfusion)
    | «return» m =>
      dsimp only [Model.State.returnFrom] at hcall
      split_ifs at hcall
      · have hmem : Call.adding mgr op ∈ s.calls.erase (.added m) := by cases backend <;> exact hcall
        exact Or.inl (List.mem_of_mem_erase hmem)
      · exact Or.inl hcall

/-! ### Steps and runs -/

/-- **One step keeps the refinement.** -/
theorem step_refines (h : Refines address object w s) {e : Event}
    (he : ∀ mgr op, e = .startAdd mgr op → Addressed address object mgr) :
    Refines address object (step address object backend w e) (Model.step backend s e) := by
  have hterminated : w.core.terminated = s.terminated := congrArg (·.terminated) h.core
  have hdangling : w.core.dangling = s.dangling := congrArg (·.dangling) h.core
  have hupdater : w.core.updater = s.updater := congrArg (·.updater) h.core
  by_cases hend : (s.terminated || s.dangling) = true
  · unfold step Model.step
    rw [hterminated, hdangling, if_pos hend, if_pos hend]
    exact h
  by_cases hapart : apart e = true
  · -- the core takes the step, whatever is in the pipe
    have hstep : step address object backend w e =
        { w with core := Model.step backend w.core e } := by
      unfold step
      rw [hterminated, hdangling, if_neg hend]
      cases e with
      | write call ok => cases hapart
      | read answers => cases hapart
      | readFails => cases hapart
      | _ => rfl
    rw [hstep]
    have hcore : ∀ (pipe : List Message) (s : Model.State),
        Model.step backend (withPipe pipe s) e = withPipe pipe (Model.step backend s e) :=
      step_withPipe hapart
    have hpipe : (Model.step backend s e).pipe = s.pipe := congrArg (·.pipe) (hcore s.pipe s)
    refine ⟨?_, ?_, h.members, fun mgr op hcall => ?_, ?_⟩
    · dsimp only
      rw [h.core]
      exact hcore [] s
    · rw [hpipe]
      exact h.bytes
    · exact (step_calls hapart hcall).elim (h.calls mgr op) (he mgr op)
    · rw [hpipe]
      exact h.pipe
  · unfold step Model.step
    rw [hterminated, hdangling, if_neg hend, if_neg hend]
    cases e with
    | write call ok => exact writeToPipe_refines h call ok
    | read answers => exact read_refines h answers
    | readFails =>
      dsimp only
      rw [hupdater]
      split_ifs
      · exact h.leave
      · exact h
    | _ => exact absurd rfl hapart

/-- **The bytes in the pipe are whole messages, and the system is the one of whole messages.** Whatever
other threads and the updater do and in which order, every `readv` finds a message or a closed pipe,
no opcode but the two that are written is ever read, and managers and operations arrive as they
were written; given that the managers `add` is called with lie at addresses of their own. -/
theorem runs_refine (address : Manager → Address) (object : Address → Manager) (backend : Backend)
    (held : List Manager) (members : List UInt8) (hmembers : members.length = messageSize)
    (es : List Event) (hadd : ∀ mgr op, Event.startAdd mgr op ∈ es → object (address mgr) = mgr) :
    let w := run (step address object backend) (start held members) es
    let s := run (Model.step backend) (Model.start held) es
    w.core = { s with pipe := [] } ∧ w.bytes = s.pipe.flatMap (message address) ∧
      w.bytes.length = messageSize * s.pipe.length := by
  have hstart : Refines address object (start held members) (Model.start held) :=
    ⟨rfl, rfl, hmembers, fun _ _ hmem => (nomatch hmem), fun _ _ hmem => (nomatch hmem)⟩
  have hstep : ∀ w s e, Refines address object w s →
      (∀ mgr op, e = .startAdd mgr op → Addressed address object mgr) →
      Refines address object (step address object backend w e) (Model.step backend s e) :=
    fun w s e hws he => step_refines hws he
  have hrun := run_related hstep hstart fun e he mgr op heq => hadd mgr op (heq ▸ he)
  refine ⟨hrun.core, hrun.bytes, ?_⟩
  rw [hrun.bytes, length_flatMap_const fun msg _ => length_message msg, Nat.mul_comm]

/-- An `add`, a `shutdown` and a read, with a manager at the address `4096`. -/
theorem runs_refine_sample :
    let mgr : Manager := ⟨7, 3⟩
    let w := run (step (fun _ => 4096#64) (fun _ => mgr) .kqueue) (start [mgr] (List.replicate 10 0))
      [.startAdd mgr Operation.read, .write (.adding mgr Operation.read) true, .startShutdown,
        .write .shuttingDown true, .read ⟨Operation.none, false, true, true⟩]
    w.core.managers.elems = [mgr] ∧ w.bytes = [2, 0, 0, 0, 0, 0, 0, 0, 0, 0] := by
  have h := runs_refine (fun _ => 4096#64) (fun _ => ⟨7, 3⟩) .kqueue [⟨7, 3⟩] (List.replicate 10 0) rfl
    [.startAdd ⟨7, 3⟩ Operation.read, .write (.adding ⟨7, 3⟩ Operation.read) true, .startShutdown,
      .write .shuttingDown true, .read ⟨Operation.none, false, true, true⟩]
    (by
      intro mgr op hmem
      simp only [List.mem_cons, Event.startAdd.injEq, reduceCtorEq, List.not_mem_nil, or_false] at hmem
      exact hmem.1.symm)
  refine ⟨congrArg (fun s => s.managers.elems) h.1, h.2.1.trans ?_⟩
  rfl

end NetworkDriver.Net.Multiplexer.ControlPipe.Wire
