import NetworkDriver.Net.Datagrams.Model
import NetworkDriver.Net.Multiplexer.Uring.Arming

/-! # Completions and `errno`

A completion carries its own result, a negative error number if the operation failed. The handlers of
`uring_stream_transport` and `uring_datagram_transport` are shared with the readiness transports, which
find the error in `errno`: a negative result makes them call `last_socket_error_is_temporary()`, and
what they go by is the error of an earlier system call.

* `judged_iff`: a completion is judged by its own result exactly if it is no error, or one that no
  handler looks at and that is not temporary.
* `runs_agree`, `sessions_agree`: runs whose completions are such do not depend on `errno`. -/

namespace NetworkDriver.Net.Multiplexer.Uring.Errno

open NetworkDriver.Library.Run
open NetworkDriver.Net.Types NetworkDriver.Net.Multiplexer.Base NetworkDriver.Net.Multiplexer.Uring.Managers
open NetworkDriver.Net.Multiplexer.Uring.Arming (Holds connected echoKind echoLayer runStep)
open NetworkDriver.Net.StreamTransport.Model (NextLayer StreamTransportBase TransportConfig)
open NetworkDriver.Net.Datagrams.Model (DatagramTransport)
open NetworkDriver.Net.Datagrams.Model.DatagramTransport (uringRegister submitOther)

/-! ### Error numbers -/

/-- `EAGAIN` on Linux. -/
def eagain : ℤ := 11

/-- `EWOULDBLOCK` on Linux. -/
def ewouldblock : ℤ := 11

/-- `last_socket_error_is_temporary` with this `errno`. -/
def lastSocketErrorIsTemporary (errno : ℤ) : Bool := errno = eagain

/-! ### The property -/

/-- A handler, given `errno`, judges a completion with the result `res` by that alone. -/
def JudgedByResult {α : Type} (res : ℤ) (handle : ℤ → ManagerResult × α) : Prop :=
  (∀ errno errno', handle errno = handle errno') ∧
    (res < 0 → ∀ errno,
      ((handle errno).1 = .temporaryError ↔ res = -eagain ∨ res = -ewouldblock))

/-- No handler that looks at `errno` sees the result, and it is not a temporary error. -/
def Harmless (looked : Prop) (res : ℤ) : Prop := 0 ≤ res ∨ ¬ looked ∧ res ≠ -eagain

section

variable {α : Type} {res : ℤ} {handle : ℤ → ManagerResult × α}

theorem judged_of_nonneg (hres : 0 ≤ res) (h : ∀ errno errno', handle errno = handle errno') :
    JudgedByResult res handle :=
  ⟨h, fun hneg => absurd hneg (not_lt.mpr hres)⟩

/-- A handler that takes every error for permanent is right if the error is. -/
theorem judged_iff_of_permanent (hneg : res < 0) {o : ManagerResult × α} (h : ∀ errno, handle errno = o)
    (ho : o.1 ≠ .temporaryError) : JudgedByResult res handle ↔ res ≠ -eagain := by
  constructor
  · intro hj hres
    have htemporary := (hj.2 hneg 0).mpr (Or.inl hres)
    rw [h 0] at htemporary
    exact ho htemporary
  · intro hres
    refine ⟨fun errno errno' => (h errno).trans (h errno').symm, fun _ errno => ?_⟩
    rw [h errno]
    exact ⟨fun htemporary => absurd htemporary ho, fun hr => absurd (hr.elim id id) hres⟩

/-- A handler that goes by `errno` is wrong about every error. -/
theorem not_judged_of_looked
    (h : ∀ errno, (handle errno).1 = .temporaryError ↔ lastSocketErrorIsTemporary errno = true) :
    ¬ JudgedByResult res handle := by
  intro hj
  have htemporary := (h eagain).mpr rfl
  rw [hj.1 eagain 0] at htemporary
  exact absurd ((h 0).mp htemporary) (by decide)

/-- The three kinds of completions. -/
theorem judged_iff_harmless {looked : Prop}
    (hnonneg : 0 ≤ res → ∀ errno errno', handle errno = handle errno')
    (hlooked : res < 0 → looked →
      ∀ errno, (handle errno).1 = .temporaryError ↔ lastSocketErrorIsTemporary errno = true)
    (hpermanent : res < 0 → ¬ looked →
      ∃ o : ManagerResult × α, (∀ errno, handle errno = o) ∧ o.1 ≠ .temporaryError) :
    JudgedByResult res handle ↔ Harmless looked res := by
  unfold Harmless
  rcases le_or_gt 0 res with hres | hneg
  · exact iff_of_true (judged_of_nonneg hres (hnonneg hres)) (Or.inl hres)
  · by_cases hl : looked
    · refine iff_of_false (not_judged_of_looked (hlooked hneg hl)) ?_
      rintro (hres | ⟨hn, -⟩)
      · exact absurd hneg (not_lt.mpr hres)
      · exact hn hl
    · obtain ⟨o, ho, hv⟩ := hpermanent hneg hl
      rw [judged_iff_of_permanent hneg ho hv]
      exact ⟨fun hne => Or.inr ⟨hl, hne⟩,
        fun h => h.elim (fun hres => absurd hneg (not_lt.mpr hres)) And.right⟩

end

/-! ### Streams -/

section Stream

variable {σ : Type} (app : NextLayer σ)

/-- The operations whose result `uring_stream_transport` looks at. -/
def StreamLooks (op : Operation) : Prop := op = Operation.read ∨ op = Operation.write

instance (op : Operation) : Decidable (StreamLooks op) := by unfold StreamLooks; infer_instance

/-- A result that is no error, and one that is not looked at, do not bring `errno` in. -/
theorem stream_insensitive {op : Operation} {res : ℤ} (h : 0 ≤ res ∨ ¬ StreamLooks op)
    (temporary temporary' : Bool) (t : Object σ) :
    streamHandleCompletion app op res temporary t = streamHandleCompletion app op res temporary' t := by
  unfold streamHandleCompletion
  rcases h with hres | hl
  · have hneg : ¬ res < 0 := not_lt.mpr hres
    unfold StreamTransportBase.handleReadResult StreamTransportBase.handleWriteResult
    simp only [if_neg hneg]
  · simp only [if_neg fun h => hl (Or.inl h), if_neg fun h => hl (Or.inr h)]

theorem stream_looked {op : Operation} {res : ℤ} (hneg : res < 0) (hl : StreamLooks op)
    (temporary : Bool) (t : Object σ) :
    (streamHandleCompletion app op res temporary t).1 = .temporaryError ↔ temporary = true := by
  unfold streamHandleCompletion StreamTransportBase.handleReadResult
    StreamTransportBase.handleWriteResult
  rcases hl with rfl | rfl
  · cases temporary <;> simp [hneg]
  · cases temporary <;> simp [hneg, Operation.write, Operation.read, Operation.pollRead]

theorem submitWriteAgain_permanent (t : Object σ) : (submitWriteAgain app t).1 ≠ .temporaryError := by
  unfold submitWriteAgain
  dsimp only
  split <;> simp

theorem stream_permanent {op : Operation} (hl : ¬ StreamLooks op) (res : ℤ) (temporary : Bool)
    (t : Object σ) : (streamHandleCompletion app op res temporary t).1 ≠ .temporaryError := by
  unfold streamHandleCompletion
  rw [if_neg fun h => hl (Or.inl h)]
  split
  · simp [submitReadAgain]
  · rw [if_neg fun h => hl (Or.inr h)]
    split
    · exact submitWriteAgain_permanent app t
    · simp

theorem stream_judged_iff (op : Operation) (res : ℤ) (t : Object σ) :
    JudgedByResult res
      (fun errno => streamHandleCompletion app op res (lastSocketErrorIsTemporary errno) t) ↔
      Harmless (StreamLooks op) res := by
  refine judged_iff_harmless (fun hres errno errno' => ?_) (fun hneg hl errno => ?_) fun _ hl => ?_
  · exact stream_insensitive app (Or.inl hres) _ _ t
  · exact stream_looked app hneg hl _ t
  · refine ⟨_, fun errno => stream_insensitive app (Or.inr hl) _ false t, ?_⟩
    exact stream_permanent app hl res false t

end Stream

/-! ### Datagrams -/

section Datagram

variable {M σ : Type} (port : Datagrams.Model.Port M) (app : Datagrams.Model.NextLayer σ)

/-- The completions whose result `uring_datagram_transport` looks at: a write only if its datagram is
in the queue. -/
def DatagramLooks (op : Operation) (id : UInt64) (t : DatagramTransport M σ) : Prop :=
  op = Operation.read ∨ op = Operation.write ∧ ∃ d ∈ t.writeQueue.elems, d.id = id

instance (op : Operation) (id : UInt64) (t : DatagramTransport M σ) : Decidable (DatagramLooks op id t) := by
  unfold DatagramLooks; infer_instance

/-- The lookup of `handle_completion` finds a datagram exactly if one has the id. -/
theorem findIdx?_eq_none_iff (id : UInt64) (t : DatagramTransport M σ) :
    t.writeQueue.elems.findIdx? (·.id = id) = none ↔ ¬ ∃ d ∈ t.writeQueue.elems, d.id = id := by
  rw [List.findIdx?_eq_none_iff]
  simp

/-- A write whose datagram is not in the queue. -/
theorem handleCompletion_lost {id : UInt64} {t : DatagramTransport M σ}
    (h : ¬ ∃ d ∈ t.writeQueue.elems, d.id = id) (res : ℤ) (temporary : Bool) :
    t.handleCompletion port app Operation.write res temporary id = (.error, t) := by
  unfold DatagramTransport.handleCompletion
  rw [(findIdx?_eq_none_iff id t).mpr h]
  simp [Operation.write, Operation.read, Operation.pollRead]

theorem datagram_insensitive {op : Operation} {res : ℤ} {id : UInt64} {t : DatagramTransport M σ}
    (h : 0 ≤ res ∨ ¬ DatagramLooks op id t) (temporary temporary' : Bool) :
    t.handleCompletion port app op res temporary id = t.handleCompletion port app op res temporary' id := by
  rcases h with hres | hl
  · have hneg : ¬ res < 0 := not_lt.mpr hres
    unfold DatagramTransport.handleCompletion DatagramTransport.handleReadResult
      DatagramTransport.handleWriteResult
    simp only [if_neg hneg]
  · by_cases hw : op = Operation.write
    · subst hw
      have hlost : ¬ ∃ d ∈ t.writeQueue.elems, d.id = id := fun hd => hl (Or.inr ⟨rfl, hd⟩)
      rw [handleCompletion_lost port app hlost, handleCompletion_lost port app hlost]
    · unfold DatagramTransport.handleCompletion
      simp only [if_neg fun h => hl (Or.inl h), if_neg hw]

theorem datagram_looked {op : Operation} {res : ℤ} {id : UInt64} {t : DatagramTransport M σ}
    (hneg : res < 0) (hl : DatagramLooks op id t) (temporary : Bool) :
    (t.handleCompletion port app op res temporary id).1 = .temporaryError ↔ temporary = true := by
  unfold DatagramTransport.handleCompletion
  rcases hl with rfl | ⟨rfl, hd⟩
  · unfold DatagramTransport.handleReadResult
    cases temporary <;> simp [hneg]
  · obtain ⟨it, hit⟩ := Option.ne_none_iff_exists'.mp fun h => (findIdx?_eq_none_iff id t).mp h hd
    obtain ⟨hlt, -⟩ := List.findIdx?_eq_some_iff_getElem.mp hit
    unfold DatagramTransport.handleWriteResult
    cases temporary <;>
      simp [hneg, hit, List.getElem?_eq_getElem hlt, Operation.write, Operation.read, Operation.pollRead]

theorem submitLoop_permanent (is : List ℕ) (t : DatagramTransport M σ) :
    (DatagramTransport.submitLoop port is t).1 ≠ .temporaryError := by
  fun_induction DatagramTransport.submitLoop port is t <;> simp_all

theorem submitDatagrams_permanent (reg : Datagrams.Model.Register M σ) (t : DatagramTransport M σ) :
    (DatagramTransport.submitDatagrams port reg app t).1 ≠ .temporaryError := by
  unfold DatagramTransport.submitDatagrams
  dsimp only
  split
  · simp
  · exact submitLoop_permanent port _ _

theorem datagram_permanent {op : Operation} {id : UInt64} {t : DatagramTransport M σ}
    (hl : ¬ DatagramLooks op id t) (res : ℤ) (temporary : Bool) :
    (t.handleCompletion port app op res temporary id).1 ≠ .temporaryError := by
  by_cases hw : op = Operation.write
  · subst hw
    rw [handleCompletion_lost port app fun hd => hl (Or.inr ⟨rfl, hd⟩)]
    simp
  · unfold DatagramTransport.handleCompletion
    rw [if_neg fun h => hl (Or.inl h)]
    split
    · simp
    · split
      · exact submitDatagrams_permanent port app _ t
      · simp

theorem datagram_judged_iff (op : Operation) (res : ℤ) (id : UInt64) (t : DatagramTransport M σ) :
    JudgedByResult res
      (fun errno => t.handleCompletion port app op res (lastSocketErrorIsTemporary errno) id) ↔
      Harmless (DatagramLooks op id t) res := by
  refine judged_iff_harmless (fun hres errno errno' => ?_) (fun hneg hl errno => ?_) fun _ hl => ?_
  · exact datagram_insensitive port app (Or.inl hres) _ _
  · exact datagram_looked port app hneg hl _
  · refine ⟨_, fun errno => datagram_insensitive port app (Or.inr hl) _ false, ?_⟩
    exact datagram_permanent port app hl res false

end Datagram

/-- **When a completion is judged by its own result**, in every state of either transport. -/
theorem judged_iff {M σ τ : Type} (app : NextLayer σ) (t : Object σ) (port : Datagrams.Model.Port M)
    (layer : Datagrams.Model.NextLayer τ) (d : DatagramTransport M τ) (op : Operation) (res : ℤ)
    (id : UInt64) :
    (JudgedByResult res
        (fun errno => streamHandleCompletion app op res (lastSocketErrorIsTemporary errno) t) ↔
      Harmless (StreamLooks op) res) ∧
    (JudgedByResult res
        (fun errno => d.handleCompletion port layer op res (lastSocketErrorIsTemporary errno) id) ↔
      Harmless (DatagramLooks op id d) res) :=
  ⟨stream_judged_iff app op res t, datagram_judged_iff port layer op res id d⟩

/-- A reset of a connection, completed while `errno` is still `EAGAIN` from an earlier call, and
while it is not. -/
theorem judged_by_errno :
    ¬ ∀ (events : List Event) (s : UringMultiplexer Unit) (mgr : Manager) (app : NextLayer Unit)
      (op : Operation) (res : ℤ),
      run (runStep echoKind {}) (.ok (start 3 6 fun _ => StreamTransportBase.fresh () () {})) events = .ok s →
        echoKind mgr = .stream app →
        JudgedByResult res
          (fun errno => streamHandleCompletion app op res (lastSocketErrorIsTemporary errno) (object s mgr)) := by
  intro h
  have hok : (run (runStep echoKind {})
      (.ok (start 3 6 fun _ => StreamTransportBase.fresh () () {})) connected).isOk = true := by
    decide +kernel
  cases hrun : run (runStep echoKind {})
      (.ok (start 3 6 fun _ => StreamTransportBase.fresh () () {})) connected with
  | error fault => rw [hrun] at hok; cases hok
  | ok s =>
    have hj := h connected s ⟨2, 5⟩ echoLayer Operation.read (-104) hrun rfl
    have hlooked := fun errno => stream_looked echoLayer (by decide : (-104 : ℤ) < 0)
      (Or.inl rfl : StreamLooks Operation.read) (lastSocketErrorIsTemporary errno) (object s ⟨2, 5⟩)
    exact not_judged_of_looked hlooked hj

/-! ### Runs -/

section Runs

variable {σ : Type} (kind : Manager → Kind σ) (config : TransportConfig)

/-- The event, with the `errno` of its completion. -/
def withErrno (errno : ℤ) : Event → Event
  | .dispatch k c => .dispatch k { c with temporary := lastSocketErrorIsTemporary errno }
  | e => e

/-- The completion, if it is one of a stream, is no error or not looked at. -/
def Insensitive (s : UringMultiplexer σ) : Event → Prop
  | .dispatch k c => ∀ x ∈ s.derived.ring.inFlight[k]?, ∀ app, kind x.mgr = .stream app →
      0 ≤ c.res ∨ ¬ StreamLooks x.op
  | _ => True

theorem insensitive_withErrno (s : UringMultiplexer σ) (e : Event) (errno : ℤ) :
    Insensitive kind s (withErrno errno e) ↔ Insensitive kind s e := by
  cases e <;> rfl

variable {kind} in
theorem step_withErrno {s : UringMultiplexer σ} {e : Event} (h : Insensitive kind s e) (errno : ℤ) :
    step kind config (withErrno errno e) s = step kind config e s := by
  cases e with
  | dispatch k c =>
    change dispatch kind config k _ s = dispatch kind config k c s
    unfold dispatch
    cases hk : s.derived.ring.inFlight[k]? with
    | none => rfl
    | some x =>
      dsimp only
      congr 1
      unfold Managers.handleCompletion
      cases hx : kind x.mgr with
      | stream app =>
        dsimp only [onObject]
        rw [stream_insensitive app (h x hk app hx) (lastSocketErrorIsTemporary errno) c.temporary]
      | updater => rfl
      | acceptor => rfl
  | submit | timeouts | call | setTimeout | add | shutdown | rehash => rfl

/-- **Two runs that differ only in `errno` agree**, if no completion brings it in. -/
theorem runs_agree {s : Except Fault (UringMultiplexer σ)} {events events' : List Event}
    (hevents : events.map (withErrno 0) = events'.map (withErrno 0))
    (h : Along (runStep kind config) (fun s e => Holds (fun s => Insensitive kind s e) s) s events) :
    run (runStep kind config) s events = run (runStep kind config) s events' := by
  refine run_congr (fun s e e' he hs => ?_) hevents h
  cases s with
  | error fault => rfl
  | ok s =>
    have hs' : Insensitive kind s e' := by
      rw [← insensitive_withErrno kind s e' 0, ← he]
      exact (insensitive_withErrno kind s e 0).mpr hs
    calc step kind config e s = step kind config (withErrno 0 e) s := (step_withErrno config hs 0).symm
      _ = step kind config (withErrno 0 e') s := by rw [he]
      _ = step kind config e' s := step_withErrno config hs' 0

end Runs

section Sessions

open Datagrams.Model (Completion Port Session)

variable {M σ : Type} (port : Port M) (app : Datagrams.Model.NextLayer σ)

/-- The completion, with its `errno`. -/
def completionWithErrno (errno : ℤ) : Completion M → Completion M
  | .read (.failed _) => .read (.failed (lastSocketErrorIsTemporary errno))
  | .write res _ id => .write res (lastSocketErrorIsTemporary errno) id
  | c => c

/-- The completion is no error or not looked at. -/
def CompletionInsensitive (s : Session M σ) : Completion M → Prop
  | .read (.failed _) => False
  | .write res _ id => 0 ≤ res ∨ ¬ DatagramLooks Operation.write id s.transport
  | _ => True

theorem completeStep_withErrno {s : Session M σ} {c : Completion M} (h : CompletionInsensitive s c)
    (errno : ℤ) :
    s.completeStep port app (completionWithErrno errno c) = s.completeStep port app c := by
  cases c with
  | read outcome =>
    cases outcome with
    | datagram source payload => rfl
    | failed temporary => exact h.elim
  | write res temporary id =>
    unfold Session.completeStep DatagramTransport.complete completionWithErrno
    dsimp only
    rw [datagram_insensitive port app h (lastSocketErrorIsTemporary errno) temporary]
  | pollRead | pollWrite | timeout | call | multiplexer => rfl

theorem completionInsensitive_withErrno (s : Session M σ) (c : Completion M) (errno : ℤ) :
    CompletionInsensitive s (completionWithErrno errno c) ↔ CompletionInsensitive s c := by
  cases c with
  | read outcome => cases outcome <;> rfl
  | write | pollRead | pollWrite | timeout | call | multiplexer => rfl

/-- The same for the sessions of a datagram transport. -/
theorem sessions_agree {s : Session M σ} {cs cs' : List (Completion M)}
    (hcs : cs.map (completionWithErrno 0) = cs'.map (completionWithErrno 0))
    (h : Along (Session.completeStep port app) CompletionInsensitive s cs) :
    run (Session.completeStep port app) s cs = run (Session.completeStep port app) s cs' := by
  refine run_congr (fun s c c' hc hs => ?_) hcs h
  have hs' : CompletionInsensitive s c' := by
    rw [← completionInsensitive_withErrno s c' 0, ← hc]
    exact (completionInsensitive_withErrno s c 0).mpr hs
  calc s.completeStep port app c = s.completeStep port app (completionWithErrno 0 c) :=
        (completeStep_withErrno port app hs 0).symm
    _ = s.completeStep port app (completionWithErrno 0 c') := by rw [hc]
    _ = s.completeStep port app c' :=
        completeStep_withErrno port app hs' 0

end Sessions

end NetworkDriver.Net.Multiplexer.Uring.Errno
