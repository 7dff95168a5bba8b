import NetworkDriver.Net.Datagrams.Callbacks
import NetworkDriver.Net.Multiplexer.Epoll.Objects
import NetworkDriver.Net.StreamTransport.Queue

/-! # Errors of the application under epoll

The stream transport and the datagram transport as the object behind a manager of the epoll
multiplexer. Their next layer may answer `error` to `produce`, to `consume` and to `handle_timeout`. An
error of `consume` travels through `handle_read_result` and `handle_read_event` to `handle_events`,
which removes the manager; `fetch_more_data` drops the verdict of `produce`, and `handle_timeouts` that
of `handle_timeout`.

* `stream_forwards`, `datagram_forwards`: what the handlers of both transports make of errors.
* `errors_close`: in a run in which only `consume` answers `error`, every error closes its manager.
* `errors_survive`: an error of `produce` or of `handle_timeout` does not. -/

namespace NetworkDriver.Net.Multiplexer.Epoll.AppErrors

open NetworkDriver.Library.Keyed NetworkDriver.Net.Types
open NetworkDriver.Net.Multiplexer.Base NetworkDriver.Net.Multiplexer.Epoll.Model
open NetworkDriver.Net.Multiplexer.Epoll.Objects

/-! ### The manager part -/

/-- The manager part of a transport while one of its handlers runs: what it did so far, and what the
next layer will do on its own before each of the registrations to come and behind the last one. -/
structure Agenda where
  acts : List Act
  own : List (List Act)

/-- `register_reading` and `register_writing`, by the operation registered for. -/
def Agenda.register (mgr : Manager) (op : Operation) (a : Agenda) : Agenda where
  acts := a.acts ++ a.own.headD [] ++
    [if op = Operation.read then .registerReading mgr else .registerWriting mgr]
  own := a.own.tail

/-- Everything that the handler did. -/
def Agenda.close (a : Agenda) : List Act := a.acts ++ a.own.flatten

/-- What a handler finds: the outcomes of its reads or writes, and what the next layer does on its
own. -/
structure Input (ρ ω : Type) where
  reads : List ρ := []
  writes : List ω := []
  own : List (List Act) := []

/-- The answer of a callback, with the record of those that answered `error`. -/
def logged {σ γ : Type} (c : Callback) (log : List Callback) (answer : σ × γ × ManagerResult) :
    (σ × List Callback) × γ × ManagerResult :=
  ((answer.1, if answer.2.2 = .error then log ++ [c] else log), answer.2)

/-- A callback that answers no error leaves the record as it is. -/
theorem logged_ok {σ γ : Type} (c : Callback) (log : List Callback) (answer : σ × γ × ManagerResult)
    (h : answer.2.2 ≠ .error) : (logged c log answer).1.2 = log :=
  if_neg h

/-- The record grows with the verdict `error` only. -/
theorem error_of_logged {σ γ : Type} {c : Callback} {answer : σ × γ × ManagerResult}
    (h : (logged c [] answer).1.2 ≠ []) : answer.2.2 = .error := by
  by_contra hne
  exact h (logged_ok c [] answer hne)

/-- No other callback is recorded. -/
theorem not_mem_logged {σ γ : Type} {c c' : Callback} {log : List Callback}
    {answer : σ × γ × ManagerResult} (hlog : c' ∉ log) (hne : c' ≠ c) :
    c' ∉ (logged c log answer).1.2 := by
  unfold logged
  dsimp only
  split_ifs
  · rw [List.mem_append, List.mem_singleton]
    exact not_or.mpr ⟨hlog, hne⟩
  · exact hlog

variable {σ : Type}

/-! ### The stream transport -/

section Stream

open NetworkDriver.Net.StreamTransport.Model NetworkDriver.Net.StreamTransport.Queue
open StreamTransportBase

/-- The next layer, with the record of its errors. -/
def recorded (app : StreamTransport.Model.NextLayer σ) :
    StreamTransport.Model.NextLayer (σ × List Callback) where
  init s := (((app.init s.1).1, s.2), (app.init s.1).2)
  hasMoreData s := app.hasMoreData s.1
  produce s := logged .produce s.2 (app.produce s.1)
  consume s span := logged .consume s.2 (app.consume s.1 span)
  handleTimeout s id := logged .handleTimeout s.2 (app.handleTimeout s.1 id)

/-- A stream transport behind a manager. -/
abbrev Stream (σ : Type) := StreamTransportBase Agenda (σ × List Callback)

/-- The registrations of the transport. -/
def streamRegister (mgr : Manager) : StreamTransport.Model.Register Agenda (σ × List Callback) :=
  fun op t => { t with manager := t.manager.register mgr op }

/-- A handler of the transport. -/
def streamReply (own : List (List Act)) (handler : Stream σ → ManagerResult × Stream σ) (t : Stream σ) :
    Reply (Stream σ) :=
  let o := handler { t with manager := ⟨[], own⟩, nextLayer := (t.nextLayer.1, []) }
  { acts := o.2.manager.close, verdict := o.1, errors := o.2.nextLayer.2, object := o.2 }

/-- `stream_transport<event_handler, NextLayer>`. -/
def stream (mgr : Manager) (app : StreamTransport.Model.NextLayer σ) :
    Object (Input StreamTransport.Model.ReadOutcome StreamTransport.Model.WriteOutcome) (Stream σ) where
  handleReadEvent i :=
    streamReply i.own (handleReadEvent (streamRegister mgr) (recorded app) i.reads)
  handleWriteEvent i :=
    streamReply i.own (handleWriteEvent (streamRegister mgr) (recorded app) i.writes)
  handleTimeout i id := streamReply i.own (handleTimeout (streamRegister mgr) (recorded app) id)

variable {mgr : Manager} {app : StreamTransport.Model.NextLayer σ}

theorem stream_call (t : Stream σ) (c : StreamTransport.Model.Call) :
    (t.call (streamRegister mgr) c).nextLayer = t.nextLayer := by
  cases c with
  | configureNextRead p => rfl
  | enqueue bytes =>
    have hpush : (t.pushCopy bytes).nextLayer = t.nextLayer := by
      rw [StreamTransport.Callbacks.pushCopy_eq]
      rfl
    exact hpush
  | enqueueBuffer bytes spare => rfl
  | registerReading => rfl
  | registerWriting => rfl

/-- The calls of a callback leave the next layer as the callback answered it. -/
theorem stream_callback (answer : (σ × List Callback) × List StreamTransport.Model.Call × ManagerResult)
    (t : Stream σ) : (callback (streamRegister mgr) answer t).2.nextLayer = answer.1 := by
  have hcalls : ∀ (cs : List StreamTransport.Model.Call) (t : Stream σ),
      (cs.foldl (call (streamRegister mgr)) t).nextLayer = t.nextLayer := by
    intro cs
    induction cs with
    | nil => exact fun _ => rfl
    | cons c cs ih => exact fun t => (ih _).trans (stream_call t c)
  exact hcalls answer.2.1 _

/-- `fetch_more_data` meets no error of `consume`. -/
theorem stream_fetch (i : ℕ) (t : Stream σ) (h : Callback.consume ∉ t.nextLayer.2) :
    Callback.consume ∉ (fetchLoop (streamRegister mgr) (recorded app) i t).nextLayer.2 := by
  induction i generalizing t with
  | zero => exact h
  | succ i ih =>
    unfold fetchLoop
    split_ifs
    · refine ih _ ?_
      rw [stream_callback]
      exact not_mem_logged h (by simp)
    · exact h
    · exact h

theorem stream_write (t : Stream σ) (outcome : StreamTransport.Model.WriteOutcome) (res : ℤ)
    (temporary : Bool) :
    ((t.writev outcome).2.handleWriteResult res temporary).2.nextLayer = t.nextLayer := by
  have hkernel : (t.writev outcome).2.nextLayer = t.nextLayer := by
    cases outcome with
    | took k => rfl
    | failed temporary => rfl
  rw [← hkernel]
  generalize (t.writev outcome).2 = t
  unfold handleWriteResult removeWrittenDataFromQueue
  split_ifs
  · rfl
  · rfl
  · rfl
  · obtain ⟨memory, cache, hframe⟩ := removeLoop_frame t.writeQueue res.toNat
      { t with numEnqueuedBytes := subSize t.numEnqueuedBytes res.toNat }
    dsimp only
    rw [hframe]

variable (mgr app) in
/-- The result of a read, if there was no error before it. -/
theorem stream_read (readRes : ℤ) (temporary : Bool) (t : Stream σ) (h : t.nextLayer.2 = []) :
    (handleReadResult (streamRegister mgr) (recorded app) readRes temporary t).2.nextLayer.2 ≠ [] →
      (handleReadResult (streamRegister mgr) (recorded app) readRes temporary t).1 = .error := by
  unfold handleReadResult
  by_cases hneg : readRes < 0
  · rw [if_pos hneg]
    exact fun hne => absurd h hne
  · rw [if_neg hneg]
    by_cases hzero : readRes = 0
    · rw [if_pos hzero]
      exact fun hne => absurd h hne
    · rw [if_neg hzero]
      dsimp only
      by_cases hmin : t.minReadSize ≤ t.received + readRes.toNat
      · rw [if_pos hmin]
        set span := t.readBuffer.take (t.received + readRes.toNat)
        set t₁ : Stream σ := { t with received := t.received + readRes.toNat }
        have hnext : (consume (streamRegister mgr) (recorded app) span t₁).2.nextLayer =
            (logged .consume t.nextLayer.2 (app.consume t.nextLayer.1 span)).1 := stream_callback _ _
        have hverdict : (consume (streamRegister mgr) (recorded app) span t₁).1 =
            (app.consume t.nextLayer.1 span).2.2 := rfl
        generalize consume (streamRegister mgr) (recorded app) span t₁ = o at hnext hverdict ⊢
        obtain ⟨v, t'⟩ := o
        have herror : t'.nextLayer.2 ≠ [] → v = .error := by
          intro hne
          rw [hnext, h] at hne
          exact hverdict.trans (error_of_logged hne)
        cases v with
        | error => exact fun _ => rfl
        | ok | done | temporaryError => exact fun hne => absurd (herror hne) (by simp)
      · rw [if_neg hmin]
        exact fun hne => absurd h hne

theorem stream_recv (t : Stream σ) (outcome : StreamTransport.Model.ReadOutcome) :
    (t.recv outcome).2.nextLayer = t.nextLayer := by
  cases outcome with
  | data bytes => rfl
  | closed => rfl
  | failed temporary => rfl

theorem stream_readLoop (n : ℕ) (kernel : List StreamTransport.Model.ReadOutcome) (t : Stream σ)
    (h : t.nextLayer.2 = []) :
    (readLoop (streamRegister mgr) (recorded app) n kernel t).2.nextLayer.2 ≠ [] →
      (readLoop (streamRegister mgr) (recorded app) n kernel t).1 = .error := by
  induction n generalizing kernel t with
  | zero => exact fun hne => absurd h hne
  | succ n ih =>
    unfold readLoop
    dsimp only
    have hrecv : (t.recv (kernel.headD (.failed true))).2.nextLayer.2 = [] := by
      rw [stream_recv]
      exact h
    have hread := stream_read mgr app
      (toInt (t.recv (kernel.headD (.failed true))).1) (kernel.headD (.failed true)).temporary _ hrecv
    generalize handleReadResult _ _ _ _ _ = o at hread ⊢
    obtain ⟨v, t'⟩ := o
    cases v with
    | ok =>
      refine ih kernel.tail t' ?_
      by_contra hne
      exact absurd (hread hne) (by simp)
    | done => exact hread
    | error => exact hread
    | temporaryError => exact hread

/-- **The stream transport forwards the errors of `consume`.** -/
theorem stream_forwards (mgr : Manager) (app : StreamTransport.Model.NextLayer σ) :
    Forwards (stream mgr app) where
  read i t := stream_readLoop _ i.reads _ rfl
  write i t := by
    refine StreamTransport.Callbacks.writeLoop_keeps (I := fun t : Stream σ => Callback.consume ∉ t.nextLayer.2)
      (fun t h => ?_) (fun t outcome h => ?_) _ i.writes _ List.not_mem_nil
    · exact stream_fetch _ t h
    · rw [stream_write]
      exact h
  timeout i id t := by
    intro hc
    have hnext : ((stream mgr app).handleTimeout i id t).errors =
        (logged .handleTimeout [] (app.handleTimeout t.nextLayer.1 id)).1.2 :=
      congrArg Prod.snd (stream_callback _ _)
    rw [hnext] at hc
    exact not_mem_logged List.not_mem_nil (by simp) hc

end Stream

/-! ### The datagram transport -/

section Datagrams

open NetworkDriver.Net.Datagrams.Model DatagramTransport

/-- The next layer, with the record of its errors. -/
def recordedDatagrams (app : Datagrams.Model.NextLayer σ) :
    Datagrams.Model.NextLayer (σ × List Callback) where
  init s := (((app.init s.1).1, s.2), (app.init s.1).2)
  hasMoreData s := app.hasMoreData s.1
  produce s := logged .produce s.2 (app.produce s.1)
  consume s span ep := logged .consume s.2 (app.consume s.1 span ep)
  handleTimeout s id := logged .handleTimeout s.2 (app.handleTimeout s.1 id)

/-- A datagram transport behind a manager. -/
abbrev Datagrams (σ : Type) := DatagramTransport Agenda (σ × List Callback)

/-- The registrations of the transport. -/
def datagramRegister (mgr : Manager) : Datagrams.Model.Register Agenda (σ × List Callback) :=
  fun op t => { t with manager := t.manager.register mgr op }

/-- A handler of the transport. -/
def datagramReply (own : List (List Act)) (handler : Datagrams σ → ManagerResult × Datagrams σ)
    (t : Datagrams σ) : Reply (Datagrams σ) :=
  let o := handler { t with manager := ⟨[], own⟩, nextLayer := (t.nextLayer.1, []) }
  { acts := o.2.manager.close, verdict := o.1, errors := o.2.nextLayer.2, object := o.2 }

/-- `event_datagram_transport<NextLayer>`. -/
def datagram (mgr : Manager) (app : Datagrams.Model.NextLayer σ) :
    Object (Input Datagrams.Model.ReadOutcome SendOutcome) (Datagrams σ) where
  handleReadEvent i :=
    datagramReply i.own (handleReadEvent (datagramRegister mgr) (recordedDatagrams app) i.reads)
  handleWriteEvent i :=
    datagramReply i.own (handleWriteEvent (datagramRegister mgr) (recordedDatagrams app) i.writes)
  handleTimeout i id :=
    datagramReply i.own (handleTimeout (datagramRegister mgr) (recordedDatagrams app) id)

variable {mgr : Manager} {app : Datagrams.Model.NextLayer σ}

theorem datagram_call (t : Datagrams σ) (c : Datagrams.Model.Call) :
    (t.call (datagramRegister mgr) c).nextLayer = t.nextLayer := by
  cases c with
  | configureNextRead p => rfl
  | enqueue bytes ep =>
    obtain ⟨buf, heap, cache, hpush, -⟩ := Datagrams.Callbacks.pushCopy_eq bytes ep t
    have hkeep : (t.pushCopy bytes ep).nextLayer = t.nextLayer := by
      rw [hpush]
      rfl
    exact hkeep
  | enqueueBuffer bytes capacity ep =>
    obtain ⟨buf, heap, hpush, -⟩ := Datagrams.Callbacks.pushNew_eq bytes capacity ep t
    have hkeep : (t.pushNew bytes capacity ep).nextLayer = t.nextLayer := by
      rw [hpush]
      rfl
    exact hkeep
  | registerReading => rfl
  | registerWriting => rfl

/-- The calls of a callback leave the next layer as the callback answered it. -/
theorem datagram_callback (answer : (σ × List Callback) × List Datagrams.Model.Call × ManagerResult)
    (t : Datagrams σ) : (callback (datagramRegister mgr) answer t).2.nextLayer = answer.1 := by
  have hcalls : ∀ (cs : List Datagrams.Model.Call) (t : Datagrams σ),
      (cs.foldl (call (datagramRegister mgr)) t).nextLayer = t.nextLayer := by
    intro cs
    induction cs with
    | nil => exact fun _ => rfl
    | cons c cs ih => exact fun t => (ih _).trans (datagram_call t c)
  exact hcalls answer.2.1 _

/-- `fetch_more_data` meets no error of `consume`. -/
theorem datagram_fetch (i : ℕ) (t : Datagrams σ) (h : Callback.consume ∉ t.nextLayer.2) :
    Callback.consume ∉ (fetchLoop (datagramRegister mgr) (recordedDatagrams app) i t).nextLayer.2 := by
  induction i generalizing t with
  | zero => exact h
  | succ i ih =>
    unfold fetchLoop
    split_ifs
    · refine ih _ ?_
      rw [datagram_callback]
      exact not_mem_logged h (by simp)
    · exact h
    · exact h

theorem datagram_write (t : Datagrams σ) (outcome : SendOutcome) (res : ℤ) (temporary : Bool) (it : ℕ)
    (d : Datagram) :
    ((t.sendto d outcome).2.2.handleWriteResult res temporary it d).2.nextLayer = t.nextLayer := by
  have hkernel : (t.sendto d outcome).2.2.nextLayer = t.nextLayer := by
    cases outcome with
    | sent =>
      unfold sendto
      split_ifs <;> rfl
    | failed temporary => rfl
  rw [← hkernel]
  generalize (t.sendto d outcome).2.2 = t
  unfold handleWriteResult written returnBuffer
  dsimp only
  split_ifs <;> rfl

variable (mgr app) in
/-- The result of a read, if there was no error before it. -/
theorem datagram_read (ep : Endpoint) (readRes : ℤ) (temporary : Bool) (t : Datagrams σ)
    (h : t.nextLayer.2 = []) :
    (handleReadResult (datagramRegister mgr) (recordedDatagrams app) ep readRes temporary t).2.nextLayer.2
        ≠ [] →
      (handleReadResult (datagramRegister mgr) (recordedDatagrams app) ep readRes temporary t).1 =
        .error := by
  unfold handleReadResult
  by_cases hneg : readRes < 0
  · rw [if_pos hneg]
    exact fun hne => absurd h hne
  · rw [if_neg hneg]
    dsimp only
    by_cases hmin : t.minReadSize ≤ t.received + readRes.toNat
    · rw [if_pos hmin]
      set t₁ : Datagrams σ := { t with received := t.received + readRes.toNat }
      have hnext : (consume (datagramRegister mgr) (recordedDatagrams app) t₁.span ep t₁).2.nextLayer =
          (logged .consume t.nextLayer.2 (app.consume t.nextLayer.1 (t₁.span.map Byte.value) ep)).1 :=
        datagram_callback _ _
      have hverdict : (consume (datagramRegister mgr) (recordedDatagrams app) t₁.span ep t₁).1 =
          (app.consume t.nextLayer.1 (t₁.span.map Byte.value) ep).2.2 := rfl
      generalize consume (datagramRegister mgr) (recordedDatagrams app) t₁.span ep t₁ = o
        at hnext hverdict ⊢
      obtain ⟨v, t'⟩ := o
      have herror : t'.nextLayer.2 ≠ [] → v = .error := by
        intro hne
        rw [hnext, h] at hne
        exact hverdict.trans (error_of_logged hne)
      cases v with
      | error => exact fun _ => rfl
      | ok | done | temporaryError => exact fun hne => absurd (herror hne) (by simp)
    · rw [if_neg hmin]
      exact fun hne => absurd h hne

theorem datagram_recv (t : Datagrams σ) (outcome : Datagrams.Model.ReadOutcome) :
    (t.recvfrom outcome).2.2.nextLayer = t.nextLayer := by
  cases outcome with
  | datagram source payload => rfl
  | failed temporary => rfl

theorem datagram_readLoop (n : ℕ) (kernel : List Datagrams.Model.ReadOutcome) (t : Datagrams σ)
    (h : t.nextLayer.2 = []) :
    (readLoop (datagramRegister mgr) (recordedDatagrams app) n kernel t).2.nextLayer.2 ≠ [] →
      (readLoop (datagramRegister mgr) (recordedDatagrams app) n kernel t).1 = .error := by
  induction n generalizing kernel t with
  | zero => exact fun hne => absurd h hne
  | succ n ih =>
    unfold readLoop
    by_cases hspace : t.readBufferSize = 0
    · rw [if_pos hspace]
      exact fun hne => absurd h hne
    · rw [if_neg hspace]
      dsimp only
      have hrecv : (t.recvfrom (kernel.headD (.failed true))).2.2.nextLayer.2 = [] := by
        rw [datagram_recv]
        exact h
      have hread := datagram_read mgr app
        (t.recvfrom (kernel.headD (.failed true))).1 (t.recvfrom (kernel.headD (.failed true))).2.1
        (kernel.headD (.failed true)).temporary _ hrecv
      generalize handleReadResult _ _ _ _ _ _ = o at hread ⊢
      obtain ⟨v, t'⟩ := o
      cases v with
      | ok =>
        refine ih kernel.tail t' ?_
        by_contra hne
        exact absurd (hread hne) (by simp)
      | done => exact hread
      | error => exact hread
      | temporaryError => exact hread

/-- **The datagram transport forwards the errors of `consume`.** -/
theorem datagram_forwards (mgr : Manager) (app : Datagrams.Model.NextLayer σ) :
    Forwards (datagram mgr app) where
  read i t := datagram_readLoop _ i.reads _ rfl
  write i t := by
    refine Datagrams.Callbacks.writeLoop_keeps (I := fun t : Datagrams σ => Callback.consume ∉ t.nextLayer.2)
      (fun t h => ?_) (fun t d outcome _ h => ?_) _ i.writes List.not_mem_nil
    · exact datagram_fetch _ t h
    · rw [datagram_write]
      exact h
  timeout i id t := by
    intro hc
    have hnext : ((datagram mgr app).handleTimeout i id t).errors =
        (logged .handleTimeout [] (app.handleTimeout t.nextLayer.1 id)).1.2 :=
      congrArg Prod.snd (datagram_callback _ _)
    rw [hnext] at hc
    exact not_mem_logged List.not_mem_nil (by simp) hc

end Datagrams

/-! ### Runs -/

/-- **Application errors close the connection**, for every run of a stream transport and every run of a
datagram transport in which no callback but `consume` answers `error`, and no handler of another
manager that is called after an error hands the manager to `add` again. -/
theorem errors_close {κ σ σ' : Type} (ctl : EpollCtl κ) (depth : ℕ) (mgr : Manager)
    (app : StreamTransport.Model.NextLayer σ) (app' : Datagrams.Model.NextLayer σ') :
    (∀ polls s, AlongPolls ctl depth mgr (stream mgr app)
        (fun poll s => OnlyConsume ctl depth mgr (stream mgr app) poll s ∧
          NoReturn ctl depth mgr (stream mgr app) poll s) polls s →
      AlongPolls ctl depth mgr (stream mgr app) (Closes ctl depth mgr (stream mgr app)) polls s) ∧
    ∀ polls s, AlongPolls ctl depth mgr (datagram mgr app')
        (fun poll s => OnlyConsume ctl depth mgr (datagram mgr app') poll s ∧
          NoReturn ctl depth mgr (datagram mgr app') poll s) polls s →
      AlongPolls ctl depth mgr (datagram mgr app') (Closes ctl depth mgr (datagram mgr app')) polls s :=
  ⟨fun _ _ h => polls_close (stream_forwards mgr app) h,
    fun _ _ h => polls_close (datagram_forwards mgr app') h⟩

/-- An `epoll_ctl` that always succeeds. -/
def freeCtl : EpollCtl Unit := fun _ _ _ _ => (true, ())

/-- The manager that waits for reading and writing, with an expired timeout. -/
def waiting : EpollMultiplexer Unit :=
  let s : EpollMultiplexer Unit := (MultiplexerBase.init { kernel := () }).add ⟨0, 4⟩
  ((s.maskSet ⟨0, 4⟩ Operation.readWrite).setTimeout ⟨0, 4⟩ 0).2

/-- A stream application that has data to send if its state is `true`, and answers `error` to
everything. -/
def failing : StreamTransport.Model.NextLayer Bool where
  init s := (s, [], true)
  hasMoreData s := s
  produce _ := (false, [], .error)
  consume s _ := (s, [], .error)
  handleTimeout s _ := (s, [], .error)

/-- A datagram application that answers `error` to everything. -/
def failingDatagrams : Datagrams.Model.NextLayer Unit where
  init s := (s, [], true)
  hasMoreData _ := false
  produce s := (s, [], .error)
  consume s _ _ := (s, [], .error)
  handleTimeout s _ := (s, [], .error)

/-- The stream transport over `failing`, with data to send. -/
def sender : Hosted Unit (Stream Bool) where
  mpx := waiting
  object := { StreamTransport.Model.StreamTransportBase.fresh ⟨[], []⟩ (true, []) {} with
    minReadSize := 1
    readBuffer := [0] }

/-- The datagram transport over `failingDatagrams`. -/
def receiver : Hosted Unit (Datagrams Unit) where
  mpx := waiting
  object := { Datagrams.Model.DatagramTransport.fresh ⟨[], []⟩ ((), []) fun _ => 0 with
    minReadSize := 1
    readBuffer := [⟨0, none⟩] }

/-- The socket is ready, and nothing has expired. -/
def ready {ρ ω : Type} (flags : EpollFlags) (reads : List ρ) : Poll (Input ρ ω) :=
  .events (fun _ => -1) (fun _ => []) (fun _ => {}) [⟨⟨4, flags, ⟨[], .ok⟩, ⟨[], .ok⟩⟩, { reads := reads }⟩]

/-- The timeout has expired. -/
def expired {ρ ω : Type} : Poll (Input ρ ω) := .events (fun _ => 0) (fun _ => []) (fun _ => {}) []

/-- What a `poll_once` recorded, and whether the manager is registered after it. -/
def recordOf {ι τ : Type} (obj : Object ι τ) (poll : Poll ι) (s : Hosted Unit τ) :
    Except Fault (List Callback × Bool) :=
  (pollOnce freeCtl 1 ⟨0, 4⟩ obj poll s).map fun x =>
    (x.2.errors, decide ((⟨0, 4⟩ : Manager) ∈ x.2.mpx.managers.elems))

theorem record_unique {ι τ : Type} {obj : Object ι τ} {poll : Poll ι} {s s' : Hosted Unit τ}
    {failed : Bool} {r : List Callback × Bool} (hrec : recordOf obj poll s = .ok r)
    (h : pollOnce freeCtl 1 ⟨0, 4⟩ obj poll s = .ok (failed, s')) :
    s'.errors = r.1 ∧ decide ((⟨0, 4⟩ : Manager) ∈ s'.mpx.managers.elems) = r.2 := by
  unfold recordOf at hrec
  rw [h] at hrec
  exact Prod.mk.inj (Except.ok.inj hrec)

/-- A `poll_once` that leaves the manager registered after an error. -/
theorem not_closes {ι τ : Type} {obj : Object ι τ} {poll : Poll ι} {s : Hosted Unit τ} {c : Callback}
    (hrec : recordOf obj poll s = .ok ([c], true)) :
    ¬ Closes freeCtl 1 ⟨0, 4⟩ obj poll s := by
  intro h
  cases hp : pollOnce freeCtl 1 ⟨0, 4⟩ obj poll s with
  | error e =>
    unfold recordOf at hrec
    rw [hp] at hrec
    cases hrec
  | ok x =>
    obtain ⟨herrors, hmem⟩ := record_unique hrec hp
    exact h x.1 x.2 hp (by rw [herrors]; simp) (of_decide_eq_true hmem)

theorem errors_close_consume :
    AlongPolls freeCtl 1 ⟨0, 4⟩ (stream ⟨0, 4⟩ failing)
        (Closes freeCtl 1 ⟨0, 4⟩ (stream ⟨0, 4⟩ failing)) [ready epollIn [.data [1]]] sender ∧
      recordOf (stream ⟨0, 4⟩ failing) (ready epollIn [.data [1]]) sender = .ok ([.consume], false) := by
  have hrec : recordOf (stream ⟨0, 4⟩ failing) (ready epollIn [.data [1]]) sender =
      .ok ([.consume], false) := by decide +kernel
  refine ⟨(errors_close freeCtl 1 ⟨0, 4⟩ failing failingDatagrams).1 _ _ ⟨⟨?_, ?_⟩, fun _ _ _ => trivial⟩,
    hrec⟩
  · intro failed s' h c hc
    rw [(record_unique hrec h).1] at hc
    exact List.mem_singleton.mp hc
  · intro now onTimeout input ws heq s' htimeouts
    cases heq
    exact ⟨fun _ => ⟨id, id⟩, fun _ _ => trivial⟩

/-- An error of `produce`, or of `handle_timeout`, leaves the manager registered. -/
theorem errors_survive :
    ¬ Closes freeCtl 1 ⟨0, 4⟩ (stream ⟨0, 4⟩ failing) (ready epollOut []) sender ∧
      ¬ Closes freeCtl 1 ⟨0, 4⟩ (datagram ⟨0, 4⟩ failingDatagrams) expired receiver :=
  ⟨not_closes (c := .produce) (by decide +kernel), not_closes (c := .handleTimeout) (by decide +kernel)⟩

end NetworkDriver.Net.Multiplexer.Epoll.AppErrors
