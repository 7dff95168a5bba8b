import NetworkDriver.Library.Keyed
import NetworkDriver.Library.Run
import NetworkDriver.Library.Scripts
import NetworkDriver.Net.Datagrams.Model

/-! # The dispatcher of datagrams

`datagram_dispatcher<NextLayer>` keeps one layer for each endpoint, and which endpoint a timeout
belongs to. The functions of a layer are scripts: it tells its parent to enqueue and to configure
the next read, and asks it for timeouts, whose ids it may use at once. Between the layer and the
parent stand two wrappers: that of its `datagram_endpoint_wrapper`, which adds the endpoint, and
that of the dispatcher, which takes it away again. The parent is a parameter; its state `π` is
passed along. It answers, but it does not call the dispatcher back: a transport whose `enqueue` writes
at once, as that of io_uring does while it is not registered for writing, calls `produce` from within.

`Trace` records what was passed to which layer and what it asked and told; no function reads it. -/

namespace NetworkDriver.Net.Dispatcher.Model

open NetworkDriver.Library.Keyed NetworkDriver.Library.Scripts
open NetworkDriver.Net.Types
open NetworkDriver.Net.Datagrams.Model (Endpoint)

/-! ### Layers and parents -/

/-- What a layer tells its parent. -/
inductive Tell where
  | enqueue (bytes : List UInt8)
  | enqueueBuffer (bytes : List UInt8) (capacity : ℕ)
  | configureNextRead (policy : ReceivePolicy)
  deriving DecidableEq

/-- What a layer asks its parent for. -/
inductive Ask where
  | setTimeoutIn (duration : ℤ)
  | setTimeoutAt (point : ℤ)
  deriving DecidableEq

/-- A function of a layer. -/
abbrev LayerScript := Script Tell Ask UInt64

/-- The functions of `NextLayer`; the answer of `init` is whether it succeeded. -/
structure NextLayer (σ : Type) where
  init : σ → LayerScript (σ × Bool)
  hasMoreData : σ → Bool
  produce : σ → LayerScript (σ × ManagerResult)
  consume : σ → List UInt8 → LayerScript (σ × ManagerResult)
  handleTimeout : σ → UInt64 → LayerScript (σ × ManagerResult)

/-- The payload that is enqueued. -/
def Tell.payload? : Tell → Option (List UInt8)
  | .enqueue bytes => some bytes
  | .enqueueBuffer bytes _ => some bytes
  | .configureNextRead _ => none

/-- The parent of the dispatcher, which makes no calls of its own. -/
structure Parent (π : Type) where
  enqueue : List UInt8 → Endpoint → π → π
  enqueueBuffer : List UInt8 → ℕ → Endpoint → π → π
  configureNextRead : ReceivePolicy → π → π
  setTimeoutIn : ℤ → π → UInt64 × π
  setTimeoutAt : ℤ → π → UInt64 × π

/-! ### The state -/

/-- `datagram_endpoint_wrapper`. -/
structure EndpointWrapper (σ : Type) where
  ep : Endpoint
  nextLayer : σ

/-- A call of a function of a layer. -/
inductive Delivery where
  | consume (data : List UInt8)
  | handleTimeout (id : UInt64)
  deriving DecidableEq

/-- What passed through the dispatcher, by the key of the layer: the calls of its functions, the ids it
was answered, and the payloads it enqueued, with the endpoint that the parent was given. -/
structure Trace where
  delivered : List (Endpoint × Delivery) := []
  obtained : List (Endpoint × UInt64) := []
  enqueued : List (Endpoint × List UInt8 × Endpoint) := []

/-- `datagram_dispatcher`, with the state of its parent. -/
structure DatagramDispatcher (π σ : Type) where
  parent : π
  layers : KeyedMap (α := Endpoint × EndpointWrapper σ) Prod.fst := .empty
  timeouts : KeyedMap (α := UInt64 × Endpoint) Prod.fst := .empty
  trace : Trace := {}

variable {π σ : Type}

namespace DatagramDispatcher

variable (par : Parent π)

/-! ### The wrapper of the dispatcher

Each function takes the endpoint that the other wrapper adds; the first argument `key` is for the
record only. -/

/-- `parent_wrapper::enqueue(const_byte_span, v4_endpoint)`. -/
def enqueue (key : Endpoint) (bytes : List UInt8) (ep : Endpoint) (s : DatagramDispatcher π σ) :
    DatagramDispatcher π σ :=
  { s with
    parent := par.enqueue bytes ep s.parent
    trace := { s.trace with enqueued := s.trace.enqueued ++ [(key, bytes, ep)] } }

/-- `parent_wrapper::enqueue(byte_buffer&&, v4_endpoint)`. -/
def enqueueBuffer (key : Endpoint) (bytes : List UInt8) (capacity : ℕ) (ep : Endpoint)
    (s : DatagramDispatcher π σ) : DatagramDispatcher π σ :=
  { s with
    parent := par.enqueueBuffer bytes capacity ep s.parent
    trace := { s.trace with enqueued := s.trace.enqueued ++ [(key, bytes, ep)] } }

/-- `parent_wrapper::configure_next_read`. -/
def configureNextRead (policy : ReceivePolicy) (_ep : Endpoint) (s : DatagramDispatcher π σ) :
    DatagramDispatcher π σ :=
  { s with parent := par.configureNextRead policy s.parent }

/-- Both `parent_wrapper::set_timeout_in` and `set_timeout_at`, by the function of the parent. -/
def setTimeout (set : ℤ → π → UInt64 × π) (key : Endpoint) (time : ℤ) (ep : Endpoint)
    (s : DatagramDispatcher π σ) : UInt64 × DatagramDispatcher π σ :=
  let (id, parent) := set time s.parent
  (id, { s with
    parent := parent
    timeouts := s.timeouts.emplace (id, ep)
    trace := { s.trace with obtained := s.trace.obtained ++ [(key, id)] } })

/-- `parent_wrapper::set_timeout_in`. -/
def setTimeoutIn : Endpoint → ℤ → Endpoint → DatagramDispatcher π σ → UInt64 × DatagramDispatcher π σ :=
  setTimeout par.setTimeoutIn

/-- `parent_wrapper::set_timeout_at`. -/
def setTimeoutAt : Endpoint → ℤ → Endpoint → DatagramDispatcher π σ → UInt64 × DatagramDispatcher π σ :=
  setTimeout par.setTimeoutAt

/-! ### The wrapper of a layer -/

/-- `datagram_endpoint_wrapper::parent_wrapper`, the functions without an answer: `self.ep_` is
added. -/
def told (key ep : Endpoint) : Tell → DatagramDispatcher π σ → DatagramDispatcher π σ
  | .enqueue bytes, s => s.enqueue par key bytes ep
  | .enqueueBuffer bytes capacity, s => s.enqueueBuffer par key bytes capacity ep
  | .configureNextRead policy, s => s.configureNextRead par policy ep

/-- `datagram_endpoint_wrapper::parent_wrapper`, the functions with an answer. -/
def asked (key ep : Endpoint) : Ask → DatagramDispatcher π σ → UInt64 × DatagramDispatcher π σ
  | .setTimeoutIn duration, s => s.setTimeoutIn par key duration ep
  | .setTimeoutAt point, s => s.setTimeoutAt par key point ep

/-- A function of the layer in a wrapper runs, and the layer goes to its new state. -/
def runLayer {β : Type} (key : Endpoint) (w : EndpointWrapper σ) (script : LayerScript (σ × β))
    (s : DatagramDispatcher π σ) : β × DatagramDispatcher π σ :=
  let o := script.run (told par key w.ep) (asked par key w.ep) s
  (o.result.2, { o.state with
    layers := o.state.layers.update key
      (fun l => (l.1, { l.2 with nextLayer := o.result.1 })) (fun _ => rfl) })

variable (app : NextLayer σ)

/-- `datagram_endpoint_wrapper::consume`. -/
def wrapperConsume (key : Endpoint) (w : EndpointWrapper σ) (data : List UInt8) (ep : Endpoint)
    (s : DatagramDispatcher π σ) : ManagerResult × DatagramDispatcher π σ :=
  if w.ep ≠ ep then (.error, s)
  else
    runLayer par key w (app.consume w.nextLayer data)
      { s with trace := { s.trace with delivered := s.trace.delivered ++ [(key, .consume data)] } }

/-- `datagram_endpoint_wrapper::handle_timeout`. -/
def wrapperHandleTimeout (key : Endpoint) (w : EndpointWrapper σ) (id : UInt64)
    (s : DatagramDispatcher π σ) : ManagerResult × DatagramDispatcher π σ :=
  runLayer par key w (app.handleTimeout w.nextLayer id)
    { s with trace := { s.trace with delivered := s.trace.delivered ++ [(key, .handleTimeout id)] } }

/-! ### The functions of the dispatcher -/

variable (factory : σ)

/-- `next_layer`: the wrapper of the endpoint, which is made if there is none. -/
def nextLayer (ep : Endpoint) (s : DatagramDispatcher π σ) :
    Option (EndpointWrapper σ) × DatagramDispatcher π σ :=
  match s.layers.find? ep with
  | some l => (some l.2, s)
  | none =>
    let w : EndpointWrapper σ := ⟨ep, factory⟩
    let (success, s) := runLayer par ep w (app.init w.nextLayer)
      { s with layers := s.layers.emplace (ep, w) }
    (if success then (s.layers.find? ep).map Prod.snd else none, s)

/-- `consume`. -/
def consume (data : List UInt8) (ep : Endpoint) (s : DatagramDispatcher π σ) :
    ManagerResult × DatagramDispatcher π σ :=
  match nextLayer par app factory ep s with
  | (some w, s) => wrapperConsume par app ep w data ep s
  | (none, s) => (.error, s)

/-- `handle_timeout`. -/
def handleTimeout (id : UInt64) (s : DatagramDispatcher π σ) : ManagerResult × DatagramDispatcher π σ :=
  match s.timeouts.find? id with
  | none => (.error, s)
  | some timeout =>
    match s.layers.find? timeout.2 with
    | none => (.error, s)
    | some layer => wrapperHandleTimeout par app layer.1 layer.2 id s

/-- `has_more_data`. -/
def hasMoreData (s : DatagramDispatcher π σ) : Bool :=
  s.layers.elems.any fun l => app.hasMoreData l.2.nextLayer

/-- The loop of `produce`, over the layers in the order of the map. -/
def produceLoop : List (Endpoint × EndpointWrapper σ) → DatagramDispatcher π σ →
    ManagerResult × DatagramDispatcher π σ
  | [], s => (.ok, s)
  | l :: ls, s =>
    match runLayer par l.1 l.2 (app.produce l.2.nextLayer) s with
    | (.ok, s) => produceLoop ls s
    | verdict => verdict

/-- `produce`. -/
def produce (s : DatagramDispatcher π σ) : ManagerResult × DatagramDispatcher π σ :=
  produceLoop par app s.layers.elems s

end DatagramDispatcher

/-! ### Runs -/

/-- A call of the dispatcher. -/
inductive Event where
  | consume (data : List UInt8) (ep : Endpoint)
  | handleTimeout (id : UInt64)
  deriving DecidableEq

open DatagramDispatcher

variable (par : Parent π) (app : NextLayer σ) (factory : σ)

/-- One call. -/
def step (s : DatagramDispatcher π σ) : Event → DatagramDispatcher π σ
  | .consume data ep => (s.consume par app factory data ep).2
  | .handleTimeout id => (s.handleTimeout par app id).2

end NetworkDriver.Net.Dispatcher.Model
