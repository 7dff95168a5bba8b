import NetworkDriver.Net.Datagrams.Callbacks
import NetworkDriver.Net.Dispatcher.Production

/-! # Fetching from a dispatcher

The dispatcher is the next layer of a datagram transport, which is its parent. What the layers enqueue
while they produce is collected and then run on the transport; ids of timeouts are numbers.

* `fetchMoreData_rounds`: `fetch_more_data` is so many calls of `produce`, and at least one if there is
  data and room.
* `fetchMoreData_progress`: where no endpoint starves, it lets a layer with data produce. -/

namespace NetworkDriver.Net.Dispatcher.Fetching

open NetworkDriver.Library.Keyed NetworkDriver.Library.Run
open NetworkDriver.Net.Types NetworkDriver.Net.Dispatcher.Model NetworkDriver.Net.Dispatcher.Applications
open NetworkDriver.Net.Dispatcher.Production
open NetworkDriver.Net.Datagrams.Model (Endpoint Call DatagramTransport Register)
open NetworkDriver.Net.Datagrams.Model.DatagramTransport
open NetworkDriver.Net.Datagrams.Callbacks (pushNew_eq pushCopy_eq)

/-- The calls that were made on the transport, and the next id of a timeout. -/
abbrev Collected := List Call × UInt64

/-- The transport, as a parent that collects. -/
def collecting : Parent Collected where
  enqueue bytes ep p := (p.1 ++ [.enqueue bytes ep], p.2)
  enqueueBuffer bytes capacity ep p := (p.1 ++ [.enqueueBuffer bytes capacity ep], p.2)
  configureNextRead policy p := (p.1 ++ [.configureNextRead policy], p.2)
  setTimeoutIn _ p := (p.2, (p.1, p.2 + 1))
  setTimeoutAt _ p := (p.2, (p.1, p.2 + 1))

variable {σ M : Type}

/-- A dispatcher whose parent has collected nothing. -/
def cleared (s : DatagramDispatcher Collected (Application σ)) :
    DatagramDispatcher Collected (Application σ) :=
  { s with parent := ([], s.parent.2) }

/-- The answer of a callback: the new state, the calls collected and the verdict. -/
def answered (o : ManagerResult × DatagramDispatcher Collected (Application σ)) :
    DatagramDispatcher Collected (Application σ) × List Call × ManagerResult :=
  (o.2, o.2.parent.1, o.1)

/-- `datagram_dispatcher` as the `NextLayer` of a transport; its `init` keeps the settings only. -/
def asNextLayer (app : NextLayer σ) (made : Application σ) :
    Datagrams.Model.NextLayer (DatagramDispatcher Collected (Application σ)) where
  init s := (s, [], true)
  hasMoreData s := s.hasMoreData (logged app)
  produce s := answered ((cleared s).produce collecting (logged app))
  consume s data ep := answered ((cleared s).consume collecting (logged app) made data ep)
  handleTimeout s id := answered ((cleared s).handleTimeout collecting (logged app) id)

variable {reg : Register M (DatagramDispatcher Collected (Application σ))}
  (hreg : ∀ op t, (reg op t).nextLayer = t.nextLayer) (app : NextLayer σ) (made : Application σ)

include hreg

theorem calls_nextLayer (calls : List Call)
    (t : DatagramTransport M (DatagramDispatcher Collected (Application σ))) :
    (calls.foldl (call reg) t).nextLayer = t.nextLayer := by
  induction calls generalizing t with
  | nil => rfl
  | cons c calls ih =>
    refine (ih _).trans ?_
    cases c with
    | configureNextRead p => rfl
    | enqueue bytes ep =>
      obtain ⟨buf, heap, cache, heq, -⟩ := pushCopy_eq bytes ep t
      change (reg .write (t.pushCopy bytes ep)).nextLayer = t.nextLayer
      rw [hreg, heq]
      rfl
    | enqueueBuffer bytes capacity ep =>
      obtain ⟨buf, heap, heq, -⟩ := pushNew_eq bytes capacity ep t
      change (reg .write (t.pushNew bytes capacity ep)).nextLayer = t.nextLayer
      rw [hreg, heq]
      rfl
    | registerReading => exact hreg .read t
    | registerWriting => exact hreg .write t

theorem fetchLoop_rounds (i : ℕ)
    (t : DatagramTransport M (DatagramDispatcher Collected (Application σ))) :
    ∃ parents, (fetchLoop reg (asNextLayer app made) i t).nextLayer =
        run (round collecting app) t.nextLayer parents ∧
      (0 < i → t.numEnqueuedBytes < t.config.maxEnqueuedBytes →
        t.nextLayer.hasMoreData (logged app) = true → parents ≠ []) := by
  induction i generalizing t with
  | zero => exact ⟨[], rfl, fun h => absurd h (lt_irrefl 0)⟩
  | succ i ih =>
    unfold fetchLoop
    by_cases hroom : t.numEnqueuedBytes < t.config.maxEnqueuedBytes
    · rw [if_pos hroom]
      by_cases hmore : t.nextLayer.hasMoreData (logged app) = true
      · have hmore' : t.hasMoreData (asNextLayer app made) = true := hmore
        rw [if_pos hmore']
        obtain ⟨parents, hrun, -⟩ :=
          ih (callback reg ((asNextLayer app made).produce t.nextLayer) t).2
        refine ⟨([], t.nextLayer.parent.2) :: parents, ?_, fun _ _ _ => List.cons_ne_nil _ _⟩
        rw [hrun, run_cons]
        refine congrArg (fun s => run (round collecting app) s parents) ?_
        exact calls_nextLayer hreg _ _
      · have hmore' : ¬t.hasMoreData (asNextLayer app made) = true := hmore
        rw [if_neg hmore']
        exact ⟨[], rfl, fun _ _ h => absurd h hmore⟩
    · rw [if_neg hroom]
      exact ⟨[], rfl, fun _ h => absurd h hroom⟩

/-- **`fetch_more_data` calls `produce`**, if there is data, room, and a fetch allowed. -/
theorem fetchMoreData_rounds (t : DatagramTransport M (DatagramDispatcher Collected (Application σ))) :
    ∃ parents, (fetchMoreData reg (asNextLayer app made) t).2.nextLayer =
        run (round collecting app) t.nextLayer parents ∧
      (0 < t.config.maxConsecutiveFetches → t.numEnqueuedBytes < t.config.maxEnqueuedBytes →
        t.nextLayer.hasMoreData (logged app) = true → parents ≠ []) :=
  fetchLoop_rounds hreg app made t.config.maxConsecutiveFetches t

omit hreg

/-- What an application was called for stays in its history. -/
theorem run_history {s : DatagramDispatcher Collected (Application σ)} (hs : Keyed s)
    (parents : List Collected) {e : Endpoint} {a : Application σ} (ha : applicationOf e s = some a) :
    ∃ a', applicationOf e (run (round collecting app) s parents) = some a' ∧ a.history <+: a'.history := by
  induction parents generalizing s a with
  | nil => exact ⟨a, ha, List.prefix_rfl⟩
  | cons parent parents ih =>
    have hround : ∃ b, applicationOf e (round collecting app s parent) = some b ∧
        a.history <+: b.history := by
      rcases produce_called collecting app (s := { s with parent := parent }) (produce_returns app) hs e
        with hsame | ⟨b, b', hb, hcalled, hb'⟩
      · exact ⟨a, hsame.trans ha, List.prefix_rfl⟩
      · obtain rfl := Option.some.inj (ha.symm.trans hb)
        exact ⟨b', hb', ⟨[.produce], hcalled.2.symm⟩⟩
    obtain ⟨b, hb, hinitial⟩ := hround
    obtain ⟨a', ha', hrest⟩ := ih (round_keyed collecting hs parent) hb
    exact ⟨a', ha', hinitial.trans hrest⟩

/-- **Where no endpoint starves another, `fetch_more_data` makes progress**: a layer with data
produces. -/
theorem fetchMoreData_progress (hreg : ∀ op t, (reg op t).nextLayer = t.nextLayer)
    {t : DatagramTransport M (DatagramDispatcher Collected (Application σ))} (hs : Keyed t.nextLayer)
    (hfair : Fair collecting app t.nextLayer) (hfetch : 0 < t.config.maxConsecutiveFetches)
    (hroom : t.numEnqueuedBytes < t.config.maxEnqueuedBytes)
    (hmore : t.nextLayer.hasMoreData (logged app) = true) :
    ∃ e a a', applicationOf e t.nextLayer = some a ∧ app.hasMoreData a.state = true ∧
      applicationOf e (fetchMoreData reg (asNextLayer app made) t).2.nextLayer = some a' ∧
      a.history ++ [.produce] <+: a'.history := by
  obtain ⟨parents, hrun, hsome⟩ := fetchMoreData_rounds hreg app made t
  obtain ⟨parent, rest, rfl⟩ := List.exists_cons_of_ne_nil (hsome hfetch hroom hmore)
  obtain ⟨e, a, b, ha, hdata, hb, hcalled⟩ := hfair.progress [] parent hmore
  obtain ⟨a', ha', hinitial⟩ := run_history app (round_keyed collecting hs parent) rest hb
  rw [hcalled.2] at hinitial
  rw [hrun]
  exact ⟨e, a, a', ha, hdata, ha', hinitial⟩

end NetworkDriver.Net.Dispatcher.Fetching
