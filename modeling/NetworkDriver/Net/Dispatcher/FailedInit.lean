import NetworkDriver.Net.Dispatcher.Applications

/-! # Layers whose `init` fails

`next_layer` puts a new layer into the map and then initializes it. Where that fails, the layer
stays there, and so do the timeouts that `init` has set; the next datagram, the next timeout and the
next round of `produce` are forwarded to it.

* `failed_stays`: a layer whose `init` has failed is in the map afterwards.
* `respected_iff`: exactly when no such layer is used or left behind. -/

namespace NetworkDriver.Net.Dispatcher.FailedInit

open NetworkDriver.Library.Keyed NetworkDriver.Library.Run NetworkDriver.Library.Scripts
open NetworkDriver.Net.Types NetworkDriver.Net.Dispatcher.Model NetworkDriver.Net.Dispatcher.Isolation
open NetworkDriver.Net.Dispatcher.Applications
open NetworkDriver.Net.Datagrams.Model (Endpoint)
open DatagramDispatcher

variable {π σ : Type}

/-- `init` of the application was called first, and returned no error. -/
def Initialized (a : Application σ) : Prop := a.history.head? = some (.init true)

section Step

variable (par : Parent π) (app : NextLayer σ) (factory : ℕ → σ)

/-- If the call makes a new application, its `init` returns no error. -/
def InitSucceeds (h : Host π σ) : HostEvent → Prop
  | .consume _ ep => applicationOf ep h.dispatcher = none → nextAnswer par app factory h ep = true
  | _ => True

/-- The call leaves only initialized applications that were used, and nothing of a failed `init`. -/
structure Respected (h : Host π σ) (ev : HostEvent) : Prop where
  used : ∀ e a, applicationOf e (hostStep par app factory h ev).dispatcher = some a →
    ∀ c ∈ a.history, LayerCall.isInit c = false → Initialized a
  restored : ¬InitSucceeds par app factory h ev →
    (hostStep par app factory h ev).dispatcher.layers = h.dispatcher.layers ∧
      (hostStep par app factory h ev).dispatcher.timeouts = h.dispatcher.timeouts

/-- Every application is initialized. -/
structure AllInitialized (h : Host π σ) : Prop where
  known : Known h
  initialized : ∀ e a, applicationOf e h.dispatcher = some a → Initialized a

end Step

variable {par : Parent π} {app : NextLayer σ} {factory : ℕ → σ} {h : Host π σ}

theorem initialized_of_continues {a a' : Application σ} (hc : Continues a a') (ha : Initialized a) :
    Initialized a' := by
  obtain ⟨-, calls, -, hhistory⟩ := hc
  unfold Initialized at ha ⊢
  rw [hhistory, List.head?_append, ha]
  rfl

/-- A layer whose `init` has failed is in the map afterwards, and its history is that one call. -/
theorem failed_stays (hk : Known h) {data : List UInt8} {ep : Endpoint}
    (hfails : ¬InitSucceeds par app factory h (.consume data ep)) :
    ∃ a, applicationOf ep h.dispatcher = none ∧
      applicationOf ep (hostStep par app factory h (.consume data ep)).dispatcher = some a ∧
      a.history = [.init false] := by
  obtain ⟨hnone, hanswer⟩ := Classical.not_imp.mp hfails
  obtain ⟨a, ha⟩ := hostStep_consume par app factory hk data ep
  obtain ⟨data', -, -, hhistory⟩ := hostStep_new par app factory hk _ hnone ha
  rw [if_neg hanswer] at hhistory
  exact ⟨a, hnone, ha, hhistory⟩

theorem allInitialized_step (hall : AllInitialized h) (ev : HostEvent)
    (hsucceeds : InitSucceeds par app factory h ev) :
    AllInitialized (hostStep par app factory h ev) := by
  refine ⟨hostStep_known par app factory hall.known ev, fun e a ha => ?_⟩
  cases hbefore : applicationOf e h.dispatcher with
  | some b =>
    obtain ⟨a', ha', hcontinues⟩ :=
      hostStep_continues par app factory hall.known ev hbefore
    obtain rfl := Option.some.inj (ha.symm.trans ha')
    exact initialized_of_continues hcontinues (hall.initialized e b hbefore)
  | none =>
    obtain ⟨data, rfl, -, hhistory⟩ := hostStep_new par app factory hall.known ev hbefore ha
    rw [if_pos (hsucceeds hbefore)] at hhistory
    unfold Initialized
    rw [hhistory]
    rfl

theorem respected_step (hall : AllInitialized h) (ev : HostEvent) :
    Respected par app factory h ev ↔ InitSucceeds par app factory h ev := by
  constructor
  · intro hrespected
    by_contra hfails
    obtain ⟨hlayers, -⟩ := hrespected.restored hfails
    cases ev with
    | produce order => exact hfails trivial
    | handleTimeout id => exact hfails trivial
    | consume data ep =>
      obtain ⟨a, hnone, ha, -⟩ := failed_stays hall.known hfails
      unfold applicationOf layerState at ha hnone
      rw [hlayers, hnone] at ha
      cases ha
  · intro hsucceeds
    have hafter := allInitialized_step hall ev hsucceeds
    exact ⟨fun e a ha _ _ _ => hafter.initialized e a ha, fun hfails => absurd hsucceeds hfails⟩

/-- **In a run only initialized applications are used, and a failed `init` leaves nothing behind,
exactly if** no `init` fails. -/
theorem respected_iff (par : Parent π) (app : NextLayer σ) (factory : ℕ → σ) (parent : π)
    (es : List HostEvent) :
    Along (hostStep par app factory) (Respected par app factory) { dispatcher := { parent := parent } } es ↔
      Along (hostStep par app factory) (InitSucceeds par app factory)
        { dispatcher := { parent := parent } } es := by
  have hfresh : AllInitialized ({ dispatcher := { parent := parent } } : Host π σ) := by
    refine ⟨known_fresh parent, fun e a ha => ?_⟩
    cases ha
  have hiff : ∀ (h : Host π σ) (ev : HostEvent), AllInitialized h →
      (Respected par app factory h ev ↔ InitSucceeds par app factory h ev) :=
    fun h ev hall => respected_step hall ev
  have hstep : ∀ (h : Host π σ) (ev : HostEvent), AllInitialized h →
      InitSucceeds par app factory h ev → AllInitialized (hostStep par app factory h ev) :=
    fun h ev hall hsucceeds => allInitialized_step hall ev hsucceeds
  exact along_iff_along hiff hstep hfresh

/-- A layer whose `init` sets a timeout and fails. -/
def refusingLayer : NextLayer Unit where
  init s := .ask (.setTimeoutIn 5) fun _ => .done (s, false)
  hasMoreData _ := false
  produce s := .done (s, .ok)
  consume s _ := .done (s, .ok)
  handleTimeout s _ := .done (s, .ok)

/-- Its second datagram, and its timeout, are forwarded to it. -/
theorem refused_used :
    ¬∀ es : List HostEvent, Along (hostStep numberingParent refusingLayer fun _ => ())
      (Respected numberingParent refusingLayer fun _ => ()) { dispatcher := { parent := 0 } } es := by
  intro hall
  have hrun := hall [.consume [7] ⟨1, 1⟩, .consume [8] ⟨1, 1⟩, .handleTimeout 0]
  have happ : applicationOf ⟨1, 1⟩ (run (hostStep numberingParent refusingLayer fun _ => ())
      { dispatcher := { parent := 0 } }
      [.consume [7] ⟨1, 1⟩, .consume [8] ⟨1, 1⟩, .handleTimeout 0]).dispatcher =
    some ⟨0, [.init false, .consume [8], .handleTimeout 0], ()⟩ := by decide +kernel
  have hinit := hrun.2.2.1.used ⟨1, 1⟩ _ happ (.consume [8]) (by decide) rfl
  have hfirst : some (LayerCall.init false) = some (.init true) := hinit
  cases hfirst

end NetworkDriver.Net.Dispatcher.FailedInit
