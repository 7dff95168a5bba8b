import NetworkDriver.Net.Dispatcher.Model

/-! # What the dispatcher keeps

What its two wrappers keep, and what does not depend on the layers and on the record of calls, every
function of the dispatcher keeps (`Keeps`).

* `Recording`: a parent that records what it was told to send and the ids that it returned; the
  dispatcher has recorded the same (`recorded_keeps`). -/

namespace NetworkDriver.Net.Dispatcher.Keeping

open NetworkDriver.Library.Keyed NetworkDriver.Library.Scripts
open NetworkDriver.Net.Types NetworkDriver.Net.Dispatcher.Model
open NetworkDriver.Net.Datagrams.Model (Endpoint)
open DatagramDispatcher

variable {π σ : Type}

/-! ### The rule -/

/-- A property that the wrappers keep. -/
structure Keeps (par : Parent π) (J : DatagramDispatcher π σ → Prop) : Prop where
  frame : ∀ {s} layers delivered, J s →
    J { s with layers := layers, trace := { s.trace with delivered := delivered } }
  told : ∀ key ep t s, J s → J (told par key ep t s)
  asked : ∀ key ep q s, J s → J (asked par key ep q s).2

section Keeps

variable {par : Parent π} {J : DatagramDispatcher π σ → Prop} (hJ : Keeps par J) {app : NextLayer σ}

include hJ

theorem Keeps.runLayer {β : Type} (key : Endpoint) (w : EndpointWrapper σ) (script : LayerScript (σ × β))
    {s : DatagramDispatcher π σ} (hs : J s) : J (runLayer par key w script s).2 := by
  have hrun : J (script.run (DatagramDispatcher.told par key w.ep) (DatagramDispatcher.asked par key w.ep)
      s).state :=
    Script.run_keeps (I := fun s' _ => J s') (fun t s' _ h => hJ.told _ _ t s' h)
      (fun q s' _ h => hJ.asked _ _ q s' h) script (l := []) hs
  exact hJ.frame _ _ hrun

theorem Keeps.consume (made : σ) (data : List UInt8) (ep : Endpoint) {s : DatagramDispatcher π σ}
    (hs : J s) : J (s.consume par app made data ep).2 := by
  have hnext : J (nextLayer par app made ep s).2 := by
    unfold nextLayer
    cases s.layers.find? ep with
    | some l => exact hs
    | none => exact hJ.runLayer ep _ _ (hJ.frame _ s.trace.delivered hs)
  unfold DatagramDispatcher.consume
  generalize nextLayer par app made ep s = o at hnext ⊢
  obtain ⟨_ | w, s₁⟩ := o
  · exact hnext
  · unfold wrapperConsume
    dsimp only
    split_ifs
    · exact hnext
    · exact hJ.runLayer ep w _ (hJ.frame s₁.layers _ hnext)

theorem Keeps.handleTimeout (id : UInt64) {s : DatagramDispatcher π σ} (hs : J s) :
    J (s.handleTimeout par app id).2 := by
  unfold DatagramDispatcher.handleTimeout
  cases s.timeouts.find? id with
  | none => exact hs
  | some timeout =>
    dsimp only
    cases s.layers.find? timeout.2 with
    | none => exact hs
    | some l => exact hJ.runLayer l.1 l.2 _ (hJ.frame s.layers _ hs)

theorem Keeps.produceLoop (ls : List (Endpoint × EndpointWrapper σ)) {s : DatagramDispatcher π σ}
    (hs : J s) : J (produceLoop par app ls s).2 := by
  induction ls generalizing s with
  | nil => exact hs
  | cons l ls ih =>
    have hlayer := hJ.runLayer l.1 l.2 (app.produce l.2.nextLayer) hs
    unfold DatagramDispatcher.produceLoop
    split
    · rename_i heq
      rw [heq] at hlayer
      exact ih hlayer
    · exact hlayer

theorem Keeps.step (factory : σ) (ev : Event) {s : DatagramDispatcher π σ} (hs : J s) :
    J (step par app factory s ev) := by
  cases ev with
  | consume data ep => exact hJ.consume factory data ep hs
  | handleTimeout id => exact hJ.handleTimeout id hs

end Keeps

/-! ### A parent that records -/

/-- What a parent heard: the datagrams that it was to send, and the ids that it returned. -/
structure Heard where
  enqueued : List (List UInt8 × Endpoint) := []
  returned : List UInt64 := []

/-- A parent with a record of the calls that reach it. -/
def recording (par : Parent π) : Parent (π × Heard) where
  enqueue bytes ep p :=
    (par.enqueue bytes ep p.1, { p.2 with enqueued := p.2.enqueued ++ [(bytes, ep)] })
  enqueueBuffer bytes capacity ep p :=
    (par.enqueueBuffer bytes capacity ep p.1, { p.2 with enqueued := p.2.enqueued ++ [(bytes, ep)] })
  configureNextRead policy p := (par.configureNextRead policy p.1, p.2)
  setTimeoutIn duration p :=
    let (id, parent) := par.setTimeoutIn duration p.1
    (id, parent, { p.2 with returned := p.2.returned ++ [id] })
  setTimeoutAt point p :=
    let (id, parent) := par.setTimeoutAt point p.1
    (id, parent, { p.2 with returned := p.2.returned ++ [id] })

/-- What the parent heard is what the dispatcher has passed on. -/
structure Recorded (s : DatagramDispatcher (π × Heard) σ) : Prop where
  enqueued : s.parent.2.enqueued = s.trace.enqueued.map Prod.snd
  returned : s.parent.2.returned = s.trace.obtained.map Prod.snd

theorem recorded_keeps (par : Parent π) : Keeps (recording par) (Recorded (σ := σ)) where
  frame _ _ h := ⟨h.enqueued, h.returned⟩
  told key ep t s h := by
    have hone (bytes : List UInt8) : s.parent.2.enqueued ++ [(bytes, ep)] =
        (s.trace.enqueued ++ [(key, bytes, ep)]).map Prod.snd := by
      rw [List.map_append, h.enqueued]
      rfl
    cases t with
    | enqueue bytes => exact ⟨hone bytes, h.returned⟩
    | enqueueBuffer bytes capacity => exact ⟨hone bytes, h.returned⟩
    | configureNextRead policy => exact ⟨h.enqueued, h.returned⟩
  asked key ep q s h := by
    have hone (id : UInt64) : s.parent.2.returned ++ [id] =
        (s.trace.obtained ++ [(key, id)]).map Prod.snd := by
      rw [List.map_append, h.returned]
      rfl
    cases q with
    | setTimeoutIn duration => exact ⟨h.enqueued, hone _⟩
    | setTimeoutAt point => exact ⟨h.enqueued, hone _⟩

end NetworkDriver.Net.Dispatcher.Keeping
