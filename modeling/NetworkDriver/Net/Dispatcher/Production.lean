import NetworkDriver.Net.Dispatcher.Applications
import Mathlib.Algebra.Order.BigOperators.Group.List
import Mathlib.Algebra.Order.Group.Nat

/-! # Production

`produce` stops at the first layer whose verdict is not `ok`. A layer without data answers `done`,
so the layers after it in the order of the map do not get to produce, however often they are asked:
the order does not change, and `has_more_data` stays true.

* `visited_eq`: the layers with data up to the first one without, and that one.
* `everyone_iff`: exactly when one call lets every layer with data produce.
* `fair_iff`: exactly when all calls do; then each of them makes progress, and all data gets
  enqueued.
* `descending_run`: layers that send one datagram for each call, in the order of their amounts, meet
  the condition. -/

namespace NetworkDriver.Net.Dispatcher.Production

open NetworkDriver.Library.Keyed NetworkDriver.Library.Run NetworkDriver.Library.Scripts
open NetworkDriver.Net.Types NetworkDriver.Net.Dispatcher.Model NetworkDriver.Net.Dispatcher.Isolation
open NetworkDriver.Net.Dispatcher.Applications
open NetworkDriver.Net.Datagrams.Model (Endpoint)
open DatagramDispatcher

variable {π σ : Type}

/-- A layer with data answers `produce` with `ok`, and one without with `done`. -/
def AnswersByData (app : NextLayer σ) : Prop :=
  ∀ st, (app.produce st).Returns fun r => r.2 = if app.hasMoreData st then .ok else .done

/-- A layer has data if the amount of it is positive, and `produce` uses some up and makes none. -/
structure UsesUp (app : NextLayer σ) (amount : σ → ℕ) : Prop where
  hasMoreData : ∀ st, app.hasMoreData st = true ↔ 0 < amount st
  produce : ∀ st, (app.produce st).Returns fun r => amount r.1 ≤ amount st - 1

/-- The layer has more data. -/
def hasData (app : NextLayer σ) (l : Endpoint × EndpointWrapper (Application σ)) : Bool :=
  app.hasMoreData l.2.nextLayer.state

/-- In the order of the map, no layer with data is behind one without. -/
def DataFirst (app : NextLayer σ) (s : DatagramDispatcher π (Application σ)) : Prop :=
  ∀ l ∈ s.layers.elems.dropWhile (hasData app), hasData app l = false

section Calls

variable (par : Parent π) (app : NextLayer σ)

/-- One call of `produce` lets every layer that has more data produce. -/
def Everyone (s : DatagramDispatcher π (Application σ)) : Prop :=
  ∀ e a, applicationOf e s = some a → app.hasMoreData a.state = true →
    ∃ a', applicationOf e (s.produce par (logged app)).2 = some a' ∧ Called .produce a a'

/-- A call of `produce`, before which the parent has gone to some state. -/
def round (s : DatagramDispatcher π (Application σ)) (parent : π) : DatagramDispatcher π (Application σ) :=
  (DatagramDispatcher.produce par (logged app) { s with parent := parent }).2

/-- No endpoint starves another: every call of `produce` lets all layers with data produce; as long
as there is more data a call makes progress; and what data there is gets produced in finitely many
calls. -/
structure Fair (s : DatagramDispatcher π (Application σ)) : Prop where
  everyone : ∀ parents parent, Everyone par app { run (round par app) s parents with parent := parent }
  progress : ∀ parents parent, hasMoreData (logged app) (run (round par app) s parents) = true →
    ∃ e a a', applicationOf e (run (round par app) s parents) = some a ∧ app.hasMoreData a.state = true ∧
      applicationOf e (run (round par app) s (parents ++ [parent])) = some a' ∧ Called .produce a a'
  finished : ∀ amount, UsesUp app amount → ∃ n, ∀ parents, n ≤ parents.length →
    hasMoreData (logged app) (run (round par app) s parents) = false

end Calls

variable (par : Parent π) {app : NextLayer σ} {s : DatagramDispatcher π (Application σ)}

/-! ### One call -/

theorem runLayer_verdict (happ : AnswersByData app) (key : Endpoint) (w : EndpointWrapper (Application σ))
    (s : DatagramDispatcher π (Application σ)) :
    (runLayer par key w ((logged app).produce w.nextLayer) s).1 =
      if app.hasMoreData w.nextLayer.state then .ok else .done :=
  Script.returns_run (p := fun r : Application σ × ManagerResult =>
      r.2 = if app.hasMoreData w.nextLayer.state then .ok else .done)
    (Script.returns_map.mpr (happ w.nextLayer.state)) s

/-- **The layers that `produce` comes to.** -/
theorem visited_eq (happ : AnswersByData app) (ls : List (Endpoint × EndpointWrapper (Application σ)))
    (s : DatagramDispatcher π (Application σ)) :
    visited par (logged app) ls s = ls.takeWhile (hasData app) ++ (ls.dropWhile (hasData app)).take 1 := by
  induction ls generalizing s with
  | nil => rfl
  | cons l ls ih =>
    have hverdict := runLayer_verdict par happ l.1 l.2 s
    unfold visited
    cases hrun : runLayer par l.1 l.2 ((logged app).produce l.2.nextLayer) s with
    | mk verdict s₁ =>
      rw [hrun] at hverdict
      dsimp only at hverdict
      subst hverdict
      by_cases hdata : app.hasMoreData l.2.nextLayer.state = true
      · have hl : hasData app l = true := hdata
        rw [if_pos hdata, List.takeWhile_cons_of_pos hl, List.dropWhile_cons_of_pos hl, List.cons_append]
        exact congrArg (l :: ·) (ih s₁)
      · have hl : ¬hasData app l = true := hdata
        rw [if_neg hdata, List.takeWhile_cons_of_neg hl, List.dropWhile_cons_of_neg hl, List.nil_append]
        rfl

/-- What a call does to the layers, where `p` is what it does to each that it comes to. -/
theorem produce_visits {p : Application σ → Application σ → Prop}
    (hp : ∀ a, ((logged app).produce a).Returns fun r => p a r.1) (hs : Keyed s) (happ : AnswersByData app)
    (hfirst : DataFirst app s) {e : Endpoint} {a : Application σ} (ha : applicationOf e s = some a)
    (hdata : app.hasMoreData a.state = true) :
    ∃ a', applicationOf e (s.produce par (logged app)).2 = some a' ∧ p a a' := by
  obtain ⟨l, hl, rfl, rfl⟩ := exists_mem_of_applicationOf ha
  have hvisited : l ∈ visited par (logged app) s.layers.elems s := by
    rw [visited_eq par happ]
    refine List.mem_append_left _ ?_
    rw [← List.takeWhile_append_dropWhile (p := hasData app) (l := s.layers.elems)] at hl
    refine (List.mem_append.mp hl).resolve_right fun hrest => ?_
    have hnone := hfirst l hrest
    rw [show hasData app l = true from hdata] at hnone
    cases hnone
  obtain ⟨a', hpa, ha'⟩ := (produce_cases par app hp hs).1 l hvisited
  exact ⟨a', ha', hpa⟩

/-- The layer that `produce` stops at has no data. -/
theorem hasData_of_dropWhile {ls rest : List (Endpoint × EndpointWrapper (Application σ))}
    {l : Endpoint × EndpointWrapper (Application σ)} (h : ls.dropWhile (hasData app) = l :: rest) :
    hasData app l = false := by
  have hstop := List.head?_dropWhile_not (hasData app) ls
  rw [h] at hstop
  exact hstop

/-- **One call lets every layer with data produce exactly if** no layer with data is behind one
without. -/
theorem everyone_iff (happ : AnswersByData app) (hs : Keyed s) : Everyone par app s ↔ DataFirst app s := by
  constructor
  · intro heveryone l hl
    by_contra hne
    have hdata : hasData app l = true := by
      cases h : hasData app l with
      | true => rfl
      | false => exact absurd h hne
    have hmem : l ∈ s.layers.elems := (List.dropWhile_sublist _).subset hl
    obtain ⟨a', ha', hcalled⟩ := heveryone l.1 l.2.nextLayer (applicationOf_mem hmem) hdata
    -- a layer that is not come to is as it was
    have hnot : l.1 ∉ (visited par (logged app) s.layers.elems s).map Prod.fst := by
      rw [visited_eq par happ]
      intro hkey
      obtain ⟨l', hl', hsame⟩ := List.mem_map.mp hkey
      have hmem' : l' ∈ s.layers.elems := by
        rw [← visited_eq par happ s.layers.elems s] at hl'
        exact (visited_initial par (logged app) s.layers.elems s).subset hl'
      obtain rfl : l' = l := List.inj_on_of_nodup_map s.layers.nodup hmem' hmem hsame
      have hsplit := List.takeWhile_append_dropWhile (p := hasData app) (l := s.layers.elems)
      rcases List.mem_append.mp hl' with htake | hhead
      · have hnodup := s.layers.nodup.of_map
        rw [← hsplit] at hnodup
        exact (List.nodup_append.mp hnodup).2.2 _ htake _ hl rfl
      · cases hdrop : s.layers.elems.dropWhile (hasData app) with
        | nil =>
          rw [hdrop] at hl
          cases hl
        | cons d ds =>
          rw [hdrop] at hhead
          obtain rfl := List.mem_singleton.mp hhead
          have hstop := hasData_of_dropWhile hdrop
          rw [hdata] at hstop
          cases hstop
    have hsame := (produce_cases par app (produce_returns app) hs).2.1 l.1 hnot
    rw [applicationOf_mem hmem, ha'] at hsame
    have hhistory := congrArg (fun a => a.history.length) (Option.some.inj hsame)
    simp only [hcalled.2, List.length_append, List.length_singleton] at hhistory
    omega
  · intro hfirst e a ha hdata
    exact produce_visits par (produce_returns app) hs happ hfirst ha hdata

/-! ### Many calls -/

def layerKeys (s : DatagramDispatcher π σ) : List Endpoint := s.layers.elems.map Prod.fst

theorem runLayer_keys {β : Type} (key : Endpoint) (w : EndpointWrapper σ) (script : LayerScript (σ × β))
    (s : DatagramDispatcher π σ) : layerKeys (runLayer par key w script s).2 = layerKeys s := by
  have hlayers : (script.run (told par key w.ep) (asked par key w.ep) s).state.layers = s.layers := by
    refine Script.run_keeps (I := fun (s' : DatagramDispatcher π σ) _ => s'.layers = s.layers)
      (fun t s' _ h => ?_) (fun q s' _ h => ?_) script (l := []) rfl
    · cases t <;> exact h
    · cases q <;> exact h
  have hupdate := KeyedMap.map_key_update
    (script.run (told par key w.ep) (asked par key w.ep) s).state.layers key
    (fun l => (l.1, { l.2 with
      nextLayer := (script.run (told par key w.ep) (asked par key w.ep) s).result.1 })) (fun _ => rfl)
  rw [hlayers] at hupdate
  unfold layerKeys
  rw [← hupdate, ← hlayers]
  rfl

theorem produceLoop_keys (app : NextLayer σ) (ls : List (Endpoint × EndpointWrapper σ))
    (s : DatagramDispatcher π σ) : layerKeys (produceLoop par app ls s).2 = layerKeys s := by
  induction ls generalizing s with
  | nil => rfl
  | cons l ls ih =>
    have hlayer := runLayer_keys par l.1 l.2 (app.produce l.2.nextLayer) s
    unfold produceLoop
    split
    · rename_i heq
      rw [heq] at hlayer
      exact (ih _).trans hlayer
    · exact hlayer

/-- The amount of data of the layer of an endpoint. -/
def amountAt (amount : σ → ℕ) (e : Endpoint) (s : DatagramDispatcher π (Application σ)) : ℕ :=
  ((applicationOf e s).map fun a => amount a.state).getD 0

/-- The amount of data of all layers. -/
def total (amount : σ → ℕ) (s : DatagramDispatcher π (Application σ)) : ℕ :=
  ((layerKeys s).map fun e => amountAt amount e s).sum

/-- After a call of `produce`, by the amount of data. -/
def UsedUp (amount : σ → ℕ) (a a' : Application σ) : Prop := amount a'.state ≤ amount a.state - 1

theorem amountAt_mem {amount : σ → ℕ} {l : Endpoint × EndpointWrapper (Application σ)}
    (hl : l ∈ s.layers.elems) : amountAt amount l.1 s = amount l.2.nextLayer.state := by
  unfold amountAt
  rw [applicationOf_mem hl]
  rfl

theorem hasMoreData_iff : hasMoreData (logged app) s = true ↔
    ∃ e a, applicationOf e s = some a ∧ app.hasMoreData a.state = true := by
  unfold DatagramDispatcher.hasMoreData
  rw [List.any_eq_true]
  constructor
  · rintro ⟨l, hl, hdata⟩
    exact ⟨l.1, l.2.nextLayer, applicationOf_mem hl, hdata⟩
  · rintro ⟨e, a, ha, hdata⟩
    obtain ⟨l, hl, rfl, rfl⟩ := exists_mem_of_applicationOf ha
    exact ⟨l, hl, hdata⟩

/-- A call uses data up, if there is any. -/
theorem total_produce (happ : AnswersByData app) (hs : Keyed s) (hfirst : DataFirst app s)
    {amount : σ → ℕ} (huses : UsesUp app amount) :
    total amount (s.produce par (logged app)).2 ≤ total amount s - 1 := by
  have hp : ∀ a, ((logged app).produce a).Returns fun r => UsedUp amount a r.1 :=
    fun a => Script.returns_map.mpr (huses.produce a.state)
  have hkeys : layerKeys (s.produce par (logged app)).2 = layerKeys s := produceLoop_keys par _ _ _
  have hle : ∀ e, amountAt amount e (s.produce par (logged app)).2 ≤ amountAt amount e s := by
    intro e
    unfold amountAt
    rcases produce_called par app hp hs e with hsame | ⟨a, a', ha, hpa, ha'⟩
    · rw [hsame]
    · rw [ha, ha']
      exact hpa.trans (Nat.sub_le _ _)
  unfold total
  rw [hkeys]
  by_cases hzero : ((layerKeys s).map fun e => amountAt amount e s).sum = 0
  · have hsum := List.sum_le_sum (l := layerKeys s) fun e _ => hle e
    omega
  · -- some layer has data, and is come to
    have hpos : ∃ e ∈ layerKeys s, 0 < amountAt amount e s := by
      by_contra hnone
      push Not at hnone
      refine hzero (List.sum_eq_zero fun x hx => ?_)
      obtain ⟨e, he, rfl⟩ := List.mem_map.mp hx
      exact Nat.le_zero.mp (hnone e he)
    obtain ⟨e, he, hamount⟩ := hpos
    have hlt : amountAt amount e (s.produce par (logged app)).2 < amountAt amount e s := by
      unfold amountAt at hamount ⊢
      cases ha : applicationOf e s with
      | none =>
        rw [ha] at hamount
        exact absurd hamount (lt_irrefl 0)
      | some a =>
        rw [ha] at hamount
        have hamount : 0 < amount a.state := hamount
        obtain ⟨a', ha', hpa⟩ :=
          produce_visits par hp hs happ hfirst ha ((huses.hasMoreData a.state).mpr hamount)
        rw [ha']
        have hused : amount a'.state ≤ amount a.state - 1 := hpa
        change amount a'.state < amount a.state
        omega
    have hsum := List.sum_lt_sum (l := layerKeys s) _ _ (fun e _ => hle e) ⟨e, he, hlt⟩
    omega

theorem hasMoreData_of_total {amount : σ → ℕ} (huses : UsesUp app amount) (hzero : total amount s = 0) :
    hasMoreData (logged app) s = false := by
  refine Bool.eq_false_iff.mpr fun hmore => ?_
  obtain ⟨e, a, ha, hdata⟩ := hasMoreData_iff.mp hmore
  obtain ⟨l, hl, rfl, rfl⟩ := exists_mem_of_applicationOf ha
  have hmem : amountAt amount l.1 s ∈ (layerKeys s).map fun e => amountAt amount e s :=
    List.mem_map_of_mem (List.mem_map_of_mem hl)
  have hle := List.single_le_sum (fun x _ => Nat.zero_le x) _ hmem
  have hamount := (huses.hasMoreData _).mp hdata
  unfold total at hzero
  rw [amountAt_mem hl, hzero] at hle
  exact absurd hamount (not_lt.mpr hle)

theorem round_keyed (hs : Keyed s) (parent : π) : Keyed (round par app s parent) :=
  (produce_cases par app (s := { s with parent := parent }) (produce_returns app) hs).2.2

theorem run_keyed (hs : Keyed s) (parents : List π) : Keyed (run (round par app) s parents) := by
  induction parents generalizing s with
  | nil => exact hs
  | cons parent parents ih => exact ih (round_keyed par hs parent)

theorem total_run (happ : AnswersByData app) (hs : Keyed s)
    (hfirst : ∀ parents, DataFirst app (run (round par app) s parents)) {amount : σ → ℕ}
    (huses : UsesUp app amount) (parents : List π) :
    total amount (run (round par app) s parents) ≤ total amount s - parents.length := by
  induction parents generalizing s with
  | nil => exact le_rfl
  | cons parent parents ih =>
    have hstep : total amount (round par app s parent) ≤ total amount s - 1 :=
      total_produce par (s := { s with parent := parent }) happ hs (hfirst []) huses
    have hrest := ih (round_keyed par hs parent) fun parents => hfirst (parent :: parents)
    rw [run_cons, List.length_cons]
    omega

/-- **No endpoint starves another exactly if** in every state that the calls lead to no layer with
data is behind one without. -/
theorem fair_iff (par : Parent π) (app : NextLayer σ) (happ : AnswersByData app)
    (s : DatagramDispatcher π (Application σ)) (hs : Keyed s) :
    Fair par app s ↔ ∀ parents, DataFirst app (run (round par app) s parents) := by
  have heveryone : ∀ parents parent,
      Everyone par app { run (round par app) s parents with parent := parent } ↔
        DataFirst app (run (round par app) s parents) :=
    fun parents parent => everyone_iff par
      (s := { run (round par app) s parents with parent := parent }) happ (run_keyed par hs parents)
  constructor
  · intro hfair parents
    exact (heveryone parents s.parent).mp (hfair.everyone parents s.parent)
  · intro hfirst
    have hall := fun parents parent => (heveryone parents parent).mpr (hfirst parents)
    refine ⟨hall, fun parents parent hmore => ?_, fun amount huses => ⟨total amount s, fun parents hn => ?_⟩⟩
    · obtain ⟨e, a, ha, hdata⟩ := hasMoreData_iff.mp hmore
      obtain ⟨a', ha', hcalled⟩ := hall parents parent e a ha hdata
      refine ⟨e, a, a', ha, hdata, ?_, hcalled⟩
      unfold run
      rw [List.foldl_append]
      exact ha'
    · have htotal := total_run par happ hs hfirst huses parents
      exact hasMoreData_of_total huses (by omega)

/-! ### Layers in the order of their amounts -/

/-- `produce` uses up exactly one of what the layer has. -/
structure CountsDown (app : NextLayer σ) (amount : σ → ℕ) : Prop where
  hasMoreData : ∀ st, app.hasMoreData st = true ↔ 0 < amount st
  produce : ∀ st, (app.produce st).Returns fun r => amount r.1 = amount st - 1

/-- In the order of the map, no layer has more than one before it. -/
def Descending (amount : σ → ℕ) (s : DatagramDispatcher π (Application σ)) : Prop :=
  (layerKeys s).Pairwise fun e e' => amountAt amount e' s ≤ amountAt amount e s

/-- Behind a layer without data there is none with data. -/
theorem Descending.dataFirst {amount : σ → ℕ} (hcounts : CountsDown app amount) (h : Descending amount s) :
    DataFirst app s := by
  intro l hl
  have hsub := List.dropWhile_sublist (l := s.layers.elems) (hasData app)
  have hpairs := (List.pairwise_map.mp h).sublist hsub
  cases hdrop : s.layers.elems.dropWhile (hasData app) with
  | nil =>
    rw [hdrop] at hl
    cases hl
  | cons d ds =>
    have hd := hasData_of_dropWhile hdrop
    rw [hdrop] at hl hpairs hsub
    rcases List.mem_cons.mp hl with rfl | hl
    · exact hd
    · have hle := (List.pairwise_cons.mp hpairs).1 l hl
      rw [amountAt_mem (hsub.subset (List.mem_cons_of_mem _ hl)), amountAt_mem (hsub.subset List.mem_cons_self)]
        at hle
      refine Bool.eq_false_iff.mpr fun hdata => Bool.eq_false_iff.mp hd ?_
      exact (hcounts.hasMoreData _).mpr (((hcounts.hasMoreData _).mp hdata).trans_le hle)

/-- After a call of `produce` that used up one. -/
def CountedDown (amount : σ → ℕ) (a a' : Application σ) : Prop := amount a'.state = amount a.state - 1

/-- A call takes one from every layer that has data. -/
theorem amountAt_produce {amount : σ → ℕ} (hcounts : CountsDown app amount) (happ : AnswersByData app)
    (hs : Keyed s) (hfirst : DataFirst app s) (e : Endpoint) :
    amountAt amount e (s.produce par (logged app)).2 = amountAt amount e s - 1 := by
  have hp : ∀ a, ((logged app).produce a).Returns fun r => CountedDown amount a r.1 :=
    fun a => Script.returns_map.mpr (hcounts.produce a.state)
  have hcalled := produce_called par app hp hs e
  unfold amountAt
  cases ha : applicationOf e s with
  | none =>
    rcases hcalled with hsame | ⟨a, -, hsome, -⟩
    · rw [hsame, ha]
      rfl
    · rw [ha] at hsome
      cases hsome
  | some a =>
    by_cases hdata : app.hasMoreData a.state = true
    · obtain ⟨a', ha', hpa⟩ := produce_visits par hp hs happ hfirst ha hdata
      rw [ha']
      exact hpa
    · have hzero : amount a.state = 0 :=
        Nat.eq_zero_of_not_pos fun hpos => hdata ((hcounts.hasMoreData _).mpr hpos)
      rcases hcalled with hsame | ⟨b, a', hb, hpa, ha'⟩
      · rw [hsame, ha]
        change amount a.state = amount a.state - 1
        rw [hzero]
      · obtain rfl := Option.some.inj (ha.symm.trans hb)
        rw [ha']
        exact hpa

/-- **The order stays**, whatever the parent does in between. -/
theorem descending_run {amount : σ → ℕ} (hcounts : CountsDown app amount) (happ : AnswersByData app)
    (hs : Keyed s) (h : Descending amount s) (parents : List π) :
    Descending amount (run (round par app) s parents) := by
  induction parents generalizing s with
  | nil => exact h
  | cons parent parents ih =>
    refine ih (round_keyed par hs parent) ?_
    have hkeys : layerKeys (round par app s parent) = layerKeys s := produceLoop_keys par _ _ _
    have hone : ∀ e, amountAt amount e (round par app s parent) = amountAt amount e s - 1 :=
      amountAt_produce par (s := { s with parent := parent }) hcounts happ hs (h.dataFirst hcounts)
    unfold Descending
    rw [hkeys]
    refine h.imp fun hle => ?_
    rw [hone, hone]
    exact Nat.sub_le_sub_right hle 1

/-- A layer that has a number of datagrams to send. -/
def countdownLayer : NextLayer ℕ where
  init s := .done (s, true)
  hasMoreData s := decide (0 < s)
  produce s := if 0 < s then .tell (.enqueue [0]) (.done (s - 1, .ok)) else .done (s, .done)
  consume s _ := .done (s, .ok)
  handleTimeout s _ := .done (s, .ok)

theorem countdown_answers : AnswersByData countdownLayer := by
  intro st
  unfold countdownLayer
  by_cases h : 0 < st
  · simp [h, Script.Returns]
  · simp [h, Script.Returns]

theorem countdown_counts : CountsDown countdownLayer id := by
  refine ⟨fun st => decide_eq_true_iff, fun st => ?_⟩
  unfold countdownLayer
  by_cases h : 0 < st
  · simp [h, Script.Returns]
  · obtain rfl : st = 0 := Nat.eq_zero_of_not_pos h
    simp [Script.Returns]

/-- Two layers that have numbers of datagrams to send. -/
def twoLayers (first second : ℕ) : DatagramDispatcher UInt64 (Application ℕ) where
  parent := 0
  layers := ⟨[(⟨1, 1⟩, ⟨⟨1, 1⟩, ⟨0, [.init true], first⟩⟩), (⟨2, 2⟩, ⟨⟨2, 2⟩, ⟨1, [.init true], second⟩⟩)],
    show [(⟨1, 1⟩ : Endpoint), ⟨2, 2⟩].Nodup by decide⟩

theorem twoLayers_keyed (first second : ℕ) : Keyed (twoLayers first second) := by
  intro e l hl
  obtain ⟨hmem, rfl⟩ := KeyedMap.find?_eq_some.mp hl
  rcases List.mem_cons.mp hmem with rfl | hmem
  · rfl
  · obtain rfl := List.mem_singleton.mp hmem
    rfl

/-- The layer in front has more, and is the last that runs out. -/
theorem twoLayers_fair : Fair numberingParent countdownLayer (twoLayers 2 1) := by
  refine (fair_iff numberingParent countdownLayer countdown_answers (twoLayers 2 1) (twoLayers_keyed 2 1)).mpr ?_
  have hdescending : Descending id (twoLayers 2 1) := by
    unfold Descending
    decide +kernel
  exact fun parents =>
    (descending_run numberingParent countdown_counts countdown_answers (twoLayers_keyed 2 1) hdescending
      parents).dataFirst countdown_counts

/-- A layer without data is in front of one with data. -/
theorem second_layer_starved :
    ¬∀ s : DatagramDispatcher UInt64 (Application ℕ), Keyed s → Fair numberingParent countdownLayer s := by
  intro hall
  have hfair := hall (twoLayers 0 1) (twoLayers_keyed 0 1)
  have hfirst : DataFirst countdownLayer (twoLayers 0 1) :=
    (everyone_iff numberingParent (s := { twoLayers 0 1 with parent := 0 }) countdown_answers
      (twoLayers_keyed 0 1)).mp (hfair.everyone [] 0)
  have hsecond := hfirst (⟨2, 2⟩, ⟨⟨2, 2⟩, ⟨1, [.init true], 1⟩⟩) (List.mem_cons_of_mem _ List.mem_cons_self)
  cases hsecond

end NetworkDriver.Net.Dispatcher.Production
