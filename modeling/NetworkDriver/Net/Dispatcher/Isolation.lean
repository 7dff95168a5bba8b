import NetworkDriver.Net.Dispatcher.Keeping

/-! # Isolation of endpoints

The layer of an endpoint is served by the calls that concern the endpoint, and by the ids its parent
answers it: `solo` runs one layer with nothing but these. The invariant `Routed` ties the dispatcher to
it: every layer is where its own run has led and has enqueued what it enqueues there, its wrapper has
the endpoint it is kept under, and a timeout belongs to the layer that was answered its id.

* `step_served`: one call serves the layer it concerns, and no other.
* `isolated`: whole runs, with what the parent heard; two runs that agree for an endpoint leave its layer
  in the same state. -/

namespace NetworkDriver.Net.Dispatcher.Isolation

open NetworkDriver.Library.Keyed NetworkDriver.Library.Run NetworkDriver.Library.Scripts
open NetworkDriver.Net.Types NetworkDriver.Net.Dispatcher.Model NetworkDriver.Net.Dispatcher.Keeping
open NetworkDriver.Net.Datagrams.Model (Endpoint)
open DatagramDispatcher

variable {π σ : Type}

/-! ### What concerns an endpoint -/

/-- The entries of a record that belong to an endpoint. -/
def entriesOf {α : Type} (e : Endpoint) (l : List (Endpoint × α)) : List α :=
  l.filterMap fun x => if x.1 = e then some x.2 else none

/-- The calls that the layer of an endpoint got. -/
def deliveredTo (e : Endpoint) (s : DatagramDispatcher π σ) : List Delivery :=
  entriesOf e s.trace.delivered

/-- The ids that the layer of an endpoint was answered. -/
def obtainedBy (e : Endpoint) (s : DatagramDispatcher π σ) : List UInt64 := entriesOf e s.trace.obtained

/-- The payloads that the layer of an endpoint enqueued. -/
def saidBy (e : Endpoint) (s : DatagramDispatcher π σ) : List (List UInt8) :=
  (entriesOf e s.trace.enqueued).map Prod.fst

/-- The payloads for an endpoint. -/
def payloadsFor (e : Endpoint) (l : List (List UInt8 × Endpoint)) : List (List UInt8) :=
  (l.filter fun x => x.2 = e).map Prod.fst

/-- The payloads for an endpoint that a parent heard. -/
def heardFor (e : Endpoint) (s : DatagramDispatcher (π × Heard) σ) : List (List UInt8) :=
  payloadsFor e s.parent.2.enqueued

/-- The state of the layer of an endpoint. -/
def layerState (e : Endpoint) (s : DatagramDispatcher π σ) : Option σ :=
  (s.layers.find? e).map fun l => l.2.nextLayer

/-- The call of its layer by which an event concerns an endpoint: a datagram that came from it, or a
timeout whose id its layer has obtained. -/
def concerns (e : Endpoint) (s : DatagramDispatcher π σ) : Event → Option Delivery
  | .consume data ep => if ep = e then some (.consume data) else none
  | .handleTimeout id => if (e, id) ∈ s.trace.obtained then some (.handleTimeout id) else none

section Run

variable (par : Parent π) (app : NextLayer σ) (factory : σ)

/-- The events of a run that concern an endpoint. -/
def concerning (e : Endpoint) : DatagramDispatcher π σ → List Event → List Delivery
  | _, [] => []
  | s, ev :: es => (concerns e s ev).toList ++ concerning e (step par app factory s ev) es

end Run

theorem entriesOf_append {α : Type} (e : Endpoint) (l l' : List (Endpoint × α)) :
    entriesOf e (l ++ l') = entriesOf e l ++ entriesOf e l' := List.filterMap_append

theorem entriesOf_map {α : Type} (e ep : Endpoint) (l : List α) :
    entriesOf e (l.map fun a => (ep, a)) = if e = ep then l else [] := by
  unfold entriesOf
  rw [List.filterMap_map]
  by_cases he : e = ep
  · simp [he]
  · simp [he, Ne.symm he]

/-! ### A layer alone -/

/-- A layer alone: its state, the ids that it is still to be answered, and the payloads that it has told
its parent to enqueue. -/
structure Solo (σ : Type) where
  layer : Option σ := none
  ids : List UInt64
  said : List (List UInt8) := []

namespace Solo

variable {β : Type}

/-- A function of the layer runs. -/
def run (x : Solo σ) (script : LayerScript (σ × β)) : Option (Solo σ) :=
  (script.feed x.ids).map fun y =>
    ⟨some y.1.1, y.2, x.said ++ (script.tells x.ids).filterMap Tell.payload?⟩

/-- With further ids behind, and what was said before. -/
def extend (x : Solo σ) (before : List (List UInt8)) (more : List UInt64) : Solo σ :=
  { x with ids := x.ids ++ more, said := before ++ x.said }

theorem run_extend {x y : Solo σ} {script : LayerScript (σ × β)} (h : x.run script = some y)
    (before : List (List UInt8)) (more : List UInt64) :
    (x.extend before more).run script = some (y.extend before more) := by
  obtain ⟨z, hz, rfl⟩ := Option.map_eq_some_iff.mp h
  have hfeed : script.feed x.ids = some (z.1, z.2) := hz
  unfold run extend
  dsimp only
  rw [Script.feed_append hfeed, Script.tells_append hfeed, Option.map_some, List.append_assoc]

end Solo

section Solo

variable (app : NextLayer σ) (factory : σ)

/-- A layer that is there, or a new one that is initialized. -/
def opened (x : Solo σ) : Option (Solo σ) :=
  match x.layer with
  | some _ => some x
  | none => x.run (app.init factory)

/-- One call of a layer. -/
def soloStep (x : Solo σ) : Delivery → Option (Solo σ)
  | .consume data =>
    (opened app factory x).bind fun y => y.layer.bind fun s => y.run (app.consume s data)
  | .handleTimeout id => x.layer.bind fun s => x.run (app.handleTimeout s id)

/-- The calls one after the other, from before the layer is made. -/
def solo (calls : List Delivery) (ids : List UInt64) : Option (Solo σ) :=
  calls.foldlM (soloStep app factory) { ids := ids }

variable {app factory}

theorem opened_extend {x y : Solo σ} (h : opened app factory x = some y) (before : List (List UInt8))
    (more : List UInt64) : opened app factory (x.extend before more) = some (y.extend before more) := by
  obtain ⟨layer, ids, said⟩ := x
  cases layer with
  | some s =>
    obtain rfl := Option.some.inj h
    rfl
  | none => exact Solo.run_extend h before more

theorem soloStep_extend {x y : Solo σ} {c : Delivery} (h : soloStep app factory x c = some y)
    (before : List (List UInt8)) (more : List UInt64) :
    soloStep app factory (x.extend before more) c = some (y.extend before more) := by
  cases c with
  | consume data =>
    obtain ⟨z, hz, hy⟩ := Option.bind_eq_some_iff.mp h
    obtain ⟨s, hs, hrun⟩ := Option.bind_eq_some_iff.mp hy
    unfold soloStep
    dsimp only
    rw [opened_extend hz, Option.bind_some, show (z.extend before more).layer = some s from hs,
      Option.bind_some]
    exact Solo.run_extend hrun before more
  | handleTimeout id =>
    obtain ⟨s, hs, hrun⟩ := Option.bind_eq_some_iff.mp h
    unfold soloStep
    dsimp only
    rw [show (x.extend before more).layer = some s from hs, Option.bind_some]
    exact Solo.run_extend hrun before more

theorem foldlM_extend (calls : List Delivery) {x y : Solo σ}
    (h : calls.foldlM (soloStep app factory) x = some y) (before : List (List UInt8))
    (more : List UInt64) :
    calls.foldlM (soloStep app factory) (x.extend before more) = some (y.extend before more) := by
  induction calls generalizing x with
  | nil =>
    obtain rfl := Option.some.inj h
    rfl
  | cons c calls ih =>
    rw [List.foldlM_cons] at h ⊢
    obtain ⟨z, hz, hrest⟩ := Option.bind_eq_some_iff.mp h
    rw [soloStep_extend hz before more]
    exact ih hrest

/-- **One more call** with its own ids. -/
theorem solo_snoc {calls : List Delivery} {ids new : List UInt64} {st st' : Option σ} {c : Delivery}
    {said said' : List (List UInt8)} (h : solo app factory calls ids = some ⟨st, [], said⟩)
    (hc : soloStep app factory ⟨st, new, []⟩ c = some ⟨st', [], said'⟩) :
    solo app factory (calls ++ [c]) (ids ++ new) = some ⟨st', [], said ++ said'⟩ := by
  have hcalls := foldlM_extend calls h [] new
  have hcall := soloStep_extend hc said []
  change soloStep app factory ⟨st, new ++ [], said ++ []⟩ c = _ at hcall
  rw [List.append_nil, List.append_nil] at hcall
  unfold solo
  rw [List.foldlM_append]
  change (calls.foldlM (soloStep app factory) (Solo.extend { ids := ids } [] new)).bind _ = _
  rw [hcalls]
  change (soloStep app factory ⟨st, new, said⟩ c).bind (fun y => some y) = _
  rw [hcall]
  rfl

end Solo

/-! ### The invariant -/

/-- The ids that the parent returned are pairwise distinct. -/
def DistinctIds (s : DatagramDispatcher π σ) : Prop := (s.trace.obtained.map Prod.snd).Nodup

instance (s : DatagramDispatcher π σ) : Decidable (DistinctIds s) := by
  unfold DistinctIds
  infer_instance

/-- A timeout belongs to the layer that obtained it. -/
def TimeoutsOwned (s : DatagramDispatcher π σ) : Prop :=
  ∀ id ep, s.timeouts.find? id = some (id, ep) ↔ (ep, id) ∈ s.trace.obtained

/-- What was enqueued went to the endpoint of the layer. -/
def Addressed (s : DatagramDispatcher π σ) : Prop := ∀ x ∈ s.trace.enqueued, x.2.2 = x.1

/-- **The invariant.** -/
structure Routed (app : NextLayer σ) (factory : σ) (s : DatagramDispatcher π σ) : Prop where
  keyed : ∀ e l, s.layers.find? e = some l → l.2.ep = e
  timeouts : TimeoutsOwned s
  known : ∀ x ∈ s.trace.obtained, (s.layers.find? x.1).isSome
  addressed : Addressed s
  solo : ∀ e, solo app factory (deliveredTo e s) (obtainedBy e s) = some ⟨layerState e s, [], saidBy e s⟩

theorem routed_fresh (app : NextLayer σ) (factory : σ) (parent : π) :
    Routed app factory { parent := parent } := by
  refine ⟨?_, ?_, ?_, ?_, fun _ => rfl⟩
  · intro e l h
    cases h
  · intro id ep
    exact ⟨fun h => (by cases h), fun h => absurd h List.not_mem_nil⟩
  · exact fun _ h => absurd h List.not_mem_nil
  · exact fun _ h => absurd h List.not_mem_nil

/-! ### A function of a layer -/

variable (par : Parent π) {app : NextLayer σ} {factory : σ}

/-- What the script of a layer does to the dispatcher: the ids it was answered are recorded, and so is
whom they belong to. -/
structure Talks (key : Endpoint) (ids : List UInt64) (s s' : DatagramDispatcher π σ) : Prop where
  layers : s'.layers = s.layers
  delivered : s'.trace.delivered = s.trace.delivered
  obtained : s'.trace.obtained = s.trace.obtained ++ ids.map fun id => (key, id)
  timeouts : DistinctIds s' → TimeoutsOwned s → TimeoutsOwned s'

theorem told_talks {key : Endpoint} {ids : List UInt64} {s s' : DatagramDispatcher π σ} (t : Tell)
    (h : Talks key ids s s') : Talks key ids s (told par key key t s') := by
  cases t <;> exact ⟨h.layers, h.delivered, h.obtained, h.timeouts⟩

/-- What a layer enqueues goes to its endpoint. -/
theorem told_enqueued (key : Endpoint) (t : Tell) (s : DatagramDispatcher π σ) :
    (told par key key t s).trace.enqueued = s.trace.enqueued ++
      (t.payload?.map fun bytes => (key, bytes, key)).toList := by
  cases t with
  | enqueue bytes => rfl
  | enqueueBuffer bytes capacity => rfl
  | configureNextRead policy => exact (List.append_nil _).symm

theorem asked_enqueued (key : Endpoint) (q : Ask) (s : DatagramDispatcher π σ) :
    (asked par key key q s).2.trace.enqueued = s.trace.enqueued := by
  cases q <;> rfl

/-- A new id belongs to the layer that it is answered to. -/
theorem setTimeout_owned {s : DatagramDispatcher π σ} {key : Endpoint} {id : UInt64} {parent : π}
    (hdistinct : ((s.trace.obtained ++ [(key, id)]).map Prod.snd).Nodup) (h : TimeoutsOwned s) :
    TimeoutsOwned { s with
      parent := parent
      timeouts := s.timeouts.emplace (id, key)
      trace := { s.trace with obtained := s.trace.obtained ++ [(key, id)] } } := by
  have hfresh : ∀ ep, (ep, id) ∉ s.trace.obtained := by
    intro ep hmem
    rw [List.map_append, List.map_singleton] at hdistinct
    exact (List.nodup_append.mp hdistinct).2.2 _ (List.mem_map_of_mem hmem) _ List.mem_cons_self rfl
  intro id' ep
  change (s.timeouts.emplace (id, key)).find? id' = some (id', ep) ↔ _ ∈ s.trace.obtained ++ [(key, id)]
  rw [KeyedMap.find?_emplace_eq, List.mem_append, List.mem_singleton, ← h id' ep]
  by_cases hid : id = id'
  · subst hid
    have hnone : s.timeouts.find? id = none := by
      cases hf : s.timeouts.find? id with
      | none => rfl
      | some x =>
        have hx : x.1 = id := (KeyedMap.find?_eq_some.mp hf).2
        have hmem : (x.2, id) ∈ s.trace.obtained := (h id x.2).mp (by rw [hf, ← hx])
        exact absurd hmem (hfresh x.2)
    rw [hnone, Option.none_or, if_pos rfl]
    simp [eq_comm]
  · rw [if_neg hid, Option.or_none]
    refine ⟨Or.inl, fun h => h.resolve_right fun heq => hid ?_⟩
    exact (Prod.mk.inj heq).2.symm

theorem asked_talks {key : Endpoint} {ids : List UInt64} {s s' : DatagramDispatcher π σ} (q : Ask)
    (h : Talks key ids s s') :
    Talks key (ids ++ [(asked par key key q s').1]) s (asked par key key q s').2 := by
  have hset (set : ℤ → π → UInt64 × π) (time : ℤ) :
      Talks key (ids ++ [(setTimeout set key time key s').1]) s (setTimeout set key time key s').2 := by
    refine ⟨h.layers, h.delivered, ?_, fun hdistinct howned => ?_⟩
    · change s'.trace.obtained ++ [(key, (setTimeout set key time key s').1)] = _
      rw [h.obtained, List.append_assoc, List.map_append, List.map_singleton]
    · refine setTimeout_owned hdistinct (h.timeouts ?_ howned)
      have hbefore : ((s'.trace.obtained ++ [(key, (set time s'.parent).1)]).map Prod.snd).Nodup :=
        hdistinct
      rw [List.map_append] at hbefore
      exact hbefore.of_append_left
  cases q with
  | setTimeoutIn duration => exact hset par.setTimeoutIn duration
  | setTimeoutAt point => exact hset par.setTimeoutAt point

/-- What running a function of the layer under `key` does. -/
structure Ran {β : Type} (key : Endpoint) (script : LayerScript (σ × β)) (s : DatagramDispatcher π σ)
    (o : β × DatagramDispatcher π σ) (ids : List UInt64) (next : σ) : Prop where
  feed : script.feed ids = some ((next, o.1), [])
  layers : ∀ e, o.2.layers.find? e = if e = key then some (key, ⟨key, next⟩) else s.layers.find? e
  delivered : o.2.trace.delivered = s.trace.delivered
  obtained : o.2.trace.obtained = s.trace.obtained ++ ids.map fun id => (key, id)
  enqueued : o.2.trace.enqueued = s.trace.enqueued ++
    ((script.tells ids).filterMap Tell.payload?).map fun bytes => (key, bytes, key)
  timeouts : DistinctIds o.2 → TimeoutsOwned s → TimeoutsOwned o.2

theorem addressed_append {key : Endpoint} {said : List (List UInt8)} {s s' : DatagramDispatcher π σ}
    (h : s'.trace.enqueued = s.trace.enqueued ++ said.map fun bytes => (key, bytes, key))
    (hs : Addressed s) : Addressed s' := by
  intro x hx
  rw [h] at hx
  rcases List.mem_append.mp hx with hx | hx
  · exact hs x hx
  · obtain ⟨bytes, -, rfl⟩ := List.mem_map.mp hx
    rfl

/-- The layer alone does the same with its ids. -/
theorem Ran.solo {β : Type} {key : Endpoint} {script : LayerScript (σ × β)} {s : DatagramDispatcher π σ}
    {o : β × DatagramDispatcher π σ} {ids : List UInt64} {next : σ} (h : Ran key script s o ids next)
    (st : Option σ) (said : List (List UInt8)) :
    Solo.run ⟨st, ids, said⟩ script =
      some ⟨some next, [], said ++ (script.tells ids).filterMap Tell.payload?⟩ := by
  unfold Solo.run
  rw [h.feed]
  rfl

/-- **A function of a layer runs.** -/
theorem runLayer_ran {β : Type} {key : Endpoint} {w : EndpointWrapper σ} {s : DatagramDispatcher π σ}
    (hfind : s.layers.find? key = some (key, w)) (hep : w.ep = key) (script : LayerScript (σ × β)) :
    ∃ ids next, Ran key script s (runLayer par key w script s) ids next := by
  have htalks : Talks key (script.run (told par key key) (asked par key key) s).answers s
      (script.run (told par key key) (asked par key key) s).state :=
    Script.run_keeps (I := fun s' ids => Talks key ids s s') (fun t _ _ h => told_talks par t h)
      (fun q _ _ h => asked_talks par q h) script (l := [])
      ⟨rfl, rfl, (List.append_nil _).symm, fun _ => id⟩
  have hfeed : script.feed ((script.run (told par key key) (asked par key key) s).answers ++ []) =
      some ((script.run (told par key key) (asked par key key) s).result, []) :=
    Script.feed_run script s []
  rw [List.append_nil] at hfeed
  obtain ⟨ep, st⟩ := w
  obtain rfl : ep = key := hep
  refine ⟨_, (script.run (told par ep ep) (asked par ep ep) s).result.1, hfeed, fun e => ?_,
    htalks.delivered, htalks.obtained, ?_, htalks.timeouts⟩
  swap
  · rw [List.map_filterMap]
    exact Script.tells_run (fun s => s.trace.enqueued) (told_enqueued par ep)
      (asked_enqueued par ep) script s
  have hupdate : (runLayer par ep ⟨ep, st⟩ script s).2.layers.find? e =
      ((script.run (told par ep ep) (asked par ep ep) s).state.layers.find? e).map fun l =>
        if e = ep then
          (l.1, { l.2 with nextLayer := (script.run (told par ep ep) (asked par ep ep) s).result.1 })
        else l := KeyedMap.find?_update
      (script.run (told par ep ep) (asked par ep ep) s).state.layers ep e
      (fun l => (l.1, { l.2 with nextLayer := (script.run (told par ep ep) (asked par ep ep) s).result.1 }))
      (fun _ => rfl)
  rw [hupdate, htalks.layers]
  by_cases he : e = ep
  · subst he
    rw [if_pos rfl, hfind, Option.map_some, if_pos rfl]
  · rw [if_neg he]
    cases s.layers.find? e with
    | none => rfl
    | some l => rw [Option.map_some, if_neg he]

/-! ### Calls -/

/-- What serving the layer of an endpoint with a call does. -/
structure Served (app : NextLayer σ) (factory : σ) (ep : Endpoint) (c : Delivery)
    (s s' : DatagramDispatcher π σ) (ids : List UInt64) (said : List (List UInt8)) (next : σ) : Prop where
  solo : soloStep app factory ⟨layerState ep s, ids, []⟩ c = some ⟨some next, [], said⟩
  layers : ∀ e, s'.layers.find? e = if e = ep then some (ep, ⟨ep, next⟩) else s.layers.find? e
  delivered : s'.trace.delivered = s.trace.delivered ++ [(ep, c)]
  obtained : s'.trace.obtained = s.trace.obtained ++ ids.map fun id => (ep, id)
  enqueued : s'.trace.enqueued = s.trace.enqueued ++ said.map fun bytes => (ep, bytes, ep)
  timeouts : DistinctIds s' → TimeoutsOwned s → TimeoutsOwned s'

/-- **Serving one layer keeps the dispatcher routed.** -/
theorem Served.routed {ep : Endpoint} {c : Delivery} {s s' : DatagramDispatcher π σ} {ids : List UInt64}
    {said : List (List UInt8)} {next : σ} (h : Served app factory ep c s s' ids said next) (hs : Routed app factory s)
    (hdistinct : DistinctIds s') :
    Routed app factory s' ∧
      ∀ e, deliveredTo e s' = deliveredTo e s ++ if e = ep then [c] else [] := by
  have hdelivered (e : Endpoint) :
      deliveredTo e s' = deliveredTo e s ++ if e = ep then [c] else [] := by
    unfold deliveredTo
    rw [h.delivered, entriesOf_append]
    exact congrArg _ (entriesOf_map e ep [c])
  have hstate (e : Endpoint) : layerState e s' = if e = ep then some next else layerState e s := by
    unfold layerState
    rw [h.layers]
    split_ifs <;> rfl
  have hids (e : Endpoint) : obtainedBy e s' = obtainedBy e s ++ if e = ep then ids else [] := by
    unfold obtainedBy
    rw [h.obtained, entriesOf_append, entriesOf_map]
  have hsaid (e : Endpoint) : saidBy e s' = saidBy e s ++ if e = ep then said else [] := by
    have hentries : said.map (fun bytes => (ep, bytes, ep)) =
        (said.map fun bytes => (bytes, ep)).map fun x => (ep, x) := by
      rw [List.map_map]
      rfl
    unfold saidBy
    rw [h.enqueued, entriesOf_append, List.map_append, hentries, entriesOf_map]
    split_ifs
    · rw [List.map_map]
      exact congrArg _ (List.map_id said)
    · rfl
  refine ⟨⟨?_, h.timeouts hdistinct hs.timeouts, ?_, addressed_append h.enqueued hs.addressed, ?_⟩,
    hdelivered⟩
  · intro e l hl
    rw [h.layers] at hl
    split_ifs at hl with he
    · obtain rfl := Option.some.inj hl
      exact he.symm
    · exact hs.keyed e l hl
  · intro x hx
    rw [h.layers]
    split_ifs with he
    · rfl
    · rw [h.obtained] at hx
      rcases List.mem_append.mp hx with hx | hx
      · exact hs.known x hx
      · obtain ⟨id, -, rfl⟩ := List.mem_map.mp hx
        exact absurd rfl he
  · intro e
    rw [hdelivered, hids, hstate, hsaid]
    by_cases he : e = ep
    · subst he
      rw [if_pos rfl, if_pos rfl, if_pos rfl, if_pos rfl]
      exact solo_snoc (hs.solo e) h.solo
    · rw [if_neg he, if_neg he, if_neg he, if_neg he, List.append_nil, List.append_nil, List.append_nil]
      exact hs.solo e

/-- The layer that `next_layer` answers, with the ids that its `init` was answered. -/
theorem nextLayer_opened {s : DatagramDispatcher π σ} (hs : Routed app factory s)
    (hinit : (app.init factory).Returns fun r => r.2 = true) (ep : Endpoint) :
    ∃ w ids said s₁, nextLayer par app factory ep s = (some w, s₁) ∧ w.ep = ep ∧
      opened app factory ⟨layerState ep s, ids, []⟩ = some ⟨some w.nextLayer, [], said⟩ ∧
      (∀ e, s₁.layers.find? e = if e = ep then some (ep, w) else s.layers.find? e) ∧
      s₁.trace.delivered = s.trace.delivered ∧
      s₁.trace.obtained = s.trace.obtained ++ ids.map (fun id => (ep, id)) ∧
      s₁.trace.enqueued = s.trace.enqueued ++ said.map (fun bytes => (ep, bytes, ep)) ∧
      (DistinctIds s₁ → TimeoutsOwned s → TimeoutsOwned s₁) := by
  unfold nextLayer
  cases hfind : s.layers.find? ep with
  | some l =>
    have hkey : l.1 = ep := (KeyedMap.find?_eq_some.mp hfind).2
    refine ⟨l.2, [], [], s, rfl, hs.keyed ep l hfind, ?_, fun e => ?_, rfl, (List.append_nil _).symm,
      (List.append_nil _).symm, fun _ => id⟩
    · unfold layerState
      rw [hfind]
      rfl
    · split_ifs with he
      · rw [he, hfind, ← hkey]
      · rfl
  | none =>
    set s₀ : DatagramDispatcher π σ := { s with layers := s.layers.emplace (ep, ⟨ep, factory⟩) }
    have hmade : s₀.layers.find? ep = some (ep, ⟨ep, factory⟩) := by
      change (s.layers.emplace _).find? ep = _
      rw [KeyedMap.find?_emplace_eq, hfind, if_pos rfl]
      rfl
    obtain ⟨ids, next, hran⟩ := runLayer_ran par hmade rfl (app.init factory)
    have hok : (runLayer par ep ⟨ep, factory⟩ (app.init factory) s₀).1 = true :=
      Script.returns_run hinit s₀
    have hfound : (runLayer par ep ⟨ep, factory⟩ (app.init factory) s₀).2.layers.find? ep =
        some (ep, ⟨ep, next⟩) := by
      rw [hran.layers, if_pos rfl]
    refine ⟨⟨ep, next⟩, ids, _, (runLayer par ep ⟨ep, factory⟩ (app.init factory) s₀).2, ?_, rfl, ?_, ?_,
      hran.delivered, hran.obtained, hran.enqueued, hran.timeouts⟩
    · dsimp only
      rw [hok, if_pos rfl, hfound]
      rfl
    · unfold layerState opened
      rw [hfind, Option.map_none]
      exact hran.solo none []
    · intro e
      rw [hran.layers]
      split_ifs with he
      · rfl
      · change (s.layers.emplace _).find? e = _
        rw [KeyedMap.find?_emplace_eq, if_neg (Ne.symm he), Option.or_none]

/-- **`consume` serves the layer of the endpoint.** -/
theorem consume_served {s : DatagramDispatcher π σ} (hs : Routed app factory s)
    (hinit : (app.init factory).Returns fun r => r.2 = true) (data : List UInt8) (ep : Endpoint) :
    ∃ ids said next,
      Served app factory ep (.consume data) s (s.consume par app factory data ep).2 ids said next := by
  obtain ⟨w, ids₁, said₁, s₁, hnext, hep, hopened, hlayers, hdelivered, hobtained, henqueued, htimeouts⟩ :=
    nextLayer_opened par hs hinit ep
  have hfind : s₁.layers.find? ep = some (ep, w) := by
    rw [hlayers, if_pos rfl]
  set s₂ : DatagramDispatcher π σ :=
    { s₁ with trace := { s₁.trace with delivered := s₁.trace.delivered ++ [(ep, .consume data)] } }
  obtain ⟨ids₂, next, hran⟩ :=
    runLayer_ran par (s := s₂) hfind hep (app.consume w.nextLayer data)
  have hrun : (s.consume par app factory data ep).2 =
      (runLayer par ep w (app.consume w.nextLayer data) s₂).2 := by
    unfold DatagramDispatcher.consume wrapperConsume
    rw [hnext]
    dsimp only
    rw [if_neg (not_not.mpr hep)]
  rw [hrun]
  refine ⟨ids₁ ++ ids₂, said₁ ++ ((app.consume w.nextLayer data).tells ids₂).filterMap Tell.payload?, next,
    ?_, fun e => ?_, ?_, ?_, ?_, fun hd h => hran.timeouts hd (htimeouts ?_ h)⟩
  · have hmore := opened_extend hopened [] ids₂
    unfold soloStep
    dsimp only
    change (opened app factory (Solo.extend ⟨layerState ep s, ids₁, []⟩ [] ids₂)).bind _ = _
    rw [hmore]
    exact hran.solo (some w.nextLayer) said₁
  · rw [hran.layers]
    split_ifs with he
    · rfl
    · exact (hlayers e).trans (if_neg he)
  · rw [hran.delivered]
    exact congrArg (· ++ _) hdelivered
  · rw [hran.obtained]
    change s₁.trace.obtained ++ _ = _
    rw [hobtained, List.append_assoc, List.map_append]
  · rw [hran.enqueued]
    change s₁.trace.enqueued ++ _ = _
    rw [henqueued, List.append_assoc, List.map_append]
  · unfold DistinctIds at hd ⊢
    rw [hran.obtained, List.map_append] at hd
    exact hd.of_append_left

/-- **`handle_timeout` serves the layer that obtained the id**, if there is one. -/
theorem handleTimeout_served {s : DatagramDispatcher π σ} (hs : Routed app factory s) (id : UInt64) :
    ((s.handleTimeout par app id).2 = s ∧ ∀ ep, (ep, id) ∉ s.trace.obtained) ∨
      ∃ ep ids said next, s.timeouts.find? id = some (id, ep) ∧
        Served app factory ep (.handleTimeout id) s (s.handleTimeout par app id).2 ids said next := by
  unfold DatagramDispatcher.handleTimeout
  cases htimeout : s.timeouts.find? id with
  | none =>
    refine Or.inl ⟨rfl, fun ep hmem => ?_⟩
    have := (hs.timeouts id ep).mpr hmem
    rw [htimeout] at this
    cases this
  | some x =>
    obtain ⟨id', ep⟩ := x
    obtain rfl : id' = id := (KeyedMap.find?_eq_some.mp htimeout).2
    have hknown := hs.known _ ((hs.timeouts id' ep).mp htimeout)
    obtain ⟨l, hfind⟩ := Option.isSome_iff_exists.mp hknown
    obtain ⟨key, w⟩ := l
    obtain rfl : key = ep := (KeyedMap.find?_eq_some.mp hfind).2
    set s₁ : DatagramDispatcher π σ :=
      { s with trace := { s.trace with delivered := s.trace.delivered ++ [(key, .handleTimeout id')] } }
    obtain ⟨ids, next, hran⟩ := runLayer_ran par (s := s₁) hfind (hs.keyed key _ hfind)
      (app.handleTimeout w.nextLayer id')
    refine Or.inr ⟨key, ids, ((app.handleTimeout w.nextLayer id').tells ids).filterMap Tell.payload?, next,
      rfl, ?_⟩
    dsimp only
    rw [hfind]
    refine ⟨?_, hran.layers, hran.delivered, hran.obtained, hran.enqueued, hran.timeouts⟩
    unfold soloStep layerState
    dsimp only
    rw [hfind, Option.map_some, Option.bind_some]
    exact hran.solo _ []

/-- **One call** serves the layer that it concerns, and no other. -/
theorem step_served {s : DatagramDispatcher π σ} (hs : Routed app factory s)
    (hinit : (app.init factory).Returns fun r => r.2 = true) (ev : Event)
    (hdistinct : DistinctIds (step par app factory s ev)) :
    Routed app factory (step par app factory s ev) ∧
      ∀ e, deliveredTo e (step par app factory s ev) = deliveredTo e s ++ (concerns e s ev).toList := by
  cases ev with
  | consume data ep =>
    obtain ⟨ids, said, next, hserved⟩ := consume_served par hs hinit data ep
    obtain ⟨hrouted, hdelivered⟩ := hserved.routed hs hdistinct
    refine ⟨hrouted, fun e => (hdelivered e).trans ?_⟩
    unfold concerns
    dsimp only
    by_cases he : e = ep
    · rw [if_pos he, if_pos he.symm]
      rfl
    · rw [if_neg he, if_neg (Ne.symm he)]
      rfl
  | handleTimeout id =>
    rcases handleTimeout_served par hs id with ⟨hsame, hnone⟩ | ⟨ep, ids, said, next, hfind, hserved⟩
    · have hstep : step par app factory s (.handleTimeout id) = s := hsame
      rw [hstep]
      refine ⟨hs, fun e => ?_⟩
      unfold concerns
      dsimp only
      rw [if_neg (hnone e)]
      exact (List.append_nil _).symm
    · obtain ⟨hrouted, hdelivered⟩ := hserved.routed hs hdistinct
      refine ⟨hrouted, fun e => (hdelivered e).trans ?_⟩
      unfold concerns
      dsimp only
      have howner : (e, id) ∈ s.trace.obtained ↔ e = ep := by
        rw [← hs.timeouts id e, hfind, Option.some.injEq, Prod.mk.injEq]
        exact ⟨fun h => h.2.symm, fun h => ⟨rfl, h.symm⟩⟩
      by_cases he : e = ep
      · rw [if_pos he, if_pos (howner.mpr he)]
        rfl
      · rw [if_neg he, if_neg fun h => he (howner.mp h)]
        rfl

/-! ### Runs -/

/-- What is obtained stays obtained. -/
theorem obtained_keeps (l : List (Endpoint × UInt64)) :
    Keeps par fun s : DatagramDispatcher π σ => l <+: s.trace.obtained where
  frame _ _ h := h
  told key ep t s h := by
    cases t <;> exact h
  asked key ep q s h := by
    cases q <;> exact h.trans (List.prefix_append _ _)

theorem run_obtained (s : DatagramDispatcher π σ) (es : List Event) :
    s.trace.obtained <+: (run (step par app factory) s es).trace.obtained :=
  (always_of_step (I := fun s' : DatagramDispatcher π σ => s.trace.obtained <+: s'.trace.obtained)
    (fun _ ev h => (obtained_keeps par s.trace.obtained).step factory ev h) es List.prefix_rfl).last

/-- **A run** whose ids are distinct keeps the dispatcher routed, and gives each layer the calls that
concern its endpoint. -/
theorem run_routed (hinit : (app.init factory).Returns fun r => r.2 = true) (es : List Event)
    {s : DatagramDispatcher π σ} (hs : Routed app factory s)
    (hdistinct : DistinctIds (run (step par app factory) s es)) :
    Routed app factory (run (step par app factory) s es) ∧
      ∀ e, deliveredTo e (run (step par app factory) s es) =
        deliveredTo e s ++ concerning par app factory e s es := by
  induction es generalizing s with
  | nil => exact ⟨hs, fun e => (List.append_nil _).symm⟩
  | cons ev es ih =>
    have hnow : DistinctIds (step par app factory s ev) :=
      hdistinct.sublist ((run_obtained par _ es).sublist.map Prod.snd)
    obtain ⟨hstep, hone⟩ := step_served par hs hinit ev hnow
    obtain ⟨hrun, hrest⟩ := ih hstep hdistinct
    refine ⟨hrun, fun e => ?_⟩
    rw [run_cons, hrest e, hone e, List.append_assoc]
    rfl

/-- What is addressed to the endpoint of its layer is for that endpoint. -/
theorem payloadsFor_enqueued (e : Endpoint) (l : List (Endpoint × List UInt8 × Endpoint))
    (h : ∀ x ∈ l, x.2.2 = x.1) : payloadsFor e (l.map Prod.snd) = (entriesOf e l).map Prod.fst := by
  induction l with
  | nil => rfl
  | cons x l ih =>
    obtain ⟨hx, hl⟩ := List.forall_mem_cons.mp h
    unfold payloadsFor entriesOf at ih ⊢
    rw [List.map_cons, List.filter_cons, List.filterMap_cons, hx]
    by_cases he : x.1 = e
    · simp only [he, decide_true, if_true, List.map_cons, ih hl]
    · simp only [he, decide_false, if_false]
      exact ih hl

section Recorded

variable (app : NextLayer σ) (factory : σ) (parent : π)

/-- A run of a dispatcher whose parent records. -/
abbrev recordedRun (es : List Event) : DatagramDispatcher (π × Heard) σ :=
  run (step (recording par) app factory) { parent := (parent, {}) } es

/-- Its calls that concern an endpoint. -/
abbrev recordedCalls (e : Endpoint) (es : List Event) : List Delivery :=
  concerning (recording par) app factory e { parent := (parent, {}) } es

theorem run_recorded (es : List Event) : Recorded (recordedRun par app factory parent es) :=
  (always_of_step (fun _ ev h => (recorded_keeps par).step factory ev h) es ⟨rfl, rfl⟩).last

/-- **A layer is where it is alone**, with the calls that concern its endpoint and the ids that it was
answered, and the parent heard for its endpoint what it says then. -/
theorem run_solo (hinit : (app.init factory).Returns fun r => r.2 = true) (es : List Event)
    (hdistinct : (recordedRun par app factory parent es).parent.2.returned.Nodup) (e : Endpoint) :
    deliveredTo e (recordedRun par app factory parent es) = recordedCalls par app factory parent e es ∧
      solo app factory (recordedCalls par app factory parent e es)
          (obtainedBy e (recordedRun par app factory parent es)) =
        some ⟨layerState e (recordedRun par app factory parent es), [],
          heardFor e (recordedRun par app factory parent es)⟩ := by
  have hrecorded := run_recorded par app factory parent es
  rw [hrecorded.returned] at hdistinct
  obtain ⟨hrouted, hdelivered⟩ :=
    run_routed (recording par) hinit es (routed_fresh app factory (parent, ({} : Heard))) hdistinct
  have hheard : heardFor e (recordedRun par app factory parent es) =
      saidBy e (recordedRun par app factory parent es) := by
    unfold heardFor
    rw [hrecorded.enqueued]
    exact payloadsFor_enqueued e _ hrouted.addressed
  have hcalls : deliveredTo e (recordedRun par app factory parent es) =
      recordedCalls par app factory parent e es := hdelivered e
  refine ⟨hcalls, ?_⟩
  rw [hheard, ← hcalls]
  exact hrouted.solo e

end Recorded

/-- **Endpoint isolation.** In every run of `consume` and `handle_timeout` calls in which the ids
that the parent returned are distinct: the layer of an endpoint is where it is if it is run alone with
the calls that concern the endpoint, in order, and with the ids that it was answered; the parent was
told to send to the endpoint exactly what this layer enqueues then; and any run, of any parent, that
agrees on these calls and ids has left the layer in the same state and its parent with the same
datagrams for the endpoint. -/
theorem isolated (app : NextLayer σ) (factory : σ)
    (hinit : (app.init factory).Returns fun r => r.2 = true) (parent : π) (es : List Event)
    (hdistinct : (recordedRun par app factory parent es).parent.2.returned.Nodup) :
    (∀ e, deliveredTo e (recordedRun par app factory parent es) =
          recordedCalls par app factory parent e es ∧
        solo app factory (recordedCalls par app factory parent e es)
            (obtainedBy e (recordedRun par app factory parent es)) =
          some ⟨layerState e (recordedRun par app factory parent es), [],
            heardFor e (recordedRun par app factory parent es)⟩) ∧
      ∀ (ρ : Type) (par' : Parent ρ) (parent' : ρ) (es' : List Event) (e : Endpoint),
        (recordedRun par' app factory parent' es').parent.2.returned.Nodup →
        recordedCalls par app factory parent e es = recordedCalls par' app factory parent' e es' →
        obtainedBy e (recordedRun par app factory parent es) =
          obtainedBy e (recordedRun par' app factory parent' es') →
        layerState e (recordedRun par app factory parent es) =
            layerState e (recordedRun par' app factory parent' es') ∧
          heardFor e (recordedRun par app factory parent es) =
            heardFor e (recordedRun par' app factory parent' es') := by
  refine ⟨run_solo par app factory parent hinit es hdistinct, ?_⟩
  intro ρ par' parent' es' e hdistinct' hcalls hids
  -- both layers are where the layer alone is
  have halone := (run_solo par app factory parent hinit es hdistinct e).2
  have halone' := (run_solo par' app factory parent' hinit es' hdistinct' e).2
  rw [hcalls, hids, halone'] at halone
  injection halone with hsame
  injection hsame with hlayer _ hheard
  exact ⟨hlayer.symm, hheard.symm⟩

/-- A layer that sets a timeout when it consumes, remembers its id, and answers a timeout with a
datagram. -/
def alarmLayer : NextLayer (List UInt64) where
  init s := .done (s, true)
  hasMoreData _ := false
  produce s := .done (s, .ok)
  consume s _ := .ask (.setTimeoutIn 5) fun id => .done (s ++ [id], .ok)
  handleTimeout s id := .tell (.enqueue [0]) (.done (s ++ [id], .ok))

/-- A parent that numbers its timeouts. -/
def numberingParent : Parent UInt64 where
  enqueue _ _ p := p
  enqueueBuffer _ _ _ p := p
  configureNextRead _ p := p
  setTimeoutIn _ p := (p, p + 1)
  setTimeoutAt _ p := (p, p + 1)

/-- Two peers, whose layers each get their own timeout; and a run with the first peer alone. -/
theorem isolated_pair :
    (deliveredTo ⟨1, 1⟩ (recordedRun numberingParent alarmLayer [] 0
        [.consume [7] ⟨1, 1⟩, .consume [8] ⟨2, 2⟩, .handleTimeout 1, .handleTimeout 0]) =
      recordedCalls numberingParent alarmLayer [] 0 ⟨1, 1⟩
        [.consume [7] ⟨1, 1⟩, .consume [8] ⟨2, 2⟩, .handleTimeout 1, .handleTimeout 0] ∧
    solo alarmLayer [] [.consume [7], .handleTimeout 0] [0] = some ⟨some [0, 0], [], [[0]]⟩) ∧
    layerState ⟨1, 1⟩ (recordedRun numberingParent alarmLayer [] 0
        [.consume [7] ⟨1, 1⟩, .consume [8] ⟨2, 2⟩, .handleTimeout 1, .handleTimeout 0]) =
      layerState ⟨1, 1⟩ (recordedRun numberingParent alarmLayer [] 0
        [.consume [7] ⟨1, 1⟩, .handleTimeout 0]) ∧
    heardFor ⟨1, 1⟩ (recordedRun numberingParent alarmLayer [] 0
        [.consume [7] ⟨1, 1⟩, .consume [8] ⟨2, 2⟩, .handleTimeout 1, .handleTimeout 0]) =
      heardFor ⟨1, 1⟩ (recordedRun numberingParent alarmLayer [] 0
        [.consume [7] ⟨1, 1⟩, .handleTimeout 0]) :=
  have h := isolated numberingParent alarmLayer [] rfl 0
    [.consume [7] ⟨1, 1⟩, .consume [8] ⟨2, 2⟩, .handleTimeout 1, .handleTimeout 0] (by decide +kernel)
  ⟨h.1 ⟨1, 1⟩, h.2 UInt64 numberingParent 0 [.consume [7] ⟨1, 1⟩, .handleTimeout 0] ⟨1, 1⟩
    (by decide +kernel) (by decide +kernel) (by decide +kernel)⟩

/-- The ids are shared: a layer that remembers its id remembers how many timeouts others have set. -/
theorem shared_ids :
    DistinctIds (run (step numberingParent alarmLayer []) { parent := 0 } [.consume [7] ⟨1, 1⟩]) ∧
    DistinctIds (run (step numberingParent alarmLayer []) { parent := 0 }
      [.consume [8] ⟨2, 2⟩, .consume [7] ⟨1, 1⟩]) ∧
    concerning numberingParent alarmLayer [] ⟨1, 1⟩ { parent := 0 } [.consume [7] ⟨1, 1⟩] =
      concerning numberingParent alarmLayer [] ⟨1, 1⟩ { parent := 0 }
        [.consume [8] ⟨2, 2⟩, .consume [7] ⟨1, 1⟩] ∧
    layerState ⟨1, 1⟩ (run (step numberingParent alarmLayer []) { parent := 0 }
        [.consume [7] ⟨1, 1⟩]) ≠
      layerState ⟨1, 1⟩ (run (step numberingParent alarmLayer []) { parent := 0 }
        [.consume [8] ⟨2, 2⟩, .consume [7] ⟨1, 1⟩]) := by
  decide +kernel

end NetworkDriver.Net.Dispatcher.Isolation
