import NetworkDriver.Net.Multiplexer.Timeouts.Model
import Mathlib

/-! # Delivery of timeouts

What a component with timeouts relies on: each id that `set_timeout` returned reaches the manager that
registered it once, not before its deadline, in the first call of `handle_timeouts` that finds the
deadline passed, and in order of deadline within a call. `Contract` says so of a log.

The timeouts are kept in a set that compares deadlines only, so an insertion that meets an equal
deadline is lost. `TieFree` is the condition that no insertion does; there are two of them, the one in
`set_timeout` and the one that moves the unexpired entries back.

* `delivery_contract`: the contract holds in every state of every run that is free of ties.
* `delivery_equal_deadlines`: with two timeouts for one deadline, one is lost.

The invariant is `Pending`: what was registered is what was delivered and what the sets hold. -/

namespace NetworkDriver.Net.Multiplexer.Timeouts.Delivery

open NetworkDriver.Library.Keyed NetworkDriver.Library.Run
open NetworkDriver.Net.Multiplexer.Base NetworkDriver.Net.Multiplexer.Timeouts.Model

/-! ### The contract -/

/-- The contract of the timeouts, on what they did so far. -/
structure Contract (l : Log) : Prop where
  /-- Each registered timeout is delivered at most once, to its manager, and nothing else is. -/
  once : l.done.Subperm l.registered
  /-- Nothing is delivered before its deadline. -/
  notEarly : ∀ d ∈ l.delivered, d.timeout.deadline ≤ d.time
  /-- What is due when `handle_timeouts` starts is delivered by this call. -/
  inTime : ∀ r ∈ l.rounds, (r.before.filter fun t => t.deadline ≤ r.start).Subperm r.delivered
  /-- A call delivers in order of deadline. -/
  inOrder : ∀ r ∈ l.rounds, r.delivered.Pairwise fun t t' => t.deadline ≤ t'.deadline

/-- The calls of the contract's runs: timeouts are set for registered managers. -/
def SetsTimeout (managers : KeyedMap Manager.handle) : Call → Prop
  | .setTimeout mgr _ => managers.find? mgr.handle = some mgr
  | _ => False

instance (managers : KeyedMap Manager.handle) : DecidablePred (SetsTimeout managers)
  | .setTimeout mgr _ => inferInstanceAs (Decidable (managers.find? mgr.handle = some mgr))
  | .add _ => instDecidableFalse
  | .del _ => instDecidableFalse

/-- The events of the contract's runs. -/
def Domain (s : Session) : Event → Prop
  | .call c => SetsTimeout s.mpx.managers c
  | .handleTimeouts script => ∀ k, ∀ c ∈ script k, SetsTimeout s.mpx.managers c

/-- The deadline of a call. -/
def deadline : Call → Option ℤ
  | .setTimeout _ when => some when
  | _ => none

/-- The deadlines in a set. -/
abbrev whens (l : List TimeoutEntry) : List ℤ := l.map TimeoutEntry.when

/-- No insertion of the event meets an equal deadline. A call of `handle_timeouts` starts with an empty
set, so what its handlers register must differ from each other and from what is moved back. -/
def TieFree (clock : ℕ → ℤ) (s : Session) : Event → Prop
  | .call c => ∀ d ∈ deadline c, d ∉ whens s.mpx.timeouts.elems
  | .handleTimeouts script =>
    let n := expiredCount (s.readings clock) 0 s.mpx.timeouts.elems
    (((List.range n).flatMap script).filterMap deadline ++
      whens (s.mpx.timeouts.elems.drop n)).Nodup

/-! ### The invariant -/

/-- The timeout that an entry stands for. -/
def timeoutOf (managers : KeyedMap Manager.handle) (e : TimeoutEntry) : Timeout :=
  ⟨e.id, (managers.find? e.handle).getD ⟨0, e.handle⟩, e.when⟩

/-- What was registered is what was delivered, what the set holds and what is left of the cached set,
and all these entries belong to registered managers. -/
structure Pending (s : MultiplexerBase Log) (rest : List TimeoutEntry) : Prop where
  balance : s.derived.registered.Perm
    (s.derived.done ++ (s.timeouts.elems ++ rest).map (timeoutOf s.managers))
  owned : ∀ e ∈ s.timeouts.elems ++ rest, (s.managers.find? e.handle).isSome

/-- `s'` follows `s` by registrations for the deadlines `ds`. -/
structure Registers (s s' : MultiplexerBase Log) (ds : List ℤ) : Prop where
  managers : s'.managers = s.managers
  delivered : s'.derived.delivered = s.derived.delivered
  rounds : s'.derived.rounds = s.derived.rounds
  deadlines : (whens s'.timeouts.elems).Perm (ds ++ whens s.timeouts.elems)
  pending : ∀ rest, Pending s rest → Pending s' rest

theorem Registers.refl (s : MultiplexerBase Log) : Registers s s [] :=
  ⟨rfl, rfl, rfl, List.Perm.refl _, fun _ h => h⟩

theorem Registers.trans {s s' s'' : MultiplexerBase Log} {ds ds' : List ℤ} (h : Registers s s' ds)
    (h' : Registers s' s'' ds') : Registers s s'' (ds ++ ds') where
  managers := h'.managers.trans h.managers
  delivered := h'.delivered.trans h.delivered
  rounds := h'.rounds.trans h.rounds
  deadlines := by
    have hd := h'.deadlines.trans (h.deadlines.append_left ds')
    rw [List.append_assoc]
    exact hd.trans (List.perm_append_comm_assoc _ _ _)
  pending rest hp := h'.pending rest (h.pending rest hp)

/-! ### Registrations -/

theorem timeoutOf_owner {managers : KeyedMap Manager.handle} {mgr : Manager} {e : TimeoutEntry}
    (h : managers.find? e.handle = some mgr) : timeoutOf managers e = ⟨e.id, mgr, e.when⟩ := by
  simp [timeoutOf, h]

/-- A registration for a fresh deadline adds exactly its entry. -/
theorem perform_registers {s : MultiplexerBase Log} {c : Call} (hc : SetsTimeout s.managers c)
    (hd : ∀ d ∈ deadline c, d ∉ whens s.timeouts.elems) :
    Registers s (c.perform s) (deadline c).toList := by
  cases c with
  | add mgr => exact hc.elim
  | del handle => exact hc.elim
  | setTimeout mgr when =>
    have hins := OrderedSet.insert_perm (s := s.timeouts) (a := ⟨mgr.handle, when, s.currentTimeoutId⟩)
      (hd when rfl)
    refine ⟨rfl, rfl, rfl, hins.map _, fun rest hp => ⟨?_, ?_⟩⟩
    · have hnew := timeoutOf_owner (e := ⟨mgr.handle, when, s.currentTimeoutId⟩) hc
      have hadd := (hins.append_right rest).map (timeoutOf s.managers)
      rw [List.cons_append, List.map_cons, hnew] at hadd
      have hreg := (List.perm_append_singleton _ _).trans (hp.balance.cons ⟨s.currentTimeoutId, mgr, when⟩)
      exact (hreg.trans List.perm_middle.symm).trans (hadd.symm.append_left _)
    · intro e he
      rcases List.mem_cons.mp ((hins.append_right rest).mem_iff.mp he) with rfl | he
      · exact Option.isSome_of_eq_some hc
      · exact hp.owned e he

/-- The calls of a handler that registers for fresh and distinct deadlines. -/
theorem performAll_registers {cs : List Call} {s : MultiplexerBase Log}
    (hc : ∀ c ∈ cs, SetsTimeout s.managers c)
    (hn : (cs.filterMap deadline ++ whens s.timeouts.elems).Nodup) :
    Registers s (cs.foldl Call.perform s) (cs.filterMap deadline) := by
  induction cs generalizing s with
  | nil => exact Registers.refl s
  | cons c cs ih =>
    obtain ⟨hc, hcs⟩ := List.forall_mem_cons.mp hc
    have hsplit : (c :: cs).filterMap deadline = (deadline c).toList ++ cs.filterMap deadline := by
      cases c <;> rfl
    rw [hsplit, List.append_assoc] at hn
    have hfresh : ∀ d ∈ deadline c, d ∉ whens s.timeouts.elems := by
      intro d hd hm
      have hd' : d ∈ (deadline c).toList := Option.mem_toList.mpr hd
      exact List.disjoint_of_nodup_append hn hd' (List.mem_append_right _ hm)
    have hfirst := perform_registers hc hfresh
    have hn' : (cs.filterMap deadline ++ whens (c.perform s).timeouts.elems).Nodup := by
      refine ((hfirst.deadlines.append_left _).nodup_iff).mpr ?_
      exact (List.perm_append_comm_assoc _ _ _).nodup_iff.mp hn
    have hrest := ih (s := c.perform s) (by rw [hfirst.managers]; exact hcs) hn'
    rw [hsplit]
    exact hfirst.trans hrest

/-! ### The loop -/

/-- `s'` follows `s` by the delivery of `batch`, with `rest` left in the cached set. -/
structure Expires (s s' : MultiplexerBase Log) (batch rest : List TimeoutEntry) : Prop where
  managers : s'.managers = s.managers
  rounds : s'.derived.rounds = s.derived.rounds
  pending : Pending s' rest
  fresh : (whens s'.timeouts.elems ++ whens rest).Nodup
  delivered : ∃ ds : List Delivery, s'.derived.delivered = s.derived.delivered ++ ds ∧
    ds.map Delivery.timeout = batch.map (timeoutOf s.managers) ∧
    ∀ d ∈ ds, d.timeout.deadline ≤ d.time

variable {clock : ℕ → ℤ} {script : ℕ → List Call} {now : ℕ → ℤ}

/-- An entry that is delivered leaves the cached set. -/
theorem pending_deliver {s : MultiplexerBase Log} {e : TimeoutEntry} {rest : List TimeoutEntry}
    {mgr : Manager} {time : ℤ} (hmgr : s.managers.find? e.handle = some mgr)
    (hp : Pending s (e :: rest)) :
    Pending { s with derived.delivered := s.derived.delivered ++ [⟨⟨e.id, mgr, e.when⟩, time⟩] }
      rest := by
  constructor
  · have hperm : (s.timeouts.elems ++ e :: rest).Perm (e :: (s.timeouts.elems ++ rest)) :=
      List.perm_middle
    have hmid := hperm.map (timeoutOf s.managers)
    rw [List.map_cons, timeoutOf_owner hmgr] at hmid
    have hb := hp.balance.trans (hmid.append_left s.derived.done)
    simpa [Log.done] using hb
  · intro e' he'
    refine hp.owned e' ?_
    rcases List.mem_append.mp he' with he' | he'
    · exact List.mem_append_left _ he'
    · exact List.mem_append_right _ (List.mem_cons_of_mem e he')

/-- **The loop of `handle_timeouts`** does not fail and delivers the expired entries. -/
theorem expire_expires {rest : List TimeoutEntry} {k : ℕ} {s : MultiplexerBase Log}
    (hs : ∀ k, ∀ c ∈ script k, SetsTimeout s.managers c)
    (hn : (((List.range' k (expiredCount now k rest)).flatMap script).filterMap deadline ++
      (whens s.timeouts.elems ++ whens (rest.drop (expiredCount now k rest)))).Nodup)
    (hp : Pending s rest) :
    ∃ s', MultiplexerBase.expire (answer script now) now k rest s =
        .ok (s', rest.drop (expiredCount now k rest)) ∧
      Expires s s' (rest.take (expiredCount now k rest)) (rest.drop (expiredCount now k rest)) := by
  induction rest generalizing k s with
  | nil =>
    refine ⟨s, rfl, rfl, rfl, hp, ?_, [], (List.append_nil _).symm, rfl, by simp⟩
    simpa [expiredCount] using hn
  | cons e rest ih =>
    unfold MultiplexerBase.expire
    unfold expiredCount at hn ⊢
    by_cases hx : e.hasExpired (now k)
    · rw [if_pos hx, List.drop_succ_cons, List.range'_succ, List.flatMap_cons,
        List.filterMap_append, List.append_assoc] at hn
      rw [if_pos hx, if_pos hx, List.drop_succ_cons, List.take_succ_cons]
      obtain ⟨mgr, hmgr⟩ := Option.isSome_iff_exists.mp
        (hp.owned e (List.mem_append_right _ List.mem_cons_self))
      rw [hmgr]
      -- the entry is delivered, then its handler registers
      set s₁ : MultiplexerBase Log :=
        { s with derived.delivered := s.derived.delivered ++ [⟨⟨e.id, mgr, e.when⟩, now k⟩] } with hs₁
      have hp₁ : Pending s₁ rest := pending_deliver hmgr hp
      have hn₁ := hn.sublist (List.Sublist.append_left ((List.sublist_append_left _ _).trans
        (List.sublist_append_right _ _)) _)
      have hreg := performAll_registers (s := s₁) (hs k) hn₁
      set s₂ := (script k).foldl Call.perform s₁
      have hn₂ : (((List.range' (k + 1) (expiredCount now (k + 1) rest)).flatMap script).filterMap
          deadline ++ (whens s₂.timeouts.elems ++
            whens (rest.drop (expiredCount now (k + 1) rest)))).Nodup := by
        have hperm := (hreg.deadlines.append_right
          (whens (rest.drop (expiredCount now (k + 1) rest)))).append_left
          (((List.range' (k + 1) (expiredCount now (k + 1) rest)).flatMap script).filterMap deadline)
        refine hperm.nodup_iff.mpr ?_
        rw [List.append_assoc]
        exact (List.perm_append_comm_assoc _ _ _).nodup_iff.mp hn
      obtain ⟨s', hs', he⟩ := ih (by rw [hreg.managers]; exact hs) hn₂ (hreg.pending rest hp₁)
      refine ⟨s', hs', he.managers.trans hreg.managers, he.rounds.trans hreg.rounds, he.pending,
        he.fresh, ?_⟩
      obtain ⟨ds, hds, hbatch, htime⟩ := he.delivered
      refine ⟨⟨⟨e.id, mgr, e.when⟩, now k⟩ :: ds, ?_, ?_, List.forall_mem_cons.mpr ⟨hx, htime⟩⟩
      · rw [hds, hreg.delivered, hs₁, List.append_assoc]
        rfl
      · rw [List.map_cons, List.map_cons, hbatch, hreg.managers, timeoutOf_owner hmgr]
    · rw [if_neg hx] at hn
      rw [if_neg hx, if_neg hx]
      refine ⟨s, rfl, rfl, rfl, hp, ?_, [], (List.append_nil _).symm, rfl, by simp⟩
      simpa using hn

/-! ### Steps and runs -/

/-- The invariant of the runs: the log meets the contract, and the log and the set agree. -/
structure Inv (s : Session) : Prop where
  sound : s.failed = false
  cached : s.mpx.cachedTimeouts = .empty
  pending : Pending s.mpx []
  contract : Contract s.mpx.derived

theorem start_inv (managers : KeyedMap Manager.handle) : Inv (Session.start managers) where
  sound := rfl
  cached := rfl
  pending := ⟨List.Perm.refl _, by simp [Session.start, MultiplexerBase.init]⟩
  contract := ⟨List.Subperm.refl _, by simp [Session.start, MultiplexerBase.init],
    by simp [Session.start, MultiplexerBase.init], by simp [Session.start, MultiplexerBase.init]⟩

/-- What the set holds is what was registered and not delivered. -/
theorem Pending.before {s : MultiplexerBase Log} (h : Pending s []) :
    (s.derived.registered.diff s.derived.done).Perm
      (s.timeouts.elems.map (timeoutOf s.managers)) := by
  have cancel : ∀ l l' : List Timeout, (l ++ l').diff l = l' := by
    intro l l'
    induction l with
    | nil => rfl
    | cons t l ih => simpa using ih
  have hd := h.balance.diff_right s.derived.done
  rwa [cancel, List.append_nil] at hd

/-- The delivered timeouts are some of the registered ones. -/
theorem Pending.once {s : MultiplexerBase Log} {rest : List TimeoutEntry} (h : Pending s rest) :
    s.derived.done.Subperm s.derived.registered :=
  (List.sublist_append_left _ _).subperm.trans h.balance.symm.subperm

/-- A registration outside of `handle_timeouts`. -/
theorem step_call {s : Session} {c : Call} (hs : Inv s) (hD : Domain s (.call c))
    (hC : TieFree clock s (.call c)) : Inv (s.step clock (.call c)) := by
  have hreg := perform_registers hD hC
  rw [Session.step_call hs.sound]
  refine ⟨hs.sound, ?_, hreg.pending [] hs.pending, (hreg.pending [] hs.pending).once, ?_, ?_, ?_⟩
  · cases c with
    | setTimeout mgr when => exact hs.cached
    | add mgr => exact hs.cached
    | del handle => exact hs.cached
  · rw [hreg.delivered]
    exact hs.contract.notEarly
  · rw [hreg.rounds]
    exact hs.contract.inTime
  · rw [hreg.rounds]
    exact hs.contract.inOrder

/-- What is left of the cached set is moved back without a loss. -/
theorem merged_pending {s : MultiplexerBase Log} {rest : List TimeoutEntry} (hp : Pending s rest)
    (hn : (whens s.timeouts.elems ++ whens rest).Nodup) : Pending (merged s rest) [] := by
  have hins := OrderedSet.insertAll_perm hn
  constructor
  · have hmap := (hins.map (timeoutOf s.managers)).append_left s.derived.done
    rw [List.append_nil]
    exact hp.balance.trans hmap.symm
  · intro e he
    rw [List.append_nil] at he
    exact hp.owned e (hins.mem_iff.mp he)

/-- A call of `handle_timeouts` without ties delivers the expired entries and keeps the others. -/
theorem handleTimeouts_delivers {s : Session} (hs : Inv s) (hD : Domain s (.handleTimeouts script))
    (hC : TieFree clock s (.handleTimeouts script)) :
    ∃ mpx ds, s.mpx.handleTimeouts (answer script (s.readings clock)) (s.readings clock) = .ok mpx ∧
      mpx.cachedTimeouts = .empty ∧ Pending mpx [] ∧
      mpx.derived.rounds = s.mpx.derived.rounds ∧
      mpx.derived.delivered = s.mpx.derived.delivered ++ ds ∧
      ds.map Delivery.timeout = (s.mpx.timeouts.elems.take
        (expiredCount (s.readings clock) 0 s.mpx.timeouts.elems)).map (timeoutOf s.mpx.managers) ∧
      ∀ d ∈ ds, d.timeout.deadline ≤ d.time := by
  set n := expiredCount (s.readings clock) 0 s.mpx.timeouts.elems
  have hempty : (swapped s.mpx).timeouts.elems = [] := by simp [swapped, hs.cached]
  have hp : Pending (swapped s.mpx) s.mpx.timeouts.elems := by
    refine ⟨?_, ?_⟩ <;> rw [hempty, List.nil_append]
    · simpa [swapped] using hs.pending.balance
    · simpa [swapped] using hs.pending.owned
  have hn : (((List.range' 0 n).flatMap script).filterMap deadline ++
      (whens (swapped s.mpx).timeouts.elems ++ whens (s.mpx.timeouts.elems.drop n))).Nodup := by
    rw [← List.range_eq_range', hempty]
    exact hC
  obtain ⟨s', hs', he⟩ := expire_expires (s := swapped s.mpx) hD hn hp
  obtain ⟨ds, hds, hbatch, htime⟩ := he.delivered
  refine ⟨merged s' (s.mpx.timeouts.elems.drop n), ds, ?_, rfl, merged_pending he.pending he.fresh,
    he.rounds, hds, hbatch, htime⟩
  rw [handleTimeouts_eq, hs']
  rfl

/-- What was due when the call started is delivered by it. -/
theorem due_subperm_delivered {s : Session} (hclock : Monotone clock) (hs : Inv s) :
    ((s.mpx.derived.registered.diff s.mpx.derived.done).filter
        fun t => t.deadline ≤ s.readings clock 0).Subperm
      ((s.mpx.timeouts.elems.take (expiredCount (s.readings clock) 0 s.mpx.timeouts.elems)).map
        (timeoutOf s.mpx.managers)) := by
  have hle : ∀ i, s.readings clock 0 ≤ s.readings clock i := fun i =>
    hclock (Nat.add_le_add_left (Nat.zero_le i) s.ticks)
  have hsub := (due_sublist_expired (k := 0) hle s.mpx.timeouts.sorted).map
    (timeoutOf s.mpx.managers)
  have hfilter := hs.pending.before.filter fun t => t.deadline ≤ s.readings clock 0
  rw [List.filter_map] at hfilter
  exact hfilter.subperm.trans hsub.subperm

/-- A call of `handle_timeouts`. -/
theorem step_handleTimeouts {s : Session} (hclock : Monotone clock) (hs : Inv s)
    (hD : Domain s (.handleTimeouts script)) (hC : TieFree clock s (.handleTimeouts script)) :
    Inv (s.step clock (.handleTimeouts script)) := by
  obtain ⟨mpx, ds, hok, hcached, hp, hrounds, hds, hbatch, htime⟩ := handleTimeouts_delivers hs hD hC
  have hround : (s.round clock mpx).delivered = ds.map Delivery.timeout := by
    simp [Session.round, Log.done, hds]
  rw [Session.step_handleTimeouts hs.sound hok]
  refine ⟨hs.sound, hcached, ⟨hp.balance, hp.owned⟩, hp.once, ?_, ?_, ?_⟩
  · intro d hd
    have hd' : d ∈ s.mpx.derived.delivered ++ ds := hds ▸ hd
    rcases List.mem_append.mp hd' with hd' | hd'
    · exact hs.contract.notEarly d hd'
    · exact htime d hd'
  · intro r hr
    rcases List.mem_append.mp hr with hr | hr
    · exact hs.contract.inTime r (hrounds ▸ hr)
    · rw [List.mem_singleton.mp hr, hround, hbatch]
      exact due_subperm_delivered hclock hs
  · intro r hr
    rcases List.mem_append.mp hr with hr | hr
    · exact hs.contract.inOrder r (hrounds ▸ hr)
    · rw [List.mem_singleton.mp hr, hround, hbatch, List.pairwise_map]
      exact (s.mpx.timeouts.sorted.sublist (List.take_sublist _ _)).imp fun h => h.le

/-- **The timeouts meet their contract** in every state of every run that is free of ties: timeouts are
set for registered managers, also from inside of `handle_timeout`, under a monotone clock. -/
theorem delivery_contract (hclock : Monotone clock) (managers : KeyedMap Manager.handle)
    (es : List Event) (hD : Along (Session.step clock) Domain (Session.start managers) es)
    (hC : Along (Session.step clock) (TieFree clock) (Session.start managers) es) :
    Always (Session.step clock) (fun s => s.failed = false ∧ Contract s.mpx.derived)
      (Session.start managers) es := by
  refine (always_of_along ?_ (start_inv managers) (hD.and hC)).imp fun s hs =>
    ⟨hs.sound, hs.contract⟩
  rintro s e hs ⟨hDe, hCe⟩
  cases e with
  | call c => exact step_call hs hDe hCe
  | handleTimeouts script => exact step_handleTimeouts hclock hs hDe hCe

/-- A multiplexer with one manager. -/
def oneManager : KeyedMap Manager.handle := KeyedMap.empty.emplace ⟨0, 4⟩

/-- A timeout for 5, from whose handler one for 9 is set; the clock reads 7, then 9. -/
theorem delivery_contract_rearmed :
    Always (Session.step fun i => if i = 0 then 7 else 9)
      (fun s => s.failed = false ∧ Contract s.mpx.derived) (Session.start oneManager)
      [.call (.setTimeout ⟨0, 4⟩ 5), .handleTimeouts fun _ => [.setTimeout ⟨0, 4⟩ 9],
        .handleTimeouts fun _ => []] := by
  refine delivery_contract ?_ oneManager _ ⟨rfl, ?_, ?_, trivial⟩ ⟨?_, ?_, ?_, trivial⟩
  · intro i j h
    dsimp only
    split_ifs <;> omega
  · intro k c hc
    rw [List.mem_singleton.mp hc]
    decide +kernel
  · intro k c hc
    exact absurd hc List.not_mem_nil
  · intro d hd
    exact List.not_mem_nil
  · change List.Nodup _
    decide +kernel
  · change List.Nodup _
    decide +kernel

/-- **Equal deadlines**: of two timeouts for one deadline the second never reaches the set, and the
call that finds the deadline passed delivers the first one only. -/
theorem delivery_equal_deadlines :
    Along (Session.step fun _ => 10) Domain (Session.start oneManager)
        [.call (.setTimeout ⟨0, 4⟩ 5), .call (.setTimeout ⟨0, 4⟩ 5), .handleTimeouts fun _ => []] ∧
      ¬ Always (Session.step fun _ => 10) (fun s => s.failed = false ∧ Contract s.mpx.derived)
        (Session.start oneManager)
        [.call (.setTimeout ⟨0, 4⟩ 5), .call (.setTimeout ⟨0, 4⟩ 5), .handleTimeouts fun _ => []] := by
  refine ⟨⟨rfl, rfl, ?_, trivial⟩, fun h => ?_⟩
  · intro k c hc
    exact absurd hc List.not_mem_nil
  · have hround := h.last.2.inTime
      ⟨10, [⟨0, ⟨0, 4⟩, 5⟩, ⟨1, ⟨0, 4⟩, 5⟩], [⟨0, ⟨0, 4⟩, 5⟩]⟩ (by decide +kernel)
    exact absurd hround.length_le (by decide)

end NetworkDriver.Net.Multiplexer.Timeouts.Delivery
