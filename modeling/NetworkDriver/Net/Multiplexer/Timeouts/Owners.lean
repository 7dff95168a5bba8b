import NetworkDriver.Net.Multiplexer.Timeouts.Model

/-! # Owners of timeouts

The entries of the timeouts name a socket, and removing a manager leaves its entries where they are.
`Owned` is the invariant that would be needed: each pending entry belongs to the manager that is
registered under its socket now, and this manager registered it. Everything keeps it but the removal
of a manager with pending entries.

* `owners_kept`: in every run in which no manager with pending timeouts is removed, `handle_timeouts`
  finds every manager and passes every id to the manager that registered it.
* `owners_lost`: a manager that is removed with a timeout pending makes `handle_timeouts` fail, or
  its successor on the same socket gets the timeout. -/

namespace NetworkDriver.Net.Multiplexer.Timeouts.Owners

open NetworkDriver.Library.Keyed NetworkDriver.Library.Run
open NetworkDriver.Net.Multiplexer.Base NetworkDriver.Net.Multiplexer.Timeouts.Model

/-! ### The property and the condition -/

/-- Each delivered timeout was registered by the manager that got it, and, as long as the ids do not
wrap, no other manager registered one with its id. -/
def RightOwner (l : Log) : Prop :=
  ∀ d ∈ l.delivered, d.timeout ∈ l.registered ∧
    (l.registered.length ≤ 2 ^ 64 →
      ∀ t ∈ l.registered, t.id = d.timeout.id → t.manager = d.timeout.manager)

/-- A timeout is set for a registered manager only, and a manager is removed only when no entry of its
socket is in the set or in the rest of the cached set. -/
def CallOk (rest : List TimeoutEntry) (s : MultiplexerBase Log) : Call → Prop
  | .setTimeout mgr _ => s.managers.find? mgr.handle = some mgr
  | .add _ => True
  | .del handle => ∀ e ∈ s.timeouts.elems ++ rest, e.handle ≠ handle

/-- The state in which the handler of a delivered timeout runs. -/
def delivering (s : MultiplexerBase Log) (mgr : Manager) (e : TimeoutEntry) (time : ℤ) :
    MultiplexerBase Log :=
  { s with derived.delivered := s.derived.delivered ++ [⟨⟨e.id, mgr, e.when⟩, time⟩] }

/-- Each call of each handler in the loop of `handle_timeouts` meets the condition. -/
def LoopOk (script : ℕ → List Call) (now : ℕ → ℤ) :
    ℕ → List TimeoutEntry → MultiplexerBase Log → Prop
  | _, [], _ => True
  | k, e :: rest, s =>
    e.hasExpired (now k) → ∀ mgr, s.managers.find? e.handle = some mgr →
      Along Call.perform (CallOk rest) (delivering s mgr e (now k)) (script k) ∧
        LoopOk script now (k + 1) rest (run Call.perform (delivering s mgr e (now k)) (script k))

/-- The condition on an event. -/
def KeepsOwners (clock : ℕ → ℤ) (s : Session) : Event → Prop
  | .call c => CallOk [] s.mpx c
  | .handleTimeouts script =>
    LoopOk script (s.readings clock) 0 s.mpx.timeouts.elems (swapped s.mpx)

/-! ### The invariant -/

/-- Each pending entry belongs to the manager registered under its socket, each delivered timeout was
registered, and the ids of the registered ones are counted up. -/
structure Owned (rest : List TimeoutEntry) (s : MultiplexerBase Log) : Prop where
  entries : ∀ e ∈ s.timeouts.elems ++ rest, ∃ mgr, s.managers.find? e.handle = some mgr ∧
    (⟨e.id, mgr, e.when⟩ : Timeout) ∈ s.derived.registered
  delivered : ∀ t ∈ s.derived.done, t ∈ s.derived.registered
  ids : s.derived.registered.map Timeout.id =
    (List.range s.derived.registered.length).map UInt64.ofNat
  next : s.currentTimeoutId = UInt64.ofNat s.derived.registered.length

/-- Ids that are counted up are distinct until they wrap. -/
theorem eq_of_id_eq {l : List Timeout} (hids : l.map Timeout.id = (List.range l.length).map UInt64.ofNat)
    (hl : l.length ≤ 2 ^ 64) {t t' : Timeout} (ht : t ∈ l) (ht' : t' ∈ l) (h : t.id = t'.id) :
    t = t' := by
  have hn : (l.map Timeout.id).Nodup := by
    rw [hids]
    refine List.nodup_range.map_on fun i hi j hj hij => ?_
    have hi' : i < 2 ^ 64 := (List.mem_range.mp hi).trans_le hl
    have hj' : j < 2 ^ 64 := (List.mem_range.mp hj).trans_le hl
    have hmod := congrArg UInt64.toNat hij
    rwa [UInt64.toNat_ofNat_of_lt' hi', UInt64.toNat_ofNat_of_lt' hj'] at hmod
  exact List.inj_on_of_nodup_map hn ht ht' h

theorem Owned.rightOwner {s : MultiplexerBase Log} {rest : List TimeoutEntry} (h : Owned rest s) :
    RightOwner s.derived := by
  intro d hd
  have hmem := h.delivered d.timeout (List.mem_map_of_mem hd)
  refine ⟨hmem, fun hl t ht hid => ?_⟩
  rw [eq_of_id_eq h.ids hl ht hmem hid]

/-- What a registration adds to the log keeps the ids counted up. -/
theorem setTimeout_owned {rest : List TimeoutEntry} {s : MultiplexerBase Log} {mgr : Manager}
    {when : ℤ} (h : Owned rest s) (hc : s.managers.find? mgr.handle = some mgr) :
    Owned rest ((Call.setTimeout mgr when).perform s) := by
  refine ⟨?_, ?_, ?_, ?_⟩
  · intro e he
    have hcases : e = ⟨mgr.handle, when, s.currentTimeoutId⟩ ∨ e ∈ s.timeouts.elems ++ rest := by
      rcases List.mem_append.mp he with he | he
      · exact (OrderedSet.mem_of_mem_insert he).imp_right (List.mem_append_left _)
      · exact Or.inr (List.mem_append_right _ he)
    rcases hcases with rfl | he
    · exact ⟨mgr, hc, List.mem_append_right _ List.mem_cons_self⟩
    · obtain ⟨mgr', hmgr', hreg⟩ := h.entries e he
      exact ⟨mgr', hmgr', List.mem_append_left _ hreg⟩
  · intro t ht
    exact List.mem_append_left _ (h.delivered t ht)
  · have hlen : (s.derived.registered ++ [(⟨s.currentTimeoutId, mgr, when⟩ : Timeout)]).length =
        s.derived.registered.length + 1 := List.length_append
    change (s.derived.registered ++ [(⟨s.currentTimeoutId, mgr, when⟩ : Timeout)]).map Timeout.id =
      (List.range (s.derived.registered ++ [(⟨s.currentTimeoutId, mgr, when⟩ : Timeout)]).length).map
        UInt64.ofNat
    rw [hlen, List.range_succ, List.map_append, List.map_append, h.ids, h.next]
    rfl
  · change s.currentTimeoutId + 1 =
      UInt64.ofNat (s.derived.registered ++ [(⟨s.currentTimeoutId, mgr, when⟩ : Timeout)]).length
    rw [h.next, List.length_append, UInt64.ofNat_add]
    rfl

/-- A call that meets the condition keeps the invariant. -/
theorem perform_owned {rest : List TimeoutEntry} {s : MultiplexerBase Log} {c : Call}
    (h : Owned rest s) (hc : CallOk rest s c) : Owned rest (c.perform s) := by
  cases c with
  | setTimeout mgr when => exact setTimeout_owned h hc
  | add mgr =>
    refine ⟨?_, h.delivered, h.ids, h.next⟩
    intro e he
    obtain ⟨mgr', hmgr', hreg⟩ := h.entries e he
    exact ⟨mgr', KeyedMap.find?_emplace hmgr', hreg⟩
  | del handle =>
    refine ⟨?_, h.delivered, h.ids, h.next⟩
    intro e he
    obtain ⟨mgr', hmgr', hreg⟩ := h.entries e he
    exact ⟨mgr', KeyedMap.find?_erase hmgr' (hc e he), hreg⟩

/-- An entry that is delivered leaves the cached set, and it was registered. -/
theorem delivering_owned {rest : List TimeoutEntry} {s : MultiplexerBase Log} {e : TimeoutEntry}
    {mgr : Manager} {time : ℤ} (h : Owned (e :: rest) s)
    (hmgr : s.managers.find? e.handle = some mgr) : Owned rest (delivering s mgr e time) := by
  refine ⟨?_, ?_, h.ids, h.next⟩
  · intro e' he'
    refine h.entries e' ?_
    rcases List.mem_append.mp he' with he' | he'
    · exact List.mem_append_left _ he'
    · exact List.mem_append_right _ (List.mem_cons_of_mem e he')
  · intro t ht
    have ht' : t ∈ s.derived.done ++ [⟨e.id, mgr, e.when⟩] := by
      simpa [delivering, Log.done] using ht
    rcases List.mem_append.mp ht' with ht' | ht'
    · exact h.delivered t ht'
    · obtain ⟨mgr', hmgr', hreg⟩ := h.entries e (List.mem_append_right _ List.mem_cons_self)
      rw [List.mem_singleton.mp ht', Option.some.inj (hmgr.symm.trans hmgr')]
      exact hreg

/-! ### Runs -/

variable {clock : ℕ → ℤ} {script : ℕ → List Call} {now : ℕ → ℤ}

/-- **The loop of `handle_timeouts`** finds every manager and keeps the invariant. -/
theorem expire_owned {l : List TimeoutEntry} {k : ℕ} {s : MultiplexerBase Log} (h : Owned l s)
    (hc : LoopOk script now k l s) :
    ∃ s' rest, MultiplexerBase.expire (answer script now) now k l s = .ok (s', rest) ∧
      Owned rest s' := by
  induction l generalizing k s with
  | nil => exact ⟨s, [], rfl, h⟩
  | cons e l ih =>
    unfold MultiplexerBase.expire
    by_cases hx : e.hasExpired (now k)
    · obtain ⟨mgr, hmgr, -⟩ := h.entries e (List.mem_append_right _ List.mem_cons_self)
      obtain ⟨hcalls, hloop⟩ := hc hx mgr hmgr
      have hrun := (always_of_along (fun s c => perform_owned) (delivering_owned h hmgr) hcalls).last
      rw [if_pos hx, hmgr]
      exact ih hrun hloop
    · rw [if_neg hx]
      exact ⟨s, e :: l, rfl, h⟩

/-- What is left of the cached set goes back to the set. -/
theorem merged_owned {s : MultiplexerBase Log} {rest : List TimeoutEntry} (h : Owned rest s) :
    Owned [] (merged s rest) := by
  refine ⟨?_, h.delivered, h.ids, h.next⟩
  intro e he
  rw [List.append_nil] at he
  exact h.entries e (List.mem_append.mpr (OrderedSet.mem_of_mem_insertAll he))

/-- The invariant of the runs. -/
structure Inv (s : Session) : Prop where
  sound : s.failed = false
  cached : s.mpx.cachedTimeouts = .empty
  owned : Owned [] s.mpx

theorem perform_cached (s : MultiplexerBase Log) (c : Call) :
    (c.perform s).cachedTimeouts = s.cachedTimeouts := by
  cases c <;> rfl

/-- One event that meets the condition. -/
theorem step_inv {s : Session} {e : Event} (hs : Inv s) (hc : KeepsOwners clock s e) :
    Inv (s.step clock e) := by
  cases e with
  | call c =>
    rw [Session.step_call hs.sound]
    exact ⟨hs.sound, (perform_cached s.mpx c).trans hs.cached, perform_owned hs.owned hc⟩
  | handleTimeouts script =>
    have hswap : Owned s.mpx.timeouts.elems (swapped s.mpx) := by
      refine ⟨?_, hs.owned.delivered, hs.owned.ids, hs.owned.next⟩
      have he := hs.owned.entries
      rw [List.append_nil] at he
      simpa [swapped, hs.cached] using he
    obtain ⟨s', rest, hok, ho⟩ := expire_owned hswap hc
    have hm := merged_owned ho
    have hall : s.mpx.handleTimeouts (answer script (s.readings clock)) (s.readings clock) =
        .ok (merged s' rest) := by
      rw [handleTimeouts_eq, hok]
      rfl
    rw [Session.step_handleTimeouts hs.sound hall]
    exact ⟨hs.sound, rfl, hm.entries, hm.delivered, hm.ids, hm.next⟩

/-- **The owners of timeouts are kept** in every run in which timeouts are set for registered managers
and no manager is removed while an entry of its socket is pending: `handle_timeouts` never fails on a
missing manager and never passes an id to another manager than the one that registered it. -/
theorem owners_kept (managers : KeyedMap Manager.handle) (es : List Event)
    (hC : Along (Session.step clock) (KeepsOwners clock) (Session.start managers) es) :
    Always (Session.step clock) (fun s => s.failed = false ∧ RightOwner s.mpx.derived)
      (Session.start managers) es := by
  have hstart : Inv (Session.start managers) :=
    ⟨rfl, rfl, by simp [Session.start, MultiplexerBase.init],
      by simp [Session.start, MultiplexerBase.init, Log.done], rfl, rfl⟩
  refine (always_of_along ?_ hstart hC).imp fun s hs => ⟨hs.sound, hs.owned.rightOwner⟩
  exact fun s e hs hc => step_inv hs hc

/-- A manager with a timeout for 5 that is removed after its timeout fired, and a successor on its
socket. -/
theorem owners_kept_successor :
    Always (Session.step fun _ => 7) (fun s => s.failed = false ∧ RightOwner s.mpx.derived)
      (Session.start .empty)
      [.call (.add ⟨0, 4⟩), .call (.setTimeout ⟨0, 4⟩ 5), .handleTimeouts fun _ => [.del 4],
        .call (.add ⟨1, 4⟩)] := by
  refine owners_kept .empty _ ⟨trivial, rfl, ?_, trivial, trivial⟩
  intro hx mgr hmgr
  refine ⟨⟨?_, trivial⟩, trivial⟩
  intro e he
  exact absurd he List.not_mem_nil

/-- **Owners are lost**: the manager of a pending timeout is removed. `handle_timeouts` then fails; or,
if the socket has a new manager by then, passes the id to this one. -/
theorem owners_lost :
    ¬ Always (Session.step fun _ => 7) (fun s => s.failed = false ∧ RightOwner s.mpx.derived)
        (Session.start .empty)
        [.call (.add ⟨0, 4⟩), .call (.setTimeout ⟨0, 4⟩ 5), .call (.del 4),
          .handleTimeouts fun _ => []] ∧
      ¬ Always (Session.step fun _ => 7) (fun s => s.failed = false ∧ RightOwner s.mpx.derived)
        (Session.start .empty)
        [.call (.add ⟨0, 4⟩), .call (.setTimeout ⟨0, 4⟩ 5), .call (.del 4), .call (.add ⟨1, 4⟩),
          .handleTimeouts fun _ => []] := by
  constructor
  · intro h
    exact absurd h.last.1 (by decide +kernel)
  · intro h
    have hd := (h.last.2 ⟨⟨0, ⟨1, 4⟩, 5⟩, 7⟩ (by decide +kernel)).1
    exact absurd hd (by decide +kernel)

end NetworkDriver.Net.Multiplexer.Timeouts.Owners
