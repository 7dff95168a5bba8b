import Mathlib.Data.List.Perm.Basic
import Mathlib.Data.List.Nodup

/-! # Queues of requests in flight

A queue holds entries in the order in which they came; an entry that is in flight has a ticket, by which
its answer is recognized, and answers come in any order. `tickets` are those that are out.

* `launch_perm`, `recall_perm`, `settle_perm`: an entry gets a ticket, gives it back, or leaves.
* `entry_of_ticket`, `entry_unique`: a ticket that is out belongs to one entry. -/

namespace NetworkDriver.Library.Outbox

variable {α β ι : Type*}

/-- The tickets that are out, in the order of the queue. -/
def tickets (ticket : α → Option ι) (l : List α) : List ι := l.filterMap ticket

variable {ticket : α → Option ι} {l : List α} {i : ℕ} {a : α}

theorem split_at (h : l[i]? = some a) : l = l.take i ++ a :: l.drop (i + 1) := by
  obtain ⟨hi, rfl⟩ := List.getElem?_eq_some_iff.mp h
  rw [List.getElem_cons_drop hi, List.take_append_drop]

theorem modify_at (h : l[i]? = some a) (f : α → α) :
    l.modify i f = l.take i ++ f a :: l.drop (i + 1) := by
  obtain ⟨hi, rfl⟩ := List.getElem?_eq_some_iff.mp h
  exact List.modify_eq_take_cons_drop hi

theorem erase_at (l : List α) (i : ℕ) : l.eraseIdx i = l.take i ++ l.drop (i + 1) :=
  List.eraseIdx_eq_take_drop_succ l i

/-- Only one entry counts. -/
theorem flatMap_alone {f : α → List β} (h : l[i]? = some a) (hothers : ∀ b ∈ l.eraseIdx i, f b = []) :
    l.flatMap f = f a := by
  rw [erase_at] at hothers
  have htake : (l.take i).flatMap f = [] :=
    List.flatMap_eq_nil_iff.mpr fun b hb => hothers b (List.mem_append_left _ hb)
  have hdrop : (l.drop (i + 1)).flatMap f = [] :=
    List.flatMap_eq_nil_iff.mpr fun b hb => hothers b (List.mem_append_right _ hb)
  conv_lhs => rw [split_at h]
  rw [List.flatMap_append, List.flatMap_cons, htake, hdrop, List.nil_append, List.append_nil]

theorem tickets_append (l l' : List α) : tickets ticket (l ++ l') = tickets ticket l ++ tickets ticket l' :=
  List.filterMap_append

theorem tickets_cons_some {id : ι} (h : ticket a = some id) (l : List α) :
    tickets ticket (a :: l) = id :: tickets ticket l := List.filterMap_cons_some h

theorem tickets_cons_none (h : ticket a = none) (l : List α) :
    tickets ticket (a :: l) = tickets ticket l := List.filterMap_cons_none h

/-- **An entry gets a ticket.** -/
theorem launch_perm {f : α → α} {id : ι} (h : l[i]? = some a) (hbefore : ticket a = none)
    (hafter : ticket (f a) = some id) : (tickets ticket (l.modify i f)).Perm (id :: tickets ticket l) := by
  rw [modify_at h f]
  conv_rhs => rw [split_at h]
  rw [tickets_append, tickets_append, tickets_cons_some hafter, tickets_cons_none hbefore]
  exact List.perm_middle

/-- **An entry gives its ticket back.** -/
theorem recall_perm {f : α → α} {id : ι} (h : l[i]? = some a) (hbefore : ticket a = some id)
    (hafter : ticket (f a) = none) : (tickets ticket l).Perm (id :: tickets ticket (l.modify i f)) := by
  rw [modify_at h f]
  conv_lhs => rw [split_at h]
  rw [tickets_append, tickets_append, tickets_cons_some hbefore, tickets_cons_none hafter]
  exact List.perm_middle

/-- **An entry leaves with its ticket.** -/
theorem settle_perm {id : ι} (h : l[i]? = some a) (hticket : ticket a = some id) :
    (tickets ticket l).Perm (id :: tickets ticket (l.eraseIdx i)) := by
  rw [erase_at]
  conv_lhs => rw [split_at h]
  rw [tickets_append, tickets_append, tickets_cons_some hticket]
  exact List.perm_middle

/-- What is left is all but the entry. -/
theorem map_perm_eraseIdx (f : α → β) (h : l[i]? = some a) :
    (l.map f).Perm (f a :: (l.eraseIdx i).map f) := by
  rw [erase_at]
  conv_lhs => rw [split_at h]
  rw [List.map_append, List.map_append, List.map_cons]
  exact List.perm_middle

/-- A ticket that is out belongs to an entry. -/
theorem entry_of_ticket {id : ι} (h : id ∈ tickets ticket l) : ∃ a ∈ l, ticket a = some id :=
  List.mem_filterMap.mp h

/-- **It belongs to one entry.** -/
theorem entry_unique {id : ι} {j : ℕ} {b : α} (hnodup : (tickets ticket l).Nodup) (hi : l[i]? = some a)
    (ha : ticket a = some id) (hj : l[j]? = some b) (hb : ticket b = some id) : i = j := by
  have hperm := settle_perm hi ha
  have hout := (List.nodup_cons.mp (hperm.nodup_iff.mp hnodup)).1
  by_contra hne
  refine hout (List.mem_filterMap.mpr ⟨b, ?_, hb⟩)
  rw [List.mem_eraseIdx_iff_getElem?]
  exact ⟨j, Ne.symm hne, hj⟩

end NetworkDriver.Library.Outbox
