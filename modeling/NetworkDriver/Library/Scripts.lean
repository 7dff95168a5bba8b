import Mathlib.Data.List.Basic

/-! # Scripts

What a component does while one of its functions runs, seen from the outside: it tells things, it asks
for things and goes on with the answers, and it returns. Whoever runs a script keeps a state; to the
script nothing but the answers matters.

* `run_keeps`: the invariant rule, for invariants of the state and the answers given so far.
* `feed_run`: a script that is fed the answers of a run returns what it returned in that run.
* `tells_run`: it tells what it told in that run. -/

namespace NetworkDriver.Library.Scripts

/-- A script that tells `T`s, asks `Q`s for `A`s and returns an `α`. -/
inductive Script (T Q A α : Type)
  | done (a : α)
  | tell (t : T) (next : Script T Q A α)
  | ask (q : Q) (next : A → Script T Q A α)

namespace Script

variable {T Q A α S : Type}

/-- Every way through the script returns a value in `p`. -/
def Returns (p : α → Prop) : Script T Q A α → Prop
  | done a => p a
  | tell _ next => next.Returns p
  | ask _ next => ∀ a, (next a).Returns p

/-- The script with something made of the value that it returns. -/
def map {β : Type} (f : α → β) : Script T Q A α → Script T Q A β
  | done a => done (f a)
  | tell t next => tell t (next.map f)
  | ask q next => ask q fun a => (next a).map f

theorem returns_map {β : Type} {f : α → β} {p : β → Prop} {x : Script T Q A α} :
    (x.map f).Returns p ↔ x.Returns fun a => p (f a) := by
  induction x with
  | done a => exact Iff.rfl
  | tell t next ih => exact ih
  | ask q next ih => exact forall_congr' ih

theorem returns_of_forall {p : α → Prop} (h : ∀ a, p a) (x : Script T Q A α) : x.Returns p := by
  induction x with
  | done a => exact h a
  | tell t next ih => exact ih
  | ask q next ih => exact ih

/-- What a run leads to. -/
structure Outcome (A α S : Type) where
  result : α
  answers : List A
  state : S

/-- A run against a state that is told things and asked for things. -/
def run (told : T → S → S) (asked : Q → S → A × S) : Script T Q A α → S → Outcome A α S
  | done a, s => ⟨a, [], s⟩
  | tell t next, s => next.run told asked (told t s)
  | ask q next, s =>
    let (a, s) := asked q s
    let o := (next a).run told asked s
    { o with answers := a :: o.answers }

/-- The script with the answers from a list: what it returns, and the answers left. -/
def feed : Script T Q A α → List A → Option (α × List A)
  | done a, l => some (a, l)
  | tell _ next, l => next.feed l
  | ask _ _, [] => none
  | ask _ next, a :: l => (next a).feed l

/-- What the script tells with the answers from a list. -/
def tells : Script T Q A α → List A → List T
  | done _, _ => []
  | tell t next, l => t :: next.tells l
  | ask _ _, [] => []
  | ask _ next, a :: l => (next a).tells l

variable {told : T → S → S} {asked : Q → S → A × S}

/-- **The invariant rule.** -/
theorem run_keeps {I : S → List A → Prop} (htell : ∀ t s l, I s l → I (told t s) l)
    (hask : ∀ q s l, I s l → I (asked q s).2 (l ++ [(asked q s).1])) (p : Script T Q A α) {s : S}
    {l : List A} (h : I s l) :
    I (p.run told asked s).state (l ++ (p.run told asked s).answers) := by
  induction p generalizing s l with
  | done a =>
    change I s (l ++ [])
    rw [List.append_nil]
    exact h
  | tell t next ih => exact ih (htell t s l h)
  | ask q next ih =>
    have hnext := ih (asked q s).1 (hask q s l h)
    rw [List.append_assoc] at hnext
    exact hnext

theorem returns_run {p : α → Prop} {x : Script T Q A α} (h : x.Returns p) (s : S) :
    p (x.run told asked s).result := by
  induction x generalizing s with
  | done a => exact h
  | tell t next ih => exact ih h _
  | ask q next ih => exact ih _ (h _) _

/-- **Only the answers matter.** -/
theorem feed_run (p : Script T Q A α) (s : S) (more : List A) :
    p.feed ((p.run told asked s).answers ++ more) = some ((p.run told asked s).result, more) := by
  induction p generalizing s with
  | done a => rfl
  | tell t next ih => exact ih _
  | ask q next ih => exact ih _ _

/-- **What is told is recorded**, if the state records it when it is told. -/
theorem tells_run {β : Type} (record : S → List β) {g : T → Option β}
    (htell : ∀ t s, record (told t s) = record s ++ (g t).toList)
    (hask : ∀ q s, record (asked q s).2 = record s) (p : Script T Q A α) (s : S) :
    record (p.run told asked s).state =
      record s ++ (p.tells (p.run told asked s).answers).filterMap g := by
  induction p generalizing s with
  | done a => exact (List.append_nil _).symm
  | tell t next ih =>
    refine (ih (told t s)).trans ?_
    rw [htell, List.append_assoc]
    change _ = record s ++ (t :: next.tells _).filterMap g
    rw [List.filterMap_cons]
    cases g t <;> rfl
  | ask q next ih =>
    refine (ih (asked q s).1 (asked q s).2).trans ?_
    rw [hask]
    rfl

/-- Any answers lead to a value in `p`. -/
theorem returns_feed {p : α → Prop} {x : Script T Q A α} (h : x.Returns p) {l rest : List A} {a : α}
    (hf : x.feed l = some (a, rest)) : p a := by
  induction x generalizing l with
  | done b =>
    obtain ⟨rfl, rfl⟩ := Prod.mk.inj (Option.some.inj hf)
    exact h
  | tell t next ih => exact ih h hf
  | ask q next ih =>
    cases l with
    | nil => cases hf
    | cons b l => exact ih b (h b) hf

/-- Further answers are left over. -/
theorem feed_append {p : Script T Q A α} {l rest : List A} {a : α} (h : p.feed l = some (a, rest))
    (more : List A) : p.feed (l ++ more) = some (a, rest ++ more) := by
  induction p generalizing l with
  | done b =>
    obtain ⟨rfl, rfl⟩ := Prod.mk.inj (Option.some.inj h)
    rfl
  | tell t next ih => exact ih h
  | ask q next ih =>
    cases l with
    | nil => cases h
    | cons b l => exact ih b h

/-- They are not needed for what the script tells. -/
theorem tells_append {p : Script T Q A α} {l rest : List A} {a : α} (h : p.feed l = some (a, rest))
    (more : List A) : p.tells (l ++ more) = p.tells l := by
  induction p generalizing l with
  | done b => rfl
  | tell t next ih => exact congrArg (t :: ·) (ih h)
  | ask q next ih =>
    cases l with
    | nil => cases h
    | cons b l => exact ih b h

end Script

end NetworkDriver.Library.Scripts
