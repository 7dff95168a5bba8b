import Mathlib.Data.List.Basic

/-! # Red-black trees with any comparator

The tree behind an ordered set: where a key is inserted is found by comparing it with the keys of
one path, going left when `cmp key node` holds, and the insertion is rebalanced on the way up.
Nothing is assumed of `cmp`, so that the operations can also be studied for one that is no ordering.

A place in a tree is a path of frames, the innermost first: on which side of its node each goes on,
and what is on the other.

* `toList_rebalance`: rebalancing keeps the order of the keys.
* `emplace_symm`: with a symmetric comparator only the keys on the leftmost path are compared, and
  what is inserted becomes the first. -/

namespace NetworkDriver.Library.RedBlack

inductive Color where
  | red
  | black
  deriving DecidableEq

inductive Side where
  | left
  | right
  deriving DecidableEq

/-- A tree with colored nodes. -/
inductive ColorTree (α : Type*) where
  | nil
  | node (color : Color) (left : ColorTree α) (key : α) (right : ColorTree α)
  deriving DecidableEq

/-- A node on a path, without the subtree that the path goes on in. -/
structure Frame (α : Type*) where
  side : Side
  color : Color
  key : α
  sibling : ColorTree α

variable {α : Type*}

namespace ColorTree

def isRed : ColorTree α → Bool
  | node .red _ _ _ => true
  | _ => false

def blacken : ColorTree α → ColorTree α
  | nil => nil
  | node _ l x r => node .black l x r

/-- The keys in order. -/
def toList : ColorTree α → List α
  | nil => []
  | node _ l x r => l.toList ++ x :: r.toList

/-- The keys from the root to the leftmost node. -/
def leftSpine : ColorTree α → List α
  | nil => []
  | node _ l x _ => x :: l.leftSpine

theorem leftSpine_subset {t : ColorTree α} {x : α} (h : x ∈ t.leftSpine) : x ∈ t.toList := by
  induction t with
  | nil => cases h
  | node c l y r ihl ihr =>
    unfold toList
    rcases List.mem_cons.mp h with rfl | hl
    · simp
    · exact List.mem_append_left _ (ihl hl)

/-- Any list is the order of the keys of some tree. -/
theorem exists_toList (l : List α) : ∃ t : ColorTree α, t.toList = l := by
  induction l with
  | nil => exact ⟨nil, rfl⟩
  | cons x l ih =>
    obtain ⟨t, ht⟩ := ih
    exact ⟨node .black nil x t, congrArg (x :: ·) ht⟩

/-- A new node. -/
def single (x : α) : ColorTree α := node .red nil x nil

end ColorTree

/-- The node with a subtree put in. -/
def Frame.fill (f : Frame α) (t : ColorTree α) : ColorTree α :=
  match f.side with
  | .left => .node f.color t f.key f.sibling
  | .right => .node f.color f.sibling f.key t

/-- The whole tree, with a subtree put in at the end of a path. -/
def plug (t : ColorTree α) (path : List (Frame α)) : ColorTree α := path.foldl (fun t f => f.fill t) t

/-- The rotations for a red node under a red parent `p`, whose own parent is `g`. -/
def rotate (x : ColorTree α) (p g : Frame α) : ColorTree α :=
  match x, g.side, p.side with
  | .nil, _, _ => g.fill (p.fill .nil)
  | .node c a k b, .left, .left =>
    .node .black (.node c a k b) p.key (.node .red p.sibling g.key g.sibling)
  | .node _ a k b, .left, .right =>
    .node .black (.node .red p.sibling p.key a) k (.node .red b g.key g.sibling)
  | .node c a k b, .right, .right =>
    .node .black (.node .red g.sibling g.key p.sibling) p.key (.node c a k b)
  | .node _ a k b, .right, .left =>
    .node .black (.node .red g.sibling g.key a) k (.node .red b p.key p.sibling)

/-- The loop that restores the colors above a red node: a red parent with a red sibling is
recolored, and the loop goes on above it; any other is rotated. -/
def rebalance : ColorTree α → List (Frame α) → ColorTree α
  | x, [] => x.blacken
  | x, [p] => (p.fill x).blacken
  | x, p :: g :: path =>
    if p.color = .black then (plug x (p :: g :: path)).blacken
    else if g.sibling.isRed then
      rebalance (Frame.fill ⟨g.side, .red, g.key, g.sibling.blacken⟩
        (Frame.fill ⟨p.side, .black, p.key, p.sibling⟩ x)) path
    else (plug (rotate x p g) path).blacken

variable (cmp : α → α → Bool)

/-- The path to the place of a key, the frames so far given. -/
def descend (key : α) : ColorTree α → List (Frame α) → List (Frame α)
  | .nil, path => path
  | .node c l x r, path =>
    if cmp key x then descend key l (⟨.left, c, x, r⟩ :: path)
    else descend key r (⟨.right, c, x, l⟩ :: path)

/-- The node before the place at the end of a path. -/
def previous (path : List (Frame α)) : Option (Frame α) := path.find? fun f => f.side = .right

/-- `emplace` of an ordered set: whether the key was inserted, and the tree. The key is compared
with the one before its place, if there is one. -/
def emplace (key : α) (t : ColorTree α) : Bool × ColorTree α :=
  let path := descend cmp key t []
  match previous path with
  | none => (true, rebalance (.single key) path)
  | some f => if cmp f.key key then (true, rebalance (.single key) path) else (false, t)

/-! ### The order of the keys -/

/-- The keys before and behind the place at the end of a path. -/
def before : List (Frame α) → List α
  | [] => []
  | f :: path => before path ++ match f.side with
    | .left => []
    | .right => f.sibling.toList ++ [f.key]

def behind : List (Frame α) → List α
  | [] => []
  | f :: path => (match f.side with
    | .left => f.key :: f.sibling.toList
    | .right => []) ++ behind path

@[simp] theorem toList_blacken (t : ColorTree α) : t.blacken.toList = t.toList := by cases t <;> rfl

theorem toList_fill_congr (f : Frame α) {c : Color} {s t t' : ColorTree α}
    (hsibling : s.toList = f.sibling.toList) (ht : t'.toList = t.toList) :
    (Frame.fill ⟨f.side, c, f.key, s⟩ t').toList = (f.fill t).toList := by
  unfold Frame.fill
  cases f.side <;> simp [ColorTree.toList, hsibling, ht]

theorem toList_plug (t : ColorTree α) (path : List (Frame α)) :
    (plug t path).toList = before path ++ t.toList ++ behind path := by
  induction path generalizing t with
  | nil => simp [plug, before, behind]
  | cons f path ih =>
    change (plug (f.fill t) path).toList = _
    rw [ih, before, behind]
    unfold Frame.fill
    cases f.side <;> simp [ColorTree.toList]

theorem toList_rotate (x : ColorTree α) (p g : Frame α) :
    (rotate x p g).toList = (g.fill (p.fill x)).toList := by
  cases x with
  | nil => rfl
  | node c a k b =>
    unfold rotate Frame.fill
    cases g.side <;> cases p.side <;> simp [ColorTree.toList]

/-- **Rebalancing keeps the order of the keys.** -/
theorem toList_rebalance (x : ColorTree α) (path : List (Frame α)) :
    (rebalance x path).toList = (plug x path).toList := by
  fun_induction rebalance x path with
  | case1 x => rw [toList_blacken]; rfl
  | case2 x p => rw [toList_blacken]; rfl
  | case3 x p g path hblack => rw [toList_blacken]
  | case4 x p g path hred hsibling ih =>
    have hp : (Frame.fill ⟨p.side, .black, p.key, p.sibling⟩ x).toList = (p.fill x).toList :=
      toList_fill_congr p rfl rfl
    have hg : (Frame.fill ⟨g.side, .red, g.key, g.sibling.blacken⟩
        (Frame.fill ⟨p.side, .black, p.key, p.sibling⟩ x)).toList = (g.fill (p.fill x)).toList :=
      toList_fill_congr g (toList_blacken _) hp
    rw [ih, toList_plug, hg, ← toList_plug]
    rfl
  | case5 x p g path hred hsibling =>
    rw [toList_blacken, toList_plug, toList_rotate, ← toList_plug]
    rfl

/-! ### Where a key is inserted -/

/-- Descending finds a place in the tree. -/
theorem plug_descend (key : α) (t : ColorTree α) (path : List (Frame α)) :
    plug .nil (descend cmp key t path) = plug t path := by
  induction t generalizing path with
  | nil => rfl
  | node c l x r ihl ihr =>
    unfold descend
    split_ifs
    · exact ihl _
    · exact ihr _

/-- What is inserted comes at the end of its path. -/
theorem toList_inserted (key : α) (t : ColorTree α) :
    (rebalance (.single key) (descend cmp key t [])).toList =
      before (descend cmp key t []) ++ key :: behind (descend cmp key t []) ∧
      t.toList = before (descend cmp key t []) ++ behind (descend cmp key t []) := by
  have hplug := congrArg ColorTree.toList (plug_descend cmp key t [])
  rw [toList_plug] at hplug
  refine ⟨?_, ?_⟩
  · rw [toList_rebalance, toList_plug]
    simp [ColorTree.single, ColorTree.toList]
  · rw [show plug t [] = t from rfl] at hplug
    rw [← hplug]
    simp [ColorTree.toList]

variable {cmp}

/-- The key before the place at the end of the path is one that was descended from to the right. -/
def Stopped (cmp : α → α → Bool) (key : α) (path : List (Frame α)) : Prop :=
  ∃ f, previous path = some f ∧ cmp key f.key = false

theorem Stopped.left {key : α} {path : List (Frame α)} (h : Stopped cmp key path) {f : Frame α}
    (hf : f.side = .left) : Stopped cmp key (f :: path) := by
  obtain ⟨g, hg, hc⟩ := h
  refine ⟨g, ?_, hc⟩
  unfold previous at hg ⊢
  rw [List.find?_cons_of_neg (by simp [hf])]
  exact hg

theorem stopped_right {key : α} {path : List (Frame α)} {f : Frame α} (hf : f.side = .right)
    (hc : cmp key f.key = false) : Stopped cmp key (f :: path) := by
  refine ⟨f, ?_, hc⟩
  unfold previous
  exact List.find?_cons_of_pos (by simp [hf])

theorem stopped_descend {key : α} (t : ColorTree α) {path : List (Frame α)} (h : Stopped cmp key path) :
    Stopped cmp key (descend cmp key t path) := by
  induction t generalizing path with
  | nil => exact h
  | node c l x r ihl ihr =>
    unfold descend
    split_ifs with hx
    · exact ihl (h.left rfl)
    · exact ihr (stopped_right rfl (eq_false_of_ne_true hx))

/-- **A key on the leftmost path that the comparator does not go left from** stops the search there. -/
theorem stopped_of_spine {key : α} {t : ColorTree α} (path : List (Frame α))
    (h : ∃ x ∈ t.leftSpine, cmp key x = false) : Stopped cmp key (descend cmp key t path) := by
  induction t generalizing path with
  | nil =>
    obtain ⟨x, hx, -⟩ := h
    cases hx
  | node c l y r ihl ihr =>
    unfold descend
    split_ifs with hy
    · obtain ⟨x, hx, hc⟩ := h
      rcases List.mem_cons.mp hx with rfl | hx
      · rw [hy] at hc
        cases hc
      · exact ihl _ ⟨x, hx, hc⟩
    · exact stopped_descend r (stopped_right rfl (eq_false_of_ne_true hy))

/-- If it goes left from all of them, it arrives before the first key. -/
theorem descend_first {key : α} {t : ColorTree α} (path : List (Frame α))
    (h : ∀ x ∈ t.leftSpine, cmp key x = true) :
    previous (descend cmp key t path) = previous path ∧ before (descend cmp key t path) = before path := by
  induction t generalizing path with
  | nil => exact ⟨rfl, rfl⟩
  | node c l y r ihl ihr =>
    obtain ⟨hy, hl⟩ := List.forall_mem_cons.mp h
    unfold descend
    rw [if_pos hy]
    obtain ⟨hprevious, hbefore⟩ := ihl (⟨.left, c, y, r⟩ :: path) hl
    refine ⟨hprevious.trans (List.find?_cons_of_neg (by simp)), hbefore.trans ?_⟩
    simp [before]

/-- **`emplace` with a symmetric comparator**: a key is inserted exactly if the comparator tells it
from all keys on the leftmost path, and then as the first; otherwise the tree stays as it is. -/
theorem emplace_symm (hcmp : ∀ x y, cmp x y = cmp y x) (key : α) (t : ColorTree α) :
    ((emplace cmp key t).1 = true ↔ ∀ x ∈ t.leftSpine, cmp key x = true) ∧
      ((emplace cmp key t).1 = false → (emplace cmp key t).2 = t) ∧
      ((emplace cmp key t).1 = true → (emplace cmp key t).2.toList = key :: t.toList) := by
  by_cases h : ∀ x ∈ t.leftSpine, cmp key x = true
  · obtain ⟨hprevious, hbefore⟩ := descend_first [] h
    have heq : emplace cmp key t = (true, rebalance (.single key) (descend cmp key t [])) := by
      unfold emplace
      dsimp only
      rw [hprevious]
      rfl
    obtain ⟨hnew, hold⟩ := toList_inserted cmp key t
    rw [hbefore] at hnew hold
    rw [heq]
    dsimp only
    refine ⟨iff_of_true rfl h, fun hf => absurd hf (by decide), fun _ => ?_⟩
    rw [hold]
    exact hnew
  · have hspine : ∃ x ∈ t.leftSpine, cmp key x = false := by
      push Not at h
      obtain ⟨x, hx, hc⟩ := h
      exact ⟨x, hx, eq_false_of_ne_true hc⟩
    obtain ⟨f, hf, hc⟩ := stopped_of_spine [] hspine
    have heq : emplace cmp key t = (false, t) := by
      unfold emplace
      dsimp only
      rw [hf]
      dsimp only
      rw [hcmp, hc]
      rfl
    rw [heq]
    exact ⟨iff_of_false (by simp) h, fun _ => rfl, fun ht => absurd ht Bool.false_ne_true⟩

end NetworkDriver.Library.RedBlack
