import Mathlib.Algebra.BigOperators.Group.List.Basic
import Mathlib.Algebra.Order.Ring.Nat
import Mathlib.Data.List.Basic
import Mathlib.Data.List.Infix

/-! # What stands between the occurrences of a separator

A text is cut at the first occurrence of a separator, and what is behind that occurrence is cut
again.

* `Parts`: the parts of a text, as a relation. An empty separator never stops cutting, so there are
  none.
* `Parts.intercalate_eq`: the parts with the separator between them are the text.
* `HeadOnly`: the first letter of the separator is nowhere else in it, so that occurrences do not
  overlap.
* `occurrences_append`: then the occurrences of two texts with the separator between them add up. -/

namespace NetworkDriver.Library.Separators

variable {α : Type} [DecidableEq α]

/-- The first position at which `sep` stands in a text. -/
def firstAt (sep : List α) : List α → Option ℕ
  | [] => if sep = [] then some 0 else none
  | a :: text => if sep <+: a :: text then some 0 else (firstAt sep text).map (· + 1)

/-- The number of positions at which `sep` stands in a text. -/
def occurrences (sep text : List α) : ℕ := text.tails.countP fun rest => sep <+: rest

/-- The parts of a text between the occurrences of `sep`, from the left. -/
inductive Parts (sep : List α) : List α → List (List α) → Prop
  | last {text : List α} (h : firstAt sep text = none) : Parts sep text [text]
  | cut {text : List α} {pos : ℕ} {parts : List (List α)} (h : firstAt sep text = some pos)
      (hrest : Parts sep (text.drop (pos + sep.length)) parts) : Parts sep text (text.take pos :: parts)

/-! ### The first occurrence -/

theorem firstAt_eq_none {sep text : List α} : firstAt sep text = none ↔ ¬ sep <:+: text := by
  induction text with
  | nil =>
    unfold firstAt
    rw [List.infix_nil]
    split_ifs with h
    · simp [h]
    · simp [h]
  | cons a text ih =>
    unfold firstAt
    rw [List.infix_cons_iff]
    split_ifs with h
    · simp [h]
    · rw [Option.map_eq_none_iff, ih]
      simp [h]

theorem exists_firstAt {sep text : List α} (h : sep <:+: text) : ∃ pos, firstAt sep text = some pos :=
  Option.ne_none_iff_exists'.mp fun hnone => firstAt_eq_none.mp hnone h

/-- An occurrence with nothing of the separator in front of it is the first one. -/
theorem firstAt_eq_some {sep text : List α} {pos : ℕ} (h : firstAt sep text = some pos) :
    text = text.take pos ++ (sep ++ text.drop (pos + sep.length)) := by
  induction text generalizing pos with
  | nil =>
    unfold firstAt at h
    split_ifs at h with hsep
    subst hsep
    cases h
    rfl
  | cons a text ih =>
    unfold firstAt at h
    split_ifs at h with hsep
    · cases h
      obtain ⟨rest, hrest⟩ := hsep
      rw [← hrest, List.take_zero, Nat.zero_add, List.drop_left, List.nil_append]
    · obtain ⟨before, hbefore, rfl⟩ := Option.map_eq_some_iff.mp h
      have htext := ih hbefore
      rw [Nat.add_right_comm, List.take_succ_cons, List.drop_succ_cons, List.cons_append, ← htext]

theorem firstAt_lt {sep text : List α} {pos : ℕ} (hsep : sep ≠ []) (h : firstAt sep text = some pos) :
    (text.drop (pos + sep.length)).length < text.length := by
  have hlen := congrArg List.length (firstAt_eq_some h)
  have hpos := List.length_pos_iff.mpr hsep
  simp only [List.length_append, List.length_drop] at hlen ⊢
  omega

theorem firstAt_nil (text : List α) : firstAt [] text = some 0 := by
  cases text with
  | nil => rfl
  | cons a text =>
    unfold firstAt
    rw [if_pos List.nil_prefix]

theorem firstAt_append {sep u : List α} {pos : ℕ} (h : firstAt sep u = some pos) (v : List α) :
    firstAt sep (u ++ v) = some pos := by
  induction u generalizing pos with
  | nil =>
    unfold firstAt at h
    split_ifs at h with hsep
    rw [hsep, firstAt_nil]
    exact h
  | cons a u ih =>
    rw [List.cons_append]
    unfold firstAt at h ⊢
    split_ifs at h with hsep
    · rw [← List.cons_append, if_pos (hsep.trans (List.prefix_append (a :: u) v))]
      exact h
    · obtain ⟨before, hbefore, rfl⟩ := Option.map_eq_some_iff.mp h
      have hinside : sep <:+: u := by
        by_contra hno
        rw [firstAt_eq_none.mpr hno] at hbefore
        cases hbefore
      -- the separator is no longer than `u`, so it does not reach behind `a :: u`
      have hlong : ¬ sep <+: a :: (u ++ v) := by
        intro hstands
        have hlen : sep.length ≤ (a :: u).length := hinside.length_le.trans (Nat.le_succ _)
        exact hsep (List.prefix_of_prefix_length_le hstands (List.prefix_append (a :: u) v) hlen)
      rw [if_neg hlong, ih hbefore]
      rfl

/-- In front of the first occurrence there is none. -/
theorem not_infix_take {sep text : List α} {pos : ℕ} (hsep : sep ≠ [])
    (h : firstAt sep text = some pos) : ¬ sep <:+: text.take pos := by
  intro hinside
  obtain ⟨p, hp⟩ := exists_firstAt hinside
  have hwhole := firstAt_append hp (text.drop pos)
  rw [List.take_append_drop, h] at hwhole
  cases hwhole
  have htext := congrArg List.length (firstAt_eq_some hp)
  refine hsep (List.length_eq_zero_iff.mp ?_)
  simp only [List.length_append, List.length_take, List.length_drop] at htext
  omega

/-! ### The parts -/

/-- **The parts with the separator between them are the text.** -/
theorem Parts.intercalate_eq {sep text : List α} {parts : List (List α)} (h : Parts sep text parts) :
    parts ≠ [] ∧ sep.intercalate parts = text := by
  induction h with
  | last h => exact ⟨List.cons_ne_nil _ _, List.intercalate_singleton⟩
  | cut h _ ih =>
    obtain ⟨hne, hjoin⟩ := ih
    refine ⟨List.cons_ne_nil _ _, ?_⟩
    rw [List.intercalate_cons_of_ne_nil hne, hjoin, List.append_assoc]
    exact (firstAt_eq_some h).symm

theorem not_parts_nil {text : List α} {parts : List (List α)} : ¬ Parts [] text parts := by
  intro h
  induction h with
  | last h =>
    rw [firstAt_nil] at h
    cases h
  | cut _ _ ih => exact ih

/-- No separator stands inside a part. -/
theorem Parts.separator_free {sep text : List α} {parts : List (List α)} (h : Parts sep text parts) :
    ∀ part ∈ parts, ¬ sep <:+: part := by
  have hsep : sep ≠ [] := by
    rintro rfl
    exact not_parts_nil h
  induction h with
  | last h =>
    intro part hpart
    rw [List.mem_singleton.mp hpart]
    exact firstAt_eq_none.mp h
  | cut h _ ih =>
    intro part hpart
    rcases List.mem_cons.mp hpart with rfl | hpart
    · exact not_infix_take hsep h
    · exact ih part hpart

theorem Parts.unique {sep text : List α} {parts parts' : List (List α)} (h : Parts sep text parts)
    (h' : Parts sep text parts') : parts = parts' := by
  induction h generalizing parts' with
  | last h =>
    rcases h' with _ | ⟨hcut, _⟩
    · rfl
    · rw [h] at hcut
      cases hcut
  | cut h _ ih =>
    rcases h' with hlast | ⟨hcut, hrest⟩
    · rw [h] at hlast
      cases hlast
    · rw [h] at hcut
      cases hcut
      rw [ih hrest]

/-- **Every text has parts, unless the separator is empty.** -/
theorem exists_parts {sep : List α} (hsep : sep ≠ []) (text : List α) :
    ∃ parts, Parts sep text parts := by
  induction hn : text.length using Nat.strong_induction_on generalizing text with
  | h n ih =>
    cases hfirst : firstAt sep text with
    | none => exact ⟨_, Parts.last hfirst⟩
    | some pos =>
      obtain ⟨parts, hparts⟩ := ih _ (hn ▸ firstAt_lt hsep hfirst) _ rfl
      exact ⟨_, Parts.cut hfirst hparts⟩

/-! ### Separators that do not overlap themselves -/

/-- The first letter of the separator is nowhere else in it. -/
def HeadOnly : List α → Prop
  | [] => False
  | a :: sep => a ∉ sep

omit [DecidableEq α] in
theorem HeadOnly.ne_nil {sep : List α} (h : HeadOnly sep) : sep ≠ [] := by
  rintro rfl
  exact h

/-- A separator that begins in front of its first letter ends in front of it. -/
theorem cons_prefix_iff {b : α} {sep : List α} (hsep : b ∉ sep) (a : α) (u v : List α) :
    b :: sep <+: a :: (u ++ b :: v) ↔ b :: sep <+: a :: u := by
  constructor
  · intro h
    by_contra hno
    -- otherwise its first letter stands inside it once more
    have hlong : a :: u <+: b :: sep := by
      rcases List.prefix_or_prefix_of_prefix h (List.prefix_append (a :: u) (b :: v)) with h | h
      · exact absurd h hno
      · exact h
    obtain ⟨w, hw⟩ := hlong
    rw [← hw] at h hno
    rcases w with _ | ⟨d, w⟩
    · rw [List.append_nil] at hno
      exact hno (List.prefix_refl _)
    · obtain ⟨rfl, rfl⟩ := List.cons.inj hw
      rw [List.cons_append] at h
      have hrest := (List.cons_prefix_cons.mp h).2
      have hd := (List.cons_prefix_cons.mp ((List.prefix_append_right_inj u).mp hrest)).1
      exact hsep (List.mem_append_right u (hd ▸ List.mem_cons_self))
  · intro h
    exact h.trans (List.prefix_append (a :: u) (b :: v))

theorem HeadOnly.prefix_iff {sep : List α} (hsep : HeadOnly sep) (a : α) (u v : List α) :
    sep <+: a :: (u ++ (sep ++ v)) ↔ sep <+: a :: u := by
  rcases sep with _ | ⟨b, sep⟩
  · exact hsep.elim
  · exact cons_prefix_iff hsep a u (sep ++ v)

/-- The first occurrence is behind a text without one. -/
theorem firstAt_append_sep {sep u : List α} (hsep : HeadOnly sep) (h : ¬ sep <:+: u) (v : List α) :
    firstAt sep (u ++ (sep ++ v)) = some u.length := by
  induction u with
  | nil =>
    rcases sep with _ | ⟨a, sep⟩
    · exact hsep.elim
    · unfold firstAt
      exact if_pos (List.prefix_append _ _)
  | cons a u ih =>
    rw [List.infix_cons_iff, not_or] at h
    rw [List.cons_append]
    unfold firstAt
    rw [if_neg (mt (hsep.prefix_iff a u v).mp h.1), ih h.2]
    rfl

/-- **Texts without a separator, with separators between them, are the parts of the whole.** -/
theorem parts_intercalate {sep : List α} (hsep : HeadOnly sep) {parts : List (List α)}
    (hne : parts ≠ []) (h : ∀ part ∈ parts, ¬ sep <:+: part) :
    Parts sep (sep.intercalate parts) parts := by
  induction parts with
  | nil => exact absurd rfl hne
  | cons part parts ih =>
    obtain ⟨hpart, hparts⟩ := List.forall_mem_cons.mp h
    rcases parts with _ | ⟨next, parts⟩
    · rw [List.intercalate_singleton]
      exact Parts.last (firstAt_eq_none.mpr hpart)
    · have hfirst := firstAt_append_sep hsep hpart (sep.intercalate (next :: parts))
      have hrest : Parts sep ((part ++ (sep ++ sep.intercalate (next :: parts))).drop
          (part.length + sep.length)) (next :: parts) := by
        rw [← List.append_assoc, ← List.length_append, List.drop_left]
        exact ih (List.cons_ne_nil _ _) hparts
      have hcut := Parts.cut hfirst hrest
      rw [List.take_left] at hcut
      rw [List.intercalate_cons_cons, List.append_assoc]
      exact hcut

theorem occurrences_cons (sep : List α) (a : α) (text : List α) :
    occurrences sep (a :: text) = occurrences sep text + if sep <+: a :: text then 1 else 0 := by
  unfold occurrences
  rw [List.tails_cons, List.countP_cons]
  simp

theorem occurrences_eq_zero {sep text : List α} : occurrences sep text = 0 ↔ ¬ sep <:+: text := by
  unfold occurrences
  rw [List.countP_eq_zero, List.infix_iff_prefix_suffix]
  simp only [List.mem_tails, decide_eq_true_eq, not_exists, not_and]
  exact ⟨fun h rest hstands hrest => h rest hrest hstands,
    fun h rest hrest hstands => h rest hstands hrest⟩

/-- Behind its first letter a separator stands no earlier than behind its end. -/
theorem occurrences_of_notMem {a : α} {sep t : List α} (h : a ∉ t) (text : List α) :
    occurrences (a :: sep) (t ++ text) = occurrences (a :: sep) text := by
  induction t with
  | nil => rfl
  | cons b t ih =>
    obtain ⟨hne, ht⟩ := List.ne_and_not_mem_of_not_mem_cons h
    have hno : ¬ a :: sep <+: b :: (t ++ text) := fun hstands => hne (List.cons_prefix_cons.mp hstands).1
    rw [List.cons_append, occurrences_cons, if_neg hno, ih ht, Nat.add_zero]

/-- **The occurrences in two texts with the separator between them add up.** -/
theorem occurrences_append {sep : List α} (hsep : HeadOnly sep) (u v : List α) :
    occurrences sep (u ++ (sep ++ v)) = occurrences sep u + 1 + occurrences sep v := by
  induction u with
  | nil =>
    rcases sep with _ | ⟨a, sep⟩
    · exact hsep.elim
    · have hnil : occurrences (a :: sep) [] = 0 :=
        occurrences_eq_zero.mpr fun h => List.cons_ne_nil _ _ (List.infix_nil.mp h)
      have hstands : a :: sep <+: a :: (sep ++ v) := List.prefix_append (a :: sep) v
      rw [List.nil_append, List.cons_append, occurrences_cons, if_pos hstands,
        occurrences_of_notMem hsep, hnil, Nat.zero_add, Nat.add_comm]
  | cons a u ih =>
    have hiff := hsep.prefix_iff a u v
    rw [List.cons_append, occurrences_cons, occurrences_cons, ih]
    simp only [hiff]
    omega

/-- The occurrences in texts with separators between them. -/
theorem occurrences_intercalate {sep : List α} (hsep : HeadOnly sep) {parts : List (List α)}
    (hne : parts ≠ []) :
    occurrences sep (sep.intercalate parts) + 1 =
      parts.length + (parts.map (occurrences sep)).sum := by
  induction parts with
  | nil => exact absurd rfl hne
  | cons part parts ih =>
    rcases parts with _ | ⟨next, parts⟩
    · rw [List.intercalate_singleton]
      simp only [List.length_singleton, List.map_cons, List.map_nil, List.sum_cons, List.sum_nil]
      omega
    · have hih := ih (List.cons_ne_nil _ _)
      rw [List.intercalate_cons_cons, List.append_assoc, occurrences_append hsep, List.map_cons,
        List.sum_cons, List.length_cons]
      omega

/-- There is one part more than there are separators. -/
theorem Parts.length_eq {sep text : List α} {parts : List (List α)} (hsep : HeadOnly sep)
    (h : Parts sep text parts) : parts.length = occurrences sep text + 1 := by
  obtain ⟨hne, rfl⟩ := h.intercalate_eq
  have hzero : (parts.map (occurrences sep)).sum = 0 := by
    refine List.sum_eq_zero fun n hn => ?_
    obtain ⟨part, hpart, rfl⟩ := List.mem_map.mp hn
    exact occurrences_eq_zero.mpr (h.separator_free part hpart)
  rw [occurrences_intercalate hsep hne, hzero, Nat.add_zero]

/-! ### Another text in the place of the separator -/

omit [DecidableEq α] in
theorem length_intercalate (sep : List α) {parts : List (List α)} (hne : parts ≠ []) :
    (sep.intercalate parts).length + sep.length =
      (parts.map List.length).sum + parts.length * sep.length := by
  induction parts with
  | nil => exact absurd rfl hne
  | cons part parts ih =>
    rcases parts with _ | ⟨next, parts⟩
    · rw [List.intercalate_singleton]
      simp
    · have hih := ih (List.cons_ne_nil _ _)
      rw [List.intercalate_cons_cons, List.length_append, List.length_append, List.map_cons,
        List.sum_cons, List.length_cons, Nat.succ_mul]
      omega

omit [DecidableEq α] in
/-- The first text stands in front. -/
theorem exists_intercalate_cons (sep t : List α) (texts : List (List α)) :
    ∃ rest, sep.intercalate (t :: texts) = t ++ rest := by
  rcases texts with _ | ⟨next, texts⟩
  · exact ⟨[], by rw [List.intercalate_singleton, List.append_nil]⟩
  · exact ⟨_, by rw [List.intercalate_cons_cons, List.append_assoc]⟩

omit [DecidableEq α] in
theorem infix_intercalate (sep : List α) {t : List α} {texts : List (List α)} (h : t ∈ texts) :
    t <:+: sep.intercalate texts := by
  induction texts with
  | nil => cases h
  | cons first texts ih =>
    rcases List.mem_cons.mp h with rfl | h
    · obtain ⟨rest, hrest⟩ := exists_intercalate_cons sep t texts
      exact hrest ▸ (List.prefix_append t rest).isInfix
    · rw [List.intercalate_cons_of_ne_nil (List.ne_nil_of_mem h)]
      exact (ih h).trans (List.suffix_append _ _).isInfix

/-- A first part that ends inside the first of some texts ends where the separator stands in it; so
another text of the same length in the place of the separators would be the separator. -/
theorem not_infix_first {sep r text rest t : List α} {texts : List (List α)} {pos : ℕ} (hsep : sep ≠ [])
    (hr : r ≠ sep) (hlen : r.length = sep.length) (hfirst : firstAt sep text = some pos)
    (htext : text = sep.intercalate (t :: texts))
    (heq : text.take pos ++ (r ++ rest) = r.intercalate (t :: texts)) : ¬ sep <:+: t := by
  intro hinside
  obtain ⟨p, hp⟩ := exists_firstAt hinside
  obtain ⟨behind, hjoin⟩ := exists_intercalate_cons sep t texts
  obtain ⟨behind', hjoin'⟩ := exists_intercalate_cons r t texts
  have hwhole := firstAt_append hp behind
  rw [← hjoin, ← htext, hfirst] at hwhole
  cases hwhole
  have ht := firstAt_eq_some hp
  have hle : pos ≤ t.length := by
    have hlenT := congrArg List.length ht
    have hpos := List.length_pos_iff.mpr hsep
    simp only [List.length_append, List.length_take, List.length_drop] at hlenT
    omega
  have htake : text.take pos = t.take pos := by
    rw [htext, hjoin, List.take_append_of_le_length hle]
  have hcut : t.take pos ++ (r ++ rest) =
      t.take pos ++ (sep ++ (t.drop (pos + sep.length) ++ behind')) := by
    rw [← htake, heq, hjoin']
    conv_lhs => rw [ht]
    rw [List.append_assoc, List.append_assoc, htake]
  exact hr (List.append_inj_left (List.append_cancel_left hcut) hlen)

/-- Texts that are joined by another text of the same length as the parts are, have no separators. -/
theorem Parts.free_of_length_eq {sep r text : List α} {parts : List (List α)} (hsep : HeadOnly sep)
    (hr : r ≠ sep) (hlen : r.length = sep.length) (h : Parts sep text parts) {texts : List (List α)}
    (hne : texts ≠ []) (htext : text = sep.intercalate texts)
    (heq : r.intercalate parts = r.intercalate texts) : ∀ t ∈ texts, ¬ sep <:+: t := by
  induction h generalizing texts with
  | last h =>
    intro t ht hinside
    exact firstAt_eq_none.mp h (htext ▸ hinside.trans (infix_intercalate sep ht))
  | cut hfirst hrest ih =>
    obtain ⟨t, texts, rfl⟩ := List.exists_cons_of_ne_nil hne
    rw [List.intercalate_cons_of_ne_nil hrest.intercalate_eq.1, List.append_assoc] at heq
    have hno := not_infix_first hsep.ne_nil hr hlen hfirst htext heq
    intro u hu
    rcases List.mem_cons.mp hu with rfl | hu
    · exact hno
    · have htexts := List.ne_nil_of_mem hu
      rw [List.intercalate_cons_of_ne_nil htexts, List.append_assoc] at heq htext
      have hpos := firstAt_append_sep hsep hno (sep.intercalate texts)
      rw [← htext, hfirst] at hpos
      obtain rfl := Option.some.inj hpos
      rw [htext, List.take_left] at heq
      refine ih htexts ?_ (List.append_cancel_left (List.append_cancel_left heq)) u hu
      rw [htext, ← List.append_assoc, ← List.length_append, List.drop_left]

/-- **Putting another text in the place of the separators tells whether there is one inside the
texts they stand between.** -/
theorem Parts.free_of_intercalate_eq {sep r text : List α} {parts : List (List α)} (hsep : HeadOnly sep)
    (hr : r ≠ sep) (h : Parts sep text parts) {texts : List (List α)} (hne : texts ≠ [])
    (htext : text = sep.intercalate texts) (heq : r.intercalate parts = r.intercalate texts) :
    (texts.map (occurrences sep)).sum = 0 := by
  obtain ⟨hparts, hjoin⟩ := h.intercalate_eq
  have hcount : parts.length = texts.length + (texts.map (occurrences sep)).sum := by
    rw [h.length_eq hsep, htext, occurrences_intercalate hsep hne]
  by_contra hpos
  have hlen : r.length = sep.length := by
    have h1 := length_intercalate sep hparts
    have h2 := length_intercalate sep hne
    have h3 := length_intercalate r hparts
    have h4 := length_intercalate r hne
    rw [hjoin, htext] at h1
    rw [heq] at h3
    rw [hcount, Nat.add_mul] at h1 h3
    have hmul : (texts.map (occurrences sep)).sum * r.length =
        (texts.map (occurrences sep)).sum * sep.length := by omega
    exact Nat.eq_of_mul_eq_mul_left (Nat.pos_of_ne_zero hpos) hmul
  have hfree := h.free_of_length_eq hsep hr hlen hne htext heq
  refine hpos (List.sum_eq_zero fun n hn => ?_)
  obtain ⟨t, ht, rfl⟩ := List.mem_map.mp hn
  exact occurrences_eq_zero.mpr (hfree t ht)

end NetworkDriver.Library.Separators
