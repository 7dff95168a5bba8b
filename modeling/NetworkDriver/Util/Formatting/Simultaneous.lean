import Mathlib.Data.List.GetD
import NetworkDriver.Util.Formatting.Model

/-! # Formatting in one pass

What `format` is for: one pass over the format string, in which each placeholder gives way to the
text of its argument, whatever characters that has. `util::format` does the same as long as the
earlier arguments bring in no placeholder of a later one and no argument that is put in has a
special character behind a `$`.

* `onePass`: the one pass.
* `onePass_of_parts`: it goes through the parts between the placeholders of an argument one by one.
* `Undisturbed`: the condition, on the format string and the arguments.
* `format_eq_onePass_iff`: under it the two agree; for one more argument they agree only under it.
  -/

namespace NetworkDriver.Util.Formatting.Simultaneous

open NetworkDriver.Library.Separators
open NetworkDriver.Util.Format NetworkDriver.Util.Splitting NetworkDriver.Util.Formatting.Model

/-- The argument whose placeholder stands at the start of a text. -/
def placeholderAt (count : ℕ) (text : Bytes) : Option ℕ :=
  (List.range count).find? fun i => placeholder i <+: text

/-- One pass over the rest of a format string, `skip` characters of which belong to a placeholder
that has been replaced. -/
def onePassFrom (args : List Bytes) : ℕ → Bytes → Bytes
  | _, [] => []
  | skip + 1, _ :: form => onePassFrom args skip form
  | 0, c :: form =>
    match placeholderAt args.length (c :: form) with
    | some i => args.getD i [] ++ onePassFrom args ((placeholder i).length - 1) form
    | none => c :: onePassFrom args 0 form

/-- The format string with every placeholder of an argument replaced by its text. -/
def onePass (args : List Bytes) (form : Bytes) : Bytes := onePassFrom args 0 form

/-! ### The pass -/

theorem placeholderAt_eq_some {count i : ℕ} {text : Bytes} (h : placeholderAt count text = some i) :
    i < count ∧ placeholder i <+: text := by
  unfold placeholderAt at h
  exact ⟨List.mem_range.mp (List.mem_of_find?_eq_some h), by simpa using List.find?_some h⟩

theorem placeholderAt_eq_none {count : ℕ} {text : Bytes} (h : ∀ i < count, ¬ placeholder i <+: text) :
    placeholderAt count text = none := by
  unfold placeholderAt
  rw [List.find?_eq_none]
  intro i hi
  rw [decide_eq_true_eq]
  exact h i (List.mem_range.mp hi)

theorem placeholderAt_placeholder {count i : ℕ} (hi : i < count) (text : Bytes) :
    placeholderAt count (placeholder i ++ text) = some i := by
  cases hat : placeholderAt count (placeholder i ++ text) with
  | none =>
    unfold placeholderAt at hat
    rw [List.find?_eq_none] at hat
    exact absurd (decide_eq_true (List.prefix_append _ _)) (hat i (List.mem_range.mpr hi))
  | some j => rw [placeholder_inj (placeholderAt_eq_some hat).2]

/-- No placeholder goes past a left brace. -/
theorem placeholderAt_leftBrace (count : ℕ) (c : UInt8) (x y : Bytes) :
    placeholderAt count (c :: (x ++ leftBrace :: y)) = placeholderAt count (c :: x) := by
  unfold placeholderAt
  congr 1
  funext i
  rw [decide_eq_decide]
  exact cons_prefix_iff (headOnly_placeholder i) c x y

theorem onePassFrom_none {args : List Bytes} {c : UInt8} {form : Bytes}
    (h : placeholderAt args.length (c :: form) = none) :
    onePassFrom args 0 (c :: form) = c :: onePassFrom args 0 form := by
  conv_lhs => unfold onePassFrom
  rw [h]

theorem onePassFrom_some {args : List Bytes} {c : UInt8} {form : Bytes} {i : ℕ}
    (h : placeholderAt args.length (c :: form) = some i) :
    onePassFrom args 0 (c :: form) =
      args.getD i [] ++ onePassFrom args ((placeholder i).length - 1) form := by
  conv_lhs => unfold onePassFrom
  rw [h]

/-- The characters of a replaced placeholder are skipped. -/
theorem onePassFrom_skip (args : List Bytes) (x y : Bytes) :
    onePassFrom args x.length (x ++ y) = onePassFrom args 0 y := by
  induction x with
  | nil => rfl
  | cons c x ih => exact ih

/-- The pass takes the texts in front of a left brace and behind it one by one. -/
theorem onePassFrom_append {args : List Bytes} {skip : ℕ} {x : Bytes} (hskip : skip ≤ x.length)
    (y : Bytes) :
    onePassFrom args skip (x ++ leftBrace :: y) =
      onePassFrom args skip x ++ onePassFrom args 0 (leftBrace :: y) := by
  induction x generalizing skip with
  | nil =>
    rw [Nat.le_zero.mp hskip, List.nil_append]
    rfl
  | cons c x ih =>
    rcases skip with _ | skip
    · have hbrace := placeholderAt_leftBrace args.length c x y
      rw [List.cons_append]
      cases hat : placeholderAt args.length (c :: x) with
      | none =>
        rw [onePassFrom_none (hbrace.trans hat), onePassFrom_none hat, ih (Nat.zero_le _),
          List.cons_append]
      | some i =>
        have hlen := (placeholderAt_eq_some hat).2.length_le
        rw [onePassFrom_some (hbrace.trans hat), onePassFrom_some hat,
          ih (by rw [List.length_cons] at hlen; omega), List.append_assoc]
    · exact ih (Nat.le_of_succ_le_succ hskip)

/-- Without a left brace there is nothing to replace. -/
theorem onePassFrom_notMem {args : List Bytes} {x : Bytes} (h : leftBrace ∉ x) (y : Bytes) :
    onePassFrom args 0 (x ++ y) = x ++ onePassFrom args 0 y := by
  induction x with
  | nil => rfl
  | cons c x ih =>
    obtain ⟨hc, hx⟩ := List.ne_and_not_mem_of_not_mem_cons h
    have hno : ∀ i < args.length, ¬ placeholder i <+: c :: (x ++ y) :=
      fun i _ hstands => hc (List.cons_prefix_cons.mp hstands).1
    rw [List.cons_append, onePassFrom_none (placeholderAt_eq_none hno), ih hx, List.cons_append]

theorem onePass_placeholder {args : List Bytes} {k : ℕ} (hk : k < args.length) (y : Bytes) :
    onePass args (placeholder k ++ y) = args.getD k [] ++ onePass args y := by
  have hat := placeholderAt_placeholder hk y
  have hrest := onePassFrom_skip args (decimalDigits k ++ [rightBrace]) y
  unfold onePass
  unfold placeholder at hat ⊢
  rw [List.cons_append] at hat ⊢
  rw [onePassFrom_some hat, ← hrest]
  rfl

theorem onePass_other {args : List Bytes} {k : ℕ} (hk : args.length ≤ k) (y : Bytes) :
    onePass args (placeholder k ++ y) = placeholder k ++ onePass args y := by
  have hat : placeholderAt args.length (placeholder k ++ y) = none := by
    refine placeholderAt_eq_none fun i hi hstands => ?_
    have hik := placeholder_inj hstands
    omega
  have htail : leftBrace ∉ decimalDigits k ++ [rightBrace] := headOnly_placeholder k
  have hrest := @onePassFrom_notMem args _ htail y
  unfold onePass
  unfold placeholder at hat ⊢
  rw [List.cons_append] at hat ⊢
  rw [onePassFrom_none hat, hrest]
  rfl

/-- An argument without a placeholder in a text leaves it as it is. -/
theorem onePassFrom_concat {args : List Bytes} {a form : Bytes} (skip : ℕ)
    (h : ¬ placeholder args.length <:+: form) :
    onePassFrom (args ++ [a]) skip form = onePassFrom args skip form := by
  induction form generalizing skip with
  | nil => rcases skip with _ | skip <;> rfl
  | cons c form ih =>
    rw [List.infix_cons_iff, not_or] at h
    rcases skip with _ | skip
    · have hat : placeholderAt (args ++ [a]).length (c :: form) =
          placeholderAt args.length (c :: form) := by
        unfold placeholderAt
        rw [List.length_append, List.length_singleton, List.range_succ, List.find?_append]
        simp [h.1]
      cases hcases : placeholderAt args.length (c :: form) with
      | none => rw [onePassFrom_none (hat.trans hcases), onePassFrom_none hcases, ih 0 h.2]
      | some i =>
        have hi := (placeholderAt_eq_some hcases).1
        rw [onePassFrom_some (hat.trans hcases), onePassFrom_some hcases, ih _ h.2,
          List.getD_append _ _ _ _ hi]
    · exact ih skip h.2

/-- The pass goes through the parts between the placeholders of an argument one by one. -/
theorem onePass_intercalate {args : List Bytes} {k : ℕ} {r : Bytes}
    (hr : ∀ y, onePass args (placeholder k ++ y) = r ++ onePass args y) {parts : List Bytes}
    (hne : parts ≠ []) :
    onePass args ((placeholder k).intercalate parts) = r.intercalate (parts.map (onePass args)) := by
  induction parts with
  | nil => exact absurd rfl hne
  | cons part parts ih =>
    rcases parts with _ | ⟨next, parts⟩
    · rw [List.intercalate_singleton]
      exact List.intercalate_singleton.symm
    · have happend := @onePassFrom_append args 0 part (Nat.zero_le _)
        ((decimalDigits k ++ [rightBrace]) ++ (placeholder k).intercalate (next :: parts))
      have hplaceholder := hr ((placeholder k).intercalate (next :: parts))
      rw [List.intercalate_cons_cons, List.append_assoc, List.map_cons, List.map_cons,
        List.intercalate_cons_cons, List.append_assoc, ← List.map_cons, ← ih (List.cons_ne_nil _ _),
        ← hplaceholder]
      exact happend

/-- **The placeholders of a later argument stay between the parts.** -/
theorem onePass_of_parts {args : List Bytes} {k : ℕ} (hk : args.length ≤ k) {form : Bytes}
    {parts : List Bytes} (h : Parts (placeholder k) form parts) :
    onePass args form = (placeholder k).intercalate (parts.map (onePass args)) := by
  obtain ⟨hne, rfl⟩ := h.intercalate_eq
  exact onePass_intercalate (onePass_other hk) hne

/-- **One more argument stands between the parts.** -/
theorem onePass_concat {args : List Bytes} {form : Bytes} {parts : List Bytes}
    (h : Parts (placeholder args.length) form parts) (a : Bytes) :
    onePass (args ++ [a]) form = a.intercalate (parts.map (onePass args)) := by
  have hlt : args.length < (args ++ [a]).length := by simp
  have hget : (args ++ [a]).getD args.length [] = a := by simp
  have hmap : parts.map (onePass (args ++ [a])) = parts.map (onePass args) :=
    List.map_congr_left fun part hpart => onePassFrom_concat 0 (h.separator_free part hpart)
  obtain ⟨hne, rfl⟩ := h.intercalate_eq
  rw [onePass_intercalate (onePass_placeholder hlt) hne, hmap, hget]

/-- Without arguments nothing is replaced. -/
theorem onePass_nil (form : Bytes) : onePass [] form = form := by
  unfold onePass
  induction form with
  | nil => rfl
  | cons c form ih => rw [onePassFrom_none rfl, ih]

/-! ### One argument after the other -/

/-- The text with the earlier arguments put in has no placeholder of the next one that the format
string has not, and if there is one, the argument is taken as it is. -/
def UndisturbedBy (form : Bytes) (earlier : List Bytes) (arg : Bytes) : Prop :=
  occurrences (placeholder earlier.length) (onePass earlier form) =
      occurrences (placeholder earlier.length) form ∧
    (occurrences (placeholder earlier.length) form ≠ 0 → literal arg = true)

/-- No argument is disturbed by the ones before it. -/
def Undisturbed (form : Bytes) (args : List Bytes) : Prop :=
  ∀ k, (hk : k < args.length) → UndisturbedBy form (args.take k) args[k]

instance (form : Bytes) (earlier : List Bytes) (arg : Bytes) : Decidable (UndisturbedBy form earlier arg) :=
  inferInstanceAs (Decidable (_ ∧ _))

instance (form : Bytes) (args : List Bytes) : Decidable (Undisturbed form args) :=
  inferInstanceAs (Decidable (∀ k, (hk : k < args.length) → UndisturbedBy form (args.take k) args[k]))

theorem Undisturbed.at_append {form a : Bytes} {earlier later : List Bytes}
    (h : Undisturbed form (earlier ++ a :: later)) : UndisturbedBy form earlier a := by
  have hk : earlier.length < (earlier ++ a :: later).length := by simp
  have hat := h earlier.length hk
  rw [List.take_left] at hat
  simpa using hat

theorem undisturbed_concat {form a : Bytes} {args : List Bytes} (h : Undisturbed form args) :
    Undisturbed form (args ++ [a]) ↔ UndisturbedBy form args a := by
  constructor
  · exact fun hall => hall.at_append
  · intro ha k hk
    rcases Nat.lt_or_ge k args.length with hlt | hge
    · rw [List.take_append_of_le_length hlt.le, List.getElem_append_left hlt]
      exact h k hlt
    · rw [List.length_append, List.length_singleton] at hk
      obtain rfl : k = args.length := by omega
      rw [List.take_left]
      simpa using ha

/-- The placeholders of a later argument in the text with the earlier ones put in: those of the format
string, and those in the parts between them. -/
theorem occurrences_onePass {args : List Bytes} {form : Bytes} {k : ℕ} (hk : args.length ≤ k)
    {parts : List Bytes} (h : Parts (placeholder k) form parts) :
    occurrences (placeholder k) (onePass args form) = occurrences (placeholder k) form +
      ((parts.map (onePass args)).map (occurrences (placeholder k))).sum := by
  have hne : parts.map (onePass args) ≠ [] := mt List.map_eq_nil_iff.mp h.intercalate_eq.1
  have hlen := h.length_eq (headOnly_placeholder k)
  have hsum := occurrences_intercalate (headOnly_placeholder k) hne
  rw [onePass_of_parts hk h]
  rw [List.length_map] at hsum
  omega

/-- Without further placeholders the parts between them are those of the format string, with the
earlier arguments put in. -/
theorem parts_onePass {args : List Bytes} {form : Bytes} {k : ℕ} (hk : args.length ≤ k)
    {parts : List Bytes} (h : Parts (placeholder k) form parts)
    (hcount : occurrences (placeholder k) (onePass args form) = occurrences (placeholder k) form) :
    Parts (placeholder k) (onePass args form) (parts.map (onePass args)) := by
  have hne : parts.map (onePass args) ≠ [] := mt List.map_eq_nil_iff.mp h.intercalate_eq.1
  have hsum : ((parts.map (onePass args)).map (occurrences (placeholder k))).sum = 0 := by
    have hplus := occurrences_onePass hk h
    omega
  rw [onePass_of_parts hk h]
  refine parts_intercalate (headOnly_placeholder k) hne fun part hpart => occurrences_eq_zero.mp ?_
  exact List.sum_eq_zero_iff_forall_eq_nat.mp hsum _ (List.mem_map_of_mem hpart)

/-- **An undisturbed step of `unpack` puts in one more argument.** -/
theorem formatHelper_eq {args : List Bytes} {form : Bytes} {a : Arg}
    (h : UndisturbedBy form args a.str) :
    formatHelper args.length (onePass args form) a = onePass (args ++ [a.str]) form := by
  obtain ⟨hcount, hliteral⟩ := h
  obtain ⟨parts, hparts⟩ := exists_parts (headOnly_placeholder args.length).ne_nil form
  have hne : parts.map (onePass args) ≠ [] := mt List.map_eq_nil_iff.mp hparts.intercalate_eq.1
  unfold formatHelper
  rw [regexReplace_of_parts (headOnly_placeholder _).ne_nil (parts_onePass le_rfl hparts hcount),
    onePass_concat hparts]
  by_cases hnone : occurrences (placeholder args.length) form = 0
  · obtain ⟨part, rfl⟩ := List.length_eq_one_iff.mp
      (hnone ▸ hparts.length_eq (headOnly_placeholder args.length))
    exact List.intercalate_singleton.symm
  · exact replaceParts_eq (hliteral hnone) _ hne

/-- The steps of `unpack` put in the arguments that are left. -/
theorem unpack_eq {form : Bytes} {args : List Arg} {earlier : List Bytes}
    (h : Undisturbed form (earlier ++ args.map Arg.str)) :
    unpack earlier.length (onePass earlier form) args = onePass (earlier ++ args.map Arg.str) form := by
  induction args generalizing earlier with
  | nil =>
    rw [List.map_nil, List.append_nil]
    rfl
  | cons a args ih =>
    have hlen : (earlier ++ [a.str]).length = earlier.length + 1 := List.length_append
    have happend : earlier ++ (a :: args).map Arg.str = earlier ++ [a.str] ++ args.map Arg.str := by
      rw [List.append_assoc]
      rfl
    unfold unpack
    rw [formatHelper_eq h.at_append, ← hlen, happend]
    exact ih (happend ▸ h)

/-- **If no argument is disturbed, `format` is the one pass.** -/
theorem format_eq {form : Bytes} {args : List Arg} (h : Undisturbed form (args.map Arg.str)) :
    format form args = onePass (args.map Arg.str) form := by
  have hunpack := @unpack_eq form args [] h
  rw [onePass_nil] at hunpack
  exact hunpack

theorem unpack_append (i : ℕ) (form : Bytes) (args : List Arg) (a : Arg) :
    unpack i form (args ++ [a]) = formatHelper (i + args.length) (unpack i form args) a := by
  induction args generalizing i form with
  | nil => rfl
  | cons b args ih =>
    rw [List.cons_append]
    unfold unpack
    rw [ih, List.length_cons, Nat.add_right_comm, Nat.add_assoc]

/-- The last argument has to be undisturbed, unless it is taken for its own placeholder. -/
theorem format_concat_iff {form : Bytes} {args : List Arg} {a : Arg}
    (h : Undisturbed form (args.map Arg.str)) (hliteral : literal a.str = true)
    (hself : a.str ≠ placeholder args.length) :
    format form (args ++ [a]) = onePass ((args ++ [a]).map Arg.str) form ↔
      Undisturbed form ((args ++ [a]).map Arg.str) := by
  refine ⟨fun heq => ?_, format_eq⟩
  have hlen : (args.map Arg.str).length = args.length := List.length_map _
  have hsep := headOnly_placeholder args.length
  obtain ⟨parts, hparts⟩ := exists_parts hsep.ne_nil form
  obtain ⟨found, hfound⟩ := exists_parts hsep.ne_nil (onePass (args.map Arg.str) form)
  have hne : parts.map (onePass (args.map Arg.str)) ≠ [] :=
    mt List.map_eq_nil_iff.mp hparts.intercalate_eq.1
  have hrendered := onePass_of_parts hlen.le hparts
  have hformat : format form (args ++ [a]) = a.str.intercalate found := by
    have happend := unpack_append 0 form args a
    rw [Nat.zero_add] at happend
    have hearlier : unpack 0 form args = onePass (args.map Arg.str) form := format_eq h
    unfold format
    rw [happend, hearlier]
    unfold formatHelper
    rw [regexReplace_of_parts hsep.ne_nil hfound, replaceParts_eq hliteral _ hfound.intercalate_eq.1]
  have hpass : onePass ((args ++ [a]).map Arg.str) form =
      a.str.intercalate (parts.map (onePass (args.map Arg.str))) := by
    rw [List.map_append]
    exact onePass_concat (hlen ▸ hparts) a.str
  rw [hformat, hpass] at heq
  have hzero := hfound.free_of_intercalate_eq hsep hself hne hrendered heq
  have hcount := occurrences_onePass hlen.le hparts
  rw [hzero, Nat.add_zero] at hcount
  rw [List.map_append]
  exact (undisturbed_concat h).mpr ⟨hlen.symm ▸ hcount, fun _ => hliteral⟩

/-- A single argument is put in everywhere exactly if it is taken as it is. -/
theorem format_singleton_iff (a : Arg) :
    (∀ form, format form [a] = onePass [a.str] form) ↔ literal a.str = true := by
  constructor
  · intro h
    by_contra hliteral
    have hparts : Parts (placeholder 0) (placeholder 0) [[], []] :=
      Parts.cut (rfl : firstAt (placeholder 0) (placeholder 0) = some 0) (Parts.last rfl)
    have hformat : format (placeholder 0) [a] = expand [] (placeholder 0) [] a.str := by
      change regexReplace (placeholder 0) (placeholder 0) a.str = _
      rw [regexReplace_of_parts (headOnly_placeholder 0).ne_nil hparts]
      exact List.append_nil _
    have hpass : onePass [a.str] (placeholder 0) = a.str := by
      have hplaceholder := @onePass_placeholder [a.str] 0 Nat.one_pos []
      rw [List.append_nil] at hplaceholder
      exact hplaceholder.trans (List.append_nil _)
    have hcount := count_expand (dollar_notMem_placeholder 0) (Bool.eq_false_iff.mpr hliteral)
    rw [← hformat, h, hpass] at hcount
    exact lt_irrefl _ hcount
  · intro hliteral form
    refine format_eq fun k hk => ?_
    obtain rfl : k = 0 := Nat.lt_one_iff.mp hk
    exact ⟨congrArg (occurrences (placeholder 0)) (onePass_nil form), fun _ => hliteral⟩

/-- **`format` is the one pass if no argument is disturbed.** For one more argument than that, which
is taken as it is and not for its own placeholder, it is so only if that argument is not disturbed
either; for a single argument and every format string, only if it is taken as it is. -/
theorem format_onePass_iff (form : Bytes) (args : List Arg) (a : Arg) :
    (Undisturbed form (args.map Arg.str) → format form args = onePass (args.map Arg.str) form) ∧
      (Undisturbed form (args.map Arg.str) → literal a.str = true → a.str ≠ placeholder args.length →
        (format form (args ++ [a]) = onePass ((args ++ [a]).map Arg.str) form ↔
          Undisturbed form ((args ++ [a]).map Arg.str))) ∧
      ((∀ form, format form [a] = onePass [a.str] form) ↔ literal a.str = true) :=
  ⟨format_eq, fun h hliteral hself => format_concat_iff h hliteral hself, format_singleton_iff a⟩

/-- `{1}: {0} {1}`. -/
def labelled : Bytes := [123, 49, 125, 58, 32, 123, 48, 125, 32, 123, 49, 125]

/-- Two arguments, with braces and a `$` that are not special, and one more for which there is no
placeholder. -/
theorem format_onePass_labelled :
    Undisturbed labelled ([Arg.text [123, 120, 36, 125], .integral (-7)].map Arg.str) ∧
      format labelled [.text [123, 120, 36, 125], .integral (-7)] =
        [45, 55, 58, 32, 123, 120, 36, 125, 32, 45, 55] ∧
      Undisturbed labelled ([Arg.text [123, 120, 36, 125], .integral (-7), .text [121]].map Arg.str) := by
  have hundisturbed : Undisturbed labelled ([Arg.text [123, 120, 36, 125], .integral (-7)].map Arg.str) := by
    decide +kernel
  obtain ⟨hpass, hmore, -⟩ :=
    format_onePass_iff labelled [.text [123, 120, 36, 125], .integral (-7)] (.text [121])
  refine ⟨hundisturbed, (hpass hundisturbed).trans (by decide +kernel), ?_⟩
  exact (hmore hundisturbed (by decide) (by decide +kernel)).mp (by decide +kernel)

/-- An argument whose text is the placeholder of the next one. -/
theorem format_placeholder_argument :
    format [123, 48, 125, 32, 123, 49, 125] [.text [123, 49, 125], .text [120]] ≠
      onePass ([Arg.text [123, 49, 125], .text [120]].map Arg.str) [123, 48, 125, 32, 123, 49, 125] := by
  decide +kernel

/-- The two can agree by accident: here the placeholders of the first argument give way to `{1` and
`}{2}`, which together are the same text again. -/
example :
    format [123, 48, 125]
        [.text [123, 49, 125, 123, 50, 125], .text [123, 49], .text [125, 123, 50, 125]] =
      onePass [[123, 49, 125, 123, 50, 125], [123, 49], [125, 123, 50, 125]] [123, 48, 125] := by
  decide +kernel

end NetworkDriver.Util.Formatting.Simultaneous
