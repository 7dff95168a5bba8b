import NetworkDriver.Util.Splitting

/-! # Formatting with placeholders

`util::format` replaces the placeholders of one argument after the other, each in the text the ones
before it left. The pattern of `std::regex_replace` is the placeholder with its braces escaped, so
that it matches the placeholder and nothing else; what stands between the matches are the parts
between the placeholders. The replacement is in the syntax of ECMAScript, in which some characters
behind a `$` are special.

* `expand_eq`: a replacement without a special character behind a `$` is taken as it is.
* `count_expand`: any other loses a `$`, if there is nothing around the match.
* `headOnly_placeholder`, `placeholder_inj`: placeholders neither overlap nor begin with one
  another.
* `regexReplace_of_parts`: such a replacement is put between the parts. -/

namespace NetworkDriver.Util.Formatting.Model

open NetworkDriver.Library.Separators
open NetworkDriver.Util.Format NetworkDriver.Util.Splitting

/-- An argument of `format`: a string, or an integer of some type. -/
inductive Arg
  | text (arg : Bytes)
  | integral (arg : ℤ)
  deriving DecidableEq, Repr

/-- The argument as a string; `std::to_string` for an integer. -/
def Arg.str : Arg → Bytes
  | text arg => arg
  | integral arg => decimal arg

/-- `'$'`. -/
def dollar : UInt8 := 36

/-- `'&'`. -/
def ampersand : UInt8 := 38

/-- The apostrophe. -/
def apostrophe : UInt8 := 39

/-- The backquote. -/
def backquote : UInt8 := 96

/-- `'{'`. -/
def leftBrace : UInt8 := 123

/-- `'}'`. -/
def rightBrace : UInt8 := 125

/-- The characters that mean something behind a `$`. -/
def isSpecial (c : UInt8) : Bool :=
  c = dollar || c = ampersand || c = backquote || c = apostrophe || isDigit c

/-- What `$n` stands for: the pattern has no groups, so `0` is the match and any other number
nothing. -/
def group (whole : Bytes) (n : ℕ) : Bytes := if n = 0 then whole else []

/-- What has been read of a sequence behind a `$`. -/
inductive Pending
  | none
  | dollar
  | digit (d : UInt8)

/-- `std::match_results::format` for the match `whole` between `before` and `behind`: what becomes
of the rest of a replacement. -/
def expandFrom (before whole behind : Bytes) : Pending → Bytes → Bytes
  | .none, [] => []
  | .dollar, [] => [dollar]
  | .digit d, [] => group whole (digitsValue [d])
  | .none, c :: arg =>
    if c = dollar then expandFrom before whole behind .dollar arg
    else c :: expandFrom before whole behind .none arg
  | .dollar, c :: arg =>
    if c = dollar then dollar :: expandFrom before whole behind .none arg
    else if c = ampersand then whole ++ expandFrom before whole behind .none arg
    else if c = backquote then before ++ expandFrom before whole behind .none arg
    else if c = apostrophe then behind ++ expandFrom before whole behind .none arg
    else if isDigit c then expandFrom before whole behind (.digit c) arg
    else dollar :: c :: expandFrom before whole behind .none arg
  | .digit d, c :: arg =>
    if isDigit c then group whole (digitsValue [d, c]) ++ expandFrom before whole behind .none arg
    else group whole (digitsValue [d]) ++
      if c = dollar then expandFrom before whole behind .dollar arg
      else c :: expandFrom before whole behind .none arg

def expand (before whole behind arg : Bytes) : Bytes := expandFrom before whole behind .none arg

/-- The parts of a text with an expanded replacement for each match of `whole` between them. -/
def replaceParts (whole arg : Bytes) : List Bytes → Bytes
  | [] => []
  | [part] => part
  | part :: next :: parts =>
    part ++ expand part whole (whole.intercalate (next :: parts)) arg ++
      replaceParts whole arg (next :: parts)

/-- The placeholder of the `i`-th argument. -/
def placeholder (i : ℕ) : Bytes := leftBrace :: (decimalDigits i ++ [rightBrace])

/-- `std::regex_replace` with the pattern that matches a placeholder. -/
def regexReplace (form whole arg : Bytes) : Bytes :=
  match splitString form whole with
  | some parts => replaceParts whole arg parts
  | none => form

/-- `detail::format_helper`. -/
def formatHelper (i : ℕ) (form : Bytes) (arg : Arg) : Bytes := regexReplace form (placeholder i) arg.str

/-- `detail::unpack`. -/
def unpack (i : ℕ) (form : Bytes) : List Arg → Bytes
  | [] => form
  | arg :: args => unpack (i + 1) (formatHelper i form arg) args

/-- `util::format`. There is at least one argument in the source. -/
def format (form : Bytes) (args : List Arg) : Bytes := unpack 0 form args

/-! ### Replacements -/

/-- No character is special behind the one before it. -/
def literal : Bytes → Bool
  | c :: d :: arg => !(c = dollar && isSpecial d) && literal (d :: arg)
  | _ => true

theorem literal_cons_cons (c d : UInt8) (arg : Bytes) :
    literal (c :: d :: arg) = (!(c = dollar && isSpecial d) && literal (d :: arg)) := rfl

theorem literal_cons {c : UInt8} (hc : c ≠ dollar) (arg : Bytes) : literal (c :: arg) = literal arg := by
  rcases arg with _ | ⟨d, arg⟩
  · rfl
  · rw [literal_cons_cons, decide_eq_false hc, Bool.false_and, Bool.not_false, Bool.true_and]

theorem literal_dollar_cons (c : UInt8) (arg : Bytes) :
    literal (dollar :: c :: arg) = (!isSpecial c && literal (c :: arg)) := rfl

theorem isSpecial_eq_false {c : UInt8} (h : isSpecial c = false) :
    c ≠ dollar ∧ c ≠ ampersand ∧ c ≠ backquote ∧ c ≠ apostrophe ∧ isDigit c = false := by
  unfold isSpecial at h
  simpa [not_or, and_assoc] using h

/-- A character that is not special leaves the `$` in front of it as it is. -/
theorem expandFrom_dollar_cons {c : UInt8} (h : isSpecial c = false) (before whole behind arg : Bytes) :
    expandFrom before whole behind .dollar (c :: arg) =
      dollar :: c :: expandFrom before whole behind .none arg := by
  obtain ⟨h1, h2, h3, h4, h5⟩ := isSpecial_eq_false h
  conv_lhs => unfold expandFrom
  rw [if_neg h1, if_neg h2, if_neg h3, if_neg h4, if_neg (by rw [h5]; decide)]

theorem expandFrom_literal (before whole behind arg : Bytes) :
    (literal arg = true → expandFrom before whole behind .none arg = arg) ∧
      (literal (dollar :: arg) = true → expandFrom before whole behind .dollar arg = dollar :: arg) := by
  induction arg with
  | nil => exact ⟨fun _ => rfl, fun _ => rfl⟩
  | cons c arg ih =>
    refine ⟨fun h => ?_, fun h => ?_⟩
    · unfold expandFrom
      by_cases hc : c = dollar
      · rw [if_pos hc, ih.2 (hc ▸ h), hc]
      · rw [if_neg hc, ih.1 (literal_cons hc arg ▸ h)]
    · rw [literal_dollar_cons, Bool.and_eq_true, Bool.not_eq_true'] at h
      have hc := (isSpecial_eq_false h.1).1
      rw [expandFrom_dollar_cons h.1, ih.1 (literal_cons hc arg ▸ h.2)]

/-- **A replacement without a special character behind a `$` is taken as it is.** -/
theorem expand_eq {arg : Bytes} (h : literal arg = true) (before whole behind : Bytes) :
    expand before whole behind arg = arg :=
  (expandFrom_literal before whole behind arg).1 h

theorem count_group {whole : Bytes} (h : dollar ∉ whole) (n : ℕ) : (group whole n).count dollar = 0 := by
  unfold group
  split_ifs
  · exact List.count_eq_zero.mpr h
  · rfl

/-- With nothing around the match, every special character costs a `$`. -/
theorem count_expandFrom {whole : Bytes} (h : dollar ∉ whole) (arg : Bytes) :
    ((expandFrom [] whole [] .none arg).count dollar ≤ arg.count dollar ∧
      (literal arg = false → (expandFrom [] whole [] .none arg).count dollar < arg.count dollar)) ∧
    ((expandFrom [] whole [] .dollar arg).count dollar ≤ arg.count dollar + 1 ∧
      (literal (dollar :: arg) = false →
        (expandFrom [] whole [] .dollar arg).count dollar < arg.count dollar + 1)) ∧
    ∀ d, (expandFrom [] whole [] (.digit d) arg).count dollar ≤ arg.count dollar := by
  have hwhole : whole.count dollar = 0 := List.count_eq_zero.mpr h
  induction arg with
  | nil =>
    refine ⟨⟨le_rfl, nofun⟩, ⟨le_rfl, nofun⟩, fun d => ?_⟩
    exact (count_group h _).le
  | cons c arg ih =>
    obtain ⟨⟨hnone, hnone'⟩, ⟨hdollar, hdollar'⟩, hdigit⟩ := ih
    refine ⟨?_, ?_, fun d => ?_⟩
    · unfold expandFrom
      by_cases hc : c = dollar
      · rw [if_pos hc, hc, List.count_cons_self]
        exact ⟨hdollar, hdollar'⟩
      · rw [if_neg hc, List.count_cons_of_ne hc, List.count_cons_of_ne hc, literal_cons hc]
        exact ⟨hnone, hnone'⟩
    · have hle := List.count_le_count_cons (a := dollar) (b := c) (l := arg)
      by_cases hspecial : isSpecial c = true
      · suffices hlt : (expandFrom [] whole [] .dollar (c :: arg)).count dollar <
            (c :: arg).count dollar + 1 from ⟨hlt.le, fun _ => hlt⟩
        unfold expandFrom
        split_ifs with h1 h2 h3 h4 h5
        · rw [h1, List.count_cons_self, List.count_cons_self]
          omega
        · rw [List.count_append, hwhole]
          omega
        · rw [List.nil_append]
          omega
        · rw [List.nil_append]
          omega
        · exact Nat.lt_succ_of_le ((hdigit c).trans hle)
        · unfold isSpecial at hspecial
          simp [h1, h2, h3, h4, h5] at hspecial
      · have hplain : isSpecial c = false := Bool.eq_false_iff.mpr hspecial
        have hc := (isSpecial_eq_false hplain).1
        rw [expandFrom_dollar_cons hplain, literal_dollar_cons, hplain, literal_cons hc,
          List.count_cons_self, List.count_cons_of_ne hc, List.count_cons_of_ne hc]
        exact ⟨Nat.succ_le_succ hnone, fun hlit => Nat.succ_lt_succ (hnone' hlit)⟩
    · unfold expandFrom
      split_ifs with h1 h2
      · rw [List.count_append, count_group h]
        have hle := List.count_le_count_cons (a := dollar) (b := c) (l := arg)
        omega
      · rw [List.count_append, count_group h, h2, List.count_cons_self]
        omega
      · rw [List.count_append, count_group h, List.count_cons_of_ne h2, List.count_cons_of_ne h2]
        omega

/-- **Any other replacement loses a `$`, if there is nothing around the match.** -/
theorem count_expand {whole arg : Bytes} (h : dollar ∉ whole) (harg : literal arg = false) :
    (expand [] whole [] arg).count dollar < arg.count dollar :=
  (count_expandFrom h arg).1.2 harg

/-! ### Placeholders -/

theorem notMem_decimalDigits {c : UInt8} (hc : isDigit c = false) (i : ℕ) : c ∉ decimalDigits i := by
  intro hmem
  rw [isDigit_of_mem i c hmem] at hc
  cases hc

/-- A placeholder has a left brace in front and nowhere else. -/
theorem headOnly_placeholder (i : ℕ) : HeadOnly (placeholder i) := by
  change leftBrace ∉ decimalDigits i ++ [rightBrace]
  rw [List.mem_append, not_or]
  exact ⟨notMem_decimalDigits rfl i, by decide⟩

theorem dollar_notMem_placeholder (i : ℕ) : dollar ∉ placeholder i := by
  unfold placeholder
  rw [List.mem_cons, List.mem_append, not_or, not_or]
  exact ⟨by decide, notMem_decimalDigits rfl i, by decide⟩

/-- **No placeholder begins with another one.** -/
theorem placeholder_inj {i j : ℕ} {rest : Bytes} (h : placeholder i <+: placeholder j ++ rest) :
    i = j := by
  obtain ⟨rest', hrest⟩ := h
  have hcons : decimalDigits i ++ rightBrace :: rest' = decimalDigits j ++ rightBrace :: rest := by
    simpa [placeholder] using hrest
  -- the digits end at the right brace
  have hdigits := congrArg (fun str => (split str rightBrace).head?) hcons
  rw [split_append (notMem_decimalDigits rfl i), split_append (notMem_decimalDigits rfl j)] at hdigits
  have hvalue := congrArg digitsValue (Option.some.inj hdigits)
  rw [digitsValue_decimalDigits, digitsValue_decimalDigits] at hvalue
  exact hvalue

/-! ### Replacing -/

/-- A replacement that is taken as it is stands between the parts. -/
theorem replaceParts_eq {arg : Bytes} (h : literal arg = true) (whole : Bytes) {parts : List Bytes}
    (hne : parts ≠ []) : replaceParts whole arg parts = arg.intercalate parts := by
  induction parts with
  | nil => exact absurd rfl hne
  | cons part parts ih =>
    rcases parts with _ | ⟨next, parts⟩
    · exact List.intercalate_singleton.symm
    · unfold replaceParts
      rw [expand_eq h, ih (List.cons_ne_nil _ _), List.intercalate_cons_cons]

/-- **The matches are what stands between the parts.** -/
theorem regexReplace_of_parts {form whole : Bytes} {parts : List Bytes} (hwhole : whole ≠ [])
    (h : Parts whole form parts) (arg : Bytes) :
    regexReplace form whole arg = replaceParts whole arg parts := by
  unfold regexReplace
  rw [(splitString_eq_some hwhole).mpr h]

end NetworkDriver.Util.Formatting.Model
