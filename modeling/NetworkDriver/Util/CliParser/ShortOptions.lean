import NetworkDriver.Util.CliParser.Parsing

/-! # Short options

`Reads` is what a token of short options says: flags up to the first one with a value, which takes
the rest of the token or the next argument. The loop of `parse_shortform_opt` does not stop after a
value that it took from the token, and reads the characters of the value as options too. That goes
unseen exactly if they name only flags recorded before, up to the first one that names nothing
(`ValueInert`).

* `meets_iff`: one token.
* `shortform_iff`: all tokens of a command line. -/

namespace NetworkDriver.Util.CliParser.ShortOptions

open NetworkDriver.Library.RedBlack
open NetworkDriver.Util.CliParser.Model NetworkDriver.Util.CliParser.Parsing NetworkDriver.Util.Format

/-- No two options have the same shortform. -/
def DistinctShortforms (options : OptionSet) : Prop :=
  ∀ o ∈ options.toList, ∀ o' ∈ options.toList,
    o.shortform = o'.shortform → o.shortform ≠ noShortform → o = o'

instance (options : OptionSet) : Decidable (DistinctShortforms options) :=
  inferInstanceAs (Decidable (∀ o ∈ options.toList, ∀ o' ∈ options.toList,
    o.shortform = o'.shortform → o.shortform ≠ noShortform → o = o'))

/-- What the characters of a token say, before the arguments `rest`: the ids and values found, and the
arguments that are left or the exception. -/
inductive Reads (options : OptionSet) :
    Bytes → List Argument → List (Bytes × Option Bytes) → Except Bytes (List Argument) → Prop
  | finished {rest} : Reads options [] rest [] (.ok rest)
  | unknown {c opt rest} (hc : ∀ o ∈ options.toList, o.shortform ≠ c) :
      Reads options (c :: opt) rest [] (.ok rest)
  | flag {o opt rest found result} (ho : o ∈ options.toList) (hflag : o.hasValue = false)
      (h : Reads options opt rest found result) :
      Reads options (o.shortform :: opt) rest ((o.id, none) :: found) result
  | attached {o opt rest} (ho : o ∈ options.toList) (hvalue : o.hasValue = true) (hopt : opt ≠ []) :
      Reads options (o.shortform :: opt) rest [(o.id, some opt)] (.ok rest)
  | next {o arg rest} (ho : o ∈ options.toList) (hvalue : o.hasValue = true)
      (harg : startsWith arg.text [dash] = false) :
      Reads options [o.shortform] (arg :: rest) [(o.id, some arg.text)] (.ok rest)
  | missing {o rest} (ho : o ∈ options.toList) (hvalue : o.hasValue = true)
      (hrest : ∀ arg ∈ rest.head?, startsWith arg.text [dash] = true) :
      Reads options [o.shortform] rest [(o.id, none)] (.error (missingShortform o.shortform))

/-- An id that was found, with its value. -/
def recordFound (parsed : ResultMap) (found : Bytes × Option Bytes) : ResultMap :=
  match found.2 with
  | none => record parsed found.1
  | some value => addValue (record parsed found.1) found.1 value

def recordAll (parsed : ResultMap) (found : List (Bytes × Option Bytes)) : ResultMap :=
  found.foldl recordFound parsed

/-- A turn of the loop does what the token `-opt` says, and no more. -/
def Interpreted (options : OptionSet) (opt : Bytes) (arg : Argument) (rest : List Argument)
    (parsed : ResultMap) : Prop :=
  ∃ found result, Reads options opt rest found result ∧
    iteration options arg rest parsed = (result, recordAll parsed found)

/-- Up to the first character that names no option, all name flags recorded before. -/
def Inert (options : OptionSet) (parsed : ResultMap) : Bytes → Prop
  | [] => True
  | c :: opt =>
    match findShortform options c with
    | none => True
    | some o => o.hasValue = false ∧ (valuesOf parsed o.id).isSome = true ∧ Inert options parsed opt

/-- If an option of the token takes its value from the token, nothing new is read in that. -/
def ValueInert (options : OptionSet) : Bytes → ResultMap → Prop
  | [], _ => True
  | c :: opt, parsed =>
    match findShortform options c with
    | none => True
    | some o =>
      if o.hasValue then Inert options (record parsed o.id) opt
      else ValueInert options opt (record parsed o.id)

/-- A property of every token of short options that `parse` comes to. -/
def EachShort (options : OptionSet) (args : List Argument) (parsed : ResultMap)
    (P : Bytes → Argument → List Argument → ResultMap → Prop) : Prop :=
  ∀ arg rest parsed', Reached options args parsed (arg :: rest, parsed') →
    ∀ c opt, arg.text = dash :: c :: opt → c ≠ dash → P (c :: opt) arg rest parsed'

theorem findShortform_eq {options : OptionSet} (hdist : DistinctShortforms options) {c : UInt8}
    (hc : c ≠ noShortform) {o : CliOption} :
    findShortform options c = some o ↔ o ∈ options.toList ∧ o.shortform = c := by
  have found : ∀ o, findShortform options c = some o → o ∈ options.toList ∧ o.shortform = c := by
    intro o h
    have hname := List.find?_some h
    exact ⟨List.mem_of_find?_eq_some h, beq_iff_eq.mp hname⟩
  refine ⟨found o, fun ⟨ho, hname⟩ => ?_⟩
  cases hf : findShortform options c with
  | none =>
    have hne := List.find?_eq_none.mp hf o ho
    exact absurd (beq_iff_eq.mpr hname) hne
  | some o' =>
    obtain ⟨ho', hname'⟩ := found o' hf
    rw [hdist o' ho' o ho (hname'.trans hname.symm) (hname' ▸ hc)]

theorem findShortform_none {options : OptionSet} {c : UInt8} :
    findShortform options c = none ↔ ∀ o ∈ options.toList, o.shortform ≠ c := by
  unfold findShortform
  simp

/-! ### The characters of a value -/

theorem inert_congr {options : OptionSet} {parsed parsed' : ResultMap}
    (h : ∀ id, (valuesOf parsed id).isSome = (valuesOf parsed' id).isSome) (opt : Bytes) :
    Inert options parsed opt ↔ Inert options parsed' opt := by
  induction opt with
  | nil => exact Iff.rfl
  | cons c opt ih =>
    unfold Inert
    split
    · exact Iff.rfl
    · rw [h, ih]

theorem parse_of_inert {options : OptionSet} {opt : Bytes} {parsed : ResultMap}
    (h : Inert options parsed opt) (args : List Argument) :
    parseShortformOpt options opt args parsed = (.ok args, parsed) := by
  induction opt with
  | nil => rfl
  | cons c opt ih =>
    unfold Inert at h
    unfold parseShortformOpt
    cases hfind : findShortform options c with
    | none => rfl
    | some o =>
      rw [hfind] at h
      obtain ⟨hflag, hcontains, hopt⟩ := h
      simp only [hflag, Bool.false_eq_true, ↓reduceIte]
      rw [record_of_contains hcontains]
      exact ih hopt

/-- An option that is given another value is not as it was. -/
theorem not_grows_addValue (parsed : ResultMap) (id value : Bytes) :
    ¬Grows (addValue (record parsed id) id value) parsed := by
  intro h
  cases hv : valuesOf parsed id with
  | none =>
    obtain ⟨more, hmore⟩ := h id [value] (by rw [valuesOf_addValue, valuesOf_record, hv]; simp)
    rw [hv] at hmore
    cases hmore
  | some values =>
    obtain ⟨more, hmore⟩ := h id (values ++ [value]) (by rw [valuesOf_addValue, valuesOf_record, hv]; simp)
    rw [hv] at hmore
    have hlength := congrArg List.length (Option.some.inj hmore)
    simp only [List.length_append, List.length_singleton] at hlength
    omega

theorem inert_of_unchanged {options : OptionSet} {opt : Bytes} {args args' : List Argument}
    {parsed : ResultMap} (h : parseShortformOpt options opt args parsed = (.ok args', parsed)) :
    Inert options parsed opt := by
  induction opt generalizing args with
  | nil => trivial
  | cons c opt ih =>
    unfold Inert
    unfold parseShortformOpt at h
    split
    · trivial
    · rename_i o hsome
      rw [hsome] at h
      dsimp only at h
      have valued : ∀ args value, parseShortformOpt options opt args
          (addValue (record parsed o.id) o.id value) = (.ok args', parsed) → False := by
        intro args value hparse
        have hgrows := grows_parseShortformOpt options opt args (addValue (record parsed o.id) o.id value)
        rw [hparse] at hgrows
        exact not_grows_addValue parsed o.id value hgrows
      split_ifs at h with hvalue hopt
      · exact (valued _ _ h).elim
      · cases htail : args.tail with
        | nil =>
          rw [htail] at h
          cases h
        | cons arg rest =>
          rw [htail] at h
          dsimp only at h
          split_ifs at h
          · cases h
          · exact (valued _ _ h).elim
      · have hgrows := grows_parseShortformOpt options opt args (record parsed o.id)
        rw [h] at hgrows
        have hcontains : (valuesOf parsed o.id).isSome = true := by
          cases hv : valuesOf parsed o.id with
          | some values => rfl
          | none =>
            obtain ⟨more, hmore⟩ := hgrows o.id [] (by rw [valuesOf_record, hv]; simp)
            rw [hv] at hmore
            cases hmore
        rw [record_of_contains hcontains] at h
        exact ⟨Bool.not_eq_true _ ▸ hvalue, hcontains, ih h⟩

/-! ### A token -/

/-- What the function returns, without the argument of the token, is what the characters say. -/
def Meets (options : OptionSet) (opt : Bytes) (arg : Argument) (rest : List Argument)
    (parsed : ResultMap) : Prop :=
  ∃ found result, Reads options opt rest found result ∧
    (parseShortformOpt options opt (arg :: rest) parsed).1.map List.tail = result ∧
    (parseShortformOpt options opt (arg :: rest) parsed).2 = recordAll parsed found

section Token

variable {options : OptionSet} (hdist : DistinctShortforms options) {o : CliOption} {opt : Bytes}
  {arg : Argument} {rest : List Argument} {parsed : ResultMap}

include hdist

theorem reads_flag (ho : o ∈ options.toList) (hc : o.shortform ≠ noShortform) (hflag : o.hasValue = false)
    {found : List (Bytes × Option Bytes)} {result : Except Bytes (List Argument)} :
    Reads options (o.shortform :: opt) rest found result ↔
      ∃ tail, found = (o.id, none) :: tail ∧ Reads options opt rest tail result := by
  constructor
  · intro h
    generalize hname : o.shortform = c at h
    cases h with
    | unknown hunknown => exact absurd hname (hunknown o ho)
    | flag ho' _ h =>
      obtain rfl := hdist _ ho _ ho' hname hc
      exact ⟨_, rfl, h⟩
    | attached ho' hvalue _ =>
      obtain rfl := hdist _ ho _ ho' hname hc
      rw [hflag] at hvalue
      cases hvalue
    | next ho' hvalue _ =>
      obtain rfl := hdist _ ho _ ho' hname hc
      rw [hflag] at hvalue
      cases hvalue
    | missing ho' hvalue _ =>
      obtain rfl := hdist _ ho _ ho' hname hc
      rw [hflag] at hvalue
      cases hvalue
  · rintro ⟨tail, rfl, h⟩
    exact .flag ho hflag h

theorem reads_attached (ho : o ∈ options.toList) (hc : o.shortform ≠ noShortform)
    (hvalue : o.hasValue = true) (hopt : opt ≠ []) {found : List (Bytes × Option Bytes)}
    {result : Except Bytes (List Argument)} :
    Reads options (o.shortform :: opt) rest found result ↔
      found = [(o.id, some opt)] ∧ result = .ok rest := by
  constructor
  · intro h
    generalize hname : o.shortform = c at h
    cases h with
    | unknown hunknown => exact absurd hname (hunknown o ho)
    | flag ho' hflag _ =>
      obtain rfl := hdist _ ho _ ho' hname hc
      rw [hvalue] at hflag
      cases hflag
    | attached ho' _ _ =>
      obtain rfl := hdist _ ho _ ho' hname hc
      exact ⟨rfl, rfl⟩
    | next _ _ _ => exact absurd rfl hopt
    | missing _ _ _ => exact absurd rfl hopt
  · rintro ⟨rfl, rfl⟩
    exact .attached ho hvalue hopt

omit hdist in
theorem meets_unknown {c : UInt8} (hc : ∀ o ∈ options.toList, o.shortform ≠ c) :
    Meets options (c :: opt) arg rest parsed := by
  refine ⟨[], .ok rest, .unknown hc, ?_⟩
  unfold parseShortformOpt
  rw [findShortform_none.mpr hc]
  exact ⟨rfl, rfl⟩

theorem meets_flag (ho : o ∈ options.toList) (hc : o.shortform ≠ noShortform) (hflag : o.hasValue = false) :
    Meets options (o.shortform :: opt) arg rest parsed ↔
      Meets options opt arg rest (record parsed o.id) := by
  have hcode : parseShortformOpt options (o.shortform :: opt) (arg :: rest) parsed =
      parseShortformOpt options opt (arg :: rest) (record parsed o.id) := by
    rw [parseShortformOpt, (findShortform_eq hdist hc).mpr ⟨ho, rfl⟩]
    simp [hflag]
  unfold Meets
  rw [hcode]
  constructor
  · rintro ⟨found, result, hreads, hresult, hparsed⟩
    obtain ⟨tail, rfl, htail⟩ := (reads_flag hdist ho hc hflag).mp hreads
    exact ⟨tail, result, htail, hresult, hparsed⟩
  · rintro ⟨tail, result, hreads, hresult, hparsed⟩
    exact ⟨(o.id, none) :: tail, result, .flag ho hflag hreads, hresult, hparsed⟩

/-- An option with a value at the end of the token takes the next argument. -/
theorem meets_last (ho : o ∈ options.toList) (hc : o.shortform ≠ noShortform) (hvalue : o.hasValue = true) :
    Meets options [o.shortform] arg rest parsed := by
  have hfind := (findShortform_eq hdist hc).mpr ⟨ho, rfl⟩
  have hmissing (hrest : ∀ arg ∈ rest.head?, startsWith arg.text [dash] = true)
      (hcode : parseShortformOpt options [o.shortform] (arg :: rest) parsed =
        (.error (missingShortform o.shortform), record parsed o.id)) :
      Meets options [o.shortform] arg rest parsed := by
    refine ⟨[(o.id, none)], _, .missing ho hvalue hrest, ?_⟩
    rw [hcode]
    exact ⟨rfl, rfl⟩
  cases rest with
  | nil =>
    refine hmissing (fun arg harg => by cases harg) ?_
    rw [parseShortformOpt, hfind]
    simp [hvalue]
  | cons next rest =>
    by_cases hdash : startsWith next.text [dash] = true
    · refine hmissing (fun arg harg => by cases harg; exact hdash) ?_
      rw [parseShortformOpt, hfind]
      simp [hvalue, hdash]
    · refine ⟨[(o.id, some next.text)], .ok rest, .next ho hvalue (Bool.not_eq_true _ ▸ hdash), ?_⟩
      have hcode : parseShortformOpt options [o.shortform] (arg :: next :: rest) parsed =
          (.ok (next :: rest), addValue (record parsed o.id) o.id next.text) := by
        rw [parseShortformOpt, hfind]
        simp [hvalue, hdash, parseShortformOpt]
      rw [hcode]
      exact ⟨rfl, rfl⟩

theorem meets_attached (ho : o ∈ options.toList) (hc : o.shortform ≠ noShortform)
    (hvalue : o.hasValue = true) (hopt : opt ≠ []) :
    Meets options (o.shortform :: opt) arg rest parsed ↔ Inert options (record parsed o.id) opt := by
  have hcode : parseShortformOpt options (o.shortform :: opt) (arg :: rest) parsed =
      parseShortformOpt options opt (arg :: rest) (addValue (record parsed o.id) o.id opt) := by
    rw [parseShortformOpt, (findShortform_eq hdist hc).mpr ⟨ho, rfl⟩]
    simp [hvalue, hopt]
  have hsame : ∀ id, (valuesOf (record parsed o.id) id).isSome =
      (valuesOf (addValue (record parsed o.id) o.id opt) id).isSome := by
    intro id
    rw [valuesOf_addValue, Option.isSome_map]
  rw [inert_congr hsame]
  unfold Meets
  rw [hcode]
  constructor
  · rintro ⟨found, result, hreads, hresult, hparsed⟩
    obtain ⟨rfl, rfl⟩ := (reads_attached hdist ho hc hvalue hopt).mp hreads
    cases hp : parseShortformOpt options opt (arg :: rest) (addValue (record parsed o.id) o.id opt) with
    | mk first second =>
      rw [hp] at hresult hparsed
      cases first with
      | error message => cases hresult
      | ok args =>
        dsimp only at hparsed
        rw [hparsed] at hp
        exact inert_of_unchanged hp
  · intro h
    refine ⟨[(o.id, some opt)], .ok rest, .attached ho hvalue hopt, ?_⟩
    rw [parse_of_inert h]
    exact ⟨rfl, rfl⟩

/-- **A token is read as it says exactly if** nothing new is read in a value that it holds. -/
theorem meets_iff (hopt : noShortform ∉ opt) :
    Meets options opt arg rest parsed ↔ ValueInert options opt parsed := by
  induction opt generalizing parsed with
  | nil => exact ⟨fun _ => trivial, fun _ => ⟨[], .ok rest, .finished, rfl, rfl⟩⟩
  | cons c opt ih =>
    obtain ⟨hc, hrest⟩ := List.ne_and_not_mem_of_not_mem_cons hopt
    unfold ValueInert
    cases hf : findShortform options c with
    | none => exact ⟨fun _ => trivial, fun _ => meets_unknown (findShortform_none.mp hf)⟩
    | some o =>
      obtain ⟨ho, rfl⟩ := (findShortform_eq hdist hc.symm).mp hf
      dsimp only
      split_ifs with hvalue
      · cases opt with
        | nil => exact ⟨fun _ => trivial, fun _ => meets_last hdist ho hc.symm hvalue⟩
        | cons d opt => exact meets_attached hdist ho hc.symm hvalue (List.cons_ne_nil d opt)
      · rw [meets_flag hdist ho hc.symm (Bool.not_eq_true _ ▸ hvalue), ih hrest]

end Token

theorem interpreted_iff_meets {options : OptionSet} {c : UInt8} {opt : Bytes} {arg : Argument}
    (harg : arg.text = dash :: c :: opt) (hc : c ≠ dash) (rest : List Argument) (parsed : ResultMap) :
    Interpreted options (c :: opt) arg rest parsed ↔ Meets options (c :: opt) arg rest parsed := by
  have hlong : startsWith arg.text [dash, dash] = false := by
    rw [harg]
    simp [startsWith, List.isPrefixOf, Ne.symm hc]
  have hshort : startsWith arg.text [dash] = true := by
    rw [harg]
    simp [startsWith]
  unfold Interpreted Meets iteration
  rw [hlong, hshort, harg]
  simp only [Bool.false_eq_true, ↓reduceIte, List.drop_succ_cons, List.drop_zero, Prod.mk.injEq]

/-- **The tokens of short options of a command line are read as they say exactly if** in none of them
anything new is read in the value that an option takes from the token. -/
theorem shortform_iff (options : OptionSet) (hdist : DistinctShortforms options) (args : List Argument)
    (parsed : ResultMap) :
    EachShort options args parsed (Interpreted options) ↔
      EachShort options args parsed (fun opt _ _ parsed' => ValueInert options opt parsed') := by
  have htoken : ∀ arg rest parsed' c opt, arg.text = dash :: c :: opt → c ≠ dash →
      (Interpreted options (c :: opt) arg rest parsed' ↔ ValueInert options (c :: opt) parsed') := by
    intro arg rest parsed' c opt harg hc
    have hnul : noShortform ∉ c :: opt := fun hmem => arg.noNul (harg ▸ List.mem_cons_of_mem dash hmem)
    rw [interpreted_iff_meets harg hc, meets_iff hdist hnul]
  constructor
  · intro h arg rest parsed' hreached c opt harg hc
    exact (htoken arg rest parsed' c opt harg hc).mp (h arg rest parsed' hreached c opt harg hc)
  · intro h arg rest parsed' hreached c opt harg hc
    exact (htoken arg rest parsed' c opt harg hc).mpr (h arg rest parsed' hreached c opt harg hc)

/-- `-o` with a value and the flag `-v`. -/
def sampleOptions : OptionSet :=
  register (register .nil ⟨[1], noLongform, 111, true, by decide⟩) ⟨[2], noLongform, 118, false, by decide⟩

/-- `-v -o out`: the value is an argument of its own. -/
theorem separate_value_interpreted :
    EachShort sampleOptions [⟨[45, 118, 111], by decide⟩, ⟨[111, 117, 116], by decide⟩] .empty
      (Interpreted sampleOptions) := by
  refine (shortform_iff sampleOptions (by decide +kernel) _ _).mpr ?_
  intro arg rest parsed' hreached c opt harg hc
  rcases Relation.ReflTransGen.cases_head hreached with heq | ⟨s, ⟨arg', rest', hs, hturn⟩, hreached⟩
  · cases heq
    cases harg
    trivial
  · cases hs
    have hs : s = ([], s.2) := by
      have hfirst := congrArg Prod.fst hturn
      exact Prod.ext (Except.ok.inj hfirst).symm rfl
    rw [hs] at hreached
    rcases Relation.ReflTransGen.cases_head hreached with heq | ⟨s', ⟨arg', rest', hs', hturn⟩, hreached⟩
    · cases heq
    · cases hs'

/-- `-ov`: the value `v` of `-o` is read as the flag `-v`. -/
theorem attached_value_interpreted :
    ¬∀ options : OptionSet, DistinctShortforms options → ∀ args parsed,
      EachShort options args parsed (Interpreted options) := by
  intro h
  have hdist : DistinctShortforms sampleOptions := by decide +kernel
  have hall := h sampleOptions hdist [⟨[45, 111, 118], by decide⟩] .empty
  have htoken := hall _ _ _ .refl 111 [118] rfl (by decide)
  have hmeets := (interpreted_iff_meets rfl (by decide) _ _).mp htoken
  have hinert : false = false ∧ (valuesOf (record .empty [1]) [2]).isSome = true ∧ True :=
    (meets_iff hdist (by decide)).mp hmeets
  exact absurd hinert.2.1 (by decide +kernel)

end NetworkDriver.Util.CliParser.ShortOptions
