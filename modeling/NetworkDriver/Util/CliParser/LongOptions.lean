import NetworkDriver.Util.CliParser.Parsing

/-! # Long options

`parse_longform_opt` takes the first option, in the order of the set, whose longform the text starts
with. That is the option with the name before the `=` for every text exactly where no other longform
is at its start; the empty longform of an option that has only a shortform always is.

* `matches_iff`: one argument.
* `longform_iff`: all arguments of a command line. -/

namespace NetworkDriver.Util.CliParser.LongOptions

open NetworkDriver.Library.Keyed NetworkDriver.Library.RedBlack
open NetworkDriver.Util.CliParser.Model NetworkDriver.Util.CliParser.Parsing NetworkDriver.Util.Format

/-- The part before the first `=`. -/
def nameIn (text : Bytes) : Bytes := text.takeWhile fun c => c ≠ equalsSign

/-- The argument names the option. -/
def Names (text : Bytes) (o : CliOption) : Prop := o.longform ≠ noLongform ∧ o.longform = nameIn text

instance (text : Bytes) : DecidablePred (Names text) :=
  fun o => inferInstanceAs (Decidable (o.longform ≠ noLongform ∧ o.longform = nameIn text))

/-- Whatever was recorded before, the id is after the turn for the argument. -/
def Records (options : OptionSet) (arg : Argument) (id : Bytes) : Prop :=
  ∀ rest parsed, (valuesOf (iteration options arg rest parsed).2 id).isSome = true

/-- The turn for `--text` goes by the name in the text alone. -/
structure MatchesExactly (options : OptionSet) (arg : Argument) (text : Bytes) : Prop where
  records : ∀ o ∈ options.toList, Records options arg o.id ↔ Names text o
  order : ∀ options' : OptionSet, options'.toList.Perm options.toList → ∀ rest parsed,
    iteration options' arg rest parsed = iteration options arg rest parsed

/-- Only options that the text names have a longform at its start; they are the options with their
id, and all or none of them have a value. -/
structure Unambiguous (options : OptionSet) (text : Bytes) : Prop where
  named : ∀ o ∈ options.toList, startsWith text o.longform = true → Names text o
  ids : ∀ o ∈ options.toList, ∀ o' ∈ options.toList, Names text o → (o'.id = o.id ↔ Names text o')
  values : ∀ o ∈ options.toList, ∀ o' ∈ options.toList, Names text o → Names text o' →
    o.hasValue = o'.hasValue

/-- A property of every argument `--text` that `parse` comes to and does not throw on. -/
def EachLong (options : OptionSet) (args : List Argument) (parsed : ResultMap)
    (P : Argument → Bytes → Prop) : Prop :=
  ∀ arg rest parsed', Reached options args parsed (arg :: rest, parsed') →
    ∀ text, arg.text = dash :: dash :: text →
      (∀ message, (iteration options arg rest parsed').1 ≠ .error message) → P arg text

theorem startsWith_of_names {text : Bytes} {o : CliOption} (h : Names text o) :
    startsWith text o.longform = true := by
  unfold startsWith
  rw [h.2]
  exact List.isPrefixOf_iff_prefix.mpr (List.takeWhile_prefix _)

theorem findLongform_some {options : OptionSet} {text : Bytes} {o : CliOption}
    (h : findLongform options text = some o) :
    o ∈ options.toList ∧ startsWith text o.longform = true := by
  unfold findLongform at h
  have hstart := List.find?_some h
  exact ⟨List.mem_of_find?_eq_some h, hstart⟩

theorem findLongform_none {options : OptionSet} {text : Bytes} :
    findLongform options text = none ↔ ∀ o ∈ options.toList, startsWith text o.longform = false := by
  unfold findLongform
  simp

/-- Any option whose longform is at the start of the text is found in some order of the set. -/
theorem exists_order {options : OptionSet} {text : Bytes} {o : CliOption} (ho : o ∈ options.toList)
    (hstart : startsWith text o.longform = true) :
    ∃ options' : OptionSet, options'.toList.Perm options.toList ∧ findLongform options' text = some o := by
  obtain ⟨options', hlist⟩ := ColorTree.exists_toList (o :: options.toList.erase o)
  refine ⟨options', ?_, ?_⟩
  · rw [hlist]
    exact (List.perm_cons_erase ho).symm
  · unfold findLongform
    rw [hlist, List.find?_cons, hstart]

/-! ### An argument -/

theorem iteration_long {arg : Argument} {text : Bytes} (harg : arg.text = dash :: dash :: text)
    (options : OptionSet) (rest : List Argument) (parsed : ResultMap) :
    iteration options arg rest parsed =
      ((parseLongformOpt options text parsed).1.map fun _ => rest, (parseLongformOpt options text parsed).2) := by
  unfold iteration
  rw [harg]
  rfl

theorem parseLongformOpt_none {options : OptionSet} {text : Bytes} (h : findLongform options text = none)
    (parsed : ResultMap) : parseLongformOpt options text parsed = (.ok (), parsed) := by
  unfold parseLongformOpt
  rw [h]

theorem parseLongformOpt_fst (options : OptionSet) (text : Bytes) (parsed parsed' : ResultMap) :
    (parseLongformOpt options text parsed).1 = (parseLongformOpt options text parsed').1 := by
  unfold parseLongformOpt
  cases findLongform options text with
  | none => rfl
  | some o =>
    dsimp only
    split_ifs
    · split <;> rfl
    · rfl

section Found

variable {options : OptionSet} {text : Bytes} {o : CliOption} (h : findLongform options text = some o)

include h

/-- Only the id and the kind of the option found matter. -/
theorem parseLongformOpt_congr {options' : OptionSet} {o' : CliOption}
    (h' : findLongform options' text = some o') (hid : o'.id = o.id) (hvalue : o'.hasValue = o.hasValue)
    (parsed : ResultMap) : parseLongformOpt options' text parsed = parseLongformOpt options text parsed := by
  unfold parseLongformOpt
  rw [h, h']
  dsimp only
  rw [hid, hvalue]

theorem valuesOf_found (parsed : ResultMap) :
    (valuesOf (parseLongformOpt options text parsed).2 o.id).isSome = true := by
  have hrecord : (valuesOf (record parsed o.id) o.id).isSome = true := by
    rw [valuesOf_record]
    simp
  unfold parseLongformOpt
  rw [h]
  dsimp only
  split_ifs
  · split
    · rw [valuesOf_addValue, Option.isSome_map]
      exact hrecord
    · exact hrecord
  · exact hrecord

/-- Nothing else is recorded. -/
theorem eq_of_valuesOf {id : Bytes}
    (hid : (valuesOf (parseLongformOpt options text .empty).2 id).isSome = true) : id = o.id := by
  have hrecord : (valuesOf (record .empty o.id) id).isSome = true → id = o.id := by
    rw [valuesOf_record]
    intro hsome
    by_contra hne
    rw [if_neg (Ne.symm hne)] at hsome
    cases hsome
  unfold parseLongformOpt at hid
  rw [h] at hid
  dsimp only at hid
  split_ifs at hid
  · split at hid
    · rw [valuesOf_addValue, Option.isSome_map] at hid
      exact hrecord hid
    · exact hrecord hid
  · exact hrecord hid

/-- A flag is recorded without a value. -/
theorem valuesOf_found_iff (hok : ∀ message, (parseLongformOpt options text .empty).1 ≠ .error message) :
    valuesOf (parseLongformOpt options text .empty).2 o.id = some [] ↔ o.hasValue = false := by
  have hrecord : valuesOf (record .empty o.id) o.id = some [] := by
    rw [valuesOf_record]
    simp [valuesOf, KeyedMap.find?, KeyedMap.empty]
  unfold parseLongformOpt at hok ⊢
  rw [h] at hok ⊢
  dsimp only at hok ⊢
  split_ifs at hok ⊢ with hvalue
  · split at hok
    · rw [valuesOf_addValue, hrecord, hvalue]
      simp
    · exact absurd rfl (hok _)
  · exact ⟨fun _ => Bool.not_eq_true _ ▸ hvalue, fun _ => hrecord⟩

end Found

section Argument

variable {options : OptionSet} {arg : Argument} {text : Bytes} (harg : arg.text = dash :: dash :: text)

include harg

theorem records_iff {o : CliOption} (h : findLongform options text = some o) {id : Bytes} :
    Records options arg id ↔ id = o.id := by
  constructor
  · intro hrec
    have hid := hrec [] .empty
    rw [iteration_long harg] at hid
    exact eq_of_valuesOf h hid
  · rintro rfl rest parsed
    rw [iteration_long harg]
    exact valuesOf_found h parsed

theorem not_records (h : findLongform options text = none) (id : Bytes) : ¬Records options arg id := by
  intro hrec
  have hid := hrec [] .empty
  rw [iteration_long harg, parseLongformOpt_none h] at hid
  cases hid

theorem matches_of_unambiguous (h : Unambiguous options text) : MatchesExactly options arg text := by
  cases hf : findLongform options text with
  | none =>
    have hnone := findLongform_none.mp hf
    refine ⟨fun o ho => ⟨fun hrec => absurd hrec (not_records harg hf o.id), fun hnames => ?_⟩, ?_⟩
    · have hstart := startsWith_of_names hnames
      rw [hnone o ho] at hstart
      cases hstart
    · intro options' hperm rest parsed
      have hf' := findLongform_none.mpr fun o ho => hnone o (hperm.subset ho)
      rw [iteration_long harg, iteration_long harg, parseLongformOpt_none hf, parseLongformOpt_none hf']
  | some o =>
    obtain ⟨ho, hstart⟩ := findLongform_some hf
    have hnames := h.named o ho hstart
    refine ⟨fun o' ho' => ?_, ?_⟩
    · rw [records_iff harg hf]
      exact h.ids o ho o' ho' hnames
    · intro options' hperm rest parsed
      rw [iteration_long harg, iteration_long harg]
      cases hf' : findLongform options' text with
      | none =>
        have hnone := findLongform_none.mp hf' o (hperm.symm.subset ho)
        rw [hstart] at hnone
        cases hnone
      | some o' =>
        obtain ⟨ho', hstart'⟩ := findLongform_some hf'
        have hmem := hperm.subset ho'
        have hnames' := h.named o' hmem hstart'
        rw [parseLongformOpt_congr hf hf' ((h.ids o ho o' hmem hnames).mpr hnames')
          (h.values o' hmem o ho hnames' hnames)]

theorem unambiguous_of_matches (h : MatchesExactly options arg text)
    (hok : ∀ message, (parseLongformOpt options text .empty).1 ≠ .error message) :
    Unambiguous options text := by
  cases hf : findLongform options text with
  | none =>
    have hnone := findLongform_none.mp hf
    have hnot : ∀ o ∈ options.toList, ¬Names text o := fun o ho hnames => by
      have hstart := startsWith_of_names hnames
      rw [hnone o ho] at hstart
      cases hstart
    exact {
      named := fun o ho hstart => by
        rw [hnone o ho] at hstart
        cases hstart
      ids := fun o ho _ _ hnames => absurd hnames (hnot o ho)
      values := fun o ho _ _ hnames _ => absurd hnames (hnot o ho) }
  | some o =>
    have hrecords : ∀ o' ∈ options.toList, o'.id = o.id ↔ Names text o' := fun o' ho' => by
      rw [← h.records o' ho', records_iff harg hf]
    -- an option is moved to the front of the order, where it is the one found
    have hmoved : ∀ o' ∈ options.toList, startsWith text o'.longform = true →
        ∃ options' : OptionSet, findLongform options' text = some o' ∧
          (parseLongformOpt options' text .empty).2 = (parseLongformOpt options text .empty).2 ∧
          ∀ message, (parseLongformOpt options' text .empty).1 ≠ .error message := by
      intro o' ho' hstart
      obtain ⟨options', hperm, hf'⟩ := exists_order ho' hstart
      have horder := h.order options' hperm [] .empty
      rw [iteration_long harg, iteration_long harg] at horder
      obtain ⟨hresult, hparsed⟩ := Prod.mk.inj horder
      refine ⟨options', hf', hparsed, fun message herror => ?_⟩
      rw [herror] at hresult
      cases hfirst : (parseLongformOpt options text .empty).1 with
      | error message' => exact hok message' hfirst
      | ok =>
        rw [hfirst] at hresult
        cases hresult
    have hnamed : ∀ o' ∈ options.toList, startsWith text o'.longform = true → Names text o' := by
      intro o' ho' hstart
      obtain ⟨options', hf', hsame, -⟩ := hmoved o' ho' hstart
      have hid := valuesOf_found hf' .empty
      rw [hsame] at hid
      exact (hrecords o' ho').mp (eq_of_valuesOf hf hid)
    have hvalue : ∀ o' ∈ options.toList, Names text o' → o'.hasValue = o.hasValue := by
      intro o' ho' hnames
      obtain ⟨options', hf', hsame, hok'⟩ := hmoved o' ho' (startsWith_of_names hnames)
      have hid := (hrecords o' ho').mpr hnames
      have hflag := valuesOf_found_iff hf' hok'
      rw [hsame, hid, valuesOf_found_iff hf hok] at hflag
      exact Bool.eq_iff_iff.mpr (by simpa using not_congr hflag.symm)
    exact {
      named := hnamed
      ids := fun o' ho' o'' ho'' hnames => by
        rw [(hrecords o' ho').mpr hnames]
        exact hrecords o'' ho''
      values := fun o' ho' o'' ho'' hnames hnames' => by
        rw [hvalue o' ho' hnames, hvalue o'' ho'' hnames'] }

/-- **An argument is matched by its name exactly if** nothing else could be taken for it. -/
theorem matches_iff {rest : List Argument} {parsed : ResultMap}
    (hok : ∀ message, (iteration options arg rest parsed).1 ≠ .error message) :
    MatchesExactly options arg text ↔ Unambiguous options text := by
  refine ⟨fun h => unambiguous_of_matches harg h fun message herror => ?_, matches_of_unambiguous harg⟩
  refine hok message ?_
  rw [iteration_long harg, parseLongformOpt_fst options text parsed .empty, herror]
  rfl

end Argument

/-- **The long options of a command line are matched by their names exactly if** every argument, of
those that do not throw, has no option at its start but the ones it names. -/
theorem longform_iff (options : OptionSet) (args : List Argument) (parsed : ResultMap) :
    EachLong options args parsed (MatchesExactly options) ↔
      EachLong options args parsed (fun _ text => Unambiguous options text) := by
  constructor
  · intro h arg rest parsed' hreached text harg hok
    exact (matches_iff harg hok).mp (h arg rest parsed' hreached text harg hok)
  · intro h arg rest parsed' hreached text harg hok
    exact (matches_iff harg hok).mpr (h arg rest parsed' hreached text harg hok)

/-- `--x`: an option that has only the shortform `v` is taken for it. -/
theorem shortform_only_matched :
    ¬∀ (options : OptionSet) args parsed, EachLong options args parsed (MatchesExactly options) := by
  intro h
  have hmatches := h (register .nil ⟨[1], noLongform, 118, false, by decide⟩) [⟨[45, 45, 120], by decide⟩]
    .empty _ _ _ .refl [120] rfl (fun message herror => by cases herror)
  have hnamed := (unambiguous_of_matches rfl hmatches (fun message herror => by cases herror)).named
    ⟨[1], noLongform, 118, false, by decide⟩ (by decide +kernel) rfl
  exact hnamed.1 rfl

end NetworkDriver.Util.CliParser.LongOptions
