import NetworkDriver.Util.CliParser.LongOptions

/-! # Command lines that are read back

A command line says what to set, setting by setting: a long option, short options in one argument, the
last of them maybe with a value behind it, or text that is no option. What the queries answer after
`parse` is what was set, in the order of the settings. As in `Parsing`, the character that is read at the
end of a token of short options is the NUL behind the argument, which nothing looks at; `Bounds` is about
that access.

* `Setting.render`: the arguments of a setting.
* `Spelled`, `Lettered`: the registered options that are found under their own names.
* `setting_read`: one setting.
* `settings_read_back`: a command line, and the queries after it. -/

namespace NetworkDriver.Util.CliParser.RoundTrip

open NetworkDriver.Library.Keyed NetworkDriver.Library.RedBlack
open NetworkDriver.Util.CliParser.Model NetworkDriver.Util.CliParser.Parsing
open NetworkDriver.Util.Format (Bytes split split_append split_of_notMem)
open NetworkDriver.Util.CliParser.LongOptions (iteration_long)

/-! ### The queries -/

/-- `contains_option`. -/
def containsOption (p : Parser) (id : Bytes) : Bool := (p.parsed.find? id).isSome

/-- `option_values`; `at` throws an `out_of_range` for an option that is not contained. -/
def optionValues (p : Parser) (id : Bytes) : Option (List Bytes) := valuesOf p.parsed id

/-- `num_option_values`. -/
def numOptionValues (p : Parser) (id : Bytes) : Option ℕ := (valuesOf p.parsed id).map List.length

/-- `has_option_value`. -/
def hasOptionValue (p : Parser) (id : Bytes) : Option Bool := (numOptionValues p id).map fun n => n ≠ 0

/-- `option_value` with a conversion, which `at` throws an `out_of_range` before. -/
def optionValue {α : Type} (p : Parser) (id : Bytes) (conv : Bytes → α) (pos : ℕ) : Option α :=
  (valuesOf p.parsed id).bind fun values => values[pos]?.map conv

/-! ### Settings -/

/-- What a command line sets. -/
inductive Setting where
  | long (o : CliOption)
  | longValue (o : CliOption) (value : Bytes)
  | short (flags : List CliOption)
  | shortValue (flags : List CliOption) (o : CliOption) (value : Bytes)
  | other (text : Bytes)

/-- The arguments of a setting. -/
def Setting.render : Setting → List Bytes
  | .long o => [dash :: dash :: o.longform]
  | .longValue o value => [dash :: dash :: (o.longform ++ equalsSign :: value)]
  | .short flags => [dash :: flags.map CliOption.shortform]
  | .shortValue flags o value => [dash :: (flags.map CliOption.shortform ++ [o.shortform]), value]
  | .other text => [text]

/-- The ids set by a setting, with their values. -/
def Setting.mentions : Setting → List (Bytes × Option Bytes)
  | .long o => [(o.id, none)]
  | .longValue o value => [(o.id, some value)]
  | .short flags => flags.map fun o => (o.id, none)
  | .shortValue flags o value => flags.map (fun o => (o.id, none)) ++ [(o.id, some value)]
  | .other _ => []

/-- A registered option that is found under its longform, whatever value follows. -/
structure Spelled (options : OptionSet) (o : CliOption) : Prop where
  mem : o ∈ options.toList
  noEquals : equalsSign ∉ o.longform
  alone : ∀ o' ∈ options.toList, o'.longform <+: o.longform → o' = o
  apart : ∀ o' ∈ options.toList, ¬ o.longform ++ [equalsSign] <+: o'.longform

/-- A registered option that is found under its shortform. -/
structure Lettered (options : OptionSet) (o : CliOption) : Prop where
  mem : o ∈ options.toList
  alone : ∀ o' ∈ options.toList, o'.shortform = o.shortform → o' = o

/-- The text after the dash of short options is not empty, and no dash. -/
def ShortText (text : Bytes) : Prop := ∃ c rest, text = c :: rest ∧ c ≠ dash

/-- The settings that a command line can express. -/
def Setting.Valid (options : OptionSet) : Setting → Prop
  | .long o => Spelled options o ∧ o.hasValue = false
  | .longValue o value => Spelled options o ∧ o.hasValue = true ∧ equalsSign ∉ value
  | .short flags => (∀ o ∈ flags, Lettered options o ∧ o.hasValue = false) ∧
      ShortText (flags.map CliOption.shortform)
  | .shortValue flags o value => (∀ o ∈ flags, Lettered options o ∧ o.hasValue = false) ∧
      Lettered options o ∧ o.hasValue = true ∧
      ShortText (flags.map CliOption.shortform ++ [o.shortform]) ∧ value.head? ≠ some dash
  | .other text => text.head? ≠ some dash

/-- What is recorded for one mention. -/
def observe (parsed : ResultMap) (m : Bytes × Option Bytes) : ResultMap :=
  match m.2 with
  | none => record parsed m.1
  | some value => addValue (record parsed m.1) m.1 value

/-- The values mentioned for an id, if it is mentioned at all. -/
def found (mentions : List (Bytes × Option Bytes)) (id : Bytes) : Option (List Bytes) :=
  if ∃ m ∈ mentions, m.1 = id then some (mentions.filterMap fun m => if m.1 = id then m.2 else none)
  else none

/-! ### What is recorded -/

/-- The values there were, followed by others. -/
def joined (values more : Option (List Bytes)) : Option (List Bytes) := values.merge (· ++ ·) more

theorem joined_none (values : Option (List Bytes)) : joined values none = values := by
  cases values <;> rfl

theorem joined_assoc (a b c : Option (List Bytes)) : joined (joined a b) c = joined a (joined b c) := by
  cases a with
  | none => cases b <;> cases c <;> rfl
  | some as =>
    cases b with
    | none => cases c <;> rfl
    | some bs =>
      cases c with
      | none => rfl
      | some cs => exact congrArg some (List.append_assoc as bs cs)

theorem valuesOf_observe (parsed : ResultMap) (m : Bytes × Option Bytes) (id : Bytes) :
    valuesOf (observe parsed m) id = joined (valuesOf parsed id) (found [m] id) := by
  obtain ⟨id', value⟩ := m
  have hnone : id' ≠ id → found [(id', value)] id = none := fun hne => by simp [found, hne]
  cases value with
  | none =>
    unfold observe
    dsimp only
    rw [valuesOf_record]
    by_cases hid : id' = id
    · have hfound : found [(id', none)] id = some [] := by simp [found, hid]
      rw [if_pos hid, hfound]
      cases valuesOf parsed id with
      | none => rfl
      | some values => exact congrArg some (List.append_nil values).symm
    · rw [if_neg hid, hnone hid, joined_none, Option.or_none]
  | some value =>
    unfold observe
    dsimp only
    rw [valuesOf_addValue, valuesOf_record]
    by_cases hid : id' = id
    · have hfound : found [(id', some value)] id = some [value] := by simp [found, hid]
      rw [if_pos hid, hfound]
      cases valuesOf parsed id with
      | none => exact congrArg some (if_pos hid.symm)
      | some values => exact congrArg some (if_pos hid.symm)
    · rw [if_neg hid, hnone hid, joined_none, Option.or_none]
      cases valuesOf parsed id with
      | none => rfl
      | some values =>
        rw [Option.map_some, if_neg (Ne.symm hid)]

theorem found_cons (m : Bytes × Option Bytes) (ms : List (Bytes × Option Bytes)) (id : Bytes) :
    found (m :: ms) id = joined (found [m] id) (found ms id) := by
  have hsplit : (∃ a ∈ m :: ms, a.1 = id) ↔ m.1 = id ∨ ∃ a ∈ ms, a.1 = id := by simp
  have hone : (∃ a ∈ [m], a.1 = id) ↔ m.1 = id := by simp
  have hempty : (¬∃ a ∈ ms, a.1 = id) → ms.filterMap (fun a => if a.1 = id then a.2 else none) = [] := by
    intro hno
    refine List.filterMap_eq_nil_iff.mpr fun a ha => if_neg fun h => hno ⟨a, ha, h⟩
  unfold found
  simp only [hsplit, hone]
  by_cases hm : m.1 = id
  · by_cases hms : ∃ a ∈ ms, a.1 = id
    · rw [if_pos (.inl hm), if_pos hm, if_pos hms, ← List.singleton_append, List.filterMap_append]
      rfl
    · rw [if_pos (.inl hm), if_pos hm, if_neg hms, joined_none, ← List.singleton_append,
        List.filterMap_append, hempty hms, List.append_nil]
  · have hskip : (m :: ms).filterMap (fun a => if a.1 = id then a.2 else none) =
        ms.filterMap fun a => if a.1 = id then a.2 else none :=
      List.filterMap_cons_none (if_neg hm)
    rw [hskip, if_neg hm]
    by_cases hms : ∃ a ∈ ms, a.1 = id
    · rw [if_pos (.inr hms), if_pos hms]
      rfl
    · rw [if_neg (not_or.mpr ⟨hm, hms⟩), if_neg hms]
      rfl

/-- **What a list of mentions leaves recorded.** -/
theorem valuesOf_observed (ms : List (Bytes × Option Bytes)) (parsed : ResultMap) (id : Bytes) :
    valuesOf (ms.foldl observe parsed) id = joined (valuesOf parsed id) (found ms id) := by
  induction ms generalizing parsed with
  | nil => exact (joined_none _).symm
  | cons m ms ih =>
    rw [List.foldl_cons, ih, valuesOf_observe, joined_assoc, ← found_cons]

/-! ### Long options -/

section Spelled

variable {options : OptionSet} {o : CliOption}

theorem prefix_append_equals {a b value : Bytes} (h : a <+: b ++ equalsSign :: value) :
    a <+: b ∨ b ++ [equalsSign] <+: a := by
  have hsplit : b ++ equalsSign :: value = (b ++ [equalsSign]) ++ value := by simp
  by_cases hlen : a.length ≤ b.length
  · exact .inl (List.prefix_of_prefix_length_le h (List.prefix_append _ _) hlen)
  · refine .inr (List.prefix_of_prefix_length_le (hsplit ▸ List.prefix_append _ _) h ?_)
    rw [List.length_append, List.length_singleton]
    omega

/-- The option is found, with or without a value. -/
theorem Spelled.found (h : Spelled options o) {text : Bytes}
    (htext : text = o.longform ∨ ∃ value, text = o.longform ++ equalsSign :: value) :
    findLongform options text = some o := by
  have hstart : startsWith text o.longform = true := by
    refine List.isPrefixOf_iff_prefix.mpr ?_
    rcases htext with rfl | ⟨value, rfl⟩
    · exact List.prefix_refl _
    · exact List.prefix_append _ _
  have honly : ∀ o' ∈ options.toList, startsWith text o'.longform = true → o' = o := by
    intro o' ho' hstart'
    have hprefix := List.isPrefixOf_iff_prefix.mp hstart'
    rcases htext with rfl | ⟨value, rfl⟩
    · exact h.alone o' ho' hprefix
    · rcases prefix_append_equals hprefix with hshort | hlong
      · exact h.alone o' ho' hshort
      · exact absurd hlong (h.apart o' ho')
  unfold findLongform
  cases hfind : options.toList.find? fun opt => startsWith text opt.longform with
  | none => exact absurd hstart (List.find?_eq_none.mp hfind o h.mem)
  | some o' =>
    have hstart' := List.find?_some hfind
    rw [honly o' (List.mem_of_find?_eq_some hfind) hstart']

theorem Spelled.flag_read (h : Spelled options o) (hflag : o.hasValue = false) (parsed : ResultMap) :
    parseLongformOpt options o.longform parsed = (.ok (), observe parsed (o.id, none)) := by
  unfold parseLongformOpt
  rw [h.found (.inl rfl)]
  dsimp only
  rw [if_neg (by rw [hflag]; decide)]
  rfl

theorem Spelled.value_read (h : Spelled options o) (hvalue : o.hasValue = true) {value : Bytes}
    (hequals : equalsSign ∉ value) (parsed : ResultMap) :
    parseLongformOpt options (o.longform ++ equalsSign :: value) parsed =
      (.ok (), observe parsed (o.id, some value)) := by
  have hparts : split (o.longform ++ equalsSign :: value) equalsSign = [o.longform, value] := by
    rw [split_append h.noEquals, split_of_notMem hequals]
  unfold parseLongformOpt
  rw [h.found (.inr ⟨value, rfl⟩)]
  dsimp only
  rw [if_pos hvalue, hparts]
  rfl

end Spelled

/-! ### Short options -/

section Lettered

variable {options : OptionSet} {o : CliOption}

theorem Lettered.found (h : Lettered options o) : findShortform options o.shortform = some o := by
  unfold findShortform
  cases hfind : options.toList.find? fun opt => opt.shortform == o.shortform with
  | none => exact absurd (beq_self_eq_true _) (List.find?_eq_none.mp hfind o h.mem)
  | some o' =>
    have hletter := List.find?_some hfind
    rw [h.alone o' (List.mem_of_find?_eq_some hfind) (beq_iff_eq.mp hletter)]

/-- **A cluster of flags** is read flag by flag. -/
theorem flags_read {flags : List CliOption} (h : ∀ o ∈ flags, Lettered options o ∧ o.hasValue = false)
    (opt : Bytes) (args : List Argument) (parsed : ResultMap) :
    parseShortformOpt options (flags.map CliOption.shortform ++ opt) args parsed =
      parseShortformOpt options opt args ((flags.map fun o => (o.id, none)).foldl observe parsed) := by
  induction flags generalizing parsed with
  | nil => rfl
  | cons o flags ih =>
    obtain ⟨hletter, hflag⟩ := h o List.mem_cons_self
    rw [List.map_cons, List.cons_append, parseShortformOpt, hletter.found]
    dsimp only
    rw [if_neg (by rw [hflag]; decide), ih fun o ho => h o (List.mem_cons_of_mem _ ho)]
    rfl

/-- **The value in the next argument.** -/
theorem Lettered.value_read (h : Lettered options o) (hvalue : o.hasValue = true) (arg : Argument)
    {value : Argument} (hdash : value.text.head? ≠ some dash) (rest : List Argument) (parsed : ResultMap) :
    parseShortformOpt options [o.shortform] (arg :: value :: rest) parsed =
      (.ok (value :: rest), observe parsed (o.id, some value.text)) := by
  have hstart : startsWith value.text [dash] = false := by
    unfold startsWith
    cases hv : value.text with
    | nil => rfl
    | cons c text =>
      rw [hv, List.head?_cons, ne_eq, Option.some_inj] at hdash
      simp [List.isPrefixOf, Ne.symm hdash]
  rw [parseShortformOpt, h.found]
  dsimp only [List.tail_cons]
  rw [if_pos hvalue, if_neg (not_not.mpr rfl), if_neg (by rw [hstart]; decide)]
  rfl

theorem iteration_short {arg : Argument} {text : Bytes} (harg : arg.text = dash :: text)
    (htext : ShortText text) (options : OptionSet) (rest : List Argument) (parsed : ResultMap) :
    iteration options arg rest parsed =
      ((parseShortformOpt options text (arg :: rest) parsed).1.map List.tail,
        (parseShortformOpt options text (arg :: rest) parsed).2) := by
  obtain ⟨c, more, rfl, hc⟩ := htext
  have hlong : startsWith arg.text [dash, dash] = false := by
    rw [harg]
    simp [startsWith, List.isPrefixOf, Ne.symm hc]
  have hshort : startsWith arg.text [dash] = true := by
    rw [harg]
    rfl
  unfold iteration
  rw [if_neg (by rw [hlong]; decide), if_pos hshort, harg]
  rfl

end Lettered

/-! ### Command lines -/

theorem iteration_text {arg : Argument} (harg : arg.text.head? ≠ some dash) (options : OptionSet)
    (rest : List Argument) (parsed : ResultMap) : iteration options arg rest parsed = (.ok rest, parsed) := by
  have hstart : ∀ more : Bytes, startsWith arg.text (dash :: more) = false := by
    intro more
    unfold startsWith
    cases htext : arg.text with
    | nil => rfl
    | cons c text =>
      rw [htext, List.head?_cons, ne_eq, Option.some_inj] at harg
      simp [List.isPrefixOf, Ne.symm harg]
  unfold iteration
  rw [if_neg (by rw [hstart]; decide), if_neg (by rw [hstart]; decide)]

/-- **One setting** is read in one turn of the loop, with all of its arguments. -/
theorem setting_read {options : OptionSet} {s : Setting} (hs : s.Valid options) {args : List Argument}
    (hargs : args.map Argument.text = s.render) :
    ∃ arg tail, args = arg :: tail ∧ ∀ rest parsed,
      iteration options arg (tail ++ rest) parsed = (.ok rest, s.mentions.foldl observe parsed) := by
  cases s with
  | long o =>
    obtain ⟨hspelled, hflag⟩ := hs
    obtain ⟨arg, rfl, harg⟩ := List.map_eq_singleton_iff.mp hargs
    refine ⟨arg, [], rfl, fun rest parsed => ?_⟩
    rw [iteration_long harg, hspelled.flag_read hflag]
    rfl
  | longValue o value =>
    obtain ⟨hspelled, hvalue, hequals⟩ := hs
    obtain ⟨arg, rfl, harg⟩ := List.map_eq_singleton_iff.mp hargs
    refine ⟨arg, [], rfl, fun rest parsed => ?_⟩
    rw [iteration_long harg, hspelled.value_read hvalue hequals]
    rfl
  | short flags =>
    obtain ⟨hflags, htext⟩ := hs
    obtain ⟨arg, rfl, harg⟩ := List.map_eq_singleton_iff.mp hargs
    refine ⟨arg, [], rfl, fun rest parsed => ?_⟩
    have hread := flags_read hflags [] (arg :: rest) parsed
    rw [List.append_nil] at hread
    rw [List.nil_append, iteration_short harg htext, hread]
    rfl
  | shortValue flags o value =>
    obtain ⟨hflags, hletter, hvalue, htext, hdash⟩ := hs
    obtain ⟨arg, args, rfl, harg, hargs⟩ := List.map_eq_cons_iff.mp hargs
    obtain ⟨valueArg, rfl, rfl⟩ := List.map_eq_singleton_iff.mp hargs
    refine ⟨arg, [valueArg], rfl, fun rest parsed => ?_⟩
    rw [List.singleton_append, iteration_short harg htext, flags_read hflags,
      hletter.value_read hvalue arg hdash, Setting.mentions, List.foldl_append]
    rfl
  | other text =>
    obtain ⟨arg, rfl, rfl⟩ := List.map_eq_singleton_iff.mp hargs
    exact ⟨arg, [], rfl, fun rest parsed => iteration_text hs options rest parsed⟩

/-- **All settings**, read by the loop of `parse`. -/
theorem settings_read {options : OptionSet} {settings : List Setting}
    (hs : ∀ s ∈ settings, s.Valid options) {args : List Argument}
    (hargs : args.map Argument.text = settings.flatMap Setting.render) {turns : ℕ}
    (hturns : args.length ≤ turns) (parsed : ResultMap) :
    parseLoop options turns args parsed = (.ok (), (settings.flatMap Setting.mentions).foldl observe parsed) := by
  induction settings generalizing args turns parsed with
  | nil =>
    obtain rfl := List.map_eq_nil_iff.mp hargs
    cases turns <;> rfl
  | cons s settings ih =>
    rw [List.flatMap_cons] at hargs
    obtain ⟨first, others, rfl, hfirst, hothers⟩ := List.map_eq_append_iff.mp hargs
    obtain ⟨arg, tail, rfl, hread⟩ := setting_read (hs s List.mem_cons_self) hfirst
    rw [List.length_append, List.length_cons] at hturns
    obtain ⟨turns, rfl⟩ : ∃ n, turns = n + 1 := ⟨turns - 1, by omega⟩
    rw [List.cons_append, parseLoop, hread]
    dsimp only
    rw [ih (fun s hs' => hs s (List.mem_cons_of_mem _ hs')) hothers (by omega), List.flatMap_cons,
      List.foldl_append]

/-- What the queries answer for an id after a command line, given what they answered before. -/
structure Answers (p p' : Parser) (mentions : List (Bytes × Option Bytes)) (id : Bytes) : Prop where
  contains : containsOption p' id = (containsOption p id || mentions.any fun m => m.1 = id)
  values : optionValues p' id = joined (optionValues p id) (found mentions id)
  number : numOptionValues p' id = (joined (optionValues p id) (found mentions id)).map List.length
  hasValue : hasOptionValue p' id = (joined (optionValues p id) (found mentions id)).map fun l => !l.isEmpty
  value : ∀ {α : Type} (conv : Bytes → α) (pos : ℕ), optionValue p' id conv pos =
    (joined (optionValues p id) (found mentions id)).bind fun l => l[pos]?.map conv

theorem containsOption_eq (p : Parser) (id : Bytes) : containsOption p id = (optionValues p id).isSome :=
  Option.isSome_map.symm

/-- The queries all go by the values recorded. -/
theorem answers_of_values {p p' : Parser} {mentions : List (Bytes × Option Bytes)} {id : Bytes}
    (h : optionValues p' id = joined (optionValues p id) (found mentions id)) : Answers p p' mentions id where
  contains := by
    have hfound : (found mentions id).isSome = mentions.any fun m => m.1 = id := by
      unfold found
      by_cases hany : ∃ m ∈ mentions, m.1 = id
      · rw [if_pos hany]
        obtain ⟨m, hm, hid⟩ := hany
        exact (List.any_eq_true.mpr ⟨m, hm, decide_eq_true hid⟩).symm
      · rw [if_neg hany]
        exact (List.any_eq_false.mpr fun m hm hid => hany ⟨m, hm, of_decide_eq_true hid⟩).symm
    rw [containsOption_eq, containsOption_eq, h, ← hfound]
    cases optionValues p id <;> cases found mentions id <;> rfl
  values := h
  number := congrArg (Option.map List.length) h
  hasValue := by
    unfold hasOptionValue numOptionValues
    rw [show valuesOf p'.parsed id = _ from h]
    cases joined (optionValues p id) (found mentions id) with
    | none => rfl
    | some l => cases l <;> rfl
  value conv pos := congrArg (Option.bind · fun values => values[pos]?.map conv) h

/-- **A command line is read back.** However the settings are mixed, `parse` accepts the arguments that
express them, and the queries answer for every id the values that were there before, followed by those
that were set, in order; an option is contained if and only if it was before or is mentioned. -/
theorem settings_read_back (p : Parser) (front : Argument) (settings : List Setting)
    (hs : ∀ s ∈ settings, s.Valid p.options) (args : List Argument)
    (hargs : args.map Argument.text = settings.flatMap Setting.render) :
    ∃ p', parse p front args = (.ok (), p') ∧ p'.programName = front.text ∧ p'.options = p.options ∧
      ∀ id, Answers p p' (settings.flatMap Setting.mentions) id := by
  have hread := settings_read hs hargs le_rfl p.parsed
  refine ⟨(parse p front args).2, ?_, rfl, rfl, fun id => answers_of_values ?_⟩
  · unfold parse
    rw [hread]
  · change valuesOf (parseLoop p.options args.length args p.parsed).2 id = _
    rw [hread]
    exact valuesOf_observed _ _ id

/-- `--name` or `-n`. -/
def name : CliOption := ⟨[1], [110, 97, 109, 101], 110, false, by decide⟩

/-- `--out=value` or `-o value`. -/
def out : CliOption := ⟨[2], [111, 117, 116], 111, true, by decide⟩

/-- `-q`, whose longform `q` is no start of another. -/
def quiet : CliOption := ⟨[3], [113], 113, false, by decide⟩

def registered : OptionSet := [name, out, quiet].foldl register ColorTree.nil

/-- `--out=a -no b file -q`. -/
def commandLine : List Argument :=
  [⟨[45, 45, 111, 117, 116, 61, 97], by decide⟩, ⟨[45, 110, 111], by decide⟩, ⟨[98], by decide⟩,
    ⟨[102, 105, 108, 101], by decide⟩, ⟨[45, 113], by decide⟩]

theorem settings_read_back_sample :
    ∃ p', Parsing.parse ⟨registered, [], .empty⟩ ⟨[112], by decide⟩ commandLine = (.ok (), p') ∧
      p'.programName = [112] ∧ p'.options = registered ∧
      ∀ id, Answers ⟨registered, [], .empty⟩ p'
        [([2], some [97]), ([1], none), ([2], some [98]), ([3], none)] id := by
  have hname : Lettered registered name := ⟨by decide +kernel, by decide +kernel⟩
  have hquiet : Lettered registered quiet := ⟨by decide +kernel, by decide +kernel⟩
  have hout : Lettered registered out := ⟨by decide +kernel, by decide +kernel⟩
  have hspelled : Spelled registered out :=
    ⟨by decide +kernel, by decide, by decide +kernel, by decide +kernel⟩
  refine settings_read_back ⟨registered, [], .empty⟩ ⟨[112], by decide⟩
    [.longValue out [97], .shortValue [name] out [98], .other [102, 105, 108, 101], .short [quiet]] ?_
    commandLine rfl
  intro s hs
  simp only [List.mem_cons, List.not_mem_nil, or_false] at hs
  rcases hs with rfl | rfl | rfl | rfl
  · exact ⟨hspelled, rfl, by decide⟩
  · refine ⟨fun o ho => ?_, hout, rfl, ⟨110, [111], rfl, by decide⟩, by decide⟩
    obtain rfl := List.mem_singleton.mp ho
    exact ⟨hname, rfl⟩
  · exact (by decide : [102, 105, 108, 101].head? ≠ some dash)
  · refine ⟨fun o ho => ?_, ⟨113, [], rfl, by decide⟩⟩
    obtain rfl := List.mem_singleton.mp ho
    exact ⟨hquiet, rfl⟩

end NetworkDriver.Util.CliParser.RoundTrip
