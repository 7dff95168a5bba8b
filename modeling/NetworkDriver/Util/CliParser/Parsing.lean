import NetworkDriver.Library.Keyed
import NetworkDriver.Util.CliParser.Model
import NetworkDriver.Util.Format
import Mathlib.Logic.Relation

/-! # The command-line parser: parsing

`parse` walks the arguments after the program name. One turn of its loop, `iteration`, looks at the
first of them and leaves those that are still to be read; `Reached` are the heads of the loop that
it comes to.

* `parseLoop_ok`, `parseLoop_error`: the loop ends, and how.
* `Grows`: what is recorded stays recorded, with the values it has. -/

namespace NetworkDriver.Util.CliParser.Parsing

open NetworkDriver.Library.Keyed NetworkDriver.Library.RedBlack
open NetworkDriver.Util.CliParser.Model NetworkDriver.Util.Format

/-- An argument of the program: a C string, so a string without a NUL. -/
structure Argument where
  text : Bytes
  noNul : 0 ∉ text
  deriving DecidableEq

/-- `result_map`: the values found for every option, by its id. -/
abbrev ResultMap := KeyedMap (Prod.fst : Bytes × List Bytes → Bytes)

/-- `parsed_.emplace(id, string_list{})`. -/
def record (parsed : ResultMap) (id : Bytes) : ResultMap := parsed.emplace (id, [])

/-- `parsed_.at(id).emplace_back(value)`. -/
def addValue (parsed : ResultMap) (id value : Bytes) : ResultMap :=
  parsed.update id (fun e => (e.1, e.2 ++ [value])) fun _ => rfl

/-- `option_values`, if the option is contained. -/
def valuesOf (parsed : ResultMap) (id : Bytes) : Option (List Bytes) := (parsed.find? id).map Prod.snd

/-- `'-'`. -/
def dash : UInt8 := 45

/-- `'='`. -/
def equalsSign : UInt8 := 61

def startsWith (text start : Bytes) : Bool := start.isPrefixOf text

/-! ### The functions of the parser -/

/-- The `find_if` of `parse_longform_opt`. -/
def findLongform (options : OptionSet) (longform : Bytes) : Option CliOption :=
  options.toList.find? fun opt => startsWith longform opt.longform

def missingLongform (longform : Bytes) : Bytes :=
  bytesOf "Missing an expected argument for longform option \"" ++ longform ++ bytesOf "\""

def parseLongformOpt (options : OptionSet) (longform : Bytes) (parsed : ResultMap) :
    Except Bytes Unit × ResultMap :=
  match findLongform options longform with
  | none => (.ok (), parsed)
  | some opt =>
    if opt.hasValue then
      match split longform equalsSign with
      | [_, value] => (.ok (), addValue (record parsed opt.id) opt.id value)
      | _ => (.error (missingLongform longform), record parsed opt.id)
    else (.ok (), record parsed opt.id)

/-- The `find` of `parse_shortform_opt`. -/
def findShortform (options : OptionSet) (c : UInt8) : Option CliOption :=
  options.toList.find? fun opt => opt.shortform == c

def missingShortform (c : UInt8) : Bytes :=
  bytesOf "Missing an expected argument for shortform option'" ++ [c] ++ bytesOf "'"

/-- `parse_shortform_opt`; `args` begins with the argument that `opt` is from. -/
def parseShortformOpt (options : OptionSet) :
    Bytes → List Argument → ResultMap → Except Bytes (List Argument) × ResultMap
  | [], args, parsed => (.ok args, parsed)
  | c :: opt, args, parsed =>
    match findShortform options c with
    | none => (.ok args, parsed)
    | some o =>
      if o.hasValue then
        if opt ≠ [] then
          -- the loop goes on with the characters of the value
          parseShortformOpt options opt args (addValue (record parsed o.id) o.id opt)
        else
          match args.tail with
          | [] => (.error (missingShortform c), record parsed o.id)
          | arg :: rest =>
            if startsWith arg.text [dash] then (.error (missingShortform c), record parsed o.id)
            else parseShortformOpt options opt (arg :: rest) (addValue (record parsed o.id) o.id arg.text)
      else parseShortformOpt options opt args (record parsed o.id)

/-- A turn of the loop of `parse`, with the `subspan` after it: whether it throws, or else what is
left. -/
def iteration (options : OptionSet) (arg : Argument) (rest : List Argument) (parsed : ResultMap) :
    Except Bytes (List Argument) × ResultMap :=
  if startsWith arg.text [dash, dash] then
    ((parseLongformOpt options (arg.text.drop 2) parsed).1.map fun _ => rest,
      (parseLongformOpt options (arg.text.drop 2) parsed).2)
  else if startsWith arg.text [dash] then
    ((parseShortformOpt options (arg.text.drop 1) (arg :: rest) parsed).1.map List.tail,
      (parseShortformOpt options (arg.text.drop 1) (arg :: rest) parsed).2)
  else (.ok rest, parsed)

/-- The loop of `parse`, for at most so many turns. -/
def parseLoop (options : OptionSet) : Nat → List Argument → ResultMap → Except Bytes Unit × ResultMap
  | 0, _, parsed => (.ok (), parsed)
  | _ + 1, [], parsed => (.ok (), parsed)
  | turns + 1, arg :: rest, parsed =>
    match iteration options arg rest parsed with
    | (.error message, parsed) => (.error message, parsed)
    | (.ok args, parsed) => parseLoop options turns args parsed

/-- The members of a `cli_parser`. -/
structure Parser where
  options : OptionSet
  programName : Bytes
  parsed : ResultMap

/-- `parse`, which skips the program name at the front. -/
def parse (p : Parser) (front : Argument) (args : List Argument) : Except Bytes Unit × Parser :=
  ((parseLoop p.options args.length args p.parsed).1,
    { p with
      programName := front.text
      parsed := (parseLoop p.options args.length args p.parsed).2 })

/-! ### The heads of the loop -/

/-- A turn that does not throw. -/
def Next (options : OptionSet) (s s' : List Argument × ResultMap) : Prop :=
  ∃ arg rest, s.1 = arg :: rest ∧ iteration options arg rest s.2 = (.ok s'.1, s'.2)

/-- The heads of the loop that `parse` comes to. -/
def Reached (options : OptionSet) (args : List Argument) (parsed : ResultMap) :
    List Argument × ResultMap → Prop :=
  Relation.ReflTransGen (Next options) (args, parsed)

/-- The span that is returned is not longer than the one given, and not empty if that is not. -/
theorem parseShortformOpt_suffix {options : OptionSet} {opt : Bytes} {args args' : List Argument}
    {parsed : ResultMap} (h : (parseShortformOpt options opt args parsed).1 = .ok args') :
    args' <:+ args := by
  induction opt generalizing args parsed with
  | nil =>
    obtain rfl : args = args' := by injection h
    exact List.suffix_refl args
  | cons c opt ih =>
    unfold parseShortformOpt at h
    split at h
    · obtain rfl : args = args' := by injection h
      exact List.suffix_refl args
    · split_ifs at h
      · exact ih h
      · split at h
        · cases h
        · rename_i htail
          split_ifs at h
          have hsuffix := ih h
          rw [← htail] at hsuffix
          exact hsuffix.trans (List.tail_suffix args)
      · exact ih h

theorem iteration_length {options : OptionSet} {arg : Argument} {rest args : List Argument}
    {parsed : ResultMap} (h : (iteration options arg rest parsed).1 = .ok args) :
    args.length ≤ rest.length := by
  unfold iteration at h
  split_ifs at h
  · cases hl : (parseLongformOpt options (arg.text.drop 2) parsed).1 with
    | error message =>
      rw [hl] at h
      cases h
    | ok =>
      rw [hl] at h
      cases h
      exact le_rfl
  · cases hs : (parseShortformOpt options (arg.text.drop 1) (arg :: rest) parsed).1 with
    | error message =>
      rw [hs] at h
      cases h
    | ok args' =>
      rw [hs] at h
      cases h
      have hlength := (parseShortformOpt_suffix hs).length_le
      simp only [List.length_cons] at hlength
      simp only [List.length_tail]
      omega
  · cases h
    exact le_rfl

/-- **The loop ends**: with all arguments read, or with the exception of its last turn. -/
theorem parseLoop_ends {options : OptionSet} {turns : Nat} {args : List Argument} {parsed : ResultMap}
    (hturns : args.length ≤ turns) :
    ((parseLoop options turns args parsed).1 = .ok () ∧
        Reached options args parsed ([], (parseLoop options turns args parsed).2)) ∨
      ∃ message arg rest parsed', (parseLoop options turns args parsed).1 = .error message ∧
        Reached options args parsed (arg :: rest, parsed') ∧
        iteration options arg rest parsed' = (.error message, (parseLoop options turns args parsed).2) := by
  induction turns generalizing args parsed with
  | zero =>
    obtain rfl := List.length_eq_zero_iff.mp (Nat.le_zero.mp hturns)
    exact .inl ⟨rfl, .refl⟩
  | succ turns ih =>
    cases args with
    | nil => exact .inl ⟨rfl, .refl⟩
    | cons arg rest =>
      cases hi : iteration options arg rest parsed with
      | mk result parsed' =>
        cases result with
        | error message =>
          have hloop : parseLoop options (turns + 1) (arg :: rest) parsed = (.error message, parsed') := by
            simp only [parseLoop, hi]
          rw [hloop]
          exact .inr ⟨message, arg, rest, parsed, rfl, .refl, hi⟩
        | ok args =>
          have hloop : parseLoop options (turns + 1) (arg :: rest) parsed =
              parseLoop options turns args parsed' := by
            simp only [parseLoop, hi]
          have hlength : args.length ≤ turns := by
            have hargs : (iteration options arg rest parsed).1 = .ok args := by rw [hi]
            have hle := iteration_length hargs
            rw [List.length_cons] at hturns
            omega
          have hnext : Next options (arg :: rest, parsed) (args, parsed') := ⟨arg, rest, rfl, hi⟩
          rw [hloop]
          rcases @ih args parsed' hlength with ⟨hok, hreached⟩ | ⟨message, a, r, p, he, hreached, hlast⟩
          · exact .inl ⟨hok, .head hnext hreached⟩
          · exact .inr ⟨message, a, r, p, he, .head hnext hreached, hlast⟩

/-! ### What is recorded -/

theorem valuesOf_record (parsed : ResultMap) (id id' : Bytes) :
    valuesOf (record parsed id) id' = (valuesOf parsed id').or (if id = id' then some [] else none) := by
  unfold valuesOf record
  rw [KeyedMap.find?_emplace_eq]
  cases parsed.find? id' with
  | some e => rfl
  | none =>
    rw [Option.none_or, Option.map_none, Option.none_or]
    split_ifs <;> rfl

theorem valuesOf_addValue (parsed : ResultMap) (id value id' : Bytes) :
    valuesOf (addValue parsed id value) id' =
      (valuesOf parsed id').map fun values => if id' = id then values ++ [value] else values := by
  unfold valuesOf addValue
  rw [KeyedMap.find?_update]
  cases parsed.find? id' with
  | none => rfl
  | some e =>
    rw [Option.map_some, Option.map_some, Option.map_some, Option.map_some]
    split_ifs <;> rfl

/-- Recording an option again changes nothing. -/
theorem record_of_contains {parsed : ResultMap} {id : Bytes} (h : (valuesOf parsed id).isSome = true) :
    record parsed id = parsed := by
  unfold record KeyedMap.emplace
  refine dif_pos ?_
  unfold valuesOf at h
  rw [Option.isSome_map] at h
  obtain ⟨e, he⟩ := Option.isSome_iff_exists.mp h
  obtain ⟨hmem, hid⟩ := KeyedMap.find?_eq_some.mp he
  exact List.mem_map.mpr ⟨e, hmem, hid⟩

/-- Every option recorded stays recorded, with at least the values it has. -/
def Grows (parsed parsed' : ResultMap) : Prop :=
  ∀ id values, valuesOf parsed id = some values → ∃ more, valuesOf parsed' id = some (values ++ more)

theorem Grows.refl (parsed : ResultMap) : Grows parsed parsed :=
  fun _ values h => ⟨[], by rw [List.append_nil, h]⟩

theorem Grows.trans {p q r : ResultMap} (h : Grows p q) (h' : Grows q r) : Grows p r := by
  intro id values hp
  obtain ⟨more, hq⟩ := h id values hp
  obtain ⟨more', hr⟩ := h' id _ hq
  exact ⟨more ++ more', by rw [hr, List.append_assoc]⟩

theorem grows_record (parsed : ResultMap) (id : Bytes) : Grows parsed (record parsed id) := by
  intro id' values h
  refine ⟨[], ?_⟩
  rw [valuesOf_record, h, List.append_nil]
  rfl

theorem grows_addValue (parsed : ResultMap) (id value : Bytes) :
    Grows parsed (addValue parsed id value) := by
  intro id' values h
  rw [valuesOf_addValue, h, Option.map_some]
  split_ifs
  · exact ⟨[value], rfl⟩
  · exact ⟨[], by rw [List.append_nil]⟩

theorem grows_parseShortformOpt (options : OptionSet) (opt : Bytes) (args : List Argument)
    (parsed : ResultMap) : Grows parsed (parseShortformOpt options opt args parsed).2 := by
  induction opt generalizing args parsed with
  | nil => exact .refl parsed
  | cons c opt ih =>
    unfold parseShortformOpt
    split
    · exact .refl parsed
    · rename_i o _
      have hrecord := grows_record parsed o.id
      split_ifs
      · exact (hrecord.trans (grows_addValue _ _ _)).trans (ih _ _)
      · split
        · exact hrecord
        · split_ifs
          · exact hrecord
          · exact (hrecord.trans (grows_addValue _ _ _)).trans (ih _ _)
      · exact hrecord.trans (ih _ _)

end NetworkDriver.Util.CliParser.Parsing
