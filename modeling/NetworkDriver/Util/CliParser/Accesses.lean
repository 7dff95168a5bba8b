import NetworkDriver.Util.CliParser.Parsing

/-! # The command-line parser: accesses

The parser again, with the accesses that it makes to a `string_view`, to the span of arguments and
to `parsed_`. An access that nothing is at fails, with a `Failure` of its own; how a call goes on
from there is not said. -/

namespace NetworkDriver.Util.CliParser.Accesses

open NetworkDriver.Library.Keyed
open NetworkDriver.Util.CliParser.Model NetworkDriver.Util.CliParser.Parsing NetworkDriver.Util.Format

/-- How a call ends that does not return: it throws, or makes an access that nothing is at. -/
inductive Failure where
  | runtimeError (message : Bytes)
  | outOfRange
  | emptyView
  | emptySpan
  deriving DecidableEq

/-- A part of the parser, which may change `parsed_`. -/
abbrev Action := ExceptT Failure (StateM ResultMap)

def run {α : Type} (x : Action α) (parsed : ResultMap) : Except Failure α × ResultMap := x parsed

/-! ### The accesses -/

/-- `opt.front()`. -/
def front : Bytes → Action UInt8
  | [] => throw .emptyView
  | c :: _ => return c

/-- `opt.substr(pos)`. -/
def substr (opt : Bytes) (pos : Nat) : Action Bytes :=
  if pos ≤ opt.length then return opt.drop pos else throw .outOfRange

/-- `args.front()`. -/
def frontArg : List Argument → Action Argument
  | [] => throw .emptySpan
  | arg :: _ => return arg

/-- `args.subspan(1)`. -/
def subspan : List Argument → Action (List Argument)
  | [] => throw .emptySpan
  | _ :: rest => return rest

/-- `parsed_.emplace(id, string_list{})`. -/
def emplace (id : Bytes) : Action Unit := modify fun parsed => record parsed id

/-- `parsed_.at(id).emplace_back(value)`. -/
def emplaceBack (id value : Bytes) : Action Unit := do
  let parsed ← get
  match parsed.find? id with
  | none => throw .outOfRange
  | some _ => set (addValue parsed id value)

/-! ### The functions of the parser -/

def parseLongformOpt (options : OptionSet) (longform : Bytes) : Action Unit :=
  match findLongform options longform with
  | none => return
  | some pos => do
    emplace pos.id
    if pos.hasValue then
      match split longform equalsSign with
      | [_, value] => emplaceBack pos.id value
      | _ => throw (.runtimeError (missingLongform longform))

/-- The value of the option `pos` that the first character `c` of `opt` names; `args` begins with the
argument that `opt` is from. -/
def shortformValue (pos : CliOption) (c : UInt8) (opt : Bytes) (args : List Argument) :
    Action (List Argument) :=
  if !pos.hasValue then return args
  else if opt.length > 1 then do
    let value ← substr opt 1
    emplaceBack pos.id value
    return args
  else if opt.length = 1 then do
    let args ← subspan args
    if args.isEmpty then throw (.runtimeError (missingShortform c))
    else do
      let arg ← frontArg args
      if startsWith arg.text [dash] then throw (.runtimeError (missingShortform c))
      else do
        emplaceBack pos.id arg.text
        return args
  else return args

/-- The for loop of `parse_shortform_opt`, at its condition. -/
def shortformLoop (options : OptionSet) :
    UInt8 → Bytes → List Argument → Action (List Argument)
  | _, [], args => return args
  | c, d :: opt, args =>
    match findShortform options c with
    | none => return args
    | some pos => do
      emplace pos.id
      let args ← shortformValue pos c (d :: opt) args
      -- here `opt` has lost its first character, which it has, and may be empty
      let c ← front opt
      shortformLoop options c opt args

/-- `parse_shortform_opt`. -/
def parseShortformOpt (options : OptionSet) (opt : Bytes) (args : List Argument) :
    Action (List Argument) := do
  let c ← front opt
  shortformLoop options c opt args

/-- A turn of the loop of `parse`, without the `subspan` after it. -/
def iteration (options : OptionSet) (args : List Argument) : Action (List Argument) := do
  let opt ← frontArg args
  if startsWith opt.text [dash, dash] then do
    let longform ← substr opt.text 2
    parseLongformOpt options longform
    return args
  else if startsWith opt.text [dash] then do
    let shortforms ← substr opt.text 1
    parseShortformOpt options shortforms args
  else return args

/-- The loop of `parse`, if it ends in fewer turns than that. -/
def parseLoop (options : OptionSet) :
    Nat → List Argument → ResultMap → Option (Except Failure Unit × ResultMap)
  | 0, _, _ => none
  | turns + 1, args, parsed =>
    if args.isEmpty then some (.ok (), parsed)
    else
      match run (iteration options args >>= subspan) parsed with
      | (.error failure, parsed) => some (.error failure, parsed)
      | (.ok args, parsed) => parseLoop options turns args parsed

/-- `parse`, if its loop ends in fewer turns than that. -/
def parse (turns : Nat) (p : Parser) (args : List Argument) : Option (Except Failure Unit × Parser) :=
  match run (frontArg args) p.parsed, run (subspan args) p.parsed with
  | (.error failure, _), _ => some (.error failure, p)
  | (.ok name, _), (.error failure, _) => some (.error failure, { p with programName := name.text })
  | (.ok name, _), (.ok args, _) =>
    (parseLoop p.options turns args p.parsed).map fun r =>
      (r.1, { p with programName := name.text, parsed := r.2 })

/-! ### The accesses and the calls around them -/

section Calls

variable {α β : Type} {x : Action α} {f : α → Action β} {parsed parsed' : ResultMap}

theorem run_bind_of_ok {a : α} (h : run x parsed = (.ok a, parsed')) :
    run (x >>= f) parsed = run (f a) parsed' := by
  unfold run at h
  unfold run
  simp only [bind, ExceptT.bind, ExceptT.mk, StateT.bind, h, ExceptT.bindCont]

theorem run_bind_of_error {failure : Failure} (h : run x parsed = (.error failure, parsed')) :
    run (x >>= f) parsed = (.error failure, parsed') := by
  unfold run at h
  unfold run
  simp only [bind, ExceptT.bind, ExceptT.mk, StateT.bind, h, ExceptT.bindCont]
  rfl

end Calls

@[simp] theorem run_return {α : Type} (a : α) (parsed : ResultMap) :
    run (return a) parsed = (.ok a, parsed) := rfl

@[simp] theorem run_throw {α : Type} (failure : Failure) (parsed : ResultMap) :
    run (throw failure : Action α) parsed = (.error failure, parsed) := rfl

theorem run_get (parsed : ResultMap) :
    run (get : Action ResultMap) parsed = (.ok parsed, parsed) := rfl

@[simp] theorem run_emplace (id : Bytes) (parsed : ResultMap) :
    run (emplace id) parsed = (.ok (), record parsed id) := rfl

theorem run_substr {opt : Bytes} {pos : Nat} (h : pos ≤ opt.length) (parsed : ResultMap) :
    run (substr opt pos) parsed = (.ok (opt.drop pos), parsed) := by
  unfold substr
  rw [if_pos h]
  rfl

/-- What was just recorded is there for `at`. -/
theorem run_emplaceBack (id value : Bytes) (parsed : ResultMap) :
    run (emplaceBack id value) (record parsed id) =
      (.ok (), addValue (record parsed id) id value) := by
  have hfound : valuesOf (record parsed id) id ≠ none := by
    rw [valuesOf_record, if_pos rfl]
    cases valuesOf parsed id <;> simp
  unfold emplaceBack
  rw [run_bind_of_ok (run_get (record parsed id))]
  cases hfind : (record parsed id).find? id with
  | none =>
    unfold valuesOf at hfound
    rw [hfind] at hfound
    exact absurd rfl hfound
  | some e => rfl

end NetworkDriver.Util.CliParser.Accesses
