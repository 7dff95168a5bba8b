import NetworkDriver.Library.Keyed
import NetworkDriver.Util.Format

/-! # The configuration

A configuration is a dictionary from strings to entries of four types. `parse_file` reads one line
by line; it keeps the names of the open scopes in one string and their lengths on a stack.
`std::from_chars` for a `double` is a parameter, a function from a string to the value at its start
and the rest.

* `parseLine_eq`: a line is read, or rejected, whatever the scope and the dictionary.
* `lineStep_opening`, `lineStep_closing`, `lineStep_pair`: what a line does to the state.
* `get_entry`, `get_other`: an entry is found under its own type only. -/

namespace NetworkDriver.Util.Configuration.Model

open NetworkDriver.Library.Keyed NetworkDriver.Util.Format

/-! ### Entries -/

/-- `entry_type`, with `δ` for `double`. -/
inductive Entry (δ : Type) where
  | bool (value : Bool)
  | int64 (value : Int64)
  | double (value : δ)
  | string (value : Bytes)
  deriving DecidableEq

/-- The alternatives of `entry_type`. -/
inductive EntryKind where
  | bool
  | int64
  | double
  | string
  deriving DecidableEq

/-- The type of an alternative. -/
abbrev EntryKind.type (δ : Type) : EntryKind → Type
  | .bool => Bool
  | .int64 => Int64
  | .double => δ
  | .string => Bytes

variable {δ : Type}

/-- An entry of a given type. -/
def EntryKind.entry : (kind : EntryKind) → kind.type δ → Entry δ
  | .bool, value => .bool value
  | .int64, value => .int64 value
  | .double, value => .double value
  | .string, value => .string value

/-- `std::get_if`. -/
def Entry.get? : (kind : EntryKind) → Entry δ → Option (kind.type δ)
  | .bool, .bool value => some value
  | .int64, .int64 value => some value
  | .double, .double value => some value
  | .string, .string value => some value
  | _, _ => none

abbrev Dictionary (δ : Type) := KeyedMap (Prod.fst : Bytes × Entry δ → Bytes)

/-- `dict.at(key)`, if the key is there. -/
def lookup (dict : Dictionary δ) (key : Bytes) : Option (Entry δ) := (dict.find? key).map Prod.snd

/-! ### Reading a line -/

def space : UInt8 := 32
def dot : UInt8 := 46
def equalsSign : UInt8 := 61
def openingBrace : UInt8 := 123
def closingBrace : UInt8 := 125

/-- `"true"`. -/
def trueText : Bytes := [116, 114, 117, 101]

/-- `"false"`. -/
def falseText : Bytes := [102, 97, 108, 115, 101]

/-- What ends `parse_file` without a dictionary: a `util::exception` with `parser_error`, `top` of an
empty stack, or a `resize` to a size that wrapped around. -/
inductive Fault where
  | exception (reason : Bytes)
  | emptyTop
  | lengthError

def parserError (line : Bytes) : Fault :=
  .exception ("Error while parsing config line=\"".toUTF8.toList ++ line ++ "\"".toUTF8.toList)

def isBool (value : Bytes) : Bool := value == trueText || value == falseText

def isDouble (value : Bytes) : Bool :=
  value.count dot == 1 && value.all fun c => isDigit c || c == dot

def isInteger (value : Bytes) : Bool := value.count dot == 0 && value.all isDigit

def addEntry {α : Type} (fromChars : Bytes → Option (α × Bytes)) (entry : α → Entry δ)
    (key value line : Bytes) (dict : Dictionary δ) : Except Fault (Dictionary δ) :=
  match parse fromChars value with
  | some t => .ok (dict.emplace (key, entry t))
  | none => .error (parserError line)

/-- A `std::from_chars` for `double`. -/
abbrev FromCharsDouble (δ : Type) := Bytes → Option (δ × Bytes)

def parseLine (fromCharsDouble : FromCharsDouble δ) (scopePrefix line : Bytes) (dict : Dictionary δ) :
    Except Fault (Dictionary δ) :=
  match split line equalsSign with
  | [front, back] =>
    if front = [] ∨ back = [] then .error (parserError line)
    else if isBool back then .ok (dict.emplace (scopePrefix ++ front, .bool (back == trueText)))
    else if isDouble back then addEntry fromCharsDouble .double (scopePrefix ++ front) back line dict
    else if isInteger back then addEntry fromCharsInt64 .int64 (scopePrefix ++ front) back line dict
    else .ok (dict.emplace (scopePrefix ++ front, .string back))
  | _ => .error (parserError line)

/-! ### Reading a file -/

/-- The local variables of `parse_file`. -/
structure Scan (δ : Type) where
  dict : Dictionary δ
  scopePrefix : Bytes
  prefixLengths : List ℕ

def Scan.start : Scan δ := ⟨.empty, [], []⟩

/-- A turn of the loop of `parse_file`. -/
def lineStep (fromCharsDouble : FromCharsDouble δ) (s : Scan δ) (line : Bytes) : Except Fault (Scan δ) :=
  let text := remove line space
  if text = [] then .ok s
  else if openingBrace ∈ text then
    let newScope := remove text openingBrace ++ [dot]
    .ok { s with
      scopePrefix := s.scopePrefix ++ newScope
      prefixLengths := newScope.length :: s.prefixLengths }
  else if closingBrace ∈ text then
    match s.prefixLengths with
    | [] => .error .emptyTop
    | top :: lengths =>
      -- the difference is unsigned
      if top ≤ s.scopePrefix.length then
        .ok { s with
          scopePrefix := s.scopePrefix.take (s.scopePrefix.length - top)
          prefixLengths := lengths }
      else .error .lengthError
  else (parseLine fromCharsDouble s.scopePrefix text s.dict).map fun dict => { s with dict := dict }

/-- `'\n'`. -/
def newline : UInt8 := 10

/-- The lines that `std::getline` returns: nothing is left to return after a newline at the end. -/
def getlines (content : Bytes) : List Bytes :=
  let pieces := split content newline
  if pieces.getLast? = some [] then pieces.dropLast else pieces

/-- The lines of a file, which has none if it cannot be opened. -/
def fileLines (file : Option Bytes) : List Bytes := file.elim [] getlines

def parseFile (fromCharsDouble : FromCharsDouble δ) (file : Option Bytes) :
    Except Fault (Dictionary δ) :=
  ((fileLines file).foldlM (lineStep fromCharsDouble) .start).map Scan.dict

/-! ### The configuration -/

/-- The member of a `config`. -/
structure Config (δ : Type) where
  configValues : Dictionary δ

/-- `config::parse`. -/
def Config.parse (fromCharsDouble : FromCharsDouble δ) (c : Config δ) (file : Option Bytes) :
    Except Fault Unit × Config δ :=
  match parseFile fromCharsDouble file with
  | .ok dict => (.ok (), ⟨dict⟩)
  | .error fault => (.error fault, c)

def Config.hasEntry (c : Config δ) (kind : EntryKind) (key : Bytes) : Bool :=
  match lookup c.configValues key with
  | some entry => (entry.get? kind).isSome
  | none => false

def Config.tryGet (c : Config δ) (kind : EntryKind) (key : Bytes) : Option (kind.type δ) :=
  match lookup c.configValues key with
  | some entry => entry.get? kind
  | none => none

def Config.get (c : Config δ) (kind : EntryKind) (key : Bytes) : Option (kind.type δ) := c.tryGet kind key

def Config.getOr (c : Config δ) (kind : EntryKind) (key : Bytes) (fallback : kind.type δ) : kind.type δ :=
  (c.tryGet kind key).getD fallback

/-! ### Typed access -/

/-- The type of the alternative that is held. -/
def Entry.kind : Entry δ → EntryKind
  | .bool _ => .bool
  | .int64 _ => .int64
  | .double _ => .double
  | .string _ => .string

theorem get?_entry (kind : EntryKind) (value : kind.type δ) :
    (kind.entry value).get? kind = some value := by
  cases kind <;> rfl

theorem get?_of_kind_ne {entry : Entry δ} {kind : EntryKind} (h : entry.kind ≠ kind) :
    entry.get? kind = none := by
  cases entry <;> cases kind <;> first | rfl | exact absurd rfl h

/-- **An entry is found under its own type.** -/
theorem get_entry {c : Config δ} {key : Bytes} {kind : EntryKind} {value : kind.type δ}
    (h : lookup c.configValues key = some (kind.entry value)) : c.get kind key = some value := by
  unfold Config.get Config.tryGet
  rw [h]
  exact get?_entry kind value

/-- **An entry of another type is not found.** -/
theorem get_other {c : Config δ} {key : Bytes} {entry : Entry δ} {kind : EntryKind}
    (h : lookup c.configValues key = some entry) (hkind : entry.kind ≠ kind) : c.get kind key = none := by
  unfold Config.get Config.tryGet
  rw [h]
  exact get?_of_kind_ne hkind

/-- `has_entry` says whether `get` finds an entry. -/
theorem hasEntry_eq (c : Config δ) (kind : EntryKind) (key : Bytes) :
    c.hasEntry kind key = (c.get kind key).isSome := by
  unfold Config.hasEntry Config.get Config.tryGet
  cases lookup c.configValues key <;> rfl

theorem getOr_eq (c : Config δ) (kind : EntryKind) (key : Bytes) (fallback : kind.type δ) :
    c.getOr kind key fallback = (c.get kind key).getD fallback := rfl

/-! ### Lines -/

/-- What a value is read as, unless it is rejected. -/
def readValue (fromCharsDouble : FromCharsDouble δ) (value : Bytes) : Option (Entry δ) :=
  if isBool value then some (.bool (value == trueText))
  else if isDouble value then (Format.parse fromCharsDouble value).map .double
  else if isInteger value then (Format.parse fromCharsInt64 value).map .int64
  else some (.string value)

/-- What a line is read as, unless it is rejected. -/
def readLine (fromCharsDouble : FromCharsDouble δ) (line : Bytes) : Option (Bytes × Entry δ) :=
  match split line equalsSign with
  | [front, back] =>
    if front = [] ∨ back = [] then none else (readValue fromCharsDouble back).map fun entry => (front, entry)
  | _ => none

theorem addEntry_eq {α : Type} (fromChars : Bytes → Option (α × Bytes)) (entry : α → Entry δ)
    (key value line : Bytes) (dict : Dictionary δ) :
    addEntry fromChars entry key value line dict =
      match (Format.parse fromChars value).map entry with
      | some e => .ok (dict.emplace (key, e))
      | none => .error (parserError line) := by
  unfold addEntry
  cases Format.parse fromChars value <;> rfl

/-- **A line is read, or rejected, whatever the scope and the dictionary.** -/
theorem parseLine_eq (fromCharsDouble : FromCharsDouble δ) (scopePrefix line : Bytes)
    (dict : Dictionary δ) :
    parseLine fromCharsDouble scopePrefix line dict =
      match readLine fromCharsDouble line with
      | some e => .ok (dict.emplace (scopePrefix ++ e.1, e.2))
      | none => .error (parserError line) := by
  unfold parseLine readLine
  split
  · rename_i front back _
    by_cases hempty : front = [] ∨ back = []
    · rw [if_pos hempty, if_pos hempty]
    · rw [if_neg hempty, if_neg hempty]
      unfold readValue
      split_ifs
      · rfl
      · rw [addEntry_eq]
        cases (Format.parse fromCharsDouble back).map Entry.double <;> rfl
      · rw [addEntry_eq]
        cases (Format.parse fromCharsInt64 back).map Entry.int64 <;> rfl
      · rfl
  · rfl

theorem readLine_pair {fromCharsDouble : FromCharsDouble δ} {front back : Bytes} (hfront : front ≠ [])
    (hback : back ≠ []) (hf : equalsSign ∉ front) (hb : equalsSign ∉ back) :
    readLine fromCharsDouble (front ++ equalsSign :: back) =
      (readValue fromCharsDouble back).map fun entry => (front, entry) := by
  unfold readLine
  rw [split_eq_pair.mpr ⟨rfl, hf, hb⟩]
  exact if_neg (not_or.mpr ⟨hfront, hback⟩)

section lineStep

variable {fromCharsDouble : FromCharsDouble δ} {s : Scan δ} {line : Bytes}

theorem lineStep_blank (h : remove line space = []) : lineStep fromCharsDouble s line = .ok s :=
  if_pos h

theorem lineStep_opening (h : openingBrace ∈ remove line space) :
    lineStep fromCharsDouble s line =
      .ok { s with
        scopePrefix := s.scopePrefix ++ (remove (remove line space) openingBrace ++ [dot])
        prefixLengths := (remove (remove line space) openingBrace ++ [dot]).length :: s.prefixLengths } := by
  have hne := List.ne_nil_of_mem h
  unfold lineStep
  simp only [if_neg hne, if_pos h]

theorem lineStep_closing_empty (hopening : openingBrace ∉ remove line space)
    (h : closingBrace ∈ remove line space) (hlengths : s.prefixLengths = []) :
    lineStep fromCharsDouble s line = .error .emptyTop := by
  have hne := List.ne_nil_of_mem h
  unfold lineStep
  simp only [if_neg hne, if_neg hopening, if_pos h, hlengths]

theorem lineStep_closing {top : ℕ} {lengths : List ℕ} (hopening : openingBrace ∉ remove line space)
    (h : closingBrace ∈ remove line space) (hlengths : s.prefixLengths = top :: lengths)
    (htop : top ≤ s.scopePrefix.length) :
    lineStep fromCharsDouble s line =
      .ok { s with
        scopePrefix := s.scopePrefix.take (s.scopePrefix.length - top)
        prefixLengths := lengths } := by
  have hne := List.ne_nil_of_mem h
  unfold lineStep
  simp only [if_neg hne, if_neg hopening, if_pos h, hlengths, if_pos htop]

theorem lineStep_pair (hne : remove line space ≠ []) (hopening : openingBrace ∉ remove line space)
    (hclosing : closingBrace ∉ remove line space) :
    lineStep fromCharsDouble s line =
      match readLine fromCharsDouble (remove line space) with
      | some e => .ok { s with dict := s.dict.emplace (s.scopePrefix ++ e.1, e.2) }
      | none => .error (parserError (remove line space)) := by
  unfold lineStep
  simp only [if_neg hne, if_neg hopening, if_neg hclosing, parseLine_eq]
  cases readLine fromCharsDouble (remove line space) <;> rfl

end lineStep

/-! ### Lookups -/

/-- **The first entry with a key stays.** -/
theorem lookup_emplace (dict : Dictionary δ) (e : Bytes × Entry δ) (key : Bytes) :
    lookup (dict.emplace e) key = (lookup dict key).or (if e.1 = key then some e.2 else none) := by
  unfold lookup
  rw [KeyedMap.find?_emplace_eq]
  cases dict.find? key with
  | some e' => rfl
  | none =>
    rw [Option.none_or, Option.map_none, Option.none_or]
    split_ifs <;> rfl

end NetworkDriver.Util.Configuration.Model
