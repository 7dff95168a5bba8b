import NetworkDriver.Util.CliParser.Accesses

/-! # The command-line parser: bounds

The for loop of `parse_shortform_opt` reads `c = opt.front()` in front of its first turn and at the
end of each one, before it looks whether `opt` is empty. So it has to leave a token of short options
early, at a character that is no shortform or with an exception: read to the end, the token is
read one character too far, and a lone dash is from the beginning.

* `turn_passes`, `turn_throws`, `turn_overrun`: what a turn of the loop of `parse` does.
* `parse_ends`, `parse_refines`: every call ends; where no access fails, as in `Parsing`.
* `bounds_iff`: the command lines on which no access fails. -/

namespace NetworkDriver.Util.CliParser.Bounds

open NetworkDriver.Util.CliParser.Model NetworkDriver.Util.CliParser.Accesses
open NetworkDriver.Util.CliParser.Parsing (Argument ResultMap Parser record addValue findLongform
  findShortform missingShortform startsWith dash equalsSign)
open NetworkDriver.Util.Format (Bytes split)

/-! ### One token -/

/-- Whether `parse_longform_opt` throws. -/
def longformThrows (options : OptionSet) (longform : Bytes) : Bool :=
  match findLongform options longform with
  | none => false
  | some o => o.hasValue && (split longform equalsSign).length != 2

/-- A character of the token is no shortform: the loop returns there. -/
def stops (options : OptionSet) (opt : Bytes) : Bool :=
  opt.any fun c => (findShortform options c).isNone

/-- The last character of the token is an option with a value, and none follows. -/
def lacksValue (options : OptionSet) (opt : Bytes) (rest : List Argument) : Bool :=
  match opt.getLast?.bind (findShortform options) with
  | none => false
  | some o => o.hasValue && rest.head?.all fun arg => startsWith arg.text [dash]

/-- The turn for `arg` throws. -/
def Throws (options : OptionSet) (arg : Argument) (rest : List Argument) : Prop :=
  if startsWith arg.text [dash, dash] then longformThrows options (arg.text.drop 2) = true
  else if startsWith arg.text [dash] then
    stops options (arg.text.drop 1) = false ∧ lacksValue options (arg.text.drop 1) rest = true
  else False

/-- The turn for `arg` returns. -/
def Passes (options : OptionSet) (arg : Argument) : Prop :=
  if startsWith arg.text [dash, dash] then longformThrows options (arg.text.drop 2) = false
  else if startsWith arg.text [dash] then stops options (arg.text.drop 1) = true
  else True

instance (options : OptionSet) (arg : Argument) (rest : List Argument) :
    Decidable (Throws options arg rest) :=
  inferInstanceAs (Decidable (if startsWith arg.text [dash, dash] then
      longformThrows options (arg.text.drop 2) = true
    else if startsWith arg.text [dash] then
      stops options (arg.text.drop 1) = false ∧ lacksValue options (arg.text.drop 1) rest = true
    else False))

instance (options : OptionSet) (arg : Argument) : Decidable (Passes options arg) :=
  inferInstanceAs (Decidable (if startsWith arg.text [dash, dash] then
      longformThrows options (arg.text.drop 2) = false
    else if startsWith arg.text [dash] then stops options (arg.text.drop 1) = true
    else True))

/-- A result of the parser without failing accesses, as one of the parser with them. -/
def embed {α : Type} (r : Except Bytes α × ResultMap) : Except Failure α × ResultMap :=
  (r.1.mapError .runtimeError, r.2)

theorem run_parseLongformOpt (options : OptionSet) (longform : Bytes) (parsed : ResultMap) :
    run (parseLongformOpt options longform) parsed =
      embed (Parsing.parseLongformOpt options longform parsed) := by
  unfold parseLongformOpt Parsing.parseLongformOpt
  cases findLongform options longform with
  | none => rfl
  | some pos =>
    dsimp only
    rw [run_bind_of_ok (run_emplace pos.id parsed)]
    cases pos.hasValue with
    | false => rfl
    | true =>
      rw [if_pos rfl, if_pos rfl]
      -- a value is read from two parts, and any other number is an exception
      rcases split longform equalsSign with _ | ⟨name, _ | ⟨value, _ | ⟨part, parts⟩⟩⟩
      · rfl
      · rfl
      · exact run_emplaceBack pos.id value parsed
      · rfl

theorem longformThrows_iff (options : OptionSet) (longform : Bytes) (parsed : ResultMap) :
    longformThrows options longform = true ↔
      ∃ message, (Parsing.parseLongformOpt options longform parsed).1 = .error message := by
  unfold longformThrows Parsing.parseLongformOpt
  cases findLongform options longform with
  | none => simp
  | some pos =>
    cases hvalue : pos.hasValue with
    | false => simp [hvalue]
    | true =>
      dsimp only
      rw [hvalue, if_pos rfl]
      rcases split longform equalsSign with _ | ⟨name, _ | ⟨value, _ | ⟨part, parts⟩⟩⟩
      · exact iff_of_true rfl ⟨_, rfl⟩
      · exact iff_of_true rfl ⟨_, rfl⟩
      · simp
      · exact iff_of_true (by simp) ⟨_, rfl⟩

/-! ### The loop over a token of short options -/

/-- What a turn that does not end the loop records of an option with the characters `opt` behind it. -/
def recordHead (pos : CliOption) (opt : Bytes) (parsed : ResultMap) : ResultMap :=
  if pos.hasValue then addValue (record parsed pos.id) pos.id opt else record parsed pos.id

theorem shortformLoop_next {options : OptionSet} {c d : UInt8} {opt : Bytes} {args : List Argument}
    {parsed : ResultMap} {pos : CliOption} (hpos : findShortform options c = some pos) :
    run (shortformLoop options c (c :: d :: opt) args) parsed =
      run (shortformLoop options d (d :: opt) args) (recordHead pos (d :: opt) parsed) := by
  have hvalue : run (shortformValue pos c (c :: d :: opt) args) (record parsed pos.id) =
      (.ok args, recordHead pos (d :: opt) parsed) := by
    unfold shortformValue recordHead
    cases pos.hasValue with
    | false => rfl
    | true =>
      have hlength : (c :: d :: opt).length > 1 := by
        rw [List.length_cons, List.length_cons]
        omega
      rw [if_neg (by decide), if_pos hlength,
        run_bind_of_ok (run_substr (Nat.le_of_lt hlength) _), List.drop_one, List.tail_cons,
        run_bind_of_ok (run_emplaceBack pos.id (d :: opt) parsed)]
      rfl
  conv_lhs => unfold shortformLoop
  rw [hpos]
  dsimp only
  rw [run_bind_of_ok (run_emplace pos.id parsed), run_bind_of_ok hvalue]
  rfl

theorem parseShortformOpt_next {options : OptionSet} {c d : UInt8} {opt : Bytes}
    {args : List Argument} {parsed : ResultMap} {pos : CliOption}
    (hpos : findShortform options c = some pos) :
    Parsing.parseShortformOpt options (c :: d :: opt) args parsed =
      Parsing.parseShortformOpt options (d :: opt) args (recordHead pos (d :: opt) parsed) := by
  conv_lhs => unfold Parsing.parseShortformOpt
  rw [hpos]
  dsimp only
  unfold recordHead
  rw [if_pos (List.cons_ne_nil d opt)]
  split_ifs <;> rfl

theorem lacksValue_singleton {options : OptionSet} {c : UInt8} {pos : CliOption}
    (hpos : findShortform options c = some pos) (rest : List Argument) :
    lacksValue options [c] rest =
      (pos.hasValue && rest.head?.all fun arg => startsWith arg.text [dash]) := by
  unfold lacksValue
  rw [List.getLast?_singleton, Option.bind_some, hpos]

/-- Without a value behind its last character the token makes the loop throw. -/
theorem shortformLoop_lacking {options : OptionSet} {c : UInt8} {arg : Argument}
    {rest : List Argument} {parsed : ResultMap} {pos : CliOption}
    (hpos : findShortform options c = some pos) (hlacks : lacksValue options [c] rest = true) :
    run (shortformLoop options c [c] (arg :: rest)) parsed =
        (.error (.runtimeError (missingShortform c)), record parsed pos.id) ∧
      Parsing.parseShortformOpt options [c] (arg :: rest) parsed =
        (.error (missingShortform c), record parsed pos.id) := by
  rw [lacksValue_singleton hpos, Bool.and_eq_true] at hlacks
  obtain ⟨hvalue, hrest⟩ := hlacks
  unfold shortformLoop Parsing.parseShortformOpt
  rw [hpos]
  dsimp only
  rw [run_bind_of_ok (run_emplace pos.id parsed), if_pos hvalue, if_neg (by simp)]
  have hthrows : run (shortformValue pos c [c] (arg :: rest)) (record parsed pos.id) =
      (.error (.runtimeError (missingShortform c)), record parsed pos.id) := by
    unfold shortformValue
    rw [hvalue]
    cases rest with
    | nil => rfl
    | cons a rest =>
      have ha : startsWith a.text [dash] = true := hrest
      show run (if startsWith a.text [dash] then _ else _) _ = _
      rw [if_pos ha]
      rfl
  refine ⟨run_bind_of_error hthrows, ?_⟩
  cases rest with
  | nil => rfl
  | cons a rest =>
    have ha : startsWith a.text [dash] = true := hrest
    rw [List.tail_cons]
    dsimp only
    rw [if_pos ha]

/-- With all that its last character wants the token makes the loop read a character behind it. -/
theorem shortformLoop_overrun {options : OptionSet} {c : UInt8} {arg : Argument}
    {rest : List Argument} {parsed : ResultMap} {pos : CliOption}
    (hpos : findShortform options c = some pos) (hlacks : lacksValue options [c] rest = false) :
    (run (shortformLoop options c [c] (arg :: rest)) parsed).1 = .error .emptyView := by
  rw [lacksValue_singleton hpos] at hlacks
  have hvalue : ∃ args parsed', run (shortformValue pos c [c] (arg :: rest)) (record parsed pos.id) =
      (.ok args, parsed') := by
    unfold shortformValue
    cases h : pos.hasValue with
    | false => exact ⟨_, _, rfl⟩
    | true =>
      rw [h, Bool.true_and] at hlacks
      cases rest with
      | nil => cases hlacks
      | cons a rest =>
        have ha : ¬startsWith a.text [dash] = true := by
          rw [Bool.not_eq_true]
          exact hlacks
        refine ⟨a :: rest, addValue (record parsed pos.id) pos.id a.text, ?_⟩
        show run (if startsWith a.text [dash] then _ else _) _ = _
        rw [if_neg ha, run_bind_of_ok (run_emplaceBack pos.id a.text parsed)]
        rfl
  obtain ⟨args, parsed', hvalue⟩ := hvalue
  unfold shortformLoop
  rw [hpos]
  dsimp only
  rw [run_bind_of_ok (run_emplace pos.id parsed), run_bind_of_ok hvalue]
  rfl

/-- A character that is no shortform ends the loop, with the arguments as they are. -/
theorem shortformLoop_stops {options : OptionSet} {c : UInt8} {opt : Bytes}
    (h : stops options (c :: opt) = true) (args : List Argument) (parsed : ResultMap) :
    run (shortformLoop options c (c :: opt) args) parsed =
        embed (Parsing.parseShortformOpt options (c :: opt) args parsed) ∧
      (Parsing.parseShortformOpt options (c :: opt) args parsed).1 = .ok args := by
  induction opt generalizing c parsed with
  | nil =>
    have hpos : findShortform options c = none := by
      simpa [stops, List.any_cons] using h
    unfold shortformLoop Parsing.parseShortformOpt
    rw [hpos]
    exact ⟨rfl, rfl⟩
  | cons d opt ih =>
    cases hpos : findShortform options c with
    | none =>
      unfold shortformLoop Parsing.parseShortformOpt
      rw [hpos]
      exact ⟨rfl, rfl⟩
    | some pos =>
      have hstops : stops options (d :: opt) = true := by
        unfold stops at h
        rw [List.any_cons, hpos] at h
        exact h
      rw [shortformLoop_next hpos, parseShortformOpt_next hpos]
      exact ih hstops _

theorem exists_shortform {options : OptionSet} {c : UInt8} {opt : Bytes}
    (h : stops options (c :: opt) = false) :
    (∃ pos, findShortform options c = some pos) ∧ stops options opt = false := by
  unfold stops at h
  rw [List.any_cons, Bool.or_eq_false_iff] at h
  exact ⟨Option.isSome_iff_exists.mp (by simpa using h.1), h.2⟩

/-- A token of shortforms only is read to its last character. -/
theorem shortformLoop_registered {options : OptionSet} {c : UInt8} {opt : Bytes}
    (h : stops options (c :: opt) = false) (arg : Argument) (rest : List Argument)
    (parsed : ResultMap) :
    (lacksValue options (c :: opt) rest = true → ∃ message parsed',
      run (shortformLoop options c (c :: opt) (arg :: rest)) parsed =
          (.error (.runtimeError message), parsed') ∧
        Parsing.parseShortformOpt options (c :: opt) (arg :: rest) parsed =
          (.error message, parsed')) ∧
    (lacksValue options (c :: opt) rest = false →
      (run (shortformLoop options c (c :: opt) (arg :: rest)) parsed).1 = .error .emptyView) := by
  induction opt generalizing c parsed with
  | nil =>
    obtain ⟨⟨pos, hpos⟩, -⟩ := exists_shortform h
    refine ⟨fun hlacks => ?_, shortformLoop_overrun hpos⟩
    exact ⟨_, _, shortformLoop_lacking hpos hlacks⟩
  | cons d opt ih =>
    obtain ⟨⟨pos, hpos⟩, hstops⟩ := exists_shortform h
    have hlast : lacksValue options (c :: d :: opt) rest = lacksValue options (d :: opt) rest := by
      unfold lacksValue
      rw [List.getLast?_cons_cons]
    rw [shortformLoop_next hpos, parseShortformOpt_next hpos, hlast]
    exact ih hstops _

/-! ### A turn of the loop of `parse` -/

theorem startsWith_length {text start : Bytes} (h : startsWith text start = true) :
    start.length ≤ text.length :=
  (List.isPrefixOf_iff_prefix.mp h).length_le

section Turn

variable {options : OptionSet} {arg : Argument} {rest : List Argument} {parsed : ResultMap}

theorem run_iteration_longform (h : startsWith arg.text [dash, dash] = true) :
    run (iteration options (arg :: rest)) parsed =
      run (parseLongformOpt options (arg.text.drop 2) >>= fun _ => return arg :: rest) parsed := by
  have hfront : run (frontArg (arg :: rest)) parsed = (.ok arg, parsed) := rfl
  have hlength : 2 ≤ arg.text.length := startsWith_length h
  unfold iteration
  rw [run_bind_of_ok hfront, if_pos h, run_bind_of_ok (run_substr hlength parsed)]

theorem run_iteration_shortform (hlong : startsWith arg.text [dash, dash] = false)
    (h : startsWith arg.text [dash] = true) :
    run (iteration options (arg :: rest)) parsed =
      run (parseShortformOpt options (arg.text.drop 1) (arg :: rest)) parsed := by
  have hfront : run (frontArg (arg :: rest)) parsed = (.ok arg, parsed) := rfl
  have hlength : 1 ≤ arg.text.length := startsWith_length h
  unfold iteration
  rw [run_bind_of_ok hfront, if_neg (by simp [hlong]), if_pos h,
    run_bind_of_ok (run_substr hlength parsed)]

theorem run_iteration_cons {c : UInt8} {opt : Bytes} (hlong : startsWith arg.text [dash, dash] = false)
    (h : startsWith arg.text [dash] = true) (hopt : arg.text.drop 1 = c :: opt) :
    run (iteration options (arg :: rest)) parsed =
      run (shortformLoop options c (c :: opt) (arg :: rest)) parsed := by
  have hfront : run (front (c :: opt)) parsed = (.ok c, parsed) := rfl
  rw [run_iteration_shortform hlong h, hopt]
  exact run_bind_of_ok hfront

theorem run_iteration_other (hlong : startsWith arg.text [dash, dash] = false)
    (hshort : startsWith arg.text [dash] = false) :
    run (iteration options (arg :: rest)) parsed = (.ok (arg :: rest), parsed) := by
  have hfront : run (frontArg (arg :: rest)) parsed = (.ok arg, parsed) := rfl
  unfold iteration
  rw [run_bind_of_ok hfront, if_neg (by simp [hlong]), if_neg (by simp [hshort])]
  rfl

/-- A turn that returns leaves the arguments behind its own. -/
theorem turn_passes (h : Passes options arg) (rest : List Argument) (parsed : ResultMap) :
    ∃ parsed', run (iteration options (arg :: rest) >>= subspan) parsed = (.ok rest, parsed') ∧
      Parsing.iteration options arg rest parsed = (.ok rest, parsed') := by
  unfold Passes at h
  unfold Parsing.iteration
  split_ifs at h with hlong hshort
  · have hresult : (Parsing.parseLongformOpt options (arg.text.drop 2) parsed).1 = .ok () := by
      cases hr : (Parsing.parseLongformOpt options (arg.text.drop 2) parsed).1 with
      | ok => rfl
      | error message =>
        have hthrows := (longformThrows_iff options (arg.text.drop 2) parsed).mpr ⟨message, hr⟩
        rw [h] at hthrows
        cases hthrows
    have hopt := run_parseLongformOpt options (arg.text.drop 2) parsed
    unfold embed at hopt
    rw [hresult] at hopt
    have hturn : run (iteration options (arg :: rest)) parsed =
        (.ok (arg :: rest), (Parsing.parseLongformOpt options (arg.text.drop 2) parsed).2) := by
      rw [run_iteration_longform hlong, run_bind_of_ok hopt]
      rfl
    rw [if_pos hlong, hresult, run_bind_of_ok hturn]
    exact ⟨_, rfl, rfl⟩
  · rw [Bool.not_eq_true] at hlong
    rw [if_neg (by simp [hlong]), if_pos hshort]
    cases hopt : arg.text.drop 1 with
    | nil =>
      rw [hopt] at h
      cases h
    | cons c opt =>
      rw [hopt] at h
      obtain ⟨hloop, hresult⟩ := shortformLoop_stops h (arg :: rest) parsed
      unfold embed at hloop
      rw [hresult] at hloop
      have hturn := (run_iteration_cons hlong hshort hopt).trans hloop
      rw [run_bind_of_ok hturn, hresult]
      exact ⟨_, rfl, rfl⟩
  · rw [Bool.not_eq_true] at hlong hshort
    rw [if_neg (by simp [hlong]), if_neg (by simp [hshort]),
      run_bind_of_ok (run_iteration_other hlong hshort)]
    exact ⟨parsed, rfl, rfl⟩

theorem turn_throws (h : Throws options arg rest) (parsed : ResultMap) :
    ∃ message parsed', run (iteration options (arg :: rest) >>= subspan) parsed =
        (.error (.runtimeError message), parsed') ∧
      Parsing.iteration options arg rest parsed = (.error message, parsed') := by
  unfold Throws at h
  unfold Parsing.iteration
  split_ifs at h with hlong hshort
  · obtain ⟨message, hresult⟩ := (longformThrows_iff options (arg.text.drop 2) parsed).mp h
    have hopt := run_parseLongformOpt options (arg.text.drop 2) parsed
    unfold embed at hopt
    rw [hresult] at hopt
    have hturn : run (iteration options (arg :: rest)) parsed = (.error (.runtimeError message),
        (Parsing.parseLongformOpt options (arg.text.drop 2) parsed).2) := by
      rw [run_iteration_longform hlong]
      exact run_bind_of_error hopt
    rw [if_pos hlong, hresult, run_bind_of_error hturn]
    exact ⟨message, _, rfl, rfl⟩
  · rw [Bool.not_eq_true] at hlong
    rw [if_neg (by simp [hlong]), if_pos hshort]
    obtain ⟨hstops, hlacks⟩ := h
    cases hopt : arg.text.drop 1 with
    | nil =>
      rw [hopt] at hlacks
      cases hlacks
    | cons c opt =>
      rw [hopt] at hstops hlacks
      obtain ⟨message, parsed', hloop, hresult⟩ :=
        (shortformLoop_registered hstops arg rest parsed).1 hlacks
      have hturn := (run_iteration_cons hlong hshort hopt).trans hloop
      rw [run_bind_of_error hturn, hresult]
      exact ⟨message, parsed', rfl, rfl⟩

/-- Any other turn reads a character that is not there. -/
theorem turn_overrun (hpasses : ¬Passes options arg) (hthrows : ¬Throws options arg rest)
    (parsed : ResultMap) :
    ∃ parsed', run (iteration options (arg :: rest) >>= subspan) parsed =
      (.error .emptyView, parsed') := by
  unfold Passes at hpasses
  unfold Throws at hthrows
  split_ifs at hpasses hthrows with hlong hshort
  · exact absurd (Bool.eq_false_iff.mpr hthrows) hpasses
  · rw [Bool.not_eq_true] at hlong hpasses
    rw [hpasses, not_and] at hthrows
    have hlacks := Bool.not_eq_true _ ▸ hthrows rfl
    have hfails : ∃ parsed', run (iteration options (arg :: rest)) parsed =
        (.error .emptyView, parsed') := by
      cases hopt : arg.text.drop 1 with
      | nil =>
        rw [run_iteration_shortform hlong hshort, hopt]
        exact ⟨parsed, rfl⟩
      | cons c opt =>
        rw [hopt] at hpasses hlacks
        have hloop := (shortformLoop_registered hpasses arg rest parsed).2 hlacks
        rw [run_iteration_cons hlong hshort hopt]
        exact ⟨_, Prod.ext hloop rfl⟩
    obtain ⟨parsed', hfails⟩ := hfails
    exact ⟨parsed', run_bind_of_error hfails⟩
  · exact absurd trivial hpasses

end Turn

/-! ### The loop of `parse` -/

/-- The call returns or throws a `runtime_error`. -/
def Regular {α : Type} (r : Except Failure α) : Prop :=
  ∀ failure, r = .error failure → ∃ message, failure = .runtimeError message

/-- Every turn that is made returns, or throws and is the last. -/
def Guarded (options : OptionSet) : List Argument → Prop
  | [] => True
  | arg :: rest => Throws options arg rest ∨ Passes options arg ∧ Guarded options rest

instance decidableGuarded (options : OptionSet) :
    (args : List Argument) → Decidable (Guarded options args)
  | [] => .isTrue trivial
  | arg :: rest =>
    have := decidableGuarded options rest
    inferInstanceAs (Decidable (Throws options arg rest ∨ Passes options arg ∧ Guarded options rest))

theorem regular_ok {α : Type} (a : α) : Regular (.ok a) := by
  intro failure h
  cases h

theorem regular_error {α : Type} {failure : Failure} :
    Regular (.error failure : Except Failure α) ↔ ∃ message, failure = .runtimeError message :=
  ⟨fun h => h failure rfl, fun h _ hfailure => by cases hfailure; exact h⟩

/-- The loop ends, in one turn for every argument at most. -/
theorem parseLoop_ends (options : OptionSet) {turns : Nat} {args : List Argument}
    (hturns : args.length < turns) (parsed : ResultMap) :
    ∃ result, parseLoop options turns args parsed = some result := by
  induction turns generalizing args parsed with
  | zero => omega
  | succ turns ih =>
    cases args with
    | nil => exact ⟨(.ok (), parsed), rfl⟩
    | cons arg rest =>
      rw [List.length_cons] at hturns
      unfold parseLoop
      rw [if_neg (by simp)]
      by_cases hpasses : Passes options arg
      · obtain ⟨parsed', hturn, -⟩ := turn_passes hpasses rest parsed
        rw [hturn]
        exact ih (by omega) parsed'
      · by_cases hthrows : Throws options arg rest
        · obtain ⟨message, parsed', hturn, -⟩ := turn_throws hthrows parsed
          rw [hturn]
          exact ⟨_, rfl⟩
        · obtain ⟨parsed', hturn⟩ := turn_overrun hpasses hthrows parsed
          rw [hturn]
          exact ⟨_, rfl⟩

/-- All that the loop reads is there exactly if every turn is guarded. -/
theorem parseLoop_regular_iff {options : OptionSet} {turns : Nat} {args : List Argument}
    {parsed : ResultMap} {result : Except Failure Unit × ResultMap}
    (h : parseLoop options turns args parsed = some result) :
    Regular result.1 ↔ Guarded options args := by
  induction turns generalizing args parsed with
  | zero => cases h
  | succ turns ih =>
    cases args with
    | nil =>
      cases h
      exact iff_of_true (regular_ok ()) trivial
    | cons arg rest =>
      unfold parseLoop at h
      rw [if_neg (by simp)] at h
      unfold Guarded
      by_cases hpasses : Passes options arg
      · obtain ⟨parsed', hturn, hnext⟩ := turn_passes hpasses rest parsed
        have hthrows : ¬Throws options arg rest := by
          intro hthrows
          obtain ⟨message, _, -, herror⟩ := turn_throws hthrows parsed
          rw [hnext] at herror
          cases herror
        rw [hturn] at h
        rw [ih h]
        simp only [hthrows, hpasses, false_or, true_and]
      · by_cases hthrows : Throws options arg rest
        · obtain ⟨message, parsed', hturn, -⟩ := turn_throws hthrows parsed
          rw [hturn] at h
          cases h
          exact iff_of_true (regular_error.mpr ⟨message, rfl⟩) (.inl hthrows)
        · obtain ⟨parsed', hturn⟩ := turn_overrun hpasses hthrows parsed
          rw [hturn] at h
          cases h
          refine iff_of_false (fun hregular => ?_) (by simp [hpasses, hthrows])
          obtain ⟨message, hmessage⟩ := regular_error.mp hregular
          cases hmessage

/-- Where all that the loop reads is there, it does what the loop without accesses does. -/
theorem parseLoop_refines {options : OptionSet} {turns bound : Nat} {args : List Argument}
    {parsed : ResultMap} {result : Except Failure Unit × ResultMap}
    (h : parseLoop options turns args parsed = some result) (hregular : Regular result.1)
    (hbound : args.length ≤ bound) :
    result = embed (Parsing.parseLoop options bound args parsed) := by
  induction turns generalizing args parsed bound with
  | zero => cases h
  | succ turns ih =>
    cases args with
    | nil =>
      cases h
      cases bound <;> rfl
    | cons arg rest =>
      unfold parseLoop at h
      rw [if_neg (by simp)] at h
      obtain ⟨bound, rfl⟩ : ∃ n, bound = n + 1 := Nat.exists_eq_succ_of_ne_zero (by
        rw [List.length_cons] at hbound
        omega)
      rw [List.length_cons] at hbound
      unfold Parsing.parseLoop
      by_cases hpasses : Passes options arg
      · obtain ⟨parsed', hturn, hnext⟩ := turn_passes hpasses rest parsed
        rw [hturn] at h
        rw [hnext]
        exact ih h (by omega)
      · by_cases hthrows : Throws options arg rest
        · obtain ⟨message, parsed', hturn, herror⟩ := turn_throws hthrows parsed
          rw [hturn] at h
          cases h
          rw [herror]
          rfl
        · obtain ⟨parsed', hturn⟩ := turn_overrun hpasses hthrows parsed
          rw [hturn] at h
          cases h
          obtain ⟨message, hmessage⟩ := regular_error.mp hregular
          cases hmessage

/-! ### `parse` -/

/-- The call `p.parse(args)` ends, with this result and these members. -/
def Ends (p : Parser) (args : List Argument) (result : Except Failure Unit) (p' : Parser) : Prop :=
  ∃ turns, parse turns p args = some (result, p')

theorem parse_nil (turns : Nat) (p : Parser) : parse turns p [] = some (.error .emptySpan, p) := rfl

theorem parse_cons (turns : Nat) (p : Parser) (front : Argument) (args : List Argument) :
    parse turns p (front :: args) = (parseLoop p.options turns args p.parsed).map fun r =>
      (r.1, { p with programName := front.text, parsed := r.2 }) := rfl

/-- **Every call ends.** -/
theorem parse_ends (p : Parser) (args : List Argument) : ∃ result p', Ends p args result p' := by
  cases args with
  | nil => exact ⟨_, _, 0, parse_nil 0 p⟩
  | cons front args =>
    obtain ⟨result, hloop⟩ := parseLoop_ends p.options (Nat.lt_succ_self args.length) p.parsed
    refine ⟨result.1, { p with programName := front.text, parsed := result.2 },
      args.length + 1, ?_⟩
    rw [parse_cons, hloop]
    rfl

/-- **Where no access fails**, the parser is the one without accesses. -/
theorem parse_refines {p p' : Parser} {front : Argument} {args : List Argument}
    {result : Except Failure Unit} (h : Ends p (front :: args) result p') (hregular : Regular result) :
    result = (Parsing.parse p front args).1.mapError .runtimeError ∧
      p' = (Parsing.parse p front args).2 := by
  obtain ⟨turns, h⟩ := h
  rw [parse_cons, Option.map_eq_some_iff] at h
  obtain ⟨r, hloop, heq⟩ := h
  cases heq
  have hr := parseLoop_refines hloop hregular le_rfl
  rw [hr]
  exact ⟨rfl, rfl⟩

theorem ends_regular_iff {p p' : Parser} {args : List Argument} {result : Except Failure Unit}
    (h : Ends p args result p') : Regular result ↔ args ≠ [] ∧ Guarded p.options args.tail := by
  obtain ⟨turns, h⟩ := h
  cases args with
  | nil =>
    rw [parse_nil] at h
    cases h
    refine iff_of_false (fun hregular => ?_) fun h => h.1 rfl
    obtain ⟨message, hmessage⟩ := regular_error.mp hregular
    cases hmessage
  | cons front args =>
    rw [parse_cons, Option.map_eq_some_iff] at h
    obtain ⟨r, hloop, heq⟩ := h
    cases heq
    rw [parseLoop_regular_iff hloop]
    exact (and_iff_right (List.cons_ne_nil front args)).symm

/-- **The accesses of `parse`**: the call returns or throws a `runtime_error` exactly if there is a
program name, and every token of short options up to the first exception has a character that is no
shortform, or is itself where the exception comes from. -/
theorem bounds_iff (p : Parser) (args : List Argument) :
    (∃ result p', Ends p args result p' ∧ Regular result) ↔
      args ≠ [] ∧ Guarded p.options args.tail := by
  constructor
  · rintro ⟨result, p', hends, hregular⟩
    exact (ends_regular_iff hends).mp hregular
  · intro hguarded
    obtain ⟨result, p', hends⟩ := parse_ends p args
    exact ⟨result, p', hends, (ends_regular_iff hends).mpr hguarded⟩

/-- A parser with one flag, `-w`. -/
def flagParser : Parser := ⟨register .nil ⟨[1], noLongform, 119, false, by decide⟩, [], .empty⟩

/-- The flag that is registered, a lone dash, and no arguments at all. -/
theorem dash_overruns :
    (¬∃ result p', Ends flagParser [⟨[112], by decide⟩, ⟨[45, 119], by decide⟩] result p' ∧
      Regular result) ∧
    (¬∃ result p', Ends flagParser [⟨[112], by decide⟩, ⟨[45], by decide⟩] result p' ∧
      Regular result) ∧
    ¬∃ result p', Ends flagParser [] result p' ∧ Regular result := by
  refine ⟨?_, ?_, ?_⟩
  · rintro ⟨result, p', hends, hregular⟩
    exact absurd ((ends_regular_iff hends).mp hregular).2 (by decide +kernel)
  · rintro ⟨result, p', hends, hregular⟩
    exact absurd ((ends_regular_iff hends).mp hregular).2 (by decide +kernel)
  · rintro ⟨result, p', hends, hregular⟩
    exact ((ends_regular_iff hends).mp hregular).1 rfl

end NetworkDriver.Util.CliParser.Bounds
