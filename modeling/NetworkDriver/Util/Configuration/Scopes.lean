import NetworkDriver.Util.Configuration.Classifiers

/-! # Nested scopes

A well-formed file is a tree: a `Body` holds entries and scopes, which hold a `Body` again. Its
lines may have spaces anywhere and lines of spaces between them; without these they are the `texts`
of the file.

* `foldlM_lineStep_texts`: spaces make no difference.
* `run_lines`: the lines of a body add its values, under the scopes around it, and leave the prefix.
* `tracks_run`: the prefix and the stack are those of the open scopes, in every state reached.
* `scopes_kept`: so a tree is read with exactly its paths. -/

namespace NetworkDriver.Util.Configuration.Scopes

open NetworkDriver.Library.Keyed NetworkDriver.Util.Format
open NetworkDriver.Util.Configuration.Model NetworkDriver.Util.Configuration.Classifiers

/-- No brace, `=`, space or newline. -/
def isPlain (c : UInt8) : Bool :=
  c != openingBrace && c != closingBrace && c != equalsSign && c != space && c != newline

/-- The text of a name, a key or a value. -/
structure Name where
  text : Bytes
  nonempty : text ≠ []
  plain : text.all isPlain = true

/-- A tree of scopes. -/
inductive Body where
  | done
  | entry (key value : Name) (rest : Body)
  | scope (name : Name) (inside rest : Body)

def openingLine (name : Name) : Bytes := name.text ++ [openingBrace]

def pairLine (key value : Name) : Bytes := key.text ++ equalsSign :: value.text

def closingLine : Bytes := [closingBrace]

def Body.lines : Body → List Bytes
  | .done => []
  | .entry key value rest => pairLine key value :: rest.lines
  | .scope name inside rest => openingLine name :: (inside.lines ++ closingLine :: rest.lines)

/-- The names of the open scopes, innermost first, each followed by a dot. -/
def dotted : List Bytes → Bytes
  | [] => []
  | name :: scopes => dotted scopes ++ (name ++ [dot])

/-- The values with their paths, in the order of the lines. -/
def Body.values (scopes : List Bytes) : Body → List (Bytes × Bytes)
  | .done => []
  | .entry key value rest => (dotted scopes ++ key.text, value.text) :: rest.values scopes
  | .scope name inside rest => inside.values (name.text :: scopes) ++ rest.values scopes

/-- The lines without their spaces, as far as anything is left. -/
def texts (lines : List Bytes) : List Bytes := (lines.map fun line => remove line space).filter (· ≠ [])

/-- The content is the tree, with spaces and empty lines anywhere. -/
def Renders (content : Bytes) (body : Body) : Prop := texts (getlines content) = body.lines

/-- One line opens a scope or closes the innermost one, or does neither. -/
def openStep (scopes : List Bytes) (line : Bytes) : List Bytes :=
  if line = closingLine then scopes.tail
  else if line.getLast? = some openingBrace then line.dropLast :: scopes
  else scopes

/-- The scopes that are open after some lines, innermost first. -/
def openScopes (lines : List Bytes) : List Bytes := (texts lines).foldl openStep []

/-! ### The dictionary of a tree -/

variable {δ : Type}

/-- The first value with a path. -/
def firstValue (values : List (Bytes × Bytes)) (path : Bytes) : Option Bytes :=
  (values.find? fun v => v.1 = path).map Prod.snd

/-- **A tree of scopes is read**: with its paths, and with the prefix of the open scopes throughout. -/
structure Scoped (fromCharsDouble : FromCharsDouble δ) (content : Bytes) (body : Body) : Prop where
  parsed : ∃ dict, parseFile fromCharsDouble (some content) = .ok dict ∧
    ∀ path, lookup dict path = (firstValue (body.values []) path).bind (typedValue fromCharsDouble)
  tracked : ∀ front back, getlines content = front ++ back →
    ∃ s, front.foldlM (lineStep fromCharsDouble) .start = .ok s ∧
      s.scopePrefix = dotted (openScopes front) ∧
      s.prefixLengths = (openScopes front).map fun name => name.length + 1
  restored : ∀ front scope back name inside, getlines content = front ++ (scope ++ back) →
    texts scope = (Body.scope name inside .done).lines →
    ∃ s s', front.foldlM (lineStep fromCharsDouble) .start = .ok s ∧
      scope.foldlM (lineStep fromCharsDouble) s = .ok s' ∧
      s'.scopePrefix = s.scopePrefix ∧ s'.prefixLengths = s.prefixLengths

/-! ### First values -/

theorem firstValue_cons (v : Bytes × Bytes) (values : List (Bytes × Bytes)) (path : Bytes) :
    firstValue (v :: values) path = if v.1 = path then some v.2 else firstValue values path := by
  unfold firstValue
  by_cases h : v.1 = path <;> simp [h]

theorem firstValue_append (values values' : List (Bytes × Bytes)) (path : Bytes) :
    firstValue (values ++ values') path = (firstValue values path).or (firstValue values' path) := by
  unfold firstValue
  rw [List.find?_append]
  cases values.find? fun v => v.1 = path <;> rfl

theorem mem_of_firstValue {values : List (Bytes × Bytes)} {path value : Bytes}
    (h : firstValue values path = some value) : ∃ v ∈ values, v.2 = value := by
  unfold firstValue at h
  obtain ⟨v, hv, hvalue⟩ := Option.map_eq_some_iff.mp h
  exact ⟨v, List.mem_of_find?_eq_some hv, hvalue⟩

/-- The first of the entries of two lists is in the first list, if there is one. -/
theorem firstValue_append_bind {fromCharsDouble : FromCharsDouble δ} {values : List (Bytes × Bytes)}
    (h : ∀ v ∈ values, Representable fromCharsDouble v.2) (values' : List (Bytes × Bytes)) (path : Bytes) :
    (firstValue (values ++ values') path).bind (typedValue fromCharsDouble) =
      ((firstValue values path).bind (typedValue fromCharsDouble)).or
        ((firstValue values' path).bind (typedValue fromCharsDouble)) := by
  rw [firstValue_append]
  cases hf : firstValue values path with
  | none => rfl
  | some value =>
    obtain ⟨v, hv, rfl⟩ := mem_of_firstValue hf
    obtain ⟨e, he⟩ := typedValue_isSome (h v hv)
    simp [he]

/-! ### Lines -/

theorem Name.notMem (name : Name) {c : UInt8} (hc : isPlain c = false) : c ∉ name.text := by
  intro hmem
  have hplain := List.all_eq_true.mp name.plain c hmem
  rw [hc] at hplain
  cases hplain

theorem Name.opening (name : Name) : openingBrace ∉ name.text := name.notMem rfl

theorem Name.closing (name : Name) : closingBrace ∉ name.text := name.notMem rfl

theorem Name.equals (name : Name) : equalsSign ∉ name.text := name.notMem rfl

theorem Name.spaces (name : Name) : space ∉ name.text := name.notMem rfl

theorem remove_openingLine (name : Name) : remove (openingLine name) space = openingLine name := by
  refine remove_of_notMem fun h => ?_
  rcases List.mem_append.mp h with h | h
  · exact name.spaces h
  · exact absurd h (by decide)

theorem remove_pairLine (key value : Name) : remove (pairLine key value) space = pairLine key value := by
  refine remove_of_notMem fun h => ?_
  rcases List.mem_append.mp h with h | h
  · exact key.spaces h
  · rcases List.mem_cons.mp h with h | h
    · exact absurd h (by decide)
    · exact value.spaces h

theorem pairLine_ne_nil (key value : Name) : pairLine key value ≠ [] :=
  List.append_ne_nil_of_left_ne_nil key.nonempty _

/-- A byte of a pair that is not `=` is in the key or in the value. -/
theorem notMem_pairLine {key value : Name} {c : UInt8} (hkey : c ∉ key.text) (hvalue : c ∉ value.text)
    (hc : c ≠ equalsSign) : c ∉ pairLine key value := by
  intro h
  rcases List.mem_append.mp h with h | h
  · exact hkey h
  · rcases List.mem_cons.mp h with h | h
    · exact hc h
    · exact hvalue h

section lineStep

variable {fromCharsDouble : FromCharsDouble δ} {s : Scan δ}

theorem lineStep_openingLine (name : Name) :
    lineStep fromCharsDouble s (openingLine name) =
      .ok { s with
        scopePrefix := s.scopePrefix ++ (name.text ++ [dot])
        prefixLengths := (name.text.length + 1) :: s.prefixLengths } := by
  have hmem : openingBrace ∈ openingLine name := List.mem_append_right _ (List.mem_singleton_self _)
  have hname : remove (openingLine name) openingBrace = name.text := by
    unfold openingLine
    rw [remove_append, remove_of_notMem name.opening]
    exact List.append_nil _
  have hstep := @lineStep_opening δ fromCharsDouble s (openingLine name)
  rw [remove_openingLine, hname, List.length_append] at hstep
  exact hstep hmem

theorem lineStep_closingLine (outer name : Bytes) {lengths : List ℕ}
    (houter : s.scopePrefix = outer ++ (name ++ [dot]))
    (hlengths : s.prefixLengths = (name.length + 1) :: lengths) :
    lineStep fromCharsDouble s closingLine =
      .ok { s with scopePrefix := outer, prefixLengths := lengths } := by
  have hlength : s.scopePrefix.length = outer.length + (name.length + 1) := by
    rw [houter, List.length_append, List.length_append]
    rfl
  rw [lineStep_closing (by decide) (by decide) hlengths (by omega)]
  have htake : s.scopePrefix.take (s.scopePrefix.length - (name.length + 1)) = outer := by
    rw [hlength, Nat.add_sub_cancel, houter]
    exact List.take_left
  rw [htake]

theorem lineStep_pairLine_eq (key value : Name) :
    lineStep fromCharsDouble s (pairLine key value) =
      match readValue fromCharsDouble value.text with
      | some e => .ok { s with dict := s.dict.emplace (s.scopePrefix ++ key.text, e) }
      | none => .error (parserError (pairLine key value)) := by
  have hopening := notMem_pairLine key.opening value.opening (by decide)
  have hclosing := notMem_pairLine key.closing value.closing (by decide)
  have hread : readLine fromCharsDouble (pairLine key value) = _ :=
    readLine_pair key.nonempty value.nonempty key.equals value.equals
  have hstep := @lineStep_pair δ fromCharsDouble s (pairLine key value)
  rw [remove_pairLine, hread] at hstep
  rw [hstep (pairLine_ne_nil key value) hopening hclosing]
  cases readValue fromCharsDouble value.text <;> rfl

theorem lineStep_pairLine (key value : Name) {e : Entry δ}
    (h : readValue fromCharsDouble value.text = some e) :
    lineStep fromCharsDouble s (pairLine key value) =
      .ok { s with dict := s.dict.emplace (s.scopePrefix ++ key.text, e) } := by
  rw [lineStep_pairLine_eq, h]

/-- Spaces in a line make no difference. -/
theorem lineStep_remove (line : Bytes) :
    lineStep fromCharsDouble s (remove line space) = lineStep fromCharsDouble s line := by
  have hremove : remove (remove line space) space = remove line space :=
    remove_of_notMem fun h => (mem_remove.mp h).2 rfl
  unfold lineStep
  rw [hremove]

end lineStep

/-- **Spaces and empty lines make no difference.** -/
theorem foldlM_lineStep_texts (fromCharsDouble : FromCharsDouble δ) (lines : List Bytes) (s : Scan δ) :
    (texts lines).foldlM (lineStep fromCharsDouble) s = lines.foldlM (lineStep fromCharsDouble) s := by
  induction lines generalizing s with
  | nil => rfl
  | cons line lines ih =>
    by_cases hblank : remove line space = []
    · have htexts : texts (line :: lines) = texts lines := by
        unfold texts
        rw [List.map_cons, List.filter_cons_of_neg (by simp [hblank])]
      rw [htexts, List.foldlM_cons, lineStep_blank hblank]
      exact ih s
    · have htexts : texts (line :: lines) = remove line space :: texts lines := by
        unfold texts
        rw [List.map_cons, List.filter_cons_of_pos (by simp [hblank])]
      rw [htexts, List.foldlM_cons, List.foldlM_cons, lineStep_remove]
      exact bind_congr ih

theorem texts_append (lines lines' : List Bytes) :
    texts (lines ++ lines') = texts lines ++ texts lines' := by
  unfold texts
  rw [List.map_append, List.filter_append]

/-! ### Runs -/

/-- The state belongs to the open scopes. -/
def Tracks (s : Scan δ) (scopes : List Bytes) : Prop :=
  s.scopePrefix = dotted scopes ∧ s.prefixLengths = scopes.map fun name => name.length + 1

/-- **The lines of a body** add its values, under the scopes around it, and leave the prefix. -/
theorem run_lines {fromCharsDouble : FromCharsDouble δ} {body : Body} {scopes : List Bytes} {s : Scan δ}
    (houter : s.scopePrefix = dotted scopes)
    (hvalues : ∀ v ∈ body.values scopes, Representable fromCharsDouble v.2) :
    ∃ dict, body.lines.foldlM (lineStep fromCharsDouble) s = .ok { s with dict := dict } ∧
      ∀ path, lookup dict path = (lookup s.dict path).or
        ((firstValue (body.values scopes) path).bind (typedValue fromCharsDouble)) := by
  induction body generalizing scopes s with
  | done =>
    refine ⟨s.dict, rfl, fun path => ?_⟩
    exact (Option.or_none ..).symm
  | entry key value rest ih =>
    obtain ⟨hvalue, hrest⟩ := List.forall_mem_cons.mp hvalues
    obtain ⟨e, he⟩ := typedValue_isSome hvalue
    have hread : readValue fromCharsDouble value.text = some e := by
      rw [readValue_eq value.nonempty hvalue, he]
    obtain ⟨dict, hrun, hdict⟩ := ih (s := { s with dict := s.dict.emplace (s.scopePrefix ++ key.text, e) })
      houter hrest
    refine ⟨dict, ?_, fun path => ?_⟩
    · unfold Body.lines
      rw [List.foldlM_cons, lineStep_pairLine key value hread]
      exact hrun
    · rw [hdict, lookup_emplace, Option.or_assoc, houter]
      change _ = (lookup s.dict path).or
        ((firstValue ((dotted scopes ++ key.text, value.text) :: rest.values scopes) path).bind _)
      rw [firstValue_cons]
      split_ifs
      · rw [Option.bind_some, he]
        rfl
      · rfl
  | scope name inside rest ihInside ihRest =>
    have hin : ∀ v ∈ inside.values (name.text :: scopes), Representable fromCharsDouble v.2 :=
      fun v hv => hvalues v (List.mem_append_left _ hv)
    have hout : ∀ v ∈ rest.values scopes, Representable fromCharsDouble v.2 :=
      fun v hv => hvalues v (List.mem_append_right _ hv)
    have hinner : s.scopePrefix ++ (name.text ++ [dot]) = dotted (name.text :: scopes) := by
      rw [houter]
      rfl
    obtain ⟨dict, hrun, hdict⟩ := ihInside
      (s := { s with
        scopePrefix := s.scopePrefix ++ (name.text ++ [dot])
        prefixLengths := (name.text.length + 1) :: s.prefixLengths })
      hinner hin
    obtain ⟨dict', hrun', hdict'⟩ := ihRest (s := { s with dict := dict }) houter hout
    refine ⟨dict', ?_, fun path => ?_⟩
    · unfold Body.lines
      rw [List.foldlM_cons, lineStep_openingLine]
      change (inside.lines ++ closingLine :: rest.lines).foldlM (lineStep fromCharsDouble) _ = _
      rw [List.foldlM_append, hrun]
      change (closingLine :: rest.lines).foldlM (lineStep fromCharsDouble) _ = _
      rw [List.foldlM_cons, lineStep_closingLine s.scopePrefix name.text rfl rfl]
      exact hrun'
    · have happend := firstValue_append_bind hin (rest.values scopes) path
      rw [hdict', hdict, Option.or_assoc, ← happend]
      rfl

/-- A line of a body. -/
inductive Canonical : Bytes → Prop where
  | opening (name : Name) : Canonical (openingLine name)
  | closing : Canonical closingLine
  | pair (key value : Name) : Canonical (pairLine key value)

theorem canonical_of_mem (body : Body) : ∀ line ∈ body.lines, Canonical line := by
  induction body with
  | done =>
    intro line h
    cases h
  | entry key value rest ih =>
    intro line h
    rcases List.mem_cons.mp h with rfl | h
    · exact .pair key value
    · exact ih line h
  | scope name inside rest ihInside ihRest =>
    intro line h
    rcases List.mem_cons.mp h with rfl | h
    · exact .opening name
    · rcases List.mem_append.mp h with h | h
      · exact ihInside line h
      · rcases List.mem_cons.mp h with rfl | h
        · exact .closing
        · exact ihRest line h

theorem openStep_openingLine (scopes : List Bytes) (name : Name) :
    openStep scopes (openingLine name) = name.text :: scopes := by
  have hne : openingLine name ≠ closingLine := by
    intro h
    have hlast := congrArg List.getLast? h
    rw [openingLine, List.getLast?_concat] at hlast
    exact absurd hlast (by decide)
  unfold openStep
  rw [if_neg hne, openingLine, List.getLast?_concat, if_pos rfl, List.dropLast_concat]

theorem openStep_closingLine (scopes : List Bytes) : openStep scopes closingLine = scopes.tail :=
  if_pos rfl

theorem openStep_pairLine (scopes : List Bytes) (key value : Name) :
    openStep scopes (pairLine key value) = scopes := by
  have hopening := notMem_pairLine key.opening value.opening (by decide)
  have hclosing := notMem_pairLine key.closing value.closing (by decide)
  have hne : pairLine key value ≠ closingLine := by
    intro h
    rw [h] at hclosing
    exact hclosing (List.mem_singleton_self _)
  have hlast : (pairLine key value).getLast? ≠ some openingBrace := fun h =>
    hopening (List.mem_of_getLast? h)
  unfold openStep
  rw [if_neg hne, if_neg hlast]

/-- What a line does to the state, it does to the open scopes. -/
theorem tracks_lineStep {fromCharsDouble : FromCharsDouble δ} {s s' : Scan δ} {scopes : List Bytes}
    {line : Bytes} (hline : Canonical line) (hs : Tracks s scopes)
    (hstep : lineStep fromCharsDouble s line = .ok s') : Tracks s' (openStep scopes line) := by
  obtain ⟨houter, hlengths⟩ := hs
  cases hline with
  | opening name =>
    rw [lineStep_openingLine] at hstep
    rw [openStep_openingLine]
    obtain rfl := Except.ok.inj hstep
    exact ⟨congrArg (· ++ _) houter, congrArg (List.cons _) hlengths⟩
  | closing =>
    cases scopes with
    | nil =>
      rw [lineStep_closing_empty (by decide) (by decide) hlengths] at hstep
      cases hstep
    | cons name scopes =>
      rw [lineStep_closingLine _ _ houter hlengths] at hstep
      obtain rfl := Except.ok.inj hstep
      exact ⟨rfl, rfl⟩
  | pair key value =>
    rw [lineStep_pairLine_eq] at hstep
    rw [openStep_pairLine]
    cases hread : readValue fromCharsDouble value.text with
    | none =>
      rw [hread] at hstep
      cases hstep
    | some e =>
      rw [hread] at hstep
      obtain rfl := Except.ok.inj hstep
      exact ⟨houter, hlengths⟩

/-- **The prefix and the stack are those of the open scopes.** -/
theorem tracks_run {fromCharsDouble : FromCharsDouble δ} {lines : List Bytes} {s s' : Scan δ}
    {scopes : List Bytes} (hlines : ∀ line ∈ lines, Canonical line) (hs : Tracks s scopes)
    (hrun : lines.foldlM (lineStep fromCharsDouble) s = .ok s') :
    Tracks s' (lines.foldl openStep scopes) := by
  induction lines generalizing s scopes with
  | nil =>
    obtain rfl := Except.ok.inj hrun
    exact hs
  | cons line lines ih =>
    obtain ⟨hline, hrest⟩ := List.forall_mem_cons.mp hlines
    rw [List.foldlM_cons] at hrun
    cases hstep : lineStep fromCharsDouble s line with
    | error fault =>
      rw [hstep] at hrun
      cases hrun
    | ok middle =>
      rw [hstep] at hrun
      exact ih hrest (tracks_lineStep hline hs hstep) hrun

/-- The lines of a body leave the scopes that are open. -/
theorem foldl_openStep_lines (body : Body) (scopes : List Bytes) :
    body.lines.foldl openStep scopes = scopes := by
  induction body generalizing scopes with
  | done => rfl
  | entry key value rest ih =>
    unfold Body.lines
    rw [List.foldl_cons, openStep_pairLine]
    exact ih scopes
  | scope name inside rest ihInside ihRest =>
    unfold Body.lines
    rw [List.foldl_cons, List.foldl_append, List.foldl_cons, openStep_openingLine, ihInside,
      openStep_closingLine]
    exact ihRest scopes

/-- What runs to the end runs to every point on the way. -/
theorem foldlM_split {fromCharsDouble : FromCharsDouble δ} {front back : List Bytes} {s s' : Scan δ}
    (h : (front ++ back).foldlM (lineStep fromCharsDouble) s = .ok s') :
    ∃ middle, front.foldlM (lineStep fromCharsDouble) s = .ok middle ∧
      back.foldlM (lineStep fromCharsDouble) middle = .ok s' := by
  rw [List.foldlM_append] at h
  cases hfront : front.foldlM (lineStep fromCharsDouble) s with
  | error fault =>
    rw [hfront] at h
    cases h
  | ok middle =>
    rw [hfront] at h
    exact ⟨middle, rfl, h⟩

/-- **A tree of scopes is read with exactly its paths**, and the prefix is that of the open scopes. -/
theorem scopes_kept (fromCharsDouble : FromCharsDouble δ) {content : Bytes} {body : Body}
    (hcontent : Renders content body)
    (hvalues : ∀ v ∈ body.values [], Representable fromCharsDouble v.2) :
    Scoped fromCharsDouble content body := by
  obtain ⟨dict, hrun, hdict⟩ := run_lines (s := .start) rfl hvalues
  rw [← hcontent, foldlM_lineStep_texts] at hrun
  have hcanonical : ∀ front back, getlines content = front ++ back →
      ∀ line ∈ texts front, Canonical line := by
    intro front back hlines line hline
    refine canonical_of_mem body line ?_
    rw [← hcontent, hlines, texts_append]
    exact List.mem_append_left _ hline
  have htracked : ∀ front back s, getlines content = front ++ back →
      front.foldlM (lineStep fromCharsDouble) .start = .ok s → Tracks s (openScopes front) := by
    intro front back s hlines hfront
    rw [← foldlM_lineStep_texts] at hfront
    exact tracks_run (hcanonical front back hlines) ⟨rfl, rfl⟩ hfront
  refine ⟨⟨dict, ?_, fun path => ?_⟩, ?_, ?_⟩
  · change ((getlines content).foldlM (lineStep fromCharsDouble) .start).map Scan.dict = _
    rw [hrun]
    rfl
  · rw [hdict]
    rfl
  · intro front back hlines
    rw [hlines] at hrun
    obtain ⟨s, hfront, -⟩ := foldlM_split hrun
    exact ⟨s, hfront, htracked front back s hlines hfront⟩
  · intro front scope back name inside hlines hscope
    rw [hlines] at hrun
    obtain ⟨s, hfront, hrest⟩ := foldlM_split hrun
    obtain ⟨s', hmiddle, -⟩ := foldlM_split hrest
    have hboth : (front ++ scope).foldlM (lineStep fromCharsDouble) .start = .ok s' := by
      rw [List.foldlM_append, hfront]
      exact hmiddle
    have hs := htracked front (scope ++ back) s hlines hfront
    have hs' := htracked (front ++ scope) back s' (by rw [hlines, List.append_assoc]) hboth
    have hopen : openScopes (front ++ scope) = openScopes front := by
      unfold openScopes
      rw [texts_append, List.foldl_append, hscope, foldl_openStep_lines]
    rw [hopen] at hs'
    exact ⟨s, s', hfront, hmiddle, hs'.1.trans hs.1.symm, hs'.2.trans hs.2.symm⟩

/-- A file with two scopes, a number of either kind with the same path, and a value outside. -/
def nestedContent : Bytes :=
  [97, 123, 10, 98, 32, 123, 10, 107, 61, 49, 46, 53, 10, 32, 10, 32, 107, 61, 55, 10, 125, 10, 125, 10,
    107, 32, 61, 116, 114, 117, 101]

def nestedBody : Body :=
  .scope ⟨[97], List.cons_ne_nil _ _, rfl⟩
    (.scope ⟨[98], List.cons_ne_nil _ _, rfl⟩
      (.entry ⟨[107], List.cons_ne_nil _ _, rfl⟩ ⟨[49, 46, 53], List.cons_ne_nil _ _, rfl⟩
        (.entry ⟨[107], List.cons_ne_nil _ _, rfl⟩ ⟨[55], List.cons_ne_nil _ _, rfl⟩ .done))
      .done)
    (.entry ⟨[107], List.cons_ne_nil _ _, rfl⟩ ⟨trueText, List.cons_ne_nil _ _, rfl⟩ .done)

/-- The only `double` of the file is given by its digits and how many of them are decimals. -/
theorem nested_scopes_kept :
    Scoped (fun _ => some (((15, 1) : ℕ × ℕ), [])) nestedContent nestedBody :=
  scopes_kept _ (by unfold Renders; decide +kernel) (by unfold Representable; decide +kernel)

end NetworkDriver.Util.Configuration.Scopes
