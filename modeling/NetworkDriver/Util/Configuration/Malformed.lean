import NetworkDriver.Util.Configuration.Classifiers

/-! # Malformed files

A line with an opening brace opens a scope, any other line with a closing brace closes one.
`parse_file` takes the length of the scope that it closes from a stack, without a look at whether
there is one, and does not look at the stack at the end.

* `Synced`: the prefix has the length that the stack accounts for.
* `lineStep_closing_open`: so only the stack itself can run empty.
* `agrees_run`: a run settles exactly if its lines are clean, by the class of each line.
* `rejected_iff`: exactly which files are rejected cleanly. -/

namespace NetworkDriver.Util.Configuration.Malformed

open NetworkDriver.Util.Format
open NetworkDriver.Util.Configuration.Model NetworkDriver.Util.Configuration.Classifiers

variable {δ : Type}

/-- Every line that closes a scope has an open one, and none is open at the end. -/
def Balanced : ℕ → List Bytes → Prop
  | depth, [] => depth = 0
  | depth, line :: lines =>
    if openingBrace ∈ line then Balanced (depth + 1) lines
    else if closingBrace ∈ line then 0 < depth ∧ Balanced (depth - 1) lines
    else Balanced depth lines

/-- **Malformed files are rejected cleanly.** -/
structure RejectedCleanly (fromCharsDouble : FromCharsDouble δ) (file : Option Bytes) : Prop where
  safe : (∃ dict, parseFile fromCharsDouble file = .ok dict) ∨
    ∃ reason, parseFile fromCharsDouble file = .error (.exception reason)
  rejected : ¬ Balanced 0 (fileLines file) →
    ∃ reason, parseFile fromCharsDouble file = .error (.exception reason)
  unchanged : ∀ (c : Config δ) reason, (c.parse fromCharsDouble file).1 = .error (.exception reason) →
    (c.parse fromCharsDouble file).2 = c

/-- Up to the first line that is not readable, every line that closes a scope has an open one; if
all are readable, none is open at the end. -/
def Clean (fromCharsDouble : FromCharsDouble δ) : ℕ → List Bytes → Prop
  | depth, [] => depth = 0
  | depth, line :: lines =>
    if remove line space = [] then Clean fromCharsDouble depth lines
    else if openingBrace ∈ line then Clean fromCharsDouble (depth + 1) lines
    else if closingBrace ∈ line then 0 < depth ∧ Clean fromCharsDouble (depth - 1) lines
    else Readable fromCharsDouble (remove line space) → Clean fromCharsDouble depth lines

/-! ### Lines -/

theorem mem_remove_space {line : Bytes} {c : UInt8} (hc : c ≠ space) : c ∈ remove line space ↔ c ∈ line :=
  mem_remove.trans (and_iff_left hc)

/-- A blank line has no braces. -/
theorem notMem_of_blank {line : Bytes} {c : UInt8} (h : remove line space = []) (hc : c ≠ space) :
    c ∉ line := by
  intro hmem
  have hremove := (mem_remove_space hc).mpr hmem
  rw [h] at hremove
  cases hremove

/-- The prefix has the length that the stack accounts for. -/
def Synced (s : Scan δ) : Prop := s.scopePrefix.length = s.prefixLengths.sum

/-- **With a scope open, a line closes it**: the prefix is long enough. -/
theorem lineStep_closing_open (fromCharsDouble : FromCharsDouble δ) {s : Scan δ} {line : Bytes} {top : ℕ}
    {lengths : List ℕ} (hs : Synced s) (hlengths : s.prefixLengths = top :: lengths)
    (hopening : openingBrace ∉ line) (h : closingBrace ∈ line) :
    ∃ s', lineStep fromCharsDouble s line = .ok s' ∧ Synced s' ∧ s'.prefixLengths = lengths := by
  have hsum : s.scopePrefix.length = top + lengths.sum := by
    rw [hs, hlengths]
    rfl
  have hopen : openingBrace ∉ remove line space := fun hmem => hopening (mem_remove.mp hmem).1
  have hclose : closingBrace ∈ remove line space := (mem_remove_space (by decide)).mpr h
  refine ⟨_, lineStep_closing hopen hclose hlengths (by omega), ?_, rfl⟩
  change (s.scopePrefix.take (s.scopePrefix.length - top)).length = lengths.sum
  rw [List.length_take]
  omega

theorem lineStep_opening_any (fromCharsDouble : FromCharsDouble δ) {s : Scan δ} {line : Bytes}
    (hs : Synced s) (h : openingBrace ∈ line) :
    ∃ s' length, lineStep fromCharsDouble s line = .ok s' ∧ Synced s' ∧
      s'.prefixLengths = length :: s.prefixLengths := by
  refine ⟨_, _, lineStep_opening ((mem_remove_space (by decide)).mpr h), ?_, rfl⟩
  change (s.scopePrefix ++ _).length = (_ :: s.prefixLengths).sum
  rw [List.length_append, List.sum_cons, hs, Nat.add_comm]

/-! ### Files -/

/-- It is an exception, or a dictionary with the scopes balanced. -/
def Settled (balanced : Prop) (result : Except Fault (Scan δ)) : Prop :=
  (∃ reason, result = .error (.exception reason)) ∨ ((∃ s, result = .ok s) ∧ balanced)

/-- The run over some lines settles exactly if they are clean. -/
def Agrees (fromCharsDouble : FromCharsDouble δ) (lines : List Bytes) (s : Scan δ) : Prop :=
  Settled (Balanced s.prefixLengths.length lines) (lines.foldlM (lineStep fromCharsDouble) s) ↔
    Clean fromCharsDouble s.prefixLengths.length lines

section Agrees

variable {fromCharsDouble : FromCharsDouble δ} {line : Bytes} {lines : List Bytes} {s : Scan δ}

theorem agrees_nil (s : Scan δ) : Agrees fromCharsDouble [] s := by
  unfold Agrees Balanced Clean
  constructor
  · rintro (⟨reason, h⟩ | ⟨-, h⟩)
    · cases h
    · exact h
  · intro h
    exact .inr ⟨⟨s, rfl⟩, h⟩

theorem agrees_blank (h : Agrees fromCharsDouble lines s) (hblank : remove line space = []) :
    Agrees fromCharsDouble (line :: lines) s := by
  have hopening : openingBrace ∉ line := notMem_of_blank hblank (by decide)
  have hclosing : closingBrace ∉ line := notMem_of_blank hblank (by decide)
  unfold Agrees Balanced Clean
  rw [List.foldlM_cons, if_pos hblank, if_neg hopening, if_neg hclosing, lineStep_blank hblank]
  exact h

variable (hlines : ∀ s, Synced s → Agrees fromCharsDouble lines s) (hs : Synced s)

include hlines hs

theorem agrees_opening (hopening : openingBrace ∈ line) : Agrees fromCharsDouble (line :: lines) s := by
  have hne := List.ne_nil_of_mem ((mem_remove_space (by decide)).mpr hopening)
  obtain ⟨s', length, hstep, hs', hlengths⟩ := lineStep_opening_any fromCharsDouble hs hopening
  have hrest := hlines s' hs'
  unfold Agrees at hrest
  rw [hlengths] at hrest
  unfold Agrees Balanced Clean
  rw [List.foldlM_cons, if_neg hne, if_pos hopening, if_pos hopening, hstep]
  exact hrest

/-- A line that closes a scope is where the stack may run empty. -/
theorem agrees_closing (hopening : openingBrace ∉ line) (hclosing : closingBrace ∈ line) :
    Agrees fromCharsDouble (line :: lines) s := by
  have hclose : closingBrace ∈ remove line space := (mem_remove_space (by decide)).mpr hclosing
  have hne := List.ne_nil_of_mem hclose
  unfold Agrees Balanced Clean
  rw [List.foldlM_cons, if_neg hne, if_neg hopening, if_neg hopening, if_pos hclosing, if_pos hclosing]
  cases hlengths : s.prefixLengths with
  | nil =>
    have hopen : openingBrace ∉ remove line space := fun hmem => hopening (mem_remove.mp hmem).1
    rw [lineStep_closing_empty hopen hclose hlengths]
    constructor
    · rintro (⟨reason, h⟩ | ⟨⟨s', h⟩, -⟩)
      · cases h
      · cases h
    · rintro ⟨hpos, -⟩
      exact absurd hpos (lt_irrefl 0)
  | cons top lengths =>
    obtain ⟨s', hstep, hs', hlengths'⟩ := lineStep_closing_open fromCharsDouble hs hlengths hopening hclosing
    have hrest := hlines s' hs'
    unfold Agrees at hrest
    rw [hlengths'] at hrest
    have hpos : 0 < (top :: lengths).length := Nat.succ_pos _
    rw [hstep, and_iff_right hpos, and_iff_right hpos]
    exact hrest

theorem agrees_pair (hne : remove line space ≠ []) (hopening : openingBrace ∉ line)
    (hclosing : closingBrace ∉ line) : Agrees fromCharsDouble (line :: lines) s := by
  have hopen : openingBrace ∉ remove line space := fun hmem => hopening (mem_remove.mp hmem).1
  have hclose : closingBrace ∉ remove line space := fun hmem => hclosing (mem_remove.mp hmem).1
  unfold Agrees Balanced Clean
  rw [List.foldlM_cons, if_neg hne, if_neg hopening, if_neg hopening, if_neg hclosing, if_neg hclosing,
    lineStep_pair hne hopen hclose, ← readLine_isSome]
  cases hread : readLine fromCharsDouble (remove line space) with
  | none =>
    constructor
    · intro _ h
      cases h
    · intro _
      exact .inl ⟨_, rfl⟩
  | some e =>
    rw [forall_prop_of_true Option.isSome_some]
    exact hlines { s with dict := s.dict.emplace (s.scopePrefix ++ e.1, e.2) } hs

end Agrees

/-- **The run from any state**, by the lines. -/
theorem agrees_run {fromCharsDouble : FromCharsDouble δ} {lines : List Bytes} {s : Scan δ}
    (hs : Synced s) : Agrees fromCharsDouble lines s := by
  induction lines generalizing s with
  | nil => exact agrees_nil s
  | cons line lines ih =>
    have hlines : ∀ s, Synced s → Agrees fromCharsDouble lines s := fun _ hs => ih hs
    by_cases hblank : remove line space = []
    · exact agrees_blank (ih hs) hblank
    by_cases hopening : openingBrace ∈ line
    · exact agrees_opening hlines hs hopening
    by_cases hclosing : closingBrace ∈ line
    · exact agrees_closing hlines hs hopening hclosing
    · exact agrees_pair hlines hs hblank hopening hclosing

/-- `config::parse` assigns what `parse_file` returns, and nothing where it throws. -/
theorem parse_unchanged (fromCharsDouble : FromCharsDouble δ) (c : Config δ) (file : Option Bytes)
    {fault : Fault} (h : (c.parse fromCharsDouble file).1 = .error fault) :
    (c.parse fromCharsDouble file).2 = c := by
  unfold Config.parse at h ⊢
  cases hparse : parseFile fromCharsDouble file with
  | ok dict =>
    rw [hparse] at h
    cases h
  | error fault => rfl

/-- **Exactly the clean files are rejected cleanly.** -/
theorem rejected_iff (fromCharsDouble : FromCharsDouble δ) (file : Option Bytes) :
    RejectedCleanly fromCharsDouble file ↔ Clean fromCharsDouble 0 (fileLines file) := by
  have hsettled : Settled (Balanced 0 (fileLines file)) _ ↔ Clean fromCharsDouble 0 (fileLines file) :=
    agrees_run (s := .start) rfl
  rw [← hsettled]
  have hfile : parseFile fromCharsDouble file =
      ((fileLines file).foldlM (lineStep fromCharsDouble) .start).map Scan.dict := rfl
  cases hrun : (fileLines file).foldlM (lineStep fromCharsDouble) .start with
  | ok s =>
    rw [hrun] at hfile
    constructor
    · intro h
      refine .inr ⟨⟨s, rfl⟩, ?_⟩
      by_contra hbalanced
      obtain ⟨reason, hreason⟩ := h.rejected hbalanced
      rw [hfile] at hreason
      cases hreason
    · rintro (⟨reason, h⟩ | ⟨-, hbalanced⟩)
      · cases h
      · exact ⟨.inl ⟨s.dict, hfile⟩, fun h => absurd hbalanced h,
          fun c reason h => parse_unchanged fromCharsDouble c file h⟩
  | error fault =>
    rw [hrun] at hfile
    constructor
    · intro h
      rcases h.safe with ⟨dict, hdict⟩ | ⟨reason, hreason⟩
      · rw [hfile] at hdict
        cases hdict
      · rw [hfile] at hreason
        obtain rfl := Except.error.inj hreason
        exact .inl ⟨reason, rfl⟩
    · rintro (⟨reason, h⟩ | ⟨⟨s, h⟩, -⟩)
      · obtain rfl := Except.error.inj h
        exact ⟨.inr ⟨reason, hfile⟩, fun _ => ⟨reason, hfile⟩,
          fun c reason h => parse_unchanged fromCharsDouble c file h⟩
      · cases h

/-- A file of one closing brace takes the top of an empty stack. -/
theorem single_brace_unsafe :
    ¬ RejectedCleanly (fun _ => (none : Option (Unit × Bytes))) (some [125, 10]) := by
  intro h
  have hfile : parseFile (fun _ => (none : Option (Unit × Bytes))) (some [125, 10]) = .error .emptyTop := rfl
  rcases h.safe with ⟨dict, hdict⟩ | ⟨reason, hreason⟩
  · rw [hfile] at hdict
    cases hdict
  · rw [hfile] at hreason
    cases hreason

end NetworkDriver.Util.Configuration.Malformed
