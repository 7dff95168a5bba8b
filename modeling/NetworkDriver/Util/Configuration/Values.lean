import NetworkDriver.Util.Configuration.Scopes

/-! # Typed values

A value is an integer if `is_integer` accepts it, and that accepts digits only.

* `readValue_decimal`: a number that is not negative is read as itself.
* `readValue_negative`: a negative number is read as a string.
* `lookup_run`: an entry stays as it is, whatever lines follow.
* `roundTrips_iff`: the typed values round-trip exactly for the numbers that are not negative. -/

namespace NetworkDriver.Util.Configuration.Values

open NetworkDriver.Util.Format NetworkDriver.Util.Configuration.Model
open NetworkDriver.Util.Configuration.Classifiers NetworkDriver.Util.Configuration.Scopes

variable {δ : Type}

/-- `key=value`. -/
def keyValue (key : Name) (value : Bytes) : Bytes := key.text ++ equalsSign :: value

/-- The line adds an entry under a path that is new, and `get` returns it, whatever lines follow. -/
def Yields (fromCharsDouble : FromCharsDouble δ) (key : Name) (text : Bytes) (kind : EntryKind)
    (value : kind.type δ) : Prop :=
  ∀ s : Scan δ, lookup s.dict (s.scopePrefix ++ key.text) = none →
    ∃ s', lineStep fromCharsDouble s (keyValue key text) = .ok s' ∧
      ∀ (lines : List Bytes) s'', lines.foldlM (lineStep fromCharsDouble) s' = .ok s'' →
        (Config.mk s''.dict).get kind (s.scopePrefix ++ key.text) = some value

/-- **The typed values round-trip.** -/
structure RoundTrips (fromCharsDouble : FromCharsDouble δ) (key : Name) (n : Int64) : Prop where
  integer : Yields fromCharsDouble key (decimal n.toInt) .int64 n
  bool : Yields fromCharsDouble key trueText .bool true ∧ Yields fromCharsDouble key falseText .bool false
  overflow : ∀ digits, digits ≠ [] → AllDigits digits → 2 ^ 63 ≤ digitsValue digits → ∀ s : Scan δ,
    ∃ reason, lineStep fromCharsDouble s (keyValue key digits) = .error (.exception reason)
  own : ∀ (c : Config δ) path kind (value fallback : kind.type δ),
    lookup c.configValues path = some (kind.entry value) → c.getOr kind path fallback = value
  other : ∀ (c : Config δ) path entry kind (fallback : kind.type δ),
    lookup c.configValues path = some entry → entry.kind ≠ kind → c.getOr kind path fallback = fallback

/-! ### Entries -/

/-- One line leaves the entries that are there. -/
theorem lookup_lineStep {fromCharsDouble : FromCharsDouble δ} {s s' : Scan δ} {line path : Bytes}
    {entry : Entry δ} (h : lookup s.dict path = some entry)
    (hstep : lineStep fromCharsDouble s line = .ok s') : lookup s'.dict path = some entry := by
  by_cases hblank : remove line space = []
  · rw [lineStep_blank hblank] at hstep
    obtain rfl := Except.ok.inj hstep
    exact h
  by_cases hopening : openingBrace ∈ remove line space
  · rw [lineStep_opening hopening] at hstep
    obtain rfl := Except.ok.inj hstep
    exact h
  by_cases hclosing : closingBrace ∈ remove line space
  · unfold lineStep at hstep
    simp only [if_neg hblank, if_neg hopening, if_pos hclosing] at hstep
    split at hstep
    · cases hstep
    · split_ifs at hstep
      obtain rfl := Except.ok.inj hstep
      exact h
  rw [lineStep_pair hblank hopening hclosing] at hstep
  split at hstep
  · obtain rfl := Except.ok.inj hstep
    rw [lookup_emplace, h]
    rfl
  · cases hstep

/-- **An entry stays as it is, whatever lines follow.** -/
theorem lookup_run {fromCharsDouble : FromCharsDouble δ} {lines : List Bytes} {s s' : Scan δ}
    {path : Bytes} {entry : Entry δ} (h : lookup s.dict path = some entry)
    (hrun : lines.foldlM (lineStep fromCharsDouble) s = .ok s') : lookup s'.dict path = some entry := by
  induction lines generalizing s with
  | nil =>
    obtain rfl := Except.ok.inj hrun
    exact h
  | cons line lines ih =>
    have hboth : ([line] ++ lines).foldlM (lineStep fromCharsDouble) s = .ok s' := hrun
    obtain ⟨middle, hstep, hrest⟩ := foldlM_split hboth
    have hline : lineStep fromCharsDouble s line = .ok middle := by
      rw [← hstep, List.foldlM_cons]
      cases lineStep fromCharsDouble s line <;> rfl
    exact ih (lookup_lineStep h hline) hrest

/-- A value that is read as an entry yields it. -/
theorem yields_of_readValue {fromCharsDouble : FromCharsDouble δ} {key : Name} (value : Name)
    {kind : EntryKind} {v : kind.type δ} (h : readValue fromCharsDouble value.text = some (kind.entry v)) :
    Yields fromCharsDouble key value.text kind v := by
  intro s hnew
  refine ⟨_, lineStep_pairLine key value h, fun lines s'' hrun => get_entry (lookup_run ?_ hrun)⟩
  rw [lookup_emplace, hnew, if_pos rfl]
  rfl

/-! ### Numbers -/

/-- Digits and a sign make a value. -/
theorem plain_number (value : Bytes) (h : ∀ c ∈ value, isDigit c = true ∨ c = minus) :
    value.all isPlain = true := by
  refine List.all_eq_true.mpr fun c hc => ?_
  have hne : ∀ d, isDigit d = false ∧ d ≠ minus → c ≠ d := by
    rintro d ⟨hdigit, hminus⟩ rfl
    rcases h c hc with hc | hc
    · rw [hdigit] at hc
      cases hc
    · exact hminus hc
  have hopening := hne openingBrace ⟨rfl, by decide⟩
  have hclosing := hne closingBrace ⟨rfl, by decide⟩
  have hequals := hne equalsSign ⟨rfl, by decide⟩
  have hspace := hne space ⟨rfl, by decide⟩
  have hnewline := hne newline ⟨rfl, by decide⟩
  simp [isPlain, hopening, hclosing, hequals, hspace, hnewline]

theorem number_decimal (n : ℤ) : ∀ c ∈ decimal n, isDigit c = true ∨ c = minus := by
  intro c hc
  unfold decimal at hc
  split_ifs at hc
  · rcases List.mem_cons.mp hc with rfl | hc
    · exact .inr rfl
    · exact .inl (isDigit_of_mem _ c hc)
  · exact .inl (isDigit_of_mem _ c hc)

theorem decimal_ne_nil (n : ℤ) : decimal n ≠ [] := by
  unfold decimal
  split_ifs
  · exact List.cons_ne_nil _ _
  · exact decimalDigits_ne_nil _

/-- The decimal rendering as a value. -/
def decimalName (n : ℤ) : Name := ⟨decimal n, decimal_ne_nil n, plain_number _ (number_decimal n)⟩

/-- **A number that is not negative is read as itself.** -/
theorem readValue_decimal (fromCharsDouble : FromCharsDouble δ) {n : Int64} (hn : 0 ≤ n.toInt) :
    readValue fromCharsDouble (decimal n.toInt) = some (.int64 n) := by
  have hrange := n.toInt_lt
  have habs : (n.toInt.natAbs : ℤ) = n.toInt := Int.natAbs_of_nonneg hn
  have hvalue := digitsValue_decimalDigits n.toInt.natAbs
  unfold decimal
  rw [if_neg (not_lt.mpr hn), readValue_digits (decimalDigits_ne_nil _) (isDigit_of_mem _), hvalue,
    if_pos (by omega), habs, Int64.ofInt_toInt]

/-- **A negative number is read as a string**: the sign is no digit. -/
theorem readValue_negative (fromCharsDouble : FromCharsDouble δ) {n : ℤ} (hn : n < 0) :
    readValue fromCharsDouble (decimal n) = some (.string (decimal n)) := by
  have hdecimal : decimal n = minus :: decimalDigits n.natAbs := if_pos hn
  have hmem : minus ∈ decimal n := by
    rw [hdecimal]
    exact List.mem_cons_self
  have hbool : ¬ (decimal n = trueText ∨ decimal n = falseText) := by
    rintro (h | h)
    · rw [h] at hmem
      exact absurd hmem (by decide)
    · rw [h] at hmem
      exact absurd hmem (by decide)
  have hdouble : ¬ Decimal (decimal n) := fun h => absurd (h.2 minus hmem) (by decide)
  have hdigits : ¬ AllDigits (decimal n) := fun h => absurd (h minus hmem) (by decide)
  unfold readValue
  simp only [isBool_eq, isDouble_eq, isInteger_eq]
  rw [if_neg hbool, if_neg hdouble, if_neg hdigits]

/-- A negative number is not returned: its line adds a string. -/
theorem not_yields_negative {fromCharsDouble : FromCharsDouble δ} {key : Name} {n : Int64}
    (hn : n.toInt < 0) : ¬ Yields fromCharsDouble key (decimal n.toInt) .int64 n := by
  intro h
  obtain ⟨s', hstep, hget⟩ := h .start rfl
  have hread := readValue_negative fromCharsDouble hn
  have hline := lineStep_pairLine (s := .start) key (decimalName n.toInt) hread
  obtain rfl := Except.ok.inj (hline.symm.trans hstep)
  have hsome := hget [] _ rfl
  have hlookup : lookup ((Scan.start : Scan δ).dict.emplace (key.text, Entry.string (decimal n.toInt)))
      key.text = some (.string (decimal n.toInt)) := by
    rw [lookup_emplace, if_pos rfl]
    rfl
  have hnone : Config.get ⟨_⟩ .int64 key.text = none := get_other hlookup (by simp [Entry.kind])
  have hcontra : some n = none := hsome.symm.trans hnone
  cases hcontra

/-- Digits beyond the range are rejected. -/
theorem lineStep_overflow {fromCharsDouble : FromCharsDouble δ} {key : Name} {digits : Bytes}
    (hne : digits ≠ []) (hdigits : AllDigits digits) (hvalue : 2 ^ 63 ≤ digitsValue digits) (s : Scan δ) :
    ∃ reason, lineStep fromCharsDouble s (keyValue key digits) = .error (.exception reason) := by
  have hplain := plain_number digits fun c hc => .inl (hdigits c hc)
  have hread : readValue fromCharsDouble digits = none := by
    rw [readValue_digits hne hdigits, if_neg (not_lt.mpr hvalue)]
  have hline := @lineStep_pairLine_eq δ fromCharsDouble s key ⟨digits, hne, hplain⟩
  rw [hread] at hline
  exact ⟨_, hline⟩

/-- **The typed values round-trip exactly for the numbers that are not negative.** -/
theorem roundTrips_iff (fromCharsDouble : FromCharsDouble δ) (key : Name) (n : Int64) :
    RoundTrips fromCharsDouble key n ↔ 0 ≤ n.toInt := by
  constructor
  · intro h
    by_contra hn
    exact not_yields_negative (not_le.mp hn) h.integer
  · intro hn
    refine ⟨?_, ⟨?_, ?_⟩, ?_, ?_, ?_⟩
    · exact yields_of_readValue (decimalName n.toInt) (readValue_decimal fromCharsDouble hn)
    · exact yields_of_readValue ⟨trueText, List.cons_ne_nil _ _, rfl⟩ rfl
    · exact yields_of_readValue ⟨falseText, List.cons_ne_nil _ _, rfl⟩ rfl
    · intro digits hne hdigits hvalue s
      exact lineStep_overflow hne hdigits hvalue s
    · intro c path kind value fallback h
      rw [getOr_eq, get_entry h]
      rfl
    · intro c path entry kind fallback h hkind
      rw [getOr_eq, get_other h hkind]
      rfl

/-- `-1` is added as a string. -/
theorem minus_one_not_returned :
    ¬ RoundTrips (fun _ => (none : Option (Unit × Bytes))) ⟨[107], List.cons_ne_nil _ _, rfl⟩ (-1) :=
  fun h => not_yields_negative (by decide) h.integer

end NetworkDriver.Util.Configuration.Values
