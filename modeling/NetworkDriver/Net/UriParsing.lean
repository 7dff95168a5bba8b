import NetworkDriver.Net.Ip.Text

/-! # URIs

The constructor of `uri` cuts its string at `://` and the part behind it, from the right, at `#`,
`?` and `/`. It rejects a string with more than one `://`, but not one without: there the scheme and
what is behind it are both the whole string.

* `extractParts_eq`: the remainder and the parts with delimiters in front of them are the source.
* `Lossless`: what should hold of an accepted string and its URI.
* `construct_lossless_iff`: it holds exactly if the string has a `://`. -/

namespace NetworkDriver.Net.UriParsing

open NetworkDriver.Library.Separators
open NetworkDriver.Net.Datagrams.Model (Endpoint)
open NetworkDriver.Net.Ip.Model
open NetworkDriver.Util.Format NetworkDriver.Util.Splitting NetworkDriver.Util.Formatting.Model

/-- `uri`; its views are the bytes they view. -/
structure Uri where
  original : Bytes
  scheme : Bytes
  auth : Endpoint
  path : List Bytes
  queries : List Bytes
  fragments : List Bytes
  deriving DecidableEq

/-- `"://"`. -/
def schemeDelim : Bytes := [58, 47, 47]

def slash : UInt8 := 47

def questionMark : UInt8 := 63

def hash : UInt8 := 35

/-- `extract_parts`: the parts but the first one, and the first one. -/
def extractParts (source : Bytes) (delim : UInt8) : List Bytes × Bytes :=
  let dst := split source delim
  (dst.tail, dst.headD [])

/-- The constructor. What it throws holds an error. -/
def construct (uriString : Bytes) : Except Error Uri :=
  let parts := (splitString uriString schemeDelim).getD []
  if 2 < parts.length then
    .error (parserError (format "Failed to parse {0}".toUTF8.toList [.text uriString]))
  else
    let fragments := extractParts (parts.getLastD []) hash
    let queries := extractParts fragments.2 questionMark
    let path := extractParts queries.2 slash
    match parseV4Endpoint path.2 with
    | .error err => .error err
    | .ok auth => .ok ⟨uriString, parts.headD [], auth, path.1, queries.1, fragments.1⟩

/-! ### The parts -/

/-- Parts with a delimiter in front of each. -/
def delimited (delim : UInt8) (parts : List Bytes) : Bytes := parts.flatMap fun part => delim :: part

theorem intercalate_eq (delim : UInt8) (first : Bytes) (parts : List Bytes) :
    [delim].intercalate (first :: parts) = first ++ delimited delim parts := by
  induction parts generalizing first with
  | nil =>
    rw [List.intercalate_singleton]
    exact (List.append_nil _).symm
  | cons part parts ih =>
    rw [List.intercalate_cons_cons, ih]
    simp only [delimited, List.flatMap_cons, List.append_assoc, List.cons_append, List.nil_append]

/-- **The remainder and the parts with delimiters in front of them are the source**, and the
delimiter is in none of them. -/
theorem extractParts_eq (source : Bytes) (delim : UInt8) :
    source = (extractParts source delim).2 ++ delimited delim (extractParts source delim).1 ∧
      delim ∉ (extractParts source delim).2 ∧ ∀ part ∈ (extractParts source delim).1, delim ∉ part := by
  obtain ⟨hne, hjoin, hfree⟩ := split_eq_iff.mp (rfl : split source delim = split source delim)
  obtain ⟨first, parts, hparts⟩ := List.exists_cons_of_ne_nil hne
  unfold extractParts
  rw [hparts] at hjoin hfree ⊢
  obtain ⟨hfirst, hrest⟩ := List.forall_mem_cons.mp hfree
  exact ⟨by rw [← hjoin, intercalate_eq]; rfl, hfirst, hrest⟩

theorem mem_delimited {delim c : UInt8} {parts : List Bytes} {part : Bytes} (hpart : part ∈ parts)
    (hc : c ∈ part) : c ∈ delimited delim parts :=
  List.mem_flatMap.mpr ⟨part, hpart, List.mem_cons_of_mem _ hc⟩

/-- A character that is not in the source is not in the parts either. -/
theorem notMem_extractParts {source : Bytes} {delim c : UInt8} (h : c ∉ source) :
    c ∉ (extractParts source delim).2 ∧ ∀ part ∈ (extractParts source delim).1, c ∉ part := by
  rw [(extractParts_eq source delim).1, List.mem_append, not_or] at h
  exact ⟨h.1, fun part hpart hc => h.2 (mem_delimited hpart hc)⟩

/-! ### The URI of a string -/

/-- The string has one `://`, and it is what the parts say: the scheme, a text of the authority, the
path, the queries and the fragments, each with its delimiter in front, which is in no part where it
would cut. -/
structure Lossless (str : Bytes) (u : Uri) : Prop where
  once : occurrences schemeDelim str = 1
  text : ∃ auth, parseV4Endpoint auth = .ok u.auth ∧ str = u.scheme ++ schemeDelim ++ auth ++
    delimited slash u.path ++ delimited questionMark u.queries ++ delimited hash u.fragments
  path : ∀ p ∈ u.path, slash ∉ p ∧ questionMark ∉ p ∧ hash ∉ p
  queries : ∀ q ∈ u.queries, questionMark ∉ q ∧ hash ∉ q
  fragments : ∀ f ∈ u.fragments, hash ∉ f

/-- The parts behind the scheme are the text behind it. -/
theorem text_eq (back : Bytes) :
    back = (extractParts (extractParts (extractParts back hash).2 questionMark).2 slash).2 ++
      delimited slash (extractParts (extractParts (extractParts back hash).2 questionMark).2 slash).1 ++
      delimited questionMark (extractParts (extractParts back hash).2 questionMark).1 ++
      delimited hash (extractParts back hash).1 := by
  rw [← (extractParts_eq _ slash).1, ← (extractParts_eq _ questionMark).1, ← (extractParts_eq _ hash).1]

theorem headOnly_schemeDelim : HeadOnly schemeDelim := by
  change (58 : UInt8) ∉ ([47, 47] : Bytes)
  decide

/-- What the constructor takes an accepted string for. -/
theorem construct_eq_ok {str : Bytes} {u : Uri} (h : construct str = .ok u) :
    ∃ parts, Parts schemeDelim str parts ∧ parts.length ≤ 2 ∧ u.scheme = parts.headD [] ∧
      u.fragments = (extractParts (parts.getLastD []) hash).1 ∧
      u.queries = (extractParts (extractParts (parts.getLastD []) hash).2 questionMark).1 ∧
      u.path =
        (extractParts (extractParts (extractParts (parts.getLastD []) hash).2 questionMark).2 slash).1 ∧
      parseV4Endpoint
        (extractParts (extractParts (extractParts (parts.getLastD []) hash).2 questionMark).2 slash).2 =
          .ok u.auth := by
  obtain ⟨parts, hparts⟩ := exists_parts headOnly_schemeDelim.ne_nil str
  have hsplit := (splitString_eq_some headOnly_schemeDelim.ne_nil).mpr hparts
  unfold construct at h
  rw [hsplit] at h
  dsimp only [Option.getD_some] at h
  split_ifs at h with hlen
  cases hauth : parseV4Endpoint
      (extractParts (extractParts (extractParts (parts.getLastD []) hash).2 questionMark).2 slash).2 with
  | error err =>
    rw [hauth] at h
    cases h
  | ok auth =>
    rw [hauth] at h
    cases h
    exact ⟨parts, hparts, not_lt.mp hlen, rfl, rfl, rfl, rfl, hauth⟩

/-- **An accepted string and its URI say the same exactly if the string has a `://`.** -/
theorem construct_lossless_iff {str : Bytes} {u : Uri} (h : construct str = .ok u) :
    Lossless str u ↔ schemeDelim <:+: str := by
  obtain ⟨parts, hparts, hlen, hscheme, hfragments, hqueries, hpath, hauth⟩ := construct_eq_ok h
  have hcount := hparts.length_eq headOnly_schemeDelim
  constructor
  · intro hlossless
    by_contra hno
    have hzero := occurrences_eq_zero.mpr hno
    rw [hlossless.once] at hzero
    cases hzero
  · intro hdelim
    have hpos : occurrences schemeDelim str ≠ 0 := fun hzero => occurrences_eq_zero.mp hzero hdelim
    obtain ⟨front, back, rfl⟩ := List.length_eq_two.mp (show parts.length = 2 by omega)
    have hjoin := hparts.intercalate_eq.2
    rw [List.intercalate_cons_cons, List.intercalate_singleton] at hjoin
    obtain ⟨_, hhash, hfragmentsFree⟩ := extractParts_eq back hash
    obtain ⟨_, hquestion, hqueriesFree⟩ := extractParts_eq (extractParts back hash).2 questionMark
    have hslash := (extractParts_eq (extractParts (extractParts back hash).2 questionMark).2 slash).2.2
    -- what a later cut gives has none of the characters of the earlier ones
    obtain ⟨hhashRest, hhashQueries⟩ : hash ∉ (extractParts (extractParts back hash).2 questionMark).2 ∧
        ∀ q ∈ (extractParts (extractParts back hash).2 questionMark).1, hash ∉ q :=
      notMem_extractParts hhash
    refine ⟨by rw [List.length_cons, List.length_singleton] at hcount; omega, ⟨_, hauth, ?_⟩, ?_, ?_, ?_⟩
    · rw [hscheme, hpath, hqueries, hfragments, ← hjoin]
      conv_lhs => rw [text_eq back]
      simp only [List.headD_cons, List.getLastD_cons, List.getLastD_nil, List.append_assoc]
    · rw [hpath]
      intro p hp
      exact ⟨hslash p hp, (notMem_extractParts hquestion).2 p hp, (notMem_extractParts hhashRest).2 p hp⟩
    · rw [hqueries]
      intro q hq
      exact ⟨hqueriesFree q hq, hhashQueries q hq⟩
    · rw [hfragments]
      exact hfragmentsFree

/-- `a://1.2.3.4:5/x?y#z`. -/
def exampleText : Bytes :=
  [97, 58, 47, 47, 49, 46, 50, 46, 51, 46, 52, 58, 53, 47, 120, 63, 121, 35, 122]

theorem construct_lossless_example :
    ∃ u, construct exampleText = .ok u ∧ (Lossless exampleText u ↔ schemeDelim <:+: exampleText) := by
  have hok : construct exampleText =
      .ok ⟨exampleText, [97], ⟨ofOctets [1, 2, 3, 4], 5⟩, [[120]], [[121]], [[122]]⟩ := by decide +kernel
  exact ⟨_, hok, construct_lossless_iff hok⟩

/-- `1.2.3.4:5` is accepted, with itself as the scheme. -/
theorem construct_without_scheme :
    ∃ u, construct [49, 46, 50, 46, 51, 46, 52, 58, 53] = .ok u ∧
      u.scheme = [49, 46, 50, 46, 51, 46, 52, 58, 53] ∧
      ¬ Lossless [49, 46, 50, 46, 51, 46, 52, 58, 53] u := by
  refine ⟨⟨[49, 46, 50, 46, 51, 46, 52, 58, 53], [49, 46, 50, 46, 51, 46, 52, 58, 53],
    ⟨ofOctets [1, 2, 3, 4], 5⟩, [], [], []⟩, by decide +kernel, rfl, fun h => ?_⟩
  exact absurd h.once (by decide)

end NetworkDriver.Net.UriParsing
