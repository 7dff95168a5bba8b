import NetworkDriver.Library.Results
import NetworkDriver.Net.Ip.Model

/-! # Endpoints as text

* `parseV4Address_eq_ok`, `parseV4Endpoint_eq_ok`: exactly which strings are addresses and
  endpoints, and which ones.
* `endpointToString_eq`: the text of an endpoint.
* `parse_v4_endpoint_exact`: both, with the way from an endpoint to its text and back. -/

namespace NetworkDriver.Net.Ip.Text

open NetworkDriver.Library.Results NetworkDriver.Library.Separators
open NetworkDriver.Net.Datagrams.Model (Endpoint)
open NetworkDriver.Util.Format NetworkDriver.Util.Splitting NetworkDriver.Util.Formatting.Model
open NetworkDriver.Net.Ip.Model

/-- A decimal digit string, not empty, of value at most `bound`. -/
structure IsNumber (bound : ℕ) (str : Bytes) : Prop where
  ne_nil : str ≠ []
  digits : ∀ c ∈ str, isDigit c = true
  le : digitsValue str ≤ bound

theorem IsNumber.notMem {bound : ℕ} {str : Bytes} (h : IsNumber bound str) {c : UInt8}
    (hc : isDigit c = false) : c ∉ str := by
  intro hmem
  rw [h.digits c hmem] at hc
  cases hc

theorem parse_eq_some {α : Type} {bound : ℕ} {ofNat : ℕ → α} {str : Bytes} {a : α} :
    parse (fromCharsUnsigned (bound + 1) ofNat) str = some a ↔
      IsNumber bound str ∧ ofNat (digitsValue str) = a := by
  rw [parse_unsigned_eq_some]
  constructor
  · rintro ⟨hne, hdigits, hlt, rfl⟩
    exact ⟨⟨hne, hdigits, Nat.le_of_lt_succ hlt⟩, rfl⟩
  · rintro ⟨⟨hne, hdigits, hle⟩, rfl⟩
    exact ⟨hne, hdigits, Nat.lt_succ_of_le hle, rfl⟩

/-! ### Parsing -/

/-- The octet some digits stand for. -/
def octet (digits : Bytes) : UInt8 := UInt8.ofNat (digitsValue digits)

theorem parse_octet_eq_some {str : Bytes} {value : UInt8} :
    parse (fromCharsUnsigned (2 ^ 8) UInt8.ofNat) str = some value ↔
      IsNumber 255 str ∧ octet str = value := parse_eq_some

theorem parse_port_eq_some {str : Bytes} {port : UInt16} :
    parse (fromCharsUnsigned (2 ^ 16) UInt16.ofNat) str = some port ↔
      IsNumber 65535 str ∧ UInt16.ofNat (digitsValue str) = port := parse_eq_some

/-- The loop over the parts succeeds if each of them is a number. -/
theorem parseOctets_eq_ok {parts : List Bytes} {bytes : List UInt8} :
    parseOctets parts = .ok bytes ↔ (∀ part ∈ parts, IsNumber 255 part) ∧ parts.map octet = bytes := by
  induction parts generalizing bytes with
  | nil => simp [parseOctets]
  | cons part parts ih =>
    rw [List.forall_mem_cons, List.map_cons]
    unfold parseOctets
    cases hpart : parse (fromCharsUnsigned (2 ^ 8) UInt8.ofNat) part with
    | none =>
      dsimp only
      refine ⟨nofun, fun h => ?_⟩
      have hsome := parse_octet_eq_some.mpr ⟨h.1.1, rfl⟩
      rw [hpart] at hsome
      cases hsome
    | some value =>
      obtain ⟨hnumber, rfl⟩ := parse_octet_eq_some.mp hpart
      dsimp only
      rw [map_eq_ok]
      constructor
      · rintro ⟨bs, hbs, rfl⟩
        obtain ⟨hall, rfl⟩ := ih.mp hbs
        exact ⟨⟨hnumber, hall⟩, rfl⟩
      · rintro ⟨⟨_, hall⟩, rfl⟩
        exact ⟨_, ih.mpr ⟨hall, rfl⟩, rfl⟩

/-- **The addresses are four numbers with dots between them.** -/
theorem parseV4Address_eq_ok {str : Bytes} {addr : UInt32} :
    parseV4Address str = .ok addr ↔ ∃ octets : List Bytes, octets.length = 4 ∧
      str = [dot].intercalate octets ∧ (∀ d ∈ octets, IsNumber 255 d) ∧
      addressBytes addr = octets.map octet := by
  unfold parseV4Address
  dsimp only
  constructor
  · intro h
    split_ifs at h with hlen
    obtain ⟨bytes, hbytes, rfl⟩ := map_eq_ok.mp h
    obtain ⟨hall, rfl⟩ := parseOctets_eq_ok.mp hbytes
    obtain ⟨_, hjoin, _⟩ := split_eq_iff.mp (rfl : split str dot = split str dot)
    refine ⟨split str dot, not_not.mp hlen, hjoin.symm, hall, addressBytes_ofOctets ?_⟩
    rw [List.length_map, not_not.mp hlen]
  · rintro ⟨octets, hlen, rfl, hall, hbytes⟩
    have hne : octets ≠ [] := by
      rintro rfl
      cases hlen
    have hsplit := split_eq_iff.mpr ⟨hne, rfl, fun d hd => (hall d hd).notMem (c := dot) rfl⟩
    rw [hsplit, if_neg (not_not.mpr hlen), map_eq_ok]
    exact ⟨_, parseOctets_eq_ok.mpr ⟨hall, rfl⟩, by rw [← hbytes, ofOctets_addressBytes]⟩

/-- An address has digits and dots only. -/
theorem notMem_intercalate {c : UInt8} (hdigit : isDigit c = false) (hdot : c ≠ dot)
    {octets : List Bytes} (h : ∀ d ∈ octets, IsNumber 255 d) : c ∉ [dot].intercalate octets := by
  induction octets with
  | nil => exact List.not_mem_nil
  | cons d octets ih =>
    obtain ⟨hd, hall⟩ := List.forall_mem_cons.mp h
    rcases octets with _ | ⟨next, octets⟩
    · rw [List.intercalate_singleton]
      exact hd.notMem hdigit
    · rw [List.intercalate_cons_cons, List.mem_append, List.mem_append, not_or, not_or]
      exact ⟨⟨hd.notMem hdigit, mt List.mem_singleton.mp hdot⟩, ih hall⟩

/-- What is accepted has two parts. -/
theorem exists_split_of_ok {str : Bytes} {ep : Endpoint} (h : parseV4Endpoint str = .ok ep) :
    ∃ front back, split str colon = [front, back] := by
  unfold parseV4Endpoint at h
  rcases hsplit : split str colon with _ | ⟨front, _ | ⟨back, _ | ⟨_, _⟩⟩⟩
  · rw [hsplit] at h
    cases h
  · rw [hsplit] at h
    cases h
  · exact ⟨front, back, rfl⟩
  · rw [hsplit] at h
    cases h

/-- Two parts are accepted as an address and a port. -/
theorem parseV4Endpoint_of_split {str front back : Bytes} {ep : Endpoint}
    (hsplit : split str colon = [front, back]) :
    parseV4Endpoint str = .ok ep ↔ parseV4Address front = .ok ep.address ∧ IsNumber 65535 back ∧
      ep.port = UInt16.ofNat (digitsValue back) := by
  unfold parseV4Endpoint
  rw [hsplit]
  dsimp only
  cases haddr : parseV4Address front with
  | error err => exact ⟨nofun, nofun⟩
  | ok addr =>
    cases hport : parse (fromCharsUnsigned (2 ^ 16) UInt16.ofNat) back with
    | none =>
      refine ⟨nofun, fun h => ?_⟩
      have hsome := parse_port_eq_some.mpr ⟨h.2.1, rfl⟩
      rw [hport] at hsome
      cases hsome
    | some port =>
      obtain ⟨hnumber, rfl⟩ := parse_port_eq_some.mp hport
      constructor
      · intro h
        obtain rfl := Except.ok.inj h
        exact ⟨rfl, hnumber, rfl⟩
      · rintro ⟨hep, -, hport'⟩
        obtain rfl := Except.ok.inj hep
        rw [← hport']

/-- **The endpoints are an address and a port with a colon between them.** -/
theorem parseV4Endpoint_eq_ok {str : Bytes} {ep : Endpoint} :
    parseV4Endpoint str = .ok ep ↔ ∃ front back : Bytes, str = front ++ colon :: back ∧
      parseV4Address front = .ok ep.address ∧ IsNumber 65535 back ∧
      ep.port = UInt16.ofNat (digitsValue back) := by
  constructor
  · intro h
    obtain ⟨front, back, hsplit⟩ := exists_split_of_ok h
    exact ⟨front, back, (split_eq_pair.mp hsplit).1, (parseV4Endpoint_of_split hsplit).mp h⟩
  · rintro ⟨front, back, rfl, haddr, hnumber, hport⟩
    obtain ⟨octets, _, rfl, hall, _⟩ := parseV4Address_eq_ok.mp haddr
    have hfront : colon ∉ [dot].intercalate octets := notMem_intercalate rfl (by decide) hall
    have hback : colon ∉ back := hnumber.notMem rfl
    have hsplit := split_eq_pair.mpr ⟨rfl, hfront, hback⟩
    exact (parseV4Endpoint_of_split hsplit).mpr ⟨haddr, hnumber, hport⟩

/-! ### Printing -/

theorem literal_of_notMem {arg : Bytes} (h : dollar ∉ arg) : literal arg = true := by
  induction arg with
  | nil => rfl
  | cons c arg ih =>
    obtain ⟨hc, harg⟩ := List.ne_and_not_mem_of_not_mem_cons h
    rw [literal_cons (Ne.symm hc), ih harg]

/-- A placeholder behind a text without braces gives way to an argument without a `$`. -/
theorem formatHelper_append {i : ℕ} {u v : Bytes} {arg : Arg} (hu : leftBrace ∉ u)
    (hv : ¬ placeholder i <:+: v) (harg : dollar ∉ arg.str) :
    formatHelper i (u ++ (placeholder i ++ v)) arg = u ++ (arg.str ++ v) := by
  have hinside : ¬ placeholder i <:+: u := fun h => hu (h.subset List.mem_cons_self)
  have hparts : Parts (placeholder i) ((placeholder i).intercalate [u, v]) [u, v] :=
    parts_intercalate (headOnly_placeholder i) (List.cons_ne_nil _ _) (by simp [hinside, hv])
  rw [List.intercalate_cons_cons, List.intercalate_singleton, List.append_assoc] at hparts
  unfold formatHelper
  rw [regexReplace_of_parts (headOnly_placeholder i).ne_nil hparts,
    replaceParts_eq (literal_of_notMem harg) _ (List.cons_ne_nil _ _), List.intercalate_cons_cons,
    List.intercalate_singleton, List.append_assoc]

theorem str_integral (n : ℕ) : (Arg.integral n).str = decimalDigits n := by
  change decimal n = _
  unfold decimal
  rw [if_neg (by omega), Int.natAbs_natCast]

theorem dollar_notMem_integral (n : ℕ) : dollar ∉ (Arg.integral n).str := by
  rw [str_integral]
  exact notMem_decimalDigits rfl n

theorem isNumber_decimalDigits {bound n : ℕ} (h : n ≤ bound) : IsNumber bound (decimalDigits n) where
  ne_nil := decimalDigits_ne_nil n
  digits := isDigit_of_mem n
  le := by rw [digitsValue_decimalDigits]; exact h

theorem octet_decimalDigits (byte : UInt8) : octet (decimalDigits byte.toNat) = byte := by
  unfold octet
  rw [digitsValue_decimalDigits, UInt8.ofNat_toNat]

/-- The octets of an address in decimal. -/
def octetTexts (addr : UInt32) : List Bytes :=
  (addressBytes addr).map fun byte => decimalDigits byte.toNat

theorem isNumber_octetTexts (addr : UInt32) : ∀ d ∈ octetTexts addr, IsNumber 255 d := by
  intro d hd
  obtain ⟨byte, _, rfl⟩ := List.mem_map.mp hd
  exact isNumber_decimalDigits (Nat.le_of_lt_succ byte.toNat_lt)

theorem leftBrace_notMem_append {u : Bytes} (h : leftBrace ∉ u) (byte : UInt8) :
    leftBrace ∉ u ++ ((Arg.integral byte.toNat).str ++ [dot]) := by
  rw [str_integral, List.mem_append, List.mem_append, not_or, not_or]
  exact ⟨h, notMem_decimalDigits rfl _, by decide⟩

/-- **The text of an address**: its octets with dots between them. -/
theorem addressToString_eq (addr : UInt32) :
    addressToString addr = [dot].intercalate (octetTexts addr) := by
  obtain ⟨a, b, c, d, hbytes⟩ : ∃ a b c d, addressBytes addr = [a, b, c, d] := ⟨_, _, _, _, rfl⟩
  have hform : addressForm = [] ++ (placeholder 0 ++ ([dot] ++ (placeholder 1 ++ ([dot] ++
      (placeholder 2 ++ ([dot] ++ (placeholder 3 ++ []))))))) := by decide
  have hunpack : addressToString addr =
      formatHelper 3 (formatHelper 2 (formatHelper 1 (formatHelper 0 addressForm (.integral a.toNat))
        (.integral b.toNat)) (.integral c.toNat)) (.integral d.toNat) := by
    unfold addressToString
    rw [hbytes]
    rfl
  -- one octet after the other is put in, behind the text that has no placeholder any more
  have h0 := leftBrace_notMem_append List.not_mem_nil a
  have h1 := leftBrace_notMem_append h0 b
  have h2 := leftBrace_notMem_append h1 c
  rw [hunpack, hform, formatHelper_append List.not_mem_nil (by decide) (dollar_notMem_integral _)]
  rw [← List.append_assoc _ [dot], ← List.append_assoc [],
    formatHelper_append h0 (by decide) (dollar_notMem_integral _)]
  rw [← List.append_assoc _ [dot], ← List.append_assoc (_ ++ _),
    formatHelper_append h1 (by decide) (dollar_notMem_integral _)]
  rw [← List.append_assoc _ [dot], ← List.append_assoc (_ ++ _),
    formatHelper_append h2 (by decide) (dollar_notMem_integral _)]
  unfold octetTexts
  rw [hbytes]
  simp only [str_integral, List.map_cons, List.map_nil, List.intercalate_cons_cons,
    List.intercalate_singleton, List.append_assoc, List.nil_append, List.append_nil]

theorem notMem_addressToString {c : UInt8} (hdigit : isDigit c = false) (hdot : c ≠ dot)
    (addr : UInt32) :
    c ∉ addressToString addr := by
  rw [addressToString_eq]
  exact notMem_intercalate hdigit hdot (isNumber_octetTexts addr)

/-- **The text of an endpoint**: its address and its port with a colon between them. -/
theorem endpointToString_eq (ep : Endpoint) :
    endpointToString ep = addressToString ep.address ++ colon :: decimalDigits ep.port.toNat := by
  have hform : endpointForm = [] ++ (placeholder 0 ++ ([colon] ++ (placeholder 1 ++ []))) := by decide
  have hdollar : dollar ∉ (Arg.text (addressToString ep.address)).str :=
    notMem_addressToString rfl (by decide) _
  have hbrace : leftBrace ∉ [] ++ ((Arg.text (addressToString ep.address)).str ++ [colon]) := by
    rw [List.nil_append, List.mem_append, not_or]
    exact ⟨notMem_addressToString rfl (by decide) _, by decide⟩
  have hunpack : endpointToString ep = formatHelper 1
      (formatHelper 0 endpointForm (.text (addressToString ep.address))) (.integral ep.port.toNat) := rfl
  rw [hunpack, hform, formatHelper_append List.not_mem_nil (by decide) hdollar]
  rw [← List.append_assoc _ [colon], ← List.append_assoc [],
    formatHelper_append hbrace (by decide) (dollar_notMem_integral _), str_integral]
  simp only [List.nil_append, List.append_nil, List.append_assoc]
  rfl

/-! ### Both ways -/

theorem parseV4Address_addressToString (addr : UInt32) :
    parseV4Address (addressToString addr) = .ok addr := by
  have hoctets : (octetTexts addr).map octet = addressBytes addr := by
    unfold octetTexts
    rw [List.map_map]
    exact List.map_id'' octet_decimalDigits _
  have hlen : (octetTexts addr).length = 4 := List.length_map _
  exact parseV4Address_eq_ok.mpr
    ⟨octetTexts addr, hlen, addressToString_eq addr, isNumber_octetTexts addr, hoctets.symm⟩

theorem intercalate_four (d1 d2 d3 d4 : Bytes) :
    [dot].intercalate [d1, d2, d3, d4] = d1 ++ dot :: (d2 ++ dot :: (d3 ++ dot :: d4)) := by
  simp only [List.intercalate_cons_cons, List.intercalate_singleton, List.append_assoc, List.cons_append,
    List.nil_append]

/-- **`parse_v4_endpoint` accepts exactly the texts `d1.d2.d3.d4:p`**, with octets of at most `255`
and a port of at most `65535`, as the endpoint of these octets and this port; and it reads the text
of an endpoint as that endpoint. -/
theorem parse_v4_endpoint_exact :
    (∀ str ep, parseV4Endpoint str = .ok ep ↔ ∃ d1 d2 d3 d4 p : Bytes,
      str = d1 ++ dot :: (d2 ++ dot :: (d3 ++ dot :: (d4 ++ colon :: p))) ∧
        IsNumber 255 d1 ∧ IsNumber 255 d2 ∧ IsNumber 255 d3 ∧ IsNumber 255 d4 ∧ IsNumber 65535 p ∧
        addressBytes ep.address = [octet d1, octet d2, octet d3, octet d4] ∧
        ep.port.toNat = digitsValue p) ∧
      ∀ ep, parseV4Endpoint (endpointToString ep) = .ok ep := by
  refine ⟨fun str ep => ?_, fun ep => ?_⟩
  · rw [parseV4Endpoint_eq_ok]
    constructor
    · rintro ⟨front, back, rfl, haddr, hback, hport⟩
      obtain ⟨octets, hlen, rfl, hall, hbytes⟩ := parseV4Address_eq_ok.mp haddr
      obtain ⟨d1, d2, d3, d4, rfl⟩ := List.length_eq_four.mp hlen
      obtain ⟨h1, h2, h3, h4⟩ :
          IsNumber 255 d1 ∧ IsNumber 255 d2 ∧ IsNumber 255 d3 ∧ IsNumber 255 d4 := by
        simpa using hall
      refine ⟨d1, d2, d3, d4, back, ?_, h1, h2, h3, h4, hback, hbytes, ?_⟩
      · rw [intercalate_four]
        simp only [List.append_assoc, List.cons_append]
      · rw [hport, UInt16.toNat_ofNat_of_lt' (Nat.lt_succ_of_le hback.le)]
    · rintro ⟨d1, d2, d3, d4, p, rfl, h1, h2, h3, h4, hp, hbytes, hport⟩
      refine ⟨[dot].intercalate [d1, d2, d3, d4], p, ?_, ?_, hp, ?_⟩
      · rw [intercalate_four]
        simp only [List.append_assoc, List.cons_append]
      · exact parseV4Address_eq_ok.mpr ⟨[d1, d2, d3, d4], rfl, rfl, by simp [h1, h2, h3, h4], hbytes⟩
      · rw [← hport, UInt16.ofNat_toNat]
  · rw [parseV4Endpoint_eq_ok]
    exact ⟨_, _, endpointToString_eq ep, parseV4Address_addressToString _,
      isNumber_decimalDigits (Nat.le_of_lt_succ ep.port.toNat_lt),
      by rw [digitsValue_decimalDigits, UInt16.ofNat_toNat]⟩

end NetworkDriver.Net.Ip.Text
