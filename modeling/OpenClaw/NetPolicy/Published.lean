import OpenClaw.NetPolicy.Embedding

/-!
A library that meets the assumptions on `ipaddr.js`: the published range table, four-part
decimal parsing, and a table of the IPv6 literals that are looked at.
-/

namespace OpenClaw.NetPolicy

section Octets

def octetOf (part : Text) : Option Octet :=
  if isDecimalNumeral part && decide (Nat.ofDigitChars 10 part 0 < 256) then
    some (BitVec.ofNat 8 (Nat.ofDigitChars 10 part 0))
  else none

def fourOf (s : Text) : Option IPv4 :=
  match (s.splitOn '.').map octetOf with
  | [some a, some b, some c, some d] => some ⟨a, b, c, d⟩
  | _ => none

theorem decimal_numeral (octet : Octet) : isDecimalNumeral (decimal octet) = true := by
  have all : ((List.range 256).all fun n => isDecimalNumeral (Nat.toDigits 10 n)) = true := by
    decide +kernel
  exact List.all_eq_true.mp all octet.toNat (List.mem_range.mpr octet.isLt)

theorem octetOf_decimal (octet : Octet) : octetOf (decimal octet) = some octet := by
  have value : Nat.ofDigitChars 10 (decimal octet) 0 = octet.toNat := Nat.ofDigitChars_ten_toDigits
  rw [octetOf, value, decimal_numeral, if_pos (by simpa using octet.isLt)]
  simp

theorem dot_not_mem_decimal (octet : Octet) : '.' ∉ decimal octet := fun mem =>
  absurd (decimal_digits octet '.' mem) (by decide)

theorem splitOn_dotted (a : IPv4) : a.dotted.splitOn '.' = a.octetList.map decimal := by
  refine List.splitOn_intercalate '.' ?_ (by simp [IPv4.octetList])
  intro part listed
  obtain ⟨octet, -, rfl⟩ := List.mem_map.mp listed
  exact dot_not_mem_decimal octet

theorem fourOf_dotted (a : IPv4) : fourOf a.dotted = some a := by
  simp [fourOf, splitOn_dotted, IPv4.octetList, octetOf_decimal]

theorem fourOf_parts {s : Text} (parsed : (fourOf s).isSome = true) :
    (s.splitOn '.').length = 4 ∧ ∀ part ∈ s.splitOn '.', isDecimalNumeral part = true := by
  have numeral : ∀ part octet, octetOf part = some octet → isDecimalNumeral part = true := by
    intro part octet found
    simp only [octetOf] at found
    split at found
    case isTrue valid => exact (Bool.and_eq_true_iff.mp valid).1
    case isFalse => cases found
  simp only [fourOf] at parsed
  split at parsed
  case h_2 => cases parsed
  case h_1 a b c d parts =>
    have length := congrArg List.length parts
    rw [List.length_map] at length
    refine ⟨length, fun part listed => ?_⟩
    have octet : octetOf part ∈ (s.splitOn '.').map octetOf := List.mem_map_of_mem listed
    rw [parts] at octet
    simp only [List.mem_cons, List.not_mem_nil, or_false] at octet
    rcases octet with found | found | found | found <;> exact numeral part _ found

end Octets

section Ranges

def publishedRange4 (a : IPv4) : Ipv4Range :=
  let (p, q, r, s) := a.octets
  if p = 0 then .unspecified
  else if p = 255 ∧ q = 255 ∧ r = 255 ∧ s = 255 then .broadcast
  else if p &&& 0xf0 = 0xe0 then .multicast
  else if p = 169 ∧ q = 254 then .linkLocal
  else if p = 127 then .loopback
  else if p = 100 ∧ q &&& 0xc0 = 64 then .carrierGradeNat
  else if p = 10 ∨ (p = 172 ∧ q &&& 0xf0 = 16) ∨ (p = 192 ∧ q = 168) then .private
  else if p &&& 0xf0 = 0xf0 ∨ (p = 192 ∧ q = 0 ∧ (r = 0 ∨ r = 2)) ∨ (p = 192 ∧ q = 88 ∧ r = 99) ∨
    (p = 198 ∧ (q = 18 ∨ q = 19)) ∨ (p = 198 ∧ q = 51 ∧ r = 100) ∨
    (p = 203 ∧ q = 0 ∧ r = 113) then .reserved
  else .unicast

def nativeRange6 (x : IPv6) : Ipv6Range :=
  if x.isCompatiblePrefix ∧ x.p6 = 0 ∧ x.p7 = 0 then .unspecified
  else if x.isCompatiblePrefix ∧ x.p6 = 0 ∧ x.p7 = 1 then .loopback
  else if x.p0 &&& 0xffc0 = 0xfe80 then .linkLocal
  else if x.p0 &&& 0xff00 = 0xff00 then .multicast
  else if x.p0 = 0x100 ∧ x.p1 = 0 ∧ x.p2 = 0 ∧ x.p3 = 0 then .discard
  else if x.p0 = 0x2001 ∧ x.p1 = 2 ∧ x.p2 = 0 then .benchmarking
  else if x.p0 = 0x2001 ∧ x.p1 &&& 0xfff0 = 0x20 then .orchid2
  else if x.p0 = 0x2001 ∧ (x.p1 &&& 0xfe00 = 0 ∨ x.p1 = 0xdb8) then .reserved
  else .unicast

/-- The transition prefixes first, which no other range overlaps but the reserved `2001::/23`. -/
def publishedRange6 (x : IPv6) : Ipv6Range :=
  if x.isMappedPrefix then .ipv4Mapped
  else if x.isTranslatedPrefix then .rfc6145
  else if x.isNat64Prefix ∨ x.isLocalNat64Prefix then .rfc6052
  else if x.isSixToFourPrefix then .sixToFour
  else if x.isTeredoPrefix then .teredo
  else if x.isUniqueLocalPrefix then .uniqueLocal
  else nativeRange6 x

/-- The prefix that a range name stands for. -/
def rangePrefix : Ipv6Range → IPv6 → Prop
  | .ipv4Mapped, x => x.isMappedPrefix
  | .rfc6145, x => x.isTranslatedPrefix
  | .rfc6052, x => x.isNat64Prefix ∨ x.isLocalNat64Prefix
  | .sixToFour, x => x.isSixToFourPrefix
  | .teredo, x => x.isTeredoPrefix
  | .uniqueLocal, x => x.isUniqueLocalPrefix
  | _, _ => True

end Ranges

section Texts

def METADATA_IPV6 : IPv6 := ⟨0xfd00, 0x0ec2, 0, 0, 0, 0, 0, 0x254, none⟩

def hextetText (h : Hextet) : Text := Nat.toDigits 16 h.toNat

def expanded (x : IPv6) : Text :=
  hextetText x.p0 ++ ':' :: (hextetText x.p1 ++ ':' :: (hextetText x.p2 ++ ':' ::
    (hextetText x.p3 ++ ':' :: (hextetText x.p4 ++ ':' :: (hextetText x.p5 ++ ':' ::
      (hextetText x.p6 ++ ':' :: (hextetText x.p7 ++ x.zoneId.getD [])))))))

def publishedToString : ParsedIpAddress → Text
  | .ipv4 a => a.dotted
  | .ipv6 x => if x = METADATA_IPV6 then "fd00:ec2::254".toList else expanded x

theorem expanded_colons (x : IPv6) : 7 ≤ (expanded x).count ':' := by
  simp only [expanded, List.count_append, List.count_cons_self]
  omega

def literals : List (Text × IPv6) :=
  [("2002:808:808::5efe:7f00:1".toList, ⟨0x2002, 0x808, 0x808, 0, 0, 0x5efe, 0x7f00, 1, none⟩)]

end Texts

def ipv6Literal (s : Text) : Option IPv6 := (literals.find? fun entry => entry.1 == s).map Prod.snd

theorem ipv6Literal_colon {s : Text} (found : (ipv6Literal s).isSome = true) : ':' ∈ s := by
  have all : ∀ entry ∈ literals, ':' ∈ entry.1 := by decide
  simp only [ipv6Literal, List.find?_isSome, Option.isSome_map] at found
  obtain ⟨entry, listed, same⟩ := found
  exact beq_iff_eq.mp same ▸ all entry listed

theorem fourOf_no_colon {s : Text} (parsed : (fourOf s).isSome = true) : ':' ∉ s := by
  intro mem
  have joined : joinDots (s.splitOn '.') = s := List.intercalate_splitOn '.'
  rw [← joined] at mem
  rcases mem_joinDots mem with dot | ⟨part, listed, inside⟩
  · exact absurd dot (by decide)
  · have numeral := (fourOf_parts parsed).2 part listed
    simp only [isDecimalNumeral, Bool.and_eq_true, List.all_eq_true] at numeral
    exact absurd (numeral.1.1 ':' inside) (by decide)

theorem no_literal {s : Text} (parsed : (fourOf s).isSome = true) : ipv6Literal s = none := by
  rw [← Option.not_isSome_iff_eq_none]
  exact fun found => fourOf_no_colon parsed (ipv6Literal_colon found)

section Disjoint

variable {x : IPv6}

theorem not_zero_of_transition (first : x.p0 = 0x64 ∨ x.p0 = 0x2002 ∨ x.p0 = 0x2001) :
    ¬ x.isMappedPrefix ∧ ¬ x.isTranslatedPrefix := by
  have nonzero : x.p0 ≠ 0 := by
    rcases first with first | first | first <;> rw [first] <;> decide
  exact ⟨fun inside => nonzero inside.1, fun inside => nonzero inside.1⟩

theorem not_nat64 (first : x.p0 = 0x2002 ∨ x.p0 = 0x2001) :
    ¬ (x.isNat64Prefix ∨ x.isLocalNat64Prefix) := by
  have other : x.p0 ≠ 0x64 := by
    rcases first with first | first <;> rw [first] <;> decide
  rintro (inside | inside) <;> exact other inside.1

theorem publishedRange6_translated (inside : x.isTranslatedPrefix) :
    publishedRange6 x = .rfc6145 := by
  have mapped : ¬ x.isMappedPrefix := fun other =>
    absurd (inside.2.2.2.2.2.symm.trans other.2.2.2.2.2) (by decide)
  rw [publishedRange6, if_neg mapped, if_pos inside]

theorem publishedRange6_nat64 (inside : x.isNat64Prefix) : publishedRange6 x = .rfc6052 := by
  have zero := not_zero_of_transition (.inl inside.1)
  rw [publishedRange6, if_neg zero.1, if_neg zero.2, if_pos (.inl inside)]

theorem publishedRange6_localNat64 (inside : x.isLocalNat64Prefix) :
    publishedRange6 x = .rfc6052 := by
  have zero := not_zero_of_transition (.inl inside.1)
  rw [publishedRange6, if_neg zero.1, if_neg zero.2, if_pos (.inr inside)]

theorem publishedRange6_sixToFour (inside : x.isSixToFourPrefix) :
    publishedRange6 x = .sixToFour := by
  have zero := not_zero_of_transition (.inr (.inl inside))
  rw [publishedRange6, if_neg zero.1, if_neg zero.2, if_neg (not_nat64 (.inl inside)),
    if_pos inside]

theorem publishedRange6_teredo (inside : x.isTeredoPrefix) : publishedRange6 x = .teredo := by
  have zero := not_zero_of_transition (.inr (.inr inside.1))
  have six : ¬ x.isSixToFourPrefix := fun other => absurd (inside.1.symm.trans other) (by decide)
  rw [publishedRange6, if_neg zero.1, if_neg zero.2, if_neg (not_nat64 (.inr inside.1)),
    if_neg six, if_pos inside]

theorem nativeRange6_prefix (x : IPv6) : rangePrefix (nativeRange6 x) x := by
  unfold nativeRange6
  repeat' split
  all_goals exact trivial

theorem publishedRange6_prefix (x : IPv6) : rangePrefix (publishedRange6 x) x := by
  unfold publishedRange6
  split
  case isTrue inside => exact inside
  case isFalse =>
    split
    case isTrue inside => exact inside
    case isFalse =>
      split
      case isTrue inside => exact inside
      case isFalse =>
        split
        case isTrue inside => exact inside
        case isFalse =>
          split
          case isTrue inside => exact inside
          case isFalse =>
            split
            case isTrue inside => exact inside
            case isFalse => exact nativeRange6_prefix x

theorem prefix_of_range {range : Ipv6Range} (same : publishedRange6 x = range) :
    rangePrefix range x := same ▸ publishedRange6_prefix x

end Disjoint

def published : IpaddrJs where
  isValidFourPartDecimal s := (fourOf s).isSome
  isValidIPv6 s := (ipv6Literal s).isSome
  isValid s := (fourOf s).isSome || (ipv6Literal s).isSome
  parse s := match ipv6Literal s with
    | some x => .ipv6 x
    | none => .ipv4 ((fourOf s).getD ⟨0, 0, 0, 0⟩)
  parseIPv4 s := (fourOf s).getD ⟨0, 0, 0, 0⟩
  range4 := publishedRange4
  range6 := publishedRange6
  isIPv4MappedAddress x := decide x.isMappedPrefix
  toIPv4Address := IPv6.low
  toString := publishedToString
  fourParts _ := fourOf_parts
  parse_dotted a := by
    have parsed : (fourOf a.dotted).isSome = true := by rw [fourOf_dotted]; rfl
    refine ⟨parsed, ?_, ?_⟩
    · rw [no_literal parsed, fourOf_dotted]
      rfl
    · rw [fourOf_dotted]
      rfl
  parse_four s parsed := ⟨_, by rw [no_literal parsed]⟩
  parse_six s found := by
    obtain ⟨x, same⟩ := Option.isSome_iff_exists.mp found
    exact ⟨ipv6Literal_colon found, x, by rw [same]⟩
  isValid_canonical s valid := Bool.or_eq_true_iff.mpr valid
  isValid_colon s colon := by
    have unparsed : (fourOf s).isSome = false := by
      rw [Bool.eq_false_iff]
      exact fun parsed => fourOf_no_colon parsed colon
    rw [unparsed, Bool.false_or]
  range_mapped x := ⟨fun same => prefix_of_range same, fun inside => if_pos inside⟩
  range_translated x := ⟨fun same => prefix_of_range same, publishedRange6_translated⟩
  range_sixToFour x := ⟨fun same => prefix_of_range same, publishedRange6_sixToFour⟩
  range_teredo x := ⟨fun same => prefix_of_range same, publishedRange6_teredo⟩
  range_nat64 x inside := publishedRange6_nat64 inside
  range_localNat64 x inside := .inl (publishedRange6_localNat64 inside)
  nat64_range x same := prefix_of_range same
  range_uniqueLocal x same := prefix_of_range same
  isIPv4Mapped x := decide_eq_true_iff
  toIPv4Address_mapped _ _ := rfl
  toString_four _ := rfl
  toString_six x := by
    by_cases metadata : x = METADATA_IPV6
    · have text : publishedToString (.ipv6 x) = "fd00:ec2::254".toList := if_pos metadata
      rw [text]
      exact ⟨by decide, fun _ => metadata, fun _ => rfl⟩
    · have text : publishedToString (.ipv6 x) = expanded x := if_neg metadata
      rw [text]
      have colons := expanded_colons x
      refine ⟨List.count_pos_iff.mp (by omega), fun same => ?_, fun same => absurd same metadata⟩
      rw [same] at colons
      exact absurd colons (by decide)

/-- Lower case of the ASCII letters. -/
def asciiLower : LowerCase := ⟨fun s => s.map Char.toLower, fun _ _ => rfl⟩

def hiddenLoopback : Text := "2002:808:808::5efe:7f00:1".toList

def hiddenLoopbackAddress : IPv6 := ⟨0x2002, 0x808, 0x808, 0, 0, 0x5efe, 0x7f00, 1, none⟩

/-- The loopback address that an ISATAP identifier carries under the 6to4 prefix of a public
one. -/
theorem hiddenLoopback_carries : Carries hiddenLoopbackAddress ⟨127, 0, 0, 1⟩ :=
  Carries.isatap (x := hiddenLoopbackAddress) (by decide)

end OpenClaw.NetPolicy
