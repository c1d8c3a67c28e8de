import OpenClaw.NetPolicy.Address

/-!
Numeric literals as the guard reads them: the canonical dotted form is kept by every
normalization and parsed as its address, every other sequence of numbers is refused.
-/

namespace OpenClaw.NetPolicy

variable {J : LowerCase} {L : IpaddrJs} {policy : SsrFPolicy} {s n : Text}

section Characters

def DIGIT_CHARS : List Char := ['0', '1', '2', '3', '4', '5', '6', '7', '8', '9']

/-- The characters of numeric literals. -/
def NUMERIC_CHARS : List Char :=
  '.' :: DIGIT_CHARS ++ ['a', 'b', 'c', 'd', 'e', 'f', 'A', 'B', 'C', 'D', 'E', 'F', 'x', 'X']

/-- To decide a property of each character listed. -/
theorem of_all {chars : List Char} {P : Char → Prop} [DecidablePred P]
    (all : (chars.all fun c => decide (P c)) = true) : ∀ c ∈ chars, P c := fun c mem =>
  of_decide_eq_true (List.all_eq_true.mp all c mem)

theorem mem_of_toNat {c : Char} {first count : Nat} (low : first ≤ c.toNat)
    (high : c.toNat < first + count) :
    c ∈ (List.range' first count).map Char.ofNat :=
  List.mem_map.mpr ⟨c.toNat, List.mem_range'_1.mpr ⟨low, high⟩, Char.ofNat_toNat c⟩

theorem digit_numeric {c : Char} (digit : c.isDigit = true) : c ∈ DIGIT_CHARS := by
  simp only [Char.isDigit, Bool.and_eq_true, decide_eq_true_eq, ge_iff_le] at digit
  have mem : c ∈ (List.range' 48 10).map Char.ofNat :=
    mem_of_toNat (UInt32.le_iff_toNat_le.mp digit.1)
      (Nat.lt_succ_of_le (UInt32.le_iff_toNat_le.mp digit.2))
  revert mem
  have all : ∀ c ∈ (List.range' 48 10).map Char.ofNat, c ∈ DIGIT_CHARS := of_all (by decide)
  exact all c

theorem hex_numeric {c : Char}
    (hex : (c.isDigit || ('a' ≤ c && c ≤ 'f') || ('A' ≤ c && c ≤ 'F')) = true) :
    c ∈ NUMERIC_CHARS := by
  simp only [Bool.or_eq_true, Bool.and_eq_true, decide_eq_true_eq] at hex
  rcases hex with (digit | lower) | upper
  · have all : ∀ c ∈ DIGIT_CHARS, c ∈ NUMERIC_CHARS := of_all (by decide)
    exact all c (digit_numeric digit)
  · have mem : c ∈ (List.range' 97 6).map Char.ofNat :=
      mem_of_toNat (UInt32.le_iff_toNat_le.mp lower.1)
        (Nat.lt_succ_of_le (UInt32.le_iff_toNat_le.mp lower.2))
    have all : ∀ c ∈ (List.range' 97 6).map Char.ofNat, c ∈ NUMERIC_CHARS := of_all (by decide)
    exact all c mem
  · have mem : c ∈ (List.range' 65 6).map Char.ofNat :=
      mem_of_toNat (UInt32.le_iff_toNat_le.mp upper.1)
        (Nat.lt_succ_of_le (UInt32.le_iff_toNat_le.mp upper.2))
    have all : ∀ c ∈ (List.range' 65 6).map Char.ofNat, c ∈ NUMERIC_CHARS := of_all (by decide)
    exact all c mem

theorem mem_joinDots {c : Char} {parts : List Text} (mem : c ∈ joinDots parts) :
    c = '.' ∨ ∃ part ∈ parts, c ∈ part := by
  induction parts with
  | nil => exact absurd mem (by simp [joinDots, List.intercalate])
  | cons part rest ih =>
      cases rest with
      | nil => exact .inr ⟨part, by simp, by simpa [joinDots, List.intercalate] using mem⟩
      | cons next rest =>
          have split : c ∈ part ∨ c = '.' ∨ c ∈ joinDots (next :: rest) := by
            simpa [joinDots, List.intercalate] using mem
          rcases split with here | dot | later
          · exact .inr ⟨part, by simp, here⟩
          · exact .inl dot
          · rcases ih later with dot | ⟨other, listed, inside⟩
            · exact .inl dot
            · exact .inr ⟨other, List.mem_cons_of_mem _ listed, inside⟩

theorem dropWhile_eq_self {f : Char → Bool} (none : ∀ c ∈ n, f c = false) :
    n.dropWhile f = n := by
  cases n with
  | nil => rfl
  | cons c rest => rw [List.dropWhile_cons_of_neg (by simp [none c (by simp)])]

theorem trim_numeric (numeric : ∀ c ∈ n, c ∈ NUMERIC_CHARS) : JsText.trimChars n = n := by
  have all : ∀ c ∈ NUMERIC_CHARS, JsText.isWhitespace c = false := of_all (by decide)
  have front : n.dropWhile JsText.isWhitespace = n :=
    dropWhile_eq_self fun c mem => all c (numeric c mem)
  have back : n.reverse.dropWhile JsText.isWhitespace = n.reverse :=
    dropWhile_eq_self fun c mem => all c (numeric c (List.mem_reverse.mp mem))
  rw [JsText.trimChars, front, back, List.reverse_reverse]

theorem strip_numeric (numeric : ∀ c ∈ n, c ∈ NUMERIC_CHARS) : stripIpv6Brackets n = n := by
  refine if_neg fun both => ?_
  have bracket := numeric '[' (List.mem_of_head? both.1)
  exact absurd bracket (by decide)

theorem parseInput_numeric (numeric : ∀ c ∈ n, c ∈ NUMERIC_CHARS) (filled : n ≠ []) :
    normalizeIpParseInput n = some n := by
  rw [normalizeIpParseInput, trim_numeric numeric, strip_numeric numeric]
  exact if_neg (by simpa using filled)

end Characters

section Dotted

theorem decimal_digits (octet : Octet) : ∀ c ∈ decimal octet, c ∈ DIGIT_CHARS :=
  fun _ mem => digit_numeric (Nat.isDigit_of_mem_toDigits (by decide) (by decide) mem)

theorem dotted_chars (a : IPv4) : ∀ c ∈ a.dotted, c ∈ '.' :: DIGIT_CHARS := by
  intro c mem
  rcases mem_joinDots mem with rfl | ⟨part, listed, inside⟩
  · decide
  · obtain ⟨octet, -, rfl⟩ := List.mem_map.mp listed
    have all : ∀ c ∈ DIGIT_CHARS, c ∈ '.' :: DIGIT_CHARS := of_all (by decide)
    exact all c (decimal_digits octet c inside)

theorem dotted_numeric (a : IPv4) : ∀ c ∈ a.dotted, c ∈ NUMERIC_CHARS := by
  have all : ∀ c ∈ '.' :: DIGIT_CHARS, c ∈ NUMERIC_CHARS := of_all (by decide)
  exact fun c mem => all c (dotted_chars a c mem)

/-- The last octet ends the dotted form. -/
theorem dotted_last (a : IPv4) : ∃ front last, a.dotted = front ++ [last] ∧ last ≠ '.' := by
  have filled : decimal a.octets.2.2.2 ≠ [] := Nat.toDigits_ne_nil
  have ends := List.dropLast_append_getLast filled
  refine ⟨decimal a.octets.1 ++ '.' :: (decimal a.octets.2.1 ++ '.' :: (decimal a.octets.2.2.1 ++
    '.' :: (decimal a.octets.2.2.2).dropLast)), (decimal a.octets.2.2.2).getLast filled, ?_, ?_⟩
  · simp only [IPv4.dotted, IPv4.octetList, joinDots, List.map_cons, List.map_nil]
    simp [List.intercalate, ends]
  · have all : ∀ c ∈ DIGIT_CHARS, c ≠ '.' := of_all (by decide)
    exact all _ (decimal_digits _ _ (List.getLast_mem filled))

theorem dotted_ne_nil (a : IPv4) : a.dotted ≠ [] := by
  obtain ⟨front, last, same, -⟩ := dotted_last a
  simp [same]

theorem normalizeHostname_dotted (J : LowerCase) (a : IPv4) :
    normalizeHostname J a.dotted = a.dotted := by
  have ascii : ∀ c ∈ a.dotted, c.toNat < 128 := by
    have all : ∀ c ∈ '.' :: DIGIT_CHARS, c.toNat < 128 := of_all (by decide)
    exact fun c mem => all c (dotted_chars a c mem)
  have lower : a.dotted.map Char.toLower = a.dotted := by
    have all : ∀ c ∈ '.' :: DIGIT_CHARS, c.toLower = c := of_all (by decide)
    exact (List.map_congr_left fun c mem => all c (dotted_chars a c mem)).trans (List.map_id' _)
  have dots : stripTrailingDots a.dotted = a.dotted := by
    obtain ⟨front, last, same, notDot⟩ := dotted_last a
    rw [stripTrailingDots, same, List.rdropWhile_concat_neg _ _ _ (by simpa using notDot)]
  rw [normalizeHostname, normalizeLowercaseStringOrEmpty, trim_numeric (dotted_numeric a),
    J.ascii _ ascii, lower, dots, strip_numeric (dotted_numeric a)]

theorem parse_dotted (L : IpaddrJs) (a : IPv4) :
    parseCanonicalIpAddress L a.dotted = some (.ipv4 a) := by
  rw [parseCanonicalIpAddress, parseInput_numeric (dotted_numeric a) (dotted_ne_nil a)]
  simp [dotted_ne_nil, (L.parse_dotted a).1, (L.parse_dotted a).2.1]

theorem isPrivate_dotted (J : LowerCase) (L : IpaddrJs) (a : IPv4) (policy : SsrFPolicy) :
    isPrivateIpAddress J L a.dotted policy =
      isBlockedSpecialUseIpv4Address L a (resolveIpv4SpecialUseBlockOptions policy) := by
  simp [isPrivateIpAddress, normalizeHostname_dotted, dotted_ne_nil, parse_dotted, isPrivateParsed]

end Dotted

section Legacy

theorem numeric_part {part : Text} (numeric : isNumericIpv4LiteralPart part = true) :
    part ≠ [] ∧ ∀ c ∈ part, c ∈ NUMERIC_CHARS := by
  simp only [isNumericIpv4LiteralPart, Bool.or_eq_true, Bool.and_eq_true, List.all_eq_true] at numeric
  rcases numeric with ⟨filled, digits⟩ | hex
  · refine ⟨by simpa using filled, fun c mem => ?_⟩
    have all : ∀ c ∈ DIGIT_CHARS, c ∈ NUMERIC_CHARS := of_all (by decide)
    exact all c (digit_numeric (digits c mem))
  · split at hex
    case h_1 x digits =>
      simp only [Bool.and_eq_true, List.all_eq_true, Bool.or_eq_true (x == 'x'), beq_iff_eq] at hex
      refine ⟨List.cons_ne_nil _ _, fun c mem => ?_⟩
      rcases List.mem_cons.mp mem with rfl | mem
      · decide
      · rcases List.mem_cons.mp mem with rfl | mem
        · rcases hex.1.1 with rfl | rfl <;> decide
        · exact hex_numeric (hex.2 c mem)
    case h_2 => cases hex

variable (numeric : ∀ part ∈ n.splitOn '.', isNumericIpv4LiteralPart part = true)

include numeric

theorem numeric_chars : ∀ c ∈ n, c ∈ NUMERIC_CHARS := by
  intro c mem
  have joined : joinDots (n.splitOn '.') = n := List.intercalate_splitOn '.'
  rw [← joined] at mem
  rcases mem_joinDots mem with rfl | ⟨part, listed, inside⟩
  · decide
  · exact (numeric_part (numeric part listed)).2 c inside

theorem numeric_ne_nil : n ≠ [] := by
  rintro rfl
  exact absurd (numeric [] (by simp)) (by decide)

theorem numeric_no_colon : ':' ∉ n := fun mem =>
  absurd (numeric_chars numeric ':' mem) (by decide)

/-- Numbers between dots are refused unless they are the canonical form. -/
theorem isPrivate_legacy (same : normalizeHostname J s = n) (few : (n.splitOn '.').length ≤ 4)
    (legacy : L.isValidFourPartDecimal n = false) : isPrivateIpAddress J L s policy = true := by
  have chars := numeric_chars numeric
  have filled := numeric_ne_nil numeric
  have colon : n.contains ':' = false := by
    rw [Bool.eq_false_iff, ne_eq, List.contains_iff_mem]
    exact numeric_no_colon numeric
  have empty : n.isEmpty = false := by simpa using filled
  have sixth : L.isValidIPv6 n = false := by
    rw [Bool.eq_false_iff]
    exact fun valid => numeric_no_colon numeric (L.parse_six n valid).1
  have input := parseInput_numeric chars filled
  have unparsed : parseCanonicalIpAddress L n = none := by
    simp [parseCanonicalIpAddress, input, legacy, sixth]
  have undotted : isCanonicalDottedDecimalIPv4 L n = false := by
    simp [isCanonicalDottedDecimalIPv4, input, legacy]
  have parts : ¬ ((n.splitOn '.').length = 0 ∨ 4 < (n.splitOn '.').length) := by
    rintro (none | many)
    · exact absurd (List.length_eq_zero_iff.mp none) (List.splitOn_ne_nil '.' n)
    · omega
  have nonempty : (n.splitOn '.').any List.isEmpty = false := by
    rw [List.any_eq_false]
    intro part listed
    simpa using (numeric_part (numeric part listed)).1
  have recognised : isLegacyIpv4Literal L n = true := by
    simp only [isLegacyIpv4Literal, trim_numeric chars, strip_numeric chars, empty, colon, undotted,
      Bool.or_self, Bool.false_eq_true, if_false]
    rw [if_neg (by simpa using parts), if_neg (by simp [nonempty])]
    exact List.all_eq_true.mpr numeric
  simp [isPrivateIpAddress, same, filled, unparsed, undotted, recognised]

end Legacy

end OpenClaw.NetPolicy
