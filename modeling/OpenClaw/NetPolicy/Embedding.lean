import OpenClaw.NetPolicy.Numeric

/-!
What the guard makes of the spellings of one address. The verdict goes by the IPv4 address that
the prefix of an IPv6 address carries; an ISATAP identifier under a 6to4 or Teredo prefix carries
a second one, and that one is not looked at.
-/

namespace OpenClaw.NetPolicy

variable {J : LowerCase} {L : IpaddrJs} {policy : SsrFPolicy} {s : Text} {x : IPv6} {a : IPv4}
  {p : ParsedIpAddress}

section Prefixes

/-- Outside the prefixes that carry an address in a place of their own. -/
theorem extract_unclassified (mapped : ¬ x.isMappedPrefix) (translated : ¬ x.isTranslatedPrefix)
    (nat64 : ¬ x.isNat64Prefix) (localNat64 : ¬ x.isLocalNat64Prefix)
    (sixToFour : ¬ x.isSixToFourPrefix) (teredo : ¬ x.isTeredoPrefix) :
    extractEmbeddedIpv4FromIpv6 L x = extractUnclassified L x := by
  rw [← L.range_mapped] at mapped
  rw [← L.range_translated] at translated
  rw [← L.range_sixToFour] at sixToFour
  rw [← L.range_teredo] at teredo
  have nat : L.range6 x ≠ .rfc6052 := fun range =>
    (L.nat64_range x range).elim nat64 localNat64
  cases range : L.range6 x <;> simp_all [extractEmbeddedIpv4FromIpv6]

theorem extract_sixToFour (inside : x.isSixToFourPrefix) :
    extractEmbeddedIpv4FromIpv6 L x = some (.ofHextets x.p1 x.p2) := by
  simp [extractEmbeddedIpv4FromIpv6, (L.range_sixToFour x).mpr inside, decodeIpv4FromHextets_eq]

theorem extract_teredo (inside : x.isTeredoPrefix) :
    extractEmbeddedIpv4FromIpv6 L x =
      some (.ofHextets (x.p6 ^^^ 0xffff) (x.p7 ^^^ 0xffff)) := by
  simp only [extractEmbeddedIpv4FromIpv6, (L.range_teredo x).mpr inside, decodeIpv4FromHextets_eq]

theorem extractUnclassified_low (form : x.isCompatiblePrefix ∨ x.isIsatapIdentifier) :
    extractUnclassified L x = some x.low := by
  have found : (x.p0 == 0 && x.p1 == 0 && x.p2 == 0 && x.p3 == 0 && x.p4 == 0 && x.p5 == 0 ||
      ((x.p4 &&& 0xfcff) == 0 && x.p5 == 0x5efe)) = true := by
    rcases form with ⟨h0, h1, h2, h3, h4, h5⟩ | ⟨h4, h5⟩
    · simp [h0, h1, h2, h3, h4, h5]
    · refine Bool.or_eq_true_iff.mpr (.inr ?_)
      rw [Bool.and_eq_true, beq_iff_eq, beq_iff_eq]
      exact ⟨h4, h5⟩
  rw [extractUnclassified]
  exact (if_pos found).trans (congrArg some (decodeIpv4FromHextets_eq _ _))

/-- The address that is looked at, unless the allocation is blocked as a whole. -/
theorem extract_carried (carried : Carries x a) (allocation : ¬ x.isLocalNat64Prefix)
    (visible : ¬ ((x.isSixToFourPrefix ∨ x.isTeredoPrefix) ∧ x.isIsatapIdentifier)) :
    extractEmbeddedIpv4FromIpv6 L x = some a := by
  cases carried with
  | mapped inside =>
      simp [extractEmbeddedIpv4FromIpv6, (L.range_mapped x).mpr inside,
        L.toIPv4Address_mapped x inside]
  | translated inside =>
      simp [extractEmbeddedIpv4FromIpv6, (L.range_translated x).mpr inside,
        decodeIpv4FromHextets_eq, IPv6.low]
  | nat64 inside =>
      have other : isRfc8215Nat64LocalUseAddress x = false := by
        rw [Bool.eq_false_iff, ne_eq, isRfc8215_iff]
        exact allocation
      simp [extractEmbeddedIpv4FromIpv6, L.range_nat64 x inside, other,
        decodeIpv4FromHextets_eq, IPv6.low]
  | sixToFour inside => exact extract_sixToFour inside
  | teredo inside => exact extract_teredo inside
  | compatible inside =>
      rw [extract_unclassified, extractUnclassified_low (.inl inside)]
      · exact fun other => absurd (inside.2.2.2.2.2.symm.trans other.2.2.2.2.2) (by decide)
      · exact fun other => absurd (inside.2.2.2.2.1.symm.trans other.2.2.2.2.1) (by decide)
      · exact fun other => absurd (inside.1.symm.trans other.1) (by decide)
      · exact allocation
      · exact fun other => absurd (inside.1.symm.trans other) (by decide)
      · exact fun other => absurd (inside.1.symm.trans other.1) (by decide)
  | isatap inside =>
      rw [extract_unclassified, extractUnclassified_low (.inr inside)]
      · exact fun other => absurd (inside.2.symm.trans other.2.2.2.2.2) (by decide)
      · exact fun other => absurd (inside.2.symm.trans other.2.2.2.2.2) (by decide)
      · exact fun other => absurd (inside.2.symm.trans other.2.2.2.2.2) (by decide)
      · exact allocation
      · exact fun other => visible ⟨.inl other, inside⟩
      · exact fun other => visible ⟨.inr other, inside⟩

/-- Only an address that is carried is looked at. -/
theorem carries_of_extract (found : extractEmbeddedIpv4FromIpv6 L x = some a) : Carries x a := by
  simp only [extractEmbeddedIpv4FromIpv6] at found
  split at found
  case h_1 range =>
    have inside := (L.range_mapped x).mp range
    rw [L.toIPv4Address_mapped x inside] at found
    exact Option.some.inj found ▸ .mapped inside
  case h_2 range =>
    rw [decodeIpv4FromHextets_eq] at found
    exact Option.some.inj found ▸ .translated ((L.range_translated x).mp range)
  case h_3 range =>
    split at found
    case isTrue allocation => cases found
    case isFalse other =>
      rw [isRfc8215_iff] at other
      rw [decodeIpv4FromHextets_eq] at found
      exact Option.some.inj found ▸ .nat64 ((L.nat64_range x range).resolve_right other)
  case h_4 range =>
    rw [decodeIpv4FromHextets_eq] at found
    exact Option.some.inj found ▸ .sixToFour ((L.range_sixToFour x).mp range)
  case h_5 range =>
    rw [decodeIpv4FromHextets_eq] at found
    exact Option.some.inj found ▸ .teredo ((L.range_teredo x).mp range)
  case h_6 =>
    simp only [extractUnclassified] at found
    split at found
    case isFalse => cases found
    case isTrue form =>
      rw [decodeIpv4FromHextets_eq] at found
      simp only [Bool.or_eq_true, Bool.and_eq_true, beq_iff_eq] at form
      rcases form with ⟨⟨⟨⟨⟨h0, h1⟩, h2⟩, h3⟩, h4⟩, h5⟩ | isatap
      · exact Option.some.inj found ▸ .compatible ⟨h0, h1, h2, h3, h4, h5⟩
      · exact Option.some.inj found ▸ .isatap isatap

end Prefixes

section Verdict

/-- The text is an accepted spelling of the address. -/
def Spelled (J : LowerCase) (L : IpaddrJs) (s : Text) (p : ParsedIpAddress) : Prop :=
  parseCanonicalIpAddress L (normalizeHostname J s) = some p

instance : Decidable (Spelled J L s p) := inferInstanceAs (Decidable (_ = _))

inductive Denotes : ParsedIpAddress → IPv4 → Prop
  | itself (a : IPv4) : Denotes (.ipv4 a) a
  | carried {x : IPv6} {a : IPv4} (carries : Carries x a) : Denotes (.ipv6 x) a

/-- The address that a 6to4 or Teredo prefix stands for. -/
def prefixIpv4 (x : IPv6) : IPv4 :=
  if x.isSixToFourPrefix then .ofHextets x.p1 x.p2
  else .ofHextets (x.p6 ^^^ 0xffff) (x.p7 ^^^ 0xffff)

/-- A blocked ISATAP address under a prefix that stands for an unblocked one. -/
structure HidesIsatap (L : IpaddrJs) (policy : SsrFPolicy) (x : IPv6) : Prop where
  outer : x.isSixToFourPrefix ∨ x.isTeredoPrefix
  inner : x.isIsatapIdentifier
  blocked : isBlockedSpecialUseIpv4Address L x.low (resolveIpv4SpecialUseBlockOptions policy) = true
  shown : isBlockedSpecialUseIpv4Address L (prefixIpv4 x)
    (resolveIpv4SpecialUseBlockOptions policy) = false

structure Guards (J : LowerCase) (L : IpaddrJs) (policy : SsrFPolicy) (s : Text) : Prop where
  embedded : ∀ p a, Spelled J L s p → Denotes p a →
    isPrivateIpAddress J L a.dotted policy = true → isPrivateIpAddress J L s policy = true
  numeric : (∀ part ∈ (normalizeHostname J s).splitOn '.', isNumericIpv4LiteralPart part = true) →
    ((normalizeHostname J s).splitOn '.').length ≤ 4 →
    (((normalizeHostname J s).splitOn '.').length < 4 ∨
      (∃ part ∈ (normalizeHostname J s).splitOn '.', isDecimalNumeral part = false) ∨
      L.isValidFourPartDecimal (normalizeHostname J s) = false) →
    isPrivateIpAddress J L s policy = true
  colon : ':' ∈ normalizeHostname J s → parseLooseIpAddress L (normalizeHostname J s) = none →
    isPrivateIpAddress J L s policy = true
  benchmark : ∀ allow,
    isPrivateIpAddress J L s { policy with allowRfc2544BenchmarkRange := allow } ≠
      isPrivateIpAddress J L s policy →
    ∃ p a, Spelled J L s p ∧ Denotes p a ∧ inRfc2544BenchmarkRange a = true
  uniqueLocal : ∀ allow,
    isPrivateIpAddress J L s { policy with allowIpv6UniqueLocalRange := allow } ≠
      isPrivateIpAddress J L s policy →
    ∃ x, Spelled J L s (.ipv6 x) ∧ x.isUniqueLocalPrefix

theorem isPrivate_spelled (spelled : Spelled J L s p) :
    isPrivateIpAddress J L s policy = isPrivateParsed L p policy := by
  have filled : (normalizeHostname J s).isEmpty = false := by
    rw [Bool.eq_false_iff, ne_eq, List.isEmpty_iff]
    intro empty
    rw [Spelled, empty] at spelled
    cases spelled
  have parsed : parseCanonicalIpAddress L (normalizeHostname J s) = some p := spelled
  simp [isPrivateIpAddress, filled, parsed]

/-- Where no literal is parsed the policy does not matter. -/
theorem isPrivate_unparsed (unparsed : parseCanonicalIpAddress L (normalizeHostname J s) = none)
    (policy policy' : SsrFPolicy) :
    isPrivateIpAddress J L s policy = isPrivateIpAddress J L s policy' := by
  simp [isPrivateIpAddress, unparsed]

/-- A literal that does not parse is refused as soon as it has a colon. -/
theorem isPrivate_colon (colon : ':' ∈ normalizeHostname J s)
    (unparsed : parseLooseIpAddress L (normalizeHostname J s) = none) :
    isPrivateIpAddress J L s policy = true := by
  have filled : (normalizeHostname J s).isEmpty = false := by
    rw [Bool.eq_false_iff, ne_eq, List.isEmpty_iff]
    exact List.ne_nil_of_mem colon
  have strict : parseCanonicalIpAddress L (normalizeHostname J s) = none := by
    simp only [parseLooseIpAddress, parseCanonicalIpAddress] at unparsed ⊢
    split
    case h_1 => rfl
    case h_2 normalized input =>
      rw [input] at unparsed
      dsimp only at unparsed
      by_cases empty : normalized.isEmpty = true
      · rw [if_pos empty]
      · rw [if_neg empty] at unparsed ⊢
        refine if_neg fun canonical => ?_
        rw [if_pos (L.isValid_canonical _ (Bool.or_eq_true_iff.mp canonical))] at unparsed
        cases unparsed
  simp [isPrivateIpAddress, filled, strict, colon, unparsed]

theorem isBlockedIpv6_transition (outer : x.isSixToFourPrefix ∨ x.isTeredoPrefix)
    (options : Ipv6SpecialUseBlockOptions) : isBlockedSpecialUseIpv6Address L x options = false := by
  have first : x.p0 = 0x2002 ∨ x.p0 = 0x2001 := outer.imp id And.left
  have range : L.range6 x = .sixToFour ∨ L.range6 x = .teredo :=
    outer.imp (L.range_sixToFour x).mpr (L.range_teredo x).mpr
  have routable : isRfc8215Nat64LocalUseAddress x = false := by
    rcases first with first | first <;> simp [isRfc8215Nat64LocalUseAddress, first]
  have site : ((x.p0 &&& 0xffc0) == 0xfec0) = false := by
    rcases first with first | first <;> rw [first] <;> decide
  have unlisted : BLOCKED_IPV6_SPECIAL_USE_RANGES.contains (L.range6 x) = false := by
    rcases range with range | range <;> rw [range] <;> rfl
  have other : (L.range6 x == .uniqueLocal) = false := by
    rcases range with range | range <;> rw [range] <;> rfl
  simp only [isBlockedSpecialUseIpv6Address, routable, unlisted, other, site, Bool.false_and,
    Bool.false_eq_true, if_false]

theorem extract_transition (outer : x.isSixToFourPrefix ∨ x.isTeredoPrefix) :
    extractEmbeddedIpv4FromIpv6 L x = some (prefixIpv4 x) := by
  by_cases six : x.isSixToFourPrefix
  · rw [extract_sixToFour six, prefixIpv4, if_pos six]
  · rw [extract_teredo (outer.resolve_left six), prefixIpv4, if_neg six]

theorem isPrivateParsed_transition (outer : x.isSixToFourPrefix ∨ x.isTeredoPrefix) :
    isPrivateParsed L (.ipv6 x) policy =
      isBlockedSpecialUseIpv4Address L (prefixIpv4 x) (resolveIpv4SpecialUseBlockOptions policy) := by
  simp [isPrivateParsed, isBlockedIpv6_transition outer, extract_transition outer]

theorem carries_transition (carried : Carries x a)
    (outer : x.isSixToFourPrefix ∨ x.isTeredoPrefix) :
    a = prefixIpv4 x ∨ a = x.low ∧ x.isIsatapIdentifier := by
  have first : x.p0 = 0x2002 ∨ x.p0 = 0x2001 := outer.imp id And.left
  have nonzero : x.p0 ≠ 0 := by
    rcases first with first | first <;> rw [first] <;> decide
  have nat : x.p0 ≠ 0x64 := by
    rcases first with first | first <;> rw [first] <;> decide
  cases carried with
  | mapped inside => exact absurd inside.1 nonzero
  | translated inside => exact absurd inside.1 nonzero
  | compatible inside => exact absurd inside.1 nonzero
  | nat64 inside => exact absurd inside.1 nat
  | isatap inside => exact .inr ⟨rfl, inside⟩
  | sixToFour inside => exact .inl (if_pos inside).symm
  | teredo inside =>
      refine .inl (if_neg fun six => ?_).symm
      exact absurd (inside.1.symm.trans six) (by decide)

theorem isPrivateParsed_carried (carried : Carries x a)
    (visible : ¬ ((x.isSixToFourPrefix ∨ x.isTeredoPrefix) ∧ x.isIsatapIdentifier))
    (blocked : isBlockedSpecialUseIpv4Address L a (resolveIpv4SpecialUseBlockOptions policy) = true) :
    isPrivateParsed L (.ipv6 x) policy = true := by
  by_cases allocation : x.isLocalNat64Prefix
  · simp [isPrivateParsed, isBlockedSpecialUseIpv6Address, isRfc8215_iff.mpr allocation]
  · simp [isPrivateParsed, extract_carried carried allocation visible, blocked]

theorem isPrivateParsed_denoted (denoted : Denotes p a)
    (visible : ¬ ∃ x, p = .ipv6 x ∧ HidesIsatap L policy x)
    (blocked : isBlockedSpecialUseIpv4Address L a (resolveIpv4SpecialUseBlockOptions policy) = true) :
    isPrivateParsed L p policy = true := by
  cases denoted with
  | itself => exact blocked
  | carried carries =>
      rename_i x
      by_cases hidden : (x.isSixToFourPrefix ∨ x.isTeredoPrefix) ∧ x.isIsatapIdentifier
      · rw [isPrivateParsed_transition hidden.1]
        rcases carries_transition carries hidden.1 with rfl | ⟨rfl, inner⟩
        · exact blocked
        · by_contra shown
          exact visible ⟨x, rfl, hidden.1, inner, blocked, Bool.eq_false_iff.mpr shown⟩
      · exact isPrivateParsed_carried carries hidden blocked

/-- An allowance for IPv4 addresses changes the verdict only where one of them is looked at. -/
theorem isPrivateParsed_benchmark {allow : Bool}
    (changed : isPrivateParsed L p { policy with allowRfc2544BenchmarkRange := allow } ≠
      isPrivateParsed L p policy) :
    ∃ a, Denotes p a ∧ inRfc2544BenchmarkRange a = true := by
  have same : ∀ a, inRfc2544BenchmarkRange a = false → ∀ options options',
      isBlockedSpecialUseIpv4Address L a options =
        isBlockedSpecialUseIpv4Address L a options' := by
    intro a outside options options'
    simp [isBlockedSpecialUseIpv4Address, outside]
  by_contra none
  push Not at none
  refine changed ?_
  cases p with
  | ipv4 a => exact same a (Bool.eq_false_iff.mpr (none a (.itself a))) _ _
  | ipv6 x =>
      simp only [isPrivateParsed]
      cases found : extractEmbeddedIpv4FromIpv6 L x with
      | none => rfl
      | some e =>
          have unaffected := same e
            (Bool.eq_false_iff.mpr (none e (.carried (carries_of_extract found))))
            (resolveIpv4SpecialUseBlockOptions { policy with allowRfc2544BenchmarkRange := allow })
            (resolveIpv4SpecialUseBlockOptions policy)
          simp only [unaffected]
          rfl

theorem isPrivateParsed_uniqueLocal {allow : Bool}
    (changed : isPrivateParsed L p { policy with allowIpv6UniqueLocalRange := allow } ≠
      isPrivateParsed L p policy) :
    ∃ x, p = .ipv6 x ∧ x.isUniqueLocalPrefix := by
  cases p with
  | ipv4 a => exact absurd rfl changed
  | ipv6 x =>
      refine ⟨x, rfl, L.range_uniqueLocal x ?_⟩
      by_contra other
      refine changed ?_
      have unaffected : ∀ options options', isBlockedSpecialUseIpv6Address L x options =
          isBlockedSpecialUseIpv6Address L x options' := by
        intro options options'
        simp [isBlockedSpecialUseIpv6Address, other]
      simp only [isPrivateParsed]
      rw [unaffected (resolveIpv6SpecialUseBlockOptions
        { policy with allowIpv6UniqueLocalRange := allow })
          (resolveIpv6SpecialUseBlockOptions policy)]
      rfl

end Verdict

section Guard

end Guard

end OpenClaw.NetPolicy
