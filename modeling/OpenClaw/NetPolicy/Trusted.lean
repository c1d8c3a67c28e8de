import OpenClaw.NetPolicy.Pinned

/-!
What the check of a trusted host leaves out of the addresses it passes: nothing unspecified,
link-local, loopback or of a metadata service, in any embedding, but for a second embedding
behind a 6to4 or Teredo prefix and for a zone identifier on the IPv6 metadata address.
-/

namespace OpenClaw.NetPolicy

variable {L : IpaddrJs} {x : IPv6} {a : IPv4} {p : ParsedIpAddress} {address : Text}
  {isLoopbackAllowed : Bool}

def METADATA_IPV4 : IPv4 := ⟨100, 100, 100, 200⟩

/-- `fd00:ec2::254`, in whatever zone. -/
def IPv6.isMetadata (x : IPv6) : Prop :=
  { x with zoneId := none } = ⟨0xfd00, 0x0ec2, 0, 0, 0, 0, 0, 0x254, none⟩

/-- What exact-host trust does not reach; the loopback address is not read as an embedding. -/
structure Special4 (L : IpaddrJs) (isLoopbackAllowed isLoopback : Bool) (a : IPv4) : Prop where
  special : L.range4 a = .unspecified ∧ isLoopback = false ∨ L.range4 a = .linkLocal ∨
    isLoopbackAllowed = false ∧ L.range4 a = .loopback ∨ a = METADATA_IPV4

structure Harmless6 (L : IpaddrJs) (isLoopbackAllowed : Bool) (x : IPv6) : Prop where
  unspecified : L.range6 x ≠ .unspecified
  linkLocal : L.range6 x ≠ .linkLocal
  loopback : isLoopbackAllowed = true ∨ L.range6 x ≠ .loopback
  metadata : ¬ x.isMetadata
  carried : ∀ a, Carries x a → ¬ Special4 L isLoopbackAllowed (L.range6 x == .loopback) a

def Harmless (L : IpaddrJs) (isLoopbackAllowed : Bool) : ParsedIpAddress → Prop
  | .ipv4 a => ¬ Special4 L isLoopbackAllowed false a
  | .ipv6 x => Harmless6 L isLoopbackAllowed x

/-- The addresses the check does not see. -/
inductive Overlooked (L : IpaddrJs) (isLoopbackAllowed : Bool) : IPv6 → Prop
  | isatap {x : IPv6} (outer : x.isSixToFourPrefix ∨ x.isTeredoPrefix)
      (inner : x.isIsatapIdentifier) (special : Special4 L isLoopbackAllowed false x.low) :
      Overlooked L isLoopbackAllowed x
  | zoned {x : IPv6} (metadata : x.isMetadata) (zone : x.zoneId ≠ none) :
      Overlooked L isLoopbackAllowed x

theorem parseLoose_of_canonical (parsed : parseCanonicalIpAddress L address = some p) :
    parseLooseIpAddress L address = some p := by
  simp only [parseCanonicalIpAddress, parseLooseIpAddress] at parsed ⊢
  split at parsed
  case h_1 => cases parsed
  case h_2 normalized input =>
    by_cases empty : normalized.isEmpty = true
    · rw [if_pos empty] at parsed
      cases parsed
    · rw [if_neg empty] at parsed ⊢
      split at parsed
      case isFalse => cases parsed
      case isTrue canonical =>
        rw [if_pos (L.isValid_canonical _ (Bool.or_eq_true_iff.mp canonical))]
        exact parsed

theorem metadata_text : CLOUD_METADATA_IP_ADDRESSES.contains METADATA_IPV4.dotted = true := by
  decide

section Four

variable (parsed : parseCanonicalIpAddress L address = some (.ipv4 a))
  (passes : isBlockedTrustedAddress L isLoopbackAllowed address = false)

include parsed passes

theorem harmless_four : ¬ Special4 L isLoopbackAllowed false a := by
  have loose := parseLoose_of_canonical parsed
  simp only [isBlockedTrustedAddress, isUnspecifiedIpAddressIncludingEmbeddedIpv4,
    isLoopbackIpAddressIncludingEmbeddedIpv4, isLoopbackIpAddress, isLinkLocalIpAddress,
    isCloudMetadataIpAddress, parsed, loose, normalizeIpv4MappedAddress,
    ParsedIpAddress.isLoopbackRange, Bool.or_eq_false_iff, Bool.and_eq_false_iff,
    Bool.not_eq_eq_eq_not, Bool.not_false] at passes
  obtain ⟨⟨⟨⟨unspecified, loopback⟩, -⟩, linkLocal⟩, metadata⟩ := passes
  rintro ⟨⟨range, -⟩ | range | ⟨allowed, range⟩ | rfl⟩
  · rw [range] at unspecified
    cases unspecified
  · rw [range] at linkLocal
    cases linkLocal
  · rcases loopback with other | loopback
    · rw [allowed] at other
      cases other
    · simp [range] at loopback
  · rw [L.toString_four, metadata_text] at metadata
    cases metadata

end Four

section Six

theorem extract_mapped (inside : x.isMappedPrefix) :
    extractEmbeddedIpv4FromIpv6 L x = some (L.toIPv4Address x) := by
  simp [extractEmbeddedIpv4FromIpv6, (L.range_mapped x).mpr inside]

theorem not_metadata_of_mapped (inside : x.isMappedPrefix) : ¬ x.isMetadata := fun metadata =>
  absurd ((congrArg IPv6.p0 metadata).symm.trans inside.1) (by decide)

/-- What each of the five checks has seen of an IPv6 address that passes. -/
structure Seen (L : IpaddrJs) (isLoopbackAllowed : Bool) (x : IPv6) : Prop where
  unspecified : L.range6 x ≠ .unspecified
  linkLocal : L.range6 x ≠ .linkLocal
  loopback : isLoopbackAllowed = true ∨ L.range6 x ≠ .loopback
  metadata : x.isMetadata → x.zoneId ≠ none
  allocation : ¬ x.isLocalNat64Prefix
  embedded : ∀ e, extractEmbeddedIpv4FromIpv6 L x = some e →
    ¬ Special4 L isLoopbackAllowed (L.range6 x == .loopback) e

variable (parsed : parseCanonicalIpAddress L address = some (.ipv6 x))
  (passes : isBlockedTrustedAddress L isLoopbackAllowed address = false)

include parsed passes

theorem seen_unspecified : L.range6 x ≠ .unspecified ∧
    (L.range6 x = .loopback ∨
      (extractEmbeddedIpv4FromIpv6 L x).map L.range4 ≠ some .unspecified) := by
  simp only [isBlockedTrustedAddress, isUnspecifiedIpAddressIncludingEmbeddedIpv4, parsed,
    Bool.or_eq_false_iff] at passes
  have unspecified := passes.1.1.1.1
  by_cases range : L.range6 x = .unspecified
  · simp [range] at unspecified
  · refine ⟨range, ?_⟩
    by_cases loopback : L.range6 x = .loopback
    · exact .inl loopback
    · simp [range, loopback] at unspecified
      exact .inr (by simpa using unspecified)

theorem seen_loopback : isLoopbackAllowed = true ∨ L.range6 x ≠ .loopback ∧
    (extractEmbeddedIpv4FromIpv6 L x).map L.range4 ≠ some .loopback := by
  simp only [isBlockedTrustedAddress, isLoopbackIpAddressIncludingEmbeddedIpv4,
    isLoopbackIpAddress, parsed, Bool.or_eq_false_iff, Bool.and_eq_false_iff] at passes
  rcases passes.1.1.1.2 with allowed | loopback
  · exact .inl (by simpa using allowed)
  · refine .inr ?_
    by_cases mapped : L.isIPv4MappedAddress x = true
    · have inside := (L.isIPv4Mapped x).mp mapped
      rw [extract_mapped inside, (L.range_mapped x).mpr inside]
      simpa [normalizeIpv4MappedAddress, mapped, ParsedIpAddress.isLoopbackRange,
        extract_mapped inside] using loopback
    · simpa [normalizeIpv4MappedAddress, mapped, ParsedIpAddress.isLoopbackRange] using loopback

theorem seen_linkLocal : L.range6 x ≠ .linkLocal ∧
    (extractEmbeddedIpv4FromIpv6 L x).map L.range4 ≠ some .linkLocal := by
  simp only [isBlockedTrustedAddress, isLinkLocalIpAddress, parseLoose_of_canonical parsed,
    Bool.or_eq_false_iff] at passes
  have linkLocal := passes.1.2
  by_cases mapped : L.isIPv4MappedAddress x = true
  · have inside := (L.isIPv4Mapped x).mp mapped
    rw [extract_mapped inside, (L.range_mapped x).mpr inside]
    simpa [normalizeIpv4MappedAddress, mapped] using linkLocal
  · simp [normalizeIpv4MappedAddress, mapped] at linkLocal
    exact ⟨by simpa using linkLocal.2, by simpa using linkLocal.1⟩

theorem seen_metadata : (x.isMetadata → x.zoneId ≠ none) ∧
    extractEmbeddedIpv4FromIpv6 L x ≠ some METADATA_IPV4 := by
  simp only [isBlockedTrustedAddress, isCloudMetadataIpAddress, parseLoose_of_canonical parsed,
    Bool.or_eq_false_iff] at passes
  have metadata := passes.2
  by_cases mapped : L.isIPv4MappedAddress x = true
  · have inside := (L.isIPv4Mapped x).mp mapped
    refine ⟨fun other => absurd other (not_metadata_of_mapped inside), fun same => ?_⟩
    rw [extract_mapped inside] at same
    simp only [normalizeIpv4MappedAddress, mapped, if_true, Option.some.inj same,
      L.toString_four, metadata_text] at metadata
    cases metadata
  · simp only [normalizeIpv4MappedAddress, mapped, Bool.false_eq_true, if_false,
      Bool.or_eq_false_iff] at metadata
    refine ⟨fun parts zone => ?_, fun same => ?_⟩
    · have self : x = ⟨0xfd00, 0x0ec2, 0, 0, 0, 0, 0, 0x254, none⟩ := by
        rw [← parts, ← zone]
      rw [((L.toString_six x).2.mpr self)] at metadata
      exact absurd metadata.2 (by decide)
    · rw [same, Option.any_some, L.toString_four, metadata_text] at metadata
      cases metadata.1

theorem seen_allocation : ¬ x.isLocalNat64Prefix := by
  intro inside
  simp only [isBlockedTrustedAddress, isBlockedTrustedResolvedIpv6Address, parsed,
    Bool.or_eq_false_iff] at passes
  have allocation := passes.1.1.2
  have blocked : isBlockedSpecialUseIpv6Address L x ⟨false⟩ = true := by
    simp [isBlockedSpecialUseIpv6Address, isRfc8215_iff.mpr inside]
  rcases L.range_localNat64 x inside with range | range <;> simp [range, blocked] at allocation

theorem seen : Seen L isLoopbackAllowed x where
  unspecified := (seen_unspecified parsed passes).1
  linkLocal := (seen_linkLocal parsed passes).1
  loopback := (seen_loopback parsed passes).imp id And.left
  metadata := (seen_metadata parsed passes).1
  allocation := seen_allocation parsed passes
  embedded e found := by
    have unspecified := (seen_unspecified parsed passes).2
    have loopback := seen_loopback parsed passes
    have linkLocal := (seen_linkLocal parsed passes).2
    have metadata := (seen_metadata parsed passes).2
    rw [found, Option.map_some] at unspecified loopback linkLocal
    rintro ⟨⟨range, other⟩ | range | ⟨allowed, range⟩ | rfl⟩
    · rcases unspecified with self | unspecified
      · rw [self] at other
        cases other
      · exact unspecified (congrArg some range)
    · exact linkLocal (congrArg some range)
    · rcases loopback with other | loopback
      · rw [allowed] at other
        cases other
      · exact loopback.2 (congrArg some range)
    · exact metadata found

end Six

theorem transition_not_loopback (outer : x.isSixToFourPrefix ∨ x.isTeredoPrefix) :
    (L.range6 x == .loopback) = false := by
  rcases outer with inside | inside
  · rw [(L.range_sixToFour x).mpr inside]
    rfl
  · rw [(L.range_teredo x).mpr inside]
    rfl

/-- An address that passes is harmless unless it is overlooked. -/
theorem harmless_iff (parsed : parseCanonicalIpAddress L address = some p)
    (passes : isBlockedTrustedAddress L isLoopbackAllowed address = false) :
    Harmless L isLoopbackAllowed p ↔ ¬ ∃ x, p = .ipv6 x ∧ Overlooked L isLoopbackAllowed x := by
  cases p with
  | ipv4 a =>
      refine iff_of_true (harmless_four parsed passes) ?_
      rintro ⟨x, same, -⟩
      cases same
  | ipv6 x =>
      have checks := seen parsed passes
      constructor
      · rintro harmless ⟨other, same, overlooked⟩
        obtain rfl := ParsedIpAddress.ipv6.inj same
        cases overlooked with
        | isatap outer inner special =>
            refine harmless.carried _ (.isatap inner) ?_
            rw [transition_not_loopback outer]
            exact special
        | zoned metadata zone => exact harmless.metadata metadata
      · intro visible
        refine ⟨checks.unspecified, checks.linkLocal, checks.loopback, ?_, ?_⟩
        · exact fun metadata => visible ⟨x, rfl, .zoned metadata (checks.metadata metadata)⟩
        · intro a carries
          by_cases hidden : (x.isSixToFourPrefix ∨ x.isTeredoPrefix) ∧ x.isIsatapIdentifier
          · rcases carries_transition carries hidden.1 with rfl | ⟨rfl, inner⟩
            · exact checks.embedded _ (extract_transition hidden.1)
            · intro special
              rw [transition_not_loopback hidden.1] at special
              exact visible ⟨x, rfl, .isatap hidden.1 inner special⟩
          · exact checks.embedded a (extract_carried carries checks.allocation hidden)

end OpenClaw.NetPolicy
