import Mathlib
import OpenClaw.Lib.JsText

/-!
IP addresses as `ipaddr.js` represents them, the ways an IPv6 address carries an IPv4 one,
and what the guard relies on of that library: which spellings it accepts, what they parse to,
and the prefixes behind the range names that the guard decides by.
-/

namespace OpenClaw.NetPolicy

abbrev Text := List Char
abbrev Octet := BitVec 8
abbrev Hextet := BitVec 16

structure IPv4 where
  octets : Octet × Octet × Octet × Octet
deriving DecidableEq, Repr

/-- `parts` of an IPv6 address, and its zone identifier. -/
structure IPv6 where
  p0 : Hextet
  p1 : Hextet
  p2 : Hextet
  p3 : Hextet
  p4 : Hextet
  p5 : Hextet
  p6 : Hextet
  p7 : Hextet
  zoneId : Option Text
deriving DecidableEq, Repr

inductive ParsedIpAddress
  | ipv4 (address : IPv4)
  | ipv6 (address : IPv6)
deriving DecidableEq, Repr

inductive Ipv4Range
  | unspecified
  | broadcast
  | multicast
  | linkLocal
  | loopback
  | carrierGradeNat
  | «private»
  | reserved
  | as112
  | amt
  | unicast
deriving DecidableEq, Repr

inductive Ipv6Range
  | unspecified
  | linkLocal
  | multicast
  | loopback
  | uniqueLocal
  | ipv4Mapped
  | discard
  | rfc6145
  | rfc6052
  | sixToFour
  | teredo
  | benchmarking
  | amt
  | as112v6
  | deprecatedOrchid
  | orchid2
  | droneRemoteIdProtocolEntityTags
  | reserved
  | unicast
deriving DecidableEq, Repr

section Embedding

/-- The octets of two hextets. -/
def IPv4.ofHextets (high low : Hextet) : IPv4 :=
  ⟨(high >>> 8).truncate 8, high.truncate 8, (low >>> 8).truncate 8, low.truncate 8⟩

namespace IPv6

variable (x : IPv6)

/-- `::ffff:0:0/96`. -/
def isMappedPrefix : Prop :=
  x.p0 = 0 ∧ x.p1 = 0 ∧ x.p2 = 0 ∧ x.p3 = 0 ∧ x.p4 = 0 ∧ x.p5 = 0xffff

/-- `::ffff:0:0:0/96`. -/
def isTranslatedPrefix : Prop :=
  x.p0 = 0 ∧ x.p1 = 0 ∧ x.p2 = 0 ∧ x.p3 = 0 ∧ x.p4 = 0xffff ∧ x.p5 = 0

/-- `64:ff9b::/96`. -/
def isNat64Prefix : Prop :=
  x.p0 = 0x64 ∧ x.p1 = 0xff9b ∧ x.p2 = 0 ∧ x.p3 = 0 ∧ x.p4 = 0 ∧ x.p5 = 0

/-- `64:ff9b:1::/48`. -/
def isLocalNat64Prefix : Prop := x.p0 = 0x64 ∧ x.p1 = 0xff9b ∧ x.p2 = 1

/-- `::/96`. -/
def isCompatiblePrefix : Prop :=
  x.p0 = 0 ∧ x.p1 = 0 ∧ x.p2 = 0 ∧ x.p3 = 0 ∧ x.p4 = 0 ∧ x.p5 = 0

/-- `2002::/16`. -/
def isSixToFourPrefix : Prop := x.p0 = 0x2002

/-- `2001::/32`. -/
def isTeredoPrefix : Prop := x.p0 = 0x2001 ∧ x.p1 = 0

/-- `fc00::/7`. -/
def isUniqueLocalPrefix : Prop := x.p0 &&& 0xfe00 = 0xfc00

/-- An ISATAP interface identifier, under any prefix. -/
def isIsatapIdentifier : Prop := x.p4 &&& 0xfcff = 0 ∧ x.p5 = 0x5efe

instance : Decidable x.isMappedPrefix := inferInstanceAs (Decidable (_ ∧ _))
instance : Decidable x.isTranslatedPrefix := inferInstanceAs (Decidable (_ ∧ _))
instance : Decidable x.isNat64Prefix := inferInstanceAs (Decidable (_ ∧ _))
instance : Decidable x.isLocalNat64Prefix := inferInstanceAs (Decidable (_ ∧ _))
instance : Decidable x.isCompatiblePrefix := inferInstanceAs (Decidable (_ ∧ _))
instance : Decidable x.isSixToFourPrefix := inferInstanceAs (Decidable (_ = _))
instance : Decidable x.isTeredoPrefix := inferInstanceAs (Decidable (_ ∧ _))
instance : Decidable x.isUniqueLocalPrefix := inferInstanceAs (Decidable (_ = _))
instance : Decidable x.isIsatapIdentifier := inferInstanceAs (Decidable (_ ∧ _))

def low : IPv4 := .ofHextets x.p6 x.p7

end IPv6

/-- The IPv4 addresses that an IPv6 address stands for. -/
inductive Carries : IPv6 → IPv4 → Prop
  | mapped {x : IPv6} (inside : x.isMappedPrefix) : Carries x x.low
  | translated {x : IPv6} (inside : x.isTranslatedPrefix) : Carries x x.low
  | nat64 {x : IPv6} (inside : x.isNat64Prefix) : Carries x x.low
  | compatible {x : IPv6} (inside : x.isCompatiblePrefix) : Carries x x.low
  | isatap {x : IPv6} (inside : x.isIsatapIdentifier) : Carries x x.low
  | sixToFour {x : IPv6} (inside : x.isSixToFourPrefix) : Carries x (.ofHextets x.p1 x.p2)
  | teredo {x : IPv6} (inside : x.isTeredoPrefix) :
      Carries x (.ofHextets (x.p6 ^^^ 0xffff) (x.p7 ^^^ 0xffff))

end Embedding

section Spelling

def joinDots (parts : List Text) : Text := List.intercalate ['.'] parts

def IPv4.octetList (a : IPv4) : List Octet :=
  [a.octets.1, a.octets.2.1, a.octets.2.2.1, a.octets.2.2.2]

def decimal (octet : Octet) : Text := Nat.toDigits 10 octet.toNat

/-- The canonical dotted form. -/
def IPv4.dotted (a : IPv4) : Text := joinDots (a.octetList.map decimal)

/-- `/^(0|[1-9]\d*)$/`. -/
def isDecimalNumeral (part : Text) : Bool :=
  part.all Char.isDigit && !part.isEmpty && (part.length == 1 || part.head? != some '0')

end Spelling

/-- What the guard uses of `ipaddr.js`. -/
structure IpaddrJs where
  isValidFourPartDecimal : Text → Bool
  isValidIPv6 : Text → Bool
  isValid : Text → Bool
  parse : Text → ParsedIpAddress
  parseIPv4 : Text → IPv4
  range4 : IPv4 → Ipv4Range
  range6 : IPv6 → Ipv6Range
  isIPv4MappedAddress : IPv6 → Bool
  toIPv4Address : IPv6 → IPv4
  toString : ParsedIpAddress → Text
  fourParts : ∀ s, isValidFourPartDecimal s = true →
    (s.splitOn '.').length = 4 ∧ ∀ part ∈ s.splitOn '.', isDecimalNumeral part = true
  parse_dotted : ∀ a : IPv4, isValidFourPartDecimal a.dotted = true ∧
    parse a.dotted = .ipv4 a ∧ parseIPv4 a.dotted = a
  parse_four : ∀ s, isValidFourPartDecimal s = true → ∃ a, parse s = .ipv4 a
  parse_six : ∀ s, isValidIPv6 s = true → ':' ∈ s ∧ ∃ x, parse s = .ipv6 x
  isValid_canonical : ∀ s, isValidFourPartDecimal s = true ∨ isValidIPv6 s = true →
    isValid s = true
  isValid_colon : ∀ s, ':' ∈ s → isValid s = isValidIPv6 s
  range_mapped : ∀ x, range6 x = .ipv4Mapped ↔ x.isMappedPrefix
  range_translated : ∀ x, range6 x = .rfc6145 ↔ x.isTranslatedPrefix
  range_sixToFour : ∀ x, range6 x = .sixToFour ↔ x.isSixToFourPrefix
  range_teredo : ∀ x, range6 x = .teredo ↔ x.isTeredoPrefix
  range_nat64 : ∀ x, x.isNat64Prefix → range6 x = .rfc6052
  range_localNat64 : ∀ x, x.isLocalNat64Prefix → range6 x = .rfc6052 ∨ range6 x = .unicast
  nat64_range : ∀ x, range6 x = .rfc6052 → x.isNat64Prefix ∨ x.isLocalNat64Prefix
  range_uniqueLocal : ∀ x, range6 x = .uniqueLocal → x.isUniqueLocalPrefix
  isIPv4Mapped : ∀ x, isIPv4MappedAddress x = true ↔ x.isMappedPrefix
  toIPv4Address_mapped : ∀ x, x.isMappedPrefix → toIPv4Address x = x.low
  toString_four : ∀ a, toString (.ipv4 a) = a.dotted
  toString_six : ∀ x, ':' ∈ toString (.ipv6 x) ∧
    (toString (.ipv6 x) = "fd00:ec2::254".toList ↔
      x = ⟨0xfd00, 0x0ec2, 0, 0, 0, 0, 0, 0x254, none⟩)

/-- `String.prototype.toLowerCase`, of which only the ASCII part matters. -/
structure LowerCase where
  apply : Text → Text
  ascii : ∀ s, (∀ c ∈ s, c.toNat < 128) → apply s = s.map Char.toLower

end OpenClaw.NetPolicy

/-!
The classification of IP literals: canonical and loose parsing, the special-use ranges that
are blocked, and the IPv4 address that an IPv6 literal is taken to stand for.
-/

namespace OpenClaw.NetPolicy

section Parsing

def stripIpv6Brackets (value : Text) : Text :=
  if value.head? = some '[' ∧ value.getLast? = some ']' then value.tail.dropLast else value

/-- `/^[0-9]+$/` or `/^0x[0-9a-f]+$/i`. -/
def isNumericIpv4LiteralPart (value : Text) : Bool :=
  (!value.isEmpty && value.all Char.isDigit) ||
    match value with
    | '0' :: x :: digits =>
        (x == 'x' || x == 'X') && !digits.isEmpty && digits.all fun c =>
          c.isDigit || ('a' ≤ c && c ≤ 'f') || ('A' ≤ c && c ≤ 'F')
    | _ => false

/-- A blank string is no input. -/
def normalizeIpParseInput (raw : Text) : Option Text :=
  if (JsText.trimChars raw).isEmpty then none else some (stripIpv6Brackets (JsText.trimChars raw))

variable (L : IpaddrJs)

def parseCanonicalIpAddress (raw : Text) : Option ParsedIpAddress :=
  match normalizeIpParseInput raw with
  | none => none
  | some normalized =>
      if normalized.isEmpty then none
      else if L.isValidFourPartDecimal normalized || L.isValidIPv6 normalized then
        some (L.parse normalized)
      else none

def parseLooseIpAddress (raw : Text) : Option ParsedIpAddress :=
  match normalizeIpParseInput raw with
  | none => none
  | some normalized =>
      if normalized.isEmpty then none
      else if L.isValid normalized then some (L.parse normalized)
      else none

def isCanonicalDottedDecimalIPv4 (raw : Text) : Bool :=
  match normalizeIpParseInput raw with
  | none => false
  | some normalized => L.isValidFourPartDecimal normalized

def isLegacyIpv4Literal (raw : Text) : Bool :=
  let trimmed := JsText.trimChars raw
  if trimmed.isEmpty then false
  else
    let normalized := stripIpv6Brackets trimmed
    if normalized.isEmpty || normalized.contains ':' then false
    else if isCanonicalDottedDecimalIPv4 L normalized then false
    else
      let parts := normalized.splitOn '.'
      if parts.length = 0 || 4 < parts.length then false
      else if parts.any List.isEmpty then false
      else parts.all isNumericIpv4LiteralPart

def normalizeIpv4MappedAddress (address : ParsedIpAddress) : ParsedIpAddress :=
  match address with
  | .ipv4 a => .ipv4 a
  | .ipv6 x => if L.isIPv4MappedAddress x then .ipv4 (L.toIPv4Address x) else .ipv6 x

end Parsing

section Ranges

def BLOCKED_IPV4_SPECIAL_USE_RANGES : List Ipv4Range :=
  [.unspecified, .broadcast, .multicast, .linkLocal, .loopback, .carrierGradeNat, .private,
    .reserved]

def BLOCKED_IPV6_SPECIAL_USE_RANGES : List Ipv6Range :=
  [.unspecified, .loopback, .linkLocal, .uniqueLocal, .multicast, .reserved, .benchmarking,
    .discard, .orchid2]

/-- `198.18.0.0/15`. -/
def inRfc2544BenchmarkRange (a : IPv4) : Bool :=
  a.octets.1 == 198 && (a.octets.2.1 &&& 0xfe) == 18

structure Ipv4SpecialUseBlockOptions where
  allowRfc2544BenchmarkRange : Bool

structure Ipv6SpecialUseBlockOptions where
  allowUniqueLocalRange : Bool

def isRfc8215Nat64LocalUseAddress (x : IPv6) : Bool :=
  x.p0 == 0x0064 && x.p1 == 0xff9b && x.p2 == 0x0001

variable (L : IpaddrJs)

def isBlockedSpecialUseIpv4Address (a : IPv4) (options : Ipv4SpecialUseBlockOptions) : Bool :=
  if inRfc2544BenchmarkRange a && options.allowRfc2544BenchmarkRange then false
  else BLOCKED_IPV4_SPECIAL_USE_RANGES.contains (L.range4 a) || inRfc2544BenchmarkRange a

def isBlockedSpecialUseIpv6Address (x : IPv6) (options : Ipv6SpecialUseBlockOptions) : Bool :=
  if isRfc8215Nat64LocalUseAddress x then true
  else if L.range6 x == .uniqueLocal && options.allowUniqueLocalRange then false
  else if BLOCKED_IPV6_SPECIAL_USE_RANGES.contains (L.range6 x) then true
  -- deprecated site-local `fec0::/10`, which `range` does not classify
  else (x.p0 &&& 0xffc0) == 0xfec0

def decodeIpv4FromHextets (high low : Hextet) : IPv4 :=
  L.parseIPv4 (joinDots ([((high >>> 8) &&& 0xff).toNat, (high &&& 0xff).toNat,
    ((low >>> 8) &&& 0xff).toNat, (low &&& 0xff).toNat].map (Nat.toDigits 10)))

/-- Outside the prefixes that `range` knows, compatible and ISATAP forms. -/
def extractUnclassified (x : IPv6) : Option IPv4 :=
  let isIpv4Compatible := x.p0 == 0 && x.p1 == 0 && x.p2 == 0 && x.p3 == 0 && x.p4 == 0 && x.p5 == 0
  let isIsatap := (x.p4 &&& 0xfcff) == 0 && x.p5 == 0x5efe
  if isIpv4Compatible || isIsatap then some (decodeIpv4FromHextets L x.p6 x.p7) else none

def extractEmbeddedIpv4FromIpv6 (x : IPv6) : Option IPv4 :=
  match L.range6 x with
  | .ipv4Mapped => some (L.toIPv4Address x)
  | .rfc6145 => some (decodeIpv4FromHextets L x.p6 x.p7)
  | .rfc6052 =>
      if isRfc8215Nat64LocalUseAddress x then none
      else some (decodeIpv4FromHextets L x.p6 x.p7)
  | .sixToFour => some (decodeIpv4FromHextets L x.p1 x.p2)
  | .teredo => some (decodeIpv4FromHextets L (x.p6 ^^^ 0xffff) (x.p7 ^^^ 0xffff))
  | _ => extractUnclassified L x

end Ranges

section Classifiers

variable (L : IpaddrJs)

def CLOUD_METADATA_IP_ADDRESSES : List Text :=
  ["100.100.100.200".toList, "fd00:ec2::254".toList]

def ParsedIpAddress.isLoopbackRange : ParsedIpAddress → Bool
  | .ipv4 a => L.range4 a == .loopback
  | .ipv6 x => L.range6 x == .loopback

def isLoopbackIpAddress (raw : Text) : Bool :=
  match parseCanonicalIpAddress L raw with
  | none => false
  | some parsed => (normalizeIpv4MappedAddress L parsed).isLoopbackRange L

def isLinkLocalIpAddress (raw : Text) : Bool :=
  match parseLooseIpAddress L raw with
  | none => false
  | some parsed =>
      match normalizeIpv4MappedAddress L parsed with
      | .ipv4 a => L.range4 a == .linkLocal
      | .ipv6 x =>
          if (extractEmbeddedIpv4FromIpv6 L x).map L.range4 == some .linkLocal then true
          else L.range6 x == .linkLocal

def isCloudMetadataIpAddress (raw : Text) : Bool :=
  match parseLooseIpAddress L raw with
  | none => false
  | some parsed =>
      match normalizeIpv4MappedAddress L parsed with
      | .ipv4 a => CLOUD_METADATA_IP_ADDRESSES.contains (L.toString (.ipv4 a))
      | .ipv6 x =>
          ((extractEmbeddedIpv4FromIpv6 L x).any fun embedded =>
            CLOUD_METADATA_IP_ADDRESSES.contains (L.toString (.ipv4 embedded))) ||
            CLOUD_METADATA_IP_ADDRESSES.contains (L.toString (.ipv6 x))

end Classifiers

section Embedding

variable {L : IpaddrJs} {x : IPv6} {a : IPv4}

theorem toDigits_octet (n : Hextet) :
    Nat.toDigits 10 (n &&& 0xff).toNat = decimal (n.truncate 8) := by
  have masked : (n &&& 0xff).toNat = n.toNat % 2 ^ 8 := by
    rw [BitVec.toNat_and]
    exact Nat.and_two_pow_sub_one_eq_mod n.toNat 8
  rw [decimal, masked, BitVec.truncate_eq_setWidth, BitVec.toNat_setWidth]

theorem decodeIpv4FromHextets_eq (high low : Hextet) :
    decodeIpv4FromHextets L high low = .ofHextets high low := by
  have text : joinDots ([((high >>> 8) &&& 0xff).toNat, (high &&& 0xff).toNat,
      ((low >>> 8) &&& 0xff).toNat, (low &&& 0xff).toNat].map (Nat.toDigits 10)) =
        (IPv4.ofHextets high low).dotted := by
    simp only [List.map_cons, List.map_nil, toDigits_octet, IPv4.dotted, IPv4.octetList,
      IPv4.ofHextets]
  rw [decodeIpv4FromHextets, text]
  exact (L.parse_dotted _).2.2

theorem isRfc8215_iff : isRfc8215Nat64LocalUseAddress x = true ↔ x.isLocalNat64Prefix := by
  simp [isRfc8215Nat64LocalUseAddress, IPv6.isLocalNat64Prefix, and_assoc]

end Embedding

end OpenClaw.NetPolicy

/-!
The SSRF policy over host names and addresses: normalization, name patterns, and which
addresses count as private.
-/

namespace OpenClaw.NetPolicy

/-- `undefined` is the policy that allows and lists nothing. -/
structure SsrFPolicy where
  allowPrivateNetwork : Bool := false
  dangerouslyAllowPrivateNetwork : Bool := false
  allowRfc2544BenchmarkRange : Bool := false
  allowIpv6UniqueLocalRange : Bool := false
  allowedHostnames : List Text := []
  hostnameAllowlist : List Text := []
  blockedHostnames : List Text := []

section Hostnames

variable (J : LowerCase)

def normalizeLowercaseStringOrEmpty (value : Text) : Text := J.apply (JsText.trimChars value)

/-- `replace(/\.+$/, "")`. -/
def stripTrailingDots (value : Text) : Text := value.rdropWhile (· == '.')

def normalizeHostname (hostname : Text) : Text :=
  stripIpv6Brackets (stripTrailingDots (normalizeLowercaseStringOrEmpty J hostname))

def normalizeUniqueStringEntries (values : List Text) : List Text :=
  ((values.map JsText.trimChars).filter fun value => !value.isEmpty).eraseDups

def normalizePolicyHostnames (values : List Text) : List Text :=
  normalizeUniqueStringEntries (values.map (normalizeHostname J))

def normalizeHostnameAllowlist (values : List Text) : List Text :=
  (normalizePolicyHostnames J values).filter fun value => value != ['*'] && value != ['*', '.']

def isHostnameAllowedByPattern (hostname pattern : Text) : Bool :=
  match pattern with
  | '*' :: '.' :: suffix =>
      if suffix.isEmpty || hostname == suffix then false
      else ('.' :: suffix).isSuffixOf hostname
  | _ => hostname == pattern

def matchesHostnameAllowlist (hostname : Text) (allowlist : List Text) : Bool :=
  if allowlist.length = 0 then true
  else allowlist.any fun pattern => isHostnameAllowedByPattern hostname pattern

def BLOCKED_HOSTNAMES : List Text :=
  ["localhost".toList, "localhost.localdomain".toList, "metadata.google.internal".toList]

def isBlockedHostnameNormalized (normalized : Text) : Bool :=
  if BLOCKED_HOSTNAMES.contains normalized then true
  else ".localhost".toList.isSuffixOf normalized || ".local".toList.isSuffixOf normalized ||
    ".internal".toList.isSuffixOf normalized

end Hostnames

section Addresses

variable (J : LowerCase) (L : IpaddrJs)

def resolveIpv4SpecialUseBlockOptions (policy : SsrFPolicy) : Ipv4SpecialUseBlockOptions :=
  ⟨policy.allowRfc2544BenchmarkRange⟩

def resolveIpv6SpecialUseBlockOptions (policy : SsrFPolicy) : Ipv6SpecialUseBlockOptions :=
  ⟨policy.allowIpv6UniqueLocalRange⟩

/-- Four parts at most, each a number or with the prefix of one, or an empty part. -/
def looksLikeUnsupportedIpv4Literal (address : Text) : Bool :=
  let parts := address.splitOn '.'
  if parts.length = 0 || 4 < parts.length then false
  else if parts.any List.isEmpty then true
  else parts.all fun part => (!part.isEmpty && part.all Char.isDigit) ||
    match part with
    | '0' :: x :: _ => x == 'x' || x == 'X'
    | _ => false

/-- The verdict on a canonical literal. -/
def isPrivateParsed (parsed : ParsedIpAddress) (policy : SsrFPolicy) : Bool :=
  match parsed with
  | .ipv4 a => isBlockedSpecialUseIpv4Address L a (resolveIpv4SpecialUseBlockOptions policy)
  | .ipv6 x =>
      if isBlockedSpecialUseIpv6Address L x (resolveIpv6SpecialUseBlockOptions policy) then true
      else
        match extractEmbeddedIpv4FromIpv6 L x with
        | some embedded =>
            isBlockedSpecialUseIpv4Address L embedded (resolveIpv4SpecialUseBlockOptions policy)
        | none => false

def isPrivateIpAddress (address : Text) (policy : SsrFPolicy) : Bool :=
  let normalized := normalizeHostname J address
  if normalized.isEmpty then false
  else
    match parseCanonicalIpAddress L normalized with
    | some strictIp => isPrivateParsed L strictIp policy
    | none =>
        if normalized.contains ':' && (parseLooseIpAddress L normalized).isNone then true
        else if !isCanonicalDottedDecimalIPv4 L normalized && isLegacyIpv4Literal L normalized then
          true
        else looksLikeUnsupportedIpv4Literal normalized

def isBlockedHostnameOrIp (hostname : Text) (policy : SsrFPolicy) : Bool :=
  let normalized := normalizeHostname J hostname
  if normalized.isEmpty then false
  else isBlockedHostnameNormalized normalized || isPrivateIpAddress J L normalized policy

end Addresses

end OpenClaw.NetPolicy
