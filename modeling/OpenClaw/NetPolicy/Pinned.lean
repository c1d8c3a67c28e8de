import OpenClaw.NetPolicy.Embedding

/-!
Pinned host names: the checks before and after name resolution, and the lookup that answers for
the checked host from the checked addresses. A lookup keeps the position of its round robin and
the lookup it falls back to for every other host.
-/

namespace OpenClaw.NetPolicy

structure LookupAddress where
  address : Text
  family : Nat
deriving DecidableEq, Repr

inductive SsrFError
  | error (message : String)
  | blocked (message : String)
deriving DecidableEq, Repr

section Checks

variable (J : LowerCase) (L : IpaddrJs)

def isPrivateNetworkAllowedByPolicy (policy : SsrFPolicy) : Bool :=
  policy.dangerouslyAllowPrivateNetwork || policy.allowPrivateNetwork

def shouldSkipPrivateNetworkChecks (hostname : Text) (policy : SsrFPolicy) : Bool :=
  isPrivateNetworkAllowedByPolicy policy ||
    (normalizePolicyHostnames J policy.allowedHostnames).contains hostname

def BLOCKED_HOST_OR_IP_MESSAGE : String :=
  "Blocked hostname or private/internal/special-use IP address"

def BLOCKED_RESOLVED_IP_MESSAGE : String :=
  "Blocked: resolves to private/internal/special-use IP address"

def blockedHostnameMessage (hostname : String) : String :=
  s!"Domain policy: Blocked hostname (configured blocklist): {hostname}. " ++
    "Try a URL on a different domain or ask the operator to review blockedHostnames."

def notAllowedHostnameMessage (hostname permitted : String) : String :=
  s!"Domain policy: Blocked hostname (not in allowlist): {hostname}. " ++
    s!"Permitted hostname patterns: {permitted}. Try a URL on a permitted domain."

def assertAllowedHostOrIpOrThrow (hostnameOrIp : Text) (policy : SsrFPolicy) :
    Except SsrFError Unit :=
  if isBlockedHostnameOrIp J L hostnameOrIp policy then .error (.blocked BLOCKED_HOST_OR_IP_MESSAGE)
  else .ok ()

structure HostnameChecks where
  normalized : Text
  skipPrivateNetworkChecks : Bool

def resolveHostnamePolicyChecks (hostname : Text) (policy : SsrFPolicy) :
    Except SsrFError HostnameChecks := do
  let normalized := normalizeHostname J hostname
  if normalized.isEmpty then
    throw (.error "Invalid hostname")
  let blockedHostnames := normalizeHostnameAllowlist J policy.blockedHostnames
  if blockedHostnames.any fun pattern => isHostnameAllowedByPattern normalized pattern then
    throw (.blocked (blockedHostnameMessage (String.ofList hostname)))
  let hostnameAllowlist := normalizeHostnameAllowlist J policy.hostnameAllowlist
  if !matchesHostnameAllowlist normalized hostnameAllowlist then
    throw (.blocked (notAllowedHostnameMessage (String.ofList hostname)
      (String.intercalate ", " (hostnameAllowlist.map String.ofList))))
  let skipPrivateNetworkChecks := shouldSkipPrivateNetworkChecks J normalized policy
  if !skipPrivateNetworkChecks then
    assertAllowedHostOrIpOrThrow J L normalized policy
  return ⟨normalized, skipPrivateNetworkChecks⟩

def assertAllowedResolvedAddressesOrThrow (results : List LookupAddress) (policy : SsrFPolicy) :
    Except SsrFError Unit :=
  if results.any fun entry => isBlockedHostnameOrIp J L entry.address policy then
    .error (.blocked BLOCKED_RESOLVED_IP_MESSAGE)
  else .ok ()

def isLoopbackIpAddressIncludingEmbeddedIpv4 (address : Text) : Bool :=
  if isLoopbackIpAddress L address then true
  else
    match parseCanonicalIpAddress L address with
    | some (.ipv6 x) => (extractEmbeddedIpv4FromIpv6 L x).map L.range4 == some .loopback
    | _ => false

def isUnspecifiedIpAddressIncludingEmbeddedIpv4 (address : Text) : Bool :=
  match parseCanonicalIpAddress L address with
  | none => false
  | some (.ipv4 a) => L.range4 a == .unspecified
  | some (.ipv6 x) =>
      if L.range6 x == .unspecified then true
      else if L.range6 x == .loopback then false
      else (extractEmbeddedIpv4FromIpv6 L x).map L.range4 == some .unspecified

def isBlockedTrustedResolvedIpv6Address (address : Text) : Bool :=
  match parseCanonicalIpAddress L address with
  | some (.ipv6 x) =>
      if L.range6 x != .unicast && L.range6 x != .rfc6052 then false
      else isBlockedSpecialUseIpv6Address L x ⟨false⟩
  | _ => false

def isExplicitLoopbackHostname (hostname : Text) : Bool :=
  hostname == "localhost".toList || hostname == "localhost.localdomain".toList ||
    ".localhost".toList.isSuffixOf hostname || isLoopbackIpAddressIncludingEmbeddedIpv4 L hostname

def isBlockedTrustedAddress (isLoopbackAllowed : Bool) (address : Text) : Bool :=
  isUnspecifiedIpAddressIncludingEmbeddedIpv4 L address ||
    (!isLoopbackAllowed && isLoopbackIpAddressIncludingEmbeddedIpv4 L address) ||
    isBlockedTrustedResolvedIpv6Address L address || isLinkLocalIpAddress L address ||
    isCloudMetadataIpAddress L address

def assertAllowedTrustedHostnameResolvedAddressesOrThrow (results : List LookupAddress)
    (hostname : Text) : Except SsrFError Unit :=
  if results.any fun entry =>
      isBlockedTrustedAddress L (isExplicitLoopbackHostname L hostname) entry.address then
    .error (.blocked BLOCKED_RESOLVED_IP_MESSAGE)
  else .ok ()

end Checks

section Lookup

/-- `dnsLookupCb`, or a pinned lookup before the given one. -/
inductive PinnedLookup
  | system
  | pinned (normalizedHost : Text) (records : List LookupAddress) (index : Nat)
      (fallback : PinnedLookup)
deriving DecidableEq, Repr

/-- The second argument of a lookup: none, a family, or an object. -/
inductive LookupOptions
  | callback
  | family (requested : Int)
  | object (all : Bool) (family : Option Int)
deriving DecidableEq, Repr

def LookupOptions.requestedFamily : LookupOptions → Int
  | .callback => 0
  | .family inet => inet
  | .object _ requested => requested.getD 0

def LookupOptions.all : LookupOptions → Bool
  | .object all _ => all
  | _ => false

inductive Answer
  | resolver (host : Text) (options : LookupOptions)
  | all (records : List LookupAddress)
  | one (record : LookupAddress)
  | throws
deriving DecidableEq, Repr

def Answer.addresses : Answer → List Text
  | .all records => records.map LookupAddress.address
  | .one record => [record.address]
  | _ => []

def recordOf (address : Text) : LookupAddress := ⟨address, if address.contains ':' then 6 else 4⟩

variable (J : LowerCase)

def createPinnedLookup (hostname : Text) (addresses : List Text) (fallback : PinnedLookup) :
    Except SsrFError PinnedLookup :=
  if addresses.length = 0 then
    .error (.error ("Pinned lookup requires at least one address for " ++ String.ofList hostname))
  else .ok (.pinned (normalizeHostname J hostname) (addresses.map recordOf) 0 fallback)

def automaticRecords (records : List LookupAddress) : List LookupAddress :=
  let ipv4Records := records.filter fun entry => entry.family == 4
  if 0 < ipv4Records.length then ipv4Records else records

def usableRecords (records : List LookupAddress) (requestedFamily : Int) : List LookupAddress :=
  let candidates :=
    if requestedFamily = 4 ∨ requestedFamily = 6 then
      records.filter fun entry => (entry.family : Int) == requestedFamily
    else automaticRecords records
  if 0 < candidates.length then candidates else automaticRecords records

/-- One call, and the lookup after it. -/
def PinnedLookup.call : PinnedLookup → Text → LookupOptions → Answer × PinnedLookup
  | .system, host, options => (.resolver host options, .system)
  | .pinned normalizedHost records index fallback, host, options =>
      let normalized := normalizeHostname J host
      if normalized.isEmpty || normalized != normalizedHost then
        let asked := fallback.call host options
        (asked.1, .pinned normalizedHost records index asked.2)
      else
        let usable := usableRecords records options.requestedFamily
        if options.all then (.all usable, .pinned normalizedHost records index fallback)
        else
          match usable[index % usable.length]? with
          | some chosen => (.one chosen, .pinned normalizedHost records (index + 1) fallback)
          | none => (.throws, .pinned normalizedHost records index fallback)

def PinnedLookup.run (lookup : PinnedLookup) (calls : List (Text × LookupOptions)) : PinnedLookup :=
  calls.foldl (fun lookup call => (lookup.call J call.1 call.2).2) lookup

end Lookup

section Resolution

structure PinnedHostname where
  hostname : Text
  addresses : List Text
  lookup : PinnedLookup

structure PinnedHostnameOverride where
  hostname : Text
  addresses : List Text

/-- The accumulator of `dedupeAndPreferIpv4`. -/
structure Deduped where
  seen : List Text
  ipv4 : List Text
  otherFamilies : List Text

def Deduped.push (d : Deduped) (entry : LookupAddress) : Deduped :=
  if d.seen.contains entry.address then d
  else if entry.family = 4 then
    ⟨entry.address :: d.seen, d.ipv4 ++ [entry.address], d.otherFamilies⟩
  else ⟨entry.address :: d.seen, d.ipv4, d.otherFamilies ++ [entry.address]⟩

def dedupeAndPreferIpv4 (results : List LookupAddress) : List Text :=
  let deduped := results.foldl Deduped.push ⟨[], [], []⟩
  deduped.ipv4 ++ deduped.otherFamilies

variable (J : LowerCase) (L : IpaddrJs)

def resolvePinnedHostnameWithPolicy (hostname : Text) (lookupFn : Text → List LookupAddress)
    (policy : SsrFPolicy) : Except SsrFError PinnedHostname := do
  let checks ← resolveHostnamePolicyChecks J L hostname policy
  let results := lookupFn checks.normalized
  if results.length = 0 then
    throw (.error ("Unable to resolve hostname: " ++ String.ofList hostname))
  if !checks.skipPrivateNetworkChecks then
    assertAllowedResolvedAddressesOrThrow J L results policy
  else if !isPrivateNetworkAllowedByPolicy policy then
    assertAllowedTrustedHostnameResolvedAddressesOrThrow L results checks.normalized
  let addresses := dedupeAndPreferIpv4 results
  if addresses.length = 0 then
    throw (.error ("Unable to resolve hostname: " ++ String.ofList hostname))
  let lookup ← createPinnedLookup J checks.normalized addresses .system
  return ⟨checks.normalized, addresses, lookup⟩

def resolvePinnedDispatcherLookup (pinned : PinnedHostname)
    (override : Option PinnedHostnameOverride) (policy : SsrFPolicy) :
    Except SsrFError PinnedLookup := do
  match override with
  | none => return pinned.lookup
  | some chosen =>
      let normalizedOverrideHost := normalizeHostname J chosen.hostname
      if normalizedOverrideHost.isEmpty || normalizedOverrideHost != pinned.hostname then
        throw (.error ("Pinned dispatcher override hostname mismatch: expected " ++
          String.ofList pinned.hostname ++ ", got " ++ String.ofList chosen.hostname))
      let records := chosen.addresses.map recordOf
      if !shouldSkipPrivateNetworkChecks J pinned.hostname policy then
        assertAllowedResolvedAddressesOrThrow J L records policy
      else if !isPrivateNetworkAllowedByPolicy policy then
        assertAllowedTrustedHostnameResolvedAddressesOrThrow L records pinned.hostname
      createPinnedLookup J pinned.hostname chosen.addresses pinned.lookup

end Resolution

end OpenClaw.NetPolicy
