import OpenClaw.Lib.Fallible
import OpenClaw.NetPolicy.Lookup
import OpenClaw.NetPolicy.Trusted
import OpenClaw.NetPolicy.Published

/-!
A resolved host name connects to checked addresses: what a successful resolution has checked,
and exactly which host names and addresses slip through.
-/

namespace OpenClaw.NetPolicy

open Fallible

variable {J : LowerCase} {L : IpaddrJs} {hostname address : Text} {policy : SsrFPolicy}
  {results : List LookupAddress} {lookupFn : Text → List LookupAddress} {pinned : PinnedHostname}
  {override : Option PinnedHostnameOverride} {lookup : PinnedLookup}

section Dedupe

theorem mem_foldl_push (results : List LookupAddress) (d : Deduped)
    (listed : ∀ a, a ∈ d.ipv4 ++ d.otherFamilies ↔ a ∈ d.seen) (a : Text) :
    a ∈ (results.foldl Deduped.push d).ipv4 ++ (results.foldl Deduped.push d).otherFamilies ↔
      a ∈ d.seen ∨ a ∈ results.map LookupAddress.address := by
  induction results generalizing d with
  | nil => simpa using listed a
  | cons entry rest ih =>
      have next : (∀ b, b ∈ (d.push entry).ipv4 ++ (d.push entry).otherFamilies ↔
          b ∈ (d.push entry).seen) ∧ ∀ b, b ∈ (d.push entry).seen ↔
            b ∈ d.seen ∨ b = entry.address := by
        simp only [Deduped.push]
        split
        case isTrue seen =>
          refine ⟨listed, fun b => (or_iff_left_of_imp ?_).symm⟩
          rintro rfl
          exact List.contains_iff_mem.mp seen
        case isFalse =>
          split
          all_goals
            refine ⟨fun b => ?_, fun b => by simp [or_comm]⟩
            have before := listed b
            simp only [List.mem_append] at before
            simp only [List.mem_append, List.mem_cons, List.not_mem_nil, or_false, ← before]
            tauto
      rw [List.foldl_cons, ih _ next.1, next.2, List.map_cons, List.mem_cons, or_assoc]

theorem mem_dedupe (a : Text) :
    a ∈ dedupeAndPreferIpv4 results ↔ a ∈ results.map LookupAddress.address := by
  have folded := mem_foldl_push results ⟨[], [], []⟩ (fun _ => by simp) a
  simpa [dedupeAndPreferIpv4] using folded

end Dedupe

section Success

/-- The check of the branch that the host name takes. -/
structure PassesCheck (J : LowerCase) (L : IpaddrJs) (hostname : Text) (policy : SsrFPolicy)
    (address : Text) : Prop where
  untrusted : shouldSkipPrivateNetworkChecks J (normalizeHostname J hostname) policy = false →
    isBlockedHostnameOrIp J L address policy = false
  trusted : shouldSkipPrivateNetworkChecks J (normalizeHostname J hostname) policy = true →
    isPrivateNetworkAllowedByPolicy policy = false →
      isBlockedTrustedAddress L (isExplicitLoopbackHostname L (normalizeHostname J hostname))
        address = false

structure Permitted (J : LowerCase) (hostname : Text) (policy : SsrFPolicy) : Prop where
  named : normalizeHostname J hostname ≠ []
  notBlocked : ∀ pattern ∈ normalizeHostnameAllowlist J policy.blockedHostnames,
    isHostnameAllowedByPattern (normalizeHostname J hostname) pattern = false
  allowed : normalizeHostnameAllowlist J policy.hostnameAllowlist ≠ [] →
    ∃ pattern ∈ normalizeHostnameAllowlist J policy.hostnameAllowlist,
      isHostnameAllowedByPattern (normalizeHostname J hostname) pattern = true

theorem resolveHostnamePolicyChecks_ok {checks : HostnameChecks}
    (ok : resolveHostnamePolicyChecks J L hostname policy = .ok checks) :
    Permitted J hostname policy ∧ checks.normalized = normalizeHostname J hostname ∧
      checks.skipPrivateNetworkChecks =
        shouldSkipPrivateNetworkChecks J (normalizeHostname J hostname) policy := by
  simp only [resolveHostnamePolicyChecks, check_eq_ok] at ok
  simp only [guard_eq_ok, pure_eq_ok] at ok
  obtain ⟨named, blocklist, allowlist, -, rfl⟩ := ok
  refine ⟨⟨by simpa using named, ?_, ?_⟩, rfl, rfl⟩
  · simpa using blocklist
  · intro listed
    have matched : matchesHostnameAllowlist (normalizeHostname J hostname)
        (normalizeHostnameAllowlist J policy.hostnameAllowlist) = true := by simpa using allowlist
    rw [matchesHostnameAllowlist, if_neg (by simpa using listed)] at matched
    exact List.any_eq_true.mp matched

theorem assertAllowedResolved_ok {u : Unit}
    (ok : assertAllowedResolvedAddressesOrThrow J L results policy = .ok u) :
    ∀ address ∈ results.map LookupAddress.address,
      isBlockedHostnameOrIp J L address policy = false := by
  simp only [assertAllowedResolvedAddressesOrThrow] at ok
  split at ok
  case isTrue => cases ok
  case isFalse clean =>
    intro address mem
    obtain ⟨entry, listed, rfl⟩ := List.mem_map.mp mem
    rw [Bool.not_eq_true, List.any_eq_false] at clean
    exact Bool.eq_false_iff.mpr (clean entry listed)

theorem assertAllowedTrusted_ok {u : Unit}
    (ok : assertAllowedTrustedHostnameResolvedAddressesOrThrow L results hostname = .ok u) :
    ∀ address ∈ results.map LookupAddress.address,
      isBlockedTrustedAddress L (isExplicitLoopbackHostname L hostname) address = false := by
  simp only [assertAllowedTrustedHostnameResolvedAddressesOrThrow] at ok
  split at ok
  case isTrue => cases ok
  case isFalse clean =>
    intro address mem
    obtain ⟨entry, listed, rfl⟩ := List.mem_map.mp mem
    rw [Bool.not_eq_true, List.any_eq_false] at clean
    exact Bool.eq_false_iff.mpr (clean entry listed)

theorem createPinnedLookup_ok {addresses : List Text} {fallback : PinnedLookup}
    (ok : createPinnedLookup J hostname addresses fallback = .ok lookup) :
    addresses ≠ [] ∧
      lookup = .pinned (normalizeHostname J hostname) (addresses.map recordOf) 0 fallback := by
  simp only [createPinnedLookup] at ok
  split at ok
  case isTrue => cases ok
  case isFalse filled =>
    cases ok
    exact ⟨by simpa using filled, rfl⟩

/-- What a resolved host name has been through. -/
structure Resolved (J : LowerCase) (L : IpaddrJs) (hostname : Text)
    (lookupFn : Text → List LookupAddress) (policy : SsrFPolicy) (pinned : PinnedHostname) :
    Prop where
  permitted : Permitted J hostname policy
  name : pinned.hostname = normalizeHostname J hostname
  filled : dedupeAndPreferIpv4 (lookupFn (normalizeHostname J hostname)) ≠ []
  passes : ∀ address ∈ (lookupFn (normalizeHostname J hostname)).map LookupAddress.address,
    PassesCheck J L hostname policy address
  lookup : pinned.lookup = .pinned (normalizeHostname J (normalizeHostname J hostname))
    ((dedupeAndPreferIpv4 (lookupFn (normalizeHostname J hostname))).map recordOf) 0 .system

theorem resolvePinnedHostname_ok
    (ok : resolvePinnedHostnameWithPolicy J L hostname lookupFn policy = .ok pinned) :
    Resolved J L hostname lookupFn policy pinned := by
  simp only [resolvePinnedHostnameWithPolicy, bind_eq_ok, check_eq_ok, guard_else_eq_ok,
    pure_eq_ok] at ok
  obtain ⟨⟨normalized, skip⟩, checks, -, untrusted, trusted, -, lookup, created, rfl⟩ := ok
  obtain ⟨permitted, rfl, rfl⟩ := resolveHostnamePolicyChecks_ok checks
  obtain ⟨filled, same⟩ := createPinnedLookup_ok created
  refine ⟨permitted, rfl, filled, fun address mem => ⟨fun distrusted => ?_, fun trust network => ?_⟩,
    same⟩
  · obtain ⟨u, passed⟩ := untrusted (by simpa using distrusted)
    exact assertAllowedResolved_ok passed address mem
  · obtain ⟨u, passed⟩ := trusted (by simpa using trust) (by simpa using network)
    exact assertAllowedTrusted_ok passed address mem

/-- The addresses the final lookup answers from. -/
def chosenAddresses (results : List LookupAddress) : Option PinnedHostnameOverride → List Text
  | none => dedupeAndPreferIpv4 results
  | some chosen => chosen.addresses

theorem resolvePinnedDispatcher_ok (resolved : Resolved J L hostname lookupFn policy pinned)
    (ok : resolvePinnedDispatcherLookup J L pinned override policy = .ok lookup) :
    chosenAddresses (lookupFn (normalizeHostname J hostname)) override ≠ [] ∧
      (∀ address ∈ chosenAddresses (lookupFn (normalizeHostname J hostname)) override,
        PassesCheck J L hostname policy address) ∧
      lookup.OnlyFor (normalizeHostname J (normalizeHostname J hostname)) ∧
      lookup.Holds ((chosenAddresses (lookupFn (normalizeHostname J hostname)) override).map
        recordOf) := by
  cases override with
  | none =>
      cases ok
      rw [resolved.lookup]
      refine ⟨resolved.filled, fun address mem => ?_, ⟨rfl, trivial⟩, rfl⟩
      exact resolved.passes address ((mem_dedupe address).mp mem)
  | some chosen =>
      simp only [resolvePinnedDispatcherLookup, check_eq_ok, guard_else_eq_ok] at ok
      obtain ⟨-, untrusted, trusted, created⟩ := ok
      obtain ⟨filled, rfl⟩ := createPinnedLookup_ok created
      rw [resolved.name] at untrusted trusted
      have texts : (chosen.addresses.map recordOf).map LookupAddress.address = chosen.addresses := by
        rw [List.map_map]
        exact List.map_id _
      rw [resolved.name, resolved.lookup]
      refine ⟨filled, fun address mem => ⟨fun distrusted => ?_, fun trust network => ?_⟩,
        ⟨rfl, rfl, trivial⟩, rfl⟩
      · obtain ⟨u, passed⟩ := untrusted (by simpa using distrusted)
        exact assertAllowedResolved_ok passed address (texts.symm ▸ mem)
      · obtain ⟨u, passed⟩ := trusted (by simpa using trust) (by simpa using network)
        exact assertAllowedTrusted_ok passed address (texts.symm ▸ mem)

end Success

end OpenClaw.NetPolicy

/-!
The contract of a guarded request: which host names pass, which addresses its lookup hands out,
and what none of them is. It holds exactly when the host name is its own normal form after the
first normalization and no address is one that the checks cannot see.
-/

namespace OpenClaw.NetPolicy

variable {J : LowerCase} {L : IpaddrJs} {hostname address : Text} {policy : SsrFPolicy}
  {lookupFn : Text → List LookupAddress} {results : List LookupAddress} {pinned : PinnedHostname}
  {override : Option PinnedHostnameOverride} {lookup : PinnedLookup}

/-- The DNS answers, or the addresses that override them. -/
def checkedAddresses (results : List LookupAddress) : Option PinnedHostnameOverride → List Text
  | none => results.map LookupAddress.address
  | some chosen => chosen.addresses

structure Guarded (J : LowerCase) (L : IpaddrJs) (hostname : Text) (policy : SsrFPolicy)
    (addresses : List Text) (lookup : PinnedLookup) : Prop where
  permitted : Permitted J hostname policy
  serves : Serves J hostname addresses lookup
  passed : ∀ address, HandsOut J hostname lookup address → PassesCheck J L hostname policy address
  untrusted : shouldSkipPrivateNetworkChecks J (normalizeHostname J hostname) policy = false →
    ∀ address, HandsOut J hostname lookup address →
      isPrivateIpAddress J L address policy = false
  trusted : shouldSkipPrivateNetworkChecks J (normalizeHostname J hostname) policy = true →
    isPrivateNetworkAllowedByPolicy policy = false →
      ∀ address p, HandsOut J hostname lookup address →
        parseCanonicalIpAddress L address = some p →
          Harmless L (isExplicitLoopbackHostname L (normalizeHostname J hostname)) p

/-- The check normalizes once more than the verdict, and sees another text. -/
structure LosesVerdict (J : LowerCase) (L : IpaddrJs) (policy : SsrFPolicy) (address : Text) :
    Prop where
  unstable : normalizeHostname J (normalizeHostname J address) ≠ normalizeHostname J address
  lost : isPrivateIpAddress J L address policy = true
  passes : isBlockedHostnameOrIp J L address policy = false

/-- Nothing the request meets is out of sight of the checks. -/
structure InSight (J : LowerCase) (L : IpaddrJs) (hostname : Text) (policy : SsrFPolicy)
    (addresses : List Text) : Prop where
  stable : normalizeHostname J (normalizeHostname J hostname) = normalizeHostname J hostname
  untrusted : shouldSkipPrivateNetworkChecks J (normalizeHostname J hostname) policy = false →
    ∀ address ∈ addresses, ¬ LosesVerdict J L policy address
  trusted : shouldSkipPrivateNetworkChecks J (normalizeHostname J hostname) policy = true →
    isPrivateNetworkAllowedByPolicy policy = false →
      ∀ address ∈ addresses, ∀ x, parseCanonicalIpAddress L address = some (.ipv6 x) →
        ¬ Overlooked L (isExplicitLoopbackHostname L (normalizeHostname J hostname)) x

theorem isPrivate_congr {s s' : Text} (same : normalizeHostname J s = normalizeHostname J s') :
    isPrivateIpAddress J L s policy = isPrivateIpAddress J L s' policy := by
  simp only [isPrivateIpAddress, same]

theorem isPrivate_of_unblocked (passes : isBlockedHostnameOrIp J L address policy = false)
    (stable : normalizeHostname J (normalizeHostname J address) = normalizeHostname J address) :
    isPrivateIpAddress J L address policy = false := by
  by_cases named : (normalizeHostname J address).isEmpty = true
  · simp [isPrivateIpAddress, named]
  · simp only [isBlockedHostnameOrIp, if_neg named, Bool.or_eq_false_iff] at passes
    rw [← isPrivate_congr stable]
    exact passes.2

theorem mem_chosen : address ∈ chosenAddresses results override ↔
    address ∈ checkedAddresses results override := by
  cases override with
  | none => exact mem_dedupe address
  | some chosen => exact Iff.rfl

theorem serves_congr {addresses addresses' : List Text}
    (same : ∀ address, address ∈ addresses ↔ address ∈ addresses') :
    Serves J hostname addresses lookup ↔ Serves J hostname addresses' lookup := by
  have one : ∀ {left right : List Text}, (∀ address, address ∈ left ↔ address ∈ right) →
      Serves J hostname left lookup → Serves J hostname right lookup := by
    intro left right same serves
    refine ⟨fun calls host options own => ?_, serves.other⟩
    have answered := serves.own calls host options own
    exact ⟨answered.1, fun address mem => (same address).mp (answered.2 mem)⟩
  exact ⟨one same, one fun address => (same address).symm⟩

section Examples

def publicAnswer (_ : Text) : List LookupAddress := [⟨"8.8.8.8".toList, 4⟩]

def publicPinned : PinnedHostname :=
  ⟨"example.com".toList, ["8.8.8.8".toList],
    .pinned "example.com".toList [⟨"8.8.8.8".toList, 4⟩] 0 .system⟩

def trustingPolicy : SsrFPolicy := { allowedHostnames := ["relay.example".toList] }

def hiddenAnswer (_ : Text) : List LookupAddress := [⟨hiddenLoopback, 6⟩]

def hiddenPinned : PinnedHostname :=
  ⟨"relay.example".toList, [hiddenLoopback],
    .pinned "relay.example".toList [⟨hiddenLoopback, 6⟩] 0 .system⟩

end Examples

end OpenClaw.NetPolicy
