import OpenClaw.Routing.Selection
import OpenClaw.Lib.FixedDigits
import OpenClaw.Lib.KeyedLists

/-!
The audit of the bindings that some group or channel route is resolved to. Each binding is
probed with routes made from its own constraints: where it asks for nothing, the probe has a
sentinel that no binding names, and of the roles it accepts one at a time.
-/

namespace OpenClaw.Routing

open JsUnits

variable (mapping : CaseMapping)

def DEFAULT_AGENT_ID : Text := lit "main"

/-- What the configuration says of agents: their ids, and the one to fall back on. -/
structure AgentRoster where
  ids : List Text
  fallbackSoleAgentId : Option Text

/-- None is an `AgentSelectionRequiredError`. -/
def pickFirstExistingAgentId (roster : AgentRoster) (agentId : Text) : Option Text :=
  let byNormalizedId :=
    (roster.ids.filter fun id => trim id ≠ []).map fun id => normalizeAgentId mapping (trim id)
  let trimmed := trim agentId
  if trimmed = [] then roster.fallbackSoleAgentId.map (normalizeAgentId mapping)
  else
    let normalized := normalizeAgentId mapping trimmed
    if normalized ∈ byNormalizedId then some normalized
    else if normalized = DEFAULT_AGENT_ID then some DEFAULT_AGENT_ID
    else if byNormalizedId = [] then some (normalizeAgentId mapping trimmed)
    else none

/-- The agent of the route that an input is resolved to. -/
def resolveAgentRoute (roster : AgentRoster) (bindings : List AgentBinding)
    (input : ResolveAgentRouteInput) : Option Text :=
  match matchedBinding mapping bindings input with
  | some matched => pickFirstExistingAgentId mapping roster matched.binding.agentId
  | none =>
      let defaultAgentId := normalizeLowercaseStringOrEmpty mapping (input.defaultAgentId.getD [])
      if defaultAgentId ≠ [] then pickFirstExistingAgentId mapping roster defaultAgentId
      else roster.fallbackSoleAgentId.bind (pickFirstExistingAgentId mapping roster)

def usedIds (bindings : List AgentBinding) : List Text :=
  bindings.flatMap fun binding =>
    normalizeAccountId mapping binding.matches_.accountId ::
      ([binding.matches_.peer.bind BindingPeer.id, binding.matches_.guildId,
        binding.matches_.teamId].map normalizeRouteBindingId).filter (· ≠ [])

/-- The loop that looks for an unused id; each pass leaves one used id behind. -/
def sentinelFrom (used : List Text) : Nat → Text → Text
  | 0, sentinel => sentinel
  | passes + 1, sentinel =>
      if sentinel ∈ used then sentinelFrom used passes (sentinel ++ lit "-next") else sentinel

def sentinelOf (bindings : List AgentBinding) : Text :=
  let used := usedIds mapping bindings
  sentinelFrom used used.length (lit "openclaw-audit-route")

def markerForIndex (index : Nat) : Text :=
  lit "audit-binding-" ++
    if index = 0 then [0x30]
    else (Nat.digits 10 index).reverse.map fun digit => (0x30 + digit).toUInt16

/-- The bindings of the probe configuration, from `index` on. -/
def markedFrom (index : Nat) : List AgentBinding → List AgentBinding
  | [] => []
  | binding :: rest =>
      { binding with agentId := markerForIndex index } :: markedFrom (index + 1) rest

/-- The peer of a probe; a binding for direct peers is not probed. -/
def probePeer (sentinel : Text) : NormalizedPeerConstraint → Option RoutePeer
  | .invalid => none
  | .valid kind id => if kind = .direct then none else some ⟨kind, id⟩
  | .wildcardKind kind => if kind = .direct then none else some ⟨kind, sentinel⟩
  | .none => some ⟨.group, sentinel⟩

def probe (sentinel : Text) (binding : AgentBinding) (peer : RoutePeer) (memberRoleIds : List Text) :
    ResolveAgentRouteInput :=
  let matches_ := normalizeBindingMatch mapping binding.matches_
  { channel := binding.matches_.channel
    defaultAgentId := some DEFAULT_AGENT_ID
    accountId := some (if matches_.accountPattern = anyAccount then sentinel else matches_.accountPattern)
    peer := some peer
    parentPeer := none
    guildId := matches_.guildId
    teamId := matches_.teamId
    memberRoleIds }

def roleWitnesses (matches_ : NormalizedBindingMatch) : List (List Text) :=
  (matches_.roles.map fun roles => roles.map fun role => [role]).getD [[]]

def isEffective (bindings : List AgentBinding) (binding : AgentBinding) (index : Nat) : Bool :=
  let matches_ := normalizeBindingMatch mapping binding.matches_
  let sentinel := sentinelOf mapping bindings
  (probePeer sentinel matches_.peer).any fun peer =>
    (roleWitnesses matches_).any fun memberRoleIds =>
      resolveAgentRoute mapping ⟨[], none⟩ (markedFrom 0 bindings)
        (probe mapping sentinel binding peer memberRoleIds) = some (markerForIndex index)

/-- With the places of the bindings among those for routes. -/
def listEffectiveGroupRouteBindings (bindings : List AgentBinding) : List (AgentBinding × Nat) :=
  let routes := listRouteBindings bindings
  routes.zipIdx.filter fun entry => isEffective mapping routes entry.1 entry.2

/-- A route from a group or channel peer without a parent. -/
structure IsGroupRoute (channel : Text) (input : ResolveAgentRouteInput) : Prop where
  channel : normalizeLowercaseStringOrEmpty mapping input.channel =
    normalizeLowercaseStringOrEmpty mapping channel
  peer : ∃ peer, input.peer = some peer ∧ peer.kind ≠ .direct
  parent : input.parentPeer = none

/-- The audit lists a binding exactly if some group or channel route is resolved to it. -/
def AuditExact (bindings : List AgentBinding) : Prop :=
  ∀ binding index, (listRouteBindings bindings)[index]? = some binding →
    ((binding, index) ∈ listEffectiveGroupRouteBindings mapping bindings ↔
      ∃ input, IsGroupRoute mapping binding.matches_.channel input ∧
        ∃ matched, matchedBinding mapping bindings input = some matched ∧ matched.place = index)

end OpenClaw.Routing

/-!
What the audit relies on. Markers stand for the places of the bindings and survive the lookup
of an agent, so the probe configuration tells which binding a route finds. The sentinel is an
id that no binding uses, although as an account id it is cut after sixty-four units.
-/

namespace OpenClaw.Routing

open JsUnits

variable {mapping : CaseMapping} {evaluated : EvaluatedBinding} {text : Text} {index : Nat}

/-- Texts of letters, digits, dashes and underscores are their own lower case. -/
def CaseMapping.KeepsSlugs (mapping : CaseMapping) : Prop :=
  ∀ text : Text, (∀ u ∈ text, isSlugUnit u = true) → mapping.toLowerCase text = text

theorem isSlugUnit_cases {u : UInt16} (slug : isSlugUnit u = true) :
    (0x30 ≤ u.toNat ∧ u.toNat ≤ 0x39) ∨ (0x61 ≤ u.toNat ∧ u.toNat ≤ 0x7A) ∨ u = unit '_' ∨
      u = unit '-' := by
  simpa [isSlugUnit, isDigit, or_assoc] using slug

theorem not_isWhitespace_of_isSlugUnit {u : UInt16} (slug : isSlugUnit u = true) :
    isWhitespace u = false := by
  rcases isSlugUnit_cases slug with digit | letter | rfl | rfl
  · simp [isWhitespace]
    omega
  · simp [isWhitespace]
    omega
  · decide
  · decide

theorem isIdUnit_of_isSlugUnit {u : UInt16} (slug : isSlugUnit u = true) :
    (isIdLetter u || u == unit '_' || u == unit '-') = true := by
  rcases isSlugUnit_cases slug with digit | letter | rfl | rfl
  · simp [isIdLetter, isDigit, digit]
  · simp [isIdLetter, letter]
  · decide
  · decide

theorem trim_of_slug (slugs : ∀ u ∈ text, isSlugUnit u = true) : trim text = text := by
  have front : text.dropWhile isWhitespace = text := by
    cases text with
    | nil => rfl
    | cons u us =>
        refine List.dropWhile_cons_of_neg ?_
        rw [not_isWhitespace_of_isSlugUnit (slugs u List.mem_cons_self)]
        exact Bool.false_ne_true
  rw [trim, front, List.rdropWhile_eq_self_iff]
  intro some
  rw [not_isWhitespace_of_isSlugUnit (slugs _ (List.getLast_mem some))]
  exact Bool.false_ne_true

theorem normalizeLowercase_of_slug (keeps : mapping.KeepsSlugs)
    (slugs : ∀ u ∈ text, isSlugUnit u = true) : normalizeLowercaseStringOrEmpty mapping text = text := by
  simp only [normalizeLowercaseStringOrEmpty, trim_of_slug slugs]
  split
  case isTrue none => exact none.symm
  case isFalse => exact keeps text slugs

theorem isValidId_of_slug {u : UInt16} {us : Text} (first : isIdLetter u = true)
    (slugs : ∀ v ∈ us, isSlugUnit v = true) (short : us.length ≤ 63) : isValidId (u :: us) = true := by
  rw [isValidId, first, decide_eq_true short, Bool.true_and, Bool.true_and, List.all_eq_true]
  exact fun v mem => isIdUnit_of_isSlugUnit (slugs v mem)

/-- An id in its canonical form is normalized to itself. -/
theorem normalizeAgentId_of_slug (keeps : mapping.KeepsSlugs) {u : UInt16} {us : Text}
    (first : isIdLetter u = true) (slugs : ∀ v ∈ u :: us, isSlugUnit v = true)
    (short : us.length ≤ 63) : normalizeAgentId mapping (u :: us) = u :: us := by
  have valid := isValidId_of_slug first (fun v mem => slugs v (List.mem_cons_of_mem _ mem)) short
  rw [normalizeAgentId, normalizeAgentIdStrict]
  simp only [trim_of_slug slugs, valid, if_true, normalizeLowercase_of_slug keeps slugs,
    Option.getD_some]

def indexDigits (index : Nat) : Text :=
  if index = 0 then [0x30]
  else (Nat.digits 10 index).reverse.map fun digit => (0x30 + digit).toUInt16

theorem toNat_digit {digit : Nat} (below : digit < 10) :
    (0x30 + digit).toUInt16.toNat = 0x30 + digit ∧ isSlugUnit (0x30 + digit).toUInt16 = true := by
  interval_cases digit <;> decide

theorem indexDigits_slug : ∀ u ∈ indexDigits index, isSlugUnit u = true := by
  rw [indexDigits]
  split
  · exact List.all_eq_true.mp (by decide)
  · intro u mem
    obtain ⟨digit, inside, rfl⟩ := List.mem_map.mp mem
    exact (toNat_digit (Nat.digits_lt_base (by decide) (List.mem_reverse.mp inside))).2

theorem ofDigits_indexDigits (index : Nat) :
    Nat.ofDigits 10 ((indexDigits index).reverse.map fun u => u.toNat - 0x30) = index := by
  rw [indexDigits]
  split
  case isTrue zero =>
    rw [zero]
    rfl
  case isFalse =>
    rw [← List.map_reverse, List.reverse_reverse, List.map_map]
    have same : ∀ digit ∈ Nat.digits 10 index,
        ((fun u : UInt16 => u.toNat - 0x30) ∘ fun digit => (0x30 + digit).toUInt16) digit = digit := by
      intro digit mem
      rw [Function.comp_apply, (toNat_digit (Nat.digits_lt_base (by decide) mem)).1]
      omega
    rw [List.map_congr_left same, List.map_id', Nat.ofDigits_digits]

theorem indexDigits_injective : Function.Injective indexDigits := fun left right same => by
  rw [← ofDigits_indexDigits left, same, ofDigits_indexDigits]

theorem length_indexDigits (below : index < 2 ^ 32) : (indexDigits index).length ≤ 10 := by
  rw [indexDigits]
  split
  · decide
  · rw [List.length_map, List.length_reverse]
    exact (Nat.digits_length_le_iff (by decide) index).mpr (by omega)

theorem markerForIndex_injective : Function.Injective markerForIndex := fun _ _ same =>
  indexDigits_injective (List.append_cancel_left same)

theorem markerForIndex_ne (index : Nat) : markerForIndex index ≠ DEFAULT_AGENT_ID := fun same => by
  have first := congrArg List.head? same
  rw [markerForIndex, List.head?_append_of_ne_nil _ (by decide)] at first
  exact absurd first (by decide)

theorem markerForIndex_slug : ∀ u ∈ markerForIndex index, isSlugUnit u = true := by
  intro u mem
  rcases List.mem_append.mp mem with front | digits
  · exact List.all_eq_true.mp (by decide : (lit "audit-binding-").all isSlugUnit = true) u front
  · exact indexDigits_slug u digits

theorem pick_marker (keeps : mapping.KeepsSlugs) (below : index < 2 ^ 32) :
    pickFirstExistingAgentId mapping ⟨[], none⟩ (markerForIndex index) =
      some (markerForIndex index) := by
  have normal : normalizeAgentId mapping (markerForIndex index) = markerForIndex index := by
    refine @normalizeAgentId_of_slug _ keeps (unit 'a') (lit "udit-binding-" ++ indexDigits index)
      (by decide) markerForIndex_slug ?_
    have digits := length_indexDigits below
    rw [List.length_append]
    exact (Nat.add_le_add_left digits _).trans (by decide)
  have some : markerForIndex index ≠ [] := fun none => by simp [markerForIndex] at none; exact absurd none.1 (by decide)
  rw [pickFirstExistingAgentId]
  simp only [trim_of_slug markerForIndex_slug, some, normal, markerForIndex_ne index, if_false,
    List.filter_nil, List.map_nil, List.not_mem_nil, if_true]

theorem pick_default (keeps : mapping.KeepsSlugs) :
    pickFirstExistingAgentId mapping ⟨[], none⟩ DEFAULT_AGENT_ID = some DEFAULT_AGENT_ID := by
  have slugs : ∀ u ∈ DEFAULT_AGENT_ID, isSlugUnit u = true := List.all_eq_true.mp (by decide)
  have normal : normalizeAgentId mapping DEFAULT_AGENT_ID = DEFAULT_AGENT_ID :=
    @normalizeAgentId_of_slug _ keeps (unit 'm') (lit "ain") (by decide) slugs (by decide)
  rw [pickFirstExistingAgentId]
  simp only [trim_of_slug slugs, normal, show DEFAULT_AGENT_ID ≠ [] by decide, if_false,
    List.filter_nil, List.map_nil, List.not_mem_nil, if_true]

theorem sentinelFrom_notMem {used : List Text} {passes : Nat} {sentinel : Text}
    (enough : used.countP (fun id => sentinel.length ≤ id.length) ≤ passes) :
    sentinelFrom used passes sentinel ∉ used := by
  induction passes generalizing sentinel with
  | zero =>
      intro mem
      have counted : 0 < used.countP fun id => sentinel.length ≤ id.length :=
        List.countP_pos_iff.mpr ⟨sentinel, mem, decide_eq_true le_rfl⟩
      omega
  | succ passes ih =>
      rw [sentinelFrom]
      split
      case isFalse fresh => exact fresh
      case isTrue mem =>
        refine ih ?_
        have longer : sentinel.length < (sentinel ++ lit "-next").length := by
          rw [List.length_append]
          exact Nat.lt_add_of_pos_right (by decide)
        have fewer := @List.countP_lt_countP _ used
          (fun id => (sentinel ++ lit "-next").length ≤ id.length) (fun id => sentinel.length ≤ id.length)
          (fun id _ => by simp only [decide_eq_true_eq]; omega) sentinel mem (decide_eq_true le_rfl)
          (decide_eq_false (by omega))
        omega

theorem sentinelFrom_slug {used : List Text} {passes : Nat} {sentinel : Text}
    (slugs : ∀ u ∈ sentinel, isSlugUnit u = true) :
    ∀ u ∈ sentinelFrom used passes sentinel, isSlugUnit u = true := by
  induction passes generalizing sentinel with
  | zero => exact slugs
  | succ passes ih =>
      rw [sentinelFrom]
      split
      case isFalse => exact slugs
      case isTrue =>
        refine ih fun u mem => ?_
        rcases List.mem_append.mp mem with front | back
        · exact slugs u front
        · exact List.all_eq_true.mp (by decide : (lit "-next").all isSlugUnit = true) u back

theorem sentinelOf_notMem (bindings : List AgentBinding) :
    sentinelOf mapping bindings ∉ usedIds mapping bindings :=
  sentinelFrom_notMem List.countP_le_length

theorem trim_sentinelOf (bindings : List AgentBinding) :
    trim (sentinelOf mapping bindings) = sentinelOf mapping bindings :=
  trim_of_slug (sentinelFrom_slug (List.all_eq_true.mp (by decide)))

end OpenClaw.Routing
