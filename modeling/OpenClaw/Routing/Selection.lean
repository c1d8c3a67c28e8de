import OpenClaw.Routing.BindingIndex
import OpenClaw.Routing.Isolation

/-!
The tiers of the index as one order of precedence. A binding has one slot in the index, and a
route whose scope it meets looks into that slot; so the route finds the least binding it meets.
-/

namespace OpenClaw.Routing

open JsUnits

variable {mapping : CaseMapping} {evaluated : EvaluatedBinding} {index : EvaluatedBindingsIndex}
  {scope : BindingScope}

inductive Slot
  | peer (key : ChatType × Text)
  | wildcard
  | guildRoles (id : Text)
  | guild (id : Text)
  | team (id : Text)
  | account
  | channel
  deriving DecidableEq

/-- The place of the slot's tier. -/
def Slot.rank : Slot → Nat
  | peer _ => 0
  | wildcard => 2
  | guildRoles _ => 3
  | guild _ => 4
  | team _ => 5
  | account => 6
  | channel => 7

def NormalizedBindingMatch.slot (matches_ : NormalizedBindingMatch) : Slot :=
  match matches_.peer with
  | .valid kind id => .peer (peerLookupKey kind id)
  | .wildcardKind _ => .wildcard
  | .none | .invalid =>
      match matches_.guildId, matches_.roles, matches_.teamId with
      | some guildId, some _, _ => .guildRoles guildId
      | some guildId, none, _ => .guild guildId
      | none, _, some teamId => .team teamId
      | none, _, none => if matches_.accountPattern ≠ anyAccount then .account else .channel

def EvaluatedBinding.slot (evaluated : EvaluatedBinding) : Slot := evaluated.matches_.slot

def EvaluatedBinding.rank (evaluated : EvaluatedBinding) : Nat := evaluated.slot.rank

def EvaluatedBindingsIndex.at (index : EvaluatedBindingsIndex) : Slot → List EvaluatedBinding
  | .peer key => (index.byPeer.get? key).getD []
  | .wildcard => index.byPeerWildcard
  | .guildRoles id => (index.byGuildWithRoles.get? id).getD []
  | .guild id => (index.byGuild.get? id).getD []
  | .team id => (index.byTeam.get? id).getD []
  | .account => index.byAccount
  | .channel => index.byChannel

theorem get?_pushToIndexMap {κ : Type} [DecidableEq κ] {map : JsMap κ (List EvaluatedBinding)}
    {key other : κ} : ((pushToIndexMap map key evaluated).get? other).getD [] =
      ((map.get? other).getD []) ++ if key = other then [evaluated] else [] := by
  by_cases same : key = other
  · subst same
    simp [pushToIndexMap]
  · simp [pushToIndexMap, JsMap.get?_set_of_ne (Ne.symm same), same]

theorem at_add (slot : Slot) :
    (index.add evaluated).at slot = index.at slot ++ if evaluated.slot = slot then [evaluated] else [] := by
  simp only [EvaluatedBindingsIndex.add, EvaluatedBinding.slot, NormalizedBindingMatch.slot]
  repeat' split
  all_goals cases slot <;>
    simp_all [EvaluatedBindingsIndex.at, get?_pushToIndexMap]

theorem at_build (bindings : List EvaluatedBinding) (slot : Slot) :
    (buildEvaluatedBindingsIndex bindings).at slot =
      bindings.filter fun evaluated => evaluated.slot = slot := by
  suffices general : ∀ index : EvaluatedBindingsIndex,
      (bindings.foldl EvaluatedBindingsIndex.add index).at slot =
        index.at slot ++ bindings.filter fun evaluated => evaluated.slot = slot by
    rw [buildEvaluatedBindingsIndex, general]
    cases slot <;> rfl
  induction bindings with
  | nil => simp
  | cons head rest ih =>
      intro index
      rw [List.foldl_cons, ih, at_add, List.append_assoc, List.filter_cons]
      congr 1
      by_cases here : head.slot = slot <;> simp [here]

/-- What normalizing a match and leaving out the invalid ones ensures. -/
structure Regular (matches_ : NormalizedBindingMatch) : Prop where
  peer : matches_.peer ≠ .invalid
  guild : matches_.guildId ≠ some []
  team : matches_.teamId ≠ some []
  roles : matches_.roles ≠ some []

theorem orNull_ne (value : Text) : orNull value ≠ some [] := by
  rw [orNull]
  split
  case isTrue => nofun
  case isFalse some => exact fun same => some (Option.some.inj same)

theorem normalizeRouteBindingRoles_ne (roles : Option (List Text)) :
    normalizeRouteBindingRoles roles ≠ some [] := by
  rw [normalizeRouteBindingRoles.eq_def]
  split <;> nofun

theorem normalizeRouteBindingRoles_eq {roles : Option (List Text)} (some_ : roles ≠ some []) :
    normalizeRouteBindingRoles roles = roles := by
  cases roles with
  | none => rfl
  | some given =>
      cases given with
      | nil => exact absurd rfl some_
      | cons => rfl

theorem regular_of_mem {place order : Nat} {bindings : List AgentBinding}
    (mem : evaluated ∈ evaluateFrom mapping place order bindings) : Regular evaluated.matches_ := by
  obtain ⟨-, -, same, valid, -⟩ := mem_evaluateFrom mem
  refine ⟨valid, ?_, ?_, ?_⟩ <;> rw [same]
  · exact orNull_ne _
  · exact orNull_ne _
  · exact normalizeRouteBindingRoles_ne _

/-- The slots that a route looks into. -/
def BindingScope.Reaches (scope : BindingScope) : Slot → Prop
  | .peer key => ∃ peer, scope.peer = some peer ∧ peerLookupKey peer.kind peer.id = key
  | .wildcard => scope.peer.isSome = true
  | .guildRoles id => trim scope.guildId = id ∧ id ≠ [] ∧ 0 < scope.memberRoleIds.length
  | .guild id => trim scope.guildId = id ∧ id ≠ []
  | .team id => trim scope.teamId = id ∧ id ≠ []
  | .account | .channel => True

theorem peerLookupKey_eq {kind other : ChatType} {id : Text} (kinds : peerKindMatches kind other = true) :
    peerLookupKey other id = peerLookupKey kind id := by
  revert kinds
  cases kind <;> cases other <;> simp [peerLookupKey, peerKindMatches]

/-- A binding whose scope a route meets is in a slot that the route looks into. -/
theorem reaches_slot {matches_ : NormalizedBindingMatch} (regular : Regular matches_)
    (met : matchesBindingScope matches_ scope = true) : scope.Reaches matches_.slot := by
  obtain ⟨valid, guild, team, some_⟩ := regular
  simp only [matchesBindingScope, routeBindingScopeMatches, Bool.and_eq_true,
    normalizeRouteBindingRoles_eq some_] at met
  obtain ⟨peer, ⟨inGuild, inTeam⟩, hasRole⟩ := met
  obtain ⟨pattern, constraint, guildId, teamId, roles⟩ := matches_
  cases constraint with
  | valid kind id =>
      simp only [Option.any_eq_true, Bool.and_eq_true, decide_eq_true_eq] at peer
      obtain ⟨peer, same, kinds, rfl⟩ := peer
      exact ⟨peer, same, peerLookupKey_eq kinds⟩
  | wildcardKind kind =>
      obtain ⟨peer, same, -⟩ := (Option.any_eq_true _ _).mp peer
      exact Option.isSome_iff_exists.mpr ⟨peer, same⟩
  | invalid => exact absurd rfl valid
  | none =>
      cases guildId with
      | some id =>
          have here : trim scope.guildId = id := (of_decide_eq_true inGuild).symm
          have present : id ≠ [] := fun none => guild (congrArg some none)
          cases roles with
          | none => exact ⟨here, present⟩
          | some given =>
              obtain ⟨role, -, mem⟩ := List.any_eq_true.mp hasRole
              exact ⟨here, present, List.length_pos_of_mem (of_decide_eq_true mem)⟩
      | none =>
          cases teamId with
          | some id =>
              exact ⟨(of_decide_eq_true inTeam).symm, fun none => team (congrArg some none)⟩
          | none =>
              by_cases any : pattern = anyAccount <;>
                simp [NormalizedBindingMatch.slot, any, BindingScope.Reaches]

theorem rank_of_slot {slot slot' : Slot} (reached : scope.Reaches slot) (reached' : scope.Reaches slot')
    (same : slot.rank = slot'.rank) : slot = slot' := by
  cases slot <;> cases slot' <;> simp only [Slot.rank, reduceCtorEq, Nat.reduceEqDiff] at same
  case peer.peer =>
    obtain ⟨peer, here, rfl⟩ := reached
    obtain ⟨peer', here', rfl⟩ := reached'
    obtain rfl := Option.some.inj (here.symm.trans here')
    rfl
  case guildRoles.guildRoles => rw [← reached.1, ← reached'.1]
  case guild.guild => rw [← reached.1, ← reached'.1]
  case team.team => rw [← reached.1, ← reached'.1]
  all_goals rfl

variable {bindings : List EvaluatedBinding}

/-- A tier that looks into a slot finds the first binding of the slot's rank that is met. -/
theorem find?_at (regular : ∀ evaluated ∈ bindings, Regular evaluated.matches_) {slot : Slot}
    (reached : scope.Reaches slot) :
    ((buildEvaluatedBindingsIndex bindings).at slot).find? (fun evaluated =>
        matchesBindingScope evaluated.matches_ scope) =
      bindings.find? fun evaluated =>
        evaluated.rank = slot.rank && matchesBindingScope evaluated.matches_ scope := by
  rw [at_build, List.find?_filter]
  refine List.find?_congr fun evaluated mem => ?_
  cases met : matchesBindingScope evaluated.matches_ scope with
  | false => simp
  | true =>
      have same : evaluated.slot = slot ↔ evaluated.rank = slot.rank :=
        ⟨fun same => congrArg Slot.rank same,
          rank_of_slot (reaches_slot (regular evaluated mem) met) reached⟩
      simp [same]

/-- A tier that the route is not enabled for would find nothing. -/
theorem find?_none (regular : ∀ evaluated ∈ bindings, Regular evaluated.matches_) {rank : Nat}
    (unreached : ∀ slot, scope.Reaches slot → slot.rank ≠ rank) :
    bindings.find? (fun evaluated =>
      evaluated.rank = rank && matchesBindingScope evaluated.matches_ scope) = none := by
  refine List.find?_eq_none.mpr fun evaluated mem both => ?_
  simp only [Bool.and_eq_true, decide_eq_true_eq] at both
  exact unreached _ (reaches_slot (regular evaluated mem) both.2) both.1

theorem matched_peer (regular : ∀ evaluated ∈ bindings, Regular evaluated.matches_) :
    Tier.matched ⟨.bindingPeer, scope.peer.isSome, scope.peer,
        getPeerIndexedBindings (buildEvaluatedBindingsIndex bindings) scope.peer⟩ scope =
      bindings.find? fun evaluated =>
        evaluated.rank = 0 && matchesBindingScope evaluated.matches_ scope := by
  cases peer : scope.peer with
  | none =>
      rw [find?_none regular]
      · rfl
      · intro slot reached zero
        cases slot <;> simp only [Slot.rank, OfNat.ofNat_ne_zero] at zero
        obtain ⟨other, here, -⟩ := reached
        rw [peer] at here
        nomatch here
  | some known =>
      have found := @find?_at scope bindings regular (.peer (peerLookupKey known.kind known.id))
        ⟨known, peer, rfl⟩
      have same : { scope with peer := some known } = scope := by rw [← peer]
      rw [Tier.matched, Option.isSome_some, if_pos rfl]
      simp only [same]
      exact found

theorem matched_wildcard (regular : ∀ evaluated ∈ bindings, Regular evaluated.matches_) :
    Tier.matched ⟨.bindingPeerWildcard, scope.peer.isSome, scope.peer,
        (buildEvaluatedBindingsIndex bindings).byPeerWildcard⟩ scope =
      bindings.find? fun evaluated =>
        evaluated.rank = 2 && matchesBindingScope evaluated.matches_ scope := by
  rw [Tier.matched]
  split
  case isTrue some => exact @find?_at _ _ regular .wildcard some
  case isFalse none =>
    rw [find?_none regular]
    intro slot reached two
    cases slot <;> simp [Slot.rank] at two
    exact none reached

/-- A tier of the bindings for a guild or a team. -/
theorem matched_keyed (regular : ∀ evaluated ∈ bindings, Regular evaluated.matches_)
    {by_ : MatchedBy} {enabled : Bool} {map : JsMap Text (List EvaluatedBinding)} {id : Text}
    {slot : Text → Slot} (there : (buildEvaluatedBindingsIndex bindings).at (slot id) =
      (map.get? id).getD [])
    (reached : enabled = true → id ≠ [] ∧ scope.Reaches (slot id))
    (unreached : enabled = false → ∀ other, scope.Reaches other → other.rank ≠ (slot id).rank) :
    Tier.matched ⟨by_, enabled, scope.peer, if id = [] then [] else (map.get? id).getD []⟩ scope =
      bindings.find? fun evaluated =>
        evaluated.rank = (slot id).rank && matchesBindingScope evaluated.matches_ scope := by
  cases enabled with
  | true =>
      obtain ⟨some, here⟩ := reached rfl
      rw [Tier.matched, if_pos rfl, if_neg some, ← there]
      exact find?_at regular here
  | false =>
      rw [find?_none regular (unreached rfl)]
      rfl

theorem findSome?_tiers (regular : ∀ evaluated ∈ bindings, Regular evaluated.matches_)
    (guild : trim scope.guildId = scope.guildId) (team : trim scope.teamId = scope.teamId) :
    ((tiers (buildEvaluatedBindingsIndex bindings) scope none).findSome? fun tier =>
        tier.matched scope) =
      [0, 2, 3, 4, 5, 6, 7].findSome? fun rank => bindings.find? fun evaluated =>
        evaluated.rank = rank && matchesBindingScope evaluated.matches_ scope := by
  have guildRoles := @matched_keyed scope bindings regular .bindingGuildRoles
    (scope.guildId ≠ [] && 0 < scope.memberRoleIds.length)
    (buildEvaluatedBindingsIndex bindings).byGuildWithRoles scope.guildId .guildRoles rfl
    (fun on => by
      simp only [Bool.and_eq_true, decide_eq_true_eq] at on
      exact ⟨on.1, guild, on.1, on.2⟩)
    (fun off slot reached three => by
      cases slot <;> simp [Slot.rank] at three
      obtain ⟨rfl, some, roles⟩ := reached
      rw [guild] at some
      simp [some, roles] at off)
  have guildOnly := @matched_keyed scope bindings regular .bindingGuild (scope.guildId ≠ [])
    (buildEvaluatedBindingsIndex bindings).byGuild scope.guildId .guild rfl
    (fun on => ⟨of_decide_eq_true on, guild, of_decide_eq_true on⟩)
    (fun off slot reached four => by
      cases slot <;> simp [Slot.rank] at four
      obtain ⟨rfl, some⟩ := reached
      rw [guild] at some
      exact of_decide_eq_false off some)
  have teamOnly := @matched_keyed scope bindings regular .bindingTeam (scope.teamId ≠ [])
    (buildEvaluatedBindingsIndex bindings).byTeam scope.teamId .team rfl
    (fun on => ⟨of_decide_eq_true on, team, of_decide_eq_true on⟩)
    (fun off slot reached five => by
      cases slot <;> simp [Slot.rank] at five
      obtain ⟨rfl, some⟩ := reached
      rw [team] at some
      exact of_decide_eq_false off some)
  have account : Tier.matched ⟨.bindingAccount, true, scope.peer,
      (buildEvaluatedBindingsIndex bindings).byAccount⟩ scope = bindings.find? fun evaluated =>
        evaluated.rank = 6 && matchesBindingScope evaluated.matches_ scope :=
    @find?_at _ _ regular .account trivial
  have channel : Tier.matched ⟨.bindingChannel, true, scope.peer,
      (buildEvaluatedBindingsIndex bindings).byChannel⟩ scope = bindings.find? fun evaluated =>
        evaluated.rank = 7 && matchesBindingScope evaluated.matches_ scope :=
    @find?_at _ _ regular .channel trivial
  have parent : Tier.matched ⟨.bindingPeerParent, (none : Option RoutePeer).isSome, none,
      getPeerIndexedBindings (buildEvaluatedBindingsIndex bindings) none⟩ scope = none := rfl
  simp only [tiers, Option.filter_none, List.findSome?_cons, List.findSome?_nil, matched_peer regular,
    parent, matched_wildcard regular, guildRoles, guildOnly, teamOnly, account, channel, Slot.rank]
  rfl

theorem rank_mem (evaluated : EvaluatedBinding) : evaluated.rank ∈ [0, 2, 3, 4, 5, 6, 7] := by
  rw [EvaluatedBinding.rank]
  cases evaluated.slot <;> simp [Slot.rank]

/-- Whether a route meets the scope of a binding that is for its channel and account. -/
def EvaluatedBinding.hits (mapping : CaseMapping) (input : ResolveAgentRouteInput)
    (evaluated : EvaluatedBinding) : Bool :=
  evaluated.isFor mapping (normalizeLowercaseStringOrEmpty mapping input.channel)
      (normalizeAccountId mapping input.accountId) &&
    matchesBindingScope evaluated.matches_ (scopeOf input)

/-- The binding of a route is the least that it hits. -/
theorem matchedBinding_eq_some {given : List AgentBinding} {input : ResolveAgentRouteInput}
    (parent : input.parentPeer = none) : matchedBinding mapping given input = some evaluated ↔
      Precedence.Least EvaluatedBinding.rank EvaluatedBinding.order
        (EvaluatedBinding.hits mapping input)
        (evaluateFrom mapping 0 0 (listRouteBindings given)) evaluated := by
  have sorted := (@evaluateFrom_spec mapping 0 0 (listRouteBindings given)).1
  simp only [matchedBinding, getEvaluatedBindings_eq, parent, Option.map_none]
  rw [findSome?_tiers, Precedence.findSome?_eq_some_iff (sorted.filter _) (by decide),
    Precedence.least_filter]
  · rfl
  · exact fun evaluated _ _ => rank_mem evaluated
  · exact fun evaluated mem => regular_of_mem (List.mem_filter.mp mem).1
  · exact trim_trim _
  · exact trim_trim _

end OpenClaw.Routing
