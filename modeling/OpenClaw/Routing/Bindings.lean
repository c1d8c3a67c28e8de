import OpenClaw.Lib.JsCollections
import OpenClaw.Routing.SessionKey

/-!
Which configured binding an inbound route is resolved to. Bindings are evaluated once, put into
buckets by channel and account, and indexed there by the kind of scope they ask for; a route
goes through the tiers of the index in order, and takes the first binding whose scope it meets.
-/

namespace OpenClaw.Routing

open JsUnits

variable (mapping : CaseMapping)

structure BindingPeer where
  kind : Option Text
  id : Option Text

structure AgentBindingMatch where
  channel : Text
  accountId : Option Text
  peer : Option BindingPeer
  guildId : Option Text
  teamId : Option Text
  roles : Option (List Text)

inductive BindingType
  | route
  | acp
  deriving DecidableEq

structure AgentBinding where
  type : BindingType
  agentId : Text
  matches_ : AgentBindingMatch

structure RoutePeer where
  kind : ChatType
  id : Text
  deriving DecidableEq

structure ResolveAgentRouteInput where
  channel : Text
  defaultAgentId : Option Text
  accountId : Option Text
  peer : Option RoutePeer
  parentPeer : Option RoutePeer
  guildId : Option Text
  teamId : Option Text
  memberRoleIds : List Text

def listRouteBindings (bindings : List AgentBinding) : List AgentBinding :=
  bindings.filter fun binding => binding.type = .route

def normalizeRouteBindingId (value : Option Text) : Text := trim (value.getD [])

def normalizeRouteBindingRoles : Option (List Text) → Option (List Text)
  | some (role :: roles) => some (role :: roles)
  | _ => none

def normalizeChatType (raw : Option Text) : Option ChatType :=
  let value := normalizeLowercaseStringOrEmpty mapping (raw.getD [])
  if value = [] then none
  else if value = lit "direct" ∨ value = lit "dm" then some .direct
  else if value = lit "group" then some .group
  else if value = lit "channel" then some .channel
  else none

inductive NormalizedPeerConstraint
  | none
  | invalid
  | wildcardKind (kind : ChatType)
  | valid (kind : ChatType) (id : Text)
  deriving DecidableEq

structure NormalizedBindingMatch where
  accountPattern : Text
  peer : NormalizedPeerConstraint
  guildId : Option Text
  teamId : Option Text
  roles : Option (List Text)

def normalizePeerConstraint : Option BindingPeer → NormalizedPeerConstraint
  | none => .none
  | some peer =>
      let id := normalizeRouteBindingId peer.id
      match normalizeChatType mapping peer.kind with
      | none => .invalid
      | some kind =>
          if id = [] then .invalid else if id = lit "*" then .wildcardKind kind else .valid kind id

/-- `value || null`. -/
def orNull (value : Text) : Option Text := if value = [] then none else some value

def normalizeBindingMatch (match_ : AgentBindingMatch) : NormalizedBindingMatch where
  accountPattern := trim (match_.accountId.getD [])
  peer := normalizePeerConstraint mapping match_.peer
  guildId := orNull (normalizeRouteBindingId match_.guildId)
  teamId := orNull (normalizeRouteBindingId match_.teamId)
  roles := normalizeRouteBindingRoles match_.roles

def anyAccount : Text := lit "*"

/-- The place tells which binding of the list it is. -/
structure EvaluatedBinding where
  place : Nat
  binding : AgentBinding
  matches_ : NormalizedBindingMatch
  order : Nat

structure EvaluatedBindingsByChannel where
  byAccount : JsMap Text (List EvaluatedBinding)
  byAnyAccount : List EvaluatedBinding

def EvaluatedBindingsByChannel.add (bucket : EvaluatedBindingsByChannel) (evaluated : EvaluatedBinding) :
    EvaluatedBindingsByChannel :=
  if evaluated.matches_.accountPattern = anyAccount then
    { bucket with byAnyAccount := bucket.byAnyAccount ++ [evaluated] }
  else
    let accountKey := normalizeAccountId mapping (some evaluated.matches_.accountPattern)
    { bucket with
      byAccount :=
        bucket.byAccount.set accountKey (((bucket.byAccount.get? accountKey).getD []) ++ [evaluated]) }

/-- The loop of `buildEvaluatedBindingsByChannel`, from `order` on; the first binding is at `place`. -/
def buildFrom : Nat → Nat → List AgentBinding → JsMap Text EvaluatedBindingsByChannel →
    JsMap Text EvaluatedBindingsByChannel
  | _, _, [], byChannel => byChannel
  | place, order, binding :: rest, byChannel =>
      let channel := normalizeLowercaseStringOrEmpty mapping binding.matches_.channel
      if channel = [] then buildFrom (place + 1) order rest byChannel
      else
        let matches_ := normalizeBindingMatch mapping binding.matches_
        if matches_.peer = .invalid then buildFrom (place + 1) order rest byChannel
        else
          let bucket := (byChannel.get? channel).getD ⟨.empty, []⟩
          buildFrom (place + 1) (order + 1) rest
            (byChannel.set channel (bucket.add mapping { place, binding, matches_, order }))

def buildEvaluatedBindingsByChannel (bindings : List AgentBinding) :
    JsMap Text EvaluatedBindingsByChannel :=
  buildFrom mapping 0 0 bindings .empty

def mergeEvaluatedBindingsInSourceOrder : List EvaluatedBinding → List EvaluatedBinding →
    List EvaluatedBinding
  | [], anyAccount => anyAccount
  | accountScoped, [] => accountScoped
  | accountBinding :: accountScoped, anyBinding :: anyAccount =>
      if accountBinding.order ≤ anyBinding.order then
        accountBinding ::
          mergeEvaluatedBindingsInSourceOrder accountScoped (anyBinding :: anyAccount)
      else
        anyBinding ::
          mergeEvaluatedBindingsInSourceOrder (accountBinding :: accountScoped) anyAccount

def getEvaluatedBindingsForChannelAccount (bindings : List AgentBinding) (channel accountId : Text) :
    List EvaluatedBinding :=
  let channelBindings := (buildEvaluatedBindingsByChannel mapping bindings).get? channel
  let accountScoped := (channelBindings.bind fun bucket => bucket.byAccount.get? accountId).getD []
  mergeEvaluatedBindingsInSourceOrder accountScoped
    ((channelBindings.map EvaluatedBindingsByChannel.byAnyAccount).getD [])

structure EvaluatedBindingsIndex where
  byPeer : JsMap (ChatType × Text) (List EvaluatedBinding)
  byPeerWildcard : List EvaluatedBinding
  byGuildWithRoles : JsMap Text (List EvaluatedBinding)
  byGuild : JsMap Text (List EvaluatedBinding)
  byTeam : JsMap Text (List EvaluatedBinding)
  byAccount : List EvaluatedBinding
  byChannel : List EvaluatedBinding

def pushToIndexMap {κ : Type} [DecidableEq κ] (map : JsMap κ (List EvaluatedBinding)) (key : κ)
    (binding : EvaluatedBinding) : JsMap κ (List EvaluatedBinding) :=
  map.set key (((map.get? key).getD []) ++ [binding])

/-- Group and channel peers share a bucket; a kind and an id are joined by a colon in the key. -/
def peerLookupKey (kind : ChatType) (id : Text) : ChatType × Text :=
  (if kind = .channel then .group else kind, id)

def EvaluatedBindingsIndex.add (index : EvaluatedBindingsIndex) (binding : EvaluatedBinding) :
    EvaluatedBindingsIndex :=
  match binding.matches_.peer with
  | .valid kind id => { index with byPeer := pushToIndexMap index.byPeer (peerLookupKey kind id) binding }
  | .wildcardKind _ => { index with byPeerWildcard := index.byPeerWildcard ++ [binding] }
  | .none | .invalid =>
      match binding.matches_.guildId, binding.matches_.roles, binding.matches_.teamId with
      | some guildId, some _, _ =>
          { index with byGuildWithRoles := pushToIndexMap index.byGuildWithRoles guildId binding }
      | some guildId, none, _ => { index with byGuild := pushToIndexMap index.byGuild guildId binding }
      | none, _, some teamId => { index with byTeam := pushToIndexMap index.byTeam teamId binding }
      | none, _, none =>
          if binding.matches_.accountPattern ≠ anyAccount then
            { index with byAccount := index.byAccount ++ [binding] }
          else { index with byChannel := index.byChannel ++ [binding] }

def buildEvaluatedBindingsIndex (bindings : List EvaluatedBinding) : EvaluatedBindingsIndex :=
  bindings.foldl EvaluatedBindingsIndex.add ⟨.empty, [], .empty, .empty, .empty, [], []⟩

def peerKindMatches (bindingKind scopeKind : ChatType) : Bool :=
  bindingKind = scopeKind || (bindingKind = .group && scopeKind = .channel) ||
    (bindingKind = .channel && scopeKind = .group)

structure BindingScope where
  peer : Option RoutePeer
  guildId : Text
  teamId : Text
  memberRoleIds : List Text

/-- `scopeIdMatches`; a route has no group space, and no constraint is an empty text. -/
def scopeIdMatches (constraint : Option Text) (exact_ : Text) : Bool :=
  constraint.all fun id => id = trim exact_

def routeBindingScopeMatches (constraint : NormalizedBindingMatch) (scope : BindingScope) : Bool :=
  scopeIdMatches constraint.guildId scope.guildId && scopeIdMatches constraint.teamId scope.teamId &&
    (normalizeRouteBindingRoles constraint.roles).all fun roles =>
      roles.any fun role => role ∈ scope.memberRoleIds

def matchesBindingScope (matches_ : NormalizedBindingMatch) (scope : BindingScope) : Bool :=
  (match matches_.peer with
    | .valid kind id => scope.peer.any fun peer => peerKindMatches kind peer.kind && peer.id = id
    | .wildcardKind kind => scope.peer.any fun peer => peerKindMatches kind peer.kind
    | .none | .invalid => true) && routeBindingScopeMatches matches_ scope

inductive MatchedBy
  | bindingPeer
  | bindingPeerParent
  | bindingPeerWildcard
  | bindingGuildRoles
  | bindingGuild
  | bindingTeam
  | bindingAccount
  | bindingChannel
  deriving DecidableEq

structure Tier where
  matchedBy : MatchedBy
  enabled : Bool
  scopePeer : Option RoutePeer
  candidates : List EvaluatedBinding

def normalizePeer (peer : RoutePeer) : RoutePeer := { peer with id := trim peer.id }

def getPeerIndexedBindings (index : EvaluatedBindingsIndex) (peer : Option RoutePeer) :
    List EvaluatedBinding :=
  (peer.bind fun peer => index.byPeer.get? (peerLookupKey peer.kind peer.id)).getD []

def tiers (index : EvaluatedBindingsIndex) (scope : BindingScope) (parentPeer : Option RoutePeer) :
    List Tier :=
  let peer := scope.peer
  let guild (map : JsMap Text (List EvaluatedBinding)) :=
    if scope.guildId = [] then [] else (map.get? scope.guildId).getD []
  let parent := parentPeer.filter fun peer => peer.id ≠ []
  [⟨.bindingPeer, peer.isSome, peer, getPeerIndexedBindings index peer⟩,
    ⟨.bindingPeerParent, parent.isSome, parent, getPeerIndexedBindings index parentPeer⟩,
    ⟨.bindingPeerWildcard, peer.isSome, peer, index.byPeerWildcard⟩,
    ⟨.bindingGuildRoles, scope.guildId ≠ [] && 0 < scope.memberRoleIds.length, peer,
      guild index.byGuildWithRoles⟩,
    ⟨.bindingGuild, scope.guildId ≠ [], peer, guild index.byGuild⟩,
    ⟨.bindingTeam, scope.teamId ≠ [], peer,
      if scope.teamId = [] then [] else (index.byTeam.get? scope.teamId).getD []⟩,
    ⟨.bindingAccount, true, peer, index.byAccount⟩,
    ⟨.bindingChannel, true, peer, index.byChannel⟩]

def Tier.matched (tier : Tier) (scope : BindingScope) : Option EvaluatedBinding :=
  if tier.enabled then
    tier.candidates.find? fun candidate =>
      matchesBindingScope candidate.matches_ { scope with peer := tier.scopePeer }
  else none

def scopeOf (input : ResolveAgentRouteInput) : BindingScope where
  peer := input.peer.map normalizePeer
  guildId := normalizeRouteBindingId input.guildId
  teamId := normalizeRouteBindingId input.teamId
  memberRoleIds := input.memberRoleIds

/-- The binding that `resolveAgentRoute` finds for a route. -/
def matchedBinding (bindings : List AgentBinding) (input : ResolveAgentRouteInput) :
    Option EvaluatedBinding :=
  let channel := normalizeLowercaseStringOrEmpty mapping input.channel
  let accountId := normalizeAccountId mapping input.accountId
  let evaluated :=
    getEvaluatedBindingsForChannelAccount mapping (listRouteBindings bindings) channel accountId
  let index := buildEvaluatedBindingsIndex evaluated
  (tiers index (scopeOf input) (input.parentPeer.map normalizePeer)).findSome? fun tier =>
    tier.matched (scopeOf input)

end OpenClaw.Routing
