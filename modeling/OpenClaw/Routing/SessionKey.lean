import OpenClaw.Lib.JsUnits

/-!
Session keys of an agent: its main key, and the key of a direct, group or channel peer
under the configured scopes. Keys are colon-joined texts whose components are
normalized; a direct peer that an identity link declares is written under the
canonical name of that link.
-/

namespace OpenClaw.Routing

open JsUnits

/-- `String.prototype.toLowerCase`, which never empties a text. -/
structure CaseMapping where
  toLowerCase : Text → Text
  ne_nil : ∀ text, text ≠ [] → toLowerCase text ≠ []

/-- `String.prototype.trim`. -/
def trim (text : Text) : Text := (text.dropWhile isWhitespace).rdropWhile isWhitespace

variable (mapping : CaseMapping)

def normalizeLowercaseStringOrEmpty (value : Text) : Text :=
  let trimmed := trim value
  if trimmed = [] then [] else mapping.toLowerCase trimmed

def isIdLetter (u : UInt16) : Bool :=
  isDigit u || (0x41 ≤ u.toNat && u.toNat ≤ 0x5A) || (0x61 ≤ u.toNat && u.toNat ≤ 0x7A)

/-- `/^[a-z0-9][a-z0-9_-]{0,63}$/i.test(value)`. -/
def isValidId : Text → Bool
  | [] => false
  | u :: us =>
      isIdLetter u && us.length ≤ 63 && us.all fun v => isIdLetter v || v == unit '_' || v == unit '-'

/-- The class `[a-z0-9_-]`. -/
def isSlugUnit (u : UInt16) : Bool :=
  isDigit u || (0x61 ≤ u.toNat && u.toNat ≤ 0x7A) || u == unit '_' || u == unit '-'

/-- `replace(/[^a-z0-9_-]+/g, "-")`, inside or outside a run of other characters. -/
def replaceInvalidChars (inRun : Bool) : Text → Text
  | [] => []
  | u :: us =>
      if isSlugUnit u then u :: replaceInvalidChars false us
      else if inRun then replaceInvalidChars true us
      else unit '-' :: replaceInvalidChars true us

def isDash (u : UInt16) : Bool := u == unit '-'

def slug (normalized : Text) : Text :=
  (((replaceInvalidChars false normalized).dropWhile isDash).rdropWhile isDash).take 64

def normalizeAgentIdStrict (value : Text) : Option Text :=
  let trimmed := trim value
  let normalized := normalizeLowercaseStringOrEmpty mapping trimmed
  if isValidId trimmed then some normalized
  else
    let agentId := slug normalized
    if agentId = [] then none else some agentId

def normalizeAgentId (value : Text) : Text :=
  (normalizeAgentIdStrict mapping value).getD (lit "main")

def DEFAULT_ACCOUNT_ID : Text := lit "default"

def isBlockedObjectKey (key : Text) : Bool :=
  key ∈ [lit "__proto__", lit "prototype", lit "constructor"]

def canonicalizeAccountId (value : Text) : Text :=
  let normalized := normalizeLowercaseStringOrEmpty mapping value
  if isValidId value then normalized else slug normalized

def normalizeCanonicalAccountId (value : Text) : Option Text :=
  let canonical := canonicalizeAccountId mapping value
  if canonical = [] || isBlockedObjectKey canonical then none else some canonical

def normalizeAccountId (value : Option Text) : Text :=
  let trimmed := trim (value.getD [])
  if trimmed = [] then DEFAULT_ACCOUNT_ID
  else (normalizeCanonicalAccountId mapping trimmed).getD DEFAULT_ACCOUNT_ID

def DEFAULT_MAIN_KEY : Text := lit "main"

def orElse (text fallback : Text) : Text := if text = [] then fallback else text

def normalizeMainKey (value : Option Text) : Text :=
  orElse (normalizeLowercaseStringOrEmpty mapping (value.getD [])) DEFAULT_MAIN_KEY

inductive ChatType where
  | direct
  | group
  | channel
  deriving DecidableEq

def ChatType.text : ChatType → Text
  | .direct => lit "direct"
  | .group => lit "group"
  | .channel => lit "channel"

structure CasePreservingPeerDescriptor where
  channel : Text
  peerKinds : List Text

def CASE_PRESERVING_PEERS : List CasePreservingPeerDescriptor :=
  [⟨lit "signal", [lit "group"]⟩, ⟨lit "matrix", [lit "channel", lit "group"]⟩]

def findCasePreservingPeerDescriptor (channel : Text) (peerKind : ChatType) :
    Option CasePreservingPeerDescriptor :=
  CASE_PRESERVING_PEERS.find? fun d =>
    d.channel = normalizeLowercaseStringOrEmpty mapping channel &&
      normalizeLowercaseStringOrEmpty mapping peerKind.text ∈ d.peerKinds

def normalizeSessionPeerId (channel : Text) (peerKind : ChatType) (peerId : Option Text) : Text :=
  let peerId := trim (peerId.getD [])
  if peerId = [] then []
  else if (findCasePreservingPeerDescriptor mapping channel peerKind).isSome then peerId
  else normalizeLowercaseStringOrEmpty mapping peerId

/-- An entry of `identityLinks`; ids that are no array are absent. -/
structure IdentityLink where
  canonical : Text
  ids : Option (List Text)

/-- The raw and the channel-prefixed form in which a link may name a peer. -/
def linkCandidates (channel peerId : Text) : List Text :=
  let channel := normalizeLowercaseStringOrEmpty mapping channel
  [normalizeLowercaseStringOrEmpty mapping peerId,
    if channel = [] then []
    else normalizeLowercaseStringOrEmpty mapping (channel ++ lit ":" ++ peerId)].filter (· ≠ [])

def IdentityLink.declares (link : IdentityLink) (candidates : List Text) : Bool :=
  trim link.canonical ≠ [] && (link.ids.getD []).any fun id =>
    normalizeLowercaseStringOrEmpty mapping id ∈ candidates

/-- `resolveLinkedDirectPeerId`, on the entries in the order of `Object.entries`. -/
def resolveLinkedDirectPeerId (identityLinks : Option (List IdentityLink))
    (channel peerId : Text) : Option Text :=
  match identityLinks with
  | none => none
  | some identityLinks =>
      let peerId := trim peerId
      if peerId = [] then none
      else
        let candidates := linkCandidates mapping channel peerId
        (identityLinks.find? (IdentityLink.declares mapping · candidates)).map fun link =>
          trim link.canonical

inductive DmScope where
  | main
  | perPeer
  | perChannelPeer
  | perAccountChannelPeer
  deriving DecidableEq

inductive GroupScope where
  | main
  | perGroup
  deriving DecidableEq

structure PeerSessionKeyParams where
  agentId : Text
  mainKey : Option Text
  channel : Text
  accountId : Option Text
  peerKind : Option ChatType
  peerId : Option Text
  identityLinks : Option (List IdentityLink)
  dmScope : Option DmScope
  groupScope : Option GroupScope

def buildAgentMainSessionKey (agentId : Text) (mainKey : Option Text) : Text :=
  lit "agent:" ++ normalizeAgentId mapping agentId ++ lit ":" ++ normalizeMainKey mapping mainKey

def buildAgentPeerSessionKey (params : PeerSessionKeyParams) : Text :=
  let agentId := normalizeAgentId mapping params.agentId
  let channel := orElse (normalizeLowercaseStringOrEmpty mapping params.channel) (lit "unknown")
  let mainSessionKey := buildAgentMainSessionKey mapping params.agentId params.mainKey
  match params.peerKind.getD .direct with
  | .direct =>
      let dmScope := params.dmScope.getD .main
      let peerId := trim (params.peerId.getD [])
      let linkedPeerId := if dmScope = .main then none
        else resolveLinkedDirectPeerId mapping params.identityLinks params.channel peerId
      let peerId := normalizeLowercaseStringOrEmpty mapping (linkedPeerId.getD peerId)
      if dmScope = .perAccountChannelPeer ∧ peerId ≠ [] then
        let accountId := normalizeAccountId mapping params.accountId
        lit "agent:" ++ agentId ++ lit ":" ++ channel ++ lit ":" ++ accountId ++ lit ":direct:" ++
          peerId
      else if dmScope = .perChannelPeer ∧ peerId ≠ [] then
        lit "agent:" ++ agentId ++ lit ":" ++ channel ++ lit ":direct:" ++ peerId
      else if dmScope = .perPeer ∧ peerId ≠ [] then
        lit "agent:" ++ agentId ++ lit ":direct:" ++ peerId
      else mainSessionKey
  | peerKind =>
      if params.groupScope = some .main then mainSessionKey
      else
        let peerId := orElse (normalizeSessionPeerId mapping params.channel peerKind params.peerId)
          (lit "unknown")
        lit "agent:" ++ agentId ++ lit ":" ++ channel ++ lit ":" ++ peerKind.text ++ lit ":" ++ peerId

end OpenClaw.Routing
