import OpenClaw.Lib.Occurrence
import OpenClaw.Routing.SessionKey

/-!
Which sessions direct peers share. Under an isolating scope the key of a peer is written
with its name: the canonical name of the first identity link that declares it, or its own
id. Two peers share a session exactly when the separated components and these names agree,
so a peer whose id spells the name of a link enters the session of the linked person.
-/

namespace OpenClaw.Routing

open JsUnits

variable {mapping : CaseMapping}

theorem trim_trim (text : Text) : trim (trim text) = trim text := by
  have inner : (trim text).dropWhile isWhitespace = trim text := by
    have kept : trim text <+: text.dropWhile isWhitespace := List.rdropWhile_prefix _ _
    cases body : trim text with
    | nil => rfl
    | cons u us =>
        obtain ⟨rest, same⟩ := body ▸ kept
        have first : (text.dropWhile isWhitespace).head? = some u := by rw [← same]; rfl
        have visible := List.head?_dropWhile_not isWhitespace text
        rw [first] at visible
        rw [List.dropWhile_cons_of_neg (by simpa using visible)]
  rw [trim, inner]
  exact List.rdropWhile_idempotent _ _

theorem normalizeLowercaseStringOrEmpty_eq_nil {value : Text} :
    normalizeLowercaseStringOrEmpty mapping value = [] ↔ trim value = [] := by
  unfold normalizeLowercaseStringOrEmpty
  dsimp only
  split
  case isTrue blank => exact iff_of_true rfl blank
  case isFalse written => exact iff_of_false (mapping.ne_nil _ written) written

theorem normalizeLowercaseStringOrEmpty_trim (value : Text) :
    normalizeLowercaseStringOrEmpty mapping (trim value) =
      normalizeLowercaseStringOrEmpty mapping value := by
  rw [normalizeLowercaseStringOrEmpty, trim_trim, normalizeLowercaseStringOrEmpty]

/-- What is fixed for all peers of an agent. -/
structure Agent where
  agentId : Text
  mainKey : Option Text
  identityLinks : Option (List IdentityLink)
  dmScope : DmScope

structure DirectPeer where
  channel : Text
  accountId : Option Text
  peerId : Option Text

/-- A group or channel conversation. -/
structure Room where
  channel : Text
  accountId : Option Text
  kind : ChatType
  peerId : Option Text
  shared : kind ≠ .direct

variable (mapping)

def channelName (channel : Text) : Text :=
  orElse (normalizeLowercaseStringOrEmpty mapping channel) (lit "unknown")

namespace DirectPeer

variable (peer : DirectPeer)

def id : Text := trim (peer.peerId.getD [])

def account : Text := normalizeAccountId mapping peer.accountId

end DirectPeer

def Room.id (room : Room) : Text :=
  orElse (normalizeSessionPeerId mapping room.channel room.kind room.peerId) (lit "unknown")

namespace Agent

variable (agent : Agent) (peer other : DirectPeer) (room : Room)

def directKey : Text :=
  buildAgentPeerSessionKey mapping {
    agentId := agent.agentId, mainKey := agent.mainKey, channel := peer.channel
    accountId := peer.accountId, peerKind := some .direct, peerId := peer.peerId
    identityLinks := agent.identityLinks, dmScope := some agent.dmScope
    groupScope := some .perGroup }

def roomKey : Text :=
  buildAgentPeerSessionKey mapping {
    agentId := agent.agentId, mainKey := agent.mainKey, channel := room.channel
    accountId := room.accountId, peerKind := some room.kind, peerId := room.peerId
    identityLinks := agent.identityLinks, dmScope := some agent.dmScope
    groupScope := some .perGroup }

def mainSessionKey : Text := buildAgentMainSessionKey mapping agent.agentId agent.mainKey

def links : List IdentityLink := agent.identityLinks.getD []

/-- The link names the peer, in the raw or the channel-prefixed form. -/
def Declares (link : IdentityLink) : Prop :=
  link ∈ agent.links ∧ peer.id ≠ [] ∧
    link.declares mapping (linkCandidates mapping peer.channel peer.id) = true

def Linked : Prop := ∃ link, agent.Declares mapping peer link

/-- The components that the scope separates. -/
def SameComponents : Prop :=
  match agent.dmScope with
  | .main | .perPeer => True
  | .perChannelPeer => channelName mapping peer.channel = channelName mapping other.channel
  | .perAccountChannelPeer =>
      channelName mapping peer.channel = channelName mapping other.channel ∧
        peer.account mapping = other.account mapping

/-- The isolation that a scope promises to a direct peer, against another one and a room. -/
structure Isolates : Prop where
  direct : agent.directKey mapping peer = agent.directKey mapping other →
    agent.SameComponents mapping peer other ∧
      ((normalizeLowercaseStringOrEmpty mapping peer.id =
          normalizeLowercaseStringOrEmpty mapping other.id ∧
        ¬ agent.Linked mapping peer ∧ ¬ agent.Linked mapping other) ∨
      ∃ link, agent.Declares mapping peer link ∧ agent.Declares mapping other link)
  rooms : agent.directKey mapping peer ≠ agent.roomKey mapping room
  main : agent.directKey mapping peer ≠ agent.mainSessionKey mapping

/-- The first link that declares the peer. -/
def linkOf : Option IdentityLink :=
  if peer.id = [] then none
  else
    agent.links.find? fun link => link.declares mapping (linkCandidates mapping peer.channel peer.id)

/-- The name of a peer in keys: that of its link, or its id. -/
def nameOf : Text :=
  normalizeLowercaseStringOrEmpty mapping
    (((agent.linkOf mapping peer).map IdentityLink.canonical).getD peer.id)

/-- What an isolating scope writes behind the agent. -/
def directSuffix : Text :=
  match agent.dmScope with
  | .main => normalizeMainKey mapping agent.mainKey
  | .perPeer => lit "direct:" ++ agent.nameOf mapping peer
  | .perChannelPeer =>
      channelName mapping peer.channel ++ lit ":direct:" ++ agent.nameOf mapping peer
  | .perAccountChannelPeer =>
      channelName mapping peer.channel ++ lit ":" ++ peer.account mapping ++ lit ":direct:" ++
        agent.nameOf mapping peer

/-- A room whose channel or id is spelled like the head of a direct key. -/
def RoomSpellsDirect : Prop :=
  match agent.dmScope with
  | .main | .perChannelPeer => False
  | .perPeer =>
      channelName mapping room.channel = lit "direct" ∧
        agent.nameOf mapping peer = room.kind.text ++ lit ":" ++ room.id mapping
  | .perAccountChannelPeer =>
      channelName mapping peer.channel = channelName mapping room.channel ∧
        peer.account mapping = room.kind.text ∧
        room.id mapping = lit "direct:" ++ agent.nameOf mapping peer

/-- Where a link is involved, a common name has a common link. -/
def NamesApart : Prop :=
  match agent.linkOf mapping peer, agent.linkOf mapping other with
  | none, none => True
  | some link, none => normalizeLowercaseStringOrEmpty mapping link.canonical ≠
      normalizeLowercaseStringOrEmpty mapping other.id
  | none, some link => normalizeLowercaseStringOrEmpty mapping peer.id ≠
      normalizeLowercaseStringOrEmpty mapping link.canonical
  | some link, some link' =>
      normalizeLowercaseStringOrEmpty mapping link.canonical =
          normalizeLowercaseStringOrEmpty mapping link'.canonical →
        ∃ shared, agent.Declares mapping peer shared ∧ agent.Declares mapping other shared

/-- No id, link name, main key or room is spelled so that it reads as another's session. -/
structure Apart : Prop where
  named : peer.id ≠ []
  main : normalizeMainKey mapping agent.mainKey ≠ agent.directSuffix mapping peer
  room : ¬ agent.RoomSpellsDirect mapping peer room
  names : other.id ≠ [] → agent.SameComponents mapping peer other →
    agent.NamesApart mapping peer other

/-- The components that the program keeps free of colons. -/
structure ColonFree : Prop where
  channels : ∀ channel ∈ [peer.channel, other.channel, room.channel],
    unit ':' ∉ channelName mapping channel
  accounts : ∀ direct ∈ [peer, other], unit ':' ∉ direct.account mapping

variable {mapping agent peer other room}

theorem linkOf_eq_none : agent.linkOf mapping peer = none ↔ ¬ agent.Linked mapping peer := by
  unfold linkOf Linked Declares
  split
  case isTrue unnamed => exact iff_of_true rfl fun ⟨_, _, named, _⟩ => named unnamed
  case isFalse named =>
    rw [List.find?_eq_none, not_exists]
    exact forall_congr' fun link => ⟨fun none ⟨mem, _, found⟩ => none mem found,
      fun none mem found => none ⟨mem, named, found⟩⟩

theorem declares_of_linkOf {link : IdentityLink} (first : agent.linkOf mapping peer = some link) :
    agent.Declares mapping peer link := by
  unfold linkOf at first
  split at first
  case isTrue => exact absurd first (by simp)
  case isFalse named =>
    refine ⟨List.mem_of_find?_eq_some first, named, ?_⟩
    simpa only using List.find?_some first

theorem Declares.named_link {link : IdentityLink} (declared : agent.Declares mapping peer link) :
    trim link.canonical ≠ [] := by
  have found := declared.2.2
  unfold IdentityLink.declares at found
  rw [Bool.and_eq_true, decide_eq_true_eq] at found
  exact found.1

theorem nameOf_eq_nil : agent.nameOf mapping peer = [] ↔ peer.id = [] := by
  rw [nameOf, normalizeLowercaseStringOrEmpty_eq_nil]
  cases first : agent.linkOf mapping peer with
  | none => rw [Option.map_none, Option.getD_none, DirectPeer.id, trim_trim]
  | some link =>
      have declared := declares_of_linkOf first
      exact iff_of_false declared.named_link declared.2.1

theorem resolveLinkedDirectPeerId_eq :
    resolveLinkedDirectPeerId mapping agent.identityLinks peer.channel peer.id =
      (agent.linkOf mapping peer).map fun link => trim link.canonical := by
  have trimmed : trim peer.id = peer.id := by rw [DirectPeer.id, trim_trim]
  unfold resolveLinkedDirectPeerId linkOf links
  cases agent.identityLinks with
  | none => simp
  | some links =>
      simp only [trimmed, Option.getD_some]
      split <;> rfl

/-- The agent's part of every key. -/
def keyHead (mapping : CaseMapping) (agent : Agent) : Text :=
  lit "agent:" ++ normalizeAgentId mapping agent.agentId ++ lit ":"

theorem mainSessionKey_eq : agent.mainSessionKey mapping =
    agent.keyHead mapping ++ normalizeMainKey mapping agent.mainKey := rfl

theorem directKey_eq (isolating : agent.dmScope ≠ .main) : agent.directKey mapping peer =
    agent.keyHead mapping ++
      (if peer.id = [] then normalizeMainKey mapping agent.mainKey
        else agent.directSuffix mapping peer) := by
  have name : normalizeLowercaseStringOrEmpty mapping
      ((resolveLinkedDirectPeerId mapping agent.identityLinks peer.channel
        (trim (peer.peerId.getD []))).getD (trim (peer.peerId.getD []))) =
      agent.nameOf mapping peer := by
    change normalizeLowercaseStringOrEmpty mapping
      ((resolveLinkedDirectPeerId mapping agent.identityLinks peer.channel peer.id).getD peer.id) = _
    rw [resolveLinkedDirectPeerId_eq, nameOf]
    cases agent.linkOf mapping peer with
    | none => rfl
    | some link => exact normalizeLowercaseStringOrEmpty_trim _
  have empty : peer.id = [] ↔ agent.nameOf mapping peer = [] := nameOf_eq_nil.symm
  simp only [directKey, buildAgentPeerSessionKey, Option.getD_some, isolating, if_false, name, empty]
  by_cases unnamed : agent.nameOf mapping peer = []
  · simp [unnamed, buildAgentMainSessionKey, keyHead]
  · simp only [unnamed, not_false_eq_true, and_true, if_false, directSuffix, ne_eq]
    cases scope : agent.dmScope with
    | main => exact absurd scope isolating
    | perPeer => simp [keyHead, lit]
    | perChannelPeer => simp [keyHead, channelName]
    | perAccountChannelPeer => simp [keyHead, channelName, DirectPeer.account]

theorem roomKey_eq : agent.roomKey mapping room = agent.keyHead mapping ++
    (channelName mapping room.channel ++ lit ":" ++ room.kind.text ++ lit ":" ++
      room.id mapping) := by
  have shared := room.shared
  simp only [roomKey, buildAgentPeerSessionKey, Option.getD_some]
  cases kind : room.kind with
  | direct => exact absurd kind shared
  | group | channel => simp [keyHead, channelName, Room.id, kind]

theorem colon_split {a b x y : Text} (left : unit ':' ∉ a) (right : unit ':' ∉ b) :
    a ++ (lit ":" ++ x) = b ++ (lit ":" ++ y) ↔ a = b ∧ x = y :=
  Occurrence.append_cons_inj left right

theorem direct_split (x : Text) : lit "direct:" ++ x = lit "direct" ++ (lit ":" ++ x) := rfl

theorem colon_direct_split (x : Text) :
    lit ":direct:" ++ x = lit ":" ++ (lit "direct" ++ (lit ":" ++ x)) := rfl

theorem colon_not_mem_direct : unit ':' ∉ lit "direct" := by decide

theorem colon_not_mem_kind (kind : ChatType) : unit ':' ∉ kind.text := by
  cases kind <;> decide

theorem directSuffix_inj (isolating : agent.dmScope ≠ .main)
    (free : ColonFree mapping peer other room) :
    agent.directSuffix mapping peer = agent.directSuffix mapping other ↔
      agent.SameComponents mapping peer other ∧
        agent.nameOf mapping peer = agent.nameOf mapping other := by
  have here := free.channels peer.channel (by simp)
  have there := free.channels other.channel (by simp)
  have account := free.accounts peer (by simp)
  have account' := free.accounts other (by simp)
  unfold directSuffix SameComponents
  cases scope : agent.dmScope with
  | main => exact absurd scope isolating
  | perPeer => simp only [List.append_cancel_left_eq, true_and]
  | perChannelPeer =>
      simp only [List.append_assoc, colon_direct_split, colon_split here there,
        List.append_cancel_left_eq]
  | perAccountChannelPeer =>
      simp only [List.append_assoc, colon_direct_split, colon_split here there,
        colon_split account account', List.append_cancel_left_eq, and_assoc]

theorem roomSuffix_inj (isolating : agent.dmScope ≠ .main)
    (free : ColonFree mapping peer other room) :
    agent.directSuffix mapping peer =
        channelName mapping room.channel ++ lit ":" ++ room.kind.text ++ lit ":" ++
          room.id mapping ↔
      agent.RoomSpellsDirect mapping peer room := by
  have here := free.channels peer.channel (by simp)
  have there := free.channels room.channel (by simp)
  have account := free.accounts peer (by simp)
  have kind := colon_not_mem_kind room.kind
  unfold directSuffix RoomSpellsDirect
  cases scope : agent.dmScope with
  | main => exact absurd scope isolating
  | perPeer =>
      simp only [List.append_assoc, direct_split, colon_split colon_not_mem_direct there]
      exact and_congr_left fun _ => eq_comm
  | perChannelPeer =>
      simp only [List.append_assoc, colon_direct_split, colon_split here there,
        colon_split colon_not_mem_direct kind, iff_false]
      rintro ⟨_, spelled, _⟩
      have shared := room.shared
      cases kind : room.kind with
      | direct => exact shared kind
      | group | channel => exact absurd (kind ▸ spelled) (by decide)
  | perAccountChannelPeer =>
      simp only [List.append_assoc, colon_direct_split, direct_split, colon_split here there,
        colon_split account kind]
      exact and_congr_right fun _ => and_congr_right fun _ => eq_comm

/-- Equal names stand for equal unlinked ids, or for one link that declares both. -/
theorem nameOf_eq_iff : (agent.nameOf mapping peer = agent.nameOf mapping other →
      (normalizeLowercaseStringOrEmpty mapping peer.id =
          normalizeLowercaseStringOrEmpty mapping other.id ∧
        ¬ agent.Linked mapping peer ∧ ¬ agent.Linked mapping other) ∨
      ∃ link, agent.Declares mapping peer link ∧ agent.Declares mapping other link) ↔
    agent.NamesApart mapping peer other := by
  have unlinked : ∀ {p : DirectPeer} {link}, agent.linkOf mapping p = some link →
      agent.Linked mapping p := fun first => ⟨_, declares_of_linkOf first⟩
  have alone : ∀ {p : DirectPeer} {link}, agent.linkOf mapping p = none →
      ¬ agent.Declares mapping p link := fun none declared => linkOf_eq_none.mp none ⟨_, declared⟩
  unfold NamesApart nameOf
  cases first : agent.linkOf mapping peer with
  | none =>
      cases second : agent.linkOf mapping other with
      | none =>
          exact iff_of_true (fun same => .inl ⟨same, linkOf_eq_none.mp first,
            linkOf_eq_none.mp second⟩) trivial
      | some link' => simp [unlinked second, alone first]
  | some link =>
      cases second : agent.linkOf mapping other with
      | none => simp [unlinked first, alone second]
      | some link' => simp [unlinked first]

theorem isolates_iff (isolating : agent.dmScope ≠ .main)
    (free : ColonFree mapping peer other room) :
    agent.Isolates mapping peer other room ↔ agent.Apart mapping peer other room := by
  constructor
  · intro isolates
    have named : peer.id ≠ [] := fun unnamed =>
      isolates.main (by rw [directKey_eq isolating, if_pos unnamed, mainSessionKey_eq])
    have key : agent.directKey mapping peer =
        agent.keyHead mapping ++ agent.directSuffix mapping peer := by
      rw [directKey_eq isolating, if_neg named]
    refine ⟨named, fun spelled => isolates.main ?_, fun spelled => isolates.rooms ?_,
      fun named' same => nameOf_eq_iff.mp fun names => ?_⟩
    · rw [key, ← spelled, mainSessionKey_eq]
    · rw [key, (roomSuffix_inj isolating free).mpr spelled, roomKey_eq]
    · refine (isolates.direct ?_).2
      rw [key, directKey_eq isolating, if_neg named',
        (directSuffix_inj isolating free).mpr ⟨same, names⟩]
  · intro apart
    have key : agent.directKey mapping peer =
        agent.keyHead mapping ++ agent.directSuffix mapping peer := by
      rw [directKey_eq isolating, if_neg apart.named]
    refine ⟨fun same => ?_, fun same => ?_, fun same => ?_⟩
    · rw [key, directKey_eq isolating, List.append_cancel_left_eq] at same
      split at same
      case isTrue => exact absurd same.symm apart.main
      case isFalse named =>
        obtain ⟨components, names⟩ := (directSuffix_inj isolating free).mp same
        exact ⟨components, nameOf_eq_iff.mpr (apart.names named components) names⟩
    · rw [key, roomKey_eq, List.append_cancel_left_eq] at same
      exact apart.room ((roomSuffix_inj isolating free).mp same)
    · rw [key, mainSessionKey_eq, List.append_cancel_left_eq] at same
      exact apart.main same.symm

end Agent

/-- Lower-casing of the basic Latin letters. -/
def latinCase : CaseMapping where
  toLowerCase text := text.map fun u => if 0x41 ≤ u.toNat ∧ u.toNat ≤ 0x5A then u + 0x20 else u
  ne_nil text written := by simpa using written

def linkedAgent : Agent where
  agentId := lit "support"
  mainKey := none
  identityLinks := some [⟨lit "alice", some [lit "telegram:111"]⟩]
  dmScope := .perPeer

def telegramPeer : DirectPeer := ⟨lit "telegram", none, some (lit "111")⟩

/-- A nickname that spells the name of the link. -/
def ircPeer : DirectPeer := ⟨lit "irc", none, some (lit "Alice")⟩

def telegramRoom : Room := ⟨lit "telegram", none, .group, some (lit "-100"), by decide⟩

theorem colonFree_linked : Agent.ColonFree latinCase telegramPeer ircPeer telegramRoom :=
  ⟨by decide, by decide⟩

theorem isolates_linked : linkedAgent.Isolates latinCase telegramPeer ircPeer telegramRoom ↔
    linkedAgent.Apart latinCase telegramPeer ircPeer telegramRoom :=
  Agent.isolates_iff (by decide) colonFree_linked

theorem nickname_enters_linked_session : ¬ ∀ (agent : Agent) peer other room,
    agent.dmScope ≠ .main → Agent.ColonFree latinCase peer other room →
    agent.Isolates latinCase peer other room := by
  intro always
  have isolates := always linkedAgent telegramPeer ircPeer telegramRoom (by decide) colonFree_linked
  obtain ⟨_, ⟨_, unlinked, _⟩ | ⟨link, _, declared⟩⟩ := isolates.direct (by decide)
  · exact unlinked ⟨_, List.mem_singleton_self _, by decide, by decide⟩
  · obtain rfl := List.mem_singleton.mp declared.1
    exact absurd declared.2.2 (by decide)

end OpenClaw.Routing
