import Mathlib
import OpenClaw.Lib.JsNumber
import OpenClaw.Lib.JsText

/-!
Queued follow-up runs and the keys they are grouped by. A run refers to its
execution record by identity: copies of a run share it, and a session refresh
rewrites it in place. JSON values that are only compared are kept as their stable
text. A key is the array the source serialises: two serialised keys are equal
exactly if the arrays are.
-/

namespace Followup

abbrev RunId := Nat
abbrev ExecutionId := Nat

inductive Signal where
  /-- The abort signal of the queue itself. -/
  | queue
  | source (id : Nat)
  deriving DecidableEq

inductive ThreadId where
  | text (value : String)
  | number (value : JsNumber)
  deriving DecidableEq

structure ExecOverrides where
  host : Option String := none
  security : Option String := none
  ask : Option String := none
  node : Option String := none
  nodeCwd : Option String := none
  deriving DecidableEq

structure BashElevated where
  enabled : Bool := false
  allowed : Bool := false
  defaultLevel : Option String := none
  deriving DecidableEq

structure InputProvenance where
  kind : Option String := none
  originSessionId : Option String := none
  sourceSessionKey : Option String := none
  sourceChannel : Option String := none
  sourceTool : Option String := none
  deriving DecidableEq

/-- `FollowupRun["run"]`. -/
structure Execution where
  sessionId : String := ""
  sessionFile : String := ""
  sessionKey : Option String := none
  runtimePolicySessionKey : Option String := none
  messageProvider : Option String := none
  clientCaps : List String := []
  toolBindings : Option String := none
  chatType : Option String := none
  agentAccountId : Option String := none
  conversationRoutePeerId : Option String := none
  conversationToolPolicy : Option String := none
  groupId : Option String := none
  groupChannel : Option String := none
  groupSpace : Option String := none
  memberRoleIds : List String := []
  spawnedBy : Option String := none
  senderId : Option String := none
  channelContext : Option String := none
  senderE164 : Option String := none
  senderIsOwner : Bool := false
  traceAuthorized : Bool := false
  approvalReviewerDeviceId : Option String := none
  provider : String := ""
  model : String := ""
  elevatedLevel : Option String := none
  execOverrides : ExecOverrides := {}
  bashElevated : BashElevated := {}
  blockReplyBreak : String := ""
  inputProvenance : InputProvenance := {}
  trustedInternalHandoff : Option String := none
  scheduledToolPolicy : Option String := none
  runtimePluginToolGrant : Option String := none
  extraSystemPrompt : Option String := none
  extraSystemPromptStatic : Option String := none
  sourceReplyDeliveryMode : Option String := none
  taskSuggestionDeliveryMode : Option String := none
  silentReplyPromptMode : Option String := none
  enforceFinalTag : Bool := false
  skipProviderRuntimeHints : Bool := false
  silentExpected : Bool := false
  allowEmptyAssistantReplyAsSilent : Bool := false
  terminalReplyExpectation : Option String := none
  suppressNextUserMessagePersistence : Bool := false
  suppressTranscriptOnlyAssistantPersistence : Bool := false
  deriving DecidableEq

structure TurnAdoptionLifecycle where
  id : Nat
  ownerKey : Option String := none
  /-- `admission === "exclusive"`. -/
  exclusive : Bool := false
  deriving DecidableEq

/-- An allowlist with the hidden intersection it carries. -/
structure ToolsAllow where
  allow : String
  intersection : Option String := none
  deriving DecidableEq

structure FollowupRun where
  prompt : String := ""
  /-- `userTurnTranscriptRecorder.getPendingInputMessage`: the text of the approved body. -/
  pendingInputMessage : Option String := none
  currentTurnImagesPrepared : Bool := false
  abortSignal : Option Signal := none
  queueAbortSignal : Option Signal := none
  turnAdoptionLifecycle : Option TurnAdoptionLifecycle := none
  messageId : Option String := none
  summaryLine : Option String := none
  toolsAllow : Option ToolsAllow := none
  disableTools : Bool := false
  steerPending : Bool := false
  steerAnchor : Bool := false
  protectFromQueueOverflow : Bool := false
  originatingChannel : Option String := none
  originatingTo : Option String := none
  originatingChatId : Option String := none
  originatingAccountId : Option String := none
  originatingThreadId : Option ThreadId := none
  originatingReplyToId : Option String := none
  originatingReplyToMode : Option String := none
  originatingChatType : Option String := none
  run : ExecutionId := 0
  deriving DecidableEq

/-- String functions of the host that the keys go through: full Unicode lower case, the
channel registry, and the account id rules. -/
structure Normalizers where
  toLowerCase : String → String
  normalizeMessageChannel : Option String → Option String
  normalizeOptionalAccountId : String → Option String

def normalizeOptionalString (value : Option String) : Option String :=
  (value.map JsText.trim).filter (· ≠ "")

/-- `normalizeOptionalThreadValue`, as text. -/
def stringifyRouteThreadId : Option ThreadId → Option String
  | none => none
  | some (.text value) => normalizeOptionalString (some value)
  | some (.number (.real q)) => some (toString (q.num.tdiv q.den))
  | some (.number _) => none

/-- A string or flag inside a nested JSON array. -/
inductive JsonScalar where
  | text (value : String)
  | flag (value : Bool)
  deriving DecidableEq

inductive KeyPart where
  | text (value : String)
  | flag (value : Bool)
  | texts (values : List String)
  | array (values : List JsonScalar)
  deriving DecidableEq

/-- `x ?? ""`. -/
def orEmpty (value : Option String) : String := value.getD ""

/-- `stableStringify(x ?? null)` on the stable text of `x`. -/
def orNull (value : Option String) : String := value.getD "null"

/-- `[...new Set(values)].toSorted()`. -/
def sortedSet (values : List String) : List String :=
  values.dedup.insertionSort fun left right => JsText.lt right left = false

section Keys

variable (norm : Normalizers)

def normalizeChatType (raw : Option String) : Option String :=
  match (normalizeOptionalString raw).map norm.toLowerCase with
  | some "direct" | some "dm" => some "direct"
  | some "group" => some "group"
  | some "channel" => some "channel"
  | _ => none

def channelRouteDedupeKey (run : FollowupRun) : List JsonScalar :=
  [.text (orEmpty ((normalizeOptionalString run.originatingChannel).map norm.toLowerCase)),
    .text (orEmpty (normalizeOptionalString run.originatingTo)),
    .text (orEmpty (run.originatingAccountId.bind norm.normalizeOptionalAccountId)),
    .text (orEmpty (stringifyRouteThreadId run.originatingThreadId))]

def resolveFollowupReplyAnchor (run : FollowupRun) : Option String :=
  if run.originatingReplyToMode = some "off" then none
  else
    let replyToId := normalizeOptionalString run.originatingReplyToId
    if replyToId.isSome || norm.normalizeMessageChannel run.originatingChannel ≠ some "slack" then
      replyToId
    -- A routed Slack thread already separates its turns.
    else if (stringifyRouteThreadId run.originatingThreadId).isSome then none
    else normalizeOptionalString run.messageId

def resolveFollowupAuthorizationKey (execution : Execution) : List JsonScalar :=
  [.text (orEmpty execution.senderId),
    .text (orNull execution.channelContext),
    .text (orNull execution.conversationToolPolicy),
    .text (orEmpty execution.senderE164),
    .flag execution.senderIsOwner,
    .text (orEmpty execution.execOverrides.host),
    .text (orEmpty execution.execOverrides.security),
    .text (orEmpty execution.execOverrides.ask),
    .text (orEmpty execution.execOverrides.node),
    .text (orEmpty execution.execOverrides.nodeCwd),
    .flag execution.bashElevated.enabled,
    .flag execution.bashElevated.allowed,
    .text (orEmpty execution.bashElevated.defaultLevel),
    .text (orEmpty execution.approvalReviewerDeviceId)]

/-- The identity of an exclusive lifecycle is part of the key; other lifecycles are
identified by their owner alone. -/
def resolveTurnAdoptionLifecycleDeliveryKey :
    Option TurnAdoptionLifecycle → List JsonScalar
  | none => [.text ""]
  | some lifecycle =>
      if lifecycle.exclusive then
        [.text (orEmpty lifecycle.ownerKey), .text s!"admission:{lifecycle.id}"]
      else [.text (orEmpty lifecycle.ownerKey)]

def resolveFollowupDeliveryContextKey (run : FollowupRun) (execution : Execution) :
    List KeyPart :=
  let provenance := execution.inputProvenance
  [.array (channelRouteDedupeKey norm run),
    .flag run.currentTurnImagesPrepared,
    .flag run.pendingInputMessage.isSome,
    .text (orEmpty run.originatingChatId),
    .text (orEmpty (resolveFollowupReplyAnchor norm run)),
    .text (orEmpty run.originatingReplyToMode),
    .text (orEmpty (normalizeChatType norm run.originatingChatType)),
    .array (resolveFollowupAuthorizationKey execution),
    .text (orEmpty (run.turnAdoptionLifecycle.bind (·.ownerKey))),
    .text (orEmpty (normalizeOptionalString
      (execution.runtimePolicySessionKey.or execution.sessionKey))),
    .text execution.provider,
    .text execution.model,
    .text (orEmpty execution.messageProvider),
    .texts (sortedSet execution.clientCaps),
    .text (orNull execution.toolBindings),
    .text (orEmpty execution.chatType),
    .text (orEmpty execution.agentAccountId),
    .text (orEmpty execution.conversationRoutePeerId),
    .text (orEmpty execution.groupId),
    .text (orEmpty execution.groupChannel),
    .text (orEmpty execution.groupSpace),
    .texts (sortedSet execution.memberRoleIds),
    .text (orEmpty execution.spawnedBy),
    .flag execution.traceAuthorized,
    .text (orEmpty execution.elevatedLevel),
    .text (orEmpty provenance.kind),
    .text (orEmpty provenance.originSessionId),
    .text (orEmpty provenance.sourceSessionKey),
    .text (orEmpty provenance.sourceChannel),
    .text (orEmpty provenance.sourceTool),
    .text (orNull execution.trustedInternalHandoff),
    .text (orNull execution.scheduledToolPolicy),
    .text (orNull execution.runtimePluginToolGrant),
    .text (orNull (run.toolsAllow.map (·.allow))),
    .text (orNull (run.toolsAllow.bind (·.intersection))),
    .flag run.disableTools,
    .text (orEmpty execution.extraSystemPrompt),
    .text (orEmpty execution.extraSystemPromptStatic),
    .text (orEmpty execution.sourceReplyDeliveryMode),
    .text (orEmpty execution.taskSuggestionDeliveryMode),
    .text (orEmpty execution.silentReplyPromptMode),
    .flag execution.enforceFinalTag,
    .flag execution.skipProviderRuntimeHints,
    .flag execution.silentExpected,
    .flag execution.allowEmptyAssistantReplyAsSilent,
    .text (orEmpty execution.terminalReplyExpectation),
    .flag execution.suppressNextUserMessagePersistence,
    .flag execution.suppressTranscriptOnlyAssistantPersistence,
    .text execution.blockReplyBreak,
    .array (resolveTurnAdoptionLifecycleDeliveryKey run.turnAdoptionLifecycle)]

def followupRouteIdentityKey (run : FollowupRun) : List JsonScalar :=
  channelRouteDedupeKey norm run ++
    [.text (orEmpty (resolveFollowupReplyAnchor norm run)),
      .text (orEmpty run.originatingReplyToMode),
      .text (orEmpty (normalizeChatType norm run.originatingChatType))]

def followupMessageRouteIdentityKey (run : FollowupRun) : List JsonScalar :=
  channelRouteDedupeKey norm run ++
    [.text (orEmpty (normalizeChatType norm run.originatingChatType))]

def isRunAlreadyQueued (run : FollowupRun) (items : List FollowupRun)
    (allowPromptFallback : Bool) : Bool :=
  match normalizeOptionalString run.messageId with
  | some messageId => items.any fun item =>
      normalizeOptionalString item.messageId = some messageId &&
        followupMessageRouteIdentityKey norm item = followupMessageRouteIdentityKey norm run
  | none => allowPromptFallback && items.any fun item =>
      item.prompt = run.prompt &&
        followupRouteIdentityKey norm item = followupRouteIdentityKey norm run

end Keys

/-- The compact copy of a dropped run. The staged images flag is not copied. -/
def createOverflowSummaryRetrySource (source : FollowupRun) : FollowupRun where
  prompt := source.prompt
  queueAbortSignal := source.queueAbortSignal
  pendingInputMessage := source.pendingInputMessage
  toolsAllow := source.toolsAllow
  disableTools := source.disableTools
  messageId := source.messageId
  summaryLine := source.summaryLine
  originatingChannel := source.originatingChannel
  originatingTo := source.originatingTo
  originatingAccountId := source.originatingAccountId
  originatingThreadId := source.originatingThreadId
  originatingChatId := source.originatingChatId
  originatingReplyToId := source.originatingReplyToId
  originatingReplyToMode := source.originatingReplyToMode
  originatingChatType := source.originatingChatType
  abortSignal := source.abortSignal
  turnAdoptionLifecycle := source.turnAdoptionLifecycle
  run := source.run

end Followup
