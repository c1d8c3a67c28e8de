import OpenClaw.Outcomes.Record

/-!
The contract transitions of the aggregate. A transition returns the record it was
given unless it updates it; it is undefined where the plan hash throws. Server
times are finite by their type.
-/

namespace Outcomes

inductive Kind where
  | conflict
  | noop
  | updated
  | rejected
  deriving DecidableEq

inductive FailureReason where
  | operationConflict
  | revisionConflict
  | invalidState
  | closureIncomplete
  | capacityExceeded
  deriving DecidableEq

structure Result where
  kind : Kind
  record : OutcomeRecord
  reason : Option FailureReason := none
  replayed : Bool := false
  deriving DecidableEq

namespace OutcomeRecord

def conflict (current : OutcomeRecord) : Result := ⟨.conflict, current, none, false⟩

def noop (current : OutcomeRecord) : Result := ⟨.noop, current, none, false⟩

def rejected (current : OutcomeRecord) (reason : Option FailureReason := none) : Result :=
  ⟨.rejected, current, reason, false⟩

def updated (next : OutcomeRecord) : Result := ⟨.updated, next, none, false⟩

def inFlight (operation : CardOperation) : Bool :=
  operation.state = .prepared || operation.state = .unknown || operation.state = .mayHaveCrossed

def hasInFlightOperation (current : OutcomeRecord) : Bool := current.operations.any inFlight

/-- The record after its contract changed: the common part of `reduceOutcomeContract` and
`reduceOutcomePatch`. -/
def changeContract (H : Digests) (current : OutcomeRecord) (title objective : String)
    (criteria : List Criterion) (serverTime : Int) : Option Result :=
  let planGeneration := if current.phase = Phase.draft then 0 else current.planGeneration + 1
  let next := { current with
    title
    objective
    criteria
    phase := if current.phase = Phase.accepted then Phase.active else current.phase
    contractRevision := current.contractRevision + 1
    planGeneration
    planHash := none
    revision := current.revision + 1
    updatedAt := serverTime }
  if planGeneration = 0 then some next.updated
  else (Outcomes.planHash H next.plan).map fun hash => { next with planHash := some hash }.updated

def reduceOutcomeContract (H : Digests) (current : OutcomeRecord) (expectedRevision : Nat)
    (objective : String) (criteria : List Criterion) (serverTime : Int) : Option Result :=
  if current.phase = .cancelled then some current.rejected
  else if expectedRevision ≠ current.revision then some current.conflict
  else if current.hasInFlightOperation then some current.rejected
  else if current.objective = objective ∧
      canonicalCriteria current.criteria = canonicalCriteria criteria then some current.noop
  else current.changeContract H current.title objective (canonicalCriteria criteria) serverTime

def reduceOutcomeActivate (H : Digests) (current : OutcomeRecord) (expectedRevision : Nat)
    (serverTime : Int) : Option Result :=
  if expectedRevision ≠ current.revision then some current.conflict
  else if current.phase ≠ .draft || current.hasInFlightOperation then some current.rejected
  else if current.criteria.any fun criterion =>
      criterion.required && criterion.workRefs.isEmpty then some current.rejected
  else
    let next := { current with
      phase := .active
      planGeneration := 1
      revision := current.revision + 1
      updatedAt := serverTime }
    (Outcomes.planHash H next.plan).map fun hash => { next with planHash := some hash }.updated

def reduceOutcomeTitle (current : OutcomeRecord) (expectedRevision : Nat) (title : String)
    (serverTime : Int) : Result :=
  if current.phase = .cancelled then current.rejected
  else if expectedRevision ≠ current.revision then current.conflict
  else if current.title = title then current.noop
  else { current with
    title
    revision := current.revision + 1
    updatedAt := serverTime }.updated

structure PatchMutation where
  expectedRevision : Nat
  title : Option String := none
  objective : Option String := none
  criteria : Option (List Criterion) := none
  serverTime : Int
  deriving DecidableEq

def reduceOutcomePatch (H : Digests) (current : OutcomeRecord) (mutation : PatchMutation) :
    Option Result :=
  if current.phase = .cancelled then some current.rejected
  else if mutation.expectedRevision ≠ current.revision then some current.conflict
  else if current.hasInFlightOperation then some current.rejected
  else
    let title := mutation.title.getD current.title
    let objective := mutation.objective.getD current.objective
    let criteria := mutation.criteria.getD current.criteria
    if objective ≠ current.objective ∨ criteria ≠ current.criteria then
      current.changeContract H title objective criteria mutation.serverTime
    else if title = current.title then some current.noop
    else some { current with
      title
      revision := current.revision + 1
      updatedAt := mutation.serverTime }.updated

/-- `reduceGatewayOutcomePatch`. -/
def reduceGatewayOutcomePatch (H : Digests) (current : OutcomeRecord) (mutation : PatchMutation) :
    Option Result :=
  match mutation.title, mutation.objective, mutation.criteria with
  | some title, none, none =>
      some (current.reduceOutcomeTitle mutation.expectedRevision title mutation.serverTime)
  | none, some _, _ | none, _, some _ =>
      current.reduceOutcomeContract H mutation.expectedRevision
        (mutation.objective.getD current.objective) (mutation.criteria.getD current.criteria)
        mutation.serverTime
  | _, _, _ => current.reduceOutcomePatch H mutation

/-- The criteria with the refs of one criterion replaced. -/
def setWorkRefs (criteria : List Criterion) (criterionId : String)
    (workRefs : List WorkboardRef → List WorkboardRef) : List Criterion :=
  criteria.map fun item =>
    if item.id = criterionId then { item with workRefs := workRefs item.workRefs } else item

def reduceOutcomeLink (H : Digests) (current : OutcomeRecord) (expectedRevision : Nat)
    (criterionId : String) (ref : WorkboardRef) (serverTime : Int) : Option Result :=
  if expectedRevision ≠ current.revision then some current.conflict
  else if current.phase = .cancelled || current.hasInFlightOperation then some current.rejected
  else
    match current.criteria.find? fun item => item.id = criterionId with
    | none => some current.rejected
    | some criterion =>
        if criterion.workRefs.any fun other => other.identity = ref.identity then some current.noop
        else if maxWorkRefsPerCriterion ≤ criterion.workRefs.length then some current.rejected
        else if ref.identity ∉ identities current.criteria ∧
            maxDistinctWorkRefs ≤ JsArray.distinct (identities current.criteria) then
          some current.rejected
        else current.reduceOutcomeContract H expectedRevision current.objective
          (setWorkRefs current.criteria criterionId (· ++ [ref])) serverTime

def reduceOutcomeUnlink (H : Digests) (current : OutcomeRecord) (expectedRevision : Nat)
    (criterionId cardId : String) (serverTime : Int) : Option Result :=
  if expectedRevision ≠ current.revision then some current.conflict
  else if current.phase = .cancelled || current.hasInFlightOperation then some current.rejected
  else
    match current.criteria.find? fun item => item.id = criterionId with
    | none => some current.rejected
    | some criterion =>
        -- Two identities under one card id cannot be told apart by the parameter.
        if 1 < (criterion.workRefs.filter fun ref => ref.cardId = cardId).length then
          some current.rejected
        else if (criterion.workRefs.filter fun ref => ref.cardId ≠ cardId).length =
            criterion.workRefs.length then some current.noop
        else current.reduceOutcomeContract H expectedRevision current.objective
          (setWorkRefs current.criteria criterionId fun _ =>
            criterion.workRefs.filter fun ref => ref.cardId ≠ cardId) serverTime

def reduceOutcomeCancel (current : OutcomeRecord) (expectedRevision : Nat) (serverTime : Int) :
    Result :=
  if expectedRevision ≠ current.revision then current.conflict
  else if current.phase = .accepted || current.phase = .cancelled then current.rejected
  else if current.hasInFlightOperation then current.rejected
  else { current with
    phase := .cancelled
    revision := current.revision + 1
    updatedAt := serverTime }.updated

end OutcomeRecord

/-- The projection that a refresh stores: an unavailable source keeps the material of
the last successful observation. -/
def WorkProjection.cached (previous : Option WorkProjection) (projection : WorkProjection) :
    WorkProjection :=
  if projection.availability = .available then projection
  else
    match previous with
    | none => projection
    | some previous =>
        { projection with
          proofs := previous.proofs
          artifacts := previous.artifacts
          currentBoardId := projection.currentBoardId <|> previous.currentBoardId
          status := projection.status <|> previous.status
          lastSuccessfulAt := projection.lastSuccessfulAt <|> previous.lastSuccessfulAt
          sourceUpdatedAt := projection.sourceUpdatedAt <|> previous.sourceUpdatedAt
          upstreamStale := projection.upstreamStale <|> previous.upstreamStale
          sourceFingerprint := none
          errorCode := projection.errorCode <|> previous.errorCode }

namespace OutcomeRecord

/-- The evidence history after an observation, by evidence id. -/
def mergeEvidence (current observed : List EvidenceRef) : List EvidenceRef :=
  let existing := JsMap.ofList (current.map fun evidence => (evidence.id, evidence))
  JsArray.toSorted (fun left right => JsText.lt left.id right.id)
    (existing.insertAll (observed.map fun evidence => (evidence.id, evidence))).values

/-- Every projection of the observation over the one stored before. -/
def mergeProjections (current observed : List WorkProjection) : List WorkProjection :=
  let previous := JsMap.ofList (current.map fun projection => (projection.ref.identity, projection))
  JsArray.toSorted (fun left right => refBefore left.ref right.ref)
    (observed.map fun projection =>
      projection.cached (previous.get? projection.ref.identity))

def reduceOutcomeRefresh (current : OutcomeRecord) (expectedRevision : Nat)
    (projections : List WorkProjection) (evidence : List EvidenceRef) (serverTime : Int) : Result :=
  if expectedRevision ≠ current.revision then current.conflict
  else if current.phase = .cancelled then current.rejected
  else
    let linked := identities current.criteria
    let observed := projections.map fun projection => projection.ref.identity
    if JsArray.distinct observed ≠ observed.length ∨
        JsArray.distinct observed ≠ JsArray.distinct linked ∨
        ∃ identity ∈ linked, identity ∉ observed then current.rejected
    else if JsArray.distinct (evidence.map EvidenceRef.id) ≠ evidence.length ∨
        ∃ item ∈ evidence, item.planGeneration ≠ current.planGeneration ∨
          item.workRef.identity ∉ linked then current.rejected
    else
      let merged := mergeEvidence current.evidence evidence
      if 100 < merged.length then current.rejected (some .capacityExceeded)
      else { current with
        projections := mergeProjections current.projections projections
        evidence := merged
        revision := current.revision + 1
        updatedAt := serverTime }.updated

end OutcomeRecord
end Outcomes
