import OpenClaw.Outcomes.Closure

/-!
Decisions and acceptances. A request that was recorded before is answered from the
record; another one is decided on the record as a fresh observation would leave it.
-/

namespace Outcomes

structure DecisionMutation where
  expectedRevision : Nat
  id : String
  requestHash : String
  criterionId : String
  status : DecisionStatus
  planHash : String
  evidenceSetHash : String
  profileId : String
  note : Option String := none
  projections : Option (List WorkProjection) := none
  evidence : Option (List EvidenceRef) := none
  serverTime : Int
  deriving DecidableEq

structure AcceptanceMutation where
  expectedRevision : Nat
  id : String
  requestHash : String
  planHash : String
  closureHash : String
  profileId : String
  projections : Option (List WorkProjection) := none
  evidence : Option (List EvidenceRef) := none
  serverTime : Int
  deriving DecidableEq

namespace OutcomeRecord

def failed (current : OutcomeRecord) (kind : Kind) (reason : FailureReason) : Result :=
  ⟨kind, current, some reason, false⟩

/-- The answer to a request whose id is recorded under `previousHash`. -/
def answerRecorded (current : OutcomeRecord) (previousHash requestHash : String) : Result :=
  if previousHash = requestHash then ⟨.updated, current, none, true⟩
  else current.failed .conflict .operationConflict

/-- The record as an observation leaves it, without its revision; the refusal otherwise. -/
def observe (current : OutcomeRecord) (projections : Option (List WorkProjection))
    (evidence : Option (List EvidenceRef)) (serverTime : Int) : Except FailureReason OutcomeRecord :=
  match projections, evidence with
  | none, none => .ok current
  | some _, none | none, some _ => .error .closureIncomplete
  | some projections, some evidence =>
      let refreshed := current.reduceOutcomeRefresh current.revision projections evidence serverTime
      if refreshed.kind = .updated then
        .ok { refreshed.record with revision := current.revision, updatedAt := current.updatedAt }
      else if refreshed.kind = .rejected ∧ refreshed.reason = some .capacityExceeded then
        .error .capacityExceeded
      else .error .revisionConflict

def HasPlan (record : OutcomeRecord) : Prop := record.phase = .active ∨ record.phase = .accepted

instance (record : OutcomeRecord) : Decidable record.HasPlan := inferInstanceAs (Decidable (_ ∨ _))

def decisionOf (mutation : DecisionMutation) (observed : OutcomeRecord) (planHash : String) :
    HumanDecision where
  id := mutation.id
  requestHash := mutation.requestHash
  criterionId := mutation.criterionId
  status := mutation.status
  evidenceSetHash := mutation.evidenceSetHash
  profileId := mutation.profileId
  decidedAt := mutation.serverTime
  decidedRevision := observed.revision + 1
  planGeneration := observed.planGeneration
  planHash := planHash
  decidedPlan := observed.plan
  note := mutation.note

/-- The decision on an observed record. -/
def decide (H : Digests) (observed : OutcomeRecord) (mutation : DecisionMutation) :
    Except FailureReason OutcomeRecord :=
  if ¬ observed.HasPlan then .error .invalidState
  else
    match observed.criteria.find? (fun item => item.id = mutation.criterionId),
        observed.planHash with
    | some criterion, some planHash =>
        match currentOutcomeEvidenceSourceDigests observed criterion observed.projections
            mutation.serverTime with
        | none => .error .closureIncomplete
        | some sourceDigests =>
            if mutation.planHash ≠ planHash ∨ mutation.evidenceSetHash ≠ evidenceSetHash H
                { criterionId := criterion.id, planGeneration := observed.planGeneration
                  sourceDigests } then .error .revisionConflict
            else if mutation.status = .verified ∧ sourceDigests = [] ∨
                mutation.status = .rejected ∧ mutation.note = none then .error .closureIncomplete
            else if 100 ≤ observed.decisions.length then .error .capacityExceeded
            else .ok { observed with
              decisions := observed.decisions ++ [decisionOf mutation observed planHash]
              revision := observed.revision + 1
              updatedAt := mutation.serverTime }
    | _, _ => .error .invalidState

def acceptanceOf (mutation : AcceptanceMutation) (observed : OutcomeRecord)
    (planHash closureHash : String) : Acceptance where
  id := mutation.id
  requestHash := mutation.requestHash
  acceptedRevision := observed.revision + 1
  profileId := mutation.profileId
  acceptedAt := mutation.serverTime
  planGeneration := observed.planGeneration
  planHash := planHash
  closureHash := closureHash
  acceptedPlan := observed.plan

/-- The same closure of the same plan was accepted before. -/
def AlreadyAccepted (record : OutcomeRecord) (closureHash : String) : Prop :=
  ∃ acceptance ∈ record.acceptances, acceptance.planGeneration = record.planGeneration ∧
    some acceptance.planHash = record.planHash ∧ acceptance.closureHash = closureHash

instance (record : OutcomeRecord) (closureHash : String) :
    Decidable (record.AlreadyAccepted closureHash) :=
  inferInstanceAs (Decidable (∃ acceptance ∈ record.acceptances, _))

/-- The acceptance of an observed record. -/
def accept (H : Digests) (observed : OutcomeRecord) (mutation : AcceptanceMutation) :
    Except FailureReason OutcomeRecord :=
  match observed.planHash with
  | none => .error .invalidState
  | some planHash =>
      if ¬ observed.HasPlan then .error .invalidState
      else
        match deriveOutcomeClosure H observed observed.projections mutation.serverTime with
        | none => .error .closureIncomplete
        | some closureHash =>
            if mutation.planHash ≠ planHash ∨ mutation.closureHash ≠ closureHash then
              .error .revisionConflict
            else if observed.AlreadyAccepted closureHash then .error .invalidState
            else if 20 ≤ observed.acceptances.length then .error .capacityExceeded
            else .ok { observed with
              phase := .accepted
              acceptances :=
                observed.acceptances ++ [acceptanceOf mutation observed planHash closureHash]
              revision := observed.revision + 1
              updatedAt := mutation.serverTime }

/-- The record if the observation and the decision go through, else the refusal. -/
def conclude (current : OutcomeRecord) : Except FailureReason OutcomeRecord → Result
  | .ok next => next.updated
  | .error reason => current.failed .rejected reason

def reduceOutcomeDecision (H : Digests) (current : OutcomeRecord) (mutation : DecisionMutation) :
    Result :=
  match current.decisions.find? fun decision => decision.id = mutation.id with
  | some previous => current.answerRecorded previous.requestHash mutation.requestHash
  | none =>
      if mutation.expectedRevision ≠ current.revision then
        current.failed .conflict .revisionConflict
      else current.conclude do
        let observed ← current.observe mutation.projections mutation.evidence mutation.serverTime
        observed.decide H mutation

def reduceOutcomeAcceptance (H : Digests) (current : OutcomeRecord)
    (mutation : AcceptanceMutation) : Result :=
  match current.acceptances.find? fun acceptance => acceptance.id = mutation.id with
  | some previous => current.answerRecorded previous.requestHash mutation.requestHash
  | none =>
      if mutation.expectedRevision ≠ current.revision then
        current.failed .conflict .revisionConflict
      else current.conclude do
        let observed ← current.observe mutation.projections mutation.evidence mutation.serverTime
        observed.accept H mutation

end OutcomeRecord
end Outcomes

/-!
The operations of the gateway on one record. Public criteria passed the input
normalizer; their refs are the ones the record already links under the same id. An
observation is built by the gateway, so its projections meet the projection rules.
-/

namespace Outcomes

structure PublicCriterion where
  id : String
  text : String
  required : Bool
  deriving DecidableEq

def isHex (c : Char) : Bool := c.isDigit || ('a' ≤ c && c ≤ 'f')

/-- The UUID pattern, group by group. -/
def isUuid (cs : List Char) : Bool :=
  cs.length = 36 && cs.zipIdx.all fun digit =>
    if digit.2 ∈ [8, 13, 18, 23] then digit.1 = '-'
    else if digit.2 = 14 then '1' ≤ digit.1 && digit.1 ≤ '8'
    else if digit.2 = 19 then digit.1 ∈ ['8', '9', 'a', 'b']
    else isHex digit.1

def normalizedUuid (value : String) : Option String :=
  let id := (JsText.trim value).toLower
  if isUuid id.toList then some id else none

def normalizedText (value : String) (min max : Nat) : Option String :=
  let text := JsText.trim value
  if min ≤ text.length && text.length ≤ max then some text else none

/-- What `normalizeCriteria` lets through. -/
structure PublicCriteria where
  criteria : List PublicCriterion
  count : 1 ≤ criteria.length ∧ criteria.length ≤ 5
  required : ∃ criterion ∈ criteria, criterion.required = true
  ids : (criteria.map PublicCriterion.id).Nodup
  deriving DecidableEq

def normalizeCriterion (input : PublicCriterion) : Option PublicCriterion := do
  let id ← normalizedUuid input.id
  let text ← normalizedText input.text 1 1000
  pure { id, text, required := input.required }

def normalizeCriteria (value : List PublicCriterion) : Option PublicCriteria := do
  guard (1 ≤ value.length ∧ value.length ≤ 5)
  let criteria ← value.mapM normalizeCriterion
  if valid : (1 ≤ criteria.length ∧ criteria.length ≤ 5) ∧
      (∃ criterion ∈ criteria, criterion.required = true) ∧
      (criteria.map PublicCriterion.id).Nodup then
    pure ⟨criteria, valid.1, valid.2.1, valid.2.2⟩
  else none

/-- `withRefs`. -/
def withRefs (criteria : List PublicCriterion) (current : List Criterion) : List Criterion :=
  criteria.map fun criterion =>
    { id := criterion.id
      text := criterion.text
      required := criterion.required
      workRefs := ((current.find? fun item => item.id = criterion.id).map Criterion.workRefs).getD [] }

structure PublicPatch where
  title : Option String := none
  objective : Option String := none
  criteria : Option PublicCriteria := none
  deriving DecidableEq

/-- One gateway operation. The server times and the observation are the gateway's. -/
inductive Operation where
  | update (expectedRevision : Nat) (patch : PublicPatch) (serverTime : Int)
  | link (expectedRevision : Nat) (criterionId : String) (ref : WorkboardRef) (serverTime : Int)
  | unlink (expectedRevision : Nat) (criterionId cardId : String) (serverTime : Int)
  | activate (expectedRevision : Nat) (serverTime : Int)
  | refresh (expectedRevision : Nat) (projections : List WorkProjection)
      (evidence : List EvidenceRef) (serverTime : Int)
  | verifyCriterion (mutation : DecisionMutation)
  | accept (mutation : AcceptanceMutation)
  | cancel (expectedRevision : Nat) (serverTime : Int)
  deriving DecidableEq

namespace Operation

/-- The transition of an operation; `none` where the plan hash throws. -/
def apply (H : Digests) (current : OutcomeRecord) : Operation → Option Result
  | update expectedRevision patch serverTime => current.reduceGatewayOutcomePatch H
      { expectedRevision
        title := patch.title
        objective := patch.objective
        criteria := patch.criteria.map fun criteria => withRefs criteria.criteria current.criteria
        serverTime }
  | link expectedRevision criterionId ref serverTime =>
      current.reduceOutcomeLink H expectedRevision criterionId ref serverTime
  | unlink expectedRevision criterionId cardId serverTime =>
      current.reduceOutcomeUnlink H expectedRevision criterionId cardId serverTime
  | activate expectedRevision serverTime =>
      current.reduceOutcomeActivate H expectedRevision serverTime
  | refresh expectedRevision projections evidence serverTime =>
      some (current.reduceOutcomeRefresh expectedRevision projections evidence serverTime)
  | verifyCriterion mutation => some (current.reduceOutcomeDecision H mutation)
  | accept mutation => some (current.reduceOutcomeAcceptance H mutation)
  | cancel expectedRevision serverTime =>
      some (current.reduceOutcomeCancel expectedRevision serverTime)

/-- The projections an operation brings along. -/
def projections : Operation → List WorkProjection
  | refresh _ projections _ _ => projections
  | verifyCriterion mutation => mutation.projections.getD []
  | accept mutation => mutation.projections.getD []
  | _ => []

/-- The revision an operation expects. -/
def expectedRevision : Operation → Nat
  | update expectedRevision _ _ | link expectedRevision _ _ _ | unlink expectedRevision _ _ _
  | activate expectedRevision _ | refresh expectedRevision _ _ _ | cancel expectedRevision _ =>
      expectedRevision
  | verifyCriterion mutation => mutation.expectedRevision
  | accept mutation => mutation.expectedRevision

end Operation

/-- The draft record of `outcomes.create`. -/
def createdRecord (id createRequestHash owner title objective : String)
    (criteria : PublicCriteria) (now : Int) : OutcomeRecord where
  id := id
  createRequestHash := createRequestHash
  managerProfileId := owner
  title := title
  objective := objective
  phase := .draft
  revision := 1
  contractRevision := 1
  planGeneration := 0
  planHash := none
  criteria := criteria.criteria.map fun criterion =>
    { id := criterion.id, text := criterion.text, required := criterion.required, workRefs := [] }
  createdAt := now
  updatedAt := now

/-- A record as `outcomes.create` makes it. -/
def Created (record : OutcomeRecord) : Prop :=
  ∃ id createRequestHash owner title objective criteria now,
    record = createdRecord id createRequestHash owner title objective criteria now

end Outcomes
