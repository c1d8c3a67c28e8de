import OpenClaw.Lib.JsCollections

/-!
The outcome aggregate, its canonical plan and the cross-field rules of
`outcomeRecordSchema`. Digests are SHA-256 over a domain and the stable
stringification of a canonical value; they enter as functions of that value.
Identities written `${cardId}\0${cardCreatedAt}` are pairs.
-/

namespace Outcomes

/-- A finite JavaScript number that is not a server clock reading. -/
abbrev Finite := ℚ

structure WorkboardRef where
  cardId : String
  cardCreatedAt : Finite
  boardIdAtLink : String
  deriving DecidableEq

abbrev Identity := String × Finite

instance : LawfulBEq Identity := inferInstance

def WorkboardRef.identity (ref : WorkboardRef) : Identity := (ref.cardId, ref.cardCreatedAt)

structure Criterion where
  id : String
  text : String
  required : Bool
  workRefs : List WorkboardRef
  deriving DecidableEq

inductive Availability where
  | available
  | unavailable
  | identityConflict
  deriving DecidableEq

inductive WorkStatus where
  | triage | backlog | todo | scheduled | ready | running | review | blocked | done
  deriving DecidableEq

/-- `OutcomeSourceIssueReason`, the error codes of a projection. -/
inductive SourceIssue where
  | workboardDisabled
  | notFound
  | forbidden
  | timeout
  | invalidResponse
  | identityConflict
  deriving DecidableEq

structure SourcePair where
  sourceId : String
  digest : String
  deriving DecidableEq

structure WorkProjection where
  ref : WorkboardRef
  availability : Availability
  observedAt : Int
  proofs : List SourcePair := []
  artifacts : List SourcePair := []
  currentBoardId : Option String := none
  status : Option WorkStatus := none
  lastSuccessfulAt : Option Int := none
  sourceUpdatedAt : Option Finite := none
  upstreamStale : Option Bool := none
  sourceFingerprint : Option String := none
  errorCode : Option SourceIssue := none
  deriving DecidableEq

inductive EvidenceKind where
  | artifact
  | proof
  deriving DecidableEq

structure EvidenceRef where
  id : String
  criterionId : String
  planGeneration : Nat
  workRef : WorkboardRef
  kind : EvidenceKind
  sourceId : String
  sourceDigest : String
  observedAt : Int
  deriving DecidableEq

/-- `OutcomePlanSnapshot`, also the input of the plan hash. -/
structure PlanSnapshot where
  outcomeId : String
  objective : String
  contractRevision : Nat
  planGeneration : Nat
  criteria : List Criterion
  deriving DecidableEq

inductive DecisionStatus where
  | verified
  | rejected
  deriving DecidableEq

structure HumanDecision where
  id : String
  criterionId : String
  planGeneration : Nat
  decidedRevision : Nat
  status : DecisionStatus
  requestHash : String
  profileId : String
  planHash : String
  decidedPlan : PlanSnapshot
  evidenceSetHash : String
  note : Option String := none
  decidedAt : Int
  deriving DecidableEq

inductive OperationState where
  | prepared
  | mayHaveCrossed
  | succeeded
  | failed
  | unknown
  deriving DecidableEq

/-- What the transitions read of an `OutcomeOperation`. -/
structure CardOperation where
  id : String
  state : OperationState
  deriving DecidableEq

structure Acceptance where
  id : String
  requestHash : String
  acceptedRevision : Nat
  profileId : String
  acceptedAt : Int
  planGeneration : Nat
  planHash : String
  closureHash : String
  acceptedPlan : PlanSnapshot
  deriving DecidableEq

inductive Phase where
  | draft
  | active
  | accepted
  | cancelled
  deriving DecidableEq

structure OutcomeRecord where
  id : String
  createRequestHash : String := ""
  managerProfileId : String := ""
  title : String
  objective : String
  phase : Phase
  revision : Nat
  contractRevision : Nat
  planGeneration : Nat
  planHash : Option String
  criteria : List Criterion
  projections : List WorkProjection := []
  evidence : List EvidenceRef := []
  decisions : List HumanDecision := []
  operations : List CardOperation := []
  acceptances : List Acceptance := []
  createdAt : Int
  updatedAt : Int
  deriving DecidableEq

/-- The source fields a projection is bound to. -/
structure FingerprintInput where
  ref : WorkboardRef
  proofs : List SourcePair
  artifacts : List SourcePair
  currentBoardId : String
  status : WorkStatus
  sourceUpdatedAt : Finite
  deriving DecidableEq

structure EvidenceSet where
  criterionId : String
  planGeneration : Nat
  sourceDigests : List String
  deriving DecidableEq

structure ClosureCriterion where
  criterionId : String
  decisionId : String
  decidedRevision : Nat
  evidenceSetHash : String
  deriving DecidableEq

structure Closure where
  outcomeId : String
  planGeneration : Nat
  planHash : String
  requiredCriteria : List ClosureCriterion
  deriving DecidableEq

/-- The digests of the canonical values of a record. -/
structure Digests where
  plan : PlanSnapshot → String
  evidenceSet : EvidenceSet → String
  closure : Closure → String
  projection : FingerprintInput → String

def refBefore (left right : WorkboardRef) : Bool :=
  JsArray.thenBy left.cardId right.cardId
    (if left.cardCreatedAt < right.cardCreatedAt then true
    else if right.cardCreatedAt < left.cardCreatedAt then false
    else JsText.lt left.boardIdAtLink right.boardIdAtLink)

def Criterion.canonical (criterion : Criterion) : Criterion :=
  { criterion with workRefs := JsArray.toSorted refBefore criterion.workRefs }

def criterionBefore (left right : Criterion) : Bool := JsText.lt left.id right.id

/-- `canonicalCriteria` of a contract change. -/
def canonicalCriteria (criteria : List Criterion) : List Criterion :=
  JsArray.toSorted criterionBefore (criteria.map Criterion.canonical)

/-- `hashValidatedCanonicalPlan`: here the criteria are sorted before their refs. -/
def hashValidatedCanonicalPlan (H : Digests) (plan : PlanSnapshot) : String :=
  H.plan { plan with
    criteria := (JsArray.toSorted criterionBefore plan.criteria).map Criterion.canonical }

def maxWorkRefsPerCriterion : Nat := 10

def maxDistinctWorkRefs : Nat := 20

/-- `codePointText(max)`. -/
def codePointText (max : Nat) (text : String) : Prop := 0 < text.length ∧ text.length ≤ max

instance (max : Nat) (text : String) : Decidable (codePointText max text) :=
  inferInstanceAs (Decidable (_ ∧ _))

def identities (criteria : List Criterion) : List Identity :=
  criteria.flatMap fun criterion => criterion.workRefs.map WorkboardRef.identity

def WorkboardRef.Shaped (ref : WorkboardRef) : Prop :=
  ref.cardId ≠ "" ∧ 0 ≤ ref.cardCreatedAt ∧ ref.boardIdAtLink ≠ ""

def Criterion.Shaped (criterion : Criterion) : Prop :=
  codePointText 160 criterion.id ∧ codePointText 1000 criterion.text ∧
    ∀ ref ∈ criterion.workRefs, ref.Shaped

/-- The rules on criteria that plans and records share. -/
structure CriteriaRules (criteria : List Criterion) : Prop where
  ids : (criteria.map Criterion.id).Nodup
  refs : ∀ criterion ∈ criteria, (criterion.workRefs.map WorkboardRef.identity).Nodup
  refsPerCriterion : ∀ criterion ∈ criteria,
    JsArray.distinct (criterion.workRefs.map WorkboardRef.identity) ≤ maxWorkRefsPerCriterion
  distinctRefs : JsArray.distinct (identities criteria) ≤ maxDistinctWorkRefs
  required : ∃ criterion ∈ criteria, criterion.required = true
  count : 1 ≤ criteria.length ∧ criteria.length ≤ 5

/-- `canonicalPlanSchema`. -/
structure PlanSnapshot.Valid (plan : PlanSnapshot) : Prop where
  outcomeId : codePointText 160 plan.outcomeId
  objective : codePointText 4000 plan.objective
  contractRevision : 1 ≤ plan.contractRevision
  planGeneration : 1 ≤ plan.planGeneration
  shaped : ∀ criterion ∈ plan.criteria, criterion.Shaped
  criteria : CriteriaRules plan.criteria

instance (ref : WorkboardRef) : Decidable ref.Shaped := inferInstanceAs (Decidable (_ ∧ _))

instance (criterion : Criterion) : Decidable criterion.Shaped :=
  inferInstanceAs (Decidable (_ ∧ _))

theorem criteriaRules_iff {criteria : List Criterion} : CriteriaRules criteria ↔
    (criteria.map Criterion.id).Nodup ∧
    (∀ criterion ∈ criteria, (criterion.workRefs.map WorkboardRef.identity).Nodup) ∧
    (∀ criterion ∈ criteria,
      JsArray.distinct (criterion.workRefs.map WorkboardRef.identity) ≤ maxWorkRefsPerCriterion) ∧
    JsArray.distinct (identities criteria) ≤ maxDistinctWorkRefs ∧
    (∃ criterion ∈ criteria, criterion.required = true) ∧
    1 ≤ criteria.length ∧ criteria.length ≤ 5 :=
  ⟨fun h => ⟨h.ids, h.refs, h.refsPerCriterion, h.distinctRefs, h.required, h.count⟩,
    fun ⟨ids, refs, perCriterion, distinct, required, count⟩ =>
      ⟨ids, refs, perCriterion, distinct, required, count⟩⟩

instance (criteria : List Criterion) : Decidable (CriteriaRules criteria) :=
  decidable_of_iff' _ criteriaRules_iff

theorem PlanSnapshot.valid_iff {plan : PlanSnapshot} : plan.Valid ↔
    codePointText 160 plan.outcomeId ∧ codePointText 4000 plan.objective ∧
    1 ≤ plan.contractRevision ∧ 1 ≤ plan.planGeneration ∧
    (∀ criterion ∈ plan.criteria, criterion.Shaped) ∧ CriteriaRules plan.criteria :=
  ⟨fun h => ⟨h.outcomeId, h.objective, h.contractRevision, h.planGeneration, h.shaped, h.criteria⟩,
    fun ⟨outcomeId, objective, contractRevision, planGeneration, shaped, criteria⟩ =>
      ⟨outcomeId, objective, contractRevision, planGeneration, shaped, criteria⟩⟩

instance (plan : PlanSnapshot) : Decidable plan.Valid := decidable_of_iff' _ PlanSnapshot.valid_iff

/-- `planHash`; `none` where the schema throws. -/
def planHash (H : Digests) (plan : PlanSnapshot) : Option String :=
  if plan.Valid then some (hashValidatedCanonicalPlan H plan) else none

def pairBefore (left right : SourcePair) : Bool :=
  JsArray.thenBy left.sourceId right.sourceId (JsText.lt left.digest right.digest)

/-- `workboardProjectionFingerprint`. -/
def workboardProjectionFingerprint (H : Digests) (input : FingerprintInput) : String :=
  H.projection { input with
    proofs := JsArray.toSorted pairBefore input.proofs
    artifacts := JsArray.toSorted pairBefore input.artifacts }

/-- The rules between the fields of `projectionSchema`. -/
def ProjectionRules (H : Digests) (projection : WorkProjection) : Prop :=
  match projection.availability with
  | .available => projection.errorCode = none ∧
      ∃ currentBoardId status sourceUpdatedAt,
        projection.currentBoardId = some currentBoardId ∧ projection.status = some status ∧
        projection.sourceUpdatedAt = some sourceUpdatedAt ∧
        projection.sourceFingerprint = some (workboardProjectionFingerprint H
          { ref := projection.ref, proofs := projection.proofs, artifacts := projection.artifacts
            currentBoardId, status, sourceUpdatedAt })
  | .unavailable => projection.sourceFingerprint = none ∧ projection.errorCode ≠ none ∧
      projection.errorCode ≠ some .identityConflict
  | .identityConflict => projection.sourceFingerprint = none ∧
      projection.errorCode = some .identityConflict

/-- `currentOutcomePlanSnapshot`. -/
def OutcomeRecord.plan (record : OutcomeRecord) : PlanSnapshot where
  outcomeId := record.id
  objective := record.objective
  contractRevision := record.contractRevision
  planGeneration := record.planGeneration
  criteria := record.criteria

/-- A recorded plan snapshot under the hash and generation stored beside it. -/
structure SnapshotRules (H : Digests) (record : OutcomeRecord) (generation : Nat) (hash : String)
    (plan : PlanSnapshot) : Prop where
  valid : plan.Valid
  outcomeId : plan.outcomeId = record.id
  generation : plan.planGeneration = generation
  hashed : hash = hashValidatedCanonicalPlan H plan

/-- The phase rules: what plan a record carries. -/
def PlanRules (H : Digests) (record : OutcomeRecord) : Prop :=
  match record.phase with
  | .draft => record.planGeneration = 0 ∧ record.planHash = none
  | .active | .accepted => 1 ≤ record.planGeneration ∧ record.planHash ≠ none ∧
      record.planHash = planHash H record.plan
  | .cancelled => record.planGeneration = 0 ∧ record.planHash = none ∨
      0 < record.planGeneration ∧ record.planHash ≠ none ∧
        record.planHash = planHash H record.plan

/-- The cross-field rules of `outcomeRecordSchema`. -/
structure RecordRules (H : Digests) (record : OutcomeRecord) : Prop where
  criteria : CriteriaRules record.criteria
  contractRevision : record.contractRevision ≤ record.revision
  decisionRevisions : ∀ decision ∈ record.decisions, decision.decidedRevision ≤ record.revision
  decisionRevisionsUnique : (record.decisions.map HumanDecision.decidedRevision).Nodup
  acceptanceRevisions : ∀ acceptance ∈ record.acceptances,
    acceptance.acceptedRevision ≤ record.revision
  evidenceIds : (record.evidence.map EvidenceRef.id).Nodup
  decisionIds : (record.decisions.map HumanDecision.id).Nodup
  operationIds : (record.operations.map CardOperation.id).Nodup
  acceptanceIds : (record.acceptances.map Acceptance.id).Nodup
  plan : PlanRules H record
  projections : ∀ projection ∈ record.projections, ProjectionRules H projection
  decisions : ∀ decision ∈ record.decisions,
    SnapshotRules H record decision.planGeneration decision.planHash decision.decidedPlan ∧
      ∃ criterion ∈ decision.decidedPlan.criteria, criterion.id = decision.criterionId
  acceptances : ∀ acceptance ∈ record.acceptances,
    SnapshotRules H record acceptance.planGeneration acceptance.planHash acceptance.acceptedPlan

end Outcomes
