import OpenClaw.Outcomes.Reducer

/-!
Human decisions against the current evidence. A criterion has a current decision while
its newest decision of this generation is about the evidence the sources show now;
a closure exists while every required criterion is verified by one.
-/

namespace Outcomes

def projectionMaxAgeMs : Int := 24 * 60 * 60 * 1000

def isStaleOutcomeProjection (projection : WorkProjection) (observedAt : Int) : Bool :=
  projection.upstreamStale = some true ||
    match projection.lastSuccessfulAt with
    | none => true
    | some last => projectionMaxAgeMs ≤ observedAt - last

/-- `evidenceSetHash`. -/
def evidenceSetHash (H : Digests) (input : EvidenceSet) : String :=
  H.evidenceSet { input with
    sourceDigests := JsArray.toSorted JsText.lt input.sourceDigests.dedup }

/-- `outcomeClosureHash`. -/
def outcomeClosureHash (H : Digests) (input : Closure) : String :=
  H.closure { input with
    requiredCriteria := JsArray.toSorted
      (fun left right => JsText.lt left.criterionId right.criterionId) input.requiredCriteria }

/-- What a projection shows of its sources: `${identity}\0kind\0sourceId\0digest`. -/
abbrev SourceKey := Identity × EvidenceKind × SourcePair

def WorkProjection.sourceKeys (projection : WorkProjection) : List SourceKey :=
  projection.proofs.map (fun pair => (projection.ref.identity, .proof, pair)) ++
    projection.artifacts.map (fun pair => (projection.ref.identity, .artifact, pair))

def EvidenceRef.sourceKey (evidence : EvidenceRef) : SourceKey :=
  (evidence.workRef.identity, evidence.kind, ⟨evidence.sourceId, evidence.sourceDigest⟩)

/-- The projections a criterion links, the last one of an identity. -/
def linkedProjections (criterion : Criterion) (projections : List WorkProjection) :
    JsMap Identity WorkProjection :=
  JsMap.ofList ((projections.filter fun projection =>
    projection.ref.identity ∈ criterion.workRefs.map WorkboardRef.identity).map
      fun projection => (projection.ref.identity, projection))

def WorkProjection.current (observedAt : Int) (projection : WorkProjection) : Bool :=
  projection.availability = .available && !isStaleOutcomeProjection projection observedAt

/-- The evidence of a criterion in this generation that its sources still show. -/
def currentEvidence (record : OutcomeRecord) (criterion : Criterion)
    (sources : List SourceKey) : List EvidenceRef :=
  record.evidence.filter fun evidence =>
    evidence.planGeneration = record.planGeneration && evidence.criterionId = criterion.id &&
      evidence.workRef.identity ∈ criterion.workRefs.map WorkboardRef.identity &&
      evidence.sourceKey ∈ sources

def currentOutcomeEvidenceSourceDigests (record : OutcomeRecord) (criterion : Criterion)
    (projections : List WorkProjection) (observedAt : Int) : Option (List String) :=
  let linked := JsArray.distinct (criterion.workRefs.map WorkboardRef.identity)
  let linkedProjections := linkedProjections criterion projections
  if linked = 0 then none
  else if linkedProjections.size ≠ linked ||
      linkedProjections.values.any (fun projection => !projection.current observedAt) then none
  else some ((currentEvidence record criterion
    (linkedProjections.values.flatMap WorkProjection.sourceKeys)).map EvidenceRef.sourceDigest)

structure CurrentDecision where
  decision : HumanDecision
  sourceDigests : List String
  deriving DecidableEq

/-- The newest decision on a criterion in the current generation. -/
def selectedDecision (record : OutcomeRecord) (criterion : Criterion) : Option HumanDecision :=
  (JsArray.toSorted (fun a b => b.decidedRevision < a.decidedRevision)
    (record.decisions.filter fun candidate =>
      candidate.criterionId = criterion.id &&
        candidate.planGeneration = record.planGeneration)).head?

def currentOutcomeDecision (H : Digests) (record : OutcomeRecord) (criterion : Criterion)
    (projections : List WorkProjection) (observedAt : Int) : Option CurrentDecision := do
  let sourceDigests ← currentOutcomeEvidenceSourceDigests record criterion projections observedAt
  guard (record.planHash ≠ none)
  let expected := evidenceSetHash H
    { criterionId := criterion.id, planGeneration := record.planGeneration, sourceDigests }
  let decision ← selectedDecision record criterion
  guard (some decision.planHash = record.planHash ∧ decision.evidenceSetHash = expected)
  pure { decision, sourceDigests }

/-- What a required criterion adds to a closure; `none` unless it is verified. -/
def closureCriterion (criterion : Criterion) :
    Option CurrentDecision → Option ClosureCriterion
  | none => none
  | some current =>
      if current.decision.status = .verified ∧ current.sourceDigests ≠ [] then
        some { criterionId := criterion.id
               decisionId := current.decision.id
               decidedRevision := current.decision.decidedRevision
               evidenceSetHash := current.decision.evidenceSetHash }
      else none

def closureBlocked (projections : List WorkProjection) (observedAt : Int) : Bool :=
  projections.any fun projection =>
    projection.availability ≠ .available || projection.status = some .blocked ||
      isStaleOutcomeProjection projection observedAt

def deriveOutcomeClosure (H : Digests) (record : OutcomeRecord)
    (projections : List WorkProjection) (observedAt : Int) : Option String := do
  guard (record.phase ≠ .draft ∧ record.phase ≠ .cancelled)
  let planHash ← record.planHash
  guard (!closureBlocked projections observedAt && !record.hasInFlightOperation)
  let current := fun criterion => currentOutcomeDecision H record criterion projections observedAt
  guard (!record.criteria.any fun criterion =>
    (current criterion).any fun decided => decided.decision.status = .rejected)
  let requiredCriteria ← (record.criteria.filter (·.required)).mapM fun criterion =>
    closureCriterion criterion (current criterion)
  pure (outcomeClosureHash H
    { outcomeId := record.id, planGeneration := record.planGeneration, planHash, requiredCriteria })

end Outcomes

/-!
The guidance that an owner is shown beside a record: what needs attention, and which actions
come next. It repeats the guards of the transitions over phases, links, in-flight operations
and the closure.
-/

namespace Outcomes

inductive AttentionCode where
  | contractIncomplete
  | ownerUnavailable
  | stale
  | blocked
  | evidenceMissing
  | verificationRequired
  | rejected
  | acceptanceNeedsReview
  | unknownOperation
  | readyForAcceptance
  deriving DecidableEq

inductive NextAction where
  | refresh
  | reviewEvidence
  | unlinkWork
  | editContract
  | linkWork
  | activate
  | cancel
  | accept
  deriving DecidableEq

structure Attention where
  code : AttentionCode
  criterionId : Option String := none
  deriving DecidableEq

/-- `OutcomeAssuranceGuidance`. -/
structure Guidance where
  attention : List Attention := []
  nextActions : List NextAction := []
  deriving DecidableEq

namespace Guidance

def addAttention (guidance : Guidance) (code : AttentionCode) (criterionId : Option String := none) :
    Guidance :=
  if ⟨code, criterionId⟩ ∈ guidance.attention then guidance
  else { guidance with attention := guidance.attention ++ [⟨code, criterionId⟩] }

def addAction (guidance : Guidance) (action : NextAction) : Guidance :=
  if action ∈ guidance.nextActions then guidance
  else { guidance with nextActions := guidance.nextActions ++ [action] }

end Guidance

/-- `currentOutcomeProjections`: the newest projection of every linked identity. -/
def currentOutcomeProjections (record : OutcomeRecord) : List WorkProjection :=
  let linked := identities record.criteria
  (record.projections.foldl (fun newest projection =>
    if projection.ref.identity ∉ linked then newest
    else
      match newest.get? projection.ref.identity with
      | none => newest.set projection.ref.identity projection
      | some previous =>
          if previous.observedAt < projection.observedAt then
            newest.set projection.ref.identity projection
          else newest) JsMap.empty).values

/-- One ref of a criterion; the flag tells whether all its sources are current. -/
def attendRef (projectionsByRef : JsMap Identity WorkProjection) (observedAt : Int)
    (criterionId : String) (state : Guidance × Bool) (ref : WorkboardRef) : Guidance × Bool :=
  let unavailable :=
    ((state.1.addAttention .ownerUnavailable (some criterionId)).addAction .refresh, false)
  match projectionsByRef.get? ref.identity with
  | none => unavailable
  | some projection =>
      if projection.availability ≠ .available then unavailable
      else if isStaleOutcomeProjection projection observedAt then
        ((state.1.addAttention .stale (some criterionId)).addAction .refresh, false)
      else if projection.status = some .blocked then
        ((state.1.addAttention .blocked (some criterionId)).addAction .refresh, false)
      else state

/-- What the evidence of a criterion with current sources asks for. -/
def attendEvidence (H : Digests) (record : OutcomeRecord) (projections : List WorkProjection)
    (observedAt : Int) (guidance : Guidance) (criterion : Criterion) : Guidance :=
  let planned := record.phase = .active ∨ record.phase = .accepted
  match currentOutcomeEvidenceSourceDigests record criterion projections observedAt with
  | none => guidance
  | some [] =>
      let missing := (guidance.addAttention .evidenceMissing (some criterion.id)).addAction .refresh
      if planned then missing.addAction .reviewEvidence else missing
  | some (_ :: _) =>
      if ¬ planned then guidance
      else
        let reviewed := guidance.addAction .reviewEvidence
        if currentOutcomeDecision H record criterion projections observedAt = none then
          reviewed.addAttention .verificationRequired (some criterion.id)
        else reviewed

def attendCriterion (H : Digests) (record : OutcomeRecord) (projections : List WorkProjection)
    (projectionsByRef : JsMap Identity WorkProjection) (observedAt : Int) (guidance : Guidance)
    (criterion : Criterion) : Guidance :=
  let started :=
    if record.phase = .draft ∨ criterion.required ∧ criterion.workRefs = [] then
      guidance.addAttention .contractIncomplete (some criterion.id)
    else guidance
  let sources := criterion.workRefs.foldl (attendRef projectionsByRef observedAt criterion.id)
    (started, criterion.workRefs ≠ [])
  if sources.2 then attendEvidence H record projections observedAt sources.1 criterion
  else sources.1

/-- The current closure is accepted already. -/
def hasCurrentAcceptance (record : OutcomeRecord) (closureHash : Option String) : Bool :=
  closureHash ≠ none && record.acceptances.any fun acceptance =>
    acceptance.planGeneration = record.planGeneration &&
      some acceptance.planHash = record.planHash && some acceptance.closureHash = closureHash

/-- What the record as a whole asks for, one step after the other. -/
def attendRecord (H : Digests) (record : OutcomeRecord) (projections : List WorkProjection)
    (observedAt : Int) (closureHash : Option String) (guidance : Guidance) : Guidance :=
  let uncertain := record.hasInFlightOperation
  let linked := if record.criteria.any (fun criterion => criterion.workRefs ≠ []) then
      let refreshed := guidance.addAction .refresh
      if !uncertain then refreshed.addAction .unlinkWork else refreshed
    else guidance
  let edited := if !uncertain ∧
      (record.phase = .draft ∨ record.phase = .active ∨ record.phase = .accepted) then
      (linked.addAction .editContract).addAction .linkWork
    else linked
  let activated := if record.phase = .draft ∧ (record.criteria.filter (·.required)).all
      (fun criterion => criterion.workRefs ≠ []) then
      edited.addAction .activate
    else edited
  let cancelled := if (record.phase = .draft ∨ record.phase = .active) ∧ !uncertain then
      activated.addAction .cancel
    else activated
  let rejected := if record.criteria.any (fun criterion =>
      (currentOutcomeDecision H record criterion projections observedAt).any fun current =>
        current.decision.status = .rejected) then
      cancelled.addAttention .rejected
    else cancelled
  let reviewed := if record.acceptances ≠ [] ∧ !hasCurrentAcceptance record closureHash then
      rejected.addAttention .acceptanceNeedsReview
    else rejected
  let operated := if uncertain then reviewed.addAttention .unknownOperation else reviewed
  if closureHash ≠ none ∧ !hasCurrentAcceptance record closureHash then
    ((operated.addAttention .readyForAcceptance).addAction .reviewEvidence).addAction .accept
  else operated

def deriveOutcomeAttention (H : Digests) (record : OutcomeRecord) (projections : List WorkProjection)
    (observedAt : Int) (closureHash : Option String) : Guidance :=
  if record.phase = .cancelled then {}
  else
    let projectionsByRef := JsMap.ofList (projections.map fun projection =>
      (projection.ref.identity, projection))
    attendRecord H record projections observedAt closureHash
      (record.criteria.foldl (attendCriterion H record projections projectionsByRef observedAt) {})

end Outcomes
