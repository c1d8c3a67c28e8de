import OpenClaw.Outcomes.ReadModel

/-!
One authorized read of the Workboard cards and the observation built from it. The
adapter rejects cards whose proofs or artifacts repeat an id, and evidence is only
extracted from the card that its ref identifies; both are carried by the types.
-/

namespace Outcomes

structure WorkboardProof where
  id : String
  status : ProofStatus
  createdAt : Finite
  label : Option String := none
  command : Option String := none
  url : Option String := none
  note : Option String := none
  deriving DecidableEq

structure WorkboardArtifact where
  id : String
  createdAt : Finite
  label : Option String := none
  url : Option String := none
  path : Option String := none
  mimeType : Option String := none
  deriving DecidableEq

/-- A card as `readWorkboardCards` returns it. -/
structure WorkboardCard where
  id : String
  createdAt : Finite
  updatedAt : Finite
  status : WorkStatus
  boardId : String
  upstreamStale : Bool
  proofs : List WorkboardProof
  artifacts : List WorkboardArtifact
  proofIds : (proofs.map WorkboardProof.id).Nodup
  artifactIds : (artifacts.map WorkboardArtifact.id).Nodup
  deriving DecidableEq

/-- `canonicalSourceFields`. -/
inductive SourceFields where
  | proof (fields : WorkboardProof)
  | artifact (fields : WorkboardArtifact)
  deriving DecidableEq

namespace SourceFields

def kind : SourceFields → EvidenceKind
  | proof _ => .proof
  | artifact _ => .artifact

def id : SourceFields → String
  | proof fields => fields.id
  | artifact fields => fields.id

end SourceFields

namespace WorkboardCard

def identity (card : WorkboardCard) : Identity := (card.id, card.createdAt)

/-- The proofs, then the artifacts of a card. -/
def sources (card : WorkboardCard) : List SourceFields :=
  card.proofs.map .proof ++ card.artifacts.map .artifact

end WorkboardCard

structure SourceInput where
  cardId : String
  cardCreatedAt : Finite
  currentBoardId : String
  source : SourceFields
  deriving DecidableEq

structure EvidenceInput where
  criterionId : String
  generation : Nat
  cardId : String
  cardCreatedAt : Finite
  kind : EvidenceKind
  sourceId : String
  sourceDigest : String
  deriving DecidableEq

/-- The digests of source material and of evidence refs. -/
structure SourceDigests where
  source : SourceInput → String
  evidenceRef : EvidenceInput → String

/-- The card of a ref. -/
abbrev MatchedCard (ref : WorkboardRef) := { card : WorkboardCard // ref.identity = card.identity }

variable (H : Digests) (D : SourceDigests)

def sourceDigest (card : WorkboardCard) (source : SourceFields) : String :=
  D.source ⟨card.id, card.createdAt, card.boardId, source⟩

/-- The value an evidence id is the digest of. -/
def evidenceInput (criterionId : String) (planGeneration : Nat) (card : WorkboardCard)
    (source : SourceFields) : EvidenceInput :=
  ⟨criterionId, planGeneration, card.id, card.createdAt, source.kind, source.id,
    sourceDigest D card source⟩

def evidenceRef (criterionId : String) (planGeneration : Nat) (observedAt : Int)
    (workRef : WorkboardRef) (card : WorkboardCard) (source : SourceFields) : EvidenceRef where
  id := D.evidenceRef (evidenceInput D criterionId planGeneration card source)
  criterionId := criterionId
  planGeneration := planGeneration
  workRef := workRef
  kind := source.kind
  sourceId := source.id
  sourceDigest := sourceDigest D card source
  observedAt := observedAt

/-- `"workboard-artifact" < "workboard-proof"`. -/
def evidenceBefore (left right : EvidenceRef) : Bool :=
  if left.kind = right.kind then
    JsArray.thenBy left.sourceId right.sourceId (JsText.lt left.sourceDigest right.sourceDigest)
  else left.kind = .artifact

def extractWorkboardEvidence (criterionId : String) (planGeneration : Nat) (observedAt : Int)
    (workRef : WorkboardRef) (card : MatchedCard workRef) : List EvidenceRef :=
  JsArray.toSorted evidenceBefore
    (card.1.sources.map (evidenceRef D criterionId planGeneration observedAt workRef card.1))

/-- The card of a ref in a list of cards, or why there is none. -/
def matchCard (cards : List WorkboardCard) (ref : WorkboardRef) :
    Except SourceIssue (MatchedCard ref) :=
  match cards.filter fun card => card.id = ref.cardId with
  | [] => .error .notFound
  | [card] => if same : ref.identity = card.identity then .ok ⟨card, same⟩
      else .error .identityConflict
  | _ => .error .identityConflict

/-- The first ref of every identity. -/
def uniqueWorkRefs : List WorkboardRef → List WorkboardRef
  | [] => []
  | ref :: refs => ref :: (uniqueWorkRefs refs).filter fun other => other.identity ≠ ref.identity

def uniqueSourcePairs (items : List SourcePair) : List SourcePair :=
  JsArray.toSorted pairBefore items.dedup

def unavailableProjection (observedAt : Int) (ref : WorkboardRef) (reason : SourceIssue) :
    WorkProjection where
  ref := ref
  availability := if reason = .identityConflict then .identityConflict else .unavailable
  observedAt := observedAt
  errorCode := some reason

/-- The observed evidence of the criteria of a record. -/
def observedEvidence (record : OutcomeRecord) (cards : List WorkboardCard) (observedAt : Int) :
    List EvidenceRef :=
  record.criteria.flatMap fun criterion => criterion.workRefs.flatMap fun ref =>
    match matchCard cards ref with
    | .ok card =>
        extractWorkboardEvidence D criterion.id record.planGeneration observedAt ref card
    | .error _ => []

/-- The pairs of one kind among the evidence of an identity. -/
def sourcePairs (evidence : List EvidenceRef) (identity : Identity) (kind : EvidenceKind) :
    List SourcePair :=
  uniqueSourcePairs ((evidence.filter fun item =>
    item.workRef.identity = identity && item.kind = kind).map fun item =>
      ⟨item.sourceId, item.sourceDigest⟩)

def availableProjection (evidence : List EvidenceRef) (observedAt : Int) (ref : WorkboardRef)
    (card : WorkboardCard) : WorkProjection :=
  let proofs := sourcePairs evidence ref.identity .proof
  let artifacts := sourcePairs evidence ref.identity .artifact
  { ref
    availability := .available
    observedAt
    proofs
    artifacts
    currentBoardId := some card.boardId
    status := some card.status
    sourceUpdatedAt := some card.updatedAt
    lastSuccessfulAt := some observedAt
    upstreamStale := some card.upstreamStale
    sourceFingerprint := some (workboardProjectionFingerprint H
      { ref, proofs, artifacts
        currentBoardId := card.boardId
        status := card.status
        sourceUpdatedAt := card.updatedAt }) }

def observedProjection (cards : List WorkboardCard) (evidence : List EvidenceRef)
    (observedAt : Int) (ref : WorkboardRef) : WorkProjection :=
  match matchCard cards ref with
  | .ok card => availableProjection H evidence observedAt ref card.1
  | .error reason => unavailableProjection observedAt ref reason

/-- The view of an evidence item while its source is on the card. -/
def evidenceView (card : WorkboardCard) (item : EvidenceRef) : Option EvidenceView :=
  match item.kind with
  | .proof => (card.proofs.find? fun proof => proof.id = item.sourceId).map fun proof =>
      { item with
        sourceCreatedAt := proof.createdAt
        label := proof.label
        proofStatus := some proof.status }
  | .artifact => (card.artifacts.find? fun artifact => artifact.id = item.sourceId).map
      fun artifact =>
        { item with
          sourceCreatedAt := artifact.createdAt
          label := artifact.label
          mimeType := artifact.mimeType }

def authorizedSource (evidence : List EvidenceRef) (ref : WorkboardRef) (card : WorkboardCard) :
    AuthorizedOutcomeSource where
  ref := ref
  currentBoardId := card.boardId
  status := card.status
  sourceUpdatedAt := card.updatedAt
  upstreamStale := card.upstreamStale
  evidence := (evidence.filter fun item => item.workRef.identity = ref.identity).filterMap
    (evidenceView card)

inductive RefreshStatus where
  | available
  | unavailable
  | identityConflict
  deriving DecidableEq

structure RefreshCandidate where
  projections : List WorkProjection
  evidence : List EvidenceRef
  authorizedSources : List AuthorizedOutcomeSource
  status : RefreshStatus
  reason : Option SourceIssue
  deriving DecidableEq

def linkedRefs (record : OutcomeRecord) : List WorkboardRef :=
  uniqueWorkRefs (record.criteria.flatMap Criterion.workRefs)

def unavailableRefresh (record : OutcomeRecord) (observedAt : Int) (reason : SourceIssue) :
    RefreshCandidate where
  projections := (linkedRefs record).map fun ref => unavailableProjection observedAt ref reason
  evidence := []
  authorizedSources := []
  status := if reason = .identityConflict then .identityConflict else .unavailable
  reason := some reason

def buildRefreshCandidate (record : OutcomeRecord) (cards : List WorkboardCard)
    (observedAt : Int) : RefreshCandidate :=
  let evidence := observedEvidence D record cards observedAt
  let projections := (linkedRefs record).map (observedProjection H cards evidence observedAt)
  let unavailable := projections.find? fun projection => projection.availability = .unavailable
  { projections
    evidence
    authorizedSources := (linkedRefs record).filterMap fun ref =>
      match matchCard cards ref with
      | .ok card => some (authorizedSource evidence ref card.1)
      | .error _ => none
    status :=
      if projections.any fun projection => projection.availability = .identityConflict then
        .identityConflict
      else if unavailable = none then .available else .unavailable
    reason :=
      if projections.any fun projection => projection.availability = .identityConflict then
        some .identityConflict
      else unavailable.bind WorkProjection.errorCode }

/-- `toOutcomeDetail` over the observation of a list of cards. -/
def observedDetail (record : OutcomeRecord) (cards : List WorkboardCard) (observedAt : Int) :
    OutcomeDetail :=
  let candidate := buildRefreshCandidate H D record cards observedAt
  toOutcomeDetail H record observedAt candidate.authorizedSources candidate.projections
    candidate.evidence

end Outcomes
