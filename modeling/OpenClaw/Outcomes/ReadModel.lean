import OpenClaw.Outcomes.Closure
import OpenClaw.Outcomes.Validity

/-!
What an owner is shown of a record: the summary, and per criterion the hash of the
evidence set that a decision has to name. The sources come from one authorized read
of the cards; the projections and evidence are those of the same observation.
-/

namespace Outcomes

inductive Readiness where
  | incomplete
  | blocked
  | ready
  | stale
  | unavailable
  deriving DecidableEq

inductive AcceptanceValidity where
  | none
  | current
  | needsReview
  deriving DecidableEq

structure OutcomeSummary where
  id : String
  title : String
  phase : Phase
  revision : Nat
  updatedAt : Int
  readiness : Readiness
  acceptanceValidity : AcceptanceValidity
  deriving DecidableEq

inductive ProofStatus where
  | passed
  | failed
  | skipped
  | unknown
  deriving DecidableEq

/-- An evidence item with the display fields of its source. -/
structure EvidenceView extends EvidenceRef where
  sourceCreatedAt : Finite
  label : Option String := none
  proofStatus : Option ProofStatus := none
  mimeType : Option String := none
  deriving DecidableEq

structure AuthorizedOutcomeSource where
  ref : WorkboardRef
  currentBoardId : String
  status : WorkStatus
  sourceUpdatedAt : Finite
  upstreamStale : Bool
  evidence : List EvidenceView
  deriving DecidableEq

/-- `withObservedEvidence`. -/
def OutcomeRecord.withEvidence (record : OutcomeRecord) (evidence : List EvidenceRef) :
    OutcomeRecord :=
  { record with evidence }

def OutcomeRecord.latestAcceptance (record : OutcomeRecord) : Option Acceptance :=
  (JsArray.toSorted (fun left right => right.acceptedRevision < left.acceptedRevision)
    record.acceptances).head?

/-- The validity of the latest acceptance under the closure that holds now. -/
def acceptanceValidity (record : OutcomeRecord) (closureHash : Option String) :
    AcceptanceValidity :=
  match record.latestAcceptance with
  | none => .none
  | some latest =>
      if closureHash ≠ none ∧ latest.planGeneration = record.planGeneration ∧
          some latest.planHash = record.planHash ∧ some latest.closureHash = closureHash then
        .current
      else .needsReview

def isUnavailableSource (projection : WorkProjection) : Bool :=
  projection.availability ≠ .available || projection.errorCode.any (· ≠ .identityConflict)

def toOutcomeSummary (H : Digests) (record : OutcomeRecord) (observedAt : Int)
    (projections : List WorkProjection) (observedEvidence : List EvidenceRef) : OutcomeSummary :=
  let observed := record.withEvidence observedEvidence
  let closureHash := deriveOutcomeClosure H observed projections observedAt
  let currentRejected := observed.criteria.any fun criterion =>
    (currentOutcomeDecision H observed criterion projections observedAt).any fun current =>
      current.decision.status = .rejected
  { id := observed.id
    title := observed.title
    phase := observed.phase
    revision := observed.revision
    updatedAt := observed.updatedAt
    readiness :=
      if projections.any isUnavailableSource then .unavailable
      else if projections.any (isStaleOutcomeProjection · observedAt) then .stale
      else if (projections.any fun projection => projection.status = some .blocked) ||
          observed.hasInFlightOperation || currentRejected || observed.phase = .cancelled then
        .blocked
      else if closureHash = none then .incomplete
      else .ready
    acceptanceValidity := acceptanceValidity observed closureHash }

inductive SourcesVisibility where
  | complete
  | restricted
  deriving DecidableEq

structure CriterionView where
  id : String
  text : String
  required : Bool
  workRefs : List WorkboardRef
  sourcesVisibility : SourcesVisibility
  evidenceSetHash : Option String
  deriving DecidableEq

/-- The part of `OutcomeDetail` that requests refer back to. -/
structure OutcomeDetail where
  summary : OutcomeSummary
  objective : String
  contractRevision : Nat
  planGeneration : Nat
  planHash : Option String
  createdAt : Int
  criteria : List CriterionView
  observedAt : Int
  closureHash : Option String
  deriving DecidableEq

/-- One criterion of `toOutcomeDetail`. -/
def criterionView (H : Digests) (record : OutcomeRecord) (observedAt : Int)
    (sourcesByRef : JsMap Identity AuthorizedOutcomeSource)
    (projectionsByRef : JsMap Identity WorkProjection) (criterion : Criterion) : CriterionView :=
  let visibleRefs := criterion.workRefs.filter fun ref => sourcesByRef.has ref.identity
  let sourcesComplete := visibleRefs.length = criterion.workRefs.length
  let sourcesCurrent := sourcesComplete ∧ visibleRefs.all fun ref =>
    (projectionsByRef.get? ref.identity).any (WorkProjection.current observedAt)
  let sourceDigests := if sourcesComplete then
      visibleRefs.flatMap fun ref =>
        (((sourcesByRef.get? ref.identity).elim [] AuthorizedOutcomeSource.evidence).filter
          fun evidence => evidence.criterionId = criterion.id &&
            evidence.planGeneration = record.planGeneration).map (·.sourceDigest)
    else []
  { id := criterion.id
    text := criterion.text
    required := criterion.required
    workRefs := if sourcesComplete then visibleRefs else []
    sourcesVisibility := if sourcesComplete then .complete else .restricted
    evidenceSetHash :=
      if record.phase ≠ .draft ∧ record.phase ≠ .cancelled ∧ sourcesCurrent ∧
          0 < criterion.workRefs.length then
        some (Outcomes.evidenceSetHash H
          { criterionId := criterion.id, planGeneration := record.planGeneration, sourceDigests })
      else none }

def toOutcomeDetail (H : Digests) (record : OutcomeRecord) (observedAt : Int)
    (authorizedSources : List AuthorizedOutcomeSource) (observedProjections : List WorkProjection)
    (observedEvidence : List EvidenceRef) : OutcomeDetail :=
  let sourcesByRef := JsMap.ofList (authorizedSources.map fun source =>
    (source.ref.identity, source))
  let projectionsByRef := JsMap.ofList (observedProjections.map fun projection =>
    (projection.ref.identity, projection))
  { summary := toOutcomeSummary H record observedAt observedProjections observedEvidence
    objective := record.objective
    contractRevision := record.contractRevision
    planGeneration := record.planGeneration
    planHash := record.planHash
    createdAt := record.createdAt
    criteria := record.criteria.map (criterionView H record observedAt sourcesByRef projectionsByRef)
    observedAt
    closureHash := deriveOutcomeClosure H (record.withEvidence observedEvidence)
      observedProjections observedAt }

end Outcomes

/-!
Plan generations make plans safe against ABA. A contract change outside a draft starts
a generation that was never used before, and decisions and acceptances only count in
the generation they were made in, so none counts again once the contract changed.
-/

namespace Outcomes

open Transition

variable {H : Digests} {brought : List WorkProjection} {r m n next : OutcomeRecord} {d : HumanDecision} {a : Acceptance}

/-- What the plan is about: the objective and the criteria with their links. -/
def OutcomeRecord.contract (record : OutcomeRecord) : String × List Criterion :=
  (record.objective, record.criteria)

/-- What one operation does to the generation and the histories. -/
structure Advances (r next : OutcomeRecord) : Prop where
  generation : r.planGeneration ≤ next.planGeneration
  contract : next.contract ≠ r.contract → r.phase ≠ .draft →
    r.planGeneration < next.planGeneration
  planned : r.phase ≠ .draft → next.phase ≠ .draft
  decisions : r.decisions ⊆ next.decisions
  acceptances : r.acceptances ⊆ next.acceptances
  decided : ∀ d ∈ next.decisions, d ∉ r.decisions →
    next.phase ≠ .draft ∧ d.planGeneration = next.planGeneration
  accepted : ∀ a ∈ next.acceptances, a ∉ r.acceptances →
    next.phase ≠ .draft ∧ a.planGeneration = next.planGeneration

/-- An operation that leaves the contract and the histories alone. -/
theorem Advances.of_same (generation : r.planGeneration ≤ next.planGeneration)
    (contract : next.contract = r.contract) (planned : r.phase ≠ .draft → next.phase ≠ .draft)
    (decisions : next.decisions = r.decisions) (acceptances : next.acceptances = r.acceptances) :
    Advances r next where
  generation := generation
  contract changed := absurd contract changed
  planned := planned
  decisions := decisions ▸ List.Subset.refl _
  acceptances := acceptances ▸ List.Subset.refl _
  decided _ mem new := absurd (decisions ▸ mem) new
  accepted _ mem new := absurd (acceptances ▸ mem) new

theorem Advances.refl (r : OutcomeRecord) : Advances r r :=
  .of_same (le_refl _) rfl id rfl rfl

theorem OutcomeRecord.HasPlan.ne_draft (planned : r.HasPlan) : r.phase ≠ .draft := by
  rcases planned with phase | phase <;> simp [phase]

theorem Moves.advances (plan : PlanRules H r) (moves : Moves H brought r next) : Advances r next := by
  cases moves with
  | title => exact .of_same (le_refl _) rfl id rfl rfl
  | contract title objective criteria serverTime hash live rules hashed =>
      refine ⟨?_, fun _ active => ?_, fun active => ?_, List.Subset.refl _, List.Subset.refl _,
        fun d mem new => absurd mem new, fun a mem new => absurd mem new⟩
      · by_cases draft : r.phase = .draft
        · have zero : r.planGeneration = 0 := by
            simp only [PlanRules, draft] at plan
            exact plan.1
          simp [zero]
        · simp [draft]
      · simp [active]
      · by_cases accepted : r.phase = .accepted <;> simp [accepted, active]
  | activate hash serverTime draft hashed =>
      refine .of_same ?_ rfl (fun active => absurd draft active) rfl rfl
      simp only [PlanRules, draft] at plan
      simp [plan.1]
  | refresh o serverTime observes live =>
      rw [observes.same]
      exact .of_same (le_refl _) rfl id rfl rfl
  | decide o mutation hash observes planned hashed known fresh =>
      rw [observes.same]
      refine ⟨le_refl _, fun changed => absurd rfl changed, id, fun d mem => ?_,
        List.Subset.refl _, fun d mem new => ?_, fun a mem new => absurd mem new⟩
      · exact List.mem_append_left _ mem
      · cases List.mem_singleton.mp ((List.mem_append.mp mem).resolve_left new)
        exact ⟨planned.ne_draft, rfl⟩
  | accept o mutation hash closureHash observes planned hashed fresh =>
      rw [observes.same]
      refine ⟨le_refl _, fun changed => absurd rfl changed, by simp, List.Subset.refl _,
        fun a mem => ?_, fun d mem new => absurd mem new, fun a mem new => ?_⟩
      · exact List.mem_append_left _ mem
      · cases List.mem_singleton.mp ((List.mem_append.mp mem).resolve_left new)
        exact ⟨by simp, rfl⟩
  | cancel => exact .of_same (le_refl _) rfl (by simp) rfl rfl

/-- A record whose histories were made under plans it has reached. -/
structure Ordered (r : OutcomeRecord) : Prop where
  decided : ∀ d ∈ r.decisions, r.phase ≠ .draft ∧ d.planGeneration ≤ r.planGeneration
  accepted : ∀ a ∈ r.acceptances, r.phase ≠ .draft ∧ a.planGeneration ≤ r.planGeneration

theorem Ordered.advances (ordered : Ordered r) (advances : Advances r next) : Ordered next where
  decided d mem := by
    by_cases old : d ∈ r.decisions
    · exact ⟨advances.planned (ordered.decided d old).1,
        (ordered.decided d old).2.trans advances.generation⟩
    · have new := advances.decided d mem old
      exact ⟨new.1, new.2.le⟩
  accepted a mem := by
    by_cases old : a ∈ r.acceptances
    · exact ⟨advances.planned (ordered.accepted a old).1,
        (ordered.accepted a old).2.trans advances.generation⟩
    · have new := advances.accepted a mem old
      exact ⟨new.1, new.2.le⟩

namespace Operation

theorem advances_of_step {op : Operation} (rules : RecordRules H r)
    (taken : step H r op = some next) : Advances r next := by
  obtain ⟨res, applied, rfl⟩ := Option.map_eq_some_iff.mp taken
  rcases settles applied with ⟨_, _, _, moves⟩ | ⟨_, same⟩
  · exact moves.advances rules.plan
  · exact same ▸ .refl r

theorem ordered_of_reaches (created : Created m) (run : Reaches (step H) (Observed H) m n) :
    RecordRules H n ∧ Ordered n := by
  refine run.invariant (P := fun r => RecordRules H r ∧ Ordered r) ⟨created.rules, ?_⟩
    fun x op y known observed taken => ⟨rules_of_step known.1 observed taken,
      known.2.advances (advances_of_step known.1 taken)⟩
  obtain ⟨id, requestHash, owner, title, objective, criteria, now, rfl⟩ := created
  exact ⟨fun d mem => absurd mem List.not_mem_nil, fun a mem => absurd mem List.not_mem_nil⟩

theorem generation_le_of_reaches (rules : RecordRules H m)
    (run : Reaches (step H) (Observed H) m n) : m.planGeneration ≤ n.planGeneration := by
  have both := run.invariant (P := fun r => RecordRules H r ∧ m.planGeneration ≤ r.planGeneration)
    ⟨rules, le_refl _⟩ fun x op y known observed taken => ⟨rules_of_step known.1 observed taken,
      known.2.trans (advances_of_step known.1 taken).generation⟩
  exact both.2

end Operation

theorem mem_selectedDecision {criterion : Criterion} (selected : selectedDecision r criterion = some d) :
    d ∈ r.decisions ∧ d.planGeneration = r.planGeneration := by
  have mem := JsArray.mem_toSorted.mp (List.mem_of_mem_head? selected)
  obtain ⟨inside, same⟩ := List.mem_filter.mp mem
  simp only [Bool.and_eq_true, decide_eq_true_eq] at same
  exact ⟨inside, same.2⟩

theorem decision_of_current {criterion : Criterion} {projections : List WorkProjection} {now : Int}
    {current : CurrentDecision}
    (holds : currentOutcomeDecision H r criterion projections now = some current) :
    current.decision.planGeneration = r.planGeneration := by
  simp only [currentOutcomeDecision, Option.bind_eq_bind, Option.bind_eq_some_iff,
    Option.pure_def, Option.some.injEq] at holds
  obtain ⟨digests, _, _, _, decision, selected, _, _, rfl⟩ := holds
  exact (mem_selectedDecision selected).2

/-- The record as if the decision had never been made. -/
def OutcomeRecord.without (record : OutcomeRecord) (d : HumanDecision) : OutcomeRecord :=
  { record with decisions := record.decisions.filter (· ≠ d) }

theorem selectedDecision_without {criterion : Criterion} (past : d.planGeneration ≠ r.planGeneration) :
    selectedDecision (r.without d) criterion = selectedDecision r criterion := by
  have same : (r.without d).decisions.filter (fun candidate =>
        candidate.criterionId = criterion.id && candidate.planGeneration = r.planGeneration) =
      r.decisions.filter (fun candidate =>
        candidate.criterionId = criterion.id && candidate.planGeneration = r.planGeneration) := by
    rw [OutcomeRecord.without, List.filter_filter]
    refine List.filter_congr fun candidate _ => ?_
    by_cases eq : candidate = d
    · simp [eq, past]
    · simp [eq]
  unfold selectedDecision
  exact congrArg (fun candidates => (JsArray.toSorted _ candidates).head?) same

theorem closure_without {projections : List WorkProjection} {now : Int}
    (past : d.planGeneration ≠ r.planGeneration) :
    deriveOutcomeClosure H (r.without d) projections now =
      deriveOutcomeClosure H r projections now := by
  have same : ∀ criterion, currentOutcomeDecision H (r.without d) criterion projections now =
      currentOutcomeDecision H r criterion projections now := by
    intro criterion
    unfold currentOutcomeDecision
    rw [selectedDecision_without past]
    rfl
  unfold deriveOutcomeClosure
  simp only [same]
  rfl

theorem acceptanceValidity_current {closureHash : Option String}
    (valid : acceptanceValidity r closureHash = .current) :
    ∃ latest, r.latestAcceptance = some latest ∧ latest.planGeneration = r.planGeneration := by
  unfold acceptanceValidity at valid
  split at valid
  · cases valid
  case h_2 latest found =>
    split at valid
    case isTrue same => exact ⟨latest, found, same.2.1⟩
    case isFalse => cases valid

/-- What a record that has moved past the generation `generation` does with its histories. -/
structure Retired (H : Digests) (r : OutcomeRecord) (decisions : List HumanDecision)
    (acceptances : List Acceptance) : Prop where
  notCurrent : ∀ d ∈ decisions, ∀ evidence criterion projections now current,
    currentOutcomeDecision H (r.withEvidence evidence) criterion projections now = some current →
      current.decision ≠ d
  noPartInClosure : ∀ d ∈ decisions, ∀ evidence projections now,
    deriveOutcomeClosure H ((r.withEvidence evidence).without d) projections now =
      deriveOutcomeClosure H (r.withEvidence evidence) projections now
  notValid : ∀ a ∈ acceptances, r.latestAcceptance = some a → ∀ evidence projections now,
    (toOutcomeSummary H r now projections evidence).acceptanceValidity ≠ .current

theorem Retired.of_past {decisions : List HumanDecision} {acceptances : List Acceptance}
    (decided : ∀ d ∈ decisions, d.planGeneration < r.planGeneration)
    (accepted : ∀ a ∈ acceptances, a.planGeneration < r.planGeneration) :
    Retired H r decisions acceptances where
  notCurrent d mem evidence criterion projections now current holds same := by
    have generation := decision_of_current holds
    rw [same] at generation
    exact (decided d mem).ne generation
  noPartInClosure d mem evidence projections now :=
    closure_without (r := r.withEvidence evidence) (decided d mem).ne
  notValid a mem latest evidence projections now valid := by
    obtain ⟨other, found, generation⟩ := acceptanceValidity_current valid
    cases latest.symm.trans found
    exact (accepted a mem).ne generation

namespace Operation

/-- Along every run the generation never decreases, every contract change outside a
draft increases it, and retires what was decided and accepted before. -/
theorem plans_aba_safe {o : OutcomeRecord} {op : Operation} (created : Created o)
    (run : Reaches (step H) (Observed H) o m) (observed : Observed H m op)
    (taken : step H m op = some n) :
    m.planGeneration ≤ n.planGeneration ∧
    (n.contract ≠ m.contract →
      (m.phase ≠ .draft → m.planGeneration < n.planGeneration) ∧
      ∀ r, Reaches (step H) (Observed H) n r → Retired H r m.decisions m.acceptances) := by
  obtain ⟨rules, ordered⟩ := ordered_of_reaches created run
  have advances := advances_of_step rules taken
  refine ⟨advances.generation, fun changed => ⟨advances.contract changed, fun r later => ?_⟩⟩
  have grown := generation_le_of_reaches (rules_of_step rules observed taken) later
  refine .of_past (fun d mem => ?_) (fun a mem => ?_)
  · obtain ⟨planned, bound⟩ := ordered.decided d mem
    exact lt_of_lt_of_le (lt_of_le_of_lt bound (advances.contract changed planned)) grown
  · obtain ⟨planned, bound⟩ := ordered.accepted a mem
    exact lt_of_lt_of_le (lt_of_le_of_lt bound (advances.contract changed planned)) grown

/-- Reject a criterion, relink it to another card and back. -/
def abaRun : List Operation :=
  [.link 1 "c" ⟨"card", 5, "board"⟩ 1, .activate 2 2, .verifyCriterion rejection]

theorem plans_aba_safe_unlink : ∃ m n : OutcomeRecord,
    (m.decisions.map HumanDecision.id = ["d"] ∧ m.planGeneration = 1 ∧ n.planGeneration = 2) ∧
      ∀ r, Reaches (step constantDigests) (Observed constantDigests) n r →
        Retired constantDigests r m.decisions m.acceptances := by
  obtain ⟨m, run, decided, generation, n, taken, generation', changed⟩ :=
    Reaches.exists_of_exec (step constantDigests) CardOnly exampleDraft
      (P := fun m => m.decisions.map HumanDecision.id = ["d"] ∧ m.planGeneration = 1 ∧
        ∃ n ∈ step constantDigests m (.unlink 4 "c" "card" 9),
          n.planGeneration = 2 ∧ n.contract ≠ m.contract)
      abaRun (by decide) (by decide)
  have safe := plans_aba_safe exampleDraft_created (run.mono fun _ _ => observed_of_cardOnly)
    (fun _ mem => absurd mem List.not_mem_nil) taken
  exact ⟨m, n, ⟨decided, generation, generation'⟩, (safe.2 changed).2⟩

end Operation
end Outcomes
