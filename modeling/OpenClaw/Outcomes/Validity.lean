import OpenClaw.Outcomes.Steps
import OpenClaw.Lib.Transition

/-!
Every record that the gateway operations make of a created draft satisfies the
cross-field rules of the stored aggregate. The plan rules carry the snapshots: a
decision or acceptance is taken only while the plan hash is the one of the plan.
-/

namespace Outcomes

open Transition

variable {H : Digests} {brought : List WorkProjection} {r o next : OutcomeRecord}

theorem planHash_eq_some {plan : PlanSnapshot} {hash : String} :
    planHash H plan = some hash ↔ plan.Valid ∧ hash = hashValidatedCanonicalPlan H plan := by
  unfold planHash
  split
  case isTrue valid => simp [valid, eq_comm]
  case isFalse invalid => simp [invalid]

/-- While a record has a plan, its hash is the one of the current contract. -/
theorem PlanRules.hashed (plan : PlanRules H r) (planned : r.HasPlan) :
    1 ≤ r.planGeneration ∧ r.planHash ≠ none ∧ r.planHash = planHash H r.plan := by
  rcases planned with phase | phase <;> simpa [PlanRules, phase] using plan

theorem PlanRules.snapshot {hash : String} (plan : PlanRules H r) (planned : r.HasPlan)
    (hashed : r.planHash = some hash) :
    SnapshotRules H r r.planGeneration hash r.plan := by
  obtain ⟨_, _, same⟩ := plan.hashed planned
  obtain ⟨valid, hash⟩ := planHash_eq_some.mp (same.symm.trans hashed)
  exact ⟨valid, rfl, rfl, hash⟩

theorem SnapshotRules.of_id {generation : Nat} {hash : String} {plan : PlanSnapshot}
    (rules : SnapshotRules H r generation hash plan) (same : next.id = r.id) :
    SnapshotRules H next generation hash plan :=
  ⟨rules.valid, rules.outcomeId.trans same.symm, rules.generation, rules.hashed⟩

/-- A later revision of the same record with another plan. -/
theorem RecordRules.revised (rules : RecordRules H r) (id : next.id = r.id)
    (criteria : CriteriaRules next.criteria)
    (contractRevision : next.contractRevision ≤ next.revision) (revision : r.revision ≤ next.revision)
    (evidence : (next.evidence.map EvidenceRef.id).Nodup) (operations : next.operations = r.operations)
    (decisions : next.decisions = r.decisions) (acceptances : next.acceptances = r.acceptances)
    (projections : ∀ projection ∈ next.projections, ProjectionRules H projection)
    (plan : PlanRules H next) : RecordRules H next where
  criteria := criteria
  contractRevision := contractRevision
  decisionRevisions decision mem :=
    (rules.decisionRevisions decision (decisions ▸ mem)).trans revision
  decisionRevisionsUnique := decisions ▸ rules.decisionRevisionsUnique
  acceptanceRevisions acceptance mem :=
    (rules.acceptanceRevisions acceptance (acceptances ▸ mem)).trans revision
  evidenceIds := evidence
  decisionIds := decisions ▸ rules.decisionIds
  operationIds := operations ▸ rules.operationIds
  acceptanceIds := acceptances ▸ rules.acceptanceIds
  plan := plan
  projections := projections
  decisions decision mem := by
    obtain ⟨snapshot, known⟩ := rules.decisions decision (decisions ▸ mem)
    exact ⟨snapshot.of_id id, known⟩
  acceptances acceptance mem := (rules.acceptances acceptance (acceptances ▸ mem)).of_id id

theorem nodup_map_concat {α β : Type*} {xs : List α} {x : α} {f : α → β}
    (nodup : (xs.map f).Nodup) (fresh : ∀ y ∈ xs, f y ≠ f x) : ((xs ++ [x]).map f).Nodup := by
  rw [List.map_append, List.map_singleton]
  refine List.nodup_append'.mpr ⟨nodup, List.nodup_singleton _, ?_⟩
  rw [List.disjoint_singleton]
  intro mem
  obtain ⟨y, inside, same⟩ := List.mem_map.mp mem
  exact fresh y inside same

theorem ProjectionRules.cached {projection : WorkProjection} {previous : Option WorkProjection}
    (rules : ProjectionRules H projection)
    (old : ∀ earlier ∈ previous, ProjectionRules H earlier) :
    ProjectionRules H (projection.cached previous) := by
  unfold WorkProjection.cached
  split
  · exact rules
  case isFalse unavailable =>
    cases previous with
    | none => exact rules
    | some earlier =>
        cases availability : projection.availability with
        | available => exact absurd availability unavailable
        | unavailable =>
            simp only [ProjectionRules, availability] at rules ⊢
            cases code : projection.errorCode with
            | none => exact absurd code rules.2.1
            | some reason => simpa [code] using rules.2.2
        | identityConflict =>
            simp only [ProjectionRules, availability] at rules ⊢
            simp [rules.2]

theorem RecordRules.observes (rules : RecordRules H r)
    (valid : ∀ projection ∈ brought, ProjectionRules H projection) (observes : Observes brought r o) :
    RecordRules H o := by
  have projections : ∀ projection ∈ o.projections, ProjectionRules H projection := by
    intro projection mem
    rcases observes.projections projection mem with old | ⟨source, inside, previous, earlier, rfl⟩
    · exact rules.projections projection old
    · exact (valid source inside).cached fun other at_ => rules.projections other (earlier other at_)
  have evidence := observes.evidenceIds rules.evidenceIds
  rw [observes.same] at projections evidence ⊢
  exact rules.revised rfl rules.criteria rules.contractRevision (le_refl _) evidence rfl rfl rfl
    projections rules.plan

theorem RecordRules.decided {mutation : DecisionMutation} {hash : String}
    (rules : RecordRules H o) (planned : o.HasPlan) (hashed : o.planHash = some hash)
    (known : ∃ criterion ∈ o.criteria, criterion.id = mutation.criterionId)
    (fresh : ∀ decision ∈ o.decisions, decision.id ≠ mutation.id) :
    RecordRules H { o with
      decisions := o.decisions ++ [OutcomeRecord.decisionOf mutation o hash]
      revision := o.revision + 1
      updatedAt := mutation.serverTime } where
  criteria := rules.criteria
  contractRevision := Nat.le_succ_of_le rules.contractRevision
  decisionRevisions decision mem := by
    rcases List.mem_append.mp mem with old | new
    · exact Nat.le_succ_of_le (rules.decisionRevisions decision old)
    · cases List.mem_singleton.mp new
      exact le_refl _
  decisionRevisionsUnique := nodup_map_concat rules.decisionRevisionsUnique fun decision mem =>
    Nat.ne_of_lt (Nat.lt_succ_of_le (rules.decisionRevisions decision mem))
  acceptanceRevisions acceptance mem :=
    Nat.le_succ_of_le (rules.acceptanceRevisions acceptance mem)
  evidenceIds := rules.evidenceIds
  decisionIds := nodup_map_concat rules.decisionIds fresh
  operationIds := rules.operationIds
  acceptanceIds := rules.acceptanceIds
  plan := rules.plan
  projections := rules.projections
  decisions decision mem := by
    rcases List.mem_append.mp mem with old | new
    · obtain ⟨snapshot, inside⟩ := rules.decisions decision old
      exact ⟨snapshot.of_id rfl, inside⟩
    · cases List.mem_singleton.mp new
      exact ⟨(rules.plan.snapshot planned hashed).of_id rfl, known⟩
  acceptances acceptance mem := (rules.acceptances acceptance mem).of_id rfl

theorem RecordRules.accepted {mutation : AcceptanceMutation} {hash closureHash : String}
    (rules : RecordRules H o) (planned : o.HasPlan) (hashed : o.planHash = some hash)
    (fresh : ∀ acceptance ∈ o.acceptances, acceptance.id ≠ mutation.id) :
    RecordRules H { o with
      phase := .accepted
      acceptances := o.acceptances ++ [OutcomeRecord.acceptanceOf mutation o hash closureHash]
      revision := o.revision + 1
      updatedAt := mutation.serverTime } where
  criteria := rules.criteria
  contractRevision := Nat.le_succ_of_le rules.contractRevision
  decisionRevisions decision mem := Nat.le_succ_of_le (rules.decisionRevisions decision mem)
  decisionRevisionsUnique := rules.decisionRevisionsUnique
  acceptanceRevisions acceptance mem := by
    rcases List.mem_append.mp mem with old | new
    · exact Nat.le_succ_of_le (rules.acceptanceRevisions acceptance old)
    · cases List.mem_singleton.mp new
      exact le_refl _
  evidenceIds := rules.evidenceIds
  decisionIds := rules.decisionIds
  operationIds := rules.operationIds
  acceptanceIds := nodup_map_concat rules.acceptanceIds fresh
  plan := rules.plan.hashed planned
  projections := rules.projections
  decisions decision mem := by
    obtain ⟨snapshot, inside⟩ := rules.decisions decision mem
    exact ⟨snapshot.of_id rfl, inside⟩
  acceptances acceptance mem := by
    rcases List.mem_append.mp mem with old | new
    · exact (rules.acceptances acceptance old).of_id rfl
    · cases List.mem_singleton.mp new
      exact (rules.plan.snapshot planned hashed).of_id rfl

/-- The plan of a contract change: none in a draft, else the hash of the new contract. -/
theorem planRules_contract {title objective : String} {criteria : List Criterion}
    {serverTime : Int} {hash : Option String} (live : r.phase ≠ .cancelled)
    (hashed : if r.phase = .draft then hash = none else hash ≠ none ∧ hash = planHash H
      ⟨r.id, objective, r.contractRevision + 1, r.planGeneration + 1, criteria⟩) :
    PlanRules H { r with
      title, objective, criteria
      phase := if r.phase = .accepted then .active else r.phase
      contractRevision := r.contractRevision + 1
      planGeneration := if r.phase = .draft then 0 else r.planGeneration + 1
      planHash := hash
      revision := r.revision + 1
      updatedAt := serverTime } := by
  cases phase : r.phase with
  | draft => simpa [PlanRules, phase] using hashed
  | active => simpa [PlanRules, phase, OutcomeRecord.plan] using hashed
  | accepted => simpa [PlanRules, phase, OutcomeRecord.plan] using hashed
  | cancelled => exact absurd phase live

/-- A cancelled record keeps the plan it had. -/
theorem planRules_cancel {serverTime : Int} (plan : PlanRules H r)
    (live : r.phase = .draft ∨ r.phase = .active) :
    PlanRules H { r with
      phase := .cancelled, revision := r.revision + 1, updatedAt := serverTime } := by
  rcases live with phase | phase
  · exact .inl (by simpa [PlanRules, phase] using plan)
  · exact .inr (by simpa [PlanRules, phase, OutcomeRecord.plan, Nat.one_le_iff_ne_zero,
      Nat.pos_iff_ne_zero] using plan)

theorem RecordRules.moves (rules : RecordRules H r)
    (valid : ∀ projection ∈ brought, ProjectionRules H projection) (moves : Moves H brought r next) :
    RecordRules H next := by
  have later := Nat.le_succ_of_le rules.contractRevision
  cases moves with
  | title title serverTime live =>
      exact rules.revised rfl rules.criteria later (Nat.le_succ _) rules.evidenceIds rfl rfl rfl
        rules.projections rules.plan
  | contract title objective criteria serverTime hash live keeps hashed =>
      exact rules.revised rfl (keeps rules.criteria) (Nat.succ_le_succ rules.contractRevision)
        (Nat.le_succ _) rules.evidenceIds rfl rfl rfl rules.projections
        (planRules_contract live hashed)
  | activate hash serverTime draft hashed =>
      exact rules.revised rfl rules.criteria later (Nat.le_succ _) rules.evidenceIds rfl rfl rfl
        rules.projections ⟨le_refl _, nofun, hashed.symm⟩
  | refresh o serverTime observes live =>
      have observed := rules.observes valid observes
      have revision : o.revision = r.revision := by rw [observes.same]
      rw [← revision] at later ⊢
      exact observed.revised rfl observed.criteria (Nat.le_succ_of_le observed.contractRevision)
        (Nat.le_succ _) observed.evidenceIds rfl rfl rfl observed.projections observed.plan
  | decide o mutation hash observes planned hashed known fresh =>
      have observed := rules.observes valid observes
      have revision : o.revision = r.revision := by rw [observes.same]
      rw [← revision]
      refine observed.decided ?_ ?_ ?_ ?_
      · rwa [observes.same]
      · rwa [observes.same]
      · rwa [observes.same]
      · rwa [observes.same]
  | accept o mutation hash closureHash observes planned hashed fresh =>
      have observed := rules.observes valid observes
      have revision : o.revision = r.revision := by rw [observes.same]
      rw [← revision]
      refine observed.accepted ?_ ?_ ?_
      · rwa [observes.same]
      · rwa [observes.same]
      · rwa [observes.same]
  | cancel serverTime live =>
      exact rules.revised rfl rules.criteria later (Nat.le_succ _) rules.evidenceIds rfl rfl rfl
        rules.projections (planRules_cancel rules.plan live)

theorem Created.rules (created : Created r) : RecordRules H r := by
  obtain ⟨id, requestHash, owner, title, objective, criteria, now, rfl⟩ := created
  have linkless : identities (createdRecord id requestHash owner title objective criteria
      now).criteria = [] := by
    simp [createdRecord, identities]
  have empty : ∀ {α : Type} {P : α → Prop}, ∀ x ∈ ([] : List α), P x :=
    fun x mem => absurd mem List.not_mem_nil
  refine ⟨⟨?_, ?_, ?_, ?_, ?_, ?_⟩, le_refl _, empty, List.nodup_nil, empty, List.nodup_nil,
    List.nodup_nil, List.nodup_nil, List.nodup_nil, ⟨rfl, rfl⟩, empty, empty, empty⟩
  · simpa [createdRecord, Function.comp_def] using criteria.ids
  · intro criterion mem
    obtain ⟨_, _, rfl⟩ := List.mem_map.mp mem
    exact List.nodup_nil
  · intro criterion mem
    obtain ⟨_, _, rfl⟩ := List.mem_map.mp mem
    exact Nat.zero_le _
  · rw [linkless]
    exact Nat.zero_le _
  · obtain ⟨criterion, mem, required⟩ := criteria.required
    exact ⟨_, List.mem_map_of_mem mem, required⟩
  · simpa [createdRecord] using criteria.count

namespace Operation

/-- The record after an operation; an operation that throws is no step. -/
def step (H : Digests) (r : OutcomeRecord) (op : Operation) : Option OutcomeRecord :=
  (op.apply H r).map Result.record

/-- The gateway built the observation that the operation brings along. -/
def Observed (H : Digests) (_ : OutcomeRecord) (op : Operation) : Prop :=
  ∀ projection ∈ op.projections, ProjectionRules H projection

theorem rules_of_step {op : Operation} (rules : RecordRules H r) (observed : Observed H r op)
    (taken : step H r op = some next) : RecordRules H next := by
  obtain ⟨res, applied, rfl⟩ := Option.map_eq_some_iff.mp taken
  rcases settles applied with ⟨_, _, _, moves⟩ | ⟨_, same⟩
  · exact rules.moves observed moves
  · rwa [same]

theorem rules_of_reaches (run : Reaches (step H) (Observed H) o r) (created : Created o) :
    RecordRules H r :=
  run.invariant created.rules fun _ _ _ rules observed taken => rules_of_step rules observed taken

theorem updates_valid {op : Operation} {res : Result} (created : Created o)
    (run : Reaches (step H) (Observed H) o r) (observed : Observed H r op)
    (applied : op.apply H r = some res) : RecordRules H res.record := by
  rcases settles applied with ⟨_, _, _, moves⟩ | ⟨_, same⟩
  · exact (rules_of_reaches run created).moves observed moves
  · exact same ▸ rules_of_reaches run created

/-- Digests that tell nothing apart. -/
def constantDigests : Digests := ⟨fun _ => "plan", fun _ => "set", fun _ => "closure", fun _ => "source"⟩

theorem exampleCriteria_count :
    1 ≤ [PublicCriterion.mk "c" "text" true].length ∧
      [PublicCriterion.mk "c" "text" true].length ≤ 5 := by decide

theorem exampleCriteria_required :
    ∃ criterion ∈ [PublicCriterion.mk "c" "text" true], criterion.required = true :=
  ⟨_, .head _, rfl⟩

def exampleDraft : OutcomeRecord :=
  createdRecord "o" "request" "owner" "title" "objective"
    ⟨[⟨"c", "text", true⟩], exampleCriteria_count, exampleCriteria_required,
      List.nodup_singleton "c"⟩ 0

theorem exampleDraft_created : Created exampleDraft := ⟨_, _, _, _, _, _, _, rfl⟩

/-- The card of the link as a refresh observes it. -/
def cardProjection : WorkProjection where
  ref := ⟨"card", 5, "board"⟩
  availability := .available
  observedAt := 3
  currentBoardId := some "board"
  status := some .todo
  lastSuccessfulAt := some 3
  sourceUpdatedAt := some 6
  sourceFingerprint := some "source"

def rejection : DecisionMutation where
  expectedRevision := 3
  id := "d"
  requestHash := "request"
  criterionId := "c"
  status := .rejected
  planHash := "plan"
  evidenceSetHash := "set"
  profileId := "owner"
  note := some "no proof"
  projections := some [cardProjection]
  evidence := some []
  serverTime := 3

/-- The observations of the examples. -/
def CardOnly (_ : OutcomeRecord) (op : Operation) : Prop :=
  ∀ projection ∈ op.projections, projection = cardProjection

instance (r : OutcomeRecord) (op : Operation) : Decidable (CardOnly r op) :=
  inferInstanceAs (Decidable (∀ projection ∈ op.projections, projection = cardProjection))

theorem observed_of_cardOnly {op : Operation} (only : CardOnly r op) :
    Observed constantDigests r op := by
  intro projection mem
  rw [only projection mem]
  exact ⟨rfl, "board", .todo, 6, rfl, rfl, rfl, rfl⟩

theorem updates_valid_decision : ∃ res : Result,
    (res.kind = .updated ∧ res.record.decisions.map HumanDecision.id = ["d"]) ∧
      RecordRules constantDigests res.record := by
  obtain ⟨r, run, res, applied, facts⟩ := Reaches.exists_of_exec (step constantDigests)
    CardOnly exampleDraft
    (P := fun r => ∃ res ∈ apply constantDigests r (.verifyCriterion rejection),
      res.kind = .updated ∧ res.record.decisions.map HumanDecision.id = ["d"])
    [.link 1 "c" ⟨"card", 5, "board"⟩ 1, .activate 2 2] (by decide) (by decide)
  have observed : CardOnly r (.verifyCriterion rejection) := by
    simp [CardOnly, projections, rejection]
  exact ⟨res, facts, updates_valid exampleDraft_created (run.mono fun _ _ => observed_of_cardOnly)
    (observed_of_cardOnly observed) applied⟩

end Operation
end Outcomes
