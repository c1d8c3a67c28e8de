import OpenClaw.Outcomes.Operation

/-!
What an operation can do to a record. Every update is one of seven moves; every other
result, and a replayed one, carries the record it was given.
-/

namespace Outcomes

variable {H : Digests} {brought : List WorkProjection} {r o next : OutcomeRecord} {res : Result}
  {criteria : List Criterion} {expectedRevision : Nat}

theorem Kind.conflict_ne_updated : Kind.conflict ≠ .updated := nofun

theorem Kind.rejected_ne_updated : Kind.rejected ≠ .updated := nofun

/-- The record `o` is `r` with the projections of an observation and merged evidence. -/
structure Observes (brought : List WorkProjection) (r o : OutcomeRecord) : Prop where
  same : o = { r with projections := o.projections, evidence := o.evidence }
  evidenceIds : (r.evidence.map EvidenceRef.id).Nodup → (o.evidence.map EvidenceRef.id).Nodup
  projections : ∀ projection ∈ o.projections, projection ∈ r.projections ∨
    ∃ source ∈ brought, ∃ previous : Option WorkProjection,
      (∀ earlier ∈ previous, earlier ∈ r.projections) ∧ projection = source.cached previous

theorem Observes.refl (r : OutcomeRecord) : Observes brought r r :=
  ⟨rfl, id, fun _ mem => .inl mem⟩

/-- What an update with the projections `brought` makes of a record. -/
inductive Moves (H : Digests) (brought : List WorkProjection) (r : OutcomeRecord) :
    OutcomeRecord → Prop
  | title (title : String) (serverTime : Int) (live : r.phase ≠ .cancelled) :
      Moves H brought r { r with title, revision := r.revision + 1, updatedAt := serverTime }
  /-- A contract change; outside a draft it starts a new plan generation. -/
  | contract (title objective : String) (criteria : List Criterion) (serverTime : Int)
      (hash : Option String) (live : r.phase ≠ .cancelled)
      (rules : CriteriaRules r.criteria → CriteriaRules criteria)
      (hashed : if r.phase = .draft then hash = none else hash ≠ none ∧ hash = planHash H
        ⟨r.id, objective, r.contractRevision + 1, r.planGeneration + 1, criteria⟩) :
      Moves H brought r { r with
        title, objective, criteria
        phase := if r.phase = .accepted then .active else r.phase
        contractRevision := r.contractRevision + 1
        planGeneration := if r.phase = .draft then 0 else r.planGeneration + 1
        planHash := hash
        revision := r.revision + 1
        updatedAt := serverTime }
  | activate (hash : String) (serverTime : Int) (draft : r.phase = .draft)
      (hashed : planHash H ⟨r.id, r.objective, r.contractRevision, 1, r.criteria⟩ = some hash) :
      Moves H brought r { r with
        phase := .active
        planGeneration := 1
        planHash := some hash
        revision := r.revision + 1
        updatedAt := serverTime }
  | refresh (o : OutcomeRecord) (serverTime : Int) (observes : Observes brought r o)
      (live : r.phase ≠ .cancelled) :
      Moves H brought r { o with revision := r.revision + 1, updatedAt := serverTime }
  | decide (o : OutcomeRecord) (mutation : DecisionMutation) (hash : String)
      (observes : Observes brought r o) (planned : r.HasPlan) (hashed : r.planHash = some hash)
      (known : ∃ criterion ∈ r.criteria, criterion.id = mutation.criterionId)
      (fresh : ∀ decision ∈ r.decisions, decision.id ≠ mutation.id) :
      Moves H brought r { o with
        decisions := o.decisions ++ [OutcomeRecord.decisionOf mutation o hash]
        revision := r.revision + 1
        updatedAt := mutation.serverTime }
  | accept (o : OutcomeRecord) (mutation : AcceptanceMutation) (hash closureHash : String)
      (observes : Observes brought r o) (planned : r.HasPlan) (hashed : r.planHash = some hash)
      (fresh : ∀ acceptance ∈ r.acceptances, acceptance.id ≠ mutation.id) :
      Moves H brought r { o with
        phase := .accepted
        acceptances := o.acceptances ++ [OutcomeRecord.acceptanceOf mutation o hash closureHash]
        revision := r.revision + 1
        updatedAt := mutation.serverTime }
  | cancel (serverTime : Int) (live : r.phase = .draft ∨ r.phase = .active) :
      Moves H brought r { r with
        phase := .cancelled
        revision := r.revision + 1
        updatedAt := serverTime }

/-- What a result amounts to: an update was made at the expected revision and moves the
record, anything else leaves it. -/
def Settles (H : Digests) (brought : List WorkProjection) (r : OutcomeRecord)
    (expectedRevision : Nat) (res : Result) : Prop :=
  res.kind = .updated ∧ res.replayed = false ∧ expectedRevision = r.revision ∧
      Moves H brought r res.record ∨
    (res.kind ≠ .updated ∨ res.replayed = true) ∧ res.record = r

namespace Settles

theorem updated (expected : ¬ expectedRevision ≠ r.revision) (moves : Moves H brought r next) :
    Settles H brought r expectedRevision next.updated :=
  .inl ⟨rfl, rfl, not_not.mp expected, moves⟩

theorem noop : Settles H brought r expectedRevision r.noop := .inr ⟨.inl nofun, rfl⟩

theorem conflict : Settles H brought r expectedRevision r.conflict := .inr ⟨.inl nofun, rfl⟩

theorem rejected {reason : Option FailureReason} :
    Settles H brought r expectedRevision (r.rejected reason) :=
  .inr ⟨.inl nofun, rfl⟩

theorem failed {kind : Kind} {reason : FailureReason} (failed : kind ≠ .updated) :
    Settles H brought r expectedRevision (r.failed kind reason) :=
  .inr ⟨.inl failed, rfl⟩

end Settles

namespace CriteriaRules

theorem perm {other : List Criterion} (rules : CriteriaRules criteria)
    (perm : criteria.Perm other) : CriteriaRules other where
  ids := (perm.map _).nodup_iff.mp rules.ids
  refs criterion mem := rules.refs criterion (perm.mem_iff.mpr mem)
  refsPerCriterion criterion mem := rules.refsPerCriterion criterion (perm.mem_iff.mpr mem)
  distinctRefs := by
    have same : JsArray.distinct (identities criteria) = JsArray.distinct (identities other) :=
      JsArray.distinct_congr fun x => (perm.flatMap_right _).mem_iff
    exact same ▸ rules.distinctRefs
  required := by
    obtain ⟨criterion, mem, required⟩ := rules.required
    exact ⟨criterion, perm.mem_iff.mp mem, required⟩
  count := by
    rw [← perm.length_eq]
    exact rules.count

theorem canonical_identities (criterion : Criterion) :
    (criterion.canonical.workRefs.map WorkboardRef.identity).Perm
      (criterion.workRefs.map WorkboardRef.identity) :=
  (JsArray.toSorted_perm refBefore criterion.workRefs).map _

theorem map_canonical (rules : CriteriaRules criteria) :
    CriteriaRules (criteria.map Criterion.canonical) where
  ids := by
    rw [List.map_map]
    exact rules.ids
  refs := by
    rintro _ mem
    obtain ⟨criterion, old, rfl⟩ := List.mem_map.mp mem
    exact (canonical_identities criterion).nodup_iff.mpr (rules.refs criterion old)
  refsPerCriterion := by
    rintro _ mem
    obtain ⟨criterion, old, rfl⟩ := List.mem_map.mp mem
    rw [JsArray.distinct_congr fun x => (canonical_identities criterion).mem_iff]
    exact rules.refsPerCriterion criterion old
  distinctRefs := by
    refine le_trans (JsArray.distinct_le_of_subset fun x mem => ?_) rules.distinctRefs
    obtain ⟨_, inside, mem⟩ := List.mem_flatMap.mp mem
    obtain ⟨criterion, old, rfl⟩ := List.mem_map.mp inside
    exact List.mem_flatMap.mpr ⟨criterion, old, (canonical_identities criterion).mem_iff.mp mem⟩
  required := by
    obtain ⟨criterion, mem, required⟩ := rules.required
    exact ⟨criterion.canonical, List.mem_map_of_mem mem, required⟩
  count := by
    rw [List.length_map]
    exact rules.count

theorem canonicalCriteria (rules : CriteriaRules criteria) :
    CriteriaRules (canonicalCriteria criteria) :=
  rules.map_canonical.perm (JsArray.toSorted_perm _ _).symm

theorem withRefs (rules : CriteriaRules criteria) (input : PublicCriteria) :
    CriteriaRules (withRefs input.criteria criteria) := by
  have refsOf : ∀ criterion ∈ Outcomes.withRefs input.criteria criteria,
      criterion.workRefs = [] ∨ ∃ old ∈ criteria, criterion.workRefs = old.workRefs := by
    intro criterion mem
    obtain ⟨public_, _, rfl⟩ := List.mem_map.mp mem
    cases found : criteria.find? fun item => item.id = public_.id with
    | none => exact .inl rfl
    | some old => exact .inr ⟨old, List.mem_of_find?_eq_some found, rfl⟩
  refine ⟨?_, ?_, ?_, ?_, ?_, ?_⟩
  · simpa [Outcomes.withRefs, Function.comp_def] using input.ids
  · intro criterion mem
    rcases refsOf criterion mem with none | ⟨old, oldMem, same⟩
    · simp [none]
    · exact same ▸ rules.refs old oldMem
  · intro criterion mem
    rcases refsOf criterion mem with none | ⟨old, oldMem, same⟩
    · simp [none, JsArray.distinct]
    · exact same ▸ rules.refsPerCriterion old oldMem
  · refine le_trans (JsArray.distinct_le_of_subset fun x mem => ?_) rules.distinctRefs
    obtain ⟨criterion, inside, mem⟩ := List.mem_flatMap.mp mem
    rcases refsOf criterion inside with none | ⟨old, oldMem, same⟩
    · simp [none] at mem
    · exact List.mem_flatMap.mpr ⟨old, oldMem, same ▸ mem⟩
  · obtain ⟨criterion, mem, required⟩ := input.required
    exact ⟨_, List.mem_map_of_mem mem, required⟩
  · simpa [Outcomes.withRefs] using input.count

/-- Replacing the refs of one criterion keeps the rules if the new refs do. -/
theorem setWorkRefs {criterionId : String} {workRefs : List WorkboardRef → List WorkboardRef}
    (rules : CriteriaRules criteria)
    (each : ∀ criterion ∈ criteria, criterion.id = criterionId →
      ((workRefs criterion.workRefs).map WorkboardRef.identity).Nodup ∧
      JsArray.distinct ((workRefs criterion.workRefs).map WorkboardRef.identity) ≤
        maxWorkRefsPerCriterion)
    (total : JsArray.distinct (identities
      (OutcomeRecord.setWorkRefs criteria criterionId workRefs)) ≤ maxDistinctWorkRefs) :
    CriteriaRules (OutcomeRecord.setWorkRefs criteria criterionId workRefs) where
  ids := by
    have same : (OutcomeRecord.setWorkRefs criteria criterionId workRefs).map Criterion.id =
        criteria.map Criterion.id := by
      rw [OutcomeRecord.setWorkRefs, List.map_map]
      refine List.map_congr_left fun item _ => ?_
      by_cases at_ : item.id = criterionId <;> simp [at_]
    exact same ▸ rules.ids
  refs := by
    intro criterion mem
    obtain ⟨item, old, rfl⟩ := List.mem_map.mp mem
    by_cases at_ : item.id = criterionId
    · simpa [at_] using (each item old at_).1
    · simpa [at_] using rules.refs item old
  refsPerCriterion := by
    intro criterion mem
    obtain ⟨item, old, rfl⟩ := List.mem_map.mp mem
    by_cases at_ : item.id = criterionId
    · simpa [at_] using (each item old at_).2
    · simpa [at_] using rules.refsPerCriterion item old
  distinctRefs := total
  required := by
    obtain ⟨criterion, mem, required⟩ := rules.required
    refine ⟨_, List.mem_map_of_mem mem, ?_⟩
    by_cases at_ : criterion.id = criterionId <;> simpa [at_] using required
  count := by
    rw [OutcomeRecord.setWorkRefs, List.length_map]
    exact rules.count

theorem link {criterion : Criterion} {ref : WorkboardRef} (rules : CriteriaRules criteria)
    (mem : criterion ∈ criteria)
    (fresh : ∀ other ∈ criterion.workRefs, other.identity ≠ ref.identity)
    (room : criterion.workRefs.length < maxWorkRefsPerCriterion)
    (total : ref.identity ∈ identities criteria ∨
      JsArray.distinct (identities criteria) < maxDistinctWorkRefs) :
    CriteriaRules (OutcomeRecord.setWorkRefs criteria criterion.id (· ++ [ref])) := by
  have only : ∀ item ∈ criteria, item.id = criterion.id → item = criterion :=
    fun item itemMem same => List.inj_on_of_nodup_map rules.ids itemMem mem same
  refine rules.setWorkRefs (fun item itemMem same => ?_) ?_
  · cases only item itemMem same
    rw [List.map_append, List.map_singleton]
    refine ⟨List.nodup_append'.mpr ⟨rules.refs criterion mem, List.nodup_singleton _, ?_⟩, ?_⟩
    · rw [List.disjoint_singleton]
      intro inside
      obtain ⟨other, otherMem, eq⟩ := List.mem_map.mp inside
      exact fresh other otherMem eq
    · refine le_trans (List.dedup_sublist _).length_le ?_
      simpa using room
  · have sub : identities (OutcomeRecord.setWorkRefs criteria criterion.id (· ++ [ref])) ⊆
        identities criteria ++ [ref.identity] := by
      intro x inside
      obtain ⟨_, at_, mem'⟩ := List.mem_flatMap.mp inside
      obtain ⟨item, itemMem, rfl⟩ := List.mem_map.mp at_
      rw [List.mem_append, List.mem_singleton]
      split at mem'
      · rw [List.map_append, List.mem_append] at mem'
        rcases mem' with old | new
        · exact .inl (List.mem_flatMap.mpr ⟨item, itemMem, old⟩)
        · exact .inr (by simpa using new)
      · exact .inl (List.mem_flatMap.mpr ⟨item, itemMem, mem'⟩)
    refine le_trans (JsArray.distinct_le_of_subset sub) ?_
    rcases total with known | room'
    · refine le_trans (JsArray.distinct_le_of_subset fun x inside => ?_) rules.distinctRefs
      rcases List.mem_append.mp inside with old | new
      · exact old
      · exact List.mem_singleton.mp new ▸ known
    · rw [JsArray.distinct_eq_card] at room' ⊢
      have bound := Finset.card_insert_le ref.identity (identities criteria).toFinset
      have same : (identities criteria ++ [ref.identity]).toFinset =
          insert ref.identity (identities criteria).toFinset := by
        ext x
        simp [or_comm]
      rw [same]
      omega

theorem unlink {criterion : Criterion} {kept : List WorkboardRef} (rules : CriteriaRules criteria)
    (mem : criterion ∈ criteria) (sub : kept.Sublist criterion.workRefs) :
    CriteriaRules (OutcomeRecord.setWorkRefs criteria criterion.id fun _ => kept) := by
  refine rules.setWorkRefs (fun item _ _ => ⟨?_, ?_⟩) ?_
  · exact (rules.refs criterion mem).sublist (sub.map _)
  · exact le_trans (JsArray.distinct_le_of_subset (sub.map _).subset)
      (rules.refsPerCriterion criterion mem)
  · refine le_trans (JsArray.distinct_le_of_subset fun x inside => ?_) rules.distinctRefs
    obtain ⟨_, at_, mem'⟩ := List.mem_flatMap.mp inside
    obtain ⟨item, itemMem, rfl⟩ := List.mem_map.mp at_
    split at mem'
    · exact List.mem_flatMap.mpr ⟨criterion, mem, (sub.map _).subset mem'⟩
    · exact List.mem_flatMap.mpr ⟨item, itemMem, mem'⟩

end CriteriaRules
end Outcomes
