import OpenClaw.Outcomes.Display

/-!
What the owner sees is what can be committed: a decision on the evidence set that was
shown, and an acceptance of the closure that was shown, are not refused as outdated
while the cards are the same.
-/

namespace Outcomes

open Transition

variable {H : Digests} {D : SourceDigests} {cards : List WorkboardCard} {record o r : OutcomeRecord}
  {observedAt : Int}

/-- A decision under a fresh id on a criterion as it was shown, with the observation of
the same cards. -/
structure DecidesShown (H : Digests) (D : SourceDigests) (record : OutcomeRecord)
    (cards : List WorkboardCard) (detail : OutcomeDetail) (view : CriterionView)
    (mutation : DecisionMutation) : Prop where
  shown : view ∈ detail.criteria
  expectedRevision : mutation.expectedRevision = record.revision
  fresh : ∀ decision ∈ record.decisions, decision.id ≠ mutation.id
  criterionId : mutation.criterionId = view.id
  planHash : detail.planHash = some mutation.planHash
  evidenceSetHash : view.evidenceSetHash = some mutation.evidenceSetHash
  projections : mutation.projections =
    some (buildRefreshCandidate H D record cards mutation.serverTime).projections
  evidence : mutation.evidence =
    some (buildRefreshCandidate H D record cards mutation.serverTime).evidence

/-- An acceptance under a fresh id of the closure as it was shown, with the observation of
the same cards. -/
structure AcceptsShown (H : Digests) (D : SourceDigests) (record : OutcomeRecord)
    (cards : List WorkboardCard) (detail : OutcomeDetail) (mutation : AcceptanceMutation) :
    Prop where
  expectedRevision : mutation.expectedRevision = record.revision
  fresh : ∀ acceptance ∈ record.acceptances, acceptance.id ≠ mutation.id
  planHash : detail.planHash = some mutation.planHash
  closureHash : detail.closureHash = some mutation.closureHash
  projections : mutation.projections =
    some (buildRefreshCandidate H D record cards mutation.serverTime).projections
  evidence : mutation.evidence =
    some (buildRefreshCandidate H D record cards mutation.serverTime).evidence

/-- The cards of the criterion hold no evidence. -/
def WithoutEvidence (H : Digests) (D : SourceDigests) (record : OutcomeRecord)
    (cards : List WorkboardCard) (criterionId : String) (observedAt : Int) : Prop :=
  ∀ item ∈ (buildRefreshCandidate H D record cards observedAt).evidence,
    item.criterionId ≠ criterionId

/-- The decision is recorded, or refused for capacity, for want of evidence or of a note. -/
def DecisionTaken (H : Digests) (D : SourceDigests) (record : OutcomeRecord)
    (cards : List WorkboardCard) (mutation : DecisionMutation) (res : Result) : Prop :=
  res.kind = .updated ∧ res.replayed = false ∧
      (∃ decision, decision.id = mutation.id ∧
        res.record.decisions = record.decisions ++ [decision]) ∨
    res = record.failed .rejected .capacityExceeded ∨
    res = record.failed .rejected .closureIncomplete ∧
      (mutation.status = .verified ∧
          WithoutEvidence H D record cards mutation.criterionId mutation.serverTime ∨
        mutation.status = .rejected ∧ mutation.note = none)

/-- The acceptance is recorded, or refused for capacity or as accepted before. -/
def AcceptanceTaken (record : OutcomeRecord) (mutation : AcceptanceMutation) (res : Result) : Prop :=
  res.kind = .updated ∧ res.replayed = false ∧
      (∃ acceptance, acceptance.id = mutation.id ∧
        res.record.acceptances = record.acceptances ++ [acceptance]) ∨
    res = record.failed .rejected .capacityExceeded ∨
    res = record.failed .rejected .invalidState ∧ record.AlreadyAccepted mutation.closureHash

theorem find?_criterion {criteria : List Criterion} {criterion : Criterion}
    (ids : (criteria.map Criterion.id).Nodup) (mem : criterion ∈ criteria) :
    (criteria.find? fun item => item.id = criterion.id) = some criterion := by
  cases found : criteria.find? fun item => item.id = criterion.id with
  | none => simpa using List.find?_eq_none.mp found criterion mem
  | some other =>
      have same : other.id = criterion.id := by simpa using List.find?_some found
      rw [List.inj_on_of_nodup_map ids (List.mem_of_find?_eq_some found) mem same]

theorem OutcomeRecord.HasPlan.live (planned : record.HasPlan) : record.phase ≠ .cancelled := by
  rcases planned with active | accepted
  · simp [active]
  · simp [accepted]

/-- A criterion without digests on its cards has no observed evidence. -/
theorem withoutEvidence_of_digests {criterion : Criterion} {digests : List String}
    (ids : (record.criteria.map Criterion.id).Nodup) (mem : criterion ∈ record.criteria)
    (shown : shownDigests D cards criterion = some digests) (none : ∀ digest, digest ∉ digests) :
    WithoutEvidence H D record cards criterion.id observedAt := by
  intro item inside about
  obtain ⟨other, otherMem, ref, linked, card, found, source, onCard, rfl⟩ :=
    mem_observedEvidence.mp inside
  cases List.inj_on_of_nodup_map ids otherMem mem about
  obtain ⟨-, same⟩ := Option.ite_none_right_eq_some.mp shown
  rw [← Option.some.inj same] at none
  refine none (sourceDigest D card source) (List.mem_flatMap.mpr ⟨ref, linked, ?_⟩)
  rw [found]
  exact List.mem_map_of_mem onCard

/-- A decision on the current evidence set of the current plan. -/
theorem OutcomeRecord.decide_current {criterion : Criterion} {mutation : DecisionMutation}
    {hash : String} {sourceDigests : List String} (planned : o.HasPlan)
    (found : (o.criteria.find? fun item => item.id = mutation.criterionId) = some criterion)
    (hashed : o.planHash = some hash) (plan : mutation.planHash = hash)
    (current : currentOutcomeEvidenceSourceDigests o criterion o.projections mutation.serverTime =
      some sourceDigests)
    (set : mutation.evidenceSetHash =
      evidenceSetHash H ⟨criterion.id, o.planGeneration, sourceDigests⟩) :
    o.decide H mutation = .error .closureIncomplete ∧
        (mutation.status = .verified ∧ sourceDigests = [] ∨
          mutation.status = .rejected ∧ mutation.note = none) ∨
      o.decide H mutation = .error .capacityExceeded ∨
      ∃ next decision, o.decide H mutation = .ok next ∧ decision.id = mutation.id ∧
        next.decisions = o.decisions ++ [decision] := by
  unfold OutcomeRecord.decide
  rw [if_neg (not_not.mpr planned), found, hashed]
  simp only [current]
  rw [if_neg (not_or.mpr ⟨not_not.mpr plan, not_not.mpr set⟩)]
  split
  case isTrue incomplete => exact .inl ⟨rfl, incomplete⟩
  case isFalse =>
    split
    case isTrue => exact .inr (.inl rfl)
    case isFalse => exact .inr (.inr ⟨_, _, rfl, rfl, rfl⟩)

/-- An acceptance of the current closure of the current plan. -/
theorem OutcomeRecord.accept_current {mutation : AcceptanceMutation} {hash : String}
    (planned : o.HasPlan) (hashed : o.planHash = some hash) (plan : mutation.planHash = hash)
    (closure : deriveOutcomeClosure H o o.projections mutation.serverTime =
      some mutation.closureHash) :
    o.accept H mutation = .error .invalidState ∧ o.AlreadyAccepted mutation.closureHash ∨
      o.accept H mutation = .error .capacityExceeded ∨
      ∃ next acceptance, o.accept H mutation = .ok next ∧ acceptance.id = mutation.id ∧
        next.acceptances = o.acceptances ++ [acceptance] := by
  unfold OutcomeRecord.accept
  rw [hashed]
  simp only [if_neg (not_not.mpr planned), closure]
  rw [if_neg (not_or.mpr ⟨not_not.mpr plan, not_not.mpr rfl⟩)]
  split
  case isTrue again => exact .inl ⟨rfl, again⟩
  case isFalse =>
    split
    case isTrue => exact .inr (.inl rfl)
    case isFalse => exact .inr (.inr ⟨_, _, rfl, rfl, rfl⟩)

/-- A decision on what was shown goes through. -/
theorem reduceOutcomeDecision_shown {view : CriterionView} {mutation : DecisionMutation}
    (rules : CriteriaRules record.criteria) (planned : record.HasPlan)
    (free : CollisionFree D record cards)
    (request : DecidesShown H D record cards (observedDetail H D record cards observedAt) view
      mutation) :
    DecisionTaken H D record cards mutation (record.reduceOutcomeDecision H mutation) := by
  obtain ⟨criterion, mem, rfl⟩ := List.mem_map.mp request.shown
  obtain ⟨digests, shown, set⟩ := criterionView_evidenceSetHash mem request.evidenceSetHash
  have unknown : (record.decisions.find? fun decision => decision.id = mutation.id) = none :=
    List.find?_eq_none.mpr fun decision inside => by simpa using request.fresh decision inside
  have about : mutation.criterionId = criterion.id := request.criterionId
  unfold OutcomeRecord.reduceOutcomeDecision
  rw [unknown, request.projections, request.evidence]
  simp only [ne_eq, request.expectedRevision, not_true, if_false]
  rcases observe_candidate H mutation.serverTime rules planned.live free with
    full | ⟨projections, evidence, observed, shows⟩
  · rw [full]
    exact .inr (.inl rfl)
  · rw [observed]
    have found := shows.sourceDigests mem
    rw [shown] at found
    generalize current : currentOutcomeEvidenceSourceDigests (record.withEvidence evidence)
      criterion projections mutation.serverTime = digests' at found
    cases found with
    | some same =>
        rcases OutcomeRecord.decide_current (H := H) (o := { record with projections, evidence })
          planned (about ▸ find?_criterion rules.ids mem) request.planHash rfl current
          (set.trans (evidenceSetHash_congr fun digest => (same digest).symm)) with
          ⟨refused, incomplete⟩ | full | ⟨next, decision, taken, id, recorded⟩
        · refine .inr (.inr ⟨congrArg record.conclude refused, ?_⟩)
          refine incomplete.imp (fun empty => ⟨empty.1, ?_⟩) id
          refine about ▸ withoutEvidence_of_digests rules.ids mem shown fun digest inside => ?_
          simpa [empty.2] using (same digest).mpr inside
        · exact .inr (.inl (congrArg record.conclude full))
        · have result : record.conclude (OutcomeRecord.decide H { record with projections, evidence }
            mutation) = next.updated := congrArg record.conclude taken
          exact .inl (result ▸ ⟨rfl, rfl, decision, id, recorded⟩)

/-- An acceptance of what was shown goes through. -/
theorem reduceOutcomeAcceptance_shown {mutation : AcceptanceMutation}
    (rules : CriteriaRules record.criteria) (planned : record.HasPlan)
    (free : CollisionFree D record cards)
    (request : AcceptsShown H D record cards (observedDetail H D record cards observedAt) mutation) :
    AcceptanceTaken record mutation (record.reduceOutcomeAcceptance H mutation) := by
  have unknown : (record.acceptances.find? fun acceptance => acceptance.id = mutation.id) = none :=
    List.find?_eq_none.mpr fun acceptance inside => by simpa using request.fresh acceptance inside
  unfold OutcomeRecord.reduceOutcomeAcceptance
  rw [unknown, request.projections, request.evidence]
  simp only [ne_eq, request.expectedRevision, not_true, if_false]
  rcases observe_candidate H mutation.serverTime rules planned.live free with
    full | ⟨projections, evidence, observed, shows⟩
  · rw [full]
    exact .inr (.inl rfl)
  · rw [observed]
    have closure : deriveOutcomeClosure H { record with projections, evidence } projections
        mutation.serverTime = some mutation.closureHash :=
      ((shows_candidate H D cards record observedAt).closure_eq shows).symm.trans
        request.closureHash
    rcases OutcomeRecord.accept_current (H := H) (o := { record with projections, evidence })
      planned request.planHash rfl closure with
      ⟨refused, again⟩ | full | ⟨next, acceptance, taken, id, recorded⟩
    · exact .inr (.inr ⟨congrArg record.conclude refused, again⟩)
    · exact .inr (.inl (congrArg record.conclude full))
    · have result : record.conclude (OutcomeRecord.accept H { record with projections, evidence }
        mutation) = next.updated := congrArg record.conclude taken
      exact .inl (result ▸ ⟨rfl, rfl, acceptance, id, recorded⟩)

namespace Operation

/-- Whatever was shown of the cards can be committed as long as they are the same. -/
theorem shown_committable (created : Created o) (run : Reaches (step H) (Observed H) o r)
    (planned : r.HasPlan) (free : CollisionFree D r cards) (observedAt : Int) :
    (∀ view mutation,
      DecidesShown H D r cards (observedDetail H D r cards observedAt) view mutation →
        DecisionTaken H D r cards mutation (r.reduceOutcomeDecision H mutation)) ∧
    ∀ mutation, AcceptsShown H D r cards (observedDetail H D r cards observedAt) mutation →
      AcceptanceTaken r mutation (r.reduceOutcomeAcceptance H mutation) := by
  have rules := (rules_of_reaches run created).criteria
  exact ⟨fun _ _ => reduceOutcomeDecision_shown rules planned free,
    fun _ => reduceOutcomeAcceptance_shown rules planned free⟩

/-- The digests of the values of one outcome with one proven card. -/
def provenDigests : Digests where
  plan _ := "c28a849ab3af19c19c6e44c386fe4153cedf3bb40bddfad9580ab4dd704c86cc"
  evidenceSet _ := "9c8073766c4e333546d55f2cb2e1691e05f810c6972939b443e86780147b2023"
  closure _ := "8be5a2a90c98d4adebca1829af1ce4a0d83a3af225d1bd2c98e13e5c20ae03c4"
  projection _ := "4eadd64c65bcab6b7e2ead79690f1e5ec19a1362b75f3ce724aad9dff399fe67"

def provenSources : SourceDigests where
  source _ := "c709b3182fdb0456bdbe89e0e792a588e34c122f6e351d3577e5d23c77d029c2"
  evidenceRef _ := "6cf570152b0acb02af47b8b5382ae2b3f04712c1da1573dae16d1a6c6cd7e51b"

def provenCard : WorkboardCard where
  id := "card"
  createdAt := 5
  updatedAt := 6
  status := .done
  boardId := "board"
  upstreamStale := false
  proofs := [{ id := "p", status := .passed, createdAt := 5 }]
  artifacts := []
  proofIds := by decide
  artifactIds := by decide

/-- The owner's decision on what is shown of a record with the proven card. -/
def verification (r : OutcomeRecord) (id : String) (serverTime : Int) : DecisionMutation where
  expectedRevision := r.revision
  id := id
  requestHash := "request"
  criterionId := "c"
  status := .verified
  planHash := "c28a849ab3af19c19c6e44c386fe4153cedf3bb40bddfad9580ab4dd704c86cc"
  evidenceSetHash := "9c8073766c4e333546d55f2cb2e1691e05f810c6972939b443e86780147b2023"
  profileId := "owner"
  projections :=
    some (buildRefreshCandidate provenDigests provenSources r [provenCard] serverTime).projections
  evidence :=
    some (buildRefreshCandidate provenDigests provenSources r [provenCard] serverTime).evidence
  serverTime := serverTime

/-- The owner's acceptance of what is shown of a record with the proven card. -/
def acceptance (r : OutcomeRecord) (serverTime : Int) : AcceptanceMutation where
  expectedRevision := r.revision
  id := "a"
  requestHash := "request"
  planHash := "c28a849ab3af19c19c6e44c386fe4153cedf3bb40bddfad9580ab4dd704c86cc"
  closureHash := "8be5a2a90c98d4adebca1829af1ce4a0d83a3af225d1bd2c98e13e5c20ae03c4"
  profileId := "owner"
  projections :=
    some (buildRefreshCandidate provenDigests provenSources r [provenCard] serverTime).projections
  evidence :=
    some (buildRefreshCandidate provenDigests provenSources r [provenCard] serverTime).evidence
  serverTime := serverTime

/-- The record of the example once its card is linked and the plan is active. -/
def linkedRecord : OutcomeRecord :=
  { exampleDraft with
    phase := .active
    revision := 3
    contractRevision := 2
    planGeneration := 1
    planHash := some "c28a849ab3af19c19c6e44c386fe4153cedf3bb40bddfad9580ab4dd704c86cc"
    criteria := [⟨"c", "text", true, [⟨"card", 5, "board"⟩]⟩]
    updatedAt := 2 }

/-- The observations of the example are those of the proven card. -/
def ProvenOnly (_ : OutcomeRecord) (op : Operation) : Prop :=
  ∀ projection ∈ op.projections, projection ∈
    (buildRefreshCandidate provenDigests provenSources linkedRecord [provenCard] 3).projections

instance (r : OutcomeRecord) (op : Operation) : Decidable (ProvenOnly r op) :=
  inferInstanceAs (Decidable (∀ projection ∈ op.projections, projection ∈ _))

theorem observed_of_provenOnly {op : Operation} (only : ProvenOnly r op) :
    Observed provenDigests r op :=
  fun projection mem => rules_candidate (only projection mem)

instance (D : SourceDigests) (record : OutcomeRecord) (cards : List WorkboardCard) :
    Decidable (CollisionFree D record cards) :=
  inferInstanceAs (Decidable (∀ left ∈ _, ∀ right ∈ _, _ → _))

theorem shown_committable_proven : ∃ r : OutcomeRecord,
    ((r.reduceOutcomeDecision provenDigests (verification r "e" 7)).kind = .updated ∧
      (r.reduceOutcomeAcceptance provenDigests (acceptance r 7)).kind = .updated) ∧
    DecisionTaken provenDigests provenSources r [provenCard] (verification r "e" 7)
      (r.reduceOutcomeDecision provenDigests (verification r "e" 7)) ∧
    AcceptanceTaken r (acceptance r 7)
      (r.reduceOutcomeAcceptance provenDigests (acceptance r 7)) := by
  obtain ⟨r, run, planned, free, updated, plan, ⟨view, shown, id, set⟩, closure, fresh, fresh'⟩ :=
    Reaches.exists_of_exec (step provenDigests) ProvenOnly exampleDraft
      (P := fun r => r.HasPlan ∧ CollisionFree provenSources r [provenCard] ∧
        ((r.reduceOutcomeDecision provenDigests (verification r "e" 7)).kind = .updated ∧
          (r.reduceOutcomeAcceptance provenDigests (acceptance r 7)).kind = .updated) ∧
        (observedDetail provenDigests provenSources r [provenCard] 5).planHash =
          some (acceptance r 7).planHash ∧
        (∃ view ∈ (observedDetail provenDigests provenSources r [provenCard] 5).criteria,
          "c" = view.id ∧ view.evidenceSetHash = some (verification r "e" 7).evidenceSetHash) ∧
        (observedDetail provenDigests provenSources r [provenCard] 5).closureHash =
          some (acceptance r 7).closureHash ∧
        (∀ decision ∈ r.decisions, decision.id ≠ "e") ∧
        ∀ acceptance ∈ r.acceptances, acceptance.id ≠ "a")
      [.link 1 "c" ⟨"card", 5, "board"⟩ 1, .activate 2 2,
        .verifyCriterion (verification linkedRecord "d" 3)] (by decide) (by decide)
  have committable := shown_committable exampleDraft_created
    (run.mono fun _ _ => observed_of_provenOnly) planned free 5
  exact ⟨r, updated,
    committable.1 view (verification r "e" 7) ⟨shown, rfl, fresh, id, plan, set, rfl, rfl⟩,
    committable.2 (acceptance r 7) ⟨rfl, fresh', plan, closure, rfl, rfl⟩⟩

end Operation
end Outcomes
