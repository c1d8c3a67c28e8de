import OpenClaw.Outcomes.Observation
import OpenClaw.Outcomes.Validity

/-!
The observation of a record: its projections and evidence show the cards, before and
after the reducer merged them into the history of the record, and every projection
meets the projection rules.
-/

namespace Outcomes

variable {H : Digests} {D : SourceDigests} {cards : List WorkboardCard} {record : OutcomeRecord}
  {criterion : Criterion} {ref : WorkboardRef} {card : WorkboardCard}
  {projections : List WorkProjection} {evidence : List EvidenceRef} {observedAt : Int}
  {projection : WorkProjection}

theorem observedProjection_of_some {items : List EvidenceRef} (found : cardOf cards ref = some card) :
    observedProjection H cards items observedAt ref =
      availableProjection H items observedAt ref card := by
  unfold cardOf at found
  unfold observedProjection
  cases matched : matchCard cards ref with
  | ok matched_ =>
      rw [matched] at found
      cases found
      rfl
  | error => simp [matched] at found

theorem observedProjection_of_none {items : List EvidenceRef} (missing : cardOf cards ref = none) :
    ∃ reason, observedProjection H cards items observedAt ref =
      unavailableProjection observedAt ref reason := by
  unfold cardOf at missing
  unfold observedProjection
  cases matched : matchCard cards ref with
  | ok => simp [matched] at missing
  | error reason => exact ⟨reason, rfl⟩

@[simp] theorem observedProjection_ref {items : List EvidenceRef} :
    (observedProjection H cards items observedAt ref).ref = ref := by
  unfold observedProjection
  split <;> rfl

theorem mem_uniqueSourcePairs {pair : SourcePair} {pairs : List SourcePair} :
    pair ∈ uniqueSourcePairs pairs ↔ pair ∈ pairs := by
  rw [uniqueSourcePairs, JsArray.mem_toSorted, List.mem_dedup]

theorem mem_sourcePairs {items : List EvidenceRef} {identity : Identity} {kind : EvidenceKind}
    {pair : SourcePair} : pair ∈ sourcePairs items identity kind ↔
      ∃ item ∈ items, item.sourceKey = (identity, kind, pair) := by
  simp only [sourcePairs, mem_uniqueSourcePairs, List.mem_map, List.mem_filter,
    Bool.and_eq_true, decide_eq_true_eq, EvidenceRef.sourceKey, Prod.mk.injEq, and_assoc]

theorem mem_sourceKeys_availableProjection {items : List EvidenceRef} {key : SourceKey} :
    key ∈ (availableProjection H items observedAt ref card).sourceKeys ↔
      key.1 = ref.identity ∧ ∃ item ∈ items, item.sourceKey = key := by
  obtain ⟨identity, kind, pair⟩ := key
  simp only [WorkProjection.sourceKeys, availableProjection, List.mem_append, List.mem_map,
    mem_sourcePairs, Prod.mk.injEq]
  constructor
  · rintro (⟨_, found, rfl, rfl, rfl⟩ | ⟨_, found, rfl, rfl, rfl⟩)
    · exact ⟨rfl, found⟩
    · exact ⟨rfl, found⟩
  · rintro ⟨rfl, found⟩
    cases kind with
    | proof => exact .inl ⟨pair, found, rfl, rfl, rfl⟩
    | artifact => exact .inr ⟨pair, found, rfl, rfl, rfl⟩

theorem sourceKey_evidenceRef {criterionId : String} {generation : Nat} {source : SourceFields}
    (found : cardOf cards ref = some card) :
    (evidenceRef D criterionId generation observedAt ref card source).sourceKey =
      keyOf D card source := by
  rw [keyOf, ← identity_of_cardOf found]
  rfl

/-- Every source of the card of a linked ref is observed, and nothing else about the card is. -/
theorem observed_sourceKey (linked : ref ∈ linkedRefs record) (found : cardOf cards ref = some card)
    {key : SourceKey} :
    (key.1 = ref.identity ∧ ∃ item ∈ observedEvidence D record cards observedAt,
      item.sourceKey = key) ↔ ∃ source ∈ card.sources, keyOf D card source = key := by
  constructor
  · rintro ⟨about, item, mem, rfl⟩
    obtain ⟨_, _, other, _, card', found', source, onCard, rfl⟩ := mem_observedEvidence.mp mem
    rw [sourceKey_evidenceRef found'] at about ⊢
    have same : other.identity = ref.identity := (identity_of_cardOf found').trans about
    rw [cardOf_congr same, found] at found'
    cases found'
    exact ⟨source, onCard, rfl⟩
  · rintro ⟨source, onCard, rfl⟩
    obtain ⟨criterion, inside, linked⟩ := mem_linkedRefs linked
    exact ⟨(identity_of_cardOf found).symm, _, mem_observedEvidence.mpr
      ⟨criterion, inside, ref, linked, card, found, source, onCard, rfl⟩,
      sourceKey_evidenceRef found⟩

theorem isStale_availableProjection {items : List EvidenceRef} :
    isStaleOutcomeProjection (availableProjection H items observedAt ref card) observedAt =
      card.upstreamStale := by
  simp [isStaleOutcomeProjection, availableProjection, projectionMaxAgeMs]

/-- What is displayed of an observation shows the cards. -/
theorem shows_candidate (H : Digests) (D : SourceDigests) (cards : List WorkboardCard)
    (record : OutcomeRecord) (observedAt : Int) :
    Shows D cards record (buildRefreshCandidate H D record cards observedAt).projections
      (buildRefreshCandidate H D record cards observedAt).evidence observedAt := by
  have identities : (buildRefreshCandidate H D record cards observedAt).projections.map
      (·.ref.identity) = (linkedRefs record).map WorkboardRef.identity := by
    simp [buildRefreshCandidate, Function.comp_def]
  refine ⟨?_, ?_, ?_, ?_, ?_⟩
  · rw [identities]
    exact nodup_uniqueWorkRefs _
  · intro identity
    rw [identities, mem_map_linkedRefs]
  · intro projection mem missing
    obtain ⟨ref, linked, rfl⟩ := List.mem_map.mp mem
    rw [observedProjection_ref] at missing
    obtain ⟨reason, eq⟩ := observedProjection_of_none (H := H) missing
    rw [eq, unavailableProjection]
    by_cases conflict : reason = .identityConflict <;> simp [conflict]
  · intro projection mem card found
    obtain ⟨ref, linked, rfl⟩ := List.mem_map.mp mem
    rw [observedProjection_ref] at found
    rw [observedProjection_of_some found]
    refine ⟨rfl, rfl, isStale_availableProjection, fun key => ?_⟩
    rw [mem_sourceKeys_availableProjection, observed_sourceKey linked found]
  · intro criterion mem ref linked card found source onCard
    exact ⟨_, mem_observedEvidence.mpr
      ⟨criterion, mem, ref, linked, card, found, source, onCard, rfl⟩, rfl, rfl,
      sourceKey_evidenceRef found⟩

theorem rules_unavailableProjection {reason : SourceIssue} :
    ProjectionRules H (unavailableProjection observedAt ref reason) := by
  by_cases conflict : reason = .identityConflict
  · simp [ProjectionRules, unavailableProjection, conflict]
  · simp [ProjectionRules, unavailableProjection, conflict]

/-- The gateway's observations meet the projection rules. -/
theorem rules_candidate (mem : projection ∈
    (buildRefreshCandidate H D record cards observedAt).projections) :
    ProjectionRules H projection := by
  obtain ⟨ref, _, rfl⟩ := List.mem_map.mp mem
  cases found : cardOf cards ref with
  | none =>
      obtain ⟨reason, eq⟩ := observedProjection_of_none (H := H) found
      exact eq ▸ rules_unavailableProjection
  | some card =>
      rw [observedProjection_of_some found]
      exact ⟨rfl, card.boardId, card.status, card.updatedAt, rfl, rfl, rfl, rfl⟩

theorem rules_unavailableRefresh {reason : SourceIssue}
    (mem : projection ∈ (unavailableRefresh record observedAt reason).projections) :
    ProjectionRules H projection := by
  obtain ⟨ref, _, rfl⟩ := List.mem_map.mp mem
  exact rules_unavailableProjection

section Merging

theorem WorkProjection.cached_of_available {previous : Option WorkProjection}
    (available : projection.availability = .available) : projection.cached previous = projection :=
  if_pos available

@[simp] theorem WorkProjection.cached_ref {previous : Option WorkProjection} :
    (projection.cached previous).ref = projection.ref := by
  unfold WorkProjection.cached
  split
  · rfl
  · split <;> rfl

@[simp] theorem WorkProjection.cached_availability {previous : Option WorkProjection} :
    (projection.cached previous).availability = projection.availability := by
  unfold WorkProjection.cached
  split
  · rfl
  · split <;> rfl

theorem mem_mergeProjections {current : List WorkProjection} {merged : WorkProjection}
    (mem : merged ∈ OutcomeRecord.mergeProjections current projections) :
    ∃ projection ∈ projections, ∃ previous, merged = projection.cached previous := by
  obtain ⟨projection, inside, rfl⟩ := List.mem_map.mp (JsArray.mem_toSorted.mp mem)
  exact ⟨projection, inside, _, rfl⟩

theorem identities_mergeProjections (current projections : List WorkProjection) :
    ((OutcomeRecord.mergeProjections current projections).map (·.ref.identity)).Perm
      (projections.map (·.ref.identity)) := by
  refine ((JsArray.toSorted_perm _ _).map _).trans (List.Perm.of_eq ?_)
  simp [Function.comp_def]

/-- Evidence under different ids survives the merge. -/
theorem mem_mergeEvidence {current : List EvidenceRef} {item : EvidenceRef}
    (nodup : (evidence.map EvidenceRef.id).Nodup) (mem : item ∈ evidence) :
    item ∈ OutcomeRecord.mergeEvidence current evidence := by
  refine JsArray.mem_toSorted.mpr (JsMap.mem_values.mpr ⟨item.id, JsMap.mem_insertAll_of_nodup ?_
    (List.mem_map_of_mem mem)⟩)
  rw [List.map_map]
  exact nodup

/-- Merging an observation into the history of a record shows the same cards. -/
theorem Shows.merged (shows : Shows D cards record projections evidence observedAt)
    (nodup : (evidence.map EvidenceRef.id).Nodup) :
    Shows D cards record (OutcomeRecord.mergeProjections record.projections projections)
      (OutcomeRecord.mergeEvidence record.evidence evidence) observedAt := by
  have perm := identities_mergeProjections record.projections projections
  refine ⟨perm.nodup_iff.mpr shows.nodup, fun identity => ?_, ?_, ?_, ?_⟩
  · rw [perm.mem_iff, shows.linked]
  · intro merged mem missing
    obtain ⟨projection, inside, previous, rfl⟩ := mem_mergeProjections mem
    rw [WorkProjection.cached_ref] at missing
    rw [WorkProjection.cached_availability]
    exact shows.missing projection inside missing
  · intro merged mem card found
    obtain ⟨projection, inside, previous, rfl⟩ := mem_mergeProjections mem
    rw [WorkProjection.cached_ref] at found
    have present := shows.present projection inside card found
    rw [WorkProjection.cached_of_available present.1]
    exact present
  · intro criterion mem ref linked card found source onCard
    obtain ⟨item, inside, facts⟩ := shows.evidence criterion mem ref linked card found source onCard
    exact ⟨item, mem_mergeEvidence nodup inside, facts⟩

end Merging

section Ids

/-- What the evidence ids of an observation are the digests of. -/
def observedInputs (D : SourceDigests) (record : OutcomeRecord) (cards : List WorkboardCard) :
    List EvidenceInput :=
  record.criteria.flatMap fun criterion => criterion.workRefs.flatMap fun ref =>
    (cardOf cards ref).elim [] fun card =>
      card.sources.map (evidenceInput D criterion.id record.planGeneration card)

/-- The ids of one observation do not collide. -/
def CollisionFree (D : SourceDigests) (record : OutcomeRecord) (cards : List WorkboardCard) : Prop :=
  ∀ left ∈ observedInputs D record cards, ∀ right ∈ observedInputs D record cards,
    D.evidenceRef left = D.evidenceRef right → left = right

theorem nodup_sources (card : WorkboardCard) :
    (card.sources.map fun source => (source.kind, source.id)).Nodup := by
  have proofs : ((card.proofs.map SourceFields.proof).map fun source =>
      (source.kind, source.id)).Nodup := by
    rw [List.map_map]
    refine List.Nodup.of_map Prod.snd ?_
    rw [List.map_map]
    exact card.proofIds
  have artifacts : ((card.artifacts.map SourceFields.artifact).map fun source =>
      (source.kind, source.id)).Nodup := by
    rw [List.map_map]
    refine List.Nodup.of_map Prod.snd ?_
    rw [List.map_map]
    exact card.artifactIds
  rw [WorkboardCard.sources, List.map_append]
  refine List.nodup_append'.mpr ⟨proofs, artifacts, fun key left right => ?_⟩
  obtain ⟨_, one, rfl⟩ := List.mem_map.mp left
  obtain ⟨_, two, eq⟩ := List.mem_map.mp right
  obtain ⟨_, _, rfl⟩ := List.mem_map.mp one
  obtain ⟨_, _, rfl⟩ := List.mem_map.mp two
  cases congrArg Prod.fst eq

theorem mem_inputs_of_ref {criterionId : String} {generation : Nat} {input : EvidenceInput}
    (mem : input ∈ (cardOf cards ref).elim [] fun card =>
      card.sources.map (evidenceInput D criterionId generation card)) :
    input.criterionId = criterionId ∧ (input.cardId, input.cardCreatedAt) = ref.identity := by
  cases found : cardOf cards ref with
  | none => simp [found] at mem
  | some card =>
      rw [found] at mem
      obtain ⟨_, _, rfl⟩ := List.mem_map.mp mem
      exact ⟨rfl, (identity_of_cardOf found).symm⟩

theorem nodup_observedInputs (rules : CriteriaRules record.criteria) :
    (observedInputs D record cards).Nodup := by
  refine List.nodup_flatMap.mpr ⟨fun criterion mem => List.nodup_flatMap.mpr ⟨fun ref _ => ?_, ?_⟩, ?_⟩
  · cases cardOf cards ref with
    | none => exact List.nodup_nil
    | some card =>
        refine List.Nodup.of_map (fun input : EvidenceInput => (input.kind, input.sourceId)) ?_
        rw [Option.elim_some, List.map_map]
        exact nodup_sources card
  · refine (List.pairwise_map.mp (rules.refs criterion mem)).imp ?_
    intro left right other input inLeft inRight
    exact other ((mem_inputs_of_ref inLeft).2.symm.trans (mem_inputs_of_ref inRight).2)
  · refine (List.pairwise_map.mp rules.ids).imp ?_
    intro left right other input inLeft inRight
    obtain ⟨_, _, inLeft⟩ := List.mem_flatMap.mp inLeft
    obtain ⟨_, _, inRight⟩ := List.mem_flatMap.mp inRight
    exact other ((mem_inputs_of_ref inLeft).1.symm.trans (mem_inputs_of_ref inRight).1)

theorem ids_observedEvidence (D : SourceDigests) (record : OutcomeRecord)
    (cards : List WorkboardCard) (observedAt : Int) :
    ((observedEvidence D record cards observedAt).map EvidenceRef.id).Perm
      ((observedInputs D record cards).map D.evidenceRef) := by
  simp only [observedEvidence, observedInputs, List.map_flatMap]
  refine List.Perm.flatMap_left _ fun criterion _ => List.Perm.flatMap_left _ fun ref _ => ?_
  unfold cardOf
  cases matchCard cards ref with
  | error => exact List.Perm.refl _
  | ok card =>
      refine ((JsArray.toSorted_perm _ _).map _).trans (List.Perm.of_eq ?_)
      simp only [List.map_map, Option.elim_some]
      rfl

theorem nodup_observedEvidence (rules : CriteriaRules record.criteria)
    (free : CollisionFree D record cards) :
    ((observedEvidence D record cards observedAt).map EvidenceRef.id).Nodup :=
  (ids_observedEvidence D record cards observedAt).nodup_iff.mpr
    ((nodup_observedInputs rules).map_on free)

end Ids

/-- The reducer takes the observation of the cards, unless the history is full. -/
theorem observe_candidate (H : Digests) (observedAt : Int)
    (rules : CriteriaRules record.criteria) (live : record.phase ≠ .cancelled)
    (free : CollisionFree D record cards) :
    let candidate := buildRefreshCandidate H D record cards observedAt
    let observed := record.observe (some candidate.projections) (some candidate.evidence) observedAt
    observed = .error .capacityExceeded ∨ ∃ projections evidence,
      observed = .ok { record with projections, evidence } ∧
        Shows D cards record projections evidence observedAt := by
  intro candidate observed
  have shows := shows_candidate H D cards record observedAt
  have nodup : (candidate.evidence.map EvidenceRef.id).Nodup := nodup_observedEvidence rules free
  have complete : ¬ (JsArray.distinct (candidate.projections.map (·.ref.identity)) ≠
        (candidate.projections.map (·.ref.identity)).length ∨
      JsArray.distinct (candidate.projections.map (·.ref.identity)) ≠
        JsArray.distinct (identities record.criteria) ∨
      ∃ identity ∈ identities record.criteria,
        identity ∉ candidate.projections.map (·.ref.identity)) := by
    rw [JsArray.distinct_congr shows.linked]
    refine not_or.mpr ⟨?_, not_or.mpr ⟨not_not.mpr rfl, ?_⟩⟩
    · rw [← JsArray.distinct_congr shows.linked, not_not]
      exact JsArray.distinct_eq_length_iff.mpr shows.nodup
    · rintro ⟨identity, mem, outside⟩
      exact outside ((shows.linked identity).mpr mem)
  have about : ¬ (JsArray.distinct (candidate.evidence.map EvidenceRef.id) ≠
        candidate.evidence.length ∨
      ∃ item ∈ candidate.evidence, item.planGeneration ≠ record.planGeneration ∨
        item.workRef.identity ∉ identities record.criteria) := by
    refine not_or.mpr ⟨not_not.mpr ?_, ?_⟩
    · rw [JsArray.distinct_eq_length_iff.mpr nodup, List.length_map]
    · rintro ⟨item, mem, wrong⟩
      obtain ⟨criterion, inside, ref, linked, _, _, _, _, rfl⟩ := mem_observedEvidence.mp mem
      rcases wrong with generation | outside
      · exact generation rfl
      · exact outside (mem_identities.mpr ⟨criterion, inside, ref, linked, rfl⟩)
  simp only [observed, OutcomeRecord.observe, OutcomeRecord.reduceOutcomeRefresh, ne_eq,
    not_true, if_false, if_neg live]
  rw [if_neg complete, if_neg about]
  by_cases full : 100 < (OutcomeRecord.mergeEvidence record.evidence candidate.evidence).length
  · left
    simp [full, OutcomeRecord.rejected]
  · right
    refine ⟨_, _, ?_, shows.merged nodup⟩
    simp [full, OutcomeRecord.updated, candidate]

end Outcomes
