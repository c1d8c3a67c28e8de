import OpenClaw.Outcomes.Workboard

/-!
What one read of the cards says about a record. `Shows` relates projections and
evidence to the cards they were taken from; under it the current evidence of a
criterion is the evidence on its cards, whatever else the history of the record holds.
-/

namespace Outcomes

variable {H : Digests} {D : SourceDigests} {cards : List WorkboardCard} {record : OutcomeRecord}
  {criterion : Criterion} {ref other : WorkboardRef} {card : WorkboardCard}
  {projections : List WorkProjection} {evidence : List EvidenceRef} {observedAt : Int}

/-- The card of a ref, where the list has exactly one under its id. -/
def cardOf (cards : List WorkboardCard) (ref : WorkboardRef) : Option WorkboardCard :=
  match matchCard cards ref with
  | .ok card => some card.1
  | .error _ => none

theorem cardOf_eq (cards : List WorkboardCard) (ref : WorkboardRef) : cardOf cards ref =
    match cards.filter fun card => card.id = ref.cardId with
    | [card] => if ref.identity = card.identity then some card else none
    | _ => none := by
  unfold cardOf matchCard
  generalize cards.filter (fun card => card.id = ref.cardId) = found
  match found with
  | [] => rfl
  | [card] =>
      by_cases same : ref.identity = card.identity
      · simp [same]
      · simp [same]
  | _ :: _ :: _ => rfl

theorem cardOf_congr (same : ref.identity = other.identity) : cardOf cards ref = cardOf cards other := by
  have cardId : ref.cardId = other.cardId := congrArg Prod.fst same
  rw [cardOf_eq, cardOf_eq, cardId, same]

theorem mem_extractWorkboardEvidence {criterionId : String} {planGeneration : Nat}
    {card : MatchedCard ref} {item : EvidenceRef} :
    item ∈ extractWorkboardEvidence D criterionId planGeneration observedAt ref card ↔
      ∃ source ∈ card.1.sources,
        item = evidenceRef D criterionId planGeneration observedAt ref card.1 source := by
  simp only [extractWorkboardEvidence, JsArray.mem_toSorted, List.mem_map, eq_comm]

/-- The evidence of an observation: every source on the card of every ref. -/
theorem mem_observedEvidence {item : EvidenceRef} :
    item ∈ observedEvidence D record cards observedAt ↔
      ∃ criterion ∈ record.criteria, ∃ ref ∈ criterion.workRefs, ∃ card,
        cardOf cards ref = some card ∧ ∃ source ∈ card.sources,
          item = evidenceRef D criterion.id record.planGeneration observedAt ref card source := by
  simp only [observedEvidence, List.mem_flatMap]
  refine exists_congr fun criterion => and_congr_right fun _ =>
    exists_congr fun ref => and_congr_right fun _ => ?_
  unfold cardOf
  cases matchCard cards ref with
  | ok card => simp [mem_extractWorkboardEvidence]
  | error => simp

theorem mem_uniqueWorkRefs {refs : List WorkboardRef} (mem : ref ∈ uniqueWorkRefs refs) :
    ref ∈ refs := by
  induction refs with
  | nil => exact mem
  | cons head refs ih =>
      rcases List.mem_cons.mp mem with rfl | later
      · exact List.mem_cons_self
      · exact List.mem_cons_of_mem _ (ih (List.mem_filter.mp later).1)

theorem exists_mem_uniqueWorkRefs {refs : List WorkboardRef} (mem : ref ∈ refs) :
    ∃ first ∈ uniqueWorkRefs refs, first.identity = ref.identity := by
  induction refs with
  | nil => cases mem
  | cons head refs ih =>
      by_cases same : ref.identity = head.identity
      · exact ⟨head, List.mem_cons_self, same.symm⟩
      · rcases List.mem_cons.mp mem with rfl | later
        · exact absurd rfl same
        · obtain ⟨first, inside, eq⟩ := ih later
          exact ⟨first, List.mem_cons_of_mem _
            (List.mem_filter.mpr ⟨inside, by simpa [eq] using same⟩), eq⟩

theorem nodup_uniqueWorkRefs (refs : List WorkboardRef) :
    ((uniqueWorkRefs refs).map WorkboardRef.identity).Nodup := by
  induction refs with
  | nil => exact List.nodup_nil
  | cons head refs ih =>
      rw [uniqueWorkRefs, List.map_cons, List.nodup_cons]
      refine ⟨fun mem => ?_, ih.sublist (List.filter_sublist.map _)⟩
      obtain ⟨other, inside, same⟩ := List.mem_map.mp mem
      simpa [same] using (List.mem_filter.mp inside).2

theorem mem_identities {identity : Identity} {criteria : List Criterion} :
    identity ∈ identities criteria ↔
      ∃ criterion ∈ criteria, ∃ ref ∈ criterion.workRefs, ref.identity = identity := by
  simp [identities]

theorem mem_linkedRefs (mem : ref ∈ linkedRefs record) :
    ∃ criterion ∈ record.criteria, ref ∈ criterion.workRefs :=
  List.mem_flatMap.mp (mem_uniqueWorkRefs mem)

theorem mem_map_linkedRefs {identity : Identity} :
    identity ∈ (linkedRefs record).map WorkboardRef.identity ↔
      identity ∈ identities record.criteria := by
  rw [mem_identities, List.mem_map]
  constructor
  · rintro ⟨ref, mem, rfl⟩
    obtain ⟨criterion, inside, linked⟩ := mem_linkedRefs mem
    exact ⟨criterion, inside, ref, linked, rfl⟩
  · rintro ⟨criterion, inside, ref, linked, rfl⟩
    exact exists_mem_uniqueWorkRefs (List.mem_flatMap.mpr ⟨criterion, inside, linked⟩)

/-- What a projection shows of a source of a card. -/
def keyOf (D : SourceDigests) (card : WorkboardCard) (source : SourceFields) : SourceKey :=
  (card.identity, source.kind, ⟨source.id, sourceDigest D card source⟩)

theorem identity_of_cardOf (found : cardOf cards ref = some card) :
    ref.identity = card.identity := by
  unfold cardOf at found
  split at found
  case h_1 matched _ =>
    cases found
    exact matched.2
  case h_2 => cases found

/-- The projections and the evidence were read off the cards at `observedAt`. The evidence
may hold more, as the history of a record does. -/
structure Shows (D : SourceDigests) (cards : List WorkboardCard) (record : OutcomeRecord)
    (projections : List WorkProjection) (evidence : List EvidenceRef) (observedAt : Int) : Prop where
  nodup : (projections.map (·.ref.identity)).Nodup
  linked : ∀ identity, identity ∈ projections.map (·.ref.identity) ↔
    identity ∈ identities record.criteria
  missing : ∀ projection ∈ projections, cardOf cards projection.ref = none →
    projection.availability ≠ .available
  present : ∀ projection ∈ projections, ∀ card, cardOf cards projection.ref = some card →
    projection.availability = .available ∧ projection.status = some card.status ∧
    isStaleOutcomeProjection projection observedAt = card.upstreamStale ∧
    ∀ key, key ∈ projection.sourceKeys ↔ ∃ source ∈ card.sources, keyOf D card source = key
  evidence : ∀ criterion ∈ record.criteria, ∀ ref ∈ criterion.workRefs, ∀ card,
    cardOf cards ref = some card → ∀ source ∈ card.sources, ∃ item ∈ evidence,
      item.planGeneration = record.planGeneration ∧ item.criterionId = criterion.id ∧
      item.sourceKey = keyOf D card source

/-- The card of a ref that its source has not marked stale. -/
def freshCard (cards : List WorkboardCard) (ref : WorkboardRef) : Option WorkboardCard :=
  (cardOf cards ref).filter fun card => !card.upstreamStale

/-- The digests on the cards of a criterion, while every ref has a fresh card. -/
def shownDigests (D : SourceDigests) (cards : List WorkboardCard) (criterion : Criterion) :
    Option (List String) :=
  if criterion.workRefs ≠ [] ∧ ∀ ref ∈ criterion.workRefs, freshCard cards ref ≠ none then
    some (criterion.workRefs.flatMap fun ref =>
      (cardOf cards ref).elim [] fun card => card.sources.map (sourceDigest D card))
  else none

theorem freshCard_eq_some : freshCard cards ref = some card ↔
    cardOf cards ref = some card ∧ card.upstreamStale = false := by
  simp [freshCard, Option.filter_eq_some_iff]

theorem freshCard_congr (same : ref.identity = other.identity) :
    freshCard cards ref = freshCard cards other := by
  rw [freshCard, freshCard, cardOf_congr same]

theorem mem_linkedProjections (nodup : (projections.map (·.ref.identity)).Nodup)
    {identity : Identity} {projection : WorkProjection} :
    (identity, projection) ∈ (linkedProjections criterion projections).entries ↔
      projection ∈ projections ∧ projection.ref.identity = identity ∧
        identity ∈ criterion.workRefs.map WorkboardRef.identity := by
  rw [linkedProjections, JsMap.mem_ofList_iff]
  · simp only [List.mem_map, List.mem_filter, Prod.mk.injEq, decide_eq_true_eq]
    constructor
    · rintro ⟨found, ⟨mem, linked⟩, rfl, rfl⟩
      exact ⟨mem, rfl, linked⟩
    · rintro ⟨mem, rfl, linked⟩
      exact ⟨projection, ⟨mem, linked⟩, rfl, rfl⟩
  · rw [List.map_map]
    exact nodup.sublist (List.filter_sublist.map _)

namespace Shows

theorem current_iff (shows : Shows D cards record projections evidence observedAt)
    {projection : WorkProjection} (mem : projection ∈ projections) :
    projection.current observedAt = true ↔ freshCard cards projection.ref ≠ none := by
  cases found : cardOf cards projection.ref with
  | none =>
      have unavailable := shows.missing projection mem found
      simp [WorkProjection.current, freshCard, found, unavailable]
  | some card =>
      obtain ⟨available, _, stale, _⟩ := shows.present projection mem card found
      simp [WorkProjection.current, freshCard, found, available, stale, Option.filter]

/-- The projection of a linked ref. -/
theorem exists_projection (shows : Shows D cards record projections evidence observedAt)
    (mem : criterion ∈ record.criteria) (linked : ref ∈ criterion.workRefs) :
    ∃ projection ∈ projections, projection.ref.identity = ref.identity :=
  List.mem_map.mp ((shows.linked ref.identity).mpr
    (mem_identities.mpr ⟨criterion, mem, ref, linked, rfl⟩))

theorem size_linkedProjections (shows : Shows D cards record projections evidence observedAt)
    (mem : criterion ∈ record.criteria) : (linkedProjections criterion projections).size =
      JsArray.distinct (criterion.workRefs.map WorkboardRef.identity) := by
  refine JsMap.size_eq_distinct fun identity => ?_
  constructor
  · intro key
    obtain ⟨⟨_, projection⟩, entry, rfl⟩ := List.mem_map.mp key
    exact ((mem_linkedProjections shows.nodup).mp entry).2.2
  · intro linked
    obtain ⟨ref, inside, rfl⟩ := List.mem_map.mp linked
    obtain ⟨projection, found, same⟩ := shows.exists_projection mem inside
    exact List.mem_map.mpr ⟨(ref.identity, projection),
      (mem_linkedProjections shows.nodup).mpr ⟨found, same, linked⟩, rfl⟩

theorem mem_currentEvidence (shows : Shows D cards record projections evidence observedAt)
    (mem : criterion ∈ record.criteria)
    (fresh : ∀ ref ∈ criterion.workRefs, freshCard cards ref ≠ none) {digest : String} :
    digest ∈ (currentEvidence (record.withEvidence evidence) criterion
        ((linkedProjections criterion projections).values.flatMap
          WorkProjection.sourceKeys)).map EvidenceRef.sourceDigest ↔
      digest ∈ criterion.workRefs.flatMap fun ref =>
        (cardOf cards ref).elim [] fun card => card.sources.map (sourceDigest D card) := by
  constructor
  · intro found
    obtain ⟨item, inside, rfl⟩ := List.mem_map.mp found
    simp only [currentEvidence, List.mem_filter, Bool.and_eq_true, decide_eq_true_eq,
      List.mem_flatMap, JsMap.mem_values] at inside
    obtain ⟨-, -, projection, ⟨identity, entry⟩, key⟩ := inside
    obtain ⟨inside, rfl, linked⟩ := (mem_linkedProjections shows.nodup).mp entry
    obtain ⟨ref, linked, same⟩ := List.mem_map.mp linked
    obtain ⟨card, at_⟩ := Option.ne_none_iff_exists'.mp (fresh ref linked)
    have card_ := (freshCard_eq_some.mp at_).1
    obtain ⟨source, onCard, eq⟩ := ((shows.present projection inside card
      (cardOf_congr same ▸ card_)).2.2.2 _).mp key
    refine List.mem_flatMap.mpr ⟨ref, linked, ?_⟩
    rw [card_]
    exact List.mem_map.mpr ⟨source, onCard, congrArg (fun key : SourceKey => key.2.2.digest) eq⟩
  · intro shown
    obtain ⟨ref, linked, shown⟩ := List.mem_flatMap.mp shown
    obtain ⟨card, at_⟩ := Option.ne_none_iff_exists'.mp (fresh ref linked)
    have card_ := (freshCard_eq_some.mp at_).1
    rw [card_] at shown
    obtain ⟨source, onCard, rfl⟩ := List.mem_map.mp shown
    obtain ⟨item, inside, generation, about, key⟩ :=
      shows.evidence criterion mem ref linked card card_ source onCard
    obtain ⟨projection, found, same⟩ := shows.exists_projection mem linked
    have identity : ref.identity ∈ criterion.workRefs.map WorkboardRef.identity :=
      List.mem_map_of_mem linked
    have shownKey := ((shows.present projection found card
      ((cardOf_congr same).trans card_)).2.2.2 (keyOf D card source)).mpr ⟨source, onCard, rfl⟩
    refine List.mem_map.mpr ⟨item, ?_, congrArg (fun key : SourceKey => key.2.2.digest) key⟩
    simp only [currentEvidence, List.mem_filter, Bool.and_eq_true, decide_eq_true_eq,
      List.mem_flatMap, JsMap.mem_values]
    refine ⟨inside, ⟨⟨generation, about⟩, ?_⟩, projection, ⟨ref.identity, ?_⟩, key ▸ shownKey⟩
    · have at_ : item.workRef.identity = card.identity := congrArg Prod.fst key
      rw [at_, ← identity_of_cardOf card_]
      exact identity
    · exact (mem_linkedProjections shows.nodup).mpr ⟨found, same, identity⟩

theorem any_notCurrent_iff (shows : Shows D cards record projections evidence observedAt)
    (mem : criterion ∈ record.criteria) :
    ((linkedProjections criterion projections).values.any
        fun projection => !projection.current observedAt) = true ↔
      ¬ ∀ ref ∈ criterion.workRefs, freshCard cards ref ≠ none := by
  simp only [List.any_eq_true, JsMap.mem_values, Bool.not_eq_true', not_forall, not_not]
  constructor
  · rintro ⟨projection, ⟨identity, entry⟩, outdated⟩
    obtain ⟨inside, rfl, linked⟩ := (mem_linkedProjections shows.nodup).mp entry
    obtain ⟨ref, linked, same⟩ := List.mem_map.mp linked
    refine ⟨ref, linked, ?_⟩
    rw [freshCard_congr same]
    simpa [outdated] using shows.current_iff inside
  · rintro ⟨ref, linked, none⟩
    obtain ⟨projection, found, same⟩ := shows.exists_projection mem linked
    refine ⟨projection, ⟨ref.identity, (mem_linkedProjections shows.nodup).mpr
      ⟨found, same, List.mem_map_of_mem linked⟩⟩, ?_⟩
    rw [← Bool.not_eq_true, shows.current_iff found, freshCard_congr same, none]
    simp

/-- The current evidence of a criterion is what its cards show. -/
theorem sourceDigests (shows : Shows D cards record projections evidence observedAt)
    (mem : criterion ∈ record.criteria) :
    Option.Rel (fun found shown => ∀ digest, digest ∈ found ↔ digest ∈ shown)
      (currentOutcomeEvidenceSourceDigests (record.withEvidence evidence) criterion projections
        observedAt) (shownDigests D cards criterion) := by
  simp only [currentOutcomeEvidenceSourceDigests, shownDigests]
  by_cases unlinked : criterion.workRefs = []
  · simp [unlinked, JsArray.distinct]
  have linked : JsArray.distinct (criterion.workRefs.map WorkboardRef.identity) ≠ 0 := by
    simpa [JsArray.distinct] using unlinked
  rw [if_neg linked, shows.size_linkedProjections mem]
  by_cases fresh : ∀ ref ∈ criterion.workRefs, freshCard cards ref ≠ none
  · have current := mt (shows.any_notCurrent_iff mem).mp (not_not.mpr fresh)
    rw [if_neg (by simpa using current), if_pos ⟨unlinked, fresh⟩]
    exact .some fun digest => shows.mem_currentEvidence mem fresh
  · have outdated := (shows.any_notCurrent_iff mem).mpr fresh
    rw [if_pos (by simp [outdated]), if_neg (fun both => fresh both.2)]
    exact .none

end Shows
end Outcomes
