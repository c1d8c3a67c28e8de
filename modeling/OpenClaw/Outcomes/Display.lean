import OpenClaw.Outcomes.Candidate

/-!
The displayed hashes and the cards. The evidence set that an owner is shown has the
digests on the cards of the criterion, and two looks at the same cards at different
times agree on every decision and on the closure.
-/

namespace Outcomes

variable {H : Digests} {D : SourceDigests} {cards : List WorkboardCard} {record : OutcomeRecord}
  {criterion : Criterion} {ref : WorkboardRef} {card : WorkboardCard}
  {projections laterProjections : List WorkProjection} {evidence laterEvidence : List EvidenceRef}
  {observedAt later : Int} {digests laterDigests : List String}

/-- An evidence set is hashed as a set. -/
theorem evidenceSetHash_congr {criterionId : String} {planGeneration : Nat}
    (same : ∀ digest, digest ∈ digests ↔ digest ∈ laterDigests) :
    evidenceSetHash H ⟨criterionId, planGeneration, digests⟩ =
      evidenceSetHash H ⟨criterionId, planGeneration, laterDigests⟩ := by
  have perm : digests.dedup.Perm laterDigests.dedup :=
    JsArray.perm_dedup_of_nodup (List.nodup_dedup _) fun digest => by rw [List.mem_dedup, same]
  simp only [evidenceSetHash, JsArray.toSorted_lt_eq_of_perm perm]

section Display

theorem authorizedSources_eq : (buildRefreshCandidate H D record cards observedAt).authorizedSources =
    (linkedRefs record).filterMap fun ref => (cardOf cards ref).map
      (authorizedSource (observedEvidence D record cards observedAt) ref) := by
  refine List.filterMap_congr fun ref _ => ?_
  unfold cardOf
  cases matchCard cards ref with
  | ok => rfl
  | error => rfl

theorem refs_of_sources (cards : List WorkboardCard) (items : List EvidenceRef) (refs : List WorkboardRef) :
    ((refs.filterMap fun ref => (cardOf cards ref).map (authorizedSource items ref)).map
      AuthorizedOutcomeSource.ref).Sublist refs := by
  induction refs with
  | nil => exact List.Sublist.refl _
  | cons ref refs ih =>
      cases found : cardOf cards ref with
      | none => simpa [found] using ih.cons ref
      | some card =>
          rw [List.filterMap_cons_some (by rw [found]; rfl), List.map_cons]
          exact ih.cons_cons ref

/-- The authorized sources by the identity of their ref. -/
def sourcesByRef (H : Digests) (D : SourceDigests) (record : OutcomeRecord)
    (cards : List WorkboardCard) (observedAt : Int) : JsMap Identity AuthorizedOutcomeSource :=
  JsMap.ofList ((buildRefreshCandidate H D record cards observedAt).authorizedSources.map
    fun source => (source.ref.identity, source))

theorem mem_sourcesByRef {identity : Identity} {source : AuthorizedOutcomeSource} :
    (identity, source) ∈ (sourcesByRef H D record cards observedAt).entries ↔
      ∃ ref ∈ linkedRefs record, ∃ card, cardOf cards ref = some card ∧ ref.identity = identity ∧
        source = authorizedSource (observedEvidence D record cards observedAt) ref card := by
  rw [sourcesByRef, authorizedSources_eq, JsMap.mem_ofList_iff]
  · simp only [List.mem_map, List.mem_filterMap, Option.map_eq_some_iff, Prod.mk.injEq]
    constructor
    · rintro ⟨_, ⟨ref, linked, card, found, rfl⟩, rfl, rfl⟩
      exact ⟨ref, linked, card, found, rfl, rfl⟩
    · rintro ⟨ref, linked, card, found, rfl, rfl⟩
      exact ⟨_, ⟨ref, linked, card, found, rfl⟩, rfl, rfl⟩
  · have sub := (refs_of_sources cards (observedEvidence D record cards observedAt)
      (linkedRefs record)).map WorkboardRef.identity
    rw [List.map_map] at sub ⊢
    exact (nodup_uniqueWorkRefs _).sublist sub

/-- The projections by the identity of their ref. -/
def projectionsByRef (H : Digests) (D : SourceDigests) (record : OutcomeRecord)
    (cards : List WorkboardCard) (observedAt : Int) : JsMap Identity WorkProjection :=
  JsMap.ofList ((buildRefreshCandidate H D record cards observedAt).projections.map
    fun projection => (projection.ref.identity, projection))

/-- A source on the card is found again behind its evidence. -/
theorem exists_evidenceView {item : EvidenceRef} {source : SourceFields}
    (onCard : source ∈ card.sources) (kind : item.kind = source.kind)
    (id : item.sourceId = source.id) : ∃ view, evidenceView card item = some view := by
  rw [← Option.isSome_iff_exists, evidenceView, kind]
  rcases List.mem_append.mp onCard with proof | artifact
  · obtain ⟨fields, inside, rfl⟩ := List.mem_map.mp proof
    have same : fields.id = item.sourceId := id.symm
    exact Option.isSome_map.trans (List.find?_isSome.mpr ⟨fields, inside, by simp [same]⟩)
  · obtain ⟨fields, inside, rfl⟩ := List.mem_map.mp artifact
    have same : fields.id = item.sourceId := id.symm
    exact Option.isSome_map.trans (List.find?_isSome.mpr ⟨fields, inside, by simp [same]⟩)

theorem evidenceView_eq {item : EvidenceRef} {view : EvidenceView}
    (shown : evidenceView card item = some view) : view.toEvidenceRef = item := by
  unfold evidenceView at shown
  cases kind : item.kind with
  | proof =>
      rw [kind] at shown
      obtain ⟨_, _, rfl⟩ := Option.map_eq_some_iff.mp shown
      rfl
  | artifact =>
      rw [kind] at shown
      obtain ⟨_, _, rfl⟩ := Option.map_eq_some_iff.mp shown
      rfl

/-- The digests that a source shows for a criterion are those of its card. -/
theorem mem_authorizedSource {first : WorkboardRef} {digest : String}
    (mem : criterion ∈ record.criteria) (linked : ref ∈ criterion.workRefs)
    (same : first.identity = ref.identity) (found : cardOf cards ref = some card) :
    digest ∈ ((authorizedSource (observedEvidence D record cards observedAt) first
        card).evidence.filter fun item => item.criterionId = criterion.id &&
          item.planGeneration = record.planGeneration).map (·.sourceDigest) ↔
      ∃ source ∈ card.sources, sourceDigest D card source = digest := by
  simp only [authorizedSource, List.mem_map, List.mem_filter, List.mem_filterMap,
    Bool.and_eq_true, decide_eq_true_eq]
  constructor
  · rintro ⟨view, ⟨⟨item, ⟨inside, about⟩, shown⟩, _⟩, rfl⟩
    rw [evidenceView_eq shown]
    obtain ⟨_, _, other, _, card', found', source, onCard, rfl⟩ := mem_observedEvidence.mp inside
    have eq : other.identity = ref.identity := about.trans same
    rw [cardOf_congr eq, found] at found'
    cases found'
    exact ⟨source, onCard, rfl⟩
  · rintro ⟨source, onCard, rfl⟩
    let item := evidenceRef D criterion.id record.planGeneration observedAt ref card source
    have seen : ∃ view, evidenceView card item = some view := exists_evidenceView onCard rfl rfl
    obtain ⟨view, shown⟩ := seen
    have eq := evidenceView_eq shown
    refine ⟨view, ⟨⟨_, ⟨mem_observedEvidence.mpr
      ⟨criterion, mem, ref, linked, card, found, source, onCard, rfl⟩, same.symm⟩, shown⟩, ?_⟩, ?_⟩
    · rw [eq]
      exact ⟨rfl, rfl⟩
    · rw [eq]
      rfl

/-- The hash on display is that of the digests on the cards. -/
theorem criterionView_evidenceSetHash {hash : String} (mem : criterion ∈ record.criteria)
    (shown : (criterionView H record observedAt (sourcesByRef H D record cards observedAt)
      (projectionsByRef H D record cards observedAt) criterion).evidenceSetHash = some hash) :
    ∃ digests, shownDigests D cards criterion = some digests ∧
      hash = evidenceSetHash H ⟨criterion.id, record.planGeneration, digests⟩ := by
  obtain ⟨⟨-, -, ⟨complete, current⟩, linked⟩, same⟩ := Option.ite_none_right_eq_some.mp shown
  have all : criterion.workRefs.filter
      (fun ref => (sourcesByRef H D record cards observedAt).has ref.identity) =
      criterion.workRefs := List.filter_sublist.eq_of_length complete
  rw [if_pos complete, all] at same
  rw [all] at current
  have fresh : ∀ ref ∈ criterion.workRefs, freshCard cards ref ≠ none := by
    intro ref inside
    obtain ⟨projection, at_, isCurrent⟩ := (Option.any_eq_true _ _).mp
      (List.all_eq_true.mp current ref inside)
    obtain ⟨_, shown, pair⟩ := List.mem_map.mp (JsMap.mem_ofList (JsMap.get?_eq_some.mp at_))
    obtain ⟨same, rfl⟩ := Prod.mk.inj pair
    have shows := shows_candidate H D cards record observedAt
    exact freshCard_congr same ▸ (shows.current_iff shown).mp isCurrent
  refine ⟨_, if_pos ⟨List.length_pos_iff.mp linked, fresh⟩, ?_⟩
  refine (Option.some.inj same).symm.trans (evidenceSetHash_congr fun digest => ?_)
  simp only [List.mem_flatMap]
  refine exists_congr fun ref => and_congr_right fun inside => ?_
  obtain ⟨card, at_⟩ := Option.ne_none_iff_exists'.mp (fresh ref inside)
  have found := (freshCard_eq_some.mp at_).1
  obtain ⟨first, isLinked, eq⟩ := List.mem_map.mp (mem_map_linkedRefs.mpr
    (mem_identities.mpr ⟨criterion, mem, ref, inside, rfl⟩))
  have source : (sourcesByRef H D record cards observedAt).get? ref.identity =
      some (authorizedSource (observedEvidence D record cards observedAt) first card) :=
    JsMap.get?_eq_some.mpr (mem_sourcesByRef.mpr
      ⟨first, isLinked, card, (cardOf_congr eq).trans found, eq, rfl⟩)
  rw [source, found, Option.elim_some, mem_authorizedSource mem inside eq found]
  simp

end Display

section Closure

/-- The decision on a criterion, given its current evidence. -/
def decisionOn (H : Digests) (record : OutcomeRecord) (criterion : Criterion)
    (sourceDigests : List String) : Option CurrentDecision := do
  guard (record.planHash ≠ none)
  let expected := evidenceSetHash H
    { criterionId := criterion.id, planGeneration := record.planGeneration, sourceDigests }
  let decision ← selectedDecision record criterion
  guard (some decision.planHash = record.planHash ∧ decision.evidenceSetHash = expected)
  pure { decision, sourceDigests }

theorem currentOutcomeDecision_eq : currentOutcomeDecision H (record.withEvidence evidence) criterion
    projections observedAt = (currentOutcomeEvidenceSourceDigests (record.withEvidence evidence)
      criterion projections observedAt).bind (decisionOn H record criterion) := rfl

/-- What a closure reads of a decision: it, and whether there is evidence. -/
def closureView (decided : Option CurrentDecision) : Option (HumanDecision × Bool) :=
  decided.map fun current => (current.decision, current.sourceDigests.isEmpty)

theorem isEmpty_congr (same : ∀ digest, digest ∈ digests ↔ digest ∈ laterDigests) :
    digests.isEmpty = laterDigests.isEmpty := by
  rw [Bool.eq_iff_iff, List.isEmpty_iff, List.isEmpty_iff, List.eq_nil_iff_forall_not_mem,
    List.eq_nil_iff_forall_not_mem]
  simp only [same]

theorem closureView_decisionOn (same : ∀ digest, digest ∈ digests ↔ digest ∈ laterDigests) :
    closureView (decisionOn H record criterion digests) =
      closureView (decisionOn H record criterion laterDigests) := by
  have hash : evidenceSetHash H ⟨criterion.id, record.planGeneration, digests⟩ =
      evidenceSetHash H ⟨criterion.id, record.planGeneration, laterDigests⟩ :=
    evidenceSetHash_congr same
  by_cases planned : record.planHash = none
  · simp [decisionOn, planned]
  · cases selected : selectedDecision record criterion with
    | none => simp [decisionOn, selected]
    | some decision =>
        by_cases current : some decision.planHash = record.planHash ∧ decision.evidenceSetHash =
            evidenceSetHash H ⟨criterion.id, record.planGeneration, laterDigests⟩
        · simp [decisionOn, selected, planned, hash, current, closureView, isEmpty_congr same]
        · simp [decisionOn, selected, hash, current]

theorem closureCriterion_congr {left right : Option CurrentDecision}
    (same : closureView left = closureView right) :
    closureCriterion criterion left = closureCriterion criterion right := by
  have ofView : ∀ decided, closureCriterion criterion decided = (closureView decided).bind
      fun view => if view.1.status = .verified ∧ view.2 = false then
        some ⟨criterion.id, view.1.id, view.1.decidedRevision, view.1.evidenceSetHash⟩
      else none := by
    intro decided
    cases decided with
    | none => rfl
    | some current => simp [closureCriterion, closureView]
  rw [ofView, ofView, same]

theorem rejected_congr {left right : Option CurrentDecision}
    (same : closureView left = closureView right) :
    (left.any fun current => current.decision.status = .rejected) =
      right.any fun current => current.decision.status = .rejected := by
  have ofView : ∀ decided : Option CurrentDecision,
      (decided.any fun current => current.decision.status = .rejected) =
        (closureView decided).any fun view => view.1.status = .rejected := by
    intro decided
    cases decided <;> rfl
  rw [ofView, ofView, same]

/-- The closure of a record from what blocks it, what was rejected and what it requires. -/
def closureFrom (H : Digests) (record : OutcomeRecord) (blocked rejected : Bool)
    (required : Option (List ClosureCriterion)) : Option String := do
  guard (record.phase ≠ .draft ∧ record.phase ≠ .cancelled)
  let planHash ← record.planHash
  guard (!blocked && !record.hasInFlightOperation)
  guard (!rejected)
  let requiredCriteria ← required
  pure (outcomeClosureHash H
    { outcomeId := record.id, planGeneration := record.planGeneration, planHash, requiredCriteria })

theorem deriveOutcomeClosure_eq (decided : Criterion → Option CurrentDecision)
    (same : decided = fun criterion =>
      currentOutcomeDecision H (record.withEvidence evidence) criterion projections observedAt) :
    deriveOutcomeClosure H (record.withEvidence evidence) projections observedAt =
      closureFrom H record (closureBlocked projections observedAt)
        (record.criteria.any fun criterion =>
          (decided criterion).any fun current => current.decision.status = .rejected)
        ((record.criteria.filter (·.required)).mapM fun criterion =>
          closureCriterion criterion (decided criterion)) := by
  subst same
  rfl

theorem mapM_congr {α β : Type} {f g : α → Option β} {xs : List α}
    (same : ∀ x ∈ xs, f x = g x) : xs.mapM f = xs.mapM g := by
  induction xs with
  | nil => rfl
  | cons x xs ih =>
      rw [List.mapM_cons, List.mapM_cons, same x List.mem_cons_self,
        ih fun y mem => same y (List.mem_cons_of_mem _ mem)]

namespace Shows

/-- Two looks at the same cards agree on the decision of a criterion. -/
theorem closureView_eq (shows : Shows D cards record projections evidence observedAt)
    (again : Shows D cards record laterProjections laterEvidence later)
    (mem : criterion ∈ record.criteria) :
    closureView (currentOutcomeDecision H (record.withEvidence evidence) criterion projections
        observedAt) =
      closureView (currentOutcomeDecision H (record.withEvidence laterEvidence) criterion
        laterProjections later) := by
  rw [currentOutcomeDecision_eq, currentOutcomeDecision_eq]
  have first := shows.sourceDigests mem
  have second := again.sourceDigests mem
  generalize currentOutcomeEvidenceSourceDigests (record.withEvidence evidence) criterion
    projections observedAt = found at first ⊢
  generalize currentOutcomeEvidenceSourceDigests (record.withEvidence laterEvidence) criterion
    laterProjections later = foundLater at second ⊢
  generalize shownDigests D cards criterion = shown at first second
  cases first with
  | none =>
      cases second
      rfl
  | some same =>
      cases second with
      | some sameLater =>
          exact closureView_decisionOn fun digest => (same digest).trans (sameLater digest).symm

/-- A source blocks the closure if it has no card, a blocked one or a stale one. -/
theorem closureBlocked_iff (shows : Shows D cards record projections evidence observedAt) :
    closureBlocked projections observedAt = true ↔ ∃ criterion ∈ record.criteria,
      ∃ ref ∈ criterion.workRefs, ∀ card, cardOf cards ref = some card →
        card.status = .blocked ∨ card.upstreamStale = true := by
  have each : ∀ projection ∈ projections,
      (projection.availability ≠ .available || projection.status = some .blocked ||
        isStaleOutcomeProjection projection observedAt) = true ↔
      ∀ card, cardOf cards projection.ref = some card →
        card.status = .blocked ∨ card.upstreamStale = true := by
    intro projection mem
    cases found : cardOf cards projection.ref with
    | none => simp [shows.missing projection mem found]
    | some card =>
        obtain ⟨available, status, stale, _⟩ := shows.present projection mem card found
        simp [available, status, stale]
  rw [closureBlocked, List.any_eq_true]
  constructor
  · rintro ⟨projection, mem, blocked⟩
    obtain ⟨criterion, inside, ref, linked, same⟩ := mem_identities.mp
      ((shows.linked _).mp (List.mem_map_of_mem mem))
    refine ⟨criterion, inside, ref, linked, ?_⟩
    rw [cardOf_congr same]
    exact (each projection mem).mp blocked
  · rintro ⟨criterion, inside, ref, linked, blocked⟩
    obtain ⟨projection, found, same⟩ := shows.exists_projection inside linked
    rw [← cardOf_congr same] at blocked
    exact ⟨projection, found, (each projection found).mpr blocked⟩

/-- Two looks at the same cards agree on the closure. -/
theorem closure_eq (shows : Shows D cards record projections evidence observedAt)
    (again : Shows D cards record laterProjections laterEvidence later) :
    deriveOutcomeClosure H (record.withEvidence evidence) projections observedAt =
      deriveOutcomeClosure H (record.withEvidence laterEvidence) laterProjections later := by
  have blocked : closureBlocked projections observedAt = closureBlocked laterProjections later := by
    rw [Bool.eq_iff_iff, shows.closureBlocked_iff, again.closureBlocked_iff]
  have view := fun criterion (mem : criterion ∈ record.criteria) =>
    shows.closureView_eq (H := H) again mem
  rw [deriveOutcomeClosure_eq _ rfl, deriveOutcomeClosure_eq _ rfl, blocked]
  congr 1
  · rw [Bool.eq_iff_iff, List.any_eq_true, List.any_eq_true]
    refine exists_congr fun criterion => and_congr_right fun mem => ?_
    rw [rejected_congr (view criterion mem)]
  · exact mapM_congr fun criterion mem =>
      closureCriterion_congr (view criterion (List.mem_filter.mp mem).1)

end Shows
end Closure
end Outcomes
