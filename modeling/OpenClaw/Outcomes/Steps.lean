import OpenClaw.Outcomes.Moves

/-!
Every operation settles: it makes one of the moves at the revision it expects, or
answers with the record it was given.
-/

namespace Outcomes
namespace OutcomeRecord

variable {H : Digests} {brought : List WorkProjection} {r o : OutcomeRecord} {res : Result}
  {expectedRevision : Nat} {serverTime : Int}

theorem settles_changeContract {title objective : String} {criteria : List Criterion}
    (expected : ¬ expectedRevision ≠ r.revision) (live : r.phase ≠ .cancelled)
    (rules : CriteriaRules r.criteria → CriteriaRules criteria)
    (taken : r.changeContract H title objective criteria serverTime = some res) :
    Settles H brought r expectedRevision res := by
  have moves : ∀ hash, _ → Moves H brought r _ := fun hash =>
    .contract title objective criteria serverTime hash live rules
  by_cases draft : r.phase = .draft
  · have move := moves none (by simp [draft])
    simp only [changeContract, if_pos draft, if_true] at taken move
    cases taken
    exact .updated expected move
  · simp only [changeContract, if_neg draft, Nat.succ_ne_zero, if_false] at taken
    obtain ⟨hash, hashed, rfl⟩ := Option.map_eq_some_iff.mp taken
    have move := moves (some hash) (by simpa [draft, OutcomeRecord.plan] using hashed.symm)
    simp only [if_neg draft] at move
    exact .updated expected move

theorem settles_contract {objective : String} {criteria : List Criterion}
    (rules : CriteriaRules r.criteria → CriteriaRules criteria)
    (taken : r.reduceOutcomeContract H expectedRevision objective criteria serverTime = some res) :
    Settles H brought r expectedRevision res := by
  unfold reduceOutcomeContract at taken
  split at taken
  · cases taken
    exact .rejected
  case isFalse live =>
    split at taken
    · cases taken
      exact .conflict
    case isFalse expected =>
      split at taken
      · cases taken
        exact .rejected
      split at taken
      · cases taken
        exact .noop
      · exact settles_changeContract expected live (fun known => (rules known).canonicalCriteria)
          taken

theorem settles_activate
    (taken : r.reduceOutcomeActivate H expectedRevision serverTime = some res) :
    Settles H brought r expectedRevision res := by
  unfold reduceOutcomeActivate at taken
  split at taken
  · cases taken
    exact .conflict
  case isFalse expected =>
    split at taken
    · cases taken
      exact .rejected
    case isFalse open_ =>
      split at taken
      · cases taken
        exact .rejected
      · obtain ⟨hash, hashed, rfl⟩ := Option.map_eq_some_iff.mp taken
        have draft : r.phase = .draft := by
          by_contra other
          simp [other] at open_
        exact .updated expected (.activate hash serverTime draft hashed)

theorem settles_title (title : String) :
    Settles H brought r expectedRevision
      (r.reduceOutcomeTitle expectedRevision title serverTime) := by
  unfold reduceOutcomeTitle
  split
  · exact .rejected
  case isFalse live =>
    split
    · exact .conflict
    case isFalse expected =>
      split
      · exact .noop
      · exact .updated expected (.title title serverTime live)

theorem rules_getD {criteria : Option (List Criterion)}
    (rules : ∀ given ∈ criteria, CriteriaRules r.criteria → CriteriaRules given)
    (known : CriteriaRules r.criteria) : CriteriaRules (criteria.getD r.criteria) := by
  cases criteria with
  | none => exact known
  | some given => exact rules given rfl known

theorem settles_patch {mutation : PatchMutation}
    (rules : ∀ criteria ∈ mutation.criteria, CriteriaRules r.criteria → CriteriaRules criteria)
    (taken : r.reduceOutcomePatch H mutation = some res) :
    Settles H brought r mutation.expectedRevision res := by
  unfold reduceOutcomePatch at taken
  split at taken
  · cases taken
    exact .rejected
  case isFalse live =>
    split at taken
    · cases taken
      exact .conflict
    case isFalse expected =>
      split at taken
      · cases taken
        exact .rejected
      dsimp only at taken
      split at taken
      · exact settles_changeContract expected live (rules_getD rules) taken
      split at taken
      · cases taken
        exact .noop
      · cases taken
        exact .updated expected (.title _ _ live)

theorem settles_gatewayPatch {mutation : PatchMutation}
    (rules : ∀ criteria ∈ mutation.criteria, CriteriaRules r.criteria → CriteriaRules criteria)
    (taken : r.reduceGatewayOutcomePatch H mutation = some res) :
    Settles H brought r mutation.expectedRevision res := by
  unfold reduceGatewayOutcomePatch at taken
  split at taken
  · cases taken
    exact settles_title _
  · exact settles_contract (rules_getD rules) taken
  · exact settles_contract (rules_getD rules) taken
  · exact settles_patch rules taken

theorem settles_link {criterionId : String} {ref : WorkboardRef}
    (taken : r.reduceOutcomeLink H expectedRevision criterionId ref serverTime = some res) :
    Settles H brought r expectedRevision res := by
  unfold reduceOutcomeLink at taken
  split at taken
  · cases taken
    exact .conflict
  split at taken
  · cases taken
    exact .rejected
  split at taken
  · cases taken
    exact .rejected
  case h_2 criterion found =>
    split at taken
    · cases taken
      exact .noop
    case isFalse fresh =>
      split at taken
      · cases taken
        exact .rejected
      case isFalse room =>
        split at taken
        · cases taken
          exact .rejected
        case isFalse total =>
          have mem := List.mem_of_find?_eq_some found
          have same : criterion.id = criterionId := by simpa using List.find?_some found
          subst same
          refine settles_contract (fun known => known.link mem ?_ (Nat.lt_of_not_le room) ?_) taken
          · intro other inside eq
            exact fresh (List.any_eq_true.mpr ⟨other, inside, by simp [eq]⟩)
          · by_cases linked : ref.identity ∈ identities r.criteria
            · exact .inl linked
            · exact .inr (Nat.lt_of_not_le fun full => total ⟨linked, full⟩)

theorem settles_unlink {criterionId cardId : String}
    (taken : r.reduceOutcomeUnlink H expectedRevision criterionId cardId serverTime = some res) :
    Settles H brought r expectedRevision res := by
  unfold reduceOutcomeUnlink at taken
  split at taken
  · cases taken
    exact .conflict
  split at taken
  · cases taken
    exact .rejected
  split at taken
  · cases taken
    exact .rejected
  case h_2 criterion found =>
    split at taken
    · cases taken
      exact .rejected
    split at taken
    · cases taken
      exact .noop
    · have mem := List.mem_of_find?_eq_some found
      have same : criterion.id = criterionId := by simpa using List.find?_some found
      subst same
      exact settles_contract (fun known => known.unlink mem List.filter_sublist) taken

/-- The evidence history is a map by id. -/
theorem nodup_ids_mergeEvidence (current observed : List EvidenceRef) :
    ((mergeEvidence current observed).map EvidenceRef.id).Nodup := by
  have keyed : ∀ entry ∈ ((JsMap.ofList (current.map fun evidence =>
      (evidence.id, evidence))).insertAll (observed.map fun evidence =>
        (evidence.id, evidence))).entries, entry.2.id = entry.1 := by
    intro entry mem
    rcases JsMap.mem_insertAll mem with new | ⟨old, _⟩
    · obtain ⟨evidence, _, rfl⟩ := List.mem_map.mp new
      rfl
    · obtain ⟨evidence, _, rfl⟩ := List.mem_map.mp (JsMap.mem_ofList old)
      rfl
  refine (((JsArray.toSorted_perm _ _).map EvidenceRef.id).nodup_iff).mpr ?_
  rw [JsMap.values, List.map_map]
  exact List.map_congr_left keyed ▸ JsMap.nodup _

theorem mem_mergeProjections {current observed : List WorkProjection} {projection : WorkProjection}
    (mem : projection ∈ mergeProjections current observed) :
    ∃ source ∈ observed, ∃ previous : Option WorkProjection,
      (∀ earlier ∈ previous, earlier ∈ current) ∧ projection = source.cached previous := by
  obtain ⟨source, inside, rfl⟩ := List.mem_map.mp (JsArray.mem_toSorted.mp mem)
  refine ⟨source, inside, _, fun earlier found => ?_, rfl⟩
  obtain ⟨_, at_, same⟩ := List.mem_map.mp (JsMap.mem_ofList (JsMap.get?_eq_some.mp found))
  have entry : _ = earlier := congrArg Prod.snd same
  exact entry ▸ at_

theorem observes_merge (projections : List WorkProjection) (evidence : List EvidenceRef) :
    Observes projections r { r with
      projections := mergeProjections r.projections projections
      evidence := mergeEvidence r.evidence evidence } where
  same := rfl
  evidenceIds _ := nodup_ids_mergeEvidence _ _
  projections _ mem := .inr (mem_mergeProjections mem)

/-- What a refresh makes of a record. -/
theorem refresh_cases (r : OutcomeRecord) (expectedRevision : Nat)
    (projections : List WorkProjection) (evidence : List EvidenceRef) (serverTime : Int) :
    ((r.reduceOutcomeRefresh expectedRevision projections evidence serverTime).kind ≠ .updated ∧
      (r.reduceOutcomeRefresh expectedRevision projections evidence serverTime).record = r) ∨
    ¬ expectedRevision ≠ r.revision ∧ r.phase ≠ .cancelled ∧
      r.reduceOutcomeRefresh expectedRevision projections evidence serverTime =
        { r with
          projections := mergeProjections r.projections projections
          evidence := mergeEvidence r.evidence evidence
          revision := r.revision + 1
          updatedAt := serverTime }.updated := by
  unfold reduceOutcomeRefresh
  split
  · exact .inl ⟨Kind.conflict_ne_updated, rfl⟩
  case isFalse expected =>
    split
    · exact .inl ⟨Kind.rejected_ne_updated, rfl⟩
    case isFalse live =>
      dsimp only
      split
      · exact .inl ⟨Kind.rejected_ne_updated, rfl⟩
      split
      · exact .inl ⟨Kind.rejected_ne_updated, rfl⟩
      split
      · exact .inl ⟨Kind.rejected_ne_updated, rfl⟩
      · exact .inr ⟨expected, live, rfl⟩

theorem settles_refresh (projections : List WorkProjection) (evidence : List EvidenceRef) :
    Settles H projections r expectedRevision
      (r.reduceOutcomeRefresh expectedRevision projections evidence serverTime) := by
  rcases refresh_cases r expectedRevision projections evidence serverTime with
    ⟨other, same⟩ | ⟨expected, live, updated⟩
  · exact .inr ⟨.inl other, same⟩
  · rw [updated]
    exact .updated expected (.refresh _ serverTime (observes_merge _ _) live)

theorem observes_of_observe {projections : Option (List WorkProjection)}
    {evidence : Option (List EvidenceRef)}
    (observed : r.observe projections evidence serverTime = .ok o) :
    Observes (projections.getD []) r o := by
  unfold observe at observed
  split at observed
  · cases observed
    exact .refl r
  · cases observed
  · cases observed
  case h_4 projections evidence =>
    dsimp only at observed
    split at observed
    case isTrue kind =>
      rcases refresh_cases r r.revision projections evidence serverTime with
        ⟨other, _⟩ | ⟨_, _, updated⟩
      · exact absurd kind other
      · rw [updated] at observed
        cases observed
        exact observes_merge _ _
    case isFalse =>
      split at observed <;> cases observed

theorem settles_conclude {verdict : Except FailureReason OutcomeRecord}
    (expected : ¬ expectedRevision ≠ r.revision)
    (moves : ∀ next, verdict = .ok next → Moves H brought r next) :
    Settles H brought r expectedRevision (r.conclude verdict) := by
  cases verdict with
  | ok next => exact .updated expected (moves next rfl)
  | error reason => exact .failed nofun

theorem settles_answerRecorded (previousHash requestHash : String) :
    Settles H brought r expectedRevision (r.answerRecorded previousHash requestHash) := by
  unfold answerRecorded
  split
  · exact .inr ⟨.inr rfl, rfl⟩
  · exact .failed nofun

theorem bind_eq_ok {α β ε : Type} {x : Except ε α} {f : α → Except ε β} {b : β}
    (bound : x >>= f = .ok b) : ∃ a, x = .ok a ∧ f a = .ok b := by
  cases x with
  | error reason => cases bound
  | ok a => exact ⟨a, rfl, bound⟩

/-- What a decision that goes through has established. -/
theorem decide_eq_ok {mutation : DecisionMutation} {next : OutcomeRecord}
    (decided : o.decide H mutation = .ok next) :
    ∃ hash, o.HasPlan ∧ o.planHash = some hash ∧
      (∃ criterion ∈ o.criteria, criterion.id = mutation.criterionId) ∧
      next = { o with
        decisions := o.decisions ++ [decisionOf mutation o hash]
        revision := o.revision + 1
        updatedAt := mutation.serverTime } := by
  unfold OutcomeRecord.decide at decided
  split at decided
  · cases decided
  case isFalse planned =>
    split at decided
    case h_2 => cases decided
    case h_1 criterion hash found hashed =>
      split at decided
      · cases decided
      split at decided
      · cases decided
      split at decided
      · cases decided
      split at decided
      · cases decided
      · cases decided
        exact ⟨hash, not_not.mp planned, hashed,
          ⟨criterion, List.mem_of_find?_eq_some found, by simpa using List.find?_some found⟩, rfl⟩

theorem accept_eq_ok {mutation : AcceptanceMutation} {next : OutcomeRecord}
    (accepted : o.accept H mutation = .ok next) :
    ∃ hash closureHash, o.HasPlan ∧ o.planHash = some hash ∧
      next = { o with
        phase := .accepted
        acceptances := o.acceptances ++ [acceptanceOf mutation o hash closureHash]
        revision := o.revision + 1
        updatedAt := mutation.serverTime } := by
  unfold OutcomeRecord.accept at accepted
  split at accepted
  · cases accepted
  case h_2 hash hashed =>
    split at accepted
    · cases accepted
    case isFalse planned =>
      split at accepted
      · cases accepted
      case h_2 closureHash derived =>
        split at accepted
        · cases accepted
        split at accepted
        · cases accepted
        split at accepted
        · cases accepted
        · cases accepted
          exact ⟨hash, closureHash, not_not.mp planned, hashed, rfl⟩

theorem settles_decision (mutation : DecisionMutation) :
    Settles H (mutation.projections.getD []) r mutation.expectedRevision
      (r.reduceOutcomeDecision H mutation) := by
  unfold reduceOutcomeDecision
  split
  · exact settles_answerRecorded _ _
  case h_2 absent =>
    split
    · exact .failed nofun
    case isFalse expected =>
      refine settles_conclude expected fun next verdict => ?_
      obtain ⟨o, observed, decided⟩ := bind_eq_ok verdict
      have observes := observes_of_observe observed
      obtain ⟨hash, planned, hashed, known, rfl⟩ := decide_eq_ok decided
      have revision : o.revision = r.revision := by rw [observes.same]
      rw [revision]
      rw [observes.same] at planned hashed known
      refine .decide o mutation hash observes planned hashed known fun decision mem same => ?_
      simpa [same] using List.find?_eq_none.mp absent decision mem

theorem settles_acceptance (mutation : AcceptanceMutation) :
    Settles H (mutation.projections.getD []) r mutation.expectedRevision
      (r.reduceOutcomeAcceptance H mutation) := by
  unfold reduceOutcomeAcceptance
  split
  · exact settles_answerRecorded _ _
  case h_2 absent =>
    split
    · exact .failed nofun
    case isFalse expected =>
      refine settles_conclude expected fun next verdict => ?_
      obtain ⟨o, observed, accepted⟩ := bind_eq_ok verdict
      have observes := observes_of_observe observed
      obtain ⟨hash, closureHash, planned, hashed, rfl⟩ := accept_eq_ok accepted
      have revision : o.revision = r.revision := by rw [observes.same]
      rw [revision]
      rw [observes.same] at planned hashed
      refine .accept o mutation hash closureHash observes planned hashed fun acceptance mem same => ?_
      simpa [same] using List.find?_eq_none.mp absent acceptance mem

theorem settles_cancel :
    Settles H brought r expectedRevision (r.reduceOutcomeCancel expectedRevision serverTime) := by
  unfold reduceOutcomeCancel
  split
  · exact .conflict
  case isFalse expected =>
    split
    · exact .rejected
    case isFalse live =>
      split
      · exact .rejected
      · refine .updated expected (.cancel serverTime ?_)
        cases phase : r.phase <;> simp_all

end OutcomeRecord

open OutcomeRecord in
theorem Operation.settles {H : Digests} {r : OutcomeRecord} {op : Operation} {res : Result}
    (taken : op.apply H r = some res) : Settles H op.projections r op.expectedRevision res := by
  cases op with
  | update expectedRevision patch serverTime =>
      refine settles_gatewayPatch (fun criteria given known => ?_) taken
      obtain ⟨input, _, rfl⟩ := Option.map_eq_some_iff.mp given
      exact known.withRefs input
  | link => exact settles_link taken
  | unlink => exact settles_unlink taken
  | activate => exact settles_activate taken
  | refresh =>
      cases taken
      exact settles_refresh _ _
  | verifyCriterion mutation =>
      cases taken
      exact settles_decision mutation
  | accept mutation =>
      cases taken
      exact settles_acceptance mutation
  | cancel =>
      cases taken
      exact settles_cancel

end Outcomes
