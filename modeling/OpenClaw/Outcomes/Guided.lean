import OpenClaw.Outcomes.Closure
import OpenClaw.Outcomes.Unlinking

/-!
Whether the actions that an owner is shown are open. The guidance offers an action under the
guard of its transition; activation alone is offered without asking for operations in flight.
-/

namespace Outcomes

variable {H : Digests} {record : OutcomeRecord} {projections : List WorkProjection}
  {projectionsByRef : JsMap Identity WorkProjection} {observedAt : Int} {guidance : Guidance}
  {closureHash : Option String} {action : NextAction} {criterion : Criterion}

namespace Guidance

@[simp] theorem nextActions_addAttention (code : AttentionCode) (criterionId : Option String) :
    (guidance.addAttention code criterionId).nextActions = guidance.nextActions := by
  unfold addAttention
  split <;> rfl

@[simp] theorem mem_addAction {added : NextAction} :
    action ∈ (guidance.addAction added).nextActions ↔
      action ∈ guidance.nextActions ∨ action = added := by
  unfold addAction
  split
  case isTrue known =>
    exact ⟨.inl, fun either => either.elim id fun same => same ▸ known⟩
  case isFalse =>
    rw [List.mem_append, List.mem_singleton]

@[simp] theorem nextActions_ite_addAttention {given : Prop} [Decidable given] {code : AttentionCode}
    {criterionId : Option String} :
    (if given then guidance.addAttention code criterionId else guidance).nextActions =
      guidance.nextActions := by
  split <;> simp

theorem mem_ite_addAction {given : Prop} [Decidable given] {added : NextAction} :
    action ∈ (if given then guidance.addAction added else guidance).nextActions ↔
      action ∈ guidance.nextActions ∨ given ∧ action = added := by
  split
  case isTrue holds => simp [holds]
  case isFalse fails => simp [fails]

/-- Offered for the sources of a criterion, not for the record. -/
def IsSourceAction (action : NextAction) : Prop := action = .refresh ∨ action = .reviewEvidence

end Guidance

open Guidance

theorem mem_attendRef (other : ¬ IsSourceAction action) {criterionId : String} {ref : WorkboardRef}
    {state : Guidance × Bool} :
    action ∈ (attendRef projectionsByRef observedAt criterionId state ref).1.nextActions ↔
      action ∈ state.1.nextActions := by
  have apart : action ≠ .refresh := fun same => other (.inl same)
  unfold attendRef
  cases projectionsByRef.get? ref.identity with
  | none => simp [apart]
  | some projection =>
      dsimp only
      split
      · simp [apart]
      split
      · simp [apart]
      split
      · simp [apart]
      · rfl

theorem mem_attendRefs (other : ¬ IsSourceAction action) {criterionId : String}
    {refs : List WorkboardRef} {state : Guidance × Bool} :
    action ∈ (refs.foldl (attendRef projectionsByRef observedAt criterionId) state).1.nextActions ↔
      action ∈ state.1.nextActions := by
  induction refs generalizing state with
  | nil => rfl
  | cons ref refs ih => exact ih.trans (mem_attendRef other)

theorem mem_attendEvidence (other : ¬ IsSourceAction action) :
    action ∈ (attendEvidence H record projections observedAt guidance criterion).nextActions ↔
      action ∈ guidance.nextActions := by
  simp only [IsSourceAction, not_or] at other
  unfold attendEvidence
  dsimp only
  split
  · rfl
  · split <;> simp [other.1, other.2]
  · split
    · rfl
    · split <;> simp [other.2]

theorem mem_attendCriterion (other : ¬ IsSourceAction action) :
    action ∈ (attendCriterion H record projections projectionsByRef observedAt guidance
        criterion).nextActions ↔ action ∈ guidance.nextActions := by
  unfold attendCriterion
  dsimp only
  generalize started_ : (if record.phase = .draft ∨ criterion.required ∧ criterion.workRefs = [] then
    guidance.addAttention .contractIncomplete (some criterion.id) else guidance) = started
  have same : started.nextActions = guidance.nextActions := by
    rw [← started_]
    exact nextActions_ite_addAttention
  rw [← same]
  split
  · exact (mem_attendEvidence other).trans (mem_attendRefs other)
  · exact mem_attendRefs other

/-- The criteria ask for actions on their sources only. -/
theorem mem_attendCriteria (other : ¬ IsSourceAction action) {criteria : List Criterion} :
    action ∈ (criteria.foldl (attendCriterion H record projections projectionsByRef observedAt)
        guidance).nextActions ↔ action ∈ guidance.nextActions := by
  induction criteria generalizing guidance with
  | nil => rfl
  | cons criterion criteria ih => exact ih.trans (mem_attendCriterion other)

/-- Every required criterion links a card. -/
def Linked (record : OutcomeRecord) : Prop :=
  ∀ criterion ∈ record.criteria, criterion.required = true → criterion.workRefs ≠ []

/-- When an action on the record is offered. -/
def Offered (record : OutcomeRecord) (closureHash : Option String) : NextAction → Prop
  | .editContract | .linkWork => record.hasInFlightOperation = false
  | .activate => record.phase = .draft ∧ Linked record
  | .cancel => (record.phase = .draft ∨ record.phase = .active) ∧ record.hasInFlightOperation = false
  | .accept => closureHash ≠ none ∧ hasCurrentAcceptance record closureHash = false
  | _ => False

theorem mem_attendRecord (live : record.phase ≠ .cancelled) (other : ¬ IsSourceAction action)
    (kept : action ≠ .unlinkWork) :
    action ∈ (attendRecord H record projections observedAt closureHash guidance).nextActions ↔
      action ∈ guidance.nextActions ∨ Offered record closureHash action := by
  have ended : ∀ operated : Guidance, action ∈ (if closureHash ≠ none ∧
      !hasCurrentAcceptance record closureHash then
        ((operated.addAttention .readyForAcceptance).addAction .reviewEvidence).addAction .accept
      else operated).nextActions ↔ action ∈ operated.nextActions ∨
        (closureHash ≠ none ∧ hasCurrentAcceptance record closureHash = false) ∧
          action = .accept := by
    intro operated
    have unreviewed : action ≠ .reviewEvidence := fun same => other (.inr same)
    simp only [Bool.not_eq_true']
    split
    case isTrue holds => simp [unreviewed, holds]
    case isFalse fails => simp [fails]
  have edited : ∀ linked : Guidance, action ∈ (if !record.hasInFlightOperation ∧
      (record.phase = .draft ∨ record.phase = .active ∨ record.phase = .accepted) then
        (linked.addAction .editContract).addAction .linkWork else linked).nextActions ↔
      action ∈ linked.nextActions ∨ record.hasInFlightOperation = false ∧
        (action = .editContract ∨ action = .linkWork) := by
    intro linked
    have phases : record.phase = .draft ∨ record.phase = .active ∨ record.phase = .accepted := by
      cases phase : record.phase <;> simp_all
    cases record.hasInFlightOperation <;> simp [phases, or_assoc]
  have linked : action ∈ (if record.criteria.any (fun criterion => criterion.workRefs ≠ []) then
      (if !record.hasInFlightOperation then (guidance.addAction .refresh).addAction .unlinkWork
        else guidance.addAction .refresh) else guidance).nextActions ↔
      action ∈ guidance.nextActions := by
    have apart : action ≠ .refresh := fun same => other (.inl same)
    split
    · split <;> simp [apart, kept]
    · rfl
  have links : (record.criteria.filter (·.required)).all
      (fun criterion => criterion.workRefs ≠ []) = true ↔ Linked record := by
    simp only [Linked, List.all_eq_true, List.mem_filter, decide_eq_true_eq, and_imp]
  unfold attendRecord
  dsimp only
  rw [ended]
  simp only [nextActions_ite_addAttention, mem_ite_addAction]
  rw [edited, linked, links]
  cases action <;> simp [Offered]

/-- The refusals of the transition behind an action, asked at the current revision with arguments
that are fine otherwise. -/
def Refused (H : Digests) (record : OutcomeRecord) (closureHash : Option String) : NextAction → Prop
  | .editContract => ∃ mutation res, mutation.expectedRevision = record.revision ∧
      record.reduceGatewayOutcomePatch H mutation = some res ∧ res.kind = .rejected
  | .linkWork => ∃ criterion ∈ record.criteria, ∃ ref serverTime res,
      criterion.workRefs.length < maxWorkRefsPerCriterion ∧
      (ref.identity ∈ identities record.criteria ∨
        JsArray.distinct (identities record.criteria) < maxDistinctWorkRefs) ∧
      record.reduceOutcomeLink H record.revision criterion.id ref serverTime = some res ∧
      res.kind = .rejected
  | .activate => ∃ serverTime res,
      record.reduceOutcomeActivate H record.revision serverTime = some res ∧ res.kind = .rejected
  | .cancel => ∃ serverTime, (record.reduceOutcomeCancel record.revision serverTime).kind = .rejected
  | .accept => ∃ mutation : AcceptanceMutation, mutation.expectedRevision = record.revision ∧
      (∀ acceptance ∈ record.acceptances, acceptance.id ≠ mutation.id) ∧
      some mutation.closureHash = closureHash ∧
      (record.reduceOutcomeAcceptance H mutation).reason = some .invalidState
  | _ => False

theorem Kind.noop_ne_rejected : Kind.noop ≠ .rejected := nofun

theorem Kind.updated_ne_rejected : Kind.updated ≠ .rejected := nofun

theorem OutcomeRecord.changeContract_updated {title objective : String} {criteria : List Criterion}
    {serverTime : Int} {res : Result}
    (changed : record.changeContract H title objective criteria serverTime = some res) :
    res.kind = .updated := by
  unfold OutcomeRecord.changeContract at changed
  dsimp only at changed
  split at changed
  · cases changed
    rfl
  · obtain ⟨_, _, rfl⟩ := Option.map_eq_some_iff.mp changed
    rfl

variable {res : Result}

section Open

variable (live : record.phase ≠ .cancelled) (idle : record.hasInFlightOperation = false)
include live idle

theorem reduceOutcomeContract_open {objective : String} {criteria : List Criterion}
    {serverTime : Int} (answer : record.reduceOutcomeContract H record.revision objective criteria
      serverTime = some res) : res.kind ≠ .rejected := by
  rw [OutcomeRecord.reduceOutcomeContract, if_neg live, if_neg (not_not.mpr rfl), idle,
    if_neg (by decide)] at answer
  split at answer
  · cases answer
    exact Kind.noop_ne_rejected
  · rw [OutcomeRecord.changeContract_updated answer]
    exact Kind.updated_ne_rejected

theorem reduceGatewayOutcomePatch_open {mutation : OutcomeRecord.PatchMutation}
    (revision : mutation.expectedRevision = record.revision)
    (answer : record.reduceGatewayOutcomePatch H mutation = some res) : res.kind ≠ .rejected := by
  unfold OutcomeRecord.reduceGatewayOutcomePatch at answer
  split at answer
  · rw [OutcomeRecord.reduceOutcomeTitle, if_neg live, if_neg (not_not.mpr revision)] at answer
    split at answer
    · cases answer
      exact Kind.noop_ne_rejected
    · cases answer
      exact Kind.updated_ne_rejected
  · exact reduceOutcomeContract_open live idle (revision ▸ answer)
  · exact reduceOutcomeContract_open live idle (revision ▸ answer)
  · rw [OutcomeRecord.reduceOutcomePatch, if_neg live, if_neg (not_not.mpr revision), idle,
      if_neg (by decide)] at answer
    dsimp only at answer
    split at answer
    · rw [OutcomeRecord.changeContract_updated answer]
      exact Kind.updated_ne_rejected
    split at answer
    · cases answer
      exact Kind.noop_ne_rejected
    · cases answer
      exact Kind.updated_ne_rejected

theorem reduceOutcomeLink_open (rules : CriteriaRules record.criteria)
    (mem : criterion ∈ record.criteria) {ref : WorkboardRef} {serverTime : Int}
    (room : criterion.workRefs.length < maxWorkRefsPerCriterion)
    (distinct : ref.identity ∈ identities record.criteria ∨
      JsArray.distinct (identities record.criteria) < maxDistinctWorkRefs)
    (answer : record.reduceOutcomeLink H record.revision criterion.id ref serverTime = some res) :
    res.kind ≠ .rejected := by
  have open_ : ¬ (decide (record.phase = .cancelled) || record.hasInFlightOperation) = true := by
    simp [live, idle]
  rw [OutcomeRecord.reduceOutcomeLink, if_neg (not_not.mpr rfl), if_neg open_,
    find_criterion rules mem] at answer
  dsimp only at answer
  rw [if_neg (not_le.mpr room)] at answer
  split at answer
  · cases answer
    exact Kind.noop_ne_rejected
  split at answer
  case isTrue full =>
    exact absurd full.2 (not_le.mpr (distinct.resolve_left full.1))
  · exact reduceOutcomeContract_open live idle answer

end Open

open OutcomeRecord in
theorem observe_ne_invalidState {observation : Option (List WorkProjection)}
    {evidence : Option (List EvidenceRef)} {serverTime : Int} :
    record.observe observation evidence serverTime ≠ .error .invalidState := by
  unfold observe
  split
  · nofun
  · nofun
  · nofun
  · dsimp only
    split
    · nofun
    split <;> nofun

theorem plan_of_closure {hash : String}
    (derived : deriveOutcomeClosure H record projections observedAt = some hash) :
    record.HasPlan ∧ record.planHash ≠ none := by
  cases hashed : record.planHash with
  | none => simp [deriveOutcomeClosure, hashed] at derived
  | some planHash =>
      refine ⟨?_, nofun⟩
      cases phase : record.phase with
      | draft => simp [deriveOutcomeClosure, phase] at derived
      | active => exact .inl phase
      | accepted => exact .inr phase
      | cancelled => simp [deriveOutcomeClosure, phase] at derived

theorem accept_ne_invalidState {mutation : AcceptanceMutation} (planned : record.HasPlan)
    (hashed : record.planHash ≠ none) (unaccepted : ¬ record.AlreadyAccepted mutation.closureHash) :
    record.accept H mutation ≠ .error .invalidState := by
  unfold OutcomeRecord.accept
  split
  · contradiction
  · rw [if_neg (not_not.mpr planned)]
    split
    · nofun
    case h_2 closureHash derived =>
      split
      · nofun
      case isFalse same =>
        simp only [not_or, not_not] at same
        rw [if_neg (same.2 ▸ unaccepted)]
        split <;> nofun

/-- The acceptance that is offered is not refused for the state of the record. -/
theorem reduceOutcomeAcceptance_open {mutation : AcceptanceMutation}
    (offered : deriveOutcomeClosure H record projections observedAt = some mutation.closureHash)
    (unaccepted : hasCurrentAcceptance record (some mutation.closureHash) = false)
    (revision : mutation.expectedRevision = record.revision)
    (fresh : ∀ acceptance ∈ record.acceptances, acceptance.id ≠ mutation.id) :
    (record.reduceOutcomeAcceptance H mutation).reason ≠ some .invalidState := by
  obtain ⟨planned, hashed⟩ := plan_of_closure offered
  have unknown : record.acceptances.find? (fun acceptance => acceptance.id = mutation.id) = none := by
    simpa using fresh
  simp only [OutcomeRecord.reduceOutcomeAcceptance, unknown, if_neg (not_not.mpr revision)]
  cases observed : record.observe mutation.projections mutation.evidence mutation.serverTime with
  | error reason =>
      intro same
      have reason_ : some reason = some FailureReason.invalidState := same
      cases reason_
      exact observe_ne_invalidState observed
  | ok seen =>
      have same := (OutcomeRecord.observes_of_observe observed).same
      have unaccepted' : ¬ seen.AlreadyAccepted mutation.closureHash := by
        rintro ⟨acceptance, mem, generation, hash, closure⟩
        rw [same] at mem generation hash
        simp [hasCurrentAcceptance] at unaccepted
        exact unaccepted acceptance mem generation hash closure
      have taken : seen.accept H mutation ≠ .error .invalidState :=
        accept_ne_invalidState (by rw [same]; exact planned) (by rw [same]; exact hashed) unaccepted'
      change (record.conclude (seen.accept H mutation)).reason ≠ _
      cases accepted : seen.accept H mutation with
      | ok next => nofun
      | error reason =>
          intro refused
          have reason_ : some reason = some FailureReason.invalidState := refused
          cases reason_
          exact taken accepted

theorem mem_deriveOutcomeAttention (live : record.phase ≠ .cancelled) (other : ¬ IsSourceAction action)
    (kept : action ≠ .unlinkWork) :
    action ∈ (deriveOutcomeAttention H record projections observedAt closureHash).nextActions ↔
      Offered record closureHash action := by
  unfold deriveOutcomeAttention
  rw [if_neg live]
  dsimp only
  rw [mem_attendRecord live other kept, mem_attendCriteria other]
  simp

/-- Each action but activation is offered only where its transition is open. -/
theorem not_refused_of_offered (rules : RecordRules H record) (live : record.phase ≠ .cancelled)
    (derived : closureHash = deriveOutcomeClosure H record projections observedAt)
    (offered : Offered record closureHash action) (other : action ≠ .activate) :
    ¬ Refused H record closureHash action := by
  intro refused
  cases action with
  | activate => exact other rfl
  | refresh | reviewEvidence | unlinkWork => exact offered
  | editContract =>
      obtain ⟨mutation, res, revision, answer, kind⟩ := refused
      exact reduceGatewayOutcomePatch_open live offered revision answer kind
  | linkWork =>
      obtain ⟨criterion, mem, ref, serverTime, res, room, distinct, answer, kind⟩ := refused
      exact reduceOutcomeLink_open live offered rules.criteria mem room distinct answer kind
  | cancel =>
      obtain ⟨phase, idle⟩ := offered
      obtain ⟨serverTime, kind⟩ := refused
      have open_ : ¬ (decide (record.phase = .accepted) || decide (record.phase = .cancelled)) = true := by
        rcases phase with phase | phase <;> simp [phase]
      rw [OutcomeRecord.reduceOutcomeCancel, if_neg (not_not.mpr rfl), if_neg open_, idle,
        if_neg (by decide)] at kind
      cases kind
  | accept =>
      obtain ⟨mutation, revision, fresh, same, reason⟩ := refused
      rw [← same] at derived offered
      exact reduceOutcomeAcceptance_open derived.symm offered.2 revision fresh reason

theorem not_refused_activate_iff (draft : record.phase = .draft) (linked : Linked record) :
    ¬ Refused H record closureHash .activate ↔ record.hasInFlightOperation = false := by
  have unlinked : ¬ (record.criteria.any fun criterion =>
      criterion.required && criterion.workRefs.isEmpty) = true := by
    simpa [Linked] using linked
  cases flight : record.hasInFlightOperation with
  | true =>
      refine iff_of_false (not_not.mpr ⟨0, record.rejected, ?_, rfl⟩) nofun
      simp [OutcomeRecord.reduceOutcomeActivate, flight]
  | false =>
      refine iff_of_true ?_ rfl
      rintro ⟨serverTime, res, answer, kind⟩
      rw [OutcomeRecord.reduceOutcomeActivate, if_neg (not_not.mpr rfl), draft, flight,
        if_neg (by decide), if_neg unlinked] at answer
      obtain ⟨hash, _, rfl⟩ := Option.map_eq_some_iff.mp answer
      cases kind

/-- No offered action is refused for the state of the record, but for the activation of a linked
draft with an operation in flight. -/
theorem guidance_sound_iff (rules : RecordRules H record)
    (derived : closureHash =
      deriveOutcomeClosure H record (currentOutcomeProjections record) observedAt) :
    (∀ action ∈ (deriveOutcomeAttention H record (currentOutcomeProjections record) observedAt
        closureHash).nextActions, ¬ Refused H record closureHash action) ↔
      ¬ (record.phase = .draft ∧ Linked record ∧ record.hasInFlightOperation = true) := by
  by_cases live : record.phase = .cancelled
  · simp [deriveOutcomeAttention, live]
  constructor
  · rintro sound ⟨draft, linked, flight⟩
    have offered : NextAction.activate ∈ (deriveOutcomeAttention H record
        (currentOutcomeProjections record) observedAt closureHash).nextActions :=
      (mem_deriveOutcomeAttention live (by simp [IsSourceAction]) (by decide)).mpr ⟨draft, linked⟩
    have idle := (not_refused_activate_iff draft linked).mp (sound _ offered)
    rw [flight] at idle
    cases idle
  · intro settled action mem
    by_cases source : IsSourceAction action ∨ action = .unlinkWork
    · rcases source with (rfl | rfl) | rfl <;> nofun
    obtain ⟨other, kept⟩ := not_or.mp source
    have offered := (mem_deriveOutcomeAttention live other kept).mp mem
    by_cases activate : action = .activate
    · subst activate
      refine (not_refused_activate_iff offered.1 offered.2).mpr ?_
      rw [← Bool.not_eq_true]
      exact fun flight => settled ⟨offered.1, offered.2, flight⟩
    · exact not_refused_of_offered rules live derived offered activate

/-- A linked draft whose card operation has not been heard of again. -/
def stuckDraft : OutcomeRecord :=
  { Operation.exampleDraft with
    criteria := [⟨"c", "text", true, [⟨"card", 5, "board"⟩]⟩]
    operations := [⟨"start", .unknown⟩] }

theorem rules_stuckDraft (operations : List CardOperation)
    (ids : (operations.map CardOperation.id).Nodup) :
    RecordRules H { stuckDraft with operations } where
  criteria :=
    { ids := List.nodup_singleton _
      refs := by simp [stuckDraft]
      refsPerCriterion := by simp [stuckDraft, JsArray.distinct, maxWorkRefsPerCriterion]
      distinctRefs := by simp [stuckDraft, identities, JsArray.distinct, maxDistinctWorkRefs]
      required := ⟨_, List.mem_singleton.mpr rfl, rfl⟩
      count := by simp [stuckDraft] }
  contractRevision := le_refl 1
  decisionRevisions _ mem := absurd mem List.not_mem_nil
  decisionRevisionsUnique := List.nodup_nil
  acceptanceRevisions _ mem := absurd mem List.not_mem_nil
  evidenceIds := List.nodup_nil
  decisionIds := List.nodup_nil
  operationIds := ids
  acceptanceIds := List.nodup_nil
  plan := ⟨rfl, rfl⟩
  projections _ mem := absurd mem List.not_mem_nil
  decisions _ mem := absurd mem List.not_mem_nil
  acceptances _ mem := absurd mem List.not_mem_nil

theorem guidance_sound_iff_settled :
    let record := { stuckDraft with operations := [] }
    ∀ action ∈ (deriveOutcomeAttention Operation.constantDigests record
      (currentOutcomeProjections record) 7 none).nextActions,
      ¬ Refused Operation.constantDigests record none action :=
  (guidance_sound_iff (rules_stuckDraft [] List.nodup_nil) rfl).mpr fun stuck => nomatch stuck.2.2

/-- The stuck draft is offered to be activated, which is refused. -/
theorem not_guidance_sound :
    RecordRules Operation.constantDigests stuckDraft ∧
      deriveOutcomeClosure Operation.constantDigests stuckDraft
        (currentOutcomeProjections stuckDraft) 7 = none ∧
      NextAction.activate ∈ (deriveOutcomeAttention Operation.constantDigests stuckDraft
        (currentOutcomeProjections stuckDraft) 7 none).nextActions ∧
      stuckDraft.reduceOutcomeActivate Operation.constantDigests stuckDraft.revision 7 =
        some stuckDraft.rejected :=
  ⟨rules_stuckDraft _ (List.nodup_singleton _), rfl, by decide, rfl⟩

end Outcomes
