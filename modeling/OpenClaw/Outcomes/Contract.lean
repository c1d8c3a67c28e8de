import OpenClaw.Lib.JsCollections
import OpenClaw.Outcomes.Validity

/-!
The plan content of a contract, and how an update patch is recognized as changing nothing.
Criteria and refs are compared without their order by the contract transition; the patch
transition, taken when a title comes along, compares them in their order.
-/

namespace Outcomes

variable {H : Digests} {xs ys : List Criterion} {a b : Criterion} {current : OutcomeRecord}
  {mutation : OutcomeRecord.PatchMutation} {res : Result} {title objective : String}
  {serverTime : Int}

/-- The same criterion, whatever the order of its refs. -/
structure Criterion.SameAs (a b : Criterion) : Prop where
  id : a.id = b.id
  text : a.text = b.text
  required : a.required = b.required
  workRefs : a.workRefs.Perm b.workRefs

/-- The same criteria, whatever their order and the order of their refs. -/
def SameCriteria (xs ys : List Criterion) : Prop :=
  ∃ zs, xs.Perm zs ∧ List.Forall₂ Criterion.SameAs zs ys

/-- What refs are ordered by. -/
def WorkboardRef.key (ref : WorkboardRef) : List Nat ×ₗ Finite ×ₗ List Nat :=
  toLex (JsText.units ref.cardId, toLex (ref.cardCreatedAt, JsText.units ref.boardIdAtLink))

theorem WorkboardRef.key_injective : Function.Injective WorkboardRef.key := by
  intro a b same
  simp only [WorkboardRef.key, toLex_inj, Prod.mk.injEq] at same
  obtain ⟨card, created, board⟩ := same
  cases a
  cases b
  simp_all [JsText.units_injective.eq_iff]

theorem comparesBy_refBefore : JsArray.ComparesBy refBefore WorkboardRef.key := by
  intro left right
  have iff : refBefore left right = true ↔ left.key < right.key := by
    simp only [refBefore, JsArray.thenBy, JsArray.lt_iff, WorkboardRef.key, Prod.Lex.toLex_lt_toLex]
    rcases lt_trichotomy (JsText.units left.cardId) (JsText.units right.cardId) with
      card | card | card
    · simp [card]
    · rcases lt_trichotomy left.cardCreatedAt right.cardCreatedAt with made | made | made
      · simp [card, made]
      · simp [card, made, JsArray.lt_iff]
      · simp [card, made, made.ne', not_lt_of_gt made]
    · simp [card, card.ne', not_lt_of_gt card]
  rw [← not_lt, ← iff, Bool.not_eq_true]

theorem canonical_eq_iff : a.canonical = b.canonical ↔ a.SameAs b := by
  constructor
  · intro same
    have refs : JsArray.toSorted refBefore a.workRefs = JsArray.toSorted refBefore b.workRefs :=
      congrArg Criterion.workRefs same
    have perm := (JsArray.toSorted_perm refBefore a.workRefs).symm.trans
      (refs ▸ JsArray.toSorted_perm refBefore b.workRefs)
    have id : a.canonical.id = b.canonical.id := congrArg Criterion.id same
    have text : a.canonical.text = b.canonical.text := congrArg Criterion.text same
    have required : a.canonical.required = b.canonical.required := congrArg Criterion.required same
    exact ⟨id, text, required, perm⟩
  · rintro ⟨id, text, required, refs⟩
    have sorted := JsArray.toSorted_eq_of_perm comparesBy_refBefore
      (fun _ _ _ _ same => WorkboardRef.key_injective same) refs
    simp only [Criterion.canonical, id, text, required, sorted]

theorem sameCriteria_iff : SameCriteria xs ys ↔
    (xs.map Criterion.canonical).Perm (ys.map Criterion.canonical) := by
  have split := List.eq_map_comp_perm Criterion.canonical
  have each : ∀ zs, zs.map Criterion.canonical = ys.map Criterion.canonical ↔
      List.Forall₂ Criterion.SameAs zs ys := fun zs => by
    rw [← List.forall₂_eq_eq_eq, List.forall₂_map_left_iff, List.forall₂_map_right_iff]
    exact ⟨List.Forall₂.imp fun _ _ => canonical_eq_iff.mp,
      List.Forall₂.imp fun _ _ => canonical_eq_iff.mpr⟩
  have found := congrFun (congrFun split (ys.map Criterion.canonical)) xs
  rw [List.perm_comm, SameCriteria]
  refine Iff.trans ?_ (iff_of_eq found)
  constructor
  · rintro ⟨zs, perm, same⟩
    exact ⟨zs, ((each zs).mpr same).symm, perm.symm⟩
  · rintro ⟨zs, same, perm⟩
    exact ⟨zs, perm.symm, (each zs).mp same.symm⟩

/-- With different ids, criteria have one canonical order. -/
theorem canonicalCriteria_eq_iff (ids : (ys.map Criterion.id).Nodup) :
    canonicalCriteria xs = canonicalCriteria ys ↔ SameCriteria xs ys := by
  rw [sameCriteria_iff]
  constructor
  · intro same
    have perm := (JsArray.toSorted_perm criterionBefore (xs.map Criterion.canonical)).symm
    refine perm.trans ?_
    have sorted : JsArray.toSorted criterionBefore (xs.map Criterion.canonical) =
        JsArray.toSorted criterionBefore (ys.map Criterion.canonical) := same
    rw [sorted]
    exact JsArray.toSorted_perm _ _
  · intro perm
    have nodup : ((ys.map Criterion.canonical).map Criterion.id).Nodup := by
      rw [List.map_map]
      exact ids
    have compares : JsArray.ComparesBy criterionBefore (JsText.units ∘ Criterion.id) :=
      JsArray.comparesBy_lt
    refine (JsArray.toSorted_eq_of_perm compares (fun a memA b memB same => ?_) perm.symm).symm
    exact List.inj_on_of_nodup_map nodup memA memB (JsText.units_injective same)

theorem SameCriteria.refl (xs : List Criterion) : SameCriteria xs xs :=
  sameCriteria_iff.mpr (List.Perm.refl _)

/-- The contract goes on to its next revision, and to the next generation of its plan; a
draft has none yet. Nothing stays accepted. -/
structure ContractAdvances (current next : OutcomeRecord) : Prop where
  contractRevision : next.contractRevision = current.contractRevision + 1
  planGeneration : next.planGeneration =
    if current.phase = .draft then 0 else current.planGeneration + 1
  phase : next.phase ≠ .accepted

structure ContractStays (current next : OutcomeRecord) : Prop where
  contractRevision : next.contractRevision = current.contractRevision
  planGeneration : next.planGeneration = current.planGeneration
  phase : next.phase = current.phase

/-- The patch was not refused. -/
def Result.accepted (res : Result) : Prop := res.kind = .updated ∨ res.kind = .noop

theorem ContractStays.not_advances {next : OutcomeRecord} (stays : ContractStays current next) :
    ¬ ContractAdvances current next := fun advances => by
  have same := stays.contractRevision.symm.trans advances.contractRevision
  omega

namespace OutcomeRecord

/-- The objective that a patch leaves behind. -/
def PatchMutation.objectiveOn (mutation : PatchMutation) (current : OutcomeRecord) : String :=
  mutation.objective.getD current.objective

def PatchMutation.criteriaOn (mutation : PatchMutation) (current : OutcomeRecord) :
    List Criterion :=
  mutation.criteria.getD current.criteria

/-- The patch leaves the plan content as it is. -/
def PatchMutation.KeepsPlan (mutation : PatchMutation) (current : OutcomeRecord) : Prop :=
  mutation.objectiveOn current = current.objective ∧
    SameCriteria (mutation.criteriaOn current) current.criteria

/-- The contract advances exactly if the plan content changes. -/
def DetectsNoop (current : OutcomeRecord) (mutation : PatchMutation) (next : OutcomeRecord) : Prop :=
  (¬ mutation.KeepsPlan current → ContractAdvances current next) ∧
    (mutation.KeepsPlan current → ContractStays current next)

/-- A title comes with the stored criteria in another order. -/
structure PatchMutation.Reorders (mutation : PatchMutation) (current : OutcomeRecord) : Prop where
  titled : mutation.title.isSome = true
  keeps : mutation.KeepsPlan current
  reordered : mutation.criteriaOn current ≠ current.criteria

theorem Result.not_accepted_rejected {reason : Option FailureReason} :
    ¬ (current.rejected reason).accepted := by rintro (is | is) <;> cases is

theorem Result.not_accepted_conflict : ¬ current.conflict.accepted := by
  rintro (is | is) <;> cases is

theorem advances_changeContract {criteria : List Criterion}
    (taken : current.changeContract H title objective criteria serverTime = some res) :
    ContractAdvances current res.record := by
  have phase : (if current.phase = .accepted then .active else current.phase) ≠ Phase.accepted := by
    split
    · nofun
    · assumption
  by_cases draft : current.phase = .draft
  · simp only [changeContract, if_pos draft, if_true] at taken
    cases taken
    exact ⟨rfl, (if_pos draft).symm, phase⟩
  · simp only [changeContract, if_neg draft, Nat.succ_ne_zero, if_false] at taken
    obtain ⟨hash, _, rfl⟩ := Option.map_eq_some_iff.mp taken
    exact ⟨rfl, (if_neg draft).symm, phase⟩

theorem stays_noop : ContractStays current current.noop.record := ⟨rfl, rfl, rfl⟩

/-- The contract transition compares the canonical criteria. -/
theorem detects_contract {expectedRevision : Nat}
    (ids : (current.criteria.map Criterion.id).Nodup)
    (taken : current.reduceOutcomeContract H expectedRevision (mutation.objectiveOn current)
      (mutation.criteriaOn current) serverTime = some res) (accepted : res.accepted) :
    DetectsNoop current mutation res.record := by
  unfold reduceOutcomeContract at taken
  split at taken
  · cases taken
    exact absurd accepted Result.not_accepted_rejected
  split at taken
  · cases taken
    exact absurd accepted Result.not_accepted_conflict
  split at taken
  · cases taken
    exact absurd accepted Result.not_accepted_rejected
  have keeps : (current.objective = mutation.objectiveOn current ∧
      canonicalCriteria current.criteria = canonicalCriteria (mutation.criteriaOn current)) ↔
        mutation.KeepsPlan current := by
    rw [PatchMutation.KeepsPlan, ← canonicalCriteria_eq_iff ids]
    exact and_congr eq_comm eq_comm
  split at taken
  case isTrue same =>
    cases taken
    exact ⟨fun changed => absurd (keeps.mp same) changed, fun _ => stays_noop⟩
  case isFalse other =>
    exact ⟨fun _ => advances_changeContract taken, fun same => absurd (keeps.mpr same) other⟩

/-- The patch transition compares the criteria in their order. -/
theorem detects_patch (taken : current.reduceOutcomePatch H mutation = some res)
    (accepted : res.accepted) : DetectsNoop current mutation res.record ↔
      (mutation.KeepsPlan current → mutation.criteriaOn current = current.criteria) := by
  unfold reduceOutcomePatch at taken
  split at taken
  · cases taken
    exact absurd accepted Result.not_accepted_rejected
  split at taken
  · cases taken
    exact absurd accepted Result.not_accepted_conflict
  split at taken
  · cases taken
    exact absurd accepted Result.not_accepted_rejected
  dsimp only at taken
  split at taken
  case isTrue changed =>
    have advances := advances_changeContract taken
    constructor
    · rintro ⟨_, stays⟩ keeps
      exact absurd advances (stays keeps).not_advances
    · intro exact_
      refine ⟨fun _ => advances, fun keeps => ?_⟩
      rcases changed with other | other
      · exact absurd keeps.1 other
      · exact absurd (exact_ keeps) other
  case isFalse same =>
    simp only [not_or, not_not] at same
    have keeps : mutation.KeepsPlan current := ⟨same.1, by
      rw [PatchMutation.criteriaOn, same.2]
      exact SameCriteria.refl _⟩
    have stays : ContractStays current res.record := by
      split at taken
      · cases taken
        exact stays_noop
      · cases taken
        exact ⟨rfl, rfl, rfl⟩
    exact iff_of_true ⟨fun changed => absurd keeps changed, fun _ => stays⟩ fun _ => same.2

theorem detects_title {expectedRevision : Nat} (keeps : mutation.KeepsPlan current) :
    DetectsNoop current mutation
      (current.reduceOutcomeTitle expectedRevision title serverTime).record := by
  have stays : ContractStays current
      (current.reduceOutcomeTitle expectedRevision title serverTime).record := by
    unfold reduceOutcomeTitle
    split
    · exact ⟨rfl, rfl, rfl⟩
    split
    · exact ⟨rfl, rfl, rfl⟩
    split
    · exact stays_noop
    · exact ⟨rfl, rfl, rfl⟩
  exact ⟨fun changed => absurd keeps changed, fun _ => stays⟩

theorem PatchMutation.keepsPlan_of_eq (objective : mutation.objectiveOn current = current.objective)
    (criteria : mutation.criteriaOn current = current.criteria) : mutation.KeepsPlan current :=
  ⟨objective, by rw [criteria]; exact SameCriteria.refl _⟩

theorem PatchMutation.reorders_iff (titled : mutation.title.isSome = true) :
    (mutation.KeepsPlan current → mutation.criteriaOn current = current.criteria) ↔
      ¬ mutation.Reorders current :=
  ⟨fun same reorders => reorders.reordered (same reorders.keeps),
    fun not keeps => by_contra fun other => not ⟨titled, keeps, other⟩⟩

/-- Whether a patch is recognized as a change depends on how it is phrased exactly where a
title comes with reordered criteria. -/
theorem detects_noop_iff (ids : (current.criteria.map Criterion.id).Nodup)
    (taken : current.reduceGatewayOutcomePatch H mutation = some res) (accepted : res.accepted) :
    DetectsNoop current mutation res.record ↔ ¬ mutation.Reorders current := by
  have untitled : mutation.title = none → ¬ mutation.Reorders current := fun none reorders => by
    simpa [none] using reorders.titled
  cases titled : mutation.title with
  | none =>
      refine iff_of_true ?_ (untitled titled)
      by_cases contract : mutation.objective = none ∧ mutation.criteria = none
      · obtain ⟨objective, criteria⟩ := contract
        simp only [reduceGatewayOutcomePatch, titled, objective, criteria] at taken
        refine (detects_patch taken accepted).mpr fun _ => ?_
        rw [PatchMutation.criteriaOn, criteria, Option.getD_none]
      · have contracted : current.reduceOutcomeContract H mutation.expectedRevision
            (mutation.objectiveOn current) (mutation.criteriaOn current) mutation.serverTime =
              some res := by
          unfold reduceGatewayOutcomePatch at taken
          cases objective : mutation.objective <;> cases criteria : mutation.criteria <;>
            simp_all [PatchMutation.objectiveOn, PatchMutation.criteriaOn]
        exact detects_contract ids contracted accepted
  | some title =>
      by_cases contract : mutation.objective = none ∧ mutation.criteria = none
      · obtain ⟨objective, criteria⟩ := contract
        simp only [reduceGatewayOutcomePatch, titled, objective, criteria, Option.some.injEq] at taken
        have sameObjective : mutation.objectiveOn current = current.objective := by
          rw [PatchMutation.objectiveOn, objective, Option.getD_none]
        have sameCriteria : mutation.criteriaOn current = current.criteria := by
          rw [PatchMutation.criteriaOn, criteria, Option.getD_none]
        subst taken
        exact iff_of_true
          (detects_title (PatchMutation.keepsPlan_of_eq sameObjective sameCriteria))
          fun reorders => reorders.reordered sameCriteria
      · have patched : current.reduceOutcomePatch H mutation = some res := by
          unfold reduceGatewayOutcomePatch at taken
          cases objective : mutation.objective <;> cases criteria : mutation.criteria <;> simp_all
        rw [detects_patch patched accepted]
        exact PatchMutation.reorders_iff (by rw [titled]; rfl)

def twoCriteriaDraft : OutcomeRecord :=
  createdRecord "o" "request" "owner" "title" "objective"
    ⟨[⟨"c", "text", true⟩, ⟨"d", "text", false⟩], by decide, by decide, by decide⟩ 0

/-- The stored criteria in reverse, with or without a title. -/
def reordering (title : Option String) : PatchMutation where
  expectedRevision := 1
  title
  criteria := some twoCriteriaDraft.criteria.reverse
  serverTime := 1

theorem keepsPlan_reordering (title : Option String) :
    (reordering title).KeepsPlan twoCriteriaDraft :=
  ⟨rfl, sameCriteria_iff.mpr ((List.reverse_perm _).map _)⟩

theorem detects_noop_iff_untitled : DetectsNoop twoCriteriaDraft (reordering none)
    twoCriteriaDraft ↔ ¬ (reordering none).Reorders twoCriteriaDraft := by
  have taken : twoCriteriaDraft.reduceGatewayOutcomePatch Operation.constantDigests
      (reordering none) = some twoCriteriaDraft.noop := by decide
  exact detects_noop_iff (by decide) taken (.inr rfl)

/-- The same criteria under the same title advance the contract. -/
theorem not_detects_noop : ∃ res, (twoCriteriaDraft.reduceGatewayOutcomePatch
      Operation.constantDigests (reordering (some "title")) = some res ∧ res.accepted) ∧
    (reordering (some "title")).KeepsPlan twoCriteriaDraft ∧
    res.record.contractRevision = twoCriteriaDraft.contractRevision + 1 ∧
    ¬ DetectsNoop twoCriteriaDraft (reordering (some "title")) res.record := by
  refine ⟨{ twoCriteriaDraft with
    criteria := twoCriteriaDraft.criteria.reverse
    contractRevision := 2
    revision := 2
    updatedAt := 1 }.updated, ⟨by decide, .inl rfl⟩, keepsPlan_reordering _, rfl, ?_⟩
  rintro ⟨_, stays⟩
  exact absurd (stays (keepsPlan_reordering _)).contractRevision (by decide)

end OutcomeRecord
end Outcomes
