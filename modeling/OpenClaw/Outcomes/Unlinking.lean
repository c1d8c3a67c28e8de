import OpenClaw.Outcomes.Contract

/-!
Undoing a link. A ref is removed under its card id, so a ref is removed alone exactly if its
criterion links no other card created under the same id; the plan of the remaining criteria
is hashed again without an error.
-/

namespace Outcomes

variable {H : Digests} {o r : OutcomeRecord} {criterion : Criterion} {ref : WorkboardRef}
  {criteria : List Criterion} {xs ys : List Criterion} {serverTime : Int}

/-- The criteria without one ref of one criterion. -/
def withoutRef (criteria : List Criterion) (criterionId : String) (ref : WorkboardRef) :
    List Criterion :=
  OutcomeRecord.setWorkRefs criteria criterionId (·.erase ref)

/-- Another card of the criterion has the id of this one. -/
def Criterion.Collides (criterion : Criterion) (ref : WorkboardRef) : Prop :=
  ∃ other ∈ criterion.workRefs, other ≠ ref ∧ other.cardId = ref.cardId

theorem sameCriteria_canonical (xs : List Criterion) : SameCriteria (canonicalCriteria xs) xs := by
  refine ⟨xs.map Criterion.canonical, JsArray.toSorted_perm _ _, ?_⟩
  rw [List.forall₂_map_left_iff]
  exact List.forall₂_same.mpr fun c _ => ⟨rfl, rfl, rfl, JsArray.toSorted_perm _ _⟩

theorem SameCriteria.exists_sameAs (same : SameCriteria xs ys) (mem : criterion ∈ xs) :
    ∃ other ∈ ys, criterion.SameAs other := by
  obtain ⟨zs, perm, all⟩ := same
  obtain ⟨i, bound, rfl⟩ := List.mem_iff_getElem.mp (perm.mem_iff.mp mem)
  have bound' : i < ys.length := all.length_eq ▸ bound
  exact ⟨ys[i], List.getElem_mem bound', all.get bound bound'⟩

theorem nodup_workRefs (rules : CriteriaRules criteria) (mem : criterion ∈ criteria) :
    criterion.workRefs.Nodup :=
  List.Nodup.of_map _ (rules.refs criterion mem)

theorem find_criterion (rules : CriteriaRules criteria) (mem : criterion ∈ criteria) :
    criteria.find? (fun item => item.id = criterion.id) = some criterion := by
  cases found : criteria.find? fun item => item.id = criterion.id with
  | none => simpa using List.find?_eq_none.mp found criterion mem
  | some other =>
      have id : other.id = criterion.id := by simpa using List.find?_some found
      rw [List.inj_on_of_nodup_map rules.ids (List.mem_of_find?_eq_some found) mem id]

theorem matching_of_collides (linked : ref ∈ criterion.workRefs) (collides : criterion.Collides ref) :
    1 < (criterion.workRefs.filter fun other => other.cardId = ref.cardId).length := by
  obtain ⟨other, mem, apart, card⟩ := collides
  have nodup : [ref, other].Nodup := by simpa using apart.symm
  have sub : [ref, other] ⊆ criterion.workRefs.filter fun other => other.cardId = ref.cardId := by
    intro x inside
    rcases List.mem_pair.mp inside with rfl | rfl
    · simpa using linked
    · simpa using ⟨mem, card⟩
  exact (nodup.subperm sub).length_le

theorem matching_of_alone (nodup : criterion.workRefs.Nodup) (alone : ¬ criterion.Collides ref) :
    ¬ 1 < (criterion.workRefs.filter fun other => other.cardId = ref.cardId).length := by
  have sub : (criterion.workRefs.filter fun other => other.cardId = ref.cardId) ⊆ [ref] := by
    intro other inside
    obtain ⟨mem, card⟩ := List.mem_filter.mp inside
    rw [List.mem_singleton]
    exact by_contra fun apart => alone ⟨other, mem, apart, by simpa using card⟩
  exact not_lt.mpr ((nodup.filter _).subperm sub).length_le

/-- Without a collision, dropping the card is dropping the ref. -/
theorem kept_of_alone (nodup : criterion.workRefs.Nodup) (alone : ¬ criterion.Collides ref) :
    (criterion.workRefs.filter fun other => other.cardId ≠ ref.cardId) =
      criterion.workRefs.erase ref := by
  rw [nodup.erase_eq_filter]
  refine List.filter_congr fun other mem => ?_
  have same : other.cardId = ref.cardId ↔ other = ref :=
    ⟨fun card => by_contra fun apart => alone ⟨other, mem, apart, card⟩, fun eq => by rw [eq]⟩
  by_cases eq : other = ref
  · simp [eq]
  · simp [eq, same]

theorem shaped_withoutRef (shaped : ∀ item ∈ criteria, item.Shaped) {id : String} :
    ∀ item ∈ canonicalCriteria (withoutRef criteria id ref), item.Shaped := by
  intro item mem
  obtain ⟨other, mem', same⟩ := (sameCriteria_canonical _).exists_sameAs mem
  obtain ⟨old, old_, rfl⟩ := List.mem_map.mp mem'
  obtain ⟨idOk, textOk, refsOk⟩ := shaped old old_
  by_cases at_ : old.id = id
  · rw [if_pos at_] at same
    refine ⟨same.id ▸ idOk, same.text ▸ textOk, fun ref' inside => refsOk ref' ?_⟩
    exact List.mem_of_mem_erase (same.workRefs.mem_iff.mp inside)
  · rw [if_neg at_] at same
    exact ⟨same.id ▸ idOk, same.text ▸ textOk, fun ref' inside =>
      refsOk ref' (same.workRefs.mem_iff.mp inside)⟩

/-- On the criteria of a record, only the one criterion has the id. -/
theorem setWorkRefs_eq (rules : CriteriaRules criteria) (mem : criterion ∈ criteria) :
    OutcomeRecord.setWorkRefs criteria criterion.id (fun _ => criterion.workRefs.erase ref) =
      withoutRef criteria criterion.id ref := by
  refine List.map_congr_left fun item inside => ?_
  by_cases at_ : item.id = criterion.id
  · rw [List.inj_on_of_nodup_map rules.ids inside mem at_]
  · rw [if_neg at_, if_neg at_]

theorem rules_withoutRef (rules : CriteriaRules criteria) (mem : criterion ∈ criteria) :
    CriteriaRules (withoutRef criteria criterion.id ref) := by
  rw [← setWorkRefs_eq rules mem]
  exact rules.unlink mem List.erase_sublist

/-- The plan that is hashed after a ref went. -/
theorem planHash_without (rules : RecordRules H r) (planned : r.HasPlan)
    (mem : criterion ∈ r.criteria) :
    ∃ hash, planHash H ⟨r.id, r.objective, r.contractRevision + 1, r.planGeneration + 1,
      canonicalCriteria (withoutRef r.criteria criterion.id ref)⟩ = some hash := by
  obtain ⟨_, some, hashed⟩ := rules.plan.hashed planned
  obtain ⟨hash, same⟩ := Option.ne_none_iff_exists'.mp some
  obtain ⟨valid, _⟩ := planHash_eq_some.mp (hashed.symm.trans same)
  refine ⟨_, planHash_eq_some.mpr ⟨⟨valid.outcomeId, valid.objective, Nat.le_add_left 1 _,
    Nat.le_add_left 1 _, shaped_withoutRef valid.shaped, ?_⟩, rfl⟩⟩
  exact (rules_withoutRef rules.criteria mem).canonicalCriteria

theorem not_sameCriteria_withoutRef (rules : CriteriaRules criteria) (mem : criterion ∈ criteria)
    (linked : ref ∈ criterion.workRefs) :
    ¬ SameCriteria criteria (withoutRef criteria criterion.id ref) := by
  intro same
  obtain ⟨other, inside, as⟩ := same.exists_sameAs mem
  obtain ⟨old, mem', rfl⟩ := List.mem_map.mp inside
  have id : old.id = criterion.id := by
    by_cases at_ : old.id = criterion.id
    · exact at_
    · rw [if_neg at_] at as
      exact as.id.symm
  rw [if_pos id, List.inj_on_of_nodup_map rules.ids mem' mem id] at as
  have shorter := as.workRefs.length_eq
  rw [List.length_erase_of_mem linked] at shorter
  have some := List.length_pos_of_mem linked
  omega

/-- A ref that does not collide is removed alone; of colliding refs none is removed. -/
theorem unlink_cases (rules : RecordRules H r) (live : r.phase ≠ .cancelled)
    (idle : r.hasInFlightOperation = false) (mem : criterion ∈ r.criteria)
    (linked : ref ∈ criterion.workRefs) :
    (criterion.Collides ref → r.reduceOutcomeUnlink H r.revision criterion.id ref.cardId serverTime =
        some r.rejected) ∧
      (¬ criterion.Collides ref → ∃ next : OutcomeRecord,
        r.reduceOutcomeUnlink H r.revision criterion.id ref.cardId serverTime =
          some next.updated ∧
        SameCriteria next.criteria (withoutRef r.criteria criterion.id ref)) := by
  have nodup := nodup_workRefs rules.criteria mem
  have open_ : ¬ (decide (r.phase = .cancelled) || r.hasInFlightOperation) = true := by
    simp [live, idle]
  refine ⟨fun collides => ?_, fun alone => ?_⟩
  · rw [OutcomeRecord.reduceOutcomeUnlink, if_neg (not_not.mpr rfl), if_neg open_,
      find_criterion rules.criteria mem]
    exact if_pos (matching_of_collides linked collides)
  · have fewer : ¬ (criterion.workRefs.erase ref).length = criterion.workRefs.length := by
      rw [List.length_erase_of_mem linked]
      have some := List.length_pos_of_mem linked
      omega
    have changed : ¬ (r.objective = r.objective ∧ canonicalCriteria r.criteria =
        canonicalCriteria (withoutRef r.criteria criterion.id ref)) := by
      rintro ⟨_, same⟩
      exact not_sameCriteria_withoutRef rules.criteria mem linked
        ((canonicalCriteria_eq_iff (rules_withoutRef rules.criteria mem).ids).mp same)
    have contract : r.reduceOutcomeUnlink H r.revision criterion.id ref.cardId serverTime =
        r.changeContract H r.title r.objective
          (canonicalCriteria (withoutRef r.criteria criterion.id ref)) serverTime := by
      rw [OutcomeRecord.reduceOutcomeUnlink, if_neg (not_not.mpr rfl), if_neg open_,
        find_criterion rules.criteria mem]
      dsimp only
      rw [if_neg (matching_of_alone nodup alone), kept_of_alone nodup alone, if_neg fewer,
        setWorkRefs_eq rules.criteria mem, OutcomeRecord.reduceOutcomeContract, if_neg live,
        if_neg (not_not.mpr rfl), idle, if_neg (by decide), if_neg changed]
    rw [contract]
    by_cases draft : r.phase = .draft
    · simp only [OutcomeRecord.changeContract, if_pos draft, if_true]
      exact ⟨_, rfl, sameCriteria_canonical _⟩
    · have planned : r.HasPlan := by
        cases phase : r.phase with
        | draft => exact absurd phase draft
        | active => exact .inl phase
        | accepted => exact .inr phase
        | cancelled => exact absurd phase live
      obtain ⟨hash, hashed⟩ : ∃ hash, planHash H ⟨r.id, r.objective, r.contractRevision + 1,
          r.planGeneration + 1, canonicalCriteria (withoutRef r.criteria criterion.id ref)⟩ =
            some hash := planHash_without rules planned mem
      simp only [OutcomeRecord.changeContract, if_neg draft, Nat.succ_ne_zero, if_false,
        OutcomeRecord.plan, hashed, Option.map_some]
      exact ⟨_, rfl, sameCriteria_canonical _⟩

namespace Operation

open Transition

/-- On every reachable record a link can be undone, unless the criterion links another card
that was created under the same id. -/
theorem links_undoable (created : Created o) (run : Reaches (step H) (Observed H) o r)
    (live : r.phase ≠ .cancelled) (idle : r.hasInFlightOperation = false)
    (mem : criterion ∈ r.criteria) (linked : ref ∈ criterion.workRefs) :
    (criterion.Collides ref → r.reduceOutcomeUnlink H r.revision criterion.id ref.cardId serverTime =
        some r.rejected) ∧
      (¬ criterion.Collides ref → ∃ next : OutcomeRecord,
        r.reduceOutcomeUnlink H r.revision criterion.id ref.cardId serverTime =
          some next.updated ∧
        SameCriteria next.criteria (withoutRef r.criteria criterion.id ref)) :=
  unlink_cases (rules_of_reaches run created) live idle mem linked

/-- A card linked to the one criterion, and its successor under the same id. -/
def linkTwice : List Operation :=
  [.link 1 "c" ⟨"card", 5, "board"⟩ 1, .link 2 "c" ⟨"card", 6, "board"⟩ 2]

theorem links_undoable_once : ∃ r : OutcomeRecord, r.criteria.map (·.workRefs.length) = [1] ∧
    ∃ next : OutcomeRecord, r.reduceOutcomeUnlink constantDigests r.revision "c" "card" 3 =
      some next.updated ∧ SameCriteria next.criteria (withoutRef r.criteria "c" ⟨"card", 5, "board"⟩) := by
  let ref : WorkboardRef := ⟨"card", 5, "board"⟩
  obtain ⟨r, run, ⟨live, idle⟩, shown⟩ := Reaches.exists_of_exec (step constantDigests) CardOnly
    exampleDraft (P := fun r => (r.phase ≠ .cancelled ∧ r.hasInFlightOperation = false) ∧
      r.criteria = [⟨"c", "text", true, [⟨"card", 5, "board"⟩]⟩])
    (linkTwice.take 1) (by decide) (by decide)
  have mem : (⟨"c", "text", true, [ref]⟩ : Criterion) ∈ r.criteria := by
    rw [shown]
    exact List.mem_singleton.mpr rfl
  have alone : ¬ (⟨"c", "text", true, [ref]⟩ : Criterion).Collides ref := by
    rintro ⟨other, inside, apart, _⟩
    exact apart (List.mem_singleton.mp inside)
  refine ⟨r, by rw [shown]; rfl, ?_⟩
  exact (links_undoable exampleDraft_created (run.mono fun _ _ => observed_of_cardOnly) live idle mem
    (List.mem_singleton.mpr rfl)).2 alone

/-- Neither of two cards under one id can be unlinked. -/
theorem not_links_undoable : ∃ r : OutcomeRecord,
    Reaches (step constantDigests) (Observed constantDigests) exampleDraft r ∧
    (r.phase ≠ .cancelled ∧ r.hasInFlightOperation = false) ∧
    r.criteria.map (·.workRefs.length) = [2] ∧
    r.reduceOutcomeUnlink constantDigests r.revision "c" "card" 3 = some r.rejected := by
  obtain ⟨r, run, idle, refs, refused⟩ := Reaches.exists_of_exec (step constantDigests) CardOnly
    exampleDraft (P := fun r => (r.phase ≠ .cancelled ∧ r.hasInFlightOperation = false) ∧
      r.criteria.map (·.workRefs.length) = [2] ∧
      r.reduceOutcomeUnlink constantDigests r.revision "c" "card" 3 = some r.rejected)
    linkTwice (by decide) (by decide)
  exact ⟨r, run.mono fun _ _ => observed_of_cardOnly, idle, refs, refused⟩

end Operation
end Outcomes
