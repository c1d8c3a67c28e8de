import OpenClaw.MergePatch.Patch

/-!
Applying the patch from one value to another to the first gives the second, and between objects
the patch is empty exactly when they are equal. Values hold no null members, which a patch would
read as deletions, and no blocked keys.
-/

namespace OpenClaw.MergePatch

open JsUnits JsMembers JsValue

variable {ν : Type}

/-- Members have distinct names, none blocked, and none of them is null. -/
def Plain (value : JsValue ν) : Prop :=
  (value.members.map Prod.fst).Nodup ∧
    ∀ member ∈ value.members, isBlockedObjectKey member.1 = false ∧ member.2.isNull = false

def Clean : JsValue ν → Prop := Everywhere Plain

section Clean

variable {base : Members ν} {key path : Text} {value : JsValue ν}

theorem Clean.wellFormed (clean : Clean value) : value.WellFormed :=
  Everywhere.mono clean fun _ plain => plain.1

theorem Clean.nodup (clean : Clean (.object base)) : (base.map Prod.fst).Nodup := clean.here.1

theorem Clean.get? (clean : Clean (.object base)) (same : JsMembers.get? base key = some value) :
    Clean value ∧ isBlockedObjectKey key = false ∧ value.isNull = false :=
  ⟨Everywhere.get? clean same, clean.here.2 _ (mem_of_get? same)⟩

theorem Clean.unblocked (clean : Clean (.object base)) :
    ∀ member ∈ base, isBlockedObjectKey member.1 = false := fun member mem =>
  (clean.here.2 member mem).1

theorem allowed_of_not_blocked (free : isBlockedObjectKey key = false) :
    isMergePatchObjectKeyAllowed key path = true := by
  rw [isMergePatchObjectKeyAllowed, free]
  rfl

theorem ownMembers_eq (free : ∀ member ∈ base, isBlockedObjectKey member.1 = false) :
    ownMembers base = base := by
  refine List.filter_eq_self.mpr fun member mem => ?_
  rw [decide_eq_true_eq]
  intro same
  have blocked := free member mem
  rw [same] at blocked
  cases blocked

theorem isEmptyObject_iff {members : Members ν} :
    isEmptyObject (.object members) = true ↔ ∀ key, JsMembers.get? members key = none := by
  cases members with
  | nil => exact ⟨fun _ _ => rfl, fun _ => rfl⟩
  | cons entry rest =>
      refine ⟨fun nothing => (by cases nothing), fun none => ?_⟩
      have here := none entry.1
      rw [get?_cons, if_pos rfl] at here
      cases here

theorem nodup_nil_keys : (([] : Members ν).map Prod.fst).Nodup := .nil

end Clean

variable [DecidableEq ν] {base target patch : Members ν} {key path : Text}
  {value baseValue : JsValue ν}

/-- What a patch has for a member of the base. -/
def memberPatch (baseValue : JsValue ν) : Option (JsValue ν) → Option (JsValue ν)
  | none => some .null
  | some targetValue =>
      if baseValue.isObject && targetValue.isObject then
        if isEmptyObject (createMergePatch baseValue targetValue) then none
        else some (createMergePatch baseValue targetValue)
      else if baseValue.isDeepStrictEqual targetValue then none
      else some targetValue

theorem changed_cons : changed target ((key, baseValue) :: base) =
    ((memberPatch baseValue (get? target key)).map fun value => (key, value)).toList ++
      changed target base := by
  rw [changed]
  cases get? target key with
  | none => rfl
  | some targetValue =>
      dsimp only [memberPatch]
      split
      · split <;> rfl
      · split <;> rfl

theorem mem_changed {member : Text × JsValue ν} (mem : member ∈ changed target base) :
    member.1 ∈ base.map Prod.fst := by
  induction base with
  | nil =>
      rw [changed] at mem
      cases mem
  | cons entry rest ih =>
      obtain ⟨name, baseValue⟩ := entry
      rw [changed_cons, List.mem_append, Option.mem_toList, Option.map_eq_some_iff] at mem
      rcases mem with ⟨value, -, rfl⟩ | later
      · exact List.mem_cons_self
      · exact List.mem_cons_of_mem _ (ih later)

theorem get?_changed (nodup : (base.map Prod.fst).Nodup) : get? (changed target base) key =
    (get? base key).bind fun baseValue => memberPatch baseValue (get? target key) := by
  induction base with
  | nil =>
      rw [changed]
      rfl
  | cons entry rest ih =>
      obtain ⟨name, baseValue⟩ := entry
      rw [List.map_cons, List.nodup_cons] at nodup
      rw [changed_cons, get?_append, ih nodup.2, get?_cons]
      by_cases same : name = key
      · subst same
        rw [if_pos rfl, get?_eq_none.mpr nodup.1, Option.bind_some]
        cases memberPatch baseValue (get? target name) <;> simp [get?_cons]
      · rw [if_neg same]
        cases memberPatch baseValue (get? target name) <;> simp [get?_cons, same]

theorem nodup_changed (nodup : (base.map Prod.fst).Nodup) :
    ((changed target base).map Prod.fst).Nodup := by
  induction base with
  | nil =>
      rw [changed]
      exact nodup
  | cons entry rest ih =>
      obtain ⟨name, baseValue⟩ := entry
      rw [List.map_cons, List.nodup_cons] at nodup
      rw [changed_cons]
      cases memberPatch baseValue (get? target name) with
      | none => exact ih nodup.2
      | some value =>
          refine List.nodup_cons.mpr ⟨fun mem => nodup.1 ?_, ih nodup.2⟩
          obtain ⟨member, there, same⟩ := List.mem_map.mp mem
          exact same ▸ mem_changed there

/-- The patch between two clean objects, member by member. -/
theorem createMergePatch_object (clean : Clean (.object base)) (clean' : Clean (.object target)) :
    ∃ patch, createMergePatch (.object base) (.object target) = .object patch ∧
      (patch.map Prod.fst).Nodup ∧ ∀ key, get? patch key =
        ((get? base key).elim (get? target key) fun baseValue =>
          memberPatch baseValue (get? target key)) := by
  have added_get? : ∀ key, get? (added base target) key =
      if (get? base key).isNone then get? target key else none := fun key =>
    get?_filter (p := fun name => (get? base name).isNone)
  refine ⟨changed target base ++ added base target, ?_, ?_, fun key => ?_⟩
  · rw [createMergePatch, ownMembers_eq fun member mem => ?_]
    rcases List.mem_append.mp mem with old | new
    · obtain ⟨known, there, same⟩ := List.mem_map.mp (mem_changed old)
      exact same ▸ clean.unblocked known there
    · exact clean'.unblocked member (List.mem_of_mem_filter new)
  · rw [List.map_append, List.nodup_append']
    refine ⟨nodup_changed clean.nodup, clean'.nodup.sublist (List.filter_sublist.map _), ?_⟩
    intro name old new
    obtain ⟨member, there, rfl⟩ := List.mem_map.mp old
    obtain ⟨other, here, same⟩ := List.mem_map.mp new
    have absent := (List.mem_filter.mp here).2
    rw [same, Option.isNone_iff_eq_none] at absent
    exact get?_eq_none.mp absent (mem_changed there)
  · rw [get?_append, get?_changed clean.nodup, added_get?]
    cases get? base key with
    | none => simp
    | some baseValue => simp

theorem isObject_createMergePatch (object : baseValue.isObject = true)
    (object' : value.isObject = true) : (createMergePatch baseValue value).isObject = true := by
  obtain ⟨base, rfl⟩ := isObject_iff.mp object
  obtain ⟨target, rfl⟩ := isObject_iff.mp object'
  rw [createMergePatch]
  rfl

/-- A clean value put into an empty place. -/
theorem applyMergePatch_clean (clean : Clean value) {options : MergePatchOptions}
    {empty : JsValue ν} (none : empty.members = []) :
    (applyMergePatch options path empty value).isDeepStrictEqual value = true := by
  induction value using JsValue.tree generalizing path empty with
  | node value _ members =>
      cases value with
      | null | boolean | number | string | array =>
          rw [applyMergePatch]
          · exact isDeepStrictEqual_refl clean.wellFormed
          · exact fun _ no => by cases no
      | object patch =>
          rw [applyMergePatch, none]
          refine (isDeepStrictEqual_object (nodup_applyMembers nodup_nil_keys) clean.nodup).mpr
            fun key => ?_
          rw [get?_applyMembers clean.nodup]
          cases found : get? patch key with
          | none => exact .none
          | some value =>
              obtain ⟨inner, free, some⟩ := clean.get? found
              simp only [allowed_of_not_blocked free, if_true, get?_nil]
              cases value with
              | null => cases some
              | boolean | number | string | array =>
                  exact Option.rel_some_some.mpr (isDeepStrictEqual_refl inner.wellFormed)
              | object nested =>
                  rw [applyMember_object]
                  exact Option.rel_some_some.mpr (members _ (mem_of_get? found) inner rfl)

/-- A value that is patched as a whole becomes the target. -/
theorem applyMember_replaces (clean : Clean value) (some : value.isNull = false)
    (objects : ¬(baseValue.isObject = true ∧ value.isObject = true)) :
    Option.Rel (fun one other => isDeepStrictEqual one other = true)
      (applyMember plain path (.some baseValue) value) (.some value) := by
  cases value with
  | null => cases some
  | boolean | number | string =>
      exact Option.rel_some_some.mpr (isDeepStrictEqual_refl clean.wellFormed)
  | array items =>
      have kept : applyMember plain path (.some baseValue) (.array items) = .some (.array items) := by
        cases baseValue with
        | array => simp [applyMember, mergesArray, plain]
        | _ => simp [applyMember]
      rw [kept]
      exact Option.rel_some_some.mpr (isDeepStrictEqual_refl clean.wellFormed)
  | object patch =>
      rw [applyMember_object]
      refine Option.rel_some_some.mpr (applyMergePatch_clean clean ?_)
      cases baseValue with
      | object => exact absurd ⟨rfl, rfl⟩ objects
      | _ => rfl

/-- A member of the base with its patch becomes that of the target, and has none when it is
that already. -/
structure Reconstructs (path : Text) (baseValue : JsValue ν) (targetValue : Option (JsValue ν)) :
    Prop where
  applied : Option.Rel (fun one other => isDeepStrictEqual one other = true)
    ((memberPatch baseValue targetValue).elim (some baseValue) fun patch =>
      applyMember plain path (some baseValue) patch) targetValue
  unchanged : memberPatch baseValue targetValue = none ↔
    Option.Rel (fun one other => isDeepStrictEqual one other = true) (some baseValue) targetValue

theorem memberPatch_reconstructs {targetValue : Option (JsValue ν)}
    (inner : ∀ value, targetValue = some value → Clean value ∧ value.isNull = false ∧
      (applyMergePatch plain path baseValue (createMergePatch baseValue value)).isDeepStrictEqual
          value = true ∧
        (baseValue.isObject = true → value.isObject = true →
          (isEmptyObject (createMergePatch baseValue value) = true ↔
            baseValue.isDeepStrictEqual value = true))) :
    Reconstructs path baseValue targetValue := by
  cases targetValue with
  | none => exact ⟨.none, by simp [memberPatch]⟩
  | some value =>
      obtain ⟨clean, some, applied, empty⟩ := inner value rfl
      refine and_imp.mpr .mk ?_
      rw [Option.rel_some_some]
      by_cases objects : baseValue.isObject = true ∧ value.isObject = true
      · have empty := empty objects.1 objects.2
        rw [memberPatch, objects.1, objects.2, Bool.and_self]
        by_cases nothing : isEmptyObject (createMergePatch baseValue value) = true
        · rw [if_pos rfl, if_pos nothing]
          exact ⟨Option.rel_some_some.mpr (empty.mp nothing), by simp [empty.mp nothing]⟩
        · rw [if_pos rfl, if_neg nothing]
          refine ⟨?_, by simpa using fun equal => nothing (empty.mpr equal)⟩
          obtain ⟨child, same⟩ := isObject_iff.mp (isObject_createMergePatch objects.1 objects.2)
          rw [same] at applied
          rw [same, Option.elim_some, applyMember_object]
          exact Option.rel_some_some.mpr applied
      · rw [memberPatch, if_neg (by simpa using objects)]
        by_cases equal : baseValue.isDeepStrictEqual value = true
        · rw [if_pos equal]
          exact ⟨Option.rel_some_some.mpr equal, by simp [equal]⟩
        · rw [if_neg equal]
          exact ⟨applyMember_replaces clean some objects, by simp [equal]⟩

/-- Members that only the target has are added. -/
theorem applyMember_adds (clean : Clean value) (some : value.isNull = false) :
    Option.Rel (fun one other => isDeepStrictEqual one other = true)
      (applyMember plain path none value) (.some value) := by
  cases value with
  | null => cases some
  | boolean | number | string | array =>
      exact Option.rel_some_some.mpr (isDeepStrictEqual_refl clean.wellFormed)
  | object patch =>
      rw [applyMember_object]
      exact Option.rel_some_some.mpr (applyMergePatch_clean clean rfl)

theorem reconstruct (clean : Clean baseValue) (clean' : Clean value) :
    (applyMergePatch plain path baseValue (createMergePatch baseValue value)).isDeepStrictEqual
        value = true ∧
      (baseValue.isObject = true → value.isObject = true →
        (isEmptyObject (createMergePatch baseValue value) = true ↔
          baseValue.isDeepStrictEqual value = true)) := by
  induction baseValue using JsValue.tree generalizing path value with
  | node baseValue _ ih =>
      by_cases objects : baseValue.isObject = true ∧ value.isObject = true
      case neg =>
        have same : createMergePatch baseValue value = value := by
          rw [createMergePatch]
          rintro base target rfl rfl
          exact objects ⟨rfl, rfl⟩
        refine ⟨?_, fun object object' => absurd ⟨object, object'⟩ objects⟩
        rw [same]
        cases other : value.isObject with
        | false =>
            rw [applyMergePatch_replaces other]
            exact isDeepStrictEqual_refl clean'.wellFormed
        | true =>
            refine applyMergePatch_clean clean' ?_
            cases baseValue with
            | object => exact absurd ⟨rfl, other⟩ objects
            | _ => rfl
      case pos =>
        obtain ⟨base, rfl⟩ := isObject_iff.mp objects.1
        obtain ⟨target, rfl⟩ := isObject_iff.mp objects.2
        obtain ⟨patch, created, nodup, lookup⟩ := createMergePatch_object clean clean'
        have member : ∀ {key baseValue} (path : Text), get? base key = some baseValue →
            Reconstructs path baseValue (get? target key) := fun path found =>
          memberPatch_reconstructs fun value there =>
            ⟨(clean'.get? there).1, (clean'.get? there).2.2,
              ih _ (mem_of_get? found) (clean.get? found).1 (clean'.get? there).1⟩
        rw [created]
        refine ⟨?_, fun _ _ => ?_⟩
        · rw [applyMergePatch]
          refine (isDeepStrictEqual_object (nodup_applyMembers clean.nodup) clean'.nodup).mpr
            fun key => ?_
          rw [get?_applyMembers nodup, lookup]
          cases here : get? base key with
          | none =>
              cases there : get? target key with
              | none => exact .none
              | some value =>
                  obtain ⟨inner, free, some⟩ := clean'.get? there
                  simp only [Option.elim_none, allowed_of_not_blocked free, if_true]
                  exact applyMember_adds inner some
          | some baseValue =>
              have spec := (member (formatConfigPatchPath path key) here).applied
              rw [Option.elim_some]
              cases own : memberPatch baseValue (get? target key) with
              | none =>
                  rw [own] at spec
                  exact spec
              | some value =>
                  rw [own] at spec
                  simp only [allowed_of_not_blocked (clean.get? here).2.1, if_true]
                  exact spec
        · rw [isEmptyObject_iff, isDeepStrictEqual_object clean.nodup clean'.nodup]
          refine forall_congr' fun key => ?_
          rw [lookup]
          cases here : get? base key with
          | none =>
              cases get? target key <;> simp
          | some baseValue => exact (member path here).unchanged

end OpenClaw.MergePatch
