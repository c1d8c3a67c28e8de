import OpenClaw.MergePatch.Reconstruct
import OpenClaw.MergePatch.Settled

/-!
What merge patches promise. A patch made from two values reconstructs the second; applied with
arrays merged by id it changes what it names and nothing else, at every path; and a patch whose
arrays are keyed throughout may be applied again.
-/

namespace OpenClaw.MergePatch

open JsUnits JsMembers JsValue

variable {ν : Type}

/-- What a patch makes of the members of an object at a path. -/
structure PatchesMembers (options : MergePatchOptions) (path : Text)
    (base patch result : Members ν) : Prop where
  unnamed : ∀ key, get? patch key = none → get? result key = get? base key
  blocked : ∀ key, isMergePatchObjectKeyAllowed key path = false → get? result key = get? base key
  deleted : ∀ key, isMergePatchObjectKeyAllowed key path = true → get? patch key = some .null →
    get? result key = none
  stays : ∀ key, (get? base key).isSome = true → get? patch key ≠ some .null →
    (get? result key).isSome = true
  nested : ∀ key members, isMergePatchObjectKeyAllowed key path = true →
    get? patch key = some (.object members) → get? result key = some (applyMergePatch options
      (formatConfigPatchPath path key) ((get? base key).getD .null) (.object members))
  merged : ∀ key entries items, isMergePatchObjectKeyAllowed key path = true →
    get? base key = some (.array entries) → get? patch key = some (.array items) →
      formatConfigPatchPath path key ∉ options.replaceArrayPaths →
        (∀ entry ∈ entries, isObjectWithStringId entry = true) →
          ∃ after, get? result key = some (.array after) ∧
            MergedById options (formatConfigPatchPath path key) entries items after
  /-- Scalars, arrays in place of other values, listed arrays and arrays without ids. -/
  replaced : ∀ key value, isMergePatchObjectKeyAllowed key path = true →
    get? patch key = some value → value.isNull = false → value.isObject = false →
      (∀ entries, value.isArray = true → get? base key = some (.array entries) →
        formatConfigPatchPath path key ∈ options.replaceArrayPaths ∨
          ∃ entry ∈ entries, isObjectWithStringId entry = false) →
            get? result key = some value

section

variable {options : MergePatchOptions} {path : Text} {current : Option (JsValue ν)}
  {value : JsValue ν}

theorem isSome_applyMember (some : value.isNull = false) :
    (applyMember options path current value).isSome = true := by
  cases value with
  | null => cases some
  | array =>
      rw [applyMember.eq_def]
      dsimp only
      split
      · split <;> rfl
      · rfl
  | boolean | number | string | object => rfl

theorem applyMember_replaced (some : value.isNull = false) (other : value.isObject = false)
    (kept : ∀ entries, value.isArray = true → current = .some (.array entries) →
      mergesArray options path entries = false) :
    applyMember options path current value = .some value := by
  cases value with
  | null => cases some
  | object => cases other
  | boolean | number | string => rfl
  | array items =>
      rw [applyMember.eq_def]
      dsimp only
      split
      case h_1 entries => rw [if_neg (by rw [kept entries rfl rfl]; exact Bool.false_ne_true)]
      case h_2 => rfl

theorem patchesMembers (on : options.mergeObjectArraysById = true) {base patch : Members ν}
    (nodup : (patch.map Prod.fst).Nodup) :
    PatchesMembers options path base patch (applyMembers options path base patch) := by
  have lookup := fun key =>
    @get?_applyMembers _ options path key base patch nodup
  have named : ∀ {key value}, isMergePatchObjectKeyAllowed key path = true →
      get? patch key = some value → get? (applyMembers options path base patch) key =
        applyMember options (formatConfigPatchPath path key) (get? base key) value := by
    intro key value allowed found
    rw [lookup, found]
    exact if_pos allowed
  have blocked : ∀ key, isMergePatchObjectKeyAllowed key path = false →
      get? (applyMembers options path base patch) key = get? base key := by
    intro key not
    rw [lookup]
    split
    · rfl
    · rw [not, if_neg Bool.false_ne_true]
  refine ⟨fun key absent => ?_, blocked, fun key allowed null => ?_, fun key some there => ?_,
    fun key members allowed found => ?_, fun key entries items allowed before found listed ids => ?_,
    fun key value allowed found some other arrays => ?_⟩
  · rw [lookup, absent]
  · rw [named allowed null, applyMember]
  · cases allowed : isMergePatchObjectKeyAllowed key path with
    | false => rwa [blocked key allowed]
    | true =>
        cases found : get? patch key with
        | none => rwa [lookup, found]
        | some value =>
            rw [named allowed found]
            refine isSome_applyMember ?_
            cases value with
            | null => exact absurd found there
            | _ => rfl
  · rw [named allowed found, applyMember_object]
  · have merges : mergesArray options (formatConfigPatchPath path key) entries = true := by
      simp [mergesArray, on, listed, List.all_eq_true.mpr ids]
    refine ⟨_, ?_, mergedById⟩
    rw [named allowed found, before, applyMember, if_pos merges]
  · rw [named allowed found]
    refine applyMember_replaced some other fun entries array before => ?_
    rw [mergesArray]
    rcases arrays entries array before with listed | ⟨entry, mem, without⟩
    · simp [listed]
    · have not : entries.all isObjectWithStringId = false :=
        List.all_eq_false.mpr ⟨entry, mem, by rw [without]; exact Bool.false_ne_true⟩
      rw [not, Bool.and_false]

end

/-- Values of JSON text: between objects a patch is empty exactly when they are equal; otherwise
the target is the patch. -/
theorem merge_patches [DecidableEq ν] :
    (∀ base target : JsValue ν, Clean base → Clean target →
      (applyMergePatch plain [] base (createMergePatch base target)).isDeepStrictEqual target = true ∧
        if base.isObject = true ∧ target.isObject = true then
          isEmptyObject (createMergePatch base target) = true ↔
            base.isDeepStrictEqual target = true
        else createMergePatch base target = target) ∧
      (∀ (options : MergePatchOptions) (path : Text) (base : JsValue ν) (patch : Members ν),
        options.mergeObjectArraysById = true → (JsValue.object patch).WellFormed →
          ∃ result, applyMergePatch options path base (.object patch) = .object result ∧
            PatchesMembers options path base.members patch result) ∧
      ∀ (options : MergePatchOptions) (path : Text) (base patch : JsValue ν),
        options.mergeObjectArraysById = true → patch.Everywhere Settled →
          applyMergePatch options path (applyMergePatch options path base patch) patch =
            applyMergePatch options path base patch := by
  refine ⟨fun base target clean clean' => ?_, fun options path base patch on formed => ?_,
    fun options path base patch _ settled => (applyMergePatch_again settled).1⟩
  · obtain ⟨same, empty⟩ := reconstruct clean clean'
    refine ⟨same, ?_⟩
    split
    case isTrue both => exact empty both.1 both.2
    case isFalse objects =>
      rw [createMergePatch]
      rintro base target rfl rfl
      exact objects ⟨rfl, rfl⟩
  · exact ⟨_, by rw [applyMergePatch], patchesMembers on formed.here⟩

def byId : MergePatchOptions := { mergeObjectArraysById := true, replaceArrayPaths := [] }

def agent : JsValue Nat := .object [(lit "id", .string (lit "a")), (lit "x", .number 2)]

def agents : JsValue Nat := .object [(lit "list", .array [agent])]

theorem everywhere_agent {P : JsValue Nat → Prop} (here : P agent) (id : P (.string (lit "a")))
    (x : P (.number 2)) : agent.Everywhere P := by
  have leaf : ∀ {value : JsValue Nat}, P value → value.items = [] → value.members = [] →
      value.Everywhere P := fun here items members =>
    .intro here (by simp [items]) (by simp [members])
  refine .intro here (fun _ no => by cases no) fun member mem => ?_
  rcases List.mem_pair.mp mem with rfl | rfl
  · exact leaf id rfl rfl
  · exact leaf x rfl rfl

theorem everywhere_agents {P : JsValue Nat → Prop} (here : P agents) (list : P (.array [agent]))
    (inner : agent.Everywhere P) : agents.Everywhere P := by
  refine .intro here (fun _ no => by cases no) fun member mem => ?_
  rw [List.mem_singleton.mp mem]
  refine .intro list (fun item mem => ?_) (fun _ no => by cases no)
  rwa [List.mem_singleton.mp mem]

/-- A list of agents is deleted, restored, and added twice. -/
theorem merge_patches_agents :
    (applyMergePatch plain [] agents (createMergePatch agents (.object []))).isDeepStrictEqual
        (.object []) = true ∧
      (∃ result, applyMergePatch byId [] (.object []) agents = .object result ∧
        PatchesMembers byId [] [] agents.members result) ∧
      applyMergePatch byId [] (applyMergePatch byId [] .null agents) agents =
        applyMergePatch byId [] .null agents := by
  have clean : Clean agents := everywhere_agents ⟨by decide, by decide⟩ ⟨by decide, by decide⟩
    (everywhere_agent ⟨by decide, by decide⟩ ⟨by decide, by decide⟩ ⟨by decide, by decide⟩)
  have keyed : ∀ value : JsValue Nat, Keyed value → value.items = [] → Settled value :=
    fun value keyed none => ⟨keyed, by simp [none]⟩
  have settled : agents.Everywhere Settled := by
    refine everywhere_agents (keyed _ ⟨by decide, by decide, by decide⟩ rfl)
      ⟨⟨by decide, by decide, by decide⟩, fun item mem => ?_⟩
      (everywhere_agent (keyed _ ⟨by decide, by decide, by decide⟩ rfl)
        (keyed _ ⟨by decide, by decide, by decide⟩ rfl)
        (keyed _ ⟨by decide, by decide, by decide⟩ rfl))
    rw [List.mem_singleton.mp mem]
    exact everywhere_agent (by decide : ∀ member ∈ agent.members, member.2.isNull = false)
      (fun _ no => by cases no) (fun _ no => by cases no)
  have nothing : Clean (.object [] : JsValue Nat) :=
    .intro ⟨by decide, by decide⟩ (fun _ no => by cases no) (fun _ no => by cases no)
  exact ⟨(merge_patches.1 agents (.object []) clean nothing).1,
    merge_patches.2.1 byId [] (.object []) agents.members rfl clean.wellFormed,
    merge_patches.2.2 byId [] .null agents rfl settled⟩

/-- A patch may be empty between a scalar and an object, an array without ids is replaced, and
an entry that is added with a null member loses it the second time. -/
theorem merge_patches_literal_fails :
    (isEmptyObject (createMergePatch (.number 5) (.object [])) = true ∧
      (JsValue.number 5).isDeepStrictEqual (.object []) = false) ∧
    (applyMergePatch byId []
        (.object [(lit "list", .array [.object [(lit "id", .string (lit "a"))], .number 5])])
        (.object [(lit "list", .array [.object [(lit "id", .string (lit "b"))]])])).isDeepStrictEqual
      (.object [(lit "list", .array [.object [(lit "id", .string (lit "b"))]])]) = true ∧
    (applyMergePatch byId []
        (applyMergePatch byId [] (.object [])
          (.object [(lit "list", .array [.object [(lit "id", .string (lit "a")), (lit "x", .null)]])]))
        (.object [(lit "list", .array [.object [(lit "id", .string (lit "a")), (lit "x", .null)]])])
          ).isDeepStrictEqual
      (applyMergePatch byId [] (.object ([] : Members Nat))
        (.object [(lit "list", .array [.object [(lit "id", .string (lit "a")), (lit "x", .null)]])])) =
      false := by
  decide

end OpenClaw.MergePatch
