import OpenClaw.MergePatch.ById

/-!
Applying a patch again. Its second application finds every member as the first one left it; an
entry it has added is merged with itself, which changes nothing when the entries of each array
have ids of their own and no null members, at any depth.
-/

namespace OpenClaw.MergePatch

open JsUnits JsMembers JsValue

variable {ν : Type} {options : MergePatchOptions} {path key id : Text}

/-- Members have distinct names, and the entries of an array distinct ids. -/
def Keyed (value : JsValue ν) : Prop :=
  (value.members.map Prod.fst).Nodup ∧ (value.items.map stringId?).Nodup ∧
    ∀ item ∈ value.items, isObjectWithStringId item = true

def NoNull (value : JsValue ν) : Prop := ∀ member ∈ value.members, member.2.isNull = false

/-- Null members stand outside of arrays only. -/
def Settled (value : JsValue ν) : Prop :=
  Keyed value ∧ ∀ item ∈ value.items, item.Everywhere NoNull

section Members

variable {result patch : Members ν}

theorem putMember_get? : putMember key result (get? result key) = result := by
  cases found : get? result key with
  | none => exact delete_of_get? found
  | some value => exact set_of_get? found

/-- Where no member is changed by its patch, nothing is. -/
theorem applyMembers_fixed (fixed : ∀ member ∈ patch,
    isMergePatchObjectKeyAllowed member.1 path = true →
      applyMember options (formatConfigPatchPath path member.1) (get? result member.1) member.2 =
        get? result member.1) : applyMembers options path result patch = result := by
  induction patch with
  | nil => rw [applyMembers]
  | cons entry rest ih =>
      obtain ⟨key, value⟩ := entry
      rw [List.forall_mem_cons] at fixed
      have same : (if isMergePatchObjectKeyAllowed key path then
            putMember key result
              (applyMember options (formatConfigPatchPath path key) (get? result key) value)
          else result) = result := by
        split
        case isFalse => rfl
        case isTrue allowed =>
          rw [fixed.1 allowed]
          exact putMember_get?
      rw [applyMembers, same]
      exact ih fixed.2

end Members

section Entries

variable {base patch merged : List (JsValue ν)} {entry : JsValue ν}

theorem mentions_eq (nodup : (patch.map stringId?).Nodup) (mem : entry ∈ patch)
    (known : stringId? entry = some id) : mentions id patch = [entry] := by
  induction patch with
  | nil => cases mem
  | cons first rest ih =>
      rw [List.map_cons, List.nodup_cons] at nodup
      rcases List.mem_cons.mp mem with rfl | later
      · have none : mentions id rest = [] := by
          refine List.filter_eq_nil_iff.mpr fun other here => ?_
          rw [decide_eq_true_eq, ← known]
          exact fun same => nodup.1 (List.mem_map.mpr ⟨other, here, same⟩)
        rw [mentions, List.filter_cons_of_pos (by simpa using known)]
        exact congrArg _ none
      · have other : stringId? first ≠ some id := fun same =>
          nodup.1 (List.mem_map.mpr ⟨entry, later, known.trans same.symm⟩)
        rw [mentions, List.filter_cons_of_neg (by simpa using other)]
        exact ih nodup.2 later

theorem mentions_cases (nodup : (patch.map stringId?).Nodup) (id : Text) :
    mentions id patch = [] ∨
      ∃ entry ∈ patch, stringId? entry = some id ∧ mentions id patch = [entry] := by
  cases found : mentions id patch with
  | nil => exact .inl rfl
  | cons entry rest =>
      have here := List.mem_filter.mp (found ▸ List.mem_cons_self : entry ∈ mentions id patch)
      have known := of_decide_eq_true here.2
      exact .inr ⟨entry, here.1, known, found ▸ mentions_eq nodup here.1 known⟩

/-- Entries with ids of their own are added as they are. -/
theorem appended_eq {known : Text → Bool} (nodup : (patch.map stringId?).Nodup)
    (keyed : ∀ entry ∈ patch, isObjectWithStringId entry = true) :
    appended options path known patch =
      patch.filter fun entry => (stringId? entry).any fun id => !known id := by
  induction patch generalizing known with
  | nil => rfl
  | cons entry rest ih =>
      rw [List.map_cons, List.nodup_cons] at nodup
      rw [List.forall_mem_cons] at keyed
      obtain ⟨id, named⟩ := Option.isSome_iff_exists.mp keyed.1
      rw [appended, named]
      dsimp only
      cases there : known id with
      | true =>
          rw [if_pos rfl, List.filter_cons_of_neg (by simp [named, there])]
          exact ih nodup.2 keyed.2
      | false =>
          have none : mentions id rest = [] := by
            refine List.filter_eq_nil_iff.mpr fun other here => ?_
            rw [decide_eq_true_eq, ← named]
            exact fun same => nodup.1 (List.mem_map.mpr ⟨other, here, same⟩)
          rw [if_neg Bool.false_ne_true, none, List.foldl_nil, ih nodup.2 keyed.2,
            List.filter_cons_of_pos (by simp [named, there])]
          congr 1
          refine List.filter_congr fun other here => ?_
          cases same : stringId? other with
          | none => rfl
          | some id' =>
              have differs : id' ≠ id := by
                rintro rfl
                exact nodup.1 (List.mem_map.mpr ⟨other, here, same.trans named.symm⟩)
              simp [differs]

theorem stringId?_eq_some {value : JsValue ν} : stringId? value = some id ↔
    get? value.members (lit "id") = some (.string id) ∧ id ≠ [] := by
  rw [stringId?]
  split
  case h_1 text found =>
    rw [found]
    by_cases empty : text = []
    · simp only [empty, if_true, Option.some.injEq, JsValue.string.injEq]
      exact ⟨fun no => (by cases no), fun both => absurd both.1.symm both.2⟩
    · simp only [empty, if_false, Option.some.injEq, JsValue.string.injEq]
      exact ⟨fun same => ⟨same, same ▸ empty⟩, And.left⟩
  case h_2 other => exact ⟨fun no => (by cases no), fun both => absurd both.1 (other id)⟩

/-- An entry keeps its id when an entry of that id is merged into it. -/
theorem stringId?_mergeEntry {patchEntry : JsValue ν}
    (nodup : (patchEntry.members.map Prod.fst).Nodup) (known : stringId? patchEntry = some id) :
    stringId? (mergeEntry options path entry patchEntry) = some id := by
  obtain ⟨found, some⟩ := stringId?_eq_some.mp known
  cases patchEntry with
  | object members =>
      rw [mergeEntry, applyMergePatch, stringId?_eq_some]
      have allowed : ∀ path, isMergePatchObjectKeyAllowed (lit "id") path = true := fun path => by
        rw [isMergePatchObjectKeyAllowed, show isBlockedObjectKey (lit "id") = false by decide]
        rfl
      have own : get? members (lit "id") = Option.some (.string id) := found
      refine ⟨?_, some⟩
      change get? (applyMembers options _ entry.members members) (lit "id") = _
      rw [get?_applyMembers (show (members.map Prod.fst).Nodup from nodup), own]
      simp only [allowed, if_true]
      rfl
  | _ => cases found

/-- Merging changes nothing where every entry of the patch is merged into one that absorbs it. -/
theorem merge_fixed (nodup : (patch.map stringId?).Nodup)
    (keyed : ∀ entry ∈ patch, isObjectWithStringId entry = true)
    (known : ∀ patchEntry ∈ patch, ∃ entry ∈ base, stringId? entry = stringId? patchEntry)
    (absorbs : ∀ (i : Nat) entry id, base[i]? = some entry → LastWith base id i →
      ∀ patchEntry ∈ patch, stringId? patchEntry = some id →
        mergeEntry options path entry patchEntry = entry) :
    mergeObjectArraysById options path base (indexById base) patch = base := by
  have spec := @mergedById _ options path base patch
  generalize mergeObjectArraysById options path base (indexById base) patch = merged at spec
  have rest : merged.drop base.length = [] := by
    rw [spec.appended, appended_eq nodup keyed]
    refine List.filter_eq_nil_iff.mpr fun patchEntry mem => ?_
    obtain ⟨entry, there, same⟩ := known patchEntry mem
    obtain ⟨id, named⟩ := Option.isSome_iff_exists.mp (keyed patchEntry mem)
    rw [named, Option.any_some, Bool.not_eq_true', Bool.not_eq_false, List.any_eq_true]
    exact ⟨entry, there, decide_eq_true (same.trans named)⟩
  refine List.ext_getElem? fun i => ?_
  cases found : base[i]? with
  | none =>
      have outside := List.getElem?_eq_none_iff.mp found
      exact List.getElem?_eq_none ((List.drop_eq_nil_iff.mp rest).trans outside)
  | some entry =>
      by_cases last : ∃ id, LastWith base id i
      · obtain ⟨id, last⟩ := last
        rw [spec.mentioned i entry id found last]
        rcases mentions_cases nodup id with none | ⟨patchEntry, mem, same, one⟩
        · rw [none, List.foldl_nil]
        · rw [one, List.foldl_cons, List.foldl_nil, absorbs i entry id found last patchEntry mem same]
      · exact spec.repeated i entry found fun id here => last ⟨id, here⟩

theorem eq_of_stringId? {other : JsValue ν} (nodup : (patch.map stringId?).Nodup)
    (mem : entry ∈ patch) (mem' : other ∈ patch) (same : stringId? entry = stringId? other) :
    entry = other :=
  List.inj_on_of_nodup_map nodup mem mem' same

theorem merge_self (nodup : (base.map stringId?).Nodup)
    (keyed : ∀ entry ∈ base, isObjectWithStringId entry = true)
    (self : ∀ entry ∈ base, mergeEntry options path entry entry = entry) :
    mergeObjectArraysById options path base (indexById base) base = base := by
  refine merge_fixed nodup keyed (fun entry mem => ⟨entry, mem, rfl⟩)
    fun i entry id found last patchEntry mem same => ?_
  have here := List.mem_of_getElem? found
  have named := last.1
  rw [idAt, found, Option.bind_some] at named
  obtain rfl := eq_of_stringId? nodup here mem (named.trans same.symm)
  exact self entry here

variable (merges : MergedById options path base patch merged)
  (nodup : (patch.map stringId?).Nodup)

include merges nodup

theorem merged_of_le (keyed : ∀ entry ∈ patch, isObjectWithStringId entry = true) {i : Nat}
    (above : base.length ≤ i) (found : merged[i]? = some entry) : entry ∈ patch := by
  have there : (merged.drop base.length)[i - base.length]? = some entry := by
    rw [List.getElem?_drop, Nat.add_sub_cancel' above, found]
  rw [merges.appended, appended_eq nodup keyed] at there
  exact List.mem_of_mem_filter (List.mem_of_getElem? there)

variable (members : ∀ entry ∈ patch, (entry.members.map Prod.fst).Nodup)

include members

/-- Entries of the base keep their places and their ids. -/
theorem idAt_merged {i : Nat} (below : i < base.length) : idAt merged i = idAt base i := by
  have found := List.getElem?_eq_getElem below
  by_cases last : ∃ id, LastWith base id i
  · obtain ⟨id, last⟩ := last
    rw [last.1, idAt, merges.mentioned i _ id found last, Option.bind_some]
    rcases mentions_cases nodup id with none | ⟨patchEntry, mem, same, one⟩
    · rw [none, List.foldl_nil]
      have here := last.1
      rwa [idAt, found] at here
    · rw [one, List.foldl_cons, List.foldl_nil]
      exact stringId?_mergeEntry (members patchEntry mem) same
  · rw [idAt, merges.repeated i _ found fun id here => last ⟨id, here⟩, idAt, found]

variable (keyed : ∀ entry ∈ patch, isObjectWithStringId entry = true)

include keyed

theorem keyed_merged (all : ∀ entry ∈ base, isObjectWithStringId entry = true)
    (mem : entry ∈ merged) : isObjectWithStringId entry = true := by
  obtain ⟨i, found⟩ := List.mem_iff_getElem?.mp mem
  rcases Nat.lt_or_ge i base.length with below | above
  · have same := idAt_merged merges nodup members below
    rw [idAt, found, idAt, List.getElem?_eq_getElem below, Option.bind_some, Option.bind_some] at same
    rw [isObjectWithStringId, same]
    exact all _ (List.getElem_mem below)
  · exact keyed entry (merged_of_le merges nodup keyed above found)

theorem known_merged {patchEntry : JsValue ν} (mem : patchEntry ∈ patch) :
    ∃ entry ∈ merged, stringId? entry = stringId? patchEntry := by
  obtain ⟨id, named⟩ := Option.isSome_iff_exists.mp (keyed patchEntry mem)
  by_cases old : base.any (fun entry => stringId? entry = some id) = true
  · obtain ⟨entry, there, same⟩ := List.any_eq_true.mp old
    obtain ⟨i, below, rfl⟩ := List.getElem_of_mem there
    have kept := idAt_merged merges nodup members below
    have here : idAt base i = some id := by
      rw [idAt, List.getElem?_eq_getElem below]
      exact of_decide_eq_true same
    rw [here] at kept
    obtain ⟨entry, found, same⟩ := Option.bind_eq_some_iff.mp kept
    exact ⟨entry, List.mem_of_getElem? found, same.trans named.symm⟩
  · refine ⟨patchEntry, List.mem_of_mem_drop (i := base.length) ?_, rfl⟩
    rw [merges.appended, appended_eq nodup keyed]
    exact List.mem_filter.mpr ⟨mem, by simpa [named] using old⟩

theorem merge_again (twice : ∀ entry, ∀ patchEntry ∈ patch,
      mergeEntry options path (mergeEntry options path entry patchEntry) patchEntry =
        mergeEntry options path entry patchEntry)
    (self : ∀ patchEntry ∈ patch, mergeEntry options path patchEntry patchEntry = patchEntry) :
    mergeObjectArraysById options path merged (indexById merged) patch = merged := by
  refine merge_fixed nodup keyed (fun patchEntry mem =>
    known_merged merges nodup members keyed mem) fun i entry id found last patchEntry mem same => ?_
  rcases Nat.lt_or_ge i base.length with below | above
  · have kept := fun j (inside : j < base.length) => idAt_merged merges nodup members inside
    have before : LastWith base id i := by
      refine ⟨(kept i below).symm.trans last.1, fun j after there => ?_⟩
      exact last.2 j after ((kept j (lt_of_idAt there)).trans there)
    have merged_ := merges.mentioned i _ id (List.getElem?_eq_getElem below) before
    rw [mentions_eq nodup mem same, List.foldl_cons, List.foldl_nil, found] at merged_
    rw [Option.some.inj merged_]
    exact twice _ patchEntry mem
  · have new := merged_of_le merges nodup keyed above found
    have named := last.1
    rw [idAt, found, Option.bind_some] at named
    obtain rfl := eq_of_stringId? nodup new mem (named.trans same.symm)
    exact self entry new

end Entries

section Again

variable {value patch base : JsValue ν}

/-- An array is merged with itself. -/
theorem applyMember_array_self {items : List (JsValue ν)} (keyed : Keyed (.array items))
    (self : ∀ item ∈ items, ∀ path, applyMergePatch options path item item = item) :
    applyMember options path (some (.array items)) (.array items) = some (.array items) := by
  rw [applyMember]
  split
  case isFalse => rfl
  case isTrue =>
    have same : mergeObjectArraysById options path items (indexById items) items = items :=
      merge_self keyed.2.1 keyed.2.2 fun entry mem => self entry mem _
    rw [same]

/-- A value without null members changes nothing in itself. -/
theorem applyMergePatch_self (keyed : value.Everywhere Keyed) (noNull : value.Everywhere NoNull) :
    applyMergePatch options path value value = value ∧
      ∀ item ∈ value.items, ∀ path, applyMergePatch options path item item = item := by
  induction value using JsValue.tree generalizing path with
  | node value items members =>
      refine ⟨?_, fun item mem path => (items item mem (keyed.item mem) (noNull.item mem)).1⟩
      cases value with
      | null | boolean | number | string | array => exact applyMergePatch_replaces rfl
      | object own =>
          rw [applyMergePatch]
          refine congrArg _ (applyMembers_fixed fun member mem _ => ?_)
          have found : get? (JsValue.object own).members member.1 = some member.2 :=
            get?_of_mem keyed.here.1 mem
          have some := noNull.here member mem
          obtain ⟨self, inner⟩ := @members member mem
            (formatConfigPatchPath path member.1) (keyed.member mem) (noNull.member mem)
          have inside := keyed.member mem
          rw [found]
          obtain ⟨key, value⟩ := member
          cases value with
          | null => cases some
          | boolean | number | string => rfl
          | array items => exact applyMember_array_self inside.here inner
          | object nested =>
              rw [applyMember_object]
              exact congrArg Option.some self

theorem applyMember_array_again {items : List (JsValue ν)} (settled : Settled (.array items))
    (inner : ∀ item ∈ items, item.Everywhere Keyed)
    (twice : ∀ item ∈ items, ∀ path base, applyMergePatch options path
      (applyMergePatch options path base item) item = applyMergePatch options path base item)
    (current : Option (JsValue ν)) :
    applyMember options path (applyMember options path current (.array items)) (.array items) =
      applyMember options path current (.array items) := by
  have self : ∀ item ∈ items, ∀ path, applyMergePatch options path item item = item :=
    fun item mem path => (applyMergePatch_self (inner item mem) (settled.2 item mem)).1
  by_cases both : ∃ base, current = some (.array base) ∧ mergesArray options path base = true
  case neg =>
    have replaced : applyMember options path current (.array items) = some (.array items) := by
      rw [applyMember.eq_def]
      dsimp only
      split
      case h_1 base =>
        split
        case isTrue merges => exact absurd ⟨base, rfl, merges⟩ both
        case isFalse => rfl
      case h_2 => rfl
    rw [replaced]
    exact applyMember_array_self settled.1 self
  case pos =>
    obtain ⟨base, rfl, merges⟩ := both
    have members : ∀ item ∈ items, (item.members.map Prod.fst).Nodup := fun item mem =>
      (inner item mem).here.1
    have merged : applyMember options path (some (.array base)) (.array items) =
        some (.array (mergeObjectArraysById options path base (indexById base) items)) := by
      rw [applyMember, if_pos merges]
    have spec := @mergedById _ options path base items
    rw [merged]
    generalize mergeObjectArraysById options path base (indexById base) items = entries at spec
    have keyed : entries.all isObjectWithStringId = true := by
      refine List.all_eq_true.mpr fun entry mem => ?_
      simp only [mergesArray, Bool.and_eq_true, List.all_eq_true] at merges
      exact keyed_merged spec settled.1.2.1 members settled.1.2.2 merges.2 mem
    have merges' : mergesArray options path entries = true := by
      simp only [mergesArray, Bool.and_eq_true] at merges ⊢
      exact ⟨merges.1, keyed⟩
    have same := merge_again spec settled.1.2.1 members settled.1.2.2
      (fun entry item mem => twice item mem _ entry) fun item mem => self item mem _
    rw [applyMember, if_pos merges', same]

theorem applyMergePatch_again (keyed : patch.Everywhere Settled) :
    applyMergePatch options path (applyMergePatch options path base patch) patch =
        applyMergePatch options path base patch ∧
      ∀ item ∈ patch.items, ∀ path base, applyMergePatch options path
        (applyMergePatch options path base item) item = applyMergePatch options path base item := by
  induction patch using JsValue.tree generalizing path base with
  | node value items members =>
      refine ⟨?_, fun item mem path base => (items item mem (keyed.item mem)).1⟩
      cases value with
      | null | boolean | number | string | array =>
          exact (applyMergePatch_replaces rfl).trans (applyMergePatch_replaces rfl).symm
      | object own =>
          rw [applyMergePatch, applyMergePatch]
          refine congrArg _ (applyMembers_fixed fun member mem allowed => ?_)
          have nodup : (own.map Prod.fst).Nodup := keyed.here.1.1
          have found : get? own member.1 = some member.2 := get?_of_mem nodup mem
          have inside := keyed.member mem
          obtain ⟨key, value⟩ := member
          change applyMember options _ (get? (applyMembers options path base.members own) key) value =
            get? (applyMembers options path base.members own) key
          rw [get?_applyMembers nodup, found]
          dsimp only
          rw [if_pos allowed]
          cases value with
          | null | boolean | number | string => rfl
          | array items =>
              exact applyMember_array_again inside.here
                (fun item mem => (inside.item mem).mono fun _ settled => settled.1)
                (@members _ mem [] .null inside).2 _
          | object nested =>
              rw [applyMember_object, applyMember_object]
              exact congrArg Option.some (@members _ mem _ _ inside).1

end Again

end OpenClaw.MergePatch
