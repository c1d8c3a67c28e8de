import OpenClaw.Lib.JsUnits

/-!
JavaScript values as `JSON.parse` and its relatives make them: trees of arrays and of objects
with own members in the order of their insertion. Numbers are any type with the equality of
`Object.is`. A property of all objects and arrays in a tree is stated once, with its induction.
-/

namespace JsMembers

variable {κ α : Type} [DecidableEq κ] {members : List (κ × α)} {key other : κ} {value found : α}

def get? (members : List (κ × α)) (key : κ) : Option α :=
  (members.find? fun entry => entry.1 = key).map Prod.snd

/-- A known member is changed in its place, a new one is put behind the others. -/
def set (key : κ) (value : α) : List (κ × α) → List (κ × α)
  | [] => [(key, value)]
  | entry :: rest => if entry.1 = key then (key, value) :: rest else entry :: set key value rest

def delete (members : List (κ × α)) (key : κ) : List (κ × α) :=
  members.filter fun entry => entry.1 ≠ key

@[simp] theorem get?_nil : get? ([] : List (κ × α)) key = none := rfl

theorem get?_cons {entry : κ × α} :
    get? (entry :: members) key = if entry.1 = key then some entry.2 else get? members key := by
  rw [get?, List.find?_cons]
  by_cases same : entry.1 = key <;> simp [same, get?]

theorem mem_of_get? (same : get? members key = some found) : (key, found) ∈ members := by
  obtain ⟨⟨held, value⟩, there, rfl⟩ := Option.map_eq_some_iff.mp same
  have here := List.find?_some there
  rw [decide_eq_true_eq] at here
  exact here ▸ List.mem_of_find?_eq_some there

theorem get?_eq_none : get? members key = none ↔ key ∉ members.map Prod.fst := by
  rw [get?, Option.map_eq_none_iff, List.find?_eq_none]
  simp only [decide_eq_true_eq, List.mem_map, not_exists, not_and]

theorem get?_of_mem (nodup : (members.map Prod.fst).Nodup) (mem : (key, value) ∈ members) :
    get? members key = some value := by
  induction members with
  | nil => nomatch mem
  | cons entry rest ih =>
      rw [List.map_cons, List.nodup_cons] at nodup
      rw [get?_cons]
      rcases List.mem_cons.mp mem with rfl | later
      · rw [if_pos rfl]
      · have fresh : entry.1 ≠ key := fun same =>
          nodup.1 (same ▸ List.mem_map.mpr ⟨_, later, rfl⟩)
        rw [if_neg fresh]
        exact ih nodup.2 later

theorem get?_append {rest : List (κ × α)} :
    get? (members ++ rest) key = (get? members key).or (get? rest key) := by
  rw [get?, List.find?_append, get?, get?]
  cases members.find? fun entry => entry.1 = key <;> rfl

theorem get?_filter {p : κ → Bool} :
    get? (members.filter fun entry => p entry.1) key = if p key then get? members key else none := by
  induction members with
  | nil => simp
  | cons entry rest ih =>
      rw [List.filter_cons]
      by_cases same : entry.1 = key
      · subst same
        by_cases kept : p entry.1
        · rw [if_pos kept, get?_cons, get?_cons, if_pos rfl, if_pos kept, if_pos rfl]
        · rw [if_neg kept, ih, if_neg kept, if_neg kept]
      · rw [get?_cons, if_neg same, ← ih]
        split
        · rw [get?_cons, if_neg same]
        · rfl

theorem get?_delete :
    get? (delete members key) other = if other = key then none else get? members other := by
  rw [delete, get?_filter (p := fun held => decide (held ≠ key))]
  by_cases same : other = key <;> simp [same]

theorem get?_set :
    get? (set key value members) other = if other = key then some value else get? members other := by
  induction members with
  | nil =>
      rw [set, get?_cons]
      by_cases same : other = key
      · rw [if_pos same.symm, if_pos same]
      · rw [if_neg (Ne.symm same), if_neg same]
  | cons entry rest ih =>
      rw [set]
      by_cases here : entry.1 = key
      · rw [if_pos here, get?_cons, get?_cons, here]
        by_cases same : other = key
        · rw [if_pos same.symm, if_pos same]
        · rw [if_neg (Ne.symm same), if_neg same, if_neg (Ne.symm same)]
      · rw [if_neg here, get?_cons, get?_cons, ih]
        by_cases same : other = key
        · subst same
          rw [if_neg here, if_pos rfl, if_pos rfl]
        · rw [if_neg same, if_neg same]

theorem set_of_get? (same : get? members key = some value) : set key value members = members := by
  induction members with
  | nil => nomatch same
  | cons entry rest ih =>
      rw [get?_cons] at same
      rw [set]
      split
      case isTrue here =>
        rw [if_pos here] at same
        rw [← here, ← Option.some.inj same]
      case isFalse other =>
        rw [if_neg other] at same
        rw [ih same]

theorem delete_of_get? (absent : get? members key = none) : delete members key = members := by
  refine List.filter_eq_self.mpr fun entry mem => ?_
  rw [decide_eq_true_eq]
  rintro rfl
  exact get?_eq_none.mp absent (List.mem_map.mpr ⟨entry, mem, rfl⟩)

theorem keys_set : (set key value members).map Prod.fst =
    if key ∈ members.map Prod.fst then members.map Prod.fst else members.map Prod.fst ++ [key] := by
  induction members with
  | nil => rfl
  | cons entry rest ih =>
      rw [set]
      by_cases here : entry.1 = key
      · simp [here]
      · rw [if_neg here, List.map_cons, ih, List.map_cons]
        by_cases later : key ∈ rest.map Prod.fst
        · rw [if_pos later, if_pos (List.mem_cons_of_mem _ later)]
        · rw [if_neg later, if_neg (by simp [later, Ne.symm here]), List.cons_append]

theorem nodup_set (nodup : (members.map Prod.fst).Nodup) :
    ((set key value members).map Prod.fst).Nodup := by
  rw [keys_set]
  split
  case isTrue => exact nodup
  case isFalse absent =>
    exact List.nodup_append'.mpr ⟨nodup, List.nodup_singleton _, by simpa using absent⟩

theorem nodup_delete (nodup : (members.map Prod.fst).Nodup) :
    ((delete members key).map Prod.fst).Nodup :=
  nodup.sublist (List.filter_sublist.map _)

end JsMembers

open JsUnits

inductive JsValue (ν : Type)
  | null
  | boolean (value : Bool)
  | number (value : ν)
  | string (text : Text)
  | array (items : List (JsValue ν))
  | object (members : List (Text × JsValue ν))

namespace JsValue

variable {ν : Type}

def items : JsValue ν → List (JsValue ν)
  | .array items => items
  | _ => []

def members : JsValue ν → List (Text × JsValue ν)
  | .object members => members
  | _ => []

def isNull : JsValue ν → Bool
  | .null => true
  | _ => false

def isObject : JsValue ν → Bool
  | .object _ => true
  | _ => false

def isArray : JsValue ν → Bool
  | .array _ => true
  | _ => false

theorem isObject_iff {value : JsValue ν} : value.isObject = true ↔ ∃ members, value = .object members := by
  cases value <;> simp [isObject]

theorem sizeOf_item {value item : JsValue ν} (mem : item ∈ value.items) :
    sizeOf item < sizeOf value := by
  cases value with
  | array items =>
      have := List.sizeOf_lt_of_mem mem
      simp only [JsValue.items, JsValue.array.sizeOf_spec] at this ⊢
      omega
  | _ => nomatch mem

theorem sizeOf_member {value : JsValue ν} {member : Text × JsValue ν} (mem : member ∈ value.members) :
    sizeOf member.2 < sizeOf value := by
  cases value with
  | object members =>
      have := List.sizeOf_lt_of_mem mem
      obtain ⟨key, value⟩ := member
      simp only [JsValue.members, JsValue.object.sizeOf_spec, Prod.mk.sizeOf_spec] at this ⊢
      omega
  | _ => nomatch mem

/-- Induction from the items and the members of a value to the value. -/
theorem tree {motive : JsValue ν → Prop}
    (node : ∀ value, (∀ item ∈ value.items, motive item) →
      (∀ member ∈ value.members, motive member.2) → motive value) (value : JsValue ν) :
    motive value :=
  node value (fun item _ => tree node item) fun member _ => tree node member.2
termination_by sizeOf value
decreasing_by
  · exact sizeOf_item ‹_›
  · exact sizeOf_member ‹_›

/-- A property of every value in a tree. -/
inductive Everywhere (P : JsValue ν → Prop) : JsValue ν → Prop
  | intro {value : JsValue ν} (here : P value) (items : ∀ item ∈ value.items, Everywhere P item)
      (members : ∀ member ∈ value.members, Everywhere P member.2) : Everywhere P value

theorem Everywhere.here {P : JsValue ν → Prop} {value : JsValue ν} (all : value.Everywhere P) :
    P value := by
  cases all with
  | intro here => exact here

theorem Everywhere.item {P : JsValue ν → Prop} {value item : JsValue ν} (all : value.Everywhere P)
    (mem : item ∈ value.items) : item.Everywhere P := by
  cases all with
  | intro _ items => exact items item mem

theorem Everywhere.member {P : JsValue ν → Prop} {value : JsValue ν} {member : Text × JsValue ν}
    (all : value.Everywhere P) (mem : member ∈ value.members) : member.2.Everywhere P := by
  cases all with
  | intro _ _ members => exact members member mem

theorem Everywhere.get? {P : JsValue ν → Prop} {value found : JsValue ν} {key : Text}
    (all : value.Everywhere P) (same : JsMembers.get? value.members key = some found) :
    found.Everywhere P :=
  all.member (JsMembers.mem_of_get? same)

theorem Everywhere.mono {P Q : JsValue ν → Prop} {value : JsValue ν} (all : value.Everywhere P)
    (weaker : ∀ value, P value → Q value) : value.Everywhere Q := by
  induction all with
  | intro here _ _ items members => exact .intro (weaker _ here) items members

/-- No object has two members of one name. -/
def WellFormed : JsValue ν → Prop := Everywhere fun value => (value.members.map Prod.fst).Nodup

section Equal

variable [DecidableEq ν]

mutual

def isDeepStrictEqual : JsValue ν → JsValue ν → Bool
  | .null, .null => true
  | .boolean left, .boolean right => left = right
  | .number left, .number right => left = right
  | .string left, .string right => left = right
  | .array left, .array right => equalItems left right
  | .object left, .object right => left.length = right.length && equalMembers left right
  | _, _ => false

def equalItems : List (JsValue ν) → List (JsValue ν) → Bool
  | [], [] => true
  | left :: lefts, right :: rights => left.isDeepStrictEqual right && equalItems lefts rights
  | _, _ => false

/-- Every member of the first is an equal one of the second. -/
def equalMembers : List (Text × JsValue ν) → List (Text × JsValue ν) → Bool
  | [], _ => true
  | (key, left) :: rest, rights =>
      (match JsMembers.get? rights key with
        | some right => left.isDeepStrictEqual right
        | none => false) && equalMembers rest rights

end

variable {left right : List (Text × JsValue ν)}

theorem equalMembers_iff : equalMembers left right = true ↔ ∀ member ∈ left,
    ∃ found, JsMembers.get? right member.1 = some found ∧ member.2.isDeepStrictEqual found = true := by
  induction left with
  | nil => simp [equalMembers]
  | cons entry rest ih =>
      rw [equalMembers, Bool.and_eq_true, ih, List.forall_mem_cons]
      refine and_congr_left' ?_
      cases JsMembers.get? right entry.1 <;> simp

theorem none_iff_of_rel {α β : Type} {r : α → β → Prop} {one : Option α} {other : Option β}
    (related : Option.Rel r one other) : one = none ↔ other = none := by
  cases related <;> simp

/-- Objects are equal when they have equal values, or none, under every name. -/
theorem isDeepStrictEqual_object (nodup : (left.map Prod.fst).Nodup)
    (nodup' : (right.map Prod.fst).Nodup) :
    (object left).isDeepStrictEqual (object right) = true ↔ ∀ key,
      Option.Rel (fun one other => isDeepStrictEqual one other = true) (JsMembers.get? left key)
        (JsMembers.get? right key) := by
  rw [isDeepStrictEqual, Bool.and_eq_true, decide_eq_true_eq, equalMembers_iff]
  constructor
  · rintro ⟨length, all⟩ key
    cases here : JsMembers.get? left key with
    | some value =>
        obtain ⟨found, there, equal⟩ := all _ (JsMembers.mem_of_get? here)
        rw [there]
        exact .some equal
    | none =>
        have inside : left.map Prod.fst ⊆ right.map Prod.fst := fun held mem => by
          obtain ⟨member, there, rfl⟩ := List.mem_map.mp mem
          obtain ⟨found, known, -⟩ := all member there
          exact List.mem_map.mpr ⟨_, JsMembers.mem_of_get? known, rfl⟩
        have same := (nodup.subperm inside).perm_of_length_le (by simp [length])
        have absent := JsMembers.get?_eq_none.mp here
        rw [JsMembers.get?_eq_none.mpr fun mem => absent (same.mem_iff.mpr mem)]
        exact .none
  · intro all
    have keys : (left.map Prod.fst).Perm (right.map Prod.fst) := by
      refine (List.perm_ext_iff_of_nodup nodup nodup').mpr fun key => ?_
      rw [← not_iff_not, ← JsMembers.get?_eq_none, ← JsMembers.get?_eq_none]
      exact none_iff_of_rel (all key)
    refine ⟨by simpa using keys.length_eq, fun member mem => ?_⟩
    have related := all member.1
    rw [@JsMembers.get?_of_mem _ _ _ _ _ member.2 nodup mem] at related
    cases found : JsMembers.get? right member.1 with
    | none =>
        rw [found] at related
        nomatch related
    | some other =>
        rw [found] at related
        cases related with
        | some equal => exact ⟨other, rfl, equal⟩

theorem equalItems_refl {items : List (JsValue ν)}
    (all : ∀ item ∈ items, item.isDeepStrictEqual item = true) : equalItems items items = true := by
  induction items with
  | nil => rfl
  | cons item rest ih =>
      rw [List.forall_mem_cons] at all
      rw [equalItems, all.1, ih all.2, Bool.and_self]

theorem isDeepStrictEqual_refl {value : JsValue ν} (formed : value.WellFormed) :
    value.isDeepStrictEqual value = true := by
  induction formed with
  | @intro value here _ _ items members =>
      cases value with
      | null => rfl
      | boolean | number | string => simp [isDeepStrictEqual]
      | array => exact equalItems_refl items
      | object entries =>
          refine (isDeepStrictEqual_object here here).mpr fun key => ?_
          change Option.Rel _ (JsMembers.get? entries key) (JsMembers.get? entries key)
          cases found : JsMembers.get? entries key with
          | none => exact .none
          | some other =>
              exact Option.rel_some_some.mpr (members _ (JsMembers.mem_of_get? found))

end Equal

end JsValue
