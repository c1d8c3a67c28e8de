import Mathlib
import OpenClaw.Lib.JsCollections

/-!
Elements of a list by their place: after one is put at the end, and after one is changed. One
element fewer with a property makes the count of them less, and a changed weight the sum.
-/

namespace List

variable {α : Type*}

theorem getElem?_concat_eq_some {items : List α} {item found : α} {i : Nat} :
    (items ++ [item])[i]? = some found ↔
      items[i]? = some found ∨ i = items.length ∧ item = found := by
  rcases Nat.lt_trichotomy i items.length with below | rfl | above
  · rw [List.getElem?_append_left below]
    exact ⟨.inl, fun either => either.resolve_right fun last => below.ne last.1⟩
  · simp
  · rw [List.getElem?_eq_none (by simp; omega), List.getElem?_eq_none (by omega)]
    simp [above.ne']

theorem getElem?_modify_eq_some {items : List α} {f : α → α} {i j : Nat} {found : α} :
    (items.modify i f)[j]? = some found ↔
      ∃ item, items[j]? = some item ∧ (if i = j then f item else item) = found := by
  rw [List.getElem?_modify, Option.map_eq_map, Option.map_eq_some_iff]

theorem countP_modify_lt {items : List α} {f : α → α} {p : α → Bool} {i : Nat} {item : α}
    (found : items[i]? = some item) (holds : p item = true) (fails : p (f item) = false) :
    (items.modify i f).countP p < items.countP p := by
  obtain ⟨below, same⟩ := List.getElem?_eq_some_iff.mp found
  obtain ⟨before, head, after, parts, length, changed⟩ := List.exists_of_modify f below
  have here : head = item := by
    rw [parts, List.getElem?_append_right (by omega), ← length, Nat.sub_self] at found
    exact Option.some.inj found
  rw [changed, parts, List.countP_append, List.countP_append, here, List.countP_cons_of_pos holds,
    List.countP_cons_of_neg (by rw [fails]; exact Bool.false_ne_true)]
  omega

theorem sum_map_modify {items : List α} {f : α → α} {weight : α → Nat} {i : Nat} {item : α}
    (found : items[i]? = some item) :
    ((items.modify i f).map weight).sum + weight item = (items.map weight).sum + weight (f item) := by
  induction items generalizing i with
  | nil => nomatch found
  | cons head rest ih =>
      cases i with
      | zero =>
          cases found
          simp only [modify_zero_cons, map_cons, sum_cons]
          omega
      | succ i =>
          have later := ih (i := i) (by simpa using found)
          simp only [modify_succ_cons, map_cons, sum_cons]
          omega

theorem countP_lt_countP {items : List α} {p q : α → Bool} (weaker : ∀ item ∈ items, p item → q item)
    {item : α} (mem : item ∈ items) (holds : q item = true) (fails : p item = false) :
    items.countP p < items.countP q := by
  obtain ⟨before, after, rfl⟩ := List.append_of_mem mem
  have left := List.countP_mono_left (l := before) fun other here =>
    weaker other (List.mem_append_left _ here)
  have right := List.countP_mono_left (l := after) fun other here =>
    weaker other (List.mem_append_right _ (List.mem_cons_of_mem _ here))
  rw [List.countP_append, List.countP_append, List.countP_cons_of_pos holds,
    List.countP_cons_of_neg (by rw [fails]; exact Bool.false_ne_true)]
  omega

end List

/-!
Lists kept under keys, as a map from keys to arrays serves as a family of queues: an element is
put at the end of its list and taken from the front of it. Such a map may track the places of a
list whose elements have a property, each place under the key of its element.
-/

namespace List

/-- What is collected from a list after one element of it is changed. -/
theorem flatMap_modify {α β : Type*} {items : List α} {f : α → α} {g : α → List β} {i : Nat}
    {item : α} (found : items[i]? = some item) :
    ((items.modify i f).flatMap g ++ g item).Perm (items.flatMap g ++ g (f item)) := by
  induction items generalizing i with
  | nil => cases found
  | cons head rest ih =>
      cases i with
      | zero =>
          cases found
          simp only [modify_zero_cons, flatMap_cons]
          calc
            _ ~ (rest.flatMap g ++ g (f item)) ++ g item := perm_append_comm.append_right _
            _ ~ rest.flatMap g ++ (g item ++ g (f item)) := by
              rw [append_assoc]
              exact perm_append_comm.append_left _
            _ ~ (g item ++ rest.flatMap g) ++ g (f item) := by
              rw [← append_assoc]
              exact perm_append_comm.append_right _
      | succ i =>
          have later := ih (i := i) (by simpa using found)
          simpa only [modify_succ_cons, flatMap_cons, append_assoc] using later.append_left _

/-- What is read of every element does not change when the change keeps it. -/
theorem map_modify_of_same {α β : Type*} {items : List α} {f : α → α} {g : α → β} {i : Nat}
    (same : ∀ item, g (f item) = g item) : (items.modify i f).map g = items.map g := by
  apply ext_getElem?
  intro j
  rw [getElem?_map, getElem?_map, getElem?_modify]
  cases items[j]? with
  | none => rfl
  | some item => by_cases here : i = j <;> simp [here, same]

theorem flatMap_modify_of_same {α β : Type*} {items : List α} {f : α → α} {g : α → List β}
    {i : Nat} (same : ∀ item, g (f item) = g item) : (items.modify i f).flatMap g = items.flatMap g := by
  rw [flatMap_def, flatMap_def, map_modify_of_same same]

theorem filterMap_modify {α β : Type*} {items : List α} {f : α → α} {g : α → Option β} {i : Nat}
    {item : α} (found : items[i]? = some item) :
    ((items.modify i f).filterMap g ++ (g item).toList).Perm
      (items.filterMap g ++ (g (f item)).toList) := by
  simpa only [filterMap_eq_flatMap_toList] using flatMap_modify (g := fun x => (g x).toList) found

end List

namespace KeyedLists

variable {κ α : Type*} [DecidableEq κ] {m : JsMap κ (List α)} {k k' : κ} {x : α}

def itemsAt (m : JsMap κ (List α)) (k : κ) : List α := (m.get? k).getD []

/-- Put an element at the end of the list under a key; a new key gets a list of its own. -/
def pushAt (m : JsMap κ (List α)) (k : κ) (x : α) : JsMap κ (List α) :=
  match m.get? k with
  | some xs => m.set k (xs ++ [x])
  | none => m.set k [x]

/-- Take the first element of the list under a key; the list stays under its key. -/
def shiftAt (m : JsMap κ (List α)) (k : κ) : Option (α × JsMap κ (List α)) :=
  match m.get? k with
  | some (x :: xs) => some (x, m.set k xs)
  | _ => none

@[simp] theorem itemsAt_empty : itemsAt (.empty : JsMap κ (List α)) k = [] := rfl

theorem itemsAt_set {xs : List α} :
    itemsAt (m.set k xs) k' = if k' = k then xs else itemsAt m k' := by
  unfold itemsAt
  split
  · next same => simp [same]
  · next other => rw [JsMap.get?_set_of_ne other]

theorem itemsAt_delete : itemsAt (m.delete k) k' = if k' = k then [] else itemsAt m k' := by
  unfold itemsAt
  rw [JsMap.get?_delete]
  split <;> rfl

theorem itemsAt_pushAt :
    itemsAt (pushAt m k x) k' = if k' = k then itemsAt m k ++ [x] else itemsAt m k' := by
  cases found : m.get? k with
  | none =>
      have nothing : itemsAt m k = [] := by rw [itemsAt, found, Option.getD_none]
      simp only [pushAt, found, itemsAt_set, nothing, List.nil_append]
  | some xs =>
      have listed : itemsAt m k = xs := by rw [itemsAt, found, Option.getD_some]
      simp only [pushAt, found, itemsAt_set, listed]

/-- The lists after some elements are put at the ends of theirs. -/
theorem itemsAt_foldl_pushAt {β : Type*} (p : β → Bool) (key : β → κ) (value : β → α)
    (entries : List β) : itemsAt (entries.foldl (fun m entry =>
      if p entry then pushAt m (key entry) (value entry) else m) m) k =
        itemsAt m k ++ (entries.filter fun entry => p entry && key entry = k).map value := by
  induction entries generalizing m with
  | nil => simp
  | cons entry rest ih =>
      rw [List.foldl_cons, ih]
      by_cases counts : p entry = true
      · rw [if_pos counts, itemsAt_pushAt]
        by_cases same : k = key entry
        · simp [counts, same]
        · simp [counts, same, Ne.symm same]
      · simp [counts]

theorem shiftAt_eq_none : shiftAt m k = none ↔ itemsAt m k = [] := by
  unfold shiftAt itemsAt
  cases m.get? k with
  | none => simp
  | some xs => cases xs <;> simp

theorem shiftAt_eq_some {m' : JsMap κ (List α)} (taken : shiftAt m k = some (x, m')) :
    itemsAt m k = x :: itemsAt m' k ∧ ∀ k' ≠ k, itemsAt m' k' = itemsAt m k' := by
  unfold shiftAt at taken
  split at taken
  · next xs found =>
      cases taken
      refine ⟨?_, fun k' other => ?_⟩
      · simp [itemsAt, found]
      · rw [itemsAt_set, if_neg other]
  · cases taken

variable {β : Type*} {places places' : κ → List Nat} {key : β → κ} {p : β → Bool}
  {items : List β} {item : β} {f : β → β} {i : Nat}

/-- The lists hold the places of the elements with a property, in order, under their keys. -/
structure Tracks (places : κ → List Nat) (key : β → κ) (p : β → Bool) (items : List β) : Prop where
  increasing : ∀ k, (places k).Pairwise (· < ·)
  mem : ∀ k i, i ∈ places k ↔ ∃ item, items[i]? = some item ∧ key item = k ∧ p item = true

namespace Tracks

omit [DecidableEq κ]

/-- The places of all elements under their keys, when every element has the property. -/
theorem of_zipIdx [DecidableEq κ] (all : ∀ item ∈ items, p item = true) :
    Tracks (fun k => (items.zipIdx.filter fun entry => key entry.1 = k).map Prod.snd) key p items where
  increasing k := by
    have places : (items.zipIdx.map Prod.snd).Pairwise (· < ·) := by
      rw [List.zipIdx_map_snd]
      exact List.pairwise_lt_range'
    exact places.sublist (List.filter_sublist.map _)
  mem k i := by
    simp only [List.mem_map, List.mem_filter, decide_eq_true_eq, Prod.exists,
      List.mem_zipIdx_iff_getElem?]
    constructor
    · rintro ⟨item, _, ⟨found, atKey⟩, rfl⟩
      exact ⟨item, found, atKey, all item (List.mem_of_getElem? found)⟩
    · rintro ⟨item, found, atKey, -⟩
      exact ⟨item, i, ⟨found, atKey⟩, rfl⟩

/-- One element changes and keeps its key; its place is tracked if the new one has the property. -/
theorem modify (tracks : Tracks places key p items) (found : items[i]? = some item)
    (sameKey : key (f item) = key item)
    (increasing : ∀ k, (places' k).Pairwise (· < ·))
    (here : ∀ k, i ∈ places' k ↔ key item = k ∧ p (f item) = true)
    (elsewhere : ∀ k j, j ≠ i → (j ∈ places' k ↔ j ∈ places k)) :
    Tracks places' key p (items.modify i f) where
  increasing := increasing
  mem k j := by
    by_cases same : j = i
    · subst same
      rw [here, List.getElem?_modify_eq]
      simp [found, sameKey]
    · rw [elsewhere k j same, tracks.mem, List.getElem?_modify_ne _ _ (Ne.symm same)]

/-- The property of the changed element is what it was. -/
theorem modify_same (tracks : Tracks places key p items) (found : items[i]? = some item)
    (sameKey : key (f item) = key item) (same : p (f item) = p item) :
    Tracks places key p (items.modify i f) := by
  refine tracks.modify found sameKey tracks.increasing (fun k => ?_) fun _ _ _ => Iff.rfl
  rw [tracks.mem, same]
  simp [found]

variable [DecidableEq κ]

/-- The first place under a key leaves when its element loses the property. -/
theorem shift (tracks : Tracks places key p items) {rest : List Nat}
    (first : places k = i :: rest) (here : places' k = rest)
    (others : ∀ k' ≠ k, places' k' = places k') (sameKey : ∀ item, key (f item) = key item)
    (lost : ∀ item, p (f item) = false) : Tracks places' key p (items.modify i f) := by
  obtain ⟨item, found, atKey, -⟩ := (tracks.mem k i).mp (first ▸ List.mem_cons_self)
  have ordered := tracks.increasing k
  rw [first, List.pairwise_cons] at ordered
  refine tracks.modify found (sameKey item) (fun k' => ?_) (fun k' => ?_) fun k' j away => ?_
  · by_cases same : k' = k
    · exact same ▸ here ▸ ordered.2
    · exact others k' same ▸ tracks.increasing k'
  · simp only [lost, Bool.false_eq_true, and_false, iff_false]
    by_cases same : k' = k
    · subst same
      exact here ▸ fun inside => (ordered.1 i inside).false
    · rw [others k' same, tracks.mem]
      rintro ⟨other, found', atKey', -⟩
      rw [found] at found'
      cases found'
      exact same (atKey'.symm.trans atKey)
  · by_cases same : k' = k
    · subst same
      rw [here, first, List.mem_cons, or_iff_right away]
    · rw [others k' same]

/-- An element that gains the property is put behind the places under its key. -/
theorem push (tracks : Tracks places key p items) (found : items[i]? = some item)
    (atKey : key item = k) (here : places' k = places k ++ [i])
    (others : ∀ k' ≠ k, places' k' = places k') (sameKey : key (f item) = key item)
    (lacked : p item = false) (gained : p (f item) = true) (behind : ∀ j ∈ places k, j < i) :
    Tracks places' key p (items.modify i f) := by
  refine tracks.modify found sameKey (fun k' => ?_) (fun k' => ?_) fun k' j away => ?_
  · by_cases same : k' = k
    · subst same
      rw [here]
      exact List.pairwise_append.mpr ⟨tracks.increasing k', List.pairwise_singleton _ _,
        fun j inside _ last => List.mem_singleton.mp last ▸ behind j inside⟩
    · exact others k' same ▸ tracks.increasing k'
  · by_cases same : k' = k
    · subst same
      simp [here, atKey, gained]
    · rw [others k' same, tracks.mem]
      have away : key item ≠ k' := fun eq => same (eq.symm.trans atKey)
      simp [found, lacked, away]
  · by_cases same : k' = k
    · subst same
      simp [here, away]
    · rw [others k' same]

end Tracks
end KeyedLists
