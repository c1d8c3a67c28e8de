import Mathlib
import OpenClaw.Lib.JsText

/-!
`Map`, `Set` sizes and `toSorted` of JavaScript. A map keeps its entries in insertion
order under different keys; setting a known key keeps its place. `toSorted` is
stable, so it is an insertion sort for any comparator that is a total preorder.
-/

structure JsMap (κ α : Type*) where
  entries : List (κ × α)
  nodup : (entries.map Prod.fst).Nodup

namespace JsMap

variable {κ α : Type*} [DecidableEq κ] {m : JsMap κ α} {k k' : κ} {a b : α}

def empty : JsMap κ α := ⟨[], List.nodup_nil⟩

def get? (m : JsMap κ α) (k : κ) : Option α :=
  (m.entries.find? fun entry => entry.1 = k).map Prod.snd

def has (m : JsMap κ α) (k : κ) : Bool := m.entries.any fun entry => entry.1 = k

def keys (m : JsMap κ α) : List κ := m.entries.map Prod.fst

def values (m : JsMap κ α) : List α := m.entries.map Prod.snd

def size (m : JsMap κ α) : Nat := m.entries.length

/-- Overwrite the value under a known key, or append. -/
def setEntries (k : κ) (a : α) : List (κ × α) → List (κ × α)
  | [] => [(k, a)]
  | entry :: rest => if entry.1 = k then (k, a) :: rest else entry :: setEntries k a rest

theorem mem_keys_setEntries (entries : List (κ × α)) :
    k' ∈ (setEntries k a entries).map Prod.fst ↔ k' = k ∨ k' ∈ entries.map Prod.fst := by
  induction entries with
  | nil => simp [setEntries]
  | cons entry rest ih =>
      by_cases same : entry.1 = k
      · subst same
        simp [setEntries]
      · simp only [setEntries, same, if_false, List.map_cons, List.mem_cons, ih]
        exact or_left_comm

theorem nodup_setEntries {entries : List (κ × α)} (nodup : (entries.map Prod.fst).Nodup) :
    ((setEntries k a entries).map Prod.fst).Nodup := by
  induction entries with
  | nil => simp [setEntries]
  | cons entry rest ih =>
      obtain ⟨fresh, rest'⟩ := List.nodup_cons.mp nodup
      by_cases same : entry.1 = k
      · simpa [setEntries, same] using nodup
      · simp only [setEntries, same, if_false, List.map_cons]
        refine List.nodup_cons.mpr ⟨fun mem => ?_, ih rest'⟩
        rcases (mem_keys_setEntries rest).mp mem with eq | old
        · exact same eq
        · exact fresh old

def set (m : JsMap κ α) (k : κ) (a : α) : JsMap κ α :=
  ⟨setEntries k a m.entries, nodup_setEntries m.nodup⟩

def insertAll (m : JsMap κ α) (pairs : List (κ × α)) : JsMap κ α :=
  pairs.foldl (fun m pair => m.set pair.1 pair.2) m

/-- `new Map(pairs)`. -/
def ofList (pairs : List (κ × α)) : JsMap κ α := empty.insertAll pairs

theorem mem_set {entry : κ × α} : entry ∈ (m.set k a).entries ↔
    entry = (k, a) ∨ entry ∈ m.entries ∧ entry.1 ≠ k := by
  have nodup := m.nodup
  change entry ∈ setEntries k a m.entries ↔ _
  generalize m.entries = entries at nodup
  induction entries with
  | nil => simp [setEntries]
  | cons head rest ih =>
      obtain ⟨fresh, rest'⟩ := List.nodup_cons.mp nodup
      by_cases same : head.1 = k
      · subst same
        have outside : ∀ e ∈ rest, e.1 ≠ head.1 :=
          fun e mem eq => fresh (List.mem_map.mpr ⟨e, mem, eq⟩)
        simp only [setEntries, if_true, List.mem_cons]
        constructor
        · rintro (eq | mem)
          · exact .inl eq
          · exact .inr ⟨.inr mem, outside _ mem⟩
        · rintro (eq | ⟨rfl | mem, other⟩)
          · exact .inl eq
          · exact absurd rfl other
          · exact .inr mem
      · simp only [setEntries, same, if_false, List.mem_cons, ih rest']
        constructor
        · rintro (rfl | eq | ⟨mem, other⟩)
          · exact .inr ⟨.inl rfl, same⟩
          · exact .inl eq
          · exact .inr ⟨.inr mem, other⟩
        · rintro (eq | ⟨rfl | mem, other⟩)
          · exact .inr (.inl eq)
          · exact .inl rfl
          · exact .inr (.inr ⟨mem, other⟩)

/-- Later pairs overwrite: an entry comes from the pairs, or from an old key outside them. -/
theorem mem_insertAll {pairs : List (κ × α)} {entry : κ × α}
    (mem : entry ∈ (m.insertAll pairs).entries) :
    entry ∈ pairs ∨ entry ∈ m.entries ∧ entry.1 ∉ pairs.map Prod.fst := by
  induction pairs generalizing m with
  | nil => exact .inr ⟨mem, List.not_mem_nil⟩
  | cons pair rest ih =>
      rcases ih mem with later | ⟨first, outside⟩
      · exact .inl (List.mem_cons_of_mem _ later)
      · rcases mem_set.mp first with rfl | ⟨old, other⟩
        · exact .inl List.mem_cons_self
        · refine .inr ⟨old, ?_⟩
          simp only [List.map_cons, List.mem_cons, not_or]
          exact ⟨other, outside⟩

theorem mem_insertAll_of_notMem {pairs : List (κ × α)} {entry : κ × α} (mem : entry ∈ m.entries)
    (outside : entry.1 ∉ pairs.map Prod.fst) : entry ∈ (m.insertAll pairs).entries := by
  induction pairs generalizing m with
  | nil => exact mem
  | cons pair rest ih =>
      simp only [List.map_cons, List.mem_cons, not_or] at outside
      exact ih (mem_set.mpr (.inr ⟨mem, outside.1⟩)) outside.2

/-- Pairs under different keys are all kept. -/
theorem mem_insertAll_of_nodup {pairs : List (κ × α)} (nodup : (pairs.map Prod.fst).Nodup)
    {entry : κ × α} (mem : entry ∈ pairs) : entry ∈ (m.insertAll pairs).entries := by
  induction pairs generalizing m with
  | nil => cases mem
  | cons pair rest ih =>
      obtain ⟨fresh, rest'⟩ := List.nodup_cons.mp nodup
      rcases List.mem_cons.mp mem with rfl | later
      · change entry ∈ ((m.set entry.1 entry.2).insertAll rest).entries
        exact mem_insertAll_of_notMem (mem_set.mpr (.inl rfl)) fresh
      · exact ih rest' later

theorem mem_ofList {pairs : List (κ × α)} {entry : κ × α} (mem : entry ∈ (ofList pairs).entries) :
    entry ∈ pairs :=
  (mem_insertAll mem).resolve_right fun ⟨old, _⟩ => List.not_mem_nil old

theorem mem_ofList_iff {pairs : List (κ × α)} (nodup : (pairs.map Prod.fst).Nodup)
    {entry : κ × α} : entry ∈ (ofList pairs).entries ↔ entry ∈ pairs :=
  ⟨mem_ofList, mem_insertAll_of_nodup nodup⟩

theorem get?_eq_some : m.get? k = some a ↔ (k, a) ∈ m.entries := by
  constructor
  · intro found
    obtain ⟨⟨k', a'⟩, at_, rfl⟩ := Option.map_eq_some_iff.mp found
    have same : k' = k := by simpa using List.find?_some at_
    exact same ▸ List.mem_of_find?_eq_some at_
  · intro mem
    have nodup := m.nodup
    unfold get?
    generalize m.entries = entries at mem nodup
    induction entries with
    | nil => cases mem
    | cons head rest ih =>
        obtain ⟨fresh, rest'⟩ := List.nodup_cons.mp nodup
        rcases List.mem_cons.mp mem with rfl | later
        · simp
        · have other : head.1 ≠ k := fun same =>
            fresh (List.mem_map.mpr ⟨(k, a), later, same.symm⟩)
          simpa [List.find?_cons, other] using ih later rest'

theorem has_iff : m.has k = true ↔ ∃ a, (k, a) ∈ m.entries := by
  simp [has]

omit [DecidableEq κ] in
theorem mem_values : a ∈ m.values ↔ ∃ k, (k, a) ∈ m.entries := by
  simp [values]

def delete (m : JsMap κ α) (k : κ) : JsMap κ α :=
  ⟨m.entries.filter fun entry => entry.1 ≠ k, m.nodup.sublist (List.filter_sublist.map _)⟩

theorem mem_delete {entry : κ × α} :
    entry ∈ (m.delete k).entries ↔ entry ∈ m.entries ∧ entry.1 ≠ k := by
  simp [delete]

@[simp] theorem get?_empty : (empty : JsMap κ α).get? k = none := rfl

theorem get?_eq_none : m.get? k = none ↔ k ∉ m.keys := by
  simp only [get?, keys, Option.map_eq_none_iff, List.find?_eq_none, List.mem_map, not_exists,
    not_and, decide_eq_true_eq, Prod.forall]

@[simp] theorem get?_set_self : (m.set k a).get? k = some a :=
  get?_eq_some.mpr (mem_set.mpr (.inl rfl))

theorem get?_set_of_ne (other : k' ≠ k) : (m.set k a).get? k' = m.get? k' := by
  ext b
  rw [get?_eq_some, get?_eq_some, mem_set]
  constructor
  · rintro (same | ⟨old, -⟩)
    · exact absurd (congrArg Prod.fst same) other
    · exact old
  · exact fun old => .inr ⟨old, other⟩

theorem get?_delete : (m.delete k).get? k' = if k' = k then none else m.get? k' := by
  ext b
  rw [get?_eq_some, mem_delete]
  split <;> simp_all [get?_eq_some]

theorem get?_unique (first : (k, a) ∈ m.entries) (second : (k, b) ∈ m.entries) : a = b :=
  Option.some.inj ((get?_eq_some.mpr first).symm.trans (get?_eq_some.mpr second))

/-- What the entries of a map add up to under a measure. -/
def total (f : κ → α → Nat) (m : JsMap κ α) : Nat :=
  (m.entries.map fun entry => f entry.1 entry.2).sum

/-- What the entry under a key contributes. -/
def share (f : κ → α → Nat) (m : JsMap κ α) (k : κ) : Nat := ((m.get? k).map (f k)).getD 0

theorem total_set (f : κ → α → Nat) :
    (m.set k a).total f + m.share f k = m.total f + f k a := by
  obtain ⟨entries, nodup⟩ := m
  unfold total set share get?
  dsimp only
  induction entries with
  | nil => simp [setEntries]
  | cons head rest ih =>
      have tail := ih (List.nodup_cons.mp nodup).2
      by_cases same : head.1 = k
      · subst same
        simp only [setEntries, if_true, List.map_cons, List.sum_cons, decide_true,
          List.find?_cons_of_pos, Option.map_some, Option.getD_some]
        omega
      · simp only [setEntries, same, if_false, List.map_cons, List.sum_cons, decide_false,
          Bool.false_eq_true, not_false_eq_true, List.find?_cons_of_neg]
        omega

theorem total_delete (f : κ → α → Nat) :
    (m.delete k).total f + m.share f k = m.total f := by
  obtain ⟨entries, nodup⟩ := m
  unfold total delete share get?
  dsimp only
  induction entries with
  | nil => simp
  | cons head rest ih =>
      obtain ⟨fresh, rest'⟩ := List.nodup_cons.mp nodup
      have tail := ih rest'
      simp only [ne_eq] at tail ⊢
      by_cases same : head.1 = k
      · subst same
        have outside : ∀ e ∈ rest, e.1 ≠ head.1 :=
          fun e mem eq => fresh (List.mem_map.mpr ⟨e, mem, eq⟩)
        have kept : rest.filter (fun entry => decide (¬entry.1 = head.1)) = rest :=
          List.filter_eq_self.mpr (by simpa using outside)
        simp only [not_true_eq_false, decide_false, Bool.false_eq_true, not_false_eq_true,
          List.filter_cons_of_neg, List.map_cons, List.sum_cons, decide_true,
          List.find?_cons_of_pos, Option.map_some, Option.getD_some, kept]
        omega
      · simp only [same, not_false_eq_true, decide_true, List.filter_cons_of_pos,
          List.map_cons, List.sum_cons, decide_false, Bool.false_eq_true,
          List.find?_cons_of_neg]
        omega

theorem share_of_get? {f : κ → α → Nat} (found : m.get? k = some a) : m.share f k = f k a := by
  simp [share, found]

theorem share_of_none {f : κ → α → Nat} (absent : m.get? k = none) : m.share f k = 0 := by
  simp [share, absent]

end JsMap

namespace JsArray

variable {α : Type*}

/-- `toSorted` with a comparator, given by when it is negative. -/
def toSorted (before : α → α → Bool) (xs : List α) : List α :=
  xs.insertionSort fun left right => before right left = false

theorem toSorted_perm (before : α → α → Bool) (xs : List α) : (toSorted before xs).Perm xs :=
  List.perm_insertionSort _ xs

@[simp] theorem mem_toSorted {before : α → α → Bool} {xs : List α} {x : α} :
    x ∈ toSorted before xs ↔ x ∈ xs :=
  (toSorted_perm before xs).mem_iff

/-- Sorted strings depend on the elements only. -/
theorem toSorted_lt_eq_of_perm {xs ys : List String} (perm : xs.Perm ys) :
    toSorted JsText.lt xs = toSorted JsText.lt ys := by
  let le := fun left right : String => JsText.lt right left = false
  have total : Std.Total le :=
    ⟨fun a b => by simpa only [le, JsText.lt_eq_false] using le_total (JsText.units a) (JsText.units b)⟩
  have trans : IsTrans String le :=
    ⟨fun a b c => by simpa only [le, JsText.lt_eq_false] using le_trans⟩
  refine List.Perm.eq_of_pairwise (fun a b _ _ ab ba => ?_)
    (List.pairwise_insertionSort le xs) (List.pairwise_insertionSort le ys)
    ((toSorted_perm JsText.lt xs).trans (perm.trans (toSorted_perm JsText.lt ys).symm))
  exact JsText.units_injective
    (le_antisymm (JsText.lt_eq_false.mp ab) (JsText.lt_eq_false.mp ba))

/-- The comparator chain `compare left right || rest` on strings. -/
def thenBy (left right : String) (rest : Bool) : Bool :=
  if JsText.lt left right then true else if JsText.lt right left then false else rest

/-- `new Set(xs).size`. -/
def distinct [DecidableEq α] (xs : List α) : Nat := xs.dedup.length

theorem distinct_eq_card [DecidableEq α] (xs : List α) : distinct xs = xs.toFinset.card :=
  (List.card_toFinset xs).symm

theorem distinct_eq_length_iff [DecidableEq α] {xs : List α} :
    distinct xs = xs.length ↔ xs.Nodup := by
  refine ⟨fun same => ?_, fun nodup => by rw [distinct, nodup.dedup]⟩
  rw [← List.dedup_eq_self]
  exact (List.dedup_sublist xs).eq_of_length same

theorem perm_dedup_of_nodup [DecidableEq α] {xs ys : List α} (nodup : xs.Nodup)
    (same : ∀ x, x ∈ xs ↔ x ∈ ys) : xs.Perm ys.dedup :=
  (List.perm_ext_iff_of_nodup nodup (List.nodup_dedup ys)).mpr fun x => by
    rw [List.mem_dedup, same]

theorem distinct_le_of_subset [DecidableEq α] {xs ys : List α} (sub : xs ⊆ ys) :
    distinct xs ≤ distinct ys := by
  rw [distinct_eq_card, distinct_eq_card]
  exact Finset.card_le_card fun x mem => by simpa using sub (by simpa using mem)

theorem distinct_congr [DecidableEq α] {xs ys : List α} (same : ∀ x, x ∈ xs ↔ x ∈ ys) :
    distinct xs = distinct ys :=
  (distinct_le_of_subset fun x => (same x).mp).antisymm
    (distinct_le_of_subset fun x => (same x).mpr)

end JsArray

namespace JsMap

variable {κ α : Type*} [DecidableEq κ] {m : JsMap κ α}

/-- A map is as large as the set of its keys, however they are listed. -/
theorem size_eq_distinct {keys : List κ} (same : ∀ k, k ∈ m.keys ↔ k ∈ keys) :
    m.size = JsArray.distinct keys := by
  have perm := JsArray.perm_dedup_of_nodup m.nodup same
  rw [JsArray.distinct, ← perm.length_eq, List.length_map, size]

end JsMap

/-!
`toSorted` with a comparator that compares keys of a linear order: the result is ordered by
the keys, and where different elements have different keys it depends on the elements only.
-/

namespace JsArray

variable {α β : Type*} [LinearOrder β] {before : α → α → Bool} {key : α → β} {xs ys : List α}

/-- The comparator is negative where the first key is smaller. -/
def ComparesBy (before : α → α → Bool) (key : α → β) : Prop :=
  ∀ left right, before left right = false ↔ key right ≤ key left

theorem pairwise_toSorted (compares : ComparesBy before key) (xs : List α) :
    (toSorted before xs).Pairwise fun left right => key left ≤ key right := by
  let le := fun left right : α => before right left = false
  have total : Std.Total le := ⟨fun a b => by
    simpa only [le, compares b a, compares a b] using le_total (key a) (key b)⟩
  have trans : IsTrans α le := ⟨fun a b c => by
    simpa only [le, compares b a, compares c b, compares c a] using le_trans⟩
  exact (List.pairwise_insertionSort le xs).imp fun {a b} before_ => (compares b a).mp before_

theorem toSorted_eq_of_perm (compares : ComparesBy before key)
    (apart : ∀ a ∈ xs, ∀ b ∈ xs, key a = key b → a = b) (perm : xs.Perm ys) :
    toSorted before xs = toSorted before ys := by
  refine List.Perm.eq_of_pairwise (fun a b memA memB ab ba => ?_)
    (pairwise_toSorted compares xs) (pairwise_toSorted compares ys)
    ((toSorted_perm before xs).trans (perm.trans (toSorted_perm before ys).symm))
  exact apart a (mem_toSorted.mp memA) b (perm.mem_iff.mpr (mem_toSorted.mp memB)) (le_antisymm ab ba)

/-- Where different elements have different keys, the keys of the result strictly increase. -/
theorem pairwise_lt_toSorted (compares : ComparesBy before key) (nodup : (xs.map key).Nodup) :
    (toSorted before xs).Pairwise fun left right => key left < key right := by
  have apart : ((toSorted before xs).map key).Nodup :=
    ((toSorted_perm before xs).map key).nodup_iff.mpr nodup
  exact (pairwise_toSorted compares xs).imp₂ (fun _ _ le ne => lt_of_le_of_ne le ne)
    (List.pairwise_map.mp apart)

theorem lt_iff {left right : String} :
    JsText.lt left right = true ↔ JsText.units left < JsText.units right := by
  rw [← not_le, ← JsText.lt_eq_false, Bool.not_eq_false]

theorem comparesBy_lt {name : α → String} :
    ComparesBy (fun left right => JsText.lt (name left) (name right)) (JsText.units ∘ name) :=
  fun _ _ => JsText.lt_eq_false

end JsArray
