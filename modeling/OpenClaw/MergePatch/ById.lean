import OpenClaw.MergePatch.Patch
import OpenClaw.Lib.KeyedLists

/-!
Arrays merged by id. An entry of the base stays at its place, merged with the entries of the
patch that have its id where it is the last one with that id; entries with new ids, and those
without one, come behind in the order of the patch.
-/

namespace OpenClaw.MergePatch

open JsUnits JsMembers

variable {ν : Type} {options : MergePatchOptions} {path id : Text} {i n : Nat}
  {base patch merged : List (JsValue ν)} {entry patchEntry : JsValue ν} {index : JsMap Text Nat}

/-- The entries of a patch with an id. -/
def mentions (id : Text) (patch : List (JsValue ν)) : List (JsValue ν) :=
  patch.filter fun patchEntry => stringId? patchEntry = some id

def mergeEntry (options : MergePatchOptions) (arrayPath : Text) (entry patchEntry : JsValue ν) :
    JsValue ν :=
  applyMergePatch options (formatMergePatchArrayEntryPath arrayPath) entry patchEntry

/-- What a patch puts behind entries with the known ids. -/
def appended (options : MergePatchOptions) (arrayPath : Text) (known : Text → Bool) :
    List (JsValue ν) → List (JsValue ν)
  | [] => []
  | patchEntry :: rest =>
      match stringId? patchEntry with
      | none => patchEntry :: appended options arrayPath known rest
      | some id =>
          if known id then appended options arrayPath known rest
          else
            (mentions id rest).foldl (mergeEntry options arrayPath) patchEntry ::
              appended options arrayPath (fun other => other = id || known other) rest

/-- The entries of a patch that go to place `i`. -/
def goingTo (index : JsMap Text Nat) (i : Nat) (patch : List (JsValue ν)) : List (JsValue ν) :=
  patch.filter fun patchEntry => (stringId? patchEntry).bind index.get? = some i

def Bounded (index : JsMap Text Nat) (n : Nat) : Prop := ∀ id i, index.get? id = some i → i < n

theorem goingTo_of_bounded (bounded : Bounded index n) : goingTo index n patch = [] := by
  refine List.filter_eq_nil_iff.mpr fun patchEntry _ => ?_
  rw [decide_eq_true_eq]
  intro same
  obtain ⟨id, -, there⟩ := Option.bind_eq_some_iff.mp same
  exact Nat.lt_irrefl _ (bounded id n there)

theorem goingTo_set (below : i < n) (fresh : index.get? id = none) :
    goingTo (index.set id n) i patch = goingTo index i patch := by
  refine List.filter_congr fun patchEntry _ => ?_
  cases stringId? patchEntry with
  | none => rfl
  | some other =>
      by_cases same : other = id
      · subst same
        simp [fresh, below.ne']
      · simp [JsMap.get?_set_of_ne same]

theorem goingTo_set_self (bounded : Bounded index n) :
    goingTo (index.set id n) n patch = mentions id patch := by
  refine List.filter_congr fun patchEntry _ => ?_
  cases stringId? patchEntry with
  | none => simp
  | some other =>
      by_cases same : other = id
      · subst same
        simp
      · have outside : index.get? other ≠ some n := fun there =>
          Nat.lt_irrefl _ (bounded other n there)
        simp [JsMap.get?_set_of_ne same, same, outside]

theorem has_set {value : Nat} : (index.set id value).has =
    fun other => decide (other = id) || index.has other := by
  funext other
  rw [Bool.eq_iff_iff, JsMap.has_iff, Bool.or_eq_true, decide_eq_true_eq, JsMap.has_iff]
  simp only [← JsMap.get?_eq_some]
  by_cases same : other = id
  · subst same
    simp
  · simp [JsMap.get?_set_of_ne same, same]

theorem has_eq_false : index.has id = false ↔ index.get? id = none := by
  rw [← Bool.not_eq_true, JsMap.has_iff]
  simp only [← JsMap.get?_eq_some]
  cases index.get? id <;> simp

theorem bounded_set (bounded : Bounded index n) : Bounded (index.set id n) (n + 1) := by
  intro other i there
  by_cases same : other = id
  · subst same
    rw [JsMap.get?_set_self] at there
    cases there
    exact Nat.lt_succ_self _
  · rw [JsMap.get?_set_of_ne same] at there
    exact Nat.lt_succ_of_lt (bounded other i there)

/-- The loop over a patch: every place takes the entries that go to it, the rest comes behind. -/
theorem mergeObjectArraysById_eq (bounded : Bounded index merged.length) :
    mergeObjectArraysById options path merged index patch =
      (merged.mapIdx fun i entry => (goingTo index i patch).foldl (mergeEntry options path) entry) ++
        appended options path index.has patch := by
  induction patch generalizing merged index with
  | nil =>
      rw [mergeObjectArraysById, appended, List.append_nil]
      exact (List.ext_getElem (by simp) fun i _ _ => by simp [goingTo]).symm
  | cons patchEntry rest ih =>
      rw [mergeObjectArraysById, appended]
      cases known : stringId? patchEntry with
      | none =>
          have skip : ∀ i, goingTo index i (patchEntry :: rest) = goingTo index i rest := fun i =>
            List.filter_cons_of_neg (by simp [known])
          simp only [skip]
          rw [ih (fun id i there => by simpa using Nat.lt_succ_of_lt (bounded id i there)),
            List.mapIdx_concat, goingTo_of_bounded bounded, List.append_assoc]
          rfl
      | some id =>
          dsimp only
          cases there : index.get? id with
          | none =>
              have skip : ∀ i, goingTo index i (patchEntry :: rest) = goingTo index i rest := fun i =>
                List.filter_cons_of_neg (by simp [known, there])
              simp only [skip, has_eq_false.mpr there, if_neg Bool.false_ne_true]
              rw [ih (by simpa using bounded_set bounded), List.mapIdx_concat,
                goingTo_set_self bounded, has_set, List.append_assoc]
              congr 1
              refine List.ext_getElem (by simp) fun i here _ => ?_
              rw [List.length_mapIdx] at here
              simp [goingTo_set here there]
          | some existing =>
              have has : index.has id = true := by
                rw [JsMap.has_iff]
                exact ⟨existing, JsMap.get?_eq_some.mp there⟩
              simp only [has, if_true]
              rw [ih (by simpa using bounded)]
              congr 1
              refine List.ext_getElem (by simp) fun i here _ => ?_
              rw [List.length_mapIdx, List.length_modify] at here
              simp only [List.getElem_mapIdx, List.getElem_modify]
              by_cases same : existing = i
              · subst same
                have first : goingTo index existing (patchEntry :: rest) =
                    patchEntry :: goingTo index existing rest :=
                  List.filter_cons_of_pos (by simp [known, there])
                rw [if_pos rfl, first, List.foldl_cons]
                rfl
              · have skip : goingTo index i (patchEntry :: rest) = goingTo index i rest :=
                  List.filter_cons_of_neg (by simp [known, there, same])
                rw [if_neg same, skip]

/-- The id of the entry at a place. -/
def idAt (base : List (JsValue ν)) (i : Nat) : Option Text := (base[i]?).bind stringId?

/-- Place `i` is the last one with an id. -/
def LastWith (base : List (JsValue ν)) (id : Text) (i : Nat) : Prop :=
  idAt base i = some id ∧ ∀ j, i < j → idAt base j ≠ some id

theorem idAt_concat_of_lt (below : i < base.length) : idAt (base ++ [entry]) i = idAt base i := by
  rw [idAt, List.getElem?_append_left below, idAt]

theorem idAt_concat_length : idAt (base ++ [entry]) base.length = stringId? entry := by
  simp [idAt]

theorem idAt_of_le (outside : base.length ≤ i) : idAt base i = none := by
  rw [idAt, List.getElem?_eq_none outside, Option.bind_none]

theorem lt_of_idAt (same : idAt base i = some id) : i < base.length := by
  by_contra outside
  rw [idAt_of_le (Nat.le_of_not_lt outside)] at same
  cases same

theorem lastWith_concat : LastWith (base ++ [entry]) id i ↔
    i = base.length ∧ stringId? entry = some id ∨ stringId? entry ≠ some id ∧ LastWith base id i := by
  constructor
  · rintro ⟨here, later⟩
    rcases Nat.lt_trichotomy i base.length with below | rfl | above
    · refine .inr ⟨?_, idAt_concat_of_lt below ▸ here, fun j after there => ?_⟩
      · rw [← @idAt_concat_length _ base]
        exact later _ below
      · have inside := lt_of_idAt there
        exact later j after (idAt_concat_of_lt inside ▸ there)
    · exact .inl ⟨rfl, @idAt_concat_length _ base _ ▸ here⟩
    · rw [idAt_of_le (by simp; omega)] at here
      cases here
  · rintro (⟨rfl, same⟩ | ⟨other, here, later⟩)
    · refine ⟨idAt_concat_length.trans same, fun j after there => ?_⟩
      rw [idAt_of_le (by simp; omega)] at there
      cases there
    · have below := lt_of_idAt here
      refine ⟨(idAt_concat_of_lt below).trans here, fun j after there => ?_⟩
      rcases Nat.lt_trichotomy j base.length with inside | rfl | outside
      · exact later j after (idAt_concat_of_lt inside ▸ there)
      · exact other (@idAt_concat_length _ base _ ▸ there)
      · rw [idAt_of_le (by simp; omega)] at there
        cases there

theorem indexById_concat : indexById (base ++ [entry]) =
    match stringId? entry with
    | some id => (indexById base).set id base.length
    | none => indexById base := by
  rw [indexById, List.zipIdx_append, List.foldl_append]
  simp only [List.zipIdx_singleton, List.foldl_cons, List.foldl_nil, Nat.zero_add]
  rfl

theorem get?_indexById : (indexById base).get? id = some i ↔ LastWith base id i := by
  induction base using List.reverseRecOn with
  | nil =>
      refine ⟨fun no => (by cases no), fun both => ?_⟩
      cases lt_of_idAt both.1
  | append_singleton rest entry ih =>
      rw [indexById_concat, lastWith_concat, ← ih]
      cases stringId? entry with
      | none => simp
      | some other =>
          by_cases same : id = other
          · subst same
            simp [eq_comm]
          · simp [JsMap.get?_set_of_ne same, Ne.symm same]

theorem has_indexById : (indexById base).has id = true ↔ ∃ entry ∈ base, stringId? entry = some id := by
  induction base using List.reverseRecOn with
  | nil => simp [indexById, JsMap.has, JsMap.empty]
  | append_singleton rest entry ih =>
      rw [indexById_concat]
      cases known : stringId? entry with
      | none => simp [ih, known]
      | some other =>
          dsimp only
          rw [has_set]
          simp only [Bool.or_eq_true, decide_eq_true_eq, ih, List.mem_append, List.mem_singleton,
            or_and_right, exists_or, exists_eq_left, known, Option.some.injEq]
          rw [or_comm, @eq_comm _ id other]

theorem indexById_bounded : Bounded (indexById base) base.length := fun _ _ there =>
  lt_of_idAt (get?_indexById.mp there).1

/-- What merging by id makes of the entries of a base. -/
structure MergedById (options : MergePatchOptions) (arrayPath : Text)
    (base patch merged : List (JsValue ν)) : Prop where
  unmentioned : ∀ (i : Nat) entry, base[i]? = some entry →
    (∀ id, stringId? entry = some id → mentions id patch = []) → merged[i]? = some entry
  /-- Where ids are repeated, the last entry of an id stands for it. -/
  repeated : ∀ (i : Nat) entry, base[i]? = some entry →
    (∀ id, ¬LastWith base id i) → merged[i]? = some entry
  mentioned : ∀ (i : Nat) entry id, base[i]? = some entry → LastWith base id i →
    merged[i]? = some ((mentions id patch).foldl (mergeEntry options arrayPath) entry)
  appended : merged.drop base.length =
    appended options arrayPath (fun id => base.any fun entry => stringId? entry = some id) patch

theorem goingTo_of_lastWith (last : LastWith base id i) :
    goingTo (indexById base) i patch = mentions id patch := by
  refine List.filter_congr fun patchEntry _ => ?_
  rw [decide_eq_decide, Option.bind_eq_some_iff]
  constructor
  · rintro ⟨other, known, there⟩
    have here := (get?_indexById.mp there).1
    rwa [last.1.symm.trans here]
  · exact fun same => ⟨id, same, get?_indexById.mpr last⟩

theorem goingTo_of_not_lastWith (none : ∀ id, ¬LastWith base id i) :
    goingTo (indexById base) i patch = [] := by
  refine List.filter_eq_nil_iff.mpr fun patchEntry _ => ?_
  rw [decide_eq_true_eq, Option.bind_eq_some_iff]
  rintro ⟨id, -, there⟩
  exact none id (get?_indexById.mp there)

theorem has_indexById_eq :
    (indexById base).has = fun id => base.any fun entry => stringId? entry = some id := by
  funext id
  rw [Bool.eq_iff_iff, has_indexById, List.any_eq_true]
  simp only [decide_eq_true_eq]

theorem mergedById : MergedById options path base patch
    (mergeObjectArraysById options path base (indexById base) patch) := by
  rw [mergeObjectArraysById_eq indexById_bounded, has_indexById_eq]
  have at_ : ∀ (i : Nat) entry, base[i]? = some entry → ∀ rest,
      ((base.mapIdx fun i entry => (goingTo (indexById base) i patch).foldl (mergeEntry options path)
        entry) ++ rest)[i]? = some ((goingTo (indexById base) i patch).foldl
          (mergeEntry options path) entry) := by
    intro i entry found rest
    have below := (List.getElem?_eq_some_iff.mp found).1
    rw [List.getElem?_append_left (by simpa using below), List.getElem?_mapIdx, found]
    rfl
  refine ⟨fun i entry found unmentioned => ?_, fun i entry found none => ?_,
    fun i entry id found last => ?_, ?_⟩
  · rw [at_ i entry found]
    by_cases some : ∃ id, LastWith base id i
    · obtain ⟨id, last⟩ := some
      have known : stringId? entry = some id := by
        have here := last.1
        rwa [idAt, found] at here
      rw [goingTo_of_lastWith last, unmentioned id known]
      rfl
    · rw [goingTo_of_not_lastWith fun id last => some ⟨id, last⟩]
      rfl
  · rw [at_ i entry found, goingTo_of_not_lastWith none]
    rfl
  · rw [at_ i entry found, goingTo_of_lastWith last]
  · rw [List.drop_append_of_le_length (by simp), List.drop_eq_nil_of_le (by simp), List.nil_append]

end OpenClaw.MergePatch
