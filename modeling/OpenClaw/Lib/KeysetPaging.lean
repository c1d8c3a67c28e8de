import Mathlib

/-!
Reading an ordered collection page by page, where each page resumes after the key of the last
item of the page before. The collection may change between two pages: an item that stays is
on exactly one page, since its key is passed exactly once.
-/

namespace KeysetPaging

variable {α β : Type*} [LinearOrder β] (key : α → β) (limit : Nat)

/-- Past the cursor, or anywhere without one. -/
def After (cursor : Option β) (x : α) : Prop := ∀ k ∈ cursor, k < key x

instance (cursor : Option β) : DecidablePred (After key cursor) := fun x =>
  inferInstanceAs (Decidable (∀ k ∈ cursor, k < key x))

def eligible (items : List α) (cursor : Option β) : List α :=
  items.filter fun x => After key cursor x

def page (items : List α) (cursor : Option β) : List α := (eligible key items cursor).take limit

/-- Where the next page resumes, if items are left. -/
def next (items : List α) (cursor : Option β) : Option β :=
  if (page key limit items cursor).length < (eligible key items cursor).length then
    (page key limit items cursor).getLast?.map key
  else none

/-- The pages from a cursor on; the items are read at every page again. -/
inductive Walk (read : Nat → List α) : Nat → Option β → List (List α) → Prop
  | last {n : Nat} {cursor : Option β} (done : next key limit (read n) cursor = none) :
      Walk read n cursor [page key limit (read n) cursor]
  | more {n : Nat} {cursor : Option β} {k : β} {pages : List (List α)}
      (resumes : next key limit (read n) cursor = some k) (rest : Walk read (n + 1) (some k) pages) :
      Walk read n cursor (page key limit (read n) cursor :: pages)

variable {key limit} {items : List α} {cursor : Option β} {read : Nat → List α} {n : Nat} {k : β}
  {pages pages' : List (List α)} {x y : α}

/-- The keys strictly increase. -/
def Ordered (key : α → β) (items : List α) : Prop := items.Pairwise fun a b => key a < key b

theorem mem_eligible : x ∈ eligible key items cursor ↔ x ∈ items ∧ After key cursor x := by
  simp [eligible]

theorem ordered_eligible (ordered : Ordered key items) (cursor : Option β) :
    Ordered key (eligible key items cursor) :=
  ordered.filter _

theorem Ordered.eq_of_key (ordered : Ordered key items) (memX : x ∈ items) (memY : y ∈ items)
    (same : key x = key y) : x = y := by
  have apart : (items.map key).Nodup :=
    List.pairwise_map.mpr (ordered.imp fun {a b} before => ne_of_lt before)
  exact List.inj_on_of_nodup_map apart memX memY same

/-- In an ordered list only the one item has its key. -/
theorem Ordered.filter_key (ordered : Ordered key items) (mem : x ∈ items) :
    items.filter (fun y => key y = key x) = [x] := by
  induction items with
  | nil => cases mem
  | cons z zs ih =>
      obtain ⟨first, rest⟩ := List.pairwise_cons.mp ordered
      rcases List.mem_cons.mp mem with rfl | later
      · have none : zs.filter (fun y => key y = key x) = [] := by
          simpa [List.filter_eq_nil_iff] using fun y inside => (first y inside).ne'
        rw [List.filter_cons_of_pos (by simp), none]
      · have apart : key z ≠ key x := (first x later).ne
        rw [List.filter_cons_of_neg (by simpa using apart), ih rest later]

theorem filter_key_of_apart (apart : ∀ y ∈ items, key y ≠ key x) :
    items.filter (fun y => key y = key x) = [] := by
  simpa [List.filter_eq_nil_iff] using apart

/-- The next cursor cuts the eligible items at the end of the page. -/
theorem exists_of_next (resumes : next key limit items cursor = some k) :
    ∃ z ∈ page key limit items cursor, key z = k := by
  unfold next at resumes
  split at resumes
  · obtain ⟨z, last, same⟩ := Option.map_eq_some_iff.mp resumes
    exact ⟨z, List.mem_of_getLast? last, same⟩
  · cases resumes

theorem next_le (ordered : Ordered key items) (resumes : next key limit items cursor = some k)
    (mem : x ∈ page key limit items cursor) : key x ≤ k := by
  unfold next at resumes
  split at resumes
  · obtain ⟨z, last, rfl⟩ := Option.map_eq_some_iff.mp resumes
    have cut : Ordered key (page key limit items cursor) :=
      (ordered_eligible ordered cursor).sublist (List.take_sublist _ _)
    obtain ⟨front, same⟩ := List.getLast?_eq_some_iff.mp last
    rw [same] at mem cut
    rcases List.mem_append.mp mem with inside | inside
    · exact ((List.pairwise_append.mp cut).2.2 x inside z (List.mem_singleton.mpr rfl)).le
    · rw [List.mem_singleton.mp inside]
  · cases resumes

theorem next_lt (ordered : Ordered key items) (resumes : next key limit items cursor = some k)
    (mem : x ∈ (eligible key items cursor).drop limit) : k < key x := by
  obtain ⟨z, inside, rfl⟩ := exists_of_next resumes
  have cut := ordered_eligible ordered cursor
  rw [Ordered, ← List.take_append_drop limit (eligible key items cursor)] at cut
  exact (List.pairwise_append.mp cut).2.2 z inside x mem

theorem page_of_done (done : next key limit items cursor = none) (room : 1 ≤ limit) :
    page key limit items cursor = eligible key items cursor := by
  unfold next at done
  split at done
  case isTrue fewer =>
    have empty : page key limit items cursor = [] := by simpa using done
    rw [empty, List.length_nil] at fewer
    have length : (page key limit items cursor).length = 0 := by rw [empty, List.length_nil]
    rw [page, List.length_take] at length
    omega
  case isFalse all =>
    refine List.take_of_length_le (not_lt.mp fun more => all ?_)
    rwa [page, List.length_take_of_le more.le]

/-- What a walk returns was read at one of its pages. -/
theorem Walk.exists_mem (walk : Walk key limit read n cursor pages) (mem : x ∈ pages.flatten) :
    ∃ m, n ≤ m ∧ m < n + pages.length ∧ x ∈ read m := by
  induction walk with
  | @last n cursor done =>
      rw [List.flatten_singleton] at mem
      exact ⟨n, le_rfl, by simp, (mem_eligible.mp (List.mem_of_mem_take mem)).1⟩
  | @more n cursor k pages resumes _ ih =>
      rw [List.flatten_cons, List.mem_append] at mem
      rcases mem with here | later
      · exact ⟨n, le_rfl, by simp, (mem_eligible.mp (List.mem_of_mem_take here)).1⟩
      · obtain ⟨m, from_, to_, inside⟩ := ih later
        exact ⟨m, by omega, by rw [List.length_cons]; omega, inside⟩

/-- Items that stay are returned once if the cursor has not passed them, else not at all. -/
theorem Walk.filter_key (room : 1 ≤ limit) (ordered : ∀ m, Ordered key (read m))
    (stays : ∀ m, n ≤ m → m < n + pages.length → x ∈ read m)
    (walk : Walk key limit read n cursor pages) :
    pages.flatten.filter (fun y => key y = key x) = if After key cursor x then [x] else [] := by
  have passed : ∀ {n cursor}, x ∈ read n → ¬ After key cursor x →
      (page key limit (read n) cursor).filter (fun y => key y = key x) = [] := by
    intro n cursor inside passed
    refine filter_key_of_apart fun y mem same => passed ?_
    obtain ⟨inside', after⟩ := mem_eligible.mp (List.mem_of_mem_take mem)
    exact (ordered n).eq_of_key inside' inside same ▸ after
  induction walk with
  | @last n cursor done =>
      have inside : x ∈ read n := stays n le_rfl (by simp)
      rw [List.flatten_singleton]
      by_cases after : After key cursor x
      · rw [if_pos after, page_of_done done room]
        exact (ordered_eligible (ordered n) cursor).filter_key (mem_eligible.mpr ⟨inside, after⟩)
      · rw [if_neg after, passed inside after]
  | @more n cursor k pages resumes _ ih =>
      have inside : x ∈ read n := stays n le_rfl (by simp)
      have later : ∀ m, n + 1 ≤ m → m < n + 1 + pages.length → x ∈ read m := fun m from_ to_ =>
        stays m (by omega) (by rw [List.length_cons]; omega)
      rw [List.flatten_cons, List.filter_append, ih later]
      have cut : After key (some k) x ↔ k < key x := by simp [After]
      by_cases after : After key cursor x
      · rw [if_pos after]
        have mem := mem_eligible.mpr ⟨inside, after⟩
        rw [← List.take_append_drop limit (eligible key (read n) cursor)] at mem
        rcases List.mem_append.mp mem with here | beyond
        · have not_after : ¬ After key (some k) x :=
            cut.not.mpr (not_lt.mpr (next_le (ordered n) resumes here))
          have whole := (ordered_eligible (ordered n) cursor).sublist
            (List.take_sublist limit _)
          rw [if_neg not_after, List.append_nil]
          exact Ordered.filter_key whole here
        · have past := next_lt (ordered n) resumes beyond
          have apart : ∀ y ∈ page key limit (read n) cursor, key y ≠ key x := fun y mem =>
            ((next_le (ordered n) resumes mem).trans_lt past).ne
          rw [if_pos (cut.mpr past), filter_key_of_apart apart, List.nil_append]
      · obtain ⟨z, mem, rfl⟩ := exists_of_next resumes
        have after_z := (mem_eligible.mp (List.mem_of_mem_take mem)).2
        have not_after : ¬ After key (some (key z)) x := fun beyond => after fun k at_ =>
          (after_z k at_).trans (cut.mp beyond)
        rw [if_neg after, if_neg not_after, passed inside after, List.nil_append]

/-- After the next cursor, the eligible items are those behind the page. -/
theorem eligible_next (ordered : Ordered key items)
    (resumes : next key limit items cursor = some k) :
    eligible key items (some k) = (eligible key items cursor).drop limit := by
  obtain ⟨z, mem, same⟩ := exists_of_next resumes
  have after_z := (mem_eligible.mp (List.mem_of_mem_take mem)).2
  have narrower : eligible key items (some k) =
      (eligible key items cursor).filter fun x => After key (some k) x := by
    rw [eligible, eligible, List.filter_filter]
    refine List.filter_congr fun x _ => ?_
    have implied : After key (some k) x → After key cursor x := fun after c at_ =>
      (after_z c at_).trans (same ▸ after k rfl)
    by_cases after : After key (some k) x
    · simp [after, implied after]
    · simp [after]
  have front : (page key limit items cursor).filter (fun x => After key (some k) x) = [] := by
    rw [List.filter_eq_nil_iff]
    intro x inside
    simpa [After] using next_le ordered resumes inside
  have back : ((eligible key items cursor).drop limit).filter (fun x => After key (some k) x) =
      (eligible key items cursor).drop limit := by
    rw [List.filter_eq_self]
    intro x inside
    simpa [After] using next_lt ordered resumes inside
  calc eligible key items (some k)
      = (page key limit items cursor ++ (eligible key items cursor).drop limit).filter
          fun x => After key (some k) x := by rw [narrower, page, List.take_append_drop]
    _ = (eligible key items cursor).drop limit := by
        rw [List.filter_append, front, back, List.nil_append]

/-- A collection that does not change is walked to its end, in its order. -/
theorem exists_walk (room : 1 ≤ limit) (ordered : Ordered key items) (n : Nat)
    (cursor : Option β) : ∃ pages, Walk key limit (fun _ => items) n cursor pages ∧
      pages.flatten = eligible key items cursor := by
  induction left : (eligible key items cursor).length using Nat.strong_induction_on
    generalizing n cursor with
  | _ count ih =>
      cases resumes : next key limit items cursor with
      | none =>
          exact ⟨_, .last resumes, by rw [List.flatten_singleton, page_of_done resumes room]⟩
      | some k =>
          obtain ⟨z, mem, _⟩ := exists_of_next resumes
          have some_ := List.length_pos_of_mem (List.mem_of_mem_take mem)
          have fewer : (eligible key items (some k)).length < count := by
            rw [eligible_next ordered resumes, List.length_drop]
            omega
          obtain ⟨pages, walk, all⟩ := ih _ fewer (n + 1) (some k) rfl
          refine ⟨_, .more resumes walk, ?_⟩
          rw [List.flatten_cons, all, eligible_next ordered resumes, page, List.take_append_drop]

theorem Walk.eq (walk : Walk key limit read n cursor pages)
    (other : Walk key limit read n cursor pages') : pages = pages' := by
  induction walk generalizing pages' with
  | last done =>
      cases other with
      | last => rfl
      | more resumes => simp [done] at resumes
  | more resumes _ ih =>
      cases other with
      | last done => simp [done] at resumes
      | more resumes' rest =>
          obtain rfl := Option.some.inj (resumes.symm.trans resumes')
          rw [ih rest]

end KeysetPaging
