import Mathlib

/-!
Items that are tried in tiers, and within a tier in their order. What is found first is the
least of the items that hit, by rank and then by order.
-/

namespace Precedence

variable {α : Type*} {rank order : α → Nat} {hits : α → Bool} {items : List α} {item : α}

/-- One item is tried before another. -/
def Before (rank order : α → Nat) (first second : α) : Prop :=
  rank first < rank second ∨ rank first = rank second ∧ order first < order second

/-- An item that hits, and that no other one that hits is tried before. -/
def Least (rank order : α → Nat) (hits : α → Bool) (items : List α) (item : α) : Prop :=
  item ∈ items ∧ hits item = true ∧ ∀ other ∈ items, hits other = true → ¬Before rank order other item

theorem find?_eq_some_iff (sorted : items.Pairwise fun first second => order first < order second) :
    items.find? hits = some item ↔
      item ∈ items ∧ hits item = true ∧ ∀ other ∈ items, hits other = true → order item ≤ order other := by
  induction items with
  | nil => simp
  | cons head rest ih =>
      obtain ⟨below, sorted⟩ := List.pairwise_cons.mp sorted
      by_cases first : hits head = true
      · rw [List.find?_cons_of_pos first]
        constructor
        · rintro ⟨⟩
          refine ⟨List.mem_cons_self, first, fun other mem _ => ?_⟩
          rcases List.mem_cons.mp mem with rfl | later
          · exact le_rfl
          · exact (below other later).le
        · rintro ⟨mem, -, least⟩
          have := least head List.mem_cons_self first
          rcases List.mem_cons.mp mem with rfl | later
          · rfl
          · exact absurd (below item later) (by omega)
      · rw [List.find?_cons_of_neg first, ih sorted]
        constructor
        · rintro ⟨mem, hit, least⟩
          refine ⟨List.mem_cons_of_mem _ mem, hit, fun other mem hit => ?_⟩
          exact least other ((List.mem_cons.mp mem).resolve_left fun same => first (same ▸ hit)) hit
        · rintro ⟨mem, hit, least⟩
          refine ⟨(List.mem_cons.mp mem).resolve_left fun same => first (same ▸ hit), hit, ?_⟩
          exact fun other mem => least other (List.mem_cons_of_mem _ mem)

theorem find?_tier_eq_some_iff (sorted : items.Pairwise fun first second => order first < order second)
    (tier : Nat) : (items.find? fun item => rank item = tier && hits item) = some item ↔
      item ∈ items ∧ (rank item = tier ∧ hits item = true) ∧
        ∀ other ∈ items, rank other = tier ∧ hits other = true → order item ≤ order other := by
  rw [find?_eq_some_iff sorted]
  simp only [Bool.and_eq_true, decide_eq_true_eq]

/-- The tiers one after the other, each with the items of its rank. -/
theorem findSome?_tiers (sorted : items.Pairwise fun first second => order first < order second)
    {ranks : List Nat} (ascending : ranks.Pairwise (· < ·)) :
    (ranks.findSome? fun tier => items.find? fun item => rank item = tier && hits item) = some item ↔
      rank item ∈ ranks ∧ item ∈ items ∧ hits item = true ∧
        ∀ other ∈ items, hits other = true → rank other ∈ ranks → ¬Before rank order other item := by
  induction ranks with
  | nil => simp
  | cons tier ranks ih =>
      obtain ⟨later, ascending⟩ := List.pairwise_cons.mp ascending
      have tier_iff := @find?_tier_eq_some_iff α rank order hits items
      cases found : items.find? fun item => rank item = tier && hits item with
      | some first =>
          obtain ⟨mem, ⟨same, hit⟩, least⟩ := (tier_iff sorted tier).mp found
          rw [List.findSome?_cons_of_isSome (by rw [found]; rfl), found, Option.some.injEq]
          constructor
          · rintro rfl
            refine ⟨same ▸ List.mem_cons_self, mem, hit, fun other here hit' inside => ?_⟩
            rintro (lower | ⟨level, earlier⟩)
            · rcases List.mem_cons.mp inside with equal | above
              · omega
              · have := later _ above
                omega
            · have := least other here ⟨level.trans same, hit'⟩
              omega
          · rintro ⟨inside, mem', hit', minimal⟩
            have notBefore := minimal first mem hit (same ▸ List.mem_cons_self)
            have level : rank item = tier := by
              rcases List.mem_cons.mp inside with equal | above
              · exact equal
              · exact absurd (.inl (by have := later _ above; omega)) notBefore
            refine Option.some.inj (found.symm.trans ((tier_iff sorted tier).mpr
              ⟨mem', ⟨level, hit'⟩, fun other here both => ?_⟩))
            have := minimal other here both.2 (both.1 ▸ List.mem_cons_self)
            by_contra earlier
            exact this (.inr ⟨both.1.trans level.symm, by omega⟩)
      | none =>
          have outside : ∀ other ∈ items, hits other = true → rank other ≠ tier := by
            intro other mem hit same
            have := List.find?_eq_none.mp found other mem
            simp [same, hit] at this
          rw [List.findSome?_cons_of_isNone (by rw [found]; rfl), ih ascending]
          constructor
          · rintro ⟨inside, mem, hit, minimal⟩
            refine ⟨List.mem_cons_of_mem _ inside, mem, hit, fun other here hit' either => ?_⟩
            exact minimal other here hit'
              ((List.mem_cons.mp either).resolve_left (outside other here hit'))
          · rintro ⟨either, mem, hit, minimal⟩
            refine ⟨(List.mem_cons.mp either).resolve_left (outside item mem hit), mem, hit, ?_⟩
            exact fun other here hit' inside => minimal other here hit' (List.mem_cons_of_mem _ inside)

theorem findSome?_eq_some_iff (sorted : items.Pairwise fun first second => order first < order second)
    {ranks : List Nat} (ascending : ranks.Pairwise (· < ·))
    (covered : ∀ item ∈ items, hits item = true → rank item ∈ ranks) :
    (ranks.findSome? fun tier => items.find? fun item => rank item = tier && hits item) = some item ↔
      Least rank order hits items item := by
  rw [findSome?_tiers sorted ascending]
  constructor
  · rintro ⟨-, mem, hit, minimal⟩
    exact ⟨mem, hit, fun other here hit' => minimal other here hit' (covered other here hit')⟩
  · rintro ⟨mem, hit, minimal⟩
    exact ⟨covered item mem hit, mem, hit, fun other here hit' _ => minimal other here hit'⟩

theorem least_filter {kept : α → Bool} : Least rank order hits (items.filter kept) item ↔
    Least rank order (fun item => kept item && hits item) items item := by
  simp only [Least, List.mem_filter, Bool.and_eq_true]
  constructor
  · rintro ⟨⟨mem, keep⟩, hit, minimal⟩
    exact ⟨mem, ⟨keep, hit⟩, fun other here both => minimal other ⟨here, both.1⟩ both.2⟩
  · rintro ⟨mem, ⟨keep, hit⟩, minimal⟩
    exact ⟨⟨mem, keep⟩, hit, fun other here hit' => minimal other here.1 ⟨here.2, hit'⟩⟩

/-- If anything hits, there is a least. -/
theorem Least.unique {other : α} (least : Least rank order hits items item)
    (least' : Least rank order hits items other)
    (injective : ∀ first ∈ items, ∀ second ∈ items, order first = order second → first = second) :
    item = other := by
  have first := least.2.2 other least'.1 least'.2.1
  have second := least'.2.2 item least.1 least.2.1
  simp only [Before, not_or, not_and, not_lt] at first second
  refine injective item least.1 other least'.1 ?_
  have level : rank item = rank other := le_antisymm first.1 second.1
  exact le_antisymm (first.2 level.symm) (second.2 level)

end Precedence
