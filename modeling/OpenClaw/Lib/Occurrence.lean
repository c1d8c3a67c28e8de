import Mathlib

/-!
Where a list occurs in a concatenation. A needle that does not start with a symbol
of a gap occurs in no text that begins inside the gap, and a needle without a
doubled symbol occurs on one of the two sides of a doubled one.
-/

namespace Occurrence

variable {α : Type*} {needle left right : List α} {x : α}

theorem infix_of_infix_append_not_mem (first : needle.head? = some x) :
    ∀ {gap : List α}, x ∉ gap → needle <:+: gap ++ right → needle <:+: right
  | [], _, found => found
  | y :: ys, absent, found => by
      rw [List.cons_append, List.infix_cons_iff] at found
      rcases found with starts | later
      · obtain ⟨tail, same⟩ := starts
        cases needle with
        | nil => simp at first
        | cons z zs =>
            simp only [List.head?_cons, Option.some.injEq] at first
            simp only [List.cons_append, List.cons.injEq] at same
            simp [← same.1, first] at absent
      · exact infix_of_infix_append_not_mem first (fun mem => absent (List.mem_cons_of_mem _ mem))
          later

/-- A prefix of `left ++ [x, x] ++ right` that ends past `left` meets the doubled symbol. -/
theorem prefix_of_prefix_doubled (single : ¬ [x, x] <:+: needle)
    (last : needle.getLast? ≠ some x) (starts : needle <+: left ++ x :: x :: right) :
    needle <+: left := by
  have whole : left <+: left ++ x :: x :: right := List.prefix_append _ _
  rcases List.prefix_or_prefix_of_prefix starts whole with inside | past
  · exact inside
  · obtain ⟨rest, rfl⟩ := past
    rw [List.prefix_append_right_inj] at starts
    match rest, starts with
    | [], _ => simp
    | [y], starts =>
        obtain ⟨tail, same⟩ := starts
        simp only [List.cons_append, List.cons.injEq] at same
        simp [same.1] at last
    | y :: z :: zs, starts =>
        obtain ⟨tail, same⟩ := starts
        simp only [List.cons_append, List.cons.injEq] at same
        refine absurd ?_ single
        rw [same.1, same.2.1]
        exact ⟨left, zs, by simp⟩

theorem infix_doubled_iff (single : ¬ [x, x] <:+: needle) (occupied : needle ≠ [])
    (first : needle.head? ≠ some x) (last : needle.getLast? ≠ some x) :
    needle <:+: left ++ x :: x :: right ↔ needle <:+: left ∨ needle <:+: right := by
  refine ⟨fun found => ?_, fun found => ?_⟩
  · induction left with
    | nil =>
        obtain ⟨y, ys, rfl⟩ := List.exists_cons_of_ne_nil occupied
        rw [List.nil_append, List.infix_cons_iff, List.infix_cons_iff] at found
        simp only [List.head?_cons, ne_eq, Option.some.injEq] at first
        rcases found with starts | starts | later
        · exact absurd (by obtain ⟨_, same⟩ := starts; simpa using (List.cons.inj same).1) first
        · exact absurd (by obtain ⟨_, same⟩ := starts; simpa using (List.cons.inj same).1) first
        · exact .inr later
    | cons y ys ih =>
        rw [List.cons_append, List.infix_cons_iff] at found
        rcases found with starts | later
        · have inside : needle <+: y :: ys := prefix_of_prefix_doubled single last starts
          exact .inl inside.isInfix
        · exact (ih later).imp_left fun inside => inside.trans (List.suffix_cons y ys).isInfix
  · rcases found with inside | inside
    · exact inside.trans (List.prefix_append _ _).isInfix
    · exact inside.trans ⟨left ++ [x, x], [], by simp⟩

/-- The first occurrence of a separator splits a list in one way. -/
theorem append_cons_inj {a b s t : List α} (left : x ∉ a) (right : x ∉ b) :
    a ++ x :: s = b ++ x :: t ↔ a = b ∧ s = t := by
  refine ⟨fun same => ?_, fun ⟨rfl, rfl⟩ => rfl⟩
  induction a generalizing b with
  | nil =>
      cases b with
      | nil => exact ⟨rfl, (List.cons.inj same).2⟩
      | cons y ys => exact absurd (List.cons.inj same).1 fun eq => right (eq ▸ List.mem_cons_self)
  | cons y ys ih =>
      cases b with
      | nil => exact absurd (List.cons.inj same).1.symm fun eq => left (eq ▸ List.mem_cons_self)
      | cons z zs =>
          obtain ⟨rfl, rest⟩ := List.cons.inj same
          obtain ⟨rfl, tail⟩ := ih (fun mem => left (List.mem_cons_of_mem _ mem))
            (fun mem => right (List.mem_cons_of_mem _ mem)) rest
          exact ⟨rfl, tail⟩

end Occurrence
