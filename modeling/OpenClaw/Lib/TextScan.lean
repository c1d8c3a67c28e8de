import Mathlib

/-!
Scanning a sequence of which more may follow. A run of characters that was ended inside
the sequence ends at the same place when more follows, and so does the test for a
literal, unless what is there so far is a proper beginning of it.
-/

namespace TextScan

variable {α : Type}

section Runs

theorem dropWhile_append_of_ne_nil {p : α → Bool} {a : List α} (b : List α)
    (rest : a.dropWhile p ≠ []) : (a ++ b).dropWhile p = a.dropWhile p ++ b := by
  rw [List.dropWhile_append, if_neg (by simpa using rest)]

theorem takeWhile_append_of_ne_nil {p : α → Bool} {a : List α} (b : List α)
    (rest : a.dropWhile p ≠ []) : (a ++ b).takeWhile p = a.takeWhile p := by
  induction a with
  | nil => simp at rest
  | cons u us ih =>
      cases holds : p u with
      | true =>
          have later : us.dropWhile p ≠ [] := by simpa [holds] using rest
          simp [holds, ih later]
      | false => simp [holds]

theorem drop_takeWhile_length (p : α → Bool) (a : List α) :
    a.drop (a.takeWhile p).length = a.dropWhile p := by
  induction a with
  | nil => rfl
  | cons u us ih => cases holds : p u <;> simp [holds, ih]

theorem drop_append_of_ne_nil {a : List α} {n : Nat} (b : List α) (rest : a.drop n ≠ []) :
    (a ++ b).drop n = a.drop n ++ b := by
  refine List.drop_append_of_le_length ?_
  by_contra long
  exact rest (List.drop_eq_nil_of_le (by omega))

end Runs

section Literals

variable [BEq α] [LawfulBEq α]

/-- What is there is a proper beginning of the literal. -/
def isCut (literal text : List α) : Bool :=
  text.length < literal.length && text.isPrefixOf literal

theorem isCut_append {literal text : List α} (settled : isCut literal text = false)
    (more : List α) : isCut literal (text ++ more) = false := by
  simp only [isCut, Bool.and_eq_false_iff, decide_eq_false_iff_not, List.length_append] at settled ⊢
  rcases settled with long | differs
  · exact .inl (by omega)
  · refine .inr ?_
    rw [Bool.eq_false_iff, ne_eq, List.isPrefixOf_iff_prefix] at differs ⊢
    exact fun begins => differs ((List.prefix_append text more).trans begins)

theorem isPrefixOf_append {literal text : List α} (settled : isCut literal text = false)
    (more : List α) : literal.isPrefixOf (text ++ more) = literal.isPrefixOf text := by
  rw [Bool.eq_iff_iff, List.isPrefixOf_iff_prefix, List.isPrefixOf_iff_prefix]
  refine ⟨fun begins => ?_, fun begins => begins.trans (List.prefix_append text more)⟩
  rcases List.prefix_or_prefix_of_prefix begins (List.prefix_append text more) with found | cut
  · exact found
  · simp only [isCut, Bool.and_eq_false_iff, decide_eq_false_iff_not] at settled
    rcases settled with long | differs
    · rw [List.IsPrefix.eq_of_length_le cut (by omega)]
    · rw [Bool.eq_false_iff, ne_eq, List.isPrefixOf_iff_prefix] at differs
      exact absurd cut differs

theorem isCut_of_isPrefixOf {literal text : List α} (found : literal.isPrefixOf text = true) :
    isCut literal text = false := by
  have length := (List.isPrefixOf_iff_prefix.mp found).length_le
  simp only [isCut, Bool.and_eq_false_iff, decide_eq_false_iff_not]
  exact .inl (by omega)

end Literals

end TextScan
