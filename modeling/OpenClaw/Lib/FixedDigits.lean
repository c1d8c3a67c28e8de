import Mathlib

/-!
Numerals of a fixed width, the most significant digit first. Among numerals of one width the
lexicographic order is the order of the values, also after the digits are replaced by the
characters of an ordered alphabet.
-/

namespace FixedDigits

variable {base : Nat} {left right : List Nat}

/-- The last `n` digits of a number. -/
def digits (base : Nat) : Nat → Nat → List Nat
  | 0, _ => []
  | n + 1, v => digits base n (v / base) ++ [v % base]

def value (base : Nat) (numeral : List Nat) : Nat := Nat.ofDigits base numeral.reverse

@[simp] theorem length_digits (base n v : Nat) : (digits base n v).length = n := by
  induction n generalizing v with
  | zero => rfl
  | succ n ih => rw [digits, List.length_append, ih, List.length_singleton]

theorem digits_lt (positive : 0 < base) (n v : Nat) : ∀ d ∈ digits base n v, d < base := by
  induction n generalizing v with
  | zero => nofun
  | succ n ih =>
      intro d mem
      rcases List.mem_append.mp mem with mem | mem
      · exact ih _ d mem
      · rw [List.mem_singleton.mp mem]
        exact Nat.mod_lt _ positive

@[simp] theorem value_nil (base : Nat) : value base [] = 0 := rfl

theorem value_concat (base : Nat) (numeral : List Nat) (d : Nat) :
    value base (numeral ++ [d]) = value base numeral * base + d := by
  rw [value, List.reverse_append, List.reverse_singleton, List.singleton_append, Nat.ofDigits_cons,
    ← value]
  ring

theorem value_cons (base d : Nat) (numeral : List Nat) :
    value base (d :: numeral) = d * base ^ numeral.length + value base numeral := by
  rw [value, List.reverse_cons, Nat.ofDigits_append, Nat.ofDigits_singleton, List.length_reverse,
    ← value]
  ring

theorem value_lt (large : 1 < base) {numeral : List Nat} (below : ∀ d ∈ numeral, d < base) :
    value base numeral < base ^ numeral.length := by
  have bound := Nat.ofDigits_lt_base_pow_length large
    (l := numeral.reverse) fun d mem => below d (List.mem_reverse.mp mem)
  rwa [List.length_reverse] at bound

theorem foldl_eq_value (base : Nat) (numeral : List Nat) :
    numeral.foldl (fun v d => v * base + d) 0 = value base numeral := by
  induction numeral using List.reverseRecOn with
  | nil => rfl
  | append_singleton numeral d ih => rw [List.foldl_concat, ih, value_concat]

theorem value_digits {n v : Nat} (below : v < base ^ n) : value base (digits base n v) = v := by
  induction n generalizing v with
  | zero =>
      rw [pow_zero, Nat.lt_one_iff] at below
      rw [below]
      rfl
  | succ n ih =>
      have upper : v / base < base ^ n := Nat.div_lt_of_lt_mul (by rwa [← Nat.pow_succ'])
      rw [digits, value_concat, ih upper, Nat.mul_comm, Nat.div_add_mod]

theorem digits_append (positive : 0 < base) (m : Nat) {n u v : Nat} (below : v < base ^ n) :
    digits base (m + n) (u * base ^ n + v) = digits base m u ++ digits base n v := by
  induction n generalizing v with
  | zero =>
      rw [pow_zero, Nat.lt_one_iff] at below
      simp [below, digits]
  | succ n ih =>
      have upper : v / base < base ^ n := Nat.div_lt_of_lt_mul (by rwa [← Nat.pow_succ'])
      have split : u * base ^ (n + 1) + v = v + base * (u * base ^ n) := by ring
      rw [← Nat.add_assoc, digits, digits, split, Nat.add_mul_div_left _ _ positive,
        Nat.add_mul_mod_self_left, Nat.add_comm (v / base), ih upper, List.append_assoc]

/-- Numerals of one width are ordered as their values. -/
theorem lt_iff_value_lt (large : 1 < base) (same : left.length = right.length)
    (hl : ∀ d ∈ left, d < base) (hr : ∀ d ∈ right, d < base) :
    left < right ↔ value base left < value base right := by
  induction left generalizing right with
  | nil =>
      obtain rfl := List.length_eq_zero_iff.mp same.symm
      simp
  | cons d left ih =>
      cases right with
      | nil => simp at same
      | cons e right =>
          have lengths : left.length = right.length := Nat.succ.inj same
          obtain ⟨-, hl⟩ := List.forall_mem_cons.mp hl
          obtain ⟨-, hr⟩ := List.forall_mem_cons.mp hr
          have bl := value_lt large hl
          have br := value_lt large hr
          rw [List.cons_lt_cons_iff, ih lengths hl hr, value_cons, value_cons, lengths]
          rw [lengths] at bl
          rcases Nat.lt_trichotomy d e with less | rfl | more
          · have := Nat.mul_le_mul_right (base ^ right.length) (Nat.succ_le_of_lt less)
            rw [Nat.succ_mul] at this
            exact iff_of_true (Or.inl less) (by omega)
          · simp
          · have := Nat.mul_le_mul_right (base ^ right.length) (Nat.succ_le_of_lt more)
            rw [Nat.succ_mul] at this
            exact iff_of_false (by omega) (by omega)

/-- Characters in the order of the digits they stand for keep the order of numerals. -/
theorem map_lt_map {α : Type*} [LT α] {f : Nat → α} (ordered : ∀ d < base, ∀ e < d, f e < f d)
    (hl : ∀ d ∈ left, d < base) (hr : ∀ d ∈ right, d < base) (less : left < right) :
    left.map f < right.map f := by
  induction left generalizing right with
  | nil =>
      cases right with
      | nil => exact absurd less (by simp)
      | cons e right => exact List.nil_lt_cons _ _
  | cons d left ih =>
      cases right with
      | nil => exact absurd less (by simp)
      | cons e right =>
          obtain ⟨-, hl⟩ := List.forall_mem_cons.mp hl
          obtain ⟨he, hr⟩ := List.forall_mem_cons.mp hr
          rw [List.map_cons, List.map_cons, List.cons_lt_cons_iff]
          rcases List.cons_lt_cons_iff.mp less with less | ⟨same, less⟩
          · exact Or.inl (ordered e he d less)
          · exact Or.inr ⟨congrArg f same, ih hl hr less⟩

theorem digits_lt_digits (large : 1 < base) {n u v : Nat} (below : v < base ^ n) (less : u < v) :
    digits base n u < digits base n v := by
  have positive : 0 < base := by omega
  rw [lt_iff_value_lt large (by simp) (digits_lt positive n u) (digits_lt positive n v),
    value_digits (less.trans below), value_digits below]
  exact less

end FixedDigits
