import Mathlib.Data.List.Forall2
import Mathlib.Data.Option.Basic

/-!
Computations that may fail: what is known of the steps of one that has succeeded. A guard is
a step that is only taken in one case of what follows it.
-/

namespace Fallible

variable {ε α β : Type} {x : Except ε α} {b : β}

theorem bind_eq_ok {f : α → Except ε β} :
    (x >>= f) = .ok b ↔ ∃ a, x = .ok a ∧ f a = .ok b := by
  cases x <;> simp [bind, Except.bind]

theorem pure_eq_ok {a : β} : (pure a : Except ε β) = .ok b ↔ a = b := by
  simp [pure, Except.pure]

theorem map_eq_ok {f : α → β} : x.map f = .ok b ↔ ∃ a, x = .ok a ∧ f a = b := by
  cases x <;> simp [Except.map]

theorem guard_eq_ok {c : Prop} [Decidable c] {rest : Except ε β} :
    (if c then x >>= fun _ => rest else rest) = .ok b ↔ (c → ∃ a, x = .ok a) ∧ rest = .ok b := by
  by_cases taken : c
  · rw [if_pos taken, bind_eq_ok, exists_and_right]
    exact and_congr_left fun _ => ⟨fun passed _ => passed, fun passed => passed taken⟩
  · rw [if_neg taken]
    exact ⟨fun done => ⟨fun needed => absurd needed taken, done⟩, fun both => both.2⟩

theorem throw_bind_eq_ok {f : α → Except ε β} {error : ε} :
    ((throw error : Except ε α) >>= f) = .ok b ↔ False := by
  simp [throw, throwThe, MonadExceptOf.throw, bind, Except.bind]

theorem throw_ne_ok {error : ε} {a : α} : (throw error : Except ε α) = .ok a ↔ False := by
  simp [throw, throwThe, MonadExceptOf.throw]

theorem guard_else_eq_ok {c d : Prop} [Decidable c] [Decidable d] {y : Except ε α}
    {rest : Except ε β} :
    (if c then x >>= fun _ => rest else if d then y >>= fun _ => rest else rest) = .ok b ↔
      (c → ∃ a, x = .ok a) ∧ (¬ c → d → ∃ a, y = .ok a) ∧ rest = .ok b := by
  by_cases taken : c
  · rw [if_pos taken, bind_eq_ok, exists_and_right]
    exact and_congr ⟨fun passed _ => passed, fun passed => passed taken⟩
      (and_iff_right fun not => absurd taken not).symm
  · rw [if_neg taken, guard_eq_ok, and_iff_right fun needed => absurd needed taken]
    exact and_congr_left fun _ => ⟨fun passed _ => passed, fun passed => passed taken⟩

/-- A check that throws has not held. -/
theorem check_eq_ok {c : Prop} [Decidable c] {error : ε} {rest : Except ε β} :
    (if c then (throw error : Except ε α) >>= fun _ => rest else rest) = .ok b ↔
      ¬ c ∧ rest = .ok b := by
  rw [guard_eq_ok]
  refine and_congr_left fun _ => ⟨fun passed taken => ?_, fun not taken => absurd taken not⟩
  obtain ⟨a, impossible⟩ := passed taken
  exact throw_ne_ok.mp impossible

/-- A check that nothing follows. -/
theorem last_check_eq_ok {c : Prop} [Decidable c] {error : ε} {u : Unit} :
    (if c then (throw error : Except ε Unit) else pure ()) = .ok u ↔ ¬ c := by
  by_cases taken : c
  · rw [if_pos taken, throw_ne_ok]
    exact iff_of_false id (not_not.mpr taken)
  · rw [if_neg taken, pure_eq_ok]
    exact iff_of_true rfl taken

theorem forM_eq_ok {f : α → Except ε Unit} {items : List α} {u : Unit} :
    items.forM f = .ok u ↔ ∀ item ∈ items, f item = .ok () := by
  induction items with
  | nil => simp [pure, Except.pure]
  | cons item items ih =>
      have rest : (f item >>= fun _ => items.forM f) = .ok u ↔
          ∃ a, f item = .ok a ∧ items.forM f = .ok u := bind_eq_ok
      rw [ih] at rest
      rw [List.forall_mem_cons]
      refine rest.trans ?_
      exact ⟨fun ⟨_, first, all⟩ => ⟨first, all⟩, fun ⟨first, all⟩ => ⟨_, first, all⟩⟩

theorem mapM_eq_ok {f : α → Except ε β} {items : List α} {results : List β} :
    items.mapM f = .ok results ↔ List.Forall₂ (fun item result => f item = .ok result) items
      results := by
  induction items generalizing results with
  | nil => simp [pure, Except.pure, eq_comm]
  | cons item items ih =>
      simp only [List.mapM_cons, bind_eq_ok, pure_eq_ok, ih, List.forall₂_cons_left_iff]
      exact ⟨fun ⟨b, first, bs, rest, same⟩ => ⟨b, bs, first, rest, same.symm⟩,
        fun ⟨b, bs, first, rest, same⟩ => ⟨b, first, bs, rest, same.symm⟩⟩

end Fallible
