import Mathlib.Data.Option.Basic

/-!
Runs of a labelled transition system given by a partial step function. A run is
restricted by a predicate on the label and on the state it is taken in, so that
one relation serves both unrestricted runs and runs whose environment behaves.
Invariants are established once, by induction on the run.
-/

namespace Transition

variable {σ ℓ : Type*}

/-- `Reaches step ok s t`: a finite sequence of steps, each permitted by `ok` in
the state it starts from, leads from `s` to `t`. -/
inductive Reaches (step : σ → ℓ → Option σ) (ok : σ → ℓ → Prop) (s : σ) : σ → Prop
  | refl : Reaches step ok s s
  | tail {t u : σ} {l : ℓ} (run : Reaches step ok s t) (permitted : ok t l)
      (taken : step t l = some u) : Reaches step ok s u

/-- The unrestricted label predicate. -/
def Any (_ : σ) (_ : ℓ) : Prop := True

instance (s : σ) (l : ℓ) : Decidable (Any s l) := isTrue trivial

/-- Execute a list of labels. -/
def exec (step : σ → ℓ → Option σ) : List ℓ → σ → Option σ
  | [], s => some s
  | l :: ls, s => (step s l).bind (exec step ls)

/-- Every label of the list is permitted in the state it is executed in. -/
def Permits (step : σ → ℓ → Option σ) (ok : σ → ℓ → Prop) : List ℓ → σ → Prop
  | [], _ => True
  | l :: ls, s => ok s l ∧ ∀ t ∈ step s l, Permits step ok ls t

instance Permits.decide (step : σ → ℓ → Option σ) (ok : σ → ℓ → Prop)
    [∀ s l, Decidable (ok s l)] : ∀ ls s, Decidable (Permits step ok ls s)
  | [], _ => isTrue trivial
  | l :: ls, s =>
      have : ∀ t, Decidable (Permits step ok ls t) := Permits.decide step ok ls
      inferInstanceAs (Decidable (ok s l ∧ ∀ t ∈ step s l, Permits step ok ls t))

namespace Reaches

variable {step : σ → ℓ → Option σ} {ok ok' : σ → ℓ → Prop} {s t u : σ}

theorem single {l : ℓ} (permitted : ok s l) (taken : step s l = some t) :
    Reaches step ok s t :=
  .tail .refl permitted taken

theorem trans (first : Reaches step ok s t) (second : Reaches step ok t u) :
    Reaches step ok s u := by
  induction second with
  | refl => exact first
  | tail _ permitted taken ih => exact .tail ih permitted taken

theorem of_exec {ls : List ℓ} (executed : exec step ls s = some t)
    (permitted : Permits step ok ls s) : Reaches step ok s t := by
  induction ls generalizing s with
  | nil =>
      cases executed
      exact .refl
  | cons l ls ih =>
      obtain ⟨u, taken, rest⟩ := Option.bind_eq_some_iff.mp executed
      have first : Reaches step ok s u := .single permitted.1 taken
      exact first.trans (ih rest (permitted.2 u taken))

/-- A run given by its labels, ending in a state with a decidable property. -/
theorem exists_of_exec (step : σ → ℓ → Option σ) (ok : σ → ℓ → Prop) (s : σ) {P : σ → Prop}
    [DecidablePred P] (ls : List ℓ)
    (holds : (exec step ls s).any (fun t => decide (P t)) = true)
    (permitted : Permits step ok ls s) : ∃ t, Reaches step ok s t ∧ P t := by
  cases executed : exec step ls s with
  | none => simp [executed] at holds
  | some t => exact ⟨t, of_exec executed permitted, by simpa [executed] using holds⟩

theorem mono (weaker : ∀ x l, ok x l → ok' x l) (run : Reaches step ok s t) :
    Reaches step ok' s t := by
  induction run with
  | refl => exact .refl
  | tail _ permitted taken ih => exact .tail ih (weaker _ _ permitted) taken

/-- The invariant rule: what holds at the start and is preserved by every
permitted step holds in every state of the run. -/
theorem invariant {P : σ → Prop} (run : Reaches step ok s t) (base : P s)
    (preserved : ∀ x l y, P x → ok x l → step x l = some y → P y) : P t := by
  induction run with
  | refl => exact base
  | tail _ permitted taken ih => exact preserved _ _ _ ih permitted taken

/-- Two-state form: a reflexive and transitive relation that every permitted step
respects relates the ends of a run. -/
theorem relates {R : σ → σ → Prop} (run : Reaches step ok s t) (refl : ∀ x, R x x)
    (trans : ∀ x y z, R x y → R y z → R x z)
    (respected : ∀ x l y, ok x l → step x l = some y → R x y) : R s t := by
  induction run with
  | refl => exact refl _
  | tail _ permitted taken ih => exact trans _ _ _ ih (respected _ _ _ permitted taken)

end Reaches
end Transition
