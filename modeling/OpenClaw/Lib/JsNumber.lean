import Mathlib

/-!
JavaScript numbers as far as counting needs them. `JsNumber` is a raw value;
`Count` is what `Math.max(min, Math.floor x)` leaves: a natural number, the
positive infinity, or NaN, which every comparison rejects. Numbers are exact:
double rounding above `2 ^ 53` is not represented.
-/

inductive JsNumber where
  | nan
  | negInf
  | posInf
  | real (value : ℚ)
  deriving DecidableEq

inductive Count where
  | nan
  | fin (n : Nat)
  | inf
  deriving DecidableEq, Inhabited

namespace JsNumber

/-- `Math.max(least, Math.floor x)`. -/
def floorAtLeast (least : Nat) : JsNumber → Count
  | nan => .nan
  | negInf => .fin least
  | posInf => .inf
  | real q => .fin (max least ⌊q⌋.toNat)

/-- `x <= value` for an integer `value`. -/
def leInt (value : Int) : JsNumber → Bool
  | nan | posInf => false
  | negInf => true
  | real q => decide (q ≤ value)

end JsNumber

namespace Count

def text : Count → String
  | nan => "NaN"
  | fin n => toString n
  | inf => "Infinity"

/-- `n < c`. -/
def isAbove (n : Nat) : Count → Bool
  | nan => false
  | fin m => n < m
  | inf => true

/-- `n >= c`. -/
def isReachedBy (n : Nat) : Count → Bool
  | nan | inf => false
  | fin m => m ≤ n

/-- `Math.max(0, c - n)`. -/
def shortfall (n : Nat) : Count → Count
  | nan => nan
  | fin m => fin (m - n)
  | inf => inf

def add : Count → Count → Count
  | nan, _ | _, nan => nan
  | inf, _ | _, inf => inf
  | fin a, fin b => fin (a + b)

instance : Add Count := ⟨add⟩
instance : Zero Count := ⟨fin 0⟩

/-- `a < b`. -/
def lt : Count → Count → Bool
  | nan, _ | _, nan | inf, _ => false
  | fin _, inf => true
  | fin a, fin b => a < b

/-- `a <= b`. -/
def le : Count → Count → Bool
  | nan, _ | _, nan => false
  | _, inf => true
  | inf, fin _ => false
  | fin a, fin b => a ≤ b

@[simp] theorem nan_add (c : Count) : nan + c = nan := by cases c <;> rfl
@[simp] theorem add_nan (c : Count) : c + nan = nan := by cases c <;> rfl
@[simp] theorem fin_add_fin (a b : Nat) : fin a + fin b = fin (a + b) := rfl
@[simp] theorem inf_add_fin (a : Nat) : inf + fin a = inf := rfl
@[simp] theorem fin_add_inf (a : Nat) : fin a + inf = inf := rfl
@[simp] theorem inf_add_inf : inf + inf = inf := rfl
@[simp] theorem zero_eq : (0 : Count) = fin 0 := rfl

instance : AddCommMonoid Count where
  add_assoc a b c := by cases a <;> cases b <;> cases c <;> simp [Nat.add_assoc]
  zero_add a := by cases a <;> simp
  add_zero a := by cases a <;> simp
  add_comm a b := by cases a <;> cases b <;> simp [Nat.add_comm]
  nsmul := nsmulRec

theorem le_refl_of_ne_nan {c : Count} (h : c ≠ nan) : c.le c = true := by
  cases c <;> simp_all [le]

theorem ne_nan_of_le {a b : Count} (h : a.le b = true) : a ≠ nan := by
  rintro rfl
  simp [le] at h

theorem le_trans {a b c : Count} (h : a.le b = true) (k : b.le c = true) : a.le c = true := by
  cases a <;> cases b <;> cases c <;> simp_all [le]
  omega

theorem add_le_add {a b c d : Count} (h : a.le b = true) (k : c.le d = true) :
    (a + c).le (b + d) = true := by
  cases a <;> cases b <;> cases c <;> cases d <;> simp_all [le]
  omega

theorem add_ne_nan {a b : Count} : a + b ≠ nan ↔ a ≠ nan ∧ b ≠ nan := by
  cases a <;> cases b <;> simp

theorem le_add_right {a b : Count} (h : a ≠ nan) (k : b ≠ nan) : a.le (a + b) = true := by
  cases a <;> cases b <;> simp_all [le]

theorem isAbove_of_le {n m : Nat} {c : Count} (h : n ≤ m) (above : c.isAbove m = true) :
    c.isAbove n = true := by
  cases c <;> simp_all [isAbove]
  omega

theorem le_of_lt {a b : Count} (h : a.lt b = true) : a.le b = true := by
  cases a <;> cases b <;> simp_all [lt, le]
  omega

theorem lt_of_le_of_lt {a b c : Count} (h : a.le b = true) (k : b.lt c = true) :
    a.lt c = true := by
  cases a <;> cases b <;> cases c <;> simp_all [lt, le]
  omega

theorem succ_le_of_lt {a b : Count} (h : a.lt b = true) : (a + fin 1).le b = true := by
  cases a <;> cases b <;> simp_all [lt, le]

/-- What `n` active tasks and their unused reservation `c` occupy together. -/
def occupied (n : Nat) (c : Count) : Count := fin n + c.shortfall n

theorem occupied_ne_nan {n m : Nat} {c : Count} (h : occupied n c ≠ nan) : occupied m c ≠ nan := by
  cases c <;> simp_all [occupied, shortfall]

/-- Fewer active tasks never occupy more: each freed slot is at most returned to
the reservation. -/
theorem occupied_mono {n m : Nat} {c : Count} (hnm : n ≤ m) (h : occupied m c ≠ nan) :
    (occupied n c).le (occupied m c) = true := by
  cases c <;> simp_all [occupied, shortfall, le]
  omega

/-- A start below the reservation occupies nothing new. -/
theorem occupied_succ_of_isAbove {n : Nat} {c : Count} (h : c.isAbove n = true) :
    occupied (n + 1) c = occupied n c := by
  cases c <;> simp_all [occupied, shortfall, isAbove]
  omega

theorem occupied_succ_of_not_isAbove {n : Nat} {c : Count} (h : c.isAbove n = false) :
    occupied (n + 1) c = occupied n c + fin 1 := by
  cases c <;> simp_all [occupied, shortfall, isAbove]
  omega

theorem one_le_shortfall {n : Nat} {c : Count} (h : c.isAbove n = true) :
    (fin 1).le (c.shortfall n) = true := by
  cases c <;> simp_all [le, shortfall, isAbove]
  omega

/-- A sum of `n` and at least one more within `b` leaves `n` below `b`. -/
theorem not_isReachedBy_of_add_le {n : Nat} {c b : Count} (h : (fin 1).le c = true)
    (k : (fin n + c).le b = true) : b.isReachedBy n = false := by
  cases c <;> cases b <;> simp_all [le, isReachedBy]
  omega

section Sums

variable {α : Type*}

theorem sum_ne_nan {f : α → Count} {l : List α} :
    (l.map f).sum ≠ nan ↔ ∀ x ∈ l, f x ≠ nan := by
  induction l with
  | nil => simp
  | cons x l ih => simp only [List.map_cons, List.sum_cons, add_ne_nan, ih, List.forall_mem_cons]

theorem sum_le_sum {f g : α → Count} {l : List α} (h : ∀ x ∈ l, (f x).le (g x) = true) :
    ((l.map f).sum).le ((l.map g).sum) = true := by
  induction l with
  | nil => rfl
  | cons x l ih =>
      simp only [List.map_cons, List.sum_cons]
      exact add_le_add (h x List.mem_cons_self) (ih fun y hy => h y (List.mem_cons_of_mem x hy))

theorem le_sum_of_mem {f : α → Count} {l : List α} {x : α} (mem : x ∈ l)
    (finite : ∀ y ∈ l, f y ≠ nan) : (f x).le ((l.map f).sum) = true := by
  induction l with
  | nil => simp at mem
  | cons y l ih =>
      obtain ⟨head, tail⟩ := List.forall_mem_cons.mp finite
      simp only [List.map_cons, List.sum_cons]
      rcases List.mem_cons.mp mem with rfl | mem
      · exact le_add_right head (sum_ne_nan.mpr tail)
      · rw [add_comm]
        exact le_trans (ih mem tail) (le_add_right (sum_ne_nan.mpr tail) head)

/-- Changing one summand of a duplicate-free list by one changes the sum by one. -/
theorem sum_succ_of_mem [DecidableEq α] {f g : α → Count} {l : List α} {x : α}
    (nodup : l.Nodup) (mem : x ∈ l) (at_x : g x = f x + fin 1) (elsewhere : ∀ y, y ≠ x → g y = f y) :
    (l.map g).sum = (l.map f).sum + fin 1 := by
  induction l with
  | nil => simp at mem
  | cons y l ih =>
      obtain ⟨fresh, rest⟩ := List.nodup_cons.mp nodup
      simp only [List.map_cons, List.sum_cons]
      by_cases h : y = x
      · subst h
        have same : l.map g = l.map f :=
          List.map_congr_left fun z hz => elsewhere z fun e => fresh (e ▸ hz)
        rw [at_x, same, add_right_comm]
      · have member : x ∈ l := (List.mem_cons.mp mem).resolve_left (Ne.symm h)
        rw [elsewhere y h, ih rest member, add_assoc]

end Sums
end Count
