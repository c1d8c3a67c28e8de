import Mathlib

/-!
Tables under a schema. A schema is a check every row passes and a relation any two
rows stand in, so `CHECK`, `PRIMARY KEY` and (partial) `UNIQUE` constraints are
instances; a table carries the proof that it meets its schema. A statement that
would break a constraint fails and changes nothing.
-/

namespace Sql

variable {Row : Type*}

structure Schema (Row : Type*) where
  check : Row → Prop
  /-- What the keys require of two different rows. -/
  apart : Row → Row → Prop
  symm : ∀ r s, apart r s → apart s r

def Schema.Admits (S : Schema Row) (rows : List Row) : Prop :=
  (∀ r ∈ rows, S.check r) ∧ rows.Pairwise S.apart

variable {S : Schema Row}

instance [DecidablePred S.check] [DecidableRel S.apart] (rows : List Row) :
    Decidable (S.Admits rows) :=
  inferInstanceAs (Decidable ((∀ r ∈ rows, S.check r) ∧ rows.Pairwise S.apart))

theorem Schema.Admits.sublist {rows smaller : List Row} (admitted : S.Admits rows)
    (sub : smaller.Sublist rows) : S.Admits smaller :=
  ⟨fun r mem => admitted.1 r (sub.subset mem), admitted.2.sublist sub⟩

structure Table (S : Schema Row) where
  rows : List Row
  admitted : S.Admits rows

namespace Table

variable {t u : Table S} {r s : Row}

def empty : Table S := ⟨[], by simp [Schema.Admits]⟩

instance : Inhabited (Table S) := ⟨empty⟩

/-- Two rows are one row or differ in every key. -/
theorem eq_or_apart (t : Table S) (left : r ∈ t.rows) (right : s ∈ t.rows) :
    r = s ∨ S.apart r s := by
  rcases eq_or_ne r s with same | different
  · exact .inl same
  · have : Std.Symm S.apart := ⟨S.symm⟩
    exact .inr (t.admitted.2.forall left right different)

theorem eq_of_not_apart (t : Table S) (left : r ∈ t.rows) (right : s ∈ t.rows)
    (collide : ¬ S.apart r s) : r = s :=
  (t.eq_or_apart left right).resolve_right collide

section Statements

variable [DecidablePred S.check] [DecidableRel S.apart]

/-- The outcome of a statement that leaves these rows. -/
def store (rows : List Row) : Option (Table S) :=
  if admitted : S.Admits rows then some ⟨rows, admitted⟩ else none

def insert (t : Table S) (row : Row) : Option (Table S) := store (t.rows ++ [row])

/-- `UPDATE … SET set WHERE condition`. -/
def update (t : Table S) (condition : Row → Bool) (set : Row → Row) : Option (Table S) :=
  store (t.rows.map fun row => if condition row then set row else row)

theorem store_eq_some {rows : List Row} (stored : store rows = some u) : u.rows = rows := by
  simp only [store] at stored
  split at stored
  · cases stored
    rfl
  · cases stored

theorem rows_of_insert (inserted : t.insert r = some u) : u.rows = t.rows ++ [r] :=
  store_eq_some inserted

theorem mem_of_update {condition : Row → Bool} {set : Row → Row}
    (updated : t.update condition set = some u) :
    s ∈ u.rows ↔ ∃ r ∈ t.rows, s = if condition r then set r else r := by
  rw [store_eq_some updated, List.mem_map]
  exact ⟨fun ⟨r, mem, same⟩ => ⟨r, mem, same.symm⟩, fun ⟨r, mem, same⟩ => ⟨r, mem, same.symm⟩⟩

/-- A row outside the condition stays as it is. -/
theorem mem_update_of_not {condition : Row → Bool} {set : Row → Row}
    (updated : t.update condition set = some u) (mem : r ∈ t.rows)
    (outside : condition r = false) : r ∈ u.rows :=
  (mem_of_update updated).mpr ⟨r, mem, by simp [outside]⟩

/-- An update whose new rows differ in nothing the schema looks at does not fail. -/
theorem update_isSome {condition : Row → Bool} {set : Row → Row}
    (check : ∀ r, S.check r → condition r = true → S.check (set r))
    (apart : ∀ r s, S.apart r s → S.apart (if condition r then set r else r)
      (if condition s then set s else s)) : (t.update condition set).isSome = true := by
  have admitted : S.Admits (t.rows.map fun row => if condition row then set row else row) := by
    refine ⟨fun r mem => ?_, ?_⟩
    · obtain ⟨old, oldMem, rfl⟩ := List.mem_map.mp mem
      by_cases inside : condition old = true
      · simpa [inside] using check old (t.admitted.1 old oldMem) inside
      · simpa [inside] using t.admitted.1 old oldMem
    · exact List.pairwise_map.mpr (t.admitted.2.imp fun {r s} => apart r s)
  simp [update, store, admitted]

end Statements

/-- `DELETE … WHERE condition`; fewer rows break no constraint. -/
def delete (t : Table S) (condition : Row → Bool) : Table S :=
  ⟨t.rows.filter fun row => !condition row, t.admitted.sublist List.filter_sublist⟩

theorem mem_delete {condition : Row → Bool} :
    r ∈ (t.delete condition).rows ↔ r ∈ t.rows ∧ condition r = false := by
  simp [delete]

section Counting

theorem countP_delete (t : Table S) (condition counted : Row → Bool) :
    t.rows.countP counted =
      (t.delete condition).rows.countP counted + (t.rows.filter condition).countP counted := by
  rw [List.countP_eq_countP_filter_add t.rows counted condition, Nat.add_comm]
  rfl

/-- Deleting rows that are not counted. -/
theorem countP_delete_of_not {condition counted : Row → Bool}
    (outside : ∀ r ∈ t.rows, condition r = true → counted r = false) :
    (t.delete condition).rows.countP counted = t.rows.countP counted := by
  have none : (t.rows.filter condition).countP counted = 0 := by
    refine List.countP_eq_zero.mpr fun r mem => ?_
    rw [outside r (List.mem_filter.mp mem).1 (List.mem_filter.mp mem).2]
    exact Bool.false_ne_true
  rw [t.countP_delete condition counted, none, Nat.add_zero]

/-- Rows whose keys differ from themselves do not exist, so no row is there twice. -/
theorem nodup (t : Table S) (irrefl : ∀ r, ¬ S.apart r r) : t.rows.Nodup :=
  t.admitted.2.imp fun {r s} (apart : S.apart r s) (same : r = s) => irrefl s (same ▸ apart)

variable [DecidableEq Row]

/-- A batch of counted rows of the table, deleted row by row. -/
theorem countP_delete_batch {batch : List Row} {counted : Row → Bool}
    (irrefl : ∀ r, ¬ S.apart r r) (nodup : batch.Nodup)
    (inside : ∀ r ∈ batch, r ∈ t.rows ∧ counted r = true) :
    (t.delete fun r => batch.contains r).rows.countP counted + batch.length =
      t.rows.countP counted := by
  have perm : (t.rows.filter fun r => batch.contains r).Perm batch := by
    refine (List.perm_ext_iff_of_nodup ((t.nodup irrefl).filter _) nodup).mpr fun r => ?_
    rw [List.mem_filter, List.contains_iff_mem]
    exact ⟨And.right, fun mem => ⟨(inside r mem).1, mem⟩⟩
  rw [t.countP_delete (fun r => batch.contains r) counted, perm.countP_eq,
    List.countP_eq_length.mpr fun r mem => (inside r mem).2]

end Counting

end Table
end Sql
