import Mathlib.Data.List.Basic
import Mathlib.Data.List.Forall2

/-!
Spans of a text that a scanner opens and closes one after another, where the text comes in two
parts. A span that is open at the end of the first part is continued by the first span of the
second part; the spans of the whole text are those of the parts with the two joined.
-/

namespace SpanTracking

variable {δ : Type}

structure Span (δ : Type) where
  start : Nat
  stop : Nat
  data : δ

namespace Span

def shift (offset : Nat) (span : Span δ) : Span δ :=
  { span with start := offset + span.start, stop := offset + span.stop }

def Covers (span : Span δ) (index : Nat) : Prop := span.start ≤ index ∧ index < span.stop

instance (span : Span δ) (index : Nat) : Decidable (span.Covers index) :=
  inferInstanceAs (Decidable (_ ∧ _))

theorem shift_shift (first second : Nat) (span : Span δ) :
    (span.shift second).shift first = span.shift (first + second) := by
  simp [shift, Nat.add_assoc]

theorem shift_zero (span : Span δ) : span.shift 0 = span := by
  simp [shift]

end Span

/-- The spans that were closed, and the start of the one that is open. -/
structure Tracker (δ : Type) where
  spans : List (Span δ) := []
  opened : Option (Nat × δ) := none

namespace Tracker

def enter (start : Nat) (data : δ) (tracker : Tracker δ) : Tracker δ :=
  { tracker with opened := some (start, data) }

def leave (stop : Nat) (tracker : Tracker δ) : Tracker δ :=
  match tracker.opened with
  | none => tracker
  | some (start, data) => { spans := tracker.spans ++ [{ start, stop, data }], opened := none }

/-- The spans of a text that ends here; an open span ends with it. -/
def finish (length : Nat) (tracker : Tracker δ) : List (Span δ) :=
  tracker.spans ++
    (tracker.opened.map fun opened => { start := opened.1, stop := length, data := opened.2 }).toList

/-- How the next part starts: inside of the span that is open. -/
def carried (data : Option δ) : Tracker δ := { opened := data.map (0, ·) }

def openData (tracker : Tracker δ) : Option δ := tracker.opened.map Prod.snd

/-- The second part starts with the span that the first leaves open. -/
inductive Continues : Tracker δ → Tracker δ → Prop
  | closed {spans second} : Continues { spans, opened := none } second
  | still {spans start data} :
      Continues { spans, opened := some (start, data) } { spans := [], opened := some (0, data) }
  | left {spans start data stop others opened} :
      Continues { spans, opened := some (start, data) }
        { spans := { start := 0, stop, data } :: others, opened }

/-- The tracker of the whole text, from those of its parts. -/
def resume (offset : Nat) (first second : Tracker δ) : Tracker δ :=
  let opened := second.opened.map fun opened => (offset + opened.1, opened.2)
  match first.opened, second.spans with
  | none, spans => { spans := first.spans ++ spans.map (Span.shift offset), opened }
  | some _, [] => first
  | some (start, _), span :: spans =>
      { spans := first.spans ++ { span.shift offset with start } :: spans.map (Span.shift offset)
        opened }

variable {offset : Nat} {first second : Tracker δ}

theorem continues_carried (first : Tracker δ) : Continues first (carried first.openData) := by
  obtain ⟨spans, _ | ⟨start, data⟩⟩ := first
  · exact .closed
  · exact .still

theorem resume_carried (offset : Nat) (first : Tracker δ) :
    resume offset first (carried first.openData) = first := by
  obtain ⟨spans, _ | ⟨start, data⟩⟩ := first
  · simp [resume, carried, openData]
  · rfl

theorem openData_resume (continues : Continues first second) :
    (resume offset first second).openData = second.openData := by
  cases continues with
  | closed => simp [resume, openData, Function.comp_def]
  | still => rfl
  | left => simp [resume, openData, Function.comp_def]

theorem resume_enter (continues : Continues first second) (closed : second.openData = none)
    (start : Nat) (data : δ) :
    resume offset first (second.enter start data) =
        (resume offset first second).enter (offset + start) data ∧
      Continues first (second.enter start data) := by
  cases continues with
  | closed => exact ⟨rfl, .closed⟩
  | still => cases closed
  | left => exact ⟨rfl, .left⟩

theorem resume_leave (continues : Continues first second) (stop : Nat) :
    resume offset first (second.leave stop) = (resume offset first second).leave (offset + stop) ∧
      Continues first (second.leave stop) := by
  cases continues with
  | @closed spans second =>
      refine ⟨?_, .closed⟩
      obtain ⟨others, _ | ⟨start, data⟩⟩ := second
      · rfl
      · simp [resume, leave, Span.shift]
  | still => exact ⟨rfl, .left⟩
  | @left _ _ _ _ _ opened =>
      obtain _ | ⟨start, data⟩ := opened
      · exact ⟨rfl, .left⟩
      · exact ⟨by simp [resume, leave, Span.shift], .left⟩

end Tracker

/-- The spans of a text whose first part ends at the offset: those of the parts, where the last
of the first part and the first of the second may be one. -/
inductive Joins (offset : Nat) : List (Span δ) → List (Span δ) → List (Span δ) → Prop
  | apart {first second} : Joins offset (first ++ second.map (Span.shift offset)) first second
  | across {first second start stop data} : start ≤ offset →
      Joins offset (first ++ { start, stop := offset + stop, data } :: second.map (Span.shift offset))
        (first ++ [{ start, stop := offset, data }]) ({ start := 0, stop, data } :: second)

theorem Tracker.finish_resume {offset : Nat} {first second : Tracker δ}
    (continues : Tracker.Continues first second)
    (inside : ∀ opened, first.opened = some opened → opened.1 ≤ offset) (length : Nat) :
    Joins offset ((Tracker.resume offset first second).finish (offset + length))
      (first.finish offset) (second.finish length) := by
  cases continues with
  | @closed spans second =>
      have whole : (Tracker.resume offset { spans, opened := none } second).finish (offset + length) =
          spans ++ (second.finish length).map (Span.shift offset) := by
        obtain ⟨others, _ | ⟨start, data⟩⟩ := second
        · simp [Tracker.resume, Tracker.finish]
        · simp [Tracker.resume, Tracker.finish, Span.shift]
      have alone : Tracker.finish offset { spans, opened := none } = spans := List.append_nil _
      rw [whole, alone]
      exact .apart
  | @still spans start data =>
      exact @Joins.across δ offset spans [] start length data (inside _ rfl)
  | @left spans start data stop others opened =>
      have whole := @Joins.across δ offset spans
        (Tracker.finish length { spans := others, opened }) start stop data (inside _ rfl)
      obtain _ | ⟨later, data'⟩ := opened
      · simpa [Tracker.resume, Tracker.finish, Span.shift] using whole
      · simpa [Tracker.resume, Tracker.finish, Span.shift] using whole

namespace Tracker

/-- The spans lie one behind another up to a position, and start below the bound. -/
structure Ordered (bound position : Nat) (tracker : Tracker δ) : Prop where
  apart : tracker.spans.Pairwise fun before behind => before.stop ≤ behind.start
  spans : ∀ span ∈ tracker.spans,
    span.start < bound ∧ span.start ≤ span.stop ∧ span.stop ≤ position
  opened : ∀ opened, tracker.opened = some opened →
    opened.1 < bound ∧ opened.1 ≤ position ∧ ∀ span ∈ tracker.spans, span.stop ≤ opened.1

variable {bound position next : Nat} {tracker : Tracker δ}

theorem ordered_carried (data : Option δ) (position : Nat) (positive : 0 < bound) :
    Ordered bound position (carried data) where
  apart := .nil
  spans _ mem := absurd mem List.not_mem_nil
  opened opened some_ := by
    obtain ⟨_, _, rfl⟩ := Option.map_eq_some_iff.mp some_
    exact ⟨positive, Nat.zero_le _, fun _ mem => absurd mem List.not_mem_nil⟩

theorem Ordered.mono (ordered : Ordered bound position tracker) (le : position ≤ next) :
    Ordered bound next tracker where
  apart := ordered.apart
  spans span mem :=
    have ⟨below, first, last⟩ := ordered.spans span mem
    ⟨below, first, Nat.le_trans last le⟩
  opened opened some_ :=
    have ⟨below, first, others⟩ := ordered.opened opened some_
    ⟨below, Nat.le_trans first le, others⟩

theorem Ordered.enter (ordered : Ordered bound position tracker) (le : position ≤ next)
    (below : next < bound) (data : δ) : Ordered bound next (tracker.enter next data) where
  apart := ordered.apart
  spans := (ordered.mono le).spans
  opened opened some_ := by
    cases some_
    exact ⟨below, Nat.le_refl _, fun span mem => ((ordered.mono le).spans span mem).2.2⟩

theorem Ordered.leave (ordered : Ordered bound position tracker) (le : position ≤ next) :
    Ordered bound next (tracker.leave next) := by
  obtain ⟨spans, _ | ⟨start, data⟩⟩ := tracker
  · exact ordered.mono le
  · obtain ⟨below, first, others⟩ := ordered.opened _ rfl
    refine ⟨List.pairwise_append.mpr ⟨ordered.apart, List.pairwise_singleton .., ?_⟩, ?_, nofun⟩
    · intro span mem last single
      rw [List.mem_singleton.mp single]
      exact others span mem
    · refine List.forall_mem_append.mpr ⟨(ordered.mono le).spans, ?_⟩
      intro last single
      rw [List.mem_singleton.mp single]
      exact ⟨below, Nat.le_trans first le, Nat.le_refl _⟩

theorem Ordered.finish {length : Nat} (ordered : Ordered bound position tracker)
    (le : position ≤ length) :
    (tracker.finish length).Pairwise (fun before behind => before.stop ≤ behind.start) ∧
      ∀ span ∈ tracker.finish length,
        span.start < bound ∧ span.start ≤ span.stop ∧ span.stop ≤ length := by
  obtain ⟨spans, _ | ⟨start, data⟩⟩ := tracker
  · have alone : finish length { spans, opened := none } = spans := List.append_nil _
    rw [alone]
    exact ⟨ordered.apart, (ordered.mono le).spans⟩
  · have left := (ordered.leave le)
    exact ⟨left.apart, left.spans⟩

end Tracker

/-- A span that is cut into parts. -/
inductive Concatenation : Span δ → List (Span δ) → Prop
  | single {span} : Concatenation span [span]
  | join {span middle parts} : span.start ≤ middle → middle ≤ span.stop →
      Concatenation { span with start := middle } parts →
      Concatenation span ({ span with stop := middle } :: parts)

/-- Spans that are cut into parts, in order. -/
inductive Concatenates : List (Span δ) → List (Span δ) → Prop
  | nil : Concatenates [] []
  | cons {span parts spans others} : Concatenation span parts → Concatenates spans others →
      Concatenates (span :: spans) (parts ++ others)

theorem Concatenation.append {span : Span δ} {middle : Nat} {first second : List (Span δ)}
    (before : Concatenation { span with stop := middle } first) (start : span.start ≤ middle)
    (stop : middle ≤ span.stop) (behind : Concatenation { span with start := middle } second) :
    Concatenation span (first ++ second) := by
  generalize whole : ({ span with stop := middle } : Span δ) = left at before
  induction before generalizing span with
  | single =>
      subst whole
      exact .join start stop behind
  | @join left middle' parts le le' _ ih =>
      subst whole
      exact .join le (Nat.le_trans le' stop) (ih le' stop behind rfl)

theorem Concatenates.refl (spans : List (Span δ)) : Concatenates spans spans := by
  induction spans with
  | nil => exact .nil
  | cons span spans ih => exact .cons .single ih

theorem Concatenates.append {first second parts others : List (Span δ)}
    (left : Concatenates first parts) (right : Concatenates second others) :
    Concatenates (first ++ second) (parts ++ others) := by
  induction left with
  | nil => exact right
  | cons cut _ ih =>
      rw [List.cons_append, List.append_assoc]
      exact .cons cut ih

theorem Concatenates.split {first second parts : List (Span δ)}
    (cut : Concatenates (first ++ second) parts) : ∃ left right, parts = left ++ right ∧
      Concatenates first left ∧ Concatenates second right := by
  induction first generalizing parts with
  | nil => exact ⟨[], parts, rfl, .nil, cut⟩
  | cons span first ih =>
      cases cut with
      | cons cut others =>
          obtain ⟨left, right, rfl, before, behind⟩ := ih others
          exact ⟨_ ++ left, right, (List.append_assoc ..).symm, .cons cut before, behind⟩

theorem Concatenation.trans {span : Span δ} {parts pieces : List (Span δ)}
    (cut : Concatenation span parts) (cuts : Concatenates parts pieces) :
    Concatenation span pieces := by
  induction cut generalizing pieces with
  | single =>
      cases cuts with
      | cons cut others =>
          cases others
          rwa [List.append_nil]
  | join start stop _ ih =>
      cases cuts with
      | cons cut others => exact cut.append start stop (ih others)

theorem Concatenates.trans {spans parts pieces : List (Span δ)} (cuts : Concatenates spans parts)
    (others : Concatenates parts pieces) : Concatenates spans pieces := by
  induction cuts generalizing pieces with
  | nil => exact others
  | cons cut _ ih =>
      obtain ⟨left, right, rfl, before, behind⟩ := others.split
      exact .cons (cut.trans before) (ih behind)

theorem Concatenation.shift {span : Span δ} {parts : List (Span δ)} (offset : Nat)
    (cut : Concatenation span parts) :
    Concatenation (span.shift offset) (parts.map (Span.shift offset)) := by
  induction cut with
  | single => exact .single
  | join start stop _ ih =>
      exact .join (Nat.add_le_add_left start offset) (Nat.add_le_add_left stop offset) ih

theorem Concatenates.shift {spans parts : List (Span δ)} (offset : Nat)
    (cuts : Concatenates spans parts) :
    Concatenates (spans.map (Span.shift offset)) (parts.map (Span.shift offset)) := by
  induction cuts with
  | nil => exact .nil
  | cons cut _ ih =>
      rw [List.map_cons, List.map_append]
      exact .cons (cut.shift offset) ih

theorem Joins.concatenates {offset : Nat} {whole first second : List (Span δ)}
    (joins : Joins offset whole first second) :
    Concatenates whole (first ++ second.map (Span.shift offset)) := by
  cases joins with
  | apart => exact .refl _
  | @across first second start stop data inside =>
      rw [List.append_assoc]
      refine (Concatenates.refl first).append ?_
      have cut : Concatenation { start, stop := offset + stop, data }
          [{ start, stop := offset, data }, Span.shift offset { start := 0, stop, data }] :=
        .join inside (Nat.le_add_right ..) .single
      have all := Concatenates.cons cut (.refl (second.map (Span.shift offset)))
      exact all

theorem Concatenation.covers_iff {span : Span δ} {parts : List (Span δ)} {index : Nat}
    (cut : Concatenation span parts) :
    span.Covers index ↔ ∃ part ∈ parts, part.Covers index := by
  induction cut with
  | single => simp
  | @join span middle parts start stop _ ih =>
      rw [List.exists_mem_cons_iff, ← ih]
      simp only [Span.Covers]
      omega

theorem Concatenates.covers_iff {spans parts : List (Span δ)} {index : Nat}
    (cuts : Concatenates spans parts) :
    (∃ span ∈ spans, span.Covers index) ↔ ∃ part ∈ parts, part.Covers index := by
  induction cuts with
  | nil => rfl
  | cons cut _ ih =>
      simp only [List.exists_mem_cons_iff, cut.covers_iff, ih, List.mem_append, or_and_right,
        exists_or]

end SpanTracking
