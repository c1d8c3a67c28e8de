import OpenClaw.ReasoningTags.Blocks

/-!
Whole runs: a text arrives in chunks and the partitioner is flushed. When no fast-path
reduction was given a cut that reads differently on its own, the merged deltas are
those of one reduction of the whole text; otherwise a tag inside the quotes of an
unfinished tag may be read in the one and not in the other.
-/

namespace OpenClaw.ReasoningTags

open JsUnits Partitioner

variable (parse : Text → MarkdownOwnership)

/-- A chunk is pushed; the deltas so far are kept. -/
def pushNext (run : Partitioner × List (Delta UInt16)) (chunk : Text) :
    Partitioner × List (Delta UInt16) :=
  let pushed := run.1.pushVisible parse chunk
  (pushed.1, run.2 ++ pushed.2)

/-- A fresh partitioner is given the chunks and flushed. -/
def streamVisible (chunks : List Text) : Partitioner × List (Delta UInt16) :=
  let fed := chunks.foldl (pushNext parse) (createReasoningTagTextPartitioner, [])
  let last := fed.1.flush parse
  (last.1, fed.2 ++ last.2)

variable {parse}

/-- The deltas of a run are those of a sound partitioner. -/
structure RunOk (total : Text) (run : Partitioner × List (Delta UInt16)) : Prop where
  sound : ∃ before, Sound total before run.1 ∧ before ++ cells run.1.output = cells run.2
  filled : ∀ delta ∈ run.2, delta.text ≠ []

theorem RunOk.fresh : RunOk [] (createReasoningTagTextPartitioner, []) where
  sound := ⟨[], ⟨rfl, List.suffix_refl _, Nat.le_refl _, Nat.le_refl _, .inl rfl, .inl rfl,
    grouped_nil, fun _ _ => rfl⟩, rfl⟩
  filled := by simp

theorem RunOk.pushNext {total : Text} {run : Partitioner × List (Delta UInt16)}
    (ok : RunOk total run) {chunk : Text} (noCode : NoCode parse (total ++ chunk)) :
    RunOk (total ++ chunk) (pushNext parse run chunk) := by
  obtain ⟨before, sound, shown⟩ := ok.sound
  have pushed := sound.pushVisible noCode
  refine ⟨⟨_, pushed, ?_⟩, fun delta mem => ?_⟩
  · rw [shown]
    exact (cells_append ..).symm
  · rcases List.mem_append.mp mem with old | new
    · exact ok.filled delta old
    · exact pushed.grouped.nonempty delta new

theorem RunOk.foldl {total : Text} {run : Partitioner × List (Delta UInt16)}
    (ok : RunOk total run) (chunks : List Text) (noCode : NoCode parse (total ++ chunks.flatten)) :
    RunOk (total ++ chunks.flatten) (chunks.foldl (ReasoningTags.pushNext parse) run) := by
  induction chunks generalizing total run with
  | nil =>
      rw [List.flatten_nil, List.append_nil]
      exact ok
  | cons chunk chunks ih =>
      rw [List.flatten_cons, ← List.append_assoc] at noCode ⊢
      exact ih (ok.pushNext fun part inner =>
        noCode part (inner.trans (List.prefix_append _ _).isInfix)) noCode

theorem streamed_agrees_with_one_shot (parse : Text → MarkdownOwnership) (chunks : List Text)
    (noCode : ∀ part, part <:+: chunks.flatten → (parse part).codeSpans = [])
    (cleanCuts : (streamVisible parse chunks).1.cleanCuts = true) :
    mergeDeltas [] (streamVisible parse chunks).2 =
      (reduceReasoningText chunks.flatten [] ⟨0, false, none⟩ ⟨true, .visible, .all, 0⟩).output := by
  have fed := RunOk.fresh.foldl chunks noCode
  rw [List.nil_append] at fed
  obtain ⟨before, sound, shown⟩ := fed.sound
  have done := sound.flush noCode
  have filled : ∀ delta ∈ (streamVisible parse chunks).2, delta.text ≠ [] := by
    intro delta mem
    rcases List.mem_append.mp mem with old | new
    · exact fed.filled delta old
    · exact done.grouped.nonempty delta new
  have streamed : cells (streamVisible parse chunks).2 =
      (lift (fun r => r.recover .visible) (readAll chunks.flatten)).1 := by
    rw [← done.shown cleanCuts, shown]
    exact cells_append ..
  have oneShot := congrArg Prod.fst (reduce_final chunks.flatten 0 freshState)
  have grouped := @grouped_reduce chunks.flatten freshState ⟨true, .visible, .all, 0⟩ rfl rfl
  rw [mergeDeltas_eq_foldl [] filled, streamed]
  refine Eq.trans ?_ grouped.symm
  exact congrArg regroup oneShot.symm

theorem streamed_agrees_with_one_shot_split_tag :
    mergeDeltas [] (streamVisible (fun _ => ⟨[], 0⟩)
        [lit "a<thi", lit "nk>b</th", lit "ink>c <"]).2 =
      [⟨.text, lit "a"⟩, ⟨.thinking, lit "b"⟩, ⟨.text, lit "c <"⟩] :=
  (streamed_agrees_with_one_shot (fun _ => ⟨[], 0⟩) [lit "a<thi", lit "nk>b</th", lit "ink>c <"]
    (fun _ _ => rfl) (by decide)).trans (by decide)

/-- The angle bracket at the end of the first chunk invalidates the quoted opening tag; cut off,
that tag is pending again and hides the closing tag in its quotes. -/
theorem torn_cut_moves_text_into_thinking :
    let chunks := [lit "<think>x<think \"</think>\" <", lit "b"]
    mergeDeltas [] (streamVisible (fun _ => ⟨[], 0⟩) chunks).2 =
        [⟨.thinking, lit "x<think \"</think>\" <b"⟩] ∧
      (reduceReasoningText chunks.flatten [] ⟨0, false, none⟩ ⟨true, .visible, .all, 0⟩).output =
        [⟨.thinking, lit "x<think \""⟩, ⟨.text, lit "\" <b"⟩] ∧
      mergeDeltas [] (streamVisible (fun _ => ⟨[], 0⟩) chunks).2 ≠
        (reduceReasoningText chunks.flatten [] ⟨0, false, none⟩
          ⟨true, .visible, .all, 0⟩).output := by
  decide

end OpenClaw.ReasoningTags
