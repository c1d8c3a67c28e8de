import Mathlib.Data.List.Perm.Basic
import OpenClaw.Shell.Rewritten

/-!
Rendering an authorized command replaces the recorded text of the rewritten candidates and
nothing else. What a replacement splits into is what is planned, except that the empty words of
a dispatched command are lost.
-/

namespace OpenClaw.Shell

open JsUnits

variable {command result : Text} {mode : RenderMode} {candidate : ExecAuthorizationCandidate}
  {satisfiedBy : Option SatisfiedBy} {replacement : SourceReplacement}
  {replacements : List SourceReplacement}

abbrev Entry := ExecAuthorizationCandidate × Option SatisfiedBy

/-- The span of a candidate that is replaced: its command, or only the executable of it. -/
def rewrittenSpan (candidate : ExecAuthorizationCandidate) : SourceSpan :=
  if hasDispatchWrapper candidate.sourceSegment then candidate.sourceStep.span
  else candidate.sourceStep.executableSpan

def recordedText (candidate : ExecAuthorizationCandidate) : Text :=
  if hasDispatchWrapper candidate.sourceSegment then candidate.sourceStep.text
  else sourceStepSlice candidate candidate.sourceStep.executableSpan

/-- The planned argv, or the single planned executable. -/
def authorizedWords (candidate : ExecAuthorizationCandidate) : Option (List Text) :=
  (resolvePlannedSegmentArgv candidate.sourceSegment).map fun plannedArgv =>
    if hasDispatchWrapper candidate.sourceSegment then plannedArgv else plannedArgv.take 1

/-- The replacement of a candidate: its recorded text is found at the span and gives way to
words that split into the authorized ones. -/
structure ReplacesRecorded (command : Text) (mode : RenderMode) (entry : Entry)
    (replacement : SourceReplacement) : Prop where
  made : replacementForCandidate command mode entry.1 entry.2 = .ok (some replacement)
  startIndex : (replacement.startIndex : ℚ) = (rewrittenSpan entry.1).startIndex
  endIndex : (replacement.endIndex : ℚ) = (rewrittenSpan entry.1).endIndex
  recorded : sliceText command replacement.startIndex replacement.endIndex = recordedText entry.1
  words : splitShellArgs replacement.text = authorizedWords entry.1

/-- Only authorized words are changed: the spans of the rewritten candidates are replaced in
order, and what enforced mode leaves of a command expands to nothing else. -/
structure ChangesOnlyAuthorized (command : Text) (mode : RenderMode) (entries : List Entry)
    (result : Text) : Prop where
  rewrites : ∃ changed : List (Entry × SourceReplacement),
    (changed.map Prod.fst).Perm (entries.filter fun entry => shouldRewriteCandidate mode entry.2) ∧
      (∀ change ∈ changed, ReplacesRecorded command mode change.1 change.2) ∧
      Rewrites 0 command (changed.map Prod.snd) result
  enforced : mode = .enforced → ∀ entry ∈ entries,
    (entry.2 ≠ some .safeBuiltins → shouldRewriteCandidate mode entry.2 = true) ∧
      ExpandsNothing (argumentText entry.1)

theorem floor_toNat {number : ℚ} (whole : isInteger number = true) (positive : 0 ≤ number) :
    ((⌊number⌋.toNat : ℕ) : ℚ) = number := by
  obtain ⟨integer, rfl⟩ : ∃ integer : ℤ, (integer : ℚ) = number :=
    ⟨number.num, Rat.coe_int_num_of_den_eq_one (of_decide_eq_true whole)⟩
  rw [Int.floor_intCast]
  exact_mod_cast Int.toNat_of_nonneg (Int.cast_nonneg_iff.mp positive)

theorem validateSpan_ok {span : SourceSpan} {expectedText : Text}
    (valid : validateSpan command span expectedText = .ok ()) :
    ((⌊span.startIndex⌋.toNat : ℕ) : ℚ) = span.startIndex ∧
      ((⌊span.endIndex⌋.toNat : ℕ) : ℚ) = span.endIndex ∧
      ⌊span.startIndex⌋.toNat < ⌊span.endIndex⌋.toNat ∧ ⌊span.endIndex⌋.toNat ≤ command.length ∧
      sliceText command ⌊span.startIndex⌋.toNat ⌊span.endIndex⌋.toNat = expectedText := by
  unfold validateSpan at valid
  split at valid
  case isTrue => cases valid
  case isFalse inside =>
    split at valid
    case isTrue => cases valid
    case isFalse same =>
      simp only [not_or, Bool.not_eq_true', Bool.not_eq_false, not_lt, not_le] at inside
      obtain ⟨wholeStart, wholeEnd, positive, length, nonempty⟩ := inside
      have start := floor_toNat wholeStart positive
      have stop := floor_toNat wholeEnd (positive.trans nonempty.le)
      refine ⟨start, stop, ?_, ?_, not_not.mp same⟩
      · rw [← start, ← stop] at nonempty
        exact Nat.cast_lt.mp nonempty
      · rw [← stop] at length
        exact Nat.cast_le.mp length

theorem replaceSpan_ok {span : SourceSpan} {expectedText text : Text} {made}
    (replaced : replaceSpan command span expectedText text = .ok made) :
    validateSpan command span expectedText = .ok () ∧ made =
      some { startIndex := ⌊span.startIndex⌋.toNat, endIndex := ⌊span.endIndex⌋.toNat, text } := by
  unfold replaceSpan at replaced
  cases valid : validateSpan command span expectedText with
  | error reason =>
      rw [valid] at replaced
      cases replaced
  | ok done =>
      rw [valid] at replaced
      exact ⟨rfl, (Except.ok.inj replaced).symm⟩

/-- What a candidate that is not refused gives: nothing, or the rendered words at its span. -/
theorem replacementForCandidate_ok {made : Option SourceReplacement}
    (replaced : replacementForCandidate command mode candidate satisfiedBy = .ok made) :
    (mode = .enforced → hasArgumentShellExpansionSource candidate = false) ∧
      ((shouldRewriteCandidate mode satisfiedBy = false ∧ made = none) ∨
        (shouldRewriteCandidate mode satisfiedBy = true ∧
          ∃ words, authorizedWords candidate = some words ∧
            (hasDispatchWrapper candidate.sourceSegment = false → [] ∉ words) ∧
            replaceSpan command (rewrittenSpan candidate) (recordedText candidate)
              (renderSourcePreservingArgv words) = .ok made)) := by
  unfold replacementForCandidate at replaced
  split at replaced
  case isTrue => cases replaced
  case isFalse inert =>
    refine ⟨fun enforced => by simpa [enforced] using inert, ?_⟩
    split at replaced
    case isTrue kept => exact .inl ⟨by simpa using kept, (Except.ok.inj replaced).symm⟩
    case isFalse rewritten =>
      refine .inr ⟨by simpa using rewritten, ?_⟩
      split at replaced
      case h_1 => cases replaced
      case h_2 plannedArgv planned =>
        split at replaced
        case isTrue => cases replaced
        case isFalse =>
          split at replaced
          case isTrue => cases replaced
          case isFalse =>
            split at replaced
            case isTrue dispatched =>
              refine ⟨plannedArgv, ?_, fun alone => by simp [dispatched] at alone, ?_⟩
              · rw [authorizedWords, planned, Option.map_some, if_pos dispatched]
              · rw [rewrittenSpan, if_pos dispatched, recordedText, if_pos dispatched]
                exact replaced
            case isFalse alone =>
              dsimp only at replaced
              split at replaced
              case isTrue => cases replaced
              case isFalse executable =>
                split at replaced
                case isTrue => cases replaced
                case isFalse =>
                  obtain _ | ⟨first, rest⟩ := plannedArgv
                  · exact absurd rfl executable
                  · refine ⟨[first], ?_, fun _ mem => executable (List.mem_singleton.mp mem).symm, ?_⟩
                    · rw [authorizedWords, planned, Option.map_some, if_neg alone]
                      rfl
                    · have single : renderSourcePreservingArgv [first] = renderBareShellToken first := by
                        simp [renderSourcePreservingArgv]
                      rw [rewrittenSpan, if_neg alone, recordedText, if_neg alone, single]
                      exact replaced

theorem collectCandidateReplacements_cons {entry : Entry} {entries : List Entry}
    (collected : collectCandidateReplacements command mode (entry :: entries) = .ok replacements) :
    ∃ made rest, replacementForCandidate command mode entry.1 entry.2 = .ok made ∧
      collectCandidateReplacements command mode entries = .ok rest ∧
      replacements = made.toList ++ rest := by
  rw [collectCandidateReplacements] at collected
  cases replaced : replacementForCandidate command mode entry.1 entry.2 with
  | error reason =>
      rw [replaced] at collected
      cases collected
  | ok made =>
      cases others : collectCandidateReplacements command mode entries with
      | error reason =>
          rw [replaced, others] at collected
          cases collected
      | ok rest =>
          rw [replaced, others] at collected
          exact ⟨made, rest, rfl, rfl, (Except.ok.inj collected).symm⟩

/-- What a replacement is made of: its words are rendered at its span. -/
theorem words_of_made {entry : Entry}
    (made : replacementForCandidate command mode entry.1 entry.2 = .ok (some replacement)) :
    ∃ words, authorizedWords entry.1 = some words ∧
      (hasDispatchWrapper entry.1.sourceSegment = false → [] ∉ words) ∧
      replacement.text = renderSourcePreservingArgv words ∧ Placed command replacement ∧
      (replacement.startIndex : ℚ) = (rewrittenSpan entry.1).startIndex ∧
      (replacement.endIndex : ℚ) = (rewrittenSpan entry.1).endIndex ∧
      sliceText command replacement.startIndex replacement.endIndex = recordedText entry.1 := by
  obtain ⟨_, ⟨_, none_⟩ | ⟨_, words, authorized, filled, replaced⟩⟩ := replacementForCandidate_ok made
  · cases none_
  · obtain ⟨valid, same⟩ := replaceSpan_ok replaced
    obtain ⟨start, stop, nonempty, inside, recorded⟩ := validateSpan_ok valid
    cases same
    exact ⟨words, authorized, filled, rfl, ⟨nonempty, inside⟩, start, stop, recorded⟩

/-- The replacements that are collected, each beside its candidate. -/
theorem changed_of_collected {entries : List Entry}
    (collected : collectCandidateReplacements command mode entries = .ok replacements) :
    (mode = .enforced → ∀ entry ∈ entries, hasArgumentShellExpansionSource entry.1 = false) ∧
      ∃ changed : List (Entry × SourceReplacement),
        changed.map Prod.fst = entries.filter (fun entry => shouldRewriteCandidate mode entry.2) ∧
        changed.map Prod.snd = replacements ∧ ∀ change ∈ changed,
          replacementForCandidate command mode change.1.1 change.1.2 = .ok (some change.2) := by
  induction entries generalizing replacements with
  | nil =>
      rw [collectCandidateReplacements] at collected
      cases collected
      exact ⟨fun _ _ mem => absurd mem List.not_mem_nil, [], rfl, rfl,
        fun _ mem => absurd mem List.not_mem_nil⟩
  | cons entry entries ih =>
      obtain ⟨made, rest, replaced, others, rfl⟩ := collectCandidateReplacements_cons collected
      obtain ⟨inert, changed, sources, texts, each⟩ := ih others
      obtain ⟨first, cases_⟩ := replacementForCandidate_ok replaced
      refine ⟨fun enforced => List.forall_mem_cons.mpr ⟨first enforced, inert enforced⟩, ?_⟩
      obtain ⟨kept, rfl⟩ | ⟨rewritten, words, _, _, replacedSpan⟩ := cases_
      · exact ⟨changed, by rw [List.filter_cons_of_neg (by simp [kept]), sources], texts, each⟩
      · obtain ⟨_, rfl⟩ := replaceSpan_ok replacedSpan
        refine ⟨(entry, _) :: changed, ?_, ?_, List.forall_mem_cons.mpr ⟨replaced, each⟩⟩
        · rw [List.filter_cons_of_pos (by simpa using rewritten), List.map_cons, sources]
        · rw [List.map_cons, texts]
          rfl

theorem sortReplacements_map (changed : List (Entry × SourceReplacement)) :
    ∃ sorted : List (Entry × SourceReplacement), sorted.Perm changed ∧
      sorted.map Prod.snd = sortReplacements (changed.map Prod.snd) :=
  ⟨changed.mergeSort fun left right => left.2.startIndex ≤ right.2.startIndex,
    List.mergeSort_perm .., List.map_mergeSort fun _ _ _ _ => rfl⟩

/-- The planned argv of a command that is dispatched by a wrapper has no empty word. -/
def NoEmptyDispatchedWord (mode : RenderMode) (entries : List Entry) : Prop :=
  ∀ entry ∈ entries, shouldRewriteCandidate mode entry.2 = true →
    hasDispatchWrapper entry.1.sourceSegment = true →
    ∀ plannedArgv, resolvePlannedSegmentArgv entry.1.sourceSegment = some plannedArgv →
      [] ∉ plannedArgv

theorem changesOnlyAuthorized_iff {entries : List Entry}
    (collected : collectCandidateReplacements command mode entries = .ok replacements)
    (applied : applyReplacements command replacements = .ok result) :
    ChangesOnlyAuthorized command mode entries result ↔ NoEmptyDispatchedWord mode entries := by
  obtain ⟨inert, changed, sources, rfl, each⟩ := changed_of_collected collected
  obtain ⟨sorted, perm, order⟩ := sortReplacements_map changed
  constructor
  · rintro ⟨⟨changed', sources', recorded, _⟩, _⟩ entry mem rewritten dispatched plannedArgv planned
    have mem' := sources'.mem_iff.mpr (List.mem_filter.mpr ⟨mem, rewritten⟩)
    obtain ⟨change, memChange, rfl⟩ := List.mem_map.mp mem'
    have replaces := recorded change memChange
    obtain ⟨words, authorized, _, text, _⟩ := words_of_made replaces.made
    have split := replaces.words
    rw [text, splitShellArgs_render, authorized, Option.some.injEq, List.filter_eq_self] at split
    rw [authorizedWords, planned, Option.map_some, if_pos dispatched, Option.some.injEq] at authorized
    subst authorized
    exact fun empty => of_decide_eq_true (split [] empty) rfl
  · intro filled
    refine ⟨⟨sorted, ?_, ?_, ?_⟩, fun enforced entry mem => ⟨?_, ?_⟩⟩
    · exact sources ▸ perm.map Prod.fst
    · intro change mem
      have memChanged := perm.mem_iff.mp mem
      have made := each change memChanged
      obtain ⟨words, authorized, alone, text, _, start, stop, recorded⟩ := words_of_made made
      refine ⟨made, start, stop, recorded, ?_⟩
      have noEmpty : [] ∉ words := by
        cases dispatched : hasDispatchWrapper change.1.1.sourceSegment with
        | false => exact alone dispatched
        | true =>
            have source := List.mem_map_of_mem (f := Prod.fst) memChanged
            rw [sources] at source
            obtain ⟨memEntry, rewritten⟩ := List.mem_filter.mp source
            rw [authorizedWords, Option.map_eq_some_iff] at authorized
            obtain ⟨plannedArgv, planned, same⟩ := authorized
            rw [if_pos dispatched] at same
            exact same ▸ filled _ memEntry rewritten dispatched plannedArgv planned
      rw [text, splitShellArgs_render, authorized, Option.some.injEq, List.filter_eq_self]
      exact fun word mem => decide_eq_true fun empty => noEmpty (empty ▸ mem)
    · rw [order]
      refine sorted_of_applied applied fun replacement mem => ?_
      obtain ⟨change, memChange, rfl⟩ := List.mem_map.mp mem
      obtain ⟨_, _, _, _, placed, _⟩ := words_of_made (each change memChange)
      exact placed
    · intro external
      rw [enforced, shouldRewriteCandidate]
      exact decide_eq_true external
    · exact expandsNothing_of_scan (inert enforced entry mem)

/-- A command that is rendered from a plan: what was collected and applied. -/
theorem collected_of_rendered {groups : List (List ExecAuthorizationCandidate)}
    {segmentSatisfiedBy : Option (List (Option SatisfiedBy))}
    (rendered : buildAuthorizedShellCommandFromPlan (.ok .posixShell command groups) mode
      segmentSatisfiedBy = .ok result) :
    ∃ replacements,
      collectCandidateReplacements command mode (groups.flatten.zip (segmentSatisfiedBy.getD [])) =
        .ok replacements ∧ applyReplacements command replacements = .ok result := by
  unfold buildAuthorizedShellCommandFromPlan at rendered
  dsimp only at rendered
  rw [if_neg (by simp)] at rendered
  split at rendered
  case isTrue => cases rendered
  case isFalse =>
    cases collected : collectCandidateReplacements command mode
        (groups.flatten.zip (segmentSatisfiedBy.getD [])) with
    | error reason =>
        rw [collected] at rendered
        cases rendered
    | ok replacements =>
        rw [collected] at rendered
        exact ⟨replacements, rfl, rendered⟩

/-- A wrapper that dispatches `p` with one more word. -/
def dispatched (word : Text) (command : Text) : ExecAuthorizationCandidate where
  sourceSegment := {
    argv := [[0x70], word]
    resolution := some { wrapperChain := [lit "env"] } }
  sourceStep := {
    text := command
    span := { startIndex := 0, endIndex := command.length }
    executableSpan := { startIndex := 0, endIndex := 1 } }

theorem rendered_of_single {candidate : ExecAuthorizationCandidate} {satisfiedBy : SatisfiedBy}
    (made : replacementForCandidate command mode candidate (some satisfiedBy) =
      .ok (some replacement)) :
    buildAuthorizedShellCommandFromPlan (.ok .posixShell command [[candidate]]) mode
      (some [some satisfiedBy]) = .ok (applyReplacement command replacement) := by
  simp [buildAuthorizedShellCommandFromPlan, collectCandidateReplacements, made, applyReplacements,
    sortReplacements, hasOverlap, Bind.bind, Except.bind, Pure.pure, Except.pure]

theorem replacementForCandidate_dispatched (word : Text) (nonempty : 0 < command.length)
    (inert : hasUnquotedShellExpansionSource (command.drop 1) = false) :
    replacementForCandidate command .enforced (dispatched word command) (some .allowlist) =
      .ok (some {
        startIndex := 0
        endIndex := command.length
        text := renderSourcePreservingArgv [[0x70], word] }) := by
  have scan : hasArgumentShellExpansionSource (dispatched word command) = false := by
    simpa [hasArgumentShellExpansionSource, argumentText, dispatched] using inert
  have planned : resolvePlannedSegmentArgv (dispatched word command).sourceSegment =
      some [[0x70], word] := rfl
  have valid : validateSpan command (dispatched word command).sourceStep.span command = .ok () := by
    simp [validateSpan, dispatched, isInteger, sliceText, nonempty.ne']
  have replaced : replaceSpan command (dispatched word command).sourceStep.span command
      (renderSourcePreservingArgv [[0x70], word]) = .ok (some {
        startIndex := 0
        endIndex := command.length
        text := renderSourcePreservingArgv [[0x70], word] }) := by
    rw [replaceSpan, valid]
    simp [dispatched, Bind.bind, Except.bind, Pure.pure, Except.pure]
  rw [replacementForCandidate, if_neg (by simp [scan]), if_neg (by decide), planned]
  exact replaced

end OpenClaw.Shell
