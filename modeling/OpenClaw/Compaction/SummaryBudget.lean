import OpenClaw.Lib.Fallible
import OpenClaw.Lib.Occurrence
import OpenClaw.Compaction.Summary

/-!
The budget of a compaction summary. It never exceeds its limit. The room that is kept
for the text before the turn context is only that of the history, so the section of the
unresolved request can be cut; it is in the summary exactly when it fits beside what is
kept of the turn context, or when that context or the file lists repeat it.
-/

namespace Compaction

open JsUnits NormalizationCore

theorem marker_length : SUMMARY_TRUNCATED_MARKER.length = 46 := by decide

/-- The marker begins with an empty line. -/
def markerLine : Text := lit "[Compaction summary truncated to fit budget]"

theorem marker_eq : SUMMARY_TRUNCATED_MARKER = lineFeed :: lineFeed :: markerLine := by decide

theorem capCompactionSummary_eq (before after : Text) {limit : Nat} (positive : 0 < limit)
    (room : SUMMARY_TRUNCATED_MARKER.length + after.length ≤ limit) :
    capCompactionSummary (before ++ after) limit after =
      if before.length + after.length ≤ limit then before ++ after
      else
        before.take (cutLength before (limit - SUMMARY_TRUNCATED_MARKER.length - after.length)) ++
          SUMMARY_TRUNCATED_MARKER ++ after := by
  have ends : after <:+ before ++ after := List.suffix_append _ _
  have fits : ¬ (limit : Int) < SUMMARY_TRUNCATED_MARKER.length + after.length := by omega
  simp only [capCompactionSummary, ends, if_true, fits, if_false]
  by_cases short : before.length + after.length ≤ limit
  · rw [if_pos short, if_pos (.inr (by rw [List.length_append]; omega))]
  · rw [if_neg short, if_neg (by rw [List.length_append]; omega)]
    have budget : (limit : Int) - SUMMARY_TRUNCATED_MARKER.length - after.length =
        (limit - SUMMARY_TRUNCATED_MARKER.length - after.length : Nat) := by omega
    have head : (before ++ after).take ((before ++ after).length - after.length) = before := by
      rw [List.length_append, Nat.add_sub_cancel, List.take_left]
    rw [budget, head, truncateUtf16Safe_eq_take (by omega)]

theorem capCompactionSummary_length_le (before after : Text) {limit : Nat} (positive : 0 < limit)
    (room : SUMMARY_TRUNCATED_MARKER.length + after.length ≤ limit) :
    (capCompactionSummary (before ++ after) limit after).length ≤ limit := by
  rw [capCompactionSummary_eq before after positive room]
  split
  case isTrue short => rwa [List.length_append]
  case isFalse long =>
    have kept := cutLength_le before (limit - SUMMARY_TRUNCATED_MARKER.length - after.length)
    simp only [List.length_append, List.length_take]
    omega

theorem formatFileOperations_length_le (readFiles modifiedFiles : List Text) :
    (formatFileOperations readFiles modifiedFiles).length ≤ MAX_FILE_OPS_SECTION_CHARS := by
  unfold formatFileOperations
  dsimp only
  split
  · exact Nat.zero_le _
  · split
    · rw [List.length_take]
      exact min_le_left _ _
    · omega

theorem formatFileOperations_starts (readFiles modifiedFiles : List Text) :
    formatFileOperations readFiles modifiedFiles = [] ∨
      ∃ lists, formatFileOperations readFiles modifiedFiles = lineFeed :: lineFeed :: lists := by
  unfold formatFileOperations
  dsimp only
  split
  · exact .inl rfl
  · right
    split
    · exact ⟨_, rfl⟩
    · exact ⟨_, rfl⟩

section Section

variable (request : Text) {left right : Text}

theorem requestSection_head? : (requestSection request).head? = some (unit '#') := rfl

theorem requestSection_getLast? : (requestSection request).getLast? = some quotationMark := by
  rw [requestSection, List.getLast?_append, stringify_getLast?, Option.some_or]

/-- The only line feed of the section ends the heading, before a quotation mark. -/
theorem requestSection_single : ¬ [lineFeed, lineFeed] <:+: requestSection request := by
  intro doubled
  have twice : 2 ≤ (requestSection request).count lineFeed := doubled.sublist.count_le lineFeed
  have heading : requestHeading.count lineFeed = 1 := by decide
  have quoted : (stringify request).count lineFeed = 0 :=
    List.count_eq_zero.mpr (lineFeed_not_mem_stringify request)
  rw [requestSection, List.count_append, heading, quoted] at twice
  exact absurd twice (by decide)

theorem infix_after_gap_iff : requestSection request <:+: left ++ lineFeed :: lineFeed :: right ↔
    requestSection request <:+: left ∨ requestSection request <:+: right :=
  Occurrence.infix_doubled_iff (requestSection_single request) (by simp [requestSection, requestHeading, lit])
    (by rw [requestSection_head?]; decide) (by rw [requestSection_getLast?]; decide)

theorem infix_marked_iff : requestSection request <:+: left ++ SUMMARY_TRUNCATED_MARKER ++ right ↔
    requestSection request <:+: left ∨ requestSection request <:+: right := by
  rw [marker_eq, List.append_assoc, List.cons_append, List.cons_append, infix_after_gap_iff]
  refine or_congr_right ⟨fun found => ?_, fun found => ?_⟩
  · exact Occurrence.infix_of_infix_append_not_mem (requestSection_head? request) (by decide) found
  · exact found.trans (List.suffix_append _ _).isInfix

theorem cutLength_section (rest : Text) :
    cutLength (requestSection request ++ rest) (requestSection request).length =
      (requestSection request).length := by
  have last := requestSection_getLast? request
  rw [List.getLast?_eq_getElem?] at last
  have inside : (requestSection request).length - 1 < (requestSection request).length := by
    have occupied : 0 < (requestSection request).length := by simp [requestSection, requestHeading, lit]
    omega
  have mark : (requestSection request ++ rest).getD ((requestSection request).length - 1) 0 =
      quotationMark := by
    rw [List.getD_eq_getElem?_getD, List.getElem?_append_left inside, last, Option.getD_some]
  rw [cutLength, mark]
  exact if_neg fun pair => absurd pair.2.1 (by decide)

/-- A cut behind the section never reaches back into it: it ends in a quotation mark. -/
theorem infix_take_cutLength_iff (rest : Text) (budget : Nat) :
    requestSection request <:+:
        (requestSection request ++ rest).take (cutLength (requestSection request ++ rest) budget) ↔
      (requestSection request).length ≤ budget := by
  refine ⟨fun found => ?_, fun fits => ?_⟩
  · have shorter := found.length_le
    have cut := cutLength_le (requestSection request ++ rest) budget
    rw [List.length_take] at shorter
    omega
  · have reach : (requestSection request).length ≤
        cutLength (requestSection request ++ rest) budget := by
      rcases Nat.eq_or_lt_of_le fits with exact_ | longer
      · rw [← exact_, cutLength_section]
      · exact le_trans (Nat.le_sub_one_of_lt longer) (le_cutLength _ _)
    rw [List.take_append, List.take_of_length_le reach]
    exact (List.prefix_append _ _).isInfix

end Section

/-- The room of the turn context beside the marker, the file lists and its share of history. -/
def turnContextRoom (history fileOperations : Text) : Nat :=
  MAX_COMPACTION_SUMMARY_CHARS - SUMMARY_TRUNCATED_MARKER.length - fileOperations.length -
    min history.length (MAX_COMPACTION_SUMMARY_CHARS / 2)

/-- How many units of the turn context are kept. -/
def keptTurnContext (history context fileOperations : Text) : Nat :=
  let room := turnContextRoom history fileOperations
  if context.length ≤ room then context.length
  else cutLength context (room - SUMMARY_TRUNCATED_MARKER.length)

/-- The length of what follows the history: the turn context, marked if it is cut, and the files. -/
def latestContextLength (history context fileOperations : Text) : Nat :=
  keptTurnContext history context fileOperations +
    (if context.length ≤ turnContextRoom history fileOperations then 0
      else SUMMARY_TRUNCATED_MARKER.length) +
    fileOperations.length

/-- The section stands beside all the rest, or beside what follows the history and a marker; or
the turn context or the file lists repeat it. -/
def RequestFits (request history context fileOperations : Text) : Prop :=
  let latest := latestContextLength history context fileOperations
  (requestSection request).length + 2 + history.length + latest ≤ MAX_COMPACTION_SUMMARY_CHARS ∨
    (requestSection request).length + SUMMARY_TRUNCATED_MARKER.length + latest ≤
      MAX_COMPACTION_SUMMARY_CHARS ∨
    requestSection request <:+: context.take (keptTurnContext history context fileOperations) ∨
    requestSection request <:+: fileOperations

/-- What follows the history. -/
def latestContext (history context fileOperations : Text) : Text :=
  capCompactionSummary context (turnContextRoom history fileOperations) [] ++ fileOperations

section Latest

variable (history context : Text) {fileOperations : Text}
  (bounded : fileOperations.length ≤ MAX_FILE_OPS_SECTION_CHARS)

include bounded

theorem turnContextRoom_ge : 5000 ≤ turnContextRoom history fileOperations := by
  have half := min_le_right history.length (MAX_COMPACTION_SUMMARY_CHARS / 2)
  simp only [turnContextRoom, MAX_COMPACTION_SUMMARY_CHARS, MAX_FILE_OPS_SECTION_CHARS,
    marker_length] at half bounded ⊢
  omega

theorem turnContextRoom_marker : 0 < turnContextRoom history fileOperations ∧
    SUMMARY_TRUNCATED_MARKER.length + ([] : Text).length ≤
      turnContextRoom history fileOperations := by
  have room := turnContextRoom_ge history bounded
  rw [marker_length, List.length_nil]
  omega

theorem latestContext_eq : latestContext history context fileOperations =
    context.take (keptTurnContext history context fileOperations) ++
      (if context.length ≤ turnContextRoom history fileOperations then []
        else SUMMARY_TRUNCATED_MARKER) ++ fileOperations := by
  obtain ⟨positive, marked⟩ := turnContextRoom_marker history bounded
  have capped := capCompactionSummary_eq context [] positive marked
  rw [List.append_nil, List.append_nil, List.length_nil, Nat.add_zero, Nat.sub_zero] at capped
  rw [latestContext, capped, keptTurnContext]
  split
  · rw [List.take_length, List.append_nil]
  · rfl

theorem latestContext_length : (latestContext history context fileOperations).length =
    latestContextLength history context fileOperations := by
  have kept : keptTurnContext history context fileOperations ≤ context.length := by
    have cut := cutLength_le context
      (turnContextRoom history fileOperations - SUMMARY_TRUNCATED_MARKER.length)
    rw [keptTurnContext]
    split <;> omega
  rw [latestContext_eq history context bounded, latestContextLength, List.length_append,
    List.length_append, List.length_take, min_eq_left kept]
  split <;> simp

theorem latestContext_room : SUMMARY_TRUNCATED_MARKER.length +
    (latestContext history context fileOperations).length ≤ MAX_COMPACTION_SUMMARY_CHARS := by
  obtain ⟨positive, marked⟩ := turnContextRoom_marker history bounded
  have cap := capCompactionSummary_length_le context [] positive marked
  have whole : turnContextRoom history fileOperations + SUMMARY_TRUNCATED_MARKER.length +
      fileOperations.length ≤ MAX_COMPACTION_SUMMARY_CHARS := by
    rw [turnContextRoom] at positive ⊢
    omega
  rw [List.append_nil] at cap
  rw [latestContext, List.length_append]
  omega

theorem infix_latestContext_iff (request : Text) (starts : fileOperations = [] ∨
    ∃ lists, fileOperations = lineFeed :: lineFeed :: lists) :
    requestSection request <:+: latestContext history context fileOperations ↔
      requestSection request <:+: context.take (keptTurnContext history context fileOperations) ∨
        requestSection request <:+: fileOperations := by
  rw [latestContext_eq history context bounded]
  split
  · rw [List.append_nil]
    rcases starts with none | ⟨lists, some⟩
    · have occupied : requestSection request ≠ [] := by simp [requestSection, requestHeading, lit]
      simp [none, occupied]
    · have inside : requestSection request <:+: fileOperations ↔
          requestSection request <:+: lists := by
        rw [some, ← List.nil_append (lineFeed :: _), infix_after_gap_iff]
        simp [requestSection, requestHeading, lit]
      rw [inside, some, infix_after_gap_iff]
  · exact infix_marked_iff request

theorem infix_summary_iff (request : Text) (starts : fileOperations = [] ∨
    ∃ lists, fileOperations = lineFeed :: lineFeed :: lists) :
    requestSection request <:+: capCompactionSummary
        (requestSection request ++ lit "\n\n" ++ history ++
          latestContext history context fileOperations) MAX_COMPACTION_SUMMARY_CHARS
        (latestContext history context fileOperations) ↔
      RequestFits request history context fileOperations := by
  have room := latestContext_room history context bounded
  have total := latestContext_length history context bounded
  have gap : (lit "\n\n").length = 2 := rfl
  have head : requestSection request <+: requestSection request ++ lit "\n\n" ++ history := by
    rw [List.append_assoc]
    exact List.prefix_append _ _
  rw [capCompactionSummary_eq _ _ (by decide) room]
  simp only [RequestFits, ← total, List.length_append, gap,
    ← infix_latestContext_iff history context bounded request starts]
  split
  case isTrue whole =>
    exact ⟨fun _ => .inl whole, fun _ => head.isInfix.trans (List.prefix_append _ _).isInfix⟩
  case isFalse cut =>
    rw [infix_marked_iff]
    set budget := MAX_COMPACTION_SUMMARY_CHARS - SUMMARY_TRUNCATED_MARKER.length -
      (latestContext history context fileOperations).length with budgeted
    rw [List.append_assoc, infix_take_cutLength_iff]
    constructor
    · rintro (fits | inside)
      · exact .inr (.inl (by omega))
      · exact .inr (.inr inside)
    · rintro (whole | fits | inside)
      · exact absurd whole cut
      · exact .inl (by omega)
      · exact .inr inside

end Latest

namespace SummaryPreparation

variable {Message : Type} {summarizer : Summarizer Message}
  {preparation : SummaryPreparation Message} {result : CompactionResult}

/-- The budget of a summary, and the section of a request that is present. -/
structure Budgeted (preparation : SummaryPreparation Message) (summary : Text) : Prop where
  bounded : summary.length ≤ MAX_COMPACTION_SUMMARY_CHARS
  complete : ∀ request, preparation.latestUnresolvedUserRequest = some request → request ≠ [] →
    requestSection request <:+: summary

theorem compact_summary (compacted : preparation.compact summarizer = .ok result) :
    ∃ history context, preparation.historySummary summarizer = .ok history ∧
      preparation.turnContext summarizer = .ok context ∧
      result.summary = capCompactionSummary
        (preparation.unresolvedRequestContext ++ history ++
          latestContext history context preparation.fileOperations) MAX_COMPACTION_SUMMARY_CHARS
        (latestContext history context preparation.fileOperations) := by
  simp only [compact, Fallible.check_eq_ok, Fallible.bind_eq_ok, Fallible.pure_eq_ok] at compacted
  obtain ⟨_, history, summarized, context, split, rfl⟩ := compacted
  refine ⟨history, context, summarized, split, ?_⟩
  have positive := turnContextRoom_ge history (formatFileOperations_length_le
    (computeFileLists preparation.fileOps).1 (computeFileLists preparation.fileOps).2)
  have room : (MAX_COMPACTION_SUMMARY_CHARS : Int) - SUMMARY_TRUNCATED_MARKER.length -
      preparation.fileOperations.length -
      (min history.length (MAX_COMPACTION_SUMMARY_CHARS / 2) : Nat) =
      (turnContextRoom history preparation.fileOperations : Nat) := by
    rw [fileOperations, turnContextRoom] at *
    omega
  rw [latestContext, ← room]
  rfl

theorem compact_summary_budgeted_iff (compacted : preparation.compact summarizer = .ok result) :
    ∃ history context, preparation.historySummary summarizer = .ok history ∧
      preparation.turnContext summarizer = .ok context ∧
      (Budgeted preparation result.summary ↔
        ∀ request, preparation.latestUnresolvedUserRequest = some request → request ≠ [] →
          RequestFits request history context preparation.fileOperations) := by
  obtain ⟨history, context, summarized, split, same⟩ := compact_summary compacted
  have bounded : preparation.fileOperations.length ≤ MAX_FILE_OPS_SECTION_CHARS :=
    formatFileOperations_length_le _ _
  have starts := formatFileOperations_starts (computeFileLists preparation.fileOps).1
    (computeFileLists preparation.fileOps).2
  have short : result.summary.length ≤ MAX_COMPACTION_SUMMARY_CHARS := by
    rw [same]
    exact capCompactionSummary_length_le _ _ (by decide) (latestContext_room history context bounded)
  refine ⟨history, context, summarized, split, fun budgeted request present occupied => ?_,
    fun fits => ⟨short, fun request present occupied => ?_⟩⟩
  all_goals
    have section_ : preparation.unresolvedRequestContext =
        requestSection request ++ lit "\n\n" := by
      rw [unresolvedRequestContext, present]
      cases request with
      | nil => exact absurd rfl occupied
      | cons u us => rfl
    have occurs := infix_summary_iff history context bounded request starts
    rw [← section_, ← same] at occurs
  · exact occurs.mp (budgeted.complete request present occupied)
  · exact occurs.mpr (fits request present occupied)

/-- A turn that is split before its first summary, while a request waits. -/
def splitTurn : SummaryPreparation Unit where
  firstKeptEntryId := lit "e1"
  messagesToSummarize := []
  turnPrefixMessages := [()]
  isSplitTurn := true
  latestUnresolvedUserRequest := some (lit "Fix the bug")
  tokensBefore := 100000
  previousSummary := none
  previousSummaryDetails := none
  fileOps := {}

def answering (turnPrefix : Text) : Summarizer Unit where
  generateSummary _ _ := .ok (lit "Done.")
  summarizeTurnPrefix _ := .ok turnPrefix

theorem compact_summary_budgeted_split : ∃ result,
    splitTurn.compact (answering (lit "Read the file.")) = .ok result ∧
    ∃ history context,
      splitTurn.historySummary (answering (lit "Read the file.")) = .ok history ∧
      splitTurn.turnContext (answering (lit "Read the file.")) = .ok context ∧
      (Budgeted splitTurn result.summary ↔
        ∀ request, splitTurn.latestUnresolvedUserRequest = some request → request ≠ [] →
          RequestFits request history context splitTurn.fileOperations) :=
  ⟨_, rfl, compact_summary_budgeted_iff rfl⟩

def longTurnPrefix : Text := List.replicate 20000 (unit 'a')

theorem splitTurn_fileOperations : splitTurn.fileOperations = [] := by
  have none : computeFileLists splitTurn.fileOps = ([], []) := by
    simp [computeFileLists, distinct, splitTurn]
  rw [fileOperations, none]
  rfl

/-- A long turn context behind a short history pushes the request out of its own section. -/
theorem not_requestFits_splitTurn : ¬ RequestFits (lit "Fix the bug") (lit "No prior history.")
    (turnContextHeading ++ longTurnPrefix) [] := by
  have room : turnContextRoom (lit "No prior history.") [] = 15937 := by decide
  have long : ¬ (turnContextHeading ++ longTurnPrefix).length ≤ 15937 := by
    simp only [List.length_append, longTurnPrefix, List.length_replicate]
    omega
  have cut := le_cutLength (turnContextHeading ++ longTurnPrefix) (15937 - 46)
  have latest : 15936 ≤ latestContextLength (lit "No prior history.")
      (turnContextHeading ++ longTurnPrefix) [] := by
    simp only [latestContextLength, keptTurnContext, room, long, if_false, marker_length]
    omega
  have section_ : (requestSection (lit "Fix the bug")).length = 47 := by decide
  have history : (lit "No prior history.").length = 17 := by decide
  simp only [RequestFits, section_, history, MAX_COMPACTION_SUMMARY_CHARS, marker_length]
  rintro (whole | fits | repeated | none)
  · omega
  · omega
  · have hash : unit '#' ∈ turnContextHeading ++ longTurnPrefix :=
      List.mem_of_mem_take (repeated.subset (List.mem_of_mem_head? (requestSection_head? _)))
    rcases List.mem_append.mp hash with mem | mem
    · exact absurd mem (by decide)
    · exact absurd (List.eq_of_mem_replicate mem) (by decide)
  · exact absurd none.length_le (by rw [section_]; decide)

theorem compact_cuts_request : ¬ ∀ (summarizer : Summarizer Unit) preparation result,
    preparation.compact summarizer = .ok result → Budgeted preparation result.summary := by
  intro always
  obtain ⟨result, compacted⟩ : ∃ result,
      splitTurn.compact (answering longTurnPrefix) = .ok result := ⟨_, rfl⟩
  obtain ⟨history, context, summarized, split, same⟩ := compact_summary compacted
  obtain rfl : lit "No prior history." = history := Except.ok.inj summarized
  obtain rfl : turnContextHeading ++ longTurnPrefix = context := Except.ok.inj split
  have complete := (always _ _ _ compacted).complete (lit "Fix the bug") rfl (by decide)
  rw [same, splitTurn_fileOperations] at complete
  exact not_requestFits_splitTurn ((infix_summary_iff _ _ (by decide) _ (.inl rfl)).mp complete)

end SummaryPreparation

end Compaction
