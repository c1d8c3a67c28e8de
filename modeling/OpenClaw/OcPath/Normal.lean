import OpenClaw.Lib.Occurrence
import OpenClaw.OcPath.Formatted

/-!
Canonical composition and the grammar of paths. A text is its runs without grammar units
with these units between them, and normalizing it normalizes the runs; what the scan, the
splitting and the quoting see of a text is the same after normalization.
-/

namespace OpenClaw.OcPaths

open JsUnits

/-- No unit of the grammar. -/
def IsRun (text : Text) : Prop := ∀ u ∈ text, isGrammarUnit u = false

theorem runs_induction {P : Text → Prop} (run : ∀ text, IsRun text → P text)
    (step : ∀ text u rest, IsRun text → isGrammarUnit u = true → P rest → P (text ++ u :: rest))
    (text : Text) : P text := by
  induction size : text.length using Nat.strong_induction_on generalizing text with
  | _ n ih =>
      have whole : text.takeWhile (fun u => !isGrammarUnit u) ++
          text.dropWhile (fun u => !isGrammarUnit u) = text := List.takeWhile_append_dropWhile
      have head : IsRun (text.takeWhile fun u => !isGrammarUnit u) := fun u mem => by
        simpa using List.mem_takeWhile_imp mem
      cases tail : text.dropWhile fun u => !isGrammarUnit u with
      | nil =>
          rw [tail, List.append_nil] at whole
          exact run text (whole ▸ head)
      | cons u rest =>
          have unit_ : isGrammarUnit u = true := by
            have first := List.head?_dropWhile_not (fun u => !isGrammarUnit u) text
            rw [tail] at first
            simpa using first
          rw [tail] at whole
          have shorter : rest.length < n := by
            rw [← size, ← whole, List.length_append, List.length_cons]
            omega
          exact whole ▸ step _ u rest head unit_ (ih rest.length shorter rest rfl)

variable {N : Normalization} {text a b : Text} {u : UInt16}

namespace Normalization

theorem nil (N : Normalization) : N.nfc [] = [] := N.ascii [] (by simp)

theorem cons (N : Normalization) (grammar : isGrammarUnit u = true) (rest : Text) :
    N.nfc (u :: rest) = u :: N.nfc rest := by
  simpa [N.nil] using N.inert [] u rest grammar

theorem isRun_nfc (run : IsRun text) : IsRun (N.nfc text) := N.plain text run

theorem not_mem_of_isRun (run : IsRun text) (grammar : isGrammarUnit u = true) : u ∉ text :=
  fun mem => absurd (grammar.symm.trans (run u mem)) (by decide)

/-- A grammar unit divides a normalized text into normalized texts. -/
theorem fixed_append_cons (grammar : isGrammarUnit u = true) :
    N.nfc (a ++ u :: b) = a ++ u :: b ↔ N.nfc a = a ∧ N.nfc b = b := by
  refine ⟨fun fixed => ?_, fun ⟨left, right⟩ => by rw [N.inert a u b grammar, left, right]⟩
  induction a using runs_induction with
  | run text run =>
      rw [N.inert text u b grammar] at fixed
      exact (Occurrence.append_cons_inj (not_mem_of_isRun (isRun_nfc run) grammar)
        (not_mem_of_isRun run grammar)).mp fixed
  | step text v rest run unit_ ih =>
      rw [List.append_assoc, List.cons_append, N.inert text v _ unit_] at fixed
      obtain ⟨left, right⟩ := (Occurrence.append_cons_inj
        (not_mem_of_isRun (isRun_nfc run) unit_) (not_mem_of_isRun run unit_)).mp fixed
      obtain ⟨middle, last⟩ := ih right
      exact ⟨by rw [N.inert text v rest unit_, left, middle], last⟩

/-- Classes of grammar units are met in a text and its normalization alike. -/
theorem any_nfc {p : UInt16 → Bool} (grammar : ∀ u, p u = true → isGrammarUnit u = true) :
    (N.nfc text).any p = text.any p := by
  have none : ∀ {run : Text}, IsRun run → run.any p = false := fun run => by
    rw [List.any_eq_false]
    intro u mem holds
    exact absurd ((grammar u holds).symm.trans (run u mem)) (by decide)
  induction text using runs_induction with
  | run text run => rw [none run, none (isRun_nfc run)]
  | step text v rest run unit_ ih =>
      rw [N.inert text v rest unit_, List.any_append, List.any_append, List.any_cons, List.any_cons,
        ih, none run, none (isRun_nfc run)]

theorem hasControlChar_nfc : hasControlChar (N.nfc text) = hasControlChar text :=
  any_nfc fun u control => by simp [isGrammarUnit, control]

theorem mem_nfc (grammar : isGrammarUnit u = true) : u ∈ N.nfc text ↔ u ∈ text := by
  have found : (N.nfc text).any (fun v => v = u) = text.any fun v => v = u :=
    any_nfc fun v same => by
      rw [of_decide_eq_true same]
      exact grammar
  rw [Bool.eq_iff_iff] at found
  simpa using found

theorem isUnquotable_nfc : isUnquotable (N.nfc text) = isUnquotable text := by
  simp only [isUnquotable, mem_nfc (show isGrammarUnit (unit '"') = true by decide),
    mem_nfc (show isGrammarUnit (unit '\\') = true by decide)]

theorem isPieceFrom_run {delims : List UInt16} {σ : ScanState} (run : IsRun a)
    (delimiters : ∀ d ∈ delims, isGrammarUnit d = true) :
    isPieceFrom delims σ (a ++ b) = isPieceFrom delims σ b := by
  induction a with
  | nil => rfl
  | cons c cs ih =>
      obtain ⟨here, there⟩ := List.forall_mem_cons.mp run
      have plain : isRegionUnit c = false := by
        rw [← Bool.not_eq_true]
        intro region
        simp only [isRegionUnit, decide_eq_true_eq] at region
        simp only [isGrammarUnit, Bool.or_eq_false_iff, decide_eq_false_iff_not] at here
        have known : [unit '"', unit '[', unit ']', unit '{', unit '}'] ⊆ GRAMMAR_UNITS := by decide
        exact here.1 (known region)
      have absent : c ∉ delims := fun mem =>
        absurd ((delimiters c mem).symm.trans here) (by decide)
      simp only [List.cons_append, isPieceFrom, next_plain_self plain, absent, decide_false,
        Bool.and_false, Bool.not_false, Bool.true_and]
      exact ih there

theorem isPieceFrom_nfc {delims : List UInt16} {σ : ScanState}
    (delimiters : ∀ d ∈ delims, isGrammarUnit d = true) :
    isPieceFrom delims σ (N.nfc text) = isPieceFrom delims σ text := by
  induction text using runs_induction generalizing σ with
  | run text run =>
      rw [← List.append_nil (N.nfc text), ← List.append_nil text, isPieceFrom_run run delimiters,
        List.append_nil text, isPieceFrom_run (isRun_nfc run) delimiters]
  | step text v rest run unit_ ih =>
      rw [N.inert text v rest unit_, isPieceFrom_run (isRun_nfc run) delimiters,
        isPieceFrom_run run delimiters]
      simp only [isPieceFrom]
      cases σ.next v with
      | none => rfl
      | some τ => simp only [ih]

theorem startsWith_nfc (grammar : isGrammarUnit u = true) :
    startsWith (N.nfc text) u = startsWith text u := by
  have none : ∀ {run rest : Text}, IsRun run → run ≠ [] → startsWith (run ++ rest) u = false := by
    intro run rest plain some
    obtain ⟨v, vs, rfl⟩ := List.exists_cons_of_ne_nil some
    have other : v ≠ u := fun same => not_mem_of_isRun plain grammar (same ▸ List.mem_cons_self)
    simp [startsWith, other]
  induction text using runs_induction with
  | run text run =>
      by_cases empty : text = []
      · rw [empty, N.nil]
      · have bare : startsWith (text ++ []) u = false := none run empty
        have normal : startsWith (N.nfc text ++ []) u = false :=
          none (isRun_nfc run) (N.occupied text empty)
        rw [List.append_nil] at bare normal
        rw [bare, normal]
  | step text v rest run unit_ _ =>
      rw [N.inert text v rest unit_]
      by_cases empty : text = []
      · simp [empty, N.nil, startsWith]
      · rw [none run empty, none (isRun_nfc run) (N.occupied text empty)]

theorem endsWith_nfc (grammar : isGrammarUnit u = true) :
    endsWith (N.nfc text) u = endsWith text u := by
  have none : ∀ {run : Text}, IsRun run → endsWith run u = false := fun plain => by
    rw [endsWith, decide_eq_false_iff_not]
    exact fun last => not_mem_of_isRun plain grammar (List.mem_of_getLast? last)
  induction text using runs_induction with
  | run text run => rw [none run, none (isRun_nfc run)]
  | step text v rest run unit_ ih =>
      rw [N.inert text v rest unit_]
      by_cases empty : rest = []
      · simp [empty, N.nil, endsWith]
      · have tail : ∀ {x y : Text}, y ≠ [] → endsWith (x ++ v :: y) u = endsWith y u := by
          intro x y some
          obtain ⟨w, ws, rfl⟩ := List.exists_cons_of_ne_nil some
          simp [endsWith]
        rw [tail empty, tail (N.occupied rest empty), ih]

end Normalization

theorem isQuotedSeg_iff : isQuotedSeg text = true ↔ ∃ content, text = quoted content := by
  constructor
  · intro is
    simp only [isQuotedSeg, Bool.and_eq_true, decide_eq_true_eq] at is
    obtain ⟨⟨long, first⟩, last⟩ := is
    cases text with
    | nil => exact absurd long (by decide)
    | cons u rest =>
        obtain rfl : u = unit '"' := by simpa using first
        have some : rest ≠ [] := fun none => by simp [none] at long
        rw [List.getLast?_cons_of_ne_nil some] at last
        obtain ⟨content, rfl⟩ := List.getLast?_eq_some_iff.mp last
        exact ⟨content, rfl⟩
  · rintro ⟨content, rfl⟩
    rw [isQuotedSeg, quoted, List.getLast?_append]
    simp

@[simp] theorem inner_quoted (content : Text) : inner (quoted content) = content := by
  simp [inner, quoted]

@[simp] theorem isQuotedSeg_quoted (content : Text) : isQuotedSeg (quoted content) = true :=
  isQuotedSeg_iff.mpr ⟨content, rfl⟩

@[simp] theorem unquoteSeg_quoted (content : Text) : unquoteSeg (quoted content) = content := by
  simp [unquoteSeg]

namespace Normalization

theorem nfc_quoted (content : Text) : N.nfc (quoted content) = quoted (N.nfc content) := by
  rw [quoted, List.cons_append, N.cons (by decide), N.inert content _ [] (by decide), N.nil]
  rfl

theorem isQuotedSeg_nfc : isQuotedSeg (N.nfc text) = isQuotedSeg text := by
  rw [Bool.eq_iff_iff]
  constructor
  · intro is
    have first : startsWith text (unit '"') = true := by
      rw [← startsWith_nfc (N := N) (by decide)]
      obtain ⟨content, same⟩ := isQuotedSeg_iff.mp is
      rw [same]
      rfl
    have last : endsWith text (unit '"') = true := by
      rw [← endsWith_nfc (N := N) (by decide)]
      obtain ⟨content, same⟩ := isQuotedSeg_iff.mp is
      rw [same, endsWith, quoted, List.getLast?_append]
      rfl
    have long : 2 ≤ text.length := by
      match text, first with
      | [u], first =>
          obtain rfl : u = unit '"' := by simpa [startsWith] using first
          rw [N.cons (by decide), N.nil] at is
          exact absurd is (by decide)
      | _ :: _ :: _, _ => simp
    simp only [startsWith, endsWith, decide_eq_true_eq] at first last
    simp [isQuotedSeg, first, last, long]
  · intro is
    obtain ⟨content, rfl⟩ := isQuotedSeg_iff.mp is
    rw [nfc_quoted, isQuotedSeg_quoted]

theorem unquoteSeg_nfc : unquoteSeg (N.nfc text) = N.nfc (unquoteSeg text) := by
  cases is : isQuotedSeg text with
  | true =>
      obtain ⟨content, rfl⟩ := isQuotedSeg_iff.mp is
      rw [nfc_quoted, unquoteSeg_quoted, unquoteSeg_quoted]
  | false => simp [unquoteSeg, isQuotedSeg_nfc, is]

theorem isStructural_nfc : isStructural (N.nfc text) = isStructural text := by
  simp only [isStructural, isQuotedSeg_nfc,
    startsWith_nfc (show isGrammarUnit (unit '[') = true by decide),
    startsWith_nfc (show isGrammarUnit (unit '{') = true by decide),
    endsWith_nfc (show isGrammarUnit (unit ']') = true by decide),
    endsWith_nfc (show isGrammarUnit (unit '}') = true by decide)]

theorem any_or (text : Text) (p q : UInt16 → Bool) :
    (text.any fun u => p u || q u) = (text.any p || text.any q) := by
  induction text with
  | nil => rfl
  | cons u us ih => simp only [List.any_cons, ih, Bool.or_assoc, Bool.or_left_comm]

theorem any_blank_nfc {units : List UInt16} (known : units ⊆ GRAMMAR_UNITS) :
    ((N.nfc text).any fun u => decide (u ∈ units) || isWhitespace u) =
      text.any fun u => decide (u ∈ units) || isWhitespace u := by
  have listed : (N.nfc text).any (fun u => decide (u ∈ units)) = text.any fun u => decide (u ∈ units) :=
    any_nfc fun u mem => by simp [isGrammarUnit, known (of_decide_eq_true mem)]
  have blank : (N.nfc text).any (fun u => isWhitespace u) = text.any fun u => isWhitespace u :=
    N.blank text
  rw [any_or, any_or, listed, blank]

theorem any_needsQuote_nfc : (N.nfc text).any needsQuote = text.any needsQuote := by
  unfold needsQuote
  exact any_blank_nfc (by decide)

theorem fileNeedsQuote_nfc : fileNeedsQuote (N.nfc text) = fileNeedsQuote text := by
  unfold fileNeedsQuote
  exact any_blank_nfc (by decide)

theorem written_nfc : written (N.nfc text) = N.nfc (written text) := by
  unfold written
  rw [isStructural_nfc, any_needsQuote_nfc]
  split
  · rfl
  · split
    · rw [nfc_quoted]
    · rfl

theorem writtenFile_nfc : writtenFile (N.nfc text) = N.nfc (writtenFile text) := by
  unfold writtenFile
  rw [fileNeedsQuote_nfc]
  split
  · rw [nfc_quoted]
  · rfl

theorem nfc_joined (grammar : isGrammarUnit u = true) (first : Text) (rest : List Text) :
    N.nfc (joined u first rest) = joined u (N.nfc first) (rest.map N.nfc) := by
  induction rest generalizing first with
  | nil => simp [joined]
  | cons second rest ih =>
      have tail := ih second
      simp only [joined] at tail
      simp only [joined, List.flatMap_cons, List.map_cons, List.cons_append,
        N.inert first u _ grammar, tail]

theorem nfc_join (grammar : isGrammarUnit u = true) (pieces : List Text) :
    N.nfc (join u pieces) = join u (pieces.map N.nfc) := by
  cases pieces with
  | nil => exact N.nil
  | cons first rest => exact nfc_joined grammar first rest

end Normalization

end OpenClaw.OcPaths
