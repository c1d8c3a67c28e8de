import OpenClaw.OcPath.Written

/-!
Parsing, formatting and parsing again. The string that a parsed path is formatted to parses
to the same path exactly when nothing of the path has to be quoted anew: no raw sub-segment
holds a quotation mark, a backslash or a region inside, and a file that is written without
quotes has no empty part between its dots.
-/

namespace OpenClaw.OcPaths

open JsUnits Normalization

variable {N : Normalization} {input out sub slot file first : Text} {p : OcPath}
  {subs rest slots formatted : List Text} {query session : Option Text}

/-- The sub-segments of a slot. -/
def slotSubs (slot : Text) : List Text := (splitFrom (unit '.') {} [] slot).getD []

/-- A slot as it is formatted. -/
def writtenSlot (slot : Text) : Text := join (unit '.') ((slotSubs slot).map written)

theorem SlotWritable.subs_eq (writable : SlotWritable slot subs) : slotSubs slot = subs := by
  rw [slotSubs, writable.split, Option.getD_some]

theorem slotsWritten_iff : SlotsWritten slots formatted ↔
    (∀ slot ∈ slots, SlotWritable slot (slotSubs slot)) ∧ formatted = slots.map writtenSlot := by
  unfold SlotsWritten
  induction slots generalizing formatted with
  | nil => simp
  | cons slot slots ih =>
      simp only [List.forall₂_cons_left_iff, ih, List.forall_mem_cons, List.map_cons]
      constructor
      · rintro ⟨_, _, ⟨subs, writable, rfl⟩, ⟨all, rfl⟩, rfl⟩
        have same := writable.subs_eq
        exact ⟨⟨same ▸ writable, all⟩, by rw [writtenSlot, same]⟩
      · rintro ⟨⟨one, all⟩, rfl⟩
        exact ⟨_, _, ⟨_, one, rfl⟩, ⟨all, rfl⟩, rfl⟩

theorem normalizedInput_scheme (tail : Text) :
    normalizedInput N (OC_SCHEME ++ tail) = N.nfc (OC_SCHEME ++ tail) := by
  have scheme : ¬ (OC_SCHEME ++ tail).head? = some BOM := by
    change ¬ some (unit 'o') = some BOM
    decide
  rw [normalizedInput, if_neg scheme]

theorem slash_question_grammar : ∀ d ∈ [unit '/', unit '?'], isGrammarUnit d = true := by
  simp only [List.forall_mem_cons]
  exact ⟨by decide, by decide, by simp⟩

theorem Parse.fixed (parse : Parse N input p first rest slots query session) :
    N.nfc first = first ∧ rest.map N.nfc = rest ∧ query.map N.nfc = query := by
  have normal : N.nfc (normalizedInput N input) = normalizedInput N input := N.idempotent _
  rw [parse.whole, nfc_composed, List.append_cancel_left_eq] at normal
  refine composed_unique ?_ parse.pieces normal
  have all : ∀ seg ∈ (first :: rest).map N.nfc, IsPiece [unit '/', unit '?'] seg := by
    intro seg mem
    obtain ⟨seg', mem', rfl⟩ := List.mem_map.mp mem
    exact (isPiece_nfc slash_question_grammar).mpr (parse.pieces seg' mem')
  exact all

theorem Parse.slots_fixed (parse : Parse N input p first rest slots query session) :
    ∀ slot ∈ slots, IsPiece [unit '/', unit '?'] slot ∧ N.nfc slot = slot := by
  have raw : ∀ slot ∈ rest, IsPiece [unit '/', unit '?'] slot ∧ N.nfc slot = slot := fun slot mem =>
    ⟨parse.pieces slot (List.mem_cons_of_mem _ mem),
      List.map_inj_left.mp (parse.fixed.2.1.trans (List.map_id rest).symm) slot mem⟩
  rcases parse.folds with ⟨_, rfl⟩ | ⟨_, _, _, rfl⟩
  · exact raw
  · intro slot mem
    rcases List.mem_cons.mp mem with rfl | mem
    · have each : ∀ seg ∈ rest.take (rest.length - 2), IsPiece [unit '/', unit '?'] seg ∧
          N.nfc seg = seg := fun seg mem => raw seg (List.mem_of_mem_take mem)
      rw [intercalate_eq_join, nfc_join (by decide), List.map_congr_left fun seg mem =>
        (each seg mem).2, List.map_id']
      refine ⟨(isPiece_join (by decide) fun seg mem => ?_).mpr fun seg mem => (each seg mem).1, rfl⟩
      exact balanced_of_isPiece (each seg mem).1
    · exact raw slot (List.mem_of_mem_drop mem)

theorem SegmentOk.split_subs (ok : SegmentOk slot) : splitFrom (unit '.') {} [] slot = some (slotSubs slot) ∧
    (slotSubs slot).length ≤ MAX_SUB_SEGMENTS_PER_SLOT ∧ ∀ sub ∈ slotSubs slot, SubOk sub := by
  obtain ⟨subs, split, few, all⟩ := ok.split
  have same : slotSubs slot = subs := by rw [slotSubs, split, Option.getD_some]
  exact same ▸ ⟨split, few, all⟩

/-- The sub-segments of a normalized slot are normalized. -/
theorem fixed_subs (split : splitFrom (unit '.') {} [] slot = some subs) (fixed : N.nfc slot = slot) :
    subs.map N.nfc = subs := by
  have dot : isGrammarUnit (unit '.') = true := by decide
  obtain ⟨occupied, pieces, whole⟩ := (splitFrom_eq_some_join (by decide)).mp split
  have again : splitFrom (unit '.') {} [] (join (unit '.') (subs.map N.nfc)) =
      some (subs.map N.nfc) := by
    refine splitFrom_join (by simpa using occupied) fun sub mem => ?_
    obtain ⟨sub', mem', rfl⟩ := List.mem_map.mp mem
    refine (isPiece_nfc ?_).mpr (pieces sub' mem')
    simpa using dot
  rw [← nfc_join dot, ← whole, fixed, split] at again
  exact (Option.some.inj again).symm

theorem isPiece_dot {subs : List Text} (split : splitFrom (unit '.') {} [] slot = some subs) :
    ∀ sub ∈ subs, IsPiece [unit '.'] sub := ((splitFrom_eq_some_join (by decide)).mp split).2.1

/-- What is written for a sub-segment of a slot is again one piece between dots. -/
theorem isPiece_dot_written (writable : SlotWritable slot subs) :
    ∀ sub ∈ subs.map written, IsPiece [unit '.'] sub := by
  intro out mem
  obtain ⟨sub', mem', rfl⟩ := List.mem_map.mp mem
  cases structural : isStructural sub' with
  | true =>
      rw [written, if_pos structural]
      exact isPiece_dot writable.split sub' mem'
  | false =>
      refine isPieceFrom_mono (fun d mem => ?_)
        (isPiece_written structural (writable.writable sub' mem'))
      rw [List.mem_singleton.mp mem]
      decide

theorem split_writtenSlot (writable : SlotWritable slot subs) :
    splitFrom (unit '.') {} [] (writtenSlot slot) = some (subs.map written) := by
  rw [writtenSlot, writable.subs_eq]
  refine splitFrom_join ?_ (isPiece_dot_written writable)
  have occupied := ((splitFrom_eq_some_join (by decide)).mp writable.split).1
  simpa using occupied

theorem written_length (raw : isStructural sub = false) : written sub = sub ↔
    sub.any needsQuote = false := by
  rw [written, if_neg (by simp [raw])]
  cases sub.any needsQuote with
  | false => simp
  | true =>
      refine iff_of_false (fun same => ?_) (by decide)
      rw [if_pos rfl] at same
      have longer := congrArg List.length same
      simp only [quoted, List.length_append, List.length_cons, List.length_nil] at longer
      omega

/-- The slots of a path, in order. -/
def OcPath.slotList (p : OcPath) : List Text := p.section_.toList ++ p.item.toList ++ p.field.toList

theorem slotList_pathOf (few : slots.length ≤ 3) : (pathOf file slots session).slotList = slots := by
  match slots, few with
  | [], _ | [_], _ | [_, _], _ | [_, _, _], _ => rfl

/-- The path is formatted, and the string parses to it. -/
def Reparses (N : Normalization) (p : OcPath) : Prop :=
  ∃ out, formatOcPath p = .ok out ∧ parseOcPath N out = .ok p

/-- The canonical form stays under the length cap and free of the redaction sentinel. -/
def WithinCaps (p : OcPath) : Prop := ∀ out, composeOcPath p = .ok out →
  byteLength out ≤ MAX_PATH_LENGTH ∧ ¬ REDACTED_SENTINEL <:+: out

/-- Nothing of the path has to be quoted anew. -/
structure Canonical (p : OcPath) : Prop where
  named : p.file ≠ []
  file : FileWritable p.file
  parts : fileNeedsQuote p.file = false → SegmentOk p.file
  raw : ∀ slot ∈ p.slotList, ∀ sub ∈ slotSubs slot, isStructural sub = false →
    isUnquotable sub = false ∧ sub.any needsQuote = false

theorem formatOcPath_eq_ok : formatOcPath p = .ok out ↔ composeOcPath p = .ok out ∧
    byteLength out ≤ MAX_PATH_LENGTH ∧ ¬ REDACTED_SENTINEL <:+: out := by
  simp only [formatOcPath, Fallible.bind_eq_ok, ↓Fallible.check_eq_ok, Fallible.pure_eq_ok, not_lt]
  constructor
  · rintro ⟨_, composed, short, clean, rfl⟩
    exact ⟨composed, short, clean⟩
  · rintro ⟨composed, short, clean⟩
    exact ⟨_, composed, short, clean, rfl⟩

theorem unquoteSeg_writtenFile (writable : FileWritable file) :
    unquoteSeg (writtenFile file) = file := by
  unfold writtenFile
  split
  case isTrue => exact unquoteSeg_quoted file
  case isFalse calm =>
    have raw : isQuotedSeg file = false := by
      rw [← Bool.not_eq_true]
      intro is
      obtain ⟨content, rfl⟩ := isQuotedSeg_iff.mp is
      exact calm (List.any_eq_true.mpr ⟨unit '"', List.mem_cons_self, by decide⟩)
    rw [unquoteSeg, raw]
    rfl

/-- The string that a parsed path is formatted to is normalized, and consists of pieces. -/
theorem Parse.composed (parse : Parse N input p first rest slots query session)
    (fileWritable : FileWritable (unquoteSeg first))
    (writable : ∀ slot ∈ slots, SlotWritable slot (slotSubs slot)) :
    N.nfc (writtenFile (unquoteSeg first)) = writtenFile (unquoteSeg first) ∧
      (slots.map writtenSlot).map N.nfc = slots.map writtenSlot ∧
      (session.map (lit "session=" ++ ·)).map N.nfc = session.map (lit "session=" ++ ·) ∧
      ∀ seg ∈ writtenFile (unquoteSeg first) :: slots.map writtenSlot,
        IsPiece [unit '/', unit '?'] seg := by
  obtain ⟨fixedFirst, _, fixedQuery⟩ := parse.fixed
  refine ⟨?_, ?_, ?_, List.forall_mem_cons.mpr ⟨isPiece_writtenFile fileWritable, ?_⟩⟩
  · rw [← writtenFile_nfc, ← unquoteSeg_nfc, fixedFirst]
  · rw [List.map_map]
    refine List.map_congr_left fun slot mem => ?_
    have fixed := fixed_subs (writable slot mem).split (parse.slots_fixed slot mem).2
    rw [Function.comp_apply, writtenSlot, nfc_join (by decide), List.map_map]
    congr 1
    conv_rhs => rw [← fixed]
    rw [List.map_map]
    exact List.map_congr_left fun sub _ => written_nfc.symm
  · cases found : session with
    | none => rfl
    | some text =>
        have extracted := parse.extracted
        rw [found] at extracted
        have normal : N.nfc (query.getD []) = query.getD [] := by
          cases query with
          | none => exact N.nil
          | some query => exact Option.some.inj fixedQuery
        have pair := fixed_splitOn _ normal _ (extractSession_eq_some extracted).2.2
        rw [Option.map_some, Option.map_some, pair]
  · intro out mem
    obtain ⟨slot', mem', rfl⟩ := List.mem_map.mp mem
    have dots := isPiece_dot_written (writable slot' mem')
    rw [writtenSlot, isPiece_join (by decide) fun sub mem => balanced_of_isPiece (dots sub mem)]
    intro out inside
    obtain ⟨sub', inside', rfl⟩ := List.mem_map.mp inside
    cases structural : isStructural sub' with
    | true =>
        obtain ⟨_, pieces, whole⟩ :=
          (splitFrom_eq_some_join (by decide)).mp (writable slot' mem').split
        have piece := (parse.slots_fixed slot' mem').1
        rw [whole, isPiece_join (by decide) fun sub mem => balanced_of_isPiece (pieces sub mem)]
          at piece
        rw [written, if_pos structural]
        exact piece sub' inside'
    | false =>
        refine isPieceFrom_mono (fun d found => ?_)
          (isPiece_written structural ((writable slot' mem').writable sub' inside'))
        rcases List.mem_cons.mp found with rfl | found
        · decide
        · rw [List.mem_singleton.mp found]
          decide

end OpenClaw.OcPaths
