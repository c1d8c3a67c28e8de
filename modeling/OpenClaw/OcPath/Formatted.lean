import OpenClaw.OcPath.Path

/-!
What a parsed path is made of. An accepted string is, once normalized, the scheme, a file
segment and slots behind slashes, and possibly a query; the segments are pieces for the
slash and the question mark, and each passes its checks.
-/

namespace OpenClaw.OcPaths

open JsUnits

variable {N : Normalization} {input text path : Text} {q : OcPath} {delims : List UInt16}
  {σ : ScanState} {delim : UInt16} {first : Text} {rest : List Text}

theorem isPieceFrom_append_balanced {a b : Text} (balanced : isPieceFrom [] σ a = true) :
    isPieceFrom delims σ (a ++ b) = (isPieceFrom delims σ a && isPieceFrom delims {} b) := by
  induction a generalizing σ with
  | nil =>
      simp only [isPieceFrom, decide_eq_true_eq] at balanced
      simp [isPieceFrom, balanced]
  | cons c cs ih =>
      simp only [List.cons_append, isPieceFrom] at balanced ⊢
      cases moved : σ.next c with
      | none => rfl
      | some τ =>
          simp only [moved, Bool.and_eq_true] at balanced ⊢
          rw [ih balanced.2, Bool.and_assoc]

theorem isPiece_delimited (plain : isRegionUnit delim = false) (absent : delim ∉ delims) :
    IsPiece delims (delim :: text) ↔ IsPiece delims text := by
  simp [IsPiece, isPieceFrom, next_plain_self plain, absent]

theorem balanced_of_isPiece (piece : IsPiece delims text) : isBalanced text = true :=
  isPieceFrom_mono (fun _ mem => absurd mem List.not_mem_nil) piece

theorem isPiece_pair {a b : UInt16} : IsPiece [a, b] text ↔ IsPiece [a] text ∧ IsPiece [b] text :=
  (isPieceFrom_union : isPieceFrom ([a] ++ [b]) {} text = true ↔ _)

theorem isPiece_joined (plain : isRegionUnit delim = false) (absent : delim ∉ delims)
    (balanced : ∀ piece ∈ first :: rest, isBalanced piece = true) :
    IsPiece delims (joined delim first rest) ↔ ∀ piece ∈ first :: rest, IsPiece delims piece := by
  obtain ⟨here, there⟩ := List.forall_mem_cons.mp balanced
  have tail : IsPiece delims (rest.flatMap (delim :: ·)) ↔ ∀ piece ∈ rest, IsPiece delims piece := by
    clear balanced here
    induction rest with
    | nil => exact iff_of_true rfl (by simp)
    | cons r rs ih =>
        obtain ⟨one, others⟩ := List.forall_mem_cons.mp there
        have delimited : isPieceFrom [] {} (delim :: r) = true :=
          (isPiece_delimited plain List.not_mem_nil).mpr one
        rw [List.flatMap_cons, IsPiece, isPieceFrom_append_balanced delimited, Bool.and_eq_true,
          List.forall_mem_cons]
        exact and_congr (isPiece_delimited plain absent) (ih others)
  rw [joined, IsPiece, isPieceFrom_append_balanced here, Bool.and_eq_true,
    List.forall_mem_cons]
  exact and_congr_right fun _ => tail

theorem indexOfTopLevel_eq_ok {index : Option Nat} : indexOfTopLevel text delim = .ok index ↔
    indexOfTopLevelFrom delim {} text = some index := by
  unfold indexOfTopLevel
  cases indexOfTopLevelFrom delim {} text <;> simp

def queryText : Option Text → Text
  | none => []
  | some query => unit '?' :: query

/-- The first question mark at the top separates the path from the query. -/
theorem exists_query_iff {P : Text → Text → Prop} :
    (∃ index, indexOfTopLevelFrom (unit '?') {} text = some index ∧
      P (match (index : Option Nat) with
        | none => text
        | some index => text.take index)
        (match index with
        | none => []
        | some index => text.drop (index + 1))) ↔
    ∃ path query, text = path ++ queryText query ∧ IsPiece [unit '?'] path ∧
      P path (query.getD []) := by
  constructor
  · rintro ⟨index, found, holds⟩
    cases index with
    | none =>
        exact ⟨text, none, (List.append_nil _).symm, indexOfTopLevelFrom_eq_none.mp found, holds⟩
    | some index =>
        obtain ⟨before, after, rfl, rfl, piece⟩ :=
          (indexOfTopLevelFrom_eq_some (by decide)).mp found
        refine ⟨before, some after, rfl, piece, ?_⟩
        simpa using holds
  · rintro ⟨path, query, rfl, piece, holds⟩
    cases query with
    | none =>
        refine ⟨none, ?_, ?_⟩
        · rw [queryText, List.append_nil]
          exact indexOfTopLevelFrom_eq_none.mpr piece
        · simpa [queryText] using holds
    | some query =>
        refine ⟨some path.length, ?_, ?_⟩
        · exact (indexOfTopLevelFrom_eq_some (by decide)).mpr ⟨path, query, rfl, rfl, piece⟩
        · simpa [queryText] using holds

def pathOf (file : Text) (slots : List Text) (session : Option Text) : OcPath where
  file
  section_ := slots[0]?
  item := slots[1]?
  field := slots[2]?
  session

/-- The slots that the raw path segments are folded into. -/
def FoldsTo (file : Text) (pathSegments slots : List Text) : Prop :=
  ((pathSegments.length ≤ 3 ∨ isJsonPathFile file = false) ∧ slots = pathSegments) ∨
    (3 < pathSegments.length ∧ isJsonPathFile file = true ∧
      pathSegments.length ≤ MAX_TRAVERSAL_DEPTH ∧
      slots = (lit ".").intercalate (pathSegments.take (pathSegments.length - 2)) ::
        pathSegments.drop (pathSegments.length - 2))

theorem normalizeDeepJsonPathSegments_eq_ok {fileSeg file : Text} {pathSegments segments : List Text} :
    normalizeDeepJsonPathSegments fileSeg pathSegments file input = .ok segments ↔
      ∃ slots, segments = fileSeg :: slots ∧ FoldsTo file pathSegments slots := by
  unfold normalizeDeepJsonPathSegments FoldsTo
  by_cases shallow : pathSegments.length ≤ 3 ∨ isJsonPathFile file = false
  · rw [if_pos (by simpa using shallow), Fallible.pure_eq_ok]
    constructor
    · rintro rfl
      exact ⟨_, rfl, .inl ⟨shallow, rfl⟩⟩
    · rintro ⟨slots, rfl, ⟨_, rfl⟩ | ⟨deep, json, _⟩⟩
      · rfl
      · rcases shallow with few | not
        · omega
        · exact absurd (json.symm.trans not) (by decide)
  · rw [if_neg (by simpa using shallow)]
    simp only [not_or, not_le, Bool.not_eq_false] at shallow
    simp only [Fallible.check_eq_ok, Fallible.pure_eq_ok, not_lt]
    constructor
    · rintro ⟨few, rfl⟩
      exact ⟨_, rfl, .inr ⟨shallow.1, shallow.2, few, rfl⟩⟩
    · rintro ⟨slots, rfl, ⟨few | not, _⟩ | ⟨_, _, few, rfl⟩⟩
      · omega
      · exact absurd (shallow.2.symm.trans not) (by decide)
      · exact ⟨few, rfl⟩

/-- The normalized string. -/
def normalizedInput (N : Normalization) (input : Text) : Text :=
  N.nfc (if input.head? = some BOM then input.tail else input)

/-- A successful parse: the parts of the string and the checks that they passed. -/
structure Parse (N : Normalization) (input : Text) (q : OcPath) (first : Text) (rest slots : List Text)
    (query session : Option Text) : Prop where
  short : byteLength input ≤ MAX_PATH_LENGTH
  normalizedShort : byteLength (normalizedInput N input) ≤ MAX_PATH_LENGTH
  control : hasControlChar (normalizedInput N input) = false
  whole : normalizedInput N input = OC_SCHEME ++ (joined (unit '/') first rest ++ queryText query)
  pieces : ∀ seg ∈ first :: rest, IsPiece [unit '/', unit '?'] seg
  occupied : ∀ seg ∈ first :: rest, seg ≠ []
  file : FileOk (unquoteSeg first)
  folds : FoldsTo (unquoteSeg first) rest slots
  few : slots.length ≤ 3
  segments : ∀ seg ∈ first :: slots, SegmentOk seg
  extracted : extractSession (query.getD []) input = .ok session
  result : q = pathOf (unquoteSeg first) slots session

theorem unquoteSeg_eq (seg : Text) : (if isQuotedSeg seg then unquoteSeg seg else seg) =
    unquoteSeg seg := by
  unfold unquoteSeg
  split <;> rfl

/-- What the parser asks of the path and the query behind the scheme. -/
def PathParses (input : Text) (q : OcPath) (path query : Text) : Prop :=
  ¬ path.length = 0 ∧ ∃ raw, splitRespectingBrackets path (unit '/') (some input) = .ok raw ∧
    ¬ (raw.any fun seg => seg.length = 0) = true ∧
    ∃ a, validateFileSlot
        (if isQuotedSeg (raw.headD []) then unquoteSeg (raw.headD []) else raw.headD []) input =
        .ok a ∧
      ∃ segments, normalizeDeepJsonPathSegments (raw.headD []) raw.tail
          (if isQuotedSeg (raw.headD []) then unquoteSeg (raw.headD []) else raw.headD []) input =
          .ok segments ∧
        ¬ segments.length > 4 ∧ ∃ b, segments.forM (validateSegment input) = .ok b ∧
          ∃ session, extractSession query input = .ok session ∧
            { file := if isQuotedSeg (raw.headD []) then unquoteSeg (raw.headD []) else raw.headD []
              section_ := segments[1]?, item := segments[2]?, field := segments[3]?, session } = q

theorem pathParses_iff {query : Text} : PathParses input q path query ↔
    ∃ first rest slots session, path = joined (unit '/') first rest ∧
      (∀ seg ∈ first :: rest, IsPiece [unit '/'] seg) ∧ (∀ seg ∈ first :: rest, seg ≠ []) ∧
      FileOk (unquoteSeg first) ∧ FoldsTo (unquoteSeg first) rest slots ∧ slots.length ≤ 3 ∧
      (∀ seg ∈ first :: slots, SegmentOk seg) ∧ extractSession query input = .ok session ∧
      q = pathOf (unquoteSeg first) slots session := by
  simp only [PathParses, unquoteSeg_eq, splitRespectingBrackets_eq_ok, validateFileSlot_eq_ok,
    normalizeDeepJsonPathSegments_eq_ok, Fallible.forM_eq_ok, validateSegment_eq_ok,
    splitFrom_eq_some_iff (show isRegionUnit (unit '/') = false by decide), List.nil_append]
  constructor
  · rintro ⟨_, _, ⟨first, rest, rfl, here, there, whole⟩, occupied, _, file, _,
      ⟨slots, rfl, folds⟩, few, _, segments, session, extracted, rfl⟩
    refine ⟨first, rest, slots, session, whole, List.forall_mem_cons.mpr ⟨here, there⟩, ?_, file,
      folds, Nat.le_of_succ_le_succ (not_lt.mp few), segments, extracted, rfl⟩
    intro seg mem none
    exact occupied (List.any_eq_true.mpr ⟨seg, mem, by simp [none]⟩)
  · rintro ⟨first, rest, slots, session, rfl, pieces, occupied, file, folds, few, segments,
      extracted, rfl⟩
    obtain ⟨here, there⟩ := List.forall_mem_cons.mp pieces
    refine ⟨?_, _, ⟨first, rest, rfl, here, there, rfl⟩, ?_, (), file, _, ⟨slots, rfl, folds⟩,
      not_lt.mpr (Nat.succ_le_succ few), (), segments, session, extracted, rfl⟩
    · simp [joined, occupied first List.mem_cons_self]
    · intro empty
      obtain ⟨seg, mem, none⟩ := List.any_eq_true.mp empty
      exact occupied seg mem (by simpa using none)

theorem parseOcPath_eq_ok : parseOcPath N input = .ok q ↔
    ∃ first rest slots query session, Parse N input q first rest slots query session := by
  have split : ∀ text, _ ↔ ∃ path query, text = path ++ queryText query ∧
      IsPiece [unit '?'] path ∧ PathParses input q path (query.getD []) := fun text =>
    exists_query_iff (P := PathParses input q)
  simp only [parseOcPath, ↓Fallible.check_eq_ok, ↓Fallible.bind_eq_ok, ↓Fallible.pure_eq_ok,
    indexOfTopLevel_eq_ok]
  refine (and_congr_right fun _ => and_congr_right fun _ => and_congr_right fun _ =>
    and_congr_right fun _ => split _).trans ?_
  simp only [not_lt, not_not, Bool.not_eq_true]
  constructor
  · rintro ⟨short, normalizedShort, ⟨behind, scheme⟩, control, path, query, whole, piece, parses⟩
    obtain ⟨first, rest, slots, session, rfl, pieces, occupied, file, folds, few, segments,
      extracted, result⟩ := pathParses_iff.mp parses
    rw [← scheme, List.drop_left] at whole
    refine ⟨first, rest, slots, query, session, short, normalizedShort, control, ?_, ?_, occupied,
      file, folds, few, segments, extracted, result⟩
    · rw [normalizedInput, ← scheme, whole]
    · have questions := (isPiece_joined (by decide) (by decide) fun seg mem =>
        balanced_of_isPiece (pieces seg mem)).mp piece
      exact fun seg mem => isPiece_pair.mpr ⟨pieces seg mem, questions seg mem⟩
  · rintro ⟨first, rest, slots, query, session, parse⟩
    have slashes : ∀ seg ∈ first :: rest, IsPiece [unit '/'] seg := fun seg mem =>
      (isPiece_pair.mp (parse.pieces seg mem)).1
    have questions : ∀ seg ∈ first :: rest, IsPiece [unit '?'] seg := fun seg mem =>
      (isPiece_pair.mp (parse.pieces seg mem)).2
    have whole := parse.whole
    rw [normalizedInput] at whole
    refine ⟨parse.short, parse.normalizedShort, ⟨_, whole.symm⟩, parse.control,
      joined (unit '/') first rest, query, ?_,
      (isPiece_joined (by decide) (by decide) fun seg mem =>
        balanced_of_isPiece (slashes seg mem)).mpr questions,
      pathParses_iff.mpr ⟨first, rest, slots, session, rfl, slashes, parse.occupied, parse.file,
        parse.folds, parse.few, parse.segments, parse.extracted, parse.result⟩⟩
    rw [whole, List.drop_left]

end OpenClaw.OcPaths

/-!
What a formatted path is made of. Formatting writes each sub-segment of each slot, quoted
where the grammar needs it, and joins them with dots and the slots with slashes.
-/

namespace OpenClaw.OcPaths

open JsUnits

variable {file slot sub out : Text} {slots : List Text} {session : Option Text} {delim : UInt16}

/-- Pieces with the delimiter between them. -/
def join (delim : UInt16) : List Text → Text
  | [] => []
  | first :: rest => joined delim first rest

theorem splitFrom_eq_some_join (plain : isRegionUnit delim = false) {text : Text}
    {pieces : List Text} : splitFrom delim {} [] text = some pieces ↔
      pieces ≠ [] ∧ (∀ piece ∈ pieces, IsPiece [delim] piece) ∧ text = join delim pieces := by
  rw [splitFrom_eq_some_iff plain]
  constructor
  · rintro ⟨first, rest, rfl, here, there, rfl⟩
    exact ⟨by simp, List.forall_mem_cons.mpr ⟨here, there⟩, rfl⟩
  · rintro ⟨some, all, rfl⟩
    cases pieces with
    | nil => exact absurd rfl some
    | cons first rest =>
        obtain ⟨here, there⟩ := List.forall_mem_cons.mp all
        exact ⟨first, rest, rfl, here, there, rfl⟩

theorem intercalate_eq_join (pieces : List Text) : (lit ".").intercalate pieces =
    join (unit '.') pieces := by
  cases pieces with
  | nil => rfl
  | cons first rest =>
      induction rest generalizing first with
      | nil => simp [join, joined]
      | cons second rest ih =>
          have tail := ih second
          rw [join, joined] at tail
          rw [List.intercalate_cons_cons, tail, join, joined, List.flatMap_cons, List.append_assoc]
          rfl

/-- A sub-segment as it is written. -/
def written (sub : Text) : Text :=
  if isStructural sub then sub else if sub.any needsQuote then quoted sub else sub

/-- A raw sub-segment without a quotation mark or backslash can be written. -/
def Writable (sub : Text) : Prop := isStructural sub = false → isUnquotable sub = false

theorem formatSubSegment_eq_ok (occupied : sub ≠ []) : formatSubSegment sub = .ok out ↔
    Writable sub ∧ out = written sub := by
  have some : ¬ sub.length = 0 := by simpa using occupied
  unfold formatSubSegment written Writable quoteSeg
  cases structural : isStructural sub with
  | true =>
      simp only [if_true, Except.ok.injEq, Bool.true_eq_false, false_implies, true_and]
      exact eq_comm
  | false =>
      simp only [Bool.false_eq_true, if_false, some, Fallible.check_eq_ok, Fallible.pure_eq_ok,
        Bool.not_eq_true, forall_const]
      exact and_congr_right fun _ => eq_comm

/-- The sub-segments of a slot that can be formatted. -/
structure SlotWritable (slot : Text) (subs : List Text) : Prop where
  split : splitFrom (unit '.') {} [] slot = some subs
  occupied : ∀ sub ∈ subs, sub ≠ []
  control : ∀ sub ∈ subs, hasControlChar sub = false
  writable : ∀ sub ∈ subs, Writable sub

theorem forall₂_formatSubSegment {subs formatted : List Text} (occupied : ∀ sub ∈ subs, sub ≠ []) :
    List.Forall₂ (fun sub out => formatSubSegment sub = .ok out) subs formatted ↔
      (∀ sub ∈ subs, Writable sub) ∧ formatted = subs.map written := by
  induction subs generalizing formatted with
  | nil => simp
  | cons sub subs ih =>
      obtain ⟨here, there⟩ := List.forall_mem_cons.mp occupied
      simp only [List.forall₂_cons_left_iff, formatSubSegment_eq_ok here, ih there,
        List.forall_mem_cons, List.map_cons]
      constructor
      · rintro ⟨_, _, ⟨one, rfl⟩, ⟨all, rfl⟩, rfl⟩
        exact ⟨⟨one, all⟩, rfl⟩
      · rintro ⟨⟨one, all⟩, rfl⟩
        exact ⟨_, _, ⟨one, rfl⟩, ⟨all, rfl⟩, rfl⟩

theorem formatSlot_eq_ok {slotName : Text} : formatSlot file slot slotName = .ok out ↔
    ∃ subs, SlotWritable slot subs ∧ out = join (unit '.') (subs.map written) := by
  simp only [formatSlot, Fallible.bind_eq_ok, splitRespectingBrackets_eq_ok, Fallible.forM_eq_ok,
    Fallible.mapM_eq_ok, Fallible.pure_eq_ok, validateSubForFormat, ↓Fallible.check_eq_ok,
    Fallible.last_check_eq_ok, Bool.not_eq_true, List.length_eq_zero_iff, intercalate_eq_join]
  constructor
  · rintro ⟨subs, split, _, checked, formatted, all, rfl⟩
    have occupied : ∀ sub ∈ subs, sub ≠ [] := fun sub mem => (checked sub mem).1
    obtain ⟨writable, rfl⟩ := (forall₂_formatSubSegment occupied).mp all
    exact ⟨subs, ⟨split, occupied, fun sub mem => (checked sub mem).2, writable⟩, rfl⟩
  · rintro ⟨subs, ⟨split, occupied, control, writable⟩, rfl⟩
    exact ⟨subs, split, (), fun sub mem => ⟨occupied sub mem, control sub mem⟩, _,
      (forall₂_formatSubSegment occupied).mpr ⟨writable, rfl⟩, rfl⟩

def writtenFile (file : Text) : Text := if fileNeedsQuote file then quoted file else file

/-- A file that has to be quoted can be. -/
def FileWritable (file : Text) : Prop := fileNeedsQuote file = true → isUnquotable file = false

theorem any_needsQuote (needs : fileNeedsQuote file = true) (quotable : isUnquotable file = false) :
    file.any needsQuote = true := by
  simp only [isUnquotable, Bool.or_eq_false_iff, decide_eq_false_iff_not] at quotable
  obtain ⟨u, mem, class_⟩ := List.any_eq_true.mp needs
  refine List.any_eq_true.mpr ⟨u, mem, ?_⟩
  have other : u ≠ unit '"' := fun same => quotable.1 (same ▸ mem)
  simp only [needsQuote, Bool.or_eq_true, List.mem_cons, List.not_mem_nil, or_false,
    decide_eq_true_eq] at class_ ⊢
  tauto

theorem formatFile_eq_ok (occupied : file ≠ []) : formatFile file = .ok out ↔
    FileWritable file ∧ out = writtenFile file := by
  have some : ¬ file.length = 0 := by simpa using occupied
  unfold formatFile FileWritable writtenFile quoteSeg
  cases needs : fileNeedsQuote file with
  | false =>
      simp only [Bool.false_eq_true, if_false, Except.ok.injEq, false_implies, true_and]
      exact eq_comm
  | true =>
      simp only [if_true, some, if_false, Fallible.check_eq_ok, Fallible.pure_eq_ok,
        Bool.not_eq_true, forall_const]
      refine and_congr_right fun quotable => ?_
      rw [if_pos (any_needsQuote needs quotable), eq_comm]

/-- The nesting of slots is that of a list. -/
theorem nested_iff {path : OcPath} : (¬ (path.item.isSome && path.section_.isNone) = true ∧
      ¬ (path.field.isSome && path.item.isNone) = true) ↔
    ∃ slots : List Text, slots.length ≤ 3 ∧ path = pathOf path.file slots path.session := by
  constructor
  · rintro ⟨inSection, inItem⟩
    rcases path with ⟨file, _ | section_, _ | item, _ | field, session⟩
    · exact ⟨[], by decide, rfl⟩
    · exact absurd rfl inItem
    · exact absurd rfl inSection
    · exact absurd rfl inSection
    · exact ⟨[section_], Nat.le_add_left _ 2, rfl⟩
    · exact absurd rfl inItem
    · exact ⟨[section_, item], Nat.le_add_left _ 1, rfl⟩
    · exact ⟨[section_, item, field], Nat.le_refl _, rfl⟩
  · rintro ⟨slots, few, same⟩
    rw [same]
    match slots, few with
    | [], _ | [_], _ | [_, _], _ | [_, _, _], _ => simp [pathOf]

/-- The slots of a path that can be formatted, as they are written. -/
def SlotsWritten (slots formatted : List Text) : Prop :=
  List.Forall₂ (fun slot out => ∃ subs, SlotWritable slot subs ∧
    out = join (unit '.') (subs.map written)) slots formatted

theorem formatQuery_eq_ok : formatQuery file session = .ok out ↔
    (∀ text, session = some text → SessionOk text) ∧
      out = queryText (session.map (lit "session=" ++ ·)) := by
  cases session with
  | none => simp [formatQuery, queryText, eq_comm]
  | some text =>
      simp only [formatQuery, Fallible.bind_eq_ok, validateSessionSlot_eq_ok, Fallible.pure_eq_ok,
        exists_const, Option.some.injEq, forall_eq', Option.map_some]
      exact and_congr_right fun _ => eq_comm

theorem formatOptionalSlot_eq_ok {slot : Option Text} {slotName : Text} :
    formatOptionalSlot file slot slotName = .ok out ↔
      ∃ formatted, SlotsWritten slot.toList formatted ∧ out = formatted.flatMap (unit '/' :: ·) := by
  unfold SlotsWritten
  cases slot with
  | none => simp [formatOptionalSlot, eq_comm]
  | some slot =>
      simp only [formatOptionalSlot, Fallible.bind_eq_ok, formatSlot_eq_ok, Fallible.pure_eq_ok,
        Option.toList_some, List.forall₂_cons_left_iff, List.forall₂_nil_left_iff]
      constructor
      · rintro ⟨_, writable, rfl⟩
        exact ⟨_, ⟨_, [], writable, rfl, rfl⟩, by simp [lit]⟩
      · rintro ⟨_, ⟨written_, _, writable, rfl, rfl⟩, rfl⟩
        exact ⟨written_, writable, by simp [lit]⟩

theorem slotsWritten_append {left right formatted : List Text} :
    SlotsWritten (left ++ right) formatted ↔
      ∃ a b, formatted = a ++ b ∧ SlotsWritten left a ∧ SlotsWritten right b := by
  unfold SlotsWritten
  constructor
  · intro all
    have first := List.forall₂_take left.length all
    have second := List.forall₂_drop left.length all
    rw [List.take_left] at first
    rw [List.drop_left] at second
    exact ⟨_, _, (List.take_append_drop left.length formatted).symm, first, second⟩
  · rintro ⟨a, b, rfl, first, second⟩
    exact List.rel_append first second

theorem composeOcPath_eq_ok (few : slots.length ≤ 3) :
    composeOcPath (pathOf file slots session) = .ok out ↔
      file ≠ [] ∧ FileOk file ∧ FileWritable file ∧ (∀ text, session = some text → SessionOk text) ∧
        ∃ formatted, SlotsWritten slots formatted ∧
          out = OC_SCHEME ++ (joined (unit '/') (writtenFile file) formatted ++
            queryText (session.map (lit "session=" ++ ·))) := by
  have nested := nested_iff.mpr ⟨slots, few, (rfl : pathOf file slots session = _)⟩
  have three : slots = slots[0]?.toList ++ (slots[1]?.toList ++ slots[2]?.toList) := by
    match slots, few with
    | [], _ | [_], _ | [_, _], _ | [_, _, _], _ => rfl
  simp only [composeOcPath, ↓Fallible.check_eq_ok, ↓Fallible.bind_eq_ok, ↓Fallible.pure_eq_ok,
    validateFileSlot_eq_ok, List.length_eq_zero_iff]
  constructor
  · rintro ⟨occupied, _, fileOk, _, _, _, file, _, section_, _, item, _, field, _, query, rfl⟩
    obtain ⟨writable, rfl⟩ := (formatFile_eq_ok occupied).mp file
    obtain ⟨a, writtenA, rfl⟩ := formatOptionalSlot_eq_ok.mp section_
    obtain ⟨b, writtenB, rfl⟩ := formatOptionalSlot_eq_ok.mp item
    obtain ⟨c, writtenC, rfl⟩ := formatOptionalSlot_eq_ok.mp field
    obtain ⟨sessionOk, rfl⟩ := formatQuery_eq_ok.mp query
    refine ⟨occupied, fileOk, writable, sessionOk, a ++ (b ++ c), ?_, ?_⟩
    · rw [three]
      exact slotsWritten_append.mpr ⟨a, b ++ c, rfl, writtenA,
        slotsWritten_append.mpr ⟨b, c, rfl, writtenB, writtenC⟩⟩
    · simp [joined, pathOf]
  · rintro ⟨occupied, fileOk, writable, sessionOk, formatted, all, rfl⟩
    rw [three, slotsWritten_append] at all
    obtain ⟨a, _, rfl, writtenA, tail⟩ := all
    obtain ⟨b, c, rfl, writtenB, writtenC⟩ := slotsWritten_append.mp tail
    refine ⟨occupied, (), fileOk, nested.1, nested.2, _, (formatFile_eq_ok occupied).mpr
      ⟨writable, rfl⟩, _, formatOptionalSlot_eq_ok.mpr ⟨a, writtenA, rfl⟩, _,
      formatOptionalSlot_eq_ok.mpr ⟨b, writtenB, rfl⟩, _,
      formatOptionalSlot_eq_ok.mpr ⟨c, writtenC, rfl⟩, _,
      formatQuery_eq_ok.mpr ⟨sessionOk, rfl⟩, ?_⟩
    simp [joined, pathOf]

end OpenClaw.OcPaths
