import OpenClaw.OcPath.Spelled

/-!
The second half of the round trip: for a path that can be formatted, the string addresses the
same file and the same contents of sub-segments exactly when each structural sub-segment is
one the parser accepts, and the file, the number of sub-segments and the length pass its checks.
-/

namespace OpenClaw.OcPaths

open JsUnits Normalization

variable {N : Normalization} {input out sub slot file first : Text} {p path q : OcPath}
  {subs rest slots : List Text} {query session : Option Text}

/-- The unquoted sub-segments that a path addresses, in order. -/
def unquotedSubs (p : OcPath) : List Text :=
  p.slotList.flatMap fun slot => (slotSubs slot).map unquoteSeg

/-- The string parses to a path with the file and the sub-segments, up to normalization. -/
def Addresses (N : Normalization) (path : OcPath) (out : Text) : Prop :=
  ∃ q, parseOcPath N out = .ok q ∧ q.file = N.nfc path.file ∧
    unquotedSubs q = (unquotedSubs path).map N.nfc

/-- The string parses to a path with the very file and the very sub-segments. -/
def AddressesExactly (N : Normalization) (path : OcPath) (out : Text) : Prop :=
  ∃ q, parseOcPath N out = .ok q ∧ q.file = path.file ∧ unquotedSubs q = unquotedSubs path

/-- The parser accepts the normalized parts of the path, and reads no delimiter into one. -/
structure Addressable (N : Normalization) (path : OcPath) : Prop where
  file : FileOk (N.nfc path.file)
  parts : fileNeedsQuote path.file = false → SegmentOk (N.nfc path.file)
  few : ∀ slot ∈ path.slotList, (slotSubs slot).length ≤ MAX_SUB_SEGMENTS_PER_SLOT
  structural : ∀ slot ∈ path.slotList, ∀ sub ∈ slotSubs slot, isStructural sub = true →
    SubOk (N.nfc sub) ∧ IsPiece [unit '/', unit '?'] sub
  short : byteLength (N.nfc (composedText path.file path.slotList path.session)) ≤ MAX_PATH_LENGTH

/-- The file and the sub-segments are normalized. -/
structure Normal (N : Normalization) (path : OcPath) : Prop where
  file : N.nfc path.file = path.file
  subs : (unquotedSubs path).map N.nfc = unquotedSubs path

theorem delimiters_grammar : ∀ d ∈ DELIMITERS, isGrammarUnit d = true := by
  unfold DELIMITERS
  simp only [List.forall_mem_cons]
  exact ⟨by decide, by decide, by decide, by simp⟩

theorem slashes_subset : ∀ d ∈ [unit '/', unit '?'], d ∈ DELIMITERS := by
  simp only [List.forall_mem_cons]
  exact ⟨by decide, by decide, by simp⟩

/-- The sub-segments of a slot as they are written and normalized. -/
def readSubs (N : Normalization) (slot : Text) : List Text :=
  ((slotSubs slot).map written).map N.nfc

theorem nfc_writtenSlot (slot : Text) :
    N.nfc (writtenSlot slot) = join (unit '.') (readSubs N slot) := by
  rw [writtenSlot, nfc_join (by decide), readSubs]

theorem SlotWritable.occupied_subs (writable : SlotWritable slot subs) : subs ≠ [] :=
  ((splitFrom_eq_some_join (by decide)).mp writable.split).1

theorem readSubs_ne_nil (writable : SlotWritable slot (slotSubs slot)) : readSubs N slot ≠ [] := by
  simpa [readSubs] using writable.occupied_subs

theorem isPiece_dot_readSubs (writable : SlotWritable slot (slotSubs slot)) :
    ∀ sub ∈ readSubs N slot, IsPiece [unit '.'] sub := by
  intro out mem
  obtain ⟨sub', mem', rfl⟩ := List.mem_map.mp mem
  refine (isPiece_nfc ?_).mpr (isPiece_dot_written writable sub' mem')
  simp only [List.forall_mem_cons]
  exact ⟨by decide, by simp⟩

theorem split_nfc_writtenSlot (writable : SlotWritable slot (slotSubs slot)) :
    splitFrom (unit '.') {} [] (N.nfc (writtenSlot slot)) = some (readSubs N slot) := by
  rw [nfc_writtenSlot]
  exact splitFrom_join (readSubs_ne_nil writable) (isPiece_dot_readSubs writable)

theorem slotSubs_nfc_writtenSlot (writable : SlotWritable slot (slotSubs slot)) :
    slotSubs (N.nfc (writtenSlot slot)) = readSubs N slot := by
  rw [slotSubs, split_nfc_writtenSlot writable, Option.getD_some]

theorem readSubs_contents (slot : Text) :
    (readSubs N slot).map unquoteSeg = ((slotSubs slot).map unquoteSeg).map N.nfc := by
  simp only [readSubs, List.map_map]
  refine List.map_congr_left fun sub _ => ?_
  simp only [Function.comp_apply, unquoteSeg_nfc, unquoteSeg_written]

/-- The contents that a path addresses, as they are written and normalized. -/
theorem contents_read (slots : List Text) :
    ((slots.map (readSubs N)).flatten).map unquoteSeg =
      (slots.flatMap fun slot => (slotSubs slot).map unquoteSeg).map N.nfc := by
  induction slots with
  | nil => rfl
  | cons slot slots ih =>
      rw [List.map_cons, List.flatten_cons, List.map_append, ih, List.flatMap_cons, List.map_append,
        readSubs_contents]

theorem composed_segments (slots : List Text) :
    (slots.map writtenSlot).map N.nfc = (slots.map (readSubs N)).map (join (unit '.')) := by
  simp only [List.map_map]
  exact List.map_congr_left fun slot _ => nfc_writtenSlot slot

/-- A written raw sub-segment is a piece, so only structural ones have to be. -/
theorem isPiece_readSubs (writable : SlotWritable slot (slotSubs slot))
    (structural : ∀ sub ∈ slotSubs slot, isStructural sub = true →
      IsPiece [unit '/', unit '?'] sub) :
    ∀ sub ∈ readSubs N slot, IsPiece [unit '/', unit '?'] sub := by
  intro out mem
  obtain ⟨mid, mem', rfl⟩ := List.mem_map.mp mem
  obtain ⟨sub', inside, rfl⟩ := List.mem_map.mp mem'
  refine (isPiece_nfc slash_question_grammar).mpr ?_
  cases known : isStructural sub' with
  | true =>
      rw [written, if_pos known]
      exact structural sub' inside known
  | false =>
      exact isPieceFrom_mono slashes_subset (isPiece_written known (writable.writable sub' inside))

theorem subOk_readSubs (writable : SlotWritable slot (slotSubs slot))
    (structural : ∀ sub ∈ slotSubs slot, isStructural sub = true → SubOk (N.nfc sub)) :
    ∀ sub ∈ readSubs N slot, SubOk sub := by
  intro out mem
  obtain ⟨mid, mem', rfl⟩ := List.mem_map.mp mem
  obtain ⟨sub', inside, rfl⟩ := List.mem_map.mp mem'
  cases known : isStructural sub' with
  | true =>
      rw [written, if_pos known]
      exact structural sub' inside known
  | false =>
      rw [← written_nfc]
      refine subOk_written (isStructural_nfc.trans known) (fun _ => ?_)
        (N.occupied _ (writable.occupied sub' inside)) ?_
      · rw [isUnquotable_nfc]
        exact writable.writable sub' inside known
      · rw [hasControlChar_nfc]
        exact writable.control sub' inside

/-- A query with no control or reserved character is read. -/
theorem exists_extractSession {text : Text} (clean : SessionOk text) :
    ∃ session, extractSession text input = .ok session := by
  have single := not_mem_of_reserved clean.reserved
  have value : SessionOk (text.dropWhile (· ≠ unit '=')).tail := by
    have sub : List.Sublist (text.dropWhile (· ≠ unit '=')).tail text :=
      (List.tail_sublist _).trans (List.dropWhile_sublist _)
    have none : ∀ f : UInt16 → Bool, text.any f = false →
        (text.dropWhile (· ≠ unit '=')).tail.any f = false := fun f absent => by
      rw [List.any_eq_false] at absent ⊢
      exact fun u mem => absent u (sub.subset mem)
    exact ⟨none _ clean.control, none _ clean.reserved⟩
  unfold extractSession
  split
  · exact ⟨none, rfl⟩
  · rw [List.splitOn_eq_singleton single, sessionOf]
    simp only [sessionOf]
    split
    · exact ⟨none, rfl⟩
    · split
      · refine ⟨some _, Fallible.bind_eq_ok.mpr ⟨(), validateSessionSlot_eq_ok.mpr value, rfl⟩⟩
      · exact ⟨none, rfl⟩

theorem normalizedInput_composed (file : Text) (slots : List Text) (session : Option Text) :
    normalizedInput N (composedText file slots session) =
      OC_SCHEME ++ (joined (unit '/') (writtenFile (N.nfc file))
        ((slots.map (readSubs N)).map (join (unit '.'))) ++
          queryText ((session.map (lit "session=" ++ ·)).map N.nfc)) := by
  rw [normalizedInput_composedText, ← writtenFile_nfc, composed_segments]

theorem fileWritable_nfc (writable : FileWritable file) : FileWritable (N.nfc file) := by
  intro needs
  rw [isUnquotable_nfc]
  exact writable (fileNeedsQuote_nfc.symm.trans needs)

theorem sessionOk_query {text : Text} (clean : SessionOk text) :
    SessionOk (N.nfc (lit "session=" ++ text)) := by
  refine ⟨?_, ?_⟩
  · rw [hasControlChar_nfc, hasControlChar_append]
    exact ⟨by decide, clean.control⟩
  · rw [any_nfc (p := isReservedChar), List.any_append, clean.reserved]
    · decide
    · intro u reserved
      simp only [isReservedChar, List.mem_cons, List.not_mem_nil, or_false, decide_eq_true_eq]
        at reserved
      rcases reserved with rfl | rfl | rfl <;> decide

/-- The normalized string has no control character. -/
theorem hasControlChar_composed (fileClean : hasControlChar file = false)
    (writable : ∀ slot ∈ slots, SlotWritable slot (slotSubs slot))
    (sessions : ∀ text, session = some text → SessionOk text) :
    hasControlChar (normalizedInput N (composedText file slots session)) = false := by
  rw [normalizedInput_composed, hasControlChar_append, hasControlChar_append]
  refine ⟨by decide, (any_joined (by decide)).mpr (List.forall_mem_cons.mpr ⟨?_, ?_⟩), ?_⟩
  · unfold writtenFile
    split
    · exact hasControlChar_quoted (hasControlChar_nfc.trans fileClean)
    · exact hasControlChar_nfc.trans fileClean
  · intro out mem
    obtain ⟨read, mem', rfl⟩ := List.mem_map.mp mem
    obtain ⟨slot', inside, rfl⟩ := List.mem_map.mp mem'
    refine hasControlChar_join (by decide) fun sub found => ?_
    obtain ⟨mid, found', rfl⟩ := List.mem_map.mp found
    obtain ⟨sub', found'', rfl⟩ := List.mem_map.mp found'
    rw [hasControlChar_nfc]
    exact hasControlChar_written ((writable slot' inside).control sub' found'')
  · cases session with
    | none => rfl
    | some text =>
        have query := (sessionOk_query (N := N) (sessions text rfl)).control
        rw [Option.map_some, Option.map_some, queryText, ← List.singleton_append,
          hasControlChar_append]
        exact ⟨by decide, query⟩

theorem isPiece_segments (writable : ∀ slot ∈ slots, SlotWritable slot (slotSubs slot))
    (pieces : ∀ slot ∈ slots, ∀ sub ∈ readSubs N slot, IsPiece [unit '/', unit '?'] sub) :
    ∀ seg ∈ (slots.map (readSubs N)).map (join (unit '.')), IsPiece [unit '/', unit '?'] seg := by
  intro out mem
  obtain ⟨read, mem', rfl⟩ := List.mem_map.mp mem
  obtain ⟨slot', inside, rfl⟩ := List.mem_map.mp mem'
  refine (isPiece_join (by decide) fun sub found => ?_).mpr (pieces slot' inside)
  exact balanced_of_isPiece (isPiece_dot_readSubs (writable slot' inside) sub found)

/-- The parts of a path that is formatted. -/
structure Formats (path : OcPath) (slots : List Text) (out : Text) : Prop where
  few : slots.length ≤ 3
  whole : path = pathOf path.file slots path.session
  named : path.file ≠ []
  file : FileOk path.file
  fileWritable : FileWritable path.file
  sessions : ∀ text, path.session = some text → SessionOk text
  writable : ∀ slot ∈ slots, SlotWritable slot (slotSubs slot)
  text : out = composedText path.file slots path.session
  short : byteLength out ≤ MAX_PATH_LENGTH

theorem Formats.slotList (formats : Formats path slots out) : path.slotList = slots := by
  rw [formats.whole, slotList_pathOf formats.few]

theorem exists_formats (ok : formatOcPath path = .ok out) : ∃ slots, Formats path slots out := by
  obtain ⟨composed, short, _⟩ := formatOcPath_eq_ok.mp ok
  have nested := composed
  simp only [composeOcPath, ↓Fallible.check_eq_ok, ↓Fallible.bind_eq_ok] at nested
  obtain ⟨_, _, _, inSection, inItem, _⟩ := nested
  obtain ⟨slots, few, whole⟩ := nested_iff.mp ⟨inSection, inItem⟩
  rw [whole, composeOcPath_eq_ok_iff few] at composed
  obtain ⟨named, file, fileWritable, sessions, writable, text⟩ := composed
  exact ⟨slots, few, whole, named, file, fileWritable, sessions, writable, text, short⟩

/-- Accepted parts are parsed. -/
theorem Formats.addresses (formats : Formats path slots out) (addressable : Addressable N path) :
    Addresses N path out := by
  obtain ⟨file, parts, few, structural, short⟩ := addressable
  rw [formats.slotList] at few structural short
  have writable := formats.writable
  have written_ := fileWritable_nfc (N := N) formats.fileWritable
  obtain ⟨session, extracted⟩ : ∃ session,
      extractSession (((path.session.map (lit "session=" ++ ·)).map N.nfc).getD []) out =
        .ok session := by
    cases found : path.session with
    | none => exact ⟨none, rfl⟩
    | some text => exact exists_extractSession (sessionOk_query (formats.sessions text found))
  have segmentFile : SegmentOk (writtenFile (N.nfc path.file)) :=
    segmentOk_writtenFile written_ file.control fun calm =>
      parts (fileNeedsQuote_nfc.symm.trans calm)
  have segments : ∀ seg ∈ (slots.map (readSubs N)).map (join (unit '.')), SegmentOk seg := by
    intro seg mem
    obtain ⟨read, mem', rfl⟩ := List.mem_map.mp mem
    obtain ⟨slot', inside, rfl⟩ := List.mem_map.mp mem'
    refine ⟨_, splitFrom_join (readSubs_ne_nil (writable slot' inside))
      (isPiece_dot_readSubs (writable slot' inside)), ?_, ?_⟩
    · simpa [readSubs] using few slot' inside
    · exact subOk_readSubs (writable slot' inside) fun sub found known =>
        (structural slot' inside sub found known).1
  have length : ((slots.map (readSubs N)).map (join (unit '.'))).length ≤ 3 := by
    simpa using formats.few
  refine ⟨_, parseOcPath_eq_ok.mpr ⟨writtenFile (N.nfc path.file), _,
    (slots.map (readSubs N)).map (join (unit '.')), _, session, formats.short, ?_, ?_,
    formats.text ▸ normalizedInput_composed _ _ _, ?_, ?_, ?_, .inl ⟨.inl length, rfl⟩, length,
    List.forall_mem_cons.mpr ⟨segmentFile, segments⟩, extracted, rfl⟩, ?_, ?_⟩
  · rw [formats.text, composedText, normalizedInput_scheme]
    exact short
  · rw [formats.text]
    exact hasControlChar_composed formats.file.control writable formats.sessions
  · refine List.forall_mem_cons.mpr ⟨isPiece_writtenFile written_, isPiece_segments writable ?_⟩
    exact fun slot inside => isPiece_readSubs (writable slot inside) fun sub found known =>
      (structural slot inside sub found known).2
  · exact List.forall_mem_cons.mpr ⟨segmentFile.occupied, fun seg mem => (segments seg mem).occupied⟩
  · rw [unquoteSeg_writtenFile written_]
    exact file
  · exact unquoteSeg_writtenFile written_
  · rw [unquotedSubs, slotList_pathOf length, unquotedSubs, formats.slotList, ← contents_read,
      List.map_flatten, List.flatMap_def]
    simp only [List.map_map]
    congr 1
    refine List.map_congr_left fun slot inside => ?_
    simp only [Function.comp_apply]
    rw [← nfc_writtenSlot, slotSubs_nfc_writtenSlot (writable slot inside)]

end OpenClaw.OcPaths
