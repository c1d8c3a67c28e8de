import OpenClaw.OcPath.Reparse

/-!
The first half of the round trip: for a parsed path, the string that it is formatted to
parses to the path again exactly when the path is canonical. One direction composes the
string from the parts of the path; the other reads off the parts of the second parse.
-/

namespace OpenClaw.OcPaths

open JsUnits Normalization

variable {N : Normalization} {input out sub slot file first : Text} {p : OcPath}
  {subs rest slots formatted : List Text} {query session : Option Text}

theorem pathOf_inj {file' : Text} {slots' : List Text} {session' : Option Text}
    (few : slots.length ≤ 3) (few' : slots'.length ≤ 3)
    (same : pathOf file slots session = pathOf file' slots' session') :
    file = file' ∧ slots = slots' ∧ session = session' := by
  refine ⟨congrArg OcPath.file same, ?_, congrArg OcPath.session same⟩
  calc slots = (pathOf file slots session).slotList := (slotList_pathOf few).symm
    _ = (pathOf file' slots' session').slotList := by rw [same]
    _ = slots' := slotList_pathOf few'

theorem SegmentOk.slotWritable (ok : SegmentOk slot)
    (raw : ∀ sub ∈ slotSubs slot, Writable sub) : SlotWritable slot (slotSubs slot) := by
  obtain ⟨split, _, all⟩ := ok.split_subs
  exact ⟨split, fun sub mem => (all sub mem).occupied, fun sub mem => (all sub mem).control, raw⟩

theorem SegmentOk.occupied (ok : SegmentOk slot) : slot ≠ [] := by
  rintro rfl
  obtain ⟨subs, split, _, all⟩ := ok.split
  obtain rfl : [[]] = subs := Option.some.inj split
  exact (all [] List.mem_cons_self).occupied rfl

theorem segmentOk_quoted (quotable : isUnquotable file = false)
    (clean : hasControlChar file = false) : SegmentOk (quoted file) := by
  have absent := quotable
  simp only [isUnquotable, Bool.or_eq_false_iff, decide_eq_false_iff_not] at absent
  have whole : splitFrom (unit '.') {} [] (quoted file) = some [quoted file] := by
    have pieces : ∀ sub ∈ [quoted file], IsPiece [unit '.'] sub := by
      intro sub mem
      rw [List.mem_singleton.mp mem]
      exact isPiece_quoted absent.1
    have split := splitFrom_join (by simp) pieces
    simpa [join, joined] using split
  refine ⟨_, whole, by simp [MAX_SUB_SEGMENTS_PER_SLOT], fun sub mem => ?_⟩
  rw [List.mem_singleton.mp mem]
  refine ⟨by simp [quoted], hasControlChar_quoted clean, fun _ => by rwa [inner_quoted],
    fun not => ?_⟩
  exact absurd ((isQuotedSeg_quoted file).symm.trans not) (by decide)

theorem segmentOk_writtenFile (writable : FileWritable file) (clean : hasControlChar file = false)
    (parts : fileNeedsQuote file = false → SegmentOk file) : SegmentOk (writtenFile file) := by
  unfold writtenFile
  cases needs : fileNeedsQuote file with
  | true => exact segmentOk_quoted (writable needs) clean
  | false => exact parts needs

/-- A sub-segment is written as it is if it is structural or free of characters to quote. -/
theorem written_eq_self : written sub = sub ↔
    (isStructural sub = false → sub.any needsQuote = false) := by
  cases structural : isStructural sub with
  | true => simp [written, structural]
  | false => simpa using written_length structural

theorem writtenSlot_eq_self (writable : SlotWritable slot (slotSubs slot)) :
    writtenSlot slot = slot ↔ ∀ sub ∈ slotSubs slot, written sub = sub := by
  have whole := ((splitFrom_eq_some_join (by decide)).mp writable.split).2.2
  constructor
  · intro same
    have split := split_writtenSlot writable
    rw [same, writable.split] at split
    have fixed : (slotSubs slot).map written = (slotSubs slot).map id := by
      rw [List.map_id]
      exact (Option.some.inj split).symm
    exact List.map_inj_left.mp fixed
  · intro same
    rw [writtenSlot, List.map_congr_left same, List.map_id', ← whole]

/-- The string of a path, from its parts. -/
def composedText (file : Text) (slots : List Text) (session : Option Text) : Text :=
  OC_SCHEME ++ (joined (unit '/') (writtenFile file) (slots.map writtenSlot) ++
    queryText (session.map (lit "session=" ++ ·)))

theorem composeOcPath_eq_ok_iff (few : slots.length ≤ 3) :
    composeOcPath (pathOf file slots session) = .ok out ↔
      file ≠ [] ∧ FileOk file ∧ FileWritable file ∧ (∀ text, session = some text → SessionOk text) ∧
        (∀ slot ∈ slots, SlotWritable slot (slotSubs slot)) ∧
          out = composedText file slots session := by
  simp only [composeOcPath_eq_ok few, slotsWritten_iff, composedText]
  constructor
  · rintro ⟨named, fileOk, writable, sessions, _, ⟨all, rfl⟩, rfl⟩
    exact ⟨named, fileOk, writable, sessions, all, rfl⟩
  · rintro ⟨named, fileOk, writable, sessions, all, rfl⟩
    exact ⟨named, fileOk, writable, sessions, _, ⟨all, rfl⟩, rfl⟩

theorem normalizedInput_composedText : normalizedInput N (composedText file slots session) =
    OC_SCHEME ++ (joined (unit '/') (N.nfc (writtenFile file)) ((slots.map writtenSlot).map N.nfc) ++
      queryText ((session.map (lit "session=" ++ ·)).map N.nfc)) := by
  rw [composedText, normalizedInput_scheme, nfc_composed]

theorem Parse.normalized_composed (parse : Parse N input p first rest slots query session)
    (fileWritable : FileWritable (unquoteSeg first))
    (writable : ∀ slot ∈ slots, SlotWritable slot (slotSubs slot)) :
    normalizedInput N (composedText (unquoteSeg first) slots session) =
      composedText (unquoteSeg first) slots session := by
  obtain ⟨file, fixed, pair, _⟩ := parse.composed fileWritable writable
  rw [normalizedInput_composedText, file, fixed, pair, composedText]

theorem Parse.session_ok (parse : Parse N input p first rest slots query session) (text : Text)
    (found : session = some text) : text ≠ [] ∧ SessionOk text := by
  have extracted := parse.extracted
  rw [found] at extracted
  obtain ⟨occupied, checked, _⟩ := extractSession_eq_some extracted
  exact ⟨occupied, checked⟩

/-- A parsed path that reparses has nothing to be quoted anew. -/
theorem Parse.canonical_of_reparses (parse : Parse N input p first rest slots query session)
    (again : Reparses N p) : Canonical p := by
  obtain ⟨out, formats, parses⟩ := again
  have composed := (formatOcPath_eq_ok.mp formats).1
  rw [parse.result, composeOcPath_eq_ok_iff parse.few] at composed
  obtain ⟨named, fileOk, fileWritable, _, writable, rfl⟩ := composed
  obtain ⟨first', rest', slots', query', session', parse'⟩ := parseOcPath_eq_ok.mp parses
  have text := parse'.whole
  rw [parse.normalized_composed fileWritable writable, composedText,
    List.append_cancel_left_eq] at text
  have pieces := (parse.composed fileWritable writable).2.2.2
  obtain ⟨sameFile, sameSlots, _⟩ := composed_unique pieces parse'.pieces text
  obtain ⟨_, same, _⟩ := pathOf_inj parse'.few parse.few (parse'.result.symm.trans parse.result)
  have unfolded : slots' = rest' := by
    rcases parse'.folds with ⟨_, same⟩ | ⟨deep, _, _, _⟩
    · exact same
    · have few := parse.few
      rw [← sameSlots, List.length_map] at deep
      omega
  have fixed : slots.map writtenSlot = slots.map id := by
    rw [List.map_id, sameSlots, ← unfolded, same]
  rw [parse.result]
  refine ⟨named, fileWritable, fun calm => ?_, fun slot mem sub inside structural => ?_⟩
  · have segment := parse'.segments first' List.mem_cons_self
    rw [← sameFile, writtenFile] at segment
    change fileNeedsQuote (unquoteSeg first) = false at calm
    rw [calm] at segment
    exact segment
  · rw [slotList_pathOf parse.few] at mem
    have slotFixed := List.map_inj_left.mp fixed slot mem
    have subFixed := (writtenSlot_eq_self (writable slot mem)).mp slotFixed sub inside
    exact ⟨(writable slot mem).writable sub inside structural, written_eq_self.mp subFixed structural⟩

theorem hasControlChar_append {a b : Text} : hasControlChar (a ++ b) = false ↔
    hasControlChar a = false ∧ hasControlChar b = false := by
  rw [hasControlChar, List.any_append, Bool.or_eq_false_iff, hasControlChar, hasControlChar]

/-- A canonical path reparses. -/
theorem Parse.reparses_of_canonical (parse : Parse N input p first rest slots query session)
    (caps : WithinCaps p) (canonical : Canonical p) : Reparses N p := by
  obtain ⟨named, fileWritable, parts, raw⟩ := canonical
  rw [parse.result] at named fileWritable parts raw
  rw [slotList_pathOf parse.few] at raw
  change unquoteSeg first ≠ [] at named
  change FileWritable (unquoteSeg first) at fileWritable
  have segments : ∀ slot ∈ slots, SegmentOk slot := fun slot mem =>
    parse.segments slot (List.mem_cons_of_mem _ mem)
  have writable : ∀ slot ∈ slots, SlotWritable slot (slotSubs slot) := fun slot mem =>
    (segments slot mem).slotWritable fun sub inside structural =>
      (raw slot mem sub inside structural).1
  have fixed : slots.map writtenSlot = slots := by
    conv_rhs => rw [← List.map_id slots]
    refine List.map_congr_left fun slot mem => (writtenSlot_eq_self (writable slot mem)).mpr ?_
    exact fun sub inside => written_eq_self.mpr fun structural =>
      (raw slot mem sub inside structural).2
  have composes : composeOcPath p = .ok (composedText (unquoteSeg first) slots session) := by
    rw [parse.result, composeOcPath_eq_ok_iff parse.few]
    exact ⟨named, parse.file, fileWritable, fun text found => (parse.session_ok text found).2,
      writable, rfl⟩
  obtain ⟨short, clean⟩ := caps _ composes
  refine ⟨_, formatOcPath_eq_ok.mpr ⟨composes, short, clean⟩, parseOcPath_eq_ok.mpr ?_⟩
  have normal := parse.normalized_composed fileWritable writable
  have segmentFile := segmentOk_writtenFile fileWritable parse.file.control parts
  refine ⟨writtenFile (unquoteSeg first), slots, slots, session.map (lit "session=" ++ ·), session,
    short, ?_, ?_, ?_, ?_, ?_, ?_, ?_, parse.few, ?_, ?_, ?_⟩
  · rwa [normal]
  · rw [normal, composedText, fixed, hasControlChar_append, hasControlChar_append]
    refine ⟨by decide, ?_, ?_⟩
    · refine (any_joined (by decide)).mpr (List.forall_mem_cons.mpr ⟨?_, fun slot mem => ?_⟩)
      · unfold writtenFile
        split
        · exact hasControlChar_quoted parse.file.control
        · exact parse.file.control
      · obtain ⟨split, _, all⟩ := (segments slot mem).split_subs
        obtain ⟨_, _, whole⟩ := (splitFrom_eq_some_join (by decide)).mp split
        rw [whole]
        exact hasControlChar_join (by decide) fun sub inside => (all sub inside).control
    · cases found : session with
      | none => rfl
      | some text =>
          have checked := (parse.session_ok text found).2
          rw [Option.map_some, queryText, ← List.singleton_append, hasControlChar_append,
            hasControlChar_append]
          exact ⟨by decide, by decide, checked.control⟩
  · rw [normal, composedText, fixed]
  · rw [← fixed]
    exact (parse.composed fileWritable writable).2.2.2
  · exact List.forall_mem_cons.mpr ⟨segmentFile.occupied, fun slot mem => (segments slot mem).occupied⟩
  · rw [unquoteSeg_writtenFile fileWritable]
    exact parse.file
  · exact .inl ⟨.inl parse.few, rfl⟩
  · exact List.forall_mem_cons.mpr ⟨segmentFile, segments⟩
  · cases found : session with
    | none => rfl
    | some text =>
        obtain ⟨occupied, checked⟩ := parse.session_ok text found
        exact extractSession_session occupied checked
  · rw [unquoteSeg_writtenFile fileWritable]
    exact parse.result

theorem reparses_iff (parsed : parseOcPath N input = .ok p) (caps : WithinCaps p) :
    Reparses N p ↔ Canonical p := by
  obtain ⟨_, _, _, _, _, parse⟩ := parseOcPath_eq_ok.mp parsed
  exact ⟨parse.canonical_of_reparses, parse.reparses_of_canonical caps⟩

end OpenClaw.OcPaths

/-!
How sub-segments are spelled in a path, and read back. A sub-segment with a delimiter at its
top is read back as the text in front of the delimiter, which has another content; so where
the contents agree, no sub-segment has a delimiter at its top.
-/

namespace OpenClaw.OcPaths

open JsUnits Normalization

variable {N : Normalization} {delims : List UInt16} {σ : ScanState} {a b x y sub slot text buf : Text}
  {subs rest : List Text} {delim u : UInt16}

/-- A balanced text that is no piece has a first delimiter at its top. -/
theorem exists_delim_of_not_isPieceFrom (plain : ∀ d ∈ delims, isRegionUnit d = false)
    (balanced : isPieceFrom [] σ text = true) (not : isPieceFrom delims σ text = false) :
    ∃ a d b, text = a ++ d :: b ∧ d ∈ delims ∧ isPieceFrom delims σ a = true := by
  induction text generalizing σ with
  | nil => exact absurd (balanced.symm.trans not) (by decide)
  | cons c cs ih =>
      simp only [isPieceFrom] at balanced not
      cases moved : σ.next c with
      | none => simp [moved] at balanced
      | some τ =>
          simp only [moved, Bool.and_eq_true] at balanced not
          by_cases met : (τ.atTop c && decide (c ∈ delims)) = true
          · obtain ⟨top, mem⟩ : τ.atTop c = true ∧ c ∈ delims := by simpa using met
            obtain rfl : σ = τ := by simpa [next_plain_self (plain c mem)] using moved
            simp only [ScanState.atTop, Bool.and_eq_true, decide_eq_true_eq] at top
            exact ⟨[], c, cs, rfl, mem, by simp [isPieceFrom, top.1]⟩
          · rw [Bool.not_eq_true] at met
            rw [met, Bool.not_false, Bool.true_and] at not
            obtain ⟨a, d, b, rfl, mem, piece⟩ := ih balanced.2 not
            exact ⟨c :: a, d, b, rfl, mem, by simp [isPieceFrom, moved, met, piece]⟩

/-- A balanced text is split. -/
theorem exists_splitFrom (balanced : isPieceFrom [] σ text = true) : ∃ pieces, splitFrom delim σ buf text = some pieces := by
  induction text generalizing σ buf with
  | nil => exact ⟨[buf], by simpa [splitFrom, isPieceFrom] using balanced⟩
  | cons c cs ih =>
      simp only [isPieceFrom, splitFrom] at balanced ⊢
      cases moved : σ.next c with
      | none => simp [moved] at balanced
      | some τ =>
          simp only [moved, Bool.and_eq_true] at balanced ⊢
          split
          · obtain ⟨pieces, split⟩ : ∃ pieces, splitFrom delim τ [] cs = some pieces := ih balanced.2
            exact ⟨buf :: pieces, by rw [split, Option.map_some]⟩
          · exact ih balanced.2

theorem slotSubs_split (balanced : isBalanced slot = true) :
    splitFrom (unit '.') {} [] slot = some (slotSubs slot) := by
  obtain ⟨pieces, split⟩ := exists_splitFrom balanced
  rw [slotSubs, split, Option.getD_some]

theorem unquoteSeg_of_raw (raw : isQuotedSeg sub = false) : unquoteSeg sub = sub := by
  rw [unquoteSeg, raw]
  rfl

theorem unquoteSeg_written (sub : Text) : unquoteSeg (written sub) = unquoteSeg sub := by
  unfold written
  split
  case isTrue => rfl
  case isFalse raw =>
    simp only [isStructural, Bool.not_eq_true, Bool.or_eq_false_iff] at raw
    split
    · rw [unquoteSeg_quoted, unquoteSeg_of_raw raw.1.1]
    · rfl

theorem not_isBalanced_quote : isBalanced [unit '"'] = false := by decide

/-- The text in front of a delimiter at the top has another content than the whole. -/
theorem unquoteSeg_ne (plain : isRegionUnit u = false) (front : isBalanced a = true)
    (whole : isBalanced (a ++ u :: b) = true) : unquoteSeg a ≠ unquoteSeg (a ++ u :: b) := by
  intro same
  have behind : isBalanced b = true := by
    rw [isBalanced, isPieceFrom_append front] at whole
    exact (isPiece_delimited plain List.not_mem_nil).mp whole
  have sizes := congrArg List.length same
  cases wrapped : isQuotedSeg (a ++ u :: b) with
  | false =>
      rw [unquoteSeg_of_raw wrapped] at sizes
      have shorter : (unquoteSeg a).length ≤ a.length := by
        unfold unquoteSeg
        split
        · simp [inner]
          omega
        · exact Nat.le_refl _
      simp only [List.length_append, List.length_cons] at sizes
      omega
  | true =>
      obtain ⟨content, text⟩ := isQuotedSeg_iff.mp wrapped
      have count := congrArg List.length text
      rw [text, unquoteSeg_quoted] at sizes
      simp only [quoted, List.length_append, List.length_cons, List.length_nil] at count
      cases wrappedFront : isQuotedSeg a with
      | true =>
          obtain ⟨content', rfl⟩ := isQuotedSeg_iff.mp wrappedFront
          rw [unquoteSeg_quoted] at sizes
          simp only [quoted, List.length_append, List.length_cons, List.length_nil] at count
          omega
      | false =>
          rw [unquoteSeg_of_raw wrappedFront] at sizes
          -- one unit is left behind the delimiter: the closing quotation mark
          obtain ⟨v, rfl⟩ := List.length_eq_one_iff.mp (show b.length = 1 by omega)
          have last := congrArg List.getLast? text
          rw [quoted, List.getLast?_append, List.getLast?_append] at last
          have mark : v = unit '"' := by simpa using last
          rw [mark, not_isBalanced_quote] at behind
          exact absurd behind (by decide)

/-- Sub-segments behind slashes and dots. -/
inductive Spells : List Text → Text → Prop where
  | nil : Spells [] []
  | cons {mark : UInt16} {sub : Text} {subs : List Text} {text : Text} :
      mark ∈ [unit '/', unit '.'] → Spells subs text → Spells (sub :: subs) (mark :: (sub ++ text))

theorem Spells.append {subs' : List Text} (left : Spells subs x) (right : Spells subs' y) :
    Spells (subs ++ subs') (x ++ y) := by
  induction left with
  | nil => exact right
  | cons mark _ ih =>
      rw [List.cons_append, List.cons_append, List.append_assoc]
      exact .cons mark ih

theorem Spells.dotted (subs : List Text) : Spells subs (subs.flatMap (unit '.' :: ·)) := by
  induction subs with
  | nil => exact .nil
  | cons sub subs ih =>
      rw [List.flatMap_cons, List.cons_append]
      exact .cons (by decide) ih

theorem Spells.of_slot (occupied : subs ≠ []) : Spells subs (unit '/' :: join (unit '.') subs) := by
  cases subs with
  | nil => exact absurd rfl occupied
  | cons first rest => exact .cons (by decide) (Spells.dotted rest)

theorem Spells.of_slots {slots : List (List Text)} (occupied : ∀ subs ∈ slots, subs ≠ []) :
    Spells slots.flatten ((slots.map (join (unit '.'))).flatMap (unit '/' :: ·)) := by
  induction slots with
  | nil => exact .nil
  | cons subs slots ih =>
      obtain ⟨here, there⟩ := List.forall_mem_cons.mp occupied
      rw [List.flatten_cons, List.map_cons, List.flatMap_cons]
      exact (Spells.of_slot here).append (ih there)

theorem delimiters_plain : ∀ d ∈ DELIMITERS, isRegionUnit d = false := by
  unfold DELIMITERS
  simp only [List.forall_mem_cons]
  exact ⟨by decide, by decide, by decide, by simp⟩

theorem Spells.delimited (spells : Spells subs text) (query : Option Text) :
    Delimited DELIMITERS (text ++ queryText query) := by
  intro v first
  cases spells with
  | nil =>
      cases query with
      | none => simp [queryText] at first
      | some query =>
          obtain rfl : unit '?' = v := by simpa [queryText] using first
          decide
  | @cons u _ _ _ mark _ =>
      obtain rfl : u = v := by simpa using first
      rcases List.mem_cons.mp mark with rfl | mark
      · decide
      · rw [List.mem_singleton.mp mark]
        decide

/-- Where the same contents are read back, no sub-segment has a delimiter at its top. -/
theorem Spells.pieces {read : List Text} {query query' : Option Text} (left : Spells subs x)
    (right : Spells read y) (balanced : ∀ sub ∈ subs, isBalanced sub = true)
    (pieces : ∀ sub ∈ read, IsPiece DELIMITERS sub)
    (same : x ++ queryText query = y ++ queryText query')
    (contents : read.map unquoteSeg = subs.map unquoteSeg) :
    ∀ sub ∈ subs, IsPiece DELIMITERS sub := by
  induction left generalizing read y with
  | nil => simp
  | @cons u sub subs text _ spells ih =>
      obtain ⟨whole, others⟩ := List.forall_mem_cons.mp balanced
      cases right with
      | nil => simp at contents
      | @cons v front read text' _ spells' =>
          obtain ⟨piece, others'⟩ := List.forall_mem_cons.mp pieces
          simp only [List.map_cons, List.cons.injEq] at contents
          simp only [List.cons_append, List.append_assoc, List.cons.injEq] at same
          obtain ⟨_, same⟩ := same
          cases own : isPieceFrom DELIMITERS {} sub with
          | true =>
              obtain ⟨_, tails⟩ := piece_unique delimiters_plain own piece (spells.delimited query)
                (spells'.delimited query') same
              exact List.forall_mem_cons.mpr ⟨own, ih spells' others others' tails contents.2⟩
          | false =>
              obtain ⟨a, d, b, rfl, mem, top⟩ :=
                exists_delim_of_not_isPieceFrom delimiters_plain whole own
              rw [List.append_assoc] at same
              have stops : Delimited DELIMITERS ((d :: b) ++ (text ++ queryText query)) := by
                intro w first
                obtain rfl : d = w := by simpa using first
                exact mem
              obtain ⟨rfl, _⟩ := piece_unique delimiters_plain top piece stops
                (spells'.delimited query') same
              exact absurd contents.1
                (unquoteSeg_ne (delimiters_plain d mem) (balanced_of_isPiece top) whole)

end OpenClaw.OcPaths
