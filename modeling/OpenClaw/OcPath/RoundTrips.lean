import OpenClaw.OcPath.Addressed

/-!
Both halves of the round trip. What is read back from a formatted path has the same contents
only if the segments are read back as they were written; then their checks are the conditions
under which the path is addressable.
-/

namespace OpenClaw.OcPaths

open JsUnits Normalization

variable {N : Normalization} {input out : Text} {p path q : OcPath} {first : Text}
  {rest slots slots' : List Text} {query session : Option Text}

/-- Every raw segment of a parsed path is split, so its sub-segments spell it. -/
theorem Parse.split_rest (parse : Parse N input q first rest slots query session) :
    ∀ seg ∈ rest, splitFrom (unit '.') {} [] seg = some (slotSubs seg) := fun seg mem =>
  slotSubs_split (balanced_of_isPiece (parse.pieces seg (List.mem_cons_of_mem _ mem)))

theorem Parse.rest_eq (parse : Parse N input q first rest slots query session) :
    (rest.map slotSubs).map (join (unit '.')) = rest := by
  rw [List.map_map]
  conv_rhs => rw [← List.map_id rest]
  refine List.map_congr_left fun seg mem => ?_
  exact ((splitFrom_eq_some_join (by decide)).mp (parse.split_rest seg mem)).2.2.symm

theorem Parse.subs_ne_nil (parse : Parse N input q first rest slots query session) :
    ∀ subs ∈ rest.map slotSubs, subs ≠ [] := by
  intro subs mem
  obtain ⟨seg, mem', rfl⟩ := List.mem_map.mp mem
  exact ((splitFrom_eq_some_join (by decide)).mp (parse.split_rest seg mem')).1

/-- The sub-segments of the raw segments are pieces for every delimiter. -/
theorem Parse.subs_pieces (parse : Parse N input q first rest slots query session) :
    ∀ sub ∈ (rest.map slotSubs).flatten, IsPiece DELIMITERS sub := by
  intro sub mem
  obtain ⟨subs, mem', inside⟩ := List.mem_flatten.mp mem
  obtain ⟨seg, mem'', rfl⟩ := List.mem_map.mp mem'
  obtain ⟨_, dots, whole⟩ := (splitFrom_eq_some_join (by decide)).mp (parse.split_rest seg mem'')
  have piece := parse.pieces seg (List.mem_cons_of_mem _ mem'')
  rw [whole, isPiece_join (by decide) fun sub mem => balanced_of_isPiece (dots sub mem)] at piece
  obtain ⟨slash, question⟩ := isPiece_pair.mp (piece sub inside)
  have both : IsPiece ([unit '/'] ++ ([unit '.'] ++ [unit '?'])) sub :=
    isPieceFrom_union.mpr ⟨slash, isPieceFrom_union.mpr ⟨dots sub inside, question⟩⟩
  exact both

theorem join_append {left right : List Text} (occupied : left ≠ []) (occupied' : right ≠ []) :
    join (unit '.') (left ++ right) = join (unit '.') left ++ unit '.' :: join (unit '.') right := by
  obtain ⟨l, ls, rfl⟩ := List.exists_cons_of_ne_nil occupied
  obtain ⟨r, rs, rfl⟩ := List.exists_cons_of_ne_nil occupied'
  simp [join, joined]

theorem join_flatten {pieces : List (List Text)} (occupied : ∀ subs ∈ pieces, subs ≠ []) :
    join (unit '.') pieces.flatten = join (unit '.') (pieces.map (join (unit '.'))) := by
  induction pieces with
  | nil => rfl
  | cons subs pieces ih =>
      obtain ⟨here, there⟩ := List.forall_mem_cons.mp occupied
      cases pieces with
      | nil => simp [join, joined]
      | cons next pieces =>
          have later : (next :: pieces).flatten ≠ [] := by
            simp [(List.forall_mem_cons.mp there).1]
          rw [List.flatten_cons, join_append here later, ih there]
          simp [join, joined]

/-- Folding segments into a slot keeps their sub-segments. -/
theorem Parse.flat_subs (parse : Parse N input q first rest slots query session) :
    slots.flatMap slotSubs = (rest.map slotSubs).flatten := by
  rcases parse.folds with ⟨_, rfl⟩ | ⟨deep, _, _, rfl⟩
  · rw [List.flatMap_def]
  · have split : splitFrom (unit '.') {} []
        (join (unit '.') (rest.take (rest.length - 2))) =
          some ((rest.take (rest.length - 2)).map slotSubs).flatten := by
      have pieces : ∀ subs ∈ (rest.take (rest.length - 2)).map slotSubs, subs ∈ rest.map slotSubs := by
        intro subs mem
        obtain ⟨seg, mem', rfl⟩ := List.mem_map.mp mem
        exact List.mem_map_of_mem (List.mem_of_mem_take mem')
      have occupied : ∀ subs ∈ (rest.take (rest.length - 2)).map slotSubs, subs ≠ [] :=
        fun subs mem => parse.subs_ne_nil subs (pieces subs mem)
      have text : join (unit '.') (rest.take (rest.length - 2)) =
          join (unit '.') ((rest.take (rest.length - 2)).map slotSubs).flatten := by
        rw [join_flatten occupied, List.map_take, List.map_take, parse.rest_eq]
      rw [text]
      refine splitFrom_join ?_ fun sub mem => ?_
      · obtain ⟨seg, segs, some⟩ : ∃ seg segs, rest.take (rest.length - 2) = seg :: segs :=
          List.exists_cons_of_ne_nil (List.ne_nil_of_length_pos (by rw [List.length_take]; omega))
        rw [some, List.map_cons] at occupied ⊢
        simp [(List.forall_mem_cons.mp occupied).1]
      · obtain ⟨subs, mem', inside⟩ := List.mem_flatten.mp mem
        have piece := parse.subs_pieces sub
          (List.mem_flatten.mpr ⟨subs, pieces subs mem', inside⟩)
        exact isPieceFrom_mono (by simp [DELIMITERS]) piece
    have front : slotSubs ((lit ".").intercalate (rest.take (rest.length - 2))) =
        ((rest.take (rest.length - 2)).map slotSubs).flatten := by
      rw [intercalate_eq_join, slotSubs, split, Option.getD_some]
    rw [List.flatMap_cons, front, List.flatMap_def, ← List.flatten_append, ← List.map_append,
      List.take_append_drop]

theorem flatMap_contents (slots : List Text) :
    (slots.flatMap fun slot => (slotSubs slot).map unquoteSeg) =
      (slots.flatMap slotSubs).map unquoteSeg := by
  rw [List.map_flatMap]

/-- What is read back with the same contents are the segments as they were written. -/
theorem Formats.segments_read (formats : Formats path slots out)
    (parse : Parse N out q first rest slots' query session)
    (same : unquotedSubs q = (unquotedSubs path).map N.nfc) :
    first = writtenFile (N.nfc path.file) ∧
      rest = (slots.map (readSubs N)).map (join (unit '.')) ∧
      ∀ slot ∈ slots, ∀ sub ∈ readSubs N slot, IsPiece [unit '/', unit '?'] sub := by
  have writable := formats.writable
  have file := isPiece_writtenFile (fileWritable_nfc (N := N) formats.fileWritable)
  have text := parse.whole
  rw [formats.text, normalizedInput_composed, List.append_cancel_left_eq] at text
  have tails := text
  simp only [joined, List.append_assoc] at tails
  obtain ⟨_, tails⟩ := piece_unique slash_question_plain file
    (parse.pieces first List.mem_cons_self) (delimited_tail _ _) (delimited_tail rest query) tails
  have occupied : ∀ subs ∈ slots.map (readSubs N), subs ≠ [] := by
    intro subs mem
    obtain ⟨slot, mem', rfl⟩ := List.mem_map.mp mem
    exact readSubs_ne_nil (writable slot mem')
  have balanced : ∀ sub ∈ (slots.map (readSubs N)).flatten, isBalanced sub = true := by
    intro sub mem
    obtain ⟨subs, mem', inside⟩ := List.mem_flatten.mp mem
    obtain ⟨slot, mem'', rfl⟩ := List.mem_map.mp mem'
    exact balanced_of_isPiece (isPiece_dot_readSubs (writable slot mem'') sub inside)
  rw [← parse.rest_eq] at tails
  rw [unquotedSubs, unquotedSubs, parse.result, slotList_pathOf parse.few, flatMap_contents,
    parse.flat_subs, formats.slotList, ← contents_read] at same
  have pieces := (Spells.of_slots occupied).pieces (Spells.of_slots parse.subs_ne_nil) balanced
    parse.subs_pieces tails same
  have each : ∀ slot ∈ slots, ∀ sub ∈ readSubs N slot, IsPiece [unit '/', unit '?'] sub :=
    fun slot mem sub inside => isPieceFrom_mono slashes_subset
      (pieces sub (List.mem_flatten.mpr ⟨_, List.mem_map_of_mem mem, inside⟩))
  obtain ⟨sameFile, sameRest, _⟩ := composed_unique
    (List.forall_mem_cons.mpr ⟨file, isPiece_segments writable each⟩) parse.pieces text
  exact ⟨sameFile.symm, sameRest.symm, each⟩

/-- A path that is addressed is addressable. -/
theorem Formats.addressable (formats : Formats path slots out) (addresses : Addresses N path out) :
    Addressable N path := by
  obtain ⟨q, parses, _, same⟩ := addresses
  obtain ⟨first, rest, slots', query, session, parse⟩ := parseOcPath_eq_ok.mp parses
  obtain ⟨rfl, rfl, pieces⟩ := formats.segments_read parse same
  have writable := formats.writable
  have writtenFile_ := fileWritable_nfc (N := N) formats.fileWritable
  have unfolded : slots' = (slots.map (readSubs N)).map (join (unit '.')) := by
    rcases parse.folds with ⟨_, same⟩ | ⟨deep, _, _, _⟩
    · exact same
    · have few := formats.few
      simp only [List.length_map] at deep
      omega
  have segment : ∀ slot ∈ slots, SegmentOk (N.nfc (writtenSlot slot)) := by
    intro slot mem
    have ok := parse.segments (N.nfc (writtenSlot slot))
    rw [unfolded, nfc_writtenSlot] at ok
    rw [nfc_writtenSlot]
    exact ok (List.mem_cons_of_mem _ (List.mem_map_of_mem (List.mem_map_of_mem mem)))
  have checked : ∀ slot ∈ slots, (readSubs N slot).length ≤ MAX_SUB_SEGMENTS_PER_SLOT ∧
      ∀ sub ∈ readSubs N slot, SubOk sub := by
    intro slot mem
    have read := (segment slot mem).split_subs.2
    rwa [slotSubs_nfc_writtenSlot (writable slot mem)] at read
  refine ⟨?_, fun calm => ?_, ?_, ?_, ?_⟩
  · have file := parse.file
    rwa [unquoteSeg_writtenFile writtenFile_] at file
  · have ok := parse.segments _ List.mem_cons_self
    rw [writtenFile, fileNeedsQuote_nfc, calm] at ok
    exact ok
  · rw [formats.slotList]
    intro slot mem
    simpa [readSubs] using (checked slot mem).1
  · rw [formats.slotList]
    intro slot mem sub inside known
    have found : N.nfc sub ∈ readSubs N slot := by
      refine List.mem_map.mpr ⟨sub, List.mem_map.mpr ⟨sub, inside, ?_⟩, rfl⟩
      rw [written, if_pos known]
    exact ⟨(checked slot mem).2 _ found,
      (isPiece_nfc slash_question_grammar).mp (pieces slot mem _ found)⟩
  · rw [formats.slotList]
    have short := parse.normalizedShort
    rwa [formats.text, composedText, normalizedInput_scheme] at short

theorem addresses_iff (ok : formatOcPath path = .ok out) :
    Addresses N path out ↔ Addressable N path := by
  obtain ⟨slots, formats⟩ := exists_formats ok
  exact ⟨formats.addressable, formats.addresses⟩

/-- A parsed path is normalized, so only a normalized path is addressed exactly. -/
theorem Parse.normal (parse : Parse N input q first rest slots query session) : Normal N q := by
  refine ⟨?_, ?_⟩
  · rw [parse.result]
    change N.nfc (unquoteSeg first) = unquoteSeg first
    rw [← unquoteSeg_nfc, parse.fixed.1]
  · rw [unquotedSubs, parse.result, slotList_pathOf parse.few, flatMap_contents, List.map_map]
    conv_rhs => rw [← List.map_id (slots.flatMap slotSubs), List.map_map]
    refine List.map_congr_left fun sub mem => ?_
    obtain ⟨slot, mem', inside⟩ := List.mem_flatMap.mp mem
    have split := (parse.segments slot (List.mem_cons_of_mem _ mem')).split_subs.1
    have fixed := fixed_subs split (parse.slots_fixed slot mem').2
    rw [Function.comp_apply, ← unquoteSeg_nfc,
      List.map_inj_left.mp (fixed.trans (List.map_id _).symm) sub inside]
    rfl

theorem addressesExactly_iff (ok : formatOcPath path = .ok out) :
    AddressesExactly N path out ↔ Addressable N path ∧ Normal N path := by
  rw [← addresses_iff ok]
  constructor
  · rintro ⟨q, parses, file, subs⟩
    obtain ⟨_, _, _, _, _, parse⟩ := parseOcPath_eq_ok.mp parses
    obtain ⟨fixedFile, fixedSubs⟩ := parse.normal
    rw [file] at fixedFile
    rw [subs] at fixedSubs
    exact ⟨⟨q, parses, file.trans fixedFile.symm, subs.trans fixedSubs.symm⟩, fixedFile, fixedSubs⟩
  · rintro ⟨⟨q, parses, file, subs⟩, fixedFile, fixedSubs⟩
    exact ⟨q, parses, file.trans fixedFile, subs.trans fixedSubs⟩

/-- Both halves, each with its exact condition. -/
def RoundTrips (N : Normalization) : Prop :=
  (∀ input p, parseOcPath N input = .ok p → WithinCaps p → Reparses N p) ∧
    ∀ path out, formatOcPath path = .ok out → AddressesExactly N path out

theorem round_trip_iff (N : Normalization) :
    (∀ input p, parseOcPath N input = .ok p → WithinCaps p → (Reparses N p ↔ Canonical p)) ∧
      ∀ path out, formatOcPath path = .ok out →
        (Addresses N path out ↔ Addressable N path) ∧
          (AddressesExactly N path out ↔ Addressable N path ∧ Normal N path) :=
  ⟨fun _ _ parsed caps => reparses_iff parsed caps,
    fun _ _ ok => ⟨addresses_iff ok, addressesExactly_iff ok⟩⟩

/-- The identity is a normalization. -/
def verbatim : Normalization where
  nfc text := text
  idempotent _ := rfl
  ascii _ _ := rfl
  inert _ _ _ _ := rfl
  plain _ run := run
  blank _ := rfl
  occupied _ some := some

/-- A key with a region inside, as the parser reads it from a raw segment. -/
def region : OcPath where
  file := lit "a.md"
  section_ := some (lit "a[b]c")

/-- A file with an empty part in front of its dot. -/
def hidden : OcPath where
  file := lit ".env"

theorem parseOcPath_region : parseOcPath verbatim (lit "oc://a.md/a[b]c") = .ok region := rfl

theorem composeOcPath_region : composeOcPath region = .ok (lit "oc://a.md/\"a[b]c\"") := rfl

theorem withinCaps_region : WithinCaps region := by
  intro out composed
  rw [composeOcPath_region] at composed
  obtain rfl := Except.ok.inj composed
  exact ⟨by decide, by decide⟩

theorem formatOcPath_hidden : formatOcPath hidden = .ok (lit "oc://.env") := rfl

theorem round_trip_iff_region_hidden : (Reparses verbatim region ↔ Canonical region) ∧
    (Addresses verbatim hidden (lit "oc://.env") ↔ Addressable verbatim hidden) :=
  ⟨(round_trip_iff verbatim).1 _ _ parseOcPath_region withinCaps_region,
    ((round_trip_iff verbatim).2 _ _ formatOcPath_hidden).1⟩

/-- The key is quoted anew, and the string of the file is not accepted. -/
theorem not_round_trips : ¬ RoundTrips verbatim ∧ ¬ Reparses verbatim region ∧
    ¬ Addresses verbatim hidden (lit "oc://.env") := by
  have requoted : ¬ Reparses verbatim region := by
    rintro ⟨out, formats, parses⟩
    have text : formatOcPath region = .ok (lit "oc://a.md/\"a[b]c\"") := rfl
    obtain rfl := Except.ok.inj (text.symm.trans formats)
    have other : (parseOcPath verbatim (lit "oc://a.md/\"a[b]c\"")).toOption =
        some { region with section_ := some (lit "\"a[b]c\"") } := rfl
    rw [parses] at other
    exact absurd (Option.some.inj other) (by decide)
  refine ⟨fun ⟨reparses, _⟩ => requoted (reparses _ _ parseOcPath_region withinCaps_region),
    requoted, ?_⟩
  rintro ⟨q, parses, _⟩
  have refused : (parseOcPath verbatim (lit "oc://.env")).toOption = none := rfl
  rw [parses] at refused
  cases refused

end OpenClaw.OcPaths
