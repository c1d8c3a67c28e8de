import OpenClaw.OcPath.Normal

/-!
How the pieces of a path are recovered from its text. A piece ends at the first delimiter at
the top, so the parts of a composed string are those it was composed of; what formatting
writes is a piece for every delimiter of the grammar.
-/

namespace OpenClaw.OcPaths

open JsUnits Normalization

variable {N : Normalization} {delims : List UInt16} {σ : ScanState} {a b x y sub file slot : Text}

/-- The text ends, or goes on with a delimiter. -/
def Delimited (delims : List UInt16) (text : Text) : Prop := ∀ u, text.head? = some u → u ∈ delims

theorem not_isPieceFrom_delim {u : UInt16} (plain : isRegionUnit u = false) (mem : u ∈ delims)
    (rest : Text) : isPieceFrom delims {} (u :: rest) = false := by
  simp [isPieceFrom, next_plain_self plain, atTop_plain plain, mem]

theorem piece_unique (plain : ∀ d ∈ delims, isRegionUnit d = false)
    (left : isPieceFrom delims σ a = true) (right : isPieceFrom delims σ b = true)
    (afterLeft : Delimited delims x) (afterRight : Delimited delims y) (same : a ++ x = b ++ y) :
    a = b ∧ x = y := by
  induction a generalizing σ b with
  | nil =>
      cases b with
      | nil => exact ⟨rfl, same⟩
      | cons c cs =>
          have start : σ = {} := by simpa [isPieceFrom] using left
          have mem := afterLeft c (by rw [← List.nil_append x, same]; rfl)
          rw [start, not_isPieceFrom_delim (plain c mem) mem] at right
          exact absurd right (by decide)
  | cons c cs ih =>
      cases b with
      | nil =>
          have start : σ = {} := by simpa [isPieceFrom] using right
          have mem := afterRight c (by rw [← List.nil_append y, ← same]; rfl)
          rw [start, not_isPieceFrom_delim (plain c mem) mem] at left
          exact absurd left (by decide)
      | cons d ds =>
          obtain ⟨rfl, tail⟩ := List.cons.inj same
          simp only [isPieceFrom] at left right
          cases moved : σ.next c with
          | none => simp [moved] at left
          | some τ =>
              simp only [moved, Bool.and_eq_true] at left right
              obtain ⟨rfl, rfl⟩ := ih left.2 right.2 tail
              exact ⟨rfl, rfl⟩

theorem slash_question_plain : ∀ d ∈ [unit '/', unit '?'], isRegionUnit d = false := by
  simp only [List.forall_mem_cons]
  exact ⟨by decide, by decide, by simp⟩

theorem delimited_queryText (query : Option Text) : Delimited [unit '/', unit '?'] (queryText query) := by
  cases query with
  | none => intro u first; simp [queryText] at first
  | some query =>
      intro u first
      obtain rfl : unit '?' = u := by simpa [queryText] using first
      decide

theorem delimited_tail (rest : List Text) (query : Option Text) :
    Delimited [unit '/', unit '?'] (rest.flatMap (unit '/' :: ·) ++ queryText query) := by
  cases rest with
  | nil => exact delimited_queryText query
  | cons seg rest =>
      intro u first
      obtain rfl : unit '/' = u := by simpa using first
      decide

/-- The parts of a composed string. -/
theorem composed_unique {first first' : Text} {rest rest' : List Text} {query query' : Option Text}
    (left : ∀ seg ∈ first :: rest, IsPiece [unit '/', unit '?'] seg)
    (right : ∀ seg ∈ first' :: rest', IsPiece [unit '/', unit '?'] seg)
    (same : joined (unit '/') first rest ++ queryText query =
      joined (unit '/') first' rest' ++ queryText query') :
    first = first' ∧ rest = rest' ∧ query = query' := by
  obtain ⟨here, there⟩ := List.forall_mem_cons.mp left
  obtain ⟨here', there'⟩ := List.forall_mem_cons.mp right
  simp only [joined, List.append_assoc] at same
  obtain ⟨rfl, tail⟩ := piece_unique slash_question_plain here here' (delimited_tail rest query)
    (delimited_tail rest' query') same
  refine ⟨rfl, ?_⟩
  clear left right same
  induction rest generalizing rest' with
  | nil =>
      cases rest' with
      | nil =>
          refine ⟨rfl, ?_⟩
          cases query <;> cases query' <;> simp_all [queryText]
      | cons seg' rest' =>
          refine absurd (congrArg List.head? tail) ?_
          cases query with
          | none => simp [queryText]
          | some query =>
              simp only [queryText, List.flatMap_nil, List.nil_append, List.flatMap_cons,
                List.cons_append, List.head?_cons, Option.some.injEq]
              decide
  | cons seg rest ih =>
      cases rest' with
      | nil =>
          refine absurd (congrArg List.head? tail) ?_
          cases query' with
          | none => simp [queryText]
          | some query =>
              simp only [queryText, List.flatMap_nil, List.nil_append, List.flatMap_cons,
                List.cons_append, List.head?_cons, Option.some.injEq]
              decide
      | cons seg' rest' =>
          obtain ⟨one, others⟩ := List.forall_mem_cons.mp there
          obtain ⟨one', others'⟩ := List.forall_mem_cons.mp there'
          simp only [List.flatMap_cons, List.cons_append, List.append_assoc, List.cons.injEq,
            true_and] at tail
          obtain ⟨rfl, after⟩ := piece_unique slash_question_plain one one'
            (delimited_tail rest query) (delimited_tail rest' query') tail
          obtain ⟨rfl, same⟩ := ih others others' after
          exact ⟨rfl, same⟩

theorem nfc_queryText (query : Option Text) :
    N.nfc (queryText query) = queryText (query.map N.nfc) := by
  cases query with
  | none => exact N.nil
  | some query => exact N.cons (by decide) query

theorem nfc_composed (first : Text) (rest : List Text) (query : Option Text) :
    N.nfc (OC_SCHEME ++ (joined (unit '/') first rest ++ queryText query)) =
      OC_SCHEME ++ (joined (unit '/') (N.nfc first) (rest.map N.nfc) ++
        queryText (query.map N.nfc)) := by
  have scheme : ∀ text, N.nfc (OC_SCHEME ++ text) = OC_SCHEME ++ N.nfc text := fun text => by
    have name : N.nfc (lit "oc:") = lit "oc:" := N.ascii _ (by simp [lit, unit])
    change N.nfc (lit "oc:" ++ unit '/' :: unit '/' :: text) = _
    rw [N.inert _ _ _ (by decide), N.cons (by decide), name]
    rfl
  rw [scheme]
  congr 1
  cases query with
  | none => simp [queryText, nfc_joined (show isGrammarUnit (unit '/') = true by decide)]
  | some query =>
      rw [queryText, N.inert _ _ _ (by decide), nfc_joined (by decide)]
      rfl

theorem isPiece_nfc (delimiters : ∀ d ∈ delims, isGrammarUnit d = true) :
    IsPiece delims (N.nfc a) ↔ IsPiece delims a := by
  rw [IsPiece, isPieceFrom_nfc delimiters, IsPiece]

theorem isPiece_quoted (absent : unit '"' ∉ a) : IsPiece delims (quoted a) := by
  have content : ∀ text : Text, unit '"' ∉ text →
      isPieceFrom delims ⟨0, 0, true⟩ (text ++ [unit '"']) = true := by
    intro text absent
    induction text with
    | nil => simp [isPieceFrom, ScanState.next, ScanState.atTop]
    | cons c cs ih =>
        simp only [List.mem_cons, not_or] at absent
        have other : c ≠ unit '"' := fun same => absent.1 same.symm
        have inside : (⟨0, 0, true⟩ : ScanState) ≠ {} := by decide
        simp only [List.cons_append, isPieceFrom, ScanState.next, other, ne_eq, not_false_eq_true,
          decide_true, if_true, ScanState.atTop, inside, decide_false, Bool.false_and,
          Bool.not_false, Bool.true_and]
        exact ih absent.2
  simp only [IsPiece, quoted, List.cons_append, isPieceFrom, ScanState.next, Bool.false_eq_true,
    if_false, if_true, ScanState.atTop, ne_eq, not_true_eq_false, decide_false, Bool.and_false,
    Bool.false_and, Bool.not_false, Bool.true_and]
  exact content a absent

theorem isPiece_plain (regions : ∀ u ∈ a, isRegionUnit u = false) (absent : ∀ u ∈ a, u ∉ delims) :
    IsPiece delims a := by
  induction a with
  | nil => rfl
  | cons c cs ih =>
      obtain ⟨plain, plains⟩ := List.forall_mem_cons.mp regions
      obtain ⟨out, outs⟩ := List.forall_mem_cons.mp absent
      simp only [IsPiece, isPieceFrom, next_plain_self plain, out, decide_false, Bool.and_false,
        Bool.not_false, Bool.true_and]
      exact ih plains outs

/-- The delimiters of segments, sub-segments and the query. -/
def DELIMITERS : List UInt16 := [unit '/', unit '.', unit '?']

theorem not_needsQuote_iff {u : UInt16} (calm : needsQuote u = false) :
    u ∉ DELIMITERS ∧ (u ≠ unit '"' → isRegionUnit u = false) := by
  simp only [needsQuote, Bool.or_eq_false_iff, decide_eq_false_iff_not, List.mem_cons,
    List.not_mem_nil, or_false, not_or] at calm
  refine ⟨?_, fun other => ?_⟩
  · simp only [DELIMITERS, List.mem_cons, List.not_mem_nil, or_false, not_or]
    tauto
  · simp only [isRegionUnit, decide_eq_false_iff_not, List.mem_cons, List.not_mem_nil, or_false,
      not_or]
    tauto

/-- A raw sub-segment is written as a piece for every delimiter. -/
theorem isPiece_written (raw : isStructural sub = false) (writable : Writable sub) :
    IsPiece DELIMITERS (written sub) := by
  have quotable := writable raw
  simp only [isUnquotable, Bool.or_eq_false_iff, decide_eq_false_iff_not] at quotable
  simp only [written, raw, Bool.false_eq_true, if_false]
  split
  case isTrue => exact isPiece_quoted quotable.1
  case isFalse calm =>
    simp only [List.any_eq_true, not_exists, not_and, Bool.not_eq_true] at calm
    refine isPiece_plain (fun u mem => (not_needsQuote_iff (calm u mem)).2 ?_)
      fun u mem => (not_needsQuote_iff (calm u mem)).1
    exact fun same => quotable.1 (same ▸ mem)

theorem isPiece_writtenFile (writable : FileWritable file) :
    IsPiece [unit '/', unit '?'] (writtenFile file) := by
  unfold writtenFile
  split
  case isTrue needs =>
    have quotable := writable needs
    simp only [isUnquotable, Bool.or_eq_false_iff, decide_eq_false_iff_not] at quotable
    exact isPiece_quoted quotable.1
  case isFalse calm =>
    simp only [fileNeedsQuote, List.any_eq_true, not_exists, not_and, Bool.or_eq_true,
      decide_eq_true_eq, not_or, List.mem_cons, List.not_mem_nil, or_false] at calm
    refine isPiece_plain (fun u mem => ?_) fun u mem => ?_
    · have out := (calm u mem).1
      simp only [isRegionUnit, decide_eq_false_iff_not, List.mem_cons, List.not_mem_nil, or_false,
        not_or]
      tauto
    · have out := (calm u mem).1
      simp only [List.mem_cons, List.not_mem_nil, or_false, not_or]
      tauto

end OpenClaw.OcPaths

/-!
What formatting writes and the parser accepts: a raw sub-segment that can be formatted is
written as an accepted one, dotted texts split into what they were joined from, and a
session is found again under its key.
-/

namespace OpenClaw.OcPaths

open JsUnits Normalization

variable {N : Normalization} {input out sub slot file : Text} {p : OcPath} {subs : List Text}

theorem any_joined {f : UInt16 → Bool} {u : UInt16} (delim : f u = false) {first : Text}
    {rest : List Text} : (joined u first rest).any f = false ↔
      ∀ piece ∈ first :: rest, piece.any f = false := by
  rw [joined, List.any_append, Bool.or_eq_false_iff, List.forall_mem_cons]
  refine and_congr_right fun _ => ?_
  induction rest with
  | nil => simp
  | cons piece rest ih =>
      rw [List.flatMap_cons, List.any_append, Bool.or_eq_false_iff, List.forall_mem_cons, ih,
        List.any_cons, delim, Bool.false_or]

theorem hasControlChar_join {u : UInt16} (delim : isControlChar u = false) {pieces : List Text}
    (clean : ∀ piece ∈ pieces, hasControlChar piece = false) :
    hasControlChar (join u pieces) = false := by
  cases pieces with
  | nil => rfl
  | cons first rest => exact (any_joined delim).mpr clean

theorem hasControlChar_quoted {content : Text} (clean : hasControlChar content = false) :
    hasControlChar (quoted content) = false := by
  simp only [hasControlChar, quoted, List.any_append, List.any_cons, List.any_nil,
    Bool.or_eq_false_iff] at clean ⊢
  exact ⟨⟨by decide, clean⟩, by decide, trivial⟩

theorem hasControlChar_written (clean : hasControlChar sub = false) :
    hasControlChar (written sub) = false := by
  unfold written
  split
  · exact clean
  · split
    · exact hasControlChar_quoted clean
    · exact clean

theorem startsWith_false {u : UInt16} (absent : u ∉ sub) : startsWith sub u = false := by
  rw [startsWith, decide_eq_false_iff_not]
  exact fun first => absent (List.mem_of_mem_head? first)

theorem endsWith_false {u : UInt16} (absent : u ∉ sub) : endsWith sub u = false := by
  rw [endsWith, decide_eq_false_iff_not]
  exact fun last => absent (List.mem_of_getLast? last)

/-- A raw sub-segment that can be formatted is written as an accepted one. -/
theorem subOk_written (raw : isStructural sub = false) (writable : Writable sub)
    (occupied : sub ≠ []) (control : hasControlChar sub = false) : SubOk (written sub) := by
  have quotable := writable raw
  have clean := hasControlChar_written control
  unfold written at clean ⊢
  rw [raw] at clean ⊢
  simp only [Bool.false_eq_true, if_false] at clean ⊢
  split
  case isTrue needs =>
    rw [if_pos needs] at clean
    refine ⟨by simp [quoted], clean, fun _ => by rwa [inner_quoted], fun not => ?_⟩
    exact absurd ((isQuotedSeg_quoted sub).symm.trans not) (by decide)
  case isFalse calm =>
    have unquoted : isQuotedSeg sub = false := by
      simp only [isStructural, Bool.or_eq_false_iff] at raw
      exact raw.1.1
    simp only [List.any_eq_true, not_exists, not_and, Bool.not_eq_true] at calm
    have absent : ∀ u : UInt16, needsQuote u = true → u ∉ sub := fun u needs mem =>
      absurd (needs.symm.trans (calm u mem)) (by decide)
    have bracket := startsWith_false (absent (unit '[') (by decide))
    have bracket' := endsWith_false (absent (unit ']') (by decide))
    have brace := startsWith_false (absent (unit '{') (by decide))
    have brace' := endsWith_false (absent (unit '}') (by decide))
    have reserved : sub.any isReservedChar = false := by
      rw [List.any_eq_false]
      intro u mem is
      refine absent u ?_ mem
      simp only [isReservedChar, List.mem_cons, List.not_mem_nil, or_false, decide_eq_true_eq] at is
      simp only [needsQuote, Bool.or_eq_true, List.mem_cons, decide_eq_true_eq]
      tauto
    have blank : sub.any isWhitespace = false := by
      rw [List.any_eq_false]
      intro u mem is
      refine absent u ?_ mem
      simp [needsQuote, is]
    refine ⟨occupied, control, fun is => absurd (unquoted.symm.trans is) (by decide), fun _ => ?_⟩
    constructor <;> simp [bracket, bracket', brace, brace', reserved, blank]

theorem splitFrom_join (occupied : subs ≠ []) (pieces : ∀ sub ∈ subs, IsPiece [unit '.'] sub) :
    splitFrom (unit '.') {} [] (join (unit '.') subs) = some subs :=
  (splitFrom_eq_some_join (by decide)).mpr ⟨occupied, pieces, rfl⟩

/-- A dotted text is a piece for other delimiters exactly if its parts are. -/
theorem isPiece_join {delims : List UInt16} (absent : unit '.' ∉ delims)
    (balanced : ∀ sub ∈ subs, isBalanced sub = true) :
    IsPiece delims (join (unit '.') subs) ↔ ∀ sub ∈ subs, IsPiece delims sub := by
  cases subs with
  | nil => exact iff_of_true rfl (by simp)
  | cons first rest => exact isPiece_joined (by decide) absent balanced

/-- A session that is found is a checked value, behind its key in one pair of the query. -/
theorem sessionOf_eq_some {session : Text} {pairs : List Text}
    (found : sessionOf input pairs = .ok (some session)) :
    session ≠ [] ∧ SessionOk session ∧ lit "session=" ++ session ∈ pairs := by
  induction pairs with
  | nil => simp [sessionOf] at found
  | cons pair rest ih =>
      have later : sessionOf input rest = .ok (some session) →
          session ≠ [] ∧ SessionOk session ∧ lit "session=" ++ session ∈ pair :: rest := fun found =>
        ⟨(ih found).1, (ih found).2.1, List.mem_cons_of_mem _ (ih found).2.2⟩
      simp only [sessionOf] at found
      split at found
      case isTrue => exact later found
      case isFalse bare =>
        split at found
        case isFalse => exact later found
        case isTrue keyed =>
          simp only [Fallible.bind_eq_ok, validateSessionSlot_eq_ok, Fallible.pure_eq_ok,
            Option.some.injEq] at found
          obtain ⟨_, checked, rfl⟩ := found
          refine ⟨List.length_pos_iff.mp keyed.2, checked, ?_⟩
          have mark : pair.dropWhile (· ≠ unit '=') =
              unit '=' :: (pair.dropWhile (· ≠ unit '=')).tail := by
            have first := List.head?_dropWhile_not (fun u => decide (u ≠ unit '=')) pair
            cases rest_ : pair.dropWhile fun u => decide (u ≠ unit '=') with
            | nil =>
                rw [List.dropWhile_eq_nil_iff] at rest_
                exact absurd (rest_ _ (not_not.mp bare)) (by simp)
            | cons u us =>
                rw [rest_] at first
                simp_all
          have whole : lit "session=" ++ (pair.dropWhile (· ≠ unit '=')).tail = pair := by
            have parts : pair.takeWhile (· ≠ unit '=') ++ pair.dropWhile (· ≠ unit '=') = pair :=
              List.takeWhile_append_dropWhile
            rw [mark, keyed.1] at parts
            exact parts
          rw [whole]
          exact List.mem_cons_self

theorem extractSession_eq_some {query session : Text}
    (found : extractSession query input = .ok (some session)) :
    session ≠ [] ∧ SessionOk session ∧ lit "session=" ++ session ∈ query.splitOn (unit '&') := by
  unfold extractSession at found
  split at found
  · simp at found
  · exact sessionOf_eq_some found

theorem not_mem_of_reserved {text : Text} (clean : text.any isReservedChar = false) :
    unit '&' ∉ text := fun mem =>
  absurd (List.any_eq_false.mp clean _ mem) (by decide)

theorem extractSession_session {session : Text} (occupied : session ≠ []) (checked : SessionOk session) :
    extractSession (lit "session=" ++ session) input = .ok (some session) := by
  have single : unit '&' ∉ lit "session=" ++ session := by
    rw [List.mem_append, not_or]
    exact ⟨by decide, not_mem_of_reserved checked.reserved⟩
  have key : (lit "session=" ++ session).takeWhile (· ≠ unit '=') = lit "session" := rfl
  have value : ((lit "session=" ++ session).dropWhile (· ≠ unit '=')).tail = session := rfl
  have marked : unit '=' ∈ lit "session=" ++ session := List.mem_append_left _ (by decide)
  have long : session.length > 0 := List.length_pos_iff.mpr occupied
  have some : ¬ (lit "session=" ++ session).length = 0 := by simp [lit]
  rw [extractSession, if_neg some, List.splitOn_eq_singleton single, sessionOf, key, value]
  simp only [marked, not_true_eq_false, if_false, long, and_self, if_true, Fallible.bind_eq_ok,
    validateSessionSlot_eq_ok, Fallible.pure_eq_ok, checked, exists_const]

/-- The pairs of a normalized query are normalized. -/
theorem fixed_splitOn (query : Text) (fixed : N.nfc query = query) :
    ∀ pair ∈ query.splitOn (unit '&'), N.nfc pair = pair := by
  induction size : query.length using Nat.strong_induction_on generalizing query with
  | _ n ih =>
      by_cases mem : unit '&' ∈ query
      · obtain ⟨a, b, rfl⟩ := List.append_of_mem mem
        obtain ⟨left, right⟩ := (fixed_append_cons (by decide)).mp fixed
        rw [List.length_append, List.length_cons] at size
        rw [List.splitOn_append_cons_self]
        intro pair mem
        rcases List.mem_append.mp mem with mem | mem
        · exact ih a.length (by omega) a left rfl pair mem
        · exact ih b.length (by omega) b right rfl pair mem
      · rw [List.splitOn_eq_singleton mem]
        simpa using fixed

end OpenClaw.OcPaths
