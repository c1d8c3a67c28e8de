import OpenClaw.Shell.Authorized
import OpenClaw.Shell.Argv

/-!
What an authorized command changes. The replacements are laid out over the command one behind
another, so applying them from right to left replaces exactly their spans; and where POSIX
quoting leaves a pattern, a brace or a leading tilde unquoted, the scan for expansions finds it.
-/

namespace OpenClaw.Shell

open JsUnits

variable {command result source rest : Text} {mode : RenderMode}
  {candidate : ExecAuthorizationCandidate} {satisfiedBy : Option SatisfiedBy}
  {replacement : SourceReplacement} {replacements : List SourceReplacement}

/-- The text from an offset on with the spans of the replacements replaced, in order. -/
inductive Rewrites : Nat → Text → List SourceReplacement → Text → Prop
  | done {offset rest} : Rewrites offset rest [] rest
  | replace {offset gap source rest replacement replacements result} :
      source ≠ [] → replacement.startIndex = offset + gap.length →
      replacement.endIndex = replacement.startIndex + source.length →
      Rewrites replacement.endIndex rest replacements result →
      Rewrites offset (gap ++ source ++ rest) (replacement :: replacements)
        (gap ++ replacement.text ++ result)

/-- The span of a replacement lies in the command. -/
structure Placed (command : Text) (replacement : SourceReplacement) : Prop where
  nonempty : replacement.startIndex < replacement.endIndex
  inside : replacement.endIndex ≤ command.length

theorem exists_parts {offset start stop : Nat} (first : offset ≤ start) (second : start ≤ stop)
    (inside : stop ≤ command.length) : ∃ before gap source rest,
      command = before ++ (gap ++ source ++ rest) ∧ before.length = offset ∧
        offset + gap.length = start ∧ start + source.length = stop := by
  refine ⟨command.take offset, (command.drop offset).take (start - offset),
    (command.drop start).take (stop - start), command.drop stop, ?_, ?_, ?_, ?_⟩
  · have second' : command.drop start =
        (command.drop start).take (stop - start) ++ command.drop stop := by
      conv_lhs => rw [← List.take_append_drop (stop - start) (command.drop start)]
      rw [List.drop_drop, Nat.add_sub_cancel' second]
    have first' : command.drop offset =
        (command.drop offset).take (start - offset) ++ command.drop start := by
      conv_lhs => rw [← List.take_append_drop (start - offset) (command.drop offset)]
      rw [List.drop_drop, Nat.add_sub_cancel' first]
    rw [List.append_assoc, ← second', ← first', List.take_append_drop]
  · rw [List.length_take]
    omega
  · rw [List.length_take, List.length_drop]
    omega
  · rw [List.length_take, List.length_drop]
    omega

theorem rewrites_foldr {offset : Nat} (apart : hasOverlap offset replacements = false)
    (placed : ∀ replacement ∈ replacements, Placed command replacement) :
    ∃ result, replacements.foldr (fun replacement command => applyReplacement command replacement)
        command = command.take offset ++ result ∧
      Rewrites offset (command.drop offset) replacements result := by
  induction replacements generalizing offset with
  | nil => exact ⟨command.drop offset, (List.take_append_drop offset command).symm, .done⟩
  | cons replacement replacements ih =>
      rw [hasOverlap, Bool.or_eq_false_iff] at apart
      obtain ⟨behind, apart⟩ := apart
      have start : offset ≤ replacement.startIndex := by simpa using behind
      obtain ⟨nonempty, inside⟩ := placed replacement (List.mem_cons_self ..)
      obtain ⟨result, applied, rewrites⟩ := ih apart fun other mem => placed other (.tail _ mem)
      obtain ⟨before, gap, source, rest, parts, length, gapEnd, sourceEnd⟩ :=
        exists_parts start nonempty.le inside
      have upTo : command.take replacement.endIndex = before ++ gap ++ source := by
        rw [parts, ← List.append_assoc, ← List.append_assoc]
        exact List.take_left' (by simp only [List.length_append]; omega)
      have behind : command.drop replacement.endIndex = rest := by
        rw [parts, ← List.append_assoc, ← List.append_assoc]
        exact List.drop_left' (by simp only [List.length_append]; omega)
      have head : command.take offset = before := by
        rw [parts]
        exact List.take_left' length
      have tail : command.drop offset = gap ++ source ++ rest := by
        rw [parts]
        exact List.drop_left' length
      refine ⟨gap ++ replacement.text ++ result, ?_, ?_⟩
      · have kept : (before ++ gap ++ source ++ result).take replacement.startIndex = before ++ gap := by
          rw [List.append_assoc (before ++ gap)]
          exact List.take_left' (by simp only [List.length_append]; omega)
        have dropped : (before ++ gap ++ source ++ result).drop replacement.endIndex = result :=
          List.drop_left' (by simp only [List.length_append]; omega)
        rw [List.foldr_cons, applied, upTo, applyReplacement, kept, dropped, head]
        simp only [List.append_assoc]
      · rw [tail]
        rw [behind] at rewrites
        refine .replace ?_ gapEnd.symm sourceEnd.symm rewrites
        rintro rfl
        rw [List.length_nil] at sourceEnd
        omega

theorem sorted_of_applied (applied : applyReplacements command replacements = .ok result)
    (placed : ∀ replacement ∈ replacements, Placed command replacement) :
    Rewrites 0 command (sortReplacements replacements) result := by
  unfold applyReplacements at applied
  dsimp only at applied
  split at applied
  case isTrue => cases applied
  case isFalse apart =>
    have apart' : hasOverlap (0 : Nat) (sortReplacements replacements) = false := by
      cases sorted : sortReplacements replacements with
      | nil => rfl
      | cons first rest =>
          rw [sorted, Bool.not_eq_true, hasOverlap, Bool.or_eq_false_iff] at apart
          rw [hasOverlap, apart.2, Bool.or_false, decide_eq_false_iff_not]
          omega
    obtain ⟨result', same, rewrites⟩ := rewrites_foldr apart' fun replacement mem =>
      placed replacement ((List.mergeSort_perm _ _).mem_iff.mp mem)
    have eq := Except.ok.inj applied
    rw [List.foldl_reverse, same, List.take_zero, List.nil_append] at eq
    rw [List.drop_zero] at rewrites
    exact eq ▸ rewrites

/-- POSIX quoting: where the shell stands in a word. -/
inductive PosixQuoting
  | plain
  | escaped
  | single
  | double
  | doubleEscaped

/-- The units that a backslash quotes in double quotes: `$`, a backtick, `"`, `\` and a newline. -/
def posixDoubleEscapes : Text := [0x24, 0x60, doubleQuote, backslash, lineFeed]

/-- The unquoted units of a text, and which of them begin a word. A backslash before a newline
joins two lines. -/
def unquotedFrom : Text → PosixQuoting → (leading : Bool) → List (UInt16 × Bool)
  | [], _, _ => []
  | unit :: rest, .escaped, leading => unquotedFrom rest .plain (leading && unit = lineFeed)
  | unit :: rest, .single, _ => unquotedFrom rest (if unit = singleQuote then .plain else .single) false
  | unit :: rest, .double, _ =>
      if unit = backslash ∧ rest.head?.any posixDoubleEscapes.contains then
        unquotedFrom rest .doubleEscaped false
      else unquotedFrom rest (if unit = doubleQuote then .plain else .double) false
  | _ :: rest, .doubleEscaped, _ => unquotedFrom rest .double false
  | unit :: rest, .plain, leading =>
      if unit = backslash then unquotedFrom rest .escaped leading
      else if unit = singleQuote then unquotedFrom rest .single false
      else if unit = doubleQuote then unquotedFrom rest .double false
      else (unit, leading) :: unquotedFrom rest .plain (unit = space ∨ unit = tab ∨ unit = lineFeed)

/-- A unit that the shell does not expand by itself: no pattern, no brace, no leading tilde. -/
structure Inert (entry : UInt16 × Bool) : Prop where
  pattern : entry.1 ≠ asterisk ∧ entry.1 ≠ questionMark ∧ entry.1 ≠ openBracket
  brace : entry.1 ≠ openBrace
  home : ¬ (entry.1 = tilde ∧ entry.2 = true)

def ExpandsNothing (text : Text) : Prop := ∀ entry ∈ unquotedFrom text .plain true, Inert entry

/-- The scan for expansions stands where the shell does, or behind it in a pair of surrogates or
in double quotes, where nothing is unquoted. -/
inductive Follows : ExpansionQuoting → PosixQuoting → (leading atWordStart : Bool) → Text → Prop
  | plain {leading atWordStart text} : (leading = true → atWordStart = true) →
      Follows .plain .plain leading atWordStart text
  | escaped {leading atWordStart text} : (leading = true → atWordStart = true) →
      Follows .escaped .escaped leading atWordStart text
  | pair {atWordStart text} : text.head?.any isLowSurrogate = true →
      Follows .escaped .plain false atWordStart text
  | single {leading atWordStart text} : Follows .single .single leading atWordStart text
  | double {leading atWordStart text} : Follows .double .double leading atWordStart text
  | doubleEscaped {leading atWordStart text} : text.head?.any posixDoubleEscapes.contains = true →
      Follows .doubleEscaped .doubleEscaped leading atWordStart text
  | doubleSkipped {leading atWordStart text} : ¬ text.head?.any posixDoubleEscapes.contains = true →
      Follows .doubleEscaped .double leading atWordStart text

theorem inert_of_not_special {unit : UInt16} {leading : Bool}
    (plain : ¬ (unit = openBrace ∨ unit = asterisk ∨ unit = questionMark ∨ unit = openBracket))
    (home : ¬ (unit = tilde ∧ leading = true)) : Inert (unit, leading) := by
  simp only [not_or] at plain
  exact ⟨⟨plain.2.1, plain.2.2.1, plain.2.2.2⟩, plain.1, home⟩

theorem isLowSurrogate_plain {unit : UInt16} (low : isLowSurrogate unit = true) :
    Inert (unit, false) ∧ unit ≠ backslash ∧ unit ≠ singleQuote ∧ unit ≠ doubleQuote ∧
      isHighSurrogate unit = false ∧ ¬ (unit = space ∨ unit = tab ∨ unit = lineFeed) ∧
      posixDoubleEscapes.contains unit = false := by
  have never : ∀ {other : UInt16}, isLowSurrogate other = false → unit ≠ other := by
    rintro _ special rfl
    rw [special] at low
    cases low
  refine ⟨inert_of_not_special ?_ (by simp), never rfl, never rfl, never rfl, ?_, ?_, ?_⟩
  · simp only [not_or]
    exact ⟨never rfl, never rfl, never rfl, never rfl⟩
  · simp only [isLowSurrogate, isHighSurrogate, Bool.and_eq_true, decide_eq_true_eq,
      Bool.and_eq_false_iff, decide_eq_false_iff_not] at low ⊢
    omega
  · simp only [not_or]
    exact ⟨never rfl, never rfl, never rfl⟩
  · rw [← Bool.not_eq_true]
    intro mem
    have lows : (posixDoubleEscapes.all fun other => !isLowSurrogate other) = true := rfl
    have other := List.all_eq_true.mp lows unit (List.contains_iff_mem.mp mem)
    rw [low] at other
    cases other

theorem opensPair_eq_true {unit : UInt16} (pair : opensPair unit rest = true) :
    isHighSurrogate unit = true ∧ rest.head?.any isLowSurrogate = true :=
  (Bool.and_eq_true _ _).mp pair

theorem isHighSurrogate_ne {unit other : UInt16} (high : isHighSurrogate unit = true)
    (plain : isHighSurrogate other = false) : unit ≠ other := by
  rintro rfl
  rw [high] at plain
  cases plain

theorem inert_of_expansionFrom {text : Text} {quoting : ExpansionQuoting} {posix : PosixQuoting}
    {leading atWordStart : Bool} (follows : Follows quoting posix leading atWordStart text)
    (none_ : expansionFrom text quoting atWordStart = false) :
    ∀ entry ∈ unquotedFrom text posix leading, Inert entry := by
  induction text generalizing quoting posix leading atWordStart with
  | nil =>
      intro entry mem
      cases posix <;> cases mem
  | cons unit rest ih =>
      cases follows with
      | plain start =>
          rw [unquotedFrom]
          rw [expansionFrom] at none_
          split
          case isTrue escape =>
            rw [if_pos escape] at none_
            exact ih (.escaped start) none_
          case isFalse escape =>
            rw [if_neg escape] at none_
            split
            case isTrue quote =>
              rw [if_pos quote] at none_
              exact ih .single none_
            case isFalse quote =>
              rw [if_neg quote] at none_
              split
              case isTrue quotes =>
                rw [if_pos quotes] at none_
                exact ih .double none_
              case isFalse quotes =>
                rw [if_neg quotes] at none_
                refine List.forall_mem_cons.mpr ?_
                by_cases blank : isWhitespace unit = true
                · rw [if_pos blank] at none_
                  have apart : ∀ other, isWhitespace other = false → unit ≠ other := by
                    rintro _ special rfl
                    rw [special] at blank
                    cases blank
                  refine ⟨inert_of_not_special ?_ fun home => apart tilde rfl home.1,
                    ih (.plain fun _ => rfl) none_⟩
                  simp only [not_or]
                  exact ⟨apart _ rfl, apart _ rfl, apart _ rfl, apart _ rfl⟩
                · rw [if_neg blank] at none_
                  split at none_
                  case isTrue => cases none_
                  case isFalse home =>
                    split at none_
                    case isTrue => cases none_
                    case isFalse plain =>
                      refine ⟨inert_of_not_special plain fun both => home ⟨both.1, start both.2⟩,
                        ih (.plain fun begins => ?_) none_⟩
                      -- What begins a word for the shell is whitespace.
                      refine absurd ?_ blank
                      rcases of_decide_eq_true begins with rfl | rfl | rfl
                      · rfl
                      · rfl
                      · rfl
      | escaped start =>
          rw [unquotedFrom]
          rw [expansionFrom] at none_
          split at none_
          case isTrue pair =>
            obtain ⟨high, low⟩ := opensPair_eq_true pair
            have apart : decide (unit = lineFeed) = false :=
              decide_eq_false (isHighSurrogate_ne high rfl)
            rw [apart, Bool.and_false]
            exact ih (.pair low) none_
          case isFalse =>
            exact ih (.plain fun begins => start ((Bool.and_eq_true _ _).mp begins).1) none_
      | pair low =>
          obtain ⟨inert, escape, quote, quotes, high, blank, _⟩ := isLowSurrogate_plain low
          have single : ¬ opensPair unit rest = true := by
            rw [opensPair, high, Bool.false_and]
            decide
          rw [unquotedFrom, if_neg escape, if_neg quote, if_neg quotes, decide_eq_false blank]
          rw [expansionFrom, if_neg single] at none_
          exact List.forall_mem_cons.mpr ⟨inert, ih (.plain fun begins => by cases begins) none_⟩
      | single =>
          rw [unquotedFrom]
          rw [expansionFrom] at none_
          split
          case isTrue quote =>
            rw [if_pos quote] at none_
            exact ih (.plain fun begins => by cases begins) none_
          case isFalse quote =>
            rw [if_neg quote] at none_
            exact ih .single none_
      | double =>
          rw [unquotedFrom]
          rw [expansionFrom] at none_
          split
          case isTrue escape =>
            rw [if_pos escape.1] at none_
            exact ih (.doubleEscaped escape.2) none_
          case isFalse literal =>
            split at none_
            case isTrue escape =>
              rw [if_neg (by rw [escape]; decide)]
              exact ih (.doubleSkipped fun next => literal ⟨escape, next⟩) none_
            case isFalse =>
              split
              case isTrue quotes =>
                rw [if_pos quotes] at none_
                exact ih (.plain fun begins => by cases begins) none_
              case isFalse quotes =>
                rw [if_neg quotes] at none_
                exact ih .double none_
      | doubleEscaped escape =>
          have plains : (posixDoubleEscapes.all fun other => !isHighSurrogate other) = true := rfl
          have high : isHighSurrogate unit = false := by
            simpa using List.all_eq_true.mp plains unit (List.contains_iff_mem.mp escape)
          have single : ¬ opensPair unit rest = true := by
            rw [opensPair, high, Bool.false_and]
            decide
          rw [unquotedFrom]
          rw [expansionFrom, if_neg single] at none_
          exact ih .double none_
      | doubleSkipped skip =>
          have apart : ∀ other ∈ posixDoubleEscapes, unit ≠ other := by
            rintro _ mem rfl
            exact skip (List.contains_iff_mem.mpr mem)
          have escape : unit ≠ backslash := apart _ (by simp [posixDoubleEscapes])
          have quotes : unit ≠ doubleQuote := apart _ (by simp [posixDoubleEscapes])
          rw [unquotedFrom, if_neg (fun both => escape both.1), if_neg quotes]
          rw [expansionFrom] at none_
          split at none_
          case isTrue pair =>
            refine ih (.doubleSkipped fun next => ?_) none_
            obtain ⟨_, low⟩ := opensPair_eq_true pair
            cases rest with
            | nil => cases low
            | cons other rest =>
                obtain ⟨_, _, _, _, _, _, never⟩ := isLowSurrogate_plain low
                rw [List.head?_cons, Option.any_some, never] at next
                cases next
          case isFalse => exact ih .double none_

/-- What the scan passes expands to nothing but itself. -/
theorem expandsNothing_of_scan {text : Text} (none_ : hasUnquotedShellExpansionSource text = false) :
    ExpandsNothing text :=
  inert_of_expansionFrom (.plain id) none_

end OpenClaw.Shell
