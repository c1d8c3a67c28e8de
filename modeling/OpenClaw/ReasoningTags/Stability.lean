import OpenClaw.ReasoningTags.Reducer
import OpenClaw.Lib.TextScan

/-!
What a scan has decided about a text stays decided when more text follows. A complete
tag is found again, a tag that cannot be completed stays invalid, and a text without a
pending tag contributes the same items whatever is appended to it.
-/

namespace OpenClaw.ReasoningTags

open JsUnits TextScan

section Attributes

theorem scanAttributes_closed_append {quote : Option UInt16} {afterSlash : Bool} {start : Nat}
    {a : Text} {length : Nat} {last : Bool}
    (found : scanAttributes quote afterSlash start a = .closed length last) (b : Text) :
    scanAttributes quote afterSlash start (a ++ b) = .closed length last := by
  induction a generalizing quote afterSlash start with
  | nil => cases quote <;> simp [scanAttributes] at found
  | cons u us ih =>
      cases quote with
      | some quote => exact ih found
      | none =>
          simp only [List.cons_append, scanAttributes] at found ⊢
          split at found
          · rw [if_pos (by assumption)]
            exact ih found
          · rw [if_neg (by assumption)]
            split at found
            · cases found
            · rw [if_neg (by assumption)]
              split at found
              · rw [if_pos (by assumption)]
                exact found
              · rw [if_neg (by assumption)]
                exact ih found

theorem scanAttributes_nested_append {quote : Option UInt16} {afterSlash : Bool} {start : Nat}
    {a : Text} (found : scanAttributes quote afterSlash start a = .nested) (b : Text) :
    scanAttributes quote afterSlash start (a ++ b) = .nested := by
  induction a generalizing quote afterSlash start with
  | nil => cases quote <;> simp [scanAttributes] at found
  | cons u us ih =>
      cases quote with
      | some quote => exact ih found
      | none =>
          simp only [List.cons_append, scanAttributes] at found ⊢
          split at found
          · rw [if_pos (by assumption)]
            exact ih found
          · rw [if_neg (by assumption)]
            split at found
            · rw [if_pos (by assumption)]
            · rw [if_neg (by assumption)]
              split at found
              · cases found
              · rw [if_neg (by assumption)]
                exact ih found

theorem scanAttributes_bounds {quote : Option UInt16} {afterSlash : Bool} {start : Nat}
    {a : Text} {length : Nat} {last : Bool}
    (found : scanAttributes quote afterSlash start a = .closed length last) :
    start < length ∧ length ≤ start + a.length := by
  induction a generalizing quote afterSlash start with
  | nil => cases quote <;> simp [scanAttributes] at found
  | cons u us ih =>
      cases quote with
      | some quote =>
          have := ih found
          simp only [List.length_cons]
          omega
      | none =>
          simp only [scanAttributes] at found
          simp only [List.length_cons]
          split at found
          · have := ih found
            omega
          · split at found
            · cases found
            · split at found
              · cases found
                omega
              · have := ih found
                omega

end Attributes

section Parse

theorem parseTagRest_tag_append {final : Bool} {consumed : Nat} {isClose : Bool}
    {name rest : Text} {shape : TagShape}
    (found : parseTagRest final consumed isClose name rest = .tag shape) (final' : Bool)
    (b : Text) : parseTagRest final' consumed isClose name (rest ++ b) = .tag shape := by
  cases rest with
  | nil => cases final <;> simp [parseTagRest] at found
  | cons boundary us =>
      simp only [parseTagRest, List.cons_append] at found ⊢
      split at found
      · cases found
      · rw [if_neg (by assumption)]
        cases scanned : scanAttributes none false 0 (boundary :: us) with
        | closed length afterSlash =>
            have again := scanAttributes_closed_append scanned b
            rw [List.cons_append] at again
            rw [scanned] at found
            rw [again]
            exact found
        | nested => simp [scanned] at found
        | unfinished => cases final <;> simp [scanned] at found

theorem parseTagRest_invalid_append {consumed : Nat} {isClose : Bool} {name rest : Text}
    (found : parseTagRest false consumed isClose name rest = .invalid) (final : Bool)
    (b : Text) : parseTagRest final consumed isClose name (rest ++ b) = .invalid := by
  cases rest with
  | nil => simp [parseTagRest] at found
  | cons boundary us =>
      simp only [parseTagRest, List.cons_append] at found ⊢
      split at found
      · rw [if_pos (by assumption)]
      · rw [if_neg (by assumption)]
        cases scanned : scanAttributes none false 0 (boundary :: us) with
        | closed length afterSlash => simp [scanned] at found
        | nested =>
            have again := scanAttributes_nested_append scanned b
            rw [List.cons_append] at again
            rw [again]
        | unfinished => simp [scanned] at found

/-- The text from the tag's name on, and whether a slash stood in front of it. -/
def nameStart (text : Text) : Bool × Text :=
  let opened := skipTagWhitespace (text.drop 1)
  let isClose := opened.head? == some slash
  (isClose, if isClose then skipTagWhitespace (opened.drop 1) else opened)

theorem nameStart_append {a : Text} (b : Text) (nonempty : a ≠ [])
    (named : (nameStart a).2 ≠ []) :
    nameStart (a ++ b) = ((nameStart a).1, (nameStart a).2 ++ b) := by
  have opened : skipTagWhitespace (a.drop 1) ≠ [] := by
    intro none
    refine named ?_
    simp only [nameStart, none, List.head?_nil, List.drop_nil]
    rfl
  have first : (a ++ b).drop 1 = a.drop 1 ++ b := by
    cases a with
    | nil => exact absurd rfl nonempty
    | cons u us => rfl
  have skipped : skipTagWhitespace ((a ++ b).drop 1) = skipTagWhitespace (a.drop 1) ++ b := by
    rw [first]
    exact dropWhile_append_of_ne_nil b opened
  obtain ⟨u, us, split⟩ := List.exists_cons_of_ne_nil opened
  simp only [nameStart, skipped, split, List.cons_append, List.head?_cons, List.drop_succ_cons,
    List.drop_zero] at named ⊢
  cases isClose : some u == some slash with
  | false => simp
  | true =>
      simp only [isClose, if_true] at named ⊢
      exact congrArg _ (dropWhile_append_of_ne_nil b named)

/-- The parse by what is read as the name and what is left behind it. -/
def parseNamed (final : Bool) (consumed : Nat) (isClose : Bool) (name rest : Text) :
    ParsedReasoningTag :=
  if name = [] then if rest.isEmpty && !final then .pending else .invalid
  else if !reasoningTagNames.contains name then
    if rest.isEmpty && !final && reasoningTagNames.any (name.isPrefixOf ·) then .pending
    else .invalid
  else parseTagRest final consumed isClose name rest

theorem parse_eq_parseNamed (final : Bool) (text : Text) :
    parseReasoningTagAt final text =
      parseNamed final (text.length - ((nameStart text).2.dropWhile isTagNameCharacter).length)
        (nameStart text).1
        (((nameStart text).2.takeWhile isTagNameCharacter).map toLowerCase)
        ((nameStart text).2.dropWhile isTagNameCharacter) := rfl

theorem parseNamed_append {final : Bool} {consumed : Nat} {isClose : Bool} {name rest : Text}
    (left : rest ≠ []) (final' : Bool) (b : Text) :
    (∀ shape, parseNamed final consumed isClose name rest = .tag shape →
        parseNamed final' consumed isClose name (rest ++ b) = .tag shape) ∧
      (parseNamed false consumed isClose name rest = .invalid →
        parseNamed final' consumed isClose name (rest ++ b) = .invalid) := by
  have nonempty : rest.isEmpty = false := by simpa using left
  have longer : (rest ++ b).isEmpty = false := by simp [left]
  simp only [parseNamed, nonempty, longer, Bool.false_and, Bool.false_eq_true, if_false]
  split
  · exact ⟨by simp, fun _ => rfl⟩
  · split
    · exact ⟨by simp, fun _ => rfl⟩
    · exact ⟨fun shape found => parseTagRest_tag_append found final' b,
        fun found => parseTagRest_invalid_append found final' b⟩

theorem parseNamed_nil_not_tag {final : Bool} {consumed : Nat} {isClose : Bool} {name : Text}
    (shape : TagShape) : parseNamed final consumed isClose name [] ≠ .tag shape := by
  cases final <;> simp only [parseNamed, parseTagRest] <;> split <;> try split <;> simp
  all_goals try split
  all_goals simp

/-- A name that no known name begins with can never become one. -/
theorem parseNamed_unknown_append {consumed consumed' : Nat} {isClose isClose' : Bool} {name : Text}
    (found : parseNamed false consumed isClose name [] = .invalid) (final : Bool)
    (more rest : Text) :
    parseNamed final consumed' isClose' (name ++ more) rest = .invalid := by
  simp only [parseNamed, List.isEmpty_nil, Bool.not_false, Bool.and_self, Bool.true_and, if_true]
    at found
  split at found
  · cases found
  case isFalse named =>
    split at found
    case isFalse known => simp [parseTagRest] at found
    case isTrue unknown =>
      split at found
      · cases found
      case isFalse noPrefix =>
        have none : ∀ known ∈ reasoningTagNames, name.isPrefixOf known = false := by
          intro known mem
          cases same : name.isPrefixOf known with
          | false => rfl
          | true => exact absurd (List.any_eq_true.mpr ⟨known, mem, same⟩) noPrefix
        have longer : ∀ known ∈ reasoningTagNames, (name ++ more).isPrefixOf known = false := by
          intro known mem
          cases same : (name ++ more).isPrefixOf known with
          | false => rfl
          | true =>
              have begins : name <+: known :=
                (List.prefix_append name more).trans (List.isPrefixOf_iff_prefix.mp same)
              exact absurd (none known mem) (by simp [List.isPrefixOf_iff_prefix.mpr begins])
        have absent : reasoningTagNames.contains (name ++ more) = false := by
          cases same : reasoningTagNames.contains (name ++ more) with
          | false => rfl
          | true =>
              have mem := List.contains_iff_mem.mp same
              have begins := longer _ mem
              rw [List.isPrefixOf_iff_prefix.mpr (List.prefix_refl _)] at begins
              exact absurd begins (by decide)
        have noneBegins : reasoningTagNames.any ((name ++ more).isPrefixOf ·) = false :=
          List.any_eq_false.mpr fun known mem => by simp [longer known mem]
        simp only [parseNamed, List.append_eq_nil_iff, named, false_and, if_false, absent,
          Bool.not_false, if_true, noneBegins, Bool.and_false, Bool.false_eq_true]

/-- What a parse that has reached its answer says, it says with any text behind. -/
theorem parse_append {a : Text} (nonempty : a ≠ []) (final final' : Bool) (b : Text) :
    (∀ shape, parseReasoningTagAt final a = .tag shape →
        parseReasoningTagAt final' (a ++ b) = .tag shape) ∧
      (parseReasoningTagAt false a = .invalid →
        parseReasoningTagAt final' (a ++ b) = .invalid) := by
  simp only [parse_eq_parseNamed]
  by_cases named : (nameStart a).2 = []
  · refine ⟨fun shape found => ?_, fun found => ?_⟩
    · simp only [named, List.dropWhile_nil] at found
      exact absurd found (parseNamed_nil_not_tag shape)
    · simp [named, parseNamed] at found
  · rw [nameStart_append b nonempty named]
    by_cases left : (nameStart a).2.dropWhile isTagNameCharacter = []
    · refine ⟨fun shape found => ?_, fun found => ?_⟩
      · rw [left] at found
        exact absurd found (parseNamed_nil_not_tag shape)
      · rw [left] at found
        have all : ((nameStart a).2 ++ b).takeWhile isTagNameCharacter =
            (nameStart a).2.takeWhile isTagNameCharacter ++ b.takeWhile isTagNameCharacter := by
          have split := List.takeWhile_append_dropWhile (p := isTagNameCharacter)
            (l := (nameStart a).2)
          rw [left, List.append_nil] at split
          rw [List.takeWhile_append, if_pos (congrArg List.length split), split]
        simp only [all, List.map_append]
        exact parseNamed_unknown_append found final' _ _
    · have length : (a ++ b).length -
          (((nameStart a).2.dropWhile isTagNameCharacter) ++ b).length =
            a.length - ((nameStart a).2.dropWhile isTagNameCharacter).length := by
        simp only [List.length_append]
        omega
      simp only [dropWhile_append_of_ne_nil b left, takeWhile_append_of_ne_nil b left, length]
      exact parseNamed_append left final' b

theorem parse_tag_append {a : Text} {final : Bool} {shape : TagShape} (nonempty : a ≠ [])
    (found : parseReasoningTagAt final a = .tag shape) (final' : Bool) (b : Text) :
    parseReasoningTagAt final' (a ++ b) = .tag shape :=
  (parse_append nonempty final final' b).1 shape found

theorem parse_invalid_append {a : Text} (nonempty : a ≠ [])
    (found : parseReasoningTagAt false a = .invalid) (final : Bool) (b : Text) :
    parseReasoningTagAt final (a ++ b) = .invalid :=
  (parse_append nonempty false final b).2 found

theorem nameStart_length_le (a : Text) : (nameStart a).2.length ≤ a.length := by
  have skip : ∀ text : Text, (skipTagWhitespace text).length ≤ text.length :=
    fun text => (List.dropWhile_sublist _).length_le
  have drop : ∀ text : Text, (text.drop 1).length ≤ text.length := fun text => by simp
  simp only [nameStart]
  split
  · exact (skip _).trans ((drop _).trans ((skip _).trans (drop a)))
  · exact (skip _).trans (drop a)

theorem parse_tag_bounds {a : Text} {final : Bool} {shape : TagShape}
    (found : parseReasoningTagAt final a = .tag shape) :
    0 < shape.length ∧ shape.length ≤ a.length := by
  have shorter := (List.dropWhile_sublist (p := isTagNameCharacter)
    (l := (nameStart a).2)).length_le.trans (nameStart_length_le a)
  rw [parse_eq_parseNamed] at found
  simp only [parseNamed] at found
  split at found
  · split at found <;> cases found
  · split at found
    · split at found <;> cases found
    · cases rest : (nameStart a).2.dropWhile isTagNameCharacter with
      | nil => cases final <;> simp [rest, parseTagRest] at found
      | cons boundary us =>
          rw [rest] at found shorter
          simp only [parseTagRest] at found
          split at found
          · cases found
          · cases scanned : scanAttributes none false 0 (boundary :: us) with
            | closed length afterSlash =>
                have bounds := scanAttributes_bounds scanned
                rw [scanned] at found
                cases found
                dsimp only
                omega
            | nested => simp [scanned] at found
            | unfinished => cases final <;> simp [scanned] at found

end Parse

section Items

/-- What a text is read as, once it is complete: characters and tags. -/
inductive Item
  | char (u : UInt16)
  | tag (shape : TagShape) (text : Text)
  deriving DecidableEq, Repr

def itemsFrom : Nat → Text → List Item
  | _, [] => []
  | skip + 1, _ :: us => itemsFrom skip us
  | 0, u :: us =>
      if u = lessThan then
        match parseReasoningTagAt true (u :: us) with
        | .tag shape =>
            .tag shape ((u :: us).take shape.length) :: itemsFrom (shape.length - 1) us
        | _ => .char u :: itemsFrom 0 us
      else .char u :: itemsFrom 0 us

/-- What is settled of a text that may go on: the items in front of its pending tag. -/
def settledItems : Nat → Text → List Item
  | _, [] => []
  | skip + 1, _ :: us => settledItems skip us
  | 0, u :: us =>
      if u = lessThan then
        match parseReasoningTagAt false (u :: us) with
        | .tag shape =>
            .tag shape ((u :: us).take shape.length) :: settledItems (shape.length - 1) us
        | .pending => []
        | .invalid => .char u :: settledItems 0 us
      else .char u :: settledItems 0 us

/-- How far a text is settled. -/
def settledLength (text : Text) : Nat :=
  ((scanReasoningTags text false).pendingStart).getD text.length

theorem scanFrom_pending_bounds {final : Bool} {index skip start : Nat} {text : Text}
    (pending : (scanFrom final index skip text).pendingStart = some start) :
    index + skip ≤ start ∧ start < index + text.length := by
  induction text generalizing index skip with
  | nil => cases skip <;> simp [scanFrom] at pending
  | cons u us ih =>
      simp only [List.length_cons]
      cases skip with
      | succ skip =>
          have := ih pending
          omega
      | zero =>
          simp only [scanFrom] at pending
          split at pending
          · cases parsed : parseReasoningTagAt final (u :: us) with
            | tag shape =>
                rw [parsed] at pending
                have := ih pending
                omega
            | pending =>
                simp only [parsed, Option.some.injEq] at pending
                omega
            | invalid =>
                rw [parsed] at pending
                have := ih pending
                omega
          · have := ih pending
            omega

/-- The settled part of a text gives its items in front of those of the rest, whatever is
appended. -/
theorem itemsFrom_append (index : Nat) {skip : Nat} {a : Text} (b : Text) (fits : skip ≤ a.length) :
    itemsFrom skip (a ++ b) = settledItems skip a ++
      itemsFrom 0 (a.drop (((scanFrom false index skip a).pendingStart.map (· - index)).getD
        a.length) ++ b) := by
  induction a generalizing index skip with
  | nil =>
      obtain rfl : skip = 0 := by simpa using fits
      cases b <;> simp [itemsFrom, settledItems]
  | cons u us ih =>
      -- one unit further on, the same rest is left
      have shift : ∀ scan : ReasoningTagScan,
          (∀ start, scan.pendingStart = some start → index + 1 ≤ start) →
          (u :: us).drop ((scan.pendingStart.map (· - index)).getD (u :: us).length) =
            us.drop ((scan.pendingStart.map (· - (index + 1))).getD us.length) := by
        intro scan later
        cases found : scan.pendingStart with
        | none => simp
        | some start =>
            have := later start found
            obtain ⟨n, rfl⟩ : ∃ n, start = index + 1 + n := ⟨start - (index + 1), by omega⟩
            have left : index + 1 + n - index = n + 1 := by omega
            simp [left]
      have bound : ∀ skip', ∀ start,
          (scanFrom false (index + 1) skip' us).pendingStart = some start → index + 1 ≤ start := by
        intro skip' start found
        have := (scanFrom_pending_bounds found).1
        omega
      cases skip with
      | succ skip =>
          have next := ih (index + 1) (by simpa using fits)
          rw [← shift _ (bound skip)] at next
          exact next
      | zero =>
          by_cases less : u = lessThan
          · subst less
            simp only [List.cons_append, itemsFrom, settledItems, scanFrom, if_true]
            cases parsed : parseReasoningTagAt false (lessThan :: us) with
            | tag shape =>
                have bounds := parse_tag_bounds parsed
                have more := parse_tag_append (by simp) parsed true b
                rw [List.cons_append] at more
                simp only [List.length_cons] at bounds
                have same : (lessThan :: (us ++ b)).take shape.length =
                    (lessThan :: us).take shape.length := by
                  rw [← List.cons_append, List.take_append_of_le_length (by simpa using bounds.2)]
                have next := ih (index + 1) (by omega : shape.length - 1 ≤ us.length)
                rw [← shift _ (bound _)] at next
                simp only [more, same, next, List.cons_append]
            | pending =>
                simp only [Option.map_some, Nat.sub_self, Option.getD_some, List.drop_zero,
                  List.nil_append]
                rw [List.cons_append, itemsFrom, if_pos rfl]
            | invalid =>
                have more := parse_invalid_append (by simp) parsed true b
                rw [List.cons_append] at more
                have next := ih (index + 1) (Nat.zero_le us.length)
                rw [← shift _ (bound _)] at next
                simp only [more, next, List.cons_append]
          · simp only [List.cons_append, itemsFrom, settledItems, scanFrom, less, if_false]
            have next := ih (index + 1) (Nat.zero_le us.length)
            rw [← shift _ (bound _)] at next
            simp only [next]

theorem itemsFrom_settled (a b : Text) :
    itemsFrom 0 (a ++ b) =
      settledItems 0 a ++ itemsFrom 0 (a.drop (settledLength a) ++ b) := by
  have whole := itemsFrom_append 0 b (Nat.zero_le a.length)
  have same : (((scanFrom false 0 0 a).pendingStart.map (· - 0)).getD a.length) =
      settledLength a := by
    simp only [settledLength, scanReasoningTags, Nat.sub_zero, Option.map_id']
  rw [same] at whole
  exact whole

theorem itemsFrom_plain {a : Text} (b : Text) (plain : lessThan ∉ a) :
    itemsFrom 0 (a ++ b) = a.map .char ++ itemsFrom 0 b := by
  induction a with
  | nil => rfl
  | cons u us ih =>
      have other : u ≠ lessThan := fun same => plain (by simp [same])
      rw [List.cons_append, itemsFrom, if_neg other,
        ih fun mem => plain (List.mem_cons_of_mem _ mem)]
      rfl

end Items

end OpenClaw.ReasoningTags
