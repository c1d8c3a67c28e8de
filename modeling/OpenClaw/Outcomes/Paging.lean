import OpenClaw.Lib.JsCollections
import OpenClaw.Lib.KeysetPaging
import OpenClaw.Outcomes.Cursor

/-!
The outcome list of an owner, page by page. The stored records are read again for every page
and may change in between; a page resumes after the record that the cursor names.
-/

namespace Outcomes

/-- The stored records. What paging reads of them passed `outcomeRecordSchema`. -/
structure OutcomeStore where
  records : List OutcomeRecord
  ids : (records.map OutcomeRecord.id).Nodup
  shaped : ∀ record ∈ records, codePointText 160 record.id ∧ FiniteReading record.updatedAt

/-- The newest record first, and by id among records of one time. -/
def listedBefore (a b : OutcomeRecord) : Bool :=
  b.updatedAt < a.updatedAt || (b.updatedAt = a.updatedAt && JsText.lt a.id b.id)

/-- `listOwned`. -/
def listOwned (store : OutcomeStore) (managerProfileId : String) : List OutcomeRecord :=
  JsArray.toSorted listedBefore
    (store.records.filter fun record => record.managerProfileId = managerProfileId)

inductive ListError where
  | invalidRequest
  | notFound
  | invalidCursor
  deriving DecidableEq

structure ListParams where
  limit : Option Nat := none
  cursor : Option String := none
  deriving DecidableEq

/-- `outcomeListParamsSchema`. -/
def ListParams.Valid (params : ListParams) : Prop :=
  (∀ limit ∈ params.limit, 1 ≤ limit ∧ limit ≤ 100) ∧
    ∀ cursor ∈ params.cursor, 1 ≤ cursor.length ∧ cursor.length ≤ 2048

instance (params : ListParams) : Decidable params.Valid := inferInstanceAs (Decidable (_ ∧ _))

structure ListPage where
  /-- The records whose summaries the page shows. -/
  outcomes : List OutcomeRecord
  nextCursor : Option String
  deriving DecidableEq

/-- `authenticatedProfileId`. -/
def authenticatedProfileId (client : Option String) : Option String :=
  client.bind fun profileId =>
    if JsText.trim profileId = "" then none else some (JsText.trim profileId)

def isPast (cursor : Option CursorAnchor) (record : OutcomeRecord) : Bool :=
  match cursor with
  | none => true
  | some cursor => (record.updatedAt : ℚ) < cursor.updatedAt ||
      ((record.updatedAt : ℚ) = cursor.updatedAt && JsText.lt cursor.id record.id)

variable (D : ProfileDigests)

def pageAfter (store : OutcomeStore) (owner : String) (limit : Option Nat)
    (cursor : Option CursorAnchor) : ListPage :=
  let eligible := (listOwned store owner).filter (isPast cursor)
  let page := eligible.take (limit.getD 25)
  { outcomes := page
    nextCursor := if page.length < eligible.length then
        page.getLast?.map fun last => encodeOutcomeCursor D owner last.updatedAt last.id
      else none }

/-- `outcomes.list`. -/
def list (store : OutcomeStore) (client : Option String) (params : ListParams) :
    Except ListError ListPage :=
  if ¬ params.Valid then .error .invalidRequest
  else
    match authenticatedProfileId client with
    | none => .error .notFound
    | some owner =>
        match params.cursor with
        | none => .ok (pageAfter D store owner params.limit none)
        | some cursor =>
            match decodeOutcomeCursor D owner cursor with
            | none => .error .invalidCursor
            | some anchor => .ok (pageAfter D store owner params.limit (some anchor))

/-- The pages an owner gets by following the cursors to the last one. -/
inductive Follows (client : Option String) (limit : Option Nat) (store : Nat → OutcomeStore) :
    Nat → Option String → List (List OutcomeRecord) → Prop
  | last {n : Nat} {cursor : Option String} {page : ListPage}
      (answer : list D (store n) client ⟨limit, cursor⟩ = .ok page) (done : page.nextCursor = none) :
      Follows client limit store n cursor [page.outcomes]
  | more {n : Nat} {cursor : Option String} {page : ListPage} {next : String}
      {pages : List (List OutcomeRecord)} (answer : list D (store n) client ⟨limit, cursor⟩ = .ok page)
      (resumes : page.nextCursor = some next)
      (rest : Follows client limit store (n + 1) (some next) pages) :
      Follows client limit store n cursor (page.outcomes :: pages)

open KeysetPaging

variable {D} {store : OutcomeStore} {stores : Nat → OutcomeStore} {client : Option String}
  {owner : String} {limit : Option Nat} {cursor : Option String} {record : OutcomeRecord} {n : Nat}
  {pages : List (List OutcomeRecord)}

/-- What the list is ordered by. -/
abbrev PagingKey := Finite ×ₗ List Nat

def CursorAnchor.key (anchor : CursorAnchor) : PagingKey :=
  toLex (-anchor.updatedAt, JsText.units anchor.id)

def OutcomeRecord.anchor (record : OutcomeRecord) : CursorAnchor := ⟨record.updatedAt, record.id⟩

def OutcomeRecord.pagingKey (record : OutcomeRecord) : PagingKey := record.anchor.key

theorem comparesBy_listedBefore : JsArray.ComparesBy listedBefore OutcomeRecord.pagingKey := by
  intro left right
  have iff : listedBefore left right = true ↔ left.pagingKey < right.pagingKey := by
    simp only [listedBefore, OutcomeRecord.pagingKey, CursorAnchor.key, OutcomeRecord.anchor,
      Prod.Lex.toLex_lt_toLex, Bool.or_eq_true, Bool.and_eq_true, decide_eq_true_eq, neg_lt_neg_iff,
      neg_inj, Int.cast_lt, Int.cast_inj, JsArray.lt_iff]
    rw [eq_comm (a := right.updatedAt)]
  rw [← not_lt, ← iff, Bool.not_eq_true]

theorem isPast_eq (anchor : Option CursorAnchor) :
    isPast anchor record = decide (After OutcomeRecord.pagingKey (anchor.map CursorAnchor.key) record) := by
  cases anchor with
  | none => simp [isPast, After]
  | some anchor =>
      have later : decide (JsText.units anchor.id < JsText.units record.id) =
          JsText.lt anchor.id record.id := by
        rw [Bool.eq_iff_iff, decide_eq_true_iff, JsArray.lt_iff]
      simp [isPast, After, OutcomeRecord.pagingKey, CursorAnchor.key, OutcomeRecord.anchor,
        Prod.Lex.toLex_lt_toLex, eq_comm, later]

theorem mem_listOwned : record ∈ listOwned store owner ↔
    record ∈ store.records ∧ record.managerProfileId = owner := by
  simp [listOwned, JsArray.mem_toSorted]

theorem ordered_listOwned : Ordered OutcomeRecord.pagingKey (listOwned store owner) := by
  refine JsArray.pairwise_lt_toSorted comparesBy_listedBefore ?_
  have ids : ((store.records.filter fun record => record.managerProfileId = owner).map
      OutcomeRecord.id).Nodup := store.ids.sublist (List.filter_sublist.map _)
  refine List.Nodup.of_map (fun key : PagingKey => (ofLex key).2) ?_
  rw [List.map_map]
  have names : (fun key : PagingKey => (ofLex key).2) ∘ OutcomeRecord.pagingKey =
      JsText.units ∘ OutcomeRecord.id := rfl
  rw [names, ← List.map_map]
  exact ids.map JsText.units_injective

/-- A cursor of an owner, and the key it resumes after. -/
inductive Resumes (D : ProfileDigests) (owner : String) : Option String → Option PagingKey → Prop
  | start : Resumes D owner none none
  | after {record : OutcomeRecord} (short : codePointText 160 record.id)
      (finite : FiniteReading record.updatedAt) :
      Resumes D owner (some (encodeOutcomeCursor D owner record.updatedAt record.id))
        (some record.pagingKey)

variable {key : Option PagingKey}

theorem Resumes.eq_start (resumes : Resumes D owner none key) : key = none := by
  cases resumes
  rfl

theorem Resumes.of_none (resumes : Resumes D owner cursor none) : cursor = none := by
  cases resumes
  rfl

theorem one_le_length_of_decodes {token : String} {anchor : CursorAnchor}
    (decodes : decodeOutcomeCursor D owner token = some anchor) : 1 ≤ token.length := by
  rcases Nat.eq_zero_or_pos token.length with empty | some_
  · rw [String.length_eq_zero_iff.mp empty] at decodes
    cases decodes
  · exact some_

/-- A request with a minted cursor is answered by the page after its key. -/
theorem list_of_resumes (authenticated : authenticatedProfileId client = some owner)
    (size : ∀ l ∈ limit, 1 ≤ l ∧ l ≤ 100) (resumes : Resumes D owner cursor key)
    (store : OutcomeStore) : ∃ anchor : Option CursorAnchor, anchor.map CursorAnchor.key = key ∧
      list D store client ⟨limit, cursor⟩ = .ok (pageAfter D store owner limit anchor) := by
  cases resumes with
  | start =>
      have valid : ListParams.Valid ⟨limit, none⟩ := ⟨size, nofun⟩
      refine ⟨none, rfl, ?_⟩
      simp only [list, if_neg (not_not.mpr valid), authenticated]
  | @after record short finite =>
      have decodes : decodeOutcomeCursor D owner
          (encodeOutcomeCursor D owner record.updatedAt record.id) = some record.anchor :=
        (decode_encodeOutcomeCursor finite).trans (if_pos rfl)
      have brief : (encodeOutcomeCursor D owner record.updatedAt record.id).length ≤ 2048 :=
        length_encodeOutcomeCursor_le short.2 finite
      generalize encodeOutcomeCursor D owner record.updatedAt record.id = token at decodes brief
      have valid : ListParams.Valid ⟨limit, some token⟩ := by
        refine ⟨size, fun given same => ?_⟩
        obtain rfl := Option.some.inj same
        exact ⟨one_le_length_of_decodes decodes, brief⟩
      refine ⟨some record.anchor, rfl, ?_⟩
      simp only [list, if_neg (not_not.mpr valid), authenticated, decodes]

/-- A page of the list is the page after the key, and its cursor resumes after its end. -/
theorem pageAfter_eq (D : ProfileDigests) (store : OutcomeStore) (owner : String)
    (limit : Option Nat) (anchor : Option CursorAnchor) :
    (pageAfter D store owner limit anchor).outcomes =
        page OutcomeRecord.pagingKey (limit.getD 25) (listOwned store owner)
          (anchor.map CursorAnchor.key) ∧
      Resumes D owner (pageAfter D store owner limit anchor).nextCursor
        (next OutcomeRecord.pagingKey (limit.getD 25) (listOwned store owner)
          (anchor.map CursorAnchor.key)) := by
  have same : (listOwned store owner).filter (isPast anchor) =
      eligible OutcomeRecord.pagingKey (listOwned store owner) (anchor.map CursorAnchor.key) :=
    List.filter_congr fun record _ => isPast_eq anchor
  refine ⟨congrArg (List.take _) same, ?_⟩
  have token : (pageAfter D store owner limit anchor).nextCursor =
      if (page OutcomeRecord.pagingKey (limit.getD 25) (listOwned store owner)
          (anchor.map CursorAnchor.key)).length <
        (eligible OutcomeRecord.pagingKey (listOwned store owner)
          (anchor.map CursorAnchor.key)).length then
        (page OutcomeRecord.pagingKey (limit.getD 25) (listOwned store owner)
          (anchor.map CursorAnchor.key)).getLast?.map fun last =>
            encodeOutcomeCursor D owner last.updatedAt last.id
      else none := by
    rw [page, ← same]
    rfl
  rw [token, next]
  split
  · cases last : (page OutcomeRecord.pagingKey (limit.getD 25) (listOwned store owner)
        (anchor.map CursorAnchor.key)).getLast? with
    | none => exact .start
    | some record =>
        have mem := mem_eligible.mp (List.mem_of_mem_take (List.mem_of_getLast? last))
        obtain ⟨short, finite⟩ := store.shaped record (mem_listOwned.mp mem.1).1
        exact .after short finite
  · exact .start

theorem pageAfter_of_list {params : ListParams} {answer : ListPage}
    (authenticated : authenticatedProfileId client = some owner)
    (listed : list D store client params = .ok answer) :
    ∃ anchor, answer = pageAfter D store owner params.limit anchor := by
  unfold list at listed
  split at listed
  · cases listed
  rw [authenticated] at listed
  dsimp only at listed
  split at listed
  · exact ⟨none, (Except.ok.inj listed).symm⟩
  split at listed
  · cases listed
  case h_2 anchor _ => exact ⟨some anchor, (Except.ok.inj listed).symm⟩

/-- The answer to a request with a minted cursor. -/
theorem list_answers (authenticated : authenticatedProfileId client = some owner)
    (size : ∀ l ∈ limit, 1 ≤ l ∧ l ≤ 100) (resumes : Resumes D owner cursor key)
    (store : OutcomeStore) : ∃ answer, list D store client ⟨limit, cursor⟩ = .ok answer ∧
      answer.outcomes =
        page OutcomeRecord.pagingKey (limit.getD 25) (listOwned store owner) key ∧
      Resumes D owner answer.nextCursor
        (next OutcomeRecord.pagingKey (limit.getD 25) (listOwned store owner) key) := by
  obtain ⟨anchor, rfl, listed⟩ := list_of_resumes authenticated size resumes store
  exact ⟨_, listed, pageAfter_eq D store owner limit anchor⟩

/-- Following the cursors is walking the ordered list. -/
theorem Follows.walk (authenticated : authenticatedProfileId client = some owner)
    (size : ∀ l ∈ limit, 1 ≤ l ∧ l ≤ 100) (follows : Follows D client limit stores n cursor pages)
    (resumes : Resumes D owner cursor key) :
    Walk OutcomeRecord.pagingKey (limit.getD 25) (fun n => listOwned (stores n) owner) n key pages := by
  induction follows generalizing key with
  | @last n cursor answered answer done =>
      obtain ⟨_, listed, outcomes, after⟩ := list_answers authenticated size resumes (stores n)
      obtain rfl := Except.ok.inj (answer.symm.trans listed)
      rw [outcomes]
      exact .last (done ▸ after).eq_start
  | @more n cursor answered token pages answer again _ ih =>
      obtain ⟨_, listed, outcomes, after⟩ := list_answers authenticated size resumes (stores n)
      obtain rfl := Except.ok.inj (answer.symm.trans listed)
      rw [outcomes]
      rw [again] at after
      cases resumed : next OutcomeRecord.pagingKey (limit.getD 25) (listOwned (stores n) owner) key with
      | none =>
          rw [resumed] at after
          cases after.of_none
      | some k =>
          rw [resumed] at after
          exact .more resumed (ih after)

theorem Follows.of_walk (authenticated : authenticatedProfileId client = some owner)
    (size : ∀ l ∈ limit, 1 ≤ l ∧ l ≤ 100)
    (walk : Walk OutcomeRecord.pagingKey (limit.getD 25) (fun n => listOwned (stores n) owner) n key
      pages) (resumes : Resumes D owner cursor key) :
    Follows D client limit stores n cursor pages := by
  induction walk generalizing cursor with
  | @last n key done =>
      obtain ⟨answer, listed, outcomes, after⟩ := list_answers authenticated size resumes (stores n)
      rw [← outcomes]
      exact .last listed (done ▸ after).of_none
  | @more n key k pages again _ ih =>
      obtain ⟨answer, listed, outcomes, after⟩ := list_answers authenticated size resumes (stores n)
      rw [← outcomes]
      rw [again] at after
      cases token : answer.nextCursor with
      | none =>
          rw [token] at after
          cases after.eq_start
      | some next =>
          rw [token] at after
          exact .more listed token (ih after)

/-- The pages of an owner lose and repeat nothing. -/
theorem list_pagination (authenticated : authenticatedProfileId client = some owner)
    (size : ∀ l ∈ limit, 1 ≤ l ∧ l ≤ 100) :
    (∀ store : OutcomeStore, ∃ pages, Follows D client limit (fun _ => store) 0 none pages ∧
      pages.flatten.Perm (store.records.filter fun record => record.managerProfileId = owner)) ∧
    (∀ stores pages, Follows D client limit stores 0 none pages →
      ∀ record : OutcomeRecord, record.managerProfileId = owner →
        (∀ m < pages.length, record ∈ (stores m).records) →
        pages.flatten.filter (fun shown => shown.id = record.id) = [record]) ∧
    (∀ store cursor answer next, list D store client ⟨limit, cursor⟩ = .ok answer →
      answer.nextCursor = some next →
        ∀ later, ∃ answer, list D later client ⟨limit, some next⟩ = .ok answer) ∧
    (∀ other updatedAt id, FiniteReading updatedAt → D.profileDigest other ≠ D.profileDigest owner →
      decodeOutcomeCursor D other (encodeOutcomeCursor D owner updatedAt id) = none) := by
  have room : 1 ≤ limit.getD 25 := by
    cases limit with
    | none => decide
    | some limit => exact (size limit rfl).1
  refine ⟨fun store => ?_, fun stores pages follows record owned stays => ?_,
    fun store cursor answer next listed again later => ?_,
    fun other updatedAt id finite apart => ?_⟩
  · have ordered : Ordered OutcomeRecord.pagingKey (listOwned store owner) := ordered_listOwned
    obtain ⟨pages, walk, all⟩ := exists_walk room ordered 0 none
    refine ⟨pages, .of_walk authenticated size walk .start, ?_⟩
    have whole : eligible OutcomeRecord.pagingKey (listOwned store owner) none =
        listOwned store owner := List.filter_eq_self.mpr fun record _ => by simp [After]
    rw [all, whole]
    exact JsArray.toSorted_perm _ _
  · have walk := follows.walk authenticated size .start
    have once := walk.filter_key room (fun m => ordered_listOwned) fun m _ bound =>
      mem_listOwned.mpr ⟨stays m (by simpa using bound), owned⟩
    rw [if_pos (by simp [After])] at once
    rw [← once]
    refine List.filter_congr fun shown mem => ?_
    obtain ⟨m, _, bound, inside⟩ := walk.exists_mem mem
    have same : shown.id = record.id → shown = record := fun id =>
      List.inj_on_of_nodup_map (stores m).ids (mem_listOwned.mp inside).1
        (stays m (by simpa using bound)) id
    by_cases id : shown.id = record.id
    · rw [same id]
      simp
    · have apart : shown.pagingKey ≠ record.pagingKey := fun key =>
        id (JsText.units_injective (congrArg (fun key : PagingKey => (ofLex key).2) key))
      simp [id, apart]
  · obtain ⟨anchor, rfl⟩ := pageAfter_of_list authenticated listed
    have resumes := (pageAfter_eq D store owner limit anchor).2
    rw [show (pageAfter D store owner limit anchor).nextCursor = some next from again] at resumes
    obtain ⟨answer, listed, _⟩ := list_answers authenticated size resumes later
    exact ⟨answer, listed⟩
  · rw [decode_encodeOutcomeCursor finite, if_neg apart.symm]

/-- A digest of 64 hexadecimal digits. -/
def hexDigest (value : Nat) : String :=
  String.ofList ((List.range 64).map fun place => Json.hexDigit (value / 16 ^ (63 - place) % 16))

/-- The digests of two profiles. -/
def exampleProfiles : ProfileDigests where
  profileDigest profileId :=
    if profileId = "owner" then
      hexDigest 0x420a7c6b6a704e0df8a4c08b9d957c60666837b950cb2f09a4fb37c88cfd0231
    else if profileId = "other" then
      hexDigest 0x522ad03782cc42c958bddc091033745bafb889688176a04e3d2104c392cb7433
    else hexDigest 0
  hex profileId := by
    have hex : ∀ n < 16, isHex (Json.hexDigit n) = true := by decide
    have all : ∀ value, (hexDigest value).toList.length = 64 ∧
        ∀ c ∈ (hexDigest value).toList, isHex c = true := by
      intro value
      rw [hexDigest, String.toList_ofList, List.length_map, List.length_range]
      refine ⟨rfl, fun c mem => ?_⟩
      obtain ⟨place, _, rfl⟩ := List.mem_map.mp mem
      exact hex _ (Nat.mod_lt _ (by decide))
    split
    · exact all _
    split
    · exact all _
    · exact all _

/-- The safe integers are finite. -/
theorem finiteReading_of_safe {updatedAt : Int} (safe : |(updatedAt : ℚ)| ≤ 2 ^ 53) :
    FiniteReading updatedAt := by
  have double : (2 : ℚ) ^ 972 ≤ 2 ^ 1024 := pow_le_pow_right₀ one_le_two (by decide)
  have larger : (2 : ℚ) ^ 53 ≤ 2 ^ 971 := pow_le_pow_right₀ one_le_two (by decide)
  have twice : (2 : ℚ) ^ 972 = 2 ^ 971 + 2 ^ 971 := by rw [pow_succ, mul_two]
  refine safe.trans (le_sub_iff_add_le.mpr ?_)
  exact (add_le_add_left larger _).trans (twice ▸ double)

/-- Two records of one time, and one of another owner. -/
def exampleStore : OutcomeStore where
  records :=
    [createdRecord "a" "request" "owner" "title" "objective" ⟨[⟨"c", "text", true⟩], by decide,
      by decide, by decide⟩ 7,
    createdRecord "b" "request" "other" "title" "objective" ⟨[⟨"c", "text", true⟩], by decide,
      by decide, by decide⟩ 8,
    createdRecord "d" "request" "owner" "title" "objective" ⟨[⟨"c", "text", true⟩], by decide,
      by decide, by decide⟩ 7]
  ids := by decide
  shaped := by
    have seven : FiniteReading 7 := finiteReading_of_safe (by norm_num)
    have eight : FiniteReading 8 := finiteReading_of_safe (by norm_num)
    simp only [List.forall_mem_cons]
    exact ⟨⟨by decide, seven⟩, ⟨by decide, eight⟩, ⟨by decide, seven⟩, nofun⟩

theorem list_pagination_example : ∃ pages,
    Follows exampleProfiles (some " owner") (some 1) (fun _ => exampleStore) 0 none pages ∧
      pages.flatten.Perm (exampleStore.records.filter fun record => record.managerProfileId = "owner") :=
  (list_pagination (by decide) (by decide)).1 exampleStore

end Outcomes
