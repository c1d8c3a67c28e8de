import OpenClaw.CronReceipts.Machine

/-!
What the transactions do to the rows. Every new row of a table is an old row, an old
running row of the same receipt with new data, or the row of a claim; running rows
are only changed through their own receipt.
-/

namespace CronReceipts

variable {t u v : Table} {r s : Row} {storeKey jobId : String}

theorem activeRow_eq_some (found : activeRow t storeKey jobId = some r) :
    r ∈ t.rows ∧ r.ActiveFor storeKey jobId :=
  ⟨List.mem_of_find?_eq_some found, by simpa using List.find?_some found⟩

/-- The partial unique index: a job has one running row. -/
theorem eq_of_activeFor (left : r ∈ t.rows) (right : s ∈ t.rows)
    (active : r.ActiveFor storeKey jobId) (active' : s.ActiveFor storeKey jobId) : r = s := by
  refine t.eq_of_not_apart left right fun apart => apart.2 ?_
  exact ⟨active.2.1, active'.2.1, active.1.trans active'.1.symm, active.2.2.trans active'.2.2.symm⟩

/-- The primary key: a receipt has one row. -/
theorem eq_of_receiptId (left : r ∈ t.rows) (right : s ∈ t.rows)
    (same : r.receiptId = s.receiptId) : r = s :=
  t.eq_of_not_apart left right fun apart => apart.1 same

theorem activeRow_of_mem (mem : r ∈ t.rows) (active : r.ActiveFor storeKey jobId) :
    activeRow t storeKey jobId = some r := by
  cases found : activeRow t storeKey jobId with
  | none =>
      have absent := List.find?_eq_none.mp found r mem
      exact absurd (decide_eq_true active) absent
  | some other =>
      obtain ⟨otherMem, otherActive⟩ := activeRow_eq_some found
      rw [eq_of_activeFor otherMem mem otherActive active]

theorem sameOwner_iff {o : Observation} : sameOwner r o = true ↔ observeOwner r = o := by
  cases o
  simp [sameOwner, observeOwner, and_assoc]

theorem mem_of_prune (mem : s ∈ (pruneTerminalReceipts t storeKey jobId).rows) : s ∈ t.rows :=
  (Sql.Table.mem_delete.mp mem).1

theorem running_mem_prune (mem : r ∈ t.rows) (running : r.Running) :
    r ∈ (pruneTerminalReceipts t storeKey jobId).rows :=
  Sql.Table.mem_delete.mpr ⟨mem, by simp [terminalOf, running]⟩

/-- The rows of `u` come from `t`, up to the receipts of `ids`. -/
def Evolves (ids : List String) (t u : Table) : Prop :=
  ∀ s ∈ u.rows, s ∈ t.rows ∨ (∃ r ∈ t.rows, r.Running ∧ r.receiptId = s.receiptId) ∨
    s.receiptId ∈ ids

namespace Evolves

variable {ids : List String}

theorem refl (t : Table) : Evolves ids t t := fun _ mem => .inl mem

theorem trans (first : Evolves ids t u) (second : Evolves ids u v) : Evolves ids t v := by
  intro s mem
  rcases second s mem with old | ⟨r, old, running, same⟩ | fresh
  · exact first s old
  · rcases first r old with older | ⟨r', older, running', same'⟩ | fresh
    · exact .inr (.inl ⟨r, older, running, same⟩)
    · exact .inr (.inl ⟨r', older, running', same'.trans same⟩)
    · exact .inr (.inr (same ▸ fresh))
  · exact .inr (.inr fresh)

theorem prune : Evolves ids t (pruneTerminalReceipts t storeKey jobId) :=
  fun _ mem => .inl (mem_of_prune mem)

/-- An update of running rows that keeps the receipt. -/
theorem update {condition : Row → Bool} {set : Row → Row}
    (updated : t.update condition set = some u) (running : ∀ r, condition r = true → r.Running)
    (keeps : ∀ r, (set r).receiptId = r.receiptId) : Evolves ids t u := by
  intro s mem
  obtain ⟨r, old, rfl⟩ := (Sql.Table.mem_of_update updated).mp mem
  by_cases inside : condition r = true
  · refine .inr (.inl ⟨r, old, running r inside, ?_⟩)
    simp [inside, keeps]
  · exact .inl (by simpa [inside] using old)

theorem insert {row : Row} (inserted : t.insert row = some u) :
    Evolves [row.receiptId] t u := by
  intro s mem
  rw [Sql.Table.rows_of_insert inserted, List.mem_append, List.mem_singleton] at mem
  rcases mem with old | rfl
  · exact .inl old
  · exact .inr (.inr (List.mem_singleton.mpr rfl))

theorem mono {more : List String} (evolves : Evolves ids t u) (sub : ids ⊆ more) :
    Evolves more t u :=
  fun s mem => (evolves s mem).imp_right (Or.imp_right (@sub _))

end Evolves

/-- What adjudication did: nothing without an active receipt, else it interrupted the
receipt that was observed stale. -/
theorem adjudicateActive_cases {prepared : Adjudication} {finishedAtMs : Int}
    (adjudicated : adjudicateActive t jobId prepared finishedAtMs = some u) :
    u = t ∨ ∃ current ∈ t.rows, current.ActiveFor prepared.storeKey jobId ∧
      prepared.observed = some (observeOwner current) ∧ prepared.observedStale = true ∧
      t.update (fun row => row.receiptId = current.receiptId && row.status = .running)
        (·.interrupt finishedAtMs) = some u := by
  unfold adjudicateActive at adjudicated
  split at adjudicated
  · exact .inl (Option.some.inj adjudicated).symm
  case h_2 current found =>
    split at adjudicated
    · cases adjudicated
    case h_2 observed recorded =>
      obtain ⟨guards, updated⟩ := Option.ite_none_right_eq_some.mp adjudicated
      obtain ⟨stale, same⟩ := Bool.and_eq_true_iff.mp guards
      obtain ⟨mem, active⟩ := activeRow_eq_some found
      exact .inr ⟨current, mem, active, recorded.trans (congrArg some (sameOwner_iff.mp same).symm),
        stale, updated⟩

theorem Evolves.adjudicate {ids : List String} {prepared : Adjudication} {finishedAtMs : Int}
    (adjudicated : adjudicateActive t jobId prepared finishedAtMs = some u) :
    Evolves ids t u := by
  rcases adjudicateActive_cases adjudicated with rfl | ⟨current, _, _, _, _, updated⟩
  · exact .refl u
  · exact .update updated (fun r inside => by simp_all [Row.Running]) fun _ => rfl

/-- A running row is left alone by an adjudication that did not observe it stale. -/
theorem running_of_adjudicate {prepared : Adjudication} {finishedAtMs : Int}
    (adjudicated : adjudicateActive t jobId prepared finishedAtMs = some u) (mem : r ∈ t.rows) :
    r ∈ u.rows ∨ prepared.observed = some (observeOwner r) ∧ prepared.observedStale = true := by
  rcases adjudicateActive_cases adjudicated with rfl | ⟨current, old, _, observed, stale, updated⟩
  · exact .inl mem
  · rcases eq_or_ne r.receiptId current.receiptId with same | other
    · cases eq_of_receiptId mem old same
      exact .inr ⟨observed, stale⟩
    · exact .inl (Sql.Table.mem_update_of_not updated mem (by simp [other]))

/-- The parts of a committed claim. -/
theorem claim_cases {prepared : PreparedClaim} {agent : Option String} {handle : Handle}
    (claimed : claim t prepared agent = some (handle, u)) :
    ∃ adjudicated, adjudicateActive t prepared.handle.jobId prepared.toAdjudication
        prepared.handle.startedAtMs = some adjudicated ∧
      (pruneTerminalReceipts adjudicated prepared.handle.storeKey prepared.handle.jobId).insert
        (claimedRow prepared.handle prepared.requestRunId) = some u ∧
      validateCurrentJob prepared.handle agent = true ∧
      handle = receiptHandle (claimedRow prepared.handle prepared.requestRunId) := by
  simp only [claim, Option.bind_eq_bind, Option.bind_eq_some_iff, Option.guard_eq_some',
    Option.pure_def, Option.some.injEq, Prod.mk.injEq] at claimed
  obtain ⟨_, _, adjudicated, taken, _, valid, inserted, stored, row, active, rfl, rfl⟩ := claimed
  have mem : claimedRow prepared.handle prepared.requestRunId ∈ inserted.rows := by
    simp [Sql.Table.rows_of_insert stored]
  have same := (activeRow_of_mem mem ⟨rfl, rfl, rfl⟩).symm.trans active
  exact ⟨adjudicated, taken, stored, valid, by rw [Option.some.inj same]⟩

theorem Evolves.claim {prepared : PreparedClaim} {agent : Option String} {handle : Handle}
    (claimed : claim t prepared agent = some (handle, u)) : Evolves [handle.receiptId] t u := by
  obtain ⟨adjudicated, taken, inserted, _, rfl⟩ := claim_cases claimed
  exact (Evolves.adjudicate taken).trans (Evolves.prune.trans (.insert inserted))

theorem running_of_claim {prepared : PreparedClaim} {agent : Option String} {handle : Handle}
    (claimed : claim t prepared agent = some (handle, u)) (mem : r ∈ t.rows)
    (running : r.Running) :
    r ∈ u.rows ∨ prepared.observed = some (observeOwner r) ∧ prepared.observedStale = true := by
  obtain ⟨adjudicated, taken, inserted, _, rfl⟩ := claim_cases claimed
  refine (running_of_adjudicate taken mem).imp_left fun kept => ?_
  rw [Sql.Table.rows_of_insert inserted, List.mem_append]
  exact .inl (running_mem_prune kept running)

theorem activate_cases {handle next : Handle} {startedAtMs : Int} {agent : Option String}
    (activated : activate t handle startedAtMs agent = some (next, u)) :
    assertCurrent t handle agent = true ∧
      t.update (fun row => row.receiptId = handle.receiptId && row.status = .running)
        ({ · with startedAtMs := startedAtMs }) = some u := by
  simp only [activate, Option.bind_eq_bind, Option.bind_eq_some_iff, Option.guard_eq_some',
    Option.pure_def, Option.some.injEq, Prod.mk.injEq] at activated
  obtain ⟨_, current, v, updated, _, rfl⟩ := activated
  exact ⟨current, updated⟩

theorem Evolves.activate {ids : List String} {handle next : Handle} {startedAtMs : Int}
    {agent : Option String} (activated : activate t handle startedAtMs agent = some (next, u)) :
    Evolves ids t u :=
  .update (activate_cases activated).2 (fun r inside => by simp_all [Row.Running]) fun _ => rfl

theorem finish_cases {handle : Handle} {status : TerminalStatus} {finishedAtMs : Int}
    {error : Option String} {row : Option Row}
    (finished : finish t handle status finishedAtMs error = some (row, u)) :
    ∃ updated, t.update (fun row => row.receiptId = handle.receiptId && row.status = .running &&
        row.ownerPid = handle.ownerPid) (·.finish status finishedAtMs error) = some updated ∧
      u = pruneTerminalReceipts updated handle.storeKey handle.jobId := by
  simp only [finish, Option.bind_eq_bind, Option.bind_eq_some_iff, Option.pure_def,
    Option.some.injEq, Prod.mk.injEq] at finished
  obtain ⟨updated, stored, _, rfl⟩ := finished
  exact ⟨updated, stored, rfl⟩

theorem Evolves.finish {ids : List String} {handle : Handle} {status : TerminalStatus}
    {finishedAtMs : Int} {error : Option String} {row : Option Row}
    (finished : finish t handle status finishedAtMs error = some (row, u)) : Evolves ids t u := by
  obtain ⟨updated, stored, rfl⟩ := finish_cases finished
  exact (Evolves.update stored (fun r inside => by simp_all [Row.Running]) fun _ => rfl).trans .prune

/-- A handle whose receipt has no running row. -/
structure Inert (t : Table) (handle : Handle) : Prop where
  refused : assertOwned t handle = false
  notActivated : ∀ startedAtMs agent, activate t handle startedAtMs agent = none
  finishChangesNothing : ∀ status finishedAtMs error result, ∀ u,
    finish t handle status finishedAtMs error = some (result, u) →
      u = pruneTerminalReceipts t handle.storeKey handle.jobId

theorem Inert.of_notRunning {handle : Handle}
    (ended : ∀ r ∈ t.rows, r.receiptId = handle.receiptId → ¬ r.Running) : Inert t handle := by
  have refused : assertOwned t handle = false := by
    unfold assertOwned
    split
    · rfl
    case h_2 current found =>
      obtain ⟨mem, active⟩ := activeRow_eq_some found
      have other : current.receiptId ≠ handle.receiptId := fun same => ended current mem same active.2.1
      simp [other]
  refine ⟨refused, fun startedAtMs agent => ?_, fun status finishedAtMs error result u finished => ?_⟩
  · simp [activate, assertCurrent, refused]
  · obtain ⟨updated, stored, rfl⟩ := finish_cases finished
    have unchanged : updated.rows = t.rows := by
      rw [Sql.Table.store_eq_some stored]
      refine (List.map_congr_left fun row mem => ?_).trans (List.map_id _)
      rw [if_neg]
      · rfl
      · intro inside
        simp only [Bool.and_eq_true, decide_eq_true_eq] at inside
        exact ended row mem inside.1.1 inside.1.2
    have same : updated = t := by
      cases updated
      cases t
      cases unchanged
      rfl
    rw [same]

end CronReceipts
