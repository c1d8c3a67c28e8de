import OpenClaw.CronReceipts.Rows

/-!
Receipts fence executions. The ids of all rows were claimed, so a receipt that ended
never runs again; what a process prepared was observed in an earlier state of the
run; and an adjudication only interrupts what it observed stale.
-/

namespace CronReceipts

/-- What a process has prepared, by itself or as part of a claim. -/
def Process.prepared (p : Process) : List Adjudication :=
  p.adjudications ++ p.claims.map (·.toAdjudication)

namespace Machine

open Transition

variable {m n : Machine} {label : Label} {i j : Nat} {p q : Process} {action : Action} {r : Row}

/-- The adjudication an action carries out, as its process prepared it. -/
def adjudicationOf (p : Process) : Action → Option Adjudication
  | .adjudicate i _ _ _ => p.adjudications[i]?
  | .claim i _ _ => p.claims[i]?.map (·.toAdjudication)
  | _ => none

theorem prepared_of_adjudicationOf {a : Adjudication} (acts : adjudicationOf p action = some a) :
    a ∈ p.prepared := by
  cases action with
  | adjudicate => exact List.mem_append_left _ (List.mem_of_getElem? acts)
  | claim =>
      obtain ⟨claim, found, rfl⟩ := Option.map_eq_some_iff.mp acts
      exact List.mem_append_right _ (List.mem_map_of_mem (List.mem_of_getElem? found))
  | prepareAdjudication | prepareClaim | activate | finish | disown | crash => cases acts

theorem step_act (taken : step m (.act i action) = some n) :
    ∃ p, m.processes[i]? = some p ∧ p.alive = true ∧ m.act i p action = some n := by
  simp only [step, Option.bind_eq_bind, Option.bind_eq_some_iff, Option.guard_eq_some'] at taken
  obtain ⟨p, found, _, alive, acted⟩ := taken
  exact ⟨p, found, alive, acted⟩

@[simp] theorem setProcess_table : (m.setProcess i p).table = m.table := rfl

@[simp] theorem setProcess_claimed : (m.setProcess i p).claimed = m.claimed := rfl

@[simp] theorem commit_claimed (committed : Bool) (t : Table) :
    (m.commit committed t).claimed = m.claimed := by
  cases committed <;> rfl

@[simp] theorem commit_processes (committed : Bool) (t : Table) :
    (m.commit committed t).processes = m.processes := by
  cases committed <;> rfl

theorem evolves_commit {ids : List String} {t : Table} (committed : Bool)
    (evolves : Evolves ids m.table t) : Evolves ids m.table (m.commit committed t).table := by
  cases committed
  · exact .refl _
  · exact evolves

/-- The rows of a step come from running rows, or from a claim with a new id. -/
theorem evolves_of_step (taken : step m label = some n) :
    ∃ ids, n.claimed = ids ++ m.claimed ∧ Evolves ids m.table n.table ∧
      (UniqueIds m label → ∀ id ∈ ids, id ∉ m.claimed) := by
  cases label with
  | spawn pid startTime =>
      obtain ⟨_, spawned⟩ := Option.ite_none_left_eq_some.mp taken
      cases spawned
      exact ⟨[], rfl, .refl _, fun _ _ none => absurd none List.not_mem_nil⟩
  | act i action =>
      obtain ⟨p, found, _, acted⟩ := step_act taken
      -- All but a committed claim insert nothing.
      suffices unclaimed : (n.claimed = m.claimed ∧ Evolves [] m.table n.table) ∨
          ∃ k agent committed prepared, action = .claim k agent committed ∧
            p.claims[k]? = some prepared ∧
            n.claimed = prepared.handle.receiptId :: m.claimed ∧
            Evolves [prepared.handle.receiptId] m.table n.table by
        rcases unclaimed with ⟨same, evolves⟩ | ⟨k, agent, committed, prepared, rfl, at_, same, evolves⟩
        · exact ⟨[], same, evolves, fun _ _ none => absurd none List.not_mem_nil⟩
        · refine ⟨_, same, evolves, fun unique id mem => ?_⟩
          rw [List.mem_singleton.mp mem]
          exact unique p found prepared at_
      cases action with
      | prepareAdjudication | disown | crash =>
          cases acted
          exact .inl ⟨rfl, .refl _⟩
      | prepareClaim =>
          obtain ⟨_, _, rfl⟩ := Option.map_eq_some_iff.mp acted
          exact .inl ⟨rfl, .refl _⟩
      | adjudicate k jobId finishedAtMs committed =>
          simp only [act, Option.bind_eq_bind, Option.bind_eq_some_iff] at acted
          obtain ⟨prepared, _, t, adjudicated, same⟩ := acted
          cases same
          exact .inl ⟨commit_claimed _ _, evolves_commit _ (.adjudicate adjudicated)⟩
      | claim k agent committed =>
          simp only [act, Option.bind_eq_bind, Option.bind_eq_some_iff] at acted
          obtain ⟨prepared, at_, ⟨handle, t⟩, claimed, same⟩ := acted
          have evolves := Evolves.claim claimed
          obtain ⟨_, _, _, _, rfl⟩ := claim_cases claimed
          cases committed with
          | false =>
              cases same
              exact .inl ⟨rfl, .refl _⟩
          | true =>
              cases same
              exact .inr ⟨k, agent, true, prepared, rfl, at_, rfl, evolves⟩
      | activate handle startedAtMs agent committed =>
          simp only [act, Option.bind_eq_bind, Option.bind_eq_some_iff] at acted
          obtain ⟨⟨next, t⟩, activated, same⟩ := acted
          cases same
          exact .inl ⟨commit_claimed _ _, evolves_commit _ (.activate activated)⟩
      | finish handle status finishedAtMs error committed =>
          simp only [act, Option.bind_eq_bind, Option.bind_eq_some_iff] at acted
          obtain ⟨⟨row, t⟩, finished, same⟩ := acted
          cases same
          exact .inl ⟨commit_claimed _ _, evolves_commit _ (.finish finished)⟩

/-- The id of every row was claimed. -/
def IdsClaimed (m : Machine) : Prop := ∀ r ∈ m.table.rows, r.receiptId ∈ m.claimed

theorem IdsClaimed.step (known : m.IdsClaimed) (taken : step m label = some n) :
    n.IdsClaimed := by
  obtain ⟨ids, claimed, evolves, _⟩ := evolves_of_step taken
  intro s mem
  rw [claimed, List.mem_append]
  rcases evolves s mem with old | ⟨r, old, _, same⟩ | fresh
  · exact .inr (known s old)
  · exact .inr (same ▸ known r old)
  · exact .inl fresh

theorem IdsClaimed.reaches {ok : Machine → Label → Prop} (run : Reaches Machine.step ok m n)
    (known : m.IdsClaimed) : n.IdsClaimed :=
  run.invariant known fun _ _ _ known _ taken => known.step taken

/-- A receipt that ended: its row, as long as it is retained, is this one. -/
def Ended (r : Row) (m : Machine) : Prop :=
  r.receiptId ∈ m.claimed ∧ ∀ s ∈ m.table.rows, s.receiptId = r.receiptId → s = r

theorem Ended.step (ended : Ended r m) (terminal : ¬ r.Running) (unique : UniqueIds m label)
    (taken : step m label = some n) : Ended r n := by
  obtain ⟨ids, claimed, evolves, fresh⟩ := evolves_of_step taken
  refine ⟨by simp [claimed, ended.1], fun s mem same => ?_⟩
  rcases evolves s mem with old | ⟨s', old, running, same'⟩ | new
  · exact ended.2 s old same
  · cases ended.2 s' old (same'.trans same)
    exact absurd running terminal
  · exact absurd (same ▸ ended.1) (fresh unique _ new)

theorem Ended.reaches (run : Reaches Machine.step UniqueIds m n) (known : m.IdsClaimed)
    (mem : r ∈ m.table.rows) (terminal : ¬ r.Running) : Ended r n :=
  run.invariant (P := Ended r) ⟨known r mem, fun _ other same => eq_of_receiptId other mem same⟩
    fun _ _ _ ended unique taken => ended.step terminal unique taken

/-- What is prepared after a step was prepared before it or is observed in it. -/
theorem prepared_of_step (taken : step m label = some n) (found : n.processes[j]? = some q)
    {a : Adjudication} (mem : a ∈ q.prepared) :
    (∃ p, m.processes[j]? = some p ∧ a ∈ p.prepared) ∨
      ∃ p storeKey jobId nowMs liveness, m.processes[j]? = some p ∧
        a = m.observe p storeKey jobId nowMs liveness := by
  cases label with
  | spawn pid startTime =>
      obtain ⟨_, spawned⟩ := Option.ite_none_left_eq_some.mp taken
      cases spawned
      rw [List.getElem?_append] at found
      split at found
      · exact .inl ⟨q, found, mem⟩
      · obtain rfl := List.mem_singleton.mp (List.mem_of_getElem? found)
        cases mem
  | act i action =>
      obtain ⟨p, at_, _, acted⟩ := step_act taken
      -- A step that rewrites its own process to `p'`.
      have own : ∀ p' : Process, n.processes = m.processes.set i p' →
          (a ∈ p'.prepared → a ∈ p.prepared ∨ ∃ storeKey jobId nowMs liveness,
            a = m.observe p storeKey jobId nowMs liveness) →
          (∃ p, m.processes[j]? = some p ∧ a ∈ p.prepared) ∨
            ∃ p storeKey jobId nowMs liveness, m.processes[j]? = some p ∧
              a = m.observe p storeKey jobId nowMs liveness := by
        intro p' processes kept
        rw [processes] at found
        rcases eq_or_ne i j with rfl | other
        · rw [List.getElem?_set_self (List.getElem?_eq_some_iff.mp at_).1] at found
          cases found
          rcases kept mem with old | ⟨storeKey, jobId, nowMs, liveness, observed⟩
          · exact .inl ⟨p, at_, old⟩
          · exact .inr ⟨p, storeKey, jobId, nowMs, liveness, at_, observed⟩
        · rw [List.getElem?_set_ne other] at found
          exact .inl ⟨q, found, mem⟩
      cases action with
      | prepareAdjudication storeKey jobId nowMs liveness =>
          cases acted
          refine own _ rfl fun new => ?_
          simp only [Process.prepared, List.mem_append, List.mem_singleton] at new
          rcases new with (old | rfl) | old
          · exact .inl (List.mem_append_left _ old)
          · exact .inr ⟨storeKey, jobId, nowMs, liveness, rfl⟩
          · exact .inl (List.mem_append_right _ old)
      | prepareClaim storeKey jobId configRevision agentId startedAtMs receiptId requestRunId
          liveness =>
          obtain ⟨startTime, _, rfl⟩ := Option.map_eq_some_iff.mp acted
          refine own _ rfl fun new => ?_
          simp only [Process.prepared, List.map_append, List.map_cons, List.map_nil,
            List.mem_append, List.mem_singleton] at new
          rcases new with old | old | rfl
          · exact .inl (List.mem_append_left _ old)
          · exact .inl (List.mem_append_right _ old)
          · exact .inr ⟨storeKey, jobId, startedAtMs, liveness, rfl⟩
      | disown | crash =>
          cases acted
          exact own _ rfl fun old => .inl old
      | adjudicate k jobId finishedAtMs committed =>
          simp only [act, Option.bind_eq_bind, Option.bind_eq_some_iff] at acted
          obtain ⟨_, _, t, _, same⟩ := acted
          cases same
          exact .inl ⟨q, by simpa using found, mem⟩
      | claim k agent committed =>
          simp only [act, Option.bind_eq_bind, Option.bind_eq_some_iff] at acted
          obtain ⟨prepared, _, ⟨handle, t⟩, _, same⟩ := acted
          cases committed <;> cases same <;> exact own _ rfl fun old => .inl old
      | activate | finish =>
          simp only [act, Option.bind_eq_bind, Option.bind_eq_some_iff] at acted
          obtain ⟨⟨_, t⟩, _, same⟩ := acted
          cases same
          exact .inl ⟨q, by simpa using found, mem⟩

/-- Process `i` judged the owner `o` of a running receipt stale in an earlier state. -/
def JudgedStale (m : Machine) (i : Nat) (o : Observation) : Prop :=
  ∃ before p r liveness nowMs, Reaches step UniqueIds {} before ∧ Reaches step UniqueIds before m ∧
    before.processes[i]? = some p ∧ r ∈ before.table.rows ∧ r.Running ∧ observeOwner r = o ∧
    ownerStale p.pid p.locallyOwned liveness o nowMs = true

/-- Every prepared stale observation was made in an earlier state of the run. -/
def ObservationsMade (m : Machine) : Prop :=
  ∀ i p, m.processes[i]? = some p → ∀ a ∈ p.prepared, ∀ o, a.observed = some o →
    a.observedStale = true → JudgedStale m i o

theorem judgedStale_observe {storeKey jobId : String} {nowMs : Int} {liveness : Liveness}
    {o : Observation} (run : Reaches step UniqueIds {} m) (found : m.processes[i]? = some p)
    (observed : (m.observe p storeKey jobId nowMs liveness).observed = some o)
    (stale : (m.observe p storeKey jobId nowMs liveness).observedStale = true) :
    JudgedStale m i o := by
  unfold observe at observed stale
  split at observed
  · cases observed
  case h_2 row active =>
    cases observed
    rw [active] at stale
    obtain ⟨mem, running⟩ := activeRow_eq_some active
    exact ⟨m, p, row, liveness, nowMs, run, .refl, found, mem, running.2.1, rfl, stale⟩

theorem observationsMade (run : Reaches step UniqueIds {} m) : ObservationsMade m := by
  induction run with
  | refl =>
      intro i p found
      cases found
  | @tail t u _ run permitted taken ih =>
      intro i q found a mem o observed stale
      have later : JudgedStale t i o → JudgedStale u i o := by
        rintro ⟨before, p, r, liveness, nowMs, first, rest, facts⟩
        exact ⟨before, p, r, liveness, nowMs, first, rest.tail permitted taken, facts⟩
      rcases prepared_of_step taken found mem with
        ⟨p, old, known⟩ | ⟨p, storeKey, jobId, nowMs, liveness, old, rfl⟩
      · exact later (ih i p old a known o observed stale)
      · exact later (judgedStale_observe run old observed stale)

/-- An adjudicating step leaves a running row alone unless it observed it stale. -/
theorem running_of_adjudicating (taken : step m (.act i action) = some n)
    (found : m.processes[i]? = some p) {a : Adjudication} (acts : adjudicationOf p action = some a)
    (mem : r ∈ m.table.rows) (running : r.Running) :
    r ∈ n.table.rows ∨ a.observed = some (observeOwner r) ∧ a.observedStale = true := by
  obtain ⟨p', found', _, acted⟩ := step_act taken
  cases found.symm.trans found'
  cases action with
  | adjudicate k jobId finishedAtMs committed =>
      simp only [act, Option.bind_eq_bind, Option.bind_eq_some_iff] at acted
      obtain ⟨prepared, at_, t, adjudicated, same⟩ := acted
      cases same
      cases at_.symm.trans acts
      cases committed
      · exact .inl mem
      · exact running_of_adjudicate adjudicated mem
  | claim k agent committed =>
      simp only [act, Option.bind_eq_bind, Option.bind_eq_some_iff] at acted
      obtain ⟨prepared, at_, ⟨handle, t⟩, claimed, same⟩ := acted
      simp only [adjudicationOf, at_, Option.map_some, Option.some.injEq] at acts
      subst acts
      cases committed
      · cases same
        exact .inl mem
      · cases same
        exact running_of_claim claimed mem running
  | prepareAdjudication | prepareClaim | activate | finish | disown | crash => cases acts

/-- The guarantees of the receipt table in one state of a run. -/
structure Fenced (m : Machine) : Prop where
  one_running : ∀ storeKey jobId,
    (m.table.rows.filter fun r => r.ActiveFor storeKey jobId).length ≤ 1
  one_owner : ∀ h h' : Handle, h.storeKey = h'.storeKey → h.jobId = h'.jobId →
    assertOwned m.table h = true → assertOwned m.table h' = true →
    h.receiptId = h'.receiptId ∧ h.ownerPid = h'.ownerPid ∧ h.ownerStartTime = h'.ownerStartTime
  /-- A receipt leaves `running` once; its row then only disappears. -/
  terminal_once : ∀ r ∈ m.table.rows, ¬ r.Running → ∀ n, Reaches step UniqueIds m n →
    ∀ s ∈ n.table.rows, s.receiptId = r.receiptId → s = r
  interrupted_stale : ∀ i p action a n, m.processes[i]? = some p →
    adjudicationOf p action = some a → step m (.act i action) = some n →
    ∀ r ∈ m.table.rows, r.Running → r ∉ n.table.rows →
      a.observed = some (observeOwner r) ∧ JudgedStale m i (observeOwner r)
  /-- A row that started anew after it was observed survives. -/
  advanced_survives : ∀ i p action a n o, m.processes[i]? = some p →
    adjudicationOf p action = some a → a.observed = some o → step m (.act i action) = some n →
    ∀ r ∈ m.table.rows, r.Running → r.startedAtMs ≠ o.startedAtMs → r ∈ n.table.rows
  interrupted_inert : ∀ r ∈ m.table.rows, r.status = .interrupted → ∀ n,
    Reaches step UniqueIds m n → ∀ h : Handle, h.receiptId = r.receiptId → Inert n.table h

theorem one_running (m : Machine) (storeKey jobId : String) :
    (m.table.rows.filter fun r => r.ActiveFor storeKey jobId).length ≤ 1 := by
  have apart := m.table.admitted.2.sublist
    (List.filter_sublist (p := fun r : Row => r.ActiveFor storeKey jobId))
  rcases rows : m.table.rows.filter fun r => r.ActiveFor storeKey jobId with _ | ⟨r, _ | ⟨s, rest⟩⟩
  · rw [rows]
    exact Nat.zero_le 1
  · rw [rows]
    exact Nat.le_refl 1
  · rw [rows] at apart
    have both : ∀ x ∈ r :: s :: rest, x.ActiveFor storeKey jobId := by
      intro x mem
      rw [← rows] at mem
      simpa using (List.mem_filter.mp mem).2
    have left := both r (by simp)
    have right := both s (by simp)
    refine absurd ⟨left.2.1, right.2.1, left.1.trans right.1.symm, left.2.2.trans right.2.2.symm⟩
      (List.rel_of_pairwise_cons apart (by simp)).2

theorem assertOwned_iff {t : Table} {h : Handle} : assertOwned t h = true ↔
    ∃ r, activeRow t h.storeKey h.jobId = some r ∧ r.receiptId = h.receiptId ∧
      r.ownerPid = h.ownerPid ∧ r.ownerStartTime = h.ownerStartTime := by
  unfold assertOwned
  split <;> simp_all [and_assoc]

/-- Process 1 judges the owner of the first receipt too old, the owner activates it, and
dies; judged anew, the receipt is interrupted by the next claim. -/
def takeover : List Label :=
  [.spawn 1 (some 10), .spawn 2 (some 20),
    .act 0 (.prepareClaim "store" "job" "rev" "main" 0 "first" none ⟨false, none⟩),
    .act 0 (.claim 0 (some "main") true),
    .act 1 (.prepareAdjudication "store" "job" 7200001 ⟨false, none⟩),
    .act 0 (.activate ⟨"main", "rev", "job", 1, some 10, "first", 0, "store"⟩ 7200001 (some "main")
      true),
    .act 0 .crash,
    .act 1 (.prepareClaim "store" "job" "rev" "main" 7200002 "second" none ⟨true, none⟩),
    .act 1 (.claim 0 (some "main") true)]

end Machine
end CronReceipts
