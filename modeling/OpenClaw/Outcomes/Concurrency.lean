import OpenClaw.Outcomes.Store

/-!
Optimistic concurrency. An update is made at the revision it expects and raises it by
one; what a request recorded stays recorded, and decides the answer to every later
request under its id, whether that is found when reading or when deciding.
-/

namespace Outcomes

open Transition

variable {H : Digests} {accepts : OutcomeRecord → Bool} {brought : List WorkProjection}
  {r next : OutcomeRecord} {res : Result} {request : AssuranceRequest} {known : String × Nat}

theorem find?_concat {α : Type*} {xs : List α} {x y : α} {p : α → Bool}
    (found : xs.find? p = some y) : (xs ++ [x]).find? p = some y := by
  rw [List.find?_append, found]
  rfl

theorem Moves.revision (moves : Moves H brought r next) : next.revision = r.revision + 1 := by
  cases moves <;> rfl

/-- Decisions and acceptances are only appended. -/
theorem Moves.histories (moves : Moves H brought r next) :
    (next.decisions = r.decisions ∨ ∃ d, next.decisions = r.decisions ++ [d] ∧
      ∀ decision ∈ r.decisions, decision.id ≠ d.id) ∧
    (next.acceptances = r.acceptances ∨ ∃ a, next.acceptances = r.acceptances ++ [a] ∧
      ∀ acceptance ∈ r.acceptances, acceptance.id ≠ a.id) := by
  cases moves with
  | title | contract | activate | cancel => exact ⟨.inl rfl, .inl rfl⟩
  | refresh o serverTime observes live =>
      rw [observes.same]
      exact ⟨.inl rfl, .inl rfl⟩
  | decide o mutation hash observes planned hashed known fresh =>
      rw [observes.same]
      exact ⟨.inr ⟨_, rfl, fresh⟩, .inl rfl⟩
  | accept o mutation hash closureHash observes planned hashed fresh =>
      rw [observes.same]
      exact ⟨.inl rfl, .inr ⟨_, rfl, fresh⟩⟩

theorem Moves.recorded (moves : Moves H brought r next) (recorded : request.recorded r = some known) :
    request.recorded next = some known := by
  obtain ⟨decisions, acceptances⟩ := moves.histories
  cases request with
  | verifyCriterion =>
      obtain ⟨decision, found, rfl⟩ := Option.map_eq_some_iff.mp recorded
      rcases decisions with same | ⟨d, same, _⟩
      · simp only [AssuranceRequest.recorded, same, found, Option.map_some]
      · simp only [AssuranceRequest.recorded, same, find?_concat found, Option.map_some]
  | accept =>
      obtain ⟨acceptance, found, rfl⟩ := Option.map_eq_some_iff.mp recorded
      rcases acceptances with same | ⟨a, same, _⟩
      · simp only [AssuranceRequest.recorded, same, found, Option.map_some]
      · simp only [AssuranceRequest.recorded, same, find?_concat found, Option.map_some]

/-- Each id is recorded at most once. -/
structure RecordedOnce (r : OutcomeRecord) : Prop where
  decisions : (r.decisions.map HumanDecision.id).Nodup
  acceptances : (r.acceptances.map Acceptance.id).Nodup

theorem RecordedOnce.moves (once : RecordedOnce r) (moves : Moves H brought r next) :
    RecordedOnce next := by
  obtain ⟨decisions, acceptances⟩ := moves.histories
  constructor
  · rcases decisions with same | ⟨d, same, fresh⟩
    · exact same ▸ once.decisions
    · exact same ▸ nodup_map_concat once.decisions fresh
  · rcases acceptances with same | ⟨a, same, fresh⟩
    · exact same ▸ once.acceptances
    · exact same ▸ nodup_map_concat once.acceptances fresh

namespace AssuranceRequest

variable {candidate : Candidate} {serverTime : Int}

/-- A request under a recorded id is answered from the record. -/
theorem answer_of_recorded (recorded : request.recorded r = some known)
    (applied : (request.operation candidate serverTime).apply H r = some res) :
    res.fresh = false ∧ request.answer res = request.answerRecorded known := by
  have answered : ∀ hash, res = r.answerRecorded known.1 hash → request.requestHash = hash →
      res.fresh = false ∧ request.answer res = request.answerRecorded known := by
    rintro hash rfl rfl
    unfold OutcomeRecord.answerRecorded answerRecorded
    by_cases same : known.1 = request.requestHash
    · rw [if_pos same, if_pos same]
      refine ⟨rfl, ?_⟩
      simp [answer, recorded]
    · rw [if_neg same, if_neg same]
      exact ⟨rfl, rfl⟩
  cases request with
  | verifyCriterion =>
      obtain ⟨decision, found, rfl⟩ := Option.map_eq_some_iff.mp recorded
      refine answered _ ?_ rfl
      simp only [operation, Operation.apply, OutcomeRecord.reduceOutcomeDecision, found,
        Option.some.injEq] at applied
      exact applied.symm
  | accept =>
      obtain ⟨acceptance, found, rfl⟩ := Option.map_eq_some_iff.mp recorded
      refine answered _ ?_ rfl
      simp only [operation, Operation.apply, OutcomeRecord.reduceOutcomeAcceptance, found,
        Option.some.injEq] at applied
      exact applied.symm

theorem conclude_fresh {current : OutcomeRecord} {verdict : Except FailureReason OutcomeRecord}
    (fresh : (current.conclude verdict).fresh = true) :
    verdict = .ok (current.conclude verdict).record := by
  cases verdict with
  | ok next => rfl
  | error reason => cases fresh

theorem answerRecorded_not_fresh {previousHash requestHash : String} :
    (r.answerRecorded previousHash requestHash).fresh = false := by
  unfold OutcomeRecord.answerRecorded
  split <;> rfl

/-- A fresh decision is appended under a new id at the revision it commits. -/
theorem decision_of_fresh {mutation : DecisionMutation}
    (fresh : (r.reduceOutcomeDecision H mutation).fresh = true) :
    (r.decisions.find? fun decision => decision.id = mutation.id) = none ∧
      ∃ d, (r.reduceOutcomeDecision H mutation).record.decisions = r.decisions ++ [d] ∧
        d.id = mutation.id ∧ d.requestHash = mutation.requestHash ∧
        d.decidedRevision = (r.reduceOutcomeDecision H mutation).record.revision := by
  unfold OutcomeRecord.reduceOutcomeDecision at fresh ⊢
  split at fresh
  · rw [answerRecorded_not_fresh] at fresh
    cases fresh
  case h_2 absent =>
    split at fresh
    · cases fresh
    case isFalse expected =>
      rw [if_neg expected]
      obtain ⟨o, observed, decided⟩ := OutcomeRecord.bind_eq_ok (conclude_fresh fresh)
      obtain ⟨hash, _, _, _, same⟩ := OutcomeRecord.decide_eq_ok decided
      have decisions : o.decisions = r.decisions := by
        rw [(OutcomeRecord.observes_of_observe observed).same]
      refine ⟨absent, OutcomeRecord.decisionOf mutation o hash, ?_, rfl, rfl, ?_⟩
      · rw [same, decisions]
      · rw [same]
        rfl

theorem acceptance_of_fresh {mutation : AcceptanceMutation}
    (fresh : (r.reduceOutcomeAcceptance H mutation).fresh = true) :
    (r.acceptances.find? fun acceptance => acceptance.id = mutation.id) = none ∧
      ∃ a, (r.reduceOutcomeAcceptance H mutation).record.acceptances = r.acceptances ++ [a] ∧
        a.id = mutation.id ∧ a.requestHash = mutation.requestHash ∧
        a.acceptedRevision = (r.reduceOutcomeAcceptance H mutation).record.revision := by
  unfold OutcomeRecord.reduceOutcomeAcceptance at fresh ⊢
  split at fresh
  · rw [answerRecorded_not_fresh] at fresh
    cases fresh
  case h_2 absent =>
    split at fresh
    · cases fresh
    case isFalse expected =>
      rw [if_neg expected]
      obtain ⟨o, observed, accepted⟩ := OutcomeRecord.bind_eq_ok (conclude_fresh fresh)
      obtain ⟨hash, closureHash, _, _, same⟩ := OutcomeRecord.accept_eq_ok accepted
      have acceptances : o.acceptances = r.acceptances := by
        rw [(OutcomeRecord.observes_of_observe observed).same]
      refine ⟨absent, OutcomeRecord.acceptanceOf mutation o hash closureHash, ?_, rfl, rfl, ?_⟩
      · rw [same, acceptances]
      · rw [same]
        rfl

theorem find?_appended {α : Type*} {xs : List α} {x : α} {p : α → Bool}
    (absent : xs.find? p = none) (holds : p x = true) : (xs ++ [x]).find? p = some x := by
  simp [List.find?_append, absent, holds]

/-- A fresh update records the request at the revision it commits. -/
theorem recorded_of_fresh (applied : (request.operation candidate serverTime).apply H r = some res)
    (fresh : res.fresh = true) :
    request.recorded res.record = some (request.requestHash, res.record.revision) := by
  cases request with
  | verifyCriterion =>
      cases applied
      obtain ⟨absent, d, appended, id, hash, revision⟩ := decision_of_fresh fresh
      simp only [recorded, appended]
      rw [find?_appended absent (by simp [id]), Option.map_some, hash, revision]
      rfl
  | accept =>
      cases applied
      obtain ⟨absent, a, appended, id, hash, revision⟩ := acceptance_of_fresh fresh
      simp only [recorded, appended]
      rw [find?_appended absent (by simp [id]), Option.map_some, hash, revision]
      rfl

/-- A request that is not recorded yet has no other way to be answered as replayed. -/
theorem operation_applies (candidate : Candidate) (serverTime : Int) (r : OutcomeRecord) :
    ∃ res, (request.operation candidate serverTime).apply H r = some res := by
  cases request <;> exact ⟨_, rfl⟩

end AssuranceRequest

namespace Machine

variable {m n : Machine} {label : Label} {op : Operation} {i : Nat} {client : Client}

@[simp] theorem setPhase_record {phase : ClientPhase} :
    (m.setPhase i client phase).record = m.record := rfl

@[simp] theorem setPhase_commits {phase : ClientPhase} :
    (m.setPhase i client phase).commits = m.commits := rfl

/-- An operation commits exactly if it is a fresh update that the repository accepts. -/
theorem commit_cases (m : Machine) (accepts : OutcomeRecord → Bool) (op : Operation)
    (res : Result) :
    m.commit accepts op res = m ∨ res.fresh = true ∧ accepts res.record = true ∧
      m.commit accepts op res =
        { m with record := res.record, commits := op.expectedRevision :: m.commits } := by
  unfold commit
  split
  case isTrue both =>
    obtain ⟨fresh, accepted⟩ := Bool.and_eq_true_iff.mp both
    exact .inr ⟨fresh, accepted, rfl⟩
  case isFalse => exact .inl rfl

/-- The store after a step: unchanged, or one accepted fresh update further. -/
structure Commits (H : Digests) (accepts : OutcomeRecord → Bool) (m n : Machine)
    (op : Operation) (res : Result) : Prop where
  applied : op.apply H m.record = some res
  fresh : res.fresh = true
  accepted : accepts res.record = true
  record : n.record = res.record
  commits : n.commits = op.expectedRevision :: m.commits

theorem commits_of_commit {res : Result} (applied : op.apply H m.record = some res)
    (record : n.record = (m.commit accepts op res).record)
    (commits : n.commits = (m.commit accepts op res).commits) :
    n.record = m.record ∧ n.commits = m.commits ∨ ∃ op res, Commits H accepts m n op res := by
  rcases m.commit_cases accepts op res with same | ⟨fresh, accepted, same⟩
  · exact .inl (by simp [record, commits, same])
  · exact .inr ⟨op, res, applied, fresh, accepted, by simp [record, same], by simp [commits, same]⟩

theorem step_store (taken : step H accepts m label = some n) :
    n.record = m.record ∧ n.commits = m.commits ∨ ∃ op res, Commits H accepts m n op res := by
  cases label with
  | mutate op =>
      simp only [step, Option.bind_eq_bind, Option.bind_eq_some_iff, Option.guard_eq_some',
        Option.pure_def, Option.some.injEq] at taken
      obtain ⟨_, _, res, applied, rfl⟩ := taken
      exact commits_of_commit applied rfl rfl
  | send request =>
      cases taken
      exact .inl ⟨rfl, rfl⟩
  | read i =>
      simp only [step, Option.bind_eq_bind, Option.bind_eq_some_iff, Option.guard_eq_some'] at taken
      obtain ⟨client, _, _, _, rest⟩ := taken
      split at rest
      · cases rest
        exact .inl ⟨rfl, rfl⟩
      · split at rest <;> cases rest <;> exact .inl ⟨rfl, rfl⟩
  | observe i candidate serverTime =>
      simp only [step, Option.bind_eq_bind, Option.bind_eq_some_iff, Option.guard_eq_some'] at taken
      obtain ⟨client, _, _, _, rest⟩ := taken
      split at rest <;> cases rest <;> exact .inl ⟨rfl, rfl⟩
  | decide i =>
      simp only [step, Option.bind_eq_bind, Option.bind_eq_some_iff] at taken
      obtain ⟨client, _, rest⟩ := taken
      split at rest
      · split at rest
        · cases rest
          exact .inl ⟨rfl, rfl⟩
        · obtain ⟨res, applied, same⟩ := Option.bind_eq_some_iff.mp rest
          cases same
          exact commits_of_commit applied rfl rfl
      · cases rest

theorem Commits.moves {res : Result} (commits : Commits H accepts m n op res) :
    op.expectedRevision = m.record.revision ∧ Moves H op.projections m.record n.record := by
  have fresh := commits.fresh
  simp only [Result.fresh, Bool.and_eq_true, decide_eq_true_eq, Bool.not_eq_true'] at fresh
  rw [commits.record]
  rcases Operation.settles commits.applied with ⟨_, _, expected, moves⟩ | ⟨other | replayed, _⟩
  · exact ⟨expected, moves⟩
  · exact absurd fresh.1 other
  · exact absurd replayed (by simp [fresh.2])

/-- The bookkeeping of the store since `initial`. -/
structure Counted (accepts : OutcomeRecord → Bool) (initial : OutcomeRecord) (m : Machine) :
    Prop where
  revision : m.record.revision = initial.revision + m.commits.length
  before : ∀ expected ∈ m.commits, expected < m.record.revision
  unique : m.commits.Nodup
  once : RecordedOnce m.record
  accepted : accepts m.record = true

theorem Counted.step {initial : OutcomeRecord} (counted : Counted accepts initial m)
    (taken : step H accepts m label = some n) : Counted accepts initial n := by
  rcases step_store taken with ⟨record, commits⟩ | ⟨op, res, committed⟩
  · exact ⟨by rw [record, commits, counted.revision], by rw [record, commits]; exact counted.before,
      commits ▸ counted.unique, record ▸ counted.once, record ▸ counted.accepted⟩
  · obtain ⟨expected, moves⟩ := committed.moves
    refine ⟨?_, fun other mem => ?_, ?_, counted.once.moves moves, ?_⟩
    · rw [moves.revision, counted.revision, committed.commits, List.length_cons, Nat.add_assoc]
    · rw [committed.commits, expected] at mem
      rw [moves.revision]
      rcases List.mem_cons.mp mem with rfl | old
      · exact Nat.lt_succ_self _
      · exact Nat.lt_succ_of_lt (counted.before other old)
    · rw [committed.commits, expected]
      exact List.nodup_cons.mpr
        ⟨fun mem => Nat.lt_irrefl _ (counted.before _ mem), counted.unique⟩
    · rw [committed.record]
      exact committed.accepted

theorem recorded_of_reaches {ok : Machine → Label → Prop}
    (run : Reaches (step H accepts) ok m n) (recorded : request.recorded m.record = some known) :
    request.recorded n.record = some known := by
  refine run.invariant (P := fun x => request.recorded x.record = some known) recorded
    fun x label y here _ taken => ?_
  rcases step_store taken with ⟨record, _⟩ | ⟨op, res, committed⟩
  · rwa [record]
  · exact committed.moves.2.recorded here

theorem read_recorded (found : m.clients[i]? = some client) (reading : client.phase = .reading)
    (accepted : accepts m.record = true) (recorded : client.request.recorded m.record = some known) :
    step H accepts m (.read i) =
      some (m.setPhase i client (.answered (client.request.answerRecorded known))) := by
  simp [step, found, reading, accepted, recorded]

theorem decide_recorded {candidate : Candidate} {serverTime : Int}
    (found : m.clients[i]? = some client) (deciding : client.phase = .deciding candidate serverTime)
    (accepted : accepts m.record = true) (recorded : client.request.recorded m.record = some known) :
    step H accepts m (.decide i) =
      some (m.setPhase i client (.answered (client.request.answerRecorded known))) := by
  obtain ⟨res, applied⟩ : ∃ res,
      (client.request.operation candidate serverTime).apply H m.record = some res :=
    AssuranceRequest.operation_applies candidate serverTime m.record
  obtain ⟨stale, answer⟩ := AssuranceRequest.answer_of_recorded recorded applied
  simp [step, found, deciding, accepted, applied, conclude, commit, stale, answer]

/-- A request that changes the record is answered with the revision it records. -/
theorem decide_commits {candidate : Candidate} {serverTime : Int}
    (found : m.clients[i]? = some client) (deciding : client.phase = .deciding candidate serverTime)
    (taken : step H accepts m (.decide i) = some n) (changed : n.record ≠ m.record) :
    n.clients[i]? = some { client with phase := .answered (.receipt false n.record.revision) } ∧
      client.request.recorded n.record = some (client.request.requestHash, n.record.revision) := by
  simp only [step, Option.bind_eq_bind, found, Option.bind_some, deciding] at taken
  split at taken
  · cases taken
    exact absurd rfl changed
  · obtain ⟨res, applied, same⟩ := Option.bind_eq_some_iff.mp taken
    cases same
    have inside : i < m.clients.length := (List.getElem?_eq_some_iff.mp found).1
    rcases m.commit_cases accepts (client.request.operation candidate serverTime) res with
      unchanged | ⟨fresh, accepted, committed⟩
    · refine absurd ?_ changed
      simp [conclude, unchanged]
    · have recorded := AssuranceRequest.recorded_of_fresh applied fresh
      have kind := fresh
      simp only [Result.fresh, Bool.and_eq_true, decide_eq_true_eq, Bool.not_eq_true'] at kind
      refine ⟨?_, ?_⟩
      · simp [conclude, committed, setPhase, fresh, accepted, AssuranceRequest.answer, kind, inside]
      · simpa [conclude, committed] using recorded

/-- Optimistic concurrency and idempotent assurance in one state of a run. -/
structure Optimistic (H : Digests) (accepts : OutcomeRecord → Bool) (initial : OutcomeRecord)
    (m : Machine) : Prop where
  revision : m.record.revision = initial.revision + m.commits.length
  /-- No two committed mutations expected the same revision. -/
  oneWinner : m.commits.Nodup
  unchanged : ∀ op res, op.apply H m.record = some res → res.kind ≠ .updated ∨ res.replayed = true →
    res.record = m.record ∧ m.commit accepts op res = m
  once : RecordedOnce m.record
  /-- What a request recorded answers every later request under its id. -/
  replayed : ∀ request known, AssuranceRequest.recorded m.record request = some known →
    ∀ n, Reaches (step H accepts) Any m n → request.recorded n.record = some known ∧
      ∀ i client, n.clients[i]? = some client → client.request = request →
        (client.phase = .reading → step H accepts n (.read i) =
          some (n.setPhase i client (.answered (request.answerRecorded known)))) ∧
        ∀ candidate serverTime, client.phase = .deciding candidate serverTime →
          step H accepts n (.decide i) =
            some (n.setPhase i client (.answered (request.answerRecorded known)))
  committed : ∀ i client candidate serverTime n, m.clients[i]? = some client →
    client.phase = .deciding candidate serverTime → step H accepts m (.decide i) = some n →
    n.record ≠ m.record →
    n.clients[i]? = some { client with phase := .answered (.receipt false n.record.revision) } ∧
      client.request.recorded n.record = some (client.request.requestHash, n.record.revision)

theorem optimistic_concurrency {initial : OutcomeRecord} (created : Created initial)
    (accepted : accepts initial = true)
    (run : Reaches (step H accepts) Any { record := initial } m) :
    Optimistic H accepts initial m := by
  have rules := created.rules (H := H)
  have start : Counted accepts initial { record := initial } :=
    ⟨rfl, fun _ mem => absurd mem List.not_mem_nil, List.nodup_nil,
      ⟨rules.decisionIds, rules.acceptanceIds⟩, accepted⟩
  have counted : ∀ {x}, Reaches (step H accepts) Any { record := initial } x →
      Counted accepts initial x := fun run =>
    run.invariant start fun _ _ _ known _ taken => known.step taken
  refine ⟨(counted run).revision, (counted run).unique, fun op res applied stale => ?_,
    (counted run).once, fun request known recorded n later => ?_, ?_⟩
  · have unchanged : res.fresh = false := by
      rcases stale with other | replayed <;> simp [Result.fresh, *]
    refine ⟨?_, by simp [commit, unchanged]⟩
    rcases Operation.settles applied with ⟨kind, fresh, _⟩ | ⟨_, same⟩
    · rcases stale with other | replayed
      · exact absurd kind other
      · exact absurd replayed (by simp [fresh])
    · exact same
  · have still := recorded_of_reaches later recorded
    have accepted := (counted (run.trans later)).accepted
    refine ⟨still, fun i client found same => ?_⟩
    subst same
    exact ⟨fun reading => read_recorded found reading accepted still,
      fun candidate serverTime deciding => decide_recorded found deciding accepted still⟩
  · exact fun i client candidate serverTime n found deciding taken changed =>
      decide_commits found deciding taken changed

def rejectionRequest : AssuranceRequest :=
  .verifyCriterion "owner" 3 "d" "request" "c" .rejected "plan" "set" (some "no proof")

/-- The request is sent twice before its first answer. -/
def retried : List Label :=
  [.mutate (.link 1 "c" ⟨"card", 5, "board"⟩ 1), .mutate (.activate 2 2), .send rejectionRequest,
    .send rejectionRequest, .read 0, .read 1, .observe 0 (some ⟨[Operation.cardProjection], []⟩) 3,
    .observe 1 (some ⟨[Operation.cardProjection], []⟩) 3, .decide 0, .decide 1]

theorem optimistic_concurrency_retried : ∃ m : Machine,
    (m.clients.map Client.phase = [.answered (.receipt false 4), .answered (.receipt true 4)] ∧
      m.commits = [3, 2, 1]) ∧
      Optimistic Operation.constantDigests (fun _ => true) Operation.exampleDraft m := by
  obtain ⟨m, run, reached⟩ := Reaches.exists_of_exec
    (step Operation.constantDigests fun _ => true) Any { record := Operation.exampleDraft }
    (P := fun m : Machine => m.clients.map Client.phase =
      [.answered (.receipt false 4), .answered (.receipt true 4)] ∧ m.commits = [3, 2, 1])
    retried (by decide) (by decide)
  exact ⟨m, reached, optimistic_concurrency Operation.exampleDraft_created rfl run⟩

end Machine
end Outcomes
