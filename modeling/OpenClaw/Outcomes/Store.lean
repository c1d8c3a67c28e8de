import OpenClaw.Outcomes.Validity

/-!
Clients over one stored record. A mutation is one atomic update of the store. A
verify or accept request reads the record, then the cards, and decides inside an
update of its own; between these steps anything may happen. What the strict
repository accepts for storage is a parameter.
-/

namespace Outcomes

inductive ErrorCode where
  | operationConflict
  | revisionConflict
  | invalidState
  | closureIncomplete
  | capacityExceeded
  | internal
  | owner
  | storage
  deriving DecidableEq

inductive Answer where
  | receipt (replayed : Bool) (committedRevision : Nat)
  | error (code : ErrorCode)
  deriving DecidableEq

/-- A normalized `outcomes.verifyCriterion` or `outcomes.accept` request. -/
inductive AssuranceRequest where
  | verifyCriterion (profileId : String) (expectedRevision : Nat) (decisionId requestHash : String)
      (criterionId : String) (status : DecisionStatus) (planHash evidenceSetHash : String)
      (note : Option String)
  | accept (profileId : String) (expectedRevision : Nat) (acceptanceId requestHash : String)
      (planHash closureHash : String)
  deriving DecidableEq

structure Candidate where
  projections : List WorkProjection
  evidence : List EvidenceRef
  deriving DecidableEq

namespace AssuranceRequest

def requestHash : AssuranceRequest → String
  | verifyCriterion _ _ _ requestHash .. | accept _ _ _ requestHash .. => requestHash

/-- The request hash and the revision recorded under the id of a request. -/
def recorded (record : OutcomeRecord) : AssuranceRequest → Option (String × Nat)
  | verifyCriterion _ _ decisionId .. =>
      (record.decisions.find? fun decision => decision.id = decisionId).map fun decision =>
        (decision.requestHash, decision.decidedRevision)
  | accept _ _ acceptanceId .. =>
      (record.acceptances.find? fun acceptance => acceptance.id = acceptanceId).map
        fun acceptance => (acceptance.requestHash, acceptance.acceptedRevision)

def operation (candidate : Candidate) (serverTime : Int) : AssuranceRequest → Operation
  | verifyCriterion profileId expectedRevision id requestHash criterionId status planHash
      evidenceSetHash note => .verifyCriterion
        { expectedRevision, id, requestHash, criterionId, status, planHash, evidenceSetHash
          profileId, note, serverTime
          projections := some candidate.projections, evidence := some candidate.evidence }
  | accept profileId expectedRevision id requestHash planHash closureHash => .accept
        { expectedRevision, id, requestHash, planHash, closureHash, profileId, serverTime
          projections := some candidate.projections, evidence := some candidate.evidence }

/-- The answer to a request whose id is recorded. -/
def answerRecorded (request : AssuranceRequest) (recorded : String × Nat) : Answer :=
  if recorded.1 = request.requestHash then .receipt true recorded.2 else .error .operationConflict

/-- The error code of a refusal, as `respondAssuranceMutation` maps it. -/
def errorCode (res : Result) : ErrorCode :=
  if res.reason = some .operationConflict then .operationConflict
  else if res.reason = some .revisionConflict ∨ res.kind = .conflict then .revisionConflict
  else if res.reason = some .invalidState then .invalidState
  else if res.reason = some .capacityExceeded then .capacityExceeded
  else .closureIncomplete

def answer (request : AssuranceRequest) (res : Result) : Answer :=
  let committed := if res.replayed then (request.recorded res.record).map Prod.snd
    else some res.record.revision
  match committed with
  | none => .error .internal
  | some revision =>
      if res.kind = .updated then .receipt res.replayed revision else .error (errorCode res)

end AssuranceRequest

def Result.fresh (res : Result) : Bool := res.kind = .updated && !res.replayed

/-- The store after `transactOwned`: a fresh update that the repository accepts. -/
def stored (accepts : OutcomeRecord → Bool) (current : OutcomeRecord) (res : Result) :
    OutcomeRecord :=
  if res.fresh && accepts res.record then res.record else current

inductive ClientPhase where
  | reading
  | observing
  | deciding (candidate : Candidate) (serverTime : Int)
  | answered (answer : Answer)
  deriving DecidableEq

structure Client where
  request : AssuranceRequest
  phase : ClientPhase := .reading
  deriving DecidableEq

structure Machine where
  record : OutcomeRecord
  clients : List Client := []
  /-- The revisions that committed mutations expected, the last one first. -/
  commits : List Nat := []
  deriving DecidableEq

inductive Label where
  /-- Any mutation of the record, whatever its client has read. -/
  | mutate (op : Operation)
  /-- A client sends a request, for the first time or again. -/
  | send (request : AssuranceRequest)
  | read (client : Nat)
  /-- The cards are read; `none` when that fails. -/
  | observe (client : Nat) (candidate : Option Candidate) (serverTime : Int)
  | decide (client : Nat)
  deriving DecidableEq

namespace Machine

def setPhase (m : Machine) (i : Nat) (client : Client) (phase : ClientPhase) : Machine :=
  { m with clients := m.clients.set i { client with phase } }

/-- The store after an operation with this result. -/
def commit (m : Machine) (accepts : OutcomeRecord → Bool) (op : Operation) (res : Result) :
    Machine :=
  if res.fresh && accepts res.record then
    { m with record := res.record, commits := op.expectedRevision :: m.commits }
  else m

/-- The last step of a request: its answer and the store. -/
def conclude (m : Machine) (accepts : OutcomeRecord → Bool) (i : Nat) (client : Client)
    (op : Operation) (res : Result) : Machine :=
  (m.commit accepts op res).setPhase i client (.answered
    (if res.fresh && !accepts res.record then .error .storage else client.request.answer res))

/-- A stored record is parsed again before it is used. -/
def step (H : Digests) (accepts : OutcomeRecord → Bool) (m : Machine) : Label → Option Machine
  | .mutate op => do
      guard (accepts m.record)
      let res ← op.apply H m.record
      pure (m.commit accepts op res)
  | .send request => some { m with clients := m.clients ++ [{ request }] }
  | .read i => do
      let client ← m.clients[i]?
      guard (client.phase = .reading)
      if !accepts m.record then pure (m.setPhase i client (.answered (.error .storage)))
      else
        match client.request.recorded m.record with
        | some recorded =>
            pure (m.setPhase i client (.answered (client.request.answerRecorded recorded)))
        | none => pure (m.setPhase i client .observing)
  | .observe i candidate serverTime => do
      let client ← m.clients[i]?
      guard (client.phase = .observing)
      match candidate with
      | none => pure (m.setPhase i client (.answered (.error .owner)))
      | some candidate => pure (m.setPhase i client (.deciding candidate serverTime))
  | .decide i => do
      let client ← m.clients[i]?
      match client.phase with
      | .deciding candidate serverTime =>
          if !accepts m.record then pure (m.setPhase i client (.answered (.error .storage)))
          else
            let op := client.request.operation candidate serverTime
            let res ← op.apply H m.record
            pure (m.conclude accepts i client op res)
      | _ => none

end Machine
end Outcomes
