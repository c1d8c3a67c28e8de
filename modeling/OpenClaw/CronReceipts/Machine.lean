import OpenClaw.Lib.SqlTable
import OpenClaw.Lib.Transition

/-!
The `cron_run_receipts` table and the functions of the receipt store that run inside
a write transaction. A function that throws rolls its transaction back, so it is a
partial function from tables to tables. Liveness facts about a foreign owner are
what the operating system answered when they were read.
-/

namespace CronReceipts

inductive Status where
  | running
  | ok
  | error
  | skipped
  | interrupted
  | superseded
  deriving DecidableEq, Repr

structure Row where
  receiptId : String
  storeKey : String
  jobId : String
  configRevision : String := ""
  agentId : String := ""
  requestRunId : Option String := none
  status : Status := .running
  ownerPid : Nat
  ownerStartTime : Option Nat
  startedAtMs : Int
  finishedAtMs : Option Int := none
  errorText : Option String := none
  deriving DecidableEq, Repr

namespace Row

abbrev Running (row : Row) : Prop := row.status = .running

/-- The row of the partial index on the active receipt of a job. -/
abbrev ActiveFor (row : Row) (storeKey jobId : String) : Prop :=
  row.storeKey = storeKey ∧ row.Running ∧ row.jobId = jobId

end Row

/-- `CHECK`, the primary key and `idx_cron_run_receipts_active_job`. -/
def schema : Sql.Schema Row where
  check row := row.status = .running ↔ row.finishedAtMs = none
  apart left right := left.receiptId ≠ right.receiptId ∧
    ¬ (left.Running ∧ right.Running ∧ left.storeKey = right.storeKey ∧ left.jobId = right.jobId)
  symm _ _ apart := ⟨apart.1.symm, fun both => apart.2
    ⟨both.2.1, both.1, both.2.2.1.symm, both.2.2.2.symm⟩⟩

instance : DecidablePred schema.check := fun row =>
  inferInstanceAs (Decidable (row.status = .running ↔ row.finishedAtMs = none))

instance : DecidableRel schema.apart := fun left right =>
  inferInstanceAs (Decidable (left.receiptId ≠ right.receiptId ∧
    ¬ (left.Running ∧ right.Running ∧ left.storeKey = right.storeKey ∧ left.jobId = right.jobId)))

abbrev Table := Sql.Table schema

/-- `CronRunReceiptHandle`. -/
structure Handle where
  agentId : String := ""
  configRevision : String := ""
  jobId : String
  ownerPid : Nat
  ownerStartTime : Option Nat
  receiptId : String
  startedAtMs : Int
  storeKey : String
  deriving DecidableEq, Repr

/-- `CronRunReceiptOwnerObservation`. -/
structure Observation where
  receiptId : String
  ownerPid : Nat
  ownerStartTime : Option Nat
  startedAtMs : Int
  deriving DecidableEq, Repr

/-- `PreparedCronRunReceiptAdjudication`. -/
structure Adjudication where
  storeKey : String
  observed : Option Observation
  observedStale : Bool
  deriving DecidableEq, Repr

/-- `PreparedCronRunReceiptClaim`. -/
structure PreparedClaim extends Adjudication where
  handle : Handle
  requestRunId : Option String
  deriving DecidableEq, Repr

def stuckRunMs : Int := 2 * 60 * 60000

def terminalRetention : Nat := 64

/-- What the operating system says about a pid: `isPidDefinitelyDead` and
`getFileLockProcessStartTime`. -/
structure Liveness where
  definitelyDead : Bool
  startTime : Option Nat
  deriving DecidableEq, Repr

def activeRow (table : Table) (storeKey jobId : String) : Option Row :=
  table.rows.find? fun row => row.ActiveFor storeKey jobId

def sameOwner (left : Row) (right : Observation) : Bool :=
  left.receiptId = right.receiptId && left.ownerPid = right.ownerPid &&
    left.ownerStartTime = right.ownerStartTime && left.startedAtMs = right.startedAtMs

def observeOwner (row : Row) : Observation :=
  ⟨row.receiptId, row.ownerPid, row.ownerStartTime, row.startedAtMs⟩

def receiptHandle (row : Row) : Handle where
  receiptId := row.receiptId
  storeKey := row.storeKey
  jobId := row.jobId
  configRevision := row.configRevision
  agentId := row.agentId
  ownerPid := row.ownerPid
  ownerStartTime := row.ownerStartTime
  startedAtMs := row.startedAtMs

/-- `ownerStale` in the process `pid` whose `locallyOwnedReceipts` are `owned`. -/
def ownerStale (pid : Nat) (owned : List String) (liveness : Liveness) (owner : Observation)
    (nowMs : Int) : Bool :=
  if owner.ownerPid = pid then !owned.contains owner.receiptId
  else if liveness.definitelyDead then true
  else
    match owner.ownerStartTime, liveness.startTime with
    | some recorded, some observed => decide (recorded ≠ observed)
    | _, _ => decide (nowMs - owner.startedAtMs > stuckRunMs)

/-- `validateCurrentJob`: `agent` is the agent the stored job resolves to, and `none`
when the job was removed. -/
def validateCurrentJob (handle : Handle) (agent : Option String) : Bool :=
  agent = some handle.agentId

/-- The newest terminal receipts come first; a terminal receipt has a finish time. -/
def newerReceipt (left right : Row) : Bool :=
  let leftFinish := left.finishedAtMs.getD 0
  let rightFinish := right.finishedAtMs.getD 0
  rightFinish < leftFinish || leftFinish = rightFinish && (right.startedAtMs < left.startedAtMs ||
    left.startedAtMs = right.startedAtMs && right.receiptId ≤ left.receiptId)

def terminalOf (storeKey jobId : String) (row : Row) : Bool :=
  row.storeKey = storeKey && row.jobId = jobId && decide (row.status ≠ .running)

def pruneTerminalReceipts (table : Table) (storeKey jobId : String) : Table :=
  let terminalIds := ((table.rows.filter (terminalOf storeKey jobId)).insertionSort (newerReceipt · ·)
    |>.drop terminalRetention).map (·.receiptId)
  table.delete fun row => terminalOf storeKey jobId row && terminalIds.contains row.receiptId

def interruptedText : String := "cron: job interrupted because owner is unavailable"

/-- The row of a receipt that adjudication interrupts. -/
def Row.interrupt (row : Row) (finishedAtMs : Int) : Row :=
  { row with status := .interrupted, finishedAtMs := some finishedAtMs,
             errorText := some interruptedText }

/-- `adjudicateActiveCronRunReceiptInDatabase`; a conflict is `none`. -/
def adjudicateActive (table : Table) (jobId : String) (prepared : Adjudication)
    (finishedAtMs : Int) : Option Table :=
  match activeRow table prepared.storeKey jobId with
  | none => some table
  | some current =>
      match prepared.observed with
      | none => none
      | some observed =>
          if prepared.observedStale && sameOwner current observed then
            table.update (fun row => row.receiptId = current.receiptId && row.status = .running)
              (·.interrupt finishedAtMs)
          else none

def claimedRow (handle : Handle) (requestRunId : Option String) : Row where
  receiptId := handle.receiptId
  storeKey := handle.storeKey
  jobId := handle.jobId
  configRevision := handle.configRevision
  agentId := handle.agentId
  requestRunId := requestRunId
  ownerPid := handle.ownerPid
  ownerStartTime := handle.ownerStartTime
  startedAtMs := handle.startedAtMs

/-- `claimCronRunReceiptInDatabase`. -/
def claim (table : Table) (prepared : PreparedClaim) (agent : Option String) :
    Option (Handle × Table) := do
  let handle := prepared.handle
  guard (handle.ownerStartTime ≠ none)
  let table ← adjudicateActive table handle.jobId prepared.toAdjudication handle.startedAtMs
  let table := pruneTerminalReceipts table handle.storeKey handle.jobId
  guard (validateCurrentJob handle agent)
  let table ← table.insert (claimedRow handle prepared.requestRunId)
  let claimed ← activeRow table handle.storeKey handle.jobId
  pure (receiptHandle claimed, table)

/-- `assertCronRunReceiptOwnedInDatabase`. -/
def assertOwned (table : Table) (handle : Handle) : Bool :=
  match activeRow table handle.storeKey handle.jobId with
  | none => false
  | some current => current.receiptId = handle.receiptId && current.ownerPid = handle.ownerPid &&
      current.ownerStartTime = handle.ownerStartTime

/-- `assertCronRunReceiptCurrentInDatabase`. -/
def assertCurrent (table : Table) (handle : Handle) (agent : Option String) : Bool :=
  assertOwned table handle && validateCurrentJob handle agent

/-- `activateCronRunReceiptInDatabase`. -/
def activate (table : Table) (handle : Handle) (startedAtMs : Int) (agent : Option String) :
    Option (Handle × Table) := do
  guard (assertCurrent table handle agent)
  let table ← table.update (fun row => row.receiptId = handle.receiptId && row.status = .running)
    ({ · with startedAtMs := startedAtMs })
  pure ({ handle with startedAtMs := startedAtMs }, table)

/-- The row of a receipt that its owner finishes. -/
def Row.finish (row : Row) (status : Status) (finishedAtMs : Int) (error : Option String) : Row :=
  { row with status := status, finishedAtMs := some finishedAtMs, errorText := error }

/-- A terminal status: `Exclude<CronRunReceiptStatus, "running">`. -/
abbrev TerminalStatus := { status : Status // status ≠ .running }

/-- `finishCronRunReceiptInDatabase`. -/
def finish (table : Table) (handle : Handle) (status : TerminalStatus) (finishedAtMs : Int)
    (error : Option String) : Option (Option Row × Table) := do
  let table ← table.update
    (fun row => row.receiptId = handle.receiptId && row.status = .running &&
      row.ownerPid = handle.ownerPid)
    (·.finish status finishedAtMs error)
  let table := pruneTerminalReceipts table handle.storeKey handle.jobId
  pure (table.rows.find? fun row => row.receiptId = handle.receiptId, table)

end CronReceipts

/-!
Gateway processes over one receipt table. A process reads the table and the liveness
of the owner it finds in one step and acts on what it prepared in a later one, so
anything may happen in between. A dead process takes no step. The handles of
activations and finishes are arbitrary: a process may be slow, and may have read the
handle of another process as a recovery candidate.
-/

namespace CronReceipts

/-- A gateway process; `adjudications` and `claims` are what its callers have
prepared and not yet used. -/
structure Process where
  pid : Nat
  startTime : Option Nat
  alive : Bool := true
  locallyOwned : List String := []
  adjudications : List Adjudication := []
  claims : List PreparedClaim := []
  deriving DecidableEq, Repr

structure Machine where
  table : Table := .empty
  processes : List Process := []
  /-- Receipt ids inserted by a committed claim. -/
  claimed : List String := []

/-- What a live process does next. `committed` says whether the transaction around an
operation that did not throw commits. -/
inductive Action where
  | prepareAdjudication (storeKey jobId : String) (nowMs : Int) (liveness : Liveness)
  | prepareClaim (storeKey jobId configRevision agentId : String) (startedAtMs : Int)
      (receiptId : String) (requestRunId : Option String) (liveness : Liveness)
  | adjudicate (index : Nat) (jobId : String) (finishedAtMs : Int) (committed : Bool)
  | claim (index : Nat) (agent : Option String) (committed : Bool)
  | activate (handle : Handle) (startedAtMs : Int) (agent : Option String) (committed : Bool)
  | finish (handle : Handle) (status : TerminalStatus) (finishedAtMs : Int)
      (error : Option String) (committed : Bool)
  /-- `locallyOwnedReceipts.delete` after a finish or a release. -/
  | disown (receiptId : String)
  | crash
  deriving DecidableEq

inductive Label where
  | spawn (pid : Nat) (startTime : Option Nat)
  | act (process : Nat) (action : Action)
  deriving DecidableEq

namespace Machine

/-- `prepareCronRunReceiptAdjudication` in a process. -/
def observe (m : Machine) (p : Process) (storeKey jobId : String) (nowMs : Int)
    (liveness : Liveness) : Adjudication :=
  match activeRow m.table storeKey jobId with
  | none => ⟨storeKey, none, false⟩
  | some row => ⟨storeKey, some (observeOwner row),
      ownerStale p.pid p.locallyOwned liveness (observeOwner row) nowMs⟩

/-- `prepareCronRunReceiptClaim` in a process whose start identity is known. -/
def prepareClaim (m : Machine) (p : Process) (startTime : Nat)
    (storeKey jobId configRevision agentId : String) (startedAtMs : Int) (receiptId : String)
    (requestRunId : Option String) (liveness : Liveness) : PreparedClaim where
  toAdjudication := m.observe p storeKey jobId startedAtMs liveness
  handle :=
    { receiptId, storeKey, jobId, configRevision, agentId, startedAtMs
      ownerPid := p.pid
      ownerStartTime := some startTime }
  requestRunId := requestRunId

def setProcess (m : Machine) (index : Nat) (p : Process) : Machine :=
  { m with processes := m.processes.set index p }

/-- The table after a transaction: unchanged unless it commits. -/
def commit (m : Machine) (committed : Bool) (table : Table) : Machine :=
  if committed then { m with table } else m

/-- The step of a live process. -/
def act (m : Machine) (index : Nat) (p : Process) : Action → Option Machine
  | .prepareAdjudication storeKey jobId nowMs liveness =>
      some (m.setProcess index { p with
        adjudications := p.adjudications ++ [m.observe p storeKey jobId nowMs liveness] })
  | .prepareClaim storeKey jobId configRevision agentId startedAtMs receiptId requestRunId
      liveness =>
      p.startTime.map fun startTime => m.setProcess index { p with
        claims := p.claims ++ [m.prepareClaim p startTime storeKey jobId configRevision agentId
          startedAtMs receiptId requestRunId liveness] }
  | .adjudicate i jobId finishedAtMs committed => do
      let prepared ← p.adjudications[i]?
      let table ← adjudicateActive m.table jobId prepared finishedAtMs
      some (m.commit committed table)
  | .claim i agent committed => do
      let prepared ← p.claims[i]?
      let (handle, table) ← CronReceipts.claim m.table prepared agent
      -- The receipt is held locally even if the transaction around the claim rolls back.
      let m := m.setProcess index { p with locallyOwned := handle.receiptId :: p.locallyOwned }
      some (if committed then { m with table, claimed := handle.receiptId :: m.claimed } else m)
  | .activate handle startedAtMs agent committed => do
      let (_, table) ← CronReceipts.activate m.table handle startedAtMs agent
      some (m.commit committed table)
  | .finish handle status finishedAtMs error committed => do
      let (_, table) ← CronReceipts.finish m.table handle status finishedAtMs error
      some (m.commit committed table)
  | .disown receiptId =>
      some (m.setProcess index { p with locallyOwned := p.locallyOwned.erase receiptId })
  | .crash => some (m.setProcess index { p with alive := false })

def step (m : Machine) : Label → Option Machine
  -- The live processes of one pid namespace have different pids.
  | .spawn pid startTime =>
      if m.processes.any fun p => p.alive && p.pid = pid then none
      else some { m with processes := m.processes ++ [{ pid, startTime }] }
  | .act index action => do
      let p ← m.processes[index]?
      guard p.alive
      m.act index p action

/-- Receipt ids are unique: no claim is taken with the id of an earlier one. -/
def UniqueIds (m : Machine) : Label → Prop
  | .act index (.claim i _ _) =>
      ∀ p ∈ m.processes[index]?, ∀ prepared ∈ p.claims[i]?,
        prepared.handle.receiptId ∉ m.claimed
  | _ => True

instance UniqueIds.decide (m : Machine) : ∀ label, Decidable (UniqueIds m label)
  | .act _ (.claim ..) => inferInstanceAs (Decidable (∀ p ∈ _, ∀ prepared ∈ _, _ ∉ m.claimed))
  | .spawn .. | .act _ (.prepareAdjudication ..) | .act _ (.prepareClaim ..)
  | .act _ (.adjudicate ..) | .act _ (.activate ..) | .act _ (.finish ..) | .act _ (.disown ..)
  | .act _ .crash => isTrue trivial

end Machine
end CronReceipts
