import Rye.Foundation.Runs
import Rye.Replication.MasterLog

/-!
# The analyzer and the appliers

The analyzer reads the log of the master from `required_lsa` on, keeps a table of the
transactions whose first record it has read, and queues a committed transaction for the applier
that its first replication record names.  An applier reads the log again from there to the
commit, and stores the changes together with its `committed_lsa`.

The agents are threads.  One step below is what an agent does while it holds a lock, between two
waits, or in one request to the server of the slave; the steps of different agents interleave
freely.
-/

namespace Rye.Replication

/-- An entry of the analyzer's table.  `repl_item` and `applier_index` are set together. -/
structure Tran where
  tranid : Int
  assigned : Option (ReplItem × Nat)
  tranStartLsa : Nat
  tranEndLsa : Nat
  replStartLsa : Nat
deriving DecidableEq, Repr

abbrev TranTable := List Tran

def cirpFindTran (table : TranTable) (tranid : Int) : Option Tran :=
  table.find? fun tran => tran.tranid == tranid

def updateTran (table : TranTable) (tranid : Int) (f : Tran -> Tran) : TranTable :=
  table.map fun tran => if tran.tranid = tranid then f tran else tran

def cirpFreeTranByTranid (table : TranTable) (tranid : Int) : TranTable :=
  table.filter fun tran => tran.tranid != tranid

/-- The table with a new entry whose first record is at the LSA. -/
def cirpAddTran (table : TranTable) (tranid : Int) (lsa : Nat) : TranTable :=
  match cirpFindTran table tranid with
  | some _ => updateTran table tranid fun tran => { tran with tranStartLsa := lsa }
  | none => table ++ [⟨tranid, none, lsa, 0, 0⟩]

/-- Only the first replication record of a transaction is noted. -/
def cirpSetReplLog (cfg : Config) (table : TranTable) (type : RecType) (tranid : Int) (lsa : Nat) :
    TranTable :=
  updateTran table tranid fun tran =>
    if tran.replStartLsa ≠ 0 then tran
    else { tran with assigned := cfg.assign type, replStartLsa := lsa }

def cirpFindCommittedTran (applierIndex lowestCommittedLsa : Nat) (tran : Tran) : Bool :=
  decide (0 < tran.tranid) && tran.assigned.any (fun item => item.2 == applierIndex) &&
    tran.tranEndLsa != 0 && decide (tran.tranEndLsa <= lowestCommittedLsa)

def cirpFindLowestTranStartLsa (table : TranTable) : Nat :=
  table.foldl (fun lowest tran =>
    if lowest = 0 ∨ tran.tranStartLsa < lowest then tran.tranStartLsa else lowest) 0

/-!
## The agents
-/

/-- Where the analyzer is: in the loop over the records, or with a commit record at one of the
three waits of `cirp_anlz_assign_repl_item`. -/
inductive AnalyzerTask where
  | reading
  | draining (item : QItem) (laIndex : Nat)
  | pushing (item : QItem) (laIndex : Nat) (waitTranCommit : Bool)
  | waiting (item : QItem) (laIndex : Nat)
deriving DecidableEq, Repr

/-- `finalLsa` is the record to read next, and `startLsa` where the analyzer has started. -/
structure Analyzer where
  tranTable : TranTable
  requiredLsa : Nat
  currentLsa : Nat
  finalLsa : Nat
  startLsa : Nat
  task : AnalyzerTask

/-- Where an applier is with the item it has popped; `flushed` is between the commit on the slave
and the update of `ct`, and `published` before the item is dismissed. -/
inductive ApplierTask where
  | idle
  | popped (item : QItem)
  | applying (item : QItem)
  | flushed (commitLsa : Nat)
  | published
deriving DecidableEq, Repr

structure Applier where
  logq : TranQ
  committedLsa : Nat
  task : ApplierTask

structure Applied where
  trid : Int
  rows : List Nat
  commitLsa : Nat
deriving DecidableEq, Repr

/-- The slave: the transactions in the order in which they were committed there, and in the
catalog the `committed_lsa` of each applier and the `required_lsa` of the analyzer. -/
structure Slave where
  applied : List Applied
  committedLsa : Nat -> Nat
  requiredLsa : Nat

structure State where
  analyzer : Analyzer
  appliers : Nat -> Applier
  slave : Slave

/-- The agents after they have connected and read the catalog. -/
def startAgents (slave : Slave) : State where
  analyzer := ⟨[], slave.requiredLsa, slave.requiredLsa, slave.requiredLsa, slave.requiredLsa,
    .reading⟩
  appliers i := ⟨TranQ.empty, slave.committedLsa i, .idle⟩
  slave := slave

/-!
## Reading a record
-/

/-- What is done with a commit record up to the first wait. -/
def cirpAnlzAssignReplItem (analyzer : Analyzer) (tranid : Int) (commitLsa : Nat) : Analyzer :=
  match cirpFindTran analyzer.tranTable tranid with
  | none => analyzer
  | some tran =>
    if tran.replStartLsa = 0 then
      { analyzer with tranTable := cirpFreeTranByTranid analyzer.tranTable tranid }
    else
      match tran.assigned with
      | none => analyzer
      | some (item, laIndex) =>
        let logItem : QItem := ⟨tran.tranid, tran.tranStartLsa, commitLsa, tran.replStartLsa⟩
        { analyzer with
          tranTable := updateTran analyzer.tranTable tranid
            fun tran => { tran with tranEndLsa := commitLsa }
          task :=
            if item.isBlockedItem then .draining logItem laIndex
            else .pushing logItem laIndex false }

/-- The table with an entry for a transaction that begins with the record at `finalLsa`. -/
def addedTran (analyzer : Analyzer) (lrec : LogRecord) : TranTable :=
  if lrec.type ≠ .dummyHaServerState ∧ lrec.trid ≠ logSystemTranid ∧ lrec.prevTranlsa = 0 then
    cirpAddTran analyzer.tranTable lrec.trid analyzer.finalLsa
  else analyzer.tranTable

/-- The analyzer with the record at `finalLsa` read, or nothing when the record is invalid.
`finalLsa` is already at the next record when the analyzer waits with a commit. -/
def cirpAnalyzeLogRecord (cfg : Config) (analyzer : Analyzer) (lrec : LogRecord) :
    Option Analyzer :=
  if lrec.trid = nullTranid ∨ analyzer.finalLsa < lrec.prevTranlsa then none
  else
    let final := analyzer.finalLsa
    let table := addedTran analyzer lrec
    let analyzer := { analyzer with tranTable := table, finalLsa := final + 1 }
    match lrec.type with
    | .replicationData _ | .replicationSchema _ | .dummyUpdateGidBitmap =>
      some { analyzer with tranTable := cirpSetReplLog cfg table lrec.type lrec.trid final }
    | .commit => some (cirpAnlzAssignReplItem analyzer lrec.trid final)
    | .abort => some { analyzer with tranTable := cirpFreeTranByTranid table lrec.trid }
    | .dummyHaServerState | .other => some analyzer

def cirpAnalyzerIsApplierBusy (s : State) (laIndex : Nat) : Bool :=
  !(s.appliers laIndex).logq.isCommittedAndEmpty

def cirpAnlzIsAnyApplierBusy (cfg : Config) (s : State) : Bool :=
  (List.range cfg.numApplier).any fun i =>
    decide (globalApplierIndex <= i) && cirpAnalyzerIsApplierBusy s i

/-- The loop of `applier_main` over the records from the first replication record of a transaction
to its commit: the LSAs of its replication records and the LSA of the commit. -/
def readTran (trid : Int) : List LogRecord -> Nat -> Option (List Nat × Nat)
  | [], _ => none
  | lrec :: rest, lsa =>
    if lrec.trid ≠ trid then readTran trid rest (lsa + 1)
    else if lrec.type.isReplication then
      (readTran trid rest (lsa + 1)).map fun res => (lsa :: res.1, res.2)
    else if lrec.type.isCommit then some ([], lsa)
    else readTran trid rest (lsa + 1)

def applierRead (log : MasterLog) (item : QItem) : Option (List Nat × Nat) :=
  readTran item.trid (log.records.drop (item.replStartLsa - 1)) item.replStartLsa

/-!
## Steps
-/

/-- The steps.  The analyzer fetches the page of the next record, reads a record, passes each of
the three waits, and at any time between two records does a part of `cirp_anlz_log_commit`: it
drops the transactions that applier `i` has committed, computes `required_lsa`, or stores it.  An
applier pops an item or finds its queue empty, looks whether the item has been applied, applies
it, publishes its `committed_lsa`, and dismisses the item.  `crash` is a restart at any point. -/
inductive Label where
  | page
  | analyze
  | drained
  | push
  | committed
  | collect (i : Nat)
  | lowest
  | store
  | pop (i : Nat)
  | clearReplDelay (i : Nat)
  | examine (i : Nat)
  | apply (i : Nat)
  | publish (i : Nat)
  | clear (i : Nat)
  | crash
deriving DecidableEq, Repr

def enabled (cfg : Config) (log : MasterLog) (s : State) : Label -> Bool
  | .page | .analyze => s.analyzer.task == .reading && (log.get s.analyzer.finalLsa).isSome
  | .drained =>
    match s.analyzer.task with
    | .draining _ _ => !cirpAnlzIsAnyApplierBusy cfg s
    | _ => false
  | .push =>
    match s.analyzer.task with
    | .pushing _ laIndex _ => !(s.appliers laIndex).logq.isFull
    | _ => false
  | .committed =>
    match s.analyzer.task with
    | .waiting item laIndex => decide (item.replStartLsa < (s.appliers laIndex).committedLsa)
    | _ => false
  | .collect i => s.analyzer.task == .reading && decide (i < cfg.numApplier)
  | .lowest | .store => s.analyzer.task == .reading
  | .pop i =>
    decide (i < cfg.numApplier) && (s.appliers i).task == .idle && !(s.appliers i).logq.isEmpty
  | .clearReplDelay i =>
    decide (i < cfg.numApplier) && (s.appliers i).task == .idle && (s.appliers i).logq.isEmpty
  | .examine i =>
    decide (i < cfg.numApplier) &&
      match (s.appliers i).task with
      | .popped _ => true
      | _ => false
  | .apply i =>
    decide (i < cfg.numApplier) &&
      match (s.appliers i).task with
      | .applying item => (applierRead log item).isSome
      | _ => false
  | .publish i =>
    decide (i < cfg.numApplier) &&
      match (s.appliers i).task with
      | .flushed _ => true
      | _ => false
  | .clear i => decide (i < cfg.numApplier) && (s.appliers i).task == .published
  | .crash => true

/-- The state with another applier `i`. -/
def State.setApplier (s : State) (i : Nat) (applier : Applier) : State :=
  { s with appliers := Function.update s.appliers i applier }

/-- What `applier_main` does with an item it has popped, up to reading the log. -/
def examine (s : State) (i : Nat) (item : QItem) : State :=
  let applier := s.appliers i
  if item.tranStartLsa = 0 ∨ item.committedLsa = 0 ∨ item.replStartLsa = 0 then
    startAgents s.slave
  else if item.committedLsa <= applier.committedLsa then
    s.setApplier i { applier with logq := applier.logq.clearCommittedItem, task := .idle }
  else s.setApplier i { applier with task := .applying item }

/-- `cirp_appl_commit_transaction` up to the commit on the slave. -/
def cirpApplCommitTransaction (s : State) (i : Nat) (item : QItem) (rows : List Nat)
    (commitLsa : Nat) : State :=
  { s.setApplier i { s.appliers i with task := .flushed commitLsa } with
    slave := { s.slave with
      applied := s.slave.applied ++ [⟨item.trid, rows, commitLsa⟩]
      committedLsa := Function.update s.slave.committedLsa i commitLsa } }

/-- The rest of `cirp_anlz_update_progress_from_appliers`. -/
def updateRequiredLsa (analyzer : Analyzer) : Analyzer :=
  let lowest := cirpFindLowestTranStartLsa analyzer.tranTable
  if lowest = 0 then { analyzer with requiredLsa := analyzer.currentLsa }
  else if analyzer.requiredLsa <= lowest then { analyzer with requiredLsa := lowest }
  else analyzer

def next (cfg : Config) (log : MasterLog) (s : State) : Label -> State
  | .page => { s with analyzer := { s.analyzer with currentLsa := s.analyzer.finalLsa } }
  | .analyze =>
    match log.get s.analyzer.finalLsa with
    | none => s
    | some lrec =>
      match cirpAnalyzeLogRecord cfg s.analyzer lrec with
      | none => startAgents s.slave
      | some analyzer => { s with analyzer := analyzer }
  | .drained =>
    match s.analyzer.task with
    | .draining item laIndex =>
      { s with analyzer := { s.analyzer with task := .pushing item laIndex true } }
    | _ => s
  | .push =>
    match s.analyzer.task with
    | .pushing item laIndex waitTranCommit =>
      match (s.appliers laIndex).logq.push item with
      | none => s
      | some logq =>
        { s.setApplier laIndex { s.appliers laIndex with logq := logq } with
          analyzer := { s.analyzer with
            task := if waitTranCommit then .waiting item laIndex else .reading } }
    | _ => s
  | .committed => { s with analyzer := { s.analyzer with task := .reading } }
  | .collect i =>
    let committedLsa := (s.appliers i).committedLsa
    if committedLsa = 0 then s
    else
      { s with analyzer := { s.analyzer with
        tranTable := s.analyzer.tranTable.filter
          fun tran => !cirpFindCommittedTran i committedLsa tran } }
  | .lowest => { s with analyzer := updateRequiredLsa s.analyzer }
  | .store => { s with slave := { s.slave with requiredLsa := s.analyzer.requiredLsa } }
  | .pop i =>
    match (s.appliers i).logq.pop with
    | none => s
    | some (item, logq) => s.setApplier i { s.appliers i with logq := logq, task := .popped item }
  | .clearReplDelay i =>
    { s.setApplier i
        { s.appliers i with logq := (s.appliers i).logq.clearCommittedItem } with
      slave := { s.slave with
        committedLsa :=
          Function.update s.slave.committedLsa i (s.appliers i).committedLsa } }
  | .examine i =>
    match (s.appliers i).task with
    | .popped item => examine s i item
    | _ => s
  | .apply i =>
    match (s.appliers i).task with
    | .applying item =>
      match applierRead log item with
      | none => s
      | some (rows, commitLsa) => cirpApplCommitTransaction s i item rows commitLsa
    | _ => s
  | .publish i =>
    match (s.appliers i).task with
    | .flushed commitLsa =>
      s.setApplier i { s.appliers i with committedLsa := commitLsa, task := .published }
    | _ => s
  | .clear i =>
    s.setApplier i { s.appliers i with
      logq := (s.appliers i).logq.clearCommittedItem
      task := .idle }
  | .crash => startAgents s.slave

/-!
## Runs

A run also keeps the order in which transactions, named by the LSA of their commit, began to be
applied and were applied.
-/

inductive Event where
  | began (commitLsa : Nat)
  | applied (commitLsa : Nat)
deriving DecidableEq, Repr

structure Run where
  code : State
  events : List Event

/-- What a step that leads to the state adds to the events. -/
def newEvents (s t : State) : Label -> List Event
  | .examine i =>
    match (t.appliers i).task with
    | .applying item => [.began item.committedLsa]
    | _ => []
  | .apply _ => (t.slave.applied.drop s.slave.applied.length).map fun e => .applied e.commitLsa
  | _ => []

def Run.next (cfg : Config) (log : MasterLog) (run : Run) (label : Label) : Run where
  code := Replication.next cfg log run.code label
  events := run.events ++ newEvents run.code (Replication.next cfg log run.code label) label

/-- Replication starts at the first record of the log, with nothing applied. -/
def Run.start : Run where
  code := startAgents ⟨[], fun _ => 0, 1⟩
  events := []

def replication (cfg : Config) (log : MasterLog) : Foundation.System Run Label :=
  .deterministic Run.start (fun run label => enabled cfg log run.code label = true)
    (Run.next cfg log)

end Rye.Replication
