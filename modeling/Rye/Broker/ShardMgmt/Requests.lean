import Mathlib.Data.List.Basic

/-!
# Requests of the shard management

The metadata of a sharded database is one `shard_db` row and the tables of the nodes, of the
group ids and of the group migrations.  A request runs in one transaction that begins with
a lock on the `shard_db` row.  The row has three counters: how many migrations, definitions of
schema and garbage collections have been asked for.

A function of a request gives back what it has committed on its own, what it leaves to be
committed, its error if there is one, and how the worker goes on.  Every place in which the
metadata can fail is a field of `Faults`; a transaction that fails has no effect.
-/

namespace Rye.Broker.ShardMgmt

abbrev Name := List Char

inductive NodeStatus where
  | allValid
  | existInvalid
deriving DecidableEq, Repr

inductive AddNodeStatus where
  | complete
  | schemaComplete
deriving DecidableEq, Repr

inductive GroupMigrationStatus where
  | unknown
  | scheduled
  | migratorRun
  | migrationStarted
  | complete
  | failed
deriving DecidableEq, Repr

structure NodeInfo where
  nodeId : Int
  localDbname : Name
  hostIpStr : Name
deriving DecidableEq, Repr

structure ShardNode where
  info : NodeInfo
  status : AddNodeStatus
deriving DecidableEq, Repr

structure GroupidInfo where
  gid : Nat
  nodeid : Int
deriving DecidableEq, Repr

structure GroupMigration where
  groupid : Nat
  srcNodeid : Int
  destNodeid : Int
  status : GroupMigrationStatus
deriving DecidableEq, Repr

/-- The metadata: the columns of the `shard_db` row and the other tables. -/
structure MetaDb where
  globalDbname : Name
  gidInfoLastVer : Nat
  nodeInfoLastVer : Nat
  migReqCount : Int
  ddlReqCount : Int
  gcReqCount : Int
  nodeStatus : NodeStatus
  nodes : List ShardNode
  groupids : List GroupidInfo
  migrations : List GroupMigration
deriving DecidableEq, Repr

def getNextVersion (db : MetaDb) : Nat :=
  max db.gidInfoLastVer db.nodeInfoLastVer + 1

inductive BrError where
  | metadb
  | dbnameMismatched
  | nodeAddInProgress
  | nodeInfoExist
  | nodeAddInvalidSrcNode
  | schemaMigrationFail
  | globalTableMigrationFail
  | migrationInvalidNodeid
  | rebalanceRunning
  | requestTimeout
  | noMoreMemory
  | nodeInUse
  | nodeInfoNotExist
  | shardInfoNotAvailable
deriving DecidableEq, Repr

inductive ThrFuncRes where
  | complete
  | completeAndWaitNext
  | needQueueing
deriving DecidableEq, Repr

structure Faults where
  connect : Bool
  sync : Bool
  statement : Bool
  commit : Bool
  /-- A statement with which the function itself takes back what it did before. -/
  correction : Bool
  correctionCommit : Bool
  memory : Bool
deriving DecidableEq, Repr

def Faults.none : Faults :=
  ⟨false, false, false, false, false, false, false⟩

structure FuncResult where
  committed : MetaDb
  work : MetaDb
  res : Option BrError
  thrFuncRes : ThrFuncRes

def FuncResult.failed (db : MetaDb) (error : BrError) : FuncResult :=
  { committed := db, work := db, res := some error, thrFuncRes := .complete }

def FuncResult.succeeded (db work : MetaDb) (thrFuncRes : ThrFuncRes) : FuncResult :=
  { committed := db, work, res := none, thrFuncRes }

/-!
## Migrations
-/

structure MigrationArg where
  migGroupid : Nat
  destNodeid : Int
  timeoutSec : Int
deriving DecidableEq, Repr

def isExpiredRequest (now requestTime timeoutSec : Int) : Bool :=
  decide (timeoutSec > 0) && decide (now - requestTime > timeoutSec)

/-- The table is an array in the order of the group ids, which start with 1. -/
def findGroupidInfo (groupids : List GroupidInfo) (groupid : Nat) : Option GroupidInfo :=
  match groupid with
  | 0 => none
  | index + 1 => groupids[index]?.filter fun info => info.gid == groupid

def isExistingNodeid (nodes : List ShardNode) (nodeid : Int) : Bool :=
  nodes.any fun node => node.info.nodeId == nodeid

/-- An update of the rows that are met; it is an error if there are none. -/
def updateRows {R : Type} (met : R -> Bool) (change : R -> R) (rows : List R) :
    Option (List R) :=
  if rows.any met = true then some (rows.map fun row => if met row = true then change row else row)
  else none

def migrationStartWork (db : MetaDb) (groupid : Nat) (srcNodeid destNodeid : Int) :
    Option MetaDb :=
  (updateRows (fun row : GroupMigration => row.groupid == groupid && row.srcNodeid == srcNodeid &&
      row.destNodeid == destNodeid && row.status == .migratorRun)
    (fun row => { row with status := .migrationStarted }) db.migrations).map fun migrations =>
      { db with migrations, migReqCount := db.migReqCount + 1 }

def shdMgMigrationStart (db : MetaDb) (arg : MigrationArg) (requestTime now : Int)
    (faults : Faults) : FuncResult :=
  if db.ddlReqCount = 0 ∧ db.gcReqCount = 0 then
    let srcNodeid := ((findGroupidInfo db.groupids arg.migGroupid).map GroupidInfo.nodeid).getD 0
    if srcNodeid = 0 ∨ srcNodeid = arg.destNodeid ∨
        isExistingNodeid db.nodes arg.destNodeid = false then
      .failed db .migrationInvalidNodeid
    else
      match if faults.statement = true then none
        else migrationStartWork db arg.migGroupid srcNodeid arg.destNodeid with
      | none => .failed db .metadb
      | some work => .succeeded db work .completeAndWaitNext
  else if isExpiredRequest now requestTime arg.timeoutSec = true then
    .failed db .requestTimeout
  else .succeeded db db .needQueueing

/-- The statements of the end of a migration.  With the version 0 the migration has failed. -/
def migrationEndWork (db : MetaDb) (arg : MigrationArg) (nextGidVer : Nat) : Option MetaDb :=
  if nextGidVer > 0 then
    match updateRows
        (fun row : GroupMigration =>
          row.groupid == arg.migGroupid && row.status == .migrationStarted)
        (fun row => { row with status := .complete }) db.migrations,
      updateRows (fun info : GroupidInfo => info.gid == arg.migGroupid)
        (fun info => { info with nodeid := arg.destNodeid }) db.groupids with
    | some migrations, some groupids =>
      some { db with
        migReqCount := db.migReqCount - 1
        migrations
        groupids
        gidInfoLastVer := nextGidVer }
    | _, _ => none
  else
    (updateRows (fun row : GroupMigration => row.groupid == arg.migGroupid)
      (fun row => { row with status := .failed }) db.migrations).map fun migrations =>
        { db with migReqCount := db.migReqCount - 1, migrations }

/-- An end that fails is corrected at once: the migration is set to failed and committed. -/
def shdMgMigrationEndInternal (db : MetaDb) (arg : MigrationArg) (nextGidVer : Nat)
    (faults : Faults) : FuncResult :=
  match if faults.statement = true then none else migrationEndWork db arg nextGidVer with
  | some work => .succeeded db work .complete
  | none =>
    if nextGidVer > 0 then
      match if faults.correction = true then none else migrationEndWork db arg 0 with
      | some work => .failed (if faults.correctionCommit = true then db else work) .metadb
      | none => .failed db .metadb
    else .failed db .metadb

def shdMgMigrationEnd (db : MetaDb) (arg : MigrationArg) (faults : Faults) : FuncResult :=
  shdMgMigrationEndInternal db arg (getNextVersion db) faults

def shdMgMigrationFail (db : MetaDb) (arg : MigrationArg) (faults : Faults) : FuncResult :=
  shdMgMigrationEndInternal db arg 0 faults

/-!
## Definitions of schema and garbage collections
-/

def decrDdlReqCount (db : MetaDb) : MetaDb :=
  { db with ddlReqCount := db.ddlReqCount - 1 }

def shdMgDdlEndInternal (db : MetaDb) (faults : Faults) : FuncResult :=
  if faults.statement = true then .failed db .metadb
  else .succeeded db (decrDdlReqCount db) .complete

/-- The request is counted when it comes first, also if it has to wait for migrations.  The
counter is taken back and committed if the time is over at a retry. -/
def shdMgDdlStart (db : MetaDb) (timeoutSec : Int) (isRetry : Bool) (requestTime now : Int)
    (faults : Faults) : FuncResult :=
  if db.nodeStatus ≠ .allValid then .failed db .nodeAddInProgress
  else
    let thrFuncRes : ThrFuncRes :=
      if db.migReqCount > 0 then .needQueueing else .completeAndWaitNext
    if isRetry = false then
      if faults.statement = true then .failed db .metadb
      else .succeeded db { db with ddlReqCount := db.ddlReqCount + 1 } thrFuncRes
    else if isExpiredRequest now requestTime timeoutSec = true then
      .failed (if faults.correction = true ∨ faults.correctionCommit = true then db
        else decrDdlReqCount db) .requestTimeout
    else .succeeded db db thrFuncRes

def shdMgGcStart (db : MetaDb) (faults : Faults) : FuncResult :=
  if db.nodeStatus ≠ .allValid then .failed db .nodeAddInProgress
  else if db.migReqCount > 0 then .failed db .rebalanceRunning
  else if faults.statement = true then .failed db .metadb
  else .succeeded db { db with gcReqCount := db.gcReqCount + 1 } .completeAndWaitNext

def shdMgGcEndInternal (db : MetaDb) (faults : Faults) : FuncResult :=
  if faults.statement = true then .failed db .metadb
  else .succeeded db { db with gcReqCount := db.gcReqCount - 1 } .complete

/-!
## Additions of nodes

A node that does not join an existing one gets the schema and the global tables of the node
with the least id.  Each copy runs after a commit, without a lock, while the status in
the `shard_db` row says that there is an invalid node.
-/

inductive CopyPhase where
  | schema
  | globalTable
deriving DecidableEq, Repr

structure NodeAdd where
  addNode : NodeInfo
  phase : CopyPhase
deriving DecidableEq, Repr

def findMinNodeId (nodes : List ShardNode) : Int :=
  nodes.foldl (fun minNodeid node =>
      if minNodeid = 0 ∨ node.info.nodeId < minNodeid then node.info.nodeId else minNodeid) 0

def checkRebalanceJob (db : MetaDb) : Bool :=
  db.migrations.any fun row =>
    decide (row.srcNodeid > 0) && row.status != .complete && row.status != .failed

def insertShardNodeTable (db : MetaDb) (node : NodeInfo) (status : AddNodeStatus) : MetaDb :=
  { db with
    nodes := db.nodes ++ [⟨node, status⟩]
    nodeInfoLastVer := getNextVersion db }

/-- How a copy ends: the migrator is not started, or it exits with an error. -/
inductive CopyEnd where
  | copied
  | notLaunched
  | exited
deriving DecidableEq, Repr

def CopyEnd.error (phase : CopyPhase) : CopyEnd -> BrError
  | .copied => .metadb
  | .exited => .schemaMigrationFail
  | .notLaunched =>
    match phase with
    | .schema => .schemaMigrationFail
    | .globalTable => .globalTableMigrationFail

inductive NodeAddResult where
  | finished (result : FuncResult)
  | copying (db : MetaDb) (nodeAdd : NodeAdd)

def shdMgNodeAdd (db : MetaDb) (addNode : NodeInfo) (faults : Faults) : NodeAddResult :=
  let minNodeid := findMinNodeId db.nodes
  if db.nodeStatus ≠ .allValid then .finished (.failed db .nodeAddInProgress)
  else if (db.nodes.any fun node => node.info == addNode) = true then
    .finished (.failed db .nodeInfoExist)
  else if minNodeid > addNode.nodeId then .finished (.failed db .nodeAddInvalidSrcNode)
  else if faults.statement = true then .finished (.failed db .metadb)
  else if checkRebalanceJob db = true then .finished (.failed db .rebalanceRunning)
  else if isExistingNodeid db.nodes addNode.nodeId = true ∨ minNodeid = 0 then
    .finished (.succeeded db (insertShardNodeTable db addNode .complete) .complete)
  else if faults.commit = true then .finished (.failed db .metadb)
  else .copying { db with nodeStatus := .existInvalid } ⟨addNode, .schema⟩

/-- The node is taken away again if it had been inserted, and the status is restored. -/
def nodeAddFail (db : MetaDb) (nodeAdd : NodeAdd) (error : BrError) (faults : Faults) :
    FuncResult :=
  let met := fun node : ShardNode => node.info == nodeAdd.addNode
  let deleted : Option MetaDb :=
    match nodeAdd.phase with
    | .schema => some db
    | .globalTable =>
      if db.nodes.any met = true then
        some { db with
          nodes := db.nodes.filter fun node => !met node
          nodeInfoLastVer := getNextVersion db }
      else none
  match if faults.correction = true then none else deleted with
  | none => .failed db error
  | some work =>
    .failed (if faults.correctionCommit = true then db
      else { work with nodeStatus := .allValid }) error

def nodeAddCopied (db : MetaDb) (nodeAdd : NodeAdd) (copyEnd : CopyEnd) (faults : Faults) :
    NodeAddResult :=
  let error := copyEnd.error nodeAdd.phase
  if copyEnd ≠ .copied ∨ faults.sync = true ∨ faults.statement = true then
    .finished (nodeAddFail db nodeAdd error faults)
  else
    match nodeAdd.phase with
    | .schema =>
      if faults.commit = true then .finished (nodeAddFail db nodeAdd error faults)
      else .copying (insertShardNodeTable db nodeAdd.addNode .schemaComplete)
        { nodeAdd with phase := .globalTable }
    | .globalTable =>
      match updateRows (fun node : ShardNode => node.info == nodeAdd.addNode)
          (fun node => { node with status := .complete }) db.nodes with
      | none => .finished (nodeAddFail db nodeAdd error faults)
      | some nodes => .finished (.succeeded db { db with nodes, nodeStatus := .allValid } .complete)

end Rye.Broker.ShardMgmt
