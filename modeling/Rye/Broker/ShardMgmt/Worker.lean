import Rye.Broker.ShardMgmt.Requests
import Rye.Foundation.Runs

/-!
# Workers of the shard management

A job is a request of a client, or it waits for the request that ends what has been granted
to the client.  Jobs that have to wait, for a grant or for their end, are put into a
second queue, so that they are seen again as retries.  When the client of a granted request
goes away or sends something else, a compensation job takes the place of the end.

The two queues are one list here, from which any job may be taken next.
-/

namespace Rye.Broker.ShardMgmt

open Foundation

inductive Operation where
  | addNode (node : NodeInfo)
  | migrationStart (arg : MigrationArg)
  | migrationEnd (arg : MigrationArg)
  | ddlStart (timeoutSec : Int)
  | ddlEnd
  | gcStart
  | gcEnd
deriving DecidableEq, Repr

structure Request where
  cltDbname : Name
  operation : Operation
deriving DecidableEq, Repr

inductive CompensationJob where
  | ddlFail
  | gcFail
  | migrationFail (arg : MigrationArg)
deriving DecidableEq, Repr

inductive Job where
  | request (req : Request) (isRetry : Bool) (requestTime : Int)
  | waiting (compensation : CompensationJob)
deriving DecidableEq, Repr

/-!
## One request
-/

def checkClientDbname (cltDbname : Name) (db : MetaDb) : Bool :=
  cltDbname.map Char.toLower == db.globalDbname.map Char.toLower

/-- The request comes to its function: the metadata is there, and so is the name of the client's
database. -/
def Request.enters (req : Request) (db : MetaDb) (faults : Faults) : Bool :=
  !faults.connect && !faults.sync && decide (db.nodeInfoLastVer > 0) &&
    checkClientDbname req.cltDbname db

def setAdminCompensationJob (operation : Operation) (faults : Faults) : Option CompensationJob :=
  if faults.memory = true then none
  else
    match operation with
    | .ddlStart _ => some .ddlFail
    | .gcStart => some .gcFail
    | .migrationStart arg => some (.migrationFail arg)
    | .addNode _ | .migrationEnd _ | .ddlEnd | .gcEnd => none

/-- What processing a job comes to: the metadata, what is left of the job, and the node addition
that it has begun. -/
structure WorkResult where
  db : MetaDb
  job : Option Job
  nodeAdd : Option NodeAdd

/-- The end of `shd_mg_func_admin`, in which the result of the commit is not looked at. -/
def adminFuncEnd (req : Request) (requestTime : Int) (faults : Faults) (result : FuncResult) :
    WorkResult :=
  let endTran := if faults.commit = true then result.committed else result.work
  match result.res, result.thrFuncRes with
  | some _, _ => { db := result.committed, job := none, nodeAdd := none }
  | none, .complete => { db := endTran, job := none, nodeAdd := none }
  | none, .needQueueing =>
    { db := endTran, job := some (.request req true requestTime), nodeAdd := none }
  | none, .completeAndWaitNext =>
    match setAdminCompensationJob req.operation faults with
    | none => { db := result.committed, job := none, nodeAdd := none }
    | some compensation => { db := endTran, job := some (.waiting compensation), nodeAdd := none }

def shdMgFuncAdmin (db : MetaDb) (req : Request) (isRetry : Bool) (requestTime now : Int)
    (faults : Faults) : WorkResult :=
  if req.enters db faults = false then { db, job := none, nodeAdd := none }
  else
    match req.operation with
    | .addNode node =>
      match shdMgNodeAdd db node faults with
      | .finished result => adminFuncEnd req requestTime faults result
      | .copying db nodeAdd => { db, job := none, nodeAdd := some nodeAdd }
    | .migrationStart arg =>
      adminFuncEnd req requestTime faults (shdMgMigrationStart db arg requestTime now faults)
    | .migrationEnd arg => adminFuncEnd req requestTime faults (shdMgMigrationEnd db arg faults)
    | .ddlStart timeoutSec =>
      adminFuncEnd req requestTime faults
        (shdMgDdlStart db timeoutSec isRetry requestTime now faults)
    | .ddlEnd => adminFuncEnd req requestTime faults (shdMgDdlEndInternal db faults)
    | .gcStart => adminFuncEnd req requestTime faults (shdMgGcStart db faults)
    | .gcEnd => adminFuncEnd req requestTime faults (shdMgGcEndInternal db faults)

/-- What the socket of a client has: nothing yet, an error, or a request. -/
inductive Incoming where
  | nothing
  | netError
  | request (req : Request)
deriving DecidableEq, Repr

def CompensationJob.nextReqOpcode : CompensationJob -> Operation -> Bool
  | .ddlFail, .ddlEnd => true
  | .gcFail, .gcEnd => true
  | .migrationFail _, .migrationEnd _ => true
  | _, _ => false

def CompensationJob.func (db : MetaDb) (faults : Faults) : CompensationJob -> FuncResult
  | .ddlFail => shdMgDdlEndInternal db faults
  | .gcFail => shdMgGcEndInternal db faults
  | .migrationFail arg => shdMgMigrationFail db arg faults

def doCompensationJob (db : MetaDb) (compensation : CompensationJob) (faults : Faults) :
    WorkResult :=
  if faults.connect = true then { db, job := some (.waiting compensation), nodeAdd := none }
  else
    let result := compensation.func db faults
    match result.res with
    | some _ => { db := result.committed, job := some (.waiting compensation), nodeAdd := none }
    | none =>
      { db := if faults.commit = true then result.committed else result.work
        job := none
        nodeAdd := none }

def shdMgWorkerThr (db : MetaDb) (job : Job) (incoming : Incoming) (now : Int) (faults : Faults) :
    WorkResult :=
  match job with
  | .request req isRetry requestTime => shdMgFuncAdmin db req isRetry requestTime now faults
  | .waiting compensation =>
    match incoming with
    | .nothing => { db, job := some job, nodeAdd := none }
    | .netError => doCompensationJob db compensation faults
    | .request req =>
      if compensation.nextReqOpcode req.operation = true then
        shdMgFuncAdmin db req true now now faults
      else doCompensationJob db compensation faults

/-!
## The system
-/

structure State where
  db : MetaDb
  jobs : List Job
  nodeAdds : List NodeAdd

def State.initial (db : MetaDb) : State :=
  { db := { db with
      migReqCount := 0
      ddlReqCount := 0
      gcReqCount := 0
      nodeStatus := .allValid }
    jobs := []
    nodeAdds := [] }

inductive Label where
  | arrive (req : Request) (now : Int)
  | work (index : Nat) (incoming : Incoming) (now : Int) (faults : Faults)
  | copyEnds (index : Nat) (copyEnd : CopyEnd) (faults : Faults)
  /-- The rebalancing writes the table of the migrations. -/
  | rebalance (migrations : List GroupMigration)

/-- An end of a migration or of a definition of schema is not accepted as a first request. -/
def shdMgJobQueueAdd (jobs : List Job) (req : Request) (now : Int) : List Job :=
  match req.operation with
  | .migrationEnd _ | .ddlEnd => jobs
  | .addNode _ | .migrationStart _ | .ddlStart _ | .gcStart | .gcEnd =>
    jobs ++ [.request req false now]

def State.replaceJob (s : State) (index : Nat) (result : WorkResult) : State :=
  { db := result.db
    jobs := s.jobs.eraseIdx index ++ result.job.toList
    nodeAdds := s.nodeAdds ++ result.nodeAdd.toList }

def State.replaceNodeAdd (s : State) (index : Nat) (faults : Faults) : NodeAddResult -> State
  | .copying db nodeAdd => { s with db, nodeAdds := s.nodeAdds.set index nodeAdd }
  | .finished result =>
    { s with
      db := if result.res.isSome = true ∨ faults.commit = true then result.committed
        else result.work
      nodeAdds := s.nodeAdds.eraseIdx index }

def State.next (s : State) : Label -> State
  | .arrive req now => { s with jobs := shdMgJobQueueAdd s.jobs req now }
  | .work index incoming now faults =>
    match s.jobs[index]? with
    | none => s
    | some job => s.replaceJob index (shdMgWorkerThr s.db job incoming now faults)
  | .copyEnds index copyEnd faults =>
    match s.nodeAdds[index]? with
    | none => s
    | some nodeAdd => s.replaceNodeAdd index faults (nodeAddCopied s.db nodeAdd copyEnd faults)
  | .rebalance migrations => { s with db := { s.db with migrations } }

def shardMgmtSystem (db : MetaDb) : System State Label :=
  System.deterministic (State.initial db) (fun _ _ => True) State.next

end Rye.Broker.ShardMgmt
