import Mathlib.Data.List.Dedup
import Rye.Foundation.Programs

/-!
# Connections to a group of shards

A `ShardGroupConnection` has at most one transaction open, on the connection to one shard or on
an array of them.  A statement takes the connections it needs from the connection in use, or
opens them when there is none.  The transaction is ended by `endTranRequest`, which does nothing
while a cursor is registered as open.

What the shards and the driver's shard information answer is given as a list of replies that the
requests of a call consume in order.
-/

namespace Rye.Jdbc

open Foundation

inductive ErrCode where
  | shardDifferentShardKeyInfo
  | shardIncompatibleConRequest
  | shardMoreThanOneShardTran
  | shardDmlShardKey
  | shardInternalError
  | shardInvalidGroupid
  | shardCantGlobalDmlUnderMigration
  | invalidQueryType
  | statementClosed
  | other
deriving DecidableEq, Repr

inductive SqlType where
  | ddl
  | dml
  | select
  | selectUpdate
  | commit
  | rollback
  | ignoreOnSharding
  | unknown
deriving DecidableEq, Repr

/-- What a shard says of a query: its type, whether it is on a shard table, and the description
of its shard keys, of which only equality matters. -/
structure QueryInfo where
  sqlType : SqlType
  isShardTableQuery : Bool
  shardKeyInfo : Nat
deriving DecidableEq, Repr

structure ShardKey where
  key : Nat
  nodeid : Nat
deriving DecidableEq, Repr

inductive Reply where
  | ok
  | info (queryInfo : QueryInfo)
  | nodes (nodeids : List Nat)
  | keys (shardKeys : List ShardKey)
  | error (code : ErrCode)
deriving DecidableEq, Repr

/-!
## The state of a connection
-/

inductive ConnType where
  | none
  | oneShard
  | anyShard
  | metadb
  | nShardSelect
  | allShardSelect
  | allDml
  | allDdl
deriving DecidableEq, Repr

structure ShardConn where
  nodeid : Nat
  shardKey : Option Nat
deriving DecidableEq, Repr

inductive CurShardConn where
  | null
  | one (con : ShardConn)
  | array (cons : List ShardConn)
deriving DecidableEq, Repr

def CurShardConn.conns : CurShardConn -> List ShardConn
  | .null => []
  | .one con => [con]
  | .array cons => cons

structure ShardGroupConnection where
  curShardConn : CurShardConn
  curShardConnType : ConnType
  openCursorList : List Nat
  autoCommit : Bool

/-- Whether `shardResultsetStmt` is set says whether the statement has a result. -/
structure ShardGroupStatement where
  queryInfo : QueryInfo
  hasResultset : Bool

structure ResultSet where
  isClosed : Bool
  completeOnClose : Bool
deriving DecidableEq, Repr

/-- A `RyeStatement`, or a `RyePreparedStatement` when `isPrepared`. -/
structure Statement where
  isPrepared : Bool
  isHoldable : Bool
  completed : Bool
  isClosed : Bool
  resultSet : Option ResultSet
  jciStmt : Option Nat
  isFromCurrentTransaction : Bool
deriving DecidableEq, Repr

structure RyeConnection where
  statements : List Nat
  autoCommit : Bool
  ending : Bool

/-- What has been asked of the shards: the shards that have executed a statement in the
transaction that is open there, and all requests to end a transaction. -/
structure Ledger where
  executed : List Nat
  sent : List (Nat × Bool)

/-- All objects of one connection; statements of either kind are named by numbers. -/
structure World where
  con : RyeConnection
  group : ShardGroupConnection
  stmts : Nat -> Statement
  groupStmts : Nat -> ShardGroupStatement
  nextId : Nat
  ledger : Ledger
  replies : List Reply

abbrev Java := Program World ErrCode

def nextReply : Java Reply := do
  let w ← get
  match w.replies with
  | [] => throw .other
  | reply :: rest => do
      modify fun w => { w with replies := rest }
      pure reply

def request : Java Unit := do
  match ← nextReply with
  | .error code => throw code
  | _ => pure ()

def requestInfo : Java QueryInfo := do
  match ← nextReply with
  | .info queryInfo => pure queryInfo
  | .error code => throw code
  | _ => throw .other

def requestNodes : Java (List Nat) := do
  match ← nextReply with
  | .nodes nodeids => pure nodeids
  | .error code => throw code
  | _ => throw .other

def requestKeys : Java (List ShardKey) := do
  match ← nextReply with
  | .keys shardKeys => pure shardKeys
  | .error code => throw code
  | _ => throw .other

def modifyGroup (f : ShardGroupConnection -> ShardGroupConnection) : Java Unit :=
  modify fun w => { w with group := f w.group }

def modifyGroupStmt (gid : Nat) (f : ShardGroupStatement -> ShardGroupStatement) : Java Unit :=
  modify fun w => { w with groupStmts := Function.update w.groupStmts gid (f (w.groupStmts gid)) }

/-- A statement is executed on a shard; whether it fails there or not, the shard's transaction is
open then. -/
def shardExecute (con : ShardConn) : Java Unit := do
  modify fun w => { w with ledger.executed := con.nodeid :: w.ledger.executed }
  request

def shardEndTranRequest (con : ShardConn) (type : Bool) : Java Unit := do
  modify fun w => { w with
    ledger.executed := w.ledger.executed.filter (fun nodeid => nodeid != con.nodeid)
    ledger.sent := w.ledger.sent ++ [(con.nodeid, type)] }
  request

/-- A prepared statement comes from the connection's pool or from the shard. -/
def prepareShard (_con : ShardConn) : Java QueryInfo :=
  requestInfo

def appendException : Option ErrCode -> Option ErrCode -> Option ErrCode
  | some e, _ => some e
  | none, e => e

def throwIfSome : Option ErrCode -> Java Unit
  | some e => throw e
  | none => pure ()

def closeShardConnection (con : ShardConn) (type : Bool) : Java (Option ErrCode) := do
  match ← (shardEndTranRequest con type).attempt with
  | .ok _ => pure none
  | .error e => pure (some e)

def closeShardConnections (type : Bool) : List ShardConn -> Option ErrCode ->
    Java (Option ErrCode)
  | [], exception => pure exception
  | con :: cons, exception => do
      let e ← closeShardConnection con type
      closeShardConnections type cons (appendException exception e)

/-- The first part of `endTranRequest`, which closes the connections in use. -/
def closeCurShardConn (type : Bool) : Java (Option ErrCode) := do
  let w ← get
  if w.group.curShardConn ≠ .null ∧ w.group.openCursorList.length = 0 then do
    let exception ← closeShardConnections type w.group.curShardConn.conns none
    modifyGroup fun group => { group with curShardConn := .null }
    pure exception
  else pure none

def endTranRequest (type : Bool) : Java Unit := do
  let exception ← closeCurShardConn type
  modifyGroup fun group =>
    if group.curShardConn = .null then { group with curShardConnType := .none } else group
  throwIfSome exception

def shardAutoCommit : Java Unit := do
  let w ← get
  match w.group.curShardConnType with
  | .anyShard | .allDdl | .nShardSelect | .allShardSelect =>
    tryCatch (endTranRequest true) fun _ => endTranRequest false
  | .metadb | .allDml | .none | .oneShard => pure ()

/-!
## Taking connections
-/

section

variable (metaid : Nat)

def wantedNode (conType : ConnType) (shardKey : Option ShardKey) : Java Nat :=
  match conType with
  | .oneShard =>
    match shardKey with
    | none => throw .shardDmlShardKey
    | some shardKey => pure shardKey.nodeid
  | .metadb => pure metaid
  | .anyShard => do
      match ← requestNodes with
      | nodeid :: _ => pure nodeid
      | [] => throw .other
  | _ => throw .shardIncompatibleConRequest

def equalsShardKey (con : ShardConn) (shardKey : Option ShardKey) : Bool :=
  match con.shardKey, shardKey with
  | some key, some shardKey => key == shardKey.key
  | _, _ => false

def getConnection (conType : ConnType) (shardKey : Option ShardKey) : Java ShardConn := do
  let nodeid ← wantedNode metaid conType shardKey
  let w ← get
  match w.group.curShardConn, conType with
  | .null, _ => do
      request
      let con : ShardConn := ⟨nodeid, shardKey.map ShardKey.key⟩
      modifyGroup fun group =>
        { group with curShardConn := .one con, curShardConnType := conType }
      pure con
  | .one con, .oneShard =>
    if equalsShardKey con shardKey then pure con else throw .shardMoreThanOneShardTran
  | .array _, .oneShard => throw .shardMoreThanOneShardTran
  | .one con, .metadb =>
    if con.nodeid = nodeid then pure con else throw .shardIncompatibleConRequest
  | .one con, .anyShard =>
    if con.nodeid ≠ metaid then pure con else throw .shardIncompatibleConRequest
  | .array cons, .anyShard =>
    match cons.find? fun con => con.nodeid != metaid with
    | some con => pure con
    | none => throw .shardIncompatibleConRequest
  | _, _ => throw .shardIncompatibleConRequest

def getConnectionArray (conType : ConnType) (nodeids : List Nat) : Java (List ShardConn) := do
  let w ← get
  match w.group.curShardConn with
  | .null => do
      request
      let cons := nodeids.map fun nodeid => ShardConn.mk nodeid none
      modifyGroup fun group =>
        { group with curShardConn := .array cons, curShardConnType := conType }
      pure cons
  | .one _ => throw .shardIncompatibleConRequest
  | .array cons =>
    if (conType = .nShardSelect ∨ conType = .allShardSelect) ∧
        w.group.curShardConnType = .allDml then
      pure (cons.filter fun con => nodeids.contains con.nodeid)
    else if conType = .allDml ∧ w.group.curShardConnType = .allDml then pure cons
    else throw .shardIncompatibleConRequest

def getAnyShardConnection : Java ShardConn :=
  getConnection metaid .anyShard none

def getOneShardConnection (shardKey : ShardKey) : Java ShardConn :=
  getConnection metaid .oneShard (some shardKey)

def getNShardConnectionArray (shardKeys : List ShardKey) : Java (List ShardConn) :=
  getConnectionArray .nShardSelect (shardKeys.map ShardKey.nodeid).dedup

def getAllShardConnectionArray : Java (List ShardConn) := do
  getConnectionArray .allShardSelect (← requestNodes)

def getAllDmlConnectionArray : Java (List ShardConn) := do
  getConnectionArray .allDml (← requestNodes)

def getAllDdlConnectionArray : Java (List ShardConn) := do
  getConnectionArray .allDdl (← requestNodes)

/-!
## Statements
-/

def closeCursor (gid : Nat) : Java Unit := do
  let w ← get
  if (w.groupStmts gid).hasResultset then do
    modifyGroupStmt gid fun stmt => { stmt with hasResultset := false }
    modifyGroup fun group => { group with openCursorList := group.openCursorList.erase gid }
  else pure ()

/-- The result of a statement without rows: an earlier cursor stays registered. -/
def setExecuteResultRows (gid : Nat) : Java Unit :=
  modifyGroupStmt gid fun stmt => { stmt with hasResultset := false }

def setExecuteResultCursor (gid : Nat) : Java Unit := do
  modifyGroupStmt gid fun stmt => { stmt with hasResultset := true }
  modifyGroup fun group => { group with openCursorList := group.openCursorList ++ [gid] }

def setAutoCommit (autoCommit : Bool) : Java Unit :=
  modifyGroup fun group => { group with autoCommit := autoCommit }

def prepareRequest : Java Nat :=
  Program.ensure (do
    let con ← getAnyShardConnection metaid
    let queryInfo ← prepareShard con
    let w ← get
    modify fun w => { w with
      groupStmts := Function.update w.groupStmts w.nextId ⟨queryInfo, false⟩
      nextId := w.nextId + 1 }
    pure w.nextId) shardAutoCommit

def refreshPrepareInfo (gid : Nat) : Java Unit :=
  Program.ensure (do
    let con ← getAnyShardConnection metaid
    let queryInfo ← prepareShard con
    modifyGroupStmt gid fun stmt => { stmt with queryInfo := queryInfo }) shardAutoCommit

/-- Prepares on every connection: the exception, and for each connection whether it has a
statement.  The descriptions of the shard keys have to agree. -/
def prepareNShard (stopOnError : Bool) : List ShardConn -> Option Nat -> Option ErrCode ->
    List (ShardConn × Bool) -> Java (Option ErrCode × List (ShardConn × Bool))
  | [], _, exception, done => pure (exception, done)
  | con :: cons, shardKeyInfo, exception, done => do
      let failed (e : ErrCode) : Java (Option ErrCode × List (ShardConn × Bool)) :=
        if e = .shardDifferentShardKeyInfo ∨ stopOnError = true then
          pure (some e, (done.map Prod.fst ++ con :: cons).map fun con => (con, false))
        else
          prepareNShard stopOnError cons shardKeyInfo (appendException exception (some e))
            (done ++ [(con, false)])
      match ← (prepareShard con).attempt with
      | .error e => failed e
      | .ok queryInfo =>
        match shardKeyInfo with
        | none =>
          prepareNShard stopOnError cons (some queryInfo.shardKeyInfo) exception
            (done ++ [(con, true)])
        | some info =>
          if info = queryInfo.shardKeyInfo then
            prepareNShard stopOnError cons shardKeyInfo exception (done ++ [(con, true)])
          else failed .shardDifferentShardKeyInfo

def executeNShard (stopOnError : Bool) : List (ShardConn × Bool) -> Option ErrCode ->
    List (ShardConn × Bool) -> Java (Option ErrCode × List (ShardConn × Bool))
  | [], exception, done => pure (exception, done)
  | (con, false) :: rest, exception, done =>
    executeNShard stopOnError rest exception (done ++ [(con, false)])
  | (con, true) :: rest, exception, done => do
      match ← (shardExecute con).attempt with
      | .ok _ | .error .shardCantGlobalDmlUnderMigration =>
        executeNShard stopOnError rest exception (done ++ [(con, true)])
      | .error e =>
        if e = .shardDifferentShardKeyInfo ∧ done.length = 0 ∨ stopOnError = true then
          pure (some e, (done ++ (con, true) :: rest).map fun stmt => (stmt.1, false))
        else
          executeNShard stopOnError rest (appendException exception (some e))
            (done ++ [(con, false)])

def executeDdlOn : List ShardConn -> Option ErrCode -> Java (Option ErrCode)
  | [], exception => pure exception
  | con :: cons, exception => do
      let run : Java Unit := do
        let _ ← prepareShard con
        shardExecute con
      match ← run.attempt with
      | .ok _ => executeDdlOn cons exception
      | .error e => executeDdlOn cons (appendException exception (some e))

def executeShardDDL (gid : Nat) : Java Unit := do
  let w ← get
  let prevAutoCommit := w.group.autoCommit
  Program.onlyIf (!prevAutoCommit) do
    endTranRequest true
    setAutoCommit true
  let cons ← getAllDdlConnectionArray
  let exception ← executeDdlOn cons none
  endTranRequest true
  setAutoCommit prevAutoCommit
  if exception = none then setExecuteResultRows gid else throwIfSome exception

def executeShardAllDML (gid : Nat) : Java Unit := do
  let w ← get
  let prevAutoCommit := w.group.autoCommit
  setAutoCommit false
  let cons ← getAllDmlConnectionArray
  let prepared ← prepareNShard true cons none none []
  let executed ← executeNShard prevAutoCommit prepared.2 prepared.1 []
  let exception := executed.1
  Program.onlyIf (exception == none) (setExecuteResultRows gid)
  Program.onlyIf prevAutoCommit do
    endTranRequest (exception == none)
    setAutoCommit true
  throwIfSome exception

def executeShardDML (gid : Nat) (shardKey : ShardKey) : Java Unit := do
  let con ← getOneShardConnection metaid shardKey
  let _ ← prepareShard con
  shardExecute con
  setExecuteResultRows gid

def getSelectConnection (shardKey : Option ShardKey) : Java ShardConn :=
  match shardKey with
  | none => getAnyShardConnection metaid
  | some shardKey => getOneShardConnection metaid shardKey

def executeOneShardSELECT (gid : Nat) (shardKey : Option ShardKey) : Java Unit := do
  let con ← getSelectConnection metaid shardKey
  let _ ← prepareShard con
  shardExecute con
  setExecuteResultCursor gid

def getSelectConnectionArray (shardKeys : List ShardKey) : Java (List ShardConn) :=
  if shardKeys.length = 0 then getAllShardConnectionArray
  else getNShardConnectionArray shardKeys

def executeNShardSELECT (gid : Nat) (shardKeys : List ShardKey) : Java Unit := do
  let cons ← getSelectConnectionArray shardKeys
  let prepared ← prepareNShard false cons none none []
  let executed ← executeNShard false prepared.2 prepared.1 []
  if executed.1 = none ∨ executed.2.any Prod.snd = true then setExecuteResultCursor gid
  else throwIfSome executed.1

def executeSelect (gid : Nat) (isShardTableQuery : Bool) (shardKeys : List ShardKey) :
    Java Unit :=
  if isShardTableQuery then
    match shardKeys with
    | [shardKey] => executeOneShardSELECT metaid gid (some shardKey)
    | _ => executeNShardSELECT gid shardKeys
  else executeOneShardSELECT metaid gid none

def executeInternal (gid : Nat) : Java Unit := do
  let w ← get
  let queryInfo := (w.groupStmts gid).queryInfo
  let shardKeys ← requestKeys
  if queryInfo.isShardTableQuery = false ∧ 0 < shardKeys.length then throw .shardInternalError
  else
    match queryInfo.sqlType with
    | .ddl => do
        endTranRequest true
        -- `DdlStart` and `DdlEnd` of the shard administrator
        request
        Program.ensure (executeShardDDL gid) request
    | .dml =>
      if queryInfo.isShardTableQuery then
        match shardKeys with
        | [shardKey] => executeShardDML metaid gid shardKey
        | _ => throw .shardDmlShardKey
      else executeShardAllDML gid
    | .selectUpdate =>
      if queryInfo.isShardTableQuery = true ∧ shardKeys.length ≠ 1 then throw .shardDmlShardKey
      else executeSelect metaid gid queryInfo.isShardTableQuery shardKeys
    | .select => executeSelect metaid gid queryInfo.isShardTableQuery shardKeys
    | .commit => endTranRequest true
    | .rollback => endTranRequest false
    | .ignoreOnSharding => pure ()
    | .unknown => throw .shardInternalError

/-- Whether to try again because the group has moved: only outside a transaction, and when the
driver's shard information could be brought up to date. -/
def checkInvalidGroupidError (e : ErrCode) (isInTran : Bool) : Java Bool :=
  if e = .shardInvalidGroupid then
    if isInTran then throw e
    else do
      request
      pure true
  else pure false

def checkDifferentShardKeyInfoError (e : ErrCode) (wasForcePrepare : Bool) : Java Unit :=
  if e = .shardDifferentShardKeyInfo then pure ()
  else if e = .shardIncompatibleConRequest ∨ e = .shardMoreThanOneShardTran then
    if wasForcePrepare then throw e else pure ()
  else throw e

def executeQueryMaxRetry : Nat := 3

/-- What is done with an exception of an attempt before the next one: the result tells whether
the next one prepares again. -/
def recover (gid : Nat) (isInTran forcePrepare : Bool) (e : ErrCode) : Java Bool := do
  let retryInvalidGroupid ← checkInvalidGroupidError e isInTran
  Program.onlyIf (!retryInvalidGroupid) do
    checkDifferentShardKeyInfoError e forcePrepare
    refreshPrepareInfo metaid gid
  Program.onlyIf (!isInTran) (endTranRequest false)
  pure (forcePrepare || !retryInvalidGroupid)

def executeRetry (gid : Nat) : Nat -> Bool -> Java Unit
  | 0, _ => Program.ensure (executeInternal metaid gid) shardAutoCommit
  | retries + 1, forcePrepare => do
      let w ← get
      let isInTran := w.group.curShardConnType != .none
      let again ← Program.ensure
        (tryCatch (do
            executeInternal metaid gid
            pure none)
          fun e => do
            let force ← recover metaid gid isInTran forcePrepare e
            pure (some force))
        shardAutoCommit
      match again with
      | none => pure ()
      | some force => executeRetry gid retries force

def execute (gid : Nat) : Java Unit :=
  executeRetry metaid gid executeQueryMaxRetry false

end

end Rye.Jdbc
