import Rye.Foundation.Runs
import Rye.Jdbc.ShardGroup

/-!
# Statements of a sharding connection

A `RyeConnection` keeps the list of its statements and completes them when a transaction is
committed or rolled back.  Completing a statement closes its result set; whether that also closes
the cursor depends on the holdability and the kind of the statement.
-/

namespace Rye.Jdbc

open Foundation

def modifyCon (f : RyeConnection -> RyeConnection) : Java Unit :=
  modify fun w => { w with con := f w.con }

def modifyStmt (sid : Nat) (f : Statement -> Statement) : Java Unit :=
  modify fun w => { w with stmts := Function.update w.stmts sid (f (w.stmts sid)) }

/-- A sharding connection takes the default of `CasInfo`. -/
def brokerInfoStatementPooling : Bool := true

/-!
## Result sets and completion

`complete` closes the result set and a result set that is closed completes its statement; either
one finds that the other has begun.  `autoCommit` is what `con.autoCommit()` does at the place of
the call: inside a commit or rollback it returns at once.
-/

/-- With no group statement this is a null pointer exception. -/
def closeStmtCursor (sid : Nat) : Java Unit := do
  let w ← get
  match (w.stmts sid).jciStmt with
  | some gid => closeCursor gid
  | none => throw .other

/-- Closes the result set of the statement, with what completing the statement does then. -/
def closeResultSetWith (sid : Nat) (complete : Java Unit) : Java Unit := do
  let w ← get
  match (w.stmts sid).resultSet with
  | none => pure ()
  | some resultSet =>
    if resultSet.isClosed then pure ()
    else do
      modifyStmt sid fun stmt =>
        { stmt with resultSet := some { resultSet with isClosed := true } }
      Program.onlyIf (w.stmts sid).isHoldable (closeStmtCursor sid)
      Program.onlyIf resultSet.completeOnClose complete

def closeJciStmt (sid : Nat) : Java Unit := do
  let w ← get
  match (w.stmts sid).jciStmt with
  | none => pure ()
  | some gid => do
      closeCursor gid
      modifyStmt sid fun stmt => { stmt with jciStmt := none }

def completeWith (sid : Nat) (autoCommit : Java Unit) : Java Unit := do
  let w ← get
  if (w.stmts sid).completed then pure ()
  else do
    modifyStmt sid fun stmt => { stmt with completed := true }
    closeResultSetWith sid (pure ())
    modifyStmt sid fun stmt => { stmt with resultSet := none }
    Program.onlyIf (!(w.stmts sid).isPrepared) (closeJciStmt sid)
    autoCommit

def closeWith (sid : Nat) (autoCommit : Java Unit) : Java Unit := do
  let w ← get
  if (w.stmts sid).isClosed then pure ()
  else do
    completeWith sid autoCommit
    modifyStmt sid fun stmt => { stmt with isClosed := true }
    Program.onlyIf (w.stmts sid).isPrepared (closeJciStmt sid)
    modifyCon fun con => { con with statements := con.statements.erase sid }

/-!
## Commit and rollback
-/

/-- One round: the statement at index `i`. -/
def completeStatement (passes : Statement -> Bool) (mark : Statement -> Statement)
    (i sid : Nat) (stmt : Statement) : Java Unit :=
  if passes stmt then modifyStmt sid mark
  else if stmt.isPrepared then do
    modifyCon fun con => { con with statements := con.statements.eraseIdx i }
    if brokerInfoStatementPooling then completeWith sid (pure ())
    else closeWith sid (pure ())
  else completeWith sid (pure ())

/-- The loop over the statements, which removes prepared ones from the list it walks.  Statements
that `passes` are only marked. -/
def completeStatements (passes : Statement -> Bool) (mark : Statement -> Statement) :
    Nat -> Nat -> Java Unit
  | 0, _ => pure ()
  | rounds + 1, i => do
      let w ← get
      match w.con.statements[i]? with
      | none => pure ()
      | some sid => do
          completeStatement passes mark i sid (w.stmts sid)
          completeStatements passes mark rounds (i + 1)

def completeStatementForCommit : Java Unit := do
  let w ← get
  completeStatements (fun stmt => stmt.isHoldable)
    (fun stmt => { stmt with isFromCurrentTransaction := false }) w.con.statements.length 0

def completeAllStatements : Java Unit := do
  let w ← get
  completeStatements (fun stmt => stmt.isHoldable && !stmt.isFromCurrentTransaction)
    (fun stmt => stmt) w.con.statements.length 0

def completeFor (type : Bool) : Java Unit :=
  if type then completeStatementForCommit else completeAllStatements

/-- `commit()` and `rollback()`. -/
def endTransaction (type : Bool) : Java Unit := do
  let w ← get
  if w.con.ending then pure ()
  else do
    modifyCon fun con => { con with ending := true }
    completeFor type
    Program.ensure (endTranRequest type) (modifyCon fun con => { con with ending := false })

def commit : Java Unit := endTransaction true

def rollback : Java Unit := endTransaction false

def autoCommit : Java Unit := do
  let w ← get
  if w.con.autoCommit then commit else pure ()

def autoRollback : Java Unit := do
  let w ← get
  if w.con.autoCommit then rollback else pure ()

def complete (sid : Nat) : Java Unit :=
  completeWith sid autoCommit

def close (sid : Nat) : Java Unit :=
  closeWith sid autoCommit

def closeResultSet (sid : Nat) : Java Unit :=
  closeResultSetWith sid (complete sid)

def conSetAutoCommit (newAutoCommit : Bool) : Java Unit := do
  let w ← get
  Program.onlyIf (w.con.autoCommit != newAutoCommit) commit
  modifyCon fun con => { con with autoCommit := newAutoCommit }
  setAutoCommit newAutoCommit

/-!
## Execution
-/

section

variable (metaid : Nat)

def prepare : Java Nat :=
  tryCatch (prepareRequest metaid) fun e => do
    autoRollback
    throw e

def checkIsOpen (sid : Nat) : Java Unit := do
  let w ← get
  if (w.stmts sid).isClosed then throw .statementClosed else pure ()

def completeIfOpen (sid : Nat) : Java Unit := do
  let w ← get
  if (w.stmts sid).completed then pure () else complete sid

def isResultsetReturnable (queryInfo : QueryInfo) : Bool :=
  match queryInfo.sqlType with
  | .select | .selectUpdate => true
  | _ => false

def executeCore (sid : Nat) : Java Bool := do
  closeResultSet sid
  modifyStmt sid fun stmt =>
    { stmt with resultSet := none, completed := false, isFromCurrentTransaction := true }
  let w ← get
  match (w.stmts sid).jciStmt with
  | none => throw .statementClosed
  | some gid => do
      tryCatch (execute metaid gid) fun e => do
        autoRollback
        throw e
      let w ← get
      if isResultsetReturnable (w.groupStmts gid).queryInfo then do
        modifyStmt sid fun stmt => { stmt with resultSet := some ⟨false, true⟩ }
        pure true
      else pure false

inductive ExecuteType where
  | execute
  | executeQuery
  | executeUpdate
deriving DecidableEq, Repr

def invalidFor (execType : ExecuteType) (queryInfo : QueryInfo) : Bool :=
  match execType with
  | .execute => false
  | .executeQuery => !isResultsetReturnable queryInfo
  | .executeUpdate => isResultsetReturnable queryInfo

/-- `RyeStatement.execute(sql, execType)`. -/
def executeSql (sid : Nat) (execType : ExecuteType) : Java Unit := do
  checkIsOpen sid
  completeIfOpen sid
  let gid ← prepare metaid
  modifyStmt sid fun stmt => { stmt with jciStmt := some gid }
  let w ← get
  if invalidFor execType (w.groupStmts gid).queryInfo then do
    closeCursor gid
    modifyStmt sid fun stmt => { stmt with jciStmt := none }
    throw .invalidQueryType
  else do
    let _ ← executeCore metaid sid
    pure ()

/-- `RyePreparedStatement.execute()`. -/
def executePrepared (sid : Nat) : Java Unit := do
  checkIsOpen sid
  completeIfOpen sid
  let hasRows ← executeCore metaid sid
  if hasRows then pure () else complete sid

def addStatement (stmt : Statement) : Java Unit :=
  modify fun w => { w with
    stmts := Function.update w.stmts w.nextId stmt
    nextId := w.nextId + 1
    con.statements := w.con.statements ++ [w.nextId] }

def createStatement (isHoldable : Bool) : Java Unit :=
  addStatement ⟨false, isHoldable, true, false, none, none, true⟩

def prepareStatement (isHoldable : Bool) : Java Unit := do
  let gid ← prepare metaid
  addStatement ⟨true, isHoldable, true, false, none, some gid, true⟩

inductive Call where
  | createStatement (isHoldable : Bool)
  | prepareStatement (isHoldable : Bool)
  | executeSql (sid : Nat) (execType : ExecuteType)
  | executePrepared (sid : Nat)
  | closeResultSet (sid : Nat)
  | close (sid : Nat)
  | endTransaction (type : Bool)
  | setAutoCommit (autoCommit : Bool)
deriving DecidableEq, Repr

def Call.program : Call -> Java Unit
  | .createStatement isHoldable => Jdbc.createStatement isHoldable
  | .prepareStatement isHoldable => Jdbc.prepareStatement metaid isHoldable
  | .executeSql sid execType => Jdbc.executeSql metaid sid execType
  | .executePrepared sid => Jdbc.executePrepared metaid sid
  | .closeResultSet sid => Jdbc.closeResultSet sid
  | .close sid => Jdbc.close sid
  | .endTransaction type => Jdbc.endTransaction type
  | .setAutoCommit autoCommit => conSetAutoCommit autoCommit

/-- A new connection, in auto commit mode and without statements. -/
def World.start : World where
  con := ⟨[], true, false⟩
  group := ⟨.null, .none, [], true⟩
  stmts _ := ⟨false, false, true, true, none, none, true⟩
  groupStmts _ := ⟨⟨.unknown, false, 0⟩, false⟩
  nextId := 0
  ledger := ⟨[], []⟩
  replies := []

def World.perform (w : World) (call : Call × List Reply) : Except ErrCode Unit × World :=
  call.1.program metaid { w with replies := call.2 }

def connection : System World (Call × List Reply) :=
  .deterministic World.start (fun _ _ => True) fun w call => (w.perform metaid call).2

end

end Rye.Jdbc
