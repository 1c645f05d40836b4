import Mathlib.Data.List.Basic

/-!
# The log of a transaction

The log manager appends records to one log that all transactions share.  The
descriptor of a transaction holds addresses of its own records: the last one,
the next one to undo, the first postponed action, the latest savepoint and
the latest result of a system operation.  Rolling back follows the records
backwards from there, and the postponed actions are found by reading the log
forwards between the results of system operations.

A `LOG_LSA` is a number: records are counted from 1, and 0 is the null
address, which is smaller than that of every record as it is for `LSA_LT`.
-/

namespace Rye.Transaction.Log

/-- The bytes of a savepoint name, compared as `strcmp` does. -/
abbrev SavepointName := List UInt8

/--
The data of a log record.  A change is known by the address of its record, so
a compensating record names the record that it compensates in place of the
page contents it restores.
-/
inductive LogData where
  /-- `LOG_UNDOREDO_DATA`: a change of one page. -/
  | undoredoData
  /-- `LOG_UNDO_DATA` of a logical recovery function, which logs that many changes to undo it. -/
  | logicalUndoData (changes : Nat)
  | compensate (target undoNxlsa : Nat)
  | lcompensate (undoNxlsa : Nat)
  | savepoint (name : SavepointName) (prvSavept : Nat)
  | dummyHeadPostpone
  | postpone
  | runPostpone (refLsa : Nat)
  | commitWithPostpone (pospLsa : Nat)
  | commitTopopeWithPostpone (lastparentLsa pospLsa : Nat)
  | commitTopope (lastparentLsa prvTopresultLsa : Nat)
  | abortTopope (lastparentLsa prvTopresultLsa : Nat)
  | commit
  | abort
deriving DecidableEq, Repr

structure LogRecord where
  trid : Nat
  prevTranlsa : Nat
  data : LogData
deriving DecidableEq, Repr

inductive TranState where
  | active
  | unactiveWillCommit
  | unactiveCommittedWithPostpone
  | unactiveTopopeCommittedWithPostpone
  | unactiveCommitted
  | unactiveAborted
  | unactiveUnilaterallyAborted
deriving DecidableEq, Repr

structure Topop where
  lastparentLsa : Nat
  pospLsa : Nat
deriving DecidableEq, Repr

/-- The part of the transaction descriptor that logging uses; `topops` is innermost first. -/
structure LogTdes where
  trid : Nat
  state : TranState
  lastLsa : Nat
  undoNxlsa : Nat
  pospNxlsa : Nat
  saveptLsa : Nat
  tailTopresultLsa : Nat
  topops : List Topop
deriving DecidableEq, Repr

structure LogState where
  log : List LogRecord
  tdes : LogTdes
deriving DecidableEq, Repr

def recordAt (log : List LogRecord) (lsa : Nat) : Option LogRecord :=
  if lsa = 0 then none else log[lsa - 1]?

/-- The new record is the last one of the transaction and the next one to undo. -/
def priorLsaNextRecord (s : LogState) (data : LogData) : LogState :=
  { log := s.log ++ [{ trid := s.tdes.trid, prevTranlsa := s.tdes.lastLsa, data := data }]
    tdes := { s.tdes with lastLsa := s.log.length + 1, undoNxlsa := s.log.length + 1 } }

def logAppendUndoredoData (s : LogState) : LogState :=
  priorLsaNextRecord s .undoredoData

def LogState.setUndoNxlsa (s : LogState) (lsa : Nat) : LogState :=
  { s with tdes := { s.tdes with undoNxlsa := lsa } }

/-- A compensating record carries the next address to undo and does not move it. -/
def logAppendCompensate (s : LogState) (target : Nat) : LogState :=
  let prevLsa := s.tdes.undoNxlsa
  (priorLsaNextRecord s (.compensate target prevLsa)).setUndoNxlsa prevLsa

def logAppendLogicalCompensate (s : LogState) (undoNxlsa : Nat) : LogState :=
  (priorLsaNextRecord s (.lcompensate undoNxlsa)).setUndoNxlsa undoNxlsa

def logAppendSavepoint (s : LogState) (name : SavepointName) : LogState :=
  if s.tdes.state = .active then
    let t := priorLsaNextRecord s (.savepoint name s.tdes.saveptLsa)
    { t with tdes := { t.tdes with saveptLsa := t.tdes.lastLsa } }
  else
    s

/-- The first postponed action of the innermost operation is remembered. -/
def LogTdes.notePostpone (tdes : LogTdes) : LogTdes :=
  match tdes.topops with
  | top :: rest =>
    if top.pospLsa = 0 then
      { tdes with topops := { top with pospLsa := tdes.lastLsa } :: rest }
    else
      tdes
  | [] => if tdes.pospNxlsa = 0 then { tdes with pospNxlsa := tdes.lastLsa } else tdes

def logAppendPostpone (s : LogState) : LogState :=
  let s := if s.tdes.lastLsa = 0 then priorLsaNextRecord s .dummyHeadPostpone else s
  let t := priorLsaNextRecord s .postpone
  { t with tdes := t.tdes.notePostpone }

/-!
## Rollback
-/

/-- `log_start_system_op`: the operation begins after the last record of the transaction. -/
def logStartSystemOp (s : LogState) : LogState :=
  { s with
    tdes := { s.tdes with
      topops := { lastparentLsa := s.tdes.lastLsa, pospLsa := 0 } :: s.tdes.topops } }

inductive TopopResult where
  | commit
  | abort
  | attachToOuter
deriving DecidableEq, Repr

def logCompleteTopop (s : LogState) (lastparentLsa : Nat) (result : TopopResult) : LogState :=
  let data :=
    if result = .commit then LogData.commitTopope lastparentLsa s.tdes.tailTopresultLsa
    else LogData.abortTopope lastparentLsa s.tdes.tailTopresultLsa
  let t := priorLsaNextRecord s data
  { t with tdes := { t.tdes with tailTopresultLsa := t.tdes.lastLsa } }

/-- The postponed actions of an attached operation become those of its parent. -/
def logCompleteTopopAttach (tdes : LogTdes) (pospLsa : Nat) : LogTdes :=
  match tdes.topops with
  | top :: parent :: rest =>
    if parent.pospLsa = 0 then
      { tdes with topops := top :: { parent with pospLsa := pospLsa } :: rest }
    else
      tdes
  | _ => if tdes.pospNxlsa = 0 then { tdes with pospNxlsa := pospLsa } else tdes

def logCompleteSystemOp (s : LogState) (top : Topop) (result : TopopResult)
    (backToState : TranState) : LogState :=
  let t :=
    if result = .attachToOuter then { s with tdes := logCompleteTopopAttach s.tdes top.pospLsa }
    else logCompleteTopop s top.lastparentLsa result
  { t with tdes := { t.tdes with topops := t.tdes.topops.tail, state := backToState } }

/-- The changes that the undo function of a logical record logs in its system operation. -/
def logUndoRecRestartable : Nat -> LogState -> LogState
  | 0, s => s
  | changes + 1, s => logUndoRecRestartable changes (logAppendUndoredoData s)

/--
`log_rollback_record` on a logical record: the undo function runs in a
system operation of its own that is committed before the compensating record.
-/
def logRollbackLogical (s : LogState) (changes : Nat) : LogState :=
  let top : Topop := { lastparentLsa := s.tdes.lastLsa, pospLsa := 0 }
  let t := logUndoRecRestartable changes (logStartSystemOp s)
  let t :=
    if top.lastparentLsa < t.tdes.lastLsa then logCompleteSystemOp t top .commit s.tdes.state
    else logCompleteSystemOp t top .attachToOuter s.tdes.state
  logAppendLogicalCompensate t s.tdes.undoNxlsa

/--
The address that rolling back goes to after a record: the previous record of
the transaction, unless the record says otherwise.
-/
def LogRecord.undoLink (rec : LogRecord) : Nat :=
  match rec.data with
  | .compensate _ undoNxlsa => undoNxlsa
  | .lcompensate undoNxlsa => undoNxlsa
  | .commitTopope lastparentLsa _ => lastparentLsa
  | .abortTopope lastparentLsa _ => lastparentLsa
  | _ => rec.prevTranlsa

/-- What one record does to the state when it is rolled back; `lsa` is its address. -/
def logRollbackRecord (s : LogState) (lsa : Nat) (rec : LogRecord) : LogState :=
  match rec.data with
  | .undoredoData => logAppendCompensate (s.setUndoNxlsa rec.prevTranlsa) lsa
  | .logicalUndoData changes => logRollbackLogical (s.setUndoNxlsa rec.prevTranlsa) changes
  | _ => s.setUndoNxlsa rec.prevTranlsa

/--
The loop of `log_rollback`.  An address without a record ends the server in
the source and the loop here.  Every link goes backwards, so as many turns as
the address counts are enough.
-/
def logRollbackLoop (uptoLsa : Option Nat) : Nat -> Nat -> LogState -> LogState
  | 0, prevTranlsa, s => s.setUndoNxlsa prevTranlsa
  | turns + 1, prevTranlsa, s =>
    if prevTranlsa = 0 ∨ uptoLsa.any (fun upto => decide (prevTranlsa <= upto)) = true then
      s.setUndoNxlsa prevTranlsa
    else
      match recordAt s.log prevTranlsa with
      | none => s
      | some rec =>
        logRollbackLoop uptoLsa turns rec.undoLink
          ((logRollbackRecord s prevTranlsa rec).setUndoNxlsa rec.undoLink)

def logRollback (s : LogState) (uptoLsa : Option Nat) : LogState :=
  if s.tdes.lastLsa = 0 then s
  else logRollbackLoop uptoLsa s.tdes.undoNxlsa s.tdes.undoNxlsa s

/-!
## Postponed actions
-/

structure TopopRange where
  startLsa : Nat
  endLsa : Nat
deriving DecidableEq, Repr

/-- The parent and the previous result in the record that ends a system operation. -/
def LogData.topopResult : LogData -> Option (Nat × Nat)
  | .commitTopope lastparentLsa prvTopresultLsa => some (lastparentLsa, prvTopresultLsa)
  | .abortTopope lastparentLsa prvTopresultLsa => some (lastparentLsa, prvTopresultLsa)
  | _ => none

/--
The loop of `log_get_next_nested_top`: the results are visited from the last
one back, and one that lies inside the range taken before is left out.
-/
def nestedTopLoop (log : List LogRecord) (startPostponeLsa : Nat) :
    Nat -> Nat -> Nat -> List TopopRange
  | 0, _, _ => []
  | turns + 1, topResultLsa, prevLastParentLsa =>
    if topResultLsa = 0 ∨ topResultLsa <= startPostponeLsa then
      []
    else
      match (recordAt log topResultLsa).bind (fun rec => rec.data.topopResult) with
      | none => []
      | some (lastparentLsa, prvTopresultLsa) =>
        if prevLastParentLsa = 0 ∨ topResultLsa <= prevLastParentLsa then
          { startLsa := lastparentLsa, endLsa := topResultLsa } ::
            nestedTopLoop log startPostponeLsa turns prvTopresultLsa lastparentLsa
        else
          nestedTopLoop log startPostponeLsa turns prvTopresultLsa prevLastParentLsa

/-- `log_get_next_nested_top`, as it is read: the oldest range first. -/
def logGetNextNestedTop (log : List LogRecord) (tdes : LogTdes) (startPostponeLsa : Nat) :
    List TopopRange :=
  (nestedTopLoop log startPostponeLsa tdes.tailTopresultLsa tdes.tailTopresultLsa 0).reverse

/-- The parts of the log to read, outside the ranges and in order. -/
def seekParts (endPostponeLsa : Nat) : Nat -> List TopopRange -> List TopopRange
  | startSeekLsa, [] => [{ startLsa := startSeekLsa, endLsa := endPostponeLsa }]
  | startSeekLsa, range :: ranges =>
    if startSeekLsa < range.startLsa then
      { startLsa := startSeekLsa, endLsa := range.startLsa } ::
        seekParts endPostponeLsa range.endLsa ranges
    else if startSeekLsa = range.endLsa then
      [{ startLsa := startSeekLsa, endLsa := endPostponeLsa }]
    else
      seekParts endPostponeLsa range.endLsa ranges

/-- The postponed actions of the transaction among the next records from an address. -/
def scanPostpones (log : List LogRecord) (trid : Nat) : Nat -> Nat -> List Nat
  | 0, _ => []
  | records + 1, lsa =>
    match recordAt log lsa with
    | none => []
    | some rec =>
      if rec.trid = trid then
        match rec.data with
        | .postpone => lsa :: scanPostpones log trid records (lsa + 1)
        | .commitWithPostpone _ => []
        | .commitTopopeWithPostpone _ _ => []
        | _ => scanPostpones log trid records (lsa + 1)
      else
        scanPostpones log trid records (lsa + 1)

/-- The actions that `log_do_postpone` runs from an address on. -/
def postponesFrom (s : LogState) (startPostponeLsa : Nat) : List Nat :=
  if startPostponeLsa = 0 then
    []
  else
    (seekParts s.tdes.lastLsa startPostponeLsa
        (logGetNextNestedTop s.log s.tdes startPostponeLsa)).flatMap fun part =>
      scanPostpones s.log s.tdes.trid (part.endLsa + 1 - part.startLsa) part.startLsa

/-- `log_run_postpone_op` on every address: one record for each action that is run. -/
def logRunPostpones (s : LogState) (refs : List Nat) : LogState :=
  refs.foldl (fun s ref => priorLsaNextRecord s (.runPostpone ref)) s

def logAppendCommitPostpone (s : LogState) (startPostponeLsa : Nat) : LogState :=
  let t := priorLsaNextRecord s (.commitWithPostpone startPostponeLsa)
  { t with tdes := { t.tdes with state := .unactiveCommittedWithPostpone } }

def logAppendTopopeCommitPostpone (s : LogState) (lastparentLsa startPostponeLsa : Nat) :
    LogState :=
  let t := priorLsaNextRecord s (.commitTopopeWithPostpone lastparentLsa startPostponeLsa)
  { t with tdes := { t.tdes with state := .unactiveTopopeCommittedWithPostpone } }

/-- `log_do_postpone` when the transaction commits. -/
def logDoPostpone (s : LogState) : LogState :=
  if s.tdes.pospNxlsa = 0 then
    s
  else
    let t := logAppendCommitPostpone s s.tdes.pospNxlsa
    logRunPostpones t (postponesFrom t s.tdes.pospNxlsa)

/-- `log_do_postpone` when a system operation commits. -/
def logDoPostponeTopope (s : LogState) (top : Topop) : LogState :=
  if top.pospLsa = 0 then
    s
  else
    let t := logAppendTopopeCommitPostpone s top.lastparentLsa top.pospLsa
    logRunPostpones t (postponesFrom t top.pospLsa)

/-!
## System operations, savepoints and the end of a transaction
-/

/-- The result that counts: in a transaction that is ending, the second operation commits. -/
def LogTdes.topopResult (tdes : LogTdes) (result : TopopResult) : TopopResult :=
  if tdes.state ≠ .active ∧ tdes.topops.length = 2 ∧ result = .attachToOuter then .commit
  else result

def logEndSystemOp (s : LogState) (result : TopopResult) : LogState :=
  match s.tdes.topops with
  | [] => s
  | top :: _ =>
    let result := s.tdes.topopResult result
    if result ≠ .attachToOuter ∧ s.tdes.lastLsa ≠ 0 ∧ top.lastparentLsa < s.tdes.lastLsa then
      if result = .commit then
        logCompleteSystemOp (logDoPostponeTopope s top) top .commit s.tdes.state
      else
        let t := { s with tdes := { s.tdes with state := .unactiveAborted } }
        logCompleteSystemOp (logRollback t (some top.lastparentLsa)) top .abort s.tdes.state
    else
      logCompleteSystemOp s top .attachToOuter s.tdes.state

/-- The walk of `log_get_savepoint_lsa` along the savepoints; 0 when there is none. -/
def savepointLoop (log : List LogRecord) (name : SavepointName) : Nat -> Nat -> Nat
  | 0, _ => 0
  | turns + 1, prevLsa =>
    match (recordAt log prevLsa).map LogRecord.data with
    | some (.savepoint found prvSavept) =>
      if found = name then prevLsa else savepointLoop log name turns prvSavept
    | _ => 0

def logGetSavepointLsa (s : LogState) (name : SavepointName) : Nat :=
  savepointLoop s.log name s.tdes.saveptLsa s.tdes.saveptLsa

/-- The open operations are attached, the innermost first. -/
def attachSystemOps : Nat -> LogState -> LogState
  | 0, s => s
  | ops + 1, s => attachSystemOps ops (logEndSystemOp s .attachToOuter)

/-- The system operation of a partial abort begins at the savepoint. -/
def startPartialAbort (s : LogState) (saveptLsa : Nat) : LogState :=
  if s.tdes.pospNxlsa ≠ 0 ∧ saveptLsa < s.tdes.pospNxlsa then
    { s with
      tdes := { s.tdes with
        topops := { lastparentLsa := saveptLsa, pospLsa := s.tdes.pospNxlsa } :: s.tdes.topops
        pospNxlsa := 0 } }
  else
    { s with
      tdes := { s.tdes with
        topops := { lastparentLsa := saveptLsa
                    pospLsa := if s.tdes.pospNxlsa = 0 then 0 else saveptLsa } ::
          s.tdes.topops } }

def logAbortPartial (s : LogState) (name : SavepointName) : LogState :=
  let saveptLsa := logGetSavepointLsa s name
  if s.tdes.state ≠ .active ∨ saveptLsa = 0 then
    s
  else
    let t := attachSystemOps s.tdes.topops.length s
    let t := logEndSystemOp (startPartialAbort t saveptLsa) .abort
    { t with tdes := { t.tdes with saveptLsa := saveptLsa } }

/-- `log_complete`: the commit or abort record, unless nothing was logged. -/
def logComplete (s : LogState) (data : LogData) (state : TranState) : LogState :=
  let t := if s.tdes.lastLsa = 0 then s else priorLsaNextRecord s data
  { t with tdes := { t.tdes with state := state } }

def logCommit (s : LogState) : LogState :=
  if s.tdes.state = .active then
    let t := attachSystemOps s.tdes.topops.length s
    let t := { t with tdes := { t.tdes with state := .unactiveWillCommit } }
    let t := if t.tdes.lastLsa = 0 then t else logDoPostpone t
    logComplete t .commit .unactiveCommitted
  else
    s

def logAbort (s : LogState) : LogState :=
  if s.tdes.state = .active then
    let t := attachSystemOps s.tdes.topops.length s
    let t := { t with tdes := { t.tdes with state := .unactiveAborted } }
    logComplete (logRollback t none) .abort .unactiveAborted
  else
    s

def LogTdes.start (trid : Nat) : LogTdes :=
  { trid := trid
    state := .active
    lastLsa := 0
    undoNxlsa := 0
    pospNxlsa := 0
    saveptLsa := 0
    tailTopresultLsa := 0
    topops := [] }

end Rye.Transaction.Log
