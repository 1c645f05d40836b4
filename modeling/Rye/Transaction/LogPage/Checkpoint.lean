import Rye.Foundation.Runs
import Rye.Transaction.LogPage.Archives

/-!
# Checkpoints and the removal of archives

A checkpoint notes where recovery has to begin and advances `last_arv_num_for_syscrashes`, the
first archive that recovery may need.  The removal of archives that exceed the limit stops before
that archive and before the archive of the lowest page that a log writer still has to copy.

A state also keeps what the code does not: the first records of the transactions that the last
completed checkpoint has seen or that have begun since, and the removals made so far.
-/

namespace Rye.Transaction.LogPage

open Foundation

structure LogLsa where
  pageid : Nat
  offset : Nat
deriving DecidableEq, Repr

namespace LogLsa

def lt (a b : LogLsa) : Bool :=
  a.pageid < b.pageid || (a.pageid == b.pageid && a.offset < b.offset)

def le (a b : LogLsa) : Bool :=
  a.pageid < b.pageid || (a.pageid == b.pageid && a.offset <= b.offset)

end LogLsa

/-- `LSA_LT`: the null address is the smallest. -/
def lsaLt : Option LogLsa -> Option LogLsa -> Bool
  | none, some _ => true
  | some a, some b => a.lt b
  | _, none => false

/-- The value of an `int`. -/
def int32 (x : Int) : Int :=
  x.bmod (2 ^ 32)

def intMax : Int := 2 ^ 31 - 1

structure Header where
  nxarvPageid : Int
  nxarvNum : Int
  lastArvNumForSyscrashes : Int
  lastDeletedArvNum : Int
deriving DecidableEq, Repr

/-- A descriptor of the transaction table.  `first` is the address of the first log record. -/
structure Tdes where
  trid : Nat
  beginLsa : LogLsa
  lastLsa : Option LogLsa
  first : Option LogLsa
deriving DecidableEq, Repr

/-- A checkpoint that runs: its start record is written, or the header is. -/
inductive Phase where
  | idle
  | started (newchkptLsa : LogLsa)
  | recorded (redoLsa : LogLsa) (smallestLsa : Option LogLsa)
deriving DecidableEq, Repr

/-- The archives `first` to `last` were removed by a call with `maxCount`, when the log writers
were at `writers`. -/
structure Removal where
  first : Int
  last : Int
  maxCount : Int
  writers : List Int
deriving DecidableEq, Repr

structure LogState where
  hdr : Header
  arvs : List ArvHeader
  priorLsa : LogLsa
  appendPageid : Int
  prevPageid : Int
  chkptRedoLsa : Option LogLsa
  flushedLsaLowerBound : Option LogLsa
  trantable : List Tdes
  phase : Phase
  firsts : List LogLsa
  removals : List Removal
deriving DecidableEq, Repr

/-- How a search is answered: the archive that is still mounted, the guess, the archives that turn
out not to be available, and those at which the prompt is answered with quit. -/
structure Answers where
  cached : Option Nat
  guess : Int
  missing : List Int
  quit : List Int
deriving DecidableEq, Repr

namespace LogState

def mountOf (w : LogState) (answers : Answers) (arvNum : Int) : Mount :=
  match w.arvs.find? fun hdr => hdr.arvNum = arvNum with
  | none => .missing
  | some hdr =>
    if answers.quit.contains arvNum then .quit
    else if answers.missing.contains arvNum ∨ arvNum <= w.hdr.lastDeletedArvNum then .missing
    else .header hdr

def view (w : LogState) (answers : Answers) : ArchiveView where
  cached := answers.cached.bind fun i => w.arvs[i]?
  guess := answers.guess
  mount := w.mountOf answers

def isPageInArchive (w : LogState) (pageid : Int) : Bool :=
  pageid != -9 && pageid < w.hdr.nxarvPageid

/-- The next archive has the pages up to `lastPageid`. -/
def addArchive (w : LogState) (lastPageid : Int) : LogState :=
  { w with
    arvs := w.arvs ++ [⟨w.hdr.nxarvNum, w.hdr.nxarvPageid, lastPageid - w.hdr.nxarvPageid + 1⟩]
    hdr := {
      nxarvPageid := lastPageid + 1
      nxarvNum := int32 (w.hdr.nxarvNum + 1)
      lastArvNumForSyscrashes :=
        if w.hdr.lastArvNumForSyscrashes = -1 then w.hdr.nxarvNum
        else w.hdr.lastArvNumForSyscrashes
      lastDeletedArvNum := w.hdr.lastDeletedArvNum } }

/-- `logpb_archive_active_log`, as far as the header is concerned.  The pages before the one of
the last record are archived, but at least one page. -/
def archiveActiveLog (w : LogState) : LogState :=
  if w.hdr.nxarvPageid >= w.appendPageid then w
  else w.addArchive (max (w.prevPageid - 1) w.hdr.nxarvPageid)

end LogState

/-!
## Checkpoint
-/

/-- A dirty data page: its oldest change that is not on disk, whether it is flushed at once, and
otherwise what its oldest change is when the second attempt has failed too. -/
structure DirtyPage where
  oldestUnflushLsa : Option LogLsa
  doneFlush : Bool
  again : Option (Option LogLsa)
deriving DecidableEq, Repr

/-- The loop body of `pgbuf_flush_checkpoint`. -/
def flushCheckpointPage (flushUptoLsa : LogLsa) (prevChkptRedoLsa smallestLsa : Option LogLsa)
    (page : DirtyPage) : Option LogLsa :=
  match page.oldestUnflushLsa with
  | none => smallestLsa
  | some oldest =>
    if flushUptoLsa.lt oldest ∨ page.doneFlush = true ∨
        lsaLt (some oldest) prevChkptRedoLsa = true then smallestLsa
    else
      match page.again with
      | none => smallestLsa
      | some oldest =>
        if smallestLsa = none ∨ lsaLt oldest smallestLsa = true then oldest else smallestLsa

def pgbufFlushCheckpoint (flushUptoLsa : LogLsa) (prevChkptRedoLsa : Option LogLsa)
    (pages : List DirtyPage) : Option LogLsa :=
  pages.foldl (flushCheckpointPage flushUptoLsa prevChkptRedoLsa) none

/-- One descriptor of the scan of the transaction table. -/
def smallestBeginStep (smallestLsa : Option LogLsa) (tdes : Tdes) : Option LogLsa :=
  if tdes.lastLsa = none then smallestLsa
  else if smallestLsa = none ∨ lsaLt (some tdes.beginLsa) smallestLsa = true then
    some tdes.beginLsa
  else smallestLsa

/-- The smallest `begin_lsa` of a transaction with log records. -/
def smallestBeginLsa (trantable : List Tdes) : Option LogLsa :=
  trantable.foldl smallestBeginStep none

namespace LogState

/-- The part of `logpb_checkpoint` that writes the start record. -/
def startChkpt (w : LogState) (next : LogLsa) : LogState :=
  { w with phase := .started w.priorLsa, priorLsa := next }

/-- The data pages have been flushed; the transaction table is written and the header updated. -/
def recordChkpt (w : LogState) (newchkptLsa : LogLsa) (pages : List DirtyPage) (next : LogLsa) :
    LogState :=
  let redoLsa := (pgbufFlushCheckpoint newchkptLsa w.chkptRedoLsa pages).getD newchkptLsa
  { w with
    flushedLsaLowerBound :=
      if lsaLt w.flushedLsaLowerBound (some redoLsa) = true then some redoLsa
      else w.flushedLsaLowerBound
    chkptRedoLsa := some redoLsa
    phase := .recorded redoLsa (smallestBeginLsa w.trantable)
    priorLsa := next
    firsts := w.trantable.filterMap Tdes.first }

def smallestPageid (w : LogState) (redoLsa : LogLsa) (smallestLsa : Option LogLsa) : Int :=
  let smallest :=
    match w.flushedLsaLowerBound with
    | none => min (-1) (redoLsa.pageid : Int)
    | some flushed => min (flushed.pageid : Int) redoLsa.pageid
  match smallestLsa with
  | none => smallest
  | some lsa => min smallest lsa.pageid

/-- The end of `logpb_checkpoint`: archives that are not needed any longer. -/
def trimChkpt (w : LogState) (redoLsa : LogLsa) (smallestLsa : Option LogLsa)
    (answers : Answers) : LogState :=
  let syscrashes := w.hdr.lastArvNumForSyscrashes
  let syscrashes' :=
    if syscrashes ≠ w.hdr.nxarvNum ∧ syscrashes ≠ -1 then
      let pageid := w.smallestPageid redoLsa smallestLsa
      if w.isPageInArchive pageid then
        match fetchFromArchive w.hdr.nxarvNum (w.view answers) pageid with
        | none => syscrashes
        | some found => if found.1 <= syscrashes then syscrashes else found.1
      else w.hdr.nxarvNum
    else syscrashes
  { w with hdr.lastArvNumForSyscrashes := syscrashes', phase := .idle }

end LogState

/-- `logwr_get_min_copied_fpageid`: nothing when there is no log writer, or one that asks for the
header page. -/
def logwrGetMinCopiedFpageid (writers : List Int) : Option Int :=
  let min := writers.foldl min (2 ^ 47 - 1)
  if min = 2 ^ 47 - 1 ∨ min = -9 ∨ min = -1 then none else some min

namespace LogState

def numRemoveArvNum (w : LogState) (logMaxArchives : Int) (writers : List Int)
    (answers : Answers) : Option Int :=
  match logwrGetMinCopiedFpageid writers with
  | none => none
  | some minCopiedPageid =>
    if w.isPageInArchive minCopiedPageid then
      let arvNum := getArchiveNumber w.hdr.nxarvNum (w.view answers) minCopiedPageid
      if arvNum = -1 then none
      else
        let arvNum := if arvNum > 1 then arvNum - 1 else arvNum
        some (max logMaxArchives (w.hdr.nxarvNum - arvNum))
    else some logMaxArchives

/-- The last archive to delete, when `numRemove` archives are to be kept.  Only the sum with
`maxCount` and the last decrement can leave the range of an `int`. -/
def lastArvNumToDelete (w : LogState) (numRemove maxCount : Int) : Int :=
  let first := w.hdr.lastDeletedArvNum + 1
  let last := w.hdr.nxarvNum - numRemove
  let last :=
    if w.hdr.lastArvNumForSyscrashes ≠ -1 then min last w.hdr.lastArvNumForSyscrashes else last
  let last := if maxCount > 0 then min last (int32 (first + maxCount)) else last
  int32 (last - 1)

/-- `logpb_remove_archive_logs_exceed_limit`, when archives are not removed by force. -/
def removeArchiveLogsExceedLimit (w : LogState) (logMaxArchives maxCount : Int)
    (writers : List Int) (answers : Answers) : LogState :=
  if logMaxArchives = intMax then w
  else
    match w.numRemoveArvNum logMaxArchives writers answers with
    | none => w
    | some numRemove =>
      let first := w.hdr.lastDeletedArvNum + 1
      let last := w.lastArvNumToDelete numRemove maxCount
      if w.hdr.nxarvNum - first > numRemove ∧ last >= first then
        { w with
          hdr.lastDeletedArvNum := last
          removals := w.removals ++ [⟨first, last, maxCount, writers⟩] }
      else w

/-!
## Runs
-/

def hasTran (w : LogState) (trid : Nat) : Bool :=
  w.trantable.any fun tdes => tdes.trid == trid

/-- `logtb_get_new_tran_id`: `begin_lsa` is the address of the next record of any transaction. -/
def beginTran (w : LogState) (trid : Nat) : LogState :=
  { w with trantable := ⟨trid, w.priorLsa, none, none⟩ :: w.trantable }

def logTdes (lsa : LogLsa) (tdes : Tdes) : Tdes :=
  { tdes with lastLsa := some lsa, first := some (tdes.first.getD lsa) }

/-- A record of a transaction.  The first one begins it. -/
def log (w : LogState) (trid : Nat) (next : LogLsa) : LogState :=
  { w with
    priorLsa := next
    trantable := w.trantable.map fun tdes =>
      if tdes.trid = trid then logTdes w.priorLsa tdes else tdes
    firsts :=
      if w.trantable.any fun tdes => tdes.trid == trid && tdes.first == none then
        w.priorLsa :: w.firsts
      else w.firsts }

def endTran (w : LogState) (trid : Nat) : LogState :=
  { w with trantable := w.trantable.filter fun tdes => tdes.trid != trid }

/-- A new log.  Recovery would begin with its first record. -/
def start : LogState where
  hdr := ⟨0, 0, -1, -1⟩
  arvs := []
  priorLsa := ⟨0, 0⟩
  appendPageid := 0
  prevPageid := -1
  chkptRedoLsa := none
  flushedLsaLowerBound := none
  trantable := []
  phase := .idle
  firsts := []
  removals := []

end LogState

inductive LogLabel where
  | beginTran (trid : Nat)
  | log (trid : Nat) (next : LogLsa)
  | endTran (trid : Nat)
  | drain (appendPageid prevPageid : Int)
  | archive
  | startChkpt (next : LogLsa)
  | recordChkpt (pages : List DirtyPage) (next : LogLsa)
  | trimChkpt (answers : Answers)
  | failChkpt
  | remove (logMaxArchives : Nat) (maxCount : Int) (writers : List Int) (answers : Answers)
deriving DecidableEq, Repr

/-- A change that is not on disk is one of a log record.  The oldest one of a page that could not
be flushed is the same as before or a later one. -/
def DirtyPage.isCurrent (priorLsa : LogLsa) (page : DirtyPage) : Bool :=
  match page.oldestUnflushLsa, page.again with
  | some before, some (some now) => before.le now && now.le priorLsa
  | _, _ => true

namespace LogState

def enabled (w : LogState) : LogLabel -> Bool
  | .beginTran trid => !w.hasTran trid
  | .log trid next => w.hasTran trid && w.priorLsa.lt next
  | .endTran trid => w.hasTran trid
  | .drain appendPageid prevPageid =>
    w.prevPageid <= prevPageid && prevPageid <= appendPageid &&
      w.appendPageid <= appendPageid && appendPageid <= w.priorLsa.pageid
  | .archive => true
  | .startChkpt next => w.phase == .idle && w.priorLsa.lt next
  | .recordChkpt pages next =>
    match w.phase with
    | .started _ => w.priorLsa.lt next && pages.all (DirtyPage.isCurrent w.priorLsa)
    | _ => false
  | .trimChkpt _ =>
    match w.phase with
    | .recorded _ _ => true
    | _ => false
  | .failChkpt => w.phase != .idle
  | .remove logMaxArchives _ _ _ => decide ((logMaxArchives : Int) <= intMax)

def next (w : LogState) : LogLabel -> LogState
  | .beginTran trid => w.beginTran trid
  | .log trid next => w.log trid next
  | .endTran trid => w.endTran trid
  | .drain appendPageid prevPageid =>
    { w with appendPageid := appendPageid, prevPageid := prevPageid }
  | .archive => w.archiveActiveLog
  | .startChkpt next => w.startChkpt next
  | .recordChkpt pages next =>
    match w.phase with
    | .started newchkptLsa => w.recordChkpt newchkptLsa pages next
    | _ => w
  | .trimChkpt answers =>
    match w.phase with
    | .recorded redoLsa smallestLsa => w.trimChkpt redoLsa smallestLsa answers
    | _ => w
  | .failChkpt => { w with phase := .idle }
  | .remove logMaxArchives maxCount writers answers =>
    w.removeArchiveLogsExceedLimit logMaxArchives maxCount writers answers

end LogState

/-- Any number of transactions, checkpoints, archives and removals in any order. -/
def archiving : System LogState LogLabel :=
  .deterministic .start (fun w label => w.enabled label = true) LogState.next

end Rye.Transaction.LogPage
