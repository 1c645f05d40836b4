import Mathlib.Data.Int.Order.Basic
import Mathlib.Logic.Function.Basic
import Rye.Foundation.Runs

/-!
# Flushing pages and checkpoints

A page and the buffer that holds it.  `pgbuf_flush_page_with_wal` copies the page under the mutex
of the buffer, releases the mutex, forces the log, writes the copy and takes the mutex again; in
between the buffer is used by others.  Such a run of the function is a *flight* here.

A thread that would wait for a latch takes its step later.  What a page stores is one number, and
next to it stand the addresses of the logged changes that the page contains.
-/

namespace Rye.Storage.PageBuffer

open Foundation

/-- `NULL_LSA`, below every address of a log record. -/
def nullLsa : Int := -1

inductive PgbufLatchMode where
  | noLatch
  | read
  | write
  | flush
deriving DecidableEq, Repr

structure FileioPage where
  lsa : Int
  contents : Nat
  changes : List Int
deriving DecidableEq, Repr

/-- Who calls `pgbuf_flush_page_with_wal`; `latched` callers have set the latch to `FLUSH`. -/
inductive FlushPath where
  | checkpoint
  | checkpointFixed
  | victim
  | fixed
  | latched
deriving DecidableEq, Repr

inductive FlushPhase where
  | copied
  | logForced
  | written
  | failed
deriving DecidableEq, Repr

structure Flight where
  path : FlushPath
  copy : FileioPage
  oldestUnflushLsa : Int
  phase : FlushPhase
deriving DecidableEq, Repr

/-- A buffer with its page, the page on disk, and what the threads are doing with it: `holders`
has a thread once for each of its fixes, `log` the addresses of the log records about the page,
`logged` is the one that `pgbuf_set_lsa` has not seen yet, and `unmarked` says that
`pgbuf_set_dirty` is still to come. -/
structure PgbufBcb where
  page : FileioPage
  disk : FileioPage
  latchMode : PgbufLatchMode
  dirty : Bool
  avoidVictim : Bool
  asyncFlushRequest : Bool
  oldestUnflushLsa : Int
  holders : List Nat
  writer : Option Nat
  log : List Int
  logged : Option Int
  unmarked : Bool
  flights : List Flight
deriving DecidableEq, Repr

namespace PgbufBcb

/-- The first mutex section of `pgbuf_flush_page_with_wal`. -/
def pgbufFlushPageWithWal (path : FlushPath) (bcb : PgbufBcb) : PgbufBcb :=
  { bcb with
    avoidVictim := true
    asyncFlushRequest := false
    dirty := false
    oldestUnflushLsa := nullLsa
    flights := bcb.flights ++ [⟨path, bcb.page, bcb.oldestUnflushLsa, .copied⟩] }

/-- The second mutex section, with what a latched caller does after it.  A caller that set the
latch to `FLUSH` leaves it there when the write has failed. -/
def endFlight (i : Nat) (bcb : PgbufBcb) : PgbufBcb :=
  match bcb.flights[i]? with
  | some ⟨_, _, oldestUnflushLsa, .failed⟩ =>
    { bcb with
      dirty := true
      oldestUnflushLsa := oldestUnflushLsa
      avoidVictim := false
      flights := bcb.flights.eraseIdx i }
  | some ⟨path, _, _, _⟩ =>
    { bcb with
      avoidVictim := false
      latchMode :=
        if path = .latched then
          if bcb.holders.isEmpty then .noLatch else .read
        else bcb.latchMode
      flights := bcb.flights.eraseIdx i }
  | none => bcb

def setPhase (i : Nat) (phase : FlushPhase) (bcb : PgbufBcb) : PgbufBcb :=
  { bcb with flights := bcb.flights.modify i fun flight => { flight with phase := phase } }

/-- `fileio_write` of the copy. -/
def fileioWrite (i : Nat) (ok : Bool) (bcb : PgbufBcb) : PgbufBcb :=
  match bcb.flights[i]? with
  | some flight =>
    if ok then { bcb.setPhase i .written with disk := flight.copy } else bcb.setPhase i .failed
  | none => bcb

/-- Whether `pgbuf_latch_bcb_upon_fix` grants the request at once. -/
def grants (bcb : PgbufBcb) (thread : Nat) (forWrite : Bool) : Bool :=
  match bcb.latchMode with
  | .noLatch => true
  | .read => !forWrite || (bcb.holders ≠ [] && bcb.holders.all (· == thread))
  | .flush => !forWrite
  | .write => bcb.holders.contains thread

def pgbufLatchBcbUponFix (thread : Nat) (forWrite : Bool) (bcb : PgbufBcb) : PgbufBcb :=
  let bcb := { bcb with holders := thread :: bcb.holders }
  if forWrite then { bcb with latchMode := .write, writer := some thread }
  else if bcb.latchMode = .noLatch then { bcb with latchMode := .read }
  else bcb

def pgbufUnlatchBcbUponUnfix (thread : Nat) (bcb : PgbufBcb) : PgbufBcb :=
  let holders := bcb.holders.erase thread
  let bcb :=
    { bcb with
      holders := holders
      writer := if holders.contains thread then bcb.writer else bcb.writer.filter (· != thread)
      latchMode :=
        if holders.isEmpty && bcb.latchMode != PgbufLatchMode.flush then .noLatch
        else bcb.latchMode }
  if bcb.asyncFlushRequest then
    { bcb with latchMode := .flush }.pgbufFlushPageWithWal .latched
  else bcb

def pgbufFlushBcb (thread : Nat) (bcb : PgbufBcb) : PgbufBcb :=
  match bcb.latchMode with
  | .noLatch | .read => { bcb with latchMode := .flush }.pgbufFlushPageWithWal .latched
  | .write =>
    if bcb.holders.contains thread then bcb.pgbufFlushPageWithWal .fixed
    else { bcb with asyncFlushRequest := true }
  | .flush => bcb

/-- `pgbuf_flush_with_wal`, and `pgbuf_flush` up to its unfix. -/
def pgbufFlushWithWal (path : FlushPath) (bcb : PgbufBcb) : PgbufBcb :=
  if bcb.dirty then bcb.pgbufFlushPageWithWal path else bcb

def pgbufSetLsa (bcb : PgbufBcb) : PgbufBcb :=
  match bcb.logged with
  | some lsa =>
    { bcb with
      page := { bcb.page with lsa := lsa }
      oldestUnflushLsa :=
        if bcb.oldestUnflushLsa = nullLsa then lsa else bcb.oldestUnflushLsa
      logged := none }
  | none => bcb

end PgbufBcb

/-- A step of a thread at one buffer.  The page is logged and marked by the thread that has it
fixed for writing. -/
inductive BcbStep where
  | fix (thread : Nat) (forWrite : Bool)
  | unfix (thread : Nat)
  | change (thread : Nat) (contents : Nat)
  | log (thread : Nat)
  | setLsa (thread : Nat)
  | setDirty (thread : Nat)
  | flushVictim
  | flushBcb (thread : Nat)
  | flushWithWal (thread : Nat)
  | forceLog (i : Nat)
  | write (i : Nat) (ok : Bool)
  | endFlight (i : Nat)
deriving DecidableEq, Repr

namespace BcbStep

def enabled (bcb : PgbufBcb) : BcbStep -> Bool
  | .fix thread forWrite => bcb.grants thread forWrite
  | .unfix thread => bcb.holders.contains thread && (!bcb.unmarked || bcb.writer != some thread)
  | .change thread _ => bcb.writer == some thread
  | .log thread => bcb.writer == some thread && bcb.logged.isNone
  | .setLsa thread => bcb.writer == some thread && bcb.logged.isSome
  | .setDirty thread => bcb.writer == some thread && bcb.logged.isNone
  | .flushVictim => bcb.dirty && bcb.latchMode == .noLatch && !bcb.avoidVictim
  | .flushBcb _ => true
  | .flushWithWal thread => bcb.holders.contains thread
  | .forceLog i => bcb.flights[i]?.any (·.phase == .copied)
  | .write i _ => bcb.flights[i]?.any (·.phase == .logForced)
  | .endFlight i =>
    bcb.flights[i]?.any fun flight =>
      (flight.phase == .written || flight.phase == .failed) &&
        flight.path != .checkpoint && flight.path != .checkpointFixed

/-- `lsa` is the address that the next log record gets. -/
def run (lsa : Int) (bcb : PgbufBcb) : BcbStep -> PgbufBcb
  | .fix thread forWrite => bcb.pgbufLatchBcbUponFix thread forWrite
  | .unfix thread => bcb.pgbufUnlatchBcbUponUnfix thread
  | .change _ contents =>
    { bcb with page := { bcb.page with contents := contents }, unmarked := true }
  | .log _ =>
    { bcb with
      page := { bcb.page with changes := lsa :: bcb.page.changes }
      log := lsa :: bcb.log
      logged := some lsa
      unmarked := true }
  | .setLsa _ => bcb.pgbufSetLsa
  | .setDirty _ => { bcb with dirty := true, unmarked := false }
  | .flushVictim => bcb.pgbufFlushPageWithWal .victim
  | .flushBcb thread => bcb.pgbufFlushBcb thread
  | .flushWithWal _ => bcb.pgbufFlushWithWal .fixed
  | .forceLog i => bcb.setPhase i .logForced
  | .write i ok => bcb.fileioWrite i ok
  | .endFlight i => bcb.endFlight i

def isLog : BcbStep -> Bool
  | .log _ => true
  | _ => false

end BcbStep

/-!
## Checkpoints

The scan takes the buffers in any order.  A page that is evicted may come back in a buffer that the
scan has passed.
-/

/-- Where `pgbuf_flush_checkpoint` stands. -/
inductive ScanPoint (n : Nat) where
  | next
  | flushing (p : Fin n)
  | fixing (p : Fin n)
  | fixed (p : Fin n)
  | failed (p : Fin n)
deriving DecidableEq, Repr

structure Scan (n : Nat) where
  flushUptoLsa : Int
  prevChkptRedoLsa : Int
  smallestLsa : Int
  todo : List (Fin n)
  point : ScanPoint n
deriving DecidableEq, Repr

namespace Scan

variable {n : Nat}

def redoLsa (scan : Scan n) : Int :=
  if scan.smallestLsa = nullLsa then scan.flushUptoLsa else scan.smallestLsa

def skips (scan : Scan n) (bcb : PgbufBcb) : Bool :=
  !bcb.dirty || (bcb.oldestUnflushLsa ≠ nullLsa && scan.flushUptoLsa < bcb.oldestUnflushLsa)

def flushes (bcb : PgbufBcb) : Bool :=
  !bcb.avoidVictim && bcb.latchMode != .write

/-- A buffer that was not flushed is left alone: it was not logged, or is taken for invalid. -/
def leaves (scan : Scan n) (bcb : PgbufBcb) : Bool :=
  bcb.oldestUnflushLsa = nullLsa ||
    (scan.prevChkptRedoLsa ≠ nullLsa && bcb.oldestUnflushLsa < scan.prevChkptRedoLsa)

def retry (scan : Scan n) (p : Fin n) (bcb : PgbufBcb) : PgbufBcb × Scan n :=
  if scan.leaves bcb then (bcb, { scan with point := .next })
  else ({ bcb with avoidVictim := true }, { scan with point := .fixing p })

/-- The flight of the checkpoint has ended; only a buffer that is not fixed is tried again. -/
def ended (scan : Scan n) (p : Fin n) (i : Nat) (bcb : PgbufBcb) : PgbufBcb × Scan n :=
  match bcb.flights[i]? with
  | some ⟨.checkpoint, _, _, .failed⟩ => scan.retry p (bcb.endFlight i)
  | some ⟨.checkpointFixed, _, _, .failed⟩ => (bcb.endFlight i, { scan with point := .failed p })
  | some ⟨.checkpoint, _, _, .written⟩ | some ⟨.checkpointFixed, _, _, .written⟩ =>
    (bcb.endFlight i, { scan with point := .next })
  | _ => (bcb, scan)

/-- The smallest `oldest_unflush_lsa` of the buffers that stay dirty. -/
def gaveUp (scan : Scan n) (bcb : PgbufBcb) : PgbufBcb × Scan n :=
  ({ bcb with avoidVictim := false },
    { scan with
      smallestLsa :=
        if scan.smallestLsa = nullLsa || bcb.oldestUnflushLsa < scan.smallestLsa then
          bcb.oldestUnflushLsa
        else scan.smallestLsa
      point := .next })

end Scan

inductive ScanStep (n : Nat) where
  | examine (p : Fin n)
  | fix (granted : Bool)
  | flush
  | endFlight (i : Nat)
  | giveUp
deriving DecidableEq, Repr

def ScanStep.page {n : Nat} (scan : Scan n) : ScanStep n -> Option (Fin n)
  | .examine p => if scan.point = .next && scan.todo.contains p then some p else none
  | .fix _ =>
    match scan.point with
    | .fixing p => some p
    | _ => none
  | .flush =>
    match scan.point with
    | .fixed p => some p
    | _ => none
  | .endFlight _ =>
    match scan.point with
    | .flushing p => some p
    | _ => none
  | .giveUp =>
    match scan.point with
    | .failed p => some p
    | _ => none

/-- What `pgbuf_flush_checkpoint` does with the buffer of the page `p`. -/
def ScanStep.run {n : Nat} (scan : Scan n) (p : Fin n) (bcb : PgbufBcb) :
    ScanStep n -> PgbufBcb × Scan n
  | .examine _ =>
    let scan := { scan with todo := scan.todo.erase p }
    if scan.skips bcb then (bcb, scan)
    else if Scan.flushes bcb then
      (bcb.pgbufFlushPageWithWal .checkpoint, { scan with point := .flushing p })
    else scan.retry p bcb
  | .fix granted => (bcb, { scan with point := if granted then .fixed p else .failed p })
  | .flush =>
    if bcb.dirty then
      (bcb.pgbufFlushPageWithWal .checkpointFixed, { scan with point := .flushing p })
    else (bcb, { scan with point := .next })
  | .endFlight i => scan.ended p i bcb
  | .giveUp => scan.gaveUp bcb

/-- A finished checkpoint: its `redo_lsa` and the pages on disk at `fileio_synchronize_all`. -/
structure Chkpt (n : Nat) where
  redoLsa : Int
  synced : Fin n -> FileioPage

structure Pool (n : Nat) where
  bcb : Fin n -> PgbufBcb
  nextLsa : Int
  nxioLsa : Int
  chkptRedoLsa : Int
  scan : Option (Scan n)
  chkpts : List (Chkpt n)

inductive PoolLabel (n : Nat) where
  | page (p : Fin n) (step : BcbStep)
  | evict (p : Fin n) (passed : Bool)
  | startChkpt
  | scan (step : ScanStep n)
  | synchronize
  | failChkpt
deriving DecidableEq, Repr

namespace Pool

variable {n : Nat}

def setBcb (w : Pool n) (p : Fin n) (bcb : PgbufBcb) : Pool n :=
  { w with bcb := Function.update w.bcb p bcb }

/-- The end of the forced log after `logpb_flush_log_for_wal` of a copy that is about to be
written. -/
def nxioAfter (w : Pool n) (p : Fin n) : BcbStep -> Int
  | .forceLog i =>
    match (w.bcb p).flights[i]? with
    | some flight => if w.nxioLsa <= flight.copy.lsa then w.nextLsa else w.nxioLsa
    | none => w.nxioLsa
  | _ => w.nxioLsa

def page (w : Pool n) (p : Fin n) (step : BcbStep) : Pool n :=
  { w.setBcb p (step.run w.nextLsa (w.bcb p)) with
    nextLsa := if step.isLog then w.nextLsa + 1 else w.nextLsa
    nxioLsa := w.nxioAfter p step }

/-- `pgbuf_victimize_bcb`, and the page is read again. -/
def evict (w : Pool n) (p : Fin n) (passed : Bool) : Pool n :=
  { w.setBcb p
      { w.bcb p with
        page := (w.bcb p).disk, oldestUnflushLsa := nullLsa, asyncFlushRequest := false } with
    scan := w.scan.map fun scan =>
      { scan with todo := if passed then scan.todo.erase p else scan.todo } }

/-- `logpb_checkpoint` up to the scan of the buffers. -/
def startChkpt (w : Pool n) : Pool n :=
  { w with
    nextLsa := w.nextLsa + 1
    nxioLsa := w.nextLsa + 1
    scan := some ⟨w.nextLsa, w.chkptRedoLsa, nullLsa, List.finRange n, .next⟩ }

def scanStep (w : Pool n) (scan : Scan n) (p : Fin n) (step : ScanStep n) : Pool n :=
  { w.setBcb p (step.run scan p (w.bcb p)).1 with scan := some (step.run scan p (w.bcb p)).2 }

/-- `fileio_synchronize_all` and the rest of `logpb_checkpoint`. -/
def synchronize (w : Pool n) (scan : Scan n) : Pool n :=
  { w with
    chkptRedoLsa := scan.redoLsa
    scan := none
    chkpts := ⟨scan.redoLsa, fun p => (w.bcb p).disk⟩ :: w.chkpts }

def enabled (w : Pool n) : PoolLabel n -> Bool
  | .page p step => step.enabled (w.bcb p)
  | .evict p _ =>
    !(w.bcb p).dirty && (w.bcb p).holders.isEmpty && !(w.bcb p).avoidVictim &&
      (w.bcb p).latchMode == .noLatch
  | .startChkpt => w.scan.isNone
  | .scan step =>
    w.scan.any fun scan =>
      (step.page scan).any fun p => step != .fix true || (w.bcb p).latchMode != .write
  | .synchronize => w.scan.any fun scan => scan.point == .next && scan.todo.isEmpty
  | .failChkpt => w.scan.isSome

def next (w : Pool n) : PoolLabel n -> Pool n
  | .page p step => w.page p step
  | .evict p passed => w.evict p passed
  | .startChkpt => w.startChkpt
  | .scan step =>
    match w.scan with
    | some scan =>
      match step.page scan with
      | some p => w.scanStep scan p step
      | none => w
    | none => w
  | .synchronize =>
    match w.scan with
    | some scan => w.synchronize scan
    | none => w
  | .failChkpt => { w with scan := none }

end Pool

def emptyPage : FileioPage := ⟨nullLsa, 0, []⟩

def freshBcb : PgbufBcb :=
  ⟨emptyPage, emptyPage, .noLatch, false, false, false, nullLsa, [], none, [], none, false, []⟩

def Pool.start (n : Nat) : Pool n :=
  ⟨fun _ => freshBcb, 0, 0, nullLsa, none, []⟩

/-- Any number of threads, flushes and checkpoints over `n` pages. -/
def pgbufPool (n : Nat) : System (Pool n) (PoolLabel n) :=
  .deterministic (.start n) (fun w label => w.enabled label = true) Pool.next

end Rye.Storage.PageBuffer
