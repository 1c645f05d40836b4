import Rye.Foundation.Runs
import Rye.Transaction.Lock.Modes

/-!
# One lock resource

A lock resource is the pair of lists kept by `LK_RES`: the holders of the lock
and the requests waiting for it.  The functions below follow the object part
of the lock manager: positioning a holder, granting blocked holders and
blocked waiters, requesting and converting a lock, and releasing it.

Each function runs under the mutex of the resource, so it is a pure function
on the resource.  A resource that is not in the hash chain is `none`.
-/

namespace Rye.Transaction

/-!
## Entries

An entry points to the thread that waits on it.  What the lock manager reads
from that thread is whether its `lockwait` field is still set, and what the
thread itself will do next is decided by the way it was woken up.
-/

inductive WaitState where
  /-- the thread does not wait on the entry -/
  | running
  /-- suspended by `lock_suspend` -/
  | suspended
  /-- signalled by an interrupt it has not seen; `lockwait` is still set -/
  | interrupted
  /-- returned from `lock_suspend` with the interrupt; `lockwait` is still set -/
  | leaving
  /-- resumed by `lock_resume` with a state other than `LOCK_RESUMED` -/
  | woken
deriving DecidableEq, Repr

structure LkEntry where
  tranIndex : Nat
  grantedMode : Lock
  blockedMode : Lock
  count : Int
  wait : WaitState
deriving DecidableEq, Repr

structure LkRes where
  totalHoldersMode : Lock
  totalWaitersMode : Lock
  holder : List LkEntry
  waiter : List LkEntry
deriving DecidableEq, Repr

namespace LkEntry

/-- The test `LK_IS_LOCKWAIT_THREAD` on the thread of the entry. -/
def isLockwaitThread (e : LkEntry) : Bool :=
  match e.wait with
  | .suspended | .interrupted | .leaving => true
  | .running | .woken => false

/-- The entry after its blocked mode was granted and its thread resumed. -/
def grant (e : LkEntry) : LkEntry :=
  { e with
    grantedMode := e.blockedMode
    blockedMode := .null
    wait := match e.wait with
      | .leaving => .woken
      | _ => .running }

end LkEntry

def lockInitializeEntryAsGranted (tranIndex : Nat) (lock : Lock) : LkEntry where
  tranIndex := tranIndex
  grantedMode := lock
  blockedMode := .null
  count := 1
  wait := .running

def lockInitializeEntryAsBlocked (tranIndex : Nat) (lock : Lock) : LkEntry where
  tranIndex := tranIndex
  grantedMode := .null
  blockedMode := lock
  count := 1
  wait := .suspended

/-!
## Walking the lists
-/

/-- Insert in front of the first entry that satisfies `p`, or at the end. -/
def insertBefore (p : LkEntry -> Bool) (e : LkEntry) : List LkEntry -> List LkEntry
  | [] => [e]
  | i :: rest => if p i then e :: i :: rest else i :: insertBefore p e rest

def findTran (tranIndex : Nat) (es : List LkEntry) : Option LkEntry :=
  es.find? (fun i => i.tranIndex == tranIndex)

def eraseTran (tranIndex : Nat) (es : List LkEntry) : List LkEntry :=
  es.eraseP (fun i => i.tranIndex == tranIndex)

def updateTran (tranIndex : Nat) (f : LkEntry -> LkEntry) :
    List LkEntry -> List LkEntry
  | [] => []
  | i :: rest =>
    if i.tranIndex == tranIndex then f i :: rest
    else i :: updateTran tranIndex f rest

/-!
## The Upgrader Positioning Rule

An unblocked entry goes in front of the unblocked holders.  A blocked entry
goes in front of the first blocked holder it could be granted together with
(`ta`), else in front of the first blocked holder that waits for it while it
does not wait for that holder (`tb`), else after the blocked holders (`tc`).
-/

def isUnblocked (i : LkEntry) : Bool :=
  i.blockedMode == .null

def isTa (e i : LkEntry) : Bool :=
  i.blockedMode != .null && lockComp e.blockedMode i.blockedMode == .yes

def isTb (e i : LkEntry) : Bool :=
  i.blockedMode != .null && lockComp e.blockedMode i.grantedMode == .yes &&
    lockComp i.blockedMode e.grantedMode == .no

def lockPositionHolderEntry (e : LkEntry) (holder : List LkEntry) : List LkEntry :=
  if e.blockedMode = .null then insertBefore isUnblocked e holder
  else if holder.any (isTa e) then insertBefore (isTa e) e holder
  else if holder.any (isTb e) then insertBefore (isTb e) e holder
  else insertBefore isUnblocked e holder

/-!
## Granting

The three grant loops walk a list with a `check` pointer.  The entries behind
the pointer are those the loop decided to skip; they are the accumulator of
the recursion.
-/

/--
The loop of `lock_grant_blocked_holder`.  The blocked run that starts at
`check` is `blocked`, what follows it is `rest`: a granted entry moves between
the two.
-/
def grantBlockedHolderLoop (skipped : List LkEntry) :
    List LkEntry -> List LkEntry -> List LkEntry
  | [], rest => skipped ++ rest
  | check :: blocked, rest =>
    let mode := convModes ((blocked ++ rest).map LkEntry.grantedMode)
    if lockComp check.blockedMode mode = .no then
      skipped ++ check :: blocked ++ rest
    else if check.isLockwaitThread then
      grantBlockedHolderLoop skipped blocked (check.grant :: rest)
    else
      grantBlockedHolderLoop (skipped ++ [check]) blocked rest

def lockGrantBlockedHolder (r : LkRes) : LkRes :=
  { r with
    holder := grantBlockedHolderLoop [] (r.holder.takeWhile fun i => !isUnblocked i)
      (r.holder.dropWhile fun i => !isUnblocked i) }

/-- Position a new holder and add its granted mode to the total. -/
def LkRes.addHolder (r : LkRes) (e : LkEntry) : LkRes :=
  { r with
    holder := lockPositionHolderEntry e r.holder
    totalHoldersMode := lockConv e.grantedMode r.totalHoldersMode }

/-- Move a waiter that is no longer in the waiter list to the holders. -/
def LkRes.accept (r : LkRes) (check : LkEntry) : LkRes :=
  r.addHolder check.grant

/--
The loop of `lock_grant_blocked_waiter`; the waiter list of the resource is
rebuilt when the loop stops, and `changed` is `change_total_waiters_mode`.
-/
def grantBlockedWaiterLoop (skipped : List LkEntry) (changed : Bool) (r : LkRes) :
    List LkEntry -> LkRes × Bool
  | [] => ({ r with waiter := skipped }, changed)
  | check :: rest =>
    if lockComp check.blockedMode r.totalHoldersMode = .no then
      ({ r with waiter := skipped ++ check :: rest }, changed)
    else if check.isLockwaitThread then
      grantBlockedWaiterLoop skipped true (r.accept check) rest
    else
      grantBlockedWaiterLoop (skipped ++ [check]) changed r rest

def lockGrantBlockedWaiter (r : LkRes) : LkRes :=
  let (r', changed) := grantBlockedWaiterLoop [] false r r.waiter
  if changed then
    { r' with totalWaitersMode := convModes (r'.waiter.map LkEntry.blockedMode) }
  else r'

/--
The second loop of `lock_grant_blocked_waiter_partial`, started at `from_whom`
with the waiters before it in `before` and their conversion in `mode`.
-/
def grantBlockedWaiterPartialLoop (before : List LkEntry) (mode : Lock) (r : LkRes) :
    List LkEntry -> LkRes
  | [] => { r with waiter := before, totalWaitersMode := mode }
  | check :: rest =>
    if lockComp check.blockedMode mode ≠ .yes then
      let waiter := before ++ check :: rest
      { r with
        waiter := waiter
        totalWaitersMode := convModes (waiter.map LkEntry.blockedMode) }
    else if lockComp check.blockedMode r.totalHoldersMode = .no then
      grantBlockedWaiterPartialLoop (before ++ [check]) (lockConv check.blockedMode mode) r rest
    else if check.isLockwaitThread then
      grantBlockedWaiterPartialLoop before mode (r.accept check) rest
    else
      grantBlockedWaiterPartialLoop (before ++ [check]) (lockConv check.blockedMode mode) r rest

def lockGrantBlockedWaiterPartial (r : LkRes) (before fromWhom : List LkEntry) : LkRes :=
  grantBlockedWaiterPartialLoop before (convModes (before.map LkEntry.blockedMode)) r fromWhom

end Rye.Transaction
