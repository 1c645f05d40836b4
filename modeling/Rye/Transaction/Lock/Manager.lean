import Rye.Transaction.Lock.Resource

/-!
# Requests, releases and the steps of a resource

`lock_internal_perform_lock_object` and `lock_internal_perform_unlock_object`
change one resource under its mutex.  Between the two calls a blocked thread
sleeps; the timeout and deadlock threads may wake it up, and the woken thread
takes back its own request later.  The steps of a resource are these calls and
wake-ups in any order.
-/

namespace Rye.Transaction

open Foundation

/-!
## Requesting a lock
-/

/-- How a call of `lock_internal_perform_lock_object` leaves the resource mutex. -/
inductive LockResult where
  | granted
  | notGrantedDueTimeout
  | notGrantedDueError
  /-- the caller sleeps on its own entry -/
  | blocked
  /-- another thread of the transaction waits here; the caller sleeps behind it -/
  | behindOtherThread
  /-- that other thread was woken up meanwhile; the caller starts again -/
  | startAgain
deriving DecidableEq, Repr

def lkZeroWait : Int := 0
def lkForceZeroWait : Int := -2

/-- Where a caller goes when another thread of its transaction waits on `e`. -/
def joinOtherThread (e : LkEntry) : LockResult :=
  if e.isLockwaitThread then .behindOtherThread else .startAgain

/-- The answer to a caller that cannot be granted and does not want to wait. -/
def zeroWaitResult (alloc : Bool) (waitMsecs : Int) : LockResult :=
  if waitMsecs = lkZeroWait && !alloc then .notGrantedDueError
  else .notGrantedDueTimeout

/-- Append a request to the waiters and add its blocked mode to the total. -/
def LkRes.appendWaiter (r : LkRes) (e : LkEntry) : LkRes :=
  { r with
    waiter := r.waiter ++ [e]
    totalWaitersMode := lockConv e.blockedMode r.totalWaitersMode }

/-- A request of a transaction that is not among the holders. -/
def lockNewRequest (alloc : Bool) (tranIndex : Nat) (lock : Lock) (waitMsecs : Int)
    (r : LkRes) : LkRes × LockResult :=
  let groupMode := convModes (r.holder.map LkEntry.grantedMode)
  let compat :=
    if lockComp lock r.totalHoldersMode ≠ .yes then lockComp lock groupMode
    else lockComp lock r.totalHoldersMode
  if compat = .yes then
    if alloc then (r.addHolder (lockInitializeEntryAsGranted tranIndex lock), .granted)
    else (r, .notGrantedDueError)
  else if waitMsecs = lkZeroWait ∨ waitMsecs = lkForceZeroWait then
    (r, zeroWaitResult alloc waitMsecs)
  else
    match findTran tranIndex r.waiter with
    | some waitEntry => (r, joinOtherThread waitEntry)
    | none =>
      if alloc then
        (r.appendWaiter (lockInitializeEntryAsBlocked tranIndex lock), .blocked)
      else (r, .notGrantedDueError)

def LkEntry.countUp (e : LkEntry) : LkEntry :=
  { e with count := e.count + 1 }

/-- Count one more request of the entry of a transaction. -/
def LkRes.countUp (r : LkRes) (tranIndex : Nat) : LkRes :=
  { r with holder := updateTran tranIndex LkEntry.countUp r.holder }

/-- The entry of a holder whose conversion to `newMode` is granted. -/
def LkEntry.convert (newMode : Lock) (e : LkEntry) : LkEntry :=
  { e with grantedMode := newMode, count := e.count + 1 }

/-- Strengthen the granted mode of the entry of a transaction in place. -/
def LkRes.convert (r : LkRes) (tranIndex : Nat) (lock newMode : Lock) : LkRes :=
  { r with
    holder := updateTran tranIndex (LkEntry.convert newMode) r.holder
    totalHoldersMode := lockConv lock r.totalHoldersMode }

/-- The entry of a holder that has to wait for the conversion to `newMode`. -/
def LkEntry.block (e : LkEntry) (newMode : Lock) : LkEntry :=
  { e with blockedMode := newMode, count := e.count + 1, wait := .suspended }

/-- Reposition the entry of a transaction as a blocked holder. -/
def LkRes.blockHolder (r : LkRes) (tranIndex : Nat) (lock : Lock) (e : LkEntry) : LkRes :=
  { r with
    holder := lockPositionHolderEntry e (eraseTran tranIndex r.holder)
    totalHoldersMode := lockConv lock r.totalHoldersMode }

/-- A request of a transaction that holds the lock through `entry`. -/
def lockConversion (tranIndex : Nat) (lock : Lock) (waitMsecs : Int) (r : LkRes)
    (entry : LkEntry) : LkRes × LockResult :=
  let newMode := lockConv lock entry.grantedMode
  if newMode = entry.grantedMode then (r.countUp tranIndex, .granted)
  else
    let others := eraseTran tranIndex r.holder
    let groupMode := convModes (others.map LkEntry.grantedMode)
    if lockComp newMode groupMode = .yes then
      (r.convert tranIndex lock newMode, .granted)
    else if waitMsecs = lkZeroWait ∨ waitMsecs = lkForceZeroWait then
      (r, .notGrantedDueTimeout)
    else if entry.blockedMode ≠ .null then
      (r, joinOtherThread entry)
    else
      (r.blockHolder tranIndex lock (entry.block newMode), .blocked)

/--
`lock_internal_perform_lock_object`; `alloc` says whether the free lists of
resources and entries can serve the call.
-/
def lockInternalPerformLockObject (alloc : Bool) (tranIndex : Nat) (lock : Lock)
    (waitMsecs : Int) : Option LkRes -> Option LkRes × LockResult
  | none =>
    if alloc then
      (some
        { totalHoldersMode := lock
          totalWaitersMode := .null
          holder := [lockInitializeEntryAsGranted tranIndex lock]
          waiter := [] }, .granted)
    else (none, .notGrantedDueError)
  | some r =>
    match findTran tranIndex r.holder with
    | none =>
      let (r', result) := lockNewRequest alloc tranIndex lock waitMsecs r
      (some r', result)
    | some entry =>
      let (r', result) := lockConversion tranIndex lock waitMsecs r entry
      (some r', result)

/-!
What a request can do to the resource, with the test that led there.
-/

theorem lockNewRequest_cases (alloc : Bool) (tranIndex : Nat) (lock : Lock)
    (waitMsecs : Int) (r : LkRes) :
    (lockNewRequest alloc tranIndex lock waitMsecs r).1 = r ∨
      ((lockComp lock r.totalHoldersMode = .yes ∨
          lockComp lock (convModes (r.holder.map LkEntry.grantedMode)) = .yes) ∧
        (lockNewRequest alloc tranIndex lock waitMsecs r).1 =
          r.addHolder (lockInitializeEntryAsGranted tranIndex lock)) ∨
      (lockComp lock r.totalHoldersMode ≠ .yes ∧
        (lockNewRequest alloc tranIndex lock waitMsecs r).1 =
          r.appendWaiter (lockInitializeEntryAsBlocked tranIndex lock)) := by
  unfold lockNewRequest
  dsimp only
  split_ifs with htotal hcompat _ _ _ hcompat
  · exact .inr (.inl ⟨.inr hcompat, rfl⟩)
  · exact .inl rfl
  · exact .inl rfl
  · cases findTran tranIndex r.waiter <;> simp [htotal]
  · cases findTran tranIndex r.waiter <;> simp
  · exact .inr (.inl ⟨.inl hcompat, rfl⟩)
  · exact .inl rfl
  · exact absurd hcompat (by simpa using htotal)
  · exact absurd hcompat (by simpa using htotal)
  · exact absurd hcompat (by simpa using htotal)

theorem lockConversion_cases (tranIndex : Nat) (lock : Lock) (waitMsecs : Int) (r : LkRes)
    (entry : LkEntry) :
    (lockConversion tranIndex lock waitMsecs r entry).1 = r ∨
      (lockConversion tranIndex lock waitMsecs r entry).1 = r.countUp tranIndex ∨
      (lockComp (lockConv lock entry.grantedMode)
          (convModes ((eraseTran tranIndex r.holder).map LkEntry.grantedMode)) = .yes ∧
        (lockConversion tranIndex lock waitMsecs r entry).1 =
          r.convert tranIndex lock (lockConv lock entry.grantedMode)) ∨
      (entry.blockedMode = .null ∧ lockComp (lockConv lock entry.grantedMode)
          (convModes ((eraseTran tranIndex r.holder).map LkEntry.grantedMode)) ≠ .yes ∧
        (lockConversion tranIndex lock waitMsecs r entry).1 =
          r.blockHolder tranIndex lock (entry.block (lockConv lock entry.grantedMode))) := by
  unfold lockConversion
  dsimp only
  split_ifs with hsame hcompat hzero hblocked
  · exact .inr (.inl rfl)
  · exact .inr (.inr (.inl ⟨hcompat, rfl⟩))
  · exact .inl rfl
  · exact .inl rfl
  · exact .inr (.inr (.inr ⟨by simpa using hblocked, hcompat, rfl⟩))

/-!
## Releasing a lock

The caller passes its own entry.  `release_flag` false only counts down, and
is also how a woken thread takes back a blocked request.
-/

/-- Both modes of an entry, in the order the totals are computed. -/
def LkEntry.modes (e : LkEntry) : List Lock :=
  [e.grantedMode, e.blockedMode]

/-- The conversion of all granted and blocked modes of the holders. -/
def holdersMode (holder : List LkEntry) : Lock :=
  convModes (holder.flatMap LkEntry.modes)

def LkEntry.countDown (releaseFlag : Bool) (e : LkEntry) : LkEntry :=
  if releaseFlag then e else { e with count := e.count - 1 }

def LkEntry.unblock (e : LkEntry) : LkEntry :=
  { e with blockedMode := .null }

/-- The holders after the entry `curr` was taken out and maybe put back unblocked. -/
def remainingHolders (releaseFlag : Bool) (curr : LkEntry) (others : List LkEntry) :
    List LkEntry :=
  if releaseFlag = false ∧ 0 < curr.count then lockPositionHolderEntry curr.unblock others
  else others

def LkRes.setHolder (r : LkRes) (holder : List LkEntry) : LkRes :=
  { r with holder := holder, totalHoldersMode := holdersMode holder }

/-- The part of the release that removes the holder entry `curr`. -/
def releaseHolder (dealloc releaseFlag : Bool) (tranIndex : Nat) (r : LkRes)
    (curr : LkEntry) : Option LkRes :=
  let holder := remainingHolders releaseFlag curr (eraseTran tranIndex r.holder)
  if holder = [] ∧ r.waiter = [] then
    if dealloc then none else some (r.setHolder holder)
  else
    some (lockGrantBlockedWaiter (lockGrantBlockedHolder (r.setHolder holder)))

/-- The part of the release that takes a request back from the waiters. -/
def releaseWaiter (tranIndex : Nat) (r : LkRes) : LkRes :=
  let before := r.waiter.takeWhile (fun i => i.tranIndex != tranIndex)
  match r.waiter.dropWhile (fun i => i.tranIndex != tranIndex) with
  | [] => r
  | [_] =>
    { r with
      waiter := before
      totalWaitersMode := convModes (before.map LkEntry.blockedMode) }
  | _ :: fromWhom => lockGrantBlockedWaiterPartial r before fromWhom

/--
`lock_internal_perform_unlock_object` for the entry of `tranIndex`; `dealloc`
says whether an emptied resource is still empty when `lock_dealloc_resource`
has the hash mutex.
-/
def lockInternalPerformUnlockObject (dealloc releaseFlag : Bool) (tranIndex : Nat)
    (r : LkRes) : Option LkRes :=
  match findTran tranIndex r.holder with
  | some entry =>
    let curr := entry.countDown releaseFlag
    if releaseFlag = false ∧ curr.blockedMode = .null ∧ 0 < curr.count then
      some { r with
        holder := updateTran tranIndex (LkEntry.countDown releaseFlag) r.holder }
    else
      releaseHolder dealloc releaseFlag tranIndex r curr
  | none => some (releaseWaiter tranIndex r)

/-- Change the wait state of the threads of a transaction. -/
def LkRes.mapWait (r : LkRes) (tranIndex : Nat) (f : WaitState -> WaitState) : LkRes :=
  let g := fun i : LkEntry =>
    if i.tranIndex = tranIndex then { i with wait := f i.wait } else i
  { r with holder := r.holder.map g, waiter := r.waiter.map g }

/-- A call of `lock_resume` with a timeout, deadlock or interrupt state. -/
def WaitState.wake : WaitState -> WaitState
  | .suspended | .interrupted | .leaving => .woken
  | w => w

/-- A call of `thread_wakeup` with `THREAD_RESUME_DUE_TO_INTERRUPT`. -/
def WaitState.interrupt : WaitState -> WaitState
  | .suspended => .interrupted
  | w => w

/-- The interrupted thread returns from `lock_suspend`. -/
def WaitState.notice : WaitState -> WaitState
  | .interrupted => .leaving
  | w => w

def LkEntry.isGivingUp (e : LkEntry) : Bool :=
  e.wait == .woken || e.wait == .leaving

inductive LockStep where
  | request (tranIndex : Nat) (lock : Lock) (waitMsecs : Int) (alloc : Bool)
  | release (tranIndex : Nat) (releaseFlag dealloc : Bool)
  | wake (tranIndex : Nat)
  | interrupt (tranIndex : Nat)
  | notice (tranIndex : Nat)
  | giveUp (tranIndex : Nat) (dealloc : Bool)
deriving DecidableEq, Repr

/-- A release reaches the resource through the hold list of its transaction. -/
def LkRes.release (r : LkRes) (dealloc releaseFlag : Bool) (tranIndex : Nat) :
    Option LkRes :=
  if (findTran tranIndex r.holder).isSome then
    lockInternalPerformUnlockObject dealloc releaseFlag tranIndex r
  else some r

/-- A thread that returned from `lock_suspend` without the lock. -/
def LkRes.giveUp (r : LkRes) (dealloc : Bool) (tranIndex : Nat) : Option LkRes :=
  if (r.holder ++ r.waiter).any
      (fun i => i.tranIndex == tranIndex && i.isGivingUp) then
    lockInternalPerformUnlockObject dealloc false tranIndex (r.mapWait tranIndex fun _ => .running)
  else some r

def lockNext : Option LkRes -> LockStep -> Option LkRes
  | res, .request tranIndex lock waitMsecs alloc =>
    (lockInternalPerformLockObject alloc tranIndex lock waitMsecs res).1
  | none, _ => none
  | some r, .release tranIndex releaseFlag dealloc => r.release dealloc releaseFlag tranIndex
  | some r, .wake tranIndex => some (r.mapWait tranIndex WaitState.wake)
  | some r, .interrupt tranIndex => some (r.mapWait tranIndex WaitState.interrupt)
  | some r, .notice tranIndex => some (r.mapWait tranIndex WaitState.notice)
  | some r, .giveUp tranIndex dealloc => r.giveUp dealloc tranIndex

/-- Requests are made in the modes `S`, `U` and `X` only. -/
def LockStep.Admissible : LockStep -> Prop
  | .request _ lock _ _ => lock.Requestable
  | _ => True

instance (a : LockStep) : Decidable a.Admissible :=
  match a with
  | .request _ lock _ _ => inferInstanceAs (Decidable lock.Requestable)
  | .release _ _ _ => .isTrue trivial
  | .wake _ => .isTrue trivial
  | .interrupt _ => .isTrue trivial
  | .notice _ => .isTrue trivial
  | .giveUp _ _ => .isTrue trivial

/-- The runs of one lock resource, which is not in the hash chain at first. -/
def lockSystem : System (Option LkRes) LockStep :=
  System.deterministic none (fun _ a => a.Admissible) lockNext

end Rye.Transaction
