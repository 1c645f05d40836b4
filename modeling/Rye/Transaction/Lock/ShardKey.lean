import Rye.Transaction.Lock.Manager

/-!
# Shard key locks

A transaction works on the rows of one shard key.  `lock_shard_key_lock` is called
for every statement; it checks the arguments, locks the key for a statement that
writes, and records the key in the descriptor of the transaction.  The lock may
have to be waited for, so a call can end in a later step than it began.

The locks of the keys are lock resources.  Everything a call finds outside of them
is an argument of the step: whether the group is owned, at both times it is asked
for, whether the classes are found, and whether the transaction holds the lock for
schema changes.
-/

namespace Rye.Transaction

open Foundation

structure ShardKeys (K : Type) where
  systemDdl : K
  shardCatalog : K
  shardGlobal : K

def nullGroupid : Int := -2147483648
def globalGroupid : Int := 0

inductive TableOid where
  | gidSkey
  | applier
  | other
deriving DecidableEq, Repr

/-- The arguments of a call with what the call finds.  A missing key is `none`, a key with
the value null is `some none`. -/
structure ShardKeyCall (K : Type) where
  shardGroupid : Int
  reqShardKey : Option (Option K)
  classOid : Option TableOid
  isShardTable : Bool
  isCatalogTable : Bool
  forUpdate : Bool
  classesFound : Bool
  ownsGroup : Bool
  stillOwnsGroup : Bool
  holdsDdlLock : Bool

inductive ShardKeyError where
  | unknownClassname
  | invalidGroupid
  | invalidShardKey
  | cantLockTwoShardKeyATran
deriving DecidableEq, Repr

section

variable {K : Type} [DecidableEq K]

def shardTableKey (keys : ShardKeys K) (call : ShardKeyCall K) : Except ShardKeyError K :=
  match call.reqShardKey with
  | some (some shardKey) =>
    if shardKey = keys.systemDdl ∨ call.isCatalogTable then .error .invalidShardKey
    else if call.shardGroupid = globalGroupid then .error .invalidGroupid
    else if ¬ call.shardGroupid < globalGroupid ∧ !call.ownsGroup then .error .invalidGroupid
    else if call.holdsDdlLock then .error .cantLockTwoShardKeyATran
    else .ok shardKey
  | _ => .error .invalidShardKey

/-- The key of a statement on a global table or on the catalog. -/
def globalTableKey (keys : ShardKeys K) (call : ShardKeyCall K) : Except ShardKeyError K :=
  if call.reqShardKey.isSome then .error .invalidShardKey
  else
    let shardKey := if call.isCatalogTable then keys.shardCatalog else keys.shardGlobal
    if call.shardGroupid ≠ globalGroupid then .error .invalidGroupid
    else if call.holdsDdlLock ∧ shardKey ≠ keys.shardCatalog then
      .error .cantLockTwoShardKeyATran
    else .ok shardKey

/-- The checks of a call; without an error, the key to be locked if the table needs a lock. -/
def checkShardKey (keys : ShardKeys K) (call : ShardKeyCall K) :
    Except ShardKeyError (Option K) :=
  if call.shardGroupid = nullGroupid then .error .invalidGroupid
  else if call.shardGroupid = globalGroupid ∧ call.classOid.isSome ∧ !call.classesFound then
    .error .unknownClassname
  else if call.shardGroupid = globalGroupid ∧
      (call.classOid = some .gidSkey ∨ call.classOid = some .applier) then .ok none
  else if call.isShardTable then (shardTableKey keys call).map some
  else (globalTableKey keys call).map some

/-!
## The state

Two fields of a transaction are not in the source: whether the key was recorded by
a call that does not write, and the keys of the calls that write and returned
without an error.
-/

structure ShardTran (K : Type) where
  tranShardKey : Option K
  waiting : Option (ShardKeyCall K × K)
  readFirst : Bool
  writes : List K

def ShardTran.start : ShardTran K where
  tranShardKey := none
  waiting := none
  readFirst := false
  writes := []

structure ShardState (K : Type) where
  locks : K -> Option LkRes
  trans : Nat -> ShardTran K

namespace ShardState

def setLock (s : ShardState K) (key : K) (res : Option LkRes) : ShardState K :=
  { s with locks := fun k => if k = key then res else s.locks k }

def setTran (s : ShardState K) (tranIndex : Nat) (tran : ShardTran K) : ShardState K :=
  { s with trans := fun t => if t = tranIndex then tran else s.trans t }

end ShardState

/-- A call that returns without an error; a call that writes is noted. -/
def ShardTran.succeed (tran : ShardTran K) (forUpdate : Bool) (key : K) : ShardTran K :=
  if forUpdate then { tran with writes := key :: tran.writes } else tran

def ShardTran.record (tran : ShardTran K) (call : ShardKeyCall K) (key : K) : ShardTran K :=
  let tran := { tran with
    tranShardKey := some key
    waiting := none
    readFirst := !call.forUpdate }
  if call.shardGroupid > globalGroupid ∧ !call.stillOwnsGroup then tran
  else tran.succeed call.forUpdate key

def acquireShardKey (s : ShardState K) (tranIndex : Nat) (call : ShardKeyCall K) (key : K)
    (waitMsecs : Int) (alloc : Bool) : ShardState K :=
  let tran := s.trans tranIndex
  match tran.tranShardKey with
  | none =>
    if call.forUpdate then
      match lockInternalPerformLockObject alloc tranIndex .x waitMsecs (s.locks key) with
      | (res, .granted) => (s.setLock key res).setTran tranIndex (tran.record call key)
      | (res, .blocked) =>
        (s.setLock key res).setTran tranIndex { tran with waiting := some (call, key) }
      | (res, _) => s.setLock key res
    else s.setTran tranIndex (tran.record call key)
  | some tranShardKey =>
    if tranShardKey ≠ key then s
    else s.setTran tranIndex (tran.succeed call.forUpdate key)

def lockShardKeyLock (keys : ShardKeys K) (s : ShardState K) (tranIndex : Nat)
    (call : ShardKeyCall K) (waitMsecs : Int) (alloc : Bool) : ShardState K :=
  match checkShardKey keys call with
  | .ok (some key) => acquireShardKey s tranIndex call key waitMsecs alloc
  | _ => s

inductive ShardStep (K : Type) where
  | call (tranIndex : Nat) (call : ShardKeyCall K) (waitMsecs : Int) (alloc : Bool)
  /-- a thread that waited for its lock goes on with its call -/
  | resume (tranIndex : Nat)
  /-- a thread that was woken up without the lock takes its request back -/
  | giveUp (tranIndex : Nat) (dealloc : Bool)
  | wake (tranIndex : Nat)
  | interrupt (tranIndex : Nat)
  | notice (tranIndex : Nat)
  /-- the end of the transaction; all its locks are released -/
  | finish (tranIndex : Nat) (dealloc : K -> Bool)

def lockStepOfWaiting (s : ShardState K) (tranIndex : Nat) (step : LockStep) : ShardState K :=
  match (s.trans tranIndex).waiting with
  | none => s
  | some (_, key) => s.setLock key (lockNext (s.locks key) step)

def shardNext (keys : ShardKeys K) (s : ShardState K) : ShardStep K -> ShardState K
  | .call tranIndex call waitMsecs alloc => lockShardKeyLock keys s tranIndex call waitMsecs alloc
  | .resume tranIndex =>
    match (s.trans tranIndex).waiting with
    | none => s
    | some (call, key) => s.setTran tranIndex ((s.trans tranIndex).record call key)
  | .giveUp tranIndex dealloc =>
    (lockStepOfWaiting s tranIndex (.giveUp tranIndex dealloc)).setTran tranIndex
      { s.trans tranIndex with waiting := none }
  | .wake tranIndex => lockStepOfWaiting s tranIndex (.wake tranIndex)
  | .interrupt tranIndex => lockStepOfWaiting s tranIndex (.interrupt tranIndex)
  | .notice tranIndex => lockStepOfWaiting s tranIndex (.notice tranIndex)
  | .finish tranIndex dealloc =>
    { locks := fun key => lockNext (s.locks key) (.release tranIndex true (dealloc key))
      trans := (s.setTran tranIndex .start).trans }

/-- The entry of a transaction among the holders of a lock. -/
def holderEntry (res : Option LkRes) (tranIndex : Nat) : Option LkEntry :=
  res.bind fun r => findTran tranIndex r.holder

/-- A transaction makes its calls one after the other, goes on when its lock was granted,
and gives up when its thread was woken for that. -/
def ShardStep.Enabled (s : ShardState K) : ShardStep K -> Prop
  | .call tranIndex _ _ _ => (s.trans tranIndex).waiting = none
  | .resume tranIndex =>
    exists call key entry, (s.trans tranIndex).waiting = some (call, key) ∧
      holderEntry (s.locks key) tranIndex = some entry ∧ entry.wait = .running
  | .giveUp tranIndex _ =>
    exists call key r, (s.trans tranIndex).waiting = some (call, key) ∧
      s.locks key = some r ∧ (r.holder ++ r.waiter).any
        (fun i => i.tranIndex == tranIndex && i.isGivingUp) = true
  | .finish tranIndex _ => (s.trans tranIndex).waiting = none
  | _ => True

def shardSystem (keys : ShardKeys K) : System (ShardState K) (ShardStep K) :=
  System.deterministic { locks := fun _ => none, trans := fun _ => .start }
    ShardStep.Enabled (shardNext keys)

end

end Rye.Transaction
