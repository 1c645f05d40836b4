import Mathlib.Logic.Function.Basic
import Rye.Foundation.Runs

/-!
# Shard information from the metadata database to a driver

Management brokers cache the rows of `shard_groupid` under a version that they have read before
the rows.  A driver sends the version it has and gets all rows, or the rows that are newer than
its version.  Rows come in the order of the group ids, so that the row at index `i` is that of
group `i + 1`.

The creation that a version or cached rows come from is kept as well; the code does not know it.
-/

namespace Rye.Broker.ShardInfo

open Foundation

/-- A row of `shard_groupid`. -/
structure GidRow where
  nodeid : Nat
  ver : Nat
deriving DecidableEq, Repr

/-- A state of the shard database: its row in `shard_db` and its group rows. -/
structure ShardDb where
  createdAt : Nat
  gidInfoLastVer : Nat
  rows : List GidRow
deriving DecidableEq, Repr

def ShardDb.nodeids (db : ShardDb) : List Nat :=
  db.rows.map GidRow.nodeid

inductive Body where
  | all (nodeids : List Nat)
  | changedOnly (changes : List (Nat × Nat))
deriving DecidableEq, Repr

structure NetStream where
  version : Nat
  count : Nat
  body : Body
deriving DecidableEq, Repr

/-- The rows newer than `cltVer` with their group ids; `gid` is the group of the first row. -/
def changedRows (cltVer : Nat) : Nat -> List GidRow -> List (Nat × Nat)
  | _, [] => []
  | gid, row :: rows =>
    if row.ver > cltVer then (gid, row.nodeid) :: changedRows cltVer (gid + 1) rows
    else changedRows cltVer (gid + 1) rows

/-- `T_DB_GROUPID_INFO`, with the message that was last made for a driver's version. -/
structure GroupidInfo where
  gidInfoVer : Nat
  gidInfo : List GidRow
  partialInfo : Option (Nat × NetStream)
  createdAt : Nat
deriving DecidableEq, Repr

def GroupidInfo.allStream (info : GroupidInfo) : NetStream :=
  ⟨info.gidInfoVer, info.gidInfo.length, .all (info.gidInfo.map GidRow.nodeid)⟩

def GroupidInfo.changedStream (info : GroupidInfo) (cltVer : Nat) : NetStream :=
  ⟨info.gidInfoVer, info.gidInfo.length, .changedOnly (changedRows cltVer 1 info.gidInfo)⟩

def makeGroupidInfoNetStream (info : GroupidInfo) (cltVer : Nat) : NetStream × GroupidInfo :=
  if cltVer = 0 then (info.allStream, info)
  else
    match info.partialInfo with
    | some kept =>
      if kept.1 = cltVer then (kept.2, info)
      else (info.changedStream cltVer,
        { info with partialInfo := some (cltVer, info.changedStream cltVer) })
    | none => (info.changedStream cltVer,
        { info with partialInfo := some (cltVer, info.changedStream cltVer) })

/-!
## Brokers
-/

structure ShardDbRec where
  createdAt : Nat
  gidInfoLastVer : Nat
deriving DecidableEq, Repr

/-- A thread in `sync_groupid_info` that found the cache too old: the record it has read, and the
rows once it has them. -/
structure Loader where
  found : ShardDbRec
  rows : Option (List GidRow × Nat)
deriving DecidableEq, Repr

structure MgmtBroker where
  shardDbRec : ShardDbRec
  groupidInfo : Option GroupidInfo
  loaders : List Loader
deriving DecidableEq, Repr

namespace MgmtBroker

/-- The cache is older than the last version that the broker has read. -/
def isOld (b : MgmtBroker) : Bool :=
  0 < b.shardDbRec.gidInfoLastVer &&
    match b.groupidInfo with
    | none => true
    | some info => info.gidInfoVer < b.shardDbRec.gidInfoLastVer

/-- `get_info_last_ver`. -/
def readRec (b : MgmtBroker) (db : ShardDb) : MgmtBroker :=
  { b with shardDbRec := ⟨db.createdAt, db.gidInfoLastVer⟩ }

def load (b : MgmtBroker) : MgmtBroker :=
  if b.isOld then { b with loaders := b.loaders ++ [⟨b.shardDbRec, none⟩] } else b

/-- `select_all_gid_info` of the thread at index `i`. -/
def select (b : MgmtBroker) (i : Nat) (db : ShardDb) : MgmtBroker :=
  match b.loaders[i]? with
  | some loader =>
    { b with loaders := b.loaders.set i { loader with rows := some (db.rows, db.createdAt) } }
  | none => b

/-- The thread at index `i` stores what it has read. -/
def store (b : MgmtBroker) (i : Nat) : MgmtBroker :=
  match b.loaders[i]? with
  | some ⟨found, some rows⟩ =>
    { b with
      groupidInfo := some ⟨found.gidInfoLastVer, rows.1, none, rows.2⟩
      loaders := b.loaders.eraseIdx i }
  | _ => b

/-- `shd_mg_func_shard_info`: the creation in the header and the group information. -/
def answer (b : MgmtBroker) (cltCreatedAt cltGroupidVer : Nat) :
    (Nat × Option NetStream) × MgmtBroker :=
  let cltVer := if b.shardDbRec.createdAt ≠ cltCreatedAt then 0 else cltGroupidVer
  match b.groupidInfo with
  | none => ((b.shardDbRec.createdAt, none), b)
  | some info =>
    if info.gidInfoVer > cltVer then
      ((b.shardDbRec.createdAt, some (makeGroupidInfoNetStream info cltVer).1),
        { b with groupidInfo := some (makeGroupidInfoNetStream info cltVer).2 })
    else ((b.shardDbRec.createdAt, none), b)

end MgmtBroker

/-- `ShardInfoGroupid`. -/
structure DriverInfo where
  version : Nat
  nodeid : List Nat
deriving DecidableEq, Repr

def patch (nodeidArr : List Nat) (changes : List (Nat × Nat)) : List Nat :=
  changes.foldl (fun arr change => arr.set (change.1 - 1) change.2) nodeidArr

/-- The constructor of `ShardInfoGroupid`; nothing when it throws an exception. -/
def unpack (stream : NetStream) (oldNodeid : Option (List Nat)) : Option DriverInfo :=
  if stream.count = 0 then none
  else
    match stream.body, oldNodeid with
    | .all nodeids, _ => some ⟨stream.version, nodeids⟩
    | .changedOnly _, none => none
    | .changedOnly changes, some old =>
      if old.length ≠ stream.count then none else some ⟨stream.version, patch old changes⟩

structure Driver where
  createdAt : Nat
  groupidInfo : Option DriverInfo
deriving DecidableEq, Repr

def Driver.groupidVer (d : Driver) : Nat :=
  match d.groupidInfo with
  | none => 0
  | some info => info.version

/-- The rest of `ShardInfo.sync` when the answer is there. -/
def Driver.receive (d : Driver) (createdAt : Nat) (stream : Option NetStream) : Driver :=
  let resetAll := d.createdAt ≠ createdAt
  let newGroupidInfo := stream.bind fun stream =>
    unpack stream (d.groupidInfo.map DriverInfo.nodeid)
  { createdAt := createdAt
    groupidInfo := if resetAll ∨ newGroupidInfo.isSome then newGroupidInfo else d.groupidInfo }

/-!
## Runs
-/

/-- `past` has all states of the shard database, the current one included. -/
structure World where
  db : ShardDb
  past : List ShardDb
  brokers : Nat -> MgmtBroker
  driver : Driver

inductive Label where
  | reassign (gid nodeid ver : Nat)
  | recreate (db : ShardDb)
  | readRec (b : Nat)
  | load (b : Nat)
  | select (b i : Nat)
  | store (b i : Nat)
  | sync (b : Nat)
deriving DecidableEq, Repr

def ShardDb.reassign (db : ShardDb) (gid nodeid ver : Nat) : ShardDb :=
  { db with gidInfoLastVer := ver, rows := db.rows.set (gid - 1) ⟨nodeid, ver⟩ }

/-- A shard database as it is created: it has groups, and no row is newer than the last
version. -/
def ShardDb.isNew (db : ShardDb) : Bool :=
  decide (0 < db.createdAt) && decide (0 < db.gidInfoLastVer) && !db.rows.isEmpty &&
    db.rows.all fun row => row.ver <= db.gidInfoLastVer

namespace World

def moveTo (w : World) (db : ShardDb) : World :=
  { w with db := db, past := db :: w.past }

def onBroker (w : World) (b : Nat) (f : MgmtBroker -> MgmtBroker) : World :=
  { w with brokers := Function.update w.brokers b (f (w.brokers b)) }

def sync (w : World) (b : Nat) : World :=
  let run := (w.brokers b).answer w.driver.createdAt w.driver.groupidVer
  { w with
    driver := w.driver.receive run.1.1 run.1.2
    brokers := Function.update w.brokers b run.2 }

def enabled (w : World) : Label -> Bool
  | .reassign gid _ ver => 0 < gid && gid <= w.db.rows.length && w.db.gidInfoLastVer < ver
  | .recreate db => db.isNew && w.past.all fun old => old.createdAt != db.createdAt
  | .select b i => ((w.brokers b).loaders[i]?.map fun loader => loader.rows.isNone) == some true
  | .store b i => ((w.brokers b).loaders[i]?.map fun loader => loader.rows.isSome) == some true
  | _ => true

def next (w : World) : Label -> World
  | .reassign gid nodeid ver => w.moveTo (w.db.reassign gid nodeid ver)
  | .recreate db => w.moveTo db
  | .readRec b => w.onBroker b fun broker => broker.readRec w.db
  | .load b => w.onBroker b MgmtBroker.load
  | .select b i => w.onBroker b fun broker => broker.select i w.db
  | .store b i => w.onBroker b fun broker => broker.store i
  | .sync b => w.sync b

def start (db : ShardDb) : World where
  db := db
  past := [db]
  brokers _ := ⟨⟨0, 0⟩, none, []⟩
  driver := ⟨0, none⟩

end World

/-- A shard database that is created as `db`, any number of brokers and a driver. -/
def shardInfo (db : ShardDb) : System World Label :=
  .deterministic (.start db) (fun w label => w.enabled label = true) World.next

end Rye.Broker.ShardInfo
