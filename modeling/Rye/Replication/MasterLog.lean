import Rye.Base.HashNumber
import Rye.Replication.TranQueue

/-!
# The log of the master

The log is the list of its records, and the position of a record is its log sequence number
(LSA).  Position 0 stands for the null LSA.  What replication sees of a record is its
transaction, whether it is the transaction's first one, and its type; a replication record also
says which applier its transaction is assigned to.
-/

namespace Rye.Replication

open Base

def nullTranid : Int := -1

def logSystemTranid : Int := 0

def globalGroupid : Int := 0

def ddlApplierIndex : Nat := 0

def globalApplierIndex : Nat := 1

/-- A changed row: its group, whether its class is `shard_gid_skey_info`, and from its primary
key the group id that such a row starts with and the shard key. -/
structure DataItem where
  groupid : Int
  isGidSkeyInfo : Bool
  keyGroupid : Int
  shardKey : List Nat
deriving DecidableEq, Repr

inductive RecType where
  | replicationData (item : DataItem)
  | replicationSchema (blocked : Bool)
  | dummyUpdateGidBitmap
  | commit
  | abort
  | dummyHaServerState
  | other
deriving DecidableEq, Repr

def RecType.isReplication : RecType -> Bool
  | .replicationData _ | .replicationSchema _ | .dummyUpdateGidBitmap => true
  | _ => false

def RecType.isCommit : RecType -> Bool
  | .commit => true
  | _ => false

def RecType.isEnd : RecType -> Bool
  | .commit | .abort => true
  | _ => false

structure LogRecord where
  trid : Int
  prevTranlsa : Nat
  type : RecType
deriving DecidableEq, Repr

/-!
## Assigning a transaction
-/

/-- The first replication item of a transaction, as far as the analyzer keeps it. -/
inductive ReplItem where
  | ddl (blocked : Bool)
  | data (groupid : Int)
deriving DecidableEq, Repr

def ReplItem.isBlockedItem : ReplItem -> Bool
  | .ddl blocked => blocked
  | .data groupid => groupid == globalGroupid

/-- The appliers, of which there are at least two, and the collation of shard keys. -/
structure Config where
  coll : LangColl
  numApplier : Nat
  two_le : 2 <= numApplier

namespace Config

def applierIndex (cfg : Config) (shardKey : List Nat) : Nat :=
  cirpAnlzGetApplierIndex cfg.coll shardKey cfg.numApplier

/-- The item and the applier that `cirp_set_repl_log` takes from a replication record. -/
def assign (cfg : Config) : RecType -> Option (ReplItem × Nat)
  | .replicationSchema blocked => some (.ddl blocked, ddlApplierIndex)
  | .dummyUpdateGidBitmap => some (.ddl true, ddlApplierIndex)
  | .replicationData item =>
    if item.groupid = globalGroupid then
      if item.isGidSkeyInfo then
        some (.data item.keyGroupid, cfg.applierIndex item.shardKey)
      else some (.data item.groupid, globalApplierIndex)
    else some (.data item.groupid, cfg.applierIndex item.shardKey)
  | _ => none

variable (cfg : Config)

theorem applierIndex_lt (shardKey : List Nat) : cfg.applierIndex shardKey < cfg.numApplier := by
  have htwo := cfg.two_le
  simp only [applierIndex, cirpAnlzGetApplierIndex, mhtGetHashNumber]
  split_ifs with h
  · omega
  · have := Nat.mod_lt (cfg.coll.hashcode shardKey).toNat
      (show 0 < ((cfg.numApplier : Int) - 1).toNat by omega)
    omega

theorem assign_lt {type : RecType} {item : ReplItem} {i : Nat}
    (h : cfg.assign type = some (item, i)) : i < cfg.numApplier := by
  have htwo := cfg.two_le
  have hindex := cfg.applierIndex_lt
  cases type with
  | replicationData row =>
    rw [assign] at h
    split_ifs at h
    · injection h with h
      injection h with _ h
      exact h ▸ hindex _
    · injection h with h
      injection h with _ h
      rw [← h, globalApplierIndex]
      omega
    · injection h with h
      injection h with _ h
      exact h ▸ hindex _
  | replicationSchema blocked | dummyUpdateGidBitmap =>
    injection h with h
    injection h with _ h
    rw [← h, ddlApplierIndex]
    omega
  | commit | abort | dummyHaServerState | other => cases h

theorem assign_isSome (type : RecType) : (cfg.assign type).isSome = type.isReplication := by
  cases type with
  | replicationData row =>
    rw [assign]
    split_ifs <;> rfl
  | _ => rfl

end Config

/-!
## Logs that a master writes
-/

def recordAt (records : List LogRecord) : Nat -> Option LogRecord
  | 0 => none
  | i + 1 => records[i]?

/-- A log in which `prev_tranlsa` is null exactly in the first record of a transaction and no
transaction goes on after its commit or abort.  The changes of the server's state are written by
the system transaction. -/
structure MasterLog where
  records : List LogRecord
  trid_nonneg : forall r, r ∈ records -> 0 <= r.trid
  prev_lt : forall lsa, lsa < records.length + 1 -> forall r, r ∈ recordAt records lsa ->
    r.prevTranlsa < lsa
  first_iff : forall lsa, lsa < records.length + 1 -> forall r, r ∈ recordAt records lsa ->
    0 < r.trid -> (r.prevTranlsa = 0 <->
      forall l, l < lsa -> forall r', r' ∈ recordAt records l -> r'.trid ≠ r.trid)
  ended : forall lsa, lsa < records.length + 1 -> forall r, r ∈ recordAt records lsa ->
    0 < r.trid -> forall l, l < lsa -> forall r', r' ∈ recordAt records l -> r'.trid = r.trid ->
      r'.type.isEnd = false
  serverState : forall r, r ∈ records -> r.type = .dummyHaServerState -> r.trid = logSystemTranid

namespace MasterLog

def get (log : MasterLog) (lsa : Nat) : Option LogRecord :=
  recordAt log.records lsa

/-- There is a record of the transaction with the property at the LSA. -/
def has (log : MasterLog) (trid : Int) (p : RecType -> Bool) (lsa : Nat) : Bool :=
  (log.get lsa).any fun r => r.trid == trid && p r.type

def First (log : MasterLog) (trid : Int) (p : RecType -> Bool) (lsa : Nat) : Prop :=
  log.has trid p lsa = true ∧ forall l, l < lsa -> log.has trid p l = false

open RecType

def rows (log : MasterLog) (trid : Int) : List Nat :=
  (List.range (log.records.length + 1)).filter (log.has trid isReplication)

/-- A committed transaction with replication records, as it is queued. -/
structure Committed (log : MasterLog) (q : QItem) : Prop where
  pos : 0 < q.trid
  start : log.First q.trid (fun _ => true) q.tranStartLsa
  repl : log.First q.trid isReplication q.replStartLsa
  commit : log.has q.trid isCommit q.committedLsa = true

/-- The item and the applier of the transaction whose first replication record is at the LSA. -/
def assignment (cfg : Config) (log : MasterLog) (lsa : Nat) : Option (ReplItem × Nat) :=
  (log.get lsa).bind fun r => cfg.assign r.type

def applierOf (cfg : Config) (log : MasterLog) (q : QItem) : Nat :=
  ((log.assignment cfg q.replStartLsa).map Prod.snd).getD 0

def isBlocked (cfg : Config) (log : MasterLog) (q : QItem) : Bool :=
  (log.assignment cfg q.replStartLsa).any fun item => item.1.isBlockedItem

variable {log : MasterLog} {trid : Int} {p : RecType -> Bool} {lsa : Nat}

theorem has_iff :
    log.has trid p lsa = true <->
      exists r, log.get lsa = some r ∧ r.trid = trid ∧ p r.type = true := by
  simp only [has, Option.any_eq_true, Bool.and_eq_true, beq_iff_eq]

variable {r : LogRecord}

theorem has_get (hget : log.get lsa = some r) :
    log.has trid p lsa = true <-> r.trid = trid ∧ p r.type = true := by
  simp [has_iff, hget]

theorem lt_of_get (h : log.get lsa = some r) : 0 < lsa ∧ lsa < log.records.length + 1 := by
  cases lsa with
  | zero => cases h
  | succ i =>
    obtain ⟨hlt, _⟩ := List.getElem?_eq_some_iff.mp h
    omega

theorem mem_of_get (h : log.get lsa = some r) : r ∈ log.records := by
  cases lsa with
  | zero => cases h
  | succ i => exact List.mem_of_getElem? h

theorem has_lt (h : log.has trid p lsa = true) : 0 < lsa ∧ lsa < log.records.length + 1 := by
  obtain ⟨r, hr, _⟩ := has_iff.mp h
  exact lt_of_get hr

theorem has_any (h : log.has trid p lsa = true) : log.has trid (fun _ => true) lsa = true := by
  obtain ⟨r, hr, htrid, _⟩ := has_iff.mp h
  exact has_iff.mpr ⟨r, hr, htrid, rfl⟩

theorem le_of_end {e : RecType -> Bool} {l : Nat} (hpos : 0 < trid)
    (he : forall type, e type = true -> type.isEnd = true) (hend : log.has trid e l = true)
    (h : log.has trid p lsa = true) : lsa <= l := by
  obtain ⟨r, hr, htrid, _⟩ := has_iff.mp h
  obtain ⟨r', hr', htrid', htype⟩ := has_iff.mp hend
  by_contra hlt
  have hno := log.ended lsa (lt_of_get hr).2 r hr (htrid ▸ hpos) l (by omega) r' hr'
    (htrid'.trans htrid.symm)
  rw [he _ htype] at hno
  cases hno

theorem First.unique {l l' : Nat} (h : log.First trid p l) (h' : log.First trid p l') : l = l' := by
  rcases Nat.lt_trichotomy l l' with hlt | heq | hlt
  · have := h'.2 l hlt
    rw [h.1] at this
    cases this
  · exact heq
  · have := h.2 l' hlt
    rw [h'.1] at this
    cases this

theorem First.le {l l' : Nat} (h : log.First trid p l) (h' : log.has trid p l' = true) :
    l <= l' := by
  by_contra hlt
  have := h.2 l' (by omega)
  rw [h'] at this
  cases this

theorem isEnd_of_isCommit (type : RecType) (h : type.isCommit = true) : type.isEnd = true := by
  cases type <;> first | rfl | cases h

namespace Committed

variable {q q' : QItem}

section

variable (h : log.Committed q)
include h

theorem end_eq (hp : forall type, p type = true -> type.isEnd = true)
    (hend : log.has q.trid p lsa = true) : lsa = q.committedLsa :=
  Nat.le_antisymm (le_of_end h.pos isEnd_of_isCommit h.commit hend) (le_of_end h.pos hp hend h.commit)

theorem eq_of_trid (h' : log.Committed q') (htrid : q.trid = q'.trid) : q = q' := by
  have hstart := h.start.unique (htrid ▸ h'.start)
  have hrepl := h.repl.unique (htrid ▸ h'.repl)
  have hcommit := h.end_eq isEnd_of_isCommit (htrid ▸ h'.commit)
  cases q
  cases q'
  simp only [QItem.mk.injEq]
  exact ⟨htrid, hstart, hcommit.symm, hrepl⟩

theorem eq_of_committedLsa (h' : log.Committed q') (hlsa : q.committedLsa = q'.committedLsa) :
    q = q' := by
  obtain ⟨r, hr, htrid, _⟩ := has_iff.mp h.commit
  exact h.eq_of_trid h' (htrid.symm.trans ((has_get hr).mp (hlsa ▸ h'.commit)).1)

theorem start_le : q.tranStartLsa <= q.replStartLsa :=
  h.start.le (has_any h.repl.1)

theorem lt_of_repl (hrepl : log.has q.trid isReplication lsa = true) : lsa < q.committedLsa := by
  refine Nat.lt_of_le_of_ne (le_of_end h.pos isEnd_of_isCommit h.commit hrepl) ?_
  rintro rfl
  obtain ⟨r, hr, _, htype⟩ := has_iff.mp hrepl
  have hcommit := ((has_get hr).mp h.commit).2
  cases hkind : r.type <;> simp [hkind, isReplication, isCommit] at htype hcommit

theorem repl_lt : q.replStartLsa < q.committedLsa :=
  h.lt_of_repl h.repl.1

theorem start_pos : 0 < q.tranStartLsa :=
  (has_lt h.start.1).1

end

theorem assignment_isSome (cfg : Config) (h : log.Committed q) :
    exists item, log.assignment cfg q.replStartLsa = some (item, log.applierOf cfg q) := by
  obtain ⟨r, hr, _, htype⟩ := has_iff.mp h.repl.1
  rw [← cfg.assign_isSome, Option.isSome_iff_exists] at htype
  obtain ⟨⟨item, i⟩, hassign⟩ := htype
  have heq : log.assignment cfg q.replStartLsa = some (item, i) := by
    rw [assignment, hr, Option.bind_some, hassign]
  refine ⟨item, ?_⟩
  rw [applierOf, heq, Option.map_some, Option.getD_some]

theorem applierOf_lt (cfg : Config) (h : log.Committed q) :
    log.applierOf cfg q < cfg.numApplier := by
  obtain ⟨item, hassign⟩ := h.assignment_isSome cfg
  obtain ⟨r, _, hr⟩ := Option.bind_eq_some_iff.mp hassign
  exact cfg.assign_lt hr

end Committed

end MasterLog

end Rye.Replication
