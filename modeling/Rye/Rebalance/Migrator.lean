import Rye.Foundation.Runs

/-!
# The migrator of a group

The main thread of the migrator of a shard group goes through a sequence of calls to three
databases: the metadata, the source and the destination.  A second thread copies the data and takes
the group bit away from the source, while the main thread applies the log of the source until it
meets the record of that change.  Every call either succeeds or fails without an effect.  All errors
lead to one exit, which gives the bit back to the source if it had been taken away.
-/

namespace Rye.Rebalance.Migrator

open Foundation

inductive MainPoint where
  | checkReplDelay
  | shardMigrationStart
  | clearDestdb
  | initCopyContext
  | syncLogInit
  | pthreadCreate
  | syncLog
  | joinAfterError
  | joinAfterSync
  | updateDestGroupid
  | shardMigrationEnd
  | insertGidRemovedInfo
  | deleteGidRemovedInfo
  | errorExit
  | success
  | fail
deriving DecidableEq, Repr

inductive CopyPoint where
  | notStarted
  | copyTables
  | checkDelay
  | updateSrcGroupid
  | finished
deriving DecidableEq, Repr

inductive Node where
  | source
  | destination
deriving DecidableEq, Repr

/-- The group in the three databases, and what the threads share. -/
structure Migration where
  main : MainPoint
  copy : CopyPoint
  srcBit : Bool
  destBit : Bool
  /-- The node of the group in the metadata. -/
  groupNode : Node
  lastError : Bool
  shutdown : Bool
  wasGidUpdated : Bool
deriving DecidableEq, Repr

/-- The replication delay is looked at first if the migrator reads from a slave. -/
def Migration.initial (runSlave : Bool) : Migration :=
  { main := if runSlave = true then .checkReplDelay else .shardMigrationStart
    copy := .notStarted
    srcBit := true
    destBit := false
    groupNode := .source
    lastError := false
    shutdown := false
    wasGidUpdated := false }

inductive Label where
  | main (succeeds : Bool)
  | copy (succeeds : Bool)
deriving DecidableEq, Repr

/-- The log is applied until the thread of the copy has failed or the record of the group bit
is met.  The end of that thread is waited for. -/
def Migration.enabled (m : Migration) : Label -> Bool
  | .main succeeds =>
    match m.main with
    | .syncLog => !succeeds || m.shutdown || m.wasGidUpdated
    | .joinAfterError | .joinAfterSync => m.copy == .finished
    | .success | .fail => false
    | _ => true
  | .copy _ => m.copy != .notStarted && m.copy != .finished

/-- The call before `target` in the main sequence. -/
def Migration.goOn (m : Migration) (succeeds : Bool) (target : MainPoint) : Migration :=
  { m with main := if succeeds = true then target else .errorExit }

def Migration.mainCall (m : Migration) (succeeds : Bool) : Migration :=
  match m.main with
  | .checkReplDelay => m.goOn succeeds .shardMigrationStart
  | .shardMigrationStart => m.goOn succeeds .clearDestdb
  | .clearDestdb => m.goOn succeeds .initCopyContext
  | .initCopyContext => m.goOn succeeds .syncLogInit
  | .syncLogInit => m.goOn succeeds .pthreadCreate
  | .pthreadCreate =>
    if succeeds = true then { m with main := .syncLog, copy := .copyTables }
    else { m with main := .errorExit }
  | .syncLog =>
    if succeeds = true ∧ m.lastError = false then { m with main := .joinAfterSync }
    else { m with main := .joinAfterError }
  | .joinAfterError => { m with main := .errorExit }
  | .joinAfterSync => { m with main := .updateDestGroupid }
  | .updateDestGroupid =>
    if succeeds = true then { m with main := .shardMigrationEnd, destBit := true }
    else { m with main := .errorExit }
  | .shardMigrationEnd =>
    if succeeds = true then { m with main := .insertGidRemovedInfo, groupNode := .destination }
    else { m with main := .errorExit }
  | .insertGidRemovedInfo => m.goOn succeeds .deleteGidRemovedInfo
  | .deleteGidRemovedInfo => m.goOn succeeds .success
  | .errorExit =>
    { m with
      main := .fail
      srcBit := if m.wasGidUpdated = true then true else m.srcBit }
  | .success => m
  | .fail => m

def Migration.copyCall (m : Migration) (succeeds : Bool) : Migration :=
  let failed := { m with copy := .finished, lastError := true, shutdown := true }
  match m.copy with
  | .copyTables => if succeeds = true then { m with copy := .checkDelay } else failed
  | .checkDelay => if succeeds = true then { m with copy := .updateSrcGroupid } else failed
  | .updateSrcGroupid =>
    if succeeds = true then
      { m with copy := .finished, srcBit := false, wasGidUpdated := true }
    else failed
  | .notStarted => m
  | .finished => m

def Migration.next (m : Migration) : Label -> Migration
  | .main succeeds => m.mainCall succeeds
  | .copy succeeds => m.copyCall succeeds

def migratorSystem (runSlave : Bool) : System Migration Label :=
  System.deterministic (Migration.initial runSlave) (fun m label => m.enabled label = true)
    Migration.next

/-!
## Ownership
-/

def Migration.bit (m : Migration) : Node -> Bool
  | .source => m.srcBit
  | .destination => m.destBit

def Migration.isFinal (m : Migration) : Bool :=
  m.main == .success || m.main == .fail

/-- The bit is never on both nodes, and in the end it is on the node of the metadata only. -/
structure Migration.OneOwner (m : Migration) : Prop where
  notBoth : ¬ (m.srcBit = true ∧ m.destBit = true)
  final : m.isFinal = true -> forall node, m.bit node = true <-> m.groupNode = node

/-- The calls after the bit of the destination has been set. -/
def MainPoint.isLate : MainPoint -> Bool
  | .shardMigrationEnd | .insertGidRemovedInfo | .deleteGidRemovedInfo => true
  | _ => false

def MainPoint.isEarly : MainPoint -> Bool
  | .checkReplDelay | .shardMigrationStart | .clearDestdb | .initCopyContext | .syncLogInit
  | .pthreadCreate => true
  | _ => false

/-- No call fails after the bit of the destination has been set. -/
def Migration.lateCallsSucceed (m : Migration) : Label -> Bool
  | .main succeeds => !m.main.isLate || succeeds
  | .copy _ => true

/-- What is so at the calls of the main thread.  Until the bit of the destination is set, the
source has its bit if and only if it has not been taken away. -/
def Migration.AtPoint (m : Migration) : Prop :=
  match m.main with
  | .updateDestGroupid => m.srcBit = false ∧ m.destBit = false ∧ m.groupNode = .source
  | .shardMigrationEnd => m.srcBit = false ∧ m.destBit = true ∧ m.groupNode = .source
  | .insertGidRemovedInfo | .deleteGidRemovedInfo | .success =>
    m.srcBit = false ∧ m.destBit = true ∧ m.groupNode = .destination
  | .fail => m.srcBit = true ∧ m.destBit = false ∧ m.groupNode = .source
  | .joinAfterSync => m.wasGidUpdated = true ∧ m.destBit = false ∧ m.groupNode = .source
  | _ => m.destBit = false ∧ m.groupNode = .source

/-- The thread of the copy takes the bit away in its last call, and runs only while the main
thread applies the log or waits for it. -/
structure Migration.Inv (m : Migration) : Prop where
  atPoint : m.AtPoint
  taken : m.main ≠ .fail -> m.srcBit = !m.wasGidUpdated
  notStarted : m.main.isEarly = true -> m.copy = .notStarted
  running : m.copy ≠ .notStarted -> m.copy ≠ .finished ->
    m.main = .syncLog ∨ m.main = .joinAfterError
  unfinished : m.copy ≠ .finished -> m.wasGidUpdated = false ∧ m.lastError = false
  shutdown : m.shutdown = m.lastError

variable {m : Migration}

theorem Migration.Inv.oneOwner (h : m.Inv) : m.OneOwner := by
  have hpoint := h.atPoint
  constructor
  · rintro ⟨hsrc, hdest⟩
    unfold Migration.AtPoint at hpoint
    split at hpoint <;> simp_all
  · intro hfinal node
    cases hmain : m.main <;> simp [Migration.isFinal, hmain] at hfinal <;>
      cases node <;> simp_all [Migration.AtPoint, Migration.bit]

theorem Migration.Inv.initial (runSlave : Bool) : (Migration.initial runSlave).Inv := by
  cases runSlave <;> constructor <;> simp [Migration.initial, Migration.AtPoint]

theorem Migration.Inv.mainCall (h : m.Inv) {succeeds : Bool}
    (henabled : m.enabled (.main succeeds) = true)
    (hlate : m.lateCallsSucceed (.main succeeds) = true) : (m.mainCall succeeds).Inv := by
  obtain ⟨hpoint, htaken, hnotStarted, hrunning, hunfinished, hshutdown⟩ := h
  -- At every point the next one asks for no more than what is known here.
  cases hlast : m.lastError <;> cases hmain : m.main <;> cases succeeds <;>
    simp only [Migration.enabled, Migration.lateCallsSucceed, MainPoint.isLate, hmain] at henabled hlate <;>
    first
    | exact absurd henabled Bool.false_ne_true
    | exact absurd hlate Bool.false_ne_true
    | constructor <;>
        simp_all [Migration.mainCall, Migration.goOn, Migration.AtPoint, MainPoint.isEarly]

theorem Migration.Inv.copyCall (h : m.Inv) {succeeds : Bool}
    (henabled : m.enabled (.copy succeeds) = true) : (m.copyCall succeeds).Inv := by
  simp only [Migration.enabled, Bool.and_eq_true, bne_iff_ne] at henabled
  have hmain := h.running henabled.1 henabled.2
  obtain ⟨hpoint, htaken, hnotStarted, hrunning, hunfinished, hshutdown⟩ := h
  cases hcopy : m.copy <;> cases succeeds <;> rcases hmain with hmain | hmain <;>
    first
    | exact absurd hcopy henabled.1
    | exact absurd hcopy henabled.2
    | constructor <;> simp_all [Migration.copyCall, Migration.AtPoint, MainPoint.isEarly]

theorem oneOwner_of_reachable (runSlave : Bool) {m : Migration}
    (h : ((migratorSystem runSlave).guarded
      fun m label => m.lateCallsSucceed label = true).Reachable m) : m.OneOwner := by
  have hinv : m.Inv := by
    refine h.guarded_invariant Migration.Inv ?_ ?_
    · rintro m rfl
      exact .initial runSlave
    rintro m label m' hinv hlate ⟨henabled, rfl⟩
    cases label with
    | main succeeds => exact hinv.mainCall henabled hlate
    | copy succeeds => exact hinv.copyCall henabled
  exact hinv.oneOwner

/-- The calls up to the one that sets the bit of the destination. -/
def untilDestBit : List Label :=
  [.main true, .main true, .main true, .main true, .main true, .copy true, .copy true, .copy true,
    .main true, .main true, .main true]

/-- The log cannot be applied any more after the bit has been taken away. -/
def syncErrorRun : List Label :=
  untilDestBit.take 8 ++ [.main false, .main true, .main true]

theorem oneOwner_syncErrorRun :
    (syncErrorRun.foldl Migration.next (Migration.initial false)).main = .fail ∧
      (syncErrorRun.foldl Migration.next (Migration.initial false)).OneOwner :=
  ⟨by decide, oneOwner_of_reachable false
    (System.reachable_guarded_of_follows syncErrorRun (by decide))⟩

/-- The metadata does not take the end of the migration, and the source gets its bit back. -/
def endErrorRun : List Label :=
  untilDestBit ++ [.main false, .main true]

theorem not_oneOwner_endErrorRun :
    exists m, (migratorSystem false).Reachable m ∧ m.main = .fail ∧ m.groupNode = .source ∧
      m.srcBit = true ∧ m.destBit = true :=
  ⟨endErrorRun.foldl Migration.next (Migration.initial false),
    System.reachable_of_follows endErrorRun (by decide), by decide⟩

end Rye.Rebalance.Migrator
