import Mathlib.Algebra.Ring.Int.Defs
import Rye.Broker.ShardMgmt.Worker

/-!
# What the counters count

A granted request, and a definition of schema that waits for its grant, hold one of the counters of
the `shard_db` row.  What a worker does with one job is said once, in `Outcome`: which
counter changes, and what is left of the job.
-/

namespace Rye.Broker.ShardMgmt

open Job FuncResult CompensationJob MetaDb

inductive Kind where
  | mig
  | ddl
  | gc
deriving DecidableEq, Repr

def MetaDb.reqCount (db : MetaDb) : Kind -> Int
  | .mig => db.migReqCount
  | .ddl => db.ddlReqCount
  | .gc => db.gcReqCount

def CompensationJob.kind : CompensationJob -> Kind
  | .migrationFail _ => .mig
  | .ddlFail => .ddl
  | .gcFail => .gc

def Job.isSession (kind : Kind) : Job -> Bool
  | .waiting compensation => compensation.kind == kind
  | .request _ _ _ => false

/-- The job is a definition of schema that waits for its grant. -/
def Job.isQueuedDdl : Job -> Bool
  | .request req isRetry _ =>
    match req.operation with
    | .ddlStart _ => isRetry
    | .addNode _ | .migrationStart _ | .migrationEnd _ | .ddlEnd | .gcStart | .gcEnd => false
  | .waiting _ => false

def Job.holds (kind : Kind) (job : Job) : Bool :=
  job.isSession kind || (kind == .ddl && job.isQueuedDdl)

/-- A job that the queue accepts: no end of a migration or of a definition of schema. -/
def Job.accepted : Job -> Bool
  | .request req _ _ =>
    match req.operation with
    | .migrationEnd _ | .ddlEnd => false
    | .addNode _ | .migrationStart _ | .ddlStart _ | .gcStart | .gcEnd => true
  | .waiting _ => true

/-!
## Where a count gets lost

The first condition is about counts that stay although their job is over, the second one about
counts that are missing.
-/

def endFails (db : MetaDb) (faults : Faults) : Operation -> Bool
  | .migrationEnd arg =>
    if faults.statement = false ∧ (migrationEndWork db arg (getNextVersion db)).isSome = true then
      faults.commit
    else
      faults.correction || (migrationEndWork db arg 0).isNone || faults.correctionCommit
  | .addNode _ | .migrationStart _ | .ddlStart _ | .ddlEnd | .gcStart | .gcEnd =>
    faults.statement || faults.commit

def CompensationJob.uncommitted (db : MetaDb) (faults : Faults) (compensation : CompensationJob) :
    Bool :=
  !faults.connect && (compensation.func db faults).res.isNone && faults.commit

/-- The job is over, and the counter that it holds stays as it is. -/
def Job.leaks (db : MetaDb) (incoming : Incoming) (now : Int) (faults : Faults) : Job -> Bool
  | .request req _ requestTime =>
    match req.operation with
    | .ddlStart timeoutSec =>
      !req.enters db faults || db.nodeStatus != .allValid ||
        if isExpiredRequest now requestTime timeoutSec = true then
          faults.correction || faults.correctionCommit
        else decide (db.migReqCount <= 0) && faults.memory
    | .addNode _ | .migrationStart _ | .migrationEnd _ | .ddlEnd | .gcStart | .gcEnd => false
  | .waiting compensation =>
    match incoming with
    | .nothing => false
    | .netError => compensation.uncommitted db faults
    | .request req =>
      if compensation.nextReqOpcode req.operation = true then
        !req.enters db faults || endFails db faults req.operation
      else compensation.uncommitted db faults

/-- The job gets a grant that is not counted, or takes back a count that it does not hold. -/
def Job.undercounts (faults : Faults) : Job -> Bool
  | .request req isRetry _ =>
    match req.operation with
    | .gcEnd => true
    | .gcStart | .migrationStart _ => faults.commit
    | .ddlStart _ => !isRetry && faults.commit
    | .addNode _ | .migrationEnd _ | .ddlEnd => false
  | .waiting _ => false

/-!
## What a worker does with a job
-/

structure Counted (db db' : MetaDb) (kind : Kind) (change : Int) : Prop where
  reqCount : forall k, db'.reqCount k = db.reqCount k + if k = kind then change else 0
  nodeStatus : db'.nodeStatus = db.nodeStatus

def MetaDb.Grants (db : MetaDb) : Kind -> Prop
  | .mig => db.ddlReqCount = 0 ∧ db.gcReqCount = 0
  | .ddl => db.migReqCount <= 0 ∧ db.nodeStatus = .allValid
  | .gc => db.migReqCount <= 0

/-- `leak` tells whether a count may stay behind. -/
inductive Outcome (db : MetaDb) (faults : Faults) (leak : Bool) : Job -> WorkResult -> Prop where
  | refused {job : Job} :
      (forall kind, job.holds kind = true -> leak = true) ->
        Outcome db faults leak job ⟨db, none, none⟩
  | stays {job job' : Job} :
      (forall kind, job'.holds kind = job.holds kind) ->
        (forall kind, job'.isSession kind = job.isSession kind) -> job'.accepted = true ->
          Outcome db faults leak job ⟨db, some job', none⟩
  | counted {job job' : Job} {kind : Kind} {work : MetaDb} :
      Counted db work kind 1 -> job.undercounts faults = faults.commit ->
        (forall k, job.holds k = false) -> (forall k, job'.holds k = (k == kind)) ->
          (job'.isSession kind = true -> db.Grants kind) -> job'.accepted = true ->
            Outcome db faults leak job ⟨if faults.commit = true then db else work, some job', none⟩
  | granted {job : Job} :
      (forall kind, job.holds kind = (kind == .ddl)) -> db.Grants .ddl ->
        Outcome db faults leak job ⟨db, some (.waiting .ddlFail), none⟩
  | released {job : Job} {kind : Kind} {work : MetaDb} :
      Counted db work kind (-1) -> (forall k, job.holds k = (k == kind)) ->
        Outcome db faults leak job ⟨work, none, none⟩
  | stray {job : Job} {work : MetaDb} :
      Counted db work .gc (-1) -> job.undercounts faults = true ->
        (forall k, job.holds k = false) -> Outcome db faults leak job ⟨work, none, none⟩
  | inserted {job : Job} {work : MetaDb} :
      Counted db work .mig 0 -> (forall k, job.holds k = false) ->
        Outcome db faults leak job ⟨work, none, none⟩
  | copying {req : Request} {isRetry : Bool} {requestTime : Int} {node : NodeInfo}
      {nodeAdd : NodeAdd} {work : MetaDb} :
      req.operation = .addNode node -> (forall kind, work.reqCount kind = db.reqCount kind) ->
        db.nodeStatus = .allValid -> work.nodeStatus = .existInvalid ->
          Outcome db faults leak (.request req isRetry requestTime) ⟨work, none, some nodeAdd⟩

section

variable {db work : MetaDb} {faults : Faults}

theorem counted_of_migrationStartWork {groupid : Nat} {srcNodeid destNodeid : Int}
    (h : migrationStartWork db groupid srcNodeid destNodeid = some work) :
    Counted db work .mig 1 := by
  obtain ⟨migrations, _, rfl⟩ := Option.map_eq_some_iff.mp h
  constructor
  · intro k
    cases k <;> simp [reqCount]
  · rfl

theorem counted_of_migrationEndWork {arg : MigrationArg} {nextGidVer : Nat}
    (h : migrationEndWork db arg nextGidVer = some work) : Counted db work .mig (-1) := by
  unfold migrationEndWork at h
  split at h
  · split at h
    · cases h
      constructor
      · intro k
        cases k <;> simp [reqCount, Int.sub_eq_add_neg]
      · rfl
    · cases h
  · obtain ⟨migrations, _, rfl⟩ := Option.map_eq_some_iff.mp h
    constructor
    · intro k
      cases k <;> simp [reqCount, Int.sub_eq_add_neg]
    · rfl

variable (db : MetaDb)

theorem counted_decrDdlReqCount : Counted db (decrDdlReqCount db) .ddl (-1) := by
  constructor
  · intro k
    cases k <;> simp [reqCount, decrDdlReqCount, Int.sub_eq_add_neg]
  · rfl

theorem shdMgDdlEndInternal_cases (faults : Faults) :
    faults.statement = true ∧ shdMgDdlEndInternal db faults = .failed db .metadb ∨
      faults.statement = false ∧ exists work, Counted db work .ddl (-1) ∧
        shdMgDdlEndInternal db faults = .succeeded db work .complete := by
  unfold shdMgDdlEndInternal
  cases faults.statement with
  | true => exact .inl ⟨rfl, rfl⟩
  | false => exact .inr ⟨rfl, _, counted_decrDdlReqCount db, rfl⟩

theorem shdMgGcEndInternal_cases (faults : Faults) :
    faults.statement = true ∧ shdMgGcEndInternal db faults = .failed db .metadb ∨
      faults.statement = false ∧ exists work, Counted db work .gc (-1) ∧
        shdMgGcEndInternal db faults = .succeeded db work .complete := by
  unfold shdMgGcEndInternal
  cases faults.statement with
  | true => exact .inl ⟨rfl, rfl⟩
  | false =>
    refine .inr ⟨rfl, _, ?_, rfl⟩
    constructor
    · intro k
      cases k <;> simp [reqCount, Int.sub_eq_add_neg]
    · rfl

end

section

variable {db work : MetaDb} {faults : Faults} {leak isRetry : Bool} {req : Request}
  {requestTime now : Int}

theorem Outcome.refused_of_free {job : Job} (h : forall kind, job.holds kind = false) :
    Outcome db faults leak job ⟨db, none, none⟩ := by
  apply Outcome.refused
  intro kind hkind
  rw [h kind] at hkind
  cases hkind

theorem Outcome.of_wait (compensation : CompensationJob)
    (hset : faults.memory = false ->
      setAdminCompensationJob req.operation faults = some compensation)
    (hcounted : Counted db work compensation.kind 1)
    (hcommit : (request req isRetry requestTime).undercounts faults = faults.commit)
    (hfree : forall kind, (request req isRetry requestTime).holds kind = false)
    (hgrants : db.Grants compensation.kind) :
    Outcome db faults leak (.request req isRetry requestTime)
      (adminFuncEnd req requestTime faults (.succeeded db work .completeAndWaitNext)) := by
  cases hmemory : faults.memory with
  | true =>
    have hnone : setAdminCompensationJob req.operation faults = none := by
      unfold setAdminCompensationJob
      rw [if_pos hmemory]
    simp only [adminFuncEnd, succeeded, hnone]
    exact .refused_of_free hfree
  | false =>
    simp only [adminFuncEnd, succeeded, hset hmemory]
    refine .counted hcounted hcommit hfree ?_ (fun _ => hgrants) rfl
    intro kind
    simp only [holds, isSession, isQueuedDdl, Bool.and_false, Bool.or_false]
    exact Bool.beq_comm

theorem outcome_migrationStart {arg : MigrationArg} (hop : req.operation = .migrationStart arg) :
    Outcome db faults leak (.request req isRetry requestTime) (adminFuncEnd req requestTime faults
        (shdMgMigrationStart db arg requestTime now faults)) := by
  have hfree : forall kind, (request req isRetry requestTime).holds kind = false := by
    intro kind
    simp [holds, isSession, isQueuedDdl, hop]
  unfold shdMgMigrationStart
  split
  · next hcounts =>
      dsimp only
      split
      · exact .refused_of_free hfree
      split
      · exact .refused_of_free hfree
      next work hwork =>
        have hcounted : Counted db work .mig 1 := by
          split at hwork
          · cases hwork
          · exact counted_of_migrationStartWork hwork
        apply Outcome.of_wait (.migrationFail arg) _ hcounted _ hfree hcounts
        · intro hmemory
          simp [setAdminCompensationJob, hmemory, hop]
        · simp [undercounts, hop]
  · split
    · exact .refused_of_free hfree
    have hqueued : adminFuncEnd req requestTime faults (.succeeded db db .needQueueing) =
        ⟨db, some (.request req true requestTime), none⟩ := by
      simp only [adminFuncEnd, succeeded, ite_self]
    rw [hqueued]
    apply Outcome.stays
    · intro kind
      simp [holds, isSession, isQueuedDdl, hop]
    · intro kind
      rfl
    · simp [accepted, hop]

theorem outcome_gcStart (hop : req.operation = .gcStart) :
    Outcome db faults leak (.request req isRetry requestTime)
      (adminFuncEnd req requestTime faults (shdMgGcStart db faults)) := by
  have hfree : forall kind, (request req isRetry requestTime).holds kind = false := by
    intro kind
    simp [holds, isSession, isQueuedDdl, hop]
  unfold shdMgGcStart
  split
  · exact .refused_of_free hfree
  split
  · exact .refused_of_free hfree
  next hmig =>
    split
    · exact .refused_of_free hfree
    apply Outcome.of_wait .gcFail _ _ _ hfree (Int.not_lt.mp hmig)
    · intro hmemory
      simp [setAdminCompensationJob, hmemory, hop]
    · constructor
      · intro k
        cases k <;> simp [reqCount, kind]
      · rfl
    · simp [undercounts, hop]

theorem outcome_gcEnd (hop : req.operation = .gcEnd) :
    Outcome db faults leak (.request req isRetry requestTime)
      (adminFuncEnd req requestTime faults (shdMgGcEndInternal db faults)) := by
  have hfree : forall kind, (request req isRetry requestTime).holds kind = false := by
    intro kind
    simp [holds, isSession, isQueuedDdl, hop]
  rcases shdMgGcEndInternal_cases db faults with ⟨_, hend⟩ | ⟨_, work, hcounted, hend⟩
  · rw [hend]
    exact .refused_of_free hfree
  rw [hend]
  simp only [adminFuncEnd, succeeded]
  split
  · exact .refused_of_free hfree
  · exact .stray hcounted (by simp [undercounts, hop]) hfree

theorem outcome_addNode {node : NodeInfo} (hop : req.operation = .addNode node)
    (henters : req.enters db faults = true) :
    Outcome db faults leak (.request req isRetry requestTime)
      (shdMgFuncAdmin db req isRetry requestTime now faults) := by
  have hfree : forall kind, (request req isRetry requestTime).holds kind = false := by
    intro kind
    simp [holds, isSession, isQueuedDdl, hop]
  unfold shdMgFuncAdmin shdMgNodeAdd
  rw [if_neg (by simp [henters]), hop]
  dsimp only
  split_ifs with hstatus hexists hmin hstatement hjob hjoins hcommit
  · exact .refused_of_free hfree
  · exact .refused_of_free hfree
  · exact .refused_of_free hfree
  · exact .refused_of_free hfree
  · exact .refused_of_free hfree
  · simp only [adminFuncEnd, succeeded]
    split
    · exact .refused_of_free hfree
    refine .inserted ?_ hfree
    constructor
    · intro k
      cases k <;> simp [reqCount, insertShardNodeTable]
    · rfl
  · exact .refused_of_free hfree
  · refine .copying hop ?_ (not_not.mp hstatus) rfl
    intro kind
    cases kind <;> rfl

variable {timeoutSec : Int}

theorem holds_queuedDdl (hop : req.operation = .ddlStart timeoutSec) (kind : Kind) :
    (request req true requestTime).holds kind = (kind == .ddl) := by
  simp [holds, isSession, isQueuedDdl, hop]

theorem counted_incrDdl (db : MetaDb) :
    Counted db { db with ddlReqCount := db.ddlReqCount + 1 } .ddl 1 := by
  constructor
  · intro k
    cases k <;> simp [reqCount]
  · rfl

theorem outcome_firstDdlStart (hop : req.operation = .ddlStart timeoutSec) :
    Outcome db faults leak (.request req false requestTime) (adminFuncEnd req requestTime faults
        (shdMgDdlStart db timeoutSec false requestTime now faults)) := by
  have hfree : forall kind, (request req false requestTime).holds kind = false := by
    intro kind
    simp [holds, isSession, isQueuedDdl, hop]
  have hcommit : (request req false requestTime).undercounts faults = faults.commit := by
    simp [undercounts, hop]
  unfold shdMgDdlStart
  split
  · exact .refused_of_free hfree
  next hstatus =>
    rw [if_pos rfl]
    split
    · exact .refused_of_free hfree
    split
    · simp only [adminFuncEnd, succeeded]
      refine .counted (counted_incrDdl db) hcommit hfree (holds_queuedDdl hop) ?_ ?_
      · intro hsession
        cases hsession
      · simp [accepted, hop]
    · next hmig =>
        apply Outcome.of_wait .ddlFail _ (counted_incrDdl db) hcommit hfree
          ⟨Int.not_lt.mp hmig, not_not.mp hstatus⟩
        intro hmemory
        simp [setAdminCompensationJob, hmemory, hop]

theorem shdMgDdlStart_retried (timeoutSec : Int) (hstatus : db.nodeStatus = .allValid) :
    shdMgDdlStart db timeoutSec true requestTime now faults =
      if isExpiredRequest now requestTime timeoutSec = true then
        .failed (if faults.correction = true ∨ faults.correctionCommit = true then db
          else decrDdlReqCount db) .requestTimeout
      else .succeeded db db (if db.migReqCount > 0 then .needQueueing else .completeAndWaitNext) := by
  simp [shdMgDdlStart, hstatus]

variable {incoming : Incoming}

theorem outcome_retriedDdlStart (hop : req.operation = .ddlStart timeoutSec)
    (henters : req.enters db faults = true) :
    Outcome db faults ((request req true requestTime).leaks db incoming now faults)
      (.request req true requestTime)
      (adminFuncEnd req requestTime faults
        (shdMgDdlStart db timeoutSec true requestTime now faults)) := by
  have hleaks : (request req true requestTime).leaks db incoming now faults =
      (db.nodeStatus != .allValid ||
        if isExpiredRequest now requestTime timeoutSec = true then
          faults.correction || faults.correctionCommit
        else decide (db.migReqCount <= 0) && faults.memory) := by
    simp [leaks, hop, henters]
  rw [hleaks]
  by_cases hstatus : db.nodeStatus = .allValid
  · rw [shdMgDdlStart_retried timeoutSec hstatus]
    cases hexpired : isExpiredRequest now requestTime timeoutSec with
    | true =>
      rw [if_pos rfl, if_pos rfl]
      by_cases hfails : faults.correction = true ∨ faults.correctionCommit = true
      · rw [if_pos hfails]
        apply Outcome.refused
        intro _ _
        simpa [hstatus] using hfails
      · rw [if_neg hfails]
        exact .released (counted_decrDdlReqCount db) (holds_queuedDdl hop)
    | false =>
      rw [if_neg Bool.false_ne_true, if_neg Bool.false_ne_true]
      by_cases hmig : db.migReqCount > 0
      · simp only [adminFuncEnd, succeeded, if_pos hmig, ite_self]
        apply Outcome.stays
        · intro _
          rfl
        · intro _
          rfl
        · simp [accepted, hop]
      · rw [if_neg hmig]
        cases hmemory : faults.memory with
        | true =>
          simp only [adminFuncEnd, succeeded, setAdminCompensationJob, hmemory, if_true]
          apply Outcome.refused
          intro _ _
          simpa [hstatus] using hmig
        | false =>
          simp only [adminFuncEnd, succeeded, setAdminCompensationJob, hmemory,
            hop, Bool.false_eq_true, if_false, ite_self]
          exact .granted (holds_queuedDdl hop) ⟨Int.not_lt.mp hmig, hstatus⟩
  · unfold shdMgDdlStart
    rw [if_pos hstatus]
    apply Outcome.refused
    intro _ _
    simp [hstatus]

theorem outcome_request (hjob : (request req isRetry requestTime).accepted = true) :
    Outcome db faults ((request req isRetry requestTime).leaks db incoming now faults)
      (.request req isRetry requestTime)
      (shdMgFuncAdmin db req isRetry requestTime now faults) := by
  cases henters : req.enters db faults with
  | false =>
    unfold shdMgFuncAdmin
    rw [if_pos henters]
    apply Outcome.refused
    intro kind hkind
    cases hop : req.operation <;>
      simp [holds, isSession, isQueuedDdl, leaks, hop, henters] at hkind ⊢
  | true =>
    cases hop : req.operation with
    | addNode node => exact outcome_addNode hop henters
    | migrationEnd arg | ddlEnd => simp [accepted, hop] at hjob
    | migrationStart arg =>
      simp only [shdMgFuncAdmin, henters, hop, Bool.true_eq_false, if_false]
      exact outcome_migrationStart hop
    | gcStart =>
      simp only [shdMgFuncAdmin, henters, hop, Bool.true_eq_false, if_false]
      exact outcome_gcStart hop
    | gcEnd =>
      simp only [shdMgFuncAdmin, henters, hop, Bool.true_eq_false, if_false]
      exact outcome_gcEnd hop
    | ddlStart timeoutSec =>
      simp only [shdMgFuncAdmin, henters, hop, Bool.true_eq_false, if_false]
      cases isRetry with
      | false => exact outcome_firstDdlStart hop
      | true => exact outcome_retriedDdlStart hop henters

end

section

variable {db : MetaDb} {faults : Faults} {compensation : CompensationJob} {now : Int}

theorem holds_waiting (compensation : CompensationJob) (kind : Kind) :
    (waiting compensation).holds kind = (kind == compensation.kind) := by
  simp only [holds, isSession, isQueuedDdl, Bool.and_false, Bool.or_false]
  exact Bool.beq_comm

theorem shdMgMigrationEnd_cases (db : MetaDb) (arg : MigrationArg) (faults : Faults) :
    (exists work, Counted db work .mig (-1) ∧
      shdMgMigrationEnd db arg faults = .succeeded db work .complete ∧
        endFails db faults (.migrationEnd arg) = faults.commit) ∨
    (exists work, Counted db work .mig (-1) ∧
      shdMgMigrationEnd db arg faults = .failed work .metadb) ∨
    shdMgMigrationEnd db arg faults = .failed db .metadb ∧
      endFails db faults (.migrationEnd arg) = true := by
  have hpos : getNextVersion db > 0 := Nat.succ_pos _
  by_cases hstarted : faults.statement = false ∧
      (migrationEndWork db arg (getNextVersion db)).isSome = true
  · obtain ⟨work, hwork⟩ := Option.isSome_iff_exists.mp hstarted.2
    refine .inl ⟨work, counted_of_migrationEndWork hwork, ?_, ?_⟩
    · simp [shdMgMigrationEnd, shdMgMigrationEndInternal, hstarted.1, hwork]
    · simp only [endFails, if_pos hstarted]
  right
  have hnone : (if faults.statement = true then none
      else migrationEndWork db arg (getNextVersion db)) = none := by
    split
    · rfl
    · next hstatement =>
        rw [not_and, Option.not_isSome_iff_eq_none] at hstarted
        exact hstarted (Bool.not_eq_true _ ▸ hstatement)
  simp only [shdMgMigrationEnd, shdMgMigrationEndInternal, hnone, if_pos hpos, endFails,
    if_neg hstarted]
  -- The correction is a second transaction, with faults of its own.
  cases hcorrection : faults.correction with
  | true => exact .inr ⟨rfl, rfl⟩
  | false =>
    cases hwork : migrationEndWork db arg 0 with
    | none => exact .inr ⟨rfl, rfl⟩
    | some work =>
      cases hcommit : faults.correctionCommit with
      | true => exact .inr ⟨rfl, rfl⟩
      | false => exact .inl ⟨work, counted_of_migrationEndWork hwork, rfl⟩

theorem CompensationJob.func_cases (db : MetaDb) (faults : Faults)
    (compensation : CompensationJob) :
    compensation.func db faults = .failed db .metadb ∨
      exists work, Counted db work compensation.kind (-1) ∧
        compensation.func db faults = .succeeded db work .complete := by
  cases compensation with
  | ddlFail => exact (shdMgDdlEndInternal_cases db faults).imp And.right And.right
  | gcFail => exact (shdMgGcEndInternal_cases db faults).imp And.right And.right
  | migrationFail arg =>
    simp only [func, shdMgMigrationFail, shdMgMigrationEndInternal, gt_iff_lt, Nat.lt_irrefl,
      if_false]
    split
    · next work hwork =>
        split at hwork
        · cases hwork
        · exact .inr ⟨work, counted_of_migrationEndWork hwork, rfl⟩
    · exact .inl rfl

theorem outcome_compensation :
    Outcome db faults (compensation.uncommitted db faults) (.waiting compensation)
      (doCompensationJob db compensation faults) := by
  have hstays : Outcome db faults (compensation.uncommitted db faults) (.waiting compensation)
      ⟨db, some (.waiting compensation), none⟩ :=
    .stays (fun _ => rfl) (fun _ => rfl) rfl
  unfold doCompensationJob
  split
  · exact hstays
  next hconnect =>
    rcases compensation.func_cases db faults with hfailed | ⟨work, hcounted, hdone⟩
    · rw [hfailed]
      exact hstays
    rw [hdone]
    simp only [succeeded]
    split
    · next hcommit =>
        apply Outcome.refused
        intro _ _
        simp [uncommitted, hconnect, hdone, succeeded, hcommit]
    · exact .released hcounted (holds_waiting compensation)

theorem Outcome.of_end {req : Request} {result : FuncResult}
    (h : faults.statement = true ∧ result = .failed db .metadb ∨
      faults.statement = false ∧ exists work, Counted db work compensation.kind (-1) ∧
        result = .succeeded db work .complete) :
    Outcome db faults (faults.statement || faults.commit) (.waiting compensation)
      (adminFuncEnd req now faults result) := by
  rcases h with ⟨hstatement, rfl⟩ | ⟨_, work, hcounted, rfl⟩
  · exact .refused fun _ _ => by rw [hstatement, Bool.true_or]
  simp only [adminFuncEnd, succeeded]
  split
  · next hcommit => exact .refused fun _ _ => by rw [hcommit, Bool.or_true]
  · exact .released hcounted (holds_waiting _)

theorem outcome_end {req : Request} (hnext : compensation.nextReqOpcode req.operation = true) :
    Outcome db faults (!req.enters db faults || endFails db faults req.operation)
      (.waiting compensation) (shdMgFuncAdmin db req true now now faults) := by
  cases henters : req.enters db faults with
  | false =>
    unfold shdMgFuncAdmin
    rw [if_pos henters]
    exact .refused fun _ _ => rfl
  | true =>
    rw [Bool.not_true, Bool.false_or]
    cases compensation with
    | ddlFail =>
      cases hop : req.operation <;> simp [nextReqOpcode, hop] at hnext
      simp only [shdMgFuncAdmin, henters, hop, Bool.true_eq_false, if_false, endFails]
      exact .of_end (shdMgDdlEndInternal_cases db faults)
    | gcFail =>
      cases hop : req.operation <;> simp [nextReqOpcode, hop] at hnext
      simp only [shdMgFuncAdmin, henters, hop, Bool.true_eq_false, if_false, endFails]
      exact .of_end (shdMgGcEndInternal_cases db faults)
    | migrationFail granted =>
      cases hop : req.operation <;> simp [nextReqOpcode, hop] at hnext
      next arg =>
      simp only [shdMgFuncAdmin, henters, hop, Bool.true_eq_false, if_false]
      rcases shdMgMigrationEnd_cases db arg faults with ⟨work, hcounted, hend, hfails⟩ |
        ⟨work, hcounted, hend⟩ | ⟨hend, hfails⟩
      · rw [hend, hfails]
        simp only [adminFuncEnd, succeeded]
        split
        · next hcommit => exact .refused fun _ _ => hcommit
        · exact .released hcounted (holds_waiting _)
      · rw [hend]
        exact .released hcounted (holds_waiting _)
      · rw [hend]
        exact .refused fun _ _ => hfails

theorem outcome_shdMgWorkerThr {job : Job} (hjob : job.accepted = true) (incoming : Incoming) :
    Outcome db faults (job.leaks db incoming now faults) job
      (shdMgWorkerThr db job incoming now faults) := by
  cases job with
  | request req isRetry requestTime => exact outcome_request hjob
  | waiting compensation =>
    cases incoming with
    | nothing => exact .stays (fun _ => rfl) (fun _ => rfl) rfl
    | netError => exact outcome_compensation
    | request req =>
      simp only [leaks, shdMgWorkerThr]
      split
      · next hnext => exact outcome_end hnext
      · exact outcome_compensation

end

end Rye.Broker.ShardMgmt
