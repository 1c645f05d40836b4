import Mathlib.Data.List.Basic

/-!
# The cluster as the heartbeat process sees it

Every node of the cluster runs a heartbeat process that keeps a table of the
nodes, the state it last heard from each, and its own state.  This module
holds the table, the score calculation that picks the master, and the job
queue that drives the process.
-/

namespace Rye.Executables.Heartbeat

open List

inductive HaState where
  | unknown
  | master
  | toBeMaster
  | slave
  | toBeSlave
  | replica
  | dead
deriving DecidableEq, Repr

inductive PingResult where
  | success
  | uselessHost
  | sysErr
  | failure
deriving DecidableEq, Repr

structure Timeval where
  sec : Int
  usec : Int
deriving DecidableEq, Repr

/-- The system parameters the jobs read, in milliseconds but for the gap. -/
structure Parameters where
  haInitTimer : Nat
  haHeartbeatInterval : Nat
  haCalcScoreInterval : Nat
  haFailoverWaitTime : Nat
  haChangeslaveMaxWaitTime : Nat
  haMaxHeartbeatGap : Int
deriving DecidableEq, Repr

/-!
## Time
-/

/-- The microseconds are not carried into the seconds, as in the source. -/
def hbAddTimeval (tv : Timeval) (msec : Nat) : Timeval :=
  { sec := tv.sec + (msec / 1000 : Nat)
    usec := tv.usec + (msec % 1000 * 1000 : Nat) }

/-- `hb_compare_timeval (a, b) > 0`. -/
def Timeval.after (a b : Timeval) : Bool :=
  decide (b.sec < a.sec) || (a.sec == b.sec && decide (b.usec < a.usec))

/-- `HB_IS_INITIALIZED_TIME`. -/
def Timeval.isInitialized (tv : Timeval) : Bool :=
  tv.sec == 0 && tv.usec == 0

/-- `HB_GET_ELAPSED_TIME (now, start) > msec`, with both sides in microseconds. -/
def elapsedOver (now start : Timeval) (msec : Nat) : Bool :=
  decide ((msec : Int) * 1000 < (now.sec - start.sec) * 1000000 + (now.usec - start.usec))

/-!
## Nodes

A host name stands for the node of that name, also where the source keeps a
pointer to the node.
-/

structure HbNodeEntry where
  hostName : Nat
  priority : BitVec 16
  nodeState : HaState
  score : Int
  heartbeatGap : Int
  lastRecvHbtime : Timeval
deriving DecidableEq, Repr

structure HbCluster where
  hostName : Nat
  nodeState : HaState
  nodes : List HbNodeEntry
  master : Option Nat
  isIsolated : Bool
  hideToDemote : Bool
  isPingCheckEnabled : Bool
  numPingHosts : Nat
deriving DecidableEq, Repr

namespace HbCluster

def node (cluster : HbCluster) (hostName : Nat) : Option HbNodeEntry :=
  cluster.nodes.find? (fun node => node.hostName == hostName)

def myself (cluster : HbCluster) : Option HbNodeEntry :=
  cluster.node cluster.hostName

def masterNode (cluster : HbCluster) : Option HbNodeEntry :=
  cluster.master.bind cluster.node

/-- The master and this node are both known and have the same priority. -/
def isMasterMyself (cluster : HbCluster) : Bool :=
  match cluster.masterNode, cluster.myself with
  | some master, some myself => master.priority == myself.priority
  | _, _ => false

/-- This node is a master and the elected one has another priority. -/
def isSplitBrain (cluster : HbCluster) : Bool :=
  match cluster.masterNode, cluster.myself with
  | some master, some myself => myself.nodeState == .master && master.priority != myself.priority
  | _, _ => false

def mapNode (cluster : HbCluster) (hostName : Nat) (f : HbNodeEntry -> HbNodeEntry) :
    HbCluster :=
  { cluster with
    nodes := cluster.nodes.map (fun node => if node.hostName = hostName then f node else node) }

/-- `hb_cluster_set_node_state` on the node of this host. -/
def setMyselfState (cluster : HbCluster) (state : HaState) : HbCluster :=
  cluster.mapNode cluster.hostName (fun node => { node with nodeState := state })

end HbCluster

def hbClusterIsIsolated (cluster : HbCluster) : Bool :=
  cluster.nodes.all (fun node =>
    node.nodeState == .replica || node.hostName == cluster.hostName ||
      node.nodeState == .unknown)

def hbClusterIsReceivedHeartbeatFromAll (prm : Parameters) (now : Timeval)
    (cluster : HbCluster) : Bool :=
  cluster.nodes.all (fun node =>
    node.hostName == cluster.hostName ||
      !elapsedOver now node.lastRecvHbtime prm.haHeartbeatInterval)

/-- Each request sent raises the gap until the answer comes back. -/
def hbClusterRequestHeartbeatToAll (cluster : HbCluster) : HbCluster :=
  { cluster with
    nodes := cluster.nodes.map (fun node =>
      if node.hostName = cluster.hostName then node
      else { node with heartbeatGap := node.heartbeatGap + 1 }) }

/-!
## Scores

The score is a signed short: the state in the upper bits makes a master the
smallest, and the priority decides among nodes of one state.
-/

def HaState.scoreBits : HaState -> BitVec 16
  | .master => 0x8000
  | .toBeMaster => 0x9000
  | .slave => 0xA000
  | .toBeSlave => 0xB000
  | .replica => 0x7FFF
  | .unknown => 0x7FFF
  | .dead => 0x7FFF

/-- A node that was not heard from in time is forgotten. -/
def HbNodeEntry.expire (prm : Parameters) (now : Timeval) (node : HbNodeEntry) :
    HbNodeEntry :=
  if prm.haMaxHeartbeatGap < node.heartbeatGap ∨
      (node.lastRecvHbtime.isInitialized = false ∧
        elapsedOver now node.lastRecvHbtime prm.haCalcScoreInterval) then
    { node with heartbeatGap := 0, lastRecvHbtime := ⟨0, 0⟩, nodeState := .unknown }
  else
    node

def HbNodeEntry.scored (prm : Parameters) (now : Timeval) (node : HbNodeEntry) :
    HbNodeEntry :=
  let node := node.expire prm now
  { node with score := (node.priority ||| node.nodeState.scoreBits).toInt }

def electStep (elected : Option Nat × Int) (node : HbNodeEntry) : Option Nat × Int :=
  if node.score < elected.2 then (some node.hostName, node.score) else elected

/-- The number of masters and the cluster with every node scored. -/
def hbClusterCalcScore (prm : Parameters) (now : Timeval) (cluster : HbCluster) :
    Nat × HbCluster :=
  let cluster := cluster.setMyselfState cluster.nodeState
  let nodes := cluster.nodes.map (HbNodeEntry.scored prm now)
  let elected := nodes.foldl electStep (cluster.master, (0x7FFF : Int))
  let numMaster := nodes.countP (fun node => decide (node.score < (0x9000#16).toInt))
  (numMaster, { cluster with nodes := nodes, master := elected.1 })

/-!
## The job queue

The queue is sorted by expiry time.  A new job goes behind the jobs that expire
no later than it does.
-/

inductive JobType where
  | heartbeat
  | calcScore
  | checkPing
  | failover
  | failback
  | checkValidPingServer
  | demote
  | changemodeForce
  | changeSlave
deriving DecidableEq, Repr

structure JobArg where
  pingCheckCount : Nat
  retries : Nat
deriving DecidableEq, Repr

def hbAllocClusterJobArg : JobArg :=
  { pingCheckCount := 0, retries := 0 }

structure JobEntry where
  jobType : JobType
  arg : Option JobArg
  expire : Timeval
deriving DecidableEq, Repr

structure JobQueue where
  jobs : List JobEntry
  shutdown : Bool
deriving DecidableEq, Repr

def insertJob (job : JobEntry) : List JobEntry -> List JobEntry
  | [] => [job]
  | head :: rest =>
    if head.expire.after job.expire then job :: head :: rest
    else head :: insertJob job rest

/-- What a body asks `hb_job_queue` for. -/
structure JobRequest where
  jobType : JobType
  arg : Option JobArg
  msec : Nat
deriving DecidableEq, Repr

def hbJobQueue (queue : JobQueue) (now : Timeval) (request : JobRequest) : JobQueue :=
  { queue with
    jobs := insertJob
      { jobType := request.jobType
        arg := request.arg
        expire := hbAddTimeval now request.msec } queue.jobs }

/-- The job at the head, when it is due, and the queue without it. -/
def hbJobDequeue (queue : JobQueue) (now : Timeval) : Option (JobEntry × JobQueue) :=
  match queue.jobs with
  | [] => none
  | job :: rest =>
    if queue.shutdown ∨ job.expire.after now then none
    else some (job, { queue with jobs := rest })

/-- Gives the first job of the type a new expiry time and its place in the order. -/
def hbJobSetExpireAndReorder (queue : JobQueue) (now : Timeval) (jobType : JobType)
    (msec : Nat) : JobQueue :=
  if queue.shutdown then queue
  else
    match queue.jobs.find? (fun job => job.jobType == jobType) with
    | none => queue
    | some target =>
      { queue with
        jobs := insertJob { target with expire := hbAddTimeval now msec }
          (queue.jobs.eraseP (fun job => job.jobType == jobType)) }

def hbJobShutdown (_queue : JobQueue) : JobQueue :=
  { jobs := [], shutdown := true }

/-!
The queue operations as the counts of jobs see them.
-/

theorem perm_insertJob (job : JobEntry) (jobs : List JobEntry) :
    insertJob job jobs ~ job :: jobs := by
  induction jobs with
  | nil => rfl
  | cons head rest ih =>
    rw [insertJob]
    split
    · rfl
    · exact (ih.cons head).trans (Perm.swap job head rest)

theorem countP_insertJob (p : JobEntry -> Bool) (job : JobEntry) (jobs : List JobEntry) :
    (insertJob job jobs).countP p = (job :: jobs).countP p :=
  (perm_insertJob job jobs).countP_eq p

theorem countP_hbJobSetExpireAndReorder (p : JobType -> Bool) (queue : JobQueue)
    (now : Timeval) (jobType : JobType) (msec : Nat) :
    (hbJobSetExpireAndReorder queue now jobType msec).jobs.countP (fun job => p job.jobType) =
      queue.jobs.countP (fun job => p job.jobType) := by
  unfold hbJobSetExpireAndReorder
  split
  · rfl
  cases hfind : queue.jobs.find? (fun job => job.jobType == jobType) with
  | none => rfl
  | some target =>
    have htarget := find?_some hfind
    obtain ⟨_, before, after, hjobs, hbefore⟩ := find?_eq_some_iff_append.mp hfind
    have herase : queue.jobs.eraseP (fun job => job.jobType == jobType) = before ++ after := by
      rw [hjobs, eraseP_append_right]
      · simp only [eraseP_cons, htarget, cond_true]
      · intro job hjob
        have := hbefore job hjob
        simpa using this
    rw [countP_insertJob, herase, hjobs]
    simp only [countP_append, countP_cons]
    omega

theorem hbJobDequeue_eq_some {queue rest : JobQueue} {now : Timeval} {job : JobEntry}
    (h : hbJobDequeue queue now = some (job, rest)) :
    queue.jobs = job :: rest.jobs ∧ rest.shutdown = queue.shutdown := by
  unfold hbJobDequeue at h
  cases hjobs : queue.jobs with
  | nil =>
    rw [hjobs] at h
    cases h
  | cons head tail =>
    rw [hjobs] at h
    dsimp only at h
    split at h
    · cases h
    · cases h
      exact ⟨rfl, rfl⟩

theorem shutdown_hbJobSetExpireAndReorder (queue : JobQueue) (now : Timeval)
    (jobType : JobType) (msec : Nat) :
    (hbJobSetExpireAndReorder queue now jobType msec).shutdown = queue.shutdown := by
  unfold hbJobSetExpireAndReorder
  split
  · rfl
  · cases queue.jobs.find? (fun job => job.jobType == jobType) <;> rfl

end Rye.Executables.Heartbeat
