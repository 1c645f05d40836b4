import Rye.Foundation.Runs
import Rye.Executables.Heartbeat.Cluster

/-!
# The jobs of the heartbeat process

One worker thread takes the due jobs off the queue and runs their bodies.  A
body holds the cluster lock for its first section; what it does after the lock
is released (the resource lock, the decision read without a lock, the queueing
of the next job) is written down in a `Rest` and done in later steps, so that
the other threads can come between.
-/

namespace Rye.Executables.Heartbeat

structure HbResource where
  nodeState : HaState
  serverStates : List HaState
deriving DecidableEq, Repr

/-- What is left of a body once it has released the cluster lock. -/
inductive Rest where
  | done
  | queue (request : JobRequest)
  -- the resource lock is taken to pass the new state on, then the job is queued
  | resource (state : HaState) (request : JobRequest)
  -- the ping check reads the node state again, without the lock
  | decidePing
deriving DecidableEq, Repr

section

variable (prm : Parameters) (now : Timeval)

def calcScoreAgain : JobRequest :=
  { jobType := .calcScore, arg := none, msec := prm.haCalcScoreInterval }

def hbClusterJobHeartbeat (cluster : HbCluster) : HbCluster × Rest :=
  (if cluster.hideToDemote then cluster else hbClusterRequestHeartbeatToAll cluster,
    .queue { jobType := .heartbeat, arg := none, msec := prm.haHeartbeatInterval })

def hbClusterJobCalcScore (cluster : HbCluster) : HbCluster × Rest :=
  let (numMaster, cluster) := hbClusterCalcScore prm now cluster
  let cluster := { cluster with isIsolated := hbClusterIsIsolated cluster }
  if cluster.nodeState = .replica ∨ cluster.hideToDemote then
    (cluster, .queue (calcScoreAgain prm))
  else if cluster.nodeState = .master ∧ cluster.isIsolated then
    -- the master has been isolated
    (cluster, .queue { jobType := .checkPing, arg := some hbAllocClusterJobArg, msec := 0 })
  else if 1 < numMaster ∧ cluster.isSplitBrain then
    (cluster, .queue { jobType := .failback, arg := none, msec := 0 })
  else if cluster.nodeState = .slave ∧ cluster.isMasterMyself then
    -- failover
    (hbClusterRequestHeartbeatToAll { cluster with nodeState := .toBeMaster },
      .queue { jobType := .checkPing, arg := some hbAllocClusterJobArg, msec := 100 })
  else if cluster.nodeState = .toBeSlave ∧ numMaster = 1 then
    -- change slave
    (hbClusterRequestHeartbeatToAll
        (({ cluster with nodeState := .slave } : HbCluster).setMyselfState .slave),
      .resource .slave (calcScoreAgain prm))
  else
    (cluster, .queue (calcScoreAgain prm))

/-- The answers counted and whether one host answered; a success ends the loop. -/
def pingHosts : List PingResult -> Nat × Bool
  | [] => (0, false)
  | .success :: _ => (1, true)
  | .failure :: rest => ((pingHosts rest).1 + 1, (pingHosts rest).2)
  | .uselessHost :: rest => pingHosts rest
  | .sysErr :: rest => pingHosts rest

/-- The label `ping_check_cancel`. -/
def pingCheckCancel (cluster : HbCluster) : HbCluster × Rest :=
  let cluster :=
    if cluster.nodeState = .master then cluster else { cluster with nodeState := .slave }
  (hbClusterRequestHeartbeatToAll cluster, .queue (calcScoreAgain prm))

def hbClusterJobCheckPing (pings : List PingResult) (arg : Option JobArg)
    (cluster : HbCluster) : HbCluster × Rest :=
  let decided := (hbClusterRequestHeartbeatToAll cluster, Rest.decidePing)
  match arg with
  | none => if cluster.nodeState = .master then pingCheckCancel prm cluster else decided
  | some arg =>
    if cluster.numPingHosts = 0 ∨ cluster.isPingCheckEnabled = false then
      if cluster.nodeState = .master then pingCheckCancel prm cluster else decided
    else
      let (pingTryCount, pingSuccess) := pingHosts pings
      if cluster.nodeState = .master ∧ (pingTryCount = 0 ∨ pingSuccess) then
        pingCheckCancel prm cluster
      else if cluster.nodeState ≠ .master ∧ 0 < pingTryCount ∧ pingSuccess = false then
        pingCheckCancel prm cluster
      else if arg.pingCheckCount + 1 < 3 then
        (cluster, .queue
          { jobType := .checkPing
            arg := some { arg with pingCheckCount := arg.pingCheckCount + 1 }
            msec := 0 })
      else
        decided

def decidePingRequest (cluster : HbCluster) : JobRequest :=
  if cluster.nodeState = .master then
    { jobType := .failback, arg := none, msec := 0 }
  else
    { jobType := .failover
      arg := none
      msec :=
        if hbClusterIsReceivedHeartbeatFromAll prm now cluster then 500
        else prm.haFailoverWaitTime }

/-- A completed failover also makes the resources those of a master. -/
def hbClusterJobFailover (cluster : HbCluster) (resource : HbResource) :
    HbCluster × HbResource × Rest :=
  let cluster := (hbClusterCalcScore prm now cluster).2
  if cluster.isMasterMyself then
    (hbClusterRequestHeartbeatToAll { cluster with nodeState := .master },
      { resource with nodeState := .master }, .queue (calcScoreAgain prm))
  else
    (hbClusterRequestHeartbeatToAll { cluster with nodeState := .slave },
      resource, .queue (calcScoreAgain prm))

/-- The first demotion of a row announces an unknown state, for another node to become master. -/
def announceDemote (arg : JobArg) (cluster : HbCluster) : HbCluster :=
  let cluster :=
    if arg.retries = 0 then
      hbClusterRequestHeartbeatToAll { cluster with nodeState := .unknown }
    else cluster
  ({ cluster with hideToDemote := true, nodeState := .slave } : HbCluster).setMyselfState .slave

def hbClusterJobDemote (arg : Option JobArg) (cluster : HbCluster) : HbCluster × Rest :=
  match arg with
  | none => (cluster, .done)
  | some arg =>
    let cluster := announceDemote arg cluster
    if cluster.isIsolated ∨ 60 < arg.retries + 1 then
      ({ cluster with hideToDemote := false }, .done)
    else if cluster.nodes.any (fun node => node.nodeState == .master) then
      -- a new master was found
      ({ cluster with hideToDemote := false }, .done)
    else
      (cluster, .queue
        { jobType := .demote
          arg := some { arg with retries := arg.retries + 1 }
          msec := 1000 })

def hbClusterJobFailback (cluster : HbCluster) : HbCluster × Rest :=
  (hbClusterRequestHeartbeatToAll
      (({ cluster with nodeState := .slave } : HbCluster).setMyselfState .slave),
    .resource .slave (calcScoreAgain prm))

def hbClusterJobChangeslave (cluster : HbCluster) : HbCluster × Rest :=
  (hbClusterRequestHeartbeatToAll
      (({ cluster with nodeState := .toBeSlave } : HbCluster).setMyselfState .toBeSlave),
    .resource .toBeSlave (calcScoreAgain prm))

/-- Asks again while a server is not in the state of the node. -/
def hbClusterJobChangemodeForce (resource : HbResource) : Rest :=
  if resource.serverStates.any (fun state => state != resource.nodeState) then
    .queue { jobType := .changemodeForce, arg := none, msec := 1000 }
  else
    .done

def hbClusterJobCheckValidPingServer (pings : List PingResult) (cluster : HbCluster) :
    HbCluster × Rest :=
  let again (msec : Nat) : Rest :=
    .queue { jobType := .checkValidPingServer, arg := none, msec := msec }
  if cluster.numPingHosts = 0 then (cluster, again 3600000)
  else if PingResult.success ∈ pings then
    ({ cluster with isPingCheckEnabled := true }, again 3600000)
  else if hbClusterIsIsolated cluster then (cluster, again 3600000)
  else ({ cluster with isPingCheckEnabled := false }, again 300000)

def runBody (pings : List PingResult) (job : JobEntry) (cluster : HbCluster)
    (resource : HbResource) : HbCluster × HbResource × Rest :=
  let onCluster (result : HbCluster × Rest) : HbCluster × HbResource × Rest :=
    (result.1, resource, result.2)
  match job.jobType with
  | .heartbeat => onCluster (hbClusterJobHeartbeat prm cluster)
  | .calcScore => onCluster (hbClusterJobCalcScore prm now cluster)
  | .checkPing => onCluster (hbClusterJobCheckPing prm pings job.arg cluster)
  | .failover => hbClusterJobFailover prm now cluster resource
  | .failback => onCluster (hbClusterJobFailback prm cluster)
  | .checkValidPingServer => onCluster (hbClusterJobCheckValidPingServer pings cluster)
  | .demote => onCluster (hbClusterJobDemote job.arg cluster)
  | .changemodeForce => (cluster, resource, hbClusterJobChangemodeForce resource)
  | .changeSlave => onCluster (hbClusterJobChangeslave prm cluster)

end

/-!
## The process

The worker thread is idle, about to run a body, or in the rest of one.  The
thread that serves `hb_changemode` queues two jobs one after the other, and the
thread that reads heartbeats may still have to bring the score calculation
forward.
-/

inductive Running where
  | body (job : JobEntry)
  | rest (jobType : JobType) (rest : Rest)
deriving DecidableEq, Repr

inductive ChangemodePoint where
  | queueSlave
  | queueForce
deriving DecidableEq, Repr

structure State where
  cluster : HbCluster
  resource : HbResource
  queue : JobQueue
  running : Option Running
  changemode : Option ChangemodePoint
  stateChanged : Bool
deriving DecidableEq, Repr

/-- The queue after `hb_cluster_job_init`, which reads the clock three times. -/
def hbClusterJobInit (prm : Parameters) (now1 now2 now3 : Timeval) : JobQueue :=
  let queue : JobQueue := { jobs := [], shutdown := false }
  let queue := hbJobQueue queue now1 { jobType := .heartbeat, arg := none, msec := 0 }
  let queue :=
    hbJobQueue queue now2 { jobType := .checkValidPingServer, arg := none, msec := 0 }
  hbJobQueue queue now3 { jobType := .calcScore, arg := none, msec := prm.haInitTimer }

/-- The process with any cluster and resources, right after the jobs were queued. -/
def State.start (prm : Parameters) (cluster : HbCluster) (resource : HbResource)
    (now1 now2 now3 : Timeval) : State where
  cluster := cluster
  resource := resource
  queue := hbClusterJobInit prm now1 now2 now3
  running := none
  changemode := none
  stateChanged := false

inductive Label where
  | dequeue (now : Timeval)
  /-- The next section of the running job, with the clock and the answers to its pings. -/
  | work (now : Timeval) (pings : List PingResult)
  | receiveHeartbeat (now : Timeval) (hostName : Nat) (nodeState : HaState)
  | reorder (now : Timeval)
  | changemode (reqNodeState : HaState) (force : Bool) (now : Timeval)
  | changemodeQueue (now : Timeval)
  /-- `hb_resource_job_demote_confirm_shutdown` of the resource worker has ended. -/
  | demoteConfirmed (now : Timeval)
  /-- The server processes register, leave or report another state. -/
  | servers (serverStates : List HaState)
  | shutdown
deriving DecidableEq, Repr

/-- `hb_cluster_receive_heartbeat` up to the release of the cluster lock. -/
def hbClusterReceiveHeartbeat (s : State) (now : Timeval) (hostName : Nat)
    (nodeState : HaState) : State :=
  if hostName = s.cluster.hostName then s
  else
    match s.cluster.node hostName with
    | none => s
    | some node =>
      { s with
        cluster := s.cluster.mapNode hostName (fun node =>
          { node with
            nodeState := nodeState
            heartbeatGap := max 0 (node.heartbeatGap - 1)
            lastRecvHbtime := now })
        stateChanged := node.nodeState == .master && node.nodeState != nodeState }

/-- Whether `hb_changemode` turns the request for the slave state down. -/
def changemodeRefused (resource : HbResource) : Bool :=
  resource.serverStates.any (fun state => state == .toBeMaster)

/-- `hb_changemode` up to the first job it queues after it released a lock. -/
def hbChangemode (s : State) (reqNodeState : HaState) (force : Bool) (now : Timeval) : State :=
  if force then
    { s with
      queue := hbJobQueue s.queue now { jobType := .changemodeForce, arg := none, msec := 0 } }
  else if reqNodeState = .slave then
    if changemodeRefused s.resource then s
    else { s with changemode := some .queueSlave }
  else s

def changemodeQueue (prm : Parameters) (s : State) (now : Timeval) : State :=
  match s.changemode with
  | none => s
  | some .queueSlave =>
    { s with
      queue := hbJobQueue s.queue now { jobType := .changeSlave, arg := none, msec := 0 }
      changemode := some .queueForce }
  | some .queueForce =>
    { s with
      queue := hbJobQueue s.queue now
        { jobType := .changemodeForce, arg := none, msec := prm.haChangeslaveMaxWaitTime }
      changemode := none }

/-- The job ends with the section that queues its successor. -/
def endWith (s : State) (now : Timeval) (request : JobRequest) : State :=
  { s with queue := hbJobQueue s.queue now request, running := none }

def work (prm : Parameters) (s : State) (now : Timeval) (pings : List PingResult) : State :=
  match s.running with
  | none => s
  | some (.body job) =>
    let result := runBody prm now pings job s.cluster s.resource
    { s with
      cluster := result.1
      resource := result.2.1
      running := some (.rest job.jobType result.2.2) }
  | some (.rest _ .done) => { s with running := none }
  | some (.rest _ (.queue request)) => endWith s now request
  | some (.rest jobType (.resource state request)) =>
    { s with
      resource := { s.resource with nodeState := state }
      running := some (.rest jobType (.queue request)) }
  | some (.rest _ .decidePing) => endWith s now (decidePingRequest prm now s.cluster)

def dequeue (s : State) (now : Timeval) : State :=
  match s.running, hbJobDequeue s.queue now with
  | none, some (job, queue) => { s with queue := queue, running := some (.body job) }
  | _, _ => s

def State.next (prm : Parameters) (s : State) : Label -> State
  | .dequeue now => dequeue s now
  | .work now pings => work prm s now pings
  | .receiveHeartbeat now hostName nodeState => hbClusterReceiveHeartbeat s now hostName nodeState
  | .reorder now =>
    { s with
      queue := hbJobSetExpireAndReorder s.queue now .calcScore 0
      stateChanged := false }
  | .changemode reqNodeState force now => hbChangemode s reqNodeState force now
  | .changemodeQueue now => changemodeQueue prm s now
  | .demoteConfirmed now =>
    { s with
      queue := hbJobQueue s.queue now
        { jobType := .demote, arg := some hbAllocClusterJobArg, msec := 0 } }
  | .servers serverStates => { s with resource := { s.resource with serverStates := serverStates } }
  | .shutdown => { s with queue := hbJobShutdown s.queue }

/-- A thread starts on a new message or request when it is through with the last one. -/
def State.enabled (s : State) : Label -> Bool
  | .receiveHeartbeat _ _ _ => !s.stateChanged
  | .reorder _ => s.stateChanged
  | .changemode _ _ _ => s.changemode.isNone
  | _ => true

/-- The heartbeat process from the state that `hb_cluster_job_init` leaves. -/
def heartbeatSystem (prm : Parameters) (start : State) : Foundation.System State Label :=
  .deterministic start (fun s label => s.enabled label = true) (State.next prm)

end Rye.Executables.Heartbeat
