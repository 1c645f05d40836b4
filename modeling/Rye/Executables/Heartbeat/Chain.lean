import Rye.Executables.Heartbeat.Jobs

/-!
# The failover decision chain

The score calculation and the jobs it leads to (ping check, failover, failback,
demotion and change to slave) are meant to be one chain: each job queues
its one successor.  The jobs are counted here over whole runs.  A step of the
worker never changes the number of scoring jobs, so the chain does not die; what
adds to it are the jobs that other threads queue next to it.
-/

namespace Rye.Executables.Heartbeat

open List JobType

/-- The jobs that calculate the score or lead back to it. -/
def JobType.isScoring : JobType -> Bool
  | .calcScore => true
  | .checkPing => true
  | .failover => true
  | .failback => true
  | .changeSlave => true
  | .demote => false
  | .heartbeat => false
  | .checkValidPingServer => false
  | .changemodeForce => false

def JobType.isDemote (jobType : JobType) : Bool :=
  jobType == .demote

def JobType.isChain (jobType : JobType) : Bool :=
  jobType.isScoring || jobType.isDemote

section

variable (p : JobType -> Bool)

def one (jobType : JobType) : Nat :=
  if p jobType then 1 else 0

def queued (queue : JobQueue) : Nat :=
  queue.jobs.countP (fun job => p job.jobType)

def Running.count : Running -> Nat
  | .body job => one p job.jobType
  | .rest jobType _ => one p jobType

def State.count (s : State) : Nat :=
  queued p s.queue + s.running.elim 0 (Running.count p)

/-- The jobs of the kind that the rest of a body is going to queue. -/
def Rest.successors : Rest -> Nat
  | .done => 0
  | .queue request => one p request.jobType
  | .resource _ request => one p request.jobType
  | .decidePing => one p .failover

/-- A job past its first section has as many successors of the kind as it is itself. -/
def State.Continues (s : State) : Prop :=
  forall jobType rest, s.running = some (.rest jobType rest) -> rest.successors p = one p jobType

/-- The jobs of the kind that a step queues from outside the worker. -/
def State.added (s : State) : Label -> Nat
  | .changemode _ force _ => if force then one p .changemodeForce else 0
  | .changemodeQueue _ =>
    s.changemode.elim 0 (fun point =>
      if point = .queueSlave then one p .changeSlave else one p .changemodeForce)
  | .demoteConfirmed _ => one p .demote
  | _ => 0

variable {p}

theorem queued_hbJobQueue (queue : JobQueue) (now : Timeval) (request : JobRequest) :
    queued p (hbJobQueue queue now request) = queued p queue + one p request.jobType := by
  unfold queued hbJobQueue one
  rw [countP_insertJob, countP_cons]

theorem queued_hbJobSetExpireAndReorder (queue : JobQueue) (now : Timeval)
    (jobType : JobType) (msec : Nat) :
    queued p (hbJobSetExpireAndReorder queue now jobType msec) = queued p queue :=
  countP_hbJobSetExpireAndReorder p queue now jobType msec

variable {s : State}

theorem count_of_queue {t : State} {jobType : JobType}
    (hqueue : queued p t.queue = queued p s.queue + one p jobType)
    (hrunning : t.running = s.running) : t.count p = s.count p + one p jobType := by
  unfold State.count
  rw [hqueue, hrunning]
  omega

/-!
## The worker
-/

theorem count_dequeue (s : State) (now : Timeval) : (dequeue s now).count p = s.count p := by
  unfold dequeue
  cases hrunning : s.running with
  | some running => rfl
  | none =>
    cases hdequeue : hbJobDequeue s.queue now with
    | none => rfl
    | some result =>
      obtain ⟨hjobs, _⟩ := hbJobDequeue_eq_some hdequeue
      simp only [State.count, queued, hrunning, hjobs, Option.elim, Running.count, one,
        countP_cons, Nat.add_zero]

theorem count_endWith {running : Running} {request : JobRequest} (now : Timeval)
    (hrunning : s.running = some running) (hrequest : one p request.jobType = running.count p) :
    (endWith s now request).count p = s.count p := by
  simp only [State.count, endWith, queued_hbJobQueue, hrunning, Option.elim]
  omega

theorem one_decidePingRequest (hp : p .failback = p .failover) (prm : Parameters)
    (now : Timeval) (cluster : HbCluster) :
    one p (decidePingRequest prm now cluster).jobType = one p .failover := by
  unfold decidePingRequest
  split
  · simp only [one, hp]
  · rfl

theorem count_work (hp : p .failback = p .failover) (prm : Parameters) (hs : s.Continues p)
    (now : Timeval) (pings : List PingResult) : (work prm s now pings).count p = s.count p := by
  unfold work
  cases hrunning : s.running with
  | none => rfl
  | some running =>
    cases running with
    | body job => simp only [State.count, hrunning, Option.elim, Running.count]
    | rest jobType rest =>
      have hrest := hs jobType rest hrunning
      cases rest with
      | done =>
        simp only [State.count, hrunning, Option.elim, Running.count, ← hrest, Rest.successors]
      | queue request => exact count_endWith now hrunning hrest
      | resource state request => simp only [State.count, hrunning, Option.elim, Running.count]
      | decidePing =>
        apply count_endWith now hrunning
        rw [one_decidePingRequest hp]
        exact hrest

theorem continues_of_idle (h : s.running = none) : s.Continues p := by
  intro jobType rest hrunning
  rw [h] at hrunning
  cases hrunning

theorem continues_of_body {job : JobEntry} (h : s.running = some (.body job)) : s.Continues p := by
  intro jobType rest hrunning
  rw [h] at hrunning
  cases hrunning

theorem continues_of_rest {jobType : JobType} {rest : Rest}
    (h : s.running = some (.rest jobType rest)) (hrest : rest.successors p = one p jobType) :
    s.Continues p := by
  intro jobType' rest' hrunning
  rw [h] at hrunning
  cases hrunning
  exact hrest

theorem continues_congr {t : State} (h : t.running = s.running) (hs : s.Continues p) :
    t.Continues p := by
  intro jobType rest hrunning
  exact hs jobType rest (h ▸ hrunning)

variable (prm : Parameters)

theorem continues_work (hs : s.Continues p) (now : Timeval) (pings : List PingResult)
    (hbody : forall job, s.running = some (.body job) ->
      (runBody prm now pings job s.cluster s.resource).2.2.successors p = one p job.jobType) :
    (work prm s now pings).Continues p := by
  unfold work
  cases hrunning : s.running with
  | none => exact hs
  | some running =>
    cases running with
    | body job => exact continues_of_rest rfl (hbody job hrunning)
    | rest jobType rest =>
      have hrest := hs jobType rest hrunning
      cases rest with
      | done | queue request => exact continues_of_idle rfl
      | resource state request => exact continues_of_rest rfl hrest
      | decidePing => exact continues_of_idle rfl

theorem continues_dequeue (hs : s.Continues p) (now : Timeval) : (dequeue s now).Continues p := by
  unfold dequeue
  cases hrunning : s.running with
  | some running => exact hs
  | none =>
    cases hbJobDequeue s.queue now with
    | none => exact hs
    | some result => exact continues_of_body rfl

/-!
## Every step

A step of any thread adds to the count what it queues from outside the worker,
and nothing else, as long as the queue is not shut down.
-/

theorem count_hbClusterReceiveHeartbeat (s : State) (now : Timeval) (hostName : Nat)
    (nodeState : HaState) :
    (hbClusterReceiveHeartbeat s now hostName nodeState).running = s.running ∧
      (hbClusterReceiveHeartbeat s now hostName nodeState).queue = s.queue := by
  unfold hbClusterReceiveHeartbeat
  split
  · exact ⟨rfl, rfl⟩
  · cases s.cluster.node hostName with
    | none | some node => exact ⟨rfl, rfl⟩

theorem running_hbChangemode (s : State) (reqNodeState : HaState) (force : Bool)
    (now : Timeval) : (hbChangemode s reqNodeState force now).running = s.running := by
  unfold hbChangemode
  split
  · rfl
  split
  · split
    · rfl
    · rfl
  · rfl

theorem running_changemodeQueue (s : State) (now : Timeval) :
    (changemodeQueue prm s now).running = s.running := by
  unfold changemodeQueue
  cases s.changemode with
  | none => rfl
  | some point => cases point <;> rfl

theorem count_hbChangemode (s : State) (reqNodeState : HaState) (force : Bool) (now : Timeval) :
    (hbChangemode s reqNodeState force now).count p =
      s.count p + s.added p (.changemode reqNodeState force now) := by
  cases force with
  | true => exact count_of_queue (queued_hbJobQueue _ _ _) rfl
  | false =>
    simp only [hbChangemode, Bool.false_eq_true, if_false]
    split
    · split
      · rfl
      · rfl
    · rfl

theorem count_changemodeQueue (s : State) (now : Timeval) :
    (changemodeQueue prm s now).count p = s.count p + s.added p (.changemodeQueue now) := by
  unfold changemodeQueue State.added
  cases s.changemode with
  | none => rfl
  | some point =>
    cases point with
    | queueSlave | queueForce => exact count_of_queue (queued_hbJobQueue _ _ _) rfl

theorem count_next (hp : p .failback = p .failover) (prm : Parameters) (hs : s.Continues p)
    (label : Label) (hlabel : label ≠ .shutdown) :
    (s.next prm label).count p = s.count p + s.added p label := by
  cases label with
  | dequeue now => exact count_dequeue s now
  | work now pings => exact count_work hp prm hs now pings
  | receiveHeartbeat now hostName nodeState =>
    obtain ⟨hrunning, hqueue⟩ := count_hbClusterReceiveHeartbeat s now hostName nodeState
    simp only [State.next, State.count, State.added, hrunning, hqueue, Nat.add_zero]
  | reorder now =>
    simp only [State.next, State.count, State.added, queued_hbJobSetExpireAndReorder, Nat.add_zero]
  | changemode reqNodeState force now => exact count_hbChangemode s reqNodeState force now
  | changemodeQueue now => exact count_changemodeQueue prm s now
  | demoteConfirmed now => exact count_of_queue (queued_hbJobQueue _ _ _) rfl
  | servers serverStates => rfl
  | shutdown => exact absurd rfl hlabel

theorem continues_next (hs : s.Continues p) (label : Label)
    (hbody : forall now pings job, s.running = some (.body job) ->
      (runBody prm now pings job s.cluster s.resource).2.2.successors p = one p job.jobType) :
    (s.next prm label).Continues p := by
  cases label with
  | dequeue now => exact continues_dequeue hs now
  | work now pings => exact continues_work prm hs now pings (hbody now pings)
  | receiveHeartbeat now hostName nodeState =>
    exact continues_congr (count_hbClusterReceiveHeartbeat s now hostName nodeState).1 hs
  | changemode reqNodeState force now =>
    exact continues_congr (running_hbChangemode s reqNodeState force now) hs
  | changemodeQueue now => exact continues_congr (running_changemodeQueue prm s now) hs
  | reorder now | demoteConfirmed now | servers serverStates | shutdown => exact hs

end

/-!
## The bodies

Which successor a body picks depends on the cluster; that a scoring job has one
scoring successor, and every other job none, does not.
-/

section

variable {p : JobType -> Bool} (prm : Parameters) (now : Timeval) (pings : List PingResult)
  (cluster : HbCluster)

theorem successors_hbClusterJobCalcScore (hping : p .checkPing = p .calcScore)
    (hback : p .failback = p .calcScore) :
    (hbClusterJobCalcScore prm now cluster).2.successors p = one p .calcScore := by
  unfold hbClusterJobCalcScore
  dsimp only
  split
  · rfl
  split
  · simp only [Rest.successors, one, hping]
  split
  · simp only [Rest.successors, one, hback]
  · split
    · simp only [Rest.successors, one, hping]
    · split <;> rfl

variable (arg : Option JobArg) (cluster : HbCluster)

theorem successors_hbClusterJobCheckPing (hscore : p .calcScore = p .checkPing)
    (hover : p .failover = p .checkPing) :
    (hbClusterJobCheckPing prm pings arg cluster).2.successors p = one p .checkPing := by
  have hcancel : (pingCheckCancel prm cluster).2.successors p = one p .checkPing := by
    simp only [pingCheckCancel, Rest.successors, calcScoreAgain, one, hscore]
  have hdecide : Rest.decidePing.successors p = one p .checkPing := by
    simp only [Rest.successors, one, hover]
  unfold hbClusterJobCheckPing
  cases arg with
  | none =>
    dsimp only
    split
    · exact hcancel
    · exact hdecide
  | some arg =>
    dsimp only
    split
    · split
      · exact hcancel
      · exact hdecide
    split
    · exact hcancel
    split
    · exact hcancel
    · split
      · rfl
      · exact hdecide

variable (resource : HbResource)

theorem successors_hbClusterJobFailover :
    (hbClusterJobFailover prm now cluster resource).2.2.successors p = one p .calcScore := by
  unfold hbClusterJobFailover
  dsimp only
  split <;> rfl

theorem successors_hbClusterJobDemote_scoring :
    (hbClusterJobDemote arg cluster).2.successors isScoring = 0 := by
  unfold hbClusterJobDemote
  cases arg with
  | none => rfl
  | some arg =>
    dsimp only
    split
    · rfl
    · split <;> rfl

theorem successors_hbClusterJobChangemodeForce (hforce : p .changemodeForce = false) :
    (hbClusterJobChangemodeForce resource).successors p = 0 := by
  unfold hbClusterJobChangemodeForce
  split
  · simp only [Rest.successors, one, hforce, Bool.false_eq_true, if_false]
  · rfl

theorem successors_hbClusterJobCheckValidPingServer :
    (hbClusterJobCheckValidPingServer pings cluster).2.successors p =
      one p .checkValidPingServer := by
  unfold hbClusterJobCheckValidPingServer
  split
  · rfl
  · split
    · rfl
    · split <;> rfl

theorem successors_runBody_scoring (job : JobEntry) (cluster : HbCluster) (resource : HbResource) :
    (runBody prm now pings job cluster resource).2.2.successors isScoring =
      one isScoring job.jobType := by
  unfold runBody
  cases job.jobType with
  | heartbeat => rfl
  | calcScore => exact successors_hbClusterJobCalcScore prm now cluster rfl rfl
  | checkPing => exact successors_hbClusterJobCheckPing prm pings job.arg cluster rfl rfl
  | failover => exact successors_hbClusterJobFailover prm now cluster resource
  | failback => rfl
  | checkValidPingServer => exact successors_hbClusterJobCheckValidPingServer pings cluster
  | demote => exact successors_hbClusterJobDemote_scoring job.arg cluster
  | changemodeForce => exact successors_hbClusterJobChangemodeForce resource rfl
  | changeSlave => rfl

theorem successors_runBody_demote (job : JobEntry) (hjob : job.jobType ≠ .demote)
    (cluster : HbCluster) (resource : HbResource) :
    (runBody prm now pings job cluster resource).2.2.successors isDemote =
      one isDemote job.jobType := by
  unfold runBody
  cases hjobType : job.jobType with
  | heartbeat => rfl
  | calcScore => exact successors_hbClusterJobCalcScore prm now cluster rfl rfl
  | checkPing => exact successors_hbClusterJobCheckPing prm pings job.arg cluster rfl rfl
  | failover => exact successors_hbClusterJobFailover prm now cluster resource
  | failback => rfl
  | checkValidPingServer => exact successors_hbClusterJobCheckValidPingServer pings cluster
  | demote => exact absurd hjobType hjob
  | changemodeForce => exact successors_hbClusterJobChangemodeForce resource rfl
  | changeSlave => rfl

end

/-!
## Runs
-/

section

variable {prm : Parameters} {cluster : HbCluster} {resource : HbResource}
  {now1 now2 now3 : Timeval} (p : JobType -> Bool)

theorem count_start :
    (State.start prm cluster resource now1 now2 now3).count p =
      one p .heartbeat + one p .checkValidPingServer + one p .calcScore := by
  simp only [State.count, State.start, hbClusterJobInit, queued_hbJobQueue, Option.elim]
  simp only [queued, countP_nil, Nat.zero_add, Nat.add_zero]

theorem shutdown_next (s : State) (label : Label) (hlabel : label ≠ .shutdown) :
    (s.next prm label).queue.shutdown = s.queue.shutdown := by
  cases label with
  | dequeue now =>
    show (dequeue s now).queue.shutdown = s.queue.shutdown
    unfold dequeue
    cases s.running with
    | some running => rfl
    | none =>
      cases hdequeue : hbJobDequeue s.queue now with
      | none => rfl
      | some result => exact (hbJobDequeue_eq_some hdequeue).2
  | work now pings =>
    show (work prm s now pings).queue.shutdown = s.queue.shutdown
    unfold work
    cases s.running with
    | none => rfl
    | some running =>
      cases running with
      | body job => rfl
      | rest jobType rest => cases rest <;> rfl
  | receiveHeartbeat now hostName nodeState =>
    exact congrArg JobQueue.shutdown (count_hbClusterReceiveHeartbeat s now hostName nodeState).2
  | reorder now => exact shutdown_hbJobSetExpireAndReorder s.queue now .calcScore 0
  | changemode reqNodeState force now =>
    show (hbChangemode s reqNodeState force now).queue.shutdown = s.queue.shutdown
    unfold hbChangemode
    split
    · rfl
    · split
      · split <;> rfl
      · rfl
  | changemodeQueue now =>
    show (changemodeQueue prm s now).queue.shutdown = s.queue.shutdown
    unfold changemodeQueue
    cases s.changemode with
    | none => rfl
    | some point => cases point <;> rfl
  | demoteConfirmed now | servers serverStates => rfl
  | shutdown => exact absurd rfl hlabel

structure Alive (s : State) : Prop where
  scoring : s.queue.shutdown = false -> 1 <= s.count isScoring
  continues : s.Continues isScoring

variable {s : State}

theorem Alive.next (h : Alive s) (label : Label) : Alive (s.next prm label) := by
  constructor
  · intro hopen
    have hlabel : label ≠ .shutdown := by
      intro heq
      rw [heq] at hopen
      cases hopen
    rw [count_next rfl prm h.continues label hlabel]
    rw [shutdown_next s label hlabel] at hopen
    exact Nat.le_add_right_of_le (h.scoring hopen)
  · apply continues_next prm h.continues label
    intro now pings job _
    exact successors_runBody_scoring prm now pings job s.cluster s.resource

def OneChain (s : State) : Prop :=
  s.queue.shutdown = false -> s.count isChain = 1

/--
A step that queues no job of the chain next to it: the node is not asked, with
success, to become a slave, and no demotion is handed over by the resources.
-/
def keepsChain (s : State) : Label -> Bool
  | .changemode reqNodeState force _ =>
    force || reqNodeState != .slave || changemodeRefused s.resource
  | .demoteConfirmed _ => false
  | _ => true

theorem count_isChain (s : State) : s.count isChain = s.count isScoring + s.count isDemote := by
  have hone : forall jobType, one isChain jobType =
      one isScoring jobType + one isDemote jobType := by
    intro jobType
    cases jobType <;> rfl
  have hqueued : queued isChain s.queue = queued isScoring s.queue + queued isDemote s.queue := by
    unfold queued
    induction s.queue.jobs with
    | nil => rfl
    | cons job rest ih =>
      have := hone job.jobType
      simp only [one] at this
      simp only [countP_cons, ih, this]
      omega
  unfold State.count
  rw [hqueued]
  cases s.running with
  | none => rfl
  | some running => cases running <;> simp only [Option.elim, Running.count, hone] <;> omega

/-- What the runs keep in which nothing is queued next to the chain. -/
structure Inv (s : State) : Prop where
  scoring : s.queue.shutdown = false -> s.count isScoring = 1
  demote : s.count isDemote = 0
  scoringContinues : s.Continues isScoring
  demoteContinues : s.Continues isDemote
  changemode : s.changemode ≠ some .queueSlave

theorem inv_start : Inv (State.start prm cluster resource now1 now2 now3) where
  scoring := fun _ => count_start isScoring
  demote := count_start isDemote
  scoringContinues := continues_of_idle rfl
  demoteContinues := continues_of_idle rfl
  changemode := by
    intro h
    cases h

theorem Inv.running_ne_demote (h : Inv s) {job : JobEntry}
    (hrunning : s.running = some (.body job)) : job.jobType ≠ .demote := by
  intro hjob
  have hcount := h.demote
  simp only [State.count, hrunning, Option.elim, Running.count, hjob, one,
    isDemote, beq_self_eq_true, if_true] at hcount
  omega

variable {label : Label}

theorem Inv.added_eq_zero (h : Inv s) (hguard : keepsChain s label = true) :
    s.added isScoring label = 0 ∧ s.added isDemote label = 0 := by
  cases label with
  | changemode reqNodeState force now => cases force <;> exact ⟨rfl, rfl⟩
  | changemodeQueue now =>
    unfold State.added
    cases hpoint : s.changemode with
    | none => exact ⟨rfl, rfl⟩
    | some point =>
      cases point with
      | queueSlave => exact absurd hpoint h.changemode
      | queueForce => exact ⟨rfl, rfl⟩
  | demoteConfirmed now => cases hguard
  | dequeue now => exact ⟨rfl, rfl⟩
  | work now pings => exact ⟨rfl, rfl⟩
  | receiveHeartbeat now hostName nodeState | reorder now | servers serverStates | shutdown =>
    exact ⟨rfl, rfl⟩

theorem Inv.changemode_next (h : Inv s) (hguard : keepsChain s label = true) :
    (s.next prm label).changemode ≠ some .queueSlave := by
  cases label with
  | dequeue now =>
    show (dequeue s now).changemode ≠ some .queueSlave
    unfold dequeue
    split
    · exact h.changemode
    · exact h.changemode
  | work now pings =>
    show (work prm s now pings).changemode ≠ some .queueSlave
    unfold work
    cases s.running with
    | none => exact h.changemode
    | some running =>
      cases running with
      | body job => exact h.changemode
      | rest jobType rest => cases rest <;> exact h.changemode
  | receiveHeartbeat now hostName nodeState =>
    show (hbClusterReceiveHeartbeat s now hostName nodeState).changemode ≠ some .queueSlave
    unfold hbClusterReceiveHeartbeat
    split
    · exact h.changemode
    · cases s.cluster.node hostName <;> exact h.changemode
  | changemode reqNodeState force now =>
    show (hbChangemode s reqNodeState force now).changemode ≠ some .queueSlave
    unfold hbChangemode
    split
    · exact h.changemode
    split
    · split
      · exact h.changemode
      · simp_all [keepsChain]
    · exact h.changemode
  | changemodeQueue now =>
    show (changemodeQueue prm s now).changemode ≠ some .queueSlave
    unfold changemodeQueue
    cases hpoint : s.changemode with
    | none => exact h.changemode
    | some point =>
      cases point with
      | queueSlave => exact absurd hpoint h.changemode
      | queueForce =>
        intro hnone
        cases hnone
  | reorder now | demoteConfirmed now | servers serverStates | shutdown => exact h.changemode

theorem count_shutdown (s : State) : (s.next prm .shutdown).count p <= s.count p := by
  simp only [State.next, State.count, hbJobShutdown, queued, countP_nil]
  omega

theorem Inv.next (h : Inv s) (hguard : keepsChain s label = true) : Inv (s.next prm label) := by
  obtain ⟨hscoring, hdemote⟩ := h.added_eq_zero hguard
  constructor
  · intro hopen
    have hlabel : label ≠ .shutdown := by
      intro heq
      rw [heq] at hopen
      cases hopen
    rw [shutdown_next s label hlabel] at hopen
    rw [count_next rfl prm h.scoringContinues label hlabel, hscoring]
    exact h.scoring hopen
  · by_cases hlabel : label = .shutdown
    · subst hlabel
      exact Nat.le_zero.mp (h.demote ▸ count_shutdown isDemote s)
    · rw [count_next rfl prm h.demoteContinues label hlabel, hdemote]
      exact h.demote
  · apply continues_next prm h.scoringContinues label
    intro now pings job _
    exact successors_runBody_scoring prm now pings job s.cluster s.resource
  · apply continues_next prm h.demoteContinues label
    intro now pings job hrunning
    exact successors_runBody_demote prm now pings job (h.running_ne_demote hrunning)
      s.cluster s.resource
  · exact h.changemode_next hguard

/--
As long as no other thread queues a job of the chain, exactly one is queued or
running until the queue is shut down.
-/
theorem oneChain_of_reachable {s : State}
    (hs : ((heartbeatSystem prm (State.start prm cluster resource now1 now2 now3)).guarded
      (fun s label => keepsChain s label = true)).Reachable s) : OneChain s := by
  have h : Inv s := by
    refine hs.guarded_invariant Inv ?_ ?_
    · intro start hstart
      subst hstart
      exact inv_start
    · rintro s label t hInv hguard ⟨_, rfl⟩
      exact hInv.next hguard
  intro hopen
  rw [count_isChain, h.scoring hopen, h.demote]

end

/-!
## A fork

The node is a master of two, and its servers are masters.  It is asked to become
a slave while its score calculation waits in the queue.  Both jobs run, and each
queues a score calculation of its own.
-/

def twoNodes : HbCluster where
  hostName := 1
  nodeState := .master
  nodes :=
    [{ hostName := 1, priority := 1, nodeState := .master, score := 0,
       heartbeatGap := 0, lastRecvHbtime := ⟨0, 0⟩ },
     { hostName := 2, priority := 2, nodeState := .slave, score := 0,
       heartbeatGap := 0, lastRecvHbtime := ⟨0, 0⟩ }]
  master := some 1
  isIsolated := false
  hideToDemote := false
  isPingCheckEnabled := true
  numPingHosts := 0

def timers : Parameters where
  haInitTimer := 10000
  haHeartbeatInterval := 500
  haCalcScoreInterval := 3000
  haFailoverWaitTime := 3000
  haChangeslaveMaxWaitTime := 300000
  haMaxHeartbeatGap := 5

def started : State :=
  .start timers twoNodes { nodeState := .master, serverStates := [.master] }
    ⟨100, 0⟩ ⟨100, 0⟩ ⟨100, 0⟩

def jobSteps (now : Timeval) : List Label :=
  [.dequeue now, .work now [], .work now []]

/-- The start-up jobs, a heartbeat of the other node, and the score calculation. -/
def quietRun : List Label :=
  jobSteps ⟨100, 0⟩ ++ jobSteps ⟨100, 1⟩ ++ [.receiveHeartbeat ⟨100, 2⟩ 2 .slave] ++
    jobSteps ⟨101, 0⟩ ++ jobSteps ⟨110, 0⟩ ++ jobSteps ⟨110, 0⟩

theorem oneChain_quietRun :
    OneChain (quietRun.foldl (State.next timers) started) :=
  oneChain_of_reachable (.follow quietRun (.start rfl) (by decide))

/-- The request, the start-up jobs, and the change to slave with its three sections. -/
def changemodeRun : List Label :=
  [.changemode .slave false ⟨100, 0⟩, .changemodeQueue ⟨100, 0⟩, .changemodeQueue ⟨100, 0⟩] ++
    jobSteps ⟨100, 1⟩ ++ jobSteps ⟨100, 2⟩ ++ jobSteps ⟨100, 3⟩ ++ [.work ⟨100, 4⟩ []]

theorem not_oneChain_changemodeRun :
    exists s, (heartbeatSystem timers started).Reachable s ∧ ¬ OneChain s :=
  ⟨_, Foundation.System.reachable_of_follows changemodeRun (by decide), by
    intro h
    exact absurd (h rfl) (by decide)⟩

end Rye.Executables.Heartbeat
