import Rye.Broker.ShardMgmt.Accounting

/-!
# Exclusion and counters of the shard management

A job moves a counter and what it holds together, so that the difference between the two is
the same after every step, apart from the steps in which a count gets lost.  A grant looks at
the counters; where none of them is too small, migrations, definitions of schema and garbage
collections exclude one another.
-/

namespace Rye.Broker.ShardMgmt

open Foundation List Job

/-!
## One job
-/

section

variable {db : MetaDb} {faults : Faults} {leak : Bool} {job : Job} {r : WorkResult}

/-- The number of the jobs in a list that hold a counter. -/
def heldCount (kind : Kind) (jobs : List Job) : Int :=
  jobs.countP (holds kind)

variable (kind : Kind)

theorem heldCount_append (jobs jobs' : List Job) :
    heldCount kind (jobs ++ jobs') = heldCount kind jobs + heldCount kind jobs' := by
  simp [heldCount]

theorem heldCount_singleton (job : Job) :
    heldCount kind [job] = if job.holds kind = true then 1 else 0 := by
  simp only [heldCount, countP_singleton]
  split <;> rfl

theorem heldCount_nonneg (jobs : List Job) : 0 <= heldCount kind jobs :=
  Int.natCast_nonneg _

theorem heldCount_eraseIdx {jobs : List Job} {index : Nat} (h : jobs[index]? = some job) :
    heldCount kind (jobs.eraseIdx index) = heldCount kind jobs - heldCount kind [job] := by
  obtain ⟨hlt, rfl⟩ := List.getElem?_eq_some_iff.mp h
  have hsplit : jobs.take index ++ ([jobs[index]] ++ jobs.drop (index + 1)) = jobs := by
    rw [singleton_append, getElem_cons_drop, take_append_drop]
  have hcount := congrArg (heldCount kind) hsplit
  rw [heldCount_append, heldCount_append] at hcount
  rw [eraseIdx_eq_take_drop_succ, heldCount_append]
  omega

theorem Job.holds_of_isSession {kind : Kind} (h : job.isSession kind = true) :
    job.holds kind = true := by
  rw [holds, h, Bool.true_or]

section

variable (h : Outcome db faults leak job r)
include h

theorem Outcome.surplus_eq_or (hunder : job.undercounts faults = false) (kind : Kind) :
    r.db.reqCount kind - heldCount kind r.job.toList =
        db.reqCount kind - heldCount kind [job] ∨
      leak = true ∧ r = ⟨db, none, none⟩ := by
  cases h with
  | refused hholds =>
    cases hkind : job.holds kind with
    | true => exact .inr ⟨hholds kind hkind, rfl⟩
    | false =>
      left
      simp [hkind, heldCount]
  | stays hsame =>
    left
    simp [heldCount_singleton, hsame]
  | counted hcounted hcommit hfree hholds =>
    left
    rw [hcommit] at hunder
    simp only [hunder, Bool.false_eq_true, if_false, Option.toList_some, heldCount_singleton,
      hcounted.reqCount, hfree, hholds, beq_iff_eq]
    omega
  | granted hholds =>
    left
    simp [heldCount_singleton, hholds, holds_waiting, CompensationJob.kind]
  | released hcounted hholds =>
    left
    simp only [Option.toList_none, heldCount_singleton, hcounted.reqCount, hholds, beq_iff_eq]
    split <;> simp [heldCount, Int.sub_eq_add_neg]
  | stray _ hstray =>
    rw [hunder] at hstray
    cases hstray
  | inserted hcounted hfree =>
    left
    simp [hcounted.reqCount, hfree, heldCount]
  | copying hop hsame =>
    left
    simp [hsame, heldCount, holds, isSession, isQueuedDdl, hop]

theorem Outcome.surplus_le (hunder : job.undercounts faults = false) (kind : Kind) :
    db.reqCount kind - heldCount kind [job] <=
      r.db.reqCount kind - heldCount kind r.job.toList := by
  rcases h.surplus_eq_or hunder kind with heq | ⟨_, rfl⟩
  · exact Int.le_of_eq heq.symm
  have hnonneg := heldCount_nonneg kind [job]
  have hnil : heldCount kind (none : Option Job).toList = 0 := rfl
  rw [hnil]
  dsimp only
  omega

theorem Outcome.session {job' : Job} {kind : Kind} (hjob' : r.job = some job')
    (hsession : job'.isSession kind = true) : job.isSession kind = true ∨ db.Grants kind := by
  cases h with
  | refused | released | stray | inserted | copying => cases hjob'
  | stays _ hsame =>
    cases hjob'
    exact .inl (hsame kind ▸ hsession)
  | @counted _ _ other _ _ _ _ hholds hgrants =>
    cases hjob'
    have hkind := holds_of_isSession hsession
    rw [hholds kind, beq_iff_eq] at hkind
    subst hkind
    exact .inr (hgrants hsession)
  | granted _ hgrants =>
    cases hjob'
    rw [isSession, beq_iff_eq] at hsession
    rw [← hsession]
    exact .inr hgrants

theorem Outcome.accepted {job' : Job} (hjob' : r.job = some job') : job'.accepted = true := by
  cases h with
  | refused | released | stray | inserted | copying => cases hjob'
  | stays _ _ haccepted | counted _ _ _ _ _ haccepted =>
    cases hjob'
    exact haccepted
  | granted =>
    cases hjob'
    rfl

theorem Outcome.nodeAdd :
    r.nodeAdd = none ∧ r.db.nodeStatus = db.nodeStatus ∨
      (exists nodeAdd, r.nodeAdd = some nodeAdd) ∧ r.job = none ∧ db.nodeStatus = .allValid ∧
        r.db.nodeStatus = .existInvalid ∧
          exists req isRetry requestTime node,
            job = .request req isRetry requestTime ∧ req.operation = .addNode node := by
  cases h with
  | refused | stays | granted => exact .inl ⟨rfl, rfl⟩
  | counted hcounted =>
    refine .inl ⟨rfl, ?_⟩
    split
    · rfl
    · exact hcounted.nodeStatus
  | released hcounted | stray hcounted | inserted hcounted =>
    exact .inl ⟨rfl, hcounted.nodeStatus⟩
  | copying hop _ hvalid hinvalid =>
    exact .inr ⟨⟨_, rfl⟩, rfl, hvalid, hinvalid, _, _, _, _, rfl, hop⟩

end

end

theorem nodeAddFail_reqCount (db : MetaDb) (nodeAdd : NodeAdd) (error : BrError)
    (faults : Faults) (kind : Kind) :
    (nodeAddFail db nodeAdd error faults).committed.reqCount kind = db.reqCount kind ∧
      (nodeAddFail db nodeAdd error faults).res.isSome = true := by
  unfold nodeAddFail
  dsimp only
  split
  · exact ⟨rfl, rfl⟩
  next work hwork =>
    have hsame : work.reqCount kind = db.reqCount kind := by
      split at hwork
      · cases hwork
      split at hwork
      · cases hwork
        rfl
      split at hwork
      · cases hwork
        cases kind <;> rfl
      · cases hwork
    refine ⟨?_, rfl⟩
    simp only [FuncResult.failed]
    split
    · rfl
    · rw [← hsame]
      cases kind <;> rfl

theorem State.replaceNodeAdd_spec (s : State) (index : Nat) (nodeAdd : NodeAdd)
    (copyEnd : CopyEnd) (faults : Faults) :
    let t := s.replaceNodeAdd index faults (nodeAddCopied s.db nodeAdd copyEnd faults)
    (forall kind, t.db.reqCount kind = s.db.reqCount kind) ∧ t.jobs = s.jobs ∧
      (t.nodeAdds = s.nodeAdds.eraseIdx index ∨
        t.nodeAdds.length = s.nodeAdds.length ∧ t.db.nodeStatus = s.db.nodeStatus) := by
  have hfail : forall error, (forall kind,
      (s.replaceNodeAdd index faults (.finished (nodeAddFail s.db nodeAdd error faults))).db.reqCount
        kind = s.db.reqCount kind) := by
    intro error kind
    obtain ⟨hcount, hres⟩ := nodeAddFail_reqCount s.db nodeAdd error faults kind
    simp only [State.replaceNodeAdd, hres, true_or, if_true]
    exact hcount
  unfold nodeAddCopied
  split
  · exact ⟨hfail _, rfl, .inl rfl⟩
  split
  · split
    · exact ⟨hfail _, rfl, .inl rfl⟩
    · refine ⟨?_, rfl, .inr ⟨length_set, rfl⟩⟩
      intro kind
      cases kind <;> rfl
  · split
    · exact ⟨hfail _, rfl, .inl rfl⟩
    refine ⟨?_, rfl, .inl rfl⟩
    intro kind
    cases hcommit : faults.commit <;>
      simp [State.replaceNodeAdd, FuncResult.succeeded, hcommit, MetaDb.reqCount]

/-!
## What one step keeps
-/

def State.surplus (s : State) (kind : Kind) : Int :=
  s.db.reqCount kind - heldCount kind s.jobs

def HasSession (kind : Kind) (jobs : List Job) : Prop :=
  exists job, job ∈ jobs ∧ job.isSession kind = true

instance (kind : Kind) (jobs : List Job) : Decidable (HasSession kind jobs) :=
  inferInstanceAs (Decidable (exists job, job ∈ jobs ∧ job.isSession kind = true))

section

variable {s : State} {index : Nat}

theorem State.surplus_replaceJob {job : Job} (hjob : s.jobs[index]? = some job) (r : WorkResult)
    (kind : Kind) :
    (s.replaceJob index r).surplus kind = r.db.reqCount kind - heldCount kind r.job.toList -
        (heldCount kind s.jobs - heldCount kind [job]) := by
  simp only [State.surplus, State.replaceJob, heldCount_append, heldCount_eraseIdx kind hjob]
  omega

theorem shdMgJobQueueAdd_cases (jobs : List Job) (req : Request) (now : Int) :
    shdMgJobQueueAdd jobs req now = jobs ∨
      exists job : Job, job.accepted = true ∧ (forall kind, job.holds kind = false) ∧
        shdMgJobQueueAdd jobs req now = jobs ++ [job] := by
  unfold shdMgJobQueueAdd
  cases hop : req.operation
  case migrationEnd | ddlEnd => exact .inl rfl
  all_goals
    exact .inr ⟨.request req false now, by simp [accepted, hop],
      by simp [holds, isSession, isQueuedDdl, hop], rfl⟩

namespace State

theorem surplus_arrive (req : Request) (now : Int) (kind : Kind) :
    (s.next (.arrive req now)).surplus kind = s.surplus kind := by
  rw [next, surplus]
  rcases shdMgJobQueueAdd_cases s.jobs req now with hjobs | ⟨job, _, hholds, hjobs⟩
  · rw [hjobs, surplus]
  · simp [hjobs, heldCount_append, heldCount_singleton, hholds, surplus]

theorem surplus_copyEnds (index : Nat) (copyEnd : CopyEnd) (faults : Faults) (kind : Kind) :
    (s.next (.copyEnds index copyEnd faults)).surplus kind = s.surplus kind := by
  rw [next]
  split
  · rfl
  · next nodeAdd hnodeAdd =>
      obtain ⟨hcount, hjobs, _⟩ := s.replaceNodeAdd_spec index nodeAdd copyEnd faults
      rw [surplus, hcount, hjobs, surplus]

theorem surplus_rebalance (migrations : List GroupMigration) (kind : Kind) :
    (s.next (.rebalance migrations)).surplus kind = s.surplus kind := by
  cases kind <;> rfl

end State

def State.Accepted (s : State) : Prop :=
  forall job, job ∈ s.jobs -> job.accepted = true

section

variable (h : s.Accepted)
include h

theorem State.accepted_arrive (req : Request) (now : Int) :
    (s.next (.arrive req now)).Accepted := by
  rw [State.next, State.Accepted]
  rcases shdMgJobQueueAdd_cases s.jobs req now with hjobs | ⟨job, haccepted, _, hjobs⟩
  · rwa [hjobs]
  · rw [hjobs]
    exact forall_mem_append.mpr ⟨h, forall_mem_singleton.mpr haccepted⟩

theorem State.Accepted.outcome {job : Job} (hjob : s.jobs[index]? = some job) (incoming : Incoming)
    (now : Int) (faults : Faults) :
    Outcome s.db faults (job.leaks s.db incoming now faults) job
      (shdMgWorkerThr s.db job incoming now faults) :=
  outcome_shdMgWorkerThr (h job (mem_of_getElem? hjob)) incoming

theorem State.Accepted.replaceJob {r : WorkResult}
    (hr : forall job', r.job = some job' -> job'.accepted = true) :
    (s.replaceJob index r).Accepted := by
  intro job' hjob'
  cases mem_append.mp hjob' with
  | inl hold => exact h job' (mem_of_mem_eraseIdx hold)
  | inr hnew => exact hr job' (Option.mem_toList.mp hnew)

theorem State.Accepted.next (label : Label) : (s.next label).Accepted := by
  cases label with
  | arrive req now => exact State.accepted_arrive h req now
  | work index incoming now faults =>
    rw [State.next]
    split
    · exact h
    · next job hjob =>
        exact h.replaceJob fun _ hjob' => (h.outcome hjob incoming now faults).accepted hjob'
  | copyEnds index copyEnd faults =>
    rw [State.next]
    split
    · exact h
    next nodeAdd _ =>
      obtain ⟨_, hjobs, _⟩ := s.replaceNodeAdd_spec index nodeAdd copyEnd faults
      rw [State.Accepted, hjobs]
      exact h
  | rebalance migrations => exact h

end

end

/-!
## The counters
-/

def State.keepsCounts (s : State) : Label -> Bool
  | .work index incoming now faults =>
    s.jobs[index]?.all fun job =>
      !job.leaks s.db incoming now faults && !job.undercounts faults
  | .arrive _ _ | .copyEnds _ _ _ | .rebalance _ => true

structure State.Balanced (s : State) : Prop where
  ddl : s.db.ddlReqCount = s.jobs.countP (isSession .ddl) + s.jobs.countP isQueuedDdl
  gc : s.db.gcReqCount = s.jobs.countP (isSession .gc)
  mig : s.db.migReqCount = s.jobs.countP (isSession .mig)
  nonneg : forall kind, 0 <= s.db.reqCount kind
  /-- Nothing is left of requests that are over. -/
  idle : (forall job, job ∈ s.jobs -> forall kind, job.holds kind = false) ->
    forall kind, s.db.reqCount kind = 0

theorem heldCount_eq (kind : Kind) (jobs : List Job) :
    heldCount kind jobs = jobs.countP (isSession kind) +
      if kind = .ddl then (jobs.countP isQueuedDdl : Int) else 0 := by
  unfold heldCount
  induction jobs with
  | nil => simp
  | cons job jobs ih =>
    simp only [countP_cons, Nat.cast_add, ih]
    have hjob : (if job.holds kind = true then 1 else 0) =
        (if job.isSession kind = true then 1 else 0) +
          if kind = .ddl then (if job.isQueuedDdl = true then (1 : Int) else 0) else 0 := by
      cases job with
      | request req isRetry requestTime => cases kind <;> simp [holds, isSession]
      | waiting compensation => cases kind <;> simp [holds, isSession, isQueuedDdl]
    cases kind with
    | ddl =>
      simp_all
      omega
    | mig | gc => simp_all

theorem State.Balanced.of_surplus {s : State} (h : forall kind, s.surplus kind = 0) :
    s.Balanced := by
  have hheld : forall kind, s.db.reqCount kind = heldCount kind s.jobs :=
    fun kind => Int.eq_of_sub_eq_zero (h kind)
  constructor
  · have := hheld .ddl
    rw [heldCount_eq, if_pos rfl] at this
    exact this
  · have := hheld .gc
    rw [heldCount_eq, if_neg (by decide), Int.add_zero] at this
    exact this
  · have := hheld .mig
    rw [heldCount_eq, if_neg (by decide), Int.add_zero] at this
    exact this
  · intro kind
    rw [hheld]
    exact heldCount_nonneg kind s.jobs
  intro hidle kind
  rw [hheld, heldCount, countP_eq_zero.mpr]
  · rfl
  · intro job hjob
    rw [hidle job hjob kind]
    exact Bool.false_ne_true

theorem State.surplus_next {s : State} (haccepted : s.Accepted) {label : Label}
    (hkeeps : s.keepsCounts label = true) (kind : Kind) :
    (s.next label).surplus kind = s.surplus kind := by
  cases label with
  | arrive req now => exact State.surplus_arrive req now kind
  | work index incoming now faults =>
    rw [State.next]
    split
    · rfl
    next job hjob =>
      simp only [State.keepsCounts, hjob, Option.all_some, Bool.and_eq_true,
        Bool.not_eq_true'] at hkeeps
      obtain ⟨hleaks, hunder⟩ := hkeeps
      rw [State.surplus_replaceJob hjob]
      rcases (haccepted.outcome hjob incoming now faults).surplus_eq_or hunder kind with
        heq | ⟨hleak, _⟩
      · rw [heq, State.surplus]
        omega
      · rw [hleaks] at hleak
        cases hleak
  | copyEnds index copyEnd faults => exact State.surplus_copyEnds index copyEnd faults kind
  | rebalance migrations => exact State.surplus_rebalance migrations kind

theorem balanced_of_reachable (db : MetaDb) {s : State}
    (h : ((shardMgmtSystem db).guarded fun s label => s.keepsCounts label = true).Reachable s) :
    s.Balanced := by
  have hinv : s.Accepted ∧ forall kind, s.surplus kind = 0 := by
    refine h.guarded_invariant (fun s => s.Accepted ∧ forall kind, s.surplus kind = 0) ?_ ?_
    · rintro s rfl
      refine ⟨fun _ hjob => absurd hjob not_mem_nil, ?_⟩
      intro kind
      cases kind <;> rfl
    · rintro s label t ⟨haccepted, hsurplus⟩ hkeeps ⟨_, rfl⟩
      refine ⟨haccepted.next label, ?_⟩
      intro kind
      rw [State.surplus_next haccepted hkeeps, hsurplus]
  exact .of_surplus hinv.2

/-- Two nodes, and one group whose migration from the first one to the second one is due. -/
def sampleDb : MetaDb :=
  { globalDbname := []
    gidInfoLastVer := 1
    nodeInfoLastVer := 1
    migReqCount := 0
    ddlReqCount := 0
    gcReqCount := 0
    nodeStatus := .allValid
    nodes := [⟨⟨1, [], []⟩, .complete⟩, ⟨⟨2, [], []⟩, .complete⟩]
    groupids := [⟨1, 1⟩]
    migrations := [⟨1, 1, 2, .migratorRun⟩] }

def sampleArg : MigrationArg :=
  ⟨1, 2, 0⟩

/-- A definition of schema waits for a migration, gets its grant after it, and ends. -/
def waitingRun : List Label :=
  [.arrive ⟨[], .migrationStart sampleArg⟩ 0, .work 0 .nothing 0 .none,
    .arrive ⟨[], .ddlStart 0⟩ 0, .work 1 .nothing 0 .none, .work 1 .nothing 1 .none,
    .work 0 (.request ⟨[], .migrationEnd sampleArg⟩) 2 .none, .work 0 .nothing 3 .none]

theorem balanced_waitingRun :
    (waitingRun.foldl State.next (State.initial sampleDb)).db.ddlReqCount = 1 ∧
      (waitingRun.foldl State.next (State.initial sampleDb)).Balanced :=
  ⟨by decide, balanced_of_reachable sampleDb
    (System.reachable_guarded_of_follows waitingRun (by decide))⟩

/-- The metadata cannot be reached when a definition of schema ends. -/
def lostEndRun : List Label :=
  [.arrive ⟨[], .ddlStart 0⟩ 0, .work 0 .nothing 0 .none,
    .work 0 (.request ⟨[], .ddlEnd⟩) 1 { Faults.none with connect := true }]

/-- The counter stays at 1 without a request, and every migration has to wait. -/
theorem not_balanced_lostEndRun :
    exists s, (shardMgmtSystem sampleDb).Reachable s ∧ s.jobs = [] ∧ s.db.ddlReqCount = 1 ∧
      ¬ s.Balanced := by
  refine ⟨lostEndRun.foldl State.next (State.initial sampleDb),
    System.reachable_of_follows lostEndRun (by decide), by decide, by decide, ?_⟩
  intro h
  exact absurd h.ddl (by decide)

/-!
## Exclusion
-/

/-- A migration excludes the definitions of schema and the garbage collections, and a copy for a
new node excludes the definitions of schema. -/
structure State.Exclusive (s : State) : Prop where
  migration : HasSession .mig s.jobs -> ¬ HasSession .ddl s.jobs ∧ ¬ HasSession .gc s.jobs
  copying : s.nodeAdds ≠ [] -> ¬ HasSession .ddl s.jobs

def Job.addsNode : Job -> Bool
  | .request req _ _ =>
    match req.operation with
    | .addNode _ => true
    | .migrationStart _ | .migrationEnd _ | .ddlStart _ | .ddlEnd | .gcStart | .gcEnd => false
  | .waiting _ => false

/-- No grant goes uncounted, no count is taken back without a grant, and no node is added during
a definition of schema. -/
def State.careful (s : State) : Label -> Bool
  | .work index _ _ faults =>
    s.jobs[index]?.all fun job =>
      !job.undercounts faults && !(job.addsNode && decide (HasSession .ddl s.jobs))
  | .arrive _ _ | .copyEnds _ _ _ | .rebalance _ => true

structure State.Inv (s : State) : Prop where
  accepted : s.Accepted
  surplus : forall kind, 0 <= s.surplus kind
  exclusive : s.Exclusive
  nodeStatus : s.nodeAdds.length <= 1 ∧ (s.nodeAdds ≠ [] -> s.db.nodeStatus = .existInvalid)

section

variable {s : State} {kind : Kind} {job : Job}

theorem State.Inv.not_hasSession (h : s.Inv) (hcount : s.db.reqCount kind <= 0) :
    ¬ HasSession kind s.jobs := by
  rintro ⟨job, hjob, hsession⟩
  have hheld : 0 < s.jobs.countP (holds kind) :=
    countP_pos_iff.mpr ⟨job, hjob, holds_of_isSession hsession⟩
  have hsurplus := h.surplus kind
  rw [State.surplus, heldCount] at hsurplus
  omega

theorem State.Inv.nodeAdds_eq_nil (h : s.Inv) (hvalid : s.db.nodeStatus = .allValid) :
    s.nodeAdds = [] := by
  by_contra hne
  have hinvalid := h.nodeStatus.2 hne
  rw [hvalid] at hinvalid
  cases hinvalid

theorem Job.isSession_unique {kind' : Kind} (h : job.isSession kind = true)
    (h' : job.isSession kind' = true) : kind = kind' := by
  cases job with
  | request req isRetry requestTime => cases h
  | waiting compensation =>
    rw [isSession, beq_iff_eq] at h h'
    exact h.symm.trans h'

variable {index : Nat} {incoming : Incoming} {now : Int} {faults : Faults}

section

variable (h : s.Inv)
include h

section

variable (hjob : s.jobs[index]? = some job)
include hjob

/-- A session after a job has been processed was there before, or the counters allow it. -/
theorem State.Inv.hasSession_replaceJob (hsession : HasSession kind
      (s.replaceJob index (shdMgWorkerThr s.db job incoming now faults)).jobs) :
    HasSession kind s.jobs ∨ s.db.Grants kind ∧
      exists job', (shdMgWorkerThr s.db job incoming now faults).job = some job' ∧
        job'.isSession kind = true := by
  obtain ⟨job', hmem, hkind⟩ := hsession
  cases mem_append.mp hmem with
  | inl hold => exact .inl ⟨job', mem_of_mem_eraseIdx hold, hkind⟩
  | inr hnew =>
    have hjob' := Option.mem_toList.mp hnew
    cases (h.accepted.outcome hjob incoming now faults).session hjob' hkind with
    | inl hbefore => exact .inl ⟨job, mem_of_getElem? hjob, hbefore⟩
    | inr hgrants => exact .inr ⟨hgrants, job', hjob', hkind⟩

theorem State.Inv.not_both_replaceJob {kind' : Kind} (hne : kind ≠ kind')
    (hexcluded : HasSession kind s.jobs -> ¬ HasSession kind' s.jobs)
    (hgrants : s.db.Grants kind -> s.db.reqCount kind' <= 0)
    (hgrants' : s.db.Grants kind' -> s.db.reqCount kind <= 0) (hsession : HasSession kind
      (s.replaceJob index (shdMgWorkerThr s.db job incoming now faults)).jobs) :
    ¬ HasSession kind' (s.replaceJob index (shdMgWorkerThr s.db job incoming now faults)).jobs := by
  intro hsession'
  rcases h.hasSession_replaceJob hjob hsession with hold | ⟨hgrant, job', hjob', hkind⟩ <;>
    rcases h.hasSession_replaceJob hjob hsession' with hold' | ⟨hgrant', job'', hjob'', hkind'⟩
  · exact hexcluded hold hold'
  · exact h.not_hasSession (hgrants' hgrant') hold
  · exact h.not_hasSession (hgrants hgrant) hold'
  · rw [hjob'] at hjob''
    cases hjob''
    exact hne (isSession_unique hkind hkind')

theorem State.Inv.replaceJob (hunder : job.undercounts faults = false)
    (hadds : job.addsNode = true -> ¬ HasSession .ddl s.jobs) :
    (s.replaceJob index (shdMgWorkerThr s.db job incoming now faults)).Inv := by
  have houtcome := h.accepted.outcome hjob incoming now faults
  refine ⟨h.accepted.replaceJob fun _ => houtcome.accepted, ?_, ⟨?_, ?_⟩, ?_⟩
  · intro kind
    have hsurplus := h.surplus kind
    have hle := houtcome.surplus_le hunder kind
    rw [State.surplus] at hsurplus
    rw [State.surplus_replaceJob hjob]
    omega
  · intro hmig
    exact ⟨h.not_both_replaceJob hjob (by decide) (fun hold => (h.exclusive.migration hold).1)
        (fun hgrants => Int.le_of_eq hgrants.1) And.left hmig,
      h.not_both_replaceJob hjob (by decide) (fun hold => (h.exclusive.migration hold).2)
        (fun hgrants => Int.le_of_eq hgrants.2) id hmig⟩
  · intro hne hddl
    rcases houtcome.nodeAdd with ⟨hnone, _⟩ |
      ⟨_, hjobNone, _, _, req, isRetry, requestTime, node, rfl, hop⟩
    · have hcopies : s.nodeAdds ≠ [] := by
        simpa [State.replaceJob, hnone] using hne
      rcases h.hasSession_replaceJob hjob hddl with hold | ⟨hgrants, _⟩
      · exact h.exclusive.copying hcopies hold
      · exact hcopies (h.nodeAdds_eq_nil hgrants.2)
    · have hfree := hadds (by simp [addsNode, hop])
      rcases h.hasSession_replaceJob hjob hddl with hold | ⟨_, job', hjob', _⟩
      · exact hfree hold
      · rw [hjobNone] at hjob'
        cases hjob'
  · rcases houtcome.nodeAdd with ⟨hnone, hstatus⟩ | ⟨⟨nodeAdd, hsome⟩, _, hvalid, hinvalid, _⟩
    · simp only [State.replaceJob, hnone, Option.toList_none, append_nil, hstatus]
      exact h.nodeStatus
    · simp only [State.replaceJob, hsome, h.nodeAdds_eq_nil hvalid, nil_append]
      exact ⟨Nat.le_refl 1, fun _ => hinvalid⟩

end

theorem State.Inv.arrive (req : Request) (now : Int) : (s.next (.arrive req now)).Inv := by
  have hsession : forall kind, HasSession kind (s.next (.arrive req now)).jobs ->
      HasSession kind s.jobs := by
    rintro kind ⟨job, hjob, hkind⟩
    rw [State.next] at hjob
    rcases shdMgJobQueueAdd_cases s.jobs req now with hjobs | ⟨new, _, hholds, hjobs⟩
    · exact ⟨job, hjobs ▸ hjob, hkind⟩
    rw [hjobs, mem_append, mem_singleton] at hjob
    rcases hjob with hold | rfl
    · exact ⟨job, hold, hkind⟩
    · exact absurd (holds_of_isSession hkind) (Bool.eq_false_iff.mp (hholds kind))
  refine ⟨h.accepted.next (.arrive req now), ?_, ⟨?_, ?_⟩, h.nodeStatus⟩
  · intro kind
    rw [State.surplus_arrive]
    exact h.surplus kind
  · intro hmig
    have hexcluded := h.exclusive.migration (hsession .mig hmig)
    exact ⟨fun hddl => hexcluded.1 (hsession .ddl hddl), fun hgc => hexcluded.2 (hsession .gc hgc)⟩
  · intro hne hddl
    exact h.exclusive.copying hne (hsession .ddl hddl)

theorem State.Inv.copyEnds (index : Nat) (copyEnd : CopyEnd) (faults : Faults) :
    (s.next (.copyEnds index copyEnd faults)).Inv := by
  have hsurplus := fun kind => s.surplus_copyEnds index copyEnd faults kind
  have haccepted := h.accepted.next (.copyEnds index copyEnd faults)
  cases hnodeAdd : s.nodeAdds[index]? with
  | none => simpa only [State.next, hnodeAdd] using h
  | some nodeAdd =>
    simp only [State.next, hnodeAdd] at hsurplus haccepted ⊢
    obtain ⟨_, hjobs, hadds⟩ := s.replaceNodeAdd_spec index nodeAdd copyEnd faults
    have hlt := (List.getElem?_eq_some_iff.mp hnodeAdd).1
    have hone := h.nodeStatus.1
    have hne : s.nodeAdds ≠ [] := ne_nil_of_length_pos (by omega)
    refine ⟨haccepted, ?_, ⟨?_, ?_⟩, ?_⟩
    · intro kind
      rw [hsurplus]
      exact h.surplus kind
    · rw [hjobs]
      exact h.exclusive.migration
    · intro _
      rw [hjobs]
      exact h.exclusive.copying hne
    rcases hadds with herased | ⟨hlength, hstatus⟩
    · have hnil : s.nodeAdds.eraseIdx index = [] := by
        apply eq_nil_of_length_eq_zero
        rw [length_eraseIdx_of_lt hlt]
        omega
      rw [herased, hnil]
      exact ⟨Nat.zero_le 1, fun hcontra => absurd rfl hcontra⟩
    · rw [hlength, hstatus]
      exact ⟨hone, fun _ => h.nodeStatus.2 hne⟩

theorem State.Inv.next {label : Label} (hcareful : s.careful label = true) :
    (s.next label).Inv := by
  cases label with
  | arrive req now => exact h.arrive req now
  | work index incoming now faults =>
    rw [State.next]
    split
    · exact h
    next job hjob =>
      simp only [State.careful, hjob, Option.all_some, Bool.and_eq_true, Bool.not_eq_true',
        Bool.and_eq_false_imp, decide_eq_false_iff_not] at hcareful
      exact h.replaceJob hjob hcareful.1 hcareful.2
  | copyEnds index copyEnd faults => exact h.copyEnds index copyEnd faults
  | rebalance migrations =>
    refine ⟨h.accepted, ?_, ⟨h.exclusive.migration, h.exclusive.copying⟩, h.nodeStatus⟩
    intro kind
    rw [State.surplus_rebalance]
    exact h.surplus kind

end

theorem State.Inv.initial (db : MetaDb) : (State.initial db).Inv := by
  have hnone : forall kind, ¬ HasSession kind (State.initial db).jobs := by
    rintro kind ⟨job, hjob, _⟩
    cases hjob
  refine ⟨fun _ hjob => absurd hjob not_mem_nil, ?_, ⟨?_, ?_⟩, ?_⟩
  · intro kind
    cases kind <;> exact Int.le_refl 0
  · intro hmig
    exact absurd hmig (hnone .mig)
  · intro hne
    exact absurd rfl hne
  · exact ⟨Nat.zero_le 1, fun hne => absurd rfl hne⟩

end

theorem exclusive_of_reachable (db : MetaDb) {s : State}
    (h : ((shardMgmtSystem db).guarded fun s label => s.careful label = true).Reachable s) :
    s.Exclusive := by
  have hinv : s.Inv := by
    refine h.guarded_invariant State.Inv ?_ ?_
    · rintro s rfl
      exact .initial db
    · rintro s label t hinv hcareful ⟨_, rfl⟩
      exact hinv.next hcareful
  exact hinv.exclusive

theorem exclusive_waitingRun :
    HasSession .ddl (waitingRun.foldl State.next (State.initial sampleDb)).jobs ∧
      (waitingRun.foldl State.next (State.initial sampleDb)).Exclusive :=
  ⟨by decide, exclusive_of_reachable sampleDb
    (System.reachable_guarded_of_follows waitingRun (by decide))⟩

def nodeAddRun : List Label :=
  [.rebalance [], .arrive ⟨[], .ddlStart 0⟩ 0, .work 0 .nothing 0 .none,
    .arrive ⟨[], .addNode ⟨3, [], []⟩⟩ 1, .work 1 .nothing 1 .none]

/-- A garbage collection is ended by a client that has not started it. -/
def strayEndRun : List Label :=
  [.arrive ⟨[], .gcStart⟩ 0, .work 0 .nothing 0 .none, .arrive ⟨[], .gcEnd⟩ 1,
    .work 1 .nothing 1 .none, .arrive ⟨[], .migrationStart sampleArg⟩ 2, .work 1 .nothing 2 .none]

theorem not_exclusive_nodeAddRun :
    (exists s, (shardMgmtSystem sampleDb).Reachable s ∧ s.nodeAdds ≠ [] ∧
      HasSession .ddl s.jobs) ∧
    (exists s, (shardMgmtSystem sampleDb).Reachable s ∧ HasSession .mig s.jobs ∧
      HasSession .gc s.jobs) := by
  constructor
  · exact ⟨nodeAddRun.foldl State.next (State.initial sampleDb),
      System.reachable_of_follows nodeAddRun (by decide), by decide, by decide⟩
  · exact ⟨strayEndRun.foldl State.next (State.initial sampleDb),
      System.reachable_of_follows strayEndRun (by decide), by decide, by decide⟩

end Rye.Broker.ShardMgmt
