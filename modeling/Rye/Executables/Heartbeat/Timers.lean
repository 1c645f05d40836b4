import Mathlib.Algebra.Order.Ring.Int
import Rye.Executables.Heartbeat.Cluster
import Rye.Foundation.Runs

/-!
# The timing of heartbeat jobs

A job is due at an instant: the reading of the clock when it was queued or
given a new expiry time, plus the delay.  The queue compares pairs of seconds
and microseconds instead of instants, and the two orders agree on pairs whose
microseconds do not exceed a second.
-/

namespace Rye.Executables.Heartbeat

open List Timeval

open Foundation (System)

/-- The microseconds that a pair stands for. -/
def Timeval.instant (tv : Timeval) : Int :=
  tv.sec * 1000000 + tv.usec

/-- A missing carry changes the pair, not the instant. -/
theorem instant_hbAddTimeval (now : Timeval) (msec : Nat) :
    (hbAddTimeval now msec).instant = now.instant + msec * 1000 := by
  simp only [instant, hbAddTimeval]
  omega

abbrev JobEntry.due (job : JobEntry) : Int :=
  job.expire.instant

def Timeval.isNormal (tv : Timeval) : Bool :=
  decide (0 <= tv.usec) && decide (tv.usec < 1000000)

/-- The microseconds are at most a second: a full second compares as if it were carried. -/
def Timeval.Comparable (tv : Timeval) : Prop :=
  0 <= tv.usec ∧ tv.usec <= 1000000

section

variable {a b now : Timeval} (ha : a.Comparable)
include ha

theorem Timeval.instant_le (hb : b.Comparable) :
    (a.after b = true -> b.instant <= a.instant) ∧
      (¬ a.after b = true -> a.instant <= b.instant) := by
  simp only [after, Bool.or_eq_true, Bool.and_eq_true, decide_eq_true_eq, beq_iff_eq, instant]
  obtain ⟨ha, ha'⟩ := ha
  obtain ⟨hb, hb'⟩ := hb
  omega

/-- Against a reading of the clock the two orders agree exactly. -/
theorem Timeval.after_iff (hnow : now.isNormal = true) :
    a.after now = true <-> now.instant < a.instant := by
  simp only [isNormal, Bool.and_eq_true, decide_eq_true_eq] at hnow
  simp only [after, Bool.or_eq_true, Bool.and_eq_true, decide_eq_true_eq, beq_iff_eq, instant]
  obtain ⟨ha, ha'⟩ := ha
  omega

end

/-!
## Queues in the order of their instants
-/

def Ordered (jobs : List JobEntry) : Prop :=
  jobs.Pairwise (fun a b => a.due <= b.due) ∧ forall job, job ∈ jobs -> job.expire.Comparable

theorem Ordered.sublist {jobs kept : List JobEntry} (h : Ordered jobs) (hkept : kept <+ jobs) :
    Ordered kept :=
  ⟨h.1.sublist hkept, fun job hjob => h.2 job (hkept.subset hjob)⟩

theorem Ordered.insertJob {job : JobEntry} {jobs : List JobEntry} (h : Ordered jobs)
    (hjob : job.expire.Comparable) : Ordered (insertJob job jobs) := by
  refine ⟨?_, fun other hother => ?_⟩
  · induction jobs with
    | nil => exact pairwise_singleton _ _
    | cons head rest ih =>
      have hhead := h.2 head mem_cons_self
      rw [Heartbeat.insertJob]
      split
      · next hafter =>
        have hle := (instant_le hhead hjob).1 hafter
        refine h.1.cons fun other hother => ?_
        rcases mem_cons.mp hother with rfl | hother
        · exact hle
        · exact hle.trans (rel_of_pairwise_cons h.1 hother)
      · next hafter =>
        have hle := (instant_le hhead hjob).2 hafter
        refine (ih (h.sublist (sublist_cons_self head rest))).cons fun other hother => ?_
        rcases mem_cons.mp ((perm_insertJob job rest).mem_iff.mp hother) with rfl | hother
        · exact hle
        · exact rel_of_pairwise_cons h.1 hother
  · rcases mem_cons.mp ((perm_insertJob job jobs).mem_iff.mp hother) with rfl | hother
    · exact hjob
    · exact h.2 other hother

theorem hbJobSetExpireAndReorder_cases (queue : JobQueue) (now : Timeval) (jobType : JobType)
    (msec : Nat) :
    hbJobSetExpireAndReorder queue now jobType msec = queue ∨
      exists job kept, job.expire = hbAddTimeval now msec ∧ kept <+ queue.jobs ∧
        hbJobSetExpireAndReorder queue now jobType msec =
          { queue with jobs := insertJob job kept } := by
  unfold hbJobSetExpireAndReorder
  split
  · exact .inl rfl
  · split
    · exact .inl rfl
    · exact .inr ⟨_, _, rfl, eraseP_sublist, rfl⟩

/-!
## Runs

The clock never goes back.  The jobs that were dequeued are kept with the
readings at which they came out.
-/

inductive QueueCall where
  | queue (now : Timeval) (request : JobRequest)
  | reorder (now : Timeval) (jobType : JobType) (msec : Nat)
  | dequeue (now : Timeval)

def QueueCall.now : QueueCall -> Timeval
  | .queue now _ => now
  | .reorder now _ _ => now
  | .dequeue now => now

/-- The delay does not take the microseconds of the reading beyond a full second. -/
def QueueCall.withinSecond : QueueCall -> Bool
  | .queue now request => decide ((hbAddTimeval now request.msec).usec <= 1000000)
  | .reorder now _ msec => decide ((hbAddTimeval now msec).usec <= 1000000)
  | .dequeue _ => true

structure TimedQueue where
  queue : JobQueue
  clock : Timeval
  out : List (JobEntry × Timeval)

namespace TimedQueue

def start : TimedQueue :=
  { queue := { jobs := [], shutdown := false }, clock := ⟨0, 0⟩, out := [] }

def enabled (s : TimedQueue) (call : QueueCall) : Bool :=
  call.now.isNormal && decide (s.clock.instant <= call.now.instant)

def next (s : TimedQueue) : QueueCall -> TimedQueue
  | .queue now request => { s with queue := hbJobQueue s.queue now request, clock := now }
  | .reorder now jobType msec =>
    { s with queue := hbJobSetExpireAndReorder s.queue now jobType msec, clock := now }
  | .dequeue now =>
    match hbJobDequeue s.queue now with
    | none => { s with clock := now }
    | some (job, rest) => { queue := rest, clock := now, out := s.out ++ [(job, now)] }

def system : System TimedQueue QueueCall :=
  .deterministic start (fun s call => s.enabled call) next

/-- What is expected of the timing: no job came out before it was due, the jobs came out in the
order of their instants, and repeated dequeues at any later reading give the jobs that are due. -/
structure Timely (s : TimedQueue) : Prop where
  elapsed : forall x, x ∈ s.out -> x.1.due <= x.2.instant
  inOrder : s.out.Pairwise (fun a b => a.1.due <= b.1.due)
  returned : forall now : Timeval, s.enabled (.dequeue now) = true ->
    ((replicate s.queue.jobs.length (.dequeue now)).foldl next s).out =
      s.out ++ (s.queue.jobs.filter (fun job => decide (job.due <= now.instant))).map (·, now)

structure Inv (s : TimedQueue) : Prop where
  running : s.queue.shutdown = false
  ordered : Ordered s.queue.jobs
  passed : forall x, x ∈ s.out -> x.1.due <= x.2.instant ∧ x.2.instant <= s.clock.instant ∧
    forall job, job ∈ s.queue.jobs -> x.1.due <= job.due
  inOrder : s.out.Pairwise (fun a b => a.1.due <= b.1.due)

variable {s : TimedQueue} {now : Timeval}

theorem Inv.tick (h : s.Inv) (hclock : s.clock.instant <= now.instant) :
    { s with clock := now }.Inv := by
  refine { h with passed := fun x hx => ?_ }
  obtain ⟨hdue, hread, hahead⟩ := h.passed x hx
  exact ⟨hdue, hread.trans hclock, hahead⟩

/-- A job with a new expiry time is not due before any job that came out. -/
theorem Inv.insert (h : s.Inv) (hclock : s.clock.instant <= now.instant) {job : JobEntry}
    {kept : List JobEntry} {msec : Nat} (hexpire : job.expire = hbAddTimeval now msec)
    (hnow : now.isNormal = true) (hsecond : (hbAddTimeval now msec).usec <= 1000000)
    (hkept : kept <+ s.queue.jobs) :
    { s with queue := { s.queue with jobs := insertJob job kept }, clock := now }.Inv := by
  have hcomparable : job.expire.Comparable := by
    rw [hexpire]
    refine ⟨?_, hsecond⟩
    simp only [isNormal, Bool.and_eq_true, decide_eq_true_eq] at hnow
    simp only [hbAddTimeval]
    omega
  have hdue : job.due = now.instant + msec * 1000 := by
    rw [JobEntry.due, hexpire, instant_hbAddTimeval]
  refine { h with
    ordered := (h.ordered.sublist hkept).insertJob hcomparable, passed := fun x hx => ?_ }
  obtain ⟨helapsed, hread, hahead⟩ := (h.tick hclock).passed x hx
  refine ⟨helapsed, hread, fun other hother => ?_⟩
  rcases mem_cons.mp ((perm_insertJob job kept).mem_iff.mp hother) with rfl | hother
  · dsimp only at hread
    omega
  · exact hahead other (hkept.subset hother)

theorem next_dequeue_nil (hjobs : s.queue.jobs = []) :
    s.next (.dequeue now) = { s with clock := now } := by
  simp only [next, hbJobDequeue, hjobs]

theorem next_dequeue_cons (hrunning : s.queue.shutdown = false) (hordered : Ordered s.queue.jobs)
    (hnow : now.isNormal = true) {job : JobEntry} {rest : List JobEntry}
    (hjobs : s.queue.jobs = job :: rest) :
    s.next (.dequeue now) =
      if job.due <= now.instant then
        { queue := { s.queue with jobs := rest }, clock := now, out := s.out ++ [(job, now)] }
      else { s with clock := now } := by
  have hcomparable := hordered.2 job (by rw [hjobs]; exact mem_cons_self)
  have hafter := after_iff hcomparable hnow
  simp only [next, hbJobDequeue, hjobs, hrunning, hafter]
  by_cases hdue : job.due <= now.instant
  · simp [hdue, not_lt.mpr hdue]
  · simp [hdue, not_le.mp hdue]

theorem Inv.dequeue (h : s.Inv) (hclock : s.clock.instant <= now.instant)
    (hnow : now.isNormal = true) : (s.next (.dequeue now)).Inv := by
  cases hjobs : s.queue.jobs with
  | nil =>
    rw [next_dequeue_nil hjobs]
    exact h.tick hclock
  | cons job rest =>
    rw [next_dequeue_cons h.running h.ordered hnow hjobs]
    split
    · next hdue =>
      obtain ⟨hrunning, hordered, hpassed, hinOrder⟩ := h.tick hclock
      rw [hjobs] at hordered hpassed
      refine ⟨hrunning, hordered.sublist (sublist_cons_self job rest), fun x hx => ?_, ?_⟩
      · rcases mem_append.mp hx with hx | hx
        · obtain ⟨helapsed, hread, hahead⟩ := hpassed x hx
          exact ⟨helapsed, hread, fun other hother => hahead other (mem_cons_of_mem _ hother)⟩
        · cases mem_singleton.mp hx
          exact ⟨hdue, le_refl _, fun other hother => rel_of_pairwise_cons hordered.1 hother⟩
      · refine pairwise_append.mpr ⟨hinOrder, pairwise_singleton _ _, fun x hx y hy => ?_⟩
        cases mem_singleton.mp hy
        exact (hpassed x hx).2.2 job mem_cons_self
    · exact h.tick hclock

/-- Repeated dequeues at one reading, by induction on their number: as the queue is in the order
of the instants, they stop at the first job that is not due. -/
theorem foldl_dequeue (hnow : now.isNormal = true) (hrunning : s.queue.shutdown = false)
    (hordered : Ordered s.queue.jobs) (n : Nat) :
    ((replicate n (.dequeue now)).foldl next s).out = s.out ++ ((s.queue.jobs.filter
        (fun job => decide (job.due <= now.instant))).take n).map (·, now) := by
  induction n generalizing s with
  | zero => simp
  | succ n ih =>
    rw [replicate_succ, foldl_cons]
    cases hjobs : s.queue.jobs with
    | nil =>
      rw [next_dequeue_nil hjobs]
      refine (ih (s := { s with clock := now }) hrunning hordered).trans ?_
      simp [hjobs]
    | cons job rest =>
      rw [next_dequeue_cons hrunning hordered hnow hjobs]
      split
      · next hdue =>
        have hrest : Ordered rest := hordered.sublist (hjobs ▸ sublist_cons_self job rest)
        refine (ih (s := ⟨⟨rest, s.queue.shutdown⟩, now, _⟩) hrunning hrest).trans ?_
        simp [hdue]
      · next hdue =>
        have hlater : s.queue.jobs.filter (fun job => decide (job.due <= now.instant)) = [] := by
          refine filter_eq_nil_iff.mpr fun other hother => ?_
          rw [decide_eq_true_eq]
          rw [hjobs] at hother hordered
          rcases mem_cons.mp hother with rfl | hother
          · exact hdue
          · have := rel_of_pairwise_cons hordered.1 hother
            omega
        refine (ih (s := { s with clock := now }) hrunning hordered).trans ?_
        simp only [← hjobs, hlater, take_nil]

theorem Inv.timely (h : s.Inv) : s.Timely := by
  refine ⟨fun x hx => (h.passed x hx).1, h.inOrder, fun now henabled => ?_⟩
  have hnow : now.isNormal = true := (Bool.and_eq_true_iff.mp henabled).1
  rw [foldl_dequeue hnow h.running h.ordered, take_of_length_le (length_filter_le _ _)]

theorem Inv.next (h : s.Inv) {call : QueueCall} (hsecond : call.withinSecond = true)
    (henabled : s.enabled call = true) : (s.next call).Inv := by
  simp only [enabled, Bool.and_eq_true, decide_eq_true_eq] at henabled
  obtain ⟨hnow, hclock⟩ := henabled
  cases call with
  | queue now request => exact h.insert hclock rfl hnow (of_decide_eq_true hsecond) (Sublist.refl _)
  | reorder now jobType msec =>
    rw [TimedQueue.next]
    rcases hbJobSetExpireAndReorder_cases s.queue now jobType msec with heq | ⟨job, kept, hexpire,
      hkept, heq⟩
    · rw [heq]
      exact h.tick hclock
    · rw [heq]
      exact h.insert hclock hexpire hnow (of_decide_eq_true hsecond) hkept
  | dequeue now => exact h.dequeue hclock hnow

/-- In every run in which no delay takes the microseconds of the reading beyond a full second,
the timing is right in every state. -/
theorem timely_of_reachable
    (h : (system.guarded fun _ call => call.withinSecond = true).Reachable s) : s.Timely := by
  refine (h.guarded_invariant Inv ?_ ?_).timely
  · rintro s rfl
    exact ⟨rfl, ⟨.nil, by simp [start]⟩, by simp [start], .nil⟩
  · rintro s call t hinv hsecond ⟨henabled, rfl⟩
    exact hinv.next hsecond henabled

/-- A score calculation after 200 ms is queued, given another delay and dequeued. -/
theorem timely_of_reachable_reordered :
    let s := [QueueCall.queue ⟨10, 700000⟩ ⟨.calcScore, none, 200⟩,
      .reorder ⟨10, 800000⟩ .calcScore 100, .dequeue ⟨10, 900000⟩].foldl next start
    s.out.length = 1 ∧ s.Timely :=
  ⟨by decide, timely_of_reachable (System.reachable_guarded_of_follows _ (by decide))⟩

/-- The same job queued 900000 microseconds into a second comes out after half its delay. -/
theorem dequeued_early :
    let s := [QueueCall.queue ⟨10, 900000⟩ ⟨.calcScore, none, 200⟩,
      .dequeue ⟨11, 0⟩].foldl next start
    system.Reachable s ∧ ¬ s.Timely := by
  refine ⟨System.reachable_of_follows _ (by decide), fun h => ?_⟩
  exact absurd (h.elapsed (⟨.calcScore, none, ⟨10, 1100000⟩⟩, ⟨11, 0⟩) (by decide)) (by decide)

end TimedQueue

end Rye.Executables.Heartbeat
