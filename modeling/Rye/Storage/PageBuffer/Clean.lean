import Rye.Storage.PageBuffer.Flush

/-!
# Clean buffers

A buffer that is not dirty, not fixed for writing and not being flushed equals its page on disk as
long as no two flushes of it overlap.  They can: a checkpoint that has copied the page does not
keep the next writer from flushing it again, and its write may come last.
-/

namespace Rye.Storage.PageBuffer

open Foundation List PgbufBcb

/-- What one step of the pool does to one buffer.  `lsa` and `lsa'` are the end of the log before
and after the step, and `nxio` the end of what has been forced after it. -/
inductive BcbMove (lsa lsa' nxio : Int) (bcb : PgbufBcb) : PgbufBcb -> Prop where
  | stay : BcbMove lsa lsa' nxio bcb bcb
  | step (step : BcbStep) (h : step.enabled bcb = true)
      (hlog : forall thread, step = .log thread -> lsa < lsa')
      (hforce : forall i flight, step = .forceLog i -> bcb.flights[i]? = some flight ->
        flight.copy.lsa < nxio ∨ nxio = lsa) :
      BcbMove lsa lsa' nxio bcb (step.run lsa bcb)
  | flush (path : FlushPath) : BcbMove lsa lsa' nxio bcb (bcb.pgbufFlushPageWithWal path)
  | endFlight (i : Nat)
      (h : bcb.flights[i]?.any (fun f => f.phase == .written || f.phase == .failed) = true) :
      BcbMove lsa lsa' nxio bcb (bcb.endFlight i)
  | evict (hdirty : bcb.dirty = false) (hholders : bcb.holders = []) (hflights : bcb.flights = []) :
      BcbMove lsa lsa' nxio bcb
        { bcb with page := bcb.disk, oldestUnflushLsa := nullLsa, asyncFlushRequest := false }
  | avoidVictim {bcb' : PgbufBcb} (h : BcbMove lsa lsa' nxio bcb bcb') (avoid : Bool) :
      BcbMove lsa lsa' nxio bcb { bcb' with avoidVictim := avoid }

section

variable {n : Nat} {lsa lsa' nxio : Int}

theorem BcbMove.retry {bcb bcb' : PgbufBcb} (h : BcbMove lsa lsa' nxio bcb bcb') (scan : Scan n)
    (p : Fin n) : BcbMove lsa lsa' nxio bcb (scan.retry p bcb').1 := by
  unfold Scan.retry
  split_ifs
  · exact h
  · exact h.avoidVictim true

theorem BcbMove.scanStep (step : ScanStep n) (scan : Scan n) (p : Fin n) (bcb : PgbufBcb) :
    BcbMove lsa lsa' nxio bcb (step.run scan p bcb).1 := by
  cases step with
  | examine q =>
    dsimp only [ScanStep.run]
    split_ifs
    · exact .stay
    · exact .flush .checkpoint
    · exact BcbMove.stay.retry _ p
  | fix granted => exact .stay
  | flush =>
    dsimp only [ScanStep.run]
    split_ifs
    · exact .flush .checkpointFixed
    · exact .stay
  | endFlight i =>
    have hend (h : bcb.flights[i]?.any (fun f => f.phase == .written || f.phase == .failed)) :
        BcbMove lsa lsa' nxio bcb (bcb.endFlight i) := .endFlight i h
    dsimp only [ScanStep.run]
    unfold Scan.ended
    split <;> rename_i hflight
    · exact (hend (hflight ▸ rfl)).retry _ p
    · exact hend (hflight ▸ rfl)
    · exact hend (hflight ▸ rfl)
    · exact hend (hflight ▸ rfl)
    · exact .stay
  | giveUp => exact BcbMove.stay.avoidVictim false

namespace Pool

theorem setBcb_bcb (w : Pool n) (p q : Fin n) (bcb : PgbufBcb) :
    (w.setBcb p bcb).bcb q = if q = p then bcb else w.bcb q :=
  Function.update_apply w.bcb p bcb q

theorem bcbMove_setBcb {w : Pool n} {p : Fin n} {bcb : PgbufBcb} (q : Fin n)
    (h : BcbMove lsa lsa' nxio (w.bcb p) bcb) :
    BcbMove lsa lsa' nxio (w.bcb q) ((w.setBcb p bcb).bcb q) := by
  rw [setBcb_bcb]
  split_ifs with hq
  · rw [hq]
    exact h
  · exact .stay

/-- Two flushes of one buffer do not overlap, and it is not evicted during one. -/
def Alone (w : Pool n) (label : PoolLabel n) : Prop :=
  (forall p, ((w.next label).bcb p).flights.length <= 1) ∧
    forall p passed, label = .evict p passed -> (w.bcb p).flights = []

instance (w : Pool n) (label : PoolLabel n) : Decidable (w.Alone label) :=
  inferInstanceAs (Decidable (_ ∧ _))

theorem bcbMove_next {w : Pool n} {label : PoolLabel n} (h : w.enabled label = true)
    (halone : w.Alone label) (q : Fin n) :
    BcbMove w.nextLsa (w.next label).nextLsa (w.next label).nxioLsa (w.bcb q)
      ((w.next label).bcb q) := by
  cases label with
  | page p step =>
    refine bcbMove_setBcb q (.step step h ?_ ?_)
    · rintro thread rfl
      exact Int.lt_add_one_of_le (Int.le_refl _)
    rintro i flight rfl hflight
    change _ < w.nxioAfter p (.forceLog i) ∨ w.nxioAfter p (.forceLog i) = _
    simp only [nxioAfter, hflight]
    split_ifs with hle
    · exact .inr rfl
    · exact .inl (Int.not_le.mp hle)
  | evict p passed =>
    simp only [enabled, Bool.and_eq_true, Bool.not_eq_true', List.isEmpty_iff] at h
    exact bcbMove_setBcb q (.evict h.1.1.1 h.1.1.2 (halone.2 p passed rfl))
  | scan step =>
    dsimp only [next]
    split
    · split
      · exact bcbMove_setBcb q (.scanStep step _ _ _)
      · exact .stay
    · exact .stay
  | synchronize =>
    dsimp only [next]
    split <;> exact .stay
  | startChkpt | failChkpt => exact .stay

end Pool
end

/-!
## What a clean buffer holds
-/

/-- What the disk will hold when the write of the flight has succeeded. -/
def Flight.landing (disk : FileioPage) (flight : Flight) : FileioPage :=
  if flight.phase = .written then disk else flight.copy

/-- A thread that has changed the page keeps it fixed until the page is marked. -/
structure Owned (bcb : PgbufBcb) : Prop where
  logged : bcb.logged.isSome = true -> bcb.unmarked = true
  unmarked : bcb.unmarked = true -> bcb.writer.isSome = true
  writer : forall thread, bcb.writer = some thread -> thread ∈ bcb.holders

/-- Unless it is dirty or about to be marked, the buffer holds what the disk holds, or will hold
when the flight has landed. -/
structure Tracked (bcb : PgbufBcb) : Prop where
  single : bcb.flights.length <= 1
  owned : Owned bcb
  idle : bcb.flights = [] -> bcb.dirty = true ∨ bcb.unmarked = true ∨ bcb.disk = bcb.page
  flying : forall flight, bcb.flights = [flight] -> flight.phase ≠ .failed ->
    bcb.dirty = true ∨ bcb.unmarked = true ∨ flight.landing bcb.disk = bcb.page

attribute [grind cases] Owned Tracked
attribute [grind] Flight.landing

section

variable {bcb bcb' : PgbufBcb}

theorem flights_cases (h : bcb.flights.length <= 1) :
    bcb.flights = [] ∨ exists flight, bcb.flights = [flight] := by
  cases hflights : bcb.flights with
  | nil => exact .inl rfl
  | cons flight rest =>
    rw [hflights, length_cons, Nat.succ_le_succ_iff, Nat.le_zero] at h
    exact .inr ⟨flight, by rw [length_eq_zero_iff.mp h]⟩

theorem flights_eq_nil_of_flush {path : FlushPath}
    (hone : (bcb.pgbufFlushPageWithWal path).flights.length <= 1) : bcb.flights = [] := by
  rw [pgbufFlushPageWithWal, length_append] at hone
  exact length_eq_zero_iff.mp (Nat.le_zero.mp (Nat.le_of_succ_le_succ hone))

theorem Tracked.of_same_flights (h : Tracked bcb) (hflights : bcb'.flights = bcb.flights)
    (hdisk : bcb'.disk = bcb.disk) (howned : Owned bcb')
    (hmark : bcb'.dirty = true ∨ bcb'.unmarked = true ∨
      (bcb'.page = bcb.page ∧ bcb'.dirty = bcb.dirty ∧ bcb'.unmarked = bcb.unmarked)) :
    Tracked bcb' := by
  constructor
  all_goals grind

theorem Tracked.flush (path : FlushPath) (howned : Owned bcb)
    (hone : (bcb.pgbufFlushPageWithWal path).flights.length <= 1) :
    Tracked (bcb.pgbufFlushPageWithWal path) := by
  have hnone := flights_eq_nil_of_flush hone
  constructor
  all_goals grind [pgbufFlushPageWithWal, Owned]

variable {i : Nat}

section

variable (h : Tracked bcb)
include h

theorem Tracked.of_flight {P : Flight -> Bool} (hsome : bcb.flights[i]?.any P = true) :
    exists flight, i = 0 ∧ bcb.flights = [flight] ∧ P flight = true := by
  rcases flights_cases h.single with hflights | ⟨flight, hflights⟩
  · rw [hflights] at hsome
    cases hsome
  rw [hflights] at hsome
  cases i with
  | zero => exact ⟨flight, rfl, hflights, hsome⟩
  | succ i => cases hsome

theorem Tracked.forceLog (hsome : bcb.flights[i]?.any (·.phase == .copied) = true) :
    Tracked (bcb.setPhase i .logForced) := by
  obtain ⟨flight, rfl, hflights, hphase⟩ := h.of_flight hsome
  constructor
  all_goals grind [setPhase, Owned]

theorem Tracked.write (hsome : bcb.flights[i]?.any (·.phase == .logForced) = true) (ok : Bool) :
    Tracked (bcb.fileioWrite i ok) := by
  obtain ⟨flight, rfl, hflights, hphase⟩ := h.of_flight hsome
  constructor
  all_goals grind [setPhase, fileioWrite, Owned]

theorem Tracked.endFlight
    (hsome : bcb.flights[i]?.any (fun f => f.phase == .written || f.phase == .failed) = true) :
    Tracked (bcb.endFlight i) := by
  obtain ⟨flight, rfl, hflights, hphase⟩ := h.of_flight hsome
  constructor
  all_goals grind [endFlight, Owned]

end

/-- A thread with a change that it has not marked keeps its fix. -/
theorem Owned.unfix (h : Owned bcb) {thread : Nat}
    (henabled : (BcbStep.unfix thread).enabled bcb = true)
    (hholders : bcb'.holders = bcb.holders.erase thread)
    (hwriter : bcb'.writer = if (bcb.holders.erase thread).contains thread then bcb.writer
      else bcb.writer.filter (· != thread))
    (hlogged : bcb'.logged = bcb.logged) (hunmarked : bcb'.unmarked = bcb.unmarked) :
    Owned bcb' := by
  cases hw : bcb.writer with
  | none | some writer => constructor <;> grind [BcbStep.enabled]

open Tracked

theorem Tracked.unfix (h : Tracked bcb) {thread : Nat}
    (henabled : (BcbStep.unfix thread).enabled bcb = true)
    (hone : (bcb.pgbufUnlatchBcbUponUnfix thread).flights.length <= 1) :
    Tracked (bcb.pgbufUnlatchBcbUponUnfix thread) := by
  unfold pgbufUnlatchBcbUponUnfix at hone ⊢
  by_cases hasync : bcb.asyncFlushRequest = true
  · rw [if_pos hasync] at hone ⊢
    exact flush .latched (h.owned.unfix henabled rfl rfl rfl rfl) hone
  · rw [if_neg hasync]
    exact h.of_same_flights rfl rfl (h.owned.unfix henabled rfl rfl rfl rfl)
      (.inr (.inr ⟨rfl, rfl, rfl⟩))

theorem Tracked.flushBcb (h : Tracked bcb) (thread : Nat)
    (hone : (bcb.pgbufFlushBcb thread).flights.length <= 1) :
    Tracked (bcb.pgbufFlushBcb thread) := by
  have howned : Owned { bcb with latchMode := .flush } := ⟨h.owned.1, h.owned.2, h.owned.3⟩
  unfold pgbufFlushBcb at hone ⊢
  split at hone
  · exact flush .latched howned hone
  · exact flush .latched howned hone
  · split_ifs at hone ⊢
    · exact flush .fixed h.owned hone
    · exact h.of_same_flights rfl rfl ⟨h.owned.1, h.owned.2, h.owned.3⟩
        (.inr (.inr ⟨rfl, rfl, rfl⟩))
  · exact h

theorem BcbStep.landed_of_enabled (h : (BcbStep.endFlight i).enabled bcb = true) :
    bcb.flights[i]?.any (fun f => f.phase == .written || f.phase == .failed) = true := by
  change bcb.flights[i]?.any _ = true at h
  cases hf : bcb.flights[i]? with
  | none =>
    rw [hf] at h
    cases h
  | some flight =>
    rw [hf] at h
    exact (Bool.and_eq_true_iff.mp (Bool.and_eq_true_iff.mp h).1).1

theorem Tracked.step (h : Tracked bcb) {step : BcbStep} {lsa : Int}
    (henabled : step.enabled bcb = true) (hone : (step.run lsa bcb).flights.length <= 1) :
    Tracked (step.run lsa bcb) := by
  cases step with
  | fix thread forWrite =>
    constructor
    all_goals grind [BcbStep.run, pgbufLatchBcbUponFix, Owned]
  | unfix thread => exact h.unfix henabled hone
  | change thread contents | log thread =>
    constructor
    all_goals grind [BcbStep.run, BcbStep.enabled, Owned]
  | setDirty thread =>
    have hnone := Option.isNone_iff_eq_none.mp (Bool.and_eq_true_iff.mp henabled).2
    constructor
    all_goals grind [BcbStep.run, Owned]
  | setLsa thread =>
    constructor
    all_goals grind [BcbStep.run, BcbStep.enabled, pgbufSetLsa, Owned]
  | flushVictim => exact flush .victim h.owned hone
  | flushBcb thread => exact h.flushBcb thread hone
  | flushWithWal thread =>
    change Tracked (bcb.pgbufFlushWithWal .fixed)
    change (bcb.pgbufFlushWithWal .fixed).flights.length <= 1 at hone
    unfold pgbufFlushWithWal at hone ⊢
    split_ifs at hone ⊢
    · exact flush .fixed h.owned hone
    · exact h
  | forceLog i => exact h.forceLog henabled
  | write i ok => exact h.write henabled ok
  | endFlight i => exact h.endFlight (BcbStep.landed_of_enabled henabled)

theorem Tracked.move {lsa lsa' nxio : Int} (h : Tracked bcb)
    (hmove : BcbMove lsa lsa' nxio bcb bcb')
    (hone : bcb'.flights.length <= 1) : Tracked bcb' := by
  induction hmove with
  | stay => exact h
  | step step henabled _ _ => exact h.step henabled hone
  | flush path => exact flush path h.owned hone
  | endFlight i hsome => exact h.endFlight hsome
  | evict hdirty hholders hnone =>
    constructor
    all_goals grind [Owned]
  | avoidVictim _ avoid ih =>
    have hsame := ih hone
    exact hsame.of_same_flights rfl rfl ⟨hsame.owned.1, hsame.owned.2, hsame.owned.3⟩
      (.inr (.inr ⟨rfl, rfl, rfl⟩))

end

/-!
## Runs
-/

variable {n : Nat}

/-- A buffer that is not dirty, not fixed for writing and not being flushed holds what the disk
holds, so that nothing is lost when it is evicted and the page is read again. -/
def Pool.CleanOnDisk (w : Pool n) : Prop :=
  forall p, (w.bcb p).dirty = false -> (w.bcb p).writer = none -> (w.bcb p).flights = [] ->
    (w.bcb p).disk = (w.bcb p).page ∧
      forall passed, ((w.evict p passed).bcb p).page = (w.bcb p).page

theorem tracked_of_reachable {w : Pool n}
    (h : ((pgbufPool n).guarded Pool.Alone).Reachable w) (p : Fin n) : Tracked (w.bcb p) := by
  refine h.guarded_invariant (fun w => forall p, Tracked (w.bcb p)) ?_ ?_ p
  · rintro w rfl p
    exact ⟨Nat.zero_le 1, ⟨nofun, nofun, nofun⟩, fun _ => .inr (.inr rfl), nofun⟩
  · rintro w label _ hw hguard ⟨henabled, rfl⟩ p
    exact (hw p).move (Pool.bcbMove_next henabled hguard p) (hguard.1 p)

theorem Tracked.disk_eq_page {bcb : PgbufBcb} (h : Tracked bcb) (hdirty : bcb.dirty = false)
    (hwriter : bcb.writer = none) (hflights : bcb.flights = []) : bcb.disk = bcb.page := by
  rcases h.idle hflights with hd | hu | hsame
  · exact absurd (hdirty.symm.trans hd) Bool.false_ne_true
  · have hsome := h.owned.unmarked hu
    rw [hwriter] at hsome
    cases hsome
  · exact hsame

theorem evict_page (w : Pool n) (p : Fin n) (passed : Bool) :
    ((w.evict p passed).bcb p).page = (w.bcb p).disk :=
  congrArg page ((w.setBcb_bcb p p _).trans (if_pos rfl))

/-- In every run in which no two flushes of a buffer overlap, and no buffer is evicted during a
flush, the clean buffers hold what the disk holds. -/
theorem clean_on_disk_of_alone (w : Pool n)
    (h : ((pgbufPool n).guarded Pool.Alone).Reachable w) : w.CleanOnDisk := by
  intro p hdirty hwriter hflights
  have hsame := (tracked_of_reachable h p).disk_eq_page hdirty hwriter hflights
  exact ⟨hsame, fun passed => (evict_page w p passed).trans hsame⟩

def storeSteps (p : Fin n) (thread contents : Nat) : List (PoolLabel n) :=
  [.page p (.fix thread true), .page p (.change thread contents), .page p (.setDirty thread)]

def onlyPage : Fin 1 := 0

def flushedByChkpt : List (PoolLabel 1) :=
  storeSteps 0 2 1 ++ [.page 0 (.unfix 2), .startChkpt, .scan (.examine 0),
    .page 0 (.forceLog 0), .page 0 (.write 0 true), .scan (.endFlight 0)]

theorem clean_on_disk_of_alone_flushed :
    (flushedByChkpt.foldl Pool.next (.start 1)).CleanOnDisk :=
  clean_on_disk_of_alone _ (System.reachable_guarded_of_follows flushedByChkpt (by decide +kernel))

/-- The checkpoint has copied the page; a writer changes and flushes it again, and the write of
the checkpoint comes last. -/
def flushedTwice : List (PoolLabel 1) :=
  storeSteps 0 2 1 ++ [.page 0 (.unfix 2), .startChkpt, .scan (.examine 0)] ++ storeSteps 0 2 2 ++
    [.page 0 (.flushWithWal 2), .page 0 (.forceLog 1), .page 0 (.write 1 true),
      .page 0 (.endFlight 1), .page 0 (.unfix 2), .page 0 (.forceLog 0), .page 0 (.write 0 true),
      .scan (.endFlight 0)]

theorem clean_not_on_disk : exists w : Pool 1, (pgbufPool 1).Reachable w ∧ ¬ w.CleanOnDisk := by
  refine ⟨flushedTwice.foldl Pool.next (.start 1),
    System.reachable_of_follows flushedTwice (by decide +kernel), fun h => ?_⟩
  have hsame := (h 0 (by decide +kernel) (by decide +kernel) (by decide +kernel)).1
  revert hsame
  decide +kernel

end Rye.Storage.PageBuffer
