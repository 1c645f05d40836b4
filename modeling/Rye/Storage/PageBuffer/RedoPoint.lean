import Rye.Storage.PageBuffer.Clean

/-!
# The redo point of a checkpoint

The scan of the buffers leaves the ones that are not dirty alone.  Their changes may still be in a
flight, or logged and not marked yet, and then the redo point lies behind a change that is not on
disk.  Where this and the overlapping of flushes are excluded, no change is missed.
-/

namespace Rye.Storage.PageBuffer

open Foundation List

/-!
## Where a logged change is
-/

def Restores (oldestUnflushLsa lsa : Int) : Prop :=
  oldestUnflushLsa ≠ nullLsa ∧ oldestUnflushLsa <= lsa

/-- A logged change is on disk, waits for `pgbuf_set_lsa`, is not older than `oldest_unflush_lsa`,
or is in a flight that can restore that address. -/
def PgbufBcb.Covers (bcb : PgbufBcb) (lsa : Int) : Prop :=
  lsa ∈ bcb.disk.changes ∨ bcb.logged = some lsa ∨ Restores bcb.oldestUnflushLsa lsa ∨
    exists flight, flight ∈ bcb.flights ∧ lsa ∈ flight.copy.changes ∧
      Restores flight.oldestUnflushLsa lsa

structure Flight.Recorded (lsa nxio : Int) (bcb : PgbufBcb) (flight : Flight) : Prop where
  copy_lsa : flight.copy.lsa < lsa
  forced : flight.phase ≠ .copied -> flight.copy.lsa < nxio
  oldest : flight.oldestUnflushLsa < lsa
  oldest_le : bcb.oldestUnflushLsa ≠ nullLsa -> flight.oldestUnflushLsa <= bcb.oldestUnflushLsa
  logged : forall l, bcb.logged = some l -> flight.oldestUnflushLsa <= l
  disk : bcb.disk.changes ⊆ flight.copy.changes
  page : flight.copy.changes ⊆ bcb.page.changes
  written : flight.phase = .written -> flight.copy.changes ⊆ bcb.disk.changes
  failed : flight.phase = .failed -> flight.oldestUnflushLsa ≠ nullLsa

/-- `lsa` is the end of the log and `nxio` the end of what has been forced. -/
structure Recorded (lsa nxio : Int) (bcb : PgbufBcb) : Prop where
  start : 0 <= lsa
  page_lsa : bcb.page.lsa < lsa
  disk_lsa : bcb.disk.lsa < nxio
  oldest : bcb.oldestUnflushLsa < lsa
  logged : forall l, bcb.logged = some l -> 0 <= l ∧ l < lsa ∧ bcb.oldestUnflushLsa <= l
  log : forall l, l ∈ bcb.log -> l ∈ bcb.page.changes ∧ bcb.Covers l
  disk : bcb.disk.changes ⊆ bcb.page.changes
  flights : forall flight, flight ∈ bcb.flights -> flight.Recorded lsa nxio bcb

/-- What `Recorded` speaks of is the same. -/
structure SameCore (bcb bcb' : PgbufBcb) : Prop where
  lsa : bcb'.page.lsa = bcb.page.lsa
  changes : bcb'.page.changes = bcb.page.changes
  disk : bcb'.disk = bcb.disk
  oldest : bcb'.oldestUnflushLsa = bcb.oldestUnflushLsa
  logged : bcb'.logged = bcb.logged
  log : bcb'.log = bcb.log
  flights : bcb'.flights = bcb.flights

attribute [grind] nullLsa Restores PgbufBcb.Covers
attribute [grind cases] Flight.Recorded Recorded SameCore

section

variable {lsa lsa' nxio nxio' : Int} {bcb bcb' : PgbufBcb}

/-- A step outside the flights and the log leaves the core alone, or begins a flight. -/
theorem BcbStep.run_cases (step : BcbStep) (lsa : Int) (bcb : PgbufBcb) :
    (exists thread, step = .log thread ∨ step = .setLsa thread) ∨
      (exists i, step = .forceLog i ∨ step = .endFlight i ∨ exists ok, step = .write i ok) ∨
      exists bcb', (step.run lsa bcb = bcb' ∨
        exists path, step.run lsa bcb = bcb'.pgbufFlushPageWithWal path) ∧ SameCore bcb bcb' := by
  have hsame : SameCore bcb bcb := ⟨rfl, rfl, rfl, rfl, rfl, rfl, rfl⟩
  cases step with
  | log thread => exact .inl ⟨thread, .inl rfl⟩
  | setLsa thread => exact .inl ⟨thread, .inr rfl⟩
  | forceLog i => exact .inr (.inl ⟨i, .inl rfl⟩)
  | endFlight i => exact .inr (.inl ⟨i, .inr (.inl rfl)⟩)
  | write i ok => exact .inr (.inl ⟨i, .inr (.inr ⟨ok, rfl⟩)⟩)
  | change | setDirty => exact .inr (.inr ⟨_, .inl rfl, ⟨rfl, rfl, rfl, rfl, rfl, rfl, rfl⟩⟩)
  | flushVictim => exact .inr (.inr ⟨bcb, .inr ⟨_, rfl⟩, hsame⟩)
  | fix thread forWrite =>
    refine .inr (.inr ⟨_, .inl rfl, ?_⟩)
    change SameCore bcb (bcb.pgbufLatchBcbUponFix thread forWrite)
    unfold PgbufBcb.pgbufLatchBcbUponFix
    dsimp only
    split_ifs <;> exact ⟨rfl, rfl, rfl, rfl, rfl, rfl, rfl⟩
  | unfix thread =>
    refine .inr (.inr ?_)
    dsimp only [BcbStep.run, PgbufBcb.pgbufUnlatchBcbUponUnfix]
    by_cases hasync : bcb.asyncFlushRequest = true
    · rw [if_pos hasync]
      exact ⟨_, .inr ⟨_, rfl⟩, ⟨rfl, rfl, rfl, rfl, rfl, rfl, rfl⟩⟩
    · rw [if_neg hasync]
      exact ⟨_, .inl rfl, ⟨rfl, rfl, rfl, rfl, rfl, rfl, rfl⟩⟩
  | flushBcb thread =>
    refine .inr (.inr ?_)
    dsimp only [BcbStep.run, PgbufBcb.pgbufFlushBcb]
    split
    · exact ⟨_, .inr ⟨_, rfl⟩, ⟨rfl, rfl, rfl, rfl, rfl, rfl, rfl⟩⟩
    · exact ⟨_, .inr ⟨_, rfl⟩, ⟨rfl, rfl, rfl, rfl, rfl, rfl, rfl⟩⟩
    · split_ifs
      · exact ⟨bcb, .inr ⟨_, rfl⟩, hsame⟩
      · exact ⟨_, .inl rfl, ⟨rfl, rfl, rfl, rfl, rfl, rfl, rfl⟩⟩
    · exact ⟨bcb, .inl rfl, hsame⟩
  | flushWithWal thread =>
    refine .inr (.inr ⟨bcb, ?_, hsame⟩)
    dsimp only [BcbStep.run, PgbufBcb.pgbufFlushWithWal]
    split_ifs
    · exact .inr ⟨_, rfl⟩
    · exact .inl rfl

section

variable (h : Recorded lsa nxio bcb)
include h

namespace Recorded

theorem mono (hlsa : lsa <= lsa') (hnxio : nxio <= nxio') : Recorded lsa' nxio' bcb := by
  constructor
  case flights =>
    intro flight hf
    constructor <;> grind
  all_goals grind

theorem of_same (hsame : SameCore bcb bcb') : Recorded lsa nxio bcb' := by
  constructor
  case flights =>
    intro flight hf
    constructor <;> grind
  all_goals grind

theorem flush {path : FlushPath}
    (hone : (bcb.pgbufFlushPageWithWal path).flights.length <= 1) :
    Recorded lsa nxio (bcb.pgbufFlushPageWithWal path) := by
  have hnone := flights_eq_nil_of_flush hone
  unfold PgbufBcb.pgbufFlushPageWithWal
  rw [hnone]
  constructor
  case log =>
    intro l hl
    obtain ⟨hmem, hcover⟩ := h.log l hl
    simp only [PgbufBcb.Covers, hnone, nil_append, mem_singleton, exists_eq_left] at hcover ⊢
    grind
  all_goals grind [Flight.Recorded]

theorem log_step (thread : Nat) (hlsa : lsa < lsa') (hnone : bcb.logged = none) :
    Recorded lsa' nxio ((BcbStep.log thread).run lsa bcb) := by
  constructor
  all_goals grind [BcbStep.run, Flight.Recorded]

theorem setLsa : Recorded lsa nxio bcb.pgbufSetLsa := by
  unfold PgbufBcb.pgbufSetLsa
  cases hlogged : bcb.logged with
  | none => exact h
  | some l =>
    constructor
    case flights =>
      intro flight hf
      constructor <;> grind
    all_goals grind

theorem advance {flight : Flight} (hflights : bcb.flights = [flight]) {disk : FileioPage}
    {phase : FlushPhase} (hnxio : nxio <= nxio') (hdisk : disk = bcb.disk ∨ disk = flight.copy)
    (hforced : flight.copy.lsa < nxio') (hwritten : phase = .written -> disk = flight.copy)
    (hfailed : phase = .failed -> flight.oldestUnflushLsa ≠ nullLsa) :
    Recorded lsa nxio' { bcb with disk := disk, flights := [{ flight with phase := phase }] } := by
  have hfl := h.flights flight (hflights ▸ mem_singleton_self flight)
  constructor
  case log =>
    intro l hl
    obtain ⟨hmem, hcover⟩ := h.log l hl
    simp only [PgbufBcb.Covers, hflights, mem_singleton, exists_eq_left] at hcover ⊢
    grind
  case flights =>
    intro f hf
    rw [mem_singleton] at hf
    subst hf
    constructor <;> grind
  all_goals grind

theorem endFlight (htracked : Tracked bcb) {i : Nat}
    (hsome : bcb.flights[i]?.any (fun f => f.phase == .written || f.phase == .failed) = true) :
    Recorded lsa nxio (bcb.endFlight i) := by
  obtain ⟨⟨path, copy, oldest, phase⟩, rfl, hflights, hphase⟩ := htracked.of_flight hsome
  have hfl := h.flights _ (hflights ▸ mem_singleton_self _)
  have hlog := h.log
  simp only [PgbufBcb.endFlight, hflights, getElem?_cons_zero, eraseIdx_cons_zero]
  cases phase with
  | copied | logForced => cases hphase
  | written | failed =>
    constructor
    all_goals grind

theorem evict (hsame : bcb.disk = bcb.page) (hflights : bcb.flights = []) :
    Recorded lsa nxio
      { bcb with page := bcb.disk, oldestUnflushLsa := nullLsa, asyncFlushRequest := false } := by
  constructor
  all_goals grind

end Recorded

end

theorem Owned.writer_none (h : Owned bcb) (hholders : bcb.holders = []) : bcb.writer = none := by
  cases hwriter : bcb.writer with
  | none => rfl
  | some thread => grind

section

variable (h : Recorded lsa nxio bcb)
include h

theorem Recorded.step (htracked : Tracked bcb) {step : BcbStep} (henabled : step.enabled bcb = true)
    (hlsa : lsa <= lsa') (hnxio : nxio <= nxio')
    (hlog : forall thread, step = .log thread -> lsa < lsa')
    (hforce : forall i flight, step = .forceLog i -> bcb.flights[i]? = some flight ->
      flight.copy.lsa < nxio' ∨ nxio' = lsa) (hone : (step.run lsa bcb).flights.length <= 1)
    (hfailed : forall flight, flight ∈ (step.run lsa bcb).flights -> flight.phase = .failed ->
      flight.oldestUnflushLsa ≠ nullLsa) : Recorded lsa' nxio' (step.run lsa bcb) := by
  rcases step.run_cases lsa bcb with ⟨thread, rfl | rfl⟩ | ⟨i, rfl | rfl | ⟨ok, rfl⟩⟩ |
    ⟨bcb', hrun | ⟨path, hrun⟩, hsame⟩
  · have hnone := Option.isNone_iff_eq_none.mp (Bool.and_eq_true_iff.mp henabled).2
    exact (h.log_step thread (hlog thread rfl) hnone).mono (Int.le_refl _) hnxio
  · exact h.setLsa.mono hlsa hnxio
  · obtain ⟨flight, rfl, hflights, _⟩ := htracked.of_flight henabled
    have hfl := h.flights flight (hflights ▸ mem_singleton_self flight)
    have hforced : flight.copy.lsa < nxio' := by
      rcases hforce 0 flight rfl (hflights ▸ rfl) with hlt | rfl
      · exact hlt
      · exact hfl.copy_lsa
    simp only [BcbStep.run, PgbufBcb.setPhase, hflights, modify_zero_cons]
    refine Recorded.mono (h.advance hflights hnxio (.inl rfl) hforced ?_ ?_) hlsa (Int.le_refl _)
    all_goals
      intro hphase
      cases hphase
  · exact (h.endFlight htracked (BcbStep.landed_of_enabled henabled)).mono hlsa hnxio
  · obtain ⟨flight, rfl, hflights, hphase⟩ := htracked.of_flight henabled
    have hfl := h.flights flight (hflights ▸ mem_singleton_self flight)
    have hforced := hfl.forced (by grind)
    refine Recorded.mono ?_ hlsa hnxio
    cases ok with
    | true =>
      simp only [BcbStep.run, PgbufBcb.fileioWrite, PgbufBcb.setPhase, hflights,
        getElem?_cons_zero, modify_zero_cons, if_true]
      exact h.advance hflights (Int.le_refl _) (.inr rfl) hforced (fun _ => rfl)
        (fun h => by cases h)
    | false =>
      simp only [BcbStep.run, PgbufBcb.fileioWrite, PgbufBcb.setPhase, hflights,
        getElem?_cons_zero, modify_zero_cons, Bool.false_eq_true, if_false] at hfailed ⊢
      have hnull := hfailed _ (mem_singleton_self _) rfl
      exact h.advance hflights (Int.le_refl _) (.inl rfl) hforced (fun h => by cases h)
        (fun _ => hnull)
  · rw [hrun]
    exact (h.of_same hsame).mono hlsa hnxio
  · rw [hrun] at hone ⊢
    exact ((h.of_same hsame).flush hone).mono hlsa hnxio

theorem Recorded.move (htracked : Tracked bcb) (hmove : BcbMove lsa lsa' nxio' bcb bcb')
    (hlsa : lsa <= lsa') (hnxio : nxio <= nxio') (hone : bcb'.flights.length <= 1)
    (hfailed : forall flight, flight ∈ bcb'.flights -> flight.phase = .failed ->
      flight.oldestUnflushLsa ≠ nullLsa) : Recorded lsa' nxio' bcb' := by
  induction hmove with
  | stay => exact h.mono hlsa hnxio
  | step step henabled hlog hforce =>
    exact h.step htracked henabled hlsa hnxio hlog hforce hone hfailed
  | flush path => exact (h.flush hone).mono hlsa hnxio
  | endFlight i hsome => exact (h.endFlight htracked hsome).mono hlsa hnxio
  | evict hdirty hholders hflights =>
    have hwriter := htracked.owned.writer_none hholders
    exact (h.evict (htracked.disk_eq_page hdirty hwriter hflights) hflights).mono hlsa hnxio
  | avoidVictim _ avoid ih => exact (ih hone hfailed).of_same ⟨rfl, rfl, rfl, rfl, rfl, rfl, rfl⟩

theorem Recorded.grows (htracked : Tracked bcb) (hmove : BcbMove lsa lsa' nxio' bcb bcb') :
    bcb.disk.changes ⊆ bcb'.disk.changes ∧ forall l, l ∈ bcb'.log -> l ∈ bcb.log ∨ l = lsa := by
  induction hmove with
  | stay | flush | evict => exact ⟨List.Subset.refl _, fun _ => .inl⟩
  | avoidVictim _ _ ih => exact ih
  | endFlight i hsome => grind [PgbufBcb.endFlight]
  | step step henabled _ _ =>
    rcases step.run_cases lsa bcb with ⟨thread, rfl | rfl⟩ | ⟨i, rfl | rfl | ⟨ok, rfl⟩⟩ |
      ⟨bcb', hrun | ⟨path, hrun⟩, hsame⟩
    · grind [BcbStep.run]
    · grind [BcbStep.run, PgbufBcb.pgbufSetLsa]
    · grind [BcbStep.run, PgbufBcb.setPhase]
    · grind [BcbStep.run, PgbufBcb.endFlight]
    · obtain ⟨flight, rfl, hflights, hphase⟩ := htracked.of_flight henabled
      have hfl := h.flights flight (hflights ▸ mem_singleton_self flight)
      simp only [BcbStep.run, PgbufBcb.fileioWrite, PgbufBcb.setPhase, hflights, getElem?_cons_zero]
      split_ifs
      · exact ⟨hfl.disk, fun _ => .inl⟩
      · exact ⟨List.Subset.refl _, fun _ => .inl⟩
    · grind
    · grind [PgbufBcb.pgbufFlushPageWithWal]

end

theorem Tracked.keeps_flight (h : Tracked bcb) {step : BcbStep} {flight : Flight}
    (henabled : step.enabled bcb = true) (hone : (step.run lsa bcb).flights.length <= 1)
    (hflights : bcb.flights = [flight])
    (hpath : flight.path = .checkpoint ∨ flight.path = .checkpointFixed) :
    exists phase, (step.run lsa bcb).flights = [{ flight with phase := phase }] := by
  rcases step.run_cases lsa bcb with ⟨thread, rfl | rfl⟩ | ⟨i, rfl | rfl | ⟨ok, rfl⟩⟩ |
    ⟨bcb', hrun | ⟨path, hrun⟩, hsame⟩
  · exact ⟨flight.phase, hflights⟩
  · refine ⟨flight.phase, hflights ▸ ?_⟩
    dsimp only [BcbStep.run]
    unfold PgbufBcb.pgbufSetLsa
    split <;> rfl
  · obtain ⟨_, rfl, _⟩ := h.of_flight henabled
    exact ⟨.logForced, by simp [BcbStep.run, PgbufBcb.setPhase, hflights]⟩
  · obtain ⟨other, rfl, hother, hends⟩ := h.of_flight henabled
    grind
  · obtain ⟨_, rfl, _⟩ := h.of_flight henabled
    refine ⟨if ok then .written else .failed, ?_⟩
    cases ok <;> simp [BcbStep.run, PgbufBcb.fileioWrite, PgbufBcb.setPhase, hflights]
  · exact ⟨flight.phase, by rw [hrun, hsame.flights, hflights]⟩
  · have hnone := flights_eq_nil_of_flush (hrun ▸ hone)
    rw [hsame.flights, hflights] at hnone
    cases hnone

end

/-!
## The scan
-/

variable {n : Nat}

def ScanPoint.page : ScanPoint n -> Option (Fin n)
  | .next => none
  | .flushing p | .fixing p | .fixed p | .failed p => some p

def PgbufBcb.OnDisk (bcb : PgbufBcb) (lsa : Int) : Prop :=
  forall l, l ∈ bcb.log -> l < lsa -> l ∈ bcb.disk.changes

/-- The checkpoint has a flight with every change before `lsa`. -/
def PgbufBcb.Flushing (bcb : PgbufBcb) (lsa : Int) : Prop :=
  exists flight, bcb.flights = [flight] ∧
    (flight.path = .checkpoint ∨ flight.path = .checkpointFixed) ∧
    forall l, l ∈ bcb.log -> l < lsa -> l ∈ flight.copy.changes

structure Scanned (w : Pool n) (scan : Scan n) : Prop where
  upto : scan.flushUptoLsa < w.nextLsa
  redo : scan.redoLsa <= scan.flushUptoLsa
  passed : forall p, p ∉ scan.todo -> scan.point.page ≠ some p -> (w.bcb p).OnDisk scan.redoLsa
  flushing : forall p, scan.point = .flushing p -> (w.bcb p).Flushing scan.flushUptoLsa

/-- Nothing of the page is in a flight or waits to be marked. -/
def PgbufBcb.settled (bcb : PgbufBcb) : Bool :=
  bcb.flights.isEmpty && !bcb.unmarked

/-- What the checkpoint relies on where it leaves a buffer that it has not flushed. -/
def ScanStep.passesSettled (scan : Scan n) (bcb : PgbufBcb) : ScanStep n -> Bool
  | .examine _ => if scan.skips bcb then bcb.settled else Scan.flushes bcb || !scan.leaves bcb
  | .fix _ => true
  | .flush => bcb.dirty || bcb.settled
  | .endFlight i => bcb.flights.all (·.phase != .failed) || !scan.leaves (bcb.endFlight i)
  | .giveUp =>
    bcb.flights.isEmpty && bcb.oldestUnflushLsa != nullLsa &&
      decide (bcb.oldestUnflushLsa <= scan.flushUptoLsa)

def Pool.passesSettled (w : Pool n) : PoolLabel n -> Bool
  | .scan step =>
    w.scan.all fun scan => (step.page scan).all fun p => step.passesSettled scan (w.bcb p)
  | _ => true

/-- Flushes do not overlap, a flush that fails has an `oldest_unflush_lsa` to restore, and the
checkpoint leaves no buffer with changes in a flight or changes to be marked. -/
def Pool.Careful (w : Pool n) (label : PoolLabel n) : Prop :=
  w.Alone label ∧
    (forall p flight, flight ∈ ((w.next label).bcb p).flights -> flight.phase = .failed ->
      flight.oldestUnflushLsa ≠ nullLsa) ∧
    w.passesSettled label = true

instance (w : Pool n) (label : PoolLabel n) : Decidable (w.Careful label) :=
  inferInstanceAs (Decidable (_ ∧ _ ∧ _))

section

variable {lsa nxio : Int} {bcb bcb' : PgbufBcb} {scan : Scan n} {p : Fin n}

section

variable (h : Recorded lsa nxio bcb)
include h

theorem Recorded.on_disk (htracked : Tracked bcb) (hdirty : bcb.dirty = false)
    (hsettled : bcb.settled = true) (l : Int) : bcb.OnDisk l := by
  rw [PgbufBcb.settled, Bool.and_eq_true, List.isEmpty_iff, Bool.not_eq_true'] at hsettled
  intro l hl _
  grind

/-- Without a flight, what is older than `oldest_unflush_lsa` is on disk. -/
theorem Recorded.on_disk_of_le (hflights : bcb.flights = []) {l : Int}
    (hle : l <= bcb.oldestUnflushLsa) : bcb.OnDisk l := by
  intro l' hl hlt
  grind

theorem Recorded.flushing {path : FlushPath} (hpath : path = .checkpoint ∨ path = .checkpointFixed)
    (hone : (bcb.pgbufFlushPageWithWal path).flights.length <= 1) (l : Int) :
    (bcb.pgbufFlushPageWithWal path).Flushing l := by
  refine ⟨⟨path, bcb.page, bcb.oldestUnflushLsa, .copied⟩, ?_, hpath, fun l hl _ => (h.log l hl).1⟩
  rw [PgbufBcb.pgbufFlushPageWithWal, flights_eq_nil_of_flush hone]
  rfl

end

/-- What a step of the scan at the page `p` leaves. -/
structure Scan.Took (scan : Scan n) (p : Fin n) (bcb' : PgbufBcb) (scan' : Scan n) : Prop where
  upto : scan'.flushUptoLsa = scan.flushUptoLsa
  redo : scan'.redoLsa <= scan.redoLsa
  todo : forall q, q ≠ p -> q ∉ scan'.todo -> q ∉ scan.todo
  point : scan'.point.page = some p ∨ scan'.point = .next ∧ bcb'.OnDisk scan'.redoLsa
  flushing : forall q, scan'.point = .flushing q -> bcb'.Flushing scan.flushUptoLsa

theorem ScanStep.took (h : Recorded lsa nxio bcb) (htracked : Tracked bcb)
    {step : ScanStep n} (hpage : step.page scan = some p)
    (hredo : scan.redoLsa <= scan.flushUptoLsa)
    (hflushing : scan.point = .flushing p -> bcb.Flushing scan.flushUptoLsa)
    (hguard : step.passesSettled scan bcb = true)
    (hone : (step.run scan p bcb).1.flights.length <= 1) :
    scan.Took p (step.run scan p bcb).1 (step.run scan p bcb).2 := by
  cases step with
  | examine q =>
    have htodo (q : Fin n) (hq : q ≠ p) (hmem : q ∉ scan.todo.erase p) : q ∉ scan.todo :=
      fun h => hmem ((mem_erase_of_ne hq).mpr h)
    have hskip : ({ scan with todo := scan.todo.erase p } : Scan n).skips bcb = scan.skips bcb :=
      rfl
    dsimp only [ScanStep.run, ScanStep.passesSettled] at hguard hone ⊢
    rw [hskip] at hone ⊢
    by_cases hskips : scan.skips bcb = true
    · rw [if_pos hskips] at hguard ⊢
      have hnext : scan.point = .next := by grind [ScanStep.page]
      refine ⟨rfl, Int.le_refl _, htodo, .inr ⟨hnext, ?_⟩, by grind⟩
      by_cases hclean : bcb.dirty = false
      · exact h.on_disk htracked hclean hguard _
      · have hnew : scan.flushUptoLsa < bcb.oldestUnflushLsa := by grind [Scan.skips]
        refine h.on_disk_of_le (by grind [PgbufBcb.settled]) ?_
        exact Int.le_trans hredo (Int.le_of_lt hnew)
    · rw [if_neg hskips] at hguard hone ⊢
      by_cases hflush : Scan.flushes bcb = true
      · rw [if_pos hflush] at hone ⊢
        exact ⟨rfl, Int.le_refl _, htodo, .inl rfl, fun _ _ => h.flushing (.inl rfl) hone _⟩
      have hleaves : ({ scan with todo := scan.todo.erase p } : Scan n).leaves bcb = false := by
        grind [Scan.leaves]
      rw [if_neg hflush, Scan.retry, if_neg (Bool.eq_false_iff.mp hleaves)]
      exact ⟨rfl, Int.le_refl _, htodo, .inl rfl, fun _ h => by cases h⟩
  | fix granted =>
    refine ⟨rfl, Int.le_refl _, fun _ _ => id, .inl ?_, ?_⟩
    all_goals cases granted
    all_goals first | rfl | exact fun _ h => by cases h
  | flush =>
    dsimp only [ScanStep.run, ScanStep.passesSettled] at hguard hone ⊢
    by_cases hdirty : bcb.dirty = true
    · rw [if_pos hdirty] at hone ⊢
      exact ⟨rfl, Int.le_refl _, fun _ _ => id, .inl rfl, fun _ _ => h.flushing (.inr rfl) hone _⟩
    · rw [if_neg hdirty]
      have hdisk := h.on_disk htracked (Bool.not_eq_true _ ▸ hdirty) (by grind) scan.redoLsa
      exact ⟨rfl, Int.le_refl _, fun _ _ => id, .inr ⟨rfl, hdisk⟩, fun _ h => by cases h⟩
  | endFlight i =>
    have hpoint : scan.point = .flushing p := by grind [ScanStep.page]
    obtain ⟨⟨path, copy, oldest, phase⟩, hflights, hpath, hcopy⟩ := hflushing hpoint
    have hfl := h.flights _ (hflights ▸ mem_singleton_self _)
    have hstay : scan.Took p bcb scan :=
      ⟨rfl, Int.le_refl _, fun _ _ => id, .inl (hpoint ▸ rfl), fun _ _ => hflushing hpoint⟩
    have hat (point : ScanPoint n) (hp : point.page = some p) (hne : forall q, point ≠ .flushing q)
        (bcb' : PgbufBcb) : scan.Took p bcb' { scan with point := point } :=
      ⟨rfl, Int.le_refl _, fun _ _ => id, .inl hp, fun q hq => absurd hq (hne q)⟩
    dsimp only [ScanStep.run, ScanStep.passesSettled] at hguard ⊢
    cases i with
    | succ i =>
      rw [Scan.ended, hflights]
      exact hstay
    | zero =>
      cases phase with
      | copied | logForced =>
        rw [Scan.ended, hflights]
        rcases hpath with rfl | rfl <;> exact hstay
      | written =>
        have hdone : scan.Took p (bcb.endFlight 0) { scan with point := .next } := by
          refine ⟨rfl, Int.le_refl _, fun _ _ => id, .inr ⟨rfl, ?_⟩, fun _ h => by cases h⟩
          intro l hl hlt
          have hold := hfl.written rfl (hcopy l ?_ (Int.lt_of_lt_of_le hlt hredo))
          all_goals grind [PgbufBcb.endFlight]
        rw [Scan.ended, hflights]
        rcases hpath with rfl | rfl <;> exact hdone
      | failed =>
        have hleaves : scan.leaves (bcb.endFlight 0) = false := by
          rw [hflights] at hguard
          simpa using hguard
        rw [Scan.ended, hflights]
        rcases hpath with rfl | rfl
        · rw [Scan.retry, hleaves]
          exact hat (.fixing p) rfl (fun _ h => by cases h) _
        · exact hat (.failed p) rfl (fun _ h => by cases h) _
  | giveUp =>
    simp only [ScanStep.passesSettled, Bool.and_eq_true, List.isEmpty_iff, bne_iff_ne,
      decide_eq_true_eq] at hguard
    obtain ⟨⟨hflights, hnull⟩, hle⟩ := hguard
    -- The redo point is not behind the one before, nor behind the page.
    have hmin : (scan.gaveUp bcb).2.redoLsa <= scan.redoLsa ∧
        (scan.gaveUp bcb).2.redoLsa <= bcb.oldestUnflushLsa := by
      simp only [Scan.gaveUp, Scan.redoLsa]
      grind
    have hdisk := h.on_disk_of_le hflights hmin.2
    exact ⟨rfl, hmin.1, fun _ _ => id, .inr ⟨rfl, hdisk⟩, fun _ h => by cases h⟩

end

structure Pool.Sound (w : Pool n) : Prop where
  tracked : forall p, Tracked (w.bcb p)
  recorded : forall p, Recorded w.nextLsa w.nxioLsa (w.bcb p)
  forced : w.nxioLsa <= w.nextLsa
  scanned : forall scan, w.scan = some scan -> Scanned w scan
  chkpts : forall c, c ∈ w.chkpts -> c.redoLsa <= w.nextLsa ∧ forall p l, l ∈ (w.bcb p).log ->
    l < c.redoLsa -> l ∈ (c.synced p).changes

section

variable {w w' : Pool n} {scan : Scan n}

/-- What a step leaves of the pages, seen from the scan. -/
def Pool.Grows (w w' : Pool n) : Prop :=
  w.nextLsa <= w'.nextLsa ∧ forall p, (w.bcb p).disk.changes ⊆ (w'.bcb p).disk.changes ∧
    forall l, l ∈ (w'.bcb p).log -> l ∈ (w.bcb p).log ∨ l = w.nextLsa

variable {p : Fin n}

theorem PgbufBcb.OnDisk.grow {l : Int} (h : (w.bcb p).OnDisk l) (hgrows : w.Grows w')
    (hle : l <= w.nextLsa) : (w'.bcb p).OnDisk l := by
  intro l' hl hlt
  rcases (hgrows.2 p).2 l' hl with hmem | rfl
  · exact (hgrows.2 p).1 (h l' hmem hlt)
  · exact absurd hlt (Int.not_lt.mpr hle)

theorem Scanned.redo_le (h : Scanned w scan) : scan.redoLsa <= w.nextLsa :=
  Int.le_trans h.redo (Int.le_of_lt h.upto)

namespace Pool

theorem next_clock (w : Pool n) (label : PoolLabel n) (h : w.nxioLsa <= w.nextLsa) :
    w.nextLsa <= (w.next label).nextLsa ∧ w.nxioLsa <= (w.next label).nxioLsa ∧
      (w.next label).nxioLsa <= (w.next label).nextLsa := by
  have hsame : w.nextLsa <= w.nextLsa ∧ w.nxioLsa <= w.nxioLsa ∧ w.nxioLsa <= w.nextLsa :=
    ⟨Int.le_refl _, Int.le_refl _, h⟩
  cases label with
  | page p step =>
    dsimp only [next, page]
    cases step <;> grind [BcbStep.isLog, nxioAfter]
  | startChkpt => exact ⟨Int.le_add_one (Int.le_refl _), Int.le_add_one h, Int.le_refl _⟩
  | evict | failChkpt => exact hsame
  | scan | synchronize =>
    dsimp only [next]
    repeat' split
    all_goals exact hsame

theorem Sound.page_scanned (h : w.Sound) (hscan : w.scan = some scan) {step : BcbStep}
    (henabled : step.enabled (w.bcb p) = true) (hgrows : w.Grows (w.page p step))
    (hone : ((w.page p step).bcb p).flights.length <= 1) : Scanned (w.page p step) scan := by
  have hs := h.scanned scan hscan
  refine ⟨Int.lt_of_lt_of_le hs.upto hgrows.1, hs.redo,
    fun q hq hne => (hs.passed q hq hne).grow hgrows hs.redo_le, fun q hq => ?_⟩
  obtain ⟨flight, hflights, hpath, hcopy⟩ := hs.flushing q hq
  have hlog (l : Int) (hl : l ∈ ((w.page p step).bcb q).log) (hlt : l < scan.flushUptoLsa) :
      l ∈ flight.copy.changes := by
    rcases (hgrows.2 q).2 l hl with hmem | rfl
    · exact hcopy l hmem hlt
    · exact absurd hs.upto (Int.not_lt.mpr (Int.le_of_lt hlt))
  by_cases hqp : q = p
  · subst hqp
    have hbcb : (w.page q step).bcb q = step.run w.nextLsa (w.bcb q) :=
      (w.setBcb_bcb q q _).trans (if_pos rfl)
    rw [hbcb] at hone hlog ⊢
    obtain ⟨phase, hkept⟩ := (h.tracked q).keeps_flight henabled hone hflights hpath
    exact ⟨_, hkept, hpath, hlog⟩
  · have hbcb : (w.page p step).bcb q = w.bcb q := (w.setBcb_bcb p q _).trans (if_neg hqp)
    exact ⟨flight, hbcb ▸ hflights, hpath, hlog⟩

theorem Sound.evict_scanned (h : w.Sound) (hscan : w.scan = some scan) {passed : Bool}
    (hsame : (w.bcb p).disk = (w.bcb p).page) (hflights : (w.bcb p).flights = [])
    (hgrows : w.Grows (w.evict p passed)) :
    Scanned (w.evict p passed)
      { scan with todo := if passed then scan.todo.erase p else scan.todo } := by
  have hs := h.scanned scan hscan
  refine ⟨hs.upto, hs.redo, fun q hq hne => ?_, fun q hq => ?_⟩
  · by_cases hqp : q = p
    · subst hqp
      have hdisk : (w.bcb q).OnDisk scan.redoLsa :=
        fun l hl _ => hsame ▸ ((h.recorded q).log l hl).1
      exact hdisk.grow hgrows hs.redo_le
    · refine (hs.passed q (fun hmem => hq ?_) hne).grow hgrows hs.redo_le
      split_ifs
      · exact (mem_erase_of_ne hqp).mpr hmem
      · exact hmem
  · have hflushing := hs.flushing q hq
    have hqp : q ≠ p := by
      rintro rfl
      obtain ⟨flight, hone, _⟩ := hflushing
      rw [hflights] at hone
      cases hone
    have hbcb : (w.evict p passed).bcb q = w.bcb q := (w.setBcb_bcb p q _).trans (if_neg hqp)
    exact hbcb ▸ hflushing

theorem Sound.scanStep_scanned (h : w.Sound) (hscan : w.scan = some scan) {step : ScanStep n}
    (hpage : step.page scan = some p) (hguard : step.passesSettled scan (w.bcb p) = true)
    (hone : ((w.scanStep scan p step).bcb p).flights.length <= 1) :
    Scanned (w.scanStep scan p step) (step.run scan p (w.bcb p)).2 := by
  have hs := h.scanned scan hscan
  have hbcb : (w.scanStep scan p step).bcb p = (step.run scan p (w.bcb p)).1 :=
    (w.setBcb_bcb p p _).trans (if_pos rfl)
  have htook := ScanStep.took (h.recorded p) (h.tracked p) hpage hs.redo (hs.flushing p) hguard
    (hbcb ▸ hone)
  have hpoint : scan.point = .next ∨ scan.point.page = some p := by
    cases step <;> grind [ScanStep.page, ScanPoint.page]
  refine ⟨htook.upto ▸ hs.upto, htook.upto ▸ Int.le_trans htook.redo hs.redo, fun q hq hne => ?_,
    fun q hq => ?_⟩
  · by_cases hqp : q = p
    · subst hqp
      rw [hbcb]
      exact (htook.point.resolve_left hne).2
    have hkept : (w.scanStep scan p step).bcb q = w.bcb q :=
      (w.setBcb_bcb p q _).trans (if_neg hqp)
    have hpassed := hs.passed q (htook.todo q hqp hq) (by grind [ScanPoint.page])
    rw [hkept]
    exact fun l hl hlt => hpassed l hl (Int.lt_of_lt_of_le hlt htook.redo)
  · have hqp : q = p := by grind [htook.point, ScanPoint.page]
    subst hqp
    rw [hbcb, htook.upto]
    exact htook.flushing q hq

variable {label : PoolLabel n}

theorem Sound.scanned_next (h : w.Sound) (henabled : w.enabled label = true)
    (hguard : w.Careful label) (hgrows : w.Grows (w.next label)) (scan' : Scan n)
    (hscan' : (w.next label).scan = some scan') : Scanned (w.next label) scan' := by
  cases label with
  | page p step => exact h.page_scanned hscan' henabled hgrows (hguard.1.1 p)
  | evict p passed =>
    simp only [enabled, Bool.and_eq_true, Bool.not_eq_true', List.isEmpty_iff] at henabled
    have hflights := hguard.1.2 p passed rfl
    have hwriter := (h.tracked p).owned.writer_none henabled.1.1.2
    obtain ⟨scan, hscan, rfl⟩ := Option.map_eq_some_iff.mp hscan'
    exact h.evict_scanned hscan ((h.tracked p).disk_eq_page henabled.1.1.1 hwriter hflights)
      hflights hgrows
  | startChkpt =>
    cases hscan'
    refine ⟨Int.lt_add_one_of_le (Int.le_refl _), Int.le_refl _, fun p hp => ?_,
      fun _ h => by cases h⟩
    exact absurd (mem_finRange p) hp
  | scan step =>
    obtain ⟨scan, hscan, hp⟩ := (Option.any_eq_true _ _).mp henabled
    obtain ⟨p, hpage, _⟩ := (Option.any_eq_true _ _).mp hp
    have hnext : w.next (.scan step) = w.scanStep scan p step := by
      simp only [next, hscan, hpage]
    have hpasses := hguard.2.2
    simp only [passesSettled, hscan, hpage, Option.all_some] at hpasses
    have hone := hguard.1.1 p
    rw [hnext] at hscan' hone ⊢
    cases hscan'
    exact h.scanStep_scanned hscan hpage hpasses hone
  | synchronize =>
    obtain ⟨scan, hscan, _⟩ := (Option.any_eq_true _ _).mp henabled
    simp only [next, hscan, synchronize, reduceCtorEq] at hscan'
  | failChkpt => cases hscan'

theorem Sound.next (h : w.Sound) (henabled : w.enabled label = true) (hguard : w.Careful label) :
    (w.next label).Sound := by
  obtain ⟨hnext, hnxio, hforced⟩ := w.next_clock label h.forced
  have hmove := fun p => bcbMove_next henabled hguard.1 p
  have hgrows : w.Grows (w.next label) :=
    ⟨hnext, fun p => (h.recorded p).grows (h.tracked p) (hmove p)⟩
  refine ⟨fun p => (h.tracked p).move (hmove p) (hguard.1.1 p),
    fun p => (h.recorded p).move (h.tracked p) (hmove p) hnext hnxio (hguard.1.1 p) (hguard.2.1 p),
    hforced, h.scanned_next henabled hguard hgrows, fun c hc => ?_⟩
  have hnew : c ∈ w.chkpts ∨ exists scan, w.scan = some scan ∧ scan.point = .next ∧
      scan.todo = [] ∧ c = ⟨scan.redoLsa, fun p => (w.bcb p).disk⟩ := by
    cases label with
    | page | evict | startChkpt | failChkpt => exact .inl hc
    | scan step =>
      dsimp only [next] at hc
      repeat' split at hc
      all_goals exact .inl hc
    | synchronize => grind [next, enabled, synchronize]
  rcases hnew with hold | ⟨scan, hscan, hpoint, htodo, rfl⟩
  · obtain ⟨hle, hsynced⟩ := h.chkpts c hold
    refine ⟨Int.le_trans hle hnext, fun p l hl hlt => ?_⟩
    rcases (hgrows.2 p).2 l hl with hmem | rfl
    · exact hsynced p l hmem hlt
    · exact absurd hlt (Int.not_lt.mpr hle)
  · have hs := h.scanned scan hscan
    refine ⟨Int.le_trans hs.redo_le hnext, fun p l hl hlt => ?_⟩
    rcases (hgrows.2 p).2 l hl with hmem | rfl
    · exact hs.passed p (htodo ▸ not_mem_nil) (by simp [hpoint, ScanPoint.page]) l hmem hlt
    · exact absurd hlt (Int.not_lt.mpr hs.redo_le)

end Pool

end

/-- Every logged change below the redo point of a finished checkpoint was on disk at its
`fileio_synchronize_all`, and the log is forced up to every page on disk. -/
def Pool.RedoSound (w : Pool n) : Prop :=
  (forall c, c ∈ w.chkpts -> forall p l, l ∈ (w.bcb p).log -> l < c.redoLsa ->
    l ∈ (c.synced p).changes) ∧
    forall p, (w.bcb p).disk.lsa < w.nxioLsa

/-- In every run of careful steps no checkpoint misses a change. -/
theorem redo_sound_of_careful (w : Pool n)
    (h : ((pgbufPool n).guarded Pool.Careful).Reachable w) : w.RedoSound := by
  have hsound : w.Sound := by
    refine h.guarded_invariant Pool.Sound ?_ ?_
    · rintro w rfl
      refine ⟨fun _ => ⟨Nat.zero_le 1, ⟨nofun, nofun, nofun⟩, fun _ => .inr (.inr rfl), nofun⟩,
        fun _ => ⟨Int.le_refl 0, ?_, ?_, ?_, nofun, nofun, List.Subset.refl _, nofun⟩,
        Int.le_refl 0, nofun, nofun⟩
      all_goals exact (by decide : nullLsa < 0)
    · rintro w label _ hw hguard ⟨henabled, rfl⟩
      exact hw.next henabled hguard
  exact ⟨fun c hc => (hsound.chkpts c hc).2, fun p => (hsound.recorded p).disk_lsa⟩

/-- A thread changes the page, logs the change and marks the page. -/
def loggedSteps (p : Fin n) (thread contents : Nat) : List (PoolLabel n) :=
  [.page p (.fix thread true), .page p (.change thread contents), .page p (.log thread),
    .page p (.setLsa thread), .page p (.setDirty thread), .page p (.unfix thread)]

/-- The page is flushed by the checkpoint, and the checkpoint ends. -/
def checkpointed : List (PoolLabel 1) :=
  loggedSteps onlyPage 2 1 ++ [.startChkpt, .scan (.examine onlyPage), .page onlyPage (.forceLog 0),
    .page onlyPage (.write 0 true), .scan (.endFlight 0), .synchronize]

theorem redo_sound_of_careful_checkpointed :
    (checkpointed.foldl Pool.next (.start 1)).RedoSound :=
  redo_sound_of_careful _ (System.reachable_guarded_of_follows checkpointed (by decide +kernel))

/-- The page is in the flight of a victim flush when the checkpoint comes by. -/
def passedInFlight : List (PoolLabel 1) :=
  loggedSteps onlyPage 2 1 ++
    [.page onlyPage .flushVictim, .startChkpt, .scan (.examine onlyPage), .synchronize]

theorem redo_point_misses_flight :
    exists w : Pool 1, (pgbufPool 1).Reachable w ∧ ¬ w.RedoSound := by
  refine ⟨passedInFlight.foldl Pool.next (.start 1),
    System.reachable_of_follows passedInFlight (by decide +kernel), fun h => ?_⟩
  have hmissed := h.1 _ (get_mem _ ⟨0, by decide +kernel⟩) 0 0 (by decide +kernel)
    (by decide +kernel)
  revert hmissed
  decide +kernel

end Rye.Storage.PageBuffer
