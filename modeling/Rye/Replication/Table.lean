import Rye.Replication.Appliers

/-!
# The analyzer's table

An entry says of its transaction what the records read so far say.  A transaction whose first
record the analyzer has read stays in the table until it is settled: an entry is dropped only
when its transaction was aborted, changed nothing, or is at most the `committed_lsa` of its
applier.
-/

namespace Rye.Replication

open List MasterLog

variable {table : TranTable} {tranid : Int} {tran : Tran}

theorem mem_updateTran {f : Tran -> Tran} :
    tran ∈ updateTran table tranid f <->
      exists old, old ∈ table ∧ (if old.tranid = tranid then f old else old) = tran :=
  mem_map

theorem find_some (h : cirpFindTran table tranid = some tran) :
    tran ∈ table ∧ tran.tranid = tranid := by
  have hfound := find?_some h
  exact ⟨mem_of_find?_eq_some h, beq_iff_eq.mp hfound⟩

theorem find_none (h : cirpFindTran table tranid = none) (hmem : tran ∈ table) :
    tran.tranid ≠ tranid := by
  have := find?_eq_none.mp h tran hmem
  intro heq
  exact this (beq_iff_eq.mpr heq)

/-!
## Entries
-/

/-- The entry agrees with the log: its transaction begins before `started`, and what is known of
its replication records is right for the records before `read`. -/
structure Tran.Accurate (cfg : Config) (log : MasterLog) (started read : Nat) (tran : Tran) :
    Prop where
  pos : 0 < tran.tranid
  start : log.First tran.tranid (fun _ => true) tran.tranStartLsa
  start_lt : tran.tranStartLsa < started
  repl_null : tran.replStartLsa = 0 ->
    forall l, l < read -> log.has tran.tranid RecType.isReplication l = false
  repl : tran.replStartLsa ≠ 0 -> log.First tran.tranid RecType.isReplication tran.replStartLsa ∧
    tran.assigned = log.assignment cfg tran.replStartLsa
  finished : tran.tranEndLsa ≠ 0 ->
    log.has tran.tranid RecType.isCommit tran.tranEndLsa = true ∧ tran.replStartLsa ≠ 0

/-- Every transaction that begins before the LSA has been applied. -/
def Safe (cfg : Config) (log : MasterLog) (committedLsa : Nat -> Nat) (lsa : Nat) : Prop :=
  forall q, log.Committed q -> q.tranStartLsa < lsa ->
    q.committedLsa <= committedLsa (log.applierOf cfg q)

/-- The table of an analyzer that started at `since`. -/
structure Tracks (cfg : Config) (log : MasterLog) (committedLsa : Nat -> Nat)
    (since started read : Nat) (table : TranTable) : Prop where
  accurate : forall tran, tran ∈ table -> tran.Accurate cfg log started read
  present : forall q, log.Committed q -> since <= q.tranStartLsa -> q.tranStartLsa < started ->
    q.committedLsa <= committedLsa (log.applierOf cfg q) ∨
      exists tran, tran ∈ table ∧ tran.tranid = q.trid

section

variable {cfg : Config} {log : MasterLog} {committedLsa : Nat -> Nat}
  {since started read final : Nat} {table : TranTable} {lrec : LogRecord}

theorem Tran.Accurate.read_succ {tran : Tran} (h : tran.Accurate cfg log started final)
    (hget : log.get final = some lrec)
    (hother : lrec.trid = tran.tranid -> lrec.type.isReplication = true -> tran.replStartLsa ≠ 0) :
    tran.Accurate cfg log started (final + 1) := by
  refine { h with repl_null := fun hnull l hl => ?_ }
  rcases Nat.lt_succ_iff_lt_or_eq.mp hl with hl | rfl
  · exact h.repl_null hnull l hl
  rw [Bool.eq_false_iff]
  intro hhas
  obtain ⟨htrid, htype⟩ := (has_get hget).mp hhas
  exact hother htrid htype hnull

theorem Tracks.read_succ (h : Tracks cfg log committedLsa since started final table)
    (hget : log.get final = some lrec) (hother : lrec.type.isReplication = false) :
    Tracks cfg log committedLsa since started (final + 1) table where
  accurate tran htran := by
    apply (h.accurate tran htran).read_succ hget
    intro _ hrepl
    rw [hother] at hrepl
    cases hrepl
  present := h.present

variable {committedLsa' : Nat -> Nat}

theorem Tracks.mono (h : Tracks cfg log committedLsa since started read table)
    (hle : forall i, committedLsa i <= committedLsa' i) :
    Tracks cfg log committedLsa' since started read table where
  accurate := h.accurate
  present q hq hsince hstarted := by
    rcases h.present q hq hsince hstarted with hdone | hmem
    · exact .inl (Nat.le_trans hdone (hle _))
    · exact .inr hmem

variable {lsa : Nat} {analyzer : Analyzer} {q : QItem}

theorem Safe.mono (h : Safe cfg log committedLsa lsa)
    (hle : forall i, committedLsa i <= committedLsa' i) : Safe cfg log committedLsa' lsa :=
  fun q hq hlt => Nat.le_trans (h q hq hlt) (hle _)

section

variable (h : Tracks cfg log committedLsa since started read table)
include h

theorem Tracks.filter (keep : Tran -> Bool)
    (hdrop : forall tran, tran ∈ table -> keep tran = false ->
      forall q, log.Committed q -> q.trid = tran.tranid ->
        q.committedLsa <= committedLsa (log.applierOf cfg q)) :
    Tracks cfg log committedLsa since started read (table.filter keep) where
  accurate tran htran := h.accurate tran (mem_filter.mp htran).1
  present q hq hsince hstarted := by
    rcases h.present q hq hsince hstarted with hdone | ⟨tran, htran, htrid⟩
    · exact .inl hdone
    cases hkeep : keep tran with
    | true => exact .inr ⟨tran, mem_filter.mpr ⟨htran, hkeep⟩, htrid⟩
    | false => exact .inl (hdrop tran htran hkeep q hq htrid.symm)

theorem Tracks.free (tranid : Int) (hdrop : forall q, log.Committed q -> q.trid = tranid ->
      q.committedLsa <= committedLsa (log.applierOf cfg q)) :
    Tracks cfg log committedLsa since started read (cirpFreeTranByTranid table tranid) := by
  apply h.filter
  intro tran _ hkeep q hq htrid
  rw [bne_eq_false_iff_eq] at hkeep
  exact hdrop q hq (htrid.trans hkeep)

theorem Tracks.update {read' : Nat} (tranid : Int) (f : Tran -> Tran)
    (hf : forall tran, (f tran).tranid = tran.tranid) (haccurate : forall tran, tran ∈ table ->
      (if tran.tranid = tranid then f tran else tran).Accurate cfg log started read') :
    Tracks cfg log committedLsa since started read' (updateTran table tranid f) where
  accurate tran htran := by
    obtain ⟨old, hold, rfl⟩ := mem_updateTran.mp htran
    exact haccurate old hold
  present q hq hsince hstarted := by
    rcases h.present q hq hsince hstarted with hdone | ⟨tran, htran, htrid⟩
    · exact .inl hdone
    refine .inr ⟨_, mem_updateTran.mpr ⟨tran, htran, rfl⟩, ?_⟩
    split_ifs
    · rw [hf, htrid]
    · exact htrid

end

/-!
## One record
-/

theorem Tracks.added
    (h : Tracks cfg log committedLsa since analyzer.finalLsa analyzer.finalLsa analyzer.tranTable)
    (hget : log.get analyzer.finalLsa = some lrec) :
    Tracks cfg log committedLsa since (analyzer.finalLsa + 1) analyzer.finalLsa
      (addedTran analyzer lrec) := by
  have hlt := (lt_of_get hget).2
  have hnonneg := log.trid_nonneg lrec (mem_of_get hget)
  have hlift : forall tran, tran ∈ analyzer.tranTable ->
      tran.Accurate cfg log (analyzer.finalLsa + 1) analyzer.finalLsa := by
    intro tran htran
    have hold := h.accurate tran htran
    exact { hold with start_lt := Nat.lt_succ_of_lt hold.start_lt }
  rw [addedTran]
  split_ifs with hnew
  · obtain ⟨_, htrid, hprev⟩ := hnew
    have hpos : 0 < lrec.trid := by
      rw [logSystemTranid] at htrid
      omega
    have hbefore := (log.first_iff _ hlt lrec hget hpos).mp hprev
    have hfirst : log.First lrec.trid (fun _ => true) analyzer.finalLsa := by
      refine ⟨(has_get hget).mpr ⟨rfl, rfl⟩, ?_⟩
      intro l hl
      rw [Bool.eq_false_iff]
      intro hhas
      obtain ⟨r, hr, hr', _⟩ := has_iff.mp hhas
      exact hbefore l hl r hr hr'
    have hfind : cirpFindTran analyzer.tranTable lrec.trid = none := by
      cases hfind : cirpFindTran analyzer.tranTable lrec.trid with
      | none => rfl
      | some tran =>
        obtain ⟨htran, heq⟩ := find_some hfind
        have hold := h.accurate tran htran
        have := (heq ▸ hold.start).unique hfirst
        have := hold.start_lt
        omega
    rw [cirpAddTran, hfind]
    constructor
    · intro tran htran
      rw [mem_append, mem_singleton] at htran
      rcases htran with htran | rfl
      · exact hlift tran htran
      refine ⟨hpos, hfirst, Nat.lt_succ_self _, ?_, ?_, ?_⟩
      · intro _ l hl
        rw [Bool.eq_false_iff]
        intro hhas
        have := hfirst.2 l hl
        rw [has_any hhas] at this
        cases this
      · intro hne
        exact absurd rfl hne
      · intro hne
        exact absurd rfl hne
    · intro q hq hsince hstarted
      rcases Nat.lt_succ_iff_lt_or_eq.mp hstarted with hstarted | heq
      · rcases h.present q hq hsince hstarted with hdone | ⟨tran, htran, hq⟩
        · exact .inl hdone
        · exact .inr ⟨tran, mem_append_left _ htran, hq⟩
      · exact .inr ⟨_, mem_append_right _ (mem_singleton_self _),
          ((has_get hget).mp (heq ▸ hq.start.1)).1⟩
  · constructor
    · exact hlift
    intro q hq hsince hstarted
    rcases Nat.lt_succ_iff_lt_or_eq.mp hstarted with hstarted | heq
    · exact h.present q hq hsince hstarted
    exfalso
    have hid := ((has_get hget).mp (heq ▸ hq.start.1)).1
    have hpos := hq.pos
    rw [← hid] at hpos
    refine hnew ⟨?_, ?_, ?_⟩
    · intro hstate
      have := log.serverState lrec (mem_of_get hget) hstate
      rw [logSystemTranid] at this
      omega
    · rw [logSystemTranid]
      omega
    · rw [log.first_iff _ hlt lrec hget hpos]
      intro l hl r' hr' heq'
      have hno := hq.start.2 l (by omega)
      rw [has_iff.mpr ⟨r', hr', by omega, rfl⟩] at hno
      cases hno

theorem Tracks.setReplLog (h : Tracks cfg log committedLsa since started final table)
    (hget : log.get final = some lrec) (hrepl : lrec.type.isReplication = true) :
    Tracks cfg log committedLsa since started (final + 1)
      (cirpSetReplLog cfg table lrec.type lrec.trid final) := by
  have hpos := (lt_of_get hget).1
  apply h.update
  · intro tran
    split_ifs <;> rfl
  intro tran htran
  have hold := h.accurate tran htran
  split_ifs with htrid hnull
  · exact hold.read_succ hget fun _ _ => hnull
  · have hnull : tran.replStartLsa = 0 := not_not.mp hnull
    refine ⟨hold.pos, hold.start, hold.start_lt, ?_, ?_, ?_⟩
    · intro hzero
      dsimp only at hzero
      omega
    · intro _
      refine ⟨⟨(has_get hget).mpr ⟨htrid.symm, hrepl⟩, hold.repl_null hnull⟩, ?_⟩
      rw [assignment, hget]
      rfl
    · intro hend
      exact absurd hnull (hold.finished hend).2
  · exact hold.read_succ hget fun htrid' _ => absurd htrid'.symm htrid

theorem no_committed_of_abort (hget : log.get final = some lrec) (habort : lrec.type = .abort)
    (hq : log.Committed q) : q.trid ≠ lrec.trid := by
  intro htrid
  have hend : log.has q.trid RecType.isEnd final = true :=
    (has_get hget).mpr ⟨htrid.symm, by rw [habort]; rfl⟩
  have hlsa := hq.end_eq (fun _ h => h) hend
  have htype := ((has_get hget).mp (hlsa ▸ hq.commit)).2
  rw [habort] at htype
  cases htype

theorem committedLsa_eq_of_commit (hget : log.get final = some lrec)
    (hcommit : lrec.type = .commit) (hq : log.Committed q) (htrid : q.trid = lrec.trid) :
    q.committedLsa = final := by
  refine (hq.end_eq isEnd_of_isCommit ?_).symm
  exact (has_get hget).mpr ⟨htrid.symm, by rw [hcommit]; rfl⟩

theorem applierOf_eq {item : ReplItem} {laIndex : Nat}
    (h : log.assignment cfg q.replStartLsa = some (item, laIndex)) :
    log.applierOf cfg q = laIndex ∧ log.isBlocked cfg q = item.isBlockedItem := by
  constructor
  · rw [applierOf, h]
    rfl
  · rw [isBlocked, h]
    rfl

/-- What the analyzer does after a record: it reads on, and then nothing that commits at the
record is left to be applied; or it holds the transaction that commits there. -/
def Comes (cfg : Config) (log : MasterLog) (committedLsa : Nat -> Nat) (final : Nat)
    (task : AnalyzerTask) : Prop :=
  (task = .reading ∧ forall q, log.Committed q -> q.committedLsa = final ->
    q.committedLsa <= committedLsa (log.applierOf cfg q)) ∨
  exists item, log.Committed item ∧ item.committedLsa = final ∧
    task = if log.isBlocked cfg item then .draining item (log.applierOf cfg item)
      else .pushing item (log.applierOf cfg item) false

theorem comes_other (hget : log.get final = some lrec) (htype : lrec.type.isCommit = false) :
    Comes cfg log committedLsa final .reading := by
  refine .inl ⟨rfl, ?_⟩
  intro q hq hfinal
  have hcommit := ((has_get hget).mp (hfinal ▸ hq.commit)).2
  rw [htype] at hcommit
  cases hcommit

theorem Tracks.assign
    (h : Tracks cfg log committedLsa analyzer.startLsa (final + 1) (final + 1) analyzer.tranTable)
    (hsafe : Safe cfg log committedLsa analyzer.startLsa) (hget : log.get final = some lrec)
    (hcommit : lrec.type = .commit) (htask : analyzer.task = .reading) :
    exists table task, cirpAnlzAssignReplItem analyzer lrec.trid final =
        { analyzer with tranTable := table, task := task } ∧
      Tracks cfg log committedLsa analyzer.startLsa (final + 1) (final + 1) table ∧
      Comes cfg log committedLsa final task := by
  have htrid : forall q, log.Committed q -> q.committedLsa = final -> q.trid = lrec.trid :=
    fun q hq hfinal => ((has_get hget).mp (hfinal ▸ hq.commit)).1.symm
  have hstart : forall q, log.Committed q -> q.committedLsa = final -> q.tranStartLsa < final := by
    intro q hq hfinal
    have := hq.start_le
    have := hq.repl_lt
    omega
  rw [cirpAnlzAssignReplItem]
  cases hfind : cirpFindTran analyzer.tranTable lrec.trid with
  | none =>
    refine ⟨analyzer.tranTable, analyzer.task, rfl, h, ?_⟩
    refine .inl ⟨htask, ?_⟩
    intro q hq hfinal
    rcases Nat.lt_or_ge q.tranStartLsa analyzer.startLsa with hlt | hge
    · exact hsafe q hq hlt
    rcases h.present q hq hge (Nat.lt_succ_of_lt (hstart q hq hfinal)) with
      hdone | ⟨tran, htran, hid⟩
    · exact hdone
    · exact absurd (hid.trans (htrid q hq hfinal)) (find_none hfind htran)
  | some tran =>
    obtain ⟨htran, hid⟩ := find_some hfind
    have hold := h.accurate tran htran
    dsimp only
    split_ifs with hnull
    · -- The transaction has changed nothing that is replicated.
      have hnone : forall q, log.Committed q -> q.trid ≠ lrec.trid := by
        intro q hq heq
        have hlsa := committedLsa_eq_of_commit hget hcommit hq heq
        have hno := hold.repl_null hnull q.replStartLsa (by have := hq.repl_lt; omega)
        rw [hid, ← heq, hq.repl.1] at hno
        cases hno
      refine ⟨_, analyzer.task, rfl, ?_, ?_⟩
      · exact h.free _ fun q hq heq => absurd heq (hnone q hq)
      · exact .inl ⟨htask, fun q hq hfinal => absurd (htrid q hq hfinal) (hnone q hq)⟩
    obtain ⟨hfirst, hassigned⟩ := hold.repl hnull
    have hhas : log.has tran.tranid RecType.isCommit final = true :=
      (has_get hget).mpr ⟨hid.symm, by rw [hcommit]; rfl⟩
    have hitem : log.Committed ⟨tran.tranid, tran.tranStartLsa, final, tran.replStartLsa⟩ :=
      ⟨hold.pos, hold.start, hfirst, hhas⟩
    obtain ⟨item, hitemAssigned⟩ := hitem.assignment_isSome cfg
    rw [hassigned, hitemAssigned]
    refine ⟨_, _, rfl, ?_, ?_⟩
    · apply h.update
      · intro tran
        rfl
      intro tran' htran'
      have hold' := h.accurate tran' htran'
      split_ifs with heq
      · refine { hold' with finished := fun _ => ?_ }
        have hsame : tran'.tranid = tran.tranid := heq.trans hid.symm
        refine ⟨hsame ▸ hhas, ?_⟩
        intro hnull'
        have hno := hold'.repl_null hnull' tran.replStartLsa
          (by have := hitem.repl_lt; dsimp only at this; omega)
        rw [hsame, hfirst.1] at hno
        cases hno
      · exact hold'
    · refine .inr ⟨_, hitem, rfl, ?_⟩
      rw [(applierOf_eq hitemAssigned).2]

theorem Tracks.analyze
    (h : Tracks cfg log committedLsa analyzer.startLsa analyzer.finalLsa analyzer.finalLsa
      analyzer.tranTable) (hsafe : Safe cfg log committedLsa analyzer.startLsa)
    (hget : log.get analyzer.finalLsa = some lrec) (htask : analyzer.task = .reading) :
    exists table task, cirpAnalyzeLogRecord cfg analyzer lrec =
        some { analyzer with
          tranTable := table, finalLsa := analyzer.finalLsa + 1, task := task } ∧
      Tracks cfg log committedLsa analyzer.startLsa (analyzer.finalLsa + 1)
        (analyzer.finalLsa + 1) table ∧
      Comes cfg log committedLsa analyzer.finalLsa task := by
  have hadded := h.added hget
  have hvalid : ¬ (lrec.trid = nullTranid ∨ analyzer.finalLsa < lrec.prevTranlsa) := by
    have hnonneg := log.trid_nonneg lrec (mem_of_get hget)
    have hprev := log.prev_lt _ (lt_of_get hget).2 lrec hget
    rw [nullTranid]
    omega
  have hrepl : lrec.type.isReplication = true ->
      Tracks cfg log committedLsa analyzer.startLsa (analyzer.finalLsa + 1) (analyzer.finalLsa + 1)
        (cirpSetReplLog cfg (addedTran analyzer lrec) lrec.type lrec.trid analyzer.finalLsa) :=
    hadded.setReplLog hget
  have hread : lrec.type.isReplication = false ->
      Tracks cfg log committedLsa analyzer.startLsa (analyzer.finalLsa + 1)
        (analyzer.finalLsa + 1) (addedTran analyzer lrec) :=
    hadded.read_succ hget
  have hcomes : lrec.type.isCommit = false ->
      Comes cfg log committedLsa analyzer.finalLsa analyzer.task := by
    intro htype
    rw [htask]
    exact comes_other hget htype
  rw [cirpAnalyzeLogRecord, if_neg hvalid]
  cases htype : lrec.type with
  | replicationData | replicationSchema | dummyUpdateGidBitmap =>
    rw [htype] at hrepl hcomes
    exact ⟨_, _, rfl, hrepl rfl, hcomes rfl⟩
  | commit =>
    rw [htype] at hread
    let analyzer' : Analyzer := { analyzer with
      tranTable := addedTran analyzer lrec
      finalLsa := analyzer.finalLsa + 1 }
    have htable : Tracks cfg log committedLsa analyzer'.startLsa (analyzer.finalLsa + 1)
      (analyzer.finalLsa + 1) analyzer'.tranTable := hread rfl
    obtain ⟨table, task, heq, htracks, hcome⟩ := htable.assign hsafe hget htype htask
    exact ⟨table, task, congrArg some heq, htracks, hcome⟩
  | abort =>
    rw [htype] at hread hcomes
    refine ⟨_, _, rfl, ?_, hcomes rfl⟩
    exact (hread rfl).free _ fun q hq heq =>
      absurd heq (no_committed_of_abort hget htype hq)
  | dummyHaServerState | other =>
    rw [htype] at hread hcomes
    exact ⟨_, _, rfl, hread rfl, hcomes rfl⟩

/-!
## Dropping entries and the lowest start
-/

/-- Dropping what applier `i` has committed. -/
theorem Tracks.collect (h : Tracks cfg log committedLsa since started read table) {i : Nat}
    (hlsa : lsa <= committedLsa i) :
    Tracks cfg log committedLsa since started read
      (table.filter fun tran => !cirpFindCommittedTran i lsa tran) := by
  apply h.filter
  intro tran htran hkeep q hq htrid
  have hold := h.accurate tran htran
  simp only [Bool.not_eq_false', cirpFindCommittedTran, Bool.and_eq_true, decide_eq_true_iff,
    bne_iff_ne, Option.any_eq_true, beq_iff_eq] at hkeep
  obtain ⟨⟨⟨_, ⟨⟨item, laIndex⟩, hitem, hindex⟩⟩, hend⟩, hle⟩ := hkeep
  obtain ⟨hcommit, hnull⟩ := hold.finished hend
  obtain ⟨hfirst, hassigned⟩ := hold.repl hnull
  have hend : tran.tranEndLsa = q.committedLsa := by
    rw [← htrid] at hcommit
    exact hq.end_eq isEnd_of_isCommit hcommit
  have happlier : log.applierOf cfg q = i := by
    rw [← htrid] at hfirst
    have hsame := hfirst.unique hq.repl
    rw [hassigned, hsame] at hitem
    exact (applierOf_eq hitem).1.trans hindex
  rw [happlier]
  omega

theorem lowest_fold (lowest : Nat) (hpos : forall tran, tran ∈ table -> 0 < tran.tranStartLsa) :
    let result := table.foldl (fun lowest (tran : Tran) =>
      if lowest = 0 ∨ tran.tranStartLsa < lowest then tran.tranStartLsa else lowest) lowest
    (result = 0 -> lowest = 0 ∧ table = []) ∧
      (lowest ≠ 0 -> result <= lowest) ∧
      forall tran, tran ∈ table -> result <= tran.tranStartLsa := by
  induction table generalizing lowest with
  | nil => exact ⟨fun h => ⟨h, rfl⟩, fun _ => Nat.le_refl _, fun _ h => by cases h⟩
  | cons tran table ih =>
    have htran := hpos tran mem_cons_self
    obtain ⟨hzero, hle, hall⟩ := ih
      (if lowest = 0 ∨ tran.tranStartLsa < lowest then tran.tranStartLsa else lowest)
      fun tran' h => hpos tran' (mem_cons_of_mem _ h)
    rw [foldl_cons]
    refine ⟨?_, ?_, ?_⟩
    · intro h
      have := (hzero h).1
      split_ifs at this <;> omega
    · intro hne
      split_ifs at hle ⊢ <;> omega
    intro tran' h
    rcases mem_cons.mp h with rfl | h
    · split_ifs at hle ⊢ <;> omega
    · exact hall tran' h

section

variable (h : Tracks cfg log committedLsa since started read table)
include h

theorem Tracks.start_pos (tran : Tran) (htran : tran ∈ table) : 0 < tran.tranStartLsa :=
  (has_lt (h.accurate tran htran).start.1).1

theorem lowest_eq_zero (hzero : cirpFindLowestTranStartLsa table = 0) : table = [] := by
  exact ((lowest_fold 0 h.start_pos).1 hzero).2

theorem lowest_le {tran : Tran} (htran : tran ∈ table) :
    cirpFindLowestTranStartLsa table <= tran.tranStartLsa := by
  exact (lowest_fold 0 h.start_pos).2.2 tran htran

end

/-- `required_lsa` may be set to an LSA that is no higher than what has been read and than the
start of every entry. -/
theorem Tracks.safe (h : Tracks cfg log committedLsa since started read table)
    (hsafe : Safe cfg log committedLsa since) (hstarted : lsa <= started)
    (hlowest : forall tran, tran ∈ table -> lsa <= tran.tranStartLsa) :
    Safe cfg log committedLsa lsa := by
  intro q hq hlt
  rcases Nat.lt_or_ge q.tranStartLsa since with hsince | hsince
  · exact hsafe q hq hsince
  rcases h.present q hq hsince (by omega) with hdone | ⟨tran, htran, htrid⟩
  · exact hdone
  · have := hlowest tran htran
    have := (htrid ▸ (h.accurate tran htran).start).unique hq.start
    omega

end

end Rye.Replication
