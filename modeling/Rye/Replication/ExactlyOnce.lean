import Mathlib.Algebra.BigOperators.Group.Finset.Basic
import Mathlib.Data.Nat.Find
import Rye.Replication.Table

/-!
# Every transaction is applied once

The state of the agents agrees with the log and with the slave: the slave has exactly the
transactions up to the `committed_lsa` of their appliers, and no `required_lsa`, in memory or
stored, is past the start of a transaction that the slave does not have.  A restart keeps this
because what it reads back is safe.

Without a restart the agents can do only so much, and when they cannot go on everything has been
applied.
-/

namespace Rye.Replication

open Foundation List Function Applier Function

/-- The analyzer has the transaction whose commit it has read last. -/
def Holding (cfg : Config) (log : MasterLog) (final : Nat) (item : QItem) (laIndex : Nat) : Prop :=
  log.Committed item ∧ log.applierOf cfg item = laIndex ∧ item.committedLsa + 1 = final

def AnalyzerTask.Ok (cfg : Config) (log : MasterLog) (final : Nat) : AnalyzerTask -> Prop
  | .reading => True
  | .draining item laIndex | .waiting item laIndex =>
    Holding cfg log final item laIndex ∧ log.isBlocked cfg item = true
  | .pushing item laIndex waitTranCommit =>
    Holding cfg log final item laIndex ∧ log.isBlocked cfg item = waitTranCommit

structure Inv (cfg : Config) (log : MasterLog) (s : State) : Prop where
  served : forall i, i < cfg.numApplier ->
    Served cfg log i (s.appliers i) (s.slave.committedLsa i) s.analyzer.finalLsa
      (s.analyzer.task.held i)
  tracks : Tracks cfg log s.slave.committedLsa s.analyzer.startLsa s.analyzer.finalLsa
    s.analyzer.finalLsa s.analyzer.tranTable
  started : Safe cfg log s.slave.committedLsa s.analyzer.startLsa
  required : Safe cfg log s.slave.committedLsa s.analyzer.requiredLsa
  stored : Safe cfg log s.slave.committedLsa s.slave.requiredLsa
  current_le : s.analyzer.currentLsa <= s.analyzer.finalLsa
  current_pos : 0 < s.analyzer.currentLsa
  required_pos : 0 < s.analyzer.requiredLsa
  stored_pos : 0 < s.slave.requiredLsa
  task : s.analyzer.task.Ok cfg log s.analyzer.finalLsa
  applied_iff : forall e, e ∈ s.slave.applied <->
    exists q, log.Committed q ∧ q.committedLsa <= s.slave.committedLsa (log.applierOf cfg q) ∧
      log.application q = e
  nodup : s.slave.applied.Nodup

/-!
## What is left to do
-/

def AnalyzerTask.weight : AnalyzerTask -> Nat
  | .reading => 0
  | .draining _ _ => 8
  | .pushing _ _ _ => 7
  | .waiting _ _ => 1

def ApplierTask.weight : ApplierTask -> Nat
  | .idle => 0
  | .popped _ => 4
  | .applying _ => 3
  | .flushed _ => 2
  | .published => 1

def Applier.weight (applier : Applier) : Nat :=
  5 * applier.logq.waiting.length + applier.task.weight

/-- A bound on the number of steps that read, queue and apply transactions. -/
def work (cfg : Config) (log : MasterLog) (s : State) : Nat :=
  9 * (log.records.length + 1 - s.analyzer.finalLsa) + s.analyzer.task.weight +
    ∑ i ∈ Finset.range cfg.numApplier, (s.appliers i).weight

def Label.isWork : Label -> Bool
  | .analyze | .drained | .push | .committed | .pop _ | .examine _ | .apply _ | .publish _
  | .clear _ => true
  | .page | .collect _ | .lowest | .store | .clearReplDelay _ | .crash => false

theorem sum_update (f : Nat -> Applier) {i n : Nat} (hi : i < n) (applier : Applier) :
    ∑ j ∈ Finset.range n, (update f i applier j).weight + (f i).weight =
      ∑ j ∈ Finset.range n, (f j).weight + applier.weight := by
  have hmem : i ∈ Finset.range n := Finset.mem_range.mpr hi
  rw [← Finset.add_sum_erase _ _ hmem, ← Finset.add_sum_erase _ _ hmem, update_self]
  have hrest : ∑ j ∈ (Finset.range n).erase i, (update f i applier j).weight =
      ∑ j ∈ (Finset.range n).erase i, (f j).weight := by
    apply Finset.sum_congr rfl
    intro j hj
    rw [update_of_ne (Finset.ne_of_mem_erase hj)]
  omega

section

variable {cfg : Config} {log : MasterLog} {s : State}

theorem Inv.agents {slave : Slave}
    (hlast : forall i, i < cfg.numApplier -> slave.committedLsa i = 0 ∨
      exists q, log.Committed q ∧ log.applierOf cfg q = i ∧ q.committedLsa = slave.committedLsa i)
    (hstored : Safe cfg log slave.committedLsa slave.requiredLsa) (hpos : 0 < slave.requiredLsa)
    (happlied : forall e, e ∈ slave.applied <->
      exists q, log.Committed q ∧ q.committedLsa <= slave.committedLsa (log.applierOf cfg q) ∧
        log.application q = e) (hnodup : slave.applied.Nodup) :
    Inv cfg log (startAgents slave) where
  served i hi := by
    refine served_start (hlast i hi) ?_
    intro q hq hqi hlt
    have := hq.start_le
    have := hq.repl_lt
    change q.committedLsa < slave.requiredLsa at hlt
    exact hqi ▸ hstored q hq (by omega)
  tracks := ⟨fun _ hmem => (by cases hmem), fun q hq hge hlt => absurd hge (Nat.not_le.mpr hlt)⟩
  started := hstored
  required := hstored
  stored := hstored
  current_le := Nat.le_refl _
  current_pos := hpos
  required_pos := hpos
  stored_pos := hpos
  task := trivial
  applied_iff := happlied
  nodup := hnodup

theorem Inv.start : Inv cfg log (startAgents ⟨[], fun _ => 0, 1⟩) := by
  refine .agents (fun _ _ => .inl rfl) ?_ Nat.one_pos ?_ nodup_nil
  · intro q hq hlt
    have := hq.start_pos
    change q.tranStartLsa < 1 at hlt
    omega
  intro e
  constructor
  · intro h
    cases h
  rintro ⟨q, hq, hle, _⟩
  have := (MasterLog.has_lt hq.commit).1
  change q.committedLsa <= 0 at hle
  omega

theorem Inv.restart (h : Inv cfg log s) : Inv cfg log (startAgents s.slave) :=
  .agents (fun i hi => (h.served i hi).last) h.stored h.stored_pos h.applied_iff h.nodup

/-- A step keeps the invariant and does `done` of the work. -/
def Advances (cfg : Config) (log : MasterLog) (s t : State) (done : Nat) : Prop :=
  Inv cfg log t ∧ work cfg log t + done <= work cfg log s

/-!
## The analyzer
-/

theorem Inv.page (h : Inv cfg log s) (hget : (log.get s.analyzer.finalLsa).isSome = true) :
    Advances cfg log s (next cfg log s .page) 0 := by
  obtain ⟨r, hr⟩ := Option.isSome_iff_exists.mp hget
  exact ⟨{ h with current_le := Nat.le_refl _, current_pos := (MasterLog.lt_of_get hr).1 },
    Nat.le_refl _⟩

variable {i : Nat} {item : QItem}

section

variable (h : Inv cfg log s)
include h

theorem Inv.collect (hi : i < cfg.numApplier) :
    Advances cfg log s (next cfg log s (.collect i)) 0 := by
  have hle := (h.served i hi).committedLsa_le
  rw [next]
  split_ifs
  · exact ⟨h, Nat.le_refl _⟩
  · exact ⟨{ h with tracks := h.tracks.collect hle }, Nat.le_refl _⟩

theorem Inv.lowest : Advances cfg log s (next cfg log s .lowest) 0 := by
  -- The new `required_lsa` is safe; nothing else changes.
  have hset : forall lsa, 0 < lsa -> lsa <= s.analyzer.finalLsa ->
      (forall tran, tran ∈ s.analyzer.tranTable -> lsa <= tran.tranStartLsa) ->
      Advances cfg log s { s with analyzer := { s.analyzer with requiredLsa := lsa } } 0 := by
    intro lsa hpos hle hall
    exact ⟨{ h with required := h.tracks.safe h.started hle hall, required_pos := hpos },
      Nat.le_refl _⟩
  rw [next, updateRequiredLsa]
  split_ifs with hzero hle
  · apply hset _ h.current_pos h.current_le
    intro tran htran
    rw [lowest_eq_zero h.tracks hzero] at htran
    cases htran
  · have hall : forall tran, tran ∈ s.analyzer.tranTable ->
        cirpFindLowestTranStartLsa s.analyzer.tranTable <= tran.tranStartLsa :=
      fun tran htran => lowest_le h.tracks htran
    refine hset _ (Nat.pos_of_ne_zero hzero) ?_ hall
    cases htable : s.analyzer.tranTable with
    | nil =>
      rw [htable] at hzero
      exact absurd rfl hzero
    | cons tran rest =>
      rw [← htable]
      have hmem : tran ∈ s.analyzer.tranTable := htable ▸ mem_cons_self
      exact Nat.le_trans (hall tran hmem) (h.tracks.accurate tran hmem).start_lt.le
  · exact ⟨h, Nat.le_refl _⟩

theorem Inv.store : Advances cfg log s (next cfg log s .store) 0 :=
  ⟨{ h with stored := h.required, stored_pos := h.required_pos }, Nat.le_refl _⟩

theorem Inv.setTask (task : AnalyzerTask)
    (hheld : forall i, i < cfg.numApplier -> task.held i = s.analyzer.task.held i)
    (htask : task.Ok cfg log s.analyzer.finalLsa) :
    Inv cfg log { s with analyzer := { s.analyzer with task := task } } := by
  refine { h with served := fun i hi => ?_, task := htask }
  rw [hheld i hi]
  exact h.served i hi

end

variable {laIndex : Nat}

theorem Inv.drained (h : Inv cfg log s) (htask : s.analyzer.task = .draining item laIndex) :
    Advances cfg log s (next cfg log s .drained) 1 := by
  have hok := h.task
  rw [htask] at hok
  rw [next, htask]
  constructor
  · apply h.setTask
    · intro i _
      rw [htask]
      rfl
    · exact hok
  · rw [work, work, htask]
    simp only [AnalyzerTask.weight]
    omega

theorem Inv.committed (h : Inv cfg log s) (htask : s.analyzer.task = .waiting item laIndex) :
    Advances cfg log s (next cfg log s .committed) 1 := by
  rw [next]
  constructor
  · apply h.setTask
    · intro i _
      rw [htask]
      rfl
    · trivial
  · rw [work, work, htask]
    simp only [AnalyzerTask.weight]
    omega

theorem Inv.analyze (h : Inv cfg log s) (htask : s.analyzer.task = .reading) {lrec : LogRecord}
    (hget : log.get s.analyzer.finalLsa = some lrec) :
    Advances cfg log s (next cfg log s .analyze) 1 := by
  obtain ⟨table, task, hanalyze, htracks, hcomes⟩ := h.tracks.analyze h.started hget htask
  have hlt := (MasterLog.lt_of_get hget).2
  have hheld : forall i, s.analyzer.task.held i = [] := by
    intro i
    rw [htask]
    rfl
  rw [next, hget]
  dsimp only
  rw [hanalyze]
  constructor
  · refine { h with
      served := ?_, tracks := htracks, current_le := Nat.le_succ_of_le h.current_le, task := ?_ }
    · intro i hi
      have hserved := h.served i hi
      rw [hheld i] at hserved
      rcases hcomes with ⟨rfl, hdone⟩ | ⟨item, hitem, hfinal, htask'⟩
      · exact hserved.read fun q hq hqi hq' => hqi ▸ hdone q hq hq'
      have hheld' : task.held i = if log.applierOf cfg item = i then [item] else [] := by
        rw [htask']
        split_ifs <;> simp_all [AnalyzerTask.held]
      rw [hheld']
      split_ifs with happlier
      · exact hserved.come hitem happlier hfinal
      apply hserved.read
      intro q hq hqi hq'
      have heq := hq.eq_of_committedLsa hitem (hq'.trans hfinal.symm)
      exact absurd (heq ▸ hqi) happlier
    · rcases hcomes with ⟨rfl, _⟩ | ⟨item, hitem, hfinal, rfl⟩
      · trivial
      have hholding : Holding cfg log (s.analyzer.finalLsa + 1) item
          (log.applierOf cfg item) := ⟨hitem, rfl, by omega⟩
      split_ifs with hblocked
      · exact ⟨hholding, hblocked⟩
      · exact ⟨hholding, Bool.eq_false_iff.mpr hblocked⟩
  · have hweight : task.weight <= 8 := by
      cases task <;> simp [AnalyzerTask.weight]
    rw [work, work, htask]
    simp only [AnalyzerTask.weight] at hweight ⊢
    omega

/-!
## The appliers
-/

theorem setApplier_self (s : State) (i : Nat) (applier : Applier) :
    (s.setApplier i applier).appliers i = applier :=
  update_self _ _ _

theorem setApplier_ne {j : Nat} (hij : j ≠ i) (s : State) (applier : Applier) :
    (s.setApplier i applier).appliers j = s.appliers j :=
  update_of_ne hij _ _

theorem Inv.setApplier (h : Inv cfg log s) (applier : Applier)
    (hserved : Served cfg log i applier (s.slave.committedLsa i) s.analyzer.finalLsa
      (s.analyzer.task.held i)) :
    Inv cfg log (s.setApplier i applier) := by
  refine { h with served := fun j hj => ?_ }
  rcases eq_or_ne j i with rfl | hne
  · rw [setApplier_self]
    exact hserved
  · rw [setApplier_ne hne]
    exact h.served j hj

theorem work_setApplier (log : MasterLog) (s : State) (hi : i < cfg.numApplier)
    (applier : Applier) :
    work cfg log (s.setApplier i applier) + (s.appliers i).weight =
      work cfg log s + applier.weight := by
  have := sum_update s.appliers hi applier
  rw [work, work]
  simp only [State.setApplier]
  omega

section

variable (h : Inv cfg log s)
include h

theorem Advances.setApplier (hi : i < cfg.numApplier) (applier : Applier) {done : Nat}
    (hserved : Served cfg log i applier (s.slave.committedLsa i) s.analyzer.finalLsa
      (s.analyzer.task.held i)) (hweight : applier.weight + done <= (s.appliers i).weight) :
    Advances cfg log s (s.setApplier i applier) done := by
  refine ⟨h.setApplier applier hserved, ?_⟩
  have := work_setApplier log s hi applier
  omega

theorem Inv.push {waitTranCommit : Bool}
    (htask : s.analyzer.task = .pushing item laIndex waitTranCommit)
    (hfull : (s.appliers laIndex).logq.isFull = false) :
    Advances cfg log s (next cfg log s .push) 1 := by
  have hok := h.task
  rw [htask] at hok
  obtain ⟨⟨hitem, happlier, hfinal⟩, hblocked⟩ := hok
  have hi : laIndex < cfg.numApplier := happlier ▸ hitem.applierOf_lt cfg
  have hserved := h.served laIndex hi
  have hheld : s.analyzer.task.held laIndex = [item] := by
    rw [htask]
    exact if_pos rfl
  rw [hheld] at hserved
  obtain ⟨logq, hpush, hwaiting, hserved'⟩ := hserved.push hfull
  rw [next, htask]
  dsimp only
  rw [hpush]
  let task : AnalyzerTask := if waitTranCommit then .waiting item laIndex else .reading
  have hnone : forall i, task.held i = [] := by
    intro i
    cases waitTranCommit <;> rfl
  constructor
  · refine { h with served := ?_, task := ?_ }
    · intro j hj
      rw [hnone]
      rcases eq_or_ne j laIndex with rfl | hne
      · rw [setApplier_self]
        exact hserved'
      rw [setApplier_ne hne]
      have hother := h.served j hj
      have hheld : s.analyzer.task.held j = [] := by
        rw [htask]
        exact if_neg hne.symm
      rw [hheld] at hother
      exact hother
    · cases waitTranCommit with
      | false => trivial
      | true => exact ⟨⟨hitem, happlier, hfinal⟩, hblocked⟩
  · have hsum := sum_update s.appliers hi
      ⟨logq, (s.appliers laIndex).committedLsa, (s.appliers laIndex).task⟩
    have hweight : weight
        ⟨logq, (s.appliers laIndex).committedLsa, (s.appliers laIndex).task⟩ =
        (s.appliers laIndex).weight + 5 := by
      rw [weight, weight, hwaiting, length_append, length_singleton]
      dsimp only
      omega
    have htaskWeight : task.weight <= 1 := by
      cases waitTranCommit <;> simp [task, AnalyzerTask.weight]
    rw [work, work, htask]
    simp only [State.setApplier]
    change _ + task.weight + _ + 1 <= _ + 7 + _
    omega

section

variable (hi : i < cfg.numApplier)
include hi

theorem Inv.pop (hidle : (s.appliers i).task = .idle) (hne : (s.appliers i).logq.isEmpty = false) :
    Advances cfg log s (next cfg log s (.pop i)) 1 := by
  obtain ⟨item, logq, hpop, hwaiting, hserved⟩ := (h.served i hi).pop hidle hne
  rw [next, hpop]
  apply Advances.setApplier h hi _ hserved
  rw [weight, weight, hidle, hwaiting, length_cons]
  simp only [ApplierTask.weight]
  omega

theorem Inv.clearReplDelay (hidle : (s.appliers i).task = .idle) :
    Advances cfg log s (next cfg log s (.clearReplDelay i)) 0 := by
  have hsynced := (h.served i hi).synced
  rw [hidle] at hsynced
  have hsame : update s.slave.committedLsa i (s.appliers i).committedLsa =
      s.slave.committedLsa := by
    rw [update_eq_self_iff]
    exact hsynced
  rw [next, hsame]
  have hserved := (h.served i hi).clear (.inr hidle)
  rw [← hidle] at hserved
  apply Advances.setApplier h hi _ hserved
  exact Nat.le_refl _

theorem Inv.examine (htask : (s.appliers i).task = .popped item) :
    Advances cfg log s (next cfg log s (.examine i)) 1 := by
  have hserved := h.served i hi
  have hitem := (hserved.genuine item (by rw [pending, htask]; exact mem_cons_self)).1
  have hvalid : ¬ (item.tranStartLsa = 0 ∨ item.committedLsa = 0 ∨ item.replStartLsa = 0) := by
    have := hitem.start_pos
    have := hitem.start_le
    have := hitem.repl_lt
    omega
  rw [next, htask]
  dsimp only
  rw [Replication.examine, if_neg hvalid]
  split_ifs with hle
  · apply Advances.setApplier h hi _ (hserved.skip htask hle)
    rw [weight, weight, htask]
    change 5 * (s.appliers i).logq.waiting.length + 0 + 1 <= _ + 4
    omega
  · apply Advances.setApplier h hi _ (hserved.begin htask (Nat.not_le.mp hle))
    rw [weight, weight, htask]
    simp only [ApplierTask.weight]
    omega

theorem Inv.publish {commitLsa : Nat} (htask : (s.appliers i).task = .flushed commitLsa) :
    Advances cfg log s (next cfg log s (.publish i)) 1 := by
  rw [next, htask]
  apply Advances.setApplier h hi _ ((h.served i hi).publish htask)
  rw [weight, weight, htask]
  simp only [ApplierTask.weight]
  omega

theorem Inv.clear (htask : (s.appliers i).task = .published) :
    Advances cfg log s (next cfg log s (.clear i)) 1 := by
  rw [next]
  apply Advances.setApplier h hi _ ((h.served i hi).clear (.inl htask))
  rw [weight, weight, htask]
  change 5 * (s.appliers i).logq.waiting.length + 0 + 1 <= _ + 1
  omega

theorem Inv.apply (htask : (s.appliers i).task = .applying item) :
    next cfg log s (.apply i) =
        cirpApplCommitTransaction s i item (log.rows item.trid) item.committedLsa ∧
      Advances cfg log s (next cfg log s (.apply i)) 1 := by
  obtain ⟨hitem, happlier, _, hstored, hbefore⟩ := (h.served i hi).applying htask
  have hnext : next cfg log s (.apply i) =
      cirpApplCommitTransaction s i item (log.rows item.trid) item.committedLsa := by
    rw [next, htask]
    dsimp only
    rw [applierRead_eq hitem]
  have hle : forall j, s.slave.committedLsa j <=
      update s.slave.committedLsa i item.committedLsa j := by
    intro j
    rcases eq_or_ne j i with rfl | hne
    · rw [update_self]
      omega
    · rw [update_of_ne hne]
  refine ⟨hnext, ?_⟩
  rw [hnext]
  constructor
  · refine ⟨?_, h.tracks.mono hle, h.started.mono hle, h.required.mono hle, h.stored.mono hle,
      h.current_le, h.current_pos, h.required_pos, h.stored_pos, h.task, ?_, ?_⟩
    · intro j hj
      change Served cfg log j ((s.setApplier i _).appliers j)
        (update s.slave.committedLsa i item.committedLsa j) s.analyzer.finalLsa
        (s.analyzer.task.held j)
      rcases eq_or_ne j i with rfl | hne
      · rw [setApplier_self, update_self]
        exact (h.served j hj).flush htask
      · rw [setApplier_ne hne, update_of_ne hne]
        exact h.served j hj
    · intro e
      change e ∈ s.slave.applied ++ [log.application item] <-> exists q, log.Committed q ∧
        q.committedLsa <= update s.slave.committedLsa i item.committedLsa
          (log.applierOf cfg q) ∧ log.application q = e
      rw [mem_append, mem_singleton, h.applied_iff]
      constructor
      · rintro (⟨q, hq, hdone, heq⟩ | rfl)
        · exact ⟨q, hq, Nat.le_trans hdone (hle _), heq⟩
        · refine ⟨item, hitem, ?_, rfl⟩
          rw [happlier, update_self]
      rintro ⟨q, hq, hdone, heq⟩
      rcases eq_or_ne (log.applierOf cfg q) i with hqi | hne
      · rw [hqi, update_self] at hdone
        rcases Nat.lt_or_eq_of_le hdone with hlt | hlsa
        · exact .inl ⟨q, hq, hqi ▸ hbefore q hq hqi hlt, heq⟩
        · exact .inr (hq.eq_of_committedLsa hitem hlsa ▸ heq.symm)
      · rw [update_of_ne hne] at hdone
        exact .inl ⟨q, hq, hdone, heq⟩
    · change (s.slave.applied ++ [log.application item]).Nodup
      rw [nodup_append]
      refine ⟨h.nodup, nodup_singleton _, ?_⟩
      intro e he e' he' heq
      rw [mem_singleton] at he'
      obtain ⟨q, hq, hdone, hqe⟩ := (h.applied_iff e).mp he
      have htrid : q.trid = item.trid := by
        have happ : log.application q = log.application item := by rw [hqe, heq, he']
        exact congrArg Applied.trid happ
      rw [hq.eq_of_trid hitem htrid, happlier] at hdone
      omega
  · have hwork := work_setApplier log s hi
      ⟨(s.appliers i).logq, (s.appliers i).committedLsa, .flushed item.committedLsa⟩
    have hold : (s.appliers i).weight = 5 * (s.appliers i).logq.waiting.length + 3 := by
      rw [weight, htask]
      rfl
    have hnew : weight
        ⟨(s.appliers i).logq, (s.appliers i).committedLsa, .flushed item.committedLsa⟩ =
        5 * (s.appliers i).logq.waiting.length + 2 := rfl
    change work cfg log (s.setApplier i
      ⟨(s.appliers i).logq, (s.appliers i).committedLsa, .flushed item.committedLsa⟩) + 1 <= _
    omega

end

end

/-!
## Runs
-/

theorem Inv.next (h : Inv cfg log s) {label : Label} (hen : enabled cfg log s label = true)
    (hcrash : label ≠ .crash) :
    Advances cfg log s (next cfg log s label) (if label.isWork then 1 else 0) := by
  cases label with
  | page =>
    rw [enabled, Bool.and_eq_true, beq_iff_eq] at hen
    exact h.page hen.2
  | analyze =>
    rw [enabled, Bool.and_eq_true, beq_iff_eq] at hen
    obtain ⟨lrec, hget⟩ := Option.isSome_iff_exists.mp hen.2
    exact h.analyze hen.1 hget
  | drained =>
    rw [enabled] at hen
    split at hen
    · exact h.drained ‹_›
    · cases hen
  | push =>
    rw [enabled] at hen
    split at hen
    · rw [Bool.not_eq_true'] at hen
      exact h.push ‹_› hen
    · cases hen
  | committed =>
    rw [enabled] at hen
    split at hen
    · exact h.committed ‹_›
    · cases hen
  | collect i =>
    rw [enabled, Bool.and_eq_true, decide_eq_true_iff] at hen
    exact h.collect hen.2
  | lowest => exact h.lowest
  | store => exact h.store
  | pop i =>
    rw [enabled, Bool.and_eq_true, Bool.and_eq_true, decide_eq_true_iff, beq_iff_eq,
      Bool.not_eq_true'] at hen
    exact h.pop hen.1.1 hen.1.2 hen.2
  | clearReplDelay i =>
    rw [enabled, Bool.and_eq_true, Bool.and_eq_true, decide_eq_true_iff, beq_iff_eq] at hen
    exact h.clearReplDelay hen.1.1 hen.1.2
  | examine i =>
    rw [enabled, Bool.and_eq_true, decide_eq_true_iff] at hen
    obtain ⟨hi, hen⟩ := hen
    split at hen
    · exact h.examine hi ‹_›
    · cases hen
  | apply i =>
    rw [enabled, Bool.and_eq_true, decide_eq_true_iff] at hen
    obtain ⟨hi, hen⟩ := hen
    split at hen
    · exact (h.apply hi ‹_›).2
    · cases hen
  | publish i =>
    rw [enabled, Bool.and_eq_true, decide_eq_true_iff] at hen
    obtain ⟨hi, hen⟩ := hen
    split at hen
    · exact h.publish hi ‹_›
    · cases hen
  | clear i =>
    rw [enabled, Bool.and_eq_true, decide_eq_true_iff, beq_iff_eq] at hen
    exact h.clear hen.1 hen.2
  | crash => exact absurd rfl hcrash

theorem Inv.step (h : Inv cfg log s) {label : Label} (hen : enabled cfg log s label = true) :
    Inv cfg log (Replication.next cfg log s label) := by
  by_cases hcrash : label = .crash
  · subst hcrash
    exact h.restart
  · exact (h.next hen hcrash).1

theorem inv_of_reachable {run : Run} (h : (replication cfg log).Reachable run) :
    Inv cfg log run.code := by
  refine h.invariant (fun run => Inv cfg log run.code) ?_ ?_
  · rintro _ rfl
    exact Inv.start
  · rintro run label _ hinv ⟨hen, rfl⟩
    exact hinv.step hen

theorem work_bound {run : Run} (h : Inv cfg log run.code) {labels : List Label}
    (hrun : System.Follows (fun run label => enabled cfg log run.code label = true)
      (Run.next cfg log) run labels) (hcrash : .crash ∉ labels) :
    Inv cfg log (labels.foldl (Run.next cfg log) run).code ∧
      labels.countP Label.isWork <= work cfg log run.code := by
  induction labels generalizing run with
  | nil => exact ⟨h, Nat.zero_le _⟩
  | cons label labels ih =>
    obtain ⟨hen, hrun⟩ := hrun
    rw [mem_cons, not_or] at hcrash
    obtain ⟨hnext, hwork⟩ := h.next hen (Ne.symm hcrash.1)
    obtain ⟨hinv, hcount⟩ := ih hnext hrun hcrash.2
    refine ⟨hinv, ?_⟩
    rw [countP_cons]
    change _ <= work cfg log (Replication.next cfg log run.code label) at hcount
    omega

/-!
## Nothing left to do
-/

theorem Inv.applier_stuck (h : Inv cfg log s)
    (hstuck : forall label, label.isWork = true -> enabled cfg log s label = false)
    (hi : i < cfg.numApplier) : (s.appliers i).task = .idle ∧ (s.appliers i).logq.waiting = [] := by
  have hserved := h.served i hi
  have hdecide : decide (i < cfg.numApplier) = true := decide_eq_true hi
  have hidle : (s.appliers i).task = .idle := by
    cases htask : (s.appliers i).task with
    | idle => rfl
    | popped item =>
      have := hstuck (.examine i) rfl
      rw [enabled, hdecide, htask] at this
      cases this
    | applying item =>
      have := hstuck (.apply i) rfl
      rw [enabled, hdecide, htask] at this
      simp only [Bool.true_and] at this
      rw [applierRead_eq (hserved.applying htask).1] at this
      cases this
    | flushed commitLsa =>
      have := hstuck (.publish i) rfl
      rw [enabled, hdecide, htask] at this
      cases this
    | published =>
      have := hstuck (.clear i) rfl
      rw [enabled, hdecide, htask] at this
      cases this
  refine ⟨hidle, ?_⟩
  have hpop := hstuck (.pop i) rfl
  have hbeq : ((s.appliers i).task == .idle) = true := beq_iff_eq.mpr hidle
  rw [enabled, hdecide, hbeq, Bool.true_and, Bool.true_and, Bool.not_eq_false'] at hpop
  exact hserved.holds.isEmpty_iff.mp hpop

/-- An idle applier with an empty queue has stored everything that is not with the analyzer. -/
theorem Served.done {applier : Applier} {stored final : Nat} {own : List QItem}
    (h : Served cfg log i applier stored final own) (hidle : applier.task = .idle)
    (hempty : applier.logq.waiting = []) {q : QItem} (hq : log.Committed q)
    (hqi : log.applierOf cfg q = i) (hlt : q.committedLsa < final) (hown : q ∉ own) :
    q.committedLsa <= stored := by
  rcases h.complete q hq hqi hlt with hdone | hmem
  · exact hdone
  · rw [pending, hidle, hempty] at hmem
    exact absurd hmem hown

theorem Inv.analyzer_stuck (h : Inv cfg log s)
    (hstuck : forall label, label.isWork = true -> enabled cfg log s label = false) :
    s.analyzer.task = .reading ∧ log.records.length < s.analyzer.finalLsa := by
  have happliers : forall i, i < cfg.numApplier ->
      (s.appliers i).task = .idle ∧ (s.appliers i).logq.waiting = [] :=
    fun i hi => h.applier_stuck hstuck hi
  have hok := h.task
  have hreading : s.analyzer.task = .reading := by
    cases htask : s.analyzer.task with
    | reading => rfl
    | draining item laIndex =>
      have hdrained := hstuck .drained rfl
      rw [enabled, htask] at hdrained
      simp only [Bool.not_eq_false', cirpAnlzIsAnyApplierBusy, any_eq_true, mem_range,
        Bool.and_eq_true, cirpAnalyzerIsApplierBusy, Bool.not_eq_true'] at hdrained
      obtain ⟨i, hi, _, hbusy⟩ := hdrained
      have hholds := (h.served i hi).holds
      have hempty := hholds.isCommittedAndEmpty_iff.mpr
        ⟨by rw [(happliers i hi).1]; rfl, (happliers i hi).2⟩
      rw [hempty] at hbusy
      cases hbusy
    | pushing item laIndex waitTranCommit =>
      rw [htask] at hok
      have hi : laIndex < cfg.numApplier := hok.1.2.1 ▸ hok.1.1.applierOf_lt cfg
      have hpush := hstuck .push rfl
      rw [enabled, htask] at hpush
      simp only [Bool.not_eq_false'] at hpush
      have hholds := (h.served laIndex hi).holds
      have hfull := hholds.isFull_iff.mp hpush
      rw [(happliers laIndex hi).1, (happliers laIndex hi).2] at hfull
      cases hfull
    | waiting item laIndex =>
      rw [htask] at hok
      obtain ⟨⟨hitem, happlier, hfinal⟩, _⟩ := hok
      have hi : laIndex < cfg.numApplier := happlier ▸ hitem.applierOf_lt cfg
      have hcommitted := hstuck .committed rfl
      rw [enabled, htask] at hcommitted
      simp only [decide_eq_false_iff_not] at hcommitted
      have hserved := h.served laIndex hi
      have hsynced := hserved.synced
      rw [(happliers laIndex hi).1] at hsynced
      have hdone := hserved.done (happliers laIndex hi).1 (happliers laIndex hi).2 hitem happlier
        (by omega) (by rw [htask]; exact not_mem_nil)
      have hsame : (s.appliers laIndex).committedLsa = s.slave.committedLsa laIndex := hsynced
      have := hitem.repl_lt
      omega
  refine ⟨hreading, ?_⟩
  have hanalyze := hstuck .analyze rfl
  have hbeq : (s.analyzer.task == .reading) = true := beq_iff_eq.mpr hreading
  rw [enabled, hbeq, Bool.true_and] at hanalyze
  by_contra hle
  have hpos : 0 < s.analyzer.finalLsa := Nat.lt_of_lt_of_le h.current_pos h.current_le
  obtain ⟨k, hk⟩ := Nat.exists_eq_add_of_lt hpos
  have hget : (log.get s.analyzer.finalLsa).isSome = true := by
    rw [hk, Nat.zero_add, MasterLog.get, recordAt,
      getElem?_eq_getElem (show k < log.records.length by omega)]
    rfl
  rw [hget] at hanalyze
  cases hanalyze

theorem Inv.all_applied (h : Inv cfg log s)
    (hstuck : forall label, label.isWork = true -> enabled cfg log s label = false) {q : QItem}
    (hq : log.Committed q) : log.application q ∈ s.slave.applied := by
  obtain ⟨hreading, hfinal⟩ := h.analyzer_stuck hstuck
  have hi := hq.applierOf_lt cfg
  obtain ⟨hidle, hempty⟩ := h.applier_stuck hstuck hi
  have hlt := (MasterLog.has_lt hq.commit).2
  refine (h.applied_iff _).mpr ⟨q, hq, ?_, rfl⟩
  refine (h.served _ hi).done hidle hempty hq rfl (by omega) ?_
  rw [hreading]
  exact not_mem_nil

end

/-- A committed transaction of the master that has replication records. -/
def MasterLog.Replicated (log : MasterLog) (trid : Int) : Prop :=
  0 < trid ∧ (exists lsa, log.has trid RecType.isCommit lsa = true) ∧
    exists lsa, log.has trid RecType.isReplication lsa = true

variable {log : MasterLog}

theorem MasterLog.exists_first {trid : Int} {p : RecType -> Bool}
    (h : exists lsa, log.has trid p lsa = true) : exists lsa, log.First trid p lsa := by
  refine ⟨Nat.find h, Nat.find_spec h, ?_⟩
  intro l hl
  exact Bool.eq_false_iff.mpr (Nat.find_min h hl)

theorem MasterLog.Replicated.committed {trid : Int} (h : log.Replicated trid) :
    exists q, log.Committed q ∧ q.trid = trid := by
  obtain ⟨hpos, ⟨c, hcommit⟩, hrepl⟩ := h
  obtain ⟨start, hstart⟩ := exists_first (p := fun _ => true) ⟨c, has_any hcommit⟩
  obtain ⟨repl, hrepl⟩ := exists_first hrepl
  exact ⟨⟨trid, start, c, repl⟩, ⟨hpos, hstart, hrepl, hcommit⟩, rfl⟩

theorem MasterLog.Committed.replicated {q : QItem} (h : log.Committed q) : log.Replicated q.trid :=
  ⟨h.pos, ⟨_, h.commit⟩, ⟨_, h.repl.1⟩⟩

/-- In every run, with restarts at any points: the slave has each transaction at most once and
only committed ones, each with all its replication records; no `required_lsa`, in memory or
stored, is past the first record of a transaction that the slave does not have; and from every
state on, as long as there is no further restart, the number of steps that do work is bounded and
when no such step is possible every transaction has been applied. -/
theorem replicated_exactly_once (cfg : Config) (log : MasterLog) {run : Run}
    (h : (replication cfg log).Reachable run) :
    (run.code.slave.applied.map Applied.trid).Nodup ∧
    (forall e, e ∈ run.code.slave.applied -> log.Replicated e.trid ∧
      e.rows = log.rows e.trid ∧ log.has e.trid RecType.isCommit e.commitLsa = true) ∧
    (forall trid lsa, log.has trid (fun type => type == .abort) lsa = true ->
      trid ∉ run.code.slave.applied.map Applied.trid) ∧
    (forall trid lsa, log.Replicated trid -> trid ∉ run.code.slave.applied.map Applied.trid ->
      log.First trid (fun _ => true) lsa ->
      run.code.analyzer.requiredLsa <= lsa ∧ run.code.slave.requiredLsa <= lsa) ∧
    exists bound, forall labels,
      System.Follows (fun run label => enabled cfg log run.code label = true)
        (Run.next cfg log) run labels -> .crash ∉ labels ->
      labels.countP Label.isWork <= bound ∧
      ((forall label, label.isWork = true ->
          enabled cfg log (labels.foldl (Run.next cfg log) run).code label = false) ->
        forall trid, log.Replicated trid ->
          trid ∈ (labels.foldl (Run.next cfg log) run).code.slave.applied.map Applied.trid) := by
  have hinv := inv_of_reachable h
  have hcommitted : forall e, e ∈ run.code.slave.applied ->
      exists q, log.Committed q ∧ log.application q = e := by
    intro e he
    obtain ⟨q, hq, _, heq⟩ := (hinv.applied_iff e).mp he
    exact ⟨q, hq, heq⟩
  refine ⟨?_, ?_, ?_, ?_, work cfg log run.code, ?_⟩
  · refine hinv.nodup.map_on ?_
    intro e he e' he' htrid
    obtain ⟨q, hq, rfl⟩ := hcommitted e he
    obtain ⟨q', hq', rfl⟩ := hcommitted e' he'
    rw [hq.eq_of_trid hq' htrid]
  · intro e he
    obtain ⟨q, hq, rfl⟩ := hcommitted e he
    exact ⟨hq.replicated, rfl, hq.commit⟩
  · intro trid lsa habort hmem
    obtain ⟨e, he, htrid⟩ := mem_map.mp hmem
    obtain ⟨q, hq, rfl⟩ := hcommitted e he
    obtain ⟨r, hr, hr', htype⟩ := MasterLog.has_iff.mp habort
    exact no_committed_of_abort hr (beq_iff_eq.mp htype) hq (htrid.trans hr'.symm)
  · intro trid lsa hreplicated hmem hfirst
    obtain ⟨q, hq, rfl⟩ := hreplicated.committed
    have hsafe : forall required, Safe cfg log run.code.slave.committedLsa required ->
        required <= lsa := by
      intro required hsafe
      by_contra hlt
      have hstart := hq.start.unique hfirst
      have hdone := hsafe q hq (by omega)
      exact hmem (mem_map.mpr
        ⟨log.application q, (hinv.applied_iff _).mpr ⟨q, hq, hdone, rfl⟩, rfl⟩)
    exact ⟨hsafe _ hinv.required, hsafe _ hinv.stored⟩
  · intro labels hrun hcrash
    obtain ⟨hinv', hcount⟩ := work_bound hinv hrun hcrash
    refine ⟨hcount, ?_⟩
    intro hstuck trid hreplicated
    obtain ⟨q, hq, rfl⟩ := hreplicated.committed
    exact mem_map.mpr ⟨_, hinv'.all_applied hstuck hq, rfl⟩

/-- Transaction 1 changes a global row, transaction 2 changes a row of group 5 and is aborted. -/
def abortedTail : MasterLog where
  records := [⟨1, 0, .replicationData ⟨0, false, 0, []⟩⟩,
    ⟨2, 0, .replicationData ⟨5, false, 0, [97]⟩⟩, ⟨1, 1, .commit⟩, ⟨2, 2, .abort⟩]
  trid_nonneg := by decide
  prev_lt := by decide
  first_iff := by decide
  ended := by decide
  serverState := by decide

/-- A restart between the commit on the slave and the update of the applier's copy: the log is
read once more, and the transaction is recognized. -/
theorem replicated_exactly_once_restarted :
    let run := [.analyze, .analyze, .analyze, .drained, .push, .pop 1, .examine 1, .apply 1,
      .crash, .page, .analyze, .analyze, .analyze, .drained, .push, .pop 1, .examine 1,
      .committed, .collect 1, .lowest, .store].foldl
        (Run.next ⟨.utf8Binary, 2, by decide⟩ abortedTail) Run.start
    run.code.slave.applied.map Applied.trid = [1] ∧
      (forall trid lsa, abortedTail.has trid (fun type => type == .abort) lsa = true ->
        trid ∉ run.code.slave.applied.map Applied.trid) :=
  ⟨by decide +kernel, (replicated_exactly_once ⟨.utf8Binary, 2, by decide⟩ abortedTail
      (System.reachable_of_follows _ (by decide +kernel))).2.2.1⟩

end Rye.Replication
