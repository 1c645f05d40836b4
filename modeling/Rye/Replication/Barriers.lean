import Rye.Replication.ExactlyOnce

/-!
# Replication barriers

A transaction whose first replication record is a row of a global table or a blocked schema
change is a barrier.  The analyzer waits until the data appliers have nothing left before it
queues the transaction, and then waits until the `committed_lsa` of its applier is past the
transaction's first replication record.

The first wait keeps earlier transactions before the barrier.  The second one ends as soon as the
applier has committed any transaction behind that record, which need not be the barrier.
-/

namespace Rye.Replication

open Foundation List Function Applier State MasterLog

/-- Whenever `f` happened, `e` had happened before. -/
def Precedes (events : List Event) (e f : Event) : Prop :=
  forall pre post, events = pre ++ f :: post -> e ∈ pre

theorem precedes_nil (e f : Event) : Precedes [] e f := by
  intro pre post h
  cases pre <;> cases h

theorem Precedes.append {events : List Event} {e f : Event} (h : Precedes events e f)
    {new : Event} (hnew : new = f -> e ∈ events) : Precedes (events ++ [new]) e f := by
  intro pre post heq
  rcases eq_nil_or_concat post with rfl | ⟨post, last, rfl⟩
  · obtain ⟨rfl, hf⟩ := append_inj' heq rfl
    exact hnew (singleton_inj.mp hf)
  · have hsplit : events ++ [new] = (pre ++ f :: post) ++ [last] := by
      rw [heq, append_assoc, cons_append, concat_eq_append]
    exact h pre post (append_inj' hsplit rfl).1

/-- The items that have been pushed to applier `i` and are not applied. -/
def State.queued (s : State) (i : Nat) : List QItem :=
  (s.appliers i).pending []

def AnalyzerTask.item : AnalyzerTask -> Option QItem
  | .reading => none
  | .draining item _ | .pushing item _ _ | .waiting item _ => some item

section

variable {cfg : Config} {log : MasterLog} {s : State} {q item : QItem} {laIndex : Nat} {run : Run}

theorem queued_setApplier {i : Nat} {applier : Applier}
    (h : forall q, q ∈ applier.pending [] -> q ∈ s.queued i) {j : Nat}
    (hq : q ∈ (s.setApplier i applier).queued j) : q ∈ s.queued j := by
  rw [queued] at hq
  rcases eq_or_ne j i with rfl | hne
  · rw [setApplier_self] at hq
    exact h q hq
  · rw [setApplier_ne hne] at hq
    exact hq

theorem queued_startAgents (slave : Slave) (i : Nat) : (startAgents slave).queued i = [] := by
  rw [queued, pending]
  change [] ++ TranQ.empty.waiting ++ [] = []
  rw [TranQ.holds_empty.waiting_eq]
  rfl

/-!
## What a step does
-/

/-- What is stored on the slave, and what happens to a transaction. -/
inductive Happens (cfg : Config) (log : MasterLog) (s : State) : State -> List Event -> Prop where
  | nothing {t : State} :
      t.slave.committedLsa = s.slave.committedLsa -> Happens cfg log s t []
  | began {t : State} {i : Nat} {item : QItem} :
      i < cfg.numApplier -> (s.appliers i).task = .popped item ->
      t.slave.committedLsa = s.slave.committedLsa ->
      Happens cfg log s t [.began item.committedLsa]
  | applied {t : State} {i : Nat} {item : QItem} :
      i < cfg.numApplier -> (s.appliers i).task = .applying item ->
      t.slave.committedLsa = Function.update s.slave.committedLsa i item.committedLsa ->
      Happens cfg log s t [.applied item.committedLsa]

/-- A step moves the analyzer, or it is one of an applier and leaves the analyzer where it is. -/
inductive Moved (cfg : Config) (log : MasterLog) (s : State) : State -> List Event -> Prop where
  | restart : Moved cfg log s (startAgents s.slave) []
  | analyzed {analyzer : Analyzer} :
      s.analyzer.task = .reading -> analyzer.finalLsa = s.analyzer.finalLsa + 1 ->
      Comes cfg log s.slave.committedLsa s.analyzer.finalLsa analyzer.task ->
      Moved cfg log s { s with analyzer := analyzer } []
  | drained {item : QItem} {laIndex : Nat} :
      s.analyzer.task = .draining item laIndex -> cirpAnlzIsAnyApplierBusy cfg s = false ->
      Moved cfg log s
        { s with analyzer := { s.analyzer with task := .pushing item laIndex true } } []
  | pushed {item : QItem} {laIndex : Nat} {waitTranCommit : Bool} {applier : Applier} :
      s.analyzer.task = .pushing item laIndex waitTranCommit ->
      (forall q, q ∈ applier.pending [] -> q ∈ s.queued laIndex ∨ q = item) ->
      Moved cfg log s { s.setApplier laIndex applier with
        analyzer := { s.analyzer with
          task := if waitTranCommit then .waiting item laIndex else .reading } } []
  | waited {item : QItem} {laIndex : Nat} :
      s.analyzer.task = .waiting item laIndex ->
      item.replStartLsa < (s.appliers laIndex).committedLsa ->
      Moved cfg log s { s with analyzer := { s.analyzer with task := .reading } } []
  | served {t : State} {events : List Event} :
      t.analyzer.task = s.analyzer.task -> t.analyzer.finalLsa = s.analyzer.finalLsa ->
      (forall i q, q ∈ t.queued i -> q ∈ s.queued i) -> Happens cfg log s t events ->
      Moved cfg log s t events

variable {label : Label} {t : State} {events : List Event}

theorem Moved.happens (h : Moved cfg log s t events) : Happens cfg log s t events := by
  cases h with
  | served _ _ _ h => exact h
  | _ => exact .nothing rfl

theorem Moved.setApplier {i : Nat} {applier : Applier}
    (h : forall q, q ∈ applier.pending [] -> q ∈ s.queued i)
    (hhappens : Happens cfg log s (s.setApplier i applier) events) :
    Moved cfg log s (s.setApplier i applier) events :=
  .served rfl rfl (fun _ _ hq => queued_setApplier h hq) hhappens

theorem moved_next (h : Inv cfg log s) (hen : enabled cfg log s label = true) :
    Moved cfg log s (next cfg log s label) (newEvents s (next cfg log s label) label) := by
  cases label with
  | page | store => exact .served rfl rfl (fun _ _ hq => hq) (.nothing rfl)
  | crash => exact .restart
  | analyze =>
    rw [enabled, Bool.and_eq_true, beq_iff_eq] at hen
    obtain ⟨lrec, hget⟩ := Option.isSome_iff_exists.mp hen.2
    obtain ⟨table, task, hanalyze, _, hcomes⟩ := h.tracks.analyze h.started hget hen.1
    rw [next, hget]
    dsimp only
    rw [hanalyze]
    exact .analyzed hen.1 rfl hcomes
  | drained =>
    rw [enabled] at hen
    split at hen
    · rename_i item laIndex htask
      rw [next, htask]
      exact .drained htask (Bool.not_eq_true' _ ▸ hen)
    · cases hen
  | push =>
    rw [enabled] at hen
    split at hen
    · rename_i item laIndex waitTranCommit htask
      rw [Bool.not_eq_true'] at hen
      have hok := h.task
      rw [htask] at hok
      have hi : laIndex < cfg.numApplier := hok.1.2.1 ▸ hok.1.1.applierOf_lt cfg
      obtain ⟨logq, hpush, hholds⟩ := (h.served laIndex hi).holds.push item hen
      rw [next, htask]
      dsimp only
      rw [hpush]
      refine .pushed htask fun q hq => ?_
      rw [pending, hholds.waiting_eq, append_nil, ← append_assoc, mem_append, mem_singleton] at hq
      rwa [queued, pending, append_nil]
    · cases hen
  | committed =>
    rw [enabled] at hen
    split at hen
    · rename_i item laIndex htask
      exact .waited htask (decide_eq_true_iff.mp hen)
    · cases hen
  | collect j =>
    rw [next]
    split_ifs <;> exact .served rfl rfl (fun _ _ hq => hq) (.nothing rfl)
  | lowest =>
    have hsame : (updateRequiredLsa s.analyzer).task = s.analyzer.task ∧
        (updateRequiredLsa s.analyzer).finalLsa = s.analyzer.finalLsa := by
      unfold updateRequiredLsa
      dsimp only
      split_ifs <;> exact ⟨rfl, rfl⟩
    exact .served hsame.1 hsame.2 (fun _ _ hq => hq) (.nothing rfl)
  | pop j =>
    rw [enabled, Bool.and_eq_true, Bool.and_eq_true, decide_eq_true_iff, beq_iff_eq,
      Bool.not_eq_true'] at hen
    obtain ⟨item, logq, hpop, hwaiting, _⟩ := (h.served j hen.1.1).pop hen.1.2 hen.2
    rw [next, hpop]
    refine .setApplier (fun q hq => ?_) (.nothing rfl)
    rw [queued, pending, hen.1.2, hwaiting]
    exact hq
  | clearReplDelay j =>
    rw [enabled, Bool.and_eq_true, Bool.and_eq_true, decide_eq_true_iff, beq_iff_eq] at hen
    have hsynced := (h.served j hen.1.1).synced
    rw [hen.1.2] at hsynced
    refine .served rfl rfl (fun i q hq => ?_) (.nothing (update_eq_self_iff.mpr hsynced))
    refine queued_setApplier ?_ hq
    exact fun _ hq => hq
  | examine j =>
    rw [enabled, Bool.and_eq_true, decide_eq_true_iff] at hen
    obtain ⟨hj, hen⟩ := hen
    split at hen
    · rename_i item htask
      rw [next, htask]
      dsimp only
      rw [examine]
      split_ifs
      · exact .restart
      · rw [newEvents, setApplier_self]
        refine .setApplier (fun q hq => ?_) (.nothing rfl)
        rw [queued, pending, htask]
        exact mem_cons_of_mem _ hq
      · rw [newEvents, setApplier_self]
        refine .setApplier (fun q hq => ?_) (.began hj htask rfl)
        rw [queued, pending, htask]
        exact hq
    · cases hen
  | apply j =>
    rw [enabled, Bool.and_eq_true, decide_eq_true_iff] at hen
    obtain ⟨hj, hen⟩ := hen
    split at hen
    · rename_i item htask
      have hevents : newEvents s
          (cirpApplCommitTransaction s j item (log.rows item.trid) item.committedLsa)
          (.apply j) = [.applied item.committedLsa] := by
        rw [newEvents, cirpApplCommitTransaction, drop_left]
        rfl
      rw [(h.apply hj htask).1, hevents]
      refine .served rfl rfl (fun _ _ hq => ?_) (.applied hj htask rfl)
      refine queued_setApplier (fun q hq => ?_) hq
      rw [queued, pending, htask]
      exact mem_cons_of_mem _ hq
    · cases hen
  | publish j =>
    rw [enabled, Bool.and_eq_true] at hen
    obtain ⟨_, hen⟩ := hen
    split at hen
    · rename_i commitLsa htask
      rw [next, htask]
      refine .setApplier (fun q hq => ?_) (.nothing rfl)
      rw [queued, pending, htask]
      exact hq
    · cases hen
  | clear j =>
    rw [enabled, Bool.and_eq_true, decide_eq_true_iff, beq_iff_eq] at hen
    refine .setApplier (fun q hq => ?_) (.nothing rfl)
    rw [queued, pending, hen.2]
    exact hq

theorem Moved.mem_queued (h : Moved cfg log s t events) {i : Nat} (hq : q ∈ t.queued i) :
    q ∈ s.queued i ∨ exists laIndex waitTranCommit,
      s.analyzer.task = .pushing q laIndex waitTranCommit := by
  cases h with
  | restart =>
    rw [queued_startAgents] at hq
    cases hq
  | analyzed | drained | waited => exact .inl hq
  | served _ _ hqueued _ => exact .inl (hqueued i q hq)
  | @pushed item laIndex waitTranCommit applier htask hpending =>
    rcases eq_or_ne i laIndex with rfl | hne
    · rw [queued, setApplier_self] at hq
      rcases hpending q hq with hq | rfl
      · exact .inl hq
      · exact .inr ⟨_, _, htask⟩
    · rw [queued, setApplier_ne hne] at hq
      exact .inl hq

theorem Happens.committedLsa_le (h : Happens cfg log s t events) (hinv : Inv cfg log s) (i : Nat) :
    s.slave.committedLsa i <= t.slave.committedLsa i := by
  cases h with
  | nothing hsame | began _ _ hsame => rw [hsame]
  | @applied j item hj htask hupdate =>
    have hlt := ((hinv.served j hj).applying htask).2.2.2.1
    rw [hupdate]
    rcases eq_or_ne i j with rfl | hne
    · rw [update_self]
      omega
    · rw [update_of_ne hne]

/-!
## Earlier transactions
-/

/-- Every transaction of a data applier that commits before `q` has been applied. -/
def Drained (cfg : Config) (log : MasterLog) (s : State) (q : QItem) : Prop :=
  forall q', log.Committed q' -> globalApplierIndex <= log.applierOf cfg q' ->
    q'.committedLsa < q.committedLsa ->
    q'.committedLsa <= s.slave.committedLsa (log.applierOf cfg q')

/-- The barriers that are queued, or about to be pushed, have been waited for. -/
structure Fenced (cfg : Config) (log : MasterLog) (s : State) : Prop where
  queued : forall i, i < cfg.numApplier -> forall q, q ∈ s.queued i ->
    log.isBlocked cfg q = true -> Drained cfg log s q
  pushing : forall item laIndex, s.analyzer.task = .pushing item laIndex true ->
    Drained cfg log s item

theorem Drained.mono (h : Drained cfg log s q) {t : State}
    (hle : forall i, s.slave.committedLsa i <= t.slave.committedLsa i) : Drained cfg log t q :=
  fun q' hq' hdata hlt => Nat.le_trans (h q' hq' hdata hlt) (hle _)

/-- When no data applier is busy, everything before the transaction has been applied. -/
theorem Inv.drained_of_not_busy (h : Inv cfg log s)
    (htask : s.analyzer.task = .draining item laIndex)
    (hbusy : cirpAnlzIsAnyApplierBusy cfg s = false) : Drained cfg log s item := by
  have hok := h.task
  rw [htask] at hok
  obtain ⟨⟨hitem, _, hfinal⟩, _⟩ := hok
  intro q hq hdata hlt
  have hi := hq.applierOf_lt cfg
  have hserved := h.served _ hi
  have hnot : (s.appliers (log.applierOf cfg q)).logq.isCommittedAndEmpty = true := by
    rw [cirpAnlzIsAnyApplierBusy, any_eq_false] at hbusy
    have := hbusy _ (mem_range.mpr hi)
    rw [decide_eq_true hdata, Bool.true_and, cirpAnalyzerIsApplierBusy, Bool.not_eq_true',
      Bool.not_eq_false] at this
    exact this
  obtain ⟨hkept, hempty⟩ := hserved.holds.isCommittedAndEmpty_iff.mp hnot
  have hidle : (s.appliers (log.applierOf cfg q)).task = .idle := by
    cases hcase : (s.appliers (log.applierOf cfg q)).task with
    | idle => rfl
    | _ =>
      rw [hcase] at hkept
      cases hkept
  refine hserved.done hidle hempty hq rfl (by omega) ?_
  intro hmem
  rw [htask] at hmem
  change q ∈ (if laIndex = log.applierOf cfg q then [item] else []) at hmem
  split_ifs at hmem with hsame
  · rw [mem_singleton] at hmem
    rw [hmem] at hlt
    omega
  · cases hmem

theorem Moved.task_pushing (h : Moved cfg log s t events)
    (htask : t.analyzer.task = .pushing item laIndex true) :
    s.analyzer.task = .pushing item laIndex true ∨
      (s.analyzer.task = .draining item laIndex ∧ cirpAnlzIsAnyApplierBusy cfg s = false) := by
  cases h with
  | restart | waited => cases htask
  | analyzed _ _ hcomes =>
    rcases hcomes with ⟨hreading, _⟩ | ⟨item', _, _, hcomes⟩
    · rw [hreading] at htask
      cases htask
    rw [hcomes] at htask
    split_ifs at htask
    injection htask with _ _ hwait
    cases hwait
  | drained hdraining hbusy =>
    cases htask
    exact .inr ⟨hdraining, hbusy⟩
  | pushed _ _ =>
    split_ifs at htask
  | served hsame _ _ _ => exact .inl (hsame ▸ htask)

theorem Fenced.next (hinv : Inv cfg log s) (h : Fenced cfg log s)
    (hen : enabled cfg log s label = true) : Fenced cfg log (Replication.next cfg log s label) := by
  have hmoved := moved_next hinv hen
  have hle := hmoved.happens.committedLsa_le hinv
  constructor
  · intro i hi q hq hblocked
    rcases hmoved.mem_queued hq with hq | ⟨laIndex, waitTranCommit, htask⟩
    · exact (h.queued i hi q hq hblocked).mono hle
    have hok := hinv.task
    rw [htask] at hok
    have hwait : waitTranCommit = true := hok.2.symm.trans hblocked
    subst hwait
    exact (h.pushing q laIndex htask).mono hle
  · intro item laIndex htask
    rcases hmoved.task_pushing htask with htask | ⟨htask, hbusy⟩
    · exact (h.pushing item laIndex htask).mono hle
    · exact (hinv.drained_of_not_busy htask hbusy).mono hle

/-!
## Later transactions
-/

/-- Between the first replication record of a barrier and its commit, no other transaction of
the same applier commits. -/
def Undisturbed (cfg : Config) (log : MasterLog) : Prop :=
  forall q q', log.Committed q -> log.isBlocked cfg q = true -> log.Committed q' ->
    log.applierOf cfg q' = log.applierOf cfg q -> q.replStartLsa < q'.committedLsa ->
    q.committedLsa <= q'.committedLsa

/-- The barriers that have been read have been applied, but for the one the analyzer is at. -/
def Passed (cfg : Config) (log : MasterLog) (s : State) : Prop :=
  forall q, log.Committed q -> log.isBlocked cfg q = true ->
    q.committedLsa < s.analyzer.finalLsa -> s.analyzer.task.item ≠ some q ->
    q.committedLsa <= s.slave.committedLsa (log.applierOf cfg q)

theorem Inv.committed_of_undisturbed (h : Inv cfg log s) (hlog : Undisturbed cfg log)
    (htask : s.analyzer.task = .waiting item laIndex)
    (hlt : item.replStartLsa < (s.appliers laIndex).committedLsa) :
    item.committedLsa <= s.slave.committedLsa (log.applierOf cfg item) := by
  have hok := h.task
  rw [htask] at hok
  obtain ⟨⟨hitem, happlier, _⟩, hblocked⟩ := hok
  have hi : laIndex < cfg.numApplier := happlier ▸ hitem.applierOf_lt cfg
  have hserved := h.served laIndex hi
  have hle := hserved.committedLsa_le
  rw [happlier]
  rcases hserved.last with hzero | ⟨q, hq, hqi, hstored⟩
  · omega
  · rw [← hstored]
    exact hlog item q hitem hblocked hq (hqi.trans happlier.symm) (by omega)

theorem Passed.restart (h : Inv cfg log s) : Passed cfg log (startAgents s.slave) := by
  intro q hq _ hlt _
  change q.committedLsa < s.slave.requiredLsa at hlt
  have := hq.start_le
  have := hq.repl_lt
  exact h.stored q hq (by omega)

theorem Passed.moved (hlog : Undisturbed cfg log) (hinv : Inv cfg log s) (h : Passed cfg log s)
    (hmoved : Moved cfg log s t events) : Passed cfg log t := by
  have hle := hmoved.happens.committedLsa_le hinv
  have hok := hinv.task
  intro q hq hblocked hlt hne
  cases hmoved with
  | restart => exact Passed.restart hinv q hq hblocked hlt hne
  | analyzed htask hfinal hcomes =>
    rw [hfinal] at hlt
    rcases Nat.lt_succ_iff_lt_or_eq.mp hlt with hlt | hfinal
    · refine h q hq hblocked hlt ?_
      rw [htask]
      exact Option.some_ne_none q |>.symm
    rcases hcomes with ⟨_, hdone⟩ | ⟨item, hitem, hfinal', hcomes⟩
    · exact hdone q hq hfinal
    rw [hq.eq_of_committedLsa hitem (hfinal.trans hfinal'.symm)] at hne
    rw [hcomes] at hne
    split_ifs at hne
    · exact absurd rfl hne
    · exact absurd rfl hne
  | drained htask _ =>
    refine h q hq hblocked hlt ?_
    rw [htask]
    exact hne
  | @pushed item laIndex waitTranCommit applier htask _ =>
    refine h q hq hblocked hlt ?_
    rw [htask] at hok ⊢
    cases waitTranCommit with
    | true => exact hne
    | false =>
      -- Another transaction than a barrier is pushed.
      intro heq
      injection heq with heq
      rw [← heq, hok.2] at hblocked
      cases hblocked
  | @waited item laIndex htask hstart =>
    by_cases heq : item = q
    · exact heq ▸ hinv.committed_of_undisturbed hlog htask hstart
    refine h q hq hblocked hlt ?_
    rw [htask]
    intro hsome
    injection hsome with hsame
    exact heq hsame
  | served htask hfinal _ _ =>
    rw [hfinal] at hlt
    rw [htask] at hne
    exact Nat.le_trans (h q hq hblocked hlt hne) (hle _)

/-!
## The order of events
-/

/-- The transactions in the events are those on the slave, and each came after those that commit
before it on the same applier and, if it is a barrier, after those of the data appliers. -/
structure Ordered (cfg : Config) (log : MasterLog) (run : Run) : Prop where
  inv : Inv cfg log run.code
  fenced : Fenced cfg log run.code
  applied_iff : forall q, log.Committed q -> (.applied q.committedLsa ∈ run.events <->
    q.committedLsa <= run.code.slave.committedLsa (log.applierOf cfg q))
  queue : forall q q', log.Committed q -> log.Committed q' ->
    log.applierOf cfg q = log.applierOf cfg q' -> q.committedLsa < q'.committedLsa ->
    Precedes run.events (.applied q.committedLsa) (.applied q'.committedLsa)
  after : forall q q', log.Committed q -> log.Committed q' -> log.isBlocked cfg q' = true ->
    globalApplierIndex <= log.applierOf cfg q -> q.committedLsa < q'.committedLsa ->
    Precedes run.events (.applied q.committedLsa) (.applied q'.committedLsa)

theorem Ordered.start : Ordered cfg log Run.start where
  inv := Inv.start
  fenced := by
    constructor
    · intro i _ q hq
      change q ∈ (startAgents _).queued i at hq
      rw [queued_startAgents] at hq
      cases hq
    · intro item laIndex htask
      cases htask
  applied_iff q hq := by
    have := (has_lt hq.commit).1
    constructor
    · intro h
      cases h
    · intro h
      change q.committedLsa <= 0 at h
      omega
  queue _ _ _ _ _ _ := precedes_nil _ _
  after _ _ _ _ _ _ _ := precedes_nil _ _

theorem Ordered.next (h : Ordered cfg log run) (hen : enabled cfg log run.code label = true) :
    Ordered cfg log (run.next cfg log label) := by
  have hinv := h.inv.step hen
  have hfenced := h.fenced.next h.inv hen
  have hhappens := (moved_next h.inv hen).happens
  rw [Run.next]
  generalize Replication.next cfg log run.code label = t at *
  generalize newEvents run.code t label = new at *
  cases hhappens with
  | nothing hsame =>
    rw [append_nil]
    refine ⟨hinv, hfenced, ?_, h.queue, h.after⟩
    intro q hq
    rw [hsame]
    exact h.applied_iff q hq
  | @began i item hi htask hsame =>
    refine ⟨hinv, hfenced, ?_, ?_, ?_⟩
    · intro q hq
      rw [hsame, ← h.applied_iff q hq, mem_append, mem_singleton]
      exact or_iff_left (fun heq => by cases heq)
    · intro q q' hq hq' happlier hlt
      exact (h.queue q q' hq hq' happlier hlt).append fun heq => by cases heq
    · intro q q' hq hq' hblocked hdata hlt
      exact (h.after q q' hq hq' hblocked hdata hlt).append fun heq => by cases heq
  | @applied i item hi htask hupdate =>
    obtain ⟨hitem, happlier, _, hstored, hbefore⟩ := (h.inv.served i hi).applying htask
    -- An event of this transaction is the one that is added.
    have hnew : forall q', log.Committed q' ->
        Event.applied item.committedLsa = .applied q'.committedLsa -> q' = item := by
      intro q' hq' heq
      injection heq with heq
      exact hq'.eq_of_committedLsa hitem heq.symm
    refine ⟨hinv, hfenced, ?_, ?_, ?_⟩
    · intro q hq
      rw [hupdate, mem_append, mem_singleton, h.applied_iff q hq]
      rcases eq_or_ne (log.applierOf cfg q) i with hqi | hne
      · rw [hqi, update_self]
        constructor
        · rintro (hle | heq)
          · omega
          · injection heq with heq
            omega
        · intro hle
          rcases Nat.lt_or_eq_of_le hle with hlt | heq
          · exact .inl (hbefore q hq hqi hlt)
          · exact .inr (congrArg Event.applied heq)
      · rw [update_of_ne hne]
        refine or_iff_left ?_
        intro heq
        rw [hnew q hq heq.symm] at hne
        exact hne happlier
    · intro q q' hq hq' hsame hlt
      refine (h.queue q q' hq hq' hsame hlt).append ?_
      intro heq
      have hq'item := hnew q' hq' heq
      rw [hq'item] at hsame hlt
      have hqi := hsame.trans happlier
      rw [h.applied_iff q hq, hqi]
      exact hbefore q hq hqi hlt
    · intro q q' hq hq' hblocked hdata hlt
      refine (h.after q q' hq hq' hblocked hdata hlt).append ?_
      intro heq
      have hq'item := hnew q' hq' heq
      rw [hq'item] at hblocked hlt
      rw [h.applied_iff q hq]
      refine h.fenced.queued i hi item ?_ hblocked q hq hdata hlt
      rw [queued, pending, htask]
      exact mem_cons_self

/-- Along every run, restarts included, no stored address goes back and nothing that has been
applied is lost. -/
theorem applied_subset_of_follows (h : (replication cfg log).Reachable run) (labels : List Label)
    (hrun : System.Follows (fun run label => enabled cfg log run.code label = true)
      (Run.next cfg log) run labels) :
    let later := (labels.foldl (Run.next cfg log) run).code.slave
    (forall i, run.code.slave.committedLsa i <= later.committedLsa i) ∧
      run.code.slave.applied ⊆ later.applied := by
  have hinv := inv_of_reachable h
  induction labels generalizing run with
  | nil => exact ⟨fun _ => Nat.le_refl _, Subset.refl _⟩
  | cons label labels ih =>
    have hstep := hinv.step hrun.1
    have hle := (moved_next hinv hrun.1).happens.committedLsa_le hinv
    obtain ⟨hlater, happlied⟩ := ih (.next h ⟨hrun.1, rfl⟩) hrun.2 hstep
    refine ⟨fun i => Nat.le_trans (hle i) (hlater i), fun e he => happlied ?_⟩
    obtain ⟨q, hq, hdone, heq⟩ := (hinv.applied_iff e).mp he
    exact (hstep.applied_iff e).mpr ⟨q, hq, Nat.le_trans hdone (hle _), heq⟩

/-- No transaction begins before the barriers in front of it have been applied. -/
structure Barred (cfg : Config) (log : MasterLog) (run : Run) : Prop where
  ordered : Ordered cfg log run
  passed : Passed cfg log run.code
  before : forall q q', log.Committed q -> log.isBlocked cfg q = true -> log.Committed q' ->
    q.committedLsa < q'.committedLsa ->
    Precedes run.events (.applied q.committedLsa) (.began q'.committedLsa)

theorem Barred.next (hlog : Undisturbed cfg log) (h : Barred cfg log run)
    (hen : enabled cfg log run.code label = true) : Barred cfg log (run.next cfg log label) := by
  have hordered := h.ordered.next hen
  have hmoved := moved_next h.ordered.inv hen
  have hpassed := h.passed.moved hlog h.ordered.inv hmoved
  have hhappens := hmoved.happens
  refine ⟨hordered, hpassed, ?_⟩
  intro q q' hq hblocked hq' hlt
  have hprecedes := h.before q q' hq hblocked hq' hlt
  change Precedes (run.events ++ newEvents run.code _ label) _ _
  generalize Replication.next cfg log run.code label = t at *
  generalize newEvents run.code t label = new at *
  cases hhappens with
  | nothing hsame =>
    rw [append_nil]
    exact hprecedes
  | @applied i item hi htask hupdate => exact hprecedes.append fun heq => by cases heq
  | @began i item hi htask hsame =>
    refine hprecedes.append ?_
    intro heq
    injection heq with heq
    have hmem : item ∈ (run.code.appliers i).pending (run.code.analyzer.task.held i) := by
      rw [pending, htask]
      exact mem_cons_self
    have hfinal := ((h.ordered.inv.served i hi).genuine item hmem).2.2
    rw [h.ordered.applied_iff q hq]
    refine h.passed q hq hblocked (by omega) ?_
    -- The analyzer is at the last commit it has read, which is not before this one.
    intro hitem
    have hok := h.ordered.inv.task
    cases htask : run.code.analyzer.task with
    | reading =>
      rw [htask] at hitem
      cases hitem
    | draining item' laIndex | pushing item' laIndex waitTranCommit
    | waiting item' laIndex =>
      rw [htask] at hitem hok
      injection hitem with hitem
      have hlast := hok.1.2.2
      rw [hitem] at hlast
      omega

end

/-- The shard key by which the transaction's first replication record is assigned. -/
def MasterLog.shardKeyOf (log : MasterLog) (q : QItem) : Option (List Nat) :=
  match log.get q.replStartLsa with
  | some ⟨_, _, .replicationData item⟩ =>
    if item.groupid = globalGroupid ∧ item.isGidSkeyInfo = false then none
    else some item.shardKey
  | _ => none

theorem applierOf_of_shardKeyOf {cfg : Config} {log : MasterLog} {q : QItem} {key : List Nat}
    (h : log.shardKeyOf q = some key) : log.applierOf cfg q = cfg.applierIndex key := by
  rw [shardKeyOf] at h
  split at h
  · rename_i item hget
    split_ifs at h with hglobal
    injection h with h
    subst h
    rw [applierOf, assignment, hget, Option.bind_some]
    dsimp only [Config.assign]
    split_ifs with hgroup hinfo
    · rfl
    · exact absurd ⟨hgroup, Bool.eq_false_iff.mpr hinfo⟩ hglobal
    · rfl
  · cases h

/-- In a log in which no transaction commits on a barrier's applier between the barrier's first
replication record and its commit, the barriers hold in every run: a barrier is applied after
every transaction of a data applier that commits before it, nothing that commits after it begins
before it has been applied, and transactions with the same shard key are applied in commit
order. -/
theorem barriers_of_undisturbed (cfg : Config) (log : MasterLog) (hlog : Undisturbed cfg log)
    {run : Run} (h : (replication cfg log).Reachable run) :
    (forall q q', log.Committed q -> log.Committed q' -> log.isBlocked cfg q' = true ->
      globalApplierIndex <= log.applierOf cfg q -> q.committedLsa < q'.committedLsa ->
      Precedes run.events (.applied q.committedLsa) (.applied q'.committedLsa)) ∧
    (forall q q', log.Committed q -> log.isBlocked cfg q = true -> log.Committed q' ->
      q.committedLsa < q'.committedLsa ->
      Precedes run.events (.applied q.committedLsa) (.began q'.committedLsa)) ∧
    (forall q q' key, log.Committed q -> log.Committed q' -> log.shardKeyOf q = some key ->
      log.shardKeyOf q' = some key -> q.committedLsa < q'.committedLsa ->
      Precedes run.events (.applied q.committedLsa) (.applied q'.committedLsa)) := by
  have hbarred : Barred cfg log run := by
    refine h.invariant (Barred cfg log) ?_ ?_
    · rintro _ rfl
      refine ⟨Ordered.start, ?_, fun _ _ _ _ _ _ => precedes_nil _ _⟩
      exact Passed.restart (s := startAgents ⟨[], fun _ => 0, 1⟩) Inv.start
    · rintro run label _ hbarred ⟨hen, rfl⟩
      exact hbarred.next hlog hen
  refine ⟨hbarred.ordered.after, hbarred.before, ?_⟩
  intro q q' key hq hq' hkey hkey' hlt
  refine hbarred.ordered.queue q q' hq hq' ?_ hlt
  rw [applierOf_of_shardKeyOf hkey, applierOf_of_shardKeyOf hkey']

/-- A global row is changed and committed by transaction 1, then a row of group 5 by
transaction 2. -/
def globalThenRow : MasterLog where
  records := [⟨1, 0, .replicationData ⟨0, false, 0, []⟩⟩, ⟨1, 1, .commit⟩,
    ⟨2, 0, .replicationData ⟨5, false, 0, [97]⟩⟩, ⟨2, 3, .commit⟩]
  trid_nonneg := by decide
  prev_lt := by decide
  first_iff := by decide
  ended := by decide
  serverState := by decide

theorem globalThenRow_first : globalThenRow.Committed ⟨1, 1, 2, 1⟩ :=
  ⟨by decide, ⟨by decide, by decide⟩, ⟨by decide, by decide⟩, by decide⟩

theorem globalThenRow_second : globalThenRow.Committed ⟨2, 3, 4, 3⟩ :=
  ⟨by decide, ⟨by decide, by decide⟩, ⟨by decide, by decide⟩, by decide⟩

theorem globalThenRow_undisturbed : Undisturbed ⟨.utf8Binary, 2, by decide⟩ globalThenRow := by
  have hlsa : forall lsa, lsa < 5 ->
      (globalThenRow.get lsa).any (fun r => r.type.isCommit) = true -> lsa = 2 ∨ lsa = 4 := by
    decide
  have hcases : forall q, globalThenRow.Committed q -> q = ⟨1, 1, 2, 1⟩ ∨ q = ⟨2, 3, 4, 3⟩ := by
    intro q hq
    obtain ⟨r, hr, _, htype⟩ := has_iff.mp hq.commit
    have hcommit : (globalThenRow.get q.committedLsa).any (fun r => r.type.isCommit) = true := by
      rw [hr]
      exact htype
    rcases hlsa _ (lt_of_get hr).2 hcommit with heq | heq
    · exact .inl (hq.eq_of_committedLsa globalThenRow_first heq)
    · exact .inr (hq.eq_of_committedLsa globalThenRow_second heq)
  intro q q' hq _ hq' _
  rcases hcases q hq with rfl | rfl
  · rcases hcases q' hq' with rfl | rfl
    · decide
    · decide
  · rcases hcases q' hq' with rfl | rfl
    · decide
    · decide

theorem applied_subset_crashed :
    let next := Run.next ⟨.utf8Binary, 2, by decide⟩ globalThenRow
    let run := [.analyze, .analyze, .drained, .push, .pop 1, .examine 1, .apply 1].foldl next .start
    run.code.slave.applied ⊆ (next run .crash).code.slave.applied :=
  (applied_subset_of_follows (System.reachable_of_follows _ (by decide +kernel)) [.crash]
    (by decide +kernel)).2

theorem barriers_of_undisturbed_applied :
    let run := [.analyze, .analyze, .drained, .push, .pop 1, .examine 1, .apply 1, .publish 1,
      .committed, .clear 1, .analyze, .analyze, .push, .pop 1, .examine 1].foldl
        (Run.next ⟨.utf8Binary, 2, by decide⟩ globalThenRow) Run.start
    run.events = [.began 2, .applied 2, .began 4] ∧
      Precedes run.events (.applied 2) (.began 4) :=
  ⟨by decide +kernel,
    (barriers_of_undisturbed ⟨.utf8Binary, 2, by decide⟩ globalThenRow globalThenRow_undisturbed
      (System.reachable_of_follows _ (by decide +kernel))).2.1 ⟨1, 1, 2, 1⟩ ⟨2, 3, 4, 3⟩
        globalThenRow_first (by decide) globalThenRow_second (by decide)⟩

/-- Transaction 1 changes a global row; before it commits, transaction 2 changes a row of the same
applier and commits; transaction 3 follows on another applier. -/
def disturbedBarrier : MasterLog where
  records := [⟨1, 0, .replicationData ⟨0, false, 0, []⟩⟩,
    ⟨2, 0, .replicationData ⟨5, false, 0, [98]⟩⟩, ⟨2, 2, .commit⟩, ⟨1, 1, .commit⟩,
    ⟨3, 0, .replicationData ⟨5, false, 0, [97]⟩⟩, ⟨3, 5, .commit⟩]
  trid_nonneg := by decide
  prev_lt := by decide
  first_iff := by decide
  ended := by decide
  serverState := by decide

/-- The wait for transaction 1 is over at once, because its applier has committed transaction 2
behind the first record of transaction 1.  Transaction 3 begins while transaction 1 is still in
the queue. -/
theorem barrier_passed_early :
    let cfg : Config := ⟨.utf8Binary, 3, by decide⟩
    let run := [.analyze, .analyze, .analyze, .push, .pop 1, .examine 1, .apply 1, .publish 1,
      .clear 1, .analyze, .drained, .push, .committed, .analyze, .analyze, .push, .pop 2,
      .examine 2].foldl (Run.next cfg disturbedBarrier) Run.start
    (replication cfg disturbedBarrier).Reachable run ∧
      disturbedBarrier.Committed ⟨1, 1, 4, 1⟩ ∧
      disturbedBarrier.isBlocked cfg ⟨1, 1, 4, 1⟩ = true ∧
      disturbedBarrier.Committed ⟨3, 5, 6, 5⟩ ∧
      run.events = [.began 3, .applied 3, .began 6] ∧
      ¬ Precedes run.events (.applied 4) (.began 6) := by
  refine ⟨System.reachable_of_follows _ (by decide +kernel),
    ⟨by decide, ⟨by decide, by decide⟩, ⟨by decide, by decide⟩, by decide⟩, by decide,
    ⟨by decide, ⟨by decide, by decide⟩, ⟨by decide, by decide⟩, by decide⟩,
    by decide +kernel, ?_⟩
  intro h
  have hmem := h [.began 3, .applied 3] [] (by decide +kernel)
  revert hmem
  decide

end Rye.Replication
