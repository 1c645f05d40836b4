import Mathlib.Order.Nat
import Rye.Broker.ShardInfo.Sync

/-!
# The driver's array is that of a server state

As long as every broker reads its rows in the state whose version it has read before, and answers
with rows of the creation it announces, the driver has the array of the server state with its
version: a group without a newer row has not moved since.
-/

namespace Rye.Broker.ShardInfo

open Foundation List Function Driver

theorem length_patch (nodeidArr : List Nat) (changes : List (Nat × Nat)) :
    (patch nodeidArr changes).length = nodeidArr.length := by
  induction changes generalizing nodeidArr with
  | nil => rfl
  | cons change changes ih => exact (ih _).trans length_set

theorem getElem?_patch_of_lt {cltVer gid i : Nat} (rows : List GidRow) (nodeidArr : List Nat)
    (h : i + 1 < gid) :
    (patch nodeidArr (changedRows cltVer gid rows))[i]? = nodeidArr[i]? := by
  induction rows generalizing gid nodeidArr with
  | nil => rfl
  | cons row rows ih =>
    rw [changedRows]
    split_ifs
    · exact (ih _ (by omega)).trans (getElem?_set_ne (by omega))
    · exact ih _ (by omega)

/-- The patched array has the node of every row that is newer, and is the same elsewhere. -/
theorem getElem?_patch {gid i : Nat} {rows : List GidRow} {row : GidRow} (cltVer : Nat)
    (nodeidArr : List Nat) (hgid : 0 < gid) (hrow : rows[i]? = some row)
    (hlen : gid - 1 + i < nodeidArr.length) :
    (patch nodeidArr (changedRows cltVer gid rows))[gid - 1 + i]? =
      if row.ver > cltVer then some row.nodeid else nodeidArr[gid - 1 + i]? := by
  induction rows generalizing gid i nodeidArr with
  | nil => cases hrow
  | cons first rows ih =>
    rw [changedRows]
    cases i with
    | zero =>
      cases hrow
      split_ifs with hnewer
      · refine (getElem?_patch_of_lt rows _ (by omega)).trans ?_
        exact getElem?_set_self hlen
      · exact getElem?_patch_of_lt rows _ (by omega)
    | succ i =>
      have hindex : gid - 1 + (i + 1) = gid + 1 - 1 + i := by
        omega
      rw [hindex] at hlen ⊢
      by_cases hfirst : first.ver > cltVer
      · rw [if_pos hfirst]
        refine (ih _ (by omega) hrow (by rw [length_set]; exact hlen)).trans ?_
        rw [getElem?_set_ne (by omega)]
      · rw [if_neg hfirst]
        exact ih _ (by omega) hrow hlen

/-!
## States of one creation
-/

/-- `new` is a later state of the creation of `old`: groups whose row is not newer than `old`
have not moved. -/
structure ShardDb.Later (old new : ShardDb) : Prop where
  length : new.rows.length = old.rows.length
  same : forall (i : Nat) (row : GidRow), new.rows[i]? = some row -> row.ver <= old.gidInfoLastVer ->
    old.rows[i]? = some row

/-- A driver with the array of `old` has that of `new` after the patch. -/
theorem ShardDb.Later.patch {old new : ShardDb} (h : old.Later new) :
    patch old.nodeids (changedRows old.gidInfoLastVer 1 new.rows) = new.nodeids := by
  apply ext_getElem?
  intro i
  cases hrow : new.rows[i]? with
  | none =>
    have hlen : new.rows.length <= i := List.getElem?_eq_none_iff.mp hrow
    rw [getElem?_eq_none, getElem?_eq_none]
    · rw [ShardDb.nodeids, length_map]
      exact hlen
    · rw [length_patch, ShardDb.nodeids, length_map, ← h.length]
      exact hlen
  | some row =>
    have hlt : i < new.rows.length := (List.getElem?_eq_some_iff.mp hrow).1
    have hlen : 1 - 1 + i < old.nodeids.length := by
      rw [ShardDb.nodeids, length_map, ← h.length]
      omega
    have hpatch := getElem?_patch old.gidInfoLastVer old.nodeids Nat.one_pos hrow hlen
    rw [Nat.sub_self, Nat.zero_add] at hpatch
    rw [hpatch, ShardDb.nodeids, ShardDb.nodeids, getElem?_map, getElem?_map, hrow]
    split_ifs with hnewer
    · rfl
    · rw [h.same i row hrow (by omega)]

/-- The states so far: no row is newer than the last version, and the versions of a creation
order its states. -/
structure History (db : ShardDb) (past : List ShardDb) : Prop where
  mem : db ∈ past
  fresh : forall s, s ∈ past -> 0 < s.gidInfoLastVer ∧ 0 < s.rows.length ∧
    forall row, row ∈ s.rows -> row.ver <= s.gidInfoLastVer
  last : forall s, s ∈ past -> s.createdAt = db.createdAt -> s.gidInfoLastVer <= db.gidInfoLastVer
  later : forall old new, old ∈ past -> new ∈ past -> old.createdAt = new.createdAt ->
    old.gidInfoLastVer <= new.gidInfoLastVer -> old.Later new

variable {db : ShardDb} {past : List ShardDb} {s : ShardDb} {b : MgmtBroker} {w : World}
    {info : GroupidInfo}

theorem History.nodeids_eq (h : History db past) {t : ShardDb} (hs : s ∈ past) (ht : t ∈ past)
    (hcreated : s.createdAt = t.createdAt) (hver : s.gidInfoLastVer = t.gidInfoLastVer) :
    s.nodeids = t.nodeids := by
  have hpatch := (h.later s t hs ht hcreated (by omega)).patch
  have hnone : forall (rows : List GidRow) (gid : Nat),
      (forall row, row ∈ rows -> row.ver <= t.gidInfoLastVer) ->
        changedRows s.gidInfoLastVer gid rows = [] := by
    intro rows
    induction rows with
    | nil => exact fun _ _ => rfl
    | cons row rows ih =>
      intro gid hrows
      have hrow := hrows row mem_cons_self
      rw [changedRows, if_neg (by omega)]
      exact ih _ fun row hmem => hrows row (mem_cons_of_mem _ hmem)
  rw [hnone t.rows 1 (h.fresh t ht).2.2] at hpatch
  exact hpatch

theorem History.recreate {new : ShardDb} (h : History db past) (hnew : new.isNew = true)
    (hother : forall s, s ∈ past -> s.createdAt ≠ new.createdAt) : History new (new :: past) := by
  simp only [ShardDb.isNew, Bool.and_eq_true, decide_eq_true_eq, Bool.not_eq_true',
    isEmpty_eq_false_iff, all_eq_true] at hnew
  obtain ⟨⟨⟨_, hver⟩, hrows⟩, hold⟩ := hnew
  refine ⟨mem_cons_self, ?_, ?_, ?_⟩
  · intro s hs
    rcases mem_cons.mp hs with rfl | hs
    · exact ⟨hver, length_pos_iff.mpr hrows, hold⟩
    · exact h.fresh s hs
  · intro s hs hcreated
    rcases mem_cons.mp hs with rfl | hs
    · exact le_refl _
    · exact absurd hcreated (hother s hs)
  intro s t hs ht hcreated hle
  rcases mem_cons.mp hs with rfl | hsold
  · rcases mem_cons.mp ht with rfl | htold
    · exact ⟨rfl, fun _ _ hrow _ => hrow⟩
    · exact absurd hcreated.symm (hother t htold)
  · rcases mem_cons.mp ht with rfl | htold
    · exact absurd hcreated (hother s hsold)
    · exact h.later s t hsold htold hcreated hle

theorem History.reassign (h : History db past) {gid nodeid ver : Nat}
    (hver : db.gidInfoLastVer < ver) :
    History (db.reassign gid nodeid ver) (db.reassign gid nodeid ver :: past) := by
  have hlater : forall s, s ∈ past -> s.createdAt = db.createdAt ->
      s.Later (db.reassign gid nodeid ver) := by
    intro s hs hcreated
    have hle := h.last s hs hcreated
    have hlater := h.later s db hs h.mem hcreated hle
    refine ⟨length_set.trans hlater.length, ?_⟩
    intro i row hrow hold
    simp only [ShardDb.reassign] at hrow
    by_cases hi : gid - 1 = i
    · -- the row of the moved group is newer than any state before
      rw [hi, getElem?_set_self'] at hrow
      obtain ⟨_, _, rfl⟩ := Option.map_eq_some_iff.mp hrow
      simp only [const_apply] at hold
      omega
    · rw [getElem?_set_ne hi] at hrow
      exact hlater.same i row hrow hold
  have hfresh := h.fresh db h.mem
  refine ⟨mem_cons_self, ?_, ?_, ?_⟩
  · intro s hs
    rcases mem_cons.mp hs with rfl | hs
    · refine ⟨by simp only [ShardDb.reassign]; omega, ?_, ?_⟩
      · simp only [ShardDb.reassign, length_set]
        exact hfresh.2.1
      intro row hrow
      rcases mem_or_eq_of_mem_set hrow with hrow | rfl
      · have := hfresh.2.2 row hrow
        simp only [ShardDb.reassign]
        omega
      · exact le_refl _
    · exact h.fresh s hs
  · intro s hs hcreated
    rcases mem_cons.mp hs with rfl | hs
    · exact le_refl _
    · have := h.last s hs hcreated
      simp only [ShardDb.reassign]
      omega
  · intro s t hs ht hcreated hle
    rcases mem_cons.mp hs with rfl | hsold
    · rcases mem_cons.mp ht with rfl | htold
      · exact ⟨rfl, fun _ _ hrow _ => hrow⟩
      · have := h.last t htold hcreated.symm
        simp only [ShardDb.reassign] at hle
        omega
    · rcases mem_cons.mp ht with rfl | htold
      · exact hlater s hsold hcreated
      · exact h.later s t hsold htold hcreated hle

/-!
## Brokers and the driver
-/

def ShardDbRec.Of (found : ShardDbRec) (s : ShardDb) : Prop :=
  found = ⟨s.createdAt, s.gidInfoLastVer⟩

/-- The message that is kept is the one for its version. -/
def GroupidInfo.Kept (info : GroupidInfo) : Prop :=
  forall kept, info.partialInfo = some kept -> kept.2 = info.changedStream kept.1

/-- The cached rows and their version are those of one state. -/
def GroupidInfo.Of (info : GroupidInfo) (s : ShardDb) : Prop :=
  info.createdAt = s.createdAt ∧ info.gidInfoVer = s.gidInfoLastVer ∧ info.gidInfo = s.rows

/-- Whatever a broker has read is of one state, rows as well as the version before them. -/
structure MgmtBroker.Faithful (past : List ShardDb) (b : MgmtBroker) : Prop where
  loaded : forall loader rows, loader ∈ b.loaders -> loader.rows = some rows ->
    exists s, s ∈ past ∧ loader.found.Of s ∧ rows = (s.rows, s.createdAt)
  info : forall info, b.groupidInfo = some info -> info.Kept ∧ exists s, s ∈ past ∧ info.Of s

structure World.Inv (w : World) : Prop where
  history : History w.db w.past
  brokers : forall b, (w.brokers b).Faithful w.past
  driver : forall info, w.driver.groupidInfo = some info -> exists s, s ∈ w.past ∧
    s.createdAt = w.driver.createdAt ∧ info.version = s.gidInfoLastVer ∧ info.nodeid = s.nodeids

/-- A broker reads its rows in the state whose version it has read, and answers with rows of the
creation that it announces. -/
def World.consistent (w : World) : Label -> Bool
  | .select b i =>
    match (w.brokers b).loaders[i]? with
    | some loader => loader.found == ⟨w.db.createdAt, w.db.gidInfoLastVer⟩
    | none => true
  | .sync b =>
    match (w.brokers b).groupidInfo with
    | some info => info.createdAt == (w.brokers b).shardDbRec.createdAt
    | none => true
  | _ => true

theorem MgmtBroker.Faithful.mono {past' : List ShardDb} (h : b.Faithful past)
    (hpast : forall s, s ∈ past -> s ∈ past') : b.Faithful past' := by
  refine ⟨?_, ?_⟩
  · intro loader rows hmem hrows
    obtain ⟨s, hs, hof⟩ := h.loaded loader rows hmem hrows
    exact ⟨s, hpast s hs, hof⟩
  · intro info hinfo
    obtain ⟨hkept, s, hs, hof⟩ := h.info info hinfo
    exact ⟨hkept, s, hpast s hs, hof⟩

theorem World.Inv.moveTo (h : w.Inv) (hhistory : History db (db :: w.past)) :
    (w.moveTo db).Inv := by
  refine ⟨hhistory, ?_, ?_⟩
  · exact fun b => (h.brokers b).mono fun _ hs => mem_cons_of_mem _ hs
  · intro info hinfo
    obtain ⟨s, hs, hof⟩ := h.driver info hinfo
    exact ⟨s, mem_cons_of_mem _ hs, hof⟩

theorem World.Inv.onBroker (h : w.Inv) (b : Nat) (f : MgmtBroker -> MgmtBroker)
    (hf : (f (w.brokers b)).Faithful w.past) : (w.onBroker b f).Inv := by
  refine ⟨h.history, ?_, h.driver⟩
  intro b'
  change (Function.update w.brokers b (f (w.brokers b)) b').Faithful w.past
  by_cases hb : b' = b
  · subst hb
    rw [update_self]
    exact hf
  · rw [update_of_ne hb]
    exact h.brokers b'

theorem MgmtBroker.Faithful.load (h : b.Faithful past) : b.load.Faithful past := by
  rw [MgmtBroker.load]
  split_ifs
  · refine ⟨?_, h.info⟩
    intro loader rows hmem hrows
    rcases mem_append.mp hmem with hmem | hmem
    · exact h.loaded loader rows hmem hrows
    · rw [mem_singleton] at hmem
      rw [hmem] at hrows
      cases hrows
  · exact h

theorem MgmtBroker.Faithful.select {i : Nat} (h : b.Faithful past) (hdb : db ∈ past)
    (hsame : forall loader, b.loaders[i]? = some loader -> loader.found.Of db) :
    (b.select i db).Faithful past := by
  rw [MgmtBroker.select]
  split
  · rename_i loader hloader
    refine ⟨?_, h.info⟩
    intro loader' rows hmem hrows
    rcases mem_or_eq_of_mem_set hmem with hmem | rfl
    · exact h.loaded loader' rows hmem hrows
    · cases hrows
      exact ⟨db, hdb, hsame loader hloader, rfl⟩
  · exact h

theorem MgmtBroker.Faithful.store (h : b.Faithful past) (i : Nat) : (b.store i).Faithful past := by
  rw [MgmtBroker.store]
  split
  · rename_i found rows hloader
    refine ⟨?_, ?_⟩
    · intro loader rows' hmem hrows
      exact h.loaded loader rows' (mem_of_mem_eraseIdx hmem) hrows
    intro info hinfo
    cases hinfo
    obtain ⟨s, hs, hof, hrows⟩ := h.loaded _ rows (mem_of_getElem? hloader) rfl
    refine ⟨?_, s, hs, ?_⟩
    · intro kept hkept
      cases hkept
    rw [ShardDbRec.Of] at hof
    dsimp only at hof
    rw [hof, hrows]
    exact ⟨rfl, rfl, rfl⟩
  · exact h

/-- The message is the one for the version, whether it was kept or is new, and the cache is the
same but for the message. -/
theorem makeGroupidInfoNetStream_spec (h : info.Kept) (cltVer : Nat) :
    (makeGroupidInfoNetStream info cltVer).1 =
        (if cltVer = 0 then info.allStream else info.changedStream cltVer) ∧
      (makeGroupidInfoNetStream info cltVer).2.Kept ∧
      forall s, info.Of s -> (makeGroupidInfoNetStream info cltVer).2.Of s := by
  rw [makeGroupidInfoNetStream]
  split_ifs with hall
  · exact ⟨rfl, h, fun _ hof => hof⟩
  have hnew : ({ info with partialInfo := some (cltVer, info.changedStream cltVer) } :
      GroupidInfo).Kept := by
    rintro kept ⟨⟩
    rfl
  split
  · rename_i kept hkept
    split_ifs with hver
    · subst hver
      exact ⟨h kept hkept, h, fun _ hof => hof⟩
    · exact ⟨rfl, hnew, fun _ hof => hof⟩
  · exact ⟨rfl, hnew, fun _ hof => hof⟩

theorem MgmtBroker.Faithful.answer (h : b.Faithful past) (cltCreatedAt cltGroupidVer : Nat) :
    (b.answer cltCreatedAt cltGroupidVer).2.Faithful past := by
  simp only [MgmtBroker.answer]
  split
  · exact h
  rename_i info hinfo
  obtain ⟨hkept, s, hs, hof⟩ := h.info info hinfo
  split_ifs <;> try exact h
  all_goals
    refine ⟨h.loaded, ?_⟩
    rintro info' ⟨⟩
    obtain ⟨_, hkept', hof'⟩ := makeGroupidInfoNetStream_spec hkept _
    exact ⟨hkept', s, hs, hof' s hof⟩

/-!
## One sync
-/

theorem unpack_allStream (hver : info.gidInfoVer = s.gidInfoLastVer)
    (hrows : info.gidInfo = s.rows) (hpos : 0 < s.rows.length) (old : Option (List Nat)) :
    unpack info.allStream old = some ⟨s.gidInfoLastVer, s.nodeids⟩ := by
  have hcount : ¬ s.rows.length = 0 := by
    omega
  simp only [unpack, GroupidInfo.allStream, hrows, hver, hcount, if_false, ShardDb.nodeids]

theorem unpack_changedStream {old : ShardDb} (hver : info.gidInfoVer = s.gidInfoLastVer)
    (hrows : info.gidInfo = s.rows) (hpos : 0 < s.rows.length) (hlater : old.Later s) :
    unpack (info.changedStream old.gidInfoLastVer) (some old.nodeids) =
      some ⟨s.gidInfoLastVer, s.nodeids⟩ := by
  have hcount : ¬ s.rows.length = 0 := by
    omega
  have hlen : ¬ old.nodeids.length ≠ s.rows.length := by
    rw [ShardDb.nodeids, length_map, hlater.length]
    exact not_not_intro rfl
  simp only [unpack, GroupidInfo.changedStream, hrows, hver, hcount, if_false, hlen, hlater.patch]

/-- A sync with a broker that announces the creation of the rows it has: the driver has the
version and the array of those rows, or it has the same creation and is not older. -/
theorem World.Inv.sync_driver (h : w.Inv) {b : Nat}
    (hinfo : (w.brokers b).groupidInfo = some info) (hs : s ∈ w.past)
    (hver : info.gidInfoVer = s.gidInfoLastVer) (hrows : info.gidInfo = s.rows)
    (hcreated : (w.brokers b).shardDbRec.createdAt = s.createdAt) :
    (w.sync b).driver = ⟨s.createdAt, some ⟨s.gidInfoLastVer, s.nodeids⟩⟩ ∨
      ((w.sync b).driver = w.driver ∧ w.driver.createdAt = s.createdAt ∧
        s.gidInfoLastVer <= w.driver.groupidVer) := by
  obtain ⟨hlast, hpos, _⟩ := h.history.fresh s hs
  have hkept := ((h.brokers b).info info hinfo).1
  have hall := unpack_allStream hver hrows hpos
  simp only [World.sync, MgmtBroker.answer, hinfo, hcreated, hver]
  by_cases hother : s.createdAt = w.driver.createdAt
  · rw [if_neg (not_not_intro hother)]
    by_cases hnewer : s.gidInfoLastVer > w.driver.groupidVer
    · left
      rw [if_pos hnewer, (makeGroupidInfoNetStream_spec hkept _).1]
      have hunpack : unpack (if w.driver.groupidVer = 0 then info.allStream
            else info.changedStream w.driver.groupidVer)
          (w.driver.groupidInfo.map DriverInfo.nodeid) = some ⟨s.gidInfoLastVer, s.nodeids⟩ := by
        cases hdriver : w.driver.groupidInfo with
        | none =>
          rw [if_pos (by rw [groupidVer, hdriver])]
          exact hall _
        | some have' =>
          obtain ⟨old, hold, hsame, hversion, hnodeid⟩ := h.driver have' hdriver
          have hclt : w.driver.groupidVer = old.gidInfoLastVer := by
            rw [groupidVer, hdriver]
            exact hversion
          have hpositive := (h.history.fresh old hold).1
          rw [hclt] at hnewer ⊢
          rw [if_neg (by omega), Option.map_some, hnodeid]
          exact unpack_changedStream hver hrows hpos
            (h.history.later old s hold hs (hsame.trans hother.symm) (by omega))
      simp only [receive, Option.bind_some, hunpack]
      rw [if_pos (.inr rfl)]
    · right
      rw [if_neg hnewer]
      refine ⟨?_, hother.symm, by omega⟩
      simp only [receive, Option.bind_none, hother, ne_eq, not_true, Option.isSome_none,
        Bool.false_eq_true, or_self, if_false]
  · left
    rw [if_pos hother, if_pos hlast, (makeGroupidInfoNetStream_spec hkept 0).1, if_pos rfl]
    simp only [receive, Option.bind_some, hall]
    rw [if_pos (.inl (Ne.symm hother))]

theorem World.Inv.sync (h : w.Inv) {b : Nat} (hconsistent : w.consistent (.sync b) = true) :
    (w.sync b).Inv := by
  have hbrokers : forall b', ((w.sync b).brokers b').Faithful w.past := by
    intro b'
    change (Function.update w.brokers b _ b').Faithful w.past
    by_cases hb : b' = b
    · subst hb
      rw [update_self]
      exact (h.brokers b').answer _ _
    · rw [update_of_ne hb]
      exact h.brokers b'
  refine ⟨h.history, hbrokers, ?_⟩
  intro info' hinfo'
  cases hinfo : (w.brokers b).groupidInfo with
  | none =>
    simp only [World.sync, MgmtBroker.answer, hinfo, receive, Option.bind_none,
      Option.isSome_none, Bool.false_eq_true, or_false] at hinfo' ⊢
    by_cases hsame : w.driver.createdAt = (w.brokers b).shardDbRec.createdAt
    · rw [if_neg (not_not_intro hsame)] at hinfo'
      rw [← hsame]
      exact h.driver info' hinfo'
    · rw [if_pos hsame] at hinfo'
      cases hinfo'
  | some info =>
    obtain ⟨_, s, hs, hcreated, hver, hrows⟩ := (h.brokers b).info info hinfo
    simp only [World.consistent, hinfo, beq_iff_eq] at hconsistent
    have hannounced := hconsistent.symm.trans hcreated
    rcases h.sync_driver hinfo hs hver hrows hannounced with hdriver | ⟨hdriver, _, _⟩
    · rw [hdriver] at hinfo' ⊢
      cases hinfo'
      exact ⟨s, hs, rfl, rfl, rfl⟩
    · rw [hdriver] at hinfo' ⊢
      exact h.driver info' hinfo'

theorem World.Inv.step (h : w.Inv) {label : Label} (hconsistent : w.consistent label = true)
    (henabled : w.enabled label = true) : (w.next label).Inv := by
  cases label with
  | reassign gid nodeid ver =>
    simp only [World.enabled, Bool.and_eq_true, decide_eq_true_eq] at henabled
    exact h.moveTo (h.history.reassign henabled.2)
  | recreate db =>
    simp only [World.enabled, Bool.and_eq_true, all_eq_true, bne_iff_ne] at henabled
    exact h.moveTo (h.history.recreate henabled.1 henabled.2)
  | readRec b =>
    exact h.onBroker b (fun broker => broker.readRec w.db)
      ⟨(h.brokers b).loaded, (h.brokers b).info⟩
  | load b => exact h.onBroker b _ (h.brokers b).load
  | select b i =>
    refine h.onBroker b (fun broker => broker.select i w.db) ((h.brokers b).select h.history.mem ?_)
    intro loader hloader
    simpa [World.consistent, hloader, ShardDbRec.Of] using hconsistent
  | store b i => exact h.onBroker b (fun broker => broker.store i) ((h.brokers b).store i)
  | sync b => exact h.sync hconsistent

theorem World.inv_start (h : db.isNew = true) : (World.start db).Inv := by
  simp only [ShardDb.isNew, Bool.and_eq_true, decide_eq_true_eq, Bool.not_eq_true',
    isEmpty_eq_false_iff, all_eq_true] at h
  obtain ⟨⟨⟨_, hver⟩, hrows⟩, hold⟩ := h
  refine ⟨⟨mem_singleton_self _, ?_, ?_, ?_⟩, ?_, ?_⟩
  · intro s hs
    rw [mem_singleton.mp hs]
    exact ⟨hver, length_pos_iff.mpr hrows, hold⟩
  · intro s hs _
    rw [mem_singleton.mp hs]
    exact le_refl _
  · intro s t hs ht _ _
    rw [mem_singleton.mp hs, mem_singleton.mp ht]
    exact ⟨rfl, fun _ _ hrow _ => hrow⟩
  · intro b
    refine ⟨?_, ?_⟩
    · intro loader rows hmem
      cases hmem
    · intro info hinfo
      cases hinfo
  · intro info hinfo
    cases hinfo

/-!
## The driver follows the server
-/

/-- The broker has the version and the rows of the current state. -/
def MgmtBroker.UpToDate (b : MgmtBroker) (db : ShardDb) : Prop :=
  b.shardDbRec.createdAt = db.createdAt ∧
    exists info, b.groupidInfo = some info ∧ info.gidInfoVer = db.gidInfoLastVer ∧
      info.gidInfo = db.rows

/-- The driver has the array of a server state that is at least as new as its version, and a sync
with a broker that is up to date gives it the current array. -/
structure World.FollowsServer (w : World) : Prop where
  array : forall info, w.driver.groupidInfo = some info -> exists s, s ∈ w.past ∧
    s.createdAt = w.driver.createdAt ∧ info.version <= s.gidInfoLastVer ∧
    info.nodeid = s.nodeids
  current : forall b, (w.brokers b).UpToDate w.db ->
    (w.sync b).driver = ⟨w.db.createdAt, some ⟨w.db.gidInfoLastVer, w.db.nodeids⟩⟩

def twoGroups : ShardDb := ⟨1, 1, [⟨11, 1⟩, ⟨21, 1⟩]⟩

/-- The shard database is created again with small versions.  Broker 1 announces the new creation
with its old rows, and a broker that is up to date has nothing newer for the driver. -/
theorem recreated_under_old_version :
    let w := [.reassign 1 12 5, .readRec 1, .load 1, .select 1 0, .store 1 0,
      .recreate ⟨2, 1, [⟨31, 1⟩, ⟨41, 1⟩]⟩, .readRec 1, .load 1, .sync 1, .readRec 2, .load 2,
      .select 2 0, .store 2 0].foldl World.next (World.start twoGroups)
    (shardInfo twoGroups).Reachable w ∧ (w.brokers 2).UpToDate w.db ∧
      (w.sync 2).driver = ⟨2, some ⟨5, [12, 21]⟩⟩ :=
  ⟨System.reachable_of_follows _ (by decide +kernel),
    ⟨by decide +kernel, ⟨1, [⟨31, 1⟩, ⟨41, 1⟩], none, 2⟩, by decide +kernel⟩, by decide +kernel⟩

end Rye.Broker.ShardInfo
