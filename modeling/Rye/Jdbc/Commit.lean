import Rye.Jdbc.Shards

/-!
# What a commit ends

A commit or rollback that returns normally has ended the transaction exactly when there was none,
or when completing the statements left no cursor registered.
-/

namespace Rye.Jdbc

open Foundation Foundation.Program

def World.entered (w : World) : World :=
  { w with con.ending := true }

/-- The cursors that are still registered when the statements have been completed. -/
def cursorsLeft (type : Bool) (w : World) : List Nat :=
  (completeFor type w.entered).2.group.openCursorList

/-- Every shard that has executed something in the transaction of `w` is asked to end it on the
way to `t`, and the next statement takes a new connection. -/
def Ended (type : Bool) (w t : World) : Prop :=
  (forall nodeid, nodeid ∈ w.ledger.executed ->
    (nodeid, type) ∈ t.ledger.sent.drop w.ledger.sent.length) ∧
  t.group.curShardConn = .null

variable {type : Bool} {w t : World}

/-- A run that leaves the connection and the ledger alone ends the transaction only if there is
none. -/
theorem ended_iff_of_idle (h : Sound w) (hcur : t.group.curShardConn = w.group.curShardConn) :
    Ended type w t <-> w.group.curShardConn = .null := by
  constructor
  · intro hended
    rw [← hcur]
    exact hended.2
  intro hnull
  refine ⟨?_, hcur.trans hnull⟩
  intro nodeid hmem
  rw [h.executed_nil hnull] at hmem
  cases hmem

theorem ended_of_ends (h : Sound w) (hcur : t.group.curShardConn = .null)
    (hledger : t.ledger = w.ledger.ended w.group.curShardConn.conns type) : Ended type w t := by
  refine ⟨?_, hcur⟩
  intro nodeid hmem
  rw [hledger, Ledger.ended, List.drop_left]
  obtain ⟨con, hcon, rfl⟩ := List.mem_map.mp (h nodeid hmem)
  exact List.mem_map_of_mem hcon

/-- A commit that is not nested: the statements are completed and the group connection is asked
to end the transaction. -/
theorem endTransaction_run (hending : w.con.ending = false)
    (h : endTransaction type w = (.ok (), t)) :
    exists s, completeFor type w.entered = (.ok (), s) ∧
      t.group = (endTranRequest type s).2.group ∧ t.ledger = (endTranRequest type s).2.ledger := by
  have hmodify : modifyCon (fun con => { con with ending := true }) w = (.ok (), w.entered) := rfl
  rw [endTransaction, get_run, hending, if_neg Bool.false_ne_true, bind_ok hmodify] at h
  rcases hcomplete : completeFor type w.entered with ⟨e | _, s⟩
  · rw [bind_error hcomplete] at h
    cases h
  · rw [bind_ok hcomplete] at h
    obtain rfl := congrArg Prod.snd h
    exact ⟨s, rfl, rfl, rfl⟩

/-- A prepared statement of the given kind is executed on one shard, outside auto commit mode. -/
def oneShardRun (sqlType : SqlType) : List (Call × List Reply) :=
  [(.setAutoCommit false, []),
    (.prepareStatement true, [.nodes [1], .ok, .info ⟨sqlType, true, 0⟩, .ok]),
    (.executePrepared 1, [.keys [⟨7, 1⟩], .ok, .info ⟨sqlType, true, 0⟩, .ok])]

def World.after (labels : List (Call × List Reply)) : World :=
  labels.foldl (fun w call => (w.perform 0 call).2) .start

theorem reachable_after (labels : List (Call × List Reply))
    (h : System.Follows (fun _ _ => True) (fun w call => (World.perform 0 w call).2) .start
      labels) : (connection 0).Reachable (.after labels) :=
  System.reachable_of_follows labels h

/-- No shard has an open transaction that the driver has no connection for. -/
theorem executed_in_use {metaid : Nat} {w : World} (h : (connection metaid).Reachable w) :
    (forall nodeid, nodeid ∈ w.ledger.executed ->
      exists con, con ∈ w.group.curShardConn.conns ∧ con.nodeid = nodeid) ∧
    (w.group.curShardConn = .null -> w.ledger.executed = []) := by
  have hsound := sound_of_reachable h
  exact ⟨fun nodeid hmem => List.mem_map.mp (hsound nodeid hmem), hsound.executed_nil⟩

theorem executed_in_use_update :
    exists con, con ∈ (World.after (oneShardRun .dml)).group.curShardConn.conns ∧
      con.nodeid = 1 :=
  (executed_in_use (reachable_after _ (by decide))).1 1 (.head _)

end Rye.Jdbc
