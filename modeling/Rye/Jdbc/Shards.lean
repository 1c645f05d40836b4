import Rye.Jdbc.Connection

/-!
# Shards in use

A shard that has executed a statement in an open transaction is one of the connections in use:
every call keeps this, however its requests are answered.
-/

namespace Rye.Jdbc

open Foundation Foundation.Program List

/-!
## Shards with an open transaction
-/

def CurShardConn.nodes (cur : CurShardConn) : List Nat :=
  cur.conns.map ShardConn.nodeid

/-- The shards that have executed something are among the connections in use, and so are the
connections at hand. -/
structure Holds (cons : List ShardConn) (w : World) : Prop where
  executed : forall nodeid, nodeid ∈ w.ledger.executed -> nodeid ∈ w.group.curShardConn.nodes
  cons : forall con, con ∈ cons -> con.nodeid ∈ w.group.curShardConn.nodes

def Sound (w : World) : Prop :=
  forall nodeid, nodeid ∈ w.ledger.executed -> nodeid ∈ w.group.curShardConn.nodes

variable {cons : List ShardConn} {w : World} {A : Type}

theorem Holds.sound (h : Holds cons w) : Sound w :=
  h.executed

theorem Sound.holds (h : Sound w) : Holds [] w :=
  ⟨h, fun _ hmem => by cases hmem⟩

theorem Sound.executed_nil (h : Sound w) (hnull : w.group.curShardConn = .null) :
    w.ledger.executed = [] := by
  rw [eq_nil_iff_forall_not_mem]
  intro nodeid hmem
  have := h nodeid hmem
  rw [hnull] at this
  cases this

/-- A program that leaves the connection in use and the ledger alone. -/
def Frames {A : Type} (m : Java A) : Prop :=
  forall cur ledger, Keeps (fun w => w.group.curShardConn = cur ∧ w.ledger = ledger) m

theorem Frames.keeps {m : Java A} (h : Frames m) (cons : List ShardConn) :
    Keeps (Holds cons) m := by
  intro w hw
  have hrun := h w.group.curShardConn w.ledger w ⟨rfl, rfl⟩
  have hlift : forall t : World,
      t.group.curShardConn = w.group.curShardConn ∧ t.ledger = w.ledger -> Holds cons t := by
    rintro t ⟨hcur, hledger⟩
    refine ⟨?_, ?_⟩
    · rw [hcur, hledger]
      exact hw.executed
    · rw [hcur]
      exact hw.cons
  generalize m w = run at hrun
  rcases run with ⟨e | a, t⟩
  · exact hlift t hrun
  · exact hlift t hrun

section

variable {A B : Type}

namespace Frames

theorem pure (a : A) : Frames (Pure.pure a : Java A) :=
  fun _ _ => Keeps.pure a

theorem throw (e : ErrCode) : Frames (throw e : Java A) :=
  fun _ _ => Keeps.throw e

theorem bind {m : Java A} {k : A -> Java B} (hm : Frames m) (hk : forall a, Frames (k a)) :
    Frames (m >>= k) :=
  fun cur ledger => (hm cur ledger).bind fun a => hk a cur ledger

theorem get {k : World -> Java A} (hk : forall w, Frames (k w)) : Frames (get >>= k) :=
  fun cur ledger => Keeps.get fun w => hk w cur ledger

theorem modify {f : World -> World}
    (h : forall w, (f w).group.curShardConn = w.group.curShardConn ∧ (f w).ledger = w.ledger) :
    Frames (modify f : Java PUnit) := by
  intro cur ledger
  apply Keeps.modify
  rintro w ⟨rfl, rfl⟩
  exact h w

theorem ite {c : Prop} [Decidable c] {m n : Java A} (hm : Frames m) (hn : Frames n) :
    Frames (if c then m else n) :=
  fun cur ledger => Keeps.ite (hm cur ledger) (hn cur ledger)

theorem onlyIf (c : Bool) {m : Java Unit} (hm : Frames m) : Frames (Program.onlyIf c m) :=
  ite hm (pure _)

end Frames

end

theorem frames_nextReply : Frames nextReply := by
  apply Frames.get
  intro w
  split
  · exact Frames.throw _
  apply Frames.bind
  · exact Frames.modify fun _ => ⟨rfl, rfl⟩
  · intro _
    exact Frames.pure _

theorem frames_request : Frames request := by
  apply frames_nextReply.bind
  intro reply
  split
  · exact Frames.throw _
  · exact Frames.pure _

theorem frames_requestInfo : Frames requestInfo := by
  apply frames_nextReply.bind
  intro reply
  split
  · exact Frames.pure _
  · exact Frames.throw _
  · exact Frames.throw _

theorem frames_requestNodes : Frames requestNodes := by
  apply frames_nextReply.bind
  intro reply
  split
  · exact Frames.pure _
  · exact Frames.throw _
  · exact Frames.throw _

theorem frames_requestKeys : Frames requestKeys := by
  apply frames_nextReply.bind
  intro reply
  split
  · exact Frames.pure _
  · exact Frames.throw _
  · exact Frames.throw _

theorem frames_prepareShard (con : ShardConn) : Frames (prepareShard con) :=
  frames_requestInfo

variable (gid : Nat)

theorem frames_modifyGroupStmt (f : ShardGroupStatement -> ShardGroupStatement) :
    Frames (modifyGroupStmt gid f) :=
  Frames.modify fun _ => ⟨rfl, rfl⟩

variable (sid : Nat)

theorem frames_modifyStmt (f : Statement -> Statement) : Frames (modifyStmt sid f) :=
  Frames.modify fun _ => ⟨rfl, rfl⟩

theorem frames_modifyCon (f : RyeConnection -> RyeConnection) : Frames (modifyCon f) :=
  Frames.modify fun _ => ⟨rfl, rfl⟩

theorem frames_modifyGroup {f : ShardGroupConnection -> ShardGroupConnection}
    (h : forall group, (f group).curShardConn = group.curShardConn) : Frames (modifyGroup f) :=
  Frames.modify fun w => ⟨h w.group, rfl⟩

theorem frames_setAutoCommit (autoCommit : Bool) : Frames (setAutoCommit autoCommit) :=
  frames_modifyGroup fun _ => rfl

theorem frames_throwIfSome (exception : Option ErrCode) : Frames (throwIfSome exception) := by
  cases exception with
  | none => exact Frames.pure _
  | some e => exact Frames.throw e

theorem frames_closeCursor : Frames (closeCursor gid) := by
  apply Frames.get
  intro w
  apply Frames.ite
  · exact (frames_modifyGroupStmt _ _).bind fun _ => frames_modifyGroup fun _ => rfl
  · exact Frames.pure _

theorem frames_setExecuteResultCursor : Frames (setExecuteResultCursor gid) :=
  (frames_modifyGroupStmt _ _).bind fun _ => frames_modifyGroup fun _ => rfl

/-!
## Completing statements

Nothing of this touches the shards, so long as nothing is committed on the way.
-/

theorem frames_closeStmtCursor : Frames (closeStmtCursor sid) := by
  apply Frames.get
  intro w
  split
  · exact frames_closeCursor _
  · exact Frames.throw _

theorem frames_closeJciStmt : Frames (closeJciStmt sid) := by
  apply Frames.get
  intro w
  split
  · exact Frames.pure _
  · exact (frames_closeCursor _).bind fun _ => frames_modifyStmt _ _

section

/-! What a program that leaves them alone keeps is kept if what follows on it is kept. -/

variable {I : World -> Prop} (hI : forall {A : Type} {m : Java A}, Frames m -> Keeps I m) (sid : Nat)
include hI

theorem keeps_closeResultSetWith {complete : Java Unit} (h : Keeps I complete) :
    Keeps I (closeResultSetWith sid complete) := by
  apply Keeps.get
  intro w
  split
  · exact Keeps.pure _
  apply Keeps.ite
  · exact Keeps.pure _
  apply (hI (frames_modifyStmt _ _)).bind
  intro _
  apply (Keeps.onlyIf _ (hI (frames_closeStmtCursor sid))).bind
  intro _
  exact Keeps.onlyIf _ h

variable {autoCommit : Java Unit} (h : Keeps I autoCommit)
include h

theorem keeps_completeWith : Keeps I (completeWith sid autoCommit) := by
  apply Keeps.get
  intro w
  apply Keeps.ite
  · exact Keeps.pure _
  apply (hI (frames_modifyStmt _ _)).bind
  intro _
  apply (keeps_closeResultSetWith hI sid (Keeps.pure _)).bind
  intro _
  apply (hI (frames_modifyStmt _ _)).bind
  intro _
  exact (Keeps.onlyIf _ (hI (frames_closeJciStmt sid))).bind fun _ => h

theorem keeps_closeWith : Keeps I (closeWith sid autoCommit) := by
  apply Keeps.get
  intro w
  apply Keeps.ite
  · exact Keeps.pure _
  apply (keeps_completeWith hI sid h).bind
  intro _
  apply (hI (frames_modifyStmt _ _)).bind
  intro _
  exact (Keeps.onlyIf _ (hI (frames_closeJciStmt sid))).bind fun _ => hI (frames_modifyCon _)

end

theorem frames_completeWith (sid : Nat) : Frames (completeWith sid (pure ())) :=
  fun cur ledger => keeps_completeWith (fun hm => hm cur ledger) sid (Keeps.pure _)

theorem frames_closeWith (sid : Nat) : Frames (closeWith sid (pure ())) :=
  fun cur ledger => keeps_closeWith (fun hm => hm cur ledger) sid (Keeps.pure _)

variable (passes : Statement -> Bool) (mark : Statement -> Statement)

theorem frames_completeStatement (i sid : Nat) (stmt : Statement) :
    Frames (completeStatement passes mark i sid stmt) := by
  apply Frames.ite
  · exact frames_modifyStmt _ _
  apply Frames.ite
  · apply (frames_modifyCon _).bind
    intro _
    apply Frames.ite
    · exact frames_completeWith _
    · exact frames_closeWith _
  · exact frames_completeWith _

theorem frames_completeStatements (rounds i : Nat) :
    Frames (completeStatements passes mark rounds i) := by
  induction rounds generalizing i with
  | zero => exact Frames.pure _
  | succ rounds ih =>
    apply Frames.get
    intro w
    split
    · exact Frames.pure _
    · exact (frames_completeStatement _ _ _ _ _).bind fun _ => ih (i + 1)

variable (type : Bool)

theorem frames_completeFor : Frames (completeFor type) := by
  apply Frames.ite
  · exact Frames.get fun w => frames_completeStatements _ _ _ _
  · exact Frames.get fun w => frames_completeStatements _ _ _ _

/-!
## Ending the transaction on the shards
-/

theorem request_state (w : World) : exists rest, (request w).2 = { w with replies := rest } := by
  obtain ⟨con, group, stmts, groupStmts, nextId, ledger, replies⟩ := w
  cases replies with
  | nil => exact ⟨[], rfl⟩
  | cons reply rest =>
    refine ⟨rest, ?_⟩
    cases reply <;> rfl

/-- The ledger after the requests to end the transaction of `cons`. -/
def Ledger.ended (ledger : Ledger) (cons : List ShardConn) (type : Bool) : Ledger where
  executed := ledger.executed.filter fun nodeid => !(cons.map ShardConn.nodeid).contains nodeid
  sent := ledger.sent ++ cons.map fun con => (con.nodeid, type)

theorem closeShardConnection_run (con : ShardConn) (type : Bool) (w : World) :
    exists res rest, closeShardConnection con type w =
      (.ok res, { w with ledger := w.ledger.ended [con] type, replies := rest }) := by
  obtain ⟨rest, hrest⟩ := request_state { w with ledger := w.ledger.ended [con] type }
  have hledger : w.ledger.ended [con] type =
      ⟨w.ledger.executed.filter (fun nodeid => nodeid != con.nodeid),
        w.ledger.sent ++ [(con.nodeid, type)]⟩ := by
    rw [Ledger.ended]
    congr 1
    apply filter_congr
    intro nodeid _
    rw [map_singleton, contains_cons, contains_nil, Bool.or_false]
    rfl
  have hrun : (shardEndTranRequest con type).attempt w =
      (.ok (request { w with ledger := w.ledger.ended [con] type }).1,
        { w with ledger := w.ledger.ended [con] type, replies := rest }) := by
    rw [← hrest, hledger]
    rfl
  rw [closeShardConnection, bind_ok hrun]
  cases (request { w with ledger := w.ledger.ended [con] type }).1 with
  | ok _ => exact ⟨none, rest, rfl⟩
  | error e => exact ⟨some e, rest, rfl⟩

theorem Ledger.ended_cons (ledger : Ledger) (con : ShardConn) (cons : List ShardConn)
    (type : Bool) :
    (ledger.ended [con] type).ended cons type = ledger.ended (con :: cons) type := by
  simp only [Ledger.ended, filter_filter, map_cons, map_nil, append_assoc,
    cons_append, nil_append, Ledger.mk.injEq, and_true]
  apply filter_congr
  intro nodeid _
  rw [contains_cons, contains_cons, contains_nil, Bool.or_false, Bool.not_or, Bool.and_comm]

theorem closeShardConnections_run (cons : List ShardConn) (type : Bool)
    (exception : Option ErrCode) (w : World) :
    exists res rest, closeShardConnections type cons exception w =
      (.ok res, { w with ledger := w.ledger.ended cons type, replies := rest }) := by
  induction cons generalizing exception w with
  | nil =>
    refine ⟨exception, w.replies, ?_⟩
    have hledger : w.ledger.ended [] type = w.ledger := by
      simp [Ledger.ended]
    rw [hledger]
    rfl
  | cons con cons ih =>
    obtain ⟨e, rest, hcon⟩ := closeShardConnection_run con type w
    obtain ⟨res, rest', hcons⟩ := ih (appendException exception e)
      { w with ledger := w.ledger.ended [con] type, replies := rest }
    refine ⟨res, rest', ?_⟩
    rw [closeShardConnections, bind_ok hcon, hcons]
    rw [Ledger.ended_cons]

/-- With a connection in use and no cursor registered, the transaction is ended on every
connection. -/
theorem endTranRequest_ends (hcur : w.group.curShardConn ≠ .null)
    (hcursors : w.group.openCursorList = []) :
    (endTranRequest type w).2.group.curShardConn = .null ∧
      (endTranRequest type w).2.ledger = w.ledger.ended w.group.curShardConn.conns type := by
  obtain ⟨res, rest, hclose⟩ := closeShardConnections_run w.group.curShardConn.conns type none w
  have hcond : w.group.curShardConn ≠ .null ∧ w.group.openCursorList.length = 0 := by
    rw [hcursors]
    exact ⟨hcur, rfl⟩
  have hfirst : closeCurShardConn type w =
      (.ok res, { w with
        group := { w.group with curShardConn := .null }
        ledger := w.ledger.ended w.group.curShardConn.conns type
        replies := rest }) := by
    rw [closeCurShardConn, get_run, if_pos hcond, bind_ok hclose]
    rfl
  rw [endTranRequest, bind_ok hfirst]
  cases res with
  | none | some e => exact ⟨rfl, rfl⟩

theorem endTranRequest_idle (h : w.group.curShardConn = .null ∨ w.group.openCursorList ≠ []) :
    (endTranRequest type w).2.group.curShardConn = w.group.curShardConn ∧
      (endTranRequest type w).2.ledger = w.ledger := by
  have hcond : ¬ (w.group.curShardConn ≠ .null ∧ w.group.openCursorList.length = 0) := by
    rintro ⟨hcur, hcursors⟩
    rcases h with h | h
    · exact hcur h
    · exact h (length_eq_zero_iff.mp hcursors)
  have hfirst : closeCurShardConn type w = (.ok none, w) := by
    rw [closeCurShardConn, get_run, if_neg hcond]
    rfl
  rw [endTranRequest, bind_ok hfirst]
  refine ⟨?_, rfl⟩
  change (if w.group.curShardConn = .null then { w.group with curShardConnType := .none }
    else w.group).curShardConn = _
  split_ifs <;> rfl

theorem ended_executed (h : Sound w) (type : Bool) :
    (w.ledger.ended w.group.curShardConn.conns type).executed = [] := by
  rw [Ledger.ended, filter_eq_nil_iff]
  intro nodeid hmem
  have := h nodeid hmem
  rw [CurShardConn.nodes] at this
  simpa using this

theorem sound_endTranRequest : Keeps Sound (endTranRequest type) := by
  apply Keeps.of_state
  intro w hw
  by_cases h : w.group.curShardConn = .null ∨ w.group.openCursorList ≠ []
  · obtain ⟨hcur, hledger⟩ := endTranRequest_idle type h
    rw [Sound, hcur, hledger]
    exact hw
  rw [not_or, not_not] at h
  obtain ⟨hcur, hledger⟩ := endTranRequest_ends type h.1 h.2
  rw [Sound, hledger, ended_executed hw]
  intro nodeid hmem
  cases hmem

/-!
## Taking and using connections
-/

def Takes {A : Type} (m : Java A) (cons : A -> List ShardConn) : Prop :=
  Triple Sound m (fun a => Holds (cons a)) Sound

/-- With the connections in use at the beginning, the end is sound. -/
def Uses {A : Type} (cons : List ShardConn) (m : Java A) : Prop :=
  Triple (Holds cons) m (fun _ => Sound) Sound

section

variable {A B : Type} {cons : List ShardConn} {m : Java A}

theorem Frames.sound (h : Frames m) : Keeps Sound m :=
  (h.keeps []).weaken (fun _ hw => hw.holds) (fun _ _ hw => hw.sound) fun _ hw => hw.sound

theorem Uses.of_keeps (h : Keeps (Holds cons) m) : Uses cons m :=
  h.weaken (fun _ hw => hw) (fun _ _ hw => hw.sound) fun _ hw => hw.sound

theorem Uses.of_sound (h : Keeps Sound m) : Uses cons m :=
  h.weaken (fun _ hw => hw.sound) (fun _ _ hw => hw) fun _ hw => hw

variable {k : A -> Java B}

theorem Uses.bind (hm : Keeps (Holds cons) m) (hk : forall a, Uses cons (k a)) :
    Uses cons (m >>= k) := by
  refine Triple.bind ?_ hk
  exact hm.weaken (fun _ hw => hw) (fun _ _ hw => hw) fun _ hw => hw.sound

theorem Takes.bind {cons : A -> List ShardConn} (hm : Takes m cons)
    (hk : forall a, Uses (cons a) (k a)) : Keeps Sound (m >>= k) :=
  Triple.bind hm hk

theorem Takes.after {cons : B -> List ShardConn} (hm : Keeps Sound m)
    (hk : forall a, Takes (k a) cons) : Takes (m >>= k) cons :=
  Triple.bind hm hk

end

theorem takes_open (hw : Sound w) (hnull : w.group.curShardConn = .null)
    (f : ShardGroupConnection -> ShardGroupConnection) (a : A) (cons : A -> List ShardConn)
    (hf : forall group con, con ∈ cons a -> con.nodeid ∈ (f group).curShardConn.nodes) :
    Triple (fun s => s = w) (do
      request
      modifyGroup f
      pure a) (fun a => Holds (cons a)) Sound := by
  have hnone := hw.executed_nil hnull
  have hrequest := frames_request .null w.ledger
  refine Triple.bind (hrequest.weaken ?_ (fun _ _ ht => ht) ?_) ?_
  · rintro s rfl
    exact ⟨hnull, rfl⟩
  · rintro t ⟨_, hledger⟩ nodeid hmem
    rw [hledger, hnone] at hmem
    cases hmem
  intro _ s hs
  refine ⟨?_, ?_⟩
  · intro nodeid hmem
    rw [hs.2, hnone] at hmem
    cases hmem
  · exact hf s.group

theorem takes_pure (hw : Sound w) (a : A) (cons : A -> List ShardConn)
    (hcons : forall con, con ∈ cons a -> con ∈ w.group.curShardConn.conns) :
    Triple (fun s => s = w) (pure a : Java A) (fun a => Holds (cons a)) Sound := by
  rintro s rfl
  exact ⟨hw, fun con hcon => mem_map_of_mem (hcons con hcon)⟩

theorem takes_throw (hw : Sound w) (e : ErrCode) (Q : A -> World -> Prop) :
    Triple (fun s => s = w) (throw e : Java A) Q Sound := by
  rintro s rfl
  exact hw

variable (metaid : Nat) (conType : ConnType) (shardKey : Option ShardKey)

theorem frames_wantedNode : Frames (wantedNode metaid conType shardKey) := by
  cases conType with
  | oneShard =>
    cases shardKey with
    | none => exact Frames.throw _
    | some shardKey => exact Frames.pure _
  | metadb => exact Frames.pure _
  | anyShard =>
    apply frames_requestNodes.bind
    intro nodeids
    split
    · exact Frames.pure _
    · exact Frames.throw _
  | _ => exact Frames.throw _

theorem takes_getConnection : Takes (getConnection metaid conType shardKey) fun con => [con] := by
  apply Takes.after (frames_wantedNode metaid conType shardKey).sound
  intro nodeid
  apply Triple.get
  intro w hw
  have hone : forall con, w.group.curShardConn = .one con ->
      forall con', con' ∈ [con] -> con' ∈ w.group.curShardConn.conns := by
    intro con hcur con' hmem
    rw [hcur]
    exact hmem
  split
  · refine takes_open hw ‹_› _ (⟨nodeid, shardKey.map ShardKey.key⟩ : ShardConn) _ ?_
    intro group con hmem
    rw [mem_singleton] at hmem
    rw [hmem]
    exact mem_singleton_self _
  · split_ifs
    · exact takes_pure hw _ _ (hone _ ‹_›)
    · exact takes_throw hw _ _
  · exact takes_throw hw _ _
  · split_ifs
    · exact takes_pure hw _ _ (hone _ ‹_›)
    · exact takes_throw hw _ _
  · split_ifs
    · exact takes_pure hw _ _ (hone _ ‹_›)
    · exact takes_throw hw _ _
  · rename_i cons hcur
    split
    · rename_i con hfind
      refine takes_pure hw con _ ?_
      intro con' hmem
      rw [mem_singleton] at hmem
      rw [hmem, hcur]
      exact mem_of_find?_eq_some hfind
    · exact takes_throw hw _ _
  · exact takes_throw hw _ _

theorem takes_getConnectionArray (nodeids : List Nat) :
    Takes (getConnectionArray conType nodeids) fun cons => cons := by
  apply Triple.get
  intro w hw
  split
  · refine takes_open hw ‹_› _ (nodeids.map fun nodeid => (⟨nodeid, none⟩ : ShardConn)) _ ?_
    intro group con hmem
    exact mem_map_of_mem hmem
  · exact takes_throw hw _ _
  rename_i cons hcur
  split_ifs
  · refine takes_pure hw _ _ ?_
    intro con hmem
    rw [hcur]
    exact (mem_filter.mp hmem).1
  · refine takes_pure hw _ _ ?_
    intro con hmem
    rw [hcur]
    exact hmem
  · exact takes_throw hw _ _

theorem takes_getAllDmlConnectionArray : Takes getAllDmlConnectionArray fun cons => cons :=
  Takes.after frames_requestNodes.sound fun _ => takes_getConnectionArray _ _

theorem takes_getAllDdlConnectionArray : Takes getAllDdlConnectionArray fun cons => cons :=
  Takes.after frames_requestNodes.sound fun _ => takes_getConnectionArray _ _

theorem takes_getSelectConnection :
    Takes (getSelectConnection metaid shardKey) fun con => [con] := by
  cases shardKey with
  | none | some shardKey => exact takes_getConnection _ _ _

variable (shardKeys : List ShardKey)

theorem takes_getSelectConnectionArray :
    Takes (getSelectConnectionArray shardKeys) fun cons => cons := by
  rw [getSelectConnectionArray]
  split_ifs
  · exact Takes.after frames_requestNodes.sound fun _ => takes_getConnectionArray _ _
  · exact takes_getConnectionArray _ _

theorem keeps_shardExecute {con : ShardConn} (hcon : con ∈ cons) :
    Keeps (Holds cons) (shardExecute con) := by
  refine Keeps.bind (Keeps.modify ?_) fun _ => frames_request.keeps cons
  intro w hw
  refine ⟨?_, hw.cons⟩
  intro nodeid hmem
  rcases mem_cons.mp hmem with rfl | hmem
  · exact hw.cons con hcon
  · exact hw.executed nodeid hmem

theorem keeps_executeDdlOn (todo : List ShardConn) (htodo : forall con, con ∈ todo -> con ∈ cons)
    (exception : Option ErrCode) : Keeps (Holds cons) (executeDdlOn todo exception) := by
  induction todo generalizing exception with
  | nil => exact Keeps.pure _
  | cons con todo ih =>
    have ih := ih fun con' hmem => htodo con' (mem_cons_of_mem _ hmem)
    apply Keeps.bind
    · apply Keeps.attempt
      apply ((frames_prepareShard con).keeps cons).bind
      intro _
      exact keeps_shardExecute (htodo con mem_cons_self)
    · intro res
      split
      · exact ih _
      · exact ih _

variable (stopOnError : Bool)

/-- The statements prepared on `todo` are on connections at hand. -/
theorem prepareNShard_spec (todo : List ShardConn) (htodo : forall con, con ∈ todo -> con ∈ cons)
    (shardKeyInfo : Option Nat) (exception : Option ErrCode) (done : List (ShardConn × Bool))
    (hdone : forall stmt, stmt ∈ done -> stmt.1 ∈ cons) :
    Triple (Holds cons) (prepareNShard stopOnError todo shardKeyInfo exception done)
      (fun res w => Holds cons w ∧ forall stmt, stmt ∈ res.2 -> stmt.1 ∈ cons) (Holds cons) := by
  induction todo generalizing shardKeyInfo exception done with
  | nil => exact Triple.pure fun w hw => ⟨hw, hdone⟩
  | cons con todo ih =>
    have hcon := htodo con mem_cons_self
    have ih := ih fun con' hmem => htodo con' (mem_cons_of_mem _ hmem)
    have hstep : forall (flag : Bool) stmt, stmt ∈ done ++ [(con, flag)] -> stmt.1 ∈ cons := by
      intro flag stmt hmem
      rcases mem_append.mp hmem with hmem | hmem
      · exact hdone stmt hmem
      · rw [mem_singleton] at hmem
        rw [hmem]
        exact hcon
    have hfailed : forall e : ErrCode, Triple (Holds cons)
        (if e = .shardDifferentShardKeyInfo ∨ stopOnError = true then
          pure (some e, (done.map Prod.fst ++ con :: todo).map fun con => (con, false))
        else
          prepareNShard stopOnError todo shardKeyInfo (appendException exception (some e))
            (done ++ [(con, false)]))
        (fun res w => Holds cons w ∧ forall stmt, stmt ∈ res.2 -> stmt.1 ∈ cons)
        (Holds cons) := by
      intro e
      split_ifs
      · refine Triple.pure fun w hw => ⟨hw, ?_⟩
        intro stmt hmem
        obtain ⟨con', hcon', rfl⟩ := mem_map.mp hmem
        rcases mem_append.mp hcon' with hmem | hmem
        · obtain ⟨stmt, hstmt, rfl⟩ := mem_map.mp hmem
          exact hdone stmt hstmt
        · exact htodo con' hmem
      · exact ih _ _ _ (hstep false)
    apply Triple.bind ((frames_prepareShard con).keeps cons).attempt
    intro res
    split
    · exact hfailed _
    split
    · exact ih _ _ _ (hstep true)
    · split_ifs
      · exact ih _ _ _ (hstep true)
      · exact hfailed _

theorem keeps_executeNShard (todo : List (ShardConn × Bool))
    (htodo : forall stmt, stmt ∈ todo -> stmt.1 ∈ cons) (exception : Option ErrCode)
    (done : List (ShardConn × Bool)) :
    Keeps (Holds cons) (executeNShard stopOnError todo exception done) := by
  induction todo generalizing exception done with
  | nil => exact Keeps.pure _
  | cons stmt todo ih =>
    have ih := ih fun stmt' hmem => htodo stmt' (mem_cons_of_mem _ hmem)
    obtain ⟨con, flag⟩ := stmt
    cases flag with
    | false => exact ih _ _
    | true =>
      apply Keeps.bind (keeps_shardExecute (htodo _ mem_cons_self)).attempt
      intro res
      split
      · exact ih _ _
      · exact ih _ _
      · split_ifs
        · exact Keeps.pure _
        · exact ih _ _

/-!
## Every call is sound
-/

theorem sound_shardAutoCommit : Keeps Sound shardAutoCommit := by
  apply Keeps.get
  intro w
  have hend : Keeps Sound (tryCatch (endTranRequest true) fun _ => endTranRequest false) :=
    Keeps.tryCatch (sound_endTranRequest true) fun _ => sound_endTranRequest false
  cases w.group.curShardConnType <;> first | exact hend | exact Keeps.pure _

theorem uses_prepareNShard (stopOnError' : Bool)
    {k : Option ErrCode × List (ShardConn × Bool) -> Java A}
    (hk : forall executed, Uses cons (k executed)) :
    Uses cons (do
      let prepared ← prepareNShard stopOnError cons none none []
      let executed ← executeNShard stopOnError' prepared.2 prepared.1 []
      k executed) := by
  have hprepare := prepareNShard_spec stopOnError cons (fun _ hmem => hmem) none none []
    fun _ hmem => by cases hmem
  refine Triple.bind (hprepare.weaken (fun _ hw => hw) (fun _ _ hw => hw) fun _ hw => hw.sound) ?_
  intro prepared w hw
  have hexecute := keeps_executeNShard stopOnError' prepared.2 hw.2 prepared.1 []
  exact Uses.bind hexecute hk w hw.1

theorem sound_prepareRequest : Keeps Sound (prepareRequest metaid) := by
  refine Keeps.ensure ?_ sound_shardAutoCommit
  apply (takes_getConnection _ _ _).bind
  intro con
  apply Uses.bind ((frames_prepareShard con).keeps _)
  intro queryInfo
  apply Uses.of_keeps
  apply Keeps.get
  intro w
  apply Frames.keeps
  refine Frames.bind (Frames.modify ?_) fun _ => Frames.pure _
  intro w
  exact ⟨rfl, rfl⟩

variable (gid : Nat)

theorem sound_refreshPrepareInfo : Keeps Sound (refreshPrepareInfo metaid gid) := by
  refine Keeps.ensure ?_ sound_shardAutoCommit
  apply (takes_getConnection _ _ _).bind
  intro con
  apply Uses.bind ((frames_prepareShard con).keeps _)
  intro queryInfo
  exact Uses.of_keeps ((frames_modifyGroupStmt _ _).keeps _)

theorem sound_executeShardDDL : Keeps Sound (executeShardDDL gid) := by
  apply Keeps.get
  intro w
  have hbefore : Keeps Sound (do
      endTranRequest true
      setAutoCommit true) :=
    (sound_endTranRequest true).bind fun _ => (frames_setAutoCommit true).sound
  apply (Keeps.onlyIf _ hbefore).bind
  intro _
  apply takes_getAllDdlConnectionArray.bind
  intro cons
  apply Uses.bind (keeps_executeDdlOn cons (fun _ hmem => hmem) none)
  intro exception
  apply Uses.of_sound
  apply (sound_endTranRequest true).bind
  intro _
  apply (frames_setAutoCommit _).sound.bind
  intro _
  exact (Frames.ite (frames_modifyGroupStmt _ _) (frames_throwIfSome exception)).sound

theorem sound_executeShardAllDML : Keeps Sound (executeShardAllDML gid) := by
  apply Keeps.get
  intro w
  apply (frames_setAutoCommit false).sound.bind
  intro _
  apply takes_getAllDmlConnectionArray.bind
  intro cons
  apply uses_prepareNShard
  intro executed
  apply Uses.of_sound
  apply (Frames.onlyIf _ (frames_modifyGroupStmt _ _)).sound.bind
  intro _
  have hend : Keeps Sound (do
      endTranRequest (executed.1 == none)
      setAutoCommit true) :=
    (sound_endTranRequest _).bind fun _ => (frames_setAutoCommit true).sound
  exact (Keeps.onlyIf _ hend).bind fun _ => (frames_throwIfSome _).sound

theorem sound_executeShardDML (shardKey : ShardKey) :
    Keeps Sound (executeShardDML metaid gid shardKey) := by
  apply (takes_getConnection _ _ _).bind
  intro con
  apply Uses.bind ((frames_prepareShard con).keeps _)
  intro _
  apply Uses.bind (keeps_shardExecute (mem_singleton_self con))
  intro _
  exact Uses.of_keeps ((frames_modifyGroupStmt _ _).keeps _)

theorem sound_executeOneShardSELECT : Keeps Sound (executeOneShardSELECT metaid gid shardKey) := by
  apply (takes_getSelectConnection metaid shardKey).bind
  intro con
  apply Uses.bind ((frames_prepareShard con).keeps _)
  intro _
  apply Uses.bind (keeps_shardExecute (mem_singleton_self con))
  intro _
  exact Uses.of_keeps ((frames_setExecuteResultCursor gid).keeps _)

theorem sound_executeNShardSELECT : Keeps Sound (executeNShardSELECT gid shardKeys) := by
  apply (takes_getSelectConnectionArray shardKeys).bind
  intro cons
  apply uses_prepareNShard
  intro executed
  apply Uses.of_sound
  exact (Frames.ite (frames_setExecuteResultCursor gid) (frames_throwIfSome executed.1)).sound

theorem sound_executeSelect (isShardTableQuery : Bool) (shardKeys : List ShardKey) :
    Keeps Sound (executeSelect metaid gid isShardTableQuery shardKeys) := by
  apply Keeps.ite
  · split
    · exact sound_executeOneShardSELECT _ _ _
    · exact sound_executeNShardSELECT _ _
  · exact sound_executeOneShardSELECT _ _ _

theorem sound_executeInternal : Keeps Sound (executeInternal metaid gid) := by
  apply Keeps.get
  intro w
  apply frames_requestKeys.sound.bind
  intro shardKeys
  apply Keeps.ite
  · exact Keeps.throw _
  split
  · apply (sound_endTranRequest true).bind
    intro _
    apply frames_request.sound.bind
    intro _
    exact Keeps.ensure (sound_executeShardDDL gid) frames_request.sound
  · apply Keeps.ite
    · split
      · exact sound_executeShardDML _ _ _
      · exact Keeps.throw _
    · exact sound_executeShardAllDML gid
  · apply Keeps.ite
    · exact Keeps.throw _
    · exact sound_executeSelect _ _ _ _
  · exact sound_executeSelect _ _ _ _
  · exact sound_endTranRequest true
  · exact sound_endTranRequest false
  · exact Keeps.pure _
  · exact Keeps.throw _

variable (e : ErrCode)

theorem frames_checkInvalidGroupidError (isInTran : Bool) :
    Frames (checkInvalidGroupidError e isInTran) := by
  apply Frames.ite
  · apply Frames.ite
    · exact Frames.throw _
    · exact frames_request.bind fun _ => Frames.pure _
  · exact Frames.pure _

theorem frames_checkDifferentShardKeyInfoError (wasForcePrepare : Bool) :
    Frames (checkDifferentShardKeyInfoError e wasForcePrepare) := by
  apply Frames.ite
  · exact Frames.pure _
  apply Frames.ite
  · exact Frames.ite (Frames.throw _) (Frames.pure _)
  · exact Frames.throw _

theorem sound_recover (isInTran forcePrepare : Bool) (e : ErrCode) :
    Keeps Sound (recover metaid gid isInTran forcePrepare e) := by
  apply (frames_checkInvalidGroupidError e isInTran).sound.bind
  intro retryInvalidGroupid
  have hrefresh : Keeps Sound (do
      checkDifferentShardKeyInfoError e forcePrepare
      refreshPrepareInfo metaid gid) :=
    (frames_checkDifferentShardKeyInfoError e forcePrepare).sound.bind
      fun _ => sound_refreshPrepareInfo metaid gid
  apply (Keeps.onlyIf _ hrefresh).bind
  intro _
  exact (Keeps.onlyIf _ (sound_endTranRequest false)).bind fun _ => Keeps.pure _

theorem sound_executeRetry (retries : Nat) (forcePrepare : Bool) :
    Keeps Sound (executeRetry metaid gid retries forcePrepare) := by
  induction retries generalizing forcePrepare with
  | zero => exact Keeps.ensure (sound_executeInternal metaid gid) sound_shardAutoCommit
  | succ retries ih =>
    apply Keeps.get
    intro w
    apply Keeps.bind
    · refine Keeps.ensure (Keeps.tryCatch ?_ ?_) sound_shardAutoCommit
      · exact (sound_executeInternal metaid gid).bind fun _ => Keeps.pure _
      · intro e
        exact (sound_recover metaid gid _ forcePrepare e).bind fun _ => Keeps.pure _
    · intro again
      split
      · exact Keeps.pure _
      · exact ih _

theorem sound_endTransaction (type : Bool) : Keeps Sound (endTransaction type) := by
  apply Keeps.get
  intro w
  apply Keeps.ite
  · exact Keeps.pure _
  apply (frames_modifyCon _).sound.bind
  intro _
  apply (frames_completeFor type).sound.bind
  intro _
  exact Keeps.ensure (sound_endTranRequest type) (frames_modifyCon _).sound

theorem sound_autoCommit : Keeps Sound autoCommit :=
  Keeps.get fun _ => Keeps.ite (sound_endTransaction true) (Keeps.pure _)

theorem sound_autoRollback : Keeps Sound autoRollback :=
  Keeps.get fun _ => Keeps.ite (sound_endTransaction false) (Keeps.pure _)

variable (sid : Nat)

theorem sound_complete : Keeps Sound (complete sid) :=
  keeps_completeWith Frames.sound sid sound_autoCommit

theorem sound_closeResultSet : Keeps Sound (closeResultSet sid) :=
  keeps_closeResultSetWith Frames.sound sid (sound_complete sid)

theorem sound_close : Keeps Sound (close sid) :=
  keeps_closeWith Frames.sound sid sound_autoCommit

theorem sound_rethrow : Keeps Sound (do
    autoRollback
    throw e : Java A) :=
  sound_autoRollback.bind fun _ => Keeps.throw e

theorem sound_prepare : Keeps Sound (prepare metaid) :=
  Keeps.tryCatch (sound_prepareRequest metaid) sound_rethrow

theorem frames_checkIsOpen : Frames (checkIsOpen sid) :=
  Frames.get fun _ => Frames.ite (Frames.throw _) (Frames.pure _)

theorem sound_completeIfOpen : Keeps Sound (completeIfOpen sid) :=
  Keeps.get fun _ => Keeps.ite (Keeps.pure _) (sound_complete sid)

theorem sound_executeCore : Keeps Sound (executeCore metaid sid) := by
  apply (sound_closeResultSet sid).bind
  intro _
  apply (frames_modifyStmt _ _).sound.bind
  intro _
  apply Keeps.get
  intro w
  split
  · exact Keeps.throw _
  apply (Keeps.tryCatch (sound_executeRetry _ _ _ _) sound_rethrow).bind
  intro _
  apply Keeps.get
  intro w
  apply Keeps.ite
  · exact (frames_modifyStmt _ _).sound.bind fun _ => Keeps.pure _
  · exact Keeps.pure _

theorem sound_executeSql (execType : ExecuteType) :
    Keeps Sound (executeSql metaid sid execType) := by
  apply (frames_checkIsOpen sid).sound.bind
  intro _
  apply (sound_completeIfOpen sid).bind
  intro _
  apply (sound_prepare metaid).bind
  intro gid
  apply (frames_modifyStmt _ _).sound.bind
  intro _
  apply Keeps.get
  intro w
  apply Keeps.ite
  · apply (frames_closeCursor gid).sound.bind
    intro _
    exact (frames_modifyStmt _ _).sound.bind fun _ => Keeps.throw _
  · exact (sound_executeCore metaid sid).bind fun _ => Keeps.pure _

theorem sound_executePrepared : Keeps Sound (executePrepared metaid sid) := by
  apply (frames_checkIsOpen sid).sound.bind
  intro _
  apply (sound_completeIfOpen sid).bind
  intro _
  apply (sound_executeCore metaid sid).bind
  intro hasRows
  exact Keeps.ite (Keeps.pure _) (sound_complete sid)

theorem sound_addStatement (stmt : Statement) : Keeps Sound (addStatement stmt) :=
  Keeps.modify fun _ hw => hw

theorem sound_conSetAutoCommit (newAutoCommit : Bool) :
    Keeps Sound (conSetAutoCommit newAutoCommit) := by
  apply Keeps.get
  intro w
  apply (Keeps.onlyIf _ (sound_endTransaction true)).bind
  intro _
  apply (frames_modifyCon _).sound.bind
  intro _
  exact (frames_setAutoCommit _).sound

theorem sound_program (call : Call) : Keeps Sound (call.program metaid) := by
  cases call with
  | createStatement isHoldable => exact sound_addStatement _
  | prepareStatement isHoldable => exact (sound_prepare metaid).bind fun _ => sound_addStatement _
  | executeSql sid execType => exact sound_executeSql metaid sid execType
  | executePrepared sid => exact sound_executePrepared metaid sid
  | closeResultSet sid => exact sound_closeResultSet sid
  | close sid => exact sound_close sid
  | endTransaction type => exact sound_endTransaction type
  | setAutoCommit autoCommit => exact sound_conSetAutoCommit autoCommit

theorem sound_of_reachable {metaid : Nat} (h : (connection metaid).Reachable w) : Sound w := by
  refine h.invariant Sound ?_ ?_
  · rintro w rfl nodeid hmem
    cases hmem
  · rintro w call t hw ⟨_, rfl⟩
    have hstart : Sound { w with replies := call.2 } := hw
    exact (sound_program metaid call.1).state hstart

end Rye.Jdbc
