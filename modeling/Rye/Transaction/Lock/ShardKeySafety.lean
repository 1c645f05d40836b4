import Rye.Transaction.Lock.Bookkeeping
import Rye.Transaction.Lock.ShardKey

/-!
# Writers of a shard key

Only exclusive locks are asked for on shard keys, so a key has at most one holder,
and no holder is ever blocked.  Such a holder stays until its transaction ends or
gives up a request.

A transaction that writes first records its key together with the lock.  A
transaction that reads first records the key without the lock, and a later
statement that writes finds the key recorded and asks for nothing.
-/

namespace Rye.Transaction

open Foundation List

/-!
## Locks that are asked for exclusively
-/

/-- At most one holder, which is exclusive, and only exclusive requests. -/
structure LkRes.Exclusive (r : LkRes) : Prop where
  holder : (r.holder = [] ∧ r.totalHoldersMode = .null) ∨
    exists e, r.holder = [e] ∧ e.grantedMode = .x ∧ e.blockedMode = .null ∧ r.totalHoldersMode = .x
  waiter : forall e, e ∈ r.waiter -> e.blockedMode = .x

def lockOwner (res : Option LkRes) : Option Nat :=
  res.bind fun r => r.holder.head?.map LkEntry.tranIndex

/-- What the walks over the waiters keep: the holder part, and a holder that is there. -/
structure Admits (r r' : LkRes) : Prop where
  holder : (r'.holder = [] ∧ r'.totalHoldersMode = .null) ∨
    exists e, r'.holder = [e] ∧ e.grantedMode = .x ∧ e.blockedMode = .null ∧
      r'.totalHoldersMode = .x
  kept : r.holder ≠ [] -> r'.holder = r.holder

variable {r r' : LkRes} {tranIndex : Nat}

theorem Admits.trans {r'' : LkRes} (h : Admits r r') (h' : Admits r' r'') :
    Admits r r'' where
  holder := h'.holder
  kept hne := by
    have hkept := h.kept hne
    rw [h'.kept (by rwa [hkept]), hkept]

theorem LkRes.Exclusive.admits_self (h : r.Exclusive) (hholder : r'.holder = r.holder)
    (htotal : r'.totalHoldersMode = r.totalHoldersMode) : Admits r r' := by
  refine ⟨?_, fun _ => hholder⟩
  rw [hholder, htotal]
  exact h.holder

theorem LkRes.accept_exclusive {check : LkEntry} (hholder : r.holder = [])
    (htotal : r.totalHoldersMode = .null) (hcheck : check.blockedMode = .x) :
    (r.accept check).holder = [check.grant] ∧ (r.accept check).totalHoldersMode = .x := by
  constructor
  · change lockPositionHolderEntry check.grant r.holder = _
    rw [hholder]
    rfl
  · change lockConv check.blockedMode r.totalHoldersMode = _
    rw [htotal, hcheck]
    rfl

theorem LkRes.Exclusive.accept (h : r.Exclusive) {check : LkEntry} (hcheck : check.blockedMode = .x)
    (hcomp : lockComp check.blockedMode r.totalHoldersMode ≠ .no) :
    (r.accept check).Exclusive ∧ Admits r (r.accept check) := by
  rcases h.holder with ⟨hholder, htotal⟩ | ⟨e, hholder, _, _, htotal⟩
  · rcases LkRes.accept_exclusive hholder htotal hcheck with ⟨hholder', htotal'⟩
    have hright : exists e, (r.accept check).holder = [e] ∧ e.grantedMode = .x ∧
        e.blockedMode = .null ∧ (r.accept check).totalHoldersMode = .x :=
      ⟨check.grant, hholder', hcheck, rfl, htotal'⟩
    exact ⟨⟨.inr hright, h.waiter⟩, .inr hright, fun hne => absurd hholder hne⟩
  · rw [hcheck, htotal] at hcomp
    exact absurd rfl hcomp

theorem Walked.exclusive {before rest : List LkEntry} (hwalked : Walked r before rest r')
    (h : r.Exclusive) (hrest : forall e, e ∈ rest -> e.blockedMode = .x) : Admits r r' := by
  induction hwalked with
  | stop holder total _ => exact h.admits_self holder total
  | accept comp _ ih =>
    obtain ⟨hcheck, hrest⟩ := forall_mem_cons.mp hrest
    rcases h.accept hcheck comp with ⟨hexclusive, hadmits⟩
    exact hadmits.trans (ih hexclusive hrest)
  | pass _ ih => exact ih h (forall_mem_cons.mp hrest).2

theorem LkRes.Exclusive.lockGrantBlockedHolder_eq (h : r.Exclusive) :
    lockGrantBlockedHolder r = r := by
  rcases h.holder with ⟨hholder, _⟩ | ⟨e, hholder, _, hblocked, _⟩
  · unfold lockGrantBlockedHolder
    rw [hholder]
    change { r with holder := [] } = r
    rw [← hholder]
  have hunblocked : isUnblocked e = true := by
    rw [isUnblocked, hblocked]
    rfl
  unfold lockGrantBlockedHolder
  rw [hholder, takeWhile_cons_of_neg (by simp [hunblocked]),
    dropWhile_cons_of_neg (by simp [hunblocked])]
  change { r with holder := [e] } = r
  rw [← hholder]

theorem Admits.exclusive (h : Admits r r')
    (hwaiter : forall e, e ∈ r'.waiter -> e.blockedMode = .x) : r'.Exclusive :=
  ⟨h.holder, hwaiter⟩

section

variable (h : r.Exclusive)
include h

namespace LkRes.Exclusive

theorem releaseWaiter (tranIndex : Nat) :
    (releaseWaiter tranIndex r).Exclusive ∧ Admits r (releaseWaiter tranIndex r) := by
  rcases releaseWaiter_cases tranIndex r with ⟨hr, _⟩ | ⟨before, w, fromWhom, hsplit, _, hr⟩
  · rw [hr]
    exact ⟨h, h.admits_self rfl rfl⟩
  rw [hr]
  have hmem : forall e, e ∈ before ++ fromWhom -> e ∈ r.waiter :=
    fun e he => hsplit ▸ mem_around he
  have hwalked : Walked r before fromWhom (lockGrantBlockedWaiterPartial r before fromWhom) :=
    grantBlockedWaiterPartialLoop_walked _ _ _ _
  have hadmits := hwalked.exclusive h fun e he => h.waiter e (hmem e (mem_append_right _ he))
  exact ⟨hadmits.exclusive fun e he => h.waiter e (hmem e (hwalked.mem_waiter he)), hadmits⟩

variable {dealloc releaseFlag : Bool}

theorem releaseHolder {curr : LkEntry}
    (hremaining : remainingHolders releaseFlag curr (eraseTran tranIndex r.holder) = [])
    (hr' : releaseHolder dealloc releaseFlag tranIndex r curr = some r') : r'.Exclusive := by
  have hset : (r.setHolder []).Exclusive := ⟨.inl ⟨rfl, rfl⟩, h.waiter⟩
  unfold Transaction.releaseHolder at hr'
  rw [hremaining] at hr'
  dsimp only at hr'
  split_ifs at hr'
  · cases hr'
    exact hset
  cases hr'
  rw [hset.lockGrantBlockedHolder_eq]
  have hwalked := lockGrantBlockedWaiter_walked (r.setHolder [])
  exact (hwalked.exclusive hset hset.waiter).exclusive
    fun e he => hset.waiter e (hwalked.mem_waiter he)

variable {f : LkEntry -> LkEntry}

/-- The holder counts or waits differently, but it is of the same transaction and modes. -/
theorem changed
    (hf : forall e, (f e).tranIndex = e.tranIndex ∧ (f e).grantedMode = e.grantedMode ∧
      (f e).blockedMode = e.blockedMode) (hholder : r'.holder = r.holder.map f)
    (htotal : r'.totalHoldersMode = r.totalHoldersMode)
    (hwaiter : forall e, e ∈ r'.waiter -> e.blockedMode = .x) :
    r'.Exclusive ∧ lockOwner (some r') = lockOwner (some r) := by
  rcases h.holder with ⟨hnil, hnull⟩ | ⟨e, hone, hgranted, hblocked, hx⟩
  · rw [hnil] at hholder
    refine ⟨⟨.inl ⟨hholder, htotal.trans hnull⟩, hwaiter⟩, ?_⟩
    simp [lockOwner, hnil, hholder]
  rw [hone] at hholder
  rcases hf e with ⟨htran, hgranted', hblocked'⟩
  refine ⟨⟨.inr ⟨f e, hholder, ?_, ?_, htotal.trans hx⟩, hwaiter⟩, ?_⟩
  · rw [hgranted', hgranted]
  · rw [hblocked', hblocked]
  · simp [lockOwner, hone, hholder, htran]

theorem mapWait (tranIndex : Nat) (f : WaitState -> WaitState) :
    (r.mapWait tranIndex f).Exclusive ∧
      lockOwner (some (r.mapWait tranIndex f)) = lockOwner (some r) := by
  refine h.changed (fun e => ?_) rfl rfl (forall_mem_map.mpr fun e he => ?_)
  · split_ifs <;> exact ⟨rfl, rfl, rfl⟩
  · split_ifs <;> exact h.waiter e he

theorem updateTran (tranIndex : Nat)
    (hf : forall e, (f e).tranIndex = e.tranIndex ∧ (f e).grantedMode = e.grantedMode ∧
      (f e).blockedMode = e.blockedMode) :
    ({ r with holder := updateTran tranIndex f r.holder } : LkRes).Exclusive ∧
      lockOwner (some { r with holder := updateTran tranIndex f r.holder }) =
        lockOwner (some r) := by
  refine h.changed (f := fun e => if e.tranIndex == tranIndex then f e else e) (fun e => ?_) ?_ rfl
    h.waiter
  · split_ifs
    · exact hf e
    · exact ⟨rfl, rfl, rfl⟩
  rcases h.holder with ⟨hholder, _⟩ | ⟨e, hholder, _⟩
  · rw [hholder]
    rfl
  · rw [hholder]
    simp only [Transaction.updateTran, map_cons, map_nil]
    split_ifs <;> rfl

theorem unlock
    (hr' : lockInternalPerformUnlockObject dealloc releaseFlag tranIndex r = some r') :
    r'.Exclusive := by
  unfold lockInternalPerformUnlockObject at hr'
  cases hfind : findTran tranIndex r.holder with
  | none =>
    rw [hfind] at hr'
    cases hr'
    exact (h.releaseWaiter tranIndex).1
  | some entry =>
    rcases h.holder with ⟨hholder, _⟩ | ⟨e, hholder, hgranted, hblocked, htotal⟩
    · rw [hholder] at hfind
      cases hfind
    have hentry : e = entry ∧ e.tranIndex = tranIndex := by
      rw [hholder] at hfind
      simpa [findTran, find?_singleton, and_comm] using hfind
    rcases hentry with ⟨rfl, htran⟩
    rw [hfind] at hr'
    dsimp only at hr'
    split_ifs at hr' with hcount
    · cases hr'
      exact (h.updateTran tranIndex fun e => by simp).1
    refine h.releaseHolder ?_ hr'
    have herase : eraseTran tranIndex r.holder = [] := by
      rw [hholder]
      simp [eraseTran, htran]
    rw [herase, remainingHolders, if_neg]
    exact fun hflag => hcount ⟨hflag.1, by simpa using hblocked, hflag.2⟩

theorem findTran_eq_none (hne : lockOwner (some r) ≠ some tranIndex) :
    findTran tranIndex r.holder = none := by
  rcases h.holder with ⟨hholder, _⟩ | ⟨e, hholder, _⟩
  · rw [hholder]
    rfl
  have htran : e.tranIndex ≠ tranIndex := by
    intro heq
    apply hne
    change r.holder.head?.map _ = _
    rw [hholder, ← heq]
    rfl
  rw [hholder]
  simp [findTran, htran]

end LkRes.Exclusive

theorem lockOwner_of_findTran {entry : LkEntry} (hfind : findTran tranIndex r.holder = some entry) :
    lockOwner (some r) = some tranIndex ∧ entry.grantedMode = .x := by
  rcases h.holder with ⟨hholder, _⟩ | ⟨e, hholder, hgranted, _⟩
  · rw [hholder] at hfind
    cases hfind
  rw [hholder] at hfind
  have hentry : e = entry ∧ e.tranIndex = tranIndex := by
    simpa [findTran, find?_singleton, and_comm] using hfind
  rcases hentry with ⟨rfl, htran⟩
  refine ⟨?_, hgranted⟩
  change r.holder.head?.map _ = _
  rw [hholder, ← htran]
  rfl

end

theorem Admits.lockOwner (h : Admits r r') (howner : lockOwner (some r) = some tranIndex) :
    lockOwner (some r') = some tranIndex := by
  change r.holder.head?.map _ = _ at howner
  change r'.holder.head?.map _ = _
  rw [h.kept]
  · exact howner
  · intro hnil
    rw [hnil] at howner
    cases howner

/-!
## Steps of an exclusive lock
-/

/-- A lock that is not in the hash chain, or one that is asked for exclusively. -/
def ExclusiveLock (res : Option LkRes) : Prop :=
  forall r, res = some r -> r.Exclusive

/-- What a request leaves behind: an exclusive lock that keeps its owner, and belongs to the
caller when it is granted. -/
structure Requested (res res' : Option LkRes) (tranIndex : Nat) (result : LockResult) : Prop where
  exclusive : ExclusiveLock res'
  owner : forall t, lockOwner res = some t -> lockOwner res' = some t
  granted : result = .granted -> lockOwner res' = some tranIndex

theorem requested_of_eq (h : r.Exclusive) (hholder : r'.holder = r.holder)
    (htotal : r'.totalHoldersMode = r.totalHoldersMode)
    (hwaiter : forall e, e ∈ r'.waiter -> e.blockedMode = .x) {result : LockResult}
    (hresult : result ≠ .granted) : Requested (some r) (some r') tranIndex result := by
  have hadmits := h.admits_self hholder htotal
  refine ⟨?_, fun t ht => hadmits.lockOwner ht, fun hgranted => absurd hgranted hresult⟩
  rintro r'' ⟨⟩
  exact hadmits.exclusive hwaiter

theorem joinOtherThread_ne (e : LkEntry) : joinOtherThread e ≠ .granted := by
  unfold joinOtherThread
  split_ifs <;> decide

theorem zeroWaitResult_ne (alloc : Bool) (waitMsecs : Int) :
    zeroWaitResult alloc waitMsecs ≠ .granted := by
  unfold zeroWaitResult
  split_ifs <;> decide

theorem lockNewRequest_free (h : r.Exclusive) (hholder : r.holder = [])
    (htotal : r.totalHoldersMode = .null) (alloc : Bool) (tranIndex : Nat) (waitMsecs : Int) :
    Requested (some r) (some (lockNewRequest alloc tranIndex .x waitMsecs r).1) tranIndex
      (lockNewRequest alloc tranIndex .x waitMsecs r).2 := by
  have hcompat : lockNewRequest alloc tranIndex .x waitMsecs r =
      if alloc then (r.addHolder (lockInitializeEntryAsGranted tranIndex .x), .granted)
      else (r, .notGrantedDueError) := by
    unfold lockNewRequest
    rw [htotal]
    rfl
  rw [hcompat]
  cases alloc with
  | false => exact requested_of_eq h rfl rfl h.waiter nofun
  | true =>
    have hnew : (r.addHolder (lockInitializeEntryAsGranted tranIndex .x)).holder =
        [lockInitializeEntryAsGranted tranIndex .x] := by
      unfold LkRes.addHolder
      rw [hholder]
      rfl
    refine ⟨?_, ?_, fun _ => ?_⟩
    · rintro r' ⟨⟩
      refine ⟨.inr ⟨_, hnew, rfl, rfl, ?_⟩, h.waiter⟩
      change lockConv .x r.totalHoldersMode = _
      rw [htotal]
      rfl
    · intro t ht
      change r.holder.head?.map _ = _ at ht
      rw [hholder] at ht
      cases ht
    · change (r.addHolder (lockInitializeEntryAsGranted tranIndex .x)).holder.head?.map _ = _
      rw [hnew]
      rfl

theorem lockNewRequest_held (h : r.Exclusive) {e : LkEntry} (hholder : r.holder = [e])
    (hgranted : e.grantedMode = .x) (htotal : r.totalHoldersMode = .x) (alloc : Bool)
    (tranIndex : Nat) (waitMsecs : Int) :
    Requested (some r) (some (lockNewRequest alloc tranIndex .x waitMsecs r).1) tranIndex
      (lockNewRequest alloc tranIndex .x waitMsecs r).2 := by
  unfold lockNewRequest
  rw [hholder, map_cons, map_nil, hgranted, htotal]
  rw [if_neg (show ¬ (if lockComp .x .x ≠ .yes then lockComp .x (convModes [.x])
    else lockComp .x .x) = Compat.yes by decide)]
  split_ifs
  · exact requested_of_eq h rfl rfl h.waiter (zeroWaitResult_ne _ _)
  · cases findTran tranIndex r.waiter with
    | some waitEntry => exact requested_of_eq h rfl rfl h.waiter (joinOtherThread_ne _)
    | none =>
      change Requested _ (some (r.appendWaiter _)) _ .blocked
      apply requested_of_eq h
      · rfl
      · rfl
      · exact forall_mem_append.mpr ⟨h.waiter, forall_mem_singleton.mpr rfl⟩
      · decide
  · cases findTran tranIndex r.waiter with
    | some waitEntry => exact requested_of_eq h rfl rfl h.waiter (joinOtherThread_ne _)
    | none => exact requested_of_eq h rfl rfl h.waiter nofun

theorem lockConversion_held (h : r.Exclusive) {entry : LkEntry}
    (hfind : findTran tranIndex r.holder = some entry) (waitMsecs : Int) :
    Requested (some r) (some (lockConversion tranIndex .x waitMsecs r entry).1) tranIndex
      (lockConversion tranIndex .x waitMsecs r entry).2 := by
  rcases lockOwner_of_findTran h hfind with ⟨howner, hgranted⟩
  have hagain : lockConversion tranIndex .x waitMsecs r entry =
      (r.countUp tranIndex, .granted) := by
    unfold lockConversion
    rw [hgranted]
    rfl
  have hcount := h.updateTran tranIndex (f := LkEntry.countUp) fun _ => ⟨rfl, rfl, rfl⟩
  rw [hagain]
  refine ⟨?_, fun t ht => hcount.2.trans ht, fun _ => hcount.2.trans howner⟩
  rintro r' ⟨⟩
  exact hcount.1

variable {res : Option LkRes}

theorem ExclusiveLock.request (h : ExclusiveLock res) (alloc : Bool) (tranIndex : Nat)
    (waitMsecs : Int) :
    Requested res (lockInternalPerformLockObject alloc tranIndex .x waitMsecs res).1 tranIndex
      (lockInternalPerformLockObject alloc tranIndex .x waitMsecs res).2 := by
  cases res with
  | none =>
    cases alloc with
    | false =>
      refine ⟨?_, fun t ht => ?_, fun hgranted => ?_⟩
      · rintro r ⟨⟩
      · cases ht
      · cases hgranted
    | true =>
      refine ⟨?_, fun t ht => ?_, fun _ => rfl⟩
      · rintro r ⟨⟩
        refine ⟨.inr ⟨_, rfl, rfl, rfl, rfl⟩, ?_⟩
        intro e he
        cases he
      · cases ht
  | some r =>
    have hr := h r rfl
    cases hfind : findTran tranIndex r.holder with
    | none =>
      simp only [lockInternalPerformLockObject, hfind]
      rcases hr.holder with ⟨hholder, htotal⟩ | ⟨e, hholder, hgranted, _, htotal⟩
      · exact lockNewRequest_free hr hholder htotal alloc tranIndex waitMsecs
      · exact lockNewRequest_held hr hholder hgranted htotal alloc tranIndex waitMsecs
    | some entry =>
      simp only [lockInternalPerformLockObject, hfind]
      exact lockConversion_held hr hfind waitMsecs

structure Passes (res res' : Option LkRes) (tranIndex : Nat) : Prop where
  exclusive : ExclusiveLock res'
  owner : forall t, t ≠ tranIndex -> lockOwner res = some t -> lockOwner res' = some t

theorem passes_self (h : ExclusiveLock res) (tranIndex : Nat) : Passes res res tranIndex :=
  ⟨h, fun _ _ howner => howner⟩

theorem LkRes.Exclusive.passes_unlock (h : r.Exclusive) (dealloc releaseFlag : Bool)
    (tranIndex : Nat) :
    Passes (some r) (lockInternalPerformUnlockObject dealloc releaseFlag tranIndex r)
      tranIndex := by
  refine ⟨fun r' hr' => h.unlock hr', fun t ht howner => ?_⟩
  have hnone : findTran tranIndex r.holder = none := by
    apply h.findTran_eq_none
    rw [howner]
    exact fun heq => ht (Option.some.inj heq)
  have hrelease : lockInternalPerformUnlockObject dealloc releaseFlag tranIndex r =
      some (Transaction.releaseWaiter tranIndex r) := by
    simp only [lockInternalPerformUnlockObject, hnone]
  rw [hrelease]
  exact (h.releaseWaiter tranIndex).2.lockOwner howner

theorem LkRes.Exclusive.passes_mapWait (h : r.Exclusive) (tranIndex : Nat)
    (f : WaitState -> WaitState) : Passes (some r) (some (r.mapWait tranIndex f)) tranIndex := by
  refine ⟨?_, fun t _ howner => ?_⟩
  · rintro r' ⟨⟩
    exact (h.mapWait tranIndex f).1
  · rw [(h.mapWait tranIndex f).2, howner]

/-- A step of a transaction on one of its locks, other than a request. -/
inductive LockStep.IsOf (tranIndex : Nat) : LockStep -> Prop where
  | release (releaseFlag dealloc : Bool) :
      LockStep.IsOf tranIndex (.release tranIndex releaseFlag dealloc)
  | wake : LockStep.IsOf tranIndex (.wake tranIndex)
  | interrupt : LockStep.IsOf tranIndex (.interrupt tranIndex)
  | notice : LockStep.IsOf tranIndex (.notice tranIndex)
  | giveUp (dealloc : Bool) : LockStep.IsOf tranIndex (.giveUp tranIndex dealloc)

theorem lockNext_none {step : LockStep} (hstep : step.IsOf tranIndex) :
    lockNext none step = none := by
  cases hstep <;> rfl

theorem ExclusiveLock.passes_lockNext (h : ExclusiveLock res) {step : LockStep}
    (hstep : step.IsOf tranIndex) : Passes res (lockNext res step) tranIndex := by
  cases res with
  | none =>
    rw [lockNext_none hstep]
    exact passes_self h tranIndex
  | some r =>
    have hr := h r rfl
    cases hstep with
    | release releaseFlag dealloc =>
      change Passes _ (r.release dealloc releaseFlag tranIndex) _
      unfold LkRes.release
      split_ifs
      · exact hr.passes_unlock dealloc releaseFlag tranIndex
      · exact passes_self h tranIndex
    | wake | interrupt | notice => exact hr.passes_mapWait tranIndex _
    | giveUp dealloc =>
      change Passes _ (r.giveUp dealloc tranIndex) _
      unfold LkRes.giveUp
      split_ifs
      · have hmap := hr.passes_mapWait tranIndex fun _ => .running
        have hunlock := (hr.mapWait tranIndex fun _ => .running).1.passes_unlock dealloc false
          tranIndex
        exact ⟨hunlock.exclusive, fun t ht howner =>
          hunlock.owner t ht (hmap.owner t ht howner)⟩
      · exact passes_self h tranIndex

/-!
## Runs of the shard key locks
-/

section

variable {K : Type}

/-- A transaction that did not read first owns the key it has recorded, and it writes under
no other key. -/
structure TranInv (locks : K -> Option LkRes) (tranIndex : Nat) (tran : ShardTran K) : Prop where
  idle : forall key, tran.tranShardKey = some key -> tran.waiting = none
  owner : forall key, tran.tranShardKey = some key -> tran.readFirst = false ->
    lockOwner (locks key) = some tranIndex
  writes : forall key, key ∈ tran.writes -> tran.tranShardKey = some key ∧ tran.readFirst = false

structure ShardInv (s : ShardState K) : Prop where
  locks : forall key, ExclusiveLock (s.locks key)
  trans : forall t, TranInv s.locks t (s.trans t)

variable {locks locks' : K -> Option LkRes} {tranIndex : Nat} {tran : ShardTran K}

theorem TranInv.mono (h : TranInv locks tranIndex tran)
    (howner : forall key, lockOwner (locks key) = some tranIndex ->
      lockOwner (locks' key) = some tranIndex) : TranInv locks' tranIndex tran where
  idle := h.idle
  owner key hkey hfirst := howner key (h.owner key hkey hfirst)
  writes := h.writes

theorem TranInv.writes_eq_nil (h : TranInv locks tranIndex tran)
    (hnone : tran.tranShardKey = none) : tran.writes = [] := by
  apply eq_nil_iff_forall_not_mem.mpr
  intro key hkey
  have hrecorded := (h.writes key hkey).1
  rw [hnone] at hrecorded
  cases hrecorded

theorem tranInv_of_none (hnone : tran.tranShardKey = none) (hwrites : tran.writes = []) :
    TranInv locks tranIndex tran := by
  constructor <;> simp [hnone, hwrites]

section

variable (h : TranInv locks tranIndex tran)
include h

theorem TranInv.tranShardKey_eq_none {request : ShardKeyCall K × K}
    (hwaiting : tran.waiting = some request) : tran.tranShardKey = none := by
  cases hkey : tran.tranShardKey with
  | none => rfl
  | some key =>
    rw [h.idle key hkey] at hwaiting
    cases hwaiting

theorem TranInv.succeed {key : K} {forUpdate : Bool} (hkey : tran.tranShardKey = some key)
    (hfirst : forUpdate = true -> tran.readFirst = false) :
    TranInv locks tranIndex (tran.succeed forUpdate key) := by
  unfold ShardTran.succeed
  split_ifs with hupdate
  · refine ⟨h.idle, h.owner, ?_⟩
    intro k hk
    rcases mem_cons.mp hk with rfl | hk
    · exact ⟨hkey, hfirst hupdate⟩
    · exact h.writes k hk
  · exact h

theorem TranInv.record (hnone : tran.tranShardKey = none) {call : ShardKeyCall K} {key : K}
    (howner : call.forUpdate = true -> lockOwner (locks key) = some tranIndex) :
    TranInv locks tranIndex (tran.record call key) := by
  have hrecorded : TranInv locks tranIndex
      { tran with tranShardKey := some key, waiting := none, readFirst := !call.forUpdate } := by
    constructor
    · intro k _
      rfl
    · rintro k ⟨⟩ hfirst
      apply howner
      simpa using hfirst
    intro k hk
    rw [h.writes_eq_nil hnone] at hk
    cases hk
  unfold ShardTran.record
  split_ifs
  · exact hrecorded
  · apply hrecorded.succeed rfl
    intro hupdate
    simp [hupdate]

end

namespace ShardState

theorem setTran_trans_self (s : ShardState K) (t : Nat) (tran : ShardTran K) :
    (s.setTran t tran).trans t = tran :=
  if_pos rfl

theorem setTran_trans_of_ne (s : ShardState K) {t t' : Nat} (tran : ShardTran K) (h : t' ≠ t) :
    (s.setTran t tran).trans t' = s.trans t' :=
  if_neg h

end ShardState

theorem ShardInv.step {s s' : ShardState K} (h : ShardInv s) (tranIndex : Nat)
    (hlocks : forall key, ExclusiveLock (s'.locks key))
    (howner : forall t, t ≠ tranIndex -> forall key, lockOwner (s.locks key) = some t ->
      lockOwner (s'.locks key) = some t)
    (hothers : forall t, t ≠ tranIndex -> s'.trans t = s.trans t)
    (htran : TranInv s'.locks tranIndex (s'.trans tranIndex)) : ShardInv s' := by
  refine ⟨hlocks, fun t => ?_⟩
  by_cases ht : t = tranIndex
  · rw [ht]
    exact htran
  · rw [hothers t ht]
    exact (h.trans t).mono (howner t ht)

theorem ShardInv.setTran {s : ShardState K} (h : ShardInv s) {tran : ShardTran K}
    (htran : TranInv s.locks tranIndex tran) : ShardInv (s.setTran tranIndex tran) := by
  refine h.step tranIndex h.locks (fun _ _ _ howner => howner)
    (fun t ht => s.setTran_trans_of_ne tran ht) ?_
  rw [s.setTran_trans_self]
  exact htran

end

/-!
## Runs of the shard key locks
-/

section

variable {K : Type} [DecidableEq K] {s : ShardState K} {tranIndex : Nat}

namespace ShardState

theorem setLock_locks_self (s : ShardState K) (key : K) (res : Option LkRes) :
    (s.setLock key res).locks key = res :=
  if_pos rfl

theorem setLock_locks_of_ne (s : ShardState K) {key k : K} (res : Option LkRes) (h : k ≠ key) :
    (s.setLock key res).locks k = s.locks k :=
  if_neg h

end ShardState

section

variable (h : ShardInv s)
include h

theorem ShardInv.setLock (tranIndex : Nat) {key : K} {res : Option LkRes} (hres : ExclusiveLock res)
    (howner : forall t, t ≠ tranIndex -> lockOwner (s.locks key) = some t -> lockOwner res = some t)
    (htran : TranInv (s.setLock key res).locks tranIndex (s.trans tranIndex)) :
    ShardInv (s.setLock key res) := by
  refine h.step tranIndex ?_ ?_ (fun t _ => rfl) htran
  · intro k
    by_cases hk : k = key
    · rw [hk, s.setLock_locks_self]
      exact hres
    · rw [s.setLock_locks_of_ne res hk]
      exact h.locks k
  · intro t ht k hk
    by_cases hkey : k = key
    · rw [hkey, s.setLock_locks_self]
      exact howner t ht (hkey ▸ hk)
    · rw [s.setLock_locks_of_ne res hkey]
      exact hk

theorem ShardInv.request (key : K) (alloc : Bool) (waitMsecs : Int) {res} {result : LockResult}
    (hrequest : lockInternalPerformLockObject alloc tranIndex .x waitMsecs (s.locks key) =
      (res, result)) : ShardInv (s.setLock key res) ∧
        (result = .granted -> lockOwner res = some tranIndex) := by
  have hres := (h.locks key).request alloc tranIndex waitMsecs
  rw [hrequest] at hres
  refine ⟨h.setLock tranIndex hres.exclusive (fun t _ => hres.owner t) ?_, hres.granted⟩
  apply (h.trans tranIndex).mono
  intro k hk
  by_cases hkey : k = key
  · rw [hkey, s.setLock_locks_self]
    exact hres.owner tranIndex (hkey ▸ hk)
  · rw [s.setLock_locks_of_ne res hkey]
    exact hk

theorem ShardInv.acquireShardKey {call : ShardKeyCall K} {key : K}
    (hfirst : call.forUpdate = true -> (s.trans tranIndex).tranShardKey = some key ->
      (s.trans tranIndex).readFirst = false) (waitMsecs : Int) (alloc : Bool) :
    ShardInv (acquireShardKey s tranIndex call key waitMsecs alloc) := by
  have htran := h.trans tranIndex
  unfold Transaction.acquireShardKey
  dsimp only
  cases hkey : (s.trans tranIndex).tranShardKey with
  | none =>
    split_ifs with hupdate
    · cases hrequest : lockInternalPerformLockObject alloc tranIndex .x waitMsecs
          (s.locks key) with
      | mk res result =>
        rcases h.request key alloc waitMsecs hrequest with ⟨hlock, hgranted⟩
        have htran' := hlock.trans tranIndex
        cases result with
        | granted =>
          apply hlock.setTran
          apply htran'.record hkey
          intro _
          rw [s.setLock_locks_self]
          exact hgranted rfl
        | blocked =>
          apply hlock.setTran
          exact tranInv_of_none rfl (htran.writes_eq_nil hkey)
        | _ => exact hlock
    · apply h.setTran
      apply htran.record hkey
      exact fun hupdate' => absurd hupdate' hupdate
  | some tranShardKey =>
    dsimp only
    split_ifs with hne
    · exact h
    apply h.setTran
    have hsame : tranShardKey = key := not_not.mp hne
    rw [hsame] at hkey
    exact htran.succeed hkey fun hupdate => hfirst hupdate hkey

theorem ShardInv.lockStepOfWaiting {step : LockStep} (hstep : step.IsOf tranIndex) :
    ShardInv (lockStepOfWaiting s tranIndex step) ∧
      (lockStepOfWaiting s tranIndex step).trans = s.trans := by
  unfold Transaction.lockStepOfWaiting
  cases hwaiting : (s.trans tranIndex).waiting with
  | none => exact ⟨h, rfl⟩
  | some request =>
    have hnone := (h.trans tranIndex).tranShardKey_eq_none hwaiting
    have hpasses := (h.locks request.2).passes_lockNext hstep
    refine ⟨h.setLock tranIndex hpasses.exclusive hpasses.owner ?_, rfl⟩
    exact tranInv_of_none hnone ((h.trans tranIndex).writes_eq_nil hnone)

end

/-- A statement writes under the recorded key only if the key was recorded by a statement that
writes. -/
def WriteFirst (keys : ShardKeys K) (s : ShardState K) : ShardStep K -> Prop
  | .call tranIndex call _ _ =>
    call.forUpdate = true -> forall key, checkShardKey keys call = .ok (some key) ->
      (s.trans tranIndex).tranShardKey = some key -> (s.trans tranIndex).readFirst = false
  | _ => True

theorem ShardInv.shardNext (h : ShardInv s) (keys : ShardKeys K) {step : ShardStep K}
    (hguard : WriteFirst keys s step) (henabled : step.Enabled s) :
    ShardInv (shardNext keys s step) := by
  cases step with
  | call tranIndex call waitMsecs alloc =>
    change ShardInv (lockShardKeyLock keys s tranIndex call waitMsecs alloc)
    unfold lockShardKeyLock
    cases hcheck : checkShardKey keys call with
    | error e => exact h
    | ok key =>
      cases key with
      | none => exact h
      | some key =>
        exact h.acquireShardKey (fun hupdate => hguard hupdate key hcheck) waitMsecs alloc
  | resume tranIndex =>
    rcases henabled with ⟨call, key, entry, hwaiting, hentry, _⟩
    have hnone := (h.trans tranIndex).tranShardKey_eq_none hwaiting
    simp only [Transaction.shardNext, hwaiting]
    apply h.setTran
    apply (h.trans tranIndex).record hnone
    intro _
    rcases Option.bind_eq_some_iff.mp hentry with ⟨r, hr, hfind⟩
    rw [hr]
    exact (lockOwner_of_findTran (h.locks key r hr) hfind).1
  | giveUp tranIndex dealloc =>
    rcases henabled with ⟨call, key, r, hwaiting, _⟩
    have hnone := (h.trans tranIndex).tranShardKey_eq_none hwaiting
    apply (h.lockStepOfWaiting (.giveUp dealloc)).1.setTran
    exact tranInv_of_none hnone ((h.trans tranIndex).writes_eq_nil hnone)
  | wake tranIndex => exact (h.lockStepOfWaiting .wake).1
  | interrupt tranIndex => exact (h.lockStepOfWaiting .interrupt).1
  | notice tranIndex => exact (h.lockStepOfWaiting .notice).1
  | finish tranIndex dealloc =>
    have hpasses : forall key, Passes (s.locks key)
        (lockNext (s.locks key) (.release tranIndex true (dealloc key))) tranIndex :=
      fun key => (h.locks key).passes_lockNext (.release true (dealloc key))
    refine h.step tranIndex (fun key => (hpasses key).exclusive)
      (fun t ht key => (hpasses key).owner t ht) (fun t ht => s.setTran_trans_of_ne _ ht) ?_
    rw [show (Transaction.shardNext keys s (.finish tranIndex dealloc)).trans tranIndex = .start
      from if_pos rfl]
    exact tranInv_of_none rfl rfl

theorem shardInv_of_reachable {keys : ShardKeys K}
    (hs : ((shardSystem keys).guarded (WriteFirst keys)).Reachable s) : ShardInv s := by
  refine hs.guarded_invariant ShardInv ?_ ?_
  · rintro s rfl
    refine ⟨?_, fun t => tranInv_of_none rfl rfl⟩
    rintro key r ⟨⟩
  · rintro s step s' h hguard ⟨henabled, rfl⟩
    exact h.shardNext keys hguard henabled

/-- The owner of a lock holds it in mode `X`. -/
theorem exists_holder_of_lockOwner {res : Option LkRes} (h : ExclusiveLock res)
    (howner : lockOwner res = some tranIndex) :
    exists r e, res = some r ∧ e ∈ r.holder ∧ e.tranIndex = tranIndex ∧ e.grantedMode = .x := by
  rcases Option.bind_eq_some_iff.mp howner with ⟨r, rfl, hhead⟩
  rcases Option.map_eq_some_iff.mp hhead with ⟨e, he, htran⟩
  rcases (h r rfl).holder with ⟨hholder, _⟩ | ⟨e', hholder, hgranted, _⟩
  · rw [hholder] at he
    cases he
  · rw [hholder] at he
    cases he
    exact ⟨r, e, rfl, hholder ▸ mem_singleton_self e, htran, hgranted⟩

/-- The transaction holds the lock of the key in mode `X`. -/
def HoldsKey (s : ShardState K) (tranIndex : Nat) (key : K) : Prop :=
  exists r e, s.locks key = some r ∧ e ∈ r.holder ∧ e.tranIndex = tranIndex ∧ e.grantedMode = .x

/-- Under one key only one transaction at a time writes, and it holds the lock of the key. -/
theorem shardKey_single_writer {keys : ShardKeys K}
    (hs : ((shardSystem keys).guarded (WriteFirst keys)).Reachable s) :
    (forall t key, key ∈ (s.trans t).writes -> HoldsKey s t key) ∧
      forall t t' key, key ∈ (s.trans t).writes -> key ∈ (s.trans t').writes -> t = t' := by
  have h := shardInv_of_reachable hs
  have howner : forall t key, key ∈ (s.trans t).writes -> lockOwner (s.locks key) = some t := by
    intro t key hkey
    rcases (h.trans t).writes key hkey with ⟨hrecorded, hfirst⟩
    exact (h.trans t).owner key hrecorded hfirst
  constructor
  · intro t key hkey
    exact exists_holder_of_lockOwner (h.locks key) (howner t key hkey)
  · intro t t' key hkey hkey'
    have heq := (howner t key hkey).symm.trans (howner t' key hkey')
    exact Option.some.inj heq

end

def natKeys : ShardKeys Nat where
  systemDdl := 0
  shardCatalog := 1
  shardGlobal := 2

/-- A statement on the rows of key 7 of a shard table in an owned group. -/
def statement (forUpdate : Bool) : ShardKeyCall Nat where
  shardGroupid := 5
  reqShardKey := some (some 7)
  classOid := some .other
  isShardTable := true
  isCatalogTable := false
  forUpdate := forUpdate
  classesFound := true
  ownsGroup := true
  stillOwnsGroup := true
  holdsDdlLock := false

def handoverRun : List (ShardStep Nat) :=
  [.call 1 (statement true) (-1) true, .call 2 (statement true) (-1) true,
    .finish 1 (fun _ => true), .resume 2]

def handoverState : ShardState Nat :=
  handoverRun.foldl (shardNext natKeys) { locks := fun _ => none, trans := fun _ => .start }

theorem shardKey_single_writer_handover :
    (handoverState.trans 2).writes = [7] ∧ HoldsKey handoverState 2 7 := by
  refine ⟨by decide, ?_⟩
  refine (shardKey_single_writer (System.reachable_guarded_of_follows handoverRun ?_)).1 2 7 ?_
  · refine ⟨⟨fun _ _ _ _ => rfl, rfl⟩, ⟨fun _ _ _ _ => rfl, rfl⟩, ⟨trivial, rfl⟩,
      ⟨trivial, ?_⟩, trivial⟩
    exact ⟨_, _, _, rfl, rfl, rfl⟩
  · decide

/-- The first transaction reads and then writes; the second writes at once. -/
def readThenWriteRun : List (ShardStep Nat) :=
  [.call 1 (statement false) (-1) true, .call 1 (statement true) (-1) true,
    .call 2 (statement true) (-1) true]

theorem shardKey_two_writers :
    exists s : ShardState Nat, (shardSystem natKeys).Reachable s ∧
      7 ∈ (s.trans 1).writes ∧ 7 ∈ (s.trans 2).writes ∧ ¬ HoldsKey s 1 7 := by
  refine ⟨_, System.reachable_of_follows readThenWriteRun ⟨rfl, rfl, rfl, trivial⟩, ?_, ?_, ?_⟩
  · decide
  · decide
  rintro ⟨r, e, hr, he, htran, _⟩
  cases hr
  rw [mem_singleton.mp he] at htran
  cases htran

end Rye.Transaction
