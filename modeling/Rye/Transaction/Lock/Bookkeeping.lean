import Rye.Transaction.Lock.Granting

/-!
# The bookkeeping of a lock resource

The two total modes of a resource are summaries of its lists.  They are
changed incrementally when a lock is requested and recomputed when one is
released.  This module shows that every step keeps the summaries, the order of
the holder list and the uniqueness of entries, provided a transaction does not
act on the resource while another of its threads waits there.
-/

namespace Rye.Transaction

open Foundation List

structure LkRes.Bookkeeping (r : LkRes) : Prop where
  totalHolders : r.totalHoldersMode = supMode (r.holder.flatMap LkEntry.modes)
  totalWaiters : r.totalWaitersMode = supMode (r.waiter.map LkEntry.blockedMode)
  upgrade : forall e, e ∈ r.holder -> e.blockedMode ≠ .null -> e.grantedMode <= e.blockedMode
  blockedFirst : BlockedFirst r.holder
  oneEntry : ((r.holder ++ r.waiter).map LkEntry.tranIndex).Nodup

structure LkRes.Totals (r : LkRes) : Prop where
  holders : HoldersOk r.totalHoldersMode r.holder
  waiters : WaitersOk r.totalWaitersMode r.waiter
  nodup : ((r.holder ++ r.waiter).map LkEntry.tranIndex).Nodup

def LkEntry.Waits (e : LkEntry) : Prop :=
  e.blockedMode ≠ .null -> e.wait ≠ .running

structure LkRes.Inv (r : LkRes) : Prop extends r.Totals where
  waits : forall e, e ∈ r.holder ++ r.waiter -> e.Waits

/-- No thread of the transaction waits on the resource. -/
def LkRes.Idle (r : LkRes) (tranIndex : Nat) : Prop :=
  forall e, e ∈ r.holder ++ r.waiter -> e.tranIndex = tranIndex -> e.wait = .running

/--
Requests and releases of a transaction are made while none of its threads
waits on the resource.
-/
def OneThread : Option LkRes -> LockStep -> Prop
  | some r, .request tranIndex _ _ _ => r.Idle tranIndex
  | some r, .release tranIndex _ _ => r.Idle tranIndex
  | _, _ => True

instance (r : LkRes) (tranIndex : Nat) : Decidable (r.Idle tranIndex) :=
  inferInstanceAs (Decidable (forall e, e ∈ r.holder ++ r.waiter -> _))

instance (s : Option LkRes) (a : LockStep) : Decidable (OneThread s a) :=
  match s, a with
  | some r, .request tranIndex _ _ _ | some r, .release tranIndex _ _ =>
    inferInstanceAs (Decidable (r.Idle tranIndex))
  | some _, .wake _ | some _, .interrupt _ | some _, .notice _ | some _, .giveUp _ _ | none, _ =>
    .isTrue trivial

variable {r : LkRes} {e : LkEntry} {total : Lock} {before after : List LkEntry} {entry : LkEntry}
    {tranIndex : Nat} {lock : Lock}

theorem LkRes.Totals.bookkeeping (h : r.Totals) : r.Bookkeeping where
  totalHolders := h.holders.total_eq
  totalWaiters := h.waiters.total_eq
  upgrade e he := (h.holders.entries e he).upgrade
  blockedFirst := h.holders.blockedFirst
  oneEntry := h.nodup

theorem LkEntry.waits_of_unblocked (h : e.blockedMode = .null) : e.Waits :=
  fun hne => absurd h hne

/-!
## Replacing and removing one holder
-/

section

variable (h : HoldersOk total (before ++ e :: after))
include h

theorem HoldersOk.erase :
    HoldersOk (supMode ((before ++ after).flatMap LkEntry.modes)) (before ++ after) where
  total_eq := rfl
  blockedFirst := h.blockedFirst.sublist (by simp)
  entries i hi := h.entries i (mem_around hi)

theorem HoldersOk.total_split :
    total = max (supMode e.modes) (supMode ((before ++ after).flatMap LkEntry.modes)) := by
  rw [h.total_eq, supMode_flatMap_perm perm_middle, flatMap_cons, supMode_append]

theorem HoldersOk.replace {e' : LkEntry} (he' : HolderOk e')
    (hblocked : e'.blockedMode = e.blockedMode) (hle : supMode e.modes <= supMode e'.modes) :
    HoldersOk (max (supMode e'.modes) total) (before ++ e' :: after) where
  total_eq := by
    rw [h.total_split, supMode_flatMap_perm perm_middle, flatMap_cons,
      supMode_append, ← max_assoc, max_eq_left hle]
  blockedFirst := by
    have hb := h.blockedFirst
    simp only [BlockedFirst, pairwise_append, pairwise_cons] at hb ⊢
    simpa [hblocked] using hb
  entries i hi := by
    rcases mem_cons.mp (perm_middle.mem_iff.mp hi) with rfl | hi
    · exact he'
    · exact h.entries i (mem_around hi)

end

theorem HoldersOk.supMode_le_total {holder : List LkEntry} (h : HoldersOk total holder)
    (he : e ∈ holder) : supMode e.modes <= total := by
  obtain ⟨before, after, rfl⟩ := append_of_mem he
  rw [h.total_split]
  exact le_max_left _ _

theorem HoldersOk.recount {e' : LkEntry} (h : HoldersOk total (before ++ e :: after))
    (hgranted : e'.grantedMode = e.grantedMode) (hblocked : e'.blockedMode = e.blockedMode) :
    HoldersOk total (before ++ e' :: after) := by
  have he : HolderOk e := h.entries e (by simp)
  have hmodes : e'.modes = e.modes := by simp [LkEntry.modes, hgranted, hblocked]
  have he' : HolderOk e' := by
    refine ⟨?_, ?_, ?_⟩
    · exact hgranted ▸ he.granted
    · exact hblocked ▸ he.blocked
    · rw [hgranted, hblocked]
      exact he.upgrade
  have hnew := h.replace he' hblocked (le_of_eq (by rw [hmodes]))
  rwa [hmodes, max_eq_right (h.supMode_le_total (by simp))] at hnew

theorem supMode_modes_unblocked (hgranted : .null <= e.grantedMode)
    (hblocked : e.blockedMode = .null) : supMode e.modes = e.grantedMode := by
  simp [LkEntry.modes, hblocked, max_eq_left hgranted]

theorem nodup_tran_split (hsplit : r.holder = before ++ e :: after) :
    ((r.holder ++ r.waiter).map LkEntry.tranIndex).Nodup <->
      (e.tranIndex :: (before ++ after ++ r.waiter).map LkEntry.tranIndex).Nodup := by
  have hperm : (r.holder ++ r.waiter).Perm (e :: (before ++ after ++ r.waiter)) := by
    rw [hsplit]
    exact perm_middle.append_right r.waiter
  exact (hperm.map LkEntry.tranIndex).nodup_iff

theorem LkRes.Totals.others (h : r.Totals) (hsplit : r.holder = before ++ entry :: after) :
    forall e, e ∈ before ++ after ++ r.waiter ->
      e ∈ r.holder ++ r.waiter ∧ e.tranIndex ≠ entry.tranIndex := by
  intro e he
  constructor
  · rw [append_assoc] at he
    rw [hsplit, append_assoc]
    exact mem_around he
  intro heq
  refine (nodup_cons.mp ((nodup_tran_split hsplit).mp h.nodup)).1 ?_
  rw [← heq]
  exact mem_map_of_mem he

/-!
## Requests
-/

/-- No entry of the resource belongs to the transaction. -/
def LkRes.Fresh (r : LkRes) (tranIndex : Nat) : Prop :=
  tranIndex ∉ (r.holder ++ r.waiter).map LkEntry.tranIndex

section

variable (h : r.Inv)
include h

theorem LkRes.Inv.fresh (hfind : findTran tranIndex r.holder = none) (hidle : r.Idle tranIndex) :
    r.Fresh tranIndex := by
  intro hmem
  obtain ⟨e, he, htran⟩ := mem_map.mp hmem
  rcases mem_append.mp he with hholder | hwaiter
  · exact findTran_eq_none.mp hfind e hholder htran
  · -- a waiter of the transaction would not be idle
    exact h.waits e he (h.waiters.entries e hwaiter).blocked.ne_null (hidle e he htran)

theorem LkRes.Inv.addHolder (he : HolderOk e) (hnull : e.blockedMode = .null)
    (hfresh : r.Fresh e.tranIndex) : (r.addHolder e).Inv := by
  have hperm := lockPositionHolderEntry_perm e r.holder
  refine ⟨⟨?_, h.waiters, ?_⟩, ?_⟩
  · have hpos := h.holders.position he
    rwa [supMode_modes_unblocked he.granted.null_le hnull,
      ← lockConv_eq_max he.granted.null_le h.holders.null_le_total] at hpos
  · refine ((hperm.append_right r.waiter).map _).nodup_iff.mpr ?_
    exact nodup_cons.mpr ⟨hfresh, h.nodup⟩
  intro i hi
  rcases mem_cons.mp ((hperm.append_right r.waiter).mem_iff.mp hi) with rfl | hi
  · exact LkEntry.waits_of_unblocked hnull
  · exact h.waits i hi

theorem LkRes.Inv.appendWaiter (he : WaiterOk e) (hwait : e.wait ≠ .running)
    (hfresh : r.Fresh e.tranIndex) : (r.appendWaiter e).Inv := by
  have hperm : (r.holder ++ (r.waiter ++ [e])).Perm (e :: (r.holder ++ r.waiter)) := by
    rw [← append_assoc]
    exact perm_append_singleton _ _
  refine ⟨⟨h.holders, h.waiters.append he, ?_⟩, ?_⟩
  · refine (hperm.map _).nodup_iff.mpr ?_
    exact nodup_cons.mpr ⟨hfresh, h.nodup⟩
  intro i hi
  rcases mem_cons.mp (hperm.mem_iff.mp hi) with rfl | hi
  · exact fun _ => hwait
  · exact h.waits i hi

theorem LkRes.Inv.lockNewRequest (hlock : lock.Requestable) (hfresh : r.Fresh tranIndex)
    (alloc : Bool) (waitMsecs : Int) : (lockNewRequest alloc tranIndex lock waitMsecs r).1.Inv := by
  rcases lockNewRequest_cases alloc tranIndex lock waitMsecs r with hr | ⟨_, hr⟩ | ⟨_, hr⟩
  · rwa [hr]
  · rw [hr]
    exact h.addHolder (.of_unblocked hlock rfl) rfl hfresh
  · rw [hr]
    exact h.appendWaiter ⟨rfl, hlock⟩ (by simp [lockInitializeEntryAsBlocked]) hfresh

theorem LkRes.Inv.replaceHolder {r' : LkRes} {e' : LkEntry}
    (hsplit : r.holder = before ++ e :: after) (hsplit' : r'.holder = before ++ e' :: after)
    (hwaiter : r'.waiter = r.waiter) (htotalw : r'.totalWaitersMode = r.totalWaitersMode)
    (hholders : HoldersOk r'.totalHoldersMode (before ++ e' :: after))
    (htran : e'.tranIndex = e.tranIndex) (hwaits : e'.Waits) : r'.Inv := by
  refine ⟨⟨hsplit' ▸ hholders, ?_, ?_⟩, ?_⟩
  · rw [hwaiter, htotalw]
    exact h.waiters
  · have hnodup := h.nodup
    rw [hsplit] at hnodup
    rw [hsplit', hwaiter]
    simpa [htran] using hnodup
  · intro i hi
    rw [hsplit', hwaiter, append_assoc] at hi
    rcases mem_cons.mp (perm_middle.mem_iff.mp hi) with rfl | hi
    · exact hwaits
    · refine h.waits i ?_
      rw [hsplit, append_assoc]
      exact mem_around hi

theorem LkRes.Inv.countUp (hfind : findTran tranIndex r.holder = some entry) :
    (r.countUp tranIndex).Inv := by
  obtain ⟨before, after, hsplit, -, -, hupdate⟩ := findTran_split hfind
  have hholders : HoldersOk r.totalHoldersMode (before ++ entry :: after) :=
    hsplit ▸ h.holders
  exact h.replaceHolder hsplit (hupdate _) rfl rfl (hholders.recount rfl rfl) rfl
    (h.waits entry (by simp [hsplit]))

end

theorem HoldersOk.granted_le_total {holder : List LkEntry} (h : HoldersOk total holder)
    (he : e ∈ holder) : e.grantedMode <= total :=
  le_trans (le_max_left _ _) (h.supMode_le_total he)

theorem LkRes.Inv.convert (h : r.Inv) (hlock : lock.Requestable)
    (hfind : findTran tranIndex r.holder = some entry) (hnull : entry.blockedMode = .null) :
    (r.convert tranIndex lock (lockConv lock entry.grantedMode)).Inv := by
  obtain ⟨before, after, hsplit, -, -, hupdate⟩ := findTran_split hfind
  have hholders : HoldersOk r.totalHoldersMode (before ++ entry :: after) :=
    hsplit ▸ h.holders
  have hmem : entry ∈ before ++ entry :: after := by simp
  have hgranted : entry.grantedMode.Requestable := (hholders.entries entry hmem).granted
  rw [lockConv_eq_max hlock.null_le hgranted.null_le]
  have hnew : (max lock entry.grantedMode).Requestable := hgranted.max_right hlock.null_le
  have hmodes : supMode (entry.convert (max lock entry.grantedMode)).modes =
      max lock entry.grantedMode :=
    supMode_modes_unblocked hnew.null_le hnull
  have hentry : HolderOk (entry.convert (max lock entry.grantedMode)) :=
    .of_unblocked hnew hnull
  have hle : supMode entry.modes <= supMode (entry.convert (max lock entry.grantedMode)).modes := by
    rw [hmodes, supMode_modes_unblocked hgranted.null_le hnull]
    exact le_max_right _ _
  have hreplaced := hholders.replace hentry rfl hle
  have htotal : lockConv lock r.totalHoldersMode =
      max (max lock entry.grantedMode) r.totalHoldersMode := by
    rw [lockConv_eq_max hlock.null_le h.holders.null_le_total, max_assoc,
      max_eq_right (hholders.granted_le_total hmem)]
  rw [hmodes, ← htotal] at hreplaced
  exact h.replaceHolder hsplit (hupdate _) rfl rfl hreplaced rfl (LkEntry.waits_of_unblocked hnull)

theorem LkRes.Inv.blockHolder (h : r.Inv) (hlock : lock.Requestable)
    (hfind : findTran tranIndex r.holder = some entry) (hnull : entry.blockedMode = .null) :
    (r.blockHolder tranIndex lock (entry.block (lockConv lock entry.grantedMode))).Inv := by
  obtain ⟨before, after, hsplit, -, herase, -⟩ := findTran_split hfind
  have hholders : HoldersOk r.totalHoldersMode (before ++ entry :: after) :=
    hsplit ▸ h.holders
  have hmem : entry ∈ before ++ entry :: after := by simp
  have hgranted : entry.grantedMode.Requestable := (hholders.entries entry hmem).granted
  rw [lockConv_eq_max hlock.null_le hgranted.null_le]
  have hnew : (max lock entry.grantedMode).Requestable := hgranted.max_right hlock.null_le
  have hentry : HolderOk (entry.block (max lock entry.grantedMode)) :=
    ⟨hgranted, hnew.null_le, fun _ => le_max_right _ _⟩
  have hmodes : supMode (entry.block (max lock entry.grantedMode)).modes =
      max lock entry.grantedMode := by
    simp [LkEntry.modes, LkEntry.block, hlock.null_le]
  have hperm := lockPositionHolderEntry_perm (entry.block (max lock entry.grantedMode))
    (eraseTran tranIndex r.holder)
  have hperm' : ((r.blockHolder tranIndex lock
      (entry.block (max lock entry.grantedMode))).holder ++ r.waiter).Perm
      (entry.block (max lock entry.grantedMode) :: (before ++ after ++ r.waiter)) := by
    rw [← herase]
    exact hperm.append_right r.waiter
  refine ⟨⟨?_, h.waiters, ?_⟩, ?_⟩
  · have hpos := hholders.erase.position hentry
    have htotal : lockConv lock r.totalHoldersMode = max (max lock entry.grantedMode)
          (supMode ((before ++ after).flatMap LkEntry.modes)) := by
      rw [lockConv_eq_max hlock.null_le h.holders.null_le_total, hholders.total_split,
        supMode_modes_unblocked hgranted.null_le hnull, max_assoc]
    rw [hmodes, ← htotal, ← herase] at hpos
    exact hpos
  · refine (hperm'.map _).nodup_iff.mpr ?_
    exact (nodup_tran_split hsplit).mp h.nodup
  · intro i hi
    rcases mem_cons.mp (hperm'.mem_iff.mp hi) with rfl | hi
    · exact fun _ => by simp [LkEntry.block]
    · exact h.waits i (h.others hsplit i hi).1

theorem LkRes.Inv.lockConversion (h : r.Inv) (hlock : lock.Requestable)
    (hfind : findTran tranIndex r.holder = some entry) (hidle : r.Idle tranIndex)
    (waitMsecs : Int) : (lockConversion tranIndex lock waitMsecs r entry).1.Inv := by
  have hnull : entry.blockedMode = .null := by
    obtain ⟨before, after, hsplit, htran, -, -⟩ := findTran_split hfind
    have hmem : entry ∈ r.holder ++ r.waiter := by simp [hsplit]
    exact Classical.not_not.mp fun hne => h.waits entry hmem hne (hidle entry hmem htran)
  rcases lockConversion_cases tranIndex lock waitMsecs r entry with
    hr | hr | ⟨_, hr⟩ | ⟨_, _, hr⟩
  · rwa [hr]
  · rw [hr]
    exact h.countUp hfind
  · rw [hr]
    exact h.convert hlock hfind hnull
  · rw [hr]
    exact h.blockHolder hlock hfind hnull

/-!
## Releases
-/

theorem LkRes.Inv.lockGrantBlockedHolder (h : r.Inv) :
    (lockGrantBlockedHolder r).Inv where
  holders := lockGrantBlockedHolder_ok h.holders
  waiters := h.waiters
  nodup := by
    have hperm := (lockGrantBlockedHolder_tran r).append_right (r.waiter.map LkEntry.tranIndex)
    have hnodup := h.nodup
    rw [map_append] at hnodup ⊢
    exact hperm.nodup_iff.mpr hnodup
  waits := by
    intro e he
    rcases mem_append.mp he with he | he
    · rcases lockGrantBlockedHolder_mem he with he | ⟨c, _, _, rfl⟩
      · exact h.waits e (mem_append_left _ he)
      · exact LkEntry.waits_of_unblocked rfl
    · exact h.waits e (mem_append_right _ he)

theorem LkRes.Inv.lockGrantBlockedWaiter (h : r.Inv) :
    (lockGrantBlockedWaiter r).Inv where
  holders := (lockGrantBlockedWaiter_walked r).keeps admissionKeeps_holdersOk h.holders
    h.waiters.entries
  waiters := lockGrantBlockedWaiter_waitersOk h.waiters
  nodup := (lockGrantBlockedWaiter_walked r).tran.nodup_iff.mpr h.nodup
  waits := by
    intro e he
    rcases mem_append.mp he with he | he
    · exact (lockGrantBlockedWaiter_walked r).keeps
        (admissionKeeps_forall fun _ hnull => LkEntry.waits_of_unblocked hnull)
        (fun i hi => h.waits i (mem_append_left _ hi)) h.waiters.entries e he
    · exact h.waits e (mem_append_right _ ((lockGrantBlockedWaiter_walked r).mem_waiter he))

theorem LkRes.Totals.setHolder (h : r.Totals) {curr : LkEntry}
    (hsplit : r.holder = before ++ entry :: after)
    (hgranted : curr.grantedMode = entry.grantedMode) (htran : curr.tranIndex = entry.tranIndex)
    (hwaits : forall e, e ∈ before ++ after ++ r.waiter -> e.Waits) (releaseFlag : Bool) :
    (r.setHolder (remainingHolders releaseFlag curr (before ++ after))).Inv := by
  have hholders : HoldersOk r.totalHoldersMode (before ++ entry :: after) :=
    hsplit ▸ h.holders
  have hnodup := (nodup_tran_split hsplit).mp h.nodup
  have hothers := hholders.erase
  unfold remainingHolders
  split_ifs with hback
  · have hcurr : HolderOk curr.unblock :=
      .of_unblocked (hgranted ▸ (hholders.entries entry (by simp)).granted) rfl
    have hpos := hothers.position hcurr
    have hperm := (lockPositionHolderEntry_perm curr.unblock
      (before ++ after)).append_right r.waiter
    refine ⟨⟨⟨holdersMode_eq hpos.entries, hpos.blockedFirst, hpos.entries⟩, h.waiters, ?_⟩, ?_⟩
    · refine (hperm.map LkEntry.tranIndex).nodup_iff.mpr ?_
      rw [← htran] at hnodup
      exact hnodup
    intro e he
    rcases mem_cons.mp (hperm.mem_iff.mp he) with rfl | he
    · exact LkEntry.waits_of_unblocked rfl
    · exact hwaits e he
  · exact ⟨⟨⟨holdersMode_eq hothers.entries, hothers.blockedFirst, hothers.entries⟩,
      h.waiters, (nodup_cons.mp hnodup).2⟩, hwaits⟩

theorem LkRes.Totals.releaseHolder (h : r.Totals) {curr : LkEntry}
    (hsplit : r.holder = before ++ entry :: after)
    (herase : eraseTran tranIndex r.holder = before ++ after)
    (hgranted : curr.grantedMode = entry.grantedMode) (htran : curr.tranIndex = entry.tranIndex)
    (hwaits : forall e, e ∈ before ++ after ++ r.waiter -> e.Waits) (dealloc releaseFlag : Bool) :
    forall r', releaseHolder dealloc releaseFlag tranIndex r curr = some r' -> r'.Inv := by
  intro r' hr'
  have hset := h.setHolder hsplit hgranted htran hwaits releaseFlag
  unfold Transaction.releaseHolder at hr'
  rw [herase] at hr'
  dsimp only at hr'
  split_ifs at hr'
  · cases hr'
    exact hset
  · cases hr'
    exact hset.lockGrantBlockedHolder.lockGrantBlockedWaiter

theorem releaseWaiter_cases (tranIndex : Nat) (r : LkRes) :
    (releaseWaiter tranIndex r = r ∧ forall e, e ∈ r.waiter -> e.tranIndex ≠ tranIndex) ∨
      exists before w fromWhom, r.waiter = before ++ w :: fromWhom ∧
        w.tranIndex = tranIndex ∧
          releaseWaiter tranIndex r = lockGrantBlockedWaiterPartial r before fromWhom := by
  have hsplit : r.waiter.takeWhile (fun i => i.tranIndex != tranIndex) ++
      r.waiter.dropWhile (fun i => i.tranIndex != tranIndex) = r.waiter :=
    takeWhile_append_dropWhile
  unfold releaseWaiter
  cases hdrop : r.waiter.dropWhile (fun i => i.tranIndex != tranIndex) with
  | nil =>
    refine .inl ⟨rfl, fun e he => ?_⟩
    rw [hdrop, append_nil] at hsplit
    rw [← hsplit] at he
    simpa using mem_takeWhile_imp he
  | cons w fromWhom =>
    rw [hdrop] at hsplit
    refine .inr ⟨_, w, fromWhom, hsplit.symm, ?_, ?_⟩
    · have hne : r.waiter.dropWhile (fun i => i.tranIndex != tranIndex) ≠ [] := by
        simp [hdrop]
      have hhead := head_dropWhile_not (fun i : LkEntry => i.tranIndex != tranIndex) hne
      simpa [hdrop] using hhead
    · cases fromWhom <;> rfl

theorem LkRes.Totals.releaseWaiter (h : r.Totals)
    (hholder : forall e, e ∈ r.holder -> e.tranIndex ≠ tranIndex)
    (hwaits : forall e, e ∈ r.holder ++ r.waiter -> e.tranIndex ≠ tranIndex -> e.Waits) :
    (releaseWaiter tranIndex r).Inv := by
  rcases releaseWaiter_cases tranIndex r with
    ⟨hr, hwaiter⟩ | ⟨before, w, fromWhom, hsplit, htran, hr⟩
  · rw [hr]
    refine ⟨h, fun e he => hwaits e he ?_⟩
    rcases mem_append.mp he with he | he
    · exact hholder e he
    · exact hwaiter e he
  have hok : forall e, e ∈ before ++ w :: fromWhom -> WaiterOk e := hsplit ▸ h.waiters.entries
  obtain ⟨hbefore, hfrom⟩ := forall_mem_append.mp hok
  obtain ⟨-, hfrom⟩ := forall_mem_cons.mp hfrom
  have hnodup : (w.tranIndex ::
      (r.holder ++ (before ++ fromWhom)).map LkEntry.tranIndex).Nodup := by
    have hperm : (r.holder ++ r.waiter).Perm (w :: (r.holder ++ (before ++ fromWhom))) := by
      rw [hsplit, ← append_assoc, ← append_assoc]
      exact perm_middle
    exact (hperm.map LkEntry.tranIndex).nodup_iff.mp h.nodup
  -- the entry that leaves is the only one of its transaction
  have hothers : forall e, e ∈ r.holder ++ (before ++ fromWhom) -> e.Waits := by
    intro e he
    refine hwaits e ?_ fun heq => ?_
    · rw [← append_assoc] at he
      rw [hsplit, ← append_assoc]
      exact mem_around he
    · refine (nodup_cons.mp hnodup).1 ?_
      rw [htran, ← heq]
      exact mem_map_of_mem he
  have hwalked := grantBlockedWaiterPartialLoop_walked before
    (convModes (before.map LkEntry.blockedMode)) r fromWhom
  rw [hr]
  refine ⟨⟨?_, ?_, ?_⟩, ?_⟩
  · exact hwalked.keeps admissionKeeps_holdersOk h.holders hfrom
  · exact grantBlockedWaiterPartialLoop_waitersOk ⟨convModes_blocked_eq hbefore, hbefore⟩ hfrom
  · exact hwalked.tran.nodup_iff.mpr (nodup_cons.mp hnodup).2
  intro e he
  rcases mem_append.mp he with he | he
  · exact hwalked.keeps (admissionKeeps_forall fun _ hnull => LkEntry.waits_of_unblocked hnull)
      (fun i hi => hothers i (mem_append_left _ hi)) hfrom e he
  · exact hothers e (mem_append_right _ (hwalked.mem_waiter he))

variable (releaseFlag : Bool)

@[simp] theorem LkEntry.countDown_grantedMode (e : LkEntry) :
    (e.countDown releaseFlag).grantedMode = e.grantedMode := by
  cases releaseFlag <;> rfl

@[simp] theorem LkEntry.countDown_blockedMode (e : LkEntry) :
    (e.countDown releaseFlag).blockedMode = e.blockedMode := by
  cases releaseFlag <;> rfl

@[simp] theorem LkEntry.countDown_tranIndex (e : LkEntry) :
    (e.countDown releaseFlag).tranIndex = e.tranIndex := by
  cases releaseFlag <;> rfl

/--
A release keeps the invariant.  The entry that is released may belong to a
thread that has just been woken up, so nothing is asked of its wait state.
-/
theorem LkRes.Totals.unlock (h : r.Totals)
    (hwaits : forall e, e ∈ r.holder ++ r.waiter -> e.tranIndex ≠ tranIndex -> e.Waits)
    (dealloc releaseFlag : Bool) :
    forall r', lockInternalPerformUnlockObject dealloc releaseFlag tranIndex r = some r' ->
      r'.Inv := by
  intro r' hr'
  unfold lockInternalPerformUnlockObject at hr'
  cases hfind : findTran tranIndex r.holder with
  | none =>
    rw [hfind] at hr'
    cases hr'
    exact h.releaseWaiter (findTran_eq_none.mp hfind) hwaits
  | some entry =>
    obtain ⟨before, after, hsplit, htran, herase, hupdate⟩ := findTran_split hfind
    have hothers : forall e, e ∈ before ++ after ++ r.waiter -> e.Waits :=
      fun e he => hwaits e (h.others hsplit e he).1 (htran ▸ (h.others hsplit e he).2)
    rw [hfind] at hr'
    dsimp only at hr'
    split_ifs at hr' with hcount
    · -- only counted down: the entry is not blocked
      cases hr'
      have hnull : entry.blockedMode = .null := by simpa using hcount.2.1
      have hholders : HoldersOk r.totalHoldersMode (before ++ entry :: after) :=
        hsplit ▸ h.holders
      have hinv : r.Inv := by
        refine ⟨h, fun e he => ?_⟩
        rw [hsplit, append_assoc, cons_append] at he
        rcases mem_cons.mp (perm_middle.mem_iff.mp he) with rfl | he
        · exact LkEntry.waits_of_unblocked hnull
        · rw [← append_assoc] at he
          exact hothers e he
      refine hinv.replaceHolder hsplit (hupdate _) rfl rfl
        (hholders.recount (by simp) (by simp)) (by simp) ?_
      exact LkEntry.waits_of_unblocked (by simpa using hnull)
    · exact h.releaseHolder hsplit herase (by simp) (by simp) hothers dealloc releaseFlag r' hr'

/-!
## Wake-ups
-/

theorem LkRes.Totals.mapWait (h : r.Totals) (tranIndex : Nat) (f : WaitState -> WaitState) :
    (r.mapWait tranIndex f).Totals := by
  obtain ⟨g, hg⟩ : exists g : LkEntry -> LkEntry, g = fun i : LkEntry =>
      if i.tranIndex = tranIndex then { i with wait := f i.wait } else i := ⟨_, rfl⟩
  have hfields : forall i, (g i).tranIndex = i.tranIndex ∧ (g i).grantedMode = i.grantedMode ∧
      (g i).blockedMode = i.blockedMode := by
    intro i
    rw [hg]
    dsimp only
    split_ifs <;> exact ⟨rfl, rfl, rfl⟩
  have htran := fun i => (hfields i).1
  have hgranted := fun i => (hfields i).2.1
  have hblocked := fun i => (hfields i).2.2
  have hmodes : forall i, (g i).modes = i.modes := by
    intro i
    simp [LkEntry.modes, hgranted, hblocked]
  have heq : r.mapWait tranIndex f =
      { r with holder := r.holder.map g, waiter := r.waiter.map g } := by
    rw [hg]
    rfl
  rw [heq]
  refine ⟨⟨?_, ?_, ?_⟩, ⟨?_, ?_⟩, ?_⟩
  · simp [h.holders.total_eq, flatMap_map, hmodes]
  · simpa [BlockedFirst, pairwise_map, hblocked] using h.holders.blockedFirst
  · intro e he
    obtain ⟨i, hi, rfl⟩ := mem_map.mp he
    have hok := h.holders.entries i hi
    exact ⟨hgranted i ▸ hok.granted, hblocked i ▸ hok.blocked,
      by simpa [hgranted, hblocked] using hok.upgrade⟩
  · simp [h.waiters.total_eq, Function.comp_def, hblocked]
  · intro e he
    obtain ⟨i, hi, rfl⟩ := mem_map.mp he
    have hok := h.waiters.entries i hi
    exact ⟨hgranted i ▸ hok.granted, hblocked i ▸ hok.blocked⟩
  · simpa [Function.comp_def, htran] using h.nodup

variable {f : WaitState -> WaitState}

theorem LkRes.mem_mapWait
    (he : e ∈ (r.mapWait tranIndex f).holder ++ (r.mapWait tranIndex f).waiter) :
    exists i, i ∈ r.holder ++ r.waiter ∧
      e = if i.tranIndex = tranIndex then { i with wait := f i.wait } else i := by
  have hmem : e ∈ (r.holder ++ r.waiter).map (fun i : LkEntry =>
      if i.tranIndex = tranIndex then { i with wait := f i.wait } else i) := by
    rw [map_append]
    exact he
  obtain ⟨i, hi, heq⟩ := mem_map.mp hmem
  exact ⟨i, hi, heq.symm⟩

theorem LkRes.Inv.mapWait (h : r.Inv) (tranIndex : Nat)
    (hf : forall w, w ≠ .running -> f w ≠ .running) : (r.mapWait tranIndex f).Inv := by
  refine ⟨h.toTotals.mapWait tranIndex f, fun e he => ?_⟩
  obtain ⟨i, hi, rfl⟩ := LkRes.mem_mapWait he
  have hwaits := h.waits i hi
  split_ifs
  · exact fun hne => hf _ (hwaits hne)
  · exact hwaits

theorem LkRes.Inv.waits_mapWait_others (h : r.Inv) (tranIndex : Nat) (f : WaitState -> WaitState) :
    forall e, e ∈ (r.mapWait tranIndex f).holder ++ (r.mapWait tranIndex f).waiter ->
      e.tranIndex ≠ tranIndex -> e.Waits := by
  intro e he hne
  obtain ⟨i, hi, rfl⟩ := LkRes.mem_mapWait he
  have hi' : i.tranIndex ≠ tranIndex := by
    intro heq
    simp [heq] at hne
  rw [if_neg hi']
  exact h.waits i hi

theorem LkRes.Inv.giveUp (h : r.Inv) (dealloc : Bool) (tranIndex : Nat) :
    forall r', r.giveUp dealloc tranIndex = some r' -> r'.Inv := by
  intro r' hr'
  unfold LkRes.giveUp at hr'
  split_ifs at hr'
  · exact (h.toTotals.mapWait tranIndex _).unlock (h.waits_mapWait_others tranIndex _)
      dealloc false r' hr'
  · cases hr'
    exact h

/-!
## Every step keeps the invariant
-/

theorem LkRes.Inv.request (h : r.Inv) (hlock : lock.Requestable) (hidle : r.Idle tranIndex)
    (waitMsecs : Int) (alloc : Bool) :
    forall r', (lockInternalPerformLockObject alloc tranIndex lock waitMsecs
      (some r)).1 = some r' -> r'.Inv := by
  intro r' hr'
  unfold lockInternalPerformLockObject at hr'
  cases hfind : findTran tranIndex r.holder with
  | none =>
    simp only [hfind, Option.some.injEq] at hr'
    exact hr' ▸ h.lockNewRequest hlock (h.fresh hfind hidle) alloc waitMsecs
  | some entry =>
    simp only [hfind, Option.some.injEq] at hr'
    exact hr' ▸ h.lockConversion hlock hfind hidle waitMsecs

theorem inv_first {alloc : Bool} {waitMsecs : Int} (hlock : lock.Requestable) :
    forall r', (lockInternalPerformLockObject alloc tranIndex lock waitMsecs none).1 =
      some r' -> r'.Inv := by
  intro r' hr'
  cases alloc with
  | false => cases hr'
  | true =>
    cases hr'
    have hentry : HolderOk (lockInitializeEntryAsGranted tranIndex lock) :=
      .of_unblocked hlock rfl
    refine ⟨⟨⟨?_, ?_, ?_⟩, ⟨rfl, by simp⟩, by simp⟩, ?_⟩
    · simp [LkEntry.modes, lockInitializeEntryAsGranted, hlock.null_le]
    · simp [BlockedFirst]
    · simpa using hentry
    · simp [LkEntry.Waits, lockInitializeEntryAsGranted]

theorem lockNext_inv {s t : Option LkRes} {a : LockStep}
    (h : forall r, s = some r -> r.Inv) (hthread : OneThread s a) (hadm : a.Admissible)
    (hstep : t = lockNext s a) : forall r, t = some r -> r.Inv := by
  intro r' hr'
  rw [hstep] at hr'
  cases s with
  | none =>
    cases a with
    | request tranIndex lock waitMsecs alloc => exact inv_first hadm r' hr'
    | _ => cases hr'
  | some r =>
    have hr : r.Inv := h r rfl
    cases a with
    | request tranIndex lock waitMsecs alloc => exact hr.request hadm hthread waitMsecs alloc r' hr'
    | release tranIndex releaseFlag dealloc =>
      change r.release dealloc releaseFlag tranIndex = some r' at hr'
      unfold LkRes.release at hr'
      split_ifs at hr'
      · exact hr.toTotals.unlock (fun e he _ => hr.waits e he) dealloc releaseFlag r' hr'
      · cases hr'
        exact hr
    | wake tranIndex | interrupt tranIndex | notice tranIndex =>
      cases hr'
      exact hr.mapWait tranIndex (fun w => by cases w <;> decide)
    | giveUp tranIndex dealloc => exact hr.giveUp dealloc tranIndex r' hr'

theorem lockSystem_inv {s : Option LkRes}
    (h : (lockSystem.guarded OneThread).Reachable s) : forall r, s = some r -> r.Inv := by
  refine h.guarded_invariant (fun s => forall r, s = some r -> r.Inv) ?_ ?_
  · intro s hs r hr
    rw [show s = none from hs] at hr
    cases hr
  · intro s a t hInv hthread hstep
    exact lockNext_inv hInv hthread hstep.1 hstep.2

/--
Two readers, an upgrade that waits, a writer that waits behind it, a wake-up by
timeout and the release that grants the upgrade.
-/
def upgradeRun : List LockStep :=
  [.request 1 .s (-1) true, .request 2 .s (-1) true, .request 1 .x (-1) true,
    .request 3 .x 500 true, .wake 3, .release 2 true true]

/-- A second thread of a waiting transaction asks for a weaker mode. -/
def secondThreadRun : List LockStep :=
  [.request 1 .u (-1) true, .request 2 .u (-1) true, .request 2 .s (-1) true]

end Rye.Transaction
