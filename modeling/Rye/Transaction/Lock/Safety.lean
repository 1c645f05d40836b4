import Rye.Transaction.Lock.Bookkeeping

/-!
# Compatibility of the granted modes

Two transactions must never hold incompatible modes.  A request is checked
against all holders, and so is a waiter.  The grant of a blocked holder is
checked only against the entries behind it: the entries in front of it are
those the loop has skipped because their threads are already awake, and these
still hold what was granted to them.

The steps that run the grant loop are therefore safe as long as no such entry
stands in front of a waiting upgrader that is incompatible with it.
-/

namespace Rye.Transaction

open Foundation List

/-- Any two entries of the holder list have compatible granted modes. -/
def Compatible (holder : List LkEntry) : Prop :=
  holder.Pairwise fun i j => lockComp i.grantedMode j.grantedMode = .yes

/--
If `w` waits no more and `c` still waits for an upgrade, then `w` does not
hold anything `c` waits for.
-/
def ClearOf (w c : LkEntry) : Prop :=
  w.blockedMode ≠ .null -> w.isLockwaitThread = false ->
    c.blockedMode ≠ .null -> c.isLockwaitThread = true ->
      lockComp c.blockedMode w.grantedMode = .yes

/-- Among the holders other than `tranIndex`, no woken upgrader obstructs a later one. -/
def UpgradesClear (tranIndex : Nat) (holder : List LkEntry) : Prop :=
  holder.Pairwise fun w c => w.tranIndex ≠ tranIndex -> c.tranIndex ≠ tranIndex -> ClearOf w c

/-- The steps that grant blocked holders find the upgraders clear. -/
def GrantsClear : Option LkRes -> LockStep -> Prop
  | some r, .release tranIndex _ _ => UpgradesClear tranIndex r.holder
  | some r, .giveUp tranIndex _ => UpgradesClear tranIndex r.holder
  | _, _ => True

instance (w c : LkEntry) : Decidable (ClearOf w c) := by
  unfold ClearOf
  infer_instance

instance (tranIndex : Nat) (holder : List LkEntry) :
    Decidable (UpgradesClear tranIndex holder) := by
  unfold UpgradesClear
  infer_instance

instance (s : Option LkRes) (a : LockStep) : Decidable (GrantsClear s a) :=
  match s, a with
  | some r, .release tranIndex _ _ | some r, .giveUp tranIndex _ =>
    inferInstanceAs (Decidable (UpgradesClear tranIndex r.holder))
  | some _, .request _ _ _ _ | some _, .wake _ | some _, .interrupt _ | some _, .notice _
  | none, _ => .isTrue trivial

instance (holder : List LkEntry) : Decidable (Compatible holder) := by
  unfold Compatible
  infer_instance

variable {holder : List LkEntry} {e : LkEntry} {r : LkRes} {tranIndex : Nat}

theorem Compatible.perm {holder' : List LkEntry} (h : Compatible holder)
    (hperm : holder.Perm holder') : Compatible holder' :=
  (hperm.pairwise_iff fun hij => (lockComp_symm _ _).trans hij).mp h

theorem compatible_cons :
    Compatible (e :: holder) <->
      (forall i, i ∈ holder -> lockComp e.grantedMode i.grantedMode = .yes) ∧
        Compatible holder :=
  pairwise_cons

variable {before after : List LkEntry}

theorem Compatible.replace {e' : LkEntry} (h : Compatible (before ++ e :: after))
    (hgranted : e'.grantedMode = e.grantedMode) : Compatible (before ++ e' :: after) := by
  have hcons := compatible_cons.mp (h.perm perm_middle)
  refine Compatible.perm (compatible_cons.mpr ⟨?_, hcons.2⟩) perm_middle.symm
  rw [hgranted]
  exact hcons.1

theorem Compatible.erase (h : Compatible (before ++ e :: after)) : Compatible (before ++ after) :=
  (compatible_cons.mp (h.perm perm_middle)).2

theorem Compatible.position (h : Compatible holder)
    (he : forall i, i ∈ holder -> lockComp e.grantedMode i.grantedMode = .yes) :
    Compatible (lockPositionHolderEntry e holder) :=
  Compatible.perm (compatible_cons.mpr ⟨he, h⟩) (lockPositionHolderEntry_perm e holder).symm

theorem comp_granted_of_convModes {m : Lock} (hok : forall e, e ∈ holder -> HolderOk e)
    (hm : .null <= m) (h : lockComp m (convModes (holder.map LkEntry.grantedMode)) = .yes) :
    forall i, i ∈ holder -> lockComp m i.grantedMode = .yes := by
  rw [convModes_granted_eq hok, lockComp_supMode_iff hm] at h
  · exact fun i hi => h _ (mem_map_of_mem hi)
  · intro n hn
    obtain ⟨e, he, rfl⟩ := mem_map.mp hn
    exact (hok e he).granted.null_le

theorem comp_granted_of_total {total : Lock} {m : Lock} (hok : HoldersOk total holder)
    (hm : .null <= m) (h : lockComp m total = .yes) :
    forall i, i ∈ holder -> lockComp m i.grantedMode = .yes := by
  intro i hi
  rw [hok.total_eq, lockComp_supMode_iff hm] at h
  · exact h _ (mem_flatMap.mpr ⟨i, hi, by simp [LkEntry.modes]⟩)
  · intro n hn
    obtain ⟨e, he, hne⟩ := mem_flatMap.mp hn
    exact (hok.entries e he).null_le n hne

/-!
## Grants keep compatibility
-/

theorem admissionKeeps_compatible :
    AdmissionKeeps fun total holder => HoldersOk total holder ∧ Compatible holder := by
  intro r check h hcheck hcomp
  refine ⟨admissionKeeps_holdersOk r check h.1 hcheck hcomp, ?_⟩
  have hfits := comp_granted_of_total h.1 hcheck.blocked.null_le
    ((lockComp_ne_no_iff hcheck.blocked.null_le h.1.null_le_total).mp hcomp)
  exact Compatible.position (e := check.grant) h.2 hfits

/--
The loop over the blocked holders.  What it has skipped must be clear of what
it still looks at; the test of the loop covers everything else.
-/
theorem grantBlockedHolderLoop_compatible {skipped blocked rest : List LkEntry}
    (hok : forall e, e ∈ skipped ++ blocked ++ rest -> HolderOk e)
    (hblocked : forall e, e ∈ blocked -> e.blockedMode ≠ .null)
    (hcompat : Compatible (skipped ++ blocked ++ rest))
    (hskipped : forall w, w ∈ skipped -> forall c, c ∈ blocked ->
      c.isLockwaitThread = true -> lockComp c.blockedMode w.grantedMode = .yes)
    (hclear : blocked.Pairwise ClearOf) :
    Compatible (grantBlockedHolderLoop skipped blocked rest) := by
  induction blocked generalizing skipped rest with
  | nil => simpa [grantBlockedHolderLoop] using hcompat
  | cons check blocked ih =>
    obtain ⟨hcheck, hblocked'⟩ := forall_mem_cons.mp hblocked
    have hcheckOk : HolderOk check := hok check (by simp)
    have hbehind : forall e, e ∈ blocked ++ rest -> HolderOk e := by
      intro e he
      refine hok e ?_
      rw [append_assoc]
      exact mem_append_right _ (mem_cons_of_mem _ he)
    obtain ⟨hclearCheck, hclear'⟩ := pairwise_cons.mp hclear
    have hmove : (skipped ++ check :: blocked ++ rest).Perm
        (check :: (skipped ++ (blocked ++ rest))) := by
      simp only [append_assoc, cons_append]
      exact perm_middle
    unfold grantBlockedHolderLoop
    dsimp only
    split_ifs with hcomp hwait
    · simpa using hcompat
    · -- granted: clear of the skipped entries, tested against those behind
      have hfits : forall i, i ∈ skipped ++ (blocked ++ rest) ->
          lockComp check.blockedMode i.grantedMode = .yes := by
        intro i hi
        rcases mem_append.mp hi with hi | hi
        · exact hskipped i hi check (mem_cons_self ..) hwait
        refine comp_granted_of_convModes hbehind hcheckOk.blocked ?_ i hi
        refine (lockComp_ne_no_iff hcheckOk.blocked ?_).mp hcomp
        rw [convModes_granted_eq hbehind]
        exact null_le_supMode _
      have hothers := (compatible_cons.mp (hcompat.perm hmove)).2
      have hmove' : (skipped ++ blocked ++ check.grant :: rest).Perm
          (check.grant :: (skipped ++ (blocked ++ rest))) := by
        rw [← append_assoc]
        exact perm_middle
      refine ih ?_ hblocked' ?_ ?_ hclear'
      · intro e he
        rcases mem_cons.mp (hmove'.mem_iff.mp he) with rfl | he
        · exact hcheckOk.grant hcheck
        · exact hok e (hmove.mem_iff.mpr (mem_cons_of_mem _ he))
      · exact Compatible.perm (compatible_cons.mpr ⟨hfits, hothers⟩) hmove'.symm
      · intro w hw c hc
        exact hskipped w hw c (mem_cons_of_mem _ hc)
    · -- skipped: its thread is awake
      refine ih (by simpa using hok) hblocked' (by simpa using hcompat) ?_ hclear'
      intro w hw c hc hcwait
      rcases mem_append.mp hw with hw | hw
      · exact hskipped w hw c (mem_cons_of_mem _ hc) hcwait
      · obtain rfl : w = check := by simpa using hw
        exact hclearCheck c hc hcheck (by simpa using hwait) (hblocked' c hc) hcwait

theorem lockGrantBlockedHolder_compatible (hok : HoldersOk r.totalHoldersMode r.holder)
    (hcompat : Compatible r.holder) (hclear : r.holder.Pairwise ClearOf) :
    Compatible (lockGrantBlockedHolder r).holder := by
  have hsplit : ([] : List LkEntry) ++ r.holder.takeWhile (fun i => !isUnblocked i) ++
      r.holder.dropWhile (fun i => !isUnblocked i) = r.holder := by
    rw [nil_append, takeWhile_append_dropWhile]
  refine grantBlockedHolderLoop_compatible ?_ ?_ ?_ (by simp) ?_
  · rw [hsplit]
    exact hok.entries
  · intro e he
    exact mem_takeWhile_blocked he
  · rw [hsplit]
    exact hcompat
  · exact hclear.sublist (takeWhile_sublist _)

/-!
## Releases
-/

theorem clearOf_of_unblocked_left {w c : LkEntry} (h : w.blockedMode = .null) : ClearOf w c :=
  fun hne => absurd h hne

theorem clearOf_of_unblocked_right {w c : LkEntry} (h : c.blockedMode = .null) :
    ClearOf w c :=
  fun _ _ hne => absurd h hne

theorem clear_position (h : holder.Pairwise ClearOf) (he : e.blockedMode = .null) :
    (lockPositionHolderEntry e holder).Pairwise ClearOf := by
  rw [lockPositionHolderEntry, if_pos he, insertBefore_eq]
  have hsplit : (holder.takeWhile (fun i => !isUnblocked i) ++
      holder.dropWhile (fun i => !isUnblocked i)).Pairwise ClearOf := by
    rwa [takeWhile_append_dropWhile]
  obtain ⟨hbefore, hafter, hcross⟩ := pairwise_append.mp hsplit
  refine pairwise_append.mpr ⟨hbefore, pairwise_cons.mpr
    ⟨fun _ _ => clearOf_of_unblocked_left he, hafter⟩, ?_⟩
  intro w hw c hc
  rcases mem_cons.mp hc with rfl | hc
  · exact clearOf_of_unblocked_right he
  · exact hcross w hw c hc

theorem clear_remainingHolders {curr : LkEntry} {others : List LkEntry}
    (h : others.Pairwise ClearOf) (releaseFlag : Bool) :
    (remainingHolders releaseFlag curr others).Pairwise ClearOf := by
  unfold remainingHolders
  split_ifs
  · exact clear_position h rfl
  · exact h

theorem compatible_remainingHolders {entry curr : LkEntry}
    (h : Compatible (before ++ entry :: after)) (hgranted : curr.grantedMode = entry.grantedMode)
    (releaseFlag : Bool) : Compatible (remainingHolders releaseFlag curr (before ++ after)) := by
  unfold remainingHolders
  split_ifs
  · have hreplaced : Compatible (before ++ curr.unblock :: after) := h.replace hgranted
    exact (hreplaced.perm perm_middle).perm (lockPositionHolderEntry_perm _ _).symm
  · exact h.erase

theorem grants_compatible (h : r.Inv) (hcompat : Compatible r.holder)
    (hclear : r.holder.Pairwise ClearOf) :
    Compatible (lockGrantBlockedWaiter (lockGrantBlockedHolder r)).holder := by
  have hgranted := h.lockGrantBlockedHolder
  exact ((lockGrantBlockedWaiter_walked _).keeps admissionKeeps_compatible
    ⟨hgranted.holders, lockGrantBlockedHolder_compatible h.holders hcompat hclear⟩
    hgranted.waiters.entries).2

theorem unlock_compatible (h : r.Totals)
    (hwaits : forall e, e ∈ r.holder ++ r.waiter -> e.tranIndex ≠ tranIndex -> e.Waits)
    (hcompat : Compatible r.holder) (hclear : UpgradesClear tranIndex r.holder)
    (dealloc releaseFlag : Bool) :
    forall r', lockInternalPerformUnlockObject dealloc releaseFlag tranIndex r = some r' ->
      Compatible r'.holder := by
  intro r' hr'
  unfold lockInternalPerformUnlockObject at hr'
  cases hfind : findTran tranIndex r.holder with
  | none =>
    rw [hfind] at hr'
    cases hr'
    rcases releaseWaiter_cases tranIndex r with
      ⟨hr, -⟩ | ⟨before, w, fromWhom, hsplit, -, hr⟩
    · rwa [hr]
    rw [hr]
    refine ((grantBlockedWaiterPartialLoop_walked _ _ _ _).keeps admissionKeeps_compatible
      ⟨h.holders, hcompat⟩ fun e he => h.waiters.entries e ?_).2
    simp [hsplit, he]
  | some entry =>
    obtain ⟨before, after, hsplit, htran, herase, hupdate⟩ := findTran_split hfind
    have hcompat' : Compatible (before ++ entry :: after) := hsplit ▸ hcompat
    rw [hfind] at hr'
    dsimp only at hr'
    split_ifs at hr' with hcount
    · cases hr'
      rw [hupdate]
      exact hcompat'.replace (by simp)
    have hne : forall e, e ∈ before ++ after -> e.tranIndex ≠ tranIndex :=
      fun e he => htran ▸ (h.others hsplit e (mem_append_left _ he)).2
    have hothers : forall e, e ∈ before ++ after ++ r.waiter -> e.Waits :=
      fun e he => hwaits e (h.others hsplit e he).1 (htran ▸ (h.others hsplit e he).2)
    have hclear' : (before ++ after).Pairwise ClearOf := by
      have hsub : (before ++ after).Sublist r.holder := by
        rw [hsplit]
        simp
      refine List.Pairwise.imp_of_mem ?_ (hclear.sublist hsub)
      intro w c hw hc hwc
      exact hwc (hne w hw) (hne c hc)
    have hset : (r.setHolder (remainingHolders releaseFlag
        (entry.countDown releaseFlag) (before ++ after))).Inv :=
      h.setHolder hsplit (by simp) (by simp) hothers releaseFlag
    have hremaining : Compatible
        (remainingHolders releaseFlag (entry.countDown releaseFlag) (before ++ after)) :=
      compatible_remainingHolders hcompat' (by simp) releaseFlag
    unfold releaseHolder at hr'
    rw [herase] at hr'
    dsimp only at hr'
    split_ifs at hr'
    · cases hr'
      exact hremaining
    · cases hr'
      exact grants_compatible hset hremaining (clear_remainingHolders hclear' releaseFlag)

/-!
## Requests and wake-ups
-/

theorem LkRes.Inv.request_compatible (h : r.Inv) {lock : Lock} (hlock : lock.Requestable)
    (hcompat : Compatible r.holder) (waitMsecs : Int) (alloc : Bool) :
    forall r', (lockInternalPerformLockObject alloc tranIndex lock waitMsecs
      (some r)).1 = some r' -> Compatible r'.holder := by
  intro r' hr'
  unfold lockInternalPerformLockObject at hr'
  cases hfind : findTran tranIndex r.holder with
  | none =>
    simp only [hfind, Option.some.injEq] at hr'
    rcases lockNewRequest_cases alloc tranIndex lock waitMsecs r with
      hr | ⟨hfits, hr⟩ | ⟨_, hr⟩
    · rwa [← hr', hr]
    · rw [← hr', hr]
      refine Compatible.position (e := lockInitializeEntryAsGranted tranIndex lock) hcompat ?_
      rcases hfits with htotal | hgroup
      · exact comp_granted_of_total h.holders hlock.null_le htotal
      · exact comp_granted_of_convModes h.holders.entries hlock.null_le hgroup
    · rw [← hr', hr]
      exact hcompat
  | some entry =>
    simp only [hfind, Option.some.injEq] at hr'
    obtain ⟨before, after, hsplit, htran, herase, hupdate⟩ := findTran_split hfind
    have hcompat' : Compatible (before ++ entry :: after) := hsplit ▸ hcompat
    have hok : forall e, e ∈ before ++ entry :: after -> HolderOk e :=
      hsplit ▸ h.holders.entries
    rcases lockConversion_cases tranIndex lock waitMsecs r entry with
      hr | hr | ⟨hfits, hr⟩ | ⟨hnull, _, hr⟩
    · rwa [← hr', hr]
    · rw [← hr', hr]
      change Compatible (updateTran tranIndex LkEntry.countUp r.holder)
      rw [hupdate]
      exact hcompat'.replace rfl
    · rw [← hr', hr]
      change Compatible (updateTran tranIndex _ r.holder)
      rw [herase] at hfits
      rw [hupdate]
      have hgranted : Lock.null <= entry.grantedMode :=
        (hok entry (by simp)).granted.null_le
      have hnew : Lock.null <= lockConv lock entry.grantedMode := by
        rw [lockConv_eq_max hlock.null_le hgranted]
        exact le_trans hgranted (le_max_right _ _)
      have hothers := comp_granted_of_convModes (fun e he => hok e (mem_around he)) hnew hfits
      exact Compatible.perm (compatible_cons.mpr ⟨hothers, hcompat'.erase⟩) perm_middle.symm
    · rw [← hr', hr]
      change Compatible (lockPositionHolderEntry _ (eraseTran tranIndex r.holder))
      rw [herase]
      refine hcompat'.erase.position ?_
      exact (compatible_cons.mp (hcompat'.perm perm_middle)).1

theorem compatible_mapWait (h : Compatible r.holder) (tranIndex : Nat)
    (f : WaitState -> WaitState) : Compatible (r.mapWait tranIndex f).holder := by
  refine pairwise_map.mpr (h.imp ?_)
  intro i j hij
  split_ifs <;> exact hij

theorem upgradesClear_mapWait (h : UpgradesClear tranIndex r.holder) (f : WaitState -> WaitState) :
    UpgradesClear tranIndex (r.mapWait tranIndex f).holder := by
  refine pairwise_map.mpr (h.imp ?_)
  intro w c hwc hw hc
  have hw' : w.tranIndex ≠ tranIndex := by
    intro heq
    simp [heq] at hw
  have hc' : c.tranIndex ≠ tranIndex := by
    intro heq
    simp [heq] at hc
  rw [if_neg hw', if_neg hc']
  exact hwc hw' hc'

theorem LkRes.Inv.giveUp_compatible (h : r.Inv) (hcompat : Compatible r.holder)
    (hclear : UpgradesClear tranIndex r.holder) (dealloc : Bool) :
    forall r', r.giveUp dealloc tranIndex = some r' -> Compatible r'.holder := by
  intro r' hr'
  unfold LkRes.giveUp at hr'
  split_ifs at hr'
  · refine unlock_compatible (h.toTotals.mapWait tranIndex _) ?_
      (compatible_mapWait hcompat tranIndex _) (upgradesClear_mapWait hclear _)
      dealloc false r' hr'
    exact h.waits_mapWait_others tranIndex _
  · cases hr'
    exact hcompat

/-!
## The safety of a run
-/

/-- One thread per transaction, and grants that find the upgraders clear. -/
def SafeStep (s : Option LkRes) (a : LockStep) : Prop :=
  OneThread s a ∧ GrantsClear s a

instance (s : Option LkRes) (a : LockStep) : Decidable (SafeStep s a) :=
  inferInstanceAs (Decidable (_ ∧ _))

theorem lockNext_compatible {s t : Option LkRes} {a : LockStep}
    (h : forall r, s = some r -> r.Inv ∧ Compatible r.holder) (hsafe : SafeStep s a)
    (hadm : a.Admissible) (hstep : t = lockNext s a) :
    forall r, t = some r -> Compatible r.holder := by
  intro r' hr'
  rw [hstep] at hr'
  cases s with
  | none =>
    cases a with
    | request tranIndex lock waitMsecs alloc =>
      cases alloc with
      | false => cases hr'
      | true =>
        cases hr'
        simp [Compatible]
    | _ => cases hr'
  | some r =>
    obtain ⟨hr, hcompat⟩ := h r rfl
    cases a with
    | request tranIndex lock waitMsecs alloc =>
      exact hr.request_compatible hadm hcompat waitMsecs alloc r' hr'
    | release tranIndex releaseFlag dealloc =>
      change r.release dealloc releaseFlag tranIndex = some r' at hr'
      unfold LkRes.release at hr'
      split_ifs at hr'
      · exact unlock_compatible hr.toTotals (fun e he _ => hr.waits e he) hcompat
          hsafe.2 dealloc releaseFlag r' hr'
      · cases hr'
        exact hcompat
    | wake tranIndex | interrupt tranIndex | notice tranIndex =>
      cases hr'
      exact compatible_mapWait hcompat tranIndex _
    | giveUp tranIndex dealloc => exact hr.giveUp_compatible hcompat hsafe.2 dealloc r' hr'

theorem Compatible.exclusive (h : Compatible holder) (hok : forall e, e ∈ holder -> HolderOk e)
    (he : e ∈ holder) (hx : e.grantedMode = .x) : holder = [e] := by
  obtain ⟨before, after, rfl⟩ := append_of_mem he
  have hothers := (compatible_cons.mp (h.perm perm_middle)).1
  have hnone : before ++ after = [] := by
    refine eq_nil_iff_forall_not_mem.mpr fun i hi => ?_
    have hcomp := hothers i hi
    rw [hx] at hcomp
    rcases (hok i (mem_around hi)).granted with hg | hg | hg <;> rw [hg] at hcomp <;> cases hcomp
  obtain ⟨rfl, rfl⟩ := append_eq_nil_iff.mp hnone
  rfl

theorem lockSystem_compatible {s : Option LkRes} (h : (lockSystem.guarded SafeStep).Reachable s) :
    forall r, s = some r -> Compatible r.holder ∧
      forall e, e ∈ r.holder -> e.grantedMode = .x -> r.holder = [e] := by
  have hinv : forall r, s = some r -> r.Inv ∧ Compatible r.holder := by
    refine h.guarded_invariant (fun s => forall r, s = some r -> r.Inv ∧ Compatible r.holder) ?_ ?_
    · intro s hs r hr
      rw [show s = none from hs] at hr
      cases hr
    · intro s a t hInv hsafe hstep r hr
      exact ⟨lockNext_inv (fun r hr => (hInv r hr).1) hsafe.1 hstep.1 hstep.2 r hr,
        lockNext_compatible hInv hsafe hstep.1 hstep.2 r hr⟩
  intro r hr
  obtain ⟨hr', hcompat⟩ := hinv r hr
  exact ⟨hcompat, fun e he hx => hcompat.exclusive hr'.holders.entries he hx⟩

theorem lockSystem_compatible_upgradeRun :
    exists r, upgradeRun.foldl lockNext none = some r ∧ r.holder ≠ [] ∧
      Compatible r.holder ∧ forall e, e ∈ r.holder -> e.grantedMode = .x -> r.holder = [e] := by
  refine ⟨_, rfl, by decide, ?_⟩
  exact lockSystem_compatible (System.reachable_guarded_of_follows upgradeRun (by decide)) _ rfl

/--
Two readers wait for upgrades behind a third holder.  The first upgrader has
timed out but not yet taken back its request when the third holder leaves, and
the second upgrader is granted the exclusive lock.
-/
def staleUpgraderRun : List LockStep :=
  [.request 1 .s (-1) true, .request 2 .s (-1) true, .request 3 .u (-1) true,
    .request 1 .u 500 true, .request 2 .x (-1) true, .wake 1, .release 3 true true]

theorem not_compatible_staleUpgraderRun :
    exists r, lockSystem.Reachable (some r) ∧ ¬ Compatible r.holder := by
  refine ⟨_, System.reachable_of_follows staleUpgraderRun (by decide), ?_⟩
  decide

end Rye.Transaction
