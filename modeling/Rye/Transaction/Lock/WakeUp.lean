import Rye.Transaction.Lock.Bookkeeping
import Mathlib.Data.List.Forall2

/-!
# No request is left behind

A request is granted when it is made, or when another entry leaves the resource.
The walk over the blocked holders and the two walks over the waiters stop early or
step over entries, so it is not obvious that the entry at the head of a list is
still blocked by somebody after each of them.

The head of a list is the only entry a later walk is certain to look at.  The
invariant is therefore about the heads, and only about a head whose thread waits:
a thread that was woken up takes its own request back, and that starts a walk at
the entry behind it.  Unlike the bookkeeping of the total modes, the invariant
does not ask that a transaction has a single thread.
-/

namespace Rye.Transaction

open Foundation List

/-!
## The heads of the lists
-/

/-- A blocked holder at the head of the list that waits is blocked by another holder. -/
def UpgraderBlocked (holder : List LkEntry) : Prop :=
  forall b rest, holder = b :: rest -> b.blockedMode ≠ .null -> b.isLockwaitThread = true ->
    exists i, i ∈ rest ∧ lockComp b.blockedMode i.grantedMode = .no

/-- A waiter at the head of the list that waits is blocked by the holders. -/
def WaiterBlocked (total : Lock) (waiter : List LkEntry) : Prop :=
  forall w rest, waiter = w :: rest -> w.isLockwaitThread = true ->
    lockComp w.blockedMode total = .no

/-- The modes of a holder; a second thread may raise the granted mode above the blocked one. -/
structure HolderModes (e : LkEntry) : Prop where
  granted : e.grantedMode.Requestable
  blocked : .null <= e.blockedMode

structure HoldersServed (total : Lock) (holder : List LkEntry) : Prop where
  total : .null <= total
  entries : forall e, e ∈ holder -> HolderModes e
  blockedFirst : BlockedFirst holder
  upgrader : UpgraderBlocked holder

structure LkRes.Served (r : LkRes) : Prop where
  holders : HoldersServed r.totalHoldersMode r.holder
  waiters : forall e, e ∈ r.waiter -> WaiterOk e
  waiter : WaiterBlocked r.totalHoldersMode r.waiter

theorem waiterBlocked_nil (total : Lock) : WaiterBlocked total [] := by
  intro w rest hsplit
  cases hsplit

variable {total : Lock} {holder : List LkEntry} {e : LkEntry} {r : LkRes} {es : List LkEntry}
    {tranIndex : Nat} {r' : LkRes} {lock : Lock} {entry : LkEntry} {waiter : List LkEntry}
    {m : Lock} {others es' : List LkEntry}

theorem WaiterBlocked.append {rest : List LkEntry} (h : WaiterBlocked total waiter)
    (hne : waiter ≠ []) : WaiterBlocked total (waiter ++ rest) := by
  cases waiter with
  | nil => exact absurd rfl hne
  | cons w before =>
    rintro w' rest' ⟨⟩ hwait
    exact h w before rfl hwait

theorem lockComp_no_mono {a b : Lock} (ha : .null <= a) (hab : a <= b) (h : lockComp m a = .no) :
    lockComp m b = .no := by
  revert ha hab h
  cases m <;> cases a <;> cases b <;> decide

theorem WaiterBlocked.mono {total' : Lock} (h : WaiterBlocked total waiter)
    (hnull : .null <= total) (hle : total <= total') : WaiterBlocked total' waiter :=
  fun w rest hsplit hwait => lockComp_no_mono hnull hle (h w rest hsplit hwait)

theorem lockComp_eq_no {a b : Lock} (ha : .null <= a) (hb : .null <= b)
    (h : lockComp a b ≠ .yes) : lockComp a b = .no := by
  by_contra hne
  exact h ((lockComp_ne_no_iff ha hb).mp hne)

/-- A mode that does not fit the conversion of all granted modes does not fit one of them. -/
theorem exists_blocking (hmodes : forall e, e ∈ holder -> HolderModes e) (hm : .null <= m)
    (h : lockComp m (convModes (holder.map LkEntry.grantedMode)) ≠ .yes) :
    exists i, i ∈ holder ∧ lockComp m i.grantedMode = .no := by
  have hnull : forall n, n ∈ holder.map LkEntry.grantedMode -> Lock.null <= n := by
    intro n hn
    rcases mem_map.mp hn with ⟨e, he, rfl⟩
    exact (hmodes e he).granted.null_le
  rw [convModes_eq_supMode hnull] at h
  by_contra hnone
  apply h
  rw [lockComp_supMode_iff hm hnull]
  intro n hn
  rcases mem_map.mp hn with ⟨e, he, rfl⟩
  by_contra hno
  exact hnone ⟨e, he, lockComp_eq_no hm (hmodes e he).granted.null_le hno⟩

section

variable (he : e.blockedMode ≠ .null -> exists i, i ∈ others ∧ lockComp e.blockedMode
  i.grantedMode = .no)
include he

/-- An entry put into the list is blocked by somebody, or in front of it the head is. -/
theorem upgraderBlocked_insertBefore {p : LkEntry -> Bool}
    (hothers : forall b rest, others = b :: rest -> b.blockedMode ≠ .null ->
      b.isLockwaitThread = true ->
        exists i, i ∈ e :: rest ∧ lockComp b.blockedMode i.grantedMode = .no) :
    UpgraderBlocked (insertBefore p e others) := by
  cases others with
  | nil =>
    rintro b rest ⟨⟩ hblocked _
    exact he hblocked
  | cons i after =>
    unfold insertBefore
    split_ifs
    · rintro b rest ⟨⟩ hblocked _
      exact he hblocked
    · rintro b rest ⟨⟩ hblocked hwait
      rcases hothers i after rfl hblocked hwait with ⟨j, hj, hno⟩
      exact ⟨j, (insertBefore_perm p e after).mem_iff.mpr hj, hno⟩

theorem upgraderBlocked_position
    (hothers : forall b rest, others = b :: rest -> b.blockedMode ≠ .null ->
      b.isLockwaitThread = true ->
        exists i, i ∈ e :: rest ∧ lockComp b.blockedMode i.grantedMode = .no) :
    UpgraderBlocked (lockPositionHolderEntry e others) := by
  unfold lockPositionHolderEntry
  split_ifs <;> exact upgraderBlocked_insertBefore he hothers

end

theorem holderModes_position (he : HolderModes e)
    (hothers : forall i, i ∈ others -> HolderModes i) :
    forall i, i ∈ lockPositionHolderEntry e others -> HolderModes i := by
  intro i hi
  rcases mem_cons.mp ((lockPositionHolderEntry_perm e others).mem_iff.mp hi) with rfl | hi
  · exact he
  · exact hothers i hi

theorem HoldersServed.add (h : HoldersServed total holder) (hgranted : e.grantedMode.Requestable)
    (hnull : e.blockedMode = .null) :
    HoldersServed (lockConv e.grantedMode total) (lockPositionHolderEntry e holder) := by
  refine ⟨?_, ?_, h.blockedFirst.position, ?_⟩
  · rw [lockConv_eq_max hgranted.null_le h.total]
    exact le_trans h.total (le_max_right _ _)
  · exact holderModes_position ⟨hgranted, le_of_eq hnull.symm⟩ h.entries
  refine upgraderBlocked_position (fun hne => absurd hnull hne) ?_
  intro b rest hsplit hblocked hwait
  rcases h.upgrader b rest hsplit hblocked hwait with ⟨i, hi, hno⟩
  exact ⟨i, mem_cons_of_mem _ hi, hno⟩

theorem admissionKeeps_holdersServed : AdmissionKeeps HoldersServed := by
  intro r check h hcheck _
  exact h.add hcheck.blocked rfl

theorem total_le_accept {check : LkEntry} (htotal : .null <= r.totalHoldersMode)
    (hcheck : WaiterOk check) : r.totalHoldersMode <= (r.accept check).totalHoldersMode := by
  change _ <= lockConv check.blockedMode r.totalHoldersMode
  rw [lockConv_eq_max hcheck.blocked.null_le htotal]
  exact le_max_right _ _

/-!
## The walks
-/

variable {skipped rest : List LkEntry}

theorem upgraderBlocked_of_awake (hskipped : forall e, e ∈ skipped -> e.isLockwaitThread = false)
    (h : UpgraderBlocked rest) : UpgraderBlocked (skipped ++ rest) := by
  cases skipped with
  | nil => exact h
  | cons s skipped =>
    rintro b tail ⟨⟩ _ hwait
    rw [hskipped s mem_cons_self] at hwait
    cases hwait

/-- The head left by a walk is an entry that was stepped over, or the one that stopped it. -/
theorem grantBlockedHolderLoop_upgrader {skipped blocked rest : List LkEntry}
    (hmodes : forall e, e ∈ blocked ++ rest -> HolderModes e)
    (hskipped : forall e, e ∈ skipped -> e.isLockwaitThread = false)
    (hblocked : forall e, e ∈ blocked -> e.blockedMode ≠ .null)
    (hrest : forall e, e ∈ rest -> e.blockedMode = .null) :
    UpgraderBlocked (grantBlockedHolderLoop skipped blocked rest) := by
  induction blocked generalizing skipped rest with
  | nil =>
    apply upgraderBlocked_of_awake hskipped
    rintro b tail rfl hne _
    exact absurd (hrest b mem_cons_self) hne
  | cons check blocked ih =>
    obtain ⟨hcheck, hblocked⟩ := forall_mem_cons.mp hblocked
    obtain ⟨hok, hmodes⟩ := forall_mem_cons.mp hmodes
    unfold grantBlockedHolderLoop
    dsimp only
    split_ifs with hcomp hwait
    · rw [append_assoc]
      apply upgraderBlocked_of_awake hskipped
      rintro b tail ⟨⟩ _ _
      apply exists_blocking hmodes hok.blocked
      exact fun hyes => absurd (hcomp.symm.trans hyes) (by decide)
    · refine ih (fun e he => ?_) hskipped hblocked (forall_mem_cons.mpr ⟨rfl, hrest⟩)
      rcases mem_cons.mp (perm_middle.mem_iff.mp he) with rfl | he
      · exact ⟨Lock.requestable_iff.mpr ⟨hok.blocked, hcheck⟩, le_refl _⟩
      · exact hmodes e he
    · refine ih hmodes (forall_mem_append.mpr ⟨hskipped, ?_⟩) hblocked hrest
      exact forall_mem_singleton.mpr (by simpa using hwait)

theorem lockGrantBlockedHolder_served (htotal : .null <= r.totalHoldersMode)
    (hmodes : forall e, e ∈ r.holder -> HolderModes e) (hfirst : BlockedFirst r.holder) :
    HoldersServed r.totalHoldersMode (lockGrantBlockedHolder r).holder := by
  refine ⟨htotal, fun e he => ?_, hfirst.grantBlockedHolder, ?_⟩
  · rcases lockGrantBlockedHolder_mem he with he | ⟨c, hc, hblocked, rfl⟩
    · exact hmodes e he
    · exact ⟨Lock.requestable_iff.mpr ⟨(hmodes c hc).blocked, hblocked⟩, le_refl _⟩
  · refine grantBlockedHolderLoop_upgrader ?_ (by simp) (fun _ => mem_takeWhile_blocked)
      (fun _ => hfirst.mem_dropWhile)
    rwa [takeWhile_append_dropWhile]

theorem waiterBlocked_of_awake (hskipped : forall e, e ∈ skipped -> e.isLockwaitThread = false)
    (h : WaiterBlocked total rest) : WaiterBlocked total (skipped ++ rest) := by
  cases skipped with
  | nil => exact h
  | cons s skipped =>
    rintro w tail ⟨⟩ hwait
    rw [hskipped s mem_cons_self] at hwait
    cases hwait

theorem grantBlockedWaiterLoop_blocked {changed : Bool} {r : LkRes}
    (hskipped : forall e, e ∈ skipped -> e.isLockwaitThread = false) :
    WaiterBlocked (grantBlockedWaiterLoop skipped changed r rest).1.totalHoldersMode
      (grantBlockedWaiterLoop skipped changed r rest).1.waiter := by
  induction rest generalizing skipped changed r with
  | nil =>
    have hawake := waiterBlocked_of_awake hskipped (waiterBlocked_nil r.totalHoldersMode)
    rwa [append_nil] at hawake
  | cons check rest ih =>
    unfold grantBlockedWaiterLoop
    split_ifs with hcomp hwait
    · apply waiterBlocked_of_awake hskipped
      rintro w tail ⟨⟩ _
      exact hcomp
    · exact ih hskipped
    · refine ih (forall_mem_append.mpr ⟨hskipped, ?_⟩)
      exact forall_mem_singleton.mpr (by simpa using hwait)

theorem LkRes.Served.lockGrantBlockedWaiter (hholders : HoldersServed r.totalHoldersMode r.holder)
    (hwaiters : forall e, e ∈ r.waiter -> WaiterOk e) : (lockGrantBlockedWaiter r).Served := by
  have hwalked := lockGrantBlockedWaiter_walked r
  refine ⟨hwalked.keeps admissionKeeps_holdersServed hholders hwaiters, ?_, ?_⟩
  · intro e he
    exact hwaiters e (hwalked.mem_waiter he)
  have hloop := @grantBlockedWaiterLoop_blocked [] r.waiter false r (by simp)
  unfold Transaction.lockGrantBlockedWaiter
  dsimp only
  split_ifs <;> exact hloop

/-- The walk behind an entry that leaves.  While it has passed nobody, nothing but the holders
can stop it. -/
theorem grantBlockedWaiterPartialLoop_blocked {before rest : List LkEntry} {mode : Lock}
    (hholders : HoldersServed r.totalHoldersMode r.holder)
    (hrest : forall e, e ∈ rest -> WaiterOk e) (hbefore : WaiterBlocked r.totalHoldersMode before)
    (hmode : before = [] -> mode = .null) :
    WaiterBlocked (grantBlockedWaiterPartialLoop before mode r rest).totalHoldersMode
      (grantBlockedWaiterPartialLoop before mode r rest).waiter := by
  induction rest generalizing before mode r with
  | nil => exact hbefore
  | cons check rest ih =>
    obtain ⟨hcheck, hrest'⟩ := forall_mem_cons.mp hrest
    have hpass : (check.isLockwaitThread = true ->
        lockComp check.blockedMode r.totalHoldersMode = .no) ->
        WaiterBlocked r.totalHoldersMode (before ++ [check]) := by
      intro hno
      cases before with
      | nil =>
        rintro w tail ⟨⟩ hwait
        exact hno hwait
      | cons w before => exact hbefore.append (cons_ne_nil _ _)
    unfold grantBlockedWaiterPartialLoop
    split_ifs with hstop hcomp hwait
    · cases before with
      | nil =>
        rw [hmode rfl] at hstop
        rcases hcheck.blocked with hm | hm | hm <;> rw [hm] at hstop <;>
          exact absurd rfl hstop
      | cons w before => exact hbefore.append (cons_ne_nil _ _)
    · exact ih hholders hrest' (hpass fun _ => hcomp) (fun hnil => by simp at hnil)
    · refine ih (admissionKeeps_holdersServed r check hholders hcheck hcomp) hrest' ?_ hmode
      exact hbefore.mono hholders.total (total_le_accept hholders.total hcheck)
    · exact ih hholders hrest' (hpass fun hwait' => absurd hwait' hwait)
        (fun hnil => by simp at hnil)

/-!
## Changes in place
-/

/-- An entry that asks for the same, holds at least as much, and does not begin to wait. -/
structure LkEntry.Keeps (e e' : LkEntry) : Prop where
  blocked : e'.blockedMode = e.blockedMode
  wait : e'.isLockwaitThread = true -> e.isLockwaitThread = true
  granted : e.grantedMode <= e'.grantedMode

theorem LkEntry.keeps_self (e : LkEntry) : e.Keeps e :=
  ⟨rfl, id, le_refl _⟩

theorem exists_keeps_of_mem (h : List.Forall₂ LkEntry.Keeps es es') (he : e ∈ es) :
    exists e', e' ∈ es' ∧ e.Keeps e' := by
  induction h with
  | nil => cases he
  | cons hkeeps _ ih =>
    rcases mem_cons.mp he with rfl | he
    · exact ⟨_, mem_cons_self, hkeeps⟩
    · rcases ih he with ⟨e', he', hkeeps'⟩
      exact ⟨e', mem_cons_of_mem _ he', hkeeps'⟩

theorem exists_kept_of_mem (h : List.Forall₂ LkEntry.Keeps es es') {e' : LkEntry} (he' : e' ∈ es') :
    exists e, e ∈ es ∧ e.Keeps e' := by
  induction h with
  | nil => cases he'
  | cons hkeeps _ ih =>
    rcases mem_cons.mp he' with rfl | he'
    · exact ⟨_, mem_cons_self, hkeeps⟩
    · rcases ih he' with ⟨e, he, hkeeps'⟩
      exact ⟨e, mem_cons_of_mem _ he, hkeeps'⟩

theorem Lock.Requestable.mono {n : Lock} (hm : m.Requestable) (hle : m <= n) : n.Requestable := by
  revert hm hle
  cases m <;> cases n <;> decide

theorem BlockedFirst.keeps (hfirst : BlockedFirst es) (h : List.Forall₂ LkEntry.Keeps es es') :
    BlockedFirst es' := by
  induction h with
  | nil => exact hfirst
  | cons hkeeps hrest ih =>
    rcases pairwise_cons.mp hfirst with ⟨hhead, htail⟩
    refine pairwise_cons.mpr ⟨?_, ih htail⟩
    intro j' hj' hnull
    rcases exists_kept_of_mem hrest hj' with ⟨j, hj, hkept⟩
    rw [hkept.blocked]
    rw [hkeeps.blocked] at hnull
    exact hhead j hj hnull

theorem HoldersServed.keeps {total' : Lock} {holder' : List LkEntry}
    (h : HoldersServed total holder) (hkeeps : List.Forall₂ LkEntry.Keeps holder holder')
    (htotal : total <= total') : HoldersServed total' holder' := by
  refine ⟨le_trans h.total htotal, ?_, h.blockedFirst.keeps hkeeps, ?_⟩
  · intro e' he'
    rcases exists_kept_of_mem hkeeps he' with ⟨e, he, hkept⟩
    have hmodes := h.entries e he
    exact ⟨hmodes.granted.mono hkept.granted, hkept.blocked ▸ hmodes.blocked⟩
  intro b' rest' hsplit hne hwait
  cases hkeeps with
  | nil => cases hsplit
  | cons hhead htail =>
    cases hsplit
    rw [hhead.blocked] at hne ⊢
    rcases h.upgrader _ _ rfl hne (hhead.wait hwait) with ⟨i, hi, hno⟩
    rcases exists_keeps_of_mem htail hi with ⟨i', hi', hkept⟩
    have hi_modes := h.entries i (mem_cons_of_mem _ hi)
    exact ⟨i', hi', lockComp_no_mono hi_modes.granted.null_le hkept.granted hno⟩

theorem WaiterBlocked.keeps {waiter' : List LkEntry} (h : WaiterBlocked total waiter)
    (hkeeps : List.Forall₂ LkEntry.Keeps waiter waiter') : WaiterBlocked total waiter' := by
  intro w' rest' hsplit hwait
  cases hkeeps with
  | nil => cases hsplit
  | cons hhead htail =>
    cases hsplit
    rw [hhead.blocked]
    exact h _ _ rfl (hhead.wait hwait)

theorem keeps_updateTran {f : LkEntry -> LkEntry}
    (hf : forall e, findTran tranIndex es = some e -> e.Keeps (f e)) :
    List.Forall₂ LkEntry.Keeps es (updateTran tranIndex f es) := by
  induction es with
  | nil => exact .nil
  | cons e es ih =>
    unfold updateTran
    split_ifs with htran
    · refine .cons (hf e ?_) (forall₂_same.mpr fun i _ => i.keeps_self)
      simp [findTran, htran]
    · refine .cons e.keeps_self (ih fun i hi => hf i ?_)
      simpa [findTran, htran] using hi

/-!
## Requests
-/

section

variable (h : r.Served)
include h

theorem LkRes.Served.of_holders (hholders : HoldersServed r'.totalHoldersMode r'.holder)
    (htotal : r.totalHoldersMode <= r'.totalHoldersMode) (hwaiter : r'.waiter = r.waiter) :
    r'.Served := by
  refine ⟨hholders, ?_, ?_⟩
  · rw [hwaiter]
    exact h.waiters
  · rw [hwaiter]
    exact h.waiter.mono h.holders.total htotal

section

variable (hlock : lock.Requestable)
include hlock

theorem LkRes.Served.le_lockConv : r.totalHoldersMode <= lockConv lock r.totalHoldersMode := by
  rw [lockConv_eq_max hlock.null_le h.holders.total]
  exact le_max_right _ _

theorem LkRes.Served.lockNewRequest (alloc : Bool) (tranIndex : Nat) (waitMsecs : Int) :
    (lockNewRequest alloc tranIndex lock waitMsecs r).1.Served := by
  rcases lockNewRequest_cases alloc tranIndex lock waitMsecs r with hr | ⟨_, hr⟩ | ⟨hcomp, hr⟩
  · rwa [hr]
  · rw [hr]
    exact h.of_holders (h.holders.add hlock rfl) (h.le_lockConv hlock) rfl
  rw [hr]
  refine ⟨h.holders, ?_, ?_⟩
  · refine forall_mem_append.mpr ⟨h.waiters, forall_mem_singleton.mpr ?_⟩
    exact ⟨rfl, hlock⟩
  change WaiterBlocked r.totalHoldersMode (r.waiter ++ [_])
  cases hwaiter : r.waiter with
  | nil =>
    rintro w rest ⟨⟩ _
    exact lockComp_eq_no hlock.null_le h.holders.total hcomp
  | cons w rest =>
    rw [← hwaiter]
    apply h.waiter.append
    rw [hwaiter]
    exact cons_ne_nil _ _

section

variable (hfind : findTran tranIndex r.holder = some entry)
include hfind

theorem LkRes.Served.convert :
    (r.convert tranIndex lock (lockConv lock entry.grantedMode)).Served := by
  refine h.of_holders (h.holders.keeps ?_ (h.le_lockConv hlock)) (h.le_lockConv hlock) rfl
  apply keeps_updateTran
  intro e he
  cases hfind.symm.trans he
  have hgranted := (h.holders.entries entry (mem_of_find?_eq_some hfind)).granted
  refine ⟨rfl, id, ?_⟩
  rw [lockConv_eq_max hlock.null_le hgranted.null_le]
  exact le_max_right _ _

theorem LkRes.Served.blockHolder (hnull : entry.blockedMode = .null)
    (hcomp : lockComp (lockConv lock entry.grantedMode)
      (convModes ((eraseTran tranIndex r.holder).map LkEntry.grantedMode)) ≠ .yes) :
    (r.blockHolder tranIndex lock (entry.block (lockConv lock entry.grantedMode))).Served := by
  rcases findTran_split hfind with ⟨before, after, hsplit, -, herase, -⟩
  have hmodes : forall i, i ∈ eraseTran tranIndex r.holder -> HolderModes i :=
    fun i hi => h.holders.entries i (mem_of_mem_eraseP hi)
  have hgranted := (h.holders.entries entry (mem_of_find?_eq_some hfind)).granted
  have hnew : .null <= lockConv lock entry.grantedMode := by
    rw [lockConv_eq_max hlock.null_le hgranted.null_le]
    exact le_trans hlock.null_le (le_max_left _ _)
  refine h.of_holders ⟨?_, ?_, ?_, ?_⟩ (h.le_lockConv hlock) rfl
  · exact le_trans h.holders.total (h.le_lockConv hlock)
  · exact holderModes_position ⟨hgranted, hnew⟩ hmodes
  · exact BlockedFirst.position (h.holders.blockedFirst.sublist eraseP_sublist)
  refine upgraderBlocked_position (fun _ => exists_blocking hmodes hnew hcomp) ?_
  intro b rest hothers hblocked hwait
  rw [herase] at hothers
  cases before with
  | nil =>
    -- the entry itself was the head, so nobody behind it is blocked
    have hfirst := h.holders.blockedFirst
    rw [hsplit] at hfirst
    have hb := (pairwise_cons.mp hfirst).1 b
    change after = b :: rest at hothers
    rw [hothers] at hb
    exact absurd (hb mem_cons_self hnull) hblocked
  | cons b' before =>
    cases hothers
    rcases h.holders.upgrader b (before ++ entry :: after) hsplit hblocked hwait with
      ⟨i, hi, hno⟩
    rcases mem_cons.mp (perm_middle.mem_iff.mp hi) with rfl | hi
    · exact ⟨_, mem_cons_self, hno⟩
    · exact ⟨i, mem_cons_of_mem _ hi, hno⟩

theorem LkRes.Served.lockConversion (waitMsecs : Int) :
    (lockConversion tranIndex lock waitMsecs r entry).1.Served := by
  rcases lockConversion_cases tranIndex lock waitMsecs r entry with
    hr | hr | ⟨_, hr⟩ | ⟨hnull, hcomp, hr⟩
  · rwa [hr]
  · rw [hr]
    refine h.of_holders (h.holders.keeps ?_ (le_refl _)) (le_refl _) rfl
    exact keeps_updateTran fun e _ => ⟨rfl, id, le_refl _⟩
  · rw [hr]
    exact h.convert hlock hfind
  · rw [hr]
    exact h.blockHolder hlock hfind hnull hcomp

end

theorem LkRes.Served.request {alloc : Bool} {waitMsecs : Int}
    (hr' : (lockInternalPerformLockObject alloc tranIndex lock waitMsecs (some r)).1 = some r') :
    r'.Served := by
  unfold lockInternalPerformLockObject at hr'
  cases hfind : findTran tranIndex r.holder with
  | none =>
    simp only [hfind, Option.some.injEq] at hr'
    rw [← hr']
    exact h.lockNewRequest hlock alloc tranIndex waitMsecs
  | some entry =>
    simp only [hfind, Option.some.injEq] at hr'
    rw [← hr']
    exact h.lockConversion hlock hfind waitMsecs

end

end

/-!
## Releases
-/

theorem served_of_remaining (hmodes : forall e, e ∈ holder -> HolderModes e)
    (hfirst : BlockedFirst holder) (hwaiters : forall e, e ∈ r.waiter -> WaiterOk e) :
    (lockGrantBlockedWaiter (lockGrantBlockedHolder (r.setHolder holder))).Served := by
  have hnull : forall m, m ∈ holder.flatMap LkEntry.modes -> Lock.null <= m := by
    intro m hm
    rcases mem_flatMap.mp hm with ⟨e, he, hme⟩
    have hcases : m = e.grantedMode ∨ m = e.blockedMode := by
      simpa [LkEntry.modes] using hme
    rcases hcases with rfl | rfl
    · exact (hmodes e he).granted.null_le
    · exact (hmodes e he).blocked
  have htotal : .null <= (r.setHolder holder).totalHoldersMode := by
    change .null <= convModes (holder.flatMap LkEntry.modes)
    rw [convModes_eq_supMode hnull]
    exact null_le_supMode _
  apply LkRes.Served.lockGrantBlockedWaiter
  · exact lockGrantBlockedHolder_served htotal hmodes hfirst
  · exact hwaiters

variable {dealloc releaseFlag : Bool}

theorem LkRes.Served.releaseHolder (h : r.Served) {curr : LkEntry}
    (hfind : findTran tranIndex r.holder = some entry)
    (hgranted : curr.grantedMode = entry.grantedMode)
    (hr' : releaseHolder dealloc releaseFlag tranIndex r curr = some r') : r'.Served := by
  have hothers : forall e, e ∈ eraseTran tranIndex r.holder -> HolderModes e :=
    fun e he => h.holders.entries e (mem_of_mem_eraseP he)
  have hfirst : BlockedFirst (eraseTran tranIndex r.holder) :=
    h.holders.blockedFirst.sublist eraseP_sublist
  have hcurr : HolderModes curr.unblock := by
    have hentry := h.holders.entries entry (mem_of_find?_eq_some hfind)
    refine ⟨?_, le_refl _⟩
    change curr.grantedMode.Requestable
    rw [hgranted]
    exact hentry.granted
  have hremaining :
      (forall e, e ∈ remainingHolders releaseFlag curr (eraseTran tranIndex r.holder) ->
        HolderModes e) ∧
      BlockedFirst (remainingHolders releaseFlag curr (eraseTran tranIndex r.holder)) := by
    unfold remainingHolders
    split_ifs
    · exact ⟨holderModes_position hcurr hothers, hfirst.position⟩
    · exact ⟨hothers, hfirst⟩
  unfold Transaction.releaseHolder at hr'
  dsimp only at hr'
  split_ifs at hr' with hempty
  · cases hr'
    refine ⟨⟨?_, ?_, ?_, ?_⟩, h.waiters, ?_⟩
    · rw [hempty.1]
      exact le_refl Lock.null
    · exact hremaining.1
    · exact hremaining.2
    · intro b rest hnil
      rw [hempty.1] at hnil
      cases hnil
    · change WaiterBlocked _ r.waiter
      rw [hempty.2]
      exact waiterBlocked_nil _
  · cases hr'
    exact served_of_remaining hremaining.1 hremaining.2 h.waiters

theorem LkRes.Served.releaseWaiter (h : r.Served) (tranIndex : Nat) :
    (releaseWaiter tranIndex r).Served := by
  rcases releaseWaiter_cases tranIndex r with ⟨hr, _⟩ | ⟨before, w, fromWhom, hsplit, _, hr⟩
  · rwa [hr]
  rw [hr]
  have hmem : forall e, e ∈ before ++ fromWhom -> WaiterOk e :=
    fun e he => h.waiters e (hsplit ▸ mem_around he)
  have hrest : forall e, e ∈ fromWhom -> WaiterOk e :=
    fun e he => hmem e (mem_append_right _ he)
  have hwalked := grantBlockedWaiterPartialLoop_walked before
    (convModes (before.map LkEntry.blockedMode)) r fromWhom
  refine ⟨hwalked.keeps admissionKeeps_holdersServed h.holders hrest, ?_, ?_⟩
  · intro e he
    exact hmem e (hwalked.mem_waiter he)
  refine grantBlockedWaiterPartialLoop_blocked h.holders hrest ?_ ?_
  · cases before with
    | nil => exact waiterBlocked_nil _
    | cons b before =>
      rintro b' rest ⟨⟩ hwait
      exact h.waiter b (before ++ w :: fromWhom) hsplit hwait
  · rintro rfl
    rfl

theorem LkRes.Served.unlock (h : r.Served)
    (hr' : lockInternalPerformUnlockObject dealloc releaseFlag tranIndex r = some r') :
    r'.Served := by
  unfold lockInternalPerformUnlockObject at hr'
  cases hfind : findTran tranIndex r.holder with
  | none =>
    rw [hfind] at hr'
    cases hr'
    exact h.releaseWaiter tranIndex
  | some entry =>
    rw [hfind] at hr'
    dsimp only at hr'
    have hcount : forall e : LkEntry, e.Keeps (e.countDown releaseFlag) := by
      intro e
      unfold LkEntry.countDown
      split_ifs
      · exact e.keeps_self
      · exact ⟨rfl, id, le_refl _⟩
    split_ifs at hr'
    · cases hr'
      refine h.of_holders (h.holders.keeps ?_ (le_refl _)) (le_refl _) rfl
      exact keeps_updateTran fun e _ => hcount e
    · refine h.releaseHolder hfind ?_ hr'
      unfold LkEntry.countDown
      split_ifs <;> rfl

/-!
## Runs
-/

theorem LkRes.Served.mapWait (h : r.Served) (tranIndex : Nat) {f : WaitState -> WaitState}
    (hf : forall e : LkEntry, ({ e with wait := f e.wait } : LkEntry).isLockwaitThread = true ->
      e.isLockwaitThread = true) : (r.mapWait tranIndex f).Served := by
  have hkeeps : forall es : List LkEntry, List.Forall₂ LkEntry.Keeps es (es.map fun i =>
      if i.tranIndex = tranIndex then { i with wait := f i.wait } else i) := by
    intro es
    rw [forall₂_map_right_iff]
    refine forall₂_same.mpr fun e _ => ?_
    split_ifs
    · exact ⟨rfl, hf e, le_refl _⟩
    · exact e.keeps_self
  refine ⟨h.holders.keeps (hkeeps r.holder) (le_refl _), ?_, h.waiter.keeps (hkeeps r.waiter)⟩
  intro e he
  rcases mem_map.mp he with ⟨i, hi, rfl⟩
  have hok := h.waiters i hi
  split_ifs
  · exact ⟨hok.granted, hok.blocked⟩
  · exact hok

theorem served_first {alloc : Bool} {waitMsecs : Int} (hlock : lock.Requestable)
    (hr : (lockInternalPerformLockObject alloc tranIndex lock waitMsecs none).1 = some r) :
    r.Served := by
  unfold lockInternalPerformLockObject at hr
  split_ifs at hr
  · cases hr
    refine ⟨⟨hlock.null_le, ?_, pairwise_singleton _ _, ?_⟩, ?_, waiterBlocked_nil _⟩
    · intro e he
      rw [mem_singleton.mp he]
      exact ⟨hlock, le_refl _⟩
    · rintro b rest ⟨⟩ hne
      exact absurd rfl hne
    · intro e he
      cases he

theorem lockNext_served {s : Option LkRes} {a : LockStep} (h : forall r, s = some r -> r.Served)
    (hadmissible : a.Admissible) : forall r, lockNext s a = some r -> r.Served := by
  intro r' hr'
  cases s with
  | none =>
    cases a with
    | request tranIndex lock waitMsecs alloc => exact served_first hadmissible hr'
    | _ => cases hr'
  | some r =>
    have hr := h r rfl
    cases a with
    | request tranIndex lock waitMsecs alloc => exact hr.request hadmissible hr'
    | release tranIndex releaseFlag dealloc =>
      change r.release dealloc releaseFlag tranIndex = some r' at hr'
      unfold LkRes.release at hr'
      split_ifs at hr'
      · exact hr.unlock hr'
      · cases hr'
        exact hr
    | wake tranIndex | interrupt tranIndex | notice tranIndex =>
      cases hr'
      apply hr.mapWait tranIndex
      rintro ⟨_, _, _, _, wait⟩ hwait
      cases wait <;> first | rfl | exact hwait
    | giveUp tranIndex dealloc =>
      change r.giveUp dealloc tranIndex = some r' at hr'
      unfold LkRes.giveUp at hr'
      split_ifs at hr'
      · refine (hr.mapWait tranIndex ?_).unlock hr'
        intro e hwait
        cases hwait
      · cases hr'
        exact hr

theorem lockSystem_served {s : Option LkRes} (hs : lockSystem.Reachable s) :
    forall r, s = some r -> r.Served := by
  refine hs.invariant (fun s => forall r, s = some r -> r.Served) ?_ ?_
  · rintro s rfl r ⟨⟩
  · rintro s a t h ⟨hadmissible, rfl⟩
    exact lockNext_served h hadmissible

/--
While every blocked thread waits, the first waiter is incompatible with the total mode of the
holders, and the first blocked holder is incompatible with the granted mode of another holder.
-/
theorem lockSystem_no_lost_wakeup {r : LkRes} (hs : lockSystem.Reachable (some r))
    (hwait : forall e, e ∈ r.holder ++ r.waiter -> e.blockedMode ≠ .null ->
      e.isLockwaitThread = true) :
    (forall w rest, r.waiter = w :: rest ->
      lockComp w.blockedMode r.totalHoldersMode = .no) ∧
    forall before b after, r.holder = before ++ b :: after ->
      (forall i, i ∈ before -> i.blockedMode = .null) -> b.blockedMode ≠ .null ->
        exists i, i ∈ before ++ after ∧ lockComp b.blockedMode i.grantedMode = .no := by
  have h := lockSystem_served hs r rfl
  constructor
  · intro w rest hsplit
    have hmem : w ∈ r.waiter := hsplit ▸ mem_cons_self
    apply h.waiter w rest hsplit
    exact hwait w (mem_append_right _ hmem) (h.waiters w hmem).blocked.ne_null
  intro before b after hsplit hbefore hblocked
  cases before with
  | nil =>
    have hmem : b ∈ r.holder := hsplit ▸ mem_cons_self
    exact h.holders.upgrader b after hsplit hblocked (hwait b (mem_append_left _ hmem) hblocked)
  | cons i before =>
    have hfirst := h.holders.blockedFirst
    rw [hsplit] at hfirst
    have hb := (pairwise_cons.mp hfirst).1 b (by simp) (hbefore i mem_cons_self)
    exact absurd hb hblocked

/-- Of two readers one waits for an upgrade; of two writers behind them one gives up. -/
def queueRun : List LockStep :=
  [.request 1 .s (-1) true, .request 2 .s (-1) true, .request 1 .x (-1) true,
    .request 3 .x (-1) true, .request 4 .x 500 true, .wake 4, .giveUp 4 true]

theorem lockSystem_no_lost_wakeup_queueRun :
    exists r w b rest, queueRun.foldl lockNext none = some r ∧ r.waiter = [w] ∧
      lockComp w.blockedMode r.totalHoldersMode = .no ∧ r.holder = b :: rest ∧
        exists i, i ∈ rest ∧ lockComp b.blockedMode i.grantedMode = .no := by
  have hreach : lockSystem.Reachable (queueRun.foldl lockNext none) :=
    System.reachable_of_follows queueRun (by decide)
  have h := lockSystem_no_lost_wakeup hreach (by decide)
  refine ⟨_, _, _, _, rfl, rfl, h.1 _ _ rfl, rfl, ?_⟩
  exact h.2 [] _ _ rfl (by decide) (by decide)

end Rye.Transaction
