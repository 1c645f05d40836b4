import Mathlib.Data.List.TakeWhile
import Rye.Transaction.Lock.Manager

/-!
# What the list operations and the grant loops do

The facts collected here are the interface of the list walks: each is a
permutation or a split of the list it walks, and each grant loop keeps every
property of the holders that a single grant keeps.
-/

namespace Rye.Transaction

open List LkEntry

variable (p : LkEntry -> Bool) (e : LkEntry)

theorem insertBefore_eq (es : List LkEntry) :
    insertBefore p e es = es.takeWhile (fun i => !p i) ++ e :: es.dropWhile (fun i => !p i) := by
  induction es with
  | nil => rfl
  | cons i rest ih => cases hp : p i <;> simp [insertBefore, hp, ih]

theorem insertBefore_perm (es : List LkEntry) : (insertBefore p e es).Perm (e :: es) := by
  rw [insertBefore_eq]
  refine perm_middle.trans ?_
  rw [takeWhile_append_dropWhile]

theorem lockPositionHolderEntry_perm (holder : List LkEntry) :
    (lockPositionHolderEntry e holder).Perm (e :: holder) := by
  unfold lockPositionHolderEntry
  split_ifs <;> exact insertBefore_perm _ _ _

variable {e : LkEntry} {holder before : List LkEntry} {total : Lock} {rest : List LkEntry}
    {r : LkRes}

theorem findTran_split {tranIndex : Nat} {es : List LkEntry} (h : findTran tranIndex es = some e) :
    exists before after,
      es = before ++ e :: after ∧ e.tranIndex = tranIndex ∧
        eraseTran tranIndex es = before ++ after ∧
          forall f, updateTran tranIndex f es = before ++ f e :: after := by
  induction es with
  | nil => simp [findTran] at h
  | cons i rest ih =>
    by_cases hi : i.tranIndex = tranIndex
    · have he : i = e := by simpa [findTran, hi] using h
      subst he
      exact ⟨[], rest, rfl, hi, by simp [eraseTran, hi], by simp [updateTran, hi]⟩
    have hrest : findTran tranIndex rest = some e := by
      simpa [findTran, hi] using h
    obtain ⟨before, after, hes, htran, herase, hupdate⟩ := ih hrest
    refine ⟨i :: before, after, by simp [hes], htran, ?_, ?_⟩
    · simpa [eraseTran, hi] using herase
    · intro f
      simp [updateTran, hi, hupdate f]

theorem findTran_eq_none {tranIndex : Nat} {es : List LkEntry} :
    findTran tranIndex es = none <-> forall e, e ∈ es -> e.tranIndex ≠ tranIndex := by
  simp [findTran]

variable {after : List LkEntry}

theorem mem_around {i : LkEntry} (h : i ∈ before ++ after) : i ∈ before ++ e :: after :=
  perm_middle.mem_iff.mpr (mem_cons_of_mem _ h)

/-!
## Blocked holders first
-/

/-- No unblocked entry stands in front of a blocked one. -/
def BlockedFirst (holder : List LkEntry) : Prop :=
  holder.Pairwise fun i j => i.blockedMode = .null -> j.blockedMode = .null

theorem blockedFirst_append {bs us : List LkEntry}
    (hbs : BlockedFirst bs) (hus : forall u, u ∈ us -> u.blockedMode = .null) :
    BlockedFirst (bs ++ us) := by
  refine pairwise_append.mpr ⟨hbs, ?_, fun _ _ u hu _ => hus u hu⟩
  exact pairwise_of_forall_mem_list fun _ _ u hu _ => hus u hu

theorem blockedFirst_of_forall_blocked {bs : List LkEntry}
    (h : forall b, b ∈ bs -> b.blockedMode ≠ .null) : BlockedFirst bs :=
  pairwise_of_forall_mem_list fun b hb _ _ hnull => absurd hnull (h b hb)

theorem mem_takeWhile_blocked (h : e ∈ holder.takeWhile fun i => !isUnblocked i) :
    e.blockedMode ≠ .null := by
  simpa [isUnblocked] using mem_takeWhile_imp h

theorem BlockedFirst.mem_dropWhile (hfirst : BlockedFirst holder)
    (h : e ∈ holder.dropWhile fun i => !isUnblocked i) : e.blockedMode = .null := by
  induction holder with
  | nil => simp at h
  | cons i rest ih =>
    obtain ⟨hi, hrest⟩ := pairwise_cons.mp hfirst
    by_cases hb : i.blockedMode = .null
    · have hmem : e ∈ i :: rest := by simpa [isUnblocked, hb] using h
      rcases mem_cons.mp hmem with rfl | hmem
      · exact hb
      · exact hi e hmem hb
    · exact ih hrest (by simpa [isUnblocked, hb] using h)

theorem BlockedFirst.insert (hfirst : BlockedFirst (before ++ after))
    (hbefore : forall i, i ∈ before -> i.blockedMode = .null -> e.blockedMode = .null)
    (hafter : e.blockedMode = .null -> forall i, i ∈ after -> i.blockedMode = .null) :
    BlockedFirst (before ++ e :: after) := by
  obtain ⟨hb, ha, hba⟩ := pairwise_append.mp hfirst
  refine pairwise_append.mpr ⟨hb, ?_, ?_⟩
  · exact pairwise_cons.mpr ⟨fun i hi he => hafter he i hi, ha⟩
  intro i hi j hj
  rcases mem_cons.mp hj with rfl | hj
  · exact hbefore i hi
  · exact hba i hi j hj

section

variable (hfirst : BlockedFirst holder)
include hfirst

theorem BlockedFirst.insertBefore_blocked {p : LkEntry -> Bool} (he : e.blockedMode ≠ .null)
    (hany : holder.any p = true) (hp : forall i, p i = true -> i.blockedMode ≠ .null) :
    BlockedFirst (insertBefore p e holder) := by
  rw [insertBefore_eq]
  have hsplit : BlockedFirst (holder.takeWhile (fun i => !p i) ++
      holder.dropWhile (fun i => !p i)) := by
    rwa [takeWhile_append_dropWhile]
  refine hsplit.insert ?_ (fun h => absurd h he)
  intro i hi hnull
  -- the entry at the insertion point is blocked, so `i` in front of it is too
  obtain ⟨j, hj, hpj⟩ := any_eq_true.mp hany
  have hjdrop : j ∈ holder.dropWhile (fun i => !p i) := by
    have hj' : j ∈ holder.takeWhile (fun i => !p i) ++ holder.dropWhile (fun i => !p i) := by
      rwa [takeWhile_append_dropWhile]
    refine (mem_append.mp hj').resolve_left fun h => ?_
    have := mem_takeWhile_imp h
    simp [hpj] at this
  exact absurd ((pairwise_append.mp hsplit).2.2 i hi j hjdrop hnull) (hp j hpj)

theorem BlockedFirst.insertBefore_unblocked : BlockedFirst (insertBefore isUnblocked e holder) := by
  rw [insertBefore_eq]
  refine BlockedFirst.insert (by rwa [takeWhile_append_dropWhile]) ?_ ?_
  · intro i hi hnull
    exact absurd hnull (mem_takeWhile_blocked hi)
  · intro _ i hi
    exact hfirst.mem_dropWhile hi

theorem BlockedFirst.position : BlockedFirst (lockPositionHolderEntry e holder) := by
  unfold lockPositionHolderEntry
  split_ifs with hnull hta htb
  · exact hfirst.insertBefore_unblocked
  · exact hfirst.insertBefore_blocked hnull hta (fun i hi => by simp_all [isTa])
  · exact hfirst.insertBefore_blocked hnull htb (fun i hi => by simp_all [isTb])
  · exact hfirst.insertBefore_unblocked

end

/-!
## Well-formed entries and holders
-/

/-- A holder has a real granted mode, and blocks only for a stronger one. -/
structure HolderOk (e : LkEntry) : Prop where
  granted : e.grantedMode.Requestable
  blocked : .null <= e.blockedMode
  upgrade : e.blockedMode ≠ .null -> e.grantedMode <= e.blockedMode

structure WaiterOk (e : LkEntry) : Prop where
  granted : e.grantedMode = .null
  blocked : e.blockedMode.Requestable

structure HoldersOk (total : Lock) (holder : List LkEntry) : Prop where
  total_eq : total = supMode (holder.flatMap modes)
  blockedFirst : BlockedFirst holder
  entries : forall e, e ∈ holder -> HolderOk e

theorem HolderOk.null_le (h : HolderOk e) : forall m, m ∈ e.modes -> Lock.null <= m := by
  intro m hm
  have hcases : m = e.grantedMode ∨ m = e.blockedMode := by
    simpa [modes] using hm
  rcases hcases with rfl | rfl
  · exact h.granted.null_le
  · exact h.blocked

theorem HolderOk.of_unblocked (hgranted : e.grantedMode.Requestable)
    (hblocked : e.blockedMode = .null) :
    HolderOk e where
  granted := hgranted
  blocked := hblocked ▸ le_refl _
  upgrade h := absurd hblocked h

theorem HolderOk.grant (h : HolderOk e) (hblocked : e.blockedMode ≠ .null) : HolderOk e.grant :=
  .of_unblocked (Lock.requestable_iff.mpr ⟨h.blocked, hblocked⟩) rfl

theorem WaiterOk.grant (h : WaiterOk e) : HolderOk e.grant :=
  .of_unblocked h.blocked rfl

theorem supMode_modes_grant (h : HolderOk e) (hblocked : e.blockedMode ≠ .null) :
    supMode e.grant.modes = supMode e.modes := by
  simp [modes, grant, max_eq_left h.blocked, max_eq_right (h.upgrade hblocked)]

theorem supMode_flatMap_perm {holder' : List LkEntry} (h : holder.Perm holder') :
    supMode (holder.flatMap modes) = supMode (holder'.flatMap modes) :=
  supMode_perm (h.flatMap_right _)

theorem HoldersOk.null_le_total (h : HoldersOk total holder) : .null <= total :=
  h.total_eq ▸ null_le_supMode _

theorem holdersMode_eq (h : forall e, e ∈ holder -> HolderOk e) :
    holdersMode holder = supMode (holder.flatMap modes) := by
  refine convModes_eq_supMode fun m hm => ?_
  obtain ⟨e, he, hme⟩ := mem_flatMap.mp hm
  exact (h e he).null_le m hme

theorem convModes_granted_eq (h : forall e, e ∈ holder -> HolderOk e) :
    convModes (holder.map grantedMode) = supMode (holder.map grantedMode) := by
  refine convModes_eq_supMode fun m hm => ?_
  obtain ⟨e, he, rfl⟩ := mem_map.mp hm
  exact (h e he).granted.null_le

theorem convModes_blocked_eq {waiter : List LkEntry} (h : forall e, e ∈ waiter -> WaiterOk e) :
    convModes (waiter.map blockedMode) = supMode (waiter.map blockedMode) := by
  refine convModes_eq_supMode fun m hm => ?_
  obtain ⟨e, he, rfl⟩ := mem_map.mp hm
  exact (h e he).blocked.null_le

theorem HoldersOk.position (h : HoldersOk total holder) (he : HolderOk e) :
    HoldersOk (max (supMode e.modes) total) (lockPositionHolderEntry e holder) where
  total_eq := by
    rw [supMode_flatMap_perm (lockPositionHolderEntry_perm e holder),
      flatMap_cons, supMode_append, h.total_eq]
  blockedFirst := h.blockedFirst.position
  entries i hi := by
    rcases mem_cons.mp ((lockPositionHolderEntry_perm e holder).mem_iff.mp hi) with rfl | hi
    · exact he
    · exact h.entries i hi

/-!
## Granting to blocked holders
-/

variable (skipped : List LkEntry)

theorem grantBlockedHolderLoop_tran (blocked rest : List LkEntry) :
    ((grantBlockedHolderLoop skipped blocked rest).map tranIndex).Perm
      ((skipped ++ blocked ++ rest).map tranIndex) := by
  induction blocked generalizing skipped rest with
  | nil => simp [grantBlockedHolderLoop]
  | cons check blocked ih =>
    unfold grantBlockedHolderLoop
    dsimp only
    split_ifs
    · simp
    · refine (ih skipped (check.grant :: rest)).trans ?_
      simp only [append_assoc, cons_append, map_append, map_cons]
      exact List.Perm.append_left _ perm_middle
    · simpa using ih (skipped ++ [check]) rest

theorem grantBlockedHolderLoop_total {skipped blocked : List LkEntry}
    (hok : forall e, e ∈ blocked -> HolderOk e)
    (hblocked : forall e, e ∈ blocked -> e.blockedMode ≠ .null) :
    supMode ((grantBlockedHolderLoop skipped blocked rest).flatMap modes) =
      supMode ((skipped ++ blocked ++ rest).flatMap modes) := by
  induction blocked generalizing skipped rest with
  | nil => simp [grantBlockedHolderLoop]
  | cons check blocked ih =>
    obtain ⟨hcheckOk, hok⟩ := forall_mem_cons.mp hok
    obtain ⟨hcheck, hblocked⟩ := forall_mem_cons.mp hblocked
    unfold grantBlockedHolderLoop
    dsimp only
    split_ifs
    · rfl
    · rw [ih hok hblocked]
      simp only [flatMap_append, flatMap_cons, supMode_append, supMode_modes_grant hcheckOk hcheck]
      simp only [max_assoc, max_left_comm]
    · rw [ih hok hblocked, append_assoc skipped, singleton_append]

/-- A granted entry moves behind the blocked run. -/
theorem grantBlockedHolderLoop_blockedFirst {skipped blocked : List LkEntry}
    (hskipped : forall e, e ∈ skipped -> e.blockedMode ≠ .null)
    (hblocked : forall e, e ∈ blocked -> e.blockedMode ≠ .null)
    (hrest : forall e, e ∈ rest -> e.blockedMode = .null) :
    BlockedFirst (grantBlockedHolderLoop skipped blocked rest) := by
  induction blocked generalizing skipped rest with
  | nil => exact blockedFirst_append (blockedFirst_of_forall_blocked hskipped) hrest
  | cons check blocked ih =>
    obtain ⟨hcheck, hblocked'⟩ := forall_mem_cons.mp hblocked
    unfold grantBlockedHolderLoop
    dsimp only
    split_ifs
    · refine blockedFirst_append (blockedFirst_of_forall_blocked ?_) hrest
      exact forall_mem_append.mpr ⟨hskipped, hblocked⟩
    · exact ih hskipped hblocked' (forall_mem_cons.mpr ⟨rfl, hrest⟩)
    · refine ih (forall_mem_append.mpr ⟨hskipped, ?_⟩) hblocked' hrest
      exact forall_mem_singleton.mpr hcheck

theorem grantBlockedHolderLoop_mem {skipped blocked : List LkEntry}
    (he : e ∈ grantBlockedHolderLoop skipped blocked rest) :
    e ∈ skipped ++ blocked ++ rest ∨ exists c, c ∈ blocked ∧ e = c.grant := by
  induction blocked generalizing skipped rest with
  | nil => simpa [grantBlockedHolderLoop] using he
  | cons check blocked ih =>
    unfold grantBlockedHolderLoop at he
    dsimp only at he
    split_ifs at he
    · exact .inl he
    · rcases ih he with h | ⟨c, hc, rfl⟩
      · rcases mem_cons.mp (perm_middle.mem_iff.mp h) with rfl | h
        · exact .inr ⟨check, mem_cons_self, rfl⟩
        · rw [append_assoc] at h ⊢
          exact .inl (mem_around h)
      · exact .inr ⟨c, mem_cons_of_mem _ hc, rfl⟩
    · rcases ih he with h | ⟨c, hc, rfl⟩
      · rw [append_assoc skipped, singleton_append] at h
        exact .inl h
      · exact .inr ⟨c, mem_cons_of_mem _ hc, rfl⟩

theorem lockGrantBlockedHolder_mem (he : e ∈ (lockGrantBlockedHolder r).holder) :
    e ∈ r.holder ∨ exists c, c ∈ r.holder ∧ c.blockedMode ≠ .null ∧ e = c.grant := by
  rcases grantBlockedHolderLoop_mem he with h | ⟨c, hc, rfl⟩
  · rw [nil_append, takeWhile_append_dropWhile] at h
    exact .inl h
  · exact .inr ⟨c, (takeWhile_sublist _).subset hc, mem_takeWhile_blocked hc, rfl⟩

theorem BlockedFirst.grantBlockedHolder (hfirst : BlockedFirst r.holder) :
    BlockedFirst (lockGrantBlockedHolder r).holder :=
  grantBlockedHolderLoop_blockedFirst (by simp) (fun _ => mem_takeWhile_blocked)
    (fun _ => hfirst.mem_dropWhile)

theorem lockGrantBlockedHolder_ok (h : HoldersOk r.totalHoldersMode r.holder) :
    HoldersOk (lockGrantBlockedHolder r).totalHoldersMode (lockGrantBlockedHolder r).holder := by
  refine ⟨h.total_eq.trans ?_, h.blockedFirst.grantBlockedHolder, fun e he => ?_⟩
  · refine ((grantBlockedHolderLoop_total (fun e he => h.entries e ?_)
      fun _ => mem_takeWhile_blocked).trans ?_).symm
    · exact (takeWhile_sublist _).subset he
    · rw [nil_append, takeWhile_append_dropWhile]
  · rcases lockGrantBlockedHolder_mem he with he | ⟨c, hc, hblocked, rfl⟩
    · exact h.entries e he
    · exact (h.entries c hc).grant hblocked

theorem lockGrantBlockedHolder_tran (r : LkRes) :
    ((lockGrantBlockedHolder r).holder.map tranIndex).Perm (r.holder.map tranIndex) := by
  refine (grantBlockedHolderLoop_tran _ _ _).trans ?_
  rw [nil_append, takeWhile_append_dropWhile]

/-!
## Granting to waiters

Both waiter loops walk over the waiters and reach the holders only through
`LkRes.accept`.  A property of the holders and their total that one admission
keeps is therefore kept by the whole walk.
-/

/-- One admission of a compatible waiter keeps `Q`. -/
def AdmissionKeeps (Q : Lock -> List LkEntry -> Prop) : Prop :=
  forall (r : LkRes) (check : LkEntry), Q r.totalHoldersMode r.holder -> WaiterOk check ->
    lockComp check.blockedMode r.totalHoldersMode ≠ .no ->
      Q (r.accept check).totalHoldersMode (r.accept check).holder

theorem admissionKeeps_holdersOk : AdmissionKeeps HoldersOk := by
  intro r check h hcheck _
  have hpos := h.position hcheck.grant
  have htotal : max (supMode check.grant.modes) r.totalHoldersMode =
      (r.accept check).totalHoldersMode := by
    have hnull : max check.blockedMode Lock.null = check.blockedMode :=
      max_eq_left hcheck.blocked.null_le
    simp [LkRes.accept, LkRes.addHolder, modes, grant, hnull,
      lockConv_eq_max hcheck.blocked.null_le h.null_le_total]
  rw [htotal] at hpos
  exact hpos

theorem accept_tran (r : LkRes) (check : LkEntry) :
    ((r.accept check).holder.map tranIndex).Perm
      (check.tranIndex :: r.holder.map tranIndex) :=
  (lockPositionHolderEntry_perm check.grant r.holder).map _

/-- The walk from `rest` on behind the waiters in `before`: each one is admitted or passed. -/
inductive Walked : LkRes -> List LkEntry -> List LkEntry -> LkRes -> Prop where
  | stop {r out : LkRes} {before rest : List LkEntry} (holder : out.holder = r.holder)
    (total : out.totalHoldersMode = r.totalHoldersMode) (waiter : out.waiter = before ++ rest) :
    Walked r before rest out
  | accept {r out : LkRes} {before rest : List LkEntry} {check : LkEntry}
    (comp : lockComp check.blockedMode r.totalHoldersMode ≠ .no)
    (h : Walked (r.accept check) before rest out) : Walked r before (check :: rest) out
  | pass {r out : LkRes} {before rest : List LkEntry} {check : LkEntry}
    (h : Walked r (before ++ [check]) rest out) : Walked r before (check :: rest) out

theorem grantBlockedWaiterLoop_walked (changed : Bool) (r : LkRes) (rest : List LkEntry) :
    Walked r skipped rest (grantBlockedWaiterLoop skipped changed r rest).1 := by
  induction rest generalizing skipped changed r with
  | nil => exact .stop rfl rfl (append_nil _).symm
  | cons check rest ih =>
    unfold grantBlockedWaiterLoop
    split_ifs with hcomp hwait
    · exact .stop rfl rfl rfl
    · exact .accept hcomp (ih _ _ _)
    · exact .pass (ih _ _ _)

theorem grantBlockedWaiterPartialLoop_walked (before : List LkEntry) (mode : Lock) (r : LkRes)
    (rest : List LkEntry) :
    Walked r before rest (grantBlockedWaiterPartialLoop before mode r rest) := by
  induction rest generalizing before mode r with
  | nil => exact .stop rfl rfl (append_nil _).symm
  | cons check rest ih =>
    unfold grantBlockedWaiterPartialLoop
    split_ifs with hmode hcomp hwait
    · exact .stop rfl rfl rfl
    · exact .pass (ih _ _ _)
    · exact .accept hcomp (ih _ _ _)
    · exact .pass (ih _ _ _)

theorem Walked.setWaitersMode {out : LkRes} (h : Walked r before rest out) (mode : Lock) :
    Walked r before rest { out with totalWaitersMode := mode } := by
  induction h with
  | stop holder total waiter => exact .stop holder total waiter
  | accept comp _ ih => exact .accept comp ih
  | pass _ ih => exact .pass ih

theorem lockGrantBlockedWaiter_walked (r : LkRes) :
    Walked r [] r.waiter (lockGrantBlockedWaiter r) := by
  have h := grantBlockedWaiterLoop_walked [] false r r.waiter
  unfold lockGrantBlockedWaiter
  dsimp only
  split_ifs
  · exact h.setWaitersMode _
  · exact h

theorem perm_cons_append_append (a : Nat) (xs ys zs : List Nat) :
    ((a :: xs) ++ (ys ++ zs)).Perm (xs ++ (ys ++ a :: zs)) := by
  have h : (xs ++ ys ++ a :: zs).Perm (a :: (xs ++ ys ++ zs)) := perm_middle
  simpa using h.symm

variable {Q : Lock -> List LkEntry -> Prop} {mode : Lock} {out : LkRes}

section

variable (h : Walked r before rest out)
include h

theorem Walked.keeps (haccept : AdmissionKeeps Q) (hQ : Q r.totalHoldersMode r.holder)
    (hrest : forall e, e ∈ rest -> WaiterOk e) : Q out.totalHoldersMode out.holder := by
  induction h with
  | stop holder total _ =>
    rw [holder, total]
    exact hQ
  | accept comp _ ih =>
    obtain ⟨hcheck, hrest⟩ := forall_mem_cons.mp hrest
    exact ih (haccept _ _ hQ hcheck comp) hrest
  | pass _ ih => exact ih hQ (forall_mem_cons.mp hrest).2

theorem Walked.tran :
    ((out.holder ++ out.waiter).map tranIndex).Perm
      ((r.holder ++ (before ++ rest)).map tranIndex) := by
  induction h with
  | stop holder _ waiter => rw [holder, waiter]
  | accept _ _ ih =>
    refine ih.trans ?_
    simp only [map_append, map_cons]
    exact ((accept_tran _ _).append_right _).trans (perm_cons_append_append ..)
  | pass _ ih => simpa using ih

theorem Walked.mem_waiter (he : e ∈ out.waiter) : e ∈ before ++ rest := by
  induction h with
  | stop _ _ waiter => exact waiter ▸ he
  | accept _ _ ih =>
    have := ih he
    simp only [mem_append, mem_cons] at this ⊢
    exact this.imp_right .inr
  | pass _ ih => simpa using ih he

end

theorem grantBlockedWaiterLoop_unchanged (changed : Bool) (r : LkRes) (rest : List LkEntry) :
    let out := grantBlockedWaiterLoop skipped changed r rest
    out.1.totalWaitersMode = r.totalWaitersMode ∧
      (out.2 = false -> changed = false ∧ out.1.waiter = skipped ++ rest) := by
  induction rest generalizing skipped changed r with
  | nil => simp [grantBlockedWaiterLoop]
  | cons check rest ih =>
    unfold grantBlockedWaiterLoop
    split_ifs
    · simp
    · obtain ⟨htotal, hchanged⟩ := ih skipped true (r.accept check)
      exact ⟨htotal, fun h => by simpa using (hchanged h).1⟩
    · have h := ih (skipped ++ [check]) changed r
      rwa [append_assoc, singleton_append] at h

structure WaitersOk (total : Lock) (waiter : List LkEntry) : Prop where
  total_eq : total = supMode (waiter.map blockedMode)
  entries : forall e, e ∈ waiter -> WaiterOk e

variable {waiter : List LkEntry}

theorem WaitersOk.null_le_total (h : WaitersOk total waiter) : .null <= total :=
  h.total_eq ▸ null_le_supMode _

theorem WaitersOk.append (h : WaitersOk total waiter) (he : WaiterOk e) :
    WaitersOk (lockConv e.blockedMode total) (waiter ++ [e]) := by
  refine ⟨?_, forall_mem_append.mpr ⟨h.entries, forall_mem_singleton.mpr he⟩⟩
  rw [lockConv_eq_max he.blocked.null_le h.null_le_total, map_append, supMode_append,
    h.total_eq, max_comm]
  simp [max_eq_left he.blocked.null_le]

theorem lockGrantBlockedWaiter_waitersOk (h : WaitersOk r.totalWaitersMode r.waiter) :
    WaitersOk (lockGrantBlockedWaiter r).totalWaitersMode (lockGrantBlockedWaiter r).waiter := by
  obtain ⟨htotal, hchanged⟩ := grantBlockedWaiterLoop_unchanged [] false r r.waiter
  have hentries : forall e,
      e ∈ (grantBlockedWaiterLoop [] false r r.waiter).1.waiter -> WaiterOk e :=
    fun e he => h.entries e ((grantBlockedWaiterLoop_walked [] false r r.waiter).mem_waiter he)
  unfold lockGrantBlockedWaiter
  dsimp only
  split_ifs with hc
  · exact ⟨convModes_blocked_eq hentries, hentries⟩
  have hsame := (hchanged (by simpa using hc)).2
  refine ⟨?_, hentries⟩
  rw [htotal, hsame, nil_append]
  exact h.total_eq

theorem grantBlockedWaiterPartialLoop_waitersOk (hbefore : WaitersOk mode before)
    (hrest : forall e, e ∈ rest -> WaiterOk e) :
    WaitersOk (grantBlockedWaiterPartialLoop before mode r rest).totalWaitersMode
      (grantBlockedWaiterPartialLoop before mode r rest).waiter := by
  induction rest generalizing before mode r with
  | nil => exact hbefore
  | cons check rest ih =>
    obtain ⟨hcheck, hrest'⟩ := forall_mem_cons.mp hrest
    have hpass := hbefore.append hcheck
    unfold grantBlockedWaiterPartialLoop
    split_ifs
    · have hall := forall_mem_append.mpr ⟨hbefore.entries, hrest⟩
      exact ⟨convModes_blocked_eq hall, hall⟩
    · exact ih hpass hrest'
    · exact ih hbefore hrest'
    · exact ih hpass hrest'

theorem admissionKeeps_forall {P : LkEntry -> Prop} (hP : forall e, e.blockedMode = .null -> P e) :
    AdmissionKeeps fun _ holder => forall e, e ∈ holder -> P e := by
  intro r check h _ _ e he
  rcases mem_cons.mp ((lockPositionHolderEntry_perm check.grant r.holder).mem_iff.mp he)
    with rfl | he
  · exact hP _ rfl
  · exact h e he

end Rye.Transaction
