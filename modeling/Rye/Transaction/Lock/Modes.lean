import Mathlib.Order.Lattice

/-!
# Lock modes

The lock manager keeps five modes.  Two tables drive every decision it takes:
`lock_Comp` says whether a requested mode is compatible with a mode already
granted, `lock_Conv` says which mode covers two others.  Both are indexed by
the request first.

The mode `NA_LOCK` only fills the border of the tables.  Compatibility is
therefore a three-valued answer, and the callers differ in whether they test
it against `true` or against `false`.
-/

namespace Rye.Transaction

open List

/-- The modes of `LOCK`, in the order of the enumeration. -/
inductive Lock where
  | na
  | null
  | s
  | u
  | x
deriving DecidableEq, Repr

namespace Lock

def toNat : Lock -> Nat
  | na => 0
  | null => 1
  | s => 2
  | u => 3
  | x => 4

theorem toNat_injective : Function.Injective toNat := by
  intro a b h
  cases a <;> cases b <;> first | rfl | exact absurd h (by decide)

instance : LinearOrder Lock :=
  LinearOrder.lift' toNat toNat_injective

def Requestable (m : Lock) : Prop :=
  m = s ∨ m = u ∨ m = x

instance (m : Lock) : Decidable m.Requestable :=
  inferInstanceAs (Decidable (_ ∨ _ ∨ _))

end Lock

/-- The answer of the compatibility table; `na` is the filler `DB_NA`. -/
inductive Compat where
  | no
  | yes
  | na
deriving DecidableEq, Repr

/-- The table `lock_Comp`, requested mode first. -/
def lockComp : Lock -> Lock -> Compat
  | .na, _ => .na
  | _, .na => .na
  | .null, _ => .yes
  | _, .null => .yes
  | .s, .s => .yes
  | .s, .u => .yes
  | .s, .x => .no
  | .u, .s => .yes
  | .u, .u => .no
  | .u, .x => .no
  | .x, _ => .no

/-- The table `lock_Conv`, requested mode first. -/
def lockConv : Lock -> Lock -> Lock
  | .na, _ => .na
  | _, .na => .na
  | .null, m => m
  | m, .null => m
  | .s, m => m
  | .u, .s => .u
  | .u, m => m
  | .x, _ => .x

/-- The running conversion `mode = lock_Conv[m][mode]` over a list of modes. -/
def convModes (ms : List Lock) : Lock :=
  ms.foldl (fun mode m => lockConv m mode) .null

/-- The supremum of a list of modes in the order `NULL < S < U < X`. -/
def supMode (ms : List Lock) : Lock :=
  ms.foldr max .null

/-!
## The tables as an order

On the modes from `NULL_LOCK` upwards the conversion table is the maximum, and
compatibility with a maximum is compatibility with both modes.
-/

variable {b m : Lock} {ms : List Lock} {a : Lock}

theorem lockConv_eq_max (ha : .null <= a) (hb : .null <= b) : lockConv a b = max a b := by
  revert ha hb
  cases a <;> cases b <;> decide

theorem lockComp_symm (a b : Lock) : lockComp a b = lockComp b a := by
  cases a <;> cases b <;> rfl

theorem lockComp_max_iff (hm : .null <= m) (ha : .null <= a) (hb : .null <= b) :
    lockComp m (max a b) = .yes <-> lockComp m a = .yes ∧ lockComp m b = .yes := by
  revert hm ha hb
  cases m <;> cases a <;> cases b <;> decide

theorem lockComp_ne_no_iff (ha : .null <= a) (hb : .null <= b) :
    lockComp a b ≠ .no <-> lockComp a b = .yes := by
  revert ha hb
  cases a <;> cases b <;> decide

theorem Lock.Requestable.null_le (h : m.Requestable) : .null <= m := by
  rcases h with rfl | rfl | rfl <;> decide

theorem Lock.Requestable.ne_null (h : m.Requestable) : m ≠ .null := by
  rcases h with rfl | rfl | rfl <;> decide

theorem Lock.requestable_iff : m.Requestable <-> .null <= m ∧ m ≠ .null := by
  cases m <;> decide

theorem Lock.Requestable.max_right {n : Lock} (hm : .null <= m) (hn : n.Requestable) :
    (max m n).Requestable := by
  rcases hn with rfl | rfl | rfl <;> revert hm <;> cases m <;> decide

@[simp] theorem supMode_nil : supMode [] = .null :=
  rfl

@[simp] theorem supMode_cons (m : Lock) (ms : List Lock) :
    supMode (m :: ms) = max m (supMode ms) :=
  rfl

theorem null_le_supMode (ms : List Lock) : .null <= supMode ms := by
  induction ms with
  | nil => exact le_refl _
  | cons m ms ih => exact le_trans ih (le_max_right _ _)

theorem supMode_append (ms ns : List Lock) :
    supMode (ms ++ ns) = max (supMode ms) (supMode ns) := by
  induction ms with
  | nil => exact (max_eq_right (null_le_supMode ns)).symm
  | cons m ms ih => simp [ih, max_assoc]

theorem supMode_perm {ns : List Lock} (h : ms.Perm ns) : supMode ms = supMode ns := by
  induction h with
  | nil => rfl
  | cons m _ ih => simp [ih]
  | swap a b l => simp [max_left_comm]
  | trans _ _ ih1 ih2 => exact ih1.trans ih2

theorem convModes_eq_supMode (h : forall m, m ∈ ms -> Lock.null <= m) :
    convModes ms = supMode ms := by
  have hfold : forall acc, Lock.null <= acc ->
      ms.foldl (fun mode m => lockConv m mode) acc = max (supMode ms) acc := by
    induction ms with
    | nil =>
      intro acc hacc
      exact (max_eq_right hacc).symm
    | cons m ms ih =>
      intro acc hacc
      have hm : Lock.null <= m := h m (mem_cons_self ..)
      have hrest : forall n, n ∈ ms -> Lock.null <= n :=
        fun n hn => h n (mem_cons_of_mem _ hn)
      rw [foldl_cons, lockConv_eq_max hm hacc,
        ih hrest _ (le_trans hm (le_max_left _ _)), supMode_cons]
      rw [max_comm m (supMode ms), max_assoc]
  exact (hfold .null (le_refl _)).trans (max_eq_left (null_le_supMode ms))

theorem lockComp_supMode_iff (hm : .null <= m) (h : forall n, n ∈ ms -> Lock.null <= n) :
    lockComp m (supMode ms) = .yes <-> forall n, n ∈ ms -> lockComp m n = .yes := by
  induction ms with
  | nil =>
    revert hm
    cases m <;> simp <;> decide
  | cons n ms ih =>
    have hn : Lock.null <= n := h n (mem_cons_self ..)
    have hrest : forall k, k ∈ ms -> Lock.null <= k :=
      fun k hk => h k (mem_cons_of_mem _ hk)
    rw [supMode_cons, lockComp_max_iff hm hn (null_le_supMode ms), ih hrest]
    simp

end Rye.Transaction
