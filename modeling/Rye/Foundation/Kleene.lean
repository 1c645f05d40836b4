import Mathlib.Data.List.Basic

/-!
# Strong Kleene logic

Three truth values.  A connective has a definite value when the definite
arguments decide it, and is unknown otherwise.
-/

namespace Rye.Foundation

open List

inductive Kleene where
  | false
  | unknown
  | true
deriving DecidableEq, Repr

namespace Kleene

def ofBool : Bool -> Kleene
  | .true => .true
  | .false => .false

def not : Kleene -> Kleene
  | .true => .false
  | .unknown => .unknown
  | .false => .true

def and : Kleene -> Kleene -> Kleene
  | .false, _ => .false
  | _, .false => .false
  | .true, .true => .true
  | _, _ => .unknown

def or : Kleene -> Kleene -> Kleene
  | .true, _ => .true
  | _, .true => .true
  | .false, .false => .false
  | _, _ => .unknown

def xor : Kleene -> Kleene -> Kleene
  | .unknown, _ => .unknown
  | _, .unknown => .unknown
  | x, y => ofBool (x != y)

/-- The test whether two truth values are the same one, which is never unknown. -/
def same (x y : Kleene) : Kleene :=
  ofBool (x == y)

/-- The disjunction of a list; it is false for the empty list. -/
def disj (values : List Kleene) : Kleene :=
  values.foldr or .false

/-- The conjunction of a list; it is true for the empty list. -/
def conj (values : List Kleene) : Kleene :=
  values.foldr and .true

variable (x : Kleene) (values : List Kleene)

theorem disj_cons : disj (x :: values) = or x (disj values) :=
  rfl

theorem conj_cons : conj (x :: values) = and x (conj values) :=
  rfl

theorem or_true : x.or .true = .true := by
  cases x <;> rfl

theorem false_or : or .false x = x := by
  cases x <;> rfl

theorem true_and : and .true x = x := by
  cases x <;> rfl

theorem false_and : and .false x = .false := by
  cases x <;> rfl

theorem true_or : or .true x = .true := by
  cases x <;> rfl

theorem or_false : x.or .false = x := by
  cases x <;> rfl

theorem and_true : x.and .true = x := by
  cases x <;> rfl

theorem not_not : x.not.not = x := by
  cases x <;> rfl

variable (y : Kleene)

theorem not_and : (x.and y).not = x.not.or y.not := by
  cases x <;> cases y <;> rfl

theorem not_or : (x.or y).not = x.not.and y.not := by
  cases x <;> cases y <;> rfl

theorem and_comm : x.and y = y.and x := by
  cases x <;> cases y <;> rfl

variable (z : Kleene)

theorem and_assoc : (x.and y).and z = x.and (y.and z) := by
  cases x <;> cases y <;> cases z <;> rfl

theorem and_left_comm : x.and (y.and z) = y.and (x.and z) := by
  rw [← and_assoc, and_comm x y, and_assoc]

theorem or_assoc : (x.or y).or z = x.or (y.or z) := by
  cases x <;> cases y <;> cases z <;> rfl

theorem and_or_distrib : (x.and y).or (x.and z) = x.and (y.or z) := by
  cases x <;> cases y <;> cases z <;> rfl

theorem or_and_distrib_left : x.or (y.and z) = (x.or y).and (x.or z) := by
  cases x <;> cases y <;> cases z <;> rfl

theorem or_and_distrib_right : (x.and y).or z = (x.or z).and (y.or z) := by
  cases x <;> cases y <;> cases z <;> rfl

variable (others : List Kleene)

theorem disj_append : disj (values ++ others) = (disj values).or (disj others) := by
  induction values with
  | nil => exact (false_or _).symm
  | cons x rest ih => rw [cons_append, disj_cons, disj_cons, ih, or_assoc]

theorem conj_append : conj (values ++ others) = (conj values).and (conj others) := by
  induction values with
  | nil => exact (true_and _).symm
  | cons x rest ih => rw [cons_append, conj_cons, conj_cons, ih, and_assoc]

theorem or_unknown_or {x : Kleene} (hx : x ≠ .true) (y : Kleene) :
    x.or (or .unknown y) = or .unknown y := by
  cases x with
  | true => exact absurd rfl hx
  | _ => cases y <;> rfl

theorem disj_of_forall_unknown {values : List Kleene} (h : forall x, x ∈ values -> x = .unknown)
    (hne : values ≠ []) : disj values = .unknown := by
  induction values with
  | nil => exact absurd rfl hne
  | cons x rest ih =>
    have hx := h x mem_cons_self
    rw [disj_cons, hx]
    by_cases hrest : rest = []
    · rw [hrest]
      rfl
    · rw [ih (fun y hy => h y (mem_cons_of_mem _ hy)) hrest]
      rfl

end Kleene

end Rye.Foundation
