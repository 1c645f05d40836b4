import Mathlib.Logic.Basic

/-!
# Runs of labelled transition systems

The stateful components are all described in the same way: a set of initial
states and a step relation whose labels carry the arguments of a call together
with the choices of the environment.  This module fixes what a run is and
packages the induction along runs once.
-/

namespace Rye.Foundation

section

variable {State Label : Type}

/-- A transition system with labelled steps. -/
structure System (State Label : Type) where
  init : State -> Prop
  step : State -> Label -> State -> Prop

namespace System

/--
The system in which only the steps allowed by `guard` are taken.  The
guard sees the state before the step and the label of the step.
-/
def guarded (sys : System State Label) (guard : State -> Label -> Prop) :
    System State Label where
  init := sys.init
  step s a t := guard s a ∧ sys.step s a t

inductive Reachable (sys : System State Label) : State -> Prop where
  | start {s : State} : sys.init s -> Reachable sys s
  | next {s t : State} {a : Label} :
      Reachable sys s -> sys.step s a t -> Reachable sys t

/-!
## The invariant rule

A property that holds initially and is kept by every step holds in every
reachable state.  The guarded form hands the guard to the step obligation.
-/

variable {s : State} {next : State -> Label -> State} {sys : System State Label}
  (Inv : State -> Prop)

theorem Reachable.invariant (hinit : forall s, sys.init s -> Inv s)
    (hstep : forall s a t, Inv s -> sys.step s a t -> Inv t) (hs : sys.Reachable s) : Inv s := by
  induction hs with
  | start h => exact hinit _ h
  | next _ h ih => exact hstep _ _ _ ih h

variable {guard : State -> Label -> Prop} {start : State} {enabled : State -> Label -> Prop}

theorem Reachable.guarded_invariant (hinit : forall s, sys.init s -> Inv s)
    (hstep : forall s a t, Inv s -> guard s a -> sys.step s a t -> Inv t)
    (hs : (sys.guarded guard).Reachable s) : Inv s := by
  refine hs.invariant Inv ?_ ?_
  · exact hinit
  · rintro s a t hInv ⟨hguard, hsys⟩
    exact hstep s a t hInv hguard hsys

/-!
## Deterministic systems

When the label fixes the next state, a list of labels is a run.  Whether every
step of the list is allowed is decided by walking along it.
-/

/-- The system that moves by `next` from `start` wherever `enabled` allows it. -/
def deterministic (start : State) (enabled : State -> Label -> Prop)
    (next : State -> Label -> State) : System State Label where
  init s := s = start
  step s a t := enabled s a ∧ t = next s a

def Follows (allowed : State -> Label -> Prop) (next : State -> Label -> State) :
    State -> List Label -> Prop
  | _, [] => True
  | s, a :: labels => allowed s a ∧ Follows allowed next (next s a) labels

instance instDecidableFollows (allowed : State -> Label -> Prop)
    (next : State -> Label -> State) [forall s a, Decidable (allowed s a)] :
    forall s labels, Decidable (Follows allowed next s labels)
  | _, [] => .isTrue trivial
  | s, a :: labels =>
    have := instDecidableFollows allowed next (next s a) labels
    inferInstanceAs (Decidable (_ ∧ _))

theorem Follows.imp {allowed allowed' : State -> Label -> Prop}
    (h : forall s a, allowed s a -> allowed' s a) {labels : List Label}
    (hfollows : Follows allowed next s labels) : Follows allowed' next s labels := by
  induction labels generalizing s with
  | nil => exact trivial
  | cons a labels ih => exact ⟨h s a hfollows.1, ih hfollows.2⟩

variable (labels : List Label)

theorem Reachable.follow (hs : ((deterministic start enabled next).guarded guard).Reachable s)
    (h : Follows (fun s a => guard s a ∧ enabled s a) next s labels) :
    ((deterministic start enabled next).guarded guard).Reachable (labels.foldl next s) := by
  induction labels generalizing s with
  | nil => exact hs
  | cons a labels ih =>
    obtain ⟨⟨hguard, henabled⟩, hrest⟩ := h
    exact ih (.next hs ⟨hguard, henabled, rfl⟩) hrest

theorem reachable_guarded_of_follows
    (h : Follows (fun s a => guard s a ∧ enabled s a) next start labels) :
    ((deterministic start enabled next).guarded guard).Reachable
      (labels.foldl next start) :=
  .follow labels (.start rfl) h

theorem reachable_of_follows (h : Follows enabled next start labels) :
    (deterministic start enabled next).Reachable (labels.foldl next start) := by
  suffices hmain : forall s, (deterministic start enabled next).Reachable s ->
      Follows enabled next s labels ->
        (deterministic start enabled next).Reachable (labels.foldl next s) from
    hmain start (.start rfl) h
  intro s hs hfollows
  clear h
  induction labels generalizing s with
  | nil => exact hs
  | cons a labels ih => exact ih _ (.next hs ⟨hfollows.1, rfl⟩) hfollows.2

end System

end

end Rye.Foundation
