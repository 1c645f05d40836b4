import Mathlib.Logic.Basic

/-!
# Programs with a state and exceptions

A program reads and writes a state and may end with an exception, which leaves the state as it is
at that point.  A triple says what holds at the end of a run, normal or not, when the
precondition holds at its beginning.
-/

namespace Rye.Foundation

def Program (State Error A : Type) := State -> Except Error A × State

namespace Program

variable {State Error A B C : Type}

def handle (run : Except Error A × State) (ok : A -> State -> C) (error : Error -> State -> C) :
    C :=
  match run with
  | (.ok a, t) => ok a t
  | (.error e, t) => error e t

instance : Monad (Program State Error) where
  pure a := fun s => (.ok a, s)
  bind m k := fun s => handle (m s) k fun e t => (.error e, t)

instance : MonadStateOf State (Program State Error) where
  get := fun s => (.ok s, s)
  set s := fun _ => (.ok (), s)
  modifyGet f := fun s => (.ok (f s).1, (f s).2)

instance : MonadExceptOf Error (Program State Error) where
  throw e := fun s => (.error e, s)
  tryCatch m handler := fun s => handle (m s) (fun a t => (.ok a, t)) handler

/-- Runs `last` after `m` in any case; an exception of `last` replaces the result of `m`. -/
def ensure (m : Program State Error A) (last : Program State Error Unit) :
    Program State Error A :=
  fun s => handle (last (m s).2) (fun _ t => ((m s).1, t)) fun e t => (.error e, t)

/-- Runs `m` when the condition holds. -/
def onlyIf (c : Bool) (m : Program State Error Unit) : Program State Error Unit :=
  if c then m else Pure.pure ()

/-- The result of `m` as a value. -/
def attempt (m : Program State Error A) : Program State Error (Except Error A) :=
  fun s => (.ok (m s).1, (m s).2)

/-- From `P`, a normal end satisfies `Q` and an exception leaves `E`. -/
def Triple (P : State -> Prop) (m : Program State Error A) (Q : A -> State -> Prop)
    (E : State -> Prop) : Prop :=
  forall s, P s -> handle (m s) Q fun _ => E

/-- The program keeps `P`, whether it ends normally or not. -/
def Keeps (P : State -> Prop) (m : Program State Error A) : Prop :=
  Triple P m (fun _ => P) P

variable {m : Program State Error A}

theorem bind_ok {s t : State} {a : A} (h : m s = (.ok a, t)) (k : A -> Program State Error B) :
    (m >>= k) s = k a t := by
  change handle (m s) k _ = _
  rw [h]
  rfl

theorem bind_error {s t : State} {e : Error} (h : m s = (.error e, t))
    (k : A -> Program State Error B) : (m >>= k) s = (.error e, t) := by
  change handle (m s) k _ = _
  rw [h]
  rfl

theorem get_run (k : State -> Program State Error A) (s : State) : (get >>= k) s = k s s :=
  rfl

/-!
## Rules
-/

variable {P E : State -> Prop} {Q : A -> State -> Prop} {m : Program State Error A}

theorem Triple.weaken {P' E' : State -> Prop} {Q' : A -> State -> Prop} (h : Triple P m Q E)
    (hpre : forall s, P' s -> P s) (hpost : forall a t, Q a t -> Q' a t)
    (herror : forall t, E t -> E' t) : Triple P' m Q' E' := by
  intro s hs
  have hrun := h s (hpre s hs)
  generalize m s = run at hrun
  rcases run with ⟨e | a, t⟩
  · exact herror t hrun
  · exact hpost a t hrun

theorem Triple.pure {a : A} (h : forall s, P s -> Q a s) :
    Triple P (Pure.pure a : Program State Error A) Q E :=
  h

theorem Triple.bind {R : A -> State -> Prop} {k : A -> Program State Error B}
    {Q : B -> State -> Prop} (hm : Triple P m R E) (hk : forall a, Triple (R a) (k a) Q E) :
    Triple P (m >>= k) Q E := by
  intro s hs
  have hrun := hm s hs
  change handle (handle (m s) k fun e t => (.error e, t)) Q fun _ => E
  generalize m s = run at hrun
  rcases run with ⟨e | a, t⟩
  · exact hrun
  · exact hk a t hrun

variable {handler : Error -> Program State Error A}

theorem Triple.tryCatch {R : State -> Prop} (hm : Triple P m Q R)
    (hhandler : forall e, Triple R (handler e) Q E) : Triple P (tryCatch m handler) Q E := by
  intro s hs
  have hrun := hm s hs
  change handle (handle (m s) (fun a t => (.ok a, t)) handler) Q fun _ => E
  generalize m s = run at hrun
  rcases run with ⟨e | a, t⟩
  · exact hhandler e t hrun
  · exact hrun

variable {k : State -> Program State Error A}

theorem Triple.get (h : forall w, P w -> Triple (fun s => s = w) (k w) Q E) :
    Triple P (get >>= k) Q E :=
  fun s hs => h s hs s rfl

namespace Keeps

/-- What a program that keeps `P` leaves. -/
theorem state (h : Keeps P m) {s : State} (hs : P s) : P (m s).2 := by
  have hrun := h s hs
  generalize m s = run at hrun
  rcases run with ⟨e | a, t⟩
  · exact hrun
  · exact hrun

theorem ensure {last : Program State Error Unit} (hm : Keeps P m) (hlast : Keeps P last) :
    Keeps P (m.ensure last) := by
  intro s hs
  have hrun := hlast _ (hm.state hs)
  change handle (handle (last (m s).2) (fun _ t => ((m s).1, t)) fun e t => (.error e, t)) _ _
  generalize last (m s).2 = run at hrun
  rcases run with ⟨e | a, t⟩
  · exact hrun
  generalize (m s).1 = res
  rcases res with e | a
  · exact hrun
  · exact hrun

theorem attempt (hm : Keeps P m) : Keeps P m.attempt :=
  fun _ hs => hm.state hs

theorem of_state (h : forall s, P s -> P (m s).2) : Keeps P m := by
  intro s hs
  have hrun := h s hs
  generalize m s = run at hrun
  rcases run with ⟨e | a, t⟩
  · exact hrun
  · exact hrun

theorem bind {k : A -> Program State Error B} (hm : Keeps P m)
    (hk : forall a, Keeps P (k a)) : Keeps P (m >>= k) :=
  Triple.bind hm hk

theorem tryCatch (hm : Keeps P m) (hhandler : forall e, Keeps P (handler e)) :
    Keeps P (tryCatch m handler) :=
  Triple.tryCatch hm hhandler

theorem ite {c : Prop} [Decidable c] {m n : Program State Error A} (hm : Keeps P m)
    (hn : Keeps P n) : Keeps P (if c then m else n) := by
  split
  · exact hm
  · exact hn

theorem onlyIf (c : Bool) {m : Program State Error Unit} (hm : Keeps P m) :
    Keeps P (Program.onlyIf c m) := by
  cases c with
  | false => exact fun _ hs => hs
  | true => exact hm

theorem pure (a : A) : Keeps P (Pure.pure a : Program State Error A) :=
  fun _ hs => hs

theorem throw (e : Error) : Keeps P (throw e : Program State Error A) :=
  fun _ hs => hs

theorem modify {f : State -> State} (h : forall s, P s -> P (f s)) :
    Keeps P (modify f : Program State Error PUnit) :=
  h

theorem get (h : forall w, Keeps P (k w)) : Keeps P (get >>= k) :=
  fun s hs => h s s hs

end Keeps

end Program

end Rye.Foundation
