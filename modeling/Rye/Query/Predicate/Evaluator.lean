import Mathlib.Data.List.Basic

/-!
# Predicate evaluation

A predicate is a tree of boolean nodes over terms.  Terms are evaluated on the
values that their operands fetch.  The walk along a chain of conjunctions or
disjunctions is a loop of the source and does not nest; every other descent
does, and the nesting is limited by a system parameter.

What the evaluator asks of values is collected in a record: how two values that
are not null compare, which values are collections, and the two string matches.
-/

namespace Rye.Query

inductive DbLogical where
  | vFalse
  | vTrue
  | vUnknown
  | vError
deriving DecidableEq, Repr

inductive BoolOp where
  | and
  | or
  | xor
  | is
  | isNot
deriving DecidableEq, Repr

inductive RelOp where
  | eq
  | ne
  | gt
  | ge
  | lt
  | le
  | null
  | exists
  | like
  | eqTorder
  | nullsafeEq
deriving DecidableEq, Repr

inductive DbValueCompareResult where
  | lt
  | eq
  | gt
  | unk
deriving DecidableEq, Repr

/-- A value; null is `none`. -/
abbrev Value (V : Type) := Option V

/-- The comparison answers `none` for values that cannot be compared; its flag asks for the
total order. -/
structure ValueTypes (V : Type) where
  compare : V -> V -> Bool -> Option DbValueCompareResult
  elements : V -> Option (List (Value V))
  dbStringLike : V -> V -> Option (Value V) -> DbLogical
  dbStringRlike : V -> V -> V -> DbLogical

/-!
## Operands
-/

inductive ListTuple (V : Type) where
  | unbound
  | bound (value : Value V)
  | unreadable

structure QfileListId (V : Type) where
  hasDomain : Bool
  opens : Bool
  tuples : List (ListTuple V)
  endsWell : Bool

/-- An operand: a value that is fetched, or a list file that a linked query fills.  The
operation fails on `none`. -/
inductive ReguVariable (V : Type) where
  | value (fetched : Option (Value V))
  | listId (list : Option (QfileListId V))

variable {V : Type}

def ReguVariable.isListId : ReguVariable V -> Bool
  | .value _ => false
  | .listId _ => true

def fetchPeekDbval : ReguVariable V -> Option (Value V)
  | .value fetched => fetched
  | .listId _ => none

structure CompEvalTerm (V : Type) where
  compLhs : ReguVariable V
  compRhs : ReguVariable V
  compRelOp : RelOp

/-- The comparisons that SQL has before `SOME`. -/
def RelOp.isOrdinary : RelOp -> Bool
  | .eq | .ne | .gt | .ge | .lt | .le => true
  | _ => false

structure AlsmEvalTerm (V : Type) where
  elem : ReguVariable V
  elemset : ReguVariable V
  alsmRelOp : RelOp
  ordinary : alsmRelOp.isOrdinary = true

structure LikeEvalTerm (V : Type) where
  src : ReguVariable V
  pattern : ReguVariable V
  escChar : Option (ReguVariable V)

structure RlikeEvalTerm (V : Type) where
  src : ReguVariable V
  pattern : ReguVariable V
  caseSensitive : ReguVariable V

inductive EvalTerm (V : Type) where
  | comp (term : CompEvalTerm V)
  | alsm (term : AlsmEvalTerm V)
  | like (term : LikeEvalTerm V)
  | rlike (term : RlikeEvalTerm V)

inductive PredExpr (V : Type) where
  | pred (boolOp : BoolOp) (lhs rhs : PredExpr V)
  | evalTerm (term : EvalTerm V)
  | notTerm (term : PredExpr V)

/-!
## Comparisons
-/

def evalNegative : DbLogical -> DbLogical
  | .vTrue => .vFalse
  | .vFalse => .vTrue
  | result => result

def DbLogical.ofBool (b : Bool) : DbLogical :=
  if b then .vTrue else .vFalse

def tpValueCompare (types : ValueTypes V) (totalOrder : Bool) :
    Value V -> Value V -> Option DbValueCompareResult
  | none, none => some (if totalOrder then .eq else .unk)
  | none, some _ => some (if totalOrder then .lt else .unk)
  | some _, none => some (if totalOrder then .gt else .unk)
  | some v, some w => types.compare v w totalOrder

def evalValueRelCmp (types : ValueTypes V) (dbval1 dbval2 : Value V) (relOperator : RelOp) :
    DbLogical :=
  match tpValueCompare types (relOperator = .eqTorder) dbval1 dbval2 with
  | none => .vError
  | some result =>
    if result = .unk ∧ relOperator ≠ .nullsafeEq then .vUnknown
    else
      match relOperator with
      | .eq => .ofBool (result = .eq)
      | .eqTorder => .ofBool (result = .eq)
      | .lt => .ofBool (result = .lt)
      | .le => .ofBool (result = .lt ∨ result = .eq)
      | .gt => .ofBool (result = .gt)
      | .ge => .ofBool (result = .gt ∨ result = .eq)
      | .ne => .ofBool (result ≠ .eq)
      | .nullsafeEq => if result = .eq then .vTrue else .ofBool (dbval1.isNone ∧ dbval2.isNone)
      | .null | .exists | .like => .vError

/-- The loop over the elements of a set with the result so far. -/
def someEvalLoop (types : ValueTypes V) (item : Value V) (relOperator : RelOp) :
    List (Value V) -> DbLogical -> DbLogical
  | [], res => res
  | elemVal :: elements, res =>
    match evalValueRelCmp types item elemVal relOperator with
    | .vTrue => .vTrue
    | .vError => .vError
    | .vUnknown => someEvalLoop types item relOperator elements .vUnknown
    | .vFalse => someEvalLoop types item relOperator elements res

def evalSomeEval (types : ValueTypes V) (item : Value V) (set : List (Value V))
    (relOperator : RelOp) : DbLogical :=
  someEvalLoop types item relOperator set .vFalse

/-- The loop over the tuples of a list file; an unbound column is not compared. -/
def someListEvalLoop (types : ValueTypes V) (item : Value V) (relOperator : RelOp)
    (endsWell : Bool) : List (ListTuple V) -> DbLogical -> DbLogical
  | [], res => if endsWell then res else .vError
  | .unbound :: tuples, _ => someListEvalLoop types item relOperator endsWell tuples .vUnknown
  | .unreadable :: _, _ => .vError
  | .bound listVal :: tuples, res =>
    match evalValueRelCmp types item listVal relOperator with
    | .vTrue => .vTrue
    | .vError => .vError
    | .vUnknown => someListEvalLoop types item relOperator endsWell tuples .vUnknown
    | .vFalse => someListEvalLoop types item relOperator endsWell tuples res

def evalSomeListEval (types : ValueTypes V) (item : Value V) (listId : QfileListId V)
    (relOperator : RelOp) : DbLogical :=
  if !listId.hasDomain then .vError
  else if listId.tuples.length = 0 then .vFalse
  else if !listId.opens then .vError
  else someListEvalLoop types item relOperator listId.endsWell listId.tuples .vFalse

/-!
## Terms
-/

def RelOp.comparesNull (op : RelOp) : Bool :=
  op = .eqTorder || op = .nullsafeEq

/-- Fetch both operands and compare them; a null operand is unknown unless the flag is set. -/
def fetchAndCompare (types : ValueTypes V) (comparesNull : Bool) (etComp : CompEvalTerm V) :
    DbLogical :=
  match fetchPeekDbval etComp.compLhs with
  | none => .vError
  | some peekVal1 =>
    if peekVal1.isNone && !comparesNull then .vUnknown
    else
      match fetchPeekDbval etComp.compRhs with
      | none => .vError
      | some peekVal2 =>
        if peekVal2.isNone && !comparesNull then .vUnknown
        else evalValueRelCmp types peekVal1 peekVal2 etComp.compRelOp

def evalCompTerm (types : ValueTypes V) (etComp : CompEvalTerm V) : DbLogical :=
  match etComp.compRelOp with
  | .null =>
    match fetchPeekDbval etComp.compLhs with
    | none => .vError
    | some peekVal1 => .ofBool peekVal1.isNone
  | .exists =>
    match etComp.compLhs with
    | .listId none => .vError
    | .listId (some list) => .ofBool (list.tuples.length > 0)
    | .value _ => .vError
  | compRelOp =>
    if etComp.compLhs.isListId || etComp.compRhs.isListId then .vError
    else fetchAndCompare types compRelOp.comparesNull etComp

/-- What both kinds of collections do after the test for emptiness. -/
def withItem (elem : ReguVariable V) (eval : Value V -> DbLogical) : DbLogical :=
  match fetchPeekDbval elem with
  | none => .vError
  | some peekVal1 => if peekVal1.isNone then .vUnknown else eval peekVal1

def evalAlsmTerm (types : ValueTypes V) (etAlsm : AlsmEvalTerm V) : DbLogical :=
  match etAlsm.elemset with
  | .value none => .vError
  | .value (some none) => .vUnknown
  | .value (some (some peekVal2)) =>
    match types.elements peekVal2 with
    | none => .vError
    | some set =>
      if set.length = 0 then .vFalse
      else withItem etAlsm.elem fun item => evalSomeEval types item set etAlsm.alsmRelOp
  | .listId none => .vError
  | .listId (some list) =>
    if list.tuples.length = 0 then .vFalse
    else withItem etAlsm.elem fun item => evalSomeListEval types item list etAlsm.alsmRelOp

/-- The source has this text twice: for a term of a tree and for a single term. -/
def evalPredLike6 (types : ValueTypes V) (etLike : LikeEvalTerm V) : DbLogical :=
  match fetchPeekDbval etLike.src with
  | none => .vError
  | some none => .vUnknown
  | some (some peekVal1) =>
    match fetchPeekDbval etLike.pattern with
    | none => .vError
    | some none => .vUnknown
    | some (some peekVal2) =>
      match etLike.escChar with
      | none => types.dbStringLike peekVal1 peekVal2 none
      | some escChar =>
        match fetchPeekDbval escChar with
        | none => .vError
        | some peekVal3 => types.dbStringLike peekVal1 peekVal2 (some peekVal3)

def evalPredRlike7 (types : ValueTypes V) (etRlike : RlikeEvalTerm V) : DbLogical :=
  match fetchPeekDbval etRlike.src with
  | none => .vError
  | some none => .vUnknown
  | some (some peekVal1) =>
    match fetchPeekDbval etRlike.pattern with
    | none => .vError
    | some none => .vUnknown
    | some (some peekVal2) =>
      match fetchPeekDbval etRlike.caseSensitive with
      | none => .vError
      | some none => .vUnknown
      | some (some peekVal3) => types.dbStringRlike peekVal1 peekVal2 peekVal3

def evalEvalTerm (types : ValueTypes V) : EvalTerm V -> DbLogical
  | .comp term => evalCompTerm types term
  | .alsm term => evalAlsmTerm types term
  | .like term => evalPredLike6 types term
  | .rlike term => evalPredRlike7 types term

/-!
## Trees
-/

def PredExpr.isNode (op : BoolOp) : PredExpr V -> Bool
  | .pred boolOp _ _ => boolOp = op
  | _ => false

/-- The limit on the nesting, tested before anything is evaluated. -/
def limited (limit depth : Nat) (result : DbLogical) : DbLogical :=
  if depth > limit then .vError else result

def trueToUnknown : DbLogical -> DbLogical
  | .vTrue => .vUnknown
  | result => result

def falseToUnknown : DbLogical -> DbLogical
  | .vFalse => .vUnknown
  | result => result

def evalXor (resultLhs resultRhs : DbLogical) : DbLogical :=
  if resultLhs = .vError ∨ resultRhs = .vError then .vError
  else if resultLhs = .vUnknown ∨ resultRhs = .vUnknown then .vUnknown
  else if resultLhs = resultRhs then .vFalse
  else .vTrue

/-- The first two arguments are the answers for equal and for different results. -/
def evalIs (same different resultLhs resultRhs : DbLogical) : DbLogical :=
  if resultLhs = .vError ∨ resultRhs = .vError then .vError
  else if resultLhs = resultRhs then same
  else different

/-- The evaluation behind the test of the limit.  The loop along a chain goes on with the
right-hand side of the chain at the same depth. -/
def evalPredNode (types : ValueTypes V) (limit : Nat) : PredExpr V -> Nat -> DbLogical
  | .pred .and lhs rhs, depth =>
    match limited limit (depth + 1) (evalPredNode types limit lhs (depth + 1)) with
    | .vFalse => .vFalse
    | .vError => .vError
    | .vUnknown =>
      trueToUnknown (limited limit (depth + 1) (evalPredNode types limit rhs (depth + 1)))
    | .vTrue =>
      if rhs.isNode .and then evalPredNode types limit rhs depth
      else limited limit (depth + 1) (evalPredNode types limit rhs (depth + 1))
  | .pred .or lhs rhs, depth =>
    match limited limit (depth + 1) (evalPredNode types limit lhs (depth + 1)) with
    | .vTrue => .vTrue
    | .vError => .vError
    | .vUnknown =>
      falseToUnknown (limited limit (depth + 1) (evalPredNode types limit rhs (depth + 1)))
    | .vFalse =>
      if rhs.isNode .or then evalPredNode types limit rhs depth
      else limited limit (depth + 1) (evalPredNode types limit rhs (depth + 1))
  | .pred .xor lhs rhs, depth =>
    evalXor (limited limit (depth + 1) (evalPredNode types limit lhs (depth + 1)))
      (limited limit (depth + 1) (evalPredNode types limit rhs (depth + 1)))
  | .pred .is lhs rhs, depth =>
    evalIs .vTrue .vFalse (limited limit (depth + 1) (evalPredNode types limit lhs (depth + 1)))
      (limited limit (depth + 1) (evalPredNode types limit rhs (depth + 1)))
  | .pred .isNot lhs rhs, depth =>
    evalIs .vFalse .vTrue (limited limit (depth + 1) (evalPredNode types limit lhs (depth + 1)))
      (limited limit (depth + 1) (evalPredNode types limit rhs (depth + 1)))
  | .evalTerm term, _ => evalEvalTerm types term
  | .notTerm term, depth =>
    evalNegative (limited limit (depth + 1) (evalPredNode types limit term (depth + 1)))

def evalPred (types : ValueTypes V) (limit : Nat) (pr : PredExpr V) (depth : Nat) : DbLogical :=
  limited limit depth (evalPredNode types limit pr depth)

def evalPredComp0 (types : ValueTypes V) (etComp : CompEvalTerm V) : DbLogical :=
  fetchAndCompare types (etComp.compRelOp = .nullsafeEq) etComp

def evalPredComp1 (etComp : CompEvalTerm V) : DbLogical :=
  match fetchPeekDbval etComp.compLhs with
  | none => .vError
  | some peekVal1 => .ofBool peekVal1.isNone

def evalPredAlsm4 (types : ValueTypes V) (etAlsm : AlsmEvalTerm V) : DbLogical :=
  match fetchPeekDbval etAlsm.elemset with
  | none => .vError
  | some none => .vUnknown
  | some (some peekVal2) =>
    match types.elements peekVal2 with
    | none => .vError
    | some set =>
      if set.length = 0 then .vFalse
      else withItem etAlsm.elem fun item => evalSomeEval types item set etAlsm.alsmRelOp

def evalPredAlsm5 (types : ValueTypes V) (etAlsm : AlsmEvalTerm V) : DbLogical :=
  match etAlsm.elemset with
  | .listId (some list) =>
    if list.tuples.length = 0 then .vFalse
    else withItem etAlsm.elem fun item => evalSomeListEval types item list etAlsm.alsmRelOp
  | _ => .vError

/-- The routine for a tree: one of the routines for single terms, `evalPred` for every
other tree, and none for a term that the source holds to be impossible. -/
def evalFnc (types : ValueTypes V) (limit : Nat) : PredExpr V -> Option (Nat -> DbLogical)
  | .evalTerm (.comp etComp) =>
    if etComp.compRelOp = .null then some fun _ => evalPredComp1 etComp
    else if etComp.compRelOp = .exists || etComp.compLhs.isListId || etComp.compRhs.isListId then
      none
    else some fun _ => evalPredComp0 types etComp
  | .evalTerm (.alsm etAlsm) =>
    if etAlsm.elemset.isListId then some fun _ => evalPredAlsm5 types etAlsm
    else some fun _ => evalPredAlsm4 types etAlsm
  | .evalTerm (.like etLike) => some fun _ => evalPredLike6 types etLike
  | .evalTerm (.rlike etRlike) => some fun _ => evalPredRlike7 types etRlike
  | pr => some (evalPred types limit pr)

end Rye.Query
