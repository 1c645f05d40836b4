import Rye.Foundation.Kleene
import Rye.Query.Predicate.Evaluator

/-!
# Predicates as strong Kleene logic

The value of a predicate in strong Kleene logic, from the values of its terms.
The evaluator answers with this value, or with an error when it nests deeper
than the limit allows.
-/

namespace Rye.Query

open Foundation PredExpr DbLogical

variable {V : Type}

def DbLogical.ofKleene : Kleene -> DbLogical
  | .false => .vFalse
  | .unknown => .vUnknown
  | .true => .vTrue

/-- The truth value of an answer; an error has none and is taken as unknown. -/
def DbLogical.toKleene : DbLogical -> Kleene
  | .vFalse => .false
  | .vTrue => .true
  | .vUnknown | .vError => .unknown

theorem DbLogical.ofKleene_toKleene {result : DbLogical} (h : result ≠ .vError) :
    ofKleene result.toKleene = result := by
  cases result with
  | vError => exact absurd rfl h
  | _ => rfl

theorem DbLogical.ofBool_eq (b : Bool) : ofBool b = ofKleene (.ofBool b) := by
  cases b <;> rfl

/-!
## The value of a term
-/

/-- The relation between two values of which neither is null. -/
def RelOp.holds : RelOp -> DbValueCompareResult -> Bool
  | .eq, result | .eqTorder, result | .nullsafeEq, result => result = .eq
  | .ne, result => result ≠ .eq
  | .lt, result => result = .lt
  | .le, result => result = .lt ∨ result = .eq
  | .gt, result => result = .gt
  | .ge, result => result = .gt ∨ result = .eq
  | .null, _ | .exists, _ | .like, _ => false

/-- A comparison is unknown when one of the values is null or when the values are not
ordered, unless the operator compares nulls. -/
def comparison (types : ValueTypes V) (op : RelOp) : Value V -> Value V -> Kleene
  | some v, some w =>
    match types.compare v w (op = .eqTorder) with
    | none => .unknown
    | some .unk => if op = .nullsafeEq then .false else .unknown
    | some result => .ofBool (op.holds result)
  | none, none => if op.comparesNull then .true else .unknown
  | _, _ => if op.comparesNull then .false else .unknown

def ListTuple.comparison (types : ValueTypes V) (op : RelOp) (item : Value V) :
    ListTuple V -> Kleene
  | .bound value => Query.comparison types op item value
  | .unbound => Query.comparison types op item none
  | .unreadable => .unknown

def CompEvalTerm.comparison (types : ValueTypes V) (term : CompEvalTerm V) : Kleene :=
  match fetchPeekDbval term.compLhs, fetchPeekDbval term.compRhs with
  | some v, some w => Query.comparison types term.compRelOp v w
  | _, _ => .unknown

def CompEvalTerm.kleene (types : ValueTypes V) (term : CompEvalTerm V) : Kleene :=
  match term.compRelOp with
  | .null =>
    match fetchPeekDbval term.compLhs with
    | some value => .ofBool value.isNone
    | none => .unknown
  | .exists =>
    match term.compLhs with
    | .listId (some list) => .ofBool (list.tuples.length > 0)
    | _ => .unknown
  | _ => term.comparison types

/-- The disjunction of the comparisons with the elements. -/
def AlsmEvalTerm.kleene (types : ValueTypes V) (term : AlsmEvalTerm V) : Kleene :=
  let item := (fetchPeekDbval term.elem).getD none
  match term.elemset with
  | .value (some (some value)) =>
    match types.elements value with
    | none => .unknown
    | some set => .disj (set.map (comparison types term.alsmRelOp item))
  | .listId (some list) => .disj (list.tuples.map (ListTuple.comparison types term.alsmRelOp item))
  | _ => .unknown

/-- The matches answer with a truth value of their own. -/
def EvalTerm.kleene (types : ValueTypes V) : EvalTerm V -> Kleene
  | .comp term => term.kleene types
  | .alsm term => term.kleene types
  | .like term => (evalPredLike6 types term).toKleene
  | .rlike term => (evalPredRlike7 types term).toKleene

variable {types : ValueTypes V} {op : RelOp} {item : Value V} {term : CompEvalTerm V}
    {limit depth : Nat}

/-- The answer is the value, or an error. -/
def Yields (result : DbLogical) (value : Kleene) : Prop :=
  result = .vError ∨ result = .ofKleene value

theorem Yields.error {value : Kleene} : Yields .vError value :=
  .inl rfl

theorem Yields.value (value : Kleene) : Yields (.ofKleene value) value :=
  .inr rfl

theorem evalValueRelCmp_yields (types : ValueTypes V) (op : RelOp) (v w : Value V) :
    Yields (evalValueRelCmp types v w op) (comparison types op v w) := by
  unfold evalValueRelCmp
  cases v with
  | none => cases w <;> cases op <;> exact .inr rfl
  | some v =>
    cases w with
    | none => cases op <;> exact .inr rfl
    | some w =>
      simp only [tpValueCompare, comparison]
      cases types.compare v w (op = .eqTorder) with
      | none => exact .error
      | some result => cases op <;> cases result <;> first | exact .inr rfl | exact .error

theorem comparison_none_left (types : ValueTypes V) (hop : op.comparesNull = false) (w : Value V) :
    comparison types op none w = .unknown := by
  cases w <;> simp [comparison, hop]

theorem comparison_none_right (types : ValueTypes V) (hop : op.comparesNull = false) (v : Value V) :
    comparison types op v none = .unknown := by
  cases v <;> simp [comparison, hop]

theorem RelOp.comparesNull_of_ordinary (h : op.isOrdinary = true) : op.comparesNull = false := by
  cases op <;> first | rfl | cases h

theorem yields_round {cmp : DbLogical} {next : DbLogical -> DbLogical} {first rest res : Kleene}
    (hres : res ≠ .true)
    (hnext : forall {res : Kleene}, res ≠ .true -> Yields (next (.ofKleene res)) (res.or rest)) :
    Yields cmp first -> Yields
      (match cmp with
      | .vTrue => .vTrue
      | .vError => .vError
      | .vUnknown => next .vUnknown
      | .vFalse => next (.ofKleene res)) (res.or (first.or rest)) := by
  rintro (rfl | rfl)
  · exact .error
  cases first with
  | true =>
    rw [Kleene.true_or, Kleene.or_true]
    exact .value .true
  | unknown =>
    rw [Kleene.or_unknown_or hres]
    exact hnext (by decide : Kleene.unknown ≠ .true)
  | false =>
    rw [Kleene.false_or]
    exact hnext hres

theorem someEvalLoop_yields (types : ValueTypes V) (op : RelOp) (item : Value V)
    (set : List (Value V)) {res : Kleene} (hres : res ≠ .true) :
    Yields (someEvalLoop types item op set (.ofKleene res))
      (res.or (.disj (set.map (comparison types op item)))) := by
  induction set generalizing res with
  | nil => exact .inr (congrArg ofKleene (Kleene.or_false res).symm)
  | cons elem rest ih => exact yields_round hres ih (evalValueRelCmp_yields types op item elem)

theorem someListEvalLoop_yields (types : ValueTypes V) (hop : op.comparesNull = false)
    (item : Value V) (endsWell : Bool) (tuples : List (ListTuple V)) {res : Kleene} (hres : res ≠ .true) :
    Yields (someListEvalLoop types item op endsWell tuples (.ofKleene res))
      (res.or (.disj (tuples.map (ListTuple.comparison types op item)))) := by
  induction tuples generalizing res with
  | nil =>
    cases endsWell with
    | false => exact .error
    | true => exact .inr (congrArg ofKleene (Kleene.or_false res).symm)
  | cons tuple rest ih =>
    cases tuple with
    | unreadable => exact .error
    | unbound =>
      rw [List.map_cons, Kleene.disj_cons, ListTuple.comparison, comparison_none_right types hop,
        Kleene.or_unknown_or hres]
      exact ih (by decide : Kleene.unknown ≠ .true)
    | bound value => exact yields_round hres ih (evalValueRelCmp_yields types op item value)

/-!
## Terms
-/

theorem fetchAndCompare_yields (types : ValueTypes V) (term : CompEvalTerm V) :
    Yields (fetchAndCompare types term.compRelOp.comparesNull term) (term.comparison types) := by
  unfold fetchAndCompare CompEvalTerm.comparison
  cases fetchPeekDbval term.compLhs with
  | none => exact .error
  | some v =>
    by_cases hv : (v.isNone && !term.compRelOp.comparesNull) = true
    · simp only [if_pos hv]
      rw [Bool.and_eq_true, Option.isNone_iff_eq_none, Bool.not_eq_true'] at hv
      rw [hv.1]
      cases fetchPeekDbval term.compRhs with
      | none => exact .value .unknown
      | some w =>
        simp only [comparison_none_left types hv.2]
        exact .value .unknown
    · simp only [if_neg hv]
      cases fetchPeekDbval term.compRhs with
      | none => exact .error
      | some w =>
        by_cases hw : (w.isNone && !term.compRelOp.comparesNull) = true
        · simp only [if_pos hw]
          rw [Bool.and_eq_true, Option.isNone_iff_eq_none, Bool.not_eq_true'] at hw
          rw [hw.1, comparison_none_right types hw.2]
          exact .value .unknown
        · simp only [if_neg hw]
          exact evalValueRelCmp_yields types term.compRelOp v w

theorem evalCompTerm_yields (types : ValueTypes V) (term : CompEvalTerm V) :
    Yields (evalCompTerm types term) (term.kleene types) := by
  rcases term with ⟨lhs, rhs, op⟩
  cases op with
  | null =>
    cases lhs with
    | value fetched =>
      cases fetched with
      | none => exact .error
      | some value => exact .inr (ofBool_eq _)
    | listId list => exact .error
  | «exists» =>
    cases lhs with
    | value fetched => exact .error
    | listId list =>
      cases list with
      | none => exact .error
      | some list => exact .inr (ofBool_eq _)
  | _ =>
    cases lhs with
    | listId list => exact .error
    | value fetched =>
      cases rhs with
      | listId list => exact .error
      | value fetched' => exact fetchAndCompare_yields types ⟨.value fetched, .value fetched', _⟩

theorem collection_yields {A : Type} {elem : ReguVariable V} {eval : Value V -> DbLogical}
    {elements : List A} {value : Value V -> A -> Kleene}
    (hnone : forall x, value none x = .unknown)
    (heval : forall item, Yields (eval item) (.disj (elements.map (value item)))) :
    Yields (if elements.length = 0 then .vFalse else withItem elem eval)
      (.disj (elements.map (value ((fetchPeekDbval elem).getD none)))) := by
  by_cases hempty : elements.length = 0
  · rw [if_pos hempty, List.length_eq_zero_iff.mp hempty]
    exact .value .false
  rw [if_neg hempty]
  unfold withItem
  cases fetchPeekDbval elem with
  | none => exact .error
  | some item =>
    cases item with
    | none =>
      rw [Option.getD_some, Kleene.disj_of_forall_unknown]
      · exact .value .unknown
      · intro k hk
        rcases List.mem_map.mp hk with ⟨x, _, rfl⟩
        exact hnone x
      intro hnil
      rw [List.map_eq_nil_iff] at hnil
      rw [hnil] at hempty
      exact hempty rfl
    | some v => exact heval (some v)

theorem evalSomeEval_yields (types : ValueTypes V) (op : RelOp) (set : List (Value V))
    (item : Value V) :
    Yields (evalSomeEval types item set op) (.disj (set.map (comparison types op item))) := by
  have hloop := someEvalLoop_yields types op item set (by decide : Kleene.false ≠ .true)
  rw [Kleene.false_or] at hloop
  exact hloop

theorem evalSomeListEval_yields (types : ValueTypes V) {list : QfileListId V}
    (hop : op.comparesNull = false) (item : Value V) :
    Yields (evalSomeListEval types item list op)
      (.disj (list.tuples.map (ListTuple.comparison types op item))) := by
  unfold evalSomeListEval
  cases list.hasDomain with
  | false => exact .error
  | true =>
    by_cases hempty : list.tuples.length = 0
    · rw [List.length_eq_zero_iff.mp hempty]
      exact .value .false
    rw [if_neg hempty]
    cases list.opens with
    | false => exact .error
    | true =>
      have hloop := someListEvalLoop_yields types hop item list.endsWell list.tuples
        (by decide : Kleene.false ≠ .true)
      rw [Kleene.false_or] at hloop
      exact hloop

theorem evalAlsmTerm_yields (types : ValueTypes V) (term : AlsmEvalTerm V) :
    Yields (evalAlsmTerm types term) (term.kleene types) := by
  have hop := RelOp.comparesNull_of_ordinary term.ordinary
  unfold evalAlsmTerm AlsmEvalTerm.kleene
  cases term.elemset with
  | value fetched =>
    cases fetched with
    | none => exact .error
    | some fetched =>
      cases fetched with
      | none => exact .value .unknown
      | some value =>
        simp only
        cases types.elements value with
        | none => exact .error
        | some set =>
          exact collection_yields (comparison_none_left types hop)
            (evalSomeEval_yields types term.alsmRelOp set)
  | listId list =>
    cases list with
    | none => exact .error
    | some list =>
      apply collection_yields _ (evalSomeListEval_yields types hop)
      intro tuple
      cases tuple with
      | unreadable => rfl
      | unbound => exact comparison_none_left types hop none
      | bound value => exact comparison_none_left types hop value

theorem evalEvalTerm_kleene {term : EvalTerm V} (h : evalEvalTerm types term ≠ .vError) :
    evalEvalTerm types term = .ofKleene (term.kleene types) := by
  cases term with
  | comp term => exact (evalCompTerm_yields types term).resolve_left h
  | alsm term => exact (evalAlsmTerm_yields types term).resolve_left h
  | like term | rlike term => exact (ofKleene_toKleene h).symm

/-!
## Trees
-/

namespace PredExpr

def kleene (types : ValueTypes V) : PredExpr V -> Kleene
  | .pred .and lhs rhs => (lhs.kleene types).and (rhs.kleene types)
  | .pred .or lhs rhs => (lhs.kleene types).or (rhs.kleene types)
  | .pred .xor lhs rhs => (lhs.kleene types).xor (rhs.kleene types)
  | .pred .is lhs rhs => (lhs.kleene types).same (rhs.kleene types)
  | .pred .isNot lhs rhs => ((lhs.kleene types).same (rhs.kleene types)).not
  | .evalTerm term => term.kleene types
  | .notTerm term => (term.kleene types).not

def NoError (types : ValueTypes V) : PredExpr V -> Prop
  | .pred _ lhs rhs => lhs.NoError types ∧ rhs.NoError types
  | .evalTerm term => evalEvalTerm types term ≠ .vError
  | .notTerm term => term.NoError types

instance decidableNoError (types : ValueTypes V) :
    (pr : PredExpr V) -> Decidable (pr.NoError types)
  | .pred _ lhs rhs =>
    @instDecidableAnd _ _ (decidableNoError types lhs) (decidableNoError types rhs)
  | .evalTerm term => inferInstanceAs (Decidable (evalEvalTerm types term ≠ .vError))
  | .notTerm term => decidableNoError types term

/-- How deep the evaluation nests.  A value that decides a chain ends it; an unknown value
nests the rest of the chain, any other value goes on along it. -/
def nesting (types : ValueTypes V) : PredExpr V -> Nat
  | .pred .and lhs rhs =>
    match lhs.kleene types with
    | .false => lhs.nesting types + 1
    | .unknown => max (lhs.nesting types + 1) (rhs.nesting types + 1)
    | .true =>
      max (lhs.nesting types + 1)
        (if rhs.isNode .and then rhs.nesting types else rhs.nesting types + 1)
  | .pred .or lhs rhs =>
    match lhs.kleene types with
    | .true => lhs.nesting types + 1
    | .unknown => max (lhs.nesting types + 1) (rhs.nesting types + 1)
    | .false =>
      max (lhs.nesting types + 1)
        (if rhs.isNode .or then rhs.nesting types else rhs.nesting types + 1)
  | .pred _ lhs rhs => max (lhs.nesting types + 1) (rhs.nesting types + 1)
  | .evalTerm _ => 0
  | .notTerm term => term.nesting types + 1

end PredExpr

/-- The answer at the limit: a truth value when the depth is within it. -/
def answer (limit depth : Nat) (value : Kleene) : DbLogical :=
  limited limit depth (.ofKleene value)

theorem limited_answer {depth' : Nat} (hle : depth <= depth') (value : Kleene) :
    limited limit depth (answer limit depth' value) = answer limit depth' value := by
  unfold answer limited
  split_ifs <;> first | rfl | omega

theorem answer_of_le (h : depth <= limit) (value : Kleene) :
    answer limit depth value = .ofKleene value :=
  if_neg (by omega)

theorem answer_of_lt (h : limit < depth) (value : Kleene) : answer limit depth value = .vError :=
  if_pos h

theorem answer_max {d e : Nat} (hd : depth + d <= limit) (value : Kleene) :
    answer limit (depth + max d e) value = answer limit (depth + e) value := by
  by_cases he : depth + e <= limit
  · rw [answer_of_le he, answer_of_le (by omega)]
  · rw [answer_of_lt (by omega : limit < depth + e), answer_of_lt (by omega)]

theorem answer_map {x y : Kleene} {f : DbLogical -> DbLogical} (herror : f .vError = .vError)
    (hvalue : f (.ofKleene x) = .ofKleene y) : f (answer limit depth x) = answer limit depth y := by
  by_cases hdepth : depth <= limit
  · rw [answer_of_le hdepth, answer_of_le hdepth, hvalue]
  · rw [answer_of_lt (by omega), answer_of_lt (by omega), herror]

theorem answer_map₂ {d e : Nat} {x y value : Kleene} {f : DbLogical -> DbLogical -> DbLogical}
    (hleft : forall z, f .vError z = .vError) (hright : forall z, f z .vError = .vError)
    (hvalue : f (.ofKleene x) (.ofKleene y) = .ofKleene value) :
    f (answer limit (depth + d) x) (answer limit (depth + e) y) =
      answer limit (depth + max d e) value := by
  by_cases hd : depth + d <= limit
  · rw [answer_of_le hd, answer_max hd, answer_map (hright _) hvalue]
  · rw [answer_of_lt (by omega), hleft, answer_of_lt (by omega)]

theorem PredExpr.lhs_nesting_lt (types : ValueTypes V) (op : BoolOp) (lhs rhs : PredExpr V) :
    lhs.nesting types + 1 <= (pred op lhs rhs).nesting types := by
  cases op with
  | and | or =>
    rw [nesting]
    split <;> omega
  | xor | is | isNot => exact Nat.le_max_left _ _

section

variable {types : ValueTypes V} {limit : Nat}

def Answers (types : ValueTypes V) (limit : Nat) (pr : PredExpr V) : Prop :=
  forall depth, depth <= limit ->
    evalPredNode types limit pr depth = answer limit (depth + pr.nesting types) (pr.kleene types)

variable {pr : PredExpr V}

theorem Answers.nested (h : Answers types limit pr) (depth : Nat) :
    limited limit (depth + 1) (evalPredNode types limit pr (depth + 1)) =
      answer limit (depth + (pr.nesting types + 1)) (pr.kleene types) := by
  by_cases hdepth : depth + 1 <= limit
  · rw [h (depth + 1) hdepth, limited_answer (by omega), Nat.add_assoc, Nat.add_comm 1]
  · rw [answer_of_lt (by omega)]
    exact if_pos (by omega)

theorem Answers.chain (h : Answers types limit pr) (isNode : Bool) {depth : Nat}
    (hdepth : depth <= limit) :
    (if isNode then evalPredNode types limit pr depth
      else limited limit (depth + 1) (evalPredNode types limit pr (depth + 1))) =
      answer limit (depth + if isNode then pr.nesting types else pr.nesting types + 1)
        (pr.kleene types) := by
  cases isNode with
  | true => exact h depth hdepth
  | false => exact h.nested depth

variable {lhs rhs : PredExpr V}

theorem Answers.and (hlhs : Answers types limit lhs) (hrhs : Answers types limit rhs) :
    Answers types limit (.pred .and lhs rhs) := by
  intro depth hdepth
  rw [evalPredNode, hlhs.nested, hrhs.chain _ hdepth, hrhs.nested]
  by_cases hleft : depth + (lhs.nesting types + 1) <= limit
  · rw [answer_of_le hleft, kleene, nesting]
    cases lhs.kleene types with
    | false =>
      rw [Kleene.false_and]
      exact (answer_of_le hleft .false).symm
    | unknown =>
      rw [answer_max hleft]
      refine answer_map (f := trueToUnknown) rfl ?_
      cases rhs.kleene types <;> rfl
    | true =>
      rw [answer_max hleft, Kleene.true_and]
      rfl
  · have hnesting := lhs_nesting_lt types .and lhs rhs
    rw [answer_of_lt (by omega : limit < depth + (lhs.nesting types + 1))]
    exact (answer_of_lt (by omega) _).symm

theorem Answers.or (hlhs : Answers types limit lhs) (hrhs : Answers types limit rhs) :
    Answers types limit (.pred .or lhs rhs) := by
  intro depth hdepth
  rw [evalPredNode, hlhs.nested, hrhs.chain _ hdepth, hrhs.nested]
  by_cases hleft : depth + (lhs.nesting types + 1) <= limit
  · rw [answer_of_le hleft, kleene, nesting]
    cases lhs.kleene types with
    | true =>
      rw [Kleene.true_or]
      exact (answer_of_le hleft .true).symm
    | unknown =>
      rw [answer_max hleft]
      refine answer_map (f := falseToUnknown) rfl ?_
      cases rhs.kleene types <;> rfl
    | false =>
      rw [answer_max hleft, Kleene.false_or]
      rfl
  · have hnesting := lhs_nesting_lt types .or lhs rhs
    rw [answer_of_lt (by omega : limit < depth + (lhs.nesting types + 1))]
    exact (answer_of_lt (by omega) _).symm

theorem evalXor_error (result : DbLogical) : evalXor result .vError = .vError := by
  cases result <;> rfl

theorem evalIs_error (x y result : DbLogical) : evalIs x y result .vError = .vError := by
  cases result <;> rfl

theorem PredExpr.NoError.answers (h : pr.NoError types) : Answers types limit pr := by
  induction pr with
  | evalTerm term =>
    intro depth hdepth
    exact (evalEvalTerm_kleene h).trans (answer_of_le hdepth _).symm
  | notTerm term ih =>
    intro depth hdepth
    rw [evalPredNode, (ih h).nested]
    refine answer_map rfl ?_
    rw [kleene]
    cases term.kleene types <;> rfl
  | pred op lhs rhs ihl ihr =>
    have hlhs := ihl h.1
    have hrhs := ihr h.2
    cases op with
    | and => exact hlhs.and hrhs
    | or => exact hlhs.or hrhs
    | xor =>
      intro depth hdepth
      rw [evalPredNode, hlhs.nested, hrhs.nested]
      refine answer_map₂ (fun _ => rfl) evalXor_error ?_
      rw [kleene]
      cases lhs.kleene types <;> cases rhs.kleene types <;> rfl
    | is | isNot =>
      intro depth hdepth
      rw [evalPredNode, hlhs.nested, hrhs.nested]
      refine answer_map₂ (fun _ => rfl) (evalIs_error _ _) ?_
      rw [kleene]
      cases lhs.kleene types <;> cases rhs.kleene types <;> rfl

theorem evalPred_eq_answer (h : pr.NoError types) (depth : Nat) :
    evalPred types limit pr depth = answer limit (depth + pr.nesting types) (pr.kleene types) := by
  unfold evalPred
  by_cases hdepth : depth <= limit
  · rw [h.answers depth hdepth, limited_answer (by omega)]
  · rw [answer_of_lt (by omega)]
    exact if_pos (by omega)

end

/-!
## The routines for single terms

A routine answers like `evalPred` on the same tree, with one exception: only
`evalPred` compares nulls in the total order.  There is no routine for an
existence test.
-/

namespace EvalTerm

def isExists : EvalTerm V -> Bool
  | .comp term => term.compRelOp = .exists
  | _ => false

def TotalOrderNull : EvalTerm V -> Prop
  | .comp term =>
    term.compRelOp = .eqTorder ∧
      (fetchPeekDbval term.compLhs = some none ∨ fetchPeekDbval term.compRhs = some none)
  | _ => False

end EvalTerm

theorem fetchAndCompare_of_not_null (hlhs : fetchPeekDbval term.compLhs ≠ some none)
    (hrhs : fetchPeekDbval term.compRhs ≠ some none) (b b' : Bool) :
    fetchAndCompare types b term = fetchAndCompare types b' term := by
  unfold fetchAndCompare
  cases h : fetchPeekDbval term.compLhs with
  | none => rfl
  | some v =>
    cases v with
    | none => exact absurd h hlhs
    | some v =>
      cases h' : fetchPeekDbval term.compRhs with
      | none => rfl
      | some w =>
        cases w with
        | none => exact absurd h' hrhs
        | some w => rfl

theorem evalPredComp0_eq (h : ¬ (EvalTerm.comp term).TotalOrderNull) :
    evalPredComp0 types term = fetchAndCompare types term.compRelOp.comparesNull term := by
  unfold evalPredComp0
  by_cases hop : term.compRelOp = .eqTorder
  · apply fetchAndCompare_of_not_null
    · exact fun hnull => h ⟨hop, .inl hnull⟩
    · exact fun hnull => h ⟨hop, .inr hnull⟩
  · congr 1
    simp [RelOp.comparesNull, hop]

theorem evalFnc_comp (h : evalCompTerm types term ≠ .vError) (hexists : term.compRelOp ≠ .exists) :
    exists fnc, evalFnc types limit (.evalTerm (.comp term)) = some fnc ∧
      (¬ (EvalTerm.comp term).TotalOrderNull -> forall depth,
        fnc depth = evalCompTerm types term) := by
  by_cases hnull : term.compRelOp = .null
  · refine ⟨fun _ => evalPredComp1 term, if_pos hnull, fun _ _ => ?_⟩
    unfold evalCompTerm evalPredComp1
    rw [hnull]
  have hcomp : evalCompTerm types term =
      if term.compLhs.isListId || term.compRhs.isListId then .vError
      else fetchAndCompare types term.compRelOp.comparesNull term := by
    unfold evalCompTerm
    split <;> first | rfl | contradiction
  rw [hcomp] at h ⊢
  by_cases hlist : (term.compLhs.isListId || term.compRhs.isListId) = true
  · rw [if_pos hlist] at h
    exact absurd rfl h
  rw [if_neg hlist]
  refine ⟨fun _ => evalPredComp0 types term, ?_, fun htotal _ => evalPredComp0_eq htotal⟩
  rw [Bool.not_eq_true] at hlist
  rw [evalFnc, if_neg hnull, Bool.or_assoc, hlist, if_neg (by simp [hexists])]

theorem evalFnc_alsm (types : ValueTypes V) (limit : Nat) (term : AlsmEvalTerm V) :
    exists fnc, evalFnc types limit (.evalTerm (.alsm term)) = some fnc ∧
      forall depth, fnc depth = evalAlsmTerm types term := by
  rcases term with ⟨elem, elemset, op, hop⟩
  cases elemset with
  | value fetched =>
    refine ⟨_, rfl, fun _ => ?_⟩
    cases fetched with
    | none => rfl
    | some fetched => cases fetched <;> rfl
  | listId list =>
    refine ⟨_, rfl, fun _ => ?_⟩
    cases list <;> rfl

theorem evalFnc_term {term : EvalTerm V} (h : evalEvalTerm types term ≠ .vError)
    (hexists : term.isExists = false) :
    exists fnc, evalFnc types limit (.evalTerm term) = some fnc ∧
      (¬ term.TotalOrderNull -> forall depth, fnc depth = evalEvalTerm types term) := by
  cases term with
  | comp term => exact evalFnc_comp h (by simpa [EvalTerm.isExists] using hexists)
  | alsm term =>
    rcases evalFnc_alsm types limit term with ⟨fnc, hfnc, heq⟩
    exact ⟨fnc, hfnc, fun _ => heq⟩
  | like term | rlike term => exact ⟨_, rfl, fun _ _ => rfl⟩

/-- A tree evaluates to its value in strong Kleene logic, up to the limit on the nesting;
a single term evaluates to the same value by its own routine. -/
theorem evalPred_kleene (types : ValueTypes V) (limit : Nat) (pr : PredExpr V)
    (h : pr.NoError types) :
    (forall depth, depth + pr.nesting types <= limit ->
      evalPred types limit pr depth = .ofKleene (pr.kleene types)) ∧
    (forall depth, limit < depth + pr.nesting types ->
      evalPred types limit pr depth = .vError) ∧
    forall term, pr = .evalTerm term -> term.isExists = false ->
      exists fnc, evalFnc types limit pr = some fnc ∧
        (¬ term.TotalOrderNull -> forall depth, depth <= limit ->
          fnc depth = evalPred types limit pr depth) := by
  refine ⟨fun depth hdepth => ?_, fun depth hdepth => ?_, fun term hterm hexists => ?_⟩
  · rw [evalPred_eq_answer h, answer_of_le hdepth]
  · rw [evalPred_eq_answer h, answer_of_lt hdepth]
  rw [hterm] at h ⊢
  rcases evalFnc_term h hexists with ⟨fnc, hfnc, heq⟩
  refine ⟨fnc, hfnc, fun htotal depth hdepth => ?_⟩
  rw [heq htotal depth, evalPred_eq_answer h, evalEvalTerm_kleene h]
  exact (answer_of_le hdepth _).symm

def intTypes : ValueTypes Int where
  compare v w _ := some (if v < w then .lt else if v = w then .eq else .gt)
  elements _ := none
  dbStringLike _ _ _ := .vError
  dbStringRlike _ _ _ := .vError

def compareInts (op : RelOp) (v w : Value Int) : PredExpr Int :=
  .evalTerm (.comp ⟨.value (some v), .value (some w), op⟩)

/-- The null comparison is not the last of the chain, so the rest nests. -/
theorem evalPred_kleene_chain :
    evalPred intTypes 400
      (.pred .and (compareInts .eq none (some 1)) (.pred .and (compareInts .lt (some 1) (some 2))
        (.notTerm (compareInts .null (some 3) none)))) 0 = .vUnknown :=
  (evalPred_kleene intTypes 400 _ (by decide)).1 0 (by decide)

def notChain : Nat -> PredExpr V -> PredExpr V
  | 0, pr => pr
  | n + 1, pr => .notTerm (notChain n pr)

theorem nesting_notChain (types : ValueTypes V) (n : Nat) (pr : PredExpr V) :
    (notChain n pr).nesting types = n + pr.nesting types := by
  induction n with
  | zero => exact (Nat.zero_add _).symm
  | succ n ih =>
    rw [notChain, nesting, ih]
    omega

theorem noError_notChain {pr : PredExpr V} (h : pr.NoError types) (n : Nat) :
    (notChain n pr).NoError types := by
  induction n with
  | zero => exact h
  | succ n ih => exact ih

/-- The default limit stops a chain of 401 negations, and the routine for a single
comparison does not know the total order of nulls. -/
theorem evalPred_not_kleene :
    ((notChain 401 (compareInts .null none none)).NoError intTypes ∧
      evalPred intTypes 400 (notChain 401 (compareInts .null none none)) 0 = .vError) ∧
    (evalPred intTypes 400 (compareInts .eqTorder none none) 0 = .vTrue ∧
      (evalFnc intTypes 400 (compareInts .eqTorder none none)).map (fun fnc => fnc 0) =
        some .vUnknown) := by
  have hterm : (compareInts .null none none).NoError intTypes := by
    decide
  refine ⟨⟨noError_notChain hterm 401, ?_⟩, by decide, by decide⟩
  rw [evalPred_eq_answer (noError_notChain hterm 401), nesting_notChain]
  exact answer_of_lt (by omega) _

end Rye.Query
