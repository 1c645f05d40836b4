import Mathlib.Algebra.Ring.Nat
import Rye.Foundation.Kleene

/-!
# Conjunctive normal form of search conditions

A search condition is a tree of `AND`, `OR` and `NOT` nodes over atomic
predicates.  Negations are pushed to the atoms, and the tree is then turned
into a list along `next`, each entry of which is a chain along `or_next`.

Atoms keep their operator, since a negated atom is the atom with the negated
operator where there is one.  The rest of an atom, its operands, is a parameter.
-/

namespace Rye.Parser

open Foundation List

/-- The operators of atomic predicates; those that have no negation are numbered. -/
inductive PtOpType where
  | eq
  | ne
  | gt
  | ge
  | lt
  | le
  | between
  | notBetween
  | isIn
  | isNotIn
  | like
  | notLike
  | rlike
  | notRlike
  | rlikeBinary
  | notRlikeBinary
  | isNull
  | isNotNull
  | is
  | isNot
  | other (code : Nat)
deriving DecidableEq, Repr

def ptNegateOp : PtOpType -> Option PtOpType
  | .eq => some .ne
  | .ne => some .eq
  | .gt => some .le
  | .ge => some .lt
  | .lt => some .ge
  | .le => some .gt
  | .between => some .notBetween
  | .notBetween => some .between
  | .isIn => some .isNotIn
  | .isNotIn => some .isIn
  | .like => some .notLike
  | .notLike => some .like
  | .rlike => some .notRlike
  | .notRlike => some .rlike
  | .rlikeBinary => some .notRlikeBinary
  | .notRlikeBinary => some .rlikeBinary
  | .isNull => some .isNotNull
  | .isNotNull => some .isNull
  | .is => some .isNot
  | .isNot => some .is
  | .other _ => none

inductive PtNode (A : Type) where
  | atom (op : PtOpType) (args : A)
  | not (arg1 : PtNode A)
  | and (arg1 arg2 : PtNode A)
  | or (arg1 arg2 : PtNode A)
deriving DecidableEq, Repr

section

variable {A : Type}

def PtNode.nodes : PtNode A -> Nat
  | .atom _ _ => 1
  | .not arg1 => arg1.nodes + 1
  | .and arg1 arg2 => arg1.nodes + arg2.nodes + 1
  | .or arg1 arg2 => arg1.nodes + arg2.nodes + 1

def ptNegateExpr : PtNode A -> PtNode A
  | .atom op args =>
    match ptNegateOp op with
    | some negOp => .atom negOp args
    | none => .not (.atom op args)
  | .not arg1 => arg1
  | .and arg1 arg2 => .not (.and arg1 arg2)
  | .or arg1 arg2 => .not (.or arg1 arg2)

theorem nodes_ptNegateExpr_le (node : PtNode A) : (ptNegateExpr node).nodes <= node.nodes + 1 := by
  cases node with
  | atom op args =>
    rw [ptNegateExpr]
    cases ptNegateOp op with
    | none => exact Nat.le_refl _
    | some negOp => exact Nat.le_succ _
  | not arg1 => exact Nat.le_add_right arg1.nodes 2
  | and arg1 arg2 | or arg1 arg2 => exact Nat.le_refl _

def ptAndOrForm : PtNode A -> PtNode A
  | .not (.not arg1) => ptAndOrForm arg1
  | .not (.and arg1 arg2) => .or (ptAndOrForm (ptNegateExpr arg1)) (ptAndOrForm (ptNegateExpr arg2))
  | .not (.or arg1 arg2) => .and (ptAndOrForm (ptNegateExpr arg1)) (ptAndOrForm (ptNegateExpr arg2))
  | .not (.atom op args) =>
    match ptNegateOp op with
    | some negOp => .atom negOp args
    | none => .not (.atom op args)
  | .and arg1 arg2 => .and (ptAndOrForm arg1) (ptAndOrForm arg2)
  | .or arg1 arg2 => .or (ptAndOrForm arg1) (ptAndOrForm arg2)
  | .atom op args => .atom op args
termination_by node => node.nodes
decreasing_by
  all_goals simp only [PtNode.nodes]
  any_goals have := nodes_ptNegateExpr_le arg1
  any_goals have := nodes_ptNegateExpr_le arg2
  all_goals omega

end

/-!
## The list of conjuncts
-/

inductive CnfMode where
  | orCompact
  | andOr
deriving DecidableEq, Repr

/-- A node with the chain along its `or_next`. -/
structure OrChain (A : Type) where
  head : PtNode A
  orNext : List (PtNode A)
deriving DecidableEq, Repr

/-- A list along `next`. -/
abbrev CnfList (A : Type) := List (OrChain A)

/-- What the conversion asks about a conjunct: whether it holds an input marker, whether it is
worth printing it to compare it with another one, and its text.  Texts are only compared. -/
structure CnfPrinter (A T : Type) where
  hasInputMarker : OrChain A -> Bool
  similar : OrChain A -> OrChain A -> Bool
  parserPrintTree : OrChain A -> T

/-- A product that leaves the range of `int` wraps around. -/
def countAndOr {A : Type} : PtNode A -> Int
  | .and arg1 arg2 =>
    let left := countAndOr arg1
    if left > 100 then
      left
    else
      (left + countAndOr arg2).bmod (2 ^ 32)
  | .or arg1 arg2 =>
    let left := countAndOr arg1
    if left > 100 then
      left
    else
      (left * countAndOr arg2).bmod (2 ^ 32)
  | .not _ => 1
  | .atom _ _ => 1

section

variable {A T : Type} [DecidableEq T]

def CnfPrinter.common (printer : CnfPrinter A T) (lhs rhs : OrChain A) : Bool :=
  printer.similar lhs rhs && printer.parserPrintTree lhs == printer.parserPrintTree rhs

structure Extraction (A : Type) where
  lhs : CnfList A
  rhs : CnfList A
  commonList : CnfList A

/-- The loop over the left list.  Of the right list the first conjunct with the same text is
deleted. -/
def extractCommon (printer : CnfPrinter A T) : CnfList A -> CnfList A -> Extraction A
  | [], rhs => { lhs := [], rhs := rhs, commonList := [] }
  | conj :: lhsNext, rhs =>
    if !printer.hasInputMarker conj && rhs.any (printer.common conj) then
      let rest := extractCommon printer lhsNext (rhs.eraseP (printer.common conj))
      { rest with commonList := conj :: rest.commonList }
    else
      let rest := extractCommon printer lhsNext rhs
      { rest with lhs := conj :: rest.lhs }

def OrChain.nodes (chain : OrChain A) : List (PtNode A) :=
  chain.head :: chain.orNext

def OrChain.append (chain other : OrChain A) : OrChain A :=
  { chain with orNext := chain.orNext ++ other.nodes }

/-- A chain used as a single node.  In compact mode no chain has a second node. -/
def OrChain.tree (chain : OrChain A) : PtNode A :=
  chain.orNext.foldl .or chain.head

def ptAnd (arg1 arg2 : PtNode A) : PtNode A :=
  .and arg1 arg2

/-- The conjuncts of a list put back into one `AND` tree. -/
def andTree (first : OrChain A) (next : CnfList A) : PtNode A :=
  next.foldl (fun arg1 conj => ptAnd arg1 conj.tree) first.tree

/-- Every conjunct on the left joined with every conjunct on the right. -/
def distribute (lhs rhs : CnfList A) : CnfList A :=
  lhs.flatMap (fun conj => rhs.map conj.append)

/-- An `OR` node whose arguments have become lists. -/
def transformOr (printer : CnfPrinter A T) (mode : CnfMode) (arg1 arg2 : CnfList A) : CnfList A :=
  let found := extractCommon printer arg1 arg2
  match found.lhs, found.rhs with
  | lhs :: lhsNext, rhs :: rhsNext =>
    match mode with
    | .orCompact =>
      found.commonList ++
        [{ head := .or (andTree lhs lhsNext) (andTree rhs rhsNext), orNext := [] }]
    | .andOr => found.commonList ++ distribute (lhs :: lhsNext) (rhs :: rhsNext)
  -- fully compacted: A and B or A is A
  | _, _ => found.commonList

/-- The walk over the tree; `NOT` is left over atoms only when it starts. -/
def ptTransformCnf (printer : CnfPrinter A T) (mode : CnfMode) : PtNode A -> CnfList A
  | .and arg1 arg2 => ptTransformCnf printer mode arg1 ++ ptTransformCnf printer mode arg2
  | .or arg1 arg2 =>
    transformOr printer mode (ptTransformCnf printer mode arg1) (ptTransformCnf printer mode arg2)
  | .not arg1 => [{ head := .not arg1, orNext := [] }]
  | .atom op args => [{ head := .atom op args, orNext := [] }]

/-- An entry of the list given to the conversion: a condition, or a conjunct that a former
conversion or constant folding has left. -/
inductive CnfInput (A : Type) where
  | condition (node : PtNode A)
  | done (conj : OrChain A)

def cnfMode (node : PtNode A) : CnfMode :=
  if countAndOr node > 100 then
    .orCompact
  else
    .andOr

def ptCnf (printer : CnfPrinter A T) : List (CnfInput A) -> CnfList A
  | [] => []
  | .done conj :: next => conj :: ptCnf printer next
  | .condition node :: next =>
    ptTransformCnf printer (cnfMode (ptAndOrForm node)) (ptAndOrForm node) ++ ptCnf printer next

end

/-!
## Truth values
-/

section

variable {A T : Type} (truth : PtOpType -> A -> Kleene)

def PtNode.value : PtNode A -> Kleene
  | .atom op args => truth op args
  | .not arg1 => arg1.value.not
  | .and arg1 arg2 => arg1.value.and arg2.value
  | .or arg1 arg2 => arg1.value.or arg2.value

def OrChain.value (chain : OrChain A) : Kleene :=
  Kleene.disj (chain.nodes.map (PtNode.value truth))

def CnfList.value (list : CnfList A) : Kleene :=
  Kleene.conj (list.map (OrChain.value truth))

def CnfInput.value : CnfInput A -> Kleene
  | .condition node => node.value truth
  | .done conj => conj.value truth

/-- The operators negate as three-valued negation does. -/
def NegatesOps : Prop :=
  forall op negOp args, ptNegateOp op = some negOp -> truth negOp args = (truth op args).not

/-- Conjuncts with the same text have the same truth value. -/
def TextDecides (printer : CnfPrinter A T) : Prop :=
  forall lhs rhs, printer.parserPrintTree lhs = printer.parserPrintTree rhs ->
    OrChain.value truth lhs = OrChain.value truth rhs

end

section

variable {A : Type} {truth : PtOpType -> A -> Kleene}

section

variable (hneg : NegatesOps truth)
include hneg

theorem value_negatedAtom (op : PtOpType) (args : A) :
    PtNode.value truth
      (match ptNegateOp op with
        | some negOp => .atom negOp args
        | none => .not (.atom op args)) = (truth op args).not := by
  cases hop : ptNegateOp op with
  | none => rfl
  | some negOp => exact hneg op negOp args hop

theorem value_ptNegateExpr (node : PtNode A) :
    (ptNegateExpr node).value truth = (node.value truth).not := by
  cases node with
  | atom op args => exact value_negatedAtom hneg op args
  | not arg1 => exact (Kleene.not_not _).symm
  | and arg1 arg2 | or arg1 arg2 => rfl

theorem value_ptAndOrForm (node : PtNode A) :
    (ptAndOrForm node).value truth = node.value truth := by
  fun_induction ptAndOrForm node with
  | case1 arg1 ih =>
    rw [ih]
    exact (Kleene.not_not _).symm
  | case2 arg1 arg2 ih1 ih2 =>
    simp only [PtNode.value, ih1, ih2, value_ptNegateExpr hneg, Kleene.not_and]
  | case3 arg1 arg2 ih1 ih2 =>
    simp only [PtNode.value, ih1, ih2, value_ptNegateExpr hneg, Kleene.not_or]
  | case4 op args negOp hop => exact hneg op negOp args hop
  | case5 op args hop => rfl
  | case6 arg1 arg2 ih1 ih2 | case7 arg1 arg2 ih1 ih2 => simp only [PtNode.value, ih1, ih2]
  | case8 op args => rfl

end

end

/-!
## The conversion keeps the truth value
-/

section

variable {A : Type} (truth : PtOpType -> A -> Kleene)

theorem CnfList.value_cons (conj : OrChain A) (list : CnfList A) :
    CnfList.value truth (conj :: list) = (conj.value truth).and (CnfList.value truth list) :=
  rfl

theorem CnfList.value_append (list other : CnfList A) :
    CnfList.value truth (list ++ other) =
      (CnfList.value truth list).and (CnfList.value truth other) := by
  rw [CnfList.value, map_append, Kleene.conj_append]
  rfl

theorem OrChain.value_append (chain other : OrChain A) :
    (chain.append other).value truth = (chain.value truth).or (other.value truth) := by
  have hnodes : (chain.append other).nodes = chain.nodes ++ other.nodes := rfl
  rw [OrChain.value, hnodes, map_append, Kleene.disj_append]
  rfl

theorem OrChain.value_single (node : PtNode A) :
    OrChain.value truth { head := node, orNext := [] } = node.value truth :=
  Kleene.or_false _

theorem OrChain.value_tree (chain : OrChain A) : chain.tree.value truth = chain.value truth := by
  obtain ⟨head, orNext⟩ := chain
  induction orNext generalizing head with
  | nil => exact (OrChain.value_single truth head).symm
  | cons next rest ih => exact (ih (.or head next)).trans (Kleene.or_assoc _ _ _)

theorem value_andTree (first : OrChain A) (next : CnfList A) :
    (andTree first next).value truth = CnfList.value truth (first :: next) := by
  have hfold : forall tree : PtNode A,
      (next.foldl (fun arg1 conj => ptAnd arg1 conj.tree) tree).value truth =
        (tree.value truth).and (CnfList.value truth next) := by
    induction next with
    | nil =>
      intro tree
      exact (Kleene.and_true _).symm
    | cons conj rest ih =>
      intro tree
      rw [foldl_cons, ih, CnfList.value_cons, ← Kleene.and_assoc, ← OrChain.value_tree]
      rfl
  rw [andTree, hfold, OrChain.value_tree, CnfList.value_cons]

theorem value_map_append (conj : OrChain A) (rhs : CnfList A) :
    CnfList.value truth (rhs.map conj.append) =
      (conj.value truth).or (CnfList.value truth rhs) := by
  induction rhs with
  | nil => exact (Kleene.or_true _).symm
  | cons other rest ih =>
    rw [map_cons, CnfList.value_cons, CnfList.value_cons, ih, OrChain.value_append,
      Kleene.or_and_distrib_left]

theorem value_distribute (lhs rhs : CnfList A) :
    CnfList.value truth (distribute lhs rhs) =
      (CnfList.value truth lhs).or (CnfList.value truth rhs) := by
  induction lhs with
  | nil => exact (Kleene.true_or _).symm
  | cons conj rest ih =>
    rw [distribute, flatMap_cons, CnfList.value_append, value_map_append, ← distribute, ih,
      CnfList.value_cons, Kleene.or_and_distrib_right]

end

section

variable {A T : Type} [DecidableEq T] {truth : PtOpType -> A -> Kleene} {printer : CnfPrinter A T}

section

variable (htext : TextDecides truth printer)
include htext

theorem value_eraseP_common {conj : OrChain A} {rhs : CnfList A}
    (hany : rhs.any (printer.common conj) = true) :
    CnfList.value truth rhs =
      (conj.value truth).and (CnfList.value truth (rhs.eraseP (printer.common conj))) := by
  induction rhs with
  | nil => exact absurd hany Bool.false_ne_true
  | cons other rest ih =>
    cases hcommon : printer.common conj other with
    | true =>
      rw [eraseP_cons_of_pos hcommon, CnfList.value_cons]
      rw [CnfPrinter.common, Bool.and_eq_true, beq_iff_eq] at hcommon
      rw [htext conj other hcommon.2]
    | false =>
      have hrest : rest.any (printer.common conj) = true := by
        rw [any_cons, hcommon, Bool.false_or] at hany
        exact hany
      rw [eraseP_cons_of_neg (Bool.eq_false_iff.mp hcommon), CnfList.value_cons,
        CnfList.value_cons, ih hrest, Kleene.and_left_comm]

theorem extractCommon_value (lhs rhs : CnfList A) :
    CnfList.value truth lhs = (CnfList.value truth (extractCommon printer lhs rhs).commonList).and
          (CnfList.value truth (extractCommon printer lhs rhs).lhs) ∧
      CnfList.value truth rhs = (CnfList.value truth (extractCommon printer lhs rhs).commonList).and
          (CnfList.value truth (extractCommon printer lhs rhs).rhs) := by
  induction lhs generalizing rhs with
  | nil =>
    constructor
    · rfl
    · exact (Kleene.true_and _).symm
  | cons conj rest ih =>
    rw [extractCommon]
    split
    · rename_i hfound
      rw [Bool.and_eq_true] at hfound
      obtain ⟨hlhs, hrhs⟩ := ih (rhs.eraseP (printer.common conj))
      constructor
      · rw [CnfList.value_cons, CnfList.value_cons, Kleene.and_assoc, ← hlhs]
      · rw [value_eraseP_common htext hfound.2, CnfList.value_cons, Kleene.and_assoc, ← hrhs]
    · obtain ⟨hlhs, hrhs⟩ := ih rhs
      constructor
      · rw [CnfList.value_cons, CnfList.value_cons, Kleene.and_left_comm, ← hlhs]
      · exact hrhs

theorem value_transformOr (mode : CnfMode) (arg1 arg2 : CnfList A) :
    CnfList.value truth (transformOr printer mode arg1 arg2) =
      (CnfList.value truth arg1).or (CnfList.value truth arg2) := by
  obtain ⟨harg1, harg2⟩ := extractCommon_value htext arg1 arg2
  rw [harg1, harg2, Kleene.and_or_distrib, transformOr]
  generalize extractCommon printer arg1 arg2 = found
  obtain ⟨lhs, rhs, commonList⟩ := found
  cases lhs with
  | nil => exact ((congrArg _ (Kleene.true_or _)).trans (Kleene.and_true _)).symm
  | cons conj lhsNext =>
    cases rhs with
    | nil => exact ((congrArg _ (Kleene.or_true _)).trans (Kleene.and_true _)).symm
    | cons other rhsNext =>
      cases mode with
      | orCompact =>
        rw [CnfList.value_append, CnfList.value_cons, OrChain.value_single, PtNode.value,
          value_andTree, value_andTree]
        exact congrArg _ (Kleene.and_true _)
      | andOr => rw [CnfList.value_append, value_distribute]

theorem value_ptTransformCnf (mode : CnfMode) (node : PtNode A) :
    CnfList.value truth (ptTransformCnf printer mode node) = node.value truth := by
  induction node with
  | atom op args | not arg1 => exact (Kleene.and_true _).trans (OrChain.value_single truth _)
  | and arg1 arg2 ih1 ih2 => rw [ptTransformCnf, CnfList.value_append, ih1, ih2, PtNode.value]
  | or arg1 arg2 ih1 ih2 => rw [ptTransformCnf, value_transformOr htext, ih1, ih2, PtNode.value]

end

theorem value_ptCnf (hneg : NegatesOps truth) (htext : TextDecides truth printer)
    (inputs : List (CnfInput A)) :
    CnfList.value truth (ptCnf printer inputs) =
      Kleene.conj (inputs.map (CnfInput.value truth)) := by
  induction inputs with
  | nil => rfl
  | cons input next ih =>
    rw [map_cons, Kleene.conj_cons, ← ih]
    cases input with
    | done conj => rfl
    | condition node =>
      rw [ptCnf, CnfList.value_append, value_ptTransformCnf htext, value_ptAndOrForm hneg]
      rfl

end

/-!
## The shape of the result
-/

section

variable {A T : Type} [DecidableEq T]

/-- An atom, or the negation of an atom whose operator has no negation of its own. -/
inductive PtNode.IsLiteral : PtNode A -> Prop where
  | atom (op : PtOpType) (args : A) : (PtNode.atom op args).IsLiteral
  | not {op : PtOpType} (args : A) (hop : ptNegateOp op = none) :
      (PtNode.not (.atom op args)).IsLiteral

inductive PtNode.IsAndOr : PtNode A -> Prop where
  | literal {node : PtNode A} (hnode : node.IsLiteral) : node.IsAndOr
  | and {arg1 arg2 : PtNode A} (h1 : arg1.IsAndOr) (h2 : arg2.IsAndOr) : (arg1.and arg2).IsAndOr
  | or {arg1 arg2 : PtNode A} (h1 : arg1.IsAndOr) (h2 : arg2.IsAndOr) : (arg1.or arg2).IsAndOr

theorem isAndOr_ptAndOrForm (node : PtNode A) : (ptAndOrForm node).IsAndOr := by
  fun_induction ptAndOrForm node with
  | case1 arg1 ih => exact ih
  | case2 arg1 arg2 ih1 ih2 => exact .or ih1 ih2
  | case3 arg1 arg2 ih1 ih2 => exact .and ih1 ih2
  | case4 op args negOp hop => exact .literal (.atom negOp args)
  | case5 op args hop => exact .literal (.not args hop)
  | case6 arg1 arg2 ih1 ih2 => exact .and ih1 ih2
  | case7 arg1 arg2 ih1 ih2 => exact .or ih1 ih2
  | case8 op args => exact .literal (.atom op args)

def CnfList.IsFlat (list : CnfList A) : Prop :=
  forall conj, conj ∈ list -> forall node, node ∈ conj.nodes -> node.IsLiteral

theorem CnfList.IsFlat.append {list other : CnfList A} (hlist : IsFlat list)
    (hother : IsFlat other) : IsFlat (list ++ other) := by
  intro conj hconj
  cases mem_append.mp hconj with
  | inl hmem => exact hlist conj hmem
  | inr hmem => exact hother conj hmem

theorem CnfList.IsFlat.distribute {lhs rhs : CnfList A} (hlhs : IsFlat lhs) (hrhs : IsFlat rhs) :
    IsFlat (distribute lhs rhs) := by
  intro conj hconj node hnode
  obtain ⟨left, hleft, hmap⟩ := mem_flatMap.mp hconj
  obtain ⟨right, hright, heq⟩ := mem_map.mp hmap
  rw [← heq] at hnode
  have hnodes : node ∈ left.nodes ++ right.nodes := hnode
  cases mem_append.mp hnodes with
  | inl hmem => exact hlhs left hleft node hmem
  | inr hmem => exact hrhs right hright node hmem

variable (printer : CnfPrinter A T)

theorem extractCommon_subset (lhs rhs : CnfList A) :
    (extractCommon printer lhs rhs).lhs ⊆ lhs ∧ (extractCommon printer lhs rhs).rhs ⊆ rhs ∧
      (extractCommon printer lhs rhs).commonList ⊆ lhs := by
  induction lhs generalizing rhs with
  | nil => exact ⟨List.Subset.refl _, List.Subset.refl _, List.Subset.refl _⟩
  | cons conj rest ih =>
    rw [extractCommon]
    split
    · obtain ⟨hlhs, hrhs, hcommon⟩ := ih (rhs.eraseP (printer.common conj))
      exact ⟨subset_cons_of_subset _ hlhs, fun _ hmem => eraseP_subset (hrhs hmem),
        cons_subset_cons _ hcommon⟩
    · obtain ⟨hlhs, hrhs, hcommon⟩ := ih rhs
      exact ⟨cons_subset_cons _ hlhs, hrhs, subset_cons_of_subset _ hcommon⟩

theorem isFlat_transformOr {arg1 arg2 : CnfList A} (harg1 : CnfList.IsFlat arg1)
    (harg2 : CnfList.IsFlat arg2) : CnfList.IsFlat (transformOr printer .andOr arg1 arg2) := by
  obtain ⟨hlhs, hrhs, hcommon⟩ := extractCommon_subset printer arg1 arg2
  have hflat : CnfList.IsFlat (extractCommon printer arg1 arg2).commonList :=
    fun conj hconj => harg1 conj (hcommon hconj)
  rw [transformOr]
  split
  · rename_i hlhsEq hrhsEq
    rw [← hlhsEq, ← hrhsEq]
    exact hflat.append (CnfList.IsFlat.distribute (fun conj hconj => harg1 conj (hlhs hconj))
      (fun conj hconj => harg2 conj (hrhs hconj)))
  · exact hflat

theorem isFlat_ptTransformCnf {node : PtNode A} (hnode : node.IsAndOr) :
    CnfList.IsFlat (ptTransformCnf printer .andOr node) := by
  induction hnode with
  | literal hliteral =>
    cases hliteral <;>
    · intro conj hconj node hnode
      rw [mem_singleton.mp hconj] at hnode
      rw [mem_singleton.mp hnode]
      constructor
      try assumption
  | and h1 h2 ih1 ih2 => exact ih1.append ih2
  | or h1 h2 ih1 ih2 => exact isFlat_transformOr printer ih1 ih2

end

/-- A truth assignment for atoms that carry the value of their comparison. -/
def comparisonTruth : PtOpType -> Kleene -> Kleene
  | .eq, value => value
  | .ne, value => value.not
  | _, _ => .unknown

theorem negatesOps_comparisonTruth : NegatesOps comparisonTruth := by
  intro op negOp value hop
  cases op with
  | ne =>
    cases hop
    exact (Kleene.not_not value).symm
  | _ => cases hop <;> rfl

section

variable {A T : Type} [DecidableEq T]

/-- The conjuncts of a tree when every `OR` is distributed. -/
def PtNode.conjuncts : PtNode A -> Nat
  | .and arg1 arg2 => arg1.conjuncts + arg2.conjuncts
  | .or arg1 arg2 => arg1.conjuncts * arg2.conjuncts
  | .not _ => 1
  | .atom _ _ => 1

/-- Full distribution is chosen for short lists only. -/
def CnfBounded (node : PtNode A) : Prop :=
  cnfMode (ptAndOrForm node) = .andOr ->
    forall (T : Type) [DecidableEq T] (printer : CnfPrinter A T),
      (ptCnf printer [.condition node]).length <= 100

variable (printer : CnfPrinter A T)

theorem length_extractCommon (lhs rhs : CnfList A) :
    let found := extractCommon printer lhs rhs
    found.lhs.length + found.commonList.length = lhs.length ∧
      found.rhs.length + found.commonList.length = rhs.length := by
  induction lhs generalizing rhs with
  | nil => exact ⟨rfl, rfl⟩
  | cons conj rest ih =>
    rw [extractCommon]
    split
    · rename_i hfound
      rw [Bool.and_eq_true, any_eq_true] at hfound
      obtain ⟨other, hmem, hcommon⟩ := hfound.2
      have herase := length_eraseP_of_mem hmem hcommon
      have hpos := length_pos_of_mem hmem
      obtain ⟨hlhs, hrhs⟩ := ih (rhs.eraseP (printer.common conj))
      simp only [length_cons]
      omega
    · obtain ⟨hlhs, hrhs⟩ := ih rhs
      simp only [length_cons]
      omega

theorem length_distribute (lhs rhs : CnfList A) :
    (distribute lhs rhs).length = lhs.length * rhs.length := by
  simp [distribute, length_flatMap]

theorem common_add_mul_le (lhs : Nat) {rhs common : Nat} (h : 0 < rhs + common) :
    common + lhs * rhs <= (lhs + common) * (rhs + common) := by
  have hlhs := Nat.mul_le_mul_left lhs (Nat.le_add_right rhs common)
  have hcommon := Nat.mul_le_mul_left common h
  rw [Nat.add_mul]
  omega

theorem length_transformOr {arg1 arg2 : CnfList A} (h1 : 0 < arg1.length) (h2 : 0 < arg2.length) :
    0 < (transformOr printer .andOr arg1 arg2).length ∧
      (transformOr printer .andOr arg1 arg2).length <= arg1.length * arg2.length := by
  obtain ⟨hlhs, hrhs⟩ := length_extractCommon printer arg1 arg2
  rw [← hlhs] at h1 ⊢
  rw [← hrhs] at h2 ⊢
  rw [transformOr]
  generalize extractCommon printer arg1 arg2 = found at h1 h2 ⊢
  obtain ⟨lhs, rhs, commonList⟩ := found
  have hle := common_add_mul_le lhs.length h2
  cases lhs with
  | nil => exact ⟨by simpa using h1, Nat.le_trans (Nat.le_add_right _ _) hle⟩
  | cons conj lhsNext =>
    cases rhs with
    | nil => exact ⟨by simpa using h2, Nat.le_trans (Nat.le_add_right _ _) hle⟩
    | cons other rhsNext =>
      simp only [length_append, length_distribute]
      exact ⟨Nat.add_pos_right _ (Nat.mul_pos (Nat.succ_pos _) (Nat.succ_pos _)), hle⟩

variable (node : PtNode A)

theorem length_ptTransformCnf :
    0 < (ptTransformCnf printer .andOr node).length ∧
      (ptTransformCnf printer .andOr node).length <= node.conjuncts := by
  induction node with
  | atom op args | not arg1 => exact ⟨Nat.one_pos, Nat.le_refl 1⟩
  | and arg1 arg2 ih1 ih2 =>
    rw [ptTransformCnf, length_append, PtNode.conjuncts]
    omega
  | or arg1 arg2 ih1 ih2 =>
    obtain ⟨hpos, hle⟩ := length_transformOr printer ih1.1 ih2.1
    exact ⟨hpos, Nat.le_trans hle (Nat.mul_le_mul ih1.2 ih2.2)⟩

/-- Nothing is extracted from conditions with input markers. -/
def markedPrinter (A : Type) : CnfPrinter A Unit :=
  { hasInputMarker := fun _ => true, similar := fun _ _ => true, parserPrintTree := fun _ => () }

theorem extractCommon_marked (lhs rhs : CnfList A) :
    extractCommon (markedPrinter A) lhs rhs = { lhs := lhs, rhs := rhs, commonList := [] } := by
  induction lhs with
  | nil => rfl
  | cons conj rest ih =>
    rw [extractCommon, ih]
    rfl

theorem transformOr_marked (arg1 arg2 : CnfList A) :
    transformOr (markedPrinter A) .andOr arg1 arg2 = distribute arg1 arg2 := by
  rw [transformOr, extractCommon_marked]
  cases arg1 with
  | nil => rfl
  | cons lhs lhsNext =>
    cases arg2 with
    | nil => simp [distribute]
    | cons rhs rhsNext => rfl

theorem length_ptTransformCnf_marked :
    (ptTransformCnf (markedPrinter A) .andOr node).length = node.conjuncts := by
  induction node with
  | atom op args | not arg1 => rfl
  | and arg1 arg2 ih1 ih2 => rw [ptTransformCnf, length_append, ih1, ih2, PtNode.conjuncts]
  | or arg1 arg2 ih1 ih2 =>
    rw [ptTransformCnf, transformOr_marked, length_distribute, ih1, ih2, PtNode.conjuncts]

theorem cnfMode_eq_andOr_iff : cnfMode node = .andOr <-> countAndOr node <= 100 := by
  rw [cnfMode, ← Int.not_lt]
  split <;> simp_all

end

/-- An `OR` nested to the right of `n + 1` pairs. -/
def orOfPairs : Nat -> PtNode Unit
  | 0 => .and (.atom .eq ()) (.atom .eq ())
  | n + 1 => .or (.and (.atom .eq ()) (.atom .eq ())) (orOfPairs n)

theorem ptAndOrForm_orOfPairs (n : Nat) : ptAndOrForm (orOfPairs n) = orOfPairs n := by
  induction n with
  | zero => simp [orOfPairs, ptAndOrForm]
  | succ n ih => simp [orOfPairs, ptAndOrForm, ih]

theorem conjuncts_orOfPairs (n : Nat) : (orOfPairs n).conjuncts = 2 ^ (n + 1) := by
  induction n with
  | zero => rfl
  | succ n ih =>
    rw [orOfPairs, PtNode.conjuncts, ih]
    exact Nat.pow_succ'.symm

end Rye.Parser
