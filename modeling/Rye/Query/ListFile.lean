import Mathlib.Data.List.Forall2
import Mathlib.Data.Prod.Lex
import Mathlib.Order.WithBot
import Rye.Base.Comparison

/-!
# Set operations on list files

`qfile_combine_two_list` sorts its two lists, each by the domains of its own columns, and merges
them with the domains of the left one.  `qfile_unify_types` lets two `VARCHAR` columns pass
whatever their collations are.

The tuples of a list are its contents here; `sort_listfile` stands for any way of sorting.
-/

namespace Rye.Query.ListFile

open Base Foundation Foundation.SortedMerge

inductive DbType where
  | null
  | variable
  | integer
  | bigint
  | double
  | numeric
  | date
  | time
  | datetime
  | varchar
  | varbit
  | oid
deriving DecidableEq, Repr

structure TpDomain where
  type : DbType
  precision : Nat
  scale : Nat
  collationId : LangColl
deriving DecidableEq, Repr

/-- A value that is not NULL.  A `NUMERIC` is the integer in its buffer, which is read with the
scale of the domain; a `DOUBLE` is its place in the order of the doubles, or not a number. -/
inductive Datum where
  | integer (i : Int)
  | bigint (i : Int)
  | double (d : Option Int)
  | numeric (num : Int)
  | date (d : Nat)
  | time (t : Nat)
  | datetime (date time : Nat)
  | varchar (str : List Nat)
  | varbit (bytes : List Nat)
  | oid (volid pageid slotid : Int)
deriving DecidableEq, Repr

namespace Datum

def type : Datum -> DbType
  | .integer _ => .integer
  | .bigint _ => .bigint
  | .double _ => .double
  | .numeric _ => .numeric
  | .date _ => .date
  | .time _ => .time
  | .datetime _ _ => .datetime
  | .varchar _ => .varchar
  | .varbit _ => .varbit
  | .oid _ _ _ => .oid

end Datum

def mrCmp (d1 d2 : Int) : Int :=
  if d1 < d2 then -1 else if d1 > d2 then 1 else 0

def mrCmpThen (c rest : Int) : Int :=
  if c = 0 then rest else c

def varbitCompare : List Nat -> List Nat -> Int
  | a :: s, b :: t => if (a : Int) - b ≠ 0 then (a : Int) - b else varbitCompare s t
  | s, t => (s.length : Int) - t.length

/-- `cmpval` of the type, and `data_cmpdisk`, which reads the two values first. -/
def Datum.cmpval (collation : LangColl) : Datum -> Datum -> Int
  | .integer i1, .integer i2 | .bigint i1, .bigint i2 | .numeric i1, .numeric i2 => mrCmp i1 i2
  | .double (some d1), .double (some d2) => mrCmp d1 d2
  | .double _, .double _ => 0
  | .date d1, .date d2 | .time d1, .time d2 => mrCmp d1 d2
  | .datetime d1 t1, .datetime d2 t2 => mrCmpThen (mrCmp d1 d2) (mrCmp t1 t2)
  | .varchar s1, .varchar s2 => (collation.fastcmp s1 s2).sign
  | .varbit b1, .varbit b2 => (varbitCompare b1 b2).sign
  | .oid v1 p1 s1, .oid v2 p2 s2 => mrCmpThen (mrCmp v1 v2) (mrCmpThen (mrCmp p1 p2) (mrCmp s1 s2))
  | _, _ => -2

abbrev Tuple := List (Option Datum)

/-- Two NULLs are equal, and NULL is less than any other value. -/
def qfileCompareTupleValues (domain : TpDomain) : Option Datum -> Option Datum -> Int
  | none, none => 0
  | none, some _ => -1
  | some _, none => 1
  | some d1, some d2 => d1.cmpval domain.collationId d2

def qfileCompareTupleHelper : List TpDomain -> Tuple -> Tuple -> Int
  | domain :: types, v :: lhs, w :: rhs =>
    mrCmpThen (qfileCompareTupleValues domain v w) (qfileCompareTupleHelper types lhs rhs)
  | _, _, _ => 0

/-- The order in which a list is sorted: NULLs first, and every column ascending. -/
def qfileCompareAllSortRecord : List TpDomain -> Tuple -> Tuple -> Int :=
  qfileCompareTupleHelper

def DbType.isUnknown : DbType -> Bool
  | .null | .variable => true
  | _ => false

def unifyDomain (dom1 dom2 : TpDomain) : Option TpDomain :=
  if dom1.type.isUnknown then some dom2
  else if dom2.type.isUnknown then some dom1
  else if dom1 = dom2 then some dom1
  else if dom1.type = dom2.type ∧ dom1.type = .varchar then some dom1
  else if dom1.type = dom2.type ∧ dom1.type = .numeric ∧ dom1.scale = dom2.scale then some dom1
  else none

def qfileUnifyTypes : List TpDomain -> List TpDomain -> Option (List TpDomain)
  | dom1 :: types1, dom2 :: types2 => do
    let dom <- unifyDomain dom1 dom2
    let types <- qfileUnifyTypes types1 types2
    return dom :: types
  | types1, _ => some types1

inductive Operator where
  | union
  | difference
  | intersect
deriving DecidableEq, Repr

/-- `SORT_ELIM_DUP` keeps one of several equal tuples. -/
def qfileSortList (types : List TpDomain) (distinct : Bool) (list : List Tuple) : List Tuple :=
  let cmp := qfileCompareAllSortRecord types
  if distinct then heads cmp (sort cmp list) else sort cmp list

/-- The tuples at which `qfile_advance` stops. -/
def qfileAdvance (types : List TpDomain) (distinct : Bool) (list : List Tuple) : List Tuple :=
  if distinct then heads (qfileCompareTupleHelper types) list else list

def qfileCombineTwoList (types1 types2 : List TpDomain) (op : Operator) (distinct : Bool)
    (lhs rhs : List Tuple) : List Tuple :=
  if op = .union ∧ distinct = false then lhs ++ rhs
  else
    merge (qfileCompareTupleHelper types1) (op != .intersect) (op == .union) (op != .difference)
      (qfileAdvance types1 distinct (qfileSortList types1 distinct lhs))
      (qfileAdvance types2 distinct (qfileSortList types2 distinct rhs))

/-- How often a tuple is in the result, by the definition of the operation. -/
def Operator.count (distinct : Bool) (m n : Nat) : Operator -> Nat
  | .union => if distinct then min 1 (m + n) else m + n
  | .difference => if distinct then min 1 m - min 1 n else m - n
  | .intersect => if distinct then min 1 (min m n) else min m n

/-!
## The order of the tuples
-/

/-- Only a double can be no number, and only a string can have code points out of range. -/
def Datum.Ordered : Datum -> Prop
  | .double d => d ≠ none
  | .varchar str => forall c, c ∈ str -> c <= maxBoundChr
  | _ => True

def Fits : List TpDomain -> Tuple -> Prop :=
  List.Forall₂ fun domain v => forall d, v = some d -> d.type = domain.type ∧ d.Ordered

abbrev Key := Lex (List Nat × List Int)

def Datum.key (collation : LangColl) : Datum -> Key
  | .integer i | .bigint i | .numeric i => toLex ([], [i])
  | .double d => toLex ([], d.toList)
  | .date d | .time d => toLex ([d], [])
  | .datetime d t => toLex ([d, t], [])
  | .varchar str => toLex (WeightOrder.significant collation.weight str, [])
  | .varbit bytes => toLex (bytes, [])
  | .oid volid pageid slotid => toLex ([], [volid, pageid, slotid])

def rankValue (domain : TpDomain) : Option Datum -> WithBot Key
  | none => ⊥
  | some d => (d.key domain.collationId : Key)

def rank (types : List TpDomain) (t : Tuple) : List (WithBot Key) :=
  List.zipWith rankValue types t

theorem mrCmp_neg_iff (a b : Int) : mrCmp a b < 0 <-> a < b := by
  unfold mrCmp
  split_ifs <;> simp_all

theorem mrCmp_eq_zero_iff (a b : Int) : mrCmp a b = 0 <-> a = b := by
  unfold mrCmp
  split_ifs <;> simp_all <;> omega

theorem mrCmpThen_neg_iff (c rest : Int) : mrCmpThen c rest < 0 <-> c < 0 ∨ c = 0 ∧ rest < 0 := by
  unfold mrCmpThen
  split_ifs <;> simp_all

theorem mrCmpThen_eq_zero_iff (c rest : Int) : mrCmpThen c rest = 0 <-> c = 0 ∧ rest = 0 := by
  unfold mrCmpThen
  split_ifs <;> simp_all

theorem varbitCompare_ranks (s t : List Nat) : Ranks id varbitCompare s t := by
  induction s generalizing t with
  | nil =>
    cases t <;> simp [Ranks, varbitCompare]
    omega
  | cons a s ih =>
    cases t with
    | nil =>
      simp [Ranks, varbitCompare]
      omega
    | cons b t =>
      have ih := ih t
      simp only [Ranks, id, varbitCompare, List.cons_lt_cons_iff, List.cons.injEq] at ih ⊢
      split_ifs <;> grind

open Datum

theorem Datum.cmpval_ranks {coll coll' : LangColl} {d1 d2 : Datum} (htype : d1.type = d2.type)
    (h1 : d1.Ordered) (h2 : d2.Ordered) (hcoll : d1.type = .varchar -> coll.Alike coll') :
    Ranks (key coll') (cmpval coll) d1 d2 := by
  cases d1 <;> cases d2 <;> cases htype
  case varchar.varchar.refl s1 s2 =>
    have hranks := coll.fastcmp_ranks h1 h2
    rw [(hcoll rfl).weight_eq] at hranks
    simpa [Ranks, key, cmpval, Prod.Lex.toLex_lt_toLex] using hranks
  case varbit.varbit.refl b1 b2 =>
    simpa [Ranks, key, cmpval, Prod.Lex.toLex_lt_toLex] using varbitCompare_ranks b1 b2
  case double.double.refl d1 d2 =>
    obtain ⟨d1, rfl⟩ := Option.ne_none_iff_exists'.mp h1
    obtain ⟨d2, rfl⟩ := Option.ne_none_iff_exists'.mp h2
    simp [Ranks, key, cmpval, Prod.Lex.toLex_lt_toLex, List.cons_lt_cons_iff,
      mrCmp_neg_iff, mrCmp_eq_zero_iff]
  all_goals
    simp [Ranks, key, cmpval, Prod.Lex.toLex_lt_toLex, List.cons_lt_cons_iff,
      mrCmp_neg_iff, mrCmp_eq_zero_iff, mrCmpThen_neg_iff, mrCmpThen_eq_zero_iff,
      Int.natCast_inj]

/-- The values of a tuple have the types of `us`, and where a column holds strings, its domain
in `types` orders them as that in `us` does. -/
inductive Columns : List TpDomain -> List TpDomain -> Tuple -> Prop where
  | nil : Columns [] [] []
  | cons {domain u : TpDomain} {v : Option Datum} {types us : List TpDomain} {t : Tuple}
      (hv : forall d, v = some d -> d.type = u.type ∧ d.Ordered ∧
        (d.type = .varchar -> domain.collationId.Alike u.collationId))
      (h : Columns types us t) : Columns (domain :: types) (u :: us) (v :: t)

variable {types us : List TpDomain} {dom1 dom2 : TpDomain} {types1 types2 : List TpDomain} {i : Nat}

theorem Columns.ranks {types' : List TpDomain} {t t' : Tuple} (h : Columns types us t)
    (h' : Columns types' us t') : Ranks (rank us) (qfileCompareTupleHelper types) t t' := by
  induction h generalizing types' t' with
  | nil =>
    cases h'
    simp [Ranks, rank, qfileCompareTupleHelper]
  | @cons domain u v types us t hv h ih =>
    cases h' with
    | @cons domain' _ w _ _ t' hw h' =>
      have hvalue : Ranks (rankValue u) (qfileCompareTupleValues domain) v w := by
        cases v with
        | none => cases w <;> simp [Ranks, rankValue, qfileCompareTupleValues]
        | some d1 =>
          cases w with
          | none => simp [Ranks, rankValue, qfileCompareTupleValues]
          | some d2 =>
            have hd1 := hv d1 rfl
            have hd2 := hw d2 rfl
            have hranks := cmpval_ranks (hd1.1.trans hd2.1.symm) hd1.2.1 hd2.2.1 hd1.2.2
            simpa [Ranks, rankValue, qfileCompareTupleValues] using hranks
      have hrest := ih h'
      unfold Ranks at hvalue hrest ⊢
      simp only [rank, List.zipWith_cons_cons] at hrest ⊢
      rw [qfileCompareTupleHelper, mrCmpThen_neg_iff, mrCmpThen_eq_zero_iff, hvalue.1, hvalue.2,
        hrest.1, hrest.2, List.cons_lt_cons_iff, List.cons.injEq]
      exact ⟨Iff.rfl, Iff.rfl⟩

def CollateAlike (dom1 dom2 : TpDomain) : Prop :=
  dom1.type = .varchar -> dom2.type = .varchar -> dom1.collationId.Alike dom2.collationId

theorem Datum.type_ne_unknown (d : Datum) : d.type.isUnknown = false := by
  cases d <;> rfl

theorem unifyDomain_fits {u : TpDomain} (h : unifyDomain dom1 dom2 = some u)
    (hcoll : CollateAlike dom1 dom2) (d : Datum) :
    (d.type = dom1.type -> d.type = u.type ∧
      (d.type = .varchar -> dom1.collationId.Alike u.collationId)) ∧
    (d.type = dom2.type -> d.type = u.type ∧
      (d.type = .varchar -> dom2.collationId.Alike u.collationId)) := by
  have hknown := d.type_ne_unknown
  unfold unifyDomain at h
  unfold CollateAlike LangColl.Alike at *
  grind

theorem unify_cons (h : qfileUnifyTypes (dom1 :: types1) (dom2 :: types2) = some us) :
    exists u us', unifyDomain dom1 dom2 = some u ∧ qfileUnifyTypes types1 types2 = some us' ∧
      us = u :: us' := by
  simp only [qfileUnifyTypes, Option.bind_eq_bind, Option.bind_eq_some_iff] at h
  grind

theorem columns_of_unify (h : qfileUnifyTypes types1 types2 = some us)
    (hcoll : List.Forall₂ CollateAlike types1 types2) (t : Tuple) :
    (Fits types1 t -> Columns types1 us t) ∧ (Fits types2 t -> Columns types2 us t) := by
  induction hcoll generalizing us t with
  | nil =>
    cases h
    exact ⟨fun ht => by cases ht; exact .nil, fun ht => by cases ht; exact .nil⟩
  | @cons dom1 dom2 types1 types2 hdom hrest ih =>
    obtain ⟨u, us', hu, hus, rfl⟩ := unify_cons h
    constructor
    · rintro (_ | ⟨hv, ht⟩)
      refine .cons (fun d hd => ?_) ((ih hus _).1 ht)
      have hfits := (unifyDomain_fits hu hdom d).1 (hv d hd).1
      exact ⟨hfits.1, (hv d hd).2, hfits.2⟩
    · rintro (_ | ⟨hv, ht⟩)
      refine .cons (fun d hd => ?_) ((ih hus _).2 ht)
      have hfits := (unifyDomain_fits hu hdom d).2 (hv d hd).1
      exact ⟨hfits.1, (hv d hd).2, hfits.2⟩

theorem columns_self {t : Tuple} (h : Fits types t) : Columns types types t := by
  induction h with
  | nil => exact .nil
  | cons hv _ ih => exact .cons (fun d hd => ⟨(hv d hd).1, (hv d hd).2, fun _ => Iff.rfl⟩) ih

/-!
## What the operations return
-/

/-- How often a tuple is in a list, where NULLs are equal. -/
def countTuple (types : List TpDomain) (t : Tuple) (list : List Tuple) : Nat :=
  list.countP fun u => qfileCompareTupleHelper types t u == 0

/-- For every list of these types, the six operations return the tuples of their definition. -/
def CombinesRight (types1 types2 types : List TpDomain) : Prop :=
  forall (op : Operator) (distinct : Bool) (lhs rhs : List Tuple),
    (forall t, t ∈ lhs -> Fits types1 t) -> (forall t, t ∈ rhs -> Fits types2 t) ->
    forall t, Fits types t ->
      countTuple types t (qfileCombineTwoList types1 types2 op distinct lhs rhs) =
        op.count distinct (countTuple types t lhs) (countTuple types t rhs)

section

variable {types us : List TpDomain} {list : List Tuple}

theorem countTuple_eq {t : Tuple} (ht : Columns us us t)
    (hlist : forall u, u ∈ list -> exists types, Columns types us u) :
    countTuple us t list = count (rank us) (rank us t) list := by
  induction list with
  | nil => rfl
  | cons u list ih =>
    obtain ⟨types, hu⟩ := hlist u List.mem_cons_self
    have hzero := (ht.ranks hu).2
    have ih := ih fun u hu => hlist u (.tail _ hu)
    unfold countTuple at ih ⊢
    rw [List.countP_cons, ih, count_cons]
    grind

theorem advance_spec (h : forall t, t ∈ list -> Columns types us t) (distinct : Bool) :
    (forall t, t ∈ qfileAdvance types distinct (qfileSortList types distinct list) -> t ∈ list) ∧
      (qfileAdvance types distinct (qfileSortList types distinct list)).Pairwise
        (fun t u => rank us t <= rank us u) ∧
      forall k, count (rank us) k (qfileAdvance types distinct (qfileSortList types distinct list)) =
        if distinct then min 1 (count (rank us) k list) else count (rank us) k list := by
  have hranks : forall t, t ∈ list -> forall u, u ∈ list ->
      Ranks (rank us) (qfileCompareTupleHelper types) t u :=
    fun t ht u hu => (h t ht).ranks (h u hu)
  unfold qfileAdvance qfileSortList qfileCompareAllSortRecord
  generalize qfileCompareTupleHelper types = cmp at hranks ⊢
  have hperm : (sort cmp list).Perm list := sort_perm list
  have hsorted := sort_sorted hranks
  have hcount (k) : count (rank us) k (sort cmp list) = count (rank us) k list :=
    hperm.countP_eq _
  cases distinct with
  | false => exact ⟨fun t ht => hperm.mem_iff.mp ht, hsorted, hcount⟩
  | true =>
    have hsub : (heads cmp (sort cmp list)).Sublist (sort cmp list) := heads_sublist _
    have hsub' : (heads cmp (heads cmp (sort cmp list))).Sublist _ := heads_sublist _
    have hsort : forall t, t ∈ sort cmp list -> forall u, u ∈ sort cmp list ->
        Ranks (rank us) cmp t u :=
      fun t ht u hu => hranks t (hperm.mem_iff.mp ht) u (hperm.mem_iff.mp hu)
    refine ⟨fun t ht => hperm.mem_iff.mp (hsub.subset (hsub'.subset ht)),
      hsorted.sublist (hsub'.trans hsub), fun k => ?_⟩
    simp only [if_true]
    rw [count_heads (fun t ht u hu => hsort t (hsub.subset ht) u (hsub.subset hu))
      (hsorted.sublist hsub), count_heads hsort hsorted, hcount]
    omega

end

theorem combinesRight_of_alike (hunify : qfileUnifyTypes types1 types2 = some us)
    (hcoll : List.Forall₂ CollateAlike types1 types2) : CombinesRight types1 types2 us := by
  intro op distinct lhs rhs hlhs hrhs t ht
  have hl (t : Tuple) (ht : t ∈ lhs) := (columns_of_unify hunify hcoll t).1 (hlhs t ht)
  have hr (t : Tuple) (ht : t ∈ rhs) := (columns_of_unify hunify hcoll t).2 (hrhs t ht)
  have ht := columns_self ht
  have hboth (u : Tuple) (hu : u ∈ lhs ∨ u ∈ rhs) : exists types, Columns types us u :=
    hu.elim (fun hu => ⟨_, hl u hu⟩) fun hu => ⟨_, hr u hu⟩
  rw [countTuple_eq ht fun u hu => hboth u (.inl hu), countTuple_eq ht fun u hu => hboth u (.inr hu)]
  unfold qfileCombineTwoList
  split_ifs with hall
  · obtain ⟨rfl, rfl⟩ := hall
    rw [countTuple_eq ht fun u hu => hboth u (List.mem_append.mp hu), count_append]
    rfl
  obtain ⟨hmeml, hsortl, hcountl⟩ := advance_spec hl distinct
  obtain ⟨hmemr, hsortr, hcountr⟩ := advance_spec hr distinct
  rw [countTuple_eq ht fun u hu => hboth u ((mem_of_mem_merge hu).imp (hmeml u) (hmemr u)),
    count_merge _ _ _ (fun x hx y hy => (hl x (hmeml x hx)).ranks (hr y (hmemr y hy))) hsortl
      hsortr, hcountl, hcountr]
  cases op <;> cases distinct <;> simp_all [Operator.count] <;> omega

/-!
## Collations that differ

With `B` and `a` in both lists, one list is sorted the other way round than the merge expects.
-/

def single (n i : Nat) (d : Datum) : Tuple :=
  (List.replicate n none).set i (some d)

theorem compare_nulls (types : List TpDomain) (n : Nat) :
    qfileCompareTupleHelper types (List.replicate n none) (List.replicate n none) = 0 := by
  induction types generalizing n with
  | nil => rfl
  | cons domain types ih =>
    cases n with
    | zero => rfl
    | succ n => exact ih n

theorem compare_single {domain : TpDomain} (h : types[i]? = some domain) (d1 d2 : Datum) :
    qfileCompareTupleHelper types (single types.length i d1) (single types.length i d2) =
      d1.cmpval domain.collationId d2 := by
  induction types generalizing i with
  | nil => cases h
  | cons first types ih =>
    cases i with
    | zero =>
      cases h
      change mrCmpThen (d1.cmpval _ d2) (qfileCompareTupleHelper types _ _) = _
      rw [compare_nulls, mrCmpThen]
      split_ifs with hzero
      · exact hzero.symm
      · rfl
    | succ i => exact ih h

theorem fits_nulls (types : List TpDomain) : Fits types (List.replicate types.length none) := by
  induction types with
  | nil => exact .nil
  | cons domain types ih => exact .cons (fun d hd => by cases hd) ih

theorem fits_single {domain : TpDomain} (h : types[i]? = some domain) {d : Datum}
    (htype : d.type = domain.type) (hd : d.Ordered) : Fits types (single types.length i d) := by
  induction types generalizing i with
  | nil => cases h
  | cons first types ih =>
    cases i with
    | zero =>
      cases h
      refine .cons (fun d' hd' => ?_) (fits_nulls types)
      cases hd'
      exact ⟨htype, hd⟩
    | succ i => exact .cons (fun d hd => by cases hd) (ih h)

theorem unify_getElem? (h : qfileUnifyTypes types1 types2 = some us) :
    us.length = types1.length ∧ forall (i : Nat) (dom1 dom2 : TpDomain),
      types1[i]? = some dom1 -> types2[i]? = some dom2 -> us[i]? = unifyDomain dom1 dom2 := by
  induction types1 generalizing types2 us with
  | nil =>
    cases h
    exact ⟨rfl, fun _ _ _ h1 => by cases h1⟩
  | cons first types1 ih =>
    cases types2 with
    | nil =>
      cases h
      exact ⟨rfl, fun _ _ _ _ h2 => by cases h2⟩
    | cons first2 types2 =>
      obtain ⟨u, us', hu, hus, rfl⟩ := unify_cons h
      refine ⟨congrArg (· + 1) (ih hus).1, fun i dom1 dom2 h1 h2 => ?_⟩
      cases i with
      | zero =>
        cases h1
        cases h2
        exact hu.symm
      | succ i => exact (ih hus).2 i dom1 dom2 h1 h2

/-- Two strings in the one order for the left list and in the other for the right one. -/
theorem intersect_single (hlength : types1.length = types2.length)
    (hdom1 : types1[i]? = some dom1) (hdom2 : types2[i]? = some dom2) {p q : Datum}
    (hleft : p.cmpval dom1.collationId q < 0) (hright : 0 < p.cmpval dom2.collationId q)
    (hqq : q.cmpval dom1.collationId q = 0) :
    qfileCombineTwoList types1 types2 .intersect false
      [single types1.length i p, single types1.length i q]
      [single types1.length i p, single types1.length i q] = [single types1.length i q] := by
  have hx := compare_single hdom1
  have hy := compare_single hdom2
  rw [← hlength] at hy
  simp [qfileCombineTwoList, qfileAdvance, qfileSortList, qfileCompareAllSortRecord, sort,
    SortedMerge.insert, hx, hy, merge, keep, hqq, hleft, Int.le_of_lt hleft,
    Int.not_le.mpr hright]

theorem not_combinesRight (hunify : qfileUnifyTypes types1 types2 = some us)
    (hlength : types1.length = types2.length) (hdom1 : types1[i]? = some dom1)
    (hdom2 : types2[i]? = some dom2) (htype1 : dom1.type = .varchar)
    (htype2 : dom2.type = .varchar) {p q : Datum} (hp : p.type = .varchar ∧ p.Ordered)
    (hq : q.type = .varchar ∧ q.Ordered) (hleft : p.cmpval dom1.collationId q < 0)
    (hright : 0 < p.cmpval dom2.collationId q) (hpp : p.cmpval dom1.collationId p = 0)
    (hqq : q.cmpval dom1.collationId q = 0) : ¬ CombinesRight types1 types2 us := by
  intro h
  obtain ⟨hlen, hdom⟩ := unify_getElem? hunify
  have hu : us[i]? = some dom1 := by
    rw [hdom i dom1 dom2 hdom1 hdom2, unifyDomain]
    simp [htype1, htype2, DbType.isUnknown]
  have hfits1 (d : Datum) (hd : d.type = .varchar ∧ d.Ordered) :=
    fits_single hdom1 (hd.1.trans htype1.symm) hd.2
  have hfits2 (d : Datum) (hd : d.type = .varchar ∧ d.Ordered) :=
    fits_single hdom2 (hd.1.trans htype2.symm) hd.2
  have hfits := fits_single hu (hp.1.trans htype1.symm) hp.2
  have hcompare := compare_single hu
  rw [← hlength] at hfits2
  rw [hlen] at hfits hcompare
  have hcount := h .intersect false [single types1.length i p, single types1.length i q]
    [single types1.length i p, single types1.length i q] (by simp [hfits1, hp, hq])
    (by simp [hfits2, hp, hq]) (single types1.length i p) hfits
  rw [intersect_single hlength hdom1 hdom2 hleft hright hqq] at hcount
  simp [countTuple, hcompare, hpp, Int.ne_of_lt hleft, Operator.count] at hcount

/-- Only one collation takes `a` for a letter before `B`. -/
theorem cmpval_letters (coll : LangColl) :
    (if coll = .utf8EnCi then (varchar [97]).cmpval coll (.varchar [66]) < 0 ∧
        0 < (varchar [66]).cmpval coll (.varchar [97])
      else (varchar [66]).cmpval coll (.varchar [97]) < 0 ∧
        0 < (varchar [97]).cmpval coll (.varchar [66])) ∧
    (varchar [97]).cmpval coll (.varchar [97]) = 0 ∧
    (varchar [66]).cmpval coll (.varchar [66]) = 0 := by
  cases coll <;> decide

def varcharDomain (collationId : LangColl) : TpDomain :=
  ⟨.varchar, 10, 0, collationId⟩

end Rye.Query.ListFile
