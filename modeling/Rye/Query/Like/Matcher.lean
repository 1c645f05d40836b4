import Rye.Base.Collation
import Rye.Query.Predicate.Evaluator

/-!
# The matcher of LIKE

`qstr_eval_like` walks through the target and the pattern with two pointers.  At a
`%` it looks for the first place where the characters up to the next wildcard
match, and pushes the place and the position of the `%` on a stack; when the match
fails later on, it goes back to the last place and looks for the next one.

Targets and patterns are valid, so they are lists of characters, and a pointer is
the rest of its list.  One test of the source compares byte positions: whether an
escape character is the last one of the pattern.  It holds for a character of one
byte only.  The matching function then skips a longer escape character at the end
of the pattern and reads the byte behind the pattern; that byte is a parameter.
-/

namespace Rye.Query

open Base

def likeWildcardMatchMany : Char := '%'
def likeWildcardMatchOne : Char := '_'

def stackSize : Nat := 100

/-- A `%` that is not the escape character. -/
def isMatchMany (escape : Option Char) (c : Char) : Bool :=
  escape != some likeWildcardMatchMany && c == likeWildcardMatchMany

/-- A `_` that is not the escape character. -/
def isMatchOne (escape : Option Char) (c : Char) : Bool :=
  escape != some likeWildcardMatchOne && c == likeWildcardMatchOne

/-- What `intl_utf8_to_cp` answers for a single byte without any size left. -/
def cpBehind (behind : UInt8) : Nat :=
  if behind.toNat < 128 then behind.toNat else 4294967295

/--
`lang_strmatch_utf8` for a match: the rest of `str1` behind the part matched by `str2`, if it
is matched.
-/
def langStrmatchUtf8 (coll : LangColl) (behind : UInt8) (escape : Option Char)
    (hasLastEscape : Bool) : List Char -> List Char -> Option (List Char)
  | str1, [] => some str1
  | [], _ :: _ => none
  | c1 :: str1, c2 :: str2 =>
    if escape = some c2 ∧ ¬ (hasLastEscape = true ∧ str2 = []) then
      match str2 with
      | [] => if coll.weight c1.toNat = coll.weight (cpBehind behind) then some str1 else none
      | c2' :: str2' =>
        if coll.weight c1.toNat = coll.weight c2'.toNat then
          langStrmatchUtf8 coll behind escape hasLastEscape str1 str2'
        else none
    else if coll.weight c1.toNat = coll.weight c2.toNat then
      langStrmatchUtf8 coll behind escape hasLastEscape str1 str2
    else none

/-- The characters up to the next wildcard, and how they use the escape character. -/
structure LikeSeq where
  seq : List Char
  rest : List Char
  matchEscape : Bool
  hasLastEscape : Bool
deriving DecidableEq, Repr

def LikeSeq.cons (c : Char) (s : LikeSeq) : LikeSeq :=
  { s with seq := c :: s.seq }

def likeSeq (escape : Option Char) : Bool -> List Char -> LikeSeq
  | _, [] => { seq := [], rest := [], matchEscape := false, hasLastEscape := false }
  | inescape, c :: rest =>
    if inescape = false ∧ (isMatchMany escape c ∨ isMatchOne escape c) then
      { seq := [], rest := c :: rest, matchEscape := false, hasLastEscape := false }
    else if inescape = false ∧ escape = some c then
      if c.utf8Size = 1 ∧ rest = [] then
        { (likeSeq escape false rest).cons c with hasLastEscape := true }
      else { (likeSeq escape true rest).cons c with matchEscape := true }
    else (likeSeq escape false rest).cons c

/-- The match of a sequence against the beginning of the target. -/
def LikeSeq.strmatch (coll : LangColl) (behind : UInt8) (escape : Option Char) (s : LikeSeq)
    (tar : List Char) : Option (List Char) :=
  langStrmatchUtf8 coll behind (if s.matchEscape then escape else none) s.hasLastEscape tar s.seq

/-!
## The loop
-/

inductive LikeStatus where
  | inCheck
  | inPercent
deriving DecidableEq, Repr

structure LikeState where
  status : LikeStatus
  tar : List Char
  expr : List Char
  stack : List (List Char × List Char)
deriving DecidableEq, Repr

/-- How an iteration ends: at a return, at `continue`, or at the test behind the branches. -/
inductive LikeStep where
  | done (result : DbLogical)
  | next (s : LikeState)
  | test (s : LikeState)
deriving DecidableEq, Repr

/-- Go back to the last place where a sequence was found. -/
def goBack : List (List Char × List Char) -> LikeStep
  | [] => .done .vFalse
  | (tar, expr) :: stack =>
    .test { status := .inCheck, tar := tar.drop 1, expr := expr, stack := stack }

/-- Note the place of a sequence found behind a `%`. -/
def pushPlace (stack : List (List Char × List Char)) (place : List Char × List Char)
    (step : List (List Char × List Char) -> LikeStep) : LikeStep :=
  if stackSize - 1 < stack.length then .done .vError else step (place :: stack)

def checkStep (coll : LangColl) (behind : UInt8) (escape : Option Char) (tar : List Char)
    (stack : List (List Char × List Char)) : List Char -> LikeStep
  | [] => if tar.dropWhile (fun c => c == ' ') = [] then .done .vTrue else goBack stack
  | c :: rest =>
    if isMatchMany escape c then
      .test
        { status := .inPercent
          tar := tar
          expr := c :: rest.dropWhile (fun d => d == likeWildcardMatchMany)
          stack := stack }
    else
      match tar with
      | [] => goBack stack
      | _ :: tar' =>
        if isMatchOne escape c then
          .test { status := .inCheck, tar := tar', expr := rest, stack := stack }
        else
          let s := likeSeq escape false (c :: rest)
          match s.strmatch coll behind escape tar with
          | some tar'' => .test { status := .inCheck, tar := tar'', expr := s.rest, stack := stack }
          | none => goBack stack

/-- The first place in the target where the sequence matches, with the target behind it. -/
def findSeq (coll : LangColl) (behind : UInt8) (escape : Option Char) (s : LikeSeq) :
    List Char -> Option (List Char × List Char)
  | [] => none
  | c :: tar =>
    match s.strmatch coll behind escape (c :: tar) with
    | some tar' => some (c :: tar, tar')
    | none => findSeq coll behind escape s tar

def percentStep (coll : LangColl) (behind : UInt8) (escape : Option Char) (tar : List Char)
    (stack : List (List Char × List Char)) (expr : List Char) : LikeStep :=
  match expr.drop 1 with
  | [] => .done .vTrue
  | c :: rest =>
    if isMatchOne escape c then
      pushPlace stack (tar, expr) fun stack =>
        .next { status := .inCheck, tar := tar, expr := c :: rest, stack := stack }
    else
      let s := likeSeq escape false (c :: rest)
      match tar with
      | [] => .test { status := .inPercent, tar := [], expr := expr, stack := stack }
      | _ :: _ =>
        match findSeq coll behind escape s tar with
        | some (place, tar') =>
          pushPlace stack (place, expr) fun stack =>
            .test { status := .inCheck, tar := tar', expr := s.rest, stack := stack }
        | none => .test { status := .inPercent, tar := [], expr := expr, stack := stack }

/-- The test behind the branches: a target that is used up decides. -/
def LikeStep.settle : LikeStep -> LikeStep
  | .test s =>
    if s.tar = [] then
      if s.expr.dropWhile (fun c => c == likeWildcardMatchMany) = [] then .done .vTrue
      else .done .vFalse
    else .next s
  | step => step

def likeStep (coll : LangColl) (behind : UInt8) (escape : Option Char) (s : LikeState) :
    LikeStep :=
  match s.status with
  | .inCheck => (checkStep coll behind escape s.tar s.stack s.expr).settle
  | .inPercent => (percentStep coll behind escape s.tar s.stack s.expr).settle

def likeLoop (coll : LangColl) (behind : UInt8) (escape : Option Char) :
    Nat -> LikeState -> Option DbLogical
  | 0, _ => none
  | fuel + 1, s =>
    match likeStep coll behind escape s with
    | .done result => some result
    | .next s' => likeLoop coll behind escape fuel s'
    | .test s' => likeLoop coll behind escape fuel s'

/-- `qstr_eval_like` with a bound on the iterations of its loop. -/
def qstrEvalLike (coll : LangColl) (behind : UInt8) (escape : Option Char) (fuel : Nat)
    (tar expr : List Char) : Option DbLogical :=
  likeLoop coll behind escape fuel { status := .inCheck, tar := tar, expr := expr, stack := [] }

end Rye.Query
