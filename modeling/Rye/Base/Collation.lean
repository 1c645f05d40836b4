import Mathlib.Data.Nat.Notation

/-!
# Collations

The four built-in collations share two weight tables, which cover the first 256
code points; a code point behind the table is its own weight.  The tables are
filled when the server starts.
-/

namespace Rye.Base

inductive LangColl where
  | utf8Binary
  | utf8EnCs
  | utf8EnCi
  | utf8KoCs
deriving DecidableEq, Repr

def langCharCountEn : Nat := 256

/-- The table filled by `lang_init_common_en_cs`. -/
def langWeightEnCs (cp : Nat) : Nat :=
  if cp = 32 then 0 else cp

/-- The table filled by `lang_init_common_en_ci`. -/
def langWeightEnCi (cp : Nat) : Nat :=
  if cp = 32 then 0
  else if 97 <= cp ∧ cp <= 122 then cp - 32
  else cp

def LangColl.weights : LangColl -> Nat -> Nat
  | .utf8Binary | .utf8EnCs | .utf8KoCs => langWeightEnCs
  | .utf8EnCi => langWeightEnCi

def LangColl.weight (coll : LangColl) (cp : Nat) : Nat :=
  if cp < langCharCountEn then coll.weights cp else cp

end Rye.Base
