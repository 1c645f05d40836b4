import Mathlib.Algebra.Group.Nat.Defs
import Mathlib.Data.List.Basic

/-!
# Memory

A memory of bytes at integer addresses, with copying in, moving within, and words
of four bytes, the lowest byte first.  A read depends only on the bytes in its
range, so a write outside of that range does not change it.
-/

namespace Rye.Foundation

open List

def Memory : Type :=
  Int -> UInt8

namespace Memory

/-- Copy `n` bytes of `src` to `addr`. -/
def write (m : Memory) (addr : Int) (n : Nat) (src : Nat -> UInt8) : Memory :=
  fun x => if addr <= x ∧ x < addr + n then src (x - addr).toNat else m x

/-- Copy `n` bytes from `src` to `dst`; the ranges may overlap. -/
def move (m : Memory) (dst src : Int) (n : Nat) : Memory :=
  m.write dst n (fun k => m (src + k))

def read (m : Memory) (addr : Int) (n : Nat) : List UInt8 :=
  (List.range n).map fun k : Nat => m (addr + k)

def word (m : Memory) (addr : Int) : Nat :=
  (m addr).toNat + 256 * (m (addr + 1)).toNat + 65536 * (m (addr + 2)).toNat +
    16777216 * (m (addr + 3)).toNat

def setWord (m : Memory) (addr : Int) (v : Nat) : Memory :=
  m.write addr 4 (fun k => UInt8.ofNat (v / 256 ^ k))

variable {m : Memory} {addr : Int}

theorem write_outside {n : Nat} {src : Nat -> UInt8} {x : Int} (h : x < addr ∨ addr + n <= x) :
    m.write addr n src x = m x := by
  unfold write
  rw [if_neg]
  omega

theorem setWord_outside {v : Nat} {x : Int} (h : x < addr ∨ addr + 4 <= x) :
    m.setWord addr v x = m x :=
  write_outside h

theorem write_inside {n : Nat} {src : Nat -> UInt8} {k : Nat} (h : k < n) :
    m.write addr n src (addr + k) = src k := by
  unfold write
  have hk : (addr + k - addr).toNat = k := by omega
  rw [if_pos (by omega), hk]

theorem read_congr {m' : Memory} {n : Nat} (h : forall x, addr <= x -> x < addr + n -> m' x = m x) :
    m'.read addr n = m.read addr n := by
  apply map_congr_left
  intro k hk
  have hlt := mem_range.mp hk
  exact h _ (by omega) (by omega)

theorem word_congr {m' : Memory} (h : forall x, addr <= x -> x < addr + 4 -> m' x = m x) :
    m'.word addr = m.word addr := by
  unfold word
  rw [h addr (by omega) (by omega), h (addr + 1) (by omega) (by omega),
    h (addr + 2) (by omega) (by omega), h (addr + 3) (by omega) (by omega)]

variable (m : Memory)

theorem read_write (addr : Int) (n : Nat) (src : Nat -> UInt8) :
    (m.write addr n src).read addr n = (List.range n).map src := by
  apply map_congr_left
  intro k hk
  exact write_inside (mem_range.mp hk)

theorem read_move (dst src : Int) (n : Nat) : (m.move dst src n).read dst n = m.read src n :=
  read_write _ _ _ _

theorem word_setWord (addr : Int) {v : Nat} (h : v < 2 ^ 32) :
    (m.setWord addr v).word addr = v := by
  have hbyte : forall k : Nat, k < 4 ->
      (m.setWord addr v (addr + k)).toNat = v / 256 ^ k % 256 := by
    intro k hk
    rw [setWord, write_inside hk, UInt8.toNat_ofNat']
  have h0 := hbyte 0 (by decide)
  have h1 := hbyte 1 (by decide)
  have h2 := hbyte 2 (by decide)
  have h3 := hbyte 3 (by decide)
  rw [Int.natCast_zero, Int.add_zero] at h0
  unfold word
  rw [h0]
  change _ + 256 * (m.setWord addr v (addr + (1 : Nat))).toNat +
    65536 * (m.setWord addr v (addr + (2 : Nat))).toNat +
    16777216 * (m.setWord addr v (addr + (3 : Nat))).toNat = v
  rw [h1, h2, h3]
  omega

end Memory

end Rye.Foundation
