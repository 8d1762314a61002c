import Mathlib.Data.Int.Basic
import Mathlib.Tactic.Ring
import Mathlib.Tactic.NormNum

/-! The arithmetic of Go's `uint` and `int`, as a parameter: reduction modulo the
number of words, or unbounded integers. A computation is written once over an
`Arith` and can then be compared with itself in the two arithmetics. -/
namespace ArmoredWitness.Lib

/-- What becomes of the true result of an operation that is stored in a `uint`, or
converted to an `int`. What is below a stored value is stored exactly, and a sum
does not depend on whether one of its terms was stored before. -/
structure Arith where
  uint : ℤ → ℕ
  int : ℤ → ℤ
  below : ∀ {x : ℤ} {n : ℕ}, n ≤ uint x → uint n = n
  add : ∀ n k : ℕ, uint (uint n+k : ℕ) = uint (n+k : ℕ)

namespace Arith

lemma emod_toNat (m n : ℕ) : ((n : ℤ) % m).toNat = n % m := by
  rw [← Int.natCast_emod,Int.toNat_natCast]

lemma emod_toNat_lt {m : ℕ} (hm : 0 < m) (x : ℤ) : (x % m).toNat < m := by
  have hpos : (0 : ℤ) < m := Int.natCast_pos.mpr hm
  have hlt := Int.emod_lt_of_pos x hpos
  have hnn := Int.emod_nonneg x hpos.ne'
  omega

/-- Reduction modulo `m`; an `int` is the representative around zero. -/
def modulo (m : ℕ) (hm : 0 < m) : Arith where
  uint x := (x % m).toNat
  int x := x.bmod m
  below := by
    intro x n h
    rw [emod_toNat]
    exact Nat.mod_eq_of_lt (h.trans_lt (emod_toNat_lt hm x))
  add n k := by
    rw [emod_toNat,emod_toNat,emod_toNat,Nat.mod_add_mod]

/-- Words of `w` bits. -/
def word (w : ℕ) : Arith := modulo (2^w) (Nat.two_pow_pos w)

/-- Unbounded integers. A `uint` is not negative. -/
def exact : Arith := ⟨Int.toNat,id,fun _ => rfl,fun _ _ => rfl⟩

@[simp] lemma exact_uint (n : ℕ) : exact.uint n = n := rfl
@[simp] lemma exact_int (x : ℤ) : exact.int x = x := rfl

section Modulo
variable {m : ℕ} (hm : 0 < m)

@[simp] lemma modulo_uint (n : ℕ) : (modulo m hm).uint n = n % m := emod_toNat m n

lemma modulo_uint_lt (x : ℤ) : (modulo m hm).uint x < m := emod_toNat_lt hm x

/-- A result that fits is stored exactly. -/
lemma modulo_uint_eq {n : ℕ} (h : n < m) : (modulo m hm).uint n = n := by
  rw [modulo_uint,Nat.mod_eq_of_lt h]

end Modulo

/-- The arithmetic is exact on numbers below `L`; `L` itself may be stored as something
else, as long as the number before it comes back when one is subtracted. -/
structure UpTo (A : Arith) (L : ℕ) : Prop where
  uint : ∀ {n : ℕ}, n < L → A.uint n = n
  pred : ∀ {n : ℕ}, 0 < n → n ≤ L → A.uint (A.uint n-1 : ℤ) = n-1
  int : ∀ {x : ℤ}, -L ≤ 2*x → 2*x < L → A.int x = x

lemma exact_upTo (L : ℕ) : exact.UpTo L where
  uint _ := rfl
  pred := by
    intro n hpos _
    change ((n : ℤ)-1).toNat = n-1
    omega
  int _ _ := rfl

/-- From the end of the words, where a position wraps to zero, a subtraction wraps back. -/
lemma neg_one_emod {m : ℕ} (hm : 0 < m) : (((0 : ℕ) : ℤ)-1) % m = ((m-1 : ℕ) : ℤ) := by
  have hcast : ((m-1 : ℕ) : ℤ) = (m : ℤ)-1 := by omega
  rw [hcast,← Int.add_emod_right,show (((0 : ℕ) : ℤ)-1+m) = (m : ℤ)-1 by push_cast; ring]
  exact Int.emod_eq_of_lt (by omega) (by omega)

lemma modulo_upTo {m : ℕ} (hm : 0 < m) : (modulo m hm).UpTo m where
  uint := modulo_uint_eq hm
  pred := by
    intro n hpos hle
    rcases Nat.eq_or_lt_of_le hle with rfl | hlt
    · rw [modulo_uint,Nat.mod_self]
      change ((((0 : ℕ) : ℤ)-1) % n).toNat = n-1
      rw [neg_one_emod hpos,Int.toNat_natCast]
    · have hcast : ((n : ℤ)-1) = ((n-1 : ℕ) : ℤ) := by omega
      rw [modulo_uint_eq hm hlt,hcast,modulo_uint_eq hm (by omega)]
  int := by
    intro x h0 h
    change x.bmod m = x
    apply Int.bmod_eq_of_le
    · omega
    · omega

lemma word_upTo (w : ℕ) : (word w).UpTo (2^w) := modulo_upTo (Nat.two_pow_pos w)

end Arith
end ArmoredWitness.Lib
