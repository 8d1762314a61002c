import Mathlib.Data.Vector.Basic
import Mathlib.Tactic.Ring
import Mathlib.Tactic.NormNum

/-! Fixed-width big-endian words. `encode w n` drops what does not fit in `w`
bytes, as a conversion to a fixed-width integer does. -/
namespace ArmoredWitness.Lib.BigEndian

def encode : ℕ → ℕ → List UInt8
  | 0, _ => []
  | w+1, n => UInt8.ofNat (n/256^w) :: encode w n

def decode : List UInt8 → ℕ
  | [] => 0
  | b::bs => b.toNat*256^bs.length + decode bs

@[simp] theorem encode_length (w n : ℕ) : (encode w n).length = w := by
  induction w with
  | zero => rfl
  | succ w ih => simp [encode,ih]

theorem decode_lt (bs : List UInt8) : decode bs < 256^bs.length := by
  induction bs with
  | nil => simp [decode]
  | cons b bs ih =>
    have hb : b.toNat < 256 := b.toNat_lt
    calc b.toNat*256^bs.length + decode bs
        < b.toNat*256^bs.length + 256^bs.length := by omega
      _ = (b.toNat+1)*256^bs.length := by ring
      _ ≤ 256*256^bs.length := Nat.mul_le_mul_right _ hb
      _ = 256^(b::bs).length := by rw [List.length_cons,pow_succ]; ring

theorem decode_encode (w n : ℕ) : decode (encode w n) = n % 256^w := by
  induction w with
  | zero => simp [encode,decode,Nat.mod_one]
  | succ w ih =>
    have hq : (UInt8.ofNat (n/256^w)).toNat = n/256^w % 256 := by simp
    rw [encode,decode,encode_length,hq,ih,pow_succ,Nat.mod_mul]
    ring

/-- Words that fit are read back exactly. -/
theorem decode_encode_of_lt {w n : ℕ} (h : n < 256^w) : decode (encode w n) = n := by
  rw [decode_encode,Nat.mod_eq_of_lt h]

lemma encode_mod (w n m : ℕ) (h : w ≤ m) : encode w (n % 256^m) = encode w n := by
  induction w with
  | zero => rfl
  | succ w ih =>
    rw [encode,encode,ih (by omega)]
    congr 1
    have hd : (256 : ℕ)^w*256 ∣ 256^m := by
      rw [← pow_succ]
      exact pow_dvd_pow _ h
    have hm : n % 256^m/256^w % 256 = n/256^w % 256 := by
      rw [← Nat.mod_mul_right_div_self (n % 256^m),← Nat.mod_mul_right_div_self n,
        Nat.mod_mod_of_dvd _ hd]
    apply UInt8.toNat_inj.mp
    simpa using hm

theorem encode_decode (bs : List UInt8) : encode bs.length (decode bs) = bs := by
  induction bs with
  | nil => rfl
  | cons b bs ih =>
    have hp : 0 < (256 : ℕ)^bs.length := by positivity
    have hlt := decode_lt bs
    have hhead : (b.toNat*256^bs.length + decode bs)/256^bs.length = b.toNat := by
      rw [Nat.mul_comm,Nat.mul_add_div hp,Nat.div_eq_of_lt hlt,Nat.add_zero]
    have hrest : encode bs.length (b.toNat*256^bs.length + decode bs) = bs := by
      rw [← encode_mod _ _ _ le_rfl,Nat.mul_comm,Nat.mul_add_mod,encode_mod _ _ _ le_rfl,ih]
    rw [List.length_cons,encode,decode,hhead,hrest,UInt8.ofNat_toNat]

end ArmoredWitness.Lib.BigEndian
