import ArmoredWitness.Dhcp.Config
import ArmoredWitness.Lib.Arith

/-! `Run` fills in and corrects the times that a server sends, in seconds of 32 bits, and
turns them into durations. The delays between retransmissions are computed in nanoseconds of
64 bits. -/
namespace ArmoredWitness.Dhcp
open Lib

/-- Durations and moments are counted in nanoseconds. -/
def second : ℤ := 10^9

/-- `Seconds.Duration` -/
def duration (s : UInt32) : ℤ := (Arith.word 64).int (s.toNat*second)

section Lease

def defaultLeaseLength : UInt32 := 12*3600

/-- The length of a lease; a server that does not say grants the default. -/
def leaseLength (cfg : Config) : UInt32 := if cfg.leaseLength = 0 then defaultLeaseLength else cfg.leaseLength

/-- The time to renew a lease, by default after half of it. -/
def renewTime (cfg : Config) : UInt32 :=
  if cfg.leaseLength ≠ 0 ∧ cfg.leaseLength ≤ cfg.renewTime then leaseLength cfg/2
  else if cfg.renewTime = 0 then leaseLength cfg/2
  else cfg.renewTime

/-- The time to rebind a lease, by default after seven eighths of it. It is compared with
the renewal time that the server sent, not with the corrected one. -/
def rebindTime (cfg : Config) : UInt32 :=
  if cfg.renewTime ≠ 0 ∧ cfg.rebindTime ≤ cfg.renewTime then leaseLength cfg*875/1000
  else if cfg.rebindTime = 0 then leaseLength cfg*875/1000
  else cfg.rebindTime

/-- The configuration as it is reported. -/
def normalise (cfg : Config) : Config :=
  {cfg with leaseLength := leaseLength cfg, renewTime := renewTime cfg, rebindTime := rebindTime cfg}

variable (cfg : Config)

lemma leaseLength_pos : 0 < (leaseLength cfg).toNat := by
  unfold leaseLength
  split
  · decide
  · rename_i h
    have h0 : cfg.leaseLength.toNat ≠ 0 := fun h' => h (UInt32.toNat_inj.mp h')
    omega

lemma toNat_half (v : UInt32) : (v/2).toNat = v.toNat/2 := by
  rw [UInt32.toNat_div]
  rfl

lemma toNat_eighths (v : UInt32) : (v*875/1000).toNat = v.toNat*875 % 2^32/1000 := by
  rw [UInt32.toNat_div,UInt32.toNat_mul]
  rfl

lemma leaseLength_eq : (leaseLength cfg).toNat =
    if cfg.leaseLength.toNat = 0 then 43200 else cfg.leaseLength.toNat := by
  unfold leaseLength
  simp only [← UInt32.toNat_inj,UInt32.toNat_zero]
  split <;> rfl

lemma renewTime_eq : (renewTime cfg).toNat =
    if cfg.leaseLength.toNat ≠ 0 ∧ cfg.leaseLength.toNat ≤ cfg.renewTime.toNat ∨ cfg.renewTime.toNat = 0 then
      (leaseLength cfg).toNat/2
    else cfg.renewTime.toNat := by
  unfold renewTime
  simp only [← UInt32.toNat_inj,UInt32.toNat_zero,UInt32.le_iff_toNat_le,ne_eq]
  split_ifs with h1 h2 h3 h4 <;> (try rw [toNat_half]) <;> tauto

lemma rebindTime_eq : (rebindTime cfg).toNat =
    if cfg.renewTime.toNat < cfg.rebindTime.toNat then cfg.rebindTime.toNat
    else (leaseLength cfg).toNat*875 % 2^32/1000 := by
  unfold rebindTime
  simp only [← UInt32.toNat_inj,UInt32.toNat_zero,UInt32.le_iff_toNat_le,ne_eq]
  split_ifs with h1 h2 h3 h4 <;> (try rw [toNat_eighths]) <;> omega

/-- The renewal comes before the end of the lease, unless the server leaves the length of
the lease open and asks for a renewal after the default. -/
lemma renewTime_lt_iff : (renewTime cfg).toNat < (leaseLength cfg).toNat ↔
    ¬ (cfg.leaseLength.toNat = 0 ∧ 43200 ≤ cfg.renewTime.toNat) := by
  rw [renewTime_eq,leaseLength_eq]
  split_ifs <;> omega

lemma eighths_of_le {n : ℕ} (h : n ≤ 4908534) : n*875 % 2^32/1000 = n*875/1000 := by
  rw [Nat.mod_eq_of_lt (by omega)]

/-- Beyond that the product wraps, and what is left is less than half of the lease. -/
lemma eighths_lt_half {n : ℕ} (h : 4908534 < n) : n*875 % 2^32/1000 < n/2 := by
  have hlt : n*875 % 2^32 < 2^32 := Nat.mod_lt _ (by norm_num)
  by_cases hn : n < 9817069
  · have hwrap : n*875 % 2^32 = n*875-2^32 := by
      rw [Nat.mod_eq_sub_mod (by omega),Nat.mod_eq_of_lt (by omega)]
    omega
  · omega

/-- The default for rebinding comes before the end of the lease, also where the product
does not fit in 32 bits. -/
lemma rebindTime_lt_iff : (rebindTime cfg).toNat < (leaseLength cfg).toNat ↔
    ¬ (cfg.renewTime.toNat < cfg.rebindTime.toNat ∧ (leaseLength cfg).toNat ≤ cfg.rebindTime.toNat) := by
  have hpos := leaseLength_pos cfg
  have hdefault : (leaseLength cfg).toNat*875 % 2^32/1000 < (leaseLength cfg).toNat := by
    by_cases h : (leaseLength cfg).toNat ≤ 4908534
    · rw [eighths_of_le h]
      omega
    · have hhalf := eighths_lt_half (n := (leaseLength cfg).toNat) (by omega)
      omega
  rw [rebindTime_eq]
  split_ifs <;> omega

/-- Where the server leaves both times open, they are in order if and only if the lease is
neither too short for its parts to differ nor so long that the product with 875 wraps. -/
lemma default_times_iff (hrenew : cfg.renewTime.toNat = 0) (hrebind : cfg.rebindTime.toNat = 0) :
    (renewTime cfg).toNat < (rebindTime cfg).toNat ↔
      3 ≤ (leaseLength cfg).toNat ∧ (leaseLength cfg).toNat ≤ 4908534 := by
  rw [renewTime_eq,rebindTime_eq,if_pos (.inr hrenew),if_neg (by omega)]
  by_cases h : (leaseLength cfg).toNat ≤ 4908534
  · rw [eighths_of_le h]
    omega
  · have hhalf := eighths_lt_half (n := (leaseLength cfg).toNat) (by omega)
    omega

/-- The order that the protocol asks for, renewal before rebinding before the end of the
lease, is not enforced. Renewal comes before the end unless the server leaves the length
of the lease open and asks for a renewal after the default length; rebinding does unless
the server asks for one after the end. Where the server leaves both open, they are in order
if and only if the lease is of 3 to 4908534 seconds. -/
theorem normalise_times :
    ((normalise cfg).renewTime.toNat < (normalise cfg).leaseLength.toNat ↔
      ¬ (cfg.leaseLength.toNat = 0 ∧ 43200 ≤ cfg.renewTime.toNat)) ∧
    ((normalise cfg).rebindTime.toNat < (normalise cfg).leaseLength.toNat ↔
      ¬ (cfg.renewTime.toNat < cfg.rebindTime.toNat ∧
        (normalise cfg).leaseLength.toNat ≤ cfg.rebindTime.toNat)) ∧
    (cfg.renewTime.toNat = 0 ∧ cfg.rebindTime.toNat = 0 →
      ((normalise cfg).renewTime.toNat < (normalise cfg).rebindTime.toNat ↔
        3 ≤ (normalise cfg).leaseLength.toNat ∧ (normalise cfg).leaseLength.toNat ≤ 4908534)) :=
  ⟨renewTime_lt_iff cfg,rebindTime_lt_iff cfg,fun h => default_times_iff cfg h.1 h.2⟩

end Lease

section Backoff

def maxBackoff : ℤ := 64*second

/-- The delay before retransmission number `iteration`, where `rnd` is the random number
drawn for the jitter. Without a delay to start from the division panics. -/
def exponentialBackoff (retransmission : ℤ) (rnd : Fin (2*10^9+1)) (iteration : ℕ) : Option ℤ :=
  if retransmission = 0 then none
  else
    let jitter := (rnd : ℤ)-second
    let backoff :=
      if (maxBackoff.tdiv retransmission) >>> iteration ≠ 0 then
        (Arith.word 64).int (retransmission*(Arith.word 64).int (2^iteration))
      else maxBackoff
    let backoff := (Arith.word 64).int (backoff+jitter)
    some (if backoff < 0 then 0 else backoff)

lemma exponentialBackoff_nonneg (r : ℤ) (rnd : Fin (2*10^9+1)) (i : ℕ) :
    0 ≤ (exponentialBackoff r rnd i).getD 0 := by
  have hpos (b : ℤ) : 0 ≤ if b < 0 then 0 else b := by
    split_ifs <;> omega
  unfold exponentialBackoff
  by_cases hr : r = 0
  · rw [if_pos hr]
    exact le_rfl
  · rw [if_neg hr]
    exact hpos _

/-- The guard lets through what does not exceed the maximum. -/
lemma shift_ne_zero_iff {r : ℤ} (hr : 0 < r) (i : ℕ) :
    (maxBackoff.tdiv r) >>> i ≠ 0 ↔ r*2^i ≤ maxBackoff := by
  have hpow : (0 : ℤ) < 2^i := by positivity
  have hmax : 0 ≤ maxBackoff := by decide
  rw [Int.shiftRight_eq_div_pow,Int.tdiv_eq_ediv_of_nonneg hmax]
  push_cast
  rw [Int.ediv_ediv_of_nonneg hr.le]
  constructor
  · intro h
    by_contra hlt
    exact h (Int.ediv_eq_zero_of_lt hmax (not_le.mp hlt))
  · intro h
    have hone : 1 ≤ maxBackoff/(r*2^i) := by
      rw [Int.le_ediv_iff_mul_le (mul_pos hr hpow),one_mul]
      exact h
    omega

lemma word_int_of_small {x : ℤ} (h0 : -2^62 ≤ x) (h : x ≤ 2^62) : (Arith.word 64).int x = x := by
  apply (Arith.word_upTo 64).int
  · norm_num at h0 ⊢
    omega
  · norm_num at h ⊢
    omega

/-- The delay doubles up to the maximum and then stays there, for every iteration: the
shifts and products that would overflow are never used. -/
theorem exponentialBackoff_eq {r : ℤ} (hr : 0 < r) (rnd : Fin (2*10^9+1)) (i : ℕ) :
    exponentialBackoff r rnd i = some (max 0 (min (r*2^i) maxBackoff+(rnd-second))) := by
  have hpow : (0 : ℤ) < 2^i := by positivity
  have hrnd : ((rnd : ℕ) : ℤ) ≤ 2*10^9 := by
    have h := rnd.isLt
    omega
  have hbackoff : (if (maxBackoff.tdiv r) >>> i ≠ 0 then
      (Arith.word 64).int (r*(Arith.word 64).int (2^i)) else maxBackoff) = min (r*2^i) maxBackoff := by
    simp only [shift_ne_zero_iff hr]
    split
    · rename_i hle
      have hprod : 2^i ≤ r*2^i := le_mul_of_one_le_left hpow.le hr
      have hmax : maxBackoff = 64*10^9 := rfl
      rw [word_int_of_small (x := 2^i) (by omega) (by omega),word_int_of_small (by omega) (by omega),
        min_eq_left hle]
    · rename_i hlt
      rw [min_eq_right (by omega)]
  have hmin : 0 ≤ min (r*2^i) maxBackoff := le_min (mul_pos hr hpow).le (by decide)
  have hmax : min (r*2^i) maxBackoff ≤ 64*10^9 := min_le_right _ _
  have hsecond : second = 10^9 := rfl
  rw [exponentialBackoff,if_neg hr.ne']
  simp only [hbackoff]
  rw [word_int_of_small (by omega) (by omega)]
  congr 1
  split
  · rw [max_eq_left (by omega)]
  · rw [max_eq_right (by omega)]

theorem exponentialBackoff_eq_second : exponentialBackoff (4*second) (Fin.last _) 1 = some (9*second) := by
  rw [exponentialBackoff_eq (by decide)]
  rfl

end Backoff

end ArmoredWitness.Dhcp
