import ArmoredWitness.Net.Lease

/-! The parts of the network libraries that the client calls: what it takes from the stack,
which is a parameter, and `IPMask.Size`, which gives the length of a mask and 0 for a mask
that is not a run of ones followed by zeros. -/
namespace ArmoredWitness.Net

structure Subnet where
  address : List UInt8
  mask : List UInt8
  deriving DecidableEq

/-- The bytes of a mask with `n` ones. -/
def prefixMask : ℕ → ℕ → List UInt8
  | 0, _ => []
  | k+1, n =>
    if 8 ≤ n then 0xff::prefixMask k (n-8)
    else ~~~((0xff : UInt8) >>> UInt8.ofNat n)::prefixMask k 0

/-- `AddressWithPrefix.Subnet` and `Address.String` of the stack. -/
structure Tcpip where
  subnet : AddressWithPrefix → Subnet
  string : List UInt8 → String

/-- What is assumed of a subnet: its mask has as many ones as the prefix says, and zeros
after them. -/
structure Tcpip.Masks (T : Tcpip) : Prop where
  mask : ∀ (address : List UInt8) (n : ℕ), n ≤ 8*address.length →
    (T.subnet ⟨address,n⟩).mask = prefixMask address.length n

/-- Shift the leading ones out of a byte. -/
def shiftOnes : ℕ → UInt8 → ℕ × UInt8
  | 0, v => (0,v)
  | k+1, v => if v &&& 0x80 ≠ 0 then ((shiftOnes k (v <<< 1)).1+1,(shiftOnes k (v <<< 1)).2) else (0,v)

/-- The number of leading ones of a mask, if zeros follow them. -/
def simpleMaskLength : List UInt8 → Option ℕ
  | [] => some 0
  | v::mask =>
    if v = 0xff then (simpleMaskLength mask).map (8+·)
    else if (shiftOnes 8 v).2 ≠ 0 then none
    else if mask.all (· == 0) then some (shiftOnes 8 v).1
    else none

/-- `IPMask.Size`: a mask that is not canonical has size 0. -/
def maskSize (mask : List UInt8) : ℤ := ((simpleMaskLength mask).getD 0 : ℕ)

/-- Ones followed by zeros. -/
def Canonical (mask : List UInt8) : Prop := ∃ n ≤ 8*mask.length, mask = prefixMask mask.length n

lemma prefixMask_zero (k : ℕ) : prefixMask k 0 = List.replicate k 0 := by
  induction k with
  | zero => rfl
  | succ k ih =>
    rw [prefixMask,if_neg (by decide),ih]
    rfl

lemma simpleMaskLength_prefixMask {k n : ℕ} (h : n ≤ 8*k) : simpleMaskLength (prefixMask k n) = some n := by
  induction k generalizing n with
  | zero =>
    have hn : n = 0 := by omega
    subst hn
    rfl
  | succ k ih =>
    rw [prefixMask]
    split
    · rw [simpleMaskLength,if_pos rfl,ih (by omega),Option.map_some]
      congr 1
      omega
    · rename_i hn
      rw [prefixMask_zero]
      have hall : (List.replicate k (0 : UInt8)).all (· == 0) = true := by simp
      have hbyte : ∀ m < 8, (~~~((0xff : UInt8) >>> UInt8.ofNat m) ≠ 0xff) ∧
          shiftOnes 8 (~~~((0xff : UInt8) >>> UInt8.ofNat m)) = (m,0) := by decide
      obtain ⟨hff,hones⟩ := hbyte n (by omega)
      rw [simpleMaskLength,if_neg hff,hones,if_neg (by simp),if_pos hall]

/-- A byte that is neither full nor followed by ones is the first byte of a mask. -/
lemma shiftOnes_byte {v : UInt8} (hff : v ≠ 0xff) (hz : (shiftOnes 8 v).2 = 0) :
    (shiftOnes 8 v).1 < 8 ∧ v = ~~~((0xff : UInt8) >>> UInt8.ofNat (shiftOnes 8 v).1) := by
  have key : ∀ n < 256, UInt8.ofNat n ≠ 0xff → (shiftOnes 8 (UInt8.ofNat n)).2 = 0 →
      (shiftOnes 8 (UInt8.ofNat n)).1 < 8 ∧
        UInt8.ofNat n = ~~~((0xff : UInt8) >>> UInt8.ofNat (shiftOnes 8 (UInt8.ofNat n)).1) := by
    decide +kernel
  have hv := key v.toNat v.toNat_lt
  rw [UInt8.ofNat_toNat] at hv
  exact hv hff hz

/-- A mask that has a length is the mask of that length. -/
lemma prefixMask_simpleMaskLength {m : List UInt8} {n : ℕ} (h : simpleMaskLength m = some n) :
    n ≤ 8*m.length ∧ prefixMask m.length n = m := by
  induction m generalizing n with
  | nil =>
    cases h
    exact ⟨le_rfl,rfl⟩
  | cons v m ih =>
    rw [simpleMaskLength] at h
    split_ifs at h with hff hz hall
    · obtain ⟨k,hk,rfl⟩ := Option.map_eq_some_iff.mp h
      obtain ⟨hle,hm⟩ := ih hk
      rw [List.length_cons,prefixMask,if_pos (by omega),Nat.add_sub_cancel_left,hm,hff]
      exact ⟨by omega,rfl⟩
    · cases h
      obtain ⟨hlt,hv⟩ := shiftOnes_byte hff (not_not.mp hz)
      have hm : m = List.replicate m.length 0 := by
        apply List.eq_replicate_iff.mpr
        refine ⟨rfl,fun b hb => ?_⟩
        simpa using List.all_eq_true.mp hall b hb
      rw [List.length_cons,prefixMask,if_neg (by omega),prefixMask_zero,← hm,← hv]
      exact ⟨by omega,rfl⟩

/-- The mask of the subnet that an address gets from a mask: the mask itself, or, if the mask is
not canonical, none at all. -/
lemma Tcpip.Masks.maskSize {T : Tcpip} (hT : T.Masks) {addr mask : List UInt8} (hlen : mask.length = addr.length) :
    (Canonical mask → (T.subnet ⟨addr,maskSize mask⟩).mask = mask) ∧
    (¬ Canonical mask → (T.subnet ⟨addr,maskSize mask⟩).mask = List.replicate addr.length 0) := by
  constructor
  · rintro ⟨n,hle,heq⟩
    have hm : simpleMaskLength mask = some n := by rw [heq,simpleMaskLength_prefixMask hle]
    rw [Net.maskSize,hm,Option.getD_some,hT.mask addr n (hlen ▸ hle),← hlen,← heq]
  · intro hnot
    have hm : simpleMaskLength mask = none := by
      cases hm : simpleMaskLength mask with
      | none => rfl
      | some n =>
        obtain ⟨hle,heq⟩ := prefixMask_simpleMaskLength hm
        exact absurd ⟨n,hle,heq.symm⟩ hnot
    rw [Net.maskSize,hm,Option.getD_none,hT.mask addr 0 (Nat.zero_le _),prefixMask_zero]

/-- A stack that writes the bytes of an address with dots between them. -/
def dotted : Tcpip where
  subnet a := ⟨a.address,prefixMask a.address.length a.prefixLen.toNat⟩
  string r := String.intercalate "." (r.map fun b => toString b.toNat)

lemma dotted_masks : dotted.Masks := ⟨fun _ _ _ => rfl⟩

end ArmoredWitness.Net
