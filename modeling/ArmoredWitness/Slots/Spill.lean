import ArmoredWitness.Slots.Exposed
import ArmoredWitness.Slots.Stored

/-! What opening a journal depends on. The scan looks for records inside the region
only, but a record that begins there is read as far as its header says. The region
decides the outcome if nothing that may lie outside of it can complete a record that
counts. -/
namespace ArmoredWitness.Slots
open Lib Lib.Sha256 BlockReader

variable {M : Machine} {A : Arith} {d d' : Device M} {start length stop q : ℕ} {e : Entry} {p : Panic}

namespace Device

/-- Two devices from which the same is read in a range of blocks. -/
def Agree (d d' : Device M) (start stop : ℕ) : Prop :=
  ∀ q, start ≤ q → q < stop → d'.readBlocks q = d.readBlocks q

/-- The blocks of a range; the others cannot be read. -/
def only (d : Device M) (start stop : ℕ) : ReadBlocks M := fun q buf =>
  if start ≤ q ∧ q < stop then d.readBlocks q buf else (buf,some (.device q))

/-- The device without the blocks from `stop` on. -/
def confine (d : Device M) (stop : ℕ) : Device M := {d with size := min d.size stop}

namespace Agree

lemma trans {d'' : Device M} (h : d.Agree d' start stop) (h' : d'.Agree d'' start stop) :
    d.Agree d'' start stop := fun q hs hq => (h' q hs hq).trans (h q hs hq)

lemma block (h : d.Agree d' start stop) (hs : start ≤ q) (hq : q < stop) (hsize : q < d.size) :
    d'.block q = d.block q := by
  have heq := congrFun (h q hs hq) (zeroBlock M)
  simp only [readBlocks,if_pos hsize] at heq
  split_ifs at heq
  · exact congrArg Prod.fst heq
  · cases congrArg Prod.snd heq

lemma confine (d : Device M) (start stop : ℕ) : d.Agree (d.confine stop) start stop := by
  intro q _ hq
  have hlt : q < min d.size stop ↔ q < d.size := by omega
  funext buf
  simp only [readBlocks,Device.confine,hlt]

lemma only (h : d.Agree d' start stop) : d'.only start stop = d.only start stop := by
  funext q buf
  unfold Device.only
  split_ifs with hq
  · rw [h q hq.1 hq.2]
  · rfl

end Agree

/-- From the start of the range on, what can be read of the range is what the device
without the blocks behind it holds. -/
lemma confine_readBlocks (hs : start ≤ q) : (d.confine stop).readBlocks q = d.only start stop q := by
  funext buf
  by_cases hq : q < stop
  · rw [only,if_pos ⟨hs,hq⟩,← Agree.confine d start stop q hs hq]
  · have hn : ¬ q < min d.size stop := by omega
    have hn' : ¬ (start ≤ q ∧ q < stop) := fun hc => hq hc.2
    rw [only,if_neg hn']
    exact if_neg hn

end Device

/-- The error of a block outside of a range. -/
def Outside (start stop : ℕ) (e : ReadError) : Prop := ∃ p, e = .device p ∧ ¬ (start ≤ p ∧ p < stop)

/-- To decode the block, one outside of the range has to be read. -/
def Device.Leaves (d : Device M) (start stop q : ℕ) : Prop :=
  ∃ err e, entryAt M.arith (d.only start stop) q = .error err ∧ err.cause = some e ∧ Outside start stop e

section Locality
variable {readBlocks readBlocks' : ReadBlocks M} {br : BlockReader M} {n : ℕ}

/-- A `Read` depends on the block it fetches. -/
lemma source_read_congr (h : readBlocks' (br.pos/M.blockSize) br.buf = readBlocks (br.pos/M.blockSize) br.buf) :
    (source A readBlocks').read br n = (source A readBlocks).read br n := by
  have hread : br.read A readBlocks' n = br.read A readBlocks n := by
    unfold BlockReader.read
    rw [h]
  simp only [source,hread]

/-- A block is decoded from the range alone, or decoding it leaves the range. -/
theorem entryAt_only (d : Device M) (start stop q : ℕ) :
    entryAt M.arith d.readBlocks q = entryAt M.arith (d.only start stop) q ∨ d.Leaves start stop q := by
  have hsource : ∀ (r : BlockReader M) n,
      (source M.arith d.readBlocks).read r n = (source M.arith (d.only start stop)).read r n ∨
      ∃ e, Outside start stop e ∧ (source M.arith (d.only start stop)).read r n = .error e := by
    intro r n
    by_cases hin : start ≤ r.pos/M.blockSize ∧ r.pos/M.blockSize < stop
    · exact .inl (source_read_congr (if_pos hin).symm)
    · by_cases h0 : r.pos % M.blockSize = 0
      · refine .inr ⟨.device (r.pos/M.blockSize),⟨_,rfl,hin⟩,?_⟩
        simp only [source,BlockReader.read,if_pos h0,Device.only,if_neg hin]
      · left
        simp only [source,BlockReader.read,if_neg h0]
  have hsame : Outcome.SameUnless (fun err => ∃ e, err.cause = some e ∧ Outside start stop e)
      (entryAt M.arith d.readBlocks q) (entryAt M.arith (d.only start stop) q) :=
    unmarshalEntry_sameUnless (I := fun _ _ => True) (fun n k r _ =>
      ⟨(source M.arith (d.only start stop)).readFull_sameUnless (source M.arith d.readBlocks)
        (I := fun _ _ => True) trivial fun got r' _ _ => ⟨hsource r' _,fun _ _ _ => trivial⟩,
        fun _ _ _ => trivial⟩) trivial
  rcases hsame with heq | ⟨err,⟨e,hcause,hout⟩,herr⟩
  · exact .inl heq
  · exact .inr ⟨err,e,herr,hcause,hout⟩

/-- Below the end of the address space, what is read from a block on depends on the blocks
from there on. -/
lemma readFull_from {L k : ℕ} (hA : A.UpTo L) (hagree : ∀ p, start ≤ p → readBlocks' p = readBlocks p)
    (hs : start*M.blockSize ≤ br.pos) (hend : br.pos+(n+k) < L) :
    readFull A readBlocks' n br = readFull A readBlocks n br ∧ ∀ v r', readFull A readBlocks n br = .ok (v,r') →
      start*M.blockSize ≤ r'.pos ∧ r'.pos+k < L := by
  constructor
  · refine Outcome.SameUnless.eq ((source A readBlocks).readFull_sameUnless (source A readBlocks')
      (I := fun got r => r.pos = br.pos+got.length) rfl fun got r hr hlt => ⟨.inl ?_,fun b r' hb => ?_⟩)
    · have hle : start ≤ r.pos/M.blockSize := (Nat.le_div_iff_mul_le M.blockSize_pos).mpr (by omega)
      exact source_read_congr (by rw [hagree _ hle])
    · have hlen := (source A readBlocks).length_le hb
      rw [source_read_pos hb,hr,hA.uint (by omega),List.length_append,Nat.add_assoc]
  · intro v r' hok
    have hpos : br.pos = A.uint (br.pos : ℕ) := (hA.uint (by omega)).symm
    rw [readFull_pos hpos hok,hA.uint (by omega)]
    omega

/-- So does what is decoded there. -/
lemma entryAt_from {L : ℕ} (hA : A.UpTo L) (hagree : ∀ p, start ≤ p → readBlocks' p = readBlocks p) (hs : start ≤ q)
    (hend : q*M.blockSize+(entryHeaderSize+M.maxAlloc) < L) :
    entryAt A readBlocks' q = entryAt A readBlocks q := by
  have hpos : (newBlockReader A M q).pos = q*M.blockSize := hA.uint (by omega)
  have hsame : Outcome.SameUnless (fun err => ∃ e, err.cause = some e ∧ False)
      (entryAt A readBlocks' q) (entryAt A readBlocks q) := by
    refine unmarshalEntry_sameUnless (I := fun k r => start*M.blockSize ≤ r.pos ∧ r.pos+k < L)
      (fun n k r hr => ?_) ⟨?_,?_⟩
    · obtain ⟨heq,hkeep⟩ := readFull_from (n := n) (k := k) hA hagree hr.1 hr.2
      exact ⟨.inl heq,hkeep⟩
    · rw [hpos]
      exact Nat.mul_le_mul_right _ hs
    · rwa [hpos]
  rcases hsame with heq | ⟨err,⟨e,-,hF⟩,-⟩
  · exact heq
  · exact hF.elim

end Locality

/-- What the caller of `OpenJournal` gets: an error, or data, revision and next block. -/
def opens (d : Device M) (start length : ℕ) : Outcome Unit ((List UInt8 × UInt32) × ℕ) :=
  ((openJournal d start length).mapError fun _ => ()).map fun j => (j.data,j.nextBlock)

/-- At no block that the region exposes, and at which it breaks off what is decoded,
does any continuation of the region make a trap. -/
def Device.Sealed (d : Device M) (start length : ℕ) : Prop :=
  ∀ e q, Exposed M.arith (d.only start (start+length)) start (M.arith.uint (start+length : ℕ)) e q →
    q < M.arith.uint (start+length : ℕ) → d.Leaves start (start+length) q →
    ∀ d', d.Agree d' start (start+length) → ¬ Trap d' e.revision q

section Rounds
variable {s : Scan}

/-- In a round that meets no trap outside the range, the range is all that is needed. -/
lemma scanBody_only {m : ℕ} (hnext : 0 < s.lastEntry.revision → s.lba = s.nextWriteLBA)
    (hno : s.lba < m → d.Leaves start stop s.lba → ¬ Trap d s.lastEntry.revision s.lba) :
    scanBody M.arith d.readBlocks m s = scanBody M.arith (d.only start stop) m s := by
  by_cases hlt : s.lba < m
  · rcases entryAt_only d start stop s.lba with heq | hleave
    · unfold scanBody
      rw [heq]
    · have htrap := hno hlt hleave
      obtain ⟨err,-,herr,-⟩ := hleave
      rw [scanBody_error hlt herr]
      cases he : entryAt M.arith d.readBlocks s.lba with
      | error err' => rw [scanBody_error hlt he]
      | panic p => exact absurd (.inr ⟨p,he⟩) htrap
      | ok x =>
        have hless : x.1.revision < s.lastEntry.revision :=
          UInt32.not_le.mp fun hle => htrap (.inl ⟨x.1,x.2,he,hle⟩)
        have hpos : 0 < s.lastEntry.revision := by
          rw [UInt32.lt_iff_toNat_lt] at hless ⊢
          exact Nat.zero_lt_of_lt hless
        rw [scanBody_ok hlt he,if_pos hpos,if_neg (UInt32.lt_asymm hless),if_pos hless,hnext hpos]
  · rw [scanBody_end hlt,scanBody_end hlt]

end Rounds

/-- If the region is sealed, every device with its blocks is scanned as the region alone. -/
lemma scan_only (h : d.Sealed start length) (ha : d.Agree d' start (start+length)) :
    scan M.arith d'.readBlocks start length = scan M.arith (d.only start (start+length)) start length := by
  apply Loop.exec_congr (scanLoop M.arith (d.only start (start+length)) start length)
    (scanLoop M.arith d'.readBlocks start length)
    (P := (scanLoop M.arith (d.only start (start+length)) start length).Reaches ⟨start,Entry.zero,start⟩)
  · exact fun s t hs hb => .tail hs hb
  · intro s hs
    change scanBody M.arith d'.readBlocks _ s = scanBody M.arith (d.only start (start+length)) _ s
    rw [← ha.only]
    refine scanBody_only (reaches_next hs) fun hlt hleave => ?_
    have hleave' : d.Leaves start (start+length) s.lba := by
      unfold Device.Leaves at hleave ⊢
      rwa [ha.only] at hleave
    exact h _ _ (reaches_iff_exposed.mp ⟨_,hs⟩) hlt hleave' d' ha
  · exact .refl _

section Unwrapped
variable (hspace : stop*M.blockSize+(entryHeaderSize+M.maxAlloc) ≤ M.space)
include hspace

lemma stop_lt_space : stop < M.space := by
  have hle : stop ≤ stop*M.blockSize := Nat.le_mul_of_pos_right _ M.blockSize_pos
  have h48 : entryHeaderSize = 48 := rfl
  omega

section Block
variable (hq : q < stop)
include hq

lemma record_lt_space : q*M.blockSize+(entryHeaderSize+M.maxAlloc) < M.space := by
  have hlt : q*M.blockSize < stop*M.blockSize := Nat.mul_lt_mul_of_pos_right hq M.blockSize_pos
  omega

/-- Whatever a block holds is decoded without a wrap. -/
lemma within_space (d : Device M) : d.Within q M.space := by
  have hlt := record_lt_space hspace hq
  exact ⟨by omega,fun _ hl => by omega⟩

lemma blockAfter_unwrapped (hl : e.dataLen.toNat ≤ M.maxAlloc) :
    blockAfter M.arith M q e = q+e.blocks M := by
  have hlt := record_lt_space hspace hq
  have hle := hspace
  have hblocks : q+numBlocks M (entryHeaderSize+e.dataLen.toNat) < M.space := by
    have hcount := e.blocks_pos M
    have hlast : (numBlocks M (entryHeaderSize+e.dataLen.toNat)-1)*M.blockSize <
        entryHeaderSize+e.dataLen.toNat :=
      (Blocks.lt_count_iff M.blockSize_pos _ _).mp (Nat.sub_lt hcount Nat.one_pos)
    have hmul : numBlocks M (entryHeaderSize+e.dataLen.toNat)-1 ≤
        (numBlocks M (entryHeaderSize+e.dataLen.toNat)-1)*M.blockSize :=
      Nat.le_mul_of_pos_right _ M.blockSize_pos
    have hqm : q < stop*M.blockSize := hq.trans_le (Nat.le_mul_of_pos_right _ M.blockSize_pos)
    omega
  exact blockAfter_of_upTo M.arith_upTo (by omega) hblocks

/-- The blocks of the range alone are decoded as on the device that ends with it. -/
lemma entryAt_confine (d : Device M) (hs : start ≤ q) :
    entryAt M.arith (d.confine stop).readBlocks q = entryAt M.arith (d.only start stop) q :=
  entryAt_from M.arith_upTo (fun _ hp => Device.confine_readBlocks hp) hs (record_lt_space hspace hq)

end Block

omit hspace in
lemma confine_isRecord (hr : d.IsRecord q)
    (hend : q+numBlocks M (entryHeaderSize+(d.dataLenAt q).toNat) ≤ stop) : (d.confine stop).IsRecord q := by
  have hsize : q+numBlocks M (entryHeaderSize+(d.dataLenAt q).toNat) ≤ (d.confine stop).size :=
    le_min hr.on_device hend
  have hread := (Device.readable_iff (d.confine stop) q _ (Nat.add_pos_left (by decide) _)).mpr hsize
  exact ⟨⟨hread.mono (Nat.le_add_right _ _),hr.magic,hr.revision⟩,hr.allocated,hsize,hr.checksum⟩

/-- A record that is decoded although the range breaks it off ends behind the range. -/
lemma past_of_leaves (hs : start ≤ q) (hq : q < stop) (hleave : d.Leaves start stop q) {br : BlockReader M}
    (he : entryAt M.arith d.readBlocks q = .ok (e,br)) : stop < q+e.blocks M := by
  by_contra hle
  obtain ⟨hr,rfl⟩ := isRecord_of_entryAt M.arith_upTo (within_space hspace hq d) he
  have hrec := confine_isRecord hr (Nat.le_of_not_lt hle)
  obtain ⟨br',hok⟩ := entryAt_of_isRecord M.arith_upTo (within_space hspace hq (d.confine stop)) hrec
  obtain ⟨err,-,herr,-⟩ := hleave
  rw [← entryAt_confine hspace hq d hs,hok] at herr
  cases herr

/-- A record of the confined device ends in the range. -/
lemma confine_ends (hq : q < stop) {br : BlockReader M}
    (he : entryAt M.arith (d.confine stop).readBlocks q = .ok (e,br)) : q+e.blocks M ≤ stop := by
  obtain ⟨hr,rfl⟩ := isRecord_of_entryAt M.arith_upTo (within_space hspace hq (d.confine stop)) he
  exact hr.on_device.trans (Nat.min_le_right _ _)

/-- A header whose length cannot be allocated, where it is broken off, is broken off itself. -/
lemma header_past_of_leaves (hs : start ≤ q) (hq : q < stop) (hleave : d.Leaves start stop q)
    (hp : entryAt M.arith d.readBlocks q = .panic p) : stop < q+numBlocks M entryHeaderSize := by
  by_contra hle
  obtain ⟨hh,hlt⟩ := isHeader_of_panic M.arith_upTo (within_space hspace hq d) hp
  have hsize : q+numBlocks M entryHeaderSize ≤ (d.confine stop).size :=
    le_min ((Device.readable_iff d q _ (by decide)).mp hh.readable) (Nat.le_of_not_lt hle)
  have hh' : (d.confine stop).IsHeader q :=
    ⟨(Device.readable_iff _ q _ (by decide)).mpr hsize,hh.magic,hh.revision⟩
  have hpanic := entryAt_of_large M.arith_upTo (within_space hspace hq (d.confine stop)) hh' hlt
  obtain ⟨err,-,herr,-⟩ := hleave
  rw [← entryAt_confine hspace hq d hs,hpanic] at herr
  cases herr

lemma confine_header_ends (hq : q < stop)
    (hp : entryAt M.arith (d.confine stop).readBlocks q = .panic p) : q+numBlocks M entryHeaderSize ≤ stop := by
  obtain ⟨hh,-⟩ := isHeader_of_panic M.arith_upTo (within_space hspace hq (d.confine stop)) hp
  exact ((Device.readable_iff _ q _ (by decide)).mp hh.readable).trans (Nat.min_le_right _ _)

/-- The rounds on the range alone are those on the device that ends with it. -/
lemma scanBody_confine {s : Scan} (hs : start ≤ s.lba) :
    scanBody M.arith (d.confine stop).readBlocks stop s = scanBody M.arith (d.only start stop) stop s := by
  by_cases hlt : s.lba < stop
  · unfold scanBody
    rw [entryAt_confine hspace hlt d hs]
  · rw [scanBody_end hlt,scanBody_end hlt]

/-- A round moves on. -/
lemma lba_le_of_again {readBlocks : ReadBlocks M} {s t : Scan} (hb : scanBody M.arith readBlocks stop s = .again t) :
    s.lba < t.lba := by
  obtain ⟨hlt,⟨err,-,-,rfl⟩ | ⟨e,br,he,-,rfl⟩⟩ := scanBody_eq_again hb
  · have hsucc : M.arith.uint (s.lba+1 : ℕ) = s.lba+1 :=
      M.arith_upTo.uint (Nat.lt_of_le_of_lt hlt (stop_lt_space hspace))
    dsimp only
    rw [hsucc]
    exact Nat.lt_succ_self _
  · have hpos := e.blocks_pos M
    dsimp only
    rw [blockAfter_unwrapped hspace hlt (entryAt_eq_ok he).2.1]
    omega

end Unwrapped

section Converse
variable (hspace : (start+length)*M.blockSize+(entryHeaderSize+M.maxAlloc) ≤ M.space)
include hspace

lemma uint_stop : M.arith.uint (start+length : ℕ) = start+length :=
  M.arith_upTo.uint (stop_lt_space hspace)

/-- The scan moves on from where it is. -/
lemma reaches_lba_le {readBlocks : ReadBlocks M} {s t : Scan}
    (h : (scanLoop M.arith readBlocks start length).Reaches s t) : s.lba ≤ t.lba := by
  refine h.keeps (P := fun t => s.lba ≤ t.lba) (fun t u ht hb => ?_) le_rfl
  change scanBody M.arith readBlocks (M.arith.uint (start+length : ℕ)) t = .again u at hb
  rw [uint_stop hspace] at hb
  exact ht.trans (lba_le_of_again hspace hb).le

/-- The states on the range alone are those on the device that ends with it. -/
lemma reaches_confine {s t : Scan} (hs : start ≤ s.lba)
    (h : (scanLoop M.arith (d.only start (start+length)) start length).Reaches s t) :
    (scanLoop M.arith (d.confine (start+length)).readBlocks start length).Reaches s t := by
  induction h with
  | refl => exact .refl _
  | @tail t u hst hb ih =>
    refine .tail ih ?_
    change scanBody M.arith (d.only start (start+length)) (M.arith.uint (start+length : ℕ)) t = .again u at hb
    change scanBody M.arith _ (M.arith.uint (start+length : ℕ)) t = .again u
    rw [uint_stop hspace] at hb ⊢
    rwa [scanBody_confine hspace (hs.trans (reaches_lba_le hspace hst))]

/-- What a scan returns was there when it began, or is decoded on the way. -/
lemma scan_result {readBlocks : ReadBlocks M} {s : Scan} {last : Entry} {next : ℕ}
    (h : (scanLoop M.arith readBlocks start length).exec s = .ok (last,next)) :
    last = s.lastEntry ∨ ∃ k br, s.lba ≤ k ∧ k < start+length ∧ entryAt M.arith readBlocks k = .ok (last,br) := by
  obtain ⟨t,hst,hleave⟩ := (scanLoop M.arith readBlocks start length).exists_leave s
  rw [h] at hleave
  have hlast : last = t.lastEntry := by
    obtain ⟨-,hr⟩ | ⟨-,⟨e,br,-,-,hr⟩ | ⟨e,br,-,-,hr⟩ | ⟨p,-,hr⟩⟩ := scanBody_eq_leave hleave <;> cases hr <;> rfl
  subst hlast
  clear h hleave
  induction hst with
  | refl => exact .inl rfl
  | @tail t u hst hb ih =>
    obtain ⟨hlt,⟨err,-,-,rfl⟩ | ⟨e,br,he,-,rfl⟩⟩ := scanBody_eq_again hb
    · exact ih
    · rw [uint_stop hspace] at hlt
      exact .inr ⟨t.lba,br,reaches_lba_le hspace hst,hlt,he⟩

lemma scan_panic {readBlocks : ReadBlocks M} {s : Scan}
    (h : (scanLoop M.arith readBlocks start length).exec s = .panic p) :
    ∃ k, s.lba ≤ k ∧ k < start+length ∧ entryAt M.arith readBlocks k = .panic p := by
  obtain ⟨t,hst,hleave⟩ := (scanLoop M.arith readBlocks start length).exists_leave s
  rw [h] at hleave
  obtain ⟨-,hr⟩ | ⟨hlt,⟨e,br,-,-,hr⟩ | ⟨e,br,-,-,hr⟩ | ⟨p',hp,hr⟩⟩ := scanBody_eq_leave hleave <;> cases hr
  rw [uint_stop hspace] at hlt
  exact ⟨t.lba,reaches_lba_le hspace hst,hlt,hp⟩

/-- How a scan goes on that has come to a trap that leaves the range. -/
lemma exec_trap {s : Scan} (hs : start ≤ s.lba) (hlt : s.lba < start+length)
    (hleave : d.Leaves start (start+length) s.lba) (h : Trap d s.lastEntry.revision s.lba) :
    (∃ e br next, entryAt M.arith d.readBlocks s.lba = .ok (e,br) ∧ s.lastEntry.revision < e.revision ∧
      (scanLoop M.arith d.readBlocks start length).exec s = .ok (e,next)) ∨
    (0 < s.lastEntry.revision ∧ ∃ err, (scanLoop M.arith d.readBlocks start length).exec s = .error err) ∨
    ∃ p, entryAt M.arith d.readBlocks s.lba = .panic p ∧
      (scanLoop M.arith d.readBlocks start length).exec s = .panic p := by
  have hlt' : s.lba < M.arith.uint (start+length : ℕ) := by rwa [uint_stop hspace]
  rcases h with ⟨e,br,he,hrev⟩ | ⟨p,hp⟩
  · have hb := scanBody_ok hlt' he
    obtain ⟨hne,hl,-⟩ := entryAt_eq_ok he
    by_cases hgt : s.lastEntry.revision < e.revision
    · rw [if_pos hgt,blockAfter_unwrapped hspace hlt hl] at hb
      have hpast := past_of_leaves hspace hs hlt hleave he
      refine .inl ⟨e,br,s.lba+e.blocks M,he,hgt,?_⟩
      rw [Loop.exec_again _ hb]
      refine Loop.exec_leave _ (scanBody_end ?_)
      rw [uint_stop hspace]
      exact Nat.not_lt_of_lt hpast
    · have hnot : ¬ e.revision < s.lastEntry.revision := UInt32.not_lt.mpr hrev
      rw [if_neg hgt,if_neg hnot] at hb
      have heq : s.lastEntry.revision = e.revision := UInt32.le_antisymm hrev (UInt32.not_lt.mp hgt)
      refine .inr (.inl ⟨?_,_,Loop.exec_leave _ hb⟩)
      rw [heq]
      exact UInt32.pos_iff_ne_zero.mpr hne
  · exact .inr (.inr ⟨p,hp,Loop.exec_leave _ (scanBody_panic hlt' hp)⟩)

/-- How the scan of the range alone goes on there. -/
lemma exec_broken {s : Scan} (hs : start ≤ s.lba) (hlt : s.lba < start+length)
    (hleave : d.Leaves start (start+length) s.lba) :
    (0 < s.lastEntry.revision ∧ ∃ next,
      (scanLoop M.arith (d.confine (start+length)).readBlocks start length).exec s = .ok (s.lastEntry,next)) ∨
    (¬ 0 < s.lastEntry.revision ∧
      (scanLoop M.arith (d.confine (start+length)).readBlocks start length).exec s =
      (scanLoop M.arith (d.confine (start+length)).readBlocks start length).exec {s with lba := s.lba+1}) := by
  have hlt' : s.lba < M.arith.uint (start+length : ℕ) := by rwa [uint_stop hspace]
  obtain ⟨err,-,herr,-⟩ := hleave
  rw [← entryAt_confine hspace hlt d hs] at herr
  have hb := scanBody_error hlt' herr
  by_cases hpos : 0 < s.lastEntry.revision
  · rw [if_pos hpos] at hb
    exact .inl ⟨hpos,_,Loop.exec_leave _ hb⟩
  · rw [if_neg hpos,M.arith.below hlt'] at hb
    exact .inr ⟨hpos,Loop.exec_again _ hb⟩

end Converse

section Ends
variable {r : Outcome JournalError (Entry × ℕ)} (h : scan M.arith d.readBlocks start length = r)
include h

lemma opens_of_ok {last : Entry} {next : ℕ} (hr : r = .ok (last,next)) : opens d start length =
    .ok ((last.data,last.revision),if M.arith.uint (start+length : ℕ) ≤ next then start else next) := by
  simp only [opens,openJournal,openJournalIn,h,hr,Outcome.map_ok,Outcome.mapError_ok]
  rfl

lemma opens_of_error {err : JournalError} (hr : r = .error err) : opens d start length = .error () := by
  simp only [opens,openJournal,openJournalIn,h,hr,Outcome.map_error,Outcome.mapError_error]

lemma opens_of_panic (hr : r = .panic p) : opens d start length = .panic p := by
  simp only [opens,openJournal,openJournalIn,h,hr,Outcome.map_panic,Outcome.mapError_panic]

end Ends

section Converse
variable (hspace : (start+length)*M.blockSize+(entryHeaderSize+M.maxAlloc) ≤ M.space)
include hspace

section Broken
variable {s : Scan} (hs : start ≤ s.lba) (hlt : s.lba < start+length)
  (hleave : d.Leaves start (start+length) s.lba)
include hs hlt hleave

/-- What the range alone opens to if its scan comes to a block where it breaks off what is
decoded: to the record found before, or, if there is none, to what lies behind. -/
lemma opens_confine
    (h : (scanLoop M.arith (d.only start (start+length)) start length).Reaches ⟨start,Entry.zero,start⟩ s) :
    (∃ next, opens (d.confine (start+length)) start length =
      .ok ((s.lastEntry.data,s.lastEntry.revision),next)) ∨
    ¬ 0 < s.lastEntry.revision ∧ (opens (d.confine (start+length)) start length = .error () ∨
      (∃ x br next k, s.lba < k ∧ k < start+length ∧
        entryAt M.arith (d.confine (start+length)).readBlocks k = .ok (x,br) ∧
        opens (d.confine (start+length)) start length = .ok ((x.data,x.revision),next)) ∨
      ∃ p k, s.lba < k ∧ k < start+length ∧
        entryAt M.arith (d.confine (start+length)).readBlocks k = .panic p ∧
        opens (d.confine (start+length)) start length = .panic p) := by
  have hexec : scan M.arith (d.confine (start+length)).readBlocks start length = _ :=
    (reaches_confine hspace le_rfl h).exec_eq
  rcases exec_broken hspace hs hlt hleave with ⟨-,next,hr⟩ | ⟨hz,hr⟩
  · exact .inl ⟨_,opens_of_ok hexec hr⟩
  · rw [hr] at hexec
    cases hx : (scanLoop M.arith (d.confine (start+length)).readBlocks start length).exec
        {s with lba := s.lba+1} with
    | error err => exact .inr ⟨hz,.inl (opens_of_error hexec hx)⟩
    | panic p =>
      obtain ⟨k,hk,hkstop,hp⟩ := scan_panic hspace hx
      exact .inr ⟨hz,.inr (.inr ⟨p,k,hk,hkstop,hp,opens_of_panic hexec hx⟩)⟩
    | ok y =>
      obtain ⟨x,next⟩ := y
      have hopens := opens_of_ok hexec hx
      rcases scan_result hspace hx with rfl | ⟨k,br,hk,hkstop,hok⟩
      · exact .inl ⟨_,hopens⟩
      · exact .inr ⟨hz,.inr (.inl ⟨x,br,_,k,hk,hkstop,hok,hopens⟩)⟩

/-- A trap that leaves the range makes a difference. -/
lemma opens_ne_confine
    (hreach : (scanLoop M.arith d.readBlocks start length).Reaches ⟨start,Entry.zero,start⟩ s)
    (honly : (scanLoop M.arith (d.only start (start+length)) start length).Reaches ⟨start,Entry.zero,start⟩ s)
    (htrap : Trap d s.lastEntry.revision s.lba) :
    opens d start length ≠ opens (d.confine (start+length)) start length := by
  have hexec : scan M.arith d.readBlocks start length = _ := hreach.exec_eq
  intro heq
  rcases exec_trap hspace hs hlt hleave htrap with ⟨e,br,next,he,hrev,hr⟩ | ⟨hpos,err,hr⟩ | ⟨p,hp,hr⟩
  · rw [opens_of_ok hexec hr] at heq
    rcases opens_confine hspace hs hlt hleave honly with
      ⟨next',h'⟩ | ⟨-,h' | ⟨x,br',next',k,hk,hkstop,hok,h'⟩ | ⟨p,k,-,-,-,h'⟩⟩ <;> rw [h'] at heq
    · injection heq with heq
      rw [(Prod.mk.inj (Prod.mk.inj heq).1).2] at hrev
      exact UInt32.lt_irrefl _ hrev
    · cases heq
    · injection heq with heq
      have hpast := past_of_leaves hspace hs hlt hleave he
      have hend := confine_ends hspace hkstop hok
      have hblocks : e.blocks M = x.blocks M := by
        rw [Entry.blocks,Entry.blocks,← (entryAt_eq_ok he).2.2.1,← (entryAt_eq_ok hok).2.2.1,
          (Prod.mk.inj (Prod.mk.inj heq).1).1]
      omega
    · cases heq
  · rw [opens_of_error hexec hr] at heq
    rcases opens_confine hspace hs hlt hleave honly with ⟨next',h'⟩ | ⟨hz,-⟩
    · rw [h'] at heq
      cases heq
    · exact hz hpos
  · rw [opens_of_panic hexec hr] at heq
    rcases opens_confine hspace hs hlt hleave honly with
      ⟨next',h'⟩ | ⟨-,h' | ⟨x,br',next',k,-,-,-,h'⟩ | ⟨p',k,hk,hkstop,hpanic,h'⟩⟩ <;> rw [h'] at heq
    · cases heq
    · cases heq
    · cases heq
    · have hpast := header_past_of_leaves hspace hs hlt hleave hp
      have hend := confine_header_ends hspace hkstop hpanic
      omega

end Broken

omit hspace in
/-- On the way to an exposed block, a device with the blocks of the range is scanned as the
range alone, up to the first trap that leaves the range. -/
lemma reaches_or_trap {s : Scan}
    (h : (scanLoop M.arith (d.only start (start+length)) start length).Reaches ⟨start,Entry.zero,start⟩ s) :
    (scanLoop M.arith d.readBlocks start length).Reaches ⟨start,Entry.zero,start⟩ s ∨
    ∃ t, (scanLoop M.arith d.readBlocks start length).Reaches ⟨start,Entry.zero,start⟩ t ∧
      (scanLoop M.arith (d.only start (start+length)) start length).Reaches ⟨start,Entry.zero,start⟩ t ∧
      t.lba < M.arith.uint (start+length : ℕ) ∧ d.Leaves start (start+length) t.lba ∧
      Trap d t.lastEntry.revision t.lba := by
  induction h with
  | refl => exact .inl (.refl _)
  | @tail s t hs hb ih =>
    rcases ih with ih | hfound
    · by_cases hc : s.lba < M.arith.uint (start+length : ℕ) ∧ d.Leaves start (start+length) s.lba ∧
        Trap d s.lastEntry.revision s.lba
      · exact .inr ⟨s,ih,hs,hc⟩
      · refine .inl (.tail ih ?_)
        have hsame : scanBody M.arith d.readBlocks (M.arith.uint (start+length : ℕ)) s =
            scanBody M.arith (d.only start (start+length)) (M.arith.uint (start+length : ℕ)) s :=
          scanBody_only (reaches_next hs) fun hlt hl hco => hc ⟨hlt,hl,hco⟩
        exact hsame.trans hb
    · exact .inr hfound

end Converse

/-- What `OpenJournal` returns is decided by the blocks of the region if the region is
sealed; and only then, as long as no read that begins in the region can run out of the
address space. -/
theorem open_decided_by_region_iff (d : Device M) (start length : ℕ) :
    (d.Sealed start length →
      ∀ d', d.Agree d' start (start+length) → opens d' start length = opens d start length) ∧
    ((start+length)*M.blockSize+(entryHeaderSize+M.maxAlloc) ≤ M.space →
      (∀ d', d.Agree d' start (start+length) → opens d' start length = opens d start length) →
      d.Sealed start length) := by
  constructor
  · intro hsealed d' ha
    have hd : d.Agree d start (start+length) := fun _ _ _ => rfl
    rw [opens,opens,openJournal,openJournal,openJournalIn,openJournalIn,scan_only hsealed ha,
      scan_only hsealed hd]
  · intro hspace hdecided e q hexp hq hleave d' ha htrap
    obtain ⟨n,hn⟩ := reaches_iff_exposed.mpr hexp
    have hleave' : d'.Leaves start (start+length) q := by
      unfold Device.Leaves at hleave ⊢
      rwa [ha.only]
    rw [← ha.only] at hn
    have hdiffer : opens d' start length ≠ opens (d'.confine (start+length)) start length := by
      rcases reaches_or_trap hn with hreach | ⟨t,hreach,honly,hlt,hl,htrap'⟩
      · rw [uint_stop hspace] at hq
        exact opens_ne_confine hspace (reaches_lba_le hspace hreach) hq hleave' hreach hn htrap
      · rw [uint_stop hspace] at hlt
        exact opens_ne_confine hspace (reaches_lba_le hspace hreach) hlt hl hreach honly htrap'
    apply hdiffer
    rw [hdecided d' ha,hdecided _ (ha.trans (.confine d' start _))]

/-- A header in the one block of the region, and behind the region a byte. -/
def spilled (b : UInt8) : Device smallMachine :=
  (Device.zeros smallMachine 2).store 0 2 ((Entry.ofData 1 [0x41]).bytes.take 48 ++ [b])

lemma spilled_block (b : UInt8) : (spilled b).block 0 =
    Blocks.cut smallMachine.blockSize ((Entry.ofData 1 [0x41]).bytes.take 48) 0 := by
  have hlen : ((Entry.ofData 1 [0x41]).bytes.take 48).length = 48 := by
    rw [List.length_take,bytes_length]
    rfl
  have h48 : (0+1)*smallMachine.blockSize = 48 := rfl
  rw [spilled,Device.store]
  dsimp only
  rw [Blocks.store_inside _ _ (Nat.le_refl 0) (by decide : 0 < 0+2),Nat.sub_self,
    Blocks.cut_append _ _ 0 (by rw [hlen,h48])]

/-- The header claims a byte of data with the checksum of `A`. The byte is read from
behind the region, and the record is adopted if it is `A`. -/
theorem open_reads_past_region :
    (spilled 0x41).Agree (spilled 0x42) 0 1 ∧ opens (spilled 0x41) 0 1 = .ok (([0x41],1),0) ∧
    opens (spilled 0x42) 0 1 = .ok (([],0),0) := by
  refine ⟨fun q hs hq => ?_,by decide +kernel,by decide +kernel⟩
  obtain rfl : q = 0 := by omega
  funext buf
  simp only [Device.readBlocks,spilled_block]
  rfl

end ArmoredWitness.Slots
