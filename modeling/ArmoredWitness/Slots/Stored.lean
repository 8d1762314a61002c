import ArmoredWitness.Slots.Journal

/-! Records on the device: the bytes of a record, the payloads that cannot pass
for a header, and what storing the leading blocks of a record does to the headers
of a region. -/
namespace ArmoredWitness.Slots
open Lib Lib.Sha256

variable {M : Machine}

/-- Behind a record that ends in the address space the scan goes on at the next block. -/
lemma blockAfter_of_end (hB : entryHeaderSize ≤ M.blockSize) {q : ℕ} {e : Entry}
    (hend : q*M.blockSize+(entryHeaderSize+e.dataLen.toNat) ≤ M.space) :
    blockAfter M.arith M q e = q+numBlocks M (entryHeaderSize+e.dataLen.toNat) := by
  refine blockAfter_of_upTo M.arith_upTo hend ?_
  have hafter := Blocks.pred_div_succ M.blockSize_pos q (entryHeaderSize+e.dataLen.toNat)
    (Nat.add_pos_left (by decide) _)
  change _ = q+numBlocks M _ at hafter
  have h48 : entryHeaderSize = 48 := rfl
  have hle : (q*M.blockSize+(entryHeaderSize+e.dataLen.toNat)-1)/M.blockSize ≤ (M.space-1)/48 :=
    (Nat.div_le_div_right (Nat.sub_le_sub_right hend 1)).trans (Nat.div_le_div_left hB (by decide))
  omega

/-- The blocks of a journal. A block has room for a header. -/
structure Region (M : Machine) where
  start : ℕ
  length : ℕ
  header_le : entryHeaderSize ≤ M.blockSize

namespace Region
variable (r : Region M)

def stop : ℕ := r.start+r.length

/-- The largest record that `Update` permits, in bytes. -/
def limit : ℕ := M.wrap (r.length*M.blockSize)/minEntries

lemma limit_le : r.limit ≤ M.maxInt := by
  have h : r.limit ≤ M.maxUint/3 := Nat.div_le_div_right (M.wrap_le_maxUint _)
  have hmax : M.maxUint = 2*M.maxInt+1 := rfl
  omega

/-- The byte positions of the region are `uint`s, up to the one after its last byte, which
may be zero again; and an `int` can hold, and `make` allocate, the sizes that occur. -/
structure Addressed : Prop where
  int_le : entryHeaderSize ≤ M.maxInt
  space : r.stop*M.blockSize ≤ M.space
  alloc : r.limit ≤ M.maxAlloc

namespace Addressed
variable {r} (h : r.Addressed)
include h

lemma stop_lt : r.stop < M.space := by
  have hpos := M.space_pos
  have hspace := h.space
  have hB : 48 ≤ M.blockSize := r.header_le
  have hle : r.stop*48 ≤ r.stop*M.blockSize := Nat.mul_le_mul_left _ hB
  omega

lemma uint_stop : M.arith.uint (r.start+r.length : ℕ) = r.stop := M.arith_upTo.uint h.stop_lt

lemma header_end {q : ℕ} (hq : q < r.stop) : q*M.blockSize+entryHeaderSize ≤ M.space := by
  have hB := r.header_le
  have hspace := h.space
  have hle : (q+1)*M.blockSize ≤ r.stop*M.blockSize := Nat.mul_le_mul_right _ hq
  rw [Nat.add_mul] at hle
  omega

/-- The byte after a record that ends in the region. -/
lemma record_end {q n : ℕ} (hq : q+numBlocks M n ≤ r.stop) : q*M.blockSize+n ≤ M.space := by
  have hle := Blocks.le_count_mul M.blockSize_pos n
  calc q*M.blockSize+n ≤ q*M.blockSize+numBlocks M n*M.blockSize := Nat.add_le_add_left hle _
    _ = (q+numBlocks M n)*M.blockSize := (Nat.add_mul _ _ _).symm
    _ ≤ r.stop*M.blockSize := Nat.mul_le_mul_right _ hq
    _ ≤ M.space := h.space

/-- After a record that ends in the region, the scan goes on at the block behind it. -/
lemma blockAfter_eq {q : ℕ} {e : Entry} (hq : q+numBlocks M (entryHeaderSize+e.dataLen.toNat) ≤ r.stop) :
    blockAfter M.arith M q e = q+numBlocks M (entryHeaderSize+e.dataLen.toNat) :=
  blockAfter_of_end r.header_le (h.record_end hq)

end Addressed

/-- Three records of the permitted size exceed the region by at most two blocks. -/
lemma three_mul_numBlocks_le {n : ℕ} (h : n ≤ r.limit) : 3*numBlocks M n ≤ r.length+2 := by
  by_contra hc
  have hlt : (numBlocks M n-1)*M.blockSize < n :=
    (Blocks.lt_count_iff M.blockSize_pos _ _).mp (by change numBlocks M n-1 < numBlocks M n; omega)
  have h3 : n*3 ≤ r.length*M.blockSize :=
    ((Nat.le_div_iff_mul_le (by decide)).mp h).trans (M.wrap_le _)
  have hle : r.length*M.blockSize ≤ 3*(numBlocks M n-1)*M.blockSize := Nat.mul_le_mul_right _ (by omega)
  have heq : 3*(numBlocks M n-1)*M.blockSize = 3*((numBlocks M n-1)*M.blockSize) := by ring
  omega

end Region

namespace Entry

/-- The bytes of a record. -/
def bytes (e : Entry) : List UInt8 :=
  e.magic.toList ++ BigEndian.encode 4 e.revision.toNat ++
    BigEndian.encode 8 e.dataLen.toNat ++ e.dataSHA256.toList ++ e.data

/-- The number of blocks of a record. -/
def blocks (M : Machine) (e : Entry) : ℕ := numBlocks M (entryHeaderSize+e.dataLen.toNat)

lemma blocks_pos (M : Machine) (e : Entry) : 0 < e.blocks M :=
  Blocks.count_pos M.blockSize_pos _ (by simp [entryHeaderSize])

end Entry

section OfData
variable (rev : UInt32) (data : List UInt8)

lemma marshalEntry_ofData : marshalEntry (Entry.ofData rev data) = .ok (Entry.ofData rev data).bytes := by
  simp [marshalEntry,Entry.ofData,Entry.bytes,List.Vector.toList]

lemma bytes_length : (Entry.ofData rev data).bytes.length = entryHeaderSize+data.length := by
  simp only [Entry.bytes,Entry.ofData,List.length_append,List.Vector.toList_length,
    BigEndian.encode_length]
  rfl

@[simp] lemma ofData_revision : (Entry.ofData rev data).revision = rev := rfl
@[simp] lemma ofData_data : (Entry.ofData rev data).data = data := rfl

variable {rev data} in
lemma drop_bytes {j : ℕ} (h : entryHeaderSize ≤ j) :
    (Entry.ofData rev data).bytes.drop j = data.drop (j-entryHeaderSize) := by
  obtain ⟨i,rfl⟩ := Nat.exists_eq_add_of_le h
  rw [Entry.bytes,← List.drop_drop,List.drop_left' (by simp [entryHeaderSize]),Nat.add_sub_cancel_left]
  rfl

variable {data} (hlen : data.length ≤ M.maxInt)
include hlen

lemma ofData_dataLen : (Entry.ofData rev data).dataLen.toNat = data.length := by
  have hM := M.maxInt_lt
  simp only [Entry.ofData,UInt64.toNat_ofNat']
  omega

lemma blocks_ofData : (Entry.ofData rev data).blocks M = numBlocks M (entryHeaderSize+data.length) := by
  rw [Entry.blocks,ofData_dataLen rev hlen]

omit hlen in
lemma Region.blocks_ofData (r : Region M) (hsize : entryHeaderSize+data.length ≤ r.limit) :
    (Entry.ofData rev data).blocks M = numBlocks M (entryHeaderSize+data.length) := by
  have hlim := r.limit_le
  exact Slots.blocks_ofData rev (by omega)

end OfData

/-- No block of the record after its first begins with the magic. -/
def FreeOfMagic (M : Machine) (data : List UInt8) : Prop :=
  ∀ i < numBlocks M (entryHeaderSize+data.length), 0 < i →
    (data.drop (i*M.blockSize-entryHeaderSize)).take 4 ≠ magic0

/-- No block of the record after its first begins with the magic or ends, after
one to three bytes of data, as if it went on to spell it. -/
def FreeOfMagicStart (M : Machine) (data : List UInt8) : Prop :=
  ∀ i < numBlocks M (entryHeaderSize+data.length), 0 < i →
    ¬ (data.drop (i*M.blockSize-entryHeaderSize)).take 4 <+: magic0

instance (data : List UInt8) : Decidable (FreeOfMagic M data) :=
  inferInstanceAs (Decidable (∀ i < _, 0 < i → _))

instance (data : List UInt8) : Decidable (FreeOfMagicStart M data) :=
  inferInstanceAs (Decidable (∀ i < _, 0 < i → _))

namespace Device
variable {d d' : Device M} {q : ℕ}

lemma bytesAt_congr (i n : ℕ) (h : ∀ p, q ≤ p → p < q+numBlocks M (i+n) → d'.block p = d.block p) :
    d'.bytesAt q i n = d.bytesAt q i n :=
  List.Vector.eq _ _ (Blocks.cells_congr M.blockSize_pos q i n h)

/-- The data of a record, from the blocks of the record. -/
lemma dataAt_congr (hl : d'.dataLenAt q = d.dataLenAt q)
    (h : ∀ p, q ≤ p → p < q+numBlocks M (entryHeaderSize+(d.dataLenAt q).toNat) →
      d'.block p = d.block p) : d'.dataAt q = d.dataAt q := by
  unfold dataAt
  rw [hl,bytesAt_congr _ _ h]

section HeaderBlocks
variable (h : ∀ p, q ≤ p → p < q+numBlocks M entryHeaderSize → d'.block p = d.block p)
include h

/-- The fields of a header, from the blocks of the header. -/
lemma bytesAt_header (i n : ℕ) (hn : i+n ≤ entryHeaderSize) : d'.bytesAt q i n = d.bytesAt q i n := by
  have hle := Blocks.count_mono M.blockSize_pos hn
  exact bytesAt_congr i n fun p hp hp' => h p hp (hp'.trans_le (Nat.add_le_add_left hle q))

lemma magicAt_header : d'.magicAt q = d.magicAt q := bytesAt_header h 0 4 (by decide)

lemma revisionAt_header : d'.revisionAt q = d.revisionAt q := by
  unfold revisionAt
  rw [bytesAt_header h 4 4 (by decide)]

lemma dataLenAt_header : d'.dataLenAt q = d.dataLenAt q := by
  unfold dataLenAt
  rw [bytesAt_header h 8 8 (by decide)]

lemma shaAt_header : d'.shaAt q = d.shaAt q := bytesAt_header h 16 32 (by decide)

end HeaderBlocks

section Header
variable (hB : entryHeaderSize ≤ M.blockSize) (h : d'.block q = d.block q)
include hB h

/-- A header lies in one block. -/
lemma header_block : ∀ p, q ≤ p → p < q+numBlocks M entryHeaderSize → d'.block p = d.block p := by
  intro p hp hp'
  have h1 : numBlocks M entryHeaderSize ≤ 1 := (Blocks.count_le_iff M.blockSize_pos _ _).mpr (by omega)
  rwa [show p = q by omega]

lemma magicAt_congr : d'.magicAt q = d.magicAt q := magicAt_header (header_block hB h)

lemma revisionAt_congr : d'.revisionAt q = d.revisionAt q := revisionAt_header (header_block hB h)

lemma dataLenAt_congr : d'.dataLenAt q = d.dataLenAt q := dataLenAt_header (header_block hB h)

lemma shaAt_congr : d'.shaAt q = d.shaAt q := shaAt_header (header_block hB h)

lemma isHeader_congr (hs : d'.size = d.size) : d'.IsHeader q ↔ d.IsHeader q := by
  have hr : d'.Readable (q*M.blockSize) entryHeaderSize ↔ d.Readable (q*M.blockSize) entryHeaderSize := by
    unfold Readable
    rw [hs]
  constructor
  · rintro ⟨hread,hmagic,hrev⟩
    rw [magicAt_congr hB h] at hmagic
    rw [revisionAt_congr hB h] at hrev
    exact ⟨hr.mp hread,hmagic,hrev⟩
  · rintro ⟨hread,hmagic,hrev⟩
    rw [← magicAt_congr hB h] at hmagic
    rw [← revisionAt_congr hB h] at hrev
    exact ⟨hr.mpr hread,hmagic,hrev⟩

end Header

/-- A block of zeros carries no header. -/
lemma not_isHeader_zero (h : d.block q = zeroBlock M) : ¬ d.IsHeader q := by
  intro hh
  have hz : Blocks.cell d.block (q*M.blockSize+0) = 0 := by
    rw [Blocks.cell_block M.blockSize_pos,Nat.zero_div,Nat.zero_mod,Nat.add_zero,h,zeroBlock,
      Blocks.cut_getD _ _ _ M.blockSize_pos]
    rfl
  have hm : (Blocks.cells d.block (q*M.blockSize+0) 4).getD 0 0 = magic0.getD 0 0 :=
    congrArg (fun l => l.getD 0 0) hh.magic
  rw [Blocks.cells_getD _ _ _ _ (by omega),Nat.add_zero (_+0),hz] at hm
  exact absurd hm (by decide)

lemma not_isHeader_within {L : ℕ} (h : ¬ d.IsHeader q) (hend : q*M.blockSize+entryHeaderSize ≤ L) :
    d.Within q L := ⟨hend,fun hc => absurd hc h⟩

lemma sees_of_not_isHeader (h : ¬ d.IsHeader q) (hend : q*M.blockSize+entryHeaderSize ≤ M.space) :
    d.sees q = .error () := by
  rcases entryAt_cases M.arith_upTo (not_isHeader_within h hend) with ⟨hr,-⟩ | ⟨-,-,e,he⟩ | ⟨hh,-⟩
  · exact absurd hr.toIsHeader h
  · exact sees_of_error he
  · exact absurd hh.1 h

/-- A block of zeros that the reader can reach. -/
lemma sees_zero (h : d.block q = zeroBlock M) (hend : q*M.blockSize+entryHeaderSize ≤ M.space) :
    d.sees q = .error () := sees_of_not_isHeader (not_isHeader_zero h) hend

end Device

/-- The bytes `b` lie on the device, from the beginning of block `q` on. -/
def Device.Spells (d : Device M) (q : ℕ) (b : List UInt8) : Prop :=
  Blocks.cells d.block (q*M.blockSize) b.length = b

section Spelled
variable {d : Device M} {q : ℕ} {rev : UInt32} {data : List UInt8}

lemma Device.Spells.bytesAt {b : List UInt8} (h : d.Spells q b) (i m : ℕ) (hm : i+m ≤ b.length) :
    (d.bytesAt q i m).toList = (b.drop i).take m := by
  conv_rhs => rw [← h]
  rw [Blocks.cells_drop_take,Nat.min_eq_left (by omega)]
  rfl

lemma Device.Spells.take {b : List UInt8} (h : d.Spells q b) (n : ℕ) : d.Spells q (b.take n) := by
  have htake : (Blocks.cells d.block (q*M.blockSize) b.length).take n =
      Blocks.cells d.block (q*M.blockSize) (min n b.length) := by
    have hdrop := Blocks.cells_drop_take d.block (q*M.blockSize) b.length 0 n
    rwa [List.drop_zero,Nat.sub_zero,Nat.add_zero] at hdrop
  rw [h] at htake
  rw [Device.Spells,List.length_take]
  exact htake.symm

section Header
variable (h : d.Spells q ((Entry.ofData rev data).bytes.take entryHeaderSize))
include h

lemma header_spelled (i m : ℕ) (hm : i+m ≤ entryHeaderSize) :
    (d.bytesAt q i m).toList = ((Entry.ofData rev data).bytes.drop i).take m := by
  rw [h.bytesAt i m (by rw [List.length_take,bytes_length]; omega),List.drop_take,List.take_take,
    Nat.min_eq_left (by omega)]

lemma magicAt_spelled : (d.magicAt q).toList = magic0 := by
  rw [Device.magicAt,header_spelled h 0 4 (by decide)]
  rfl

lemma revisionAt_spelled : d.revisionAt q = rev := by
  have hb : ((Entry.ofData rev data).bytes.drop 4).take 4 = BigEndian.encode 4 rev.toNat := by
    simp [Entry.bytes,Entry.ofData,magic0,List.Vector.toList]
  have hlt := rev.toNat_lt
  rw [Device.revisionAt,bigEndianUint32,header_spelled h 4 4 (by decide),hb,
    BigEndian.decode_encode_of_lt (by omega),UInt32.ofNat_toNat]

lemma dataLenAt_spelled : d.dataLenAt q = (Entry.ofData rev data).dataLen := by
  have hb : ((Entry.ofData rev data).bytes.drop 8).take 8 =
      BigEndian.encode 8 (Entry.ofData rev data).dataLen.toNat := by
    simp [Entry.bytes,Entry.ofData,magic0,List.Vector.toList]
  have hlt := (Entry.ofData rev data).dataLen.toNat_lt
  rw [Device.dataLenAt,bigEndianUint64,header_spelled h 8 8 (by decide),hb,
    BigEndian.decode_encode_of_lt (by omega),UInt64.ofNat_toNat]

lemma shaAt_spelled : d.shaAt q = sum256 data := by
  apply List.Vector.eq
  rw [Device.shaAt,header_spelled h 16 32 (by decide),Entry.bytes,List.append_assoc _ (List.Vector.toList _),
    List.drop_left' (by simp),List.take_left' (List.Vector.toList_length _)]
  rfl

lemma entryOf_spelled (hdata : d.dataAt q = data) : d.entryOf q = Entry.ofData rev data := by
  unfold Device.entryOf
  rw [revisionAt_spelled h,dataLenAt_spelled h,shaAt_spelled h,hdata,
    List.Vector.eq _ ⟨magic0,rfl⟩ (magicAt_spelled h)]
  rfl

end Header

/-- The data of a record that is all there. -/
lemma dataAt_spelled (h : d.Spells q (Entry.ofData rev data).bytes) (hlen : data.length ≤ M.maxInt) :
    d.dataAt q = data := by
  unfold Device.dataAt
  rw [dataLenAt_spelled (h.take _),ofData_dataLen rev hlen,h.bytesAt _ _ (bytes_length rev data).ge,
    drop_bytes le_rfl,Nat.sub_self,List.drop_zero,List.take_length]

end Spelled

section Store
variable {d : Device M} {n k : ℕ} {rev : UInt32} {data : List UInt8}

/-- What is stored lies on the device. -/
lemma spells_store (b : List UInt8) (m : ℕ) (hk : m ≤ k*M.blockSize) :
    (d.store n k b).Spells n (b.take m) := by
  have hcells := Blocks.cells_store M.blockSize_pos d.block n k 0 (min m b.length) b (by omega) (by omega)
  rw [Nat.add_zero,List.drop_zero] at hcells
  rw [Device.Spells,List.length_take]
  exact hcells.trans (List.take_eq_take_iff.mpr (by omega))

section HeaderStored
variable (hB : entryHeaderSize ≤ M.blockSize) (hk : 0 < k)
include hB hk

lemma header_stored : (d.store n k (Entry.ofData rev data).bytes).Spells n
    ((Entry.ofData rev data).bytes.take entryHeaderSize) :=
  spells_store _ _ (hB.trans (Nat.le_mul_of_pos_left _ hk))

lemma magicAt_stored : ((d.store n k (Entry.ofData rev data).bytes).magicAt n).toList = magic0 :=
  magicAt_spelled (header_stored hB hk)

lemma revisionAt_stored : (d.store n k (Entry.ofData rev data).bytes).revisionAt n = rev :=
  revisionAt_spelled (header_stored hB hk)

lemma dataLenAt_stored : (d.store n k (Entry.ofData rev data).bytes).dataLenAt n =
    (Entry.ofData rev data).dataLen := dataLenAt_spelled (header_stored hB hk)

lemma shaAt_stored : (d.store n k (Entry.ofData rev data).bytes).shaAt n = sum256 data :=
  shaAt_spelled (header_stored hB hk)

lemma isHeader_stored (hrev : rev ≠ 0) (hn : n < d.size) :
    (d.store n k (Entry.ofData rev data).bytes).IsHeader n := by
  refine ⟨?_,magicAt_stored hB hk,by rwa [revisionAt_stored hB hk]⟩
  have h1 : numBlocks M entryHeaderSize ≤ 1 :=
    (Blocks.count_le_iff M.blockSize_pos _ _).mpr (by omega)
  exact (Device.readable_iff _ _ _ (by decide)).mpr (by rw [Device.store_size]; omega)

lemma entryOf_stored (hdata : (d.store n k (Entry.ofData rev data).bytes).dataAt n = data) :
    (d.store n k (Entry.ofData rev data).bytes).entryOf n = Entry.ofData rev data :=
  entryOf_spelled (header_stored hB hk) hdata

omit hB hk in
/-- A record stored in full is read back. -/
lemma dataAt_stored (hlen : data.length ≤ M.maxInt)
    (hfull : numBlocks M (entryHeaderSize+data.length) ≤ k) :
    (d.store n k (Entry.ofData rev data).bytes).dataAt n = data := by
  have hle := (Blocks.count_le_iff M.blockSize_pos _ _).mp hfull
  have hspells := spells_store (d := d) (n := n) (Entry.ofData rev data).bytes
    (Entry.ofData rev data).bytes.length (by rw [bytes_length]; exact hle)
  rw [List.take_length] at hspells
  exact dataAt_spelled hspells hlen

end HeaderStored

/-- The blocks stored after the first one carry no header. -/
lemma not_isHeader_stored (hB : entryHeaderSize ≤ M.blockSize) (hfree : FreeOfMagic M data)
    (hk : k ≤ numBlocks M (entryHeaderSize+data.length)) {q : ℕ} (hn : n < q) (hq : q < n+k) :
    ¬ (d.store n k (Entry.ofData rev data).bytes).IsHeader q := by
  intro hh
  obtain ⟨i,rfl⟩ := Nat.exists_eq_add_of_le hn.le
  have h48 : entryHeaderSize = 48 := rfl
  have hi : M.blockSize ≤ i*M.blockSize := Nat.le_mul_of_pos_left _ (by omega)
  have hpos : (n+i)*M.blockSize+0 = n*M.blockSize+i*M.blockSize := by ring
  have hmagic : Blocks.cells (d.store n k (Entry.ofData rev data).bytes).block
      (n*M.blockSize+i*M.blockSize) 4 = magic0 := hpos ▸ hh.magic
  have hlast := congrArg (fun l => l.getD 3 0) hmagic
  have hdiv : (i*M.blockSize+3)/M.blockSize < k := by
    rw [Nat.mul_comm,Nat.mul_add_div M.blockSize_pos,Nat.div_eq_of_lt (by omega)]
    omega
  simp only [Blocks.cells_getD _ _ 4 3 (by decide),Nat.add_assoc] at hlast
  rw [Device.store,Blocks.cell_store M.blockSize_pos _ _ _ _ _ hdiv] at hlast
  have hlen : i*M.blockSize+3 < (Entry.ofData rev data).bytes.length := by
    by_contra hge
    rw [List.getD_eq_default _ _ (by omega)] at hlast
    exact absurd hlast (by decide)
  have hfit : i*M.blockSize+4 ≤ k*M.blockSize := by
    have hik : (i+1)*M.blockSize ≤ k*M.blockSize := Nat.mul_le_mul_right _ (by omega)
    rw [Nat.add_mul] at hik
    omega
  rw [Device.store,Blocks.cells_store M.blockSize_pos _ _ _ _ _ _ hfit (by omega),
    drop_bytes (by omega)] at hmagic
  exact hfree i (by omega) (by omega) hmagic

end Store

/-- A record that is all there has no header inside it, if its payload cannot
spell the beginning of one. -/
lemma not_isHeader_inside {d : Device M} {n q : ℕ} {data : List UInt8}
    (hB : entryHeaderSize ≤ M.blockSize) (hstart : FreeOfMagicStart M data)
    (hlen : (d.dataLenAt n).toNat = data.length) (hdata : d.dataAt n = data) (hn : n < q)
    (hq : q < n+numBlocks M (entryHeaderSize+data.length)) : ¬ d.IsHeader q := by
  intro hh
  obtain ⟨i,rfl⟩ := Nat.exists_eq_add_of_le hn.le
  have hi : M.blockSize ≤ i*M.blockSize := Nat.le_mul_of_pos_left _ (by omega)
  have hcells : data = Blocks.cells d.block (n*M.blockSize+entryHeaderSize) data.length := by
    conv_lhs => rw [← hdata]
    rw [← hlen]
    rfl
  have hpos : (n+i)*M.blockSize+0 =
      n*M.blockSize+entryHeaderSize+(i*M.blockSize-entryHeaderSize) := by
    rw [Nat.add_mul]
    omega
  have hmagic : Blocks.cells d.block (n*M.blockSize+entryHeaderSize+
      (i*M.blockSize-entryHeaderSize)) 4 = magic0 := hpos ▸ hh.magic
  apply hstart i (by omega) (by omega)
  rw [hcells,Blocks.cells_drop_take,← hmagic,
    ← Blocks.cells_take _ _ 4 _ (Nat.min_le_left _ _)]
  exact List.take_prefix _ _

namespace Device
variable (d : Device M) (r : Region M)

/-- The region lies on the device, within reach, and holds zeros only. -/
structure Blank : Prop where
  addressed : r.Addressed
  on_device : r.stop ≤ d.size
  zero : ∀ q, r.start ≤ q → q < r.stop → d.block q = zeroBlock M

/-- The region lies on the device, within reach, and every header in it was put there
by a permitted update. -/
structure Tidy : Prop where
  addressed : r.Addressed
  on_device : r.stop ≤ d.size
  fits : ∀ q, r.start ≤ q → q < r.stop → d.IsHeader q →
    q+numBlocks M (entryHeaderSize+(d.dataLenAt q).toNat) ≤ r.stop
  permitted : ∀ q, r.start ≤ q → q < r.stop → d.IsHeader q →
    entryHeaderSize+(d.dataLenAt q).toNat ≤ r.limit

/-- The region is within reach, and so is every record that a header in it claims. -/
structure Bounded : Prop where
  addressed : r.Addressed
  within : ∀ q, r.start ≤ q → q < r.stop → d.Within q M.space

variable {d r}

lemma Blank.tidy (h : d.Blank r) : d.Tidy r where
  addressed := h.addressed
  on_device := h.on_device
  fits q hs hq hh := absurd hh (not_isHeader_zero (h.zero q hs hq))
  permitted q hs hq hh := absurd hh (not_isHeader_zero (h.zero q hs hq))

/-- After storing a part of a record, the headers are the one of the record and those
that were there before. -/
lemma isHeader_store_cases {n k q : ℕ} {rev : UInt32} {data : List UInt8}
    (hB : entryHeaderSize ≤ M.blockSize) (hfree : FreeOfMagic M data)
    (hk : k ≤ numBlocks M (entryHeaderSize+data.length))
    (hh : (d.store n k (Entry.ofData rev data).bytes).IsHeader q) :
    q = n ∧ (d.store n k (Entry.ofData rev data).bytes).dataLenAt q = (Entry.ofData rev data).dataLen ∨
    d.IsHeader q ∧ (d.store n k (Entry.ofData rev data).bytes).dataLenAt q = d.dataLenAt q := by
  by_cases hout : q < n ∨ n+k ≤ q
  · have hblock := d.store_outside (Entry.ofData rev data).bytes hout
    exact .inr ⟨(isHeader_congr hB hblock rfl).mp hh,dataLenAt_congr hB hblock⟩
  · have hqn : q = n := by
      by_contra hne
      exact not_isHeader_stored hB hfree hk (by omega) (by omega) hh
    subst hqn
    exact .inl ⟨rfl,dataLenAt_stored hB (by omega)⟩

/-- Storing any part of a permitted record keeps the region tidy. -/
theorem Tidy.store (h : d.Tidy r) {n k : ℕ} {data : List UInt8} (rev : UInt32)
    (hfree : FreeOfMagic M data) (hsize : entryHeaderSize+data.length ≤ r.limit)
    (hfit : n+numBlocks M (entryHeaderSize+data.length) ≤ r.stop)
    (hk : k ≤ numBlocks M (entryHeaderSize+data.length)) :
    (d.store n k (Entry.ofData rev data).bytes).Tidy r := by
  have hB := r.header_le
  have hlen : data.length ≤ M.maxInt := by
    have hlim := r.limit_le
    omega
  have hl := ofData_dataLen (M := M) rev hlen
  refine ⟨h.addressed,h.on_device,fun q hs hq hh => ?_,fun q hs hq hh => ?_⟩
  · rcases isHeader_store_cases hB hfree hk hh with ⟨rfl,hq'⟩ | ⟨hd,hq'⟩
    · rwa [hq',hl]
    · rw [hq']
      exact h.fits q hs hq hd
  · rcases isHeader_store_cases hB hfree hk hh with ⟨rfl,hq'⟩ | ⟨hd,hq'⟩
    · rwa [hq',hl]
    · rw [hq']
      exact h.permitted q hs hq hd

/-- Far enough from the end of the address space nothing can be out of reach. -/
lemma Bounded.of_space (hr : r.Addressed) (h : r.stop*M.blockSize+(entryHeaderSize+M.maxAlloc) ≤ M.space)
    (d : Device M) : d.Bounded r := by
  refine ⟨hr,fun q _ hq => ⟨hr.header_end hq,fun _ hlen => ?_⟩⟩
  have hle : q*M.blockSize ≤ r.stop*M.blockSize := Nat.mul_le_mul_right _ hq.le
  omega

/-- What is known of a record that is decoded within reach. -/
lemma Bounded.entryAt_eq_ok (h : d.Bounded r) {q : ℕ} (hs : r.start ≤ q) (hq : q < r.stop) {e : Entry}
    {br : BlockReader M} (he : entryAt M.arith d.readBlocks q = .ok (e,br)) :
    d.IsRecord q ∧ e = d.entryOf q ∧ blockAfter M.arith M q e = q+e.blocks M := by
  have hw := h.within q hs hq
  obtain ⟨hr,rfl⟩ := isRecord_of_entryAt M.arith_upTo hw he
  exact ⟨hr,rfl,blockAfter_of_end r.header_le (hw.data hr.toIsHeader hr.allocated)⟩

namespace Tidy
variable (h : d.Tidy r)

lemma bounded (h : d.Tidy r) : d.Bounded r :=
  ⟨h.addressed,fun q hs hq =>
    ⟨h.addressed.header_end hq,fun hh _ => h.addressed.record_end (h.fits q hs hq hh)⟩⟩

variable {q : ℕ} (hs : r.start ≤ q) (hq : q < r.stop)
include h hs hq

/-- In a tidy region decoding gives the record that lies at the block, or an error. -/
theorem entryAt_cases :
    d.IsRecord q ∧ (∃ br, entryAt M.arith d.readBlocks q = .ok (d.entryOf q,br)) ∨
    ¬ d.IsRecord q ∧ ∃ e, entryAt M.arith d.readBlocks q = .error e := by
  rcases Slots.entryAt_cases M.arith_upTo (h.bounded.within q hs hq) with hok | ⟨hn,-,he⟩ | ⟨⟨hh,hlt⟩,-⟩
  · exact .inl hok
  · exact .inr ⟨hn,he⟩
  · have hle := h.permitted q hs hq hh
    have halloc := h.addressed.alloc
    omega

/-- What is known of a record that is decoded there. -/
lemma entryAt_eq_ok {e : Entry} {br : BlockReader M} (he : entryAt M.arith d.readBlocks q = .ok (e,br)) :
    d.IsRecord q ∧ e = d.entryOf q ∧ q+e.blocks M ≤ r.stop ∧ blockAfter M.arith M q e = q+e.blocks M := by
  obtain ⟨hr,rfl,hafter⟩ := h.bounded.entryAt_eq_ok hs hq he
  exact ⟨hr,rfl,h.fits q hs hq hr.toIsHeader,hafter⟩

lemma sees_cases : d.IsRecord q ∧ d.sees q = .ok (d.entryOf q) ∨ ¬ d.IsRecord q ∧ d.sees q = .error () := by
  rcases h.entryAt_cases hs hq with ⟨hr,br,he⟩ | ⟨hn,e,he⟩
  · exact .inl ⟨hr,sees_of_ok he⟩
  · exact .inr ⟨hn,sees_of_error he⟩

end Tidy
end Device
end ArmoredWitness.Slots
