import ArmoredWitness.Slots.Stored

/-! The record format in both directions. `unmarshalEntry` is run here on a byte
string; what it accepts are exactly the records that `marshalEntry` writes, each
of them spelled in one way. -/
namespace ArmoredWitness.Slots
open Lib Lib.Sha256

/-- `io.ReadFull` on a byte string that is consumed from the front. -/
def readBytes : ReadFull (List UInt8) := fun n b =>
  if h : n ≤ b.length then .ok (⟨b.take n,by simp [h]⟩,b.drop n)
  else .error (if b = [] then .eof else .unexpectedEOF)

@[simp] lemma readBytes_append {n : ℕ} (v : List.Vector UInt8 n) (t : List UInt8) :
    readBytes n (v.toList ++ t) = .ok (v,t) := by
  have hv : v.toList.length = n := v.toList_length
  have hle : n ≤ (v.toList ++ t).length := by simp
  have htake : (⟨(v.toList ++ t).take n,by simp⟩ : List.Vector UInt8 n) = v :=
    List.Vector.eq _ _ (List.take_left' hv)
  rw [readBytes,dif_pos hle,htake,List.drop_left' hv]

lemma readBytes_eq_ok {n : ℕ} {b t : List UInt8} {v : List.Vector UInt8 n}
    (h : readBytes n b = .ok (v,t)) : b = v.toList ++ t := by
  unfold readBytes at h
  split at h
  · cases h
    exact (List.take_append_drop n b).symm
  · cases h

/-- The conditions on a record: the magic, a revision that is not zero, and a
length and a checksum that are those of the data. -/
structure Entry.WellFormed (e : Entry) : Prop where
  magic : e.magic.toList = magic0
  revision : e.revision ≠ 0
  dataLen : e.dataLen.toNat = e.data.length
  dataSHA256 : sum256 e.data = e.dataSHA256

section Fields

/-- The four bytes of a revision. -/
def revisionBytes (rev : UInt32) : List.Vector UInt8 4 := ⟨BigEndian.encode 4 rev.toNat,BigEndian.encode_length _ _⟩

/-- The eight bytes of a length. -/
def dataLenBytes (len : UInt64) : List.Vector UInt8 8 := ⟨BigEndian.encode 8 len.toNat,BigEndian.encode_length _ _⟩

lemma bigEndianUint32_revisionBytes (rev : UInt32) : bigEndianUint32 (revisionBytes rev) = rev := by
  have hlt : rev.toNat < 256^4 := rev.toNat_lt
  change UInt32.ofNat (BigEndian.decode (BigEndian.encode 4 rev.toNat)) = rev
  rw [BigEndian.decode_encode_of_lt hlt,UInt32.ofNat_toNat]

lemma bigEndianUint64_dataLenBytes (len : UInt64) : bigEndianUint64 (dataLenBytes len) = len := by
  have hlt : len.toNat < 256^8 := len.toNat_lt
  change UInt64.ofNat (BigEndian.decode (BigEndian.encode 8 len.toNat)) = len
  rw [BigEndian.decode_encode_of_lt hlt,UInt64.ofNat_toNat]

lemma revisionBytes_bigEndianUint32 (v : List.Vector UInt8 4) : revisionBytes (bigEndianUint32 v) = v := by
  have hlt := BigEndian.decode_lt v.toList
  have hback := BigEndian.encode_decode v.toList
  rw [v.toList_length] at hlt hback
  have hnat : (bigEndianUint32 v).toNat = BigEndian.decode v.toList := by
    rw [bigEndianUint32,UInt32.toNat_ofNat']
    exact Nat.mod_eq_of_lt hlt
  apply List.Vector.eq
  change BigEndian.encode 4 (bigEndianUint32 v).toNat = v.toList
  rw [hnat,hback]

lemma dataLenBytes_bigEndianUint64 (v : List.Vector UInt8 8) : dataLenBytes (bigEndianUint64 v) = v := by
  have hlt := BigEndian.decode_lt v.toList
  have hback := BigEndian.encode_decode v.toList
  rw [v.toList_length] at hlt hback
  have hnat : (bigEndianUint64 v).toNat = BigEndian.decode v.toList := by
    rw [bigEndianUint64,UInt64.toNat_ofNat']
    exact Nat.mod_eq_of_lt hlt
  apply List.Vector.eq
  change BigEndian.encode 8 (bigEndianUint64 v).toNat = v.toList
  rw [hnat,hback]

end Fields

namespace Entry.WellFormed
variable {e : Entry} (h : e.WellFormed)

/-- The data as a piece of the length that the header claims. -/
def dataBytes : List.Vector UInt8 e.dataLen.toNat := ⟨e.data,h.dataLen.symm⟩

lemma dataBytes_toList : h.dataBytes.toList = e.data := rfl

include h

lemma marshalEntry_eq : marshalEntry e = .ok e.bytes := by
  rw [marshalEntry,if_neg (not_not.mpr h.magic),if_neg (not_not.mpr h.dataSHA256)]
  rfl

/-- The record as the five pieces that are read one after another. -/
lemma bytes_append (t : List UInt8) : e.bytes ++ t = e.magic.toList ++ ((revisionBytes e.revision).toList ++
    ((dataLenBytes e.dataLen).toList ++ (e.dataSHA256.toList ++
      (h.dataBytes.toList ++ t)))) := by
  simp only [Entry.bytes,List.append_assoc]
  rfl

/-- The header of the record. -/
lemma unmarshalHeader_append (t : List UInt8) : unmarshalHeader readBytes (e.bytes ++ t) =
    .ok (⟨e.magic,e.revision,e.dataLen,e.dataSHA256⟩,h.dataBytes.toList ++ t) := by
  rw [h.bytes_append,unmarshalHeader_of_reads (readBytes_append _ _) (readBytes_append _ _)
    (readBytes_append _ _) (readBytes_append _ _),bigEndianUint32_revisionBytes,bigEndianUint64_dataLenBytes,
    if_neg (not_not.mpr h.magic),if_neg h.revision]

/-- A record is read back, and nothing of what follows it is consumed. -/
lemma unmarshalEntry_append (M : Machine) (hlen : e.data.length ≤ M.maxAlloc) (t : List UInt8) :
    unmarshalEntry M readBytes (e.bytes ++ t) = .ok (e,t) := by
  have hl : e.dataLen.toNat ≤ M.maxAlloc := h.dataLen.trans_le hlen
  rw [unmarshalEntry,h.unmarshalHeader_append,Outcome.bind_ok]
  dsimp only
  rw [unmarshalData_of_read (h := ⟨e.magic,e.revision,e.dataLen,e.dataSHA256⟩) hl (readBytes_append h.dataBytes t),
    h.dataBytes_toList,if_neg (not_not.mpr h.dataSHA256)]

end Entry.WellFormed

/-- What has been consumed when an entry is returned: the bytes of that entry. -/
lemma unmarshalEntry_eq_ok {M : Machine} {b t : List UInt8} {e : Entry}
    (h : unmarshalEntry M readBytes b = .ok (e,t)) :
    e.WellFormed ∧ e.data.length ≤ M.maxAlloc ∧ b = e.bytes ++ t := by
  obtain ⟨⟨hd,b4⟩,hh,h⟩ := Outcome.bind_eq_ok.mp h
  obtain ⟨hmagic,hrev,rev,len,b1,b2,b3,hrev',hlen',h1,h2,h3,h4⟩ := unmarshalHeader_eq_ok hh
  obtain ⟨hl,data,h5,hsum,rfl⟩ := unmarshalData_eq_ok h
  dsimp only at hl data h5 hsum
  have hw : (⟨hd.magic,hd.revision,hd.dataLen,hd.dataSHA256,data.toList⟩ : Entry).WellFormed :=
    ⟨hmagic,hrev,data.toList_length.symm,hsum⟩
  refine ⟨hw,data.toList_length.trans_le hl,?_⟩
  rw [hw.bytes_append,readBytes_eq_ok h1,readBytes_eq_ok h2,readBytes_eq_ok h3,readBytes_eq_ok h4,
    readBytes_eq_ok h5]
  dsimp only
  have hrevision : revisionBytes hd.revision = rev := by rw [hrev',revisionBytes_bigEndianUint32]
  have hlength : dataLenBytes hd.dataLen = len := by rw [hlen',dataLenBytes_bigEndianUint64]
  rw [hrevision,hlength]
  rfl

lemma ofData_wellFormed {M : Machine} {rev : UInt32} {data : List UInt8} (hrev : rev ≠ 0)
    (hlen : data.length ≤ M.maxAlloc) : (Entry.ofData rev data).WellFormed :=
  ⟨rfl,hrev,ofData_dataLen rev (hlen.trans M.maxAlloc_le),rfl⟩

/-- The record codec: every well-formed entry is written and, whatever follows,
read back; every entry that is read is well-formed, and the bytes that were
consumed are the ones that `marshalEntry` writes for it. Hence the consumed bytes
are determined by the entry. -/
theorem record_roundtrip (M : Machine) :
    (∀ (e : Entry) (t : List UInt8), e.WellFormed → e.data.length ≤ M.maxAlloc →
      ∃ b, marshalEntry e = .ok b ∧ b.length = 48+e.data.length ∧
        unmarshalEntry M readBytes (b ++ t) = .ok (e,t)) ∧
    (∀ (b t : List UInt8) (e : Entry), unmarshalEntry M readBytes b = .ok (e,t) →
      e.WellFormed ∧ ∃ c, marshalEntry e = .ok c ∧ b = c ++ t) ∧
    (∀ (c c' t t' : List UInt8) (e : Entry), unmarshalEntry M readBytes (c ++ t) = .ok (e,t) →
      unmarshalEntry M readBytes (c' ++ t') = .ok (e,t') → c = c') := by
  refine ⟨?_,?_,?_⟩
  · intro e t hw hlen
    refine ⟨e.bytes,hw.marshalEntry_eq,?_,hw.unmarshalEntry_append M hlen t⟩
    simp only [Entry.bytes,List.length_append,List.Vector.toList_length,BigEndian.encode_length]
  · intro b t e h
    obtain ⟨hw,-,hb⟩ := unmarshalEntry_eq_ok h
    exact ⟨hw,e.bytes,hw.marshalEntry_eq,hb⟩
  · intro c c' t t' e h h'
    obtain ⟨-,-,hc⟩ := unmarshalEntry_eq_ok h
    obtain ⟨-,-,hc'⟩ := unmarshalEntry_eq_ok h'
    rw [List.append_cancel_right hc,List.append_cancel_right hc']

theorem record_roundtrip_smallMachine : (Entry.ofData 1 [0x41]).WellFormed ∧
    ∃ b, marshalEntry (Entry.ofData 1 [0x41]) = .ok b ∧ b.length = 49 ∧
      unmarshalEntry smallMachine readBytes (b ++ [0x54,0x46]) = .ok (Entry.ofData 1 [0x41],[0x54,0x46]) := by
  have hw : (Entry.ofData 1 [0x41]).WellFormed :=
    ofData_wellFormed (M := smallMachine) (by decide) (by decide)
  exact ⟨hw,(record_roundtrip smallMachine).1 _ [0x54,0x46] hw (by decide)⟩

end ArmoredWitness.Slots
