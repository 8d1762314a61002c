import ArmoredWitness.Slots.BlockReader

/-! What `unmarshalEntry` makes of the bytes that lie at a block of a device,
case by case: no header, a length that cannot be allocated, data that runs past
the device, a wrong checksum, or a record. -/
namespace ArmoredWitness.Slots
open Lib Lib.Sha256 BlockReader

variable {M : Machine}

/-- Decode the record that begins at block `lba`, as the scan does. -/
def entryAt (A : Arith) (readBlocks : ReadBlocks M) (lba : ℕ) : Outcome EntryError (Entry × BlockReader M) :=
  unmarshalEntry M (readFull A readBlocks) (newBlockReader A M lba)

/-- The header that is decoded first. -/
def headerAt (A : Arith) (readBlocks : ReadBlocks M) (lba : ℕ) : Outcome EntryError (Header × BlockReader M) :=
  unmarshalHeader (readFull A readBlocks) (newBlockReader A M lba)

section Decoding
variable {A : Arith} {readBlocks : ReadBlocks M} {lba : ℕ} {e : Entry} {h : Header} {br : BlockReader M}

lemma readFull_ne_panic (n : ℕ) (br : BlockReader M) (p : Panic) : readFull A readBlocks n br ≠ .panic p :=
  (source A readBlocks).readFull_ne_panic n br p

/-- Decoding panics exactly on a header whose length cannot be allocated. -/
theorem entryAt_eq_panic {p : Panic} : entryAt A readBlocks lba = .panic p ↔
    ∃ h br, headerAt A readBlocks lba = .ok (h,br) ∧ M.maxAlloc < h.dataLen.toNat ∧
      p = .makeslice h.dataLen.toNat := by
  constructor
  · intro he
    rcases Outcome.bind_eq_panic.mp he with hh | ⟨⟨h,br⟩,hh,hd⟩
    · exact absurd hh (unmarshalHeader_ne_panic readFull_ne_panic p)
    · exact ⟨h,br,hh,(unmarshalData_eq_panic readFull_ne_panic).mp hd⟩
  · rintro ⟨h,br,hh,hd⟩
    exact Outcome.bind_eq_panic.mpr (.inr ⟨(h,br),hh,(unmarshalData_eq_panic readFull_ne_panic).mpr hd⟩)

lemma headerAt_pos (hh : headerAt A readBlocks lba = .ok (h,br)) :
    br.pos = A.uint (lba*M.blockSize+entryHeaderSize : ℕ) := by
  obtain ⟨-,-,rev,len,r1,r2,r3,-,-,h1,h2,h3,h4⟩ := unmarshalHeader_eq_ok hh
  have hp : br.pos = A.uint (lba*M.blockSize+4+4+8+32 : ℕ) :=
    readFull_pos (readFull_pos (readFull_pos (readFull_pos rfl h1) h2) h3) h4
  exact hp

/-- What is known when a record is decoded, whatever it is read from: it has a revision
and a length that can be allocated, and the reader has moved on by its size. -/
lemma entryAt_eq_ok (he : entryAt A readBlocks lba = .ok (e,br)) : e.revision ≠ 0 ∧
    e.dataLen.toNat ≤ M.maxAlloc ∧ e.data.length = e.dataLen.toNat ∧
    br.pos = A.uint (lba*M.blockSize+(entryHeaderSize+e.dataLen.toNat) : ℕ) := by
  obtain ⟨⟨h,r4⟩,hh,hd⟩ := Outcome.bind_eq_ok.mp he
  obtain ⟨hl,data,h5,-,rfl⟩ := unmarshalData_eq_ok hd
  refine ⟨(unmarshalHeader_eq_ok hh).2.1,hl,data.toList_length,?_⟩
  rw [readFull_pos (headerAt_pos hh) h5,Nat.add_assoc]

end Decoding

namespace Device
variable (d : Device M) (lba : ℕ)

/-- The `n` bytes at offset `i` of block `lba`. -/
def bytesAt (i n : ℕ) : List.Vector UInt8 n :=
  ⟨Blocks.cells d.block (lba*M.blockSize+i) n,Blocks.cells_length _ _ _⟩

def magicAt : List.Vector UInt8 4 := d.bytesAt lba 0 4
def revisionAt : UInt32 := bigEndianUint32 (d.bytesAt lba 4 4)
def dataLenAt : UInt64 := bigEndianUint64 (d.bytesAt lba 8 8)
def shaAt : List.Vector UInt8 32 := d.bytesAt lba 16 32

def dataAt : List UInt8 := (d.bytesAt lba entryHeaderSize (d.dataLenAt lba).toNat).toList

/-- The header whose fields are spelled by the bytes at `lba`. -/
def headerOf : Header := ⟨d.magicAt lba,d.revisionAt lba,d.dataLenAt lba,d.shaAt lba⟩

/-- The entry whose fields are spelled by the bytes at `lba`. -/
def entryOf : Entry := ⟨d.magicAt lba,d.revisionAt lba,d.dataLenAt lba,d.shaAt lba,d.dataAt lba⟩

/-- The block carries a header that passes the magic and revision checks. -/
structure IsHeader : Prop where
  readable : d.Readable (lba*M.blockSize) entryHeaderSize
  magic : (d.magicAt lba).toList = magic0
  revision : d.revisionAt lba ≠ 0

/-- A whole record begins at the block. -/
structure IsRecord : Prop extends d.IsHeader lba where
  allocated : (d.dataLenAt lba).toNat ≤ M.maxAlloc
  on_device : lba+numBlocks M (entryHeaderSize+(d.dataLenAt lba).toNat) ≤ d.size
  checksum : sum256 (d.dataAt lba) = d.shaAt lba

/-- What is read to decode the block lies within the first `L` bytes. -/
structure Within (L : ℕ) : Prop where
  header : lba*M.blockSize+entryHeaderSize ≤ L
  data : d.IsHeader lba → (d.dataLenAt lba).toNat ≤ M.maxAlloc →
    lba*M.blockSize+(entryHeaderSize+(d.dataLenAt lba).toNat) ≤ L

end Device

section Within
variable {A : Arith} {L : ℕ} (hA : A.UpTo L) {d : Device M} {lba : ℕ}
include hA

/-- With the header on the device, decoding it comes down to its checks. -/
lemma headerAt_eq (hr : d.Readable (lba*M.blockSize) entryHeaderSize)
    (hend : lba*M.blockSize+entryHeaderSize ≤ L) :
    ∃ br : BlockReader M, br.At A L d (lba*M.blockSize+entryHeaderSize) ∧ headerAt A d.readBlocks lba =
      if (d.magicAt lba).toList ≠ magic0 then .error (.invalidMagic (d.magicAt lba)) else
      if d.revisionAt lba = 0 then .error .zeroRevision else .ok (d.headerOf lba,br) := by
  have h48 : entryHeaderSize = 4+(4+(8+32)) := rfl
  rw [h48] at hend
  rw [h48,Device.readable_add,Device.readable_add,Device.readable_add] at hr
  obtain ⟨hm,hv,hl,hs⟩ := hr
  obtain ⟨magic,r1,e1,v1,a1⟩ := readFull_ok hA (at_new hA (by omega)) hm (by omega)
  obtain ⟨rev,r2,e2,v2,a2⟩ := readFull_ok hA a1 hv (by omega)
  obtain ⟨len,r3,e3,v3,a3⟩ := readFull_ok hA a2 hl (by omega)
  obtain ⟨sha,r4,e4,v4,a4⟩ := readFull_ok hA a3 hs (by omega)
  have hmag : magic = d.magicAt lba := List.Vector.eq _ _ v1
  have hrev : rev = d.bytesAt lba 4 4 := List.Vector.eq _ _ v2
  have hlen : len = d.bytesAt lba 8 8 := List.Vector.eq _ _ v3
  have hsha : sha = d.shaAt lba := List.Vector.eq _ _ v4
  subst hmag hrev hlen hsha
  exact ⟨r4,a4,unmarshalHeader_of_reads e1 e2 e3 e4⟩

/-- A header is decoded to the fields that its bytes spell. -/
lemma headerAt_of_isHeader (h : d.IsHeader lba) (hend : lba*M.blockSize+entryHeaderSize ≤ L) :
    ∃ br : BlockReader M, br.At A L d (lba*M.blockSize+entryHeaderSize) ∧
      headerAt A d.readBlocks lba = .ok (d.headerOf lba,br) := by
  obtain ⟨br,hat,he⟩ := headerAt_eq hA h.readable hend
  exact ⟨br,hat,by rw [he,if_neg (not_not.mpr h.magic),if_neg h.revision]⟩

/-- No header, no entry. -/
lemma headerAt_of_not_isHeader (h : ¬ d.IsHeader lba) (hend : lba*M.blockSize+entryHeaderSize ≤ L) :
    ∃ e, headerAt A d.readBlocks lba = .error e := by
  by_cases hr : d.Readable (lba*M.blockSize) entryHeaderSize
  · obtain ⟨br,-,he⟩ := headerAt_eq hA hr hend
    by_cases hm : (d.magicAt lba).toList = magic0
    · by_cases hv : d.revisionAt lba = 0
      · exact ⟨_,by rw [he,if_neg (not_not.mpr hm),if_pos hv]⟩
      · exact absurd ⟨hr,hm,hv⟩ h
    · exact ⟨_,by rw [he,if_pos hm]⟩
  · have h48 : entryHeaderSize = 4+(4+(8+32)) := rfl
    rw [h48] at hend
    rw [h48,Device.readable_add,Device.readable_add,Device.readable_add] at hr
    unfold headerAt unmarshalHeader
    have hnew : (newBlockReader A M lba).At A L d (lba*M.blockSize) := at_new hA (by omega)
    rcases readFull_spec hA (n := 4) hnew (by omega)
      with ⟨a1,magic,r1,e1,-,s1⟩ | ⟨-,e,e1⟩
    · simp only [e1,Outcome.mapError_ok,Outcome.bind_ok]
      split_ifs
      · exact ⟨_,rfl⟩
      rcases readFull_spec hA (n := 4) s1 (by omega) with ⟨a2,rev,r2,e2,-,s2⟩ | ⟨-,e,e2⟩
      · simp only [e2,Outcome.mapError_ok,Outcome.bind_ok]
        split_ifs
        · exact ⟨_,rfl⟩
        rcases readFull_spec hA (n := 8) s2 (by omega) with ⟨a3,len,r3,e3,-,s3⟩ | ⟨-,e,e3⟩
        · simp only [e3,Outcome.mapError_ok,Outcome.bind_ok]
          rcases readFull_spec hA (n := 32) s3 (by omega) with ⟨a4,-⟩ | ⟨-,e,e4⟩
          · exact absurd ⟨a1,a2,a3,a4⟩ hr
          · exact ⟨_,by rw [e4]; rfl⟩
        · exact ⟨_,by rw [e3]; rfl⟩
      · exact ⟨_,by rw [e2]; rfl⟩
    · exact ⟨_,by rw [e1]; rfl⟩

/-- With a header that can be allocated, decoding comes down to one read of the data. -/
lemma entryAt_of_isHeader (hw : d.Within lba L) (h : d.IsHeader lba)
    (hl : (d.dataLenAt lba).toNat ≤ M.maxAlloc) :
    d.IsRecord lba ∧ (∃ br, entryAt A d.readBlocks lba = .ok (d.entryOf lba,br)) ∨
    ¬ d.IsRecord lba ∧ ∃ e, entryAt A d.readBlocks lba = .error e := by
  obtain ⟨br,hat,hh⟩ := headerAt_of_isHeader hA h hw.header
  have hdata : entryAt A d.readBlocks lba = unmarshalData M (readFull A d.readBlocks) (d.headerOf lba) br := by
    rw [entryAt,unmarshalEntry]
    change (headerAt A d.readBlocks lba).bind _ = _
    rw [hh,Outcome.bind_ok]
  have hend := hw.data h hl
  rw [← Nat.add_assoc] at hend
  have hread := Device.readable_iff d lba (entryHeaderSize+(d.dataLenAt lba).toNat)
    (Nat.add_pos_left (by decide) _)
  rw [Device.readable_add] at hread
  rcases readFull_spec hA (n := (d.dataLenAt lba).toNat) hat hend with ⟨hr,v,br',hok,hv,-⟩ | ⟨hr,e,herr⟩
  · have hval : entryAt A d.readBlocks lba = if sum256 v.toList ≠ d.shaAt lba then
        .error (.incorrectSHA256 (sum256 v.toList) (d.shaAt lba))
        else .ok (⟨d.magicAt lba,d.revisionAt lba,d.dataLenAt lba,d.shaAt lba,v.toList⟩,br') :=
      hdata.trans (unmarshalData_of_read (h := d.headerOf lba) hl hok)
    have hvdata : v.toList = d.dataAt lba := hv
    rw [hval,hvdata]
    by_cases hsum : sum256 (d.dataAt lba) = d.shaAt lba
    · rw [if_neg (not_not.mpr hsum)]
      exact .inl ⟨⟨h,hl,hread.mp ⟨h.readable,hr⟩,hsum⟩,br',rfl⟩
    · rw [if_pos hsum]
      exact .inr ⟨fun hc => hsum hc.checksum,_,rfl⟩
  · exact .inr ⟨fun hc => hr (hread.mpr hc.on_device).2,_,
      hdata.trans (unmarshalData_of_error (h := d.headerOf lba) hl herr)⟩

/-- A header whose length cannot be allocated makes the decoder panic. -/
lemma entryAt_of_large (hw : d.Within lba L) (h : d.IsHeader lba) (hlt : M.maxAlloc < (d.dataLenAt lba).toNat) :
    entryAt A d.readBlocks lba = .panic (.makeslice (d.dataLenAt lba).toNat) := by
  obtain ⟨br,-,hh⟩ := headerAt_of_isHeader hA h hw.header
  exact entryAt_eq_panic.mpr ⟨_,br,hh,hlt,rfl⟩

/-- Within the address space, decoding gives the record that lies there, an error, or,
on a header whose length cannot be allocated, a panic. -/
theorem entryAt_cases (hw : d.Within lba L) :
    d.IsRecord lba ∧ (∃ br, entryAt A d.readBlocks lba = .ok (d.entryOf lba,br)) ∨
    ¬ d.IsRecord lba ∧ ¬ (d.IsHeader lba ∧ M.maxAlloc < (d.dataLenAt lba).toNat) ∧
      (∃ e, entryAt A d.readBlocks lba = .error e) ∨
    (d.IsHeader lba ∧ M.maxAlloc < (d.dataLenAt lba).toNat) ∧ ¬ d.IsRecord lba ∧
      entryAt A d.readBlocks lba = .panic (.makeslice (d.dataLenAt lba).toNat) := by
  by_cases h : d.IsHeader lba
  · by_cases hl : (d.dataLenAt lba).toNat ≤ M.maxAlloc
    · rcases entryAt_of_isHeader hA hw h hl with hrec | ⟨hn,he⟩
      · exact .inl hrec
      · exact .inr (.inl ⟨hn,fun hc => absurd hc.2 (Nat.not_lt_of_le hl),he⟩)
    · have hlt := Nat.lt_of_not_le hl
      exact .inr (.inr ⟨⟨h,hlt⟩,fun hc => hl hc.allocated,entryAt_of_large hA hw h hlt⟩)
  · obtain ⟨e,he⟩ := headerAt_of_not_isHeader hA h hw.header
    refine .inr (.inl ⟨fun hc => h hc.toIsHeader,fun hc => h hc.1,e,?_⟩)
    rw [entryAt,unmarshalEntry]
    change (headerAt A d.readBlocks lba).bind _ = _
    rw [he,Outcome.bind_error]

/-- The record that lies at a block is decoded. -/
lemma entryAt_of_isRecord (hw : d.Within lba L) (h : d.IsRecord lba) :
    ∃ br, entryAt A d.readBlocks lba = .ok (d.entryOf lba,br) := by
  rcases entryAt_cases hA hw with ⟨-,hok⟩ | ⟨hn,-⟩ | ⟨-,hn,-⟩
  · exact hok
  · exact absurd h hn
  · exact absurd h hn

/-- What is decoded lies at the block. -/
lemma isRecord_of_entryAt (hw : d.Within lba L) {e : Entry} {br : BlockReader M}
    (he : entryAt A d.readBlocks lba = .ok (e,br)) : d.IsRecord lba ∧ e = d.entryOf lba := by
  rcases entryAt_cases hA hw with ⟨hr,br',hok⟩ | ⟨-,-,err,herr⟩ | ⟨-,-,hp⟩
  · rw [he] at hok
    cases hok
    exact ⟨hr,rfl⟩
  · rw [he] at herr
    cases herr
  · rw [he] at hp
    cases hp

/-- A panic comes from a header whose length cannot be allocated. -/
lemma isHeader_of_panic (hw : d.Within lba L) {p : Panic} (he : entryAt A d.readBlocks lba = .panic p) :
    d.IsHeader lba ∧ M.maxAlloc < (d.dataLenAt lba).toNat := by
  rcases entryAt_cases hA hw with ⟨-,br,hok⟩ | ⟨-,-,err,herr⟩ | ⟨hlarge,-⟩
  · rw [he] at hok
    cases hok
  · rw [he] at herr
    cases herr
  · exact hlarge

end Within

namespace Device
variable {d : Device M} {lba : ℕ} {e : Entry} {p : Panic}

/-- What the scan makes of the record at a block: an entry, an error or a panic. -/
def sees (d : Device M) (lba : ℕ) : Outcome Unit Entry :=
  ((entryAt M.arith d.readBlocks lba).mapError fun _ => ()).map Prod.fst

lemma sees_of_ok {br : BlockReader M} (he : entryAt M.arith d.readBlocks lba = .ok (e,br)) :
    d.sees lba = .ok e := by
  rw [sees,he]
  rfl

lemma sees_of_error {err : EntryError} (he : entryAt M.arith d.readBlocks lba = .error err) :
    d.sees lba = .error () := by
  rw [sees,he]
  rfl

lemma sees_of_panic (he : entryAt M.arith d.readBlocks lba = .panic p) : d.sees lba = .panic p := by
  rw [sees,he]
  rfl

lemma sees_ok_iff : d.sees lba = .ok e ↔ ∃ br, entryAt M.arith d.readBlocks lba = .ok (e,br) := by
  constructor
  · intro h
    obtain ⟨⟨e',br⟩,hx,rfl⟩ := Outcome.map_eq_ok.mp h
    exact ⟨br,Outcome.mapError_eq_ok.mp hx⟩
  · rintro ⟨br,he⟩
    exact sees_of_ok he

end Device
end ArmoredWitness.Slots
