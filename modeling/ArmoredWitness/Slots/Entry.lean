import ArmoredWitness.Lib.Sha256
import ArmoredWitness.Slots.Device

/-! Journal records and their on-disk form: a header of 48 bytes (magic,
revision, data length, checksum), then the application data. -/
namespace ArmoredWitness.Slots
open Lib Lib.Sha256

/-- The only known journal header prefix, `TFJ0`. -/
def magic0 : List UInt8 := [0x54, 0x46, 0x4a, 0x30]

structure Entry where
  magic : List.Vector UInt8 4
  revision : UInt32
  dataLen : UInt64
  dataSHA256 : List.Vector UInt8 32
  data : List UInt8
  deriving DecidableEq

inductive EntryError
  | readMagic (e : ReadError)
  | invalidMagic (magic : List.Vector UInt8 4)
  | readRevision (e : ReadError)
  | zeroRevision
  | readDataLen (e : ReadError)
  | readDataSHA256 (e : ReadError)
  | readData (e : ReadError)
  | incorrectSHA256 (computed claimed : List.Vector UInt8 32)
  deriving DecidableEq

/-- The read error behind an error of `unmarshalEntry`. -/
def EntryError.cause : EntryError → Option ReadError
  | .readMagic e | .readRevision e | .readDataLen e | .readDataSHA256 e | .readData e => some e
  | _ => none

/-- The on-disk size of an entry without application data. -/
def entryHeaderSize : ℕ := 4+4+8+32

lemma numBlocks_pos (M : Machine) (n : ℕ) : 0 < numBlocks M (entryHeaderSize+n) :=
  Blocks.count_pos M.blockSize_pos _ (Nat.add_pos_left (by decide) _)

/-- The smallest number of entries a journal must be able to store. -/
def minEntries : ℕ := 3

namespace Entry

/-- The zero value of the struct: no successful write has taken place. -/
def zero : Entry := ⟨List.Vector.replicate 4 0,0,0,List.Vector.replicate 32 0,[]⟩

def size (e : Entry) : ℕ := entryHeaderSize+e.data.length

/-- The record `Update` builds for new data. -/
def ofData (revision : UInt32) (data : List UInt8) : Entry :=
  ⟨⟨magic0,rfl⟩,revision,UInt64.ofNat data.length,sum256 data,data⟩

end Entry

def marshalEntry (e : Entry) : Outcome EntryError (List UInt8) :=
  if e.magic.toList ≠ magic0 then .error (.invalidMagic e.magic)
  else if sum256 e.data ≠ e.dataSHA256 then .error (.incorrectSHA256 (sum256 e.data) e.dataSHA256)
  else .ok (e.magic.toList ++ BigEndian.encode 4 e.revision.toNat ++
    BigEndian.encode 8 e.dataLen.toNat ++ e.dataSHA256.toList ++ e.data)

/-- `io.ReadFull` on a reader: fill a buffer of `n` bytes. -/
abbrev ReadFull (R : Type) := (n : ℕ) → R → Outcome ReadError (List.Vector UInt8 n × R)

/-- `binary.Read` of a `uint32` in big-endian order. -/
def bigEndianUint32 (b : List.Vector UInt8 4) : UInt32 := UInt32.ofNat (BigEndian.decode b.toList)

/-- `binary.Read` of a `uint64` in big-endian order. -/
def bigEndianUint64 (b : List.Vector UInt8 8) : UInt64 := UInt64.ofNat (BigEndian.decode b.toList)

/-- `make([]byte, n)` panics when a slice of that length cannot be allocated. -/
def makeBytes (M : Machine) (n : ℕ) : Outcome EntryError Unit :=
  if M.maxAlloc < n then .panic (.makeslice n) else .ok ()

/-- The fields of an entry that precede its data. -/
structure Header where
  magic : List.Vector UInt8 4
  revision : UInt32
  dataLen : UInt64
  dataSHA256 : List.Vector UInt8 32
  deriving DecidableEq

section Unmarshal
variable (M : Machine) {R : Type} (readFull : ReadFull R)

/-- The first half of `unmarshalEntry`: read the header, field by field. -/
def unmarshalHeader (r : R) : Outcome EntryError (Header × R) :=
  ((readFull 4 r).mapError .readMagic).bind fun magic =>
  if magic.1.toList ≠ magic0 then .error (.invalidMagic magic.1) else
  ((readFull 4 magic.2).mapError .readRevision).bind fun revision =>
  if bigEndianUint32 revision.1 = 0 then .error .zeroRevision else
  ((readFull 8 revision.2).mapError .readDataLen).bind fun dataLen =>
  ((readFull 32 dataLen.2).mapError .readDataSHA256).bind fun sha =>
  .ok (⟨magic.1,bigEndianUint32 revision.1,bigEndianUint64 dataLen.1,sha.1⟩,sha.2)

/-- The second half: with the header read, allocate a buffer of the length it claims,
fill it and compare the checksums. -/
def unmarshalData (h : Header) (r : R) : Outcome EntryError (Entry × R) :=
  (makeBytes M h.dataLen.toNat).bind fun _ =>
  ((readFull h.dataLen.toNat r).mapError .readData).bind fun x =>
  if sum256 x.1.toList ≠ h.dataSHA256 then .error (.incorrectSHA256 (sum256 x.1.toList) h.dataSHA256)
  else .ok (⟨h.magic,h.revision,h.dataLen,h.dataSHA256,x.1.toList⟩,x.2)

def unmarshalEntry (r : R) : Outcome EntryError (Entry × R) :=
  (unmarshalHeader readFull r).bind fun x => unmarshalData M readFull x.1 x.2

variable {M readFull} {r r1 r2 r3 r4 r5 : R} {magic rev : List.Vector UInt8 4} {len : List.Vector UInt8 8}
  {sha : List.Vector UInt8 32} {h : Header} {e : Entry}

/-- Once its four fields are read, a header comes down to two checks. -/
lemma unmarshalHeader_of_reads (h1 : readFull 4 r = .ok (magic,r1)) (h2 : readFull 4 r1 = .ok (rev,r2))
    (h3 : readFull 8 r2 = .ok (len,r3)) (h4 : readFull 32 r3 = .ok (sha,r4)) : unmarshalHeader readFull r =
      if magic.toList ≠ magic0 then .error (.invalidMagic magic) else
      if bigEndianUint32 rev = 0 then .error .zeroRevision else
      .ok (⟨magic,bigEndianUint32 rev,bigEndianUint64 len,sha⟩,r4) := by
  simp only [unmarshalHeader,h1,h2,h3,h4,Outcome.mapError_ok,Outcome.bind_ok]

/-- What has been read and checked when a header is returned. -/
lemma unmarshalHeader_eq_ok (hh : unmarshalHeader readFull r = .ok (h,r4)) : h.magic.toList = magic0 ∧
    h.revision ≠ 0 ∧ ∃ (rev : List.Vector UInt8 4) (len : List.Vector UInt8 8) (r1 r2 r3 : R),
      h.revision = bigEndianUint32 rev ∧ h.dataLen = bigEndianUint64 len ∧
      readFull 4 r = .ok (h.magic,r1) ∧ readFull 4 r1 = .ok (rev,r2) ∧ readFull 8 r2 = .ok (len,r3) ∧
      readFull 32 r3 = .ok (h.dataSHA256,r4) := by
  unfold unmarshalHeader at hh
  obtain ⟨⟨magic,r1⟩,h1,hh⟩ := Outcome.bind_eq_ok.mp hh
  split at hh
  · cases hh
  rename_i hmagic
  obtain ⟨⟨rev,r2⟩,h2,hh⟩ := Outcome.bind_eq_ok.mp hh
  split at hh
  · cases hh
  rename_i hrev
  obtain ⟨⟨len,r3⟩,h3,hh⟩ := Outcome.bind_eq_ok.mp hh
  obtain ⟨⟨sha,r4'⟩,h4,hh⟩ := Outcome.bind_eq_ok.mp hh
  cases hh
  exact ⟨not_not.mp hmagic,hrev,rev,len,r1,r2,r3,rfl,rfl,Outcome.mapError_eq_ok.mp h1,
    Outcome.mapError_eq_ok.mp h2,Outcome.mapError_eq_ok.mp h3,Outcome.mapError_eq_ok.mp h4⟩

/-- A header is read without a panic. -/
lemma unmarshalHeader_ne_panic (hread : ∀ n r p, readFull n r ≠ .panic p) (p : Panic) :
    unmarshalHeader readFull r ≠ .panic p := by
  intro hh
  unfold unmarshalHeader at hh
  rcases Outcome.bind_eq_panic.mp hh with h1 | ⟨x1,-,hh⟩
  · exact hread _ _ _ (Outcome.mapError_eq_panic.mp h1)
  split at hh
  · cases hh
  rcases Outcome.bind_eq_panic.mp hh with h2 | ⟨x2,-,hh⟩
  · exact hread _ _ _ (Outcome.mapError_eq_panic.mp h2)
  split at hh
  · cases hh
  rcases Outcome.bind_eq_panic.mp hh with h3 | ⟨x3,-,hh⟩
  · exact hread _ _ _ (Outcome.mapError_eq_panic.mp h3)
  rcases Outcome.bind_eq_panic.mp hh with h4 | ⟨x4,-,hh⟩
  · exact hread _ _ _ (Outcome.mapError_eq_panic.mp h4)
  · cases hh

/-- With the data read, decoding comes down to the comparison of the checksums. -/
lemma unmarshalData_of_read {data : List.Vector UInt8 h.dataLen.toNat} (hl : h.dataLen.toNat ≤ M.maxAlloc)
    (hr : readFull h.dataLen.toNat r4 = .ok (data,r5)) : unmarshalData M readFull h r4 =
      if sum256 data.toList ≠ h.dataSHA256 then
        .error (.incorrectSHA256 (sum256 data.toList) h.dataSHA256)
      else .ok (⟨h.magic,h.revision,h.dataLen,h.dataSHA256,data.toList⟩,r5) := by
  rw [unmarshalData,makeBytes,if_neg (Nat.not_lt_of_le hl),Outcome.bind_ok,hr,Outcome.mapError_ok,
    Outcome.bind_ok]

lemma unmarshalData_of_error {err : ReadError} (hl : h.dataLen.toNat ≤ M.maxAlloc)
    (hr : readFull h.dataLen.toNat r4 = .error err) : unmarshalData M readFull h r4 = .error (.readData err) := by
  rw [unmarshalData,makeBytes,if_neg (Nat.not_lt_of_le hl),Outcome.bind_ok,hr,Outcome.mapError_error,
    Outcome.bind_error]

lemma unmarshalData_eq_ok (hd : unmarshalData M readFull h r4 = .ok (e,r5)) :
    h.dataLen.toNat ≤ M.maxAlloc ∧ ∃ data : List.Vector UInt8 h.dataLen.toNat,
      readFull h.dataLen.toNat r4 = .ok (data,r5) ∧ sum256 data.toList = h.dataSHA256 ∧
      e = ⟨h.magic,h.revision,h.dataLen,h.dataSHA256,data.toList⟩ := by
  unfold unmarshalData at hd
  obtain ⟨u,hmake,hd⟩ := Outcome.bind_eq_ok.mp hd
  obtain ⟨⟨data,r5'⟩,hr,hd⟩ := Outcome.bind_eq_ok.mp hd
  have hl : h.dataLen.toNat ≤ M.maxAlloc := by
    unfold makeBytes at hmake
    split at hmake
    · cases hmake
    · rename_i hle
      exact Nat.le_of_not_lt hle
  split at hd
  · cases hd
  · rename_i hsum
    cases hd
    exact ⟨hl,data,Outcome.mapError_eq_ok.mp hr,not_not.mp hsum,rfl⟩

/-- The only panic is that of the allocation. -/
lemma unmarshalData_eq_panic (hread : ∀ n r p, readFull n r ≠ .panic p) {p : Panic} :
    unmarshalData M readFull h r4 = .panic p ↔ M.maxAlloc < h.dataLen.toNat ∧ p = .makeslice h.dataLen.toNat := by
  unfold unmarshalData makeBytes
  split_ifs with hlt
  · simp [hlt,eq_comm]
  · rw [Outcome.bind_ok]
    refine ⟨fun hd => ?_,fun hc => absurd hc.1 hlt⟩
    rcases Outcome.bind_eq_panic.mp hd with hr | ⟨x,-,hd⟩
    · exact absurd (Outcome.mapError_eq_panic.mp hr) (hread _ _ _)
    · split at hd <;> cases hd

section Same
variable {readFull' : ReadFull R} {Bad : ReadError → Prop} {I : ℕ → R → Prop}
  (hread : ∀ n k r, I (n+k) r → Outcome.SameUnless Bad (readFull' n r) (readFull n r) ∧
    ∀ v r', readFull n r = .ok (v,r') → I k r')
include hread

/-- A field that is read the same through two readers, unless one fails badly. -/
lemma readField_sameUnless {n k : ℕ} (hr : I (n+k) r) {f : ReadError → EntryError}
    (hf : ∀ e, (f e).cause = some e) {α : Type} {g g' : List.Vector UInt8 n × R → Outcome EntryError α}
    (hg : ∀ v r', I k r' →
      Outcome.SameUnless (fun err => ∃ e, err.cause = some e ∧ Bad e) (g' (v,r')) (g (v,r'))) :
    Outcome.SameUnless (fun err => ∃ e, err.cause = some e ∧ Bad e)
      (((readFull' n r).mapError f).bind g') (((readFull n r).mapError f).bind g) := by
  obtain ⟨hsame,hkeep⟩ := hread n k r hr
  refine (hsame.mapError (f := f) fun e he => ⟨e,hf e,he⟩).bind fun a ha => ?_
  exact hg a.1 a.2 (hkeep a.1 a.2 (Outcome.mapError_eq_ok.mp ha))

/-- So are entries, as long as what may be read is at least what can be allocated. -/
lemma unmarshalEntry_sameUnless (hr : I (entryHeaderSize+M.maxAlloc) r) :
    Outcome.SameUnless (fun err => ∃ e, err.cause = some e ∧ Bad e)
      (unmarshalEntry M readFull' r) (unmarshalEntry M readFull r) := by
  have hfields : entryHeaderSize+M.maxAlloc = 4+(4+(8+(32+M.maxAlloc))) := by
    rw [entryHeaderSize]
    omega
  rw [hfields] at hr
  have hheader : Outcome.SameUnless (fun err => ∃ e, err.cause = some e ∧ Bad e)
      (unmarshalHeader readFull' r) (unmarshalHeader readFull r) := by
    refine readField_sameUnless hread hr (fun _ => rfl) fun magic r1 h1 => ?_
    dsimp only
    split_ifs
    · exact .refl _
    refine readField_sameUnless hread h1 (fun _ => rfl) fun rev r2 h2 => ?_
    dsimp only
    split_ifs
    · exact .refl _
    refine readField_sameUnless hread h2 (fun _ => rfl) fun len r3 h3 => ?_
    exact readField_sameUnless hread h3 (fun _ => rfl) fun sha r4 _ => .refl _
  refine hheader.bind fun x hx => ?_
  obtain ⟨-,-,rev,len,r1,r2,r3,-,-,h1,h2,h3,h4⟩ := unmarshalHeader_eq_ok hx
  have hrest : I M.maxAlloc x.2 := by
    have i1 := (hread 4 (4+(8+(32+M.maxAlloc))) r hr).2 _ _ h1
    have i2 := (hread 4 (8+(32+M.maxAlloc)) r1 i1).2 _ _ h2
    have i3 := (hread 8 (32+M.maxAlloc) r2 i2).2 _ _ h3
    exact (hread 32 M.maxAlloc r3 i3).2 _ _ h4
  unfold unmarshalData makeBytes
  split_ifs with hlt
  · exact .refl _
  · have hlen : M.maxAlloc = x.1.dataLen.toNat+(M.maxAlloc-x.1.dataLen.toNat) := by omega
    rw [hlen] at hrest
    exact readField_sameUnless hread hrest (fun _ => rfl) fun _ _ _ => .refl _

end Same
end Unmarshal
end ArmoredWitness.Slots
