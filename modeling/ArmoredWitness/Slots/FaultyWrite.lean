import ArmoredWitness.Slots.Codec
import ArmoredWitness.Slots.Session

/-! What an update leaves behind when the device misbehaves: the device may store
other bytes than it was given and report success, or report an error. -/
namespace ArmoredWitness.Slots
open Lib Lib.Sha256 BlockReader

variable {M : Machine}

/-- A reader that starts at the block hands out the fields of the record one after
another. -/
def Device.HandsOut (d : Device M) (lba : ℕ) (e : Entry) : Prop :=
  ∃ (data : List.Vector UInt8 e.dataLen.toNat) (r1 r2 r3 r4 r5 : BlockReader M),
    readFull M.arith d.readBlocks 4 (newBlockReader M.arith M lba) = .ok (e.magic,r1) ∧
    readFull M.arith d.readBlocks 4 r1 = .ok (revisionBytes e.revision,r2) ∧
    readFull M.arith d.readBlocks 8 r2 = .ok (dataLenBytes e.dataLen,r3) ∧
    readFull M.arith d.readBlocks 32 r3 = .ok (e.dataSHA256,r4) ∧
    readFull M.arith d.readBlocks e.dataLen.toNat r4 = .ok (data,r5) ∧ data.toList = e.data

section HandsOut
variable {d : Device M} {lba : ℕ} {e : Entry}

/-- What is handed out is decoded. -/
lemma Device.HandsOut.entryAt (h : d.HandsOut lba e) (hw : e.WellFormed) (hlen : e.data.length ≤ M.maxAlloc) :
    ∃ br, Slots.entryAt M.arith d.readBlocks lba = .ok (e,br) := by
  obtain ⟨data,r1,r2,r3,r4,r5,h1,h2,h3,h4,h5,hdata⟩ := h
  have hheader : headerAt M.arith d.readBlocks lba = .ok (⟨e.magic,e.revision,e.dataLen,e.dataSHA256⟩,r4) := by
    rw [headerAt,unmarshalHeader_of_reads h1 h2 h3 h4,bigEndianUint32_revisionBytes,bigEndianUint64_dataLenBytes,
      if_neg (not_not.mpr hw.magic),if_neg hw.revision]
  have hl : e.dataLen.toNat ≤ M.maxAlloc := hw.dataLen.trans_le hlen
  refine ⟨r5,Outcome.bind_eq_ok.mpr ⟨_,hheader,?_⟩⟩
  dsimp only
  rw [unmarshalData_of_read (h := ⟨e.magic,e.revision,e.dataLen,e.dataSHA256⟩) hl h5,hdata,
    if_neg (not_not.mpr hw.dataSHA256)]

lemma handsOut_of_entryAt {br : BlockReader M} (h : entryAt M.arith d.readBlocks lba = .ok (e,br)) :
    d.HandsOut lba e := by
  obtain ⟨⟨hd,r4⟩,hh,h⟩ := Outcome.bind_eq_ok.mp h
  obtain ⟨-,-,rev,len,r1,r2,r3,hrev,hlen,h1,h2,h3,h4⟩ := unmarshalHeader_eq_ok hh
  obtain ⟨-,data,h5,-,rfl⟩ := unmarshalData_eq_ok h
  refine ⟨data,r1,r2,r3,r4,br,h1,?_,?_,h4,h5,rfl⟩
  · dsimp only
    rwa [hrev,revisionBytes_bigEndianUint32]
  · dsimp only
    rwa [hlen,dataLenBytes_bigEndianUint64]

section Spelled
variable {rev : UInt32} {data : List UInt8} (hlen : data.length ≤ M.maxAlloc)
  (hspace : lba*M.blockSize+(entryHeaderSize+data.length) ≤ M.space)
include hlen hspace

/-- Within the address space, what is handed out lies on the device. -/
lemma spells_of_handsOut (h : d.HandsOut lba (Entry.ofData rev data)) :
    lba+numBlocks M (entryHeaderSize+data.length) ≤ d.size ∧ d.Spells lba (Entry.ofData rev data).bytes := by
  obtain ⟨v,r1,r2,r3,r4,r5,h1,h2,h3,h4,h5,hdata⟩ := h
  have hl := ofData_dataLen (M := M) rev (hlen.trans M.maxAlloc_le)
  have h48 : entryHeaderSize = 4+4+8+32 := rfl
  have hread : ∀ {n p} {r r' : BlockReader M} {v : List.Vector UInt8 n}, r.At M.arith M.space d p → p+n ≤ M.space →
      readFull M.arith d.readBlocks n r = .ok (v,r') →
      d.Readable p n ∧ v.toList = Blocks.cells d.block p n ∧ r'.At M.arith M.space d (p+n) := by
    intro n p r r' v hat hend hok
    rcases readFull_spec M.arith_upTo hat hend with ⟨hr,w,s,hw,hv,hs⟩ | ⟨-,e,herr⟩
    · rw [hok] at hw
      cases hw
      exact ⟨hr,hv,hs⟩
    · rw [hok] at herr
      cases herr
  obtain ⟨a1,b1,s1⟩ := hread (at_new M.arith_upTo (by omega)) (by omega) h1
  obtain ⟨a2,b2,s2⟩ := hread s1 (by omega) h2
  obtain ⟨a3,b3,s3⟩ := hread s2 (by omega) h3
  obtain ⟨a4,b4,s4⟩ := hread s3 (by omega) h4
  obtain ⟨a5,b5,-⟩ := hread s4 (by rw [hl]; omega) h5
  rw [hl] at a5
  rw [hdata,hl] at b5
  constructor
  · refine (Device.readable_iff d lba _ (Nat.add_pos_left (by decide) _)).mp ?_
    rw [h48,Device.readable_add,Device.readable_add,Device.readable_add,Device.readable_add]
    exact ⟨⟨⟨⟨a1,a2⟩,a3⟩,a4⟩,a5⟩
  · rw [Device.Spells,bytes_length,h48,← Blocks.cells_append,← Blocks.cells_append,← Blocks.cells_append,
      ← Blocks.cells_append,← b1,← b2,← b3,← b4,← b5]
    rfl

/-- What lies on the device is handed out. -/
lemma handsOut_of_spells (hsize : lba+numBlocks M (entryHeaderSize+data.length) ≤ d.size)
    (h : d.Spells lba (Entry.ofData rev data).bytes) : d.HandsOut lba (Entry.ofData rev data) := by
  have hl := ofData_dataLen (M := M) rev (hlen.trans M.maxAlloc_le)
  have h48 : entryHeaderSize = 4+4+8+32 := rfl
  have hread := (Device.readable_iff d lba _ (Nat.add_pos_left (by decide) _)).mpr hsize
  rw [h48,Device.readable_add,Device.readable_add,Device.readable_add,Device.readable_add] at hread
  obtain ⟨⟨⟨⟨a1,a2⟩,a3⟩,a4⟩,a5⟩ := hread
  have hbytes := h
  rw [Device.Spells,bytes_length,h48,← Blocks.cells_append,← Blocks.cells_append,← Blocks.cells_append,
    ← Blocks.cells_append,Entry.bytes] at hbytes
  obtain ⟨hb4,hb5⟩ := List.append_inj hbytes (by simp)
  obtain ⟨hb3,hb4⟩ := List.append_inj hb4 (by simp)
  obtain ⟨hb2,hb3⟩ := List.append_inj hb3 (by simp)
  obtain ⟨hb1,hb2⟩ := List.append_inj hb2 (by simp)
  obtain ⟨v1,r1,e1,c1,s1⟩ := readFull_ok M.arith_upTo (at_new M.arith_upTo (by omega)) a1 (by omega)
  obtain ⟨v2,r2,e2,c2,s2⟩ := readFull_ok M.arith_upTo s1 a2 (by omega)
  obtain ⟨v3,r3,e3,c3,s3⟩ := readFull_ok M.arith_upTo s2 a3 (by omega)
  obtain ⟨v4,r4,e4,c4,s4⟩ := readFull_ok M.arith_upTo s3 a4 (by omega)
  rw [← hl] at a5
  obtain ⟨v5,r5,e5,c5,-⟩ := readFull_ok M.arith_upTo s4 a5 (by rw [hl]; omega)
  refine ⟨v5,r1,r2,r3,r4,r5,?_,?_,?_,?_,e5,?_⟩
  · rw [e1,List.Vector.eq v1 _ (c1.trans hb1)]
  · rw [e2,List.Vector.eq v2 (revisionBytes rev) (c2.trans hb2)]
    rfl
  · rw [e3,List.Vector.eq v3 (dataLenBytes (Entry.ofData rev data).dataLen) (c3.trans hb3)]
  · rw [e4,List.Vector.eq v4 _ (c4.trans hb4)]
  · rw [c5,hl,hb5]

end Spelled
end HandsOut

namespace Journal
variable (j : Journal)

/-- An update that returns nil has put the record that is now current on the device,
at the block it wrote to; one that returns an error has left data and revision alone. -/
def Verified (write : WriteBlocks M) (d : Device M) (data : List UInt8) : Prop :=
  match j.update write d data with
  | (d',j',.ok _) => ∃ br, entryAt M.arith d'.readBlocks (j.target M data) = .ok (j'.current,br)
  | (_,j',.error _) => j'.data = j.data
  | (_,_,.panic _) => False

/-- The `WriteBlocks` call of an update, if it makes one: the address and the bytes. -/
def request (M : Machine) (data : List UInt8) : Option (ℕ × List UInt8) :=
  if j.Accepts data then some (j.target M data,(j.newEntry data).bytes) else none

/-- There is room for the record between the next block and the end of the region. -/
def Room (M : Machine) (data : List UInt8) : Prop :=
  M.arith.uint (j.newEntry data).size ≤ j.capIn M.arith M

instance (data : List UInt8) : Decidable (j.Room M data) := inferInstanceAs (Decidable (_ ≤ _))

variable {j} {write : WriteBlocks M} {d : Device M} {data data' : List UInt8}

lemma verified_of_ok {d' : Device M} {n : ℕ} (ha : j.Accepts data) (hlen : data.length ≤ M.maxAlloc)
    (hw : write d (j.target M data) (j.newEntry data).bytes = (d',.ok n)) :
    j.Verified write d data ↔
      j.current.revision+1 ≠ 0 ∧ d'.HandsOut (j.target M data) (j.newEntry data) := by
  unfold Verified
  rw [update_accepted ha,hw]
  change (∃ br, entryAt M.arith d'.readBlocks (j.target M data) = .ok (j.newEntry data,br)) ↔ _
  constructor
  · rintro ⟨br,he⟩
    exact ⟨(entryAt_eq_ok he).1,handsOut_of_entryAt he⟩
  · rintro ⟨hne,hout⟩
    exact hout.entryAt (ofData_wellFormed hne hlen) hlen

lemma verified_of_error {d' : Device M} {e : WriteError} (ha : j.Accepts data)
    (hw : write d (j.target M data) (j.newEntry data).bytes = (d',.error e)) :
    j.Verified write d data := by
  unfold Verified
  rw [update_accepted ha,hw]
  rfl

lemma verified_of_tooLarge (ha : ¬ j.Accepts data) : j.Verified write d data := by
  unfold Verified
  rw [update_tooLarge write ha]

/-- An update is the call it requests, and what becomes of its result. -/
theorem update_request (write : WriteBlocks M) (d : Device M) : j.update write d data =
    match j.request M data with
    | none => (d,j,.error (.tooLarge data.length j.maxDataBytes))
    | some (lba,b) => installIn {j with nextBlock := lba} M.arith (j.newEntry data) (write d lba b) := by
  unfold request
  split_ifs with ha
  · exact update_accepted ha write
  · exact update_tooLarge write ha

lemma target_of_room (h : j.Room M data) : j.target M data = j.nextBlock := if_neg (Nat.not_lt_of_le h)

lemma target_of_not_room (h : ¬ j.Room M data) : j.target M data = j.start := if_pos (Nat.lt_of_not_le h)

/-- A failed update may have moved the next block, to where its record would have gone. -/
lemma failed_eq {e : JournalError} (h : (j.update write d data).2.2 = .error e) :
    (j.update write d data).2.1 = if j.Accepts data then {j with nextBlock := j.target M data} else j := by
  split_ifs with ha
  · rw [update_accepted ha] at h ⊢
    cases hw : write d (j.target M data) (j.newEntry data).bytes with
    | mk d' r =>
      rw [hw] at h
      cases r with
      | ok n => cases h
      | error err => rfl
      | panic p => cases h
  · rw [update_tooLarge write ha]

lemma request_moved (ha : j.Accepts data') (lba : ℕ) :
    request {j with nextBlock := lba} M data' =
      some (target {j with nextBlock := lba} M data',(j.newEntry data').bytes) := if_pos ha

end Journal

/-- Whatever the device does with a write it reports as done: an update is verified
exactly if a reader at the target then gets the fields of its record, and its revision
has not wrapped to zero. Where the byte positions of the record do not wrap, the reader
gets its fields if its bytes are on the device, in readable blocks. -/
theorem update_verified_iff (write : WriteBlocks M)
    (hw : ∀ (d : Device M) lba b p, (write d lba b).2 ≠ .panic p) (j : Journal) (d : Device M)
    (data : List UInt8) (hlen : data.length ≤ M.maxAlloc) :
    (j.Verified write d data ↔ (j.Accepts data → ∀ d' n,
      write d (j.target M data) (j.newEntry data).bytes = (d',.ok n) →
        j.current.revision+1 ≠ 0 ∧ d'.HandsOut (j.target M data) (j.newEntry data))) ∧
    ∀ d' : Device M, j.target M data*M.blockSize+(entryHeaderSize+data.length) ≤ M.space →
      (d'.HandsOut (j.target M data) (j.newEntry data) ↔
        j.target M data+numBlocks M (entryHeaderSize+data.length) ≤ d'.size ∧
        d'.Spells (j.target M data) (j.newEntry data).bytes) := by
  refine ⟨?_,fun d' hspace => ⟨spells_of_handsOut hlen hspace,fun h => handsOut_of_spells hlen hspace h.1 h.2⟩⟩
  by_cases ha : j.Accepts data
  · have hnot := hw d (j.target M data) (j.newEntry data).bytes
    cases hr : write d (j.target M data) (j.newEntry data).bytes with
    | mk d' r =>
      rw [hr] at hnot
      cases r with
      | ok n =>
        rw [Journal.verified_of_ok ha hlen hr]
        constructor
        · rintro h - d'' n' heq
          cases heq
          exact h
        · intro h
          exact h ha d' n rfl
      | error e =>
        refine ⟨fun _ _ d'' n heq => ?_,fun _ => Journal.verified_of_error ha hr⟩
        cases heq
      | panic p => exact absurd rfl (hnot p)
  · exact ⟨fun _ hc => absurd hc ha,fun _ => Journal.verified_of_tooLarge ha⟩

/-- A device that stores the given bytes in place of those it is asked to store. -/
def writeAltered (stored : List UInt8) : WriteBlocks M := fun d lba b =>
  let n := numBlocks M b.length
  if lba+n ≤ d.size then (d.store lba n stored,.ok n) else (d,.error (.device lba))

lemma writeAltered_ne_panic (stored : List UInt8) (d : Device M) (lba : ℕ) (b : List UInt8) (p : Panic) :
    (writeAltered stored d lba b).2 ≠ .panic p := by
  unfold writeAltered
  dsimp only
  split_ifs
  · exact fun h => by cases h
  · exact fun h => by cases h

/-- The journal of six blocks of zeros. -/
def newSixBlocks : Journal := ⟨0,6,Entry.zero,0,48⟩

theorem update_verified_sixBlocks : newSixBlocks.Verified
    (writeAltered (newSixBlocks.newEntry [0x41]).bytes) (Device.zeros smallMachine 6) [0x41] := by
  obtain ⟨hiff,hspelled⟩ := update_verified_iff (writeAltered (newSixBlocks.newEntry [0x41]).bytes)
    (writeAltered_ne_panic _) newSixBlocks (Device.zeros smallMachine 6) [0x41] (by decide)
  refine hiff.mpr ?_
  have hlen : (newSixBlocks.newEntry [0x41]).bytes.length = 49 := bytes_length _ _
  rintro - d' n heq
  simp only [writeAltered,hlen] at heq
  rw [if_pos (by decide)] at heq
  cases heq
  have hspells := spells_store (d := Device.zeros smallMachine 6) (n := 0) (k := 2)
    (newSixBlocks.newEntry [0x41]).bytes 49 (by decide)
  rw [← hlen,List.take_length] at hspells
  exact ⟨by decide,(hspelled _ (by decide +kernel)).mpr ⟨by decide,hspells⟩⟩

/-- The device flips bits in the first byte of the record. The update returns nil, and
the record it has made current is not on the device. -/
theorem altered_record_accepted :
    openJournal (Device.zeros smallMachine 6) 0 6 = .ok newSixBlocks ∧
    (newSixBlocks.update (writeAltered (0x77::(Entry.ofData 1 []).bytes.tail))
      (Device.zeros smallMachine 6) []).2 =
        ({newSixBlocks with nextBlock := 1, current := Entry.ofData 1 []},.ok ()) ∧
    ((entryAt smallMachine.arith (newSixBlocks.update (writeAltered (0x77::(Entry.ofData 1 []).bytes.tail))
      (Device.zeros smallMachine 6) []).1.readBlocks 0).map fun _ => ()) =
      .error (.invalidMagic ⟨[0x77,0x46,0x4a,0x30],rfl⟩) := by
  decide +kernel

/-- After a failed update, the next one makes the call it would have made anyway,
unless the failed record did not fit into the space left, and so sent the journal
back to the start of the region, and the next one does. -/
theorem failed_update_harmless_iff (j : Journal) (write : WriteBlocks M) (d : Device M)
    (data data' : List UInt8) (e : JournalError) (hfail : (j.update write d data).2.2 = .error e) :
    (j.update write d data).2.1.request M data' = j.request M data' ↔
    ¬ (j.Accepts data ∧ ¬ j.Room M data ∧ j.Accepts data' ∧ j.Room M data' ∧ j.nextBlock ≠ j.start) := by
  rw [Journal.failed_eq hfail]
  by_cases ha : j.Accepts data
  · rw [if_pos ha]
    by_cases ha' : j.Accepts data'
    · rw [Journal.request_moved ha',Journal.request,if_pos ha']
      by_cases hroom : j.Room M data
      · rw [Journal.target_of_room hroom]
        exact ⟨fun _ hc => hc.2.1 hroom,fun _ => rfl⟩
      · rw [Journal.target_of_not_room hroom]
        have hstart : Journal.target {j with nextBlock := j.start} M data' = j.start := ite_self _
        rw [hstart]
        by_cases hroom' : j.Room M data'
        · rw [Journal.target_of_room hroom']
          constructor
          · intro heq hc
            injection heq with heq
            exact hc.2.2.2.2 (Prod.mk.inj heq).1.symm
          · intro hno
            have heq : j.nextBlock = j.start := by
              by_contra hne
              exact hno ⟨ha,hroom,ha',hroom',hne⟩
            rw [heq]
        · rw [Journal.target_of_not_room hroom']
          exact ⟨fun _ hc => hroom' hc.2.2.2.1,fun _ => rfl⟩
    · exact ⟨fun _ hc => ha' hc.2.2.1,fun _ => (if_neg ha').trans (if_neg ha').symm⟩
  · rw [if_neg ha]
    exact ⟨fun _ hc => ha hc.1,fun _ => rfl⟩

/-- The journal after five updates with empty data. -/
def fiveEmpty : Journal := ⟨0,6,Entry.ofData 5 [],5,48⟩

theorem failed_update_harmless_fiveEmpty :
    (fiveEmpty.update (writePrefix 0) (Device.zeros smallMachine 6) []).2.1.request smallMachine [] =
      fiveEmpty.request smallMachine [] :=
  (failed_update_harmless_iff fiveEmpty (writePrefix 0) (Device.zeros smallMachine 6) [] []
    (.write (.device 5)) (by decide +kernel)).mpr (by decide +kernel)

/-- One block is left. A record of two blocks does not fit, and its write fails with
nothing stored; a record of one block then goes to block 0 in place of block 5. -/
theorem failed_update_moves_next :
    (Session.runFrom (Device.zeros smallMachine 6) sixBlocks (List.replicate 5 (.update []))).map
      (fun s => s.journal) = some fiveEmpty ∧
    (∀ d : Device smallMachine, (fiveEmpty.update (writePrefix 0) d [0x41]).1 = d ∧
      (fiveEmpty.update (writePrefix 0) d [0x41]).2 =
        ({fiveEmpty with nextBlock := 0},.error (.write (.device 0)))) ∧
    fiveEmpty.request smallMachine [] = some (5,(Entry.ofData 6 []).bytes) ∧
    Journal.request {fiveEmpty with nextBlock := 0} smallMachine [] = some (0,(Entry.ofData 6 []).bytes) := by
  refine ⟨by decide +kernel,fun d => ?_,by decide +kernel,by decide +kernel⟩
  have ha : fiveEmpty.Accepts [0x41] := by decide
  rw [Journal.update_writePrefix ha]
  exact ⟨d.store_zero _ _,rfl⟩

end ArmoredWitness.Slots
