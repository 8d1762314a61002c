import ArmoredWitness.Slots.Session

/-! The journal in words of any size. `OpenJournal` and `Update` are functions of the
arithmetic they compute in; in words of `w` bits they compute the same as in
unbounded integers, as long as the region ends within the address space. -/
namespace ArmoredWitness.Slots
open Lib Lib.Sha256

variable {M : Machine}

/-- Every header in the region claims a record that ends in the region. -/
structure Device.Framed (d : Device M) (r : Region M) : Prop where
  on_device : r.stop ≤ d.size
  fits : ∀ q, r.start ≤ q → q < r.stop → d.IsHeader q →
    q+numBlocks M (entryHeaderSize+(d.dataLenAt q).toNat) ≤ r.stop

namespace Device.Framed
variable {d : Device M} {r : Region M} (h : d.Framed r) {q : ℕ}
include h

/-- The byte after a record is in the address space if the end of the region is. -/
lemma record_end (hs : r.start ≤ q) (hq : q < r.stop) (hh : d.IsHeader q) {L : ℕ}
    (hend : r.stop*M.blockSize ≤ L) : q*M.blockSize+(entryHeaderSize+(d.dataLenAt q).toNat) ≤ L := by
  have hfits := h.fits q hs hq hh
  have hle := Blocks.le_count_mul M.blockSize_pos (entryHeaderSize+(d.dataLenAt q).toNat)
  calc q*M.blockSize+(entryHeaderSize+(d.dataLenAt q).toNat)
      ≤ q*M.blockSize+numBlocks M (entryHeaderSize+(d.dataLenAt q).toNat)*M.blockSize :=
        Nat.add_le_add_left hle _
    _ = (q+numBlocks M (entryHeaderSize+(d.dataLenAt q).toNat))*M.blockSize := (Nat.add_mul _ _ _).symm
    _ ≤ r.stop*M.blockSize := Nat.mul_le_mul_right _ hfits
    _ ≤ L := hend

end Device.Framed

section Scanning
variable {A : Arith} {L : ℕ} (hA : A.UpTo L) {d : Device M} {r : Region M} (h : d.Framed r)
  (hend : r.stop*M.blockSize ≤ L)

include h hend in
/-- What the scan reads at a block lies in the address space. -/
lemma Device.Framed.within {q : ℕ} (hs : r.start ≤ q) (hq : q < r.stop) : d.Within q L := by
  have hB : 48 ≤ M.blockSize := r.header_le
  have h48 : entryHeaderSize = 48 := rfl
  have hle : (q+1)*M.blockSize ≤ r.stop*M.blockSize := Nat.mul_le_mul_right _ hq
  rw [Nat.add_mul] at hle
  exact ⟨by omega,fun hh _ => h.record_end hs hq hh hend⟩

include hA h hend

/-- What the scan decodes at a block is the same in the arithmetic as in the integers. -/
lemma entryAt_exact {q : ℕ} (hs : r.start ≤ q) (hq : q < r.stop) :
    (∃ e br br', entryAt A d.readBlocks q = .ok (e,br) ∧ entryAt .exact d.readBlocks q = .ok (e,br') ∧
      q+e.blocks M ≤ r.stop) ∨
    (∃ err err', entryAt A d.readBlocks q = .error err ∧ entryAt .exact d.readBlocks q = .error err') ∨
    ∃ p, entryAt A d.readBlocks q = .panic p ∧ entryAt .exact d.readBlocks q = .panic p := by
  have hw := h.within hend hs hq
  rcases entryAt_cases hA hw with ⟨hr,br,he⟩ | ⟨hn,hnp,err,he⟩ | ⟨⟨hh,hlt⟩,-,he⟩
  · obtain ⟨br',he'⟩ := entryAt_of_isRecord (Arith.exact_upTo L) hw hr
    exact .inl ⟨_,br,br',he,he',h.fits q hs hq hr.toIsHeader⟩
  · rcases entryAt_cases (Arith.exact_upTo L) hw with ⟨hr,-⟩ | ⟨-,-,err',he'⟩ | ⟨hp,-⟩
    · exact absurd hr hn
    · exact .inr (.inl ⟨err,err',he,he'⟩)
    · exact absurd hp hnp
  · exact .inr (.inr ⟨_,he,entryAt_of_large (Arith.exact_upTo L) hw hh hlt⟩)

variable (hstart : 1 ≤ r.start)
include hstart

omit hA h in
/-- Block addresses up to the end of the region stay below the end of the address space. -/
lemma stop_lt : r.stop+1 < L := by
  have hB : 48 ≤ M.blockSize := r.header_le
  have hle : r.stop*48 ≤ r.stop*M.blockSize := Nat.mul_le_mul_left _ hB
  have hstop : r.stop = r.start+r.length := rfl
  omega

omit h in
/-- Behind a record that ends in the region the scan goes on at the next block. -/
lemma blockAfter_eq {q : ℕ} {e : Entry} (hq : q+e.blocks M ≤ r.stop) : blockAfter A M q e = q+e.blocks M := by
  have hlt := stop_lt hend hstart
  refine blockAfter_of_upTo hA ?_ (hq.trans_lt (by omega))
  have hle := Blocks.le_count_mul M.blockSize_pos (entryHeaderSize+e.dataLen.toNat)
  calc q*M.blockSize+(entryHeaderSize+e.dataLen.toNat) ≤ q*M.blockSize+e.blocks M*M.blockSize :=
        Nat.add_le_add_left hle _
    _ = (q+e.blocks M)*M.blockSize := (Nat.add_mul _ _ _).symm
    _ ≤ r.stop*M.blockSize := Nat.mul_le_mul_right _ hq
    _ ≤ L := hend

lemma scanBody_exact {s : Scan} (hs : r.start ≤ s.lba) :
    scanBody A d.readBlocks r.stop s = scanBody .exact d.readBlocks r.stop s := by
  have hlt := stop_lt hend hstart
  by_cases hq : s.lba < r.stop
  · rcases entryAt_exact hA h hend hs hq with ⟨e,br,br',he,he',hfit⟩ | ⟨err,err',he,he'⟩ | ⟨p,he,he'⟩
    · rw [scanBody_ok hq he,scanBody_ok hq he',blockAfter_eq hA hend hstart hfit,
        blockAfter_eq (Arith.exact_upTo L) hend hstart hfit]
    · rw [scanBody_error hq he,scanBody_error hq he',hA.uint (show s.lba+1 < L by omega)]
      rfl
    · rw [scanBody_panic hq he,scanBody_panic hq he']
  · rw [scanBody_end hq,scanBody_end hq]

omit hA in
/-- In the integers the scan stays in the region. -/
lemma start_le_of_again {s t : Scan} (hs : r.start ≤ s.lba)
    (hb : scanBody .exact d.readBlocks r.stop s = .again t) : r.start ≤ t.lba ∧
      (t.nextWriteLBA = s.nextWriteLBA ∨ r.start ≤ t.nextWriteLBA ∧ t.nextWriteLBA ≤ r.stop) := by
  obtain ⟨hlt,⟨err,-,-,rfl⟩ | ⟨e,br,he,-,rfl⟩⟩ := scanBody_eq_again hb
  · exact ⟨Nat.le_succ_of_le hs,.inl rfl⟩
  · rcases entryAt_exact (Arith.exact_upTo L) h hend hs hlt with ⟨e',br1,br2,he',-,hfit⟩ | ⟨err,-,he',-⟩ | ⟨p,he',-⟩
    · rw [he] at he'
      cases he'
      dsimp only
      rw [blockAfter_eq (Arith.exact_upTo L) hend hstart hfit]
      exact ⟨hs.trans (Nat.le_add_right _ _),.inr ⟨hs.trans (Nat.le_add_right _ _),hfit⟩⟩
    · rw [he] at he'
      cases he'
    · rw [he] at he'
      cases he'

/-- The scan in the arithmetic is the scan in the integers. -/
theorem scan_exact : scan A d.readBlocks r.start r.length = scan .exact d.readBlocks r.start r.length := by
  have hlt := stop_lt hend hstart
  have hstop : A.uint (r.start+r.length : ℕ) = r.stop := hA.uint (show r.stop < L by omega)
  apply Loop.exec_congr (P := fun s => r.start ≤ s.lba) (scanLoop .exact d.readBlocks r.start r.length)
    (scanLoop A d.readBlocks r.start r.length) _ _ le_rfl
  · exact fun s t hs hb => (start_le_of_again h hend hstart hs hb).1
  · intro s hs
    change scanBody A d.readBlocks (A.uint (r.start+r.length : ℕ)) s = scanBody .exact d.readBlocks r.stop s
    rw [hstop]
    exact scanBody_exact hA h hend hstart hs

variable (hL : 96 ≤ L)
include hL

omit h in
lemma maxDataBytesIn_eq : maxDataBytesIn A M r.length = maxDataBytesIn .exact M r.length := by
  have hlen : r.length*M.blockSize < L := by
    have hmul : r.stop*M.blockSize = r.start*M.blockSize+r.length*M.blockSize := Nat.add_mul _ _ _
    have hle : M.blockSize ≤ r.start*M.blockSize := Nat.le_mul_of_pos_left _ hstart
    have hB := M.blockSize_pos
    omega
  rw [maxDataBytesIn,maxDataBytesIn,hA.uint hlen,Arith.exact_int,Arith.exact_uint]
  apply hA.int
  · change -(L : ℤ) ≤ 2*((r.length*M.blockSize/3 : ℕ)-48)
    omega
  · change 2*(((r.length*M.blockSize/3 : ℕ) : ℤ)-48) < L
    omega

/-- `OpenJournal` gives the same journal. -/
theorem openJournalIn_eq : openJournalIn A d r.start r.length = openJournalIn .exact d r.start r.length := by
  have hlt := stop_lt hend hstart
  have hstop : A.uint (r.start+r.length : ℕ) = Arith.exact.uint (r.start+r.length : ℕ) :=
    hA.uint (by change r.stop < L; omega)
  rw [openJournalIn,openJournalIn,scan_exact hA h hend hstart,hstop,maxDataBytesIn_eq hA hend hstart hL]

end Scanning

/-- The journal was opened on the region, with its limit as an integer, and its next
block is in the region or the one behind it. -/
structure Journal.Inside (j : Journal) (r : Region M) : Prop where
  start : j.start = r.start
  length : j.length = r.length
  maxDataBytes : j.maxDataBytes = maxDataBytesIn .exact M r.length
  le_next : r.start ≤ j.nextBlock
  next_le : j.nextBlock ≤ r.stop

section Updating
variable {A : Arith} {L : ℕ} (hA : A.UpTo L) {d : Device M} {r : Region M} (h : d.Framed r)
  (hend : r.stop*M.blockSize ≤ L) (hstart : 1 ≤ r.start) {j : Journal} {data : List UInt8}

/-- Opening a framed region gives a journal inside it. -/
lemma openJournalIn_inside (h : d.Framed r) (hstart : 1 ≤ r.start)
    (ho : openJournalIn .exact d r.start r.length = .ok j) : j.Inside r := by
  obtain ⟨⟨last,next⟩,hscan,rfl⟩ := Outcome.map_eq_ok.mp ho
  have hnext : r.start ≤ next ∧ next ≤ r.stop := by
    have hrule := (scanLoop .exact d.readBlocks r.start r.length).exec_rule
      (P := fun s => r.start ≤ s.lba ∧ r.start ≤ s.nextWriteLBA ∧ s.nextWriteLBA ≤ r.stop)
      (Q := fun x => ∀ last next, x = .ok (last,next) → r.start ≤ next ∧ next ≤ r.stop)
      ?_ ?_ (s := ⟨r.start,Entry.zero,r.start⟩) ⟨le_rfl,le_rfl,Nat.le_add_right _ _⟩
    · exact hrule last next hscan
    · rintro s t ⟨hs,hn⟩ hb
      obtain ⟨hlba,hsame | hin⟩ := start_le_of_again h le_rfl hstart hs hb
      · exact ⟨hlba,by rwa [hsame]⟩
      · exact ⟨hlba,hin⟩
    · rintro s x ⟨hs,hn⟩ hb last next rfl
      obtain ⟨-,hr⟩ | ⟨hlt,⟨e,br,-,-,hr⟩ | ⟨e,br,-,-,hr⟩ | ⟨p,-,hr⟩⟩ := scanBody_eq_leave hb <;> cases hr
      · exact hn
      · exact ⟨hs,Nat.le_of_lt hlt⟩
  refine ⟨rfl,rfl,rfl,?_,?_⟩
  · dsimp only
    split_ifs
    · exact le_rfl
    · exact hnext.1
  · dsimp only
    split_ifs
    · exact Nat.le_add_right _ _
    · exact hnext.2

variable (hj : j.Inside r) (ha : j.Accepts data)
include hj

section
include hA hend hstart

/-- The space that is left, in bytes. -/
lemma capIn_eq : j.capIn A M = (r.stop-j.nextBlock)*M.blockSize := by
  have hlt := stop_lt hend hstart
  have hmul : r.stop*M.blockSize = r.start*M.blockSize+r.length*M.blockSize := Nat.add_mul _ _ _
  have hpos : M.blockSize ≤ r.start*M.blockSize := Nat.le_mul_of_pos_left _ hstart
  have hB := M.blockSize_pos
  have hstop : j.start+j.length = r.stop := by rw [hj.start,hj.length]; rfl
  have hnext := hj.next_le
  have hlow := hj.le_next
  have hlen : r.stop = r.start+r.length := rfl
  have hcast : ((r.stop : ℤ)-j.nextBlock) = ((r.stop-j.nextBlock : ℕ) : ℤ) := by omega
  have hle : (r.stop-j.nextBlock)*M.blockSize ≤ r.length*M.blockSize := Nat.mul_le_mul_right _ (by omega)
  rw [Journal.capIn,hstop,hA.uint (show r.stop < L by omega),hcast,
    hA.uint (show r.stop-j.nextBlock < L by omega),
    hA.uint (show (r.stop-j.nextBlock)*M.blockSize < L by omega)]

end

include ha

/-- An accepted record is at most a third of the region. -/
lemma accepted_le : 3*(entryHeaderSize+data.length) ≤ r.length*M.blockSize := by
  have hle : (data.length : ℤ) ≤ maxDataBytesIn .exact M r.length := hj.maxDataBytes ▸ ha
  rw [maxDataBytesIn,Arith.exact_int,Arith.exact_uint] at hle
  change (data.length : ℤ) ≤ (r.length*M.blockSize/3 : ℕ)-48 at hle
  change 3*(48+data.length) ≤ r.length*M.blockSize
  omega

include hstart in
lemma targetIn_exact : r.start ≤ j.targetIn .exact M data ∧
    j.targetIn .exact M data+numBlocks M (entryHeaderSize+data.length) ≤ r.stop := by
  have hacc := accepted_le hj ha
  have hsize : (j.newEntry data).size = entryHeaderSize+data.length := rfl
  have hnext := hj.next_le
  rw [Journal.targetIn,capIn_eq (Arith.exact_upTo _) le_rfl hstart hj,Arith.exact_uint,hsize]
  split_ifs with hlt
  · have hfit : numBlocks M (entryHeaderSize+data.length) ≤ r.length :=
      (Blocks.count_le_iff M.blockSize_pos _ _).mpr (by omega)
    rw [hj.start]
    exact ⟨le_rfl,Nat.add_le_add_left hfit _⟩
  · have hfit : numBlocks M (entryHeaderSize+data.length) ≤ r.stop-j.nextBlock :=
      (Blocks.count_le_iff M.blockSize_pos _ _).mpr (Nat.le_of_not_lt hlt)
    exact ⟨hj.le_next,by omega⟩

include hA hend hstart

/-- An update goes to the same block. -/
theorem targetIn_eq : j.targetIn A M data = j.targetIn .exact M data := by
  have hacc := accepted_le hj ha
  have hmul : r.stop*M.blockSize = r.start*M.blockSize+r.length*M.blockSize := Nat.add_mul _ _ _
  have hpos : M.blockSize ≤ r.start*M.blockSize := Nat.le_mul_of_pos_left _ hstart
  have hB := M.blockSize_pos
  have hsize : A.uint (j.newEntry data).size = Arith.exact.uint (j.newEntry data).size :=
    hA.uint (show entryHeaderSize+data.length < L by omega)
  rw [Journal.targetIn,Journal.targetIn,capIn_eq hA hend hstart hj,
    capIn_eq (Arith.exact_upTo _) le_rfl hstart hj,hsize]

include h

/-- What an accepted update does, in any arithmetic that is exact up to the end of the region. -/
theorem updateIn_accepted : j.updateIn A writeBlocks d data =
    (d.store (j.targetIn .exact M data) (numBlocks M (entryHeaderSize+data.length)) (j.newEntry data).bytes,
      {j with nextBlock := j.targetIn .exact M data+numBlocks M (entryHeaderSize+data.length),
              current := j.newEntry data},.ok ()) := by
  have hlt := stop_lt hend hstart
  have hfit := (targetIn_exact hstart hj ha).2
  have hon := h.on_device
  have hm : marshalEntry (j.newEntry data) = .ok (j.newEntry data).bytes := marshalEntry_ofData _ _
  have hlen : (j.newEntry data).bytes.length = entryHeaderSize+data.length := bytes_length _ _
  have hnext : A.uint (j.targetIn .exact M data+numBlocks M (entryHeaderSize+data.length) : ℕ) =
      j.targetIn .exact M data+numBlocks M (entryHeaderSize+data.length) := hA.uint (by omega)
  unfold Journal.updateIn
  rw [if_neg (Int.not_lt.mpr ha),targetIn_eq hA hend hstart hj ha]
  simp only [hm,writeBlocks,hlen,if_pos (hfit.trans hon),Journal.installIn,hnext]

end Updating

namespace Device.Framed
variable {d : Device M} {r : Region M}

lemma of_zero (hon : r.stop ≤ d.size) (hzero : ∀ q, r.start ≤ q → q < r.stop → d.block q = zeroBlock M) :
    d.Framed r := ⟨hon,fun q hs hq hh => absurd hh (Device.not_isHeader_zero (hzero q hs hq))⟩

/-- Storing a record in the region keeps it framed. -/
lemma store (h : d.Framed r) {n : ℕ} {data : List UInt8} (rev : UInt32) (hfree : FreeOfMagic M data)
    (hfit : n+numBlocks M (entryHeaderSize+data.length) ≤ r.stop) :
    (d.store n (numBlocks M (entryHeaderSize+data.length)) (Entry.ofData rev data).bytes).Framed r := by
  refine ⟨h.on_device,fun q hs hq hh => ?_⟩
  rcases Device.isHeader_store_cases r.header_le hfree le_rfl hh with ⟨rfl,hl⟩ | ⟨hd,hl⟩
  · have hle : (Entry.ofData rev data).dataLen.toNat ≤ data.length := by
      change (UInt64.ofNat data.length).toNat ≤ data.length
      rw [UInt64.toNat_ofNat']
      exact Nat.mod_le _ _
    rw [hl]
    exact (Nat.add_le_add_left (Blocks.count_mono M.blockSize_pos (Nat.add_le_add_left hle _)) _).trans hfit
  · rw [hl]
    exact h.fits q hs hq hd

end Device.Framed

/-- What is done with a journal: update it, or open it again. -/
inductive Use
  | update (data : List UInt8)
  | reopen
  deriving DecidableEq

def useIn (A : Arith) (s : Device M × Journal) : Use → Outcome JournalError (Device M × Journal)
  | .update data =>
    .ok ((s.2.updateIn A writeBlocks s.1 data).1,(s.2.updateIn A writeBlocks s.1 data).2.1)
  | .reopen => (openJournalIn A s.1 s.2.start s.2.length).map fun j => (s.1,j)

def usesIn (A : Arith) (s : Device M × Journal) : List Use → Outcome JournalError (Device M × Journal)
  | [] => .ok s
  | u::us => (useIn A s u).bind fun t => usesIn A t us

/-- A run on a device, from the first `OpenJournal` on. -/
def runIn (A : Arith) (d : Device M) (r : Region M) (us : List Use) :
    Outcome JournalError (Device M × Journal) :=
  (openJournalIn A d r.start r.length).bind fun j => usesIn A (d,j) us

/-- No record that the use writes has a later block that begins with the magic. -/
def Use.Free (r : Region M) : Use → Prop
  | .update data => (data.length : ℤ) ≤ maxDataBytesIn .exact M r.length → FreeOfMagic M data
  | .reopen => True

instance (r : Region M) : (u : Use) → Decidable (u.Free r)
  | .update _ => inferInstanceAs (Decidable (_ → _))
  | .reopen => inferInstanceAs (Decidable True)

section Runs
variable {A : Arith} {L : ℕ} (hA : A.UpTo L) {d : Device M} {r : Region M} {j : Journal}
  (hend : r.stop*M.blockSize ≤ L) (hstart : 1 ≤ r.start) (hL : 96 ≤ L)

lemma updateIn_rejected (A : Arith) {data : List UInt8} (ha : ¬ j.Accepts data) :
    j.updateIn A writeBlocks d data = (d,j,.error (.tooLarge data.length j.maxDataBytes)) := by
  unfold Journal.updateIn
  rw [if_pos (Int.not_le.mp ha)]

include hA hend hstart in
/-- `Update` takes the same decision and leaves the same device and journal. -/
theorem updateIn_eq (h : d.Framed r) (hj : j.Inside r) (data : List UInt8) :
    j.updateIn A writeBlocks d data = j.updateIn .exact writeBlocks d data := by
  by_cases ha : j.Accepts data
  · rw [updateIn_accepted hA h hend hstart hj ha,
      updateIn_accepted (Arith.exact_upTo _) h hend hstart hj ha]
  · rw [updateIn_rejected A ha,updateIn_rejected .exact ha]

include hstart in
/-- An update leaves a framed region and a journal inside it. -/
lemma update_keeps (h : d.Framed r) (hj : j.Inside r) {data : List UInt8} (hfree : (Use.update data).Free r) :
    (j.updateIn .exact writeBlocks d data).1.Framed r ∧ (j.updateIn .exact writeBlocks d data).2.1.Inside r := by
  by_cases ha : j.Accepts data
  · obtain ⟨hle,hfit⟩ := targetIn_exact hstart hj ha
    rw [updateIn_accepted (Arith.exact_upTo _) h le_rfl hstart hj ha]
    exact ⟨h.store _ (hfree (hj.maxDataBytes ▸ ha)) hfit,
      hj.start,hj.length,hj.maxDataBytes,hle.trans (Nat.le_add_right _ _),hfit⟩
  · rw [updateIn_rejected .exact ha]
    exact ⟨h,hj⟩

include hA hend hstart hL

/-- One use: the same in both arithmetics, and the region stays framed. -/
lemma useIn_eq (h : d.Framed r) (hj : j.Inside r) {u : Use} (hfree : u.Free r) :
    useIn A (d,j) u = useIn .exact (d,j) u ∧
    ∀ d' j', useIn .exact (d,j) u = .ok (d',j') → d'.Framed r ∧ j'.Inside r := by
  cases u with
  | update data =>
    refine ⟨?_,?_⟩
    · simp only [useIn,updateIn_eq hA hend hstart h hj]
    · intro d' j' hu
      cases hu
      exact update_keeps hstart h hj hfree
  | reopen =>
    simp only [useIn,hj.start,hj.length]
    refine ⟨by rw [openJournalIn_eq hA h hend hstart hL],?_⟩
    intro d' j' hu
    obtain ⟨k,ho,hk⟩ := Outcome.map_eq_ok.mp hu
    cases hk
    exact ⟨h,openJournalIn_inside h hstart ho⟩

/-- Every run, by induction on its uses. -/
lemma usesIn_eq (us : List Use) (h : d.Framed r) (hj : j.Inside r) (hfree : ∀ u ∈ us, u.Free r) :
    usesIn A (d,j) us = usesIn .exact (d,j) us ∧
    ∀ d' j', usesIn .exact (d,j) us = .ok (d',j') → d'.Framed r ∧ j'.Inside r := by
  induction us generalizing d j with
  | nil =>
    refine ⟨rfl,?_⟩
    intro d' j' hu
    cases hu
    exact ⟨h,hj⟩
  | cons u us ih =>
    obtain ⟨heq,hkeep⟩ := useIn_eq hA hend hstart hL h hj (hfree u (List.mem_cons_self ..))
    have hrest : ∀ v ∈ us, v.Free r := fun v hv => hfree v (List.mem_cons_of_mem _ hv)
    simp only [usesIn,heq]
    cases hu : useIn .exact (d,j) u with
    | ok t =>
      obtain ⟨d1,j1⟩ := t
      obtain ⟨hd1,hj1⟩ := hkeep d1 j1 hu
      exact ih hd1 hj1 hrest
    | error e =>
      refine ⟨rfl,?_⟩
      intro d' j' hc
      cases hc
    | panic p =>
      refine ⟨rfl,?_⟩
      intro d' j' hc
      cases hc

lemma runIn_eq (us : List Use) (h : d.Framed r) (hfree : ∀ u ∈ us, u.Free r) :
    runIn A d r us = runIn .exact d r us ∧
    ∀ d' j', runIn .exact d r us = .ok (d',j') → d'.Framed r ∧ j'.Inside r := by
  rw [runIn,runIn,openJournalIn_eq hA h hend hstart hL]
  cases ho : openJournalIn .exact d r.start r.length with
  | ok j => exact usesIn_eq hA hend hstart hL us h (openJournalIn_inside h hstart ho) hfree
  | error e =>
    refine ⟨rfl,?_⟩
    intro d' j' hc
    cases hc
  | panic p =>
    refine ⟨rfl,?_⟩
    intro d' j' hc
    cases hc

end Runs

/-- Words of `w` bits compute what the integers do, for every region that ends within
`2^w` bytes: the same runs, and in every state a run comes to, the same journal
from `OpenJournal`, the same block to write to, and the same decision, device and
journal from `Update`. -/
theorem word_arithmetic_exact (w : ℕ) (hw : 32 ≤ w) (r : Region M) (hstart : 1 ≤ r.start)
    (hend : r.stop*M.blockSize ≤ 2^w) {d : Device M} (hon : r.stop ≤ d.size)
    (hzero : ∀ q, r.start ≤ q → q < r.stop → d.block q = zeroBlock M) (us : List Use) (hfree : ∀ u ∈ us, u.Free r) :
    runIn (.word w) d r us = runIn .exact d r us ∧
    ∀ d' j, runIn .exact d r us = .ok (d',j) →
      openJournalIn (.word w) d' r.start r.length = openJournalIn .exact d' r.start r.length ∧
      (∀ data, j.Accepts data → j.targetIn (.word w) M data = j.targetIn .exact M data) ∧
      ∀ data, j.updateIn (.word w) writeBlocks d' data = j.updateIn .exact writeBlocks d' data := by
  have hL : 96 ≤ 2^w := by
    have hle : 2^32 ≤ 2^w := Nat.pow_le_pow_right (by decide) hw
    omega
  obtain ⟨heq,hkeep⟩ := runIn_eq (Arith.word_upTo w) hend hstart hL us (.of_zero hon hzero) hfree
  refine ⟨heq,fun d' j hrun => ?_⟩
  obtain ⟨hd',hj⟩ := hkeep d' j hrun
  refine ⟨openJournalIn_eq (Arith.word_upTo w) hd' hend hstart hL,?_,?_⟩
  · intro data ha
    exact targetIn_eq (Arith.word_upTo w) hend hstart hj ha
  · intro data
    exact updateIn_eq (Arith.word_upTo w) hend hstart hd' hj data

/-- A 32-bit machine with blocks of 64 bytes. -/
def sixtyFour : Machine := .bits32 64 (by decide)

/-- The last three blocks that 32-bit byte positions reach. -/
def lastBlocks : Region sixtyFour := ⟨2^26-3,3,by decide⟩

theorem word_arithmetic_exact_lastBlocks :
    lastBlocks.stop*sixtyFour.blockSize = 2^32 ∧
    runIn (.word 32) (Device.zeros sixtyFour (2^26)) lastBlocks
        [.update [0x41],.update [],.update [0x42],.reopen,.update [0x43]] =
      runIn .exact (Device.zeros sixtyFour (2^26)) lastBlocks
        [.update [0x41],.update [],.update [0x42],.reopen,.update [0x43]] ∧
    (runIn (.word 32) (Device.zeros sixtyFour (2^26)) lastBlocks
      [.update [0x41],.update [],.update [0x42],.reopen,.update [0x43]]).isOk = true := by
  refine ⟨by decide,?_,by decide +kernel⟩
  exact (word_arithmetic_exact 32 le_rfl lastBlocks (by decide) (by decide) (by decide) (fun _ _ _ => rfl)
    [.update [0x41],.update [],.update [0x42],.reopen,.update [0x43]]
    (by decide)).1

end ArmoredWitness.Slots
