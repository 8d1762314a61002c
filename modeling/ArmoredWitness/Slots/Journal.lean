import ArmoredWitness.Slots.Header

/-! The journal of a slot: opening it by a scan of its region, and storing new
records. The device is passed along explicitly, and the behaviour of the one
`WriteBlocks` call an update makes is a parameter. -/
namespace ArmoredWitness.Slots
open Lib Lib.Sha256

variable {M : Machine}

structure Journal where
  start : ℕ
  length : ℕ
  current : Entry
  nextBlock : ℕ
  maxDataBytes : ℤ
  deriving DecidableEq

inductive JournalError
  | tooLarge (len : ℕ) (max : ℤ)
  | marshal (e : EntryError)
  | write (e : WriteError)
  | sameRevision (revision : UInt32)
  deriving DecidableEq

/-- The limit on the size of the data, as the `int` that it is compared as: where a
third of the region is smaller than a header, the subtraction wraps and the
conversion undoes the wrap. -/
def maxDataBytesIn (A : Arith) (M : Machine) (length : ℕ) : ℤ :=
  A.int ((A.uint (length*M.blockSize : ℕ)/minEntries : ℕ)-(entryHeaderSize : ℤ))

/-- The limit as a number. -/
def maxDataBytes (M : Machine) (length : ℕ) : ℤ :=
  (M.wrap (length*M.blockSize)/minEntries : ℕ)-(entryHeaderSize : ℤ)

lemma maxDataBytesIn_machine (h : entryHeaderSize ≤ M.maxInt) (length : ℕ) :
    maxDataBytesIn M.arith M length = maxDataBytes M length := by
  have hle := M.wrap_le_maxUint (length*M.blockSize)
  have hmax : M.maxUint = 2*M.maxInt+1 := rfl
  have hspace : M.space = M.maxUint+1 := rfl
  have h48 : entryHeaderSize = 48 := rfl
  have h3 : minEntries = 3 := rfl
  rw [maxDataBytesIn,maxDataBytes,M.arith_uint]
  apply M.arith_upTo.int
  · rw [hspace,h48,h3]
    omega
  · rw [hspace,h48,h3]
    omega

/-- The variables of the loop in `init`. -/
structure Scan where
  lba : ℕ
  lastEntry : Entry
  nextWriteLBA : ℕ

/-- The block after the bytes read so far: `(br.pos-1)/br.dev.BlockSize() + 1`. -/
def nextLBA (A : Arith) (M : Machine) (pos : ℕ) : ℕ :=
  A.uint (A.uint (pos-1 : ℤ)/M.blockSize+1 : ℕ)

/-- One round of the loop in `init`. -/
def scanBody (A : Arith) (readBlocks : ReadBlocks M) (stop : ℕ) (s : Scan) :
    Turn Scan (Outcome JournalError (Entry × ℕ)) :=
  if s.lba < stop then
    match entryAt A readBlocks s.lba with
    | .panic p => .leave (.panic p)
    | .error _ =>
      if 0 < s.lastEntry.revision then .leave (.ok (s.lastEntry,s.nextWriteLBA))
      else .again {s with lba := A.uint (s.lba+1 : ℕ)}
    | .ok (e,br) =>
      if s.lastEntry.revision < e.revision then
        .again ⟨nextLBA A M br.pos,e,nextLBA A M br.pos⟩
      else if e.revision < s.lastEntry.revision then .leave (.ok (s.lastEntry,s.lba))
      else .leave (.error (.sameRevision e.revision))
  else .leave (.ok (s.lastEntry,s.nextWriteLBA))

/-- The block at which the scan goes on after it has decoded a record at `q`. -/
def blockAfter (A : Arith) (M : Machine) (q : ℕ) (e : Entry) : ℕ :=
  nextLBA A M (A.uint (q*M.blockSize+(entryHeaderSize+e.dataLen.toNat) : ℕ))

/-- Where nothing wraps, it is the block behind the record. -/
lemma blockAfter_of_upTo {A : Arith} {L q : ℕ} {e : Entry} (hA : A.UpTo L)
    (hend : q*M.blockSize+(entryHeaderSize+e.dataLen.toNat) ≤ L)
    (hlt : q+numBlocks M (entryHeaderSize+e.dataLen.toNat) < L) :
    blockAfter A M q e = q+numBlocks M (entryHeaderSize+e.dataLen.toNat) := by
  have hpos : 0 < entryHeaderSize+e.dataLen.toNat := Nat.add_pos_left (by decide) _
  have hafter := Blocks.pred_div_succ M.blockSize_pos q _ hpos
  change _ = q+numBlocks M _ at hafter
  rw [blockAfter,nextLBA,hA.pred (by omega) hend,hafter,hA.uint hlt]

section Rounds
variable {A : Arith} {readBlocks : ReadBlocks M} {stop : ℕ} {s t : Scan} {e : Entry} {br : BlockReader M}

lemma nextLBA_of_ok {q : ℕ} (h : entryAt A readBlocks q = .ok (e,br)) : nextLBA A M br.pos = blockAfter A M q e := by
  rw [(entryAt_eq_ok h).2.2.2]
  rfl

lemma scanBody_end (hge : ¬ s.lba < stop) :
    scanBody A readBlocks stop s = .leave (.ok (s.lastEntry,s.nextWriteLBA)) := by
  rw [scanBody,if_neg hge]

lemma scanBody_error {err : EntryError} (hlt : s.lba < stop) (he : entryAt A readBlocks s.lba = .error err) :
    scanBody A readBlocks stop s =
      if 0 < s.lastEntry.revision then .leave (.ok (s.lastEntry,s.nextWriteLBA))
      else .again {s with lba := A.uint (s.lba+1 : ℕ)} := by
  simp only [scanBody,if_pos hlt,he]

lemma scanBody_panic {p : Panic} (hlt : s.lba < stop) (he : entryAt A readBlocks s.lba = .panic p) :
    scanBody A readBlocks stop s = .leave (.panic p) := by
  simp only [scanBody,if_pos hlt,he]

lemma scanBody_ok (hlt : s.lba < stop) (he : entryAt A readBlocks s.lba = .ok (e,br)) :
    scanBody A readBlocks stop s =
      if s.lastEntry.revision < e.revision then
        .again ⟨blockAfter A M s.lba e,e,blockAfter A M s.lba e⟩
      else if e.revision < s.lastEntry.revision then .leave (.ok (s.lastEntry,s.lba))
      else .leave (.error (.sameRevision e.revision)) := by
  simp only [scanBody,if_pos hlt,he,nextLBA_of_ok he]

/-- The rounds after which the scan goes on. -/
lemma scanBody_eq_again (h : scanBody A readBlocks stop s = .again t) :
    s.lba < stop ∧ ((∃ err, entryAt A readBlocks s.lba = .error err ∧ ¬ 0 < s.lastEntry.revision ∧
        t = {s with lba := A.uint (s.lba+1 : ℕ)}) ∨
      ∃ e br, entryAt A readBlocks s.lba = .ok (e,br) ∧ s.lastEntry.revision < e.revision ∧
        t = ⟨blockAfter A M s.lba e,e,blockAfter A M s.lba e⟩) := by
  by_cases hlt : s.lba < stop
  · refine ⟨hlt,?_⟩
    cases he : entryAt A readBlocks s.lba with
    | panic p =>
      rw [scanBody_panic hlt he] at h
      cases h
    | error err =>
      rw [scanBody_error hlt he] at h
      split at h
      · cases h
      · rename_i hz
        cases h
        exact .inl ⟨err,rfl,hz,rfl⟩
    | ok x =>
      rw [scanBody_ok hlt he] at h
      split at h
      · rename_i hgt
        cases h
        exact .inr ⟨x.1,x.2,rfl,hgt,rfl⟩
      · split at h <;> cases h
  · rw [scanBody_end hlt] at h
    cases h

/-- The ways in which the scan ends. -/
lemma scanBody_eq_leave {r : Outcome JournalError (Entry × ℕ)} (h : scanBody A readBlocks stop s = .leave r) :
    (stop ≤ s.lba ∨ ∃ err, entryAt A readBlocks s.lba = .error err ∧ 0 < s.lastEntry.revision) ∧
      r = .ok (s.lastEntry,s.nextWriteLBA) ∨
    s.lba < stop ∧ ((∃ e br, entryAt A readBlocks s.lba = .ok (e,br) ∧ e.revision < s.lastEntry.revision ∧
        r = .ok (s.lastEntry,s.lba)) ∨
      (∃ e br, entryAt A readBlocks s.lba = .ok (e,br) ∧ e.revision = s.lastEntry.revision ∧
        r = .error (.sameRevision e.revision)) ∨
      ∃ p, entryAt A readBlocks s.lba = .panic p ∧ r = .panic p) := by
  by_cases hlt : s.lba < stop
  · cases he : entryAt A readBlocks s.lba with
    | panic p =>
      rw [scanBody_panic hlt he] at h
      cases h
      exact .inr ⟨hlt,.inr (.inr ⟨p,rfl,rfl⟩)⟩
    | error err =>
      rw [scanBody_error hlt he] at h
      split at h
      · rename_i hpos
        cases h
        exact .inl ⟨.inr ⟨err,rfl,hpos⟩,rfl⟩
      · cases h
    | ok x =>
      rw [scanBody_ok hlt he] at h
      split at h
      · cases h
      · rename_i hgt
        split at h
        · rename_i hless
          cases h
          exact .inr ⟨hlt,.inl ⟨x.1,x.2,rfl,hless,rfl⟩⟩
        · rename_i hless
          cases h
          have heq : x.1.revision = s.lastEntry.revision := by
            rw [UInt32.lt_iff_toNat_lt] at hgt hless
            exact UInt32.toNat_inj.mp (by omega)
          exact .inr ⟨hlt,.inr (.inl ⟨x.1,x.2,rfl,heq,rfl⟩)⟩
  · rw [scanBody_end hlt] at h
    cases h
    exact .inl ⟨.inl (Nat.le_of_not_lt hlt),rfl⟩

end Rounds

/-- The scan ends in any arithmetic: it moves on by a block, or to a record of a higher
revision, wherever that is. -/
def scanLoop (A : Arith) (readBlocks : ReadBlocks M) (start length : ℕ) :
    Loop Scan (Outcome JournalError (Entry × ℕ)) where
  body := scanBody A readBlocks (A.uint (start+length : ℕ))
  measure s := (A.uint (start+length : ℕ)+1)*(2^32-s.lastEntry.revision.toNat)+
    (A.uint (start+length : ℕ)-s.lba)
  decreases := by
    intro s t h
    obtain ⟨hlt,⟨err,-,-,rfl⟩ | ⟨e,br,-,hgt,rfl⟩⟩ := scanBody_eq_again h
    · dsimp only
      rw [A.below hlt]
      omega
    · rw [UInt32.lt_iff_toNat_lt] at hgt
      have he := e.revision.toNat_lt
      have hmul : (A.uint (start+length : ℕ)+1)*(2^32-e.revision.toNat+1) ≤
          (A.uint (start+length : ℕ)+1)*(2^32-s.lastEntry.revision.toNat) := Nat.mul_le_mul_left _ (by omega)
      rw [Nat.mul_add,Nat.mul_one] at hmul
      dsimp only
      omega

/-- `init` on what is read from the storage. -/
def scan (A : Arith) (readBlocks : ReadBlocks M) (start length : ℕ) : Outcome JournalError (Entry × ℕ) :=
  (scanLoop A readBlocks start length).exec ⟨start,Entry.zero,start⟩

def openJournalIn (A : Arith) (d : Device M) (start length : ℕ) : Outcome JournalError Journal :=
  (scan A d.readBlocks start length).map fun (last,next) =>
    { start := start
      length := length
      current := last
      nextBlock := if A.uint (start+length : ℕ) ≤ next then start else next
      maxDataBytes := maxDataBytesIn A M length }

/-- `OpenJournal` in the arithmetic of the machine. -/
def openJournal (d : Device M) (start length : ℕ) : Outcome JournalError Journal :=
  openJournalIn M.arith d start length

/-- A round depends on the device through what it sees. -/
lemma scanBody_of_sees {d d' : Device M} {s : Scan} (stop : ℕ) (h : d'.sees s.lba = d.sees s.lba) :
    scanBody M.arith d'.readBlocks stop s = scanBody M.arith d.readBlocks stop s := by
  by_cases hlt : s.lba < stop
  · cases he : entryAt M.arith d.readBlocks s.lba with
    | ok x =>
      rw [Device.sees_of_ok he] at h
      obtain ⟨br',he'⟩ := Device.sees_ok_iff.mp h
      rw [scanBody_ok hlt he,scanBody_ok hlt he']
    | error err =>
      rw [Device.sees_of_error he] at h
      cases he' : entryAt M.arith d'.readBlocks s.lba with
      | ok x => rw [Device.sees_of_ok he'] at h; cases h
      | error err' => rw [scanBody_error hlt he,scanBody_error hlt he']
      | panic p => rw [Device.sees_of_panic he'] at h; cases h
    | panic p =>
      rw [Device.sees_of_panic he] at h
      cases he' : entryAt M.arith d'.readBlocks s.lba with
      | ok x => rw [Device.sees_of_ok he'] at h; cases h
      | error err => rw [Device.sees_of_error he'] at h; cases h
      | panic p' =>
        rw [Device.sees_of_panic he'] at h
        cases h
        rw [scanBody_panic hlt he,scanBody_panic hlt he']
  · rw [scanBody_end hlt,scanBody_end hlt]

section Unseen
variable {d : Device M} {start length : ℕ}

/-- A region in which no record is seen opens to an empty journal. -/
lemma openJournal_of_unseen
    (h : ∀ q, start ≤ q → q < M.arith.uint (start+length : ℕ) → d.sees q = .error ()) :
    openJournal d start length = .ok ⟨start,length,Entry.zero,start,maxDataBytesIn M.arith M length⟩ := by
  have hscan : scan M.arith d.readBlocks start length = .ok (Entry.zero,start) := by
    apply (scanLoop M.arith d.readBlocks start length).exec_rule
      (P := fun s => start ≤ s.lba ∧ s.lastEntry = Entry.zero ∧ s.nextWriteLBA = start)
      (Q := fun r => r = .ok (Entry.zero,start)) _ _ ⟨le_rfl,rfl,rfl⟩
    · rintro s t ⟨hs,hlast,hnext⟩ hb
      obtain ⟨hlt,⟨err,-,-,rfl⟩ | ⟨e,br,he,-,rfl⟩⟩ := scanBody_eq_again hb
      · refine ⟨?_,hlast,hnext⟩
        dsimp only
        rw [M.arith.below hlt]
        exact Nat.le_succ_of_le hs
      · cases (Device.sees_of_ok he).symm.trans (h s.lba hs hlt)
    · rintro s r ⟨hs,hlast,hnext⟩ hb
      obtain ⟨-,rfl⟩ | ⟨hlt,hcases⟩ := scanBody_eq_leave hb
      · rw [hlast,hnext]
      · obtain ⟨e,br,he,-,-⟩ | ⟨e,br,he,-,-⟩ | ⟨p,he,-⟩ := hcases
        · cases (Device.sees_of_ok he).symm.trans (h s.lba hs hlt)
        · cases (Device.sees_of_ok he).symm.trans (h s.lba hs hlt)
        · cases (Device.sees_of_panic he).symm.trans (h s.lba hs hlt)
  rw [openJournal,openJournalIn,hscan,Outcome.map_ok]
  simp only [ite_self]

/-- A journal that opens at revision zero has no record anywhere in its region. -/
lemma unseen_of_openJournal {j : Journal} (h : openJournal d start length = .ok j)
    (hz : j.current.revision = 0) {q : ℕ} (hs : start ≤ q) (hq : q < M.arith.uint (start+length : ℕ)) :
    d.sees q = .error () := by
  obtain ⟨⟨last,next⟩,hscan,rfl⟩ := Outcome.map_eq_ok.mp h
  change last.revision = 0 at hz
  have hrule := (scanLoop M.arith d.readBlocks start length).exec_rule
    (P := fun s => s.lastEntry.revision = 0 → ∀ q, start ≤ q → q < s.lba → d.sees q = .error ())
    (Q := fun r => ∀ last next, r = .ok (last,next) → last.revision = 0 →
      ∀ q, start ≤ q → q < M.arith.uint (start+length : ℕ) → d.sees q = .error ())
    ?_ ?_ (s := ⟨start,Entry.zero,start⟩) (fun _ q hs hq => absurd hq (Nat.not_lt_of_le hs))
  · exact hrule last next hscan hz q hs hq
  · intro s t hP hb
    obtain ⟨hlt,⟨err,he,-,rfl⟩ | ⟨e,br,-,hgt,rfl⟩⟩ := scanBody_eq_again hb
    · intro hz q hs hq
      dsimp only at hq
      rw [M.arith.below hlt] at hq
      rcases Nat.lt_succ_iff_lt_or_eq.mp hq with hq | rfl
      · exact hP hz q hs hq
      · exact Device.sees_of_error he
    · intro hz
      dsimp only at hz
      rw [hz] at hgt
      exact absurd hgt UInt32.not_lt_zero
  · rintro s r hP hb last next rfl hz q hs hq
    obtain ⟨hend | ⟨err,-,hpos⟩,hr⟩ | ⟨-,⟨e,br,-,hless,hr⟩ | ⟨e,br,-,-,hr⟩ | ⟨p,-,hr⟩⟩ :=
      scanBody_eq_leave hb
    · cases hr
      exact hP hz q hs (hq.trans_le hend)
    · cases hr
      rw [hz] at hpos
      exact absurd hpos UInt32.not_lt_zero
    · cases hr
      rw [hz] at hless
      exact absurd hless UInt32.not_lt_zero
    · cases hr
    · cases hr

end Unseen

namespace Journal
variable (j : Journal)

def data : List UInt8 × UInt32 := (j.current.data,j.current.revision)

/-- The record that `Update` stores for new data. -/
def newEntry (data : List UInt8) : Entry := Entry.ofData (j.current.revision+1) data

/-- The space that is left, `(j.start + j.length - j.nextBlock) * j.dev.BlockSize()`. -/
def capIn (A : Arith) (M : Machine) : ℕ :=
  A.uint (A.uint (A.uint (j.start+j.length : ℕ)-j.nextBlock : ℤ)*M.blockSize : ℕ)

/-- Where `Update` stores a record: at the next block, or at the start of the
region when the space left is too small for it. -/
def targetIn (A : Arith) (M : Machine) (data : List UInt8) : ℕ :=
  if j.capIn A M < A.uint (j.newEntry data).size then j.start else j.nextBlock

/-- The end of `Update`: with the record written, it becomes the current one. -/
def installIn (A : Arith) (e : Entry) :
    Device M × Outcome WriteError ℕ → Device M × Journal × Outcome JournalError Unit
  | (d,.error err) => (d,j,.error (.write err))
  | (d,.panic p) => (d,j,.panic p)
  | (d,.ok numBlocks) => (d,{j with nextBlock := A.uint (j.nextBlock+numBlocks : ℕ), current := e},.ok ())

def updateIn (A : Arith) (write : WriteBlocks M) (d : Device M) (data : List UInt8) :
    Device M × Journal × Outcome JournalError Unit :=
  if j.maxDataBytes < data.length then (d,j,.error (.tooLarge data.length j.maxDataBytes)) else
  let moved := {j with nextBlock := j.targetIn A M data}
  match marshalEntry (j.newEntry data) with
  | .error e => (d,moved,.error (.marshal e))
  | .panic p => (d,moved,.panic p)
  | .ok buf => moved.installIn A (j.newEntry data) (write d moved.nextBlock buf)

/-- `Update` and where it writes, in the arithmetic of the machine. -/
def target (M : Machine) (data : List UInt8) : ℕ := j.targetIn M.arith M data

def update (write : WriteBlocks M) (d : Device M) (data : List UInt8) :
    Device M × Journal × Outcome JournalError Unit := j.updateIn M.arith write d data

end Journal
end ArmoredWitness.Slots
