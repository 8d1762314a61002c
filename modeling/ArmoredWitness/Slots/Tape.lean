import ArmoredWitness.Lib.RingLog.Live
import ArmoredWitness.Slots.Stored

/-! The device seen as the tape of a log: what lies at each block. The scan of
`init` is the scan of that tape, and storing the leading blocks of a record writes
its leading cells. -/
namespace ArmoredWitness.Slots
open Lib Lib.Sha256 Lib.RingLog

variable {M : Machine}

def entryFormat (M : Machine) : Format Entry where
  rev e := e.revision.toNat
  width := Entry.blocks M
  width_pos := Entry.blocks_pos M

@[simp] lemma entryFormat_rev (e : Entry) : (entryFormat M).rev e = e.revision.toNat := rfl
@[simp] lemma entryFormat_width (e : Entry) : (entryFormat M).width e = e.blocks M := rfl

open Classical in
/-- A header without its record is torn, whatever the reason. -/
noncomputable def Device.tape (d : Device M) : Tape Entry := fun q =>
  if d.IsRecord q then .whole (d.entryOf q)
  else if d.IsHeader q then .torn (numBlocks M (entryHeaderSize+(d.dataLenAt q).toNat)) else .blank

section Cells
variable {d : Device M} {q : ℕ}

lemma tape_of_isRecord (h : d.IsRecord q) : d.tape q = .whole (d.entryOf q) := if_pos h

lemma tape_of_not_isHeader (h : ¬ d.IsHeader q) : d.tape q = .blank := by
  rw [Device.tape,if_neg fun hc => h hc.toIsHeader,if_neg h]

lemma tape_of_torn (h : d.IsHeader q) (hn : ¬ d.IsRecord q) :
    d.tape q = .torn (numBlocks M (entryHeaderSize+(d.dataLenAt q).toNat)) := by
  rw [Device.tape,if_neg hn,if_pos h]

lemma isRecord_of_tape {e : Entry} (h : d.tape q = .whole e) : d.IsRecord q ∧ e = d.entryOf q := by
  by_cases hr : d.IsRecord q
  · rw [tape_of_isRecord hr] at h
    cases h
    exact ⟨hr,rfl⟩
  · by_cases hh : d.IsHeader q
    · rw [tape_of_torn hh hr] at h
      cases h
    · rw [tape_of_not_isHeader hh] at h
      cases h

/-- Records have a revision. -/
lemma revision_pos_of_tape {e : Entry} (h : d.tape q = .whole e) : 0 < e.revision := by
  obtain ⟨hr,rfl⟩ := isRecord_of_tape h
  have hne := hr.revision
  rw [UInt32.pos_iff_ne_zero]
  exact hne

lemma extent_header (h : d.IsHeader q) :
    (d.tape q).extent (entryFormat M) = numBlocks M (entryHeaderSize+(d.dataLenAt q).toNat) := by
  by_cases hr : d.IsRecord q
  · rw [tape_of_isRecord hr]
    rfl
  · rw [tape_of_torn h hr]
    rfl

end Cells

section Writing
variable {d d' : Device M} {q n k : ℕ} (hB : entryHeaderSize ≤ M.blockSize)

include hB in
/-- A record is decided by its blocks. -/
lemma isRecord_congr (hs : d'.size = d.size)
    (h : ∀ p, q ≤ p → p < q+numBlocks M (entryHeaderSize+(d.dataLenAt q).toNat) → d'.block p = d.block p) :
    (d'.IsRecord q ↔ d.IsRecord q) ∧ d'.entryOf q = d.entryOf q := by
  have hpos := numBlocks_pos M (d.dataLenAt q).toNat
  have hq := h q le_rfl (by omega)
  have hh := Device.isHeader_congr hB hq hs
  have hlen := Device.dataLenAt_congr hB hq
  have hdata := Device.dataAt_congr hlen h
  have hsha := Device.shaAt_congr hB hq
  constructor
  · constructor
    · rintro ⟨hh',hl,hon,hsum⟩
      rw [hlen] at hl hon
      rw [hdata,hsha] at hsum
      exact ⟨hh.mp hh',hl,by rwa [← hs],hsum⟩
    · rintro ⟨hh',hl,hon,hsum⟩
      exact ⟨hh.mpr hh',by rwa [hlen],by rwa [hlen,hs],by rwa [hdata,hsha]⟩
  · unfold Device.entryOf
    rw [Device.magicAt_congr hB hq,Device.revisionAt_congr hB hq,hlen,hsha,hdata]

include hB in
/-- What is found at a block is decided by the blocks in its extent. -/
lemma tape_congr (hs : d'.size = d.size)
    (h : ∀ p, q ≤ p → p < q+(d.tape q).extent (entryFormat M) → d'.block p = d.block p) :
    d'.tape q = d.tape q := by
  by_cases hh : d.IsHeader q
  · rw [extent_header hh] at h
    have hpos := numBlocks_pos M (d.dataLenAt q).toNat
    have hq := h q le_rfl (by omega)
    obtain ⟨hiff,hof⟩ := isRecord_congr hB hs h
    by_cases hr : d.IsRecord q
    · rw [tape_of_isRecord hr,tape_of_isRecord (hiff.mpr hr),hof]
    · rw [tape_of_torn hh hr,tape_of_torn ((Device.isHeader_congr hB hq hs).mpr hh) (fun hc => hr (hiff.mp hc)),
        Device.dataLenAt_congr hB hq]
  · rw [tape_of_not_isHeader hh,extent_blank] at h
    have hh' : ¬ d'.IsHeader q := fun hc => hh ((Device.isHeader_congr hB (h q le_rfl (by omega)) hs).mp hc)
    rw [tape_of_not_isHeader hh,tape_of_not_isHeader hh']

variable {rev : UInt32} {data : List UInt8}

/-- The bytes read back under the header of a record that was stored in part have
its checksum only if they are its data. -/
def NoCollision (d : Device M) (n k : ℕ) (rev : UInt32) (data : List UInt8) : Prop :=
  sum256 ((d.store n k (Entry.ofData rev data).bytes).dataAt n) = sum256 data →
    (d.store n k (Entry.ofData rev data).bytes).dataAt n = data

instance (d : Device M) (n k : ℕ) (rev : UInt32) (data : List UInt8) :
    Decidable (NoCollision d n k rev data) := inferInstanceAs (Decidable (_ → _))

include hB in
/-- A record is found where its header was stored and its data can be read back. -/
lemma tape_stored (h0 : 0 < k) (hrev : rev ≠ 0) (hlen : data.length ≤ M.maxAlloc)
    (hfit : n+numBlocks M (entryHeaderSize+data.length) ≤ d.size)
    (hdata : (d.store n k (Entry.ofData rev data).bytes).dataAt n = data) :
    (d.store n k (Entry.ofData rev data).bytes).tape n = .whole (Entry.ofData rev data) := by
  have hpos := numBlocks_pos M data.length
  have hdlen : ((d.store n k (Entry.ofData rev data).bytes).dataLenAt n).toNat = data.length := by
    rw [dataLenAt_stored hB h0,ofData_dataLen rev (hlen.trans M.maxAlloc_le)]
  rw [tape_of_isRecord ⟨isHeader_stored hB h0 hrev (by omega),by rwa [hdlen],by rwa [hdlen],
    by rw [hdata,shaAt_stored hB h0]⟩,entryOf_stored hB h0 hdata]

include hB in
/-- Storing the leading blocks of a record writes its leading cells. -/
theorem writes_store (hrev : rev ≠ 0) (hlen : data.length ≤ M.maxAlloc) (hfree : FreeOfMagic M data)
    (hk : k ≤ numBlocks M (entryHeaderSize+data.length))
    (hfit : n+numBlocks M (entryHeaderSize+data.length) ≤ d.size)
    (hpart : 0 < k → k < numBlocks M (entryHeaderSize+data.length) →
      FreeOfMagicStart M data ∧ NoCollision d n k rev data) :
    Writes (entryFormat M) d.tape (d.store n k (Entry.ofData rev data).bytes).tape n
      (Entry.ofData rev data) k := by
  have hint := hlen.trans M.maxAlloc_le
  have hblocks := blocks_ofData rev hint
  have hpos := numBlocks_pos M data.length
  refine ⟨by rw [entryFormat_width,hblocks]; exact hk,fun h0 => by rw [h0,Device.store_zero],fun h0 => ?_,
    fun q hq hq' => tape_of_not_isHeader (not_isHeader_stored hB hfree hk hq hq'),fun q hq hext => ?_,
    fun q hq => ?_⟩
  · have hh : (d.store n k (Entry.ofData rev data).bytes).IsHeader n :=
      isHeader_stored hB h0 hrev (by omega)
    have hdlen : ((d.store n k (Entry.ofData rev data).bytes).dataLenAt n).toNat = data.length := by
      rw [dataLenAt_stored hB h0,ofData_dataLen rev hint]
    by_cases hdata : (d.store n k (Entry.ofData rev data).bytes).dataAt n = data
    · left
      refine ⟨tape_stored hB h0 hrev hlen hfit hdata,fun q hq hq' => tape_of_not_isHeader ?_⟩
      rw [entryFormat_width,hblocks] at hq'
      by_cases hqk : q < n+k
      · exact not_isHeader_stored hB hfree hk hq hqk
      · exact not_isHeader_inside hB (hpart h0 (by omega)).1 hdlen hdata hq hq'
    · right
      have hlt : k < numBlocks M (entryHeaderSize+data.length) := by
        by_contra hge
        exact hdata (dataAt_stored hint (by omega))
      refine ⟨by rwa [entryFormat_width,hblocks],?_⟩
      have hn : ¬ (d.store n k (Entry.ofData rev data).bytes).IsRecord n := by
        intro hr
        have hsum := hr.checksum
        rw [shaAt_stored hB h0] at hsum
        exact hdata ((hpart h0 hlt).2 hsum)
      rw [tape_of_torn hh hn,hdlen,entryFormat_width,hblocks]
  · exact tape_congr hB rfl fun p hp hp' => d.store_outside _ (.inl (by omega))
  · exact tape_congr hB rfl fun p hp hp' => d.store_outside _ (.inr (by omega))

end Writing

section Refinement
variable {d : Device M} {r : Region M}

/-- The loop of `init` and the abstract scan in step with each other. -/
structure InStep (start : ℕ) (s : Scan) (u : Cursor Entry) : Prop where
  pos : s.lba = u.pos
  last : s.lastEntry = u.last.getD Entry.zero
  next : s.nextWriteLBA = u.next
  above : start ≤ s.lba
  rev_pos : ∀ y, u.last = some y → 0 < y.revision

lemma InStep.revision {start : ℕ} {s : Scan} {u : Cursor Entry} (h : InStep start s u) :
    s.lastEntry.revision.toNat = revOf (entryFormat M) u.last := by
  rw [h.last]
  cases u.last <;> rfl

/-- What the loop of `init` returns for a result of the abstract scan. -/
def Concludes : Outcome JournalError (Entry × ℕ) → Option (Option Entry × ℕ) → Prop
  | r,some (x,n) => r = .ok (x.getD Entry.zero,n)
  | r,none => ∃ v, r = .error (.sameRevision v)

/-- One turn of both loops. -/
def TurnsInStep (d : Device M) (r : Region M) (s : Scan) (u : Cursor Entry) : Prop :=
  (∃ s' u', scanBody M.arith d.readBlocks r.stop s = .again s' ∧
    RingLog.scanBody (entryFormat M) d.tape r.stop u = .again u' ∧ InStep r.start s' u') ∨
  ∃ x x', scanBody M.arith d.readBlocks r.stop s = .leave x ∧
    RingLog.scanBody (entryFormat M) d.tape r.stop u = .leave x' ∧ Concludes x x'

namespace InStep
variable {s : Scan} {u : Cursor Entry} (h : InStep r.start s u) (hd : d.Tidy r)
include h

section Inside
variable (hlt : s.lba < r.stop)
include hd hlt

/-- At a record. -/
lemma turn_record {e : Entry} {br : BlockReader M} (he : entryAt M.arith d.readBlocks s.lba = .ok (e,br)) :
    TurnsInStep d r s u := by
  obtain ⟨hr,hof,-,hafter⟩ := hd.entryAt_eq_ok h.above hlt he
  have hrev := h.revision (M := M)
  have hlt' : u.pos < r.stop := h.pos ▸ hlt
  have ht : d.tape u.pos = .whole e := by rw [← h.pos,tape_of_isRecord hr,hof]
  have hbody := scanBody_ok hlt he
  rw [hafter] at hbody
  have hpos := revision_pos_of_tape ht
  by_cases hgt : s.lastEntry.revision < e.revision
  · have hgt' : revOf (entryFormat M) u.last < e.revision.toNat := by
      rw [← hrev]
      exact UInt32.lt_iff_toNat_lt.mp hgt
    left
    rw [if_pos hgt] at hbody
    refine ⟨_,⟨u.pos+e.blocks M,some e,u.pos+e.blocks M⟩,hbody,by simp [RingLog.scanBody,hlt',ht,hgt'],?_⟩
    have habove := h.above
    exact ⟨by rw [h.pos],rfl,by rw [h.pos],by dsimp only; omega,fun y hy => by cases hy; exact hpos⟩
  · have hgt' : ¬ revOf (entryFormat M) u.last < e.revision.toNat := by
      rw [← hrev]
      exact fun hc => hgt (UInt32.lt_iff_toNat_lt.mpr hc)
    right
    rw [if_neg hgt] at hbody
    by_cases hless : e.revision < s.lastEntry.revision
    · have hless' : e.revision.toNat < revOf (entryFormat M) u.last := by
        rw [← hrev]
        exact UInt32.lt_iff_toNat_lt.mp hless
      rw [if_pos hless] at hbody
      refine ⟨_,some (u.last,u.pos),hbody,by simp [RingLog.scanBody,hlt',ht,hgt',hless'],?_⟩
      rw [h.last,h.pos]
      rfl
    · have hless' : ¬ e.revision.toNat < revOf (entryFormat M) u.last := by
        rw [← hrev]
        exact fun hc => hless (UInt32.lt_iff_toNat_lt.mpr hc)
      rw [if_neg hless] at hbody
      exact ⟨_,none,hbody,by simp [RingLog.scanBody,hlt',ht,hgt',hless'],_,rfl⟩

/-- At a block that is not the first one of a record. -/
lemma turn_invalid {err : EntryError} (hn : ¬ d.IsRecord s.lba)
    (he : entryAt M.arith d.readBlocks s.lba = .error err) : TurnsInStep d r s u := by
  have hlt' : u.pos < r.stop := h.pos ▸ hlt
  have hnw : ∀ y, d.tape u.pos ≠ .whole y := by
    intro y hy
    rw [← h.pos] at hy
    exact hn (isRecord_of_tape hy).1
  have hbody := scanBody_error hlt he
  have hsucc : M.arith.uint (s.lba+1 : ℕ) = s.lba+1 :=
    M.arith_upTo.uint (Nat.lt_of_le_of_lt hlt hd.addressed.stop_lt)
  rw [hsucc] at hbody
  cases hl : u.last with
  | some y =>
    have hy := h.rev_pos y hl
    have hpos : 0 < s.lastEntry.revision := by rw [h.last,hl]; exact hy
    right
    rw [if_pos hpos] at hbody
    refine ⟨_,some (u.last,u.next),hbody,?_,?_⟩
    · cases ht : d.tape u.pos with
      | whole z => exact absurd ht (hnw z)
      | blank => simp [RingLog.scanBody,hlt',ht,hl]
      | torn w => simp [RingLog.scanBody,hlt',ht,hl]
    · rw [h.last,h.next]
      rfl
  | none =>
    have hz : ¬ 0 < s.lastEntry.revision := by rw [h.last,hl]; decide
    left
    rw [if_neg hz] at hbody
    refine ⟨_,{u with pos := u.pos+1},hbody,?_,?_⟩
    · cases ht : d.tape u.pos with
      | whole z => exact absurd ht (hnw z)
      | blank => simp [RingLog.scanBody,hlt',ht,hl]
      | torn w => simp [RingLog.scanBody,hlt',ht,hl]
    · have habove := h.above
      exact ⟨by simp [h.pos],h.last,h.next,by dsimp only; omega,h.rev_pos⟩

end Inside

/-- At the end of the region. -/
lemma turn_end (hge : ¬ s.lba < r.stop) : TurnsInStep d r s u := by
  have hge' : ¬ u.pos < r.stop := h.pos ▸ hge
  right
  refine ⟨_,some (u.last,u.next),scanBody_end hge,by simp [RingLog.scanBody,hge'],?_⟩
  rw [h.last,h.next]
  rfl

end InStep

/-- The scan of `init` computes the scan of the tape of a tidy region. -/
theorem scan_refines (h : d.Tidy r) : Concludes (scan M.arith d.readBlocks r.start r.length)
    (RingLog.scan (entryFormat M) d.tape r.start r.stop) := by
  apply Loop.exec_simulation (scanLoop M.arith d.readBlocks r.start r.length)
    (RingLog.scanLoop (entryFormat M) d.tape r.stop) (InStep r.start) Concludes
  · intro s u hs
    change (∃ s' u', scanBody M.arith d.readBlocks (M.arith.uint (r.start+r.length : ℕ)) s = .again s' ∧ _) ∨
      ∃ x x', scanBody M.arith d.readBlocks (M.arith.uint (r.start+r.length : ℕ)) s = .leave x ∧ _
    rw [h.addressed.uint_stop]
    by_cases hlt : s.lba < r.stop
    · rcases h.entryAt_cases hs.above hlt with ⟨-,br,he⟩ | ⟨hn,err,he⟩
      · exact hs.turn_record h hlt he
      · exact hs.turn_invalid h hlt hn he
    · exact hs.turn_end hlt
  · exact ⟨rfl,rfl,rfl,le_rfl,fun y hy => by cases hy⟩

/-- What opening a journal comes to when the scan of the tape has a result. -/
theorem openJournal_of_scan (h : d.Tidy r) {n : ℕ} {x : Option Entry}
    (hs : RingLog.scan (entryFormat M) d.tape r.start r.stop = some (x,n)) :
    openJournal d r.start r.length = .ok ⟨r.start,r.length,x.getD Entry.zero,
      if r.stop ≤ n then r.start else n,maxDataBytes M r.length⟩ := by
  have hscan : scan M.arith d.readBlocks r.start r.length = .ok (x.getD Entry.zero,n) := by
    have hrefines := scan_refines h
    rwa [hs] at hrefines
  rw [openJournal,openJournalIn,hscan,Outcome.map_ok]
  simp only [h.addressed.uint_stop,maxDataBytesIn_machine h.addressed.int_le]

/-- In a tidy region, what is found at the blocks decides what is opened. -/
theorem openJournal_of_sees {d' : Device M} (h : d.Tidy r)
    (hsees : ∀ q, r.start ≤ q → q < r.stop → d'.sees q = d.sees q) :
    openJournal d' r.start r.length = openJournal d r.start r.length := by
  have hscan : scan M.arith d'.readBlocks r.start r.length = scan M.arith d.readBlocks r.start r.length := by
    apply Loop.exec_congr (P := fun s => r.start ≤ s.lba) (scanLoop M.arith d.readBlocks r.start r.length)
      (scanLoop M.arith d'.readBlocks r.start r.length) _ _ le_rfl
    · intro s t hs hb
      obtain ⟨hlt,⟨err,-,-,rfl⟩ | ⟨e,br,he,-,rfl⟩⟩ := scanBody_eq_again hb
      · dsimp only
        rw [M.arith.below hlt]
        exact Nat.le_succ_of_le hs
      · rw [h.addressed.uint_stop] at hlt
        obtain ⟨-,-,-,hafter⟩ := h.entryAt_eq_ok hs hlt he
        dsimp only
        rw [hafter]
        exact hs.trans (Nat.le_add_right _ _)
    · intro s hs
      change scanBody M.arith d'.readBlocks (M.arith.uint (r.start+r.length : ℕ)) s =
        scanBody M.arith d.readBlocks (M.arith.uint (r.start+r.length : ℕ)) s
      rw [h.addressed.uint_stop]
      by_cases hlt : s.lba < r.stop
      · exact scanBody_of_sees _ (hsees s.lba hs hlt)
      · rw [scanBody_end hlt,scanBody_end hlt]
  rw [openJournal,openJournal,openJournalIn,openJournalIn,hscan]

/-- A journal that was opened on a region within reach: nothing was found, or a record of the
region and the block after it. -/
lemma openJournal_eq_ok (h : d.Bounded r) {j : Journal} (ho : openJournal d r.start r.length = .ok j) :
    ∃ next, (j.current = Entry.zero ∧ next = r.start ∨ ∃ q, r.start ≤ q ∧ q < r.stop ∧ d.IsRecord q ∧
      j.current = d.entryOf q ∧ next = q+j.current.blocks M) ∧
    j = ⟨r.start,r.length,j.current,if r.stop ≤ next then r.start else next,maxDataBytes M r.length⟩ := by
  obtain ⟨⟨last,next⟩,hscan,rfl⟩ := Outcome.map_eq_ok.mp ho
  have hfound : last = Entry.zero ∧ next = r.start ∨ ∃ q, r.start ≤ q ∧ q < r.stop ∧ d.IsRecord q ∧
      last = d.entryOf q ∧ next = q+last.blocks M := by
    have hrule := (scanLoop M.arith d.readBlocks r.start r.length).exec_rule
      (P := fun s => r.start ≤ s.lba ∧ (s.lastEntry = Entry.zero ∧ s.nextWriteLBA = r.start ∨
        s.lba = s.nextWriteLBA ∧ ∃ q, r.start ≤ q ∧ q < r.stop ∧ d.IsRecord q ∧ s.lastEntry = d.entryOf q ∧
          s.nextWriteLBA = q+s.lastEntry.blocks M))
      (Q := fun x => ∀ last next, x = .ok (last,next) → last = Entry.zero ∧ next = r.start ∨
        ∃ q, r.start ≤ q ∧ q < r.stop ∧ d.IsRecord q ∧ last = d.entryOf q ∧ next = q+last.blocks M)
      ?_ ?_ (s := ⟨r.start,Entry.zero,r.start⟩) ⟨le_rfl,.inl ⟨rfl,rfl⟩⟩
    · exact hrule last next hscan
    · rintro s t ⟨hs,hf⟩ hb
      obtain ⟨hlt,⟨err,-,hz,rfl⟩ | ⟨e,br,he,-,rfl⟩⟩ := scanBody_eq_again hb
      · dsimp only
        rw [M.arith.below hlt]
        refine ⟨Nat.le_succ_of_le hs,.inl (hf.resolve_right ?_)⟩
        rintro ⟨-,q,-,-,hr,hlast,-⟩
        rw [hlast,UInt32.pos_iff_ne_zero,not_not] at hz
        exact hr.revision hz
      · rw [h.addressed.uint_stop] at hlt
        obtain ⟨hr,hof,hafter⟩ := h.entryAt_eq_ok hs hlt he
        dsimp only
        rw [hafter]
        exact ⟨hs.trans (Nat.le_add_right _ _),.inr ⟨rfl,s.lba,hs,hlt,hr,hof,rfl⟩⟩
    · rintro s x ⟨hs,hf⟩ hb last next hx
      obtain ⟨-,rfl⟩ | ⟨-,⟨e,br,-,hless,rfl⟩ | ⟨e,br,-,-,rfl⟩ | ⟨p,-,rfl⟩⟩ := scanBody_eq_leave hb
      · cases hx
        exact hf.imp_right fun hc => hc.2
      · cases hx
        rcases hf with ⟨hzero,-⟩ | ⟨heq,hq⟩
        · rw [hzero] at hless
          exact absurd hless UInt32.not_lt_zero
        · rw [heq]
          exact .inr hq
      · cases hx
      · cases hx
  exact ⟨next,hfound,by simp only [h.addressed.uint_stop,maxDataBytesIn_machine h.addressed.int_le]⟩

end Refinement
end ArmoredWitness.Slots
