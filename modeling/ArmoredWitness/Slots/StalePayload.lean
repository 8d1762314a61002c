import ArmoredWitness.Slots.Exposed
import ArmoredWitness.Slots.Session

/-! Payload bytes that pass for a header. After a wrap the block behind the newest
record may be any block of an older one, and the scan takes what it finds there
for a header: as a newer record, as a clash of revisions, or as a length to
allocate. -/
namespace ArmoredWitness.Slots
open Lib

variable {M : Machine}

/-- Whole records next to each other from the start of a region on, with growing
revisions: the last one is `x`, and `n` is the block after it. -/
inductive Links (d : Device M) (start : ℕ) : Entry → ℕ → Prop
  | first {x} (hx : d.tape start = .whole x) : Links d start x (start+x.blocks M)
  | snoc {x n y} (h : Links d start x n) (hy : d.tape n = .whole y) (hlt : x.revision < y.revision) :
      Links d start y (n+y.blocks M)

namespace Links
variable {d d' : Device M} {start n : ℕ} {x : Entry}

lemma revision_pos (h : Links d start x n) : 0 < x.revision := by
  cases h with
  | first hx => exact revision_pos_of_tape hx
  | snoc h hy hlt => exact revision_pos_of_tape hy

/-- The records do not depend on the blocks after them. -/
lemma congr (hB : entryHeaderSize ≤ M.blockSize) (hs : d'.size = d.size) (h : Links d start x n)
    (hagree : ∀ q, q < n → d'.block q = d.block q) : Links d' start x n := by
  induction h with
  | @first x hx =>
    refine .first ?_
    rw [tape_congr hB hs (by rw [hx]; exact fun q _ hq => hagree q hq),hx]
  | @snoc x n y h hy hlt ih =>
    refine .snoc (ih fun q hq => hagree q (Nat.lt_add_right _ hq)) ?_ hlt
    rw [tape_congr hB hs (by rw [hy]; exact fun q _ hq => hagree q hq),hy]

/-- A whole record that ends in the region is decoded, and the scan goes on behind it. -/
lemma entryAt_whole {r : Region M} (hr : r.Addressed) {q : ℕ} {y : Entry} (hy : d.tape q = .whole y)
    (hq : q+y.blocks M ≤ r.stop) :
    (∃ br, entryAt M.arith d.readBlocks q = .ok (y,br)) ∧ blockAfter M.arith M q y = q+y.blocks M := by
  obtain ⟨hrec,rfl⟩ := isRecord_of_tape hy
  have hpos := (d.entryOf q).blocks_pos M
  have hw : d.Within q M.space := ⟨hr.header_end (by omega),fun _ _ => hr.record_end hq⟩
  exact ⟨entryAt_of_isRecord M.arith_upTo hw hrec,hr.blockAfter_eq hq⟩

/-- The block behind the records is exposed. -/
lemma exposed {r : Region M} (hr : r.Addressed) (h : Links d r.start x n) (hn : n ≤ r.stop) :
    Exposed M.arith d.readBlocks r.start r.stop x n := by
  have hzero : Exposed M.arith d.readBlocks r.start r.stop Entry.zero r.start :=
    .leading le_rfl fun p hp hp' => absurd hp' (Nat.not_lt_of_le hp)
  induction h with
  | @first x hx =>
    have hpos := x.blocks_pos M
    obtain ⟨⟨br,he⟩,hafter⟩ := entryAt_whole hr hx hn
    have hnext := Exposed.behind hzero (by omega) he (revision_pos_of_tape hx)
    rwa [hafter] at hnext
  | @snoc x n y h hy hlt ih =>
    have hpos := y.blocks_pos M
    obtain ⟨⟨br,he⟩,hafter⟩ := entryAt_whole hr hy hn
    have hnext := Exposed.behind (ih (by omega)) (by omega) he hlt
    rwa [hafter] at hnext

end Links

section Scan
variable {d : Device M} {start length : ℕ}

lemma scan_revision_le {s : Scan} {last : Entry} {next : ℕ}
    (h : (scanLoop M.arith d.readBlocks start length).exec s = .ok (last,next)) :
    s.lastEntry.revision ≤ last.revision := by
  have hrule := (scanLoop M.arith d.readBlocks start length).exec_rule
    (P := fun t => s.lastEntry.revision ≤ t.lastEntry.revision)
    (Q := fun r => ∀ last next, r = .ok (last,next) → s.lastEntry.revision ≤ last.revision)
    ?_ ?_ (s := s) (UInt32.le_refl _)
  · exact hrule last next h
  · intro t u ht hb
    obtain ⟨-,⟨err,-,-,rfl⟩ | ⟨e,br,-,hlt,rfl⟩⟩ := scanBody_eq_again hb
    · exact ht
    · exact UInt32.le_trans ht (UInt32.le_of_lt hlt)
  · intro t r ht hb last next hr
    obtain ⟨-,rfl⟩ | ⟨-,⟨e,br,-,-,rfl⟩ | ⟨e,br,-,-,rfl⟩ | ⟨p,-,rfl⟩⟩ := scanBody_eq_leave hb <;> cases hr
    · exact ht
    · exact ht

/-- A scan that has found a record and meets no trap behind it ends with that record. -/
lemma exec_of_not_trap {x : Entry} {n : ℕ} (hpos : 0 < x.revision)
    (h : n < M.arith.uint (start+length : ℕ) → ¬ Trap d x.revision n) :
    (scanLoop M.arith d.readBlocks start length).exec ⟨n,x,n⟩ = .ok (x,n) := by
  by_cases hlt : n < M.arith.uint (start+length : ℕ)
  · cases he : entryAt M.arith d.readBlocks n with
    | panic p => exact absurd (.inr ⟨p,he⟩) (h hlt)
    | error err =>
      have hb := scanBody_error (s := ⟨n,x,n⟩) hlt he
      rw [if_pos hpos] at hb
      exact Loop.exec_leave _ hb
    | ok y =>
      have hless : y.1.revision < x.revision :=
        UInt32.not_le.mp fun hle => h hlt (.inl ⟨y.1,y.2,he,hle⟩)
      have hb := scanBody_ok (s := ⟨n,x,n⟩) hlt he
      rw [if_neg (UInt32.lt_asymm hless),if_pos hless] at hb
      exact Loop.exec_leave _ hb
  · exact Loop.exec_leave _ (scanBody_end (s := ⟨n,x,n⟩) hlt)

/-- A scan that meets a trap ends with a newer record, if with any. -/
lemma revision_lt_of_trap {x last : Entry} {n next : ℕ} (hlt : n < M.arith.uint (start+length : ℕ))
    (h : Trap d x.revision n) (hx : (scanLoop M.arith d.readBlocks start length).exec ⟨n,x,n⟩ = .ok (last,next)) :
    x.revision < last.revision := by
  rcases h with ⟨e,br,he,hle⟩ | ⟨p,he⟩
  · have hb := scanBody_ok (s := ⟨n,x,n⟩) hlt he
    by_cases hgt : x.revision < e.revision
    · rw [if_pos hgt] at hb
      rw [Loop.exec_again _ hb] at hx
      exact UInt32.lt_of_lt_of_le hgt (scan_revision_le hx)
    · rw [if_neg hgt,if_neg (UInt32.not_lt.mpr hle)] at hb
      rw [Loop.exec_leave _ hb] at hx
      cases hx
  · rw [Loop.exec_leave _ (scanBody_panic (s := ⟨n,x,n⟩) hlt he)] at hx
    cases hx

/-- At an exposed block behind a record the scan ends with that record, unless there is
a trap. -/
lemma Exposed.scan_iff (start length : ℕ) {x : Entry} {n : ℕ}
    (h : Exposed M.arith d.readBlocks start (M.arith.uint (start+length : ℕ)) x n) (hpos : 0 < x.revision) :
    (∃ last next, scan M.arith d.readBlocks start length = .ok (last,next) ∧
      last.data = x.data ∧ last.revision = x.revision) ↔
    ¬ (n < M.arith.uint (start+length : ℕ) ∧ Trap d x.revision n) := by
  obtain ⟨m,hm⟩ := reaches_iff_exposed.mpr h
  obtain rfl : n = m := reaches_next hm hpos
  have hexec : scan M.arith d.readBlocks start length = _ := hm.exec_eq
  rw [hexec]
  constructor
  · rintro ⟨last,next,hx,-,hrev⟩ ⟨hlt,htrap⟩
    have hnewer := revision_lt_of_trap hlt htrap hx
    rw [hrev] at hnewer
    exact UInt32.lt_irrefl _ hnewer
  · intro hno
    exact ⟨x,n,exec_of_not_trap hpos fun hlt htrap => hno ⟨hlt,htrap⟩,rfl,rfl⟩

end Scan

/-- After `n` updates the records since the last wrap lie next to each other from
the start of the region on, whatever their payloads. -/
structure Linked (s : Session M) (r : Region M) (n : ℕ) : Prop where
  on : s.journal.On r
  on_device : r.stop ≤ s.dev.size
  start_le : r.start ≤ s.journal.nextBlock
  le_stop : s.journal.nextBlock ≤ r.stop
  revision : s.journal.current.revision.toNat = n
  links : s.journal.nextBlock = r.start ∧ n = 0 ∨
    Links s.dev r.start s.journal.current s.journal.nextBlock

section Runs
variable {s : Session M} {r : Region M} {n : ℕ} {data : List UInt8}

lemma linked_opened {d : Device M} (hd : d.Blank r) :
    ∃ j, openJournal d r.start r.length = .ok j ∧ Linked ⟨d,j,j.currentBlock M,[]⟩ r 0 := by
  obtain ⟨j,hopen,p,c,e,hh,ht,-⟩ := Quiet.blank hd
  have hnext : j.nextBlock = r.start := by
    rcases ht.next with hn | hn
    · exact hn.trans hh.live.last_eq.2.2
    · exact hn
  have hstop : r.start ≤ r.stop := Nat.le_add_right _ _
  exact ⟨j,hopen,ht.on,hd.on_device,hnext.ge,hnext.trans_le hstop,ht.revision,.inl ⟨hnext,rfl⟩⟩

lemma Linked.step_update (h : Linked s r n) (hn : n+1 < 2^32) (ha : s.journal.Accepts data) :
    ∃ s', s.step (.update data) = .ok s' ∧ Linked s' r (n+1) ∧ s'.journal.current.data = data := by
  have hsize := h.on.accepts_iff.mp ha
  have hlim := r.limit_le
  have halloc := h.on.addressed.alloc
  have h3 := r.three_mul_numBlocks_le hsize
  have hpos := numBlocks_pos M data.length
  have hstop : r.stop = r.start+r.length := rfl
  have hdev := h.on_device
  have hrev : (s.journal.newEntry data).revision.toNat = n+1 := by
    rw [← h.revision]
    exact toNat_succ (by rw [h.revision]; exact hn)
  have hne : s.journal.current.revision+1 ≠ 0 := by
    intro hz
    change (s.journal.current.revision+1).toNat = n+1 at hrev
    rw [hz] at hrev
    simp at hrev
  have hblocks : (s.journal.newEntry data).blocks M = _ := r.blocks_ofData _ hsize
  have hwhole : ∀ q, q+numBlocks M (entryHeaderSize+data.length) ≤ r.stop →
      (s.dev.store q (numBlocks M (entryHeaderSize+data.length)) (s.journal.newEntry data).bytes).tape q =
        .whole (s.journal.newEntry data) := fun q hq =>
    tape_stored r.header_le hpos hne (by omega) (by omega) (dataAt_stored (by omega) le_rfl)
  have hon : ∀ q, Journal.On {s.journal with
      nextBlock := q, current := s.journal.newEntry data} r :=
    fun q => ⟨h.on.addressed,h.on.start,h.on.length,h.on.maxDataBytes⟩
  have hs := h.start_le
  rcases h.on.target_cases h.start_le h.le_stop ha with ⟨htarget,hfit⟩ | ⟨htarget,hfit,-⟩
  · refine ⟨_,Session.step_update ha h.on.addressed hdev (by omega),⟨hon _,hdev,by rw [htarget]; dsimp only; omega,
      by rw [htarget]; exact hfit,hrev,.inr ?_⟩,rfl⟩
    rw [htarget,← hblocks]
    rw [← hblocks] at hwhole hfit
    rcases h.links with ⟨hs,-⟩ | hl
    · rw [hs] at hfit ⊢
      exact .first (hwhole _ hfit)
    · have hkeep : Links (s.dev.store s.journal.nextBlock ((s.journal.newEntry data).blocks M)
          (s.journal.newEntry data).bytes) r.start s.journal.current s.journal.nextBlock :=
        hl.congr r.header_le (s.dev.store_size ..) fun q hq => s.dev.store_outside _ (.inl hq)
      refine .snoc hkeep (hwhole _ hfit) ?_
      rw [UInt32.lt_iff_toNat_lt,hrev,h.revision]
      exact Nat.lt_succ_self n
  · refine ⟨_,Session.step_update ha h.on.addressed hdev (by omega),⟨hon _,hdev,by rw [htarget]; dsimp only; omega,
      by rw [htarget]; exact hfit,hrev,.inr ?_⟩,rfl⟩
    rw [htarget,← hblocks]
    rw [← hblocks] at hwhole hfit
    exact .first (hwhole _ hfit)

lemma Linked.run_updates (datas : List (List UInt8)) {s : Session M} {n : ℕ} (h : Linked s r n)
    (hn : n+datas.length < 2^32) (ha : ∀ data ∈ datas, entryHeaderSize+data.length ≤ r.limit) :
    ∃ s', Transition.run Session.next s (datas.map .update) = some s' ∧ Linked s' r (n+datas.length) := by
  induction datas generalizing s n with
  | nil => exact ⟨s,rfl,h⟩
  | cons data datas ih =>
    rw [List.length_cons] at hn ⊢
    obtain ⟨s₁,hs₁,h₁,-⟩ := h.step_update (by omega)
      (h.on.accepts_iff.mpr (ha data (List.mem_cons_self ..)))
    obtain ⟨s',hs',h'⟩ := ih h₁ (by omega) fun data hm => ha data (List.mem_cons_of_mem _ hm)
    refine ⟨s',by rw [List.map_cons,Transition.run,Session.next_eq hs₁,Option.bind_some,hs'],?_⟩
    rwa [show n+(datas.length+1) = n+1+datas.length by omega]

end Runs

/-- Opening the journal after any successful updates returns the last payload and
their number, exactly if the block behind the newest record is no trap. -/
theorem open_after_updates_iff (r : Region M) {d : Device M} (hd : d.Blank r)
    (datas : List (List UInt8)) (last : List UInt8) (hcount : datas.length+1 < 2^32-1)
    (ha : ∀ data ∈ datas ++ [last], entryHeaderSize+data.length ≤ r.limit) :
    ∃ s, Session.runFrom d r ((datas ++ [last]).map .update) = some s ∧
      ((∃ j, openJournal s.dev r.start r.length = .ok j ∧ j.data.1 = last ∧
        j.data.2.toNat = datas.length+1) ↔
      ¬ (s.journal.nextBlock < r.stop ∧
        Trap s.dev s.journal.current.revision s.journal.nextBlock)) := by
  obtain ⟨j,hopen,hl⟩ := linked_opened hd
  obtain ⟨s₁,hs₁,h₁⟩ := hl.run_updates datas (by omega) fun data hm => ha data (List.mem_append_left _ hm)
  obtain ⟨s,hs,h,hdata⟩ := h₁.step_update (by omega)
    (h₁.on.accepts_iff.mpr (ha last (List.mem_append_right _ (List.mem_singleton_self _))))
  refine ⟨s,?_,?_⟩
  · rw [Session.runFrom_eq hopen,List.map_append]
    exact Transition.run_trans hs₁ ((Transition.run_single _ _).trans (Session.next_eq hs))
  · have hrev := h.revision
    rcases h.links with ⟨-,h0⟩ | hlinks
    · omega
    · have hexp := hlinks.exposed h.on.addressed h.le_stop
      have hiff := Exposed.scan_iff r.start r.length (by rwa [h.on.addressed.uint_stop]) hlinks.revision_pos
      rw [h.on.addressed.uint_stop] at hiff
      rw [← hiff]
      constructor
      · rintro ⟨j,hj,hd',hr'⟩
        obtain ⟨⟨x,next⟩,hexec,rfl⟩ := Outcome.map_eq_ok.mp hj
        change x.revision.toNat = _ at hr'
        exact ⟨x,next,hexec,hd'.trans hdata.symm,UInt32.toNat_inj.mp (by rw [hrev]; omega)⟩
      · rintro ⟨x,next,hexec,hd',hr'⟩
        refine ⟨_,Outcome.map_eq_ok.mpr ⟨(x,next),hexec,rfl⟩,hd'.trans hdata,?_⟩
        change x.revision.toNat = _
        rw [hr',hrev]
        omega

theorem open_after_updates_sixBlocks :
    ∃ s, Session.runFrom (Device.zeros smallMachine 6) sixBlocks
        [.update [0x41],.update [0x54,0x46,0x4a,0x30],.update [0x42],.update []] = some s ∧
      ((∃ j, openJournal s.dev 0 6 = .ok j ∧ j.data.1 = [] ∧ j.data.2.toNat = 4) ↔
      ¬ (s.journal.nextBlock < 6 ∧ Trap s.dev s.journal.current.revision s.journal.nextBlock)) :=
  open_after_updates_iff sixBlocks zeros_blank [[0x41],[0x54,0x46,0x4a,0x30],[0x42]] [] (by decide)
    (by decide)

/-- Payloads whose second block is a record of revision 9 without data: when the
journal has wrapped, the block behind the newest record, of revision 4, is that
block of the first one. -/
def forgedRun : List Event :=
  [.update (Entry.ofData 9 []).bytes,.update (Entry.ofData 9 []).bytes,
    .update (Entry.ofData 9 []).bytes,.update []]

theorem payload_adopted_as_record :
    (Device.zeros smallMachine 6).Blank sixBlocks ∧
    ∃ s, Session.runFrom (Device.zeros smallMachine 6) sixBlocks forgedRun = some s ∧
      s.journal.data = ([],4) ∧ (openJournal s.dev 0 6).map Journal.data = .ok ([],9) := by
  have hrun : (Session.runFrom (Device.zeros smallMachine 6) sixBlocks forgedRun).map
      (fun s => s.journal.data) = some ([],4) := by
    decide +kernel
  have hopen : ((Session.runFrom (Device.zeros smallMachine 6) sixBlocks forgedRun).bind
      fun s => ((openJournal s.dev 0 6).map Journal.data).toOption) = some ([],9) := by
    decide +kernel
  obtain ⟨s,hs,hdata⟩ := Option.map_eq_some_iff.mp hrun
  rw [hs,Option.bind_some,Outcome.toOption_eq_some] at hopen
  exact ⟨zeros_blank,s,hs,hdata,hopen⟩

/-- The scan calls `make` with this length: it does so in every round in which it has
read a header. -/
def Allocates (d : Device M) (start length n : ℕ) : Prop :=
  ∃ s h br, (scanLoop M.arith d.readBlocks start length).Reaches ⟨start,Entry.zero,start⟩ s ∧
    s.lba < M.arith.uint (start+length : ℕ) ∧ headerAt M.arith d.readBlocks s.lba = .ok (h,br) ∧
    n = h.dataLen.toNat

/-- On any device, opening a journal ends without a panic and makes no buffer larger
than the region, exactly if no header at an exposed block claims more data than the
region or a byte slice can hold. -/
theorem open_allocates_iff (d : Device M) (start length : ℕ) :
    ((∀ p, openJournal d start length ≠ .panic p) ∧
      ∀ n, Allocates d start length n → n ≤ length*M.blockSize) ↔
    ∀ e q h br, Exposed M.arith d.readBlocks start (M.arith.uint (start+length : ℕ)) e q →
      q < M.arith.uint (start+length : ℕ) → headerAt M.arith d.readBlocks q = .ok (h,br) →
      h.dataLen.toNat ≤ min (length*M.blockSize) M.maxAlloc := by
  have hopen : ∀ p, openJournal d start length = .panic p ↔ scan M.arith d.readBlocks start length = .panic p := by
    intro p
    rw [openJournal,openJournalIn]
    cases scan M.arith d.readBlocks start length <;> simp
  constructor
  · rintro ⟨hpanic,halloc⟩ e q h br hexp hlt hh
    obtain ⟨n,hn⟩ := reaches_iff_exposed.mpr hexp
    refine Nat.le_min.mpr ⟨halloc _ ⟨_,h,br,hn,hlt,hh,rfl⟩,?_⟩
    by_contra hgt
    have hp := entryAt_eq_panic.mpr ⟨h,br,hh,Nat.lt_of_not_le hgt,rfl⟩
    exact hpanic _ ((hopen _).mpr (scan_eq_panic.mpr ⟨e,q,hexp,hlt,hp⟩))
  · intro hcond
    constructor
    · intro p hp
      obtain ⟨e,q,hexp,hlt,hpanic⟩ := scan_eq_panic.mp ((hopen p).mp hp)
      obtain ⟨h,br,hh,hgt,-⟩ := entryAt_eq_panic.mp hpanic
      have hle := (Nat.le_min.mp (hcond e q h br hexp hlt hh)).2
      omega
    · rintro n ⟨s,h,br,hs,hlt,hh,rfl⟩
      exact (Nat.le_min.mp (hcond s.lastEntry s.lba h br (reaches_iff_exposed.mp ⟨_,hs⟩) hlt hh)).1

/-- A payload whose second block is a header that claims the largest length. -/
def hugeLength : List UInt8 :=
  magic0 ++ BigEndian.encode 4 9 ++ BigEndian.encode 8 (2^64-1) ++ List.replicate 32 0

/-- Three such payloads and an empty one are stored without complaint, and then the
journal cannot be opened. -/
theorem payload_makes_open_panic :
    (Device.zeros smallMachine 6).Blank sixBlocks ∧
    ∃ s, Session.runFrom (Device.zeros smallMachine 6) sixBlocks
        [.update hugeLength,.update hugeLength,.update hugeLength,.update []] = some s ∧
      s.journal.data = ([],4) ∧ openJournal s.dev 0 6 = .panic (.makeslice (2^64-1)) := by
  have hrun : (Session.runFrom (Device.zeros smallMachine 6) sixBlocks
      [.update hugeLength,.update hugeLength,.update hugeLength,.update []]).map
        (fun s => s.journal.data) = some ([],4) := by
    decide +kernel
  have hopen : ((Session.runFrom (Device.zeros smallMachine 6) sixBlocks
      [.update hugeLength,.update hugeLength,.update hugeLength,.update []]).map
        fun s => openJournal s.dev 0 6) = some (.panic (.makeslice (2^64-1))) := by
    decide +kernel
  obtain ⟨s,hs,hdata⟩ := Option.map_eq_some_iff.mp hrun
  rw [hs,Option.map_some] at hopen
  exact ⟨zeros_blank,s,hs,hdata,Option.some.inj hopen⟩

end ArmoredWitness.Slots
