import Mathlib.Order.Interval.Finset.Nat
import ArmoredWitness.Slots.Session

/-! Whether an update writes into the blocks of the current record. The limit on
the size of a record is a third of the region in bytes, while records take whole
blocks and do not wrap, so the answer depends on the length of the region. -/
namespace ArmoredWitness.Slots
open Lib

variable {M : Machine}

/-- The blocks that an update would write are not those of the current record. -/
def Session.Spares (s : Session M) (data : List UInt8) : Prop :=
  ∀ b ∈ s.block, Disjoint
    (Finset.Ico (s.journal.target M data)
      (s.journal.target M data+numBlocks M (entryHeaderSize+data.length)))
    (Finset.Ico b (b+s.journal.current.blocks M))

lemma Session.spares_iff {s : Session M} {data : List UInt8} : s.Spares data ↔ ∀ b ∈ s.block,
    s.journal.target M data+numBlocks M (entryHeaderSize+data.length) ≤ b ∨
    b+s.journal.current.blocks M ≤ s.journal.target M data := by
  have hpos := numBlocks_pos M data.length
  have hcur := s.journal.current.blocks_pos M
  refine forall₂_congr fun b _ => ?_
  rw [Finset.disjoint_left]
  simp only [Finset.mem_Ico]
  constructor
  · intro h
    by_contra hc
    exact h (a := max b (s.journal.target M data)) (by omega) (by omega)
  · intro h q hq hq'
    omega

instance (s : Session M) (data : List UInt8) : Decidable (s.Spares data) :=
  decidable_of_iff _ Session.spares_iff.symm

/-- The current record lies in the region and is a permitted one, and the next
block is the one after it, up to the wrap at the end of the region. -/
structure Placed (s : Session M) (r : Region M) : Prop where
  tidy : s.dev.Tidy r
  on : s.journal.On r
  start_le : r.start ≤ s.journal.nextBlock
  le_stop : s.journal.nextBlock ≤ r.stop
  fits : ∀ b, s.block = some b → r.start ≤ b ∧ b+s.journal.current.blocks M ≤ r.stop
  permitted : ∀ b, s.block = some b → 3*s.journal.current.blocks M ≤ r.length+2
  next : ∀ b, s.block = some b → s.journal.nextBlock = b+s.journal.current.blocks M ∨
    s.journal.nextBlock = r.start ∧ b+s.journal.current.blocks M = r.stop

section Placing
variable {s : Session M} {r : Region M} {data : List UInt8}

lemma placed_opened {d : Device M} {j : Journal} (hd : d.Tidy r)
    (h : openJournal d r.start r.length = .ok j) (failed : List (List UInt8)) :
    Placed ⟨d,j,j.currentBlock M,failed⟩ r := by
  obtain ⟨next,⟨hz,hn⟩ | ⟨q,hq,hq',hr,hof,hn⟩,hj⟩ := openJournal_eq_ok hd.bounded h
  · have hnext : j.nextBlock = r.start := by rw [hj,hn]; simp
    have hblock : j.currentBlock M = none := by rw [Journal.currentBlock,hz]; rfl
    have hstop : r.start ≤ r.stop := Nat.le_add_right _ _
    refine ⟨hd,by rw [hj]; exact ⟨hd.addressed,rfl,rfl,rfl⟩,hnext.ge,hnext.trans_le hstop,?_,?_,?_⟩
    all_goals
      intro b hb
      rw [hblock] at hb
      cases hb
  · have hh := hr.toIsHeader
    have hlen : j.current.dataLen = d.dataLenAt q := by rw [hof]; rfl
    have hrev : j.current.revision ≠ 0 := by
      rw [hof]
      exact hh.revision
    have hfit := hd.fits q hq hq' hh
    have h3 := r.three_mul_numBlocks_le (hd.permitted q hq hq' hh)
    rw [← hlen] at hfit h3
    change q+j.current.blocks M ≤ r.stop at hfit
    change 3*j.current.blocks M ≤ r.length+2 at h3
    have hpos := j.current.blocks_pos M
    have hstop : r.stop = r.start+r.length := rfl
    have hnext : j.nextBlock = if r.stop ≤ next then r.start else next := by rw [hj]
    have hstart : j.start = r.start := by rw [hj]
    have hlength : j.length = r.length := by rw [hj]
    have hblock : j.currentBlock M = some q := by
      rw [Journal.currentBlock,if_neg hrev,hnext,hstart,hlength]
      congr 1
      split_ifs <;> omega
    refine ⟨hd,by rw [hj]; exact ⟨hd.addressed,rfl,rfl,rfl⟩,?_,?_,?_,?_,?_⟩
    · dsimp only
      rw [hnext]
      split_ifs <;> omega
    · dsimp only
      rw [hnext]
      split_ifs <;> omega
    all_goals
      intro b hb
      rw [hblock] at hb
      cases hb
      dsimp only
    · exact ⟨hq,hfit⟩
    · exact h3
    · rw [hnext]
      split_ifs <;> omega

variable (h : Placed s r) (ha : s.journal.Accepts data)
include h ha

lemma Placed.target_cases : s.journal.target M data = s.journal.nextBlock ∧
      s.journal.nextBlock+numBlocks M (entryHeaderSize+data.length) ≤ r.stop ∨
    s.journal.target M data = r.start ∧ r.start+numBlocks M (entryHeaderSize+data.length) ≤ r.stop ∧
      (r.length*M.blockSize ≤ M.maxUint →
        r.stop < s.journal.nextBlock+numBlocks M (entryHeaderSize+data.length)) :=
  h.on.target_cases h.start_le h.le_stop ha

lemma Placed.target_fits : r.start ≤ s.journal.target M data ∧
    s.journal.target M data+numBlocks M (entryHeaderSize+data.length) ≤ r.stop := by
  have hs := h.start_le
  rcases h.target_cases ha with ⟨ht,hfit⟩ | ⟨ht,hfit,-⟩ <;> rw [ht] <;> omega

lemma Placed.step_update (hfree : FreeOfMagic M data) :
    ∃ s', s.step (.update data) = .ok s' ∧ Placed s' r ∧
      s'.journal.nextBlock = s.journal.target M data+numBlocks M (entryHeaderSize+data.length) ∧
      s'.block = some (s.journal.target M data) ∧
      s'.journal.current.blocks M = numBlocks M (entryHeaderSize+data.length) := by
  have hsize := h.on.accepts_iff.mp ha
  obtain ⟨hs,hfit⟩ := h.target_fits ha
  have hon := h.tidy.on_device
  have hblocks : (s.journal.newEntry data).blocks M = _ := r.blocks_ofData _ hsize
  have h3 := r.three_mul_numBlocks_le hsize
  refine ⟨_,Session.step_update ha h.on.addressed hon hfit,⟨h.tidy.store _ hfree hsize hfit le_rfl,
    ⟨h.on.addressed,h.on.start,h.on.length,h.on.maxDataBytes⟩,by dsimp only; omega,hfit,?_,?_,?_⟩,rfl,rfl,hblocks⟩
  all_goals
    intro b hb
    cases hb
    dsimp only
    rw [hblocks]
  · exact ⟨hs,hfit⟩
  · exact h3
  · exact .inl rfl

/-- Records of a third of the region leave the current one alone, unless a third
of the region is a fraction of a block more than a whole number of blocks. -/
theorem Placed.spares (hov : r.length*M.blockSize ≤ M.maxUint) (hmod : r.length % 3 ≠ 1) : s.Spares data := by
  rw [Session.spares_iff]
  intro b hb
  have h3 := r.three_mul_numBlocks_le (h.on.accepts_iff.mp ha)
  have hperm := h.permitted b hb
  have hfits := h.fits b hb
  have hcur := s.journal.current.blocks_pos M
  have hstop : r.stop = r.start+r.length := rfl
  rcases h.target_cases ha with ⟨ht,hfit⟩ | ⟨ht,hfit,hover⟩
  · rcases h.next b hb with hn | ⟨hn,he⟩ <;> omega
  · have hgt := hover hov
    rcases h.next b hb with hn | ⟨hn,he⟩ <;> omega

end Placing

lemma Placed.step_reopen {s t : Session M} {r : Region M} (h : Placed s r) (hs : s.step .reopen = .ok t) :
    Placed t r := by
  rw [Session.step,h.on.start,h.on.length] at hs
  obtain ⟨j,ho,rfl⟩ := Outcome.map_eq_ok.mp hs
  exact placed_opened h.tidy ho _

/-- Every event that meets no failure keeps the place. -/
lemma Placed.step {s t : Session M} {r : Region M} (h : Placed s r) (ev : Event) (hev : ev.Faultless)
    (hA : s.Assumed ev) (hs : s.step ev = .ok t) : Placed t r := by
  cases ev with
  | fail data k => exact hev.elim
  | reopen => exact h.step_reopen hs
  | update data =>
    by_cases ha : s.journal.Accepts data
    · obtain ⟨t',ht',hp,-⟩ := h.step_update ha (hA ha)
      rw [hs] at ht'
      cases ht'
      exact hp
    · rw [Session.step_update_rejected ha] at hs
      cases hs
      exact h

theorem placed_run {r : Region M} (evs : List Event) {s s' : Session M} (h : Placed s r)
    (hev : ∀ ev ∈ evs, ev.Faultless) (hA : Transition.Along Session.next Session.Assumed s evs)
    (hs : Transition.run Session.next s evs = some s') : Placed s' r := by
  induction evs generalizing s with
  | nil =>
    cases hs
    exact h
  | cons ev evs ih =>
    obtain ⟨t,ht,hrun⟩ := Option.bind_eq_some_iff.mp hs
    have hp := h.step ev (hev ev (List.mem_cons_self ..)) hA.1 (Outcome.toOption_eq_some.mp ht)
    exact ih hp (fun ev hm => hev ev (List.mem_cons_of_mem _ hm)) (hA.tail ht) hrun

section Converse
variable {s : Session M} {r : Region M} (hov : r.length*M.blockSize ≤ M.maxUint)

lemma freeOfMagic_zeros (M : Machine) (n : ℕ) : FreeOfMagic M (List.replicate n 0) := by
  intro i _ _ heq
  have hmem : (0x54 : UInt8) ∈ (List.replicate n (0 : UInt8)).drop (i*M.blockSize-entryHeaderSize) := by
    apply List.mem_of_mem_take (i := 4)
    rw [heq]
    decide
  exact absurd (List.eq_of_mem_replicate (List.mem_of_mem_drop hmem)) (by decide)

lemma numBlocks_header (hB : entryHeaderSize ≤ M.blockSize) : numBlocks M entryHeaderSize = 1 := by
  have hle : numBlocks M entryHeaderSize ≤ 1 := (Blocks.count_le_iff M.blockSize_pos _ _).mpr (by omega)
  have hpos : 0 < numBlocks M entryHeaderSize := Blocks.count_pos M.blockSize_pos _ (by decide)
  omega

include hov

/-- Records without data, one block each, move the next block to any place. -/
lemma Placed.run_empty (n : ℕ) {s : Session M} (h : Placed s r) (ha : s.journal.Accepts [])
    (hn : s.journal.nextBlock+n ≤ r.stop) : ∃ s',
      Transition.run Session.next s (List.replicate n (.update [])) = some s' ∧
      Transition.Along Session.next Session.Assumed s (List.replicate n (.update [])) ∧ Placed s' r ∧
      s'.journal.nextBlock = s.journal.nextBlock+n := by
  induction n generalizing s with
  | zero => exact ⟨s,rfl,trivial,h,rfl⟩
  | succ n ih =>
    have h1 : numBlocks M (entryHeaderSize+([] : List UInt8).length) = 1 := numBlocks_header r.header_le
    obtain ⟨s₁,hs₁,hp₁,hn₁,-⟩ := h.step_update ha (freeOfMagic_zeros M 0)
    have ht : s.journal.target M [] = s.journal.nextBlock := by
      rcases h.target_cases ha with ⟨ht,-⟩ | ⟨-,-,hover⟩
      · exact ht
      · have hgt := hover hov
        omega
    rw [h1,ht] at hn₁
    have ha₁ : s₁.journal.Accepts [] := by
      rw [hp₁.on.accepts_iff]
      exact h.on.accepts_iff.mp ha
    obtain ⟨s',hs',hA',hp',hn'⟩ := ih hp₁ ha₁ (by omega)
    have hn₁ := Session.next_eq hs₁
    refine ⟨s',?_,⟨fun _ => freeOfMagic_zeros M 0,fun t ht => ?_⟩,hp',by omega⟩
    · rw [List.replicate_succ,Transition.run,hn₁,Option.bind_some,hs']
    · rw [hn₁] at ht
      cases ht
      exact hA'

/-- One block more than a third of the region, rounded down. -/
lemma numBlocks_third (hmod : r.length % 3 = 1) (hlim : entryHeaderSize ≤ r.limit) :
    numBlocks M (entryHeaderSize+(r.length/3*M.blockSize+1-entryHeaderSize)) = r.length/3+1 ∧
    entryHeaderSize+(r.length/3*M.blockSize+1-entryHeaderSize) ≤ r.limit := by
  have hB := r.header_le
  have h48 : entryHeaderSize = 48 := rfl
  have hthird : r.length/3*M.blockSize+1 ≤ r.limit := by
    rw [Region.limit,Machine.wrap_eq hov]
    apply (Nat.le_div_iff_mul_le (by decide)).mpr
    have heq : r.length*M.blockSize = 3*(r.length/3*M.blockSize)+M.blockSize := by
      calc r.length*M.blockSize = (3*(r.length/3)+1)*M.blockSize := by congr 1; omega
        _ = _ := by ring
    change (r.length/3*M.blockSize+1)*3 ≤ r.length*M.blockSize
    omega
  by_cases hk : r.length/3 = 0
  · rw [hk,Nat.zero_mul,Nat.zero_add,Nat.sub_eq_zero_of_le (by omega),Nat.add_zero]
    exact ⟨numBlocks_header hB,hlim⟩
  · have hge : M.blockSize ≤ r.length/3*M.blockSize := Nat.le_mul_of_pos_left _ (by omega)
    rw [Nat.add_sub_cancel' (by omega)]
    refine ⟨?_,hthird⟩
    have hgt : r.length/3 < numBlocks M (r.length/3*M.blockSize+1) :=
      (Blocks.lt_count_iff M.blockSize_pos _ _).mpr (Nat.lt_succ_self _)
    have hle : numBlocks M (r.length/3*M.blockSize+1) ≤ r.length/3+1 :=
      (Blocks.count_le_iff M.blockSize_pos _ _).mpr (by rw [Nat.add_mul]; omega)
    omega

/-- After as many small records as a third of the region has blocks, a large one
ends so far up that the next large one has to go to the start and ends in its
first block. -/
lemma Placed.exists_overlap (h : Placed s r) (hnext : s.journal.nextBlock = r.start)
    (hmod : r.length % 3 = 1) (hlim : entryHeaderSize ≤ r.limit) :
    ∃ evs s' data, (∀ ev ∈ evs, ev.Faultless) ∧ Transition.Along Session.next Session.Assumed s evs ∧
      Transition.run Session.next s evs = some s' ∧
      s'.journal.Accepts data ∧ ¬ s'.Spares data := by
  obtain ⟨hnum,hsize⟩ := numBlocks_third hov hmod hlim
  have hstop : r.stop = r.start+r.length := rfl
  have hlen : (List.replicate (r.length/3*M.blockSize+1-entryHeaderSize) (0 : UInt8)).length =
      r.length/3*M.blockSize+1-entryHeaderSize := List.length_replicate
  obtain ⟨data,hdata⟩ : ∃ data, data =
    List.replicate (r.length/3*M.blockSize+1-entryHeaderSize) (0 : UInt8) := ⟨_,rfl⟩
  rw [← hdata] at hlen
  have hfree : FreeOfMagic M data := hdata ▸ freeOfMagic_zeros M _
  obtain ⟨s₁,hs₁,hA₁,hp₁,hn₁⟩ := h.run_empty hov (r.length/3) (h.on.accepts_iff.mpr hlim) (by omega)
  have ha₁ : s₁.journal.Accepts data := hp₁.on.accepts_iff.mpr (by rwa [hlen])
  obtain ⟨s₂,hs₂,hp₂,hn₂,hb₂,hw₂⟩ := hp₁.step_update ha₁ hfree
  have ha₂ : s₂.journal.Accepts data := hp₂.on.accepts_iff.mpr (by rwa [hlen])
  have ht₁ : s₁.journal.target M data = s₁.journal.nextBlock := by
    rcases hp₁.target_cases ha₁ with ⟨ht,-⟩ | ⟨-,-,hover⟩
    · exact ht
    · have hgt := hover hov
      rw [hlen,hnum] at hgt
      omega
  have ht₂ : s₂.journal.target M data = r.start := by
    rcases hp₂.target_cases ha₂ with ⟨-,hfit⟩ | ⟨ht,-⟩
    · rw [hlen,hnum] at hfit hn₂
      omega
    · exact ht
  refine ⟨List.replicate (r.length/3) (.update []) ++ [.update data],s₂,data,?_,?_,?_,ha₂,?_⟩
  · intro ev hev
    rcases List.mem_append.mp hev with hm | hm
    · rw [List.eq_of_mem_replicate hm]
      trivial
    · rw [List.mem_singleton.mp hm]
      trivial
  · exact hA₁.append hs₁ ⟨fun _ => hfree,fun _ _ => trivial⟩
  · rw [Transition.run_append,hs₁,Option.bind_some,Transition.run_single,Session.next_eq hs₂]
  · intro hspares
    have hsep := Session.spares_iff.mp hspares _ hb₂
    rw [hlen,hnum] at hw₂ hsep
    omega

end Converse

/-- In every run of updates and reopenings that meet no failure, every accepted
update spares the current record, exactly if the length of the region does not
leave the remainder 1 modulo 3, or the region is too small for any record. -/
theorem update_spares_current_iff (r : Region M) (hr : r.Addressed) (hov : r.length*M.blockSize ≤ M.maxUint) :
    (∀ (d : Device M) (evs : List Event) (s : Session M) (data : List UInt8), d.Blank r →
      (∀ ev ∈ evs, ev.Faultless) → Session.AlongFrom Session.Assumed d r evs →
      Session.runFrom d r evs = some s → s.journal.Accepts data → s.Spares data) ↔
    r.length % 3 ≠ 1 ∨ r.limit < entryHeaderSize := by
  constructor
  · intro hall
    by_contra hc
    obtain ⟨hmod,hlim⟩ : r.length % 3 = 1 ∧ entryHeaderSize ≤ r.limit := by omega
    have hblank : (Device.zeros M r.stop).Blank r := ⟨hr,le_rfl,fun _ _ _ => rfl⟩
    obtain ⟨j,hopen,hq⟩ := Quiet.blank hblank
    have hp : Placed ⟨Device.zeros M r.stop,j,j.currentBlock M,[]⟩ r := placed_opened hblank.tidy hopen []
    have hnext : j.nextBlock = r.start := by
      obtain ⟨p,c,e,hh,ht,-⟩ := hq
      rcases ht.next with hn | hn
      · exact hn.trans hh.live.last_eq.2.2
      · exact hn
    obtain ⟨evs,s',data,hev,hA,hs,ha,hnot⟩ := hp.exists_overlap hov hnext hmod hlim
    refine hnot (hall _ evs s' data hblank hev ?_ ?_ ha)
    · rwa [Session.alongFrom_iff hopen]
    · rw [Session.runFrom_eq hopen,hs]
  · intro hcond d evs s data hblank hev hA hs ha
    obtain ⟨j,hopen,-⟩ := Quiet.blank hblank
    rw [Session.alongFrom_iff hopen] at hA
    rw [Session.runFrom_eq hopen] at hs
    have hp := placed_run evs (placed_opened hblank.tidy hopen []) hev hA hs
    rcases hcond with hmod | hlim
    · exact hp.spares ha hov hmod
    · have hsize := hp.on.accepts_iff.mp ha
      omega

/-- Four blocks of the smallest size. -/
def fourBlocks : Region smallMachine := ⟨0,4,smallMachine_header⟩

lemma fourBlocks_addressed : fourBlocks.Addressed :=
  ⟨by decide +kernel,by decide +kernel,by decide +kernel⟩

theorem update_spares_current_fourBlocks :
    (∀ (d : Device smallMachine) (evs : List Event) (s : Session smallMachine) (data : List UInt8),
      d.Blank fourBlocks → (∀ ev ∈ evs, ev.Faultless) →
      Session.AlongFrom Session.Assumed d fourBlocks evs → Session.runFrom d fourBlocks evs = some s →
      s.journal.Accepts data → s.Spares data) ↔
    fourBlocks.length % 3 ≠ 1 ∨ fourBlocks.limit < entryHeaderSize :=
  update_spares_current_iff fourBlocks fourBlocks_addressed (by decide)

/-- A record of two blocks follows one of a single block; the next one of two
blocks goes to the start and takes the first block of the current record. -/
theorem update_overlaps_current :
    (Device.zeros smallMachine 4).Blank fourBlocks ∧
    Session.AlongFrom Session.Assumed (Device.zeros smallMachine 4) fourBlocks
      [.update [],.update [0x41]] ∧
    ∃ s, Session.runFrom (Device.zeros smallMachine 4) fourBlocks [.update [],.update [0x41]] = some s ∧
      s.journal.Accepts [0x42] ∧ ¬ s.Spares [0x42] := by
  refine ⟨⟨fourBlocks_addressed,by decide,fun _ _ _ => rfl⟩,by decide +kernel,?_⟩
  have hrun : (Session.runFrom (Device.zeros smallMachine 4) fourBlocks [.update [],.update [0x41]]).map
      (fun s => (s.block,s.journal)) = some (some 1,⟨0,4,Entry.ofData 2 [0x41],3,16⟩) := by
    decide +kernel
  obtain ⟨s,hs,hpair⟩ := Option.map_eq_some_iff.mp hrun
  obtain ⟨hblock,hjournal⟩ := Prod.mk.inj hpair
  have hsep : ¬ ((0 : ℕ)+2 ≤ 1 ∨ 1+2 ≤ 0) := by decide
  refine ⟨s,hs,by rw [hjournal]; decide,fun hspares => hsep ?_⟩
  have hspares' := Session.spares_iff.mp hspares 1 hblock
  rw [hjournal] at hspares'
  exact hspares'

end ArmoredWitness.Slots
