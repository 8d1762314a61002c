import ArmoredWitness.Slots.Log
import ArmoredWitness.Slots.Partition

/-! What a slot depends on and what it changes. Opening a tidy region reads only
the blocks of the region, and every write of a slot stays inside its own blocks,
whatever the device does with it. -/
namespace ArmoredWitness.Slots
open Lib

variable {M : Machine} {r : Region M} {d d' : Device M}

namespace Device

/-- Two devices of one size that hold the same blocks in a region. -/
structure Alike (r : Region M) (d' d : Device M) : Prop where
  size : d'.size = d.size
  block : ∀ q, r.start ≤ q → q < r.stop → d'.block q = d.block q

namespace Alike

lemma refl (r : Region M) (d : Device M) : Alike r d d := ⟨rfl,fun _ _ _ => rfl⟩

lemma store (h : Alike r d' d) (n k : ℕ) (b : List UInt8) : Alike r (d'.store n k b) (d.store n k b) := by
  refine ⟨h.size,fun q hs hq => ?_⟩
  simp only [Device.store,Blocks.store,h.block q hs hq]

/-- A write outside the region. -/
lemma store_right (h : Alike r d' d) {n k : ℕ} (b : List UInt8) (hout : n+k ≤ r.start ∨ r.stop ≤ n) :
    Alike r d' (d.store n k b) := by
  refine ⟨h.size,fun q hs hq => ?_⟩
  rw [d.store_outside b (by omega)]
  exact h.block q hs hq

lemma store_left {n k : ℕ} (b : List UInt8) (hout : n+k ≤ r.start ∨ r.stop ≤ n) :
    Alike r (d.store n k b) d :=
  ⟨rfl,fun q hs hq => d.store_outside b (by omega)⟩

end Alike

lemma Bounded.congr (h : d.Bounded r) (ha : Alike r d' d) : d'.Bounded r := by
  refine ⟨h.addressed,fun q hs hq => ⟨h.addressed.header_end hq,fun hh hlen => ?_⟩⟩
  rw [isHeader_congr r.header_le (ha.block q hs hq) ha.size] at hh
  rw [dataLenAt_congr r.header_le (ha.block q hs hq)] at hlen ⊢
  exact (h.within q hs hq).data hh hlen

lemma Tidy.congr (h : d.Tidy r) (ha : Alike r d' d) : d'.Tidy r := by
  have hB := r.header_le
  have hsize := ha.size
  have hon := h.on_device
  refine ⟨h.addressed,by omega,fun q hs hq hh => ?_,fun q hs hq hh => ?_⟩
  · rw [dataLenAt_congr hB (ha.block q hs hq)]
    exact h.fits q hs hq ((isHeader_congr hB (ha.block q hs hq) ha.size).mp hh)
  · rw [dataLenAt_congr hB (ha.block q hs hq)]
    exact h.permitted q hs hq ((isHeader_congr hB (ha.block q hs hq) ha.size).mp hh)

/-- In a tidy region, what is found at a block is decided by the region. -/
lemma Tidy.tape_eq (h : d.Tidy r) (ha : Alike r d' d) {q : ℕ} (hs : r.start ≤ q) (hq : q < r.stop) :
    d'.tape q = d.tape q := by
  refine tape_congr r.header_le ha.size fun p hp hp' => ha.block p (by omega) ?_
  by_cases hh : d.IsHeader q
  · have hfits := h.fits q hs hq hh
    rw [extent_header hh] at hp'
    omega
  · rw [tape_of_not_isHeader hh,RingLog.extent_blank] at hp'
    omega

end Device

/-- In a tidy region, what is seen at a block is decided by the region. -/
lemma sees_congr (h : d.Tidy r) (ha : d'.Alike r d) {q : ℕ} (hs : r.start ≤ q) (hq : q < r.stop) :
    d'.sees q = d.sees q := by
  have ht := h.tape_eq ha hs hq
  rcases h.sees_cases hs hq with ⟨hr,hsee⟩ | ⟨hn,hsee⟩
  · obtain ⟨hr',he⟩ := isRecord_of_tape (ht.trans (tape_of_isRecord hr))
    rcases (h.congr ha).sees_cases hs hq with ⟨-,hsee'⟩ | ⟨hn',-⟩
    · rw [hsee,hsee',he]
    · exact absurd hr' hn'
  · rcases (h.congr ha).sees_cases hs hq with ⟨hr',-⟩ | ⟨-,hsee'⟩
    · exact absurd (isRecord_of_tape (ht.symm.trans (tape_of_isRecord hr'))).1 hn
    · rw [hsee,hsee']

/-- Opening the journal of a tidy region reads nothing else. -/
theorem openJournal_congr (h : d.Tidy r) (ha : d'.Alike r d) :
    openJournal d' r.start r.length = openJournal d r.start r.length :=
  openJournal_of_sees h fun _ hs hq => sees_congr h ha hs hq

namespace Journal
variable (j : Journal) (fault : Fault) (data : List UInt8)

/-- An update does not panic. -/
lemma update_ne_panic (d : Device M) (q : Panic) : (j.update fault.writeBlocks d data).2.2 ≠ .panic q := by
  by_cases ha : j.Accepts data
  · rw [update_accepted ha]
    cases fault with
    | none =>
      simp only [Fault.writeBlocks,writeBlocks]
      split_ifs
      · rintro ⟨⟩
      · rintro ⟨⟩
    | some k => rintro ⟨⟩
  · rw [update_tooLarge _ ha]
    rintro ⟨⟩

/-- The number of blocks an update stores. -/
def stored (M : Machine) : ℕ :=
  if j.Accepts data then
    match fault with
    | none => numBlocks M (entryHeaderSize+data.length)
    | some k => min k (numBlocks M (entryHeaderSize+data.length))
  else 0

/-- The journal after an update. -/
def after (M : Machine) : Journal :=
  if j.Accepts data then
    match fault with
    | none => {j with nextBlock := j.target M data+numBlocks M (entryHeaderSize+data.length),
                      current := j.newEntry data}
    | some _ => {j with nextBlock := j.target M data}
  else j

/-- What an update returns. -/
def outcome (M : Machine) : Outcome JournalError Unit :=
  if j.Accepts data then
    match fault with
    | none => .ok ()
    | some k => .error (.write (.device (j.target M data+k)))
  else .error (.tooLarge data.length j.maxDataBytes)

lemma stored_le : j.stored fault data M ≤ numBlocks M (entryHeaderSize+data.length) := by
  unfold stored
  split_ifs with ha
  · cases fault with
    | none => exact le_rfl
    | some k => exact Nat.min_le_right _ _
  · exact Nat.zero_le _

/-- The journal was opened on the region and is about to write inside it. -/
structure Placed (j : Journal) (r : Region M) : Prop where
  on : j.On r
  start_le : r.start ≤ j.nextBlock
  le_stop : j.nextBlock ≤ r.stop

variable {j fault data}

/-- An update is accepted and carried out, and its record becomes the current one, or
it fails and the current one stays. -/
lemma outcome_cases (M : Machine) (j : Journal) (fault : Fault) (data : List UInt8) :
    (fault = none ∧ j.Accepts data) ∧ j.outcome fault data M = .ok () ∧
      (j.after fault data M).current = j.newEntry data ∨
    ¬ (fault = none ∧ j.Accepts data) ∧ ∃ e, j.outcome fault data M = .error e ∧
      (j.after fault data M).current = j.current := by
  unfold outcome after
  split_ifs with ha
  · cases fault with
    | none => exact .inl ⟨⟨rfl,ha⟩,rfl,rfl⟩
    | some k => exact .inr ⟨fun hc => Option.some_ne_none k hc.1,_,rfl,rfl⟩
  · exact .inr ⟨fun hc => ha hc.2,_,rfl,rfl⟩

lemma placed_of_open (hd : d.Bounded r) (h : openJournal d r.start r.length = .ok j) : j.Placed r := by
  obtain ⟨next,hfound,hj⟩ := openJournal_eq_ok hd h
  have hnext : r.start ≤ next := by
    rcases hfound with ⟨-,hn⟩ | ⟨q,hq,-,-,-,hn⟩
    · exact hn.ge
    · omega
  have hstop : r.stop = r.start+r.length := rfl
  rw [hj]
  refine ⟨⟨hd.addressed,rfl,rfl,rfl⟩,?_,?_⟩
  · dsimp only
    split_ifs <;> omega
  · dsimp only
    split_ifs <;> omega

namespace Placed
variable (h : j.Placed r)
include h

variable (fault data) in
lemma target_within : r.start ≤ j.target M data ∧ j.target M data+j.stored fault data M ≤ r.stop := by
  have hs := h.start_le
  have hn := h.le_stop
  have hstop : r.stop = r.start+r.length := rfl
  have hle := j.stored_le (M := M) fault data
  by_cases ha : j.Accepts data
  · rcases h.on.target_cases hs hn ha with ⟨ht,hfit⟩ | ⟨ht,hfit,-⟩
    · omega
    · omega
  · have h0 : j.stored fault data M = 0 := if_neg ha
    unfold target targetIn
    rw [h.on.start]
    split_ifs <;> omega

/-- What an update does, on any device that holds the region. -/
lemma update_eq (hd : r.stop ≤ d.size) : j.update fault.writeBlocks d data =
    (d.store (j.target M data) (j.stored fault data M) (j.newEntry data).bytes,
      j.after fault data M,j.outcome fault data M) := by
  have hw := h.target_within fault data
  unfold stored at hw ⊢
  unfold after outcome
  split_ifs at hw ⊢ with ha
  · cases fault with
    | none => exact update_writeBlocks ha h.on.addressed hw.2 (hw.2.trans hd)
    | some k => exact update_writePrefix ha k
  · rw [d.store_zero]
    exact update_tooLarge _ ha

lemma after_placed : (j.after fault data M).Placed r := by
  have hw := h.target_within fault data
  unfold stored at hw
  unfold after
  split_ifs at hw ⊢ with ha
  · cases fault with
    | none =>
      dsimp only at hw ⊢
      exact ⟨⟨h.on.addressed,h.on.start,h.on.length,h.on.maxDataBytes⟩,by dsimp only; omega,by dsimp only; omega⟩
    | some k =>
      dsimp only at hw ⊢
      exact ⟨⟨h.on.addressed,h.on.start,h.on.length,h.on.maxDataBytes⟩,hw.1,by dsimp only; omega⟩
  · exact h

lemma tidy_after (hd : d.Tidy r) (hfree : j.Accepts data → FreeOfMagic M data) :
    (d.store (j.target M data) (j.stored fault data M) (j.newEntry data).bytes).Tidy r := by
  by_cases ha : j.Accepts data
  · have hfit : j.target M data+numBlocks M (entryHeaderSize+data.length) ≤ r.stop := by
      rcases h.on.target_cases h.start_le h.le_stop ha with ⟨ht,hfit⟩ | ⟨ht,hfit,-⟩
      · rwa [ht]
      · rwa [ht]
    exact hd.store _ (hfree ha) (h.on.accepts_iff.mp ha) hfit (j.stored_le fault data)
  · have h0 : j.stored fault data M = 0 := if_neg ha
    rwa [h0,d.store_zero]

end Placed
end Journal

/-- The blocks of a slot. -/
def Slot.region (hB : entryHeaderSize ≤ M.blockSize) (s : Slot) : Region M := ⟨s.start,s.length,hB⟩

/-- The slot lies on the region, and its journal, once opened, was opened there. -/
structure Slot.Fits (s : Slot) (r : Region M) : Prop where
  start : s.start = r.start
  length : s.length = r.length
  journal : ∀ j, s.journal = some j → j.Placed r

end ArmoredWitness.Slots
