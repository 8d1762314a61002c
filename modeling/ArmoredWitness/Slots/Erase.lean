import ArmoredWitness.Slots.Frame

/-! Erasing a partition. Every slot drops its journal and has its blocks overwritten
with zeros; a write that fails is logged, and `Erase` goes on and reports nothing. -/
namespace ArmoredWitness.Slots
open Lib

variable {M : Machine}

namespace Slot

/-- The slot without its journal. -/
def closed (s : Slot) : Slot := {s with journal := none}

/-- The number of blocks that `eraseSlot` writes. -/
def wiped (M : Machine) (s : Slot) : ℕ := numBlocks M (M.wrap (s.length*M.blockSize))

lemma wiped_le (M : Machine) (s : Slot) : s.wiped M ≤ s.length :=
  (Blocks.count_le_iff M.blockSize_pos _ _).mpr (M.wrap_le _)

lemma cut_replicate (n i : ℕ) : Blocks.cut M.blockSize (List.replicate n (0 : UInt8)) i = zeroBlock M := by
  apply Subtype.ext
  apply List.map_congr_left
  intro j _
  simp only [List.getD,List.getElem?_replicate,List.getElem?_nil]
  split_ifs <;> rfl

/-- `make` can allocate the zeros for the slot. -/
def Allocatable (M : Machine) (s : Slot) : Prop := M.wrap (s.length*M.blockSize) ≤ M.maxAlloc

instance (s : Slot) : Decidable (s.Allocatable M) := inferInstanceAs (Decidable (_ ≤ _))

/-- The write for the slot is carried out: the device does not fail, and has the blocks. -/
def Carried (s : Slot) (fault : Fault) (d : Device M) : Prop := fault = none ∧ s.start+s.wiped M ≤ d.size

/-- What `eraseSlot` leaves: zeros in some first part of the slot, which is all that it
writes if it returns nil. -/
lemma erase_spec (s : Slot) (fault : Fault) (i : ℕ) (d : Device M) : ∃ k r, k ≤ s.wiped M ∧ s.erase fault i d =
      (d.store s.start k (List.replicate (M.wrap (s.length*M.blockSize)) 0),s.closed,r) ∧
    (¬ s.Allocatable M ∧ (∃ q, r = .panic q) ∨ s.Allocatable M ∧
      (s.Carried fault d ∧ r = .ok () ∧ k = s.wiped M ∨ ¬ s.Carried fault d ∧ ∃ e, r = .error e)) := by
  by_cases halloc : s.Allocatable M
  · simp only [erase,if_neg (Nat.not_lt_of_le halloc)]
    cases fault with
    | none =>
      simp only [Fault.writeBlocks,writeBlocks,List.length_replicate]
      split_ifs with hfit
      · exact ⟨s.wiped M,_,le_rfl,rfl,.inr ⟨halloc,.inl ⟨⟨rfl,hfit⟩,rfl,rfl⟩⟩⟩
      · exact ⟨0,_,Nat.zero_le _,by rw [d.store_zero]; rfl,.inr ⟨halloc,.inr ⟨fun hc => hfit hc.2,_,rfl⟩⟩⟩
    | some k =>
      simp only [Fault.writeBlocks,writePrefix,List.length_replicate]
      exact ⟨_,_,Nat.min_le_right _ _,rfl,.inr ⟨halloc,.inr ⟨fun hc => Option.some_ne_none k hc.1,_,rfl⟩⟩⟩
  · exact ⟨0,_,Nat.zero_le _,by rw [d.store_zero]; exact if_pos (Nat.lt_of_not_le halloc),.inl ⟨halloc,_,rfl⟩⟩

end Slot

/-- The device with zeros in the blocks that `eraseSlot` writes for these slots. -/
def Device.zeroed (d : Device M) (slots : List Slot) : Device M :=
  {d with block := fun q =>
    if ∃ s ∈ slots, s.start ≤ q ∧ q < s.start+s.wiped M then zeroBlock M else d.block q}

namespace Partition
variable {p p' p'' : Partition M} {i : ℕ}

/-- The slot with this index, if it exists, is one that `make` can allocate the zeros for. -/
def Allocates (p : Partition M) (i : ℕ) : Prop := ∀ s ∈ p.slots[i]?, s.Allocatable M

/-- The write for the slot with this index, if it exists, is carried out. -/
def Carries (p : Partition M) (faults : ℕ → Fault) (i : ℕ) : Prop :=
  ∀ s ∈ p.slots[i]?, s.Carried (faults i) p.dev

/-- What erasing can do to a partition: journals are dropped, and blocks of the slots
become zero. -/
structure Swept (p p' : Partition M) : Prop where
  size : p'.dev.size = p.dev.size
  slot : ∀ i : ℕ, p'.slots[i]? = p.slots[i]? ∨ p'.slots[i]? = (p.slots[i]?).map Slot.closed
  block : ∀ q, p'.dev.block q = p.dev.block q ∨
    p'.dev.block q = zeroBlock M ∧ ∃ s ∈ p.slots, s.start ≤ q ∧ q < s.start+s.wiped M

namespace Swept

lemma refl (p : Partition M) : Swept p p := ⟨rfl,fun _ => .inl rfl,fun _ => .inl rfl⟩

/-- A slot keeps its place. -/
lemma slot_eq (h : Swept p p') {s' : Slot} (hs' : p'.slots[i]? = some s') :
    ∃ s, p.slots[i]? = some s ∧ (s' = s ∨ s' = s.closed) := by
  rcases h.slot i with heq | heq
  · exact ⟨s',by rw [← heq,hs'],.inl rfl⟩
  · rw [hs'] at heq
    obtain ⟨s,hs,rfl⟩ := Option.map_eq_some_iff.mp heq.symm
    exact ⟨s,hs,.inr rfl⟩

/-- No slot goes away. -/
lemma exists_slot (h : Swept p p') {s : Slot} (hs : p.slots[i]? = some s) :
    ∃ s', p'.slots[i]? = some s' ∧ s'.start = s.start ∧ s'.length = s.length := by
  rcases h.slot i with heq | heq
  · exact ⟨s,by rw [heq,hs],rfl,rfl⟩
  · exact ⟨s.closed,by rw [heq,hs]; rfl,rfl,rfl⟩

lemma trans (h : Swept p p') (h' : Swept p' p'') : Swept p p'' := by
  refine ⟨h'.size.trans h.size,fun i => ?_,fun q => ?_⟩
  · rcases h.slot i with heq | heq
    · rw [← heq]
      exact h'.slot i
    · rcases h'.slot i with heq' | heq'
      · exact .inr (heq'.trans heq)
      · rw [heq',heq,Option.map_map]
        exact .inr rfl
  · rcases h'.block q with heq' | ⟨hz,s',hmem,hq⟩
    · rw [heq']
      exact h.block q
    · obtain ⟨i,hs'⟩ := List.mem_iff_getElem?.mp hmem
      obtain ⟨s,hs,rfl | rfl⟩ := h.slot_eq hs'
      · exact .inr ⟨hz,s',List.mem_of_getElem? hs,hq⟩
      · exact .inr ⟨hz,s,List.mem_of_getElem? hs,hq⟩

lemma allocates (h : Swept p p') : p'.Allocates i ↔ p.Allocates i := by
  unfold Allocates
  rcases h.slot i with heq | heq
  · rw [heq]
  · rw [heq]
    cases p.slots[i]? <;> simp [Slot.closed,Slot.Allocatable]

lemma carries (h : Swept p p') {faults : ℕ → Fault} : p'.Carries faults i ↔ p.Carries faults i := by
  unfold Carries
  rcases h.slot i with heq | heq
  · rw [heq]
    simp only [Slot.Carried,h.size]
  · rw [heq]
    cases p.slots[i]? <;> simp [Slot.closed,Slot.Carried,Slot.wiped,h.size]

lemma numSlots (h : Swept p p') : p'.numSlots = p.numSlots := by
  have hiff : ∀ i, p'.slots.length ≤ i ↔ p.slots.length ≤ i := by
    intro i
    rw [← List.getElem?_eq_none_iff,← List.getElem?_eq_none_iff]
    rcases h.slot i with heq | heq
    · rw [heq]
    · rw [heq,Option.map_eq_none_iff]
  exact Nat.le_antisymm ((hiff _).mpr le_rfl) ((hiff _).mp le_rfl)

end Swept

/-- Slot `i` has no journal, and zeros where it was to be overwritten. -/
def Wiped (i : ℕ) (p : Partition M) : Prop :=
  ∀ s, p.slots[i]? = some s → s.journal = none ∧
    ∀ q, s.start ≤ q → q < s.start+s.wiped M → p.dev.block q = zeroBlock M

lemma Wiped.swept (hw : Wiped i p) (h : Swept p p') : Wiped i p' := by
  intro s' hs'
  obtain ⟨s,hs,hcases⟩ := h.slot_eq hs'
  obtain ⟨hj,hzero⟩ := hw s hs
  have hplace : s'.start = s.start ∧ s'.wiped M = s.wiped M ∧ s'.journal = none := by
    rcases hcases with rfl | rfl
    · exact ⟨rfl,rfl,hj⟩
    · exact ⟨rfl,rfl,rfl⟩
  obtain ⟨hstart,hwiped,hj'⟩ := hplace
  refine ⟨hj',fun q hs hq => ?_⟩
  rw [hstart] at hs hq
  rw [hwiped] at hq
  rcases h.block q with heq | ⟨hz,-⟩
  · exact heq.trans (hzero q hs hq)
  · exact hz

/-- One round of `Erase`. -/
lemma eraseSlot_spec (faults : ℕ → Fault) (hi : i < p.numSlots) :
    Swept p (p.eraseSlot (faults i) i).1 ∧
    (¬ p.Allocates i ∧ (∃ q, (p.eraseSlot (faults i) i).2 = .panic q) ∨ p.Allocates i ∧
      (p.Carries faults i ∧ (p.eraseSlot (faults i) i).2 = .ok () ∧ Wiped i (p.eraseSlot (faults i) i).1 ∨
        ¬ p.Carries faults i ∧ ∃ e, (p.eraseSlot (faults i) i).2 = .error e)) := by
  obtain ⟨s,hs⟩ : ∃ s, p.slots[i]? = some s := ⟨_,List.getElem?_eq_getElem hi⟩
  obtain ⟨k,r,hk,herase,hcases⟩ := s.erase_spec (faults i) i p.dev
  have halloc : p.Allocates i ↔ s.Allocatable M := by simp [Allocates,hs]
  have hcarries : p.Carries faults i ↔ s.Carried (faults i) p.dev := by simp [Carries,hs]
  have heq : p.eraseSlot (faults i) i =
      (⟨p.dev.store s.start k (List.replicate (M.wrap (s.length*M.blockSize)) 0),p.slots.set i s.closed⟩,r) := by
    simp only [eraseSlot,onSlot,hs,herase]
  rw [heq,halloc,hcarries]
  constructor
  · refine ⟨rfl,fun i' => ?_,fun q => ?_⟩
    · by_cases hii : i = i'
      · subst hii
        exact .inr (by rw [List.getElem?_set_self hi,hs]; rfl)
      · exact .inl (List.getElem?_set_ne hii)
    · by_cases hq : s.start ≤ q ∧ q < s.start+k
      · refine .inr ⟨?_,s,List.mem_of_getElem? hs,hq.1,by omega⟩
        exact (Blocks.store_inside _ _ hq.1 hq.2).trans (Slot.cut_replicate _ _)
      · exact .inl (p.dev.store_outside _ (by omega))
  · rcases hcases with hbig | ⟨halloc,⟨hcarried,hr,hkw⟩ | hfails⟩
    · exact .inl hbig
    · refine .inr ⟨halloc,.inl ⟨hcarried,hr,?_⟩⟩
      intro t ht
      have ht' : t = s.closed := by
        rw [List.getElem?_set_self hi] at ht
        exact (Option.some.inj ht).symm
      subst ht'
      refine ⟨rfl,fun q hq hq' => ?_⟩
      change s.start ≤ q at hq
      change q < s.start+s.wiped M at hq'
      exact (Blocks.store_inside _ _ hq (by omega)).trans (Slot.cut_replicate _ _)
    · exact .inr ⟨halloc,.inr hfails⟩

/-- What the calls of `eraseSlot` that the loop makes return. -/
def eraseResults (faults : ℕ → Fault) : List ℕ → Partition M → List (Outcome SlotError Unit)
  | [], _ => []
  | i::is, p =>
    match p.eraseSlot (faults i) i with
    | (_,.panic q) => [.panic q]
    | (p',r) => r::eraseResults faults is p'

section Loop
variable {faults : ℕ → Fault} {borked : Bool} {is : List ℕ}

/-- The loop panics at a slot that is too large, and goes on after any other. -/
lemma eraseLoop_cons (faults : ℕ → Fault) (borked : Bool) (is : List ℕ) (hi : i < p.numSlots) :
    (¬ p.Allocates i ∧ ∃ q, eraseLoop faults borked (i::is) p = ((p.eraseSlot (faults i) i).1,.panic q) ∧
      eraseResults faults (i::is) p = [.panic q]) ∨
    p.Allocates i ∧
      eraseLoop faults borked (i::is) p = eraseLoop faults borked is (p.eraseSlot (faults i) i).1 ∧
      eraseResults faults (i::is) p =
        (p.eraseSlot (faults i) i).2::eraseResults faults is (p.eraseSlot (faults i) i).1 := by
  have hcases := (eraseSlot_spec faults hi).2
  rw [eraseLoop,eraseResults]
  cases hr : p.eraseSlot (faults i) i with
  | mk p' r =>
    rw [hr] at hcases
    rcases hcases with ⟨hbig,q,rfl⟩ | ⟨halloc,⟨-,rfl,-⟩ | ⟨-,e,rfl⟩⟩
    · exact .inl ⟨hbig,q,rfl,rfl⟩
    · exact .inr ⟨halloc,rfl,rfl⟩
    · exact .inr ⟨halloc,rfl,rfl⟩

lemma eraseSlot_below (his : ∀ k ∈ i::is, k < p.numSlots) :
    ∀ k ∈ is, k < (p.eraseSlot (faults i) i).1.numSlots := by
  intro k hk
  rw [(eraseSlot_spec faults (his i List.mem_cons_self)).1.numSlots]
  exact his k (List.mem_cons_of_mem _ hk)

lemma eraseLoop_swept (p : Partition M) (his : ∀ i ∈ is, i < p.numSlots) :
    Swept p (eraseLoop faults borked is p).1 := by
  induction is generalizing p with
  | nil => exact .refl p
  | cons i is ih =>
    have hi := his i List.mem_cons_self
    have hstep := (eraseSlot_spec faults hi).1
    rcases eraseLoop_cons faults borked is hi with ⟨-,q,heq,-⟩ | ⟨-,heq,-⟩
    · rwa [heq]
    · rw [heq]
      exact hstep.trans (ih _ (eraseSlot_below his))

/-- The loop comes to its end if none of the slots is too large, and the flag that should
report a failed write is never set. -/
lemma eraseLoop_result (faults : ℕ → Fault) (borked : Bool) (p : Partition M) (his : ∀ i ∈ is, i < p.numSlots) :
    (∀ i ∈ is, p.Allocates i) ∧ (eraseLoop faults borked is p).2 = .ok borked ∨
    ¬ (∀ i ∈ is, p.Allocates i) ∧ ∃ q, (eraseLoop faults borked is p).2 = .panic q := by
  induction is generalizing p with
  | nil => exact .inl ⟨nofun,rfl⟩
  | cons i is ih =>
    have hi := his i List.mem_cons_self
    have hstep := (eraseSlot_spec faults hi).1
    have hrest := ih (p.eraseSlot (faults i) i).1 (eraseSlot_below his)
    simp only [hstep.allocates] at hrest
    rw [List.forall_mem_cons]
    rcases eraseLoop_cons faults borked is hi with ⟨hbig,q,heq,-⟩ | ⟨halloc,heq,-⟩
    · rw [heq]
      exact .inr ⟨fun hc => hbig hc.1,q,rfl⟩
    · rw [heq]
      exact hrest.imp (fun hc => ⟨⟨halloc,hc.1⟩,hc.2⟩) fun hc => ⟨fun hall => hc.1 hall.2,hc.2⟩

/-- No call of `eraseSlot` fails if the writes are carried out up to the first slot that is
too large. -/
lemma eraseResults_iff (p : Partition M) (his : ∀ i ∈ is, i < p.numSlots) (hsorted : is.Pairwise (· < ·)) :
    (∀ e, .error e ∉ eraseResults faults is p) ↔
      ∀ i ∈ is, (∀ k ∈ is, k ≤ i → p.Allocates k) → p.Carries faults i := by
  induction is generalizing p with
  | nil => simp [eraseResults]
  | cons i is ih =>
    have hi := his i List.mem_cons_self
    obtain ⟨hlt,hsorted⟩ := List.pairwise_cons.mp hsorted
    obtain ⟨hstep,hcases⟩ := eraseSlot_spec faults hi
    have hrest := ih (p.eraseSlot (faults i) i).1 (eraseSlot_below his) hsorted
    simp only [hstep.allocates,hstep.carries] at hrest
    rcases eraseLoop_cons faults false is hi with ⟨hbig,q,-,heq⟩ | ⟨halloc,-,heq⟩
    · rw [heq]
      refine iff_of_true (by simp) fun k hk hall => absurd (hall i List.mem_cons_self ?_) hbig
      rcases List.mem_cons.mp hk with rfl | hk
      · exact le_rfl
      · exact (hlt k hk).le
    · have hfirst : (∀ e, (p.eraseSlot (faults i) i).2 ≠ .error e) ↔ p.Carries faults i := by
        rcases hcases with ⟨hbig,-⟩ | ⟨-,⟨hc,hr,-⟩ | ⟨hc,e,hr⟩⟩
        · exact absurd halloc hbig
        · exact iff_of_true (by rw [hr]; nofun) hc
        · exact iff_of_false (fun hne => hne e hr) hc
      rw [heq]
      simp only [List.mem_cons,not_or,forall_and,hrest,forall_eq_or_imp]
      refine and_congr ?_ (forall₂_congr fun k hk => ?_)
      · rw [← hfirst]
        constructor
        · exact fun h _ e he => h e he.symm
        · exact fun h e he => h ⟨fun _ => halloc,fun k hk hle => absurd (hlt k hk) (Nat.not_lt_of_le hle)⟩ e he.symm
      · exact ⟨fun h hall => h hall.2,fun h hall => h ⟨fun _ => halloc,hall⟩⟩

/-- With all writes carried out, every slot is wiped. -/
lemma eraseLoop_wiped (p : Partition M) (his : ∀ i ∈ is, i < p.numSlots)
    (hall : ∀ i ∈ is, p.Allocates i ∧ p.Carries faults i) :
    ∀ i ∈ is, Wiped i (eraseLoop faults borked is p).1 := by
  induction is generalizing p with
  | nil => nofun
  | cons i is ih =>
    have hi := his i List.mem_cons_self
    obtain ⟨hstep,hcases⟩ := eraseSlot_spec faults hi
    obtain ⟨⟨halloc,hcarries⟩,hrest⟩ := List.forall_mem_cons.mp hall
    have hwiped : Wiped i (p.eraseSlot (faults i) i).1 := by
      rcases hcases with ⟨hbig,-⟩ | ⟨-,⟨-,-,hw⟩ | ⟨hc,-⟩⟩
      · exact absurd halloc hbig
      · exact hw
      · exact absurd hcarries hc
    rcases eraseLoop_cons faults borked is hi with ⟨hbig,-⟩ | ⟨-,heq,-⟩
    · exact absurd halloc hbig
    · rw [heq]
      refine List.forall_mem_cons.mpr ⟨hwiped.swept (eraseLoop_swept _ (eraseSlot_below his)),?_⟩
      refine ih _ (eraseSlot_below his) fun k hk => ?_
      rw [hstep.allocates,hstep.carries]
      exact hrest k hk

end Loop

variable (p) (faults : ℕ → Fault)

/-- `Erase` returns nil, unless it panics at a slot that is too large. -/
lemma erase_result : (∀ s ∈ p.slots, s.Allocatable M) ∧ (p.erase faults).2 = .ok () ∨
    ¬ (∀ s ∈ p.slots, s.Allocatable M) ∧ ∃ q, (p.erase faults).2 = .panic q := by
  have hiff : (∀ i ∈ List.range p.numSlots, p.Allocates i) ↔ ∀ s ∈ p.slots, s.Allocatable M := by
    constructor
    · intro h s hmem
      obtain ⟨i,hs⟩ := List.mem_iff_getElem?.mp hmem
      exact h i (List.mem_range.mpr (List.getElem?_eq_some_iff.mp hs).1) s hs
    · exact fun h i _ s hs => h s (List.mem_of_getElem? hs)
  rw [← hiff]
  rcases eraseLoop_result faults false p fun _ hi => List.mem_range.mp hi with ⟨hall,hok⟩ | ⟨hbig,q,hq⟩
  · exact .inl ⟨hall,by simp only [erase,hok,Outcome.bind_ok]; rfl⟩
  · exact .inr ⟨hbig,q,by simp only [erase,hq,Outcome.bind_panic]⟩

lemma erase_swept : Swept p (p.erase faults).1 := eraseLoop_swept p fun _ hi => List.mem_range.mp hi

/-- Slot `i` can be opened, reads as empty with revision 0, and its first successful
write gets revision 1. -/
structure ReadsEmpty (p : Partition M) (i : ℕ) : Prop where
  opens : (p.openSlot i).2 = .ok ()
  reads : ((p.openSlot i).1.read i).2 = .ok ([],0)
  writes : ∀ fault data, ((p.openSlot i).1.write fault i data).2 = .ok () →
    (((p.openSlot i).1.write fault i data).1.read i).2 = .ok (data,1)

/-- `Erase` has erased every slot and nothing else when it returns nil, and it has
returned an error when a write failed. -/
structure ErasesOrSaysSo (p : Partition M) (faults : ℕ → Fault) : Prop where
  erased : (p.erase faults).2 = .ok () → ∀ i, i < p.numSlots → (p.erase faults).1.ReadsEmpty i
  frame : (p.erase faults).2 = .ok () → ∀ q, (∀ s ∈ p.slots, q ∉ s.range) →
    (p.erase faults).1.dev.block q = p.dev.block q
  reported : ∀ e, .error e ∈ eraseResults faults (List.range p.numSlots) p →
    ∃ e', (p.erase faults).2 = .error e'

variable {p}

/-- A slot without journal reads as empty exactly if no record is seen in it. -/
lemma readsEmpty_iff {s : Slot} (hs : p.slots[i]? = some s) (hj : s.journal = none) :
    p.ReadsEmpty i ↔ ∀ q, s.start ≤ q → q < M.arith.uint (s.start+s.length : ℕ) → p.dev.sees q = .error () := by
  constructor
  · rintro ⟨hopens,hreads,-⟩ q hq hq'
    cases ho : openJournal p.dev s.start s.length with
    | error e =>
      rw [openSlot_error hs hj ho,read_eq hs,Slot.read,hj] at hreads
      cases hreads
    | panic r =>
      rw [openSlot_panic hs hj ho] at hopens
      cases hopens
    | ok j =>
      have hi := (List.getElem?_eq_some_iff.mp hs).1
      rw [openSlot_ok hs hj ho,read_eq (List.getElem?_set_self hi)] at hreads
      have hdata : j.data = ([],0) := Outcome.ok.inj hreads
      exact unseen_of_openJournal ho (congrArg Prod.snd hdata) hq hq'
  · intro h
    obtain ⟨j,ho,hzero⟩ : ∃ j, openJournal p.dev s.start s.length = .ok j ∧ j.current = Entry.zero :=
      ⟨_,openJournal_of_unseen h,rfl⟩
    have hi := (List.getElem?_eq_some_iff.mp hs).1
    have hset : (p.slots.set i {s with journal := some j})[i]? = some {s with journal := some j} :=
      List.getElem?_set_self hi
    refine ⟨by rw [openSlot_ok hs hj ho],?_,fun fault data hok => ?_⟩
    · rw [openSlot_ok hs hj ho,read_eq hset]
      change Outcome.ok (j.current.data,j.current.revision) = _
      rw [hzero]
      rfl
    · rw [openSlot_ok hs hj ho] at hok ⊢
      obtain ⟨d',j',r,heq,⟨-,hcur⟩ | ⟨hne,-⟩⟩ :=
        write_spec (p := ⟨p.dev,p.slots.set i {s with journal := some j}⟩) hset fault data rfl
      · rw [heq,read_eq (List.getElem?_set_self (by rwa [List.length_set]))]
        change Outcome.ok (j'.current.data,j'.current.revision) = _
        rw [hcur,Journal.newEntry,hzero]
        rfl
      · rw [heq] at hok
        exact absurd hok hne

section Erased
variable {faults : ℕ → Fault} (hall : ∀ i < p.numSlots, p.Allocates i ∧ p.Carries faults i)
include hall

lemma erase_wiped (hi : i < p.numSlots) : Wiped i (p.erase faults).1 :=
  eraseLoop_wiped p (fun _ hk => List.mem_range.mp hk) (fun k hk => hall k (List.mem_range.mp hk)) i
    (List.mem_range.mpr hi)

/-- With all writes carried out, the device is left with zeros in the blocks of the writes. -/
lemma erase_dev : (p.erase faults).1.dev = p.dev.zeroed p.slots := by
  have hswept := p.erase_swept faults
  refine Device.ext hswept.size (funext fun q => ?_)
  by_cases hq : ∃ s ∈ p.slots, s.start ≤ q ∧ q < s.start+s.wiped M
  · rw [show (p.dev.zeroed p.slots).block q = zeroBlock M from if_pos hq]
    obtain ⟨s,hmem,hs,hlt⟩ := hq
    obtain ⟨i,hi⟩ := List.mem_iff_getElem?.mp hmem
    obtain ⟨s',hs',hstart,hlength⟩ := hswept.exists_slot hi
    refine (erase_wiped hall (List.getElem?_eq_some_iff.mp hi).1 s' hs').2 q (hstart.trans_le hs) ?_
    rwa [hstart,Slot.wiped,hlength]
  · rw [show (p.dev.zeroed p.slots).block q = p.dev.block q from if_neg hq]
    exact (hswept.block q).resolve_right fun hc => hq hc.2

/-- A slot is then empty if no record is seen at the blocks that its write left out or that
are out of reach. -/
lemma erase_readsEmpty_iff {s : Slot} (hs : p.slots[i]? = some s) :
    (p.erase faults).1.ReadsEmpty i ↔ ∀ q, s.start ≤ q → q < M.arith.uint (s.start+s.length : ℕ) →
      (q < s.start+s.wiped M → M.space < q*M.blockSize+entryHeaderSize) →
      (p.dev.zeroed p.slots).sees q = .error () := by
  obtain ⟨s',hs',hstart,hlength⟩ := (p.erase_swept faults).exists_slot hs
  have hj := (erase_wiped hall (List.getElem?_eq_some_iff.mp hs).1 s' hs').1
  rw [readsEmpty_iff hs' hj,hstart,hlength,erase_dev hall]
  refine ⟨fun h q hq hq' _ => h q hq hq',fun h q hq hq' => ?_⟩
  by_cases hout : q < s.start+s.wiped M → M.space < q*M.blockSize+entryHeaderSize
  · exact h q hq hq' hout
  · obtain ⟨hlt,hreach⟩ := Classical.not_imp.mp hout
    have hzero : (p.dev.zeroed p.slots).block q = zeroBlock M :=
      if_pos ⟨s,List.mem_of_getElem? hs,hq,hlt⟩
    exact Device.sees_zero hzero (Nat.le_of_not_lt hreach)

end Erased
end Partition

/-- `Erase` erases or says so exactly if every write that it comes to is carried out and,
should it return, no record is left in a slot at a block that its write left out or whose
byte position is no machine integer. Only a slot whose length in bytes is no machine
integer has blocks of the first kind. -/
theorem erasesOrSaysSo_iff (p : Partition M) (faults : ℕ → Fault) : p.ErasesOrSaysSo faults ↔
    (∀ i < p.numSlots, (∀ k ≤ i, p.Allocates k) → p.Carries faults i) ∧
    ((∀ s ∈ p.slots, s.Allocatable M) → ∀ s ∈ p.slots, ∀ q, s.start ≤ q →
      q < M.arith.uint (s.start+s.length : ℕ) →
      (q < s.start+s.wiped M → M.space < q*M.blockSize+entryHeaderSize) →
      (p.dev.zeroed p.slots).sees q = .error ()) := by
  have hbelow : ∀ i ∈ List.range p.numSlots, i < p.numSlots := fun i hi => List.mem_range.mp hi
  have hiff : (∀ e, .error e ∉ Partition.eraseResults faults (List.range p.numSlots) p) ↔
      ∀ i < p.numSlots, (∀ k ≤ i, p.Allocates k) → p.Carries faults i := by
    rw [Partition.eraseResults_iff p hbelow List.pairwise_lt_range]
    simp only [List.mem_range]
    refine forall₂_congr fun i hi => ?_
    exact ⟨fun h hall => h fun k _ hle => hall k hle,fun h hall => h fun k hle => hall k (hle.trans_lt hi) hle⟩
  have hcarried : (∀ i < p.numSlots, (∀ k ≤ i, p.Allocates k) → p.Carries faults i) →
      (∀ s ∈ p.slots, s.Allocatable M) → ∀ i < p.numSlots, p.Allocates i ∧ p.Carries faults i := by
    intro h halloc i hi
    have hall : ∀ k, p.Allocates k := fun k s hs => halloc s (List.mem_of_getElem? hs)
    exact ⟨hall i,h i hi fun k _ => hall k⟩
  rw [← hiff] at hcarried ⊢
  constructor
  · rintro ⟨herased,-,hreported⟩
    have hres : ∀ e, .error e ∉ Partition.eraseResults faults (List.range p.numSlots) p := by
      intro e he
      obtain ⟨e',herr⟩ := hreported e he
      rcases p.erase_result faults with ⟨-,hok⟩ | ⟨-,q,hpanic⟩
      · cases hok.symm.trans herr
      · cases hpanic.symm.trans herr
    refine ⟨hres,fun halloc s hmem => ?_⟩
    obtain ⟨i,hs⟩ := List.mem_iff_getElem?.mp hmem
    have hok := ((p.erase_result faults).resolve_right fun hc => hc.1 halloc).2
    exact (Partition.erase_readsEmpty_iff (hcarried hres halloc) hs).mp
      (herased hok i (List.getElem?_eq_some_iff.mp hs).1)
  · rintro ⟨hres,hrest⟩
    refine ⟨fun hok i hi => ?_,fun _ q hq => ?_,fun e he => absurd he (hres e)⟩
    · have hs := List.getElem?_eq_getElem hi
      have halloc : ∀ s ∈ p.slots, s.Allocatable M := by
        rcases p.erase_result faults with ⟨halloc,-⟩ | ⟨-,q,hpanic⟩
        · exact halloc
        · cases hok.symm.trans hpanic
      exact (Partition.erase_readsEmpty_iff (hcarried hres halloc) hs).mpr
        (hrest halloc _ (List.mem_of_getElem? hs))
    · rcases (p.erase_swept faults).block q with heq | ⟨-,s,hmem,hin,hlt⟩
      · exact heq
      · exact absurd ⟨hin,hlt.trans_le (Nat.add_le_add_left (s.wiped_le M) _)⟩ (hq s hmem)

/-- One slot of six blocks, just opened on a blank device. -/
def openedSlot : Partition smallMachine :=
  ((⟨Device.zeros smallMachine 6,[⟨0,6,none⟩]⟩ : Partition smallMachine).openSlot 0).1

/-- The slot after "A" has been written to it. -/
def writtenSlot : Partition smallMachine := (openedSlot.write none 0 [0x41]).1

/-- The write that was to erase the slot fails, `Erase` returns nil, and the slot still
reads as it did before. -/
theorem failed_erase_unreported : Apart writtenSlot.slots ∧
    Partition.eraseResults (fun _ => some 0) (List.range 1) writtenSlot = [.error (.erase 0 0 288 (.device 0))] ∧
    (writtenSlot.erase fun _ => some 0).2 = .ok () ∧
    (((writtenSlot.erase fun _ => some 0).1.openSlot 0).1.read 0).2 = .ok ([0x41],1) ∧
    ¬ writtenSlot.ErasesOrSaysSo fun _ => some 0 := by
  have hone : writtenSlot.slots.length = 1 := by decide +kernel
  have hres : Partition.eraseResults (fun _ => some 0) (List.range 1) writtenSlot =
      [.error (.erase 0 0 288 (.device 0))] := by decide +kernel
  have hok : (writtenSlot.erase fun _ => some 0).2 = .ok () := by decide +kernel
  refine ⟨fun i j s t hij hs ht => ?_,hres,hok,by decide +kernel,fun h => ?_⟩
  · have hi := (List.getElem?_eq_some_iff.mp hs).1
    have hj := (List.getElem?_eq_some_iff.mp ht).1
    omega
  · rw [← hone] at hres
    obtain ⟨e,herr⟩ := h.reported (.erase 0 0 288 (.device 0))
      (by rw [Partition.numSlots,hres]; exact List.mem_singleton_self _)
    cases hok.symm.trans herr

end ArmoredWitness.Slots
