import ArmoredWitness.Slots.Layout
import ArmoredWitness.Slots.Locality

/-! The slots of a partition on the device: where they lie, what each operation on
one of them does, and that it leaves the others alone. -/
namespace ArmoredWitness.Slots
open Lib

variable {M : Machine}

/-- The byte positions of the partition are `uint`s, and an `int` can hold, and `make`
allocate, the sizes that occur. -/
structure Geometry.Addressed (M : Machine) (g : Geometry) : Prop where
  int_le : entryHeaderSize ≤ M.maxInt
  space : (g.start+g.slotLengths.sum)*M.blockSize ≤ M.space
  alloc : ∀ l ∈ g.slotLengths, M.wrap (l*M.blockSize)/minEntries ≤ M.maxAlloc

/-- The geometry is accepted, its addresses do not overflow, and its slots are on
the device, within reach, and hold zeros. -/
structure Geometry.Blank (g : Geometry) (d : Device M) : Prop where
  accepted : g.validate M = .ok ()
  addressed : g.Addressed M
  no_overflow : g.start+g.slotLengths.sum ≤ M.maxUint
  on_device : g.start+g.slotLengths.sum ≤ d.size
  zero : ∀ q, g.start ≤ q → q < g.start+g.slotLengths.sum → d.block q = zeroBlock M

namespace Geometry.Blank
variable {g : Geometry} {d : Device M} (h : g.Blank d)
include h

lemma openPartition : Slots.openPartition d g = .ok ⟨d,layout M g.start g.slotLengths⟩ := by
  rw [Slots.openPartition,h.accepted]
  rfl

lemma apart : Apart (layout M g.start g.slotLengths) := layout_apart h.no_overflow

/-- Every slot is blank. -/
lemma slot (hB : entryHeaderSize ≤ M.blockSize) (i : ℕ) (t : Slot)
    (ht : (layout M g.start g.slotLengths)[i]? = some t) : d.Blank (t.region hB) := by
  obtain ⟨hlo,hhi⟩ := layout_within h.no_overflow ht
  refine ⟨⟨h.addressed.int_le,(Nat.mul_le_mul_right _ hhi).trans h.addressed.space,?_⟩,
    hhi.trans h.on_device,fun q hq hq' => h.zero q (hlo.trans hq) (hq'.trans_le hhi)⟩
  obtain ⟨l,hl,rfl⟩ := layout_eq_some h.no_overflow ht
  exact h.addressed.alloc l (List.mem_of_getElem? hl)

end Geometry.Blank

namespace Partition
variable {p : Partition M} {i : ℕ} {s : Slot} {j : Journal} (hs : p.slots[i]? = some s)

/-- A method of a slot leaves the other slots alone. -/
lemma onSlot_slot_ne {ε α : Type} (f : Device M → Slot → Device M × Slot × Outcome ε α) {k : ℕ} (h : i ≠ k) :
    (p.onSlot i f).1.slots[k]? = p.slots[k]? := by
  unfold onSlot
  split
  · rfl
  · exact List.getElem?_set_ne h

lemma onSlot_numSlots {ε α : Type} (f : Device M → Slot → Device M × Slot × Outcome ε α) :
    (p.onSlot i f).1.numSlots = p.numSlots := by
  unfold onSlot
  split
  · rfl
  · exact List.length_set

lemma openSlot_slot_ne {k : ℕ} (h : i ≠ k) : (p.openSlot i).1.slots[k]? = p.slots[k]? := by
  unfold openSlot
  split_ifs
  · rfl
  · exact onSlot_slot_ne _ h

/-- Opening and reading a slot leave the device alone. -/
lemma openSlot_dev : (p.openSlot i).1.dev = p.dev := by
  unfold openSlot onSlot
  split_ifs
  · rfl
  · cases p.slots[i]? <;> rfl

lemma read_dev : (p.read i).1.dev = p.dev := by
  unfold read onSlot
  cases p.slots[i]? <;> rfl

lemma openSlot_numSlots : (p.openSlot i).1.numSlots = p.numSlots := by
  unfold openSlot
  split_ifs
  · rfl
  · exact onSlot_numSlots _

section Operations
include hs

lemma not_numSlots_le : ¬ p.numSlots ≤ i :=
  Nat.not_le_of_lt (List.getElem?_eq_some_iff.mp hs).1

lemma set_self : (⟨p.dev,p.slots.set i s⟩ : Partition M) = p := by
  obtain ⟨hi,rfl⟩ := List.getElem?_eq_some_iff.mp hs
  rw [List.set_getElem_self]

lemma read_eq : p.read i = (p,s.read) := by
  simp only [read,onSlot,hs,set_self hs]

lemma openSlot_eq : p.openSlot i =
    (⟨(s.openLogged p.dev).1,p.slots.set i (s.openLogged p.dev).2.1⟩,(s.openLogged p.dev).2.2) := by
  simp only [openSlot,if_neg (not_numSlots_le hs),onSlot,hs]

lemma openSlot_opened (hj : s.journal = some j) : p.openSlot i = (p,.ok ()) := by
  rw [openSlot_eq hs]
  simp only [Slot.openLogged,Slot.openSlot,hj,Slot.logged,set_self hs]

variable (hj : s.journal = none)
include hj

lemma openSlot_unopened : p.openSlot i =
    (⟨p.dev,p.slots.set i (Slot.logged (s.adopt (openJournal p.dev s.start s.length))).1⟩,
      (Slot.logged (s.adopt (openJournal p.dev s.start s.length))).2) := by
  simp only [openSlot_eq hs,Slot.openLogged,Slot.openSlot,hj]

lemma openSlot_ok (ho : openJournal p.dev s.start s.length = .ok j) :
    p.openSlot i = (⟨p.dev,p.slots.set i {s with journal := some j}⟩,.ok ()) := by
  rw [openSlot_unopened hs hj,ho]
  rfl

lemma openSlot_error {e : JournalError} (ho : openJournal p.dev s.start s.length = .error e) :
    p.openSlot i = (p,.ok ()) := by
  rw [openSlot_unopened hs hj,ho]
  exact Prod.ext (set_self hs) rfl

lemma openSlot_panic {q : Panic} (ho : openJournal p.dev s.start s.length = .panic q) :
    p.openSlot i = (p,.panic q) := by
  rw [openSlot_unopened hs hj,ho]
  exact Prod.ext (set_self hs) rfl

end Operations

section Writes
variable {fault : Fault} {token : UInt32} {data : List UInt8}
include hs

lemma checkAndWrite_unopened (hj : s.journal = none) :
    p.checkAndWrite fault i token data = (p,.panic .nilDereference) := by
  simp only [checkAndWrite,onSlot,hs,Slot.checkAndWrite,hj,set_self hs]

lemma checkAndWrite_stale (hj : s.journal = some j) (ht : j.current.revision ≠ token) :
    p.checkAndWrite fault i token data = (p,.error .invalidToken) := by
  simp only [checkAndWrite,onSlot,hs,Slot.checkAndWrite,hj,ht,ne_eq,not_false_iff,if_true,set_self hs]

lemma checkAndWrite_fresh (hj : s.journal = some j) (ht : j.current.revision = token) :
    p.checkAndWrite fault i token data = p.write fault i data := by
  simp only [checkAndWrite,write,onSlot,hs,Slot.checkAndWrite,hj,ht,ne_eq,not_true,if_false]

lemma write_unopened (hj : s.journal = none) : p.write fault i data = (p,.panic .nilDereference) := by
  simp only [write,onSlot,hs,Slot.write,hj,set_self hs]

omit hs in
lemma write_ne_invalidToken : (p.write fault i data).2 ≠ .error .invalidToken := by
  unfold write onSlot
  cases p.slots[i]? with
  | none => nofun
  | some s =>
    simp only [Slot.write]
    cases s.journal with
    | none => nofun
    | some j =>
      dsimp only
      cases (j.update fault.writeBlocks p.dev data).2.2 <;> simp

variable (fault data) in
/-- What a write does to its slot, however the device behaves and wherever the slot
lies: the new record is current if it returns nil, and the old one otherwise. -/
lemma write_spec (hj : s.journal = some j) : ∃ d' j' r,
    p.write fault i data = (⟨d',p.slots.set i {s with journal := some j'}⟩,r) ∧
    (r = .ok () ∧ j'.current = j.newEntry data ∨ r ≠ .ok () ∧ j'.current = j.current) := by
  have heq : p.write fault i data = (⟨(j.update fault.writeBlocks p.dev data).1,
      p.slots.set i {s with journal := some (j.update fault.writeBlocks p.dev data).2.1}⟩,
      (j.update fault.writeBlocks p.dev data).2.2.mapError .update) := by
    simp only [write,onSlot,hs,Slot.write,hj]
  refine ⟨_,_,_,heq,?_⟩
  rcases j.update_current fault.writeBlocks p.dev data with ⟨hok,hcur⟩ | ⟨hne,hcur⟩
  · exact .inl ⟨Outcome.mapError_eq_ok.mpr hok,hcur⟩
  · exact .inr ⟨fun hok => hne (Outcome.mapError_eq_ok.mp hok),hcur⟩

/-- A write with the token of the current record. -/
lemma checkAndWrite_eq {r : Region M} (hj : s.journal = some j) (ht : j.current.revision = token)
    (hp : j.Placed r) (hd : r.stop ≤ p.dev.size) : p.checkAndWrite fault i token data =
      (⟨p.dev.store (j.target M data) (j.stored fault data M) (j.newEntry data).bytes,
        p.slots.set i {s with journal := some (j.after fault data M)}⟩,
        (j.outcome fault data M).mapError .update) := by
  simp only [checkAndWrite,onSlot,hs,Slot.checkAndWrite,hj,ht,ne_eq,not_true,if_false,Slot.write,
    hp.update_eq hd]

end Writes

section Journals
/-- The journal of slot `i`, if the slot exists and is open. -/
def journal (p : Partition M) (i : ℕ) : Option Journal := (p.slots[i]?).bind Slot.journal

lemma journal_of_some (hs : p.slots[i]? = some s) : p.journal i = s.journal := by rw [journal,hs]; rfl

lemma exists_slot {j : Journal} (hj : p.journal i = some j) : ∃ s, p.slots[i]? = some s ∧ s.journal = some j :=
  Option.bind_eq_some_iff.mp hj

lemma journal_set (hs : p.slots[i]? = some s) (d : Device M) (s' : Slot) :
    (⟨d,p.slots.set i s'⟩ : Partition M).journal i = s'.journal :=
  journal_of_some (List.getElem?_set_self (List.getElem?_eq_some_iff.mp hs).1)

/-- A slot that `Open` has opened. -/
lemma openSlot_found (hs : p.slots[i]? = some s) (hj : s.journal = none)
    (h : (p.openSlot i).1.journal i = some j) : openJournal p.dev s.start s.length = .ok j := by
  cases ho : openJournal p.dev s.start s.length with
  | ok j' =>
    rw [openSlot_ok hs hj ho,journal_set hs] at h
    rw [Option.some.inj h]
  | error e =>
    rw [openSlot_error hs hj ho,journal_of_some hs,hj] at h
    cases h
  | panic q =>
    rw [openSlot_panic hs hj ho,journal_of_some hs,hj] at h
    cases h

lemma read_eq_ok {x : List UInt8 × UInt32} (h : (p.read i).2 = .ok x) : ∃ j, p.journal i = some j ∧ j.data = x := by
  cases hs : p.slots[i]? with
  | none => simp only [read,onSlot,hs,reduceCtorEq] at h
  | some s =>
    rw [read_eq hs,Slot.read] at h
    cases hj : s.journal with
    | none => simp only [hj,reduceCtorEq] at h
    | some j =>
      rw [hj] at h
      exact ⟨j,(journal_of_some hs).trans hj,Outcome.ok.inj h⟩

lemma checkAndWrite_eq_ok {j : Journal} (hj : p.journal i = some j) {fault : Fault} {token : UInt32}
    {data : List UInt8} (h : (p.checkAndWrite fault i token data).2 = .ok ()) : j.current.revision = token := by
  obtain ⟨s,hs,hjs⟩ := exists_slot hj
  by_contra hne
  rw [checkAndWrite_stale hs hjs hne] at h
  cases h

end Journals

variable {hB : entryHeaderSize ≤ M.blockSize} {slots : List Slot} {p' p'' : Partition M}

/-- Every slot of the partition is where it was laid out, on the device. -/
structure Framed (hB : entryHeaderSize ≤ M.blockSize) (slots : List Slot) (p : Partition M) : Prop where
  length : p.slots.length = slots.length
  slot : ∀ (i : ℕ) (t : Slot), slots[i]? = some t → ∃ s, p.slots[i]? = some s ∧ s.Fits (t.region hB)
  on_device : ∀ (i : ℕ) (t : Slot), slots[i]? = some t → (t.region hB).stop ≤ p.dev.size

/-- The partition before and after operations on slot `i`. -/
structure Touches (hB : entryHeaderSize ≤ M.blockSize) (slots : List Slot) (i : ℕ)
    (p p' : Partition M) : Prop where
  framed : p'.Framed hB slots
  slot : ∀ i', i' ≠ i → p'.slots[i']? = p.slots[i']?
  alike : ∀ (i' : ℕ) (t : Slot), i' ≠ i → slots[i']? = some t → p'.dev.Alike (t.region hB) p.dev

/-- A partition that was just opened. -/
lemma framed_new {d : Device M} (hnew : ∀ s ∈ slots, s.journal = none)
    (hd : ∀ (i : ℕ) (t : Slot), slots[i]? = some t → (t.region hB).stop ≤ d.size) :
    Framed hB slots ⟨d,slots⟩ := by
  refine ⟨rfl,fun i t ht => ⟨t,ht,rfl,rfl,fun j hj => ?_⟩,hd⟩
  rw [hnew t (List.mem_of_getElem? ht)] at hj
  cases hj

lemma Framed.missing (h : p.Framed hB slots) (ht : slots[i]? = none) : p.slots[i]? = none := by
  rw [List.getElem?_eq_none_iff] at ht ⊢
  rwa [h.length]

lemma Framed.laid_out (h : p.Framed hB slots) (hs : p.slots[i]? = some s) : ∃ t, slots[i]? = some t := by
  cases ht : slots[i]? with
  | none =>
    rw [h.missing ht] at hs
    cases hs
  | some t => exact ⟨t,rfl⟩

lemma Touches.refl (h : p.Framed hB slots) : Touches hB slots i p p :=
  ⟨h,fun _ _ => rfl,fun _ _ _ _ => .refl _ _⟩

/-- A store into the blocks of a slot, and a new state of the slot. -/
lemma Framed.store (h : p.Framed hB slots) (hap : Apart slots) {t : Slot} (ht : slots[i]? = some t)
    {s' : Slot} (hs' : s'.Fits (t.region hB)) {n k : ℕ} (b : List UInt8) (hn : t.start ≤ n)
    (hk : n+k ≤ t.start+t.length) : Touches hB slots i p ⟨p.dev.store n k b,p.slots.set i s'⟩ := by
  refine ⟨⟨by rw [List.length_set,h.length],fun i' t' ht' => ?_,fun i' t' ht' => h.on_device i' t' ht'⟩,
    fun i' hi => List.getElem?_set_ne (Ne.symm hi),fun i' t' hi ht' => .store_left b ?_⟩
  · obtain ⟨s,hs,hfits⟩ := h.slot i' t' ht'
    by_cases hii : i = i'
    · subst hii
      cases ht.symm.trans ht'
      exact ⟨s',List.getElem?_set_self (List.getElem?_eq_some_iff.mp hs).1,hs'⟩
    · exact ⟨s,by rwa [List.getElem?_set_ne hii],hfits⟩
  · have hdis := hap i i' t t' (Ne.symm hi) ht ht'
    change n+k ≤ t'.start ∨ t'.start+t'.length ≤ n
    omega

section Frames
variable (h : p.Framed hB slots) (hap : Apart slots)
include h

lemma Framed.read : Touches hB slots i p (p.read i).1 := by
  cases ht : slots[i]? with
  | none =>
    simp only [Partition.read,onSlot,h.missing ht]
    exact .refl h
  | some t =>
    obtain ⟨s,hs,-⟩ := h.slot i t ht
    rw [read_eq hs]
    exact .refl h

include hap

lemma Framed.openSlot (hb : ∀ t, slots[i]? = some t → p.dev.Bounded (t.region hB)) :
    Touches hB slots i p (p.openSlot i).1 := by
  cases ht : slots[i]? with
  | none =>
    have hle : p.numSlots ≤ i := List.getElem?_eq_none_iff.mp (h.missing ht)
    rw [Partition.openSlot,if_pos hle]
    exact .refl h
  | some t =>
    obtain ⟨s,hs,hfits⟩ := h.slot i t ht
    cases hj : s.journal with
    | some j =>
      rw [openSlot_opened hs hj]
      exact .refl h
    | none =>
      cases ho : openJournal p.dev s.start s.length with
      | error e =>
        rw [openSlot_error hs hj ho]
        exact .refl h
      | panic q =>
        rw [openSlot_panic hs hj ho]
        exact .refl h
      | ok j =>
        have hfits' : Slot.Fits {s with journal := some j} (t.region hB) := by
          refine ⟨hfits.start,hfits.length,fun j' hj' => ?_⟩
          cases hj'
          rw [hfits.start,hfits.length] at ho
          exact Journal.placed_of_open (hb t ht) ho
        have htouch := h.store hap ht hfits' (k := 0) [] le_rfl (Nat.le_add_right _ _)
        rw [Device.store_zero] at htouch
        rwa [openSlot_ok hs hj ho]

lemma Framed.checkAndWrite (fault : Fault) (token : UInt32) (data : List UInt8) :
    Touches hB slots i p (p.checkAndWrite fault i token data).1 := by
  cases ht : slots[i]? with
  | none =>
    simp only [Partition.checkAndWrite,onSlot,h.missing ht]
    exact .refl h
  | some t =>
    obtain ⟨s,hs,hfits⟩ := h.slot i t ht
    cases hj : s.journal with
    | none =>
      rw [checkAndWrite_unopened hs hj]
      exact .refl h
    | some j =>
      by_cases hrev : j.current.revision = token
      · have hp := hfits.journal j hj
        have hw := hp.target_within fault data
        rw [checkAndWrite_eq hs hj hrev hp (h.on_device i t ht)]
        have hfits' : Slot.Fits {s with journal := some (j.after fault data M)} (t.region hB) := by
          refine ⟨hfits.start,hfits.length,fun j' hj' => ?_⟩
          cases hj'
          exact hp.after_placed
        exact h.store hap ht hfits' _ hw.1 hw.2
      · rw [checkAndWrite_stale hs hj hrev]
        exact .refl h

end Frames
end Partition
end ArmoredWitness.Slots
