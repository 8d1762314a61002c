import ArmoredWitness.Slots.Frame

/-! Partitions whose slots hold logs. As long as every write is carried out or
refused as a whole, a slot shows its newest record, before and after the partition
is opened anew. -/
namespace ArmoredWitness.Slots
open Lib Lib.RingLog

variable {M : Machine}

/-- The write is carried out, or refused before anything is stored. -/
def Fault.Clean (fault : Fault) : Prop := fault = none ∨ fault = some 0

instance (fault : Fault) : Decidable fault.Clean := inferInstanceAs (Decidable (_ ∨ _))

lemma Holds.congr {d d' : Device M} {r : Region M} {F : Entry → Prop} {p c e : ℕ} {x : Option Entry}
    (h : Holds d r F p c x e) (ha : d'.Alike r d) : Holds d' r F p c x e :=
  ⟨h.tidy.congr ha,h.live.congr fun _ hs hq => h.tidy.tape_eq ha hs hq⟩

lemma Holds.placed {d : Device M} {r : Region M} {F : Entry → Prop} {p c e : ℕ} {x : Option Entry}
    {j : Journal} (h : Holds d r F p c x e) (ht : j.Tracks r x e) : j.Placed r := by
  have hle := h.live.chain.le_last
  have hstart := h.live.start_le
  have hend := h.live.end_le
  have hstop : r.stop = r.start+r.length := rfl
  refine ⟨ht.on,?_,?_⟩
  · rcases ht.next with hn | hn <;> omega
  · rcases ht.next with hn | hn <;> omega

/-- The region of the slot holds a log with the newest record `x`, and the journal,
once opened, matches it. -/
structure Slot.Stores (d : Device M) (r : Region M) (x : Option Entry) (s : Slot) : Prop where
  start : s.start = r.start
  length : s.length = r.length
  log : ∃ p c e, Holds d r (fun _ => False) p c x e ∧ ∀ j, s.journal = some j → j.Tracks r x e

namespace Slot.Stores
variable {d d' : Device M} {r : Region M} {x : Option Entry} {s : Slot} {j : Journal}
  {data : List UInt8}

lemma congr (h : s.Stores d r x) (ha : d'.Alike r d) : s.Stores d' r x := by
  obtain ⟨p,c,e,hh,ht⟩ := h.log
  exact ⟨h.start,h.length,p,c,e,hh.congr ha,ht⟩

lemma fits (h : s.Stores d r x) : s.Fits r := by
  obtain ⟨p,c,e,hh,ht⟩ := h.log
  exact ⟨h.start,h.length,fun j hj => hh.placed (ht j hj)⟩

lemma on_device (h : s.Stores d r x) : r.stop ≤ d.size := by
  obtain ⟨p,c,e,hh,-⟩ := h.log
  exact hh.tidy.on_device

lemma settled (h : s.Stores d r x) (hj : s.journal = some j) : Settled d j r x := by
  obtain ⟨p,c,e,hh,ht⟩ := h.log
  exact ⟨p,c,e,hh,ht j hj⟩

lemma current (h : s.Stores d r x) (hj : s.journal = some j) : j.current = x.getD Entry.zero := by
  obtain ⟨p,c,e,-,ht⟩ := h.log
  exact (ht j hj).current

lemma blank (h : d.Blank r) (hs : s.start = r.start) (hl : s.length = r.length)
    (hj : s.journal = none) : s.Stores d r none := by
  refine ⟨hs,hl,_,_,_,.blank h,fun j hj' => ?_⟩
  rw [hj] at hj'
  cases hj'

/-- The slot in a partition that is opened anew. -/
lemma unopened (h : s.Stores d r x) {s' : Slot} (hs : s'.start = r.start) (hl : s'.length = r.length)
    (hj : s'.journal = none) : s'.Stores d r x := by
  obtain ⟨p,c,e,hh,-⟩ := h.log
  refine ⟨hs,hl,p,c,e,hh,fun j hj' => ?_⟩
  rw [hj] at hj'
  cases hj'

/-- Opening the journal finds the newest record. -/
lemma openJournal (h : s.Stores d r x) : ∃ j, Slots.openJournal d s.start s.length = .ok j ∧
    Slot.Stores d r x {s with journal := some j} := by
  obtain ⟨p,c,e,hh,-⟩ := h.log
  obtain ⟨x',p',c',e',hopen,hholds,⟨rfl,-,-⟩ | ⟨y,-,hF,-⟩⟩ := hh.openJournal
  · refine ⟨_,by rw [h.start,h.length]; exact hopen,h.start,h.length,p',c',e',hholds,fun j hj => ?_⟩
    cases hj
    refine ⟨⟨hholds.tidy.addressed,rfl,rfl,rfl⟩,rfl,?_⟩
    by_cases he : r.stop ≤ e'
    · exact .inr (if_pos he)
    · exact .inl (if_neg he)
  · exact hF.elim

/-- A write that is carried out. -/
lemma write (h : s.Stores d r x) (hj : s.journal = some j) (hrev : j.current.revision.toNat+1 < 2^32)
    (ha : j.Accepts data) (hfree : FreeOfMagic M data) :
    Slot.Stores (d.store (j.target M data) (j.stored none data M) (j.newEntry data).bytes) r
      (some (j.newEntry data)) {s with journal := some (j.after none data M)} := by
  obtain ⟨p,c,e,hh,ht,-⟩ := (h.settled hj).store_all hrev ha hfree
  have hstored : j.stored none data M = numBlocks M (entryHeaderSize+data.length) := if_pos ha
  have hafter : j.after none data M = {j with
      nextBlock := j.target M data+numBlocks M (entryHeaderSize+data.length)
      current := j.newEntry data} := if_pos ha
  rw [hstored,hafter]
  refine ⟨h.start,h.length,p,c,e,hh,fun j' hj' => ?_⟩
  cases hj'
  exact ht

/-- A write that is refused: the journal may have moved to the start of the region. -/
lemma refuse (h : s.Stores d r x) (hj : s.journal = some j) {fault : Fault} (hclean : fault.Clean)
    (hno : fault = none → ¬ j.Accepts data) :
    Slot.Stores (d.store (j.target M data) (j.stored fault data M) (j.newEntry data).bytes) r x
      {s with journal := some (j.after fault data M)} := by
  obtain ⟨p,c,e,hh,ht⟩ := h.log
  have htrack := ht j hj
  by_cases ha : j.Accepts data
  · rcases hclean with rfl | rfl
    · exact absurd ha (hno rfl)
    · have hstored : j.stored (some 0) data M = 0 := by
        unfold Journal.stored
        rw [if_pos ha]
        exact Nat.zero_min _
      have hafter : j.after (some 0) data M = {j with nextBlock := j.target M data} := if_pos ha
      rw [hstored,hafter,d.store_zero]
      refine ⟨h.start,h.length,p,c,e,hh,fun j' hj' => ?_⟩
      cases hj'
      refine ⟨⟨htrack.on.addressed,htrack.on.start,htrack.on.length,htrack.on.maxDataBytes⟩,htrack.current,?_⟩
      rcases hh.target_cases htrack ha with ⟨-,htarget,-⟩ | ⟨htarget,-⟩
      · exact .inl htarget
      · exact .inr htarget
  · have hstored : j.stored fault data M = 0 := if_neg ha
    have hafter : j.after fault data M = j := if_neg ha
    rw [hstored,hafter,d.store_zero]
    refine ⟨h.start,h.length,p,c,e,hh,fun j' hj' => ?_⟩
    cases hj'
    exact htrack

end Slot.Stores

namespace Partition
variable {hB : entryHeaderSize ≤ M.blockSize} {slots : List Slot} {content : ℕ → Option Entry}
  {p : Partition M} {i : ℕ} {t : Slot}

/-- Every slot holds a log, with the newest record that `content` gives. -/
structure Holding (hB : entryHeaderSize ≤ M.blockSize) (slots : List Slot) (content : ℕ → Option Entry)
    (p : Partition M) : Prop where
  length : p.slots.length = slots.length
  slot : ∀ (i : ℕ) (t : Slot), slots[i]? = some t →
    ∃ s, p.slots[i]? = some s ∧ s.Stores p.dev (t.region hB) (content i)

namespace Holding

lemma framed (h : p.Holding hB slots content) : p.Framed hB slots := by
  refine ⟨h.length,fun i t ht => ?_,fun i t ht => ?_⟩
  · obtain ⟨s,hs,hst⟩ := h.slot i t ht
    exact ⟨s,hs,hst.fits⟩
  · obtain ⟨s,-,hst⟩ := h.slot i t ht
    exact hst.on_device

lemma bounded (h : p.Holding hB slots content) {i : ℕ} {t : Slot} (ht : slots[i]? = some t) :
    p.dev.Bounded (t.region hB) := by
  obtain ⟨s,-,hst⟩ := h.slot i t ht
  obtain ⟨q,c,e,hh,-⟩ := hst.log
  exact hh.tidy.bounded

/-- An operation on slot `i` that leaves a log with the newest record `x` in it. -/
lemma touch (h : p.Holding hB slots content) {p' : Partition M} (htouch : p.Touches hB slots i p')
    {x : Option Entry}
    (hnew : ∀ t, slots[i]? = some t → ∃ s, p'.slots[i]? = some s ∧ s.Stores p'.dev (t.region hB) x) :
    p'.Holding hB slots (Function.update content i x) := by
  refine ⟨htouch.framed.length,fun i' t' ht' => ?_⟩
  by_cases hi : i' = i
  · subst hi
    rw [Function.update_self]
    exact hnew t' ht'
  · rw [Function.update_of_ne hi,htouch.slot i' hi]
    obtain ⟨s,hs,hst⟩ := h.slot i' t' ht'
    exact ⟨s,hs,hst.congr (htouch.alike i' t' hi ht')⟩

/-- A new partition on a blank device. -/
lemma blank {g : Geometry} {d : Device M} (h : g.Blank d) :
    Holding hB (layout M g.start g.slotLengths) (fun _ => none)
      ⟨d,layout M g.start g.slotLengths⟩ :=
  ⟨rfl,fun i t ht => ⟨t,ht,.blank (h.slot hB i t ht) rfl rfl
    (layout_unopened _ _ _ t (List.mem_of_getElem? ht))⟩⟩

/-- A new partition on the device of an old one. -/
lemma reopen (h : p.Holding hB slots content) (hnew : ∀ s ∈ slots, s.journal = none) :
    Holding hB slots content ⟨p.dev,slots⟩ := by
  refine ⟨rfl,fun i t ht => ?_⟩
  obtain ⟨s,-,hst⟩ := h.slot i t ht
  exact ⟨t,ht,hst.unopened rfl rfl (hnew t (List.mem_of_getElem? ht))⟩

/-- Opening a slot never fails, and leaves an open journal. -/
theorem openSlot (h : p.Holding hB slots content) (hap : Apart slots) (ht : slots[i]? = some t) :
    ∃ p' s j, p.openSlot i = (p',.ok ()) ∧ p'.Holding hB slots content ∧ p.Touches hB slots i p' ∧
      p'.slots[i]? = some s ∧ s.journal = some j := by
  have htouch := h.framed.openSlot hap (i := i) fun _ => h.bounded
  obtain ⟨s,hs,hst⟩ := h.slot i t ht
  cases hj : s.journal with
  | some j => exact ⟨p,s,j,openSlot_opened hs hj,h,.refl h.framed,hs,hj⟩
  | none =>
    obtain ⟨j,ho,hst'⟩ := hst.openJournal
    have heq := openSlot_ok hs hj ho
    have hslot := List.getElem?_set_self (a := {s with journal := some j})
      (List.getElem?_eq_some_iff.mp hs).1
    rw [heq] at htouch
    refine ⟨_,_,j,heq,?_,htouch,hslot,rfl⟩
    have hnew := h.touch htouch (x := content i) fun t' ht' => ?_
    · rwa [Function.update_eq_self] at hnew
    · cases ht.symm.trans ht'
      exact ⟨_,hslot,hst'⟩

section Open
variable {s : Slot} {j : Journal} (h : p.Holding hB slots content) (hs : p.slots[i]? = some s)
  (hj : s.journal = some j)
include h hs hj

/-- An open slot shows the newest record. -/
lemma current : j.current = (content i).getD Entry.zero := by
  obtain ⟨t,ht⟩ := h.framed.laid_out hs
  obtain ⟨s',hs',hst⟩ := h.slot i t ht
  cases hs.symm.trans hs'
  exact hst.current hj

lemma read : p.read i = (p,.ok (((content i).getD Entry.zero).data,((content i).getD Entry.zero).revision)) := by
  rw [read_eq hs,Slot.read,hj]
  simp only [Journal.data,h.current hs hj]

/-- A write with the current token is carried out, or refused with nothing stored. -/
theorem checkAndWrite (hap : Apart slots) {fault : Fault} (hclean : fault.Clean) (data : List UInt8)
    (hrev : ((content i).getD Entry.zero).revision.toNat+1 < 2^32) (hfree : FreeOfMagic M data) :
    ∃ p' s' j', p.Touches hB slots i p' ∧ p'.slots[i]? = some s' ∧ s'.journal = some j' ∧
      (p.checkAndWrite fault i ((content i).getD Entry.zero).revision data = (p',.ok ()) ∧
        p'.Holding hB slots (Function.update content i (some (j.newEntry data))) ∨
      ∃ e, p.checkAndWrite fault i ((content i).getD Entry.zero).revision data = (p',.error e) ∧
        p'.Holding hB slots content) := by
  obtain ⟨t,ht⟩ := h.framed.laid_out hs
  obtain ⟨s',hs',hst⟩ := h.slot i t ht
  cases hs.symm.trans hs'
  have hcur := h.current hs hj
  have htouch := h.framed.checkAndWrite hap (i := i) fault j.current.revision data
  have heq : p.checkAndWrite fault i j.current.revision data = _ :=
    checkAndWrite_eq hs hj rfl (hst.fits.journal j hj) (h.framed.on_device i t ht)
  have hslot := List.getElem?_set_self (a := {s with journal := some (j.after fault data M)})
    (List.getElem?_eq_some_iff.mp hs).1
  rw [heq] at htouch
  rw [← hcur] at hrev ⊢
  refine ⟨_,_,_,htouch,hslot,rfl,?_⟩
  rcases Journal.outcome_cases M j fault data with ⟨⟨rfl,ha⟩,hout,-⟩ | ⟨hno,e,hout,-⟩
  · refine .inl ⟨heq.trans (by rw [hout]; rfl),h.touch htouch fun t' ht' => ?_⟩
    cases ht.symm.trans ht'
    exact ⟨_,hslot,hst.write hj hrev ha hfree⟩
  · have hkept := hst.refuse hj hclean fun hf ha => hno ⟨hf,ha⟩
    have hnew := h.touch htouch (x := content i) fun t' ht' => ?_
    · rw [Function.update_eq_self] at hnew
      exact .inr ⟨.update e,heq.trans (by rw [hout]; rfl),hnew⟩
    · cases ht.symm.trans ht'
      exact ⟨_,hslot,hkept⟩

end Open
end Holding
end Partition
end ArmoredWitness.Slots
