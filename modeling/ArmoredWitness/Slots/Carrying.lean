import ArmoredWitness.Slots.Frame
import ArmoredWitness.Slots.Spill

/-! What the readers of a partition see while one process works on it. Writes may fail
at any point and leave anything behind in the blocks of their slot: an open slot is read
from memory, and one that is not yet open has not been written to. -/
namespace ArmoredWitness.Slots
open Lib

variable {M : Machine} {r : Region M} {d d' : Device M}

/-- An update, on any device: it stores a part of the region, and the new record is
current if it returns nil. -/
lemma Journal.Placed.update_spec {j : Journal} (h : j.Placed r) (d : Device M) (fault : Fault)
    (data : List UInt8) : ∃ k j' res,
      j.update fault.writeBlocks d data = (d.store (j.target M data) k (j.newEntry data).bytes,j',res) ∧
      r.start ≤ j.target M data ∧ j.target M data+k ≤ r.stop ∧ j'.Placed r ∧
      (res = .ok () ∧ j'.current = j.newEntry data ∨ res ≠ .ok () ∧ j'.current = j.current) := by
  by_cases ha : j.Accepts data
  · have hwithin := h.target_within none data
    have hstored : j.stored none data M = numBlocks M (entryHeaderSize+data.length) := if_pos ha
    have hmoved : Journal.Placed {j with nextBlock := j.target M data} r := by
      have hafter : (j.after (some 0) data M).Placed r := h.after_placed
      rwa [show j.after (some 0) data M = {j with nextBlock := j.target M data} from if_pos ha] at hafter
    rw [hstored] at hwithin
    cases fault with
    | some k =>
      have hle := Nat.min_le_right k (numBlocks M (entryHeaderSize+data.length))
      exact ⟨_,_,_,Journal.update_writePrefix ha k,hwithin.1,by omega,hmoved,.inr ⟨by rintro ⟨⟩,rfl⟩⟩
    | none =>
      by_cases hfit : j.target M data+numBlocks M (entryHeaderSize+data.length) ≤ d.size
      · have hafter : (j.after none data M).Placed r := h.after_placed
        rw [show j.after none data M = {j with
          nextBlock := j.target M data+numBlocks M (entryHeaderSize+data.length)
          current := j.newEntry data} from if_pos ha] at hafter
        exact ⟨_,_,_,Journal.update_writeBlocks ha h.on.addressed hwithin.2 hfit,hwithin.1,hwithin.2,hafter,
          .inl ⟨rfl,rfl⟩⟩
      · have hlen : (j.newEntry data).bytes.length = entryHeaderSize+data.length := bytes_length _ _
        have heq : j.update (Fault.writeBlocks none) d data = (d.store (j.target M data) 0 (j.newEntry data).bytes,
            {j with nextBlock := j.target M data},.error (.write (.device (j.target M data)))) := by
          rw [Journal.update_accepted ha,d.store_zero]
          simp only [Fault.writeBlocks,writeBlocks,hlen,if_neg hfit,Journal.installIn]
        exact ⟨0,_,_,heq,hwithin.1,by omega,hmoved,.inr ⟨by rintro ⟨⟩,rfl⟩⟩
  · have hwithin := h.target_within none data
    have heq : j.update fault.writeBlocks d data = (d.store (j.target M data) 0 (j.newEntry data).bytes,j,
        .error (.tooLarge data.length j.maxDataBytes)) := by
      rw [d.store_zero]
      exact Journal.update_tooLarge _ ha
    exact ⟨0,j,_,heq,hwithin.1,by omega,h,.inr ⟨by rintro ⟨⟩,rfl⟩⟩

/-- A journal that was opened with the same next block as one that is placed. -/
lemma Journal.Placed.of_open {j j' : Journal} (h : j.Placed r) (ho : openJournal d r.start r.length = .ok j')
    (hnext : j'.nextBlock = j.nextBlock) : j'.Placed r := by
  refine ⟨?_,hnext ▸ h.start_le,hnext ▸ h.le_stop⟩
  obtain ⟨⟨last,next⟩,-,rfl⟩ := Outcome.map_eq_ok.mp ho
  exact ⟨h.on.addressed,rfl,rfl,maxDataBytesIn_machine h.on.addressed.int_le _⟩

/-- The slot shows this data and this token, or will once it is opened, whatever happens
outside its blocks until then. -/
structure Slot.Shows (d : Device M) (r : Region M) (x : List UInt8 × UInt32) (s : Slot) : Prop where
  fits : s.Fits r
  opened : ∀ j, s.journal = some j → j.data = x
  unopened : s.journal = none → ∀ d', d.Agree d' r.start r.stop →
    ∃ j, openJournal d' r.start r.length = .ok j ∧ j.Placed r ∧ j.data = x

namespace Slot.Shows
variable {x : List UInt8 × UInt32} {s : Slot} {j : Journal}

lemma congr (h : s.Shows d r x) (ha : d.Agree d' r.start r.stop) : s.Shows d' r x :=
  ⟨h.fits,h.opened,fun hj d'' ha' => h.unopened hj d'' (ha.trans ha')⟩

lemma of_open (hfits : s.Fits r) (hj : s.journal = some j) (hx : j.data = x) : s.Shows d r x := by
  refine ⟨hfits,fun j' hj' => ?_,fun hnone => ?_⟩
  · cases hj.symm.trans hj'
    exact hx
  · cases hnone.symm.trans hj

lemma openJournal (h : s.Shows d r x) (hj : s.journal = none) : ∃ j,
    Slots.openJournal d s.start s.length = .ok j ∧ Slot.Shows d r x {s with journal := some j} := by
  obtain ⟨j,ho,hp,hx⟩ := h.unopened hj d fun _ _ _ => rfl
  refine ⟨j,by rw [h.fits.start,h.fits.length]; exact ho,
    .of_open ⟨h.fits.start,h.fits.length,fun j' hj' => ?_⟩ rfl hx⟩
  cases hj'
  exact hp

end Slot.Shows

namespace Partition
variable {hB : entryHeaderSize ≤ M.blockSize} {slots : List Slot} {content : ℕ → List UInt8 × UInt32}
  {p : Partition M} {i : ℕ} {t : Slot}

/-- Every slot shows what `content` says. -/
structure Carrying (hB : entryHeaderSize ≤ M.blockSize) (slots : List Slot)
    (content : ℕ → List UInt8 × UInt32) (p : Partition M) : Prop where
  length : p.slots.length = slots.length
  slot : ∀ (i : ℕ) (t : Slot), slots[i]? = some t →
    ∃ s, p.slots[i]? = some s ∧ s.Shows p.dev (t.region hB) (content i)

/-- No block belongs to two slots. -/
def Separate (slots : List Slot) : Prop := ∀ (k k' : ℕ) (s s' : Slot), k ≠ k' → slots[k]? = some s →
  slots[k']? = some s' → Disjoint s.range s'.range

section Keeping
variable {j : Journal}

/-- An open slot stays open. -/
lemma openSlot_keeps {k : ℕ} (h : ∃ j, p.journal k = some j) : ∃ j, (p.openSlot i).1.journal k = some j := by
  obtain ⟨j,hj⟩ := h
  by_cases hk : i = k
  · subst hk
    obtain ⟨s,hs,hjs⟩ := exists_slot hj
    rw [openSlot_opened hs hjs]
    exact ⟨j,hj⟩
  · rw [journal,openSlot_slot_ne hk]
    exact ⟨j,hj⟩

lemma checkAndWrite_keeps {k : ℕ} (fault : Fault) (token : UInt32) (data : List UInt8)
    (h : ∃ j, p.journal k = some j) : ∃ j, (p.checkAndWrite fault i token data).1.journal k = some j := by
  obtain ⟨j,hj⟩ := h
  by_cases hk : i = k
  · subst hk
    obtain ⟨s,hs,hjs⟩ := exists_slot hj
    by_cases ht : j.current.revision = token
    · obtain ⟨d',j',r,hw,-⟩ := write_spec hs fault data hjs
      rw [checkAndWrite_fresh hs hjs ht,hw]
      exact ⟨j',journal_set hs _ _⟩
    · rw [checkAndWrite_stale hs hjs ht]
      exact ⟨j,hj⟩
  · rw [checkAndWrite,journal,onSlot_slot_ne _ hk]
    exact ⟨j,hj⟩

end Keeping

namespace Carrying

lemma laid_out (h : p.Carrying hB slots content) {s : Slot} (hs : p.slots[i]? = some s) :
    ∃ t, slots[i]? = some t := by
  have hi := (List.getElem?_eq_some_iff.mp hs).1
  rw [h.length] at hi
  exact ⟨_,List.getElem?_eq_getElem hi⟩

/-- A new state of slot `i`, and a store into its blocks. -/
lemma store (h : p.Carrying hB slots content) (hsep : Separate slots) (ht : slots[i]? = some t) {n k : ℕ}
    {b : List UInt8} (hn : t.start ≤ n) (hk : n+k ≤ t.start+t.length) {s' : Slot} {x : List UInt8 × UInt32}
    (hs' : s'.Shows (p.dev.store n k b) (t.region hB) x) :
    Carrying hB slots (Function.update content i x) ⟨p.dev.store n k b,p.slots.set i s'⟩ := by
  refine ⟨by rw [List.length_set,h.length],fun i' t' ht' => ?_⟩
  obtain ⟨s,hs,hshows⟩ := h.slot i' t' ht'
  by_cases hi : i' = i
  · subst hi
    cases ht.symm.trans ht'
    rw [Function.update_self]
    exact ⟨s',List.getElem?_set_self (List.getElem?_eq_some_iff.mp hs).1,hs'⟩
  · rw [Function.update_of_ne hi]
    refine ⟨s,by rwa [List.getElem?_set_ne (Ne.symm hi)],hshows.congr fun q hq hq' => ?_⟩
    have hout : q < n ∨ n+k ≤ q := by
      by_contra hin
      have hmem : q ∈ t.range := ⟨by omega,by omega⟩
      exact Set.disjoint_left.mp (hsep i i' t t' (Ne.symm hi) ht ht') hmem ⟨hq,hq'⟩
    funext buf
    simp only [Device.readBlocks,Device.store_size,Device.store_outside _ b hout]

variable (hsep : Separate slots)
include hsep

/-- Opening a slot succeeds, and changes nothing for the readers. -/
theorem openSlot (h : p.Carrying hB slots content) (ht : slots[i]? = some t) :
    (p.openSlot i).2 = .ok () ∧ (p.openSlot i).1.Carrying hB slots content ∧
      ∃ j, (p.openSlot i).1.journal i = some j := by
  obtain ⟨s,hs,hshows⟩ := h.slot i t ht
  cases hj : s.journal with
  | some j =>
    rw [openSlot_opened hs hj]
    exact ⟨rfl,h,j,(journal_of_some hs).trans hj⟩
  | none =>
    obtain ⟨j,ho,hopened⟩ := hshows.openJournal hj
    rw [openSlot_ok hs hj ho]
    refine ⟨rfl,?_,j,journal_set hs _ _⟩
    have hkept : ({s with journal := some j} : Slot).Shows (p.dev.store t.start 0 []) (t.region hB) (content i) := by
      rwa [Device.store_zero]
    have hstore := h.store hsep ht le_rfl (Nat.le_add_right _ _) hkept
    rwa [Device.store_zero,Function.update_eq_self] at hstore

/-- A conditional write succeeds only with the token that the readers get, and only then
they get the new data. -/
theorem checkAndWrite (h : p.Carrying hB slots content) {j : Journal} (hj : p.journal i = some j) (fault : Fault)
    (token : UInt32) (data : List UInt8) :
    (p.checkAndWrite fault i token data).2 = .ok () ∧ token = (content i).2 ∧
      (p.checkAndWrite fault i token data).1.Carrying hB slots (Function.update content i (data,token+1)) ∨
    (p.checkAndWrite fault i token data).2 ≠ .ok () ∧
      (p.checkAndWrite fault i token data).1.Carrying hB slots content := by
  obtain ⟨s,hs,hjs⟩ := exists_slot hj
  obtain ⟨t,ht⟩ := h.laid_out hs
  obtain ⟨s',hs',hshows⟩ := h.slot i t ht
  cases hs.symm.trans hs'
  have hx := hshows.opened j hjs
  by_cases hrev : j.current.revision = token
  · obtain ⟨k,j',res,hup,hstart,hstop,hplaced,hres⟩ :=
      (hshows.fits.journal j hjs).update_spec p.dev fault data
    have heq : p.checkAndWrite fault i token data =
        (⟨p.dev.store (j.target M data) k (j.newEntry data).bytes,p.slots.set i {s with journal := some j'}⟩,
          res.mapError .update) := by
      rw [checkAndWrite_fresh hs hjs hrev]
      simp only [Partition.write,onSlot,hs,Slot.write,hjs,hup]
    have hfits : Slot.Fits {s with journal := some j'} (t.region hB) := by
      refine ⟨hshows.fits.start,hshows.fits.length,fun j'' hj'' => ?_⟩
      cases hj''
      exact hplaced
    have hstore := fun x hx => h.store hsep ht (b := (j.newEntry data).bytes) hstart hstop
      (.of_open hfits rfl (x := x) hx)
    rw [heq]
    rcases hres with ⟨rfl,hcur⟩ | ⟨hne,hcur⟩
    · refine .inl ⟨rfl,by rw [← hx]; exact hrev.symm,hstore _ ?_⟩
      rw [Journal.data,hcur,← hrev]
      rfl
    · refine .inr ⟨fun hok => hne (Outcome.mapError_eq_ok.mp hok),?_⟩
      have hsame := hstore (content i) (by rw [Journal.data,hcur]; exact hx)
      rwa [Function.update_eq_self] at hsame
  · rw [checkAndWrite_stale hs hjs hrev]
    exact .inr ⟨by rintro ⟨⟩,h⟩

omit hsep in
/-- An open slot is read from memory. -/
lemma read (h : p.Carrying hB slots content) {j : Journal} (hj : p.journal i = some j) :
    p.read i = (p,.ok (content i)) := by
  obtain ⟨s,hs,hjs⟩ := exists_slot hj
  obtain ⟨t,ht⟩ := h.laid_out hs
  obtain ⟨s',hs',hshows⟩ := h.slot i t ht
  cases hs.symm.trans hs'
  rw [read_eq hs,Slot.read,hjs,← hshows.opened j hjs]

end Carrying
end Partition
end ArmoredWitness.Slots
