import ArmoredWitness.Slots.Frame

/-! The slots of a partition do not interfere. The layout gives each slot blocks of
its own, and a run on all slots looks to one slot like the run of its own
operations. -/
namespace ArmoredWitness.Slots
open Lib

variable {M : Machine}

namespace SlotOp

/-- The payload, if a slot of this length takes it, is free of the magic. -/
def Plain (M : Machine) (length : ℕ) : SlotOp → Prop
  | .write data _ => (data.length : ℤ) ≤ maxDataBytes M length → FreeOfMagic M data
  | .checkAndWrite _ data _ => (data.length : ℤ) ≤ maxDataBytes M length → FreeOfMagic M data
  | _ => True

instance (length : ℕ) : (op : SlotOp) → Decidable (op.Plain M length)
  | .write _ _ => inferInstanceAs (Decidable (_ → _))
  | .checkAndWrite _ _ _ => inferInstanceAs (Decidable (_ → _))
  | .openSlot => inferInstanceAs (Decidable True)
  | .read => inferInstanceAs (Decidable True)

/-- What an operation returns for a slot that does not exist. -/
def missing (i n : ℕ) : SlotOp → SlotResult
  | .openSlot => .opened (.error (.invalidSlot i n))
  | .read => .data (.panic (.indexOutOfRange i n))
  | .write _ _ => .written (.panic (.indexOutOfRange i n))
  | .checkAndWrite _ _ _ => .written (.panic (.indexOutOfRange i n))

end SlotOp

namespace Partition
variable {p : Partition M} {i : ℕ} {op : SlotOp}

lemma step_of_none (h : p.slots[i]? = none) : p.step i op = (p,op.missing i p.numSlots) := by
  have hle : p.numSlots ≤ i := List.getElem?_eq_none_iff.mp h
  cases op with
  | openSlot => simp only [step,openSlot,if_pos hle,SlotOp.missing]
  | read => simp only [step,read,onSlot,h,SlotOp.missing]
  | write data fault => simp only [step,write,onSlot,h,SlotOp.missing]
  | checkAndWrite token data fault => simp only [step,checkAndWrite,onSlot,h,SlotOp.missing]

end Partition

section Methods
variable {r : Region M} {d : Device M} {s : Slot} {ε α : Type}

/-- The device and the slot after a method, and its result, are the same on every
device that is alike in the region; only blocks of the region change. -/
def Local (r : Region M) (d : Device M) (f : Device M → Device M × Slot × Outcome ε α) : Prop :=
  ∃ n k b s' res, r.start ≤ n ∧ n+k ≤ r.stop ∧ s'.Fits r ∧ (d.store n k b).Tidy r ∧
    ∀ d' : Device M, d'.Alike r d → f d' = (d'.store n k b,s',res)

lemma local_of_unchanged (hd : d.Tidy r) {f : Device M → Device M × Slot × Outcome ε α} {s' : Slot}
    (hs : s'.Fits r) (res : Outcome ε α) (h : ∀ d' : Device M, d'.Alike r d → f d' = (d',s',res)) :
    Local r d f := by
  refine ⟨r.start,0,[],s',res,le_rfl,Nat.le_add_right _ _,hs,?_,fun d' ha => ?_⟩
  · rwa [d.store_zero]
  · rw [d'.store_zero]
    exact h d' ha

variable (hs : s.Fits r) (hd : d.Tidy r)
include hs hd

lemma local_open : Local r d fun d' => s.openLogged d' := by
  have hstart := hs.start
  have hlength := hs.length
  cases hj : s.journal with
  | some j =>
    exact local_of_unchanged hd hs (.ok ()) fun d' _ => by simp only [Slot.openLogged,Slot.openSlot,hj,Slot.logged]
  | none =>
    have hopen : ∀ d' : Device M, d'.Alike r d →
        s.openLogged d' = (d',Slot.logged (s.adopt (openJournal d r.start r.length))) := by
      intro d' ha
      simp only [Slot.openLogged,Slot.openSlot,hj,hstart,hlength,openJournal_congr hd ha]
    cases hr : openJournal d r.start r.length with
    | ok j =>
      have hfits : Slot.Fits {s with journal := some j} r := by
        refine ⟨hstart,hlength,fun j' hj' => ?_⟩
        cases hj'
        exact Journal.placed_of_open hd.bounded hr
      rw [hr] at hopen
      exact local_of_unchanged hd hfits (.ok ()) hopen
    | error e =>
      rw [hr] at hopen
      exact local_of_unchanged hd hs (.ok ()) hopen
    | panic q =>
      rw [hr] at hopen
      exact local_of_unchanged hd hs (.panic q) hopen

lemma local_write (fault : Fault) {data : List UInt8}
    (hfree : (data.length : ℤ) ≤ maxDataBytes M r.length → FreeOfMagic M data) :
    Local r d fun d' => s.write fault d' data := by
  cases hj : s.journal with
  | none =>
    exact local_of_unchanged hd hs (.panic .nilDereference) fun d' _ => by simp only [Slot.write,hj]
  | some j =>
    have hp := hs.journal j hj
    have hw := hp.target_within fault data
    refine ⟨j.target M data,j.stored fault data M,(j.newEntry data).bytes,
      {s with journal := some (j.after fault data M)},
      (j.outcome fault data M).mapError .update,hw.1,hw.2,?_,?_,fun d' ha => ?_⟩
    · refine ⟨hs.start,hs.length,fun j' hj' => ?_⟩
      cases hj'
      exact hp.after_placed
    · refine hp.tidy_after hd fun hacc => hfree ?_
      rw [← hp.on.maxDataBytes]
      exact hacc
    · have hon := (hd.congr ha).on_device
      simp only [Slot.write,hj,hp.update_eq hon]

lemma local_checkAndWrite (fault : Fault) (token : UInt32) {data : List UInt8}
    (hfree : (data.length : ℤ) ≤ maxDataBytes M r.length → FreeOfMagic M data) :
    Local r d fun d' => s.checkAndWrite fault d' token data := by
  cases hj : s.journal with
  | none =>
    exact local_of_unchanged hd hs (.panic .nilDereference) fun d' _ => by simp only [Slot.checkAndWrite,hj]
  | some j =>
    by_cases ht : j.current.revision = token
    · have heq : (fun d' : Device M => s.checkAndWrite fault d' token data) = fun d' => s.write fault d' data := by
        funext d'
        simp only [Slot.checkAndWrite,hj,ht,ne_eq,not_true,if_false]
      rw [heq]
      exact local_write hs hd fault hfree
    · exact local_of_unchanged hd hs (.error .invalidToken) fun d' _ => by
        simp only [Slot.checkAndWrite,hj,ne_eq,ht,not_false_iff,if_true]

end Methods

namespace Partition
variable {hB : entryHeaderSize ≤ M.blockSize} {slots : List Slot} {p p' : Partition M} {i j : ℕ}
  {op : SlotOp}

/-- Every slot of the partition is where it was laid out, and tidy. -/
structure Sound (hB : entryHeaderSize ≤ M.blockSize) (slots : List Slot) (p : Partition M) : Prop where
  framed : p.Framed hB slots
  tidy : ∀ (i : ℕ) (t : Slot), slots[i]? = some t → p.dev.Tidy (t.region hB)

/-- What an operation returns and where it writes is decided by the slot. -/
def StepLocal (hB : entryHeaderSize ≤ M.blockSize) (t : Slot) (i : ℕ) (op : SlotOp) (p : Partition M) : Prop :=
  ∃ n k b s' res, t.start ≤ n ∧ n+k ≤ t.start+t.length ∧
    s'.Fits (t.region hB) ∧ (p.dev.store n k b).Tidy (t.region hB) ∧
    ∀ p' : Partition M, p'.dev.Alike (t.region hB) p.dev → p'.slots[i]? = p.slots[i]? →
      p'.step i op = (⟨p'.dev.store n k b,p'.slots.set i s'⟩,res)

/-- A local method, called through the partition. -/
lemma stepLocal_of_local {ε α : Type} {s t : Slot} (hs : p.slots[i]? = some s)
    {f : Device M → Slot → Device M × Slot × Outcome ε α} (h : Local (t.region hB) p.dev fun d' => f d' s)
    (wrap : Outcome ε α → SlotResult) (hstep : ∀ p' : Partition M, p'.slots[i]? = some s →
      p'.step i op = ((p'.onSlot i f).1,wrap (p'.onSlot i f).2)) : StepLocal hB t i op p := by
  obtain ⟨n,k,b,s',res,hn,hk,hfits,htidy,heq⟩ := h
  refine ⟨n,k,b,s',wrap res,hn,hk,hfits,htidy,fun p' ha hp' => ?_⟩
  have hm := heq p'.dev ha
  dsimp only at hm
  rw [hstep p' (hp'.trans hs)]
  simp only [onSlot,hp'.trans hs,hm]

/-- Every operation on a slot is local. -/
lemma Sound.step_local (h : p.Sound hB slots) {t : Slot} (ht : slots[i]? = some t)
    (hop : op.Plain M t.length) : StepLocal hB t i op p := by
  obtain ⟨s,hs,hfits⟩ := h.framed.slot i t ht
  have htidy := h.tidy i t ht
  cases op with
  | openSlot =>
    refine stepLocal_of_local hs (f := fun d s => s.openLogged d) (local_open hfits htidy) .opened fun p' hp' => ?_
    simp only [Partition.step,openSlot,if_neg (not_numSlots_le hp')]
  | read =>
    exact stepLocal_of_local hs (f := fun d s => (d,s,s.read))
      (local_of_unchanged htidy hfits s.read fun d' _ => rfl) .data fun p' _ => rfl
  | write data fault =>
    exact stepLocal_of_local hs (f := fun d s => s.write fault d data)
      (local_write hfits htidy fault hop) .written fun p' _ => rfl
  | checkAndWrite token data fault =>
    exact stepLocal_of_local hs (f := fun d s => s.checkAndWrite fault d token data)
      (local_checkAndWrite hfits htidy fault token hop) .written fun p' _ => rfl

/-- An operation keeps the partition sound and changes blocks of its slot only. -/
theorem Sound.step (h : p.Sound hB slots) (hap : Apart slots)
    (hop : ∀ t ∈ slots[i]?, op.Plain M t.length) : (p.step i op).1.Sound hB slots ∧
      ∀ q, (p.step i op).1.dev.block q ≠ p.dev.block q →
        ∃ t, slots[i]? = some t ∧ t.start ≤ q ∧ q < t.start+t.length := by
  cases ht : slots[i]? with
  | none =>
    rw [step_of_none (h.framed.missing ht)]
    exact ⟨h,fun q hq => absurd rfl hq⟩
  | some t =>
    obtain ⟨n,k,b,s',res,hn,hk,hfits,htidy,heq⟩ := h.step_local ht (hop t ht)
    have htouch := h.framed.store hap ht hfits b hn hk
    rw [heq p (.refl _ _) rfl]
    refine ⟨⟨htouch.framed,fun i' t' ht' => ?_⟩,fun q hq => ⟨t,rfl,?_⟩⟩
    · by_cases hii : i' = i
      · subst hii
        cases ht.symm.trans ht'
        exact htidy
      · exact (h.tidy i' t' ht').congr (htouch.alike i' t' hii ht')
    · by_contra hout
      exact hq (p.dev.store_outside b (by omega))

/-- Two partitions look the same to slot `j`. -/
structure Twin (hB : entryHeaderSize ≤ M.blockSize) (slots : List Slot) (j : ℕ)
    (p' p : Partition M) : Prop where
  length : p'.slots.length = p.slots.length
  slot : p'.slots[j]? = p.slots[j]?
  alike : ∀ t, slots[j]? = some t → p'.dev.Alike (t.region hB) p.dev

lemma Twin.refl (p : Partition M) : Twin hB slots j p p := ⟨rfl,rfl,fun _ _ => .refl _ _⟩

/-- An operation on another slot is not seen. -/
lemma Twin.other (h : Twin hB slots j p' p) (hp : p.Sound hB slots) (hap : Apart slots) (hij : i ≠ j)
    (hop : ∀ t ∈ slots[i]?, op.Plain M t.length) : Twin hB slots j p' (p.step i op).1 := by
  cases ht : slots[i]? with
  | none => rwa [step_of_none (hp.framed.missing ht)]
  | some t =>
    obtain ⟨n,k,b,s',res,hn,hk,-,-,heq⟩ := hp.step_local ht (hop t ht)
    rw [heq p (.refl _ _) rfl]
    refine ⟨by rw [List.length_set,h.length],by rw [List.getElem?_set_ne hij,h.slot],fun t' ht' => ?_⟩
    have hdis := hap i j t t' hij ht ht'
    refine (h.alike t' ht').store_right b ?_
    change n+k ≤ t'.start ∨ t'.start+t'.length ≤ n
    omega

/-- An operation on the slot does the same in both. -/
lemma Twin.same (h : Twin hB slots j p' p) (hp : p.Sound hB slots)
    (hop : ∀ t ∈ slots[j]?, op.Plain M t.length) :
    Twin hB slots j (p'.step j op).1 (p.step j op).1 ∧ (p'.step j op).2 = (p.step j op).2 := by
  cases ht : slots[j]? with
  | none =>
    have hnone := hp.framed.missing ht
    have hnum : p'.numSlots = p.numSlots := h.length
    rw [step_of_none hnone,step_of_none (h.slot.trans hnone),hnum]
    exact ⟨h,rfl⟩
  | some t =>
    obtain ⟨n,k,b,s',res,hn,hk,-,-,heq⟩ := hp.step_local ht (hop t ht)
    rw [heq p (.refl _ _) rfl,heq p' (h.alike t ht) h.slot]
    refine ⟨⟨by simp only [List.length_set,h.length],?_,fun t' ht' => ?_⟩,rfl⟩
    · simp only [List.getElem?_set,h.length,if_true]
    · cases ht.symm.trans ht'
      exact (h.alike t ht).store n k b

section Runs
variable (hap : Apart slots)
include hap

lemma Sound.run (h : p.Sound hB slots) {ops : List (ℕ × SlotOp)}
    (hops : ∀ x ∈ ops, ∀ t ∈ slots[x.1]?, x.2.Plain M t.length) : (p.run ops).1.Sound hB slots := by
  induction ops generalizing p with
  | nil => exact h
  | cons x ops ih =>
    obtain ⟨hx,hrest⟩ := List.forall_mem_cons.mp hops
    exact ih (h.step hap hx).1 hrest

/-- To slot `j`, a run is the run of the operations on slot `j`. -/
theorem Twin.run (h : Twin hB slots j p' p) (hp : p.Sound hB slots) {ops : List (ℕ × SlotOp)}
    (hops : ∀ x ∈ ops, ∀ t ∈ slots[x.1]?, x.2.Plain M t.length) :
    Twin hB slots j (p'.run (ops.filter fun x => x.1 = j)).1 (p.run ops).1 ∧
      (p'.run (ops.filter fun x => x.1 = j)).2 = (p.run ops).2.filter fun x => x.1 = j := by
  induction ops generalizing p p' with
  | nil => exact ⟨h,rfl⟩
  | cons x ops ih =>
    obtain ⟨i,op⟩ := x
    obtain ⟨hx,hrest⟩ := List.forall_mem_cons.mp hops
    have hsound := (hp.step hap hx).1
    by_cases hij : i = j
    · subst hij
      obtain ⟨htwin,hres⟩ := h.same hp hx
      obtain ⟨hend,hlist⟩ := ih htwin hsound hrest
      simp only [List.filter_cons,decide_true,if_true,Partition.run,hres,hlist]
      exact ⟨hend,trivial⟩
    · obtain ⟨hend,hlist⟩ := ih (h.other hp hap hij hx) hsound hrest
      simp only [List.filter_cons,hij,decide_false,Bool.false_eq_true,if_false,Partition.run,hlist]
      exact ⟨hend,trivial⟩

end Runs
end Partition

/-- A slot read through a partition that is opened for the purpose. -/
def freshRead (d : Device M) (g : Geometry) (j : ℕ) : Outcome PartitionError (List (ℕ × SlotResult)) :=
  (openPartition d g).map fun p => (p.run [(j,.openSlot),(j,.read)]).2

/-- A layout on a device whose slots are tidy. -/
lemma sound_layout {hB : entryHeaderSize ≤ M.blockSize} {slots : List Slot} {d : Device M}
    (hnew : ∀ s ∈ slots, s.journal = none)
    (hd : ∀ (i : ℕ) (t : Slot), slots[i]? = some t → d.Tidy (t.region hB)) :
    Partition.Sound hB slots ⟨d,slots⟩ :=
  ⟨Partition.framed_new hnew fun i t ht => (hd i t ht).on_device,hd⟩

/-- Two devices that look the same to slot `j` give it the same content. -/
lemma freshRead_congr {hB : entryHeaderSize ≤ M.blockSize} {g : Geometry} {d d' : Device M} {j : ℕ}
    (hv : g.validate M = .ok ()) (hap : Apart (layout M g.start g.slotLengths))
    (hd : ∀ (i : ℕ) (t : Slot), (layout M g.start g.slotLengths)[i]? = some t → d.Tidy (t.region hB))
    (ha : ∀ t, (layout M g.start g.slotLengths)[j]? = some t → d'.Alike (t.region hB) d) :
    freshRead d' g j = freshRead d g j := by
  have hopen : ∀ e : Device M, openPartition e g = .ok ⟨e,layout M g.start g.slotLengths⟩ := by
    intro e
    rw [openPartition,hv]
    rfl
  have htwin : Partition.Twin hB (layout M g.start g.slotLengths) j
      ⟨d',layout M g.start g.slotLengths⟩ ⟨d,layout M g.start g.slotLengths⟩ := ⟨rfl,rfl,ha⟩
  have hplain : ∀ x ∈ [(j,SlotOp.openSlot),(j,SlotOp.read)],
      ∀ t ∈ (layout M g.start g.slotLengths)[x.1]?, x.2.Plain M t.length := by simp [SlotOp.Plain]
  have hread := (htwin.run hap (sound_layout (layout_unopened _ _ _) hd) hplain).2
  simp only [List.filter_cons,decide_true,if_true,List.filter_nil] at hread
  unfold freshRead
  rw [hopen,hopen,Outcome.map_ok,Outcome.map_ok,hread]
  simp [Partition.run]

/-- Slots of a partition within reach do not interfere: an operation changes blocks of its own
slot only, and each slot gives the results, and leaves behind what a new partition
then reads, as if the operations on the other slots had not been made. -/
theorem slots_do_not_interfere (hB : entryHeaderSize ≤ M.blockSize) (g : Geometry) (d : Device M)
    (p : Partition M) (hp : openPartition d g = .ok p)
    (haddr : g.Addressed M) (huint : g.start+g.slotLengths.sum ≤ M.maxUint)
    (hsize : g.start+g.slotLengths.sum ≤ d.size)
    (hzero : ∀ q, g.start ≤ q → q < g.start+g.slotLengths.sum → d.block q = zeroBlock M)
    (ops : List (ℕ × SlotOp)) (hops : ∀ x ∈ ops, ∀ s ∈ p.slots[x.1]?, x.2.Plain M s.length) :
    (∀ pre i op post, ops = pre ++ (i,op)::post → ∀ q,
      ((p.run pre).1.step i op).1.dev.block q ≠ (p.run pre).1.dev.block q →
        ∃ s, p.slots[i]? = some s ∧ s.start ≤ q ∧ q < s.start+s.length) ∧
    ∀ j, (p.run (ops.filter fun x => x.1 = j)).2 = (p.run ops).2.filter (fun x => x.1 = j) ∧
      freshRead (p.run (ops.filter fun x => x.1 = j)).1.dev g j = freshRead (p.run ops).1.dev g j := by
  obtain ⟨hv,rfl⟩ := openPartition_eq_ok hp
  have hblank : g.Blank d := ⟨hv,haddr,huint,hsize,hzero⟩
  have hap := hblank.apart
  have hsound : Partition.Sound hB (layout M g.start g.slotLengths) ⟨d,layout M g.start g.slotLengths⟩ :=
    sound_layout (layout_unopened _ _ _) fun i t ht => (hblank.slot hB i t ht).tidy
  refine ⟨fun pre i op post hpre q hq => ?_,fun j => ?_⟩
  · subst hpre
    obtain ⟨hleft,hright⟩ := List.forall_mem_append.mp hops
    exact ((hsound.run hap hleft).step hap (List.forall_mem_cons.mp hright).1).2 q hq
  · have hself : Partition.Twin hB (layout M g.start g.slotLengths) j
        ⟨d,layout M g.start g.slotLengths⟩ ⟨d,layout M g.start g.slotLengths⟩ := .refl _
    obtain ⟨htwin,hres⟩ := hself.run hap hsound hops
    refine ⟨hres,freshRead_congr hv hap (fun i t ht => ?_) htwin.alike⟩
    exact (hsound.run hap hops).tidy i t ht

/-- Two slots of six and five blocks, after one block that belongs to neither. -/
def twoSlots : Geometry := ⟨1,12,[6,5]⟩

def twoSlotsRun : List (ℕ × SlotOp) :=
  [(0,.openSlot),(1,.openSlot),(0,.write [0x41] none),(1,.write [0x42] (some 1)),
    (1,.checkAndWrite 0 [] none),(0,.checkAndWrite 0 [] none),(0,.read),(1,.read),(2,.openSlot)]

theorem slots_do_not_interfere_twoSlots :
    openPartition (.zeros smallMachine 12) twoSlots = .ok ⟨.zeros smallMachine 12,layout smallMachine 1 [6,5]⟩ ∧
    ∀ j, (Partition.run ⟨.zeros smallMachine 12,layout smallMachine 1 [6,5]⟩
        (twoSlotsRun.filter fun x => x.1 = j)).2 =
      (Partition.run ⟨.zeros smallMachine 12,layout smallMachine 1 [6,5]⟩ twoSlotsRun).2.filter
        fun x => x.1 = j := by
  refine ⟨rfl,fun j => ?_⟩
  exact ((slots_do_not_interfere (by decide) twoSlots (.zeros smallMachine 12) _ rfl
    ⟨by decide,by decide,by decide⟩ (by decide) (by decide) (fun _ _ _ => rfl) twoSlotsRun (by decide)).2 j).1

/-- Three slots, the last of them beyond the first 2^32 bytes. -/
def distantSlots : Geometry := ⟨0,2^28+6,[6,2^28-6,6]⟩

def distantRun : List (ℕ × SlotOp) := [(0,.openSlot),(0,.write [0x41] none),(2,.openSlot),(2,.read)]

def distantSlotsOpen : Partition smallMachine :=
  ⟨.zeros smallMachine (2^28+6),layout smallMachine 0 [6,2^28-6,6]⟩

/-- On a machine of 32 bits the last slot shows what is written to the first. -/
theorem distant_slot_shows_other :
    openPartition (.zeros smallMachine (2^28+6)) distantSlots = .ok distantSlotsOpen ∧
    distantSlots.start+distantSlots.slotLengths.sum ≤ smallMachine.maxUint ∧
    (∀ x ∈ distantRun, ∀ s ∈ distantSlotsOpen.slots[x.1]?, x.2.Plain smallMachine s.length) ∧
    (distantSlotsOpen.run (distantRun.filter fun x => x.1 = 2)).2 =
      [(2,.opened (.ok ())),(2,.data (.ok ([],0)))] ∧
    (distantSlotsOpen.run distantRun).2.filter (fun x => x.1 = 2) =
      [(2,.opened (.ok ())),(2,.data (.ok ([0x41],1)))] := by
  refine ⟨rfl,?_,?_,?_,?_⟩ <;> decide +kernel

end ArmoredWitness.Slots
