import Mathlib.Algebra.Order.BigOperators.Group.Multiset
import Mathlib.Data.Char
import Mathlib.Data.Multiset.Sort
import Mathlib.Data.List.Lex
import ArmoredWitness.Persistence.Init

/-! How many logs the deployed partition has room for. Each new log has the whole
directory written to the first slot again, as one record, and a record may take a third
of its slot: the directory outgrows that long before the slots run out. -/
namespace ArmoredWitness.Persistence
open Lib Lib.Action Slots

variable {M : Machine} {Origin LogID : Type} [DecidableEq LogID]

def slotsPartitionStartBlock : ℕ := 0x400000
def slotsPartitionLengthBlocks : ℕ := 0x400000
def slotSizeBytes : ℕ := 512 <<< 10

/-- The loop of `openStorage` that lists the slots. One round adds at least one block to
`i`, unless a block is larger than a slot. -/
def slotLengths (length sl : ℕ) : (rounds i : ℕ) → List ℕ
  | 0, _ => []
  | rounds+1, i => if i < length then sl::slotLengths length sl rounds (i+sl) else []

def storageGeometry (M : Machine) : Geometry :=
  ⟨slotsPartitionStartBlock,slotsPartitionLengthBlocks,
    slotLengths slotsPartitionLengthBlocks (slotSizeBytes/M.blockSize) slotsPartitionLengthBlocks 0⟩

def openStorage (dev : Device M) : Outcome PartitionError (Partition M) :=
  openPartition dev (storageGeometry M)

lemma slotLengths_eq {length sl : ℕ} (hsl : 0 < sl) (n : ℕ) {rounds i : ℕ} (hn : n ≤ rounds)
    (hi : i+n*sl = length) : slotLengths length sl rounds i = List.replicate n sl := by
  induction n generalizing rounds i with
  | zero =>
    cases rounds with
    | zero => rfl
    | succ rounds => exact if_neg (by omega)
  | succ n ih =>
    cases rounds with
    | zero => omega
    | succ rounds =>
      rw [Nat.succ_mul] at hi
      rw [slotLengths,if_pos (by omega),List.replicate_succ,ih (Nat.le_of_succ_le_succ hn) (by omega)]

/-- With blocks of 512 bytes there are 4096 slots of 1024 blocks. -/
lemma storageGeometry_eq (hB : M.blockSize = 512) :
    storageGeometry M = ⟨0x400000,0x400000,List.replicate 4096 1024⟩ := by
  have hsl : slotSizeBytes/M.blockSize = 1024 := by
    rw [hB]
    rfl
  have hloop : slotLengths slotsPartitionLengthBlocks 1024 slotsPartitionLengthBlocks 0 = List.replicate 4096 1024 :=
    slotLengths_eq (by decide) 4096 (by decide) rfl
  rw [storageGeometry,hsl,hloop]
  rfl

namespace SlotPersistence

/-- Every slot but the first belongs to a log. -/
def Full (p : SlotPersistence M LogID) : Prop :=
  ∀ i, 0 < i → i < p.part.numSlots → ∃ a, p.idToSlot.lookup a = some i

/-- As the logs are given slots one after the other, an error means that all slots are
taken. -/
def EverySlotAssignable (E : External Origin LogID) : SlotPersistence M LogID → List LogID → Prop
  | _, [] => True
  | p, id::ids => ((∃ e, (logSlot E none id true p).2 = .error e) → p.Full) ∧
    EverySlotAssignable E (logSlot E none id true p).1 ids

end SlotPersistence

/-- The directory `m` with the logs at the slots after `k`, in order. -/
def numberFrom (k : ℕ) (m : SlotMap LogID) : List LogID → SlotMap LogID
  | [] => m
  | id::ids => numberFrom (k+1) (m.insert id (k+1)) ids

/-- The directory in which the logs have the slots 1, 2 and so on, in order. -/
def numbered (ids : List LogID) : SlotMap LogID := numberFrom 0 ∅ ids

lemma numberFrom_append (k : ℕ) (m : SlotMap LogID) (ids ids' : List LogID) :
    numberFrom k m (ids ++ ids') = numberFrom (k+ids.length) (numberFrom k m ids) ids' := by
  induction ids generalizing k m with
  | nil => rfl
  | cons id ids ih =>
    rw [List.cons_append,numberFrom,ih,numberFrom,List.length_cons]
    congr 1
    omega

lemma numbered_snoc (ids : List LogID) (id : LogID) :
    numbered (ids ++ [id]) = (numbered ids).insert id (ids.length+1) := by
  rw [numbered,numberFrom_append,Nat.zero_add]
  rfl

lemma mem_numberFrom {k : ℕ} {m : SlotMap LogID} {ids : List LogID} {a : LogID} :
    a ∈ numberFrom k m ids ↔ a ∈ ids ∨ a ∈ m := by
  induction ids generalizing k m with
  | nil => simp [numberFrom]
  | cons id ids ih =>
    rw [numberFrom,ih,Finmap.mem_insert,List.mem_cons]
    tauto

lemma keys_numbered (ids : List LogID) : (numbered ids).keys = ids.toFinset := by
  ext a
  rw [Finmap.mem_keys,numbered,mem_numberFrom,List.mem_toFinset]
  exact or_iff_left Finmap.notMem_empty

section Assigning
variable (hB : entryHeaderSize ≤ M.blockSize) (slots : List Slot) (E : External Origin LogID)
  (p : SlotPersistence M LogID) (done : List LogID)

/-- The persistence after the logs in `done` have been given the first slots, whether
the directories could be stored or not. -/
structure Assigned : Prop extends Initialised E p where
  framed : p.part.Framed hB slots
  map_eq : p.idToSlot = numbered done
  used : ∀ i, (∃ a, p.idToSlot.lookup a = some i) ↔ 0 < i ∧ i ≤ done.length
  few : done.length < slots.length

end Assigning

namespace Assigned
variable {hB : entryHeaderSize ≤ M.blockSize} {slots : List Slot} {E : External Origin LogID}
  {p : SlotPersistence M LogID} {done : List LogID} {id : LogID}

lemma numSlots (h : Assigned hB slots E p done) : p.part.numSlots = slots.length := h.framed.length

/-- As long as there are slots left, the next one comes first in the list. -/
lemma freeSlots (h : Assigned hB slots E p done) (hnext : done.length+1 < slots.length) :
    ∃ rest, p.freeSlots = (done.length+1)::rest := by
  have hfree := h.free
  rw [h.numSlots] at hfree
  have hmem : done.length+1 ∈ p.freeSlots := by
    refine (hfree.mem_iff _).mpr ⟨Nat.succ_pos _,hnext,fun a ha => ?_⟩
    have hle := ((h.used _).mp ⟨a,ha⟩).2
    omega
  cases hlist : p.freeSlots with
  | nil =>
    rw [hlist] at hmem
    cases hmem
  | cons f rest =>
    rw [hlist] at hfree hmem
    obtain ⟨hpos,-,hunused⟩ := (hfree.mem_iff f).mp List.mem_cons_self
    have hle : f ≤ done.length+1 := by
      rcases List.mem_cons.mp hmem with heq | hmem
      · exact heq.ge
      · exact ((List.pairwise_cons.mp hfree.ascending).1 _ hmem).le
    have hge : ¬ f ≤ done.length := by
      intro hc
      obtain ⟨a,ha⟩ := (h.used f).mpr ⟨hpos,hc⟩
      exact hunused a ha
    exact ⟨rest,by rw [show f = done.length+1 by omega]⟩

/-- When there are none left, every slot is taken. -/
lemma full (h : Assigned hB slots E p done) (hlast : done.length+1 = slots.length) :
    p.Full ∧ p.freeSlots = [] := by
  have hfull : p.Full := by
    intro i hpos hlt
    rw [h.numSlots] at hlt
    exact (h.used i).mpr ⟨hpos,by omega⟩
  refine ⟨hfull,List.eq_nil_iff_forall_not_mem.mpr fun i hi => ?_⟩
  obtain ⟨hpos,hlt,hunused⟩ := (h.free.mem_iff i).mp hi
  obtain ⟨a,ha⟩ := hfull i hpos hlt
  exact hunused a ha

lemma lookup_none (h : Assigned hB slots E p done) (hid : id ∉ done) : p.idToSlot.lookup id = none := by
  rw [Finmap.lookup_eq_none,← Finmap.mem_keys,h.map_eq,keys_numbered,List.mem_toFinset]
  exact hid

section Next
variable (h : Assigned hB slots E p done) (htotal : E.Total) (hid : id ∉ done) (hnext : done.length+1 < slots.length)
include h htotal hid hnext

/-- The next log gets the next slot. -/
lemma next (hap : Apart slots) :
    Assigned hB slots E (SlotPersistence.logSlot E none id true p).1 (done ++ [id]) := by
  have hlookup := h.lookup_none hid
  obtain ⟨rest,hfree⟩ := h.freeSlots hnext
  have hassigned := h.toValid.assign hlookup hfree
  have hinit := h.toInitialised.logSlot none id true
  have hmap := (SlotPersistence.storeDirectory_frame (E := E)
    (p := {p with freeSlots := rest, idToSlot := p.idToSlot.insert id (done.length+1)}) none).1
  obtain ⟨b,hb⟩ := htotal (p.idToSlot.insert id (done.length+1))
  rw [SlotPersistence.logSlot_assign hlookup hfree] at hinit ⊢
  refine ⟨hinit,?_,?_,fun i => ?_,by simpa using hnext⟩
  · dsimp only
    rw [SlotPersistence.storeDirectory_part hassigned.directory hb]
    exact (h.framed.checkAndWrite hap none p.directoryWriteToken b).framed
  · rw [numbered_snoc,← h.map_eq]
    exact hmap
  · dsimp only
    rw [hmap,SlotMap.exists_lookup_insert hlookup,h.used,List.length_append,List.length_singleton]
    omega

/-- There is an error if the directory has become too large for a record. -/
lemma error_iff {t : Slot} (ht : slots[mappingConfigSlot]? = some t) :
    (∃ e, (SlotPersistence.logSlot E none id true p).2 = .error e) ↔
      ∃ b, E.marshalMap (numbered (done ++ [id])) = .ok b ∧ maxDataBytes M t.length < b.length := by
  have hlookup := h.lookup_none hid
  obtain ⟨rest,hfree⟩ := h.freeSlots hnext
  have hassigned := h.toValid.assign hlookup hfree
  obtain ⟨b,hb⟩ := htotal (p.idToSlot.insert id (done.length+1))
  obtain ⟨s,j,hs,hj,hrev⟩ := h.token
  obtain ⟨s',hs',hfits⟩ := h.framed.slot mappingConfigSlot t ht
  cases hs.symm.trans hs'
  have hp := hfits.journal j hj
  have hlimit : j.Accepts b ↔ (b.length : ℤ) ≤ maxDataBytes M t.length := by
    rw [Journal.Accepts,hp.on.maxDataBytes]
    rfl
  have hwrite : ((p.part.checkAndWrite none mappingConfigSlot p.directoryWriteToken b).2) =
      (j.outcome none b M).mapError .update := by
    rw [Partition.checkAndWrite_eq hs hj hrev hp (h.framed.on_device mappingConfigSlot t ht)]
  rw [SlotPersistence.logSlot_assign hlookup hfree,numbered_snoc,← h.map_eq,hb]
  dsimp only
  rw [SlotPersistence.storeDirectory_result hassigned.directory hb,hwrite]
  rcases Journal.outcome_cases M j none b with ⟨⟨-,ha⟩,ho,-⟩ | ⟨hna,e,ho,-⟩
  · rw [ho]
    have hle := hlimit.mp ha
    simpa [Outcome.map] using hle
  · have hlt : maxDataBytes M t.length < b.length := by
      by_contra hle
      exact hna ⟨rfl,hlimit.mpr (not_lt.mp hle)⟩
    rw [ho]
    exact iff_of_true ⟨_,rfl⟩ ⟨b,rfl,hlt⟩

end Next

end Assigned

/-- With all slots taken, nothing more can be assigned. -/
lemma SlotPersistence.Full.assignable {E : External Origin LogID} {p : SlotPersistence M LogID} (h : p.Full)
    (hfree : p.freeSlots = []) (ids : List LogID) : p.EverySlotAssignable E ids := by
  induction ids with
  | nil => trivial
  | cons id ids ih =>
    refine ⟨fun _ => h,?_⟩
    cases hid : p.idToSlot.lookup id with
    | some i =>
      rw [logSlot_found hid]
      exact ih
    | none =>
      rw [logSlot_full hid hfree]
      exact ih

/-- The slots can be assigned as far as the directory fits into a record. -/
theorem Assigned.assignable_iff {hB : entryHeaderSize ≤ M.blockSize} {slots : List Slot} {E : External Origin LogID}
    {p : SlotPersistence M LogID} {done : List LogID} (h : Assigned hB slots E p done) (hap : Apart slots)
    (htotal : E.Total) {t : Slot} (ht : slots[mappingConfigSlot]? = some t) {ids : List LogID}
    (hids : (done ++ ids).Nodup) : p.EverySlotAssignable E ids ↔
      ∀ n, 0 < n → n ≤ ids.length → done.length+n < slots.length →
        ∀ b, E.marshalMap (numbered (done ++ ids.take n)) = .ok b → (b.length : ℤ) ≤ maxDataBytes M t.length := by
  induction ids generalizing p done with
  | nil => exact iff_of_true trivial fun n hn hle => absurd hle (Nat.not_le_of_lt hn)
  | cons id ids ih =>
    have hid : id ∉ done := fun hmem => (List.nodup_append.mp hids).2.2 id hmem id List.mem_cons_self rfl
    have hcons : done ++ id::ids = done ++ [id] ++ ids := by simp
    rcases Nat.lt_or_ge (done.length+1) slots.length with hnext | hlast
    · have hnot : ¬ p.Full := by
        intro hfull
        obtain ⟨a,ha⟩ := hfull (done.length+1) (Nat.succ_pos _) (by rwa [h.numSlots])
        have hle := ((h.used _).mp ⟨a,ha⟩).2
        omega
      rw [SlotPersistence.EverySlotAssignable,ih (h.next htotal hid hnext hap) (by rwa [← hcons]),
        h.error_iff htotal hid hnext ht]
      constructor
      · rintro ⟨hfirst,hrest⟩ n hpos hle hlt b hb
        obtain ⟨n,rfl⟩ := Nat.exists_eq_succ_of_ne_zero (Nat.ne_of_gt hpos)
        cases n with
        | zero =>
          by_contra hgt
          exact hnot (hfirst ⟨b,hb,not_le.mp hgt⟩)
        | succ n =>
          refine hrest (n+1) (Nat.succ_pos n) (Nat.le_of_succ_le_succ hle) ?_ b ?_
          · rw [List.length_append,List.length_singleton]
            omega
          · rwa [List.append_assoc]
      · intro hall
        refine ⟨fun ⟨b,hb,hgt⟩ => absurd (hall 1 Nat.one_pos (by simp) hnext b hb) (not_le.mpr hgt),
          fun n hpos hle hlt b hb => ?_⟩
        rw [List.length_append,List.length_singleton] at hlt
        refine hall (n+1) (Nat.succ_pos n) (Nat.succ_le_succ hle) (by omega) b ?_
        rwa [List.append_assoc] at hb
    · have hlen := h.few
      obtain ⟨hfull,hfree⟩ := h.full (by omega)
      exact iff_of_true (hfull.assignable hfree _) fun n hpos _ hlt => by omega

/-- A partition that is new, after `Init`. -/
lemma Assigned.of_blank {hB : entryHeaderSize ≤ M.blockSize} {g : Geometry} {d : Device M} (h : g.Blank d)
    {t : Slot} (ht : (layout M g.start g.slotLengths)[mappingConfigSlot]? = some t) {E : External Origin LogID}
    (hempty : E.unmarshalMap [] ∅ = (∅,.ok ())) : Assigned hB (layout M g.start g.slotLengths) E
      (SlotPersistence.init E (newSlotPersistence ⟨d,layout M g.start g.slotLengths⟩)).1 [] := by
  have hnew := layout_unopened M g.start g.slotLengths
  have hslot := h.slot hB
  have hzero : Unwritten d t :=
    ⟨fun q hq => (hslot _ t ht).zero q hq.1 hq.2,fun q hq => (hslot _ t ht).addressed.header_end hq.2⟩
  let part : Partition M := ⟨d,layout M g.start g.slotLengths⟩
  obtain ⟨hinit,hpart,hmap⟩ := init_of_blank (show part.slots[mappingConfigSlot]? = some t from ht)
    (hnew t (List.mem_of_getElem? ht)) hzero hempty
  have hframed : Partition.Framed hB (layout M g.start g.slotLengths) ⟨d,layout M g.start g.slotLengths⟩ :=
    Partition.framed_new hnew fun i t ht => (hslot i t ht).on_device
  refine ⟨hinit,?_,hmap,fun i => ?_,(List.getElem?_eq_some_iff.mp ht).1⟩
  · rw [hpart]
    exact (hframed.openSlot h.apart fun t ht => (hslot _ t ht).tidy.bounded).framed
  · rw [hmap]
    simp only [Finmap.lookup_empty,reduceCtorEq,exists_false,List.length_nil,false_iff,not_and]
    omega

/-- The log IDs that `logfmt.ID` produces: 64 hexadecimal digits. -/
def HexID : Type := {t : List Char // t.length = 64 ∧ ∀ c ∈ t, c ∈ "0123456789abcdef".toList}

instance : DecidableEq HexID := inferInstanceAs (DecidableEq {_t : List Char // _})

/-- The line of a log in the directory. -/
def line (id : HexID) (i : ℕ) : List Char := id.1 ++ ": ".toList ++ Nat.toDigits 10 i ++ "\n".toList

/-- The directory has a line for each log. -/
def External.Lines (E : External Origin HexID) : Prop :=
  ∀ m b, E.marshalMap m = .ok b → (m.entries.map fun x => (line x.1 x.2).length).sum ≤ b.length

lemma line_length (id : HexID) (i : ℕ) : 68 ≤ (line id i).length := by
  have hid := id.2.1
  have hdigits := Nat.length_toDigits_pos (b := 10) (n := i)
  have hcolon : (": ".toList).length = 2 := by decide
  have hnewline : ("\n".toList).length = 1 := by decide
  simp only [line,List.length_append]
  omega

lemma card_entries_numbered {ids : List LogID} (h : ids.Nodup) : (numbered ids).entries.card = ids.length := by
  have hkeys : (numbered ids).keys.card = ids.length := by
    rw [keys_numbered,List.toFinset_card_of_nodup h]
  rwa [Finmap.keys,Finset.card_mk,Multiset.keys,Multiset.card_map] at hkeys

/-- The directory of 2570 logs is too large. -/
lemma External.Lines.too_large {E : External Origin HexID} (h : E.Lines) {ids : List HexID} (hids : ids.Nodup)
    (hlen : 2570 ≤ ids.length) {b : List UInt8} (hb : E.marshalMap (numbered (ids.take 2570)) = .ok b) :
    174714 < b.length := by
  have hcard := card_entries_numbered (hids.sublist (List.take_sublist 2570 ids))
  rw [List.length_take,Nat.min_eq_left hlen] at hcard
  have hsum := Multiset.card_nsmul_le_sum
    (s := (numbered (ids.take 2570)).entries.map fun x => (line x.1 x.2).length) (a := 68) (by
      intro x hx
      obtain ⟨e,-,rfl⟩ := Multiset.mem_map.mp hx
      exact line_length e.1 e.2)
  rw [Multiset.card_map,hcard,nsmul_eq_mul,Nat.cast_id] at hsum
  have hle := h _ b hb
  omega

section Deployed
variable (hB : M.blockSize = 512) (hint : 2^31-1 ≤ M.maxAlloc) {d : Device M}
  (hsize : slotsPartitionStartBlock+slotsPartitionLengthBlocks ≤ d.size)
  (hzero : ∀ q, slotsPartitionStartBlock ≤ q → q < slotsPartitionStartBlock+slotsPartitionLengthBlocks →
    d.block q = zeroBlock M)
include hB hint

/-- A record of the directory may take a third of a slot, less a header. -/
lemma maxDataBytes_slot : maxDataBytes M 1024 = 174714 := by
  have hmax := M.maxAlloc_le
  have hwrap : M.wrap (1024*512) = 1024*512 := Nat.mod_eq_of_lt (by rw [Machine.maxUint]; omega)
  rw [maxDataBytes,hB,hwrap]
  rfl

/-- The deployed partition ends with the last byte that 32 bits can address. -/
lemma storageGeometry_addressed : (storageGeometry M).Addressed M := by
  have hle := M.maxAlloc_le
  have h48 : entryHeaderSize = 48 := rfl
  have hspace : M.space = 2*M.maxInt+1+1 := rfl
  refine ⟨by omega,?_,fun l hl => ?_⟩
  · have hend : ((storageGeometry M).start+(storageGeometry M).slotLengths.sum)*M.blockSize = 2^32 := by
      rw [storageGeometry_eq hB,List.sum_replicate,hB]
      rfl
    omega
  · rw [storageGeometry_eq hB] at hl
    rw [List.eq_of_mem_replicate hl]
    exact (Nat.div_le_self _ _).trans ((M.wrap_le _).trans (by rw [hB]; omega))

include hsize hzero

/-- The partition of the deployed device, when it is new. -/
lemma storageGeometry_blank : (storageGeometry M).Blank d := by
  have hsum : (storageGeometry M).slotLengths.sum = slotsPartitionLengthBlocks := by
    rw [storageGeometry_eq hB,List.sum_replicate]
    rfl
  have hle := M.maxAlloc_le
  have hmax : slotsPartitionStartBlock+slotsPartitionLengthBlocks ≤ M.maxUint := by
    rw [Machine.maxUint,slotsPartitionStartBlock,slotsPartitionLengthBlocks]
    omega
  refine ⟨if_neg (Nat.not_lt_of_le ?_),storageGeometry_addressed hB hint,?_,?_,?_⟩
  · exact ((storageGeometry M).total_le M).trans hsum.le
  · rw [hsum]
    exact hmax
  · rw [hsum]
    exact hsize
  · rw [hsum]
    exact hzero

lemma assignable_iff_deployed {part : Partition M} (hopen : openStorage d = .ok part)
    {E : External Origin LogID} (htotal : E.Total) (hempty : E.unmarshalMap [] ∅ = (∅,.ok ()))
    {ids : List LogID} (hids : ids.Nodup) :
    (SlotPersistence.init E (newSlotPersistence part)).1.EverySlotAssignable E ids ↔
      ∀ n, 0 < n → n ≤ ids.length → n < 4096 →
        ∀ b, E.marshalMap (numbered (ids.take n)) = .ok b → b.length ≤ 174714 := by
  have hblank := storageGeometry_blank hB hint hsize hzero
  have hB' : entryHeaderSize ≤ M.blockSize := by rw [hB]; decide
  have hlengths : (storageGeometry M).slotLengths = List.replicate 4096 1024 := by rw [storageGeometry_eq hB]
  have ht : (layout M (storageGeometry M).start (storageGeometry M).slotLengths)[mappingConfigSlot]? =
      some ⟨slotsPartitionStartBlock,1024,none⟩ := by
    rw [layout_getElem? hblank.no_overflow,hlengths]
    rfl
  have hlen : (layout M (storageGeometry M).start (storageGeometry M).slotLengths).length = 4096 := by
    rw [layout_length ((Nat.le_add_right _ _).trans hblank.no_overflow),hlengths,List.length_replicate]
  cases hopen.symm.trans hblank.openPartition
  have hassigned : Assigned hB' _ E _ [] := Assigned.of_blank hblank ht hempty
  rw [hassigned.assignable_iff hblank.apart htotal ht hids,hlen]
  simp only [List.length_nil,Nat.zero_add,List.nil_append,maxDataBytes_slot hB hint]
  norm_cast

/-- Every slot of the deployed partition can be assigned, exactly if the text of every
directory along the way fits into a third of a slot. -/
theorem every_slot_assignable_iff (part : Partition M) (hopen : openStorage d = .ok part)
    (E : External Origin LogID) (htotal : E.Total) (hempty : E.unmarshalMap [] ∅ = (∅,.ok ()))
    (ids : List LogID) (hids : ids.Nodup) :
    (SlotPersistence.init E (newSlotPersistence part)).1.EverySlotAssignable E ids ↔
      ∀ n, 0 < n → n ≤ ids.length → n < 4096 →
        ∀ b, E.marshalMap (numbered (ids.take n)) = .ok b → b.length ≤ 174714 :=
  assignable_iff_deployed hB hint hsize hzero hopen htotal hempty hids

/-- However the directory is encoded, with a line for each log the slots cannot all be
assigned. -/
theorem not_every_slot_assignable {part : Partition M} (hopen : openStorage d = .ok part)
    {E : External Origin HexID} (hlines : E.Lines) (htotal : E.Total) (hempty : E.unmarshalMap [] ∅ = (∅,.ok ()))
    {ids : List HexID} (hids : ids.Nodup) (hlen : 2570 ≤ ids.length) :
    ¬ (SlotPersistence.init E (newSlotPersistence part)).1.EverySlotAssignable E ids := by
  intro hall
  obtain ⟨b,hb⟩ := htotal (numbered (ids.take 2570))
  have hgt := hlines.too_large hids hlen hb
  have hle := (assignable_iff_deployed hB hint hsize hzero hopen htotal hempty hids).mp hall
    2570 (by decide) hlen (by decide) b hb
  omega

end Deployed

/-- A machine as deployed: a 32-bit processor and blocks of 512 bytes. -/
def deployedMachine : Machine := .bits32 512 (by decide)

/-- The deployed device when it is new. -/
def deployedDevice : Device deployedMachine :=
  .zeros deployedMachine (slotsPartitionStartBlock+slotsPartitionLengthBlocks)

lemma openStorage_deployed : openStorage deployedDevice =
    .ok ⟨deployedDevice,layout deployedMachine (storageGeometry deployedMachine).start
      (storageGeometry deployedMachine).slotLengths⟩ :=
  (storageGeometry_blank rfl (by decide) (d := deployedDevice) (by decide) fun _ _ _ => rfl).openPartition

theorem every_slot_assignable_twoLogs : ∃ part, openStorage deployedDevice = .ok part ∧
    (SlotPersistence.init Tally.external (newSlotPersistence part)).1.EverySlotAssignable Tally.external
      [false,true] := by
  refine ⟨_,openStorage_deployed,(every_slot_assignable_iff rfl (by decide) (by decide) (fun _ _ _ => rfl) _
    openStorage_deployed Tally.external Tally.roundTrips.total rfl _ (by decide)).mpr fun n hpos hle _ b hb => ?_⟩
  rw [List.length_cons,List.length_singleton] at hle
  obtain rfl | rfl : n = 1 ∨ n = 2 := by omega
  · cases hb
    decide +kernel
  · cases hb
    decide +kernel

namespace Lines

/-- The lines of a directory, in order. -/
def marshal (m : SlotMap HexID) : List UInt8 :=
  (((m.entries.map fun x => line x.1 x.2).sort).flatten).map fun c => UInt8.ofNat c.toNat

/-- External functions that write a line for each log. The directory is only read when
it is empty. -/
def external : External HexID HexID where
  logID := id
  marshalMap m := .ok (marshal m)
  unmarshalMap b m := (m,if b = [] then .ok () else .error (.yaml "directory"))
  unmarshalRecord b := if b = [] then .ok none else .error (.yaml "record")
  range m := ⟨m.slots.sort,Multiset.sort_eq _ _⟩

lemma lines : external.Lines := by
  intro m b hb
  cases hb
  have hlength : (marshal m).length = (((m.entries.map fun x => line x.1 x.2).sort).map List.length).sum := by
    rw [marshal,List.length_map,List.length_flatten]
  rw [hlength,← Multiset.sum_coe,← Multiset.map_coe,Multiset.sort_eq,Multiset.map_map]
  rfl

/-- The number `k` in binary, as a log ID. -/
def binary (k : ℕ) : HexID :=
  ⟨(List.range 64).map fun i => if k.testBit i then '1' else '0',by simp,by
    intro c hc
    obtain ⟨i,-,rfl⟩ := List.mem_map.mp hc
    split_ifs <;> decide⟩

lemma binary_injOn {k n : ℕ} (hk : k < 2^64) (hn : n < 2^64) (h : binary k = binary n) : k = n := by
  have hdigit : ∀ i ∈ List.range 64, (if k.testBit i then '1' else '0') = if n.testBit i then '1' else '0' :=
    List.map_inj_left.mp (congrArg Subtype.val h :)
  refine Nat.eq_of_testBit_eq fun i => ?_
  rcases Nat.lt_or_ge i 64 with hi | hi
  · have heq := hdigit i (List.mem_range.mpr hi)
    cases hkb : k.testBit i <;> cases hnb : n.testBit i <;> simp [hkb,hnb] at heq ⊢
  · rw [Nat.testBit_lt_two_pow (hk.trans_le (Nat.pow_le_pow_right (by decide) hi)),
      Nat.testBit_lt_two_pow (hn.trans_le (Nat.pow_le_pow_right (by decide) hi))]

/-- 2570 different log IDs. -/
def manyLogs : List HexID := (List.range 2570).map binary

lemma manyLogs_nodup : manyLogs.Nodup := by
  refine List.Nodup.map_on (fun k hk n hn h => binary_injOn ?_ ?_ h) List.nodup_range
  · exact (List.mem_range.mp hk).trans (by decide)
  · exact (List.mem_range.mp hn).trans (by decide)

end Lines

/-- With a directory of just one line for each log, some of 2570 logs gets an error
although there are 4095 slots. -/
theorem directory_outgrows_its_slot : ∃ part, openStorage deployedDevice = .ok part ∧ Lines.external.Lines ∧
    Lines.manyLogs.Nodup ∧ Lines.manyLogs.length = 2570 ∧
    ¬ (SlotPersistence.init Lines.external (newSlotPersistence part)).1.EverySlotAssignable Lines.external
      Lines.manyLogs :=
  ⟨_,openStorage_deployed,Lines.lines,Lines.manyLogs_nodup,by simp [Lines.manyLogs],
    not_every_slot_assignable rfl (by decide) (by decide) (fun _ _ _ => rfl) openStorage_deployed Lines.lines
      (fun _ => ⟨_,rfl⟩) rfl Lines.manyLogs_nodup (by simp [Lines.manyLogs])⟩

end ArmoredWitness.Persistence
