import ArmoredWitness.Persistence.SlotPersistence
import ArmoredWitness.Slots.Frame

/-! The directory of the logs: maps that give every log a slot of its own, the list
of the slots that are left, and what reading and storing the directory do. -/
namespace ArmoredWitness.Persistence
open Lib Lib.Action Slots

variable {M : Machine} {Origin LogID : Type} [DecidableEq LogID]

lemma drop_marshalCheckpoint (cp : List UInt8) :
    (marshalCheckpoint cp).drop rawRecordMagic.length = cp := List.drop_left ..

omit [DecidableEq LogID] in
lemma unmarshal_marshal {E : External Origin LogID} (cp : List UInt8) :
    unmarshalCheckpoint E (marshalCheckpoint cp) = .ok (some cp) := by
  have hraw : rawRecordMagic <+: marshalCheckpoint cp := List.prefix_append ..
  rw [unmarshalCheckpoint,if_pos hraw,drop_marshalCheckpoint]

namespace SlotMap
variable {m m' : SlotMap LogID} {n : ℕ}

/-- Every log has a slot of its own, out of `n`, and none has the first. -/
structure Valid (m : SlotMap LogID) (n : ℕ) : Prop where
  injective : ∀ a b i, m.lookup a = some i → m.lookup b = some i → a = b
  pos : ∀ a i, m.lookup a = some i → 0 < i
  lt : ∀ a i, m.lookup a = some i → i < n

/-- The logs of `m` have the same slots in `m'`. -/
def Within (m m' : SlotMap LogID) : Prop := ∀ a i, m.lookup a = some i → m'.lookup a = some i

lemma Within.refl (m : SlotMap LogID) : m.Within m := fun _ _ h => h

lemma Within.trans {m'' : SlotMap LogID} (h : m.Within m') (h' : m'.Within m'') : m.Within m'' :=
  fun a i ha => h' a i (h a i ha)

lemma within_insert {id : LogID} (f : ℕ) (h : m.lookup id = none) : m.Within (m.insert id f) := by
  intro a i ha
  have hne : a ≠ id := by
    rintro rfl
    rw [h] at ha
    cases ha
  rwa [Finmap.lookup_insert_of_ne _ hne]

lemma union_of_within (h : m.Within m') : m ∪ m' = m' := by
  apply Finmap.ext_lookup
  intro a
  cases hm : m.lookup a with
  | some i => rw [Finmap.lookup_union_left (Finmap.mem_of_lookup_eq_some hm),hm,h a i hm]
  | none => rw [Finmap.lookup_union_right (Finmap.lookup_eq_none.mp hm)]

lemma mem_slots {i : ℕ} : i ∈ m.slots ↔ ∃ a, m.lookup a = some i := by
  simp only [slots,Multiset.mem_map,Finmap.lookup_eq_some_iff]
  constructor
  · rintro ⟨x,hx,rfl⟩
    exact ⟨x.1,hx⟩
  · rintro ⟨a,ha⟩
    exact ⟨⟨a,i⟩,ha,rfl⟩

lemma lookup_insert_cases {id a : LogID} {f i : ℕ} (h : (m.insert id f).lookup a = some i) :
    a = id ∧ i = f ∨ a ≠ id ∧ m.lookup a = some i := by
  by_cases ha : a = id
  · subst ha
    rw [Finmap.lookup_insert] at h
    cases h
    exact .inl ⟨rfl,rfl⟩
  · rw [Finmap.lookup_insert_of_ne _ ha] at h
    exact .inr ⟨ha,h⟩

lemma exists_lookup_insert {id : LogID} {f i : ℕ} (h : m.lookup id = none) :
    (∃ a, (m.insert id f).lookup a = some i) ↔ i = f ∨ ∃ a, m.lookup a = some i := by
  constructor
  · rintro ⟨a,ha⟩
    rcases lookup_insert_cases ha with ⟨-,rfl⟩ | ⟨-,ha'⟩
    · exact .inl rfl
    · exact .inr ⟨a,ha'⟩
  · rintro (rfl | ⟨a,ha⟩)
    · exact ⟨id,Finmap.lookup_insert _⟩
    · exact ⟨a,within_insert f h a i ha⟩

namespace Valid

lemma empty (n : ℕ) : (∅ : SlotMap LogID).Valid n :=
  ⟨fun a b i h => by simp at h,fun a i h => by simp at h,fun a i h => by simp at h⟩

lemma insert (h : m.Valid n) (id : LogID) {f : ℕ} (hpos : 0 < f) (hlt : f < n)
    (hfree : ∀ a, m.lookup a ≠ some f) : Valid (m.insert id f) n := by
  refine ⟨fun a b i ha hb => ?_,fun a i ha => ?_,fun a i ha => ?_⟩
  · rcases lookup_insert_cases ha with ⟨rfl,rfl⟩ | ⟨-,ha'⟩
    · rcases lookup_insert_cases hb with ⟨rfl,-⟩ | ⟨-,hb'⟩
      · rfl
      · exact absurd hb' (hfree b)
    · rcases lookup_insert_cases hb with ⟨-,rfl⟩ | ⟨-,hb'⟩
      · exact absurd ha' (hfree a)
      · exact h.injective a b i ha' hb'
  · rcases lookup_insert_cases ha with ⟨-,rfl⟩ | ⟨-,ha'⟩
    · exact hpos
    · exact h.pos a i ha'
  · rcases lookup_insert_cases ha with ⟨-,rfl⟩ | ⟨-,ha'⟩
    · exact hlt
    · exact h.lt a i ha'

lemma in_range (h : m.Valid n) : ∀ i ∈ m.slots, 0 < i ∧ i < n := by
  intro i hi
  obtain ⟨a,ha⟩ := mem_slots.mp hi
  exact ⟨h.pos a i ha,h.lt a i ha⟩

end Valid

/-- The slots of `n` that the map does not use, in order. -/
structure Free (m : SlotMap LogID) (n : ℕ) (free : List ℕ) : Prop where
  ascending : free.Pairwise (· < ·)
  mem_iff : ∀ i, i ∈ free ↔ 0 < i ∧ i < n ∧ ∀ a, m.lookup a ≠ some i

lemma free_filter (m : SlotMap LogID) (n : ℕ) : m.Free n
    ((List.range n).filter fun idx => ¬ (idx = mappingConfigSlot ∨ idx ∈ m.slots)) := by
  refine ⟨List.Pairwise.filter _ List.pairwise_lt_range,fun i => ?_⟩
  rw [List.mem_filter,List.mem_range,decide_eq_true_iff,not_or,mem_slots,not_exists]
  constructor
  · rintro ⟨hlt,hpos,hfree⟩
    exact ⟨Nat.pos_of_ne_zero hpos,hlt,hfree⟩
  · rintro ⟨hpos,hlt,hfree⟩
    exact ⟨hlt,Nat.ne_of_gt hpos,hfree⟩

lemma Free.insert {id : LogID} {f : ℕ} {rest : List ℕ} (h : m.Free n (f::rest))
    (hid : m.lookup id = none) : Free (m.insert id f) n rest := by
  obtain ⟨hlt,hasc⟩ := List.pairwise_cons.mp h.ascending
  refine ⟨hasc,fun i => ⟨fun hi => ?_,fun ⟨hpos,hn,hfree⟩ => ?_⟩⟩
  · obtain ⟨hpos,hn,hfree⟩ := (h.mem_iff i).mp (List.mem_cons_of_mem _ hi)
    refine ⟨hpos,hn,fun a ha => ?_⟩
    rcases lookup_insert_cases ha with ⟨-,rfl⟩ | ⟨-,ha'⟩
    · exact absurd (hlt i hi) (lt_irrefl _)
    · exact hfree a ha'
  · have hne : i ≠ f := by
      rintro rfl
      exact hfree id (Finmap.lookup_insert _)
    have hmem := (h.mem_iff i).mpr ⟨hpos,hn,fun a ha => hfree a (within_insert f hid a i ha)⟩
    exact (List.mem_cons.mp hmem).resolve_left hne

end SlotMap

omit [DecidableEq LogID] in
lemma External.mem_range (E : External Origin LogID) {m : SlotMap LogID} {i : ℕ} :
    i ∈ (E.range m).1 ↔ i ∈ m.slots := by
  rw [← Multiset.mem_coe,(E.range m).2]

/-- `yaml` on directories: what is marshalled is read back, into the map that is
there, and an empty document leaves that map as it is. -/
structure External.RoundTrips (E : External Origin LogID) : Prop where
  marshal : ∀ m, ∃ b, E.marshalMap m = .ok b ∧ ∀ m', E.unmarshalMap b m' = (m ∪ m',.ok ())
  empty : ∀ m, E.unmarshalMap [] m = (m,.ok ())

/-- Every directory can be marshalled. -/
def External.Total (E : External Origin LogID) : Prop := ∀ m, ∃ b, E.marshalMap m = .ok b

lemma External.RoundTrips.total {E : External Origin LogID} (h : E.RoundTrips) : E.Total := fun m =>
  (h.marshal m).imp fun _ hb => hb.1

/-- The text of a directory consists of log IDs, which are hexadecimal, and
numbers: the magic of a record does not occur in it. -/
def External.PlainText (E : External Origin LogID) : Prop :=
  ∀ m b, E.marshalMap m = .ok b → ¬ magic0 <:+: b

omit [DecidableEq LogID] in
lemma External.PlainText.freeOfMagic {E : External Origin LogID} (h : E.PlainText) {m : SlotMap LogID}
    {b : List UInt8} (hb : E.marshalMap m = .ok b) : FreeOfMagic M b := by
  intro i _ _ heq
  have hinfix := (List.take_prefix 4 (b.drop (i*M.blockSize-entryHeaderSize))).isInfix.trans
    (List.drop_suffix _ b).isInfix
  exact h m b hb (heq ▸ hinfix)

namespace SlotPersistence
variable {E : External Origin LogID} {p : SlotPersistence M LogID} {s : Slot} {j : Journal}
  {m : SlotMap LogID}

lemma mark_lt {i : ℕ} {slotState : List Bool} (hi : i < slotState.length) :
    mark i slotState = .ok (slotState.set i true) := if_pos hi

/-- Marking a slot, seen from any slot. -/
lemma getD_set_true (slotState : List Bool) (i k : ℕ) :
    (slotState.set i true).getD k true = (slotState.getD k true || decide (k = i)) := by
  simp only [List.getD_eq_getElem?_getD,List.getElem?_set]
  by_cases hk : i = k
  · subst hk
    by_cases hi : i < slotState.length <;> simp [hi]
  · simp [hk,Ne.symm hk]

/-- A directory with numbers in range: exactly its slots are marked. -/
lemma markUsed_ok {order : List ℕ} {slotState : List Bool}
    (h : ∀ i ∈ order, 0 < i ∧ i < slotState.length) : ∃ used, markUsed order slotState = .ok used ∧
      used.length = slotState.length ∧ ∀ k, used.getD k true = (slotState.getD k true || decide (k ∈ order)) := by
  induction order generalizing slotState with
  | nil => exact ⟨slotState,rfl,rfl,fun k => by simp⟩
  | cons i order ih =>
    obtain ⟨⟨hpos,hlt⟩,hrest⟩ := List.forall_mem_cons.mp h
    have hset : ∀ k ∈ order, 0 < k ∧ k < (slotState.set i true).length := by
      rw [List.length_set]
      exact hrest
    obtain ⟨used,hrun,hlen,hused⟩ := ih hset
    refine ⟨used,?_,hlen.trans List.length_set,fun k => ?_⟩
    · have hne : i ≠ mappingConfigSlot := Nat.ne_of_gt hpos
      rw [markUsed,if_neg hne,mark_lt hlt,Outcome.bind_ok,hrun]
    · rw [hused,getD_set_true,Bool.or_assoc]
      congr 1
      simp

/-- A slot number that stops the loop of `populateMap`: the reserved slot is reported, and
a number that is out of range panics. -/
def outOfRange (n idx : ℕ) : Bool := idx = mappingConfigSlot ∨ n ≤ idx

lemma markUsed_bad {order : List ℕ} {slotState : List Bool} {idx : ℕ}
    (h : order.find? (outOfRange slotState.length) = some idx) : markUsed order slotState =
      if idx = mappingConfigSlot then .error .reservedSlot
      else .panic (.indexOutOfRange idx slotState.length) := by
  induction order generalizing slotState with
  | nil => cases h
  | cons i order ih =>
    rw [markUsed]
    by_cases hi : i = mappingConfigSlot
    · rw [List.find?_cons_of_pos (by simp [outOfRange,hi])] at h
      cases h
      rw [if_pos hi,if_pos hi]
    · rw [if_neg hi]
      by_cases hlt : i < slotState.length
      · rw [List.find?_cons_of_neg (by simp [outOfRange,hi,hlt])] at h
        rw [mark_lt hlt,Outcome.bind_ok,ih (by rwa [List.length_set]),List.length_set]
      · rw [List.find?_cons_of_pos (by simp [outOfRange,Nat.le_of_not_lt hlt])] at h
        cases h
        rw [mark,if_neg hlt,Outcome.bind_panic,if_neg hi]

omit [DecidableEq LogID] in
lemma findFreeSlots_bad {idx : ℕ}
    (h : (E.range p.idToSlot).1.find? (outOfRange p.part.numSlots) = some idx) : findFreeSlots E p =
      (p,if idx = mappingConfigSlot then .error .reservedSlot
        else .panic (.indexOutOfRange idx p.part.numSlots)) := by
  have hlen : (List.replicate p.part.numSlots false).length = p.part.numSlots := List.length_replicate
  rw [← hlen] at h
  have hbad := markUsed_bad h
  rw [hlen] at hbad
  simp only [findFreeSlots,bind_run,get_run,next_ok,lift_run,hbad]
  split_ifs <;> rfl

omit [DecidableEq LogID] in
/-- If the loop finds no bad number, there is none. -/
lemma in_range_of_find {n : ℕ} (h : (E.range m).1.find? (outOfRange n) = none) : ∀ i ∈ m.slots, 0 < i ∧ i < n := by
  intro i hi
  have hin := List.find?_eq_none.mp h i (E.mem_range.mpr hi)
  simp only [outOfRange,decide_eq_true_eq,not_or] at hin
  exact ⟨Nat.pos_of_ne_zero hin.1,Nat.lt_of_not_le hin.2⟩

omit [DecidableEq LogID] in
lemma findFreeSlots_run (hm : ∀ i ∈ p.idToSlot.slots, 0 < i ∧ i < p.part.numSlots)
    (hn : 0 < p.part.numSlots) :
    findFreeSlots E p = ({p with freeSlots := (List.range p.part.numSlots).filter fun idx =>
      ¬ (idx = mappingConfigSlot ∨ idx ∈ p.idToSlot.slots)},.ok ()) := by
  have hrange : ∀ i ∈ (E.range p.idToSlot).1,
      0 < i ∧ i < (List.replicate p.part.numSlots false).length := by
    intro i hi
    rw [List.length_replicate]
    exact hm i (E.mem_range.mp hi)
  obtain ⟨used,hrun,hlen,hused⟩ := markUsed_ok hrange
  rw [List.length_replicate] at hlen
  have hzero : mark mappingConfigSlot used = .ok (used.set mappingConfigSlot true) :=
    mark_lt (by rw [hlen]; exact hn)
  simp only [findFreeSlots,bind_run,get_run,next_ok,lift_run,hrun,hzero,modify_run,List.length_set,hlen]
  congr 2
  apply List.filter_congr
  intro k hk
  have hfalse : (List.replicate p.part.numSlots false).getD k true = false := by
    simp [List.getD_eq_getElem?_getD,List.mem_range.mp hk]
  rw [getD_set_true,hused,hfalse]
  simp [E.mem_range,or_comm]

omit [DecidableEq LogID] in
/-- Storing the directory leaves the map and the list of free slots alone. -/
lemma storeDirectory_frame (fault : Fault) : (storeDirectory E fault p).1.idToSlot = p.idToSlot ∧
    (storeDirectory E fault p).1.freeSlots = p.freeSlots := by
  simp only [storeDirectory,bind_run,get_run,next_ok,lift_run]
  cases E.marshalMap p.idToSlot with
  | error e => exact ⟨rfl,rfl⟩
  | panic q => exact ⟨rfl,rfl⟩
  | ok t =>
    cases hd : p.directorySlot with
    | none => simp only [Outcome.mapError_ok,next_ok,bind_run,directory,hd,next_panic,and_self]
    | some s =>
      simp only [Outcome.mapError_ok,next_ok,bind_run,directory,hd,onPart]
      cases (p.part.checkAndWrite fault s p.directoryWriteToken t).2 <;> exact ⟨rfl,rfl⟩

omit [DecidableEq LogID] in
lemma storeDirectory_eq {fault : Fault} {t : List UInt8} (hdir : p.directorySlot = some mappingConfigSlot)
    (hm : E.marshalMap p.idToSlot = .ok t) : storeDirectory E fault p =
      next ({p with part := (p.part.checkAndWrite fault mappingConfigSlot p.directoryWriteToken t).1},
        (p.part.checkAndWrite fault mappingConfigSlot p.directoryWriteToken t).2.mapError .store)
      fun _ => modify fun p => {p with directoryWriteToken := p.directoryWriteToken+1} := by
  simp only [storeDirectory,bind_run,get_run,next_ok,hm,Outcome.mapError_ok,lift_run,directory,hdir,onPart]

omit [DecidableEq LogID] in
/-- A directory that cannot be encoded is not written. -/
lemma storeDirectory_marshal_error {fault : Fault} {e : YamlError} (hm : E.marshalMap p.idToSlot = .error e) :
    storeDirectory E fault p = (p,.error (.marshal e)) := by
  simp only [storeDirectory,bind_run,get_run,next_ok,hm,lift_run,Outcome.mapError_error,next_error]

omit [DecidableEq LogID] in
lemma storeDirectory_marshal_panic {fault : Fault} {q : Panic} (hm : E.marshalMap p.idToSlot = .panic q) :
    storeDirectory E fault p = (p,.panic q) := by
  simp only [storeDirectory,bind_run,get_run,next_ok,hm,lift_run,Outcome.mapError_panic,next_panic]

section Store
variable {fault : Fault} {t : List UInt8} (hdir : p.directorySlot = some mappingConfigSlot)
  (hm : E.marshalMap p.idToSlot = .ok t)
include hdir hm

omit [DecidableEq LogID] in
lemma storeDirectory_part : (storeDirectory E fault p).1.part =
    (p.part.checkAndWrite fault mappingConfigSlot p.directoryWriteToken t).1 := by
  rw [storeDirectory_eq hdir hm]
  cases (p.part.checkAndWrite fault mappingConfigSlot p.directoryWriteToken t).2 <;> rfl

omit [DecidableEq LogID] in
lemma storeDirectory_result : (storeDirectory E fault p).2 =
    (p.part.checkAndWrite fault mappingConfigSlot p.directoryWriteToken t).2.mapError .store := by
  rw [storeDirectory_eq hdir hm]
  cases (p.part.checkAndWrite fault mappingConfigSlot p.directoryWriteToken t).2 <;> rfl

end Store

section OpenDirectory
variable (hdir : p.directorySlot = some mappingConfigSlot)
  (hs : p.part.slots[mappingConfigSlot]? = some s) (hj : s.journal = some j)
include hdir hs hj

omit [DecidableEq LogID] in
/-- Reading the directory. -/
lemma populateMap_read (hu : E.unmarshalMap j.current.data p.idToSlot = (m,.ok ())) : populateMap E p =
    findFreeSlots E {p with idToSlot := m, directoryWriteToken := j.current.revision} := by
  have hread : p.part.read mappingConfigSlot = (p.part,.ok j.data) := by
    rw [Partition.read_eq hs]
    simp only [Slot.read,hj]
  simp only [populateMap,bind_run,directory,hdir,next_ok,onPart,hread,Outcome.mapError_ok,get_run,
    Journal.data,hu,modify_run,lift_run]

omit [DecidableEq LogID] in
lemma populateMap_run (hu : E.unmarshalMap j.current.data p.idToSlot = (m,.ok ()))
    (hm : ∀ i ∈ m.slots, 0 < i ∧ i < p.part.numSlots) : populateMap E p =
      ({p with
        idToSlot := m
        directoryWriteToken := j.current.revision
        freeSlots := (List.range p.part.numSlots).filter fun idx =>
          ¬ (idx = mappingConfigSlot ∨ idx ∈ m.slots)},.ok ()) := by
  have hn : 0 < p.part.numSlots := (List.getElem?_eq_some_iff.mp hs).1
  exact (populateMap_read hdir hs hj hu).trans (findFreeSlots_run hm hn)

end OpenDirectory

section LogSlot
variable {fault : Fault} {id : LogID} {create : Bool}

lemma logSlot_found {i : ℕ} (hid : p.idToSlot.lookup id = some i) :
    logSlot E fault id create p = (p,.ok i) := by
  simp only [logSlot,bind_run,get_run,next_ok,hid,pure_run]

lemma logSlot_missing (hid : p.idToSlot.lookup id = none) :
    logSlot E fault id false p = (p,.error .noSlot) := by
  simp only [logSlot,bind_run,get_run,next_ok,hid,Bool.false_eq_true,if_false,fail_run]

lemma logSlot_full (hid : p.idToSlot.lookup id = none) (hfree : p.freeSlots = []) :
    logSlot E fault id true p = (p,.error (.assignSlot id .noFreeSlot)) := by
  simp only [logSlot,addLog,bind_run,get_run,next_ok,hid,hfree,if_true,mapError_run,fail_run,
    Outcome.mapError_error]

/-- A new log gets the first free slot, and the directory is stored. -/
lemma logSlot_assign {f : ℕ} {rest : List ℕ} (hid : p.idToSlot.lookup id = none)
    (hfree : p.freeSlots = f::rest) : logSlot E fault id true p =
      ((storeDirectory E fault {p with freeSlots := rest, idToSlot := p.idToSlot.insert id f}).1,
        ((storeDirectory E fault {p with freeSlots := rest, idToSlot := p.idToSlot.insert id f}).2.mapError
          fun e => .assignSlot id (.storeMap e)).map fun _ => f) := by
  simp only [logSlot,addLog,bind_run,get_run,next_ok,hid,hfree,if_true,mapError_run,modify_run]
  cases storeDirectory E fault {p with freeSlots := rest, idToSlot := p.idToSlot.insert id f} with
  | mk q r => cases r <;> rfl

/-- A search that does not create a mapping changes nothing. -/
lemma logSlot_false : (logSlot E fault id false p).1 = p := by
  cases hid : p.idToSlot.lookup id with
  | some i => rw [logSlot_found hid]
  | none => rw [logSlot_missing hid]

/-- An `Update` for a new log fails at once when every slot is taken. -/
lemma prepare_full {origin : Origin} (hid : p.idToSlot.lookup (E.logID origin) = none) (hfree : p.freeSlots = []) :
    prepare E fault origin p = (p,.error (.assignSlot (E.logID origin) .noFreeSlot)) := by
  simp only [prepare,bind_run,logSlot_full hid hfree,next_error]

lemma update_full {faults : Faults} {origin : Origin} {f : Callback}
    (hid : p.idToSlot.lookup (E.logID origin) = none) (hfree : p.freeSlots = []) :
    update E faults origin f p = (p,.error (.assignSlot (E.logID origin) .noFreeSlot)) := by
  simp only [update,bind_run,prepare_full hid hfree,next_error]

/-- There is no checkpoint of a log without a slot. -/
lemma latest_missing {origin : Origin} (hid : p.idToSlot.lookup (E.logID origin) = none) :
    latest E origin p = (p,.error .noSlot) := by
  simp only [latest,bind_run,logSlot_missing hid,next_error]

variable (E p fault id create) in
/-- Either nothing changes, or a new log is assigned a slot. -/
lemma logSlot_cases : (logSlot E fault id create p).1 = p ∨
    ∃ f rest, p.idToSlot.lookup id = none ∧ p.freeSlots = f::rest ∧ logSlot E fault id create p =
      ((storeDirectory E fault {p with freeSlots := rest, idToSlot := p.idToSlot.insert id f}).1,
        ((storeDirectory E fault {p with freeSlots := rest, idToSlot := p.idToSlot.insert id f}).2.mapError
          fun e => .assignSlot id (.storeMap e)).map fun _ => f) := by
  cases hid : p.idToSlot.lookup id with
  | some i => exact .inl (by rw [logSlot_found hid])
  | none =>
    cases create with
    | false => exact .inl (by rw [logSlot_missing hid])
    | true =>
      cases hfree : p.freeSlots with
      | nil => exact .inl (by rw [logSlot_full hid hfree])
      | cons f rest => exact .inr ⟨f,rest,rfl,rfl,logSlot_assign hid hfree⟩

/-- The search for a slot writes to the directory slot, if anywhere. -/
lemma logSlot_part (E : External Origin LogID) (fault : Fault) (id : LogID) (create : Bool)
    (hdir : p.directorySlot = some mappingConfigSlot) :
    (logSlot E fault id create p).1.part = p.part ∨ ∃ b, (logSlot E fault id create p).1.part =
      (p.part.checkAndWrite fault mappingConfigSlot p.directoryWriteToken b).1 := by
  rcases logSlot_cases E p fault id create with hsame | ⟨f,rest,-,-,hrun⟩
  · exact .inl (by rw [hsame])
  · rw [hrun]
    cases hm : E.marshalMap (p.idToSlot.insert id f) with
    | ok b => exact .inr ⟨b,storeDirectory_part (p := {p with freeSlots := rest, idToSlot := _}) hdir hm⟩
    | error e => exact .inl (by rw [storeDirectory_marshal_error hm])
    | panic q => exact .inl (by rw [storeDirectory_marshal_panic hm])

/-- A log that has a slot had it before, or was given the first free one. -/
lemma logSlot_origin {a : LogID} {i : ℕ} (h : (logSlot E fault id create p).1.idToSlot.lookup a = some i) :
    p.idToSlot.lookup a = some i ∨ p.idToSlot.lookup a = none ∧ i ∈ p.freeSlots := by
  rcases logSlot_cases E p fault id create with hsame | ⟨f,rest,hid,hfree,hrun⟩
  · rw [hsame] at h
    exact .inl h
  · rw [hrun] at h
    dsimp only at h
    rw [(storeDirectory_frame fault).1] at h
    rcases SlotMap.lookup_insert_cases h with ⟨rfl,rfl⟩ | ⟨-,ha⟩
    · exact .inr ⟨hid,by rw [hfree]; exact List.mem_cons_self⟩
    · exact .inl ha

lemma logSlot_freeSlots : (logSlot E fault id create p).1.freeSlots ⊆ p.freeSlots := by
  rcases logSlot_cases E p fault id create with hsame | ⟨f,rest,-,hfree,hrun⟩
  · rw [hsame]
    exact List.Subset.refl _
  · rw [hrun]
    dsimp only
    rw [(storeDirectory_frame fault).2,hfree]
    exact List.subset_cons_self ..

/-- Logs keep their slots. -/
lemma logSlot_within (E : External Origin LogID) (fault : Fault) (id : LogID) (create : Bool)
    (p : SlotPersistence M LogID) : p.idToSlot.Within (logSlot E fault id create p).1.idToSlot := by
  rcases logSlot_cases E p fault id create with hsame | ⟨f,rest,hid,-,hrun⟩
  · rw [hsame]
    exact .refl _
  · rw [hrun]
    dsimp only
    rw [(storeDirectory_frame fault).1]
    exact SlotMap.within_insert f hid

/-- The slot that is returned is the one in the map. -/
lemma logSlot_lookup {i : ℕ} (h : (logSlot E fault id create p).2 = .ok i) :
    (logSlot E fault id create p).1.idToSlot.lookup id = some i := by
  cases hid : p.idToSlot.lookup id with
  | some i' =>
    rw [logSlot_found hid] at h ⊢
    cases h
    exact hid
  | none =>
    cases create with
    | false =>
      rw [logSlot_missing hid] at h
      cases h
    | true =>
      cases hfree : p.freeSlots with
      | nil =>
        rw [logSlot_full hid hfree] at h
        cases h
      | cons f rest =>
        rw [logSlot_assign hid hfree] at h ⊢
        obtain ⟨u,-,rfl⟩ := Outcome.map_eq_ok.mp h
        dsimp only
        rw [(storeDirectory_frame fault).1]
        exact Finmap.lookup_insert _

end LogSlot

omit [DecidableEq LogID] in
/-- What `Init` does with the directory slot once it is open. -/
lemma init_of_open {part : Partition M}
    (ho : p.part.openSlot mappingConfigSlot = (part,.ok ())) : init E p =
      (populateMap E).mapError .populateMap
        {p with part := part, directorySlot := some mappingConfigSlot} := by
  simp only [init,bind_run,onPart,ho,Outcome.mapError_ok,next_ok,modify_run]

omit [DecidableEq LogID] in
lemma findFreeSlots_eq_ok {q : SlotPersistence M LogID} (h : findFreeSlots E p = (q,.ok ()))
    (hn : 0 < p.part.numSlots) : (∀ i ∈ p.idToSlot.slots, 0 < i ∧ i < p.part.numSlots) ∧
      q = {p with freeSlots := (List.range p.part.numSlots).filter fun idx =>
        ¬ (idx = mappingConfigSlot ∨ idx ∈ p.idToSlot.slots)} := by
  cases hfind : (E.range p.idToSlot).1.find? (outOfRange p.part.numSlots) with
  | some idx =>
    rw [findFreeSlots_bad hfind] at h
    split_ifs at h <;> cases h
  | none =>
    have hrange := in_range_of_find hfind
    rw [findFreeSlots_run hrange hn] at h
    exact ⟨hrange,(congrArg Prod.fst h).symm⟩

omit [DecidableEq LogID] in
lemma populateMap_eq_ok {q : SlotPersistence M LogID} (hdir : p.directorySlot = some mappingConfigSlot)
    (h : populateMap E p = (q,.ok ())) : ∃ s j m, p.part.slots[mappingConfigSlot]? = some s ∧ s.journal = some j ∧
      findFreeSlots E {p with idToSlot := m, directoryWriteToken := j.current.revision} = (q,.ok ()) := by
  cases hs : p.part.slots[mappingConfigSlot]? with
  | none =>
    simp only [populateMap,bind_run,directory,hdir,next_ok,onPart,Partition.read,Partition.onSlot,hs,
      Outcome.mapError_panic,next_panic,Prod.mk.injEq,reduceCtorEq,and_false] at h
  | some s =>
    cases hj : s.journal with
    | none =>
      simp only [populateMap,bind_run,directory,hdir,next_ok,onPart,Partition.read_eq hs,Slot.read,hj,
        Outcome.mapError_panic,next_panic,Prod.mk.injEq,reduceCtorEq,and_false] at h
    | some j =>
      cases hu : E.unmarshalMap j.current.data p.idToSlot with
      | mk m r =>
        cases r with
        | ok u =>
          rw [populateMap_read hdir hs hj hu] at h
          exact ⟨s,j,m,rfl,hj,h⟩
        | error e =>
          simp only [populateMap,bind_run,directory,hdir,next_ok,onPart,Partition.read_eq hs,Slot.read,hj,
            Outcome.mapError_ok,get_run,Journal.data,hu,modify_run,lift_run,Outcome.mapError_error,next_error,
            Prod.mk.injEq,reduceCtorEq,and_false] at h
        | panic e =>
          simp only [populateMap,bind_run,directory,hdir,next_ok,onPart,Partition.read_eq hs,Slot.read,hj,
            Outcome.mapError_ok,get_run,Journal.data,hu,modify_run,lift_run,Outcome.mapError_panic,next_panic,
            Prod.mk.injEq,reduceCtorEq,and_false] at h

omit [DecidableEq LogID] in
/-- What `Init` has done when it returns nil. -/
lemma init_eq_ok {q : SlotPersistence M LogID} (h : init E p = (q,.ok ())) : ∃ part s j,
    p.part.openSlot mappingConfigSlot = (part,.ok ()) ∧ part.slots[mappingConfigSlot]? = some s ∧
    s.journal = some j ∧ (∀ i ∈ q.idToSlot.slots, 0 < i ∧ i < part.numSlots) ∧
    q = ⟨part,some mappingConfigSlot,j.current.revision,q.idToSlot,(List.range part.numSlots).filter fun idx =>
      ¬ (idx = mappingConfigSlot ∨ idx ∈ q.idToSlot.slots)⟩ := by
  obtain ⟨p1,u,hopen,-⟩ := next_eq_ok h
  cases ho : p.part.openSlot mappingConfigSlot with
  | mk part r =>
    have hr : r = .ok () := by
      simp only [onPart,ho] at hopen
      exact Outcome.mapError_eq_ok.mp (congrArg Prod.snd hopen)
    subst hr
    rw [init_of_open ho,mapError_run] at h
    obtain ⟨hstate,hresult⟩ := Prod.mk.inj h
    have hpop : populateMap E {p with part := part, directorySlot := some mappingConfigSlot} = (q,.ok ()) :=
      Prod.ext hstate (Outcome.mapError_eq_ok.mp hresult)
    obtain ⟨s,j,m,hs,hj,hfind⟩ := populateMap_eq_ok rfl hpop
    obtain ⟨hrange,rfl⟩ := findFreeSlots_eq_ok hfind (List.getElem?_eq_some_iff.mp hs).1
    exact ⟨part,s,j,rfl,hs,hj,hrange,rfl⟩

end SlotPersistence
end ArmoredWitness.Persistence
