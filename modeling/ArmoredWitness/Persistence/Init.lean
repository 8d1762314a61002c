import ArmoredWitness.Persistence.Tally

/-! What `Init` makes of the directory slot, and what the persistence keeps in memory
from then on. Nothing here depends on how the device treats the writes: the directory is
read from the journal in memory, and only a restart looks at the device again. -/
namespace ArmoredWitness.Persistence
open Lib Lib.Action Slots

variable {M : Machine} {Origin LogID : Type} [DecidableEq LogID]

/-- The representation invariant. -/
structure SlotPersistence.Valid (p : SlotPersistence M LogID) : Prop where
  map : p.idToSlot.Valid p.part.numSlots
  free : p.idToSlot.Free p.part.numSlots p.freeSlots
  directory : p.directorySlot = some mappingConfigSlot
  token : ∃ s j, p.part.slots[mappingConfigSlot]? = some s ∧ s.journal = some j ∧
    j.current.revision = p.directoryWriteToken

namespace SlotPersistence

/-- `Init` returns an error, or it has read a directory in which every log has a slot of
its own and listed the other slots. -/
def InitSound (E : External Origin LogID) (p : SlotPersistence M LogID) : Prop :=
  match init E p with
  | (q,.ok _) => q.idToSlot.Valid q.part.numSlots ∧ q.idToSlot.Free q.part.numSlots q.freeSlots
  | (_,.error _) => True
  | (_,.panic _) => False

/-- The persistence after a sequence of calls. -/
def after (E : External Origin LogID) (g : Geometry) (p : SlotPersistence M LogID)
    (calls : List (Call Origin)) : SlotPersistence M LogID := calls.foldl (fun p c => (p.call E g c).1) p

end SlotPersistence

namespace SlotPersistence.Valid
variable {E : External Origin LogID} {p : SlotPersistence M LogID}

/-- Another partition, and the token of the directory in it. -/
lemma replace (h : p.Valid) {part : Partition M} {token : UInt32} {s : Slot} {j : Journal}
    (hn : part.numSlots = p.part.numSlots) (hs : part.slots[mappingConfigSlot]? = some s)
    (hj : s.journal = some j) (hrev : j.current.revision = token) :
    Valid {p with part := part, directoryWriteToken := token} :=
  ⟨by rw [hn]; exact h.map,by rw [hn]; exact h.free,h.directory,s,j,hs,hj,hrev⟩

/-- A change to the partition that leaves the directory slot alone. -/
lemma touch (h : p.Valid) {part : Partition M}
    (hslot : part.slots[mappingConfigSlot]? = p.part.slots[mappingConfigSlot]?)
    (hn : part.numSlots = p.part.numSlots) : Valid {p with part := part} := by
  obtain ⟨s,j,hs,hj,hrev⟩ := h.token
  exact h.replace hn (hslot.trans hs) hj hrev

/-- The first free slot is in range and not that of any log. -/
lemma first_free (h : p.Valid) {f : ℕ} {rest : List ℕ} (hfree : p.freeSlots = f::rest) :
    0 < f ∧ f < p.part.numSlots ∧ ∀ a, p.idToSlot.lookup a ≠ some f := by
  have hlist := h.free
  rw [hfree] at hlist
  exact (hlist.mem_iff f).mp List.mem_cons_self

/-- A log gets the first free slot, in memory. -/
lemma assign (h : p.Valid) {id : LogID} {f : ℕ} {rest : List ℕ} (hid : p.idToSlot.lookup id = none)
    (hfree : p.freeSlots = f::rest) : Valid {p with freeSlots := rest, idToSlot := p.idToSlot.insert id f} := by
  obtain ⟨hpos,hlt,hunused⟩ := h.first_free hfree
  have hlist := h.free
  rw [hfree] at hlist
  exact ⟨h.map.insert id hpos hlt hunused,hlist.insert hid,h.directory,h.token⟩

/-- Storing the directory: the token follows the journal, whether the write succeeds or
not, and it is never stale. -/
theorem store (h : p.Valid) (E : External Origin LogID) (fault : Fault) :
    (storeDirectory E fault p).1.Valid ∧ (storeDirectory E fault p).2 ≠ .error (.store .invalidToken) ∧
      ∀ j', (storeDirectory E fault p).1.part.journal mappingConfigSlot = some j' →
        (∃ j, p.part.journal mappingConfigSlot = some j ∧ j'.current.data = j.current.data) ∨
          E.marshalMap p.idToSlot = .ok j'.current.data := by
  obtain ⟨s,j,hs,hj,hrev⟩ := h.token
  cases hm : E.marshalMap p.idToSlot with
  | error e =>
    rw [storeDirectory_marshal_error hm]
    exact ⟨h,nofun,fun j' hj' => .inl ⟨j',hj',rfl⟩⟩
  | panic q =>
    rw [storeDirectory_marshal_panic hm]
    exact ⟨h,nofun,fun j' hj' => .inl ⟨j',hj',rfl⟩⟩
  | ok t =>
    have hfresh : (p.part.write fault mappingConfigSlot t).2 ≠ .error .invalidToken :=
      Partition.write_ne_invalidToken
    obtain ⟨d',j',r,hw,hcases⟩ := Partition.write_spec hs fault t hj
    have hrun : storeDirectory E fault p = next
        ({p with part := ⟨d',p.part.slots.set mappingConfigSlot {s with journal := some j'}⟩},r.mapError .store)
        fun _ => modify fun p => {p with directoryWriteToken := p.directoryWriteToken+1} := by
      rw [storeDirectory_eq h.directory hm,Partition.checkAndWrite_fresh hs hj hrev,hw]
    have hslot : (p.part.slots.set mappingConfigSlot {s with journal := some j'})[mappingConfigSlot]? =
        some {s with journal := some j'} := List.getElem?_set_self (List.getElem?_eq_some_iff.mp hs).1
    have hjournal : (⟨d',p.part.slots.set mappingConfigSlot {s with journal := some j'}⟩ : Partition M).journal
        mappingConfigSlot = some j' := Partition.journal_set hs _ _
    have hreplace : ∀ token, j'.current.revision = token → Valid {p with
        part := ⟨d',p.part.slots.set mappingConfigSlot {s with journal := some j'}⟩
        directoryWriteToken := token} :=
      fun _ => h.replace List.length_set hslot rfl
    rw [hw] at hfresh
    rw [hrun]
    rcases hcases with ⟨rfl,hcur⟩ | ⟨hne,hcur⟩
    · refine ⟨hreplace _ (by rw [hcur,← hrev]; rfl),nofun,fun j'' hj'' => .inr ?_⟩
      cases hjournal.symm.trans hj''
      rw [hcur]
      rfl
    · have hkept := hreplace p.directoryWriteToken (by rw [hcur]; exact hrev)
      have htext : ∀ j'', (⟨d',p.part.slots.set mappingConfigSlot {s with journal := some j'}⟩ : Partition M).journal
          mappingConfigSlot = some j'' → ∃ j, p.part.journal mappingConfigSlot = some j ∧
            j''.current.data = j.current.data := by
        intro j'' hj''
        cases hjournal.symm.trans hj''
        exact ⟨j,(Partition.journal_of_some hs).trans hj,by rw [hcur]⟩
      cases r with
      | ok u => exact absurd rfl hne
      | error e =>
        refine ⟨hkept,fun hc => hfresh ?_,fun j'' hj'' => .inl (htext j'' hj'')⟩
        cases hc
        rfl
      | panic q => exact ⟨hkept,nofun,fun j'' hj'' => .inl (htext j'' hj'')⟩

/-- A new log, or one that has a slot. -/
lemma logSlot (h : p.Valid) (E : External Origin LogID) (fault : Fault) (id : LogID) (create : Bool) :
    (SlotPersistence.logSlot E fault id create p).1.Valid := by
  rcases logSlot_cases E p fault id create with hsame | ⟨f,rest,hid,hfree,hrun⟩
  · rwa [hsame]
  · rw [hrun]
    exact ((h.assign hid hfree).store E fault).1

end SlotPersistence.Valid

/-- What `Init` checks of the directory: it is sound exactly if the directory is valid or
the first bad slot number that the loop comes to is the reserved one. -/
theorem init_sound_iff (E : External Origin LogID) (p : SlotPersistence M LogID) (part : Partition M)
    (ho : p.part.openSlot mappingConfigSlot = (part,.ok ())) (b : List UInt8) (t : UInt32)
    (hread : (part.read mappingConfigSlot).2 = .ok (b,t)) (m : SlotMap LogID)
    (hm : E.unmarshalMap b p.idToSlot = (m,.ok ())) :
    p.InitSound E ↔ m.Valid part.numSlots ∨
      (E.range m).1.find? (SlotPersistence.outOfRange part.numSlots) = some mappingConfigSlot := by
  obtain ⟨j,hj,hdata⟩ := Partition.read_eq_ok hread
  obtain ⟨s,hs,hjs⟩ := Partition.exists_slot hj
  have hb : j.current.data = b := congrArg Prod.fst hdata
  obtain ⟨q,rfl,rfl,hrun⟩ : ∃ q : SlotPersistence M LogID, q.part = part ∧ q.idToSlot = m ∧
      SlotPersistence.init E p = (SlotPersistence.findFreeSlots E).mapError .populateMap q := by
    refine ⟨{p with part := part, directorySlot := some mappingConfigSlot, idToSlot := m,
                    directoryWriteToken := j.current.revision},rfl,rfl,?_⟩
    rw [SlotPersistence.init_of_open ho,mapError_run,SlotPersistence.populateMap_read
      (p := {p with part := part, directorySlot := some mappingConfigSlot}) rfl hs hjs (by rw [hb]; exact hm)]
    rfl
  unfold SlotPersistence.InitSound
  rw [hrun,mapError_run]
  cases hfind : (E.range q.idToSlot).1.find? (SlotPersistence.outOfRange q.part.numSlots) with
  | some idx =>
    rw [SlotPersistence.findFreeSlots_bad hfind]
    by_cases hidx : idx = mappingConfigSlot
    · simp [hidx]
    · have hbad : ¬ q.idToSlot.Valid q.part.numSlots := by
        intro hv
        have hmem := List.mem_of_find?_eq_some hfind
        have hrange := hv.in_range idx (E.mem_range.mp hmem)
        have hout := List.find?_some hfind
        simp only [SlotPersistence.outOfRange,decide_eq_true_eq] at hout
        omega
      simp [hidx,hbad]
  | none =>
    have hrange := SlotPersistence.in_range_of_find hfind
    rw [SlotPersistence.findFreeSlots_run hrange (List.getElem?_eq_some_iff.mp hs).1]
    simp only [Outcome.mapError_ok,reduceCtorEq,or_false,and_iff_left_iff_imp]
    exact fun _ => SlotMap.free_filter _ _

/-- The partition of three slots, with a directory of the given text in the first. -/
def Tally.storing (b : List UInt8) : Partition smallMachine :=
  ⟨((threeSlotsOpen.openSlot mappingConfigSlot).1.write none mappingConfigSlot b).1.dev,
    layout smallMachine 0 [6,6,6]⟩

theorem init_sound_threeSlots : (newSlotPersistence Tally.threeSlotsOpen).InitSound Tally.external :=
  (init_sound_iff Tally.external _ (Tally.threeSlotsOpen.openSlot mappingConfigSlot).1
    (Prod.ext rfl (by decide +kernel)) [] 0 (by decide +kernel) ∅ rfl).mpr (.inl (.empty _))

/-- A directory that gives two logs the same slot is accepted, and a slot number out of
range makes `Init` panic. -/
theorem bad_directory_accepted :
    ((SlotPersistence.init Tally.external (newSlotPersistence (Tally.storing [0x7c,0x3b,0x7c,0x3b]))).2 = .ok () ∧
      (SlotPersistence.init Tally.external
        (newSlotPersistence (Tally.storing [0x7c,0x3b,0x7c,0x3b]))).1.idToSlot.lookup false = some 1 ∧
      (SlotPersistence.init Tally.external
        (newSlotPersistence (Tally.storing [0x7c,0x3b,0x7c,0x3b]))).1.idToSlot.lookup true = some 1) ∧
    (SlotPersistence.init Tally.external (newSlotPersistence
      (Tally.storing [0x7c,0x7c,0x7c,0x7c,0x7c,0x3b,0x2d]))).2 = .panic (.indexOutOfRange 5 3) := by
  decide +kernel

/-- The list of the free slots is determined by the directory. -/
lemma SlotMap.Free.unique {m : SlotMap LogID} {n : ℕ} {free free' : List ℕ} (h : m.Free n free)
    (h' : m.Free n free') : free = free' := by
  have hperm : free.Perm free' := by
    refine (List.perm_ext_iff_of_nodup (h.ascending.imp Nat.ne_of_lt) (h'.ascending.imp Nat.ne_of_lt)).mpr
      fun i => ?_
    rw [h.mem_iff,h'.mem_iff]
  exact hperm.eq_of_pairwise (fun a b _ _ hab hba => absurd hab (Nat.lt_asymm hba)) h.ascending h'.ascending

/-- The directory in memory extends the one with this text. -/
def Extends (E : External Origin LogID) (m : SlotMap LogID) (data : List UInt8) : Prop :=
  data = [] ∨ ∃ m0, E.marshalMap m0 = .ok data ∧ m0.Within m

namespace Extends
variable {E : External Origin LogID} {m m' : SlotMap LogID} {data : List UInt8}

lemma mono (h : Extends E m data) (hm : m.Within m') : Extends E m' data :=
  h.imp id fun ⟨m0,ht,hw⟩ => ⟨m0,ht,hw.trans hm⟩

/-- Reading the stored directory again adds nothing. -/
lemma unmarshal (h : Extends E m data) (hyaml : E.RoundTrips) : E.unmarshalMap data m = (m,.ok ()) := by
  rcases h with rfl | ⟨m0,ht,hw⟩
  · exact hyaml.empty m
  · obtain ⟨b,hb,hround⟩ := hyaml.marshal m0
    cases ht.symm.trans hb
    rw [hround m,SlotMap.union_of_within hw]

end Extends

/-- The persistence in memory, after `Init`. -/
structure Initialised (E : External Origin LogID) (p : SlotPersistence M LogID) : Prop extends p.Valid where
  stored : ∀ j, p.part.journal mappingConfigSlot = some j → Extends E p.idToSlot j.current.data

section Rules
variable {E : External Origin LogID} {P Q R : SlotPersistence M LogID → Prop} {i : ℕ} {ε δ α : Type}

/-- Opening and reading the slot of a log keeps `P`, and a write to it, which comes last,
leaves at least `R`. -/
structure Indifferent (P R : SlotPersistence M LogID → Prop) : Prop where
  openSlot : ∀ p i, 0 < i → P p → P {p with part := (p.part.openSlot i).1}
  read : ∀ p i, 0 < i → P p → P {p with part := (p.part.read i).1}
  checkAndWrite : ∀ p i fault token data, 0 < i → P p →
    R {p with part := (p.part.checkAndWrite fault i token data).1}
  weaken : ∀ p, P p → R p

omit [DecidableEq LogID] in
lemma onPart_spec (wrap : δ → ε) {f : Partition M → Partition M × Outcome δ α}
    (hf : ∀ p : SlotPersistence M LogID, P p → R {p with part := (f p.part).1}) :
    Spec P (SlotPersistence.onPart wrap f) (fun _ => R) R := by
  intro p hp
  have h := hf p hp
  cases hr : (f p.part).2 <;> simp only [SlotPersistence.onPart,hr,Outcome.mapError] <;> exact h

/-- The slot that a search returns is the slot of a log. -/
lemma logSlot_spec {fault : Fault} {id : LogID} {create : Bool}
    (hkeep : ∀ p, Q p → P (SlotPersistence.logSlot E fault id create p).1)
    (hpos : ∀ p i, P p → p.idToSlot.lookup id = some i → 0 < i) :
    Spec Q (SlotPersistence.logSlot E fault id create) (fun i q => P q ∧ 0 < i) P := by
  intro p hp
  have hq := hkeep p hp
  split
  · rename_i t i heq
    have hlookup := SlotPersistence.logSlot_lookup (congrArg Prod.snd heq)
    rw [heq] at hq hlookup
    exact ⟨hq,hpos t i hq hlookup⟩
  · rename_i t r hne heq
    rwa [heq] at hq

namespace Indifferent
variable (h : Indifferent P R)
include h

omit [DecidableEq LogID] in
lemma openAndRead (hi : 0 < i) (id : LogID) :
    Spec P (SlotPersistence.openAndRead i id) (fun _ => P) P :=
  .bind (onPart_spec _ fun p hp => h.openSlot p i hi hp) fun _ => onPart_spec _ fun p hp => h.read p i hi hp

variable {fault : Fault} {origin : Origin}

lemma prepare (hfind : Spec Q (SlotPersistence.logSlot E fault (E.logID origin) true)
    (fun i q => P q ∧ 0 < i) P) :
    Spec Q (SlotPersistence.prepare E fault origin) (fun x q => P q ∧ 0 < x.1) P := by
  refine .bind hfind fun i => .assuming fun hi => .bind (h.openAndRead hi _) fun (b,t) => ?_
  exact .bind (.lift (fun _ _ hs _ => hs) fun _ hs => hs) fun currCP => .pure fun _ hs => ⟨hs,hi⟩

lemma update {faults : SlotPersistence.Faults}
    (hfind : Spec Q (SlotPersistence.logSlot E faults.directory (E.logID origin) true)
      (fun i q => P q ∧ 0 < i) P) (f : SlotPersistence.Callback) :
    Spec Q (SlotPersistence.update E faults origin f) (fun _ => R) R := by
  refine .bind ((h.prepare hfind).mono (fun _ _ hs => hs) h.weaken) fun (i,t,currCP) => .assuming fun hi => ?_
  refine .bind (.lift (Q := fun _ => P) (fun _ _ hs _ => hs) h.weaken) fun newCP => ?_
  exact onPart_spec _ fun p hp => h.checkAndWrite p i _ _ _ hi hp

lemma latest (hfind : Spec Q (SlotPersistence.logSlot E none (E.logID origin) false)
    (fun i q => P q ∧ 0 < i) P) : Spec Q (SlotPersistence.latest E origin) (fun _ => P) P := by
  refine .bind hfind fun i => .assuming fun hi => .bind (h.openAndRead hi _) fun (b,t) => ?_
  dsimp only
  split_ifs
  · exact .fail fun _ hs => hs
  · exact .lift (fun _ _ hs _ => hs) fun _ hs => hs

end Indifferent
end Rules

namespace Initialised
variable {E : External Origin LogID} {p : SlotPersistence M LogID}

/-- `Init` again changes nothing at all. -/
theorem init (h : Initialised E p) (hyaml : E.RoundTrips) : SlotPersistence.init E p = (p,.ok ()) := by
  obtain ⟨s,j,hs,hj,hrev⟩ := h.token
  have hu := (h.stored j ((Partition.journal_of_some hs).trans hj)).unmarshal hyaml
  have hdir : {p with part := p.part, directorySlot := some mappingConfigSlot} = p := by rw [← h.directory]
  rw [SlotPersistence.init_of_open (Partition.openSlot_opened hs hj),mapError_run,hdir,
    SlotPersistence.populateMap_run h.directory hs hj hu h.map.in_range,hrev,
    (SlotMap.free_filter p.idToSlot _).unique h.free]
  rfl

/-- A change to the partition that leaves the directory slot alone. -/
lemma touch (h : Initialised E p) {part : Partition M}
    (hslot : part.slots[mappingConfigSlot]? = p.part.slots[mappingConfigSlot]?)
    (hn : part.numSlots = p.part.numSlots) : Initialised E {p with part := part} := by
  refine ⟨h.toValid.touch hslot hn,fun j hj => h.stored j ?_⟩
  rw [← hj,Partition.journal,Partition.journal,hslot]

lemma indifferent : Indifferent (M := M) (Initialised E) (Initialised E) where
  openSlot _ _ hi hp := hp.touch (Partition.openSlot_slot_ne (Nat.ne_of_gt hi)) Partition.openSlot_numSlots
  read _ _ hi hp := hp.touch (Partition.onSlot_slot_ne _ (Nat.ne_of_gt hi)) (Partition.onSlot_numSlots _)
  checkAndWrite _ _ _ _ _ hi hp :=
    hp.touch (Partition.onSlot_slot_ne _ (Nat.ne_of_gt hi)) (Partition.onSlot_numSlots _)
  weaken _ hp := hp

/-- A log gets the first free slot, in memory. -/
lemma assign (h : Initialised E p) {id : LogID} {f : ℕ} {rest : List ℕ} (hid : p.idToSlot.lookup id = none)
    (hfree : p.freeSlots = f::rest) :
    Initialised E {p with freeSlots := rest, idToSlot := p.idToSlot.insert id f} :=
  ⟨h.toValid.assign hid hfree,fun j hj => (h.stored j hj).mono (SlotMap.within_insert f hid)⟩

/-- The directory is stored, or the write fails. -/
lemma store (h : Initialised E p) (fault : Fault) :
    Initialised E (SlotPersistence.storeDirectory E fault p).1 := by
  obtain ⟨hvalid,-,htext⟩ := h.toValid.store E fault
  refine ⟨hvalid,?_⟩
  intro j' hj'
  rw [(SlotPersistence.storeDirectory_frame fault).1]
  rcases htext j' hj' with ⟨j,hj,hsame⟩ | hm
  · rw [hsame]
    exact h.stored j hj
  · exact .inr ⟨_,hm,.refl _⟩

/-- The slot of a log, found or assigned. -/
theorem logSlot (h : Initialised E p) (fault : Fault) (id : LogID) (create : Bool) :
    Initialised E (SlotPersistence.logSlot E fault id create p).1 := by
  rcases SlotPersistence.logSlot_cases E p fault id create with hsame | ⟨f,rest,hid,hfree,hrun⟩
  · rwa [hsame]
  · rw [hrun]
    exact (h.assign hid hfree).store fault

lemma find (fault : Fault) (id : LogID) (create : Bool) :
    Spec (Initialised (M := M) E) (SlotPersistence.logSlot E fault id create)
      (fun i q => Initialised E q ∧ 0 < i) (Initialised E) :=
  logSlot_spec (fun _ hp => hp.logSlot fault id create) fun _ i hq hi => hq.map.pos id i hi

variable (hyaml : E.RoundTrips)
include hyaml

/-- A call that is not a restart. -/
theorem call (h : Initialised E p) (g : Geometry) {c : Call Origin} (hc : c ≠ .restart) :
    Initialised E (p.call E g c).1 := by
  cases c with
  | init =>
    rw [SlotPersistence.call,h.init hyaml]
    exact h
  | update faults origin f =>
    exact (indifferent.update (find faults.directory (E.logID origin) true) f).state h
  | latest origin => exact (indifferent.latest (find none (E.logID origin) false)).state h
  | restart => exact absurd rfl hc

theorem after (h : Initialised E p) (g : Geometry) {calls : List (Call Origin)} (hno : .restart ∉ calls) :
    Initialised E (p.after E g calls) := by
  induction calls generalizing p with
  | nil => exact h
  | cons c calls ih =>
    obtain ⟨hc,hno'⟩ := not_or.mp (mt List.mem_cons.mpr hno)
    exact ih (h.call hyaml g (Ne.symm hc)) hno'

end Initialised

section Blank
variable {E : External Origin LogID} {part : Partition M}

/-- The slot is blank, and its headers are within reach. -/
structure Unwritten (dev : Device M) (s : Slot) : Prop where
  zero : ∀ q ∈ s.range, dev.block q = zeroBlock M
  reach : ∀ q ∈ s.range, q*M.blockSize+entryHeaderSize ≤ M.space

lemma Unwritten.openJournal {dev : Device M} {s : Slot} (h : Unwritten dev s) :
    ∃ j, Slots.openJournal dev s.start s.length = .ok j ∧ j.current = Entry.zero := by
  refine ⟨_,openJournal_of_unseen fun q hq hq' => ?_,rfl⟩
  have hmem : q ∈ s.range := ⟨hq,hq'.trans_le (M.uint_le _)⟩
  exact Device.sees_zero (h.zero q hmem) (h.reach q hmem)

/-- The first `Init` on a partition whose directory slot is blank. -/
lemma init_of_blank {s : Slot} (hs : part.slots[mappingConfigSlot]? = some s) (hj : s.journal = none)
    (hblank : Unwritten part.dev s) (hempty : E.unmarshalMap [] ∅ = (∅,.ok ())) :
    Initialised E (SlotPersistence.init E (newSlotPersistence part)).1 ∧
      (SlotPersistence.init E (newSlotPersistence part)).1.part = (part.openSlot mappingConfigSlot).1 ∧
      (SlotPersistence.init E (newSlotPersistence part)).1.idToSlot = ∅ := by
  obtain ⟨j,ho,hcur⟩ := hblank.openJournal
  have hslot : (part.slots.set mappingConfigSlot {s with journal := some j})[mappingConfigSlot]? =
      some {s with journal := some j} := List.getElem?_set_self (List.getElem?_eq_some_iff.mp hs).1
  have hopen : (newSlotPersistence part : SlotPersistence M LogID).part.openSlot mappingConfigSlot =
      (⟨part.dev,part.slots.set mappingConfigSlot {s with journal := some j}⟩,.ok ()) :=
    Partition.openSlot_ok hs hj ho
  have hu : E.unmarshalMap j.current.data ∅ = (∅,.ok ()) := by
    rw [hcur]
    exact hempty
  have hvalid : ∀ n, (∅ : SlotMap LogID).Valid n := SlotMap.Valid.empty
  rw [SlotPersistence.init_of_open hopen,mapError_run,SlotPersistence.populateMap_run
    (p := {newSlotPersistence part with part := _, directorySlot := some mappingConfigSlot})
    rfl hslot rfl hu (hvalid _).in_range]
  refine ⟨⟨⟨hvalid _,SlotMap.free_filter ∅ _,rfl,_,j,hslot,rfl,rfl⟩,fun j' hj' => ?_⟩,
    (congrArg Prod.fst hopen).symm,rfl⟩
  cases (Partition.journal_of_some hslot).symm.trans hj'
  rw [hcur]
  exact .inl rfl

/-- Without a slot that is known to be free, nothing happens before `Init`. -/
lemma call_before_init (g : Geometry) {c : Call Origin} (hc : c ≠ .restart) (hinit : c ≠ .init) :
    ((newSlotPersistence part : SlotPersistence M LogID).call E g c).1 = newSlotPersistence part := by
  have hid : ∀ id : LogID, (newSlotPersistence part : SlotPersistence M LogID).idToSlot.lookup id = none :=
    fun id => Finmap.lookup_empty id
  cases c with
  | init => exact absurd rfl hinit
  | update faults origin f => rw [SlotPersistence.call,SlotPersistence.update_full (hid _) rfl]
  | latest origin => rw [SlotPersistence.call,SlotPersistence.latest_missing (hid _)]
  | restart => exact absurd rfl hc

/-- A run without restarts that has called `Init`. -/
lemma initialised_after {s : Slot} (hs : part.slots[mappingConfigSlot]? = some s) (hj : s.journal = none)
    (hblank : Unwritten part.dev s) (hyaml : E.RoundTrips) (g : Geometry)
    {calls : List (Call Origin)} (hno : .restart ∉ calls) (hinit : .init ∈ calls) :
    Initialised E ((newSlotPersistence part).after E g calls) := by
  induction calls with
  | nil => cases hinit
  | cons c calls ih =>
    obtain ⟨hc,hno'⟩ := not_or.mp (mt List.mem_cons.mpr hno)
    by_cases hci : c = .init
    · subst hci
      exact (init_of_blank hs hj hblank (hyaml.empty ∅)).1.after hyaml g hno'
    · have hin : .init ∈ calls := (List.mem_cons.mp hinit).resolve_left (Ne.symm hci)
      have hstep : ((newSlotPersistence part).call E g c).1 = newSlotPersistence part :=
        call_before_init g (Ne.symm hc) hci
      rw [SlotPersistence.after,List.foldl_cons,hstep]
      exact ih hno' hin

end Blank

/-- `Init` is idempotent as long as the directory slot is within reach: called again, in
any state that `Init`, `Update` and `Latest` reach from a blank partition with writes
failing at any point, it returns nil and leaves the persistence exactly as it was. -/
theorem init_idempotent (part : Partition M) (hslots : 0 < part.numSlots)
    (hnew : ∀ s ∈ part.slots, s.journal = none)
    (hblank : ∀ s ∈ part.slots, ∀ q ∈ s.range, part.dev.block q = zeroBlock M)
    (hreach : ∀ s ∈ part.slots[mappingConfigSlot]?, ∀ q ∈ s.range, q*M.blockSize+entryHeaderSize ≤ M.space)
    (E : External Origin LogID) (hyaml : E.RoundTrips) (g : Geometry) (calls : List (Call Origin))
    (hno : .restart ∉ calls) (hinit : .init ∈ calls) :
    SlotPersistence.init E ((newSlotPersistence part).after E g calls) =
      ((newSlotPersistence part).after E g calls,.ok ()) := by
  have hs := List.getElem?_eq_getElem hslots
  have hmem := List.mem_of_getElem? hs
  exact (initialised_after hs (hnew _ hmem) ⟨hblank _ hmem,hreach _ hs⟩ hyaml g hno hinit).init hyaml

/-- `Init` after a directory write that failed. -/
theorem init_idempotent_threeSlots :
    SlotPersistence.init Tally.external ((newSlotPersistence Tally.threeSlotsOpen).after Tally.external
      Tally.threeSlots [.init,.update ⟨some 0,none⟩ false fun _ => .ok [0x41]]) =
    ((newSlotPersistence Tally.threeSlotsOpen).after Tally.external Tally.threeSlots
      [.init,.update ⟨some 0,none⟩ false fun _ => .ok [0x41]],.ok ()) := by
  have hreach : ∀ q ∈ Slot.range ⟨0,6,none⟩, q*smallMachine.blockSize+entryHeaderSize ≤ smallMachine.space := by
    rintro q ⟨-,hq⟩
    have hlt : q < 6 := hq
    have h48 : smallMachine.blockSize = 48 := rfl
    have hspace : 2^32 ≤ smallMachine.space := by decide
    rw [h48]
    change q*48+48 ≤ _
    omega
  refine init_idempotent Tally.threeSlotsOpen (by decide) (layout_unopened _ _ _) (fun _ _ _ _ => rfl) ?_
    Tally.external Tally.roundTrips Tally.threeSlots _ ?_ List.mem_cons_self
  · rintro s ⟨⟩
    exact hreach
  · simp

/-- `Init` on a blank partition that is out of reach reads the first blocks of the device,
and fails each time on the record that is there. -/
theorem init_fails_out_of_reach :
    (∀ s ∈ (Tally.farSlotsOpen [0x54]).slots, ∀ q ∈ s.range,
      (Tally.farSlotsOpen [0x54]).dev.block q = zeroBlock smallMachine) ∧
    (SlotPersistence.init Tally.external
      ((newSlotPersistence (Tally.farSlotsOpen [0x54])).after Tally.external Tally.farSlots [.init])).2.isOk =
        false := by
  have hstart : ∀ s ∈ (Tally.farSlotsOpen [0x54]).slots, 2^28 ≤ s.start := by decide +kernel
  exact ⟨fun s hs q hq => Tally.farSlots_zero _ ((hstart s hs).trans hq.1),by decide +kernel⟩

end ArmoredWitness.Persistence
