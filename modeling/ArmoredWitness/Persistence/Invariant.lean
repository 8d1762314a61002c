import ArmoredWitness.Persistence.Init
import ArmoredWitness.Slots.Provenance

/-! The representation invariant of the persistence. It survives every call, with
every write failing at any point, and every restart after which `Init` succeeds:
what a restart can find in the directory slot was stored there by the persistence,
although it need not be the newest directory. -/
namespace ArmoredWitness.Persistence
open Lib Lib.Action Slots

variable {M : Machine} {Origin LogID : Type} [DecidableEq LogID]

/-- The directory that an `Update` for the log would store. -/
def SlotPersistence.attempt (E : External Origin LogID) (p : SlotPersistence M LogID) (id : LogID) :
    List (List UInt8) :=
  match p.idToSlot.lookup id, p.freeSlots with
  | none, f::_ =>
    match E.marshalMap (p.idToSlot.insert id f) with
    | .ok t => [t]
    | _ => []
  | _, _ => []

section Invariant
variable (hB : entryHeaderSize ≤ M.blockSize) (slots : List Slot) (E : External Origin LogID)
  (texts : List (List UInt8)) (p : SlotPersistence M LogID)

/-- The partition is laid out as `slots` says, and its first slot holds nothing but
directories, whose texts are listed. -/
structure Grounded : Prop where
  framed : p.part.Framed hB slots
  genuine : ∀ t, slots[mappingConfigSlot]? = some t → p.part.dev.Genuine (t.region hB) texts
  texts_valid : ∀ b ∈ texts, ∃ m : SlotMap LogID, m.Valid slots.length ∧ E.marshalMap m = .ok b

/-- Before `Init`, or after it has failed. -/
structure Idle : Prop extends Grounded hB slots E texts p where
  map : p.idToSlot = ∅
  free : p.freeSlots = []
  data : ∀ s j, p.part.slots[mappingConfigSlot]? = some s → s.journal = some j →
    j.current.data = [] ∨ j.current.data ∈ texts

/-- After `Init`. -/
structure Ready : Prop extends Grounded hB slots E texts p, Initialised E p

end Invariant

variable {hB : entryHeaderSize ≤ M.blockSize} {slots : List Slot} {E : External Origin LogID}
  {texts texts' : List (List UInt8)} {p : SlotPersistence M LogID}

lemma Grounded.mono (h : Grounded hB slots E texts p) (hsub : texts ⊆ texts')
    (hgood : ∀ b ∈ texts', ∃ m : SlotMap LogID, m.Valid slots.length ∧ E.marshalMap m = .ok b) :
    Grounded hB slots E texts' p :=
  ⟨h.framed,fun t ht => (h.genuine t ht).mono hsub,hgood⟩

/-- Operations on the slot of a log. -/
lemma Grounded.touch (h : Grounded hB slots E texts p) {i : ℕ} (hi : 0 < i) {part : Partition M}
    (ht : p.part.Touches hB slots i part) : Grounded hB slots E texts {p with part := part} :=
  ⟨ht.framed,fun t h0 => (h.genuine t h0).congr (ht.alike _ t (Nat.ne_of_lt hi) h0),h.texts_valid⟩

namespace Ready

lemma mono (h : Ready hB slots E texts p) (hsub : texts ⊆ texts')
    (hgood : ∀ b ∈ texts', ∃ m : SlotMap LogID, m.Valid slots.length ∧ E.marshalMap m = .ok b) :
    Ready hB slots E texts' p :=
  ⟨h.toGrounded.mono hsub hgood,h.toInitialised⟩

lemma touch (h : Ready hB slots E texts p) {i : ℕ} (hi : 0 < i) {part : Partition M}
    (ht : p.part.Touches hB slots i part) : Ready hB slots E texts {p with part := part} := by
  have hn : part.numSlots = p.part.numSlots := ht.framed.length.trans h.framed.length.symm
  exact ⟨h.toGrounded.touch hi ht,h.toInitialised.touch (ht.slot _ (Nat.ne_of_lt hi)) hn⟩

/-- A log gets the first free slot, in memory. -/
lemma assign (h : Ready hB slots E texts p) {id : LogID} {f : ℕ} {rest : List ℕ}
    (hid : p.idToSlot.lookup id = none) (hfree : p.freeSlots = f::rest) :
    Ready hB slots E texts {p with freeSlots := rest, idToSlot := p.idToSlot.insert id f} :=
  ⟨⟨h.framed,h.genuine,h.texts_valid⟩,h.toInitialised.assign hid hfree⟩

/-- The directory is stored, or the write fails; the other slots are left alone. -/
lemma store (h : Ready hB slots E texts p) (hap : Apart slots) (hplain : E.PlainText) (fault : Fault)
    {t : List UInt8} (ht : t ∈ texts) (hm : E.marshalMap p.idToSlot = .ok t) :
    Ready hB slots E texts (SlotPersistence.storeDirectory E fault p).1 ∧
      p.part.Touches hB slots mappingConfigSlot (SlotPersistence.storeDirectory E fault p).1.part := by
  have hpart : (SlotPersistence.storeDirectory E fault p).1.part =
      (p.part.checkAndWrite fault mappingConfigSlot p.directoryWriteToken t).1 :=
    SlotPersistence.storeDirectory_part h.directory hm
  have htouch := h.framed.checkAndWrite (i := mappingConfigSlot) hap fault p.directoryWriteToken t
  rw [← hpart] at htouch
  refine ⟨⟨⟨htouch.framed,fun t0 ht0 => ?_,h.texts_valid⟩,h.toInitialised.store fault⟩,htouch⟩
  obtain ⟨s,j,hs,hj,hrev⟩ := h.token
  obtain ⟨s',hs',hfits⟩ := h.framed.slot _ t0 ht0
  cases hs.symm.trans hs'
  rw [hpart,Partition.checkAndWrite_eq hs hj hrev (hfits.journal j hj) (h.framed.on_device _ t0 ht0)]
  exact (h.genuine t0 ht0).store _ ht (hplain.freeOfMagic hm) (j.stored_le fault t)

/-- The texts with the one that an update for the log would add. -/
lemma attempt_valid (h : Ready hB slots E texts p) (id : LogID) :
    ∀ b ∈ p.attempt E id ++ texts, ∃ m : SlotMap LogID, m.Valid slots.length ∧ E.marshalMap m = .ok b := by
  intro b hb
  rcases List.mem_append.mp hb with hb | hb
  · unfold SlotPersistence.attempt at hb
    split at hb
    · rename_i f rest hid hfree
      split at hb
      · rename_i t hm
        obtain rfl := List.mem_singleton.mp hb
        have hmap := (h.assign hid hfree).map
        rw [Partition.numSlots,h.framed.length] at hmap
        exact ⟨_,hmap,hm⟩
      · cases hb
    · cases hb
  · exact h.texts_valid b hb

/-- The slot of a log, found or assigned. -/
theorem logSlot (h : Ready hB slots E texts p) (hap : Apart slots) (hyaml : E.RoundTrips)
    (hplain : E.PlainText) (fault : Fault) (id : LogID) :
    Ready hB slots E (p.attempt E id ++ texts) (SlotPersistence.logSlot E fault id true p).1 ∧
      p.part.Touches hB slots mappingConfigSlot (SlotPersistence.logSlot E fault id true p).1.part := by
  have hmono := h.mono (List.subset_append_right (p.attempt E id) texts) (h.attempt_valid id)
  rcases SlotPersistence.logSlot_cases E p fault id true with hsame | ⟨f,rest,hid,hfree,hrun⟩
  · rw [hsame]
    exact ⟨hmono,.refl h.framed⟩
  · obtain ⟨t,hm,-⟩ := hyaml.marshal (p.idToSlot.insert id f)
    have hattempt : t ∈ p.attempt E id ++ texts := by
      simp only [SlotPersistence.attempt,hid,hfree,hm,List.singleton_append]
      exact List.mem_cons_self
    rw [hrun]
    exact (hmono.assign hid hfree).store hap hplain fault hattempt hm

end Ready

/-- Ready, with every log of `m0` still at its slot. -/
def Steady (hB : entryHeaderSize ≤ M.blockSize) (slots : List Slot) (E : External Origin LogID)
    (texts : List (List UInt8)) (m0 : SlotMap LogID) (p : SlotPersistence M LogID) : Prop :=
  Ready hB slots E texts p ∧ m0.Within p.idToSlot

/-- Every slot is within reach, and so is every record that a header in it claims. -/
def WithinReach (hB : entryHeaderSize ≤ M.blockSize) (slots : List Slot) (d : Device M) : Prop :=
  ∀ (i : ℕ) (t : Slot), slots[i]? = some t → d.Bounded (t.region hB)

/-- Steady, with the slots of the logs within reach. -/
def Sheltered (hB : entryHeaderSize ≤ M.blockSize) (slots : List Slot) (E : External Origin LogID)
    (texts : List (List UInt8)) (m0 : SlotMap LogID) (p : SlotPersistence M LogID) : Prop :=
  Steady hB slots E texts m0 p ∧
    ∀ (i : ℕ) (t : Slot), 0 < i → slots[i]? = some t → p.part.dev.Bounded (t.region hB)

section Calls
variable {m0 : SlotMap LogID} (hap : Apart slots)
include hap

/-- The invariant is about the directory slot; calls on the slots of logs keep to those. -/
lemma steady_indifferent : Indifferent (Sheltered hB slots E texts m0) (Steady hB slots E texts m0) where
  openSlot p i hi hp := by
    refine ⟨⟨hp.1.1.touch hi (hp.1.1.framed.openSlot hap fun t => hp.2 i t hi),hp.1.2⟩,fun k t hk ht => ?_⟩
    dsimp only
    rw [Partition.openSlot_dev]
    exact hp.2 k t hk ht
  read p i hi hp := by
    refine ⟨⟨hp.1.1.touch hi hp.1.1.framed.read,hp.1.2⟩,fun k t hk ht => ?_⟩
    dsimp only
    rw [Partition.read_dev]
    exact hp.2 k t hk ht
  checkAndWrite _ _ _ _ _ hi hp := ⟨hp.1.1.touch hi (hp.1.1.framed.checkAndWrite hap _ _ _),hp.1.2⟩
  weaken _ hp := hp.1

variable (hreach : WithinReach hB slots p.part.dev)
include hreach

theorem Ready.update (h : Ready hB slots E texts p) (hyaml : E.RoundTrips) (hplain : E.PlainText)
    (faults : SlotPersistence.Faults) (origin : Origin) (f : SlotPersistence.Callback) :
    Steady hB slots E (p.attempt E (E.logID origin) ++ texts) p.idToSlot
      (SlotPersistence.update E faults origin f p).1 := by
  have hfind : Spec (fun q => q = p) (SlotPersistence.logSlot E faults.directory (E.logID origin) true)
      (fun i q => Sheltered hB slots E (p.attempt E (E.logID origin) ++ texts) p.idToSlot q ∧ 0 < i)
      (Sheltered hB slots E (p.attempt E (E.logID origin) ++ texts) p.idToSlot) := by
    refine logSlot_spec ?_ fun _ i hq hi => hq.1.1.map.pos _ i hi
    rintro q rfl
    obtain ⟨hready,htouch⟩ := h.logSlot hap hyaml hplain faults.directory (E.logID origin)
    refine ⟨⟨hready,SlotPersistence.logSlot_within E _ _ true q⟩,fun i t hi ht => ?_⟩
    exact (hreach i t ht).congr (htouch.alike i t (Nat.ne_of_gt hi) ht)
  exact ((steady_indifferent hap).update hfind f).state rfl

theorem Ready.latest (h : Ready hB slots E texts p) (origin : Origin) :
    Steady hB slots E texts p.idToSlot (SlotPersistence.latest E origin p).1 := by
  have hfind : Spec (fun q => q = p) (SlotPersistence.logSlot E none (E.logID origin) false)
      (fun i q => Sheltered hB slots E texts p.idToSlot q ∧ 0 < i) (Sheltered hB slots E texts p.idToSlot) := by
    refine logSlot_spec ?_ fun _ i hq hi => hq.1.1.map.pos _ i hi
    rintro q rfl
    rw [SlotPersistence.logSlot_false]
    exact ⟨⟨h,.refl _⟩,fun i t _ => hreach i t⟩
  exact (((steady_indifferent hap).latest hfind).state rfl).1

end Calls

section Init
variable {m : SlotMap LogID} {data : List UInt8} {s : Slot} {j : Journal}

/-- A stored directory is read into an empty map. -/
lemma Grounded.unmarshal (h : Grounded hB slots E texts p) (hyaml : E.RoundTrips)
    (hdata : data = [] ∨ data ∈ texts) : ∃ m, E.unmarshalMap data ∅ = (m,.ok ()) ∧
      m.Valid slots.length ∧ Extends E m data := by
  rcases hdata with rfl | hmem
  · exact ⟨∅,hyaml.empty ∅,.empty _,.inl rfl⟩
  · obtain ⟨m,hm,ht⟩ := h.texts_valid data hmem
    obtain ⟨b,hb,hround⟩ := hyaml.marshal m
    cases ht.symm.trans hb
    exact ⟨m,by rw [hround ∅,Finmap.union_empty],hm,.inr ⟨m,ht,.refl m⟩⟩

/-- Reading the directory makes the persistence ready. -/
lemma Grounded.populate (h : Grounded hB slots E texts p)
    (hdir : p.directorySlot = some mappingConfigSlot)
    (hs : p.part.slots[mappingConfigSlot]? = some s) (hj : s.journal = some j)
    (hu : E.unmarshalMap j.current.data p.idToSlot = (m,.ok ())) (hm : m.Valid slots.length)
    (hst : Extends E m j.current.data) :
    (SlotPersistence.populateMap E p).2 = .ok () ∧
      Ready hB slots E texts (SlotPersistence.populateMap E p).1 ∧
      (SlotPersistence.populateMap E p).1.idToSlot = m := by
  have hn : p.part.numSlots = slots.length := h.framed.length
  rw [← hn] at hm
  rw [SlotPersistence.populateMap_run hdir hs hj hu hm.in_range]
  refine ⟨rfl,⟨⟨h.framed,h.genuine,h.texts_valid⟩,⟨hm,SlotMap.free_filter m _,hdir,s,j,hs,hj,rfl⟩,?_⟩,rfl⟩
  intro j' hj'
  cases ((Partition.journal_of_some hs).trans hj).symm.trans hj'
  exact hst

/-- `Init` again, without a restart, changes nothing. -/
lemma Ready.init (h : Ready hB slots E texts p) (hyaml : E.RoundTrips) :
    Steady hB slots E texts p.idToSlot (SlotPersistence.init E p).1 := by
  rw [h.toInitialised.init hyaml]
  exact ⟨h,.refl _⟩

/-- The first `Init`, or another one after it has failed. -/
theorem Idle.init (h : Idle hB slots E texts p) (hap : Apart slots) (hyaml : E.RoundTrips)
    (hreach : WithinReach hB slots p.part.dev)
    (hu : ∀ t, slots[mappingConfigSlot]? = some t → p.part.dev.Unforged (t.region hB) texts) :
    (SlotPersistence.init E p).2.isOk = true ∧ Ready hB slots E texts (SlotPersistence.init E p).1 ∨
    (SlotPersistence.init E p).2.isOk = false ∧ Idle hB slots E texts (SlotPersistence.init E p).1 := by
  have htouch := h.framed.openSlot hap (i := mappingConfigSlot) (hreach mappingConfigSlot)
  have hopened : ∀ {part : Partition M} {s : Slot} {j : Journal},
      p.part.openSlot mappingConfigSlot = (part,.ok ()) → part.dev = p.part.dev →
      part.slots[mappingConfigSlot]? = some s → s.journal = some j →
      (j.current.data = [] ∨ j.current.data ∈ texts) →
      (SlotPersistence.init E p).2.isOk = true ∧ Ready hB slots E texts (SlotPersistence.init E p).1 := by
    intro part s j ho hdev hs hj hdata
    rw [ho] at htouch
    have hg : Grounded hB slots E texts
        {p with part := part, directorySlot := some mappingConfigSlot} :=
      ⟨htouch.framed,fun t ht => by rw [hdev]; exact h.genuine t ht,h.texts_valid⟩
    obtain ⟨m,hum,hm,hst⟩ := h.toGrounded.unmarshal hyaml hdata
    obtain ⟨hok,hready,-⟩ := hg.populate rfl hs hj (by rw [h.map]; exact hum) hm hst
    rw [SlotPersistence.init_of_open ho,mapError_run,hok]
    exact ⟨rfl,hready⟩
  cases ht : slots[mappingConfigSlot]? with
  | none =>
    have hle : p.part.numSlots ≤ mappingConfigSlot := List.getElem?_eq_none_iff.mp (h.framed.missing ht)
    simp only [SlotPersistence.init,bind_run,SlotPersistence.onPart,Partition.openSlot,if_pos hle,
      Outcome.mapError_error,next_error]
    exact .inr ⟨rfl,h⟩
  | some t =>
    obtain ⟨s,hs,hfits⟩ := h.framed.slot _ t ht
    cases hj : s.journal with
    | some j => exact .inl (hopened (Partition.openSlot_opened hs hj) rfl hs hj (h.data s j hs hj))
    | none =>
      cases ho : openJournal p.part.dev s.start s.length with
      | ok j =>
        have hslot := List.getElem?_set_self (a := {s with journal := some j})
          (List.getElem?_eq_some_iff.mp hs).1
        refine .inl (hopened (Partition.openSlot_ok hs hj ho) rfl hslot rfl ?_)
        rw [hfits.start,hfits.length] at ho
        exact (h.genuine t ht).openJournal (hreach _ t ht) (hu t ht) ho
      | error e =>
        have hread : p.part.read mappingConfigSlot = (p.part,.panic .nilDereference) := by
          rw [Partition.read_eq hs,Slot.read,hj]
        rw [SlotPersistence.init_of_open (Partition.openSlot_error hs hj ho)]
        simp only [SlotPersistence.populateMap,mapError_run,bind_run,SlotPersistence.directory,next_ok,
          SlotPersistence.onPart,hread,Outcome.mapError_panic,next_panic]
        exact .inr ⟨rfl,⟨h.framed,h.genuine,h.texts_valid⟩,h.map,h.free,h.data⟩
      | panic q =>
        simp only [SlotPersistence.init,bind_run,SlotPersistence.onPart,
          Partition.openSlot_panic hs hj ho,Outcome.mapError_panic,next_panic]
        exact .inr ⟨rfl,h⟩

end Init

/-- Without free slots an update fails at once. -/
lemma Idle.update (h : Idle hB slots E texts p) (faults : SlotPersistence.Faults) (origin : Origin)
    (f : SlotPersistence.Callback) : (SlotPersistence.update E faults origin f p).1 = p ∧
      p.attempt E (E.logID origin) = [] := by
  have hid : p.idToSlot.lookup (E.logID origin) = none := by rw [h.map]; exact Finmap.lookup_empty _
  constructor
  · rw [SlotPersistence.update_full hid h.free]
  · simp only [SlotPersistence.attempt,hid,h.free]

lemma Idle.latest (h : Idle hB slots E texts p) (origin : Origin) :
    (SlotPersistence.latest E origin p).1 = p := by
  have hid : p.idToSlot.lookup (E.logID origin) = none := by rw [h.map]; exact Finmap.lookup_empty _
  rw [SlotPersistence.latest_missing hid]

/-- A restart begins with an idle persistence on the same device. -/
lemma Grounded.restart {g : Geometry} (hv : g.validate M = .ok ())
    (h : Grounded hB (layout M g.start g.slotLengths) E texts p) :
    Idle hB (layout M g.start g.slotLengths) E texts
        (newSlotPersistence ⟨p.part.dev,layout M g.start g.slotLengths⟩) ∧
      SlotPersistence.restart E g p = SlotPersistence.init E
        (newSlotPersistence ⟨p.part.dev,layout M g.start g.slotLengths⟩) := by
  constructor
  · refine ⟨⟨Partition.framed_new (layout_unopened _ _ _) h.framed.on_device,h.genuine,h.texts_valid⟩,rfl,rfl,
      fun s j hs hj => ?_⟩
    rw [layout_unopened _ _ _ s (List.mem_of_getElem? hs)] at hj
    cases hj
  · simp only [SlotPersistence.restart,openPartition,hv,Outcome.map_ok]

/-- A process with the history that the invariant refers to: whether `Init` has
returned nil since the last restart, and the directories that updates tried to store. -/
structure Process (M : Machine) (LogID : Type) where
  store : SlotPersistence M LogID
  ready : Bool
  texts : List (List UInt8)

namespace Process

/-- A new process on a partition. -/
def start (part : Partition M) : Process M LogID := ⟨newSlotPersistence part,false,[]⟩

def step (E : External Origin LogID) (g : Geometry) (s : Process M LogID) (c : Call Origin) :
    Process M LogID :=
  let r := s.store.call E g c
  match c with
  | .init => ⟨r.1,s.ready || r.2.isOk,s.texts⟩
  | .update _ origin _ => ⟨r.1,s.ready,s.store.attempt E (E.logID origin) ++ s.texts⟩
  | .latest _ => ⟨r.1,s.ready,s.texts⟩
  | .restart => ⟨r.1,r.2.isOk,s.texts⟩

def run (E : External Origin LogID) (g : Geometry) (s : Process M LogID) (calls : List (Call Origin)) :
    Process M LogID := calls.foldl (step E g) s

/-- No record in the directory slot has the checksum of a directory by chance. -/
def Unforged (hB : entryHeaderSize ≤ M.blockSize) (slots : List Slot) (s : Process M LogID) : Prop :=
  ∀ t ∈ slots[mappingConfigSlot]?, s.store.part.dev.Unforged (t.region hB) s.texts

instance (hB : entryHeaderSize ≤ M.blockSize) (slots : List Slot) (s : Process M LogID) :
    Decidable (s.Unforged hB slots) :=
  inferInstanceAs (Decidable (∀ t ∈ slots[mappingConfigSlot]?, _))

/-- What the calls rely on: the slots are within reach, and no directory is forged. -/
structure Sane (hB : entryHeaderSize ≤ M.blockSize) (slots : List Slot) (s : Process M LogID) : Prop where
  reach : WithinReach hB slots s.store.part.dev
  unforged : s.Unforged hB slots

/-- The invariant of a process: ready or idle. -/
def Inv (hB : entryHeaderSize ≤ M.blockSize) (slots : List Slot) (E : External Origin LogID)
    (s : Process M LogID) : Prop :=
  s.ready = true ∧ Ready hB slots E s.texts s.store ∨ s.ready = false ∧ Idle hB slots E s.texts s.store

/-- One call keeps the invariant, and the slots of the logs unless it is a restart. -/
theorem Inv.step {g : Geometry} (hv : g.validate M = .ok ())
    (hap : Apart (layout M g.start g.slotLengths)) (hyaml : E.RoundTrips) (hplain : E.PlainText)
    {s : Process M LogID} (h : s.Inv hB (layout M g.start g.slotLengths) E)
    (hu : s.Sane hB (layout M g.start g.slotLengths)) (c : Call Origin) :
    (s.step E g c).Inv hB (layout M g.start g.slotLengths) E ∧
      (c ≠ .restart → s.store.idToSlot.Within (s.step E g c).store.idToSlot) := by
  have hrestart : ∀ {p : SlotPersistence M LogID},
      Grounded hB (layout M g.start g.slotLengths) E s.texts p → p = s.store →
      (s.step E g .restart).Inv hB (layout M g.start g.slotLengths) E := by
    rintro p hg rfl
    obtain ⟨hidle,heq⟩ := hg.restart hv
    have hinit := hidle.init hap hyaml hu.reach hu.unforged
    rw [← heq] at hinit
    exact hinit
  rcases h with ⟨hr,hready⟩ | ⟨hr,hidle⟩
  · cases c with
    | init =>
      obtain ⟨hinit,hw⟩ := hready.init hyaml
      exact ⟨.inl ⟨by simp [Process.step,hr],hinit⟩,fun _ => hw⟩
    | update faults origin f =>
      obtain ⟨hnew,hw⟩ := hready.update hap hu.reach hyaml hplain faults origin f
      exact ⟨.inl ⟨hr,hnew⟩,fun _ => hw⟩
    | latest origin =>
      obtain ⟨hnew,hw⟩ := hready.latest hap hu.reach origin
      exact ⟨.inl ⟨hr,hnew⟩,fun _ => hw⟩
    | restart => exact ⟨hrestart hready.toGrounded rfl,fun hne => absurd rfl hne⟩
  · have hempty : ∀ m : SlotMap LogID, s.store.idToSlot.Within m := by
      intro m a i ha
      rw [hidle.map,Finmap.lookup_empty] at ha
      cases ha
    refine ⟨?_,fun _ => hempty _⟩
    cases c with
    | init =>
      rcases hidle.init hap hyaml hu.reach hu.unforged with ⟨hok,hnew⟩ | ⟨hok,hnew⟩
      · exact .inl ⟨by simp [Process.step,SlotPersistence.call,Result.isOk,hok],hnew⟩
      · exact .inr ⟨by simp [Process.step,SlotPersistence.call,Result.isOk,hok,hr],hnew⟩
    | update faults origin f =>
      obtain ⟨heq,hnone⟩ := hidle.update faults origin f
      refine .inr ⟨hr,?_⟩
      simp only [Process.step,SlotPersistence.call,heq,hnone]
      exact hidle
    | latest origin =>
      refine .inr ⟨hr,?_⟩
      simp only [Process.step,SlotPersistence.call,hidle.latest origin]
      exact hidle
    | restart => exact hrestart hidle.toGrounded rfl

section Runs
variable {g : Geometry} {d : Device M} (hblank : g.Blank d)
include hblank

/-- A new process on a blank partition. -/
lemma inv_start : (start ⟨d,layout M g.start g.slotLengths⟩ : Process M LogID).Inv hB
    (layout M g.start g.slotLengths) E := by
  refine .inr ⟨rfl,⟨Partition.framed_new (layout_unopened _ _ _)
      fun i t ht => (hblank.slot hB i t ht).on_device,
    fun t ht => .blank (hblank.slot hB _ t ht) _,fun b hb => by cases hb⟩,rfl,rfl,fun s j hs hj => ?_⟩
  have hnew := layout_unopened _ _ _ s (List.mem_of_getElem? hs)
  rw [hnew] at hj
  cases hj

variable (hyaml : E.RoundTrips) (hplain : E.PlainText) {s : Process M LogID}
  (h : s.Inv hB (layout M g.start g.slotLengths) E) {calls : List (Call Origin)}
  (hu : ∀ n < calls.length, (s.run E g (calls.take n)).Sane hB (layout M g.start g.slotLengths))
include hyaml hplain h hu

/-- A run keeps the invariant. -/
theorem Inv.run : (s.run E g calls).Inv hB (layout M g.start g.slotLengths) E := by
  induction calls generalizing s with
  | nil => exact h
  | cons c calls ih =>
    have hstep := (h.step hblank.accepted hblank.apart hyaml hplain (hu 0 (Nat.succ_pos _)) c).1
    exact ih hstep fun n hn => hu (n+1) (Nat.succ_lt_succ hn)

/-- Between restarts the logs keep their slots. -/
theorem Inv.run_within (hno : .restart ∉ calls) :
    s.store.idToSlot.Within (s.run E g calls).store.idToSlot := by
  induction calls generalizing s with
  | nil => exact .refl _
  | cons c calls ih =>
    obtain ⟨hne,hno'⟩ := not_or.mp (mt List.mem_cons.mpr hno)
    obtain ⟨hstep,hw⟩ := h.step hblank.accepted hblank.apart hyaml hplain (hu 0 (Nat.succ_pos _)) c
    exact (hw (Ne.symm hne)).trans (ih hstep (fun n hn => hu (n+1) (Nat.succ_lt_succ hn)) hno')

end Runs
end Process

/-- In every state that calls and restarts reach with the slots within reach, writes
failing at any point, once `Init` has returned nil: the logs have slots of their own, in
range, the free slots are the others in ascending order, and the token is the revision of
the directory, so that no write of the directory fails for a stale token. Between
restarts a log keeps its slot. -/
theorem representation_invariant (hB : entryHeaderSize ≤ M.blockSize) (g : Geometry) (d : Device M)
    (hblank : g.Blank d) (part : Partition M) (hp : openPartition d g = .ok part)
    (E : External Origin LogID) (hyaml : E.RoundTrips) (hplain : E.PlainText)
    (calls : List (Call Origin))
    (hu : ∀ n < calls.length, ((Process.start part).run E g (calls.take n)).Sane hB part.slots) :
    (((Process.start part).run E g calls).ready = true →
      ((Process.start part).run E g calls).store.Valid ∧
      ∀ fault, (SlotPersistence.storeDirectory E fault ((Process.start part).run E g calls).store).2 ≠
        .error (.store .invalidToken)) ∧
    ∀ pre post, calls = pre ++ post → .restart ∉ post →
      ((Process.start part).run E g pre).store.idToSlot.Within
        ((Process.start part).run E g calls).store.idToSlot := by
  cases hblank.openPartition.symm.trans hp
  have hstart : (Process.start ⟨d,layout M g.start g.slotLengths⟩ : Process M LogID).Inv hB
    (layout M g.start g.slotLengths) E := Process.inv_start hblank
  refine ⟨fun hready => ?_,fun pre post heq hno => ?_⟩
  · rcases hstart.run hblank hyaml hplain hu with ⟨-,hr⟩ | ⟨hf,-⟩
    · exact ⟨hr.toValid,fun fault => (hr.toValid.store E fault).2.1⟩
    · rw [hf] at hready
      cases hready
  · subst heq
    have hpre : (Process.start ⟨d,layout M g.start g.slotLengths⟩ |>.run E g pre).Inv hB
        (layout M g.start g.slotLengths) E := by
      refine hstart.run hblank hyaml hplain fun n hn => ?_
      have hn' := hu n (by rw [List.length_append]; omega)
      rwa [List.take_append_of_le_length hn.le] at hn'
    have hpost : ∀ n < post.length, (((Process.start ⟨d,layout M g.start g.slotLengths⟩).run E g pre).run
        E g (post.take n)).Sane hB (layout M g.start g.slotLengths) := by
      intro n hn
      have hn' := hu (pre.length+n) (by rw [List.length_append]; omega)
      rw [List.take_length_add_append] at hn'
      simpa only [Process.run,List.foldl_append] using hn'
    have hwithin := hpre.run_within hblank hyaml hplain hpost hno
    simpa only [Process.run,List.foldl_append] using hwithin

/-- The directory is written in part, then a second time in full, and read back. -/
def Tally.tornRun : List (Call Bool) :=
  [.init,.update ⟨some 1,none⟩ false fun _ => .ok [0x41],.update ⟨none,some 1⟩ true fun _ => .ok [0x42],
    .restart,.update ⟨none,none⟩ false fun _ => .ok [0x43]]

lemma Tally.threeSlots_withinReach (d : Device smallMachine) :
    WithinReach (by decide) Tally.threeSlotsOpen.slots d := by
  intro i t ht
  have hblank := Tally.threeSlots_blank
  obtain ⟨-,hend⟩ := layout_within hblank.no_overflow ht
  refine .of_space (hblank.slot (by decide) i t ht).addressed ?_ d
  have hle : (t.start+t.length)*48 ≤ 18*48 := Nat.mul_le_mul_right _ hend
  have hspace : 18*48+(entryHeaderSize+smallMachine.maxAlloc) ≤ smallMachine.space := by decide
  exact (Nat.add_le_add_right hle _).trans hspace

theorem representation_invariant_tornRun :
    ((Process.start Tally.threeSlotsOpen).run Tally.external Tally.threeSlots Tally.tornRun).ready = true ∧
    ((Process.start Tally.threeSlotsOpen).run Tally.external Tally.threeSlots Tally.tornRun).store.Valid := by
  have hready : ((Process.start Tally.threeSlotsOpen).run Tally.external Tally.threeSlots
      Tally.tornRun).ready = true := by decide +kernel
  have hforged : ∀ n < Tally.tornRun.length, ((Process.start Tally.threeSlotsOpen).run Tally.external
      Tally.threeSlots (Tally.tornRun.take n)).Unforged (by decide) Tally.threeSlotsOpen.slots := by
    decide +kernel
  have hinv := representation_invariant (by decide) Tally.threeSlots _ Tally.threeSlots_blank
    Tally.threeSlotsOpen rfl Tally.external Tally.roundTrips Tally.plainText Tally.tornRun
    fun n hn => ⟨Tally.threeSlots_withinReach _,hforged n hn⟩
  exact ⟨hready,(hinv.1 hready).1⟩

/-- `Init` on a blank partition that is out of reach reads the first blocks of the device,
and takes over a map in which two logs have the same slot. -/
theorem slots_shared_out_of_reach :
    (∀ q, 2^28 ≤ q → q < 2^28+18 →
      (Tally.farSlotsOpen [0x7c,0x3b,0x7c,0x3b]).dev.block q = zeroBlock smallMachine) ∧
    openPartition (Tally.farSlotsOpen [0x7c,0x3b,0x7c,0x3b]).dev Tally.farSlots =
      .ok (Tally.farSlotsOpen [0x7c,0x3b,0x7c,0x3b]) ∧
    (SlotPersistence.init Tally.external (newSlotPersistence (Tally.farSlotsOpen [0x7c,0x3b,0x7c,0x3b]))).2 =
      .ok () ∧
    (SlotPersistence.init Tally.external
      (newSlotPersistence (Tally.farSlotsOpen [0x7c,0x3b,0x7c,0x3b]))).1.idToSlot.lookup false = some 1 ∧
    (SlotPersistence.init Tally.external
      (newSlotPersistence (Tally.farSlotsOpen [0x7c,0x3b,0x7c,0x3b]))).1.idToSlot.lookup true = some 1 := by
  refine ⟨fun q hq _ => Tally.farSlots_zero _ hq,rfl,?_,?_,?_⟩ <;> decide +kernel

end ArmoredWitness.Persistence
