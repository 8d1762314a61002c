import ArmoredWitness.Lib.Transition
import ArmoredWitness.Persistence.Init
import ArmoredWitness.Slots.Holding

/-! The persistence as a durable map from origins to checkpoints, when every write is
carried out or refused as a whole. It is one as long as no update is made for a log
whose slot is known in memory only; such an update is acknowledged and lost with the
next restart. -/
namespace ArmoredWitness.Persistence
open Lib Lib.Action Lib.RingLog Slots

variable {M : Machine} {Origin LogID : Type} [DecidableEq LogID]

namespace SlotPersistence

/-- The directory in the directory slot. -/
def storedMap (E : External Origin LogID) (p : SlotPersistence M LogID) : SlotMap LogID :=
  match (p.part.slots[mappingConfigSlot]?).bind Slot.journal with
  | some j => (E.unmarshalMap j.current.data ∅).1
  | none => ∅

/-- The checkpoint that an update stores, if it returns nil. -/
def written (E : External Origin LogID) (faults : Faults) (origin : Origin) (f : Callback)
    (p : SlotPersistence M LogID) : Option (List UInt8) :=
  match (prepare E faults.directory origin p).2, (update E faults origin f p).2 with
  | .ok (_,_,currCP), .ok _ =>
    match f currCP with
    | .ok newCP => some newCP
    | _ => none
  | _, _ => none

end SlotPersistence

/-- The persistence, and for each origin the checkpoint of the latest update for it
that returned nil. -/
structure Recorded (M : Machine) (Origin LogID : Type) where
  store : SlotPersistence M LogID
  book : Origin → Option (List UInt8)

namespace Recorded
variable [DecidableEq Origin]

def start (part : Partition M) : Recorded M Origin LogID := ⟨newSlotPersistence part,fun _ => none⟩

def step (E : External Origin LogID) (g : Geometry) (s : Recorded M Origin LogID) (c : Call Origin) :
    Recorded M Origin LogID :=
  ⟨(s.store.call E g c).1,
    match c with
    | .update faults origin f =>
      match s.store.written E faults origin f with
      | some cp => Function.update s.book origin (some cp)
      | none => s.book
    | _ => s.book⟩

def run (E : External Origin LogID) (g : Geometry) (s : Recorded M Origin LogID)
    (calls : List (Call Origin)) : Recorded M Origin LogID := calls.foldl (step E g) s

/-- The calls as the steps of a system; every call can be made at any time. -/
def next (E : External Origin LogID) (g : Geometry) (s : Recorded M Origin LogID) (c : Call Origin) :
    Option (Recorded M Origin LogID) := some (s.step E g c)

/-- An update is made only for a log whose slot, if it has one, is in the stored
directory. -/
def Registered (E : External Origin LogID) (s : Recorded M Origin LogID) : Call Origin → Prop
  | .update _ origin _ => s.store.idToSlot.lookup (E.logID origin) = none ∨
    (s.store.storedMap E).lookup (E.logID origin) = s.store.idToSlot.lookup (E.logID origin)
  | _ => True

end Recorded

namespace Call

def isUpdate : Call Origin → Bool
  | .update _ _ _ => true
  | _ => false

/-- The writes of the call are carried out or refused as a whole, and the checkpoint
is free of the magic. -/
def Admissible (M : Machine) : Call Origin → Prop
  | .update faults _ f => faults.directory.Clean ∧ faults.checkpoint.Clean ∧
    ∀ cp newCP, f cp = .ok newCP → FreeOfMagic M (marshalCheckpoint newCP)
  | _ => True

end Call

section Invariant
variable (hB : entryHeaderSize ≤ M.blockSize) (slots : List Slot) (E : External Origin LogID)
  (content : ℕ → Option Entry) (m0 : SlotMap LogID) (n : ℕ)

/-- The checkpoint in a slot. -/
def view (i : ℕ) : Checkpoint := (content i).map fun z => z.data.drop rawRecordMagic.length

/-- What is on the device: the slots hold logs of at most `n` records, the directory
is `m0`, the slots it does not name are empty, and the others hold the checkpoints of
the book. -/
structure Kept (part : Partition M) (book : Origin → Option (List UInt8)) : Prop where
  holding : part.Holding hB slots content
  count : ∀ i, revOf (entryFormat M) (content i) ≤ n
  valid : m0.Valid slots.length
  stored : content mappingConfigSlot = none ∧ m0 = ∅ ∨
    ∃ z, content mappingConfigSlot = some z ∧ E.marshalMap m0 = .ok z.data
  raw : ∀ i z, 0 < i → content i = some z → ∃ cp, z.data = marshalCheckpoint cp
  unused : ∀ i, 0 < i → (∀ id, m0.lookup id ≠ some i) → content i = none
  book_eq : ∀ o, book o = (m0.lookup (E.logID o)).bind (view content)

/-- The persistence after `Init`: the map in memory extends the stored one. -/
structure Serving (p : SlotPersistence M LogID) (book : Origin → Option (List UInt8)) : Prop
    extends Kept hB slots E content m0 n p.part book, p.Valid where
  within : m0.Within p.idToSlot

/-- The persistence before `Init`: nothing has been stored. -/
structure Waiting (p : SlotPersistence M LogID) (book : Origin → Option (List UInt8)) : Prop
    extends Kept hB slots E content m0 n p.part book where
  map : p.idToSlot = ∅
  free : p.freeSlots = []
  nothing : ∀ o, book o = none

end Invariant

variable {hB : entryHeaderSize ≤ M.blockSize} {slots : List Slot} {E : External Origin LogID}
  {content : ℕ → Option Entry} {m0 : SlotMap LogID} {n : ℕ} {book : Origin → Option (List UInt8)}
  {p : SlotPersistence M LogID} {i : ℕ}

/-- A new directory leaves the other slots alone. -/
lemma update_directory (content : ℕ → Option Entry) (x : Option Entry) (hi : 0 < i) :
    Function.update content mappingConfigSlot x i = content i :=
  Function.update_of_ne (Nat.ne_of_gt hi) ..

namespace Kept
variable {part : Partition M}

lemma mono {n' : ℕ} (h : Kept hB slots E content m0 n part book) (hn : n ≤ n') :
    Kept hB slots E content m0 n' part book :=
  {h with count := fun i => (h.count i).trans hn}

/-- The token of a slot counts its records. -/
lemma revision_le (h : Kept hB slots E content m0 n part book) (i : ℕ) :
    ((content i).getD Entry.zero).revision.toNat ≤ n := by
  have hc := h.count i
  cases hx : content i with
  | none => exact Nat.zero_le _
  | some z =>
    rw [hx] at hc
    exact hc

/-- What the data of a slot decodes to. -/
lemma unmarshal (h : Kept hB slots E content m0 n part book) (hrec : E.unmarshalRecord [] = .ok none)
    (hi : 0 < i) : unmarshalCheckpoint E ((content i).getD Entry.zero).data = .ok (view content i) := by
  unfold view
  cases hx : content i with
  | none => exact hrec
  | some z =>
    obtain ⟨cp,hcp⟩ := h.raw i z hi hx
    rw [Option.getD_some,Option.map_some,hcp,unmarshal_marshal,drop_marshalCheckpoint]

lemma data_eq_nil (h : Kept hB slots E content m0 n part book) (hi : 0 < i) :
    ((content i).getD Entry.zero).data.length = 0 ↔ view content i = none := by
  unfold view
  cases hx : content i with
  | none => exact ⟨fun _ => rfl,fun _ => rfl⟩
  | some z =>
    obtain ⟨cp,hcp⟩ := h.raw i z hi hx
    simp [hcp,marshalCheckpoint,rawRecordMagic]

/-- A new record in slot `i`. -/
lemma count_update (h : Kept hB slots E content m0 n part book) {j : Journal} {data : List UInt8}
    (hcur : j.current = (content i).getD Entry.zero)
    (hrev : ((content i).getD Entry.zero).revision.toNat < n) (hn : n < 2^32) (i' : ℕ) :
    revOf (entryFormat M) (Function.update content i (some (j.newEntry data)) i') ≤ n := by
  by_cases hi : i' = i
  · subst hi
    have hnew : (j.newEntry data).revision = ((content i').getD Entry.zero).revision+1 := by
      rw [← hcur]
      rfl
    rw [Function.update_self,revOf_some,entryFormat_rev,hnew,toNat_succ (by omega)]
    omega
  · rw [Function.update_of_ne hi]
    exact h.count i'

section Extended
variable {m : SlotMap LogID} (hv : m.Valid slots.length) (hw : m0.Within m)
include hv hw

/-- In a map that extends the stored one a log has a slot with the recorded checkpoint,
stored in the directory or not. -/
lemma view_eq (h : Kept hB slots E content m0 n part book) {o : Origin}
    (hi : m.lookup (E.logID o) = some i) : view content i = book o := by
  rw [h.book_eq o]
  cases hm : m0.lookup (E.logID o) with
  | some i' =>
    cases hi.symm.trans (hw _ i' hm)
    rfl
  | none =>
    have hnone : content i = none := by
      refine h.unused i (hv.pos _ i hi) fun id hid => ?_
      have heq := hv.injective _ _ i hi (hw id i hid)
      rw [heq,hid] at hm
      cases hm
    simp only [view,hnone]
    rfl

/-- The map is stored as the new directory. -/
lemma store_directory (h : Kept hB slots E content m0 n part book) {part' : Partition M} {z : Entry} {n' : ℕ}
    (hz : E.marshalMap m = .ok z.data)
    (hold : part'.Holding hB slots (Function.update content mappingConfigSlot (some z)))
    (hcount : ∀ i, revOf (entryFormat M) (Function.update content mappingConfigSlot (some z) i) ≤ n') :
    Kept hB slots E (Function.update content mappingConfigSlot (some z)) m n' part' book := by
  refine
    { holding := hold
      count := hcount
      valid := hv
      stored := .inr ⟨z,Function.update_self ..,hz⟩
      raw := fun i x hi hx => h.raw i x hi (by rwa [update_directory content _ hi] at hx)
      unused := fun i hi hun => ?_
      book_eq := fun o => ?_ }
  · rw [update_directory content _ hi]
    exact h.unused i hi fun id hid => hun id (hw id i hid)
  · cases hm : m.lookup (E.logID o) with
    | none =>
      rw [h.book_eq o]
      cases hm0 : m0.lookup (E.logID o) with
      | none => rfl
      | some i =>
        rw [hw _ i hm0] at hm
        cases hm
    | some i =>
      rw [← h.view_eq hv hw hm,Option.bind_some]
      simp only [view,update_directory content _ (hv.pos _ i hm)]

end Extended

/-- A checkpoint is stored in the slot of its log. -/
lemma store_checkpoint [DecidableEq Origin] (h : Kept hB slots E content m0 n part book)
    (hinj : Function.Injective E.logID) {origin : Origin} (hm : m0.lookup (E.logID origin) = some i)
    {part' : Partition M} {z : Entry} {cp : List UInt8} (hz : z.data = marshalCheckpoint cp)
    (hold : part'.Holding hB slots (Function.update content i (some z)))
    (hcount : ∀ i', revOf (entryFormat M) (Function.update content i (some z) i') ≤ n) :
    Kept hB slots E (Function.update content i (some z)) m0 n part' (Function.update book origin (some cp)) := by
  have hother : ∀ i', i' ≠ i → Function.update content i (some z) i' = content i' :=
    fun i' hi => Function.update_of_ne hi ..
  refine
    { holding := hold
      count := hcount
      valid := h.valid
      stored := ?_
      raw := fun i' x hi hx => ?_
      unused := fun i' hi hun => ?_
      book_eq := fun o => ?_ }
  · rw [hother mappingConfigSlot (Nat.ne_of_lt (h.valid.pos _ i hm))]
    exact h.stored
  · by_cases hii : i' = i
    · subst hii
      rw [Function.update_self] at hx
      cases hx
      exact ⟨cp,hz⟩
    · rw [hother _ hii] at hx
      exact h.raw i' x hi hx
  · have hii : i' ≠ i := by
      rintro rfl
      exact hun _ hm
    rw [hother _ hii]
    exact h.unused i' hi hun
  · by_cases ho : o = origin
    · subst ho
      rw [Function.update_self,hm,Option.bind_some,view,Function.update_self,Option.map_some,hz,
        drop_marshalCheckpoint]
    · rw [Function.update_of_ne ho,h.book_eq o]
      cases hm' : m0.lookup (E.logID o) with
      | none => rfl
      | some i' =>
        have hii : i' ≠ i := by
          rintro rfl
          exact ho (hinj (h.valid.injective _ _ i' hm' hm))
        simp only [Option.bind_some,view,hother _ hii]

end Kept

namespace Serving

lemma mono {n' : ℕ} (h : Serving hB slots E content m0 n p book) (hn : n ≤ n') :
    Serving hB slots E content m0 n' p book :=
  {h with toKept := h.toKept.mono hn}

lemma map_slots (h : Serving hB slots E content m0 n p book) : p.idToSlot.Valid slots.length := by
  rw [← h.holding.length]
  exact h.map

/-- A log in memory has the recorded checkpoint in its slot. -/
lemma view_eq (h : Serving hB slots E content m0 n p book) {o : Origin}
    (hi : p.idToSlot.lookup (E.logID o) = some i) : view content i = book o :=
  h.toKept.view_eq h.map_slots h.within hi

/-- Operations on the slot of a log that keep its content. -/
lemma touch (h : Serving hB slots E content m0 n p book) (hi : 0 < i) {part : Partition M}
    (htouch : p.part.Touches hB slots i part) (hold : part.Holding hB slots content) :
    Serving hB slots E content m0 n {p with part := part} book := by
  have hn : part.numSlots = p.part.numSlots := hold.length.trans h.holding.length.symm
  exact ⟨{h.toKept with holding := hold},h.toValid.touch (htouch.slot _ (Nat.ne_of_lt hi)) hn,h.within⟩

/-- A slot is opened and read. -/
lemma openAndRead (h : Serving hB slots E content m0 n p book) (hap : Apart slots) (hi : 0 < i)
    (hlt : i < slots.length) (id : LogID) : ∃ part s j, SlotPersistence.openAndRead i id p =
        ({p with part := part},.ok (((content i).getD Entry.zero).data,
          ((content i).getD Entry.zero).revision)) ∧
      Serving hB slots E content m0 n {p with part := part} book ∧
      part.slots[i]? = some s ∧ s.journal = some j := by
  obtain ⟨part,s,j,ho,hold,htouch,hs,hj⟩ := h.holding.openSlot hap (List.getElem?_eq_getElem hlt)
  refine ⟨part,s,j,?_,h.touch hi htouch hold,hs,hj⟩
  simp only [SlotPersistence.openAndRead,bind_run,SlotPersistence.onPart,ho,Outcome.mapError_ok,next_ok,
    hold.read hs hj]

/-- A log gets the first free slot, in memory. -/
lemma assign (h : Serving hB slots E content m0 n p book) {id : LogID} {f : ℕ} {rest : List ℕ}
    (hid : p.idToSlot.lookup id = none) (hfree : p.freeSlots = f::rest) : 0 < f ∧ f < slots.length ∧
      content f = none ∧
      Serving hB slots E content m0 n
        {p with freeSlots := rest, idToSlot := p.idToSlot.insert id f} book := by
  obtain ⟨hpos,hlt,hunused⟩ := h.first_free hfree
  refine ⟨hpos,hlt.trans_eq h.holding.length,h.unused f hpos fun a ha => hunused a (h.within a f ha),?_⟩
  exact ⟨h.toKept,h.toValid.assign hid hfree,h.within.trans (SlotMap.within_insert f hid)⟩

/-- The directory is stored, or the write is refused. -/
lemma store (h : Serving hB slots E content m0 n p book) (hap : Apart slots)
    (hyaml : E.RoundTrips) (hdir : ∀ m b, E.marshalMap m = .ok b → FreeOfMagic M b) {fault : Fault}
    (hclean : fault.Clean) (hn : n+1 < 2^32) :
    (∃ p' z, SlotPersistence.storeDirectory E fault p = (p',.ok ()) ∧ p'.idToSlot = p.idToSlot ∧
      Serving hB slots E (Function.update content mappingConfigSlot (some z)) p.idToSlot (n+1) p' book) ∨
    ∃ p' e, SlotPersistence.storeDirectory E fault p = (p',.error e) ∧ p'.idToSlot = p.idToSlot ∧
      Serving hB slots E content m0 n p' book := by
  obtain ⟨s,j,hs,hj,htoken⟩ := h.token
  have hcur := h.holding.current hs hj
  obtain ⟨t,hm,-⟩ := hyaml.marshal p.idToSlot
  have hrev := h.revision_le mappingConfigSlot
  obtain ⟨part,-,-,-,-,-,hcases⟩ := h.holding.checkAndWrite hs hj hap hclean t (by omega) (hdir _ t hm)
  rw [← hcur,htoken] at hcases
  have hvalid := (h.toValid.store E fault).1
  rcases hcases with ⟨heq,hold⟩ | ⟨e,heq,hold⟩
  · have hst : SlotPersistence.storeDirectory E fault p =
        ({p with part := part, directoryWriteToken := p.directoryWriteToken+1},.ok ()) := by
      rw [SlotPersistence.storeDirectory_eq h.directory hm,heq]
      rfl
    rw [hst] at hvalid
    have hcount : ∀ i, revOf (entryFormat M) (Function.update content mappingConfigSlot (some (j.newEntry t)) i) ≤
        n+1 := (h.toKept.mono (Nat.le_succ n)).count_update hcur (by omega) hn
    exact .inl ⟨_,j.newEntry t,hst,rfl,⟨h.store_directory h.map_slots h.within hm hold hcount,hvalid,.refl _⟩⟩
  · have hst : SlotPersistence.storeDirectory E fault p = ({p with part := part},.error (.store e)) := by
      rw [SlotPersistence.storeDirectory_eq h.directory hm,heq]
      rfl
    rw [hst] at hvalid
    exact .inr ⟨_,_,hst,rfl,⟨{h.toKept with holding := hold},hvalid,h.within⟩⟩

end Serving

/-- The slot of the log has been found and opened, for an update. -/
structure Opened (hB : entryHeaderSize ≤ M.blockSize) (slots : List Slot) (E : External Origin LogID)
    (content : ℕ → Option Entry) (m0 : SlotMap LogID) (n : ℕ) (p : SlotPersistence M LogID)
    (book : Origin → Option (List UInt8)) (origin : Origin) (i : ℕ) : Prop
    extends Serving hB slots E content m0 n p book where
  found : p.idToSlot.lookup (E.logID origin) = some i
  opened : ∃ s j, p.part.slots[i]? = some s ∧ s.journal = some j
  token_lt : ((content i).getD Entry.zero).revision.toNat < n

namespace Serving
variable {origin : Origin}

/-- Reading the slot of a log in memory. -/
lemma readSlot (h : Serving hB slots E content m0 n p book) (hap : Apart slots)
    (hrec : E.unmarshalRecord [] = .ok none) (hi : p.idToSlot.lookup (E.logID origin) = some i)
    (htoken : ((content i).getD Entry.zero).revision.toNat < n) :
    ∃ p', (SlotPersistence.openAndRead i (E.logID origin) p = (p',.ok (((content i).getD Entry.zero).data,
        ((content i).getD Entry.zero).revision))) ∧
      unmarshalCheckpoint E ((content i).getD Entry.zero).data = .ok (view content i) ∧
      Opened hB slots E content m0 n p' book origin i := by
  have hpos := h.map.pos _ i hi
  obtain ⟨part,s,j,hread,hserve,hs,hj⟩ := h.openAndRead hap hpos (h.map_slots.lt _ i hi) (E.logID origin)
  exact ⟨_,hread,h.unmarshal hrec hpos,hserve,hi,⟨s,j,hs,hj⟩,htoken⟩

/-- `Update` up to the call of its callback. -/
theorem prepare (h : Serving hB slots E content m0 n p book) (hap : Apart slots) (hyaml : E.RoundTrips)
    (hrec : E.unmarshalRecord [] = .ok none) (hdir : ∀ m b, E.marshalMap m = .ok b → FreeOfMagic M b)
    {fault : Fault} (hclean : fault.Clean) (hn : n+1 < 2^32) (origin : Origin) :
    (∃ p' content' m0' i, SlotPersistence.prepare E fault origin p =
        (p',.ok (i,((content' i).getD Entry.zero).revision,view content' i)) ∧
      Opened hB slots E content' m0' (n+1) p' book origin i ∧
      (p.idToSlot.lookup (E.logID origin) = none ∨
        m0.lookup (E.logID origin) = p.idToSlot.lookup (E.logID origin) →
        m0'.lookup (E.logID origin) = some i)) ∨
    ∃ p' e content' m0', SlotPersistence.prepare E fault origin p = (p',.error e) ∧
      Serving hB slots E content' m0' (n+1) p' book := by
  have hnext := h.mono (Nat.le_succ n)
  cases hid : p.idToSlot.lookup (E.logID origin) with
  | some i =>
    have hrev := h.revision_le i
    obtain ⟨p',hread,hval,hopened⟩ := hnext.readSlot hap hrec hid (Nat.lt_succ_of_le hrev)
    refine .inl ⟨p',content,m0,i,?_,hopened,fun hc => ?_⟩
    · simp only [SlotPersistence.prepare,bind_run,SlotPersistence.logSlot_found hid,next_ok,pure_run,hread,hval,
        Outcome.mapError_ok,lift_run]
    · rcases hc with hc | hc
      · cases hc
      · exact hc
  | none =>
    cases hfree : p.freeSlots with
    | nil =>
      exact .inr ⟨p,_,content,m0,SlotPersistence.prepare_full hid hfree,hnext⟩
    | cons f rest =>
      obtain ⟨hpos,hlt,hempty,hassigned⟩ := h.assign hid hfree
      rcases hassigned.store hap hyaml hdir hclean hn with ⟨p1,z,hst,hmap,hserve⟩ | ⟨p1,e,hst,hmap,hserve⟩
      · have hfound : p1.idToSlot.lookup (E.logID origin) = some f := by
          rw [hmap]
          exact Finmap.lookup_insert _
        have hcontent : Function.update content mappingConfigSlot (some z) f = none := by
          rw [update_directory content _ hpos]
          exact hempty
        obtain ⟨p',hread,hval,hopened⟩ := hserve.readSlot hap hrec hfound
          (by rw [hcontent]; exact Nat.succ_pos n)
        refine .inl ⟨p',_,_,f,?_,hopened,fun _ => Finmap.lookup_insert _⟩
        simp only [SlotPersistence.prepare,bind_run,SlotPersistence.logSlot_assign hid hfree,hst,Outcome.mapError_ok,
          Outcome.map_ok,next_ok,pure_run,hread,hval,lift_run]
      · refine .inr ⟨p1,.assignSlot (E.logID origin) (.storeMap e),content,m0,?_,hserve.mono (Nat.le_succ n)⟩
        simp only [SlotPersistence.prepare,bind_run,SlotPersistence.logSlot_assign hid hfree,hst,
          Outcome.mapError_error,Outcome.map_error,next_error]

/-- `Latest` returns the recorded checkpoint. -/
theorem latest (h : Serving hB slots E content m0 n p book) (hap : Apart slots)
    (hrec : E.unmarshalRecord [] = .ok none) (origin : Origin) :
    Serving hB slots E content m0 n (SlotPersistence.latest E origin p).1 book ∧
      (book origin = none ∧ (∃ e, (SlotPersistence.latest E origin p).2 = .error e ∧ e.isNotFound) ∨
        ∃ cp, book origin = some cp ∧ (SlotPersistence.latest E origin p).2 = .ok (some cp)) := by
  cases hid : p.idToSlot.lookup (E.logID origin) with
  | none =>
    have hbook : book origin = none := by
      rw [h.book_eq]
      cases hm : m0.lookup (E.logID origin) with
      | none => rfl
      | some i =>
        rw [h.within _ i hm] at hid
        cases hid
    rw [SlotPersistence.latest_missing hid]
    exact ⟨h,.inl ⟨hbook,_,rfl,rfl⟩⟩
  | some i =>
    have hpos := h.map.pos _ i hid
    obtain ⟨part,s,j,hread,hserve,-,-⟩ := h.openAndRead hap hpos (h.map_slots.lt _ i hid) (E.logID origin)
    have hval := h.unmarshal hrec hpos
    have hview := h.view_eq hid
    simp only [SlotPersistence.latest,bind_run,SlotPersistence.logSlot_found hid,next_ok,hread]
    cases hb : book origin with
    | none =>
      have hnil := (h.data_eq_nil hpos).mpr (hview.trans hb)
      rw [if_pos hnil]
      exact ⟨hserve,.inl ⟨rfl,_,rfl,rfl⟩⟩
    | some cp =>
      have hnil : ¬ ((content i).getD Entry.zero).data.length = 0 := by
        rw [h.data_eq_nil hpos,hview,hb]
        exact Option.some_ne_none cp
      rw [if_neg hnil,hval,hview,hb]
      exact ⟨hserve,.inr ⟨cp,rfl,rfl⟩⟩

end Serving

/-- The write at the end of an update: carried out, or refused with nothing changed. -/
lemma Opened.write [DecidableEq Origin] {origin : Origin}
    (h : Opened hB slots E content m0 n p book origin i) (hap : Apart slots)
    (hinj : Function.Injective E.logID) (hm : m0.lookup (E.logID origin) = some i) {fault : Fault}
    (hclean : fault.Clean) (hn : n < 2^32) {cp : List UInt8} (hfree : FreeOfMagic M (marshalCheckpoint cp)) :
    (∃ part content', p.part.checkAndWrite fault i ((content i).getD Entry.zero).revision
        (marshalCheckpoint cp) = (part,.ok ()) ∧
      Serving hB slots E content' m0 n {p with part := part} (Function.update book origin (some cp))) ∨
    ∃ part e, p.part.checkAndWrite fault i ((content i).getD Entry.zero).revision
        (marshalCheckpoint cp) = (part,.error e) ∧
      Serving hB slots E content m0 n {p with part := part} book := by
  obtain ⟨s,j,hs,hj⟩ := h.opened
  have hcur := h.holding.current hs hj
  have hpos := h.map.pos _ i h.found
  have htoken := h.token_lt
  obtain ⟨part,s',j',htouch,-,-,⟨heq,hold⟩ | ⟨e,heq,hold⟩⟩ := h.holding.checkAndWrite hs hj hap hclean
    (marshalCheckpoint cp) (by omega) hfree
  · have hlen : part.numSlots = p.part.numSlots := hold.length.trans h.holding.length.symm
    exact .inl ⟨part,_,heq,h.store_checkpoint hinj hm rfl hold (h.count_update hcur htoken hn),
      h.toValid.touch (htouch.slot _ (Nat.ne_of_lt hpos)) hlen,h.within⟩
  · exact .inr ⟨part,e,heq,h.toServing.touch hpos htouch hold⟩

/-- An update for a log that is registered, or that has no slot yet. -/
theorem Serving.update [DecidableEq Origin] (h : Serving hB slots E content m0 n p book)
    (hap : Apart slots) (hyaml : E.RoundTrips) (hrec : E.unmarshalRecord [] = .ok none)
    (hdir : ∀ m b, E.marshalMap m = .ok b → FreeOfMagic M b) (hinj : Function.Injective E.logID)
    (hn : n+1 < 2^32) {faults : SlotPersistence.Faults} {origin : Origin} {f : SlotPersistence.Callback}
    (hadm : (Call.update faults origin f).Admissible M)
    (hreg : p.idToSlot.lookup (E.logID origin) = none ∨
      m0.lookup (E.logID origin) = p.idToSlot.lookup (E.logID origin)) :
    ∃ content' m0', Serving hB slots E content' m0' (n+1) (SlotPersistence.update E faults origin f p).1
      (match p.written E faults origin f with
        | some cp => Function.update book origin (some cp)
        | none => book) := by
  obtain ⟨hcleanDir,hcleanCP,hfree⟩ := hadm
  rcases h.prepare hap hyaml hrec hdir hcleanDir hn origin with
    ⟨p1,content',m0',i,hprep,hopened,hm⟩ | ⟨p1,e,content',m0',hprep,hserve⟩
  · cases hf : f (view content' i) with
    | ok cp =>
      rcases hopened.write hap hinj (hm hreg) hcleanCP hn (hfree _ cp hf) with
        ⟨part,content'',heq,hserve⟩ | ⟨part,e,heq,hserve⟩
      · refine ⟨content'',m0',?_⟩
        simp only [SlotPersistence.written,SlotPersistence.update,bind_run,hprep,next_ok,hf,
          Outcome.mapError_ok,lift_run,SlotPersistence.onPart,heq]
        exact hserve
      · refine ⟨content',m0',?_⟩
        simp only [SlotPersistence.written,SlotPersistence.update,bind_run,hprep,next_ok,hf,
          Outcome.mapError_ok,Outcome.mapError_error,lift_run,SlotPersistence.onPart,heq]
        exact hserve
    | error e =>
      refine ⟨content',m0',?_⟩
      simp only [SlotPersistence.written,SlotPersistence.update,bind_run,hprep,next_ok,hf,
        Outcome.mapError_error,lift_run,next_error]
      exact hopened.toServing
    | panic q =>
      refine ⟨content',m0',?_⟩
      simp only [SlotPersistence.written,SlotPersistence.update,bind_run,hprep,next_ok,hf,
        Outcome.mapError_panic,lift_run,next_panic]
      exact hopened.toServing
  · refine ⟨content',m0',?_⟩
    simp only [SlotPersistence.written,SlotPersistence.update,bind_run,hprep,next_error]
    exact hserve

/-- The stored directory is read into a map that extends it, or into an empty one. -/
lemma Kept.unmarshal_directory {part : Partition M} (h : Kept hB slots E content m0 n part book)
    (hyaml : E.RoundTrips) (m : SlotMap LogID) :
    E.unmarshalMap ((content mappingConfigSlot).getD Entry.zero).data m = (m0 ∪ m,.ok ()) := by
  rcases h.stored with ⟨hnone,rfl⟩ | ⟨z,hz,hm⟩
  · rw [hnone,Finmap.empty_union]
    exact hyaml.empty m
  · obtain ⟨b,hb,hround⟩ := hyaml.marshal m0
    cases hm.symm.trans hb
    rw [hz]
    exact hround m

lemma Serving.storedMap (h : Serving hB slots E content m0 n p book) (hyaml : E.RoundTrips) :
    p.storedMap E = m0 := by
  obtain ⟨s,j,hs,hj,-⟩ := h.token
  unfold SlotPersistence.storedMap
  rw [hs,Option.bind_some,hj]
  dsimp only
  rw [h.holding.current hs hj,h.unmarshal_directory hyaml,Finmap.union_empty]

/-- `Init` succeeds, if there is a directory slot. -/
theorem Kept.init (h : Kept hB slots E content m0 n p.part book) (hap : Apart slots)
    (hyaml : E.RoundTrips) {t : Slot} (ht : slots[mappingConfigSlot]? = some t)
    (hmap : p.idToSlot = ∅ ∨ m0.Within p.idToSlot ∧ p.idToSlot.Valid slots.length) :
    Serving hB slots E content m0 n (SlotPersistence.init E p).1 book := by
  obtain ⟨part,s,j,ho,hold,-,hs,hj⟩ := h.holding.openSlot hap ht
  have hvalid : (m0 ∪ p.idToSlot).Valid slots.length := by
    rcases hmap with hempty | ⟨hw,hv⟩
    · rw [hempty,Finmap.union_empty]
      exact h.valid
    · rwa [SlotMap.union_of_within hw]
  have hn : part.numSlots = slots.length := hold.length
  rw [← hn] at hvalid
  have hu : E.unmarshalMap j.current.data p.idToSlot = (m0 ∪ p.idToSlot,.ok ()) := by
    rw [hold.current hs hj]
    exact h.unmarshal_directory hyaml _
  rw [SlotPersistence.init_of_open ho,mapError_run,
    SlotPersistence.populateMap_run (p := {p with part := part, directorySlot := some mappingConfigSlot})
      rfl hs hj hu hvalid.in_range]
  refine ⟨{h with holding := hold},⟨hvalid,SlotMap.free_filter _ _,rfl,s,j,hs,hj,rfl⟩,fun a i ha => ?_⟩
  rwa [Finmap.lookup_union_left (Finmap.mem_of_lookup_eq_some ha)]

namespace Waiting

/-- Before `Init`, calls find no slots. -/
lemma lookup (h : Waiting hB slots E content m0 n p book) (id : LogID) : p.idToSlot.lookup id = none := by
  rw [h.map]
  exact Finmap.lookup_empty _

lemma prepare (h : Waiting hB slots E content m0 n p book) (fault : Fault) (origin : Origin) :
    SlotPersistence.prepare E fault origin p = (p,.error (.assignSlot (E.logID origin) .noFreeSlot)) :=
  SlotPersistence.prepare_full (h.lookup _) h.free

lemma latest (h : Waiting hB slots E content m0 n p book) (origin : Origin) :
    SlotPersistence.latest E origin p = (p,.error .noSlot) :=
  SlotPersistence.latest_missing (h.lookup _)

end Waiting

namespace Recorded

/-- After at most `n` updates: serving, or waiting for `Init`. -/
def Inv (hB : entryHeaderSize ≤ M.blockSize) (slots : List Slot) (E : External Origin LogID) (n : ℕ)
    (s : Recorded M Origin LogID) : Prop :=
  ∃ content m0, Serving hB slots E content m0 n s.store s.book ∨
    Waiting hB slots E content m0 n s.store s.book

/-- With no slots there is nothing in the book. -/
lemma nothing_of_nil {part : Partition M} (h : Kept hB slots E content m0 n part book)
    (hnil : slots = []) (o : Origin) : book o = none := by
  rw [h.book_eq]
  cases hm : m0.lookup (E.logID o) with
  | none => rfl
  | some i =>
    have hlt := h.valid.lt _ i hm
    rw [hnil] at hlt
    exact absurd hlt (Nat.not_lt_zero i)

/-- `Init` on a persistence without logs. -/
lemma inv_init (h : Kept hB slots E content m0 n p.part book) (hap : Apart slots) (hyaml : E.RoundTrips)
    (hmap : p.idToSlot = ∅) (hfree : p.freeSlots = []) :
    Inv hB slots E n ⟨(SlotPersistence.init E p).1,book⟩ := by
  refine ⟨content,m0,?_⟩
  cases ht : slots[mappingConfigSlot]? with
  | some t => exact .inl (h.init hap hyaml ht (.inl hmap))
  | none =>
    have hnil : slots = [] := List.length_eq_zero_iff.mp (Nat.le_zero.mp (List.getElem?_eq_none_iff.mp ht))
    have hle : p.part.numSlots ≤ mappingConfigSlot :=
      List.getElem?_eq_none_iff.mp (h.holding.framed.missing ht)
    right
    simp only [SlotPersistence.init,bind_run,SlotPersistence.onPart,Partition.openSlot,if_pos hle,
      Outcome.mapError_error,next_error]
    exact {h with map := hmap, free := hfree, nothing := nothing_of_nil h hnil}

/-- A restart finds what was stored. -/
lemma inv_restart {g : Geometry} (hv : g.validate M = .ok ())
    (h : Kept hB (layout M g.start g.slotLengths) E content m0 n p.part book)
    (hap : Apart (layout M g.start g.slotLengths)) (hyaml : E.RoundTrips) :
    Inv hB (layout M g.start g.slotLengths) E n ⟨(SlotPersistence.restart E g p).1,book⟩ := by
  have hkept : Kept hB (layout M g.start g.slotLengths) E content m0 n
      ⟨p.part.dev,layout M g.start g.slotLengths⟩ book :=
    {h with holding := h.holding.reopen (layout_unopened _ _ _)}
  simp only [SlotPersistence.restart,openPartition,hv,Outcome.map_ok]
  exact inv_init (p := newSlotPersistence _) hkept hap hyaml rfl rfl

variable [DecidableEq Origin] {s : Recorded M Origin LogID} {g : Geometry}

/-- One call. -/
theorem Inv.step (hv : g.validate M = .ok ()) (hap : Apart (layout M g.start g.slotLengths))
    (hyaml : E.RoundTrips) (hrec : E.unmarshalRecord [] = .ok none)
    (hdir : ∀ m b, E.marshalMap m = .ok b → FreeOfMagic M b) (hinj : Function.Injective E.logID)
    (h : s.Inv hB (layout M g.start g.slotLengths) E n) (hn : n+1 < 2^32) {c : Call Origin}
    (hadm : c.Admissible M) (hreg : s.Registered E c) :
    (s.step E g c).Inv hB (layout M g.start g.slotLengths) E (n+[c].countP Call.isUpdate) := by
  obtain ⟨content,m0,hserve | hwait⟩ := h
  · cases c with
    | init =>
      obtain ⟨s0,j0,hs0,-⟩ := hserve.token
      obtain ⟨t,ht⟩ := hserve.holding.framed.laid_out hs0
      exact ⟨content,m0,.inl (hserve.toKept.init hap hyaml ht (.inr ⟨hserve.within,hserve.map_slots⟩))⟩
    | update faults origin f =>
      have hreg' := hreg
      unfold Registered at hreg'
      rw [hserve.storedMap hyaml] at hreg'
      obtain ⟨content',m0',hnew⟩ := hserve.update hap hyaml hrec hdir hinj hn hadm hreg'
      exact ⟨content',m0',.inl hnew⟩
    | latest origin => exact ⟨content,m0,.inl (hserve.latest hap hrec origin).1⟩
    | restart => exact inv_restart hv hserve.toKept hap hyaml
  · cases c with
    | init => exact inv_init hwait.toKept hap hyaml hwait.map hwait.free
    | update faults origin f =>
      refine ⟨content,m0,.inr ?_⟩
      simp only [Recorded.step,SlotPersistence.call,SlotPersistence.update,SlotPersistence.written,bind_run,
        hwait.prepare,next_error]
      exact {hwait with toKept := hwait.toKept.mono (Nat.le_add_right n _)}
    | latest origin =>
      refine ⟨content,m0,.inr ?_⟩
      simp only [Recorded.step,SlotPersistence.call,hwait.latest]
      exact hwait
    | restart => exact inv_restart hv hwait.toKept hap hyaml

/-- A run of calls. -/
theorem Inv.run (hv : g.validate M = .ok ()) (hap : Apart (layout M g.start g.slotLengths))
    (hyaml : E.RoundTrips) (hrec : E.unmarshalRecord [] = .ok none)
    (hdir : ∀ m b, E.marshalMap m = .ok b → FreeOfMagic M b) (hinj : Function.Injective E.logID)
    {calls : List (Call Origin)} (h : s.Inv hB (layout M g.start g.slotLengths) E n)
    (hn : n+calls.countP Call.isUpdate+1 < 2^32) (hadm : ∀ c ∈ calls, c.Admissible M)
    (hreg : Lib.Transition.Along (next E g) (Registered E) s calls) :
    (s.run E g calls).Inv hB (layout M g.start g.slotLengths) E (n+calls.countP Call.isUpdate) := by
  induction calls generalizing s n with
  | nil => exact h
  | cons c calls ih =>
    have hsplit : ([c] ++ calls).countP Call.isUpdate =
        [c].countP Call.isUpdate+calls.countP Call.isUpdate := List.countP_append
    rw [List.singleton_append] at hsplit
    rw [hsplit] at hn ⊢
    obtain ⟨hc,hrest⟩ := List.forall_mem_cons.mp hadm
    have hstep := h.step hv hap hyaml hrec hdir hinj (by omega) hc hreg.1
    rw [← Nat.add_assoc] at hn ⊢
    exact ih hstep hn hrest (hreg.tail rfl)

end Recorded

instance (E : External Origin LogID) (s : Recorded M Origin LogID) :
    (c : Call Origin) → Decidable (s.Registered E c)
  | .init => inferInstanceAs (Decidable True)
  | .update _ _ _ => inferInstanceAs (Decidable (_ ∨ _))
  | .latest _ => inferInstanceAs (Decidable True)
  | .restart => inferInstanceAs (Decidable True)

end ArmoredWitness.Persistence
