import Mathlib.Data.Finmap
import ArmoredWitness.Lib.Action
import ArmoredWitness.Slots.Partition

/-! The persistence of the witness: a checkpoint for each log, in a slot of its
own, and a directory of the logs in the first slot. Every function is an action on
the persistence together with the partition it writes to; a parameter says how the
writes to the device go. Log IDs are only ever compared, so their type is left open. -/
namespace ArmoredWitness.Persistence
open Lib Lib.Action Slots

variable {M : Machine} {Origin LogID : Type} [DecidableEq LogID]

/-- The slot that holds the directory. -/
def mappingConfigSlot : ℕ := 0

/-- What comes before a checkpoint that is stored as it is. -/
def rawRecordMagic : List UInt8 := [0x01,0x52,0x41,0x57]

abbrev SlotMap (LogID : Type) := Finmap fun _ : LogID => ℕ

/-- The slots that a directory gives to logs. -/
def SlotMap.slots (m : SlotMap LogID) : Multiset ℕ := m.entries.map fun x => x.2

inductive YamlError
  | yaml (text : String)
  deriving DecidableEq

/-- What comes from outside the package: `logfmt.ID`, `yaml.Marshal` and
`yaml.Unmarshal` on a directory, the latter into a map that may have entries
already, `yaml.Unmarshal` of the record in which checkpoints used to be stored, and
the order, left open by the language, in which a loop over a directory meets its slots. -/
structure External (Origin LogID : Type) where
  logID : Origin → LogID
  marshalMap : SlotMap LogID → Outcome YamlError (List UInt8)
  unmarshalMap : List UInt8 → SlotMap LogID → SlotMap LogID × Outcome YamlError Unit
  unmarshalRecord : List UInt8 → Outcome YamlError (Option (List UInt8))
  range : (m : SlotMap LogID) → {order : List ℕ // (order : Multiset ℕ) = m.slots}

inductive DirectoryError
  | read (e : SlotError)
  | unmarshal (e : YamlError)
  | reservedSlot
  | marshal (e : YamlError)
  | store (e : SlotError)
  | noFreeSlot
  | storeMap (e : DirectoryError)
  deriving DecidableEq

inductive PersistenceError (LogID : Type)
  | openMapping (e : PartitionError)
  | populateMap (e : DirectoryError)
  | noSlot
  | noCheckpoint
  | assignSlot (id : LogID) (e : DirectoryError)
  | openSlot (slot : ℕ) (id : LogID) (e : PartitionError)
  | read (e : SlotError)
  | unmarshalCheckpoint (e : YamlError)
  | callback (text : String)
  | write (e : SlotError)
  deriving DecidableEq

/-- The errors with the code `NotFound`. -/
def PersistenceError.isNotFound : PersistenceError LogID → Bool
  | .noSlot => true
  | .noCheckpoint => true
  | _ => false

structure SlotPersistence (M : Machine) (LogID : Type) where
  part : Partition M
  directorySlot : Option ℕ
  directoryWriteToken : UInt32
  idToSlot : SlotMap LogID
  freeSlots : List ℕ

def newSlotPersistence (part : Partition M) : SlotPersistence M LogID := ⟨part,none,0,∅,[]⟩

/-- A checkpoint as a byte slice, which may be nil. -/
abbrev Checkpoint := Option (List UInt8)

def marshalCheckpoint (cpRaw : List UInt8) : List UInt8 := rawRecordMagic ++ cpRaw

def unmarshalCheckpoint (E : External Origin LogID) (b : List UInt8) : Outcome YamlError Checkpoint :=
  if rawRecordMagic <+: b then .ok (some (b.drop rawRecordMagic.length))
  else E.unmarshalRecord b

namespace SlotPersistence
variable {ε δ α : Type}

/-- A call on the partition. -/
def onPart (wrap : δ → ε) (f : Partition M → Partition M × Outcome δ α) :
    Action (SlotPersistence M LogID) ε α := fun p =>
  ({p with part := (f p.part).1},(f p.part).2.mapError wrap)

/-- The directory slot, behind a pointer that is nil before `Init`. -/
def directory : Action (SlotPersistence M LogID) ε ℕ := fun p =>
  (p,match p.directorySlot with
    | none => .panic .nilDereference
    | some i => .ok i)

variable (E : External Origin LogID)

/-- The assignment `slotState[idx] = true`. -/
def mark (idx : ℕ) (slotState : List Bool) : Outcome DirectoryError (List Bool) :=
  if idx < slotState.length then .ok (slotState.set idx true)
  else .panic (.indexOutOfRange idx slotState.length)

/-- The loop of `populateMap` over the slots of the directory. -/
def markUsed : List ℕ → List Bool → Outcome DirectoryError (List Bool)
  | [], slotState => .ok slotState
  | idx::order, slotState =>
    if idx = mappingConfigSlot then .error .reservedSlot
    else (mark idx slotState).bind (markUsed order)

/-- The rest of `populateMap`, after the directory has been read: which slots are
free. -/
def findFreeSlots : Action (SlotPersistence M LogID) DirectoryError Unit := do
  let p ← get
  let used ← lift (markUsed (E.range p.idToSlot).1 (List.replicate p.part.numSlots false))
  let slotState ← lift (mark mappingConfigSlot used)
  modify fun p => {p with
    freeSlots := (List.range slotState.length).filter fun idx => ¬ slotState.getD idx true}

def populateMap : Action (SlotPersistence M LogID) DirectoryError Unit := do
  let s ← directory
  let (b,t) ← onPart .read fun part => part.read s
  let p ← get
  modify fun p => {p with idToSlot := (E.unmarshalMap b p.idToSlot).1}
  lift ((E.unmarshalMap b p.idToSlot).2.mapError .unmarshal)
  modify fun p => {p with directoryWriteToken := t}
  findFreeSlots E

def init : Action (SlotPersistence M LogID) (PersistenceError LogID) Unit := do
  onPart .openMapping fun part => part.openSlot mappingConfigSlot
  modify fun p => {p with directorySlot := some mappingConfigSlot}
  (populateMap E).mapError .populateMap

def storeDirectory (fault : Fault) : Action (SlotPersistence M LogID) DirectoryError Unit := do
  let p ← get
  let smRaw ← lift ((E.marshalMap p.idToSlot).mapError .marshal)
  let s ← directory
  onPart .store fun part => part.checkAndWrite fault s p.directoryWriteToken smRaw
  modify fun p => {p with directoryWriteToken := p.directoryWriteToken+1}

def addLog (fault : Fault) (id : LogID) : Action (SlotPersistence M LogID) DirectoryError ℕ := do
  let p ← get
  match p.idToSlot.lookup id, p.freeSlots with
  | some idx, _ => pure idx
  | none, [] => fail .noFreeSlot
  | none, f::rest =>
    modify fun p => {p with freeSlots := rest, idToSlot := p.idToSlot.insert id f}
    (storeDirectory E fault).mapError .storeMap
    pure f

def logSlot (fault : Fault) (logID : LogID) (create : Bool) :
    Action (SlotPersistence M LogID) (PersistenceError LogID) ℕ := do
  let p ← get
  match p.idToSlot.lookup logID with
  | some i => pure i
  | none =>
    if create then (addLog E fault logID).mapError (.assignSlot logID)
    else fail .noSlot

/-- The data and the token of a slot, which is opened if need be. -/
def openAndRead (i : ℕ) (id : LogID) :
    Action (SlotPersistence M LogID) (PersistenceError LogID) (List UInt8 × UInt32) := do
  onPart (.openSlot i id) fun part => part.openSlot i
  onPart .read fun part => part.read i

def latest (origin : Origin) : Action (SlotPersistence M LogID) (PersistenceError LogID) Checkpoint := do
  let i ← logSlot E none (E.logID origin) false
  let (b,_) ← openAndRead i (E.logID origin)
  if b.length = 0 then fail .noCheckpoint
  else lift ((unmarshalCheckpoint E b).mapError .unmarshalCheckpoint)

/-- The function that the caller of `Update` passes. -/
abbrev Callback := Checkpoint → Outcome String (List UInt8)

/-- How the two writes of an `Update` go. -/
structure Faults where
  directory : Fault
  checkpoint : Fault

/-- `Update` up to the call of `f`: the slot, its token and the checkpoint in it. -/
def prepare (fault : Fault) (origin : Origin) :
    Action (SlotPersistence M LogID) (PersistenceError LogID) (ℕ × UInt32 × Checkpoint) := do
  let i ← logSlot E fault (E.logID origin) true
  let (b,t) ← openAndRead i (E.logID origin)
  let currCP ← lift ((unmarshalCheckpoint E b).mapError .unmarshalCheckpoint)
  pure (i,t,currCP)

def update (faults : Faults) (origin : Origin) (f : Callback) :
    Action (SlotPersistence M LogID) (PersistenceError LogID) Unit := do
  let (i,t,currCP) ← prepare E faults.directory origin
  let newCP ← lift ((f currCP).mapError .callback)
  onPart .write fun part => part.checkAndWrite faults.checkpoint i t (marshalCheckpoint newCP)

/-- A restart of the process: a new persistence on the partition, opened anew. -/
def restart (g : Geometry) (p : SlotPersistence M LogID) :
    SlotPersistence M LogID × Outcome (PersistenceError LogID) Unit :=
  match openPartition p.part.dev g with
  | .ok part => init E (newSlotPersistence part)
  | .error e => (p,.error (.openMapping e))
  | .panic q => (p,.panic q)

end SlotPersistence

/-- The calls that a process makes on the persistence, and its restarts. -/
inductive Call (Origin : Type)
  | init
  | update (faults : SlotPersistence.Faults) (origin : Origin) (f : SlotPersistence.Callback)
  | latest (origin : Origin)
  | restart

/-- What a call returns. -/
inductive Result (LogID : Type)
  | done (r : Outcome (PersistenceError LogID) Unit)
  | checkpoint (r : Outcome (PersistenceError LogID) Checkpoint)
  deriving DecidableEq

/-- The call returned nil, or a checkpoint. -/
def Result.isOk : Result LogID → Bool
  | .done r => r.isOk
  | .checkpoint r => r.isOk

/-- One call, by a process that uses the partition of the given geometry. -/
def SlotPersistence.call (E : External Origin LogID) (g : Geometry) (p : SlotPersistence M LogID) :
    Call Origin → SlotPersistence M LogID × Result LogID
  | .init => ((init E p).1,.done (init E p).2)
  | .update faults origin f => ((update E faults origin f p).1,.done (update E faults origin f p).2)
  | .latest origin => ((latest E origin p).1,.checkpoint (latest E origin p).2)
  | .restart => ((restart E g p).1,.done (restart E g p).2)

end ArmoredWitness.Persistence
