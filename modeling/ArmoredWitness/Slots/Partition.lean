import ArmoredWitness.Slots.Journal

/-! Partitions and their slots. A partition carries its device, and how the one
`WriteBlocks` call of a write goes is a parameter of the write. A slot is referred
to by its index. -/
namespace ArmoredWitness.Slots
open Lib

variable {M : Machine} {ε α : Type}

structure Geometry where
  start : ℕ
  length : ℕ
  slotLengths : List ℕ

inductive PartitionError
  | invalidGeometry (total length : ℕ)
  | invalidSlot (slot numSlots : ℕ)
  | eraseFailed
  deriving DecidableEq

inductive SlotError
  | openJournal (e : JournalError)
  | invalidToken
  | update (e : JournalError)
  | erase (slot start stop : ℕ) (e : WriteError)
  deriving DecidableEq

/-- The sum of the slot lengths, as the loop in `Validate` computes it. -/
def Geometry.total (M : Machine) (g : Geometry) : ℕ := g.slotLengths.foldl (fun t l => M.wrap (t+l)) 0

def Geometry.validate (M : Machine) (g : Geometry) : Outcome PartitionError Unit :=
  if g.length < g.total M then .error (.invalidGeometry (g.total M) g.length) else .ok ()

/-- A slot. Its journal is opened on first access. -/
structure Slot where
  start : ℕ
  length : ℕ
  journal : Option Journal
  deriving DecidableEq

structure Partition (M : Machine) where
  dev : Device M
  slots : List Slot

/-- The loop of `OpenPartition`. -/
def layout (M : Machine) : ℕ → List ℕ → List Slot
  | _, [] => []
  | b, l::ls => ⟨b,l,none⟩::layout M (M.wrap (b+l)) ls

def openPartition (rw : Device M) (g : Geometry) : Outcome PartitionError (Partition M) :=
  (g.validate M).map fun _ => ⟨rw,layout M g.start g.slotLengths⟩

/-- How the `WriteBlocks` call of a write goes: everything is stored, or the call
fails after some blocks. -/
abbrev Fault := Option ℕ

def Fault.writeBlocks : Fault → WriteBlocks M
  | none => Slots.writeBlocks
  | some k => writePrefix k

namespace Slot
variable (s : Slot)

/-- The slot with the journal that `OpenJournal` returned. -/
def adopt : Outcome JournalError Journal → Slot × Outcome SlotError Unit
  | .ok j => ({s with journal := some j},.ok ())
  | .error e => (s,.error (.openJournal e))
  | .panic p => (s,.panic p)

def openSlot (d : Device M) : Slot × Outcome SlotError Unit :=
  match s.journal with
  | some _ => (s,.ok ())
  | none => s.adopt (Slots.openJournal d s.start s.length)

/-- An error of `Open` is logged and dropped by the partition. -/
def logged : Slot × Outcome SlotError Unit → Slot × Outcome PartitionError Unit
  | (s',.panic q) => (s',.panic q)
  | (s',_) => (s',.ok ())

def openLogged (d : Device M) : Device M × Slot × Outcome PartitionError Unit := (d,logged (s.openSlot d))

def read : Outcome SlotError (List UInt8 × UInt32) :=
  match s.journal with
  | none => .panic .nilDereference
  | some j => .ok j.data

def write (fault : Fault) (d : Device M) (p : List UInt8) : Device M × Slot × Outcome SlotError Unit :=
  match s.journal with
  | none => (d,s,.panic .nilDereference)
  | some j =>
    let r := j.update fault.writeBlocks d p
    (r.1,{s with journal := some r.2.1},r.2.2.mapError .update)

def checkAndWrite (fault : Fault) (d : Device M) (token : UInt32) (p : List UInt8) :
    Device M × Slot × Outcome SlotError Unit :=
  match s.journal with
  | none => (d,s,.panic .nilDereference)
  | some j => if j.current.revision ≠ token then (d,s,.error .invalidToken) else s.write fault d p

/-- `eraseSlot` on the slot with index `i`. The journal is dropped first, and the end
of the range in the error is computed from the length in bytes. -/
def erase (fault : Fault) (i : ℕ) (d : Device M) : Device M × Slot × Outcome SlotError Unit :=
  let length := M.wrap (s.length*M.blockSize)
  if M.maxAlloc < length then (d,{s with journal := none},.panic (.makeslice length)) else
  let r := fault.writeBlocks d s.start (List.replicate length 0)
  (r.1,{s with journal := none},
    (r.2.mapError (.erase i s.start (M.wrap (s.start+length)))).map fun _ => ())

end Slot

namespace Partition
variable (p : Partition M)

def numSlots : ℕ := p.slots.length

/-- A method of the slot with index `i`. -/
def onSlot (i : ℕ) (f : Device M → Slot → Device M × Slot × Outcome ε α) : Partition M × Outcome ε α :=
  match p.slots[i]? with
  | none => (p,.panic (.indexOutOfRange i p.numSlots))
  | some s =>
    let r := f p.dev s
    (⟨r.1,p.slots.set i r.2.1⟩,r.2.2)

def openSlot (slot : ℕ) : Partition M × Outcome PartitionError Unit :=
  if p.numSlots ≤ slot then (p,.error (.invalidSlot slot p.numSlots)) else
  p.onSlot slot fun d s => s.openLogged d

def read (i : ℕ) : Partition M × Outcome SlotError (List UInt8 × UInt32) :=
  p.onSlot i fun d s => (d,s,s.read)

def write (fault : Fault) (i : ℕ) (data : List UInt8) : Partition M × Outcome SlotError Unit :=
  p.onSlot i fun d s => s.write fault d data

def checkAndWrite (fault : Fault) (i : ℕ) (token : UInt32) (data : List UInt8) :
    Partition M × Outcome SlotError Unit :=
  p.onSlot i fun d s => s.checkAndWrite fault d token data

def eraseSlot (fault : Fault) (i : ℕ) : Partition M × Outcome SlotError Unit :=
  p.onSlot i fun d s => s.erase fault i d

/-- The loop of `Erase`: the errors are logged, and `borked` stays what it was. -/
def eraseLoop (faults : ℕ → Fault) (borked : Bool) :
    List ℕ → Partition M → Partition M × Outcome PartitionError Bool
  | [], p => (p,.ok borked)
  | i::is, p =>
    match p.eraseSlot (faults i) i with
    | (p',.panic q) => (p',.panic q)
    | (p',_) => eraseLoop faults borked is p'

/-- `Erase`, when the write for slot `i` goes as `faults i` says. -/
def erase (faults : ℕ → Fault) : Partition M × Outcome PartitionError Unit :=
  let r := eraseLoop faults false (List.range p.numSlots) p
  (r.1,r.2.bind fun borked => if borked then .error .eraseFailed else .ok ())

end Partition

/-- An operation on one slot of a partition. -/
inductive SlotOp
  | openSlot
  | read
  | write (data : List UInt8) (fault : Fault)
  | checkAndWrite (token : UInt32) (data : List UInt8) (fault : Fault)

/-- What an operation on a slot returns. -/
inductive SlotResult
  | opened (r : Outcome PartitionError Unit)
  | data (r : Outcome SlotError (List UInt8 × UInt32))
  | written (r : Outcome SlotError Unit)
  deriving DecidableEq

namespace Partition

def step (p : Partition M) (i : ℕ) : SlotOp → Partition M × SlotResult
  | .openSlot => ((p.openSlot i).1,.opened (p.openSlot i).2)
  | .read => ((p.read i).1,.data (p.read i).2)
  | .write data fault => ((p.write fault i data).1,.written (p.write fault i data).2)
  | .checkAndWrite token data fault =>
    ((p.checkAndWrite fault i token data).1,.written (p.checkAndWrite fault i token data).2)

/-- A run of operations on the slots, and what each of them returned. -/
def run (p : Partition M) : List (ℕ × SlotOp) → Partition M × List (ℕ × SlotResult)
  | [] => (p,[])
  | (i,op)::ops =>
    let r := p.step i op
    let rest := r.1.run ops
    (rest.1,(i,r.2)::rest.2)

end Partition
end ArmoredWitness.Slots
