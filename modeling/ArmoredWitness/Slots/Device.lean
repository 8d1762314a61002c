import Mathlib.Data.UInt
import ArmoredWitness.Lib.Arith
import ArmoredWitness.Lib.Blocks
import ArmoredWitness.Lib.Outcome

/-! The block storage under the slots package: `BlockReaderWriter` and the ways
one `WriteBlocks` call can end. A device may be larger than what byte positions in
the machine's `uint` reach. -/
namespace ArmoredWitness.Slots
open Lib

/-- What the code takes from the machine it runs on: the block size of the
storage, the largest `int`, and the length up to which `make` can allocate a byte
slice. -/
structure Machine where
  blockSize : ℕ
  maxInt : ℕ
  maxAlloc : ℕ
  blockSize_pos : 0 < blockSize
  maxInt_lt : maxInt < 2^63
  maxAlloc_le : maxAlloc ≤ maxInt

/-- The largest `uint`. -/
def Machine.maxUint (M : Machine) : ℕ := 2*M.maxInt+1

/-- The result of a `uint` operation. -/
def Machine.wrap (M : Machine) (n : ℕ) : ℕ := n % (M.maxUint+1)

/-- The number of byte positions that a `uint` can hold. -/
def Machine.space (M : Machine) : ℕ := M.maxUint+1

lemma Machine.space_pos (M : Machine) : 0 < M.space := Nat.succ_pos _

/-- The arithmetic of the machine's `uint` and `int`. -/
def Machine.arith (M : Machine) : Arith := .modulo M.space M.space_pos

lemma Machine.arith_upTo (M : Machine) : M.arith.UpTo M.space := Arith.modulo_upTo M.space_pos

lemma Machine.arith_uint (M : Machine) (n : ℕ) : M.arith.uint n = M.wrap n := Arith.modulo_uint M.space_pos n

lemma Machine.wrap_le (M : Machine) (n : ℕ) : M.wrap n ≤ n := Nat.mod_le _ _

lemma Machine.uint_le (M : Machine) (n : ℕ) : M.arith.uint n ≤ n := (M.arith_uint n).trans_le (M.wrap_le n)

lemma Machine.wrap_le_maxUint (M : Machine) (n : ℕ) : M.wrap n ≤ M.maxUint :=
  Nat.le_of_lt_succ (Nat.mod_lt _ (Nat.succ_pos _))

lemma Machine.wrap_eq {M : Machine} {n : ℕ} (h : n ≤ M.maxUint) : M.wrap n = n :=
  Nat.mod_eq_of_lt (Nat.lt_succ_of_le h)

/-- A machine with words of 32 bits. -/
def Machine.bits32 (blockSize : ℕ) (h : 0 < blockSize) : Machine where
  blockSize := blockSize
  maxInt := 2^31-1
  maxAlloc := 2^31-1
  blockSize_pos := h
  maxInt_lt := by decide
  maxAlloc_le := Nat.le_refl _

/-- A 32-bit machine with the smallest blocks that hold the header of a record. -/
def smallMachine : Machine := .bits32 48 (by decide)

variable {M : Machine}

abbrev Block (M : Machine) := List.Vector UInt8 M.blockSize

def zeroBlock (M : Machine) : Block M := Blocks.cut M.blockSize [] 0

/-- A storage device of `size` blocks. -/
@[ext]
structure Device (M : Machine) where
  size : ℕ
  block : Blocks.Store UInt8 M.blockSize

def Device.zeros (M : Machine) (size : ℕ) : Device M := ⟨size,fun _ => zeroBlock M⟩

inductive ReadError
  | device (lba : ℕ)
  | eof
  | unexpectedEOF
  deriving DecidableEq, Repr

inductive WriteError
  | device (lba : ℕ)
  deriving DecidableEq, Repr

/-- The number of blocks a byte string takes on the device. -/
def numBlocks (M : Machine) (n : ℕ) : ℕ := Blocks.count M.blockSize n

namespace Device
variable (d : Device M)

/-- The first `k` blocks of `b`, filled up with zeros, put at `lba`. -/
def store (lba k : ℕ) (b : List UInt8) : Device M := {d with block := Blocks.store d.block lba k b}

@[simp] theorem store_size (lba k : ℕ) (b : List UInt8) : (d.store lba k b).size = d.size := rfl

@[simp] theorem store_zero (lba : ℕ) (b : List UInt8) : d.store lba 0 b = d := by simp [store]

theorem store_outside {lba k q : ℕ} (b : List UInt8) (h : q < lba ∨ lba+k ≤ q) :
    (d.store lba k b).block q = d.block q := Blocks.store_outside d.block b h

end Device

/-- What a `ReadBlocks` call leaves in a buffer of one block, and its error. -/
abbrev ReadBlocks (M : Machine) := ℕ → Block M → Block M × Option ReadError

/-- The blocks of a device, read without a fault. -/
def Device.readBlocks (d : Device M) : ReadBlocks M := fun lba buf =>
  if lba < d.size then (d.block lba,none) else (buf,some (.device lba))

/-- How one `WriteBlocks` call behaves: what it leaves on the device and what it
returns. -/
abbrev WriteBlocks (M : Machine) := Device M → ℕ → List UInt8 → Device M × Outcome WriteError ℕ

/-- The call stores everything and returns the number of blocks. -/
def writeBlocks : WriteBlocks M := fun d lba b =>
  let n := numBlocks M b.length
  if lba+n ≤ d.size then (d.store lba n b,.ok n) else (d,.error (.device lba))

/-- The call stores the first `k` blocks, in address order, and then fails. -/
def writePrefix (k : ℕ) : WriteBlocks M := fun d lba b =>
  (d.store lba (min k (numBlocks M b.length)) b,.error (.device (lba+k)))

end ArmoredWitness.Slots
