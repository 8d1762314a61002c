import ArmoredWitness.Lib.Loop
import ArmoredWitness.Slots.Device

/-! The storage of the device: `WriteBlocks` and `ReadBlocks` cut a transfer into
RPCs of bounded size. Any of the RPCs may fail, and then nothing of it is stored. -/
namespace ArmoredWitness.Mmc
open Lib Slots

variable {M : Machine}

/-- The largest transfer that is attempted. -/
def maxTransferBytes : ℕ := 32*1024

/-- The card behind the RPCs. Its number of blocks is an `int` and its size in bytes an
`int64`. -/
structure Card (M : Machine) extends Slots.Device M where
  size_le : size ≤ M.maxInt
  bytes_lt : size*M.blockSize < 2^63

/-- The conversion of a `uint` to an `int`. -/
def toInt (M : Machine) (n : ℕ) : ℤ := if n ≤ M.maxInt then n else n-(M.maxUint+1)

/-- The result of an `int64` operation. -/
def int64 (x : ℤ) : ℤ := x.bmod (2^64)

/-- The arguments of `RPC.WriteBlocks`. -/
structure WriteRequest where
  lba : ℤ
  data : List UInt8

/-- The arguments of `RPC.Read`. -/
structure ReadRequest where
  offset : ℤ
  size : ℕ

/-- The RPCs `RPC.WriteBlocks` and `RPC.Read` of the operating system. -/
structure Rpc (M : Machine) where
  writeBlocks : Slots.Device M → WriteRequest → Option (Slots.Device M)
  read : Slots.Device M → ReadRequest → Option (List UInt8)

/-- What is assumed of them: the data is written at the block, if all of it is on the card,
and exactly the bytes from the offset on are read, if all of them are on the card. -/
structure Rpc.Exact (rpc : Rpc M) : Prop where
  writeBlocks : ∀ d x, rpc.writeBlocks d x =
    if 0 ≤ x.lba ∧ x.lba.toNat+numBlocks M x.data.length ≤ d.size then
      some (d.store x.lba.toNat (numBlocks M x.data.length) x.data)
    else none
  read : ∀ d x, rpc.read d x =
    if 0 ≤ x.offset ∧ x.offset.toNat+x.size ≤ d.size*M.blockSize then
      some (Blocks.cells d.block x.offset.toNat x.size)
    else none

section Write

/-- The variables of the loop in `WriteBlocks`, the card, and the requests made so far. -/
structure Writing (M : Machine) where
  b : List UInt8
  lba : ℕ
  dev : Slots.Device M
  sent : List WriteRequest

/-- What `WriteBlocks` leaves behind and returns. -/
structure Written (M : Machine) where
  dev : Slots.Device M
  sent : List WriteRequest
  result : Outcome WriteError ℕ

/-- The size of the next transfer. -/
def transferSize (b : List UInt8) : ℕ := if maxTransferBytes < b.length then maxTransferBytes else b.length

/-- One round of the loop: the RPC with number `i` fails if `fails i` says so, or if the
card does not have the blocks. -/
def writeBody (rpc : Rpc M) (fails : ℕ → Bool) (numBlocks : ℕ) (s : Writing M) : Turn (Writing M) (Written M) :=
  if s.b = [] then .leave ⟨s.dev,s.sent,.ok numBlocks⟩ else
  let bl := transferSize s.b
  let xfer : WriteRequest := ⟨toInt M s.lba,s.b.take bl⟩
  if fails s.sent.length then .leave ⟨s.dev,s.sent ++ [xfer],.error (.device s.lba)⟩ else
  match rpc.writeBlocks s.dev xfer with
  | none => .leave ⟨s.dev,s.sent ++ [xfer],.error (.device s.lba)⟩
  | some d => .again ⟨s.b.drop bl,M.wrap (s.lba+bl/M.blockSize),d,s.sent ++ [xfer]⟩

lemma transferSize_pos {b : List UInt8} (h : b ≠ []) : 0 < transferSize b := by
  have hl := List.length_pos_of_ne_nil h
  unfold transferSize
  split_ifs
  · decide
  · exact hl

lemma transferSize_le (b : List UInt8) : transferSize b ≤ maxTransferBytes ∧ transferSize b ≤ b.length := by
  unfold transferSize
  split_ifs with h
  · exact ⟨le_rfl,h.le⟩
  · exact ⟨Nat.le_of_not_lt h,le_rfl⟩

/-- The round after which the loop goes on. -/
lemma writeBody_eq_again {rpc : Rpc M} {fails : ℕ → Bool} {n : ℕ} {s t : Writing M}
    (h : writeBody rpc fails n s = .again t) :
    s.b ≠ [] ∧ fails s.sent.length = false ∧
    ∃ d, rpc.writeBlocks s.dev ⟨toInt M s.lba,s.b.take (transferSize s.b)⟩ = some d ∧
      t = ⟨s.b.drop (transferSize s.b),M.wrap (s.lba+transferSize s.b/M.blockSize),d,
        s.sent ++ [⟨toInt M s.lba,s.b.take (transferSize s.b)⟩]⟩ := by
  unfold writeBody at h
  split at h
  · cases h
  · rename_i hne
    dsimp only at h
    split at h
    · cases h
    · rename_i hf
      split at h
      · cases h
      · rename_i d hd
        cases h
        exact ⟨hne,by simpa using hf,d,hd,rfl⟩

/-- The rounds in which it ends. -/
lemma writeBody_eq_leave {rpc : Rpc M} {fails : ℕ → Bool} {n : ℕ} {s : Writing M} {x : Written M}
    (h : writeBody rpc fails n s = .leave x) :
    s.b = [] ∧ x = ⟨s.dev,s.sent,.ok n⟩ ∨
    s.b ≠ [] ∧ (fails s.sent.length = true ∨
        rpc.writeBlocks s.dev ⟨toInt M s.lba,s.b.take (transferSize s.b)⟩ = none) ∧
      x = ⟨s.dev,s.sent ++ [⟨toInt M s.lba,s.b.take (transferSize s.b)⟩],.error (.device s.lba)⟩ := by
  unfold writeBody at h
  split at h
  · rename_i hnil
    cases h
    exact .inl ⟨hnil,rfl⟩
  · rename_i hne
    dsimp only at h
    split at h
    · rename_i hf
      cases h
      exact .inr ⟨hne,.inl hf,rfl⟩
    · split at h
      · rename_i hd
        cases h
        exact .inr ⟨hne,.inr hd,rfl⟩
      · cases h

def writeLoop (rpc : Rpc M) (fails : ℕ → Bool) (numBlocks : ℕ) : Loop (Writing M) (Written M) where
  body := writeBody rpc fails numBlocks
  measure s := s.b.length
  decreases := by
    intro s t h
    obtain ⟨hne,-,d,-,rfl⟩ := writeBody_eq_again h
    have hpos := transferSize_pos hne
    have hl := List.length_pos_of_ne_nil hne
    rw [List.length_drop]
    omega

/-- A partial last block is filled up with zeros. -/
def padded (M : Machine) (b : List UInt8) : List UInt8 :=
  if b.length % M.blockSize ≠ 0 then
    b ++ List.replicate (M.blockSize-b.length % M.blockSize) 0
  else b

def writeBlocks (rpc : Rpc M) (fails : ℕ → Bool) (d : Slots.Device M) (lba : ℕ) (b : List UInt8) : Written M :=
  if b = [] then ⟨d,[],.ok 0⟩
  else (writeLoop rpc fails ((padded M b).length/M.blockSize)).exec ⟨padded M b,lba,d,[]⟩

end Write

section Read

structure Reading where
  filled : List UInt8
  b : List UInt8
  lba : ℕ
  sent : List ReadRequest

/-- What `ReadBlocks` leaves in the buffer and returns. -/
structure HasRead where
  buf : List UInt8
  sent : List ReadRequest
  result : Option ReadError

/-- The built-in `copy`: what is then in the destination. -/
def copied (dst src : List UInt8) : List UInt8 := src.take dst.length ++ dst.drop src.length

def readBody (rpc : Rpc M) (fails : ℕ → Bool) (d : Slots.Device M) (s : Reading) : Turn Reading HasRead :=
  if s.b = [] then .leave ⟨s.filled,s.sent,none⟩ else
  let bl := transferSize s.b
  let xfer : ReadRequest := ⟨int64 (int64 s.lba*int64 M.blockSize),bl⟩
  if fails s.sent.length then .leave ⟨s.filled ++ s.b,s.sent ++ [xfer],some (.device s.lba)⟩ else
  match rpc.read d xfer with
  | none => .leave ⟨s.filled ++ s.b,s.sent ++ [xfer],some (.device s.lba)⟩
  | some readBuf => .again ⟨s.filled ++ (copied s.b readBuf).take bl,(copied s.b readBuf).drop bl,
      M.wrap (s.lba+bl/M.blockSize),s.sent ++ [xfer]⟩

lemma copied_length (dst src : List UInt8) : (copied dst src).length = dst.length := by
  simp only [copied,List.length_append,List.length_take,List.length_drop]
  omega

lemma readBody_eq_again {rpc : Rpc M} {fails : ℕ → Bool} {d : Slots.Device M} {s t : Reading}
    (h : readBody rpc fails d s = .again t) : s.b ≠ [] ∧ ∃ readBuf,
      rpc.read d ⟨int64 (int64 s.lba*int64 M.blockSize),transferSize s.b⟩ = some readBuf ∧
      t = ⟨s.filled ++ (copied s.b readBuf).take (transferSize s.b),
        (copied s.b readBuf).drop (transferSize s.b),M.wrap (s.lba+transferSize s.b/M.blockSize),
        s.sent ++ [⟨int64 (int64 s.lba*int64 M.blockSize),transferSize s.b⟩]⟩ := by
  unfold readBody at h
  split at h
  · cases h
  · rename_i hne
    dsimp only at h
    split at h
    · cases h
    · split at h
      · cases h
      · rename_i readBuf hr
        cases h
        exact ⟨hne,readBuf,hr,rfl⟩

def readLoop (rpc : Rpc M) (fails : ℕ → Bool) (d : Slots.Device M) : Loop Reading HasRead where
  body := readBody rpc fails d
  measure s := s.b.length
  decreases := by
    intro s t h
    obtain ⟨hne,readBuf,-,rfl⟩ := readBody_eq_again h
    have hpos := transferSize_pos hne
    have hl := List.length_pos_of_ne_nil hne
    rw [List.length_drop,copied_length]
    omega

def readBlocks (rpc : Rpc M) (fails : ℕ → Bool) (d : Slots.Device M) (lba : ℕ) (b : List UInt8) : HasRead :=
  if b = [] then ⟨b,[],none⟩ else (readLoop rpc fails d).exec ⟨[],b,lba,[]⟩

end Read
end ArmoredWitness.Mmc
