import ArmoredWitness.Lib.Source
import ArmoredWitness.Slots.Entry

/-! The `io.Reader` over a block device, written over the arithmetic of its
positions, and `io.ReadFull` on it. As long as what is read lies within the
address space, it is the bytes of the device. -/
namespace ArmoredWitness.Slots
open Lib

variable {M : Machine}

structure BlockReader (M : Machine) where
  buf : Block M
  pos : ℕ

def newBlockReader (A : Arith) (M : Machine) (lba : ℕ) : BlockReader M :=
  ⟨zeroBlock M,A.uint (lba*M.blockSize : ℕ)⟩

namespace BlockReader

/-- The end of `Read`: hand out bytes of the buffered block and move on. -/
def copyOut (A : Arith) (br : BlockReader M) (n : ℕ) : BlockReader M × Except ReadError (List UInt8) :=
  let b := (br.buf.toList.drop (br.pos % M.blockSize)).take n
  ({br with pos := A.uint (br.pos+b.length : ℕ)},.ok b)

/-- One `Read` into a buffer of `n` bytes: the next block is fetched at a block
boundary, and no more than the rest of the buffered block is returned. -/
def read (A : Arith) (readBlocks : ReadBlocks M) (br : BlockReader M) (n : ℕ) :
    BlockReader M × Except ReadError (List UInt8) :=
  if br.pos % M.blockSize = 0 then
    match readBlocks (br.pos/M.blockSize) br.buf with
    | (buf,some e) => ({br with buf := buf},.error e)
    | (buf,none) => copyOut A {br with buf := buf} n
  else copyOut A br n

section Read
variable {A : Arith} {readBlocks : ReadBlocks M} {br br' : BlockReader M} {n : ℕ} {b : List UInt8}

lemma copyOut_ok (h : br.copyOut A n = (br',.ok b)) :
    b.length = min n (M.blockSize-br.pos % M.blockSize) ∧ br'.pos = A.uint (br.pos+b.length : ℕ) := by
  cases h
  exact ⟨by simp,rfl⟩

/-- What is known of a `Read` that succeeds, whatever it reads from. -/
lemma read_eq_ok (h : br.read A readBlocks n = (br',.ok b)) :
    b.length = min n (M.blockSize-br.pos % M.blockSize) ∧ br'.pos = A.uint (br.pos+b.length : ℕ) := by
  unfold read at h
  split at h
  · split at h
    · cases h
    · rename_i buf _
      have hc : copyOut A {br with buf := buf} n = (br',.ok b) := h
      have hok := copyOut_ok hc
      exact hok
  · exact copyOut_ok h

/-- A `Read` with a non-empty buffer returns at least one byte. -/
theorem read_progress (h : br.read A readBlocks n = (br',.ok b)) (hn : 0 < n) : b ≠ [] := by
  have hl := (read_eq_ok h).1
  have hm := Nat.mod_lt br.pos M.blockSize_pos
  exact List.ne_nil_of_length_pos (by omega)

end Read

/-- The reader as a source of bytes. -/
def source (A : Arith) (readBlocks : ReadBlocks M) : Source ReadError (BlockReader M) UInt8 where
  read br n :=
    match br.read A readBlocks n with
    | (br',.ok b) => .ok (b,br')
    | (_,.error e) => .error e
  length_le := by
    intro r n b r' h
    split at h
    · rename_i hr
      cases h
      have hl := (read_eq_ok hr).1
      omega
    · cases h
  progress := by
    intro r n b r' h hn
    split at h
    · rename_i hr
      cases h
      exact read_progress hr hn
    · cases h

def readFull (A : Arith) (readBlocks : ReadBlocks M) : ReadFull (BlockReader M) :=
  (source A readBlocks).readFull

lemma source_read_pos {A : Arith} {readBlocks : ReadBlocks M} {r r' : BlockReader M} {n : ℕ} {b : List UInt8}
    (h : (source A readBlocks).read r n = .ok (b,r')) : r'.pos = A.uint (r.pos+b.length : ℕ) := by
  change (match r.read A readBlocks n with
    | (br',.ok b) => Except.ok (b,br')
    | (_,.error e) => .error e) = _ at h
  split at h
  · rename_i hr
    cases h
    exact (read_eq_ok hr).2
  · cases h

/-- Whatever is read, the position moves on by its length. -/
lemma readFull_pos {A : Arith} {readBlocks : ReadBlocks M} {br br' : BlockReader M} {p n : ℕ}
    {v : List.Vector UInt8 n} (hp : br.pos = A.uint p) (h : readFull A readBlocks n br = .ok (v,br')) :
    br'.pos = A.uint (p+n : ℕ) := by
  rcases (source A readBlocks).readFull_rule (n := n) (I := fun got r => r.pos = A.uint (p+got.length : ℕ)) hp
    (fun got r b r' hr _ hb => by rw [source_read_pos hb,hr,A.add,List.length_append,Nat.add_assoc])
    with ⟨w,r,hok,hr⟩ | ⟨e,got,r,herr,-,-,-⟩
  · change readFull A readBlocks n br = _ at hok
    rw [h] at hok
    cases hok
    rwa [v.toList_length] at hr
  · change readFull A readBlocks n br = _ at herr
    rw [h] at herr
    cases herr

/-- The buffer holds the block the position is inside of. -/
def Synced (d : Device M) (br : BlockReader M) : Prop :=
  br.pos % M.blockSize = 0 ∨ br.buf = d.block (br.pos/M.blockSize) ∧ br.pos/M.blockSize < d.size

lemma synced_after {d : Device M} {br : BlockReader M} (k : ℕ)
    (hb : br.buf = d.block (br.pos/M.blockSize)) (hlt : br.pos/M.blockSize < d.size)
    (hk : br.pos % M.blockSize+k ≤ M.blockSize) : Synced d {br with pos := br.pos+k} := by
  rcases Nat.eq_or_lt_of_le hk with he | hl
  · left
    change (br.pos+k) % M.blockSize = 0
    rw [← Nat.mod_add_mod,he,Nat.mod_self]
  · right
    have h0 := Blocks.add_div_same M.blockSize_pos hl
    exact ⟨by simpa only [h0] using hb,by simpa only [h0] using hlt⟩

section Device
variable {d : Device M} {br : BlockReader M}

/-- With the block of the position in the buffer, the device's next bytes are handed out. -/
lemma copyOut_buffered (A : Arith) (n : ℕ) (hb : br.buf = d.block (br.pos/M.blockSize)) :
    br.copyOut A n = ({br with pos := A.uint (br.pos+min n (M.blockSize-br.pos % M.blockSize) : ℕ)},
      .ok (Blocks.cells d.block br.pos (min n (M.blockSize-br.pos % M.blockSize)))) := by
  have hmod := Nat.mod_lt br.pos M.blockSize_pos
  have hcells : (br.buf.toList.drop (br.pos % M.blockSize)).take n =
      Blocks.cells d.block br.pos (min n (M.blockSize-br.pos % M.blockSize)) := by
    rw [Blocks.cells_within M.blockSize_pos _ _ _ (by omega),hb]
    simp only [List.take_eq_take_iff,List.length_drop,List.Vector.toList_length]
    omega
  simp only [copyOut,hcells,Blocks.cells_length]

variable (hs : br.Synced d)
include hs

/-- On a readable block one `Read` returns the device's next bytes. -/
theorem read_ok (A : Arith) (n : ℕ) (hlt : br.pos/M.blockSize < d.size) : ∃ (k : ℕ) (br' : BlockReader M),
    k = min n (M.blockSize-br.pos % M.blockSize) ∧ br'.pos = br.pos+k ∧ br'.Synced d ∧
    br.read A d.readBlocks n = ({br' with pos := A.uint br'.pos},.ok (Blocks.cells d.block br.pos k)) := by
  have hmod := Nat.mod_lt br.pos M.blockSize_pos
  have hbuf : br.read A d.readBlocks n =
      copyOut A {br with buf := d.block (br.pos/M.blockSize)} n := by
    by_cases h0 : br.pos % M.blockSize = 0
    · simp only [read,if_pos h0,Device.readBlocks,if_pos hlt]
    · rcases hs with hz | ⟨hb,-⟩
      · exact absurd hz h0
      · rw [read,if_neg h0,← hb]
  refine ⟨_,⟨d.block (br.pos/M.blockSize),br.pos+min n (M.blockSize-br.pos % M.blockSize)⟩,rfl,rfl,?_,?_⟩
  · have hk : br.pos % M.blockSize+min n (M.blockSize-br.pos % M.blockSize) ≤ M.blockSize := by omega
    have hfetched : (⟨d.block (br.pos/M.blockSize),br.pos⟩ : BlockReader M).buf =
        d.block (br.pos/M.blockSize) := rfl
    exact synced_after _ hfetched hlt hk
  · rw [hbuf,copyOut_buffered A n rfl]

lemma read_error (A : Arith) (n : ℕ) (hge : d.size ≤ br.pos/M.blockSize) :
    br.read A d.readBlocks n = (br,.error (.device (br.pos/M.blockSize))) := by
  rcases hs with h0 | ⟨-,hlt⟩
  · simp only [read,if_pos h0,Device.readBlocks,if_neg (Nat.not_lt_of_le hge)]
  · omega

end Device
end BlockReader

namespace Device

/-- Every block that holds one of the `n` bytes from position `p` on is on the device. -/
def Readable (d : Device M) (p n : ℕ) : Prop := ∀ i < n, (p+i)/M.blockSize < d.size

lemma Readable.mono {d : Device M} {p n m : ℕ} (h : d.Readable p n) (hm : m ≤ n) :
    d.Readable p m := fun i hi => h i (hi.trans_le hm)

lemma readable_add (d : Device M) (p n m : ℕ) :
    d.Readable p (n+m) ↔ d.Readable p n ∧ d.Readable (p+n) m := by
  constructor
  · intro h
    refine ⟨h.mono (Nat.le_add_right _ _),fun i hi => ?_⟩
    have hn := h (n+i) (by omega)
    rwa [← Nat.add_assoc] at hn
  · rintro ⟨h,h'⟩ i hi
    by_cases hlt : i < n
    · exact h i hlt
    · have hn := h' (i-n) (by omega)
      rwa [show p+n+(i-n) = p+i by omega] at hn

/-- From a block boundary, readability is a matter of whole blocks. -/
theorem readable_iff (d : Device M) (lba n : ℕ) (hn : 0 < n) :
    d.Readable (lba*M.blockSize) n ↔ lba+numBlocks M n ≤ d.size := by
  have hB := M.blockSize_pos
  have hdiv : ∀ i, (lba*M.blockSize+i)/M.blockSize = lba+i/M.blockSize := by
    intro i
    rw [Nat.mul_comm,Nat.mul_add_div hB]
  constructor
  · intro h
    have hl := h (n-1) (by omega)
    have hc := Blocks.pred_div_succ hB lba n hn
    rw [show lba*M.blockSize+(n-1) = lba*M.blockSize+n-1 by omega] at hl
    unfold numBlocks
    omega
  · intro h i hi
    have hc := Blocks.div_lt_count hB hi
    rw [hdiv]
    exact Nat.lt_of_lt_of_le (Nat.add_lt_add_left hc lba) h

end Device

namespace BlockReader

/-- The reader has come to position `p`, which is at most the end of the address
space; there it may be stored as something else. -/
structure At (A : Arith) (L : ℕ) (d : Device M) (p : ℕ) (br : BlockReader M) : Prop where
  pos : br.pos = A.uint p
  le : p ≤ L
  synced : p < L → br.Synced d

section Within
variable {A : Arith} {L : ℕ} (hA : A.UpTo L) {d : Device M} {br : BlockReader M} {p n : ℕ}
include hA

lemma at_new {lba : ℕ} (hle : lba*M.blockSize ≤ L) : (newBlockReader A M lba).At A L d (lba*M.blockSize) := by
  refine ⟨rfl,hle,fun hlt => .inl ?_⟩
  dsimp only [newBlockReader]
  rw [hA.uint hlt]
  exact Nat.mul_mod_left _ _

/-- One `Read` of `io.ReadFull` below the end of the address space. -/
lemma At.read (h : br.At A L d p) (hn : 0 < n) (hend : p+n ≤ L) :
    (p/M.blockSize < d.size ∧ ∃ (k : ℕ) (br' : BlockReader M), k ≤ n ∧ p % M.blockSize+k ≤ M.blockSize ∧
      br'.At A L d (p+k) ∧ (source A d.readBlocks).read br n = .ok (Blocks.cells d.block p k,br')) ∨
    (¬ p/M.blockSize < d.size ∧ ∃ e, (source A d.readBlocks).read br n = .error e) := by
  have hs := h.synced (by omega)
  have hpos : br.pos = p := by rw [h.pos,hA.uint (by omega)]
  have hmod := Nat.mod_lt p M.blockSize_pos
  by_cases hlt : p/M.blockSize < d.size
  · left
    obtain ⟨k,br',hk,hp,hs',hr⟩ := read_ok hs A n (by rwa [hpos])
    rw [hpos] at hk hp hr
    refine ⟨hlt,k,{br' with pos := A.uint br'.pos},by omega,by omega,⟨by rw [hp],by omega,fun hend' => ?_⟩,
      by simp only [source,hr]⟩
    have hsame : ({br' with pos := A.uint br'.pos} : BlockReader M) = br' := by
      rw [hA.uint (by omega)]
    rwa [hsame]
  · right
    have hr := read_error hs A n (by rw [hpos]; omega)
    exact ⟨hlt,_,by simp only [source,hr]; rfl⟩

/-- Within the address space `io.ReadFull` returns exactly the device's bytes from the
position on, or fails because one of them is not on the device. -/
theorem readFull_spec (h : br.At A L d p) (hend : p+n ≤ L) :
    (d.Readable p n ∧ ∃ v br', readFull A d.readBlocks n br = .ok (v,br') ∧
      v.toList = Blocks.cells d.block p n ∧ br'.At A L d (p+n)) ∨
    (¬ d.Readable p n ∧ ∃ e, readFull A d.readBlocks n br = .error e) := by
  have hkeeps : ∀ got (r : BlockReader M) b r',
      (got = Blocks.cells d.block p got.length ∧ r.At A L d (p+got.length) ∧ d.Readable p got.length) →
      got.length < n → (source A d.readBlocks).read r (n-got.length) = .ok (b,r') →
      (got ++ b = Blocks.cells d.block p (got ++ b).length ∧ r'.At A L d (p+(got ++ b).length) ∧
        d.Readable p (got ++ b).length) := by
    rintro got r b r' ⟨hgot,hat,hr⟩ hlt hb
    rcases hat.read hA (n := n-got.length) (by omega) (by omega) with ⟨hsz,k,r2,-,hk,hat',hok⟩ | ⟨-,e,herr⟩
    · rw [hok] at hb
      cases hb
      have hlen : (got ++ Blocks.cells d.block (p+got.length) k).length = got.length+k := by simp
      rw [hlen]
      refine ⟨by rw [← Blocks.cells_append,← hgot],by rwa [← Nat.add_assoc],?_⟩
      rw [Device.readable_add]
      exact ⟨hr,fun i hi => by rwa [Blocks.add_div_same M.blockSize_pos (by omega)]⟩
    · rw [herr] at hb
      cases hb
  rcases (source A d.readBlocks).readFull_rule (n := n)
    (I := fun got r => got = Blocks.cells d.block p got.length ∧ r.At A L d (p+got.length) ∧
      d.Readable p got.length) ⟨rfl,h,fun i hi => absurd hi (Nat.not_lt_zero _)⟩ hkeeps
    with ⟨v,br',hok,hv,hat,hr⟩ | ⟨e,got,r,herr,⟨-,hat,-⟩,hlt,hre⟩
  · rw [v.toList_length] at hv hat hr
    exact .inl ⟨hr,v,br',hok,hv,hat⟩
  · rcases hat.read hA (n := n-got.length) (by omega) (by omega) with ⟨-,k,r',-,-,-,hok⟩ | ⟨hsz,-⟩
    · rw [hok] at hre
      cases hre
    · exact .inr ⟨fun hc => hsz (hc _ hlt),e,herr⟩

theorem readFull_ok (h : br.At A L d p) (hr : d.Readable p n) (hend : p+n ≤ L) :
    ∃ v br', readFull A d.readBlocks n br = .ok (v,br') ∧ v.toList = Blocks.cells d.block p n ∧
      br'.At A L d (p+n) := by
  rcases readFull_spec hA h hend with ⟨-,hok⟩ | ⟨hn,-⟩
  · exact hok
  · exact absurd hr hn

end Within
end BlockReader
end ArmoredWitness.Slots
