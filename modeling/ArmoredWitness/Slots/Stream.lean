import ArmoredWitness.Slots.BlockReader

/-! The block reader as a byte stream. A `ReadBlocks` call may fail and leave anything
in the buffer. Short reads, empty reads and failed reads can follow each other in any
order. -/
namespace ArmoredWitness.Slots
open Lib

variable {M : Machine}

/-- One `Read` of a caller: the length of its buffer and, if the `ReadBlocks` call it
makes fails, what is then in the buffer of the reader, and the error. -/
structure Call (M : Machine) where
  len : ℕ
  fault : Option (Block M × ReadError)

def Call.readBlocks (c : Call M) (d : Device M) : ReadBlocks M :=
  match c.fault with
  | none => d.readBlocks
  | some (buf,e) => fun _ _ => (buf,some e)

/-- The bytes that a list of results adds up to. -/
def bytesOf : List (Except ReadError (List UInt8)) → List UInt8
  | [] => []
  | .ok b::rs => b ++ bytesOf rs
  | .error _::rs => bytesOf rs

lemma bytesOf_append (rs rs' : List (Except ReadError (List UInt8))) :
    bytesOf (rs ++ rs') = bytesOf rs ++ bytesOf rs' := by
  induction rs with
  | nil => rfl
  | cons r rs ih =>
    cases r with
    | ok b => simp only [List.cons_append,bytesOf,ih,List.append_assoc]
    | error e => exact ih

namespace BlockReader

def readCall (A : Arith) (d : Device M) (br : BlockReader M) (c : Call M) :
    BlockReader M × Except ReadError (List UInt8) := br.read A (c.readBlocks d) c.len

/-- The calls of a caller one after another, with their results. -/
def readCalls (A : Arith) (d : Device M) (br : BlockReader M) :
    List (Call M) → BlockReader M × List (Except ReadError (List UInt8))
  | [] => (br,[])
  | c::cs =>
    let (br1,r) := br.readCall A d c
    let (br2,rs) := br1.readCalls A d cs
    (br2,r::rs)

lemma readCalls_cons (A : Arith) (d : Device M) (br : BlockReader M) (c : Call M) (cs : List (Call M)) :
    br.readCalls A d (c::cs) = (((br.readCall A d c).1.readCalls A d cs).1,
      (br.readCall A d c).2::((br.readCall A d c).1.readCalls A d cs).2) := rfl

lemma readCalls_append (A : Arith) (d : Device M) (br : BlockReader M) (cs cs' : List (Call M)) :
    br.readCalls A d (cs ++ cs') = (((br.readCalls A d cs).1.readCalls A d cs').1,
      (br.readCalls A d cs).2 ++ ((br.readCalls A d cs).1.readCalls A d cs').2) := by
  induction cs generalizing br with
  | nil => rfl
  | cons c cs ih => rw [List.cons_append,readCalls_cons,ih,readCalls_cons,List.cons_append]

end BlockReader

/-- The calls made so far have read the device from block `lba` on: the bytes handed
out are its bytes, no successful call with a non-empty buffer has come back without a
byte, the position has moved by the number of bytes, and another call that fails leaves
it where it is. A call that repeats a failed one is a call like any other. -/
structure Streams (A : Arith) (d : Device M) (lba : ℕ) (cs : List (Call M)) (br : BlockReader M)
    (rs : List (Except ReadError (List UInt8))) : Prop where
  bytes : bytesOf rs = Blocks.cells d.block (lba*M.blockSize) (bytesOf rs).length
  progress : List.Forall₂ (fun c r => ∀ b, r = .ok b → 0 < c.len → b ≠ []) cs rs
  pos : br.pos = A.uint (lba*M.blockSize+(bytesOf rs).length : ℕ)
  failed : ∀ c br' e, br.readCall A d c = (br',.error e) → br'.pos = br.pos

/-- Where a `Read` with a buffer of `n` bytes ends that begins at position `p` and does
not fail. -/
def readEnd (B p n : ℕ) : ℕ := p+min n (B-p % B)

/-- In a run without failures, from position `p` on, every `Read` with a non-empty
buffer begins at a position of `w` bits. -/
def InReach (w B : ℕ) : ℕ → List ℕ → Prop
  | _,[] => True
  | p,n::ns => (0 < n → p < 2^w) ∧ InReach w B (readEnd B p n) ns

section Reach
variable {w B p q n : ℕ} {ns : List ℕ}

/-- A `Read` ends with the buffer or with the block. -/
lemma readEnd_eq (hB : 0 < B) : readEnd B p n = min (p+n) ((p/B+1)*B) := by
  have hmod := Nat.mod_lt p hB
  have hdiv := Nat.div_add_mod' p B
  rw [readEnd,Nat.add_mul]
  omega

lemma readEnd_mono (hB : 0 < B) (h : p ≤ q) : readEnd B p n ≤ readEnd B q n := by
  have hdiv : (p/B+1)*B ≤ (q/B+1)*B := Nat.mul_le_mul_right _ (Nat.succ_le_succ (Nat.div_le_div_right h))
  rw [readEnd_eq hB,readEnd_eq hB]
  omega

/-- A caller that lags behind stays in reach. -/
lemma InReach.mono (hB : 0 < B) (h : InReach w B q ns) (hpq : p ≤ q) : InReach w B p ns := by
  induction ns generalizing p q with
  | nil => trivial
  | cons n ns ih => exact ⟨fun hn => hpq.trans_lt (h.1 hn),ih h.2 (readEnd_mono hB hpq)⟩

/-- Otherwise there is a first call that is out of reach. -/
lemma exists_out_of_reach (h : ¬ InReach w B p ns) : ∃ pre n post, ns = pre ++ n::post ∧
    InReach w B p pre ∧ 0 < n ∧ 2^w ≤ pre.foldl (readEnd B) p := by
  induction ns generalizing p with
  | nil => exact absurd trivial h
  | cons n ns ih =>
    by_cases hn : 0 < n → p < 2^w
    · obtain ⟨pre,m,post,rfl,hpre,hm,hout⟩ := ih fun hc => h ⟨hn,hc⟩
      exact ⟨n::pre,m,post,rfl,⟨hn,hpre⟩,hm,hout⟩
    · obtain ⟨hpos,hge⟩ := Classical.not_imp.mp hn
      exact ⟨[],n,ns,rfl,trivial,hpos,Nat.le_of_not_lt hge⟩

end Reach

namespace BlockReader

/-- The reader is at position `p`: it stores the word for it, and if that is `p` itself
the block around it is in the buffer. -/
structure Stands (w : ℕ) (d : Device M) (p : ℕ) (br : BlockReader M) : Prop where
  pos : br.pos = (Arith.word w).uint p
  synced : p < 2^w → br.Synced d

lemma stands_new (w : ℕ) (d : Device M) (lba : ℕ) :
    (newBlockReader (.word w) M lba).Stands w d (lba*M.blockSize) := by
  refine ⟨rfl,fun hlt => .inl ?_⟩
  dsimp only [newBlockReader]
  rw [(Arith.word_upTo w).uint hlt,Nat.mul_mod_left]

section Step
variable {w p : ℕ} {d : Device M} {br : BlockReader M}

/-- What one call does: it hands out the bytes that are due, as far as the block goes,
or fails and leaves the position alone. -/
inductive Served (w : ℕ) (d : Device M) (p n : ℕ) : BlockReader M × Except ReadError (List UInt8) → Prop
  | ok (br' : BlockReader M) (k : ℕ) (hk : p+k = readEnd M.blockSize p n) (h : br'.Stands w d (p+k)) :
      Served w d p n (br',.ok (Blocks.cells d.block p k))
  | error (br' : BlockReader M) (e : ReadError) (h : br'.Stands w d p) : Served w d p n (br',.error e)

/-- Below the end of the positions. -/
lemma read_served (h : br.Stands w d p) (hp : p < 2^w) (n : ℕ) :
    Served w d p n (br.read (.word w) d.readBlocks n) := by
  have hpos : br.pos = p := by rw [h.pos,(Arith.word_upTo w).uint hp]
  have hs := h.synced hp
  by_cases hlt : br.pos/M.blockSize < d.size
  · obtain ⟨k,br',hk,hp',hs',hr⟩ := read_ok hs (.word w) n hlt
    rw [hr]
    rw [hpos] at hk hp' ⊢
    refine .ok _ k (by rw [readEnd,hk]) ⟨by rw [hp'],fun hend => ?_⟩
    have hsame : ({br' with pos := (Arith.word w).uint br'.pos} : BlockReader M) = br' := by
      rw [(Arith.word_upTo w).uint (by omega)]
    rwa [hsame]
  · rw [read_error hs (.word w) n (Nat.le_of_not_lt hlt)]
    exact .error br _ h

/-- An empty buffer. -/
lemma copyOut_zero_served (h : br.Stands w d p) (hp : ¬ p < 2^w) :
    Served w d p 0 (br.copyOut (.word w) 0) := by
  have hcopy : br.copyOut (.word w) 0 =
      ({br with pos := (Arith.word w).uint br.pos},.ok (Blocks.cells d.block p 0)) := by
    simp only [copyOut,List.take_zero,List.length_nil,Nat.add_zero,Blocks.cells,List.range_zero,List.map_nil]
  rw [hcopy]
  refine .ok _ 0 (by simp [readEnd]) ⟨?_,fun hlt => absurd hlt hp⟩
  have hadd := (Arith.word w).add p 0
  rw [Nat.add_zero,Nat.add_zero] at hadd
  rw [h.pos,hadd,Nat.add_zero]

lemma readCall_served (h : br.Stands w d p) (c : Call M) (hc : 0 < c.len → p < 2^w) :
    Served w d p c.len (br.readCall (.word w) d c) := by
  have hfailed : ∀ (buf : Block M) e, br.pos % M.blockSize = 0 →
      Served w d p c.len (({br with buf := buf} : BlockReader M),.error e) :=
    fun buf e h0 => .error _ e ⟨h.pos,fun _ => .inl h0⟩
  by_cases hp : p < 2^w
  · cases hf : c.fault with
    | none =>
      have hread : br.readCall (.word w) d c = br.read (.word w) d.readBlocks c.len := by
        simp only [readCall,Call.readBlocks,hf]
      rw [hread]
      exact read_served h hp c.len
    | some x =>
      by_cases h0 : br.pos % M.blockSize = 0
      · have hread : br.readCall (.word w) d c = ({br with buf := x.1},.error x.2) := by
          simp only [readCall,read,Call.readBlocks,hf,if_pos h0]
        rw [hread]
        exact hfailed _ _ h0
      · have hread : br.readCall (.word w) d c = br.read (.word w) d.readBlocks c.len := by
          simp only [readCall,read,if_neg h0]
        rw [hread]
        exact read_served h hp c.len
  · have hlen : c.len = 0 := Nat.eq_zero_of_not_pos fun hn => hp (hc hn)
    unfold readCall read
    split_ifs with h0
    · split
      · exact hfailed _ _ h0
      · rw [hlen]
        exact copyOut_zero_served ⟨h.pos,fun hlt => absurd hlt hp⟩ hp
    · rw [hlen]
      exact copyOut_zero_served h hp

end Step

/-- A run of calls that are in reach hands out the bytes of the device, whatever fails. -/
theorem readCalls_served {w : ℕ} {d : Device M} (cs : List (Call M)) {br : BlockReader M} {p : ℕ}
    (h : br.Stands w d p) (hreach : InReach w M.blockSize p (cs.map Call.len)) :
    bytesOf (br.readCalls (.word w) d cs).2 =
      Blocks.cells d.block p (bytesOf (br.readCalls (.word w) d cs).2).length ∧
    (br.readCalls (.word w) d cs).1.Stands w d (p+(bytesOf (br.readCalls (.word w) d cs).2).length) := by
  induction cs generalizing br p with
  | nil => exact ⟨rfl,h⟩
  | cons c cs ih =>
    rw [readCalls_cons]
    have hserved := readCall_served h c hreach.1
    have hle : p ≤ readEnd M.blockSize p c.len := Nat.le_add_right _ _
    generalize br.readCall (.word w) d c = x at hserved ⊢
    cases hserved with
    | error br' e h' => exact ih h' (hreach.2.mono M.blockSize_pos hle)
    | ok br' k hk h' =>
      have hih := ih h' (hk ▸ hreach.2)
      simp only [bytesOf,List.length_append,Blocks.cells_length]
      refine ⟨?_,by rw [← Nat.add_assoc]; exact hih.2⟩
      rw [← Blocks.cells_append,← hih.1]

lemma readCall_progress (A : Arith) {d : Device M} {br br' : BlockReader M} {c : Call M} {b : List UInt8}
    (h : br.readCall A d c = (br',.ok b)) (hn : 0 < c.len) : b ≠ [] := read_progress h hn

lemma readCalls_progress (A : Arith) (d : Device M) (cs : List (Call M)) (br : BlockReader M) :
    List.Forall₂ (fun c r => ∀ b, r = .ok b → 0 < c.len → b ≠ []) cs (br.readCalls A d cs).2 := by
  induction cs generalizing br with
  | nil => exact .nil
  | cons c cs ih =>
    refine .cons ?_ (ih _)
    intro b hb hn
    exact readCall_progress A (Prod.ext rfl hb) hn

lemma readCall_failed (A : Arith) {d : Device M} {br br' : BlockReader M} {c : Call M} {e : ReadError}
    (h : br.readCall A d c = (br',.error e)) : br'.pos = br.pos := by
  unfold readCall read at h
  split at h
  · split at h
    · cases h
      rfl
    · cases h
  · cases h

end BlockReader

/-- A device with a single byte that is not zero, in its last block. -/
def Device.marked (M : Machine) (p : ℕ) : Device M :=
  ⟨p/M.blockSize+1,fun q => ⟨(List.range M.blockSize).map fun i => if q*M.blockSize+i = p then 1 else 0,by simp⟩⟩

lemma Device.marked_getD {p q i : ℕ} (hi : i < M.blockSize) :
    ((Device.marked M p).block q).toList.getD i 0 = if q*M.blockSize+i = p then 1 else 0 := by
  simp [Device.marked,List.Vector.toList,List.getD,hi]

lemma Device.marked_cell (p : ℕ) : Blocks.cell (Device.marked M p).block p = 1 := by
  rw [Blocks.cell,Device.marked_getD (Nat.mod_lt _ M.blockSize_pos),if_pos (Nat.div_add_mod' p M.blockSize)]

namespace BlockReader

/-- The buffer is new, or was filled from a block that begins below the end of the
positions. -/
def Fetched (w : ℕ) (d : Device M) (br : BlockReader M) : Prop :=
  br.buf = zeroBlock M ∨ ∃ k, k*M.blockSize < 2^w ∧ br.buf = d.block k

section Unfailing
variable {w p : ℕ} {d : Device M} {br : BlockReader M}

lemma Stands.pos_lt (h : br.Stands w d p) : br.pos < 2^w := by
  rw [h.pos]
  exact Arith.modulo_uint_lt _ _

/-- A `Read` that finds its block hands out bytes of the buffer. -/
lemma read_fetched (hf : br.Fetched w d) (hpos : br.pos < 2^w) (hlt : br.pos/M.blockSize < d.size) (A : Arith)
    (n : ℕ) : ∃ buf : Block M, (⟨buf,br.pos⟩ : BlockReader M).Fetched w d ∧
      br.read A d.readBlocks n = copyOut A ⟨buf,br.pos⟩ n := by
  by_cases h0 : br.pos % M.blockSize = 0
  · refine ⟨d.block (br.pos/M.blockSize),.inr ⟨_,(Nat.div_mul_le_self _ _).trans_lt hpos,rfl⟩,?_⟩
    simp only [read,if_pos h0,Device.readBlocks,if_pos hlt]
  · exact ⟨br.buf,hf,by rw [read,if_neg h0]⟩

/-- Without failures a run of calls in reach comes to where its last call ends. -/
lemma readCalls_unfailing (hsize : ∀ p < 2^w, p/M.blockSize < d.size) (ns : List ℕ) {br : BlockReader M} {p : ℕ}
    (h : br.Stands w d p) (hf : br.Fetched w d) (hreach : InReach w M.blockSize p ns) :
    p+(bytesOf (br.readCalls (.word w) d (ns.map fun n => ⟨n,none⟩)).2).length =
      ns.foldl (readEnd M.blockSize) p ∧
    (br.readCalls (.word w) d (ns.map fun n => ⟨n,none⟩)).1.Stands w d (ns.foldl (readEnd M.blockSize) p) ∧
    (br.readCalls (.word w) d (ns.map fun n => ⟨n,none⟩)).1.Fetched w d := by
  induction ns generalizing br p with
  | nil => exact ⟨rfl,h,hf⟩
  | cons n ns ih =>
    rw [List.map_cons,readCalls_cons,List.foldl_cons]
    have hserved := readCall_served h ⟨n,none⟩ hreach.1
    obtain ⟨buf,hbuf,hread⟩ := read_fetched hf h.pos_lt (hsize _ h.pos_lt) (.word w) n
    have hcall : br.readCall (.word w) d ⟨n,none⟩ = copyOut (.word w) ⟨buf,br.pos⟩ n := hread
    rw [hcall] at hserved ⊢
    generalize hx : copyOut (.word w) (⟨buf,br.pos⟩ : BlockReader M) n = x at hserved ⊢
    cases hserved with
    | error br' e h' => cases hx
    | ok br' k hk h' =>
      have hf' : br'.Fetched w d := by
        rw [← (Prod.mk.inj hx).1]
        exact hbuf
      dsimp only at hk
      obtain ⟨hlen,hs,hfetched⟩ := ih h' hf' (hk ▸ hreach.2)
      rw [hk] at hlen hs
      refine ⟨?_,hs,hfetched⟩
      simp only [bytesOf,List.length_append,Blocks.cells_length]
      omega

/-- From a position that is no word, the byte that is due is not handed out. -/
lemma readCall_misses (h : br.Stands w (.marked M p) p) (hf : br.Fetched w (.marked M p)) (hp : 2^w ≤ p) {n : ℕ}
    (hn : 0 < n) : ∃ br' b, br.readCall (.word w) (.marked M p) ⟨n,none⟩ = (br',.ok b) ∧ b ≠ [] ∧
      b.getD 0 0 = 0 := by
  have hpos := h.pos_lt
  have hmod := Nat.mod_lt br.pos M.blockSize_pos
  have hlt : br.pos/M.blockSize < (Device.marked M p).size :=
    Nat.lt_succ_of_le (Nat.div_le_div_right (hpos.le.trans hp))
  obtain ⟨buf,hbuf,hread⟩ := read_fetched hf hpos hlt (.word w) n
  have hcall : br.readCall (.word w) (.marked M p) ⟨n,none⟩ = copyOut (.word w) ⟨buf,br.pos⟩ n := hread
  refine ⟨_,_,hcall,?_,?_⟩
  · apply List.ne_nil_of_length_pos
    simp only [List.length_take,List.length_drop,List.Vector.toList_length]
    omega
  · have hfirst : ((buf.toList.drop (br.pos % M.blockSize)).take n).getD 0 0 =
        buf.toList.getD (br.pos % M.blockSize) 0 := by
      simp [List.getD,hn]
    rw [hfirst]
    rcases hbuf with hz | ⟨k,hk,hb⟩
    · dsimp only at hz
      rw [hz,zeroBlock,Blocks.cut_getD _ _ _ hmod]
      rfl
    · dsimp only at hb
      rw [hb,Device.marked_getD hmod,if_neg fun heq => ?_]
      have hword : br.pos = p % 2^w := h.pos.trans (Arith.modulo_uint _ p)
      have hsplit := Nat.div_add_mod' p (2^w)
      have hdiv : 2^w ≤ p/2^w*2^w :=
        Nat.le_mul_of_pos_left _ (Nat.div_pos hp (Nat.two_pow_pos w))
      have hblock := Nat.div_add_mod' br.pos M.blockSize
      omega

end Unfailing
end BlockReader

/-- The block reader is a faithful stream of the bytes of every device, whatever calls
fail, exactly if every `Read` with a non-empty buffer begins, where none fails, at a
position that is a word. -/
theorem blockReader_streams_iff (w lba : ℕ) (ns : List ℕ) :
    (∀ (d : Device M) (cs : List (Call M)), cs.map Call.len = ns →
      Streams (.word w) d lba cs ((newBlockReader (.word w) M lba).readCalls (.word w) d cs).1
        ((newBlockReader (.word w) M lba).readCalls (.word w) d cs).2) ↔
    InReach w M.blockSize (lba*M.blockSize) ns := by
  constructor
  · intro hall
    by_contra hreach
    obtain ⟨pre,n,post,rfl,hpre,hn,hout⟩ := exists_out_of_reach hreach
    generalize hp : pre.foldl (readEnd M.blockSize) (lba*M.blockSize) = p at hout
    have hsize : ∀ q < 2^w, q/M.blockSize < (Device.marked M p).size := fun q hq =>
      Nat.lt_succ_of_le (Nat.div_le_div_right (hq.le.trans hout))
    obtain ⟨hlen,hstands,hfetched⟩ := BlockReader.readCalls_unfailing hsize pre
      (BlockReader.stands_new w (.marked M p) lba) (.inl rfl) hpre
    rw [hp] at hlen hstands
    obtain ⟨br',b,hcall,hne,hzero⟩ := BlockReader.readCall_misses hstands hfetched hout hn
    have hstream := (hall (.marked M p) ((pre ++ n::post).map fun n => ⟨n,none⟩)
      (by simp [Function.comp_def])).bytes
    rw [List.map_append,List.map_cons,BlockReader.readCalls_append,BlockReader.readCalls_cons,hcall,
      bytesOf_append] at hstream
    have hbyte := congrArg (fun l => l.getD (bytesOf ((newBlockReader (.word w) M lba).readCalls (.word w)
      (.marked M p) (pre.map fun n => ⟨n,none⟩)).2).length 0) hstream
    have hpos := List.length_pos_of_ne_nil hne
    dsimp only at hbyte
    rw [List.getD_append_right _ _ _ _ le_rfl,Nat.sub_self,Blocks.cells_getD _ _ _ _ (by
      simp only [bytesOf,List.length_append]
      omega),hlen,Device.marked_cell] at hbyte
    simp only [bytesOf] at hbyte
    rw [List.getD_append _ _ _ _ hpos,hzero] at hbyte
    exact absurd hbyte (by decide)
  · rintro hreach d cs rfl
    obtain ⟨hbytes,hstands⟩ := BlockReader.readCalls_served cs (BlockReader.stands_new w d lba) hreach
    exact ⟨hbytes,BlockReader.readCalls_progress _ d cs _,hstands.pos,
      fun c br' e hc => BlockReader.readCall_failed _ hc⟩

/-- A device on which block `2^28`, far beyond what 32-bit byte positions reach, is
the only one that is not zero. -/
def farDevice : Device smallMachine :=
  ⟨2^28+1,fun q => if q = 2^28 then Blocks.cut 48 [0x41] 0 else zeroBlock smallMachine⟩

/-- A reader that is to begin at block `2^28` begins at block 0. -/
theorem stream_begins_at_block_zero :
    ((newBlockReader (.word 32) smallMachine (2^28)).readCalls (.word 32) farDevice [⟨1,none⟩]).2 =
      [.ok [0]] ∧
    Blocks.cells farDevice.block (2^28*smallMachine.blockSize) 1 = [0x41] ∧
    ¬ Streams (.word 32) farDevice (2^28) [⟨1,none⟩]
      ((newBlockReader (.word 32) smallMachine (2^28)).readCalls (.word 32) farDevice [⟨1,none⟩]).1
      ((newBlockReader (.word 32) smallMachine (2^28)).readCalls (.word 32) farDevice [⟨1,none⟩]).2 := by
  have hread : ((newBlockReader (.word 32) smallMachine (2^28)).readCalls (.word 32) farDevice
      [⟨1,none⟩]).2 = [.ok [0]] := by decide +kernel
  have hdue : Blocks.cells farDevice.block (2^28*smallMachine.blockSize) 1 = [0x41] := by decide +kernel
  refine ⟨hread,hdue,fun h => ?_⟩
  have hbytes := h.bytes
  rw [hread] at hbytes
  change [0] = Blocks.cells farDevice.block (2^28*smallMachine.blockSize) 1 at hbytes
  rw [hdue] at hbytes
  exact absurd hbytes (by decide)

end ArmoredWitness.Slots
