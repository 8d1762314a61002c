import ArmoredWitness.Mmc.Device

/-! Chunked transfers come to the same as single ones: what the loops of `WriteBlocks`
and `ReadBlocks` have done after `i` rounds is to transfer the first `i` chunks. -/
namespace ArmoredWitness.Mmc
open Lib Slots

variable {M : Machine}

/-- The blocks of a full transfer. -/
def rpcBlocks (M : Machine) : ℕ := maxTransferBytes/M.blockSize

section Sizes
variable (hbs : M.blockSize ∣ maxTransferBytes)
include hbs

lemma rpcBlocks_mul : rpcBlocks M*M.blockSize = maxTransferBytes := Nat.div_mul_cancel hbs

lemma rpcBlocks_pos : 0 < rpcBlocks M := by
  apply Nat.pos_of_ne_zero
  intro h0
  have hmul := rpcBlocks_mul hbs
  rw [h0,Nat.zero_mul] at hmul
  exact absurd hmul (by decide)

/-- The next transfer, in blocks: a full one, or what is left. -/
lemma transferSize_eq {b : List UInt8} {n : ℕ} (h : b.length = n*M.blockSize) :
    transferSize b = min (rpcBlocks M) n*M.blockSize := by
  have hmul := rpcBlocks_mul hbs
  unfold transferSize
  rw [h,← hmul]
  rcases Nat.lt_or_ge (rpcBlocks M) n with hlt | hge
  · rw [if_pos (Nat.mul_lt_mul_of_pos_right hlt M.blockSize_pos),Nat.min_eq_left hlt.le]
  · rw [if_neg (Nat.not_lt.mpr (Nat.mul_le_mul_right _ hge)),Nat.min_eq_right hge]

end Sizes

section Padding
variable (b : List UInt8)

lemma padded_eq : padded M b = b ++ List.replicate (numBlocks M b.length*M.blockSize-b.length) 0 := by
  have hB := M.blockSize_pos
  have hdiv := Nat.div_add_mod' b.length M.blockSize
  have hlt := Nat.mod_lt b.length hB
  unfold padded
  split_ifs with h
  · have hc : numBlocks M b.length = b.length/M.blockSize+1 := by
      apply le_antisymm
      · apply (Blocks.count_le_iff hB _ _).mpr
        rw [Nat.add_mul]
        omega
      · apply (Blocks.lt_count_iff hB _ _).mpr
        omega
    rw [hc,Nat.add_mul]
    congr 2
    omega
  · have hc : numBlocks M b.length = b.length/M.blockSize := by
      have hlen : b.length/M.blockSize*M.blockSize = b.length := by omega
      conv_lhs => rw [← hlen]
      exact Blocks.count_mul hB _
    have hz : numBlocks M b.length*M.blockSize-b.length = 0 := by
      rw [hc]
      omega
    rw [hz,List.replicate_zero,List.append_nil]

lemma padded_length : (padded M b).length = numBlocks M b.length*M.blockSize := by
  have hle : b.length ≤ numBlocks M b.length*M.blockSize := Blocks.le_count_mul M.blockSize_pos _
  rw [padded_eq,List.length_append,List.length_replicate]
  omega

lemma numBlocks_nil : numBlocks M ([] : List UInt8).length = 0 := by
  have hc := Blocks.count_mul M.blockSize_pos 0
  rwa [Nat.zero_mul] at hc

lemma cut_padded (i : ℕ) : Blocks.cut M.blockSize (padded M b) i = Blocks.cut M.blockSize b i := by
  rw [padded_eq,Blocks.cut_padded]

end Padding

/-- Dropping a transfer, full or not, from what is left. -/
lemma drop_transfer {p : List UInt8} {n : ℕ} (hp : p.length = n*M.blockSize) (k q : ℕ) :
    (p.drop (k*M.blockSize)).drop (min q (n-k)*M.blockSize) = p.drop ((k+q)*M.blockSize) := by
  rw [List.drop_drop,← Nat.add_mul]
  rcases Nat.le_total q (n-k) with hle | hle
  · rw [Nat.min_eq_left hle]
  · have hnil : ∀ m, n ≤ m → p.drop (m*M.blockSize) = [] := by
      intro m hm
      apply List.drop_eq_nil_of_le
      rw [hp]
      exact Nat.mul_le_mul_right _ hm
    rw [Nat.min_eq_right hle,hnil _ (by omega),hnil _ (by omega)]

section Store
variable (d : Slots.Device M) (lba : ℕ) (b : List UInt8)

lemma store_padded (k : ℕ) : d.store lba k (padded M b) = d.store lba k b := by
  simp only [Slots.Device.store]
  rw [Blocks.store_congr d.block fun i _ => cut_padded b i]

/-- The next chunk, written behind the ones before it. -/
lemma store_chunk (k m : ℕ) (hm : (k+m)*M.blockSize ≤ (padded M b).length) :
    (d.store lba k b).store (lba+k) m (((padded M b).drop (k*M.blockSize)).take (m*M.blockSize)) =
      d.store lba (k+m) b := by
  rw [← store_padded d lba b k,← store_padded d lba b (k+m)]
  simp only [Slots.Device.store]
  rw [← Blocks.store_append d.block lba k m (padded M b)]
  congr 1
  apply Blocks.store_congr
  intro i hi
  have hlen : (i+1)*M.blockSize ≤ (((padded M b).drop (k*M.blockSize)).take (m*M.blockSize)).length := by
    have hle : (i+1)*M.blockSize ≤ m*M.blockSize := Nat.mul_le_mul_right _ hi
    rw [Nat.add_mul] at hm
    rw [List.length_take,List.length_drop]
    omega
  conv_rhs => rw [← List.take_append_drop (m*M.blockSize) ((padded M b).drop (k*M.blockSize))]
  exact (Blocks.cut_append _ _ _ hlen).symm

end Store

/-- A negative block address is not on the card, so the conversion to `int` does no harm. -/
lemma Rpc.Exact.writeBlocks_eq {rpc : Rpc M} (hrpc : rpc.Exact) {d : Slots.Device M} (hsize : d.size ≤ M.maxInt)
    {lba : ℕ} (hlba : lba ≤ M.maxUint) (data : List UInt8) : rpc.writeBlocks d ⟨toInt M lba,data⟩ =
      if lba+numBlocks M data.length ≤ d.size then some (d.store lba (numBlocks M data.length) data)
      else none := by
  have hmax : M.maxUint = 2*M.maxInt+1 := rfl
  rw [hrpc.writeBlocks]
  unfold toInt
  by_cases h : lba ≤ M.maxInt
  · simp [h]
  · have hneg : ¬ (0 : ℤ) ≤ (lba : ℤ)-(M.maxUint+1) := by omega
    have hout : ¬ lba+numBlocks M data.length ≤ d.size := by omega
    rw [if_neg h,if_neg fun hc => hneg hc.1,if_neg hout]

/-- The RPC for chunk `i` fails: it does so by itself, or its blocks are not on the card. -/
def Card.FailsAt (card : Card M) (fails : ℕ → Bool) (lba n i : ℕ) : Prop :=
  fails i = true ∨ card.size < lba+min ((i+1)*rpcBlocks M) n

section Write
variable (card : Card M) (fails : ℕ → Bool) (lba : ℕ) (b : List UInt8)

/-- The first `i` chunks are on the card. -/
structure Stored (i : ℕ) (s : Writing M) : Prop where
  rest : s.b = (padded M b).drop (i*rpcBlocks M*M.blockSize)
  addr : i*rpcBlocks M < numBlocks M b.length → s.lba = lba+i*rpcBlocks M ∧ s.lba ≤ M.maxUint
  dev : s.dev = card.toDevice.store lba (min (i*rpcBlocks M) (numBlocks M b.length)) b
  count : s.sent.length = i
  bounded : ∀ x ∈ s.sent, x.data.length ≤ maxTransferBytes
  passed : ∀ j < i, ¬ card.FailsAt fails lba (numBlocks M b.length) j

variable {card fails lba b}

lemma Stored.rest_length {i : ℕ} {s : Writing M} (h : Stored card fails lba b i s) :
    s.b.length = (numBlocks M b.length-i*rpcBlocks M)*M.blockSize := by
  rw [h.rest,List.length_drop,padded_length,Nat.sub_mul]

lemma Stored.more_iff {i : ℕ} {s : Writing M} (h : Stored card fails lba b i s) :
    s.b ≠ [] ↔ i*rpcBlocks M < numBlocks M b.length := by
  rw [← List.length_pos_iff,h.rest_length]
  have hB := M.blockSize_pos
  constructor
  · intro hpos
    by_contra hge
    rw [Nat.sub_eq_zero_of_le (Nat.le_of_not_lt hge),Nat.zero_mul] at hpos
    exact absurd hpos (lt_irrefl _)
  · intro hlt
    exact Nat.mul_pos (by omega) hB

lemma Stored.bounded_append {i : ℕ} {s : Writing M} (h : Stored card fails lba b i s) :
    ∀ x ∈ s.sent ++ [⟨toInt M s.lba,s.b.take (transferSize s.b)⟩], x.data.length ≤ maxTransferBytes := by
  intro x hx
  rcases List.mem_append.mp hx with hx | hx
  · exact h.bounded x hx
  · rw [List.mem_singleton.mp hx]
    have hle := transferSize_le s.b
    simp only [List.length_take]
    omega

variable {rpc : Rpc M} (hrpc : rpc.Exact) (hbs : M.blockSize ∣ maxTransferBytes)
include hrpc hbs

/-- The request of round `i` in blocks. -/
lemma Stored.request {i : ℕ} {s : Writing M} (h : Stored card fails lba b i s)
    (hi : i*rpcBlocks M < numBlocks M b.length) :
    transferSize s.b = min (rpcBlocks M) (numBlocks M b.length-i*rpcBlocks M)*M.blockSize ∧
    rpc.writeBlocks s.dev ⟨toInt M s.lba,s.b.take (transferSize s.b)⟩ =
      if lba+min ((i+1)*rpcBlocks M) (numBlocks M b.length) ≤ card.size then
        some (card.toDevice.store lba (min ((i+1)*rpcBlocks M) (numBlocks M b.length)) b)
      else none := by
  have hsize := transferSize_eq hbs h.rest_length
  obtain ⟨hlba,hmax⟩ := h.addr hi
  have hcard : s.dev.size ≤ M.maxInt := by
    rw [h.dev]
    exact card.size_le
  have hlen : (s.b.take (transferSize s.b)).length =
      min (rpcBlocks M) (numBlocks M b.length-i*rpcBlocks M)*M.blockSize := by
    rw [List.length_take,Nat.min_eq_left (transferSize_le s.b).2,hsize]
  have hcount : numBlocks M (s.b.take (transferSize s.b)).length =
      min (rpcBlocks M) (numBlocks M b.length-i*rpcBlocks M) := by
    rw [hlen]
    exact Blocks.count_mul M.blockSize_pos _
  have hnext : i*rpcBlocks M+min (rpcBlocks M) (numBlocks M b.length-i*rpcBlocks M) =
      min ((i+1)*rpcBlocks M) (numBlocks M b.length) := by
    rw [Nat.add_mul,Nat.one_mul]
    omega
  have hfit : (i*rpcBlocks M+min (rpcBlocks M) (numBlocks M b.length-i*rpcBlocks M))*M.blockSize ≤
      (padded M b).length := by
    rw [padded_length,hnext]
    exact Nat.mul_le_mul_right _ (Nat.min_le_right _ _)
  have hstore := store_chunk card.toDevice lba b (i*rpcBlocks M) _ hfit
  refine ⟨hsize,?_⟩
  rw [hrpc.writeBlocks_eq hcard hmax,hcount,hlba,Nat.add_assoc,hnext,h.dev,h.rest,← h.rest,hsize,h.rest,
    Nat.min_eq_left hi.le,hstore,hnext]
  rfl

lemma Stored.again {i n : ℕ} {s t : Writing M} (h : Stored card fails lba b i s)
    (hb : writeBody rpc fails n s = .again t) : Stored card fails lba b (i+1) t := by
  obtain ⟨hne,hf,d,hd,rfl⟩ := writeBody_eq_again hb
  have hi := h.more_iff.mp hne
  obtain ⟨hsize,hreq⟩ := h.request hrpc hbs hi
  have hmul : (i+1)*rpcBlocks M = i*rpcBlocks M+rpcBlocks M := Nat.succ_mul _ _
  rw [hreq] at hd
  split at hd
  · rename_i hcard
    cases hd
    refine ⟨?_,?_,rfl,by simp [h.count],h.bounded_append,?_⟩
    · dsimp only
      rw [hsize,h.rest,hmul]
      exact drop_transfer (padded_length b) _ _
    · intro hlt
      have hfull : min (rpcBlocks M) (numBlocks M b.length-i*rpcBlocks M) = rpcBlocks M := by omega
      have hlba := (h.addr hi).1
      have hcs := card.size_le
      have hmax : M.maxUint = 2*M.maxInt+1 := rfl
      have hw : M.wrap (s.lba+transferSize s.b/M.blockSize) = lba+(i+1)*rpcBlocks M := by
        rw [hsize,hfull,Nat.mul_div_cancel _ M.blockSize_pos,hlba,Nat.add_assoc,← hmul]
        exact Machine.wrap_eq (by omega)
      exact ⟨hw,by dsimp only; omega⟩
    · intro j hj
      rcases Nat.lt_succ_iff_lt_or_eq.mp hj with hj | rfl
      · exact h.passed j hj
      · rintro (hfail | hout)
        · rw [← h.count,hf] at hfail
          cases hfail
        · omega
  · cases hd

omit hrpc hbs in
/-- What `WriteBlocks` comes to: no RPC fails, and everything is stored; or the first
RPC to fail decides, and the chunks before it are stored. -/
def Card.Wrote (card : Card M) (fails : ℕ → Bool) (lba : ℕ) (b : List UInt8) (x : Written M) : Prop :=
  (∀ i, i*rpcBlocks M < numBlocks M b.length → ¬ card.FailsAt fails lba (numBlocks M b.length) i) ∧
    x.dev = card.toDevice.store lba (numBlocks M b.length) b ∧ x.result = .ok (numBlocks M b.length) ∨
  ∃ i, i*rpcBlocks M < numBlocks M b.length ∧ card.FailsAt fails lba (numBlocks M b.length) i ∧
    (∀ j < i, ¬ card.FailsAt fails lba (numBlocks M b.length) j) ∧
    x.dev = card.toDevice.store lba (i*rpcBlocks M) b ∧
    x.result = .error (.device (lba+i*rpcBlocks M))

theorem writeBlocks_spec (card : Card M) (fails : ℕ → Bool) {lba : ℕ} (hlba : lba ≤ M.maxUint)
    (b : List UInt8) : card.Wrote fails lba b (writeBlocks rpc fails card.toDevice lba b) ∧
      ∀ x ∈ (writeBlocks rpc fails card.toDevice lba b).sent, x.data.length ≤ maxTransferBytes := by
  have hpos := rpcBlocks_pos hbs
  unfold writeBlocks
  split_ifs with hnil
  · subst hnil
    have hzero := numBlocks_nil (M := M)
    refine ⟨.inl ⟨?_,?_,?_⟩,fun x hx => absurd hx List.not_mem_nil⟩
    · intro i hi
      rw [hzero] at hi
      exact absurd hi (Nat.not_lt_zero _)
    · rw [hzero,Slots.Device.store_zero]
    · rw [hzero]
  · refine (writeLoop rpc fails ((padded M b).length/M.blockSize)).exec_rule
      (P := fun s => ∃ i, Stored card fails lba b i s)
      (Q := fun x => card.Wrote fails lba b x ∧ ∀ y ∈ x.sent, y.data.length ≤ maxTransferBytes) ?_ ?_ ⟨0,?_⟩
    · rintro s t ⟨i,h⟩ hb
      exact ⟨i+1,h.again hrpc hbs hb⟩
    · rintro s x ⟨i,h⟩ hb
      rcases writeBody_eq_leave hb with ⟨hend,rfl⟩ | ⟨hne,hwhy,rfl⟩
      · have hn : numBlocks M b.length ≤ i*rpcBlocks M := by
          by_contra hlt
          exact h.more_iff.mpr (Nat.lt_of_not_le hlt) hend
        refine ⟨.inl ⟨?_,?_,?_⟩,h.bounded⟩
        · intro j hj
          exact h.passed j (Nat.lt_of_mul_lt_mul_right (hj.trans_le hn))
        · rw [h.dev,Nat.min_eq_right hn]
        · rw [padded_length,Nat.mul_div_cancel _ M.blockSize_pos]
      · have hi := h.more_iff.mp hne
        obtain ⟨-,hreq⟩ := h.request hrpc hbs hi
        have hlba := (h.addr hi).1
        refine ⟨.inr ⟨i,hi,?_,h.passed,?_,?_⟩,h.bounded_append⟩
        · rcases hwhy with hf | hnone
          · rw [h.count] at hf
            exact .inl hf
          · rw [hreq] at hnone
            split at hnone
            · cases hnone
            · rename_i hout
              exact .inr (Nat.lt_of_not_le hout)
        · rw [h.dev,Nat.min_eq_left hi.le]
        · rw [hlba]
    · refine ⟨by simp,fun _ => ⟨by simp,hlba⟩,by simp,rfl,fun x hx => absurd hx List.not_mem_nil,?_⟩
      intro j hj
      exact absurd hj (Nat.not_lt_zero _)

end Write

section Read
variable {card : Card M} {lba n : ℕ}

lemma int64_eq {x : ℕ} (h : x < 2^63) : int64 x = x := by
  unfold int64
  apply Int.bmod_eq_of_le <;> omega

/-- The first `i` chunks have been read into the buffer. -/
structure Filled (card : Card M) (lba n i : ℕ) (s : Reading) : Prop where
  filled : s.filled = Blocks.cells card.block (lba*M.blockSize) (min (i*rpcBlocks M) n*M.blockSize)
  rest : s.b.length = (n-i*rpcBlocks M)*M.blockSize
  addr : i*rpcBlocks M < n → s.lba = lba+i*rpcBlocks M
  bounded : ∀ x ∈ s.sent, x.size ≤ maxTransferBytes

lemma copied_take {dst src : List UInt8} (h : src.length ≤ dst.length) :
    (copied dst src).take src.length = src ∧ (copied dst src).drop src.length = dst.drop src.length := by
  unfold copied
  rw [List.take_of_length_le h]
  exact ⟨List.take_left,List.drop_left⟩

variable (hbs : M.blockSize ∣ maxTransferBytes)
include hbs

/-- The byte offset of a block on the card is exact. -/
lemma offset_eq (card : Card M) {q : ℕ} (hq : q ≤ card.size) :
    int64 (int64 q*int64 M.blockSize) = (q*M.blockSize : ℕ) := by
  have hB : M.blockSize ≤ maxTransferBytes := Nat.le_of_dvd (by decide) hbs
  have hc : maxTransferBytes = 32768 := rfl
  have hM := M.maxInt_lt
  have hcs := card.size_le
  have hcb := card.bytes_lt
  have hle : q*M.blockSize ≤ card.size*M.blockSize := Nat.mul_le_mul_right _ hq
  have hmul : int64 q*int64 M.blockSize = (q*M.blockSize : ℕ) := by
    rw [int64_eq (by omega),int64_eq (by omega)]
    push_cast
    rfl
  rw [hmul,int64_eq (by omega)]

variable {rpc : Rpc M} (hrpc : rpc.Exact)
include hrpc

/-- A round while there is something left. -/
lemma Filled.again {fails : ℕ → Bool} (hf : ∀ i, fails i = false) (hon : lba+n ≤ card.size) {i : ℕ}
    {s : Reading} (h : Filled card lba n i s) (hi : i*rpcBlocks M < n) :
    ∃ t, readBody rpc fails card.toDevice s = .again t ∧ Filled card lba n (i+1) t := by
  have hB := M.blockSize_pos
  have hsize := transferSize_eq hbs h.rest
  have hmul : (i+1)*rpcBlocks M = i*rpcBlocks M+rpcBlocks M := Nat.succ_mul _ _
  have hne : s.b ≠ [] := by
    apply List.ne_nil_of_length_pos
    rw [h.rest]
    exact Nat.mul_pos (by omega) hB
  have hnext : min (i*rpcBlocks M) n+min (rpcBlocks M) (n-i*rpcBlocks M) = min ((i+1)*rpcBlocks M) n := by omega
  have hoff : int64 (int64 s.lba*int64 M.blockSize) = ((lba+i*rpcBlocks M)*M.blockSize : ℕ) := by
    rw [h.addr hi]
    exact offset_eq hbs card (by omega)
  have hend : (lba+i*rpcBlocks M)*M.blockSize+transferSize s.b ≤ card.size*M.blockSize := by
    rw [hsize,← Nat.add_mul]
    exact Nat.mul_le_mul_right _ (by omega)
  have hreq : rpc.read card.toDevice ⟨int64 (int64 s.lba*int64 M.blockSize),transferSize s.b⟩ =
      some (Blocks.cells card.block ((lba+i*rpcBlocks M)*M.blockSize) (transferSize s.b)) := by
    rw [hrpc.read,hoff]
    dsimp only
    rw [Int.toNat_natCast,if_pos ⟨Int.natCast_nonneg _,hend⟩]
  have hlen : (Blocks.cells card.block ((lba+i*rpcBlocks M)*M.blockSize) (transferSize s.b)).length =
      transferSize s.b := Blocks.cells_length _ _ _
  obtain ⟨htake,hdrop⟩ := copied_take (hlen.le.trans (transferSize_le s.b).2)
  rw [hlen] at htake hdrop
  refine ⟨⟨s.filled ++ Blocks.cells card.block ((lba+i*rpcBlocks M)*M.blockSize) (transferSize s.b),
    s.b.drop (transferSize s.b),M.wrap (s.lba+transferSize s.b/M.blockSize),
    s.sent ++ [⟨int64 (int64 s.lba*int64 M.blockSize),transferSize s.b⟩]⟩,?_,?_,?_,?_,?_⟩
  · unfold readBody
    rw [if_neg hne]
    simp only [hf,hreq,htake,hdrop]
    rfl
  · dsimp only
    rw [Nat.min_eq_left hi.le] at hnext
    rw [h.filled,Nat.min_eq_left hi.le,Nat.add_mul,hsize,Blocks.cells_append,← Nat.add_mul,hnext]
  · have hleft : n-i*rpcBlocks M-min (rpcBlocks M) (n-i*rpcBlocks M) = n-(i+1)*rpcBlocks M := by omega
    dsimp only
    rw [List.length_drop,h.rest,hsize,← Nat.sub_mul,hleft]
  · intro hlt
    have hfull : min (rpcBlocks M) (n-i*rpcBlocks M) = rpcBlocks M := by omega
    have hcs := card.size_le
    have hmax : M.maxUint = 2*M.maxInt+1 := rfl
    dsimp only
    rw [hsize,hfull,Nat.mul_div_cancel _ hB,h.addr hi,Nat.add_assoc,← hmul]
    exact Machine.wrap_eq (by omega)
  · intro x hx
    rcases List.mem_append.mp hx with hx | hx
    · exact h.bounded x hx
    · rw [List.mem_singleton.mp hx]
      exact (transferSize_le s.b).1

omit hbs hrpc in
/-- The end of the loop. -/
lemma Filled.done {fails : ℕ → Bool} {i : ℕ} {s : Reading} (h : Filled card lba n i s)
    (hi : n ≤ i*rpcBlocks M) : readBody rpc fails card.toDevice s =
      .leave ⟨Blocks.cells card.block (lba*M.blockSize) (n*M.blockSize),s.sent,none⟩ := by
  have hnil : s.b = [] := by
    apply List.eq_nil_of_length_eq_zero
    rw [h.rest,Nat.sub_eq_zero_of_le hi,Nat.zero_mul]
  unfold readBody
  rw [if_pos hnil,h.filled,Nat.min_eq_right hi]

/-- `ReadBlocks` fills the buffer with the blocks from `lba` on. -/
theorem readBlocks_spec (card : Card M) {lba n : ℕ} {fails : ℕ → Bool} (hf : ∀ i, fails i = false)
    (hon : lba+n ≤ card.size) {buf : List UInt8} (hbuf : buf.length = n*M.blockSize) :
    (readBlocks rpc fails card.toDevice lba buf).buf = Blocks.cells card.block (lba*M.blockSize) (n*M.blockSize) ∧
    (readBlocks rpc fails card.toDevice lba buf).result = none ∧
    ∀ x ∈ (readBlocks rpc fails card.toDevice lba buf).sent, x.size ≤ maxTransferBytes := by
  unfold readBlocks
  split_ifs with hnil
  · subst hnil
    have hzero : n*M.blockSize = 0 := hbuf.symm
    refine ⟨?_,rfl,fun x hx => absurd hx List.not_mem_nil⟩
    rw [hzero]
    rfl
  · refine (readLoop rpc fails card.toDevice).exec_rule (P := fun s => ∃ i, Filled card lba n i s)
      (Q := fun x => x.buf = Blocks.cells card.block (lba*M.blockSize) (n*M.blockSize) ∧ x.result = none ∧
        ∀ y ∈ x.sent, y.size ≤ maxTransferBytes) ?_ ?_ ⟨0,?_⟩
    · rintro s t ⟨i,h⟩ hb
      change readBody rpc fails card.toDevice s = .again t at hb
      rcases Nat.lt_or_ge (i*rpcBlocks M) n with hi | hi
      · obtain ⟨t',ht,h'⟩ := h.again hbs hrpc hf hon hi
        rw [ht] at hb
        cases hb
        exact ⟨i+1,h'⟩
      · rw [h.done hi] at hb
        cases hb
    · rintro s x ⟨i,h⟩ hb
      change readBody rpc fails card.toDevice s = .leave x at hb
      rcases Nat.lt_or_ge (i*rpcBlocks M) n with hi | hi
      · obtain ⟨t',ht,-⟩ := h.again hbs hrpc hf hon hi
        rw [ht] at hb
        cases hb
      · rw [h.done hi] at hb
        cases hb
        exact ⟨rfl,rfl,h.bounded⟩
    · refine ⟨by simp [Blocks.cells],by simp [hbuf],fun _ => by simp,fun x hx => absurd hx List.not_mem_nil⟩

end Read

/-- Writing does not change the shape of the card. -/
def Card.store (card : Card M) (lba k : ℕ) (b : List UInt8) : Card M :=
  ⟨card.toDevice.store lba k b,card.size_le,card.bytes_lt⟩

section Together
variable {rpc : Rpc M} (hrpc : rpc.Exact) (hbs : M.blockSize ∣ maxTransferBytes) {card : Card M} {fails : ℕ → Bool}
  {lba : ℕ} {b : List UInt8}
include hbs

/-- If no RPC fails, all the blocks are on the card. -/
lemma on_card (hb : b ≠ []) (h : ∀ i, i*rpcBlocks M < numBlocks M b.length →
    ¬ card.FailsAt fails lba (numBlocks M b.length) i) : lba+numBlocks M b.length ≤ card.size := by
  have hq := rpcBlocks_pos hbs
  have hn : 0 < numBlocks M b.length := Blocks.count_pos M.blockSize_pos _ (List.length_pos_of_ne_nil hb)
  have hdiv := Nat.div_mul_le_self (numBlocks M b.length-1) (rpcBlocks M)
  have hlast := Nat.lt_div_mul_add (a := numBlocks M b.length-1) hq
  by_contra hout
  apply h ((numBlocks M b.length-1)/rpcBlocks M) (by omega)
  right
  rw [Nat.add_mul,Nat.one_mul,Nat.min_eq_right (by omega)]
  omega

include hrpc

/-- The writes of the card are those that the slots package is analysed with: complete
ones, and ones that stop after a number of blocks. -/
theorem writeBlocks_refines (hlba : lba ≤ M.maxUint) (hb : b ≠ []) :
    ∃ f : WriteBlocks M, (f = Slots.writeBlocks ∨ ∃ k, f = writePrefix k) ∧
      ((writeBlocks rpc fails card.toDevice lba b).dev,(writeBlocks rpc fails card.toDevice lba b).result) =
        f card.toDevice lba b := by
  rcases (writeBlocks_spec hrpc hbs card fails hlba b).1 with ⟨hno,hdev,hres⟩ | ⟨i,hi,-,-,hdev,hres⟩
  · refine ⟨_,.inl rfl,?_⟩
    rw [hdev,hres,Slots.writeBlocks]
    exact (if_pos (on_card hbs hb hno)).symm
  · refine ⟨_,.inr ⟨i*rpcBlocks M,rfl⟩,?_⟩
    rw [hdev,hres,writePrefix,Nat.min_eq_left hi.le]

/-- And a read of one block is the one of the slots package. -/
theorem readBlocks_refines (hf : ∀ i, fails i = false) (hon : lba < card.size) (buf : Block M) :
    card.toDevice.readBlocks lba buf = (card.block lba,none) ∧
    (readBlocks rpc fails card.toDevice lba buf.toList).buf = (card.block lba).toList ∧
    (readBlocks rpc fails card.toDevice lba buf.toList).result = none := by
  have hlen : buf.toList.length = 1*M.blockSize := by rw [Nat.one_mul,List.Vector.toList_length]
  obtain ⟨hbuf,hres,-⟩ := readBlocks_spec hbs hrpc card hf (show lba+1 ≤ card.size from hon) hlen
  refine ⟨if_pos hon,?_,hres⟩
  have hwithin : lba*M.blockSize % M.blockSize+1*M.blockSize ≤ M.blockSize := by
    rw [Nat.mul_mod_left,Nat.one_mul,Nat.zero_add]
  rw [hbuf,Blocks.cells_within M.blockSize_pos _ _ _ hwithin,Nat.mul_mod_left,
    Nat.mul_div_cancel _ M.blockSize_pos,List.drop_zero,Nat.one_mul]
  exact List.take_of_length_le (List.Vector.toList_length _).le

end Together

lemma sectors_pos : 0 < 512 := by decide

/-- A 32-bit machine with blocks of 512 bytes. -/
def sectors : Machine := .bits32 512 sectors_pos

/-- A card of 128 blocks of zeros. -/
def blankCard : Card sectors := ⟨.zeros sectors 128,by decide,by decide⟩

/-- The RPCs of a card. -/
def cardRpc (M : Machine) : Rpc M where
  writeBlocks d x :=
    if 0 ≤ x.lba ∧ x.lba.toNat+numBlocks M x.data.length ≤ d.size then
      some (d.store x.lba.toNat (numBlocks M x.data.length) x.data)
    else none
  read d x :=
    if 0 ≤ x.offset ∧ x.offset.toNat+x.size ≤ d.size*M.blockSize then
      some (Blocks.cells d.block x.offset.toNat x.size)
    else none

lemma cardRpc_exact (M : Machine) : (cardRpc M).Exact := ⟨fun _ _ => rfl,fun _ _ => rfl⟩

end ArmoredWitness.Mmc
