import ArmoredWitness.Slots.Tape

/-! The region of a journal as a log: what `Update` does to the device and to the
journal, and how each kind of write, and opening the journal, moves the log from
one state to the next. -/
namespace ArmoredWitness.Slots
open Lib Lib.Sha256 Lib.RingLog

variable {M : Machine}

namespace Journal

/-- The size check of `Update`. -/
def Accepts (j : Journal) (data : List UInt8) : Prop := (data.length : ℤ) ≤ j.maxDataBytes

instance (j : Journal) (data : List UInt8) : Decidable (j.Accepts data) :=
  inferInstanceAs (Decidable (_ ≤ _))

/-- The journal was opened on the region. -/
structure On (j : Journal) (r : Region M) : Prop where
  addressed : r.Addressed
  start : j.start = r.start
  length : j.length = r.length
  maxDataBytes : j.maxDataBytes = Slots.maxDataBytes M r.length

variable {j : Journal} {r : Region M} {d : Device M} {data : List UInt8}

lemma On.accepts_iff (h : j.On r) : j.Accepts data ↔ entryHeaderSize+data.length ≤ r.limit := by
  unfold Accepts
  rw [h.maxDataBytes,Slots.maxDataBytes]
  change _ ≤ ((r.limit : ℕ) : ℤ)-_ ↔ _
  omega

/-- The space that is left, in bytes, up to a wrap. -/
lemma On.capIn_eq (h : j.On r) (hn : j.nextBlock ≤ r.stop) :
    j.capIn M.arith M = M.wrap ((r.stop-j.nextBlock)*M.blockSize) := by
  have hlt := h.addressed.stop_lt
  have hcast : ((r.stop : ℤ)-j.nextBlock) = ((r.stop-j.nextBlock : ℕ) : ℤ) := by omega
  have hleft : M.arith.uint (r.stop-j.nextBlock : ℕ) = r.stop-j.nextBlock := M.arith_upTo.uint (by omega)
  rw [capIn,h.start,h.length,h.addressed.uint_stop,hcast,hleft,M.arith_uint]

/-- The size of a record is a `uint`, as long as that of its data is an `int`. -/
lemma On.uint_size (h : j.On r) (hlen : data.length ≤ M.maxInt) :
    M.arith.uint (j.newEntry data).size = entryHeaderSize+data.length := by
  have hint := h.addressed.int_le
  have hspace : M.space = 2*M.maxInt+1+1 := rfl
  exact M.arith_upTo.uint (show entryHeaderSize+data.length < M.space by omega)

lemma On.length_le (h : j.On r) (ha : j.Accepts data) : data.length ≤ M.maxInt := by
  have hle := h.accepts_iff.mp ha
  have hlim := r.limit_le
  omega

/-- A record goes to the next block, where there is room for it, or to the start of
the region; to the start only if there is no room for it at the next block, unless
the size of the region in bytes is too large for a `uint`. -/
lemma On.target_cases (h : j.On r) (hs : r.start ≤ j.nextBlock) (hn : j.nextBlock ≤ r.stop)
    (ha : j.Accepts data) :
    j.target M data = j.nextBlock ∧
      j.nextBlock+numBlocks M (entryHeaderSize+data.length) ≤ r.stop ∨
    j.target M data = r.start ∧ r.start+numBlocks M (entryHeaderSize+data.length) ≤ r.stop ∧
      (r.length*M.blockSize ≤ M.maxUint →
        r.stop < j.nextBlock+numBlocks M (entryHeaderSize+data.length)) := by
  have hfit := Blocks.count_le_iff M.blockSize_pos (entryHeaderSize+data.length) (r.stop-j.nextBlock)
  change numBlocks M _ ≤ _ ↔ _ at hfit
  have h3 := r.three_mul_numBlocks_le (h.accepts_iff.mp ha)
  have hpos := numBlocks_pos M data.length
  have hlen : r.stop = r.start+r.length := rfl
  rw [target,targetIn,h.uint_size (h.length_le ha),h.capIn_eq hn,h.start]
  split_ifs with hcap
  · refine .inr ⟨rfl,by omega,fun hov => ?_⟩
    have hle : (r.stop-j.nextBlock)*M.blockSize ≤ r.length*M.blockSize := Nat.mul_le_mul_right _ (by omega)
    rw [Machine.wrap_eq (hle.trans hov)] at hcap
    have hnot : ¬ numBlocks M (entryHeaderSize+data.length) ≤ r.stop-j.nextBlock :=
      fun hc => absurd (hfit.mp hc) (Nat.not_le_of_lt hcap)
    omega
  · have hle := hfit.mpr ((Nat.le_of_not_lt hcap).trans (M.wrap_le _))
    exact .inl ⟨rfl,by omega⟩

section Update
variable (ha : j.Accepts data)

lemma update_tooLarge (write : WriteBlocks M) (h : ¬ j.Accepts data) :
    j.update write d data = (d,j,.error (.tooLarge data.length j.maxDataBytes)) := by
  unfold update updateIn
  rw [if_pos (Int.not_le.mp h)]

include ha

lemma update_accepted (write : WriteBlocks M) : j.update write d data =
    installIn {j with nextBlock := j.target M data} M.arith (j.newEntry data)
      (write d (j.target M data) (j.newEntry data).bytes) := by
  have hm : marshalEntry (j.newEntry data) = .ok (j.newEntry data).bytes := marshalEntry_ofData _ _
  unfold update updateIn
  rw [if_neg (Int.not_lt.mpr ha)]
  simp only [hm]
  rfl

omit ha in
/-- However the device behaves, the current record is the new one after an update that
returns nil, and the old one after any other. -/
lemma update_current (j : Journal) (write : WriteBlocks M) (d : Device M) (data : List UInt8) :
    (j.update write d data).2.2 = .ok () ∧ (j.update write d data).2.1.current = j.newEntry data ∨
    (j.update write d data).2.2 ≠ .ok () ∧ (j.update write d data).2.1.current = j.current := by
  by_cases ha : j.Accepts data
  · rw [update_accepted ha]
    cases write d (j.target M data) (j.newEntry data).bytes with
    | mk d' r =>
      cases r with
      | ok n => exact .inl ⟨rfl,rfl⟩
      | error e => exact .inr ⟨nofun,rfl⟩
      | panic p => exact .inr ⟨nofun,rfl⟩
  · rw [update_tooLarge write ha]
    exact .inr ⟨nofun,rfl⟩

/-- An update that the device carries out. -/
lemma update_writeBlocks (hr : r.Addressed)
    (hfit : j.target M data+numBlocks M (entryHeaderSize+data.length) ≤ r.stop)
    (hd : j.target M data+numBlocks M (entryHeaderSize+data.length) ≤ d.size) : j.update writeBlocks d data =
      (d.store (j.target M data) (numBlocks M (entryHeaderSize+data.length)) (j.newEntry data).bytes,
        {j with nextBlock := j.target M data+numBlocks M (entryHeaderSize+data.length),
                current := j.newEntry data},.ok ()) := by
  have hlen : (j.newEntry data).bytes.length = entryHeaderSize+data.length := bytes_length _ _
  have hnext : M.arith.uint (j.target M data+numBlocks M (entryHeaderSize+data.length) : ℕ) =
      j.target M data+numBlocks M (entryHeaderSize+data.length) := M.arith_upTo.uint (hfit.trans_lt hr.stop_lt)
  rw [update_accepted ha]
  simp only [writeBlocks,hlen,if_pos hd,installIn,hnext]

/-- An update that the device gives up on. -/
lemma update_writePrefix (k : ℕ) : j.update (writePrefix k) d data =
    (d.store (j.target M data) (min k (numBlocks M (entryHeaderSize+data.length))) (j.newEntry data).bytes,
      {j with nextBlock := j.target M data},.error (.write (.device (j.target M data+k)))) := by
  have hlen : (j.newEntry data).bytes.length = entryHeaderSize+data.length := bytes_length _ _
  rw [update_accepted ha]
  simp only [writePrefix,hlen,installIn]

end Update
end Journal

/-- The region holds a log: the newest record is `x`, in the blocks from `c` up to
`e`, at the end of a chain of records that begins at `p`; the records in `F` may
have been stored although their updates failed. -/
structure Holds (d : Device M) (r : Region M) (F : Entry → Prop) (p c : ℕ) (x : Option Entry)
    (e : ℕ) : Prop where
  tidy : d.Tidy r
  live : Live (entryFormat M) d.tape r.start r.stop F p c x e

namespace Holds
variable {d : Device M} {r : Region M} {F : Entry → Prop} {p c e : ℕ} {x : Option Entry}

theorem blank (h : d.Blank r) : Holds d r (fun _ => False) r.start r.start none r.start :=
  ⟨h.tidy,Live.empty (Nat.le_add_right _ _) fun q hs hq =>
    tape_of_not_isHeader (Device.not_isHeader_zero (h.zero q hs hq))⟩

section
variable (h : Holds d r F p c x e)
include h

/-- The newest record was a permitted one. -/
lemma three_mul_blocks_le {z : Entry} (hx : x = some z) : 3*z.blocks M ≤ r.length+2 := by
  subst hx
  obtain ⟨hrec,he⟩ := h.live.chain.last_record
  have hle := h.live.chain.le_last
  have hlt := h.live.last_lt (by simp)
  have hstart := h.live.start_le
  have hend := h.live.end_le
  obtain ⟨hr,rfl⟩ := isRecord_of_tape hrec.whole
  exact r.three_mul_numBlocks_le (h.tidy.permitted c (by omega) (by omega) hr.toIsHeader)

lemma revision_pos {z : Entry} (hx : x = some z) : 0 < z.revision := by
  subst hx
  exact revision_pos_of_tape h.live.chain.last_record.1.whole

lemma mono {G : Entry → Prop} (hFG : ∀ z, F z → G z) : Holds d r G p c x e :=
  ⟨h.tidy,h.live.mono hFG⟩

/-- Opening the journal finds the newest record or one whose update failed. -/
theorem openJournal : ∃ x' p' c' e', Slots.openJournal d r.start r.length = .ok
      ⟨r.start,r.length,x'.getD Entry.zero,if r.stop ≤ e' then r.start else e',maxDataBytes M r.length⟩ ∧
    Holds d r (fun _ => False) p' c' x' e' ∧ (x' = x ∧ c' = c ∧ e' = e ∨
      ∃ y, x' = some y ∧ F y ∧ y.revision.toNat = revOf (entryFormat M) x+1) := by
  obtain ⟨x',p',c',e',hscan,hlive,hcases⟩ := h.live.recover
  exact ⟨x',p',c',e',openJournal_of_scan h.tidy hscan,
    ⟨h.tidy,hlive⟩,hcases⟩

end

section Write
variable {rev : UInt32} {data : List UInt8} {n k : ℕ} (h : Holds d r F p c x e)
  (hrev : rev.toNat = revOf (entryFormat M) x+1) (hfree : FreeOfMagic M data)
  (hsize : entryHeaderSize+data.length ≤ r.limit)

/-- What a write needs beyond a place: if it may stay incomplete, that no part of
it can be taken for something else. -/
def Sound (d : Device M) (n k : ℕ) (rev : UInt32) (data : List UInt8) : Prop :=
  0 < k → k < numBlocks M (entryHeaderSize+data.length) →
    FreeOfMagicStart M data ∧ NoCollision d n k rev data

include h hrev hfree hsize

lemma writes (hk : k ≤ numBlocks M (entryHeaderSize+data.length))
    (hfit : n+numBlocks M (entryHeaderSize+data.length) ≤ r.stop) (hsound : Sound d n k rev data) :
    Writes (entryFormat M) d.tape (d.store n k (Entry.ofData rev data).bytes).tape n
      (Entry.ofData rev data) k := by
  have hlim := h.tidy.addressed.alloc
  have hon := h.tidy.on_device
  have hne : rev ≠ 0 := by
    rintro rfl
    simp at hrev
  exact writes_store r.header_le hne (by omega) hfree hk (by omega) hsound

theorem fail_end (hk : k ≤ numBlocks M (entryHeaderSize+data.length))
    (hfit : e+numBlocks M (entryHeaderSize+data.length) ≤ r.stop) (hsound : Sound d e k rev data) :
    Holds (d.store e k (Entry.ofData rev data).bytes) r
      (fun z => F z ∨ z = Entry.ofData rev data) p c x e :=
  ⟨h.tidy.store rev hfree hsize hfit hk,
    h.live.fail_end (h.writes hrev hfree hsize hk hfit hsound) hrev
      (by rwa [entryFormat_width,r.blocks_ofData rev hsize])⟩

theorem ok_end (hfit : e+numBlocks M (entryHeaderSize+data.length) ≤ r.stop)
    (hhead : r.start < p → ∀ z, d.tape r.start ≠ .whole z) :
    Holds (d.store e (numBlocks M (entryHeaderSize+data.length)) (Entry.ofData rev data).bytes) r
      (fun _ => False) p e (some (Entry.ofData rev data))
      (e+numBlocks M (entryHeaderSize+data.length)) := by
  have hw : (entryFormat M).width (Entry.ofData rev data) = _ := r.blocks_ofData rev hsize
  have hlive := h.live.ok_end (h.writes hrev hfree hsize le_rfl hfit fun _ hlt => absurd hlt (lt_irrefl _))
    hrev (by rwa [hw]) hw.symm hhead
  rw [hw] at hlive
  exact ⟨h.tidy.store rev hfree hsize hfit le_rfl,hlive⟩

theorem fail_start (hk : k ≤ numBlocks M (entryHeaderSize+data.length))
    (hfit : r.start+numBlocks M (entryHeaderSize+data.length) ≤ r.stop)
    (hsound : Sound d r.start k rev data) (hx : x ≠ none) (hc : r.start+k ≤ c)
    (he : r.start+numBlocks M (entryHeaderSize+data.length) ≤ e) :
    ∃ p', Holds (d.store r.start k (Entry.ofData rev data).bytes) r
      (fun z => F z ∨ z = Entry.ofData rev data) p' c x e := by
  have hw : (entryFormat M).width (Entry.ofData rev data) = _ := r.blocks_ofData rev hsize
  obtain ⟨p',hlive⟩ := h.live.fail_start (h.writes hrev hfree hsize hk hfit hsound) hrev
    (by rwa [hw]) hx hc (by rwa [hw])
  exact ⟨p',h.tidy.store rev hfree hsize hfit hk,hlive⟩

theorem ok_start (hfit : r.start+numBlocks M (entryHeaderSize+data.length) ≤ r.stop)
    (hclash : r.start+numBlocks M (entryHeaderSize+data.length) = e →
      ∀ z, F z → e < r.stop → d.tape e ≠ .whole z) :
    Holds (d.store r.start (numBlocks M (entryHeaderSize+data.length)) (Entry.ofData rev data).bytes) r
      (fun _ => False) r.start r.start (some (Entry.ofData rev data))
      (r.start+numBlocks M (entryHeaderSize+data.length)) := by
  have hw : (entryFormat M).width (Entry.ofData rev data) = _ := r.blocks_ofData rev hsize
  have hlive := h.live.ok_start (h.writes hrev hfree hsize le_rfl hfit fun _ hlt => absurd hlt (lt_irrefl _))
    hrev (by rwa [hw]) hw.symm (by rwa [hw])
  rw [hw] at hlive
  exact ⟨h.tidy.store rev hfree hsize hfit le_rfl,hlive⟩

end Write
end Holds

/-- The journal in memory matches the log: its next block is the end of the log,
or the start of the region. -/
structure Journal.Tracks (j : Journal) (r : Region M) (x : Option Entry) (e : ℕ) : Prop where
  on : j.On r
  current : j.current = x.getD Entry.zero
  next : j.nextBlock = e ∨ j.nextBlock = r.start

lemma Journal.Tracks.revision {j : Journal} {r : Region M} {x : Option Entry} {e : ℕ}
    (h : j.Tracks r x e) : j.current.revision.toNat = revOf (entryFormat M) x := by
  rw [h.current]
  cases x <;> rfl

lemma toNat_succ {v : UInt32} (h : v.toNat+1 < 2^32) : (v+1).toNat = v.toNat+1 := by
  rw [UInt32.toNat_add]
  exact Nat.mod_eq_of_lt h

lemma Journal.Tracks.next_revision {j : Journal} {r : Region M} {x : Option Entry} {e : ℕ}
    (h : j.Tracks r x e) (hrev : j.current.revision.toNat+1 < 2^32) :
    (j.current.revision+1).toNat = revOf (entryFormat M) x+1 := by
  rw [toNat_succ hrev,h.revision]

/-- Where an accepted update goes. -/
lemma Holds.target_cases {d : Device M} {r : Region M} {F : Entry → Prop} {p c e : ℕ}
    {x : Option Entry} {j : Journal} {data : List UInt8} (h : Holds d r F p c x e)
    (ht : j.Tracks r x e) (ha : j.Accepts data) :
    j.nextBlock = e ∧ j.target M data = e ∧
      e+numBlocks M (entryHeaderSize+data.length) ≤ r.stop ∨
    j.target M data = r.start ∧ r.start+numBlocks M (entryHeaderSize+data.length) ≤ r.stop ∧
      x ≠ none ∧ (j.nextBlock = e → r.length*M.blockSize ≤ M.maxUint →
        r.stop < e+numBlocks M (entryHeaderSize+data.length)) := by
  have hend := h.live.end_le
  have hle := h.live.chain.le_last
  have hstart := h.live.start_le
  have hstop : r.stop = r.start+r.length := rfl
  have hcases := ht.on.target_cases (by rcases ht.next with hn | hn <;> omega)
    (by rcases ht.next with hn | hn <;> omega) ha
  by_cases hx : x = none
  · have he : e = r.start := by
      subst hx
      exact h.live.last_eq.2.2
    have hn : j.nextBlock = e := by rcases ht.next with hn | hn <;> omega
    rcases hcases with ⟨htarget,hfit⟩ | ⟨htarget,hfit,-⟩
    · exact .inl ⟨hn,by omega,by omega⟩
    · exact .inl ⟨hn,by omega,by omega⟩
  · have hlt := h.live.last_lt hx
    rcases hcases with ⟨htarget,hfit⟩ | ⟨htarget,hfit,hover⟩
    · rcases ht.next with hn | hn
      · exact .inl ⟨hn,by omega,by omega⟩
      · exact .inr ⟨by omega,by omega,hx,fun hc => by omega⟩
    · exact .inr ⟨htarget,hfit,hx,fun hc hov => by have := hover hov; omega⟩

/-- A record that does not fit after the newest one reaches, from the start of the
region, at most into the first block of the newest one. -/
lemma Holds.start_below {d : Device M} {r : Region M} {F : Entry → Prop} {p c e : ℕ}
    {x : Option Entry} {n : ℕ} (h : Holds d r F p c x e) (hn : n ≤ r.limit) (hx : x ≠ none)
    (hover : r.stop < e+numBlocks M n) :
    r.start+numBlocks M n ≤ c+1 ∧ r.start+numBlocks M n ≤ e := by
  have h3 := r.three_mul_numBlocks_le hn
  have hstop : r.stop = r.start+r.length := rfl
  cases x with
  | none => exact absurd rfl hx
  | some z =>
    have hz := h.three_mul_blocks_le rfl
    have he := h.live.chain.last_record.2
    rw [entryFormat_width] at he
    have hend := h.live.end_le
    omega

/-- A journal in memory and the log on the device have the same newest record, and
no failed update has left a trace on the device. -/
def Settled (d : Device M) (j : Journal) (r : Region M) (x : Option Entry) : Prop :=
  ∃ p c e, Holds d r (fun _ => False) p c x e ∧ j.Tracks r x e

/-- A journal in memory and the log on the device agree, and no failed update has
left a trace: the newest record is `x`, and the next block is the one after it,
up to the wrap at the end of the region. -/
def Quiet (d : Device M) (j : Journal) (r : Region M) (x : Option Entry) : Prop :=
  ∃ p c e, Holds d r (fun _ => False) p c x e ∧ j.Tracks r x e ∧ (j.nextBlock = e ∨ e = r.stop)

/-- A complete update, whether or not updates before it were refused. -/
theorem Settled.store_all {d : Device M} {j : Journal} {r : Region M} {x : Option Entry}
    {data : List UInt8} (h : Settled d j r x) (hrev : j.current.revision.toNat+1 < 2^32)
    (ha : j.Accepts data) (hfree : FreeOfMagic M data) : Quiet
      (d.store (j.target M data) (numBlocks M (entryHeaderSize+data.length)) (j.newEntry data).bytes)
      {j with nextBlock := j.target M data+numBlocks M (entryHeaderSize+data.length),
              current := j.newEntry data} r (some (j.newEntry data)) := by
  obtain ⟨p,c,e,hh,ht⟩ := h
  have hon := ht.on
  have hnext := ht.next_revision hrev
  have hsize := hon.accepts_iff.mp ha
  rcases hh.target_cases ht ha with ⟨-,htarget,hfit⟩ | ⟨htarget,hfit,-,-⟩
  · have hnew := hh.ok_end hnext hfree hsize hfit fun hp z hz => ((hh.live.head hp).2 z hz).2.1.elim
    rw [htarget]
    exact ⟨p,e,_,hnew,⟨⟨hon.addressed,hon.start,hon.length,hon.maxDataBytes⟩,rfl,.inl rfl⟩,.inl rfl⟩
  · have hnew := hh.ok_start hnext hfree hsize hfit fun _ z hz => hz.elim
    rw [htarget]
    exact ⟨_,_,_,hnew,⟨⟨hon.addressed,hon.start,hon.length,hon.maxDataBytes⟩,rfl,.inl rfl⟩,.inl rfl⟩

namespace Quiet
variable {d : Device M} {j : Journal} {r : Region M} {x : Option Entry} {data : List UInt8}

/-- The journal that `OpenJournal` returns matches the log it found. -/
lemma of_scan {p c e : ℕ} (h : Holds d r (fun _ => False) p c x e) :
    Quiet d ⟨r.start,r.length,x.getD Entry.zero,if r.stop ≤ e then r.start else e,
      maxDataBytes M r.length⟩ r x := by
  have hend := h.live.end_le
  refine ⟨p,c,e,h,⟨⟨h.tidy.addressed,rfl,rfl,rfl⟩,rfl,?_⟩,?_⟩
  · by_cases he : r.stop ≤ e
    · exact .inr (if_pos he)
    · exact .inl (if_neg he)
  · by_cases he : r.stop ≤ e
    · exact .inr (by omega)
    · exact .inl (if_neg he)

theorem blank (h : d.Blank r) : ∃ j, openJournal d r.start r.length = .ok j ∧ Quiet d j r none := by
  obtain ⟨x',p',c',e',hopen,hholds,⟨rfl,-,-⟩ | ⟨y,-,hF,-⟩⟩ := (Holds.blank h).openJournal
  · exact ⟨_,hopen,of_scan hholds⟩
  · exact hF.elim

section
variable (h : Quiet d j r x)
include h

lemma settled : Settled d j r x := by
  obtain ⟨p,c,e,hh,ht,-⟩ := h
  exact ⟨p,c,e,hh,ht⟩

lemma on : j.On r := by
  obtain ⟨p,c,e,-,ht,-⟩ := h
  exact ht.on

lemma current : j.current = x.getD Entry.zero := by
  obtain ⟨p,c,e,-,ht,-⟩ := h
  exact ht.current

lemma data_eq : j.data = ((x.getD Entry.zero).data,(x.getD Entry.zero).revision) := by
  rw [Journal.data,h.current]

/-- Opening the journal again finds the same record. -/
theorem reopen : ∃ j', openJournal d r.start r.length = .ok j' ∧ Quiet d j' r x := by
  obtain ⟨p,c,e,hh,-,-⟩ := h
  obtain ⟨x',p',c',e',hopen,hholds,⟨rfl,-,-⟩ | ⟨y,-,hF,-⟩⟩ := hh.openJournal
  · exact ⟨_,hopen,of_scan hholds⟩
  · exact hF.elim

lemma target_cases (ha : j.Accepts data) : ∃ p c e, Holds d r (fun _ => False) p c x e ∧
    (j.target M data = e ∧ e+numBlocks M (entryHeaderSize+data.length) ≤ r.stop ∨
      j.target M data = r.start ∧ r.start+numBlocks M (entryHeaderSize+data.length) ≤ r.stop ∧
      x ≠ none ∧ (r.length*M.blockSize ≤ M.maxUint →
        r.stop < e+numBlocks M (entryHeaderSize+data.length))) := by
  obtain ⟨p,c,e,hh,ht,hwrap⟩ := h
  refine ⟨p,c,e,hh,(hh.target_cases ht ha).imp (fun hc => hc.2) fun ⟨htarget,hfit,hx,hend⟩ => ?_⟩
  refine ⟨htarget,hfit,hx,fun hov => ?_⟩
  have hpos := numBlocks_pos M data.length
  rcases hwrap with hn | he
  · exact hend hn hov
  · omega

lemma on_device : r.stop ≤ d.size := by
  obtain ⟨p,c,e,hh,-,-⟩ := h
  exact hh.tidy.on_device

lemma target_fits (ha : j.Accepts data) :
    j.target M data+numBlocks M (entryHeaderSize+data.length) ≤ r.stop := by
  obtain ⟨p,c,e,-,⟨ht,hfit⟩ | ⟨ht,hfit,-⟩⟩ := h.target_cases ha
  · rwa [ht]
  · rwa [ht]

variable (hrev : j.current.revision.toNat+1 < 2^32) (ha : j.Accepts data) (hfree : FreeOfMagic M data)
include hrev

lemma next_revision : (j.current.revision+1).toNat = revOf (entryFormat M) x+1 := by
  obtain ⟨p,c,e,-,ht,-⟩ := h
  exact ht.next_revision hrev

include ha hfree

/-- A complete update. -/
theorem store_all : Quiet
    (d.store (j.target M data) (numBlocks M (entryHeaderSize+data.length)) (j.newEntry data).bytes)
    {j with nextBlock := j.target M data+numBlocks M (entryHeaderSize+data.length),
            current := j.newEntry data} r (some (j.newEntry data)) :=
  h.settled.store_all hrev ha hfree

/-- An update that is cut off, and the reopening after it. -/
theorem store_part (hov : r.length*M.blockSize ≤ M.maxUint) {k : ℕ}
    (hk : k ≤ numBlocks M (entryHeaderSize+data.length))
    (hsound : Holds.Sound d (j.target M data) k (j.current.revision+1) data) :
    ∃ j', openJournal (d.store (j.target M data) k (j.newEntry data).bytes) r.start r.length = .ok j' ∧
      (Quiet (d.store (j.target M data) k (j.newEntry data).bytes) j' r x ∨
        Quiet (d.store (j.target M data) k (j.newEntry data).bytes) j' r (some (j.newEntry data))) := by
  by_cases hall : k = numBlocks M (entryHeaderSize+data.length)
  · subst hall
    obtain ⟨j',hopen,hq⟩ := (h.store_all hrev ha hfree).reopen
    exact ⟨j',hopen,.inr hq⟩
  · have hnext := h.next_revision hrev
    have hsize := h.on.accepts_iff.mp ha
    have hpart : ∃ p c e, Holds (d.store (j.target M data) k (j.newEntry data).bytes) r
        (fun z => False ∨ z = j.newEntry data) p c x e := by
      obtain ⟨p,c,e,hh,⟨ht,hfit⟩ | ⟨ht,hfit,hx,hover⟩⟩ := h.target_cases ha
      · rw [ht] at hsound ⊢
        exact ⟨p,c,e,hh.fail_end hnext hfree hsize hk hfit hsound⟩
      · rw [ht] at hsound ⊢
        obtain ⟨hc,he⟩ := hh.start_below hsize hx (hover hov)
        obtain ⟨p',hnew⟩ := hh.fail_start hnext hfree hsize hk hfit hsound hx (by omega) he
        exact ⟨p',c,e,hnew⟩
    obtain ⟨p,c,e,hh⟩ := hpart
    obtain ⟨x',p',c',e',hopen,hholds,⟨rfl,-,-⟩ | ⟨y,rfl,hF,-⟩⟩ := hh.openJournal
    · exact ⟨_,hopen,.inl (of_scan hholds)⟩
    · obtain rfl := hF.resolve_left id
      exact ⟨_,hopen,.inr (of_scan hholds)⟩

end
end Quiet
end ArmoredWitness.Slots
