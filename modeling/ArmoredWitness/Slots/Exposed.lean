import ArmoredWitness.Slots.Journal

/-! The blocks of a region that its content exposes to a scan: those with no record
before them, and those right behind a record of a chain that grows in revision.
The scan of `init` comes to these blocks and to no others. -/
namespace ArmoredWitness.Slots
open Lib

variable {M : Machine}

/-- Block `q` is exposed, behind the entry `e`. No record precedes it, or it lies right
behind the record of `e`, which is newer than the records that lead up to it. -/
inductive Exposed (A : Arith) (readBlocks : ReadBlocks M) (start stop : ℕ) : Entry → ℕ → Prop
  | leading {q} (hs : start ≤ q)
      (hno : ∀ p, start ≤ p → p < q → p < stop ∧ ∃ err, entryAt A readBlocks p = .error err) :
      Exposed A readBlocks start stop Entry.zero q
  | behind {e q e' br} (h : Exposed A readBlocks start stop e q) (hq : q < stop)
      (he : entryAt A readBlocks q = .ok (e',br)) (hlt : e.revision < e'.revision) :
      Exposed A readBlocks start stop e' (blockAfter A M q e')

/-- What a scan that has found revision `v` must not meet next: a record that is at
least as new, or a length that cannot be allocated. -/
def Trap (d : Device M) (v : UInt32) (q : ℕ) : Prop :=
  (∃ e br, entryAt M.arith d.readBlocks q = .ok (e,br) ∧ v ≤ e.revision) ∨
  ∃ p, entryAt M.arith d.readBlocks q = .panic p

section Scan
variable {A : Arith} {readBlocks : ReadBlocks M} {start length : ℕ}

/-- While no entry has been found, every block before an exposed one is unreadable as a
record. -/
lemma Exposed.leading_of_zero {stop q : ℕ} {e : Entry} (h : Exposed A readBlocks start stop e q)
    (hz : ¬ 0 < e.revision) : e = Entry.zero ∧ start ≤ q ∧
      ∀ p, start ≤ p → p < q → p < stop ∧ ∃ err, entryAt A readBlocks p = .error err := by
  cases h with
  | leading hs hno => exact ⟨rfl,hs,hno⟩
  | behind _ _ he _ => exact absurd (UInt32.pos_iff_ne_zero.mpr (entryAt_eq_ok he).1) hz

/-- The next round begins at an exposed block. -/
lemma Exposed.step {s t : Scan} {stop : ℕ} (h : Exposed A readBlocks start stop s.lastEntry s.lba)
    (hb : scanBody A readBlocks stop s = .again t) (hstop : ∀ n ≤ stop, A.uint (n : ℕ) = n) :
    Exposed A readBlocks start stop t.lastEntry t.lba := by
  obtain ⟨hlt,⟨err,he,hz,rfl⟩ | ⟨e,br,he,hgt,rfl⟩⟩ := scanBody_eq_again hb
  · obtain ⟨hzero,hs,hno⟩ := h.leading_of_zero hz
    dsimp only
    rw [hstop _ hlt,hzero]
    refine .leading (Nat.le_succ_of_le hs) fun p hp hp' => ?_
    rcases Nat.lt_succ_iff_lt_or_eq.mp hp' with hq | rfl
    · exact hno p hp hq
    · exact ⟨hlt,err,he⟩
  · exact .behind h hlt he hgt

/-- The scan comes to the exposed blocks, with the entry they are behind as the last one. -/
theorem reaches_iff_exposed {e : Entry} {q : ℕ} :
    (∃ n, (scanLoop A readBlocks start length).Reaches ⟨start,Entry.zero,start⟩ ⟨q,e,n⟩) ↔
    Exposed A readBlocks start (A.uint (start+length : ℕ)) e q := by
  constructor
  · rintro ⟨n,h⟩
    refine h.keeps (P := fun s => Exposed A readBlocks start _ s.lastEntry s.lba) ?_
      (.leading le_rfl fun p hp hp' => absurd hp' (Nat.not_lt_of_le hp))
    exact fun s t hs hb => hs.step hb fun n hn => A.below hn
  · intro h
    induction h with
    | @leading q hs hno =>
      refine ⟨start,?_⟩
      induction q, hs using Nat.le_induction with
      | base => exact .refl _
      | succ q hs ih =>
        obtain ⟨hlt,err,he⟩ := hno q hs (Nat.lt_succ_self q)
        have hb := scanBody_error (s := ⟨q,Entry.zero,start⟩) hlt he
        have hz : ¬ 0 < Entry.zero.revision := UInt32.lt_irrefl 0
        rw [if_neg hz] at hb
        dsimp only at hb
        rw [A.below hlt] at hb
        exact .tail (ih fun p hp hp' => hno p hp (Nat.lt_succ_of_lt hp')) hb
    | @behind e q e' br _ hq he hlt ih =>
      obtain ⟨n,hn⟩ := ih
      have hb := scanBody_ok (s := ⟨q,e,n⟩) hq he
      rw [if_pos hlt] at hb
      exact ⟨blockAfter A M q e',.tail hn hb⟩

/-- Once an entry has been found, the next round begins behind it. -/
lemma reaches_next {s : Scan}
    (h : (scanLoop A readBlocks start length).Reaches ⟨start,Entry.zero,start⟩ s) :
    0 < s.lastEntry.revision → s.lba = s.nextWriteLBA := by
  refine h.keeps (P := fun s => 0 < s.lastEntry.revision → s.lba = s.nextWriteLBA) ?_ fun _ => rfl
  intro s t hs hb
  obtain ⟨-,⟨err,-,hz,rfl⟩ | ⟨e,br,-,-,rfl⟩⟩ := scanBody_eq_again hb
  · exact fun hpos => absurd hpos hz
  · exact fun _ => rfl

/-- The scan panics exactly at an exposed block whose header claims too much. -/
lemma scan_eq_panic {p : Panic} : scan A readBlocks start length = .panic p ↔
    ∃ e q, Exposed A readBlocks start (A.uint (start+length : ℕ)) e q ∧ q < A.uint (start+length : ℕ) ∧
      entryAt A readBlocks q = .panic p := by
  constructor
  · intro h
    obtain ⟨t,ht,hleave⟩ := (scanLoop A readBlocks start length).exists_leave ⟨start,Entry.zero,start⟩
    change _ = Turn.leave (scan A readBlocks start length) at hleave
    rw [h] at hleave
    obtain ⟨-,hr⟩ | ⟨hlt,⟨e,br,-,-,hr⟩ | ⟨e,br,-,-,hr⟩ | ⟨p',hp,hr⟩⟩ := scanBody_eq_leave hleave <;> cases hr
    exact ⟨t.lastEntry,t.lba,reaches_iff_exposed.mp ⟨_,ht⟩,hlt,hp⟩
  · rintro ⟨e,q,hexp,hlt,hp⟩
    obtain ⟨n,hn⟩ := reaches_iff_exposed.mpr hexp
    exact hn.exec_eq.trans (Loop.exec_leave _ (scanBody_panic (s := ⟨q,e,n⟩) hlt hp))

end Scan
end ArmoredWitness.Slots
