import Mathlib.Order.Basic
import Mathlib.Order.Nat
import ArmoredWitness.Lib.Loop

/-! Append-only logs in a bounded region. A tape shows, for every cell of the
region, what a reader that starts there would find: nothing, the header of a
record that is not all there, or a whole record. Records carry a revision; the
newest one is found by a forward scan that knows no end marker. -/
namespace ArmoredWitness.Lib.RingLog

/-- How records are numbered and how many cells they take. -/
structure Format (E : Type*) where
  rev : E → ℕ
  width : E → ℕ
  width_pos : ∀ y, 0 < width y

inductive Cell (E : Type*)
  | blank
  | torn (width : ℕ)
  | whole (y : E)

abbrev Tape (E : Type*) := ℕ → Cell E

variable {E : Type*} (f : Format E)

/-- The cells that decide what a reader finds here. -/
def Cell.extent : Cell E → ℕ
  | .blank => 1
  | .torn w => w
  | .whole y => f.width y

@[simp] lemma extent_blank : (Cell.blank : Cell E).extent f = 1 := rfl
@[simp] lemma extent_torn (w : ℕ) : (Cell.torn w : Cell E).extent f = w := rfl
@[simp] lemma extent_whole (y : E) : (Cell.whole y).extent f = f.width y := rfl

/-- The revision of the newest record known, zero if there is none. -/
def revOf : Option E → ℕ
  | none => 0
  | some y => f.rev y

@[simp] lemma revOf_none : revOf f none = 0 := rfl
@[simp] lemma revOf_some (y : E) : revOf f (some y) = f.rev y := rfl

/-- A whole record with nothing that looks like a header inside it. -/
structure Record (t : Tape E) (q : ℕ) (y : E) : Prop where
  whole : t q = .whole y
  inner : ∀ i, q < i → i < q+f.width y → t i = .blank

lemma Record.congr {f : Format E} {t t' : Tape E} {q : ℕ} {y : E} (h : Record f t q y)
    (ht : ∀ i, q ≤ i → i < q+f.width y → t' i = t i) : Record f t' q y := by
  have hw := f.width_pos y
  refine ⟨(ht q le_rfl (by omega)).trans h.whole,fun i hi hi' => ?_⟩
  rw [ht i hi.le hi']
  exact h.inner i hi hi'

/-- Adjacent records of increasing revision from `p` on: the last one is `x`, it
begins at `c`, and `e` is the cell after it. -/
inductive Chain (t : Tape E) (p : ℕ) : ℕ → Option E → ℕ → Prop
  | nil : Chain t p p none p
  | snoc {c x e y} (h : Chain t p c x e) (hr : Record f t e y) (hlt : revOf f x < f.rev y) :
      Chain t p e (some y) (e+f.width y)

namespace Chain
variable {f} {t t' : Tape E} {p c e : ℕ} {x : Option E}

lemma le_last (h : Chain f t p c x e) : p ≤ c ∧ c ≤ e := by
  induction h with
  | nil => exact ⟨le_rfl,le_rfl⟩
  | @snoc c x e y h hr hlt ih =>
    have hw := f.width_pos y
    omega

lemma last_record {y : E} (h : Chain f t p c (some y) e) :
    Record f t c y ∧ e = c+f.width y := by
  cases h with
  | snoc h hr hlt => exact ⟨hr,rfl⟩

/-- What is found at a cell of the chain is decided within the chain. -/
lemma extent_le (h : Chain f t p c x e) {q : ℕ} (hp : p ≤ q) (hq : q < e) :
    q+(t q).extent f ≤ e := by
  induction h with
  | nil => omega
  | @snoc c x e y h hr hlt ih =>
    have hw := f.width_pos y
    by_cases hqe : q < e
    · have hle := ih hqe
      omega
    · by_cases he : q = e
      · rw [he,hr.whole,extent_whole]
      · rw [hr.inner q (by omega) hq,extent_blank]
        omega

/-- No record of the chain is newer than its last one. -/
lemma rev_le (h : Chain f t p c x e) {q : ℕ} {z : E} (hp : p ≤ q) (hq : q < e)
    (hz : t q = .whole z) : f.rev z ≤ revOf f x := by
  induction h with
  | nil => omega
  | @snoc c x e y h hr hlt ih =>
    by_cases hqe : q < e
    · have hle := ih hqe
      rw [revOf_some]
      omega
    · by_cases he : q = e
      · rw [he,hr.whole] at hz
        cases hz
        rfl
      · rw [hr.inner q (by omega) hq] at hz
        cases hz

lemma congr (h : Chain f t p c x e) (ht : ∀ q, p ≤ q → q < e → t' q = t q) :
    Chain f t' p c x e := by
  induction h with
  | nil => exact .nil
  | @snoc c x e y h hr hlt ih =>
    have hw := f.width_pos y
    have hle := h.le_last
    exact .snoc (ih fun q hp hq => ht q hp (by omega))
      (hr.congr fun i hi hi' => ht i (by omega) hi') hlt

/-- Cutting off the chain below `k` leaves a chain to the same last record, if `k`
does not reach into it; what was cut but not dropped holds no header. -/
lemma drop (h : Chain f t p c x e) {k : ℕ} (hk : k ≤ c) :
    ∃ p', p ≤ p' ∧ k ≤ p' ∧ p' ≤ c ∧ Chain f t p' c x e ∧
      ∀ q, p ≤ q → k ≤ q → q < p' → t q = .blank := by
  induction h with
  | nil => exact ⟨p,le_rfl,hk,le_rfl,.nil,fun q hp _ hq => by omega⟩
  | @snoc c x e y h hr hlt ih =>
    have hle := h.le_last
    by_cases hkc : k ≤ c
    · obtain ⟨p',h1,h2,h3,h4,h5⟩ := ih hkc
      exact ⟨p',h1,h2,by omega,.snoc h4 hr hlt,h5⟩
    · refine ⟨e,by omega,hk,le_rfl,.snoc .nil hr (by simp; omega),fun q hp hq hqe => ?_⟩
      cases x with
      | none => cases h; omega
      | some z =>
        obtain ⟨hz,he⟩ := h.last_record
        exact hz.inner q (by omega) (by omega)

end Chain

/-- The variables of a forward scan. -/
structure Cursor (E : Type*) where
  pos : ℕ
  last : Option E
  next : ℕ

/-- One round of the scan: search cell by cell until a record is found, then go
from record to record while the revision grows. No result means that two records
of one revision were met. -/
def scanBody (t : Tape E) (stop : ℕ) (s : Cursor E) : Turn (Cursor E) (Option (Option E × ℕ)) :=
  if s.pos < stop then
    match t s.pos with
    | .whole y =>
      if revOf f s.last < f.rev y then .again ⟨s.pos+f.width y,some y,s.pos+f.width y⟩
      else if f.rev y < revOf f s.last then .leave (some (s.last,s.pos))
      else .leave none
    | _ =>
      match s.last with
      | some _ => .leave (some (s.last,s.next))
      | none => .again {s with pos := s.pos+1}
  else .leave (some (s.last,s.next))

def scanLoop (t : Tape E) (stop : ℕ) : Loop (Cursor E) (Option (Option E × ℕ)) where
  body := scanBody f t stop
  measure s := stop-s.pos
  decreases := by
    intro s u h
    unfold scanBody at h
    split at h
    · rename_i hlt
      split at h
      · rename_i y hy
        have hw := f.width_pos y
        split at h
        · cases h
          dsimp only
          omega
        · split at h <;> cases h
      · split at h
        · cases h
        · cases h
          dsimp only
          omega
    · cases h

def scan (t : Tape E) (start stop : ℕ) : Option (Option E × ℕ) :=
  (scanLoop f t stop).exec ⟨start,none,start⟩

section Scan
variable {f} {t : Tape E} {stop : ℕ}

lemma scanBody_again {s : Cursor E} {y : E} (hs : s.pos < stop) (hy : t s.pos = .whole y)
    (hlt : revOf f s.last < f.rev y) :
    (scanLoop f t stop).body s = .again ⟨s.pos+f.width y,some y,s.pos+f.width y⟩ := by
  change scanBody f t stop s = _
  simp [scanBody,hs,hy,hlt]

/-- Cells without a whole record are passed over while none has been found. -/
lemma reaches_skip {p q n : ℕ} (hpq : p ≤ q) (hq : q ≤ stop)
    (h : ∀ i, p ≤ i → i < q → ∀ y, t i ≠ .whole y) :
    (scanLoop f t stop).Reaches ⟨p,none,n⟩ ⟨q,none,n⟩ := by
  induction q, hpq using Nat.le_induction with
  | base => exact .refl _
  | succ q hpq ih =>
    refine .tail (ih (by omega) fun i hi hi' => h i hi (by omega)) ?_
    change scanBody f t stop _ = _
    have hne := h q hpq (by omega)
    cases ht : t q with
    | whole y => exact absurd ht (hne y)
    | blank => simp [scanBody,ht,show q < stop by omega]
    | torn w => simp [scanBody,ht,show q < stop by omega]

/-- A chain is followed to its end. -/
lemma reaches_chain {p c e n : ℕ} {x : Option E} (h : Chain f t p c x e) (he : e ≤ stop) :
    (scanLoop f t stop).Reaches ⟨p,none,n⟩ ⟨e,x,if x.isSome then e else n⟩ := by
  induction h with
  | nil => exact .refl _
  | @snoc c x e y h hr hlt ih =>
    have hw := f.width_pos y
    exact .tail (ih (by omega)) (scanBody_again (by simp; omega) hr.whole hlt)

/-- With a record found, the scan stops at the first cell that does not continue
with a revision at least as high. -/
lemma exec_stop {q : ℕ} {y : E} (h : ∀ z, q < stop → t q = .whole z → f.rev z < f.rev y) :
    (scanLoop f t stop).exec ⟨q,some y,q⟩ = some (some y,q) := by
  apply Loop.exec_leave
  change scanBody f t stop _ = _
  by_cases hq : q < stop
  · cases ht : t q with
    | whole z =>
      have hz := h z hq ht
      simp [scanBody,hq,ht,hz,Nat.not_lt.mpr hz.le]
    | blank => simp [scanBody,hq,ht]
    | torn w => simp [scanBody,hq,ht]
  · simp [scanBody,hq]

end Scan
end ArmoredWitness.Lib.RingLog
