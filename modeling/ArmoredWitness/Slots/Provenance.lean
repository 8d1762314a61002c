import ArmoredWitness.Slots.Locality

/-! Where the records of a region come from. Whatever was written to the region, in
whole or in part, a header in it carries the checksum of a payload that was handed
to an update; without a collision, a record that is decoded has such a payload. -/
namespace ArmoredWitness.Slots
open Lib Lib.Sha256

variable {M : Machine} {d d' : Device M} {r : Region M} {texts : List (List UInt8)}

namespace Device

/-- Every header in the region carries the checksum of one of the payloads. -/
def Genuine (d : Device M) (r : Region M) (texts : List (List UInt8)) : Prop :=
  ∀ q, r.start ≤ q → q < r.stop → d.IsHeader q → ∃ t ∈ texts, d.shaAt q = sum256 t

/-- No record in the region has the checksum of one of the payloads by chance. -/
def Unforged (d : Device M) (r : Region M) (texts : List (List UInt8)) : Prop :=
  ∀ q < r.stop, r.start ≤ q → ∀ x ∈ (entryAt M.arith d.readBlocks q).toOption,
    ∀ t ∈ texts, sum256 x.1.data = sum256 t → x.1.data = t

instance : Decidable (d.Unforged r texts) := inferInstanceAs (Decidable (∀ q < r.stop, r.start ≤ q → _))

namespace Genuine

lemma blank (h : d.Blank r) (texts : List (List UInt8)) : d.Genuine r texts :=
  fun q hs hq hh => absurd hh (not_isHeader_zero (h.zero q hs hq))

lemma congr (h : d.Genuine r texts) (ha : d'.Alike r d) : d'.Genuine r texts := by
  intro q hs hq hh
  have hblock := ha.block q hs hq
  rw [shaAt_congr r.header_le hblock]
  exact h q hs hq ((isHeader_congr r.header_le hblock ha.size).mp hh)

lemma mono {texts' : List (List UInt8)} (h : d.Genuine r texts) (hsub : texts ⊆ texts') :
    d.Genuine r texts' := by
  intro q hs hq hh
  obtain ⟨t,ht,heq⟩ := h q hs hq hh
  exact ⟨t,hsub ht,heq⟩

/-- Storing any part of a record for one of the payloads. -/
lemma store (h : d.Genuine r texts) (rev : UInt32) {n k : ℕ} {t : List UInt8} (ht : t ∈ texts)
    (hfree : FreeOfMagic M t) (hk : k ≤ numBlocks M (entryHeaderSize+t.length)) :
    (d.store n k (Entry.ofData rev t).bytes).Genuine r texts := by
  intro q hs hq hh
  by_cases hout : q < n ∨ n+k ≤ q
  · have hblock := d.store_outside (Entry.ofData rev t).bytes hout
    rw [shaAt_congr r.header_le hblock]
    exact h q hs hq ((isHeader_congr r.header_le hblock rfl).mp hh)
  · have hqn : q = n := by
      by_contra hne
      exact not_isHeader_stored r.header_le hfree hk (by omega) (by omega) hh
    subst hqn
    exact ⟨t,ht,shaAt_stored r.header_le (by omega)⟩

/-- What a journal opened on the region has as its data. -/
theorem openJournal (h : d.Genuine r texts) (hb : d.Bounded r) (hu : d.Unforged r texts) {j : Journal}
    (ho : Slots.openJournal d r.start r.length = .ok j) :
    j.current.data = [] ∨ j.current.data ∈ texts := by
  obtain ⟨next,⟨hzero,-⟩ | ⟨q,hs,hq,hr,hof,-⟩,-⟩ := openJournal_eq_ok hb ho
  · rw [hzero]
    exact .inl rfl
  · obtain ⟨t,ht,hsha⟩ := h q hs hq hr.toIsHeader
    obtain ⟨br,he⟩ := entryAt_of_isRecord M.arith_upTo (hb.within q hs hq) hr
    have hforged := hu q hq hs (d.entryOf q,br) (by rw [he]; rfl) t ht
    rw [hof,hforged (hr.checksum.trans hsha)]
    exact .inr ht

end Genuine
end Device

end ArmoredWitness.Slots
