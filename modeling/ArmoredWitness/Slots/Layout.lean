import Mathlib.Order.CompletePartialOrder
import Mathlib.Order.Interval.Set.Basic
import ArmoredWitness.Slots.Partition

/-! Where the slots of a partition lie. The sums that `Validate` and `OpenPartition`
make are sums of machine integers, and the layout is the intended one exactly if they
do not wrap. -/
namespace ArmoredWitness.Slots
open Lib

variable {M : Machine}

section Layout
variable {b : ℕ} {ls : List ℕ}

lemma wrap_add (M : Machine) (a c : ℕ) : M.wrap (M.wrap a+c) = M.wrap (a+c) := Nat.mod_add_mod ..

/-- Each slot begins where the lengths before it add up to, as far as a `uint` goes. -/
lemma layout_wraps (hb : b ≤ M.maxUint) (i : ℕ) :
    (layout M b ls)[i]? = ls[i]?.map fun l => ⟨M.wrap (b+(ls.take i).sum),l,none⟩ := by
  induction ls generalizing b i with
  | nil => rfl
  | cons l ls ih =>
    cases i with
    | zero => simp [layout,Machine.wrap_eq hb]
    | succ i =>
      rw [layout,List.getElem?_cons_succ,ih (M.wrap_le_maxUint _)]
      simp only [List.getElem?_cons_succ,List.take_succ_cons,List.sum_cons,wrap_add,Nat.add_assoc]

lemma sum_take_le_sum (ls : List ℕ) (i : ℕ) : (ls.take i).sum ≤ ls.sum := by
  conv_rhs => rw [← List.take_append_drop i ls,List.sum_append]
  exact Nat.le_add_right _ _

lemma layout_getElem? (h : b+ls.sum ≤ M.maxUint) (i : ℕ) :
    (layout M b ls)[i]? = ls[i]?.map fun l => ⟨b+(ls.take i).sum,l,none⟩ := by
  have hle := sum_take_le_sum ls i
  rw [layout_wraps (by omega),Machine.wrap_eq (by omega)]

/-- No two slots share a block. -/
def Apart (slots : List Slot) : Prop :=
  ∀ (i j : ℕ) (s t : Slot), i ≠ j → slots[i]? = some s → slots[j]? = some t →
    s.start+s.length ≤ t.start ∨ t.start+t.length ≤ s.start

lemma sum_take_le {i j : ℕ} {l : ℕ} (hij : i < j) (hl : ls[i]? = some l) :
    (ls.take i).sum+l ≤ (ls.take j).sum := by
  have hsucc : (ls.take (i+1)).sum = (ls.take i).sum+l := by
    rw [List.take_add_one,hl]
    simp
  obtain ⟨n,rfl⟩ := Nat.exists_eq_add_of_lt hij
  rw [← hsucc,show i+n+1 = i+1+n by omega,List.take_add (i := i+1),List.sum_append]
  exact Nat.le_add_right _ _

lemma layout_eq_some (h : b+ls.sum ≤ M.maxUint) {i : ℕ} {s : Slot} (hs : (layout M b ls)[i]? = some s) :
    ∃ l, ls[i]? = some l ∧ s = ⟨b+(ls.take i).sum,l,none⟩ := by
  rw [layout_getElem? h] at hs
  obtain ⟨l,hl,rfl⟩ := Option.map_eq_some_iff.mp hs
  exact ⟨l,hl,rfl⟩

theorem layout_apart (h : b+ls.sum ≤ M.maxUint) : Apart (layout M b ls) := by
  intro i j s t hij hs ht
  obtain ⟨l,hl,rfl⟩ := layout_eq_some h hs
  obtain ⟨m,hm,rfl⟩ := layout_eq_some h ht
  rcases Nat.lt_or_gt_of_ne hij with hlt | hgt
  · have hle := sum_take_le hlt hl
    left
    dsimp only
    omega
  · have hle := sum_take_le hgt hm
    right
    dsimp only
    omega

/-- Every slot lies within the total length. -/
lemma layout_within (h : b+ls.sum ≤ M.maxUint) {i : ℕ} {s : Slot} (hs : (layout M b ls)[i]? = some s) :
    b ≤ s.start ∧ s.start+s.length ≤ b+ls.sum := by
  obtain ⟨l,hl,rfl⟩ := layout_eq_some h hs
  obtain ⟨hi,-⟩ := List.getElem?_eq_some_iff.mp hl
  have hle := sum_take_le hi hl
  rw [List.take_length] at hle
  dsimp only
  omega

/-- The sum that `Validate` computes may only be too small. -/
lemma Geometry.total_le (M : Machine) (g : Geometry) : g.total M ≤ g.slotLengths.sum := by
  have hfold : ∀ (ls : List ℕ) (t : ℕ), ls.foldl (fun t l => M.wrap (t+l)) t ≤ t+ls.sum := by
    intro ls
    induction ls with
    | nil => exact fun t => Nat.le_refl t
    | cons l ls ih =>
      intro t
      rw [List.foldl_cons,List.sum_cons]
      have hwrap := M.wrap_le (t+l)
      have hrest := ih (M.wrap (t+l))
      omega
  exact (hfold g.slotLengths 0).trans (Nat.zero_add _).le

lemma layout_unopened (M : Machine) (b : ℕ) (ls : List ℕ) : ∀ s ∈ layout M b ls, s.journal = none := by
  induction ls generalizing b with
  | nil => simp [layout]
  | cons l ls ih =>
    intro s hs
    rcases List.mem_cons.mp hs with rfl | hs
    · rfl
    · exact ih _ s hs

end Layout

lemma openPartition_eq_ok {d : Device M} {g : Geometry} {p : Partition M}
    (h : openPartition d g = .ok p) :
    g.validate M = .ok () ∧ p = ⟨d,layout M g.start g.slotLengths⟩ := by
  obtain ⟨u,hv,rfl⟩ := Outcome.map_eq_ok.mp h
  exact ⟨hv,rfl⟩

/-- The numbers of the geometry are machine integers. -/
structure Geometry.Representable (M : Machine) (g : Geometry) : Prop where
  start : g.start ≤ M.maxUint
  length : g.length ≤ M.maxUint
  slotLengths : ∀ l ∈ g.slotLengths, l ≤ M.maxUint

/-- The blocks of a slot. -/
def Slot.range (s : Slot) : Set ℕ := Set.Ico s.start (s.start+s.length)

/-- The intended layout: each slot covers as many blocks as its length says, from where
the slots before it end, no block belongs to two slots, and all are in the partition. -/
structure Geometry.LaidOut (g : Geometry) (slots : List Slot) : Prop where
  length : slots.length = g.slotLengths.length
  covers : ∀ (k : ℕ) (s : Slot) (l : ℕ), slots[k]? = some s → g.slotLengths[k]? = some l →
    s.range = Set.Ico (g.start+(g.slotLengths.take k).sum) (g.start+(g.slotLengths.take k).sum+l)
  disjoint : ∀ (k k' : ℕ) (s s' : Slot), k ≠ k' → slots[k]? = some s → slots[k']? = some s' →
    Disjoint s.range s'.range
  within : ∀ (k : ℕ) (s : Slot), slots[k]? = some s → s.range ⊆ Set.Ico g.start (g.start+g.length)

/-- Every number below the sum falls to one of the summands. -/
lemma exists_summand {ls : List ℕ} {n : ℕ} (h : n < ls.sum) : ∃ k l, ls[k]? = some l ∧
    (ls.take k).sum ≤ n ∧ n < (ls.take k).sum+l := by
  induction ls generalizing n with
  | nil => simp at h
  | cons l ls ih =>
    by_cases hn : n < l
    · exact ⟨0,l,rfl,Nat.zero_le _,by simpa using hn⟩
    · rw [List.sum_cons] at h
      obtain ⟨k,l',hl',hle,hlt⟩ := ih (n := n-l) (by omega)
      exact ⟨k+1,l',hl',by rw [List.take_succ_cons,List.sum_cons]; omega,
        by rw [List.take_succ_cons,List.sum_cons]; omega⟩

section Sound
variable {g : Geometry} (hstart : g.start ≤ M.maxUint)
include hstart

lemma layout_length : (layout M g.start g.slotLengths).length = g.slotLengths.length := by
  apply Nat.le_antisymm
  · rw [← List.getElem?_eq_none_iff,layout_wraps hstart,Option.map_eq_none_iff,List.getElem?_eq_none_iff]
  · rw [← List.getElem?_eq_none_iff]
    have hnone : (layout M g.start g.slotLengths)[(layout M g.start g.slotLengths).length]? = none :=
      List.getElem?_eq_none_iff.mpr le_rfl
    rwa [layout_wraps hstart,Option.map_eq_none_iff] at hnone

/-- The blocks that a slot covers, when its address fits. -/
lemma layout_range (hfits : ∀ k l, g.slotLengths[k]? = some l → 0 < l →
      g.start+(g.slotLengths.take k).sum ≤ M.maxUint) {k : ℕ} {s : Slot}
    (hs : (layout M g.start g.slotLengths)[k]? = some s) : ∃ l, g.slotLengths[k]? = some l ∧
      s.range = Set.Ico (g.start+(g.slotLengths.take k).sum) (g.start+(g.slotLengths.take k).sum+l) := by
  rw [layout_wraps hstart] at hs
  obtain ⟨l,hl,rfl⟩ := Option.map_eq_some_iff.mp hs
  refine ⟨l,hl,?_⟩
  rcases Nat.eq_zero_or_pos l with rfl | hpos
  · simp [Slot.range]
  · rw [Slot.range,Machine.wrap_eq (hfits k l hl hpos)]

lemma laidOut_of_fits (hsum : g.slotLengths.sum ≤ g.length)
    (hfits : ∀ k l, g.slotLengths[k]? = some l → 0 < l →
      g.start+(g.slotLengths.take k).sum ≤ M.maxUint) :
    g.LaidOut (layout M g.start g.slotLengths) := by
  refine ⟨layout_length hstart,fun k s l hs hl => ?_,fun k k' s s' hne hs hs' => ?_,fun k s hs => ?_⟩
  · obtain ⟨l',hl',hrange⟩ := layout_range hstart hfits hs
    cases hl.symm.trans hl'
    exact hrange
  · obtain ⟨l,hl,hrange⟩ := layout_range hstart hfits hs
    obtain ⟨l',hl',hrange'⟩ := layout_range hstart hfits hs'
    rw [hrange,hrange',Set.disjoint_left]
    rintro q ⟨hlo,hhi⟩ ⟨hlo',hhi'⟩
    rcases Nat.lt_or_gt_of_ne hne with hlt | hgt
    · have hle := sum_take_le hlt hl
      omega
    · have hle := sum_take_le hgt hl'
      omega
  · obtain ⟨l,hl,hrange⟩ := layout_range hstart hfits hs
    obtain ⟨hk,-⟩ := List.getElem?_eq_some_iff.mp hl
    have hle := sum_take_le hk hl
    rw [List.take_length] at hle
    rw [hrange]
    rintro q ⟨hlo,hhi⟩
    exact ⟨by omega,by omega⟩

lemma fits_of_laidOut (h : g.LaidOut (layout M g.start g.slotLengths)) :
    g.slotLengths.sum ≤ g.length ∧ ∀ k l, g.slotLengths[k]? = some l → 0 < l →
      g.start+(g.slotLengths.take k).sum ≤ M.maxUint := by
  have hslot : ∀ {k l : ℕ}, g.slotLengths[k]? = some l → (layout M g.start g.slotLengths)[k]? =
      some ⟨M.wrap (g.start+(g.slotLengths.take k).sum),l,none⟩ := by
    intro k l hl
    rw [layout_wraps hstart,hl]
    rfl
  constructor
  · by_contra hgt
    have hpred : g.slotLengths.sum-1 < g.slotLengths.sum := by omega
    obtain ⟨k,l,hl,hle,hlt⟩ := exists_summand hpred
    have hmem : g.start+(g.slotLengths.sum-1) ∈
        Set.Ico (g.start+(g.slotLengths.take k).sum) (g.start+(g.slotLengths.take k).sum+l) :=
      ⟨by omega,by omega⟩
    rw [← h.covers k _ l (hslot hl) hl] at hmem
    have hin := (h.within k _ (hslot hl) hmem).2
    omega
  · intro k l hl hpos
    have hcover := h.covers k _ l (hslot hl) hl
    have hlow : M.wrap (g.start+(g.slotLengths.take k).sum) ∈
        Set.Ico (g.start+(g.slotLengths.take k).sum) (g.start+(g.slotLengths.take k).sum+l) := by
      rw [← hcover]
      exact ⟨le_rfl,Nat.lt_add_of_pos_right hpos⟩
    exact hlow.1.trans (M.wrap_le_maxUint _)

end Sound

/-- An accepted geometry is laid out as intended exactly if the lengths add up to no
more than the length of the partition and every slot that has blocks begins at an
address that is a machine integer. -/
theorem openPartition_laidOut_iff (g : Geometry) (hg : g.Representable M) (d : Device M)
    (p : Partition M) (hp : openPartition d g = .ok p) :
    g.LaidOut p.slots ↔ g.slotLengths.sum ≤ g.length ∧
      ∀ k l, g.slotLengths[k]? = some l → 0 < l → g.start+(g.slotLengths.take k).sum ≤ M.maxUint := by
  obtain ⟨-,rfl⟩ := openPartition_eq_ok hp
  exact ⟨fits_of_laidOut hg.start,fun h => laidOut_of_fits hg.start h.1 h.2⟩

theorem openPartition_laidOut_threeSlots :
    (⟨1,20,[6,0,5]⟩ : Geometry).LaidOut (layout smallMachine 1 [6,0,5]) := by
  refine (openPartition_laidOut_iff (M := smallMachine) ⟨1,20,[6,0,5]⟩ ⟨by decide,by decide,by decide⟩
    (Device.zeros smallMachine 21) ⟨_,_⟩ rfl).mpr ⟨by decide,fun k l hl _ => ?_⟩
  exact (Nat.add_le_add_left (sum_take_le_sum _ k) 1).trans (by decide)

/-- Three slots whose lengths add up to 5 modulo 2^32: the geometry of ten blocks is
accepted, and the third slot lies on the blocks of the first. -/
def overflowing : Geometry := ⟨0,10,[2^31,2^31,5]⟩

theorem overflowing_geometry_accepted : overflowing.Representable smallMachine ∧
    ∃ p, openPartition (Device.zeros smallMachine 10) overflowing = .ok p ∧
      p.slots[0]? = some ⟨0,2^31,none⟩ ∧ p.slots[2]? = some ⟨0,5,none⟩ ∧ ¬ overflowing.LaidOut p.slots := by
  have hv : overflowing.validate smallMachine = .ok () := by decide +kernel
  have hfirst : (layout smallMachine 0 [2^31,2^31,5])[0]? = some ⟨0,2^31,none⟩ := by decide +kernel
  have hthird : (layout smallMachine 0 [2^31,2^31,5])[2]? = some ⟨0,5,none⟩ := by decide +kernel
  refine ⟨⟨by decide,by decide,by decide⟩,⟨Device.zeros smallMachine 10,layout smallMachine 0 [2^31,2^31,5]⟩,
    ?_,hfirst,hthird,fun h => ?_⟩
  · rw [openPartition,hv,Outcome.map_ok]
    rfl
  · exact Set.disjoint_left.mp (h.disjoint 0 2 _ _ (by decide) hfirst hthird)
      ⟨le_rfl,by decide⟩ ⟨le_rfl,by decide⟩

end ArmoredWitness.Slots
