import Mathlib.Data.List.GetD
import Mathlib.Data.Vector.Basic
import Mathlib.Tactic.Ring

/-! Block stores: addressed sequences of fixed-size blocks, read as one long
sequence of cells. A list is cut into whole blocks, the last one filled up with
zeros, and any number of its leading blocks can be stored at an address. -/
namespace ArmoredWitness.Lib.Blocks

variable {α : Type*} [Zero α] {B : ℕ}

abbrev Store (α : Type*) (B : ℕ) := ℕ → List.Vector α B

/-- The number of whole blocks that `n` cells take. -/
def count (B n : ℕ) : ℕ := (n+B-1)/B

/-- Block `i` of a list that is filled up with zeros. -/
def cut (B : ℕ) (l : List α) (i : ℕ) : List.Vector α B :=
  ⟨(List.range B).map fun j => l.getD (i*B+j) 0,by simp⟩

/-- The first `k` blocks of `l`, stored from address `n` on. -/
def store (s : Store α B) (n k : ℕ) (l : List α) : Store α B :=
  fun q => if n ≤ q ∧ q < n+k then cut B l (q-n) else s q

def cell (s : Store α B) (i : ℕ) : α := (s (i/B)).toList.getD (i % B) 0

def cells (s : Store α B) (i n : ℕ) : List α := (List.range n).map fun j => cell s (i+j)

section Count
variable (hB : 0 < B)
include hB

theorem count_le_iff (n m : ℕ) : count B n ≤ m ↔ n ≤ m*B := by
  rw [count,Nat.div_le_iff_le_mul_add_pred hB,Nat.mul_comm]
  omega

theorem lt_count_iff (n m : ℕ) : m < count B n ↔ m*B < n := by
  have h := count_le_iff hB n m
  omega

theorem count_pos (n : ℕ) (hn : 0 < n) : 0 < count B n := by
  rw [lt_count_iff hB]
  omega

theorem count_mono {n m : ℕ} (h : n ≤ m) : count B n ≤ count B m := by
  rw [count_le_iff hB]
  exact h.trans ((count_le_iff hB m _).mp le_rfl)

theorem div_lt_count {i n : ℕ} (h : i < n) : i/B < count B n := by
  rw [lt_count_iff hB]
  exact (Nat.div_mul_le_self i B).trans_lt h

theorem le_count_mul (n : ℕ) : n ≤ count B n*B := (count_le_iff hB n _).mp le_rfl

@[simp] theorem count_mul (m : ℕ) : count B (m*B) = m := by
  apply le_antisymm
  · exact (count_le_iff hB _ _).mpr le_rfl
  · exact Nat.le_of_mul_le_mul_right (le_count_mul hB (m*B)) hB

/-- Rounding up the last position read is the count of the blocks read. -/
theorem pred_div_succ (q n : ℕ) (hn : 0 < n) : (q*B+n-1)/B+1 = q+count B n := by
  have h : q*B+n-1 = B*q+(n-1) := by rw [Nat.mul_comm]; omega
  have hc : count B n = (n-1)/B+1 := by
    rw [count,show n+B-1 = (n-1)+B by omega,Nat.add_div_right _ hB]
  rw [h,Nat.mul_add_div hB,hc]
  omega

/-- Positions of one block share their block address. -/
theorem add_div_same {i k : ℕ} (h : i % B+k < B) : (i+k)/B = i/B := by
  have hi : i+k = B*(i/B)+(i % B+k) := by rw [← Nat.add_assoc,Nat.div_add_mod]
  rw [hi,Nat.mul_add_div hB,Nat.div_eq_of_lt h,Nat.add_zero]

end Count

lemma cut_getD (l : List α) (i j : ℕ) (hj : j < B) :
    (cut B l i).toList.getD j 0 = l.getD (i*B+j) 0 := by
  simp [cut,List.Vector.toList,List.getD,hj]

/-- A block that ends within the first of two lists. -/
lemma cut_append (l l' : List α) (i : ℕ) (h : (i+1)*B ≤ l.length) : cut B (l ++ l') i = cut B l i := by
  apply Subtype.ext
  apply List.map_congr_left
  intro j hj
  have hj' := List.mem_range.mp hj
  rw [Nat.add_mul] at h
  exact List.getD_append _ _ _ _ (by omega)

/-- The blocks of what is left when whole blocks are dropped. -/
lemma cut_drop (l : List α) (k i : ℕ) : cut B (l.drop (k*B)) i = cut B l (k+i) := by
  apply Subtype.ext
  apply List.map_congr_left
  intro j _
  simp only [List.getD,List.getElem?_drop]
  rw [Nat.add_mul,Nat.add_assoc]

/-- Filling up with zeros changes no block. -/
lemma cut_padded (l : List α) (m i : ℕ) : cut B (l ++ List.replicate m 0) i = cut B l i := by
  apply Subtype.ext
  apply List.map_congr_left
  intro j _
  simp only [List.getD,List.getElem?_append,List.getElem?_replicate]
  split_ifs with h h'
  · rfl
  · rw [List.getElem?_eq_none (Nat.le_of_not_lt h)]
    rfl
  · rw [List.getElem?_eq_none (Nat.le_of_not_lt h)]

@[simp] theorem cells_length (s : Store α B) (i n : ℕ) : (cells s i n).length = n := by
  simp [cells]

lemma cells_getD (s : Store α B) (i n j : ℕ) (hj : j < n) (z : α) :
    (cells s i n).getD j z = cell s (i+j) := by
  simp [cells,List.getD,hj]

theorem cells_append (s : Store α B) (i n m : ℕ) :
    cells s i n ++ cells s (i+n) m = cells s i (n+m) := by
  simp [cells,List.range_add,Function.comp_def,Nat.add_assoc]

lemma cells_take (s : Store α B) (i n m : ℕ) (h : m ≤ n) :
    (cells s i n).take m = cells s i m := by
  obtain ⟨d,rfl⟩ := Nat.exists_eq_add_of_le h
  rw [← cells_append,List.take_left' (cells_length _ _ _)]

lemma cells_drop_take (s : Store α B) (i n x m : ℕ) :
    ((cells s i n).drop x).take m = cells s (i+x) (min m (n-x)) := by
  apply List.ext_getElem
  · simp
  · intro j hj hj'
    simp [cells,Nat.add_assoc]

theorem store_inside (s : Store α B) {n k q : ℕ} (l : List α) (h : n ≤ q) (h' : q < n+k) :
    store s n k l q = cut B l (q-n) := by simp [store,h,h']

theorem store_outside (s : Store α B) {n k q : ℕ} (l : List α) (h : q < n ∨ n+k ≤ q) :
    store s n k l q = s q := by
  have hn : ¬ (n ≤ q ∧ q < n+k) := by omega
  simp [store,hn]

@[simp] theorem store_zero (s : Store α B) (n : ℕ) (l : List α) : store s n 0 l = s := by
  funext q
  exact store_outside s l (by omega)

lemma store_congr (s : Store α B) {n k : ℕ} {l l' : List α} (h : ∀ i < k, cut B l i = cut B l' i) :
    store s n k l = store s n k l' := by
  funext q
  by_cases hq : n ≤ q ∧ q < n+k
  · rw [store_inside s l hq.1 hq.2,store_inside s l' hq.1 hq.2,h _ (by omega)]
  · rw [store_outside s l (by omega),store_outside s l' (by omega)]

/-- Storing goes on where it left off. -/
theorem store_append (s : Store α B) (n k m : ℕ) (l : List α) :
    store (store s n k l) (n+k) m (l.drop (k*B)) = store s n (k+m) l := by
  funext q
  by_cases hm : n+k ≤ q ∧ q < n+k+m
  · rw [store_inside _ _ hm.1 hm.2,store_inside s l (by omega) (by omega),cut_drop]
    congr 1
    omega
  · rw [store_outside _ _ (by omega)]
    by_cases hk : n ≤ q ∧ q < n+k
    · rw [store_inside s l hk.1 hk.2,store_inside s l (by omega) (by omega)]
    · rw [store_outside s l (by omega),store_outside s l (by omega)]

section Cells
variable (hB : 0 < B)
include hB

theorem cell_block (s : Store α B) (q x : ℕ) :
    cell s (q*B+x) = (s (q+x/B)).toList.getD (x % B) 0 := by
  rw [cell,Nat.mul_comm q B,Nat.mul_add_div hB,Nat.mul_add_mod]

/-- Cells that lie within one block. -/
theorem cells_within (s : Store α B) (i n : ℕ) (h : i % B+n ≤ B) :
    cells s i n = ((s (i/B)).toList.drop (i % B)).take n := by
  apply List.ext_getElem
  · simp only [cells_length,List.length_take,List.length_drop,List.Vector.toList_length]
    omega
  · intro j hj hj'
    have hjn : j < n := by simpa using hj
    have hi : i = i/B*B+i % B := (Nat.div_add_mod' i B).symm
    have hd : (i % B+j)/B = 0 := Nat.div_eq_of_lt (by omega)
    have hm : (i % B+j) % B = i % B+j := Nat.mod_eq_of_lt (by omega)
    have hc : cell s (i+j) = (s (i/B)).toList.getD (i % B+j) 0 := by
      conv_lhs => rw [hi,Nat.add_assoc]
      rw [cell_block hB,hd,hm,Nat.add_zero]
    simp only [cells,List.getElem_map,List.getElem_range,hc,List.getElem_take,List.getElem_drop]
    apply List.getD_eq_getElem

/-- Cells depend only on the blocks that hold them. -/
theorem cells_congr {s t : Store α B} (q i n : ℕ)
    (h : ∀ p, q ≤ p → p < q+count B (i+n) → s p = t p) :
    cells s (q*B+i) n = cells t (q*B+i) n := by
  apply List.map_congr_left
  intro x hx
  have hlt := div_lt_count hB (Nat.add_lt_add_left (List.mem_range.mp hx) i)
  rw [Nat.add_assoc,cell_block hB,cell_block hB,
    h _ (Nat.le_add_right _ _) (Nat.add_lt_add_left hlt _)]

lemma cell_store (s : Store α B) (n k x : ℕ) (l : List α) (hx : x/B < k) :
    cell (store s n k l) (n*B+x) = l.getD x 0 := by
  have hm : x % B < B := Nat.mod_lt _ hB
  rw [cell_block hB,store_inside s l (Nat.le_add_right _ _) (Nat.add_lt_add_left hx _),
    cut_getD _ _ _ hm,Nat.add_sub_cancel_left]
  congr 1
  rw [Nat.mul_comm]
  exact Nat.div_add_mod x B

/-- What is stored is read back. -/
theorem cells_store (s : Store α B) (n k i m : ℕ) (l : List α) (hk : i+m ≤ k*B)
    (hl : i+m ≤ l.length) : cells (store s n k l) (n*B+i) m = (l.drop i).take m := by
  apply List.ext_getElem
  · simp only [cells_length,List.length_take,List.length_drop]
    omega
  · intro j hj hj'
    have hjm : j < m := by simpa using hj
    have hd : (i+j)/B < k := (Nat.div_lt_iff_lt_mul hB).mpr (by omega)
    simp only [cells,List.getElem_map,List.getElem_range,Nat.add_assoc,
      cell_store hB _ _ _ _ _ hd,List.getElem_take,List.getElem_drop]
    exact List.getD_eq_getElem _ _ (by omega)

end Cells
end ArmoredWitness.Lib.Blocks
