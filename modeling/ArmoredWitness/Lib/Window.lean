import Mathlib.Data.List.Basic
import ArmoredWitness.Lib.Outcome

/-! Windows of a list, as the slices of Go are windows of an array: reading one, and
overwriting one in place. The checked forms panic where Go does. -/
namespace ArmoredWitness.Lib.Window

variable {α : Type*} {ε : Type*}

/-- The `n` cells from `i` on. -/
def read (h : List α) (i n : ℕ) : List α := (h.drop i).take n

/-- The list with `bs` in the cells from `i` on. -/
def write (h : List α) (i : ℕ) (bs : List α) : List α := h.take i ++ bs ++ h.drop (i+bs.length)

/-- `h[i]` -/
def index (h : List α) (i : ℕ) : Outcome ε α :=
  match h[i]? with
  | some a => .ok a
  | none => .panic (.indexOutOfRange i h.length)

/-- `h[i] = a` -/
def put (h : List α) (i : ℕ) (a : α) : Outcome ε (List α) :=
  if i < h.length then .ok (write h i [a]) else .panic (.indexOutOfRange i h.length)

/-- `h[i:j]` -/
def slice (h : List α) (i j : ℕ) : Outcome ε (List α) :=
  if j ≤ h.length then .ok (read h i (j-i)) else .panic (.indexOutOfRange j h.length)

/-- `copy(h[i:j], bs)` -/
def copy (h : List α) (i j : ℕ) (bs : List α) : Outcome ε (List α) :=
  if j ≤ h.length then .ok (write h i (bs.take (j-i))) else .panic (.indexOutOfRange j h.length)

section Lengths
variable (h bs : List α)

@[simp] lemma read_length (i n : ℕ) : (read h i n).length = min n (h.length-i) := by
  simp [read]

@[simp] lemma write_nil (i : ℕ) : write h i [] = h := by
  simp [write]

end Lengths

section Checked
variable {h bs : List α} {i j : ℕ}

lemma index_of_lt (hi : i < h.length) : (index h i : Outcome ε α) = .ok (h[i]) := by
  simp [index,hi]

lemma put_of_lt (hi : i < h.length) (a : α) : (put h i a : Outcome ε (List α)) = .ok (h.set i a) := by
  rw [put,if_pos hi,List.set_eq_take_append_cons_drop,if_pos hi]
  simp [write]

lemma slice_of_le (hj : j ≤ h.length) : (slice h i j : Outcome ε (List α)) = .ok (read h i (j-i)) :=
  if_pos hj

end Checked

section Middle
variable (a v c bs : List α)

/-- What is left of `v` after `bs` has been copied over its beginning. -/
def overlay (v bs : List α) : List α := bs.take v.length ++ v.drop bs.length

@[simp] lemma overlay_length : (overlay v bs).length = v.length := by
  simp only [overlay,List.length_append,List.length_take,List.length_drop]
  omega

lemma overlay_of_length {v bs : List α} (h : bs.length = v.length) : overlay v bs = bs := by
  rw [overlay,← h,List.take_length,h,List.drop_length,List.append_nil]

lemma read_middle : read (a ++ (v ++ c)) a.length v.length = v := by
  rw [read,List.drop_left,List.take_left]

lemma write_middle (bs : List α) (h : bs.length ≤ v.length) :
    write (a ++ (v ++ c)) a.length bs = a ++ (bs ++ v.drop bs.length ++ c) := by
  have hdrop : (a ++ (v ++ c)).drop (a.length+bs.length) = v.drop bs.length ++ c := by
    rw [← List.drop_drop,List.drop_left,List.drop_append_of_le_length h]
  rw [write,List.take_left,hdrop,List.append_assoc,List.append_assoc]

lemma index_middle (x : α) : (index (a ++ (x::c)) a.length : Outcome ε α) = .ok x := by
  simp [index]

lemma put_middle (x y : α) : (put (a ++ (x::c)) a.length y : Outcome ε (List α)) = .ok (a ++ (y::c)) := by
  have h := write_middle a [x] c [y] (Nat.le_refl _)
  rw [put,if_pos (by simp)]
  simpa using h

lemma slice_middle : (slice (a ++ (v ++ c)) a.length (a.length+v.length) : Outcome ε (List α)) = .ok v := by
  rw [slice_of_le (by simp),Nat.add_sub_cancel_left,read_middle]

lemma copy_middle : (copy (a ++ (v ++ c)) a.length (a.length+v.length) bs : Outcome ε (List α)) =
    .ok (a ++ (overlay v bs ++ c)) := by
  have hlen : (bs.take v.length).length ≤ v.length := List.length_take_le _ _
  rw [copy,if_pos (by simp),Nat.add_sub_cancel_left,write_middle a v c _ hlen,overlay]
  congr 4
  rw [List.length_take]
  by_cases h : v.length ≤ bs.length
  · rw [Nat.min_eq_left h,List.drop_length,List.drop_of_length_le h]
  · rw [Nat.min_eq_right (by omega)]

end Middle

end ArmoredWitness.Lib.Window
