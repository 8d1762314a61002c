import Mathlib.Data.List.Basic
import Mathlib.Tactic.Ring

/-! Lists cut into chunks of one size, of which the last may be shorter. -/
namespace ArmoredWitness.Lib.Chunks

variable {α : Type*} (c : ℕ) (l : List α)

/-- Chunk `i` of a list. -/
def chunk (i : ℕ) : List α := (l.drop (i*c)).take c

lemma chunk_length (i : ℕ) : (chunk c l i).length = min c (l.length-i*c) := by
  rw [chunk,List.length_take,List.length_drop]

/-- The leading chunks make up the beginning of the list. -/
theorem flatten_chunks (k : ℕ) : ((List.range k).map (chunk c l)).flatten = l.take (k*c) := by
  induction k with
  | zero => simp
  | succ k ih =>
    rw [List.range_succ,List.map_append,List.flatten_append,ih,Nat.succ_mul,List.take_add]
    simp [chunk]

end ArmoredWitness.Lib.Chunks
