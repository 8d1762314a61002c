import Mathlib.Data.List.Induction
import Mathlib.Tactic.Common

/-! Trails: lists of moves, each of which goes from one place to another. A trail is linked
if every move starts where the one before it ended. -/
namespace ArmoredWitness.Lib.Trail

variable {ρ α : Type*} (src tgt : ρ → α) (a : α)

/-- Where a trail that starts at `a` ends. -/
def last (rs : List ρ) : α := (rs.getLast?.map tgt).getD a

def Linked (rs : List ρ) : Prop := ∀ pre r post, rs = pre ++ r::post → src r = last tgt a pre

@[simp] lemma last_nil : last tgt a [] = a := rfl

@[simp] lemma last_snoc (rs : List ρ) (r : ρ) : last tgt a (rs ++ [r]) = tgt r := by
  simp [last]

lemma linked_nil : Linked src tgt a [] := by
  intro pre r post h
  simp at h

variable {src tgt a}

lemma Linked.snoc {rs : List ρ} {r : ρ} (h : Linked src tgt a rs) (hr : src r = last tgt a rs) :
    Linked src tgt a (rs ++ [r]) := by
  intro pre r' post heq
  induction post using List.reverseRecOn with
  | nil =>
    obtain ⟨rfl,hcons⟩ := List.append_inj' heq rfl
    cases hcons
    exact hr
  | append_singleton post r'' _ =>
    have heq' : rs ++ [r] = (pre ++ r'::post) ++ [r''] := by simpa using heq
    obtain ⟨hrs,-⟩ := List.append_inj' heq' rfl
    exact h pre r' post hrs

end ArmoredWitness.Lib.Trail
