import Mathlib.Data.Nat.Notation
import Mathlib.Tactic.Common

/-! While loops with their own termination measure. A loop that can be built
terminates, so its result is a value and not an option; the rules below move
between the loop, its single iterations and the states it passes through. -/
namespace ArmoredWitness.Lib

/-- What one iteration does: go round again from a new state, or leave. -/
inductive Turn (σ ρ : Type*)
  | again (s : σ)
  | leave (r : ρ)

structure Loop (σ ρ : Type*) where
  body : σ → Turn σ ρ
  measure : σ → ℕ
  decreases : ∀ {s t}, body s = .again t → measure t < measure s

namespace Loop
variable {σ ρ τ υ : Type*} (L : Loop σ ρ)

/-- The measure is spent structurally, so that the loop computes in the kernel. -/
def go : (n : ℕ) → (s : σ) → L.measure s < n → ρ
  | 0, _, h => absurd h (Nat.not_lt_zero _)
  | n+1, s, h =>
    match hb : L.body s with
    | .again t => go n t (Nat.lt_of_lt_of_le (L.decreases hb) (Nat.le_of_lt_succ h))
    | .leave r => r

def exec (s : σ) : ρ := L.go (L.measure s+1) s (Nat.lt_succ_self _)

lemma go_again (n : ℕ) (s t : σ) (h : L.measure s < n+1) (hb : L.body s = .again t) :
    L.go (n+1) s h =
      L.go n t (Nat.lt_of_lt_of_le (L.decreases hb) (Nat.le_of_lt_succ h)) := by
  rw [go]
  split
  · rename_i u hu
    have he : t = u := by simpa [hb] using hu
    subst he
    rfl
  · rename_i r hr
    simp [hb] at hr

lemma go_leave (n : ℕ) (s : σ) (r : ρ) (h : L.measure s < n+1) (hb : L.body s = .leave r) :
    L.go (n+1) s h = r := by
  rw [go]
  split
  · rename_i u hu
    simp [hb] at hu
  · rename_i r' hr
    simpa [hb] using hr.symm

/-- Any amount of fuel above the measure gives the same result. -/
lemma go_congr (n m : ℕ) (s : σ) (h : L.measure s < n) (h' : L.measure s < m) :
    L.go n s h = L.go m s h' := by
  induction n generalizing s m with
  | zero => exact absurd h (Nat.not_lt_zero _)
  | succ n ih =>
    cases m with
    | zero => exact absurd h' (Nat.not_lt_zero _)
    | succ m =>
      cases hb : L.body s with
      | leave r => rw [L.go_leave _ _ _ _ hb,L.go_leave _ _ _ _ hb]
      | again t =>
        rw [L.go_again _ _ _ _ hb,L.go_again _ _ _ _ hb]
        exact ih m t _ _

theorem exec_again {s t : σ} (hb : L.body s = .again t) : L.exec s = L.exec t := by
  rw [exec,L.go_again _ _ _ _ hb]
  exact L.go_congr _ _ _ _ _

theorem exec_leave {s : σ} {r : ρ} (hb : L.body s = .leave r) : L.exec s = r := by
  rw [exec,L.go_leave _ _ _ _ hb]

/-- The states a loop passes through. -/
inductive Reaches : σ → σ → Prop
  | refl (s) : Reaches s s
  | tail {s t u} (h : Reaches s t) (hb : L.body t = .again u) : Reaches s u

namespace Reaches
variable {L}

theorem single {s t : σ} (hb : L.body s = .again t) : L.Reaches s t := .tail (.refl s) hb

theorem trans {s t u : σ} (h : L.Reaches s t) (h' : L.Reaches t u) : L.Reaches s u := by
  induction h' with
  | refl => exact h
  | tail _ hb ih => exact .tail ih hb

theorem exec_eq {s t : σ} (h : L.Reaches s t) : L.exec s = L.exec t := by
  induction h with
  | refl => rfl
  | tail _ hb ih => exact ih.trans (L.exec_again hb)

/-- A property that one iteration keeps holds of every state passed through. -/
theorem keeps {P : σ → Prop} (hstep : ∀ s t, P s → L.body s = .again t → P t)
    {s t : σ} (h : L.Reaches s t) (hs : P s) : P t := by
  induction h with
  | refl => exact hs
  | tail _ hb ih => exact hstep _ _ ih hb

end Reaches

/-- Every loop leaves, from some state it passes through. -/
theorem exists_leave (s : σ) : ∃ t, L.Reaches s t ∧ L.body t = .leave (L.exec s) := by
  induction h : L.measure s using Nat.strongRecOn generalizing s with
  | ind n ih =>
    cases hb : L.body s with
    | leave r => exact ⟨s,.refl s,by rw [hb,L.exec_leave hb]⟩
    | again t =>
      obtain ⟨u,hu,hl⟩ := ih (L.measure t) (h ▸ L.decreases hb) t rfl
      exact ⟨u,(Reaches.single hb).trans hu,by rw [hl,L.exec_again hb]⟩

/-- The invariant rule: what the iterations keep and what leaving then gives. -/
theorem exec_rule {P : σ → Prop} {Q : ρ → Prop}
    (hstep : ∀ s t, P s → L.body s = .again t → P t)
    (hdone : ∀ s r, P s → L.body s = .leave r → Q r) {s : σ} (hs : P s) : Q (L.exec s) := by
  obtain ⟨t,ht,hl⟩ := L.exists_leave s
  exact hdone t _ (ht.keeps hstep hs) hl

/-- Two loops whose iterations correspond have corresponding results. -/
theorem exec_simulation (L' : Loop τ υ) (R : σ → τ → Prop) (Q : ρ → υ → Prop)
    (hturn : ∀ s t, R s t →
      (∃ s' t', L.body s = .again s' ∧ L'.body t = .again t' ∧ R s' t') ∨
      (∃ r r', L.body s = .leave r ∧ L'.body t = .leave r' ∧ Q r r'))
    {s : σ} {t : τ} (h : R s t) : Q (L.exec s) (L'.exec t) := by
  induction hm : L.measure s using Nat.strongRecOn generalizing s t with
  | ind n ih =>
    rcases hturn s t h with ⟨s',t',hs,ht,h'⟩ | ⟨r,r',hs,ht,hq⟩
    · rw [L.exec_again hs,L'.exec_again ht]
      exact ih (L.measure s') (hm ▸ L.decreases hs) h' rfl
    · rwa [L.exec_leave hs,L'.exec_leave ht]

/-- Two loops with the same iterations in the states that one of them keeps to have the
same result. -/
theorem exec_congr (L' : Loop σ ρ) {P : σ → Prop} (hkeep : ∀ s t, P s → L.body s = .again t → P t)
    (hbody : ∀ s, P s → L'.body s = L.body s) {s : σ} (hs : P s) : L'.exec s = L.exec s := by
  apply L'.exec_simulation L (fun s t => s = t ∧ P s) (fun x y => x = y)
  · rintro s _ ⟨rfl,hs⟩
    cases hb : L.body s with
    | leave x => exact .inr ⟨x,x,(hbody s hs).trans hb,rfl,rfl⟩
    | again t => exact .inl ⟨t,t,(hbody s hs).trans hb,rfl,rfl,hkeep s t hs hb⟩
  · exact ⟨rfl,hs⟩

end Loop
end ArmoredWitness.Lib
