import ArmoredWitness.Lib.Outcome
import Mathlib.Data.List.Induction
import Mathlib.Data.Option.Basic
import Mathlib.Tactic.Common

/-! Systems that take labelled steps. The label says who moves and what the outside
world answers, so that a step is a function; a step that is not enabled gives
nothing. A run is a list of labels. -/
namespace ArmoredWitness.Lib.Transition

variable {σ κ : Type*} (step : σ → κ → Option σ)

def run (s : σ) : List κ → Option σ
  | [] => some s
  | k::ks => (step s k).bind fun t => run t ks

/-- Every step of a run is taken in a state where it meets a condition. -/
def Along (P : σ → κ → Prop) (s : σ) : List κ → Prop
  | [] => True
  | k::ks => P s k ∧ ∀ t, step s k = some t → Along P t ks

variable {step}

/-- What every step that meets the condition keeps holds at the end of a run. -/
theorem run_keeps {P : σ → κ → Prop} {I : σ → Prop}
    (hstep : ∀ s k t, I s → P s k → step s k = some t → I t) {ks : List κ} {s t : σ}
    (hs : I s) (hA : Along step P s ks) (hr : run step s ks = some t) : I t := by
  induction ks generalizing s with
  | nil =>
    cases hr
    exact hs
  | cons k ks ih =>
    obtain ⟨u,hu,ht⟩ := Option.bind_eq_some_iff.mp hr
    exact ih (hstep s k u hs hA.1 hu) (hA.2 u hu) ht

lemma along_trivial (s : σ) (ks : List κ) : Along step (fun _ _ => True) s ks := by
  induction ks generalizing s with
  | nil => trivial
  | cons k ks ih => exact ⟨trivial,fun t _ => ih t⟩

/-- Labels that meet a condition wherever an invariant holds, and keep the invariant. -/
theorem along_of {P : σ → κ → Prop} {I : σ → Prop} {Q : κ → Prop} (hP : ∀ s k, I s → Q k → P s k)
    (hI : ∀ s k t, I s → Q k → step s k = some t → I t) {ks : List κ} {s : σ} (hs : I s)
    (hks : ∀ k ∈ ks, Q k) : Along step P s ks ∧ ∀ t, run step s ks = some t → I t := by
  induction ks generalizing s with
  | nil =>
    refine ⟨trivial,?_⟩
    rintro t ⟨⟩
    exact hs
  | cons k ks ih =>
    obtain ⟨hk,hks⟩ := List.forall_mem_cons.mp hks
    refine ⟨⟨hP s k hs hk,fun t ht => (ih (hI s k t hs hk ht) hks).1⟩,?_⟩
    intro t hr
    obtain ⟨u,hu,ht⟩ := Option.bind_eq_some_iff.mp hr
    exact (ih (hI s k u hs hk hu) hks).2 t ht

/-- The invariant rule: what every step keeps holds in every state that is reached. -/
theorem run_invariant {I : σ → Prop} (hstep : ∀ s k t, I s → step s k = some t → I t) {ks : List κ}
    {s t : σ} (hs : I s) (hr : run step s ks = some t) : I t :=
  run_keeps (fun s k t hs _ hk => hstep s k t hs hk) hs (along_trivial s ks) hr

lemma run_append (s : σ) (ks ks' : List κ) :
    run step s (ks ++ ks') = (run step s ks).bind fun t => run step t ks' := by
  induction ks generalizing s with
  | nil => rfl
  | cons k ks ih =>
    rw [List.cons_append,run,run,Option.bind_assoc]
    congr 1
    funext t
    exact ih t

lemma run_trans {s t u : σ} {ks ks' : List κ} (h : run step s ks = some t) (h' : run step t ks' = some u) :
    run step s (ks ++ ks') = some u := by
  rw [run_append,h,Option.bind_some,h']

lemma run_single (s : σ) (k : κ) : run step s [k] = step s k := by
  rw [run]
  cases step s k <;> rfl

section Parts
variable {P : σ → κ → Prop} {s t : σ} {a b : List κ}

lemma Along.tail {k : κ} (h : Along step P s (k::a)) (hk : step s k = some t) : Along step P t a := h.2 t hk

lemma Along.left (h : Along step P s (a ++ b)) : Along step P s a := by
  induction a generalizing s with
  | nil => trivial
  | cons k a ih => exact ⟨h.1,fun t hk => ih (h.2 t hk)⟩

lemma Along.right (h : Along step P s (a ++ b)) (hr : run step s a = some t) : Along step P t b := by
  induction a generalizing s with
  | nil =>
    cases hr
    exact h
  | cons k a ih =>
    obtain ⟨u,hu,ht⟩ := Option.bind_eq_some_iff.mp hr
    exact ih (h.2 u hu) ht

lemma Along.append (h : Along step P s a) (hr : run step s a = some t) (hb : Along step P t b) :
    Along step P s (a ++ b) := by
  induction a generalizing s with
  | nil =>
    cases hr
    exact hb
  | cons k a ih =>
    refine ⟨h.1,fun u hu => ih (h.2 u hu) ?_⟩
    rwa [run,hu,Option.bind_some] at hr

end Parts

instance decidableAlong (P : σ → κ → Prop) [∀ s k, Decidable (P s k)] :
    (ks : List κ) → (s : σ) → Decidable (Along step P s ks)
  | [], _ => .isTrue trivial
  | k::ks, s =>
    have := fun t => decidableAlong P ks t
    inferInstanceAs (Decidable (P s k ∧ ∀ t ∈ step s k, Along step P t ks))

/-- The invariant rule for what depends on the labels so far. -/
theorem run_history {I : List κ → σ → Prop}
    (hstep : ∀ ks s k t, I ks s → step s k = some t → I (ks ++ [k]) t) {ks : List κ} {s t : σ}
    (hs : I [] s) (hr : run step s ks = some t) : I ks t := by
  induction ks using List.reverseRecOn generalizing t with
  | nil =>
    cases hr
    exact hs
  | append_singleton ks k ih =>
    rw [run_append] at hr
    obtain ⟨u,hu,ht⟩ := Option.bind_eq_some_iff.mp hr
    obtain ⟨v,hv,hvt⟩ := Option.bind_eq_some_iff.mp ht
    cases hvt
    exact hstep ks u k t (ih hu) hv

/-- Labels that change nothing wherever they are taken can be left out of a run. -/
theorem run_filter {I : σ → Prop} {p : κ → Bool} (hkeep : ∀ s k t, I s → step s k = some t → I t)
    (hidle : ∀ s k t, I s → p k = false → step s k = some t → t = s) {ks : List κ} {s t : σ} (hs : I s)
    (hr : run step s ks = some t) : run step s (ks.filter p) = some t := by
  induction ks generalizing s with
  | nil => exact hr
  | cons k ks ih =>
    obtain ⟨u,hu,ht⟩ := Option.bind_eq_some_iff.mp hr
    have hrest := ih (hkeep s k u hs hu) ht
    cases hk : p k with
    | false =>
      rw [List.filter_cons_of_neg (by simp [hk])]
      rwa [hidle s k u hs hk hu] at hrest
    | true =>
      rw [List.filter_cons_of_pos hk,run,hu,Option.bind_some]
      exact hrest

section Outcomes
variable {ε : Type*}

/-- Steps that may fail, one after the other until one does. -/
def runOutcome (step : σ → κ → Outcome ε σ) (s : σ) : List κ → Outcome ε σ
  | [] => .ok s
  | k::ks => (step s k).bind fun t => runOutcome step t ks

lemma toOption_runOutcome (step : σ → κ → Outcome ε σ) (s : σ) (ks : List κ) :
    (runOutcome step s ks).toOption = run (fun s k => (step s k).toOption) s ks := by
  induction ks generalizing s with
  | nil => rfl
  | cons k ks ih =>
    rw [runOutcome,run,Outcome.toOption_bind]
    congr 1
    funext t
    exact ih t

end Outcomes

end ArmoredWitness.Lib.Transition
