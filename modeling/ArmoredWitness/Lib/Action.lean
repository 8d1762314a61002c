import ArmoredWitness.Lib.Outcome

/-! Functions on a state in the style of Go: a call changes the state and returns
an outcome, and what a failing call has changed by then stays changed. The rules
are those of a program logic with one postcondition for the calls that return a
value and another for those that do not. -/
namespace ArmoredWitness.Lib

def Action (σ ε α : Type) := σ → σ × Outcome ε α

namespace Action
variable {σ ε δ α β : Type}

/-- Go on with the value of a call, unless it failed. -/
def next (r : σ × Outcome ε α) (f : α → Action σ ε β) : σ × Outcome ε β :=
  match r with
  | (s,.ok a) => f a s
  | (s,.error e) => (s,.error e)
  | (s,.panic p) => (s,.panic p)

instance : Monad (Action σ ε) where
  pure a := fun s => (s,.ok a)
  bind x f := fun s => next (x s) f

def lift (x : Outcome ε α) : Action σ ε α := fun s => (s,x)

def fail (e : ε) : Action σ ε α := lift (.error e)

def get : Action σ ε σ := fun s => (s,.ok s)

def modify (f : σ → σ) : Action σ ε Unit := fun s => (f s,.ok ())

def mapError (f : ε → δ) (x : Action σ ε α) : Action σ δ α := fun s => ((x s).1,(x s).2.mapError f)

section Run
variable (s : σ)

@[simp] theorem next_ok (a : α) (f : α → Action σ ε β) : next (s,.ok a) f = f a s := rfl
@[simp] theorem next_error (e : ε) (f : α → Action σ ε β) : next (s,.error e) f = (s,.error e) := rfl
@[simp] theorem next_panic (p : Panic) (f : α → Action σ ε β) : next (s,.panic p) f = (s,.panic p) := rfl
@[simp] theorem pure_run (a : α) : (pure a : Action σ ε α) s = (s,.ok a) := rfl
@[simp] theorem bind_run (x : Action σ ε α) (f : α → Action σ ε β) : (x >>= f) s = next (x s) f := rfl
@[simp] theorem lift_run (x : Outcome ε α) : (lift x : Action σ ε α) s = (s,x) := rfl
@[simp] theorem fail_run (e : ε) : (fail e : Action σ ε α) s = (s,.error e) := rfl
@[simp] theorem get_run : (get : Action σ ε σ) s = (s,.ok s) := rfl
@[simp] theorem modify_run (f : σ → σ) : (modify f : Action σ ε Unit) s = (f s,.ok ()) := rfl
@[simp] theorem mapError_run (f : ε → δ) (x : Action σ ε α) :
    mapError f x s = ((x s).1,(x s).2.mapError f) := rfl

end Run

/-- A sequence of calls that returns a value. -/
theorem next_eq_ok {r : σ × Outcome ε α} {f : α → Action σ ε β} {t : σ} {b : β} (h : next r f = (t,.ok b)) :
    ∃ s a, r = (s,.ok a) ∧ f a s = (t,.ok b) := by
  obtain ⟨s,x⟩ := r
  cases x with
  | ok a => exact ⟨s,a,rfl,h⟩
  | error e => cases h
  | panic p => cases h

instance : LawfulMonad (Action σ ε) := by
  refine .mk' _ (fun x => ?_) (fun _ _ => rfl) fun x f g => ?_
  · funext s
    change next (x s) (fun a => pure a) = x s
    cases x s with
    | mk t r => cases r <;> rfl
  · funext s
    change next (next (x s) f) g = next (x s) fun a => f a >>= g
    cases x s with
    | mk t r => cases r <;> rfl

/-- Started in a state of `P`, the action returns a value with `Q`, or fails in a
state of `R`. -/
def Spec (P : σ → Prop) (x : Action σ ε α) (Q : α → σ → Prop) (R : σ → Prop) : Prop :=
  ∀ s, P s →
    match x s with
    | (t,.ok a) => Q a t
    | (t,_) => R t

namespace Spec
variable {P R : σ → Prop} {Q : α → σ → Prop} {x : Action σ ε α}

theorem pure {a : α} (h : ∀ s, P s → Q a s) : Spec P (Pure.pure a : Action σ ε α) Q R := h

theorem fail {e : ε} (h : ∀ s, P s → R s) : Spec P (Action.fail e : Action σ ε α) Q R := h

theorem lift {y : Outcome ε α} (hQ : ∀ s a, P s → y = .ok a → Q a s) (hR : ∀ s, P s → R s) :
    Spec P (Action.lift y) Q R := by
  intro s hs
  cases y with
  | ok a => exact hQ s a hs rfl
  | error e => exact hR s hs
  | panic p => exact hR s hs

theorem bind {f : α → Action σ ε β} {Q' : β → σ → Prop} (hx : Spec P x Q R)
    (hf : ∀ a, Spec (Q a) (f a) Q' R) : Spec P (x >>= f) Q' R := by
  intro s hs
  have h := hx s hs
  rw [bind_run]
  cases hr : x s with
  | mk t r =>
    rw [hr] at h
    cases r with
    | ok a => exact hf a t h
    | error e => exact h
    | panic p => exact h

/-- A condition that does not mention the state. -/
theorem mono {Q' : α → σ → Prop} {R' : σ → Prop} (h : Spec P x Q R) (hQ : ∀ a s, Q a s → Q' a s)
    (hR : ∀ s, R s → R' s) : Spec P x Q' R' := by
  intro s hs
  have hx := h s hs
  split at hx
  · exact hQ _ _ hx
  · exact hR _ hx

theorem assuming {C : Prop} (h : C → Spec P x Q R) : Spec (fun s => P s ∧ C) x Q R :=
  fun s hs => h hs.2 s hs.1

/-- What holds however the action ends. -/
theorem state {S : σ → Prop} (h : Spec P x (fun _ => S) S) {s : σ} (hs : P s) : S (x s).1 := by
  have hx := h s hs
  split at hx
  · rename_i heq
    rwa [heq]
  · rename_i heq
    rwa [heq]

end Spec
end Action
end ArmoredWitness.Lib
