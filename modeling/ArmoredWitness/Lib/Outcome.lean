import Mathlib.Data.Nat.Notation
import Mathlib.Tactic.Common

/-! Computations in the style of Go: they return a value, return an error, or
stop the goroutine with a run-time panic. The three are kept apart, since a
caller that checks errors still does not see a panic. -/
namespace ArmoredWitness.Lib

/-- The run-time panics the modelled code can raise. -/
inductive Panic
  | makeslice (len : ℕ)
  | nilDereference
  | indexOutOfRange (index len : ℕ)
  deriving DecidableEq, Repr

inductive Outcome (ε α : Type*)
  | ok (a : α)
  | error (e : ε)
  | panic (p : Panic)
  deriving DecidableEq, Repr

namespace Outcome
variable {ε δ α β : Type*}

def bind (x : Outcome ε α) (f : α → Outcome ε β) : Outcome ε β :=
  match x with
  | .ok a => f a
  | .error e => .error e
  | .panic p => .panic p

def map (f : α → β) (x : Outcome ε α) : Outcome ε β := x.bind fun a => .ok (f a)

def isOk : Outcome ε α → Bool
  | .ok _ => true
  | _ => false

/-- The value, if there is one. -/
def toOption : Outcome ε α → Option α
  | .ok a => some a
  | _ => none

/-- Wrap the error of a callee, as `fmt.Errorf("...: %v", err)` does. -/
def mapError (f : ε → δ) (x : Outcome ε α) : Outcome δ α :=
  match x with
  | .ok a => .ok a
  | .error e => .error (f e)
  | .panic p => .panic p

@[simp] theorem bind_ok (a : α) (f : α → Outcome ε β) : (ok a).bind f = f a := rfl
@[simp] theorem bind_error (e : ε) (f : α → Outcome ε β) : (error e).bind f = error e := rfl
@[simp] theorem bind_panic (p : Panic) (f : α → Outcome ε β) : (panic p).bind f = panic p := rfl
@[simp] theorem map_ok (f : α → β) (a : α) : (ok a : Outcome ε α).map f = ok (f a) := rfl
@[simp] theorem map_error (f : α → β) (e : ε) : (error e).map f = error e := rfl
@[simp] theorem map_panic (f : α → β) (p : Panic) : (panic p : Outcome ε α).map f = panic p := rfl
@[simp] theorem mapError_ok (f : ε → δ) (a : α) : (ok a).mapError f = ok a := rfl
@[simp] theorem mapError_error (f : ε → δ) (e : ε) :
    (error e : Outcome ε α).mapError f = error (f e) := rfl
@[simp] theorem mapError_panic (f : ε → δ) (p : Panic) :
    (panic p : Outcome ε α).mapError f = panic p := rfl

@[simp] theorem toOption_ok (a : α) : (ok a : Outcome ε α).toOption = some a := rfl

theorem toOption_eq_some {x : Outcome ε α} {a : α} : x.toOption = some a ↔ x = ok a := by
  cases x <;> simp [toOption]

theorem toOption_bind (x : Outcome ε α) (f : α → Outcome ε β) :
    (x.bind f).toOption = x.toOption.bind fun a => (f a).toOption := by
  cases x <;> rfl

theorem bind_eq_ok {x : Outcome ε α} {f : α → Outcome ε β} {b : β} :
    x.bind f = ok b ↔ ∃ a, x = ok a ∧ f a = ok b := by
  cases x <;> simp

theorem map_eq_ok {x : Outcome ε α} {f : α → β} {b : β} : x.map f = ok b ↔ ∃ a, x = ok a ∧ f a = b := by
  cases x <;> simp

theorem mapError_eq_ok {x : Outcome ε α} {f : ε → δ} {a : α} :
    x.mapError f = ok a ↔ x = ok a := by
  cases x <;> simp

theorem bind_eq_panic {x : Outcome ε α} {f : α → Outcome ε β} {p : Panic} :
    x.bind f = panic p ↔ x = panic p ∨ ∃ a, x = ok a ∧ f a = panic p := by
  cases x <;> simp

theorem mapError_eq_panic {x : Outcome ε α} {f : ε → δ} {p : Panic} :
    x.mapError f = panic p ↔ x = panic p := by
  cases x <;> simp

/-- The first outcome is the second one, unless that is an error of a certain kind. -/
def SameUnless (Bad : ε → Prop) (x y : Outcome ε α) : Prop := x = y ∨ ∃ e, Bad e ∧ y = .error e

namespace SameUnless
variable {Bad : ε → Prop} {x y : Outcome ε α}

theorem refl (x : Outcome ε α) : SameUnless Bad x x := .inl rfl

theorem bind {f g : α → Outcome ε β} (h : SameUnless Bad x y)
    (hf : ∀ a, y = .ok a → SameUnless Bad (f a) (g a)) : SameUnless Bad (x.bind f) (y.bind g) := by
  rcases h with rfl | ⟨e,he,rfl⟩
  · cases x with
    | ok a => exact hf a rfl
    | error e => exact .inl rfl
    | panic p => exact .inl rfl
  · exact .inr ⟨e,he,rfl⟩

theorem mapError {Bad' : δ → Prop} {f : ε → δ} (h : SameUnless Bad x y) (hf : ∀ e, Bad e → Bad' (f e)) :
    SameUnless Bad' (x.mapError f) (y.mapError f) := by
  rcases h with rfl | ⟨e,he,rfl⟩
  · exact .inl rfl
  · exact .inr ⟨f e,hf e he,rfl⟩

theorem eq (h : SameUnless (fun _ => False) x y) : x = y := by
  rcases h with rfl | ⟨e,he,-⟩
  · rfl
  · exact he.elim

end SameUnless
end Outcome
end ArmoredWitness.Lib
