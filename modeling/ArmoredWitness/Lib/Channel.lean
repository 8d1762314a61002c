import Mathlib.Data.Nat.Notation
import Mathlib.Tactic.Common

/-! Channels in the sense of Go: a buffer of bounded capacity that can be closed once. A
send on a closed channel panics, also one that was already waiting for room. -/
namespace ArmoredWitness.Lib

structure Channel (α : Type*) where
  cap : ℕ
  buf : List α
  closed : Bool
  deriving DecidableEq

namespace Channel
variable {α : Type*}

def make (α : Type*) (cap : ℕ) : Channel α := ⟨cap,[],false⟩

/-- The ways in which a send can go: it waits for room as long as it is blocked. -/
inductive Sent (α : Type*)
  | ok (c : Channel α)
  | blocked
  | panic

def send (c : Channel α) (a : α) : Sent α :=
  if c.closed then .panic
  else if c.buf.length < c.cap then .ok {c with buf := c.buf ++ [a]}
  else .blocked

/-- The ways in which a receive can go; `done` is the receive on a channel that is closed
and empty. -/
inductive Received (α : Type*)
  | ok (a : α) (c : Channel α)
  | done
  | blocked

def recv (c : Channel α) : Received α :=
  match c.buf with
  | a::buf => .ok a {c with buf := buf}
  | [] => if c.closed then .done else .blocked

def close (c : Channel α) : Channel α := {c with closed := true}

lemma send_of_room {c : Channel α} {a : α} (hc : c.closed = false) (hlt : c.buf.length < c.cap) :
    c.send a = .ok {c with buf := c.buf ++ [a]} := by
  unfold send
  rw [hc,if_neg (by simp),if_pos hlt]

lemma send_eq_ok {c d : Channel α} {a : α} (h : c.send a = .ok d) :
    c.closed = false ∧ d = {c with buf := c.buf ++ [a]} := by
  unfold send at h
  split at h
  · cases h
  · rename_i hc
    split at h
    · cases h
      exact ⟨by simpa using hc,rfl⟩
    · cases h

lemma recv_eq_ok {c d : Channel α} {a : α} (h : c.recv = .ok a d) :
    c.buf.length = d.buf.length+1 ∧ d.cap = c.cap ∧ d.closed = c.closed := by
  unfold recv at h
  split at h
  · rename_i x buf hbuf
    cases h
    refine ⟨?_,rfl,rfl⟩
    rw [hbuf]
    rfl
  · split at h <;> cases h

lemma recv_eq_done {c : Channel α} (h : c.recv = .done) : c.closed = true := by
  unfold recv at h
  split at h
  · cases h
  · split at h
    · rename_i hc
      exact hc
    · cases h

end Channel
end ArmoredWitness.Lib
