import Mathlib.Data.List.Basic
import Mathlib.Tactic.Common

/-! Streams of fields, each a code, a length of one byte and a body. Two codes stand
alone: one pads, the other ends the stream. -/
namespace ArmoredWitness.Lib.Tlv

structure Field where
  code : UInt8
  body : List UInt8
  deriving DecidableEq

/-- The codes without a body. -/
structure Framing where
  pad : UInt8
  stop : UInt8

/-- The fields that a stream can carry. -/
structure Framing.Carries (F : Framing) (x : Field) : Prop where
  pad : x.code ≠ F.pad
  stop : x.code ≠ F.stop
  length : x.body.length < 256

/-- A field as a writer puts it down; of the length only the low byte is kept. -/
def Field.bytes (x : Field) : List UInt8 := x.code::UInt8.ofNat x.body.length::x.body

def bytes (xs : List Field) : List UInt8 := (xs.map Field.bytes).flatten

/-- The fields of a stream. What follows the end of the stream is not looked at, and a
stream may also end with its bytes. -/
inductive Stream (F : Framing) : List UInt8 → List Field → Prop
  | nil : Stream F [] []
  | pad {r xs} (h : Stream F r xs) : Stream F (F.pad::r) xs
  | stop {r} (h : F.stop ≠ F.pad) : Stream F (F.stop::r) []
  | field {x r xs} (hx : F.Carries x) (h : Stream F r xs) : Stream F (x.bytes ++ r) (x::xs)

@[simp] lemma Field.bytes_length (x : Field) : x.bytes.length = 2+x.body.length := by
  simp only [Field.bytes,List.length_cons]
  omega

@[simp] lemma bytes_nil : bytes [] = [] := rfl

@[simp] lemma bytes_cons (x : Field) (xs : List Field) : bytes (x::xs) = x.bytes ++ bytes xs := rfl

@[simp] lemma bytes_append (xs ys : List Field) : bytes (xs ++ ys) = bytes xs ++ bytes ys := by
  rw [bytes,List.map_append,List.flatten_append]
  rfl

variable {F : Framing}

/-- Nothing comes out of a stream that it could not carry. -/
lemma Stream.carries {b : List UInt8} {xs : List Field} (h : Stream F b xs) : ∀ x ∈ xs, F.Carries x := by
  induction h with
  | nil => simp
  | pad _ ih => exact ih
  | stop => simp
  | field hx _ ih => exact List.forall_mem_cons.mpr ⟨hx,ih⟩

/-- What comes out of a stream was in its bytes. -/
lemma Stream.bytes_le {b : List UInt8} {xs : List Field} (h : Stream F b xs) : (bytes xs).length ≤ b.length := by
  induction h with
  | nil => exact Nat.le_refl _
  | pad _ ih => exact Nat.le_succ_of_le ih
  | stop => exact Nat.zero_le _
  | field _ _ ih =>
    rw [bytes_cons,List.length_append,List.length_append]
    exact Nat.add_le_add_left ih _

/-- Fields that were put down one after another come out again. -/
lemma stream_bytes (hne : F.stop ≠ F.pad) {xs : List Field} (h : ∀ x ∈ xs, F.Carries x) (r : List UInt8) :
    Stream F (bytes xs ++ F.stop::r) xs := by
  induction xs with
  | nil => exact .stop hne
  | cons x xs ih =>
    obtain ⟨hx,hxs⟩ := List.forall_mem_cons.mp h
    rw [bytes_cons,List.append_assoc]
    exact .field hx (ih hxs)

end ArmoredWitness.Lib.Tlv
