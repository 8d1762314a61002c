import ArmoredWitness.Persistence.Directory

/-! External functions that can be computed with: two logs, whose directory is written with
a dash for a log without a slot and otherwise with as many strokes as the slot's number says. -/
namespace ArmoredWitness.Persistence.Tally
open Lib Slots

def encode : Option ℕ → List UInt8
  | none => [0x2d]
  | some n => List.replicate n 0x7c ++ [0x3b]

def count (n : ℕ) : List UInt8 → Option (Option ℕ × List UInt8)
  | [] => none
  | c::rest =>
    if c = 0x7c then count (n+1) rest
    else if c = 0x3b then some (some n,rest) else none

def decode : List UInt8 → Option (Option ℕ × List UInt8)
  | [] => none
  | c::rest => if c = 0x2d then some (none,rest) else count 0 (c::rest)

def assign (id : Bool) (slot : Option ℕ) (m : SlotMap Bool) : SlotMap Bool :=
  match slot with
  | none => m
  | some i => m.insert id i

def unmarshal (b : List UInt8) (m : SlotMap Bool) : SlotMap Bool × Outcome YamlError Unit :=
  if b = [] then (m,.ok ()) else
  match decode b with
  | none => (m,.error (.yaml "first log"))
  | some (x,rest) =>
    match decode rest with
    | some (y,[]) => (assign true y (assign false x m),.ok ())
    | _ => (m,.error (.yaml "second log"))

lemma count_encode (k n : ℕ) (rest : List UInt8) :
    count k (List.replicate n 0x7c ++ 0x3b::rest) = some (some (k+n),rest) := by
  induction n generalizing k with
  | zero => rfl
  | succ n ih =>
    rw [List.replicate_succ,List.cons_append,count,if_pos rfl,ih]
    congr 3
    omega

lemma decode_encode (x : Option ℕ) (rest : List UInt8) : decode (encode x ++ rest) = some (x,rest) := by
  cases x with
  | none => rfl
  | some n =>
    have hcount := count_encode 0 n rest
    rw [Nat.zero_add] at hcount
    rw [encode,List.append_assoc,List.singleton_append]
    cases n with
    | zero => rfl
    | succ n => exact hcount

lemma lookup_assign (id a : Bool) (x : Option ℕ) (m : SlotMap Bool) :
    (assign id x m).lookup a = if a = id then x.or (m.lookup a) else m.lookup a := by
  cases x with
  | none => simp [assign]
  | some i =>
    by_cases h : a = id
    · subst h
      simp [assign]
    · simp [assign,h,Finmap.lookup_insert_of_ne]

lemma assign_union (m m' : SlotMap Bool) :
    assign true (m.lookup true) (assign false (m.lookup false) m') = m ∪ m' := by
  apply Finmap.ext_lookup
  intro a
  have hunion : (m ∪ m').lookup a = (m.lookup a).or (m'.lookup a) := by
    cases hm : m.lookup a with
    | none => rw [Finmap.lookup_union_right (Finmap.lookup_eq_none.mp hm),Option.none_or]
    | some i => rw [Finmap.lookup_union_left (Finmap.mem_of_lookup_eq_some hm),hm,Option.some_or]
  rw [hunion,lookup_assign,lookup_assign]
  cases a <;> simp

lemma not_mem_encode (x : Option ℕ) : (0x54 : UInt8) ∉ encode x := by
  cases x with
  | none => decide
  | some n =>
    intro h
    rcases List.mem_append.mp h with h | h
    · exact absurd (List.eq_of_mem_replicate h) (by decide)
    · exact absurd (List.mem_singleton.mp h) (by decide)

/-- The slots of the two logs, in the order of the logs. -/
def order (m : SlotMap Bool) : List ℕ := [false,true].filterMap m.lookup

lemma order_eq (m : SlotMap Bool) : (order m : Multiset ℕ) = m.slots := by
  have hentries : m.entries =
      ([false,true].filterMap fun a => (m.lookup a).map (Sigma.mk a) : List (Sigma fun _ => ℕ)) := by
    refine (Multiset.Nodup.ext m.nodupKeys.nodup ?_).mpr fun x => ?_
    · cases hf : m.lookup false <;> cases ht : m.lookup true <;> simp [hf,ht]
    · rw [← Finmap.lookup_eq_some_iff]
      obtain ⟨a,i⟩ := x
      cases a <;> simp [eq_comm]
  rw [SlotMap.slots,hentries]
  cases hf : m.lookup false <;> cases ht : m.lookup true <;> simp [order,hf,ht]

def external : External Bool Bool where
  logID := id
  marshalMap m := .ok (encode (m.lookup false) ++ encode (m.lookup true))
  unmarshalMap := unmarshal
  unmarshalRecord b := if b = [] then .ok none else .error (.yaml "record")
  range m := ⟨order m,order_eq m⟩

theorem roundTrips : external.RoundTrips where
  marshal m := by
    refine ⟨_,rfl,fun m' => ?_⟩
    have hne : encode (m.lookup false) ++ encode (m.lookup true) ≠ [] := by
      cases m.lookup false <;> simp [encode]
    have hsecond := decode_encode (m.lookup true) []
    rw [List.append_nil] at hsecond
    simp only [external,unmarshal,if_neg hne,decode_encode,hsecond,assign_union]
  empty m := rfl

theorem plainText : external.PlainText := by
  intro m b hb hinfix
  cases hb
  have hmem : (0x54 : UInt8) ∈ encode (m.lookup false) ++ encode (m.lookup true) :=
    hinfix.mem (by decide)
  rcases List.mem_append.mp hmem with h | h
  · exact not_mem_encode _ h
  · exact not_mem_encode _ h

/-- A directory and two more slots, of six blocks each. -/
def threeSlots : Geometry := ⟨0,18,[6,6,6]⟩

/-- The partition of the three slots on a device of zeros. -/
def threeSlotsOpen : Partition smallMachine := ⟨.zeros smallMachine 18,layout smallMachine 0 [6,6,6]⟩

lemma threeSlots_blank : threeSlots.Blank (.zeros smallMachine 18) :=
  ⟨by decide,⟨by decide,by decide,by decide⟩,by decide,by decide,fun _ _ _ => rfl⟩

/-- The same beyond the first 2^32 bytes. -/
def farSlots : Geometry := ⟨2^28,18,[6,6,6]⟩

/-- The partition, blank itself, on a device with a record in its first blocks. -/
def farSlotsOpen (b : List UInt8) : Partition smallMachine :=
  ⟨(Device.zeros smallMachine (2^28+18)).store 0 2 (Entry.ofData 1 b).bytes,layout smallMachine (2^28) [6,6,6]⟩

lemma farSlots_zero (b : List UInt8) {q : ℕ} (h : 2^28 ≤ q) :
    (farSlotsOpen b).dev.block q = zeroBlock smallMachine :=
  (Device.zeros smallMachine (2^28+18)).store_outside _ (.inr (le_trans (by decide) h))

end ArmoredWitness.Persistence.Tally
