import ArmoredWitness.Slots.Erase
import ArmoredWitness.Slots.Isolation

/-! Slots in the hands of several clients. Every method of a slot, and every round of
`Erase`, holds the lock of its slot, so what the clients do together is one sequence of
such calls. Two things a client relies on are looked at: that the token of a `Read` goes
stale when the slot changes, and that a slot that `Open` has returned can be used. -/
namespace ArmoredWitness.Slots
open Lib

variable {M : Machine}

/-- One call under the lock of a slot: a method of the slot, or the round of `Erase`
that is about it. -/
inductive PartitionOp
  | call (i : ℕ) (op : SlotOp)
  | eraseSlot (i : ℕ) (fault : Fault)

inductive PartitionResult
  | returned (r : SlotResult)
  | erased (r : Outcome SlotError Unit)
  deriving DecidableEq

namespace PartitionOp

/-- The slot whose lock is held. -/
def slot : PartitionOp → ℕ
  | .call i _ => i
  | .eraseSlot i _ => i

def erases (i : ℕ) : PartitionOp → Bool
  | .eraseSlot k _ => k = i
  | .call _ _ => false

end PartitionOp

/-- The call was a `Write` or `CheckAndWrite` on slot `i`, and it returned nil. -/
def wrote (i : ℕ) : PartitionOp × PartitionResult → Bool
  | (.call k (.write _ _),.returned (.written (.ok _))) => k = i
  | (.call k (.checkAndWrite _ _ _),.returned (.written (.ok _))) => k = i
  | _ => false

/-- The call erased slot `i`, and it returned nil. -/
def erased (i : ℕ) : PartitionOp × PartitionResult → Bool
  | (.eraseSlot k _,.erased (.ok _)) => k = i
  | _ => false

lemma wrote_write (i : ℕ) (data : List UInt8) (fault : Fault) (r : Outcome SlotError Unit) :
    wrote i (.call i (.write data fault),.returned (.written r)) = true ↔ r = .ok () := by
  cases r <;> simp [wrote]

lemma wrote_checkAndWrite (i : ℕ) (token : UInt32) (data : List UInt8) (fault : Fault)
    (r : Outcome SlotError Unit) :
    wrote i (.call i (.checkAndWrite token data fault),.returned (.written r)) = true ↔ r = .ok () := by
  cases r <;> simp [wrote]

/-- A call on another slot does not write to slot `i`. -/
lemma wrote_ne {i : ℕ} {op : PartitionOp} (h : op.slot ≠ i) (r : PartitionResult) : wrote i (op,r) = false := by
  unfold wrote
  split <;> simp_all [PartitionOp.slot]

namespace Partition

def act (p : Partition M) : PartitionOp → Partition M × PartitionResult
  | .call i op => ((p.step i op).1,.returned (p.step i op).2)
  | .eraseSlot i fault => ((p.eraseSlot fault i).1,.erased (p.eraseSlot fault i).2)

/-- The partition after a sequence of calls. -/
def after (p : Partition M) : List PartitionOp → Partition M
  | [] => p
  | op::ops => (p.act op).1.after ops

/-- A sequence of calls, with what each of them returned. -/
def history (p : Partition M) : List PartitionOp → List (PartitionOp × PartitionResult)
  | [] => []
  | op::ops => (op,(p.act op).2)::(p.act op).1.history ops

/-- `Erase` is a sequence of calls, of which other clients see any number. -/
lemma eraseLoop_eq_after (p : Partition M) (faults : ℕ → Fault) (borked : Bool) (is : List ℕ) :
    ∃ a b, is = a ++ b ∧ (eraseLoop faults borked is p).1 = p.after (a.map fun i => .eraseSlot i (faults i)) := by
  induction is generalizing p with
  | nil => exact ⟨[],[],rfl,rfl⟩
  | cons i is ih =>
    rw [eraseLoop]
    cases hr : p.eraseSlot (faults i) i with
    | mk p' r =>
      have hact : (p.act (.eraseSlot i (faults i))).1 = p' := by rw [act,hr]
      obtain ⟨a,b,hab,heq⟩ := ih p'
      cases r with
      | ok u => exact ⟨i::a,b,by rw [hab]; rfl,by rw [List.map_cons,after,hact]; exact heq⟩
      | error e => exact ⟨i::a,b,by rw [hab]; rfl,by rw [List.map_cons,after,hact]; exact heq⟩
      | panic q => exact ⟨[i],is,rfl,by rw [List.map_cons,after,hact]; rfl⟩

variable {p : Partition M} {i : ℕ} {op : PartitionOp} {s : Slot}

lemma eraseSlot_eq (hs : p.slots[i]? = some s) (fault : Fault) : p.eraseSlot fault i =
    (⟨(s.erase fault i p.dev).1,p.slots.set i (s.erase fault i p.dev).2.1⟩,(s.erase fault i p.dev).2.2) := by
  simp only [eraseSlot,onSlot,hs]

/-- A call leaves the other slots alone. -/
lemma act_slot_ne (h : op.slot ≠ i) : (p.act op).1.slots[i]? = p.slots[i]? := by
  cases op with
  | call k op =>
    cases op with
    | openSlot => exact openSlot_slot_ne h
    | read => exact onSlot_slot_ne _ h
    | write data fault => exact onSlot_slot_ne _ h
    | checkAndWrite token data fault => exact onSlot_slot_ne _ h
  | eraseSlot k fault => exact onSlot_slot_ne _ h

lemma act_journal_ne (h : op.slot ≠ i) : (p.act op).1.journal i = p.journal i := by
  rw [journal,act_slot_ne h,journal]

/-- An erased slot is closed. -/
lemma act_eraseSlot (fault : Fault) : (p.act (.eraseSlot i fault)).1.journal i = none := by
  cases hs : p.slots[i]? with
  | none => simp only [act,eraseSlot,onSlot,hs,journal,Option.bind_none]
  | some s =>
    obtain ⟨k,r,-,herase,-⟩ := s.erase_spec fault i p.dev
    rw [act,eraseSlot_eq hs,journal_set hs,herase]
    rfl

lemma act_openSlot (hs : p.slots[i]? = some s) (hj : s.journal = none) :
    (p.act (.call i .openSlot)).1.journal i = (openJournal p.dev s.start s.length).toOption := by
  cases ho : openJournal p.dev s.start s.length with
  | ok j =>
    rw [act,step,openSlot_ok hs hj ho]
    exact journal_set hs _ _
  | error e =>
    rw [act,step,openSlot_error hs hj ho]
    exact (journal_of_some hs).trans hj
  | panic q =>
    rw [act,step,openSlot_panic hs hj ho]
    exact (journal_of_some hs).trans hj

/-- The write of an open slot advances the revision if it returns nil. -/
lemma write_revision {j : Journal} (hs : p.slots[i]? = some s) (hj : s.journal = some j) (fault : Fault)
    (data : List UInt8) : ∃ j', (p.write fault i data).1.journal i = some j' ∧
      j'.current.revision = j.current.revision+if (p.write fault i data).2 = .ok () then 1 else 0 := by
  obtain ⟨d',j',r,heq,⟨hok,hcur⟩ | ⟨hne,hcur⟩⟩ := write_spec hs fault data hj
  · exact ⟨j',by rw [heq,journal_set hs],by rw [heq,if_pos hok,hcur]; rfl⟩
  · exact ⟨j',by rw [heq,journal_set hs],by rw [heq,if_neg hne,hcur,UInt32.add_zero]⟩

/-- An open slot stays open until it is erased, and its revision counts the writes. -/
lemma act_opened {j : Journal} (hj : p.journal i = some j) (h : op.erases i = false) : ∃ j',
    (p.act op).1.journal i = some j' ∧
    j'.current.revision = j.current.revision+if wrote i (op,(p.act op).2) then 1 else 0 := by
  by_cases hi : op.slot = i
  · obtain ⟨s,hs,hjs⟩ := exists_slot hj
    cases op with
    | eraseSlot k fault => simp [PartitionOp.erases,hi.symm,PartitionOp.slot] at h
    | call k op =>
      change k = i at hi
      subst hi
      cases op with
      | openSlot =>
        rw [act,step,openSlot_opened hs hjs]
        exact ⟨j,hj,(UInt32.add_zero _).symm⟩
      | read =>
        rw [act,step,read_eq hs]
        exact ⟨j,hj,(UInt32.add_zero _).symm⟩
      | write data fault =>
        simp only [act,step,wrote_write]
        exact write_revision hs hjs fault data
      | checkAndWrite token data fault =>
        simp only [act,step,wrote_checkAndWrite]
        by_cases ht : j.current.revision = token
        · rw [checkAndWrite_fresh hs hjs ht]
          exact write_revision hs hjs fault data
        · rw [checkAndWrite_stale hs hjs ht]
          exact ⟨j,hj,(UInt32.add_zero _).symm⟩
  · rw [wrote_ne hi,act_journal_ne hi]
    exact ⟨j,hj,(UInt32.add_zero _).symm⟩

/-- Along calls none of which erases the slot, the revision advances by the number of
successful writes. -/
lemma after_opened {j : Journal} {ops : List PartitionOp} (hj : p.journal i = some j)
    (h : ∀ op ∈ ops, op.erases i = false) : ∃ j', (p.after ops).journal i = some j' ∧
      j'.current.revision = j.current.revision+UInt32.ofNat ((p.history ops).countP (wrote i)) := by
  induction ops generalizing p j with
  | nil => exact ⟨j,hj,(UInt32.add_zero _).symm⟩
  | cons op ops ih =>
    obtain ⟨j1,hj1,hrev1⟩ := act_opened hj (h op List.mem_cons_self)
    obtain ⟨j2,hj2,hrev2⟩ := ih hj1 fun op' hop' => h op' (List.mem_cons_of_mem _ hop')
    refine ⟨j2,hj2,?_⟩
    rw [hrev2,hrev1,history,List.countP_cons,UInt32.add_assoc,UInt32.ofNat_add,UInt32.add_comm (UInt32.ofNat _)]
    split_ifs <;> rfl

lemma mem_history {ops : List PartitionOp} (h : op ∈ ops) :
    ∃ q : Partition M, (op,(q.act op).2) ∈ p.history ops := by
  induction ops generalizing p with
  | nil => cases h
  | cons op' ops ih =>
    rcases List.mem_cons.mp h with rfl | h
    · exact ⟨p,List.mem_cons_self⟩
    · obtain ⟨q,hq⟩ := ih (p := (p.act op').1) h
      exact ⟨q,List.mem_cons_of_mem _ hq⟩

lemma mem_of_history {ops : List PartitionOp} {x : PartitionOp × PartitionResult} (h : x ∈ p.history ops) :
    x.1 ∈ ops := by
  induction ops generalizing p with
  | nil => cases h
  | cons op' ops ih =>
    rcases List.mem_cons.mp h with rfl | h
    · exact List.mem_cons_self
    · exact List.mem_cons_of_mem _ (ih h)

end Partition

lemma erases_of_erased {i : ℕ} {x : PartitionOp × PartitionResult} (h : erased i x = true) :
    x.1.erases i = true := by
  unfold erased at h
  split at h
  · exact h
  · cases h

/-- Between a `Read` and a `CheckAndWrite` with its token that returns nil, the slot was
neither written nor erased exactly if it was not erased. -/
theorem token_detects_changes_iff (p : Partition M) (i : ℕ) (old : List UInt8) (t : UInt32)
    (hread : (p.read i).2 = .ok (old,t)) (ops : List PartitionOp)
    (hstored : ∀ k fault r, (.eraseSlot k fault,.erased r) ∈ p.history ops → r = .ok ())
    (hfew : (p.history ops).countP (wrote i) < 2^32-1) (fault : Fault) (data : List UInt8)
    (hcaw : ((p.after ops).checkAndWrite fault i t data).2 = .ok ()) :
    (∀ x ∈ p.history ops, wrote i x = false ∧ erased i x = false) ↔ ∀ op ∈ ops, op.erases i = false := by
  constructor
  · intro h op hop
    cases op with
    | call k op => rfl
    | eraseSlot k fault =>
      obtain ⟨q,hx⟩ := Partition.mem_history (p := p) hop
      have herased := (h _ hx).2
      rw [Partition.act] at hx herased
      rw [hstored k fault _ hx] at herased
      exact herased
  · intro h
    obtain ⟨j,hj,hdata⟩ := Partition.read_eq_ok hread
    obtain ⟨j',hj',hrev⟩ := Partition.after_opened hj h
    have hzero : (p.history ops).countP (wrote i) = 0 := by
      rw [Partition.checkAndWrite_eq_ok hj' hcaw,show j.current.revision = t from congrArg Prod.snd hdata] at hrev
      have hmod := congrArg UInt32.toNat hrev
      rw [UInt32.toNat_add,UInt32.toNat_ofNat'] at hmod
      have ht := t.toNat_lt
      omega
    intro x hx
    refine ⟨Bool.eq_false_iff.mpr (List.countP_eq_zero.mp hzero x hx),Bool.eq_false_iff.mpr fun he => ?_⟩
    exact Bool.eq_false_iff.mp (h x.1 (Partition.mem_of_history hx)) (erases_of_erased he)

/-- Two slots of six blocks each on a blank device. -/
def freshSlots : Partition smallMachine := ⟨Device.zeros smallMachine 12,[⟨0,6,none⟩,⟨6,6,none⟩]⟩

/-- The two slots in use: "A" is in the first of them. -/
def sharedSlots : Partition smallMachine :=
  freshSlots.after [.call 0 .openSlot,.call 1 .openSlot,.call 0 (.write [0x41] none)]

/-- What others do meanwhile: the other slot is written, erased and opened again, and a
write to this slot fails for its old token. -/
def meanwhile : List PartitionOp :=
  [.call 1 (.write [0x42] none),.eraseSlot 1 none,.call 1 .openSlot,.call 0 (.checkAndWrite 0 [0x43] none)]

theorem token_detects_changes_sharedSlots : (sharedSlots.read 0).2 = .ok ([0x41],1) ∧
    ((sharedSlots.after meanwhile).checkAndWrite none 0 1 [0x44]).2 = .ok () ∧
    ∀ x ∈ sharedSlots.history meanwhile, wrote 0 x = false ∧ erased 0 x = false := by
  have hread : (sharedSlots.read 0).2 = .ok ([0x41],1) := by decide +kernel
  have hcaw : ((sharedSlots.after meanwhile).checkAndWrite none 0 1 [0x44]).2 = .ok () := by decide +kernel
  have hresults : (sharedSlots.history meanwhile).map Prod.snd = [.returned (.written (.ok ())),.erased (.ok ()),
      .returned (.opened (.ok ())),.returned (.written (.error .invalidToken))] := by decide +kernel
  refine ⟨hread,hcaw,(token_detects_changes_iff sharedSlots 0 [0x41] 1 hread meanwhile ?_ (by decide +kernel)
    none [0x44] hcaw).mpr (by decide)⟩
  intro k fault r hx
  have hmem := List.mem_map_of_mem (f := Prod.snd) hx
  rw [hresults] at hmem
  simpa using hmem

/-- "A" is written, the slot is erased and opened again, and the token from before all
this is accepted. -/
theorem erased_slot_takes_old_token : (openedSlot.read 0).2 = .ok ([],0) ∧
    (openedSlot.history [.call 0 (.write [0x41] none),.eraseSlot 0 none,.call 0 .openSlot]).map Prod.snd =
      [.returned (.written (.ok ())),.erased (.ok ()),.returned (.opened (.ok ()))] ∧
    ((openedSlot.after [.call 0 (.write [0x41] none),.eraseSlot 0 none,.call 0 .openSlot]).checkAndWrite
      none 0 0 [0x42]).2 = .ok () := by
  decide +kernel

namespace Partition

/-- No method of slot `i` dereferences a nil journal. -/
structure Usable (p : Partition M) (i : ℕ) : Prop where
  read : (p.read i).2 ≠ .panic .nilDereference
  write : ∀ fault data, (p.write fault i data).2 ≠ .panic .nilDereference
  checkAndWrite : ∀ fault token data, (p.checkAndWrite fault i token data).2 ≠ .panic .nilDereference

variable {p : Partition M} {i : ℕ} {op : PartitionOp} {s : Slot}

lemma usable_iff (hs : p.slots[i]? = some s) : p.Usable i ↔ ∃ j, p.journal i = some j := by
  rw [journal_of_some hs]
  constructor
  · intro h
    cases hj : s.journal with
    | some j => exact ⟨j,rfl⟩
    | none =>
      have hread := h.read
      rw [read_eq hs,Slot.read,hj] at hread
      exact absurd rfl hread
  · rintro ⟨j,hj⟩
    have hwrite : ∀ fault data, (p.write fault i data).2 ≠ .panic .nilDereference := by
      intro fault data hpanic
      simp only [Partition.write,onSlot,hs,Slot.write,hj,Outcome.mapError_eq_panic] at hpanic
      exact j.update_ne_panic fault data p.dev _ hpanic
    refine ⟨?_,hwrite,fun fault token data => ?_⟩
    · rw [read_eq hs,Slot.read,hj]
      rintro ⟨⟩
    · by_cases ht : j.current.revision = token
      · rw [checkAndWrite_fresh hs hj ht]
        exact hwrite fault data
      · rw [checkAndWrite_stale hs hj ht]
        rintro ⟨⟩

/-- A slot is open after a call if it was open and is not erased, or if it is opened and
a journal is found. -/
lemma act_opened_iff (hs : p.slots[i]? = some s) : (∃ j, (p.act op).1.journal i = some j) ↔
    (∃ j, p.journal i = some j) ∧ op.erases i = false ∨
    op = .call i .openSlot ∧ ∃ j, openJournal p.dev s.start s.length = .ok j := by
  constructor
  · rintro ⟨j',hj'⟩
    by_cases hi : op.slot = i
    · cases op with
      | eraseSlot k fault =>
        change k = i at hi
        subst hi
        rw [act_eraseSlot] at hj'
        cases hj'
      | call k op =>
        change k = i at hi
        subst hi
        cases hj : s.journal with
        | some j => exact .inl ⟨⟨j,(journal_of_some hs).trans hj⟩,rfl⟩
        | none =>
          have hclosed : p.journal k = none := (journal_of_some hs).trans hj
          cases op with
          | openSlot =>
            rw [act_openSlot hs hj] at hj'
            exact .inr ⟨rfl,j',Outcome.toOption_eq_some.mp hj'⟩
          | read =>
            rw [act,step,read_eq hs,hclosed] at hj'
            cases hj'
          | write data fault =>
            rw [act,step,write_unopened hs hj,hclosed] at hj'
            cases hj'
          | checkAndWrite token data fault =>
            rw [act,step,checkAndWrite_unopened hs hj,hclosed] at hj'
            cases hj'
    · rw [act_journal_ne hi] at hj'
      refine .inl ⟨⟨j',hj'⟩,?_⟩
      cases op with
      | eraseSlot k fault => exact decide_eq_false hi
      | call k op => rfl
  · rintro (⟨⟨j,hj⟩,herase⟩ | ⟨rfl,j,ho⟩)
    · obtain ⟨j',hj',-⟩ := act_opened hj herase
      exact ⟨j',hj'⟩
    · cases hj : p.journal i with
      | some j0 =>
        obtain ⟨j',hj',-⟩ := act_opened hj (show PartitionOp.erases i (.call i .openSlot) = false from rfl)
        exact ⟨j',hj'⟩
      | none => exact ⟨j,by rw [act_openSlot hs ((journal_of_some hs).symm.trans hj),ho,Outcome.toOption_ok]⟩

/-- A method that leaves its slot in its place, called through the partition. -/
lemma onSlot_place {ε α : Type} (f : Device M → Slot → Device M × Slot × Outcome ε α) (hs : p.slots[i]? = some s)
    (hf : (f p.dev s).2.1.start = s.start ∧ (f p.dev s).2.1.length = s.length) :
    ∃ s', (p.onSlot i f).1.slots[i]? = some s' ∧ s'.start = s.start ∧ s'.length = s.length := by
  simp only [onSlot,hs]
  exact ⟨_,List.getElem?_set_self (List.getElem?_eq_some_iff.mp hs).1,hf⟩

lemma step_place (hs : p.slots[i]? = some s) (op : SlotOp) :
    ∃ s', (p.step i op).1.slots[i]? = some s' ∧ s'.start = s.start ∧ s'.length = s.length := by
  cases op with
  | openSlot =>
    simp only [step,openSlot,if_neg (not_numSlots_le hs)]
    refine onSlot_place _ hs ?_
    simp only [Slot.openLogged,Slot.openSlot]
    cases s.journal with
    | some j => exact ⟨rfl,rfl⟩
    | none => cases openJournal p.dev s.start s.length <;> exact ⟨rfl,rfl⟩
  | read => exact onSlot_place _ hs ⟨rfl,rfl⟩
  | write data fault =>
    refine onSlot_place _ hs ?_
    simp only [Slot.write]
    cases s.journal <;> exact ⟨rfl,rfl⟩
  | checkAndWrite token data fault =>
    refine onSlot_place _ hs ?_
    simp only [Slot.checkAndWrite,Slot.write]
    cases s.journal with
    | none => exact ⟨rfl,rfl⟩
    | some j =>
      dsimp only
      split_ifs <;> exact ⟨rfl,rfl⟩

lemma act_place (hs : p.slots[i]? = some s) (op : PartitionOp) :
    ∃ s', (p.act op).1.slots[i]? = some s' ∧ s'.start = s.start ∧ s'.length = s.length := by
  by_cases hi : op.slot = i
  · cases op with
    | call k op =>
      change k = i at hi
      subst hi
      exact step_place hs op
    | eraseSlot k fault =>
      change k = i at hi
      subst hi
      obtain ⟨n,r,-,herase,-⟩ := s.erase_spec fault k p.dev
      rw [act,eraseSlot_eq hs,herase]
      exact ⟨_,List.getElem?_set_self (List.getElem?_eq_some_iff.mp hs).1,rfl,rfl⟩
  · exact ⟨s,by rw [act_slot_ne hi,hs],rfl,rfl⟩

/-- The slots that are open after a sequence of calls. -/
lemma after_opened_iff (hs : p.slots[i]? = some s) (ops : List PartitionOp) :
    (∃ j, (p.after ops).journal i = some j) ↔
      (∃ j, p.journal i = some j) ∧ (∀ op ∈ ops, op.erases i = false) ∨
      ∃ a b j, ops = a ++ .call i .openSlot::b ∧ (∀ op ∈ b, op.erases i = false) ∧
        openJournal (p.after a).dev s.start s.length = .ok j := by
  induction ops generalizing p s with
  | nil => simp [after]
  | cons op ops ih =>
    obtain ⟨s',hs',hstart,hlength⟩ := act_place hs op
    rw [after,ih hs',act_opened_iff hs,hstart,hlength]
    constructor
    · rintro (⟨⟨hj,herase⟩ | ⟨rfl,j,ho⟩,hops⟩ | ⟨a,b,j,rfl,hb,ho⟩)
      · exact .inl ⟨hj,List.forall_mem_cons.mpr ⟨herase,hops⟩⟩
      · exact .inr ⟨[],ops,j,rfl,hops,ho⟩
      · exact .inr ⟨op::a,b,j,rfl,hb,ho⟩
    · rintro (⟨hj,hall⟩ | ⟨a,b,j,heq,hb,ho⟩)
      · obtain ⟨herase,hops⟩ := List.forall_mem_cons.mp hall
        exact .inl ⟨.inl ⟨hj,herase⟩,hops⟩
      · cases a with
        | nil =>
          obtain ⟨rfl,rfl⟩ := List.cons.inj heq
          exact .inl ⟨.inr ⟨rfl,j,ho⟩,hb⟩
        | cons op' a =>
          obtain ⟨rfl,rfl⟩ := List.cons.inj heq
          exact .inr ⟨a,b,j,rfl,hb,ho⟩

lemma after_place (hs : p.slots[i]? = some s) (ops : List PartitionOp) :
    ∃ s', (p.after ops).slots[i]? = some s' := by
  induction ops generalizing p s with
  | nil => exact ⟨s,hs⟩
  | cons op ops ih =>
    obtain ⟨s',hs',-⟩ := act_place hs op
    exact ih hs'

end Partition

/-- A slot of a new partition can be used after a sequence of calls exactly if one of
them was an `Open` that found a journal on the device, and the slot was not erased after
it. That `Open` returned no error is not enough. -/
theorem opened_slot_usable_iff (d : Device M) (slots : List Slot) (hnew : ∀ s ∈ slots, s.journal = none)
    (i : ℕ) (s : Slot) (hs : slots[i]? = some s) (ops : List PartitionOp) :
    ((⟨d,slots⟩ : Partition M).after ops).Usable i ↔
      ∃ a b j, ops = a ++ .call i .openSlot::b ∧ (∀ op ∈ b, op.erases i = false) ∧
        openJournal ((⟨d,slots⟩ : Partition M).after a).dev s.start s.length = .ok j := by
  have hslot : (⟨d,slots⟩ : Partition M).slots[i]? = some s := hs
  obtain ⟨s',hs'⟩ := Partition.after_place hslot ops
  have hclosed : (⟨d,slots⟩ : Partition M).journal i = none :=
    (Partition.journal_of_some hslot).trans (hnew s (List.mem_of_getElem? hs))
  rw [Partition.usable_iff hs',Partition.after_opened_iff hslot,hclosed]
  simp

theorem opened_slot_usable_sharedSlots : (freshSlots.after [.call 1 .openSlot,.call 1 (.write [0x42] none),
    .call 0 .openSlot,.call 0 (.write [0x41] none),.eraseSlot 1 none,.call 0 .read]).Usable 0 := by
  have hopens : (openJournal (freshSlots.after [.call 1 .openSlot,.call 1 (.write [0x42] none)]).dev 0 6).map
      Journal.data = .ok ([],0) := by decide +kernel
  obtain ⟨j,ho,-⟩ := Outcome.map_eq_ok.mp hopens
  exact (opened_slot_usable_iff (Device.zeros smallMachine 12) [⟨0,6,none⟩,⟨6,6,none⟩] (by simp) 0 _ rfl _).mpr
    ⟨[.call 1 .openSlot,.call 1 (.write [0x42] none)],[.call 0 (.write [0x41] none),.eraseSlot 1 none,.call 0 .read],
      j,rfl,by decide,ho⟩

/-- A device with two records of revision 1, one after the other. -/
def twice : Device smallMachine :=
  ((Device.zeros smallMachine 6).store 0 1 (Entry.ofData 1 []).bytes).store 1 1 (Entry.ofData 1 []).bytes

/-- `Open` returns no error for a slot whose journal cannot be opened, and reading it
panics; so does reading a slot that was opened and then erased. -/
theorem opened_slot_nil_journal :
    (((⟨twice,[⟨0,6,none⟩]⟩ : Partition smallMachine).openSlot 0).2 = .ok () ∧
      (((⟨twice,[⟨0,6,none⟩]⟩ : Partition smallMachine).openSlot 0).1.read 0).2 = .panic .nilDereference) ∧
    (openedSlot.erase fun _ => none).2 = .ok () ∧
      ((openedSlot.erase fun _ => none).1.read 0).2 = .panic .nilDereference := by
  decide +kernel

end ArmoredWitness.Slots
