import ArmoredWitness.Slots.Log
import ArmoredWitness.Lib.Transition

/-! Runs of a journal: updates that the device carries out, updates that it gives
up on after some blocks, and reopenings, in any order. A session also keeps, for
the statements about runs, where the current record lies and which updates have
failed since it became current. -/
namespace ArmoredWitness.Slots
open Lib

variable {M : Machine}

/-- The block at which the current record of a freshly opened journal begins: the
record ends where the next one would go, or with the region. -/
def Journal.currentBlock (M : Machine) (j : Journal) : Option ℕ :=
  if j.current.revision = 0 then none
  else some ((if j.nextBlock = j.start then j.start+j.length else j.nextBlock)-j.current.blocks M)

inductive Event
  | update (data : List UInt8)
  | fail (data : List UInt8) (k : ℕ)
  | reopen
  deriving DecidableEq

def Event.isUpdate : Event → Bool
  | .reopen => false
  | _ => true

/-- The device carries the event out. -/
def Event.Faultless : Event → Prop
  | .fail _ _ => False
  | _ => True

structure Session (M : Machine) where
  dev : Device M
  journal : Journal
  block : Option ℕ
  failed : List (List UInt8)

namespace Session

/-- A new session on a device. -/
def opened (d : Device M) (start length : ℕ) : Outcome JournalError (Session M) :=
  (openJournal d start length).map fun j => ⟨d,j,j.currentBlock M,[]⟩

def step (s : Session M) : Event → Outcome JournalError (Session M)
  | .update data =>
    match s.journal.update writeBlocks s.dev data with
    | (d,j,.ok _) => .ok ⟨d,j,some (s.journal.target M data),[]⟩
    | (d,j,_) => .ok {s with dev := d, journal := j}
  | .fail data k =>
    match s.journal.update (writePrefix k) s.dev data with
    | (d,j,_) => .ok ⟨d,j,s.block,if s.journal.Accepts data then data::s.failed else s.failed⟩
  | .reopen =>
    (openJournal s.dev s.journal.start s.journal.length).map fun j =>
      ⟨s.dev,j,j.currentBlock M,
        if j.current.revision = s.journal.current.revision then s.failed else []⟩

/-- The step of a run, which ends where the journal cannot be opened. -/
def next (s : Session M) (ev : Event) : Option (Session M) := (s.step ev).toOption

lemma next_eq {s s' : Session M} {ev : Event} (h : s.step ev = .ok s') : s.next ev = some s' :=
  Outcome.toOption_eq_some.mpr h

/-- What is assumed of every record that is written: no later block of it begins
with the magic, and what is read back of one that was cut off does not have its
checksum by chance. -/
def Assumed (s : Session M) : Event → Prop
  | .update data => s.journal.Accepts data → FreeOfMagic M data
  | .fail data k => s.journal.Accepts data → FreeOfMagic M data ∧
    NoCollision s.dev (s.journal.target M data) (min k (numBlocks M (entryHeaderSize+data.length)))
      (s.journal.current.revision+1) data
  | .reopen => True

/-- A record that was cut off does not end, in its last block, with one to three
bytes that begin the magic. -/
def Unmixed (s : Session M) : Event → Prop
  | .update _ => True
  | .fail data k => s.journal.Accepts data → 0 < k →
    k < numBlocks M (entryHeaderSize+data.length) → FreeOfMagicStart M data
  | .reopen => True

instance (s : Session M) : (ev : Event) → Decidable (s.Assumed ev)
  | .update _ => inferInstanceAs (Decidable (_ → _))
  | .fail _ _ => inferInstanceAs (Decidable (_ → _ ∧ _))
  | .reopen => inferInstanceAs (Decidable True)

instance (s : Session M) : (ev : Event) → Decidable (s.Unmixed ev)
  | .update _ => inferInstanceAs (Decidable True)
  | .fail _ _ => inferInstanceAs (Decidable (_ → _ → _ → _))
  | .reopen => inferInstanceAs (Decidable True)

section Steps
variable {s : Session M} {data : List UInt8}

lemma step_update {r : Region M} (ha : s.journal.Accepts data) (hr : r.Addressed) (hd : r.stop ≤ s.dev.size)
    (hfit : s.journal.target M data+numBlocks M (entryHeaderSize+data.length) ≤ r.stop) :
    s.step (.update data) = .ok
      { dev := s.dev.store (s.journal.target M data) (numBlocks M (entryHeaderSize+data.length))
          (s.journal.newEntry data).bytes
        journal := {s.journal with
          nextBlock := s.journal.target M data+numBlocks M (entryHeaderSize+data.length)
          current := s.journal.newEntry data}
        block := some (s.journal.target M data)
        failed := [] } := by
  simp only [step,Journal.update_writeBlocks ha hr hfit (hfit.trans hd)]

lemma step_fail (ha : s.journal.Accepts data) (k : ℕ) : s.step (.fail data k) = .ok
    { dev := s.dev.store (s.journal.target M data) (min k (numBlocks M (entryHeaderSize+data.length)))
        (s.journal.newEntry data).bytes
      journal := {s.journal with nextBlock := s.journal.target M data}
      block := s.block
      failed := data::s.failed } := by
  simp only [step,Journal.update_writePrefix ha,if_pos ha]

lemma step_update_rejected (ha : ¬ s.journal.Accepts data) : s.step (.update data) = .ok s := by
  simp only [step,Journal.update_tooLarge _ ha]

lemma step_fail_rejected (ha : ¬ s.journal.Accepts data) (k : ℕ) :
    s.step (.fail data k) = .ok s := by
  simp only [step,Journal.update_tooLarge _ ha,if_neg ha]

lemma step_reopen {j : Journal} (h : openJournal s.dev s.journal.start s.journal.length = .ok j) :
    s.step .reopen = .ok ⟨s.dev,j,j.currentBlock M,
      if j.current.revision = s.journal.current.revision then s.failed else []⟩ := by
  simp only [step,h,Outcome.map_ok]

end Steps

lemma opened_eq {d : Device M} {start length : ℕ} {j : Journal}
    (h : openJournal d start length = .ok j) :
    opened d start length = .ok ⟨d,j,j.currentBlock M,[]⟩ := by
  rw [opened,h,Outcome.map_ok]

/-- A run on a device, from the first `OpenJournal` on, and how it ends. -/
def outcomeFrom (d : Device M) (r : Region M) (evs : List Event) : Outcome JournalError (Session M) :=
  (opened d r.start r.length).bind fun s => Transition.runOutcome step s evs

/-- The session at the end of such a run. -/
def runFrom (d : Device M) (r : Region M) (evs : List Event) : Option (Session M) :=
  (outcomeFrom d r evs).toOption

lemma runFrom_bind (d : Device M) (r : Region M) (evs : List Event) :
    runFrom d r evs = (opened d r.start r.length).toOption.bind fun s => Transition.run next s evs := by
  rw [runFrom,outcomeFrom,Outcome.toOption_bind]
  congr 1
  funext s
  exact Transition.toOption_runOutcome step s evs

/-- A condition on the steps of a run on a device. -/
def AlongFrom (P : Session M → Event → Prop) (d : Device M) (r : Region M) (evs : List Event) : Prop :=
  ∀ s ∈ (opened d r.start r.length).toOption, Transition.Along next P s evs

instance (P : Session M → Event → Prop) [∀ s ev, Decidable (P s ev)] (d : Device M) (r : Region M)
    (evs : List Event) : Decidable (AlongFrom P d r evs) :=
  inferInstanceAs (Decidable (∀ s ∈ (opened d r.start r.length).toOption, Transition.Along next P s evs))

section From
variable {d : Device M} {r : Region M} {j : Journal} (h : openJournal d r.start r.length = .ok j)
include h

lemma runFrom_eq (evs : List Event) :
    runFrom d r evs = Transition.run next ⟨d,j,j.currentBlock M,[]⟩ evs := by
  rw [runFrom_bind,opened_eq h,Outcome.toOption_ok,Option.bind_some]

lemma alongFrom_iff {P : Session M → Event → Prop} {evs : List Event} :
    AlongFrom P d r evs ↔ Transition.Along next P ⟨d,j,j.currentBlock M,[]⟩ evs := by
  simp only [AlongFrom,opened_eq h,Outcome.toOption_ok,Option.mem_some_iff,forall_eq']

end From

lemma runFrom_append (d : Device M) (r : Region M) (a b : List Event) :
    runFrom d r (a ++ b) = (runFrom d r a).bind fun s => Transition.run next s b := by
  rw [runFrom_bind,runFrom_bind,Option.bind_assoc]
  congr 1
  funext s
  exact Transition.run_append s a b

end Session

/-- A block of the smallest size is a header. -/
lemma smallMachine_header : entryHeaderSize ≤ smallMachine.blockSize := by decide

/-- Six blocks of the smallest size. -/
def sixBlocks : Region smallMachine := ⟨0,6,smallMachine_header⟩

lemma sixBlocks_addressed : sixBlocks.Addressed := ⟨by decide +kernel,by decide +kernel,by decide +kernel⟩

lemma zeros_blank : (Device.zeros smallMachine 6).Blank sixBlocks :=
  ⟨sixBlocks_addressed,by decide,fun _ _ _ => rfl⟩

end ArmoredWitness.Slots
