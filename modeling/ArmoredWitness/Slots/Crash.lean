import ArmoredWitness.Slots.Session

/-! Power loss. An update may be cut off after any number of its blocks, and the
journal is then opened again. -/
namespace ArmoredWitness.Slots
open Lib

variable {M : Machine}

inductive CrashEvent
  | update (data : List UInt8)
  | cut (data : List UInt8) (k : ℕ)
  | reopen

namespace CrashEvent

def events : CrashEvent → List Event
  | .update data => [.update data]
  | .cut data k => [.fail data k,.reopen]
  | .reopen => [.reopen]

def isUpdate : CrashEvent → Bool
  | .reopen => false
  | _ => true

end CrashEvent

def crashEvents (evs : List CrashEvent) : List Event := evs.flatMap CrashEvent.events

def crashUpdates (evs : List CrashEvent) : ℕ := evs.countP CrashEvent.isUpdate

/-- The session shows new data, under the next revision. -/
def Session.Advances (s s' : Session M) (data : List UInt8) : Prop :=
  s'.journal.data.1 = data ∧ s'.journal.data.2.toNat = s.journal.data.2.toNat+1

/-- What one event may do to what the journal shows. -/
def Recovers (s s' : Session M) : CrashEvent → Prop
  | .update data => if s.journal.Accepts data then s.Advances s' data else s' = s
  | .cut data _ => s'.journal.data = s.journal.data ∨ s.journal.Accepts data ∧ s.Advances s' data
  | .reopen => s'.journal.data = s.journal.data

lemma Recovers.revision_le {s s' : Session M} {ev : CrashEvent} (h : Recovers s s' ev) :
    s'.journal.data.2.toNat ≤ s.journal.data.2.toNat+[ev].countP CrashEvent.isUpdate := by
  cases ev with
  | update data =>
    simp only [Recovers] at h
    split at h
    · exact h.2.le
    · rw [h]
      omega
  | cut data k =>
    rcases h with h | ⟨-,h⟩
    · rw [h]
      omega
    · exact h.2.le
  | reopen =>
    rw [show s'.journal.data = s.journal.data from h]
    omega

lemma Session.Advances.of_quiet {s s' : Session M} {r : Region M} {data : List UInt8}
    (hrev : s.journal.current.revision.toNat+1 < 2^32)
    (hq : Quiet s'.dev s'.journal r (some (s.journal.newEntry data))) : s.Advances s' data := by
  have hd := hq.data_eq
  refine ⟨by rw [hd]; rfl,?_⟩
  rw [hd]
  exact toNat_succ hrev

section Step
variable {s : Session M} {r : Region M} {x : Option Entry} (h : Quiet s.dev s.journal r x)
include h

lemma Quiet.step_reopen : ∃ s', s.step .reopen = .ok s' ∧ Quiet s'.dev s'.journal r x := by
  obtain ⟨j',hopen,hq⟩ := h.reopen
  rw [← h.on.start,← h.on.length] at hopen
  exact ⟨_,Session.step_reopen hopen,hq⟩

/-- Every event leaves a journal that agrees with the device. -/
theorem Quiet.crash_step (hov : r.length*M.blockSize ≤ M.maxUint)
    (hrev : s.journal.current.revision.toNat+1 < 2^32) (ev : CrashEvent)
    (hA : Transition.Along Session.next Session.Assumed s ev.events)
    (hU : Transition.Along Session.next Session.Unmixed s ev.events) :
    ∃ s' x', Transition.run Session.next s ev.events = some s' ∧
      Quiet s'.dev s'.journal r x' ∧ Recovers s s' ev := by
  cases ev with
  | update data =>
    rw [CrashEvent.events,Transition.run_single]
    by_cases ha : s.journal.Accepts data
    · have hq := h.store_all hrev ha (hA.1 ha)
      refine ⟨_,_,Session.next_eq (Session.step_update ha h.on.addressed h.on_device (h.target_fits ha)),hq,?_⟩
      rw [Recovers,if_pos ha]
      exact .of_quiet hrev hq
    · exact ⟨s,x,Session.next_eq (Session.step_update_rejected ha),h,by rw [Recovers,if_neg ha]⟩
  | reopen =>
    rw [CrashEvent.events,Transition.run_single]
    obtain ⟨s',hs,hq⟩ := h.step_reopen
    exact ⟨s',x,Session.next_eq hs,hq,by rw [Recovers,hq.data_eq,h.data_eq]⟩
  | cut data k =>
    rw [CrashEvent.events,Transition.run]
    by_cases ha : s.journal.Accepts data
    · have hsound : Holds.Sound s.dev (s.journal.target M data)
          (min k (numBlocks M (entryHeaderSize+data.length))) (s.journal.current.revision+1) data := by
        intro h0 hlt
        exact ⟨hU.1 ha (by omega) (by omega),(hA.1 ha).2⟩
      obtain ⟨j',hopen,hq⟩ := h.store_part hrev ha (hA.1 ha).1 hov (Nat.min_le_right _ _) hsound
      rw [← h.on.start,← h.on.length] at hopen
      rw [Session.next_eq (Session.step_fail ha k),Option.bind_some,Transition.run_single]
      rcases hq with hq | hq
      · exact ⟨_,x,Session.next_eq (Session.step_reopen hopen),hq,.inl (by rw [hq.data_eq,h.data_eq])⟩
      · exact ⟨_,_,Session.next_eq (Session.step_reopen hopen),hq,.inr ⟨ha,.of_quiet hrev hq⟩⟩
    · obtain ⟨s',hs,hq⟩ := h.step_reopen
      refine ⟨s',x,?_,hq,.inl (by rw [hq.data_eq,h.data_eq])⟩
      rw [Session.next_eq (Session.step_fail_rejected ha k),Option.bind_some,Transition.run_single,
        Session.next_eq hs]

end Step

/-- Along a whole run the journal agrees with the device. -/
theorem Quiet.crash_run {r : Region M} (hov : r.length*M.blockSize ≤ M.maxUint) (evs : List CrashEvent)
    {s : Session M} {x : Option Entry} (h : Quiet s.dev s.journal r x)
    (hrev : s.journal.current.revision.toNat+crashUpdates evs < 2^32-1)
    (hA : Transition.Along Session.next Session.Assumed s (crashEvents evs))
    (hU : Transition.Along Session.next Session.Unmixed s (crashEvents evs)) :
    ∃ s' x', Transition.run Session.next s (crashEvents evs) = some s' ∧ Quiet s'.dev s'.journal r x' ∧
      s'.journal.current.revision.toNat ≤ s.journal.current.revision.toNat+crashUpdates evs := by
  induction evs generalizing s x with
  | nil => exact ⟨s,x,rfl,h,Nat.le_add_right _ _⟩
  | cons ev evs ih =>
    have hcount : crashUpdates (ev::evs) = [ev].countP CrashEvent.isUpdate+crashUpdates evs := by
      rw [crashUpdates,← List.singleton_append,List.countP_append]
      rfl
    have hsplit : crashEvents (ev::evs) = ev.events ++ crashEvents evs := rfl
    rw [hsplit] at hA hU ⊢
    obtain ⟨s',x',hs,hq,hrec⟩ := h.crash_step hov (by omega) ev hA.left hU.left
    have hle : s'.journal.current.revision.toNat ≤ s.journal.current.revision.toNat+_ := hrec.revision_le
    obtain ⟨s'',x'',hs',hq',hle'⟩ := ih hq (by omega) (hA.right hs) (hU.right hs)
    exact ⟨s'',x'',Transition.run_trans hs hs',hq',by omega⟩

/-- Crash recovery: in every run of updates, power losses and reopenings on a
blank region every `OpenJournal` succeeds, and each event shows the old data, or
the data of the update it is about under the next revision, and nothing else. -/
theorem crash_recovery (r : Region M) (hov : r.length*M.blockSize ≤ M.maxUint) {d : Device M}
    (hd : d.Blank r) (evs : List CrashEvent) (ev : CrashEvent) (hcount : crashUpdates (evs ++ [ev]) < 2^32-1)
    (hA : Session.AlongFrom Session.Assumed d r (crashEvents (evs ++ [ev])))
    (hU : Session.AlongFrom Session.Unmixed d r (crashEvents (evs ++ [ev]))) :
    (∃ j, openJournal d r.start r.length = .ok j ∧ j.data = ([],0)) ∧
    ∃ s s', Session.runFrom d r (crashEvents evs) = some s ∧ Transition.run Session.next s ev.events = some s' ∧
      Recovers s s' ev := by
  obtain ⟨j,hopen,hq⟩ := Quiet.blank hd
  refine ⟨⟨j,hopen,hq.data_eq⟩,?_⟩
  have hzero : j.current.revision.toNat = 0 := by
    rw [hq.current]
    rfl
  have hsplit : crashEvents (evs ++ [ev]) = crashEvents evs ++ ev.events := by
    simp [crashEvents]
  have hsum : crashUpdates (evs ++ [ev]) = crashUpdates evs+[ev].countP CrashEvent.isUpdate :=
    List.countP_append
  rw [Session.alongFrom_iff hopen,hsplit] at hA hU
  obtain ⟨s,x,hs,hqs,hle⟩ := Quiet.crash_run hov (s := ⟨d,j,j.currentBlock M,[]⟩) evs hq
    (by dsimp only; omega) hA.left hU.left
  obtain ⟨s',x',hs',-,hrec⟩ :=
    hqs.crash_step hov (by dsimp only at hle; omega) ev (hA.right hs) (hU.right hs)
  exact ⟨s,s',by rw [Session.runFrom_eq hopen,hs],hs',hrec⟩

theorem crash_recovery_sixBlocks :
    (∃ j, openJournal (Device.zeros smallMachine 6) 0 6 = .ok j ∧ j.data = ([],0)) ∧
    ∃ s s', Session.runFrom (Device.zeros smallMachine 6) sixBlocks
      (crashEvents [.update [0x41],.update [],.update [0x42],.cut [0x43] 1]) = some s ∧
      Transition.run Session.next s (CrashEvent.cut [0x41] 2).events = some s' ∧ Recovers s s' (.cut [0x41] 2) :=
  crash_recovery sixBlocks (by decide) zeros_blank _ _ (by decide) (by decide +kernel) (by decide +kernel)

/-- A run in which the last power loss brings back revision 2 although revision 6
was current. The update cut off before it left its header in front of the header
of an older record, whose first byte completes its data `T`; once the data of that
older record, `T` again, has been overwritten by the header of a newer one, the
older record is whole, and the scan for a first good entry finds it. -/
def staleRun : List CrashEvent :=
  [.update [],.update [0x54],.update [0x54],.cut [0x54] 1,.update [0x54],.update []]

theorem stale_record_recovered :
    (Device.zeros smallMachine 6).Blank sixBlocks ∧
    crashUpdates (staleRun ++ [.cut [0x41] 1]) < 2^32-1 ∧
    Session.AlongFrom Session.Assumed (Device.zeros smallMachine 6) sixBlocks
      (crashEvents (staleRun ++ [.cut [0x41] 1])) ∧
    (Session.runFrom (Device.zeros smallMachine 6) sixBlocks (crashEvents staleRun)).map
      (fun s => s.journal.data) = some ([],6) ∧
    (Session.runFrom (Device.zeros smallMachine 6) sixBlocks
      (crashEvents (staleRun ++ [.cut [0x41] 1]))).map (fun s => s.journal.data) = some ([0x54],2) ∧
    ¬ ∃ s s', Session.runFrom (Device.zeros smallMachine 6) sixBlocks (crashEvents staleRun) = some s ∧
      Transition.run Session.next s (CrashEvent.cut [0x41] 1).events = some s' ∧ Recovers s s' (.cut [0x41] 1) := by
  have hbefore : (Session.runFrom (Device.zeros smallMachine 6) sixBlocks (crashEvents staleRun)).map
      (fun s => s.journal.data) = some ([],6) := by decide +kernel
  have hafter : (Session.runFrom (Device.zeros smallMachine 6) sixBlocks
      (crashEvents (staleRun ++ [.cut [0x41] 1]))).map (fun s => s.journal.data) = some ([0x54],2) := by
    decide +kernel
  refine ⟨zeros_blank,by decide,by decide +kernel,hbefore,hafter,?_⟩
  rintro ⟨s,s',hs,hs',hrec⟩
  have hsplit : crashEvents (staleRun ++ [.cut [0x41] 1]) =
      crashEvents staleRun ++ (CrashEvent.cut [0x41] 1).events := rfl
  rw [hsplit,Session.runFrom_append,hs,Option.bind_some,hs'] at hafter
  rw [hs] at hbefore
  obtain ⟨t,ht,hold⟩ := Option.map_eq_some_iff.mp hbefore
  obtain ⟨t',ht',hnew⟩ := Option.map_eq_some_iff.mp hafter
  cases ht
  cases ht'
  rcases hrec with hsame | ⟨-,-,hrev⟩
  · rw [hold,hnew] at hsame
    exact absurd hsame (by decide)
  · rw [hold,hnew] at hrev
    exact absurd hrev (by decide)

end ArmoredWitness.Slots
