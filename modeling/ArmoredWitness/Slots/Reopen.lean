import ArmoredWitness.Slots.Session

/-! Reopening. The next block that `init` computes from the bytes it has read is
the one that `Update` tracks by counting blocks, up to the wrap at the end of the
region, so opening the journal again at any time changes nothing that follows. -/
namespace ArmoredWitness.Slots
open Lib

variable {M : Machine}

/-- The journal with its next block wrapped as `init` does. -/
def Journal.wrapped (j : Journal) (r : Region M) : Journal :=
  {j with nextBlock := if j.nextBlock = r.stop then r.start else j.nextBlock}

namespace Quiet
variable {d : Device M} {j : Journal} {r : Region M} {x : Option Entry} (h : Quiet d j r x)
include h

/-- What is read back from the device is the journal in memory. -/
theorem openJournal_eq : openJournal d r.start r.length = .ok (j.wrapped r) := by
  obtain ⟨p,c,e,hh,ht,hwrap⟩ := h
  obtain ⟨x',p',c',e',hopen,-,⟨rfl,-,rfl⟩ | ⟨y,-,hF,-⟩⟩ := hh.openJournal
  · have hend := hh.live.end_le
    have hnext : (if r.stop ≤ e' then r.start else e') =
        if j.nextBlock = r.stop then r.start else j.nextBlock := by
      rcases ht.next with hn | hn
      · rw [hn]
        split_ifs <;> omega
      · rw [hn]
        split_ifs <;> omega
    rw [hopen,hnext,← ht.current,← ht.on.maxDataBytes,← ht.on.length]
    nth_rewrite 1 [← ht.on.start]
    rfl
  · exact hF.elim

/-- An update goes to the same block before and after the wrap. -/
lemma wrapped_target {data : List UInt8} (hlen : data.length ≤ M.maxInt) :
    (j.wrapped r).target M data = j.target M data := by
  by_cases hn : j.nextBlock = r.stop
  · have hcap : j.capIn M.arith M = 0 := by
      rw [h.on.capIn_eq hn.le,hn,Nat.sub_self,Nat.zero_mul]
      rfl
    have hpos : 0 < M.arith.uint (j.newEntry data).size := by
      rw [h.on.uint_size hlen]
      exact Nat.add_pos_left (by decide) _
    have hnext : (j.wrapped r).nextBlock = j.start := by rw [h.on.start]; exact if_pos hn
    have hwrapped : (j.wrapped r).target M data = j.start := by
      unfold Journal.target Journal.targetIn
      rw [hnext]
      exact ite_self _
    rw [hwrapped,Journal.target,Journal.targetIn,hcap]
    exact (if_pos hpos).symm
  · have hsame : j.wrapped r = j := by
      rw [Journal.wrapped,if_neg hn]
    rw [hsame]

end Quiet

/-- Two sessions on one device, of which the first has perhaps reopened its journal. -/
structure Twins (s s' : Session M) (r : Region M) (x : Option Entry) : Prop where
  dev : s.dev = s'.dev
  quiet : Quiet s'.dev s'.journal r x
  journal : s.journal = s'.journal ∨ s.journal = s'.journal.wrapped r

namespace Twins
variable {s s' : Session M} {r : Region M} {x : Option Entry} {data : List UInt8} (h : Twins s s' r x)
include h

lemma current : s.journal.current = s'.journal.current := by
  rcases h.journal with hj | hj
  · rw [hj]
  · rw [hj]
    rfl

lemma accepts : s.journal.Accepts data ↔ s'.journal.Accepts data := by
  rcases h.journal with hj | hj
  · rw [hj]
  · rw [hj]
    rfl

lemma target (hlen : data.length ≤ M.maxInt) : s.journal.target M data = s'.journal.target M data := by
  rcases h.journal with hj | hj
  · rw [hj]
  · rw [hj,h.quiet.wrapped_target hlen]

lemma step_reopen : ∃ t, s.step .reopen = .ok t ∧ Twins t s' r x := by
  have hon : s.journal.start = r.start ∧ s.journal.length = r.length := by
    have hq := h.quiet.on
    rcases h.journal with hj | hj <;> rw [hj] <;> exact ⟨hq.start,hq.length⟩
  have hopen := h.quiet.openJournal_eq
  rw [← h.dev,← hon.1,← hon.2] at hopen
  exact ⟨_,Session.step_reopen hopen,h.dev,h.quiet,.inr rfl⟩

lemma step_update (hrev : s'.journal.current.revision.toNat+1 < 2^32) (ha : s'.journal.Accepts data)
    (hfree : FreeOfMagic M data) : ∃ t t', s.step (.update data) = .ok t ∧
      s'.step (.update data) = .ok t' ∧ Twins t t' r (some (s'.journal.newEntry data)) := by
  have hfit := h.quiet.target_fits ha
  have hq := h.quiet.store_all hrev ha hfree
  have htarget := h.target (h.quiet.on.length_le ha)
  have hfit' := hfit
  rw [← htarget] at hfit'
  have hdev := h.quiet.on_device
  have hdev' := hdev
  rw [← h.dev] at hdev'
  have hnew : s.journal.newEntry data = s'.journal.newEntry data := by
    rw [Journal.newEntry,h.current]
    rfl
  refine ⟨_,_,Session.step_update (h.accepts.mpr ha) h.quiet.on.addressed hdev' hfit',
    Session.step_update ha h.quiet.on.addressed hdev hfit,⟨?_,hq,.inl ?_⟩⟩
  · dsimp only
    rw [h.dev,htarget,hnew]
  · dsimp only
    rw [htarget,hnew]
    rcases h.journal with hj | hj
    · rw [hj]
    · rw [hj]
      rfl

end Twins

theorem twins_run {r : Region M} (evs : List Event) {s s' : Session M} {x : Option Entry}
    (h : Twins s s' r x) (hev : ∀ ev ∈ evs, ev.Faultless)
    (hcount : s'.journal.current.revision.toNat+evs.countP Event.isUpdate < 2^32-1)
    (hA : Transition.Along Session.next Session.Assumed s evs) : ∃ t t' x',
      Transition.run Session.next s evs = some t ∧
      Transition.run Session.next s' (evs.filter Event.isUpdate) = some t' ∧ Twins t t' r x' := by
  induction evs generalizing s s' x with
  | nil => exact ⟨s,s',x,rfl,rfl,h⟩
  | cons ev evs ih =>
    have hrest : ∀ ev ∈ evs, ev.Faultless := fun ev hm => hev ev (List.mem_cons_of_mem _ hm)
    cases ev with
    | fail data k => exact (hev _ (List.mem_cons_self ..)).elim
    | reopen =>
      obtain ⟨t,ht,htwins⟩ := h.step_reopen
      obtain ⟨u,u',x',hu,hu',htwins'⟩ := ih htwins hrest hcount (hA.tail (Session.next_eq ht))
      exact ⟨u,u',x',by rw [Transition.run,Session.next_eq ht,Option.bind_some,hu],hu',htwins'⟩
    | update data =>
      have hcons : (Event.update data::evs).countP Event.isUpdate = evs.countP Event.isUpdate+1 :=
        List.countP_cons_of_pos rfl
      have hfilter : (Event.update data::evs).filter Event.isUpdate =
          .update data::evs.filter Event.isUpdate := rfl
      rw [hfilter]
      by_cases ha : s'.journal.Accepts data
      · obtain ⟨t,t',ht,ht',htwins⟩ := h.step_update (by omega) ha (hA.1 (h.accepts.mpr ha))
        have hcur : t'.journal.current.revision.toNat = s'.journal.current.revision.toNat+1 := by
          rw [htwins.quiet.current]
          exact toNat_succ (by omega)
        obtain ⟨u,u',x',hu,hu',htwins'⟩ := ih htwins hrest (by omega) (hA.tail (Session.next_eq ht))
        exact ⟨u,u',x',by rw [Transition.run,Session.next_eq ht,Option.bind_some,hu],
          by rw [Transition.run,Session.next_eq ht',Option.bind_some,hu'],htwins'⟩
      · have hs := Session.next_eq (Session.step_update_rejected fun hc => ha (h.accepts.mp hc))
        have hs' := Session.next_eq (Session.step_update_rejected ha)
        obtain ⟨u,u',x',hu,hu',htwins'⟩ := ih h hrest (by omega) (hA.tail hs)
        exact ⟨u,u',x',by rw [Transition.run,hs,Option.bind_some,hu],
          by rw [Transition.run,hs',Option.bind_some,hu'],htwins'⟩

/-- Reopening is transparent: a run and the same run without its reopenings come to
the same device and show the same data, every further update goes to the same
block, and the next blocks are the same up to the wrap at the end of the region. -/
theorem reopening_transparent (r : Region M) {d : Device M} (hd : d.Blank r) (evs : List Event)
    (hev : ∀ ev ∈ evs, ev.Faultless) (hcount : evs.countP Event.isUpdate < 2^32-1)
    (hA : Session.AlongFrom Session.Assumed d r evs) :
    ∃ s s', Session.runFrom d r evs = some s ∧
      Session.runFrom d r (evs.filter Event.isUpdate) = some s' ∧ s.dev = s'.dev ∧
      s.journal.data = s'.journal.data ∧
      (∀ data : List UInt8, data.length ≤ M.maxInt → s.journal.target M data = s'.journal.target M data) ∧
      (s.journal.nextBlock = s'.journal.nextBlock ∨
        s.journal.nextBlock = r.start ∧ s'.journal.nextBlock = r.stop) := by
  obtain ⟨j,hopen,hq⟩ := Quiet.blank hd
  have hzero : j.current.revision.toNat = 0 := by
    rw [hq.current]
    rfl
  rw [Session.alongFrom_iff hopen] at hA
  have htwins : Twins (⟨d,j,j.currentBlock M,[]⟩ : Session M) ⟨d,j,j.currentBlock M,[]⟩ r none :=
    ⟨rfl,hq,.inl rfl⟩
  obtain ⟨s,s',x,hs,hs',ht⟩ := twins_run evs htwins hev (by dsimp only; omega) hA
  refine ⟨s,s',by rw [Session.runFrom_eq hopen,hs],by rw [Session.runFrom_eq hopen,hs'],ht.dev,?_,
    fun _ => ht.target,?_⟩
  · rw [Journal.data,Journal.data,ht.current]
  · rcases ht.journal with hj | hj
    · exact .inl (by rw [hj])
    · rw [hj]
      simp only [Journal.wrapped]
      split_ifs with hstop
      · exact .inr ⟨rfl,hstop⟩
      · exact .inl rfl

theorem reopening_transparent_sixBlocks :
    ∃ s s', Session.runFrom (Device.zeros smallMachine 6) sixBlocks
        [.update [0x41],.reopen,.update [],.update [],.update [0x42],.reopen,.update []] = some s ∧
      Session.runFrom (Device.zeros smallMachine 6) sixBlocks
        [.update [0x41],.update [],.update [],.update [0x42],.update []] = some s' ∧ s.dev = s'.dev ∧
      s.journal.data = s'.journal.data ∧
      (∀ data : List UInt8, data.length ≤ smallMachine.maxInt →
        s.journal.target smallMachine data = s'.journal.target smallMachine data) ∧
      (s.journal.nextBlock = s'.journal.nextBlock ∨
        s.journal.nextBlock = 0 ∧ s'.journal.nextBlock = 6) :=
  reopening_transparent sixBlocks zeros_blank
    [.update [0x41],.reopen,.update [],.update [],.update [0x42],.reopen,.update []]
    (by simp [Event.Faultless]) (by decide) (by decide +kernel)

/-- Six blocks beyond the first 2^32 bytes. -/
def distantBlocks : Region smallMachine := ⟨2^28,6,by decide⟩

/-- On a machine of 32 bits, reopening a journal there reads the first blocks of the
device, and the record is not found again. -/
theorem reopening_loses_distant_record :
    distantBlocks.stop ≤ smallMachine.maxUint ∧
    distantBlocks.length*smallMachine.blockSize ≤ smallMachine.maxUint ∧
    Session.AlongFrom Session.Assumed (Device.zeros smallMachine (2^28+6)) distantBlocks [.update [0x41],.reopen] ∧
    (Session.runFrom (Device.zeros smallMachine (2^28+6)) distantBlocks [.update [0x41]]).map
      (fun s => s.journal.data) = some ([0x41],1) ∧
    (Session.runFrom (Device.zeros smallMachine (2^28+6)) distantBlocks [.update [0x41],.reopen]).map
      (fun s => s.journal.data) = some ([],0) := by
  decide +kernel

end ArmoredWitness.Slots
