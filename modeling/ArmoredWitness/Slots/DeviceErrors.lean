import ArmoredWitness.Slots.Crash
import ArmoredWitness.Slots.Overlap

/-! Device errors. An update may fail after any number of its blocks, and the
caller goes on with the journal it has, or opens it again. -/
namespace ArmoredWitness.Slots
open Lib

variable {M : Machine}

/-- No update writes into the current record. -/
def Session.Apart (s : Session M) : Event → Prop
  | .update data => s.journal.Accepts data → s.Spares data
  | .fail data _ => s.journal.Accepts data → s.Spares data
  | .reopen => True

instance (s : Session M) : (ev : Event) → Decidable (s.Apart ev)
  | .update _ => inferInstanceAs (Decidable (_ → _))
  | .fail _ _ => inferInstanceAs (Decidable (_ → _))
  | .reopen => inferInstanceAs (Decidable True)

/-- Opening the journal shows what the journal in memory shows, or the data of an
update that has failed since, under the next revision. -/
def Session.Recoverable (s : Session M) : Prop :=
  ∃ j, openJournal s.dev s.journal.start s.journal.length = .ok j ∧
    (j.data = s.journal.data ∨
      ∃ data ∈ s.failed, j.data.1 = data ∧ j.data.2.toNat = s.journal.data.2.toNat+1)

/-- The highest revision that opening the journal may show. -/
def Session.reach (s : Session M) : ℕ :=
  s.journal.current.revision.toNat+if s.failed = [] then 0 else 1

lemma Session.revision_le_reach (s : Session M) : s.journal.current.revision.toNat ≤ s.reach :=
  Nat.le_add_right _ _

/-- The log on the device holds the current record, followed by records of failed
updates only; while such a record lies at the start of the region, the next
update goes there. -/
structure Kept (s : Session M) (r : Region M) (p c : ℕ) (x : Option Entry) (e : ℕ) : Prop where
  holds : Holds s.dev r (fun y => ∃ data ∈ s.failed, y = s.journal.newEntry data) p c x e
  tracks : s.journal.Tracks r x e
  head : r.start < p → ∀ z, s.dev.tape r.start = .whole z → s.journal.nextBlock = r.start
  block : x ≠ none → s.block = some c

/-- Where the current record of a freshly opened journal lies. -/
lemma Holds.currentBlock {d : Device M} {r : Region M} {F : Entry → Prop} {p c e : ℕ} {x : Option Entry}
    (h : Holds d r F p c x e) (hx : x ≠ none) :
    Journal.currentBlock M ⟨r.start,r.length,x.getD Entry.zero,if r.stop ≤ e then r.start else e,
      maxDataBytes M r.length⟩ = some c := by
  cases x with
  | none => exact absurd rfl hx
  | some z =>
    have hpos := h.revision_pos rfl
    have hne : z.revision ≠ 0 := UInt32.pos_iff_ne_zero.mp hpos
    have he := h.live.chain.last_record.2
    rw [entryFormat_width] at he
    have hw := z.blocks_pos M
    have hle := h.live.chain.le_last
    have hstart := h.live.start_le
    have hend := h.live.end_le
    have hstop : r.stop = r.start+r.length := rfl
    simp only [Journal.currentBlock,Option.getD_some,if_neg hne]
    congr 1
    split_ifs <;> omega

namespace Kept
variable {s : Session M} {r : Region M} {p c e : ℕ} {x : Option Entry} {data : List UInt8}

/-- A session on a journal that has just been opened. -/
lemma of_scan {d : Device M} (h : Holds d r (fun _ => False) p c x e) (failed : List (List UInt8)) :
    Kept ⟨d,⟨r.start,r.length,x.getD Entry.zero,if r.stop ≤ e then r.start else e,
      maxDataBytes M r.length⟩,Journal.currentBlock M ⟨r.start,r.length,x.getD Entry.zero,
      if r.stop ≤ e then r.start else e,maxDataBytes M r.length⟩,failed⟩ r p c x e where
  holds := h.mono fun _ hz => hz.elim
  tracks := by
    refine ⟨⟨h.tidy.addressed,rfl,rfl,rfl⟩,rfl,?_⟩
    by_cases he : r.stop ≤ e
    · exact .inr (if_pos he)
    · exact .inl (if_neg he)
  head hp z hz := ((h.live.head hp).2 z hz).2.1.elim
  block := h.currentBlock

section
variable (h : Kept s r p c x e)
include h

lemma recoverable (hrev : s.journal.current.revision.toNat+1 < 2^32) : s.Recoverable := by
  obtain ⟨x',p',c',e',hopen,-,hcases⟩ := h.holds.openJournal
  unfold Session.Recoverable
  rw [h.tracks.on.start,h.tracks.on.length]
  refine ⟨_,hopen,?_⟩
  rcases hcases with ⟨rfl,-,-⟩ | ⟨y,rfl,⟨data,hmem,rfl⟩,-⟩
  · left
    rw [Journal.data,Journal.data,h.tracks.current]
  · refine .inr ⟨data,hmem,rfl,?_⟩
    exact toNat_succ hrev

lemma step_reopen (hrev : s.journal.current.revision.toNat+1 < 2^32) :
    ∃ s' p' c' x' e', s.step .reopen = .ok s' ∧ Kept s' r p' c' x' e' ∧ s'.reach ≤ s.reach := by
  obtain ⟨x',p',c',e',hopen,hholds,hcases⟩ := h.holds.openJournal
  rw [← h.tracks.on.start,← h.tracks.on.length] at hopen
  have hstep := Session.step_reopen hopen
  rw [h.tracks.on.start,h.tracks.on.length] at hstep
  refine ⟨_,p',c',x',e',hstep,of_scan hholds _,?_⟩
  unfold Session.reach
  rcases hcases with ⟨rfl,-,-⟩ | ⟨y,rfl,⟨data,hmem,rfl⟩,-⟩
  · rw [← h.tracks.current,if_pos rfl]
  · have hnext : (s.journal.newEntry data).revision.toNat = s.journal.current.revision.toNat+1 :=
      toNat_succ hrev
    have hne : (s.journal.newEntry data).revision ≠ s.journal.current.revision := by
      intro heq
      rw [heq] at hnext
      omega
    have hsome : s.failed ≠ [] := List.ne_nil_of_mem hmem
    simp only [Option.getD_some,if_neg hne,if_neg hsome,hnext]
    simp

variable (ha : s.journal.Accepts data) (hspares : s.Spares data)
include ha hspares

/-- An update goes after the current record, with no record left at the start that
the scan would find first, or to the start of the region, below the current record. -/
lemma place : s.journal.target M data = e ∧ s.journal.nextBlock = e ∧
      e+numBlocks M (entryHeaderSize+data.length) ≤ r.stop ∧
      (r.start < p → ∀ z, s.dev.tape r.start ≠ .whole z) ∨
    s.journal.target M data = r.start ∧ x ≠ none ∧
      r.start+numBlocks M (entryHeaderSize+data.length) ≤ r.stop ∧
      r.start+numBlocks M (entryHeaderSize+data.length) ≤ c ∧ c < e := by
  have hle := h.holds.live.chain.le_last
  have hstart := h.holds.live.start_le
  rcases h.holds.target_cases h.tracks ha with ⟨hn,ht,hfit⟩ | ⟨ht,hfit,hx,-⟩
  · refine .inl ⟨ht,hn,hfit,fun hp z hz => ?_⟩
    have hnext := h.head hp z hz
    omega
  · have hlt := h.holds.live.last_lt hx
    have hblocks : e = c+s.journal.current.blocks M := by
      rw [h.tracks.current]
      cases x with
      | none => exact absurd rfl hx
      | some z => exact h.holds.live.chain.last_record.2
    refine .inr ⟨ht,hx,hfit,?_,hlt⟩
    have hsep := Session.spares_iff.mp hspares c (h.block hx)
    omega

variable (hrev : s.journal.current.revision.toNat+1 < 2^32) (hfree : FreeOfMagic M data)
include hrev hfree

lemma step_update : ∃ s' p' c' x' e', s.step (.update data) = .ok s' ∧ Kept s' r p' c' x' e' ∧
    s'.reach ≤ s.reach+1 := by
  have hnext := h.tracks.next_revision hrev
  have hon := h.tracks.on
  have hsize := hon.accepts_iff.mp ha
  have hdev := h.holds.tidy.on_device
  have hreach : (s.journal.newEntry data).revision.toNat+0 ≤ s.reach+1 := by
    have hle := s.revision_le_reach
    have heq : (s.journal.newEntry data).revision.toNat = s.journal.current.revision.toNat+1 :=
      toNat_succ hrev
    omega
  rcases h.place ha hspares with ⟨ht,-,hfit,hhead⟩ | ⟨ht,hx,hfit,hc,hlt⟩
  · have hnew := h.holds.ok_end hnext hfree hsize hfit hhead
    refine ⟨_,p,e,some (s.journal.newEntry data),e+numBlocks M (entryHeaderSize+data.length),
      Session.step_update ha hon.addressed hdev (by omega),?_,hreach⟩
    rw [ht]
    exact ⟨hnew.mono fun _ hz => hz.elim,⟨⟨hon.addressed,hon.start,hon.length,hon.maxDataBytes⟩,rfl,.inl rfl⟩,
      fun hp z hz => ((hnew.live.head hp).2 z hz).2.1.elim,fun _ => rfl⟩
  · have hnew := h.holds.ok_start hnext hfree hsize hfit fun he => by omega
    refine ⟨_,r.start,r.start,some (s.journal.newEntry data),
      r.start+numBlocks M (entryHeaderSize+data.length),
      Session.step_update ha hon.addressed hdev (by omega),?_,hreach⟩
    rw [ht]
    exact ⟨hnew.mono fun _ hz => hz.elim,⟨⟨hon.addressed,hon.start,hon.length,hon.maxDataBytes⟩,rfl,.inl rfl⟩,
      fun hp => absurd hp (lt_irrefl _),fun _ => rfl⟩

lemma step_fail {k : ℕ} (hsound : Holds.Sound s.dev (s.journal.target M data)
      (min k (numBlocks M (entryHeaderSize+data.length))) (s.journal.current.revision+1) data) :
    ∃ s' p', s.step (.fail data k) = .ok s' ∧ Kept s' r p' c x e ∧ s'.reach ≤ s.reach+1 := by
  have hnext := h.tracks.next_revision hrev
  have hon := h.tracks.on
  have hsize := hon.accepts_iff.mp ha
  have hk := Nat.min_le_right k (numBlocks M (entryHeaderSize+data.length))
  have hreach : s.journal.current.revision.toNat+1 ≤ s.reach+1 := Nat.succ_le_succ s.revision_le_reach
  have hpending : ∀ z, (∃ data' ∈ s.failed, z = s.journal.newEntry data') ∨ z = s.journal.newEntry data →
      ∃ data' ∈ data::s.failed, z = s.journal.newEntry data' := by
    rintro z (⟨data',hmem,rfl⟩ | rfl)
    · exact ⟨data',List.mem_cons_of_mem _ hmem,rfl⟩
    · exact ⟨data,List.mem_cons_self ..,rfl⟩
  rcases h.place ha hspares with ⟨ht,hn,hfit,hhead⟩ | ⟨ht,hx,hfit,hc,hlt⟩
  · rw [ht] at hsound
    have hnew := h.holds.fail_end hnext hfree hsize hk hfit hsound
    refine ⟨_,p,Session.step_fail ha k,?_,hreach⟩
    rw [ht]
    refine ⟨hnew.mono hpending,⟨⟨hon.addressed,hon.start,hon.length,hon.maxDataBytes⟩,h.tracks.current,.inl rfl⟩,
      fun hp z hz => ?_,h.block⟩
    have hle := h.holds.live.chain.le_last
    have hsame : (s.dev.store e (min k (numBlocks M (entryHeaderSize+data.length)))
        (s.journal.newEntry data).bytes).tape r.start = s.dev.tape r.start :=
      (h.holds.writes hnext hfree hsize hk hfit hsound).before _ (by omega)
        (h.holds.live.extent_le le_rfl (by omega))
    rw [hsame] at hz
    exact absurd hz (hhead hp z)
  · rw [ht] at hsound
    obtain ⟨p',hnew⟩ := h.holds.fail_start hnext hfree hsize hk hfit hsound hx (by omega) (by omega)
    refine ⟨_,p',Session.step_fail ha k,?_,hreach⟩
    rw [ht]
    exact ⟨hnew.mono hpending,⟨⟨hon.addressed,hon.start,hon.length,hon.maxDataBytes⟩,h.tracks.current,.inr rfl⟩,
      fun _ _ _ => rfl,h.block⟩

end
end Kept

/-- Every event keeps the log. -/
theorem Kept.step {s : Session M} {r : Region M} {p c e : ℕ} {x : Option Entry}
    (h : Kept s r p c x e) (hrev : s.journal.current.revision.toNat+1 < 2^32) (ev : Event)
    (hA : s.Assumed ev) (hU : s.Unmixed ev) (hapart : s.Apart ev) :
    ∃ s' p' c' x' e', s.step ev = .ok s' ∧ Kept s' r p' c' x' e' ∧
      s'.reach ≤ s.reach+[ev].countP Event.isUpdate := by
  cases ev with
  | reopen => exact h.step_reopen hrev
  | update data =>
    by_cases ha : s.journal.Accepts data
    · exact h.step_update ha (hapart ha) hrev (hA ha)
    · exact ⟨s,p,c,x,e,Session.step_update_rejected ha,h,Nat.le_succ _⟩
  | fail data k =>
    by_cases ha : s.journal.Accepts data
    · have hsound : Holds.Sound s.dev (s.journal.target M data)
          (min k (numBlocks M (entryHeaderSize+data.length))) (s.journal.current.revision+1) data :=
        fun h0 hlt => ⟨hU ha (by omega) (by omega),(hA ha).2⟩
      obtain ⟨s',p',hs,hk,hr⟩ := h.step_fail ha (hapart ha) hrev (hA ha).1 hsound
      exact ⟨s',p',c,x,e,hs,hk,hr⟩
    · exact ⟨s,p,c,x,e,Session.step_fail_rejected ha k,h,Nat.le_succ _⟩

theorem Kept.run (evs : List Event) {s : Session M} {r : Region M} {p c e : ℕ} {x : Option Entry}
    (h : Kept s r p c x e) (hreach : s.reach+evs.countP Event.isUpdate < 2^32-1)
    (hA : Transition.Along Session.next Session.Assumed s evs)
    (hU : Transition.Along Session.next Session.Unmixed s evs)
    (hapart : Transition.Along Session.next Session.Apart s evs) :
    ∃ s' p' c' x' e', Transition.run Session.next s evs = some s' ∧ Kept s' r p' c' x' e' ∧ s'.reach < 2^32-1 := by
  induction evs generalizing s p c x e with
  | nil => exact ⟨s,p,c,x,e,rfl,h,hreach⟩
  | cons ev evs ih =>
    have hle := s.revision_le_reach
    have hcount : (ev::evs).countP Event.isUpdate =
        [ev].countP Event.isUpdate+evs.countP Event.isUpdate := by
      rw [← List.singleton_append,List.countP_append]
    obtain ⟨s₁,p₁,c₁,x₁,e₁,hs₁,hk₁,hr₁⟩ := h.step (by omega) ev hA.1 hU.1 hapart.1
    have hn₁ := Session.next_eq hs₁
    obtain ⟨s',p',c',x',e',hs',hk',hr'⟩ := ih hk₁ (by omega) (hA.tail hn₁) (hU.tail hn₁) (hapart.tail hn₁)
    exact ⟨s',p',c',x',e',by rw [Transition.run,hn₁,Option.bind_some,hs'],hk',hr'⟩

/-- Device errors lose nothing: in every run of updates, failed updates and
reopenings in which no update writes into the current record, a failed update
leaves the data in memory alone, and opening the journal shows that data, or the
data of an update that has failed since it became current. -/
theorem device_errors_lose_nothing (r : Region M) {d : Device M} (hd : d.Blank r) (evs : List Event)
    (hcount : evs.countP Event.isUpdate < 2^32-1)
    (hA : Session.AlongFrom Session.Assumed d r evs) (hU : Session.AlongFrom Session.Unmixed d r evs)
    (hapart : Session.AlongFrom Session.Apart d r evs) :
    ∃ s, Session.runFrom d r evs = some s ∧ s.Recoverable ∧
      ∀ data k, (s.journal.update (writePrefix k) s.dev data).2.1.data = s.journal.data := by
  obtain ⟨x',p',c',e',hopen,hholds,⟨rfl,-,-⟩ | ⟨y,-,hF,-⟩⟩ := (Holds.blank hd).openJournal
  · have hk := Kept.of_scan hholds []
    rw [Session.alongFrom_iff hopen] at hA hU hapart
    have hzero : Entry.zero.revision.toNat+(if ([] : List (List UInt8)) = [] then 0 else 1) = 0 := rfl
    obtain ⟨s,p,c,x,e,hs,hks,hr⟩ := hk.run evs
      (by rw [Session.reach,Option.getD_none,hzero]; omega) hA hU hapart
    have hle := s.revision_le_reach
    refine ⟨s,by rw [Session.runFrom_eq hopen,hs],hks.recoverable (by omega),fun data k => ?_⟩
    by_cases ha : s.journal.Accepts data
    · rw [Journal.update_writePrefix ha]
      rfl
    · rw [Journal.update_tooLarge _ ha]
  · exact hF.elim

theorem device_errors_lose_nothing_sixBlocks :
    ∃ s, Session.runFrom (Device.zeros smallMachine 6) sixBlocks
      [.update [0x41],.fail [0x42] 1,.fail [0x43] 2,.update [],.fail [0x44] 1] = some s ∧ s.Recoverable ∧
      ∀ data k, (s.journal.update (writePrefix k) s.dev data).2.1.data = s.journal.data :=
  device_errors_lose_nothing sixBlocks zeros_blank _ (by decide) (by decide +kernel) (by decide +kernel)
    (by decide +kernel)

/-- The run of `staleRun` again, with failed updates in place of power losses: no
update writes into the current record, and still revision 2 comes back in the
place of revision 6. -/
theorem stale_record_after_error :
    (Device.zeros smallMachine 6).Blank sixBlocks ∧
    Session.AlongFrom Session.Assumed (Device.zeros smallMachine 6) sixBlocks
      (crashEvents staleRun ++ [.fail [0x41] 1]) ∧
    Session.AlongFrom Session.Apart (Device.zeros smallMachine 6) sixBlocks
      (crashEvents staleRun ++ [.fail [0x41] 1]) ∧
    ∃ s, Session.runFrom (Device.zeros smallMachine 6) sixBlocks
        (crashEvents staleRun ++ [.fail [0x41] 1]) = some s ∧ s.journal.data = ([],6) ∧
      (openJournal s.dev 0 6).map Journal.data = .ok ([0x54],2) ∧ ¬ s.Recoverable := by
  refine ⟨zeros_blank,by decide +kernel,by decide +kernel,?_⟩
  have hrun : (Session.runFrom (Device.zeros smallMachine 6) sixBlocks
      (crashEvents staleRun ++ [.fail [0x41] 1])).map
        (fun s => (s.journal.start,s.journal.length,s.journal.data)) = some (0,6,[],6) := by
    decide +kernel
  have hopen : ((Session.runFrom (Device.zeros smallMachine 6) sixBlocks
      (crashEvents staleRun ++ [.fail [0x41] 1])).bind
        fun s => ((openJournal s.dev 0 6).map Journal.data).toOption) = some ([0x54],2) := by
    decide +kernel
  obtain ⟨s,hs,hpair⟩ := Option.map_eq_some_iff.mp hrun
  obtain ⟨hstart,hlength,hdata⟩ : s.journal.start = 0 ∧ s.journal.length = 6 ∧ s.journal.data = ([],6) := by
    simpa only [Prod.mk.injEq] using hpair
  rw [hs,Option.bind_some,Outcome.toOption_eq_some] at hopen
  refine ⟨s,hs,hdata,hopen,?_⟩
  rintro ⟨j,hj,hcases⟩
  rw [hstart,hlength] at hj
  rw [hj,Outcome.map_ok] at hopen
  have hshow : j.data = ([0x54],2) := Outcome.ok.inj hopen
  rcases hcases with hsame | ⟨data,-,-,hrev⟩
  · rw [hshow,hdata] at hsame
    exact absurd hsame (by decide)
  · rw [hshow,hdata] at hrev
    exact absurd hrev (by decide)

end ArmoredWitness.Slots
