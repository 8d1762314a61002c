import ArmoredWitness.Mmc.Transfer
import ArmoredWitness.Slots.Locality
import ArmoredWitness.Slots.Session

/-! The journal of a slot is kept on the card: each of its writes is cut into RPCs, any
of which may fail and then stores nothing. Runs of the journal on the card are runs of
the sessions that the journal was analysed in, whose failing updates stop at the end of
an RPC; and as long as a record fits one RPC the card keeps the payload of the last
update that returned nil. -/
namespace ArmoredWitness.Mmc
open Lib Slots

variable {M : Machine}

/-- `WriteBlocks` of the card as the journal sees it. -/
def cardWrites (rpc : Rpc M) (fails : ℕ → Bool) : WriteBlocks M := fun d lba b =>
  ((writeBlocks rpc fails d lba b).dev,(writeBlocks rpc fails d lba b).result)

/-- An update, whose RPCs fail as `fails` says, or `OpenJournal` after a restart. -/
inductive CardEvent
  | update (data : List UInt8) (fails : ℕ → Bool)
  | reopen

namespace CardEvent

def isUpdate : CardEvent → Bool
  | .update _ _ => true
  | .reopen => false

/-- The record fits one RPC. -/
def OneRpc (M : Machine) : CardEvent → Prop
  | .update data _ => numBlocks M (entryHeaderSize+data.length) ≤ rpcBlocks M
  | .reopen => True

/-- No block of the record after the first begins with the magic. -/
def Unforged (M : Machine) : CardEvent → Prop
  | .update data _ => FreeOfMagic M data
  | .reopen => True

instance : (e : CardEvent) → Decidable (e.OneRpc M)
  | .update _ _ => inferInstanceAs (Decidable (_ ≤ _))
  | .reopen => inferInstanceAs (Decidable True)

instance : (e : CardEvent) → Decidable (e.Unforged M)
  | .update data _ => inferInstanceAs (Decidable (FreeOfMagic M data))
  | .reopen => inferInstanceAs (Decidable True)

end CardEvent

/-- A journal and its card; `acked` are the payloads of the updates that returned nil, newest
first. -/
structure CardJournal (M : Machine) where
  dev : Device M
  journal : Journal
  acked : List (List UInt8)

namespace CardJournal

def step (rpc : Rpc M) (s : CardJournal M) : CardEvent → Outcome JournalError (CardJournal M)
  | .update data fails =>
    match s.journal.update (cardWrites rpc fails) s.dev data with
    | (d,j,.ok _) => .ok ⟨d,j,data::s.acked⟩
    | (d,j,_) => .ok ⟨d,j,s.acked⟩
  | .reopen => (openJournal s.dev s.journal.start s.journal.length).map fun j => ⟨s.dev,j,s.acked⟩

/-- A run on a card, from the first `OpenJournal` on. -/
def runFrom (rpc : Rpc M) (card : Card M) (r : Region M) (es : List CardEvent) :
    Outcome JournalError (CardJournal M) :=
  (openJournal card.toDevice r.start r.length).bind fun j =>
    Transition.runOutcome (step rpc) ⟨card.toDevice,j,[]⟩ es

variable {rpc : Rpc M} {r : Region M} {card : Card M}

/-- The journal's block addresses are `uint`s, and it is on the card it was opened on. -/
structure Within (card : Card M) (s : CardJournal M) : Prop where
  start : s.journal.start ≤ M.maxUint
  next : s.journal.nextBlock ≤ M.maxUint
  size : s.dev.size = card.size

lemma uint_le_maxUint (n : ℕ) : M.arith.uint n ≤ M.maxUint := (M.arith_uint n).trans_le (M.wrap_le_maxUint n)

/-- The next block of a journal that was opened is a `uint`, wherever its records are. -/
lemma next_of_open {d : Device M} {start length : ℕ} {j : Journal} (hs : start ≤ M.maxUint)
    (h : openJournal d start length = .ok j) : j.start = start ∧ j.nextBlock ≤ M.maxUint := by
  obtain ⟨⟨last,next⟩,hscan,rfl⟩ := Outcome.map_eq_ok.mp h
  have hrule := (scanLoop M.arith d.readBlocks start length).exec_rule
    (P := fun s => s.lba ≤ M.maxUint ∧ s.nextWriteLBA ≤ M.maxUint)
    (Q := fun x => ∀ last next, x = .ok (last,next) → next ≤ M.maxUint)
    ?_ ?_ (s := ⟨start,Entry.zero,start⟩) ⟨hs,hs⟩
  · have hnext := hrule last next hscan
    refine ⟨rfl,?_⟩
    dsimp only
    split_ifs
    · exact hs
    · exact hnext
  · rintro s t ⟨-,hn⟩ hb
    obtain ⟨-,⟨err,-,-,rfl⟩ | ⟨e,br,-,-,rfl⟩⟩ := scanBody_eq_again hb
    · exact ⟨uint_le_maxUint _,hn⟩
    · exact ⟨uint_le_maxUint _,uint_le_maxUint _⟩
  · rintro s x ⟨hl,hn⟩ hb last next rfl
    obtain ⟨-,hx⟩ | ⟨-,⟨e,br,-,-,hx⟩ | ⟨e,br,-,-,hx⟩ | ⟨p,-,hx⟩⟩ := scanBody_eq_leave hb
    · cases hx
      exact hn
    · cases hx
      exact hl
    · cases hx
    · cases hx

lemma within_of_open {d : Device M} {start length : ℕ} {j : Journal} {acked : List (List UInt8)}
    (hs : start ≤ M.maxUint) (hd : d.size = card.size) (h : openJournal d start length = .ok j) :
    Within card ⟨d,j,acked⟩ := by
  obtain ⟨hstart,hnext⟩ := next_of_open hs h
  exact ⟨hstart.trans_le hs,hnext,hd⟩

lemma bytes_ne_nil (j : Journal) (data : List UInt8) : (j.newEntry data).bytes ≠ [] := by
  intro h
  have hlen : (j.newEntry data).bytes.length = entryHeaderSize+data.length := bytes_length _ _
  have hpos : 0 < entryHeaderSize := by decide
  rw [h,List.length_nil] at hlen
  omega

/-- An update never stops the journal. -/
lemma step_update (rpc : Rpc M) (s : CardJournal M) (data : List UInt8) (fails : ℕ → Bool) :
    ∃ acked, s.step rpc (.update data fails) =
      .ok ⟨(s.journal.update (cardWrites rpc fails) s.dev data).1,
        (s.journal.update (cardWrites rpc fails) s.dev data).2.1,acked⟩ := by
  rw [step]
  rcases s.journal.update (cardWrites rpc fails) s.dev data with ⟨d,j,_ | _ | _⟩
  · exact ⟨data::s.acked,rfl⟩
  · exact ⟨s.acked,rfl⟩
  · exact ⟨s.acked,rfl⟩

lemma step_acked {s : CardJournal M} {data : List UInt8} {fails : ℕ → Bool} {d : Device M} {j : Journal}
    (h : s.journal.update (cardWrites rpc fails) s.dev data = (d,j,.ok ())) :
    s.step rpc (.update data fails) = .ok ⟨d,j,data::s.acked⟩ := by
  rw [step,h]

lemma step_refused {s : CardJournal M} {data : List UInt8} {fails : ℕ → Bool} {d : Device M} {j : Journal}
    {err : JournalError} (h : s.journal.update (cardWrites rpc fails) s.dev data = (d,j,.error err)) :
    s.step rpc (.update data fails) = .ok ⟨d,j,s.acked⟩ := by
  rw [step,h]

lemma Within.target_le {s : CardJournal M} (h : Within card s) (data : List UInt8) :
    s.journal.target M data ≤ M.maxUint := by
  unfold Journal.target Journal.targetIn
  split_ifs
  · exact h.start
  · exact h.next

/-- A write keeps the size of the device, and the addresses stay `uint`s. -/
lemma Within.updated {s : CardJournal M} (h : Within card s) (fault : Fault) (data : List UInt8)
    (acked : List (List UInt8)) :
    Within card ⟨(s.journal.update fault.writeBlocks s.dev data).1,
      (s.journal.update fault.writeBlocks s.dev data).2.1,acked⟩ := by
  by_cases ha : s.journal.Accepts data
  · rw [Journal.update_accepted ha]
    cases fault with
    | none =>
      simp only [Fault.writeBlocks,Slots.writeBlocks]
      split_ifs
      · exact ⟨h.start,uint_le_maxUint _,h.size⟩
      · exact ⟨h.start,h.target_le data,h.size⟩
    | some k => exact ⟨h.start,h.target_le data,h.size⟩
  · rw [Journal.update_tooLarge _ ha]
    exact ⟨h.start,h.next,h.size⟩

section Steps
variable (hrpc : rpc.Exact) (hbs : M.blockSize ∣ maxTransferBytes)
include hrpc hbs

/-- Every write of the journal on the card is complete, or stops at the end of an RPC before
the last one. -/
lemma Within.writes {s : CardJournal M} (h : Within card s) (data : List UInt8) (fails : ℕ → Bool) :
    s.journal.update (cardWrites rpc fails) s.dev data = s.journal.update Slots.writeBlocks s.dev data ∨
    ∃ i, i*rpcBlocks M < numBlocks M (entryHeaderSize+data.length) ∧
      s.journal.update (cardWrites rpc fails) s.dev data =
        s.journal.update (writePrefix (i*rpcBlocks M)) s.dev data := by
  by_cases ha : s.journal.Accepts data
  · let c : Card M := ⟨s.dev,by rw [h.size]; exact card.size_le,by rw [h.size]; exact card.bytes_lt⟩
    have hlen : (s.journal.newEntry data).bytes.length = entryHeaderSize+data.length := bytes_length _ _
    simp only [Journal.update_accepted ha,← hlen]
    rcases (writeBlocks_spec hrpc hbs c fails (h.target_le data) (s.journal.newEntry data).bytes).1 with
      ⟨hno,hdev,hres⟩ | ⟨i,hi,-,-,hdev,hres⟩
    · left
      have hon := on_card hbs (bytes_ne_nil _ _) hno
      congr 1
      rw [cardWrites,Slots.writeBlocks]
      exact (Prod.ext hdev hres).trans (if_pos hon).symm
    · refine .inr ⟨i,hi,?_⟩
      congr 1
      rw [cardWrites,writePrefix,Nat.min_eq_left hi.le]
      exact Prod.ext hdev hres
  · left
    rw [Journal.update_tooLarge _ ha,Journal.update_tooLarge _ ha]

lemma Within.step {s t : CardJournal M} (h : Within card s) {e : CardEvent} (ht : s.step rpc e = .ok t) :
    Within card t := by
  cases e with
  | update data fails =>
    obtain ⟨fault,hw⟩ : ∃ fault : Fault, s.journal.update (cardWrites rpc fails) s.dev data =
        s.journal.update fault.writeBlocks s.dev data := by
      rcases h.writes hrpc hbs data fails with hw | ⟨i,-,hw⟩
      · exact ⟨none,hw⟩
      · exact ⟨some (i*rpcBlocks M),hw⟩
    obtain ⟨acked,hstep⟩ := s.step_update rpc data fails
    rw [hstep,hw] at ht
    cases ht
    exact h.updated fault data acked
  | reopen =>
    obtain ⟨j,hj,rfl⟩ := Outcome.map_eq_ok.mp ht
    exact within_of_open h.start h.size hj

end Steps

section Sessions

/-- What a session has on the device and in memory. -/
def ofSession (acked : List (List UInt8)) (s : Session M) : CardJournal M := ⟨s.dev,s.journal,acked⟩

/-- An event of a session stands for one on the card: an update that fails does so at the
end of an RPC. -/
inductive Matches (M : Machine) : CardEvent → Slots.Event → Prop
  | update {data fails} : Matches M (.update data fails) (.update data)
  | fail {data fails} (i : ℕ) : Matches M (.update data fails) (.fail data (i*rpcBlocks M))
  | reopen : Matches M .reopen .reopen

lemma exists_matches (es : List CardEvent) : ∃ es', List.Forall₂ (Matches M) es es' := by
  induction es with
  | nil => exact ⟨[],.nil⟩
  | cons e es ih =>
    obtain ⟨es',hes⟩ := ih
    cases e with
    | update data fails => exact ⟨_,.cons .update hes⟩
    | reopen => exact ⟨_,.cons .reopen hes⟩

variable {s : Session M} {acked : List (List UInt8)} {data : List UInt8} {fails : ℕ → Bool}

lemma ofSession_update
    (hw : s.journal.update (cardWrites rpc fails) s.dev data = s.journal.update Slots.writeBlocks s.dev data) :
    ∃ acked', (s.step (.update data)).map (ofSession acked') =
      (ofSession acked s).step rpc (.update data fails) := by
  simp only [Session.step,CardJournal.step,ofSession,hw]
  rcases s.journal.update Slots.writeBlocks s.dev data with ⟨d,j,_ | _ | _⟩
  · exact ⟨data::acked,rfl⟩
  · exact ⟨acked,rfl⟩
  · exact ⟨acked,rfl⟩

lemma ofSession_fail {k : ℕ}
    (hw : s.journal.update (cardWrites rpc fails) s.dev data = s.journal.update (writePrefix k) s.dev data) :
    ∃ acked', (s.step (.fail data k)).map (ofSession acked') =
      (ofSession acked s).step rpc (.update data fails) := by
  simp only [Session.step,CardJournal.step,ofSession,hw]
  rcases s.journal.update (writePrefix k) s.dev data with ⟨d,j,_ | _ | _⟩
  · exact ⟨data::acked,rfl⟩
  · exact ⟨acked,rfl⟩
  · exact ⟨acked,rfl⟩

lemma ofSession_reopen : (s.step .reopen).map (ofSession acked) = (ofSession acked s).step rpc .reopen := by
  simp only [Session.step,CardJournal.step,ofSession]
  cases openJournal s.dev s.journal.start s.journal.length <;> rfl

variable (hrpc : rpc.Exact) (hbs : M.blockSize ∣ maxTransferBytes)
include hrpc hbs

/-- Each step on the card is a step of the session that has the same on the device and in
memory. -/
lemma Within.matches (h : Within card (ofSession acked s)) (e : CardEvent) :
    ∃ acked' e', Matches M e e' ∧ (s.step e').map (ofSession acked') = (ofSession acked s).step rpc e := by
  cases e with
  | update data fails =>
    rcases h.writes hrpc hbs data fails with hw | ⟨i,-,hw⟩
    · obtain ⟨acked',hstep⟩ := ofSession_update hw
      exact ⟨acked',_,.update,hstep⟩
    · obtain ⟨acked',hstep⟩ := ofSession_fail hw
      exact ⟨acked',_,.fail i,hstep⟩
  | reopen => exact ⟨acked,_,.reopen,ofSession_reopen⟩

lemma Within.run_matches (es : List CardEvent) (h : Within card (ofSession acked s)) :
    ∃ acked' es', List.Forall₂ (Matches M) es es' ∧
      (Transition.runOutcome Session.step s es').map (ofSession acked') =
        Transition.runOutcome (CardJournal.step rpc) (ofSession acked s) es := by
  induction es generalizing s acked with
  | nil => exact ⟨acked,[],.nil,rfl⟩
  | cons e es ih =>
    obtain ⟨acked₁,e',he,hstep⟩ := h.matches hrpc hbs e
    cases hs : s.step e' with
    | ok t =>
      rw [hs,Outcome.map_ok] at hstep
      obtain ⟨acked',es',hes,hrun⟩ := ih (h.step hrpc hbs hstep.symm)
      refine ⟨acked',e'::es',.cons he hes,?_⟩
      rw [Transition.runOutcome,hs,Outcome.bind_ok,hrun,Transition.runOutcome,← hstep,Outcome.bind_ok]
    | error err =>
      obtain ⟨es',hes⟩ := exists_matches (M := M) es
      refine ⟨acked₁,e'::es',.cons he hes,?_⟩
      rw [Transition.runOutcome,Transition.runOutcome,← hstep,hs]
      rfl
    | panic p =>
      obtain ⟨es',hes⟩ := exists_matches (M := M) es
      refine ⟨acked₁,e'::es',.cons he hes,?_⟩
      rw [Transition.runOutcome,Transition.runOutcome,← hstep,hs]
      rfl

end Sessions

lemma sectors_header : entryHeaderSize ≤ sectors.blockSize := by decide

/-- Nine blocks of the card. -/
def nineSectors : Region sectors := ⟨3,9,sectors_header⟩

lemma nineSectors_addressed : nineSectors.Addressed := ⟨by decide +kernel,by decide +kernel,by decide +kernel⟩

/-- Two updates, of which the second fails, and a restart. -/
def refusedRun : List CardEvent :=
  [.update [0x41] fun _ => false,.update [0x42] fun _ => true,.reopen]

/-- Every run of the journal on a card, with any RPCs failing, is a run of the journal's
sessions: it ends with the same device and the same journal, or in the same error, and each
of its updates is complete or was cut off after a number of whole RPCs. -/
theorem runs_are_sessions (rpc : Rpc M) (hrpc : rpc.Exact) (hbs : M.blockSize ∣ maxTransferBytes) (card : Card M)
    (r : Region M) (hr : r.stop ≤ card.size) (es : List CardEvent) :
    ∃ acked es', List.Forall₂ (Matches M) es es' ∧
      (Session.outcomeFrom card.toDevice r es').map (ofSession acked) = runFrom rpc card r es := by
  cases hopen : openJournal card.toDevice r.start r.length with
  | ok j =>
    have hstart : r.start ≤ M.maxUint := by
      have hsize := card.size_le
      have hstop : r.stop = r.start+r.length := rfl
      have hmax : M.maxUint = 2*M.maxInt+1 := rfl
      omega
    have hw : Within card (ofSession [] ⟨card.toDevice,j,j.currentBlock M,[]⟩) :=
      within_of_open hstart rfl hopen
    obtain ⟨acked,es',hes,hrun⟩ := hw.run_matches hrpc hbs es
    refine ⟨acked,es',hes,?_⟩
    rw [Session.outcomeFrom,Session.opened_eq hopen,Outcome.bind_ok,hrun,runFrom,hopen,Outcome.bind_ok]
    rfl
  | error err =>
    obtain ⟨es',hes⟩ := exists_matches (M := M) es
    refine ⟨[],es',hes,?_⟩
    rw [Session.outcomeFrom,Session.opened,runFrom,hopen]
    rfl
  | panic p =>
    obtain ⟨es',hes⟩ := exists_matches (M := M) es
    refine ⟨[],es',hes,?_⟩
    rw [Session.outcomeFrom,Session.opened,runFrom,hopen]
    rfl

theorem runs_are_sessions_refused :
    ∃ acked es', List.Forall₂ (Matches sectors) refusedRun es' ∧
      (Session.outcomeFrom blankCard.toDevice nineSectors es').map (ofSession acked) =
        runFrom (cardRpc sectors) blankCard nineSectors refusedRun :=
  runs_are_sessions (cardRpc sectors) (cardRpc_exact sectors) (by decide) blankCard nineSectors
    (by decide) refusedRun

section Register

/-- What the log and the journal in memory have is what was acknowledged last. -/
structure Keeps (r : Region M) (card : Card M) (s : CardJournal M) : Prop where
  within : Within card s
  settled : ∃ x, Settled s.dev s.journal r x
  data : s.journal.current.data = s.acked.headD []
  revision : s.journal.current.revision.toNat = s.acked.length

namespace Keeps

/-- Where the journal in memory goes on after an update of which nothing was stored. -/
lemma refused {d : Device M} {j : Journal} {x : Option Entry} {data : List UInt8}
    (h : Settled d j r x) (ha : j.Accepts data) : Settled d {j with nextBlock := j.target M data} r x := by
  obtain ⟨p,c,e,hh,ht⟩ := h
  refine ⟨p,c,e,hh,⟨ht.on.addressed,ht.on.start,ht.on.length,ht.on.maxDataBytes⟩,ht.current,?_⟩
  rcases hh.target_cases ht ha with ⟨-,htarget,-⟩ | ⟨htarget,-⟩
  · exact .inl htarget
  · exact .inr htarget

lemma reopened {d : Device M} {j : Journal} {x : Option Entry} (h : Settled d j r x) :
    ∃ j', openJournal d r.start r.length = .ok j' ∧ Settled d j' r x ∧ j'.current = j.current := by
  obtain ⟨p,c,e,hh,ht⟩ := h
  obtain ⟨j',hopen,hq⟩ := (Quiet.of_scan hh).reopen
  exact ⟨j',hopen,hq.settled,by rw [hq.current,ht.current]⟩

/-- An accepted record goes into the region. -/
lemma target_fits {d : Device M} {j : Journal} {x : Option Entry} {data : List UInt8}
    (h : Settled d j r x) (ha : j.Accepts data) :
    j.target M data+numBlocks M (entryHeaderSize+data.length) ≤ r.stop := by
  obtain ⟨p,c,e,hh,ht⟩ := h
  rcases hh.target_cases ht ha with ⟨-,htarget,hfit⟩ | ⟨htarget,hfit,-⟩
  · rwa [htarget]
  · rwa [htarget]

lemma on {d : Device M} {j : Journal} {x : Option Entry} (h : Settled d j r x) : j.On r := by
  obtain ⟨p,c,e,-,ht⟩ := h
  exact ht.on

variable {s : CardJournal M} (h : Keeps r card s)
include h

lemma reopen (rpc : Rpc M) : ∃ t, s.step rpc .reopen = .ok t ∧ Keeps r card t ∧ t.journal.data = s.journal.data ∧
    t.acked = s.acked := by
  obtain ⟨x,hset⟩ := h.settled
  obtain ⟨j',hopen,hset',hcur⟩ := reopened hset
  have hstart : r.start ≤ M.maxUint := (on hset).start.symm.trans_le h.within.start
  refine ⟨⟨s.dev,j',s.acked⟩,?_,⟨within_of_open hstart h.within.size hopen,⟨x,hset'⟩,?_,?_⟩,?_,rfl⟩
  · rw [step,(on hset).start,(on hset).length,hopen,Outcome.map_ok]
  · rw [hcur]
    exact h.data
  · rw [hcur]
    exact h.revision
  · rw [Journal.data,hcur,Journal.data]

variable (hrpc : rpc.Exact) (hbs : M.blockSize ∣ maxTransferBytes) (hr : r.stop ≤ card.size)
include hrpc hbs hr

/-- A record of one RPC is stored as a whole, or not at all. -/
lemma update (hrev : s.acked.length+1 < 2^32) {data : List UInt8} {fails : ℕ → Bool}
    (hone : CardEvent.OneRpc M (.update data fails)) (hfree : FreeOfMagic M data) :
    ∃ t, s.step rpc (.update data fails) = .ok t ∧ Keeps r card t ∧ t.acked.length ≤ s.acked.length+1 := by
  obtain ⟨x,hset⟩ := h.settled
  have hrev' : s.journal.current.revision.toNat+1 < 2^32 := by rw [h.revision]; exact hrev
  by_cases ha : s.journal.Accepts data
  · rcases h.within.writes hrpc hbs data fails with hw | ⟨i,hi,hw⟩
    · have hfit := target_fits hset ha
      have hd := hfit.trans (hr.trans h.within.size.ge)
      rw [Journal.update_writeBlocks ha (on hset).addressed hfit hd] at hw
      have hstep := step_acked hw
      refine ⟨_,hstep,⟨h.within.step hrpc hbs hstep,⟨_,(hset.store_all hrev' ha hfree).settled⟩,rfl,?_⟩,le_rfl⟩
      change (s.journal.current.revision+1).toNat = s.acked.length+1
      rw [toNat_succ hrev',h.revision]
    · have hfirst : i*rpcBlocks M = 0 := by
        have hblocks : numBlocks M (entryHeaderSize+data.length) ≤ rpcBlocks M := hone
        rcases Nat.eq_zero_or_pos i with rfl | hpos
        · exact Nat.zero_mul _
        · have hle := Nat.le_mul_of_pos_left (rpcBlocks M) hpos
          omega
      rw [hfirst,Journal.update_writePrefix ha,Nat.zero_min,Slots.Device.store_zero] at hw
      have hstep := step_refused hw
      exact ⟨_,hstep,⟨h.within.step hrpc hbs hstep,⟨x,refused hset ha⟩,h.data,h.revision⟩,Nat.le_succ _⟩
  · have hstep := step_refused (s := s) (Journal.update_tooLarge (cardWrites rpc fails) ha)
    exact ⟨s,hstep,h,Nat.le_succ _⟩

lemma run (es : List CardEvent) (hone : ∀ e ∈ es, e.OneRpc M) (hfree : ∀ e ∈ es, e.Unforged M)
    (hrev : s.acked.length+es.countP CardEvent.isUpdate < 2^32) :
    ∃ t, Transition.runOutcome (CardJournal.step rpc) s es = .ok t ∧ Keeps r card t := by
  induction es generalizing s with
  | nil => exact ⟨s,rfl,h⟩
  | cons e es ih =>
    have hones : ∀ e ∈ es, e.OneRpc M := fun e he => hone e (List.mem_cons_of_mem _ he)
    have hfrees : ∀ e ∈ es, e.Unforged M := fun e he => hfree e (List.mem_cons_of_mem _ he)
    have hcount := List.countP_cons (p := CardEvent.isUpdate) (a := e) (l := es)
    cases e with
    | update data fails =>
      rw [hcount] at hrev
      simp only [CardEvent.isUpdate,if_true] at hrev
      obtain ⟨t,hstep,ht,hle⟩ := h.update hrpc hbs hr (by omega) (hone _ List.mem_cons_self)
        (hfree _ List.mem_cons_self)
      obtain ⟨u,hrun,hu⟩ := ih ht hones hfrees (by omega)
      exact ⟨u,by rw [Transition.runOutcome,hstep,Outcome.bind_ok,hrun],hu⟩
    | reopen =>
      rw [hcount] at hrev
      obtain ⟨t,hstep,ht,-,hacked⟩ := h.reopen rpc
      obtain ⟨u,hrun,hu⟩ := ih ht hones hfrees (by rw [hacked]; omega)
      exact ⟨u,by rw [Transition.runOutcome,hstep,Outcome.bind_ok,hrun],hu⟩

end Keeps

/-- On a card any of whose RPCs may fail the journal is a durable register, as long as the
records fit one RPC and no later block of a record begins with the magic: in every run of
updates and restarts from a blank region the data is that of the last update that returned
nil, under the number of such updates, and `OpenJournal` finds it again. -/
theorem card_keeps_acked (rpc : Rpc M) (hrpc : rpc.Exact) (hbs : M.blockSize ∣ maxTransferBytes) (card : Card M)
    (r : Region M) (hr : r.stop ≤ card.size) (hblank : card.toDevice.Blank r) (es : List CardEvent)
    (hone : ∀ e ∈ es, e.OneRpc M) (hfree : ∀ e ∈ es, e.Unforged M)
    (hcount : es.countP CardEvent.isUpdate < 2^32) :
    ∃ s, runFrom rpc card r es = .ok s ∧ s.journal.data.1 = s.acked.headD [] ∧
      s.journal.data.2.toNat = s.acked.length ∧
      ∃ j, openJournal s.dev r.start r.length = .ok j ∧ j.data = s.journal.data := by
  obtain ⟨j,hopen,hq⟩ := Quiet.blank hblank
  have hspace : r.stop < M.space := hblank.addressed.stop_lt
  have hlt : r.start ≤ M.maxUint := by
    have hstop : r.stop = r.start+r.length := rfl
    have hmax : M.space = M.maxUint+1 := rfl
    omega
  have hstart : Keeps r card ⟨card.toDevice,j,[]⟩ := by
    refine ⟨within_of_open hlt rfl hopen,⟨none,hq.settled⟩,?_,?_⟩
    · rw [hq.current]
      rfl
    · rw [hq.current]
      rfl
  obtain ⟨s,hrun,hs⟩ := hstart.run hrpc hbs hr es hone hfree (by simpa using hcount)
  refine ⟨s,by rw [runFrom,hopen,Outcome.bind_ok,hrun],hs.data,hs.revision,?_⟩
  obtain ⟨x,hset⟩ := hs.settled
  obtain ⟨j',hopen',-,hcur⟩ := Keeps.reopened hset
  exact ⟨j',hopen',by rw [Journal.data,hcur,Journal.data]⟩

theorem card_keeps_acked_refused :
    ∃ s, runFrom (cardRpc sectors) blankCard nineSectors refusedRun = .ok s ∧
      s.journal.data.1 = s.acked.headD [] ∧ s.journal.data.2.toNat = s.acked.length ∧
      ∃ j, openJournal s.dev nineSectors.start nineSectors.length = .ok j ∧ j.data = s.journal.data :=
  card_keeps_acked (cardRpc sectors) (cardRpc_exact sectors) (by decide) blankCard nineSectors (by decide)
    ⟨nineSectors_addressed,by decide,fun _ _ _ => rfl⟩ refusedRun (by decide) (by decide) (by decide)

end Register

end CardJournal

end ArmoredWitness.Mmc
