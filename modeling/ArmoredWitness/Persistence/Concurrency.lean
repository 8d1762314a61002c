import ArmoredWitness.Persistence.Coherence

/-! No update is lost while one process runs, however its clients take turns and whatever
becomes of their writes, as long as no two logs share a slot and no two slots share what
is read when they are opened. -/
namespace ArmoredWitness.Persistence
open Lib Lib.Action Slots

variable {M : Machine} {Origin LogID : Type} [DecidableEq LogID]

/-- The partition that a process finds: the slot of a log is empty or holds a checkpoint,
and every other slot is empty. -/
structure Populated (E : External Origin LogID) (part : Partition M) (m : SlotMap LogID) : Prop where
  mapped : ∀ (a : LogID) (i : ℕ) (s : Slot), m.lookup a = some i → part.slots[i]? = some s →
    ∃ j, openJournal part.dev s.start s.length = .ok j ∧
      (j.current.data = [] ∨ ∃ cp, unmarshalCheckpoint E j.current.data = .ok cp)
  unmapped : ∀ (i : ℕ) (s : Slot), 0 < i → part.slots[i]? = some s → (∀ a, m.lookup a ≠ some i) →
    ∃ j, openJournal part.dev s.start s.length = .ok j ∧ j.current.data = []

/-- No two logs have the same slot, no two slots have a block in common, every slot is
within reach together with the records that headers in it claim, and what is found when
the slot of a log is opened is decided by its own blocks. -/
structure Unshared (hB : entryHeaderSize ≤ M.blockSize) (part : Partition M) (m : SlotMap LogID) : Prop where
  logs : ∀ a b i, m.lookup a = some i → m.lookup b = some i → a = b
  slots : Partition.Separate part.slots
  reach : ∀ (i : ℕ) (s : Slot), part.slots[i]? = some s → part.dev.Bounded (s.region hB)
  blocks : ∀ (i : ℕ) (s : Slot), 0 < i → part.slots[i]? = some s →
    ∀ d', part.dev.Agree d' s.start (s.start+s.length) →
      opens d' s.start s.length = opens part.dev s.start s.length

/-- The updates of every origin form a chain, in which each callback is given what the
update before stored; every `Latest` says what is the newest checkpoint when it reads the
slot; an `Update` that returns an error changes no checkpoint in any of its steps; and a
step changes the checkpoint of no other origin. -/
structure NoLostUpdate [DecidableEq Origin] (E : External Origin LogID) (p : SlotPersistence M LogID)
    (moves : List (Move Origin)) : Prop where
  chain : ∀ o, ∃ initial, p.checkpoint E o = .ok initial ∧
    Chain initial (updatesOf o (System.run E p moves).history)
  latest : ∀ pre o s r post,
    (System.run E p moves).history = pre ++ ⟨.latest o,s,.returned (.checkpoint r)⟩::post →
      ∃ initial, p.checkpoint E o = .ok initial ∧ answer r = .ok (newest initial (updatesOf o pre))
  reads : ∀ o, ∃ initial, p.checkpoint E o = .ok initial ∧
    (System.run E p moves).shared.checkpoint E o =
      .ok (newest initial (updatesOf o (System.run E p moves).history))
  failed : ∀ before k fault after q r, moves = before ++ .advance k fault::after →
    (System.run E p moves).clients[k]? = some ⟨q,.returned (.done r)⟩ → r ≠ .ok () → ∀ o,
      (System.run E p (before ++ [.advance k fault])).shared.checkpoint E o =
        (System.run E p before).shared.checkpoint E o
  others : ∀ before k fault after c o, moves = before ++ .advance k fault::after →
    (System.run E p before).clients[k]? = some c → c.request.origin ≠ o →
      (System.run E p (before ++ [.advance k fault])).shared.checkpoint E o =
        (System.run E p before).shared.checkpoint E o

section Runs
variable {E : External Origin LogID} {p : SlotPersistence M LogID} {σ : System M Origin LogID}

/-- What a step of a client does to the history. -/
lemma System.step_advance_cases (σ : System M Origin LogID) (k : ℕ) (fault : Fault) :
    σ.step E (.advance k fault) = σ ∨ ∃ c target, σ.clients[k]? = some c ∧
      (σ.step E (.advance k fault)).history = σ.history ++ [⟨c.request,c.stage,target⟩] ∧
      (σ.step E (.advance k fault)).clients = σ.clients.set k ⟨c.request,target⟩ := by
  cases hc : σ.clients[k]? with
  | none => exact .inl (by simp only [System.step,hc])
  | some c =>
    cases hr : c.stage.isReturned with
    | true => exact .inl (by simp only [System.step,hc,hr,if_true])
    | false =>
      rw [System.step_advance hc hr]
      exact .inr ⟨c,_,rfl,rfl,rfl⟩

/-- A step that is not a successful update of the origin. -/
lemma System.updatesOf_step [DecidableEq Origin] (σ : System M Origin LogID) {k : ℕ} {fault : Fault} {o : Origin}
    (h : ∀ c target u, σ.clients[k]? = some c →
      (σ.step E (.advance k fault)).clients[k]? = some ⟨c.request,target⟩ →
      Transition.success ⟨c.request,c.stage,target⟩ = some u → u.origin ≠ o) :
    updatesOf o (σ.step E (.advance k fault)).history = updatesOf o σ.history := by
  rcases σ.step_advance_cases (E := E) k fault with hsame | ⟨c,target,hc,hhistory,hclients⟩
  · rw [hsame]
  · rw [hhistory]
    refine updatesOf_other fun u hu => h c target u hc ?_ hu
    rw [hclients,List.getElem?_set_self (List.getElem?_eq_some_iff.mp hc).1]

lemma System.step_history (σ : System M Origin LogID) (move : Move Origin) :
    σ.history <+: (σ.step E move).history := by
  cases move with
  | call q => exact List.prefix_rfl
  | advance k fault =>
    rcases σ.step_advance_cases (E := E) k fault with hsame | ⟨c,target,-,hhistory,-⟩
    · rw [hsame]
    · rw [hhistory]
      exact List.prefix_append ..

/-- A client that has returned keeps what it returned. -/
lemma System.step_returned {k : ℕ} {q : Request Origin} {r : Result LogID}
    (h : σ.clients[k]? = some ⟨q,.returned r⟩) (move : Move Origin) :
    (σ.step E move).clients[k]? = some ⟨q,.returned r⟩ := by
  cases move with
  | call q' => exact List.getElem?_append_left (List.getElem?_eq_some_iff.mp h).1 ▸ h
  | advance k' fault =>
    by_cases hk : k' = k
    · subst hk
      simp only [System.step,h,Stage.isReturned,if_true]
    · rcases σ.step_advance_cases (E := E) k' fault with hsame | ⟨c,target,-,-,hclients⟩
      · rwa [hsame]
      · rw [hclients,List.getElem?_set_ne hk]
        exact h

lemma System.foldl_history (σ : System M Origin LogID) (moves : List (Move Origin)) :
    σ.history <+: (moves.foldl (System.step E) σ).history := by
  induction moves generalizing σ with
  | nil => exact List.prefix_rfl
  | cons move moves ih => exact (σ.step_history move).trans (ih _)

lemma System.foldl_returned {k : ℕ} {q : Request Origin} {r : Result LogID} (moves : List (Move Origin))
    (h : σ.clients[k]? = some ⟨q,.returned r⟩) :
    (moves.foldl (System.step E) σ).clients[k]? = some ⟨q,.returned r⟩ := by
  induction moves generalizing σ with
  | nil => exact h
  | cons move moves ih => exact ih (System.step_returned h move)

lemma System.run_append (p : SlotPersistence M LogID) (before after : List (Move Origin)) :
    System.run E p (before ++ after) = after.foldl (System.step E) (System.run E p before) := List.foldl_append ..

/-- A run has at least as many writes as its beginning. -/
lemma writesTo_run_le (i : ℕ) (before after : List (Move Origin)) :
    (writesTo i (System.run E p before).history).length ≤
      (writesTo i (System.run E p (before ++ after)).history).length := by
  obtain ⟨rest,hrest⟩ := System.foldl_history (E := E) (System.run E p before) after
  rw [System.run_append,← hrest,writesTo,writesTo,List.filterMap_append,List.filter_append,List.length_append]
  exact Nat.le_add_right _ _

lemma writesTo_run_le_length (i : ℕ) (moves : List (Move Origin)) :
    (writesTo i (System.run E p moves).history).length ≤ moves.length := by
  have hhistory : (System.run E p moves).history.length ≤ moves.length := by
    induction moves using List.reverseRecOn with
    | nil => exact Nat.le_refl 0
    | append_singleton moves move ih =>
      rw [System.run_snoc,List.length_append,List.length_singleton]
      cases move with
      | call q => exact ih.trans (Nat.le_succ _)
      | advance k fault =>
        rcases (System.run E p moves).step_advance_cases (E := E) k fault with hsame | ⟨c,target,-,hnext,-⟩
        · rw [hsame]
          exact ih.trans (Nat.le_succ _)
        · rw [hnext,List.length_append,List.length_singleton]
          exact Nat.succ_le_succ ih
  exact (List.length_filter_le ..).trans ((List.length_filterMap_le ..).trans hhistory)

end Runs

section Start
variable {E : External Origin LogID} {p : SlotPersistence M LogID} {part : Partition M}

/-- What a slot shows to the first who opens it. -/
def initialData (part : Partition M) (i : ℕ) : List UInt8 × UInt32 :=
  match (part.openSlot i).1.journal i with
  | some j => j.data
  | none => ([],0)

/-- The checkpoint that a slot holds at first. -/
def initialCheckpoint (E : External Origin LogID) (part : Partition M) (i : ℕ) : Option Checkpoint :=
  match recorded E (initialData part i).1 with
  | .ok s => s
  | _ => none

lemma initialData_eq {i : ℕ} {s : Slot} {j : Journal} (hs : part.slots[i]? = some s) (hj : s.journal = none)
    (ho : openJournal part.dev s.start s.length = .ok j) : initialData part i = j.data := by
  rw [initialData,Partition.openSlot_ok hs hj ho,Partition.journal_set hs]

omit [DecidableEq LogID] in
lemma Populated.openJournal [DecidableEq LogID] {m : SlotMap LogID} (h : Populated E part m) {i : ℕ} {s : Slot}
    (hi : 0 < i) (hs : part.slots[i]? = some s) : ∃ j, openJournal part.dev s.start s.length = .ok j ∧
      ∃ c, recorded E j.current.data = .ok c := by
  by_cases hm : ∃ a, m.lookup a = some i
  · obtain ⟨a,ha⟩ := hm
    obtain ⟨j,ho,hdata⟩ := h.mapped a i s ha hs
    refine ⟨j,ho,?_⟩
    unfold recorded
    split_ifs with hlen
    · exact ⟨none,rfl⟩
    · rcases hdata with hnil | ⟨cp,hcp⟩
      · rw [hnil] at hlen
        exact absurd rfl hlen
      · exact ⟨some cp,by rw [hcp]; rfl⟩
  · obtain ⟨j,ho,hdata⟩ := h.unmapped i s hi hs fun a ha => hm ⟨a,ha⟩
    exact ⟨j,ho,none,by rw [hdata]; rfl⟩

variable (hB : entryHeaderSize ≤ M.blockSize) (hnew : ∀ s ∈ part.slots, s.journal = none)
  (hinit : SlotPersistence.init E (newSlotPersistence part) = (p,.ok ()))
  (hpop : Populated E part p.idToSlot) (hun : Unshared hB part p.idToSlot)
include hnew hpop

lemma recorded_initialData {i : ℕ} (hi : 0 < i) (hlt : i < part.slots.length) :
    recorded E (initialData part i).1 = .ok (initialCheckpoint E part i) := by
  have hs := List.getElem?_eq_getElem hlt
  obtain ⟨j,ho,c,hc⟩ := hpop.openJournal hi hs
  have hdata := initialData_eq hs (hnew _ (List.mem_of_getElem? hs)) ho
  have hrec : recorded E (initialData part i).1 = .ok c := by rw [hdata]; exact hc
  rw [initialCheckpoint,hrec]

include hun

/-- A slot that nobody has opened. -/
lemma shows_unopened {i : ℕ} {s : Slot} (hi : 0 < i) (hs : part.slots[i]? = some s) :
    s.Shows part.dev (s.region hB) (initialData part i) := by
  have hnone := hnew s (List.mem_of_getElem? hs)
  obtain ⟨j,ho,-⟩ := hpop.openJournal hi hs
  refine ⟨⟨rfl,rfl,fun j' hj' => ?_⟩,fun j' hj' => ?_,fun _ d' ha => ?_⟩
  · cases hnone.symm.trans hj'
  · cases hnone.symm.trans hj'
  · have hopens : opens d' s.start s.length = .ok (j.data,j.nextBlock) := by
      rw [hun.blocks i s hi hs d' ha,opens,ho]
      rfl
    obtain ⟨j',hj',hdata⟩ := Outcome.map_eq_ok.mp hopens
    have hok := Outcome.mapError_eq_ok.mp hj'
    refine ⟨j',hok,(Journal.placed_of_open (hun.reach i s hs) ho).of_open hok (congrArg Prod.snd hdata),?_⟩
    rw [initialData_eq hs hnone ho]
    exact congrArg Prod.fst hdata

include hinit

/-- The persistence after `Init`, before anybody uses it. -/
lemma consistent_init : Consistent hB part.slots (initialData part) p := by
  obtain ⟨part',s',j,ho,hs',hj,hrange,hp⟩ := SlotPersistence.init_eq_ok hinit
  have hpart : p.part = part' := congrArg SlotPersistence.part hp
  have hopen : (part.openSlot mappingConfigSlot).1 = part' := congrArg Prod.fst ho
  have hnum : part'.numSlots = part.numSlots := by rw [← hopen,Partition.openSlot_numSlots]
  have hlt : mappingConfigSlot < part.slots.length := (List.getElem?_eq_some_iff.mp hs').1.trans_eq hnum
  have hs := List.getElem?_eq_getElem hlt
  have hnone := hnew _ (List.mem_of_getElem? hs)
  have hfound := Partition.openSlot_found hs hnone (j := j) (by rw [hopen,Partition.journal_of_some hs',hj])
  refine ⟨⟨⟨hun.logs,fun a i ha => ?_,fun a i ha => ?_⟩,?_,congrArg SlotPersistence.directorySlot hp,s',j,?_,hj,
    (congrArg SlotPersistence.directoryWriteToken hp).symm⟩,⟨j.data,?_⟩,fun i hi => ?_⟩
  · exact (hrange i (SlotMap.mem_slots.mpr ⟨a,ha⟩)).1
  · rw [hpart]
    exact (hrange i (SlotMap.mem_slots.mpr ⟨a,ha⟩)).2
  · rw [hpart,show p.freeSlots = _ from congrArg SlotPersistence.freeSlots hp]
    exact SlotMap.free_filter _ _
  · rw [hpart]
    exact hs'
  · rw [hpart,← hopen,Partition.openSlot_ok hs hnone hfound]
    refine ⟨List.length_set,fun i t ht => ?_⟩
    by_cases hi : i = mappingConfigSlot
    · subst hi
      cases hs.symm.trans ht
      rw [Function.update_self]
      refine ⟨_,List.getElem?_set_self hlt,.of_open ⟨rfl,rfl,fun j' hj' => ?_⟩ rfl rfl⟩
      cases hj'
      exact Journal.placed_of_open (hun.reach _ _ hs) hfound
    · rw [Function.update_of_ne hi]
      refine ⟨t,by rwa [List.getElem?_set_ne (Ne.symm hi)],?_⟩
      exact shows_unopened hB hnew hpop hun (Nat.pos_of_ne_zero hi) ht
  · rw [show p.freeSlots = _ from congrArg SlotPersistence.freeSlots hp,
      (SlotMap.free_filter p.idToSlot part'.numSlots).mem_iff] at hi
    obtain ⟨hpos,hlt',hunused⟩ := hi
    rw [hnum] at hlt'
    have hsi := List.getElem?_eq_getElem hlt'
    obtain ⟨j',ho',hdata⟩ := hpop.unmapped i _ hpos hsi hunused
    rw [initialData_eq hsi (hnew _ (List.mem_of_getElem? hsi)) ho']
    exact hdata

/-- The system after any number of moves. -/
theorem coherent_run [DecidableEq Origin] (hid : Function.Injective E.logID)
    (hempty : E.unmarshalRecord [] = .ok none) (moves : List (Move Origin))
    (hfew : ∀ i, (writesTo i (System.run E p moves).history).length < 2^32-1) :
    Coherent hB part.slots E (initialData part) (initialCheckpoint E part) p.idToSlot (System.run E p moves) := by
  induction moves using List.reverseRecOn with
  | nil =>
    refine ⟨consistent_init hB hnew hinit hpop hun,nofun,fun _ _ _ => trivial,nofun,.refl _,fun a i ha => ?_,?_⟩
    · rw [show p.idToSlot.lookup a = some i from ha]
      rfl
    · intro pre o s r post heq
      simp [System.run] at heq
  | append_singleton moves move ih =>
    have hfew' := fun i => Nat.lt_of_le_of_lt (writesTo_run_le i moves [move]) (hfew i)
    rw [System.run_snoc]
    exact (ih hfew').step hid hun.slots hempty (fun i hi hlt => recorded_initialData hnew hpop hi hlt) hfew' move

end Start

/-- As long as nothing is shared, no update is lost. -/
theorem no_lost_update [DecidableEq Origin] (hB : entryHeaderSize ≤ M.blockSize) (d : Device M) (g : Geometry)
    (part : Partition M) (hopen : openPartition d g = .ok part) (E : External Origin LogID)
    (hempty : E.unmarshalRecord [] = .ok none) (hid : Function.Injective E.logID) (p : SlotPersistence M LogID)
    (hinit : SlotPersistence.init E (newSlotPersistence part) = (p,.ok ())) (hpop : Populated E part p.idToSlot)
    (hun : Unshared hB part p.idToSlot) (moves : List (Move Origin))
    (hfew : ∀ i, (writesTo i (System.run E p moves).history).length < 2^32-1) : NoLostUpdate E p moves := by
  have hnew : ∀ s ∈ part.slots, s.journal = none := by
    obtain ⟨-,rfl⟩ := openPartition_eq_ok hopen
    exact layout_unopened _ _ _
  have hbase : ∀ i, 0 < i → i < part.slots.length → recorded E (initialData part i).1 =
      .ok (initialCheckpoint E part i) := fun i hi hlt => recorded_initialData hnew hpop hi hlt
  have hrun := coherent_run hB hnew hinit hpop hun hid hempty moves hfew
  have hstart := coherent_run hB hnew hinit hpop hun hid hempty [] fun i => by
    exact Nat.lt_of_le_of_lt (writesTo_run_le i [] moves) (hfew i)
  have hinitial : ∀ o, p.checkpoint E o = .ok ((p.idToSlot.lookup (E.logID o)).bind (initialCheckpoint E part)) :=
    hstart.checkpoint hid hbase hun.slots
  have hstep : ∀ before k fault after o, moves = before ++ .advance k fault::after →
      (∀ c target u, (System.run E p before).clients[k]? = some c →
        (System.run E p (before ++ [.advance k fault])).clients[k]? = some ⟨c.request,target⟩ →
        Transition.success ⟨c.request,c.stage,target⟩ = some u → u.origin ≠ o) →
      (System.run E p (before ++ [.advance k fault])).shared.checkpoint E o =
        (System.run E p before).shared.checkpoint E o := by
    rintro before k fault after o rfl hother
    have hbefore := coherent_run hB hnew hinit hpop hun hid hempty before fun i =>
      Nat.lt_of_le_of_lt (writesTo_run_le i before _) (hfew i)
    rw [List.append_cons] at hfew
    have hafter := coherent_run hB hnew hinit hpop hun hid hempty (before ++ [.advance k fault]) fun i =>
      Nat.lt_of_le_of_lt (writesTo_run_le i _ after) (hfew i)
    refine hbefore.checkpoint_same hid hbase hun.slots hafter ?_
    rw [System.run_snoc] at hother ⊢
    exact System.updatesOf_step _ hother
  refine ⟨fun o => ⟨_,hinitial o,hrun.chain_updates hid o⟩,
    fun pre o s r post heq => ⟨_,hinitial o,hrun.truthful pre o s r post heq⟩,
    fun o => ⟨_,hinitial o,hrun.checkpoint hid hbase hun.slots o⟩,?_,?_⟩
  · intro before k fault after q r hmoves hreturned hr o
    refine hstep before k fault after o hmoves fun c target u hc hk hu => ?_
    obtain ⟨-,htarget⟩ := success_eq_some hu
    subst hmoves
    rw [List.append_cons,System.run_append] at hreturned
    dsimp only at htarget
    rw [htarget] at hk
    cases hreturned.symm.trans (System.foldl_returned after hk)
    exact absurd rfl hr
  · intro before k fault after c o hmoves hc hne
    refine hstep before k fault after o hmoves fun c' target u hc' hk hu => ?_
    cases hc.symm.trans hc'
    rw [← (success_eq_some hu).1]
    exact hne

section Blank
variable {g : Geometry} {d : Device M}

lemma openJournal_zero {r : Region M} (hr : r.Addressed)
    (h : ∀ q, r.start ≤ q → q < r.stop → d.block q = zeroBlock M) : openJournal d r.start r.length =
      .ok ⟨r.start,r.length,Entry.zero,r.start,maxDataBytesIn M.arith M r.length⟩ := by
  refine openJournal_of_unseen fun q hq hq' => ?_
  rw [hr.uint_stop] at hq'
  exact Device.sees_zero (h q hq hq') (hr.header_end hq')

variable (hB : entryHeaderSize ≤ M.blockSize)
include hB

/-- A new partition. -/
lemma populated_blank (h : g.Blank d) (E : External Origin LogID) :
    Populated E ⟨d,layout M g.start g.slotLengths⟩ (∅ : SlotMap LogID) := by
  refine ⟨fun a i s ha hs => ?_,fun i s hi hs _ => ?_⟩
  · rw [Finmap.lookup_empty] at ha
    cases ha
  · have hblank := h.slot hB i s hs
    exact ⟨_,openJournal_zero hblank.addressed hblank.zero,rfl⟩

lemma unshared_blank (h : g.Blank d) : Unshared hB ⟨d,layout M g.start g.slotLengths⟩ (∅ : SlotMap LogID) := by
  refine ⟨fun a b i ha => ?_,fun k k' s s' hne hs hs' => ?_,fun i s hs => (h.slot hB i s hs).tidy.bounded,
    fun i s hi hs d' ha => ?_⟩
  · rw [Finmap.lookup_empty] at ha
    cases ha
  · refine Set.disjoint_left.mpr fun q hq hq' => ?_
    have hapart := h.apart k k' s s' hne hs hs'
    have hin : s.start ≤ q ∧ q < s.start+s.length := hq
    have hin' : s'.start ≤ q ∧ q < s'.start+s'.length := hq'
    omega
  · have hblank := h.slot hB i s hs
    have hzero : ∀ q, (s.region hB).start ≤ q → q < (s.region hB).stop → d'.block q = zeroBlock M := by
      intro q hq hq'
      rw [ha.block hq hq' (hq'.trans_le hblank.on_device)]
      exact hblank.zero q hq hq'
    have hopen := openJournal_zero hblank.addressed hblank.zero
    have hopen' := openJournal_zero hblank.addressed hzero
    exact congrArg (fun x => (x.mapError fun _ => ()).map fun j : Journal => (j.data,j.nextBlock))
      (hopen'.trans hopen.symm)

end Blank

/-- Two clients update one log at the same time: both read the empty slot, and the one
that writes first wins. -/
def Tally.race : List (Move Bool) :=
  [.call (.update false fun _ => .ok [0x41]),.call (.update false fun _ => .ok [0x42]),
    .advance 0 none,.advance 1 none,.advance 0 none,.advance 1 none,.advance 0 none,.advance 1 none,
    .advance 0 none,.advance 1 none,.advance 1 none,.advance 0 none]

theorem no_lost_update_race : ∃ p,
    SlotPersistence.init Tally.external (newSlotPersistence Tally.threeSlotsOpen) = (p,.ok ()) ∧
    NoLostUpdate Tally.external p Tally.race := by
  have hblank := Tally.threeSlots_blank
  have hok : (SlotPersistence.init Tally.external (newSlotPersistence Tally.threeSlotsOpen)).2 = .ok () := by
    decide +kernel
  have hfirst := hblank.slot (by decide) 0 ⟨0,6,none⟩ rfl
  have hmap : (SlotPersistence.init Tally.external (newSlotPersistence Tally.threeSlotsOpen)).1.idToSlot = ∅ :=
    (init_of_blank (s := ⟨0,6,none⟩) rfl rfl
      ⟨fun _ _ => rfl,fun _ hq => hfirst.addressed.header_end hq.2⟩ rfl).2.2
  have hinit : SlotPersistence.init Tally.external (newSlotPersistence Tally.threeSlotsOpen) =
      ((SlotPersistence.init Tally.external (newSlotPersistence Tally.threeSlotsOpen)).1,.ok ()) := Prod.ext rfl hok
  refine ⟨_,hinit,no_lost_update (by decide) _ Tally.threeSlots Tally.threeSlotsOpen hblank.openPartition
    Tally.external rfl Function.injective_id _ hinit ?_ ?_ Tally.race fun i => ?_⟩
  · rw [hmap]
    exact populated_blank (by decide) hblank _
  · rw [hmap]
    exact unshared_blank (by decide) hblank
  · exact (writesTo_run_le_length i Tally.race).trans_lt (by decide)

/-- A directory that gives both logs the same slot. -/
def Tally.sharing : Partition smallMachine := Tally.storing [0x7c,0x3b,0x7c,0x3b]

/-- An update of one log, up to the write. -/
def Tally.updating : List (Move Bool) :=
  [.call (.update false fun _ => .ok [0x41]),.advance 0 none,.advance 0 none,.advance 0 none,.advance 0 none]

lemma Tally.sharing_populated : Populated Tally.external Tally.sharing
    (SlotPersistence.init Tally.external (newSlotPersistence Tally.sharing)).1.idToSlot := by
  have hmap : ∀ a, (SlotPersistence.init Tally.external (newSlotPersistence Tally.sharing)).1.idToSlot.lookup a =
      some 1 := by
    decide +kernel
  have hslots : Tally.sharing.slots = [⟨0,6,none⟩,⟨6,6,none⟩,⟨12,6,none⟩] := by decide +kernel
  have hopen1 : (openJournal Tally.sharing.dev 6 6).map Journal.data = .ok ([],0) := by decide +kernel
  have hopen2 : (openJournal Tally.sharing.dev 12 6).map Journal.data = .ok ([],0) := by decide +kernel
  obtain ⟨j1,hj1,hdata1⟩ := Outcome.map_eq_ok.mp hopen1
  obtain ⟨j2,hj2,hdata2⟩ := Outcome.map_eq_ok.mp hopen2
  refine ⟨fun a i s ha hs => ?_,fun i s hi hs hno => ?_⟩
  · cases (hmap a).symm.trans ha
    rw [hslots] at hs
    cases hs
    exact ⟨j1,hj1,.inl (congrArg Prod.fst hdata1)⟩
  · have hlt := (List.getElem?_eq_some_iff.mp hs).1
    rw [hslots] at hs hlt
    obtain rfl | rfl : i = 1 ∨ i = 2 := by
      simp only [List.length_cons,List.length_nil] at hlt
      omega
    · exact absurd (hmap false) (hno false)
    · cases hs
      exact ⟨j2,hj2,congrArg Prod.fst hdata2⟩

/-- `Init` accepts a directory in which two logs share a slot, and an update of one of
them changes the checkpoint of the other. -/
theorem shared_slot_changes_other_log :
    ∃ p, SlotPersistence.init Tally.external (newSlotPersistence Tally.sharing) = (p,.ok ()) ∧
      Populated Tally.external Tally.sharing p.idToSlot ∧
      ¬ NoLostUpdate Tally.external p (Tally.updating ++ [.advance 0 none]) := by
  refine ⟨(SlotPersistence.init Tally.external (newSlotPersistence Tally.sharing)).1,
    Prod.ext rfl (by decide +kernel),
    Tally.sharing_populated,fun h => ?_⟩
  have hclient : ((System.run Tally.external (SlotPersistence.init Tally.external
      (newSlotPersistence Tally.sharing)).1 Tally.updating).clients[0]?).map (fun c => c.request.origin) =
      some false := by
    decide +kernel
  obtain ⟨c,hc,ho⟩ := Option.map_eq_some_iff.mp hclient
  have hsame := h.others Tally.updating 0 none [] c true rfl hc (by rw [ho]; decide)
  revert hsame
  decide +kernel

end ArmoredWitness.Persistence
