import ArmoredWitness.Persistence.Clients
import ArmoredWitness.Persistence.Init
import ArmoredWitness.Slots.Carrying

/-! What holds between the steps of clients that use one persistence at the same time.
The token of a slot counts the writes to it, so that a client that holds the current
token has seen the newest checkpoint. -/
namespace ArmoredWitness.Persistence
open Lib Lib.Action Slots

variable {M : Machine} {Origin LogID : Type} [DecidableEq LogID]

/-- What a slot shows after these writes. -/
def shown (base : List UInt8 × UInt32) (us : List (Success Origin)) : List UInt8 × UInt32 :=
  us.foldl (fun x u => (marshalCheckpoint u.new,x.2+1)) base

lemma shown_snoc (base : List UInt8 × UInt32) (us : List (Success Origin)) (u : Success Origin) :
    shown base (us ++ [u]) = (marshalCheckpoint u.new,(shown base us).2+1) := by
  rw [shown,List.foldl_append]
  rfl

lemma shown_token (base : List UInt8 × UInt32) (us : List (Success Origin)) :
    (shown base us).2 = base.2+UInt32.ofNat us.length := by
  induction us using List.reverseRecOn with
  | nil => exact (UInt32.add_zero _).symm
  | append_singleton us u ih =>
    rw [shown_snoc,ih,List.length_append,List.length_singleton,UInt32.ofNat_add,UInt32.add_assoc]
    rfl

/-- A token is current only if nothing was written since it was read. -/
lemma token_current {base : List UInt8 × UInt32} {us : List (Success Origin)} {k : ℕ} (hk : k ≤ us.length)
    (hfew : us.length < 2^32-1) (h : (shown base (us.take k)).2 = (shown base us).2) : k = us.length := by
  rw [shown_token,shown_token,List.length_take,Nat.min_eq_left hk] at h
  have hmod := congrArg UInt32.toNat ((UInt32.add_right_inj _).mp h)
  rw [UInt32.toNat_ofNat',UInt32.toNat_ofNat'] at hmod
  omega

/-- What the data of a slot means: no checkpoint, or one. -/
def recorded (E : External Origin LogID) (b : List UInt8) : Outcome YamlError (Option Checkpoint) :=
  if b.length = 0 then .ok none else (unmarshalCheckpoint E b).map some

section Recorded
variable {E : External Origin LogID}
omit [DecidableEq LogID]

lemma recorded_marshal (cp : List UInt8) : recorded E (marshalCheckpoint cp) = .ok (some (some cp)) := by
  have hlen : (marshalCheckpoint cp).length ≠ 0 := by
    rw [marshalCheckpoint,List.length_append]
    exact Nat.ne_of_gt (Nat.lt_add_right _ (by decide))
  rw [recorded,if_neg hlen,unmarshal_marshal]
  rfl

lemma recorded_shown {base : List UInt8 × UInt32} {initial : Option Checkpoint}
    (h : recorded E base.1 = .ok initial) (us : List (Success Origin)) :
    recorded E (shown base us).1 = .ok (newest initial us) := by
  rcases List.eq_nil_or_concat us with rfl | ⟨us,u,rfl⟩
  · exact h
  · rw [List.concat_eq_append,shown_snoc,recorded_marshal,newest_snoc]

/-- What `Update` makes of the data. -/
lemma unmarshal_of_recorded (hempty : E.unmarshalRecord [] = .ok none) {b : List UInt8} {s : Option Checkpoint}
    (h : recorded E b = .ok s) : unmarshalCheckpoint E b = .ok s.join := by
  unfold recorded at h
  split_ifs at h with hlen
  · cases h
    rw [List.length_eq_zero_iff.mp hlen]
    exact hempty
  · obtain ⟨cp,hcp,rfl⟩ := Outcome.map_eq_ok.mp h
    exact hcp

/-- What `Latest` makes of the data. -/
lemma answer_of_recorded {b : List UInt8} {s : Option Checkpoint} (h : recorded E b = .ok s) :
    answer (if b.length = 0 then .error .noCheckpoint
      else (unmarshalCheckpoint E b).mapError .unmarshalCheckpoint : Outcome (PersistenceError LogID) Checkpoint) =
      .ok s := by
  unfold recorded at h
  split_ifs at h ⊢ with hlen
  · cases h
    rfl
  · obtain ⟨cp,hcp,rfl⟩ := Outcome.map_eq_ok.mp h
    rw [hcp]
    rfl

end Recorded

section Histories
variable {history : List (Transition Origin LogID)} {τ : Transition Origin LogID}
omit [DecidableEq LogID]

lemma writesTo_quiet (h : τ.success = none) (i : ℕ) : writesTo i (history ++ [τ]) = writesTo i history := by
  simp [writesTo,List.filterMap_append,h]

/-- A step that is not a successful update of the origin. -/
lemma updatesOf_other [DecidableEq Origin] {o : Origin} (h : ∀ u, τ.success = some u → u.origin ≠ o) :
    updatesOf o (history ++ [τ]) = updatesOf o history := by
  cases hu : τ.success with
  | none => simp [updatesOf,List.filterMap_append,hu]
  | some u => simp [updatesOf,List.filterMap_append,hu,h u hu]

lemma success_eq_some {u : Success Origin} (h : τ.success = some u) :
    τ.request.origin = u.origin ∧ τ.target = .returned (.done (.ok ())) := by
  unfold Transition.success at h
  split at h
  · cases h
    exact ⟨rfl,rfl⟩
  · cases h

lemma writesTo_success {u : Success Origin} (h : τ.success = some u) (i : ℕ) :
    writesTo i (history ++ [τ]) = writesTo i history ++ if u.slot = i then [u] else [] := by
  by_cases hi : u.slot = i <;> simp [writesTo,List.filterMap_append,h,hi]

lemma writesTo_grows (τ : Transition Origin LogID) (i : ℕ) :
    writesTo i history <+: writesTo i (history ++ [τ]) := by
  rw [writesTo,writesTo,List.filterMap_append,List.filter_append]
  exact List.prefix_append ..

end Histories

section Consistent
variable (hB : entryHeaderSize ≤ M.blockSize) (slots : List Slot) (content : ℕ → List UInt8 × UInt32)

/-- The persistence in memory, with the data that the slots of the logs show. -/
structure Consistent (p : SlotPersistence M LogID) : Prop extends p.Valid where
  carrying : ∃ x, p.part.Carrying hB slots (Function.update content mappingConfigSlot x)
  unused : ∀ i ∈ p.freeSlots, (content i).1 = []

end Consistent

namespace Consistent
variable {hB : entryHeaderSize ≤ M.blockSize} {slots : List Slot} {content : ℕ → List UInt8 × UInt32}
  {E : External Origin LogID} {p : SlotPersistence M LogID} {i : ℕ}

lemma numSlots (h : Consistent hB slots content p) : p.part.numSlots = slots.length := by
  obtain ⟨x,hx⟩ := h.carrying
  exact hx.length

lemma slot (h : Consistent hB slots content p) {a : LogID} (ha : p.idToSlot.lookup a = some i) :
    0 < i ∧ ∃ t, slots[i]? = some t := by
  have hlt := h.map.lt a i ha
  rw [h.numSlots] at hlt
  exact ⟨h.map.pos a i ha,_,List.getElem?_eq_getElem hlt⟩

lemma read (h : Consistent hB slots content p) (hi : 0 < i) {j : Journal} (hj : p.part.journal i = some j) :
    p.part.read i = (p.part,.ok (content i)) := by
  have hne : i ≠ mappingConfigSlot := Nat.ne_of_gt hi
  obtain ⟨x,hx⟩ := h.carrying
  rw [hx.read hj,Function.update_of_ne hne]

variable (hsep : Partition.Separate slots)
include hsep

/-- The search for a slot changes nothing in the slots of logs. -/
theorem logSlot (h : Consistent hB slots content p) (E : External Origin LogID) (fault : Fault) (id : LogID)
    (create : Bool) : Consistent hB slots content (SlotPersistence.logSlot E fault id create p).1 ∧
      ∀ k, (∃ j, p.part.journal k = some j) →
        ∃ j, (SlotPersistence.logSlot E fault id create p).1.part.journal k = some j := by
  have hvalid := h.toValid.logSlot E fault id create
  have hunused : ∀ i ∈ (SlotPersistence.logSlot E fault id create p).1.freeSlots, (content i).1 = [] :=
    fun i hi => h.unused i (SlotPersistence.logSlot_freeSlots hi)
  obtain ⟨x,hx⟩ := h.carrying
  rcases SlotPersistence.logSlot_part E fault id create h.directory with hpart | ⟨b,hpart⟩
  · refine ⟨⟨hvalid,⟨x,by rwa [hpart]⟩,hunused⟩,fun k hk => ?_⟩
    rwa [hpart]
  · obtain ⟨s,j,hs,hj,-⟩ := h.token
    refine ⟨⟨hvalid,?_,hunused⟩,fun k hk => ?_⟩
    · rw [hpart]
      rcases hx.checkAndWrite hsep ((Partition.journal_of_some hs).trans hj) fault p.directoryWriteToken b with
        ⟨-,-,hnew⟩ | ⟨-,hsame⟩
      · rw [Function.update_idem] at hnew
        exact ⟨_,hnew⟩
      · exact ⟨x,hsame⟩
    · rw [hpart]
      exact Partition.checkAndWrite_keeps fault _ b hk

theorem openSlot (h : Consistent hB slots content p) (hi : 0 < i) {t : Slot} (ht : slots[i]? = some t) :
    (p.part.openSlot i).2 = .ok () ∧ Consistent hB slots content {p with part := (p.part.openSlot i).1} ∧
      ∃ j, (p.part.openSlot i).1.journal i = some j := by
  obtain ⟨x,hx⟩ := h.carrying
  obtain ⟨hok,hcarry,hj⟩ := hx.openSlot hsep ht
  exact ⟨hok,⟨h.toValid.touch (Partition.openSlot_slot_ne (Nat.ne_of_gt hi)) Partition.openSlot_numSlots,
    ⟨x,hcarry⟩,h.unused⟩,hj⟩

/-- A write to the slot of a log. -/
theorem checkAndWrite (h : Consistent hB slots content p) (hi : 0 < i) {a : LogID}
    (ha : p.idToSlot.lookup a = some i) {j : Journal} (hj : p.part.journal i = some j) (fault : Fault)
    (token : UInt32) (data : List UInt8) :
    (p.part.checkAndWrite fault i token data).2 = .ok () ∧ token = (content i).2 ∧
      Consistent hB slots (Function.update content i (data,token+1))
        {p with part := (p.part.checkAndWrite fault i token data).1} ∨
    (p.part.checkAndWrite fault i token data).2 ≠ .ok () ∧
      Consistent hB slots content {p with part := (p.part.checkAndWrite fault i token data).1} := by
  have hne : i ≠ mappingConfigSlot := Nat.ne_of_gt hi
  obtain ⟨x,hx⟩ := h.carrying
  have hvalid := h.toValid.touch (Partition.onSlot_slot_ne (fun d s => s.checkAndWrite fault d token data) hne)
    (Partition.onSlot_numSlots _)
  rcases hx.checkAndWrite hsep hj fault token data with ⟨hok,htoken,hnew⟩ | ⟨hnot,hsame⟩
  · rw [Function.update_of_ne hne] at htoken
    rw [Function.update_comm (Ne.symm hne)] at hnew
    refine .inl ⟨hok,htoken,hvalid,⟨x,hnew⟩,fun k hk => ?_⟩
    have hk' : k ≠ i := by
      rintro rfl
      exact ((h.free.mem_iff k).mp hk).2.2 a ha
    rw [Function.update_of_ne hk']
    exact h.unused k hk
  · exact .inr ⟨hnot,hvalid,⟨x,hsame⟩,h.unused⟩

end Consistent

/-- This token and this checkpoint were read when the first `k` writes had been made. -/
def Seen (E : External Origin LogID) (base : List UInt8 × UInt32) (us : List (Success Origin)) (t : UInt32)
    (cp : Checkpoint) : Prop :=
  ∃ k ≤ us.length, (shown base (us.take k)).2 = t ∧ unmarshalCheckpoint E (shown base (us.take k)).1 = .ok cp

omit [DecidableEq LogID] in
lemma Seen.mono {E : External Origin LogID} {base : List UInt8 × UInt32} {us us' : List (Success Origin)}
    {t : UInt32} {cp : Checkpoint} (h : Seen E base us t cp) (hp : us <+: us') : Seen E base us' t cp := by
  obtain ⟨k,hk,ht,hcp⟩ := h
  obtain ⟨vs,rfl⟩ := hp
  refine ⟨k,by rw [List.length_append]; omega,?_⟩
  rw [List.take_append_of_le_length hk]
  exact ⟨ht,hcp⟩

section Coherent
variable (hB : entryHeaderSize ≤ M.blockSize) (slots : List Slot) (E : External Origin LogID)
  (base : ℕ → List UInt8 × UInt32) (initial : ℕ → Option Checkpoint) (m0 : SlotMap LogID)

/-- What a client knows at the stage it has reached. -/
def Client.Matches (p : SlotPersistence M LogID) (history : List (Transition Origin LogID))
    (c : Client Origin LogID) : Prop :=
  match c.stage with
  | .located i => p.idToSlot.lookup (E.logID c.request.origin) = some i
  | .opened i => p.idToSlot.lookup (E.logID c.request.origin) = some i ∧ ∃ j, p.part.journal i = some j
  | .fetched i t cp => (p.idToSlot.lookup (E.logID c.request.origin) = some i ∧ ∃ j, p.part.journal i = some j) ∧
      Seen E (base i) (writesTo i history) t cp
  | .applied i t cp new => ((p.idToSlot.lookup (E.logID c.request.origin) = some i ∧
      ∃ j, p.part.journal i = some j) ∧ Seen E (base i) (writesTo i history) t cp) ∧
      ∃ o f, c.request = .update o f ∧ f cp = .ok new
  | _ => True

variable [DecidableEq Origin]

/-- The newest checkpoint of an origin, by its history. -/
def newestOf (history : List (Transition Origin LogID)) (o : Origin) : Option Checkpoint :=
  newest ((m0.lookup (E.logID o)).bind initial) (updatesOf o history)

/-- Every `Latest` said what was then the newest checkpoint. -/
def Truthful (history : List (Transition Origin LogID)) : Prop :=
  ∀ pre o s r post, history = pre ++ ⟨.latest o,s,.returned (.checkpoint r)⟩::post →
    answer r = .ok (newestOf E initial m0 pre o)

/-- The system between two steps. -/
structure Coherent (σ : System M Origin LogID) : Prop where
  shared : Consistent hB slots (fun i => shown (base i) (writesTo i σ.history)) σ.shared
  clients : ∀ c ∈ σ.clients, c.Matches E base σ.shared σ.history
  chain : ∀ i, 0 < i → i < slots.length → Chain (initial i) (writesTo i σ.history)
  owner : ∀ u ∈ σ.history.filterMap Transition.success,
    σ.shared.idToSlot.lookup (E.logID u.origin) = some u.slot
  within : m0.Within σ.shared.idToSlot
  starts : ∀ a i, σ.shared.idToSlot.lookup a = some i → (m0.lookup a).bind initial = initial i
  truthful : Truthful E initial m0 σ.history

end Coherent

section Coherence
variable {hB : entryHeaderSize ≤ M.blockSize} {slots : List Slot} {E : External Origin LogID}
  {base : ℕ → List UInt8 × UInt32} {initial : ℕ → Option Checkpoint} {m0 : SlotMap LogID}
  {p p' : SlotPersistence M LogID} {history history' : List (Transition Origin LogID)}

lemma Client.Matches.mono {c : Client Origin LogID} (h : c.Matches E base p history)
    (hw : p.idToSlot.Within p'.idToSlot)
    (hkeep : ∀ k, (∃ j, p.part.journal k = some j) → ∃ j, p'.part.journal k = some j)
    (hp : ∀ i, writesTo i history <+: writesTo i history') : c.Matches E base p' history' := by
  obtain ⟨q,stage⟩ := c
  cases stage with
  | called => trivial
  | returned r => trivial
  | located i => exact hw _ _ h
  | opened i => exact ⟨hw _ _ h.1,hkeep i h.2⟩
  | fetched i t cp => exact ⟨⟨hw _ _ h.1.1,hkeep i h.1.2⟩,h.2.mono (hp i)⟩
  | applied i t cp new => exact ⟨⟨⟨hw _ _ h.1.1.1,hkeep i h.1.1.2⟩,h.1.2.mono (hp i)⟩,h.2⟩

variable [DecidableEq Origin]

omit [DecidableEq LogID] in
lemma Truthful.snoc {τ : Transition Origin LogID} [DecidableEq LogID] (h : Truthful E initial m0 history)
    (hτ : ∀ o s r, τ = ⟨.latest o,s,.returned (.checkpoint r)⟩ → answer r = .ok (newestOf E initial m0 history o)) :
    Truthful E initial m0 (history ++ [τ]) := by
  intro pre o s r post heq
  rcases List.eq_nil_or_concat post with rfl | ⟨post,τ',rfl⟩
  · obtain ⟨rfl,hlast⟩ := List.append_inj' heq rfl
    exact hτ o s r (List.singleton_inj.mp hlast)
  · rw [List.concat_eq_append,← List.cons_append,← List.append_assoc] at heq
    exact h pre o s r post (List.append_inj' heq rfl).1

namespace Coherent
variable {σ : System M Origin LogID} (h : Coherent hB slots E base initial m0 σ)
include h

section Reads
variable (hid : Function.Injective E.logID) {o : Origin}

include hid in
/-- The writes to the slot of an origin are its updates. -/
lemma newestOf_some {i : ℕ} (hl : σ.shared.idToSlot.lookup (E.logID o) = some i) :
    newestOf E initial m0 σ.history o = newest (initial i) (writesTo i σ.history) ∧
      updatesOf o σ.history = writesTo i σ.history := by
  have heq : updatesOf o σ.history = writesTo i σ.history := by
    refine List.filter_congr fun u hu => decide_eq_decide.mpr ⟨fun ho => ?_,fun hi => ?_⟩
    · have hslot := h.owner u hu
      rw [ho,hl] at hslot
      exact (Option.some.inj hslot).symm
    · have hslot := h.owner u hu
      rw [hi] at hslot
      exact hid (h.shared.map.injective _ _ i hslot hl)
  exact ⟨by rw [newestOf,heq,h.starts _ i hl],heq⟩

/-- An origin without a slot has no updates. -/
lemma newestOf_none (hl : σ.shared.idToSlot.lookup (E.logID o) = none) :
    newestOf E initial m0 σ.history o = none ∧ updatesOf o σ.history = [] := by
  have hm0 : m0.lookup (E.logID o) = none := by
    refine Option.eq_none_iff_forall_ne_some.mpr fun i hi => ?_
    rw [h.within _ i hi] at hl
    cases hl
  have hnil : updatesOf o σ.history = [] := by
    refine List.filter_eq_nil_iff.mpr fun u hu ho => ?_
    have hslot := h.owner u hu
    rw [of_decide_eq_true ho,hl] at hslot
    cases hslot
  exact ⟨by rw [newestOf,hm0,hnil]; rfl,hnil⟩

variable (hbase : ∀ i, 0 < i → i < slots.length → recorded E (base i).1 = .ok (initial i))
include hid hbase

/-- What an open slot holds. -/
lemma recorded_slot {i : ℕ} (hl : σ.shared.idToSlot.lookup (E.logID o) = some i) :
    recorded E (shown (base i) (writesTo i σ.history)).1 = .ok (newestOf E initial m0 σ.history o) := by
  obtain ⟨hi,t,ht⟩ := h.shared.slot hl
  rw [(h.newestOf_some hid hl).1]
  exact recorded_shown (hbase i hi (List.getElem?_eq_some_iff.mp ht).1) _

/-- A `Latest` with nothing in between says what is the newest checkpoint. -/
theorem checkpoint (hsep : Partition.Separate slots) (o : Origin) :
    SlotPersistence.checkpoint E σ.shared o = .ok (newestOf E initial m0 σ.history o) := by
  cases hl : σ.shared.idToSlot.lookup (E.logID o) with
  | none =>
    rw [(h.newestOf_none hl).1]
    simp only [SlotPersistence.checkpoint,SlotPersistence.latest,bind_run,SlotPersistence.logSlot_missing hl,
      next_error]
    rfl
  | some i =>
    obtain ⟨hi,t,ht⟩ := h.shared.slot hl
    obtain ⟨hok,hcons,j,hj⟩ := h.shared.openSlot hsep hi ht
    have hanswer := answer_of_recorded (h.recorded_slot hid hbase hl)
    simp only [SlotPersistence.checkpoint,SlotPersistence.latest,bind_run,SlotPersistence.logSlot_found hl,next_ok,
      SlotPersistence.openAndRead,SlotPersistence.onPart,hok,Outcome.mapError_ok,hcons.read hi hj]
    rw [← hanswer]
    split_ifs <;> rfl

include h in
omit hbase in
/-- The updates of an origin form a chain. -/
lemma chain_updates (o : Origin) : Chain ((m0.lookup (E.logID o)).bind initial) (updatesOf o σ.history) := by
  cases hl : σ.shared.idToSlot.lookup (E.logID o) with
  | none =>
    rw [(h.newestOf_none hl).2]
    trivial
  | some i =>
    obtain ⟨hi,t,ht⟩ := h.shared.slot hl
    rw [(h.newestOf_some hid hl).2,h.starts _ i hl]
    exact h.chain i hi (List.getElem?_eq_some_iff.mp ht).1

/-- Without a new update of the origin, its checkpoint stays what it was. -/
lemma checkpoint_same (hsep : Partition.Separate slots) {σ' : System M Origin LogID}
    (h' : Coherent hB slots E base initial m0 σ') (hsame : updatesOf o σ'.history = updatesOf o σ.history) :
    σ'.shared.checkpoint E o = σ.shared.checkpoint E o := by
  rw [h'.checkpoint hid hbase hsep,h.checkpoint hid hbase hsep,newestOf,hsame]
  rfl

end Reads

section Steps
variable {k : ℕ} {q : Request Origin} {source target : Stage LogID}

/-- A step that is not a successful write. -/
lemma quiet {p : SlotPersistence M LogID} (hsuccess : Transition.success ⟨q,source,target⟩ = none)
    (hshared : Consistent hB slots (fun i => shown (base i) (writesTo i σ.history)) p)
    (hwithin : σ.shared.idToSlot.Within p.idToSlot)
    (hstarts : ∀ a i, p.idToSlot.lookup a = some i → (m0.lookup a).bind initial = initial i)
    (hkeep : ∀ i, (∃ j, σ.shared.part.journal i = some j) → ∃ j, p.part.journal i = some j)
    (hmatch : Client.Matches E base p σ.history ⟨q,target⟩)
    (hanswer : ∀ o r, q = .latest o → target = .returned (.checkpoint r) →
      answer r = .ok (newestOf E initial m0 σ.history o)) :
    Coherent hB slots E base initial m0 ⟨p,σ.clients.set k ⟨q,target⟩,σ.history ++ [⟨q,source,target⟩]⟩ := by
  have hwrites : ∀ i, writesTo i (σ.history ++ [⟨q,source,target⟩]) = writesTo i σ.history :=
    writesTo_quiet hsuccess
  refine ⟨?_,fun c' hc' => ?_,fun i hi hlt => ?_,fun u hu => ?_,h.within.trans hwithin,hstarts,h.truthful.snoc ?_⟩
  · simp only [hwrites]
    exact hshared
  · rcases List.mem_or_eq_of_mem_set hc' with hmem | rfl
    · exact (h.clients c' hmem).mono hwithin hkeep fun i => (hwrites i).symm ▸ List.prefix_rfl
    · exact hmatch.mono (.refl _) (fun _ hk => hk) fun i => (hwrites i).symm ▸ List.prefix_rfl
  · rw [hwrites]
    exact h.chain i hi hlt
  · rw [List.filterMap_append,List.filterMap_cons_none hsuccess,List.filterMap_nil,List.append_nil] at hu
    exact hwithin _ _ (h.owner u hu)
  · intro o s r heq
    injection heq with hrequest hsource htarget
    exact hanswer o r hrequest htarget

/-- A quiet step on the partition. -/
lemma quiet_part (part : Partition M) (hsuccess : Transition.success ⟨q,source,target⟩ = none)
    (hshared : Consistent hB slots (fun i => shown (base i) (writesTo i σ.history)) {σ.shared with part := part})
    (hkeep : ∀ i, (∃ j, σ.shared.part.journal i = some j) → ∃ j, part.journal i = some j)
    (hmatch : Client.Matches E base {σ.shared with part := part} σ.history ⟨q,target⟩)
    (hanswer : ∀ o r, q = .latest o → target = .returned (.checkpoint r) →
      answer r = .ok (newestOf E initial m0 σ.history o)) :
    Coherent hB slots E base initial m0
      ⟨{σ.shared with part := part},σ.clients.set k ⟨q,target⟩,σ.history ++ [⟨q,source,target⟩]⟩ :=
  h.quiet hsuccess hshared (.refl _) h.starts hkeep hmatch hanswer

/-- A quiet step that changes nothing but the stage of its client. -/
lemma quiet_stage (hsuccess : Transition.success ⟨q,source,target⟩ = none)
    (hmatch : Client.Matches E base σ.shared σ.history ⟨q,target⟩)
    (hanswer : ∀ o r, q = .latest o → target = .returned (.checkpoint r) →
      answer r = .ok (newestOf E initial m0 σ.history o)) :
    Coherent hB slots E base initial m0
      ⟨σ.shared,σ.clients.set k ⟨q,target⟩,σ.history ++ [⟨q,source,target⟩]⟩ :=
  h.quiet_part σ.shared.part hsuccess h.shared (fun _ hk => hk) hmatch hanswer

omit h [DecidableEq LogID] [DecidableEq Origin] in
/-- The empty text records nothing, so that no write was made either. -/
lemma initial_of_empty {base : List UInt8 × UInt32} {initial : Option Checkpoint}
    (hbase : recorded E base.1 = .ok initial) {us : List (Success Origin)} (hempty : (shown base us).1 = []) :
    initial = none := by
  have hrec := recorded_shown hbase us
  rw [hempty] at hrec
  rcases List.eq_nil_or_concat us with rfl | ⟨us,u,rfl⟩
  · exact (Outcome.ok.inj hrec).symm
  · rw [List.concat_eq_append,newest_snoc] at hrec
    cases hrec

variable (fault : Fault) (hsep : Partition.Separate slots)
  (hbase : ∀ i, 0 < i → i < slots.length → recorded E (base i).1 = .ok (initial i))

section Called
variable (hc : σ.clients[k]? = some ⟨q,.called⟩)
include hc hsep hbase

/-- The search for the slot of a log. -/
lemma advance_called : Coherent hB slots E base initial m0 (σ.step E (.advance k fault)) := by
  obtain ⟨hcons,hkeep⟩ := h.shared.logSlot hsep E fault (E.logID q.origin) q.creates
  have hstarts : ∀ a i, (SlotPersistence.logSlot E fault (E.logID q.origin) q.creates σ.shared).1.idToSlot.lookup
      a = some i → (m0.lookup a).bind initial = initial i := by
    intro a i ha
    rcases SlotPersistence.logSlot_origin ha with hold | ⟨hnone,hfree⟩
    · exact h.starts a i hold
    · have hm0 : m0.lookup a = none := by
        refine Option.eq_none_iff_forall_ne_some.mpr fun i hi => ?_
        rw [h.within a i hi] at hnone
        cases hnone
      obtain ⟨hpos,hlt,-⟩ := (h.shared.free.mem_iff i).mp hfree
      rw [h.shared.numSlots] at hlt
      rw [hm0,initial_of_empty (hbase i hpos hlt) (h.shared.unused i hfree)]
      rfl
  have hwithin := SlotPersistence.logSlot_within E fault (E.logID q.origin) q.creates σ.shared
  have hquiet : ∀ stage : Stage LogID, Transition.success ⟨q,.called,stage⟩ = none := by
    intro stage
    cases q <;> rfl
  rw [System.step_advance hc rfl]
  cases q with
  | latest o =>
    cases hl : σ.shared.idToSlot.lookup (E.logID o) with
    | some i =>
      simp only [Request.step,bind_run,Request.origin,SlotPersistence.logSlot_found hl,next_ok,pure_run,
        Request.settle]
      exact h.quiet_stage (hquiet _) hl (by rintro o' r - ⟨⟩)
    | none =>
      simp only [Request.step,bind_run,Request.origin,Request.creates,SlotPersistence.logSlot_missing hl,next_error,
        Request.settle]
      refine h.quiet_stage (hquiet _) trivial fun o' r hq hr => ?_
      cases hq
      cases hr
      rw [(h.newestOf_none hl).1]
      rfl
  | update o f =>
    have hstep := fun target => h.quiet (k := k) (hquiet target) hcons hwithin hstarts hkeep
    simp only [Request.step,Request.origin,Request.creates,bind_run] at hstep ⊢
    cases hr : SlotPersistence.logSlot E fault (E.logID o) true σ.shared with
    | mk p r =>
      rw [hr] at hstep
      cases r with
      | ok i =>
        have hlookup := SlotPersistence.logSlot_lookup (congrArg Prod.snd hr)
        rw [hr] at hlookup
        exact hstep (.located i) hlookup (by rintro o' r - ⟨⟩)
      | error e => exact hstep _ trivial (by rintro o' r ⟨⟩)
      | panic e => exact hstep _ trivial (by rintro o' r ⟨⟩)

end Called

/-- Opening the slot. -/
lemma advance_located {i : ℕ} (hc : σ.clients[k]? = some ⟨q,.located i⟩) (hsep : Partition.Separate slots) :
    Coherent hB slots E base initial m0 (σ.step E (.advance k fault)) := by
  have hl : σ.shared.idToSlot.lookup (E.logID q.origin) = some i := h.clients _ (List.mem_of_getElem? hc)
  obtain ⟨hi,t,ht⟩ := h.shared.slot hl
  obtain ⟨hok,hcons,hj⟩ := h.shared.openSlot hsep hi ht
  have hquiet : Transition.success (⟨q,.located i,.opened i⟩ : Transition Origin LogID) = none := by
    cases q <;> rfl
  rw [System.step_advance hc rfl]
  simp only [Request.step,bind_run,SlotPersistence.onPart,hok,Outcome.mapError_ok,next_ok,pure_run,Request.settle]
  exact h.quiet_part _ hquiet hcons (fun _ hk => Partition.openSlot_keeps hk) ⟨hl,hj⟩ (by rintro o r - ⟨⟩)

/-- Reading the slot. -/
lemma advance_opened {i : ℕ} (hc : σ.clients[k]? = some ⟨q,.opened i⟩) (hid : Function.Injective E.logID)
    (hempty : E.unmarshalRecord [] = .ok none)
    (hbase : ∀ i, 0 < i → i < slots.length → recorded E (base i).1 = .ok (initial i)) :
    Coherent hB slots E base initial m0 (σ.step E (.advance k fault)) := by
  obtain ⟨hl,j,hj⟩ : σ.shared.idToSlot.lookup (E.logID q.origin) = some i ∧ ∃ j, σ.shared.part.journal i = some j :=
    h.clients _ (List.mem_of_getElem? hc)
  have hread := h.shared.read (h.shared.slot hl).1 hj
  have hrec := h.recorded_slot hid hbase hl
  rw [System.step_advance hc rfl]
  cases q with
  | update o f =>
    have hcp := unmarshal_of_recorded hempty hrec
    simp only [Request.step,bind_run,SlotPersistence.onPart,hread,Outcome.mapError_ok,next_ok,lift_run,hcp,pure_run,
      Request.settle]
    refine h.quiet_stage rfl ⟨⟨hl,j,hj⟩,_,le_rfl,?_⟩ (by rintro o' r ⟨⟩)
    rw [List.take_length]
    exact ⟨rfl,hcp⟩
  | latest o =>
    have hanswer := answer_of_recorded hrec
    have hstep : ∀ r, answer r = .ok (newestOf E initial m0 σ.history o) → Coherent hB slots E base initial m0
        ⟨σ.shared,σ.clients.set k ⟨.latest o,.returned (.checkpoint r)⟩,
          σ.history ++ [⟨.latest o,.opened i,.returned (.checkpoint r)⟩]⟩ := by
      refine fun r hr => h.quiet_stage rfl trivial fun o' r' ho hr' => ?_
      cases ho
      cases hr'
      exact hr
    simp only [Request.step,bind_run,SlotPersistence.onPart,hread,Outcome.mapError_ok,next_ok]
    by_cases hb : (shown (base i) (writesTo i σ.history)).1.length = 0
    · rw [if_pos hb] at hanswer
      simp only [if_pos hb,fail_run,next_error,Request.settle]
      exact hstep _ hanswer
    · rw [if_neg hb] at hanswer
      simp only [if_neg hb,lift_run]
      cases hcp : unmarshalCheckpoint E (shown (base i) (writesTo i σ.history)).1 with
      | ok cp => exact hstep (.ok cp) (by rw [hcp] at hanswer; exact hanswer)
      | error e => exact hstep (.error (.unmarshalCheckpoint e)) (by rw [hcp] at hanswer; exact hanswer)
      | panic e => exact hstep (.panic e) (by rw [hcp] at hanswer; exact hanswer)

/-- The call of `f`. -/
lemma advance_fetched {i : ℕ} {t : UInt32} {cp : Checkpoint} (hc : σ.clients[k]? = some ⟨q,.fetched i t cp⟩) :
    Coherent hB slots E base initial m0 (σ.step E (.advance k fault)) := by
  have hmatch : (σ.shared.idToSlot.lookup (E.logID q.origin) = some i ∧ ∃ j, σ.shared.part.journal i = some j) ∧
      Seen E (base i) (writesTo i σ.history) t cp := h.clients _ (List.mem_of_getElem? hc)
  rw [System.step_advance hc rfl]
  cases q with
  | latest o => exact h.quiet_stage rfl hmatch (by rintro o' r - ⟨⟩)
  | update o f =>
    simp only [Request.step,bind_run,lift_run]
    cases hf : f cp with
    | ok new => exact h.quiet_stage rfl ⟨hmatch,o,f,rfl,hf⟩ (by rintro o' r ⟨⟩)
    | error e => exact h.quiet_stage rfl trivial (by rintro o' r ⟨⟩)
    | panic e => exact h.quiet_stage rfl trivial (by rintro o' r ⟨⟩)

/-- A successful write: the client had seen the newest checkpoint. -/
lemma success {i : ℕ} {t : UInt32} {cp : Checkpoint} {new : List UInt8} {o : Origin}
    {f : SlotPersistence.Callback} {part : Partition M}
    (hc : σ.clients[k]? = some ⟨.update o f,.applied i t cp new⟩) (hempty : E.unmarshalRecord [] = .ok none)
    (hbase : ∀ i, 0 < i → i < slots.length → recorded E (base i).1 = .ok (initial i))
    (hfew : (writesTo i σ.history).length < 2^32-1) (ht : t = (shown (base i) (writesTo i σ.history)).2)
    (hshared : Consistent hB slots
      (Function.update (fun i => shown (base i) (writesTo i σ.history)) i (marshalCheckpoint new,t+1))
      {σ.shared with part := part})
    (hkeep : ∀ i, (∃ j, σ.shared.part.journal i = some j) → ∃ j, part.journal i = some j) :
    Coherent hB slots E base initial m0 ⟨{σ.shared with part := part},
      σ.clients.set k ⟨.update o f,.returned (.done (.ok ()))⟩,
      σ.history ++ [⟨.update o f,.applied i t cp new,.returned (.done (.ok ()))⟩]⟩ := by
  obtain ⟨⟨⟨hl,-⟩,n,hn,htoken,hcp⟩,o',f',hq,hf⟩ : (((σ.shared.idToSlot.lookup (E.logID o) = some i ∧
      ∃ j, σ.shared.part.journal i = some j) ∧ Seen E (base i) (writesTo i σ.history) t cp) ∧
      ∃ o' f', Request.update o f = .update o' f' ∧ f' cp = .ok new) := h.clients _ (List.mem_of_getElem? hc)
  cases hq
  have hall : n = (writesTo i σ.history).length := token_current hn hfew (htoken.trans ht)
  have hwrites : ∀ i', writesTo i' (σ.history ++ [⟨.update o f,.applied i t cp new,.returned (.done (.ok ()))⟩]) =
      writesTo i' σ.history ++ if i = i' then [⟨o,i,f,cp,new⟩] else [] :=
    writesTo_success (u := ⟨o,i,f,cp,new⟩) rfl
  refine ⟨?_,fun c' hc' => ?_,fun i' hi' hlt => ?_,fun u hu => ?_,h.within,h.starts,
    h.truthful.snoc fun o' s r heq => ?_⟩
  · convert hshared using 2 with i'
    dsimp only
    rw [hwrites]
    by_cases hi : i = i'
    · subst hi
      rw [if_pos rfl,shown_snoc,Function.update_self,ht]
    · rw [if_neg hi,List.append_nil,Function.update_of_ne (Ne.symm hi)]
  · rcases List.mem_or_eq_of_mem_set hc' with hmem | rfl
    · exact (h.clients c' hmem).mono (.refl _) hkeep (writesTo_grows _)
    · trivial
  · rw [hwrites]
    by_cases hi : i = i'
    · subst hi
      rw [hall,List.take_length] at hcp
      have hrec := unmarshal_of_recorded hempty (recorded_shown (hbase i hi' hlt) (writesTo i σ.history))
      rw [if_pos rfl,chain_snoc]
      exact ⟨h.chain i hi' hlt,Outcome.ok.inj (hcp.symm.trans hrec),hf⟩
    · rw [if_neg hi,List.append_nil]
      exact h.chain i' hi' hlt
  · rw [List.filterMap_append,List.mem_append] at hu
    rcases hu with hold | hnew
    · exact h.owner u hold
    · cases List.mem_singleton.mp hnew
      exact hl
  · injection heq with hrequest
    cases hrequest

/-- The write. -/
lemma advance_applied {i : ℕ} {t : UInt32} {cp : Checkpoint} {new : List UInt8}
    (hc : σ.clients[k]? = some ⟨q,.applied i t cp new⟩) (hsep : Partition.Separate slots)
    (hempty : E.unmarshalRecord [] = .ok none)
    (hbase : ∀ i, 0 < i → i < slots.length → recorded E (base i).1 = .ok (initial i))
    (hfew : (writesTo i σ.history).length < 2^32-1) :
    Coherent hB slots E base initial m0 (σ.step E (.advance k fault)) := by
  obtain ⟨⟨⟨hl,j,hj⟩,-⟩,o,f,hq,-⟩ : (((σ.shared.idToSlot.lookup (E.logID q.origin) = some i ∧
      ∃ j, σ.shared.part.journal i = some j) ∧ Seen E (base i) (writesTo i σ.history) t cp) ∧
      ∃ o f, q = .update o f ∧ f cp = .ok new) := h.clients _ (List.mem_of_getElem? hc)
  subst hq
  have hi := (h.shared.slot hl).1
  have hkeep : ∀ k', (∃ j, σ.shared.part.journal k' = some j) →
      ∃ j, (σ.shared.part.checkAndWrite fault i t (marshalCheckpoint new)).1.journal k' = some j :=
    fun _ hk => Partition.checkAndWrite_keeps fault t _ hk
  rw [System.step_advance hc rfl]
  simp only [Request.step,bind_run,SlotPersistence.onPart]
  rcases h.shared.checkAndWrite hsep hi hl hj fault t (marshalCheckpoint new) with ⟨hok,ht,hcons⟩ | ⟨hnot,hcons⟩
  · rw [hok]
    exact h.success hc hempty hbase hfew ht hcons hkeep
  · cases hr : (σ.shared.part.checkAndWrite fault i t (marshalCheckpoint new)).2 with
    | ok u => exact absurd hr hnot
    | error e => exact h.quiet_part _ rfl hcons hkeep trivial (by rintro o' r ⟨⟩)
    | panic e => exact h.quiet_part _ rfl hcons hkeep trivial (by rintro o' r ⟨⟩)

end Steps

/-- Every move keeps the system coherent. -/
theorem step (hid : Function.Injective E.logID) (hsep : Partition.Separate slots)
    (hempty : E.unmarshalRecord [] = .ok none)
    (hbase : ∀ i, 0 < i → i < slots.length → recorded E (base i).1 = .ok (initial i))
    (hfew : ∀ i, (writesTo i σ.history).length < 2^32-1) (move : Move Origin) :
    Coherent hB slots E base initial m0 (σ.step E move) := by
  cases move with
  | call q =>
    refine ⟨h.shared,fun c hc => ?_,h.chain,h.owner,h.within,h.starts,h.truthful⟩
    rcases List.mem_append.mp hc with hc | hc
    · exact h.clients c hc
    · cases List.mem_singleton.mp hc
      trivial
  | advance k fault =>
    cases hc : σ.clients[k]? with
    | none =>
      simp only [System.step,hc]
      exact h
    | some c =>
      obtain ⟨q,stage⟩ := c
      cases stage with
      | called => exact h.advance_called fault hsep hbase hc
      | located i => exact h.advance_located fault hc hsep
      | opened i => exact h.advance_opened fault hc hid hempty hbase
      | fetched i t cp => exact h.advance_fetched fault hc
      | applied i t cp new => exact h.advance_applied fault hc hsep hempty hbase (hfew i)
      | returned r =>
        simp only [System.step,hc,Stage.isReturned,if_true]
        exact h

end Coherent
end Coherence
end ArmoredWitness.Persistence
