import ArmoredWitness.Net.Stack

/-! Before the callback touches the stack it calls `cancelChild` and receives from `fDone`.
Both rest on an instance of the old address, which is there exactly if the stack accepted
that address when it was reported. -/
namespace ArmoredWitness.Net
open Lib Lib.Transition

/-- The callback is about to call `cancelChild` and to receive from `fDone`, or already
waits for it. -/
def State.AtChild (s : State) : Prop :=
  (∃ new, s.pc = .entered new ∧ s.addr ≠ new ∧ s.addr.unspecified = false) ∨
    ∃ new, s.pc = .waiting new

/-- What the two need: a function to call, and a goroutine whose token is still to come. -/
def State.Provided (s : State) : Prop := s.cancelChild ≠ none ∧ 0 < s.outstanding

lemma State.AtChild.busy {s : State} (h : s.AtChild) : s.pc.quiet = false := by
  cases h with
  | inl h =>
    obtain ⟨new,hpc,-⟩ := h
    rw [hpc]
    rfl
  | inr h =>
    obtain ⟨new,hpc⟩ := h
    rw [hpc]
    rfl

/-- The callback has what it needs exactly if the stack accepted the old address when it
was reported. -/
theorem provided_iff_added {a : AddressWithPrefix} {es : List Event} {s : State}
    (hr : run step (start a) es = some s) (hat : s.AtChild) : s.Provided ↔ s.added = true := by
  have h := inv_run hr
  have hout := h.outstanding_busy hat.busy
  constructor
  · intro hp
    have hpos := hp.2
    rw [hout] at hpos
    cases hadd : s.added with
    | false => rw [hadd] at hpos; cases hpos
    | true => rfl
  · intro hadd
    refine ⟨h.cancels hadd,?_⟩
    rw [hout,hadd]
    exact Nat.one_pos

theorem provided_iff_added_change : ∃ s, run step (start noAddress) (firstLease ++ leaseChange) = some s ∧
    s.AtChild ∧ s.Provided := by
  obtain ⟨s,hs⟩ : ∃ s, run step (start noAddress) (firstLease ++ leaseChange) = some s := ⟨_,rfl⟩
  have hat : s.AtChild := by
    cases hs
    exact .inr ⟨leaseB,rfl⟩
  refine ⟨s,hs,hat,(provided_iff_added hs hat).mpr ?_⟩
  cases hs
  rfl

/-- Without an instance of the old address the callback waits for ever. -/
theorem waits_forever {s t : State} {new : AddressWithPrefix} {es : List Event} (h : Inv s)
    (hpc : s.pc = .waiting new) (hadd : s.added = false) (hr : run step s es = some t) :
    t.pc = .waiting new := by
  have key : Inv t ∧ t.pc = .waiting new ∧ t.added = false := by
    refine run_invariant (I := fun s => Inv s ∧ s.pc = .waiting new ∧ s.added = false) ?_
      ⟨h,hpc,hadd⟩ hr
    intro s e t hs ht
    obtain ⟨hi,hpc,hadd⟩ := hs
    refine ⟨hi.step ht,?_⟩
    have hout := hi.outstanding_busy (by simp [hpc,Pc.quiet])
    rw [hadd] at hout
    change s.alive + s.fDone.buf.length = 0 at hout
    cases step_inv ht with
    | callback ha =>
      cases ha with
      | token _ hrecv =>
        have hlen := (Channel.recv_eq_ok hrecv).1
        omega
      | closed _ hrecv =>
        have hclosed := Channel.recv_eq_done hrecv
        rw [hi.open_of_running (by simp [hpc])] at hclosed
        cases hclosed
      | renew hp | first hp | nil hp | cancel hp | remove hp | none hp | add hp | added hp
      | refused hp | start hp =>
        rw [hpc] at hp
        cases hp
    | fReturns => exact ⟨hpc,hadd⟩
    | signals hg | crash hg =>
      have hpos := alive_pos hg rfl
      omega
    | report hp | finish hp =>
      rw [hpc] at hp
      cases hp
  exact key.2.1

/-- A first lease whose address the stack refuses. -/
def refusedLease : List Event := [.report leaseA,.callback true,.callback true,.callback false]

/-- The instance of the old address ends, and the stack refuses the new one. -/
def refusedChange : List Event :=
  leaseChange ++ [.fReturns 0 true,.signals 0,.callback true,.callback true,.callback true,.callback false]

/-- When a refused first lease expires the callback calls a nil function. When the address
that replaces an earlier one is refused and expires, the callback waits for ever. -/
theorem refused_address_expires :
    (∃ s t, run step (start noAddress) (refusedLease ++ [.report noAddress]) = some s ∧
      s.AtChild ∧ ¬ s.Provided ∧ step s (.callback true) = some t ∧ t.pc = .panicked) ∧
    (∃ s, run step (start noAddress) (firstLease ++ refusedChange ++ [.report noAddress,.callback true]) =
        some s ∧ s.AtChild ∧ ¬ s.Provided ∧
      ∀ es t, run step s es = some t → t.pc = .waiting noAddress) := by
  constructor
  · refine ⟨_,_,rfl,.inl ⟨noAddress,rfl,by decide,by decide⟩,?_,rfl,rfl⟩
    intro h
    exact h.1 rfl
  · obtain ⟨s,hs⟩ : ∃ s, run step (start noAddress)
        (firstLease ++ refusedChange ++ [.report noAddress,.callback true]) = some s := ⟨_,rfl⟩
    have hpc : s.pc = .waiting noAddress := by
      cases hs
      rfl
    have hadd : s.added = false := by
      cases hs
      rfl
    have hout : s.outstanding = 0 := by
      cases hs
      rfl
    refine ⟨s,hs,.inr ⟨_,hpc⟩,?_,fun es t hr => waits_forever (inv_run hs) hpc hadd hr⟩
    intro h
    exact h.2.ne' hout

section Proceeds
variable {s : State} {new : AddressWithPrefix}

/-- The callback can get past the wait, with the steps of its old instance and its own. -/
def Proceeds (s : State) (new : AddressWithPrefix) : Prop :=
  ∃ es t, run step s es = some t ∧ t.pc = .removing new

lemma Proceeds.of_step {t : State} {e : Event} (ht : step s e = some t) (h : Proceeds t new) :
    Proceeds s new := by
  obtain ⟨es,u,hr,hpc⟩ := h
  refine ⟨e::es,u,?_,hpc⟩
  rw [run,ht]
  exact hr

lemma proceeds_of_token (hpc : s.pc = .waiting new) {b : Bool} {bs : List Bool}
    (hbuf : s.fDone.buf = b::bs) : Proceeds s new := by
  refine ⟨[.callback true],{s with fDone := {s.fDone with buf := bs}, pc := .removing new},?_,rfl⟩
  simp [run,step,acquired,hpc,Channel.recv,hbuf]

lemma proceeds_of_exiting (h : Inv s) (hpc : s.pc = .waiting new) {i : ℕ} {c : Bool}
    (hg : s.goroutines[i]? = some ⟨c,.exiting⟩) : Proceeds s new := by
  have hsend := h.send_ok (alive_pos hg rfl)
  have ht : step s (.signals i) = some {s with
      fDone := {s.fDone with buf := s.fDone.buf ++ [true]}
      goroutines := s.goroutines.set i ⟨c,.ended⟩} := by
    simp [step,signals,hpc,hg,hsend]
  apply Proceeds.of_step ht
  obtain ⟨b,bs,hbuf⟩ : ∃ b bs, s.fDone.buf ++ [true] = b::bs :=
    List.exists_cons_of_ne_nil (by simp)
  exact proceeds_of_token hpc hbuf

lemma proceeds_of_alive (h : Inv s) (hpc : s.pc = .waiting new) (ha : 0 < s.alive) :
    Proceeds s new := by
  obtain ⟨⟨c,stage⟩,hmem,halive⟩ := List.countP_pos_iff.mp ha
  obtain ⟨i,hi⟩ := List.getElem?_of_mem hmem
  cases stage with
  | ended => cases halive
  | exiting => exact proceeds_of_exiting h hpc hi
  | running =>
    have ht : step s (.fReturns i true) = some {s with goroutines := s.goroutines.set i ⟨c,.exiting⟩} := by
      simp [step,fReturns,hpc,hi]
    apply Proceeds.of_step ht
    have hlt := (List.getElem?_eq_some_iff.mp hi).1
    have hset : (s.goroutines.set i ⟨c,.exiting⟩)[i]? = some ⟨c,.exiting⟩ := by simp [hlt]
    exact proceeds_of_exiting (h.step ht) hpc hset

/-- With an instance of the old address, the callback gets past the wait. -/
theorem callback_proceeds (h : Inv s) (hpc : s.pc = .waiting new) (hadd : s.added = true) :
    Proceeds s new := by
  have hout := h.outstanding_busy (by simp [hpc,Pc.quiet])
  rw [hadd] at hout
  cases hbuf : s.fDone.buf with
  | nil =>
    apply proceeds_of_alive h hpc
    simp only [State.outstanding,hbuf,List.length_nil,Bool.toNat_true] at hout
    omega
  | cons b bs => exact proceeds_of_token hpc hbuf

end Proceeds

/-- In every run, a goroutine that the callback waits for has a cancelled context. -/
theorem waits_for_canceled {s : State} {a : AddressWithPrefix} {es : List Event} {new : AddressWithPrefix}
    (hr : run step (start a) es = some s) (hpc : s.pc = .waiting new) {g : Goroutine}
    (hg : g ∈ s.goroutines) (ha : g.alive = true) : g.canceled = true := by
  have key : Inv s ∧ Owner s :=
    run_invariant (I := fun s => Inv s ∧ Owner s)
      (fun _ _ _ h ht => ⟨h.1.step ht,h.2.step h.1 ht⟩) ⟨inv_start a,owner_start a⟩ hr
  obtain ⟨i,hi⟩ := List.getElem?_of_mem hg
  exact key.2.told new hpc i g hi ha

end ArmoredWitness.Net
