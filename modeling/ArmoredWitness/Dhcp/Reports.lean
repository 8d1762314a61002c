import ArmoredWitness.Dhcp.Bound
import ArmoredWitness.Lib.Trail

/-! The callback is told of every change of the address. Whatever the network, the clock and
the caller do, the reports fit together: each one starts from the address of the one before
it. -/
namespace ArmoredWitness.Dhcp
open Lib Lib.Transition Net

/-- A report that acquires an address, renews one or gives one up; none replaces an address
by another. -/
def Report.Gentle (r : Report) : Prop := r.old = noAddress ∨ r.new = r.old ∨ r.new = noAddress

/-- The loop is neither in the callback nor over. -/
def RunPc.steady : RunPc → Bool
  | .acquiring | .exchanging _ _ | .deciding | .waiting _ => true
  | _ => false

/-- The address that a report leads to, by what follows it. -/
def After.target (info : Info) : After → AddressWithPrefix
  | .bound => info.addr
  | .expired | .stopped => noAddress

namespace Run
variable {c : Client} {s t : Run}

/-- The address that was reported last. -/
def current (s : Run) : AddressWithPrefix :=
  match s.pc with
  | .reporting k => k.target s.info
  | _ => s.info.oldAddr

/-- Either no address is reported, or it is that of the client, which has a lease. -/
def Settled (info : Info) : Prop :=
  info.oldAddr = noAddress ∨ info.state ≠ .initSelecting ∧ info.oldAddr = info.addr

structure AddrInv (s : Run) : Prop where
  linked : Trail.Linked Report.old Report.new noAddress s.reports
  gentle : ∀ r ∈ s.reports, r.Gentle
  current : Trail.last Report.new noAddress s.reports = s.current
  settled : s.pc.steady = true → Settled s.info
  attempt : (∃ x d, s.pc = .exchanging x d) ∨ s.pc = .acquiring → s.info.state ≠ .bound
  kept : ∀ x d, s.pc = .exchanging x d → ∃ xid, x.Kept s.info xid
  waiting : ∀ next, s.pc = .waiting next → next ≠ .bound ∧ (next = .initSelecting → s.info.state = .initSelecting)
  returned : s.pc = .returned → s.info.oldAddr = noAddress ∧ s.stored = s.info

/-- A step to a place outside the exchanges that reports nothing. -/
lemma AddrInv.move (h : AddrInv s) (hr : t.reports = s.reports) (hcur : t.current = s.current)
    (hset : t.pc.steady = true → Settled t.info) (hex : ∀ x d, t.pc ≠ .exchanging x d)
    (hacq : t.pc = .acquiring → t.info.state ≠ .bound)
    (hwait : ∀ next, t.pc = .waiting next →
      next ≠ .bound ∧ (next = .initSelecting → t.info.state = .initSelecting))
    (hret : t.pc = .returned → t.info.oldAddr = noAddress ∧ t.stored = t.info) : AddrInv t where
  linked := by rw [hr]; exact h.linked
  gentle := by rw [hr]; exact h.gentle
  current := by rw [hr,hcur]; exact h.current
  settled := hset
  attempt := by
    rintro (⟨x,d,hp⟩ | hp)
    · exact absurd hp (hex x d)
    · exact hacq hp
  kept x d hp := absurd hp (hex x d)
  waiting := hwait
  returned := hret

/-- A step that reports. -/
lemma AddrInv.push (h : AddrInv s) {new : AddressWithPrefix} {cfg : Config} {k : After} {info : Info}
    (hold : info.oldAddr = s.current) (hnew : new = k.target info)
    (hg : (⟨info.oldAddr,new,cfg⟩ : Report).Gentle) (hi : t.info = info)
    (hr : t.reports = s.reports ++ [⟨info.oldAddr,new,cfg⟩]) (hp : t.pc = .reporting k) : AddrInv t where
  linked := by
    rw [hr]
    apply h.linked.snoc
    rw [h.current]
    exact hold
  gentle := by
    rw [hr]
    exact List.forall_mem_append.mpr ⟨h.gentle,by simpa using hg⟩
  current := by
    rw [hr,Trail.last_snoc,Run.current,hp,hi]
    exact hnew
  settled hs := by
    rw [hp] at hs
    cases hs
  attempt := by
    rw [hp]
    rintro (⟨x,d,hx⟩ | hx) <;> cases hx
  kept x d hx := by
    rw [hp] at hx
    cases hx
  waiting next hx := by
    rw [hp] at hx
    cases hx
  returned hx := by
    rw [hp] at hx
    cases hx

section Parts
variable {u : Run}

lemma AddrInv.resume (h : AddrInv s) (hr : u.reports = s.reports) {k : After} (hcur : s.current = k.target u.info) :
    AddrInv (u.resume k) := by
  cases k with
  | bound =>
    refine h.move hr hcur.symm (fun _ => .inr ⟨by rintro ⟨⟩,rfl⟩) (by rintro _ _ ⟨⟩) (by rintro ⟨⟩)
      (by rintro _ ⟨⟩) (by rintro ⟨⟩)
  | expired =>
    refine h.move hr hcur.symm (fun _ => .inl rfl) (by rintro _ _ ⟨⟩) (fun _ => by rintro ⟨⟩)
      (by rintro _ ⟨⟩) (by rintro ⟨⟩)
  | stopped =>
    exact h.move hr hcur.symm (by rintro ⟨⟩) (by rintro _ _ ⟨⟩) (by rintro ⟨⟩) (by rintro _ ⟨⟩)
      (fun _ => ⟨rfl,rfl⟩)

lemma AddrInv.cleanup (h : AddrInv s) (hr : u.reports = s.reports) (hold : u.info.oldAddr = s.current) {k : After}
    (hk : k ≠ .bound) : AddrInv (u.cleanup k) := by
  have htarget : noAddress = k.target u.info := by
    cases k with
    | bound => exact absurd rfl hk
    | expired | stopped => rfl
  unfold Run.cleanup
  split
  · rename_i hno
    exact h.resume hr (hold.symm.trans (hno.trans htarget))
  · exact h.push hold htarget (.inr (.inr rfl)) rfl (congrArg (· ++ _) hr) rfl

lemma AddrInv.transition (h : AddrInv s) (hr : u.reports = s.reports) (hset : Settled u.info)
    (hold : u.info.oldAddr = s.current) {next : ClientState} (hnext : next ≠ .bound) :
    AddrInv (u.transition next) := by
  unfold Run.transition
  split
  · exact h.cleanup hr hold (by rintro ⟨⟩)
  · rename_i hn
    refine h.move hr hold ?_ (by rintro _ _ ⟨⟩) (fun _ => hnext) (by rintro _ ⟨⟩) (by rintro ⟨⟩)
    intro _
    cases hset with
    | inl hno => exact .inl hno
    | inr hlease => exact .inr ⟨fun hi => hn ⟨hlease.1,hi⟩,hlease.2⟩

end Parts

lemma next_ne_bound {now wait : ℤ} {next : ClientState} (h : s.next now = some (next,wait)) : next ≠ .bound := by
  unfold Run.next at h
  split_ifs at h <;> cases h <;> decide

lemma AddrInv.decided (h : AddrInv s) (hp : s.pc = .deciding) {now wait : ℤ} {next : ClientState}
    (hn : s.next now = some (next,wait)) : AddrInv (s.decided c now next wait) := by
  have hset := h.settled (by rw [hp]; rfl)
  have hold : s.info.oldAddr = s.current := by rw [Run.current,hp]
  unfold Run.decided
  dsimp only
  split
  · split
    · apply h.cleanup
      · rfl
      · exact hold
      · rintro ⟨⟩
    · apply h.transition
      · rfl
      · exact hset
      · exact hold
      · exact next_ne_bound hn
  · rename_i hw
    refine h.move rfl hold (fun _ => hset) (by rintro _ _ ⟨⟩) (by rintro ⟨⟩) ?_ (by rintro ⟨⟩)
    intro next' hp'
    cases hp'
    refine ⟨next_ne_bound hn,?_⟩
    intro hi
    by_contra hs
    exact hw ⟨fun he => hs (he.trans hi),by rw [hi]; decide⟩

/-- An exchange that ends without a lease leaves the addresses alone. -/
lemma AddrInv.failed (h : AddrInv s) {x : Exchange} {d now : ℤ} {e : AcquireError} (hp : s.pc = .exchanging x d)
    (hx : x.phase = .returned (.error e)) (ks : List Counter) :
    AddrInv (({s with stats := ks} : Run).failed x.info now) := by
  obtain ⟨xid,hk⟩ := h.kept x d hp
  have hold : x.info.oldAddr = s.current := by rw [hk.oldAddr,Run.current,hp]
  unfold Run.failed
  dsimp only
  split
  · apply h.cleanup
    · rfl
    · exact hold
    · rintro ⟨⟩
  · refine h.move rfl hold ?_ (by rintro _ _ ⟨⟩) (by rintro ⟨⟩) (by rintro _ ⟨⟩) (by rintro ⟨⟩)
    intro _
    have hset := h.settled (by rw [hp]; rfl)
    rw [Settled,← hk.oldAddr,← hk.state,← hk.addr (by rw [hx]; rfl)] at hset
    exact hset

/-- A lease is on the address reported before, or comes after none. -/
lemma AddrInv.acquired (h : AddrInv s) {x : Exchange} {d now : ℤ} {cfg : Config} (hp : s.pc = .exchanging x d)
    (hx : x.phase = .returned (.ok cfg)) (ks : List Counter) :
    AddrInv (({s with stats := ks} : Run).acquired x.info cfg now) := by
  obtain ⟨xid,hk⟩ := h.kept x d hp
  have hold : x.info.oldAddr = s.current := by rw [hk.oldAddr,Run.current,hp]
  refine h.push hold rfl ?_ rfl rfl rfl
  cases h.settled (by rw [hp]; rfl) with
  | inl hno => exact .inl (hk.oldAddr.trans hno)
  | inr hlease =>
    have haddr := hk.acquired cfg (by rw [hx]; rfl)
    refine .inr (.inl ?_)
    change x.info.addr = x.info.oldAddr
    rw [haddr,hk.requested hlease.1,hk.oldAddr,hlease.2]

lemma AddrInv.panic (h : AddrInv s) (hold : s.info.oldAddr = s.current) (why : RunCrash) :
    AddrInv {s with pc := .panicked why} :=
  h.move rfl hold (by rintro ⟨⟩) (by rintro _ _ ⟨⟩) (by rintro ⟨⟩) (by rintro _ ⟨⟩) (by rintro ⟨⟩)

lemma AddrInv.exchange (h : AddrInv s) {x : Exchange} {d now : ℤ} (hold : s.info.oldAddr = s.current)
    (hset : Settled s.info) (hs : s.info.state ≠ .bound) {xid : List.Vector UInt8 4} (hk : x.Kept s.info xid)
    (ks : List Counter) : AddrInv {s with stats := ks, pc := .exchanging x d, now := now} where
  linked := h.linked
  gentle := h.gentle
  current := h.current.trans hold.symm
  settled _ := hset
  attempt _ := hs
  kept := by
    rintro x d ⟨⟩
    exact ⟨xid,hk⟩
  waiting := by rintro _ ⟨⟩
  returned := by rintro ⟨⟩

theorem AddrInv.step (h : AddrInv s) {e : Event} (ht : step c s e = some t) : AddrInv t := by
  cases step_inv ht with
  | attempt hp hk =>
    exact h.exchange (by rw [Run.current,hp]) (h.settled (by rw [hp]; rfl)) (h.attempt (.inr hp))
      (Exchange.kept_start _ _) _
  | unexpected hp => exact h.panic (by rw [Run.current,hp]) _
  | @exchange now e x x' d hp hx hd =>
    obtain ⟨xid,hk⟩ := h.kept x d hp
    exact h.exchange (by rw [Run.current,hp]) (h.settled (by rw [hp]; rfl)) (h.attempt (.inl ⟨x,d,hp⟩)) (hk.step hx)
      s.stats
  | acquired hp hx => exact h.acquired hp hx _
  | failed hp hx => exact h.failed hp hx _
  | crashed hp => exact h.panic (by rw [Run.current,hp]) _
  | reported hp => exact h.resume rfl (by rw [Run.current,hp])
  | invalid hp => exact h.panic (by rw [Run.current,hp]) _
  | decide hp hn => exact h.decided hp hn
  | @fire now next due hp =>
    apply h.transition
    · rfl
    · exact h.settled (by rw [hp]; rfl)
    · rw [Run.current,hp]
    · exact (h.waiting next hp).1
  | stop hp => exact h.cleanup rfl (by rw [Run.current,hp]) (by rintro ⟨⟩)
  | cancel => exact ⟨h.linked,h.gentle,h.current,h.settled,h.attempt,h.kept,h.waiting,h.returned⟩

lemma addrInv_start {stored : Info} (hs : stored.oldAddr = noAddress) : AddrInv (start stored) where
  linked := Trail.linked_nil _ _ _
  gentle := by simp [start]
  current := hs.symm
  settled _ := .inl hs
  attempt _ := by rintro ⟨⟩
  kept := by rintro _ _ ⟨⟩
  waiting := by rintro _ ⟨⟩
  returned := by rintro ⟨⟩

lemma addrInv_run {stored : Info} (hs : stored.oldAddr = noAddress) {es : List Event}
    (hr : run (Run.step c) (start stored) es = some s) : AddrInv s :=
  run_invariant (fun _ _ _ h ht => h.step ht) (addrInv_start hs) hr

/-- In every run, whatever the clock, the network and the caller do, each report starts from
the address of the one before it. An address is never replaced by another: it is given up
before a new one is acquired, and a lease is renewed with the address that it is on. Once
`Run` returns the last report has given the address up, and no old address is stored. -/
theorem reports_fit {stored : Info} (hs : stored.oldAddr = noAddress) {es : List Event}
    (hr : run (Run.step c) (start stored) es = some s) :
    Trail.Linked Report.old Report.new noAddress s.reports ∧ (∀ r ∈ s.reports, r.Gentle) ∧
      (s.pc = .returned → Trail.last Report.new noAddress s.reports = noAddress ∧ s.stored.oldAddr = noAddress) := by
  have h := addrInv_run hs hr
  refine ⟨h.linked,h.gentle,?_⟩
  intro hp
  obtain ⟨hold,hstored⟩ := h.returned hp
  rw [h.current,Run.current,hp,hstored]
  exact ⟨hold,hold⟩

theorem reports_fit_returned :
    ∃ es s, run (Run.step (newClient dotted [] [] [])) (start newInfo) es = some s ∧
      s.pc = .returned ∧ s.reports ≠ [] ∧
      Trail.last Report.new noAddress s.reports = noAddress := by
  obtain ⟨s,hr,hp,-,-,hi,-⟩ := run_leaseEvents
  have hold : ¬ s.info.oldAddr = noAddress := by
    rw [hi]
    decide
  have hcancel : Run.step (newClient dotted [] [] []) s .cancel = some {s with canceled := true} := by
    simp only [Run.step,hp]
  have hstop : Run.step (newClient dotted [] [] []) {s with canceled := true} .stop =
      some (({s with canceled := true} : Run).report noAddress Config.empty .stopped) := by
    simp only [Run.step,hp,if_true,Run.cleanup,if_neg hold]
  have hend : run (Run.step (newClient dotted [] [] [])) s [.cancel,.stop,.reported] =
      some ((({s with canceled := true} : Run).report noAddress Config.empty .stopped).resume .stopped) := by
    rw [run,hcancel,Option.bind_some,run,hstop]
    rfl
  have hrun := run_trans hr hend
  exact ⟨_,_,hrun,rfl,List.append_ne_nil_of_right_ne_nil _ (by simp),((reports_fit rfl hrun).2.2 rfl).1⟩

section Calls

/-- A step of the client that is not the return from a call: it calls back, and the call is
recorded, or it stays on its side of the callback. -/
inductive Calls (s t : Run) : Prop
  | none (hr : t.reports = s.reports) (hp : ∀ k, t.pc = .reporting k ↔ s.pc = .reporting k)
  | call {call k} (hr : t.reports = s.reports ++ [call]) (hs : ∀ k, s.pc ≠ .reporting k) (hp : t.pc = .reporting k)

variable {u : Run}

lemma calls_away (hs : ∀ k, s.pc ≠ .reporting k) (ht : ∀ k, t.pc ≠ .reporting k) (hr : t.reports = s.reports) :
    Calls s t :=
  .none hr fun k => ⟨fun h => absurd h (ht k),fun h => absurd h (hs k)⟩

lemma calls_cleanup (hs : ∀ k, s.pc ≠ .reporting k) (hr : u.reports = s.reports) (k : After) :
    Calls s (u.cleanup k) := by
  unfold cleanup
  split
  · refine calls_away hs ?_ ?_ <;> cases k <;> first | exact hr | rintro _ ⟨⟩
  · exact .call (congrArg (· ++ _) hr) hs rfl

lemma calls_transition (hs : ∀ k, s.pc ≠ .reporting k) (hr : u.reports = s.reports) (next : ClientState) :
    Calls s (u.transition next) := by
  unfold transition
  split
  · exact calls_cleanup hs hr _
  · exact calls_away hs (by rintro _ ⟨⟩) hr

lemma step_calls {e : Event} (he : e ≠ .reported) (ht : step c s e = some t) : Calls s t := by
  cases step_inv ht with
  | attempt hp => exact calls_away (by simp [hp]) (by simp) rfl
  | unexpected hp => exact calls_away (by simp [hp]) (by simp) rfl
  | exchange hp => exact calls_away (by simp [hp]) (by simp) rfl
  | acquired hp => exact .call rfl (by simp [hp]) rfl
  | failed hp =>
    unfold failed
    dsimp only
    split
    · refine calls_cleanup ?_ ?_ _ <;> simp [hp]
    · exact calls_away (by simp [hp]) (by simp) rfl
  | crashed hp => exact calls_away (by simp [hp]) (by simp) rfl
  | reported => exact absurd rfl he
  | invalid hp => exact calls_away (by simp [hp]) (by simp) rfl
  | decide hp =>
    unfold decided
    dsimp only
    split
    · split
      · refine calls_cleanup ?_ ?_ _ <;> simp [hp]
      · refine calls_transition ?_ ?_ _ <;> simp [hp]
    · exact calls_away (by simp [hp]) (by simp) rfl
  | fire hp => refine calls_transition ?_ ?_ _ <;> simp [hp]
  | stop hp => refine calls_cleanup ?_ ?_ _ <;> simp [hp]
  | cancel => exact .none rfl fun _ => Iff.rfl

lemma reported_inv (ht : step c s .reported = some t) : t.reports = s.reports := by
  cases step_inv ht with
  | @reported k hp => cases k <;> rfl

/-- The address that was reported last depends on the reports alone. -/
lemma AddrInv.current_eq (h : AddrInv s) (h' : AddrInv t) (hr : t.reports = s.reports) : t.current = s.current := by
  rw [← h'.current,hr,h.current]

lemma current_of_away (h : ∀ k, s.pc ≠ .reporting k) : s.current = s.info.oldAddr := by
  unfold current
  split
  · rename_i k hp
    exact absurd hp (h k)
  · rfl

lemma step_returned {e : Event} (hp : s.pc = .returned) (ht : step c s e = some t) : t.pc = .returned := by
  cases step_inv ht with
  | cancel => exact hp
  | attempt hp' | unexpected hp' | exchange hp' | acquired hp' | failed hp' | crashed hp' | reported hp'
  | invalid hp'
  | decide hp' | fire hp' | stop hp' =>
    rw [hp] at hp'
    cases hp'

@[simp] lemma resume_canceled (k : After) : (s.resume k).canceled = s.canceled := by
  cases k <;> rfl

@[simp] lemma cleanup_canceled (k : After) : (s.cleanup k).canceled = s.canceled := by
  unfold cleanup
  split
  · exact resume_canceled k
  · rfl

@[simp] lemma transition_canceled (next : ClientState) : (s.transition next).canceled = s.canceled := by
  unfold transition
  split
  · exact cleanup_canceled _
  · rfl

/-- The context does not come back. -/
lemma step_canceled {e : Event} (hc : s.canceled = true) (ht : step c s e = some t) : t.canceled = true := by
  cases step_inv ht with
  | attempt | unexpected | exchange | acquired | crashed | invalid => exact hc
  | failed => simp [failed,hc]
  | decide =>
    unfold decided
    dsimp only
    split
    · simpa using hc
    · exact hc
  | reported | fire | stop => simpa using hc
  | cancel => rfl

end Calls

end Run

end ArmoredWitness.Dhcp
