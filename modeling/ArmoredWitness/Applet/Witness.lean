import ArmoredWitness.Applet.Service

/-! What holds of the witness and of the function around it in every order of the steps of
the client, the callback and the goroutines: there is one of them at a time, it has the
leased address and the right time, and it stops soon after it is told to. -/
namespace ArmoredWitness.Applet.Service
open Lib Lib.Transition Net Dhcp

variable {c : Client} {server : Bool} {s t : Service} {i : ℕ} {l : Child}

lemma step_fReturns (hc : s.dhcp.crashed = false) {b : Bool} (hg : s.dhcp.net.goroutines[i]? = some ⟨b,.running⟩)
    (canceled : Bool) : RunDHCP.step c s.dhcp (.fReturns i canceled) = some {s.dhcp with
      net := {s.dhcp.net with
        goroutines := s.dhcp.net.goroutines.set i ⟨b,if canceled then .exiting else .running⟩}} := by
  have hp : s.dhcp.net.pc ≠ .panicked := by
    intro hp
    simp [RunDHCP.crashed,hp] at hc
  simp [RunDHCP.step,hc,Net.step,hp,Net.fReturns,hg]

section Sample

lemma step_dhcp (server : Bool) {e : RunDHCP.Event} {d : RunDHCP} (he : ∀ i b, e ≠ .fReturns i b)
    (hd : RunDHCP.step c s.dhcp e = some d) : ∃ n, step c server s (.dhcp e) =
      some ⟨d,s.nicAfter e,s.children ++ List.replicate n Child.start⟩ := by
  refine ⟨d.net.goroutines.length-s.children.length,?_⟩
  cases e with
  | fReturns i b => exact absurd rfl (he i b)
  | client | callback | signals | finish => simp only [step,hd,Option.map_some]

/-- A run of `runDHCP` in which f does not return. -/
lemma run_dhcp (server : Bool) {es : List RunDHCP.Event} {d : RunDHCP} (hes : ∀ e ∈ es, ∀ i b, e ≠ .fReturns i b)
    (hr : run (RunDHCP.step c) s.dhcp es = some d) :
    ∃ nic n, run (step c server) s (es.map .dhcp) = some ⟨d,nic,s.children ++ List.replicate n Child.start⟩ := by
  induction es generalizing s with
  | nil =>
    cases hr
    exact ⟨s.nic,0,by rw [List.replicate_zero,List.append_nil]; rfl⟩
  | cons e es ih =>
    obtain ⟨u,hu,hrest⟩ := Option.bind_eq_some_iff.mp hr
    rw [List.forall_mem_cons] at hes
    obtain ⟨n,hn⟩ := step_dhcp server hes.1 hu
    obtain ⟨nic,m,hm⟩ := ih (s := ⟨u,s.nicAfter e,s.children ++ List.replicate n Child.start⟩) hes.2 hrest
    refine ⟨nic,n+m,?_⟩
    rw [List.map_cons,run,hn,Option.bind_some,hm,List.append_assoc,List.replicate_append_replicate]

lemma step_child {e : Child.Event} {l' : Child} (hc : s.dhcp.crashed = false) (he : e ≠ .again)
    (hl : s.children[i]? = some l) (hs : Child.step server (s.done i) s.nic l e = some l') :
    step c server s (.child i e) = some {s with children := s.children.set i l'} := by
  simp only [step,hc,hl,hs]
  cases e with
  | again => exact absurd rfl he
  | call | ntpFires | ntpStops | ntpAnswers | recvTime | recvDone | wake | admin | http | witness => rfl

/-- A run of one child in its loop. -/
lemma run_child {es : List Child.Event} {l' : Child} (hc : s.dhcp.crashed = false) (hl : s.children[i]? = some l)
    (hes : ∀ e ∈ es, e ≠ .again) (hr : run (Child.step server (s.done i) s.nic) l es = some l') :
    run (step c server) s (es.map (.child i)) = some {s with children := s.children.set i l'} := by
  induction es generalizing s l with
  | nil =>
    cases hr
    obtain ⟨hlt,rfl⟩ := List.getElem?_eq_some_iff.mp hl
    rw [List.set_getElem_self]
    rfl
  | cons e es ih =>
    obtain ⟨k,hk,hrest⟩ := Option.bind_eq_some_iff.mp hr
    rw [List.forall_mem_cons] at hes
    have hlt := (List.getElem?_eq_some_iff.mp hl).1
    rw [List.map_cons,run,step_child hc hes.1 hl hk,Option.bind_some,
      ih (s := {s with children := s.children.set i k}) hc (List.getElem?_set_self hlt) hes.2 hrest,List.set_set]

/-- A call of f in which the witness is started. -/
def serving : List Child.Event :=
  [.call year2024,.ntpFires 0,.ntpAnswers 0 (some year2024),.recvTime,.admin true,.http true]

def servingChild : Child :=
  ⟨.serving ⟨leaseA,year2024,some 0⟩,[⟨.waiting,3600,false,true⟩],1,1,1,some year2024⟩

lemma run_serving : ∃ s, run (step (newClient dotted [] [] []) true) (start [])
      (RunDHCP.leased.map .dhcp ++ serving.map (.child 0)) = some s ∧
    s.children = [servingChild] ∧ s.nic = some leaseA ∧ s.dhcp.net = RunDHCP.leasedNet ∧
    s.dhcp.client.pc = .waiting .renewing ∧
    s.dhcp.client.canceled = false ∧
    run (RunDHCP.step (newClient dotted [] [] [])) (RunDHCP.start []) RunDHCP.leased =
      some s.dhcp := by
  obtain ⟨d,hr,hp,-,hn,hcan⟩ := RunDHCP.run_leased []
  obtain ⟨nic,n,hlease⟩ := run_dhcp (s := start []) true (by
    simp [RunDHCP.leased,Run.grantEvents,Run.exchanged,Exchange.heard,Exchange.lost]) hr
  have h := fit_run hlease
  have hlen := h.length
  have hnic := h.nic
  simp only [hn,start,List.nil_append,List.length_replicate] at hlen hnic
  obtain rfl : n = 1 := hlen
  obtain rfl : nic = some leaseA := hnic
  have hc : d.crashed = false := by simp [RunDHCP.crashed,hn,hp,RunDHCP.leasedNet]
  have hserve : run (step (newClient dotted [] [] []) true) ⟨d,some leaseA,[Child.start]⟩ (serving.map (.child 0)) =
      some ⟨d,some leaseA,[servingChild]⟩ := run_child (l := Child.start) hc rfl (by decide) rfl
  exact ⟨_,run_trans hlease hserve,rfl,rfl,hn,hp,hcan,hr⟩

/-- The check of the loop. -/
lemma step_again {k : Child} {b : Bool} (hc : s.dhcp.crashed = false) (hl : s.children[i]? = some l)
    (hg : s.dhcp.net.goroutines[i]? = some ⟨b,.running⟩)
    (hs : Child.step server (s.done i) s.nic l .again = some k) :
    step c server s (.child i .again) = some {s with
      dhcp := {s.dhcp with
        net := {s.dhcp.net with
          goroutines := s.dhcp.net.goroutines.set i ⟨b,if k.pc = .ended then .exiting else .running⟩}}
      children := s.children.set i k} := by
  simp [step,hc,hl,hs,step_fReturns hc hg]

/-- The witness fails, and f is called again. -/
def failing : List Event := [.child 0 (.witness true),.child 0 .again,.child 0 (.call year2024)]

def failingChild : Child :=
  ⟨.waiting ⟨leaseA,year2024,some 1⟩,[⟨.waiting,3600,false,true⟩,Ntp.start],1,2,1,some year2024⟩

lemma run_failing {b : Bool} (hc : s.dhcp.crashed = false) (hk : s.children = [servingChild])
    (hn : s.nic = some leaseA) (hg : s.dhcp.net.goroutines = [⟨b,.running⟩]) :
    run (step c true) s failing = some {s with children := [failingChild]} := by
  obtain ⟨⟨client,⟨addr,pc,cancelChild,fDone,gs,added⟩,settings⟩,nic,kids⟩ := s
  cases hk
  cases hn
  cases hg
  let d : RunDHCP := ⟨client,⟨addr,pc,cancelChild,fDone,[⟨b,.running⟩],added⟩,settings⟩
  let l : Child := {servingChild with pc := .returning (some .omniwitness)}
  let l' : Child := {servingChild with pc := .calling}
  have hfails : step c true ⟨d,some leaseA,[servingChild]⟩ (.child 0 (.witness true)) = some ⟨d,some leaseA,[l]⟩ :=
    step_child hc (by simp) rfl rfl
  have hagain : step c true ⟨d,some leaseA,[l]⟩ (.child 0 .again) = some ⟨d,some leaseA,[l']⟩ :=
    step_again (l := l) (k := l') hc rfl rfl rfl
  have hcall : step c true ⟨d,some leaseA,[l']⟩ (.child 0 (.call year2024)) = some ⟨d,some leaseA,[failingChild]⟩ :=
    step_child (l := l') hc (by simp) rfl rfl
  rw [failing,run,hfails,Option.bind_some,run,hagain,Option.bind_some,run,hcall]
  rfl

/-- The client is cancelled while the witness runs, and the callback waits for f. -/
lemma run_stopping : ∃ s, run (step (newClient dotted [] [] []) true) (start [])
      (RunDHCP.leased.map .dhcp ++ serving.map (.child 0) ++ RunDHCP.stopping.map .dhcp) = some s ∧
    s.children[0]? = some servingChild ∧ s.dhcp.net = RunDHCP.stoppingNet ∧ s.dhcp.crashed = false := by
  obtain ⟨s,hr,hk,-,-,-,-,hlease⟩ := run_serving
  obtain ⟨d,hd,hp,hn⟩ := RunDHCP.run_stopping []
  rw [run_append,hlease,Option.bind_some] at hd
  obtain ⟨nic,n,hrun⟩ := run_dhcp (s := s) true (by simp [RunDHCP.stopping]) hd
  refine ⟨_,run_trans hr hrun,?_,hn,?_⟩
  · rw [hk]
    rfl
  · simp [RunDHCP.crashed,hn,hp,RunDHCP.stoppingNet]

end Sample

/-- Only one f is in its loop at a time. -/
lemma Fit.only (h : Fit server s) {j : ℕ} {k : Child} (hl : s.children[i]? = some l) (hp : l.pc ≠ .ended)
    (hk : s.children[j]? = some k) (hq : k.pc ≠ .ended) : j = i := by
  obtain ⟨g,hg,-,ha,-⟩ := h.running hl hp
  obtain ⟨g',hg',-,ha',-⟩ := h.running hk hq
  exact h.joint.net.alive_unique hg' ha' hg ha

/-- At most one witness runs, whatever the client, the callback and the goroutines do. It runs
after the NTP goroutine of its own call has set the clock, in a call that did not begin
before 2024, and never without an NTP server; and it has the address that the stack has,
which is the one the client has leased. -/
theorem one_witness {resolvers : List String} {es : List Event} {call : Call}
    (hr : run (step c server) (start resolvers) es = some s) (hl : s.children[i]? = some l)
    (hp : l.pc = .serving call) :
    (∀ j k, s.children[j]? = some k → k.pc ≠ .ended → j = i) ∧
    (server = true ∧ call.coldStart = false ∧ l.clock ≠ none ∧
      ∃ g, call.ntp = some (l.ntps.length-1) ∧ l.ntps.getLast? = some g ∧ g.closed = true) ∧
    s.nic = some call.addr ∧ call.addr.unspecified = false ∧
    (s.dhcp.client.pc.steady = true →
      s.dhcp.client.info.state ≠ .initSelecting ∧ s.dhcp.client.info.addr = call.addr) := by
  have h := fit_run hr
  have hcall : l.pc.call? = some call := by rw [hp]; rfl
  have hloop : l.pc ≠ .ended := by rw [hp]; rintro ⟨⟩
  have hsync := h.synced l (List.mem_of_getElem? hl)
  obtain ⟨hcold,hsig⟩ := hsync.warm call hcall (by rw [hp]; rfl)
  have hnic := (h.attached i l hl).addr call hcall
  obtain ⟨-,-,-,-,hpos,haddr⟩ := h.running hl hloop
  have heq : call.addr = s.dhcp.net.addr := Option.some_inj.mp (hnic.symm.trans haddr)
  have hadd := (h.joint.net.running hpos).2.2
  refine ⟨fun j k hk hq => h.only hl hloop hk hq,?_,hnic,?_,?_⟩
  · unfold Child.signalled at hsig
    cases hn : call.ntp with
    | none => simp [hn] at hsig
    | some k =>
      obtain ⟨hserver,hlast⟩ := hsync.own call hcall k hn
      obtain ⟨g,hg⟩ : ∃ g, l.ntps[k]? = some g := ⟨_,List.getElem?_eq_getElem (by omega)⟩
      simp only [hn,hg,Option.map_some,Option.getD_some] at hsig
      obtain rfl : k = l.ntps.length-1 := by omega
      refine ⟨hserver,hcold,hsync.clock ⟨g,List.mem_of_getElem? hg,hsig⟩,g,rfl,?_,hsig⟩
      rw [List.getLast?_eq_getElem?]
      exact hg
  · rw [heq]
    exact h.joint.net.specified hadd
  · intro hsteady
    obtain ⟨hstate,hlease⟩ := h.joint.leased hpos hsteady
    exact ⟨hstate,by rw [heq,hlease]⟩

theorem one_witness_serving : ∃ s, run (step (newClient dotted [] [] []) true) (start [])
      (RunDHCP.leased.map .dhcp ++ serving.map (.child 0)) = some s ∧ s.children = [servingChild] ∧
    servingChild.pc = .serving ⟨leaseA,year2024,some 0⟩ ∧ s.nic = some leaseA ∧
    s.dhcp.client.info.addr = leaseA := by
  obtain ⟨s,hr,hk,-,-,hp,-⟩ := run_serving
  have h := one_witness (i := 0) (l := servingChild) hr (by rw [hk]; rfl) rfl
  exact ⟨s,hr,hk,rfl,h.2.2.1,(h.2.2.2.2 (by rw [hp]; rfl)).2⟩

/-- f always finds an address, and its loop ends only when its context is done. -/
theorem ends_with_context {resolvers : List String} {es : List Event}
    (hr : run (step c server) (start resolvers) es = some s) (hl : s.children[i]? = some l) :
    l.pc ≠ .returning (some .noNetwork) ∧
      (l.pc = .returning (some .canceled) ∨ l.pc = .ended → s.done i = true) := by
  have h := (fit_run hr).attached i l hl
  exact ⟨h.connected,h.canceled⟩

theorem ends_with_context_stopping : ∃ es s l, run (step (newClient dotted [] [] []) true) (start []) es = some s ∧
    s.children[0]? = some l ∧ l.pc = .returning (some .canceled) ∧ s.done 0 = true := by
  obtain ⟨s,hr,hl,hn,hc⟩ := run_stopping
  have hdone : s.done 0 = true := by simp [done,hn,RunDHCP.stoppingNet]
  have hs : Child.step true (s.done 0) s.nic servingChild (.witness false) =
      some {servingChild with pc := .returning (some .canceled)} := by
    rw [hdone]
    rfl
  have hlast : run (step (newClient dotted [] [] []) true) s [.child 0 (.witness false)] =
      some {s with children := s.children.set 0 {servingChild with pc := .returning (some .canceled)}} := by
    rw [run,step_child hc (by simp) hl hs]
    rfl
  have hrun := run_trans hr hlast
  have hl' := List.getElem?_set_self (a := ({servingChild with pc := .returning (some .canceled)} : Child))
    (List.getElem?_eq_some_iff.mp hl).1
  exact ⟨_,_,_,hrun,hl',rfl,(ends_with_context hrun hl').2 (.inl rfl)⟩

/-- What f leaves behind: each call that finds an address has started an NTP goroutine, and
until the context is done all of them are there, next to an update checker for each call
that got the time. -/
theorem calls_leave_goroutines {resolvers : List String} {es : List Event}
    (hr : run (step c server) (start resolvers) es = some s) (hl : s.children[i]? = some l)
    (hd : s.done i = false) :
    l.ntps.countP (fun g => g.stage ≠ .ended) = (if server then l.calls else 0) ∧
      l.started ≤ l.checkers ∧ l.checkers ≤ l.calls := by
  have h := fit_run hr
  have hsync := h.synced l (List.mem_of_getElem? hl)
  have hat := h.attached i l hl
  refine ⟨?_,(Nat.le_add_right _ _).trans hsync.started,(Nat.le_add_right _ _).trans hsync.checkers⟩
  rw [← hsync.length,List.countP_eq_length]
  intro g hg
  simp only [decide_eq_true_eq]
  intro hend
  rw [hat.ntps g hg hend] at hd
  cases hd

theorem calls_leave_goroutines_failing : ∃ s l, run (step (newClient dotted [] [] []) true) (start [])
      (RunDHCP.leased.map .dhcp ++ serving.map (.child 0) ++ failing) = some s ∧ s.children = [l] ∧
    l.calls = 2 ∧ l.ntps.countP (fun g => g.stage ≠ .ended) = 2 := by
  obtain ⟨s,hr,hk,hn,hnet,hp,hcan,-⟩ := run_serving
  have hc : s.dhcp.crashed = false := by simp [RunDHCP.crashed,hnet,hp,RunDHCP.leasedNet]
  have hrun := run_trans hr (run_failing hc hk hn (b := false) (by rw [hnet]; rfl))
  have h := calls_leave_goroutines (i := 0) hrun rfl (by simp [done,hcan,hnet,RunDHCP.leasedNet])
  exact ⟨_,_,hrun,rfl,rfl,h.1⟩

/-- The steps that a goroutine takes in its loop. -/
def Event.own (i : ℕ) : Event → Bool
  | .child j e => j = i && e.own
  | .dhcp _ => false

lemma done_step {e : Event} (h : Fit server s) (hl : s.children[i]? = some l) (hd : s.done i = true)
    (ht : step c server s e = some t) : t.done i = true := by
  obtain ⟨g,hg⟩ := h.goroutine hl
  cases step_inv ht with
  | dhcp he hr =>
    simp only [done,hg,Option.map_some,Option.getD_some,Bool.or_eq_true] at hd ⊢
    refine hd.imp (done_client hr) fun hcan => ?_
    rcases net_moves hr he with ⟨hnet,-⟩ | ⟨e',he',hn,-⟩
    · rw [hnet,hg]
      exact hcan
    · obtain ⟨g',hg',-,hmono⟩ := goroutine_step he' hn hg
      rw [hg']
      exact hmono hcan
  | child => exact hd
  | @again j _ _ d _ _ hr =>
    cases (RunDHCP.step_inv hr).2 with
    | fReturns hn =>
      cases Net.step_inv hn with
      | fReturns hj =>
        simp only [done] at hd ⊢
        by_cases hne : j = i
        · subst hne
          rw [List.getElem?_set_self (List.getElem?_eq_some_iff.mp hj).1]
          rw [hj] at hd
          exact hd
        · rw [List.getElem?_set_ne hne]
          exact hd

/-- A child through one step of the whole. -/
lemma follow (h : Fit server s) {e : Event} (he : e ≠ .child i .recvTime) (hl : s.children[i]? = some l)
    (ht : step c server s e = some t) : ∃ k, t.children[i]? = some k ∧ k.rank+(e.own i).toNat ≤ l.rank := by
  have hlt := (List.getElem?_eq_some_iff.mp hl).1
  have hmove : ∀ (j : ℕ) (e : Child.Event) (k k' : Child), Event.child j e ≠ .child i .recvTime →
      s.children[j]? = some k → Child.step server (s.done j) s.nic k e = some k' →
      ∃ m, (s.children.set j k')[i]? = some m ∧ m.rank+((Event.child j e).own i).toNat ≤ l.rank := by
    intro j e k k' he hk hs
    by_cases hne : j = i
    · subst hne
      rw [hl] at hk
      cases hk
      refine ⟨k',List.getElem?_set_self hlt,?_⟩
      have hrank := Child.rank_step (e := e) ?_ (by rintro rfl; exact he rfl) hs
      · simpa [Event.own] using hrank
      · intro hp
        obtain ⟨-,-,-,-,-,hnic⟩ := h.running hl hp
        rw [hnic]
        rintro ⟨⟩
    · refine ⟨l,by rw [List.getElem?_set_ne hne]; exact hl,?_⟩
      simp [Event.own,hne]
  cases step_inv ht with
  | dhcp => exact ⟨l,by rw [List.getElem?_append_left hlt]; exact hl,le_rfl⟩
  | @child j e k k' _ _ hk hs => exact hmove j e k k' he hk hs
  | @again j k k' d hk hs => exact hmove j .again k k' he hk hs

lemma run_follow (h : Fit server s) {es : List Event} (hes : .child i .recvTime ∉ es) (hl : s.children[i]? = some l)
    (hr : run (step c server) s es = some t) :
    ∃ k, t.children[i]? = some k ∧ k.rank+es.countP (Event.own i) ≤ l.rank ∧
    (s.done i = true → t.done i = true) := by
  induction es generalizing s l with
  | nil =>
    cases hr
    exact ⟨l,hl,le_rfl,id⟩
  | cons e es ih =>
    obtain ⟨u,hu,hrest⟩ := Option.bind_eq_some_iff.mp hr
    rw [List.mem_cons,not_or] at hes
    obtain ⟨k,hk,hle⟩ := follow h (Ne.symm hes.1) hl hu
    obtain ⟨k',hk',hle',hdone⟩ := ih (h.step hu) hes.2 hk hrest
    refine ⟨k',hk',?_,fun hd => hdone (done_step h hl hd hu)⟩
    rw [List.countP_cons]
    cases hown : e.own i <;> simp [hown] at hle ⊢ <;> omega

/-- In its loop, once the context is done, the child has a step to take. -/
lemma Fit.enabled (h : Fit server s) (hc : s.dhcp.crashed = false) (hl : s.children[i]? = some l)
    (hp : l.pc ≠ .ended)
    (hd : s.done i = true) : ∃ e, e.own = true ∧ e ≠ .recvTime ∧
    (Service.step c server s (.child i e)).isSome = true := by
  obtain ⟨e,hown,he,hsome⟩ := Child.own_enabled server s.nic hp
  obtain ⟨l',hl'⟩ := Option.isSome_iff_exists.mp hsome
  refine ⟨e,hown,he,?_⟩
  have hstep : Child.step server (s.done i) s.nic l e = some l' := by rw [hd,hl']
  simp only [Service.step,hc,hl,hstep]
  cases e with
  | again =>
    obtain ⟨⟨b,stage⟩,hg,hs,-⟩ := h.running hl hp
    cases hs
    simp [step_fReturns hc hg]
  | call | ntpFires | ntpStops | ntpAnswers | recvTime | recvDone | wake | admin | http | witness => rfl

/-- Once the context of an f is done, and in any case while the callback waits for it, f takes
at most seven more steps, whatever the witness and the listeners answer, unless its select
takes the channel of `runNTP`; and until its loop has ended there is a step it can take. -/
theorem stops_after_cancel {resolvers : List String} {es es' : List Event}
    (hr : run (step c server) (start resolvers) es = some s) (hl : s.children[i]? = some l)
    (hd : s.done i = true ∨ ∃ new, s.dhcp.net.pc = .waiting new)
    (hes : .child i .recvTime ∉ es') (hr' : run (step c server) s es' = some t) :
    es'.countP (Event.own i) ≤ 7 ∧
      ∃ k, t.children[i]? = some k ∧ (k.pc = .ended ∨ t.dhcp.crashed = true ∨
        ∃ e, e.own = true ∧ e ≠ .recvTime ∧ (step c server t (.child i e)).isSome = true) := by
  have h := fit_run hr
  obtain ⟨k,hk,hle,hdone⟩ := run_follow h hes hl hr'
  refine ⟨(Nat.le_add_left _ _).trans (hle.trans l.rank_le),k,hk,?_⟩
  by_cases hend : l.pc = .ended
  · left
    rw [← Child.rank_eq_zero_iff] at hend ⊢
    omega
  · have hs : s.done i = true := by
      rcases hd with hd | ⟨new,hw⟩
      · exact hd
      · obtain ⟨g,hg,-,ha,-⟩ := h.running hl hend
        simp [done,hg,h.owner.told new hw i g hg ha]
    by_cases hke : k.pc = .ended
    · exact .inl hke
    · cases hc : t.dhcp.crashed with
      | true => exact .inr (.inl rfl)
      | false =>
        have ht : Fit server t := run_invariant (fun _ _ _ h ht => h.step ht) h hr'
        exact .inr (.inr (ht.enabled hc hk hke (hdone hs)))

theorem stops_after_cancel_stopping : ∃ es s t k,
    run (step (newClient dotted [] [] []) true) (start []) es = some s ∧
    s.dhcp.net.pc = .waiting noAddress ∧
    step (newClient dotted [] [] []) true s (.child 0 (.witness true)) = some t ∧
    t.children[0]? = some k ∧ (k.pc = .ended ∨ t.dhcp.crashed = true ∨
      ∃ e, e.own = true ∧ e ≠ .recvTime ∧ (step (newClient dotted [] [] []) true t (.child 0 e)).isSome = true) := by
  obtain ⟨s,hr,hl,hn,hc⟩ := run_stopping
  have hwait : s.dhcp.net.pc = .waiting noAddress := by rw [hn]; rfl
  have hs : step (newClient dotted [] [] []) true s (.child 0 (.witness true)) =
      some {s with children := s.children.set 0 {servingChild with pc := .returning (some .omniwitness)}} :=
    step_child hc (by simp) hl rfl
  have hlast : run (step (newClient dotted [] [] []) true) s [.child 0 (.witness true)] =
      some {s with children := s.children.set 0 {servingChild with pc := .returning (some .omniwitness)}} := by
    rw [run,hs]
    rfl
  obtain ⟨k,hk,hnext⟩ := (stops_after_cancel hr hl (.inr ⟨_,hwait⟩) (by simp) hlast).2
  exact ⟨_,s,_,k,hr,hwait,hs,hk,hnext⟩

end ArmoredWitness.Applet.Service
