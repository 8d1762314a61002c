import ArmoredWitness.Net.RunDHCP

/-! f runs in a goroutine of its own, next to the client and the callback. In every order of
their steps it has a lease while it runs, it is stopped before another one is started, and
nothing is left of it when `runDHCP` returns. -/
namespace ArmoredWitness.Net.RunDHCP
open Lib Lib.Transition Dhcp

variable {c : Client} {T : Tcpip} {s t : RunDHCP}

/-- What the server sent is in use for an address. -/
def Applied (T : Tcpip) (s : RunDHCP) (addr : AddressWithPrefix) : Prop :=
  ∃ call, s.client.reports.getLast? = some call ∧ call.new = addr ∧
    s.settings.routes = ⟨T.subnet addr,[]⟩::call.cfg.router.map (fun gw => ⟨ipv4EmptySubnet,gw⟩) ∧
    (call.cfg.dns ≠ [] → s.settings.resolvers = call.cfg.dns.map (resolver T))

lemma Applied.congr {addr : AddressWithPrefix} (h : Applied T s addr) (hr : t.client.reports = s.client.reports)
    (hs : t.settings = s.settings) : Applied T t addr := by
  unfold Applied
  rw [hr,hs]
  exact h

lemma applied_configure {old new : AddressWithPrefix} {cfg : Config}
    (hlast : t.client.reports.getLast? = some ⟨old,new,cfg⟩) (settings : Settings)
    (hs : t.settings = configureNetFromDHCP T new cfg settings) : Applied T t new := by
  refine ⟨⟨old,new,cfg⟩,hlast,rfl,by rw [hs]; rfl,?_⟩
  intro hdns
  rw [hs]
  exact if_pos (List.length_pos_iff.mpr hdns)

/-- They are when f is started, and whenever it runs between two calls. -/
structure Configured (T : Tcpip) (s : RunDHCP) : Prop where
  starting : ∀ new, s.net.pc = .starting new → Applied T s new
  running : s.net.pc = .idle → s.net.added = true → Applied T s s.net.addr

lemma Configured.aside (h : Configured T s) (hp : t.net.pc = s.net.pc) (ha : t.net.addr = s.net.addr)
    (hadd : t.net.added = s.net.added) (hr : t.client.reports = s.client.reports) (hs : t.settings = s.settings) :
    Configured T t where
  starting new hpc := (h.starting new (hp ▸ hpc)).congr hr hs
  running hpc hadd' := by
    rw [ha]
    exact (h.running (hp ▸ hpc) (hadd ▸ hadd')).congr hr hs

/-- In a call there is nothing to show until f is started. -/
lemma configured_of (hs : ∀ new, t.net.pc ≠ .starting new) (hi : t.net.pc = .idle → t.net.added = false) :
    Configured T t where
  starting new hp := absurd hp (hs new)
  running hp hadd := by
    rw [hi hp] at hadd
    cases hadd

lemma Configured.callback (h : Configured T s) (hj : Joint s) {ok : Bool} {n : State}
    (ht : Net.step s.net (.callback ok) = some n) :
    Configured T {s with net := n, settings := s.configured T ok} := by
  cases Net.step_inv ht with
  | callback hacq =>
    cases hacq with
    | @renew new _ hpc hnew =>
      refine ⟨(by rintro _ ⟨⟩),fun _ _ => ?_⟩
      obtain ⟨-,cfg,hlast⟩ := hj.call new (by rw [hpc]; rfl)
      change Applied T _ s.net.addr
      rw [hnew]
      refine applied_configure hlast s.settings ?_
      simp only [configured,hpc,hlast,if_pos hnew]
    | first | nil | cancel | token | closed | remove | add =>
      exact configured_of (by rintro _ ⟨⟩) (by rintro ⟨⟩)
    | none | refused => exact configured_of (by rintro _ ⟨⟩) (fun _ => rfl)
    | @added new hpc =>
      refine ⟨?_,(by rintro ⟨⟩)⟩
      rintro new' ⟨⟩
      obtain ⟨-,cfg,hlast⟩ := hj.call new (by rw [hpc]; rfl)
      refine applied_configure hlast s.settings ?_
      simp only [configured,hpc,hlast,if_true]
    | @start new _ hpc =>
      refine ⟨(by rintro _ ⟨⟩),fun _ _ => ?_⟩
      refine (h.starting new hpc).congr rfl ?_
      simp only [configured,hpc]

lemma Configured.step (h : Configured c.tcpip s) (hj : Joint s) {e : Event} (ht : step c s e = some t) :
    Configured c.tcpip t := by
  cases (step_inv ht).2 with
  | reported hn hr => exact h.aside rfl rfl rfl (Run.reported_inv hr) rfl
  | @client e r he hr hd =>
    cases Run.step_calls he hr with
    | none hrep => exact h.aside rfl rfl rfl hrep rfl
    | call hrep =>
      rw [hrep,List.drop_left] at hd
      cases hd
  | call he hr hd hn =>
    cases Net.step_inv hn with
    | report => exact configured_of (by rintro _ ⟨⟩) (by rintro ⟨⟩)
  | callback hn => exact h.callback hj hn
  | fReturns hn =>
    cases Net.step_inv hn with
    | fReturns => exact h.aside rfl rfl rfl rfl rfl
  | signals hn =>
    cases Net.step_inv hn with
    | signals => exact h.aside rfl rfl rfl rfl rfl
    | crash hg hsend => exact absurd hsend (hj.net.send_ne_panic hg rfl)
  | finish hp hn =>
    cases Net.step_inv hn with
    | finish => exact configured_of (by rintro _ ⟨⟩) (by rintro ⟨⟩)

lemma configured_run {resolvers : List String} {es : List Event} (hr : run (step c) (start resolvers) es = some s) :
    Configured c.tcpip s := by
  have h : Joint s ∧ Configured c.tcpip s := by
    refine run_invariant (I := fun s => Joint s ∧ Configured c.tcpip s)
      (fun _ _ _ h ht => ⟨h.1.step ht,h.2.step h.1 ht⟩) ?_ hr
    exact ⟨joint_start resolvers,configured_of (by rintro _ ⟨⟩) (fun _ => rfl)⟩
  exact h.2

/-- A goroutine is there because the stack accepted the address of the last call. -/
lemma Joint.running (h : Joint s) (hf : 0 < s.net.alive) (haway : ∀ k, s.client.pc ≠ .reporting k) :
    s.net.pc = .idle ∧ s.net.added = true := by
  have hout := h.net.outstanding
  unfold State.outstanding at hout
  have hidle : s.net.pc = .idle := by
    refine (h.free haway).resolve_right ?_
    intro hret
    rw [hret,if_pos (by rfl)] at hout
    omega
  refine ⟨hidle,?_⟩
  cases hadd : s.net.added with
  | true => rfl
  | false =>
    rw [hidle,hadd,if_neg (by decide)] at hout
    change _ = 0 at hout
    omega

/-- The address of that call is the one the client has leased. -/
lemma Joint.leased (h : Joint s) (hf : 0 < s.net.alive) (hp : s.client.pc.steady = true) :
    s.client.info.state ≠ .initSelecting ∧ s.net.addr = s.client.info.addr := by
  have haway : ∀ k, s.client.pc ≠ .reporting k := by
    intro k hk
    rw [hk] at hp
    cases hp
  obtain ⟨hidle,hadd⟩ := h.running hf haway
  have hcur := (h.current (.inl hidle)).trans (Run.current_of_away haway)
  have hne : s.client.info.oldAddr ≠ noAddress := by
    intro hno
    have hspec := h.net.specified hadd
    rw [hcur,hno] at hspec
    cases hspec
  obtain ⟨hstate,haddr⟩ := (h.client.settled hp).resolve_left hne
  exact ⟨hstate,hcur.trans haddr⟩

/-- While f runs and the client is not in the callback, the client has the lease on the
address that the stack was given, and the routes and the resolvers are those that the
server sent with it. -/
theorem f_has_lease {resolvers : List String} {es : List Event} (hr : run (step c) (start resolvers) es = some s)
    (hf : 0 < s.net.alive) (hp : s.client.pc.steady = true) :
    s.client.info.state ≠ .initSelecting ∧ s.net.addr = s.client.info.addr ∧
      s.client.info.addr.unspecified = false ∧ Applied c.tcpip s s.client.info.addr := by
  have hj := joint_run hr
  obtain ⟨hstate,haddr⟩ := hj.leased hf hp
  obtain ⟨hidle,hadd⟩ := hj.running hf (by rintro k hk; rw [hk] at hp; cases hp)
  have hspec := hj.net.specified hadd
  have happ := (configured_run hr).running hidle hadd
  rw [haddr] at hspec happ
  exact ⟨hstate,haddr,hspec,happ⟩

theorem f_has_lease_leased :
    ∃ s, run (step (newClient dotted [] [] [])) (start []) leased = some s ∧ s.net.alive = 1 ∧
      s.client.info.addr = leaseA ∧ Applied dotted s leaseA := by
  obtain ⟨s,hr,hp,hi,hn,-⟩ := run_leased []
  have halive : s.net.alive = 1 := by rw [hn]; rfl
  have h := f_has_lease hr (by rw [halive]; decide) (by rw [hp]; rfl)
  rw [hi] at h
  exact ⟨s,hr,halive,by rw [hi]; rfl,h.2.2.2⟩

/-- Where a call comes from: it stops an instance of f because there is an address, or it
starts one because there is none. -/
structure Stepwise (s : RunDHCP) : Prop where
  stopping : ∀ new, s.net.pc = .waiting new ∨ s.net.pc = .removing new →
    s.net.addr ≠ new ∧ s.net.addr.unspecified = false
  released : ∀ new, s.net.pc = .released new → s.net.addr.unspecified = true ∨ new = noAddress
  starting : ∀ new, s.net.pc = .adding new ∨ s.net.pc = .starting new → s.net.addr.unspecified = true

lemma Stepwise.aside (h : Stepwise s) (hp : t.net.pc = s.net.pc) (ha : t.net.addr = s.net.addr) : Stepwise t where
  stopping new hpc := by
    rw [ha]
    exact h.stopping new (hp ▸ hpc)
  released new hpc := by
    rw [ha]
    exact h.released new (hp ▸ hpc)
  starting new hpc := by
    rw [ha]
    exact h.starting new (hp ▸ hpc)

/-- The reports are gentle, so an address is only given up for none. -/
lemma Stepwise.gives_up (h : Stepwise s) (hj : Joint s) {new : AddressWithPrefix}
    (hp : s.net.pc = .waiting new ∨ s.net.pc = .removing new) : new = noAddress := by
  obtain ⟨hne,hspec⟩ := h.stopping new hp
  obtain ⟨-,cfg,hlast⟩ := hj.call new (by rcases hp with hp | hp <;> rw [hp] <;> rfl)
  rcases hj.client.gentle _ (List.mem_of_getLast? hlast) with hno | hsame | hnew
  · change s.net.addr = noAddress at hno
    rw [hno] at hspec
    cases hspec
  · exact absurd hsame.symm hne
  · exact hnew

lemma stepwise_of (h : ∀ new, t.net.pc ≠ .waiting new ∧ t.net.pc ≠ .removing new ∧ t.net.pc ≠ .released new ∧
    t.net.pc ≠ .adding new ∧ t.net.pc ≠ .starting new) : Stepwise t := by
  refine ⟨?_,fun new hp => absurd hp (h new).2.2.1,?_⟩
  · rintro new (hp | hp)
    · exact absurd hp (h new).1
    · exact absurd hp (h new).2.1
  · rintro new (hp | hp)
    · exact absurd hp (h new).2.2.2.1
    · exact absurd hp (h new).2.2.2.2

lemma Stepwise.callback (h : Stepwise s) (hj : Joint s) {ok : Bool} {n : State}
    (ht : Net.step s.net (.callback ok) = some n) : Stepwise {s with net := n, settings := s.configured T ok} := by
  cases Net.step_inv ht with
  | callback hacq =>
    cases hacq with
    | renew | nil | none | refused | start => exact stepwise_of (by simp)
    | @first new _ hpc hnew hun => exact ⟨by simp,fun _ _ => .inl hun,by simp⟩
    | @cancel new _ i hpc hnew hun => exact ⟨by simpa using ⟨hnew,hun⟩,by simp,by simp⟩
    | @token new _ b fDone hpc => exact ⟨by simpa using h.stopping new (.inl hpc),by simp,by simp⟩
    | @closed new _ hpc => exact ⟨by simpa using h.stopping new (.inl hpc),by simp,by simp⟩
    | @remove new _ hpc => exact ⟨by simp,by simpa using .inr (h.gives_up hj (.inr hpc)),by simp⟩
    | @add new _ hpc hun =>
      refine ⟨by simp,by simp,fun _ _ => (h.released new hpc).resolve_right ?_⟩
      rintro rfl
      cases hun
    | @added new hpc => exact ⟨by simp,by simp,fun _ _ => h.starting new (.inl hpc)⟩

lemma Stepwise.step (h : Stepwise s) (hj : Joint s) {e : Event} (ht : step c s e = some t) : Stepwise t := by
  cases (step_inv ht).2 with
  | reported => exact h.aside rfl rfl
  | client => exact h.aside rfl rfl
  | call he hr hd hn =>
    cases Net.step_inv hn with
    | report => exact stepwise_of (by simp)
  | callback hn => exact h.callback hj hn
  | fReturns hn =>
    cases Net.step_inv hn with
    | fReturns => exact h.aside rfl rfl
  | signals hn =>
    cases Net.step_inv hn with
    | signals => exact h.aside rfl rfl
    | crash hg hsend => exact absurd hsend (hj.net.send_ne_panic hg rfl)
  | finish hp hn =>
    cases Net.step_inv hn with
    | finish => exact stepwise_of (by simp)

/-- The callback never replaces an address by another in one call. A call that stops f is
told of no new address, and a call that starts f finds that there was none. -/
theorem no_direct_change {resolvers : List String} {es : List Event} {new : AddressWithPrefix}
    (hr : run (step c) (start resolvers) es = some s) :
    (s.net.pc = .waiting new ∨ s.net.pc = .removing new → new = noAddress) ∧
      (s.net.pc = .adding new ∨ s.net.pc = .starting new → s.net.addr.unspecified = true) := by
  have h : Joint s ∧ Stepwise s := by
    refine run_invariant (I := fun s => Joint s ∧ Stepwise s) (fun _ _ _ h ht => ⟨h.1.step ht,h.2.step h.1 ht⟩) ?_ hr
    exact ⟨joint_start resolvers,stepwise_of (by simp [start,Net.start])⟩
  exact ⟨h.2.gives_up h.1,h.2.starting new⟩

theorem no_direct_change_stopping :
    ∃ s, run (step (newClient dotted [] [] [])) (start []) (leased ++ stopping) = some s ∧
      s.net.pc = .waiting noAddress ∧ s.net.addr = leaseA ∧
      ∀ new, s.net.pc = .waiting new ∨ s.net.pc = .removing new → new = noAddress := by
  obtain ⟨s,hr,-,hn⟩ := run_stopping []
  exact ⟨s,hr,by rw [hn]; rfl,by rw [hn]; rfl,fun _ => (no_direct_change hr).1⟩

/-- When the client has returned no f is left that could signal, so `runDHCP` can close the
channel and return. -/
theorem runDHCP_returns {resolvers : List String} {es : List Event} (hr : run (step c) (start resolvers) es = some s)
    (hp : s.client.pc = .returned) :
    s.net.alive = 0 ∧ s.net.addr = noAddress ∧
      (s.net.pc = .returned ∨ ∃ t, step c s .finish = some t ∧ t.net.pc = .returned) := by
  have hj := joint_run hr
  have haway : ∀ k, s.client.pc ≠ .reporting k := by simp [hp]
  have hfree := hj.free haway
  have haddr : s.net.addr = noAddress := by
    rw [hj.current hfree,Run.current_of_away haway]
    exact (hj.client.returned hp).1
  have hun : s.net.addr.unspecified = true := by rw [haddr]; rfl
  refine ⟨?_,haddr,?_⟩
  · have hout := hj.net.outstanding
    rw [hj.net.added_of_unspecified hun] at hout
    unfold State.outstanding at hout
    simp only [Bool.toNat_false,ite_self] at hout
    omega
  · refine hfree.symm.imp_right fun hidle => ?_
    have hfinish : Net.step s.net .finish = some {s.net with pc := .returned, fDone := s.net.fDone.close} := by
      simp [Net.step,Net.finish,hidle,hun]
    refine ⟨{s with net := {s.net with pc := .returned, fDone := s.net.fDone.close}},?_,rfl⟩
    simp only [step,crashed,hidle,hp,hfinish]
    rfl

theorem runDHCP_returns_stopped :
    ∃ es s, run (step (newClient dotted [] [] [])) (start []) es = some s ∧ s.client.pc = .returned ∧
      s.net.goroutines = [⟨true,.ended⟩] ∧ s.net.alive = 0 ∧
      (s.net.pc = .returned ∨ ∃ t, step (newClient dotted [] [] []) s .finish = some t ∧ t.net.pc = .returned) := by
  obtain ⟨s,hr,hp,hg⟩ := run_stopped []
  have h := runDHCP_returns hr hp
  exact ⟨_,s,hr,hp,hg,h.1,h.2.2⟩

/-- The clock and the stack behave as the client expects, and the stack accepts every
address that it is given. -/
def Good (s : RunDHCP) : Event → Prop
  | .client e => Run.Punctual s.client e
  | .callback ok => ok = true
  | .fReturns _ _ | .signals _ | .finish => True

structure Sound (s : RunDHCP) : Prop where
  clock : Run.ClockInv s.client
  accepted : s.net.addr.unspecified = false → s.net.added = true
  running : s.net.pc ≠ .panicked

lemma Sound.callback (h : Sound s) (hj : Joint s) {n : State} (ht : Net.step s.net (.callback true) = some n)
    (settings : Settings) : Sound ⟨s.client,n,settings⟩ := by
  cases Net.step_inv ht with
  | callback hacq =>
    cases hacq with
    | renew | first | cancel | token | closed | remove | add | added =>
      exact ⟨h.clock,h.accepted,by simp⟩
    | nil hpc hnew hun hnil => exact absurd hnil (hj.net.cancels (h.accepted hun))
    | none hpc hun =>
      refine ⟨h.clock,fun hspec => ?_,by simp⟩
      rw [hun] at hspec
      cases hspec
    | start => exact ⟨h.clock,fun _ => rfl,by simp⟩

lemma Sound.step (hc : c.retransmission ≠ 0) (h : Sound s) (hj : Joint s) {e : Event} (hg : Good s e)
    (ht : step c s e = some t) : Sound t := by
  cases (step_inv ht).2 with
  | reported hn hr => exact ⟨h.clock.step (e := .reported) hc hj.client trivial hr,h.accepted,h.running⟩
  | client he hr hd => exact ⟨h.clock.step hc hj.client hg hr,h.accepted,h.running⟩
  | call he hr hd hn =>
    cases Net.step_inv hn with
    | report => exact ⟨h.clock.step hc hj.client hg hr,h.accepted,by simp⟩
  | callback hn =>
    cases hg
    exact h.callback hj hn _
  | fReturns hn =>
    cases Net.step_inv hn with
    | fReturns => exact ⟨h.clock,h.accepted,h.running⟩
  | signals hn =>
    cases Net.step_inv hn with
    | signals => exact ⟨h.clock,h.accepted,h.running⟩
    | crash hsg hsend => exact absurd hsend (hj.net.send_ne_panic hsg rfl)
  | finish hp hn =>
    cases Net.step_inv hn with
    | finish => exact ⟨h.clock,h.accepted,by simp⟩

/-- With a clock that does not go back, a timer that is not early, and a stack that does what
the client expects of it and accepts the addresses, nothing panics, and whenever the callback
waits for f there is an f that it waits for. -/
theorem runDHCP_safe (hc : c.retransmission ≠ 0) {resolvers : List String} {es : List Event}
    (hA : Along (step c) Good (start resolvers) es) (hr : run (step c) (start resolvers) es = some s) :
    s.crashed = false ∧ ∀ new, s.net.pc = .waiting new → s.net.outstanding = 1 := by
  have h : (Joint s ∧ Stepwise s) ∧ Sound s := by
    refine run_keeps (I := fun s => (Joint s ∧ Stepwise s) ∧ Sound s) ?_ ?_ hA hr
    · intro s e t hi hg ht
      exact ⟨⟨hi.1.1.step ht,hi.1.2.step hi.1.1 ht⟩,hi.2.step hc hi.1.1 hg ht⟩
    · exact ⟨⟨joint_start resolvers,stepwise_of (by simp [start,Net.start])⟩,
        ⟨Run.clockInv_top (.inl rfl) (le_refl _),(by rintro ⟨⟩),by simp [start,Net.start]⟩⟩
  obtain ⟨⟨hj,hst⟩,hs⟩ := h
  refine ⟨?_,?_⟩
  · unfold crashed
    split
    · exact absurd ‹_› hs.running
    · exact absurd ‹_› (hs.clock.running _)
    · rfl
  · intro new hp
    rw [hj.net.outstanding_busy (by rw [hp]; rfl),hs.accepted (hst.stopping new (.inl hp)).2]
    rfl

/-- What happens while the clock stands still. -/
def Event.Still (now : ℤ) : Event → Prop
  | .client e => e.Still now
  | .callback ok => ok = true
  | .fReturns _ _ | .signals _ | .finish => True

lemma good_still {now : ℤ} {e : Event} (hs : s.client.now ≤ now) (he : e.Still now) : Good s e := by
  cases e with
  | client e => exact Run.punctual_still hs he
  | callback => exact he
  | fReturns | signals | finish => trivial

lemma now_step_le {now : ℤ} {e : Event} (hs : s.client.now ≤ now) (he : e.Still now) (ht : step c s e = some t) :
    t.client.now ≤ now := by
  cases (step_inv ht).2 with
  | reported _ hr => exact Run.now_step_le (e := .reported) hs trivial hr
  | client _ hr | call _ hr => exact Run.now_step_le hs he hr
  | callback | fReturns | signals | finish => exact hs

lemma along_still {now : ℤ} {es : List Event} (hs : s.client.now ≤ now) (hes : ∀ e ∈ es, e.Still now) :
    Along (step c) Good s es :=
  (along_of (I := fun s => s.client.now ≤ now) (Q := fun e => e.Still now) (fun _ _ hs he => good_still hs he)
    (fun _ _ _ hs he ht => now_step_le hs he ht) hs hes).1

theorem runDHCP_safe_stopping :
    ∃ s, run (step (newClient dotted [] [] [])) (start []) (leased ++ stopping) = some s ∧ s.crashed = false ∧
      s.net.pc = .waiting noAddress ∧ s.net.outstanding = 1 := by
  obtain ⟨s,hr,hp,hn⟩ := run_stopping []
  have hA : Along (step (newClient dotted [] [] [])) Good (start []) (leased ++ stopping) := by
    apply along_still (le_refl (0 : ℤ))
    simp [leased,Run.grantEvents,stopping,Run.exchanged,Exchange.heard,Exchange.lost,Event.Still,Run.Event.Still,
      Exchange.Event.calm]
  have hwait : s.net.pc = .waiting noAddress := by rw [hn]; rfl
  have h := runDHCP_safe (by decide) hA hr
  exact ⟨s,hr,h.1,hwait,h.2 noAddress hwait⟩

end ArmoredWitness.Net.RunDHCP
