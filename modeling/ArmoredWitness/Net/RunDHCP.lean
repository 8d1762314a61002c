import ArmoredWitness.Dhcp.Clock

/-! `runDHCP` gives the client the callback that starts and stops f. The client waits for
each call to return, while the goroutines that run f go on; `Run` returning ends `runDHCP`.
The callback also sets the routes and the resolvers from what the server sent. -/
namespace ArmoredWitness.Net
open Lib Lib.Transition Dhcp

structure Route where
  destination : Subnet
  gateway : List UInt8
  deriving DecidableEq

/-- What the callback sets apart from the address: the routes of the stack, and the name
servers of the resolver. -/
structure Settings where
  routes : List Route
  resolvers : List String
  deriving DecidableEq

def ipv4EmptySubnet : Subnet := ⟨[0,0,0,0],[0,0,0,0]⟩

/-- The text of an address, with the port of the name service. -/
def resolver (T : Tcpip) (r : List UInt8) : String := T.string r ++ ":53"

def configureNetFromDHCP (T : Tcpip) (newAddr : AddressWithPrefix) (cfg : Config) (s : Settings) : Settings where
  routes := ⟨T.subnet newAddr,[]⟩::cfg.router.map fun gw => ⟨ipv4EmptySubnet,gw⟩
  resolvers := if cfg.dns.length > 0 then cfg.dns.map (resolver T) else s.resolvers

/-- What becomes of the mask that the server sent, where the stack's subnets have the masks
of their prefixes. A mask of ones followed by zeros gives the route to the local segment; with
any other one the whole address space counts as local. -/
theorem route_follows_mask (T : Tcpip) (hT : T.Masks) {addr mask : List UInt8} (hlen : mask.length = addr.length)
    (cfg : Config) (s : Settings) :
    ∃ route, (configureNetFromDHCP T ⟨addr,maskSize mask⟩ cfg s).routes.head? = some route ∧ route.gateway = [] ∧
      (Canonical mask → route.destination.mask = mask) ∧
      (¬ Canonical mask → route.destination.mask = List.replicate addr.length 0) :=
  ⟨_,rfl,rfl,hT.maskSize hlen⟩

theorem route_follows_mask_local :
    ∃ route, (configureNetFromDHCP dotted ⟨[10,0,0,1],maskSize [255,255,255,0]⟩ Config.empty ⟨[],[]⟩).routes.head? =
        some route ∧ route.destination.mask = [255,255,255,0] := by
  have hlen : ([255,255,255,0] : List UInt8).length = ([10,0,0,1] : List UInt8).length := rfl
  obtain ⟨route,hr,-,hc,-⟩ := route_follows_mask dotted dotted_masks hlen Config.empty ⟨[],[]⟩
  exact ⟨route,hr,hc ⟨24,by decide,rfl⟩⟩

structure RunDHCP where
  client : Run
  net : State
  settings : Settings

namespace RunDHCP

/-- What can happen next: a step of the client, of the callback or of a goroutine. -/
inductive Event
  | client (e : Run.Event)
  | callback (ok : Bool)
  | fReturns (i : ℕ) (canceled : Bool)
  | signals (i : ℕ)
  | finish

/-- `runDHCP` is called with what the client is created with; `cfg.Resolver` was set before. -/
def start (resolvers : List String) : RunDHCP := ⟨Run.start newInfo,Net.start noAddress,⟨[],resolvers⟩⟩

/-- The settings after the next step of the callback. -/
def configured (T : Tcpip) (s : RunDHCP) (ok : Bool) : Settings :=
  match s.net.pc, s.client.reports.getLast? with
  | .entered new, some call =>
    if s.net.addr = new then configureNetFromDHCP T new call.cfg s.settings else s.settings
  | .adding new, some call => if ok then configureNetFromDHCP T new call.cfg s.settings else s.settings
  | _, _ => s.settings

/-- A panic anywhere ends the program. -/
def crashed (s : RunDHCP) : Bool :=
  match s.net.pc, s.client.pc with
  | .panicked, _ | _, .panicked _ => true
  | _, _ => false

def step (c : Client) (s : RunDHCP) (e : Event) : Option RunDHCP :=
  if s.crashed then none
  else match e with
    | .client .reported =>
      if s.net.pc = .idle then (Run.step c s.client .reported).map fun r => {s with client := r} else none
    | .client e =>
      match Run.step c s.client e with
      | none => none
      | some r =>
        match r.reports.drop s.client.reports.length with
        | [] => some {s with client := r}
        | call::_ => (Net.step s.net (.report call.new)).map fun n => {s with client := r, net := n}
    | .callback ok =>
      (Net.step s.net (.callback ok)).map fun n => {s with net := n, settings := s.configured c.tcpip ok}
    | .fReturns i canceled => (Net.step s.net (.fReturns i canceled)).map fun n => {s with net := n}
    | .signals i => (Net.step s.net (.signals i)).map fun n => {s with net := n}
    | .finish =>
      match s.client.pc with
      | .returned => (Net.step s.net .finish).map fun n => {s with net := n}
      | _ => none

/-- The step, by who takes it. -/
inductive Step (c : Client) (s : RunDHCP) : Event → RunDHCP → Prop
  | reported {r} (hn : s.net.pc = .idle) (hr : Run.step c s.client .reported = some r) :
      Step c s (.client .reported) {s with client := r}
  | client {e r} (he : e ≠ .reported) (hr : Run.step c s.client e = some r)
      (hd : r.reports.drop s.client.reports.length = []) : Step c s (.client e) {s with client := r}
  | call {e r call rest n} (he : e ≠ .reported) (hr : Run.step c s.client e = some r)
      (hd : r.reports.drop s.client.reports.length = call::rest) (hn : Net.step s.net (.report call.new) = some n) :
      Step c s (.client e) {s with client := r, net := n}
  | callback {ok n} (hn : Net.step s.net (.callback ok) = some n) :
      Step c s (.callback ok) {s with net := n, settings := s.configured c.tcpip ok}
  | fReturns {i canceled n} (hn : Net.step s.net (.fReturns i canceled) = some n) :
      Step c s (.fReturns i canceled) {s with net := n}
  | signals {i n} (hn : Net.step s.net (.signals i) = some n) : Step c s (.signals i) {s with net := n}
  | finish {n} (hp : s.client.pc = .returned) (hn : Net.step s.net .finish = some n) :
      Step c s .finish {s with net := n}

variable {c : Client} {s t : RunDHCP}

lemma step_inv {e : Event} (ht : step c s e = some t) : s.crashed = false ∧ Step c s e t := by
  unfold step at ht
  split at ht
  · cases ht
  · rename_i hc
    refine ⟨by simpa using hc,?_⟩
    split at ht
    · split at ht
      · obtain ⟨r,hr,rfl⟩ := Option.map_eq_some_iff.mp ht
        exact .reported ‹_› hr
      · cases ht
    · rename_i e he
      split at ht
      · cases ht
      · rename_i r hr
        split at ht
        · rename_i hd
          cases ht
          exact .client he hr hd
        · rename_i call rest hd
          obtain ⟨n,hn,rfl⟩ := Option.map_eq_some_iff.mp ht
          exact .call he hr hd hn
    · obtain ⟨n,hn,rfl⟩ := Option.map_eq_some_iff.mp ht
      exact .callback hn
    · obtain ⟨n,hn,rfl⟩ := Option.map_eq_some_iff.mp ht
      exact .fReturns hn
    · obtain ⟨n,hn,rfl⟩ := Option.map_eq_some_iff.mp ht
      exact .signals hn
    · split at ht
      · rename_i hp
        obtain ⟨n,hn,rfl⟩ := Option.map_eq_some_iff.mp ht
        exact .finish hp hn
      · cases ht

end RunDHCP

/-- The new address of the call that the callback is in. -/
def Pc.target : Pc → Option AddressWithPrefix
  | .entered new | .waiting new | .removing new | .released new | .adding new | .starting new => some new
  | .idle | .panicked | .returned => none

namespace RunDHCP
variable {c : Client} {s t : RunDHCP}

section Sample

lemma step_quiet {e : Run.Event} {r : Run} (hc : s.crashed = false) (he : e ≠ .reported)
    (hr : Run.step c s.client e = some r) (hrep : r.reports = s.client.reports) :
    step c s (.client e) = some {s with client := r} := by
  have hdrop : r.reports.drop s.client.reports.length = [] := by rw [hrep,List.drop_length]
  cases e with
  | reported => exact absurd rfl he
  | attempt | exchange | settle | decide | fire | stop | cancel =>
    simp only [step,hc,hr,hdrop]
    rfl

lemma step_call {e : Run.Event} {r : Run} {call : Report} (hc : s.crashed = false) (he : e ≠ .reported)
    (hr : Run.step c s.client e = some r) (hrep : r.reports = s.client.reports ++ [call]) (hn : s.net.pc = .idle) :
    step c s (.client e) = some {s with client := r, net := {s.net with pc := .entered call.new}} := by
  have hdrop : r.reports.drop s.client.reports.length = [call] := by rw [hrep,List.drop_left]
  have hnet : Net.step s.net (.report call.new) = some {s.net with pc := .entered call.new} := by
    simp [Net.step,hn]
  cases e with
  | reported => exact absurd rfl he
  | attempt | exchange | settle | decide | fire | stop | cancel =>
    simp only [step,hc,hr,hdrop,hnet]
    rfl

/-- The steps of an attempt. -/
def attempting : Run.Event → Bool
  | .attempt _ _ | .exchange _ _ => true
  | _ => false

/-- The client makes an attempt on its own. -/
lemma run_attempting {es : List Run.Event} {r : Run} (hn : s.net.pc = .idle) (hes : ∀ e ∈ es, attempting e = true)
    (hr : run (Run.step c) s.client es = some r) :
    run (step c) s (es.map .client) = some {s with client := r} := by
  induction es generalizing s with
  | nil =>
    cases hr
    rfl
  | cons e es ih =>
    obtain ⟨u,hu,hrest⟩ := Option.bind_eq_some_iff.mp hr
    rw [List.forall_mem_cons] at hes
    have hown : s.crashed = false ∧ e ≠ .reported ∧ u.reports = s.client.reports := by
      simp only [crashed,hn]
      cases Run.step_inv hu with
      | attempt hp | unexpected hp | exchange hp => exact ⟨by rw [hp],by rintro ⟨⟩,rfl⟩
      | acquired | failed | crashed | reported | invalid | decide | fire | stop | cancel => cases hes.1
    rw [List.map_cons,run,step_quiet hown.1 hown.2.1 hu hown.2.2]
    exact ih (s := {s with client := u}) hn hes.2 hrest

/-- The callback after its first call. -/
def leasedNet : State := ⟨leaseA,.idle,some 0,Channel.make Bool 1,[⟨false,.running⟩],true⟩

/-- An attempt that gets an address, and the call that starts f. -/
def leased : List Event :=
  Run.grantEvents.map .client ++
  ([.client (.settle 0)] ++ (List.replicate 4 (.callback true) ++ ([.client .reported] ++ [.client (.decide 0)])))

lemma run_leased (resolvers : List String) :
    ∃ s, run (step (newClient dotted [] [] [])) (start resolvers) leased = some s ∧
    s.client.pc = .waiting .renewing ∧ s.client.info = Exchange.leasedInfo .bound ∧
    s.net = leasedNet ∧ s.client.canceled = false := by
  obtain ⟨x,hx,hphase,-,hinfo⟩ := Exchange.run_granted (c := newClient dotted [] [] []) (by decide) rfl
    (Exchange.granted_lease _ newInfo (fit 4 [])) [] [] 0 0
  obtain ⟨k,d,last,hatt⟩ := Run.run_attempted (s := Run.start newInfo) (List.replicate 6 0) 0 rfl (by decide)
    (Exchange.not_done_heard _ _ _ _ _ _) rfl hx
  have hattempt := run_attempting (s := start resolvers) rfl
    (by simp [Run.exchanged,Exchange.heard,Exchange.lost,attempting])
    hatt
  let u : Run := {Run.start newInfo with stats := [k], pc := .exchanging x d, now := last}
  let v : Run := ({u with stats := u.stats ++ x.stats} : Run).acquired x.info leaseCfg 0
  have hsettle : Run.step (newClient dotted [] [] []) u (.settle 0) = some v := by
    simp only [Run.step,u,hphase,v]
  have hcall : run (step (newClient dotted [] [] [])) {start resolvers with client := u} [.client (.settle 0)] =
      some ⟨v,{Net.start noAddress with pc := .entered leaseA},⟨[],resolvers⟩⟩ := by
    rw [run,step_call rfl (by rintro ⟨⟩) hsettle rfl rfl,hinfo]
    rfl
  obtain ⟨st,hback⟩ : ∃ st, run (step (newClient dotted [] [] []))
      ⟨v,{Net.start noAddress with pc := .entered leaseA},
      ⟨[],resolvers⟩⟩ (List.replicate 4 (.callback true)) =
      some ⟨v,leasedNet,st⟩ := ⟨_,rfl⟩
  have hreported : run (step (newClient dotted [] [] [])) ⟨v,leasedNet,st⟩ [.client .reported] =
      some ⟨v.resume .bound,leasedNet,st⟩ := rfl
  have hdecide := Run.step_decide_early (c := newClient dotted [] [] []) (s := v.resume .bound) 0 rfl rfl
    (by decide : (0 : ℤ) < 0+duration (normalise leaseCfg).renewTime)
    (by decide : (0 : ℤ) < 0+duration (normalise leaseCfg).rebindTime)
    (by decide : (0 : ℤ) < 0+duration (normalise leaseCfg).leaseLength)
  let w : Run := { v.resume .bound with
    pc := .waiting .renewing
    timer := .armed (v.resume .bound).renewTime
    now := 0 }
  have hwait : run (step (newClient dotted [] [] [])) ⟨v.resume .bound,leasedNet,st⟩ [.client (.decide 0)] =
      some ⟨w,leasedNet,st⟩ := by
    rw [run,step_quiet (r := w) rfl (by rintro ⟨⟩) hdecide rfl]
    rfl
  refine ⟨⟨w,leasedNet,st⟩,run_trans hattempt (run_trans hcall (run_trans hback (run_trans hreported hwait))),
    rfl,?_,rfl,rfl⟩
  change ({x.info with oldAddr := x.info.addr, state := .bound} : Info) = _
  rw [hinfo]
  rfl

/-- The callback once it has told f to stop. -/
def stoppingNet : State := ⟨leaseA,.waiting noAddress,some 0,Channel.make Bool 1,[⟨true,.running⟩],true⟩

/-- The client is cancelled, and calls back to give up the address. -/
def stopping : List Event := [.client .cancel,.client .stop,.callback true]

lemma run_stopping (resolvers : List String) :
    ∃ s, run (step (newClient dotted [] [] [])) (start resolvers) (leased ++ stopping) = some s ∧
      s.client.pc = .reporting .stopped ∧ s.net = stoppingNet := by
  obtain ⟨s,hr,hp,hi,hn,-⟩ := run_leased resolvers
  have hold : ¬ s.client.info.oldAddr = noAddress := by
    rw [hi]
    decide
  have hidle : s.net.pc = .idle := by rw [hn]; rfl
  have hcrash : s.crashed = false := by simp only [crashed,hp,hidle]
  let u : Run := {s.client with canceled := true}
  have hcancel : Run.step (newClient dotted [] [] []) s.client .cancel = some u := by
    simp only [Run.step,hp,u]
  let v : Run := u.report noAddress Config.empty .stopped
  have hstop : Run.step (newClient dotted [] [] []) u .stop = some v := by
    simp only [Run.step,u,hp,if_true,Run.cleanup,if_neg hold,v]
  obtain ⟨st,hback⟩ : ∃ st, step (newClient dotted [] [] []) ⟨v,{leasedNet with pc := .entered noAddress},s.settings⟩
      (.callback true) = some ⟨v,stoppingNet,st⟩ := ⟨_,rfl⟩
  refine ⟨⟨v,stoppingNet,st⟩,run_trans hr ?_,rfl,rfl⟩
  rw [stopping,run,step_quiet hcrash (by rintro ⟨⟩) hcancel rfl,Option.bind_some,run,
    step_call (s := {s with client := u}) hcrash (by rintro ⟨⟩) hstop rfl hidle,Option.bind_some,run,hn,hback]
  rfl

/-- f ends and signals, and the callback removes the address. -/
def stopped : List Event :=
  [.fReturns 0 true,.signals 0,.callback true,.callback true,.callback true,.client .reported]

lemma run_stopped (resolvers : List String) :
    ∃ s, run (step (newClient dotted [] [] [])) (start resolvers) (leased ++ stopping ++ stopped) = some s ∧
      s.client.pc = .returned ∧ s.net.goroutines = [⟨true,.ended⟩] := by
  obtain ⟨⟨r,n,st⟩,hr,hp,hn⟩ := run_stopping resolvers
  obtain ⟨info,stored,lease,renew,rebind,timer,canceled,pc,reports,stats,now⟩ := r
  cases hp
  cases hn
  exact ⟨_,run_trans hr rfl,rfl,rfl⟩

end Sample

/-- Between two calls the callback has the address that the client reported last; in a call
it has the one before, and the client waits for it. -/
structure Joint (s : RunDHCP) : Prop where
  client : Run.AddrInv s.client
  net : Inv s.net
  free : (∀ k, s.client.pc ≠ .reporting k) → s.net.pc = .idle ∨ s.net.pc = .returned
  current : s.net.pc = .idle ∨ s.net.pc = .returned → s.net.addr = s.client.current
  call : ∀ new, s.net.pc.target = some new → (∃ k, s.client.pc = .reporting k) ∧
    ∃ cfg, s.client.reports.getLast? = some ⟨s.net.addr,new,cfg⟩
  returned : s.net.pc = .returned → s.client.pc = .returned

/-- In a call, the address that is reported is the new one. -/
lemma Joint.target (h : Joint s) {new : AddressWithPrefix} (hn : s.net.pc.target = some new) :
    s.client.current = new := by
  obtain ⟨-,cfg,hlast⟩ := h.call new hn
  rw [← h.client.current,Trail.last,hlast]
  rfl

/-- A step of the callback within a call. -/
lemma Joint.within (h : Joint s) {n : State} {new : AddressWithPrefix} (hn : Inv n) (ha : n.addr = s.net.addr)
    (hs : s.net.pc.target = some new) (ht : n.pc.target = some new) (settings : Settings) :
    Joint ⟨s.client,n,settings⟩ where
  client := h.client
  net := hn
  free hp := by
    obtain ⟨⟨k,hk⟩,-⟩ := h.call new hs
    exact absurd hk (hp k)
  current hp := by
    rcases hp with hp | hp <;> rw [hp] at ht <;> cases ht
  call new' hn' := by
    rw [ht] at hn'
    cases hn'
    rw [ha]
    exact h.call new hs
  returned hp := by
    rw [hp] at ht
    cases ht

/-- The end of a call. -/
lemma Joint.done (h : Joint s) {n : State} {new : AddressWithPrefix} (hn : Inv n) (hs : s.net.pc.target = some new)
    (hp : n.pc = .idle) (ha : n.addr = new) (settings : Settings) : Joint ⟨s.client,n,settings⟩ where
  client := h.client
  net := hn
  free _ := .inl hp
  current _ := ha.trans (h.target hs).symm
  call new' hn' := by
    rw [hp] at hn'
    cases hn'
  returned hp' := by
    rw [hp] at hp'
    cases hp'

/-- A step of a goroutine, or one that only moves the client. -/
lemma Joint.aside (h : Joint s) {n : State} (hn : Inv n) (hp : n.pc = s.net.pc) (ha : n.addr = s.net.addr) :
    Joint {s with net := n} where
  client := h.client
  net := hn
  free hk := by
    rw [hp]
    exact h.free hk
  current hk := by
    rw [hp] at hk
    rw [ha]
    exact h.current hk
  call new hk := by
    rw [hp] at hk
    rw [ha]
    exact h.call new hk
  returned hk := by
    rw [hp] at hk
    exact h.returned hk

lemma Joint.callback (h : Joint s) {ok : Bool} {n : State} (ht : Net.step s.net (.callback ok) = some n)
    (settings : Settings) : Joint ⟨s.client,n,settings⟩ := by
  have hn := h.net.step ht
  cases Net.step_inv ht with
  | callback hacq =>
    cases hacq with
    | renew hpc hnew => exact h.done hn (by rw [hpc]; rfl) rfl hnew settings
    | first hpc | cancel hpc | token hpc | closed hpc | remove hpc | add hpc | added hpc =>
      exact h.within hn rfl (by rw [hpc]; rfl) rfl settings
    | @nil new _ hpc =>
      obtain ⟨⟨k,hk⟩,-⟩ := h.call new (by rw [hpc]; rfl)
      refine ⟨h.client,hn,fun hp => absurd hk (hp k),?_,(by rintro _ ⟨⟩),(by rintro ⟨⟩)⟩
      rintro (hi | hi) <;> cases hi
    | none hpc | refused hpc | start hpc => exact h.done hn (by rw [hpc]; rfl) rfl rfl settings

/-- A step of the client on its side. -/
lemma Joint.moved (h : Joint s) {r : Run} (hr : Run.AddrInv r) (hrep : r.reports = s.client.reports)
    (hfree : (∀ k, r.pc ≠ .reporting k) → s.net.pc = .idle ∨ s.net.pc = .returned)
    (hcall : ∀ new, s.net.pc.target = some new → ∃ k, r.pc = .reporting k)
    (hret : s.net.pc = .returned → r.pc = .returned) : Joint {s with client := r} where
  client := hr
  net := h.net
  free := hfree
  current hp := (h.current hp).trans (h.client.current_eq hr hrep).symm
  call new hn := by
    refine ⟨hcall new hn,?_⟩
    rw [hrep]
    exact (h.call new hn).2
  returned := hret

theorem Joint.step (h : Joint s) {e : Event} (ht : step c s e = some t) : Joint t := by
  cases (step_inv ht).2 with
  | @reported r hn hr =>
    refine h.moved (h.client.step hr) (Run.reported_inv hr) (fun _ => .inl hn) ?_ ?_
    · rw [hn]
      rintro new ⟨⟩
    · rw [hn]
      rintro ⟨⟩
  | @client e r he hr hd =>
    cases Run.step_calls he hr with
    | none hrep hp =>
      refine h.moved (h.client.step hr) hrep ?_ ?_ ?_
      · intro hk
        exact h.free fun k hs => hk k ((hp k).mpr hs)
      · intro new hn
        obtain ⟨⟨k,hk⟩,-⟩ := h.call new hn
        exact ⟨k,(hp k).mpr hk⟩
      · intro hn
        exact Run.step_returned (h.returned hn) hr
    | call hrep =>
      rw [hrep,List.drop_left] at hd
      cases hd
  | @call e r call rest n he hr hd hn =>
    cases Run.step_calls he hr with
    | none hrep =>
      rw [hrep,List.drop_length] at hd
      cases hd
    | @call call' k hrep hs hp =>
      have hr' := h.client.step hr
      rw [hrep,List.drop_left] at hd
      cases hd
      have hinv := h.net.step hn
      cases Net.step_inv hn with
      | report hpc =>
        have hold : call.old = s.net.addr := by
          rw [hr'.linked _ call [] hrep,h.client.current]
          exact (h.current (.inl hpc)).symm
        refine ⟨hr',hinv,fun hk => absurd hp (hk k),?_,?_,(by rintro ⟨⟩)⟩
        · rintro (hi | hi) <;> cases hi
        · rintro new ⟨⟩
          refine ⟨⟨k,hp⟩,call.cfg,?_⟩
          rw [hrep,List.getLast?_concat,← hold]
  | callback hn => exact h.callback hn _
  | @fReturns i canceled n hn =>
    have hinv := h.net.step hn
    cases Net.step_inv hn with
    | fReturns => exact h.aside hinv rfl rfl
  | @signals i n hn =>
    have hinv := h.net.step hn
    cases Net.step_inv hn with
    | signals => exact h.aside hinv rfl rfl
    | crash hg hsend => exact absurd hsend (h.net.send_ne_panic hg rfl)
  | @finish n hp hn =>
    have hinv := h.net.step hn
    cases Net.step_inv hn with
    | finish hpc hun =>
      exact ⟨h.client,hinv,fun _ => .inr rfl,fun _ => h.current (.inl hpc),(by rintro _ ⟨⟩),fun _ => hp⟩

lemma joint_start (resolvers : List String) : Joint (start resolvers) where
  client := Run.addrInv_start rfl
  net := inv_start _
  free _ := .inl rfl
  current _ := rfl
  call := by rintro _ ⟨⟩
  returned := by rintro ⟨⟩

lemma joint_run {resolvers : List String} {es : List Event} (hr : run (step c) (start resolvers) es = some s) :
    Joint s :=
  run_invariant (fun _ _ _ h ht => h.step ht) (joint_start resolvers) hr

/-- The addresses that a run of the callback is called with. -/
def called : Net.Event → Option AddressWithPrefix
  | .report new => some new
  | _ => none

/-- The steps of the callback and the goroutines, as a run on their own. -/
def Projects (s : RunDHCP) : Prop :=
  ∃ es, run Net.step (Net.start noAddress) es = some s.net ∧ es.filterMap called = s.client.reports.map Report.new

lemma Projects.net (h : Projects s) {e : Net.Event} {n : State} (hn : Net.step s.net e = some n)
    (he : called e = none) (hp : t.net = n) (hc : t.client.reports = s.client.reports) : Projects t := by
  obtain ⟨es,hr,hes⟩ := h
  refine ⟨es ++ [e],?_,?_⟩
  · rw [hp]
    exact run_trans hr (by rw [run,hn]; rfl)
  · rw [List.filterMap_append,hes,List.filterMap_cons_none he,List.filterMap_nil,List.append_nil,hc]

lemma Projects.step (h : Projects s) {e : Event} (ht : step c s e = some t) : Projects t := by
  cases (step_inv ht).2 with
  | reported hn hr =>
    obtain ⟨es,hrun,hes⟩ := h
    exact ⟨es,hrun,by rw [hes,Run.reported_inv hr]⟩
  | @client e r he hr hd =>
    obtain ⟨es,hrun,hes⟩ := h
    cases Run.step_calls he hr with
    | none hrep => exact ⟨es,hrun,by rw [hes,hrep]⟩
    | call hrep =>
      rw [hrep,List.drop_left] at hd
      cases hd
  | @call e r call rest n he hr hd hn =>
    obtain ⟨es,hrun,hes⟩ := h
    cases Run.step_calls he hr with
    | none hrep =>
      rw [hrep,List.drop_length] at hd
      cases hd
    | call hrep =>
      rw [hrep,List.drop_left] at hd
      cases hd
      refine ⟨es ++ [.report call.new],run_trans hrun (by rw [run,hn]; rfl),?_⟩
      rw [List.filterMap_append,hes,hrep,List.map_append]
      rfl
  | callback hn => exact h.net hn rfl rfl rfl
  | fReturns hn => exact h.net hn rfl rfl rfl
  | signals hn => exact h.net hn rfl rfl rfl
  | finish hp hn => exact h.net hn rfl rfl rfl

/-- Every run of the client with its callback is, seen from the callback, a run of the
callback alone that is called with what the client reports. Between two calls the
callback's address is that of the last report, and in a call it is the old address of that
call: what the callback takes for granted. -/
theorem runDHCP_refines {resolvers : List String} {es : List Event}
    (hr : run (step c) (start resolvers) es = some s) :
    (∃ ns, run Net.step (Net.start noAddress) ns = some s.net ∧
      ns.filterMap called = s.client.reports.map Report.new) ∧
    (s.net.pc = .idle → s.net.addr = Trail.last Report.new noAddress s.client.reports) ∧
    ∀ new, s.net.pc.target = some new → ∃ cfg, s.client.reports.getLast? = some ⟨s.net.addr,new,cfg⟩ := by
  have h := joint_run hr
  have hproj : Projects s := by
    refine run_invariant (fun _ _ _ h ht => Projects.step h ht) ?_ hr
    exact ⟨[],rfl,rfl⟩
  exact ⟨hproj,fun hp => (h.current (.inl hp)).trans h.client.current.symm,fun new hn => (h.call new hn).2⟩

theorem runDHCP_refines_stopping :
    ∃ s, run (step (newClient dotted [] [] [])) (start []) (leased ++ stopping) = some s ∧
      ∃ cfg, s.client.reports.getLast? = some ⟨leaseA,noAddress,cfg⟩ := by
  obtain ⟨s,hr,-,hn⟩ := run_stopping []
  have h := (runDHCP_refines hr).2.2 noAddress (by rw [hn]; rfl)
  rw [hn] at h
  exact ⟨s,hr,h⟩

end RunDHCP

end ArmoredWitness.Net
