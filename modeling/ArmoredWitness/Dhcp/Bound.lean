import ArmoredWitness.Dhcp.Run

/-! A successful exchange is reported, and the loop then waits until the lease has to be
renewed. It waits on a timer that is only set if there is something left to wait for. -/
namespace ArmoredWitness.Dhcp
open Lib Lib.Transition Net

namespace Timer
variable {timer : Timer} {now wait : ℤ}

lemma set_of_ne (hw : wait ≠ 0) : timer.set now wait = .armed (now+wait) := by
  cases timer with
  | unset => rfl
  | armed | spent => exact if_pos hw

lemma armed_of_set {due : ℤ} (h : timer.set now wait = .armed due) :
    due = now+wait ∨ wait = 0 ∧ timer = .armed due := by
  by_cases hw : wait = 0
  · cases timer with
    | unset =>
      cases h
      exact .inl rfl
    | armed | spent => exact .inr ⟨hw,by rw [← h,Timer.set,if_neg (not_not.mpr hw)]; simp⟩
  · rw [set_of_ne hw] at h
    cases h
    exact .inl rfl

/-- A timer that was received stays so if there is nothing to wait for. -/
lemma set_not_armed_iff : (∀ due, timer.set now wait ≠ .armed due) ↔ timer = .spent ∧ wait = 0 := by
  cases timer with
  | unset => simp [Timer.set]
  | armed due => by_cases hw : wait = 0 <;> simp [Timer.set,hw]
  | spent => by_cases hw : wait = 0 <;> simp [Timer.set,hw]

end Timer

namespace Run
variable {c : Client} {s t : Run}

section Attempt
variable {x x' : Exchange} {d : ℤ} {xid : List.Vector UInt8 4}

lemma step_exchange (now : ℤ) {e : Exchange.Event} (hp : s.pc = .exchanging x d)
    (hx : Exchange.step c x e = some x') (he : e ≠ .done) :
    step c s (.exchange now e) = some {s with pc := .exchanging x' d, now := now} := by
  cases e with
  | done => exact absurd rfl he
  | opened | wrote | received | readFails | timeout | removed => simp only [step,hp,hx,Option.map_some]

/-- The inputs of an exchange, each at a reading of the clock. -/
def exchanged (ts : List ℤ) (es : List Exchange.Event) : List Event := List.zipWith .exchange ts es

lemma run_exchanged (ts : List ℤ) {es : List Exchange.Event} (hp : s.pc = .exchanging x d) (hes : .done ∉ es)
    (hts : ts.length = es.length) (hr : run (Exchange.step c) x es = some x') :
    ∃ now, run (step c) s (exchanged ts es) = some {s with pc := .exchanging x' d, now := now} := by
  induction es generalizing s x ts with
  | nil =>
    cases hr
    refine ⟨s.now,?_⟩
    rw [exchanged,List.zipWith_nil_right,run,← hp]
  | cons e es ih =>
    obtain ⟨now,ts,rfl⟩ := List.exists_cons_of_length_eq_add_one hts
    obtain ⟨y,hy,hrest⟩ := Option.bind_eq_some_iff.mp hr
    rw [List.mem_cons,not_or] at hes
    have hstep := step_exchange (s := s) now hp hy (Ne.symm hes.1)
    obtain ⟨last,hlast⟩ := ih (s := {s with pc := .exchanging y d, now := now}) ts rfl hes.2 (Nat.succ.inj hts) hrest
    refine ⟨last,?_⟩
    rw [exchanged,List.zipWith_cons_cons,run,hstep]
    exact hlast

/-- An attempt, up to the moment at which its result is known. -/
lemma run_attempted (ts : List ℤ) {es : List Exchange.Event} (now : ℤ) (hp : s.pc = .acquiring)
    (hs : s.info.state ≠ .bound) (hes : .done ∉ es) (hts : ts.length = es.length)
    (hr : run (Exchange.step c) (Exchange.start s.info xid) es = some x) :
    ∃ k d last, run (step c) s (.attempt now xid::exchanged ts es) =
      some {s with stats := s.stats ++ [k], pc := .exchanging x d, now := last} := by
  obtain ⟨k,hk⟩ : ∃ k, attemptCounter s.info.state = some k := by
    cases h : attemptCounter s.info.state with
    | none => exact absurd (attemptCounter_eq_none h) hs
    | some k => exact ⟨k,rfl⟩
  let u : Run := {s with
    stats := s.stats ++ [k]
    pc := .exchanging (Exchange.start s.info xid) (now+s.acquisitionTimeout c now)
    now := now}
  have hstep : step c s (.attempt now xid) = some u := by
    simp only [step,hp,hk,u]
  obtain ⟨last,hlast⟩ := run_exchanged (s := u) ts rfl hes hts hr
  refine ⟨k,now+s.acquisitionTimeout c now,last,?_⟩
  rw [run,hstep]
  exact hlast

/-- The times of a lease, from the moment at which it was acquired. -/
structure Leased (cfg : Config) (now : ℤ) (s : Run) : Prop where
  lease : s.leaseExpirationTime = now+duration (normalise cfg).leaseLength
  renew : s.renewTime = now+duration (normalise cfg).renewTime
  rebind : s.rebindTime = now+duration (normalise cfg).rebindTime

/-- An attempt that succeeds is reported, and the client is bound. -/
lemma run_bound (ts : List ℤ) {es : List Exchange.Event} {cfg : Config} (began now : ℤ) (hp : s.pc = .acquiring)
    (hs : s.info.state ≠ .bound) (hes : .done ∉ es) (hts : ts.length = es.length)
    (hr : run (Exchange.step c) (Exchange.start s.info xid) es = some x) (hx : x.phase = .returned (.ok cfg)) :
    ∃ t, run (step c) s (.attempt began xid::exchanged ts es ++ [.settle now,.reported]) = some t ∧
      t.info = {x.info with oldAddr := x.info.addr, state := .bound} ∧ t.stored = t.info ∧
      t.reports = s.reports ++ [⟨x.info.oldAddr,x.info.addr,normalise cfg⟩] ∧ t.pc = .deciding ∧
      t.timer = s.timer ∧ t.canceled = s.canceled ∧ Leased cfg now t := by
  obtain ⟨k,d,last,hrun⟩ := run_attempted (c := c) ts began hp hs hes hts hr
  let u : Run := {s with stats := s.stats ++ [k], pc := .exchanging x d, now := last}
  have hsettle : step c u (.settle now) = some ({u with stats := u.stats ++ x.stats}.acquired x.info cfg now) := by
    simp only [step,u,hx]
  refine ⟨({u with stats := u.stats ++ x.stats}.acquired x.info cfg now).resume .bound,?_,rfl,rfl,rfl,rfl,rfl,rfl,
    ⟨rfl,rfl,rfl⟩⟩
  exact run_trans hrun (by rw [run,hsettle]; rfl)

end Attempt

section Decisions
variable {now : ℤ}

/-- Before the lease has to be renewed there is something to wait for. -/
lemma step_decide_early (now : ℤ) (hp : s.pc = .deciding) (hs : s.info.state = .bound) (hrenew : now < s.renewTime)
    (hrebind : now < s.rebindTime) (hlease : now < s.leaseExpirationTime) :
    step c s (.decide now) = some {s with pc := .waiting .renewing, timer := .armed s.renewTime, now := now} := by
  have hn : s.next now = some (.renewing,s.renewTime-now) := by
    rw [Run.next,if_neg (not_le.mpr hlease),if_neg (not_le.mpr hrebind),if_neg (not_le.mpr hrenew),
      if_neg (by rw [hs]; decide)]
  have htimer : s.timer.set now (s.renewTime-now) = .armed s.renewTime := by
    rw [Timer.set_of_ne (by omega),add_sub_cancel]
  simp only [step,hp,hn,decided,hs]
  simp [htimer]

/-- A message that is sent: the number drawn for its delay, and how long after the delay, or
after the message itself if it is answered, the client goes on. -/
structure Sent where
  rnd : Fin (2*10^9+1)
  lag : ℕ

/-- The time until lost message `i` is sent again. -/
def Sent.wait (c : Client) (m : Sent) (i : ℕ) : ℤ := (exponentialBackoff c.retransmission m.rnd i).getD 0+m.lag

/-- The time that lost messages take, from number `i` on. -/
def lostTime (c : Client) : ℕ → List Sent → ℤ
  | _, [] => 0
  | i, m::ms => m.wait c i+lostTime c (i+1) ms

/-- The readings of the clock meanwhile, when a message is sent and when its delay is over. -/
def lostTimes (c : Client) : ℤ → ℕ → List Sent → List ℤ
  | _, _, [] => []
  | now, i, m::ms => now::(now+m.wait c i)::lostTimes c (now+m.wait c i) (i+1) ms

/-- The time that a leg takes, in which the messages `ms` are lost and `m` is answered. -/
def legTime (c : Client) (ms : List Sent) (m : Sent) : ℤ := lostTime c 0 ms+m.lag

def legTimes (c : Client) (now : ℤ) (ms : List Sent) (m : Sent) : List ℤ :=
  lostTimes c now 0 ms ++ [now+lostTime c 0 ms,now+legTime c ms m]

/-- The readings of the clock during an attempt of two legs. -/
def attemptTimes (c : Client) (began : ℤ) (ms ms' : List Sent) (m m' : Sent) : List ℤ :=
  [began] ++ legTimes c began ms m ++ legTimes c (began+legTime c ms m) ms' m' ++
    [began+legTime c ms m+legTime c ms' m']

section Times
variable (ms ms' : List Sent) (m m' : Sent)

lemma Sent.wait_nonneg (i : ℕ) : 0 ≤ m.wait c i := by
  have hdelay := exponentialBackoff_nonneg c.retransmission m.rnd i
  rw [Sent.wait]
  omega

lemma lostTimes_length (now : ℤ) (i : ℕ) :
    (lostTimes c now i ms).length = (Exchange.lost (ms.map Sent.rnd)).length := by
  induction ms generalizing now i with
  | nil => rfl
  | cons m ms ih => simp only [lostTimes,List.map_cons,Exchange.lost,List.length_cons,ih]

lemma attemptTimes_length (began : ℤ) (offer ack : Hdr) : (attemptTimes c began ms ms' m m').length =
    (Exchange.heard (ms.map Sent.rnd) (ms'.map Sent.rnd) m.rnd m'.rnd offer ack).length := by
  simp only [attemptTimes,legTimes,Exchange.heard,List.length_append,lostTimes_length,List.length_cons,
    List.length_nil]
  omega

/-- Readings of a clock that does not go back. -/
structure Between (lo hi : ℤ) (ts : List ℤ) : Prop where
  order : ts.Pairwise (· ≤ ·)
  bounds : ∀ t ∈ ts, lo ≤ t ∧ t ≤ hi

lemma Between.append {lo mid hi : ℤ} {a b : List ℤ} (h : Between lo mid a) (h' : Between mid hi b) (hlo : lo ≤ mid)
    (hhi : mid ≤ hi) : Between lo hi (a ++ b) where
  order := by
    refine List.pairwise_append.mpr ⟨h.order,h'.order,?_⟩
    intro t ht u hu
    exact (h.bounds t ht).2.trans (h'.bounds u hu).1
  bounds t ht := by
    rcases List.mem_append.mp ht with ht | ht
    · exact ⟨(h.bounds t ht).1,(h.bounds t ht).2.trans hhi⟩
    · exact ⟨hlo.trans (h'.bounds t ht).1,(h'.bounds t ht).2⟩

lemma between_pair {lo hi : ℤ} (h : lo ≤ hi) : Between lo hi [lo,hi] where
  order := by simpa using h
  bounds t ht := by
    rcases List.mem_pair.mp ht with rfl | rfl
    · exact ⟨le_rfl,h⟩
    · exact ⟨h,le_rfl⟩

lemma lostTimes_between (now : ℤ) (i : ℕ) :
    0 ≤ lostTime c i ms ∧ Between now (now+lostTime c i ms) (lostTimes c now i ms) := by
  induction ms generalizing now i with
  | nil => exact ⟨le_rfl,.nil,fun t ht => absurd ht List.not_mem_nil⟩
  | cons m ms ih =>
    have hwait := m.wait_nonneg (c := c) i
    obtain ⟨hpos,hrest⟩ := ih (now+m.wait c i) (i+1)
    have hpair := between_pair (show now ≤ now+m.wait c i by omega)
    refine ⟨add_nonneg hwait hpos,?_⟩
    rw [lostTime,← add_assoc]
    exact hpair.append hrest (by omega) (by omega)

lemma legTimes_between (now : ℤ) :
    0 ≤ legTime c ms m ∧ Between now (now+legTime c ms m) (legTimes c now ms m) := by
  obtain ⟨hpos,hlost⟩ := lostTimes_between (c := c) ms now 0
  have hle : now+lostTime c 0 ms ≤ now+legTime c ms m := by
    rw [legTime]
    omega
  refine ⟨?_,hlost.append (between_pair hle) (by omega) hle⟩
  rw [legTime]
  omega

lemma attemptTimes_between (began : ℤ) :
    Between began (began+legTime c ms m+legTime c ms' m') (attemptTimes c began ms ms' m m') := by
  obtain ⟨hpos,hleg⟩ := legTimes_between (c := c) ms m began
  obtain ⟨hpos',hleg'⟩ := legTimes_between (c := c) ms' m' (began+legTime c ms m)
  have hsingle (t : ℤ) : Between t t [t] := ⟨List.pairwise_singleton _ _,by simp⟩
  exact (((hsingle began).append hleg le_rfl (by omega)).append hleg' (by omega) (by omega)).append
    (hsingle _) (by omega) le_rfl

end Times

/-- A client without a lease loses any number of messages, hears an offer and then the
acknowledgement of it. As long as the delays of the lost messages and the time until the
answers come add up to less than the time for the attempt, the attempt is over before its
deadline, the address is reported, and the timer is set to the moment at which the lease has
to be renewed. -/
theorem lease_acquired {xid : List.Vector UInt8 4} {offer ack : Hdr} {addr : AddressWithPrefix} {server : List UInt8}
    {cfg : Config} (hc : c.retransmission ≠ 0) (hp : s.pc = .acquiring) (hs : s.info.state = .initSelecting)
    (hg : Exchange.Granted c s.info xid offer ack addr server cfg) (ms ms' : List Sent) (m m' : Sent)
    (hline : legTime c ms m+legTime c ms' m' < c.acquisition) (began acquired now : ℤ)
    (hrenew : now < acquired+duration (normalise cfg).renewTime)
    (hrebind : now < acquired+duration (normalise cfg).rebindTime)
    (hlease : now < acquired+duration (normalise cfg).leaseLength) :
    (attemptTimes c began ms ms' m m').Pairwise (· ≤ ·) ∧
    (∀ t ∈ attemptTimes c began ms ms' m m', t < began+s.acquisitionTimeout c began) ∧
    ∃ t, run (step c) s (.attempt began xid::exchanged (attemptTimes c began ms ms' m m')
          (Exchange.heard (ms.map Sent.rnd) (ms'.map Sent.rnd) m.rnd m'.rnd offer ack) ++
        [.settle acquired,.reported] ++ [.decide now]) = some t ∧
      t.info = ⟨addr,server,.bound,addr⟩ ∧ t.stored = t.info ∧
      t.reports = s.reports ++ [⟨s.info.oldAddr,addr,normalise cfg⟩] ∧ Leased cfg acquired t ∧
      t.pc = .waiting .renewing ∧ t.timer = .armed (acquired+duration (normalise cfg).renewTime) := by
  have hbetween := attemptTimes_between (c := c) ms ms' m m' began
  refine ⟨hbetween.order,?_,?_⟩
  · intro t ht
    have hle := (hbetween.bounds t ht).2
    rw [acquisitionTimeout,hs]
    dsimp only
    omega
  · obtain ⟨x,hx,hphase,-,hinfo⟩ := Exchange.run_granted hc hs hg (ms.map Sent.rnd) (ms'.map Sent.rnd) m.rnd m'.rnd
    obtain ⟨u,hu,hui,hstored,hreports,hup,-,-,hul⟩ := run_bound (s := s) (attemptTimes c began ms ms' m m') began
      acquired hp (by rw [hs]; decide) (Exchange.not_done_heard _ _ _ _ _ _) (attemptTimes_length ms ms' m m' _ _ _)
      hx hphase
    rw [hinfo] at hui hreports
    have hdecide := step_decide_early (c := c) now hup (by rw [hui]) (hul.renew ▸ hrenew) (hul.rebind ▸ hrebind)
      (hul.lease ▸ hlease)
    refine ⟨{u with pc := .waiting .renewing, timer := .armed u.renewTime, now := now},?_,hui,hstored,hreports,
      ⟨hul.lease,hul.renew,hul.rebind⟩,rfl,congrArg Timer.armed hul.renew⟩
    exact run_trans hu (by rw [run,hdecide]; rfl)

/-- The first DISCOVER is lost, and the answers take a millisecond. -/
theorem lease_acquired_retry :
    ∃ es t, run (step (newClient dotted [] [] [])) (start newInfo) es = some t ∧
      t.reports = [⟨noAddress,leaseA,normalise leaseCfg⟩] ∧ t.pc = .waiting .renewing := by
  obtain ⟨-,-,t,hr,-,-,hreports,-,hp,-⟩ := lease_acquired (c := newClient dotted [] [] []) (s := start newInfo)
    (by decide) rfl rfl (Exchange.granted_lease _ newInfo (fit 4 [])) [⟨10^9,0⟩] [] ⟨0,10^6⟩ ⟨0,10^6⟩
    (by decide +kernel) 5 (2*second) (2*second) (by decide) (by decide) (by decide)
  exact ⟨_,t,hr,hreports,hp⟩

/-- The loop waits, and only a cancellation can end that. -/
def Stuck (c : Client) (s : Run) : Prop :=
  (∃ next, s.pc = .waiting next) ∧ ∀ es t, .cancel ∉ es → run (step c) s es = some t → t = s

lemma stuck_iff_timer {next : ClientState} (hp : s.pc = .waiting next) (hc : s.canceled = false) :
    Stuck c s ↔ ∀ due, s.timer ≠ .armed due := by
  constructor
  · intro h due hd
    have hstep : step c s (.fire 0) = some ({s with timer := .spent, now := 0}.transition next) := by
      simp only [step,hp,hd]
    have heq := h.2 [.fire 0] _ (by simp) (by rw [run,hstep]; rfl)
    have htimer := congrArg Run.timer heq
    rw [hd] at htimer
    revert htimer
    unfold Run.transition Run.cleanup
    split_ifs <;> intro htimer <;> cases htimer
  · intro h
    refine ⟨⟨next,hp⟩,?_⟩
    intro es t hes hr
    cases es with
    | nil =>
      cases hr
      rfl
    | cons e es =>
      obtain ⟨u,hu,-⟩ := Option.bind_eq_some_iff.mp hr
      exfalso
      cases step_inv hu with
      | fire _ ht => exact h _ ht
      | stop _ hcan =>
        rw [hc] at hcan
        cases hcan
      | cancel => simp at hes
      | attempt hp' | unexpected hp' | exchange hp' | acquired hp' | failed hp' | crashed hp' | reported hp'
      | invalid hp'
      | decide hp' =>
        rw [hp] at hp'
        cases hp'

lemma transition_ne_waiting (s : Run) (next n : ClientState) : (s.transition next).pc ≠ .waiting n := by
  unfold Run.transition Run.cleanup
  split_ifs <;> rintro ⟨⟩

lemma decided_waiting (now : ℤ) {next : ClientState} (wait : ℤ) (hw : ¬ (s.info.state ≠ next ∧ next ≠ .renewing)) :
    s.decided c now next wait = {s with
      timer := s.timer.set now (if s.info.state = next then c.backoff else wait)
      now := now
      pc := .waiting next} := by
  rw [Run.decided]
  exact if_neg hw

/-- There is nothing to wait for if a client that is not renewing its lease is late to do so. -/
lemma next_renewing_zero_iff {wait : ℤ} (hn : s.next now = some (.renewing,wait)) :
    wait = 0 ↔ s.renewTime ≤ now ∧ now < s.rebindTime ∧ now < s.leaseExpirationTime := by
  unfold Run.next at hn
  split_ifs at hn with hlease hrebind hrenew hs <;> cases hn <;> omega

lemma next_late (hrenew : s.renewTime ≤ now) (hrebind : now < s.rebindTime) (hlease : now < s.leaseExpirationTime) :
    s.next now = some (.renewing,0) := by
  rw [Run.next,if_neg (not_le.mpr hlease),if_neg (not_le.mpr hrebind),if_pos hrenew]

/-- A decision leaves the loop stuck if and only if the timer was received before, and the
client is not yet renewing a lease that has to be renewed by now. -/
theorem stuck_iff (hb : c.backoff ≠ 0) (hc : s.canceled = false)
    (ht : step c s (.decide now) = some t) :
    Stuck c t ↔ s.timer = .spent ∧ s.info.state ≠ .renewing ∧ s.renewTime ≤ now ∧ now < s.rebindTime ∧
      now < s.leaseExpirationTime := by
  cases step_inv ht with
  | invalid _ hn =>
    constructor
    · rintro ⟨⟨next,⟨⟩⟩,-⟩
    · rintro ⟨-,-,hrenew,hrebind,hlease⟩
      rw [next_late hrenew hrebind hlease] at hn
      cases hn
  | @decide _ next wait _ hn =>
    by_cases hw : s.info.state ≠ next ∧ next ≠ .renewing
    · have ht' : s.decided c now next wait =
          ({s with timer := s.timer.set now wait, now := now} : Run).transition next := by
        simp [Run.decided,hw,hc]
      constructor
      · rintro ⟨⟨n,hpc⟩,-⟩
        rw [ht'] at hpc
        exact absurd hpc (transition_ne_waiting _ _ _)
      · rintro ⟨-,-,hrenew,hrebind,hlease⟩
        rw [next_late hrenew hrebind hlease] at hn
        cases hn
        exact absurd rfl hw.2
    · have hwait := decided_waiting (c := c) now wait hw
      have htimer := stuck_iff_timer (c := c) (s := s.decided c now next wait)
        (by rw [hwait]) (by rw [hwait]; exact hc)
      rw [hwait] at htimer
      rw [hwait,htimer,Timer.set_not_armed_iff]
      by_cases hs : s.info.state = next
      · rw [if_pos hs]
        constructor
        · rintro ⟨-,hb'⟩
          exact absurd hb' hb
        · rintro ⟨-,hne,hrenew,hrebind,hlease⟩
          rw [next_late hrenew hrebind hlease] at hn
          cases hn
          exact absurd hs hne
      · have hnext : next = .renewing := by
          by_contra hne
          exact hw ⟨hs,hne⟩
        subst hnext
        rw [if_neg hs,next_renewing_zero_iff hn]
        simp [hs]

/-- An attempt in which nothing is lost and no time passes. -/
def grantEvents : List Event :=
  .attempt 0 (fit 4 [])::exchanged (List.replicate 6 0)
    (Exchange.heard [] [] 0 0 (leaseMsg .offer (fit 4 [])) (leaseMsg .ack (fit 4 [])))

/-- A lease that is acquired at once. -/
def leaseEvents : List Event := grantEvents ++ [.settle 0,.reported] ++ [.decide 0]

lemma run_leaseEvents : ∃ s, run (step (newClient dotted [] [] [])) (start newInfo) leaseEvents = some s ∧
    s.pc = .waiting .renewing ∧ s.timer = .armed s.renewTime ∧ s.canceled = false ∧
    s.info = Exchange.leasedInfo .bound ∧ Leased leaseCfg 0 s := by
  obtain ⟨x,hx,hphase,-,hinfo⟩ := Exchange.run_granted (c := newClient dotted [] [] []) (by decide) rfl
    (Exchange.granted_lease _ newInfo (fit 4 [])) [] [] 0 0
  obtain ⟨s,hs,hi,-,-,hp,-,hc,hl⟩ := run_bound (s := start newInfo) (List.replicate 6 0) 0 0 rfl (by decide)
    (Exchange.not_done_heard _ _ _ _ _ _) rfl hx hphase
  have hdecide := step_decide_early (c := newClient dotted [] [] []) 0 hp (by rw [hi]) (by rw [hl.renew]; decide)
    (by rw [hl.rebind]; decide) (by rw [hl.lease]; decide)
  let t : Run := {s with pc := .waiting .renewing, timer := .armed s.renewTime, now := 0}
  have ht : run (step (newClient dotted [] [] [])) s [.decide 0] = some t := by
    rw [run,hdecide]
    rfl
  refine ⟨t,run_trans hs ht,rfl,rfl,hc,?_,⟨hl.lease,hl.renew,hl.rebind⟩⟩
  change s.info = _
  rw [hi,hinfo]
  rfl

/-- It is renewed in time. -/
def renewalEvents : List Event :=
  .fire (1800*second)::(.attempt (1800*second) (fit 4 [])::exchanged (List.replicate 4 (1800*second))
    (Exchange.reheard [] 0 (leaseMsg .ack (fit 4 []))) ++ [.settle (1800*second),.reported])

lemma run_renewed_lease :
    ∃ s, run (step (newClient dotted [] [] [])) (start newInfo) (leaseEvents ++ renewalEvents) = some s ∧
      s.pc = .deciding ∧ s.timer = .spent ∧ s.canceled = false ∧ s.info = Exchange.leasedInfo .bound ∧
      Leased leaseCfg (1800*second) s := by
  obtain ⟨u,hu,hup,hut,huc,hui,-⟩ := run_leaseEvents
  let v : Run := {u with
    info := {u.info with state := .renewing}
    stored := {u.info with state := .renewing}
    pc := .acquiring
    timer := .spent
    now := 1800*second}
  have hfire : run (step (newClient dotted [] [] [])) u [.fire (1800*second)] = some v := by
    simp [run,step,hup,hut,Run.transition,v]
  have hvi : v.info = Exchange.leasedInfo .renewing := by
    change ({u.info with state := .renewing} : Info) = _
    rw [hui]
    rfl
  have hstate : v.info.state = .renewing ∨ v.info.state = .rebinding := .inl rfl
  obtain ⟨y,hy,hyphase,-,hyinfo⟩ := Exchange.run_renewed (c := newClient dotted [] [] []) (by decide) hstate
    (Exchange.answer_lease (.inr rfl) (fit 4 [])) (by rw [hvi]; rfl) [] 0
  obtain ⟨w,hw,hwi,-,-,hwp,hwt,hwc,hwl⟩ := run_bound (s := v) (List.replicate 4 (1800*second)) (1800*second)
    (1800*second) rfl (by rw [hvi]; decide) (Exchange.not_done_reheard _ _ _) rfl hy hyphase
  refine ⟨w,run_trans hu (run_trans hfire hw),hwp,hwt,hwc.trans huc,?_,hwl⟩
  rw [hwi,hyinfo,hvi]
  rfl

/-- The callback takes so long that the lease has to be renewed again when it returns. -/
theorem stuck_iff_late :
    ∃ es t, run (step (newClient dotted [] [] [])) (start newInfo) es = some t ∧ t.info.oldAddr = leaseA ∧
      Stuck (newClient dotted [] [] []) t := by
  obtain ⟨s,hr,hp,hpt,hc,hi,hl⟩ := run_renewed_lease
  have hrenew : s.renewTime ≤ 3600*second := by rw [hl.renew]; decide
  have hrebind : 3600*second < s.rebindTime := by rw [hl.rebind]; decide
  have hlease : 3600*second < s.leaseExpirationTime := by rw [hl.lease]; decide
  have hdecide : step (newClient dotted [] [] []) s (.decide (3600*second)) =
      some (s.decided (newClient dotted [] [] []) (3600*second) .renewing 0) := by
    simp only [step,hp,next_late hrenew hrebind hlease]
  refine ⟨leaseEvents ++ renewalEvents ++ [.decide (3600*second)],
    s.decided (newClient dotted [] [] []) (3600*second) .renewing 0,?_,?_,?_⟩
  · exact run_trans hr (by rw [run,hdecide]; rfl)
  · rw [decided_waiting _ _ (by simp)]
    change s.info.oldAddr = leaseA
    rw [hi]
    rfl
  · apply (stuck_iff (by decide) hc hdecide).mpr
    exact ⟨hpt,by rw [hi]; decide,hrenew,hrebind,hlease⟩

end Decisions

end Run

end ArmoredWitness.Dhcp
