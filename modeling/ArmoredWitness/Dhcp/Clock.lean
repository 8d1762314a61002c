import ArmoredWitness.Dhcp.Reports

/-! The loop compares the clock with the times of the lease and panics if it renews one too
early. It never does where the clock does not go back and the timer is not early, and the
network stack does what the client expects of it. -/
namespace ArmoredWitness.Dhcp
open Lib Lib.Transition Net

def Phase.crashed : Phase → Bool
  | .panicked _ => true
  | _ => false

namespace Exchange

/-- What the network stack does if the client uses it in the right way. -/
def Event.calm : Event → Bool
  | .opened .addressRefused | .wrote .wouldBlock _ | .removed false => false
  | _ => true

/-- No reply makes an exchange panic. -/
lemma step_calm {c : Client} {s t : Exchange} {e : Event} (hc : c.retransmission ≠ 0) (hs : s.info.state ≠ .bound)
    (he : e.calm = true) (ht : step c s e = some t) : t.phase.crashed = false := by
  cases step_inv ht with
  | unknown _ hb => exact absurd hb hs
  | opened => rfl
  | refused => cases he
  | unopened => rfl
  | wrote hp hsend =>
    cases hsend with
    | ok => rfl
    | divide hd =>
      rw [exponentialBackoff,if_neg hc] at hd
      cases hd
    | blocked => cases he
    | failed => rfl
  | foreign hp =>
    rw [hp]
    rfl
  | malformed => rfl
  | reply hp _ hrep =>
    cases hrep with
    | otherOffer | otherAck =>
      rw [count_phase,hp]
      rfl
    | badOffer | offer | badAck | addrAck | ack | nak | emptyNak => rfl
  | readFails | done | timeout => rfl
  | stuck => cases he
  | returned => rfl

end Exchange

namespace Run
variable {c : Client} {s t : Run}

/-- A reading of the clock is not before the last one, and a timer is not early. -/
def Punctual (s : Run) : Event → Prop
  | .attempt now _ | .settle now | .decide now => s.now ≤ now
  | .exchange now e => s.now ≤ now ∧ e.calm = true
  | .fire now => s.now ≤ now ∧ ∀ due, s.timer = .armed due → due ≤ now
  | .reported | .stop | .cancel => True

/-- The time of a state has come. -/
def Reached (s : Run) (now : ℤ) : ClientState → Prop
  | .initSelecting => s.leaseExpirationTime ≤ now
  | .renewing => s.renewTime ≤ now
  | .rebinding => s.rebindTime ≤ now
  | .bound => True

lemma Reached.mono {now now' : ℤ} {state : ClientState} (h : s.Reached now state) (hn : now ≤ now') :
    s.Reached now' state := by
  cases state with
  | bound => trivial
  | initSelecting | renewing | rebinding => exact le_trans h hn

/-- The state that comes next is due, unless the client waits for the renewal. -/
lemma next_reached {now wait : ℤ} {next : ClientState} (hn : s.next now = some (next,wait)) :
    s.Reached now next ∨ next = .renewing ∧ wait = s.renewTime-now ∧ now < s.renewTime := by
  unfold Run.next at hn
  split_ifs at hn with hlease hrebind hrenew hs <;> cases hn
  · exact .inl hlease
  · exact .inl hrebind
  · exact .inl hrenew
  · exact .inr ⟨rfl,rfl,not_le.mp hrenew⟩

structure ClockInv (s : Run) : Prop where
  state : s.pc.steady = true → s.Reached s.now s.info.state
  waiting : ∀ next, s.pc = .waiting next →
    s.Reached s.now next ∨ ∃ due, s.timer = .armed due ∧ s.Reached due next
  expired : s.pc = .reporting .expired → s.leaseExpirationTime ≤ s.now
  calm : ∀ x d, s.pc = .exchanging x d → x.phase.crashed = false
  running : ∀ why, s.pc ≠ .panicked why

section Parts
variable {u : Run}

/-- A step to a place where nothing depends on the clock. -/
lemma clockInv_of (hst : s.pc.steady = false) (hexp : s.pc ≠ .reporting .expired)
    (hrun : ∀ why, s.pc ≠ .panicked why) :
    ClockInv s where
  state h := by
    rw [hst] at h
    cases h
  waiting next h := by
    rw [h] at hst
    cases hst
  expired h := absurd h hexp
  calm x d h := by
    rw [h] at hst
    cases hst
  running := hrun

lemma clockInv_stopped : ClockInv (u.cleanup .stopped) := by
  unfold Run.cleanup
  split <;> exact clockInv_of rfl (by rintro ⟨⟩) (by rintro _ ⟨⟩)

/-- A step to a place at the top of the loop, or to a decision. -/
lemma clockInv_top (hp : u.pc = .acquiring ∨ u.pc = .deciding) (h : u.Reached u.now u.info.state) : ClockInv u := by
  refine ⟨fun _ => h,?_,?_,?_,?_⟩
  · intro next hp'
    rcases hp with hp | hp <;> rw [hp] at hp' <;> cases hp'
  · intro hp'
    rcases hp with hp | hp <;> rw [hp] at hp' <;> cases hp'
  · intro x d hp'
    rcases hp with hp | hp <;> rw [hp] at hp' <;> cases hp'
  · intro why hp'
    rcases hp with hp | hp <;> rw [hp] at hp' <;> cases hp'

lemma clockInv_expired (h : u.leaseExpirationTime ≤ u.now) : ClockInv (u.cleanup .expired) := by
  unfold Run.cleanup
  split
  · exact clockInv_top (.inl rfl) h
  · exact ⟨(by rintro ⟨⟩),(by rintro _ ⟨⟩),fun _ => h,(by rintro _ _ ⟨⟩),(by rintro _ ⟨⟩)⟩

lemma clockInv_transition {next : ClientState} (h : u.Reached u.now next) : ClockInv (u.transition next) := by
  unfold Run.transition
  split
  · rename_i hi
    rw [hi.2] at h
    exact clockInv_expired h
  · exact clockInv_top (.inl rfl) h

end Parts

lemma ClockInv.resume (h : ClockInv s) {k : After} (hp : s.pc = .reporting k) : ClockInv (s.resume k) := by
  cases k with
  | bound => exact clockInv_top (.inr rfl) trivial
  | expired => exact clockInv_top (.inl rfl) (h.expired hp)
  | stopped => exact clockInv_of rfl (by rintro ⟨⟩) (by rintro _ ⟨⟩)

lemma ClockInv.decided (h : ClockInv s) (hp : s.pc = .deciding) {now wait : ℤ} {next : ClientState}
    (hle : s.now ≤ now)
    (hn : s.next now = some (next,wait)) : ClockInv (s.decided c now next wait) := by
  have hreached := next_reached hn
  by_cases hw : s.info.state ≠ next ∧ next ≠ .renewing
  · have hnext : s.Reached now next := hreached.resolve_right fun hr => hw.2 hr.1
    rw [Run.decided]
    dsimp only
    rw [if_pos hw]
    split
    · exact clockInv_stopped
    · exact clockInv_transition hnext
  · rw [decided_waiting _ _ hw]
    refine ⟨fun _ => (h.state (by rw [hp]; rfl)).mono hle,?_,(by rintro ⟨⟩),(by rintro _ _ ⟨⟩),(by rintro _ ⟨⟩)⟩
    rintro next' ⟨⟩
    cases hreached with
    | inl hr => exact .inl hr
    | inr hr =>
      obtain ⟨rfl,rfl,hlt⟩ := hr
      have hne : s.info.state ≠ .renewing := by
        intro hs
        have hstate := (h.state (by rw [hp]; rfl)).mono hle
        rw [hs] at hstate
        exact absurd hstate (not_le.mpr hlt)
      refine .inr ⟨s.renewTime,?_,le_refl _⟩
      change s.timer.set now _ = _
      rw [if_neg hne,Timer.set_of_ne (by omega),add_sub_cancel]

lemma ClockInv.failed (h : ClockInv s) (ha : AddrInv s) {x : Exchange} {d now : ℤ} (hp : s.pc = .exchanging x d)
    (hle : s.now ≤ now) (ks : List Counter) : ClockInv (({s with stats := ks} : Run).failed x.info now) := by
  obtain ⟨xid,hk⟩ := ha.kept x d hp
  unfold Run.failed
  dsimp only
  split
  · exact clockInv_stopped
  · refine clockInv_top (.inr rfl) ?_
    have hstate := (h.state (by rw [hp]; rfl)).mono hle
    rw [← hk.state] at hstate
    exact hstate

lemma ClockInv.step (hc : c.retransmission ≠ 0) (h : ClockInv s) (ha : AddrInv s) {e : Event} (hpun : Punctual s e)
    (ht : step c s e = some t) : ClockInv t := by
  cases step_inv ht with
  | attempt hp hk =>
    refine ⟨fun _ => (h.state (by rw [hp]; rfl)).mono hpun,(by rintro _ ⟨⟩),(by rintro ⟨⟩),?_,(by rintro _ ⟨⟩)⟩
    rintro x d ⟨⟩
    rfl
  | unexpected hp hb => exact absurd hb (ha.attempt (.inr hp))
  | @exchange now e x x' d hp hx hd =>
    refine ⟨fun _ => (h.state (by rw [hp]; rfl)).mono hpun.1,(by rintro _ ⟨⟩),(by rintro ⟨⟩),?_,(by rintro _ ⟨⟩)⟩
    rintro y d' ⟨⟩
    obtain ⟨xid,hk⟩ := ha.kept x d hp
    refine Exchange.step_calm hc ?_ hpun.2 hx
    rw [hk.state]
    exact ha.attempt (.inl ⟨x,d,hp⟩)
  | acquired hp hx => exact clockInv_of rfl (by rintro ⟨⟩) (by rintro _ ⟨⟩)
  | failed hp hx => exact h.failed ha hp hpun _
  | crashed hp hx =>
    have hcalm := h.calm _ _ hp
    rw [hx] at hcalm
    cases hcalm
  | reported hp => exact h.resume hp
  | @invalid now hp hn =>
    have hstate := (h.state (by rw [hp]; rfl)).mono hpun
    unfold Run.next at hn
    split_ifs at hn with hlease hrebind hrenew hs
    rcases hs with hs | hs <;> rw [hs] at hstate
    · exact absurd hstate hrenew
    · exact absurd hstate hrebind
  | decide hp hn => exact h.decided hp hpun hn
  | @fire now next due hp htimer =>
    apply clockInv_transition
    cases h.waiting next hp with
    | inl hr => exact hr.mono hpun.1
    | inr hr =>
      obtain ⟨due',hdue,hr⟩ := hr
      exact hr.mono (hpun.2 due' hdue)
  | stop => exact clockInv_stopped
  | cancel => exact ⟨h.state,h.waiting,h.expired,h.calm,h.running⟩

/-- What happens while the clock stands still, other than the timer. -/
def Event.Still (now : ℤ) : Event → Prop
  | .attempt n _ | .settle n | .decide n => n = now
  | .exchange n e => n = now ∧ e.calm = true
  | .fire _ => False
  | .reported | .stop | .cancel => True

lemma now_resume (s : Run) (k : After) : (s.resume k).now = s.now := by
  cases k <;> rfl

lemma now_cleanup (s : Run) (k : After) : (s.cleanup k).now = s.now := by
  unfold Run.cleanup
  split
  · exact now_resume s k
  · rfl

lemma now_transition (s : Run) (next : ClientState) : (s.transition next).now = s.now := by
  unfold Run.transition
  split
  · exact now_cleanup s _
  · rfl

lemma now_step {now : ℤ} {e : Event} (he : e.Still now) (ht : step c s e = some t) :
    t.now = s.now ∨ t.now = now := by
  cases step_inv ht with
  | attempt => exact .inr he
  | unexpected => exact .inl rfl
  | exchange => exact .inr he.1
  | acquired => exact .inr he
  | failed =>
    unfold Run.failed
    dsimp only
    split
    · rw [now_cleanup]
      exact .inr he
    · exact .inr he
  | crashed => exact .inl rfl
  | reported => exact .inl (now_resume s _)
  | invalid => exact .inl rfl
  | decide =>
    unfold Run.decided
    dsimp only
    split
    · split
      · rw [now_cleanup]
        exact .inr he
      · rw [now_transition]
        exact .inr he
    · exact .inr he
  | fire => cases he
  | stop => exact .inl (now_cleanup s _)
  | cancel => exact .inl rfl

lemma punctual_still {now : ℤ} {e : Event} (hs : s.now ≤ now) (he : e.Still now) : Punctual s e := by
  cases e with
  | attempt | settle | decide => exact hs.trans_eq he.symm
  | exchange => exact ⟨hs.trans_eq he.1.symm,he.2⟩
  | fire => cases he
  | reported | stop | cancel => trivial

lemma now_step_le {now : ℤ} {e : Event} (hs : s.now ≤ now) (he : e.Still now) (ht : step c s e = some t) :
    t.now ≤ now := by
  rcases now_step he ht with h | h
  · exact h ▸ hs
  · exact h.le

lemma along_still {now : ℤ} {es : List Event} (hs : s.now ≤ now) (hes : ∀ e ∈ es, e.Still now) :
    Along (Run.step c) Punctual s es ∧ ∀ t, run (Run.step c) s es = some t → t.now ≤ now :=
  along_of (I := fun s => s.now ≤ now) (Q := fun e => e.Still now) (fun _ _ hs he => punctual_still hs he)
    (fun _ _ _ hs he ht => now_step_le hs he ht) hs hes

lemma along_leaseEvents : Along (Run.step (newClient dotted [] [] [])) Punctual (start newInfo) leaseEvents ∧
    ∀ t, run (Run.step (newClient dotted [] [] [])) (start newInfo) leaseEvents = some t → t.now ≤ 0 := by
  apply along_still (le_refl (0 : ℤ))
  simp [leaseEvents,grantEvents,exchanged,Exchange.heard,Exchange.lost,Event.Still,Exchange.Event.calm]

/-- The loop goes on without the timer. -/
def looping (s : Run) : Bool :=
  match s.pc with
  | .acquiring | .exchanging _ _ | .deciding | .reporting .bound | .reporting .expired => true
  | _ => false

/-- A timer that was not waited for is over, and what is waited for is not far away. -/
structure AlarmInv (c : Client) (s : Run) : Prop where
  stale : s.looping = true → ∀ due, s.timer = .armed due → due ≤ s.now
  deadline : ∀ x d, s.pc = .exchanging x d → s.info.state ≠ .initSelecting →
    d ≤ max s.rebindTime s.leaseExpirationTime
  alarm : ∀ next due, s.pc = .waiting next → s.info.state ≠ .initSelecting → s.timer = .armed due →
    due ≤ max s.renewTime (s.leaseExpirationTime+c.backoff)

section Parts
variable {u : Run}

/-- A step to a place where the loop is neither in an exchange nor waits. -/
lemma alarmInv_of (hex : ∀ x d, u.pc ≠ .exchanging x d) (hwait : ∀ next, u.pc ≠ .waiting next)
    (h : u.looping = true → ∀ due, u.timer = .armed due → due ≤ u.now) : AlarmInv c u :=
  ⟨h,fun x d hp => absurd hp (hex x d),fun next _ hp => absurd hp (hwait next)⟩

lemma alarmInv_cleanup {k : After} (h : ∀ due, u.timer = .armed due → due ≤ u.now) : AlarmInv c (u.cleanup k) := by
  unfold Run.cleanup
  split
  · cases k with
    | bound | expired | stopped => exact alarmInv_of (by rintro _ _ ⟨⟩) (by rintro _ ⟨⟩) (fun _ => h)
  · exact alarmInv_of (by rintro _ _ ⟨⟩) (by rintro _ ⟨⟩) (fun _ => h)

lemma alarmInv_stopped : AlarmInv c (u.cleanup .stopped) := by
  unfold Run.cleanup
  split <;> exact alarmInv_of (by rintro _ _ ⟨⟩) (by rintro _ ⟨⟩) (by rintro ⟨⟩)

lemma alarmInv_transition {next : ClientState} (h : ∀ due, u.timer = .armed due → due ≤ u.now) :
    AlarmInv c (u.transition next) := by
  unfold Run.transition
  split
  · exact alarmInv_cleanup h
  · exact alarmInv_of (by rintro _ _ ⟨⟩) (by rintro _ ⟨⟩) (fun _ => h)

end Parts

/-- An attempt does not last beyond the time of the next state. -/
lemma deadline_le {now : ℤ} (hb : s.info.state ≠ .bound) (hi : s.info.state ≠ .initSelecting) :
    now+s.acquisitionTimeout c now ≤ max s.rebindTime s.leaseExpirationTime := by
  unfold acquisitionTimeout
  split
  · have hmin := min_le_right c.acquisition (s.rebindTime-now)
    exact le_max_of_le_left (by omega)
  · have hmin := min_le_right c.acquisition (s.leaseExpirationTime-now)
    exact le_max_of_le_right (by omega)
  · rename_i hren hreb
    cases hs : s.info.state with
    | initSelecting => exact absurd hs hi
    | bound => exact absurd hs hb
    | renewing => exact absurd hs hren
    | rebinding => exact absurd hs hreb

lemma next_lt_lease {now wait : ℤ} {next : ClientState} (hn : s.next now = some (next,wait))
    (hi : next ≠ .initSelecting) : now < s.leaseExpirationTime := by
  unfold Run.next at hn
  split_ifs at hn with hlease hrebind hrenew hs <;> cases hn
  · exact absurd rfl hi
  · exact not_le.mp hlease
  · exact not_le.mp hlease
  · exact not_le.mp hlease

lemma next_wait {now wait : ℤ} {next : ClientState} (hn : s.next now = some (next,wait)) :
    wait = 0 ∨ next = .renewing ∧ wait = s.renewTime-now := by
  unfold Run.next at hn
  split_ifs at hn with hlease hrebind hrenew hs <;> cases hn
  · exact .inl rfl
  · exact .inl rfl
  · exact .inl rfl
  · exact .inr ⟨rfl,rfl⟩

lemma AlarmInv.decided (hb : 0 < c.backoff) (h : AlarmInv c s) (hp : s.pc = .deciding) {now wait : ℤ}
    {next : ClientState} (hle : s.now ≤ now) (hn : s.next now = some (next,wait)) :
    AlarmInv c (s.decided c now next wait) := by
  have hstale : ∀ due, s.timer = .armed due → due ≤ now :=
    fun due hdue => (h.stale (by rw [looping,hp]) due hdue).trans hle
  by_cases hw : s.info.state ≠ next ∧ next ≠ .renewing
  · rw [Run.decided]
    dsimp only
    rw [if_pos hw]
    split
    · exact alarmInv_stopped
    · apply alarmInv_transition
      intro due hdue
      have hzero : wait = 0 := (next_wait hn).resolve_right fun hr => hw.2 hr.1
      rw [if_neg hw.1,hzero] at hdue
      cases Timer.armed_of_set hdue with
      | inl hd => exact le_of_eq (hd.trans (add_zero now))
      | inr hd => exact hstale due hd.2
  · rw [decided_waiting _ _ hw]
    refine ⟨(by rintro ⟨⟩),(by rintro _ _ ⟨⟩),?_⟩
    rintro next' due ⟨⟩ hi hdue
    change due ≤ max s.renewTime (s.leaseExpirationTime+c.backoff)
    have hset := Timer.armed_of_set hdue
    by_cases hs : s.info.state = next
    · have hlt := next_lt_lease hn (hs ▸ hi)
      rw [if_pos hs] at hset
      refine le_max_of_le_right ?_
      rcases hset with hd | ⟨hd,-⟩ <;> omega
    · have hnext : next = .renewing := by
        by_contra hne
        exact hw ⟨hs,hne⟩
      have hlt := next_lt_lease hn (by rw [hnext]; decide)
      rw [if_neg hs] at hset
      cases next_wait hn with
      | inl hzero =>
        refine le_max_of_le_right ?_
        rcases hset with hd | ⟨-,hd⟩
        · omega
        · have hd' := hstale due hd
          omega
      | inr hwait =>
        refine le_max_of_le_left ?_
        rcases hset with hd | ⟨hd,hd'⟩
        · omega
        · have hd'' := hstale due hd'
          omega

lemma AlarmInv.step (hb : 0 < c.backoff) (h : AlarmInv c s) (ha : AddrInv s) {e : Event} (hpun : Punctual s e)
    (ht : step c s e = some t) : AlarmInv c t := by
  cases step_inv ht with
  | @attempt now xid k hp hk =>
    refine ⟨fun _ due hdue => (h.stale (by rw [looping,hp]) due hdue).trans hpun,?_,(by rintro _ _ ⟨⟩)⟩
    rintro x d ⟨⟩ hi
    exact deadline_le (ha.attempt (.inr hp)) hi
  | unexpected hp => exact alarmInv_of (by rintro _ _ ⟨⟩) (by rintro _ ⟨⟩) (by rintro ⟨⟩)
  | @exchange now e x x' d hp hx hd =>
    refine ⟨fun _ due hdue => (h.stale (by rw [looping,hp]) due hdue).trans hpun.1,?_,(by rintro _ _ ⟨⟩)⟩
    rintro y d' ⟨⟩ hi
    exact h.deadline x d hp hi
  | acquired hp =>
    exact alarmInv_of (by rintro _ _ ⟨⟩) (by rintro _ ⟨⟩)
      (fun _ due hdue => (h.stale (by rw [looping,hp]) due hdue).trans hpun)
  | @failed now x d e hp hx =>
    unfold Run.failed
    dsimp only
    split
    · exact alarmInv_stopped
    · exact alarmInv_of (by rintro _ _ ⟨⟩) (by rintro _ ⟨⟩)
        (fun _ due hdue => (h.stale (by rw [looping,hp]) due hdue).trans hpun)
  | crashed hp => exact alarmInv_of (by rintro _ _ ⟨⟩) (by rintro _ ⟨⟩) (by rintro ⟨⟩)
  | @reported k hp =>
    cases k with
    | bound | expired =>
      exact alarmInv_of (by rintro _ _ ⟨⟩) (by rintro _ ⟨⟩) (fun _ => h.stale (by rw [looping,hp]))
    | stopped => exact alarmInv_of (by rintro _ _ ⟨⟩) (by rintro _ ⟨⟩) (by rintro ⟨⟩)
  | invalid => exact alarmInv_of (by rintro _ _ ⟨⟩) (by rintro _ ⟨⟩) (by rintro ⟨⟩)
  | decide hp hn => exact h.decided hb hp hpun hn
  | fire hp htimer => exact alarmInv_transition (by rintro _ ⟨⟩)
  | stop => exact alarmInv_stopped
  | cancel => exact ⟨h.stale,h.deadline,h.alarm⟩

/-- The moment at which the loop goes on at the latest, if it is in an exchange or waits. -/
def horizon (s : Run) : Option ℤ :=
  match s.pc, s.timer with
  | .exchanging _ d, _ => some d
  | .waiting _, .armed due => some due
  | _, _ => none

/-- The loop is in an exchange, or waits. -/
def Busy (s : Run) : Prop := (∃ x d, s.pc = .exchanging x d) ∨ ∃ next, s.pc = .waiting next

/-- A loop that is busy for an unknown time is stuck, unless it has been cancelled. -/
lemma stuck_of_horizon (hbusy : s.Busy) (hm : s.horizon = none) (hc : s.canceled = false) : Stuck c s := by
  rcases hbusy with ⟨x,d,hp⟩ | ⟨next,hp⟩
  · simp only [horizon,hp] at hm
    cases hm
  · apply (stuck_iff_timer hp hc).mpr
    intro due hdue
    simp only [horizon,hp,hdue] at hm
    cases hm

/-- In a run with such a clock an address is not held for long after its lease is over, unless
the loop is stuck: what it is doing ends at the last of the times of the lease, or at its end
and the pause before a retry. -/
theorem horizon_le (hb : 0 < c.backoff) {stored : Info} (hs : stored.oldAddr = noAddress) {es : List Event}
    (hA : Along (Run.step c) Punctual (start stored) es) (hr : run (Run.step c) (start stored) es = some s)
    (hheld : s.info.oldAddr ≠ noAddress) (hbusy : s.Busy) :
    (∃ m, s.horizon = some m ∧ m ≤ max (max s.renewTime s.rebindTime) (s.leaseExpirationTime+c.backoff)) ∨
    s.horizon = none ∧ (s.canceled = false → Stuck c s) := by
  have hinv : AddrInv s ∧ AlarmInv c s := by
    refine run_keeps (I := fun s => AddrInv s ∧ AlarmInv c s) ?_ ?_ hA hr
    · intro s e t hi hp ht
      exact ⟨hi.1.step ht,hi.2.step hb hi.1 hp ht⟩
    · exact ⟨addrInv_start hs,alarmInv_of (by rintro _ _ ⟨⟩) (by rintro _ ⟨⟩) (by rintro _ _ ⟨⟩)⟩
  have hlease : s.pc.steady = true → s.info.state ≠ .initSelecting :=
    fun hst => ((hinv.1.settled hst).resolve_left hheld).1
  cases hm : s.horizon with
  | none => exact .inr ⟨rfl,stuck_of_horizon hbusy hm⟩
  | some m =>
    refine .inl ⟨m,rfl,?_⟩
    unfold horizon at hm
    split at hm
    · rename_i x d hp
      cases hm
      have hd := hinv.2.deadline x m hp (hlease (by rw [hp]; rfl))
      omega
    · rename_i next due hp htimer
      cases hm
      have hd := hinv.2.alarm next m hp (hlease (by rw [hp]; rfl)) htimer
      omega
    · cases hm

theorem horizon_le_leased :
    ∃ es s m, run (Run.step (newClient dotted [] [] [])) (start newInfo) es = some s ∧ s.info.oldAddr = leaseA ∧
      s.horizon = some m ∧ m ≤ max (max s.renewTime s.rebindTime) (s.leaseExpirationTime+second) := by
  obtain ⟨s,hr,hp,ht,-,hi,-⟩ := run_leaseEvents
  have hm : s.horizon = some s.renewTime := by
    simp only [horizon,hp,ht]
  have hheld : s.info.oldAddr ≠ noAddress := by
    rw [hi]
    decide
  refine ⟨_,s,_,hr,by rw [hi]; rfl,hm,?_⟩
  rcases horizon_le (by decide) rfl along_leaseEvents.1 hr hheld (.inr ⟨_,hp⟩) with ⟨m,hm',hle⟩ | ⟨hno,-⟩
  · cases hm.symm.trans hm'
    exact hle
  · cases hm.symm.trans hno

end Run

end ArmoredWitness.Dhcp
