import ArmoredWitness.Net.Lease

/-! `runWithNetworking` is the f of `runDHCP`: it looks up the address of the stack, waits
until `runNTP` has set the clock, starts the update checker and the listeners, and runs the
witness. The loop around it calls it again whatever it returns, unless that is
`context.Canceled`.

The steps of the loop and those of the goroutines of `runNTP` are taken in any order. What
comes from outside is an argument of the step: whether an NTP server is configured, whether
the context is done, and the address the stack has. -/
namespace ArmoredWitness.Applet
open Net

/-- The first moment of 2024, in nanoseconds. -/
def year2024 : ℤ := 1704067200*1000000000

/-- Where a goroutine of `runNTP` is: at its select, at its queries, or over. -/
inductive NtpStage
  | waiting
  | querying
  | ended
  | panicked
  deriving DecidableEq

structure Ntp where
  stage : NtpStage
  /-- The seconds between two queries. -/
  interval : ℕ
  /-- Whether the goroutine still has the channel; it sets r to nil when it has closed it. -/
  r : Bool
  closed : Bool
  deriving DecidableEq

namespace Ntp

/-- A new goroutine, and its channel. -/
def start : Ntp := ⟨.waiting,10,true,false⟩

/-- A query has set the clock. The first one also closes the channel. -/
def succeed (g : Ntp) : Ntp :=
  if g.r then
    -- the channel must not be closed a second time
    if g.closed then {g with stage := .panicked}
    else ⟨.waiting,3600,false,true⟩
  else {g with stage := .waiting, interval := 3600}

/-- The channel is closed when the goroutine has let go of it, and not before. -/
structure Fits (g : Ntp) : Prop where
  closed : g.closed = !g.r
  interval : g.interval = if g.r then 10 else 3600
  running : g.stage ≠ .panicked

lemma fits_start : start.Fits := ⟨rfl,rfl,by simp [start]⟩

lemma Fits.succeed {g : Ntp} (h : g.Fits) : g.succeed.Fits ∧
    g.succeed.closed = true ∧ g.succeed.stage = .waiting := by
  have hclosed := h.closed
  unfold Ntp.succeed
  cases hr : g.r with
  | true =>
    rw [hr] at hclosed
    rw [if_pos rfl,hclosed]
    exact ⟨⟨rfl,rfl,by simp⟩,rfl,rfl⟩
  | false =>
    rw [hr] at hclosed
    rw [if_neg (by simp)]
    exact ⟨⟨hclosed,rfl,by simp⟩,hclosed,rfl⟩

lemma Fits.moved {g : Ntp} (h : g.Fits) {stage : NtpStage} (hs : stage ≠ .panicked) :
    ({g with stage := stage} : Ntp).Fits :=
  ⟨h.closed,h.interval,hs⟩

end Ntp

/-- What a call has found out: the address of the stack, the clock when it began, and the
channel that `runNTP` gave it, which is nil without a server. -/
structure Call where
  addr : AddressWithPrefix
  time : ℤ
  ntp : Option ℕ
  deriving DecidableEq

def Call.coldStart (c : Call) : Bool := c.time < year2024

inductive FError
  | noNetwork
  | canceled
  | adminListener
  | httpListener
  | omniwitness
  deriving DecidableEq

/-- Where the loop is: about to call f, in it, or over. In f it waits for the clock, sleeps
after a cold start, opens the two listeners, runs the witness, or returns. -/
inductive FPc
  | calling
  | waiting (call : Call)
  | sleeping
  | admin (call : Call)
  | http (call : Call)
  | serving (call : Call)
  | returning (err : Option FError)
  | ended
  deriving DecidableEq

/-- The call that f is in, once it has an address. -/
def FPc.call? : FPc → Option Call
  | .waiting call | .admin call | .http call | .serving call => some call
  | .calling | .sleeping | .returning _ | .ended => none

/-- The clock has been set since the call began. -/
def FPc.synced : FPc → Bool
  | .admin _ | .http _ | .serving _ => true
  | .calling | .waiting _ | .sleeping | .returning _ | .ended => false

/-- What the call that f is in has yet to count: an update checker, and the witness. -/
def FPc.uncounted : FPc → ℕ × ℕ
  | .waiting _ => (1,0)
  | .admin _ | .http _ => (0,1)
  | .calling | .sleeping | .serving _ | .returning _ | .ended => (0,0)

lemma FPc.uncounted_of_call? {pc : FPc} (h : pc.call? = none) : pc.uncounted = (0,0) := by
  cases pc with
  | waiting | admin | http | serving => cases h
  | calling | sleeping | returning | ended => rfl

/-- A goroutine that runs f, with what its calls have left behind under its context: the
goroutines of `runNTP`, and the update checkers. -/
structure Child where
  pc : FPc
  ntps : List Ntp
  checkers : ℕ
  /-- The calls that found an address. -/
  calls : ℕ
  /-- `counterWitnessStarted`. -/
  started : ℕ
  /-- The time that was set last. -/
  clock : Option ℤ
  deriving DecidableEq

namespace Child

inductive Event
  | call (now : ℤ)
  | ntpFires (k : ℕ)
  | ntpStops (k : ℕ)
  | ntpAnswers (k : ℕ) (time : Option ℤ)
  | recvTime
  | recvDone
  | wake
  | admin (ok : Bool)
  | http (ok : Bool)
  | witness (failed : Bool)
  | again
  deriving DecidableEq

def start : Child := ⟨.calling,[],0,0,0,none⟩

/-- `runNTP`: without a server it returns a nil channel. -/
def runNTP (server : Bool) (s : Child) : Option ℕ × List Ntp :=
  if server then (some s.ntps.length,s.ntps ++ [Ntp.start]) else (none,s.ntps)

/-- The channel that the call waits on can be received from; a nil channel never can. -/
def signalled (s : Child) (call : Call) : Bool :=
  match call.ntp with
  | none => false
  | some k => ((s.ntps[k]?).map Ntp.closed).getD false

def step (server done : Bool) (nic : Option AddressWithPrefix) (s : Child) : Event → Option Child
  | .call now =>
    match s.pc, nic with
    | .calling, none => some {s with pc := .returning (some .noNetwork)}
    | .calling, some addr =>
      some {s with
        pc := .waiting ⟨addr,now,(s.runNTP server).1⟩
        ntps := (s.runNTP server).2
        calls := s.calls+1}
    | _, _ => none
  | .ntpFires k =>
    match s.ntps[k]? with
    | some ⟨.waiting,i,r,c⟩ => some {s with ntps := s.ntps.set k ⟨.querying,i,r,c⟩}
    | _ => none
  | .ntpStops k =>
    match s.ntps[k]?, done with
    | some ⟨.waiting,i,r,c⟩, true => some {s with ntps := s.ntps.set k ⟨.ended,i,r,c⟩}
    | _, _ => none
  | .ntpAnswers k time =>
    match s.ntps[k]?, time with
    -- a query that fails is only logged
    | some ⟨.querying,i,r,c⟩, none => some {s with ntps := s.ntps.set k ⟨.waiting,i,r,c⟩}
    | some ⟨.querying,i,r,c⟩, some t =>
      some {s with ntps := s.ntps.set k (Ntp.succeed ⟨.querying,i,r,c⟩), clock := some t}
    | _, _ => none
  | .recvTime =>
    match s.pc with
    | .waiting call =>
      if s.signalled call then
        if call.coldStart then some {s with pc := .sleeping}
        else some {s with pc := .admin call, checkers := s.checkers+1}
      else none
    | _ => none
  | .recvDone =>
    match s.pc, done with
    | .waiting _, true => some {s with pc := .returning (some .canceled)}
    | _, _ => none
  | .wake =>
    match s.pc with
    | .sleeping => some {s with pc := .returning none}
    | _ => none
  | .admin ok =>
    match s.pc with
    | .admin call => some {s with pc := if ok then .http call else .returning (some .adminListener)}
    | _ => none
  | .http ok =>
    match s.pc with
    | .http call =>
      if ok then some {s with pc := .serving call, started := s.started+1}
      else some {s with pc := .returning (some .httpListener)}
    | _ => none
  | .witness failed =>
    match s.pc with
    | .serving _ =>
      -- the error of the witness is not wrapped, so it is never `context.Canceled`
      some {s with pc := .returning (if failed then some .omniwitness else if done then some .canceled else none)}
    | _ => none
  | .again =>
    match s.pc with
    | .returning err => some {s with pc := if err = some .canceled then .ended else .calling}
    | _ => none

inductive Step (server done : Bool) (nic : Option AddressWithPrefix) (s : Child) : Event → Child → Prop
  | noNetwork {now} (hp : s.pc = .calling) (hn : nic = none) :
      Step server done nic s (.call now) {s with pc := .returning (some .noNetwork)}
  | call {now addr} (hp : s.pc = .calling) (hn : nic = some addr) :
      Step server done nic s (.call now) {s with
        pc := .waiting ⟨addr,now,(s.runNTP server).1⟩
        ntps := (s.runNTP server).2
        calls := s.calls+1}
  | fires {k g} (hg : s.ntps[k]? = some g) (hs : g.stage = .waiting) :
      Step server done nic s (.ntpFires k) {s with ntps := s.ntps.set k {g with stage := .querying}}
  | stops {k g} (hg : s.ntps[k]? = some g) (hs : g.stage = .waiting) (hd : done = true) :
      Step server done nic s (.ntpStops k) {s with ntps := s.ntps.set k {g with stage := .ended}}
  | fails {k g} (hg : s.ntps[k]? = some g) (hs : g.stage = .querying) :
      Step server done nic s (.ntpAnswers k none) {s with ntps := s.ntps.set k {g with stage := .waiting}}
  | answers {k g time} (hg : s.ntps[k]? = some g) (hs : g.stage = .querying) :
      Step server done nic s (.ntpAnswers k (some time)) {s with ntps := s.ntps.set k g.succeed, clock := some time}
  | cold {call} (hp : s.pc = .waiting call) (hc : s.signalled call = true) (ht : call.coldStart = true) :
      Step server done nic s .recvTime {s with pc := .sleeping}
  | warm {call} (hp : s.pc = .waiting call) (hc : s.signalled call = true) (ht : call.coldStart = false) :
      Step server done nic s .recvTime {s with pc := .admin call, checkers := s.checkers+1}
  | done {call} (hp : s.pc = .waiting call) (hd : done = true) :
      Step server done nic s .recvDone {s with pc := .returning (some .canceled)}
  | wake (hp : s.pc = .sleeping) : Step server done nic s .wake {s with pc := .returning none}
  | admin {call} (hp : s.pc = .admin call) : Step server done nic s (.admin true) {s with pc := .http call}
  | noAdmin {call} (hp : s.pc = .admin call) :
      Step server done nic s (.admin false) {s with pc := .returning (some .adminListener)}
  | http {call} (hp : s.pc = .http call) :
      Step server done nic s (.http true) {s with pc := .serving call, started := s.started+1}
  | noHttp {call} (hp : s.pc = .http call) :
      Step server done nic s (.http false) {s with pc := .returning (some .httpListener)}
  | failed {call} (hp : s.pc = .serving call) :
      Step server done nic s (.witness true) {s with pc := .returning (some .omniwitness)}
  | served {call} (hp : s.pc = .serving call) :
      Step server done nic s (.witness false) {s with pc := .returning (if done then some .canceled else none)}
  | again {err} (hp : s.pc = .returning err) (he : err ≠ some .canceled) :
      Step server done nic s .again {s with pc := .calling}
  | ends (hp : s.pc = .returning (some .canceled)) : Step server done nic s .again {s with pc := .ended}

variable {server done : Bool} {nic : Option AddressWithPrefix} {s t : Child}

lemma step_inv {e : Event} (ht : step server done nic s e = some t) : Step server done nic s e t := by
  cases e with
  | call now =>
    simp only [step] at ht
    split at ht
    · cases ht
      exact .noNetwork ‹_› rfl
    · cases ht
      exact .call ‹_› rfl
    · cases ht
  | ntpFires k =>
    simp only [step] at ht
    split at ht
    · rename_i hg
      cases ht
      exact .fires hg rfl
    · cases ht
  | ntpStops k =>
    simp only [step] at ht
    split at ht
    · rename_i hg
      cases ht
      exact .stops hg rfl rfl
    · cases ht
  | ntpAnswers k time =>
    simp only [step] at ht
    split at ht
    · rename_i hg
      cases ht
      exact .fails hg rfl
    · rename_i hg
      cases ht
      exact .answers hg rfl
    · cases ht
  | recvTime =>
    simp only [step] at ht
    split at ht
    · split_ifs at ht with hc hcold
      · cases ht
        exact .cold ‹_› hc hcold
      · cases ht
        exact .warm ‹_› hc (by simpa using hcold)
    · cases ht
  | recvDone =>
    simp only [step] at ht
    split at ht
    · cases ht
      exact .done ‹_› rfl
    · cases ht
  | wake =>
    simp only [step] at ht
    split at ht
    · cases ht
      exact .wake ‹_›
    · cases ht
  | admin ok =>
    simp only [step] at ht
    split at ht
    · cases ht
      cases ok with
      | true => exact .admin ‹_›
      | false => exact .noAdmin ‹_›
    · cases ht
  | http ok =>
    simp only [step] at ht
    split at ht
    · split_ifs at ht with hok
      · cases ht
        subst hok
        exact .http ‹_›
      · cases ht
        cases ok with
        | true => exact absurd rfl hok
        | false => exact .noHttp ‹_›
    · cases ht
  | witness failed =>
    simp only [step] at ht
    split at ht
    · cases ht
      cases failed with
      | true => exact .failed ‹_›
      | false => exact .served ‹_›
    · cases ht
  | again =>
    simp only [step] at ht
    split at ht
    · cases ht
      split_ifs with he
      · subst he
        exact .ends ‹_›
      · exact .again ‹_› he
    · cases ht

/-- The clock is set before anything is started, and each call has an NTP goroutine of its
own. -/
structure Synced (server : Bool) (s : Child) : Prop where
  ntps : ∀ g ∈ s.ntps, g.Fits
  clock : (∃ g ∈ s.ntps, g.closed = true) → s.clock ≠ none
  own : ∀ call, s.pc.call? = some call → ∀ k, call.ntp = some k → server = true ∧ k+1 = s.ntps.length
  warm : ∀ call, s.pc.call? = some call → s.pc.synced = true → call.coldStart = false ∧ s.signalled call = true
  length : s.ntps.length = if server then s.calls else 0
  checkers : s.checkers+s.pc.uncounted.1 ≤ s.calls
  started : s.started+s.pc.uncounted.2 ≤ s.checkers

lemma synced_start (server : Bool) : Synced server start where
  ntps := by simp [start]
  clock := by simp [start]
  own := by simp [start,FPc.call?]
  warm := by simp [start,FPc.call?]
  length := by cases server <;> rfl
  checkers := le_rfl
  started := le_rfl

lemma signalled_set {call : Call} {k : ℕ} {g g' : Ntp} (h : s.signalled call = true) (hg : s.ntps[k]? = some g)
    (hc : g.closed = true → g'.closed = true) (clock : Option ℤ) :
    ({s with ntps := s.ntps.set k g', clock := clock} : Child).signalled call = true := by
  unfold signalled at h ⊢
  cases hn : call.ntp with
  | none => simp [hn] at h
  | some j =>
    simp only [hn] at h ⊢
    by_cases hj : j = k
    · subst hj
      rw [hg] at h
      have hlt : j < s.ntps.length := (List.getElem?_eq_some_iff.mp hg).1
      rw [List.getElem?_set_self hlt]
      exact hc h
    · rw [List.getElem?_set_ne (Ne.symm hj)]
      exact h

/-- One NTP goroutine moves. -/
lemma Synced.ntp (h : Synced server s) {k : ℕ} {g g' : Ntp} (hg : s.ntps[k]? = some g) (hf : g'.Fits)
    (hc : g.closed = true → g'.closed = true) (clock : Option ℤ)
    (hclock : (g'.closed = true ∧ g.closed = false) ∨ s.clock ≠ none → clock ≠ none) :
    Synced server {s with ntps := s.ntps.set k g', clock := clock} where
  ntps x hx := by
    rcases List.mem_or_eq_of_mem_set hx with hx | rfl
    · exact h.ntps x hx
    · exact hf
  clock := by
    rintro ⟨x,hx,hclosed⟩
    apply hclock
    rcases List.mem_or_eq_of_mem_set hx with hx | rfl
    · exact .inr (h.clock ⟨x,hx,hclosed⟩)
    · cases hgc : g.closed with
      | false => exact .inl ⟨hclosed,rfl⟩
      | true => exact .inr (h.clock ⟨g,List.mem_of_getElem? hg,hgc⟩)
  own call hp k hk := by
    rw [List.length_set]
    exact h.own call hp k hk
  warm call hp hs := by
    obtain ⟨hcold,hsig⟩ := h.warm call hp hs
    exact ⟨hcold,signalled_set hsig hg hc clock⟩
  length := by
    rw [List.length_set]
    exact h.length
  checkers := h.checkers
  started := h.started

lemma Synced.stage (h : Synced server s) {k : ℕ} {g : Ntp} (hg : s.ntps[k]? = some g) {stage : NtpStage}
    (hs : stage ≠ .panicked) : Synced server {s with ntps := s.ntps.set k {g with stage := stage}} := by
  refine h.ntp hg ((h.ntps g (List.mem_of_getElem? hg)).moved hs) id s.clock ?_
  rintro (⟨hc,hc'⟩ | hc)
  · rw [show g.closed = true from hc] at hc'
    cases hc'
  · exact hc

/-- f goes on without a new call. -/
lemma Synced.move (h : Synced server s) {pc : FPc} {n m : ℕ}
    (hcall : ∀ call, pc.call? = some call → s.pc.call? = some call)
    (hwarm : ∀ call, pc.call? = some call → pc.synced = true → call.coldStart = false ∧ s.signalled call = true)
    (hn : n+pc.uncounted.1 ≤ s.calls) (hm : m+pc.uncounted.2 ≤ n) :
    Synced server {s with pc := pc, checkers := n, started := m} where
  ntps := h.ntps
  clock := h.clock
  own call hp := h.own call (hcall call hp)
  warm := hwarm
  length := h.length
  checkers := hn
  started := hm

/-- f returns. -/
lemma Synced.leave (h : Synced server s) {pc : FPc} (hcall : pc.call? = none) : Synced server {s with pc := pc} := by
  have hz := FPc.uncounted_of_call? hcall
  refine h.move ?_ ?_ ?_ ?_
  · simp [hcall]
  · simp [hcall]
  · rw [hz]
    exact (Nat.le_add_right _ _).trans h.checkers
  · rw [hz]
    exact (Nat.le_add_right _ _).trans h.started

/-- A call that finds an address starts a goroutine of its own. -/
lemma Synced.call (h : Synced server s) (hp : s.pc = .calling) {addr : AddressWithPrefix} {now : ℤ} :
    Synced server {s with
      pc := .waiting ⟨addr,now,(s.runNTP server).1⟩
      ntps := (s.runNTP server).2
      calls := s.calls+1} := by
  have hn := h.checkers
  have hm := h.started
  have hl := h.length
  rw [hp] at hn hm
  cases server with
  | false =>
    refine ⟨h.ntps,h.clock,?_,?_,h.length,Nat.succ_le_succ hn,hm⟩
    · rintro _ ⟨⟩ k ⟨⟩
    · rintro _ ⟨⟩ ⟨⟩
  | true =>
    have hlen : (s.ntps ++ [Ntp.start]).length = s.ntps.length+1 := by simp
    refine ⟨?_,?_,?_,?_,?_,Nat.succ_le_succ hn,hm⟩
    · intro g hg
      rcases List.mem_append.mp hg with hg | hg
      · exact h.ntps g hg
      · rw [List.mem_singleton.mp hg]
        exact Ntp.fits_start
    · rintro ⟨g,hg,hc⟩
      rcases List.mem_append.mp hg with hg | hg
      · exact h.clock ⟨g,hg,hc⟩
      · rw [List.mem_singleton.mp hg] at hc
        cases hc
    · rintro _ ⟨⟩ k ⟨⟩
      exact ⟨rfl,hlen.symm⟩
    · rintro _ ⟨⟩ ⟨⟩
    · change (s.ntps ++ [Ntp.start]).length = s.calls+1
      rw [hlen,hl]
      rfl

lemma Synced.step (h : Synced server s) {e : Event} (ht : step server done nic s e = some t) : Synced server t := by
  have hn := h.checkers
  have hm := h.started
  cases step_inv ht with
  | noNetwork | cold | done | wake | noAdmin | noHttp | failed | served | again | ends => exact h.leave rfl
  | @call now addr hp hnic => exact h.call hp
  | fires hg | stops hg | fails hg => exact h.stage hg (by rintro ⟨⟩)
  | @answers k g time hg hs =>
    have hf := (h.ntps g (List.mem_of_getElem? hg)).succeed
    exact h.ntp hg hf.1 (fun _ => hf.2.1) (some time) (by simp)
  | @warm call hp hc hw =>
    rw [hp] at hn hm
    refine h.move ?_ ?_ ?_ ?_
    · rintro _ ⟨⟩
      rw [hp]
      rfl
    · rintro _ ⟨⟩ -
      exact ⟨hw,hc⟩
    · exact hn
    · exact Nat.add_le_add_right hm 1
  | @admin call hp =>
    rw [hp] at hn hm
    refine h.move ?_ ?_ hn hm
    · rintro _ ⟨⟩
      rw [hp]
      rfl
    · rintro _ ⟨⟩ -
      exact h.warm call (by rw [hp]; rfl) (by rw [hp]; rfl)
  | @http call hp =>
    rw [hp] at hn hm
    refine h.move ?_ ?_ hn hm
    · rintro _ ⟨⟩
      rw [hp]
      rfl
    · rintro _ ⟨⟩ -
      exact h.warm call (by rw [hp]; rfl) (by rw [hp]; rfl)

/-- f uses the address that the stack has, and goes away only with its context. -/
structure Attached (done : Bool) (nic : Option AddressWithPrefix) (s : Child) : Prop where
  addr : ∀ call, s.pc.call? = some call → nic = some call.addr
  connected : s.pc ≠ .returning (some .noNetwork)
  canceled : s.pc = .returning (some .canceled) ∨ s.pc = .ended → done = true
  ntps : ∀ g ∈ s.ntps, g.stage = .ended → done = true

lemma attached_start (done : Bool) (nic : Option AddressWithPrefix) : Attached done nic start where
  addr := by simp [start,FPc.call?]
  connected := by simp [start]
  canceled := by simp [start]
  ntps := by simp [start]

/-- The context may become done, and the stack may change once f has ended. -/
lemma Attached.mono (h : Attached done nic s) {done' : Bool} {nic' : Option AddressWithPrefix}
    (hd : done = true → done' = true) (hn : s.pc ≠ .ended → nic' = nic) : Attached done' nic' s where
  addr call hp := by
    rw [hn (by intro he; rw [he] at hp; cases hp)]
    exact h.addr call hp
  connected := h.connected
  canceled hp := hd (h.canceled hp)
  ntps g hg hs := hd (h.ntps g hg hs)

lemma Attached.ntp (h : Attached done nic s) {k : ℕ} {g' : Ntp} (hs : g'.stage = .ended → done = true)
    (clock : Option ℤ) : Attached done nic {s with ntps := s.ntps.set k g', clock := clock} where
  addr := h.addr
  connected := h.connected
  canceled := h.canceled
  ntps x hx := by
    rcases List.mem_or_eq_of_mem_set hx with hx | rfl
    · exact h.ntps x hx
    · exact hs

lemma Attached.move (h : Attached done nic s) {pc : FPc} {n m : ℕ}
    (hcall : ∀ call, pc.call? = some call → s.pc.call? = some call)
    (hconn : pc ≠ .returning (some .noNetwork))
    (hcan : pc = .returning (some .canceled) ∨ pc = .ended → done = true) :
    Attached done nic {s with pc := pc, checkers := n, started := m} where
  addr call hp := h.addr call (hcall call hp)
  connected := hconn
  canceled := hcan
  ntps := h.ntps

lemma Attached.step (h : Attached done nic s) (hf : ∀ g ∈ s.ntps, g.Fits) (hn : s.pc ≠ .ended → nic ≠ none)
    {e : Event}
    (ht : step server done nic s e = some t) : Attached done nic t := by
  cases step_inv ht with
  | noNetwork hp hnic => exact absurd hnic (hn (by rw [hp]; rintro ⟨⟩))
  | @call now addr hp hnic =>
    refine ⟨?_,by simp,by simp,?_⟩
    · rintro _ ⟨⟩
      exact hnic
    · intro g hg
      dsimp only [runNTP] at hg
      split at hg
      · rcases List.mem_append.mp hg with hg | hg
        · exact h.ntps g hg
        · rw [List.mem_singleton.mp hg]
          rintro ⟨⟩
      · exact h.ntps g hg
  | fires | fails => exact h.ntp (by rintro ⟨⟩) s.clock
  | stops _ _ hd => exact h.ntp (fun _ => hd) s.clock
  | @answers k g time hg =>
    refine h.ntp ?_ (some time)
    rw [(hf g (List.mem_of_getElem? hg)).succeed.2.2]
    rintro ⟨⟩
  | cold | wake | noAdmin | noHttp | failed | again => exact h.move (by rintro _ ⟨⟩) (by simp) (by simp)
  | warm hp | admin hp | http hp => exact h.move (by rw [hp]; exact fun _ => id) (by simp) (by simp)
  | done hp hd => exact h.move (by rintro _ ⟨⟩) (by simp) (fun _ => hd)
  | served hp =>
    refine h.move (by rintro _ ⟨⟩) ?_ ?_
    · split <;> simp
    · split
      · exact fun _ => ‹_›
      · simp
  | ends hp => exact h.move (by rintro _ ⟨⟩) (by simp) (fun _ => h.canceled (.inl hp))

/-- Only the check of the loop ends it. -/
lemma ended_iff {e : Event} (he : e ≠ .again) (ht : step server done nic s e = some t) :
    t.pc = .ended ↔ s.pc = .ended := by
  cases step_inv ht with
  | fires | stops | fails | answers => exact Iff.rfl
  | again | ends => exact absurd rfl he
  | noNetwork hp | call hp | cold hp | warm hp | done hp | wake hp | admin hp | noAdmin hp | http hp | noHttp hp
  | failed hp | served hp => simp [hp]

/-- The steps of the loop and of f, as opposed to those of the NTP goroutines. -/
def Event.own : Event → Bool
  | .ntpFires _ | .ntpStops _ | .ntpAnswers _ _ => false
  | .call _ | .recvTime | .recvDone | .wake | .admin _ | .http _ | .witness _ | .again => true

/-- How many steps the loop is away from its end, at most, once the context is done. -/
def rank (s : Child) : ℕ :=
  match s.pc with
  | .admin _ => 7
  | .http _ => 6
  | .serving _ | .sleeping => 5
  | .returning err => if err = some .canceled then 1 else 4
  | .calling => 3
  | .waiting _ => 2
  | .ended => 0

lemma rank_le (s : Child) : s.rank ≤ 7 := by
  unfold rank
  split
  case h_5 => split_ifs <;> omega
  all_goals omega

lemma rank_eq_zero_iff : s.rank = 0 ↔ s.pc = .ended := by
  unfold rank
  cases s.pc with
  | returning err => simp only [reduceCtorEq,iff_false]; split_ifs <;> simp
  | ended => simp
  | calling | waiting | sleeping | admin | http | serving => simp

/-- Every step of the loop brings it closer to its end, unless its select takes the channel of
`runNTP`. -/
lemma rank_step {e : Event} (hne : s.pc ≠ .ended → nic ≠ none) (he : e ≠ .recvTime)
    (ht : step server done nic s e = some t) : t.rank+e.own.toNat ≤ s.rank := by
  cases step_inv ht with
  | noNetwork hp hn => exact absurd hn (hne (by rw [hp]; rintro ⟨⟩))
  | cold | warm => exact absurd rfl he
  | fires | stops | fails | answers => exact le_rfl
  | call hp | done hp | wake hp | admin hp | noAdmin hp | http hp | noHttp hp | failed hp | ends hp =>
    simp [rank,hp,Event.own]
  | served hp => cases done <;> simp [rank,hp,Event.own]
  | again hp herr => simp [rank,hp,Event.own,herr]

/-- Once the context is done the loop can always take such a step. -/
lemma own_enabled (server : Bool) (nic : Option AddressWithPrefix) (hp : s.pc ≠ .ended) :
    ∃ e, e.own = true ∧ e ≠ .recvTime ∧ (step server true nic s e).isSome = true := by
  cases hpc : s.pc with
  | calling => exact ⟨.call 0,rfl,by simp,by cases nic <;> simp [step,hpc]⟩
  | waiting => exact ⟨.recvDone,rfl,by simp,by simp [step,hpc]⟩
  | sleeping => exact ⟨.wake,rfl,by simp,by simp [step,hpc]⟩
  | admin => exact ⟨.admin true,rfl,by simp,by simp [step,hpc]⟩
  | http => exact ⟨.http true,rfl,by simp,by simp [step,hpc]⟩
  | serving => exact ⟨.witness true,rfl,by simp,by simp [step,hpc]⟩
  | returning => exact ⟨.again,rfl,by simp,by simp [step,hpc]⟩
  | ended => exact absurd hpc hp

end Child

end ArmoredWitness.Applet
