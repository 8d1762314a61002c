import ArmoredWitness.Dhcp.Messages

/-! `Run` acquires a lease, waits until it has to be renewed, and starts again. What has to
be done next is read from the clock after each attempt; the callback is told of every lease
that is acquired, renewed or lost. The readings of the clock, the inputs of the exchanges
and the cancellation of the context are inputs of the steps. -/
namespace ArmoredWitness.Dhcp
open Lib Lib.Transition Net

/-- A call of the callback. -/
structure Report where
  old : AddressWithPrefix
  new : AddressWithPrefix
  cfg : Config
  deriving DecidableEq

/-- The timer of the loop: not created yet, due at a moment, or received and not reset. -/
inductive Timer
  | unset
  | armed (due : ℤ)
  | spent
  deriving DecidableEq

/-- A timer that is there is only reset if there is something to wait for. -/
def Timer.set (timer : Timer) (now wait : ℤ) : Timer :=
  match timer with
  | .unset => .armed (now+wait)
  | _ => if wait ≠ 0 then .armed (now+wait) else timer

/-- What follows a call of the callback. -/
inductive After
  | bound
  | expired
  | stopped
  deriving DecidableEq

inductive RunCrash
  | unexpectedState
  | invalidState
  | acquire (why : Crash)

/-- Where the loop is. -/
inductive RunPc
  | acquiring
  | exchanging (x : Exchange) (deadline : ℤ)
  | reporting (k : After)
  | deciding
  | waiting (next : ClientState)
  | returned
  | panicked (why : RunCrash)

structure Run where
  info : Info
  /-- What `Info` returns to others. -/
  stored : Info
  leaseExpirationTime : ℤ
  renewTime : ℤ
  rebindTime : ℤ
  timer : Timer
  canceled : Bool
  pc : RunPc
  reports : List Report
  stats : List Counter
  /-- The last reading of the clock; the code does not keep it. -/
  now : ℤ

namespace Run

/-- What can happen next. -/
inductive Event
  | attempt (now : ℤ) (xid : List.Vector UInt8 4)
  | exchange (now : ℤ) (e : Exchange.Event)
  | settle (now : ℤ)
  | reported
  | decide (now : ℤ)
  | fire (now : ℤ)
  | stop
  | cancel

/-- The zero value of a moment is before everything. -/
def start (stored : Info) : Run :=
  ⟨{stored with state := .initSelecting},stored,0,0,0,.unset,false,.acquiring,[],[],0⟩

section Definitions
variable (c : Client) (s : Run)

/-- The time an attempt may take: no longer than until the next state is due. -/
def acquisitionTimeout (now : ℤ) : ℤ :=
  match s.info.state with
  | .renewing => min c.acquisition (s.rebindTime-now)
  | .rebinding => min c.acquisition (s.leaseExpirationTime-now)
  | _ => c.acquisition

def attemptCounter : ClientState → Option Counter
  | .initSelecting => some .initAcquire
  | .renewing => some .renewAcquire
  | .rebinding => some .rebindAcquire
  | .bound => none

/-- Call the callback. -/
def report (new : AddressWithPrefix) (cfg : Config) (k : After) : Run :=
  {s with reports := s.reports ++ [⟨s.info.oldAddr,new,cfg⟩], pc := .reporting k}

/-- The callback has returned, or there was nothing to report. -/
def resume : After → Run
  | .bound =>
    let info := {s.info with oldAddr := s.info.addr, state := .bound}
    {s with info := info, stored := info, pc := .deciding}
  | .expired =>
    let info := {s.info with oldAddr := noAddress, state := .initSelecting}
    {s with info := info, stored := info, pc := .acquiring}
  | .stopped =>
    let info := {s.info with oldAddr := noAddress}
    {s with info := info, stored := info, pc := .returned}

/-- Report that the last address is lost, if there is one. -/
def cleanup (k : After) : Run :=
  if s.info.oldAddr = noAddress then s.resume k else s.report noAddress Config.empty k

/-- Enter the next state. -/
def transition (next : ClientState) : Run :=
  if s.info.state ≠ .initSelecting ∧ next = .initSelecting then s.cleanup .expired
  else
    let info := {s.info with state := next}
    {s with info := info, stored := info, pc := .acquiring}

/-- A lease is acquired: its times run from now. -/
def acquired (info : Info) (cfg : Config) (now : ℤ) : Run :=
  let cfg := normalise cfg
  ({s with
    info := info
    leaseExpirationTime := now+duration cfg.leaseLength
    renewTime := now+duration cfg.renewTime
    rebindTime := now+duration cfg.rebindTime
    now := now} : Run).report info.addr cfg .bound

/-- An attempt has failed. -/
def failed (info : Info) (now : ℤ) : Run :=
  let s := {s with info := info, now := now}
  if s.canceled then s.cleanup .stopped else {s with stored := info, pc := .deciding}

/-- The next state and the time to wait for it. A client that renews or rebinds before it is
time is in a bad state. -/
def next (now : ℤ) : Option (ClientState × ℤ) :=
  if s.leaseExpirationTime ≤ now then some (.initSelecting,0)
  else if s.rebindTime ≤ now then some (.rebinding,0)
  else if s.renewTime ≤ now then some (.renewing,0)
  else if s.info.state = .renewing ∨ s.info.state = .rebinding then none
  else some (.renewing,s.renewTime-now)

/-- The decision about what comes next. A client that stays in its state is retrying. -/
def decided (now : ℤ) (next : ClientState) (wait : ℤ) : Run :=
  let wait := if s.info.state = next then c.backoff else wait
  let s := {s with timer := s.timer.set now wait, now := now}
  if s.info.state ≠ next ∧ next ≠ .renewing then
    if s.canceled then s.cleanup .stopped else s.transition next
  else {s with pc := .waiting next}

end Definitions

/-- One step of `Run`. -/
def step (c : Client) (s : Run) (e : Event) : Option Run :=
  match s.pc, e with
  | .acquiring, .attempt now xid =>
    match attemptCounter s.info.state with
    | none => some {s with pc := .panicked .unexpectedState}
    | some k =>
      some {s with
        stats := s.stats ++ [k]
        pc := .exchanging (Exchange.start s.info xid) (now+s.acquisitionTimeout c now)
        now := now}
  | .exchanging x deadline, .exchange now e =>
    match e with
    -- the context of the attempt is done
    | .done =>
      if s.canceled = true ∨ deadline ≤ now then
        (Exchange.step c x .done).map fun x => {s with pc := .exchanging x deadline, now := now}
      else none
    | e => (Exchange.step c x e).map fun x => {s with pc := .exchanging x deadline, now := now}
  | .exchanging x _, .settle now =>
    match x.phase with
    | .returned (.ok cfg) => some ({s with stats := s.stats ++ x.stats}.acquired x.info cfg now)
    | .returned (.error _) => some ({s with stats := s.stats ++ x.stats}.failed x.info now)
    | .panicked why => some {s with pc := .panicked (.acquire why)}
    | _ => none
  | .reporting k, .reported => some (s.resume k)
  | .deciding, .decide now =>
    match s.next now with
    | none => some {s with pc := .panicked .invalidState}
    | some (next,wait) => some (s.decided c now next wait)
  | .waiting next, .fire now =>
    match s.timer with
    | .armed _ => some ({s with timer := .spent, now := now}.transition next)
    | _ => none
  | .waiting _, .stop => if s.canceled then some (s.cleanup .stopped) else none
  | _, .cancel => some {s with canceled := true}
  | _, _ => none

section Steps
variable {c : Client} {s t : Run}

/-- The step, by where the loop is and what happens. -/
inductive Step (c : Client) (s : Run) : Event → Run → Prop
  | attempt {now xid k} (hp : s.pc = .acquiring) (hk : attemptCounter s.info.state = some k) :
      Step c s (.attempt now xid) {s with
        stats := s.stats ++ [k]
        pc := .exchanging (Exchange.start s.info xid) (now+s.acquisitionTimeout c now)
        now := now}
  | unexpected {now xid} (hp : s.pc = .acquiring) (hs : s.info.state = .bound) :
      Step c s (.attempt now xid) {s with pc := .panicked .unexpectedState}
  | exchange {now e x x' d} (hp : s.pc = .exchanging x d) (hx : Exchange.step c x e = some x')
      (hd : e = .done → s.canceled = true ∨ d ≤ now) :
      Step c s (.exchange now e) {s with pc := .exchanging x' d, now := now}
  | acquired {now x d cfg} (hp : s.pc = .exchanging x d) (hx : x.phase = .returned (.ok cfg)) :
      Step c s (.settle now) ({s with stats := s.stats ++ x.stats}.acquired x.info cfg now)
  | failed {now x d e} (hp : s.pc = .exchanging x d) (hx : x.phase = .returned (.error e)) :
      Step c s (.settle now) ({s with stats := s.stats ++ x.stats}.failed x.info now)
  | crashed {now x d why} (hp : s.pc = .exchanging x d) (hx : x.phase = .panicked why) :
      Step c s (.settle now) {s with pc := .panicked (.acquire why)}
  | reported {k} (hp : s.pc = .reporting k) : Step c s .reported (s.resume k)
  | invalid {now} (hp : s.pc = .deciding) (hn : s.next now = none) :
      Step c s (.decide now) {s with pc := .panicked .invalidState}
  | decide {now next wait} (hp : s.pc = .deciding) (hn : s.next now = some (next,wait)) :
      Step c s (.decide now) (s.decided c now next wait)
  | fire {now next due} (hp : s.pc = .waiting next) (ht : s.timer = .armed due) :
      Step c s (.fire now) ({s with timer := .spent, now := now}.transition next)
  | stop {next} (hp : s.pc = .waiting next) (hc : s.canceled = true) : Step c s .stop (s.cleanup .stopped)
  | cancel : Step c s .cancel {s with canceled := true}

lemma attemptCounter_eq_none {st : ClientState} (h : attemptCounter st = none) : st = .bound := by
  cases st with
  | bound => rfl
  | initSelecting | renewing | rebinding => cases h

lemma step_inv {e : Event} (ht : step c s e = some t) : Step c s e t := by
  unfold step at ht
  split at ht
  case h_1 now xid hp =>
    split at ht
    · cases ht
      exact .unexpected hp (attemptCounter_eq_none ‹_›)
    · cases ht
      exact .attempt hp ‹_›
  case h_2 x d now e hp =>
    split at ht
    · split at ht
      · rename_i hd
        obtain ⟨x',hx,rfl⟩ := Option.map_eq_some_iff.mp ht
        exact .exchange hp hx (fun _ => hd)
      · cases ht
    · rename_i hne
      obtain ⟨x',hx,rfl⟩ := Option.map_eq_some_iff.mp ht
      exact .exchange hp hx (fun he => absurd he hne)
  case h_3 x d now hp =>
    split at ht
    · cases ht
      exact .acquired hp ‹_›
    · cases ht
      exact .failed hp ‹_›
    · cases ht
      exact .crashed hp ‹_›
    · cases ht
  case h_4 k hp =>
    cases ht
    exact .reported hp
  case h_5 now hp =>
    split at ht
    · cases ht
      exact .invalid hp ‹_›
    · cases ht
      exact .decide hp ‹_›
  case h_6 next now hp =>
    split at ht
    · cases ht
      exact .fire hp ‹_›
    · cases ht
  case h_7 next hp =>
    split at ht
    · cases ht
      exact .stop hp ‹_›
    · cases ht
  case h_8 =>
    cases ht
    exact .cancel
  case h_9 => cases ht

end Steps

end Run

end ArmoredWitness.Dhcp
