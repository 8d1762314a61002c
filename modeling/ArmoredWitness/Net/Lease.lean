import ArmoredWitness.Lib.Channel
import ArmoredWitness.Lib.Transition
import Mathlib.Data.Int.Basic
import Mathlib.Order.Nat

/-! `runDHCP` keeps one goroutine that runs f for the address the stack has. The DHCP client
calls `acquired` with the address it reported last and the new one; the callback stops the
goroutine of the old address, waits for its token on `fDone`, and starts one for the new
address. The callback and the goroutines take turns in any order, one step each. -/
namespace ArmoredWitness.Net
open Lib Lib.Transition

structure AddressWithPrefix where
  address : List UInt8
  prefixLen : ℤ
  deriving DecidableEq

def AddressWithPrefix.unspecified (a : AddressWithPrefix) : Bool := a.address.all (· == 0)

/-- Where a goroutine that runs f is: in its loop, past it with the token still to be
sent, or over. -/
inductive Stage
  | running
  | exiting
  | ended
  deriving DecidableEq

/-- A goroutine that runs f, and whether its context has been cancelled. -/
structure Goroutine where
  canceled : Bool
  stage : Stage
  deriving DecidableEq

namespace Goroutine

def alive (g : Goroutine) : Bool := g.stage ≠ .ended

def cancel (g : Goroutine) : Goroutine := {g with canceled := true}

end Goroutine

/-- Where the callback is. Between two calls it is `idle`. -/
inductive Pc
  | idle
  | entered (new : AddressWithPrefix)
  | waiting (new : AddressWithPrefix)
  | removing (new : AddressWithPrefix)
  | released (new : AddressWithPrefix)
  | adding (new : AddressWithPrefix)
  | starting (new : AddressWithPrefix)
  | panicked
  | returned
  deriving DecidableEq

structure State where
  /-- The address the client reported last, which is the old one of the next call. -/
  addr : AddressWithPrefix
  pc : Pc
  /-- The goroutine whose context `cancelChild` cancels; nil at first. -/
  cancelChild : Option ℕ
  fDone : Channel Bool
  goroutines : List Goroutine
  /-- Whether `AddProtocolAddress` returned nil in the call that reported `addr`. The
  code does not keep it: it is a record of what the stack answered. -/
  added : Bool

/-- What can happen next: the client calls back, the callback goes on (with the answer
of `AddProtocolAddress`, should it be there), f returns in a goroutine, a goroutine
signals that it is over, or the client's `Run` returns. -/
inductive Event
  | report (new : AddressWithPrefix)
  | callback (ok : Bool)
  | fReturns (i : ℕ) (canceled : Bool)
  | signals (i : ℕ)
  | finish

/-- The next step of the callback. -/
def acquired (s : State) (ok : Bool) : Option State :=
  match s.pc with
  | .entered new =>
    -- a renewal: f should already be running
    if s.addr = new then some {s with pc := .idle}
    else if s.addr.unspecified then some {s with pc := .released new}
    else match s.cancelChild with
      | none => some {s with pc := .panicked}
      | some i =>
        some {s with goroutines := s.goroutines.modify i Goroutine.cancel, pc := .waiting new}
  | .waiting new =>
    match s.fDone.recv with
    | .ok _ fDone => some {s with fDone := fDone, pc := .removing new}
    | .done => some {s with pc := .removing new}
    | .blocked => none
  -- an error of RemoveAddress is only logged
  | .removing new => some {s with pc := .released new}
  | .released new =>
    if new.unspecified then some {s with pc := .idle, addr := new, added := false}
    else some {s with pc := .adding new}
  -- so is one of AddProtocolAddress, but then nothing is started
  | .adding new =>
    if ok then some {s with pc := .starting new}
    else some {s with pc := .idle, addr := new, added := false}
  | .starting new =>
    some {s with
      pc := .idle
      addr := new
      added := true
      cancelChild := some s.goroutines.length
      goroutines := s.goroutines ++ [⟨false,.running⟩]}
  | .idle | .panicked | .returned => none

/-- f returns in a goroutine. The loop ends when the error is `context.Canceled`. -/
def fReturns (s : State) (i : ℕ) (canceled : Bool) : Option State :=
  match s.goroutines[i]? with
  | some ⟨c,.running⟩ =>
    some {s with goroutines := s.goroutines.set i ⟨c,if canceled then .exiting else .running⟩}
  | _ => none

/-- The deferred send of a goroutine whose loop has ended. -/
def signals (s : State) (i : ℕ) : Option State :=
  match s.goroutines[i]? with
  | some ⟨c,.exiting⟩ =>
    match s.fDone.send true with
    | .ok fDone => some {s with fDone := fDone, goroutines := s.goroutines.set i ⟨c,.ended⟩}
    | .blocked => none
    | .panic => some {s with pc := .panicked}
  | _ => none

/-- The client's `Run` returns once its cleanup has reported that there is no address
left, and the deferred `close(fDone)` runs. -/
def finish (s : State) : Option State :=
  if s.pc = .idle ∧ s.addr.unspecified then
    some {s with pc := .returned, fDone := s.fDone.close}
  else none

/-- One step of `runDHCP`. A panic ends the program. -/
def step (s : State) : Event → Option State
  | e => if s.pc = .panicked then none else match e with
    | .report new => if s.pc = .idle then some {s with pc := .entered new} else none
    | .callback ok => acquired s ok
    | .fReturns i canceled => fReturns s i canceled
    | .signals i => signals s i
    | .finish => finish s

def start (a : AddressWithPrefix) : State :=
  ⟨a,.idle,none,Channel.make Bool 1,[],false⟩

/-- The goroutines that run f. -/
def State.alive (s : State) : ℕ := s.goroutines.countP Goroutine.alive

/-- The tokens that have not been consumed: those in the buffer, and one for every
goroutine that has yet to send its own. -/
def State.outstanding (s : State) : ℕ := s.alive + s.fDone.buf.length

/-- Past the wait for the old instance, and before the new one is started. -/
def Pc.quiet : Pc → Bool
  | .removing _ | .released _ | .adding _ | .starting _ | .returned => true
  | .idle | .entered _ | .waiting _ | .panicked => false

/-- There is one outstanding token if the reported address was added to the stack, and
none otherwise; it is the token that `waiting` consumes. -/
structure Inv (s : State) : Prop where
  cap : s.fDone.cap = 1
  open_of_running : s.pc ≠ .returned → s.fDone.closed = false
  outstanding : s.outstanding = if s.pc.quiet then 0 else s.added.toNat
  target : ∀ new, s.pc = .adding new ∨ s.pc = .starting new → new.unspecified = false
  specified : s.added = true → s.addr.unspecified = false
  cancels : s.added = true → s.cancelChild ≠ none

lemma inv_start (a : AddressWithPrefix) : Inv (start a) where
  cap := rfl
  open_of_running _ := rfl
  outstanding := rfl
  target := by simp [start]
  specified := by simp [start]
  cancels := by simp [start]

section Counting
variable {s : State}

lemma Inv.outstanding_le (h : Inv s) : s.outstanding ≤ 1 := by
  rw [h.outstanding]
  split
  · omega
  · exact s.added.toNat_le

lemma Inv.outstanding_quiet (h : Inv s) (hq : s.pc.quiet = true) : s.outstanding = 0 := by
  rw [h.outstanding,if_pos hq]

lemma Inv.outstanding_busy (h : Inv s) (hq : s.pc.quiet = false) :
    s.outstanding = s.added.toNat := by
  rw [h.outstanding,hq]
  rfl

lemma Inv.added_of_unspecified (h : Inv s) (ha : s.addr.unspecified = true) : s.added = false := by
  cases hadd : s.added with
  | false => rfl
  | true => rw [h.specified hadd] at ha; cases ha

lemma alive_pos {i : ℕ} {g : Goroutine} (hg : s.goroutines[i]? = some g) (ha : g.alive = true) :
    0 < s.alive :=
  List.countP_pos_iff.mpr ⟨g,List.mem_of_getElem? hg,ha⟩

lemma countP_alive_modify_cancel (gs : List Goroutine) (i : ℕ) :
    (gs.modify i Goroutine.cancel).countP Goroutine.alive = gs.countP Goroutine.alive := by
  induction gs generalizing i with
  | nil => simp
  | cons g gs ih =>
    cases i with
    | zero => simp only [List.modify_zero_cons,List.countP_cons]; rfl
    | succ i => simp [List.countP_cons,ih]

/-- Replacing one goroutine by its next stage changes the count by that goroutine alone. -/
lemma countP_alive_set {gs : List Goroutine} {i : ℕ} {g : Goroutine} (hg : gs[i]? = some g)
    (ha : g.alive = true) (g' : Goroutine) :
    (gs.set i g').countP Goroutine.alive + 1 = gs.countP Goroutine.alive + g'.alive.toNat := by
  obtain ⟨hi,rfl⟩ := List.getElem?_eq_some_iff.mp hg
  have hpos : 0 < gs.countP Goroutine.alive :=
    List.countP_pos_iff.mpr ⟨_,List.getElem_mem hi,ha⟩
  rw [List.countP_set hi,if_pos ha]
  cases g'.alive <;> simp <;> omega

end Counting

section Steps
variable {s t : State}

/-- What one step of the callback does, by where the callback is. -/
inductive Acquired (s : State) : Bool → State → Prop
  | renew {new ok} (hpc : s.pc = .entered new) (hnew : s.addr = new) :
      Acquired s ok {s with pc := .idle}
  | first {new ok} (hpc : s.pc = .entered new) (hnew : s.addr ≠ new)
      (hun : s.addr.unspecified = true) : Acquired s ok {s with pc := .released new}
  | nil {new ok} (hpc : s.pc = .entered new) (hnew : s.addr ≠ new)
      (hun : s.addr.unspecified = false) (hc : s.cancelChild = none) :
      Acquired s ok {s with pc := .panicked}
  | cancel {new ok i} (hpc : s.pc = .entered new) (hnew : s.addr ≠ new)
      (hun : s.addr.unspecified = false) (hc : s.cancelChild = some i) :
      Acquired s ok
        {s with goroutines := s.goroutines.modify i Goroutine.cancel, pc := .waiting new}
  | token {new ok b fDone} (hpc : s.pc = .waiting new) (hr : s.fDone.recv = .ok b fDone) :
      Acquired s ok {s with fDone := fDone, pc := .removing new}
  | closed {new ok} (hpc : s.pc = .waiting new) (hr : s.fDone.recv = .done) :
      Acquired s ok {s with pc := .removing new}
  | remove {new ok} (hpc : s.pc = .removing new) : Acquired s ok {s with pc := .released new}
  | none {new ok} (hpc : s.pc = .released new) (hun : new.unspecified = true) :
      Acquired s ok {s with pc := .idle, addr := new, added := false}
  | add {new ok} (hpc : s.pc = .released new) (hun : new.unspecified = false) :
      Acquired s ok {s with pc := .adding new}
  | added {new} (hpc : s.pc = .adding new) : Acquired s true {s with pc := .starting new}
  | refused {new} (hpc : s.pc = .adding new) :
      Acquired s false {s with pc := .idle, addr := new, added := false}
  | start {new ok} (hpc : s.pc = .starting new) :
      Acquired s ok {s with
        pc := .idle
        addr := new
        added := true
        cancelChild := some s.goroutines.length
        goroutines := s.goroutines ++ [⟨false,.running⟩]}

lemma acquired_inv {ok : Bool} (ht : acquired s ok = some t) : Acquired s ok t := by
  unfold acquired at ht
  split at ht
  case h_1 new hpc =>
    split_ifs at ht with hnew hun
    · cases ht
      exact .renew hpc hnew
    · cases ht
      exact .first hpc hnew hun
    · split at ht
      · cases ht
        exact .nil hpc hnew (by simpa using hun) ‹_›
      · cases ht
        exact .cancel hpc hnew (by simpa using hun) ‹_›
  case h_2 new hpc =>
    split at ht
    · cases ht
      exact .token hpc ‹_›
    · cases ht
      exact .closed hpc ‹_›
    · cases ht
  case h_3 new hpc =>
    cases ht
    exact .remove hpc
  case h_4 new hpc =>
    split_ifs at ht with hun
    · cases ht
      exact .none hpc hun
    · cases ht
      exact .add hpc (by simpa using hun)
  case h_5 new hpc =>
    cases ok with
    | false =>
      cases ht
      exact .refused hpc
    | true =>
      cases ht
      exact .added hpc
  case h_6 new hpc =>
    cases ht
    exact .start hpc
  all_goals cases ht

/-- What one step does, by who takes it. -/
inductive Step (s : State) : Event → State → Prop
  | report {new} (hpc : s.pc = .idle) : Step s (.report new) {s with pc := .entered new}
  | callback {ok t} (h : Acquired s ok t) : Step s (.callback ok) t
  | fReturns {i c canceled} (hg : s.goroutines[i]? = some ⟨c,.running⟩) :
      Step s (.fReturns i canceled)
        {s with goroutines := s.goroutines.set i ⟨c,if canceled then .exiting else .running⟩}
  | signals {i c fDone} (hg : s.goroutines[i]? = some ⟨c,.exiting⟩)
      (hsend : s.fDone.send true = .ok fDone) :
      Step s (.signals i) {s with fDone := fDone, goroutines := s.goroutines.set i ⟨c,.ended⟩}
  | crash {i c} (hg : s.goroutines[i]? = some ⟨c,.exiting⟩) (hsend : s.fDone.send true = .panic) :
      Step s (.signals i) {s with pc := .panicked}
  | finish (hpc : s.pc = .idle) (hun : s.addr.unspecified = true) :
      Step s .finish {s with pc := .returned, fDone := s.fDone.close}

lemma step_inv {e : Event} (ht : step s e = some t) : Step s e t := by
  unfold step at ht
  split at ht
  · cases ht
  · cases e with
    | report new =>
      dsimp only at ht
      split at ht
      · cases ht
        exact .report ‹_›
      · cases ht
    | callback ok => exact .callback (acquired_inv ht)
    | fReturns i canceled =>
      dsimp only [fReturns] at ht
      split at ht
      · cases ht
        exact .fReturns ‹_›
      · cases ht
    | signals i =>
      dsimp only [signals] at ht
      split at ht
      · split at ht
        · cases ht
          exact .signals ‹_› ‹_›
        · cases ht
        · cases ht
          exact .crash ‹_› ‹_›
      · cases ht
    | finish =>
      dsimp only [finish] at ht
      split at ht
      · rename_i hpc
        cases ht
        exact .finish hpc.1 hpc.2
      · cases ht

/-- A step that only moves the callback keeps the invariant if the count is right at the
new position. -/
lemma Inv.move (h : Inv s) {pc : Pc} (hr : s.pc ≠ .returned)
    (hout : s.outstanding = if pc.quiet then 0 else s.added.toNat)
    (htarget : ∀ new, pc = .adding new ∨ pc = .starting new → new.unspecified = false) :
    Inv {s with pc := pc} where
  cap := h.cap
  open_of_running _ := h.open_of_running hr
  outstanding := hout
  target := htarget
  specified := h.specified
  cancels := h.cancels

/-- A call ends without an instance: none is left, and none is started. -/
lemma Inv.settle (h : Inv s) (hr : s.pc ≠ .returned) (hq : s.pc.quiet = true)
    (new : AddressWithPrefix) : Inv {s with pc := .idle, addr := new, added := false} where
  cap := h.cap
  open_of_running _ := h.open_of_running hr
  outstanding := h.outstanding_quiet hq
  target := by simp
  specified := by simp
  cancels := by simp

lemma Inv.acquired (h : Inv s) {ok : Bool} (ht : Acquired s ok t) : Inv t := by
  cases ht with
  | renew hpc =>
    have hout := h.outstanding_busy (by simp [hpc,Pc.quiet])
    exact h.move (by simp [hpc]) hout (by simp)
  | first hpc hnew hun =>
    have hout := h.outstanding_busy (by simp [hpc,Pc.quiet])
    rw [h.added_of_unspecified hun] at hout
    exact h.move (by simp [hpc]) hout (by simp)
  | nil hpc =>
    have hout := h.outstanding_busy (by simp [hpc,Pc.quiet])
    exact h.move (by simp [hpc]) hout (by simp)
  | @cancel new _ i hpc hnew hun hc =>
    have hout := h.outstanding_busy (by simp [hpc,Pc.quiet])
    refine ⟨h.cap,fun _ => h.open_of_running (by simp [hpc]),?_,by simp,h.specified,h.cancels⟩
    unfold State.outstanding State.alive at hout ⊢
    rw [countP_alive_modify_cancel]
    exact hout
  | @token new _ b fDone hpc hrecv =>
    obtain ⟨hlen,hcap,hclosed⟩ := Channel.recv_eq_ok hrecv
    have hopen := hclosed.trans (h.open_of_running (by simp [hpc]))
    refine ⟨hcap.trans h.cap,fun _ => hopen,?_,by simp,h.specified,h.cancels⟩
    change s.alive + fDone.buf.length = 0
    have hle := h.outstanding_le
    unfold State.outstanding at hle
    omega
  | closed hpc hrecv =>
    have hclosed := Channel.recv_eq_done hrecv
    rw [h.open_of_running (by simp [hpc])] at hclosed
    cases hclosed
  | remove hpc =>
    have hout := h.outstanding_quiet (by simp [hpc,Pc.quiet])
    exact h.move (by simp [hpc]) hout (by simp)
  | none hpc => exact h.settle (by simp [hpc]) (by simp [hpc,Pc.quiet]) _
  | add hpc hun =>
    have hout := h.outstanding_quiet (by simp [hpc,Pc.quiet])
    exact h.move (by simp [hpc]) hout (by simpa using hun)
  | @added new hpc =>
    have hout := h.outstanding_quiet (by simp [hpc,Pc.quiet])
    exact h.move (by simp [hpc]) hout (by simpa using h.target new (.inl hpc))
  | refused hpc => exact h.settle (by simp [hpc]) (by simp [hpc,Pc.quiet]) _
  | @start new _ hpc =>
    have hout := h.outstanding_quiet (by simp [hpc,Pc.quiet])
    refine ⟨h.cap,fun _ => h.open_of_running (by simp [hpc]),?_,by simp,fun _ => h.target new (.inr hpc),
      by simp⟩
    unfold State.outstanding State.alive at hout ⊢
    change (s.goroutines ++ [(⟨false,.running⟩ : Goroutine)]).countP Goroutine.alive + s.fDone.buf.length = 1
    rw [List.countP_append,List.countP_singleton,if_pos (by rfl)]
    omega

lemma Inv.open_of_alive (h : Inv s) (ha : 0 < s.alive) : s.fDone.closed = false := by
  apply h.open_of_running
  intro hpc
  have hout := h.outstanding_quiet (by simp [hpc,Pc.quiet])
  unfold State.outstanding at hout
  omega

/-- While a goroutine is alive there is room for its token. -/
lemma Inv.send_ok (h : Inv s) (ha : 0 < s.alive) :
    s.fDone.send true = .ok {s.fDone with buf := s.fDone.buf ++ [true]} := by
  have hle := h.outstanding_le
  unfold State.outstanding at hle
  have hroom : s.fDone.buf.length < s.fDone.cap := by
    rw [h.cap]
    omega
  exact Channel.send_of_room (h.open_of_alive ha) hroom

lemma Inv.send_ne_panic (h : Inv s) {i : ℕ} {g : Goroutine} (hg : s.goroutines[i]? = some g)
    (ha : g.alive = true) : s.fDone.send true ≠ .panic := by
  rw [h.send_ok (alive_pos hg ha)]
  rintro ⟨⟩

/-- A goroutine goes from one stage to the next and sends as many tokens as it no longer
owes. -/
lemma Inv.goroutine (h : Inv s) {i : ℕ} {g g' : Goroutine} (hg : s.goroutines[i]? = some g)
    (ha : g.alive = true) {fDone : Channel Bool} (hcap : fDone.cap = s.fDone.cap)
    (hclosed : fDone.closed = s.fDone.closed)
    (hbuf : g'.alive.toNat + fDone.buf.length = 1 + s.fDone.buf.length) :
    Inv {s with fDone := fDone, goroutines := s.goroutines.set i g'} where
  cap := hcap.trans h.cap
  open_of_running hr := hclosed.trans (h.open_of_running hr)
  outstanding := by
    have hset := countP_alive_set hg ha g'
    have hout := h.outstanding
    unfold State.outstanding State.alive at hout ⊢
    rw [← hout]
    change (s.goroutines.set i g').countP Goroutine.alive + fDone.buf.length = _
    omega
  target := h.target
  specified := h.specified
  cancels := h.cancels

theorem Inv.step (h : Inv s) {e : Event} (ht : step s e = some t) : Inv t := by
  cases step_inv ht with
  | report hpc =>
    exact h.move (by simp [hpc]) (h.outstanding_busy (by simp [hpc,Pc.quiet])) (by simp)
  | callback ha => exact h.acquired ha
  | @fReturns i c canceled hg =>
    apply h.goroutine hg rfl rfl rfl
    cases canceled <;> rfl
  | @signals i c fDone hg hsend =>
    obtain ⟨-,rfl⟩ := Channel.send_eq_ok hsend
    refine h.goroutine hg rfl ?_ ?_ ?_
    · rfl
    · rfl
    · change 0 + (s.fDone.buf ++ [true]).length = 1 + s.fDone.buf.length
      rw [List.length_append,List.length_singleton]
      omega
  | crash hg hsend => exact absurd hsend (h.send_ne_panic hg rfl)
  | finish hpc hun =>
    refine ⟨h.cap,fun hr => absurd rfl hr,?_,by simp,h.specified,h.cancels⟩
    have hout := h.outstanding_busy (by simp [hpc,Pc.quiet])
    rw [h.added_of_unspecified hun] at hout
    exact hout

/-- The invariant holds in every state of every run. -/
theorem inv_run {a : AddressWithPrefix} {es : List Event} (hr : run step (start a) es = some s) : Inv s :=
  run_invariant (fun _ _ _ h ht => Inv.step h ht) (inv_start a) hr

end Steps

/-- At every moment at most one goroutine runs f, none does while an address is removed
from the stack or added to it, and one that is about to signal finds room for its token. -/
theorem one_instance {a : AddressWithPrefix} {es : List Event} {s : State}
    (hr : run step (start a) es = some s) :
    s.alive ≤ 1 ∧ (∀ new, s.pc = .removing new ∨ s.pc = .adding new → s.alive = 0) ∧
      ∀ g ∈ s.goroutines, g.stage = .exiting → ∃ fDone, s.fDone.send true = .ok fDone := by
  have h := inv_run hr
  refine ⟨?_,?_,?_⟩
  · exact (Nat.le_add_right _ _).trans h.outstanding_le
  · intro new hpc
    have hq : s.pc.quiet = true := by
      cases hpc with
      | inl hpc => rw [hpc]; rfl
      | inr hpc => rw [hpc]; rfl
    have hout := h.outstanding_quiet hq
    unfold State.outstanding at hout
    omega
  · intro g hg hstage
    have halive : g.alive = true := by simp [Goroutine.alive,hstage]
    exact ⟨_,h.send_ok (List.countP_pos_iff.mpr ⟨g,hg,halive⟩)⟩

def noAddress : AddressWithPrefix := ⟨[],0⟩

def leaseA : AddressWithPrefix := ⟨[10,0,0,1],24⟩

def leaseB : AddressWithPrefix := ⟨[10,0,0,2],24⟩

/-- A first lease whose address the stack accepts. -/
def firstLease : List Event := [.report leaseA,.callback true,.callback true,.callback true,.callback true]

/-- The address changes, and the callback waits for the instance of the old one. -/
def leaseChange : List Event := [.report leaseB,.callback true]

theorem one_instance_change :
    ∃ s, run step (start noAddress) (firstLease ++ leaseChange ++ [.fReturns 0 true]) = some s ∧
      s.pc = .waiting leaseB ∧ s.alive = 1 ∧ s.alive ≤ 1 ∧
        ∀ g ∈ s.goroutines, g.stage = .exiting → ∃ fDone, s.fDone.send true = .ok fDone := by
  obtain ⟨s,hs⟩ : ∃ s, run step (start noAddress) (firstLease ++ leaseChange ++ [.fReturns 0 true]) = some s :=
    ⟨_,rfl⟩
  have h := one_instance hs
  refine ⟨s,hs,?_,?_,h.1,h.2.2⟩
  · cases hs
    rfl
  · cases hs
    rfl

end ArmoredWitness.Net
