import ArmoredWitness.Lib.Channel
import ArmoredWitness.Lib.Transition

/-! `updateChecker` makes a channel of one place and starts two goroutines: a ticker that
sends on it at every interval and closes it once the context is done, and a consumer that
looks for updates. The channel is also handed to the `/updatecheck` handlers, of which any
number may run, also after the listener has been closed. -/
namespace ArmoredWitness.Applet
open Lib Lib.Transition

inductive Ticker
  | selecting
  | sending
  | returned
  | panicked
  deriving DecidableEq

inductive Consumer
  | selecting
  | working
  | returned
  deriving DecidableEq

/-- A handler starts with its send; it answers after it. -/
inductive Handler
  | sending
  | answered
  | panicked
  deriving DecidableEq

structure State where
  trigger : Channel Unit
  /-- The context is done. -/
  done : Bool
  ticker : Ticker
  consumer : Consumer
  handlers : List Handler

/-- The two cases of the ticker's select, and the send that follows the first. -/
inductive TickerEvent
  | tick
  | send
  | done

/-- The two cases of the consumer's select, and the end of the work that follows the
first. -/
inductive ConsumerEvent
  | receive
  | scanned
  | done

/-- Who moves next: the context is cancelled, a request arrives at `/updatecheck`, or one
of the goroutines takes a step. -/
inductive Event
  | cancel
  | request
  | ticker (e : TickerEvent)
  | consumer (e : ConsumerEvent)
  | handler (i : ℕ)

def tickerStep (s : State) : TickerEvent → Option State
  | .tick => if s.ticker = .selecting then some {s with ticker := .sending} else none
  | .send =>
    if s.ticker = .sending then
      match s.trigger.send () with
      | .ok trigger => some {s with trigger := trigger, ticker := .selecting}
      | .blocked => none
      | .panic => some {s with ticker := .panicked}
    else none
  | .done =>
    if s.ticker = .selecting ∧ s.done = true then
      some {s with trigger := s.trigger.close, ticker := .returned}
    else none

def consumerStep (s : State) : ConsumerEvent → Option State
  | .receive =>
    if s.consumer = .selecting then
      match s.trigger.recv with
      | .ok _ trigger => some {s with trigger := trigger, consumer := .working}
      | .done => some {s with consumer := .returned}
      | .blocked => none
    else none
  -- whether the scan or the update failed or not, the loop goes on
  | .scanned => if s.consumer = .working then some {s with consumer := .selecting} else none
  | .done =>
    if s.consumer = .selecting ∧ s.done = true then some {s with consumer := .returned} else none

/-- The send of a handler. The server recovers a handler's panic and goes on. -/
def handlerStep (s : State) (i : ℕ) : Option State :=
  if s.handlers[i]? = some .sending then
    match s.trigger.send () with
    | .ok trigger => some {s with trigger := trigger, handlers := s.handlers.set i .answered}
    | .blocked => none
    | .panic => some {s with handlers := s.handlers.set i .panicked}
  else none

def step (s : State) : Event → Option State
  | .cancel => some {s with done := true}
  | .request => some {s with handlers := s.handlers ++ [.sending]}
  | .ticker e => tickerStep s e
  | .consumer e => consumerStep s e
  | .handler i => handlerStep s i

def updateChecker : State := ⟨Channel.make Unit 1,false,.selecting,.selecting,[]⟩

/-- No goroutine sends, or is blocked sending, on the closed channel. -/
def Safe (s : State) : Prop :=
  s.trigger.closed = true → s.ticker ≠ .sending ∧ ∀ h ∈ s.handlers, h ≠ .sending

/-- The channel is closed by the ticker alone, when the context is done, as the last thing
the ticker does. -/
def ClosedByTicker (s : State) : Prop :=
  s.trigger.closed = true → s.done = true ∧ s.ticker = .returned

section Steps
variable {s t : State}

lemma tickerStep_frame {e : TickerEvent} (ht : tickerStep s e = some t) :
    t.done = s.done ∧ t.handlers = s.handlers := by
  cases e <;> dsimp only [tickerStep] at ht <;> split at ht
  case send.isTrue =>
    split at ht <;> cases ht <;> exact ⟨rfl,rfl⟩
  all_goals
    cases ht <;> exact ⟨rfl,rfl⟩

lemma ClosedByTicker.tickerStep (h : ClosedByTicker s) {e : TickerEvent}
    (ht : tickerStep s e = some t) : ClosedByTicker t := by
  cases e with
  | tick =>
    dsimp only [Applet.tickerStep] at ht
    split at ht
    · rename_i hsel
      cases ht
      intro hc
      have hret := (h hc).2
      rw [hsel] at hret
      cases hret
    · cases ht
  | send =>
    dsimp only [Applet.tickerStep] at ht
    split at ht
    · rename_i hsend
      have hopen : s.trigger.closed = false := by
        rw [Bool.eq_false_iff]
        intro hc
        have hret := (h hc).2
        rw [hsend] at hret
        cases hret
      split at ht
      · rename_i trigger hok
        cases ht
        intro hc
        rw [(Channel.send_eq_ok hok).2] at hc
        rw [hopen] at hc
        cases hc
      · cases ht
      · cases ht
        intro hc
        rw [hopen] at hc
        cases hc
    · cases ht
  | done =>
    dsimp only [Applet.tickerStep] at ht
    split at ht
    · rename_i hsel
      cases ht
      intro _
      exact ⟨hsel.2,rfl⟩
    · cases ht

/-- The consumer neither closes the channel nor touches the senders. -/
lemma consumerStep_frame {e : ConsumerEvent} (ht : consumerStep s e = some t) :
    t.trigger.closed = s.trigger.closed ∧ t.done = s.done ∧ t.ticker = s.ticker ∧
      t.handlers = s.handlers := by
  cases e with
  | receive =>
    dsimp only [consumerStep] at ht
    split at ht
    · split at ht
      · rename_i trigger hok
        cases ht
        exact ⟨(Channel.recv_eq_ok hok).2.2,rfl,rfl,rfl⟩
      · cases ht
        exact ⟨rfl,rfl,rfl,rfl⟩
      · cases ht
    · cases ht
  | scanned =>
    dsimp only [consumerStep] at ht
    split at ht
    · cases ht
      exact ⟨rfl,rfl,rfl,rfl⟩
    · cases ht
  | done =>
    dsimp only [consumerStep] at ht
    split at ht
    · cases ht
      exact ⟨rfl,rfl,rfl,rfl⟩
    · cases ht

/-- Nor does a handler; its own send is over. -/
lemma handlerStep_frame {i : ℕ} (ht : handlerStep s i = some t) :
    t.trigger.closed = s.trigger.closed ∧ t.done = s.done ∧ t.ticker = s.ticker ∧
      ∃ h, h ≠ .sending ∧ t.handlers = s.handlers.set i h := by
  unfold handlerStep at ht
  split at ht
  · split at ht
    · rename_i trigger hok
      cases ht
      refine ⟨?_,rfl,rfl,.answered,by simp,rfl⟩
      rw [(Channel.send_eq_ok hok).2]
    · cases ht
    · cases ht
      exact ⟨rfl,rfl,rfl,.panicked,by simp,rfl⟩
  · cases ht

lemma ClosedByTicker.step (h : ClosedByTicker s) {e : Event} (ht : step s e = some t) :
    ClosedByTicker t := by
  cases e with
  | cancel =>
    cases ht
    intro hc
    exact ⟨rfl,(h hc).2⟩
  | request =>
    cases ht
    exact h
  | ticker e => exact h.tickerStep ht
  | consumer e =>
    obtain ⟨hc,hd,htk,-⟩ := consumerStep_frame ht
    unfold ClosedByTicker
    rw [hc,hd,htk]
    exact h
  | handler i =>
    obtain ⟨hc,hd,htk,-⟩ := handlerStep_frame ht
    unfold ClosedByTicker
    rw [hc,hd,htk]
    exact h

/-- In every run the ticker itself never sends on the channel it has closed. -/
theorem closedByTicker_run {es : List Event} (hr : run step updateChecker es = some s) :
    ClosedByTicker s := by
  apply run_invariant (fun _ _ _ h ht => ClosedByTicker.step h ht) _ hr
  intro hc
  cases hc

end Steps

/-- No handler is in its send when the context is cancelled, and none starts afterwards. -/
def Orderly (s : State) : Event → Prop
  | .cancel => ∀ h ∈ s.handlers, h ≠ .sending
  | .request => s.done = false
  | _ => True

/-- Once the context is done no handler is in its send. -/
def Drained (s : State) : Prop := s.done = true → ∀ h ∈ s.handlers, h ≠ .sending

lemma Drained.step {s t : State} (h : Drained s) {e : Event} (ho : Orderly s e)
    (ht : step s e = some t) : Drained t := by
  cases e with
  | cancel =>
    cases ht
    intro _
    exact ho
  | request =>
    cases ht
    intro hd
    rw [show s.done = false from ho] at hd
    cases hd
  | ticker e =>
    obtain ⟨hd,hh⟩ := tickerStep_frame ht
    unfold Drained
    rw [hd,hh]
    exact h
  | consumer e =>
    obtain ⟨-,hd,-,hh⟩ := consumerStep_frame ht
    unfold Drained
    rw [hd,hh]
    exact h
  | handler i =>
    obtain ⟨-,hd,-,x,hx,hh⟩ := handlerStep_frame ht
    unfold Drained
    rw [hd,hh]
    intro hdone y hy
    cases List.mem_or_eq_of_mem_set hy with
    | inl hy => exact h hdone y hy
    | inr hy => rw [hy]; exact hx

/-- In every run in which no handler is in its send when the context is cancelled and none
starts afterwards, no goroutine sends on the closed channel. -/
theorem trigger_safe {es : List Event} {s : State} (ho : Along step Orderly updateChecker es)
    (hr : run step updateChecker es = some s) : Safe s := by
  have hdrained : Drained s := by
    apply run_keeps (I := Drained) (fun _ _ _ h ho ht => Drained.step h ho ht) _ ho hr
    intro hd
    cases hd
  intro hc
  obtain ⟨hdone,hticker⟩ := closedByTicker_run hr hc
  refine ⟨?_,hdrained hdone⟩
  rw [hticker]
  rintro ⟨⟩

/-- A request is answered, the context is cancelled and the ticker closes the channel. -/
def orderlyStop : List Event :=
  [.request,.handler 0,.consumer .receive,.cancel,.ticker .done]

theorem trigger_safe_orderlyStop : ∃ s, run step updateChecker orderlyStop = some s ∧
    s.trigger.closed = true ∧ Safe s := by
  obtain ⟨s,hs⟩ : ∃ s, run step updateChecker orderlyStop = some s := ⟨_,rfl⟩
  have ho : Along step Orderly updateChecker orderlyStop := by
    refine ⟨rfl,?_⟩
    rintro _ ⟨⟩
    refine ⟨trivial,?_⟩
    rintro _ ⟨⟩
    refine ⟨trivial,?_⟩
    rintro _ ⟨⟩
    refine ⟨fun h hh => ?_,?_⟩
    · cases hh with
      | head => rintro ⟨⟩
      | tail _ hh => cases hh
    · rintro _ ⟨⟩
      exact ⟨trivial,fun _ _ => trivial⟩
  refine ⟨s,hs,?_,trigger_safe ho hs⟩
  cases hs
  rfl

/-- A request on a connection that outlives the listener sends on the closed channel. -/
def lateRequest : List Event := [.cancel,.ticker .done,.request]

/-- The buffer is full and a handler waits for room when the channel is closed. -/
def blockedHandler : List Event :=
  [.request,.handler 0,.request,.cancel,.consumer .done,.ticker .done]

theorem handler_sends_on_closed :
    (∃ s t, run step updateChecker lateRequest = some s ∧ ¬ Safe s ∧
      step s (.handler 0) = some t ∧ t.handlers = [.panicked]) ∧
    ∃ s t, run step updateChecker blockedHandler = some s ∧ ¬ Safe s ∧
      step s (.handler 1) = some t ∧ t.handlers = [.answered,.panicked] := by
  constructor
  · refine ⟨_,_,rfl,?_,rfl,rfl⟩
    intro h
    exact (h rfl).2 .sending (by decide) rfl
  · refine ⟨_,_,rfl,?_,rfl,rfl⟩
    intro h
    exact (h rfl).2 .sending (by decide) rfl

section Leak
variable {s t : State}

/-- What a step does to the channel. -/
lemma step_trigger {e : Event} (ht : step s e = some t) :
    t.trigger = s.trigger ∨ s.trigger.send () = .ok t.trigger ∨ (∃ u, s.trigger.recv = .ok u t.trigger) ∨
      t.trigger = s.trigger.close := by
  cases e with
  | cancel | request =>
    cases ht
    exact .inl rfl
  | ticker e =>
    cases e with
    | tick =>
      simp only [step,tickerStep] at ht
      split_ifs at ht
      cases ht
      exact .inl rfl
    | send =>
      simp only [step,tickerStep] at ht
      split_ifs at ht
      split at ht <;> cases ht
      · exact .inr (.inl ‹_›)
      · exact .inl rfl
    | done =>
      simp only [step,tickerStep] at ht
      split_ifs at ht
      cases ht
      exact .inr (.inr (.inr rfl))
  | consumer e =>
    cases e with
    | receive =>
      simp only [step,consumerStep] at ht
      split_ifs at ht
      split at ht <;> cases ht
      · exact .inr (.inr (.inl ⟨_,‹_›⟩))
      · exact .inl rfl
    | scanned | done =>
      simp only [step,consumerStep] at ht
      split_ifs at ht
      cases ht
      exact .inl rfl
  | handler i =>
    simp only [step,handlerStep] at ht
    split_ifs at ht
    split at ht <;> cases ht
    · exact .inr (.inl ‹_›)
    · exact .inl rfl

/-- The channel has one place. -/
def OnePlace (s : State) : Prop := s.trigger.cap = 1 ∧ s.trigger.buf.length ≤ 1

lemma OnePlace.step (h : OnePlace s) {e : Event} (ht : Applet.step s e = some t) : OnePlace t := by
  obtain ⟨hcap,hlen⟩ := h
  unfold OnePlace
  rcases step_trigger ht with heq | hsend | ⟨u,hrecv⟩ | heq
  · rw [heq]
    exact ⟨hcap,hlen⟩
  · unfold Channel.send at hsend
    split_ifs at hsend with hc hlt
    rw [← Channel.Sent.ok.inj hsend]
    refine ⟨hcap,?_⟩
    rw [List.length_append,List.length_singleton]
    omega
  · obtain ⟨hone,hcap',-⟩ := Channel.recv_eq_ok hrecv
    exact ⟨hcap'.trans hcap,by omega⟩
  · rw [heq]
    exact ⟨hcap,hlen⟩

/-- The ticker is in its send, the channel is full, and nobody receives from it. -/
structure Abandoned (s : State) : Prop where
  ticker : s.ticker = .sending
  consumer : s.consumer = .returned
  trigger : s.trigger.send () = .blocked

lemma Abandoned.step (h : Abandoned s) {e : Event} (ht : Applet.step s e = some t) : Abandoned t := by
  obtain ⟨hticker,hconsumer,htrigger⟩ := h
  cases e with
  | cancel | request =>
    cases ht
    exact ⟨hticker,hconsumer,htrigger⟩
  | ticker e => cases e <;> simp [Applet.step,tickerStep,hticker,htrigger] at ht
  | consumer e => cases e <;> simp [Applet.step,consumerStep,hconsumer] at ht
  | handler i => simp [Applet.step,handlerStep,htrigger] at ht

lemma ticker_sends {c : Channel Unit} (hs : s.ticker = .sending) (h : s.trigger.send () = .ok c) :
    step s (.ticker .send) = some {s with trigger := c, ticker := .selecting} := by
  simp only [step,tickerStep,hs,h,if_true]

/-- While the consumer is in its select it makes room for the ticker. -/
lemma consumer_frees (h : OnePlace s) (hs : s.ticker = .sending) (hc : s.consumer = .selecting)
    (hopen : s.trigger.closed = false) (hfull : s.trigger.send () = .blocked) :
    ∃ es t, run step s es = some t ∧ t.ticker = .selecting := by
  obtain ⟨hcap,hlen⟩ := h
  cases hbuf : s.trigger.buf with
  | nil =>
    have hroom := Channel.send_of_room (a := ()) hopen (by rw [hbuf,hcap]; decide)
    rw [hroom] at hfull
    cases hfull
  | cons u buf =>
    have hnil : buf = [] := by
      rw [hbuf,List.length_cons] at hlen
      exact List.eq_nil_of_length_eq_zero (by omega)
    have hrecv : s.trigger.recv = .ok u {s.trigger with buf := []} := by
      unfold Channel.recv
      rw [hbuf,hnil]
    have hsend : ({s.trigger with buf := []} : Channel Unit).send () = .ok {s.trigger with buf := [()]} :=
      Channel.send_of_room hopen (by rw [hcap]; exact Nat.one_pos)
    let v : State := {s with trigger := {s.trigger with buf := []}, consumer := .working}
    have hstep : step s (.consumer .receive) = some v := by
      simp only [step,consumerStep,hc,hrecv,if_true,v]
    refine ⟨[.consumer .receive,.ticker .send],
      {s with trigger := {s.trigger with buf := [()]}, consumer := .working, ticker := .selecting},?_,rfl⟩
    rw [run,hstep,Option.bind_some,run,ticker_sends (s := v) hs hsend]
    rfl

/-- The ticker goroutine is stuck for good exactly if it is in its send on a full channel after
the consumer has returned; then it does not close the channel either. -/
theorem ticker_leaks_iff {es : List Event} (hr : run step updateChecker es = some s) :
    (∀ es' t, run step s es' = some t → t.ticker = .sending) ↔ Abandoned s := by
  have hone : OnePlace s :=
    run_invariant (fun _ _ _ h ht => h.step ht) (show OnePlace updateChecker from ⟨rfl,by decide⟩) hr
  constructor
  · intro hstuck
    have hs := hstuck [] s rfl
    have hopen : s.trigger.closed = false := by
      cases hc : s.trigger.closed with
      | false => rfl
      | true =>
        rw [(closedByTicker_run hr hc).2] at hs
        cases hs
    have hmoves : ∀ es t, run step s es = some t → t.ticker = .selecting → False := by
      intro es t ht hsel
      rw [hstuck es t ht] at hsel
      cases hsel
    cases hsend : s.trigger.send () with
    | ok c =>
      refine (hmoves [.ticker .send] {s with trigger := c, ticker := .selecting} ?_ rfl).elim
      rw [run,ticker_sends hs hsend]
      rfl
    | panic =>
      unfold Channel.send at hsend
      rw [hopen,if_neg (by decide)] at hsend
      split_ifs at hsend
    | blocked =>
      cases hc : s.consumer with
      | returned => exact ⟨hs,hc,hsend⟩
      | selecting =>
        obtain ⟨es',t,ht,hsel⟩ := consumer_frees hone hs hc hopen hsend
        exact (hmoves es' t ht hsel).elim
      | working =>
        have hscan : step s (.consumer .scanned) = some {s with consumer := .selecting} := by
          simp only [step,consumerStep,hc,if_true]
        obtain ⟨es',t,ht,hsel⟩ := consumer_frees (s := {s with consumer := .selecting}) hone hs rfl hopen hsend
        refine (hmoves (.consumer .scanned::es') t ?_ hsel).elim
        rw [run,hscan]
        exact ht
  · intro h es' t ht
    exact (run_invariant (fun _ _ _ h ht => h.step ht) h ht).ticker

/-- A request fills the channel, the ticker ticks, and the consumer sees the context first. -/
def leakedTicker : List Event := [.request,.handler 0,.ticker .tick,.cancel,.consumer .done]

theorem ticker_leaks_iff_leaked : ∃ s, run step updateChecker leakedTicker = some s ∧ s.done = true ∧
    ∀ es t, run step s es = some t → t.ticker = .sending := by
  obtain ⟨s,hs⟩ : ∃ s, run step updateChecker leakedTicker = some s := ⟨_,rfl⟩
  refine ⟨s,hs,?_,(ticker_leaks_iff hs).mpr ?_⟩
  · cases hs
    rfl
  · cases hs
    exact ⟨rfl,rfl,rfl⟩

end Leak

end ArmoredWitness.Applet
