import ArmoredWitness.Applet.Networking
import ArmoredWitness.Net.Service
import ArmoredWitness.Net.Stack

/-! `main` gives `runWithNetworking` to `runDHCP`. The client, the callback, the goroutines
that run f and those that f leaves behind take their steps in any order, one at a time. A
goroutine that runs f sees the address that the callback gave to the stack, and its context
is done when the callback cancels it or when the context of `runDHCP` is done. -/
namespace ArmoredWitness.Applet
open Lib Lib.Transition Net Dhcp

structure Service where
  dhcp : RunDHCP
  /-- The address of the stack. -/
  nic : Option AddressWithPrefix
  /-- What the goroutines that run f do, one for each of `dhcp.net.goroutines`. -/
  children : List Child

namespace Service

inductive Event
  | dhcp (e : RunDHCP.Event)
  | child (i : ℕ) (e : Child.Event)

def start (resolvers : List String) : Service := ⟨RunDHCP.start resolvers,none,[]⟩

/-- The context of a goroutine that runs f is done. -/
def done (s : Service) (i : ℕ) : Bool :=
  s.dhcp.client.canceled || ((s.dhcp.net.goroutines[i]?).map Goroutine.canceled).getD false

/-- The address of the stack after a step of the callback. -/
def nicAfter (s : Service) : RunDHCP.Event → Option AddressWithPrefix
  | .callback ok => Net.nicAfter s.dhcp.net s.nic (.callback ok)
  | .client _ | .fReturns _ _ | .signals _ | .finish => s.nic

/-- One step; `server` is whether an NTP server is configured. -/
def step (c : Client) (server : Bool) (s : Service) : Event → Option Service
  -- f returns when the goroutine that runs it says so
  | .dhcp (.fReturns _ _) => none
  | .dhcp e =>
    (RunDHCP.step c s.dhcp e).map fun d =>
      ⟨d,s.nicAfter e,s.children ++ List.replicate (d.net.goroutines.length-s.children.length) Child.start⟩
  | .child i e =>
    if s.dhcp.crashed then none
    else match s.children[i]? with
      | none => none
      | some l =>
        match Child.step server (s.done i) s.nic l e with
        | none => none
        | some l' =>
          match e with
          | .again =>
            (RunDHCP.step c s.dhcp (.fReturns i (l'.pc = .ended))).map fun d =>
              {s with dhcp := d, children := s.children.set i l'}
          | _ => some {s with children := s.children.set i l'}

inductive Step (c : Client) (server : Bool) (s : Service) : Event → Service → Prop
  | dhcp {e d} (he : ∀ i b, e ≠ .fReturns i b) (hd : RunDHCP.step c s.dhcp e = some d) :
      Step c server s (.dhcp e)
        ⟨d,s.nicAfter e,s.children ++ List.replicate (d.net.goroutines.length-s.children.length) Child.start⟩
  | child {i e l l'} (hc : s.dhcp.crashed = false) (he : e ≠ .again) (hl : s.children[i]? = some l)
      (hs : Child.step server (s.done i) s.nic l e = some l') :
      Step c server s (.child i e) {s with children := s.children.set i l'}
  | again {i l l' d} (hl : s.children[i]? = some l) (hs : Child.step server (s.done i) s.nic l .again = some l')
      (hd : RunDHCP.step c s.dhcp (.fReturns i (l'.pc = .ended)) = some d) :
      Step c server s (.child i .again) {s with dhcp := d, children := s.children.set i l'}

variable {c : Client} {server : Bool} {s t : Service}

lemma step_inv {e : Event} (ht : step c server s e = some t) : Step c server s e t := by
  unfold step at ht
  split at ht
  · cases ht
  · rename_i e he
    obtain ⟨d,hd,rfl⟩ := Option.map_eq_some_iff.mp ht
    exact .dhcp (by rintro i b rfl; exact he i b rfl) hd
  · split at ht
    · cases ht
    · rename_i hc
      split at ht
      · cases ht
      · rename_i l hl
        split at ht
        · cases ht
        · rename_i l' hs
          split at ht
          · obtain ⟨d,hd,rfl⟩ := Option.map_eq_some_iff.mp ht
            exact .again hl hs hd
          · rename_i he
            cases ht
            exact .child (by simpa using hc) he hl hs

/-- What a step of `runDHCP` is for the callback. -/
lemma net_moves {e : RunDHCP.Event} {d : RunDHCP} (hd : RunDHCP.step c s.dhcp e = some d)
    (he : ∀ i b, e ≠ .fReturns i b) :
    d.net = s.dhcp.net ∧ s.nicAfter e = s.nic ∨
    ∃ e', (∀ i b, e' ≠ Net.Event.fReturns i b) ∧ Net.step s.dhcp.net e' = some d.net ∧
      s.nicAfter e = Net.nicAfter s.dhcp.net s.nic e' := by
  cases (RunDHCP.step_inv hd).2 with
  | reported | client => exact .inl ⟨rfl,rfl⟩
  | call _ _ _ hn => exact .inr ⟨_,by simp,hn,rfl⟩
  | callback hn => exact .inr ⟨_,by simp,hn,rfl⟩
  | fReturns => exact absurd rfl (he _ _)
  | signals hn => exact .inr ⟨_,by simp,hn,rfl⟩
  | finish _ hn => exact .inr ⟨_,by simp,hn,rfl⟩

/-- A context that is done stays done. -/
lemma done_client {e : RunDHCP.Event} {d : RunDHCP} (hd : RunDHCP.step c s.dhcp e = some d)
    (hc : s.dhcp.client.canceled = true) : d.client.canceled = true := by
  cases (RunDHCP.step_inv hd).2 with
  | reported _ hr | client _ hr | call _ hr => exact Run.step_canceled hc hr
  | callback | fReturns | signals | finish => exact hc

/-- There is a child for each goroutine that runs f, and it sees what the callback does. -/
structure Fit (server : Bool) (s : Service) : Prop where
  joint : RunDHCP.Joint s.dhcp
  owner : Owner s.dhcp.net
  nic : s.nic = s.dhcp.net.onStack
  length : s.children.length = s.dhcp.net.goroutines.length
  stage : ∀ (i : ℕ) (l : Child) (g : Goroutine), s.children[i]? = some l → s.dhcp.net.goroutines[i]? = some g →
    (l.pc ≠ .ended ↔ g.stage = .running)
  synced : ∀ l ∈ s.children, l.Synced server
  attached : ∀ (i : ℕ) (l : Child), s.children[i]? = some l → l.Attached (s.done i) s.nic

lemma fit_start (server : Bool) (resolvers : List String) : Fit server (start resolvers) where
  joint := RunDHCP.joint_start resolvers
  owner := owner_start _
  nic := rfl
  length := rfl
  stage := by simp [start]
  synced := by simp [start]
  attached := by simp [start]

variable {i : ℕ} {l : Child}

lemma Fit.goroutine (h : Fit server s) (hl : s.children[i]? = some l) : ∃ g, s.dhcp.net.goroutines[i]? = some g := by
  have hlt := (List.getElem?_eq_some_iff.mp hl).1
  rw [h.length] at hlt
  exact ⟨_,List.getElem?_eq_getElem hlt⟩

/-- While a child is in its loop the stack has the address. -/
lemma Fit.running (h : Fit server s) (hl : s.children[i]? = some l) (hp : l.pc ≠ .ended) :
    ∃ g, s.dhcp.net.goroutines[i]? = some g ∧ g.stage = .running ∧ g.alive = true ∧ 0 < s.dhcp.net.alive ∧
      s.nic = some s.dhcp.net.addr := by
  obtain ⟨g,hg⟩ := h.goroutine hl
  have hstage := (h.stage i l g hl hg).mp hp
  have halive : g.alive = true := by simp [Goroutine.alive,hstage]
  refine ⟨g,hg,hstage,halive,alive_pos hg halive,?_⟩
  rw [h.nic]
  exact (h.joint.net.running (alive_pos hg halive)).1

/-- The children after a step of the callback: those there were, and one for a goroutine that
the callback has started. -/
lemma Fit.grown (h : Fit server s) {e : Net.Event} {n : Net.State} (hn : Net.step s.dhcp.net e = some n)
    (hl : (s.children ++ List.replicate (n.goroutines.length-s.children.length) Child.start)[i]? = some l) :
    s.children[i]? = some l ∨ l = Child.start ∧ n.goroutines[i]? = some ⟨false,.running⟩ := by
  rcases Nat.lt_or_ge i s.children.length with hlt | hge
  · rw [List.getElem?_append_left hlt] at hl
    exact .inl hl
  · right
    rw [List.getElem?_append_right hge,List.getElem?_replicate] at hl
    split_ifs at hl with hlt
    have hlen := h.length
    rcases goroutines_grow hn with hsame | ⟨hgrow,hg⟩
    · omega
    · obtain rfl : i = s.dhcp.net.goroutines.length := by omega
      exact ⟨(Option.some_inj.mp hl).symm,hg⟩

/-- The callback takes a step. -/
lemma Fit.net (h : Fit server s) {d : RunDHCP} (hj : RunDHCP.Joint d) {e : Net.Event} (he : ∀ i b, e ≠ .fReturns i b)
    (hn : Net.step s.dhcp.net e = some d.net) (hd : s.dhcp.client.canceled = true → d.client.canceled = true) :
    Fit server ⟨d,Net.nicAfter s.dhcp.net s.nic e,
      s.children ++ List.replicate (d.net.goroutines.length-s.children.length) Child.start⟩ := by
  have hnic : Net.nicAfter s.dhcp.net s.nic e = d.net.onStack := by rw [h.nic,onStack_step h.joint.net hn]
  refine ⟨hj,h.owner.step h.joint.net hn,hnic,?_,?_,?_,?_⟩
  · have hlen := h.length
    rw [List.length_append,List.length_replicate]
    change _ = d.net.goroutines.length
    rcases goroutines_grow hn with hsame | ⟨hgrow,-⟩ <;> omega
  · intro i l g hl hg
    rcases h.grown hn hl with hl | ⟨rfl,hnew⟩
    · obtain ⟨g₀,hg₀⟩ := h.goroutine hl
      obtain ⟨g',hg',hstage,-⟩ := goroutine_step he hn hg₀
      rw [show d.net.goroutines[i]? = some g from hg] at hg'
      cases hg'
      exact (h.stage i l g₀ hl hg₀).trans hstage.symm
    · rw [show d.net.goroutines[i]? = some g from hg] at hnew
      cases hnew
      exact ⟨fun _ => rfl,fun _ => by rintro ⟨⟩⟩
  · intro l hl
    rcases List.mem_append.mp hl with hl | hl
    · exact h.synced l hl
    · rw [List.eq_of_mem_replicate hl]
      exact Child.synced_start server
  · intro i l hl
    rcases h.grown hn hl with hl | ⟨rfl,-⟩
    · refine (h.attached i l hl).mono ?_ ?_
      · obtain ⟨g₀,hg₀⟩ := h.goroutine hl
        obtain ⟨g',hg',-,hcan⟩ := goroutine_step he hn hg₀
        simp only [done,hg₀,hg',Option.map_some,Option.getD_some,Bool.or_eq_true]
        exact Or.imp hd hcan
      · intro hp
        obtain ⟨g₀,hg₀,hstage,-,hpos,hold⟩ := h.running hl hp
        obtain ⟨g',hg',hstage',-⟩ := goroutine_step he hn hg₀
        have halive : g'.alive = true := by simp [Goroutine.alive,hstage'.mpr hstage]
        have hnew := hnic.trans (hj.net.running (alive_pos hg' halive)).1
        exact hnew.trans (by rw [hold,addr_step h.joint.net hn hpos])
    · exact Child.attached_start _ _

/-- The client takes a step, or the callback. -/
lemma Fit.dhcp (h : Fit server s) {e : RunDHCP.Event} {d : RunDHCP} (he : ∀ i b, e ≠ .fReturns i b)
    (hd : RunDHCP.step c s.dhcp e = some d) : Fit server
      ⟨d,s.nicAfter e,s.children ++ List.replicate (d.net.goroutines.length-s.children.length) Child.start⟩ := by
  have hj := h.joint.step hd
  rcases net_moves hd he with ⟨hnet,hnic⟩ | ⟨e',he',hn,hnic⟩
  · have hkids : s.children ++ List.replicate (d.net.goroutines.length-s.children.length) Child.start =
        s.children := by
      rw [hnet,← h.length,Nat.sub_self]
      exact List.append_nil _
    rw [hkids,hnic]
    refine ⟨hj,?_,?_,?_,?_,h.synced,?_⟩
    · rw [hnet]
      exact h.owner
    · rw [hnet]
      exact h.nic
    · rw [hnet]
      exact h.length
    · rw [hnet]
      exact h.stage
    · intro i l hl
      refine (h.attached i l hl).mono ?_ (fun _ => rfl)
      simp only [done,hnet,Bool.or_eq_true]
      exact Or.imp_left (done_client hd)
  · rw [hnic]
    exact h.net hj he' hn (done_client hd)

/-- A child takes a step inside its loop. -/
lemma Fit.child (h : Fit server s) {e : Child.Event} {l' : Child} (he : e ≠ .again) (hl : s.children[i]? = some l)
    (hs : Child.step server (s.done i) s.nic l e = some l') :
    Fit server {s with children := s.children.set i l'} := by
  have hlt := (List.getElem?_eq_some_iff.mp hl).1
  have hsync := h.synced l (List.mem_of_getElem? hl)
  refine ⟨h.joint,h.owner,h.nic,?_,?_,?_,?_⟩
  · rw [List.length_set]
    exact h.length
  · intro j k g hk hg
    by_cases hne : i = j
    · subst hne
      rw [List.getElem?_set_self hlt] at hk
      cases hk
      exact (not_congr (Child.ended_iff he hs)).trans (h.stage i l g hl hg)
    · rw [List.getElem?_set_ne hne] at hk
      exact h.stage j k g hk hg
  · intro k hk
    rcases List.mem_or_eq_of_mem_set hk with hk | rfl
    · exact h.synced k hk
    · exact hsync.step hs
  · intro j k hk
    by_cases hne : i = j
    · subst hne
      rw [List.getElem?_set_self hlt] at hk
      cases hk
      refine (h.attached i l hl).step hsync.ntps ?_ hs
      intro hp
      obtain ⟨-,-,-,-,-,hnic⟩ := h.running hl hp
      rw [hnic]
      rintro ⟨⟩
    · rw [List.getElem?_set_ne hne] at hk
      exact h.attached j k hk

/-- f has returned, and the loop goes on or ends. -/
lemma Fit.again (h : Fit server s) {l' : Child} {d : RunDHCP} (hl : s.children[i]? = some l)
    (hs : Child.step server (s.done i) s.nic l .again = some l')
    (hd : RunDHCP.step c s.dhcp (.fReturns i (l'.pc = .ended)) = some d) :
    Fit server {s with dhcp := d, children := s.children.set i l'} := by
  have hj := h.joint.step hd
  have hlt := (List.getElem?_eq_some_iff.mp hl).1
  have hsync := h.synced l (List.mem_of_getElem? hl)
  cases (RunDHCP.step_inv hd).2 with
  | @fReturns _ _ n hn =>
    have howner := h.owner.step h.joint.net hn
    cases Net.step_inv hn with
    | @fReturns _ g₀ _ hg =>
      have hglt := (List.getElem?_eq_some_iff.mp hg).1
      refine ⟨hj,howner,h.nic,?_,?_,?_,?_⟩
      · rw [List.length_set]
        exact h.length.trans List.length_set.symm
      · intro j k g hk hgj
        by_cases hne : i = j
        · subst hne
          rw [List.getElem?_set_self hlt] at hk
          dsimp only at hgj
          rw [List.getElem?_set_self hglt] at hgj
          cases hk
          cases hgj
          by_cases hend : l'.pc = .ended <;> simp [hend]
        · rw [List.getElem?_set_ne hne] at hk
          dsimp only at hgj
          rw [List.getElem?_set_ne hne] at hgj
          exact h.stage j k g hk hgj
      · intro k hk
        rcases List.mem_or_eq_of_mem_set hk with hk | rfl
        · exact h.synced k hk
        · exact hsync.step hs
      · intro j k hk
        by_cases hne : i = j
        · subst hne
          rw [List.getElem?_set_self hlt] at hk
          cases hk
          have hat := (h.attached i l hl).step hsync.ntps (t := l') ?_ hs
          · refine hat.mono ?_ (fun _ => rfl)
            simp only [done,hg,List.getElem?_set_self hglt]
            exact id
          · intro hp
            obtain ⟨-,-,-,-,-,hnic⟩ := h.running hl hp
            rw [hnic]
            rintro ⟨⟩
        · rw [List.getElem?_set_ne hne] at hk
          refine (h.attached j k hk).mono ?_ (fun _ => rfl)
          simp only [done,List.getElem?_set_ne hne]
          exact id

lemma Fit.step (h : Fit server s) {e : Event} (ht : step c server s e = some t) : Fit server t := by
  cases step_inv ht with
  | dhcp he hd => exact h.dhcp he hd
  | child _ he hl hs => exact h.child he hl hs
  | again hl hs hd => exact h.again hl hs hd

lemma fit_run {resolvers : List String} {es : List Event} (hr : run (step c server) (start resolvers) es = some s) :
    Fit server s :=
  run_invariant (fun _ _ _ h ht => h.step ht) (fit_start server resolvers) hr

end Service

end ArmoredWitness.Applet
