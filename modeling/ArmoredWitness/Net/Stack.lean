import ArmoredWitness.Net.Lease

/-! The callback adds an address to the stack before it starts f, and removes it after f has
ended. While the callback waits, it is the f of the old address that it waits for. -/
namespace ArmoredWitness.Net
open Lib Lib.Transition

/-- The address that the stack has, by where the callback is. -/
def State.onStack (s : State) : Option AddressWithPrefix :=
  match s.pc with
  | .released _ | .adding _ => none
  | .starting new => some new
  | .idle | .entered _ | .waiting _ | .removing _ | .panicked | .returned => if s.added then some s.addr else none

/-- The goroutine whose context `cancelChild` cancels is the only one that can be alive; while
the callback waits it has been cancelled. -/
structure Owner (s : State) : Prop where
  child : ∀ (i : ℕ) (g : Goroutine), s.goroutines[i]? = some g → g.alive = true → s.cancelChild = some i
  told : ∀ new, s.pc = .waiting new → ∀ (i : ℕ) (g : Goroutine), s.goroutines[i]? = some g →
    g.alive = true → g.canceled = true

variable {s t : State}

/-- While f runs the stack has the address, and the callback does not touch it. -/
lemma Inv.running (h : Inv s) (ha : 0 < s.alive) :
    s.onStack = some s.addr ∧ s.pc.quiet = false ∧ s.added = true := by
  have hout := h.outstanding
  unfold State.outstanding at hout
  have hq : s.pc.quiet = false := by
    cases hq : s.pc.quiet with
    | false => rfl
    | true =>
      rw [hq,if_pos rfl] at hout
      omega
  have hadd : s.added = true := by
    cases hadd : s.added with
    | true => rfl
    | false =>
      rw [hq,hadd] at hout
      change _ = 0 at hout
      omega
  refine ⟨?_,hq,hadd⟩
  unfold State.onStack
  cases hpc : s.pc with
  | released | adding | starting =>
    rw [hpc] at hq
    cases hq
  | idle | entered | waiting | removing | panicked | returned => exact if_pos hadd

lemma Inv.alive_unique (h : Inv s) {i j : ℕ} {g g' : Goroutine} (hi : s.goroutines[i]? = some g)
    (hg : g.alive = true)
    (hj : s.goroutines[j]? = some g') (hg' : g'.alive = true) : i = j := by
  by_contra hne
  have hset := countP_alive_set hi hg ⟨true,.ended⟩
  have hpos : 0 < (s.goroutines.set i ⟨true,.ended⟩).countP Goroutine.alive := by
    refine List.countP_pos_iff.mpr ⟨g',List.mem_of_getElem? (i := j) ?_,hg'⟩
    rw [List.getElem?_set_ne hne]
    exact hj
  have hle := h.outstanding_le
  unfold State.outstanding State.alive at hle
  change _ = _+0 at hset
  omega

lemma owner_start (a : AddressWithPrefix) : Owner (start a) := ⟨by simp [start],by simp [start]⟩

/-- A step that leaves the goroutines and does not make the callback wait. -/
lemma Owner.aside (h : Owner s) (hg : t.goroutines = s.goroutines) (hc : t.cancelChild = s.cancelChild)
    (hp : ∀ new, t.pc = .waiting new → s.pc = .waiting new) : Owner t where
  child := by
    rw [hg,hc]
    exact h.child
  told new hpc := by
    rw [hg]
    exact h.told new (hp new hpc)

/-- One goroutine moves on. -/
lemma Owner.goroutine (h : Owner s) {i : ℕ} {c : Bool} {stage stage' : Stage}
    (hg : s.goroutines[i]? = some ⟨c,stage⟩)
    (hs : stage ≠ .ended) (fDone : Channel Bool) :
    Owner {s with fDone := fDone, goroutines := s.goroutines.set i ⟨c,stage'⟩} := by
  have halive : (⟨c,stage⟩ : Goroutine).alive = true := by simpa [Goroutine.alive] using hs
  refine ⟨?_,?_⟩
  · intro j g' hj ha
    by_cases hne : i = j
    · subst hne
      exact h.child i _ hg halive
    · rw [List.getElem?_set_ne hne] at hj
      exact h.child j g' hj ha
  · intro new hp j g' hj ha
    by_cases hne : i = j
    · subst hne
      have hlt := (List.getElem?_eq_some_iff.mp hg).1
      rw [List.getElem?_set_self hlt] at hj
      cases hj
      have htold := h.told new hp i _ hg halive
      exact htold
    · rw [List.getElem?_set_ne hne] at hj
      exact h.told new hp j g' hj ha

lemma Owner.step (h : Owner s) (hi : Inv s) {e : Event} (ht : step s e = some t) : Owner t := by
  cases step_inv ht with
  | report | finish => exact h.aside rfl rfl (by rintro _ ⟨⟩)
  | callback hacq =>
    cases hacq with
    | renew | first | nil | token | closed | remove | none | add | added | refused =>
      exact h.aside rfl rfl (by rintro _ ⟨⟩)
    | @cancel new _ k hpc hnew hun hc =>
      have hmod : ∀ (i : ℕ) (g : Goroutine), (s.goroutines.modify k Goroutine.cancel)[i]? = some g → g.alive = true →
          s.cancelChild = some i ∧ g.canceled = true := by
        intro i g hg ha
        rw [List.getElem?_modify] at hg
        obtain ⟨g₀,hg₀,rfl⟩ := Option.map_eq_some_iff.mp hg
        have hchild : s.cancelChild = some i := by
          refine h.child i g₀ hg₀ ?_
          split_ifs at ha
          · exact ha
          · exact ha
        refine ⟨hchild,?_⟩
        rw [hc,Option.some_inj] at hchild
        rw [if_pos hchild]
        rfl
      exact ⟨fun i g hg ha => (hmod i g hg ha).1,fun _ _ i g hg ha => (hmod i g hg ha).2⟩
    | @start new _ hpc =>
      refine ⟨?_,by rintro _ ⟨⟩⟩
      intro i g hg ha
      change some s.goroutines.length = some i
      rcases Nat.lt_trichotomy i s.goroutines.length with hlt | rfl | hgt
      · rw [List.getElem?_append_left hlt] at hg
        have hq := (hi.running (alive_pos hg ha)).2.1
        rw [hpc] at hq
        cases hq
      · rfl
      · rw [List.getElem?_eq_none (by simp; omega)] at hg
        cases hg
  | fReturns hg => exact h.goroutine hg (by rintro ⟨⟩) _
  | signals hg => exact h.goroutine hg (by rintro ⟨⟩) _
  | crash => exact h.aside rfl rfl (by rintro _ ⟨⟩)

/-- The callback adds the new address and removes the old one; an error of either is logged. -/
def nicAfter (s : State) (nic : Option AddressWithPrefix) : Event → Option AddressWithPrefix
  | .callback ok =>
    match s.pc with
    | .adding new => if ok then some new else nic
    | .removing _ => none
    | _ => nic
  | .report _ | .fReturns _ _ | .signals _ | .finish => nic

lemma onStack_step (h : Inv s) {e : Event} (ht : step s e = some t) : t.onStack = nicAfter s s.onStack e := by
  cases step_inv ht with
  | report hpc | finish hpc => simp only [State.onStack,nicAfter,hpc]
  | callback hacq =>
    cases hacq with
    | first hpc _ hun => simp [State.onStack,nicAfter,hpc,h.added_of_unspecified hun]
    | renew hpc | nil hpc | cancel hpc | token hpc | closed hpc | remove hpc | none hpc | add hpc | added hpc
    | refused hpc | start hpc => simp [State.onStack,nicAfter,hpc]
  | fReturns | signals => rfl
  | crash hg hsend => exact absurd hsend (h.send_ne_panic hg rfl)

/-- f does not see the address change. -/
lemma addr_step (h : Inv s) {e : Event} (ht : step s e = some t) (ha : 0 < s.alive) : t.addr = s.addr := by
  have hq := (h.running ha).2.1
  cases step_inv ht with
  | report | finish | fReturns | signals | crash => rfl
  | callback hacq =>
    cases hacq with
    | renew | first | nil | cancel | token | closed | remove | add | added => rfl
    | none hpc | refused hpc | start hpc =>
      rw [hpc] at hq
      cases hq

/-- A step other than f's own leaves a goroutine in its loop. -/
lemma goroutine_step {e : Event} (he : ∀ i b, e ≠ .fReturns i b) (ht : step s e = some t) {i : ℕ} {g : Goroutine}
    (hg : s.goroutines[i]? = some g) :
    ∃ g', t.goroutines[i]? = some g' ∧ (g'.stage = .running ↔ g.stage = .running) ∧
      (g.canceled = true → g'.canceled = true) := by
  cases step_inv ht with
  | report | finish | crash => exact ⟨g,hg,Iff.rfl,id⟩
  | callback hacq =>
    cases hacq with
    | renew | first | nil | token | closed | remove | none | add | added | refused => exact ⟨g,hg,Iff.rfl,id⟩
    | cancel =>
      rw [List.getElem?_modify,hg]
      refine ⟨_,rfl,?_,?_⟩
      · split_ifs <;> rfl
      · split_ifs
        · exact fun _ => rfl
        · exact id
    | start =>
      refine ⟨g,?_,Iff.rfl,id⟩
      rw [List.getElem?_append_left (List.getElem?_eq_some_iff.mp hg).1]
      exact hg
  | fReturns => exact absurd rfl (he _ _)
  | @signals j c fDone hj =>
    by_cases hne : j = i
    · subst hne
      rw [hg] at hj
      cases hj
      rw [List.getElem?_set_self (List.getElem?_eq_some_iff.mp hg).1]
      exact ⟨_,rfl,by simp,id⟩
    · rw [List.getElem?_set_ne hne]
      exact ⟨g,hg,Iff.rfl,id⟩

/-- The callback starts goroutines one at a time. -/
lemma goroutines_grow {e : Event} (ht : step s e = some t) :
    t.goroutines.length = s.goroutines.length ∨
    t.goroutines.length = s.goroutines.length+1 ∧ t.goroutines[s.goroutines.length]? = some ⟨false,.running⟩ := by
  cases step_inv ht with
  | report | finish | crash => exact .inl rfl
  | callback hacq =>
    cases hacq with
    | renew | first | nil | token | closed | remove | none | add | added | refused => exact .inl rfl
    | cancel => exact .inl (List.length_modify ..)
    | start => exact .inr ⟨by simp,by simp⟩
  | fReturns | signals => exact .inl List.length_set

end ArmoredWitness.Net
