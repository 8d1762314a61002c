import Mathlib.Data.Vector.Basic
import ArmoredWitness.Lib.Loop
import ArmoredWitness.Lib.Outcome

/-! Readers in the sense of `io.Reader`, and `io.ReadFull` on them. A reader may
hand out less than it is asked for; since it hands out something, asking it again
and again for the rest comes to an end. -/
namespace ArmoredWitness.Lib

/-- A reader with states in `R`: asked for `n` items it fails, or hands out at most
`n` of them and, unless `n` is zero, at least one. -/
structure Source (ε R α : Type*) where
  read : R → ℕ → Except ε (List α × R)
  length_le : ∀ {r n b r'}, read r n = .ok (b,r') → b.length ≤ n
  progress : ∀ {r n b r'}, read r n = .ok (b,r') → 0 < n → b ≠ []

namespace Source
variable {ε R α : Type*} (S : Source ε R α) (n : ℕ)

/-- How far a buffer of `n` items has been filled. -/
structure Fill (R α : Type*) (n : ℕ) where
  got : List α
  got_le : got.length ≤ n
  rest : R

variable {n}

def fillBody (s : Fill R α n) : Turn (Fill R α n) (Outcome ε (List.Vector α n × R)) :=
  if h : s.got.length = n then .leave (.ok (⟨s.got,h⟩,s.rest))
  else
    match hr : S.read s.rest (n-s.got.length) with
    | .ok (b,r) => .again ⟨s.got ++ b,by
        have hb := S.length_le hr
        have hs := s.got_le
        rw [List.length_append]
        omega,r⟩
    | .error e => .leave (.error e)

lemma fillBody_full {s : Fill R α n} (h : s.got.length = n) :
    S.fillBody s = .leave (.ok (⟨s.got,h⟩,s.rest)) := by
  rw [fillBody,dif_pos h]

lemma fillBody_ok {s : Fill R α n} (h : s.got.length ≠ n) {b : List α} {r : R}
    (hr : S.read s.rest (n-s.got.length) = .ok (b,r)) :
    ∃ hle, S.fillBody s = .again ⟨s.got ++ b,hle,r⟩ := by
  have hle : (s.got ++ b).length ≤ n := by
    have hb := S.length_le hr
    have hs := s.got_le
    rw [List.length_append]
    omega
  refine ⟨hle,?_⟩
  unfold fillBody
  rw [dif_neg h]
  split
  · rename_i b' r' hr'
    rw [hr] at hr'
    cases hr'
    rfl
  · rename_i e hr'
    rw [hr] at hr'
    cases hr'

lemma fillBody_error {s : Fill R α n} (h : s.got.length ≠ n) {e : ε}
    (hr : S.read s.rest (n-s.got.length) = .error e) : S.fillBody s = .leave (.error e) := by
  unfold fillBody
  rw [dif_neg h]
  split
  · rename_i b' r' hr'
    rw [hr] at hr'
    cases hr'
  · rename_i e' hr'
    rw [hr] at hr'
    cases hr'
    rfl

/-- The three things one round can do. -/
lemma fillBody_cases (s : Fill R α n) :
    (∃ h : s.got.length = n, S.fillBody s = .leave (.ok (⟨s.got,h⟩,s.rest))) ∨
    (s.got.length < n ∧ ∃ e, S.read s.rest (n-s.got.length) = .error e ∧ S.fillBody s = .leave (.error e)) ∨
    (s.got.length < n ∧ ∃ b r hle, S.read s.rest (n-s.got.length) = .ok (b,r) ∧
      S.fillBody s = .again ⟨s.got ++ b,hle,r⟩) := by
  by_cases h : s.got.length = n
  · exact .inl ⟨h,S.fillBody_full h⟩
  · have hlt : s.got.length < n := lt_of_le_of_ne s.got_le h
    right
    cases hr : S.read s.rest (n-s.got.length) with
    | error e => exact .inl ⟨hlt,e,rfl,S.fillBody_error h hr⟩
    | ok x =>
      obtain ⟨hle,hb⟩ := S.fillBody_ok h hr
      exact .inr ⟨hlt,x.1,x.2,hle,rfl,hb⟩

/-- The loop of `io.ReadFull`. -/
def fillLoop (n : ℕ) : Loop (Fill R α n) (Outcome ε (List.Vector α n × R)) where
  body := S.fillBody
  measure s := n-s.got.length
  decreases := by
    intro s t h
    rcases S.fillBody_cases s with ⟨_,hb⟩ | ⟨-,e,-,hb⟩ | ⟨hlt,b,r,hle,hr,hb⟩
    · rw [hb] at h
      cases h
    · rw [hb] at h
      cases h
    · rw [hb] at h
      cases h
      have hpos := List.length_pos_of_ne_nil (S.progress hr (by omega))
      rw [List.length_append] at hle ⊢
      omega

def readFull (n : ℕ) (r : R) : Outcome ε (List.Vector α n × R) :=
  (S.fillLoop n).exec ⟨[],Nat.zero_le _,r⟩

/-- The invariant rule of `io.ReadFull`: what every successful read keeps holds of the
items that are returned, and where it fails, of the items read before. -/
theorem readFull_rule {n : ℕ} {r : R} {I : List α → R → Prop} (h0 : I [] r)
    (hread : ∀ got r b r', I got r → got.length < n → S.read r (n-got.length) = .ok (b,r') →
      I (got ++ b) r') :
    (∃ v r', S.readFull n r = .ok (v,r') ∧ I v.toList r') ∨
    (∃ e got r', S.readFull n r = .error e ∧ I got r' ∧ got.length < n ∧
      S.read r' (n-got.length) = .error e) := by
  refine (S.fillLoop n).exec_rule (P := fun s => I s.got s.rest)
    (Q := fun x => (∃ v r', x = .ok (v,r') ∧ I v.toList r') ∨
      (∃ e got r', x = .error e ∧ I got r' ∧ got.length < n ∧ S.read r' (n-got.length) = .error e))
    ?_ ?_ h0
  · intro s t hs hb
    change S.fillBody s = .again t at hb
    rcases S.fillBody_cases s with ⟨_,h⟩ | ⟨-,e,-,h⟩ | ⟨hlt,b,r',hle,hr,h⟩
    · rw [h] at hb
      cases hb
    · rw [h] at hb
      cases hb
    · rw [h] at hb
      cases hb
      exact hread _ _ _ _ hs hlt hr
  · intro s x hs hb
    change S.fillBody s = .leave x at hb
    rcases S.fillBody_cases s with ⟨hfull,h⟩ | ⟨hlt,e,hr,h⟩ | ⟨-,b,r',hle,-,h⟩
    · rw [h] at hb
      cases hb
      exact .inl ⟨_,_,rfl,hs⟩
    · rw [h] at hb
      cases hb
      exact .inr ⟨e,s.got,s.rest,rfl,hs,hlt,hr⟩
    · rw [h] at hb
      cases hb

lemma readFull_ne_panic (n : ℕ) (r : R) (p : Panic) : S.readFull n r ≠ .panic p := by
  intro h
  rcases S.readFull_rule (n := n) (r := r) (I := fun _ _ => True) trivial (fun _ _ _ _ _ _ _ => trivial)
    with ⟨v,r',hok,-⟩ | ⟨e,got,r',herr,-⟩
  · rw [h] at hok
    cases hok
  · rw [h] at herr
    cases herr

/-- A second source that reads the same as the first in the states that come up, unless
the first one fails in a certain way, is read out the same. -/
theorem readFull_sameUnless (S' : Source ε R α) {Bad : ε → Prop} {n : ℕ} {r : R} {I : List α → R → Prop}
    (h0 : I [] r) (hread : ∀ got r, I got r → got.length < n →
      (S'.read r (n-got.length) = S.read r (n-got.length) ∨
        ∃ e, Bad e ∧ S.read r (n-got.length) = .error e) ∧
      ∀ b r', S.read r (n-got.length) = .ok (b,r') → I (got ++ b) r') :
    Outcome.SameUnless Bad (S'.readFull n r) (S.readFull n r) := by
  by_cases hbad : ∃ e, Bad e ∧ S.readFull n r = .error e
  · exact .inr hbad
  · left
    apply Loop.exec_simulation (S'.fillLoop n) (S.fillLoop n)
      (fun s t => s = t ∧ I t.got t.rest ∧ (S.fillLoop n).exec t = S.readFull n r) (fun x y => x = y)
    · rintro s _ ⟨rfl,hI,hs⟩
      rcases S.fillBody_cases s with ⟨hfull,hb⟩ | ⟨hlt,e,hr,hb⟩ | ⟨hlt,b,r',hle,hr,hb⟩
      · exact .inr ⟨_,_,S'.fillBody_full hfull,hb,rfl⟩
      · rcases (hread s.got s.rest hI hlt).1 with heq | ⟨e',he,herr⟩
        · exact .inr ⟨_,_,S'.fillBody_error hlt.ne (heq.trans hr),hb,rfl⟩
        · rw [(S.fillLoop n).exec_leave (S.fillBody_error hlt.ne herr)] at hs
          exact absurd ⟨e',he,hs.symm⟩ hbad
      · obtain ⟨heq | ⟨e',-,herr⟩,hkeep⟩ := hread s.got s.rest hI hlt
        · obtain ⟨_,hb'⟩ := S'.fillBody_ok hlt.ne (heq.trans hr)
          exact .inl ⟨_,_,hb',hb,rfl,hkeep b r' hr,((S.fillLoop n).exec_again hb).symm.trans hs⟩
        · rw [hr] at herr
          cases herr
    · exact ⟨rfl,h0,rfl⟩

end Source
end ArmoredWitness.Lib
