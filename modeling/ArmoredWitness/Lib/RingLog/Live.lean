import ArmoredWitness.Lib.RingLog.Tape

/-! The invariant of a log in a bounded region under complete, refused and torn
writes, and its recovery by a scan. A write goes to the cell after the newest
record or, when it does not fit there, to the start of the region. -/
namespace ArmoredWitness.Lib.RingLog

variable {E : Type*} {f : Format E}

/-- The first `k` cells of a record are put at `n`, all of them or not. What is
then found at `n` is the record, if the cells that were there before happen to
complete it, and its torn header otherwise. -/
structure Writes (f : Format E) (t t' : Tape E) (n : ℕ) (y : E) (k : ℕ) : Prop where
  le : k ≤ f.width y
  none : k = 0 → t' = t
  here : 0 < k → Record f t' n y ∨ k < f.width y ∧ t' n = .torn (f.width y)
  inner : ∀ q, n < q → q < n+k → t' q = .blank
  before : ∀ q, q < n → q+(t q).extent f ≤ n → t' q = t q
  beyond : ∀ q, n+k ≤ q → t' q = t q

/-- The newest record is `x`, in the cells from `c` up to `e`, at the end of a
chain that begins at `p`. Nothing below `p` is a record, except that the start of
the region may hold one of the pending records `F`; nothing from `e` on is as new
as `x`, except that `e` may hold one. Pending records carry the next revision. -/
structure Live (f : Format E) (t : Tape E) (start stop : ℕ) (F : E → Prop)
    (p c : ℕ) (x : Option E) (e : ℕ) : Prop where
  chain : Chain f t p c x e
  start_le : start ≤ p
  end_le : e ≤ stop
  fresh : x = none → p = start
  head : start < p → start+(t start).extent f ≤ e ∧ ∀ y, t start = .whole y →
    f.rev y = revOf f x+1 ∧ F y ∧ start+f.width y ≤ c ∧ Record f t start y
  gap : ∀ q, start < q → q < p → t q = .blank
  next : ∀ y, e < stop → t e = .whole y →
    f.rev y < revOf f x ∨ f.rev y = revOf f x+1 ∧ F y ∧ Record f t e y
  after : ∀ q y, e < q → q < stop → t q = .whole y → f.rev y ≤ revOf f x
  fits : ∀ q, start ≤ q → q < stop → q+(t q).extent f ≤ stop
  rev_pos : ∀ q y, start ≤ q → q < stop → t q = .whole y → 0 < f.rev y

namespace Writes
variable {t t' : Tape E} {n k stop : ℕ} {y : E} (hw : Writes f t t' n y k)
include hw

/-- What is found in the cells that were written ends with the record. -/
lemma fits (hfit : n+f.width y ≤ stop) {q : ℕ} (hn : n ≤ q) (hk : q < n+k) (hq : q < stop) :
    q+(t' q).extent f ≤ stop := by
  by_cases he : q = n
  · subst he
    rcases hw.here (by omega) with hr | ⟨-,ht⟩
    · rwa [hr.whole]
    · rwa [ht]
  · rw [hw.inner q (by omega) hk,extent_blank]
    omega

/-- The only record in the cells that were written is the new one. -/
lemma whole_eq {q : ℕ} {z : E} (hn : n ≤ q) (hk : q < n+k) (hz : t' q = .whole z) : z = y := by
  by_cases he : q = n
  · subst he
    rcases hw.here (by omega) with hr | ⟨-,ht⟩
    · rw [hr.whole] at hz
      cases hz
      rfl
    · rw [ht] at hz
      cases hz
  · rw [hw.inner q (by omega) hk] at hz
    cases hz

end Writes

namespace Live
variable {t t' : Tape E} {start stop : ℕ} {F G : E → Prop} {p c e : ℕ} {x : Option E} {y : E}

lemma mono (h : Live f t start stop F p c x e) (hFG : ∀ z, F z → G z) :
    Live f t start stop G p c x e :=
  { h with
    head := fun hs => ⟨(h.head hs).1,fun z hz =>
      have hz' := (h.head hs).2 z hz
      ⟨hz'.1,hFG z hz'.2.1,hz'.2.2⟩⟩
    next := fun z he hz => (h.next z he hz).imp_right fun hz' => ⟨hz'.1,hFG z hz'.2.1,hz'.2.2⟩ }

/-- The log is decided by the cells of the region. -/
lemma congr (h : Live f t start stop F p c x e) (ht : ∀ q, start ≤ q → q < stop → t' q = t q) :
    Live f t' start stop F p c x e := by
  have hle := h.chain.le_last
  have hstart := h.start_le
  have hend := h.end_le
  refine
    { chain := h.chain.congr fun q hp hq => ht q (by omega) (by omega)
      start_le := h.start_le
      end_le := h.end_le
      fresh := h.fresh
      head := fun hs => ?_
      gap := fun q hs hq => by rw [ht q hs.le (by omega)]; exact h.gap q hs hq
      next := fun y he hy => ?_
      after := fun q y he hq hy => h.after q y he hq (by rwa [ht q (by omega) hq] at hy)
      fits := fun q hs hq => by rw [ht q hs hq]; exact h.fits q hs hq
      rev_pos := fun q y hs hq hy => h.rev_pos q y hs hq (by rwa [ht q hs hq] at hy) }
  · have hh := h.head hs
    rw [ht start le_rfl (by omega)]
    refine ⟨hh.1,fun y hy => ?_⟩
    obtain ⟨hrev,hF,hw,hrec⟩ := hh.2 y hy
    exact ⟨hrev,hF,hw,hrec.congr fun i hi hi' => ht i hi (by omega)⟩
  · rw [ht e (by omega) he] at hy
    refine (h.next y he hy).imp_right fun ⟨hrev,hF,hrec⟩ => ⟨hrev,hF,hrec.congr fun i hi hi' => ?_⟩
    have hfits := h.fits e (by omega) he
    rw [hy,extent_whole] at hfits
    exact ht i (by omega) (by omega)

lemma last_lt (h : Live f t start stop F p c x e) (hx : x ≠ none) : c < e := by
  cases x with
  | none => exact absurd rfl hx
  | some z =>
    have hw := f.width_pos z
    have he := h.chain.last_record.2
    omega

lemma last_eq (h : Live f t start stop F p c none e) : p = start ∧ c = start ∧ e = start := by
  have hp := h.fresh rfl
  cases h.chain
  exact ⟨hp,hp,hp⟩

/-- What is found below `e` is decided below `e`. -/
lemma extent_le (h : Live f t start stop F p c x e) {q : ℕ} (hs : start ≤ q) (hq : q < e) :
    q+(t q).extent f ≤ e := by
  by_cases hp : p ≤ q
  · exact h.chain.extent_le hp hq
  · by_cases he : start = q
    · subst he
      exact (h.head (by omega)).1
    · rw [h.gap q (by omega) (by omega),extent_blank]
      omega

/-- No record in the region is newer than the next revision. -/
lemma rev_le (h : Live f t start stop F p c x e) {q : ℕ} {z : E} (hs : start < q) (hq : q < stop)
    (hz : t q = .whole z) : f.rev z ≤ revOf f x ∨ q = e ∧ f.rev z = revOf f x+1 := by
  by_cases hp : q < p
  · rw [h.gap q hs hp] at hz
    cases hz
  · by_cases he : q < e
    · exact .inl (h.chain.rev_le (by omega) he hz)
    · by_cases heq : q = e
      · subst heq
        rcases h.next z hq hz with hlt | ⟨hr,-⟩
        · exact .inl hlt.le
        · exact .inr ⟨rfl,hr⟩
      · exact .inl (h.after q z (by omega) hq hz)

section EndWrite
variable {k : ℕ} (h : Live f t start stop F p c x e) (hw : Writes f t t' e y k)
  (hrev : f.rev y = revOf f x+1) (hfit : e+f.width y ≤ stop)
include h hw

lemma end_below {q : ℕ} (hs : start ≤ q) (hq : q < e) : t' q = t q :=
  hw.before q hq (h.extent_le hs hq)

lemma end_chain : Chain f t' p c x e :=
  h.chain.congr fun _ hp hq => end_below h hw (h.start_le.trans hp) hq

lemma end_after : ∀ q z, e < q → q < stop → t' q = .whole z → f.rev z ≤ revOf f x := by
  intro q z he hq hz
  by_cases hk : e+k ≤ q
  · rw [hw.beyond q hk] at hz
    exact h.after q z he hq hz
  · rw [hw.inner q he (by omega)] at hz
    cases hz

include hfit

lemma end_fits : ∀ q, start ≤ q → q < stop → q+(t' q).extent f ≤ stop := by
  intro q hs hq
  by_cases hqe : q < e
  · rw [end_below h hw hs hqe]
    exact h.fits q hs hq
  · by_cases hk : e+k ≤ q
    · rw [hw.beyond q hk]
      exact h.fits q hs hq
    · exact hw.fits hfit (by omega) (by omega) hq

include hrev

omit hfit in
lemma end_rev_pos : ∀ q z, start ≤ q → q < stop → t' q = .whole z → 0 < f.rev z := by
  intro q z hs hq hz
  by_cases hqe : q < e
  · rw [end_below h hw hs hqe] at hz
    exact h.rev_pos q z hs hq hz
  · by_cases hk : e+k ≤ q
    · rw [hw.beyond q hk] at hz
      exact h.rev_pos q z hs hq hz
    · rw [hw.whole_eq (by omega) (by omega) hz]
      omega

/-- A write after the newest record that is not known to be complete leaves the
newest record in place; the new one is pending. -/
theorem fail_end : Live f t' start stop (fun z => F z ∨ z = y) p c x e where
  chain := end_chain h hw
  start_le := h.start_le
  end_le := h.end_le
  fresh := h.fresh
  head hs := by
    have hle := h.chain.le_last
    have hsame := end_below h hw le_rfl (by omega : start < e)
    rw [hsame]
    refine ⟨(h.head hs).1,fun z hz => ?_⟩
    obtain ⟨hr,hF,hc,hrec⟩ := (h.head hs).2 z hz
    refine ⟨hr,.inl hF,hc,hsame.trans hrec.whole,fun i hi hi' => ?_⟩
    rw [end_below h hw (by omega) (by omega),hrec.inner i hi hi']
  gap q hs hq := by
    have hle := h.chain.le_last
    rw [end_below h hw (by omega) (by omega),h.gap q hs hq]
  next z he hz := by
    by_cases hk : k = 0
    · rw [hw.none hk] at hz ⊢
      exact (h.next z he hz).imp_right fun hz' => ⟨hz'.1,.inl hz'.2.1,hz'.2.2⟩
    · rcases hw.here (by omega) with hr | ⟨-,ht⟩
      · right
        have hzy := hz
        rw [hr.whole] at hzy
        cases hzy
        exact ⟨hrev,.inr rfl,hr⟩
      · rw [ht] at hz
        cases hz
  after := end_after h hw
  fits := end_fits h hw hfit
  rev_pos := end_rev_pos h hw hrev

/-- A complete write after the newest record continues the chain. -/
theorem ok_end (hk : k = f.width y) (hhead : start < p → ∀ z, t start ≠ .whole z) :
    Live f t' start stop (fun _ => False) p e (some y) (e+f.width y) := by
  subst hk
  have hle := h.chain.le_last
  have hwp := f.width_pos y
  have hrec : Record f t' e y := by
    rcases hw.here hwp with hr | ⟨hlt,-⟩
    · exact hr
    · omega
  refine ⟨.snoc (end_chain h hw) hrec (by omega),h.start_le,hfit,by simp,fun hs => ?_,
    fun q hs hq => ?_,fun z he hz => ?_,fun q z he hq hz => ?_,end_fits h hw hfit,
    end_rev_pos h hw hrev⟩
  · rw [end_below h hw le_rfl (by omega)]
    exact ⟨(h.head hs).1.trans (Nat.le_add_right _ _),fun z hz => absurd hz (hhead hs z)⟩
  · rw [end_below h hw (by omega) (by omega),h.gap q hs hq]
  · left
    have hr := end_after h hw _ z (by omega) he hz
    rw [revOf_some]
    omega
  · have hr := end_after h hw _ z (by omega) hq hz
    rw [revOf_some]
    omega

end EndWrite

section StartWrite
variable {k : ℕ} (h : Live f t start stop F p c x e) (hw : Writes f t t' start y k)
  (hrev : f.rev y = revOf f x+1) (hfit : start+f.width y ≤ stop)
include h hw hfit

lemma start_fits : ∀ q, start ≤ q → q < stop → q+(t' q).extent f ≤ stop := by
  intro q hs hq
  by_cases hk : start+k ≤ q
  · rw [hw.beyond q hk]
    exact h.fits q hs hq
  · exact hw.fits hfit hs (by omega) hq

include hrev

omit hfit in
lemma start_rev_pos : ∀ q z, start ≤ q → q < stop → t' q = .whole z → 0 < f.rev z := by
  intro q z hs hq hz
  by_cases hk : start+k ≤ q
  · rw [hw.beyond q hk] at hz
    exact h.rev_pos q z hs hq hz
  · rw [hw.whole_eq hs (by omega) hz]
    omega

/-- A write at the start of the region that is not known to be complete and does
not reach the newest record leaves that record in place. -/
theorem fail_start (hx : x ≠ none) (hc : start+k ≤ c) (he : start+f.width y ≤ e) :
    ∃ p', Live f t' start stop (fun z => F z ∨ z = y) p' c x e := by
  have hlt := h.last_lt hx
  by_cases hk : k = 0
  · rw [hw.none hk]
    exact ⟨p,h.mono fun z hz => .inl hz⟩
  · obtain ⟨p',hpp,hkp,hpc,hch,hbl⟩ := h.chain.drop hc
    have hstart := h.start_le
    have hbeyond : ∀ q, start+k ≤ q → t' q = t q := hw.beyond
    refine ⟨p',hch.congr fun q hq _ => hbeyond q (by omega),by omega,h.end_le,
      fun hn => absurd hn hx,fun _ => ?_,fun q hs hq => ?_,fun z hs hz => ?_,
      fun q z hq hs hz => ?_,start_fits h hw hfit,start_rev_pos h hw hrev⟩
    · rcases hw.here (by omega) with hr | ⟨-,ht⟩
      · refine ⟨by rwa [hr.whole],fun z hz => ?_⟩
        rw [hr.whole] at hz
        cases hz
        refine ⟨hrev,.inr rfl,?_,hr⟩
        by_contra hn
        cases x with
        | none => exact hx rfl
        | some w =>
          have hb := hr.inner c (by omega) (by omega)
          rw [hbeyond c hc,h.chain.last_record.1.whole] at hb
          cases hb
      · exact ⟨by rwa [ht],fun z hz => by rw [ht] at hz; cases hz⟩
    · by_cases hqk : q < start+k
      · exact hw.inner q hs hqk
      · rw [hbeyond q (by omega)]
        by_cases hqp : q < p
        · exact h.gap q hs hqp
        · exact hbl q (by omega) (by omega) hq
    · rw [hbeyond e (by omega)] at hz
      refine (h.next z hs hz).imp_right fun hz' => ⟨hz'.1,.inl hz'.2.1,?_,fun i hi hi' => ?_⟩
      · rw [hbeyond e (by omega),hz'.2.2.whole]
      · rw [hbeyond i (by omega),hz'.2.2.inner i hi hi']
    · rw [hbeyond q (by omega)] at hz
      exact h.after q z hq hs hz

/-- A complete write at the start of the region begins a new chain. It must not
end where a pending record lies. -/
theorem ok_start (hk : k = f.width y)
    (hclash : start+f.width y = e → ∀ z, F z → e < stop → t e ≠ .whole z) :
    Live f t' start stop (fun _ => False) start start (some y) (start+f.width y) := by
  subst hk
  have hwp := f.width_pos y
  have hrec : Record f t' start y := by
    rcases hw.here hwp with hr | ⟨hlt,-⟩
    · exact hr
    · omega
  have hchain : Chain f t' start start (some y) (start+f.width y) := .snoc .nil hrec (by simp; omega)
  refine ⟨hchain,le_rfl,hfit,by simp,fun hs => by omega,fun q hs hq => by omega,fun z hs hz => ?_,
    fun q z hq hs hz => ?_,start_fits h hw hfit,start_rev_pos h hw hrev⟩
  · left
    rw [hw.beyond _ le_rfl] at hz
    rw [revOf_some]
    rcases h.rev_le (by omega) hs hz with hr | ⟨he,hr⟩
    · omega
    · rw [he] at hz hs
      rcases h.next z hs hz with hlt | ⟨-,hF,-⟩
      · omega
      · exact absurd hz (hclash he z hF hs)
  · rw [hw.beyond q (by omega)] at hz
    rw [revOf_some]
    rcases h.rev_le (by omega) hs hz with hr | ⟨-,hr⟩ <;> omega

end StartWrite

/-- A region in which no record has ever been begun. -/
theorem empty (hle : start ≤ stop) (hb : ∀ q, start ≤ q → q < stop → t q = .blank) :
    Live f t start stop (fun _ => False) start start none start := by
  refine ⟨.nil,le_rfl,hle,fun _ => rfl,fun hs => by omega,fun q hs hq => by omega,
    fun z hs hz => ?_,fun q z hq hs hz => ?_,fun q hs hq => ?_,fun q z hs hq hz => ?_⟩
  · rw [hb start le_rfl hs] at hz
    cases hz
  · rw [hb q (by omega) hs] at hz
    cases hz
  · rw [hb q hs hq,extent_blank]
    omega
  · rw [hb q hs hq] at hz
    cases hz

section Recovery
variable (h : Live f t start stop F p c x e)
include h

/-- A record pending at the start of the region is what the scan finds first. -/
lemma scan_head (hs : start < p) (hy : t start = .whole y) :
    scan f t start stop = some (some y,start+f.width y) ∧
    Live f t start stop (fun _ => False) start start (some y) (start+f.width y) := by
  obtain ⟨hrev,hF,hc,hrec⟩ := (h.head hs).2 y hy
  have hle := h.chain.le_last
  have hend := h.end_le
  have hwp := f.width_pos y
  have hx : x ≠ none := fun hn => by have := h.fresh hn; omega
  have hlt := h.last_lt hx
  have hstop : ∀ z, start+f.width y < stop → t (start+f.width y) = .whole z → f.rev z < f.rev y := by
    intro z hq hz
    rcases h.rev_le (by omega) hq hz with hr | ⟨he,-⟩ <;> omega
  refine ⟨?_,.snoc .nil hrec (by simp; omega),le_rfl,by omega,by simp,fun hs => by omega,
    fun q hs hq => by omega,fun z hq hz => .inl (hstop z hq hz),fun q z hq hs hz => ?_,h.fits,
    h.rev_pos⟩
  · have hb : (scanLoop f t stop).body ⟨start,none,start⟩ =
        .again ⟨start+f.width y,some y,start+f.width y⟩ :=
      scanBody_again (by simp; omega) hy (by simp; omega)
    unfold scan
    rw [Loop.exec_again _ hb]
    exact exec_stop hstop
  · rw [revOf_some]
    rcases h.rev_le (by omega) hs hz with hr | ⟨-,hr⟩ <;> omega

/-- With no record pending at the start, the scan comes to the end of the chain. -/
lemma reaches_end (hs : start < p → ∀ z, t start ≠ .whole z) :
    (scanLoop f t stop).Reaches ⟨start,none,start⟩ ⟨e,x,e⟩ := by
  have hle := h.chain.le_last
  have hend := h.end_le
  have hskip : (scanLoop f t stop).Reaches ⟨start,none,start⟩ ⟨p,none,start⟩ := by
    apply reaches_skip h.start_le (by omega)
    intro i hi hip z hz
    by_cases he : i = start
    · subst he
      exact hs hip z hz
    · rw [h.gap i (by omega) hip] at hz
      cases hz
  have hchain := reaches_chain (n := start) h.chain hend
  cases x with
  | none =>
    obtain ⟨rfl,rfl,rfl⟩ := h.last_eq
    exact hskip
  | some z => exact hskip.trans hchain

/-- A record pending after the newest one is the next link of the chain. -/
lemma scan_pending (hs : start < p → ∀ z, t start ≠ .whole z) (he : e < stop)
    (hy : t e = .whole y) (hrev : f.rev y = revOf f x+1) :
    scan f t start stop = some (some y,e+f.width y) ∧
    Live f t start stop (fun _ => False) p e (some y) (e+f.width y) := by
  have hle := h.chain.le_last
  have hstart := h.start_le
  have hwp := f.width_pos y
  have hrec : Record f t e y := by
    rcases h.next y he hy with hlt | ⟨-,-,hr⟩
    · omega
    · exact hr
  have hfit := h.fits e (by omega) he
  rw [hy,extent_whole] at hfit
  have hstop : ∀ z, e+f.width y < stop → t (e+f.width y) = .whole z → f.rev z < f.rev y := by
    intro z hq hz
    have hr := h.after _ z (by omega) hq hz
    omega
  refine ⟨?_,.snoc h.chain hrec (by omega),h.start_le,hfit,by simp,fun hp => ?_,h.gap,
    fun z hq hz => .inl (hstop z hq hz),fun q z hq hq' hz => ?_,h.fits,h.rev_pos⟩
  · have hb : (scanLoop f t stop).body ⟨e,x,e⟩ = .again ⟨e+f.width y,some y,e+f.width y⟩ :=
      scanBody_again he hy (by simp; omega)
    unfold scan
    rw [(h.reaches_end hs).exec_eq,Loop.exec_again _ hb]
    exact exec_stop hstop
  · exact ⟨(h.head hp).1.trans (Nat.le_add_right _ _),fun z hz => absurd hz (hs hp z)⟩
  · have hr := h.after q z (by omega) hq' hz
    rw [revOf_some]
    omega

/-- With nothing pending the scan returns the newest record and the cell after it. -/
lemma scan_quiet (hs : start < p → ∀ z, t start ≠ .whole z)
    (hq : e < stop → ∀ z, t e = .whole z → f.rev z < revOf f x) :
    scan f t start stop = some (x,e) ∧ Live f t start stop (fun _ => False) p c x e := by
  constructor
  · unfold scan
    rw [(h.reaches_end hs).exec_eq]
    cases x with
    | some y => exact exec_stop fun z he hz => hq he z hz
    | none =>
      obtain ⟨-,-,hes⟩ := h.last_eq
      have hend := h.end_le
      have hskip : (scanLoop f t stop).Reaches ⟨e,none,e⟩ ⟨stop,none,e⟩ := by
        apply reaches_skip hend le_rfl
        intro i hi hi' z hz
        have hpos := h.rev_pos i z (by omega) hi' hz
        by_cases he : i = e
        · rw [he] at hz hi'
          have hlt := hq hi' z hz
          simp at hlt
        · have hle := h.after i z (by omega) hi' hz
          rw [revOf_none] at hle
          omega
      rw [hskip.exec_eq]
      apply Loop.exec_leave
      change scanBody f t stop _ = _
      simp [scanBody]
  · exact { h with
      head := fun hp => ⟨(h.head hp).1,fun z hz => absurd hz (hs hp z)⟩
      next := fun z he hz => .inl (hq he z hz) }

/-- Recovery: the scan finds the newest record or a pending one, and either way
the log is again one with nothing pending. -/
theorem recover : ∃ x' p' c' e', scan f t start stop = some (x',e') ∧
    Live f t start stop (fun _ => False) p' c' x' e' ∧
    (x' = x ∧ c' = c ∧ e' = e ∨ ∃ y, x' = some y ∧ F y ∧ f.rev y = revOf f x+1) := by
  by_cases hs : start < p ∧ ∃ y, t start = .whole y
  · obtain ⟨hp,y,hy⟩ := hs
    obtain ⟨hscan,hlive⟩ := h.scan_head hp hy
    obtain ⟨hrev,hF,-⟩ := (h.head hp).2 y hy
    exact ⟨_,_,_,_,hscan,hlive,.inr ⟨y,rfl,hF,hrev⟩⟩
  · have hs' : start < p → ∀ z, t start ≠ .whole z := fun hp z hz => hs ⟨hp,z,hz⟩
    by_cases hpend : ∃ y, e < stop ∧ t e = .whole y ∧ f.rev y = revOf f x+1
    · obtain ⟨y,he,hy,hrev⟩ := hpend
      obtain ⟨hscan,hlive⟩ := h.scan_pending hs' he hy hrev
      have hF : F y := by
        rcases h.next y he hy with hlt | ⟨-,hF,-⟩
        · omega
        · exact hF
      exact ⟨_,_,_,_,hscan,hlive,.inr ⟨y,rfl,hF,hrev⟩⟩
    · have hq : e < stop → ∀ z, t e = .whole z → f.rev z < revOf f x := by
        intro he z hz
        rcases h.next z he hz with hlt | ⟨hr,-⟩
        · exact hlt
        · exact absurd ⟨z,he,hz,hr⟩ hpend
      obtain ⟨hscan,hlive⟩ := h.scan_quiet hs' hq
      exact ⟨_,_,_,_,hscan,hlive,.inl ⟨rfl,rfl,rfl⟩⟩

end Recovery
end Live
end ArmoredWitness.Lib.RingLog
