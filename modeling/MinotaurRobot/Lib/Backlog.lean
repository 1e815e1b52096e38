import Mathlib.Algebra.BigOperators.Group.List.Basic
import Mathlib.Algebra.Order.BigOperators.Group.List
import Mathlib.Algebra.Order.Ring.Int
import Mathlib.Tactic.Linarith
import Mathlib.Tactic.Ring

/-!
# A queue behind periodic sources

Some sources release a job each from time to time, and one job is served in
every round.  Two jobs of one source are at least `spacing` apart, and a round
takes at most the `m`-th part of that, where `m` is the number of sources.

`demand n` bounds what a source can release in the next `n` rounds.  A queue is
`Bounded` if it has room for these demands for every `n`, and
`Bounded.round` says that a round keeps this.  So the queue never gets longer
than `m`, although several jobs may be released in one round.
-/

namespace MinotaurRobot.Lib.Backlog

/-! ## One source -/

/-- The jobs that a source can release in `n` rounds when its next job is due
in the time `ahead`. -/
def demand (m spacing : ℤ) (n : ℕ) (ahead : ℤ) : ℤ :=
  max 0 ((n * spacing - m * ahead) / (m * spacing) + 1)

variable {m spacing : ℤ}

theorem demand_nonneg (m spacing : ℤ) (n : ℕ) (ahead : ℤ) : 0 ≤ demand m spacing n ahead :=
  le_max_left _ _

theorem demand_le_iff (hm : 0 < m) (hs : 0 < spacing) {n : ℕ} {ahead k : ℤ} (hk : 0 ≤ k) :
    demand m spacing n ahead ≤ k ↔ n * spacing - m * ahead < k * (m * spacing) := by
  unfold demand
  rw [max_le_iff, Int.add_one_le_iff, Int.ediv_lt_iff_lt_mul (Int.mul_pos hm hs)]
  exact ⟨fun h => h.2, fun h => ⟨hk, h⟩⟩

theorem lt_demand_iff (hm : 0 < m) (hs : 0 < spacing) {n : ℕ} {ahead k : ℤ} (hk : 0 ≤ k) :
    k < demand m spacing n ahead ↔ k * (m * spacing) ≤ n * spacing - m * ahead := by
  rw [← not_le, demand_le_iff hm hs hk, not_lt]

/-- One less than a demand is not enough. -/
theorem demand_pred_le (hm : 0 < m) (hs : 0 < spacing) {n : ℕ} {ahead : ℤ}
    (hpos : 0 < demand m spacing n ahead) :
    (demand m spacing n ahead - 1) * (m * spacing) ≤ n * spacing - m * ahead := by
  apply (lt_demand_iff hm hs (by omega)).1
  omega

/-- A round in which the source releases nothing. -/
theorem demand_elapse (hm : 0 < m) (hs : 0 < spacing) {δ : ℤ} (hδ : m * δ ≤ spacing) (n : ℕ)
    (ahead : ℤ) : demand m spacing n (ahead - δ) ≤ demand m spacing (n + 1) ahead := by
  have hnonneg := demand_nonneg m spacing (n + 1) ahead
  have hlast := (demand_le_iff hm hs hnonneg).1 (le_refl (demand m spacing (n + 1) ahead))
  apply (demand_le_iff hm hs hnonneg).2
  push_cast at hlast
  linarith

/-- A round in which the source releases a job. -/
theorem demand_release (hm : 0 < m) (hs : 0 < spacing) {δ ahead period : ℤ}
    (hδ : m * δ ≤ spacing) (hdue : ahead ≤ δ) (hperiod : spacing ≤ period) (n : ℕ) :
    1 + demand m spacing n (ahead - δ + period) ≤ demand m spacing (n + 1) ahead := by
  have hahead : m * ahead ≤ spacing := (Int.mul_le_mul_of_nonneg_left hdue hm.le).trans hδ
  have hpos : 0 < demand m spacing (n + 1) ahead := by
    apply (lt_demand_iff hm hs le_rfl).2
    push_cast
    nlinarith [Int.mul_nonneg (Int.natCast_nonneg n) hs.le]
  have hlast := (demand_le_iff hm hs hpos.le).1 (le_refl (demand m spacing (n + 1) ahead))
  have hspace : m * spacing ≤ m * period := Int.mul_le_mul_of_nonneg_left hperiod hm.le
  have hrest : demand m spacing n (ahead - δ + period) ≤ demand m spacing (n + 1) ahead - 1 := by
    apply (demand_le_iff hm hs (by omega)).2
    push_cast at hlast
    linarith
  omega

/-- Rounds are short, so that a source that is not due needs `n` of them for
the `n`-th part. -/
theorem demand_le_of_pos (hm : 0 < m) (hs : 0 < spacing) {ahead : ℤ} (hpos : 0 < ahead) (n : ℕ) :
    m * demand m spacing n ahead ≤ n + m - 1 := by
  rcases (demand_nonneg m spacing n ahead).eq_or_lt with hzero | hlt
  · rw [← hzero, Int.mul_zero]
    omega
  · have hlast := demand_pred_le hm hs hlt
    have hsmall : (m * (demand m spacing n ahead - 1)) * spacing < n * spacing := by
      nlinarith
    have := Int.lt_of_mul_lt_mul_right hsmall hs.le
    linarith

/-- A source that has just released a job. -/
theorem demand_le_of_spaced (hm : 0 < m) (hs : 0 < spacing) {ahead : ℤ} (h : spacing ≤ ahead)
    (n : ℕ) : m * demand m spacing n ahead ≤ n := by
  rcases (demand_nonneg m spacing n ahead).eq_or_lt with hzero | hlt
  · rw [← hzero, Int.mul_zero]
    omega
  · have hlast := demand_pred_le hm hs hlt
    have hspace : m * spacing ≤ m * ahead := Int.mul_le_mul_of_nonneg_left h hm.le
    have hsmall : (m * demand m spacing n ahead) * spacing ≤ n * spacing := by
      linarith
    exact Int.le_of_mul_le_mul_right hsmall hs

/-! ## All sources -/

/-- The time to the next job, and the least time between two jobs. -/
structure Source where
  ahead : ℤ
  period : ℤ

/-- The source a time `δ` later. -/
def Source.elapse (δ : ℤ) (s : Source) : Source :=
  if s.ahead ≤ δ then { s with ahead := s.ahead - δ + s.period } else { s with ahead := s.ahead - δ }

/-- The number of jobs released in a round. -/
def released (δ : ℤ) (sources : List Source) : ℕ := sources.countP fun s => s.ahead ≤ δ

/-- What all sources can release in `n` rounds. -/
def total (spacing : ℤ) (n : ℕ) (m : ℤ) (sources : List Source) : ℤ :=
  (sources.map fun s => demand m spacing n s.ahead).sum

/-- A queue of length `q` has room for the demands of any number of rounds. -/
structure Bounded (spacing : ℤ) (q : ℕ) (sources : List Source) : Prop where
  spaced : ∀ s ∈ sources, spacing ≤ s.period
  later : ∀ s ∈ sources, 0 < s.ahead
  room : ∀ n : ℕ, (q : ℤ) + total spacing n sources.length sources ≤ sources.length + n

theorem total_le {c : ℤ} {n : ℕ} {sources : List Source}
    (h : ∀ s ∈ sources, m * demand m spacing n s.ahead ≤ c) :
    m * total spacing n m sources ≤ sources.length * c := by
  induction sources with
  | nil => simp [total]
  | cons s sources ih =>
    have hrest := ih fun s' hs' => h s' (List.mem_cons_of_mem s hs')
    have hhead := h s List.mem_cons_self
    unfold total at hrest ⊢
    rw [List.map_cons, List.sum_cons, List.length_cons]
    push_cast
    linarith

theorem total_elapse (hm : 0 < m) (hs : 0 < spacing) {δ : ℤ} (hδ : m * δ ≤ spacing) (n : ℕ)
    {sources : List Source} (h : ∀ s ∈ sources, spacing ≤ s.period) :
    released δ sources + total spacing n m (sources.map (Source.elapse δ)) ≤
      total spacing (n + 1) m sources := by
  induction sources with
  | nil => simp [released, total]
  | cons s sources ih =>
    have hrest := ih fun s' hs' => h s' (List.mem_cons_of_mem s hs')
    unfold total released at hrest ⊢
    rw [List.map_cons, List.map_cons, List.map_cons, List.sum_cons, List.sum_cons,
      List.countP_cons]
    by_cases hdue : s.ahead ≤ δ
    · have hhead := demand_release hm hs hδ hdue (h s List.mem_cons_self) n
      rw [Source.elapse, if_pos hdue, if_pos (decide_eq_true hdue)]
      push_cast
      linarith
    · have hhead := demand_elapse hm hs hδ n s.ahead
      rw [Source.elapse, if_neg hdue, if_neg (by simpa using hdue)]
      push_cast
      linarith

/-- Sources that have all released a job. -/
theorem Bounded.start (hs : 0 < spacing) {sources : List Source}
    (hspaced : ∀ s ∈ sources, spacing ≤ s.period) (hahead : ∀ s ∈ sources, s.ahead = s.period) :
    Bounded spacing sources.length sources where
  spaced := hspaced
  later := by
    intro s hmem
    have := hspaced s hmem
    have := hahead s hmem
    omega
  room := by
    intro n
    rcases sources.eq_nil_or_concat with rfl | hcons
    · simp [total]
    · have hm : (0 : ℤ) < sources.length := by
        obtain ⟨front, last, rfl⟩ := hcons
        simp
      have htotal : (sources.length : ℤ) * total spacing n sources.length sources ≤
          sources.length * n := by
        apply total_le
        intro s hmem
        apply demand_le_of_spaced hm hs
        rw [hahead s hmem]
        exact hspaced s hmem
      have := Int.le_of_mul_le_mul_left htotal hm
      omega

/-- One round: a job is served if there is one, then the sources release what
is due. -/
theorem Bounded.round {q : ℕ} {sources : List Source} (h : Bounded spacing q sources)
    (hs : 0 < spacing) {δ : ℤ} (hδ : sources.length * δ ≤ spacing) :
    Bounded spacing (q - 1 + released δ sources) (sources.map (Source.elapse δ)) where
  spaced := by
    intro s hmem
    obtain ⟨s₀, hmem₀, rfl⟩ := List.mem_map.1 hmem
    have hperiod : (Source.elapse δ s₀).period = s₀.period := by
      unfold Source.elapse
      split <;> rfl
    rw [hperiod]
    exact h.spaced s₀ hmem₀
  later := by
    intro s hmem
    obtain ⟨s₀, hmem₀, rfl⟩ := List.mem_map.1 hmem
    have hpos := h.later s₀ hmem₀
    have hspaced := h.spaced s₀ hmem₀
    have hm : (1 : ℤ) ≤ sources.length := by
      have := List.length_pos_of_mem hmem₀
      omega
    have hδ' : δ ≤ spacing := by
      rcases le_or_gt δ 0 with hneg | hposδ
      · omega
      · nlinarith
    unfold Source.elapse
    split
    · dsimp only
      omega
    · dsimp only
      omega
  room := by
    intro n
    rw [List.length_map]
    rcases sources.eq_nil_or_concat with rfl | hcons
    · have hroom := h.room n
      simp only [total, released, List.map_nil, List.sum_nil, List.countP_nil,
        List.length_nil] at hroom ⊢
      omega
    · have hm : (0 : ℤ) < sources.length := by
        obtain ⟨front, last, rfl⟩ := hcons
        simp
      have helapse := total_elapse hm hs hδ n h.spaced
      rcases Nat.eq_zero_or_pos q with hzero | hpos
      · -- nothing was waiting: the demands alone fit
        have htotal : (sources.length : ℤ) * total spacing (n + 1) sources.length sources ≤
            sources.length * ((n + 1 : ℕ) + sources.length - 1) := by
          apply total_le
          intro s hmem
          exact demand_le_of_pos hm hs (h.later s hmem) (n + 1)
        have := Int.le_of_mul_le_mul_left htotal hm
        omega
      · have hroom := h.room (n + 1)
        omega

/-- The queue is never longer than the number of sources. -/
theorem Bounded.length_le {q : ℕ} {sources : List Source} (h : Bounded spacing q sources) :
    q ≤ sources.length := by
  have hnonneg : 0 ≤ total spacing 0 sources.length sources := by
    apply List.sum_nonneg
    intro d hd
    obtain ⟨s, -, rfl⟩ := List.mem_map.1 hd
    exact demand_nonneg _ _ _ _
  have := h.room 0
  omega

end MinotaurRobot.Lib.Backlog
