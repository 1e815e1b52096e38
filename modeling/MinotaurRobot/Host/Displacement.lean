import MinotaurRobot.Host.Elapsed
import MinotaurRobot.Lib.Counter

/-!
# The distance behind the position

The position moves by the tick differences of the commits.
`pose_eq_updates` says that it is nothing else, and `sum_diff_eq_travelled`
that these differences are taken between successive committed readings: a
rejected reading is neither counted nor a reference.

`displacement_conserved` adds the wrap of the 16-bit counters: the sum of the
differences is the distance between the first and the last committed reading.
-/

namespace MinotaurRobot.Host

open Lib Lib.Counter

variable {F : Type} {odometry : Odometry F}

/-- The checks that ended in a commit. -/
def commitsOf (odometry : Odometry F) (calls : List RecvCall) : List (Check F) :=
  (checksOf odometry calls).filter fun k => k.committed.isSome

/-- The difference of two readings, as `recv` takes it. -/
def readingDiff (previous next : UInt16) : Int := unwrap ((next.toNat : Int) - previous.toNat)

theorem unwrap_eq_across (diff : Int) : unwrap diff = across 32768 diff := rfl

/-- Readings of close counts have the difference of the counts. -/
theorem readingDiff_of_counts {x y : Int} {a b : UInt16} (ha : x % 65536 = a.toNat)
    (hb : y % 65536 = b.toNat) (h : |y - x| ≤ 32767) : readingDiff a b = y - x := by
  rw [readingDiff, unwrap_eq_across, ← ha, ← hb]
  exact @across_emod_sub 32768 x y (by omega)

/-! ## Commits in a list of checks -/

/-- The checks of a run: each is explained, and made against the state
committed last. -/
structure Chained (odometry : Odometry F) (checks : List (Check F)) : Prop where
  explained : ∀ k ∈ checks, k.Explained odometry
  chain : ∀ pre k, pre ++ [k] <+: checks → k.current = lastCommit odometry pre

theorem checksOf_chained (odometry : Odometry F) (calls : List RecvCall) :
    Chained odometry (checksOf odometry calls) :=
  ⟨fun _ hk => checksOf_explained hk, fun _ _ hpre => checksOf_chain hpre⟩

theorem Chained.front {checks : List (Check F)} {k : Check F}
    (h : Chained odometry (checks ++ [k])) : Chained odometry checks where
  explained := fun k' hk' => h.explained k' (List.mem_append_left [k] hk')
  chain := fun pre k' hpre => h.chain pre k' (hpre.trans (List.prefix_append checks [k]))

theorem Check.committed_eq {k : Check F} {c : MinotaurState F} (h : k.Explained odometry)
    (hc : k.committed = some c) : c = moved odometry k.current k.next := by
  rw [h.committed] at hc
  split at hc
  · exact (Option.some.inj hc).symm
  · exact absurd hc (by simp)

theorem commits_concat_rejected (checks : List (Check F)) {k : Check F} (h : k.committed = none) :
    ((checks ++ [k]).filter fun k => k.committed.isSome) =
      checks.filter fun k => k.committed.isSome := by
  rw [List.filter_append, List.filter_cons_of_neg (by simp [h]), List.filter_nil,
    List.append_nil]

theorem commits_concat_accepted (checks : List (Check F)) {k : Check F} {c : MinotaurState F}
    (h : k.committed = some c) :
    ((checks ++ [k]).filter fun k => k.committed.isSome) =
      (checks.filter fun k => k.committed.isSome) ++ [k] := by
  rw [List.filter_append, List.filter_cons_of_pos (by simp [h]), List.filter_nil]

/-- The state committed last belongs to the last commit. -/
theorem lastCommit_cases (odometry : Odometry F) (checks : List (Check F)) :
    ((checks.filter fun k => k.committed.isSome) = [] ∧
        lastCommit odometry checks = MinotaurState.fresh odometry) ∨
      ∃ pre, ∃ k ∈ checks, (checks.filter fun k => k.committed.isSome) = pre ++ [k] ∧
        k.committed = some (lastCommit odometry checks) := by
  induction checks using List.reverseRecOn with
  | nil => exact Or.inl ⟨rfl, rfl⟩
  | append_singleton checks k ih =>
    cases hc : k.committed with
    | none =>
      rw [commits_concat_rejected checks hc, lastCommit_rejected checks hc]
      rcases ih with hempty | ⟨pre, k', hk', hsplit⟩
      · exact Or.inl hempty
      · exact Or.inr ⟨pre, k', List.mem_append_left [k] hk', hsplit⟩
    | some c =>
      refine Or.inr ⟨_, k, by simp, commits_concat_accepted checks hc, ?_⟩
      rw [hc, lastCommit_accepted checks hc]

/-- The fields of a committed state that are not the position. -/
theorem Check.committed_encoder {k : Check F} {c : MinotaurState F} (h : k.Explained odometry)
    (hc : k.committed = some c) (side : Side) : c.encoder side = k.next.encoder side := by
  rw [Check.committed_eq h hc]
  cases side <;> rfl

/-- A committed state has a timestamp, so the next commit uses its readings. -/
theorem Check.committed_validTs {k : Check F} {c : MinotaurState F} (h : k.Explained odometry)
    (hc : k.committed = some c) : c.validTs = true := by
  obtain ⟨a, ha, -⟩ := Check.next_reading h .left
  obtain ⟨hmem, hdata⟩ := lastReading_mem ha
  rw [Check.committed_eq h hc]
  show k.next.validTs = true
  rw [h.next]
  exact receive_validTs hmem hdata

/-! ## The sum of the differences -/

/-- The first commit has no difference, and every other one the difference to
the commit before it. -/
theorem Chained.sum_diff {checks : List (Check F)} (h : Chained odometry checks) (side : Side) :
    ((checks.filter fun k => k.committed.isSome).map fun k => k.diff side).sum =
      travelled readingDiff
        ((checks.filter fun k => k.committed.isSome).map fun k => k.next.encoder side) := by
  induction checks using List.reverseRecOn with
  | nil => rfl
  | append_singleton checks k ih =>
    cases hc : k.committed with
    | none =>
      rw [commits_concat_rejected checks hc]
      exact ih h.front
    | some c =>
      have hcurrent : k.current = lastCommit odometry checks := h.chain checks k List.prefix_rfl
      rw [commits_concat_accepted checks hc, List.map_append, List.sum_append, ih h.front,
        List.map_append]
      rcases lastCommit_cases odometry checks with ⟨hempty, hfresh⟩ | ⟨pre, k', hk', hsplit, hlast⟩
      · have hdiff : k.diff side = 0 := by
          rw [Check.diff, hcurrent, hfresh]
          rfl
        rw [hempty]
        simp [travelled, hdiff]
      · have hexplained := h.explained k' (List.mem_append_left [k] hk')
        have hdiff : k.diff side = readingDiff (k'.next.encoder side) (k.next.encoder side) := by
          rw [Check.diff, tickDiff, hcurrent, if_pos (Check.committed_validTs hexplained hlast),
            Check.committed_encoder hexplained hlast]
          rfl
        rw [hsplit]
        simp only [List.map_append, List.map_cons, List.map_nil, List.append_assoc,
          List.cons_append, List.nil_append]
        rw [travelled_concat, hdiff, List.sum_singleton]

/-- The differences of the commits are the differences along the committed
readings, whatever was rejected in between. -/
theorem sum_diff_eq_travelled (odometry : Odometry F) (calls : List RecvCall) (side : Side) :
    ((commitsOf odometry calls).map fun k => k.diff side).sum =
      travelled readingDiff ((commitsOf odometry calls).map fun k => k.next.encoder side) :=
  (checksOf_chained odometry calls).sum_diff side

/-- The sum of the differences that went into the position is the distance
between the first and the last committed reading, if the true counts of
successive committed readings are closer than half the range. -/
theorem displacement_conserved (odometry : Odometry F) (calls : List RecvCall) (side : Side)
    (count : Nat → Int)
    (hcount : ∀ i k c, (commitsOf odometry calls)[i]? = some k → k.committed = some c →
      count i % 65536 = (c.encoder side).toNat)
    (hnear : ∀ i, i + 1 < (commitsOf odometry calls).length →
      |count (i + 1) - count i| ≤ 32767) :
    ((commitsOf odometry calls).map fun k => k.diff side).sum =
      count ((commitsOf odometry calls).length - 1) - count 0 := by
  have hreading : ∀ i a,
      ((commitsOf odometry calls).map fun k => k.next.encoder side)[i]? = some a →
        count i % 65536 = a.toNat := by
    intro i a ha
    rw [List.getElem?_map, Option.map_eq_some_iff] at ha
    obtain ⟨k, hk, rfl⟩ := ha
    have hmem := List.mem_filter.1 (List.mem_of_getElem? hk)
    obtain ⟨c, hc⟩ := Option.isSome_iff_exists.1 hmem.2
    rw [hcount i k c hk hc, Check.committed_encoder (checksOf_explained hmem.1) hc]
  have hlen : ((commitsOf odometry calls).map fun k => k.next.encoder side).length =
      (commitsOf odometry calls).length := List.length_map _
  rw [sum_diff_eq_travelled, ← hlen]
  apply travelled_eq
  intro i a b ha hb
  have hlt : i + 1 < (commitsOf odometry calls).length := by
    rw [← hlen]
    exact (List.getElem?_eq_some_iff.1 hb).1
  exact readingDiff_of_counts (hreading i a ha) (hreading (i + 1) b hb) (hnear i hlt)

/-- The counters are read at 65530, jump to 30000 and are read at 10, always
one second apart. -/
def wrappedSample : List RecvCall :=
  threeSamples (1000, 65530) (1001000, 30000) (2001000, 10)

/-- The jump is rejected, and the counters have gone 16 ticks. -/
theorem displacement_wrapped :
    (checksOf exactOdometry wrappedSample).map (fun k => k.committed.isSome) =
        [true, false, true] ∧
      ((commitsOf exactOdometry wrappedSample).map fun k => k.diff .left).sum = 16 := by
  have hreadings : (commitsOf exactOdometry wrappedSample).map
      (fun k => k.committed.map fun c => c.encoder .left) = [some 65530, some 10] := by decide
  have hlen : (commitsOf exactOdometry wrappedSample).length = 2 :=
    (List.length_map _).symm.trans (congrArg List.length hreadings)
  have h := displacement_conserved exactOdometry wrappedSample .left
    (fun i => if i = 0 then 65530 else 65546) ?_ ?_
  · rw [hlen] at h
    exact ⟨by decide, h⟩
  · intro i k c hk hc
    have hi := congrArg (fun l => l[i]?) hreadings
    rw [List.getElem?_map, hk, Option.map_some, hc, Option.map_some] at hi
    match i, hi with
    | 0, hi =>
      simp only [List.getElem?_cons_zero, Option.some.injEq] at hi
      rw [hi]
      decide
    | 1, hi =>
      simp only [List.getElem?_cons_succ, List.getElem?_cons_zero, Option.some.injEq] at hi
      rw [hi]
      decide
  · intro i hi
    rw [hlen] at hi
    have hzero : i = 0 := by omega
    rw [hzero]
    decide

/-! ## The position -/

/-- The position of a state. -/
def MinotaurState.pose (st : MinotaurState F) : F × F × F := (st.x, st.y, st.orient)

theorem Chained.pose {checks : List (Check F)} (h : Chained odometry checks) :
    (lastCommit odometry checks).pose =
      (checks.filter fun k => k.committed.isSome).foldl
        (fun pose k => odometry.move (k.diff .left) (k.diff .right) pose)
        (MinotaurState.fresh odometry).pose := by
  induction checks using List.reverseRecOn with
  | nil => rfl
  | append_singleton checks k ih =>
    cases hc : k.committed with
    | none =>
      rw [commits_concat_rejected checks hc, lastCommit_rejected checks hc]
      exact ih h.front
    | some c =>
      have hcurrent : k.current = lastCommit odometry checks := h.chain checks k List.prefix_rfl
      rw [commits_concat_accepted checks hc, lastCommit_accepted checks hc, List.foldl_append,
        ← ih h.front, ← hcurrent, Check.committed_eq (h.explained k (by simp)) hc]
      rfl

/-- The position of `currentState` is the start position moved by the
differences of the commits, in their order. -/
theorem pose_eq_updates (odometry : Odometry F) (calls : List RecvCall) :
    ∃ log, logOf odometry calls = some log ∧ log.minotaur.currentState.pose =
      (commitsOf odometry calls).foldl
        (fun pose k => odometry.move (k.diff .left) (k.diff .right) pose)
        (MinotaurState.fresh odometry).pose := by
  obtain ⟨log, hrun, hexplained⟩ := logOf_explained odometry calls
  have hchecks : checksOf odometry calls = log.checks := by
    rw [checksOf, hrun]
  refine ⟨log, hrun, ?_⟩
  rw [hexplained.last, commitsOf, ← hchecks]
  exact (checksOf_chained odometry calls).pose

end MinotaurRobot.Host
