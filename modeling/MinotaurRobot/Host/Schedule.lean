import MinotaurRobot.Host.CommandQueue

/-!
# The schedule of a periodic command

`next` is `0` until the first call of `gen_periodic`, which takes the first due
time from its clock.  From then on the due times are `period` apart, whatever
the times of the calls are.  `OnSchedule` is what a call keeps of one command,
and `genPeriodic_onSchedule` that the commands do not disturb each other.

`next` is behind the first call and only grows, so no later call takes a
command for one that was never generated.
-/

namespace MinotaurRobot.Host

variable {Command : Type}

/-! ## One command -/

/-- Behind calls from `t₁` to `now` the command was generated at `t₁`, and
then once for each period. -/
structure OnSchedule (t₁ p now : ℤ) (it : Periodic Command) : Prop where
  period : it.period = p
  counted : 1 ≤ it.count
  next : it.next = t₁ + it.count * p
  due : t₁ + (it.count - 1) * p ≤ now

/-- No due time has passed. -/
def UpToDate (now : ℤ) (it : Periodic Command) : Prop := now < it.next

theorem OnSchedule.next_pos {t₁ p now : ℤ} {it : Periodic Command} (h : OnSchedule t₁ p now it)
    (hp : 0 < p) (ht : 0 ≤ t₁) : 0 < it.next := by
  have hpos : 0 < it.count * p := mul_pos (by have := h.counted; omega) hp
  rw [h.next]
  omega

theorem generate_of_due {nowMs : ℤ} {it : Periodic Command} (hnext : it.next ≠ 0)
    (hdue : it.next ≤ nowMs) :
    it.generate nowMs = { it with next := it.next + it.period, count := it.count + 1 } := by
  rw [Periodic.generate, if_pos hdue, if_neg hnext]

theorem generate_of_not_due {nowMs : ℤ} {it : Periodic Command} (hdue : ¬ it.next ≤ nowMs) :
    it.generate nowMs = it := by
  rw [Periodic.generate, if_neg hdue]

theorem generate_first {t₁ p : ℤ} (ht : 0 ≤ t₁) (cmd : Command) :
    Periodic.generate t₁ ⟨p, 0, 0, cmd⟩ = ⟨p, t₁ + p, 1, cmd⟩ := by
  rw [Periodic.generate, if_pos ht, if_pos rfl]
  rfl

/-- The first call. -/
theorem onSchedule_first {t₁ p : ℤ} (ht : 0 ≤ t₁) (cmd : Command) :
    OnSchedule t₁ p t₁ (Periodic.generate t₁ ⟨p, 0, 0, cmd⟩) := by
  rw [generate_first ht]
  refine ⟨rfl, ?_, ?_, ?_⟩
  all_goals dsimp only
  · omega
  · rw [one_mul]
  · rw [sub_self, zero_mul, add_zero]

/-- Every later call. -/
theorem OnSchedule.generate {t₁ p now t : ℤ} {it : Periodic Command} (h : OnSchedule t₁ p now it)
    (hp : 0 < p) (ht : 0 ≤ t₁) (hle : now ≤ t) : OnSchedule t₁ p t (it.generate t) := by
  have hpos := h.next_pos hp ht
  by_cases hdue : it.next ≤ t
  · rw [generate_of_due (by omega) hdue]
    have hcounted := h.counted
    refine ⟨h.period, ?_, ?_, ?_⟩
    all_goals dsimp only
    · omega
    · rw [h.next, h.period]
      ring
    · rw [add_sub_cancel_right, ← h.next]
      exact hdue
  · rw [generate_of_not_due hdue]
    exact ⟨h.period, h.counted, h.next, h.due.trans hle⟩

theorem onSchedule_run {t₁ p now : ℤ} {it : Periodic Command} (h : OnSchedule t₁ p now it)
    (hp : 0 < p) (ht : 0 ≤ t₁) {times : List ℤ} (hmono : (now :: times).IsChain (· ≤ ·)) :
    OnSchedule t₁ p (times.getLastD now) (times.foldl (fun it t => it.generate t) it) := by
  induction times generalizing now it with
  | nil => exact h
  | cons t times ih =>
    obtain ⟨hle, hrest⟩ := List.isChain_cons_cons.1 hmono
    rw [List.getLastD_cons]
    exact ih (h.generate hp ht hle) hrest

/-- A call at most a period behind the last one catches up. -/
theorem upToDate_generate {t₁ p now t : ℤ} {it : Periodic Command} (h : OnSchedule t₁ p now it)
    (hp : 0 < p) (ht : 0 ≤ t₁) (hdate : UpToDate now it) (hnear : t - now ≤ p) :
    UpToDate t (it.generate t) := by
  have hpos := h.next_pos hp ht
  have hperiod := h.period
  unfold UpToDate at hdate ⊢
  by_cases hdue : it.next ≤ t
  · rw [generate_of_due (by omega) hdue]
    dsimp only
    omega
  · rw [generate_of_not_due hdue]
    omega

theorem upToDate_run {t₁ p now : ℤ} {it : Periodic Command} (h : OnSchedule t₁ p now it)
    (hp : 0 < p) (ht : 0 ≤ t₁) (hdate : UpToDate now it) {times : List ℤ}
    (hmono : (now :: times).IsChain (· ≤ ·))
    (hnear : (now :: times).IsChain fun a b => b - a ≤ p) :
    UpToDate (times.getLastD now) (times.foldl (fun it t => it.generate t) it) := by
  induction times generalizing now it with
  | nil => exact hdate
  | cons t times ih =>
    obtain ⟨hle, hrest⟩ := List.isChain_cons_cons.1 hmono
    obtain ⟨hstep, hsteps⟩ := List.isChain_cons_cons.1 hnear
    rw [List.getLastD_cons]
    exact ih (h.generate hp ht hle) (upToDate_generate h hp ht hdate hstep) hrest hsteps

/-- The count is at most the number of due times, -/
theorem OnSchedule.count_le {t₁ p now : ℤ} {it : Periodic Command} (h : OnSchedule t₁ p now it)
    (hp : 0 < p) : it.count ≤ (now - t₁) / p + 1 := by
  have hle : it.count - 1 ≤ (now - t₁) / p := by
    rw [Int.le_ediv_iff_mul_le hp]
    have hdue := h.due
    omega
  omega

/-- and that number if none has passed. -/
theorem OnSchedule.count_eq {t₁ p now : ℤ} {it : Periodic Command} (h : OnSchedule t₁ p now it)
    (hp : 0 < p) (hdate : UpToDate now it) : it.count = (now - t₁) / p + 1 := by
  have hlt : (now - t₁) / p < it.count := by
    rw [Int.ediv_lt_iff_lt_mul hp]
    have hnext := h.next
    unfold UpToDate at hdate
    omega
  have hle := h.count_le hp
  omega

theorem foldl_generate_cmd (it : Periodic Command) (times : List ℤ) :
    (times.foldl (fun it t => it.generate t) it).cmd = it.cmd := by
  induction times generalizing it with
  | nil => rfl
  | cons t times ih =>
    rw [List.foldl_cons, ih, Periodic.generate]
    split_ifs <;> rfl

/-! ## The commands of a queue -/

/-- The calls of `gen_periodic` whose clocks read these times. -/
def CommandQueue.calls (queue : CommandQueue Command) (times : List ℤ) : CommandQueue Command :=
  times.foldl (fun queue t => queue.genPeriodic t) queue

/-- The commands whose count goes up from one queue to the other, each once. -/
def CommandQueue.counted (before after : CommandQueue Command) : List Command :=
  ((before.perCmds.zip after.perCmds).filter fun c => c.1.count < c.2.count).map fun c => c.1.cmd

theorem genPeriodic_perCmds (nowMs : ℤ) (queue : CommandQueue Command) :
    (queue.genPeriodic nowMs).perCmds = queue.perCmds.map (Periodic.generate nowMs) := by
  rw [CommandQueue.genPeriodic, genLoop_eq]

/-- The commands do not disturb each other. -/
theorem calls_perCmds (queue : CommandQueue Command) (times : List ℤ) :
    (queue.calls times).perCmds =
      queue.perCmds.map fun it => times.foldl (fun it t => it.generate t) it := by
  induction times generalizing queue with
  | nil => exact (List.map_id' queue.perCmds).symm
  | cons t times ih =>
    have htail := ih (queue.genPeriodic t)
    rw [genPeriodic_perCmds, List.map_map] at htail
    exact htail

theorem generate_count (nowMs : ℤ) (it : Periodic Command) :
    (it.generate nowMs).count = if it.next ≤ nowMs then it.count + 1 else it.count := by
  unfold Periodic.generate
  split_ifs <;> rfl

/-- A call pushes the commands that it counts, and counts each at most once. -/
theorem genPeriodic_pushes (nowMs : ℤ) (queue : CommandQueue Command) :
    (queue.genPeriodic nowMs).q = queue.q ++ queue.counted (queue.genPeriodic nowMs) := by
  have hdue : ((queue.perCmds.zip (queue.perCmds.map (Periodic.generate nowMs))).filter
      fun c => c.1.count < c.2.count).map (fun c => c.1.cmd) =
        (queue.perCmds.filter fun it => it.next ≤ nowMs).map Periodic.cmd := by
    induction queue.perCmds with
    | nil => rfl
    | cons it rest ih =>
      rw [List.map_cons, List.zip_cons_cons, List.filter_cons, List.filter_cons]
      by_cases hdue : it.next ≤ nowMs
      · have hup : it.count < (it.generate nowMs).count := by
          rw [generate_count, if_pos hdue]
          omega
        rw [if_pos (decide_eq_true hup), if_pos (decide_eq_true hdue), List.map_cons, ih,
          List.map_cons]
      · have hsame : ¬ it.count < (it.generate nowMs).count := by
          rw [generate_count, if_neg hdue]
          omega
        rw [if_neg (by simpa using hsame), if_neg (by simpa using hdue), ih]
  unfold CommandQueue.counted
  rw [genPeriodic_perCmds, hdue, CommandQueue.genPeriodic, genLoop_eq]

theorem calls_concat (queue : CommandQueue Command) (times : List ℤ) (t : ℤ) :
    queue.calls (times ++ [t]) = (queue.calls times).genPeriodic t := List.foldl_concat ..

/-- A registered command, from the first call on.  Its due times are `p` apart
and start with the first call, it is never counted before it is due, each call
pushes what it counts and counts by one at most, and calls that are at most a
period apart miss no due time. -/
theorem periodic_schedule {queue : CommandQueue Command} {i : ℕ} {p : ℤ} {c : Command}
    (hadded : queue.perCmds[i]? = some ⟨p, 0, 0, c⟩) (hp : 0 < p) {t₁ : ℤ} (ht : 0 ≤ t₁)
    {times : List ℤ} (hmono : (t₁ :: times).IsChain (· ≤ ·)) :
    (∃ it, (queue.calls (t₁ :: times)).perCmds[i]? = some it ∧ it.cmd = c ∧ 1 ≤ it.count ∧
        it.next = t₁ + it.count * p ∧ it.count ≤ (times.getLastD t₁ - t₁) / p + 1 ∧
        ((t₁ :: times).IsChain (fun a b => b - a ≤ p) →
          it.count = (times.getLastD t₁ - t₁) / p + 1)) ∧
      ∀ pre t, pre ++ [t] <+: t₁ :: times →
        (queue.calls (pre ++ [t])).q =
            (queue.calls pre).q ++ (queue.calls pre).counted (queue.calls (pre ++ [t])) ∧
          ∃ a b, (queue.calls pre).perCmds[i]? = some a ∧
            (queue.calls (pre ++ [t])).perCmds[i]? = some b ∧
            (b.count = a.count ∨ b.count = a.count + 1) := by
  constructor
  · have hfirst := onSchedule_first (p := p) ht c
    have hrun := onSchedule_run hfirst hp ht hmono
    refine ⟨times.foldl (fun it t => it.generate t) (Periodic.generate t₁ ⟨p, 0, 0, c⟩),
      ?_, ?_, hrun.counted, hrun.next, hrun.count_le hp, ?_⟩
    · rw [calls_perCmds, List.getElem?_map, hadded]
      rfl
    · rw [foldl_generate_cmd, generate_first ht]
    · intro hnear
      have hdate : UpToDate t₁ (Periodic.generate t₁ ⟨p, 0, 0, c⟩) := by
        rw [generate_first ht]
        show t₁ < t₁ + p
        omega
      exact hrun.count_eq hp (upToDate_run hfirst hp ht hdate hmono hnear)
  · intro pre t hpre
    rw [calls_concat]
    refine ⟨genPeriodic_pushes t (queue.calls pre), ?_⟩
    have hbefore : ∃ a, (queue.calls pre).perCmds[i]? = some a := by
      rw [calls_perCmds, List.getElem?_map, hadded]
      exact ⟨_, rfl⟩
    obtain ⟨a, ha⟩ := hbefore
    refine ⟨a, a.generate t, ha, ?_, ?_⟩
    · rw [genPeriodic_perCmds, List.getElem?_map, ha]
      rfl
    · rw [generate_count]
      split_ifs
      · exact Or.inr rfl
      · exact Or.inl rfl

theorem periodic_schedule_late :
    ∃ it, ((registered [("ComKeepalive", 100)]).calls [0, 30, 350, 351]).perCmds[0]? = some it ∧
      it.cmd = "ComKeepalive" ∧ 1 ≤ it.count ∧ it.next = 0 + it.count * 100 ∧
      it.count ≤ (351 - 0) / 100 + 1 := by
  have hmono : ([0, 30, 350, 351] : List ℤ).IsChain (· ≤ ·) := by decide
  have hadded : (registered [("ComKeepalive", 100)]).perCmds[0]? =
      some ⟨100, 0, 0, "ComKeepalive"⟩ := rfl
  obtain ⟨⟨it, hit, hcmd, hcount, hnext, hle, -⟩, -⟩ :=
    periodic_schedule hadded (by decide) (le_refl 0) hmono
  exact ⟨it, hit, hcmd, hcount, hnext, hle⟩

end MinotaurRobot.Host
