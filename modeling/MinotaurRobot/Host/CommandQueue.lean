import MinotaurRobot.Lib.Backlog
import MinotaurRobot.Lib.Runs
import Mathlib.Algebra.Order.Archimedean.Real.Basic

/-!
# The queue of the periodic commands

The loop of `main_command_queue.h` runs one command of the queue in every
iteration and then asks `gen_periodic` to push the commands that are due.  A
queue of more than 100 commands ends the program.

Several commands may be due at once, and a late one is caught up with
`next += period`.  `genPeriodic_sources` shows that the commands are the
sources of `Lib.Backlog`, with the time from the last reading of the clock to
`next`, and `Paced.iterate` that an iteration is one of its rounds.

A `long` of milliseconds is an `ℤ` here.
-/

namespace MinotaurRobot.Host

open Lib Lib.Backlog

variable {Command : Type}

/-- `CommandQueue::Periodic`. -/
structure Periodic (Command : Type) where
  period : ℤ
  next : ℤ
  count : ℤ
  cmd : Command

structure CommandQueue (Command : Type) where
  q : List Command := []
  perCmds : List (Periodic Command) := []

namespace CommandQueue

def size (queue : CommandQueue Command) : ℕ := queue.q.length

def push (queue : CommandQueue Command) (c : Command) : CommandQueue Command :=
  { queue with q := queue.q ++ [c] }

def pop (queue : CommandQueue Command) : CommandQueue Command :=
  { queue with q := queue.q.tail }

/-- `CommandQueue::add_periodic`. -/
def addPeriodic (queue : CommandQueue Command) (c : Command) (per : ℤ) : CommandQueue Command :=
  { queue with perCmds := queue.perCmds ++ [{ period := per, next := 0, count := 0, cmd := c }] }

/-- The loop of `gen_periodic` over the registered commands, with the queue and
the commands as the loop leaves them. -/
def genLoop (nowMs : ℤ) : List Command → List (Periodic Command) →
    List Command × List (Periodic Command)
  | q, [] => (q, [])
  | q, it :: rest =>
    if nowMs - it.next ≥ 0 then
      -- a command that was never generated starts its period now
      let next := if it.next = 0 then nowMs else it.next
      let done := genLoop nowMs (q ++ [it.cmd]) rest
      (done.1, { it with next := next + it.period, count := it.count + 1 } :: done.2)
    else
      let done := genLoop nowMs q rest
      (done.1, it :: done.2)

/-- `CommandQueue::gen_periodic`, where the clock reads `nowMs`. -/
def genPeriodic (nowMs : ℤ) (queue : CommandQueue Command) : CommandQueue Command :=
  let done := genLoop nowMs queue.q queue.perCmds
  { q := done.1, perCmds := done.2 }

end CommandQueue

/-- The queue, and the commands run so far. -/
structure CommandLoop (Command : Type) where
  queue : CommandQueue Command
  ran : List Command := []

/-- One iteration of `mainCommandQueue`. -/
def mainCommandQueue (loop : CommandLoop Command) (nowMs : ℤ) :
    Except String (CommandLoop Command) :=
  if loop.queue.size > 100 then
    throw "Command Queue overflow detected."
  else
    match loop.queue.q with
    | [] => return { loop with queue := loop.queue.genPeriodic nowMs }
    | cmd :: _ =>
      return { queue := loop.queue.pop.genPeriodic nowMs, ran := loop.ran ++ [cmd] }

/-- The commands of a list registered in its order, each with its period. -/
def registered (cmds : List (Command × ℤ)) : CommandQueue Command :=
  cmds.foldl (fun queue c => queue.addPeriodic c.1 c.2) {}

/-- The iterations whose `gen_periodic` reads these times. -/
def iterations (loop : CommandLoop Command) (times : List ℤ) : Option (CommandLoop Command) :=
  Runs.run (fun loop nowMs => (mainCommandQueue loop nowMs).toOption) loop times

/-! ## What `gen_periodic` does -/

/-- A command after `gen_periodic`. -/
def Periodic.generate (nowMs : ℤ) (it : Periodic Command) : Periodic Command :=
  if it.next ≤ nowMs then
    { it with next := (if it.next = 0 then nowMs else it.next) + it.period, count := it.count + 1 }
  else it

theorem genLoop_eq (nowMs : ℤ) (q : List Command) (perCmds : List (Periodic Command)) :
    CommandQueue.genLoop nowMs q perCmds =
      (q ++ (perCmds.filter fun it => it.next ≤ nowMs).map Periodic.cmd,
        perCmds.map (Periodic.generate nowMs)) := by
  induction perCmds generalizing q with
  | nil => simp [CommandQueue.genLoop]
  | cons it rest ih =>
    rw [CommandQueue.genLoop]
    by_cases hdue : it.next ≤ nowMs
    · rw [if_pos (by omega), List.filter_cons_of_pos (by simpa using hdue), ih, List.map_cons,
        List.map_cons, Periodic.generate, if_pos hdue, List.append_assoc, List.singleton_append]
    · rw [if_neg (by omega), List.filter_cons_of_neg (by simpa using hdue), ih, List.map_cons,
        Periodic.generate, if_neg hdue]

/-- The sources behind the queue, at the time `nowMs`. -/
def CommandQueue.sources (nowMs : ℤ) (queue : CommandQueue Command) : List Source :=
  queue.perCmds.map fun it => ⟨it.next - nowMs, it.period⟩

@[simp] theorem sources_length (nowMs : ℤ) (queue : CommandQueue Command) :
    (queue.sources nowMs).length = queue.perCmds.length := List.length_map _

@[simp] theorem genPeriodic_registered (nowMs : ℤ) (queue : CommandQueue Command) :
    (queue.genPeriodic nowMs).perCmds.length = queue.perCmds.length := by
  rw [CommandQueue.genPeriodic, genLoop_eq]
  exact List.length_map _

/-- `gen_periodic` pushes, and no command is taken from the queue. -/
theorem genPeriodic_size (nowMs : ℤ) (queue : CommandQueue Command) :
    (queue.genPeriodic nowMs).size =
      queue.size + queue.perCmds.countP fun it => it.next ≤ nowMs := by
  unfold CommandQueue.size
  rw [CommandQueue.genPeriodic, genLoop_eq, List.length_append, List.length_map,
    List.countP_eq_length_filter]

/-- Commands that have all been generated elapse as sources do. -/
theorem genPeriodic_sources {last nowMs : ℤ} {queue : CommandQueue Command} (hlast : 0 ≤ last)
    (hlater : ∀ it ∈ queue.perCmds, last < it.next) :
    (queue.genPeriodic nowMs).sources nowMs =
      (queue.sources last).map (Source.elapse (nowMs - last)) := by
  unfold CommandQueue.sources
  rw [CommandQueue.genPeriodic, genLoop_eq, List.map_map, List.map_map]
  apply List.map_congr_left
  intro it hit
  have hnext := hlater it hit
  show Source.mk ((it.generate nowMs).next - nowMs) (it.generate nowMs).period =
    Source.elapse (nowMs - last) ⟨it.next - last, it.period⟩
  by_cases hdue : it.next ≤ nowMs
  · have hahead : it.next - last ≤ nowMs - last := by omega
    have helapse : Source.elapse (nowMs - last) ⟨it.next - last, it.period⟩ =
        ⟨it.next - last - (nowMs - last) + it.period, it.period⟩ := if_pos hahead
    rw [helapse, Periodic.generate, if_pos hdue, if_neg (by omega), Source.mk.injEq]
    refine ⟨?_, rfl⟩
    show it.next + it.period - nowMs = _
    omega
  · have hahead : ¬ it.next - last ≤ nowMs - last := by omega
    have helapse : Source.elapse (nowMs - last) ⟨it.next - last, it.period⟩ =
        ⟨it.next - last - (nowMs - last), it.period⟩ := if_neg hahead
    rw [helapse, Periodic.generate, if_neg hdue, Source.mk.injEq]
    exact ⟨by omega, rfl⟩

theorem released_sources (last nowMs : ℤ) (queue : CommandQueue Command) :
    released (nowMs - last) (queue.sources last) =
      queue.perCmds.countP fun it => it.next ≤ nowMs := by
  unfold released CommandQueue.sources
  rw [List.countP_map]
  apply List.countP_congr
  intro it _
  simp

/-! ## The queue along the iterations -/

/-- The state of the queue when the clock was last read as `last`: either no
command was generated yet, or the queue has room for what the commands can
still release. -/
inductive Paced (spacing last : ℤ) (queue : CommandQueue Command) : Prop
  | fresh (hempty : queue.q = []) (hzero : ∀ it ∈ queue.perCmds, it.next = 0)
      (hspaced : ∀ it ∈ queue.perCmds, spacing ≤ it.period)
  | running (hlast : 0 ≤ last) (hbounded : Bounded spacing queue.size (queue.sources last))

variable {spacing last nowMs : ℤ} {queue : CommandQueue Command}

theorem Paced.size_le (h : Paced spacing last queue) : queue.size ≤ queue.perCmds.length := by
  cases h with
  | fresh hempty _ _ =>
    unfold CommandQueue.size
    rw [hempty]
    exact Nat.zero_le _
  | running _ hbounded => simpa using hbounded.length_le

/-- The first time that `gen_periodic` finds the commands due, all are. -/
theorem Paced.generate_fresh (hs : 0 < spacing) (hempty : queue.q = [])
    (hzero : ∀ it ∈ queue.perCmds, it.next = 0)
    (hspaced : ∀ it ∈ queue.perCmds, spacing ≤ it.period) :
    Paced spacing nowMs (queue.genPeriodic nowMs) := by
  by_cases hstart : 0 ≤ nowMs
  · refine Paced.running hstart ?_
    have hall : (queue.genPeriodic nowMs).size =
        ((queue.genPeriodic nowMs).sources nowMs).length := by
      rw [genPeriodic_size, sources_length, genPeriodic_registered, List.countP_eq_length.2]
      · unfold CommandQueue.size
        rw [hempty, List.length_nil, Nat.zero_add]
      · intro it hit
        simpa [hzero it hit] using hstart
    rw [hall]
    have hsource : ∀ s ∈ (queue.genPeriodic nowMs).sources nowMs,
        s.ahead = s.period ∧ spacing ≤ s.period := by
      intro s hmem
      unfold CommandQueue.sources at hmem
      rw [CommandQueue.genPeriodic, genLoop_eq, List.map_map] at hmem
      obtain ⟨it, hit, rfl⟩ := List.mem_map.1 hmem
      have hnext := hzero it hit
      simp only [Function.comp, Periodic.generate, hnext, hstart, if_true]
      exact ⟨by omega, hspaced it hit⟩
    exact Bounded.start hs (fun s hmem => (hsource s hmem).2) fun s hmem => (hsource s hmem).1
  · -- the clock is still before the zero that `add_periodic` stored
    have hnone : ∀ it ∈ queue.perCmds, ¬ it.next ≤ nowMs := by
      intro it hit
      rw [hzero it hit]
      exact hstart
    have hsame : queue.genPeriodic nowMs = queue := by
      rw [CommandQueue.genPeriodic, genLoop_eq]
      have hfilter : (queue.perCmds.filter fun it => it.next ≤ nowMs) = [] := by
        rw [List.filter_eq_nil_iff]
        intro it hit
        simpa using hnone it hit
      have hmap : queue.perCmds.map (Periodic.generate nowMs) = queue.perCmds := by
        rw [List.map_congr_left (g := id)]
        · exact List.map_id _
        · intro it hit
          rw [Periodic.generate, if_neg (hnone it hit)]
          rfl
      simp [hfilter, hmap]
    rw [hsame]
    exact Paced.fresh hempty hzero hspaced

theorem Paced.generate_running (hs : 0 < spacing) (hlast : 0 ≤ last)
    (hbounded : Bounded spacing queue.size (queue.sources last)) (hle : last ≤ nowMs)
    (hgap : queue.perCmds.length * (nowMs - last) ≤ spacing) :
    Paced spacing nowMs (queue.pop.genPeriodic nowMs) := by
  refine Paced.running (by omega) ?_
  have hlater : ∀ it ∈ queue.pop.perCmds, last < it.next := by
    intro it hit
    have := hbounded.later _ (List.mem_map_of_mem hit)
    dsimp only at this
    omega
  have hround := hbounded.round hs (by simpa using hgap)
  rw [genPeriodic_size, genPeriodic_sources hlast hlater]
  have hpop : queue.pop.size = queue.size - 1 := List.length_tail
  rw [hpop, ← released_sources last nowMs queue.pop]
  exact hround

/-- An iteration keeps the queue paced if the clock moved on by no more than the
share of one command. -/
theorem Paced.iterate {loop loop' : CommandLoop Command} (hs : 0 < spacing)
    (h : Paced spacing last loop.queue) (hle : last ≤ nowMs)
    (hgap : loop.queue.perCmds.length * (nowMs - last) ≤ spacing)
    (hrun : mainCommandQueue loop nowMs = .ok loop') :
    Paced spacing nowMs loop'.queue ∧ loop'.queue.perCmds.length = loop.queue.perCmds.length := by
  have hqueue : loop'.queue = loop.queue.pop.genPeriodic nowMs := by
    unfold mainCommandQueue at hrun
    split at hrun
    · cases hrun
    · split at hrun
      · next hempty =>
        cases hrun
        show _ = CommandQueue.genPeriodic nowMs { loop.queue with q := loop.queue.q.tail }
        rw [hempty, List.tail_nil, ← hempty]
      · cases hrun
        rfl
  rw [hqueue]
  refine ⟨?_, genPeriodic_registered nowMs _⟩
  cases h with
  | fresh hempty hzero hspaced =>
    have hpop : loop.queue.pop.q = [] := by
      show loop.queue.q.tail = []
      rw [hempty, List.tail_nil]
    have hfresh : Paced spacing nowMs (loop.queue.pop.genPeriodic nowMs) :=
      Paced.generate_fresh hs hpop hzero hspaced
    exact hfresh
  | running hlast hbounded => exact Paced.generate_running hs hlast hbounded hle hgap

/-- As long as the queue is short enough, an iteration does not throw. -/
theorem mainCommandQueue_ok {loop : CommandLoop Command} (h : loop.queue.size ≤ 100)
    (nowMs : ℤ) : ∃ loop', mainCommandQueue loop nowMs = .ok loop' := by
  unfold mainCommandQueue
  rw [if_neg (by omega)]
  split
  · exact ⟨_, rfl⟩
  · exact ⟨_, rfl⟩

/-- The iterations after the clock was read as `last`. -/
theorem Paced.iterations {m : ℕ} {loop : CommandLoop Command} {times : List ℤ}
    (hs : 0 < spacing) (h : Paced spacing last loop.queue) (hm : loop.queue.perCmds.length = m)
    (htimes : (last :: times).IsChain fun t t' => t ≤ t' ∧ m * (t' - t) ≤ spacing) :
    (∀ seen loop', seen <+: times → iterations loop seen = some loop' → loop'.queue.size ≤ m) ∧
      (m ≤ 100 → ∃ loop', iterations loop times = some loop') := by
  have hsize := h.size_le
  rw [hm] at hsize
  induction times generalizing loop last with
  | nil =>
    refine ⟨?_, fun _ => ⟨loop, rfl⟩⟩
    intro seen loop' hseen hrun
    obtain rfl := List.prefix_nil.1 hseen
    cases hrun
    exact hsize
  | cons now times ih =>
    obtain ⟨⟨hle, hgap⟩, hrest⟩ := List.isChain_cons_cons.1 htimes
    rw [← hm] at hgap
    have hstep : ∀ next, mainCommandQueue loop now = .ok next →
        (∀ seen loop', seen <+: times → Host.iterations next seen = some loop' →
          loop'.queue.size ≤ m) ∧
        (m ≤ 100 → ∃ loop', Host.iterations next times = some loop') := by
      intro next hnext
      obtain ⟨hpaced, hlength⟩ := h.iterate hs hle hgap hnext
      have hnext_size := hpaced.size_le
      rw [hlength, hm] at hnext_size
      exact ih hpaced (hlength.trans hm) hrest hnext_size
    constructor
    · intro seen loop' hseen hrun
      cases seen with
      | nil =>
        cases hrun
        exact hsize
      | cons now' seen =>
        obtain ⟨rfl, hfront⟩ := List.cons_prefix_cons.1 hseen
        obtain ⟨next, hnext, hrun⟩ := Option.bind_eq_some_iff.1 hrun
        cases hiter : mainCommandQueue loop now' with
        | error text =>
          simp [hiter, Except.toOption] at hnext
        | ok done =>
          obtain rfl : done = next := by simpa [hiter, Except.toOption] using hnext
          exact (hstep done hiter).1 seen loop' hfront hrun
    · intro hhundred
      obtain ⟨next, hnext⟩ := mainCommandQueue_ok (hsize.trans hhundred) now
      obtain ⟨loop', hrun⟩ := (hstep next hnext).2 hhundred
      refine ⟨loop', ?_⟩
      show ((mainCommandQueue loop now).toOption.bind _) = _
      rw [hnext]
      exact hrun

/-! ## The registered commands -/

theorem registered_eq (cmds : List (Command × ℤ)) :
    registered cmds =
      { q := [], perCmds := cmds.map fun c => ⟨c.2, 0, 0, c.1⟩ } := by
  induction cmds using List.reverseRecOn with
  | nil => rfl
  | append_singleton cmds c ih =>
    unfold registered at ih ⊢
    rw [List.foldl_append, ih, List.map_append]
    rfl

/-- The commands start paced, whatever the clock reads first. -/
theorem registered_paced {cmds : List (Command × ℤ)} (hper : ∀ c ∈ cmds, spacing ≤ c.2)
    (last : ℤ) : Paced spacing last (registered cmds) := by
  rw [registered_eq]
  refine Paced.fresh rfl ?_ ?_
  · intro it hit
    obtain ⟨c, -, rfl⟩ := List.mem_map.1 hit
    rfl
  · intro it hit
    obtain ⟨c, hc, rfl⟩ := List.mem_map.1 hit
    exact hper c hc

/-- If successive readings of the clock are at most `P / m` apart, where `m`
commands with periods of at least `P` are registered, then the queue never has
more than `m` commands.  With `m ≤ 100` the loop does not throw. -/
theorem queue_size_le_registered {P : ℝ} (hP : 0 < P) (cmds : List (Command × ℤ))
    (hcmds : cmds ≠ []) (hper : ∀ c ∈ cmds, P ≤ c.2) (times : List ℤ)
    (htimes : times.IsChain fun t t' : ℤ => t ≤ t' ∧ ((t' - t : ℤ) : ℝ) ≤ P / cmds.length) :
    (∀ seen loop, seen <+: times → iterations { queue := registered cmds } seen = some loop →
        loop.queue.size ≤ cmds.length) ∧
      (cmds.length ≤ 100 → ∃ loop, iterations { queue := registered cmds } times = some loop) := by
  have hs : 0 < ⌈P⌉ := Int.ceil_pos.2 hP
  have hpaced : ∀ last, Paced ⌈P⌉ last (registered cmds) :=
    registered_paced fun c hc => Int.ceil_le.2 (hper c hc)
  have hm : (registered cmds).perCmds.length = cmds.length := by
    rw [registered_eq]
    exact List.length_map _
  have hchain : times.IsChain fun t t' : ℤ => t ≤ t' ∧ cmds.length * (t' - t) ≤ ⌈P⌉ := by
    apply htimes.imp
    rintro t t' ⟨hle, hgap⟩
    have hpos : (0 : ℝ) < cmds.length := by
      exact_mod_cast List.length_pos_of_ne_nil hcmds
    refine ⟨hle, ?_⟩
    have hshare : (cmds.length : ℝ) * (t' - t : ℤ) ≤ P := by
      rw [mul_comm]
      exact (le_div_iff₀ hpos).1 hgap
    have hceil : ((cmds.length * (t' - t) : ℤ) : ℝ) ≤ (⌈P⌉ : ℤ) := by
      rw [Int.cast_mul, Int.cast_natCast]
      exact hshare.trans (Int.le_ceil P)
    exact_mod_cast hceil
  cases times with
  | nil =>
    exact Paced.iterations hs (hpaced 0) hm (by simp)
  | cons first times =>
    apply Paced.iterations hs (hpaced first) hm
    refine List.isChain_cons_cons.2 ⟨⟨le_refl first, ?_⟩, hchain⟩
    rw [sub_self, mul_zero]
    exact hs.le

/-- The two commands that `mainCommandQueue` registers. -/
theorem queue_size_le_registered_robot :
    (∀ seen loop, seen <+: [3, 52, 101, 101, 150] →
        iterations { queue := registered [("Keepalive", 100), ("SwapDepth", 99)] } seen =
          some loop →
        loop.queue.size ≤ 2) ∧
      ∃ loop, iterations { queue := registered [("Keepalive", 100), ("SwapDepth", 99)] }
        [3, 52, 101, 101, 150] = some loop := by
  have h := queue_size_le_registered (P := 99) (by norm_num) [("Keepalive", 100), ("SwapDepth", 99)]
    (by simp) (by norm_num) [3, 52, 101, 101, 150] (by norm_num)
  exact ⟨h.1, h.2 (by decide)⟩

end MinotaurRobot.Host
