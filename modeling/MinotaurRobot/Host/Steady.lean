import MinotaurRobot.Host.Elapsed

/-!
# Steady arrivals

A check uses the right time if the readings that it compares came equally late
behind the first data of their samples.  `timely_of_steady` says how the packets
of a run have to come for it: every reading at a fixed time behind the timestamp
that `nextState` has then.  So no reading may come behind a rejected one, unless
the clock has not moved.

`timely_iff_lag` is about the readings that the checks have seen, and has both
directions.
-/

namespace MinotaurRobot.Host

variable {F : Type} {odometry : Odometry F}

/-! ## Steady arrivals -/

/-- Every reading of the window came `lag` behind its first data. -/
def Lagging (lag : Side → UInt32) (window : List Arrival) : Prop :=
  ∀ a ∈ window, ∀ side : Side, a.packet.command = side.command →
    a.time - firstTime window = lag side

theorem Lagging.readingTime {lag : Side → UInt32} {window : List Arrival} (h : Lagging lag window)
    {side : Side} {a : Arrival} (hlast : lastReading side window = some a) :
    readingTime side window - firstTime window = lag side := by
  have hmem := List.mem_of_getLast? hlast
  rw [List.mem_filter, decide_eq_true_eq] at hmem
  unfold Host.readingTime
  rw [hlast]
  exact h a hmem.1 side hmem.2

/-- Readings that always come with the same lags are aligned. -/
theorem Check.timely_of_lagging {k : Check F} (h : k.Explained odometry) {lag : Side → UInt32}
    (hwindow : Lagging lag k.window) (hcurrent : ∀ past, k.past = some past → Lagging lag past) :
    k.Timely odometry := by
  apply (Check.timely_iff_aligned h).2
  intro past hpast side
  obtain ⟨a, ha, -⟩ := Check.next_reading h side
  obtain ⟨a₀, ha₀, -⟩ := Check.current_reading h hpast side
  rw [hwindow.readingTime ha, (hcurrent past hpast).readingTime ha₀]

/-- When a packet is processed that is a reading, the timestamp of `nextState` is
`lag` ago.  A packet that starts the clock has no lag. -/
def OnTime (lag : Side → UInt32) (st : MinotaurState F) (a : Arrival) : Prop :=
  ∀ side : Side, a.packet.command = side.command →
    (if st.validTs then a.time - st.timestamp else 0) = lag side

/-- All packets of a call are on time. -/
def AllOnTime (lag : Side → UInt32) : MinotaurState F → List Arrival → Prop
  | _, [] => True
  | st, a :: arrived =>
    OnTime lag st a ∧ AllOnTime lag (applyPacket a.time st a.packet) arrived

instance (lag : Side → UInt32) (st : MinotaurState F) (a : Arrival) :
    Decidable (OnTime lag st a) :=
  decidable_of_iff
    ((a.packet.command = Side.left.command →
        (if st.validTs then a.time - st.timestamp else 0) = lag .left) ∧
      (a.packet.command = Side.right.command →
        (if st.validTs then a.time - st.timestamp else 0) = lag .right))
    ⟨fun h side => match side with
      | .left => h.1
      | .right => h.2, fun h => ⟨h .left, h .right⟩⟩

instance decidableAllOnTime (lag : Side → UInt32) :
    ∀ (st : MinotaurState F) (arrived : List Arrival), Decidable (AllOnTime lag st arrived)
  | _, [] => isTrue trivial
  | st, a :: arrived =>
    haveI := decidableAllOnTime lag (applyPacket a.time st a.packet) arrived
    inferInstanceAs (Decidable (_ ∧ _))

/-- In every call of the run all packets are on time. -/
def Steady (odometry : Odometry F) (lag : Side → UInt32) (calls : List RecvCall) : Prop :=
  ∀ pre call log, pre ++ [call] <+: calls → logOf odometry pre = some log →
    AllOnTime lag log.minotaur.nextState (log.arrived odometry call)

theorem firstTime_append_of_mem {window : List Arrival} {a : Arrival} (ha : a ∈ window)
    (hdata : a.isData = true) (arrived : List Arrival) :
    firstTime (window ++ arrived) = firstTime window := by
  have hsome : (window.find? Arrival.isData).isSome = true :=
    List.find?_isSome.2 ⟨a, ha, hdata⟩
  obtain ⟨b, hb⟩ := Option.isSome_iff_exists.1 hsome
  unfold firstTime
  rw [List.find?_append, hb, Option.some_or]

/-- One packet on time keeps the lags. -/
theorem Lagging.concat {lag : Side → UInt32} {window : List Arrival} (h : Lagging lag window)
    {a : Arrival} (hon : OnTime lag ((MinotaurState.fresh odometry).receive window) a) :
    Lagging lag (window ++ [a]) := by
  intro b hb side hside
  have hdata := isData_of_command hside
  rcases List.mem_append.1 hb with hold | hnew
  · rw [firstTime_append_of_mem hold hdata]
    exact h b hold side hside
  · rw [List.mem_singleton.1 hnew] at hside hdata ⊢
    have hlag := hon side hside
    cases hfind : window.find? Arrival.isData with
    | none =>
      have hfirst : firstTime (window ++ [a]) = a.time := by
        unfold firstTime
        rw [List.find?_append, hfind, Option.none_or, List.find?_cons_of_pos hdata]
      have hclock : ((MinotaurState.fresh odometry).receive window).validTs = false :=
        receive_validTs_of_none hfind
      rw [hclock] at hlag
      rw [hfirst, UInt32.sub_self]
      exact hlag
    | some c =>
      have hc := List.mem_of_find?_eq_some hfind
      have hcdata := List.find?_some hfind
      rw [receive_validTs hc hcdata, if_pos rfl, receive_timestamp] at hlag
      rw [firstTime_append_of_mem hc hcdata]
      exact hlag

theorem Lagging.append {lag : Side → UInt32} {window arrived : List Arrival}
    (h : Lagging lag window)
    (hon : AllOnTime lag ((MinotaurState.fresh odometry).receive window) arrived) :
    Lagging lag (window ++ arrived) := by
  induction arrived generalizing window with
  | nil =>
    rw [List.append_nil]
    exact h
  | cons a arrived ih =>
    have hnext : applyPacket a.time ((MinotaurState.fresh odometry).receive window) a.packet =
        (MinotaurState.fresh odometry).receive (window ++ [a]) := by
      rw [receive_append]
      rfl
    obtain ⟨hfirst, hrest⟩ := hon
    rw [hnext] at hrest
    have hall := ih (h.concat hfirst) hrest
    rwa [List.append_assoc] at hall

/-- The invariant of a run with steady arrivals. -/
structure Log.Lagging (lag : Side → UInt32) (log : Log F) : Prop where
  window : Host.Lagging lag log.window
  past : ∀ past, log.past = some past → Host.Lagging lag past
  checks : ∀ k ∈ log.checks, Host.Lagging lag k.window ∧
    ∀ past, k.past = some past → Host.Lagging lag past

theorem Log.Lagging.served {lag : Side → UInt32} {log log' : Log F} {arrived : List Arrival}
    (h : log.Lagging lag) (hexplained : log.Explained odometry)
    (hserved : Served odometry log arrived log')
    (hon : AllOnTime lag log.minotaur.nextState arrived) : log'.Lagging lag := by
  rw [hexplained.next] at hon
  have hall := h.window.append hon
  have hchecked : ∀ k ∈ log.checks ++ [log.check odometry arrived],
      Host.Lagging lag k.window ∧ ∀ past, k.past = some past → Host.Lagging lag past := by
    intro k hk
    rcases List.mem_append.1 hk with hold | hnew
    · exact h.checks k hold
    · rw [List.mem_singleton.1 hnew]
      exact ⟨hall, h.past⟩
  cases hserved with
  | idle _ _ hwindow hpast hchecks =>
    constructor
    · rw [hwindow]
      exact hall
    · rw [hpast]
      exact h.past
    · rw [hchecks]
      exact h.checks
  | rejected _ _ _ _ hwindow hpast hchecks =>
    constructor
    · rw [hwindow]
      exact hall
    · rw [hpast]
      exact h.past
    · rw [hchecks]
      exact hchecked
  | accepted _ _ _ _ hwindow hpast hchecks =>
    constructor
    · rw [hwindow]
      exact fun a ha => absurd ha List.not_mem_nil
    · rw [hpast]
      intro past hsome
      rw [← Option.some.inj hsome]
      exact hall
    · rw [hchecks]
      exact hchecked

/-- The last call of a run. -/
theorem logOf_concat {calls : List RecvCall} {call : RecvCall} {log : Log F}
    (hrun : logOf odometry (calls ++ [call]) = some log) :
    ∃ before, logOf odometry calls = some before ∧ before.Explained odometry ∧
      Served odometry before (before.arrived odometry call) log := by
  obtain ⟨before, hbefore, hexplained⟩ := logOf_explained odometry calls
  obtain ⟨log', hstep, hserved⟩ := Log.recv_served odometry before call
  obtain ⟨before', hbefore', hlast⟩ := Lib.Runs.run_concat.1 hrun
  obtain rfl := Option.some.inj (hbefore.symm.trans hbefore')
  obtain rfl := Option.some.inj (hstep.symm.trans hlast)
  exact ⟨before, hbefore, hexplained, hserved⟩

theorem lagging_of_steady {lag : Side → UInt32} {calls : List RecvCall}
    (h : Steady odometry lag calls) {log : Log F} (hrun : logOf odometry calls = some log) :
    log.Lagging lag := by
  induction calls using List.reverseRecOn generalizing log with
  | nil =>
    rw [← Option.some.inj hrun]
    constructor
    · exact fun a ha => absurd ha List.not_mem_nil
    · exact fun past hpast => absurd hpast (Option.some_ne_none past).symm
    · exact fun k hk => absurd hk List.not_mem_nil
  | append_singleton calls call ih =>
    obtain ⟨before, hbefore, hexplained, hserved⟩ := logOf_concat hrun
    have hfront : Steady odometry lag calls := fun pre call' log hpre =>
      h pre call' log (hpre.trans (List.prefix_append calls [call]))
    exact (ih hfront hbefore).served hexplained hserved
      (h calls call before List.prefix_rfl hbefore)

/-- If every reading of an encoder is processed at a fixed time behind the
timestamp that `nextState` has then, all checks of a run use the time between
the readings. -/
theorem timely_of_steady {odometry : Odometry F} {lag : Side → UInt32} {calls : List RecvCall}
    (h : Steady odometry lag calls) : ∀ k ∈ checksOf odometry calls, k.Timely odometry := by
  intro k hk
  obtain ⟨log, hrun, hexplained⟩ := logOf_explained odometry calls
  unfold checksOf at hk
  rw [hrun] at hk
  obtain ⟨hwindow, hpast⟩ := (lagging_of_steady h hrun).checks k hk
  exact Check.timely_of_lagging (hexplained.checks k hk) hwindow hpast

/-! ## The lags that the checks see -/

/-- How long the last reading came behind the first data. -/
def windowLag (window : List Arrival) (side : Side) : UInt32 :=
  readingTime side window - firstTime window

/-- Where the committed readings of the checks come from. -/
structure Log.Linked (log : Log F) : Prop where
  none : log.past = none → log.checks = []
  some : ∀ past, log.past = some past → ∃ k ∈ log.checks, k.window = past
  links : ∀ pre k, pre ++ [k] <+: log.checks →
    k.past = Option.none ∧ pre = [] ∨ ∃ k' ∈ pre, k.past = Option.some k'.window

theorem Log.Linked.links_concat {log : Log F} (h : log.Linked) (arrived : List Arrival)
    {pre : List (Check F)} {k : Check F}
    (hpre : pre ++ [k] <+: log.checks ++ [log.check odometry arrived]) :
    k.past = Option.none ∧ pre = [] ∨ ∃ k' ∈ pre, k.past = Option.some k'.window := by
  rw [List.prefix_concat_iff] at hpre
  rcases hpre with heq | hpre
  · obtain ⟨rfl, hk⟩ := List.append_inj' heq rfl
    rw [List.singleton_inj.1 hk]
    show log.past = _ ∧ _ ∨ ∃ k' ∈ log.checks, log.past = _
    cases hpast : log.past with
    | none => exact Or.inl ⟨rfl, h.none hpast⟩
    | some past =>
      obtain ⟨k', hk', hwindow⟩ := h.some past hpast
      exact Or.inr ⟨k', hk', by rw [hwindow]⟩
  · exact h.links pre k hpre

/-- Before the first commit no check is failed. -/
theorem Log.Explained.past_of_rejected {log : Log F} (h : log.Explained odometry)
    {arrived : List Arrival} (hcommitted : (log.check odometry arrived).committed = none) :
    log.past ≠ none := by
  intro hnone
  have hcurrent := h.current
  rw [hnone] at hcurrent
  have hcurrent : log.minotaur.currentState = MinotaurState.fresh odometry := hcurrent
  have hpasses : passes odometry log.minotaur.currentState
      (log.minotaur.nextState.receive arrived) = true := by
    rw [passes, hcurrent]
    exact Bool.or_true _
  rw [Log.check, if_pos hpasses] at hcommitted
  cases hcommitted

theorem Log.Linked.served {log log' : Log F} {arrived : List Arrival} (h : log.Linked)
    (hexplained : log.Explained odometry) (hserved : Served odometry log arrived log') :
    log'.Linked := by
  cases hserved with
  | idle _ _ _ hpast hchecks =>
    constructor
    · rw [hpast, hchecks]
      exact h.none
    · rw [hpast, hchecks]
      exact h.some
    · rw [hchecks]
      exact h.links
  | rejected _ hcommitted _ _ _ hpast hchecks =>
    constructor
    · rw [hpast]
      exact fun hnone => absurd hnone (hexplained.past_of_rejected hcommitted)
    · rw [hpast, hchecks]
      intro past hsome
      obtain ⟨k, hk, hwindow⟩ := h.some past hsome
      exact ⟨k, List.mem_append_left _ hk, hwindow⟩
    · rw [hchecks]
      exact fun pre k => h.links_concat arrived
  | accepted _ _ _ _ _ hpast hchecks =>
    constructor
    · rw [hpast]
      exact fun hnone => absurd hnone (Option.some_ne_none _)
    · rw [hpast, hchecks]
      intro past hsome
      exact ⟨log.check odometry arrived, List.mem_append_right _ List.mem_cons_self,
        Option.some.inj hsome⟩
    · rw [hchecks]
      exact fun pre k => h.links_concat arrived

theorem linked_logOf {calls : List RecvCall} {log : Log F}
    (hrun : logOf odometry calls = some log) : log.Linked := by
  induction calls using List.reverseRecOn generalizing log with
  | nil =>
    rw [← Option.some.inj hrun]
    refine ⟨fun _ => rfl, fun past hpast => ?_, fun pre k hpre => ?_⟩
    · exact absurd hpast (Option.some_ne_none past).symm
    · exact absurd (List.prefix_nil.1 hpre) (by simp)
  | append_singleton calls call ih =>
    obtain ⟨before, hbefore, hexplained, hserved⟩ := logOf_concat hrun
    exact (ih hbefore).served hexplained hserved

/-- Aligned checks hand the lags of the first one on. -/
theorem Log.Linked.windowLag_eq {log : Log F} (h : log.Linked)
    (haligned : ∀ k ∈ log.checks, k.Aligned) {k₀ : Check F} {rest : List (Check F)}
    (hfirst : log.checks = k₀ :: rest) {pre : List (Check F)} (hpre : pre <+: log.checks) :
    ∀ k ∈ pre, windowLag k.window = windowLag k₀.window := by
  induction pre using List.reverseRecOn with
  | nil => exact fun k hk => absurd hk List.not_mem_nil
  | append_singleton pre k ih =>
    have hfront := ih ((List.prefix_append pre [k]).trans hpre)
    intro k' hk'
    rcases List.mem_append.1 hk' with hold | hnew
    · exact hfront k' hold
    rw [List.mem_singleton.1 hnew]
    have hmem : k ∈ log.checks := hpre.subset (List.mem_append_right _ List.mem_cons_self)
    rcases h.links pre k hpre with ⟨-, rfl⟩ | ⟨k'', hk'', hpast⟩
    · rw [hfirst, List.nil_append, List.cons_prefix_cons] at hpre
      rw [hpre.1]
    · rw [← hfront k'' hk'']
      funext side
      exact haligned k hmem _ hpast side

/-- A check that sees the lags of all others is aligned. -/
theorem Log.Linked.aligned {log : Log F} (h : log.Linked) {lag : Side → UInt32}
    (hlag : ∀ k ∈ log.checks, windowLag k.window = lag) {k : Check F} (hk : k ∈ log.checks) :
    k.Aligned := by
  intro past hpast side
  obtain ⟨pre, suf, hsplit⟩ := List.append_of_mem hk
  have hpre : pre ++ [k] <+: log.checks := ⟨suf, by rw [hsplit]; simp⟩
  rcases h.links pre k hpre with ⟨hnone, -⟩ | ⟨k', hk', hlink⟩
  · rw [hnone] at hpast
    cases hpast
  · rw [hpast, Option.some.injEq] at hlink
    have hk'mem : k' ∈ log.checks := by
      rw [hsplit]
      exact List.mem_append_left _ hk'
    have hsame := congrFun ((hlag k hk).trans (hlag k' hk'mem).symm) side
    rwa [← hlink] at hsame

/-- The checks of a run all use the time between the readings exactly if they
all see the same lags. -/
theorem timely_iff_lag (odometry : Odometry F) (calls : List RecvCall) :
    (∀ k ∈ checksOf odometry calls, k.Timely odometry) ↔
      ∃ lag : Side → UInt32, ∀ k ∈ checksOf odometry calls, windowLag k.window = lag := by
  obtain ⟨log, hrun, hexplained⟩ := logOf_explained odometry calls
  have hlinked := linked_logOf hrun
  have hchecks : checksOf odometry calls = log.checks := by
    unfold checksOf
    rw [hrun]
  rw [hchecks]
  constructor
  · intro htimely
    have haligned : ∀ k ∈ log.checks, k.Aligned := fun k hk =>
      (Check.timely_iff_aligned (hexplained.checks k hk)).1 (htimely k hk)
    cases hfirst : log.checks with
    | nil => exact ⟨fun _ => 0, fun k hk => absurd hk List.not_mem_nil⟩
    | cons k₀ rest =>
      rw [← hfirst]
      exact ⟨_, hlinked.windowLag_eq haligned hfirst List.prefix_rfl⟩
  · rintro ⟨lag, hlag⟩ k hk
    exact (Check.timely_iff_aligned (hexplained.checks k hk)).2 (hlinked.aligned hlag hk)

/-- The readings of the right encoder come a tenth of a millisecond behind the IR
sensors, and those of the left one as long behind them. -/
def lags : Side → UInt32
  | .right => 100
  | .left => 200

def steadySamples : List RecvCall :=
  (threeSamples (1000, 0) (2000, 2) (1002000, 50)).map fun call =>
    { call with clock := fun i => call.clock i + 100 * UInt32.ofNat i }

/-- All samples are committed, over the times between their readings. -/
theorem timely_of_steady_samples :
    (checksOf exactOdometry steadySamples).map (fun k => (k.elapsed, k.committed.isSome)) =
        [(1000, true), (1000, true), (1000000, true)] ∧
      ∀ k ∈ checksOf exactOdometry steadySamples, k.Timely exactOdometry := by
  refine ⟨by decide, timely_of_steady (fun pre call log hpre hrun => ?_ :
    Steady exactOdometry lags steadySamples)⟩
  have hchecked : Lib.Runs.checked (Log.recv exactOdometry)
      (fun log call => decide (AllOnTime lags log.minotaur.nextState
        (log.arrived exactOdometry call))) (Log.init exactOdometry) steadySamples = true := by
    decide
  have hstep := Lib.Runs.of_checked hchecked hpre hrun
  exact of_decide_eq_true hstep

end MinotaurRobot.Host
