import MinotaurRobot.Host.Decode
import MinotaurRobot.Lib.Runs

/-!
# The sanity checks of a run

`Log` is the host with a history: the packets served since the last commit,
the packets behind `currentState`, and the checks that `recv` has made.  A
run takes any calls of `recv`, also calls whose read loses bytes.

`recv_outcome` is the specification of one call, and `Log.Explained` is the
invariant that it keeps: both states are put together from their packets by
`receive`.  `explained` says this about every check of a run.
-/

namespace MinotaurRobot.Host

open Lib

variable {F : Type} {odometry : Odometry F}

/-! ## Arrivals -/

/-- A packet that was served, and the result of `getMicroseconds` when it was
processed. -/
structure Arrival where
  time : UInt32
  packet : MinosPacket
  deriving DecidableEq, Repr

/-- The arrivals of one call.  `i` is the number of the first packet. -/
def arrivals (clock : Nat → UInt32) : Nat → List MinosPacket → List Arrival
  | _, [] => []
  | i, p :: packets => ⟨clock i, p⟩ :: arrivals clock (i + 1) packets

/-- What some arrivals make of a state. -/
def MinotaurState.receive (st : MinotaurState F) (window : List Arrival) : MinotaurState F :=
  window.foldl (fun st a => applyPacket a.time st a.packet) st

theorem receive_append (st : MinotaurState F) (xs ys : List Arrival) :
    st.receive (xs ++ ys) = (st.receive xs).receive ys :=
  List.foldl_append

theorem applyAll_eq_receive (clock : Nat → UInt32) (i : Nat) (st : MinotaurState F)
    (packets : List MinosPacket) :
    applyAll clock i st packets = st.receive (arrivals clock i packets) := by
  induction packets generalizing i st with
  | nil => rfl
  | cons p packets ih =>
    rw [applyAll, ih]
    rfl

/-! ## The log -/

/-- `left_diff` and `right_diff` belong to the two encoders. -/
inductive Side where
  | left
  | right
  deriving DecidableEq, Repr

/-- The command of a packet with a reading. -/
def Side.command : Side → UInt8
  | .left => 0xB7
  | .right => 0xB6

def MinotaurState.encoder (st : MinotaurState F) : Side → UInt16
  | .left => st.leftEncoder
  | .right => st.rightEncoder

/-- One evaluation of the sanity check: `nextState` and `currentState`, the
packets behind each of them, and the state that was committed. -/
structure Check (F : Type) where
  next : MinotaurState F
  current : MinotaurState F
  window : List Arrival
  past : Option (List Arrival)
  committed : Option (MinotaurState F)

/-- `left_diff` or `right_diff`. -/
def Check.diff (k : Check F) (side : Side) : Int :=
  tickDiff k.current (k.next.encoder side) (k.current.encoder side)

/-- The elapsed time that the sanity check uses. -/
def Check.elapsed (k : Check F) : UInt32 := k.next.timestamp - k.current.timestamp

/-- A call of `recv`: the clock and the result of `read`. -/
structure RecvCall where
  clock : Nat → UInt32
  read : ReadCall

/-- The host and its history. -/
structure Log (F : Type) where
  minotaur : Minotaur F
  /-- The arrivals since the last commit. -/
  window : List Arrival
  /-- The arrivals behind `currentState`. -/
  past : Option (List Arrival)
  checks : List (Check F)

def Log.init (odometry : Odometry F) : Log F := ⟨Minotaur.init odometry, [], none, []⟩

/-- `recv` with a history.  The check is made if `read` returned bytes and the
sensor values are complete. -/
def Log.recv (odometry : Odometry F) (log : Log F) (call : RecvCall) : Option (Log F) :=
  (Host.recv odometry call.clock call.read log.minotaur).map fun r =>
    let window := log.window ++ arrivals call.clock 0 r.served
    let next := applyAll call.clock 0 log.minotaur.nextState r.served
    let checks :=
      if (log.minotaur.ring.takeIn call.read).2 && next.sensorsComplete then
        log.checks ++ [⟨next, log.minotaur.currentState, window, log.past, r.committed⟩]
      else log.checks
    match r.committed with
    | none => ⟨r.minotaur, window, log.past, checks⟩
    | some _ => ⟨r.minotaur, [], some window, checks⟩

/-- The log of a run. -/
def logOf (odometry : Odometry F) (calls : List RecvCall) : Option (Log F) :=
  Runs.run (Log.recv odometry) (Log.init odometry) calls

/-- The checks of a run. -/
def checksOf (odometry : Odometry F) (calls : List RecvCall) : List (Check F) :=
  match logOf odometry calls with
  | none => []
  | some log => log.checks

/-! ## One call -/

/-- The test for a commit. -/
def passes (odometry : Odometry F) (current next : MinotaurState F) : Bool :=
  odometry.sane (tickDiff current next.leftEncoder current.leftEncoder)
      (tickDiff current next.rightEncoder current.rightEncoder)
      (next.timestamp - current.timestamp) ||
    !current.validPos

/-- The state that is committed if the test is passed. -/
def moved (odometry : Odometry F) (current next : MinotaurState F) : MinotaurState F :=
  let position := odometry.move (tickDiff current next.leftEncoder current.leftEncoder)
    (tickDiff current next.rightEncoder current.rightEncoder)
    (current.x, current.y, current.orient)
  { next with x := position.1, y := position.2.1, orient := position.2.2, validPos := true }

theorem updatePosition_eq (current next : MinotaurState F) :
    updatePosition odometry current next =
      if passes odometry current next then moved odometry current next
      else { next with validPos := false } := rfl

/-- The end of `recv` on complete sensor values. -/
theorem commit_complete {m : Minotaur F} (h : m.nextState.sensorsComplete = true) :
    commit odometry m =
      if passes odometry m.currentState m.nextState then
        ({ m with
            previousState := m.currentState
            currentState := moved odometry m.currentState m.nextState
            nextState := MinotaurState.fresh odometry },
          some (moved odometry m.currentState m.nextState))
      else ({ m with nextState := { m.nextState with validPos := false } }, none) := by
  have hboth : (m.nextState.validLeftEnc && m.nextState.validRightEnc) = true := by
    unfold MinotaurState.sensorsComplete at h
    rw [Bool.and_eq_true] at h
    exact h.1
  unfold commit
  rw [if_pos h, hboth, Bool.true_or, if_pos rfl, updatePosition_eq]
  by_cases hpass : passes odometry m.currentState m.nextState = true
  · rw [if_pos hpass, if_pos hpass]
    rfl
  · rw [if_neg hpass, if_neg hpass]
    rfl

theorem commit_incomplete {m : Minotaur F} (h : ¬m.nextState.sensorsComplete = true) :
    commit odometry m = (m, none) := by
  rw [commit, if_neg h]

/-- What one call of `recv` did to the two states.  `made` says that the
sanity check was evaluated. -/
structure Outcome (odometry : Odometry F) (made : Bool) (current next : MinotaurState F)
    (r : RecvResult F) : Prop where
  accepted : made = true → passes odometry current next = true →
    r.minotaur.currentState = moved odometry current next ∧
      r.minotaur.nextState = MinotaurState.fresh odometry ∧
      r.committed = some (moved odometry current next)
  rejected : made = true → ¬passes odometry current next = true →
    r.minotaur.currentState = current ∧ r.minotaur.nextState = { next with validPos := false } ∧
      r.committed = none
  idle : ¬made = true →
    r.minotaur.currentState = current ∧ r.minotaur.nextState = next ∧ r.committed = none

/-- No call of `recv` throws. -/
theorem recv_outcome (odometry : Odometry F) (clock : Nat → UInt32) (call : ReadCall)
    (m : Minotaur F) :
    ∃ r, recv odometry clock call m = some r ∧
      Outcome odometry
        ((m.ring.takeIn call).2 && (applyAll clock 0 m.nextState r.served).sensorsComplete)
        m.currentState (applyAll clock 0 m.nextState r.served) r := by
  by_cases hgo : (m.ring.takeIn call).2 = true
  · obtain ⟨m₁, packets, hloop, hdecoded⟩ := decodeLoop_spec clock
      (m.ring.takeIn call).1.unread 0 { m with ring := (m.ring.takeIn call).1 }
    have hnext : m₁.nextState = applyAll clock 0 m.nextState packets := hdecoded.next
    have hcurrent : m₁.currentState = m.currentState := hdecoded.current
    refine ⟨⟨(commit odometry m₁).1, packets, (commit odometry m₁).2, packets.length != 0⟩,
      ?_, ?_⟩
    · unfold recv
      simp [hgo, hloop]
    · dsimp only
      rw [hgo, Bool.true_and, ← hnext, ← hcurrent]
      constructor
      · intro hmade hpass
        rw [commit_complete hmade, if_pos hpass]
        exact ⟨rfl, rfl, rfl⟩
      · intro hmade hpass
        rw [commit_complete hmade, if_neg hpass]
        exact ⟨rfl, rfl, rfl⟩
      · intro hmade
        rw [commit_incomplete hmade]
        exact ⟨rfl, rfl, rfl⟩
  · refine ⟨⟨{ m with ring := (m.ring.takeIn call).1 }, [], none, false⟩, ?_, ?_⟩
    · unfold recv
      simp [hgo]
    · rw [Bool.not_eq_true] at hgo
      dsimp only
      rw [hgo, Bool.false_and]
      constructor
      · exact fun hmade => absurd hmade (by decide)
      · exact fun hmade => absurd hmade (by decide)
      · exact fun _ => ⟨rfl, rfl, rfl⟩

/-! ## What a call adds to the history -/

/-- The state committed last. -/
def lastCommit (odometry : Odometry F) (checks : List (Check F)) : MinotaurState F :=
  ((checks.filterMap Check.committed).getLast?).getD (MinotaurState.fresh odometry)

theorem lastCommit_rejected (checks : List (Check F)) {k : Check F} (h : k.committed = none) :
    lastCommit odometry (checks ++ [k]) = lastCommit odometry checks := by
  unfold lastCommit
  rw [List.filterMap_append, List.filterMap_cons_none h, List.filterMap_nil, List.append_nil]

theorem lastCommit_accepted (checks : List (Check F)) {k : Check F} {c : MinotaurState F}
    (h : k.committed = some c) : lastCommit odometry (checks ++ [k]) = c := by
  unfold lastCommit
  rw [List.filterMap_append, List.filterMap_cons_some h, List.filterMap_nil,
    List.getLast?_concat, Option.getD_some]

/-- The check that a call makes, if it makes one. -/
def Log.check (odometry : Odometry F) (log : Log F) (arrived : List Arrival) : Check F :=
  let next := log.minotaur.nextState.receive arrived
  let current := log.minotaur.currentState
  ⟨next, current, log.window ++ arrived, log.past,
    if passes odometry current next then some (moved odometry current next) else none⟩

/-- The three ways of a call of `recv` that serves the packets `arrived`. -/
inductive Served (odometry : Odometry F) (log : Log F) (arrived : List Arrival) (log' : Log F) :
    Prop where
  | idle (hnext : log'.minotaur.nextState = log.minotaur.nextState.receive arrived)
      (hcurrent : log'.minotaur.currentState = log.minotaur.currentState)
      (hwindow : log'.window = log.window ++ arrived) (hpast : log'.past = log.past)
      (hchecks : log'.checks = log.checks)
  | rejected (hcomplete : (log.check odometry arrived).next.sensorsComplete = true)
      (hcommitted : (log.check odometry arrived).committed = none)
      (hnext : log'.minotaur.nextState =
        { log.minotaur.nextState.receive arrived with validPos := false })
      (hcurrent : log'.minotaur.currentState = log.minotaur.currentState)
      (hwindow : log'.window = log.window ++ arrived) (hpast : log'.past = log.past)
      (hchecks : log'.checks = log.checks ++ [log.check odometry arrived])
  | accepted (hcomplete : (log.check odometry arrived).next.sensorsComplete = true)
      (hcommitted : (log.check odometry arrived).committed = some log'.minotaur.currentState)
      (hnext : log'.minotaur.nextState = MinotaurState.fresh odometry)
      (hcurrent : log'.minotaur.currentState =
        moved odometry log.minotaur.currentState (log.minotaur.nextState.receive arrived))
      (hwindow : log'.window = []) (hpast : log'.past = some (log.window ++ arrived))
      (hchecks : log'.checks = log.checks ++ [log.check odometry arrived])

/-- The packets that a call serves. -/
def Log.arrived (odometry : Odometry F) (log : Log F) (call : RecvCall) : List Arrival :=
  match Host.recv odometry call.clock call.read log.minotaur with
  | none => []
  | some r => arrivals call.clock 0 r.served

theorem Log.recv_served (odometry : Odometry F) (log : Log F) (call : RecvCall) :
    ∃ log', Log.recv odometry log call = some log' ∧
      Served odometry log (log.arrived odometry call) log' := by
  obtain ⟨r, hrecv, houtcome⟩ := recv_outcome odometry call.clock call.read log.minotaur
  unfold Log.recv Log.arrived
  rw [hrecv, Option.map_some]
  refine ⟨_, rfl, ?_⟩
  rw [applyAll_eq_receive] at houtcome
  dsimp only
  rw [applyAll_eq_receive]
  cases hmade : (log.minotaur.ring.takeIn call.read).2 &&
      (log.minotaur.nextState.receive (arrivals call.clock 0 r.served)).sensorsComplete with
  | false =>
    rw [hmade] at houtcome
    obtain ⟨hcurrent, hnext, hcommitted⟩ := houtcome.idle (by decide)
    rw [hcommitted, if_neg (by decide)]
    exact .idle hnext hcurrent rfl rfl rfl
  | true =>
    rw [hmade] at houtcome
    rw [Bool.and_eq_true] at hmade
    by_cases hpass : passes odometry log.minotaur.currentState
        (log.minotaur.nextState.receive (arrivals call.clock 0 r.served)) = true
    · obtain ⟨hcurrent, hnext, hcommitted⟩ := houtcome.accepted rfl hpass
      rw [hcommitted, if_pos rfl]
      refine .accepted hmade.2 ?_ hnext hcurrent rfl rfl ?_
      · rw [Log.check, if_pos hpass, hcurrent]
      · rw [Log.check, if_pos hpass]
    · obtain ⟨hcurrent, hnext, hcommitted⟩ := houtcome.rejected rfl hpass
      rw [hcommitted, if_pos rfl]
      refine .rejected hmade.2 ?_ hnext hcurrent rfl rfl ?_
      · rw [Log.check, if_neg hpass]
      · rw [Log.check, if_neg hpass]

/-! ## Runs -/

/-- What `receive` does not change. -/
theorem receive_validPos (st : MinotaurState F) (window : List Arrival) :
    (st.receive window).validPos = st.validPos := by
  induction window generalizing st with
  | nil => rfl
  | cons a window ih =>
    show ((applyPacket a.time st a.packet).receive window).validPos = st.validPos
    rw [ih]
    unfold applyPacket storePacket stampPacket
    split_ifs <;> rfl

/-- `current` was put together from the arrivals `past`, and committed. -/
def Assembled (odometry : Odometry F) (current : MinotaurState F) (past : List Arrival) : Prop :=
  current.readings = ((MinotaurState.fresh odometry).receive past).readings ∧
    current.sensorsComplete = true ∧ current.validPos = true

/-- What is known of `currentState`. -/
def Current (odometry : Odometry F) (current : MinotaurState F) : Option (List Arrival) → Prop
  | none => current = MinotaurState.fresh odometry
  | some past => Assembled odometry current past

/-- What is known of a check. -/
structure Check.Explained (odometry : Odometry F) (k : Check F) : Prop where
  next : k.next = (MinotaurState.fresh odometry).receive k.window
  complete : k.next.sensorsComplete = true
  current : Current odometry k.current k.past
  committed : k.committed =
    if passes odometry k.current k.next then some (moved odometry k.current k.next) else none

/-- The invariant of a run: the states are put together from the packets of
the history, and every check was made against the state committed last. -/
structure Log.Explained (odometry : Odometry F) (log : Log F) : Prop where
  next : log.minotaur.nextState = (MinotaurState.fresh odometry).receive log.window
  current : Current odometry log.minotaur.currentState log.past
  checks : ∀ k ∈ log.checks, k.Explained odometry
  last : log.minotaur.currentState = lastCommit odometry log.checks
  chain : ∀ pre k, pre ++ [k] <+: log.checks → k.current = lastCommit odometry pre

theorem explained_init : (Log.init odometry).Explained odometry where
  next := rfl
  current := rfl
  checks := fun k hk => absurd hk List.not_mem_nil
  last := rfl
  chain := fun pre k hpre => absurd (List.prefix_nil.1 hpre) (by simp)

theorem Log.Explained.check {log : Log F} (h : log.Explained odometry) {arrived : List Arrival}
    (hcomplete : (log.check odometry arrived).next.sensorsComplete = true) :
    (log.check odometry arrived).Explained odometry where
  next := by
    show log.minotaur.nextState.receive arrived = _
    rw [h.next, ← receive_append]
    rfl
  complete := hcomplete
  current := h.current
  committed := rfl

/-- A check that is made is one more link of the chain. -/
theorem Log.Explained.chain_concat {log : Log F} (h : log.Explained odometry)
    (arrived : List Arrival) {pre : List (Check F)} {k : Check F}
    (hpre : pre ++ [k] <+: log.checks ++ [log.check odometry arrived]) :
    k.current = lastCommit odometry pre := by
  rw [List.prefix_concat_iff] at hpre
  rcases hpre with heq | hpre
  · obtain ⟨rfl, hk⟩ := List.append_inj' heq rfl
    rw [List.singleton_inj.1 hk]
    exact h.last
  · exact h.chain pre k hpre

theorem Log.Explained.checks_concat {log : Log F} (h : log.Explained odometry)
    {arrived : List Arrival}
    (hcomplete : (log.check odometry arrived).next.sensorsComplete = true) :
    ∀ k ∈ log.checks ++ [log.check odometry arrived], k.Explained odometry := by
  intro k hk
  rcases List.mem_append.1 hk with hold | hnew
  · exact h.checks k hold
  · rw [List.mem_singleton.1 hnew]
    exact h.check hcomplete

/-- Every call keeps the invariant. -/
theorem Log.Explained.served {log log' : Log F} {arrived : List Arrival}
    (h : log.Explained odometry) (hserved : Served odometry log arrived log') :
    log'.Explained odometry := by
  have hwindow : log.minotaur.nextState.receive arrived =
      (MinotaurState.fresh odometry).receive (log.window ++ arrived) := by
    rw [h.next, receive_append]
  cases hserved with
  | idle hnext hcurrent hw hpast hchecks =>
    constructor
    · rw [hnext, hwindow, hw]
    · rw [hcurrent, hpast]
      exact h.current
    · rw [hchecks]
      exact h.checks
    · rw [hcurrent, hchecks]
      exact h.last
    · rw [hchecks]
      exact h.chain
  | rejected hcomplete hcommitted hnext hcurrent hw hpast hchecks =>
    constructor
    · -- The flag that a rejection clears was not set.
      have hflag : (log.minotaur.nextState.receive arrived).validPos = false := by
        rw [hwindow, receive_validPos]
        rfl
      rw [hnext, ← hflag, hwindow, hw]
    · rw [hcurrent, hpast]
      exact h.current
    · rw [hchecks]
      exact h.checks_concat hcomplete
    · rw [hcurrent, hchecks, lastCommit_rejected _ hcommitted]
      exact h.last
    · rw [hchecks]
      exact fun pre k => h.chain_concat arrived
  | accepted hcomplete hcommitted hnext hcurrent hw hpast hchecks =>
    constructor
    · rw [hnext, hw]
      rfl
    · rw [hcurrent, hpast]
      refine ⟨?_, hcomplete, rfl⟩
      rw [← hwindow]
      rfl
    · rw [hchecks]
      exact h.checks_concat hcomplete
    · rw [hchecks, lastCommit_accepted _ hcommitted]
    · rw [hchecks]
      exact fun pre k => h.chain_concat arrived

/-- Every run of `recv` has a log, and the log is explained. -/
theorem logOf_explained (odometry : Odometry F) (calls : List RecvCall) :
    ∃ log, logOf odometry calls = some log ∧ log.Explained odometry := by
  induction calls using List.reverseRecOn with
  | nil => exact ⟨Log.init odometry, rfl, explained_init⟩
  | append_singleton calls call ih =>
    obtain ⟨log, hrun, hexplained⟩ := ih
    obtain ⟨log', hstep, hserved⟩ := Log.recv_served odometry log call
    exact ⟨log', Runs.run_concat.2 ⟨log, hrun, hstep⟩, hexplained.served hserved⟩

theorem checksOf_explained {calls : List RecvCall} {k : Check F}
    (h : k ∈ checksOf odometry calls) : k.Explained odometry := by
  obtain ⟨log, hrun, hexplained⟩ := logOf_explained odometry calls
  unfold checksOf at h
  rw [hrun] at h
  exact hexplained.checks k h

/-- Every check of a run is made against the state committed last. -/
theorem checksOf_chain {calls : List RecvCall} {pre : List (Check F)} {k : Check F}
    (h : pre ++ [k] <+: checksOf odometry calls) : k.current = lastCommit odometry pre := by
  obtain ⟨log, hrun, hexplained⟩ := logOf_explained odometry calls
  unfold checksOf at h
  rw [hrun] at h
  exact hexplained.chain pre k h

end MinotaurRobot.Host
