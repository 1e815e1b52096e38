import MinotaurRobot.Host.Checks
import MinotaurRobot.Host.Reachable

/-!
# The elapsed time of the sanity check

The sanity check looks at the distance from the last commit and at the
difference of two timestamps.  A rejection keeps the timestamp of `nextState`,
and later packets overwrite its readings.  So the timestamp is the time of the
first packet with data since the last commit (`Check.elapsed_eq`), and a
reading is that of the last packet of its kind (`Check.next_reading`).

`Check.timely_iff_aligned` says of each check when the difference is the time
between the readings.
-/

namespace MinotaurRobot.Host

variable {F : Type} {odometry : Odometry F}

/-! ## Times of a window -/

/-- A packet that starts the clock of `nextState`. -/
def Arrival.isData (a : Arrival) : Bool := a.packet.command ∈ [0x02, 0x03, 0xB1, 0xB6, 0xB7]

/-- The time of the first packet with data. -/
def firstTime (window : List Arrival) : UInt32 :=
  match window.find? Arrival.isData with
  | none => 0
  | some a => a.time

/-- The last packet with a reading of one encoder. -/
def lastReading (side : Side) (window : List Arrival) : Option Arrival :=
  (window.filter fun a => a.packet.command = side.command).getLast?

/-- The time of the last reading. -/
def readingTime (side : Side) (window : List Arrival) : UInt32 :=
  match lastReading side window with
  | none => 0
  | some a => a.time

theorem applyPacket_clock (now : UInt32) (st : MinotaurState F) (p : MinosPacket) :
    ((applyPacket now st p).timestamp, (applyPacket now st p).validTs) =
      if p.command ∈ [0x02, 0x03, 0xB1, 0xB6, 0xB7] ∧ st.validTs = false then (now, true)
      else (st.timestamp, st.validTs) := by
  have hstore : ∀ st' : MinotaurState F, (storePacket st' p).timestamp = st'.timestamp ∧
      (storePacket st' p).validTs = st'.validTs := by
    intro st'
    unfold storePacket
    split_ifs <;> exact ⟨rfl, rfl⟩
  unfold applyPacket
  rw [(hstore _).1, (hstore _).2]
  unfold stampPacket
  by_cases hdata : p.command ∈ [0x02, 0x03, 0xB1, 0xB6, 0xB7]
  · cases hvalid : st.validTs with
    | false => rw [if_pos hdata, if_neg (by decide), if_pos ⟨hdata, rfl⟩]
    | true => rw [if_pos hdata, if_pos rfl, if_neg (by simp), hvalid]
  · rw [if_neg hdata, if_neg fun h => hdata h.1]

/-- A clock that runs is not set again. -/
theorem receive_timestamp_running {st : MinotaurState F} (window : List Arrival)
    (h : st.validTs = true) : (st.receive window).timestamp = st.timestamp := by
  induction window generalizing st with
  | nil => rfl
  | cons a window ih =>
    have hclock := applyPacket_clock a.time st a.packet
    rw [if_neg (by simp [h]), Prod.mk.injEq] at hclock
    show ((applyPacket a.time st a.packet).receive window).timestamp = _
    rw [ih (hclock.2.trans h), hclock.1]

/-- The timestamp is the time of the first packet with data. -/
theorem receive_timestamp (window : List Arrival) :
    ((MinotaurState.fresh odometry).receive window).timestamp = firstTime window := by
  have hgen : ∀ st : MinotaurState F, st.validTs = false → st.timestamp = 0 →
      (st.receive window).timestamp = firstTime window := by
    induction window with
    | nil => exact fun st _ hzero => hzero
    | cons a window ih =>
      intro st hvalid hzero
      have hclock := applyPacket_clock a.time st a.packet
      show ((applyPacket a.time st a.packet).receive window).timestamp = _
      unfold firstTime
      by_cases hdata : a.packet.command ∈ [0x02, 0x03, 0xB1, 0xB6, 0xB7]
      · rw [if_pos ⟨hdata, hvalid⟩, Prod.mk.injEq] at hclock
        rw [receive_timestamp_running window hclock.2, hclock.1,
          List.find?_cons_of_pos (by simpa [Arrival.isData] using hdata)]
      · rw [if_neg fun h => hdata h.1, Prod.mk.injEq] at hclock
        rw [ih _ (hclock.2.trans hvalid) (hclock.1.trans hzero),
          List.find?_cons_of_neg (by simpa [Arrival.isData] using hdata)]
        rfl
  exact hgen _ rfl rfl

/-- Data starts the clock. -/
theorem receive_validTs {st : MinotaurState F} {window : List Arrival} {a : Arrival}
    (ha : a ∈ window) (hdata : a.isData = true) : (st.receive window).validTs = true := by
  have hkept : ∀ (window : List Arrival) (st : MinotaurState F), st.validTs = true →
      (st.receive window).validTs = true := by
    intro window
    induction window with
    | nil => exact fun st h => h
    | cons b window ih =>
      intro st h
      have hclock := applyPacket_clock b.time st b.packet
      rw [if_neg (by simp [h]), Prod.mk.injEq] at hclock
      exact ih _ (hclock.2.trans h)
  induction window generalizing st with
  | nil => exact absurd ha List.not_mem_nil
  | cons b window ih =>
    show ((applyPacket b.time st b.packet).receive window).validTs = true
    rcases List.mem_cons.1 ha with rfl | hrest
    · have hclock := applyPacket_clock a.time st a.packet
      apply hkept
      cases hvalid : st.validTs with
      | false =>
        rw [if_pos ⟨by simpa [Arrival.isData] using hdata, hvalid⟩, Prod.mk.injEq] at hclock
        exact hclock.2
      | true =>
        rw [if_neg (by simp [hvalid]), Prod.mk.injEq] at hclock
        exact hclock.2.trans hvalid
    · exact ih hrest

/-- Without data the clock does not start. -/
theorem receive_validTs_of_none {window : List Arrival}
    (h : window.find? Arrival.isData = none) :
    ((MinotaurState.fresh odometry).receive window).validTs = false := by
  have hgen : ∀ st : MinotaurState F, st.validTs = false →
      (st.receive window).validTs = false := by
    induction window with
    | nil => exact fun st hst => hst
    | cons a window ih =>
      intro st hst
      rw [List.find?_cons] at h
      cases hdata : a.isData with
      | true =>
        rw [hdata] at h
        cases h
      | false =>
        rw [hdata] at h
        have hclock := applyPacket_clock a.time st a.packet
        rw [if_neg fun hboth => by simp [Arrival.isData] at hdata; simp_all, Prod.mk.injEq] at hclock
        exact ih h _ (hclock.2.trans hst)
  exact hgen _ rfl

/-! ## The readings of a check -/

theorem Sources.receive {history : List MinosPacket} {st : MinotaurState F}
    (h : Sources history st.readings) (window : List Arrival) :
    Sources (history ++ window.map Arrival.packet) (st.receive window).readings := by
  induction window generalizing history st with
  | nil =>
    rw [List.map_nil, List.append_nil]
    exact h
  | cons a window ih =>
    have := ih (h.apply a.time a.packet)
    rwa [List.append_assoc] at this

theorem lastOf_window (side : Side) (window : List Arrival) :
    lastOf side.command (window.map Arrival.packet) =
      (lastReading side window).map Arrival.packet := by
  rw [lastOf, lastReading, List.filter_map, List.getLast?_map]
  rfl

/-- Complete sensor values hold the last reading of each encoder. -/
theorem reading_of_complete {st : MinotaurState F} {window : List Arrival}
    (hreadings : st.readings = ((MinotaurState.fresh odometry).receive window).readings)
    (hcomplete : st.sensorsComplete = true) (side : Side) :
    ∃ a, lastReading side window = some a ∧ st.encoder side = a.packet.udata16 := by
  have hfresh : Sources [] (MinotaurState.fresh odometry).readings := Sources.fresh []
  have hsources := hfresh.receive window
  rw [← hreadings, List.nil_append] at hsources
  rw [MinotaurState.sensorsComplete, Bool.and_eq_true, Bool.and_eq_true] at hcomplete
  have hlast : ∃ p, lastOf side.command (window.map Arrival.packet) = some p ∧
      st.encoder side = p.udata16 := by
    cases side with
    | left => exact hsources.leftEncoder hcomplete.1.1
    | right => exact hsources.rightEncoder hcomplete.1.2
  obtain ⟨p, hp, hvalue⟩ := hlast
  rw [lastOf_window, Option.map_eq_some_iff] at hp
  obtain ⟨a, ha, rfl⟩ := hp
  exact ⟨a, ha, hvalue⟩

/-- The readings in `nextState` are the last ones since the last commit. -/
theorem Check.next_reading {k : Check F} (h : k.Explained odometry) (side : Side) :
    ∃ a, lastReading side k.window = some a ∧ k.next.encoder side = a.packet.udata16 :=
  reading_of_complete (congrArg MinotaurState.readings h.next) h.complete side

/-- The readings in `currentState` are the last ones before its commit. -/
theorem Check.current_reading {k : Check F} (h : k.Explained odometry) {past : List Arrival}
    (hpast : k.past = some past) (side : Side) :
    ∃ a, lastReading side past = some a ∧ k.current.encoder side = a.packet.udata16 := by
  have hcurrent := h.current
  rw [hpast] at hcurrent
  exact reading_of_complete hcurrent.1 hcurrent.2.1 side

/-! ## The elapsed time -/

/-- The time from the reading in `currentState` to the reading in
`nextState`. -/
def Check.readingElapsed (k : Check F) (past : List Arrival) (side : Side) : UInt32 :=
  readingTime side k.window - readingTime side past

/-- The check uses the time between the readings, and commits readings that
are sane over this time. -/
def Check.Timely (odometry : Odometry F) (k : Check F) : Prop :=
  ∀ past, k.past = some past → ∀ side,
    k.elapsed = k.readingElapsed past side ∧
      (odometry.sane (k.diff .left) (k.diff .right) (k.readingElapsed past side) = true →
        k.committed.isSome = true)

/-- Each reading came as long after the first data since the last commit as
the committed reading came after the first data of its own state. -/
def Check.Aligned (k : Check F) : Prop :=
  ∀ past, k.past = some past → ∀ side,
    readingTime side k.window - firstTime k.window = readingTime side past - firstTime past

/-- The check uses the time between the first data of the two states. -/
theorem Check.elapsed_eq {k : Check F} (h : k.Explained odometry) {past : List Arrival}
    (hpast : k.past = some past) : k.elapsed = firstTime k.window - firstTime past := by
  have hcurrent := h.current
  rw [hpast] at hcurrent
  have hstamp : k.current.timestamp = firstTime past :=
    (congrArg Readings.timestamp hcurrent.1).trans (receive_timestamp past)
  rw [Check.elapsed, h.next, receive_timestamp, hstamp]

/-- With a committed position the check decides alone. -/
theorem Check.committed_iff {k : Check F} (h : k.Explained odometry) {past : List Arrival}
    (hpast : k.past = some past) :
    k.committed.isSome = true ↔
      odometry.sane (k.diff .left) (k.diff .right) k.elapsed = true := by
  have hcurrent := h.current
  rw [hpast] at hcurrent
  have hpasses : passes odometry k.current k.next =
      odometry.sane (k.diff .left) (k.diff .right) k.elapsed := by
    rw [passes, hcurrent.2.2, Bool.not_true, Bool.or_false]
    rfl
  rw [h.committed, hpasses]
  split <;> simp_all

theorem Check.timely_iff_aligned {k : Check F} (h : k.Explained odometry) :
    k.Timely odometry ↔ k.Aligned := by
  constructor
  · intro htimely past hpast side
    have helapsed := (htimely past hpast side).1
    rw [Check.elapsed_eq h hpast, Check.readingElapsed] at helapsed
    grind
  · intro haligned past hpast side
    have helapsed : k.elapsed = k.readingElapsed past side := by
      have := haligned past hpast side
      rw [Check.elapsed_eq h hpast, Check.readingElapsed]
      grind
    refine ⟨helapsed, ?_⟩
    rw [← helapsed]
    exact (Check.committed_iff h hpast).2

/-- A reading is data. -/
theorem isData_of_command {a : Arrival} {side : Side} (h : a.packet.command = side.command) :
    a.isData = true := by
  unfold Arrival.isData
  rw [h]
  cases side <;> decide

theorem lastReading_mem {side : Side} {window : List Arrival} {a : Arrival}
    (h : lastReading side window = some a) : a ∈ window ∧ a.isData = true := by
  have hmem := List.mem_of_getLast? h
  rw [List.mem_filter, decide_eq_true_eq] at hmem
  exact ⟨hmem.1, isData_of_command hmem.2⟩

/-! ## A rejected sample -/

/-- The sanity check in exact arithmetic: 15.40625 and 15.5625 ticks are an
inch, and the limit is `1e-3` inches per microsecond.  There is no
position. -/
def exactOdometry : Odometry Unit where
  zero := ()
  sane := fun leftDiff rightDiff elapsed =>
    32000 * rightDiff.natAbs < 493 * elapsed.toNat && 16000 * leftDiff.natAbs < 249 * elapsed.toNat
  move := fun _ _ position => position

/-- A sample: the IR sensors, and both encoders at one value. -/
def sample (ticks : UInt16) : List MinosPacket :=
  [⟨0xAA, 1, 0xB1, 0, 0⟩, ⟨0xAA, 1, 0xB6, ticks.toUInt8, (ticks >>> 8).toUInt8⟩,
    ⟨0xAA, 1, 0xB7, ticks.toUInt8, (ticks >>> 8).toUInt8⟩]

/-- Three samples at three times.  Each is read with the first byte of the
packet behind it. -/
def threeSamples (first second third : UInt32 × UInt16) : List RecvCall :=
  let stream := wire (sample first.2 ++ sample second.2 ++ sample third.2 ++ sample third.2)
  [⟨fun _ => first.1, ⟨stream.take 16, false⟩⟩,
    ⟨fun _ => second.1, ⟨(stream.drop 16).take 15, false⟩⟩,
    ⟨fun _ => third.1, ⟨(stream.drop 31).take 15, false⟩⟩]

/-- The robot stands at 0, is read at 100 ticks one millisecond later, and at
100 ticks again one second later. -/
def lateSample : List RecvCall := threeSamples (1000, 0) (2000, 100) (1002000, 100)

/-- The second reading is too fast for a millisecond and is rejected.  The
third is slow enough for its second, and is rejected because the check still
counts one millisecond. -/
theorem late_sample_rejected :
    (checksOf exactOdometry lateSample).map (fun k => (k.elapsed, k.committed.isSome)) =
        [(1000, true), (1000, false), (1000, false)] ∧
      ∃ k ∈ checksOf exactOdometry lateSample, ∃ past, k.past = some past ∧
        exactOdometry.sane (k.diff .left) (k.diff .right) (k.readingElapsed past .left) = true ∧
        k.committed.isSome = false ∧ ¬k.Timely exactOdometry := by
  refine ⟨by decide, ?_⟩
  have hany : ((checksOf exactOdometry lateSample).any fun k => k.past.any fun past =>
      exactOdometry.sane (k.diff .left) (k.diff .right) (k.readingElapsed past .left) &&
        !k.committed.isSome) = true := by decide
  obtain ⟨k, hk, hpast⟩ := List.any_eq_true.1 hany
  obtain ⟨past, hpast, hrejected⟩ := (Option.any_eq_true _ _).1 hpast
  rw [Bool.and_eq_true, Bool.not_eq_true'] at hrejected
  refine ⟨k, hk, past, hpast, hrejected.1, hrejected.2, ?_⟩
  intro htimely
  have hcommitted := (htimely past hpast .left).2 hrejected.1
  rw [hrejected.2] at hcommitted
  exact absurd hcommitted (by decide)

end MinotaurRobot.Host
