import MinotaurRobot.Cnc.Fleet
import MinotaurRobot.Link.Telemetry

/-!
# What the browsers are shown

The last stretch of the way from the sensors.  A robot sends its state behind
every request of the server, and keepalives in between; the server hands the
metrics on to browsers.  If every state arrives as a chunk of its own, then a
browser is shown nothing that the microcontroller has not measured
(`metrics_measured`), whatever robots and browsers do.
-/

namespace MinotaurRobot.Link

open MinotaurRobot.Host MinotaurRobot.Mcu Lib.Marked
open Cnc (FleetEvent metricsMark isPacket)

variable {Robot Client : Type} [DecidableEq Robot] [DecidableEq Client]

/-- The chunks that a robot has sent. -/
def heard (r : Robot) (events : List (FleetEvent Robot Client)) : List (List UInt8) :=
  events.filterMap fun
    | .robot r' data => if r' = r then some data else none
    | .browser _ _ => none

/-- A message of the robot: bytes without the mark of metrics, or the state that
the host had at some time while it read the line. -/
inductive Told (odometry : Odometry UInt32) (line : List UInt8) : List UInt8 → Prop where
  | filler {bytes : List UInt8} (h : Filler metricsMark bytes) : Told odometry line bytes
  | state {stream : List UInt8} {history : List MinosPacket} {m : Minotaur UInt32}
      (hhost : Receives odometry stream history m) (hline : stream <+: line) :
      Told odometry line (Cnc.Message.metrics m.currentState).bytes

theorem valid_told {odometry : Odometry UInt32} {line : List UInt8} {told : List (List UInt8)}
    (h : ∀ bytes ∈ told, Told odometry line bytes) : Valid metricsMark 23 told := by
  intro bytes hbytes
  cases h bytes hbytes with
  | filler hfiller => exact Or.inl hfiller
  | state hhost hline => exact Or.inr ⟨rfl, Cnc.length_bytes _⟩

omit [DecidableEq Client] in
theorem heard_robot (r r' : Robot) (data : List UInt8) (events : List (FleetEvent Robot Client)) :
    heard r (events ++ [.robot r' data]) =
      if r' = r then heard r events ++ [data] else heard r events := by
  unfold heard
  rw [List.filterMap_append]
  by_cases hr : r' = r
  · simp [hr]
  · simp [hr]

omit [DecidableEq Client] in
theorem spoken_iff_heard (r : Robot) (events : List (FleetEvent Robot Client)) :
    Cnc.spoken r events.reverse = true ↔ heard r events ≠ [] := by
  induction events using List.reverseRecOn with
  | nil => simp [Cnc.spoken, heard]
  | append_singleton events e ih =>
    rw [List.reverse_append]
    cases e with
    | robot r' data =>
      show (decide (r' = r) || Cnc.spoken r events.reverse) = true ↔ _
      rw [heard_robot, Bool.or_eq_true, decide_eq_true_iff, ih]
      by_cases hr : r' = r
      · simp [hr]
      · simp [hr]
    | browser me jdata =>
      have hsame : heard r (events ++ [.browser me jdata]) = heard r events := by
        unfold heard
        rw [List.filterMap_append]
        simp
      rw [hsame]
      exact ih

/-- Behind the login a chunk that is taken for metrics is one of the robot's
states. -/
theorem state_of_packet {odometry : Odometry UInt32} {line : List UInt8}
    {told behind : List (List UInt8)} (htold : ∀ bytes ∈ told, Told odometry line bytes)
    (hflat : behind.flatten = told.flatten) (hown : Own metricsMark told behind)
    {data : List UInt8} (hdata : data ∈ behind) (hpacket : isPacket data = true) :
    ∃ stream history m, Receives odometry stream history m ∧ stream <+: line ∧
      data = (Cnc.Message.metrics m.currentState).bytes := by
  have hrecognised : data ∈ recognise metricsMark 23 behind := List.mem_filter.2 ⟨hdata, hpacket⟩
  rw [recognise_of_own (valid_told htold) hflat hown] at hrecognised
  obtain ⟨hmem, hheaded⟩ := List.mem_filter.1 hrecognised
  cases htold data hmem with
  | filler hfiller =>
    rw [hfiller.not_headed] at hheaded
    cases hheaded
  | @state stream history m hhost hline => exact ⟨stream, history, m, hhost, hline, rfl⟩

/-- The metrics that a browser is shown are those of one state, and its sensor
values are those of the start or of polls that the microcontroller has
answered. -/
theorem metrics_measured {odometry : Odometry UInt32} {s s' : State} {lineEvents : List Event}
    {ts : List Trace} (hrun : run s lineEvents = some (s', ts))
    (hempty : s.txDataBuffer.contents = []) (hzero : s.controlpacket.bytesRecieved = 0)
    (hfull : ∀ t ∈ ts, t.txFull = false) (htexts : TextsBetween ts) (hcommands : HostCommands ts)
    (py : Cnc.Python) {events : List (FleetEvent Robot Client)} {r : Robot}
    {login data : List UInt8} {told behind : List (List UInt8)}
    (hheard : heard r (events ++ [.robot r data]) = login :: behind)
    (htold : ∀ bytes ∈ told, Told odometry (sent ts) bytes)
    (hflat : behind.flatten = told.flatten) (hown : Own metricsMark told behind)
    {answer : Cnc.Answer Client}
    (hanswer : ((Cnc.Fleet.run py events).robotData r data).2 = some answer) :
    ∃ state, answer.metrics =
        Cnc.metricsDict (Cnc.MinotaurStatePacked.ofState state).read ∧
      (state = MinotaurState.fresh odometry ∨ Measured ts state) := by
  obtain ⟨⟨hlogged, -⟩, hpacket, rfl⟩ := (Cnc.answer_iff ..).1 hanswer
  rw [(Cnc.tracked_run py events).loggedin, spoken_iff_heard] at hlogged
  have hbehind : data ∈ behind := by
    rw [heard_robot, if_pos rfl] at hheard
    cases hbefore : heard r events with
    | nil => exact absurd hbefore hlogged
    | cons first rest =>
      rw [hbefore, List.cons_append, List.cons.injEq] at hheard
      rw [← hheard.2]
      simp
  obtain ⟨stream, history, m, hhost, hline, rfl⟩ :=
    state_of_packet htold hflat hown hbehind hpacket
  have hlined := run_lined hrun (by rw [hzero]; decide) htexts
  have hserved := hlined.served hzero hhost (hline.trans (prefix_sent hrun hempty hfull))
  refine ⟨m.currentState, ?_, measured_of_served hcommands hhost hserved.1⟩
  dsimp only
  rw [Cnc.unpack_ofState]

/-- As `restOdometry`, for the bits of numbers. -/
def stillOdometry : Odometry UInt32 where
  zero := 0
  sane := fun leftDiff rightDiff elapsed => leftDiff == 0 && rightDiff == 0 && elapsed != 0
  move := fun _ _ position => position

/-- A robot logs in, and a browser asks for its metrics. -/
def loginAndRequest : List (FleetEvent ℕ ℕ) :=
  [.robot 0 Cnc.loginBytes,
    .browser 0 ((Cnc.ascii "\x7b\"robotid\":\"Bull:1\",\"command\":48\x7d").map UInt8.ofNat)]

/-- The browser is shown the tick of `backTick`. -/
theorem metrics_measured_backTick :
    ∃ s' ts r answer, run State.init backTick = some (s', ts) ∧
      recv stillOdometry (fun _ => 100) ⟨sent ts, false⟩ (Minotaur.init stillOdometry) = some r ∧
      r.minotaur.currentState.rightEncoder = 0xFFFF ∧
      ((Cnc.Fleet.run Cnc.requestPython loginAndRequest).robotData 0
        (Cnc.Message.metrics r.minotaur.currentState).bytes).2 = some answer ∧
      ∃ state, answer.metrics =
          Cnc.metricsDict (Cnc.MinotaurStatePacked.ofState state).read ∧
        (state = MinotaurState.fresh stillOdometry ∨ Measured ts state) := by
  obtain ⟨s', ts, hts, hsent, hfull, htexts, hcommands⟩ := backTick_run
  obtain ⟨r, hrecv, hhost⟩ := @receives_first UInt32 stillOdometry (sent ts)
    (by rw [hsent]; decide +kernel)
  have hcommitted : (recv stillOdometry (fun _ => 100) ⟨sent ts, false⟩
      (Minotaur.init stillOdometry)).map (fun r => r.minotaur.currentState.rightEncoder) =
        some 0xFFFF := by
    rw [hsent]
    decide +kernel
  rw [hrecv, Option.map_some, Option.some.injEq] at hcommitted
  have hlength : (Cnc.Message.metrics r.minotaur.currentState).bytes.length = 23 :=
    Cnc.length_bytes _
  have hpacket : isPacket (Cnc.Message.metrics r.minotaur.currentState).bytes = true := by
    unfold isPacket
    rw [hlength]
    rfl
  have hanswer := (Cnc.answer_iff (Cnc.Fleet.run Cnc.requestPython loginAndRequest) 0 _ _).2
    ⟨⟨by decide, by decide⟩, hpacket, rfl⟩
  have htold : ∀ bytes ∈ [(Cnc.Message.metrics r.minotaur.currentState).bytes],
      Told stillOdometry (sent ts) bytes := by
    intro bytes hbytes
    rw [List.mem_singleton.1 hbytes]
    exact .state hhost List.prefix_rfl
  have hown : Own metricsMark [(Cnc.Message.metrics r.minotaur.currentState).bytes]
      [(Cnc.Message.metrics r.minotaur.currentState).bytes] := by
    intro pre m suf hsplit _
    cases pre with
    | nil =>
      obtain ⟨rfl, -⟩ := List.cons.inj hsplit
      exact ⟨[], [], rfl, rfl⟩
    | cons first pre =>
      obtain ⟨-, hrest⟩ := List.cons.inj hsplit
      simp at hrest
  exact ⟨s', ts, r, _, hts, hrecv, hcommitted, hanswer,
    metrics_measured hts rfl rfl hfull htexts hcommands Cnc.requestPython rfl htold rfl hown
      hanswer⟩

end MinotaurRobot.Link
