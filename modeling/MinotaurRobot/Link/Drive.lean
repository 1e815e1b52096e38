import MinotaurRobot.Host.SentOrder
import MinotaurRobot.Link.Downlink
import MinotaurRobot.Mcu.Motors
import MinotaurRobot.Web.Browser

/-!
# From the keys to the motors

A drive command goes through the loop of `mainCncWait`, through `sendpacket`
beside the polls of `mainMinosWait`, over the serial line, and through the main
loop of the microcontroller.  `motors_of_commands` has the motor registers as
a function of the commands of the server.

The first packet of `mainMinosWait` stops the motors.  Nothing orders it with
the packets of `mainCncWait`, and so it undoes the drive commands that are
written before it (`overtaken`).  `motors_of_keys` goes back to the keys of the
page.
-/

namespace MinotaurRobot.Link

open Host Mcu Cnc Web

/-! ## The threads of the host -/

/-- The packets that the command thread sends. -/
def motorCalls (done : List (CNCCommand × Action)) : List SendCall :=
  done.filterMap fun d =>
    match d.2 with
    | .sendpacket command data => some ⟨command, data, false⟩
    | _ => none

/-- The packets of `mainMinosWait`: one to stop the motors, then one in each
round. -/
def minosCalls (rounds : ℕ) : List SendCall :=
  ⟨0x01, 0x0000, false⟩ :: List.replicate rounds ⟨0xB0, 0x0000, false⟩

/-- How many packets of `mainCncWait` are written before the first one of
`mainMinosWait`. -/
def overtaken (order : List Sender) : ℕ :=
  if Sender.minos ∈ order then (order.takeWhile fun t => t = .cnc).length else 0

/-- The drive commands. -/
def driveCmds (cmds : List SendCmd) : List SendCmd := cmds.filter fun c => c.command = 0x01

/-- The wheels of the last drive command. -/
def wheelsOf (drives : List SendCmd) : Wheel × Wheel :=
  match drives.getLast? with
  | none => (Wheel.stopped, Wheel.stopped)
  | some c => (userWheel (UInt8.ofInt c.data1), userWheel (UInt8.ofInt c.data2))

/-- The commands of the server have gone to the microcontroller: every call of
`recv` hands out a whole command or nothing, `mainCncWait` is behind its calls
of `sendpacket`, and the main loop has popped what was written. -/
structure Carried (cmds : List SendCmd) (calls : List Cnc.RecvCall) (steps : List SendStep)
    (events : List Event) (s : State) : Prop where
  known : ∀ c ∈ cmds, Known c
  inByte : ∀ c ∈ cmds, 0 ≤ c.command ∧ c.command < 256
  stream : calls.flatMap Cnc.RecvCall.block = cmds.flatMap sendCmd
  whole : ∀ call ∈ calls, call.Whole ∨ call.block = []
  cnc : ∀ buffer, sendCalls .cnc steps = motorCalls (mainCncWait buffer calls).1
  minos : ∃ rounds, sendCalls .minos steps <+: minosCalls rounds
  sent : ∃ senders ts, Senders.run steps = some senders ∧ (senders.phase .cnc).pending = [] ∧
    Mcu.run State.init events = some (s, ts) ∧ popped ts = wire (senders.sent.map Sent.packet)

/-! ## The command thread -/

/-- With idle rounds in between the loop still dispatches every command. -/
theorem mainCncWait_dispatches {cmds : List SendCmd} (hknown : ∀ c ∈ cmds, Known c)
    {calls : List Cnc.RecvCall} (hwhole : ∀ call ∈ calls, call.Whole ∨ call.block = [])
    (hstream : calls.flatMap Cnc.RecvCall.block = cmds.flatMap sendCmd) (buffer : Int → UInt8) :
    (mainCncWait buffer calls).1 = cmds.flatMap expected := by
  induction calls generalizing cmds buffer with
  | nil =>
    cases cmds with
    | nil => rfl
    | cons c cmds =>
      have hlen := congrArg List.length hstream
      simp [sendCmd] at hlen
  | cons call calls ih =>
    have hrest : ∀ c ∈ calls, c.Whole ∨ c.block = [] :=
      fun c hc => hwhole c (List.mem_cons_of_mem _ hc)
    rw [List.flatMap_cons] at hstream
    rcases hwhole call List.mem_cons_self with hcall | hidle
    · cases cmds with
      | nil =>
        have hlen := congrArg List.length hstream
        simp [hcall.1] at hlen
      | cons c cmds =>
        rw [List.flatMap_cons] at hstream
        obtain ⟨hblock, htail⟩ := List.append_inj hstream (by rw [hcall.1]; rfl)
        obtain ⟨buffer', done, hround, hdone⟩ :=
          cncRound_whole (hknown c List.mem_cons_self) buffer hblock hcall.2
        have hloop := ih (fun c hc => hknown c (List.mem_cons_of_mem _ hc)) hrest htail buffer'
        simp only [mainCncWait, hround, hloop, hdone, List.flatMap_cons]
    · rw [hidle, List.nil_append] at hstream
      have hloop := ih hknown hrest hstream (cncCheckmsg buffer call).1
      simp only [mainCncWait, cncRound_idle (Or.inr hidle), hloop, Option.toList_none,
        List.nil_append]

/-- The packet of a drive command, without its number. -/
def drivePayload (c : SendCmd) : Payload :=
  ⟨0xAA, cmdMotors, UInt8.ofInt c.data1, UInt8.ofInt c.data2⟩

theorem udata16_bytes (c : CNCCommand) :
    c.udata16.toUInt8 = c.udata8Fst ∧ (c.udata16 >>> 8).toUInt8 = c.udata8Snd := by
  have hfst := c.udata8Fst.toNat_lt
  have hsnd := c.udata8Snd.toNat_lt
  have hword : c.udata16.toNat = c.udata8Fst.toNat + 256 * c.udata8Snd.toNat := by
    rw [CNCCommand.udata16, UInt16.toNat_ofNat']
    omega
  constructor
  · apply UInt8.toNat_inj.1
    rw [UInt16.toNat_toUInt8, hword]
    omega
  · apply UInt8.toNat_inj.1
    rw [UInt16.toNat_toUInt8, UInt16.toNat_shiftRight, hword]
    have hshift : (8 : UInt16).toNat % 16 = 8 := rfl
    rw [hshift, Nat.shiftRight_eq_div_pow]
    omega

/-- A command makes a packet if it is a drive command. -/
theorem payload_expected {c : SendCmd} (hknown : Known c)
    (hbyte : 0 ≤ c.command ∧ c.command < 256) :
    (motorCalls (expected c)).map SendCall.payload =
      if c.command = 0x01 then [drivePayload c] else [] := by
  have hcommand : c.received.command = 0x01 ↔ c.command = 0x01 := by
    show UInt8.ofInt c.command = 0x01 ↔ _
    rw [← UInt8.toNat_inj]
    have hnat : (UInt8.ofInt c.command).toNat = (c.command % 256).toNat := by
      simp only [UInt8.ofInt, UInt8.toNat_ofNat']
      omega
    rw [hnat]
    show _ = 1 ↔ _
    omega
  obtain ⟨action, haction, hexpected⟩ := expected_of_known hknown
  rw [hexpected]
  by_cases hdrive : c.command = 0x01
  · rw [dispatch, if_pos (hcommand.2 hdrive), Except.ok.injEq] at haction
    rw [← haction, if_pos hdrive]
    obtain ⟨hfst, hsnd⟩ := udata16_bytes c.received
    show [Payload.mk 0xAA c.received.command c.received.udata16.toUInt8
      (c.received.udata16 >>> 8).toUInt8] = _
    rw [hfst, hsnd, hcommand.2 hdrive]
    rfl
  · rw [if_neg hdrive]
    rw [dispatch, if_neg fun h => hdrive (hcommand.1 h)] at haction
    have hother : ∀ command data, action ≠ .sendpacket command data := by
      intro command data heq
      rw [heq] at haction
      simp only [posFrame] at haction
      split_ifs at haction <;> simp_all
    cases action with
    | sendpacket command data => exact absurd rfl (hother command data)
    | dumpVideo | chooseSource | noSource | metrics => rfl

theorem payloads_expected {cmds : List SendCmd} (hknown : ∀ c ∈ cmds, Known c)
    (hbyte : ∀ c ∈ cmds, 0 ≤ c.command ∧ c.command < 256) :
    (motorCalls (cmds.flatMap expected)).map SendCall.payload =
      (driveCmds cmds).map drivePayload := by
  induction cmds with
  | nil => rfl
  | cons c cmds ih =>
    have ih := ih (fun c hc => hknown c (List.mem_cons_of_mem _ hc))
      fun c hc => hbyte c (List.mem_cons_of_mem _ hc)
    rw [List.flatMap_cons, motorCalls, List.filterMap_append, List.map_append, ← motorCalls,
      ← motorCalls, ih, payload_expected (hknown c List.mem_cons_self)
      (hbyte c List.mem_cons_self), driveCmds, driveCmds, List.filter_cons]
    by_cases hdrive : c.command = 0x01
    · simp [hdrive]
    · simp [hdrive]

/-! ## The settings behind the packets -/

/-- `Settings.apply` does not depend on the number of a packet. -/
def takePayload (x : Settings) (p : Payload) : Settings :=
  x.apply ⟨5, 0, p.command, p.udata8Fst, p.udata8Snd⟩

/-- The packet that stops the motors. -/
def stopPayload : Payload := ⟨0xAA, cmdMotors, 0, 0⟩

/-- A poll. -/
def pollPayload : Payload := ⟨0xAA, cmdGetSensorData, 0, 0⟩

theorem takePayload_poll (x : Settings) : takePayload x pollPayload = x := rfl

theorem takePayload_stop {x : Settings} (h : x.sensorEnable = 0) :
    takePayload x stopPayload = Settings.init := by
  show Settings.mk (userWheel 0) (userWheel 0) x.sensorEnable = _
  rw [h]
  rfl

theorem takePayload_motors {x : Settings} {p : Payload} (h : p.command = cmdMotors) :
    takePayload x p = ⟨userWheel p.udata8Fst, userWheel p.udata8Snd, x.sensorEnable⟩ := by
  rw [takePayload, Settings.apply, if_pos h]

theorem payloads_minosCalls (rounds : ℕ) :
    (minosCalls rounds).map SendCall.payload =
      stopPayload :: List.replicate rounds pollPayload := by
  rw [minosCalls, List.map_cons, List.map_replicate]
  rfl

/-- What a thread has written. -/
def ofThread (t : Sender) (log : List (Sender × Payload)) : List Payload :=
  (log.filter fun e => e.1 = t).map Prod.snd

/-- The polls change nothing. -/
theorem foldl_polls {log : List (Sender × Payload)} {rounds : ℕ}
    (h : ofThread .minos log <+: List.replicate rounds pollPayload) (x : Settings) :
    (log.map Prod.snd).foldl takePayload x = (ofThread .cnc log).foldl takePayload x := by
  have hpolls : ∀ p, (Sender.minos, p) ∈ log → p = pollPayload := by
    intro p hp
    apply List.eq_of_mem_replicate (n := rounds)
    apply h.subset
    rw [ofThread, List.mem_map]
    exact ⟨(.minos, p), List.mem_filter.2 ⟨hp, by simp⟩, rfl⟩
  clear h
  induction log generalizing x with
  | nil => rfl
  | cons e log ih =>
    have hrest : ∀ p, (Sender.minos, p) ∈ log → p = pollPayload :=
      fun p hp => hpolls p (List.mem_cons_of_mem _ hp)
    obtain ⟨t, p⟩ := e
    cases t with
    | cnc => exact ih _ hrest
    | minos =>
      rw [List.map_cons, List.foldl_cons, hpolls p List.mem_cons_self, takePayload_poll]
      exact ih x hrest

/-- The settings behind both threads: the packet that stops the motors undoes
what is in front of it. -/
theorem foldl_log {log : List (Sender × Payload)} {rounds : ℕ}
    (hcnc : ∀ p, (Sender.cnc, p) ∈ log → p.command = cmdMotors)
    (hminos : ofThread .minos log <+: stopPayload :: List.replicate rounds pollPayload)
    {x : Settings} (hx : x.sensorEnable = 0) :
    (log.map Prod.snd).foldl takePayload x =
      ((ofThread .cnc log).drop (overtaken (log.map Prod.fst))).foldl takePayload
        (if Sender.minos ∈ log.map Prod.fst then Settings.init else x) := by
  induction log generalizing x with
  | nil => rfl
  | cons e log ih =>
    obtain ⟨t, p⟩ := e
    cases t with
    | cnc =>
      have hmotors := hcnc p List.mem_cons_self
      have henable : (takePayload x p).sensorEnable = 0 := by
        rw [takePayload_motors hmotors]
        exact hx
      have hlog := ih (fun p hp => hcnc p (List.mem_cons_of_mem _ hp)) hminos henable
      have hcons : ofThread .cnc ((.cnc, p) :: log) = p :: ofThread .cnc log := rfl
      rw [List.map_cons, List.foldl_cons, hlog, hcons, List.map_cons]
      by_cases hmem : Sender.minos ∈ log.map Prod.fst
      · have hmem' : Sender.minos ∈ Sender.cnc :: log.map Prod.fst := List.mem_cons_of_mem _ hmem
        have hcount : overtaken (Sender.cnc :: log.map Prod.fst) =
            overtaken (log.map Prod.fst) + 1 := by
          rw [overtaken, overtaken, if_pos hmem', if_pos hmem, List.takeWhile_cons_of_pos (by simp),
            List.length_cons]
        rw [if_pos hmem', if_pos hmem, hcount, List.drop_succ_cons]
      · have hmem' : Sender.minos ∉ Sender.cnc :: log.map Prod.fst := by
          rw [List.mem_cons, not_or]
          exact ⟨by decide, hmem⟩
        rw [if_neg hmem', if_neg hmem, overtaken, if_neg hmem, overtaken, if_neg hmem',
          List.drop_zero, List.drop_zero, List.foldl_cons]
    | minos =>
      have hmem : Sender.minos ∈ Sender.minos :: log.map Prod.fst := List.mem_cons_self
      have hcons : ofThread .minos ((.minos, p) :: log) = p :: ofThread .minos log := rfl
      rw [hcons, List.cons_prefix_cons] at hminos
      obtain ⟨rfl, hpolls⟩ := hminos
      rw [List.map_cons, List.foldl_cons, takePayload_stop hx, foldl_polls hpolls, List.map_cons,
        if_pos hmem, overtaken, if_pos hmem, List.takeWhile_cons_of_neg (by simp)]
      rfl

theorem foldl_drives (drives : List SendCmd) :
    (drives.map drivePayload).foldl takePayload Settings.init =
      ⟨(wheelsOf drives).1, (wheelsOf drives).2, 0⟩ := by
  have henable : ∀ drives : List SendCmd,
      ((drives.map drivePayload).foldl takePayload Settings.init).sensorEnable = 0 := by
    intro drives
    induction drives using List.reverseRecOn with
    | nil => rfl
    | append_singleton drives c ih =>
      rw [List.map_append, List.foldl_append]
      exact ih
  cases drives using List.reverseRecOn with
  | nil => rfl
  | append_singleton drives c =>
    rw [wheelsOf, List.getLast?_concat, List.map_append, List.foldl_append, List.map_singleton,
      List.foldl_cons, List.foldl_nil, takePayload_motors rfl, henable]
    rfl

/-! ## The motors -/

theorem Carried.settings {cmds : List SendCmd} {calls : List Cnc.RecvCall} {steps : List SendStep}
    {events : List Event} {s : State} (h : Carried cmds calls steps events s) :
    s.settings = ⟨(wheelsOf ((driveCmds cmds).drop (overtaken (writers steps)))).1,
        (wheelsOf ((driveCmds cmds).drop (overtaken (writers steps)))).2, 0⟩ ∧ s.Driven := by
  obtain ⟨senders, ts, hsenders, hpending, hrun, hpopped⟩ := h.sent
  obtain ⟨rounds, hrounds⟩ := h.minos
  obtain ⟨log, hlog⟩ := sent_interleaves hsenders
  have hsync : ∀ p ∈ senders.sent.map Sent.packet, p.sync = syncByte := by
    intro p hp
    obtain ⟨w, hw, rfl⟩ := List.mem_map.1 hp
    exact hlog.sync w hw
  have hhandled : handledPackets ts = (senders.sent.map Sent.packet).map controlOf := by
    have hall := (run_handledPackets hsync rfl hrun (hpopped ▸ List.prefix_rfl)).1
    rwa [hpopped, wire_length, Nat.mul_div_cancel_left _ (by decide), List.take_length] at hall
  have hdrives : ofThread .cnc log = (driveCmds cmds).map drivePayload := by
    have horder := hlog.order .cnc
    rw [hpending, List.append_nil, h.cnc fun _ => 0,
      mainCncWait_dispatches h.known h.whole h.stream, payloads_expected h.known h.inByte] at horder
    exact horder
  have hpolls : ofThread .minos log <+: stopPayload :: List.replicate rounds pollPayload := by
    rw [← payloads_minosCalls]
    exact (List.prefix_append ..).trans ((hlog.order .minos).symm ▸ hrounds.map SendCall.payload)
  have hmotors : ∀ p, (Sender.cnc, p) ∈ log → p.command = cmdMotors := by
    intro p hp
    have hmem : p ∈ ofThread .cnc log :=
      List.mem_map.2 ⟨(.cnc, p), List.mem_filter.2 ⟨hp, by simp⟩, rfl⟩
    rw [hdrives] at hmem
    obtain ⟨c, -, rfl⟩ := List.mem_map.1 hmem
    rfl
  have hfold : (handledPackets ts).foldl Settings.apply Settings.init =
      (log.map Prod.snd).foldl takePayload Settings.init := by
    rw [hhandled, ← hlog.written, List.foldl_map, List.foldl_map, List.foldl_map]
    rfl
  obtain ⟨hsettings, hdriven⟩ := run_settings hrun driven_init
  refine ⟨?_, hdriven⟩
  rw [hsettings]
  show (handledPackets ts).foldl Settings.apply Settings.init = _
  rw [hfold, foldl_log hmotors hpolls rfl, hdrives, ite_self, hlog.threads, ← List.map_drop,
    foldl_drives]

/-- The motor registers are those of the last drive command that the server
has sent, if the packet that stops the motors has not overtaken it. -/
theorem motors_of_commands {cmds : List SendCmd} {calls : List Cnc.RecvCall} {steps : List SendStep}
    {events : List Event} {s : State} (h : Carried cmds calls steps events s) :
    s.outputs = outputsOf (wheelsOf ((driveCmds cmds).drop (overtaken (writers steps)))) := by
  obtain ⟨hsettings, hdriven⟩ := h.settings
  rw [hdriven, hsettings]
  rfl

/-- The packets of some steps arrive, byte after byte. -/
theorem Carried.of_arrivals {cmds : List SendCmd} (calls : List Cnc.RecvCall) (steps : List SendStep)
    (packets : List MinosPacket) (rounds : ℕ)
    (hknown : ∀ c ∈ cmds, Known c) (hbyte : ∀ c ∈ cmds, 0 ≤ c.command ∧ c.command < 256)
    (hstream : calls.flatMap Cnc.RecvCall.block = cmds.flatMap sendCmd)
    (hwhole : ∀ call ∈ calls, call.Whole ∨ call.block = [])
    (hcnc : sendCalls .cnc steps = motorCalls (cmds.flatMap expected))
    (hminos : sendCalls .minos steps <+: minosCalls rounds)
    (hsent : (Senders.run steps).map (fun s => ((s.phase .cnc).pending, s.sent.map Sent.packet)) =
      some ([], packets))
    (hpopped : (Mcu.run State.init (arrivals (wire packets))).map (fun r => popped r.2) =
      some (wire packets)) :
    ∃ s, Carried cmds calls steps (arrivals (wire packets)) s := by
  obtain ⟨senders, hsenders, hsent⟩ := Option.map_eq_some_iff.1 hsent
  obtain ⟨⟨s, ts⟩, hrun, hpopped⟩ := Option.map_eq_some_iff.1 hpopped
  rw [Prod.mk.injEq] at hsent
  refine ⟨s, hknown, hbyte, hstream, hwhole, fun buffer => ?_, ⟨rounds, hminos⟩, senders, ts,
    hsenders, hsent.1, hrun, ?_⟩
  · rw [mainCncWait_dispatches hknown hwhole hstream, hcnc]
  · rw [hpopped, hsent.2]

/-- A forward command is written before the packet that stops the motors. -/
def stoppedSteps : List SendStep :=
  [.call .cnc ⟨0x01, 0x3F3F, false⟩, .call .minos ⟨0x01, 0, false⟩, .select .cnc, .select .minos,
    .build .cnc, .build .minos, .write .cnc, .write .minos, .ret .minos, .ret .cnc]

theorem motors_of_commands_stopped :
    ∃ s, Carried [⟨0x01, 63, 63⟩] [⟨none, true⟩, ⟨some [0x01, 63, 63], false⟩] stoppedSteps
        (arrivals (wire [⟨0xAA, 2, 0x01, 63, 63⟩, ⟨0xAA, 2, 0x01, 0, 0⟩])) s ∧
      s.outputs = ⟨0, 0, 0⟩ := by
  have hknown : ∀ c ∈ [SendCmd.mk 0x01 63 63], Known c := by
    intro c hc
    rw [List.mem_singleton] at hc
    rw [hc]
    exact ⟨.sendpacket 0x01 0x3F3F, by decide⟩
  obtain ⟨s, hs⟩ := Carried.of_arrivals [⟨none, true⟩, ⟨some [0x01, 63, 63], false⟩] stoppedSteps
    [⟨0xAA, 2, 0x01, 63, 63⟩, ⟨0xAA, 2, 0x01, 0, 0⟩] 0 hknown (by decide) (by decide)
    (by decide) (by rfl) List.prefix_rfl (by rfl) (by decide +kernel)
  exact ⟨s, hs, by rw [motors_of_commands hs]; decide⟩

/-! ## The keys -/

theorem commanded_eq (cmds : List SendCmd) :
    commanded cmds =
      ((wheelsOf (driveCmds cmds)).1.direction, (wheelsOf (driveCmds cmds)).2.direction) := by
  unfold commanded wheelsOf driveCmds
  cases (cmds.filter fun c => c.command = 0x01).getLast? <;> rfl

/-- Requests for metrics are no drive commands. -/
theorem driveCmds_filter (cmds : List SendCmd) :
    driveCmds (cmds.filter fun c => c.command ≠ 0x30) = driveCmds cmds := by
  rw [driveCmds, List.filter_filter, driveCmds]
  congr 1
  funext c
  by_cases hdrive : c.command = 0x01
  · simp [hdrive]
  · simp [hdrive]

/-- The bits of the directions in `LATE` are those of the keys that are held
at the last sample of the page. -/
theorem motors_of_keys {cmds : List SendCmd} {calls : List Cnc.RecvCall} {steps : List SendStep}
    {events : List Event} {s : State} (h : Carried cmds calls steps events s)
    {page : List PageEvent} {speed : Int} (hdriving : Driving (page ++ [.sample speed]))
    (hfree : StartsFree (page ++ [.sample speed]))
    (hcmds : cmds.filter (fun c => c.command ≠ 0x30) =
      (Session.run (Page.run (page ++ [.sample speed])).sent).sent)
    (hstop : overtaken (writers steps) = 0 ∨ overtaken (writers steps) < (driveCmds cmds).length) :
    s.late = (wanted (held page)).1.bit 0x02 0x04 ||| (wanted (held page)).2.bit 0x08 0x10 := by
  have hlast : wheelsOf ((driveCmds cmds).drop (overtaken (writers steps))) =
      wheelsOf (driveCmds cmds) := by
    rcases hstop with hzero | hlt
    · rw [hzero, List.drop_zero]
    · rw [wheelsOf, wheelsOf, List.getLast?_drop, if_neg (by omega)]
  obtain ⟨hsettings, hdriven⟩ := h.settings
  rw [hlast] at hsettings
  have hwheels : s.late = (outputsOf (wheelsOf (driveCmds cmds))).late := by
    have houtputs := congrArg Outputs.late hdriven
    rw [hsettings] at houtputs
    exact houtputs
  have hwanted : commanded cmds = wanted (held page) := by
    rw [← commanded_sample hdriving hfree, ← hcmds, commanded_eq, commanded_eq, driveCmds_filter]
  rw [hwheels, ← hwanted, commanded_eq]
  rfl

/-- W is pressed, then A, and W is released. -/
def turnPage : List PageEvent :=
  [.sample 50, .keydown 87, .sample 50, .keydown 65, .keyup 87]

/-- The commands for it, with a request for metrics. -/
def turnCmds : List SendCmd := [⟨0x01, 63, 63⟩, ⟨0x30, 0, 0⟩, ⟨0x01, 216, 88⟩]

/-- A poll goes in between. -/
def turnSteps : List SendStep :=
  [.call .minos ⟨0x01, 0, false⟩, .select .minos, .build .minos, .write .minos, .ret .minos,
    .call .cnc ⟨0x01, 0x3F3F, false⟩, .call .minos ⟨0xB0, 0, false⟩, .select .cnc, .build .cnc,
    .select .minos, .write .cnc, .build .minos, .write .minos, .ret .cnc,
    .call .cnc ⟨0x01, 0x58D8, false⟩, .select .cnc, .build .cnc, .write .cnc]

def turnPackets : List MinosPacket :=
  [⟨0xAA, 1, 0x01, 0, 0⟩, ⟨0xAA, 2, 0x01, 63, 63⟩, ⟨0xAA, 3, 0xB0, 0, 0⟩,
    ⟨0xAA, 4, 0x01, 216, 88⟩]

/-- The robot turns on the spot. -/
theorem motors_of_keys_turn :
    ∃ s, Carried turnCmds (turnCmds.map fun c => ⟨some (sendCmd c), false⟩) turnSteps
        (arrivals (wire turnPackets)) s ∧ s.late = 0x04 ||| 0x08 := by
  have hknown : ∀ c ∈ turnCmds, Known c := by
    intro c hc
    simp only [turnCmds, List.mem_cons, List.not_mem_nil, or_false] at hc
    rcases hc with rfl | rfl | rfl
    · exact ⟨.sendpacket 0x01 0x3F3F, by decide⟩
    · exact ⟨.metrics, by decide⟩
    · exact ⟨.sendpacket 0x01 0x58D8, by decide⟩
  have hcuts : ∀ pre speed, pre ++ [PageEvent.sample speed] <+: turnPage ++ [.sample 70] →
      (pre, speed) ∈ [([], 50), ([.sample 50, .keydown 87], 50), (turnPage, 70)] := by
    rintro pre speed ⟨tail, htail⟩
    rcases pre with _ | ⟨_, _ | ⟨_, _ | ⟨_, _ | ⟨_, _ | ⟨_, _ | ⟨_, pre⟩⟩⟩⟩⟩⟩ <;>
      simp [turnPage] at htail <;> simp [turnPage, htail]
  have hdriving : Driving (turnPage ++ [.sample 70]) := by
    intro pre speed hpre
    have hmem := hcuts pre speed hpre
    simp only [List.mem_cons, Prod.mk.injEq, List.not_mem_nil, or_false] at hmem
    rcases hmem with ⟨rfl, rfl⟩ | ⟨rfl, rfl⟩ | ⟨rfl, rfl⟩
    · exact ⟨fun key _ => rfl, by decide, by decide⟩
    · refine ⟨fun key hkey => ?_, by decide, by decide⟩
      cases key <;> first | rfl | exact absurd hkey (by decide)
    · refine ⟨fun key hkey => ?_, by decide, by decide⟩
      cases key <;> first | rfl | exact absurd hkey (by decide)
  have hfree : StartsFree (turnPage ++ [.sample 70]) := by
    intro pre speed hpre hnone key
    have hmem := hcuts pre speed hpre
    simp only [List.mem_cons, Prod.mk.injEq, List.not_mem_nil, or_false] at hmem
    rcases hmem with ⟨rfl, rfl⟩ | ⟨rfl, rfl⟩ | ⟨rfl, rfl⟩
    · rfl
    · exact absurd hnone (by decide)
    · exact absurd hnone (by decide)
  obtain ⟨s, hs⟩ := Carried.of_arrivals (turnCmds.map fun c => ⟨some (sendCmd c), false⟩) turnSteps
    turnPackets 1 hknown (by decide) (by decide) (by decide) (by rfl) List.prefix_rfl (by rfl)
    (by decide +kernel)
  exact ⟨s, hs, motors_of_keys hs hdriving hfree (by decide) (by decide)⟩

end MinotaurRobot.Link
