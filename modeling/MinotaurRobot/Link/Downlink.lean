import MinotaurRobot.Host.Packet
import MinotaurRobot.Mcu.Runs

/-!
# The link from the host to the microcontroller

The host writes packets, and the main loop takes their bytes out of its
receive buffer one at a time.  `feed_packets` is the parser alone: from an
empty control packet it completes exactly the whole packets among the bytes
it got, and whatever the payload is, a sync byte inside a packet does not
restart it.  `downlink_exact` is the main loop, for every run.
-/

namespace MinotaurRobot.Link

open MinotaurRobot.Host MinotaurRobot.Mcu

/-- The control packet that a packet of the host fills in. -/
def controlOf (p : MinosPacket) : ControlData :=
  { bytesRecieved := 5
    sequence := p.seq
    command := p.command
    data1 := p.udata8Fst
    data2 := p.udata8Snd }

/-! ## The parser -/

/-- A whole packet is completed by its last byte. -/
theorem feed_packet {q : ControlData} (hq : q.bytesRecieved = 0) {p : MinosPacket}
    (hp : p.sync = syncByte) (rest : List UInt8) :
    feed q (p.bytes ++ rest) =
      ((feed { controlOf p with bytesRecieved := 0 } rest).1,
        controlOf p :: (feed { controlOf p with bytesRecieved := 0 } rest).2) := by
  simp [MinosPacket.bytes, feed_cons, assemblyStep, settle, hq, hp, controlOf]

/-- A part of a packet completes nothing. -/
theorem feed_part {q : ControlData} (hq : q.bytesRecieved = 0) {p : MinosPacket}
    (hp : p.sync = syncByte) {bytes : List UInt8} (hstart : bytes <+: p.bytes)
    (hlen : bytes.length < 5) :
    (feed q bytes).2 = [] ∧ (feed q bytes).1.bytesRecieved.toNat = bytes.length := by
  rw [List.prefix_iff_eq_take] at hstart
  have hcases : bytes.length = 0 ∨ bytes.length = 1 ∨ bytes.length = 2 ∨ bytes.length = 3 ∨
      bytes.length = 4 := by omega
  rcases hcases with h | h | h | h | h <;> rw [hstart, h] <;>
    simp [MinosPacket.bytes, feed, feed_cons, assemblyStep, settle, hq, hp]

/-- The parser completes the whole packets among its bytes, and counts the
bytes of the packet that is not complete yet. -/
theorem feed_packets {packets : List MinosPacket} (hsync : ∀ p ∈ packets, p.sync = syncByte)
    {q : ControlData} (hq : q.bytesRecieved = 0) {bytes : List UInt8}
    (hstart : bytes <+: wire packets) :
    (feed q bytes).2 = (packets.take (bytes.length / 5)).map controlOf ∧
      (feed q bytes).1.bytesRecieved.toNat = bytes.length % 5 := by
  induction packets generalizing q bytes with
  | nil =>
    rw [wire, List.flatMap_nil, List.prefix_nil] at hstart
    subst hstart
    rw [feed, hq]
    exact ⟨rfl, rfl⟩
  | cons p packets ih =>
    have hp := hsync p (List.mem_cons_self ..)
    rw [wire, List.flatMap_cons, ← wire] at hstart
    by_cases hlen : bytes.length < 5
    · have hpart : bytes <+: p.bytes :=
        List.prefix_of_prefix_length_le hstart (List.prefix_append ..)
          (by rw [p.bytes_length]; omega)
      obtain ⟨hdone, hcount⟩ := feed_part hq hp hpart hlen
      rw [hdone, hcount, Nat.div_eq_of_lt hlen, Nat.mod_eq_of_lt hlen]
      exact ⟨rfl, rfl⟩
    · obtain ⟨rest, rfl⟩ : p.bytes <+: bytes :=
        List.prefix_of_prefix_length_le (List.prefix_append ..) hstart
          (by rw [p.bytes_length]; omega)
      rw [List.prefix_append_right_inj] at hstart
      obtain ⟨hdone, hcount⟩ := ih (fun r hr => hsync r (List.mem_cons_of_mem p hr))
        (q := { controlOf p with bytesRecieved := 0 }) rfl hstart
      rw [feed_packet hq hp, List.length_append, p.bytes_length, Nat.add_comm,
        Nat.add_div_right _ (by decide), Nat.add_mod_right]
      refine ⟨?_, hcount⟩
      rw [hdone, List.take_succ_cons, List.map_cons]

/-! ## The main loop -/

/-- The packets a run handles are the whole packets among the bytes it has
popped. -/
theorem run_handledPackets {packets : List MinosPacket}
    (hsync : ∀ p ∈ packets, p.sync = syncByte) {s s' : State}
    (hzero : s.controlpacket.bytesRecieved = 0) {events : List Event} {ts : List Trace}
    (hrun : run s events = some (s', ts)) (hfed : popped ts <+: wire packets) :
    handledPackets ts = (packets.take ((popped ts).length / 5)).map controlOf ∧
      s'.controlpacket.bytesRecieved.toNat = (popped ts).length % 5 := by
  have hfeed := (run_feed hrun (by rw [hzero]; decide)).1
  have h := feed_packets hsync hzero hfed
  rw [hfeed] at h
  exact h

/-- The main loop, started with an empty control packet and an empty receive
buffer, and given the bytes of some packets.

* Without a request for debug text it never waits.
* At every moment it has handled the whole packets among the bytes popped so
  far, each in one iteration and with its own payload, and `bytesRecieved`
  counts the rest.
* It pops a byte with `bytesRecieved` at most four, and a handled packet
  leaves `bytesRecieved` zero.
* Once all bytes are in, as many idle iterations as bytes are buffered
  complete all packets. -/
theorem downlink_exact {packets : List MinosPacket}
    (hsync : ∀ p ∈ packets, p.sync = syncByte) {s : State}
    (hzero : s.controlpacket.bytesRecieved = 0) (hempty : s.rxDataBuffer.contents = [])
    (events : List Event) :
    (s.print = false → Event.interrupt .t4 ∉ events → (run s events).isSome) ∧
      ∀ s' ts, run s events = some (s', ts) → received ts <+: wire packets →
        popped ts ++ s'.rxDataBuffer.contents = received ts ∧
        handledPackets ts = (packets.take ((popped ts).length / 5)).map controlOf ∧
        s'.controlpacket.bytesRecieved.toNat = (popped ts).length % 5 ∧
        (∀ t ∈ ts, t.bytesRecieved ≤ 4 ∧ (t.handled.isSome → t.bytesLeft = 0)) ∧
        ∀ idle s'' ts', run s' idle = some (s'', ts') →
          received ts = wire packets → received ts' = [] →
          s'.rxDataBuffer.contents.length ≤ ts'.length →
          handledPackets (ts ++ ts') = packets.map controlOf ∧
            s''.controlpacket.bytesRecieved = 0 := by
  refine ⟨run_isSome, ?_⟩
  intro s' ts hrun hfed
  have hrx := run_rx hrun
  rw [hempty, List.nil_append] at hrx
  have hpopped : popped ts <+: received ts := ⟨_, hrx⟩
  obtain ⟨hhandled, hcount⟩ := run_handledPackets hsync hzero hrun (hpopped.trans hfed)
  refine ⟨hrx, hhandled, hcount, (run_feed hrun (by rw [hzero]; decide)).2, ?_⟩
  intro idle s'' ts' hidle hall hnone hlong
  have hrx' := run_rx hidle
  have hlen := run_pops hidle hnone
  have hdrained : s''.rxDataBuffer.contents = [] := List.length_eq_zero_iff.1 (by omega)
  rw [hdrained, hnone, List.append_nil, List.append_nil] at hrx'
  have hboth : popped (ts ++ ts') = wire packets := by
    rw [popped, List.flatMap_append, ← popped, ← popped, hrx', hrx, hall]
  obtain ⟨hdone, hzero'⟩ := run_handledPackets hsync hzero (run_append hrun hidle)
    (hboth ▸ List.prefix_rfl)
  rw [hboth, wire_length, Nat.mul_div_cancel_left _ (by decide), List.take_length] at hdone
  rw [hboth, wire_length, Nat.mul_mod_right] at hzero'
  exact ⟨hdone, UInt8.toNat_inj.1 hzero'⟩

/-- The byte in `U1RXREG`, with all other registers zero. -/
def hwOfByte (c : UInt8) : Hw := ⟨0, 0, 0, 0, 0, c, 0⟩

/-- A battery request whose sequence number is the sync byte. -/
def batteryRequest : MinosPacket := ⟨syncByte, syncByte, cmdBattery, 0, 0⟩

/-- The bytes arrive one interrupt and one iteration after the other. -/
def arrivals (bytes : List UInt8) : List Event :=
  bytes.flatMap fun c => [.interrupt (.u1rx false false), .iterate (hwOfByte c)]

/-- The request is handled once, although it contains two sync bytes. -/
theorem downlink_exact_batteryRequest :
    ∃ s' ts, run State.init (arrivals batteryRequest.bytes) = some (s', ts) ∧
      handledPackets ts = [⟨5, syncByte, cmdBattery, 0, 0⟩] ∧
      s'.controlpacket.bytesRecieved = 0 := by
  have hsync : ∀ p ∈ [batteryRequest], p.sync = syncByte := by simp [batteryRequest]
  have hzero : State.init.controlpacket.bytesRecieved = 0 := rfl
  obtain ⟨htotal, hexact⟩ := downlink_exact hsync hzero rfl (arrivals batteryRequest.bytes)
  obtain ⟨⟨s', ts⟩, hrun⟩ := Option.isSome_iff_exists.1 (htotal rfl (by decide))
  have hreceived : (run State.init (arrivals batteryRequest.bytes)).map (fun r => received r.2) =
      some (wire [batteryRequest]) := by rfl
  have hdrained : (run State.init (arrivals batteryRequest.bytes)).map
      (fun r => r.1.rxDataBuffer.contents) = some [] := by rfl
  rw [hrun, Option.map_some, Option.some.injEq] at hreceived hdrained
  obtain ⟨hpopped, hhandled, hcount, -, -⟩ := hexact s' ts hrun (hreceived ▸ List.prefix_rfl)
  rw [hdrained, List.append_nil] at hpopped
  rw [hpopped, hreceived] at hhandled hcount
  exact ⟨s', ts, hrun, hhandled, UInt8.toNat_inj.1 hcount⟩

end MinotaurRobot.Link
