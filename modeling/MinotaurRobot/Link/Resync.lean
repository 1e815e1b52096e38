import MinotaurRobot.Link.Downlink

/-!
# Noise on the link

The parser of the microcontroller waits for a sync byte and then takes the next
four bytes as they come.  Noise can leave it in the middle of a packet.  The
bytes of the next packet then complete that one, and as none of the bytes left
over is a sync byte, they are skipped: the parser is aligned again at the end of
the first packet (`feed_misaligned`).
-/

namespace MinotaurRobot.Link

open MinotaurRobot.Host MinotaurRobot.Mcu

/-- A packet with no sync byte in its payload. -/
structure Genuine (p : MinosPacket) : Prop where
  sync : p.sync = syncByte
  seq : p.seq ≠ syncByte
  command : p.command ≠ syncByte
  data1 : p.udata8Fst ≠ syncByte
  data2 : p.udata8Snd ≠ syncByte

/-! ## The parser -/

theorem feed_append (q : ControlData) (xs ys : List UInt8) :
    feed q (xs ++ ys) =
      ((feed (feed q xs).1 ys).1, (feed q xs).2 ++ (feed (feed q xs).1 ys).2) := by
  induction xs generalizing q with
  | nil => rfl
  | cons x xs ih =>
    rw [List.cons_append, feed_cons, feed_cons q x xs, ih, List.append_assoc]

theorem feed_le {q : ControlData} (hq : q.bytesRecieved ≤ 4) (bytes : List UInt8) :
    (feed q bytes).1.bytesRecieved ≤ 4 := by
  induction bytes generalizing q with
  | nil => exact hq
  | cons c bytes ih =>
    rw [feed_cons]
    exact ih (settle_assemblyStep_le hq c)

/-- Between packets, bytes that are not a sync byte are skipped. -/
theorem feed_skip {q : ControlData} (hq : q.bytesRecieved = 0) {bytes : List UInt8}
    (hskip : ∀ c ∈ bytes, c ≠ syncByte) : feed q bytes = (q, []) := by
  induction bytes with
  | nil => rfl
  | cons c bytes ih =>
    have hle : q.bytesRecieved ≤ 4 := by rw [hq]; decide
    have hstay : settle (assemblyStep q c) = (none, q) := by
      rw [assemblyStep, if_pos hq, if_neg (hskip c (List.mem_cons_self ..)), settle_of_le hle]
    rw [feed_cons, hstay, ih fun d hd => hskip d (List.mem_cons_of_mem c hd)]
    rfl

/-- Inside a packet, the parser takes as many bytes as are missing, whatever
they are. -/
theorem feed_completes {q : ControlData} (hle : q.bytesRecieved ≤ 4) (hq : q.bytesRecieved ≠ 0)
    {bytes : List UInt8} (hlen : q.bytesRecieved.toNat + bytes.length = 5) :
    ∃ garbled, (feed q bytes).2 = [garbled] ∧ (feed q bytes).1.bytesRecieved = 0 := by
  induction bytes generalizing q with
  | nil =>
    have hfour : q.bytesRecieved.toNat ≤ 4 := UInt8.le_iff_toNat_le.1 hle
    rw [List.length_nil] at hlen
    omega
  | cons c bytes ih =>
    have hfour : q.bytesRecieved.toNat ≤ 4 := UInt8.le_iff_toNat_le.1 hle
    have hcount : (assemblyStep q c).bytesRecieved.toNat = q.bytesRecieved.toNat + 1 := by
      rw [assemblyStep_next hle hq, UInt8.toNat_add]
      show (q.bytesRecieved.toNat + 1) % 256 = _
      omega
    rw [List.length_cons] at hlen
    rw [feed_cons]
    by_cases hlast : (assemblyStep q c).bytesRecieved = 5
    · -- the last byte of the packet
      have hfive : (assemblyStep q c).bytesRecieved.toNat = 5 := congrArg UInt8.toNat hlast
      have hbytes : bytes = [] := List.eq_nil_of_length_eq_zero (by omega)
      rw [settle, if_pos hlast, hbytes]
      exact ⟨assemblyStep q c, rfl, rfl⟩
    · have hmore : settle (assemblyStep q c) = (none, assemblyStep q c) := by
        rw [settle, if_neg hlast]
      have hfive : (assemblyStep q c).bytesRecieved.toNat ≠ 5 :=
        fun h => hlast (UInt8.toNat_inj.1 h)
      have hnonzero : (assemblyStep q c).bytesRecieved ≠ 0 := by
        intro hzero
        rw [hzero] at hcount
        exact absurd hcount (Nat.succ_ne_zero _).symm
      have hle' : (assemblyStep q c).bytesRecieved ≤ 4 :=
        UInt8.le_iff_toNat_le.2 (show (assemblyStep q c).bytesRecieved.toNat ≤ 4 by omega)
      have hlen' : (assemblyStep q c).bytesRecieved.toNat + bytes.length = 5 := by omega
      rw [hmore]
      exact ih hle' hnonzero hlen'

/-- Inside a packet, the first bytes of a genuine packet complete it, and the
others are skipped. -/
theorem feed_misaligned {q : ControlData} (hle : q.bytesRecieved ≤ 4)
    (hq : q.bytesRecieved ≠ 0) {p : MinosPacket} (hp : Genuine p) :
    ∃ garbled, (feed q p.bytes).2 = [garbled] ∧ (feed q p.bytes).1.bytesRecieved = 0 := by
  have hle' : q.bytesRecieved.toNat ≤ 4 := UInt8.le_iff_toNat_le.1 hle
  have hpos : q.bytesRecieved.toNat ≠ 0 := fun h => hq (UInt8.toNat_inj.1 h)
  have hlen : q.bytesRecieved.toNat + (p.bytes.take (5 - q.bytesRecieved.toNat)).length = 5 := by
    rw [List.length_take, MinosPacket.bytes_length]
    omega
  obtain ⟨garbled, hdone, hzero⟩ := feed_completes hle hq hlen
  have hskip : ∀ c ∈ p.bytes.drop (5 - q.bytesRecieved.toNat), c ≠ syncByte := by
    intro c hc
    have htail : c ∈ p.bytes.drop 1 := (List.drop_subset_drop_left p.bytes (by omega)) hc
    simp only [MinosPacket.bytes, List.drop_succ_cons, List.drop_zero, List.mem_cons,
      List.not_mem_nil, or_false] at htail
    rcases htail with rfl | rfl | rfl | rfl
    · exact hp.seq
    · exact hp.command
    · exact hp.data1
    · exact hp.data2
  rw [← List.take_append_drop (5 - q.bytesRecieved.toNat) p.bytes, feed_append,
    feed_skip hzero hskip, hdone]
  exact ⟨garbled, rfl, hzero⟩

/-- Behind the first packet the parser is aligned, and it completed one packet,
whatever its state was. -/
theorem feed_first {q : ControlData} (hle : q.bytesRecieved ≤ 4) {p : MinosPacket}
    (hp : Genuine p) :
    ∃ first, (feed q p.bytes).2 = [first] ∧ (feed q p.bytes).1.bytesRecieved = 0 ∧
      (q.bytesRecieved = 0 → first = controlOf p) := by
  by_cases hq : q.bytesRecieved = 0
  · have haligned := feed_packet hq hp.sync []
    rw [List.append_nil] at haligned
    exact ⟨controlOf p, by rw [haligned]; rfl, by rw [haligned]; rfl, fun _ => rfl⟩
  · obtain ⟨garbled, hdone, hzero⟩ := feed_misaligned hle hq hp
    exact ⟨garbled, hdone, hzero, fun h => absurd h hq⟩

theorem feed_resync {q : ControlData} (hle : q.bytesRecieved ≤ 4) {packets : List MinosPacket}
    (hgenuine : ∀ p ∈ packets, Genuine p) :
    ∃ first : List ControlData, first.length ≤ 1 ∧
      (feed q (wire packets)).2 = first ++ packets.tail.map controlOf := by
  cases packets with
  | nil => exact ⟨[], by decide, rfl⟩
  | cons p rest =>
    obtain ⟨first, hdone, hzero, -⟩ := feed_first hle (hgenuine p (List.mem_cons_self ..))
    have hsync : ∀ r ∈ rest, r.sync = syncByte := fun r hr =>
      (hgenuine r (List.mem_cons_of_mem p hr)).sync
    have hrest := (feed_packets hsync hzero (List.prefix_refl (wire rest))).1
    rw [wire_length, Nat.mul_div_cancel_left _ (by decide), List.take_length] at hrest
    refine ⟨[first], Nat.le_refl 1, ?_⟩
    rw [wire, List.flatMap_cons, ← wire, feed_append, hdone, hrest]
    rfl

/-- Noise, and then genuine packets: behind the packets that the noise itself
completed there is at most one more, and then all genuine packets but the first
in their order.  The main loop handles the same packets in every run that takes
these bytes out of its receive buffer. -/
theorem resync_after_noise (noise : List UInt8) {packets : List MinosPacket}
    (hgenuine : ∀ p ∈ packets, Genuine p) :
    (∀ q : ControlData, q.bytesRecieved = 0 →
      ∃ first : List ControlData, first.length ≤ 1 ∧
        (feed q (noise ++ wire packets)).2 =
          (feed q noise).2 ++ first ++ packets.tail.map controlOf) ∧
      ∀ s s' events ts, s.controlpacket.bytesRecieved = 0 → run s events = some (s', ts) →
        popped ts = noise ++ wire packets →
        ∃ first : List ControlData, first.length ≤ 1 ∧
          handledPackets ts =
            (feed s.controlpacket noise).2 ++ first ++ packets.tail.map controlOf := by
  have hfeed : ∀ q : ControlData, q.bytesRecieved = 0 →
      ∃ first : List ControlData, first.length ≤ 1 ∧
        (feed q (noise ++ wire packets)).2 =
          (feed q noise).2 ++ first ++ packets.tail.map controlOf := by
    intro q hq
    obtain ⟨first, hfirst, hdone⟩ :=
      feed_resync (feed_le (q := q) (by rw [hq]; decide) noise) hgenuine
    refine ⟨first, hfirst, ?_⟩
    rw [feed_append, hdone, List.append_assoc]
  refine ⟨hfeed, ?_⟩
  intro s s' events ts hzero hrun hpopped
  have hhandled := (run_feed hrun (by rw [hzero]; decide)).1
  obtain ⟨first, hfirst, hdone⟩ := hfeed s.controlpacket hzero
  rw [← hpopped, hhandled] at hdone
  exact ⟨first, hfirst, hdone⟩

def request (seq : UInt8) : MinosPacket := ⟨syncByte, seq, cmdBattery, 0, 0⟩

/-- A sync byte and two more are noise, and two requests follow. -/
theorem resync_after_noise_requests :
    ∃ first : List ControlData, first.length ≤ 1 ∧
      (feed State.init.controlpacket ([syncByte, 1, 2] ++ wire [request 3, request 4])).2 =
        [] ++ first ++ [controlOf (request 4)] := by
  have hgenuine : ∀ p ∈ [request 3, request 4], Genuine p := by
    intro p hp
    simp only [List.mem_cons, List.not_mem_nil, or_false] at hp
    rcases hp with rfl | rfl
    all_goals exact ⟨rfl, by decide, by decide, by decide, by decide⟩
  exact (resync_after_noise [syncByte, 1, 2] hgenuine).1 State.init.controlpacket rfl

end MinotaurRobot.Link
