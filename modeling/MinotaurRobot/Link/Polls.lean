import MinotaurRobot.Host.Reachable
import MinotaurRobot.Mcu.Responses

/-!
# Sensor polls across the link

The host polls with `CMD_GET_SENSOR_DATA`, and the microcontroller answers
each poll with four packets: the echo of the request, the IR bits, the left
and the right encoder.  `recv` collects the values packet by packet and
commits once all three are valid, at the end of a call.

A call that ends inside an answer has overwritten some of the values with new
ones and still holds the others from the answer before.  `recv` does not
compare sequence numbers, so `commit_fromOneResponse_iff` is about where in
an answer a call may end: the number of packets served, which is the number
of bytes read less one, divided by five, leaves `0` or `1` modulo four.
-/

namespace MinotaurRobot.Link

open MinotaurRobot.Host Lib.Framing

/-! ## The answers -/

/-- The data bytes of one answer. -/
structure Poll where
  seq : UInt8
  data1 : UInt8
  data2 : UInt8
  irBank : UInt8
  left : UInt8 × UInt8
  right : UInt8 × UInt8
  deriving DecidableEq, Repr

def Poll.echo (p : Poll) : MinosPacket := ⟨0xAA, p.seq, 0xB0, p.data1, p.data2⟩

def Poll.irPacket (p : Poll) : MinosPacket := ⟨0xAA, p.seq, 0xB1, p.irBank, 0⟩

def Poll.leftPacket (p : Poll) : MinosPacket := ⟨0xAA, p.seq, 0xB7, p.left.1, p.left.2⟩

def Poll.rightPacket (p : Poll) : MinosPacket := ⟨0xAA, p.seq, 0xB6, p.right.1, p.right.2⟩

/-- The four packets of an answer, in the order of the main loop. -/
def Poll.packets (p : Poll) : List MinosPacket :=
  [p.echo, p.irPacket, p.leftPacket, p.rightPacket]

/-- The packets of all answers. -/
def pollPackets (polls : List Poll) : List MinosPacket := polls.flatMap Poll.packets

open Mcu in
/-- The answer that the main loop gives in a state with a complete poll. -/
def pollOf (s : State) : Poll where
  seq := s.controlpacket.sequence
  data1 := s.controlpacket.data1
  data2 := s.controlpacket.data2
  irBank := irBits s.sensors
  left := (ticksHigh s.encoders.left.ticks, ticksLow s.encoders.left.ticks)
  right := (ticksHigh s.encoders.right.ticks, ticksLow s.encoders.right.ticks)

/-- Every answer has four packets. -/
theorem packets_length {polls : List Poll} :
    ∀ f ∈ polls.map Poll.packets, f.length = 4 := by
  intro f hf
  obtain ⟨p, _, rfl⟩ := List.mem_map.1 hf
  rfl

theorem pollPackets_length (polls : List Poll) :
    (pollPackets polls).length = 4 * polls.length := by
  rw [pollPackets, List.flatMap_def, length_flatten_of_forall packets_length, List.length_map]

theorem pollPackets_sync {polls : List Poll} : ∀ p ∈ pollPackets polls, p.sync = 0xAA := by
  intro p hp
  obtain ⟨poll, _, hp⟩ := List.mem_flatMap.1 hp
  simp only [Poll.packets, List.mem_cons, List.not_mem_nil, or_false] at hp
  rcases hp with rfl | rfl | rfl | rfl <;> rfl

/-! ## The last packets of a stream of answers -/

/-- Behind `4 * k + r` packets, `k` whole answers and `r` packets of the next
one have been served. -/
theorem take_pollPackets (polls : List Poll) (k : Nat) {r : Nat} (hr : r ≤ 4) :
    (pollPackets polls).take (4 * k + r) =
      pollPackets (polls.take k) ++ ((polls[k]?.map Poll.packets).getD []).take r := by
  rw [pollPackets, List.flatMap_def, take_flatten_add packets_length k hr, ← List.map_take,
    ← List.flatMap_def, List.getElem?_map]
  rfl

/-- The last packets of whole answers are those of the last answer. -/
theorem lastOf_pollPackets (polls : List Poll) :
    lastOf 0xB1 (pollPackets polls) = polls.getLast?.map Poll.irPacket ∧
      lastOf 0xB7 (pollPackets polls) = polls.getLast?.map Poll.leftPacket ∧
      lastOf 0xB6 (pollPackets polls) = polls.getLast?.map Poll.rightPacket := by
  rcases List.eq_nil_or_concat polls with rfl | ⟨init, p, rfl⟩
  · exact ⟨rfl, rfl, rfl⟩
  · have hlast : pollPackets (init ++ [p]) = pollPackets init ++ p.packets := by
      simp [pollPackets]
    rw [List.concat_eq_append, hlast, lastOf_append, lastOf_append, lastOf_append,
      List.getLast?_concat]
    exact ⟨rfl, rfl, rfl⟩

/-! ## Commits -/

/-- The IR bits and the two encoder values of a committed state come from
packets with one sequence number.  The packets are the last ones of their
kinds that were served, because these are what the state was put together
from. -/
def FromOneResponse {F : Type} (history : List MinosPacket) (c : MinotaurState F) : Prop :=
  ∃ ir left right, lastOf 0xB1 history = some ir ∧ lastOf 0xB7 history = some left ∧
    lastOf 0xB6 history = some right ∧ c.irBank = ir.udata8Fst ∧
    c.leftEncoder = left.udata16 ∧ c.rightEncoder = right.udata16 ∧
    ir.seq = left.seq ∧ left.seq = right.seq

/-- The sequence numbers of the last packets agree, exactly if no answer is
half served or the answer before had the same sequence number. -/
theorem lastOf_seq_iff {polls : List Poll} {k r : Nat} (hr : r < 4)
    (hlen : 4 * k + r ≤ 4 * polls.length) {ir left right : MinosPacket}
    (hir : lastOf 0xB1 ((pollPackets polls).take (4 * k + r)) = some ir)
    (hleft : lastOf 0xB7 ((pollPackets polls).take (4 * k + r)) = some left)
    (hright : lastOf 0xB6 ((pollPackets polls).take (4 * k + r)) = some right) :
    (ir.seq = left.seq ∧ left.seq = right.seq) ↔
      r ≤ 1 ∨ polls[k]?.map Poll.seq = polls[k - 1]?.map Poll.seq := by
  have hcases : r = 0 ∨ r = 1 ∨ r = 2 ∨ r = 3 := by omega
  have hpart : ∀ o : Option Poll,
      lastOf 0xB6 (((o.map Poll.packets).getD []).take r) = none := by
    intro o
    rcases hcases with rfl | rfl | rfl | rfl <;> cases o <;> rfl
  obtain ⟨hirs, hlefts, hrights⟩ := lastOf_pollPackets (polls.take k)
  rw [take_pollPackets polls k (by omega), lastOf_append] at hir hleft hright
  rw [hirs] at hir
  rw [hlefts] at hleft
  rw [hrights, hpart, Option.none_or] at hright
  -- the right encoder comes last, so at least one answer is complete
  have hk : k ≠ 0 := by
    rintro rfl
    simp at hright
  obtain ⟨a, ha⟩ : ∃ a, polls[k - 1]? = some a :=
    ⟨_, List.getElem?_eq_getElem (by omega)⟩
  have hlast : (polls.take k).getLast? = some a := by
    rw [List.getLast?_take, if_neg hk, ha, Option.some_or]
  rw [hlast] at hir hleft hright
  rw [ha]
  obtain rfl : a.rightPacket = right := Option.some.inj hright
  rcases Nat.eq_zero_or_pos r with rfl | hpos
  · obtain rfl : a.irPacket = ir := Option.some.inj hir
    obtain rfl : a.leftPacket = left := Option.some.inj hleft
    exact ⟨fun _ => Or.inl (by omega), fun _ => ⟨rfl, rfl⟩⟩
  · obtain ⟨b, hb⟩ : ∃ b, polls[k]? = some b := ⟨_, List.getElem?_eq_getElem (by omega)⟩
    rw [hb] at hir hleft ⊢
    rw [Option.map_some, Option.map_some, Option.some.injEq]
    rcases hcases with rfl | rfl | rfl | rfl
    · omega
    · obtain rfl : a.irPacket = ir := Option.some.inj hir
      obtain rfl : a.leftPacket = left := Option.some.inj hleft
      exact ⟨fun _ => Or.inl (by omega), fun _ => ⟨rfl, rfl⟩⟩
    · obtain rfl : b.irPacket = ir := Option.some.inj hir
      obtain rfl : a.leftPacket = left := Option.some.inj hleft
      exact ⟨fun h => Or.inr h.1, fun h => ⟨h.resolve_left (by omega), rfl⟩⟩
    · obtain rfl : b.irPacket = ir := Option.some.inj hir
      obtain rfl : b.leftPacket = left := Option.some.inj hleft
      exact ⟨fun h => Or.inr h.2, fun h => ⟨rfl, h.resolve_left (by omega)⟩⟩

/-- Every run of `recv` over the answers to some polls, however they are cut
into reads.  A state that is committed when `served` packets have been served
takes its values from one answer, exactly if `served` leaves `0` or `1` modulo
four, or the answer being served has the sequence number of the one before. -/
theorem commit_fromOneResponse_iff {F : Type} {odometry : Odometry F} {polls : List Poll}
    {stream : List UInt8} {history : List MinosPacket} {m : Minotaur F}
    (h : Receives odometry stream history m) {clock : Nat → UInt32} {call : ReadCall}
    (hclean : CleanRead m.ring call) {r : RecvResult F}
    (hrecv : recv odometry clock call m = some r)
    (hpolls : stream ++ call.block <+: wire (pollPackets polls)) {c : MinotaurState F}
    (hc : r.committed = some c) :
    let served := ((stream ++ call.block).length - 1) / 5
    FromOneResponse (history ++ r.served) c ↔
      served % 4 ≤ 1 ∨ polls[served / 4]?.map Poll.seq = polls[served / 4 - 1]?.map Poll.seq := by
  intro served
  have hlen := hpolls.length_le
  rw [wire_length, pollPackets_length] at hlen
  have hhistory : history ++ r.served =
      (pollPackets polls).take (4 * (served / 4) + served % 4) := by
    rw [Nat.div_add_mod]
    exact (h.recv hclean hrecv).history_eq pollPackets_sync hpolls
  obtain ⟨ir, left, right, hir, hleft, hright, hirBank, hleftEncoder, hrightEncoder⟩ :=
    h.committed hclean hrecv hc
  rw [← lastOf_seq_iff (Nat.mod_lt served (by decide)) (by omega) (hhistory ▸ hir)
    (hhistory ▸ hleft) (hhistory ▸ hright)]
  constructor
  · rintro ⟨ir', left', right', hir', hleft', hright', -, -, -, hseq⟩
    rw [hir, Option.some.injEq] at hir'
    rw [hleft, Option.some.injEq] at hleft'
    rw [hright, Option.some.injEq] at hright'
    rw [hir', hleft', hright']
    exact hseq
  · intro hseq
    exact ⟨ir, left, right, hir, hleft, hright, hirBank, hleftEncoder, hrightEncoder, hseq⟩

def firstPoll : Poll := ⟨1, 0, 0, 0x01, (1, 0), (1, 0)⟩

def secondPoll : Poll := ⟨2, 0, 0, 0x02, (2, 0), (2, 0)⟩

/-- A read that ends one byte behind the first answer. -/
def firstRead : ReadCall := ⟨wire firstPoll.packets ++ [0xAA], false⟩

theorem commit_fromOneResponse_first :
    ∃ r c, recv restOdometry (fun i => 100 + UInt32.ofNat i) firstRead
        (Minotaur.init restOdometry) = some r ∧
      r.committed = some c ∧ FromOneResponse r.served c := by
  refine ⟨_, _, rfl, rfl, ?_⟩
  have hstart : Receives restOdometry [] [] (Minotaur.init restOdometry) := .start
  have hclean : CleanRead (Minotaur.init restOdometry).ring firstRead := by decide
  have hpolls : [] ++ firstRead.block <+: wire (pollPackets [firstPoll, secondPoll]) := by
    decide
  exact (@commit_fromOneResponse_iff Int restOdometry _ _ _ _ hstart
    (fun i => 100 + UInt32.ofNat i) firstRead hclean _ rfl hpolls _ rfl).2 (by decide)

/-- Two reads that each end with an answer commit the left encoder of the
second answer with the right encoder of the first. -/
theorem recv_commits_torn_state :
    ∃ r₁ r₂ c, recv restOdometry (fun i => 100 + UInt32.ofNat i)
        ⟨wire firstPoll.packets, false⟩ (Minotaur.init restOdometry) = some r₁ ∧
      recv restOdometry (fun i => 200 + UInt32.ofNat i)
        ⟨wire secondPoll.packets, false⟩ r₁.minotaur = some r₂ ∧
      r₂.committed = some c ∧ c.leftEncoder = 2 ∧ c.rightEncoder = 1 ∧
      ¬FromOneResponse (r₁.served ++ r₂.served) c := by
  refine ⟨_, _, _, rfl, rfl, rfl, rfl, rfl, ?_⟩
  rintro ⟨ir, left, right, -, hleft, hright, -, -, -, -, hseq⟩
  obtain rfl : secondPoll.leftPacket = left := Option.some.inj hleft
  obtain rfl : firstPoll.rightPacket = right := Option.some.inj hright
  exact absurd hseq (by decide)

end MinotaurRobot.Link
