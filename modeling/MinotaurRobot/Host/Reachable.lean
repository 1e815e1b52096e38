import MinotaurRobot.Host.Decode

/-!
# Reachable states of the host

`Receives` are the states of the host that clean reads lead to, with the
bytes read and the packets served on the way.  `Receives.caught` says that
the packets served depend on the bytes only and not on how they were cut into
reads.  `Receives.sources` says that every valid field of `nextState` is the
value of the last packet of its kind, and `Receives.committed` that a
committed state is put together from these last packets.
-/

namespace MinotaurRobot.Host

open Lib.Framing

variable {F : Type} {odometry : Odometry F}

/-- The host after some clean reads. -/
inductive Receives (odometry : Odometry F) :
    List UInt8 → List MinosPacket → Minotaur F → Prop where
  | start : Receives odometry [] [] (Minotaur.init odometry)
  | recv {stream : List UInt8} {history : List MinosPacket} {m : Minotaur F}
      {clock : Nat → UInt32} {call : ReadCall} {r : RecvResult F}
      (h : Receives odometry stream history m) (hclean : CleanRead m.ring call)
      (hrecv : recv odometry clock call m = some r) :
      Receives odometry (stream ++ call.block) (history ++ r.served) r.minotaur

/-! ## The packets served -/

/-- The result of a call with a clean read. -/
theorem recvd_of_recv {clock : Nat → UInt32} {call : ReadCall} {m : Minotaur F}
    (hclean : CleanRead m.ring call) (hshort : m.ring.contents.length ≤ 5) {r : RecvResult F}
    (hrecv : recv odometry clock call m = some r) : Recvd odometry clock call m r := by
  obtain ⟨r', hrecv', hrecvd⟩ := recv_spec odometry clock hclean hshort
  rw [hrecv, Option.some.injEq] at hrecv'
  rwa [hrecv']

/-- The ring and the packets served are a receiver that is caught up with the
bytes read. -/
theorem Receives.caught {stream : List UInt8} {history : List MinosPacket} {m : Minotaur F}
    (h : Receives odometry stream history m) :
    Caught isSync 5 stream ⟨m.ring.contents, history.map MinosPacket.bytes⟩ := by
  induction h with
  | start =>
    have hnil : (Minotaur.init odometry).ring.contents = [] := contents_init
    rw [hnil]
    exact caught_start
  | @recv stream history m clock call r h hclean hrecv ih =>
    rw [← (recvd_of_recv hclean ih.short hrecv).receiver history]
    exact ih.receive (by decide)

/-- A clean read never makes `recv` throw. -/
theorem Receives.recv_isSome {stream : List UInt8} {history : List MinosPacket} {m : Minotaur F}
    (h : Receives odometry stream history m) (clock : Nat → UInt32) {call : ReadCall}
    (hclean : CleanRead m.ring call) :
    ∃ r, Host.recv odometry clock call m = some r ∧ Recvd odometry clock call m r :=
  recv_spec odometry clock hclean h.caught.short

/-- The packets served are the frames of the bytes read that are followed by
one more byte. -/
theorem Receives.served_eq {stream : List UInt8} {history : List MinosPacket} {m : Minotaur F}
    (h : Receives odometry stream history m) :
    history.map MinosPacket.bytes = (complete isSync 5 stream).map (frameAt 5 stream) :=
  h.caught.served_eq

theorem isFrame_bytes {p : MinosPacket} (h : p.sync = 0xAA) : IsFrame isSync 5 p.bytes :=
  ⟨rfl, p.sync, _, rfl, by rw [isSync, h]; rfl⟩

/-- From a stream of packets the host serves these packets, each as soon as
one more byte has arrived behind it. -/
theorem Receives.history_eq {stream : List UInt8} {history : List MinosPacket} {m : Minotaur F}
    (h : Receives odometry stream history m) {packets : List MinosPacket}
    (hsync : ∀ p ∈ packets, p.sync = 0xAA) (hstart : stream <+: wire packets) :
    history = packets.take ((stream.length - 1) / 5) := by
  have hlen := hstart.length_le
  rw [wire_length] at hlen
  have hsize : ∀ f ∈ packets.map MinosPacket.bytes, f.length = 5 := by
    intro f hf
    obtain ⟨p, _, rfl⟩ := List.mem_map.1 hf
    exact p.bytes_length
  generalize hn : (stream.length - 1) / 5 = n
  obtain ⟨rest, hrest, hstream⟩ : ∃ rest : List UInt8, rest.length ≤ 5 ∧
      stream = ((packets.take n).map MinosPacket.bytes).flatten ++ rest := by
    have htake := take_flatten_add hsize n (r := stream.length - 5 * n) (by omega)
    rw [Nat.add_sub_cancel' (by omega), ← List.flatMap_def, ← wire,
      ← List.prefix_iff_eq_take.1 hstart, ← List.map_take] at htake
    refine ⟨_, ?_, htake⟩
    rw [List.length_take]
    omega
  have hsplit := congrArg List.length hstream
  rw [List.length_append, ← List.flatMap_def, ← wire, wire_length, List.length_take] at hsplit
  have hcaught : Caught isSync 5 stream ⟨rest, (packets.take n).map MinosPacket.bytes⟩ := by
    rw [hstream]
    refine caught_frames ?_ hrest ?_
    · intro f hf
      obtain ⟨p, hp, rfl⟩ := List.mem_map.1 hf
      exact isFrame_bytes (hsync p (List.mem_of_mem_take hp))
    · intro hne
      have hpos : 0 < n := by
        rcases Nat.eq_zero_or_pos n with hzero | hpos
        · rw [hzero, List.take_zero] at hne
          exact absurd rfl hne
        · exact hpos
      exact List.length_pos_iff.1 (by omega)
  have hserved := h.served_eq.trans hcaught.served_eq.symm
  exact (List.map_inj_right fun _ _ hpq => MinosPacket.bytes_injective hpq).1 hserved

/-! ## Where the fields come from -/

/-- The last packet with a command. -/
def lastOf (command : UInt8) (history : List MinosPacket) : Option MinosPacket :=
  (history.filter fun p => p.command = command).getLast?

theorem lastOf_append (command : UInt8) (xs ys : List MinosPacket) :
    lastOf command (xs ++ ys) = (lastOf command ys).or (lastOf command xs) := by
  rw [lastOf, List.filter_append, List.getLast?_append]
  rfl

theorem lastOf_singleton (command : UInt8) (p : MinosPacket) :
    lastOf command [p] = if p.command = command then some p else none := by
  by_cases h : p.command = command <;> simp [lastOf, h]

/-- Every valid field of a state is the value of the last packet of its
kind. -/
structure Sources (history : List MinosPacket) (readings : Readings) : Prop where
  irBank : readings.validIrBank = true →
    ∃ p, lastOf 0xB1 history = some p ∧ readings.irBank = p.udata8Fst
  rightEncoder : readings.validRightEnc = true →
    ∃ p, lastOf 0xB6 history = some p ∧ readings.rightEncoder = p.udata16
  leftEncoder : readings.validLeftEnc = true →
    ∃ p, lastOf 0xB7 history = some p ∧ readings.leftEncoder = p.udata16
  battery : readings.validBattery = true →
    ∃ p, lastOf 0x02 history = some p ∧ readings.battery = p.udata8Fst

theorem Sources.fresh (history : List MinosPacket) :
    Sources history (MinotaurState.fresh odometry).readings := by
  constructor <;> exact fun h => absurd h (by simp [MinotaurState.readings, MinotaurState.fresh])

theorem lastOf_append_of_ne {command : UInt8} {history : List MinosPacket} {p : MinosPacket}
    (h : p.command ≠ command) : lastOf command (history ++ [p]) = lastOf command history := by
  rw [lastOf_append, lastOf_singleton, if_neg h, Option.none_or]

theorem lastOf_append_self (history : List MinosPacket) (p : MinosPacket) :
    lastOf p.command (history ++ [p]) = some p := by
  rw [lastOf_append, lastOf_singleton, if_pos rfl, Option.some_or]

/-- A packet of another kind leaves the last packet in place. -/
private theorem source_kept {command : UInt8} {history : List MinosPacket} {p : MinosPacket}
    {value : MinosPacket → Prop} (hne : p.command ≠ command)
    (h : ∃ q, lastOf command history = some q ∧ value q) :
    ∃ q, lastOf command (history ++ [p]) = some q ∧ value q := by
  rw [lastOf_append_of_ne hne]
  exact h

/-- Stamping the time changes no source. -/
theorem Sources.stamp {history : List MinosPacket} {st : MinotaurState F}
    (h : Sources history st.readings) (now : UInt32) (p : MinosPacket) :
    Sources history (stampPacket now st p).readings := by
  unfold stampPacket
  split
  · split
    · exact h
    · exact ⟨h.irBank, h.rightEncoder, h.leftEncoder, h.battery⟩
  · exact h

/-- A packet served becomes the source of its field. -/
theorem Sources.apply {history : List MinosPacket} {st : MinotaurState F}
    (h : Sources history st.readings) (now : UInt32) (p : MinosPacket) :
    Sources (history ++ [p]) (applyPacket now st p).readings := by
  have hstamp := h.stamp now p
  unfold applyPacket
  generalize stampPacket now st p = st' at hstamp
  have hself := lastOf_append_self history p
  unfold storePacket
  split_ifs with hbattery hir hright hleft
  · rw [hbattery] at hself
    exact ⟨fun hv => source_kept (by rw [hbattery]; decide) (hstamp.irBank hv),
      fun hv => source_kept (by rw [hbattery]; decide) (hstamp.rightEncoder hv),
      fun hv => source_kept (by rw [hbattery]; decide) (hstamp.leftEncoder hv),
      fun _ => ⟨p, hself, rfl⟩⟩
  · rw [hir] at hself
    exact ⟨fun _ => ⟨p, hself, rfl⟩,
      fun hv => source_kept (by rw [hir]; decide) (hstamp.rightEncoder hv),
      fun hv => source_kept (by rw [hir]; decide) (hstamp.leftEncoder hv),
      fun hv => source_kept hbattery (hstamp.battery hv)⟩
  · rw [hright] at hself
    exact ⟨fun hv => source_kept hir (hstamp.irBank hv),
      fun _ => ⟨p, hself, rfl⟩,
      fun hv => source_kept (by rw [hright]; decide) (hstamp.leftEncoder hv),
      fun hv => source_kept hbattery (hstamp.battery hv)⟩
  · rw [hleft] at hself
    exact ⟨fun hv => source_kept hir (hstamp.irBank hv),
      fun hv => source_kept hright (hstamp.rightEncoder hv),
      fun _ => ⟨p, hself, rfl⟩,
      fun hv => source_kept hbattery (hstamp.battery hv)⟩
  · exact ⟨fun hv => source_kept hir (hstamp.irBank hv),
      fun hv => source_kept hright (hstamp.rightEncoder hv),
      fun hv => source_kept hleft (hstamp.leftEncoder hv),
      fun hv => source_kept hbattery (hstamp.battery hv)⟩

theorem Sources.applyAll {history : List MinosPacket} {st : MinotaurState F}
    (h : Sources history st.readings) (clock : Nat → UInt32) (i : Nat)
    (packets : List MinosPacket) :
    Sources (history ++ packets) (Host.applyAll clock i st packets).readings := by
  induction packets generalizing history i st with
  | nil =>
    rw [List.append_nil]
    exact h
  | cons p packets ih =>
    have := ih (h.apply (clock i) p) (i + 1)
    rwa [List.append_assoc] at this

/-- Every valid field of `nextState` comes from the last packet of its
kind. -/
theorem Receives.sources {stream : List UInt8} {history : List MinosPacket} {m : Minotaur F}
    (h : Receives odometry stream history m) : Sources history m.nextState.readings := by
  induction h with
  | start => exact Sources.fresh []
  | @recv stream history m clock call r h hclean hrecv ih =>
    have hcommitted := (recvd_of_recv hclean h.caught.short hrecv).committed
    cases hc : r.committed with
    | none =>
      rw [hc] at hcommitted
      cases hcommitted with
      | refused hreadings =>
        rw [hreadings]
        exact ih.applyAll clock 0 r.served
    | some c =>
      rw [hc] at hcommitted
      cases hcommitted with
      | accepted _ _ _ hnext =>
        rw [hnext]
        exact Sources.fresh _

/-- A state committed by `recv` takes its IR bits and its two encoder values
from the last packets of these kinds that were served. -/
theorem Receives.committed {stream : List UInt8} {history : List MinosPacket} {m : Minotaur F}
    (h : Receives odometry stream history m) {clock : Nat → UInt32} {call : ReadCall}
    (hclean : CleanRead m.ring call) {r : RecvResult F}
    (hrecv : Host.recv odometry clock call m = some r) {c : MinotaurState F}
    (hc : r.committed = some c) :
    ∃ ir left right, lastOf 0xB1 (history ++ r.served) = some ir ∧
      lastOf 0xB7 (history ++ r.served) = some left ∧
      lastOf 0xB6 (history ++ r.served) = some right ∧ c.irBank = ir.udata8Fst ∧
      c.leftEncoder = left.udata16 ∧ c.rightEncoder = right.udata16 := by
  have hcommitted := (recvd_of_recv hclean h.caught.short hrecv).committed
  rw [hc] at hcommitted
  cases hcommitted with
  | accepted hreadings hcomplete hcurrent hnext =>
    have hsources := h.sources.applyAll clock 0 r.served
    rw [MinotaurState.sensorsComplete, Bool.and_eq_true, Bool.and_eq_true] at hcomplete
    obtain ⟨⟨hleft, hright⟩, hir⟩ := hcomplete
    rw [← hreadings] at hsources
    obtain ⟨ir, hir, hirBank⟩ := hsources.irBank (by rw [hreadings]; exact hir)
    obtain ⟨left, hleft, hleftEncoder⟩ := hsources.leftEncoder (by rw [hreadings]; exact hleft)
    obtain ⟨right, hright, hrightEncoder⟩ :=
      hsources.rightEncoder (by rw [hreadings]; exact hright)
    exact ⟨ir, left, right, hir, hleft, hright, hirBank, hleftEncoder, hrightEncoder⟩

end MinotaurRobot.Host
