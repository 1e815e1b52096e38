import MinotaurRobot.Host.Cuts

/-!
# Packets that wait for the next read

`packetize` takes a packet as soon as five bytes are unread, but both loops of
`recv` go on only while there are more than five.  A packet that ends with the
last byte of a read is left in the ring.  `nothing_waits_iff` says that this is
the only way: a call leaves a whole packet behind exactly if the bytes taken in
so far end with one.

The reads are those that do not run over unread bytes, with any `errno`.
Bytes that `recv` does not take in because of `errno` are not part of the
stream.
-/

namespace MinotaurRobot.Host

open Lib Lib.Framing

variable {F : Type} {odometry : Odometry F}

/-! ## Reads without an overrun -/

/-- The request is kept, and one cell of the ring stays free. -/
structure NoOverrun (b : SerialRing) (read : ReadCall) : Prop where
  requested : read.block.length ≤ b.requestSize
  room : b.unread + read.block.length ≤ 79

def NoOverruns (odometry : Odometry F) (calls : List RecvCall) : Prop :=
  ∀ pre call m packets, pre ++ [call] <+: calls → Feeds odometry pre (some (m, packets)) →
    NoOverrun m.ring call.read

theorem NoOverruns.of_prefix {pre calls : List RecvCall} (h : NoOverruns odometry calls)
    (hpre : pre <+: calls) : NoOverruns odometry pre :=
  fun pre' call m packets hfront hfeeds => h pre' call m packets (hfront.trans hpre) hfeeds

/-- The bytes that a read adds to the unread ones. -/
def ReadCall.taken (read : ReadCall) : List UInt8 := if read.wouldBlock then [] else read.block

def takenOf (calls : List RecvCall) : List UInt8 := calls.flatMap fun call => call.read.taken

theorem takenOf_concat (calls : List RecvCall) (call : RecvCall) :
    takenOf (calls ++ [call]) = takenOf calls ++ call.read.taken := by
  rw [takenOf, List.flatMap_append, List.flatMap_singleton, ← takenOf]

/-- Where `errno` stops `recv`, the bytes lie behind the unread ones. -/
theorem takeIn_blocked {b : SerialRing} {read : ReadCall} (hblock : read.wouldBlock = true)
    (h : NoOverrun b read) :
    (b.takeIn read).2 = false ∧ (b.takeIn read).1.contents = b.contents := by
  have hpos : b.stop = (b.start + b.unread) % bufferSize :=
    (Ring.start_add_fill b.start_lt b.stop_lt).symm
  have hrequest := h.requested
  have hroom := h.room
  have hstop := b.stop_lt
  rw [requestSize_eq] at hrequest
  have hfit : b.stop + read.block.length ≤ bufferSize := by omega
  have hfree : b.unread + read.block.length ≤ bufferSize := by
    rw [bufferSize]
    omega
  have hwindow := Ring.window_writeBlock_old b.data hpos hfit hfree
  rw [SerialRing.takeIn, if_pos hblock]
  exact ⟨rfl, hwindow⟩

variable (odometry) in
/-- A call that starts caught up with the bytes taken in ends caught up with
them. -/
theorem recv_caught (clock : Nat → UInt32) {read : ReadCall} {m : Minotaur F}
    {stream : List UInt8} {packets : List MinosPacket} (h : NoOverrun m.ring read)
    (hcaught : Caught isSync 5 stream ⟨m.ring.contents, packets.map MinosPacket.bytes⟩) :
    ∃ r, recv odometry clock read m = some r ∧
      Caught isSync 5 (stream ++ read.taken)
        ⟨r.minotaur.ring.contents, (packets ++ r.served).map MinosPacket.bytes⟩ := by
  cases hblock : read.wouldBlock with
  | true =>
    obtain ⟨hreturn, hcontents⟩ := takeIn_blocked hblock h
    refine ⟨⟨{ m with ring := (m.ring.takeIn read).1 }, [], none, false⟩, ?_, ?_⟩
    · rw [recv_eq, if_neg (by simp [hreturn])]
    · rw [ReadCall.taken, if_pos hblock, List.append_nil, List.append_nil, hcontents]
      exact hcaught
  | false =>
    have hclean : CleanRead m.ring read := .inr ⟨hblock, h.requested, h.room⟩
    obtain ⟨r, hrecv, hrecvd⟩ := recv_spec odometry clock hclean hcaught.short
    refine ⟨r, hrecv, ?_⟩
    rw [ReadCall.taken, hblock, ← hrecvd.receiver packets]
    exact hcaught.receive (by decide)

/-- A run has one outcome, no call throws, and the host is caught up. -/
theorem NoOverruns.feeds {calls : List RecvCall} (h : NoOverruns odometry calls) :
    ∃ m packets, (∀ out, Feeds odometry calls out ↔ out = some (m, packets)) ∧
      Caught isSync 5 (takenOf calls) ⟨m.ring.contents, packets.map MinosPacket.bytes⟩ := by
  induction calls using List.reverseRecOn with
  | nil =>
    have hnil : (Minotaur.init odometry).ring.contents = [] := contents_init
    refine ⟨Minotaur.init odometry, [], fun _ => feeds_nil, ?_⟩
    rw [hnil]
    exact caught_start
  | append_singleton calls call ih =>
    obtain ⟨m, packets, honly, hcaught⟩ := ih (h.of_prefix (List.prefix_append calls [call]))
    have hread := h calls call m packets (List.prefix_refl _) ((honly _).2 rfl)
    obtain ⟨r, hrecv, hnext⟩ := recv_caught odometry call.clock hread hcaught
    refine ⟨r.minotaur, packets ++ r.served, feeds_concat_of_only honly hrecv, ?_⟩
    rw [takenOf_concat]
    exact hnext

/-! ## What is left behind -/

/-- A packet is left behind exactly if the bytes taken in end with one. -/
theorem waiting_after {calls : List RecvCall} (h : NoOverruns odometry calls)
    {m : Minotaur F} {packets : List MinosPacket}
    (hfeeds : Feeds odometry calls (some (m, packets))) :
    Waiting isSync 5 m.ring.contents ↔ EndsFrame isSync 5 (takenOf calls) := by
  obtain ⟨m', packets', honly, hcaught⟩ := h.feeds
  have hsame := (honly _).1 hfeeds
  rw [Option.some.injEq, Prod.mk.injEq] at hsame
  obtain ⟨rfl, rfl⟩ := hsame
  exact hcaught.waiting_iff (by decide)

/-- In every run, each call that read bytes leaves no whole packet unread
exactly if none of these reads ends with the last byte of a packet. -/
theorem nothing_waits_iff {calls : List RecvCall} (h : NoOverruns odometry calls) :
    (∀ pre call, pre ++ [call] <+: calls → call.read.block ≠ [] →
        ∃ m packets, Feeds odometry (pre ++ [call]) (some (m, packets)) ∧
          ¬ Waiting isSync 5 m.ring.contents) ↔
      ∀ pre call, pre ++ [call] <+: calls → call.read.block ≠ [] →
        ¬ EndsFrame isSync 5 (takenOf (pre ++ [call])) := by
  constructor
  · intro hnone pre call hpre hcnt hends
    obtain ⟨m, packets, hfeeds, hwaits⟩ := hnone pre call hpre hcnt
    exact hwaits ((waiting_after (h.of_prefix hpre) hfeeds).2 hends)
  · intro hnone pre call hpre hcnt
    obtain ⟨m, packets, honly, -⟩ := (h.of_prefix hpre).feeds
    have hfeeds := (honly _).2 rfl
    refine ⟨m, packets, hfeeds, ?_⟩
    intro hwaits
    exact hnone pre call hpre hcnt ((waiting_after (h.of_prefix hpre) hfeeds).1 hwaits)

theorem prefix_singleton {pre : List RecvCall} {call c : RecvCall} (h : pre ++ [call] <+: [c]) :
    pre = [] ∧ call = c := by
  cases pre with
  | nil =>
    obtain ⟨hcall, -⟩ := List.cons_prefix_cons.1 h
    exact ⟨rfl, hcall⟩
  | cons d pre => simp at h

theorem noOverruns_singleton {call : RecvCall}
    (h : NoOverrun (Minotaur.init odometry).ring call.read) : NoOverruns odometry [call] := by
  intro pre c m packets hpre hfeeds
  obtain ⟨rfl, rfl⟩ := prefix_singleton hpre
  cases feeds_nil.1 hfeeds
  exact h

/-- A battery packet, and the sync byte of the next packet behind it. -/
def sixBytes : RecvCall := ⟨fun _ => 5, ⟨[0xAA, 1, 0x02, 7, 0, 0xAA], false⟩⟩

theorem nothing_waits_iff_sixBytes :
    ∃ m packets, Feeds restOdometry [sixBytes] (some (m, packets)) ∧
      ¬ Waiting isSync 5 m.ring.contents := by
  have hruns : NoOverruns restOdometry [sixBytes] := noOverruns_singleton ⟨by decide, by decide⟩
  refine (nothing_waits_iff hruns).2 ?_ [] sixBytes (List.prefix_refl _) (by decide)
  intro pre call hpre _
  obtain ⟨rfl, rfl⟩ := prefix_singleton hpre
  decide

/-- A battery packet, which one read returns. -/
def fiveBytes : RecvCall := ⟨fun _ => 5, ⟨[0xAA, 1, 0x02, 7, 0], false⟩⟩

/-- The packet waits for the next read. -/
theorem fiveBytes_wait :
    ¬ ∀ calls, NoOverruns restOdometry calls → ∀ pre call, pre ++ [call] <+: calls →
      call.read.block ≠ [] → ∃ m packets, Feeds restOdometry (pre ++ [call]) (some (m, packets)) ∧
        ¬ Waiting isSync 5 m.ring.contents := by
  intro hall
  have hread : NoOverruns restOdometry [fiveBytes] :=
    noOverruns_singleton ⟨by decide, by decide⟩
  obtain ⟨m, packets, hfeeds, hwaits⟩ :=
    hall [fiveBytes] hread [] fiveBytes (List.prefix_refl _) (by decide)
  have hends : EndsFrame isSync 5 (takenOf [fiveBytes]) := by decide
  exact hwaits ((waiting_after hread hfeeds).2 hends)

end MinotaurRobot.Host
