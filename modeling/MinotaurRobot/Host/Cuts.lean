import MinotaurRobot.Host.Checks
import MinotaurRobot.Host.Reachable
import MinotaurRobot.Lib.While

/-!
# Reads that are cut differently

The decode loops of `recv` without a count of their rounds.  `recvs_iff` says
that they always end, and that the counted loops of `MinotaurRobot.Host.Recv`
compute what they do.

So a sequence of calls whose reads fit has exactly one outcome, which is a
state of `Receives` (`Fitting.feeds`), and the packets depend on the bytes
alone.
-/

namespace MinotaurRobot.Host

open Lib.While

variable {F : Type} {odometry : Odometry F}

/-! ## The loops -/

/-- `while((minos_buffer[minos_buffer_start] != 0xAA) &&
(minos_buffer_start != minos_buffer_end))`. -/
def Drops : SerialRing → Option SerialRing → Prop :=
  Loop (fun b => b.data b.start != 0xAA && b.start != b.stop) fun b out => out = some (b.advance 1)

/-- One round of the decode loop.  The state is the host with the packets that
this call has served. -/
inductive DecodeRound (clock : Nat → UInt32) :
    Minotaur F × List MinosPacket → Option (Minotaur F × List MinosPacket) → Prop where
  | served {m m' : Minotaur F} {ring : SerialRing} {packets : List MinosPacket} {p : MinosPacket}
      (hdrop : Drops m.ring (some ring)) (hlong : ring.unread > 5)
      (hpacket : packetize { m with ring := ring } = some (p, m')) :
      DecodeRound clock (m, packets)
        (some ({ m' with nextState := applyPacket (clock packets.length) m'.nextState p },
          packets ++ [p]))
  | thrown {m : Minotaur F} {ring : SerialRing} {packets : List MinosPacket}
      (hdrop : Drops m.ring (some ring)) (hlong : ring.unread > 5)
      (hpacket : packetize { m with ring := ring } = none) : DecodeRound clock (m, packets) none
  | drained {m : Minotaur F} {ring : SerialRing} {packets : List MinosPacket}
      (hdrop : Drops m.ring (some ring)) (hshort : ¬ ring.unread > 5) :
      DecodeRound clock (m, packets) (some ({ m with ring := ring }, packets))

/-- `while((minos_buffer_end - minos_buffer_start + sizeof(minos_buffer)) %
sizeof(minos_buffer) > sizeof(MinosPacket))`. -/
def Decodes (clock : Nat → UInt32) :
    Minotaur F × List MinosPacket → Option (Minotaur F × List MinosPacket) → Prop :=
  Loop (fun s => decide (s.1.ring.unread > 5)) (DecodeRound clock)

/-- `Minotaur::recv` with these loops.  The outcome is `none` when it
throws. -/
inductive Recvs (odometry : Odometry F) (call : RecvCall) (m : Minotaur F) :
    Option (RecvResult F) → Prop where
  | empty (hread : (m.ring.takeIn call.read).2 = false) :
      Recvs odometry call m
        (some ⟨{ m with ring := (m.ring.takeIn call.read).1 }, [], none, false⟩)
  | decoded {m' : Minotaur F} {packets : List MinosPacket}
      (hread : (m.ring.takeIn call.read).2 = true)
      (hloop : Decodes call.clock ({ m with ring := (m.ring.takeIn call.read).1 }, [])
        (some (m', packets))) :
      Recvs odometry call m
        (some ⟨(commit odometry m').1, packets, (commit odometry m').2, packets.length != 0⟩)
  | thrown (hread : (m.ring.takeIn call.read).2 = true)
      (hloop : Decodes call.clock ({ m with ring := (m.ring.takeIn call.read).1 }, []) none) :
      Recvs odometry call m none

/-! ## The loops end -/

theorem Drops.functional {b : SerialRing} {out out' : Option SerialRing} (h : Drops b out)
    (h' : Drops b out') : out = out' := by
  apply Loop.functional ?_ h h'
  intro s out out' h h'
  rw [h, h']

theorem advance_unread {b : SerialRing} {k : Nat} (hk : k ≤ b.unread) :
    (b.advance k).unread = b.unread - k := by
  have hlen := congrArg List.length (advance_contents hk)
  rwa [contents_length, List.length_drop, contents_length] at hlen

theorem drops_dropOutOfSync {rounds : Nat} {b : SerialRing} (h : b.unread ≤ rounds) :
    Drops b (some (dropOutOfSync rounds b)) := by
  let counted := fun (n : Nat) (b : SerialRing) => some (dropOutOfSync n b)
  show Drops b (counted rounds b)
  refine Loop.of_counted SerialRing.unread ?_ ?_ ?_ h
  · intro b hzero
    simp [(unread_eq_zero_iff b).1 hzero]
  · intro n b htest
    cases n with
    | zero => rfl
    | succ n =>
      dsimp only [counted]
      rw [dropOutOfSync, htest]
      rfl
  · intro n b htest
    refine ⟨_, rfl, ?_, ?_⟩
    · dsimp only [counted]
      rw [dropOutOfSync, htest]
      rfl
    · intro b' hb'
      cases hb'
      have hpos : b.unread ≠ 0 := by
        intro hzero
        simp [(unread_eq_zero_iff b).1 hzero] at htest
      rw [advance_unread (by omega)]
      omega

/-- The inner loop ends in the ring of the counted loop. -/
theorem Drops.iff {b : SerialRing} {out : Option SerialRing} :
    Drops b out ↔ out = some (dropOutOfSync b.unread b) := by
  have hdrops := drops_dropOutOfSync (le_refl b.unread)
  constructor
  · intro h
    exact h.functional hdrops
  · rintro rfl
    exact hdrops

theorem dropOutOfSync_unread_le (b : SerialRing) : (dropOutOfSync b.unread b).unread ≤ b.unread := by
  rw [← contents_length, ← contents_length, dropOutOfSync_contents _ _ (contents_length b).ge]
  exact (List.dropWhile_sublist _).length_le

theorem DecodeRound.functional {clock : Nat → UInt32} {s : Minotaur F × List MinosPacket}
    {out out' : Option (Minotaur F × List MinosPacket)} (h : DecodeRound clock s out)
    (h' : DecodeRound clock s out') : out = out' := by
  cases h with
  | served hdrop hlong hpacket =>
    cases h' with
    | served hdrop' _ hpacket' =>
      cases hdrop.functional hdrop'
      cases hpacket.symm.trans hpacket'
      rfl
    | thrown hdrop' _ hpacket' =>
      cases hdrop.functional hdrop'
      cases hpacket.symm.trans hpacket'
    | drained hdrop' hshort' =>
      cases hdrop.functional hdrop'
      exact absurd hlong hshort'
  | thrown hdrop hlong hpacket =>
    cases h' with
    | served hdrop' _ hpacket' =>
      cases hdrop.functional hdrop'
      cases hpacket.symm.trans hpacket'
    | thrown _ _ _ => rfl
    | drained hdrop' hshort' =>
      cases hdrop.functional hdrop'
      exact absurd hlong hshort'
  | drained hdrop hshort =>
    cases h' with
    | served hdrop' hlong' _ =>
      cases hdrop.functional hdrop'
      exact absurd hlong' hshort
    | thrown hdrop' hlong' _ =>
      cases hdrop.functional hdrop'
      exact absurd hlong' hshort
    | drained hdrop' _ =>
      cases hdrop.functional hdrop'
      rfl

/-- A round of the counted loop is a round of the loop, and leaves fewer bytes
unread. -/
theorem decodeRound_decodeLoop (clock : Nat → UInt32) (rounds : Nat) {m : Minotaur F}
    (packets : List MinosPacket) (hlong : m.ring.unread > 5) :
    ∃ m' more, DecodeRound clock (m, packets) (some (m', packets ++ more)) ∧
      m'.ring.unread < m.ring.unread ∧
      decodeLoop clock (rounds + 1) packets.length m =
        (decodeLoop clock rounds (packets.length + more.length) m').map
          fun done => (done.1, more ++ done.2) := by
  have hdrop := drops_dropOutOfSync (le_refl m.ring.unread)
  have hle := dropOutOfSync_unread_le m.ring
  rw [decodeLoop, if_pos hlong]
  generalize dropOutOfSync m.ring.unread m.ring = ring at hdrop hle
  dsimp only
  by_cases hlong' : ring.unread > 5
  · obtain ⟨p, m₁, hpacket, -, hrest, -⟩ :=
      packetize_spec (m := { m with ring := ring }) (by dsimp only; omega)
    have hunread := congrArg List.length hrest
    rw [contents_length, List.length_drop, contents_length] at hunread
    dsimp only at hunread
    refine ⟨_, [p], .served hdrop hlong' hpacket, ?_, ?_⟩
    · show m₁.ring.unread < m.ring.unread
      omega
    · rw [if_pos hlong', hpacket]
      show (Option.bind _ _ : Option _) = _
      rw [List.length_singleton, Option.map_eq_bind]
      rfl
  · refine ⟨{ m with ring := ring }, [], ?_, ?_, ?_⟩
    · rw [List.append_nil]
      exact .drained hdrop hlong'
    · show ring.unread < m.ring.unread
      omega
    · rw [if_neg hlong']
      exact Option.map_id'.symm

theorem decodes_decodeLoop (clock : Nat → UInt32) {rounds : Nat} {m : Minotaur F}
    (packets : List MinosPacket) (h : m.ring.unread ≤ rounds) :
    Decodes clock (m, packets)
      ((decodeLoop clock rounds packets.length m).map fun done => (done.1, packets ++ done.2)) := by
  let counted := fun (n : Nat) (s : Minotaur F × List MinosPacket) =>
    (decodeLoop clock n s.2.length s.1).map fun done => (done.1, s.2 ++ done.2)
  show Decodes clock (m, packets) (counted rounds (m, packets))
  refine Loop.of_counted (fun s => s.1.ring.unread) ?_ ?_ ?_ h
  · intro s hzero
    simp [hzero]
  · rintro n ⟨m, packets⟩ htest
    have hshort : ¬ m.ring.unread > 5 := by simpa using htest
    cases n with
    | zero => simp [counted, decodeLoop]
    | succ n => simp [counted, decodeLoop, hshort]
  · rintro n ⟨m, packets⟩ htest
    have hlong : m.ring.unread > 5 := by simpa using htest
    obtain ⟨m', more, hround, hless, hloop⟩ := decodeRound_decodeLoop clock n packets hlong
    refine ⟨_, hround, ?_, ?_⟩
    · dsimp only [counted]
      rw [hloop, Option.map_map, Option.bind_some, List.length_append]
      congr 1
      funext done
      exact congrArg (Prod.mk done.1) (List.append_assoc packets more done.2).symm
    · intro s' hs'
      cases hs'
      exact hless

/-- The decode loop ends, also when it throws, and does what the counted loop
computes. -/
theorem Decodes.iff {clock : Nat → UInt32} {m : Minotaur F}
    {out : Option (Minotaur F × List MinosPacket)} :
    Decodes clock (m, []) out ↔ out = decodeLoop clock m.ring.unread 0 m := by
  have hdecodes := decodes_decodeLoop clock (m := m) [] (le_refl _)
  have hsame : (decodeLoop clock m.ring.unread ([] : List MinosPacket).length m).map
      (fun done => (done.1, [] ++ done.2)) = decodeLoop clock m.ring.unread 0 m :=
    Option.map_id'
  rw [hsame] at hdecodes
  constructor
  · intro h
    exact Loop.functional (fun _ _ _ hround hround' => hround.functional hround') h hdecodes
  · rintro rfl
    exact hdecodes

theorem recv_eq (odometry : Odometry F) (clock : Nat → UInt32) (read : ReadCall) (m : Minotaur F) :
    recv odometry clock read m =
      if (m.ring.takeIn read).2 then
        (decodeLoop clock (m.ring.takeIn read).1.unread 0
            { m with ring := (m.ring.takeIn read).1 }).map fun done =>
          ⟨(commit odometry done.1).1, done.2, (commit odometry done.1).2, done.2.length != 0⟩
      else some ⟨{ m with ring := (m.ring.takeIn read).1 }, [], none, false⟩ := by
  rw [Option.map_eq_bind]
  rfl

/-- A call of `recv` has one outcome, the one that `recv` computes. -/
theorem Recvs.iff {call : RecvCall} {m : Minotaur F} {out : Option (RecvResult F)} :
    Recvs odometry call m out ↔ out = recv odometry call.clock call.read m := by
  rw [recv_eq]
  constructor
  · intro h
    cases h with
    | empty hread => rw [if_neg (by simp [hread])]
    | decoded hread hloop => rw [if_pos hread, ← Decodes.iff.1 hloop, Option.map_some]
    | thrown hread hloop => rw [if_pos hread, ← Decodes.iff.1 hloop, Option.map_none]
  · rintro rfl
    cases hread : (m.ring.takeIn call.read).2 with
    | false =>
      rw [if_neg (by simp)]
      exact .empty hread
    | true =>
      rw [if_pos rfl]
      have hloop : Decodes call.clock ({ m with ring := (m.ring.takeIn call.read).1 }, [])
          (decodeLoop call.clock (m.ring.takeIn call.read).1.unread 0
            { m with ring := (m.ring.takeIn call.read).1 }) := Decodes.iff.2 rfl
      cases hdone : decodeLoop call.clock (m.ring.takeIn call.read).1.unread 0
          { m with ring := (m.ring.takeIn call.read).1 } with
      | none =>
        rw [hdone] at hloop
        exact .thrown hread hloop
      | some done =>
        rw [hdone] at hloop
        exact .decoded hread hloop

/-! ## Two ways to cut a stream -/

/-- The calls of `recv` one after the other, with the packets that `packetize`
returned in them.  After an exception there are no more calls. -/
inductive Feeds (odometry : Odometry F) :
    List RecvCall → Option (Minotaur F × List MinosPacket) → Prop where
  | start : Feeds odometry [] (some (Minotaur.init odometry, []))
  | recv {calls : List RecvCall} {call : RecvCall} {m : Minotaur F} {packets : List MinosPacket}
      {r : RecvResult F} (h : Feeds odometry calls (some (m, packets)))
      (hrecv : Recvs odometry call m (some r)) :
      Feeds odometry (calls ++ [call]) (some (r.minotaur, packets ++ r.served))
  | thrown {calls : List RecvCall} {call : RecvCall} {m : Minotaur F} {packets : List MinosPacket}
      (h : Feeds odometry calls (some (m, packets))) (hrecv : Recvs odometry call m none) :
      Feeds odometry (calls ++ [call]) none

theorem feeds_nil {out : Option (Minotaur F × List MinosPacket)} :
    Feeds odometry [] out ↔ out = some (Minotaur.init odometry, []) := by
  constructor
  · intro h
    generalize hcalls : ([] : List RecvCall) = calls at h
    cases h with
    | start => rfl
    | recv _ _ => simp at hcalls
    | thrown _ _ => simp at hcalls
  · rintro rfl
    exact .start

theorem feeds_concat {calls : List RecvCall} {call : RecvCall}
    {out : Option (Minotaur F × List MinosPacket)} :
    Feeds odometry (calls ++ [call]) out ↔
      ∃ m packets, Feeds odometry calls (some (m, packets)) ∧
        out = (recv odometry call.clock call.read m).map fun r =>
          (r.minotaur, packets ++ r.served) := by
  constructor
  · intro h
    generalize hcalls : calls ++ [call] = calls' at h
    cases h with
    | start => simp at hcalls
    | recv hfront hlast =>
      obtain ⟨rfl, hcall⟩ := List.append_inj' hcalls rfl
      cases hcall
      exact ⟨_, _, hfront, by rw [← Recvs.iff.1 hlast, Option.map_some]⟩
    | thrown hfront hlast =>
      obtain ⟨rfl, hcall⟩ := List.append_inj' hcalls rfl
      cases hcall
      exact ⟨_, _, hfront, by rw [← Recvs.iff.1 hlast, Option.map_none]⟩
  · rintro ⟨m, packets, hfront, rfl⟩
    cases hrecv : recv odometry call.clock call.read m with
    | none => exact hfront.thrown (Recvs.iff.2 hrecv.symm)
    | some r => exact hfront.recv (Recvs.iff.2 hrecv.symm)

/-- Calls with one outcome, and one more that does not throw. -/
theorem feeds_concat_of_only {calls : List RecvCall} {call : RecvCall} {m : Minotaur F}
    {packets : List MinosPacket} {r : RecvResult F}
    (honly : ∀ out, Feeds odometry calls out ↔ out = some (m, packets))
    (hrecv : recv odometry call.clock call.read m = some r)
    (out : Option (Minotaur F × List MinosPacket)) :
    Feeds odometry (calls ++ [call]) out ↔ out = some (r.minotaur, packets ++ r.served) := by
  rw [feeds_concat]
  constructor
  · rintro ⟨m', packets', hfront, rfl⟩
    cases (honly _).1 hfront
    rw [hrecv, Option.map_some]
  · rintro rfl
    exact ⟨m, packets, (honly _).2 rfl, by rw [hrecv, Option.map_some]⟩

/-- The bytes that some calls read. -/
def streamOf (calls : List RecvCall) : List UInt8 := calls.flatMap fun call => call.read.block

/-- A piece that is not empty and fits the size asked for and the free space,
and `errno` is clear. -/
structure Fits (b : SerialRing) (read : ReadCall) : Prop where
  nonempty : read.block ≠ []
  errno : read.wouldBlock = false
  requested : read.block.length ≤ b.requestSize
  room : b.unread + read.block.length ≤ 79

/-- Every piece fits when it is read. -/
def Fitting (odometry : Odometry F) (calls : List RecvCall) : Prop :=
  ∀ pre call m packets, pre ++ [call] <+: calls → Feeds odometry pre (some (m, packets)) →
    Fits m.ring call.read

theorem Fitting.front {calls : List RecvCall} {call : RecvCall}
    (h : Fitting odometry (calls ++ [call])) : Fitting odometry calls :=
  fun pre call' m packets hpre hfeeds =>
    h pre call' m packets (hpre.trans (List.prefix_append calls [call])) hfeeds

/-- Calls whose pieces fit have an outcome, it is no exception, and it is the
only one. -/
theorem Fitting.feeds {calls : List RecvCall} (h : Fitting odometry calls) :
    ∃ m packets, Receives odometry (streamOf calls) packets m ∧
      ∀ out, Feeds odometry calls out ↔ out = some (m, packets) := by
  induction calls using List.reverseRecOn with
  | nil => exact ⟨_, [], .start, fun _ => feeds_nil⟩
  | append_singleton calls call ih =>
    obtain ⟨m, packets, hreceives, honly⟩ := ih h.front
    have hfits := h calls call m packets (List.prefix_refl _) ((honly _).2 rfl)
    have hclean : CleanRead m.ring call.read := .inr ⟨hfits.errno, hfits.requested, hfits.room⟩
    obtain ⟨r, hrecv, -⟩ := hreceives.recv_isSome call.clock hclean
    refine ⟨r.minotaur, packets ++ r.served, ?_, feeds_concat_of_only honly hrecv⟩
    have hnext := hreceives.recv hclean hrecv
    rwa [streamOf, List.flatMap_append, List.flatMap_singleton]

/-- The packets of a stream do not depend on how it is cut.  Every call of
`recv` ends, and none throws. -/
theorem packets_eq_of_stream_eq (odometry : Odometry F) {calls calls' : List RecvCall}
    (hfits : Fitting odometry calls) (hfits' : Fitting odometry calls')
    (hstream : streamOf calls = streamOf calls') :
    ∃ m m' packets, (∀ out, Feeds odometry calls out ↔ out = some (m, packets)) ∧
      ∀ out, Feeds odometry calls' out ↔ out = some (m', packets) := by
  obtain ⟨m, packets, hreceives, honly⟩ := hfits.feeds
  obtain ⟨m', packets', hreceives', honly'⟩ := hfits'.feeds
  have hserved := hreceives.served_eq
  rw [hstream, ← hreceives'.served_eq] at hserved
  have hsame : packets = packets' :=
    (List.map_inj_right fun _ _ hpq => MinosPacket.bytes_injective hpq).1 hserved
  rw [← hsame] at honly'
  exact ⟨m, m', packets, honly, honly'⟩

/-- A stream in one read, and in two whose cut lies inside a packet. -/
theorem packets_eq_of_stream_eq_twelve :
    ∃ m m' packets,
      (∀ out, Feeds restOdometry
          [⟨fun _ => 5, ⟨[0x00, 0xAA, 1, 0x02, 7, 0, 0xAA, 2, 0xB1, 3, 0, 0xAA], false⟩⟩] out ↔
        out = some (m, packets)) ∧
      ∀ out, Feeds restOdometry
          [⟨fun _ => 8, ⟨[0x00, 0xAA, 1, 0x02], false⟩⟩,
            ⟨fun _ => 9, ⟨[7, 0, 0xAA, 2, 0xB1, 3, 0, 0xAA], false⟩⟩] out ↔
        out = some (m', packets) := by
  apply packets_eq_of_stream_eq
  · intro pre call m packets hpre hfeeds
    cases pre with
    | nil =>
      obtain ⟨rfl, -⟩ := List.cons_prefix_cons.1 hpre
      cases feeds_nil.1 hfeeds
      exact ⟨by decide, rfl, by decide, by decide⟩
    | cons c pre => simp at hpre
  · intro pre call m packets hpre hfeeds
    cases pre with
    | nil =>
      obtain ⟨rfl, -⟩ := List.cons_prefix_cons.1 hpre
      cases feeds_nil.1 hfeeds
      exact ⟨by decide, rfl, by decide, by decide⟩
    | cons c pre =>
      obtain ⟨rfl, hrest⟩ := List.cons_prefix_cons.1 hpre
      cases pre with
      | nil =>
        obtain ⟨rfl, -⟩ := List.cons_prefix_cons.1 hrest
        obtain ⟨m₀, packets₀, hstart, hout⟩ := feeds_concat.1 (List.nil_append [_] ▸ hfeeds)
        cases feeds_nil.1 hstart
        obtain ⟨r, hr, hm⟩ := Option.map_eq_some_iff.1 hout.symm
        cases hm
        have hring : (recv restOdometry (fun _ => 8) ⟨[0x00, 0xAA, 1, 0x02], false⟩
            (Minotaur.init restOdometry)).map
              (fun r => (r.minotaur.ring.requestSize, r.minotaur.ring.unread)) = some (76, 4) := by
          decide
        rw [hr, Option.map_some, Option.some.injEq, Prod.mk.injEq] at hring
        refine ⟨by decide, rfl, ?_, ?_⟩
        · rw [hring.1]
          decide
        · rw [hring.2]
          decide
      | cons c' pre => simp at hrest
  · rfl

end MinotaurRobot.Host
