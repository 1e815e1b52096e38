import MinotaurRobot.Host.Elapsed

/-!
# The battery level behind a commit

A commit does not wait for a battery packet, and it replaces `nextState` by a
fresh one.  So a committed state has the battery level of the last battery
packet since the commit before it (`batteryOf`), and the default if there was
none.

`Record` is the host with the packets since start-up, and
`Record.Filled` the invariant: the battery of `nextState` is that of the
packets since the last commit, which are the end of all packets.
-/

namespace MinotaurRobot.Host

open Lib

variable {F : Type} {odometry : Odometry F}

/-- A commit: the packets decoded since start-up, those of them since the
commit before, and `currentState` behind it. -/
structure Snapshot (F : Type) where
  history : List MinosPacket
  window : List MinosPacket
  state : MinotaurState F

/-- The host, the packets decoded since start-up and since the last commit,
and the commits. -/
structure Record (F : Type) where
  minotaur : Minotaur F
  history : List MinosPacket
  window : List MinosPacket
  snapshots : List (Snapshot F)

def Record.init (odometry : Odometry F) : Record F := ⟨Minotaur.init odometry, [], [], []⟩

/-- `recv` with these histories. -/
def Record.recv (odometry : Odometry F) (rec : Record F) (call : RecvCall) : Option (Record F) :=
  (Host.recv odometry call.clock call.read rec.minotaur).map fun r =>
    let history := rec.history ++ r.served
    let window := rec.window ++ r.served
    match r.committed with
    | none => ⟨r.minotaur, history, window, rec.snapshots⟩
    | some _ =>
      ⟨r.minotaur, history, [], rec.snapshots ++ [⟨history, window, r.minotaur.currentState⟩]⟩

/-- The commits of a run. -/
def snapshotsOf (odometry : Odometry F) (calls : List RecvCall) : List (Snapshot F) :=
  match Runs.run (Record.recv odometry) (Record.init odometry) calls with
  | none => []
  | some rec => rec.snapshots

/-- The command of a battery packet. -/
def batteryCommand : UInt8 := 0x02

/-- The committed state has the level of the last battery packet since
start-up, if there was one. -/
def Snapshot.BatteryKept (k : Snapshot F) : Prop :=
  ∀ p ∈ lastOf batteryCommand k.history, k.state.validBattery = true ∧ k.state.battery = p.udata8Fst

/-- If there was a battery packet since start-up, then there was one since the
commit before. -/
def Snapshot.Refreshed (k : Snapshot F) : Prop :=
  (∃ p ∈ k.history, p.command = batteryCommand) → ∃ p ∈ k.window, p.command = batteryCommand

/-! ## The battery of some packets -/

/-- `battery` and `valid_battery` of a fresh state that received some
packets. -/
def batteryOf (packets : List MinosPacket) : UInt8 × Bool :=
  match lastOf batteryCommand packets with
  | none => (0, false)
  | some p => (p.udata8Fst, true)

theorem batteryOf_concat (packets : List MinosPacket) (p : MinosPacket) :
    batteryOf (packets ++ [p]) =
      if p.command = batteryCommand then (p.udata8Fst, true) else batteryOf packets := by
  unfold batteryOf
  by_cases h : p.command = batteryCommand
  · rw [if_pos h, ← h, lastOf_append_self]
  · rw [if_neg h, lastOf_append_of_ne h]

theorem lastOf_eq_none_iff {command : UInt8} {packets : List MinosPacket} :
    lastOf command packets = none ↔ ¬∃ p ∈ packets, p.command = command := by
  unfold lastOf
  rw [List.getLast?_eq_none_iff, List.filter_eq_nil_iff]
  simp

def MinotaurState.batteryField (st : MinotaurState F) : UInt8 × Bool :=
  (st.battery, st.validBattery)

theorem applyPacket_battery (now : UInt32) (st : MinotaurState F) (p : MinosPacket) :
    (applyPacket now st p).batteryField =
      if p.command = batteryCommand then (p.udata8Fst, true) else st.batteryField := by
  have hstamp : (stampPacket now st p).batteryField = st.batteryField := by
    unfold stampPacket
    split_ifs <;> rfl
  unfold applyPacket
  rw [← hstamp]
  unfold storePacket
  by_cases h : p.command = batteryCommand
  · have hpacket : p.command = 0x02 := h
    rw [if_pos h, if_pos hpacket]
    rfl
  · have hpacket : ¬ p.command = 0x02 := h
    rw [if_neg h, if_neg hpacket]
    split_ifs <;> rfl

theorem applyAll_battery {st : MinotaurState F} {window : List MinosPacket}
    (h : st.batteryField = batteryOf window) (clock : Nat → UInt32) (i : Nat)
    (packets : List MinosPacket) :
    (applyAll clock i st packets).batteryField = batteryOf (window ++ packets) := by
  induction packets generalizing i st window with
  | nil =>
    rw [List.append_nil]
    exact h
  | cons p packets ih =>
    have happly : (applyPacket (clock i) st p).batteryField = batteryOf (window ++ [p]) := by
      rw [applyPacket_battery, batteryOf_concat, h]
    have hrest := ih happly (i + 1)
    rwa [List.append_assoc] at hrest

/-! ## Runs -/

/-- What is known of a commit. -/
structure Snapshot.Filled (k : Snapshot F) : Prop where
  field : k.state.batteryField = batteryOf k.window
  window : k.window <:+ k.history

/-- The invariant of a run. -/
structure Record.Filled (rec : Record F) : Prop where
  field : rec.minotaur.nextState.batteryField = batteryOf rec.window
  window : rec.window <:+ rec.history
  snapshots : ∀ k ∈ rec.snapshots, k.Filled

theorem suffix_append_append {window history : List MinosPacket} (h : window <:+ history)
    (packets : List MinosPacket) : window ++ packets <:+ history ++ packets := by
  obtain ⟨old, rfl⟩ := h
  exact ⟨old, (List.append_assoc old window packets).symm⟩

/-- Every call has an outcome, and keeps the invariant. -/
theorem Record.Filled.recv {rec : Record F} (h : rec.Filled) (call : RecvCall) :
    ∃ rec', Record.recv odometry rec call = some rec' ∧ rec'.Filled := by
  obtain ⟨r, hrecv, houtcome⟩ := recv_outcome odometry call.clock call.read rec.minotaur
  have hnext := applyAll_battery h.field call.clock 0 r.served
  have hwindow := suffix_append_append h.window r.served
  unfold Record.recv
  rw [hrecv, Option.map_some]
  refine ⟨_, rfl, ?_⟩
  dsimp only
  cases hmade : (rec.minotaur.ring.takeIn call.read).2 &&
      (applyAll call.clock 0 rec.minotaur.nextState r.served).sensorsComplete with
  | false =>
    rw [hmade] at houtcome
    obtain ⟨-, hstate, hcommitted⟩ := houtcome.idle (by decide)
    rw [hcommitted]
    refine ⟨?_, hwindow, h.snapshots⟩
    show r.minotaur.nextState.batteryField = _
    rw [hstate]
    exact hnext
  | true =>
    rw [hmade] at houtcome
    by_cases hpass : passes odometry rec.minotaur.currentState
        (applyAll call.clock 0 rec.minotaur.nextState r.served) = true
    · obtain ⟨hcurrent, hstate, hcommitted⟩ := houtcome.accepted rfl hpass
      rw [hcommitted]
      refine ⟨?_, List.nil_suffix, ?_⟩
      · show r.minotaur.nextState.batteryField = _
        rw [hstate]
        rfl
      · intro k hk
        rcases List.mem_append.1 hk with hold | hnew
        · exact h.snapshots k hold
        · rw [List.mem_singleton.1 hnew]
          refine ⟨?_, hwindow⟩
          show r.minotaur.currentState.batteryField = _
          rw [hcurrent]
          exact hnext
    · obtain ⟨-, hstate, hcommitted⟩ := houtcome.rejected rfl hpass
      rw [hcommitted]
      refine ⟨?_, hwindow, h.snapshots⟩
      show r.minotaur.nextState.batteryField = _
      rw [hstate]
      exact hnext

theorem snapshotsOf_filled {calls : List RecvCall} {k : Snapshot F}
    (hk : k ∈ snapshotsOf odometry calls) : k.Filled := by
  have hrun : ∃ rec, Runs.run (Record.recv odometry) (Record.init odometry) calls = some rec ∧
      rec.Filled := by
    clear hk
    induction calls using List.reverseRecOn with
    | nil =>
      exact ⟨Record.init odometry, rfl, rfl, List.suffix_refl [],
        fun k hk => absurd hk List.not_mem_nil⟩
    | append_singleton calls call ih =>
      obtain ⟨rec, hfront, hfilled⟩ := ih
      have hnext : ∃ rec', Record.recv odometry rec call = some rec' ∧ rec'.Filled :=
        hfilled.recv call
      obtain ⟨rec', hlast, hfilled'⟩ := hnext
      exact ⟨rec', Runs.run_concat.2 ⟨rec, hfront, hlast⟩, hfilled'⟩
  obtain ⟨rec, hrun, hfilled⟩ := hrun
  unfold snapshotsOf at hk
  rw [hrun] at hk
  exact hfilled.snapshots k hk

/-- The last packet of a kind is among the newest packets if they have one of
this kind. -/
theorem lastOf_of_suffix {command : UInt8} {window history : List MinosPacket}
    (h : window <:+ history) (hmem : ∃ p ∈ window, p.command = command) :
    lastOf command history = lastOf command window := by
  obtain ⟨old, rfl⟩ := h
  rw [lastOf_append]
  cases hlast : lastOf command window with
  | none => exact absurd hmem (lastOf_eq_none_iff.1 hlast)
  | some p => rfl

theorem Snapshot.Filled.battery_iff {k : Snapshot F} (h : k.Filled) :
    k.BatteryKept ↔ k.Refreshed := by
  have hfield := h.field
  unfold MinotaurState.batteryField batteryOf at hfield
  constructor
  · intro hkept hold
    by_contra hnone
    rw [lastOf_eq_none_iff.2 hnone, Prod.mk.injEq] at hfield
    cases hlast : lastOf batteryCommand k.history with
    | none => exact lastOf_eq_none_iff.1 hlast hold
    | some p =>
      have hvalid := (hkept p hlast).1
      rw [hfield.2] at hvalid
      exact absurd hvalid (by decide)
  · intro hfresh p hp
    have hold : ∃ p ∈ k.history, p.command = batteryCommand := by
      by_contra hnone
      rw [lastOf_eq_none_iff.2 hnone] at hp
      cases hp
    rw [lastOf_of_suffix h.window (hfresh hold)] at hp
    rw [hp, Prod.mk.injEq] at hfield
    exact ⟨hfield.2, hfield.1⟩

/-- In every run, a commit keeps the battery level exactly if a battery packet
came since the commit before it or none ever came. -/
theorem battery_kept_iff (odometry : Odometry F) (calls : List RecvCall) :
    ∀ k ∈ snapshotsOf odometry calls, k.BatteryKept ↔ k.Refreshed :=
  fun _ hk => (snapshotsOf_filled hk).battery_iff

/-- A sample with a battery level of 7, and one without a battery packet. -/
def batteryOnce : List RecvCall :=
  let stream := wire (⟨0xAA, 1, 0x02, 7, 0⟩ :: sample 0 ++ sample 0 ++ sample 0)
  [⟨fun _ => 1000, ⟨stream.take 21, false⟩⟩, ⟨fun _ => 2000, ⟨(stream.drop 21).take 15, false⟩⟩]

/-- The first commit keeps the level, and the second one does not. -/
theorem battery_kept_iff_once :
    (∃ k, (snapshotsOf restOdometry batteryOnce)[0]? = some k ∧ k.Refreshed ∧ k.BatteryKept) ∧
      ∃ k, (snapshotsOf restOdometry batteryOnce)[1]? = some k ∧ ¬k.Refreshed ∧
        ¬k.BatteryKept := by
  have hiff := battery_kept_iff restOdometry batteryOnce
  constructor
  · obtain ⟨k, hk⟩ : ∃ k, (snapshotsOf restOdometry batteryOnce)[0]? = some k := ⟨_, rfl⟩
    have hfresh : k.Refreshed := by
      have hwindow : (snapshotsOf restOdometry batteryOnce)[0]?.any fun k =>
          k.window.any fun p => p.command == batteryCommand := by decide
      rw [hk, Option.any_some, List.any_eq_true] at hwindow
      obtain ⟨p, hp, hcommand⟩ := hwindow
      exact fun _ => ⟨p, hp, eq_of_beq hcommand⟩
    exact ⟨k, hk, hfresh, (hiff k (List.mem_of_getElem? hk)).2 hfresh⟩
  · obtain ⟨k, hk⟩ : ∃ k, (snapshotsOf restOdometry batteryOnce)[1]? = some k := ⟨_, rfl⟩
    have hstale : ¬k.Refreshed := by
      have hwindow : (snapshotsOf restOdometry batteryOnce)[1]?.any fun k =>
          (k.history.any fun p => p.command == batteryCommand) &&
            !k.window.any fun p => p.command == batteryCommand := by decide
      rw [hk, Option.any_some, Bool.and_eq_true, List.any_eq_true, Bool.not_eq_true',
        List.any_eq_false] at hwindow
      obtain ⟨⟨p, hp, hcommand⟩, hnone⟩ := hwindow
      intro hfresh
      obtain ⟨q, hq, hbattery⟩ := hfresh ⟨p, hp, eq_of_beq hcommand⟩
      exact hnone q hq (beq_iff_eq.2 hbattery)
    exact ⟨k, hk, hstale, fun hkept => hstale ((hiff k (List.mem_of_getElem? hk)).1 hkept)⟩

/-- The second commit has no battery level. -/
theorem battery_lost :
    (snapshotsOf restOdometry batteryOnce).map (fun k => k.state.batteryField) =
        [(7, true), (0, false)] ∧
      ¬∀ k ∈ snapshotsOf restOdometry batteryOnce, k.BatteryKept := by
  refine ⟨by decide, ?_⟩
  intro hall
  have hany : ((snapshotsOf restOdometry batteryOnce).any fun k =>
      (lastOf batteryCommand k.history).isSome && !k.state.validBattery) = true := by decide
  obtain ⟨k, hk, hlost⟩ := List.any_eq_true.1 hany
  rw [Bool.and_eq_true, Bool.not_eq_true', Option.isSome_iff_exists] at hlost
  obtain ⟨⟨p, hp⟩, hinvalid⟩ := hlost
  have hvalid := (hall k hk p hp).1
  rw [hinvalid] at hvalid
  exact absurd hvalid (by decide)

end MinotaurRobot.Host
