import MinotaurRobot.Camera.Source
import MinotaurRobot.Lib.Runs
import MinotaurRobot.Link.Drive

/-!
# The camera mode

The page writes the name of a camera mode when its key goes down, whatever else
is held.  The server sends the command for the mode only for a key that is
pressed alone, behind a message without keys.

`mode_of_keys` has a condition on the keys for the robot to show what the page
says.  Before the first choice the page says "RGB", and the robot shows the map.
-/

namespace MinotaurRobot.Link

open Host Cnc Web Camera Lib

/-! ## Keys and sources -/

/-- The source that the server asks for when a key is pressed. -/
def sourceOf : Key → Option FrameSource
  | .f1 => some .posFrameX
  | .f2 => some .posFrameY
  | .f3 => some .posFrameZ
  | .f4 => some .posFrameXYZ
  | .f5 => some .wallFrame
  | .f6 => some .mapFrame
  | .f7 => some .live
  | _ => none

/-- What the page calls a source. -/
def modeName : FrameSource → String
  | .posFrameX => "X Depth"
  | .posFrameY => "Y Depth"
  | .posFrameZ => "Z Depth"
  | .posFrameXYZ => "XYZ Depth Rainbow"
  | .wallFrame => "Walls"
  | .mapFrame => "MAP"
  | .live => "RGB"

theorem cameraMode_eq (key : Key) : key.cameraMode = (sourceOf key).map modeName := by
  cases key <;> rfl

theorem modeName_inj {source source' : FrameSource} (h : modeName source = modeName source') :
    source = source' := by
  cases source <;> cases source' <;> first | rfl | exact absurd h (by decide)

/-- The actions of the robot for some commands. -/
def actionsOf (cmds : List SendCmd) : List Action := (cmds.flatMap expected).map Prod.snd

theorem actionsOf_append (xs ys : List SendCmd) :
    actionsOf (xs ++ ys) = actionsOf xs ++ actionsOf ys := by
  unfold actionsOf
  rw [List.flatMap_append, List.map_append]

/-- The source that the commands choose last. -/
def choice (cmds : List SendCmd) : Option FrameSource := lastChoice (actionsOf cmds)

theorem choice_append (xs ys : List SendCmd) :
    choice (xs ++ ys) = (choice ys).or (choice xs) := by
  unfold choice lastChoice
  rw [actionsOf_append, List.filterMap_append, List.getLast?_append]

/-- A metrics request chooses nothing, and the robot knows it. -/
theorem choice_metrics {c : SendCmd} (h : c.command = 0x30) : Known c ∧ choice [c] = none := by
  have hreceived : c.received.command = 0x30 := by
    rw [SendCmd.received, h]
    rfl
  have hdispatch : dispatch c.received = .ok .metrics := by
    rw [dispatch, hreceived]
    rfl
  refine ⟨⟨.metrics, hdispatch⟩, ?_⟩
  simp [choice, actionsOf, expected, hdispatch, lastChoice]

theorem choice_filter (cmds : List SendCmd) :
    choice (cmds.filter fun c => c.command ≠ 0x30) = choice cmds := by
  induction cmds with
  | nil => rfl
  | cons c cmds ih =>
    have hcons : choice (c :: cmds) = (choice cmds).or (choice [c]) := choice_append [c] cmds
    by_cases h : c.command = 0x30
    · rw [List.filter_cons_of_neg (by simpa using h), ih, hcons, (choice_metrics h).2,
        Option.or_none]
    · rw [List.filter_cons_of_pos (by simpa using h), ← List.singleton_append, choice_append, ih,
        hcons]

/-- The commands of a key message are known to the robot. -/
theorem known_keyCommands (lastKeys : Option Int) (message : KeyMessage) :
    ∀ c ∈ keyCommands lastKeys message, Known c := by
  have hdrive : Known (driveCommand message) :=
    ⟨.sendpacket 0x01 (driveCommand message).received.udata16, rfl⟩
  have hcamera : ∀ c ∈ cameraCommand message.gKeys, Known c := by
    intro c hc
    unfold cameraCommand at hc
    split_ifs at hc <;> simp only [List.mem_singleton, List.not_mem_nil] at hc <;> rw [hc]
    · exact ⟨.dumpVideo, by decide⟩
    · exact ⟨.chooseSource .posFrameX, by decide⟩
    · exact ⟨.chooseSource .posFrameY, by decide⟩
    · exact ⟨.chooseSource .posFrameZ, by decide⟩
    · exact ⟨.chooseSource .posFrameXYZ, by decide⟩
    · exact ⟨.chooseSource .wallFrame, by decide⟩
    · exact ⟨.chooseSource .mapFrame, by decide⟩
    · exact ⟨.chooseSource .live, by decide⟩
  intro c hc
  unfold keyCommands at hc
  rcases List.mem_append.1 hc with hc | hc
  · cases lastKeys with
    | none => cases hc
    | some last =>
      dsimp only at hc
      split_ifs at hc
      · rw [List.mem_singleton.1 hc]
        exact hdrive
      · cases hc
  · split_ifs at hc
    · exact hcamera c hc
    · cases hc

/-- A key message chooses a source if the key is pressed alone, behind a message
without keys. -/
theorem choice_keyCommands (lastKeys : Option Int) (message : KeyMessage) :
    choice (keyCommands lastKeys message) =
      if lastKeys = some 0 then choice (cameraCommand message.gKeys) else none := by
  have hdrive : choice [driveCommand message] = none := rfl
  unfold keyCommands
  rw [choice_append]
  cases lastKeys with
  | none => rfl
  | some last =>
    dsimp only
    have hfirst : choice (if driveBits message.gKeys ≠ driveBits last then
        [driveCommand message] else []) = none := by
      split_ifs
      · exact hdrive
      · rfl
    rw [hfirst, Option.or_none]
    split_ifs <;> rfl

theorem choice_cameraCommand (key : Key) :
    choice (cameraCommand (key.bit : ℕ)) = sourceOf key := by
  cases key <;> decide

theorem choice_cameraCommand_some {gKeys : ℕ} {source : FrameSource}
    (h : choice (cameraCommand gKeys) = some source) :
    ∃ key, gKeys = key.bit ∧ sourceOf key = some source := by
  have hfound : ∃ key : Key, (gKeys : Int) = (key.bit : ℕ) := by
    unfold cameraCommand at h
    split_ifs at h with h1 h2 h3 h4 h5 h6 h7 h8
    · exact ⟨.f12, h1⟩
    · exact ⟨.f1, h2⟩
    · exact ⟨.f2, h3⟩
    · exact ⟨.f3, h4⟩
    · exact ⟨.f4, h5⟩
    · exact ⟨.f5, h6⟩
    · exact ⟨.f6, h7⟩
    · exact ⟨.f7, h8⟩
    · cases h
  obtain ⟨key, hkey⟩ := hfound
  have hbit : gKeys = key.bit := by exact_mod_cast hkey
  exact ⟨key, hbit, by rw [← choice_cameraCommand, ← hbit, h]⟩

/-! ## The page -/

/-- The word of the last key message. -/
def lastSent (events : List PageEvent) : Option Int :=
  (Session.run (Page.run events).sent).lastKeys

/-- The keys that are held change only when the server knows them. -/
def Unhurried (events : List PageEvent) : Prop :=
  ∀ pre event, pre ++ [event] <+: events →
    (Page.run (pre ++ [event])).gKeys ≠ (Page.run pre).gKeys →
      lastSent pre = some ((Page.run pre).gKeys : Int)

/-- The mode on the page changes only while no key is held. -/
def ModesAlone (events : List PageEvent) : Prop :=
  ∀ pre event, pre ++ [event] <+: events →
    (Page.run (pre ++ [event])).camMode ≠ (Page.run pre).camMode →
      ∀ key, held pre key = false

theorem bit_pos (key : Key) : 0 < key.bit := Nat.two_pow_pos key.index

theorem bit_inj {key key' : Key} (h : key.bit = key'.bit) : key = key' :=
  index_inj.1 (Nat.pow_right_injective (le_refl 2) h)

/-- A handler of the page. -/
structure KeyHandled (p p' : Page) : Prop where
  sent : p'.sent = p.sent
  mode : p'.camMode = p.camMode ∨ ∃ key source, sourceOf key = some source ∧
    p'.camMode = modeName source ∧ p'.gKeys = p.gKeys ||| key.bit
  -- from no key to one with a mode
  pressed : p.gKeys = 0 → ∀ key source, sourceOf key = some source → p'.gKeys = key.bit →
    p'.camMode = modeName source

theorem handled_step (p : Page) {event : PageEvent} (h : ∀ speed, event ≠ .sample speed) :
    KeyHandled p (p.step event) := by
  cases event with
  | sample speed => exact absurd rfl (h speed)
  | reset =>
    refine ⟨rfl, Or.inl rfl, fun _ key source _ hbit => ?_⟩
    have hpos := bit_pos key
    rw [← hbit] at hpos
    exact absurd hpos (lt_irrefl 0)
  | keyup code =>
    rw [Page.step, Page.onkeyup]
    cases Key.ofCode code with
    | none =>
      refine ⟨rfl, Or.inl rfl, fun hzero key source _ hbit => ?_⟩
      have hpos := bit_pos key
      rw [← hbit, hzero] at hpos
      exact absurd hpos (lt_irrefl 0)
    | some down =>
      refine ⟨rfl, Or.inl rfl, fun hzero key source _ hbit => ?_⟩
      have hpos := bit_pos key
      rw [← hbit] at hpos
      simp [hzero] at hpos
  | keydown code =>
    rw [Page.step, Page.onkeydown]
    cases Key.ofCode code with
    | none =>
      refine ⟨rfl, Or.inl rfl, fun hzero key source _ hbit => ?_⟩
      have hpos := bit_pos key
      rw [← hbit, hzero] at hpos
      exact absurd hpos (lt_irrefl 0)
    | some down =>
      show KeyHandled p { p with
        gKeys := p.gKeys ||| down.bit, camMode := down.cameraMode.getD p.camMode }
      refine ⟨rfl, ?_, fun hzero key source hsource hbit => ?_⟩
      · rw [cameraMode_eq]
        cases hsource : sourceOf down with
        | none => exact Or.inl rfl
        | some source => exact Or.inr ⟨down, source, hsource, rfl, rfl⟩
      · obtain rfl : down = key := by
          apply bit_inj
          rw [← hbit, hzero]
          exact (Nat.zero_or _).symm
        rw [cameraMode_eq, hsource]
        rfl

/-- What the page and the server agree on. -/
structure Agree (events : List PageEvent) : Prop where
  -- a key that the server is about to see alone has set the mode
  pending : ∀ key source, sourceOf key = some source → lastSent events = some 0 →
    (Page.run events).gKeys = key.bit → (Page.run events).camMode = modeName source
  mode : (choice (Session.run (Page.run events).sent).sent = none ∧
      (Page.run events).camMode = "RGB") ∨
    ∃ source, (Page.run events).camMode = modeName source ∧
      (choice (Session.run (Page.run events).sent).sent = some source ∨
        ∃ key, sourceOf key = some source ∧ lastSent events = some 0 ∧
          (Page.run events).gKeys = key.bit)

theorem agree_handled {events : List PageEvent} {event : PageEvent} (h : Agree events)
    (hevent : ∀ speed, event ≠ .sample speed)
    (hunhurried : (Page.run (events ++ [event])).gKeys ≠ (Page.run events).gKeys →
      lastSent events = some ((Page.run events).gKeys : Int))
    (halone : (Page.run (events ++ [event])).camMode ≠ (Page.run events).camMode →
      (Page.run events).gKeys = 0) : Agree (events ++ [event]) := by
  obtain ⟨hsent, hmode, hpressed⟩ := handled_step (Page.run events) hevent
  rw [← Web.run_concat] at hsent hmode hpressed
  have hlast : lastSent (events ++ [event]) = lastSent events := by rw [lastSent, hsent, lastSent]
  constructor
  · intro key source hsource hzero hbit
    rw [hlast] at hzero
    by_cases hkeys : (Page.run (events ++ [event])).gKeys = (Page.run events).gKeys
    · have hsame : (Page.run (events ++ [event])).camMode = (Page.run events).camMode := by
        by_contra hchanged
        have hnone := halone hchanged
        rw [← hkeys, hbit] at hnone
        have hpos := bit_pos key
        omega
      rw [hsame]
      exact h.pending key source hsource hzero (hkeys ▸ hbit)
    · have hknown := hunhurried hkeys
      rw [hzero, Option.some.injEq] at hknown
      exact hpressed (by omega) key source hsource hbit
  · rw [hsent, hlast]
    by_cases hsame : (Page.run (events ++ [event])).camMode = (Page.run events).camMode
    · rw [hsame]
      rcases h.mode with hnone | ⟨source, hcam, hchosen | ⟨key, hsource, hzero, hbit⟩⟩
      · exact Or.inl hnone
      · exact Or.inr ⟨source, hcam, Or.inl hchosen⟩
      · have hkeys : (Page.run (events ++ [event])).gKeys = (Page.run events).gKeys := by
          by_contra hchanged
          have hknown := hunhurried hchanged
          rw [hzero, hbit, Option.some.injEq] at hknown
          have hpos := bit_pos key
          omega
        exact Or.inr ⟨source, hcam, Or.inr ⟨key, hsource, hzero, hkeys.trans hbit⟩⟩
    · have hzero := halone hsame
      rcases hmode with hkept | ⟨key, source, hsource, hcam, hbit⟩
      · exact absurd hkept hsame
      · rw [hzero, Nat.zero_or] at hbit
        have hpos := bit_pos key
        have hknown := hunhurried (by rw [hbit, hzero]; omega)
        rw [hzero] at hknown
        exact Or.inr ⟨source, hcam, Or.inr ⟨key, hsource, hknown, hbit⟩⟩

theorem agree_sample {events : List PageEvent} (h : Agree events) (speed : Int) :
    Agree (events ++ [.sample speed]) ∧
      ((choice (Session.run (Page.run (events ++ [.sample speed])).sent).sent = none ∧
        (Page.run (events ++ [.sample speed])).camMode = "RGB") ∨
      ∃ source, (Page.run (events ++ [.sample speed])).camMode = modeName source ∧
        choice (Session.run (Page.run (events ++ [.sample speed])).sent).sent = some source) := by
  have hrun : Page.run (events ++ [.sample speed]) =
      { Page.run events with
          sent := (Page.run events).sent ++ [⟨(Page.run events).gKeys, speed⟩] } := by
    rw [Web.run_concat]
    rfl
  have hlast : lastSent (events ++ [.sample speed]) = some ((Page.run events).gKeys : Int) := by
    rw [lastSent, hrun, Cnc.run_concat]
    rfl
  have hchoice : choice (Session.run (Page.run (events ++ [.sample speed])).sent).sent =
      (if lastSent events = some 0 then choice (cameraCommand (Page.run events).gKeys)
        else none).or (choice (Session.run (Page.run events).sent).sent) := by
    rw [hrun, Cnc.run_concat, Session.dataReceived, choice_append, choice_keyCommands]
    rfl
  have hmode : (choice (Session.run (Page.run (events ++ [.sample speed])).sent).sent = none ∧
      (Page.run events).camMode = "RGB") ∨ ∃ source, (Page.run events).camMode = modeName source ∧
        choice (Session.run (Page.run (events ++ [.sample speed])).sent).sent = some source := by
    rw [hchoice]
    -- a command that is sent now is that of the key that has set the mode
    by_cases hnew : ∃ source, lastSent events = some 0 ∧
        choice (cameraCommand (Page.run events).gKeys) = some source
    · obtain ⟨source, hzero, hnew⟩ := hnew
      obtain ⟨key, hbit, hsource⟩ := choice_cameraCommand_some hnew
      rw [if_pos hzero, hnew, Option.some_or]
      exact Or.inr ⟨source, h.pending key source hsource hzero hbit, rfl⟩
    · have hnone : (if lastSent events = some 0 then choice (cameraCommand (Page.run events).gKeys)
          else none) = none := by
        split_ifs with hzero
        · cases hfound : choice (cameraCommand (Page.run events).gKeys) with
          | none => rfl
          | some source => exact absurd ⟨source, hzero, hfound⟩ hnew
        · rfl
      rw [hnone, Option.none_or]
      rcases h.mode with hstart | ⟨source, hcam, hchosen | ⟨key, hsource, hzero, hbit⟩⟩
      · exact Or.inl hstart
      · exact Or.inr ⟨source, hcam, hchosen⟩
      · refine absurd ⟨source, hzero, ?_⟩ hnew
        rw [hbit, choice_cameraCommand, hsource]
  have hsame : (Page.run (events ++ [.sample speed])).camMode = (Page.run events).camMode := by
    rw [hrun]
  rw [← hsame] at hmode
  refine ⟨⟨?_, ?_⟩, hmode⟩
  · intro key source _ hzero hbit
    rw [hlast, Option.some.injEq] at hzero
    have hkeys : (Page.run (events ++ [.sample speed])).gKeys = (Page.run events).gKeys := by
      rw [hrun]
    have hpos := bit_pos key
    omega
  · rcases hmode with hstart | ⟨source, hcam, hchosen⟩
    · exact Or.inl hstart
    · exact Or.inr ⟨source, hcam, Or.inl hchosen⟩

theorem agree_run {events : List PageEvent} (hunhurried : Unhurried events)
    (halone : ModesAlone events) : Agree events := by
  induction events using List.reverseRecOn with
  | nil =>
    refine ⟨fun key source _ hzero _ => ?_, Or.inl ⟨rfl, rfl⟩⟩
    cases hzero
  | append_singleton events event ih =>
    have hbefore := ih
      (fun pre e hpre => hunhurried pre e (hpre.trans (List.prefix_append events [event])))
      (fun pre e hpre => halone pre e (hpre.trans (List.prefix_append events [event])))
    cases event with
    | sample speed => exact (agree_sample hbefore speed).1
    | keydown code | keyup code | reset =>
      apply agree_handled hbefore
      · intro speed hspeed
        cases hspeed
      · exact hunhurried events _ List.prefix_rfl
      · intro hchanged
        exact gKeys_zero (halone events _ List.prefix_rfl hchanged)

/-! ## The robot -/

theorem known_session (messages : List KeyMessage) :
    ∀ c ∈ (Session.run messages).sent, Known c := by
  induction messages using List.reverseRecOn with
  | nil =>
    intro c hc
    cases hc
  | append_singleton messages message ih =>
    intro c hc
    rw [Cnc.run_concat, Session.dataReceived] at hc
    rcases List.mem_append.1 hc with hc | hc
    · exact ih c hc
    · exact known_keyCommands _ _ c hc

/-- If the keys change only when the server knows them, and the mode only while
no key is held, then behind every sample the robot shows the mode that the page
names, once a mode was chosen. -/
theorem mode_of_keys {cmds : List SendCmd} {calls : List Cnc.RecvCall} (buffer : Int → UInt8)
    (hstream : calls.flatMap Cnc.RecvCall.block = cmds.flatMap sendCmd)
    (hwhole : ∀ call ∈ calls, call.Whole ∨ call.block = []) {events : List PageEvent} {speed : Int}
    (hcmds : cmds.filter (fun c => c.command ≠ 0x30) =
      (Session.run (Page.run (events ++ [.sample speed])).sent).sent)
    (hunhurried : Unhurried (events ++ [.sample speed]))
    (halone : ModesAlone (events ++ [.sample speed])) :
    (∃ source, (Page.run events).camMode = modeName source ∧
        (Video.run ((mainCncWait buffer calls).1.map Prod.snd)).altVideoSource = frameOf source) ∨
      ((Page.run events).camMode = "RGB" ∧ choice cmds = none ∧
        (Video.run ((mainCncWait buffer calls).1.map Prod.snd)).altVideoSource =
          some .mapFrame) := by
  have hknown : ∀ c ∈ cmds, Known c := by
    intro c hc
    by_cases h : c.command = 0x30
    · exact (choice_metrics h).1
    · apply known_session (Page.run (events ++ [.sample speed])).sent
      rw [← hcmds]
      exact List.mem_filter.2 ⟨hc, by simpa using h⟩
  have hcam : (Page.run (events ++ [.sample speed])).camMode = (Page.run events).camMode := by
    rw [Web.run_concat]
    rfl
  have hagree := agree_run
    (fun pre e hpre => hunhurried pre e (hpre.trans (List.prefix_append events [.sample speed])))
    (fun pre e hpre => halone pre e (hpre.trans (List.prefix_append events [.sample speed])))
  have hmode := (agree_sample hagree speed).2
  rw [← hcmds, choice_filter, hcam] at hmode
  rw [mainCncWait_dispatches hknown hwhole hstream, shown_of_actions]
  show (∃ source, _ ∧ frameOf ((choice cmds).getD .mapFrame) = frameOf source) ∨
    (_ ∧ _ ∧ frameOf ((choice cmds).getD .mapFrame) = _)
  rcases hmode with ⟨hnone, hstart⟩ | ⟨source, hname, hchosen⟩
  · rw [hnone]
    exact Or.inr ⟨hstart, rfl, rfl⟩
  · rw [hchosen]
    exact Or.inl ⟨source, hname, rfl⟩

theorem unhurried_of_checked {events : List PageEvent}
    (h : Runs.checkedCuts (fun pre event =>
      (Page.run (pre ++ [event])).gKeys = (Page.run pre).gKeys ∨
        lastSent pre = some ((Page.run pre).gKeys : Int)) [] events = true) :
    Unhurried events := by
  intro pre event hpre hkeys
  have hcheck := of_decide_eq_true (Runs.of_checkedCuts h hpre)
  exact hcheck.resolve_left hkeys

theorem modesAlone_of_checked {events : List PageEvent}
    (h : Runs.checkedCuts (fun pre event =>
      (Page.run (pre ++ [event])).camMode = (Page.run pre).camMode ∨ (Page.run pre).gKeys = 0)
        [] events = true) : ModesAlone events := by
  intro pre event hpre hmode key
  have hcheck := of_decide_eq_true (Runs.of_checkedCuts h hpre)
  have hzero : (Page.run pre).gKeys = 0 := hcheck.resolve_left hmode
  rw [← gKeys_testBit, hzero, Nat.zero_testBit]

/-- F2, and then F5. -/
def modePage : List PageEvent :=
  [.sample 50, .keydown 113, .sample 50, .keyup 113, .sample 50, .keydown 116]

/-- The commands for it, with a request for metrics. -/
def modeCmds : List SendCmd := [⟨0x20, 0x02, 0x00⟩, ⟨0x30, 0x00, 0x00⟩, ⟨0x21, 0x00, 0x00⟩]

/-- The robot shows the walls. -/
theorem mode_of_keys_walls :
    (Video.run ((mainCncWait (fun _ => 0) (modeCmds.map fun c =>
      ⟨some (sendCmd c), false⟩)).1.map Prod.snd)).altVideoSource = some .wallFrame := by
  have hmode := @mode_of_keys modeCmds (modeCmds.map fun c => ⟨some (sendCmd c), false⟩)
    (fun _ => 0) (by decide) (by decide) modePage 50 (by decide)
    (unhurried_of_checked (by decide)) (modesAlone_of_checked (by decide))
  rcases hmode with ⟨source, hname, hshown⟩ | ⟨hname, -, -⟩
  · have hwalls : (Page.run modePage).camMode = modeName .wallFrame := by decide
    rw [hshown, modeName_inj (hname.symm.trans hwalls)]
    rfl
  · exact absurd hname (by decide)

end MinotaurRobot.Link
