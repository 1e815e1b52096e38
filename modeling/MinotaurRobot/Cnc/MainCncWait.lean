import Mathlib.Data.List.TakeWhile
import Mathlib.Tactic.Common

/-!
# The command thread of the robot

`mainCncWait` takes three-byte commands from the C&C server.  Each round of
its loop calls `recv` once, for at most three bytes, and nothing is kept from
one round to the next.  A round that gets fewer than three bytes does not wait
for the rest: the length test throws.

`mainCncWait_segmented` says what the loop makes of a stream of commands, for
every way the stream is cut, and which cuts lose nothing.

The motor command, the pictures and the metrics go to other parts of the
robot.  They are actions here, and so is the choice of a video source.
-/

namespace MinotaurRobot.Cnc

/-! ## The server -/

/-- The arguments of `Minotaur.sendCmd` in `cnc.py`. -/
structure SendCmd where
  command : Int
  data1 : Int
  data2 : Int
  deriving DecidableEq, Repr

/-- `chr(command % 256)`, `chr(data1 % 256)` and `chr(data2 % 256)`. -/
def sendCmd (c : SendCmd) : List UInt8 :=
  [UInt8.ofInt c.command, UInt8.ofInt c.data1, UInt8.ofInt c.data2]

/-! ## The robot -/

/-- `CNCCommand`. -/
structure CNCCommand where
  command : UInt8
  /-- `udata8[0]`. -/
  udata8Fst : UInt8
  /-- `udata8[1]`. -/
  udata8Snd : UInt8
  deriving DecidableEq, Repr

/-- `udata16`, on a little-endian host. -/
def CNCCommand.udata16 (c : CNCCommand) : UInt16 :=
  UInt16.ofNat (c.udata8Fst.toNat + 256 * c.udata8Snd.toNat)

/-- The frame sources that `mainCncWait` registers. -/
inductive FrameSource where
  | posFrameXYZ
  | posFrameX
  | posFrameY
  | posFrameZ
  | mapFrame
  | wallFrame
  | live
  deriving DecidableEq, Repr

/-- What a command makes the robot do. -/
inductive Action where
  | sendpacket (command : UInt8) (data : UInt16)
  | dumpVideo
  | chooseSource (source : FrameSource)
  /-- A `PosFrame` command with a number that names no source. -/
  | noSource
  | metrics
  deriving DecidableEq, Repr

/-- The text of the exception for a short message. -/
def lengthError : String := "Invalid Command packet length from CNC Server.\n"

/-- The text of the exception for an unknown command. -/
def commandError : String := "Invalid Command pakcet cmdNumber from CNC Server.\n"

/-- The switch of the `PosFrame` command. -/
def posFrame (udata16 : UInt16) : Action :=
  if udata16 = 0x01 then .chooseSource .posFrameX
  else if udata16 = 0x02 then .chooseSource .posFrameY
  else if udata16 = 0x04 then .chooseSource .posFrameZ
  else if udata16 = 0x07 then .chooseSource .posFrameXYZ
  else .noSource

/-- The switch on the command. -/
def dispatch (c : CNCCommand) : Except String Action :=
  if c.command = 0x01 then .ok (.sendpacket c.command c.udata16)
  else if c.command = 0x10 then .ok .dumpVideo
  else if c.command = 0x20 then .ok (posFrame c.udata16)
  else if c.command = 0x21 then .ok (.chooseSource .wallFrame)
  else if c.command = 0x22 then .ok (.chooseSource .mapFrame)
  else if c.command = 0x23 then .ok (.chooseSource .live)
  else if c.command = 0x30 then .ok .metrics
  else .error commandError

/-- One call of `recv`: the bytes it stores, or nothing when it returns `-1`,
and whether `errno` equals `EWOULDBLOCK` behind it. -/
structure RecvCall where
  stored : Option (List UInt8)
  wouldBlock : Bool
  deriving DecidableEq, Repr

/-- The bytes that a call hands out. -/
def RecvCall.block (call : RecvCall) : List UInt8 := call.stored.getD []

/-- The result of `recv`. -/
def RecvCall.cnt (call : RecvCall) : Int :=
  match call.stored with
  | some block => block.length
  | none => -1

/-- `cnc_checkmsg`.  Cell `-1` of `cnc_buffer` is the byte in front of the
array: a failed call writes it. -/
def cncCheckmsg (buffer : Int → UInt8) (call : RecvCall) : (Int → UInt8) × Int :=
  let stored : Int → UInt8 := fun i =>
    if 0 ≤ i then (call.block[i.toNat]?).getD (buffer i) else buffer i
  (fun i => if i = call.cnt then 0 else stored i, call.cnt)

/-- One round of the loop.  Returns the buffer and the command that was
dispatched, if any, with its action. -/
def cncRound (buffer : Int → UInt8) (call : RecvCall) :
    Except String ((Int → UInt8) × Option (CNCCommand × Action)) :=
  let (buffer, datalen) := cncCheckmsg buffer call
  if !call.wouldBlock && datalen > 0 then
    if datalen ≠ 3 then .error lengthError
    else do
      let cncCmd : CNCCommand :=
        { command := buffer 0, udata8Fst := buffer 1, udata8Snd := buffer 2 }
      let action ← dispatch cncCmd
      return (buffer, some (cncCmd, action))
  else return (buffer, none)

/-- The loop: the commands dispatched, and the exception that ended it. -/
def mainCncWait : (Int → UInt8) → List RecvCall → List (CNCCommand × Action) × Option String
  | _, [] => ([], none)
  | buffer, call :: calls =>
    match cncRound buffer call with
    | .error e => ([], some e)
    | .ok (buffer, done) =>
      let (rest, thrown) := mainCncWait buffer calls
      (done.toList ++ rest, thrown)

/-! ## One round -/

/-- The command that arrives. -/
def SendCmd.received (c : SendCmd) : CNCCommand :=
  { command := UInt8.ofInt c.command
    udata8Fst := UInt8.ofInt c.data1
    udata8Snd := UInt8.ofInt c.data2 }

/-- The dispatcher knows a command. -/
def Known (c : SendCmd) : Prop := ∃ action, dispatch c.received = .ok action

/-- A command with the action that it stands for. -/
def expected (c : SendCmd) : List (CNCCommand × Action) :=
  match dispatch c.received with
  | .ok action => [(c.received, action)]
  | .error _ => []

theorem expected_of_known {c : SendCmd} (h : Known c) :
    ∃ action, dispatch c.received = .ok action ∧ expected c = [(c.received, action)] := by
  obtain ⟨action, haction⟩ := h
  exact ⟨action, haction, by rw [expected, haction]⟩

/-- A call that hands out a whole command, with `errno` clear behind it. -/
def RecvCall.Whole (call : RecvCall) : Prop := call.block.length = 3 ∧ call.wouldBlock = false

instance (call : RecvCall) : Decidable call.Whole := inferInstanceAs (Decidable (_ ∧ _))

/-- A call that hands out bytes returns their number. -/
theorem RecvCall.cnt_of_pos {call : RecvCall} (h : 0 < call.block.length) :
    call.cnt = call.block.length := by
  obtain ⟨stored, wouldBlock⟩ := call
  cases stored with
  | none => simp [RecvCall.block] at h
  | some block => rfl

theorem RecvCall.block_pos_of_cnt {call : RecvCall} (h : 1 ≤ call.cnt) :
    0 < call.block.length := by
  obtain ⟨stored, wouldBlock⟩ := call
  cases stored with
  | none => simp [RecvCall.cnt] at h
  | some block =>
    simp only [RecvCall.cnt] at h
    simp only [RecvCall.block, Option.getD_some]
    omega

/-- A round that gets a whole command dispatches it. -/
theorem cncRound_whole {c : SendCmd} (h : Known c) (buffer : Int → UInt8) {call : RecvCall}
    (hblock : call.block = sendCmd c) (hclear : call.wouldBlock = false) :
    ∃ buffer' done, cncRound buffer call = .ok (buffer', done) ∧ done.toList = expected c := by
  obtain ⟨action, haction, hexpected⟩ := expected_of_known h
  have hcnt : call.cnt = 3 := by
    rw [RecvCall.cnt_of_pos (by rw [hblock]; simp [sendCmd]), hblock]
    rfl
  have hcmd : CNCCommand.mk ((cncCheckmsg buffer call).1 0) ((cncCheckmsg buffer call).1 1)
      ((cncCheckmsg buffer call).1 2) = c.received := by
    simp [cncCheckmsg, hcnt, hblock, sendCmd, SendCmd.received]
  refine ⟨(cncCheckmsg buffer call).1, some (c.received, action), ?_, ?_⟩
  · have hlen : (cncCheckmsg buffer call).2 = 3 := hcnt
    simp only [cncRound, hlen, hclear, hcmd, haction]
    rfl
  · rw [hexpected]
    rfl

/-- A round that gets a part of a command throws. -/
theorem cncRound_short {call : RecvCall} (hclear : call.wouldBlock = false)
    (hpos : 0 < call.block.length) (hshort : call.block.length ≠ 3) (buffer : Int → UInt8) :
    cncRound buffer call = .error lengthError := by
  have hcnt := RecvCall.cnt_of_pos hpos
  simp only [cncRound, cncCheckmsg, hclear, hcnt]
  rw [if_pos (by simpa using hpos), if_pos (by omega)]

/-- A round that takes no byte leaves the loop going. -/
theorem cncRound_idle {call : RecvCall} (h : call.wouldBlock = true ∨ call.block = [])
    (buffer : Int → UInt8) : cncRound buffer call = .ok ((cncCheckmsg buffer call).1, none) := by
  have hidle : ¬ ((!call.wouldBlock && (cncCheckmsg buffer call).2 > 0) = true) := by
    rcases h with h | h
    · simp [h]
    · obtain ⟨stored, wouldBlock⟩ := call
      cases stored with
      | none => simp [cncCheckmsg, RecvCall.cnt]
      | some block =>
        simp only [RecvCall.block, Option.getD_some] at h
        simp [cncCheckmsg, RecvCall.cnt, h]
  show (if (!call.wouldBlock && (cncCheckmsg buffer call).2 > 0) = true then _ else _) = _
  rw [if_neg hidle]
  rfl

/-- A round that does not throw and did not get a whole command took no byte. -/
theorem cncRound_ok {buffer buffer' : Int → UInt8} {call : RecvCall}
    {done : Option (CNCCommand × Action)} (h : cncRound buffer call = .ok (buffer', done))
    (hwhole : ¬ call.Whole) : done = none ∧ (call.wouldBlock = true ∨ call.block = []) := by
  have htook : call.wouldBlock = true ∨ call.block = [] := by
    by_contra hneither
    obtain ⟨hclear, hbytes⟩ := not_or.mp hneither
    have hclear : call.wouldBlock = false := by simpa using hclear
    have hpos : 0 < call.block.length := List.length_pos_iff.mpr hbytes
    rw [cncRound_short hclear hpos fun h3 => hwhole ⟨h3, hclear⟩] at h
    cases h
  rw [cncRound_idle htook] at h
  cases h
  exact ⟨rfl, htook⟩

/-! ## The whole loop -/

/-- The loop without an exception: every command that was dispatched took
three bytes, and every call that kept `errno` clear was whole or empty. -/
theorem mainCncWait_none {calls : List RecvCall} {buffer : Int → UInt8}
    (hlen : ∀ call ∈ calls, 0 < call.block.length)
    (h : (mainCncWait buffer calls).2 = none) :
    3 * (mainCncWait buffer calls).1.length + (calls.filter RecvCall.wouldBlock).length ≤
        (calls.flatMap RecvCall.block).length ∧
      ∀ call ∈ calls, call.wouldBlock = false → call.Whole := by
  induction calls generalizing buffer with
  | nil => simp [mainCncWait]
  | cons call calls ih =>
    have hpos := hlen call List.mem_cons_self
    have hlen' : ∀ c ∈ calls, 0 < c.block.length := fun c hc => hlen c (List.mem_cons_of_mem _ hc)
    cases hround : cncRound buffer call with
    | error e => simp [mainCncWait, hround] at h
    | ok result =>
      obtain ⟨buffer', done⟩ := result
      simp only [mainCncWait, hround] at h ⊢
      obtain ⟨hcount, hrest⟩ := ih hlen' h
      by_cases hwhole : call.Whole
      · have hdone : done.toList.length ≤ 1 := by cases done <;> simp
        have hblock := hwhole.1
        have hclear := hwhole.2
        refine ⟨?_, List.forall_mem_cons.mpr ⟨fun _ => hwhole, hrest⟩⟩
        simp only [List.length_append, List.flatMap_cons, hblock,
          List.filter_cons_of_neg (by simp [hclear] : ¬ (call.wouldBlock = true))]
        omega
      · obtain ⟨rfl, htook⟩ := cncRound_ok hround hwhole
        have hblocked : call.wouldBlock = true := by
          rcases htook with hblocked | hempty
          · exact hblocked
          · rw [hempty] at hpos
            cases hpos
        refine ⟨?_, List.forall_mem_cons.mpr ⟨fun hclear => by simp [hblocked] at hclear, hrest⟩⟩
        simp only [Option.toList_none, List.nil_append, List.flatMap_cons, List.length_append,
          List.filter_cons_of_pos hblocked, List.length_cons]
        omega

/-- The calls in front of the first one that is cut. -/
def wholeCalls (calls : List RecvCall) : Nat :=
  (calls.takeWhile fun call => decide (call.block.length = 3)).length

/-- With `errno` clear the loop dispatches the commands in front of the first
cut, and the cut throws. -/
theorem mainCncWait_of_clear {cmds : List SendCmd} (hknown : ∀ c ∈ cmds, Known c)
    {calls : List RecvCall} {buffer : Int → UInt8}
    (hlen : ∀ call ∈ calls, 0 < call.block.length)
    (hclear : ∀ call ∈ calls, call.wouldBlock = false)
    (hstream : calls.flatMap RecvCall.block = cmds.flatMap sendCmd) :
    mainCncWait buffer calls =
      ((cmds.take (wholeCalls calls)).flatMap expected,
        if ∀ call ∈ calls, call.Whole then none else some lengthError) := by
  induction calls generalizing buffer cmds with
  | nil => simp [mainCncWait, wholeCalls]
  | cons call calls ih =>
    have hpos := hlen call List.mem_cons_self
    have hclear0 := hclear call List.mem_cons_self
    by_cases h3 : call.block.length = 3
    · cases cmds with
      | nil =>
        rw [List.flatMap_cons] at hstream
        have := congrArg List.length hstream
        simp [h3] at this
      | cons c cmds =>
        rw [List.flatMap_cons, List.flatMap_cons] at hstream
        obtain ⟨hblock, hrest⟩ := List.append_inj hstream (by rw [h3]; rfl)
        obtain ⟨buffer', done, hround, hdone⟩ :=
          cncRound_whole (hknown c List.mem_cons_self) buffer hblock hclear0
        have hwhole : call.Whole := ⟨h3, hclear0⟩
        have hwholes : mainCncWait buffer' calls = _ :=
          ih (fun c hc => hknown c (List.mem_cons_of_mem _ hc))
            (fun c hc => hlen c (List.mem_cons_of_mem _ hc))
            (fun c hc => hclear c (List.mem_cons_of_mem _ hc)) hrest
        simp only [mainCncWait, hround, hwholes, hdone]
        simp [wholeCalls, h3, hwhole]
    · have hround := cncRound_short hclear0 hpos h3 buffer
      have hcut : ¬ ∀ c ∈ call :: calls, c.Whole := fun h => h3 (h call List.mem_cons_self).1
      simp only [mainCncWait, hround, if_neg hcut]
      simp [wholeCalls, h3]

theorem length_flatMap_expected {cmds : List SendCmd} (hknown : ∀ c ∈ cmds, Known c) :
    (cmds.flatMap expected).length = cmds.length := by
  induction cmds with
  | nil => rfl
  | cons c cmds ih =>
    obtain ⟨action, -, hexpected⟩ := expected_of_known (hknown c List.mem_cons_self)
    have ih := ih fun c hc => hknown c (List.mem_cons_of_mem _ hc)
    simp only [List.flatMap_cons, List.length_append, hexpected, ih, List.length_cons,
      List.length_nil]
    omega

theorem length_flatMap_sendCmd (cmds : List SendCmd) :
    (cmds.flatMap sendCmd).length = 3 * cmds.length := by
  induction cmds with
  | nil => rfl
  | cons c cmds ih =>
    simp only [List.flatMap_cons, List.length_append, ih, List.length_cons, sendCmd,
      List.length_nil]
    omega

theorem length_flatMap_whole {calls : List RecvCall} (hwhole : ∀ call ∈ calls, call.Whole) :
    (calls.flatMap RecvCall.block).length = 3 * calls.length := by
  induction calls with
  | nil => rfl
  | cons call calls ih =>
    have hblock := (hwhole call List.mem_cons_self).1
    have ih := ih fun c hc => hwhole c (List.mem_cons_of_mem _ hc)
    simp only [List.flatMap_cons, List.length_append, hblock, ih, List.length_cons]
    omega

theorem wholeCalls_of_whole {calls : List RecvCall} (hwhole : ∀ call ∈ calls, call.Whole) :
    wholeCalls calls = calls.length := by
  rw [wholeCalls, List.takeWhile_eq_self_iff.mpr]
  intro call hcall
  exact decide_eq_true (hwhole call hcall).1

/-- The loop on a stream of known commands, for every way to cut it.  Every
command is dispatched, in order and with its own data, and nothing is thrown
exactly when every call of `recv` hands out a whole command with `errno` clear.
When `errno` stays clear and some call hands out less, the first such call
throws and the commands in front of it are the ones that were dispatched. -/
theorem mainCncWait_segmented {cmds : List SendCmd} (hknown : ∀ c ∈ cmds, Known c)
    {calls : List RecvCall} (buffer : Int → UInt8) (hlen : ∀ call ∈ calls, 1 ≤ call.cnt)
    (hstream : calls.flatMap RecvCall.block = cmds.flatMap sendCmd) :
    (mainCncWait buffer calls = (cmds.flatMap expected, none) ↔ ∀ call ∈ calls, call.Whole) ∧
      ((∀ call ∈ calls, call.wouldBlock = false) →
        mainCncWait buffer calls =
          ((cmds.take (wholeCalls calls)).flatMap expected,
            if ∀ call ∈ calls, call.Whole then none else some lengthError)) := by
  have hpos : ∀ call ∈ calls, 0 < call.block.length := fun call hcall =>
    RecvCall.block_pos_of_cnt (hlen call hcall)
  have hbytes := congrArg List.length hstream
  rw [length_flatMap_sendCmd] at hbytes
  refine ⟨⟨fun h => ?_, fun hwhole => ?_⟩, fun hclear =>
    mainCncWait_of_clear hknown hpos hclear hstream⟩
  · obtain ⟨hcount, hwhole⟩ := mainCncWait_none hpos (congrArg Prod.snd h)
    rw [h, length_flatMap_expected hknown] at hcount
    have hnone : (calls.filter RecvCall.wouldBlock).length = 0 := by omega
    rw [List.length_eq_zero_iff, List.filter_eq_nil_iff] at hnone
    intro call hcall
    exact hwhole call hcall (by simpa using hnone call hcall)
  · have hcalls := length_flatMap_whole hwhole
    rw [mainCncWait_of_clear hknown hpos (fun call hcall => (hwhole call hcall).2) hstream,
      if_pos hwhole, wholeCalls_of_whole hwhole, List.take_of_length_le (by omega)]

/-- A turn to the left and a request for the metrics, one call each. -/
theorem mainCncWait_segmented_turn :
    mainCncWait (fun _ => 0)
        [⟨some [0x01, 0x60, 0xE0], false⟩, ⟨some [0x30, 0x00, 0x00], false⟩] =
      ([(⟨0x01, 0x60, 0xE0⟩, .sendpacket 0x01 0xE060), (⟨0x30, 0x00, 0x00⟩, .metrics)], none) := by
  have hknown : ∀ c ∈ [SendCmd.mk 0x01 0x60 0xE0, ⟨0x30, 0x00, 0x00⟩], Known c := by
    intro c hc
    simp only [List.mem_cons, List.not_mem_nil, or_false] at hc
    rcases hc with rfl | rfl
    · exact ⟨.sendpacket 0x01 0xE060, by decide⟩
    · exact ⟨.metrics, by decide⟩
  exact (mainCncWait_segmented hknown (fun _ => 0) (by decide) (by decide)).1.mpr (by decide)

/-- The bytes of one motor command in two segments: the thread throws. -/
theorem mainCncWait_cut_throws :
    Known ⟨0x01, 0x05, 0x06⟩ ∧
      [RecvCall.mk (some [0x01]) false, ⟨some [0x05, 0x06], false⟩].flatMap RecvCall.block =
        sendCmd ⟨0x01, 0x05, 0x06⟩ ∧
      mainCncWait (fun _ => 0) [⟨some [0x01], false⟩, ⟨some [0x05, 0x06], false⟩] =
        ([], some "Invalid Command packet length from CNC Server.\n") :=
  ⟨⟨.sendpacket 0x01 0x0605, by decide⟩, by decide, by rfl⟩

end MinotaurRobot.Cnc
