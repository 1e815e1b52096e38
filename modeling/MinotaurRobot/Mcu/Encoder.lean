import Mathlib.Data.Fintype.Option
import Mathlib.Tactic.Common

/-!
# The motor encoders

`_T3Interrupt` of `main.c` samples the two channels of each motor encoder and
counts ticks.  The four samples form a cycle, `00, 01, 11, 10` forwards, and
the interrupt counts on two of its eight directed edges only: it adds a tick
when the wheel leaves `00` for `01` and takes one off when it leaves `00` for
`10`.

A wheel that turns one way is counted once per turn of the cycle.  A wheel
that goes back over the edge it came from is not: `00, 01, 00` ends where it
began with one tick more.  `countWalk_close_iff` says exactly when the count
stays close to the true rotation.  Number the crossings of the two edges at
`00` in the order they happen; the count is off by less than one tick, all
the way, exactly when the crossings come in pairs of two different edges.

The proof carries `drift`, four times the count less the net number of steps,
as a function of where the walk began, where it is, and whether a crossing
still waits for its partner.
-/

namespace MinotaurRobot.Mcu

/-! ## The interrupt -/

/-- What the two channel pins of one encoder read. -/
structure Sample where
  ch1 : Bool
  ch2 : Bool
  deriving DecidableEq, Repr

instance : Fintype Sample where
  elems := {⟨false, false⟩, ⟨false, true⟩, ⟨true, true⟩, ⟨true, false⟩}
  complete := by rintro ⟨_ | _, _ | _⟩ <;> decide

/-- `currentstate = ch1 | ch2`, with `ch1` shifted into the high nibble. -/
def currentstate (s : Sample) : UInt8 :=
  let ch1 : UInt8 := if s.ch1 then 1 else 0
  let ch2 : UInt8 := if s.ch2 then 1 else 0
  (ch1 <<< 4) ||| ch2

/-- One encoder: `PREV_ENCODER_LEFT` and `LEFT_TICKS`, or the right pair.  The
counter is kept unbounded; its readers take the two low bytes only. -/
structure Encoder where
  prev : UInt8
  ticks : Int
  deriving DecidableEq, Repr

/-- The switch on the previous state that both encoders share. -/
def quadrature (e : Encoder) (current : UInt8) : Encoder :=
  if e.prev = 0x00 then
    if current = 0x01 then ⟨0x01, e.ticks + 1⟩
    else if current = 0x10 then ⟨0x10, e.ticks - 1⟩
    else e
  else if e.prev = 0x01 then
    if current = 0x00 then ⟨0x00, e.ticks⟩
    else if current = 0x11 then ⟨0x11, e.ticks⟩
    else e
  else if e.prev = 0x11 then
    if current = 0x10 then ⟨0x10, e.ticks⟩
    else if current = 0x01 then ⟨0x01, e.ticks⟩
    else e
  else if e.prev = 0x10 then
    if current = 0x00 then ⟨0x00, e.ticks⟩
    else if current = 0x11 then ⟨0x11, e.ticks⟩
    else e
  else e

/-- The four encoder pins of port D. -/
structure PortD where
  rd8 : Bool
  rd9 : Bool
  rd10 : Bool
  rd11 : Bool
  deriving DecidableEq, Repr

def PortD.left (p : PortD) : Sample := ⟨p.rd10, p.rd11⟩

def PortD.right (p : PortD) : Sample := ⟨p.rd8, p.rd9⟩

/-- `switch(PREV_ENCODER_LEFT)`. -/
def leftSwitch (e : Encoder) (current : UInt8) : Encoder := quadrature e current

/-- `switch(PREV_ENCODER_RIGHT)`.  Its case `0x10` has no `break` and falls
into the empty default case. -/
def rightSwitch (e : Encoder) (current : UInt8) : Encoder := quadrature e current

/-- The encoder variables of the microcontroller. -/
structure Encoders where
  left : Encoder
  right : Encoder
  deriving DecidableEq, Repr

/-- The encoder variables as `main.c` initialises them. -/
def Encoders.init : Encoders := ⟨⟨0, 0⟩, ⟨0, 0⟩⟩

/-- `_T3Interrupt`. -/
def t3Interrupt (e : Encoders) (pins : PortD) : Encoders where
  left := leftSwitch e.left (currentstate pins.left)
  right := rightSwitch e.right (currentstate pins.right)

/-- A run of the interrupt over a sequence of pin samples. -/
def t3Run (e : Encoders) (pins : List PortD) : Encoders := pins.foldl t3Interrupt e

/-- The same run for one encoder. -/
def countWalk (e : Encoder) (walk : List Sample) : Encoder :=
  walk.foldl (fun e s => quadrature e (currentstate s)) e

/-- The two encoders do not disturb each other. -/
theorem t3Run_eq (e : Encoders) (pins : List PortD) :
    t3Run e pins =
      ⟨countWalk e.left (pins.map PortD.left), countWalk e.right (pins.map PortD.right)⟩ := by
  induction pins generalizing e with
  | nil => rfl
  | cons p pins ih => exact ih (t3Interrupt e p)

/-! ## Gray code walks -/

/-- Two samples that agree in at least one channel. -/
def Adjacent (s t : Sample) : Prop := s.ch1 = t.ch1 ∨ s.ch2 = t.ch2

instance (s t : Sample) : Decidable (Adjacent s t) := inferInstanceAs (Decidable (_ ∨ _))

/-- Every sample repeats the one before it or differs from it in one channel. -/
def IsWalk (start : Sample) (walk : List Sample) : Prop :=
  List.IsChain Adjacent (start :: walk)

instance (start : Sample) (walk : List Sample) : Decidable (IsWalk start walk) :=
  inferInstanceAs (Decidable (List.IsChain Adjacent _))

/-- The position of a sample in the forward cycle `00, 01, 11, 10`. -/
def phase (s : Sample) : Int :=
  match s.ch1, s.ch2 with
  | false, false => 0
  | false, true => 1
  | true, true => 2
  | true, false => 3

/-- The signed Gray step between two adjacent samples. -/
def grayStep (s t : Sample) : Int :=
  if s = t then 0 else if phase t = (phase s + 1) % 4 then 1 else -1

/-- The net signed number of Gray steps of a walk. -/
def netSteps : Sample → List Sample → Int
  | _, [] => 0
  | s, t :: walk => grayStep s t + netSteps t walk

/-- The two edges of the cycle that meet at `00`, named by their other end. -/
inductive Edge where
  | at01
  | at10
  deriving DecidableEq, Repr

instance : Fintype Edge where
  elems := {.at01, .at10}
  complete := by rintro (_ | _) <;> decide

/-- The edge at `00` that a step crosses, in either direction. -/
def crossing (s t : Sample) : Option Edge :=
  if s = ⟨false, false⟩ then
    if t = ⟨false, true⟩ then some .at01
    else if t = ⟨true, false⟩ then some .at10
    else none
  else if t = ⟨false, false⟩ then
    if s = ⟨false, true⟩ then some .at01
    else if s = ⟨true, false⟩ then some .at10
    else none
  else none

/-- The edges at `00` that a walk crosses, in order. -/
def crossings : Sample → List Sample → List Edge
  | _, [] => []
  | s, t :: walk => (crossing s t).toList ++ crossings t walk

/-- The edges, taken two by two from the front, form pairs of two different
edges. -/
def Paired : List Edge → Prop
  | e :: e' :: es => e ≠ e' ∧ Paired es
  | _ => True

instance instDecidablePaired : (es : List Edge) → Decidable (Paired es)
  | [] => isTrue trivial
  | [_] => isTrue trivial
  | e :: e' :: es =>
    have : Decidable (Paired es) := instDecidablePaired es
    inferInstanceAs (Decidable (e ≠ e' ∧ Paired es))

/-- Four times the change of the count, less the net number of steps. -/
def countError (e : Encoder) (start : Sample) (walk : List Sample) : Int :=
  4 * ((countWalk e walk).ticks - e.ticks) - netSteps start walk

/-! ## The drift of the count -/

/-- The ticks that one step adds to the count. -/
def tickOf (s t : Sample) : Int :=
  if s = ⟨false, false⟩ then
    if t = ⟨false, true⟩ then 1 else if t = ⟨true, false⟩ then -1 else 0
  else 0

/-- The four values of `currentstate`. -/
theorem currentstate_values :
    currentstate ⟨false, false⟩ = 0x00 ∧ currentstate ⟨false, true⟩ = 0x01 ∧
      currentstate ⟨true, true⟩ = 0x11 ∧ currentstate ⟨true, false⟩ = 0x10 := by
  decide

/-- On adjacent samples the switch follows the sample and adds `tickOf`. -/
theorem quadrature_step {s t : Sample} (h : Adjacent s t) (n : Int) :
    quadrature ⟨currentstate s, n⟩ (currentstate t) =
      ⟨currentstate t, n + tickOf s t⟩ := by
  rcases s with ⟨_ | _, _ | _⟩ <;> rcases t with ⟨_ | _, _ | _⟩ <;>
    first
      | exact absurd h (by decide)
      | simp [quadrature, currentstate_values, tickOf, Int.sub_eq_add_neg]

/-- The value of `countError` while the crossings so far are paired, for a
walk from `start` that is now at `s`, with `pending` the last crossing if it
has no partner yet. -/
def drift (start s : Sample) (pending : Option Edge) : Int :=
  if start = ⟨false, false⟩ then
    match pending with
    | none => 0
    | some .at01 => 4 - phase s
    | some .at10 => -phase s
  else
    match pending with
    | none => phase start - phase s
    | some .at01 => phase start
    | some .at10 => phase start - 4

/-- A walk from `00` has a crossing waiting while it is away from `00`, any
other walk while it is at `00`. -/
def Waiting (start s : Sample) (pending : Option Edge) : Prop :=
  pending.isSome ↔ ((start = ⟨false, false⟩) ↔ s ≠ ⟨false, false⟩)

instance (start s : Sample) (pending : Option Edge) :
    Decidable (Waiting start s pending) := inferInstanceAs (Decidable (_ ↔ _))

/-- No crossing waits at the start of a walk, and the count is not off. -/
theorem drift_start (start : Sample) :
    Waiting start start none ∧ drift start start none = 0 := by
  revert start
  decide

theorem drift_bound (start s : Sample) (pending : Option Edge)
    (h : Waiting start s pending) : (drift start s pending).natAbs < 4 := by
  revert start s pending
  decide

/-- A step that crosses no edge at `00` keeps the pending crossing. -/
theorem drift_plain (start s t : Sample) (pending : Option Edge)
    (ha : Adjacent s t) (hw : Waiting start s pending) (hc : crossing s t = none) :
    Waiting start t pending ∧
      drift start s pending + (4 * tickOf s t - grayStep s t) = drift start t pending := by
  revert start s t pending
  decide

/-- A crossing that starts a pair leaves it pending. -/
theorem drift_open (start s t : Sample) (e : Edge)
    (ha : Adjacent s t) (hw : Waiting start s none) (hc : crossing s t = some e) :
    Waiting start t (some e) ∧
      drift start s none + (4 * tickOf s t - grayStep s t) = drift start t (some e) := by
  revert start s t e
  decide

/-- A crossing of the other edge closes the pair. -/
theorem drift_close (start s t : Sample) (e e' : Edge)
    (ha : Adjacent s t) (hw : Waiting start s (some e)) (hc : crossing s t = some e')
    (hne : e ≠ e') :
    Waiting start t none ∧
      drift start s (some e) + (4 * tickOf s t - grayStep s t) = drift start t none := by
  revert start s t e e'
  decide

/-- A crossing of the same edge puts the count off by a whole tick. -/
theorem drift_bounce (start s t : Sample) (e : Edge)
    (ha : Adjacent s t) (hw : Waiting start s (some e)) (hc : crossing s t = some e) :
    4 ≤ (drift start s (some e) + (4 * tickOf s t - grayStep s t)).natAbs := by
  revert start s t e
  decide

/-! ## The run over a walk -/

/-- One more sample adds its own step to the error. -/
theorem countError_cons {e : Encoder} {s t : Sample} (ha : Adjacent s t)
    (he : e.prev = currentstate s) (walk : List Sample) :
    countError e s (t :: walk) =
      (4 * tickOf s t - grayStep s t) +
        countError ⟨currentstate t, e.ticks + tickOf s t⟩ t walk := by
  have hstep : quadrature e (currentstate t) = ⟨currentstate t, e.ticks + tickOf s t⟩ := by
    rw [← quadrature_step ha, ← he]
  rw [countError, countError, countWalk, List.foldl_cons, hstep, ← countWalk, netSteps]
  dsimp only
  omega

/-- The induction over the walk, from a state with a crossing possibly
pending.  The error so far is `drift start s pending`. -/
private theorem countWalk_close_aux (start : Sample) :
    ∀ (walk : List Sample) (s : Sample) (e : Encoder) (pending : Option Edge),
      IsWalk s walk → e.prev = currentstate s → Waiting start s pending →
      ((∀ k, (drift start s pending + countError e s (walk.take k)).natAbs < 4) ↔
        Paired (pending.toList ++ crossings s walk)) := by
  intro walk
  induction walk with
  | nil =>
    intro s e pending _ _ hw
    have hpaired : Paired (pending.toList ++ crossings s []) := by
      cases pending <;> exact trivial
    refine ⟨fun _ => hpaired, fun _ k => ?_⟩
    have hzero : countError e s [] = 0 := by
      rw [countError, countWalk, List.foldl_nil, netSteps]
      omega
    rw [List.take_nil, hzero, Int.add_zero]
    exact drift_bound start s pending hw
  | cons t walk ih =>
    intro s e pending hwalk he hw
    obtain ⟨ha, htail⟩ := List.isChain_cons_cons.1 hwalk
    have hstart : (drift start s pending + countError e s []).natAbs < 4 := by
      have hb := drift_bound start s pending hw
      rw [countError, countWalk, List.foldl_nil, netSteps]
      omega
    -- the error at every later point, measured from the sample `t`
    have hshift : (∀ k, (drift start s pending +
          countError e s ((t :: walk).take k)).natAbs < 4) ↔
        ∀ k, (drift start s pending + (4 * tickOf s t - grayStep s t) +
          countError ⟨currentstate t, e.ticks + tickOf s t⟩ t
            (walk.take k)).natAbs < 4 := by
      refine ⟨fun h k => ?_, fun h k => ?_⟩
      · have hk := h (k + 1)
        rwa [List.take_succ_cons, countError_cons ha he, ← Int.add_assoc] at hk
      · cases k with
        | zero => exact hstart
        | succ k =>
          rw [List.take_succ_cons, countError_cons ha he, ← Int.add_assoc]
          exact h k
    rw [hshift, crossings]
    cases hc : crossing s t with
    | none =>
      obtain ⟨hw', hd⟩ := drift_plain start s t pending ha hw hc
      rw [hd, Option.toList_none, List.nil_append]
      exact ih t _ pending htail rfl hw'
    | some e' =>
      cases pending with
      | none =>
        obtain ⟨hw', hd⟩ := drift_open start s t e' ha hw hc
        rw [hd]
        exact ih t _ (some e') htail rfl hw'
      | some e =>
        by_cases hne : e = e'
        · subst hne
          have hoff := drift_bounce start s t e ha hw hc
          refine ⟨fun h => ?_, fun h => absurd rfl h.1⟩
          have h0 := h 0
          rw [List.take_zero, countError, countWalk, List.foldl_nil, netSteps] at h0
          omega
        · obtain ⟨hw', hd⟩ := drift_close start s t e e' ha hw hc hne
          rw [hd]
          refine Iff.trans (ih t _ none htail rfl hw') ?_
          exact ⟨fun h => ⟨hne, h⟩, fun h => h.2⟩

/-- The count of one encoder stays within a tick of a quarter of the net
number of Gray steps, at every point of the walk, exactly when the crossings
of the two edges at `00` pair up. -/
theorem countWalk_close_iff {e : Encoder} {start : Sample} {walk : List Sample}
    (hwalk : IsWalk start walk) (he : e.prev = currentstate start) :
    (∀ k, (countError e start (walk.take k)).natAbs < 4) ↔
      Paired (crossings start walk) := by
  obtain ⟨hw, hd⟩ := drift_start start
  have h := countWalk_close_aux start walk start e none hwalk he hw
  simpa only [hd, Int.zero_add, Option.toList_none, List.nil_append] using h

/-- Every run of the T3 interrupt over two Gray code walks. For each wheel,
the change of its tick count stays within one tick of a quarter of the net
signed number of Gray steps, at every point of the run, if and only if the
crossings of the edges at `00` come in pairs of different edges. -/
theorem t3Run_counts_close_iff {e : Encoders} {pins : List PortD}
    {left right : Sample}
    (hleft : e.left.prev = currentstate left)
    (hright : e.right.prev = currentstate right)
    (hwalkLeft : IsWalk left (pins.map PortD.left))
    (hwalkRight : IsWalk right (pins.map PortD.right)) :
    ((∀ k, (4 * ((t3Run e (pins.take k)).left.ticks - e.left.ticks) -
          netSteps left ((pins.take k).map PortD.left)).natAbs < 4) ↔
        Paired (crossings left (pins.map PortD.left))) ∧
      ((∀ k, (4 * ((t3Run e (pins.take k)).right.ticks - e.right.ticks) -
          netSteps right ((pins.take k).map PortD.right)).natAbs < 4) ↔
        Paired (crossings right (pins.map PortD.right))) := by
  have hl := countWalk_close_iff (e := e.left) hwalkLeft hleft
  have hr := countWalk_close_iff (e := e.right) hwalkRight hright
  simp only [t3Run_eq, List.map_take, countError] at hl hr ⊢
  exact ⟨hl, hr⟩

/-- One turn of the left wheel, the right wheel at rest. -/
def leftTurn : List PortD :=
  [⟨false, false, false, true⟩, ⟨false, false, true, true⟩,
    ⟨false, false, true, false⟩, ⟨false, false, false, false⟩]

theorem t3Run_counts_close_leftTurn :
    (4 * ((t3Run Encoders.init (leftTurn.take 4)).left.ticks - 0) -
      netSteps ⟨false, false⟩ ((leftTurn.take 4).map PortD.left)).natAbs < 4 :=
  (@t3Run_counts_close_iff Encoders.init leftTurn ⟨false, false⟩ ⟨false, false⟩
    (by decide) (by decide) (by decide) (by decide)).1.2 (by decide) 4

/-- A wheel that rocks over the edge between `00` and `01` and comes to rest
where it began is counted a tick forwards. -/
theorem t3Run_rocking_counts :
    IsWalk ⟨false, false⟩ [⟨false, true⟩, ⟨false, false⟩] ∧
      netSteps ⟨false, false⟩ [⟨false, true⟩, ⟨false, false⟩] = 0 ∧
      (t3Run Encoders.init
        [⟨false, false, false, true⟩, ⟨false, false, false, false⟩]).left.ticks = 1 ∧
      ¬ (4 * ((t3Run Encoders.init
          [⟨false, false, false, true⟩, ⟨false, false, false, false⟩]).left.ticks - 0) -
        netSteps ⟨false, false⟩ [⟨false, true⟩, ⟨false, false⟩]).natAbs < 4 := by
  decide

end MinotaurRobot.Mcu
