import Mathlib.Data.Nat.Bitwise
import MinotaurRobot.Cnc.Keys

/-!
# The page in the browser

The keys of `client.html`.  The page keeps the keys that are held as bits of
`gKeys`, and sends the word and the speed every ten milliseconds.

`gKeys_testBit` says which keys the word holds, and `commanded_sample` takes the
keys to the wheels: the messages go through the server to the last drive
command, and its directions are those of the keys that are held.
-/

namespace MinotaurRobot.Web

open Mcu (Direction)
open Cnc (KeyMessage Session commanded select driveBits checkedSpeed)

/-! ## `client.html` -/

/-- The keys with a constant. -/
inductive Key where
  | w | a | s | d | space | f12 | f1 | f2 | f3 | f4 | f5 | f6 | f7
  deriving DecidableEq, Repr

/-- The place of a key in `gKeys`. -/
def Key.index : Key → ℕ
  | .w => 0
  | .a => 1
  | .s => 2
  | .d => 3
  | .space => 4
  | .f12 => 5
  | .f1 => 6
  | .f2 => 7
  | .f3 => 8
  | .f4 => 9
  | .f5 => 10
  | .f6 => 11
  | .f7 => 12

/-- `KEY_W` to `KEY_F7`. -/
def Key.bit (key : Key) : ℕ := 2 ^ key.index

/-- The branches on `e.keyCode`. -/
def Key.ofCode (code : ℕ) : Option Key :=
  if code = 65 then some .a
  else if code = 83 then some .s
  else if code = 68 then some .d
  else if code = 87 then some .w
  else if code = 32 then some .space
  else if code = 112 then some .f1
  else if code = 113 then some .f2
  else if code = 114 then some .f3
  else if code = 115 then some .f4
  else if code = 116 then some .f5
  else if code = 117 then some .f6
  else if code = 118 then some .f7
  else if code = 123 then some .f12
  else none

/-- What the page writes into `cam_mode` for a key. -/
def Key.cameraMode : Key → Option String
  | .f1 => some "X Depth"
  | .f2 => some "Y Depth"
  | .f3 => some "Z Depth"
  | .f4 => some "XYZ Depth Rainbow"
  | .f5 => some "Walls"
  | .f6 => some "MAP"
  | .f7 => some "RGB"
  | _ => none

structure Page where
  gKeys : ℕ
  /-- The text of `cam_mode`. -/
  camMode : String
  /-- The key messages that were sent. -/
  sent : List KeyMessage

def Page.start : Page := ⟨0, "RGB", []⟩

/-- `onkeydown`. -/
def Page.onkeydown (p : Page) (code : ℕ) : Page :=
  match Key.ofCode code with
  | none => p
  | some key => { p with gKeys := p.gKeys ||| key.bit, camMode := key.cameraMode.getD p.camMode }

/-- `onkeyup`. -/
def Page.onkeyup (p : Page) (code : ℕ) : Page :=
  match Key.ofCode code with
  | none => p
  | some key => { p with gKeys := p.gKeys &&& (0xFFFF ^^^ key.bit) }

/-- The handlers of the page, and the timer of `getKeys`. -/
inductive PageEvent where
  | keydown (code : ℕ)
  | keyup (code : ℕ)
  /-- `onload`, `onfocus` or `onblur`. -/
  | reset
  /-- `getKeys`, with the value of `speedslider`. -/
  | sample (speed : Int)
  deriving DecidableEq

def Page.step (p : Page) : PageEvent → Page
  | .keydown code => p.onkeydown code
  | .keyup code => p.onkeyup code
  | .reset => { p with gKeys := 0 }
  | .sample speed => { p with sent := p.sent ++ [⟨p.gKeys, speed⟩] }

def Page.run (events : List PageEvent) : Page := events.foldl Page.step Page.start

/-! ## The keys that are held -/

/-- What an event says about a key. -/
def PageEvent.about (key : Key) : PageEvent → Option Bool
  | .keydown code => if Key.ofCode code = some key then some true else none
  | .keyup code => if Key.ofCode code = some key then some false else none
  | .reset => some false
  | .sample _ => none

/-- The last event about a key has pressed it. -/
def held (events : List PageEvent) (key : Key) : Bool :=
  (events.filterMap (PageEvent.about key)).getLast?.getD false

theorem held_concat (events : List PageEvent) (event : PageEvent) (key : Key) :
    held (events ++ [event]) key = (event.about key).getD (held events key) := by
  unfold held
  rw [List.filterMap_append]
  cases habout : event.about key with
  | none => simp [habout]
  | some b => simp [habout]

theorem index_inj {key key' : Key} : key.index = key'.index ↔ key = key' := by
  cases key <;> cases key' <;> simp [Key.index]

theorem index_lt (key : Key) : key.index < 13 := by cases key <;> decide

theorem testBit_bit (key key' : Key) : key.bit.testBit key'.index = decide (key = key') := by
  rw [Key.bit, Nat.testBit_two_pow, decide_eq_decide, index_inj]

theorem run_concat (events : List PageEvent) (event : PageEvent) :
    Page.run (events ++ [event]) = (Page.run events).step event := by
  unfold Page.run
  rw [List.foldl_append]
  rfl

/-- A word without other bits. -/
theorem gKeys_lt (events : List PageEvent) : (Page.run events).gKeys < 2 ^ 13 := by
  induction events using List.reverseRecOn with
  | nil => decide
  | append_singleton events event ih =>
    rw [run_concat]
    cases event with
    | keydown code =>
      rw [Page.step, Page.onkeydown]
      cases Key.ofCode code with
      | none => exact ih
      | some key =>
        exact Nat.or_lt_two_pow ih (Nat.pow_lt_pow_right (by decide) (index_lt key))
    | keyup code =>
      rw [Page.step, Page.onkeyup]
      cases Key.ofCode code with
      | none => exact ih
      | some key => exact lt_of_le_of_lt Nat.and_le_left ih
    | reset => exact (by decide : 0 < 2 ^ 13)
    | sample speed => exact ih

/-- The word holds the keys that are held. -/
theorem gKeys_testBit (events : List PageEvent) (key : Key) :
    (Page.run events).gKeys.testBit key.index = held events key := by
  induction events using List.reverseRecOn with
  | nil => simp [Page.run, Page.start, held]
  | append_singleton events event ih =>
    rw [run_concat, held_concat]
    cases event with
    | keydown code =>
      rw [Page.step, Page.onkeydown, PageEvent.about]
      cases hcode : Key.ofCode code with
      | none => simpa using ih
      | some key' =>
        show ((Page.run events).gKeys ||| key'.bit).testBit key.index = _
        rw [Nat.testBit_or, ih, testBit_bit]
        by_cases hkey : key' = key
        · simp [hkey]
        · simp [hkey]
    | keyup code =>
      rw [Page.step, Page.onkeyup, PageEvent.about]
      cases hcode : Key.ofCode code with
      | none => simpa using ih
      | some key' =>
        have hall : Nat.testBit 0xFFFF key.index = true := by cases key <;> decide
        show ((Page.run events).gKeys &&& (0xFFFF ^^^ key'.bit)).testBit key.index = _
        rw [Nat.testBit_and, Nat.testBit_xor, hall, ih, testBit_bit]
        by_cases hkey : key' = key
        · simp [hkey]
        · simp [hkey]
    | reset => simp [Page.step, PageEvent.about]
    | sample speed => exact ih

/-! ## From the keys to the wheels -/

/-- How the wheels should turn for the keys that are held. -/
def wanted (held : Key → Bool) : Direction × Direction :=
  if held .space then (.stop, .stop)
  else
    match held .w, held .a, held .s, held .d with
    | true, false, false, false => (.forward, .forward)
    | false, true, false, false => (.backward, .forward)
    | false, false, true, false => (.backward, .backward)
    | false, false, false, true => (.forward, .backward)
    | true, true, false, false => (.stop, .forward)
    | true, false, false, true => (.forward, .stop)
    | false, true, true, false => (.stop, .backward)
    | false, false, true, true => (.backward, .stop)
    | _, _, _, _ => (.stop, .stop)

/-- At every sample no camera key is held, and the slider is not at zero. -/
def Driving (events : List PageEvent) : Prop :=
  ∀ pre speed, pre ++ [.sample speed] <+: events →
    (∀ key : Key, 5 ≤ key.index → held pre key = false) ∧ 0 < speed ∧ speed ≤ 100

/-- At the first sample no key is held. -/
def StartsFree (events : List PageEvent) : Prop :=
  ∀ pre speed, pre ++ [.sample speed] <+: events → (Page.run pre).sent = [] →
    ∀ key, held pre key = false

theorem select_eq_wanted (events : List PageEvent) (h : (Page.run events).gKeys < 32) :
    select (Page.run events).gKeys = wanted (held events) := by
  have hall : ∀ n < 32, select ((n : ℕ) : Int) = wanted fun key => n.testBit key.index := by decide
  rw [hall _ h]
  congr 1
  funext key
  exact gKeys_testBit events key

theorem gKeys_lt_of_drive {events : List PageEvent}
    (h : ∀ key : Key, 5 ≤ key.index → held events key = false) :
    (Page.run events).gKeys < 32 := by
  have hkeys : ∀ i < 13, ∃ key ∈ [Key.w, .a, .s, .d, .space, .f12, .f1, .f2, .f3, .f4, .f5, .f6,
    .f7], key.index = i := by decide
  apply Nat.lt_pow_two_of_testBit (n := 5)
  intro i hi
  by_cases hlt : i < 13
  · obtain ⟨key, -, rfl⟩ := hkeys i hlt
    rw [gKeys_testBit, h key hi]
  · apply Nat.testBit_lt_two_pow
    exact lt_of_lt_of_le (gKeys_lt events) (Nat.pow_le_pow_right (by decide) (by omega))

/-- What the server knows of a page. -/
def Follow (events : List PageEvent) : Prop :=
  (Page.run events).sent = [] ∨ ∃ last : ℕ, last < 32 ∧
    (Session.run (Page.run events).sent).lastKeys = some (last : Int) ∧
      commanded (Session.run (Page.run events).sent).sent = select last

theorem follow_sample {events : List PageEvent} {speed : Int} (h : Follow events)
    (hword : (Page.run events).gKeys < 32) (hspeed : 0 < speed ∧ speed ≤ 100)
    (hstart : (Page.run events).sent = [] → (Page.run events).gKeys = 0) :
    (Session.run (Page.run (events ++ [.sample speed])).sent).lastKeys =
        some ((Page.run events).gKeys : Int) ∧
      commanded (Session.run (Page.run (events ++ [.sample speed])).sent).sent =
        select (Page.run events).gKeys := by
  have hsent : (Page.run (events ++ [.sample speed])).sent =
      (Page.run events).sent ++ [⟨(Page.run events).gKeys, speed⟩] := by
    rw [run_concat]
    rfl
  have hchecked : checkedSpeed speed ≠ 0 := by
    unfold checkedSpeed
    rw [if_neg (by omega)]
    omega
  have hbits : ∀ n : ℕ, n < 32 → driveBits n = n := by
    intro n hn
    unfold driveBits
    omega
  rw [hsent, Cnc.run_concat]
  refine ⟨rfl, ?_⟩
  rcases h with hnone | ⟨last, hlt, hlast, hcommanded⟩
  · have hzero := hstart hnone
    rw [hnone, hzero]
    rfl
  · rw [Cnc.commanded_dataReceived hlast, hbits _ hword, hbits _ hlt]
    by_cases hsame : ((Page.run events).gKeys : Int) = last
    · rw [if_neg (not_not.2 hsame), hcommanded, hsame]
    · rw [if_pos hsame, Cnc.directions_driveCommand hchecked, hbits _ hword, if_pos rfl]

theorem gKeys_zero {events : List PageEvent} (h : ∀ key, held events key = false) :
    (Page.run events).gKeys = 0 := by
  have hlt : (Page.run events).gKeys < 32 := gKeys_lt_of_drive fun key _ => h key
  have hall : ∀ n < 32, (∀ key ∈ [Key.w, .a, .s, .d, .space], n.testBit key.index = false) →
      n = 0 := by decide
  exact hall _ hlt fun key _ => (gKeys_testBit events key).trans (h key)

theorem follow_run {events : List PageEvent} (h : Driving events) (hstart : StartsFree events) :
    Follow events := by
  induction events using List.reverseRecOn with
  | nil => exact Or.inl rfl
  | append_singleton events event ih =>
    have hbefore := ih
      (fun pre speed hpre => h pre speed (hpre.trans (List.prefix_append events [event])))
      (fun pre speed hpre => hstart pre speed (hpre.trans (List.prefix_append events [event])))
    have hkeeps : (Page.run (events ++ [event])).sent = (Page.run events).sent →
        Follow (events ++ [event]) := by
      intro hsent
      unfold Follow
      rw [hsent]
      exact hbefore
    cases event with
    | keydown code =>
      apply hkeeps
      rw [run_concat, Page.step, Page.onkeydown]
      cases Key.ofCode code <;> rfl
    | keyup code =>
      apply hkeeps
      rw [run_concat, Page.step, Page.onkeyup]
      cases Key.ofCode code <;> rfl
    | reset =>
      apply hkeeps
      rw [run_concat]
      rfl
    | sample speed =>
      obtain ⟨hdrive, hspeed⟩ := h events speed List.prefix_rfl
      have hword := gKeys_lt_of_drive hdrive
      have hfree : (Page.run events).sent = [] → (Page.run events).gKeys = 0 :=
        fun hnone => gKeys_zero (hstart events speed List.prefix_rfl hnone)
      exact Or.inr ⟨(Page.run events).gKeys, hword, follow_sample hbefore hword hspeed hfree⟩

/-- Behind every sample the wheels turn as the keys want that are held, if no
camera key is in the way. -/
theorem commanded_sample {events : List PageEvent} {speed : Int}
    (h : Driving (events ++ [.sample speed])) (hstart : StartsFree (events ++ [.sample speed])) :
    commanded (Session.run (Page.run (events ++ [.sample speed])).sent).sent =
      wanted (held events) := by
  have hbefore : Follow events :=
    follow_run (fun pre speed' hpre => h pre speed' (hpre.trans (List.prefix_append events _)))
      (fun pre speed' hpre => hstart pre speed' (hpre.trans (List.prefix_append events _)))
  obtain ⟨hdrive, hspeed⟩ := h events speed List.prefix_rfl
  have hword := gKeys_lt_of_drive hdrive
  have hfree : (Page.run events).sent = [] → (Page.run events).gKeys = 0 :=
    fun hnone => gKeys_zero (hstart events speed List.prefix_rfl hnone)
  rw [(follow_sample hbefore hword hspeed hfree).2, select_eq_wanted events hword]

end MinotaurRobot.Web
