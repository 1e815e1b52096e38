import Mathlib.Data.List.Induction
import MinotaurRobot.Cnc.MainCncWait

/-!
# The source of the video

`ComFrameProxy` keeps the frame sources under their names, and lets the one that
was chosen draw.  What the robot shows is `alt_video_source`, which
`chooseSource` sets.

`shown_of_actions` says that the two never come apart: the source that `action`
lets draw is the one that is shown, and it is that of the last choice.
-/

namespace MinotaurRobot.Camera

open Cnc (Action CNCCommand FrameSource)

/-! ## `ComFrameProxy` -/

/-- The frames that `mainCncWait` registers. -/
inductive ComFrame where
  | posFrame (xyzflags : ℕ)
  | mapFrame
  | wallFrame
  deriving DecidableEq, Repr

structure ComFrameProxy where
  /-- The entries of the map, with `NULL` as `none`. -/
  registry : List (String × Option ComFrame)
  source : Option ComFrame
  deriving DecidableEq

/-- The proxy, and `alt_video_source` of the Kinect. -/
structure Video where
  proxy : ComFrameProxy
  altVideoSource : Option ComFrame
  deriving DecidableEq

/-- The constructors of `ComFrameProxy` and `Kinect`. -/
def Video.init : Video := ⟨⟨[], none⟩, none⟩

/-- `registry[src_name] = src`. -/
def assign (registry : List (String × Option ComFrame)) (srcName : String)
    (src : Option ComFrame) : List (String × Option ComFrame) :=
  (srcName, src) :: registry.filter fun entry => entry.1 ≠ srcName

/-- `registry[src_name]`: a name that is not there gets `NULL`. -/
def access (registry : List (String × Option ComFrame)) (srcName : String) :
    List (String × Option ComFrame) × Option ComFrame :=
  match registry.find? fun entry => entry.1 = srcName with
  | some entry => (registry, entry.2)
  | none => (assign registry srcName none, none)

def Video.registerFrameSource (v : Video) (srcName : String) (src : Option ComFrame) : Video :=
  { v with
    proxy :=
      { registry := assign v.proxy.registry srcName src
        source := if v.proxy.source = none then src else v.proxy.source } }

def Video.chooseSource (v : Video) (srcName : String) : Video :=
  let (registry, source) := access v.proxy.registry srcName
  -- `setVideoSource` of the frame, or of `NULL`
  { proxy := ⟨registry, source⟩, altVideoSource := source }

/-! ## `mainCncWait` -/

/-- The name of a source. -/
def srcName : FrameSource → String
  | .posFrameXYZ => "PosFrameXYZ"
  | .posFrameX => "PosFrameX"
  | .posFrameY => "PosFrameY"
  | .posFrameZ => "PosFrameZ"
  | .mapFrame => "MapFrame"
  | .wallFrame => "WallFrame"
  | .live => "Live"

/-- The calls in front of the loop. -/
def Video.start : Video :=
  ((((((((Video.init.registerFrameSource "PosFrameXYZ" (some (.posFrame 7))).registerFrameSource
    "PosFrameX" (some (.posFrame 1))).registerFrameSource
    "PosFrameY" (some (.posFrame 2))).registerFrameSource
    "PosFrameZ" (some (.posFrame 4))).registerFrameSource
    "MapFrame" (some .mapFrame)).registerFrameSource
    "WallFrame" (some .wallFrame)).registerFrameSource
    "Live" none).chooseSource "MapFrame")

/-- What an action of the loop does to the video. -/
def Video.act (v : Video) : Action → Video
  | .chooseSource source => v.chooseSource (srcName source)
  | .sendpacket _ _ | .dumpVideo | .noSource | .metrics => v

def Video.run (actions : List Action) : Video := actions.foldl Video.act Video.start

/-! ## The source that is shown -/

/-- The frame of a source.  The live picture has none. -/
def frameOf : FrameSource → Option ComFrame
  | .posFrameXYZ => some (.posFrame 7)
  | .posFrameX => some (.posFrame 1)
  | .posFrameY => some (.posFrame 2)
  | .posFrameZ => some (.posFrame 4)
  | .mapFrame => some .mapFrame
  | .wallFrame => some .wallFrame
  | .live => none

/-- The source that was chosen last. -/
def lastChoice (actions : List Action) : Option FrameSource :=
  (actions.filterMap fun action =>
    match action with
    | .chooseSource source => some source
    | _ => none).getLast?

theorem lastChoice_concat (actions : List Action) (action : Action) :
    lastChoice (actions ++ [action]) =
      match action with
      | .chooseSource source => some source
      | _ => lastChoice actions := by
  unfold lastChoice
  rw [List.filterMap_append]
  cases action <;> simp

/-- Every name that the loop asks for is registered. -/
theorem access_start (source : FrameSource) :
    access Video.start.proxy.registry (srcName source) =
      (Video.start.proxy.registry, frameOf source) := by
  cases source <;> decide

/-- The source that draws is shown, and it is that of the last choice. -/
theorem shown_of_actions (actions : List Action) :
    Video.run actions =
      { proxy :=
          { registry := Video.start.proxy.registry
            source := frameOf ((lastChoice actions).getD .mapFrame) }
        altVideoSource := frameOf ((lastChoice actions).getD .mapFrame) } := by
  induction actions using List.reverseRecOn with
  | nil => decide
  | append_singleton actions action ih =>
    have hstep : Video.run (actions ++ [action]) = (Video.run actions).act action := by
      unfold Video.run
      rw [List.foldl_append]
      rfl
    rw [hstep, ih, lastChoice_concat]
    cases action with
    | chooseSource source =>
      rw [Video.act, Video.chooseSource, access_start]
      cases source <;> rfl
    | sendpacket command data => rfl
    | dumpVideo => rfl
    | noSource => rfl
    | metrics => rfl

end MinotaurRobot.Camera
