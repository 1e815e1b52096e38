import MinotaurRobot.Lib.TripleBuffer

/-!
# The frame buffers of the Kinect

`kinect.cpp` keeps three buffers for the depth and three for the video frames.
The driver fills the buffer it was given last and then calls back, and the
callback exchanges the back and the middle buffer.  The consumers exchange the
front and the middle buffer and read the front one.  The swaps are made under
a lock, and no callback touches the front buffer, so that a call of a consumer
is one step.

A buffer holds the number of the frame in it.  `neverBack_iff` says for which
orders of callbacks and calls a consumer never goes back in time.
-/

namespace MinotaurRobot.Camera

open Lib.TripleBuffer

/-! ## `kinect.cpp` -/

/-- What a buffer holds: the number of a frame, or nothing yet. -/
abbrev Frame := Option ℕ

/-- The buffers of one stream. -/
structure Buffers where
  back : Fin 3
  mid : Fin 3
  front : Fin 3
  /-- The buffer that the driver fills, passed to `freenect_set_depth_buffer`
  or `freenect_set_video_buffer`. -/
  registered : Fin 3
  contents : Fin 3 → Frame
  /-- The number of frames that the driver has completed. -/
  completed : ℕ

/-- The three buffers that the constructor allocates. -/
def Buffers.init : Buffers where
  back := 0
  mid := 1
  front := 2
  registered := 0
  contents := fun _ => none
  completed := 0

def Buffers.swapBack (b : Buffers) : Buffers :=
  let tmp := b.back
  let b := { b with back := b.mid }
  let b := { b with registered := b.back }
  { b with mid := tmp }

def Buffers.swapFront (b : Buffers) : Buffers :=
  let tmp := b.front
  let b := { b with front := b.mid }
  { b with mid := tmp }

/-- The driver completes the next frame. -/
def Buffers.fill (b : Buffers) : Buffers :=
  { b with
      contents := Function.update b.contents b.registered (some (b.completed + 1))
      completed := b.completed + 1 }

/-- The pointers are three different buffers, and the driver has the back
one. -/
structure Buffers.Distinct (b : Buffers) : Prop where
  back_ne_mid : b.back ≠ b.mid
  back_ne_front : b.back ≠ b.front
  mid_ne_front : b.mid ≠ b.front
  registered : b.registered = b.back

theorem distinct_init : Buffers.init.Distinct := ⟨by decide, by decide, by decide, rfl⟩

theorem Buffers.Distinct.swapBack {b : Buffers} (h : b.Distinct) : b.swapBack.Distinct :=
  ⟨h.back_ne_mid.symm, h.mid_ne_front, h.back_ne_front, rfl⟩

theorem Buffers.Distinct.swapFront {b : Buffers} (h : b.Distinct) : b.swapFront.Distinct :=
  ⟨h.back_ne_front, h.back_ne_mid, h.mid_ne_front.symm, h.registered⟩

theorem Buffers.Distinct.fill {b : Buffers} (h : b.Distinct) : b.fill.Distinct :=
  ⟨h.back_ne_mid, h.back_ne_front, h.mid_ne_front, h.registered⟩

/-- Three different pointers are all three buffers. -/
theorem Buffers.Distinct.mem {b : Buffers} (h : b.Distinct) (slot : Fin 3) :
    slot ∈ [b.back, b.mid, b.front] := by
  have h₁ := h.back_ne_mid
  have h₂ := h.back_ne_front
  have h₃ := h.mid_ne_front
  simp only [List.mem_cons, List.not_mem_nil, or_false]
  omega

structure Kinect where
  depth : Buffers
  video : Buffers
  depthCount : UInt64
  videoCount : UInt64
  /-- The frame at `alt_video_source`, unless that is `NULL`. -/
  altVideoSource : Option Frame
  yuvFront : Frame

def Kinect.init : Kinect where
  depth := Buffers.init
  video := Buffers.init
  depthCount := 0
  videoCount := 0
  altVideoSource := none
  yuvFront := none

def swapDepthBackBuffer (k : Kinect) : Kinect := { k with depth := k.depth.swapBack }

def swapDepthFrontBuffer (k : Kinect) : Kinect := { k with depth := k.depth.swapFront }

def swapVideoBackBuffer (k : Kinect) : Kinect := { k with video := k.video.swapBack }

def swapVideoFrontBuffer (k : Kinect) : Kinect := { k with video := k.video.swapFront }

/-- `depth_cb`. -/
def depthCb (k : Kinect) : Kinect :=
  let k := swapDepthBackBuffer k
  { k with depthCount := k.depthCount + 1 }

/-- `video_cb`. -/
def videoCb (k : Kinect) : Kinect :=
  let k := swapVideoBackBuffer k
  { k with videoCount := k.videoCount + 1 }

/-- A video buffer: one of the three, or the alternative source. -/
inductive VideoBuffer where
  | slot (b : Fin 3)
  | alt (frame : Frame)
  deriving DecidableEq, Repr

/-- The frame that a video buffer holds. -/
def Kinect.frameIn (k : Kinect) : VideoBuffer → Frame
  | .slot b => k.video.contents b
  | .alt frame => frame

def getVideoFrame (k : Kinect) : VideoBuffer :=
  match k.altVideoSource with
  | none => .slot k.video.front
  | some frame => .alt frame

def nextVideoFrame (k : Kinect) : Kinect × VideoBuffer :=
  let k := swapVideoFrontBuffer k
  (k, getVideoFrame k)

/-- `nextVideoFrameYUV`: the converted frame stays in `yuv_front`. -/
def nextVideoFrameYUV (k : Kinect) : Kinect :=
  let k := swapVideoFrontBuffer k
  { k with yuvFront := k.frameIn (getVideoFrame k) }

def getDepthFrame (k : Kinect) : Kinect × Fin 3 :=
  let k := swapDepthFrontBuffer k
  (k, k.depth.front)

/-! ## Runs -/

inductive Stream where
  | depth
  | video
  deriving DecidableEq, Repr

/-- The driver completes a frame and calls back, or a consumer calls. -/
inductive Event where
  | depthFrame
  | videoFrame
  | getDepthFrame
  | nextVideoFrame
  | nextVideoFrameYUV
  deriving DecidableEq, Repr

/-- One event.  Returns what is seen of it, and on which stream. -/
def step (k : Kinect) : Event → Kinect × Stream × Obs
  | .depthFrame =>
    let k := { k with depth := k.depth.fill }
    (depthCb k, .depth, .completed k.depth.completed)
  | .videoFrame =>
    let k := { k with video := k.video.fill }
    (videoCb k, .video, .completed k.video.completed)
  | .getDepthFrame =>
    let (k, b) := getDepthFrame k
    (k, .depth, .returned (k.depth.contents b))
  | .nextVideoFrame =>
    let (k, b) := nextVideoFrame k
    (k, .video, .returned (k.frameIn b))
  | .nextVideoFrameYUV =>
    let k := nextVideoFrameYUV k
    (k, .video, .returned k.yuvFront)

/-- What is seen of a run on one stream. -/
def log (s : Stream) : Kinect → List Event → List Obs
  | _, [] => []
  | k, event :: events =>
    let (k, s', obs) := step k event
    if s' = s then obs :: log s k events else log s k events

/-- What an event does on the buffers of its stream. -/
def Event.op : Event → Stream × Op
  | .depthFrame => (.depth, .complete)
  | .videoFrame => (.video, .complete)
  | .getDepthFrame => (.depth, .take)
  | .nextVideoFrame => (.video, .take)
  | .nextVideoFrameYUV => (.video, .take)

/-- The operations of a run on one stream. -/
def ops (s : Stream) (events : List Event) : List Op :=
  (events.filter fun event => event.op.1 = s).map fun event => event.op.2

/-! ## The buffers are a triple buffer -/

/-- The buffers of a stream, with the back buffer registered. -/
structure Represents (t : Triple (Fin 3)) (b : Buffers) : Prop where
  back : b.back = t.back
  mid : b.mid = t.mid
  front : b.front = t.front
  registered : b.registered = t.back
  contents : b.contents = t.contents
  completed : b.completed = t.completed

def Triple.start : Triple (Fin 3) where
  back := 0
  mid := 1
  front := 2
  contents := fun _ => none
  completed := 0
  back_ne_mid := by decide
  back_ne_front := by decide
  mid_ne_front := by decide
  contents_le := by
    intro b n h
    cases h

theorem represents_init : Represents Triple.start Buffers.init := ⟨rfl, rfl, rfl, rfl, rfl, rfl⟩

theorem represents_swapBack {t : Triple (Fin 3)} {b : Buffers} (h : Represents t b) :
    Represents t.complete b.fill.swapBack := by
  refine ⟨h.mid, h.back, h.front, h.mid, ?_, congrArg (· + 1) h.completed⟩
  show Function.update b.contents b.registered (some (b.completed + 1)) = _
  rw [h.contents, h.registered, h.completed]
  rfl

theorem represents_swapFront {t : Triple (Fin 3)} {b : Buffers} (h : Represents t b) :
    Represents t.take b.swapFront :=
  ⟨h.back, h.front, h.mid, h.registered, h.contents, h.completed⟩

/-- The buffers of a stream. -/
def Kinect.buffers (k : Kinect) : Stream → Buffers
  | .depth => k.depth
  | .video => k.video

/-- An operation on the buffers of one stream. -/
def Buffers.apply (b : Buffers) : Op → Buffers
  | .complete => b.fill.swapBack
  | .take => b.swapFront

/-- What is seen of the operation. -/
def Buffers.see (b : Buffers) : Op → Obs
  | .complete => .completed (b.completed + 1)
  | .take => .returned (b.contents b.mid)

/-- One event is one operation on the buffers of its stream. -/
theorem step_spec {k : Kinect} (halt : k.altVideoSource = none) (event : Event) :
    (step k event).1.altVideoSource = none ∧
      (step k event).2 = (event.op.1, (k.buffers event.op.1).see event.op.2) ∧
      ∀ s, (step k event).1.buffers s =
        if event.op.1 = s then (k.buffers s).apply event.op.2 else k.buffers s := by
  cases event with
  | depthFrame | videoFrame | getDepthFrame =>
    refine ⟨halt, rfl, ?_⟩
    intro s
    cases s <;> rfl
  | nextVideoFrame =>
    refine ⟨halt, ?_, ?_⟩
    · simp only [step, nextVideoFrame, swapVideoFrontBuffer, getVideoFrame, halt]
      rfl
    · intro s
      cases s <;> rfl
  | nextVideoFrameYUV =>
    refine ⟨halt, ?_, ?_⟩
    · simp only [step, nextVideoFrameYUV, swapVideoFrontBuffer, getVideoFrame, halt]
      rfl
    · intro s
      cases s <;> rfl

theorem represents_apply {t : Triple (Fin 3)} {b : Buffers} (h : Represents t b) (op : Op)
    (ops : List Op) :
    ∃ t', Represents t' (b.apply op) ∧ t.run (op :: ops) = b.see op :: t'.run ops := by
  cases op with
  | complete =>
    refine ⟨t.complete, represents_swapBack h, ?_⟩
    rw [Triple.run, Buffers.see, h.completed]
  | take =>
    refine ⟨t.take, represents_swapFront h, ?_⟩
    rw [Triple.run, Buffers.see, h.contents, h.mid]
    rfl

/-- What is seen of a run on one stream is what is seen of the operations on
its triple buffer. -/
theorem log_eq {k : Kinect} {t : Triple (Fin 3)} {s : Stream} (halt : k.altVideoSource = none)
    (h : Represents t (k.buffers s)) (events : List Event) :
    log s k events = t.run (ops s events) := by
  induction events generalizing k t with
  | nil => rfl
  | cons event events ih =>
    obtain ⟨halt', hseen, hbuffers⟩ := step_spec halt event
    have hs := hbuffers s
    rw [log]
    rcases hstep : step k event with ⟨k', s', obs⟩
    rw [hstep] at halt' hseen hs
    obtain ⟨rfl, rfl⟩ := Prod.mk.inj hseen
    dsimp only at halt' hs ⊢
    by_cases hop : event.op.1 = s
    · rw [if_pos hop] at hs ⊢
      obtain ⟨t', h', hrun⟩ := represents_apply h event.op.2 (ops s events)
      rw [← hs] at h'
      have hops : ops s (event :: events) = event.op.2 :: ops s events := by
        unfold ops
        rw [List.filter_cons_of_pos (by simpa using hop), List.map_cons]
      rw [hops, hrun, ih halt' h', hop]
    · rw [if_neg hop] at hs ⊢
      rw [← hs] at h
      have hops : ops s (event :: events) = ops s events := by
        unfold ops
        rw [List.filter_cons_of_neg (by simpa using hop)]
      rw [hops, ih halt' h]

/-! ## Consumers -/

/-- On each stream, and for every order of callbacks and calls, the consumer
never goes back in time exactly if from the first frame on it never calls
twice without a frame completed in between. -/
theorem kinect_neverBack_iff (s : Stream) (events : List Event) :
    NeverBack (log s Kinect.init events) ↔ Alternates false false (ops s events) := by
  have h : Represents Triple.start (Kinect.init.buffers s) := by
    cases s <;> exact represents_init
  rw [log_eq rfl h]
  exact neverBack_iff rfl (ops s events)

/-- Two frames and three calls: the third call returns frame `1` again. -/
theorem getDepthFrame_goes_back :
    log .depth Kinect.init [.depthFrame, .getDepthFrame, .depthFrame, .getDepthFrame,
        .getDepthFrame] =
      [.completed 1, .returned (some 1), .completed 2, .returned (some 2),
        .returned (some 1)] ∧
      ¬NeverBack (log .depth Kinect.init [.depthFrame, .getDepthFrame, .depthFrame,
        .getDepthFrame, .getDepthFrame]) := by
  refine ⟨by decide, ?_⟩
  intro h
  obtain ⟨m, hm, hle⟩ := h.current [.completed 1, .returned (some 1), .completed 2,
    .returned (some 2)] (some 1) [] 2 (by decide) (by decide)
  cases hm
  omega

end MinotaurRobot.Camera
