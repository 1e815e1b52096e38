import MinotaurRobot.Camera.Kinect
import MinotaurRobot.Lib.Sections
import Mathlib.Data.List.Induction

/-!
# A video frame while it is dumped

`ComDumpVideo::action` takes `video_front` from `getVideoFrame` and copies it
without the lock.  The streaming thread swaps the front buffer for the middle
one with every frame it converts, and the driver swaps the middle one for the
back one with every callback.

So the frame goes back and forth between the front and the middle, and a
callback that finds it in the middle gives it to the driver.
`never_given_iff` says that this is the only way.
-/

namespace MinotaurRobot.Camera

open Lib

/-! ## The three threads -/

inductive VideoThread where
  /-- The thread in `freenect_process_events`. -/
  | driver
  /-- `mainSynchronous`. -/
  | streaming
  /-- The thread of the commands. -/
  | command
  deriving DecidableEq, Repr

structure VideoState where
  kinect : Kinect
  /-- `video_tmp` of `swapVideoBackBuffer`. -/
  backTmp : Fin 3
  /-- `video_tmp` of `swapVideoFrontBuffer`. -/
  frontTmp : Fin 3
  /-- `video_cb` has swapped the buffers and still has to count. -/
  counting : Bool
  /-- `nextVideoFrameYUV` has swapped the buffers and still has to convert. -/
  converting : Bool
  /-- `dframe`, from the call of `getVideoFrame` to the end of the copy loop. -/
  dframe : Option VideoBuffer

def VideoState.init : VideoState where
  kinect := Kinect.init
  backTmp := Buffers.init.back
  frontTmp := Buffers.init.front
  counting := false
  converting := false
  dframe := none

inductive VideoSection where
  | swapVideoBackBuffer
  | swapVideoFrontBuffer
  deriving DecidableEq, Repr

inductive VideoFree where
  /-- The driver completes a frame. -/
  | fill
  /-- `++video_count`. -/
  | count
  /-- `Bitmap2Yuv420p`. -/
  | convert
  /-- `dframe = main->getKinect()->getVideoFrame()`. -/
  | getVideoFrame
  /-- The copy loop ends. -/
  | copied
  deriving DecidableEq, Repr

/-- An assignment to the video buffers. -/
def VideoState.onVideo (f : Buffers → Buffers) (s : VideoState) : VideoState :=
  { s with kinect := { s.kinect with video := f s.kinect.video } }

/-- `video_cb`, `nextVideoFrameYUV` and `ComDumpVideo::action`.  The last
assignment of a swap comes with the place where its caller goes on. -/
def videoProgram : Sections.Program VideoThread VideoState VideoSection VideoFree where
  thread
    | .swapVideoBackBuffer => .driver
    | .swapVideoFrontBuffer => .streaming
  ready
    | .swapVideoBackBuffer, s => !s.counting
    | .swapVideoFrontBuffer, s => !s.converting
  before
    | .swapVideoBackBuffer =>
      [fun s => { s with backTmp := s.kinect.video.back },
        VideoState.onVideo fun b => { b with back := b.mid },
        VideoState.onVideo fun b => { b with registered := b.back }]
    | .swapVideoFrontBuffer => [fun s => { s with frontTmp := s.kinect.video.front }]
  commit
    | .swapVideoBackBuffer, s =>
      { s.onVideo fun b => { b with mid := s.backTmp } with counting := true }
    | .swapVideoFrontBuffer, s => s.onVideo fun b => { b with front := b.mid }
  after
    | .swapVideoBackBuffer => []
    | .swapVideoFrontBuffer =>
      [fun s => { s.onVideo fun b => { b with mid := s.frontTmp } with converting := true }]
  freeThread
    | .fill | .count => .driver
    | .convert => .streaming
    | .getVideoFrame | .copied => .command
  free
    | .fill, s => some (s.onVideo Buffers.fill)
    | .count, s =>
      if s.counting then
        some { s with
          kinect := { s.kinect with videoCount := s.kinect.videoCount + 1 }
          counting := false }
      else none
    | .convert, s =>
      if s.converting then
        some { s with
          kinect := { s.kinect with yuvFront := s.kinect.frameIn (getVideoFrame s.kinect) }
          converting := false }
      else none
    | .getVideoFrame, s =>
      if s.dframe.isNone then some { s with dframe := some (getVideoFrame s.kinect) } else none
    | .copied, s => if s.dframe.isSome then some { s with dframe := none } else none

/-! ## The functions of `kinect.cpp` -/

/-- The steps of one callback. -/
theorem run_videoCb {s : VideoState} (hready : s.counting = false) :
    (Runs.run videoProgram.call s [.whole .swapVideoBackBuffer, .free .count]).map (·.kinect) =
      some (videoCb s.kinect) := by
  rw [Runs.run, Sections.Program.call, if_pos (by simp [videoProgram, hready])]
  rfl

/-- The steps of one `nextVideoFrameYUV`. -/
theorem run_nextVideoFrameYUV {s : VideoState} (hready : s.converting = false) :
    (Runs.run videoProgram.call s [.whole .swapVideoFrontBuffer, .free .convert]).map (·.kinect) =
      some (nextVideoFrameYUV s.kinect) := by
  rw [Runs.run, Sections.Program.call, if_pos (by simp [videoProgram, hready])]
  rfl

/-! ## The free steps -/

/-- What a free step does to the buffers, to the places of the threads and to
`dframe`. -/
structure VideoFreed (e : VideoFree) (s s' : VideoState) : Prop where
  video : s'.kinect.video = s.kinect.video ∨ s'.kinect.video = s.kinect.video.fill
  alt : s'.kinect.altVideoSource = s.kinect.altVideoSource
  counting : e = .count ∨ s'.counting = s.counting
  converting : e = .convert ∨ s'.converting = s.converting
  dframe : s'.dframe =
    match e with
    | .getVideoFrame => some (getVideoFrame s.kinect)
    | .copied => none
    | _ => s.dframe

theorem freed_of_free {e : VideoFree} {s s' : VideoState}
    (h : videoProgram.free e s = some s') : VideoFreed e s s' := by
  cases e with
  | fill =>
    cases h
    exact ⟨.inr rfl, rfl, .inr rfl, .inr rfl, rfl⟩
  | count =>
    simp only [videoProgram] at h
    split at h
    · cases h
      exact ⟨.inl rfl, rfl, .inl rfl, .inr rfl, rfl⟩
    · cases h
  | convert =>
    simp only [videoProgram] at h
    split at h
    · cases h
      exact ⟨.inl rfl, rfl, .inr rfl, .inl rfl, rfl⟩
    · cases h
  | getVideoFrame | copied =>
    simp only [videoProgram] at h
    split at h
    · cases h
      exact ⟨.inl rfl, rfl, .inr rfl, .inr rfl, rfl⟩
    · cases h

/-! ## Single statements -/

theorem videoProgram_atomic : videoProgram.Atomic where
  ready := by
    intro c e s s' hother hready hfree
    have hfreed := freed_of_free hfree
    cases c with
    | swapVideoBackBuffer =>
      rcases hfreed.counting with rfl | hsame
      · exact absurd rfl hother
      · simpa only [videoProgram, hsame] using hready
    | swapVideoFrontBuffer =>
      rcases hfreed.converting with rfl | hsame
      · exact absurd rfl hother
      · simpa only [videoProgram, hsame] using hready
  before := by
    intro c e hother f hf s
    rcases s with ⟨kinect, backTmp, frontTmp, counting, converting, dframe⟩
    cases c with
    | swapVideoBackBuffer =>
      simp only [videoProgram, List.mem_cons, List.not_mem_nil, or_false] at hf
      cases e with
      | fill | count => exact absurd rfl hother
      | convert => rcases hf with rfl | rfl | rfl <;> cases converting <;> rfl
      | getVideoFrame | copied => rcases hf with rfl | rfl | rfl <;> cases dframe <;> rfl
    | swapVideoFrontBuffer =>
      simp only [videoProgram, List.mem_cons, List.not_mem_nil, or_false] at hf
      subst hf
      cases e with
      | fill => rfl
      | count => cases counting <;> rfl
      | convert => exact absurd rfl hother
      | getVideoFrame | copied => cases dframe <;> rfl
  after := by
    intro c e hother f hf s
    rcases s with ⟨kinect, backTmp, frontTmp, counting, converting, dframe⟩
    cases c with
    | swapVideoBackBuffer => cases hf
    | swapVideoFrontBuffer =>
      simp only [videoProgram, List.mem_cons, List.not_mem_nil, or_false] at hf
      subst hf
      cases e with
      | fill => rfl
      | count => cases counting <;> rfl
      | convert => exact absurd rfl hother
      | getVideoFrame | copied => cases dframe <;> rfl

/-- Every order of the statements is an order of whole calls. -/
theorem video_calls_of_statements {steps : List (Sections.FineStep VideoSection VideoFree)}
    {s : Sections.Fine VideoState VideoSection}
    (hrun : Runs.run videoProgram.step ⟨VideoState.init, none⟩ steps = some s)
    (hfree : s.held = none) :
    ∃ calls, Runs.run videoProgram.call VideoState.init calls = some s.shared :=
  Sections.Program.calls_of_run videoProgram_atomic hrun hfree

/-! ## The frame that is dumped -/

/-- The driver does not have the frame that is copied. -/
def NotGiven (s : VideoState) : Prop :=
  ∀ b, s.dframe = some (.slot b) → b ≠ s.kinect.video.back

/-- It does not have it at any time of the run. -/
def NeverGiven (calls : List (Sections.Call VideoSection VideoFree)) : Prop :=
  ∀ pre s, pre <+: calls → Runs.run videoProgram.call VideoState.init pre = some s → NotGiven s

def countSwaps (n : Option ℕ) : Sections.Call VideoSection VideoFree → Option ℕ
  | .free .getVideoFrame => some 0
  | .free .copied => none
  | .whole .swapVideoFrontBuffer => n.map (· + 1)
  | _ => n

/-- During a copy, the swaps of the streaming thread since `getVideoFrame`. -/
def swapsSince (calls : List (Sections.Call VideoSection VideoFree)) : Option ℕ :=
  calls.foldl countSwaps none

/-- Every callback during a copy finds an even number of swaps. -/
def CallbacksEven (calls : List (Sections.Call VideoSection VideoFree)) : Prop :=
  ∀ pre n, pre ++ [.whole .swapVideoBackBuffer] <+: calls → swapsSince pre = some n → n % 2 = 0

/-- Where the frame is behind `n` swaps, without a callback at an odd number. -/
structure Tracks (n : Option ℕ) (s : VideoState) : Prop where
  distinct : s.kinect.video.Distinct
  alt : s.kinect.altVideoSource = none
  dframe : s.dframe = n.map fun n =>
    .slot (if n % 2 = 0 then s.kinect.video.front else s.kinect.video.mid)

theorem Tracks.notGiven {n : Option ℕ} {s : VideoState} (h : Tracks n s) : NotGiven s := by
  intro b hb
  rw [h.dframe] at hb
  obtain ⟨n, -, hslot⟩ := Option.map_eq_some_iff.1 hb
  cases hslot
  split
  · exact h.distinct.back_ne_front.symm
  · exact h.distinct.back_ne_mid.symm

theorem Tracks.swapBack {n : Option ℕ} {s : VideoState} (h : Tracks n s)
    (heven : ∀ m, n = some m → m % 2 = 0) :
    Tracks n (videoProgram.whole .swapVideoBackBuffer s) := by
  refine ⟨h.distinct.swapBack, h.alt, ?_⟩
  show s.dframe = _
  rw [h.dframe]
  cases n with
  | none => rfl
  | some m =>
    rw [Option.map_some, Option.map_some, if_pos (heven m rfl), if_pos (heven m rfl)]
    rfl

theorem Tracks.swapFront {n : Option ℕ} {s : VideoState} (h : Tracks n s) :
    Tracks (n.map (· + 1)) (videoProgram.whole .swapVideoFrontBuffer s) := by
  refine ⟨h.distinct.swapFront, h.alt, ?_⟩
  show s.dframe = _
  rw [h.dframe]
  cases n with
  | none => rfl
  | some m =>
    simp only [Option.map_some]
    by_cases heven : m % 2 = 0
    · rw [if_pos heven, if_neg (by omega)]
      rfl
    · rw [if_neg heven, if_pos (by omega)]
      rfl

theorem Tracks.free {n : Option ℕ} {s s' : VideoState} {e : VideoFree} (h : Tracks n s)
    (hfreed : VideoFreed e s s') : Tracks (countSwaps n (.free e)) s' := by
  have hkept : s'.kinect.video.Distinct ∧ s'.kinect.video.front = s.kinect.video.front ∧
      s'.kinect.video.mid = s.kinect.video.mid := by
    rcases hfreed.video with hsame | hfill
    · rw [hsame]
      exact ⟨h.distinct, rfl, rfl⟩
    · rw [hfill]
      exact ⟨h.distinct.fill, rfl, rfl⟩
  refine ⟨hkept.1, hfreed.alt.trans h.alt, ?_⟩
  rw [hkept.2.1, hkept.2.2, hfreed.dframe]
  cases e with
  | fill | count | convert => exact h.dframe
  | getVideoFrame =>
    show some (getVideoFrame s.kinect) = some (.slot s.kinect.video.front)
    rw [getVideoFrame, h.alt]
  | copied => rfl

theorem Tracks.call {n : Option ℕ} {s s' : VideoState}
    {c : Sections.Call VideoSection VideoFree} (h : Tracks n s)
    (hcall : videoProgram.call s c = some s')
    (heven : c = .whole .swapVideoBackBuffer → ∀ m, n = some m → m % 2 = 0) :
    Tracks (countSwaps n c) s' := by
  cases c with
  | whole c =>
    rw [Sections.Program.call] at hcall
    split at hcall
    · cases hcall
      cases c with
      | swapVideoBackBuffer => exact h.swapBack (heven rfl)
      | swapVideoFrontBuffer => exact h.swapFront
    · cases hcall
  | free e => exact h.free (freed_of_free hcall)

/-- A callback gives the frame to the driver at an odd number of swaps. -/
theorem Tracks.even_of_notGiven {n : ℕ} {s s' : VideoState} (h : Tracks (some n) s)
    (hcall : videoProgram.call s (.whole .swapVideoBackBuffer) = some s') (hnot : NotGiven s') :
    n % 2 = 0 := by
  rw [Sections.Program.call] at hcall
  split at hcall
  · cases hcall
    by_contra hodd
    have hdframe := h.dframe
    rw [Option.map_some, if_neg hodd] at hdframe
    exact hnot s.kinect.video.mid hdframe rfl
  · cases hcall

/-! ## Runs -/

theorem swapsSince_concat (calls : List (Sections.Call VideoSection VideoFree))
    (c : Sections.Call VideoSection VideoFree) :
    swapsSince (calls ++ [c]) = countSwaps (swapsSince calls) c := List.foldl_concat ..

theorem tracks_init : Tracks none VideoState.init := ⟨distinct_init, rfl, rfl⟩

theorem tracks_of_run {calls : List (Sections.Call VideoSection VideoFree)} {s : VideoState}
    (hrun : Runs.run videoProgram.call VideoState.init calls = some s)
    (heven : CallbacksEven calls) : Tracks (swapsSince calls) s := by
  induction calls using List.reverseRecOn generalizing s with
  | nil =>
    cases hrun
    exact tracks_init
  | append_singleton calls c ih =>
    obtain ⟨s₁, hrun₁, hcall⟩ := Runs.run_concat.1 hrun
    have htracks := ih hrun₁ fun pre n hpre => heven pre n (hpre.trans (List.prefix_append _ _))
    rw [swapsSince_concat]
    apply htracks.call hcall
    rintro rfl m hm
    exact heven calls m (List.prefix_refl _) hm

/-- The driver never has the frame that is copied exactly if every callback
during a copy comes at an even number of swaps. -/
theorem never_given_iff {calls : List (Sections.Call VideoSection VideoFree)} {s : VideoState}
    (hrun : Runs.run videoProgram.call VideoState.init calls = some s) :
    NeverGiven calls ↔ CallbacksEven calls := by
  constructor
  · intro hnever
    induction calls using List.reverseRecOn generalizing s with
    | nil =>
      intro pre n hpre
      simp at hpre
    | append_singleton calls c ih =>
      obtain ⟨s₁, hrun₁, hcall⟩ := Runs.run_concat.1 hrun
      have hfront := ih hrun₁ fun pre s hpre => hnever pre s (hpre.trans (List.prefix_append _ _))
      intro pre n hpre hn
      rcases List.prefix_concat_iff.1 hpre with hlast | hpre
      · obtain ⟨rfl, hc⟩ := List.append_inj' hlast rfl
        cases hc
        have htracks := tracks_of_run hrun₁ hfront
        rw [hn] at htracks
        exact htracks.even_of_notGiven hcall (hnever _ s (List.prefix_refl _) hrun)
      · exact hfront pre n hpre hn
  · intro heven pre s₁ hpre hrun₁
    have htracks := tracks_of_run hrun₁ fun pre' n hpre' => heven pre' n (hpre'.trans hpre)
    exact htracks.notGiven

/-- Two swaps, then a callback, during one copy. -/
def callbackBehindTwo : List (Sections.Call VideoSection VideoFree) :=
  [.free .getVideoFrame, .whole .swapVideoFrontBuffer, .free .convert,
    .whole .swapVideoFrontBuffer, .free .convert, .whole .swapVideoBackBuffer, .free .count,
    .free .copied]

/-- The callback finds two swaps, and the driver never has the frame. -/
theorem never_given_iff_two : CallbacksEven callbackBehindTwo ∧ NeverGiven callbackBehindTwo := by
  have heven : CallbacksEven callbackBehindTwo := by
    intro pre n hpre hn
    have hchecked : Runs.checkedCuts (fun before c =>
        c != .whole .swapVideoBackBuffer || (swapsSince before).all (· % 2 == 0)) []
        callbackBehindTwo = true := by decide
    have hcut := Runs.of_checkedCuts hchecked hpre
    rw [List.nil_append, hn] at hcut
    simpa using hcut
  obtain ⟨s, hrun⟩ : ∃ s,
      Runs.run videoProgram.call VideoState.init callbackBehindTwo = some s := ⟨_, rfl⟩
  exact ⟨heven, (never_given_iff hrun).2 heven⟩

/-- The first frame is dumped.  One swap and one callback later the driver
completes the second one. -/
def callbackBehindOne : List (Sections.Call VideoSection VideoFree) :=
  [.free .fill, .whole .swapVideoBackBuffer, .free .count, .whole .swapVideoFrontBuffer,
    .free .convert, .free .getVideoFrame, .whole .swapVideoFrontBuffer,
    .whole .swapVideoBackBuffer, .free .count, .free .fill]

/-- The driver has the frame that is copied, and the second frame ends up in
it. -/
theorem callbackBehindOne_given :
    (Runs.run videoProgram.call VideoState.init (callbackBehindOne.take 8)).map
          (fun s => (s.dframe, s.kinect.video.back)) = some (some (.slot 0), 0) ∧
      (Runs.run videoProgram.call VideoState.init (callbackBehindOne.take 6)).map
          (fun s => s.dframe.map s.kinect.frameIn) = some (some (some 1)) ∧
      (Runs.run videoProgram.call VideoState.init callbackBehindOne).map
          (fun s => s.dframe.map s.kinect.frameIn) = some (some (some 2)) ∧
      ¬NeverGiven callbackBehindOne := by
  refine ⟨rfl, rfl, rfl, ?_⟩
  intro hnever
  have hnot := hnever (callbackBehindOne.take 8) _ (List.take_prefix 8 _) rfl
  exact hnot 0 rfl rfl

end MinotaurRobot.Camera
