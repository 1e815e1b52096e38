import Mathlib.Data.List.TakeWhile
import Mathlib.Tactic.Common

/-!
# Frames in a stream with a sync element

A stream carries frames of `size` elements, and a frame starts with a sync
element.  The sync element may also occur inside a frame, so where the frames
start depends on where the receiver begins to read.

* `starts` and `residue` describe the receiver as an automaton that reads one
  element at a time: the offsets of the frames it finds, and how much of an
  open frame is still to come.  Both split at every point of the stream.
* `drain` is a receiver that works on a queue.  It drops elements up to a sync
  element and takes a whole frame, as long as more than `size` elements are
  queued.
* `receive` is `drain` run once for each chunk that arrives.  `Caught` is kept
  by every chunk (`Caught.receive`), and `Caught.served_eq` says that the
  frames depend on the stream only: they are the frames of the automaton that
  lie at least one element before the end of the stream, however the stream
  was cut.
-/

namespace MinotaurRobot.Lib.Framing

variable {α : Type} (sync : α → Bool) (size : Nat)

/-! ## The automaton -/

/-- The offsets at which a frame starts, for a stream whose first element has
offset `offset` and with `skip` elements of an open frame still to come. -/
def starts : Nat → Nat → List α → List Nat
  | _, _, [] => []
  | skip + 1, offset, _ :: xs => starts skip (offset + 1) xs
  | 0, offset, x :: xs =>
    if sync x then offset :: starts (size - 1) (offset + 1) xs
    else starts 0 (offset + 1) xs

/-- How much of an open frame is still to come after the stream. -/
def residue : Nat → List α → Nat
  | skip, [] => skip
  | skip + 1, _ :: xs => residue skip xs
  | 0, x :: xs => if sync x then residue (size - 1) xs else residue 0 xs

/-- The frame at an offset. -/
def frameAt (stream : List α) (offset : Nat) : List α :=
  (stream.drop offset).take size

variable {sync size}

theorem starts_append (skip offset : Nat) (xs ys : List α) :
    starts sync size skip offset (xs ++ ys) =
      starts sync size skip offset xs ++
        starts sync size (residue sync size skip xs) (offset + xs.length) ys := by
  induction xs generalizing skip offset with
  | nil => cases skip <;> rfl
  | cons x xs ih =>
    rw [List.cons_append, List.length_cons, Nat.add_comm xs.length, ← Nat.add_assoc]
    cases skip with
    | succ skip => exact ih skip (offset + 1)
    | zero =>
      rw [starts, starts, residue]
      split
      · rw [ih, List.cons_append]
      · exact ih 0 (offset + 1)

theorem residue_append (skip : Nat) (xs ys : List α) :
    residue sync size skip (xs ++ ys) =
      residue sync size (residue sync size skip xs) ys := by
  induction xs generalizing skip with
  | nil => cases skip <;> rfl
  | cons x xs ih =>
    cases skip with
    | succ skip => exact ih skip
    | zero =>
      rw [List.cons_append, residue, residue]
      split
      · exact ih _
      · exact ih 0

/-- The offsets move with the offset of the first element. -/
theorem starts_shift (skip offset : Nat) (xs : List α) :
    starts sync size skip offset xs =
      (starts sync size skip 0 xs).map (offset + ·) := by
  suffices h : ∀ (xs : List α) (skip a b : Nat), starts sync size skip (a + b) xs =
      (starts sync size skip b xs).map (a + ·) from h xs skip offset 0
  intro xs
  induction xs with
  | nil => intro skip a b; cases skip <;> rfl
  | cons x xs ih =>
    intro skip a b
    cases skip with
    | succ skip => exact ih skip a (b + 1)
    | zero =>
      rw [starts, starts]
      split
      · rw [List.map_cons, Nat.add_assoc, ih]
      · rw [Nat.add_assoc, ih]

/-- A frame starts inside the stream, and not before the open frame ends. -/
theorem starts_mem_bounds {skip offset o : Nat} {xs : List α}
    (h : o ∈ starts sync size skip offset xs) :
    offset + skip ≤ o ∧ o < offset + xs.length := by
  induction xs generalizing skip offset with
  | nil => cases skip <;> simp [starts] at h
  | cons x xs ih =>
    rw [List.length_cons]
    cases skip with
    | succ skip =>
      have := @ih skip (offset + 1) h
      omega
    | zero =>
      rw [starts] at h
      split at h
      · rcases List.mem_cons.1 h with rfl | h
        · omega
        · have := ih h
          omega
      · have := ih h
        omega

/-- The offsets are strictly increasing. -/
theorem starts_pairwise (skip offset : Nat) (xs : List α) :
    (starts sync size skip offset xs).Pairwise (· < ·) := by
  induction xs generalizing skip offset with
  | nil => cases skip <;> exact List.Pairwise.nil
  | cons x xs ih =>
    cases skip with
    | succ skip => exact ih skip (offset + 1)
    | zero =>
      unfold starts
      split
      · refine List.Pairwise.cons (fun o ho => ?_) (ih _ _)
        have := starts_mem_bounds ho
        omega
      · exact ih 0 (offset + 1)

/-- The elements of an open frame are passed over, whatever they are. -/
theorem open_frame {skip : Nat} (offset : Nat) {xs : List α} (h : xs.length ≤ skip) :
    starts sync size skip offset xs = [] ∧
      residue sync size skip xs = skip - xs.length := by
  induction xs generalizing skip offset with
  | nil => cases skip <;> exact ⟨rfl, rfl⟩
  | cons x xs ih =>
    cases skip with
    | zero => simp at h
    | succ skip =>
      rw [List.length_cons, Nat.add_sub_add_right]
      exact ih (offset + 1) (by simpa using h)

/-- A stretch without a sync element starts no frame and runs an open frame
down. -/
theorem no_sync {xs : List α} (h : ∀ x ∈ xs, sync x = false) (skip offset : Nat) :
    starts sync size skip offset xs = [] ∧
      residue sync size skip xs = skip - xs.length := by
  induction xs generalizing skip offset with
  | nil => cases skip <;> exact ⟨rfl, rfl⟩
  | cons x xs ih =>
    have htail := fun skip => ih (fun y hy => h y (List.mem_cons_of_mem x hy)) skip
      (offset + 1)
    cases skip with
    | succ skip =>
      rw [List.length_cons, Nat.add_sub_add_right]
      exact htail skip
    | zero =>
      rw [starts, residue, h x (List.mem_cons_self ..), List.length_cons]
      have := htail 0
      rw [Nat.zero_sub] at this ⊢
      exact this

/-- A sync element in a stretch shorter than a frame opens a frame that the
stretch does not close. -/
theorem residue_ne_zero {xs : List α} (hlen : xs.length < size) (h : ∃ x ∈ xs, sync x = true) :
    residue sync size 0 xs ≠ 0 := by
  induction xs with
  | nil => simp at h
  | cons x xs ih =>
    rw [List.length_cons] at hlen
    unfold residue
    split
    · rw [(open_frame 0 (by omega)).2]
      omega
    · rename_i hx
      obtain ⟨y, hy, hsync⟩ := h
      rcases List.mem_cons.1 hy with rfl | hy
      · exact absurd hsync hx
      · exact ih (by omega) ⟨y, hy, hsync⟩

theorem skip_le_residue (skip : Nat) (xs : List α) :
    skip ≤ xs.length + residue sync size skip xs := by
  induction xs generalizing skip with
  | nil => cases skip <;> simp [residue]
  | cons x xs ih =>
    cases skip with
    | zero => exact Nat.zero_le _
    | succ skip =>
      have := ih skip
      rw [residue, List.length_cons]
      omega

/-- A frame ends inside the stream, up to what is still to come of it. -/
theorem start_add_size_le {skip offset o : Nat} {xs : List α}
    (h : o ∈ starts sync size skip offset xs) :
    o + size ≤ offset + xs.length + residue sync size skip xs := by
  induction xs generalizing skip offset with
  | nil => cases skip <;> simp [starts] at h
  | cons x xs ih =>
    rw [List.length_cons]
    cases skip with
    | succ skip =>
      have := @ih skip (offset + 1) h
      unfold residue
      omega
    | zero =>
      rw [starts] at h
      unfold residue
      split at h
      · rename_i hx
        rw [if_pos hx]
        rcases List.mem_cons.1 h with rfl | h
        · have := @skip_le_residue α sync size (size - 1) xs
          omega
        · have := ih h
          omega
      · rename_i hx
        rw [if_neg hx]
        have := ih h
        omega

/-- Less than a frame is ever still to come. -/
theorem residue_lt {skip : Nat} (h : skip < size) (xs : List α) :
    residue sync size skip xs < size := by
  induction xs generalizing skip with
  | nil => cases skip <;> exact h
  | cons x xs ih =>
    cases skip with
    | succ skip => exact ih (by omega)
    | zero =>
      unfold residue
      split
      · exact ih (by omega)
      · exact ih h

/-- `size` elements of which the first is a sync element. -/
structure IsFrame (sync : α → Bool) (size : Nat) (frame : List α) : Prop where
  length_eq : frame.length = size
  head_sync : ∃ x xs, frame = x :: xs ∧ sync x = true

/-- A frame read from its first element on is found, and leaves no rest. -/
theorem IsFrame.read {frame : List α} (h : IsFrame sync size frame) (offset : Nat) :
    starts sync size 0 offset frame = [offset] ∧ residue sync size 0 frame = 0 := by
  obtain ⟨x, xs, rfl, hx⟩ := h.head_sync
  have hlen := h.length_eq
  rw [List.length_cons] at hlen
  have hopen := @open_frame α sync size (size - 1) (offset + 1) xs (by omega)
  rw [starts, residue, if_pos hx, if_pos hx, hopen.1, hopen.2]
  exact ⟨rfl, by omega⟩

/-- A stream of whole frames is read frame by frame. -/
theorem read_frames {frames : List (List α)} (h : ∀ f ∈ frames, IsFrame sync size f)
    (offset : Nat) :
    starts sync size 0 offset frames.flatten =
        (List.range frames.length).map (fun k => offset + size * k) ∧
      residue sync size 0 frames.flatten = 0 := by
  induction frames generalizing offset with
  | nil => exact ⟨rfl, rfl⟩
  | cons f frames ih =>
    have hf := h f (List.mem_cons_self ..)
    have htail := ih (fun g hg => h g (List.mem_cons_of_mem f hg)) (offset + size)
    have hread := hf.read offset
    rw [List.flatten_cons, starts_append, residue_append, hread.1, hread.2,
      hf.length_eq, htail.1, htail.2, List.length_cons, List.range_succ_eq_map,
      List.map_cons, List.map_map]
    refine ⟨?_, rfl⟩
    rw [Nat.mul_zero, Nat.add_zero, List.singleton_append]
    congr 1
    refine List.map_congr_left fun k _ => ?_
    rw [Function.comp, Nat.mul_succ]
    omega

/-! ## Streams of whole packets -/

theorem length_flatten_of_forall {packets : List (List α)}
    (h : ∀ p ∈ packets, p.length = size) :
    packets.flatten.length = size * packets.length := by
  induction packets with
  | nil => simp
  | cons p packets ih =>
    rw [List.flatten_cons, List.length_append, h p (List.mem_cons_self ..),
      ih fun q hq => h q (List.mem_cons_of_mem p hq), List.length_cons, Nat.mul_succ]
    omega

/-- A cut at a multiple of the packet size is a cut between packets. -/
theorem take_flatten_of_forall {packets : List (List α)}
    (h : ∀ p ∈ packets, p.length = size) (k : Nat) :
    packets.flatten.take (size * k) = (packets.take k).flatten := by
  induction packets generalizing k with
  | nil => simp
  | cons p packets ih =>
    have hp := h p (List.mem_cons_self ..)
    cases k with
    | zero => simp
    | succ k =>
      rw [List.flatten_cons, List.take_succ_cons, List.flatten_cons, Nat.mul_succ,
        Nat.add_comm, ← hp, List.take_length_add_append, hp,
        ih fun q hq => h q (List.mem_cons_of_mem p hq)]

/-- A cut inside a packet leaves a part of that packet. -/
theorem take_flatten_add {packets : List (List α)} (h : ∀ p ∈ packets, p.length = size)
    (k : Nat) {r : Nat} (hr : r ≤ size) :
    packets.flatten.take (size * k + r) =
      (packets.take k).flatten ++ (packets[k]?.getD []).take r := by
  rw [List.take_add, take_flatten_of_forall h]
  congr 1
  induction packets generalizing k with
  | nil => simp
  | cons p packets ih =>
    have hp := h p (List.mem_cons_self ..)
    have htail := ih fun q hq => h q (List.mem_cons_of_mem p hq)
    cases k with
    | zero =>
      rw [Nat.mul_zero, List.drop_zero, List.flatten_cons, List.getElem?_cons_zero,
        Option.getD_some, List.take_append_of_le_length (by omega)]
    | succ k =>
      rw [List.flatten_cons, Nat.mul_succ, Nat.add_comm, ← hp, List.drop_length_add_append, hp,
        List.getElem?_cons_succ]
      exact htail k

/-- What fits of a stream of packets is made of whole packets, exactly if all
packets fit or the room is a multiple of the packet size. -/
theorem exists_sublist_flatten_eq_take_iff {packets : List (List α)}
    (h : ∀ p ∈ packets, p.length = size) (room : Nat) :
    (∃ kept : List (List α), kept.Sublist packets ∧ packets.flatten.take room = kept.flatten) ↔
      size * packets.length ≤ room ∨ size ∣ room := by
  have hlen := length_flatten_of_forall h
  constructor
  · rintro ⟨kept, hsub, hkept⟩
    have hkeptlen := length_flatten_of_forall fun p hp => h p (hsub.subset hp)
    rw [← hkept, List.length_take, hlen] at hkeptlen
    by_cases hroom : size * packets.length ≤ room
    · exact Or.inl hroom
    · rw [Nat.min_eq_left (by omega)] at hkeptlen
      exact Or.inr ⟨_, hkeptlen⟩
  · rintro (hroom | ⟨k, rfl⟩)
    · exact ⟨packets, List.Sublist.refl _, List.take_of_length_le (by omega)⟩
    · exact ⟨packets.take k, List.take_sublist .., take_flatten_of_forall h k⟩

/-! ## The receiver on a queue -/

variable (sync size)

/-- Take frames off a queue while more than `size` elements are queued.
Returns the frames and the rest of the queue. -/
def drain : Nat → List α → List (List α) × List α
  | 0, queue => ([], queue)
  | fuel + 1, queue =>
    if size < queue.length then
      let queue' := queue.dropWhile fun x => !sync x
      if size < queue'.length then
        let (frames, rest) := drain fuel (queue'.drop size)
        (queue'.take size :: frames, rest)
      else
        drain fuel queue'
    else
      ([], queue)

variable {sync size}

/-- A short queue is left alone. -/
theorem drain_short {queue : List α} (h : queue.length ≤ size) (fuel : Nat) :
    drain sync size fuel queue = ([], queue) := by
  cases fuel with
  | zero => rfl
  | succ fuel => rw [drain, if_neg (by omega)]

/-- What `drain` has read of a queue: a prefix that leaves no open frame, with
its frames, each of which was followed by at least one more element. -/
structure Drained (sync : α → Bool) (size : Nat) (queue : List α)
    (out : List (List α) × List α) (eaten : List α) : Prop where
  split : queue = eaten ++ out.2
  closed : residue sync size 0 eaten = 0
  short : out.2.length ≤ size
  frames : out.1 = (starts sync size 0 0 eaten).map (frameAt size eaten)
  followed : ∀ o ∈ starts sync size 0 0 eaten, o + size < queue.length

/-- Reading a closed prefix first does not change what is read behind it. -/
theorem starts_behind {xs ys : List α} (h : residue sync size 0 xs = 0) :
    starts sync size 0 0 (xs ++ ys) =
      starts sync size 0 0 xs ++ (starts sync size 0 0 ys).map (xs.length + ·) := by
  rw [starts_append, h, starts_shift 0 (0 + xs.length), Nat.zero_add]

theorem frameAt_behind (size : Nat) (xs ys : List α) (o : Nat) :
    frameAt size (xs ++ ys) (xs.length + o) = frameAt size ys o := by
  rw [frameAt, frameAt, List.drop_append, List.drop_eq_nil_of_le (by omega),
    Nat.add_sub_cancel_left, List.nil_append]

/-- Garbage in front of a queue is dropped and changes nothing else. -/
private theorem Drained.behind_garbage {garbage queue eaten : List α}
    {out : List (List α) × List α} (hg : ∀ x ∈ garbage, sync x = false)
    (h : Drained sync size queue out eaten) :
    Drained sync size (garbage ++ queue) out (garbage ++ eaten) := by
  have hno := @no_sync α sync size garbage hg 0 0
  have hclosed : residue sync size 0 garbage = 0 := by rw [hno.2, Nat.zero_sub]
  refine ⟨?_, ?_, h.short, ?_, ?_⟩
  · rw [List.append_assoc, ← h.split]
  · rw [residue_append, hclosed, h.closed]
  · rw [starts_behind hclosed, hno.1, List.nil_append, h.frames, List.map_map]
    exact List.map_congr_left fun o _ => (frameAt_behind size garbage eaten o).symm
  · intro o ho
    rw [starts_behind hclosed, hno.1, List.nil_append, List.mem_map] at ho
    obtain ⟨o', ho', rfl⟩ := ho
    have := h.followed o' ho'
    rw [List.length_append]
    omega

/-- A frame in front of a queue is the first frame read. -/
private theorem Drained.behind_frame {frame queue eaten : List α}
    {out : List (List α) × List α} (hf : IsFrame sync size frame)
    (hq : 0 < queue.length) (h : Drained sync size queue out eaten) :
    Drained sync size (frame ++ queue) (frame :: out.1, out.2) (frame ++ eaten) := by
  have hread := hf.read 0
  refine ⟨?_, ?_, h.short, ?_, ?_⟩
  · rw [List.append_assoc, ← h.split]
  · rw [residue_append, hread.2, h.closed]
  · rw [starts_behind hread.2, hread.1, List.singleton_append, List.map_cons,
      List.map_map, h.frames]
    have hfirst : frameAt size (frame ++ eaten) 0 = frame := by
      rw [frameAt, List.drop_zero, List.take_left' hf.length_eq]
    rw [hfirst]
    refine congrArg (frame :: ·) (List.map_congr_left fun o _ => ?_)
    rw [Function.comp, ← hf.length_eq, frameAt_behind]
  · intro o ho
    rw [starts_behind hread.2, hread.1, List.singleton_append, List.mem_cons,
      List.mem_map] at ho
    have hlen := hf.length_eq
    rw [List.length_append]
    rcases ho with rfl | ⟨o', ho', rfl⟩
    · omega
    · have := h.followed o' ho'
      omega

/-- The first element that `dropWhile` keeps is a sync element. -/
private theorem dropWhile_isFrame {queue : List α} (hsize : 0 < size)
    (h : size < (queue.dropWhile fun x => !sync x).length) :
    IsFrame sync size ((queue.dropWhile fun x => !sync x).take size) := by
  have hne : (queue.dropWhile fun x => !sync x) ≠ [] := by
    intro hnil
    rw [hnil] at h
    simp at h
  have hhead := List.head_dropWhile_not (fun x => !sync x) hne
  obtain ⟨x, xs, hx⟩ := List.exists_cons_of_ne_nil hne
  simp only [hx, List.head_cons, Bool.not_eq_false'] at hhead
  obtain ⟨k, rfl⟩ := Nat.exists_eq_succ_of_ne_zero (Nat.pos_iff_ne_zero.1 hsize)
  refine ⟨?_, x, xs.take k, ?_, hhead⟩
  · rw [List.length_take]
    omega
  · rw [hx, List.take_succ_cons]

/-- With enough fuel `drain` stops because its loop test fails, and has read a
closed prefix of the queue. -/
theorem drain_spec (hsize : 0 < size) :
    ∀ (fuel : Nat) (queue : List α), queue.length ≤ fuel →
      ∃ eaten, Drained sync size queue (drain sync size fuel queue) eaten := by
  intro fuel
  induction fuel with
  | zero =>
    intro queue hfuel
    exact ⟨[], by simp [drain], rfl, by simp only [drain]; omega, rfl, by simp [starts]⟩
  | succ fuel ih =>
    intro queue hfuel
    unfold drain
    split
    · have hsplit := List.takeWhile_append_dropWhile (p := fun x => !sync x) (l := queue)
      have hgarbage : ∀ x ∈ queue.takeWhile (fun x => !sync x), sync x = false := by
        intro x hx
        simpa using List.mem_takeWhile_imp hx
      have hle : (queue.dropWhile fun x => !sync x).length ≤ queue.length :=
        (List.dropWhile_sublist _).length_le
      dsimp only
      split
      · rename_i hlong
        have hdrop : 0 < ((queue.dropWhile fun x => !sync x).drop size).length := by
          rw [List.length_drop]
          omega
        obtain ⟨eaten, h⟩ := ih ((queue.dropWhile fun x => !sync x).drop size)
          (by rw [List.length_drop]; omega)
        have hframe := h.behind_frame (dropWhile_isFrame hsize hlong) hdrop
        rw [List.take_append_drop] at hframe
        have hall := hframe.behind_garbage hgarbage
        rw [hsplit] at hall
        exact ⟨_, hall⟩
      · obtain ⟨eaten, h⟩ := ih (queue.dropWhile fun x => !sync x) (by omega)
        have hall := h.behind_garbage hgarbage
        rw [hsplit] at hall
        exact ⟨_, hall⟩
    · exact ⟨[], by simp, rfl, by dsimp only; omega, rfl, by simp [starts]⟩

/-! ## Chunks -/

variable (sync size)

/-- A receiver between two chunks: the unread queue and the frames so far. -/
structure Receiver (α : Type) where
  queue : List α
  served : List (List α)

/-- Take one chunk in and drain the queue. -/
def receive (r : Receiver α) (chunk : List α) : Receiver α :=
  let (frames, rest) := drain sync size (r.queue ++ chunk).length (r.queue ++ chunk)
  ⟨rest, r.served ++ frames⟩

/-- The offsets of the frames that are followed by at least one more element. -/
def complete (stream : List α) : List Nat :=
  (starts sync size 0 0 stream).filter fun o => o + size < stream.length

/-- The receiver has read a closed prefix of the stream and served its
frames. -/
structure Caught (stream : List α) (r : Receiver α) : Prop where
  short : r.queue.length ≤ size
  eaten : ∃ eaten, stream = eaten ++ r.queue ∧ residue sync size 0 eaten = 0 ∧
    r.served = (starts sync size 0 0 eaten).map (frameAt size eaten) ∧
    ∀ o ∈ starts sync size 0 0 eaten, o + size < stream.length

variable {sync size}

/-- An empty chunk changes nothing. -/
theorem receive_nil {r : Receiver α} (h : r.queue.length ≤ size) :
    receive sync size r [] = r := by
  rw [receive, List.append_nil, drain_short h]
  dsimp only
  rw [List.append_nil]

theorem caught_start : Caught sync size [] (⟨[], []⟩ : Receiver α) :=
  ⟨Nat.zero_le _, [], rfl, rfl, rfl, by simp [starts]⟩

/-- A start in a closed prefix is the start of a frame inside the prefix. -/
theorem start_inside {xs : List α} (h : residue sync size 0 xs = 0) {o : Nat}
    (ho : o ∈ starts sync size 0 0 xs) : o + size ≤ xs.length := by
  have := start_add_size_le ho
  omega

/-- The frames of a stream of whole frames. -/
theorem map_frameAt_flatten {frames : List (List α)} (h : ∀ f ∈ frames, f.length = size) :
    (List.range frames.length).map (fun k => frameAt size frames.flatten (size * k)) =
      frames := by
  induction frames with
  | nil => rfl
  | cons f frames ih =>
    have hf := h f (List.mem_cons_self ..)
    rw [List.length_cons, List.range_succ_eq_map, List.map_cons, List.map_map,
      List.flatten_cons]
    congr 1
    · rw [Nat.mul_zero, frameAt, List.drop_zero, List.take_left' hf]
    · conv_rhs => rw [← ih fun g hg => h g (List.mem_cons_of_mem f hg)]
      refine List.map_congr_left fun k _ => ?_
      rw [Function.comp, Nat.mul_succ, Nat.add_comm, ← hf, frameAt_behind]

/-- A receiver that has served whole frames and still waits for an element
behind the next one is caught up. -/
theorem caught_frames {frames : List (List α)} (h : ∀ f ∈ frames, IsFrame sync size f)
    {rest : List α} (hshort : rest.length ≤ size) (hmore : frames ≠ [] → rest ≠ []) :
    Caught sync size (frames.flatten ++ rest) ⟨rest, frames⟩ := by
  have hlen : ∀ f ∈ frames, f.length = size := fun f hf => (h f hf).length_eq
  obtain ⟨hstarts, hclosed⟩ := read_frames h 0
  refine ⟨hshort, frames.flatten, rfl, hclosed, ?_, ?_⟩
  · rw [hstarts, List.map_map]
    conv_lhs => rw [← map_frameAt_flatten hlen]
    refine List.map_congr_left fun k _ => ?_
    rw [Function.comp, Nat.zero_add]
  · intro o ho
    have hinside := start_inside hclosed ho
    have hne : frames ≠ [] := by
      rintro rfl
      simp [starts] at ho
    have := List.length_pos_iff.2 (hmore hne)
    rw [List.length_append]
    omega

private theorem frameAt_append {xs ys : List α} {o : Nat} (h : o + size ≤ xs.length) :
    frameAt size (xs ++ ys) o = frameAt size xs o := by
  rw [frameAt, frameAt, List.drop_append_of_le_length (by omega),
    List.take_append_of_le_length (by rw [List.length_drop]; omega)]

/-- One chunk keeps the receiver caught up with the stream. -/
theorem Caught.receive (hsize : 0 < size) {stream chunk : List α} {r : Receiver α}
    (h : Caught sync size stream r) :
    Caught sync size (stream ++ chunk) (receive sync size r chunk) := by
  obtain ⟨eaten, hstream, hclosed, hserved, hfollowed⟩ := h.eaten
  obtain ⟨more, hd⟩ := @drain_spec α sync size hsize _ (r.queue ++ chunk) (Nat.le_refl _)
  refine ⟨hd.short, eaten ++ more, ?_, ?_, ?_, ?_⟩
  · rw [hstream, List.append_assoc, hd.split, List.append_assoc]
    rfl
  · rw [residue_append, hclosed, hd.closed]
  · rw [starts_behind hclosed, List.map_append, List.map_map]
    have hserved' : (Framing.receive sync size r chunk).served = r.served ++
      (drain sync size (r.queue ++ chunk).length (r.queue ++ chunk)).1 := rfl
    rw [hserved', hserved, hd.frames]
    congr 1
    · exact List.map_congr_left fun o ho => (frameAt_append (start_inside hclosed ho)).symm
    · exact List.map_congr_left fun o _ => (frameAt_behind size eaten more o).symm
  · intro o ho
    rw [starts_behind hclosed, List.mem_append, List.mem_map] at ho
    rw [List.length_append]
    rcases ho with ho | ⟨o', ho', rfl⟩
    · have := hfollowed o ho
      omega
    · have := hd.followed o' ho'
      rw [hstream, List.length_append]
      rw [List.length_append] at this
      omega

/-- What has been served is what the automaton finds, up to the frames that
still wait for an element behind them. -/
theorem Caught.served_eq {stream : List α} {r : Receiver α}
    (h : Caught sync size stream r) :
    r.served = (complete sync size stream).map (frameAt size stream) := by
  obtain ⟨eaten, hstream, hclosed, hserved, hfollowed⟩ := h.eaten
  have hshort := h.short
  have hkept : (starts sync size 0 0 eaten).filter (fun o => o + size < stream.length) =
      starts sync size 0 0 eaten :=
    List.filter_eq_self.2 fun o ho => decide_eq_true (hfollowed o ho)
  have hopen : ((starts sync size 0 0 r.queue).map (eaten.length + ·)).filter
      (fun o => o + size < stream.length) = [] := by
    refine List.filter_eq_nil_iff.2 fun o ho => ?_
    obtain ⟨o', _, rfl⟩ := List.mem_map.1 ho
    rw [hstream, List.length_append]
    simp only [decide_eq_true_eq]
    omega
  have hcomplete : complete sync size stream = starts sync size 0 0 eaten := by
    unfold complete
    conv_lhs => rw [show starts sync size 0 0 stream = _ from by
      rw [hstream, starts_behind hclosed]]
    rw [List.filter_append, hkept, hopen, List.append_nil]
  rw [hcomplete, hserved]
  refine List.map_congr_left fun o ho => ?_
  rw [hstream, frameAt_append (start_inside hclosed ho)]

/-! ## Frames that wait -/

variable (sync size) in
/-- A whole frame is queued, from some sync element on. -/
def Waiting (queue : List α) : Prop :=
  ∃ pre x post, queue = pre ++ x :: post ∧ sync x = true ∧ size - 1 ≤ post.length

variable (sync size) in
/-- The last frame of the stream ends with the stream. -/
def EndsFrame (stream : List α) : Prop :=
  ∃ o ∈ starts sync size 0 0 stream, o + size = stream.length

instance [DecidableEq α] (stream : List α) : Decidable (EndsFrame sync size stream) :=
  inferInstanceAs (Decidable (∃ o ∈ starts sync size 0 0 stream, o + size = stream.length))

/-- In a short queue only a frame that fills it can wait. -/
theorem waiting_iff (hsize : 0 < size) {queue : List α} (hshort : queue.length ≤ size) :
    Waiting sync size queue ↔ EndsFrame sync size queue := by
  constructor
  · rintro ⟨pre, x, post, rfl, hx, hpost⟩
    rw [List.length_append, List.length_cons] at hshort
    have hpre : pre = [] := List.length_eq_zero_iff.1 (by omega)
    subst hpre
    refine ⟨0, ?_, ?_⟩
    · rw [List.nil_append, starts, if_pos hx]
      exact List.mem_cons_self ..
    · rw [List.nil_append, List.length_cons]
      omega
  · rintro ⟨o, ho, hend⟩
    have hzero : o = 0 := by omega
    subst hzero
    cases queue with
    | nil => simp [starts] at ho
    | cons x post =>
      rw [List.length_cons] at hend
      refine ⟨[], x, post, rfl, ?_, by omega⟩
      rw [starts] at ho
      split at ho
      · assumption
      · have hbound := starts_mem_bounds ho
        omega

/-- A frame waits with a receiver exactly if the stream ends with it. -/
theorem Caught.waiting_iff (hsize : 0 < size) {stream : List α} {r : Receiver α}
    (h : Caught sync size stream r) :
    Waiting sync size r.queue ↔ EndsFrame sync size stream := by
  obtain ⟨eaten, hstream, hclosed, -, hfollowed⟩ := h.eaten
  rw [Framing.waiting_iff hsize h.short]
  have hstarts : starts sync size 0 0 stream =
      starts sync size 0 0 eaten ++ (starts sync size 0 0 r.queue).map (eaten.length + ·) := by
    rw [hstream, starts_behind hclosed]
  have hlen : stream.length = eaten.length + r.queue.length := by
    rw [hstream, List.length_append]
  unfold EndsFrame
  rw [hstarts]
  constructor
  · rintro ⟨o, ho, hend⟩
    refine ⟨eaten.length + o, ?_, by omega⟩
    exact List.mem_append_right _ (List.mem_map_of_mem ho)
  · rintro ⟨o, ho, hend⟩
    rcases List.mem_append.1 ho with hbefore | hhere
    · have hlt := hfollowed o hbefore
      omega
    · obtain ⟨o', ho', rfl⟩ := List.mem_map.1 hhere
      exact ⟨o', ho', by omega⟩

/-! ## Frames with their offsets -/

variable (size) in
/-- The frame at an offset, with the offset. -/
def located (stream : List α) (offset : Nat) : Nat × List α := (offset, frameAt size stream offset)

variable (size) in
/-- Frames that follow each other from an offset on, with their offsets. -/
def placed : Nat → List (List α) → List (Nat × List α)
  | _, [] => []
  | offset, f :: frames => (offset, f) :: placed (offset + size) frames

/-- Whole frames that the automaton reads from their first element on are
found where they are. -/
theorem placed_eq {frames : List (List α)} (h : ∀ f ∈ frames, IsFrame sync size f)
    (before after : List α) :
    placed size before.length frames =
      (starts sync size 0 before.length frames.flatten).map
        (located size (before ++ (frames.flatten ++ after))) := by
  induction frames generalizing before with
  | nil => rfl
  | cons f frames ih =>
    have hf := h f (List.mem_cons_self ..)
    have hread := hf.read before.length
    have hhere : located size (before ++ ((f ++ frames.flatten) ++ after)) before.length =
        (before.length, f) := by
      rw [located, frameAt, List.drop_left, List.append_assoc, List.take_left' hf.length_eq]
    have htail := ih (fun g hg => h g (List.mem_cons_of_mem f hg)) (before ++ f)
    rw [List.length_append, hf.length_eq] at htail
    rw [List.flatten_cons, starts_append, hread.1, hread.2, hf.length_eq, List.singleton_append,
      List.map_cons, hhere, placed, htail, List.append_assoc, List.append_assoc]

/-- What is served of a part of a stream are the frames of the stream that end
before the end of the part. -/
theorem located_filter {part stream : List α} (h : part <+: stream) :
    ((starts sync size 0 0 stream).map (located size stream)).filter
        (fun q => q.1 + size < part.length) =
      (complete sync size part).map (located size part) := by
  obtain ⟨rest, rfl⟩ := h
  have hrest : (starts sync size (residue sync size 0 part) (0 + part.length) rest).filter
      (fun o => o + size < part.length) = [] := by
    refine List.filter_eq_nil_iff.2 fun o ho => ?_
    have := starts_mem_bounds ho
    simp only [decide_eq_true_eq]
    omega
  have hcomp : (fun q : Nat × List α => decide (q.1 + size < part.length)) ∘
      located size (part ++ rest) = fun o => decide (o + size < part.length) := rfl
  rw [List.filter_map, hcomp, starts_append, List.filter_append, hrest, List.append_nil,
    complete]
  refine List.map_congr_left fun o ho => ?_
  have := of_decide_eq_true (List.mem_filter.1 ho).2
  rw [located, located, frameAt_append (by omega)]

end MinotaurRobot.Lib.Framing
