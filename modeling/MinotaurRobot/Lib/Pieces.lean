import MinotaurRobot.Lib.Framing

/-!
# Streams of frames and noise

A stream that is put together from frames and from stretches without a sync
element.  The automaton finds the frames and nothing else, where they are
(`located_pieces`).

`served_pieces` is the same for a receiver of a part of the stream: it serves
the frames from the first one on, and all that are followed by an element.
-/

namespace MinotaurRobot.Lib.Framing

variable {α : Type}

inductive Piece (α : Type) where
  | frame (xs : List α)
  | noise (xs : List α)

def Piece.elems : Piece α → List α
  | .frame xs => xs
  | .noise xs => xs

/-- The stream that the pieces make. -/
def joined (pieces : List (Piece α)) : List α := pieces.flatMap Piece.elems

/-- The frames among the pieces. -/
def framesOf (pieces : List (Piece α)) : List (List α) :=
  pieces.filterMap fun p =>
    match p with
    | .frame xs => some xs
    | .noise _ => none

variable (sync : α → Bool) (size : Nat)

def Piece.Valid : Piece α → Prop
  | .frame xs => IsFrame sync size xs
  | .noise xs => ∀ x ∈ xs, sync x = false

/-- The frames with their offsets. -/
def placedPieces : Nat → List (Piece α) → List (Nat × List α)
  | _, [] => []
  | offset, .frame xs :: pieces => (offset, xs) :: placedPieces (offset + xs.length) pieces
  | offset, .noise xs :: pieces => placedPieces (offset + xs.length) pieces

variable {sync size}

theorem joined_append (xs ys : List (Piece α)) : joined (xs ++ ys) = joined xs ++ joined ys := by
  unfold joined
  rw [List.flatMap_append]

theorem placedPieces_append (offset : Nat) (xs ys : List (Piece α)) :
    placedPieces offset (xs ++ ys) =
      placedPieces offset xs ++ placedPieces (offset + (joined xs).length) ys := by
  induction xs generalizing offset with
  | nil => rfl
  | cons p xs ih =>
    have hlength : ∀ zs : List α, p.elems = zs →
        offset + (joined (p :: xs)).length = offset + zs.length + (joined xs).length := by
      rintro zs rfl
      show offset + (p.elems ++ joined xs).length = _
      rw [List.length_append, Nat.add_assoc]
    cases p with
    | frame zs => rw [List.cons_append, placedPieces, placedPieces, ih, hlength zs rfl,
        List.cons_append]
    | noise zs => rw [List.cons_append, placedPieces, placedPieces, ih, hlength zs rfl]

theorem placedPieces_snd (offset : Nat) (pieces : List (Piece α)) :
    (placedPieces offset pieces).map Prod.snd = framesOf pieces := by
  induction pieces generalizing offset with
  | nil => rfl
  | cons p pieces ih =>
    cases p with
    | frame xs => exact congrArg (xs :: ·) (ih _)
    | noise xs => exact ih _

/-- A frame ends inside the stream, and in front of the next one. -/
theorem placedPieces_bounds {pieces : List (Piece α)} (h : ∀ p ∈ pieces, p.Valid sync size)
    {offset : Nat} {q : Nat × List α} (hq : q ∈ placedPieces offset pieces) :
    offset ≤ q.1 ∧ q.1 + size ≤ offset + (joined pieces).length := by
  induction pieces generalizing offset with
  | nil => cases hq
  | cons p pieces ih =>
    have ih := @ih (fun p hp => h p (List.mem_cons_of_mem _ hp))
    have hlength : (joined (p :: pieces)).length = p.elems.length + (joined pieces).length :=
      List.length_append
    rw [hlength]
    cases p with
    | frame xs =>
      have hsize : xs.length = size := (h _ List.mem_cons_self).length_eq
      rcases List.mem_cons.1 hq with rfl | hq
      · simp only [Piece.elems]
        omega
      · have := ih hq
        simp only [Piece.elems]
        omega
    | noise xs =>
      have := ih hq
      simp only [Piece.elems]
      omega

/-- The automaton finds the frames where they are, and goes on behind them. -/
theorem located_pieces {pieces : List (Piece α)} (h : ∀ p ∈ pieces, p.Valid sync size)
    (before after : List α) :
    (starts sync size 0 before.length (joined pieces ++ after)).map
        (located size (before ++ (joined pieces ++ after))) =
      placedPieces before.length pieces ++
        (starts sync size 0 (before ++ joined pieces).length after).map
          (located size (before ++ (joined pieces ++ after))) := by
  induction pieces generalizing before with
  | nil =>
    show _ = [] ++ (starts sync size 0 (before ++ []).length after).map _
    rw [List.nil_append, List.append_nil]
    rfl
  | cons p pieces ih =>
    have htail := ih (fun p hp => h p (List.mem_cons_of_mem _ hp)) (before ++ p.elems)
    have hjoined : joined (p :: pieces) = p.elems ++ joined pieces := rfl
    have hread : (starts sync size 0 before.length (joined (p :: pieces) ++ after)).map
        (located size (before ++ (joined (p :: pieces) ++ after))) =
          (starts sync size 0 before.length p.elems).map
            (located size (before ++ (p.elems ++ (joined pieces ++ after)))) ++
          (starts sync size 0 (before ++ p.elems).length (joined pieces ++ after)).map
            (located size ((before ++ p.elems) ++ (joined pieces ++ after))) := by
      have hrest : residue sync size 0 p.elems = 0 := by
        cases p with
        | frame xs => exact ((h _ List.mem_cons_self).read 0).2
        | noise xs =>
          rw [Piece.elems, (no_sync (h _ List.mem_cons_self) 0 0).2, Nat.zero_sub]
      rw [hjoined, List.append_assoc, starts_append, hrest, List.map_append, List.length_append,
        List.append_assoc]
    rw [hread, htail]
    cases p with
    | frame xs =>
      have hframe : IsFrame sync size xs := h _ List.mem_cons_self
      have hhere : located size (before ++ (xs ++ (joined pieces ++ after))) before.length =
          (before.length, xs) := by
        rw [located, frameAt, List.drop_left, List.take_left' hframe.length_eq]
      rw [placedPieces, Piece.elems, (hframe.read before.length).1, List.map_singleton, hhere,
        hjoined, Piece.elems, List.length_append, List.append_assoc, List.append_assoc,
        List.append_assoc, List.singleton_append, List.cons_append]
    | noise xs =>
      rw [placedPieces, Piece.elems, (no_sync (h _ List.mem_cons_self) 0 _).1, List.map_nil,
        List.nil_append, hjoined, Piece.elems, List.length_append, List.append_assoc,
        List.append_assoc, List.append_assoc]

/-- Up to a bound, increasing offsets are taken from the front. -/
theorem prefix_filter {qs : List (Nat × List α)} (h : qs.Pairwise fun q q' => q.1 < q'.1)
    (size n : Nat) : qs.filter (fun q => q.1 + size < n) <+: qs := by
  induction qs with
  | nil => exact List.prefix_rfl
  | cons q qs ih =>
    rw [List.pairwise_cons] at h
    by_cases hq : q.1 + size < n
    · rw [List.filter_cons_of_pos (by simpa using hq), List.cons_prefix_cons]
      exact ⟨rfl, ih h.2⟩
    · have hnone : (q :: qs).filter (fun q => q.1 + size < n) = [] := by
        rw [List.filter_eq_nil_iff]
        intro q' hq'
        rw [decide_eq_true_iff]
        rcases List.mem_cons.1 hq' with rfl | hq'
        · exact hq
        · have := h.1 q' hq'
          omega
      rw [hnone]
      exact List.nil_prefix

theorem placedPieces_pairwise (hsize : 0 < size) {pieces : List (Piece α)}
    (h : ∀ p ∈ pieces, p.Valid sync size) (offset : Nat) :
    (placedPieces offset pieces).Pairwise fun q q' => q.1 < q'.1 := by
  induction pieces generalizing offset with
  | nil => exact List.Pairwise.nil
  | cons p pieces ih =>
    have hrest := fun p hp => h p (List.mem_cons_of_mem _ hp)
    cases p with
    | frame xs =>
      have hlength : xs.length = size := (h _ List.mem_cons_self).length_eq
      refine List.Pairwise.cons (fun q hq => ?_) (ih hrest _)
      have := placedPieces_bounds hrest hq
      show offset < q.1
      omega
    | noise xs => exact ih hrest _

/-- What is served of a part of a stream of pieces: frames from the first one
on, and all those with an element behind them. -/
theorem served_pieces (hsize : 0 < size) {pieces : List (Piece α)}
    (h : ∀ p ∈ pieces, p.Valid sync size) {tail : List α} (htail : tail.length < size)
    {part : List α} (hpart : part <+: joined pieces ++ tail) :
    (complete sync size part).map (frameAt size part) <+: framesOf pieces ∧
      ∀ pre, pre <+: pieces → (joined pre).length < part.length →
        framesOf pre <+: (complete sync size part).map (frameAt size part) := by
  have hfound := located_pieces h [] tail
  rw [List.length_nil, List.nil_append, List.nil_append] at hfound
  have hopen : ((starts sync size 0 (joined pieces).length tail).map
      (located size (joined pieces ++ tail))).filter (fun q => q.1 + size < part.length) = [] := by
    rw [List.filter_eq_nil_iff]
    intro q hq
    obtain ⟨o, ho, rfl⟩ := List.mem_map.1 hq
    have hstart := starts_mem_bounds ho
    have hlen := hpart.length_le
    rw [List.length_append] at hlen
    rw [decide_eq_true_iff, located]
    omega
  have hserved : (complete sync size part).map (frameAt size part) =
      ((placedPieces 0 pieces).filter fun q => q.1 + size < part.length).map Prod.snd := by
    have hfilter := @located_filter _ sync size _ _ hpart
    rw [hfound, List.filter_append, hopen, List.append_nil] at hfilter
    rw [hfilter, List.map_map]
    rfl
  rw [hserved]
  constructor
  · rw [← placedPieces_snd 0 pieces]
    exact (prefix_filter (placedPieces_pairwise hsize h 0) size part.length).map Prod.snd
  · rintro pre ⟨post, rfl⟩ hlong
    have hpre : ∀ p ∈ pre, p.Valid sync size := fun p hp => h p (List.mem_append_left _ hp)
    have hkept : (placedPieces 0 pre).filter (fun q => q.1 + size < part.length) =
        placedPieces 0 pre := by
      rw [List.filter_eq_self]
      intro q hq
      have := placedPieces_bounds hpre hq
      rw [decide_eq_true_iff]
      omega
    rw [placedPieces_append, List.filter_append, hkept, List.map_append, placedPieces_snd]
    exact List.prefix_append ..

end MinotaurRobot.Lib.Framing
