import MinotaurRobot.Web.Hybi07

/-!
# Frames of the old protocol

`parse_hybi00_frames` and `make_hybi00_frame` of `txws.py`.  A frame is a text
between a zero byte and `0xff`, and what stands between two frames is ignored.
The parser never raises.

`parseHybi00Frames_eq_iff` is its grammar, and `feed_madeOld_iff` says which
texts the frame maker takes there and back.
-/

namespace MinotaurRobot.Web

open Lib.Incremental

/-! ## `txws.py` -/

/-- `make_hybi00_frame`. -/
def makeHybi00Frame (buf : List UInt8) : List UInt8 := 0x00 :: (buf ++ [0xff])

/-- One round of `parse_hybi00_frames`, on `buf[tail:]`: `find` for the start
and for the end of a frame. -/
def hybi00Front (buf : List UInt8) : Front Frame WSException :=
  match partition [0x00] buf with
  | none => .more
  | some (garbage, buf) =>
    match partition [0xff] buf with
    | none => .more
    | some (frame, _) => .item (.normal frame) (garbage.length + 1 + frame.length + 1)

/-! ## The format -/

/-- A frame with the bytes that are ignored in front of it. -/
structure OldFrame where
  garbage : List UInt8
  payload : List UInt8
  noStart : 0x00 ∉ garbage
  noEnd : 0xff ∉ payload

def OldFrame.bytes (w : OldFrame) : List UInt8 := w.garbage ++ makeHybi00Frame w.payload

def OldFrame.frame (w : OldFrame) : Frame := .normal w.payload

theorem hybi00Front_bytes (w : OldFrame) (ys : List UInt8) :
    hybi00Front (w.bytes ++ ys) = .item w.frame w.bytes.length := by
  have hbuf : w.bytes ++ ys = w.garbage ++ 0x00 :: (w.payload ++ 0xff :: ys) := by
    simp [OldFrame.bytes, makeHybi00Frame]
  rw [hybi00Front, hbuf, partition_of_not_mem w.noStart]
  simp only
  rw [partition_of_not_mem w.noEnd]
  simp only [OldFrame.frame, OldFrame.bytes, makeHybi00Frame, List.length_append, List.length_cons,
    List.length_nil, Front.item.injEq, true_and]
  omega

theorem exists_oldFrame {buf : List UInt8} {f : Frame} {n : ℕ} (h : hybi00Front buf = .item f n) :
    ∃ w : OldFrame, w.frame = f ∧ w.bytes = buf.take n ∧ n = w.bytes.length ∧ n ≤ buf.length := by
  unfold hybi00Front at h
  cases hstart : partition [0x00] buf with
  | none => simp [hstart] at h
  | some r =>
    cases hend : partition [0xff] r.2 with
    | none => simp [hstart, hend] at h
    | some r' =>
      simp only [hstart, hend, Front.item.injEq] at h
      let w : OldFrame := ⟨r.1, r'.1, not_mem_of_partition hstart, not_mem_of_partition hend⟩
      have hbuf : buf = w.bytes ++ r'.2 := by
        rw [partition_eq_some hstart, partition_eq_some hend]
        simp [w, OldFrame.bytes, makeHybi00Frame]
      have hlen : w.bytes.length = n := by
        rw [← h.2]
        simp only [w, OldFrame.bytes, makeHybi00Frame, List.length_append, List.length_cons,
          List.length_nil]
        omega
      refine ⟨w, h.1, ?_, hlen.symm, ?_⟩
      · rw [hbuf, List.take_left' hlen]
      · rw [hbuf, List.length_append]
        omega

theorem hybi00Front_ne_bad (buf : List UInt8) (e : WSException) : hybi00Front buf ≠ .bad e := by
  unfold hybi00Front
  split
  · simp
  · split <;> simp

/-! ## The parser -/

/-- `parse_hybi00_frames`, by its rounds. -/
def hybi00 : Parser UInt8 Frame WSException where
  front := hybi00Front
  size_pos {xs f n} h := by
    obtain ⟨w, -, -, hlen, -⟩ := exists_oldFrame h
    rw [hlen, OldFrame.bytes, makeHybi00Frame, List.length_append, List.length_cons]
    omega
  size_le {xs f n} h := by
    obtain ⟨w, -, -, -, hle⟩ := exists_oldFrame h
    exact hle
  item_append {xs f n} h ys := by
    obtain ⟨w, hframe, hbytes, hlen, hle⟩ := exists_oldFrame h
    have hsplit : xs ++ ys = w.bytes ++ (xs.drop n ++ ys) := by
      rw [hbytes, ← List.append_assoc, List.take_append_drop]
    rw [hsplit, hybi00Front_bytes, hframe, hlen]
  bad_append {xs e} h := absurd h (hybi00Front_ne_bad xs e)

/-- `parse_hybi00_frames`. -/
def parseHybi00Frames (buf : List UInt8) : Except WSException (List Frame × List UInt8) :=
  hybi00.parse buf

def hybi00Format : Format hybi00 OldFrame where
  bytes := OldFrame.bytes
  item := OldFrame.frame
  complete w := by
    have h := hybi00Front_bytes w []
    rwa [List.append_nil] at h
  sound {xs f n} h := by
    obtain ⟨w, hframe, hbytes, -, -⟩ := exists_oldFrame h
    exact ⟨w, hframe, hbytes⟩

/-- No start of a frame, or one without its end. -/
def OldPartial (buf : List UInt8) : Prop :=
  ∀ garbage tail, buf = garbage ++ 0x00 :: tail → 0x00 ∉ garbage → 0xff ∉ tail

theorem hybi00Front_eq_more_iff {buf : List UInt8} : hybi00Front buf = .more ↔ OldPartial buf := by
  unfold hybi00Front OldPartial
  constructor
  · intro h garbage tail hbuf hgarbage
    rw [hbuf, partition_of_not_mem hgarbage] at h
    cases hend : partition [0xff] tail with
    | none => exact partition_singleton_eq_none.1 hend
    | some r => simp [hend] at h
  · intro h
    cases hstart : partition [0x00] buf with
    | none => rfl
    | some r =>
      have hend : partition [0xff] r.2 = none :=
        partition_singleton_eq_none.2
          (h r.1 r.2 (partition_eq_some hstart) (not_mem_of_partition hstart))
      simp [hend]

/-- What the parser of the old frames returns for any buffer. -/
theorem parseHybi00Frames_eq_iff (buf : List UInt8)
    (result : Except WSException (List Frame × List UInt8)) :
    parseHybi00Frames buf = result ↔
      ∃ (ws : List OldFrame) (rest : List UInt8), result = .ok (ws.map OldFrame.frame, rest) ∧
        buf = ws.flatMap OldFrame.bytes ++ rest ∧ OldPartial rest := by
  constructor
  · rintro rfl
    obtain ⟨ws, hitems, hsplit⟩ := hybi00Format.exists_split buf
    have hmore : hybi00.front (hybi00.rest buf) = .more := by
      cases hfront : hybi00.front (hybi00.rest buf) with
      | more => rfl
      | bad e => exact absurd hfront (hybi00Front_ne_bad _ e)
      | item f n => exact absurd hfront (Parser.front_rest buf f n)
    refine ⟨ws, hybi00.rest buf, ?_, hsplit, hybi00Front_eq_more_iff.1 hmore⟩
    exact Parser.parse_eq_ok_iff_front.2 ⟨hitems, rfl, hmore⟩
  · rintro ⟨ws, rest, rfl, hsplit, hpartial⟩
    apply hybi00Format.parse_eq_ok_iff.2
    exact ⟨hybi00Front_eq_more_iff.2 hpartial, ws, rfl, hsplit⟩

/-! ## What is sent -/

/-- Texts that are sent are read back, into whatever segments the stream is
cut, exactly if none of them has the byte that ends a frame. -/
theorem feed_madeOld_iff (texts : List (List UInt8)) {segments : List (List UInt8)}
    (hstream : segments.flatten = texts.flatMap makeHybi00Frame) :
    hybi00.feed [] segments = .ok (texts.map Frame.normal, []) ↔ ∀ text ∈ texts, 0xff ∉ text := by
  rw [Parser.feed_eq rfl, List.nil_append, hstream]
  show parseHybi00Frames _ = _ ↔ _
  rw [parseHybi00Frames_eq_iff]
  constructor
  · intro h text htext
    obtain ⟨ws, rest, hresult, -, -⟩ := h
    injection hresult with hresult
    injection hresult with hframes
    have hmem : Frame.normal text ∈ ws.map OldFrame.frame :=
      hframes ▸ List.mem_map_of_mem htext
    obtain ⟨w, -, hw⟩ := List.mem_map.1 hmem
    injection hw with hpayload
    rw [← hpayload]
    exact w.noEnd
  · intro h
    clear hstream
    suffices hmade : ∃ ws : List OldFrame, texts.map Frame.normal = ws.map OldFrame.frame ∧
        texts.flatMap makeHybi00Frame = ws.flatMap OldFrame.bytes by
      obtain ⟨ws, hframes, hbytes⟩ := hmade
      refine ⟨ws, [], by rw [hframes], by rw [hbytes, List.append_nil], ?_⟩
      intro garbage tail hnil
      simp at hnil
    induction texts with
    | nil => exact ⟨[], rfl, rfl⟩
    | cons text texts ih =>
      obtain ⟨ws, hframes, hbytes⟩ := ih fun t ht => h t (List.mem_cons_of_mem text ht)
      refine ⟨⟨[], text, by simp, h text List.mem_cons_self⟩ :: ws, ?_, ?_⟩
      · rw [List.map_cons, List.map_cons, hframes]
        rfl
      · rw [List.flatMap_cons, List.flatMap_cons, hbytes]
        rfl

/-- Two texts, cut inside both frames. -/
theorem feed_madeOld_twoTexts :
    hybi00.feed [] [[0x00, 104], [105, 0xff, 0x00], [121, 0xff]] =
      .ok ([.normal [104, 105], .normal [121]], []) :=
  (feed_madeOld_iff [[104, 105], [121]] (by decide)).2 (by decide)

end MinotaurRobot.Web
