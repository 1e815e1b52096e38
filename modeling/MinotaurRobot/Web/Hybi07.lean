import MinotaurRobot.Lib.Incremental
import MinotaurRobot.Lib.StructFormat

/-!
# Frames between the browser and the server

`parse_hybi07_frames`, `make_hybi07_frame` and `mask` of `txws.py`.  All
positions in the loop of the parser are relative to `start`, so one round is a
function of `buf[start:]`, and the loop is `Parser.parse`.

`WireFrame` is the format: the strings that stand for one frame, with every
form of the length and with and without a key.  `parse_eq_ok_iff` and
`parse_eq_error_iff` say what the parser returns for every buffer.
-/

namespace MinotaurRobot.Web

open Lib.Incremental Lib.StructFormat

/-! ## `txws.py` -/

/-- `NORMAL`, `CLOSE`, `PING` and `PONG`. -/
inductive FrameKind where
  | normal
  | close
  | ping
  | pong
  deriving DecidableEq, Repr

/-- `opcode_types`. -/
def opcodeTypes (opcode : UInt8) : Option FrameKind :=
  if opcode = 0x0 then some .normal
  else if opcode = 0x1 then some .normal
  else if opcode = 0x2 then some .normal
  else if opcode = 0x8 then some .close
  else if opcode = 0x9 then some .ping
  else if opcode = 0xa then some .pong
  else none

/-- What the parser returns for a frame. -/
inductive Frame where
  | normal (data : List UInt8)
  | close (reason : ℕ) (text : List UInt8)
  | ping (data : List UInt8)
  | pong (data : List UInt8)
  deriving DecidableEq, Repr

/-- `WSException`, by the two places that raise it. -/
inductive WSException where
  | reservedFlag (header : UInt8)
  | unknownOpcode (opcode : UInt8)
  deriving DecidableEq, Repr

/-- The bytes of an `ASCII` text. -/
def asciiBytes (s : String) : List UInt8 := s.toList.map fun c => UInt8.ofNat c.toNat

/-- `wse.args[0]`. -/
def WSException.text : WSException → String
  | .reservedFlag header => "Reserved flag in HyBi-07 frame (" ++ toString header.toNat ++ ")"
  | .unknownOpcode opcode => "Unknown opcode " ++ toString opcode.toNat ++ " in HyBi-07 frame"

/-- `mask`. -/
def mask (buf key : List UInt8) : List UInt8 := buf.mapIdx fun i c => c ^^^ key.getD (i % 4) 0

/-- `make_hybi07_frame`. -/
def makeHybi07Frame (buf : List UInt8) (opcode : UInt8) : List UInt8 :=
  let length :=
    if buf.length > 0xffff then 0x7f :: beBytes 8 buf.length
    else if buf.length > 0x7d then 0x7e :: beBytes 2 buf.length
    else [UInt8.ofNat buf.length]
  (0x80 ||| opcode) :: (length ++ buf)

/-- The tuple of a frame with some payload. -/
def frameOf (kind : FrameKind) (data : List UInt8) : Frame :=
  match kind with
  | .normal => .normal data
  | .close =>
    if 2 ≤ data.length then .close (beValue (data.take 2)) (data.drop 2)
    else .close 1000 (asciiBytes "No reason given")
  | .ping => .ping data
  | .pong => .pong data

/-- `length` and `offset` behind the extra length fields.  `none` when bytes of
them are missing. -/
def lengthFields (length : UInt8) (buf : List UInt8) : Option (ℕ × ℕ) :=
  if length = 0x7e then
    if buf.length < 4 then none else some (beValue ((buf.drop 2).take 2), 4)
  else if length = 0x7f then
    if buf.length < 10 then none else some (beValue ((buf.drop 2).take 8), 10)
  else some (length.toNat, 2)

/-- `key` and `offset` behind it.  `none` when bytes of the key are missing. -/
def keyField (masked : UInt8) (buf : List UInt8) (offset : ℕ) : Option (Option (List UInt8) × ℕ) :=
  if masked ≠ 0 then
    if buf.length < offset + 4 then none else some (some ((buf.drop offset).take 4), offset + 4)
  else some (none, offset)

/-- `if masked: data = mask(data, key)`. -/
def unmask (data : List UInt8) : Option (List UInt8) → List UInt8
  | none => data
  | some key => mask data key

/-- One round of `parse_hybi07_frames`, on `buf[start:]`. -/
def hybi07Front (buf : List UInt8) : Front Frame WSException :=
  match buf with
  | header :: second :: _ =>
    if header &&& 0x70 ≠ 0 then .bad (.reservedFlag header)
    else
      match opcodeTypes (header &&& 0xf) with
      | none => .bad (.unknownOpcode (header &&& 0xf))
      | some kind =>
        match lengthFields (second &&& 0x7f) buf with
        | none => .more
        | some (length, offset) =>
          match keyField (second &&& 0x80) buf offset with
          | none => .more
          | some (key, offset) =>
            if buf.length < offset + length then .more
            else
              .item (frameOf kind (unmask ((buf.drop offset).take length) key)) (offset + length)
  | _ => .more

/-! ## The format -/

/-- The three ways to write a length. -/
inductive LengthForm where
  | short
  | two
  | eight
  deriving DecidableEq, Repr

/-- The seven bits of the second byte. -/
def LengthForm.code (n : ℕ) : LengthForm → UInt8
  | .short => UInt8.ofNat n
  | .two => 0x7e
  | .eight => 0x7f

def LengthForm.extra (n : ℕ) : LengthForm → List UInt8
  | .short => []
  | .two => beBytes 2 n
  | .eight => beBytes 8 n

def LengthForm.Fits (n : ℕ) : LengthForm → Prop
  | .short => n < 0x7e
  | .two => n < 256 ^ 2
  | .eight => n < 256 ^ 8

/-- A frame with everything that the sender chooses. -/
structure WireFrame where
  fin : Bool
  opcode : UInt8
  kind : FrameKind
  form : LengthForm
  key : Option (List UInt8)
  payload : List UInt8
  known : opcodeTypes opcode = some kind
  fits : form.Fits payload.length
  key_length : ∀ k ∈ key, k.length = 4

namespace WireFrame

def header (w : WireFrame) : UInt8 := (if w.fin then 0x80 else 0) ||| w.opcode

def second (w : WireFrame) : UInt8 :=
  (if w.key.isSome then 0x80 else 0) ||| w.form.code w.payload.length

def bytes (w : WireFrame) : List UInt8 :=
  w.header :: w.second ::
    (w.form.extra w.payload.length ++ (w.key.getD [] ++ unmask w.payload w.key))

/-- What the parser should return. -/
def frame (w : WireFrame) : Frame := frameOf w.kind w.payload

end WireFrame

/-! ## The parts of a frame -/

@[simp] theorem length_mask (buf key : List UInt8) : (mask buf key).length = buf.length := by
  simp [mask]

/-- To mask twice is to unmask. -/
theorem mask_mask (buf key : List UInt8) : mask (mask buf key) key = buf := by
  unfold mask
  rw [List.mapIdx_mapIdx]
  apply List.ext_getElem
  · simp
  · intro i h h'
    rw [List.getElem_mapIdx, Function.comp_apply, UInt8.xor_assoc, UInt8.xor_self,
      UInt8.xor_zero]

@[simp] theorem length_unmask (data : List UInt8) (key : Option (List UInt8)) :
    (unmask data key).length = data.length := by
  cases key <;> simp [unmask]

@[simp] theorem unmask_unmask (data : List UInt8) (key : Option (List UInt8)) :
    unmask (unmask data key) key = data := by
  cases key with
  | none => rfl
  | some key => exact mask_mask data key

theorem lengthFields_extra {form : LengthForm} {n : ℕ} (h : form.Fits n) (a b : UInt8)
    (rest : List UInt8) :
    lengthFields (form.code n) (a :: b :: (form.extra n ++ rest)) =
      some (n, 2 + (form.extra n).length) := by
  cases form with
  | short =>
    have hn : n < 0x7e := h
    have htoNat : (UInt8.ofNat n).toNat = n := by
      rw [UInt8.toNat_ofNat']
      omega
    have hne : ∀ c : UInt8, 0x7e ≤ c.toNat → UInt8.ofNat n ≠ c := by
      intro c hc heq
      rw [← heq, htoNat] at hc
      omega
    show lengthFields (UInt8.ofNat n) _ = some (n, 2)
    rw [lengthFields, if_neg (hne 0x7e (by decide)), if_neg (hne 0x7f (by decide)), htoNat]
  | two =>
    have hn : n < 256 ^ 2 := h
    have htake : (beBytes 2 n ++ rest).take 2 = beBytes 2 n := List.take_left' (by simp)
    simp [lengthFields, LengthForm.code, LengthForm.extra, htake, beValue_beBytes hn]
  | eight =>
    have hn : n < 256 ^ 8 := h
    have htake : (beBytes 8 n ++ rest).take 8 = beBytes 8 n := List.take_left' (by simp)
    simp [lengthFields, LengthForm.code, LengthForm.extra, htake, beValue_beBytes hn]

/-- The number in the first `k` bytes, and the bytes of it. -/
theorem beValue_take {bytes : List UInt8} {k : ℕ} (h : k ≤ bytes.length) :
    beValue (bytes.take k) < 256 ^ k ∧ beBytes k (beValue (bytes.take k)) = bytes.take k := by
  have hlt := beValue_lt (bytes.take k)
  have hbytes := beBytes_beValue (bytes.take k)
  rw [List.length_take, Nat.min_eq_left h] at hlt hbytes
  exact ⟨hlt, hbytes⟩

/-- Length fields that are whole are those of one form. -/
theorem exists_form {length a b : UInt8} {rest : List UInt8} {n offset : ℕ}
    (hlength : length.toNat < 0x80) (h : lengthFields length (a :: b :: rest) = some (n, offset)) :
    ∃ form : LengthForm, form.Fits n ∧ form.code n = length ∧
      rest = form.extra n ++ rest.drop (form.extra n).length ∧
      offset = 2 + (form.extra n).length := by
  unfold lengthFields at h
  split_ifs at h with htwo hshort height hshort'
  · obtain ⟨rfl, rfl⟩ := Prod.mk.inj (Option.some.inj h)
    have hlen : 2 ≤ rest.length := by simp at hshort; omega
    obtain ⟨hlt, hbytes⟩ := beValue_take hlen
    refine ⟨.two, hlt, htwo.symm, ?_, by simp [LengthForm.extra]⟩
    show rest = beBytes 2 (beValue (rest.take 2)) ++ rest.drop (beBytes 2 _).length
    rw [length_beBytes, hbytes, List.take_append_drop]
  · obtain ⟨rfl, rfl⟩ := Prod.mk.inj (Option.some.inj h)
    have hlen : 8 ≤ rest.length := by simp at hshort'; omega
    obtain ⟨hlt, hbytes⟩ := beValue_take hlen
    refine ⟨.eight, hlt, height.symm, ?_, by simp [LengthForm.extra]⟩
    show rest = beBytes 8 (beValue (rest.take 8)) ++ rest.drop (beBytes 8 _).length
    rw [length_beBytes, hbytes, List.take_append_drop]
  · obtain ⟨rfl, rfl⟩ := Prod.mk.inj (Option.some.inj h)
    have hne : length.toNat ≠ 0x7e := fun h => htwo (UInt8.toNat_inj.1 h)
    have hne' : length.toNat ≠ 0x7f := fun h => height (UInt8.toNat_inj.1 h)
    refine ⟨.short, ?_, by simp [LengthForm.code], by simp [LengthForm.extra],
      by simp [LengthForm.extra]⟩
    show length.toNat < 0x7e
    omega

theorem keyField_key {key : Option (List UInt8)} (h : ∀ k ∈ key, k.length = 4) {masked : UInt8}
    (hmasked : masked ≠ 0 ↔ key.isSome) {buf rest : List UInt8} {offset : ℕ}
    (hdrop : buf.drop offset = key.getD [] ++ rest) :
    keyField masked buf offset = some (key, offset + (key.getD []).length) := by
  unfold keyField
  cases key with
  | none => simp [show masked = 0 by simpa using hmasked]
  | some key =>
    have hkey : key.length = 4 := h key rfl
    have hlen := congrArg List.length hdrop
    simp only [Option.getD_some, List.length_append, List.length_drop] at hlen
    have htake : (buf.drop offset).take 4 = key := by
      rw [hdrop]
      exact List.take_left' hkey
    rw [if_pos (hmasked.2 rfl), if_neg (by omega), htake, Option.getD_some, hkey]

theorem exists_key {masked : UInt8} {buf : List UInt8} {offset offset' : ℕ}
    {key : Option (List UInt8)} (h : keyField masked buf offset = some (key, offset')) :
    (∀ k ∈ key, k.length = 4) ∧ (masked ≠ 0 ↔ key.isSome) ∧
      offset' = offset + (key.getD []).length ∧
      buf.drop offset = key.getD [] ++ buf.drop offset' := by
  unfold keyField at h
  split_ifs at h with hmasked hshort
  · obtain ⟨rfl, rfl⟩ := Prod.mk.inj (Option.some.inj h)
    have htake : ((buf.drop offset).take 4).length = 4 := by
      rw [List.length_take, List.length_drop]
      omega
    refine ⟨?_, by simpa using hmasked, by rw [Option.getD_some, htake], ?_⟩
    · intro k hk
      rw [← Option.some.inj hk, htake]
    · rw [Option.getD_some, ← List.drop_drop, List.take_append_drop]
  · obtain ⟨rfl, rfl⟩ := Prod.mk.inj (Option.some.inj h)
    simp [not_not.1 hmasked]

/-! ## The two header bytes -/

theorem toNat_cases {P : UInt8 → Prop} (h : ∀ n < 256, P (UInt8.ofNat n)) (b : UInt8) : P b := by
  have := h b.toNat b.toNat_lt
  rwa [UInt8.ofNat_toNat] at this

/-- The opcodes are the six numbers of `opcode_types`. -/
theorem opcode_cases {opcode : UInt8} {kind : FrameKind} (h : opcodeTypes opcode = some kind) :
    opcode ∈ [0x0, 0x1, 0x2, 0x8, 0x9, 0xa] := by
  unfold opcodeTypes at h
  split_ifs at h <;> simp_all

theorem header_bits (w : WireFrame) : w.header &&& 0x70 = 0 ∧ w.header &&& 0xf = w.opcode := by
  have hopcode := opcode_cases w.known
  unfold WireFrame.header
  simp only [List.mem_cons, List.not_mem_nil, or_false] at hopcode
  rcases hopcode with h | h | h | h | h | h <;> rw [h] <;> cases w.fin <;> decide

theorem code_lt {form : LengthForm} {n : ℕ} (h : form.Fits n) : (form.code n).toNat < 0x80 := by
  cases form with
  | short =>
    have hn : n < 0x7e := h
    show (UInt8.ofNat n).toNat < 0x80
    rw [UInt8.toNat_ofNat']
    omega
  | two => exact (by decide : (0x7e : UInt8).toNat < 0x80)
  | eight => exact (by decide : (0x7f : UInt8).toNat < 0x80)

theorem low_bits {c : UInt8} (h : c.toNat < 0x80) (set : Bool) :
    ((if set then 0x80 else 0) ||| c) &&& 0x7f = c ∧
      (((if set then 0x80 else 0) ||| c) &&& 0x80 ≠ 0 ↔ set = true) := by
  have hall : ∀ n < 128, ∀ set : Bool,
      ((if set then 0x80 else 0) ||| UInt8.ofNat n) &&& 0x7f = UInt8.ofNat n ∧
        (((if set then 0x80 else 0) ||| UInt8.ofNat n) &&& 0x80 ≠ 0 ↔ set = true) := by decide
  have := hall c.toNat h set
  rwa [UInt8.ofNat_toNat] at this

theorem second_bits (w : WireFrame) :
    w.second &&& 0x7f = w.form.code w.payload.length ∧
      (w.second &&& 0x80 ≠ 0 ↔ w.key.isSome = true) :=
  low_bits (code_lt w.fits) w.key.isSome

set_option maxRecDepth 2000 in
/-- A byte is its low bits, with or without the top bit. -/
theorem split_top (b : UInt8) :
    b = (if decide (b &&& 0x80 ≠ 0) then 0x80 else 0) ||| (b &&& 0x7f) :=
  toNat_cases (P := fun b => b = (if decide (b &&& 0x80 ≠ 0) then 0x80 else 0) ||| (b &&& 0x7f))
    (by decide) b

set_option maxRecDepth 2000 in
theorem and_7f_lt (b : UInt8) : (b &&& 0x7f).toNat < 0x80 :=
  toNat_cases (P := fun b => (b &&& 0x7f).toNat < 0x80) (by decide) b

set_option maxRecDepth 2000 in
/-- Without the reserved flags the low half of a header is the opcode. -/
theorem and_7f_of_reserved {b : UInt8} (h : b &&& 0x70 = 0) : b &&& 0x7f = b &&& 0xf :=
  toNat_cases (P := fun b => b &&& 0x70 = 0 → b &&& 0x7f = b &&& 0xf) (by decide) b h

/-! ## One round -/

/-- A round that finds a frame. -/
structure Found (buf : List UInt8) (f : Frame) (n : ℕ) (header second : UInt8) (kind : FrameKind)
    (length offset : ℕ) (key : Option (List UInt8)) (offset' : ℕ) : Prop where
  start : ∃ tail, buf = header :: second :: tail
  reserved : header &&& 0x70 = 0
  known : opcodeTypes (header &&& 0xf) = some kind
  lengths : lengthFields (second &&& 0x7f) buf = some (length, offset)
  keys : keyField (second &&& 0x80) buf offset = some (key, offset')
  enough : offset' + length ≤ buf.length
  frame : frameOf kind (unmask ((buf.drop offset').take length) key) = f
  size : offset' + length = n

theorem hybi07Front_eq_item_iff_found {buf : List UInt8} {f : Frame} {n : ℕ} :
    hybi07Front buf = .item f n ↔
      ∃ header second kind length offset key offset',
        Found buf f n header second kind length offset key offset' := by
  constructor
  · intro h
    rcases buf with _ | ⟨header, _ | ⟨second, tail⟩⟩
    · cases h
    · cases h
    · rw [hybi07Front] at h
      split_ifs at h with hreserved
      cases hkind : opcodeTypes (header &&& 0xf) with
      | none => simp [hkind] at h
      | some kind =>
        cases hlength : lengthFields (second &&& 0x7f) (header :: second :: tail) with
        | none => simp [hkind, hlength] at h
        | some r =>
          cases hkey : keyField (second &&& 0x80) (header :: second :: tail) r.2 with
          | none => simp [hkind, hlength, hkey] at h
          | some r' =>
            simp only [hkind, hlength, hkey] at h
            split_ifs at h with henough
            injection h with hframe hsize
            exact ⟨header, second, kind, r.1, r.2, r'.1, r'.2, ⟨tail, rfl⟩, not_not.1 hreserved,
              hkind, hlength, hkey, by omega, hframe, hsize⟩
  · rintro ⟨header, second, kind, length, offset, key, offset', h⟩
    obtain ⟨tail, htail⟩ := h.start
    have henough := h.enough
    have hlength := h.lengths
    have hkey := h.keys
    have hframe := h.frame
    subst htail
    rw [hybi07Front, if_neg (not_not.2 h.reserved)]
    simp only [h.known, hlength, hkey]
    rw [if_neg (by omega), hframe, h.size]

theorem WireFrame.length_bytes (w : WireFrame) :
    w.bytes.length =
      2 + (w.form.extra w.payload.length).length + (w.key.getD []).length + w.payload.length := by
  simp [WireFrame.bytes]
  omega

/-- A round finds a frame of the format, whatever follows. -/
theorem hybi07Front_bytes (w : WireFrame) (ys : List UInt8) :
    hybi07Front (w.bytes ++ ys) = .item w.frame w.bytes.length := by
  obtain ⟨hreserved, hopcode⟩ := header_bits w
  obtain ⟨hcode, hmasked⟩ := second_bits w
  have hbuf : w.bytes ++ ys = w.header :: w.second ::
      (w.form.extra w.payload.length ++ (w.key.getD [] ++ (unmask w.payload w.key ++ ys))) := by
    simp [WireFrame.bytes]
  have hlength := lengthFields_extra w.fits w.header w.second
    (w.key.getD [] ++ (unmask w.payload w.key ++ ys))
  have hdrop : (w.bytes ++ ys).drop (2 + (w.form.extra w.payload.length).length) =
      w.key.getD [] ++ (unmask w.payload w.key ++ ys) := by
    rw [hbuf, ← List.drop_drop]
    exact List.drop_left
  have hdata : (w.bytes ++ ys).drop
      (2 + (w.form.extra w.payload.length).length + (w.key.getD []).length) =
        unmask w.payload w.key ++ ys := by
    rw [← List.drop_drop, hdrop, List.drop_left]
  have htake : (unmask w.payload w.key ++ ys).take w.payload.length = unmask w.payload w.key :=
    List.take_left' (length_unmask _ _)
  rw [hybi07Front_eq_item_iff_found]
  refine ⟨w.header, w.second, w.kind, _, _, w.key, _, ⟨_, hbuf⟩, hreserved, ?_, ?_,
    keyField_key w.key_length hmasked hdrop, ?_, ?_, w.length_bytes.symm⟩
  · rw [hopcode, w.known]
  · rw [hcode, hbuf, hlength]
  · rw [← w.length_bytes, List.length_append]
    omega
  · rw [hdata, htake, unmask_unmask]
    rfl

/-- What a round finds is a frame of the format. -/
theorem exists_wireFrame {buf : List UInt8} {f : Frame} {n : ℕ} (h : hybi07Front buf = .item f n) :
    ∃ w : WireFrame, w.frame = f ∧ w.bytes = buf.take n ∧ n ≤ buf.length := by
  obtain ⟨header, second, kind, length, offset, key, offset', hfound⟩ :=
    hybi07Front_eq_item_iff_found.1 h
  obtain ⟨tail, rfl⟩ := hfound.start
  obtain ⟨form, hfits, hcode, htail, rfl⟩ := exists_form (and_7f_lt second) hfound.lengths
  obtain ⟨hkey, hmasked, rfl, hdrop⟩ := exists_key hfound.keys
  have henough := hfound.enough
  have hsize := hfound.size
  have hframe := hfound.frame
  generalize hrest : ((header :: second :: tail).drop
    (2 + (form.extra length).length + (key.getD []).length)) = rest at hframe hdrop
  have hlength : (rest.take length).length = length := by
    rw [List.length_take, ← hrest, List.length_drop]
    omega
  have hpayload : (unmask (rest.take length) key).length = length := by
    rw [length_unmask, hlength]
  let w : WireFrame :=
    { fin := decide (header &&& 0x80 ≠ 0)
      opcode := header &&& 0xf
      kind := kind
      form := form
      key := key
      payload := unmask (rest.take length) key
      known := hfound.known
      fits := by rw [hpayload]; exact hfits
      key_length := hkey }
  have hheader : w.header = header := by
    show (if decide (header &&& 0x80 ≠ 0) then 0x80 else 0) ||| (header &&& 0xf) = header
    rw [← and_7f_of_reserved hfound.reserved]
    exact (split_top header).symm
  have hsecond : w.second = second := by
    have hset : decide (second &&& 0x80 ≠ 0) = key.isSome := by
      rw [Bool.eq_iff_iff, decide_eq_true_iff, hmasked]
    show (if key.isSome then 0x80 else 0) ||| form.code w.payload.length = second
    rw [hpayload, hcode, ← hset]
    exact (split_top second).symm
  rw [← List.drop_drop] at hdrop
  have hkeys : tail.drop (form.extra length).length = key.getD [] ++ rest := hdrop
  have hbytes : w.bytes = header :: second ::
      (form.extra length ++ (key.getD [] ++ rest.take length)) := by
    rw [WireFrame.bytes, hheader, hsecond]
    show header :: second :: (form.extra (unmask _ _).length ++ (_ ++ unmask (unmask _ _) key)) = _
    rw [hpayload, unmask_unmask]
  refine ⟨w, hframe, ?_, by omega⟩
  rw [hbytes, htail, hkeys, ← hsize]
  have hn : 2 + (form.extra length).length + (key.getD []).length + length =
      (form.extra length).length + ((key.getD []).length + length) + 1 + 1 := by omega
  rw [hn, List.take_succ_cons, List.take_succ_cons, List.take_length_add_append,
    List.take_length_add_append]

/-! ## The parser -/

/-- A header that is malformed, with its exception. -/
def Malformed (header : UInt8) (e : WSException) : Prop :=
  (header &&& 0x70 ≠ 0 ∧ e = .reservedFlag header) ∨
    (header &&& 0x70 = 0 ∧ opcodeTypes (header &&& 0xf) = none ∧
      e = .unknownOpcode (header &&& 0xf))

theorem hybi07Front_eq_bad_iff {buf : List UInt8} {e : WSException} :
    hybi07Front buf = .bad e ↔
      ∃ header second tail, buf = header :: second :: tail ∧ Malformed header e := by
  rcases buf with _ | ⟨header, _ | ⟨second, tail⟩⟩
  · simp [hybi07Front]
  · simp [hybi07Front]
  · have hiff : hybi07Front (header :: second :: tail) = .bad e ↔ Malformed header e := by
      rw [hybi07Front, Malformed]
      by_cases hreserved : header &&& 0x70 = 0
      · rw [if_neg (not_not.2 hreserved)]
        cases hkind : opcodeTypes (header &&& 0xf) with
        | none => simp [hreserved, eq_comm]
        | some kind =>
          simp only [hreserved, ne_eq, not_true_eq_false, false_and, reduceCtorEq, and_false,
            or_false, iff_false]
          split
          · simp
          · split
            · simp
            · split_ifs <;> simp
      · rw [if_pos hreserved]
        simp [hreserved, eq_comm]
    rw [hiff]
    constructor
    · intro h
      exact ⟨header, second, tail, rfl, h⟩
    · rintro ⟨header', second', tail', heq, h⟩
      injection heq with hheader
      rwa [hheader]

/-- `parse_hybi07_frames`, by its rounds. -/
def hybi07 : Parser UInt8 Frame WSException where
  front := hybi07Front
  size_pos {xs b n} h := by
    obtain ⟨w, -, hbytes, hle⟩ := exists_wireFrame h
    have hlen := congrArg List.length hbytes
    rw [w.length_bytes, List.length_take] at hlen
    omega
  size_le {xs b n} h := by
    obtain ⟨w, -, -, hle⟩ := exists_wireFrame h
    exact hle
  item_append {xs b n} h ys := by
    obtain ⟨w, hframe, hbytes, hle⟩ := exists_wireFrame h
    have hlen := congrArg List.length hbytes
    rw [List.length_take, Nat.min_eq_left hle] at hlen
    have hsplit : xs ++ ys = w.bytes ++ (xs.drop n ++ ys) := by
      rw [hbytes, ← List.append_assoc, List.take_append_drop]
    rw [hsplit, hybi07Front_bytes, hframe, hlen]
  bad_append {xs e} h ys := by
    obtain ⟨header, second, tail, rfl, hbad⟩ := hybi07Front_eq_bad_iff.1 h
    exact hybi07Front_eq_bad_iff.2 ⟨header, second, tail ++ ys, rfl, hbad⟩

/-- `parse_hybi07_frames`. -/
def parseHybi07Frames (buf : List UInt8) : Except WSException (List Frame × List UInt8) :=
  hybi07.parse buf

def hybi07Format : Format hybi07 WireFrame where
  bytes := WireFrame.bytes
  item := WireFrame.frame
  complete w := by
    have h := hybi07Front_bytes w []
    rwa [List.append_nil] at h
  sound {xs b n} h := by
    obtain ⟨w, hframe, hbytes, -⟩ := exists_wireFrame h
    exact ⟨w, hframe, hbytes⟩

/-! ## What is accepted -/

/-- With enough bytes behind the header nothing is missing. -/
theorem hybi07Front_ne_more {header second : UInt8} {tail : List UInt8}
    (h : 256 ^ 8 + 14 ≤ tail.length) : hybi07Front (header :: second :: tail) ≠ .more := by
  rw [hybi07Front]
  split_ifs with hreserved
  · simp
  · cases opcodeTypes (header &&& 0xf) with
    | none => simp
    | some kind =>
      cases hlength : lengthFields (second &&& 0x7f) (header :: second :: tail) with
      | none =>
        unfold lengthFields at hlength
        split_ifs at hlength with _ hshort _ hshort <;> simp at hshort <;> omega
      | some r =>
        obtain ⟨form, hfits, -, -, hoffset⟩ := exists_form (and_7f_lt second) hlength
        have hextra : (form.extra r.1).length ≤ 8 ∧ r.1 < 256 ^ 8 := by
          cases form with
          | short =>
            have hn : r.1 < 0x7e := hfits
            exact ⟨Nat.zero_le _, by omega⟩
          | two =>
            have hn : r.1 < 256 ^ 2 := hfits
            exact ⟨by simp [LengthForm.extra], by omega⟩
          | eight =>
            have hn : r.1 < 256 ^ 8 := hfits
            exact ⟨by simp [LengthForm.extra], hn⟩
        cases hkey : keyField (second &&& 0x80) (header :: second :: tail) r.2 with
        | none =>
          unfold keyField at hkey
          split_ifs at hkey with _ hshort
          simp at hshort
          omega
        | some r' =>
          have hoffset' : r'.2 ≤ r.2 + 4 := by
            unfold keyField at hkey
            split_ifs at hkey
            · have hmasked : r.2 + 4 = r'.2 := congrArg Prod.snd (Option.some.inj hkey)
              omega
            · have hplain : r.2 = r'.2 := congrArg Prod.snd (Option.some.inj hkey)
              omega
          simp only [hkey, List.length_cons]
          rw [if_neg (by omega)]
          simp

/-- The start of a frame that is not whole yet.  Of one byte the parser takes
no notice. -/
def Partial (buf : List UInt8) : Prop :=
  buf.length < 2 ∨ ∃ (w : WireFrame) (ys : List UInt8), ys ≠ [] ∧ w.bytes = buf ++ ys

theorem hybi07Front_eq_more_iff {buf : List UInt8} : hybi07Front buf = .more ↔ Partial buf := by
  constructor
  · intro hmore
    rcases buf with _ | ⟨header, _ | ⟨second, tail⟩⟩
    · exact Or.inl (by decide)
    · exact Or.inl (by simp)
    · right
      let zeros : List UInt8 := List.replicate (256 ^ 8 + 14) 0
      have hlong : hybi07Front (header :: second :: (tail ++ zeros)) ≠ .more := by
        apply hybi07Front_ne_more
        rw [List.length_append, List.length_replicate]
        omega
      cases hfront : hybi07Front (header :: second :: (tail ++ zeros)) with
      | more => exact absurd hfront hlong
      | bad e =>
        -- the header would be malformed without the zeros, too
        obtain ⟨header', second', tail', heq, hbad⟩ := hybi07Front_eq_bad_iff.1 hfront
        injection heq with hheader
        rw [← hheader] at hbad
        rw [hybi07Front_eq_bad_iff.2 ⟨header, second, tail, rfl, hbad⟩] at hmore
        cases hmore
      | item f n =>
        obtain ⟨w, -, hbytes, hle⟩ := exists_wireFrame hfront
        have hsplit : header :: second :: (tail ++ zeros) = (header :: second :: tail) ++ zeros := rfl
        rw [hsplit] at hbytes hle
        have hn : (header :: second :: tail).length < n := by
          by_contra hshort
          rw [Nat.not_lt] at hshort
          rw [List.take_append_of_le_length hshort] at hbytes
          have hwhole := hybi07Front_bytes w ((header :: second :: tail).drop n)
          rw [hbytes, List.take_append_drop, hmore] at hwhole
          cases hwhole
        refine ⟨w, zeros.take (n - (header :: second :: tail).length), ?_, ?_⟩
        · intro hnil
          have hlen := congrArg List.length hnil
          rw [List.length_append] at hle
          rw [List.length_take, List.length_nil] at hlen
          omega
        · rw [hbytes, List.take_append, List.take_of_length_le (by omega)]
  · rintro (hshort | ⟨w, ys, hne, hbytes⟩)
    · rcases buf with _ | ⟨header, _ | ⟨second, tail⟩⟩
      · rfl
      · rfl
      · rw [List.length_cons, List.length_cons] at hshort
        omega
    · have hwhole : hybi07.front (buf ++ ys) = .item w.frame w.bytes.length :=
        hbytes ▸ hybi07Format.complete w
      show hybi07.front buf = .more
      cases hfront : hybi07.front buf with
      | more => rfl
      | bad e =>
        rw [hybi07.bad_append hfront ys] at hwhole
        cases hwhole
      | item f n =>
        have hle := hybi07.size_le hfront
        rw [hybi07.item_append hfront ys] at hwhole
        injection hwhole with _ hn
        have hpos := List.length_pos_iff.2 hne
        rw [hbytes, List.length_append] at hn
        omega

/-- What the parser may return for a buffer. -/
def Parses (buf : List UInt8) : Except WSException (List Frame × List UInt8) → Prop
  | .ok (frames, rest) => Partial rest ∧
      ∃ ws : List WireFrame, frames = ws.map WireFrame.frame ∧
        buf = ws.flatMap WireFrame.bytes ++ rest
  | .error e => ∃ (ws : List WireFrame) (header second : UInt8) (rest : List UInt8),
      buf = ws.flatMap WireFrame.bytes ++ header :: second :: rest ∧ Malformed header e

theorem parseHybi07Frames_error {buf : List UInt8} {e : WSException} :
    parseHybi07Frames buf = .error e ↔ Parses buf (.error e) := by
  rw [parseHybi07Frames, Parser.parse_eq_error_iff]
  constructor
  · intro h
    obtain ⟨header, second, rest, hrest, hbad⟩ := hybi07Front_eq_bad_iff.1 h
    obtain ⟨ws, -, hsplit⟩ := hybi07Format.exists_split buf
    rw [hrest] at hsplit
    exact ⟨ws, header, second, rest, hsplit, hbad⟩
  · rintro ⟨ws, header, second, rest, rfl, hbad⟩
    have hfront : hybi07.front (header :: second :: rest) = .bad e :=
      hybi07Front_eq_bad_iff.2 ⟨header, second, rest, rfl, hbad⟩
    have hnone : ∀ f n, hybi07.front (header :: second :: rest) ≠ .item f n := by simp [hfront]
    have hrest := hybi07Format.rest_append ws (header :: second :: rest)
    rw [Parser.rest_of_none hnone] at hrest
    show hybi07.front (hybi07.rest (ws.flatMap hybi07Format.bytes ++ _)) = _
    rw [hrest, hfront]

/-- What the parser returns for any buffer: a row of frames and the start of
one more, or an exception for the first header that no frame has. -/
theorem parseHybi07Frames_eq_iff (buf : List UInt8)
    (result : Except WSException (List Frame × List UInt8)) :
    parseHybi07Frames buf = result ↔ Parses buf result := by
  cases result with
  | error e => exact parseHybi07Frames_error
  | ok r =>
    show _ ↔ Partial r.2 ∧ _
    rw [← hybi07Front_eq_more_iff]
    exact hybi07Format.parse_eq_ok_iff

/-! ## What is sent -/

/-- `make_hybi07_frame` makes a frame without a key, in the shortest form. -/
theorem exists_made {buf : List UInt8} (hlen : buf.length < 256 ^ 8) {opcode : UInt8}
    {kind : FrameKind} (hknown : opcodeTypes opcode = some kind) :
    ∃ w : WireFrame, w.bytes = makeHybi07Frame buf opcode ∧ w.frame = frameOf kind buf := by
  have hmade : ∀ form : LengthForm, (hfits : form.Fits buf.length) →
      ∃ w : WireFrame, w.bytes =
        (0x80 ||| opcode) :: form.code buf.length :: (form.extra buf.length ++ buf) ∧
          w.frame = frameOf kind buf := by
    intro form hfits
    refine ⟨⟨true, opcode, kind, form, none, buf, hknown, hfits, by simp⟩, ?_, rfl⟩
    simp [WireFrame.bytes, WireFrame.header, WireFrame.second, unmask]
  unfold makeHybi07Frame
  split_ifs with height htwo
  · exact hmade .eight hlen
  · apply hmade .two
    show buf.length < 256 ^ 2
    omega
  · apply hmade .short
    show buf.length < 0x7e
    omega

/-- The texts that are sent are read back, into whatever segments the stream
is cut. -/
theorem feed_made (texts : List (List UInt8)) (hlen : ∀ text ∈ texts, text.length < 256 ^ 8)
    {segments : List (List UInt8)}
    (hstream : segments.flatten = texts.flatMap fun text => makeHybi07Frame text 0x1) :
    hybi07.feed [] segments = .ok (texts.map Frame.normal, []) := by
  rw [Parser.feed_eq rfl, List.nil_append, hstream]
  have hmade : ∃ ws : List WireFrame, texts.map Frame.normal = ws.map WireFrame.frame ∧
      texts.flatMap (fun text => makeHybi07Frame text 0x1) = ws.flatMap WireFrame.bytes := by
    clear hstream
    induction texts with
    | nil => exact ⟨[], rfl, rfl⟩
    | cons text texts ih =>
      obtain ⟨ws, hframes, hbytes⟩ := ih fun t ht => hlen t (List.mem_cons_of_mem text ht)
      have hknown : opcodeTypes 0x1 = some .normal := rfl
      obtain ⟨w, hw, hframe⟩ := exists_made (hlen text List.mem_cons_self) hknown
      refine ⟨w :: ws, ?_, ?_⟩
      · rw [List.map_cons, List.map_cons, hframes, hframe]
        rfl
      · rw [List.flatMap_cons, List.flatMap_cons, hbytes, hw]
  obtain ⟨ws, hframes, hbytes⟩ := hmade
  rw [hframes, hbytes]
  apply hybi07Format.parse_eq_ok_iff.2
  exact ⟨rfl, ws, rfl, (List.append_nil _).symm⟩

/-- Two texts in segments of one, seven and the remaining bytes. -/
theorem feed_made_twoTexts :
    hybi07.feed [] [[0x81], [0x02, 104, 105, 0x81, 0x03, 121, 111], [117]] =
      .ok ([.normal [104, 105], .normal [121, 111, 117]], []) :=
  feed_made [[104, 105], [121, 111, 117]] (by decide) (by decide)

end MinotaurRobot.Web
