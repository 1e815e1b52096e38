import Mathlib.Algebra.Group.Nat.Defs
import Mathlib.Data.List.Forall2
import Mathlib.Tactic.Common
import MinotaurRobot.Lib.Widening

/-!
# Packed little-endian records

A record without padding is the bytes of its fields, one after the other, with
the low byte of a number first.  A format lists the field types.  `unpack`
reads a record, and refuses bytes of any other length than that of the format.

`unpack_pack` says what a record is read as.  A field keeps its value unless it
is a float with the pattern of a signalling NaN (`Code.read_eq_value_iff`), and
records that are read alike have the same bytes outside their NaNs
(`alike_of_unpackFields`).
-/

namespace MinotaurRobot.Lib.StructFormat

open Widening

/-! ## Numbers -/

/-- The `n` low bytes of a number, the low byte first. -/
def leBytes : ℕ → ℕ → List UInt8
  | 0, _ => []
  | n + 1, v => UInt8.ofNat v :: leBytes n (v / 256)

def leValue : List UInt8 → ℕ
  | [] => 0
  | b :: bytes => b.toNat + 256 * leValue bytes

@[simp] theorem length_leBytes (n v : ℕ) : (leBytes n v).length = n := by
  induction n generalizing v with
  | zero => rfl
  | succ n ih => rw [leBytes, List.length_cons, ih]

theorem leValue_leBytes {n v : ℕ} (h : v < 256 ^ n) : leValue (leBytes n v) = v := by
  induction n generalizing v with
  | zero =>
    rw [Nat.pow_zero] at h
    rw [leBytes, leValue]
    omega
  | succ n ih =>
    rw [Nat.pow_succ] at h
    have hb : (UInt8.ofNat v).toNat = v % 256 := UInt8.toNat_ofNat'
    rw [leBytes, leValue, ih (by omega), hb]
    omega

theorem leBytes_leValue (bytes : List UInt8) : leBytes bytes.length (leValue bytes) = bytes := by
  induction bytes with
  | nil => rfl
  | cons b bytes ih =>
    have hb := b.toNat_lt
    have hlow : UInt8.ofNat (b.toNat + 256 * leValue bytes) = b := by
      rw [← UInt8.toNat_inj, UInt8.toNat_ofNat']
      omega
    have hhigh : (b.toNat + 256 * leValue bytes) / 256 = leValue bytes := by omega
    rw [List.length_cons, leValue, leBytes, hlow, hhigh, ih]

/-- The `n` low bytes of a number, the low byte last. -/
def beBytes (n v : ℕ) : List UInt8 := (leBytes n v).reverse

def beValue (bytes : List UInt8) : ℕ := leValue bytes.reverse

@[simp] theorem length_beBytes (n v : ℕ) : (beBytes n v).length = n := by simp [beBytes]

theorem beValue_beBytes {n v : ℕ} (h : v < 256 ^ n) : beValue (beBytes n v) = v := by
  rw [beValue, beBytes, List.reverse_reverse, leValue_leBytes h]

theorem beBytes_beValue (bytes : List UInt8) : beBytes bytes.length (beValue bytes) = bytes := by
  have h := leBytes_leValue bytes.reverse
  rw [List.length_reverse] at h
  rw [beBytes, beValue, h, List.reverse_reverse]

theorem leValue_lt (bytes : List UInt8) : leValue bytes < 256 ^ bytes.length := by
  induction bytes with
  | nil => simp [leValue]
  | cons b bytes ih =>
    have hb := b.toNat_lt
    rw [leValue, List.length_cons, Nat.pow_succ]
    omega

theorem beValue_lt (bytes : List UInt8) : beValue bytes < 256 ^ bytes.length := by
  have h := leValue_lt bytes.reverse
  rwa [List.length_reverse] at h

/-! ## Fields -/

/-- The field types: unsigned numbers of one, two and four bytes, and a
four-byte float. -/
inductive Code where
  | B
  | H
  | I
  | f
  deriving DecidableEq, Repr

def Code.size : Code → ℕ
  | .B => 1
  | .H => 2
  | .I => 4
  | .f => 4

/-- The number of bytes of a record. -/
def calcsize : List Code → ℕ
  | [] => 0
  | c :: format => c.size + calcsize format

/-! ## Records

The fields of a record are numbers.  That of a float is its pattern. -/

/-- The bytes of a record. -/
def pack : List Code → List ℕ → List UInt8
  | c :: format, n :: fields => leBytes c.size n ++ pack format fields
  | _, _ => []

def fieldsOf : List Code → List UInt8 → List ℕ
  | [], _ => []
  | c :: format, data => leValue (data.take c.size) :: fieldsOf format (data.drop c.size)

/-- The field has room for the number. -/
def Code.Holds (c : Code) (n : ℕ) : Prop := n < 256 ^ c.size

theorem length_pack {format : List Code} {fields : List ℕ}
    (h : List.Forall₂ Code.Holds format fields) :
    (pack format fields).length = calcsize format := by
  induction h with
  | nil => rfl
  | cons _ _ ih => rw [pack, List.length_append, length_leBytes, ih, calcsize]

/-- Every record is read back. -/
theorem fieldsOf_pack {format : List Code} {fields : List ℕ}
    (h : List.Forall₂ Code.Holds format fields) : fieldsOf format (pack format fields) = fields := by
  induction h with
  | nil => rfl
  | @cons c n format fields hn _ ih =>
    have htake : (leBytes c.size n ++ pack format fields).take c.size = leBytes c.size n := by
      rw [List.take_left' (length_leBytes c.size n)]
    have hdrop : (leBytes c.size n ++ pack format fields).drop c.size = pack format fields := by
      rw [List.drop_left' (length_leBytes c.size n)]
    rw [pack, fieldsOf, htake, hdrop, leValue_leBytes hn, ih]

/-! ## Values -/

/-- What a field is read as. -/
inductive Value where
  | int (n : ℕ)
  | float (d : Datum)
  deriving DecidableEq, Repr

/-- What the number of a field stands for. -/
def Code.value (c : Code) (n : ℕ) : Value := if c = .f then .float (single n) else .int n

/-- The value in a language that has only double-precision floats. -/
def Value.widened : Value → Value
  | .int n => .int n
  | .float d => .float d.widened

/-- What the number of a field is read as. -/
def Code.read (c : Code) (n : ℕ) : Value := (c.value n).widened

def unpackFields (format : List Code) (data : List UInt8) : List Value :=
  List.zipWith Code.read format (fieldsOf format data)

/-- The values of a record, or nothing for bytes of a wrong length. -/
def unpack (format : List Code) (data : List UInt8) : Option (List Value) :=
  if data.length = calcsize format then some (unpackFields format data) else none

theorem unpack_pack {format : List Code} {fields : List ℕ}
    (h : List.Forall₂ Code.Holds format fields) :
    unpack format (pack format fields) = some (List.zipWith Code.read format fields) := by
  rw [unpack, if_pos (length_pack h), unpackFields, fieldsOf_pack h]

/-- A field is read as what it stands for, but for a signalling NaN. -/
theorem Code.read_eq_value_iff (c : Code) (n : ℕ) :
    c.read n = c.value n ↔ ¬(c = .f ∧ Signalling n) := by
  unfold Code.read Code.value
  by_cases hc : c = .f
  · rw [if_pos hc, Value.widened, Value.float.injEq, widened_single_iff, not_and]
    exact ⟨fun h _ => h, fun h => h hc⟩
  · rw [if_neg hc]
    exact iff_of_true rfl fun h => hc h.1

/-- What is read has been widened. -/
theorem widened_unpackFields (format : List Code) (data : List UInt8) :
    (unpackFields format data).map Value.widened = unpackFields format data := by
  have hread : ∀ (c : Code) (n : ℕ), (c.read n).widened = c.read n := by
    intro c n
    unfold Code.read
    cases c.value n with
    | int n => rfl
    | float d => exact congrArg Value.float d.widened_widened
  unfold unpackFields
  rw [List.map_zipWith]
  simp only [hread]

/-! ## Bytes that are read alike -/

/-- The bytes are equal, or both have the top bit.  In the patterns of one NaN only
such bytes differ. -/
def Alike (b b' : UInt8) : Prop := b = b' ∨ (128 ≤ b.toNat ∧ 128 ≤ b'.toNat)

theorem alike_of_eq {bytes bytes' : List UInt8} (h : bytes = bytes') :
    List.Forall₂ Alike bytes bytes' := by
  rw [h]
  exact List.forall₂_same.2 fun b _ => Or.inl rfl

theorem alike_of_sameNaN {bytes bytes' : List UInt8} (h : bytes.length = 4)
    (h' : bytes'.length = 4) (hsame : SameNaN (leValue bytes) (leValue bytes')) :
    List.Forall₂ Alike bytes bytes' := by
  obtain ⟨b₀, b₁, b₂, b₃, rfl⟩ := List.length_eq_four.1 h
  obtain ⟨c₀, c₁, c₂, c₃, rfl⟩ := List.length_eq_four.1 h'
  have hb₀ := b₀.toNat_lt
  have hb₁ := b₁.toNat_lt
  have hb₂ := b₂.toNat_lt
  have hb₃ := b₃.toNat_lt
  have hc₀ := c₀.toNat_lt
  have hc₁ := c₁.toNat_lt
  have hc₂ := c₂.toNat_lt
  have hc₃ := c₃.toNat_lt
  unfold SameNaN exponent at hsame
  simp only [leValue] at hsame
  simp only [List.forall₂_cons, List.forall₂_nil_left_iff, Alike, ← UInt8.toNat_inj, and_true]
  omega

theorem alike_of_read {c : Code} {bytes bytes' : List UInt8} (h : bytes.length = c.size)
    (h' : bytes'.length = c.size) (hread : c.read (leValue bytes) = c.read (leValue bytes')) :
    List.Forall₂ Alike bytes bytes' := by
  have heq : leValue bytes = leValue bytes' → bytes = bytes' := by
    intro hvalue
    rw [← leBytes_leValue bytes, ← leBytes_leValue bytes', hvalue, h, h']
  unfold Code.read Code.value at hread
  by_cases hc : c = .f
  · subst hc
    rw [if_pos rfl, if_pos rfl, Value.widened, Value.widened, Value.float.injEq] at hread
    have hlt := leValue_lt bytes
    have hlt' := leValue_lt bytes'
    rw [h] at hlt
    rw [h'] at hlt'
    rcases widened_single_eq hlt hlt' hread with hvalue | hsame
    · exact alike_of_eq (heq hvalue)
    · exact alike_of_sameNaN h h' hsame
  · rw [if_neg hc, if_neg hc, Value.widened, Value.widened, Value.int.injEq] at hread
    exact alike_of_eq (heq hread)

/-- Records that are read alike have the same bytes, but for those of a NaN. -/
theorem alike_of_unpackFields {format : List Code} {data data' : List UInt8}
    (h : data.length = calcsize format) (h' : data'.length = calcsize format)
    (hread : unpackFields format data = unpackFields format data') :
    List.Forall₂ Alike data data' := by
  induction format generalizing data data' with
  | nil =>
    rw [calcsize, List.length_eq_zero_iff] at h h'
    rw [h, h']
    exact List.Forall₂.nil
  | cons c format ih =>
    rw [calcsize] at h h'
    unfold unpackFields at hread ih
    rw [fieldsOf, fieldsOf, List.zipWith_cons_cons, List.zipWith_cons_cons,
      List.cons.injEq] at hread
    have htake : ∀ {xs : List UInt8}, xs.length = c.size + calcsize format →
        (xs.take c.size).length = c.size := by
      intro xs hxs
      rw [List.length_take]
      omega
    have hdrop : ∀ {xs : List UInt8}, xs.length = c.size + calcsize format →
        (xs.drop c.size).length = calcsize format := by
      intro xs hxs
      rw [List.length_drop]
      omega
    have hfront := alike_of_read (htake h) (htake h') hread.1
    have hback := ih (hdrop h) (hdrop h') hread.2
    have hall : List.Forall₂ Alike (data.take c.size ++ data.drop c.size)
        (data'.take c.size ++ data'.drop c.size) := List.rel_append hfront hback
    rwa [List.take_append_drop, List.take_append_drop] at hall

end MinotaurRobot.Lib.StructFormat
