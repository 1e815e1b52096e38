import MinotaurRobot.Host.Recv
import MinotaurRobot.Lib.StructFormat

/-!
# The metrics packet

The robot answers a `0x30` command with its packed state, and the server takes
the packet apart by the format `<BIfffHHBB`.  The floats of the state are their
bit patterns here; the server has what they stand for.
-/

namespace MinotaurRobot.Cnc

open Lib.StructFormat Lib.Widening

/-! ## The robot -/

/-- `MinotaurStatePacked`. -/
structure MinotaurStatePacked where
  command : UInt8
  timestamp : UInt32
  x : UInt32
  y : UInt32
  orient : UInt32
  leftEncoder : UInt16
  rightEncoder : UInt16
  irBank : UInt8
  battery : UInt8
  deriving DecidableEq, Repr

/-- The constructor of `MinotaurStatePacked` from a state. -/
def MinotaurStatePacked.ofState (state : Host.MinotaurState UInt32) : MinotaurStatePacked where
  command := 0x30
  timestamp := state.timestamp
  x := state.x
  y := state.y
  orient := state.orient
  leftEncoder := state.leftEncoder
  rightEncoder := state.rightEncoder
  irBank := state.irBank
  battery := state.battery

/-- The bytes of the packed record on a little-endian host. -/
def MinotaurStatePacked.bytes (p : MinotaurStatePacked) : List UInt8 :=
  [p.command] ++ leBytes 4 p.timestamp.toNat ++ leBytes 4 p.x.toNat ++ leBytes 4 p.y.toNat ++
    leBytes 4 p.orient.toNat ++ leBytes 2 p.leftEncoder.toNat ++
    leBytes 2 p.rightEncoder.toNat ++ [p.irBank] ++ [p.battery]

/-! ## The server -/

/-- `"<BIfffHHBB"`. -/
def metricsFormat : List Code := [.B, .I, .f, .f, .f, .H, .H, .B, .B]

/-- The names of the fields in the dictionary. -/
def metricsNames : List String :=
  ["command", "timestamp", "x", "y", "orient", "left_encoder", "right_encoder", "ir_bank",
    "battery"]

/-- `dict(zip(metrics, metrics_tuple))`. -/
def metricsDict (values : List Value) : List (String × Value) := metricsNames.zip values

/-! ## The packet through the format -/

/-- The fields of a packet. -/
def MinotaurStatePacked.fields (p : MinotaurStatePacked) : List ℕ :=
  [p.command.toNat, p.timestamp.toNat, p.x.toNat, p.y.toNat, p.orient.toNat,
    p.leftEncoder.toNat, p.rightEncoder.toNat, p.irBank.toNat, p.battery.toNat]

/-- What the fields stand for. -/
def MinotaurStatePacked.values (p : MinotaurStatePacked) : List Value :=
  List.zipWith Code.value metricsFormat p.fields

/-- What the server reads. -/
def MinotaurStatePacked.read (p : MinotaurStatePacked) : List Value :=
  List.zipWith Code.read metricsFormat p.fields

theorem leBytes_one (b : UInt8) : leBytes 1 b.toNat = [b] := by
  rw [leBytes, leBytes, UInt8.ofNat_toNat]

theorem bytes_eq_pack (p : MinotaurStatePacked) : p.bytes = pack metricsFormat p.fields := by
  simp only [MinotaurStatePacked.bytes, MinotaurStatePacked.fields, metricsFormat, pack,
    Code.size, leBytes_one, List.append_assoc, List.append_nil]

theorem holds_fields (p : MinotaurStatePacked) :
    List.Forall₂ Code.Holds metricsFormat p.fields := by
  have hB : ∀ b : UInt8, Code.Holds .B b.toNat := fun b => b.toNat_lt
  have hH : ∀ w : UInt16, Code.Holds .H w.toNat := fun w => w.toNat_lt
  have hI : ∀ w : UInt32, Code.Holds .I w.toNat := fun w => w.toNat_lt
  have hf : ∀ w : UInt32, Code.Holds .f w.toNat := fun w => w.toNat_lt
  unfold metricsFormat MinotaurStatePacked.fields
  simp only [List.forall₂_cons, List.forall₂_nil_left_iff, hB, hH, hI, hf, and_self]

@[simp] theorem length_bytes (p : MinotaurStatePacked) : p.bytes.length = 23 := by
  rw [bytes_eq_pack, length_pack (holds_fields p)]
  rfl

theorem unpack_bytes (p : MinotaurStatePacked) : unpack metricsFormat p.bytes = some p.read := by
  rw [bytes_eq_pack, unpack_pack (holds_fields p)]
  rfl

/-- No float of the packet is a signalling NaN. -/
def MinotaurStatePacked.Quiet (p : MinotaurStatePacked) : Prop :=
  ¬Signalling p.x.toNat ∧ ¬Signalling p.y.toNat ∧ ¬Signalling p.orient.toNat

instance (p : MinotaurStatePacked) : Decidable p.Quiet := inferInstanceAs (Decidable (_ ∧ _))

theorem widened_values (p : MinotaurStatePacked) : p.values.map Value.widened = p.read :=
  List.map_zipWith ..

/-- The server reads what the fields stand for, unless one is a signalling
NaN. -/
theorem read_eq_values_iff (p : MinotaurStatePacked) : p.read = p.values ↔ p.Quiet := by
  have hf : ∀ n : ℕ, Code.read .f n = Code.value .f n ↔ ¬Signalling n := by
    intro n
    rw [Code.read_eq_value_iff, eq_self, true_and]
  have hint : ∀ c : Code, c ≠ .f → ∀ n : ℕ, c.read n = c.value n := by
    intro c hc n
    rw [Code.read_eq_value_iff]
    exact fun h => hc h.1
  unfold MinotaurStatePacked.read MinotaurStatePacked.values MinotaurStatePacked.Quiet
    MinotaurStatePacked.fields metricsFormat
  simp only [List.zipWith_cons_cons, List.zipWith_nil_left, List.cons.injEq, hf,
    hint .B (by decide), hint .H (by decide), hint .I (by decide), true_and, and_true]

/-! ## The dictionary -/

/-- The dictionary has all the values. -/
theorem metricsDict_injective {values values' : List Value}
    (h : values.length = metricsNames.length) (h' : values'.length = metricsNames.length)
    (hdict : metricsDict values = metricsDict values') : values = values' := by
  have hsnd := congrArg (List.map Prod.snd) hdict
  unfold metricsDict at hsnd
  rwa [List.map_snd_zip h.le, List.map_snd_zip h'.le] at hsnd

theorem length_unpackFields (data : List UInt8) :
    (unpackFields metricsFormat data).length = metricsNames.length := rfl

theorem dict_eq_iff (p : MinotaurStatePacked) :
    metricsDict p.read = metricsDict p.values ↔ p.Quiet := by
  rw [← read_eq_values_iff]
  exact ⟨metricsDict_injective rfl rfl, congrArg metricsDict⟩

/-! ## The state through the packet -/

theorem fields_injective : Function.Injective MinotaurStatePacked.fields := by
  intro p q h
  simp only [MinotaurStatePacked.fields, List.cons.injEq, UInt8.toNat_inj, UInt16.toNat_inj,
    UInt32.toNat_inj, and_true] at h
  obtain ⟨hcommand, htimestamp, hx, hy, horient, hleft, hright, hir, hbattery⟩ := h
  cases p
  cases q
  simp_all

theorem bytes_injective : Function.Injective MinotaurStatePacked.bytes := by
  intro p q h
  have hfields := fieldsOf_pack (holds_fields p)
  rw [← bytes_eq_pack, h, bytes_eq_pack, fieldsOf_pack (holds_fields q)] at hfields
  exact (fields_injective hfields).symm

/-- The server reads every field of the state under its own name, and with its
own value exactly if no float is a signalling NaN: that one arrives as the
quiet NaN.  States with the same bytes have the same fields. -/
theorem metrics_roundTrip (state state' : Host.MinotaurState UInt32) :
    (∃ values, unpack metricsFormat (MinotaurStatePacked.ofState state).bytes = some values ∧
      metricsNames.Nodup ∧
      metricsDict values =
        [("command", .int 0x30), ("timestamp", .int state.timestamp.toNat),
          ("x", .float (single state.x.toNat).widened),
          ("y", .float (single state.y.toNat).widened),
          ("orient", .float (single state.orient.toNat).widened),
          ("left_encoder", .int state.leftEncoder.toNat),
          ("right_encoder", .int state.rightEncoder.toNat), ("ir_bank", .int state.irBank.toNat),
          ("battery", .int state.battery.toNat)] ∧
      (metricsDict values =
          [("command", .int 0x30), ("timestamp", .int state.timestamp.toNat),
            ("x", .float (single state.x.toNat)), ("y", .float (single state.y.toNat)),
            ("orient", .float (single state.orient.toNat)),
            ("left_encoder", .int state.leftEncoder.toNat),
            ("right_encoder", .int state.rightEncoder.toNat),
            ("ir_bank", .int state.irBank.toNat), ("battery", .int state.battery.toNat)] ↔
        ¬Signalling state.x.toNat ∧ ¬Signalling state.y.toNat ∧
          ¬Signalling state.orient.toNat)) ∧
      ((MinotaurStatePacked.ofState state).bytes = (MinotaurStatePacked.ofState state').bytes ↔
        state.timestamp = state'.timestamp ∧ state.x = state'.x ∧ state.y = state'.y ∧
          state.orient = state'.orient ∧ state.leftEncoder = state'.leftEncoder ∧
          state.rightEncoder = state'.rightEncoder ∧ state.irBank = state'.irBank ∧
          state.battery = state'.battery) := by
  constructor
  · exact ⟨_, unpack_bytes _, by decide, rfl, dict_eq_iff (MinotaurStatePacked.ofState state)⟩
  · rw [bytes_injective.eq_iff]
    simp only [MinotaurStatePacked.ofState, MinotaurStatePacked.mk.injEq, true_and]

/-- A robot whose `x` is a signalling NaN: the server reads a quiet one. -/
def signallingState : Host.MinotaurState UInt32 :=
  ⟨0, 0x7F800001, 0, 0, 0, 0, 0, 0, true, true, true, true, true, true⟩

theorem metrics_quieted :
    (∃ values, unpack metricsFormat (MinotaurStatePacked.ofState signallingState).bytes =
        some values ∧ (metricsDict values)[2]? = some ("x", .float (single 0x7FC00001))) ∧
      ¬∃ values, unpack metricsFormat (MinotaurStatePacked.ofState signallingState).bytes =
          some values ∧
        (metricsDict values)[2]? = some ("x", .float (single signallingState.x.toNat)) := by
  rw [unpack_bytes]
  refine ⟨⟨_, rfl, by decide⟩, ?_⟩
  rintro ⟨values, hvalues, hx⟩
  rw [← Option.some.inj hvalues] at hx
  exact absurd hx (by decide)

end MinotaurRobot.Cnc
