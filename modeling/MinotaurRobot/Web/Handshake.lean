import Mathlib.Data.List.Infix
import MinotaurRobot.Web.Hybi00

/-!
# The opening of a connection

The parts of `txws.py` that read the request of a browser: header lines,
the kinds of the protocol, and the two answers that a browser checks.  A text
is a list of bytes.  What Python raises is part of the result.
-/

namespace MinotaurRobot.Web

open Lib.Incremental Lib.StructFormat

/-! ## Python -/

/-- What `WebSocketProtocol` does not catch. -/
inductive Raised where
  | attributeError
  | keyError
  | valueError
  | zeroDivisionError
  | structError
  | typeError
  /-- `WSException`, for an unknown flavor. -/
  | unknownFlavor
  /-- The wrapped protocol has raised something. -/
  | wrapped
  deriving DecidableEq, Repr

/-- The hash functions, the codecs and the surroundings. -/
structure Library where
  /-- `md5(nonce).digest()`. -/
  md5 : List UInt8 → List UInt8
  /-- `sha1(text).digest().encode("base64").strip()`. -/
  sha1Base64 : List UInt8 → List UInt8
  b64encode : List UInt8 → List UInt8
  /-- `none` is a `TypeError`. -/
  b64decode : List UInt8 → Option (List UInt8)
  /-- `datetimeToString()`, at the time of the preamble. -/
  date : List UInt8
  /-- `isSecure()`. -/
  secure : Bool

def crlf : List UInt8 := [13, 10]

def isSpace (b : UInt8) : Bool := b == 32 || (9 ≤ b && b ≤ 13)

/-- `text.strip()`. -/
def strip (text : List UInt8) : List UInt8 :=
  ((text.dropWhile isSpace).reverse.dropWhile isSpace).reverse

/-- `text.lower()`. -/
def lower (text : List UInt8) : List UInt8 :=
  text.map fun b => if 65 ≤ b ∧ b ≤ 90 then b + 32 else b

/-- At most `count` rounds of `text.split(sep)`. -/
def splitFor (sep : List UInt8) : ℕ → List UInt8 → List (List UInt8)
  | 0, text => [text]
  | count + 1, text =>
    match partition sep text with
    | none => [text]
    | some (part, text) => part :: splitFor sep count text

/-- `text.split(sep)`.  There are not more occurrences than bytes. -/
def split (sep text : List UInt8) : List (List UInt8) := splitFor sep text.length text

/-- A dictionary.  The last assignment to a key is in front. -/
abbrev Headers := List (List UInt8 × List UInt8)

def Headers.get (headers : Headers) (key : String) : Option (List UInt8) :=
  headers.lookup (asciiBytes key)

/-! ## `txws.py` -/

/-- `http_headers`. -/
def httpHeaders (s : List UInt8) : Headers :=
  (split crlf s).foldl (fun d line =>
    match partition [58] line with
    -- `ValueError`: the line has no colon
    | none => d
    | some (key, value) => (strip key, strip value) :: d) []

/-- `is_websocket`.  `none` is the `AttributeError` for a missing `Upgrade`. -/
def isWebsocket (headers : Headers) : Option Bool :=
  if asciiBytes "Upgrade" <:+: (headers.get "Connection").getD [] then
    (headers.get "Upgrade").map fun value => lower value == asciiBytes "websocket"
  else some false

/-- `is_hybi00`. -/
def isHybi00 (headers : Headers) : Bool :=
  (headers.get "Sec-WebSocket-Key1").isSome && (headers.get "Sec-WebSocket-Key2").isSome

/-- `int("".join(i for i in key if i in digits)) / key.count(" ")`. -/
def keyNumber (key : List UInt8) : Except Raised ℕ :=
  let digits := key.filter fun b => 48 ≤ b && b ≤ 57
  if digits = [] then .error .valueError
  else if key.count 32 = 0 then .error .zeroDivisionError
  else .ok (digits.foldl (fun n b => 10 * n + (b.toNat - 48)) 0 / key.count 32)

/-- `complete_hybi00`. -/
def completeHybi00 (lib : Library) (headers : Headers) (challenge : List UInt8) :
    Except Raised (List UInt8) :=
  match headers.get "Sec-WebSocket-Key1", headers.get "Sec-WebSocket-Key2" with
  | some key1, some key2 => do
    let first ← keyNumber key1
    let second ← keyNumber key2
    if first < 256 ^ 4 ∧ second < 256 ^ 4 then
      return lib.md5 (beBytes 4 first ++ (beBytes 4 second ++ challenge))
    else throw .structError
  | _, _ => .error .keyError

/-- `make_accept`. -/
def makeAccept (lib : Library) (key : List UInt8) : List UInt8 :=
  lib.sha1Base64 (key ++ asciiBytes "258EAFA5-E914-47DA-95CA-C5AB0DC85B11")

end MinotaurRobot.Web
