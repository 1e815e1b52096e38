import MinotaurRobot.Web.Handshake

/-!
# The connection of a browser

`WebSocketProtocol` of `txws.py`, which wraps a protocol of the server.  The
bytes that come in go through the states of the opening into frames, and the
texts of the frames go to the wrapped protocol.  What the wrapped protocol
writes waits in `pending_frames` until the opening is over.

`sent_in_order` is about the texts that are written.
-/

namespace MinotaurRobot.Web

open Lib.Incremental

/-! ## `txws.py` -/

/-- `REQUEST`, `NEGOTIATING`, `CHALLENGE` and `FRAMES`. -/
inductive Phase where
  | request
  | negotiating
  | challenge
  | frames
  deriving DecidableEq, Repr

/-- `HYBI00`, `HYBI07`, `HYBI10` and `RFC6455`. -/
inductive Flavor where
  | hybi00
  | hybi07
  | hybi10
  | rfc6455
  deriving DecidableEq, Repr

/-- `dataReceived` of the wrapped protocol: its next state, and whether it has
raised something. -/
abbrev Wrapped (σ : Type) := σ → List UInt8 → σ × Bool

/-- `WebSocketProtocol`, with its transport and the wrapped protocol. -/
structure Connection (σ : Type) where
  buf : List UInt8
  /-- `codec` is `"base64"`. -/
  codec : Bool
  location : List UInt8
  host : List UInt8
  origin : List UInt8
  state : Phase
  flavor : Option Flavor
  headers : Headers
  pendingFrames : List (List UInt8)
  /-- What the transport was given. -/
  written : List UInt8
  /-- `loseConnection` was called. -/
  lost : Bool
  /-- The exception that ended the connection. -/
  raised : Option Raised
  wrapped : σ

variable {σ : Type}

def Connection.start (s : σ) : Connection σ where
  buf := []
  codec := false
  location := asciiBytes "/"
  host := asciiBytes "example.com"
  origin := asciiBytes "http://example.com"
  state := .request
  flavor := none
  headers := []
  pendingFrames := []
  written := []
  lost := false
  raised := none
  wrapped := s

namespace Connection

/-- `transport.write`. -/
def give (c : Connection σ) (data : List UInt8) : Connection σ :=
  { c with written := c.written ++ data }

def lose (c : Connection σ) : Connection σ := { c with lost := true }

def throw (c : Connection σ) (e : Raised) : Connection σ := { c with raised := some e }

/-! ### Sending -/

/-- The maker of frames for a flavor. -/
def maker : Flavor → List UInt8 → List UInt8
  | .hybi00 => makeHybi00Frame
  | .hybi07 | .hybi10 | .rfc6455 => fun frame => makeHybi07Frame frame 0x1

/-- `encoders[self.codec](frame)`, if there is a codec. -/
def encode (lib : Library) (codec : Bool) (frame : List UInt8) : List UInt8 :=
  if codec then lib.b64encode frame else frame

/-- `sendFrames`. -/
def sendFrames (lib : Library) (c : Connection σ) : Connection σ :=
  if c.state ≠ .frames then c
  else
    match c.flavor with
    | none => c.throw .unknownFlavor
    | some flavor =>
      { c with
          written := c.written ++
            c.pendingFrames.flatMap fun frame => maker flavor (encode lib c.codec frame)
          pendingFrames := [] }

/-- `write`. -/
def write (lib : Library) (c : Connection σ) (data : List UInt8) : Connection σ :=
  sendFrames lib { c with pendingFrames := c.pendingFrames ++ [data] }

/-- The closing frame, which the old protocol does not have. -/
def closingFrame (reason : List UInt8) : Option Flavor → List UInt8
  | some .hybi07 | some .hybi10 | some .rfc6455 => makeHybi07Frame reason 0x8
  | _ => []

/-- `close`. -/
def close (c : Connection σ) (reason : List UInt8) : Connection σ :=
  (c.give (closingFrame reason c.flavor)).lose

/-! ### Frames -/

def parser : Flavor → Parser UInt8 Frame WSException
  | .hybi00 => hybi00
  | .hybi07 | .hybi10 | .rfc6455 => hybi07

/-- `decoders[self.codec](data)`, if there is a codec. -/
def decode (lib : Library) (codec : Bool) (data : List UInt8) : Option (List UInt8) :=
  if codec then lib.b64decode data else some data

/-- The body of the loop over the frames. -/
def deliver (lib : Library) (app : Wrapped σ) (c : Connection σ) : Frame → Connection σ
  | .normal data =>
    match decode lib c.codec data with
    | none => c.throw .typeError
    | some data =>
      let (s, raised) := app c.wrapped data
      let c := { c with wrapped := s }
      if raised then c.throw .wrapped else c
  | .close _ _ => c.close []
  | .ping _ | .pong _ => c

/-- The loop over the frames.  An exception ends it. -/
def deliverAll (lib : Library) (app : Wrapped σ) : Connection σ → List Frame → Connection σ
  | c, [] => c
  | c, frame :: frames =>
    let c := c.deliver lib app frame
    if c.raised.isSome then c else deliverAll lib app c frames

/-- `parseFrames`. -/
def parseFrames (lib : Library) (app : Wrapped σ) (c : Connection σ) : Connection σ :=
  match c.flavor with
  | none => c.throw .unknownFlavor
  | some flavor =>
    match (parser flavor).parse c.buf with
    | .error e => c.close (asciiBytes e.text)
    | .ok (frames, buf) => deliverAll lib app { c with buf := buf } frames

/-! ### The opening -/

/-- `sendCommonPreamble`. -/
def sendCommonPreamble (lib : Library) (c : Connection σ) : Connection σ :=
  c.give
    (asciiBytes "HTTP/1.1 101 FYI I am not a webserver\r\n" ++
      (asciiBytes "Server: TwistedWebSocketWrapper/1.0\r\n" ++
        (asciiBytes "Date: " ++ lib.date ++ crlf ++
          (asciiBytes "Upgrade: WebSocket\r\n" ++ asciiBytes "Connection: Upgrade\r\n"))))

/-- `sendHyBi00Preamble`. -/
def sendHyBi00Preamble (lib : Library) (c : Connection σ) : Connection σ :=
  let protocol := asciiBytes (if lib.secure then "wss" else "ws")
  let codec := asciiBytes (if c.codec then "base64" else "None")
  (c.sendCommonPreamble lib).give
    (asciiBytes "Sec-WebSocket-Origin: " ++ c.origin ++ crlf ++
      (asciiBytes "Sec-WebSocket-Location: " ++ protocol ++ asciiBytes "://" ++ c.host ++
          c.location ++ crlf ++
        (asciiBytes "WebSocket-Protocol: " ++ codec ++ crlf ++
          (asciiBytes "Sec-WebSocket-Protocol: " ++ codec ++ crlf ++ crlf))))

/-- `sendHyBi07Preamble`. -/
def sendHyBi07Preamble (lib : Library) (c : Connection σ) : Connection σ :=
  let c := c.sendCommonPreamble lib
  match c.headers.get "Sec-WebSocket-Key" with
  | none => c.throw .keyError
  | some challenge =>
    c.give (asciiBytes "Sec-WebSocket-Accept: " ++ makeAccept lib challenge ++ crlf ++ crlf)

/-- The branch of a version that is supported. -/
def startConversation (lib : Library) (flavor : Flavor) (c : Connection σ) : Connection σ × Bool :=
  let c := c.sendHyBi07Preamble lib
  if c.raised.isSome then (c, false)
  else ({ c with flavor := some flavor, state := .frames }, true)

/-- The header lines that name a codec. -/
def protocolHeader (headers : Headers) : Option (List UInt8) :=
  match headers.get "WebSocket-Protocol" with
  | some protocol => some protocol
  | none => headers.get "Sec-WebSocket-Protocol"

/-- The stash of host and origin in `validateHeaders`. -/
def stash (c : Connection σ) : Connection σ :=
  { c with
      host := (c.headers.get "Host").getD c.host
      origin := (c.headers.get "Origin").getD c.origin }

/-- The codec and the start of the old handshake in `validateHeaders`. -/
def prepare (protocol : List UInt8) (c : Connection σ) : Connection σ :=
  { c with
      codec := if protocol ≠ [] then true else c.codec
      flavor := if isHybi00 c.headers then some .hybi00 else c.flavor
      state := if isHybi00 c.headers then .challenge else c.state }

/-- The branches on the version in `validateHeaders`. -/
def chooseVersion (lib : Library) (c : Connection σ) : Connection σ × Bool :=
  match c.headers.get "Sec-WebSocket-Version" with
  | none => (c, true)
  | some version =>
    if version = asciiBytes "7" then c.startConversation lib .hybi07
    else if version = asciiBytes "8" then c.startConversation lib .hybi10
    else if version = asciiBytes "13" then c.startConversation lib .rfc6455
    else (c, false)

/-- `validateHeaders`. -/
def validateHeaders (lib : Library) (c : Connection σ) : Connection σ × Bool :=
  match isWebsocket c.headers with
  | none => (c.throw .attributeError, false)
  | some false => (c, false)
  | some true =>
    let protocol := (protocolHeader c.headers).getD []
    if protocol ≠ [] ∧ protocol ≠ asciiBytes "base64" then (c.stash, false)
    else (c.stash.prepare protocol).chooseVersion lib

/-! ### `dataReceived` -/

/-- The branch of `REQUEST`. -/
def readRequest (c : Connection σ) : Connection σ :=
  match partition crlf c.buf with
  | none => c
  | some (request, buf) =>
    match split [32] request with
    | [_, location, _] => { c with buf := buf, location := location, state := .negotiating }
    -- `ValueError`
    | _ => { c with buf := buf }.lose

/-- The branch of `NEGOTIATING`. -/
def negotiate (lib : Library) (c : Connection σ) : Connection σ :=
  match partition (crlf ++ crlf) c.buf with
  | none => c
  | some (head, buf) =>
    let (c, valid) := { c with buf := buf, headers := httpHeaders head }.validateHeaders lib
    if c.raised.isSome then c else if valid then c else c.lose

/-- The branch of `CHALLENGE`. -/
def answerChallenge (lib : Library) (c : Connection σ) : Connection σ :=
  if 8 ≤ c.buf.length then
    let challenge := c.buf.take 8
    let c := { c with buf := c.buf.drop 8 }
    match completeHybi00 lib c.headers challenge with
    | .error e => c.throw e
    | .ok response => { (c.sendHyBi00Preamble lib).give response with state := .frames }
  else c

/-- One round of the loop in `dataReceived`. -/
def round (lib : Library) (app : Wrapped σ) (c : Connection σ) : Connection σ :=
  match c.state with
  | .request => c.readRequest
  | .negotiating => c.negotiate lib
  | .challenge => c.answerChallenge lib
  | .frames => c.parseFrames lib app

/-- The loop, which goes on while the state changes.  `count` bounds the
rounds. -/
def rounds (lib : Library) (app : Wrapped σ) : ℕ → Connection σ → Connection σ
  | 0, c => c
  | count + 1, c =>
    let c' := c.round lib app
    if c'.raised.isSome ∨ c'.state = c.state then c' else rounds lib app count c'

/-- The end of `dataReceived`. -/
def flush (lib : Library) (c : Connection σ) : Connection σ :=
  if c.raised.isNone ∧ c.pendingFrames ≠ [] then c.sendFrames lib else c

/-- `dataReceived`.  The state changes three times at most. -/
def dataReceived (lib : Library) (app : Wrapped σ) (c : Connection σ) (data : List UInt8) :
    Connection σ :=
  (rounds lib app 4 { c with buf := c.buf ++ data }).flush lib

/-- A segment comes in, or the wrapped protocol writes. -/
inductive Event where
  | receive (data : List UInt8)
  | write (data : List UInt8)

/-- One event.  Behind `loseConnection` and behind an exception the transport
reads no more. -/
def step (lib : Library) (app : Wrapped σ) (c : Connection σ) : Event → Connection σ
  | .receive data => if c.lost || c.raised.isSome then c else c.dataReceived lib app data
  | .write data => if c.raised.isSome then c else c.write lib data

def run (lib : Library) (app : Wrapped σ) (c : Connection σ) (events : List Event) : Connection σ :=
  events.foldl (step lib app) c

/-- The stream that comes in. -/
def received : List Event → List UInt8
  | [] => []
  | .receive data :: events => data ++ received events
  | .write _ :: events => received events

/-- The texts that the server writes in a run. -/
def texts : List Event → List (List UInt8)
  | [] => []
  | .receive _ :: events => texts events
  | .write data :: events => data :: texts events

end Connection

end MinotaurRobot.Web
