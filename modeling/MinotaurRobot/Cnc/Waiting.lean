import MinotaurRobot.Cnc.Server
import MinotaurRobot.Lib.Runs

/-!
# Clients that wait for metrics

`requestMetrics` sends a command for the first client that waits, and relies
on the answer for all others.  In a run the clients ask, the robot answers the
commands and sends keepalives, and the stream of the robot is delivered in
segments of any length.

While a client waits, an answer should be on its way.  `onTheWay_iff` gives the
runs in which that is so: the server must recognise the segment that ends the
last answer, because it drops any other one and keeps the clients waiting.
-/

namespace MinotaurRobot.Cnc

variable {Client : Type} [DecidableEq Client]

/-! ## The server and the stream of the robot -/

structure World (Client : Type) where
  minotaur : Minotaur Client
  /-- The number of `0x30` commands sent to the robot. -/
  sent : ℕ
  /-- What the robot has sent behind its login. -/
  messages : List Message
  /-- The number of bytes that have been delivered of it. -/
  delivered : ℕ

/-- The robot has logged in. -/
def World.init : World Client where
  minotaur := Minotaur.init.login loginBytes
  sent := 0
  messages := []
  delivered := 0

def Message.isAnswer : Message → Bool
  | .keepalive => false
  | .metrics _ => true

/-- The answers that lie in the first `n` bytes as a whole. -/
def answered : List Message → ℕ → ℕ
  | [], _ => 0
  | message :: messages, n =>
    if message.bytes.length ≤ n then
      message.isAnswer.toNat + answered messages (n - message.bytes.length)
    else 0

inductive WorldEvent (Client : Type) where
  | request (client : Client)
  | answer (state : Host.MinotaurState UInt32)
  | keepalive
  | deliver (n : ℕ)

/-- The next `n` bytes of the stream. -/
def World.segment (w : World Client) (n : ℕ) : List UInt8 :=
  ((stream w.messages).drop w.delivered).take n

/-- One step.  The robot answers each command once, and a segment is a part of
what it has sent. -/
def World.step (w : World Client) : WorldEvent Client → Option (World Client)
  | .request client =>
    let (minotaur, commands) := w.minotaur.requestMetrics client
    some { w with minotaur := minotaur, sent := w.sent + commands.length }
  | .answer state =>
    if w.messages.countP Message.isAnswer < w.sent then
      some { w with messages := w.messages ++ [.metrics state] }
    else none
  | .keepalive => some { w with messages := w.messages ++ [.keepalive] }
  | .deliver n =>
    if 0 < n ∧ w.delivered + n ≤ (stream w.messages).length then
      some { w with
        minotaur := (w.minotaur.dataReceived (w.segment n)).1
        delivered := w.delivered + n }
    else none

/-- A run behind the login. -/
def World.run (events : List (WorldEvent Client)) : Option (World Client) :=
  Lib.Runs.run World.step World.init events

/-- While a client waits, a command has not been answered yet. -/
def World.OnTheWay (w : World Client) : Prop :=
  w.minotaur.waiting.Nonempty → answered w.messages w.delivered < w.sent

/-- The segment ends the last answer, while a client waits. -/
def World.EndsLast (w : World Client) (n : ℕ) : Prop :=
  w.minotaur.waiting.Nonempty ∧ answered w.messages (w.delivered + n) = w.sent

/-- In every state of the run an answer is on its way for the clients that
wait. -/
def AnswersComing (events : List (WorldEvent Client)) : Prop :=
  ∀ pre w, pre <+: events → World.run pre = some w → w.OnTheWay

/-- The server recognises every segment that ends the last answer while a
client waits: the segment has 23 bytes and begins with `0x30`. -/
def LastRecognised (events : List (WorldEvent Client)) : Prop :=
  ∀ pre n w, pre ++ [.deliver n] <+: events → World.run pre = some w → w.EndsLast n →
    isPacket (w.segment n) = true

/-! ## Answers in the stream -/

theorem answered_le (messages : List Message) (n : ℕ) :
    answered messages n ≤ messages.countP Message.isAnswer := by
  induction messages generalizing n with
  | nil => exact Nat.le_refl 0
  | cons message messages ih =>
    have hrest := ih (n - message.bytes.length)
    rw [answered, List.countP_cons]
    split
    · cases message.isAnswer <;> simp <;> omega
    · exact Nat.zero_le _

theorem bytes_pos (message : Message) : 0 < message.bytes.length := by
  cases message with
  | keepalive => decide
  | metrics state => rw [Message.bytes, length_bytes]; decide

/-- What the robot sends next is not in the bytes delivered. -/
theorem answered_concat {messages : List Message} {n : ℕ} (h : n ≤ (stream messages).length)
    (message : Message) : answered (messages ++ [message]) n = answered messages n := by
  induction messages generalizing n with
  | nil =>
    have hpos := bytes_pos message
    have hzero : n = 0 := Nat.le_zero.1 h
    have hshort : ¬message.bytes.length ≤ n := by omega
    simp only [List.nil_append, answered, if_neg hshort]
  | cons first messages ih =>
    rw [stream, List.flatMap_cons, List.length_append] at h
    rw [List.cons_append, answered, answered]
    split
    · rw [ih]
      rw [stream]
      omega
    · rfl

/-! ## Steps -/

/-- The robot has logged in, and it answers only what it was asked. -/
structure World.Inv (w : World Client) : Prop where
  loggedin : w.minotaur.loggedin = true
  answers : w.messages.countP Message.isAnswer ≤ w.sent
  delivered : w.delivered ≤ (stream w.messages).length

omit [DecidableEq Client] in
theorem World.Inv.answered_le {w : World Client} (h : w.Inv) (n : ℕ) :
    answered w.messages n ≤ w.sent :=
  (Cnc.answered_le w.messages n).trans h.answers

/-- A request is sent unless another client waits already. -/
theorem request_spec (m : Minotaur Client) (client : Client) :
    (m.requestMetrics client).1.loggedin = m.loggedin ∧
      (m.waiting.Nonempty ∨ (m.requestMetrics client).2.length = 1) := by
  refine ⟨rfl, ?_⟩
  rcases Finset.eq_empty_or_nonempty m.waiting with hempty | hwaiting
  · unfold Minotaur.waiting at hempty
    refine Or.inr ?_
    unfold Minotaur.requestMetrics
    rw [hempty]
    simp
  · exact Or.inl hwaiting

theorem length_stream_concat (messages : List Message) (message : Message) :
    (stream (messages ++ [message])).length =
      (stream messages).length + message.bytes.length := by
  unfold stream
  rw [List.flatMap_append, List.length_append, List.flatMap_singleton]

omit [DecidableEq Client] in
/-- A segment leaves the clients waiting unless it is recognised. -/
theorem dataReceived_waiting {m : Minotaur Client} (h : m.loggedin = true) (data : List UInt8) :
    (m.dataReceived data).1.loggedin = true ∧
      ((m.dataReceived data).1.waiting.Nonempty ↔
        m.waiting.Nonempty ∧ ¬isPacket data = true) := by
  rw [dataReceived_eq h]
  cases hrequests : m.requests with
  | none =>
    have hempty : ¬m.waiting.Nonempty := by
      unfold Minotaur.waiting
      rw [hrequests]
      exact Finset.not_nonempty_empty
    rw [Option.isSome_none, Bool.false_and, if_neg Bool.false_ne_true]
    exact ⟨h, fun hwaiting => absurd hwaiting hempty, fun hwaiting => absurd hwaiting.1 hempty⟩
  | some clients =>
    rw [Option.isSome_some, Bool.true_and]
    by_cases hpacket : isPacket data = true
    · rw [if_pos hpacket]
      exact ⟨h, fun hwaiting => absurd hwaiting Finset.not_nonempty_empty,
        fun hwaiting => absurd hpacket hwaiting.2⟩
    · rw [if_neg hpacket]
      exact ⟨h, fun hwaiting => ⟨hwaiting, hpacket⟩, fun hwaiting => hwaiting.1⟩

/-- What a step needs to keep an answer on its way. -/
def World.Recognises (w : World Client) : WorldEvent Client → Prop
  | .deliver n => w.EndsLast n → isPacket (w.segment n) = true
  | _ => True

theorem step_onTheWay {w w' : World Client} {e : WorldEvent Client} (hinv : w.Inv)
    (hgood : w.OnTheWay) (hstep : w.step e = some w') :
    w'.Inv ∧ (w'.OnTheWay ↔ w.Recognises e) := by
  cases e with
  | request client =>
    obtain ⟨hlogin, hsent⟩ := request_spec w.minotaur client
    rw [World.step, Option.some.injEq] at hstep
    rw [← hstep]
    have hbound := hinv.answered_le w.delivered
    refine ⟨⟨hlogin.trans hinv.loggedin, hinv.answers.trans (Nat.le_add_right _ _),
      hinv.delivered⟩, fun _ => trivial, fun _ _ => ?_⟩
    show answered w.messages w.delivered < w.sent + (w.minotaur.requestMetrics client).2.length
    rcases hsent with hwaiting | hone
    · have := hgood hwaiting
      omega
    · omega
  | answer state =>
    rw [World.step] at hstep
    split at hstep
    · rename_i hasked
      rw [Option.some.injEq] at hstep
      rw [← hstep]
      refine ⟨⟨hinv.loggedin, ?_, ?_⟩, fun _ => trivial, fun _ hwaiting => ?_⟩
      · show (w.messages ++ [Message.metrics state]).countP Message.isAnswer ≤ w.sent
        rw [List.countP_append]
        exact hasked
      · show w.delivered ≤ (stream (w.messages ++ [.metrics state])).length
        rw [length_stream_concat]
        exact hinv.delivered.trans (Nat.le_add_right _ _)
      · show answered (w.messages ++ [.metrics state]) w.delivered < w.sent
        rw [answered_concat hinv.delivered]
        exact hgood hwaiting
    · cases hstep
  | keepalive =>
    rw [World.step, Option.some.injEq] at hstep
    rw [← hstep]
    refine ⟨⟨hinv.loggedin, ?_, ?_⟩, fun _ => trivial, fun _ hwaiting => ?_⟩
    · show (w.messages ++ [Message.keepalive]).countP Message.isAnswer ≤ w.sent
      rw [List.countP_append]
      exact hinv.answers
    · show w.delivered ≤ (stream (w.messages ++ [.keepalive])).length
      rw [length_stream_concat]
      exact hinv.delivered.trans (Nat.le_add_right _ _)
    · show answered (w.messages ++ [.keepalive]) w.delivered < w.sent
      rw [answered_concat hinv.delivered]
      exact hgood hwaiting
  | deliver n =>
    rw [World.step] at hstep
    split at hstep
    · rename_i hroom
      rw [Option.some.injEq] at hstep
      obtain ⟨hlogin, hwaiting⟩ := dataReceived_waiting hinv.loggedin (w.segment n)
      have hbound := hinv.answered_le (w.delivered + n)
      rw [← hstep]
      refine ⟨⟨hlogin, hinv.answers, hroom.2⟩, ?_⟩
      unfold World.OnTheWay World.Recognises World.EndsLast
      dsimp only
      rw [hwaiting]
      constructor
      · intro hway hends
        by_contra hpacket
        have := hway ⟨hends.1, hpacket⟩
        omega
      · intro hpacket hboth
        by_contra hnot
        exact hboth.2 (hpacket ⟨hboth.1, by omega⟩)
    · cases hstep

/-! ## Runs -/

/-- Along a run an answer is on its way for every client that waits, exactly if
every segment that ends the last answer while a client waits is a chunk of 23
bytes that begins with `0x30`. -/
theorem onTheWay_iff {events : List (WorldEvent Client)} {w : World Client}
    (h : World.run events = some w) : AnswersComing events ↔ LastRecognised events := by
  have hinv : (World.init : World Client).Inv := ⟨rfl, Nat.le_refl 0, Nat.le_refl 0⟩
  have hgood : (World.init : World Client).OnTheWay := fun hwaiting =>
    absurd hwaiting Finset.not_nonempty_empty
  have hiff := Lib.Runs.always_iff World.Inv World.OnTheWay World.Recognises hinv hgood
    (fun w e w' => step_onTheWay) h
  unfold AnswersComing LastRecognised World.run
  rw [hiff]
  constructor
  · intro hall pre n w₁ hpre hrun
    exact hall pre (.deliver n) w₁ hpre hrun
  · intro hall pre e w₁ hpre hrun
    cases e with
    | deliver n => exact hall pre n w₁ hpre hrun
    | request client => trivial
    | answer state => trivial
    | keepalive => trivial

/-- A request whose answer arrives as one segment. -/
theorem onTheWay_whole :
    AnswersComing ([.request 1, .answer parked, .deliver 23] : List (WorldEvent ℕ)) := by
  obtain ⟨w, hrun⟩ : ∃ w : World ℕ,
      World.run [.request 1, .answer parked, .deliver 23] = some w := ⟨_, rfl⟩
  apply (onTheWay_iff hrun).2
  intro pre n w hpre hfront _
  obtain ⟨suf, hsuf⟩ := hpre
  rw [List.append_assoc, List.singleton_append] at hsuf
  rcases pre with _ | ⟨e₁, _ | ⟨e₂, _ | ⟨e₃, pre⟩⟩⟩
  · simp at hsuf
  · simp at hsuf
  · simp only [List.cons_append, List.nil_append, List.cons.injEq, WorldEvent.deliver.injEq] at hsuf
    obtain ⟨rfl, rfl, rfl, -⟩ := hsuf
    rw [← Option.some.inj hfront]
    rfl
  · simp at hsuf

/-- The answer arrives in two segments: the server takes neither for a metrics
packet, and the client waits with no answer on its way. -/
theorem onTheWay_cut :
    ∃ w : World ℕ, World.run [.request 1, .answer parked, .deliver 10, .deliver 13] = some w ∧
      1 ∈ w.minotaur.waiting ∧ w.sent = 1 ∧ answered w.messages w.delivered = 1 ∧
      ¬AnswersComing
        ([.request 1, .answer parked, .deliver 10, .deliver 13] : List (WorldEvent ℕ)) := by
  refine ⟨_, rfl, by decide, rfl, by decide, ?_⟩
  intro h
  exact absurd (h _ _ List.prefix_rfl rfl ⟨1, by decide⟩) (by decide)

end MinotaurRobot.Cnc
