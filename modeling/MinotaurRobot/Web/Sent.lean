import MinotaurRobot.Web.Connection

/-!
# What the server sends

The wrapped protocol may write before the opening is over, and in between the
segments.  `sent_in_order` says what the transport was given, for every run
that ended neither in an exception nor in a close: nothing until the opening
is over, and then the answer to the opening, and a frame for each text in the
order in which they were written.
-/

namespace MinotaurRobot.Web

open Lib.Incremental

variable {σ : Type}

namespace Connection

/-- Neither lost nor ended by an exception. -/
def Alive (c : Connection σ) : Prop := c.raised = none ∧ c.lost = false

instance (c : Connection σ) : Decidable c.Alive := inferInstanceAs (Decidable (_ ∧ _))

/-- What `sendHyBi00Preamble` writes. -/
def preamble00 (lib : Library) (c : Connection σ) : List UInt8 :=
  ({ c with written := [] }.sendHyBi00Preamble lib).written

/-- What `sendHyBi07Preamble` writes. -/
def preamble07 (lib : Library) (c : Connection σ) : List UInt8 :=
  ({ c with written := [] }.sendHyBi07Preamble lib).written

/-- The answer to the opening.  That of the old protocol depends on the
challenge. -/
def Answer (lib : Library) (c : Connection σ) (answer : List UInt8) : Prop :=
  match c.flavor with
  | none => False
  | some .hybi00 => ∃ challenge response, challenge.length = 8 ∧
      completeHybi00 lib c.headers challenge = .ok response ∧
        answer = c.preamble00 lib ++ response
  | some _ => answer = c.preamble07 lib

/-- The frames of some texts. -/
def framesOf (lib : Library) (c : Connection σ) (texts : List (List UInt8)) : List UInt8 :=
  match c.flavor with
  | none => []
  | some flavor => texts.flatMap fun text => maker flavor (encode lib c.codec text)

@[simp] theorem framesOf_nil (lib : Library) (c : Connection σ) : c.framesOf lib [] = [] := by
  unfold framesOf
  cases c.flavor with
  | none => rfl
  | some flavor => rfl

theorem framesOf_append (lib : Library) (c : Connection σ) (sent waiting : List (List UInt8)) :
    c.framesOf lib (sent ++ waiting) = c.framesOf lib sent ++ c.framesOf lib waiting := by
  unfold framesOf
  cases c.flavor with
  | none => rfl
  | some flavor => exact List.flatMap_append

/-- Where the texts of the server are. -/
structure Sends (lib : Library) (c : Connection σ) (texts : List (List UInt8)) : Prop where
  before : c.state ≠ .frames → c.written = [] ∧ c.pendingFrames = texts
  challenge : c.state = .challenge → c.flavor = some .hybi00
  behind : c.state = .frames → ∃ answer sent, c.Answer lib answer ∧
    sent ++ c.pendingFrames = texts ∧ c.written = answer ++ c.framesOf lib sent

variable {lib : Library} {app : Wrapped σ} {c : Connection σ} {texts : List (List UInt8)}

/-- The answer of the newer protocols depends on the headers only. -/
theorem preamble07_congr {c' : Connection σ} (h : c.headers = c'.headers) :
    c.preamble07 lib = c'.preamble07 lib := by
  rw [preamble07, preamble07, sendHyBi07Preamble, sendHyBi07Preamble]
  have hleft : (({ c with written := [] } : Connection σ).sendCommonPreamble lib).headers =
    c.headers := rfl
  have hright : (({ c' with written := [] } : Connection σ).sendCommonPreamble lib).headers =
    c'.headers := rfl
  rw [hleft, hright, h]
  cases c'.headers.get "Sec-WebSocket-Key" with
  | none => rfl
  | some challenge => rfl

/-- An answer depends on what the opening has set. -/
theorem Answer.congr {c' : Connection σ} {answer : List UInt8} (h : c.Answer lib answer)
    (hflavor : c.flavor = c'.flavor) (hheaders : c.headers = c'.headers)
    (hpreamble : c.preamble00 lib = c'.preamble00 lib) : c'.Answer lib answer := by
  rw [Answer, hflavor, hheaders, hpreamble, preamble07_congr hheaders] at h
  exact h

theorem answer_newer {c' : Connection σ} {flavor : Flavor} (hflavor : flavor ≠ .hybi00)
    (h : c.flavor = some flavor) (hheaders : c'.headers = c.headers) :
    c.Answer lib (c'.preamble07 lib) := by
  rw [preamble07_congr hheaders, Answer, h]
  cases flavor with
  | hybi00 => exact absurd rfl hflavor
  | hybi07 | hybi10 | rfc6455 => rfl

theorem Sends.keeps (h : c.Sends lib texts) (buf : List UInt8) (s : σ) :
    { c with buf := buf, wrapped := s }.Sends lib texts where
  before := h.before
  challenge := h.challenge
  behind := by
    intro hframes
    obtain ⟨answer, sent, hanswer, hsent, hwritten⟩ := h.behind hframes
    exact ⟨answer, sent, hanswer.congr rfl rfl rfl, hsent, hwritten⟩

/-! ## The opening -/

theorem sendHyBi07Preamble_of_key {challenge : List UInt8}
    (h : c.headers.get "Sec-WebSocket-Key" = some challenge) :
    c.sendHyBi07Preamble lib = c.give (c.preamble07 lib) := by
  have hheaders : ∀ data, (c.give data).headers.get "Sec-WebSocket-Key" = some challenge :=
    fun _ => h
  have hbare : (({ c with written := [] } : Connection σ).sendCommonPreamble lib).headers.get
    "Sec-WebSocket-Key" = some challenge := h
  rw [preamble07, sendHyBi07Preamble, sendHyBi07Preamble]
  rw [hbare, sendCommonPreamble, hheaders]
  simp [sendCommonPreamble, give]

/-- A conversation that starts has answered the opening. -/
theorem startConversation_alive {flavor : Flavor}
    (halive : (c.startConversation lib flavor).1.Alive) :
    c.Alive ∧ (c.startConversation lib flavor).1 =
      { c.give (c.preamble07 lib) with flavor := some flavor, state := .frames } := by
  rw [startConversation] at halive ⊢
  cases hkey : c.headers.get "Sec-WebSocket-Key" with
  | none =>
    have hraised : (c.sendHyBi07Preamble lib).raised = some .keyError := by
      have hheaders : (c.sendCommonPreamble lib).headers.get "Sec-WebSocket-Key" = none := hkey
      rw [sendHyBi07Preamble, hheaders]
      rfl
    have hthrown := halive.1
    rw [if_pos (by rw [hraised]; rfl), hraised] at hthrown
    cases hthrown
  | some challenge =>
    rw [sendHyBi07Preamble_of_key hkey] at halive ⊢
    split at halive
    · rename_i hraised
      rw [halive.1] at hraised
      cases hraised
    · rename_i hraised
      rw [if_neg hraised]
      exact ⟨halive, rfl⟩

theorem chooseVersion_alive (halive : (c.chooseVersion lib).1.Alive) :
    c.Alive ∧ ((c.chooseVersion lib).1 = c ∨ ∃ flavor, flavor ≠ .hybi00 ∧
      (c.chooseVersion lib).1 =
        { c.give (c.preamble07 lib) with flavor := some flavor, state := .frames }) := by
  unfold chooseVersion at halive ⊢
  cases hversion : c.headers.get "Sec-WebSocket-Version" with
  | none =>
    rw [hversion] at halive
    exact ⟨halive, Or.inl rfl⟩
  | some version =>
    simp only [hversion] at halive ⊢
    split_ifs at halive ⊢
    · obtain ⟨hbefore, heq⟩ := startConversation_alive halive
      exact ⟨hbefore, Or.inr ⟨.hybi07, by decide, heq⟩⟩
    · obtain ⟨hbefore, heq⟩ := startConversation_alive halive
      exact ⟨hbefore, Or.inr ⟨.hybi10, by decide, heq⟩⟩
    · obtain ⟨hbefore, heq⟩ := startConversation_alive halive
      exact ⟨hbefore, Or.inr ⟨.rfc6455, by decide, heq⟩⟩
    · exact ⟨halive, Or.inl rfl⟩

theorem Sends.chooseVersion (hstate : c.state ≠ .frames) (h : c.Sends lib texts)
    (halive : (c.chooseVersion lib).1.Alive) : (c.chooseVersion lib).1.Sends lib texts := by
  obtain ⟨-, heq | ⟨flavor, hflavor, heq⟩⟩ := chooseVersion_alive halive
  · rwa [heq]
  · obtain ⟨hwritten, hpending⟩ := h.before hstate
    rw [heq]
    refine ⟨fun hnot => absurd rfl hnot, fun hnever => (nomatch hnever), fun _ => ?_⟩
    refine ⟨c.preamble07 lib, [], ?_, hpending, ?_⟩
    · exact answer_newer hflavor rfl rfl
    · show c.written ++ c.preamble07 lib = c.preamble07 lib ++ []
      rw [hwritten, List.nil_append, List.append_nil]

theorem Sends.prepare (protocol : List UInt8) (hstate : c.state = .negotiating)
    (h : c.Sends lib texts) :
    (c.stash.prepare protocol).Sends lib texts ∧ (c.stash.prepare protocol).state ≠ .frames := by
  obtain ⟨hwritten, hpending⟩ := h.before (by rw [hstate]; decide)
  have hstash : c.stash.headers = c.headers := rfl
  have hphase : (c.stash.prepare protocol).state ≠ .frames := by
    show (if isHybi00 c.headers then Phase.challenge else c.state) ≠ .frames
    rw [hstate]
    split <;> decide
  refine ⟨⟨fun _ => ⟨hwritten, hpending⟩, ?_, fun hframes => absurd hframes hphase⟩, hphase⟩
  show (if isHybi00 c.headers then Phase.challenge else c.state) = .challenge →
    (if isHybi00 c.headers then some Flavor.hybi00 else c.flavor) = some .hybi00
  rw [hstate]
  split
  · exact fun _ => rfl
  · intro hnever
    cases hnever

theorem validateHeaders_sends (hstate : c.state = .negotiating) (h : c.Alive → c.Sends lib texts)
    (halive : (c.validateHeaders lib).1.Alive) :
    c.Alive ∧ (c.validateHeaders lib).1.Sends lib texts := by
  unfold Connection.validateHeaders at halive ⊢
  cases hwebsocket : isWebsocket c.headers with
  | none =>
    rw [hwebsocket] at halive
    cases halive.1
  | some valid =>
    cases valid with
    | false =>
      rw [hwebsocket] at halive
      exact ⟨halive, h halive⟩
    | true =>
      simp only [hwebsocket] at halive ⊢
      split_ifs at halive ⊢
      · have hfirst : c.stash.state ≠ .frames := by
          show c.state ≠ .frames
          rw [hstate]
          decide
        have hsends := h halive
        exact ⟨halive, hsends.before, hsends.challenge, fun hframes => absurd hframes hfirst⟩
      · have hbefore : c.Alive := (chooseVersion_alive halive).1
        obtain ⟨hprepared, hphase⟩ := (h hbefore).prepare ((protocolHeader c.headers).getD []) hstate
        exact ⟨hbefore, hprepared.chooseVersion hphase halive⟩

/-! ## The frames that come in -/

/-- A frame without consequences reaches the wrapped protocol at most. -/
theorem deliver_alive {frame : Frame} (halive : (c.deliver lib app frame).Alive) :
    ∃ s, c.deliver lib app frame = { c with wrapped := s } := by
  cases frame with
  | normal data =>
    rw [deliver] at halive ⊢
    cases hdecode : decode lib c.codec data with
    | none =>
      rw [hdecode] at halive
      cases halive.1
    | some text =>
      simp only [hdecode] at halive ⊢
      split at halive
      · cases halive.1
      · rename_i hraised
        rw [if_neg hraised]
        exact ⟨_, rfl⟩
  | close reason text => cases halive.2
  | ping data | pong data => exact ⟨c.wrapped, rfl⟩

theorem deliverAll_alive {frames : List Frame} (halive : (deliverAll lib app c frames).Alive) :
    ∃ s, deliverAll lib app c frames = { c with wrapped := s } := by
  induction frames generalizing c with
  | nil => exact ⟨c.wrapped, rfl⟩
  | cons frame frames ih =>
    rw [deliverAll] at halive ⊢
    split at halive
    · rename_i hraised
      rw [halive.1] at hraised
      cases hraised
    · rename_i hraised
      rw [if_neg hraised]
      obtain ⟨s, heq⟩ := ih halive
      have hdelivered : (c.deliver lib app frame).Alive := by
        rw [heq] at halive
        exact halive
      obtain ⟨s', heq'⟩ := deliver_alive hdelivered
      rw [heq, heq']
      exact ⟨s, rfl⟩

theorem parseFrames_alive (halive : (c.parseFrames lib app).Alive) :
    ∃ s buf, c.parseFrames lib app = { c with wrapped := s, buf := buf } := by
  unfold parseFrames at halive ⊢
  cases hflavor : c.flavor with
  | none =>
    rw [hflavor] at halive
    cases halive.1
  | some flavor =>
    simp only [hflavor] at halive ⊢
    cases hparse : (parser flavor).parse c.buf with
    | error e =>
      rw [hparse] at halive
      cases halive.2
    | ok r =>
      simp only [hparse] at halive ⊢
      obtain ⟨s, heq⟩ := deliverAll_alive halive
      exact ⟨s, r.2, heq⟩

/-! ## Runs -/

/-- One round, if the connection survives it. -/
theorem round_sends (h : c.Alive → c.Sends lib texts) (halive : (c.round lib app).Alive) :
    c.Alive ∧ (c.round lib app).Sends lib texts := by
  unfold Connection.round at halive ⊢
  cases hstate : c.state with
  | request =>
    simp only [hstate] at halive ⊢
    unfold readRequest at halive ⊢
    cases hpart : partition crlf c.buf with
    | none =>
      rw [hpart] at halive
      exact ⟨halive, h halive⟩
    | some p =>
      simp only [hpart] at halive ⊢
      split at halive
      · have hsends := h halive
        exact ⟨halive, fun _ => hsends.before (by rw [hstate]; decide),
          fun hnever => (nomatch hnever), fun hnever => (nomatch hnever)⟩
      · cases halive.2
  | negotiating =>
    simp only [hstate] at halive ⊢
    unfold negotiate at halive ⊢
    cases hpart : partition (crlf ++ crlf) c.buf with
    | none =>
      rw [hpart] at halive
      exact ⟨halive, h halive⟩
    | some p =>
      simp only [hpart] at halive ⊢
      have hinput : c.Alive → ({ c with buf := p.2, headers := httpHeaders p.1 } : Connection σ).Sends
          lib texts := fun hbefore =>
        ⟨(h hbefore).before, (h hbefore).challenge, fun hframes => nomatch hstate.symm.trans hframes⟩
      split_ifs at halive ⊢ with hraised hvalid
      · exact validateHeaders_sends (c := { c with buf := p.2, headers := httpHeaders p.1 }) hstate
          hinput halive
      · exact validateHeaders_sends (c := { c with buf := p.2, headers := httpHeaders p.1 }) hstate
          hinput halive
      · cases halive.2
  | challenge =>
    simp only [hstate] at halive ⊢
    rw [answerChallenge] at halive ⊢
    split at halive
    · rename_i hlen
      rw [if_pos hlen]
      cases hresponse : completeHybi00 lib c.headers (c.buf.take 8) with
      | error e =>
        simp only [hresponse] at halive
        cases halive.1
      | ok response =>
        simp only [hresponse] at halive ⊢
        have hbefore : c.Alive := halive
        obtain ⟨hwritten, hpending⟩ := (h hbefore).before (by rw [hstate]; decide)
        have hflavor := (h hbefore).challenge hstate
        refine ⟨hbefore, fun hnot => absurd rfl hnot, fun hnever => (nomatch hnever), fun _ => ?_⟩
        have hlength : (c.buf.take 8).length = 8 := by
          rw [List.length_take]
          omega
        refine ⟨c.preamble00 lib ++ response, [], ?_, hpending, ?_⟩
        · have hanswer : c.Answer lib (c.preamble00 lib ++ response) := by
            rw [Answer, hflavor]
            exact ⟨c.buf.take 8, response, hlength, hresponse, rfl⟩
          exact hanswer.congr rfl rfl rfl
        · have hpreamble : ∀ d : Connection σ,
              (d.sendHyBi00Preamble lib).written = d.written ++ d.preamble00 lib := by
            intro d
            simp [preamble00, sendHyBi00Preamble, sendCommonPreamble, give]
          show ({ c with buf := c.buf.drop 8 }.sendHyBi00Preamble lib).written ++ response = _
          rw [hpreamble]
          show c.written ++ c.preamble00 lib ++ response = _
          rw [hwritten, List.nil_append, framesOf_nil, List.append_nil]
    · rename_i hlen
      rw [if_neg hlen]
      exact ⟨halive, h halive⟩
  | frames =>
    simp only [hstate] at halive ⊢
    obtain ⟨s, buf, heq⟩ := parseFrames_alive halive
    rw [heq] at halive ⊢
    exact ⟨halive, (h halive).keeps buf s⟩

theorem rounds_sends {count : ℕ} (h : c.Alive → c.Sends lib texts)
    (halive : (rounds lib app count c).Alive) :
    c.Alive ∧ (rounds lib app count c).Sends lib texts := by
  induction count generalizing c with
  | zero => exact ⟨halive, h halive⟩
  | succ count ih =>
    rw [rounds] at halive ⊢
    split at halive
    · rename_i hend
      rw [if_pos hend]
      exact round_sends h halive
    · rename_i hend
      rw [if_neg hend]
      obtain ⟨hround, hsends⟩ := ih (fun hround => (round_sends h hround).2) halive
      exact ⟨(round_sends h hround).1, hsends⟩

/-- What waits is sent behind what was sent. -/
theorem Sends.sendFrames (h : c.Sends lib texts) :
    (c.sendFrames lib).Sends lib texts ∧ ((c.sendFrames lib).Alive ↔ c.Alive) ∧
      (c.sendFrames lib).state = c.state ∧
      (c.state = .frames → (c.sendFrames lib).pendingFrames = []) := by
  unfold Connection.sendFrames
  split_ifs with hstate
  · exact ⟨h, Iff.rfl, rfl, fun hframes => absurd hframes hstate⟩
  · have hframes : c.state = .frames := not_not.1 hstate
    obtain ⟨answer, sent, hanswer, hsent, hwritten⟩ := h.behind hframes
    cases hflavor : c.flavor with
    | none =>
      rw [Answer, hflavor] at hanswer
      cases hanswer
    | some flavor =>
      refine ⟨⟨fun hnot => absurd hframes hnot,
        fun hchallenge => (nomatch hframes.symm.trans hchallenge), fun _ => ?_⟩, Iff.rfl, rfl,
        fun _ => rfl⟩
      refine ⟨answer, texts, ?_, List.append_nil _, ?_⟩
      · exact hanswer.congr hflavor rfl rfl
      · have hframesOf : ∀ waiting : List (List UInt8), (waiting.flatMap fun frame =>
            maker flavor (encode lib c.codec frame)) = c.framesOf lib waiting := by
          intro waiting
          rw [framesOf, hflavor]
        show c.written ++ _ = answer ++ framesOf lib { c with flavor := some flavor } texts
        rw [hframesOf, hwritten, List.append_assoc, ← framesOf_append, hsent, ← hflavor]
        rfl

/-- A text waits or is sent. -/
theorem Sends.write (h : c.Sends lib texts) (data : List UInt8) :
    (c.write lib data).Sends lib (texts ++ [data]) ∧ ((c.write lib data).Alive ↔ c.Alive) ∧
      (c.write lib data).state = c.state ∧
      (c.state = .frames → (c.write lib data).pendingFrames = []) := by
  have hwaits : { c with pendingFrames := c.pendingFrames ++ [data] }.Sends lib
      (texts ++ [data]) := by
    refine ⟨fun hstate => ?_, h.challenge, fun hstate => ?_⟩
    · obtain ⟨hwritten, hpending⟩ := h.before hstate
      exact ⟨hwritten, congrArg (· ++ [data]) hpending⟩
    · obtain ⟨answer, sent, hanswer, hsent, hwritten⟩ := h.behind hstate
      refine ⟨answer, sent, hanswer.congr rfl rfl rfl, ?_, hwritten⟩
      show sent ++ (c.pendingFrames ++ [data]) = _
      rw [← List.append_assoc, hsent]
  exact hwaits.sendFrames

/-- Between the events nothing waits in the frames. -/
structure Settled (lib : Library) (c : Connection σ) (texts : List (List UInt8)) : Prop where
  sends : c.Sends lib texts
  none_waits : c.state = .frames → c.pendingFrames = []

theorem alive_of_sendFrames (halive : (c.sendFrames lib).Alive) : c.Alive := by
  unfold sendFrames at halive
  split_ifs at halive with hstate
  · exact halive
  · cases hflavor : c.flavor with
    | none =>
      rw [hflavor] at halive
      cases halive.1
    | some flavor =>
      rw [hflavor] at halive
      exact halive

theorem flush_settled (h : c.Alive → c.Sends lib texts) (halive : (c.flush lib).Alive) :
    c.Alive ∧ (c.flush lib).Settled lib texts := by
  unfold flush at halive ⊢
  split at halive
  · rename_i hwaits
    rw [if_pos hwaits]
    have hbefore := alive_of_sendFrames halive
    obtain ⟨hsends, -, hstate, hnone⟩ := (h hbefore).sendFrames
    exact ⟨hbefore, hsends, fun hframes => hnone (hstate ▸ hframes)⟩
  · rename_i hwaits
    rw [if_neg hwaits]
    refine ⟨halive, h halive, fun _ => ?_⟩
    by_contra hsome
    exact hwaits ⟨by rw [halive.1]; rfl, hsome⟩

theorem dataReceived_settled (h : c.Alive → c.Settled lib texts) {data : List UInt8}
    (halive : (c.dataReceived lib app data).Alive) :
    c.Alive ∧ (c.dataReceived lib app data).Settled lib texts := by
  have hinput : c.Alive → { c with buf := c.buf ++ data }.Sends lib texts :=
    fun hbefore => (h hbefore).sends.keeps (c.buf ++ data) c.wrapped
  have hrounds : (rounds lib app 4 { c with buf := c.buf ++ data }).Alive → _ :=
    rounds_sends (c := { c with buf := c.buf ++ data }) hinput
  obtain ⟨hbefore, hsettled⟩ := flush_settled (fun halive => (hrounds halive).2) halive
  exact ⟨(hrounds hbefore).1, hsettled⟩

theorem step_settled (h : c.Alive → c.Settled lib texts) (event : Event)
    (halive : (c.step lib app event).Alive) :
    c.Alive ∧ (c.step lib app event).Settled lib (texts ++ Connection.texts [event]) := by
  cases event with
  | receive data =>
    rw [step] at halive ⊢
    rw [Connection.texts, Connection.texts, List.append_nil]
    split at halive
    · rename_i hend
      rw [if_pos hend]
      exact ⟨halive, h halive⟩
    · rename_i hend
      rw [if_neg hend]
      exact dataReceived_settled h halive
  | write data =>
    rw [step] at halive ⊢
    split at halive
    · rename_i hend
      rw [halive.1] at hend
      cases hend
    · rename_i hend
      rw [if_neg hend]
      have hbefore : c.Alive :=
        alive_of_sendFrames (c := { c with pendingFrames := c.pendingFrames ++ [data] }) halive
      obtain ⟨hsends, -, hstate, hnone⟩ := (h hbefore).sends.write data
      exact ⟨hbefore, hsends, fun hframes => hnone (hstate ▸ hframes)⟩

theorem run_settled {events : List Event} (h : c.Alive → c.Settled lib texts)
    (halive : (c.run lib app events).Alive) :
    (c.run lib app events).Settled lib (texts ++ Connection.texts events) := by
  induction events generalizing c texts with
  | nil =>
    rw [Connection.texts, List.append_nil]
    exact h halive
  | cons event events ih =>
    have hnext : texts ++ Connection.texts (event :: events) =
        texts ++ Connection.texts [event] ++ Connection.texts events := by
      cases event with
      | receive data => simp [Connection.texts]
      | write data => simp [Connection.texts]
    rw [hnext]
    exact ih (fun hstep => (step_settled h event hstep).2) halive

/-- Nothing is sent until the opening is over.  Then the answer is sent, and
behind it every text, in its order and once. -/
theorem sent_in_order (lib : Library) (app : Wrapped σ) (s : σ) (events : List Event)
    (halive : ((start s).run lib app events).Alive) :
    (((start s).run lib app events).state ≠ .frames →
        ((start s).run lib app events).written = [] ∧
          ((start s).run lib app events).pendingFrames = Connection.texts events) ∧
      (((start s).run lib app events).state = .frames →
        ((start s).run lib app events).pendingFrames = [] ∧
          ∃ answer, ((start s).run lib app events).Answer lib answer ∧
            ((start s).run lib app events).written =
              answer ++ ((start s).run lib app events).framesOf lib (Connection.texts events)) := by
  have hstart : (start s).Settled lib [] :=
    ⟨⟨fun _ => ⟨rfl, rfl⟩, fun hnever => (nomatch hnever), fun hnever => (nomatch hnever)⟩,
      fun _ => rfl⟩
  have hsettled := run_settled (fun _ => hstart) halive
  rw [List.nil_append] at hsettled
  refine ⟨hsettled.sends.before, fun hframes => ?_⟩
  have hnone := hsettled.none_waits hframes
  obtain ⟨answer, sent, hanswer, hsent, hwritten⟩ := hsettled.sends.behind hframes
  rw [hnone, List.append_nil] at hsent
  rw [← hsent]
  exact ⟨hnone, answer, hanswer, hwritten⟩

/-- A library that knows the answer to one key. -/
def sampleLibrary : Library where
  md5 _ := List.replicate 16 0
  sha1Base64 text :=
    if text = asciiBytes "dGhlIHNhbXBsZSBub25jZQ==258EAFA5-E914-47DA-95CA-C5AB0DC85B11" then
      asciiBytes "s3pPLMBiTxaQ9kYGzzhZRbK+xOo="
    else []
  b64encode text := text
  b64decode text := some text
  date := asciiBytes "Thu, 01 Jan 1970 00:00:00 GMT"
  secure := false

/-- The opening of a browser, with that key. -/
def sampleOpening : List UInt8 :=
  asciiBytes "GET / HTTP/1.1\r\nConnection: Upgrade\r\nUpgrade: websocket\r\n" ++
    asciiBytes "Sec-WebSocket-Version: 13\r\n" ++
    asciiBytes "Sec-WebSocket-Key: dGhlIHNhbXBsZSBub25jZQ==\r\n\r\n"

/-- A wrapped protocol that keeps its texts. -/
def keep : Wrapped (List (List UInt8)) := fun texts text => (texts ++ [text], false)

/-- One text before the opening, one within and one behind it. -/
theorem sent_in_order_three :
    ∃ answer, ((start []).run sampleLibrary keep
        [.write [97], .receive (sampleOpening.take 20), .write [98],
          .receive (sampleOpening.drop 20), .write [99]]).written =
      answer ++ [0x81, 0x01, 97, 0x81, 0x01, 98, 0x81, 0x01, 99] := by
  obtain ⟨-, answer, -, hwritten⟩ := (sent_in_order sampleLibrary keep []
    [.write [97], .receive (sampleOpening.take 20), .write [98],
      .receive (sampleOpening.drop 20), .write [99]] (by decide +kernel)).2 (by decide +kernel)
  exact ⟨answer, hwritten.trans (congrArg _ (by decide +kernel))⟩

end Connection

end MinotaurRobot.Web
