import MinotaurRobot.Web.Stream

/-!
# The texts of a session

What the wrapped protocol gets out of a stream, behind the opening.
`session_iff` has it in terms of one call of the parser on the whole stream,
for every cut of it: the connection lives if the stream parses and no frame
ends it, and then the wrapped protocol is where its texts take it, one by one.
-/

namespace MinotaurRobot.Web

open Lib.Incremental

variable {σ : Type}

namespace Connection

/-- The wrapped protocol behind some frames, if none of them ends the
connection. -/
def serve (lib : Library) (app : Wrapped σ) (codec : Bool) : σ → List Frame → Option σ
  | s, [] => some s
  | s, .normal data :: frames =>
    match decode lib codec data with
    | none => none
    | some text => if (app s text).2 then none else serve lib app codec (app s text).1 frames
  | _, .close _ _ :: _ => none
  | s, .ping _ :: frames | s, .pong _ :: frames => serve lib app codec s frames

variable {lib : Library} {app : Wrapped σ} {c : Connection σ}

theorem serve_cons (h : c.Alive) (frame : Frame) (frames : List Frame) :
    serve lib app c.codec c.wrapped (frame :: frames) =
      if (c.deliver lib app frame).Alive then
        serve lib app c.codec (c.deliver lib app frame).wrapped frames
      else none := by
  cases frame with
  | normal data =>
    rw [serve, deliver]
    cases hdecode : decode lib c.codec data with
    | none =>
      rw [if_neg]
      rintro ⟨hthrown, -⟩
      cases hthrown
    | some text =>
      dsimp only
      split
      · rw [if_neg]
        rintro ⟨hthrown, -⟩
        cases hthrown
      · exact (if_pos h).symm
  | close reason text =>
    rw [serve, if_neg]
    rintro ⟨-, hlost⟩
    cases hlost
  | ping data | pong data =>
    rw [serve, deliver, if_pos h]

theorem deliver_codec (lib : Library) (app : Wrapped σ) (c : Connection σ) (frame : Frame) :
    (c.deliver lib app frame).codec = c.codec := by
  cases frame with
  | normal data =>
    rw [deliver]
    cases decode lib c.codec data with
    | none => rfl
    | some text =>
      dsimp only
      split <;> rfl
  | close reason text => rfl
  | ping data | pong data => rfl

/-- The loop over the frames serves them. -/
theorem serve_of_deliverAll {frames : List Frame} (h : (deliverAll lib app c frames).Alive) :
    serve lib app c.codec c.wrapped frames = some (deliverAll lib app c frames).wrapped := by
  induction frames generalizing c with
  | nil => rfl
  | cons frame frames ih =>
    have hafter : (deliverAll lib app (c.deliver lib app frame) frames).Alive ∧
        deliverAll lib app c (frame :: frames) =
          deliverAll lib app (c.deliver lib app frame) frames := by
      rw [deliverAll] at h ⊢
      split at h
      · rename_i hraised
        rw [h.1] at hraised
        cases hraised
      · rename_i hraised
        rw [if_neg hraised]
        exact ⟨h, rfl⟩
    obtain ⟨s, heq⟩ := deliverAll_alive hafter.1
    have hdelivered : (c.deliver lib app frame).Alive := by
      have hlive := hafter.1
      rw [heq] at hlive
      exact hlive
    obtain ⟨s', heq'⟩ := deliver_alive hdelivered
    have hbefore : c.Alive := by
      have hlive := hdelivered
      rw [heq'] at hlive
      exact hlive
    rw [serve_cons hbefore, if_pos hdelivered, hafter.2, ← ih hafter.1, deliver_codec]

theorem waiting_frames {flavor : Flavor} (hstate : c.state = .frames)
    (hflavor : c.flavor = some flavor) {buf : List UInt8} :
    c.Waiting buf ↔ c.Alive ∧ (parser flavor).front buf = .more := by
  unfold Waiting
  rw [hstate]
  simp only [hflavor, Option.some.injEq]
  constructor
  · rintro ⟨halive, flavor', rfl, hmore⟩
    exact ⟨halive, hmore⟩
  · rintro ⟨halive, hmore⟩
    exact ⟨halive, flavor, rfl, hmore⟩

/-- The machine behind the opening, by one call of the parser. -/
theorem machine_serves {flavor : Flavor} (c : Connection σ) (body : List UInt8) :
    c.Alive → c.state = .frames → c.flavor = some flavor → ∀ s,
      (((machine lib app).run c body).1.Waiting ((machine lib app).run c body).2 ∧
          ((machine lib app).run c body).1.wrapped = s) ↔
        ∃ frames rest, (parser flavor).parse body = .ok (frames, rest) ∧
          serve lib app c.codec c.wrapped frames = some s := by
  refine Machine.run_rule (m := machine lib app) (motive := fun c body r => c.Alive →
    c.state = .frames → c.flavor = some flavor → ∀ s, (r.1.Waiting r.2 ∧ r.1.wrapped = s) ↔
      ∃ frames rest, (parser flavor).parse body = .ok (frames, rest) ∧
        serve lib app c.codec c.wrapped frames = some s) ?_ ?_ c body
  · intro c body hstuck halive hstate hflavor s
    cases hfront : (parser flavor).front body with
    | more =>
      have hnone : ∀ b n, (parser flavor).front body ≠ .item b n := by simp [hfront]
      have hparse : (parser flavor).parse body = .ok ([], body) :=
        Parser.parse_eq_ok_iff_front.2
          ⟨Parser.items_of_none hnone, Parser.rest_of_none hnone, hfront⟩
      have hwaiting : c.Waiting body := by
        refine ⟨halive, ?_⟩
        rw [hstate]
        exact ⟨flavor, hflavor, hfront⟩
      constructor
      · rintro ⟨-, rfl⟩
        exact ⟨[], body, hparse, rfl⟩
      · rintro ⟨frames, rest, hparse', hserve⟩
        rw [hparse, Except.ok.injEq, Prod.mk.injEq] at hparse'
        rw [← hparse'.1] at hserve
        exact ⟨hwaiting, Option.some.inj hserve⟩
    | bad e =>
      have hnone : ∀ b n, (parser flavor).front body ≠ .item b n := by simp [hfront]
      have hparse : (parser flavor).parse body = .error e :=
        Parser.parse_eq_error_iff.2 (by rw [Parser.rest_of_none hnone, hfront])
      constructor
      · rintro ⟨hwaiting, -⟩
        rw [waiting_frames hstate hflavor, hfront] at hwaiting
        exact nomatch hwaiting.2
      · rintro ⟨frames, rest, hparse', -⟩
        rw [hparse] at hparse'
        cases hparse'
    | item frame n =>
      have hended : ¬(c.deliver lib app frame).Alive := by
        intro hdelivered
        have hunit := (unit_frames halive hstate).2
          ⟨flavor, frame, n, hflavor, hfront, hdelivered, rfl⟩
        rw [show (machine lib app).step c body = c.unit lib app body from rfl, hunit] at hstuck
        cases hstuck
      constructor
      · rintro ⟨hwaiting, -⟩
        rw [waiting_frames hstate hflavor, hfront] at hwaiting
        exact nomatch hwaiting.2
      · rintro ⟨frames, rest, hparse, hserve⟩
        obtain ⟨hitems, -, -⟩ := Parser.parse_eq_ok_iff_front.1 hparse
        rw [← hitems, Parser.items_of_item hfront, serve_cons halive, if_neg hended] at hserve
        cases hserve
  · intro c body c' n hstep ih halive hstate hflavor s
    obtain ⟨flavor', frame, n', hflavor', hfront, hdelivered, heq⟩ :=
      (unit_frames halive hstate).1 hstep
    obtain ⟨rfl, rfl⟩ := Prod.mk.inj heq
    rw [hflavor, Option.some.injEq] at hflavor'
    subst hflavor'
    obtain ⟨-, hstate', hflavor'⟩ := deliver_keeps lib app c frame
    rw [ih hdelivered (hstate'.trans hstate) (hflavor'.trans hflavor) s]
    have hserve : ∀ frames, serve lib app c.codec c.wrapped (frame :: frames) =
        serve lib app (c.deliver lib app frame).bare.codec
          (c.deliver lib app frame).bare.wrapped frames := by
      intro frames
      rw [serve_cons halive, if_pos hdelivered, ← deliver_codec lib app c frame]
      rfl
    simp only [Parser.parse_eq_ok_iff_front, Parser.items_of_item hfront,
      Parser.rest_of_item hfront]
    constructor
    · rintro ⟨frames, rest, ⟨hitems, hrest, hmore⟩, hserved⟩
      refine ⟨frame :: frames, rest, ⟨by rw [hitems], hrest, hmore⟩, ?_⟩
      rw [hserve, hserved]
    · rintro ⟨frames, rest, ⟨hitems, hrest, hmore⟩, hserved⟩
      refine ⟨_, rest, ⟨rfl, hrest, hmore⟩, ?_⟩
      rw [← hitems, hserve] at hserved
      exact hserved

/-! ## The end of a connection -/

theorem deliverAll_state (c : Connection σ) (frames : List Frame) :
    (deliverAll lib app c frames).state = c.state := by
  induction frames generalizing c with
  | nil => rfl
  | cons frame frames ih =>
    obtain ⟨-, hstate, -⟩ := deliver_keeps lib app c frame
    rw [deliverAll]
    split
    · exact hstate
    · exact (ih (c.deliver lib app frame)).trans hstate

theorem parseFrames_state (c : Connection σ) : (c.parseFrames lib app).state = c.state := by
  unfold parseFrames
  cases c.flavor with
  | none => rfl
  | some flavor =>
    dsimp only
    cases (parser flavor).parse c.buf with
    | error e => rfl
    | ok r => exact deliverAll_state _ r.1

/-- Frames that a connection outlives leave it waiting. -/
theorem waiting_of_parseFrames (hstate : c.state = .frames) (halive : (c.parseFrames lib app).Alive) :
    ((machine lib app).run c.bare c.buf).1.Waiting ((machine lib app).run c.bare c.buf).2 := by
  unfold parseFrames at halive
  cases hflavor : c.flavor with
  | none =>
    rw [hflavor] at halive
    cases halive.1
  | some flavor =>
    simp only [hflavor] at halive
    cases hparse : (parser flavor).parse c.buf with
    | error e =>
      rw [hparse] at halive
      cases halive.2
    | ok r =>
      simp only [hparse] at halive
      have hserve := serve_of_deliverAll halive
      have hbefore : c.Alive := by
        obtain ⟨s, heq⟩ := deliverAll_alive halive
        rw [heq] at halive
        exact halive
      exact ((machine_serves c.bare c.buf hbefore hstate hflavor _).2
        ⟨r.1, r.2, hparse, hserve⟩).1

/-- A connection that outlives the loop of `dataReceived` is waiting, if it is
in the frames at all. -/
theorem waiting_of_rounds {count : ℕ} (hcount : 4 ≤ count + c.state.rank) (hbefore : c.Alive)
    (hframes : ((machine lib app).run c.bare c.buf).1.state = .frames)
    (halive : (rounds lib app count c).Alive) :
    ((machine lib app).run c.bare c.buf).1.Waiting ((machine lib app).run c.bare c.buf).2 := by
  induction count generalizing c with
  | zero =>
    have hrank : c.state.rank ≤ 3 := by cases c.state <;> decide
    omega
  | succ count ih =>
    rw [rounds] at halive
    by_cases hstate : c.state = .frames
    · have hround : c.round lib app = c.parseFrames lib app := by rw [round, hstate]
      rw [hround, if_pos (Or.inr (parseFrames_state c))] at halive
      exact waiting_of_parseFrames hstate halive
    · cases hunit : c.bare.unit lib app c.buf with
      | none =>
        rw [show (machine lib app).run c.bare c.buf = (c.bare, c.buf) from
          Machine.run_of_none hunit] at hframes
        exact absurd hframes hstate
      | some r =>
        obtain ⟨hbare, hbuf, hnext, hrank⟩ := round_of_unit hstate hunit
        have hrun : (machine lib app).run c.bare c.buf =
            (machine lib app).run (c.round lib app).bare (c.round lib app).buf := by
          rw [hbare, hbuf]
          exact Machine.run_of_step hunit
        have hgo : ¬((c.round lib app).raised.isSome ∨ (c.round lib app).state = c.state) := by
          rw [hnext.1]
          simp only [Option.isSome_none, Bool.false_eq_true, false_or]
          intro heq
          rw [heq] at hrank
          omega
        rw [if_neg hgo] at halive
        rw [hrun] at hframes ⊢
        exact ih (by omega) hnext hframes halive

theorem alive_of_flush (halive : (c.flush lib).Alive) : c.Alive := by
  unfold flush at halive
  split_ifs at halive
  · exact alive_of_sendFrames halive
  · exact halive

theorem alive_of_run {events : List Event} (halive : (c.run lib app events).Alive) : c.Alive := by
  induction events generalizing c with
  | nil => exact halive
  | cons event events ih =>
    have hstep : (c.step lib app event).Alive := ih halive
    by_contra hdead
    cases event with
    | receive data =>
      have hend : (c.lost || c.raised.isSome) = true := by
        cases hlost : c.lost with
        | true => rfl
        | false =>
          cases hraised : c.raised with
          | none => exact absurd ⟨hraised, hlost⟩ hdead
          | some e => rfl
      rw [step, if_pos hend] at hstep
      exact hdead hstep
    | write data =>
      rw [step] at hstep
      split at hstep
      · exact hdead hstep
      · exact hdead
          (alive_of_sendFrames (c := { c with pendingFrames := c.pendingFrames ++ [data] }) hstep)

/-- A stream that goes wrong does not recover. -/
theorem run_of_not_waiting {buf : List UInt8} (ys : List UInt8)
    (h : ¬((machine lib app).run c buf).1.Waiting ((machine lib app).run c buf).2) :
    ((machine lib app).run c (buf ++ ys)).1 = ((machine lib app).run c buf).1 := by
  obtain ⟨hunit, -⟩ := unit_append lib app h ys
  have hstuck : (machine lib app).step ((machine lib app).run c buf).1
      (((machine lib app).run c buf).2 ++ ys) = none :=
    hunit.trans (Machine.step_run (m := machine lib app) c buf)
  rw [Machine.run_append, Machine.receive, Machine.run_of_none hstuck]

/-- A run that a connection outlives leaves it waiting. -/
theorem waiting_of_run {events : List Event} (hstart : c.bare.Waiting c.buf)
    (hstuck : c.bare.unit lib app c.buf = none)
    (hframes : ((machine lib app).run c.bare (c.buf ++ received events)).1.state = .frames)
    (halive : (c.run lib app events).Alive) :
    ((machine lib app).run c.bare (c.buf ++ received events)).1.Waiting
      ((machine lib app).run c.bare (c.buf ++ received events)).2 := by
  induction events generalizing c with
  | nil =>
    rw [received, List.append_nil, Machine.run_of_none hstuck]
    exact hstart
  | cons event events ih =>
    have hlive : c.Alive := hstart.1
    cases event with
    | receive data =>
      have hstep : c.step lib app (.receive data) = c.dataReceived lib app data := by
        rw [step, hlive.1, hlive.2]
        rfl
      rw [run, List.foldl_cons, hstep] at halive
      rw [received, ← List.append_assoc] at hframes ⊢
      have hwaiting : ((machine lib app).run c.bare (c.buf ++ data)).1.Waiting
          ((machine lib app).run c.bare (c.buf ++ data)).2 := by
        by_contra hwrong
        have hsame := run_of_not_waiting (received events) hwrong
        rw [hsame] at hframes
        have hrounds : (rounds lib app 4 { c with buf := c.buf ++ data }).Alive :=
          alive_of_flush (alive_of_run halive)
        exact hwrong (waiting_of_rounds (c := { c with buf := c.buf ++ data }) (by omega) hlive
          hframes hrounds)
      obtain ⟨hbare, hbuf⟩ := dataReceived_bare hwaiting
      have hrest : (machine lib app).run (c.dataReceived lib app data).bare
          ((c.dataReceived lib app data).buf ++ received events) =
            (machine lib app).run c.bare (c.buf ++ data ++ received events) := by
        rw [hbare, hbuf, Machine.run_append c.bare (c.buf ++ data)]
        rfl
      have hwaits : (c.dataReceived lib app data).bare.Waiting (c.dataReceived lib app data).buf := by
        rw [hbare, hbuf]
        exact hwaiting
      have hnext : (c.dataReceived lib app data).bare.unit lib app
          (c.dataReceived lib app data).buf = none := by
        rw [hbare, hbuf]
        exact Machine.step_run (m := machine lib app) c.bare (c.buf ++ data)
      rw [← hrest] at hframes ⊢
      exact ih hwaits hnext hframes halive
    | write data =>
      obtain ⟨hbare, hbuf⟩ := write_bare lib (c := c) (flavored_of_waiting hstart) data
      have hstep : c.step lib app (.write data) = c.write lib data := by
        rw [step, hlive.1]
        rfl
      rw [run, List.foldl_cons, hstep] at halive
      rw [received] at hframes ⊢
      rw [← hbare, ← hbuf] at hframes hstart hstuck ⊢
      exact ih hstart hstuck hframes halive

/-- In the frames, state and flavor stay. -/
theorem frames_run (c : Connection σ) (buf : List UInt8) (h : c.state = .frames) :
    ((machine lib app).run c buf).1.state = .frames ∧
      ((machine lib app).run c buf).1.flavor = c.flavor := by
  refine Machine.run_rule (m := machine lib app) (motive := fun c _ r =>
    c.state = .frames → r.1.state = .frames ∧ r.1.flavor = c.flavor) ?_ ?_ c buf h
  · intro c buf _ hstate
    exact ⟨hstate, rfl⟩
  · intro c buf c' n hstep ih hstate
    by_cases halive : c.Alive
    · obtain ⟨flavor, frame, n', -, -, -, heq⟩ := (unit_frames halive hstate).1 hstep
      obtain ⟨rfl, -⟩ := Prod.mk.inj heq
      obtain ⟨-, hstate', hflavor'⟩ := deliver_keeps lib app c frame
      obtain ⟨hstate'', hflavor''⟩ := ih (hstate'.trans hstate)
      exact ⟨hstate'', hflavor''.trans hflavor'⟩
    · rw [show (machine lib app).step c buf = c.unit lib app buf from rfl,
        unit_of_not_alive halive] at hstep
      cases hstep

theorem unit_start (s : σ) : (start s).unit lib app [] = none := by
  rw [unit, if_neg (not_not.2 ⟨rfl, rfl⟩)]
  rfl

/-- The parts of a session: a stream that begins with a good opening, and the
events in which it comes. -/
structure Opened (lib : Library) (app : Wrapped σ) (s : σ) (opened : Connection σ)
    (flavor : Flavor) (body : List UInt8) (events : List Event) : Prop where
  opening : ∃ opening, (machine lib app).run (start s) opening = (opened, []) ∧
    received events = opening ++ body
  alive : opened.Alive
  state : opened.state = .frames
  flavor : opened.flavor = some flavor

/-- Behind the opening the connection lives as long as the machine, and is
where the machine is. -/
theorem Opened.run {s : σ} {opened : Connection σ} {flavor : Flavor} {body : List UInt8}
    {events : List Event} (h : Opened lib app s opened flavor body events) :
    (((start s).run lib app events).Alive ↔
        ((machine lib app).run opened body).1.Waiting ((machine lib app).run opened body).2) ∧
      (((start s).run lib app events).Alive →
        ((start s).run lib app events).bare = ((machine lib app).run opened body).1 ∧
          ((start s).run lib app events).buf = ((machine lib app).run opened body).2) := by
  obtain ⟨opening, hopening, hstream⟩ := h.opening
  have hrun : (machine lib app).run (start s).bare ((start s).buf ++ received events) =
      (machine lib app).run opened body := by
    show (machine lib app).run (start s) (received events) = _
    rw [hstream, Machine.run_append, hopening]
    rfl
  have hstuck : (start s).bare.unit lib app (start s).buf = none := unit_start s
  have hframes : ((machine lib app).run opened body).1.state = .frames :=
    (frames_run opened body h.state).1
  have hwaiting : ((start s).run lib app events).Alive →
      ((machine lib app).run opened body).1.Waiting ((machine lib app).run opened body).2 := by
    intro hlive
    rw [← hrun] at hframes ⊢
    exact waiting_of_run (c := start s) ⟨⟨rfl, rfl⟩, rfl⟩ hstuck hframes hlive
  have hbare := run_bare (c := start s) events hstuck
  rw [hrun] at hbare
  refine ⟨⟨hwaiting, fun hwaits => ?_⟩, fun hlive => hbare (hwaiting hlive)⟩
  have halive := hwaits.1
  rw [← (hbare hwaits).1] at halive
  exact halive

/-- Behind a good opening a connection lives exactly if the stream parses as a
whole and no frame ends it, whatever the cut and the texts of the server.  The
wrapped protocol then got the texts of the frames, in their order and once. -/
theorem session_iff {s : σ} {opened : Connection σ} {flavor : Flavor} {body : List UInt8}
    {events : List Event} (h : Opened lib app s opened flavor body events) (s' : σ) :
    (((start s).run lib app events).Alive ∧ ((start s).run lib app events).wrapped = s') ↔
      ∃ frames rest, (parser flavor).parse body = .ok (frames, rest) ∧
        serve lib app opened.codec opened.wrapped frames = some s' := by
  obtain ⟨hlives, hbare⟩ := h.run
  rw [← machine_serves opened body h.alive h.state h.flavor s', ← hlives]
  apply and_congr_right
  intro hlive
  rw [← (hbare hlive).1]
  exact Iff.rfl

/-- Two texts behind the opening, cut in the middle of the opening and of the
second text, with a text of the server in between. -/
theorem session_iff_twoTexts :
    ((start []).run sampleLibrary keep
        [.receive (sampleOpening.take 50), .write [97],
          .receive (sampleOpening.drop 50 ++ [0x81, 0x02, 104, 105, 0x81]),
          .receive [0x83, 1, 2, 3, 4, 120, 109, 118]]).Alive ∧
      ((start []).run sampleLibrary keep
        [.receive (sampleOpening.take 50), .write [97],
          .receive (sampleOpening.drop 50 ++ [0x81, 0x02, 104, 105, 0x81]),
          .receive [0x83, 1, 2, 3, 4, 120, 109, 118]]).wrapped = [[104, 105], [121, 111, 117]] := by
  have hopened : Opened sampleLibrary keep [] ((machine sampleLibrary keep).run (start [])
      sampleOpening).1 .rfc6455
      [0x81, 0x02, 104, 105, 0x81, 0x83, 1, 2, 3, 4, 120, 109, 118]
      [.receive (sampleOpening.take 50), .write [97],
        .receive (sampleOpening.drop 50 ++ [0x81, 0x02, 104, 105, 0x81]),
        .receive [0x83, 1, 2, 3, 4, 120, 109, 118]] :=
    { opening := ⟨sampleOpening, Prod.ext (by dsimp only) (by decide +kernel), by decide +kernel⟩
      alive := by decide +kernel
      state := by decide +kernel
      flavor := by decide +kernel }
  exact (session_iff hopened _).2 ⟨[.normal [104, 105], .normal [121, 111, 117]], [],
    by decide +kernel, by decide +kernel⟩

theorem machine_rest {flavor : Flavor} (c : Connection σ) (body : List UInt8) :
    ((machine lib app).run c body).1.Waiting ((machine lib app).run c body).2 →
      c.state = .frames → c.flavor = some flavor →
        ((machine lib app).run c body).2 = (parser flavor).rest body := by
  refine Machine.run_rule (m := machine lib app) (motive := fun c body r => r.1.Waiting r.2 →
    c.state = .frames → c.flavor = some flavor → r.2 = (parser flavor).rest body) ?_ ?_ c body
  · intro c body _ hwaiting hstate hflavor
    have hmore := ((waiting_frames hstate hflavor).1 hwaiting).2
    exact (Parser.rest_of_none (by simp [hmore])).symm
  · intro c body c' n hstep ih hwaiting hstate hflavor
    have halive : c.Alive := by
      by_contra hdead
      rw [show (machine lib app).step c body = c.unit lib app body from rfl,
        unit_of_not_alive hdead] at hstep
      cases hstep
    obtain ⟨flavor', frame, n', hflavor', hfront, -, heq⟩ := (unit_frames halive hstate).1 hstep
    obtain ⟨rfl, rfl⟩ := Prod.mk.inj heq
    rw [hflavor, Option.some.injEq] at hflavor'
    subst hflavor'
    obtain ⟨-, hstate', hflavor'⟩ := deliver_keeps lib app c frame
    rw [Parser.rest_of_item hfront]
    exact ih hwaiting (hstate'.trans hstate) (hflavor'.trans hflavor)

theorem sendFrames_wrapped (lib : Library) (c : Connection σ) :
    (c.sendFrames lib).wrapped = c.wrapped ∧ (c.sendFrames lib).lost = c.lost := by
  unfold sendFrames
  split_ifs
  · exact ⟨rfl, rfl⟩
  · cases c.flavor with
    | none => exact ⟨rfl, rfl⟩
    | some flavor => exact ⟨rfl, rfl⟩

/-- A connection that is lost reads nothing. -/
theorem run_lost (lib : Library) (app : Wrapped σ) (events : List Event) (h : c.lost = true) :
    (c.run lib app events).wrapped = c.wrapped ∧ (c.run lib app events).lost = true := by
  induction events generalizing c with
  | nil => exact ⟨rfl, h⟩
  | cons event events ih =>
    have hstep : (c.step lib app event).wrapped = c.wrapped ∧
        (c.step lib app event).lost = true := by
      cases event with
      | receive data =>
        rw [step, h, Bool.true_or, if_pos rfl]
        exact ⟨rfl, h⟩
      | write data =>
        rw [step]
        split
        · exact ⟨rfl, h⟩
        · obtain ⟨hwrapped, hlost⟩ := sendFrames_wrapped lib
            { c with pendingFrames := c.pendingFrames ++ [data] }
          exact ⟨hwrapped, hlost.trans h⟩
    rw [← hstep.1]
    exact ih hstep.2

/-- A malformed header closes the connection, before anything is delivered. -/
theorem dataReceived_malformed (lib : Library) (app : Wrapped σ) {flavor : Flavor} {data : List UInt8} {e : WSException}
    (hstate : c.state = .frames) (hflavor : c.flavor = some flavor)
    (hbad : (parser flavor).parse (c.buf ++ data) = .error e) :
    (c.dataReceived lib app data).wrapped = c.wrapped ∧
      (c.dataReceived lib app data).lost = true := by
  have hround : Connection.round lib app { c with buf := c.buf ++ data } =
      { c with buf := c.buf ++ data }.close (asciiBytes e.text) := by
    simp only [round, hstate, parseFrames, hflavor, hbad]
  have hsame : ({ c with buf := c.buf ++ data }.close (asciiBytes e.text)).state = c.state := rfl
  rw [dataReceived, rounds, hround, if_pos (Or.inr hsame)]
  unfold flush
  split
  · obtain ⟨hwrapped, hlost⟩ := sendFrames_wrapped lib
      ({ c with buf := c.buf ++ data }.close (asciiBytes e.text))
    exact ⟨hwrapped, hlost⟩
  · exact ⟨rfl, rfl⟩

/-- The segment that brings a malformed header takes the frames along that end
in it.  Those that ended before it were delivered, and nothing comes behind
it. -/
theorem malformed_segment {s s' : σ} {opened : Connection σ} {flavor : Flavor}
    {body rest data : List UInt8} {frames : List Frame} {before after : List Event}
    {e : WSException} (h : Opened lib app s opened flavor body before)
    (hparse : (parser flavor).parse body = .ok (frames, rest))
    (hserve : serve lib app opened.codec opened.wrapped frames = some s')
    (hbad : (parser flavor).parse (body ++ data) = .error e) :
    ((start s).run lib app (before ++ .receive data :: after)).wrapped = s' ∧
      ((start s).run lib app (before ++ .receive data :: after)).lost = true := by
  obtain ⟨hwaiting, hwrapped⟩ :=
    (machine_serves opened body h.alive h.state h.flavor s').2 ⟨frames, rest, hparse, hserve⟩
  obtain ⟨hlives, hruns⟩ := h.run
  have hlive := hlives.2 hwaiting
  obtain ⟨hbare, hbuf⟩ := hruns hlive
  generalize hc : (start s).run lib app before = c at hlive hbare hbuf
  have hstate : c.state = .frames := by
    show c.bare.state = .frames
    rw [hbare]
    exact (frames_run opened body h.state).1
  have hflavor : c.flavor = some flavor := by
    show c.bare.flavor = some flavor
    rw [hbare]
    exact (frames_run opened body h.state).2.trans h.flavor
  have hmalformed : (parser flavor).parse (c.buf ++ data) = .error e := by
    rw [Parser.parse_eq_error_iff] at hbad ⊢
    rw [hbuf, machine_rest opened body hwaiting h.state h.flavor, ← Parser.rest_append]
    exact hbad
  obtain ⟨hwrapped', hlost⟩ :=
    dataReceived_malformed lib app hstate hflavor hmalformed
  have hstep : c.step lib app (.receive data) = c.dataReceived lib app data := by
    rw [step, hlive.1, hlive.2]
    rfl
  have hrun : (start s).run lib app (before ++ .receive data :: after) =
      (c.dataReceived lib app data).run lib app after := by
    rw [← hstep, ← hc]
    exact List.foldl_append
  obtain ⟨hlater, hstill⟩ := run_lost lib app after hlost
  have hthen : c.wrapped = s' := by
    show c.bare.wrapped = s'
    rw [hbare, hwrapped]
  rw [hrun]
  exact ⟨hlater.trans (hwrapped'.trans hthen), hstill⟩

/-- The second text ends in the segment of the malformed header, and is lost. -/
theorem malformed_segment_second :
    ((start []).run sampleLibrary keep
        ([.receive (sampleOpening ++ [0x81, 0x02, 104, 105])] ++
          .receive [0x81, 0x01, 97, 0x8f, 0x00] :: [.receive [0x81, 0x01, 98]])).wrapped =
        [[104, 105]] ∧
      ((start []).run sampleLibrary keep
        ([.receive (sampleOpening ++ [0x81, 0x02, 104, 105])] ++
          .receive [0x81, 0x01, 97, 0x8f, 0x00] :: [.receive [0x81, 0x01, 98]])).lost = true := by
  have hopened : Opened sampleLibrary keep [] ((machine sampleLibrary keep).run (start [])
      sampleOpening).1 .rfc6455 [0x81, 0x02, 104, 105]
      [.receive (sampleOpening ++ [0x81, 0x02, 104, 105])] :=
    { opening := ⟨sampleOpening, Prod.ext (by dsimp only) (by decide +kernel), by decide +kernel⟩
      alive := by decide +kernel
      state := by decide +kernel
      flavor := by decide +kernel }
  have hserve : serve sampleLibrary keep ((machine sampleLibrary keep).run (start [])
      sampleOpening).1.codec ((machine sampleLibrary keep).run (start []) sampleOpening).1.wrapped
      [.normal [104, 105]] = some [[104, 105]] := by decide +kernel
  have hparse : hybi07.parse [0x81, 0x02, 104, 105] = .ok ([.normal [104, 105]], []) := rfl
  have hbad : hybi07.parse ([0x81, 0x02, 104, 105] ++ [0x81, 0x01, 97, 0x8f, 0x00]) =
    .error (.unknownOpcode 0x0f) := rfl
  exact malformed_segment hopened hparse hserve hbad

end Connection

end MinotaurRobot.Web
