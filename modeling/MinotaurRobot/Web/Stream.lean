import MinotaurRobot.Web.Sent

/-!
# A connection and its stream

The bytes of a browser are one stream, and the segments in which it arrives
are an accident.  Seen as units (a request line, the header lines, a challenge
or a frame), the stream drives a machine.  `run_bare` says that the connection
is where the machine is, for every cut of the stream and for all texts that
the server writes in between, as long as nothing is wrong with the stream.
-/

namespace MinotaurRobot.Web

open Lib.Incremental

variable {σ : Type}

/-- How far the opening has come. -/
def Phase.rank : Phase → ℕ
  | .request => 0
  | .negotiating => 1
  | .challenge => 2
  | .frames => 3

namespace Connection

/-! ## Units -/

/-- The part of a connection that the stream drives. -/
def bare (c : Connection σ) : Connection σ :=
  { c with buf := [], written := [], pendingFrames := [] }

variable (lib : Library) (app : Wrapped σ)

/-- The next unit of the stream, if it is whole and in order. -/
def unit (c : Connection σ) (buf : List UInt8) : Option (Connection σ × ℕ) :=
  if ¬c.Alive then none
  else
    match c.state with
    | .request =>
      match partition crlf buf with
      | none => none
      | some (request, _) =>
        match split [32] request with
        | [_, location, _] =>
          some ({ c with location := location, state := .negotiating }.bare, request.length + 2)
        | _ => none
    | .negotiating =>
      match partition (crlf ++ crlf) buf with
      | none => none
      | some (head, _) =>
        let r := { c with headers := httpHeaders head }.validateHeaders lib
        if r.1.Alive ∧ r.2 = true ∧ r.1.state ≠ .negotiating then some (r.1.bare, head.length + 4)
        else none
    | .challenge =>
      if 8 ≤ buf.length then
        match completeHybi00 lib c.headers (buf.take 8) with
        | .error _ => none
        | .ok _ => some ({ c with state := .frames }.bare, 8)
      else none
    | .frames =>
      match c.flavor with
      | none => none
      | some flavor =>
        match (parser flavor).front buf with
        | .item frame n =>
          if (c.deliver lib app frame).Alive then some ((c.deliver lib app frame).bare, n)
          else none
        | _ => none

/-- The next unit has not arrived as a whole, and all is well. -/
def Waiting (c : Connection σ) (buf : List UInt8) : Prop :=
  c.Alive ∧
    match c.state with
    | .request => partition crlf buf = none
    | .negotiating => partition (crlf ++ crlf) buf = none
    | .challenge => buf.length < 8
    | .frames => ∃ flavor, c.flavor = some flavor ∧ (parser flavor).front buf = .more

variable {lib app}

theorem unit_of_not_alive {c : Connection σ} (h : ¬c.Alive) (buf : List UInt8) :
    c.unit lib app buf = none := by
  rw [unit, if_pos h]

theorem unit_request {c : Connection σ} (halive : c.Alive) (h : c.state = .request)
    {buf : List UInt8} {r : Connection σ × ℕ} :
    c.unit lib app buf = some r ↔
      ∃ request tail verb location version, partition crlf buf = some (request, tail) ∧
        split [32] request = [verb, location, version] ∧
        r = ({ c with location := location, state := .negotiating }.bare, request.length + 2) := by
  rw [unit, if_neg (not_not.2 halive), h]
  constructor
  · intro hunit
    cases hpart : partition crlf buf with
    | none => simp [hpart] at hunit
    | some p =>
      simp only [hpart] at hunit
      split at hunit
      · rename_i verb location version hsplit
        exact ⟨p.1, p.2, verb, location, version, rfl, hsplit, (Option.some.inj hunit).symm⟩
      · cases hunit
  · rintro ⟨request, tail, verb, location, version, hpart, hsplit, rfl⟩
    simp [hpart, hsplit]

theorem unit_negotiating {c : Connection σ} (halive : c.Alive) (h : c.state = .negotiating)
    {buf : List UInt8} {r : Connection σ × ℕ} :
    c.unit lib app buf = some r ↔
      ∃ head tail c', partition (crlf ++ crlf) buf = some (head, tail) ∧
        { c with headers := httpHeaders head }.validateHeaders lib = (c', true) ∧
        c'.Alive ∧ c'.state ≠ .negotiating ∧ r = (c'.bare, head.length + 4) := by
  rw [unit, if_neg (not_not.2 halive), h]
  constructor
  · intro hunit
    cases hpart : partition (crlf ++ crlf) buf with
    | none => simp [hpart] at hunit
    | some p =>
      simp only [hpart] at hunit
      split_ifs at hunit with hvalid
      exact ⟨p.1, p.2, _, rfl, Prod.ext rfl hvalid.2.1, hvalid.1, hvalid.2.2,
        (Option.some.inj hunit).symm⟩
  · rintro ⟨head, tail, c', hpart, hvalid, halive', hstate, rfl⟩
    simp only [hpart, hvalid]
    rw [if_pos ⟨halive', trivial, hstate⟩]

theorem unit_challenge {c : Connection σ} (halive : c.Alive) (h : c.state = .challenge)
    {buf : List UInt8} {r : Connection σ × ℕ} :
    c.unit lib app buf = some r ↔
      8 ≤ buf.length ∧ ∃ response, completeHybi00 lib c.headers (buf.take 8) = .ok response ∧
        r = ({ c with state := .frames }.bare, 8) := by
  rw [unit, if_neg (not_not.2 halive), h]
  simp only
  split_ifs with hlen
  · cases completeHybi00 lib c.headers (buf.take 8) with
    | error e => simp
    | ok response => simp [hlen, eq_comm]
  · simp [hlen]

theorem unit_frames {c : Connection σ} (halive : c.Alive) (h : c.state = .frames)
    {buf : List UInt8} {r : Connection σ × ℕ} :
    c.unit lib app buf = some r ↔
      ∃ flavor frame n, c.flavor = some flavor ∧ (parser flavor).front buf = .item frame n ∧
        (c.deliver lib app frame).Alive ∧ r = ((c.deliver lib app frame).bare, n) := by
  rw [unit, if_neg (not_not.2 halive), h]
  constructor
  · intro hunit
    cases hflavor : c.flavor with
    | none => simp [hflavor] at hunit
    | some flavor =>
      simp only [hflavor] at hunit
      cases hfront : (parser flavor).front buf with
      | more | bad => simp [hfront] at hunit
      | item frame n =>
        simp only [hfront] at hunit
        split_ifs at hunit with hdelivered
        exact ⟨flavor, frame, n, rfl, hfront, hdelivered, (Option.some.inj hunit).symm⟩
  · rintro ⟨flavor, frame, n, hflavor, hfront, hdelivered, rfl⟩
    simp only [hflavor, hfront]
    rw [if_pos hdelivered]

theorem length_of_partition {sep buf head tail : List UInt8}
    (h : partition sep buf = some (head, tail)) :
    head.length + sep.length ≤ buf.length ∧ tail = buf.drop (head.length + sep.length) := by
  have hbuf := partition_eq_some h
  constructor
  · rw [hbuf, List.length_append, List.length_append]
    omega
  · rw [hbuf, ← List.append_assoc, List.drop_left' (by rw [List.length_append])]

/-- What a unit is: its bytes are there, and it is one whatever follows. -/
theorem unit_spec {c : Connection σ} {buf : List UInt8} {r : Connection σ × ℕ}
    (h : c.unit lib app buf = some r) :
    0 < r.2 ∧ r.2 ≤ buf.length ∧ ∀ ys, c.unit lib app (buf ++ ys) = some r := by
  by_cases halive : c.Alive
  · cases hstate : c.state with
    | request =>
      obtain ⟨request, tail, verb, location, version, hpart, hsplit, rfl⟩ :=
        (unit_request halive hstate).1 h
      refine ⟨by simp, (length_of_partition hpart).1, fun ys => ?_⟩
      exact (unit_request halive hstate).2
        ⟨request, tail ++ ys, verb, location, version, partition_append hpart ys, hsplit, rfl⟩
    | negotiating =>
      obtain ⟨head, tail, c', hpart, hvalid, halive', hstate', rfl⟩ :=
        (unit_negotiating halive hstate).1 h
      refine ⟨by simp, (length_of_partition hpart).1, fun ys => ?_⟩
      exact (unit_negotiating halive hstate).2
        ⟨head, tail ++ ys, c', partition_append hpart ys, hvalid, halive', hstate', rfl⟩
    | challenge =>
      obtain ⟨hlen, response, hresponse, rfl⟩ := (unit_challenge halive hstate).1 h
      refine ⟨by simp, hlen, fun ys => ?_⟩
      rw [unit_challenge halive hstate, List.take_append_of_le_length hlen, List.length_append]
      exact ⟨by omega, response, hresponse, rfl⟩
    | frames =>
      obtain ⟨flavor, frame, n, hflavor, hfront, hdelivered, rfl⟩ :=
        (unit_frames halive hstate).1 h
      refine ⟨(parser flavor).size_pos hfront, (parser flavor).size_le hfront, fun ys => ?_⟩
      exact (unit_frames halive hstate).2
        ⟨flavor, frame, n, hflavor, (parser flavor).item_append hfront ys, hdelivered, rfl⟩
  · rw [unit_of_not_alive halive] at h
    cases h

variable (lib app)

/-- The machine of a connection. -/
def machine : Machine (Connection σ) UInt8 where
  step := unit lib app
  pos h := (unit_spec h).1
  le h := (unit_spec h).2.1
  mono h ys := (unit_spec h).2.2 ys

variable {lib app}

/-- When enough has arrived for the next unit, more does not change it. -/
theorem unit_append (lib : Library) (app : Wrapped σ) {c : Connection σ} {buf : List UInt8} (h : ¬c.Waiting buf)
    (ys : List UInt8) :
    c.unit lib app (buf ++ ys) = c.unit lib app buf ∧ ¬c.Waiting (buf ++ ys) := by
  by_cases halive : c.Alive
  · have hready : ∀ P : Prop, ¬(c.Alive ∧ P) → ¬P := fun P hnot hP => hnot ⟨halive, hP⟩
    unfold Waiting at h ⊢
    rw [unit, unit, if_neg (not_not.2 halive), if_neg (not_not.2 halive)]
    cases hstate : c.state with
    | request =>
      simp only [hstate] at h ⊢
      obtain ⟨p, hpart⟩ := Option.ne_none_iff_exists'.1 (hready _ h)
      rw [partition_append hpart ys, hpart]
      exact ⟨rfl, by simp⟩
    | negotiating =>
      simp only [hstate] at h ⊢
      obtain ⟨p, hpart⟩ := Option.ne_none_iff_exists'.1 (hready _ h)
      rw [partition_append hpart ys, hpart]
      exact ⟨rfl, by simp⟩
    | challenge =>
      simp only [hstate] at h ⊢
      have hlen : 8 ≤ buf.length := Nat.not_lt.1 (hready _ h)
      have hlong : 8 ≤ (buf ++ ys).length := by
        rw [List.length_append]
        omega
      rw [if_pos hlen, if_pos hlong, List.take_append_of_le_length hlen]
      exact ⟨rfl, fun hshort => by omega⟩
    | frames =>
      simp only [hstate] at h ⊢
      cases hflavor : c.flavor with
      | none => simp
      | some flavor =>
        have hmore : (parser flavor).front buf ≠ .more :=
          fun hmore => h ⟨halive, flavor, hflavor, hmore⟩
        have hfront : (parser flavor).front (buf ++ ys) = (parser flavor).front buf := by
          cases hfront : (parser flavor).front buf with
          | more => exact absurd hfront hmore
          | bad e => exact (parser flavor).bad_append hfront ys
          | item frame n => exact (parser flavor).item_append hfront ys
        simp [hfront, hmore]
  · refine ⟨?_, fun hwaiting => halive hwaiting.1⟩
    rw [unit_of_not_alive halive, unit_of_not_alive halive]

/-- If all is well with a stream, all was well with the start of it. -/
theorem waiting_of_append {c : Connection σ} {buf ys : List UInt8}
    (h : ((machine lib app).run c (buf ++ ys)).1.Waiting ((machine lib app).run c (buf ++ ys)).2) :
    ((machine lib app).run c buf).1.Waiting ((machine lib app).run c buf).2 := by
  by_contra hwrong
  obtain ⟨hunit, hstill⟩ := unit_append lib app hwrong ys
  have hstuck : (machine lib app).step ((machine lib app).run c buf).1
      (((machine lib app).run c buf).2 ++ ys) = none :=
    hunit.trans (Machine.step_run (m := machine lib app) c buf)
  rw [Machine.run_append, Machine.receive, Machine.run_of_none hstuck] at h
  exact hstill h

/-! ## The connection follows the machine -/

@[simp] theorem alive_bare (c : Connection σ) : c.bare.Alive ↔ c.Alive := Iff.rfl

theorem deliver_bare (c : Connection σ) (frame : Frame) :
    (c.deliver lib app frame).bare = (c.bare.deliver lib app frame).bare := by
  cases frame with
  | normal data =>
    have hcodec : c.bare.codec = c.codec := rfl
    have hwrapped : c.bare.wrapped = c.wrapped := rfl
    rw [deliver, deliver, hcodec, hwrapped]
    cases decode lib c.codec data with
    | none => rfl
    | some data =>
      dsimp only
      split <;> rfl
  | close reason text => rfl
  | ping data | pong data => rfl

/-- What a frame does not change. -/
theorem deliver_keeps (lib : Library) (app : Wrapped σ) (c : Connection σ) (frame : Frame) :
    (c.deliver lib app frame).buf = c.buf ∧ (c.deliver lib app frame).state = c.state ∧
      (c.deliver lib app frame).flavor = c.flavor := by
  cases frame with
  | normal data =>
    rw [deliver]
    cases decode lib c.codec data with
    | none => exact ⟨rfl, rfl, rfl⟩
    | some data =>
      dsimp only
      split <;> exact ⟨rfl, rfl, rfl⟩
  | close reason text => exact ⟨rfl, rfl, rfl⟩
  | ping data | pong data => exact ⟨rfl, rfl, rfl⟩

/-- A check of the headers, and the same check without the output. -/
structure SameCheck (c : Connection σ) (r r' : Connection σ × Bool) : Prop where
  bare : r.1.bare = r'.1.bare
  valid : r.2 = r'.2
  buf : r.1.buf = c.buf

theorem startConversation_bare (flavor : Flavor) (c : Connection σ) :
    SameCheck c (c.startConversation lib flavor) (c.bare.startConversation lib flavor) := by
  unfold startConversation sendHyBi07Preamble
  have hheaders : (c.bare.sendCommonPreamble lib).headers = (c.sendCommonPreamble lib).headers := rfl
  dsimp only
  rw [hheaders]
  cases (c.sendCommonPreamble lib).headers.get "Sec-WebSocket-Key" with
  | none => exact ⟨rfl, rfl, rfl⟩
  | some challenge =>
    have hraised : ∀ data, ((c.bare.sendCommonPreamble lib).give data).raised =
      ((c.sendCommonPreamble lib).give data).raised := fun _ => rfl
    dsimp only
    rw [hraised]
    split <;> exact ⟨rfl, rfl, rfl⟩

theorem chooseVersion_bare (c : Connection σ) :
    SameCheck c (c.chooseVersion lib) (c.bare.chooseVersion lib) := by
  have hheaders : c.bare.headers = c.headers := rfl
  unfold chooseVersion
  rw [hheaders]
  cases c.headers.get "Sec-WebSocket-Version" with
  | none => exact ⟨rfl, rfl, rfl⟩
  | some version =>
    dsimp only
    split_ifs
    · exact startConversation_bare .hybi07 c
    · exact startConversation_bare .hybi10 c
    · exact startConversation_bare .rfc6455 c
    · exact ⟨rfl, rfl, rfl⟩

theorem validateHeaders_bare (lib : Library) (c : Connection σ) :
    SameCheck c (c.validateHeaders lib) (c.bare.validateHeaders lib) := by
  have hheaders : c.bare.headers = c.headers := rfl
  unfold validateHeaders
  rw [hheaders]
  cases isWebsocket c.headers with
  | none => exact ⟨rfl, rfl, rfl⟩
  | some valid =>
    cases valid with
    | false => exact ⟨rfl, rfl, rfl⟩
    | true =>
      dsimp only
      split_ifs with hcodec
      · exact ⟨rfl, rfl, rfl⟩
      · obtain ⟨hbare, hvalid, hbuf⟩ :=
          chooseVersion_bare (c.stash.prepare ((protocolHeader c.headers).getD []))
        exact ⟨hbare, hvalid, hbuf⟩

theorem startConversation_state (flavor : Flavor) (c : Connection σ) :
    (c.startConversation lib flavor).1.state = c.state ∨
      (c.startConversation lib flavor).1.state = .frames := by
  unfold startConversation sendHyBi07Preamble
  dsimp only
  cases (c.sendCommonPreamble lib).headers.get "Sec-WebSocket-Key" with
  | none => exact Or.inl rfl
  | some challenge =>
    dsimp only
    split
    · exact Or.inl rfl
    · exact Or.inr rfl

theorem chooseVersion_state (lib : Library) (c : Connection σ) :
    (c.chooseVersion lib).1.state = c.state ∨ (c.chooseVersion lib).1.state = .frames := by
  unfold chooseVersion
  cases c.headers.get "Sec-WebSocket-Version" with
  | none => exact Or.inl rfl
  | some version =>
    dsimp only
    split_ifs
    · exact startConversation_state .hybi07 c
    · exact startConversation_state .hybi10 c
    · exact startConversation_state .rfc6455 c
    · exact Or.inl rfl

/-- The headers leave the state alone, or take it to the challenge or to the
frames. -/
theorem validateHeaders_state (lib : Library) (c : Connection σ) :
    (c.validateHeaders lib).1.state = c.state ∨
      (c.validateHeaders lib).1.state = .challenge ∨
      (c.validateHeaders lib).1.state = .frames := by
  unfold validateHeaders
  cases isWebsocket c.headers with
  | none => exact Or.inl rfl
  | some valid =>
    cases valid with
    | false => exact Or.inl rfl
    | true =>
      dsimp only
      split_ifs
      · exact Or.inl rfl
      · rcases chooseVersion_state lib
          (c.stash.prepare ((protocolHeader c.headers).getD [])) with h | h
        · rw [h]
          show (if isHybi00 c.headers then Phase.challenge else c.state) = _ ∨
            (if isHybi00 c.headers then Phase.challenge else c.state) = _ ∨ _
          split
          · exact Or.inr (Or.inl rfl)
          · exact Or.inl rfl
        · exact Or.inr (Or.inr h)

/-- What a round of the loop does with a unit of the opening. -/
structure OpeningRound (lib : Library) (app : Wrapped σ) (c c' : Connection σ) (n : ℕ) : Prop where
  bare : (c.round lib app).bare = c'
  buf : (c.round lib app).buf = c.buf.drop n
  alive : (c.round lib app).Alive
  rank : c.state.rank < (c.round lib app).state.rank

theorem round_of_unit {c c' : Connection σ} {n : ℕ} (hstate : c.state ≠ .frames)
    (h : c.bare.unit lib app c.buf = some (c', n)) : OpeningRound lib app c c' n := by
  by_cases halive : c.Alive
  · cases hphase : c.state with
    | request =>
      obtain ⟨request, tail, verb, location, version, hpart, hsplit, heq⟩ :=
        (unit_request (c := c.bare) halive hphase).1 h
      obtain ⟨rfl, rfl⟩ := Prod.mk.inj heq
      have htail := (length_of_partition hpart).2
      have hround : c.round lib app =
          { c with buf := tail, location := location, state := .negotiating } := by
        rw [round, hphase]
        dsimp only
        rw [readRequest, hpart]
        dsimp only
        rw [hsplit]
      exact ⟨by rw [hround]; rfl, by rw [hround, htail]; rfl, by rw [hround]; exact halive,
        by rw [hround, hphase]; exact (by decide : 0 < 1)⟩
    | negotiating =>
      obtain ⟨head, tail, c₁, hpart, hvalid, halive', hphase', heq⟩ :=
        (unit_negotiating (c := c.bare) halive hphase).1 h
      obtain ⟨rfl, rfl⟩ := Prod.mk.inj heq
      have htail := (length_of_partition hpart).2
      generalize hr : { c with buf := tail, headers := httpHeaders head }.validateHeaders lib = r
      have hsame := validateHeaders_bare lib
        { c with buf := tail, headers := httpHeaders head }
      have hinput : { c with buf := tail, headers := httpHeaders head }.bare =
        { c.bare with headers := httpHeaders head } := rfl
      rw [hr, hinput, hvalid] at hsame
      have hbare : r.1.bare = c₁.bare := hsame.bare
      have halive₁ : r.1.Alive := (alive_bare r.1).1 (hbare ▸ halive')
      have hstate₁ : r.1.state = c₁.state := by
        show r.1.bare.state = c₁.bare.state
        rw [hbare]
      have hround : c.round lib app = r.1 := by
        have hvalid₁ : r.2 = true := hsame.valid
        rw [round, hphase]
        dsimp only
        rw [negotiate, hpart]
        dsimp only
        rw [hr, halive₁.1, hvalid₁]
        rfl
      refine ⟨by rw [hround, hbare], by rw [hround, hsame.buf]; exact htail, hround ▸ halive₁, ?_⟩
      have hcases := validateHeaders_state lib { c.bare with headers := httpHeaders head }
      rw [hvalid] at hcases
      rw [hround, hstate₁, hphase]
      rcases hcases with hold | hnew | hnew
      · exact absurd (hold.trans hphase) hphase'
      · rw [hnew]
        decide
      · rw [hnew]
        decide
    | challenge =>
      obtain ⟨hlen, response, hresponse, heq⟩ :=
        (unit_challenge (c := c.bare) halive hphase).1 h
      obtain ⟨rfl, rfl⟩ := Prod.mk.inj heq
      have hround : c.round lib app =
          { ({ c with buf := c.buf.drop 8 }.sendHyBi00Preamble lib).give response with
            state := .frames } := by
        have hheaders : completeHybi00 lib c.headers (c.buf.take 8) = .ok response := hresponse
        rw [round, hphase]
        dsimp only
        rw [answerChallenge, if_pos hlen]
        dsimp only
        rw [hheaders]
        rfl
      exact ⟨by rw [hround]; rfl, by rw [hround]; rfl, by rw [hround]; exact halive,
        by rw [hround, hphase]; exact (by decide : 2 < 3)⟩
    | frames => exact absurd hphase hstate
  · rw [unit_of_not_alive (show ¬c.bare.Alive from halive)] at h
    cases h

theorem round_of_waiting {c : Connection σ} (hstate : c.state ≠ .frames)
    (h : c.bare.Waiting c.buf) : c.round lib app = c := by
  have hwaiting := h.2
  cases hphase : c.state with
  | request =>
    have hpart : partition crlf c.buf = none := by
      rwa [show c.bare.state = .request from hphase] at hwaiting
    rw [round, hphase]
    dsimp only
    rw [readRequest, hpart]
  | negotiating =>
    have hpart : partition (crlf ++ crlf) c.buf = none := by
      rwa [show c.bare.state = .negotiating from hphase] at hwaiting
    rw [round, hphase]
    dsimp only
    rw [negotiate, hpart]
  | challenge =>
    have hlen : c.buf.length < 8 := by
      rwa [show c.bare.state = .challenge from hphase] at hwaiting
    rw [round, hphase]
    dsimp only
    rw [answerChallenge, if_neg (by omega)]
  | frames => exact absurd hphase hstate

/-- In the frames, the loop over the frames takes the units of the machine. -/
theorem deliverAll_of_waiting (flavor : Flavor) (s : Connection σ) (buf : List UInt8) :
    ((machine lib app).run s buf).1.Waiting ((machine lib app).run s buf).2 →
    ∀ c : Connection σ, c.bare = s → c.state = .frames → c.flavor = some flavor →
      (parser flavor).rest buf = ((machine lib app).run s buf).2 ∧
        (parser flavor).front ((machine lib app).run s buf).2 = .more ∧
        (deliverAll lib app c ((parser flavor).items buf)).bare =
          ((machine lib app).run s buf).1 ∧
        (deliverAll lib app c ((parser flavor).items buf)).buf = c.buf ∧
        (deliverAll lib app c ((parser flavor).items buf)).state = .frames := by
  refine Machine.run_rule (m := machine lib app) (motive := fun s buf r => r.1.Waiting r.2 →
    ∀ c : Connection σ, c.bare = s → c.state = .frames → c.flavor = some flavor →
      (parser flavor).rest buf = r.2 ∧ (parser flavor).front r.2 = .more ∧
        (deliverAll lib app c ((parser flavor).items buf)).bare = r.1 ∧
        (deliverAll lib app c ((parser flavor).items buf)).buf = c.buf ∧
        (deliverAll lib app c ((parser flavor).items buf)).state = .frames) ?_ ?_ s buf
  · rintro s buf - hwaiting c rfl hstate hflavor
    have hmore : (parser flavor).front buf = .more := by
      have h := hwaiting.2
      rw [show c.bare.state = .frames from hstate] at h
      obtain ⟨flavor', hflavor', hmore⟩ := h
      rw [show c.bare.flavor = c.flavor from rfl, hflavor, Option.some.injEq] at hflavor'
      rwa [hflavor']
    have hnone : ∀ f n, (parser flavor).front buf ≠ .item f n := by simp [hmore]
    rw [Parser.items_of_none hnone, Parser.rest_of_none hnone]
    exact ⟨rfl, hmore, rfl, rfl, hstate⟩
  · rintro s buf s' n hstep ih hwaiting c rfl hstate hflavor
    have halive : c.Alive := by
      by_contra hdead
      rw [show (machine lib app).step c.bare buf = _ from
        unit_of_not_alive (show ¬c.bare.Alive from hdead) buf] at hstep
      cases hstep
    obtain ⟨flavor', frame, n', hflavor', hfront, hdelivered, heq⟩ :=
      (unit_frames (c := c.bare) halive hstate).1 hstep
    obtain ⟨rfl, rfl⟩ := Prod.mk.inj heq
    rw [show c.bare.flavor = c.flavor from rfl, hflavor, Option.some.injEq] at hflavor'
    subst hflavor'
    obtain ⟨hbuf, hstate', hflavor''⟩ := deliver_keeps lib app c frame
    have hbare : (c.deliver lib app frame).bare = (c.bare.deliver lib app frame).bare :=
      deliver_bare c frame
    have hraised : (c.deliver lib app frame).raised = none := by
      show (c.deliver lib app frame).bare.raised = none
      rw [hbare]
      exact hdelivered.1
    have hnext := ih hwaiting (c.deliver lib app frame) hbare (hstate'.trans hstate)
      (hflavor''.trans hflavor)
    rw [Parser.items_of_item hfront, Parser.rest_of_item hfront, deliverAll, hraised]
    refine ⟨hnext.1, hnext.2.1, hnext.2.2.1, hnext.2.2.2.1.trans hbuf, hnext.2.2.2.2⟩

/-- The loop of `dataReceived` takes the units of the machine. -/
theorem rounds_bare (count : ℕ) {c : Connection σ} (hcount : 4 ≤ count + c.state.rank)
    (h : ((machine lib app).run c.bare c.buf).1.Waiting ((machine lib app).run c.bare c.buf).2) :
    (rounds lib app count c).bare = ((machine lib app).run c.bare c.buf).1 ∧
      (rounds lib app count c).buf = ((machine lib app).run c.bare c.buf).2 := by
  induction count generalizing c with
  | zero =>
    have hrank : c.state.rank ≤ 3 := by cases c.state <;> decide
    omega
  | succ count ih =>
    rw [rounds]
    by_cases hstate : c.state = .frames
    · cases hflavor : c.flavor with
      | none =>
        have hunit : c.bare.unit lib app c.buf = none := by
          cases hunit : c.bare.unit lib app c.buf with
          | none => rfl
          | some r =>
            have halive : c.Alive := by
              by_contra hdead
              rw [unit_of_not_alive (show ¬c.bare.Alive from hdead)] at hunit
              cases hunit
            obtain ⟨flavor, frame, n, hflavor', -⟩ :=
              (unit_frames (c := c.bare) halive hstate).1 hunit
            exact absurd (hflavor.symm.trans hflavor') (by simp)
        have hrun : (machine lib app).run c.bare c.buf = (c.bare, c.buf) :=
          Machine.run_of_none hunit
        rw [hrun] at h
        have hwaiting := h.2
        rw [show c.bare.state = .frames from hstate] at hwaiting
        obtain ⟨flavor, hflavor', -⟩ := hwaiting
        exact absurd (hflavor.symm.trans hflavor') (by simp)
      | some flavor =>
        obtain ⟨hrest, hmore, hbare, hbuf, hstate'⟩ :=
          deliverAll_of_waiting flavor c.bare c.buf h
            { c with buf := ((machine lib app).run c.bare c.buf).2 } rfl hstate hflavor
        have hparse : (parser flavor).parse c.buf = .ok ((parser flavor).items c.buf,
            ((machine lib app).run c.bare c.buf).2) :=
          Parser.parse_eq_ok_iff_front.2 ⟨rfl, hrest, hmore⟩
        have hround : c.round lib app = deliverAll lib app
            { c with buf := ((machine lib app).run c.bare c.buf).2 }
              ((parser flavor).items c.buf) := by
          simp only [round, hstate, parseFrames, hflavor, hparse]
        rw [hround, if_pos (Or.inr (hstate'.trans hstate.symm))]
        exact ⟨hbare, hbuf⟩
    · cases hunit : c.bare.unit lib app c.buf with
      | none =>
        have hrun : (machine lib app).run c.bare c.buf = (c.bare, c.buf) :=
          Machine.run_of_none hunit
        rw [hrun] at h ⊢
        rw [round_of_waiting hstate h, if_pos (Or.inr rfl)]
        exact ⟨rfl, rfl⟩
      | some r =>
        obtain ⟨hbare, hbuf, halive, hrank⟩ := round_of_unit hstate hunit
        have hrun : (machine lib app).run c.bare c.buf =
            (machine lib app).run (c.round lib app).bare (c.round lib app).buf := by
          rw [hbare, hbuf]
          exact Machine.run_of_step hunit
        have hgo : ¬((c.round lib app).raised.isSome ∨ (c.round lib app).state = c.state) := by
          rw [halive.1]
          simp only [Option.isSome_none, Bool.false_eq_true, false_or]
          intro heq
          rw [heq] at hrank
          omega
        rw [if_neg hgo, hrun]
        rw [hrun] at h
        exact ih (by omega) h

/-- In the frames, a flavor is set. -/
def Flavored (c : Connection σ) : Prop := c.state = .frames → c.flavor ≠ none

theorem flavored_of_waiting {c : Connection σ} {buf : List UInt8} (h : c.Waiting buf) :
    c.Flavored := by
  intro hstate
  have hwaiting := h.2
  rw [hstate] at hwaiting
  obtain ⟨flavor, hflavor, -⟩ := hwaiting
  simp [hflavor]

/-- What the server writes does not change what the stream drives. -/
theorem sendFrames_bare {c : Connection σ} (h : c.Flavored) :
    (c.sendFrames lib).bare = c.bare ∧ (c.sendFrames lib).buf = c.buf := by
  unfold sendFrames
  split_ifs with hstate
  · exact ⟨rfl, rfl⟩
  · cases hflavor : c.flavor with
    | none => exact absurd hflavor (h (not_not.1 hstate))
    | some flavor => exact ⟨by rw [bare, bare, hflavor], rfl⟩

theorem flush_bare (lib : Library) {c : Connection σ} (h : c.Flavored) :
    (c.flush lib).bare = c.bare ∧ (c.flush lib).buf = c.buf := by
  unfold flush
  split_ifs
  · exact sendFrames_bare h
  · exact ⟨rfl, rfl⟩

theorem write_bare (lib : Library) {c : Connection σ} (h : c.Flavored) (data : List UInt8) :
    (c.write lib data).bare = c.bare ∧ (c.write lib data).buf = c.buf :=
  sendFrames_bare (c := { c with pendingFrames := c.pendingFrames ++ [data] }) h

/-- If a stream ends well, its connection is alive before it and has a flavor
if it is in the frames. -/
theorem alive_of_waiting {c : Connection σ} {buf : List UInt8}
    (h : ((machine lib app).run c.bare buf).1.Waiting ((machine lib app).run c.bare buf).2) :
    c.Alive ∧ c.Flavored := by
  by_contra hwrong
  have hunit : c.bare.unit lib app buf = none := by
    cases hunit : c.bare.unit lib app buf with
    | none => rfl
    | some r =>
      by_cases halive : c.Alive
      · refine absurd ⟨halive, fun hstate hnone => ?_⟩ hwrong
        obtain ⟨flavor, frame, n, hflavor, -⟩ := (unit_frames (c := c.bare) halive hstate).1 hunit
        exact absurd (hnone.symm.trans hflavor) (by simp)
      · rw [unit_of_not_alive (show ¬c.bare.Alive from halive)] at hunit
        cases hunit
  rw [show (machine lib app).run c.bare buf = (c.bare, buf) from Machine.run_of_none hunit] at h
  exact hwrong ⟨h.1, flavored_of_waiting h⟩

/-- One segment takes the connection to where the machine is behind it. -/
theorem dataReceived_bare {c : Connection σ} {data : List UInt8}
    (h : ((machine lib app).run c.bare (c.buf ++ data)).1.Waiting
      ((machine lib app).run c.bare (c.buf ++ data)).2) :
    (c.dataReceived lib app data).bare = ((machine lib app).run c.bare (c.buf ++ data)).1 ∧
      (c.dataReceived lib app data).buf = ((machine lib app).run c.bare (c.buf ++ data)).2 := by
  obtain ⟨hbare, hbuf⟩ :=
    rounds_bare 4 (c := { c with buf := c.buf ++ data }) (by omega) h
  have hflavored : (rounds lib app 4 { c with buf := c.buf ++ data }).Flavored := by
    show (rounds lib app 4 { c with buf := c.buf ++ data }).bare.Flavored
    rw [hbare]
    exact flavored_of_waiting h
  obtain ⟨hbare', hbuf'⟩ := flush_bare lib hflavored
  exact ⟨hbare'.trans hbare, hbuf'.trans hbuf⟩

/-- However the stream is cut, and whatever the server writes in between, the
connection is where the machine is. -/
theorem run_bare {c : Connection σ} (events : List Event)
    (hstart : c.bare.unit lib app c.buf = none)
    (h : ((machine lib app).run c.bare (c.buf ++ received events)).1.Waiting
      ((machine lib app).run c.bare (c.buf ++ received events)).2) :
    (c.run lib app events).bare = ((machine lib app).run c.bare (c.buf ++ received events)).1 ∧
      (c.run lib app events).buf = ((machine lib app).run c.bare (c.buf ++ received events)).2 := by
  induction events generalizing c with
  | nil =>
    rw [received, List.append_nil, Machine.run_of_none hstart]
    exact ⟨rfl, rfl⟩
  | cons event events ih =>
    obtain ⟨halive, hflavored⟩ := alive_of_waiting h
    cases event with
    | receive data =>
      rw [received, ← List.append_assoc] at h ⊢
      obtain ⟨hbare, hbuf⟩ := dataReceived_bare (waiting_of_append h)
      have hstep : c.step lib app (.receive data) = c.dataReceived lib app data := by
        rw [step, halive.1, halive.2]
        rfl
      have hrest : (machine lib app).run (c.dataReceived lib app data).bare
          ((c.dataReceived lib app data).buf ++ received events) =
            (machine lib app).run c.bare (c.buf ++ data ++ received events) := by
        rw [hbare, hbuf, Machine.run_append c.bare (c.buf ++ data)]
        rfl
      have hstuck : (c.dataReceived lib app data).bare.unit lib app
          (c.dataReceived lib app data).buf = none := by
        rw [hbare, hbuf]
        exact Machine.step_run (m := machine lib app) c.bare (c.buf ++ data)
      rw [← hrest] at h ⊢
      rw [run, List.foldl_cons, hstep]
      exact ih hstuck h
    | write data =>
      obtain ⟨hbare, hbuf⟩ := write_bare lib hflavored data
      have hstep : c.step lib app (.write data) = c.write lib data := by
        rw [step, halive.1]
        rfl
      rw [received] at h ⊢
      rw [← hbare, ← hbuf] at h hstart ⊢
      rw [run, List.foldl_cons, hstep]
      exact ih hstart h

end Connection

end MinotaurRobot.Web
