import MinotaurRobot.Mcu.Inputs

/-!
# The fuel gauge transaction

One transaction on the I2C bus is `transaction`.  `busLog` is what happens on
the bus in a run: the actions of the main loop and the interrupts by which the
bus reports that an operation is complete.

`GET_BATT` stays set until the last action of a transaction, so every
iteration behind a timer interrupt starts a new one, and `I2C_ISR` is never
cleared.  The order is kept only in runs that end soon enough:
`fuelGauge_sequenced_iff`.
-/

namespace MinotaurRobot.Mcu

/-! ## What happens on the bus -/

/-- The actions of one transaction, in order. -/
def transaction : List BusAction :=
  [.start, .write 0xAA, .write 0x02, .write 0x03, .restart, .write 0xAB, .readNack]

inductive BusEvent where
  | complete
  | action (a : BusAction)
  deriving DecidableEq, Repr

/-- The bus events of a run. -/
def busLog : List Event → List Trace → List BusEvent
  | [], _ => []
  | .interrupt i :: events, ts =>
    if i = .mi2c1 then .complete :: busLog events ts else busLog events ts
  | .iterate _ :: _, [] => []
  | .iterate _ :: events, t :: ts => t.bus.map .action ++ busLog events ts

/-- The actions of a log. -/
def actions (log : List BusEvent) : List BusAction :=
  log.filterMap fun
    | .complete => none
    | .action a => some a

/-- Every action but `START` has an interrupt of its own: one has arrived
since the action before it. -/
def Answered : Bool → List BusEvent → Prop
  | _, [] => True
  | _, .complete :: log => Answered true log
  | arrived, .action a :: log => (a = .start ∨ arrived) ∧ Answered false log

/-- The actions are those of one transaction after the other. -/
def InOrder (log : List BusEvent) : Prop :=
  ∃ k, actions log <+: (List.replicate k transaction).flatten

/-- The transaction is sequenced by the bus interrupts, all along the run. -/
def Sequenced (events : List Event) : Prop :=
  ∀ pre s ts, pre <+: events → run State.init pre = some (s, ts) →
    InOrder (busLog pre ts) ∧ Answered false (busLog pre ts) ∧ s.i2cSendByte ≤ 4

/-- An iteration behind a timer interrupt is the last one, and no bus
interrupt is in front of it. -/
def Short (events : List Event) : Prop :=
  ∀ pre hw suf, events = pre ++ .iterate hw :: suf → .interrupt .t4 ∈ pre →
    .interrupt .mi2c1 ∉ pre ∧ ∀ hw', .iterate hw' ∉ suf

/-! ## The flags -/

/-- The flags while no transaction has begun. -/
def I2cFlags.idle (getBatt isr : Bool) : I2cFlags := ⟨getBatt, 0, 0, 0, 0, 0, isr⟩

theorem i2c_eq_idle_iff {s : State} {getBatt isr : Bool} :
    s.i2c = I2cFlags.idle getBatt isr ↔
      s.getBatt = getBatt ∧ s.i2cStart = 0 ∧ s.i2cRestart = 0 ∧ s.i2cStop = 0 ∧
        s.i2cSendByte = 0 ∧ s.i2cRecvByte = 0 ∧ s.i2cIsr = isr := by
  rw [State.i2c, I2cFlags.idle, I2cFlags.mk.injEq]

theorem i2c_init : State.init.i2c = I2cFlags.idle false false := rfl

theorem i2c_interrupt (s : State) (i : Interrupt) :
    (s.interrupt i).i2c =
      { s.i2c with
          getBatt := s.i2c.getBatt || i = .t4
          i2cIsr := s.i2c.i2cIsr || i = .mi2c1 } := by
  cases i with
  | u1rx perr ferr => cases perr <;> cases ferr <;> simp [State.interrupt, State.i2c]
  | mi2c1 | adc1 | u1tx | t4 | t3 => simp [State.interrupt, State.i2c]

/-- Without a request the main loop leaves the bus alone. -/
theorem i2cSection_idle {s : State} {isr : Bool} (hw : Hw)
    (h : s.i2c = I2cFlags.idle false isr) :
    (i2cSection hw s).1.i2c = I2cFlags.idle false isr ∧ (i2cSection hw s).2 = [] := by
  obtain ⟨hbatt, hstart, hrestart, hstop, hsend, hrecv, hisr⟩ := i2c_eq_idle_iff.1 h
  cases isr <;>
    simp [i2cSection, i2cRequest, i2cService, State.i2c, I2cFlags.idle, hbatt, hstart, hrestart,
      hstop, hsend, hrecv, hisr]

/-- The first iteration behind a request. -/
theorem i2cSection_request {s : State} {isr : Bool} (hw : Hw)
    (h : s.i2c = I2cFlags.idle true isr) :
    (i2cSection hw s).1.i2c.getBatt = true ∧
      (i2cSection hw s).1.i2c.i2cSendByte = (if isr then 1 else 0) ∧
      (i2cSection hw s).2 = if isr then [.start, .write 0xAA] else [.start] := by
  obtain ⟨hbatt, hstart, hrestart, hstop, hsend, hrecv, hisr⟩ := i2c_eq_idle_iff.1 h
  cases isr <;>
    simp [i2cSection, i2cRequest, i2cService, State.i2c, hbatt, hsend, hisr]

/-- While the request is there every iteration starts a transaction. -/
theorem i2cSection_starts {s : State} (hw : Hw) (h : s.i2c.getBatt = true) :
    ∃ rest, (i2cSection hw s).2 = .start :: rest := by
  have hbatt : s.getBatt = true := h
  refine ⟨(i2cService hw (i2cRequest s).1).2, ?_⟩
  have hstart : (i2cRequest s).2 = [.start] := by
    unfold i2cRequest
    rw [if_pos hbatt]
  calc (i2cSection hw s).2 = (i2cRequest s).2 ++ (i2cService hw (i2cRequest s).1).2 := rfl
    _ = .start :: (i2cService hw (i2cRequest s).1).2 := by rw [hstart, List.singleton_append]

/-! ## Parts of a run -/

theorem actions_append (log log' : List BusEvent) :
    actions (log ++ log') = actions log ++ actions log' :=
  List.filterMap_append

theorem actions_map (bus : List BusAction) : actions (bus.map .action) = bus := by
  unfold actions
  rw [List.filterMap_map]
  exact List.filterMap_some

theorem busLog_append {s s' : State} {xs : List Event} {ts : List Trace}
    (h : run s xs = some (s', ts)) (ys : List Event) (ts' : List Trace) :
    busLog (xs ++ ys) (ts ++ ts') = busLog xs ts ++ busLog ys ts' := by
  induction xs generalizing s ts with
  | nil =>
    rw [run, Option.some.injEq, Prod.mk.injEq] at h
    rw [← h.2]
    rfl
  | cons event xs ih =>
    cases event with
    | interrupt i =>
      rw [List.cons_append, busLog, busLog, ih h]
      split <;> rfl
    | iterate hw =>
      obtain ⟨s₁, t, ts₁, -, hrun, rfl⟩ := run_iterate_eq_some h
      rw [List.cons_append, List.cons_append, busLog, busLog, ih hrun, List.append_assoc]

/-- Interrupts in front of an action change only whether it is answered. -/
theorem answered_append {log : List BusEvent} (h : actions log = []) (arrived : Bool)
    (log' : List BusEvent) :
    Answered arrived (log ++ log') ↔ Answered (arrived || .complete ∈ log) log' := by
  induction log generalizing arrived with
  | nil => simp
  | cons event log ih =>
    cases event with
    | action a => cases h
    | complete =>
      rw [List.cons_append, Answered, ih h]
      simp

/-- A part of a run without iterations. -/
theorem run_interrupts {s s' : State} {events : List Event} {ts : List Trace}
    (h : run s events = some (s', ts)) (hnone : ∀ hw, .iterate hw ∉ events) :
    s'.i2c.getBatt = (s.i2c.getBatt || .interrupt .t4 ∈ events) ∧
      s'.i2c.i2cSendByte = s.i2c.i2cSendByte ∧ actions (busLog events ts) = [] := by
  induction events generalizing s with
  | nil =>
    rw [run, Option.some.injEq, Prod.mk.injEq] at h
    rw [← h.1]
    simp [busLog, actions]
  | cons event events ih =>
    have hnone' : ∀ hw, .iterate hw ∉ events := fun hw hmem =>
      hnone hw (List.mem_cons_of_mem _ hmem)
    cases event with
    | iterate hw => exact absurd List.mem_cons_self (hnone hw)
    | interrupt i =>
      obtain ⟨hbatt, hsend, hactions⟩ := ih h hnone'
      rw [i2c_interrupt] at hbatt hsend
      refine ⟨?_, hsend, ?_⟩
      · rw [hbatt]
        simp [eq_comm, Bool.or_assoc]
      · rw [busLog]
        split <;> exact hactions

/-- No iteration is behind a timer interrupt. -/
def Quiet (events : List Event) : Prop :=
  ∀ pre hw suf, events = pre ++ .iterate hw :: suf → .interrupt .t4 ∉ pre

/-- In a quiet run nothing happens on the bus. -/
theorem run_quiet {s s' : State} {events : List Event} {ts : List Trace} {getBatt isr : Bool}
    (h : run s events = some (s', ts)) (hs : s.i2c = I2cFlags.idle getBatt isr)
    (hquiet : Quiet events) (hbatt : getBatt = true → ∀ hw, .iterate hw ∉ events) :
    s'.i2c = I2cFlags.idle (getBatt || .interrupt .t4 ∈ events)
        (isr || .interrupt .mi2c1 ∈ events) ∧ actions (busLog events ts) = [] := by
  induction events generalizing s getBatt isr ts with
  | nil =>
    rw [run, Option.some.injEq, Prod.mk.injEq] at h
    rw [← h.1, hs]
    simp [busLog, actions]
  | cons event events ih =>
    cases event with
    | interrupt i =>
      have hflags : (s.interrupt i).i2c = I2cFlags.idle (getBatt || i = .t4) (isr || i = .mi2c1) := by
        rw [i2c_interrupt, hs]
        rfl
      have htail : Quiet events := fun pre hw suf hsplit hmem =>
        hquiet (.interrupt i :: pre) hw suf (by rw [hsplit]; rfl) (List.mem_cons_of_mem _ hmem)
      have hbatt' : (getBatt || decide (i = .t4)) = true → ∀ hw, .iterate hw ∉ events := by
        intro hset hw hmem
        rcases Bool.or_eq_true_iff.1 hset with hset | hset
        · exact hbatt hset hw (List.mem_cons_of_mem _ hmem)
        · obtain ⟨pre, suf, hsplit⟩ := List.append_of_mem hmem
          refine hquiet (.interrupt i :: pre) hw suf (by rw [hsplit]; rfl) ?_
          rw [of_decide_eq_true hset]
          exact List.mem_cons_self
      obtain ⟨hend, hactions⟩ := ih h hflags htail hbatt'
      refine ⟨?_, ?_⟩
      · rw [hend]
        simp [eq_comm, Bool.or_assoc]
      · rw [busLog]
        split <;> exact hactions
    | iterate hw =>
      obtain ⟨s₁, t, ts₁, hiterate, hrun, rfl⟩ := run_iterate_eq_some h
      have hclear : getBatt = false := by
        by_contra hset
        exact hbatt (by simpa using hset) hw List.mem_cons_self
      rw [hclear] at hs
      obtain ⟨hflags, hbus⟩ := i2cSection_idle hw hs
      have hserviced := iterate_inputs hiterate
      have htail : Quiet events := fun pre hw' suf hsplit hmem =>
        hquiet (.iterate hw :: pre) hw' suf (by rw [hsplit]; rfl) (List.mem_cons_of_mem _ hmem)
      obtain ⟨hend, hactions⟩ := ih hrun (hserviced.i2c.trans hflags) htail (by simp)
      refine ⟨?_, ?_⟩
      · rw [hend, hclear]
        simp
      · rw [busLog, hserviced.bus, hbus]
        exact hactions

/-- The first iteration behind a timer interrupt. -/
theorem exists_first_behind {events : List Event} (h : ¬Quiet events) :
    ∃ pre hw suf, events = pre ++ .iterate hw :: suf ∧ .interrupt .t4 ∈ pre ∧ Quiet pre := by
  induction hn : events.length using Nat.strongRecOn generalizing events with
  | ind n ih =>
    unfold Quiet at h
    push Not at h
    obtain ⟨pre, hw, suf, hsplit, ht4⟩ := h
    by_cases hquiet : Quiet pre
    · exact ⟨pre, hw, suf, hsplit, ht4, hquiet⟩
    · have hlen : pre.length < n := by
        rw [← hn, hsplit, List.length_append, List.length_cons]
        omega
      obtain ⟨pre', hw', suf', hsplit', ht4', hquiet'⟩ := ih pre.length hlen hquiet rfl
      refine ⟨pre', hw', suf' ++ .iterate hw :: suf, ?_, ht4', hquiet'⟩
      rw [hsplit, hsplit', List.append_assoc, List.cons_append]

/-- The first iteration of a part of a run. -/
theorem exists_first_iterate {events : List Event} {hw : Hw} (h : .iterate hw ∈ events) :
    ∃ mid hw' rest, events = mid ++ .iterate hw' :: rest ∧ ∀ hw'', .iterate hw'' ∉ mid := by
  induction events with
  | nil => cases h
  | cons event events ih =>
    cases event with
    | iterate hw' => exact ⟨[], hw', events, rfl, by simp⟩
    | interrupt i =>
      obtain ⟨mid, hw', rest, hsplit, hnone⟩ := ih (by simpa using h)
      exact ⟨.interrupt i :: mid, hw', rest, by rw [hsplit]; rfl, by simpa using hnone⟩

/-! ## The order on the bus -/

theorem not_inOrder_of_two {log : List BusEvent} {rest : List BusAction}
    (h : actions log = .start :: .start :: rest ∨
      actions log = .start :: .write 0xAA :: .start :: rest) : ¬InOrder log := by
  intro hin
  obtain ⟨k, hk⟩ := hin
  cases k with
  | zero =>
    rcases h with h | h <;> rw [h] at hk <;> simp at hk
  | succ k =>
    rw [List.replicate_succ, List.flatten_cons, transaction] at hk
    rcases h with h | h <;> rw [h] at hk <;> simp [List.cons_prefix_cons] at hk

/-- Up to the first iteration behind a timer interrupt. -/
theorem run_first_behind {s : State} {pre : List Event} {hw : Hw} {ts : List Trace}
    (h : run State.init (pre ++ [.iterate hw]) = some (s, ts)) (ht4 : .interrupt .t4 ∈ pre)
    (hquiet : Quiet pre) :
    ∃ log, actions log = [] ∧ s.i2c.getBatt = true ∧
      s.i2c.i2cSendByte = (if .interrupt .mi2c1 ∈ pre then 1 else 0) ∧
      busLog (pre ++ [.iterate hw]) ts =
        log ++ (if .interrupt .mi2c1 ∈ pre then [.action .start, .action (.write 0xAA)]
          else [.action .start]) := by
  obtain ⟨s₁, ts₁, ts₂, hpre, hlast, rfl⟩ := run_append_eq_some h
  obtain ⟨s₂, t, ts₃, hiterate, hnil, rfl⟩ := run_iterate_eq_some hlast
  rw [run, Option.some.injEq, Prod.mk.injEq] at hnil
  obtain ⟨rfl, rfl⟩ := hnil
  obtain ⟨hflags, hactions⟩ := run_quiet hpre i2c_init hquiet (by simp)
  rw [Bool.false_or, Bool.false_or, decide_eq_true ht4] at hflags
  obtain ⟨hbatt, hsend, hbus⟩ := i2cSection_request hw hflags
  have hserviced := iterate_inputs hiterate
  refine ⟨busLog pre ts₁, hactions, ?_, ?_, ?_⟩
  · rw [hserviced.i2c]
    exact hbatt
  · rw [hserviced.i2c, hsend]
    simp only [decide_eq_true_eq]
  · rw [busLog_append hpre, busLog, hserviced.bus, hbus, busLog, List.append_nil]
    by_cases hmi : .interrupt .mi2c1 ∈ pre
    · rw [decide_eq_true hmi, if_pos rfl, if_pos hmi]
      rfl
    · rw [decide_eq_false hmi, if_neg hmi]
      rfl

/-- A second iteration behind the request starts a second transaction too
early. -/
theorem not_inOrder_of_second {s : State} {pre mid : List Event} {hw hw' : Hw} {ts : List Trace}
    (h : run State.init (pre ++ [.iterate hw] ++ mid ++ [.iterate hw']) = some (s, ts))
    (ht4 : .interrupt .t4 ∈ pre) (hquiet : Quiet pre) (hnone : ∀ hw'', .iterate hw'' ∉ mid) :
    ¬InOrder (busLog (pre ++ [.iterate hw] ++ mid ++ [.iterate hw']) ts) := by
  obtain ⟨s₂, ts₂, ts₃, hfront, hsecond, rfl⟩ := run_append_eq_some h
  obtain ⟨s₁, ts₁, ts₂, hfirst, hmid, rfl⟩ := run_append_eq_some hfront
  obtain ⟨s₃, t, ts₃, hiterate, -, rfl⟩ := run_iterate_eq_some hsecond
  obtain ⟨log, hlog, hbatt, -, hbus⟩ := run_first_behind hfirst ht4 hquiet
  obtain ⟨hbatt', -, hsilent⟩ := run_interrupts hmid hnone
  rw [hbatt, Bool.true_or] at hbatt'
  obtain ⟨rest, hstart⟩ := i2cSection_starts hw' hbatt'
  have hactions : actions (busLog [.iterate hw'] (t :: ts₃)) = .start :: rest := by
    rw [busLog, busLog, List.append_nil, actions_map, (iterate_inputs hiterate).bus, hstart]
  apply not_inOrder_of_two
  rw [busLog_append hfront, busLog_append hfirst, hbus, actions_append, actions_append,
    actions_append, hlog, hsilent, hactions]
  by_cases hmi : .interrupt .mi2c1 ∈ pre
  · rw [if_pos hmi]
    exact Or.inr rfl
  · rw [if_neg hmi]
    exact Or.inl rfl

theorem short_of_sequenced {s : State} {events : List Event} {ts : List Trace}
    (h : run State.init events = some (s, ts)) (hseq : Sequenced events) : Short events := by
  intro pre hw suf hsplit ht4
  have hnotQuiet : ¬Quiet events := fun hquiet => hquiet pre hw suf hsplit ht4
  obtain ⟨pre₁, hw₁, suf₁, hsplit₁, ht4₁, hquiet₁⟩ := exists_first_behind hnotQuiet
  have hlast : ∀ hw', .iterate hw' ∉ suf₁ := by
    intro hw' hmem
    obtain ⟨mid, hw₂, rest, hmid, hnone⟩ := exists_first_iterate hmem
    have hevents : events = pre₁ ++ [.iterate hw₁] ++ mid ++ [.iterate hw₂] ++ rest := by
      rw [hsplit₁, hmid]
      simp
    rw [hevents] at h
    obtain ⟨s₂, ts₁, ts₂, hrun, -, -⟩ := run_append_eq_some h
    refine not_inOrder_of_second hrun ht4₁ hquiet₁ hnone (hseq _ _ _ ?_ hrun).1
    exact ⟨rest, hevents.symm⟩
  have hnomi : .interrupt .mi2c1 ∉ pre₁ := by
    intro hmi
    have hevents : events = pre₁ ++ [.iterate hw₁] ++ suf₁ := by
      rw [hsplit₁]
      simp
    rw [hevents] at h
    obtain ⟨s₁, ts₁, ts₂, hrun, -, -⟩ := run_append_eq_some h
    obtain ⟨log, hlog, -, -, hbus⟩ := run_first_behind hrun ht4₁ hquiet₁
    have hanswered := (hseq _ _ _ ⟨suf₁, hevents.symm⟩ hrun).2.1
    rw [hbus, if_pos hmi, answered_append hlog] at hanswered
    simp [Answered] at hanswered
  rw [hsplit₁] at hsplit
  rcases List.append_eq_append_iff.1 hsplit with ⟨as, hpre, hsuf⟩ | ⟨cs, hpre, hsuf⟩
  · cases as with
    | nil =>
      obtain ⟨-, rfl⟩ := List.cons.inj hsuf
      rw [hpre, List.append_nil]
      exact ⟨hnomi, hlast⟩
    | cons a as =>
      obtain ⟨-, rfl⟩ := List.cons.inj hsuf
      exact absurd (List.mem_append_right as List.mem_cons_self) (hlast hw)
  · cases cs with
    | nil =>
      obtain ⟨-, rfl⟩ := List.cons.inj hsuf
      rw [List.append_nil] at hpre
      rw [← hpre]
      exact ⟨hnomi, hlast⟩
    | cons c cs =>
      obtain ⟨rfl, -⟩ := List.cons.inj hsuf
      exact absurd ht4 (hquiet₁ pre hw cs hpre)

theorem sequenced_of_short {events : List Event} (hshort : Short events) : Sequenced events := by
  intro p s ts hp hrun
  by_cases hquiet : Quiet p
  · obtain ⟨hflags, hactions⟩ := run_quiet hrun i2c_init hquiet (by simp)
    refine ⟨⟨0, by rw [hactions]; exact List.nil_prefix⟩, ?_, ?_⟩
    · have := (answered_append hactions false []).2 trivial
      rwa [List.append_nil] at this
    · have hsend : s.i2cSendByte = 0 := congrArg I2cFlags.i2cSendByte hflags
      rw [hsend]
      decide
  · obtain ⟨pre, hw, suf, hsplit, ht4, hquiet⟩ := exists_first_behind hquiet
    obtain ⟨rest, hrest⟩ := hp
    obtain ⟨hnomi, hlast⟩ := hshort pre hw (suf ++ rest) (by
      rw [← hrest, hsplit, List.append_assoc, List.cons_append]) ht4
    have hnone : ∀ hw', .iterate hw' ∉ suf := fun hw' hmem =>
      hlast hw' (List.mem_append_left rest hmem)
    have hparts : p = pre ++ [.iterate hw] ++ suf := by
      rw [hsplit]
      simp
    rw [hparts] at hrun ⊢
    obtain ⟨s₁, ts₁, ts₂, hfirst, hsuf, rfl⟩ := run_append_eq_some hrun
    obtain ⟨log, hlog, -, hsend, hbus⟩ := run_first_behind hfirst ht4 hquiet
    obtain ⟨-, hsend', hsilent⟩ := run_interrupts hsuf hnone
    rw [if_neg hnomi] at hbus hsend
    rw [busLog_append hfirst, hbus]
    refine ⟨⟨1, ?_⟩, ?_, ?_⟩
    · rw [actions_append, actions_append, hlog, hsilent]
      simp [actions, transaction]
    · rw [List.append_assoc, answered_append hlog]
      refine ⟨Or.inl rfl, ?_⟩
      have := (answered_append hsilent false []).2 trivial
      rwa [List.append_nil] at this
    · have hend : s.i2cSendByte = 0 := hsend'.trans hsend
      rw [hend]
      decide

/-- In a run from start-up the transaction is sequenced by the bus interrupts
exactly if at most one iteration is behind the first timer interrupt, and no
bus interrupt is in front of that one. -/
theorem fuelGauge_sequenced_iff {s : State} {events : List Event} {ts : List Trace}
    (h : run State.init events = some (s, ts)) : Sequenced events ↔ Short events :=
  ⟨short_of_sequenced h, sequenced_of_short⟩

/-- A run that ends behind the interrupt for the first `START`. -/
theorem fuelGauge_sequenced_once :
    Sequenced [.interrupt .t4, .iterate ⟨0, 0, 0, 0, 0, 0, 0⟩, .interrupt .mi2c1] := by
  obtain ⟨s, ts, hrun⟩ : ∃ s ts, run State.init [.interrupt .t4,
      .iterate ⟨0, 0, 0, 0, 0, 0, 0⟩, .interrupt .mi2c1] = some (s, ts) := ⟨_, _, rfl⟩
  apply (fuelGauge_sequenced_iff hrun).2
  intro pre hw suf hsplit ht4
  rcases pre with _ | ⟨e, _ | ⟨e', _ | ⟨e'', pre⟩⟩⟩
  · simp at ht4
  · obtain ⟨rfl, hrest⟩ := List.cons.inj hsplit
    obtain ⟨-, rfl⟩ := List.cons.inj hrest
    exact ⟨by simp, by simp⟩
  · simp at hsplit
  · simp at hsplit

/-- The second iteration behind the timer interrupt starts again, instead of
going on with the write. -/
theorem fuelGauge_starts_twice :
    ∃ s ts, run State.init [.interrupt .t4, .iterate ⟨0, 0, 0, 0, 0, 0, 0⟩,
        .interrupt .mi2c1, .iterate ⟨0, 0, 0, 0, 0, 0, 0⟩] = some (s, ts) ∧
      ts.map Trace.bus = [[.start], [.start, .write 0xAA]] ∧
      ¬Sequenced [.interrupt .t4, .iterate ⟨0, 0, 0, 0, 0, 0, 0⟩,
        .interrupt .mi2c1, .iterate ⟨0, 0, 0, 0, 0, 0, 0⟩] := by
  refine ⟨_, _, rfl, rfl, fun hseq => ?_⟩
  have horder := (hseq _ _ _ List.prefix_rfl rfl).1
  exact not_inOrder_of_two (Or.inl rfl) horder

end MinotaurRobot.Mcu
