import MinotaurRobot.Cnc.Server
import MinotaurRobot.Lib.Runs
import Mathlib.Data.Finset.Insert

/-!
# One command for all clients that wait

`requestMetrics` sends a command if the client is the only one in the set
behind the insertion.  That is so for the first client that waits, and also
for a client that asks again while it waits alone (`sends_iff`).

`coalesces_iff` gives the runs in which there is never more than one command
without an answer.  What the clients receive is right in every run
(`answer_written`).
-/

namespace MinotaurRobot.Cnc

open Lib Lib.StructFormat

variable {Client : Type} [DecidableEq Client]

/-! ## Requests and answers -/

inductive ExchangeEvent (Client : Type) where
  /-- A client asks for metrics. -/
  | request (client : Client)
  /-- A metrics packet of the robot arrives as a whole. -/
  | answer (state : Host.MinotaurState UInt32)

/-- The server's side of the robot, and the number of commands sent and not yet
answered. -/
structure Exchange (Client : Type) where
  minotaur : Minotaur Client
  outstanding : ℕ

/-- The robot has logged in. -/
def Exchange.init : Exchange Client := ⟨Minotaur.init.login loginBytes, 0⟩

/-- One event.  A packet that no command asked for answers none. -/
def Exchange.step (x : Exchange Client) : ExchangeEvent Client → Option (Exchange Client)
  | .request client =>
    let (minotaur, commands) := x.minotaur.requestMetrics client
    some ⟨minotaur, x.outstanding + commands.length⟩
  | .answer state =>
    some ⟨(x.minotaur.dataReceived (Message.metrics state).bytes).1, x.outstanding - 1⟩

def Exchange.run (events : List (ExchangeEvent Client)) : Option (Exchange Client) :=
  Runs.run Exchange.step Exchange.init events

/-- The clients that asked since the last answer. -/
def asked (events : List (ExchangeEvent Client)) : Finset Client :=
  events.foldl
    (fun clients e =>
      match e with
      | .request client => insert client clients
      | .answer _ => ∅)
    ∅

/-- What is written to the clients for a chunk of the robot: `write` is called
for each client of the set. -/
def written : Option (Answer Client) → Multiset (Client × List (String × Value))
  | none => 0
  | some answer => answer.clients.val.map fun client => (client, answer.metrics)

/-- There is never more than one command without an answer, and an answer is
written once to each client that asked since the last one, and to no other. -/
structure Coalesces (events : List (ExchangeEvent Client)) : Prop where
  outstanding : ∀ pre x, pre <+: events → Exchange.run pre = some x → x.outstanding ≤ 1
  written : ∀ pre state x, pre ++ [.answer state] <+: events → Exchange.run pre = some x →
    written (x.minotaur.dataReceived (Message.metrics state).bytes).2 =
      (asked pre).val.map fun client =>
        (client, metricsDict (MinotaurStatePacked.ofState state).read)

/-- No client asks while it is the only one that waits. -/
def NoRepeat (events : List (ExchangeEvent Client)) : Prop :=
  ∀ pre client, pre ++ [.request client] <+: events → asked pre ≠ {client}

/-! ## One event -/

theorem request_waiting (m : Minotaur Client) (client : Client) :
    (m.requestMetrics client).1.waiting = insert client m.waiting := rfl

/-- A command is sent for the first client that waits, and for one that waits
alone. -/
theorem sends_iff (m : Minotaur Client) (client : Client) :
    (m.requestMetrics client).2.length =
      if m.waiting = ∅ ∨ m.waiting = {client} then 1 else 0 := by
  have hcard : (insert client m.waiting).card = 1 ↔ m.waiting = ∅ ∨ m.waiting = {client} := by
    rw [Finset.card_eq_one, ← Finset.subset_singleton_iff]
    constructor
    · rintro ⟨other, hother⟩
      have hclient : client ∈ insert client m.waiting := Finset.mem_insert_self _ _
      rw [hother, Finset.mem_singleton] at hclient
      rw [hclient, ← hother]
      exact Finset.subset_insert _ _
    · intro hsub
      refine ⟨client, Finset.Subset.antisymm ?_ ?_⟩
      · exact Finset.insert_subset (Finset.mem_singleton_self client) hsub
      · exact Finset.singleton_subset_iff.2 (Finset.mem_insert_self client _)
  unfold Minotaur.requestMetrics
  show (if (insert client m.waiting).card = 1 then _ else _ : List SendCmd).length = _
  by_cases hone : (insert client m.waiting).card = 1
  · rw [if_pos hone, if_pos (hcard.1 hone)]
    rfl
  · rw [if_neg hone, if_neg (mt hcard.2 hone)]
    rfl

omit [DecidableEq Client] in
/-- A whole packet is written once to each client that waits, and then no
client waits. -/
theorem answer_spec {m : Minotaur Client} (h : m.loggedin = true)
    (state : Host.MinotaurState UInt32) :
    (m.dataReceived (Message.metrics state).bytes).1.loggedin = true ∧
      (m.dataReceived (Message.metrics state).bytes).1.waiting = ∅ ∧
      written (m.dataReceived (Message.metrics state).bytes).2 =
        m.waiting.val.map fun client =>
          (client, metricsDict (MinotaurStatePacked.ofState state).read) := by
  have hpacket : isPacket (Message.metrics state).bytes = true := by
    unfold isPacket
    rw [(headed_iff _).2 rfl, Bool.true_and, beq_iff_eq]
    exact length_bytes _
  rw [dataReceived_eq h, hpacket, Bool.and_true]
  cases hrequests : m.requests with
  | none =>
    have hempty : m.waiting = ∅ := by
      unfold Minotaur.waiting
      rw [hrequests, Option.getD_none]
    rw [Option.isSome_none, if_neg Bool.false_ne_true, hempty]
    exact ⟨h, rfl, rfl⟩
  | some clients =>
    rw [Option.isSome_some, if_pos rfl, unpack_ofState]
    exact ⟨h, rfl, rfl⟩

/-- The invariant of a run in which all is well. -/
structure Exchange.Inv (x : Exchange Client) : Prop where
  loggedin : x.minotaur.loggedin = true
  idle : x.minotaur.waiting = ∅ → x.outstanding = 0
  waiting : x.minotaur.waiting ≠ ∅ → 1 ≤ x.outstanding

/-- What an event needs. -/
def Exchange.Fresh (x : Exchange Client) : ExchangeEvent Client → Prop
  | .request client => x.minotaur.waiting ≠ {client}
  | .answer _ => True

theorem step_outstanding {x x' : Exchange Client} {e : ExchangeEvent Client} (hinv : x.Inv)
    (hgood : x.outstanding ≤ 1) (hstep : x.step e = some x') :
    x'.Inv ∧ (x'.outstanding ≤ 1 ↔ x.Fresh e) := by
  cases e with
  | request client =>
    rw [Exchange.step, Option.some.injEq] at hstep
    rw [← hstep]
    have hwaits : (x.minotaur.requestMetrics client).1.waiting ≠ ∅ := by
      rw [request_waiting]
      exact Finset.insert_ne_empty client _
    have hsends := sends_iff x.minotaur client
    unfold Exchange.Fresh
    dsimp only
    by_cases hempty : x.minotaur.waiting = ∅
    · have hidle := hinv.idle hempty
      rw [if_pos (Or.inl hempty)] at hsends
      refine ⟨⟨hinv.loggedin, fun hnone => absurd hnone hwaits, fun _ => ?_⟩, ?_⟩
      · show 1 ≤ x.outstanding + (x.minotaur.requestMetrics client).2.length
        omega
      · rw [hempty, hsends]
        constructor
        · intro _ hsingle
          exact Finset.singleton_ne_empty client hsingle.symm
        · intro _
          omega
    · have hone := hinv.waiting hempty
      refine ⟨⟨hinv.loggedin, fun hnone => absurd hnone hwaits, fun _ => ?_⟩, ?_⟩
      · show 1 ≤ x.outstanding + (x.minotaur.requestMetrics client).2.length
        omega
      · by_cases halone : x.minotaur.waiting = {client}
        · rw [if_pos (Or.inr halone)] at hsends
          rw [hsends]
          constructor
          · intro hle
            omega
          · intro hne
            exact absurd halone hne
        · rw [if_neg (by simp [hempty, halone])] at hsends
          rw [hsends]
          exact ⟨fun _ => halone, fun _ => hgood⟩
  | answer state =>
    rw [Exchange.step, Option.some.injEq] at hstep
    rw [← hstep]
    obtain ⟨hlogin, hnone, -⟩ := answer_spec hinv.loggedin state
    refine ⟨⟨hlogin, fun _ => ?_, fun hsome => absurd hnone hsome⟩, fun _ => trivial, fun _ => ?_⟩
    · show x.outstanding - 1 = 0
      omega
    · show x.outstanding - 1 ≤ 1
      omega

/-! ## Runs -/

theorem asked_concat (events : List (ExchangeEvent Client)) (e : ExchangeEvent Client) :
    asked (events ++ [e]) =
      match e with
      | .request client => insert client (asked events)
      | .answer _ => ∅ := by
  unfold asked
  rw [List.foldl_append]
  rfl

/-- The set of the server is the set of the clients that asked since the last
answer. -/
theorem run_waiting {events : List (ExchangeEvent Client)} {x : Exchange Client}
    (h : Exchange.run events = some x) :
    x.minotaur.loggedin = true ∧ x.minotaur.waiting = asked events := by
  unfold Exchange.run at h
  induction events using List.reverseRecOn generalizing x with
  | nil =>
    rw [← Option.some.inj h]
    exact ⟨rfl, rfl⟩
  | append_singleton events e ih =>
    obtain ⟨x₀, hfront, hlast⟩ := Runs.run_concat.1 h
    obtain ⟨hlogin, hwaiting⟩ := ih hfront
    rw [asked_concat]
    cases e with
    | request client =>
      rw [Exchange.step, Option.some.injEq] at hlast
      rw [← hlast]
      refine ⟨hlogin, ?_⟩
      rw [← hwaiting]
      rfl
    | answer state =>
      rw [Exchange.step, Option.some.injEq] at hlast
      rw [← hlast]
      obtain ⟨hlogin', hnone, -⟩ := answer_spec hlogin state
      exact ⟨hlogin', hnone⟩

/-- In every run an answer is written once to each client that asked since the
last one, and to no other. -/
theorem answer_written {events : List (ExchangeEvent Client)} {x : Exchange Client}
    (h : Exchange.run events = some x) (state : Host.MinotaurState UInt32) :
    written (x.minotaur.dataReceived (Message.metrics state).bytes).2 =
      (asked events).val.map fun client =>
        (client, metricsDict (MinotaurStatePacked.ofState state).read) := by
  obtain ⟨hlogin, hwaiting⟩ := run_waiting h
  obtain ⟨-, -, hwritten⟩ := answer_spec hlogin state
  rw [hwritten, hwaiting]

/-- Every sequence of events is a run. -/
theorem run_isSome (events : List (ExchangeEvent Client)) :
    ∃ x, Exchange.run events = some x := by
  unfold Exchange.run
  induction events using List.reverseRecOn with
  | nil => exact ⟨_, rfl⟩
  | append_singleton events e ih =>
    obtain ⟨x, hx⟩ := ih
    cases e with
    | request client => exact ⟨_, Runs.run_concat.2 ⟨x, hx, rfl⟩⟩
    | answer state => exact ⟨_, Runs.run_concat.2 ⟨x, hx, rfl⟩⟩

/-- The requests of a run are coalesced exactly if no client asks again while
it is the only one that waits. -/
theorem coalesces_iff (events : List (ExchangeEvent Client)) :
    Coalesces events ↔ NoRepeat events := by
  obtain ⟨last, hrun⟩ := run_isSome events
  have hinv : (Exchange.init : Exchange Client).Inv :=
    ⟨rfl, fun _ => rfl, fun hsome => absurd rfl hsome⟩
  have hiff := Runs.always_iff Exchange.Inv (fun x => x.outstanding ≤ 1) Exchange.Fresh hinv
    (Nat.zero_le 1) (fun x e x' => step_outstanding) hrun
  constructor
  · intro hall pre client hpre
    obtain ⟨x, hx⟩ := run_isSome pre
    have hfresh := hiff.1 hall.outstanding pre (.request client) x hpre hx
    rw [← (run_waiting hx).2]
    exact hfresh
  · intro hnone
    refine ⟨hiff.2 ?_, fun pre state x _ hx => answer_written hx state⟩
    intro pre e x hpre hx
    cases e with
    | request client =>
      show x.minotaur.waiting ≠ {client}
      rw [(run_waiting hx).2]
      exact hnone pre client hpre
    | answer state => trivial

/-- A page that asks again before the answer sends a second command. -/
theorem coalesces_asked_twice :
    (∃ x : Exchange ℕ, Exchange.run [.request 1, .request 1] = some x ∧ x.outstanding = 2) ∧
      ¬Coalesces ([.request 1, .request 1] : List (ExchangeEvent ℕ)) := by
  refine ⟨⟨_, rfl, rfl⟩, ?_⟩
  intro h
  exact absurd (h.outstanding _ _ List.prefix_rfl rfl) (by decide)

end MinotaurRobot.Cnc
