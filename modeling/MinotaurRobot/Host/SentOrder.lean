import MinotaurRobot.Host.SendPacket

/-!
# The order of the packets on the line

Two threads call `sendpacket`.  The numbers of their packets may be mixed up,
their payloads are not: `sent_interleaves` says that what is written is an
interleaving of the two rows of calls, each in its order.
-/

namespace MinotaurRobot.Host

open Lib

/-- A packet without its number. -/
structure Payload where
  sync : UInt8
  command : UInt8
  udata8Fst : UInt8
  udata8Snd : UInt8
  deriving DecidableEq, Repr

def MinosPacket.payload (p : MinosPacket) : Payload :=
  ⟨p.sync, p.command, p.udata8Fst, p.udata8Snd⟩

/-- The payload of a call, whatever its number will be. -/
def SendCall.payload (c : SendCall) : Payload := (c.packet 0).payload

/-- The calls of a thread. -/
def sendCalls (t : Sender) (steps : List SendStep) : List SendCall :=
  steps.filterMap fun e =>
    match e with
    | .call t' c => if t' = t then some c else none
    | _ => none

/-- The threads that write, in the order of the writes. -/
def writers (steps : List SendStep) : List Sender :=
  steps.filterMap fun e =>
    match e with
    | .write t => some t
    | _ => none

/-- What a call has still to write. -/
def SendPhase.pending : SendPhase → List Payload
  | .idle => []
  | .selecting c => [c.payload]
  | .selected c _ => [c.payload]
  | .locked c _ => [c.payload]
  | .built packet _ => [packet.payload]
  | .written _ => []

/-- The packets written, each with the thread that wrote it: those of a thread
are the ones that it was called for, but for the one that is pending. -/
structure Interleaved (steps : List SendStep) (s : Senders) (log : List (Sender × Payload)) :
    Prop where
  written : s.sent.map (fun w => w.packet.payload) = log.map Prod.snd
  threads : log.map Prod.fst = writers steps
  order : ∀ t, (log.filter (·.1 = t)).map Prod.snd ++ (s.phase t).pending =
    (sendCalls t steps).map SendCall.payload

theorem sendCalls_concat (t : Sender) (steps : List SendStep) (e : SendStep) :
    sendCalls t (steps ++ [e]) = sendCalls t steps ++ sendCalls t [e] := by
  unfold sendCalls
  rw [List.filterMap_append]

theorem writers_concat (steps : List SendStep) (e : SendStep) :
    writers (steps ++ [e]) = writers steps ++ writers [e] := by
  unfold writers
  rw [List.filterMap_append]

/-- A step that calls and writes nothing. -/
theorem Interleaved.quiet {steps : List SendStep} {s s' : Senders} {e : SendStep}
    {log : List (Sender × Payload)} (h : Interleaved steps s log)
    (hcalls : ∀ t, sendCalls t [e] = []) (hwriters : writers [e] = []) (hsent : s'.sent = s.sent)
    (hphase : ∀ t, (s'.phase t).pending = (s.phase t).pending) :
    Interleaved (steps ++ [e]) s' log := by
  refine ⟨by rw [hsent, h.written], ?_, fun t => ?_⟩
  · rw [writers_concat, hwriters, List.append_nil, h.threads]
  · rw [sendCalls_concat, hcalls, List.append_nil, hphase]
    exact h.order t

theorem pending_move {s : Senders} {t : Sender} {p : SendPhase}
    (h : p.pending = (s.phase t).pending) (t' : Sender) :
    ((s.move t p).phase t').pending = (s.phase t').pending := by
  by_cases ht : t' = t
  · subst ht
    rw [Senders.move]
    simp [h]
  · rw [Senders.move]
    simp [ht]

theorem Interleaved.step {steps : List SendStep} {s s' : Senders} {e : SendStep}
    {log : List (Sender × Payload)} (h : Interleaved steps s log) (hstep : s.step e = some s') :
    ∃ log', Interleaved (steps ++ [e]) s' log' := by
  cases step_cases hstep with
  | @called t c hphase =>
    refine ⟨log, by exact h.written, ?_, fun t' => ?_⟩
    · rw [writers_concat, h.threads]
      exact (List.append_nil _).symm
    · rw [sendCalls_concat, List.map_append, ← h.order t', List.append_assoc]
      congr 1
      by_cases ht : t' = t
      · subst ht
        rw [hphase]
        simp [Senders.move, SendPhase.pending, sendCalls]
      · have hother : ¬t = t' := fun heq => ht heq.symm
        simp [Senders.move, sendCalls, ht, hother]
  | skipped hphase hheld =>
    refine ⟨log, h.quiet (fun _ => rfl) rfl rfl (pending_move ?_)⟩
    rw [hphase]
  | selected hphase hfree =>
    refine ⟨log, h.quiet (fun _ => rfl) rfl rfl (pending_move ?_)⟩
    rw [hphase]
    rfl
  | locked hphase =>
    refine ⟨log, h.quiet (fun _ => rfl) rfl rfl (pending_move ?_)⟩
    rw [hphase]
    rfl
  | built hphase =>
    refine ⟨log, h.quiet (fun _ => rfl) rfl rfl (pending_move ?_)⟩
    rcases hphase with hphase | hphase <;> rw [hphase] <;> rfl
  | @written t packet own hphase =>
    refine ⟨log ++ [(t, packet.payload)], ?_, ?_, fun t' => ?_⟩
    · rw [List.map_append, List.map_append, h.written]
      rfl
    · rw [writers_concat, List.map_append, h.threads]
      rfl
    · have hnone : sendCalls t' [.write t] = [] := rfl
      rw [sendCalls_concat, hnone, List.append_nil, ← h.order t', List.filter_append,
        List.map_append, List.append_assoc]
      congr 1
      by_cases ht : t' = t
      · subst ht
        rw [hphase]
        simp [Senders.move, SendPhase.pending]
      · have hother : ¬t = t' := fun heq => ht heq.symm
        simp [Senders.move, ht, hother]
  | returned hphase =>
    refine ⟨log, h.quiet (fun _ => rfl) rfl rfl (pending_move ?_)⟩
    rw [hphase]
    rfl
  | setLock => exact ⟨log, h.quiet (fun _ => rfl) rfl rfl fun _ => rfl⟩

/-- What is written has its sync byte. -/
theorem Interleaved.sync {steps : List SendStep} {s : Senders} {log : List (Sender × Payload)}
    (h : Interleaved steps s log) : ∀ w ∈ s.sent, w.packet.sync = 0xAA := by
  intro w hw
  have hmem : w.packet.payload ∈ log.map Prod.snd := by
    rw [← h.written]
    exact List.mem_map_of_mem hw
  obtain ⟨e, he, hpayload⟩ := List.mem_map.1 hmem
  have hcall : e.2 ∈ (sendCalls e.1 steps).map SendCall.payload := by
    rw [← h.order e.1]
    apply List.mem_append_left
    exact List.mem_map_of_mem (List.mem_filter.2 ⟨he, by simp⟩)
  obtain ⟨c, -, hc⟩ := List.mem_map.1 hcall
  show w.packet.payload.sync = 0xAA
  rw [← hpayload, ← hc]
  rfl

/-- The packets on the line interleave the calls of the two threads, whole,
each in its order and once, whatever happens to their numbers. -/
theorem sent_interleaves {steps : List SendStep} {s : Senders} (h : Senders.run steps = some s) :
    ∃ log, Interleaved steps s log := by
  induction steps using List.reverseRecOn generalizing s with
  | nil =>
    rw [Senders.run, Runs.run, Option.some.injEq] at h
    rw [← h]
    exact ⟨[], rfl, rfl, fun t => rfl⟩
  | append_singleton steps e ih =>
    obtain ⟨s', hrun, hstep⟩ := Runs.run_concat.1 h
    obtain ⟨log, hlog⟩ := ih hrun
    exact hlog.step hstep

end MinotaurRobot.Host
