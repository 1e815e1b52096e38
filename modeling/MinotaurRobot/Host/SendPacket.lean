import MinotaurRobot.Host.Packet
import MinotaurRobot.Lib.Runs
import Mathlib.Algebra.Group.Nat.Defs
import Mathlib.Logic.Function.Basic

/-!
# Two threads in `sendpacket`

`mainCncWait` and `mainMinosWait` send packets on the same object.
`minos_outgoing_mutex` covers the write only, and `minos_seq` is read again
after the loop that selects a number: for the lock, for the packet and for the
result.

A call that was selected keeps its number as long as the other thread does not
increment `minos_seq` (`Owned`).  `minosSeq_eq_iff` says which increments a
later read notices.

The link is open, so `sendpacket` does not throw.
-/

namespace MinotaurRobot.Host

open Lib

/-! ## The steps -/

/-- The two threads. -/
inductive Sender where
  /-- `mainCncWait`, with the motor commands. -/
  | cnc
  /-- `mainMinosWait`, with the polls. -/
  | minos
  deriving DecidableEq, Repr

def Sender.other : Sender → Sender
  | .cnc => .minos
  | .minos => .cnc

/-- The arguments of `sendpacket`. -/
structure SendCall where
  command : UInt8
  data : UInt16
  waitResponse : Bool

/-- The packet that `sendpacket` fills in. -/
def SendCall.packet (c : SendCall) (seq : UInt8) : MinosPacket :=
  { sync := 0xAA
    seq := seq
    command := c.command
    udata8Fst := c.data.toUInt8
    udata8Snd := (c.data >>> 8).toUInt8 }

/-- Where a thread stands in `sendpacket`.  `own` is the number that its loop
selected. -/
inductive SendPhase where
  | idle
  | selecting (call : SendCall)
  | selected (call : SendCall) (own : UInt8)
  | locked (call : SendCall) (own : UInt8)
  | built (packet : MinosPacket) (own : UInt8)
  | written (own : UInt8)

/-- A packet that was written, and the number that its call selected. -/
structure Sent where
  packet : MinosPacket
  own : UInt8
  deriving DecidableEq, Repr

/-- A result of `sendpacket`, and the number that the call selected. -/
structure Returned where
  value : UInt8
  own : UInt8
  deriving DecidableEq, Repr

structure Senders where
  minosSeq : UInt8
  /-- Which of `minos_command_locks` are held. -/
  minosCommandLocks : UInt8 → Bool
  phase : Sender → SendPhase
  sent : List Sent
  returned : List Returned

/-- The link behind `minos_connect`. -/
def Senders.init : Senders := ⟨0, fun _ => false, fun _ => .idle, [], []⟩

inductive SendStep where
  | call (t : Sender) (c : SendCall)
  | select (t : Sender)
  | lock (t : Sender)
  | build (t : Sender)
  | write (t : Sender)
  | ret (t : Sender)
  /-- Another part of the program locks or unlocks `minos_command_locks`. -/
  | setLock (seq : UInt8) (held : Bool)

/-- The thread `t` goes on to `p`. -/
def Senders.move (s : Senders) (t : Sender) (p : SendPhase) : Senders :=
  { s with phase := Function.update s.phase t p }

/-- One step.  A step that the thread is not ready for, or that has to wait for
a lock, is not possible. -/
def Senders.step (s : Senders) : SendStep → Option Senders
  | .call t c =>
    match s.phase t with
    | .idle => some (s.move t (.selecting c))
    | _ => none
  | .select t =>
    match s.phase t with
    | .selecting c =>
      -- `checkpacket(++minos_seq)`: the loop goes on if the lock is held
      let seq := s.minosSeq + 1
      let p := if s.minosCommandLocks seq then .selecting c else .selected c seq
      some { s.move t p with minosSeq := seq }
    | _ => none
  | .lock t =>
    match s.phase t with
    | .selected c own =>
      if c.waitResponse && !s.minosCommandLocks s.minosSeq then
        some { s.move t (.locked c own) with
          minosCommandLocks := Function.update s.minosCommandLocks s.minosSeq true }
      else none
    | _ => none
  | .build t =>
    match s.phase t with
    | .selected c own =>
      if c.waitResponse then none else some (s.move t (.built (c.packet s.minosSeq) own))
    | .locked c own => some (s.move t (.built (c.packet s.minosSeq) own))
    | _ => none
  | .write t =>
    match s.phase t with
    | .built packet own => some { s.move t (.written own) with sent := s.sent ++ [⟨packet, own⟩] }
    | _ => none
  | .ret t =>
    match s.phase t with
    | .written own => some { s.move t .idle with returned := s.returned ++ [⟨s.minosSeq, own⟩] }
    | _ => none
  | .setLock seq held =>
    some { s with minosCommandLocks := Function.update s.minosCommandLocks seq held }

def Senders.run (steps : List SendStep) : Option Senders := Runs.run Senders.step Senders.init steps

/-- The number that a thread between its selection and its return has
selected. -/
def SendPhase.own : SendPhase → Option UInt8
  | .idle => none
  | .selecting _ => none
  | .selected _ own => some own
  | .locked _ own => some own
  | .built _ own => some own
  | .written own => some own

/-- No lock is held at any time. -/
def NeverHeld (steps : List SendStep) : Prop :=
  ∀ pre s, pre <+: steps → Senders.run pre = some s → ∀ seq, s.minosCommandLocks seq = false

/-- Every packet carries the number that its call selected, every call returns
its number, and 255 packets in a row have different numbers if no lock is
held. -/
structure OwnNumbers (steps : List SendStep) (s : Senders) : Prop where
  written : ∀ w ∈ s.sent, w.packet.seq = w.own
  returned : ∀ r ∈ s.returned, r.value = r.own
  distinct : NeverHeld steps → ∀ i j a b, i < j → j - i < 255 → s.sent[i]? = some a →
    s.sent[j]? = some b → a.packet.seq ≠ b.packet.seq

/-- No thread increments `minos_seq` while the other is between its selection
and its return. -/
def Undisturbed (steps : List SendStep) : Prop :=
  ∀ pre t s, pre ++ [.select t] <+: steps → Senders.run pre = some s →
    (s.phase t.other).own = none

/-! ## One call alone -/

/-- A selected call builds the packet of `sendpacket`. -/
theorem sendpacket_eq (checkpacket : UInt8 → Bool) (minosSeq : UInt8) (c : SendCall) :
    sendpacket checkpacket minosSeq c.command c.data =
      (nextSeq checkpacket 256 minosSeq).map c.packet := rfl

/-! ## What a step does -/

/-- The steps that are possible. -/
inductive Stepped (s : Senders) : SendStep → Senders → Prop where
  | called {t : Sender} {c : SendCall} (hphase : s.phase t = .idle) :
      Stepped s (.call t c) (s.move t (.selecting c))
  | skipped {t : Sender} {c : SendCall} (hphase : s.phase t = .selecting c)
      (hheld : s.minosCommandLocks (s.minosSeq + 1) = true) :
      Stepped s (.select t) { s.move t (.selecting c) with minosSeq := s.minosSeq + 1 }
  | selected {t : Sender} {c : SendCall} (hphase : s.phase t = .selecting c)
      (hfree : s.minosCommandLocks (s.minosSeq + 1) = false) :
      Stepped s (.select t)
        { s.move t (.selected c (s.minosSeq + 1)) with minosSeq := s.minosSeq + 1 }
  | locked {t : Sender} {c : SendCall} {own : UInt8} (hphase : s.phase t = .selected c own) :
      Stepped s (.lock t)
        { s.move t (.locked c own) with
          minosCommandLocks := Function.update s.minosCommandLocks s.minosSeq true }
  | built {t : Sender} {c : SendCall} {own : UInt8}
      (hphase : s.phase t = .selected c own ∨ s.phase t = .locked c own) :
      Stepped s (.build t) (s.move t (.built (c.packet s.minosSeq) own))
  | written {t : Sender} {packet : MinosPacket} {own : UInt8}
      (hphase : s.phase t = .built packet own) :
      Stepped s (.write t) { s.move t (.written own) with sent := s.sent ++ [⟨packet, own⟩] }
  | returned {t : Sender} {own : UInt8} (hphase : s.phase t = .written own) :
      Stepped s (.ret t) { s.move t .idle with returned := s.returned ++ [⟨s.minosSeq, own⟩] }
  | setLock {seq : UInt8} {held : Bool} :
      Stepped s (.setLock seq held)
        { s with minosCommandLocks := Function.update s.minosCommandLocks seq held }

theorem step_cases {s s' : Senders} {e : SendStep} (h : s.step e = some s') : Stepped s e s' := by
  cases e with
  | call t c =>
    rw [Senders.step] at h
    split at h
    · next hphase =>
      cases h
      exact .called hphase
    · cases h
  | select t =>
    rw [Senders.step] at h
    split at h
    · next c hphase =>
      cases hlock : s.minosCommandLocks (s.minosSeq + 1) with
      | true =>
        simp only [hlock, if_true] at h
        cases h
        exact .skipped hphase hlock
      | false =>
        simp only [hlock, Bool.false_eq_true, if_false] at h
        cases h
        exact .selected hphase hlock
    · cases h
  | lock t =>
    rw [Senders.step] at h
    split at h
    · next c own hphase =>
      split at h
      · cases h
        exact .locked hphase
      · cases h
    · cases h
  | build t =>
    rw [Senders.step] at h
    split at h
    · next c own hphase =>
      split at h
      · cases h
      · cases h
        exact .built (.inl hphase)
    · next c own hphase =>
      cases h
      exact .built (.inr hphase)
    · cases h
  | write t =>
    rw [Senders.step] at h
    split at h
    · next packet own hphase =>
      cases h
      exact .written hphase
    · cases h
  | ret t =>
    rw [Senders.step] at h
    split at h
    · next own hphase =>
      cases h
      exact .returned hphase
    · cases h
  | setLock seq held =>
    cases h
    exact .setLock

theorem eq_or_eq_other (t t' : Sender) : t' = t ∨ t' = t.other := by
  cases t <;> cases t' <;> simp [Sender.other]

theorem other_ne (t : Sender) : t.other ≠ t := by
  cases t <;> decide

@[simp] theorem other_other (t : Sender) : t.other.other = t := by
  cases t <;> rfl

/-! ## The numbers of the calls -/

/-- What a thread has taken from `minos_seq` is still its value. -/
def SendPhase.Keeps (seq : UInt8) : SendPhase → Prop
  | .idle => True
  | .selecting _ => True
  | .selected _ own => own = seq
  | .locked _ own => own = seq
  | .built packet own => own = seq ∧ packet.seq = own
  | .written own => own = seq

theorem keeps_of_none {p : SendPhase} (h : p.own = none) (seq : UInt8) : p.Keeps seq := by
  cases p with
  | idle | selecting _ => trivial
  | selected _ _ | locked _ _ | built _ _ | written _ => cases h

/-- At most one thread is between its selection and its return, and what it has
taken is right. -/
structure Owned (s : Senders) : Prop where
  keeps : ∀ t, (s.phase t).Keeps s.minosSeq
  alone : ∀ t, (s.phase t).own = none ∨ (s.phase t.other).own = none
  written : ∀ w ∈ s.sent, w.packet.seq = w.own
  returned : ∀ r ∈ s.returned, r.value = r.own

/-- The phases behind a step of `t`, which leaves `seq` in `minos_seq`. -/
theorem Owned.phases {s : Senders} (h : Owned s) {t : Sender} {p : SendPhase} {seq : UInt8}
    (hp : p.Keeps seq) (hseq : seq = s.minosSeq ∨ (s.phase t.other).own = none)
    (halone : p.own = none ∨ (s.phase t.other).own = none) :
    (∀ t', (Function.update s.phase t p t').Keeps seq) ∧
      ∀ t', (Function.update s.phase t p t').own = none ∨
        (Function.update s.phase t p t'.other).own = none := by
  constructor
  · intro t'
    rcases eq_or_eq_other t t' with rfl | rfl
    · rw [Function.update_self]
      exact hp
    · rw [Function.update_of_ne (other_ne t)]
      rcases hseq with rfl | hnone
      · exact h.keeps t.other
      · exact keeps_of_none hnone seq
  · intro t'
    rcases eq_or_eq_other t t' with rfl | rfl
    · rw [Function.update_self, Function.update_of_ne (other_ne _)]
      exact halone
    · rw [other_other, Function.update_self, Function.update_of_ne (other_ne _)]
      exact halone.symm

/-- A thread with a number is alone. -/
theorem Owned.other_none {s : Senders} (h : Owned s) {t : Sender} {own : UInt8}
    (hown : (s.phase t).own = some own) : (s.phase t.other).own = none := by
  rcases h.alone t with hnone | hother
  · rw [hown] at hnone
    cases hnone
  · exact hother

theorem Owned.step {s s' : Senders} {e : SendStep} (h : Owned s)
    (hcond : ∀ t, e = .select t → (s.phase t.other).own = none) (hstep : Stepped s e s') :
    Owned s' := by
  cases hstep with
  | called hphase =>
    obtain ⟨hkeeps, halone⟩ := h.phases (p := .selecting _) trivial (.inl rfl) (.inl rfl)
    exact ⟨hkeeps, halone, h.written, h.returned⟩
  | skipped hphase hheld =>
    obtain ⟨hkeeps, halone⟩ :=
      h.phases (p := .selecting _) trivial (.inr (hcond _ rfl)) (.inl rfl)
    exact ⟨hkeeps, halone, h.written, h.returned⟩
  | selected hphase hfree =>
    obtain ⟨hkeeps, halone⟩ :=
      h.phases (p := .selected _ _) rfl (.inr (hcond _ rfl)) (.inr (hcond _ rfl))
    exact ⟨hkeeps, halone, h.written, h.returned⟩
  | @locked t c own hphase =>
    have hkeep := h.keeps t
    have hother := h.other_none (t := t) (by rw [hphase]; rfl)
    rw [hphase] at hkeep
    obtain ⟨hkeeps, halone⟩ := h.phases (p := .locked c own) hkeep (.inl rfl) (.inr hother)
    exact ⟨hkeeps, halone, h.written, h.returned⟩
  | @built t c own hphase =>
    have hkeep : own = s.minosSeq ∧ (s.phase t.other).own = none := by
      have hkeep := h.keeps t
      rcases hphase with hphase | hphase
      · have hother := h.other_none (t := t) (by rw [hphase]; rfl)
        rw [hphase] at hkeep
        exact ⟨hkeep, hother⟩
      · have hother := h.other_none (t := t) (by rw [hphase]; rfl)
        rw [hphase] at hkeep
        exact ⟨hkeep, hother⟩
    obtain ⟨hkeeps, halone⟩ := h.phases (p := .built (c.packet s.minosSeq) own)
      ⟨hkeep.1, hkeep.1.symm⟩ (.inl rfl) (.inr hkeep.2)
    exact ⟨hkeeps, halone, h.written, h.returned⟩
  | @written t packet own hphase =>
    have hkeep := h.keeps t
    have hother := h.other_none (t := t) (by rw [hphase]; rfl)
    rw [hphase] at hkeep
    obtain ⟨hkeeps, halone⟩ := h.phases (p := .written own) hkeep.1 (.inl rfl) (.inr hother)
    refine ⟨hkeeps, halone, ?_, h.returned⟩
    intro w hw
    rcases List.mem_append.1 hw with hold | hnew
    · exact h.written w hold
    · rw [List.mem_singleton.1 hnew]
      exact hkeep.2
  | @returned t own hphase =>
    have hkeep := h.keeps t
    rw [hphase] at hkeep
    obtain ⟨hkeeps, halone⟩ := h.phases (t := t) (p := .idle) trivial (.inl rfl) (.inl rfl)
    refine ⟨hkeeps, halone, h.written, ?_⟩
    intro r hr
    rcases List.mem_append.1 hr with hold | hnew
    · exact h.returned r hold
    · rw [List.mem_singleton.1 hnew]
      exact hkeep.symm
  | setLock => exact ⟨h.keeps, h.alone, h.written, h.returned⟩

/-! ## Packets in a row -/

/-- The number of packets that a thread still has to write for a selection. -/
def SendPhase.unwritten : SendPhase → ℕ
  | .idle => 0
  | .selecting _ => 0
  | .selected _ _ => 1
  | .locked _ _ => 1
  | .built _ _ => 1
  | .written _ => 0

theorem unwritten_of_none {p : SendPhase} (h : p.own = none) : p.unwritten = 0 := by
  cases p with
  | idle | selecting _ => rfl
  | selected _ _ | locked _ _ | built _ _ | written _ => cases h

def Senders.unwritten (s : Senders) : ℕ := (s.phase .cnc).unwritten + (s.phase .minos).unwritten

theorem unwritten_move (s : Senders) (t : Sender) (p : SendPhase) :
    (s.move t p).unwritten + (s.phase t).unwritten = s.unwritten + p.unwritten := by
  unfold Senders.unwritten Senders.move
  dsimp only
  cases t with
  | cnc =>
    rw [Function.update_self, Function.update_of_ne (by decide)]
    omega
  | minos =>
    rw [Function.update_self, Function.update_of_ne (by decide)]
    omega

/-- Without a lock, the packets are numbered in the order in which they are
written. -/
structure Numbered (s : Senders) : Prop where
  seq : s.minosSeq = UInt8.ofNat (s.sent.length + s.unwritten)
  sent : ∀ i a, s.sent[i]? = some a → a.packet.seq = UInt8.ofNat (i + 1)

theorem Numbered.step {s s' : Senders} {e : SendStep} (h : Numbered s) (howned : Owned s)
    (hfree : ∀ seq, s.minosCommandLocks seq = false) (hstep : Stepped s e s') : Numbered s' := by
  have hcount : ∀ {t : Sender} {p : SendPhase}, p.unwritten = (s.phase t).unwritten →
      (s.move t p).unwritten = s.unwritten := by
    intro t p hp
    have := unwritten_move s t p
    omega
  cases hstep with
  | @called t c hphase =>
    refine ⟨?_, h.sent⟩
    rw [hcount (by rw [hphase]; rfl)]
    exact h.seq
  | skipped hphase hheld =>
    rw [hfree] at hheld
    cases hheld
  | @selected t c hphase hfree =>
    have hmove := unwritten_move s t (.selected c (s.minosSeq + 1))
    rw [hphase] at hmove
    refine ⟨?_, h.sent⟩
    show s.minosSeq + 1 = UInt8.ofNat (s.sent.length + (s.move t (.selected c _)).unwritten)
    have hone : (s.move t (.selected c (s.minosSeq + 1))).unwritten = s.unwritten + 1 := hmove
    rw [hone, h.seq, ← Nat.add_assoc, UInt8.ofNat_add _ 1]
    rfl
  | @locked t c own hphase =>
    refine ⟨?_, h.sent⟩
    show s.minosSeq = UInt8.ofNat (s.sent.length + (s.move t (.locked c own)).unwritten)
    rw [hcount (by rw [hphase]; rfl)]
    exact h.seq
  | @built t c own hphase =>
    refine ⟨?_, h.sent⟩
    have hone : (s.phase t).unwritten = 1 := by
      rcases hphase with hphase | hphase <;> rw [hphase] <;> rfl
    rw [hcount (by rw [hone]; rfl)]
    exact h.seq
  | @written t packet own hphase =>
    have hmove := unwritten_move s t (.written own)
    rw [hphase] at hmove
    have hone : (s.move t (.written own)).unwritten + 1 = s.unwritten := hmove
    have hother : (s.phase t.other).own = none := howned.other_none (by rw [hphase]; rfl)
    have hunwritten : s.unwritten = 1 := by
      have hzero := unwritten_of_none hother
      unfold Senders.unwritten
      cases t with
      | cnc =>
        rw [hphase]
        show 1 + _ = 1
        rw [show (s.phase .minos).unwritten = 0 from hzero]
      | minos =>
        rw [hphase]
        show _ + 1 = 1
        rw [show (s.phase .cnc).unwritten = 0 from hzero]
    have hkeep := howned.keeps t
    rw [hphase] at hkeep
    constructor
    · show s.minosSeq = UInt8.ofNat ((s.sent ++ [_]).length + (s.move t (.written own)).unwritten)
      rw [h.seq, List.length_append, List.length_singleton]
      congr 1
      omega
    · intro i a hi
      rcases Nat.lt_trichotomy i s.sent.length with hlt | rfl | hgt
      · rw [List.getElem?_append_left hlt] at hi
        exact h.sent i a hi
      · rw [List.getElem?_concat_length] at hi
        cases hi
        rw [hkeep.2, hkeep.1, h.seq, hunwritten]
      · rw [List.getElem?_eq_none (by simp; omega)] at hi
        cases hi
  | @returned t own hphase =>
    refine ⟨?_, h.sent⟩
    show s.minosSeq = UInt8.ofNat (s.sent.length + (s.move t .idle).unwritten)
    rw [hcount (by rw [hphase]; rfl)]
    exact h.seq
  | setLock => exact ⟨h.seq, h.sent⟩

/-- Numbers that are less than 256 apart are different as bytes. -/
theorem ofNat_ne_of_lt {i j : ℕ} (hlt : i < j) (h : j - i < 256) :
    UInt8.ofNat i ≠ UInt8.ofNat j := by
  intro heq
  have hmod := congrArg UInt8.toNat heq
  rw [UInt8.toNat_ofNat', UInt8.toNat_ofNat'] at hmod
  omega

/-! ## Runs -/

/-- The increments of `minos_seq` in a run. -/
def increments (steps : List SendStep) : ℕ :=
  steps.countP fun e =>
    match e with
    | .select _ => true
    | _ => false

theorem minosSeq_of_run {steps : List SendStep} {s : Senders} (h : Senders.run steps = some s) :
    s.minosSeq = UInt8.ofNat (increments steps) := by
  unfold Senders.run at h
  induction steps using List.reverseRecOn generalizing s with
  | nil =>
    cases h
    rfl
  | append_singleton steps e ih =>
    obtain ⟨s₀, hfront, hlast⟩ := Runs.run_concat.1 h
    have hseq := ih hfront
    unfold increments at hseq ⊢
    rw [List.countP_append]
    cases step_cases hlast with
    | called _ => exact hseq
    | skipped _ _ =>
      show s₀.minosSeq + 1 = _
      rw [hseq]
      exact (UInt8.ofNat_add _ 1).symm
    | selected _ _ =>
      show s₀.minosSeq + 1 = _
      rw [hseq]
      exact (UInt8.ofNat_add _ 1).symm
    | locked _ => exact hseq
    | built _ => exact hseq
    | written _ => exact hseq
    | returned _ => exact hseq
    | setLock => exact hseq

/-- A later read of `minos_seq` finds the same number exactly if the increments
in between are a multiple of 256. -/
theorem minosSeq_eq_iff {pre mid : List SendStep} {s s' : Senders}
    (hpre : Senders.run pre = some s) (hmid : Senders.run (pre ++ mid) = some s') :
    s'.minosSeq = s.minosSeq ↔ increments mid % 256 = 0 := by
  have hsum : increments (pre ++ mid) = increments pre + increments mid := List.countP_append
  rw [minosSeq_of_run hpre, minosSeq_of_run hmid, hsum, ← UInt8.toNat_inj, UInt8.toNat_ofNat',
    UInt8.toNat_ofNat']
  omega

/-- In a run in which no thread increments `minos_seq` while the other is
between its selection and its return, every call writes and returns the number
that it selected, and the numbers of 255 packets in a row are different if no
lock is held. -/
theorem own_numbers_of_undisturbed {steps : List SendStep} {s : Senders}
    (hrun : Senders.run steps = some s) (hcond : Undisturbed steps) : OwnNumbers steps s := by
  have howned : ∀ pre s, pre <+: steps → Senders.run pre = some s → Owned s := by
    intro pre s₁ hpre hrun₁
    refine Runs.invariant Owned ?_ ?_ hpre hrun₁
    · exact ⟨fun _ => trivial, fun _ => .inl rfl, fun w hw => absurd hw List.not_mem_nil,
        fun r hr => absurd hr List.not_mem_nil⟩
    · intro pre e s₂ s₃ hpre hrun₂ h hstep
      refine h.step ?_ (step_cases hstep)
      rintro t rfl
      exact hcond pre t s₂ hpre hrun₂
  have hlast := howned steps s (List.prefix_refl _) hrun
  refine ⟨hlast.written, hlast.returned, ?_⟩
  intro hfree i j a b hlt hnear ha hb
  have hnumbered : Numbered s := by
    refine Runs.invariant Numbered ⟨rfl, fun i a hi => ?_⟩ ?_ (List.prefix_refl steps) hrun
    · rw [show Senders.init.sent = [] from rfl, List.getElem?_nil] at hi
      cases hi
    · intro pre e s₂ s₃ hpre hrun₂ h hstep
      have hfront := (List.prefix_append pre [e]).trans hpre
      exact h.step (howned pre s₂ hfront hrun₂) (hfree pre s₂ hfront hrun₂) (step_cases hstep)
  rw [hnumbered.sent i a ha, hnumbered.sent j b hb]
  exact ofNat_ne_of_lt (by omega) (by omega)

/-- A motor command and then a poll. -/
def oneAfterTheOther : List SendStep :=
  [.call .cnc ⟨0x01, 0x6464, false⟩, .call .minos ⟨0xB0, 0, false⟩, .select .cnc, .build .cnc,
    .write .cnc, .ret .cnc, .select .minos, .build .minos, .write .minos, .ret .minos]

theorem own_numbers_of_undisturbed_one :
    ∃ s, Senders.run oneAfterTheOther = some s ∧ OwnNumbers oneAfterTheOther s := by
  obtain ⟨s, hrun⟩ : ∃ s, Senders.run oneAfterTheOther = some s := ⟨_, rfl⟩
  refine ⟨s, hrun, own_numbers_of_undisturbed hrun ?_⟩
  have hchecked : Runs.checked Senders.step (fun s e =>
      match e with
      | .select t => (s.phase t.other).own == none
      | _ => true) Senders.init oneAfterTheOther = true := by decide
  intro pre t s hpre hrun
  have hquiet := Runs.of_checked hchecked hpre hrun
  exact beq_iff_eq.1 hquiet

/-- The poll is selected between the selection and the packet of the motor
command. -/
def oneInTheOther : List SendStep :=
  [.call .cnc ⟨0x01, 0x6464, false⟩, .call .minos ⟨0xB0, 0, false⟩, .select .cnc, .select .minos,
    .build .cnc, .build .minos, .write .cnc, .write .minos, .ret .cnc, .ret .minos]

/-- Both packets carry the number of the poll. -/
theorem own_numbers_lost :
    (Senders.run oneInTheOther).map (fun s => s.sent.map fun w => (w.packet.seq, w.own)) =
        some [(2, 1), (2, 2)] ∧
      ¬∀ steps s, Senders.run steps = some s → OwnNumbers steps s := by
  refine ⟨by decide, ?_⟩
  intro hall
  have hsent := (hall oneInTheOther _ rfl).written ⟨⟨0xAA, 2, 0x01, 0x64, 0x64⟩, 1⟩ (by decide)
  exact absurd hsent (by decide)

end MinotaurRobot.Host
