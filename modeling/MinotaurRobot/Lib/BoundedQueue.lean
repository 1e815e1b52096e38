import Mathlib.Tactic.Common

/-!
# Bounded queues

A queue of at most `capacity` elements, with three calls: `push` refuses an
element when the queue is full, `pop` takes the oldest element, and `status`
tells the empty and the full queue from all others.

A data structure implements the queue if a relation between its states and the
contents of the queue is kept by every call, and the call returns the code of
the answer of the queue.  `calls_simulates` is the induction that takes this to
all sequences of calls.  `conserves` is what makes it a queue: the elements
that were accepted are those delivered and those still stored, in order.
-/

namespace MinotaurRobot.Lib.BoundedQueue

/-! ## Sequences of calls -/

section Calls

variable {S T C Q R : Type}

/-- Calls one after the other.  Returns the last state and what each call
returned. -/
def calls (f : S → C → S × R) : S → List C → S × List R
  | s, [] => (s, [])
  | s, c :: cs => ((calls f (f s c).1 cs).1, (f s c).2 :: (calls f (f s c).1 cs).2)

/-- What every call keeps, all sequences of calls keep. -/
theorem calls_simulates {f : S → C → S × R} {g : T → C → T × Q} {rel : S → T → Prop} {code : Q → R}
    (hstep : ∀ s t c, rel s t → rel (f s c).1 (g t c).1 ∧ (f s c).2 = code (g t c).2)
    {s : S} {t : T} (h : rel s t) (cs : List C) :
    rel (calls f s cs).1 (calls g t cs).1 ∧ (calls f s cs).2 = (calls g t cs).2.map code := by
  induction cs generalizing s t with
  | nil => exact ⟨h, rfl⟩
  | cons c cs ih =>
    obtain ⟨hnext, hcode⟩ := hstep s t c h
    obtain ⟨hlast, hcodes⟩ := ih hnext
    refine ⟨hlast, ?_⟩
    show (f s c).2 :: (calls f (f s c).1 cs).2 = _
    rw [hcode, hcodes]
    rfl

end Calls

/-! ## The queue -/

variable {α : Type}

inductive Call (α : Type) where
  | push (a : α)
  | pop
  | status

inductive Level where
  | empty
  | full
  | normal
  deriving DecidableEq, Repr

inductive Answer (α : Type) where
  | pushed (accepted : Bool)
  | popped (a : Option α)
  | status (level : Level)

def level (capacity : Nat) (q : List α) : Level :=
  if q.length = 0 then .empty else if q.length = capacity then .full else .normal

def step (capacity : Nat) (q : List α) : Call α → List α × Answer α
  | .push a => if q.length = capacity then (q, .pushed false) else (q ++ [a], .pushed true)
  | .pop => (q.tail, .popped q.head?)
  | .status => (q, .status (level capacity q))

def run (capacity : Nat) (cs : List (Call α)) : List α × List (Answer α) :=
  calls (step capacity) [] cs

/-- The elements of the pushes that were not refused. -/
def accepted (trace : List (Call α × Answer α)) : List α :=
  trace.filterMap fun
    | (.push a, .pushed true) => some a
    | _ => none

/-- The elements that pops returned. -/
def delivered (answers : List (Answer α)) : List α :=
  answers.filterMap fun
    | .popped a => a
    | _ => none

/-- One call: what was stored and what comes in is what goes out and what is
stored. -/
theorem step_conserves (capacity : Nat) (q : List α) (c : Call α) :
    q ++ accepted [(c, (step capacity q c).2)] =
      delivered [(step capacity q c).2] ++ (step capacity q c).1 := by
  cases c with
  | push a =>
    rw [step]
    split_ifs with hfull
    · exact List.append_nil q
    · rfl
  | pop =>
    cases q with
    | nil => rfl
    | cons b q => exact List.append_nil (b :: q)
  | status => exact List.append_nil q

theorem calls_conserves (capacity : Nat) (q : List α) (cs : List (Call α)) :
    q ++ accepted (cs.zip (calls (step capacity) q cs).2) =
      delivered (calls (step capacity) q cs).2 ++ (calls (step capacity) q cs).1 := by
  induction cs generalizing q with
  | nil => exact List.append_nil q
  | cons c cs ih =>
    have hcall := step_conserves capacity q c
    have hrest := ih (step capacity q c).1
    have haccepted : accepted ((c :: cs).zip (calls (step capacity) q (c :: cs)).2) =
        accepted [(c, (step capacity q c).2)] ++
          accepted (cs.zip (calls (step capacity) (step capacity q c).1 cs).2) :=
      List.filterMap_append (l := [(c, (step capacity q c).2)])
    have hdelivered : delivered (calls (step capacity) q (c :: cs)).2 =
        delivered [(step capacity q c).2] ++
          delivered (calls (step capacity) (step capacity q c).1 cs).2 :=
      List.filterMap_append (l := [(step capacity q c).2])
    rw [haccepted, hdelivered, ← List.append_assoc, hcall, List.append_assoc, hrest,
      List.append_assoc]
    rfl

/-- From the empty queue: the accepted elements are delivered in order, and the
rest of them is stored. -/
theorem conserves (capacity : Nat) (cs : List (Call α)) :
    accepted (cs.zip (run capacity cs).2) = delivered (run capacity cs).2 ++ (run capacity cs).1 :=
  calls_conserves capacity [] cs

end MinotaurRobot.Lib.BoundedQueue
