import MinotaurRobot.Mcu.Runs

/-!
# The wait in `printString`

`printString` with its loop variable, one statement at a time, and with any
interrupts between the statements.  An interrupt sets flags and moves the
encoder counts, and takes no byte out of `TX_DATA_BUFFER`
(`interrupt_frame`).  The code that does runs in the main loop, which waits
for `printString`.

`Pushed` is the invariant: the buffer holds what it held before and the
characters in front of the loop variable.  `printString_of_returned` connects
the statements with the function `printString` of
`MinotaurRobot.Mcu.MainLoop`.
-/

namespace MinotaurRobot.Mcu

/-! ## The statements -/

/-- The next statement of `printString`. -/
inductive PrintPc where
  /-- `while(string[j] != '\0')`. -/
  | test
  /-- `while(BUFF_status(&TX_DATA_BUFFER) == BUFF_FULL);`. -/
  | wait
  /-- `BUFF_push(&TX_DATA_BUFFER, string[j]); j++;`. -/
  | push
  | returned
  deriving DecidableEq, Repr

structure Printing where
  pc : PrintPc
  j : ℕ
  state : State

/-- The call of `printString`. -/
def Printing.start (s : State) : Printing := ⟨.test, 0, s⟩

/-- One statement.  A round of the wait is a statement, too. -/
def Printing.step (string : ℕ → UInt8) (r : Printing) : Printing :=
  match r.pc with
  | .test => { r with pc := if string r.j ≠ 0 then .wait else .returned }
  | .wait => if buffStatus r.state.txDataBuffer = .full then r else { r with pc := .push }
  | .push =>
    { pc := .test
      j := r.j + 1
      state := { r.state with
        txDataBuffer := (buffPush r.state.txDataBuffer (string r.j)).1 } }
  | .returned => r

/-- Some interrupts. -/
def Printing.interrupts (r : Printing) (served : List Interrupt) : Printing :=
  { r with state := served.foldl State.interrupt r.state }

/-- After `k` statements.  `schedule i` are the interrupts in front of the
statement number `i`. -/
def Printing.after (string : ℕ → UInt8) : ℕ → (ℕ → List Interrupt) → Printing → Printing
  | 0, _, r => r
  | k + 1, schedule, r =>
    after string k (fun i => schedule (i + 1)) ((r.interrupts (schedule 0)).step string)

/-- The length of a string is `n`. -/
def TerminatedAt (string : ℕ → UInt8) (n : ℕ) : Prop :=
  (∀ i < n, string i ≠ 0) ∧ string n = 0

/-- The characters in front of the index `n`. -/
def chars (string : ℕ → UInt8) (n : ℕ) : List UInt8 := (List.range n).map string

/-- `printString` returns, and has pushed the `n` characters of the string in
order. -/
def Prints (string : ℕ → UInt8) (n : ℕ) (s : State) (schedule : ℕ → List Interrupt) : Prop :=
  ∃ k, (Printing.after string k schedule (.start s)).pc = .returned ∧
    (Printing.after string k schedule (.start s)).state.txDataBuffer.contents =
      s.txDataBuffer.contents ++ chars string n

/-! ## What a statement keeps -/

theorem interrupts_tx (s : State) (served : List Interrupt) :
    (served.foldl State.interrupt s).txDataBuffer = s.txDataBuffer := by
  induction served generalizing s with
  | nil => rfl
  | cons i served ih =>
    rw [List.foldl_cons, ih]
    exact (interrupt_frame s i).1

theorem chars_succ (string : ℕ → UInt8) (j : ℕ) :
    chars string (j + 1) = chars string j ++ [string j] := by
  unfold chars
  rw [List.range_succ, List.map_append, List.map_singleton]

theorem chars_length (string : ℕ → UInt8) (n : ℕ) : (chars string n).length = n := by
  unfold chars
  rw [List.length_map, List.length_range]

/-- The invariant of a call for a string of length `n`: the buffer is the one
at the call with the characters in front of `j` behind it. -/
structure Pushed (string : ℕ → UInt8) (n : ℕ) (tx : Buffer) (r : Printing) : Prop where
  pushed : printString tx (chars string r.j) = some r.state.txDataBuffer
  inside : r.j ≤ n
  char : r.pc = .wait ∨ r.pc = .push → r.j < n
  room : r.pc = .push → buffStatus r.state.txDataBuffer ≠ .full
  done : r.pc = .returned → r.j = n

/-- A string is printed as far as it fits. -/
theorem printString_append (tx : Buffer) (xs ys : List UInt8) :
    printString tx (xs ++ ys) = (printString tx xs).bind fun tx => printString tx ys := by
  induction xs generalizing tx with
  | nil => rfl
  | cons c xs ih =>
    rw [List.cons_append, printString, printString]
    split
    · rfl
    · exact ih _

theorem Pushed.interrupts {string : ℕ → UInt8} {n : ℕ} {tx : Buffer} {r : Printing}
    (h : Pushed string n tx r) (served : List Interrupt) :
    Pushed string n tx (r.interrupts served) := by
  have htx : (r.interrupts served).state.txDataBuffer = r.state.txDataBuffer :=
    interrupts_tx r.state served
  refine ⟨?_, h.inside, h.char, ?_, h.done⟩
  · rw [htx]
    exact h.pushed
  · rw [htx]
    exact h.room

theorem Pushed.step {string : ℕ → UInt8} {n : ℕ} {tx : Buffer} {r : Printing}
    (h : Pushed string n tx r) (hstring : TerminatedAt string n) :
    Pushed string n tx (r.step string) := by
  unfold Printing.step
  cases hpc : r.pc with
  | test =>
    dsimp only
    by_cases hchar : string r.j ≠ 0
    · have hlt : r.j < n := by
        rcases Nat.lt_or_eq_of_le h.inside with hlt | heq
        · exact hlt
        · rw [heq] at hchar
          exact absurd hstring.2 hchar
      rw [if_pos hchar]
      exact ⟨h.pushed, h.inside, fun _ => hlt, nofun, nofun⟩
    · rw [if_neg hchar]
      refine ⟨h.pushed, h.inside, nofun, nofun, fun _ => ?_⟩
      rcases Nat.lt_or_eq_of_le h.inside with hlt | heq
      · exact absurd (hstring.1 r.j hlt) hchar
      · exact heq
  | wait =>
    dsimp only
    split
    · exact h
    · next hfull => exact ⟨h.pushed, h.inside, fun _ => h.char (.inl hpc), fun _ => hfull, nofun⟩
  | push =>
    refine ⟨?_, h.char (.inr hpc), nofun, nofun, nofun⟩
    show printString tx (chars string (r.j + 1)) = some (buffPush r.state.txDataBuffer _).1
    rw [chars_succ, printString_append, h.pushed, Option.bind_some, printString,
      if_neg (h.room hpc)]
    rfl
  | returned => exact h

theorem Pushed.after {string : ℕ → UInt8} {n : ℕ} {tx : Buffer} {r : Printing}
    (h : Pushed string n tx r) (hstring : TerminatedAt string n) (k : ℕ)
    (schedule : ℕ → List Interrupt) : Pushed string n tx (Printing.after string k schedule r) := by
  induction k generalizing schedule r with
  | zero => exact h
  | succ k ih => exact ih ((h.interrupts (schedule 0)).step hstring) _

theorem pushed_start (string : ℕ → UInt8) (n : ℕ) (s : State) :
    Pushed string n s.txDataBuffer (.start s) :=
  ⟨rfl, Nat.zero_le n, nofun, nofun, nofun⟩

/-- A call that has returned has done what the function `printString` computes. -/
theorem printString_of_returned {string : ℕ → UInt8} {n : ℕ} (hstring : TerminatedAt string n)
    {s : State} {k : ℕ} {schedule : ℕ → List Interrupt}
    (h : (Printing.after string k schedule (.start s)).pc = .returned) :
    printString s.txDataBuffer (chars string n) =
      some (Printing.after string k schedule (.start s)).state.txDataBuffer := by
  have hpushed := (pushed_start string n s).after hstring k schedule
  have hdone := hpushed.done h
  rw [← hdone]
  exact hpushed.pushed

/-- A call returns only if the string fits. -/
theorem fits_of_returned {string : ℕ → UInt8} {n : ℕ} (hstring : TerminatedAt string n)
    {s : State} {k : ℕ} {schedule : ℕ → List Interrupt}
    (h : (Printing.after string k schedule (.start s)).pc = .returned) :
    n ≤ s.txDataBuffer.free := by
  have hprinted := printString_of_returned hstring h
  rw [printString_eq, chars_length] at hprinted
  by_contra hlong
  rw [if_neg hlong] at hprinted
  cases hprinted

/-! ## The wait -/

/-- With room for the whole string the wait finds the buffer not full. -/
theorem Pushed.not_full {string : ℕ → UInt8} {n : ℕ} {tx : Buffer} {r : Printing}
    (h : Pushed string n tx r) (hfits : n ≤ tx.free) (hj : r.j < n) :
    buffStatus r.state.txDataBuffer ≠ .full := by
  have hpushed := h.pushed
  rw [printString_eq, chars_length, if_pos (by omega), Option.some.injEq] at hpushed
  rw [ne_eq, buffStatus_eq_full_iff, ← hpushed, pushAll_free, chars_length]
  omega

/-- A bound for the statements that are left. -/
def Printing.left (n : ℕ) (r : Printing) : ℕ :=
  match r.pc with
  | .test => 3 * (n - r.j) + 1
  | .wait => 3 * (n - r.j)
  | .push => 3 * (n - r.j) - 1
  | .returned => 0

theorem Pushed.left_step {string : ℕ → UInt8} {n : ℕ} {tx : Buffer} {r : Printing}
    (h : Pushed string n tx r) (hfits : n ≤ tx.free) (hpc : r.pc ≠ .returned) :
    (r.step string).left n < r.left n := by
  unfold Printing.step Printing.left
  cases hr : r.pc with
  | test =>
    dsimp only
    by_cases hchar : string r.j ≠ 0
    · rw [if_pos hchar]
      dsimp only
      omega
    · rw [if_neg hchar]
      dsimp only
      omega
  | wait =>
    have hj := h.char (.inl hr)
    dsimp only
    rw [if_neg (h.not_full hfits hj)]
    dsimp only
    omega
  | push =>
    have hj := h.char (.inr hr)
    dsimp only
    omega
  | returned => exact absurd hr hpc

theorem Pushed.returns {string : ℕ → UInt8} {n : ℕ} {tx : Buffer} {r : Printing}
    (h : Pushed string n tx r) (hstring : TerminatedAt string n) (hfits : n ≤ tx.free)
    (schedule : ℕ → List Interrupt) :
    ∃ k, (Printing.after string k schedule r).pc = .returned := by
  induction hleft : r.left n using Nat.strongRecOn generalizing r schedule with
  | _ left ih =>
    by_cases hpc : r.pc = .returned
    · exact ⟨0, hpc⟩
    · have hserved := h.interrupts (schedule 0)
      have hless := hserved.left_step hfits hpc
      rw [show (r.interrupts (schedule 0)).left n = left from hleft] at hless
      obtain ⟨k, hk⟩ :=
        ih _ hless (hserved.step hstring) (fun i => schedule (i + 1)) rfl
      exact ⟨k + 1, hk⟩

/-- `printString` returns with the string in the buffer exactly if the string
fits into the free space at the call, whatever interrupts come. -/
theorem prints_iff {string : ℕ → UInt8} {n : ℕ} (hstring : TerminatedAt string n) (s : State)
    (schedule : ℕ → List Interrupt) :
    Prints string n s schedule ↔ n ≤ s.txDataBuffer.free := by
  constructor
  · rintro ⟨k, hpc, -⟩
    exact fits_of_returned hstring hpc
  · intro hfits
    obtain ⟨k, hk⟩ := (pushed_start string n s).returns hstring hfits schedule
    refine ⟨k, hk, ?_⟩
    have hprinted := printString_of_returned hstring hk
    rw [printString_eq, chars_length, if_pos hfits, Option.some.injEq] at hprinted
    rw [← hprinted, pushAll_contents, List.take_of_length_le]
    rw [chars_length]
    exact hfits

/-- The string `"1: "`. -/
def lineStart (i : ℕ) : UInt8 := [49, 58, 32, 0].getD i 0

theorem lineStart_terminated : TerminatedAt lineStart 3 := by
  refine ⟨?_, rfl⟩
  intro i hi
  have hcases : i = 0 ∨ i = 1 ∨ i = 2 := by omega
  rcases hcases with rfl | rfl | rfl <;> decide

theorem prints_iff_init : Prints lineStart 3 State.init fun _ => [.u1tx] :=
  (prints_iff lineStart_terminated State.init fun _ => [.u1tx]).2 (by decide)

/-- With 499 bytes in the buffer the call for `"1: "` waits forever, also with
an interrupt of the transmitter in front of every statement. -/
theorem printString_full_waits :
    (pushAll Buffer.init (List.replicate 499 0xAA)).contents.length = 499 ∧
      ¬Prints lineStart 3
        { State.init with txDataBuffer := pushAll Buffer.init (List.replicate 499 0xAA) }
        (fun _ => [.u1tx]) := by
  have hlength : (List.replicate 499 (0xAA : UInt8)).length = 499 := List.length_replicate
  have hfree : Buffer.init.free = 499 := rfl
  constructor
  · rw [pushAll_contents, contents_init, List.nil_append, List.length_take, hlength, hfree]
    rfl
  · rintro ⟨k, hpc, -⟩
    have hfits := fits_of_returned lineStart_terminated hpc
    dsimp only at hfits
    rw [pushAll_free, hlength, hfree] at hfits
    omega

end MinotaurRobot.Mcu
