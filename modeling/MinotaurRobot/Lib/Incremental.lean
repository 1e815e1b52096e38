import Mathlib.Tactic.Common

/-!
# Incremental parsers

A machine takes units off the front of a buffer.  A unit that it has found
stays where it is when more input comes (`Machine.mono`), and so it does not
matter into which segments a stream is cut: `feed_eq` says that the segments
leave what the whole stream would leave.

A parser is a machine that collects items, and that may find the buffer
malformed.  `Format` says which byte strings stand for which items.  With it,
`parse_eq_ok_iff` is a grammar of everything that the parser accepts.
-/

namespace MinotaurRobot.Lib.Incremental

variable {α β ε σ ω : Type}

/-! ## Separators -/

section Separators

variable [DecidableEq α]

/-- What is in front of the first occurrence of a separator, and what is
behind it. -/
def partition (sep : List α) : List α → Option (List α × List α)
  | [] => if sep = [] then some ([], []) else none
  | x :: xs =>
    if sep <+: x :: xs then some ([], (x :: xs).drop sep.length)
    else (partition sep xs).map fun r => (x :: r.1, r.2)

theorem partition_eq_some {sep xs head tail : List α} (h : partition sep xs = some (head, tail)) :
    xs = head ++ (sep ++ tail) := by
  induction xs generalizing head with
  | nil =>
    rw [partition] at h
    split_ifs at h with hsep
    simp at h
    simp [h, hsep]
  | cons x xs ih =>
    rw [partition] at h
    split_ifs at h with hsep
    · simp only [Option.some.injEq, Prod.mk.injEq] at h
      obtain ⟨rest, hrest⟩ := hsep
      rw [← h.1, ← h.2, ← hrest, List.drop_left, List.nil_append]
    · cases hrest : partition sep xs with
      | none => simp [hrest] at h
      | some r =>
        simp only [hrest, Option.map_some, Option.some.injEq, Prod.mk.injEq] at h
        rw [← h.1, ih (by rw [hrest, ← h.2]), List.cons_append]

/-- An occurrence that was found is the first one whatever follows. -/
theorem partition_append {sep xs head tail : List α} (h : partition sep xs = some (head, tail))
    (ys : List α) : partition sep (xs ++ ys) = some (head, tail ++ ys) := by
  induction xs generalizing head with
  | nil =>
    rw [partition] at h
    split_ifs at h with hsep
    simp only [Option.some.injEq, Prod.mk.injEq] at h
    rw [← h.1, ← h.2, hsep]
    cases ys <;> simp [partition]
  | cons x xs ih =>
    rw [partition] at h
    rw [List.cons_append, partition]
    split_ifs at h with hsep
    · simp only [Option.some.injEq, Prod.mk.injEq] at h
      have hlong : sep <+: x :: (xs ++ ys) := hsep.trans (List.prefix_append (x :: xs) ys)
      rw [if_pos hlong, ← h.1, ← h.2, ← List.cons_append,
        List.drop_append_of_le_length hsep.length_le]
    · cases hrest : partition sep xs with
      | none => simp [hrest] at h
      | some r =>
        simp only [hrest, Option.map_some, Option.some.injEq, Prod.mk.injEq] at h
        have hfound := ih (by rw [hrest, ← h.2])
        have hfront : ¬ sep <+: x :: (xs ++ ys) := by
          intro hlong
          apply hsep
          -- the occurrence in `xs` leaves room for `sep` at the front
          have hlen : sep.length ≤ (x :: xs).length := by
            have := congrArg List.length (partition_eq_some hrest)
            simp at this
            simp
            omega
          rw [← List.cons_append] at hlong
          exact List.prefix_of_prefix_length_le hlong (List.prefix_append (x :: xs) ys) hlen
        rw [if_neg hfront, hfound, ← h.1]
        rfl

/-- A separator of one element is found at its first place. -/
theorem partition_of_not_mem {c : α} {head : List α} (h : c ∉ head) (tail : List α) :
    partition [c] (head ++ c :: tail) = some (head, tail) := by
  induction head with
  | nil => simp [partition, List.cons_prefix_cons]
  | cons x head ih =>
    rw [List.mem_cons, not_or] at h
    have hfront : ¬ [c] <+: x :: (head ++ c :: tail) := by simp [List.cons_prefix_cons, h.1]
    rw [List.cons_append, partition, if_neg hfront, ih h.2]
    rfl

theorem not_mem_of_partition {c : α} {xs head tail : List α}
    (h : partition [c] xs = some (head, tail)) : c ∉ head := by
  induction xs generalizing head with
  | nil => simp [partition] at h
  | cons x xs ih =>
    rw [partition] at h
    split_ifs at h with hfront
    · simp only [Option.some.injEq, Prod.mk.injEq] at h
      rw [← h.1]
      exact List.not_mem_nil
    · cases hrest : partition [c] xs with
      | none => simp [hrest] at h
      | some r =>
        simp only [hrest, Option.map_some, Option.some.injEq, Prod.mk.injEq] at h
        have hc : c ≠ x := by
          intro heq
          apply hfront
          simp [List.cons_prefix_cons, heq]
        rw [← h.1, List.mem_cons, not_or]
        exact ⟨hc, ih (by rw [hrest, ← h.2])⟩

theorem partition_singleton_eq_none {c : α} {xs : List α} : partition [c] xs = none ↔ c ∉ xs := by
  constructor
  · intro h hmem
    obtain ⟨head, tail, rfl, hnot⟩ := List.eq_append_cons_of_mem hmem
    rw [partition_of_not_mem hnot] at h
    cases h
  · intro h
    cases hfound : partition [c] xs with
    | none => rfl
    | some r =>
      apply absurd _ h
      rw [partition_eq_some hfound]
      simp

end Separators

/-! ## Machines -/

structure Machine (σ α : Type) where
  /-- The next unit: the state behind it, and its length.  `none` when the
  buffer does not start with a whole unit. -/
  step : σ → List α → Option (σ × ℕ)
  pos : ∀ {s xs s' n}, step s xs = some (s', n) → 0 < n
  le : ∀ {s xs s' n}, step s xs = some (s', n) → n ≤ xs.length
  mono : ∀ {s xs r}, step s xs = some r → ∀ ys, step s (xs ++ ys) = some r

namespace Machine

variable (m : Machine σ α)

/-- At most `fuel` units. -/
def runFor : ℕ → σ → List α → σ × List α
  | 0, s, xs => (s, xs)
  | fuel + 1, s, xs =>
    match m.step s xs with
    | none => (s, xs)
    | some (s', n) => runFor fuel s' (xs.drop n)

/-- All units of a buffer, and what is left of it. -/
def run (s : σ) (xs : List α) : σ × List α := m.runFor xs.length s xs

/-- A segment comes in behind what is left. -/
def receive (c : σ × List α) (segment : List α) : σ × List α := m.run c.1 (c.2 ++ segment)

def feed (c : σ × List α) (segments : List (List α)) : σ × List α := segments.foldl m.receive c

variable {m}

/-- A unit is not empty, so the length of the buffer is fuel enough. -/
theorem runFor_of_le {fuel : ℕ} {s : σ} {xs : List α} (h : xs.length ≤ fuel) :
    m.runFor fuel s xs = m.run s xs := by
  suffices hsame : ∀ (fuel fuel' : ℕ) (s : σ) (xs : List α), xs.length ≤ fuel →
      xs.length ≤ fuel' → m.runFor fuel s xs = m.runFor fuel' s xs by
    exact hsame fuel xs.length s xs h (Nat.le_refl _)
  intro fuel
  induction fuel with
  | zero =>
    intro fuel' s xs h _
    have hnil : m.step s xs = none := by
      cases hstep : m.step s xs with
      | none => rfl
      | some r =>
        have hpos := m.pos hstep
        have hle := m.le hstep
        omega
    cases fuel' with
    | zero => rfl
    | succ fuel' => rw [runFor, runFor, hnil]
  | succ fuel ih =>
    intro fuel' s xs h h'
    cases hstep : m.step s xs with
    | none => cases fuel' <;> simp [runFor, hstep]
    | some r =>
      have hpos := m.pos hstep
      have hle := m.le hstep
      cases fuel' with
      | zero => omega
      | succ fuel' =>
        simp only [runFor, hstep]
        apply ih
        · rw [List.length_drop]; omega
        · rw [List.length_drop]; omega

theorem run_of_step {s s' : σ} {xs : List α} {n : ℕ} (h : m.step s xs = some (s', n)) :
    m.run s xs = m.run s' (xs.drop n) := by
  have hpos := m.pos h
  have hle := m.le h
  have hfuel : xs.length = (xs.length - 1) + 1 := by omega
  rw [run, hfuel, runFor, h]
  apply runFor_of_le
  rw [List.length_drop]
  omega

theorem run_of_none {s : σ} {xs : List α} (h : m.step s xs = none) : m.run s xs = (s, xs) := by
  rw [run]
  cases xs.length with
  | zero => rfl
  | succ fuel => rw [runFor, h]

/-- What a unit keeps, all units keep. -/
theorem run_rule {motive : σ → List α → σ × List α → Prop}
    (stuck : ∀ s xs, m.step s xs = none → motive s xs (s, xs))
    (unit : ∀ s xs s' n, m.step s xs = some (s', n) →
      motive s' (xs.drop n) (m.run s' (xs.drop n)) → motive s xs (m.run s' (xs.drop n)))
    (s : σ) (xs : List α) : motive s xs (m.run s xs) := by
  induction hlen : xs.length using Nat.strongRecOn generalizing s xs with
  | _ len ih =>
    cases hstep : m.step s xs with
    | none =>
      rw [run_of_none hstep]
      exact stuck s xs hstep
    | some r =>
      have hpos := m.pos hstep
      have hle := m.le hstep
      rw [run_of_step hstep]
      apply unit s xs r.1 r.2 hstep
      apply ih (xs.drop r.2).length
      · rw [List.length_drop]; omega
      · rfl

/-- A run takes all whole units. -/
theorem step_run (s : σ) (xs : List α) : m.step (m.run s xs).1 (m.run s xs).2 = none :=
  run_rule (motive := fun _ _ c => m.step c.1 c.2 = none) (fun _ _ h => h)
    (fun _ _ _ _ _ ih => ih) s xs

/-- What comes behind the buffer does not change the units that are found. -/
theorem run_append (s : σ) (xs ys : List α) :
    m.run s (xs ++ ys) = m.receive (m.run s xs) ys := by
  refine run_rule (motive := fun s xs c => m.run s (xs ++ ys) = m.receive c ys) ?_ ?_ s xs
  · intro s xs _
    rfl
  · intro s xs s' n hstep ih
    rw [run_of_step (m.mono hstep ys), List.drop_append_of_le_length (m.le hstep), ih]

@[simp] theorem feed_nil (c : σ × List α) : m.feed c [] = c := rfl

@[simp] theorem feed_cons (c : σ × List α) (segment : List α) (segments : List (List α)) :
    m.feed c (segment :: segments) = m.feed (m.receive c segment) segments := rfl

/-- Segments leave what the whole stream leaves. -/
theorem feed_eq {c : σ × List α} (h : m.step c.1 c.2 = none) (segments : List (List α)) :
    m.feed c segments = m.receive c segments.flatten := by
  induction segments generalizing c with
  | nil => simp [receive, run_of_none h]
  | cons segment segments ih =>
    have hstuck : m.step (m.receive c segment).1 (m.receive c segment).2 = none := step_run _ _
    rw [feed_cons, ih hstuck, List.flatten_cons]
    show _ = m.run c.1 (c.2 ++ (segment ++ segments.flatten))
    rw [← List.append_assoc, run_append]
    rfl

end Machine

/-! ## Parsers -/

/-- What the front of a buffer is. -/
inductive Front (β ε : Type) where
  | more
  | item (b : β) (size : ℕ)
  | bad (e : ε)
  deriving DecidableEq, Repr

structure Parser (α β ε : Type) where
  front : List α → Front β ε
  size_pos : ∀ {xs b n}, front xs = .item b n → 0 < n
  size_le : ∀ {xs b n}, front xs = .item b n → n ≤ xs.length
  item_append : ∀ {xs b n}, front xs = .item b n → ∀ ys, front (xs ++ ys) = .item b n
  bad_append : ∀ {xs e}, front xs = .bad e → ∀ ys, front (xs ++ ys) = .bad e

namespace Parser

variable (p : Parser α β ε)

/-- The loop of a parser, with at most `fuel` rounds.  A malformed front is an
exception, and the items that were found are lost. -/
def parseFor : ℕ → List β → List α → Except ε (List β × List α)
  | 0, items, xs => .ok (items, xs)
  | fuel + 1, items, xs =>
    match p.front xs with
    | .more => .ok (items, xs)
    | .bad e => .error e
    | .item b n => parseFor fuel (items ++ [b]) (xs.drop n)

/-- The items of a buffer, and what is left of it.  Every round but the last
one takes something off, so there are enough rounds. -/
def parse (xs : List α) : Except ε (List β × List α) := p.parseFor (xs.length + 1) [] xs

/-- Segments that come in one after the other, behind what is left. -/
def feed : List α → List (List α) → Except ε (List β × List α)
  | buf, [] => .ok ([], buf)
  | buf, segment :: segments =>
    match p.parse (buf ++ segment) with
    | .error e => .error e
    | .ok (items, rest) => (feed rest segments).map fun r => (items ++ r.1, r.2)

/-- The machine that collects the items, and stops at a malformed front. -/
def machine : Machine (List β) α where
  step items xs :=
    match p.front xs with
    | .item b n => some (items ++ [b], n)
    | _ => none
  pos {s xs s' n} h := by
    cases hfront : p.front xs with
    | more | bad => simp [hfront] at h
    | item b n' =>
      simp [hfront] at h
      exact h.2 ▸ p.size_pos hfront
  le {s xs s' n} h := by
    cases hfront : p.front xs with
    | more | bad => simp [hfront] at h
    | item b n' =>
      simp [hfront] at h
      exact h.2 ▸ p.size_le hfront
  mono {s xs r} h ys := by
    cases hfront : p.front xs with
    | more | bad => simp [hfront] at h
    | item b n' =>
      rw [hfront] at h
      rw [p.item_append hfront ys]
      exact h

/-- The items in front of the first unit that is not whole or malformed. -/
def items (xs : List α) : List β := (p.machine.run [] xs).1

/-- What is left behind them. -/
def rest (xs : List α) : List α := (p.machine.run [] xs).2

variable {p}

theorem machine_step_item {items : List β} {xs : List α} {b : β} {n : ℕ}
    (h : p.front xs = .item b n) : p.machine.step items xs = some (items ++ [b], n) := by
  simp [machine, h]

theorem machine_step_none {items : List β} {xs : List α} (h : ∀ b n, p.front xs ≠ .item b n) :
    p.machine.step items xs = none := by
  cases hfront : p.front xs with
  | more | bad => simp [machine, hfront]
  | item b n => exact absurd hfront (h b n)

theorem machine_step_some {items items' : List β} {xs : List α} {n : ℕ}
    (h : p.machine.step items xs = some (items', n)) :
    ∃ b, p.front xs = .item b n ∧ items' = items ++ [b] := by
  cases hfront : p.front xs with
  | more | bad => simp [machine, hfront] at h
  | item b n' =>
    simp [machine, hfront] at h
    exact ⟨b, by rw [h.2], h.1.symm⟩

/-- Items that were found before stay in front. -/
theorem machine_run (items : List β) (xs : List α) :
    p.machine.run items xs = (items ++ p.items xs, p.rest xs) := by
  suffices h : ∀ xs before items, p.machine.run (before ++ items) xs =
      (before ++ (p.machine.run items xs).1, (p.machine.run items xs).2) by
    have := h xs items []
    rwa [List.append_nil] at this
  intro xs before items
  refine Machine.run_rule (motive := fun items xs c =>
    p.machine.run (before ++ items) xs = (before ++ c.1, c.2)) ?_ ?_ items xs
  · intro items xs h
    apply Machine.run_of_none
    apply machine_step_none
    intro b n hitem
    rw [machine_step_item hitem] at h
    cases h
  · intro items xs items' n hstep ih
    obtain ⟨b, hfront, rfl⟩ := machine_step_some hstep
    rw [← List.append_assoc] at ih
    rw [Machine.run_of_step (machine_step_item hfront), ih]

theorem items_of_item {xs : List α} {b : β} {n : ℕ} (h : p.front xs = .item b n) :
    p.items xs = b :: p.items (xs.drop n) := by
  rw [items, Machine.run_of_step (machine_step_item h), machine_run]
  rfl

theorem rest_of_item {xs : List α} {b : β} {n : ℕ} (h : p.front xs = .item b n) :
    p.rest xs = p.rest (xs.drop n) := by
  rw [rest, Machine.run_of_step (machine_step_item h), machine_run]

theorem items_of_none {xs : List α} (h : ∀ b n, p.front xs ≠ .item b n) : p.items xs = [] := by
  rw [items, Machine.run_of_none (machine_step_none h)]

theorem rest_of_none {xs : List α} (h : ∀ b n, p.front xs ≠ .item b n) : p.rest xs = xs := by
  rw [rest, Machine.run_of_none (machine_step_none h)]

/-- The rest does not start with an item. -/
theorem front_rest (xs : List α) (b : β) (n : ℕ) : p.front (p.rest xs) ≠ .item b n := by
  intro h
  have hnone := Machine.step_run (m := p.machine) [] xs
  rw [show (p.machine.run [] xs).2 = p.rest xs from rfl, machine_step_item h] at hnone
  cases hnone

/-- The loop of the parser computes the items and the rest, unless the rest is
malformed. -/
theorem parseFor_eq {fuel : ℕ} (items : List β) {xs : List α} (h : xs.length < fuel) :
    p.parseFor fuel items xs =
      match p.front (p.rest xs) with
      | .bad e => .error e
      | _ => .ok (items ++ p.items xs, p.rest xs) := by
  induction fuel generalizing items xs with
  | zero => omega
  | succ fuel ih =>
    rw [parseFor]
    cases hfront : p.front xs with
    | more =>
      have hnone : ∀ b n, p.front xs ≠ .item b n := by simp [hfront]
      simp [rest_of_none hnone, items_of_none hnone, hfront]
    | bad e =>
      have hnone : ∀ b n, p.front xs ≠ .item b n := by simp [hfront]
      simp [rest_of_none hnone, hfront]
    | item b n =>
      have hpos := p.size_pos hfront
      have hle := p.size_le hfront
      have hlen : (xs.drop n).length < fuel := by
        rw [List.length_drop]
        omega
      rw [rest_of_item hfront, items_of_item hfront]
      show p.parseFor fuel (items ++ [b]) (xs.drop n) = _
      rw [ih (items ++ [b]) hlen, List.append_assoc]
      rfl

theorem parse_eq (xs : List α) :
    p.parse xs =
      match p.front (p.rest xs) with
      | .bad e => .error e
      | _ => .ok (p.items xs, p.rest xs) :=
  parseFor_eq [] (Nat.lt_succ_self _)

theorem parse_eq_ok_iff_front {xs : List α} {bs : List β} {r : List α} :
    p.parse xs = .ok (bs, r) ↔ p.items xs = bs ∧ p.rest xs = r ∧ p.front r = .more := by
  rw [parse_eq]
  cases hfront : p.front (p.rest xs) with
  | more =>
    constructor
    · intro h
      injection h with h
      injection h with hitems hrest
      exact ⟨hitems, hrest, hrest ▸ hfront⟩
    · intro h
      simp [h.1, h.2.1]
  | bad e =>
    constructor
    · intro h
      cases h
    · intro h
      rw [h.2.1, h.2.2] at hfront
      cases hfront
  | item b n => exact absurd hfront (front_rest xs b n)

theorem parse_eq_error_iff {xs : List α} {e : ε} :
    p.parse xs = .error e ↔ p.front (p.rest xs) = .bad e := by
  rw [parse_eq]
  cases hfront : p.front (p.rest xs) with
  | more => simp
  | bad e' => simp
  | item b n => exact absurd hfront (front_rest xs b n)

/-- More input leaves the items that were found, and goes on from the rest. -/
theorem items_append (xs ys : List α) :
    p.items (xs ++ ys) = p.items xs ++ p.items (p.rest xs ++ ys) := by
  rw [items, Machine.run_append, Machine.receive, machine_run]
  rfl

theorem rest_append (xs ys : List α) : p.rest (xs ++ ys) = p.rest (p.rest xs ++ ys) := by
  rw [rest, Machine.run_append, Machine.receive, machine_run]
  rfl

/-- A malformed rest stays where it is. -/
theorem rest_append_of_bad {xs : List α} {e : ε} (h : p.front (p.rest xs) = .bad e)
    (ys : List α) :
    p.items (xs ++ ys) = p.items xs ∧ p.front (p.rest (xs ++ ys)) = .bad e := by
  have hbad := p.bad_append h ys
  have hnone : ∀ b n, p.front (p.rest xs ++ ys) ≠ .item b n := by simp [hbad]
  rw [items_append, items_of_none hnone, rest_append, rest_of_none hnone, List.append_nil]
  exact ⟨rfl, hbad⟩

/-- Segments are parsed like the whole stream, up to the exception. -/
theorem feed_eq {buf : List α} (h : p.front buf = .more) (segments : List (List α)) :
    p.feed buf segments = p.parse (buf ++ segments.flatten) := by
  induction segments generalizing buf with
  | nil =>
    have hnone : ∀ b n, p.front buf ≠ .item b n := by simp [h]
    have hparse : p.parse buf = .ok ([], buf) :=
      parse_eq_ok_iff_front.2 ⟨items_of_none hnone, rest_of_none hnone, h⟩
    rw [List.flatten_nil, List.append_nil, hparse]
    rfl
  | cons segment segments ih =>
    rw [feed, List.flatten_cons, ← List.append_assoc]
    cases hfront : p.front (p.rest (buf ++ segment)) with
    | more =>
      have hparse : p.parse (buf ++ segment) =
          .ok (p.items (buf ++ segment), p.rest (buf ++ segment)) :=
        parse_eq_ok_iff_front.2 ⟨rfl, rfl, hfront⟩
      rw [hparse]
      show (p.feed (p.rest (buf ++ segment)) segments).map _ = _
      rw [ih hfront, parse_eq, parse_eq (buf ++ segment ++ segments.flatten),
        rest_append (buf ++ segment), items_append (buf ++ segment)]
      cases p.front (p.rest (p.rest (buf ++ segment) ++ segments.flatten)) <;> rfl
    | bad e =>
      have hparse : p.parse (buf ++ segment) = .error e := parse_eq_error_iff.2 hfront
      have hlater := (rest_append_of_bad hfront segments.flatten).2
      rw [hparse, parse_eq_error_iff.2 hlater]
    | item b n => exact absurd hfront (front_rest _ b n)

end Parser

/-! ## Formats -/

/-- The strings that stand for the items of a parser. -/
structure Format (p : Parser α β ε) (ω : Type) where
  bytes : ω → List α
  item : ω → β
  /-- The parser finds every string of the format. -/
  complete : ∀ w, p.front (bytes w) = .item (item w) (bytes w).length
  /-- What it finds is a string of the format. -/
  sound : ∀ {xs b n}, p.front xs = .item b n → ∃ w, item w = b ∧ bytes w = xs.take n

namespace Format

variable {p : Parser α β ε} (f : Format p ω)

theorem front_append (w : ω) (xs : List α) :
    p.front (f.bytes w ++ xs) = .item (f.item w) (f.bytes w).length :=
  p.item_append (f.complete w) xs

theorem items_append (ws : List ω) (xs : List α) :
    p.items (ws.flatMap f.bytes ++ xs) = ws.map f.item ++ p.items xs := by
  induction ws with
  | nil => rfl
  | cons w ws ih =>
    rw [List.flatMap_cons, List.append_assoc, Parser.items_of_item (f.front_append w _),
      List.drop_left, ih]
    rfl

theorem rest_append (ws : List ω) (xs : List α) :
    p.rest (ws.flatMap f.bytes ++ xs) = p.rest xs := by
  induction ws with
  | nil => rfl
  | cons w ws ih =>
    rw [List.flatMap_cons, List.append_assoc, Parser.rest_of_item (f.front_append w _),
      List.drop_left, ih]

/-- Every buffer is a row of strings of the format, and a rest. -/
theorem exists_split (xs : List α) :
    ∃ ws : List ω, p.items xs = ws.map f.item ∧ xs = ws.flatMap f.bytes ++ p.rest xs := by
  induction hlen : xs.length using Nat.strongRecOn generalizing xs with
  | _ len ih =>
    cases hfront : p.front xs with
    | more | bad =>
      have hnone : ∀ b n, p.front xs ≠ .item b n := by simp [hfront]
      exact ⟨[], by simp [Parser.items_of_none hnone], by simp [Parser.rest_of_none hnone]⟩
    | item b n =>
      have hpos := p.size_pos hfront
      have hle := p.size_le hfront
      obtain ⟨w, hitem, hbytes⟩ := f.sound hfront
      obtain ⟨ws, hitems, hsplit⟩ := ih (xs.drop n).length
        (by rw [List.length_drop]; omega) (xs.drop n) rfl
      refine ⟨w :: ws, ?_, ?_⟩
      · rw [Parser.items_of_item hfront, hitems, List.map_cons, hitem]
      · rw [Parser.rest_of_item hfront, List.flatMap_cons, List.append_assoc, ← hsplit, hbytes,
          List.take_append_drop]

/-- The grammar of the parser: it returns some items and a rest exactly if the
buffer is a row of strings for the items, and the rest may still become one. -/
theorem parse_eq_ok_iff {xs : List α} {bs : List β} {r : List α} :
    p.parse xs = .ok (bs, r) ↔
      p.front r = .more ∧ ∃ ws : List ω, bs = ws.map f.item ∧ xs = ws.flatMap f.bytes ++ r := by
  rw [Parser.parse_eq_ok_iff_front]
  constructor
  · intro h
    obtain ⟨ws, hitems, hsplit⟩ := f.exists_split xs
    rw [h.1] at hitems
    rw [h.2.1] at hsplit
    exact ⟨h.2.2, ws, hitems, hsplit⟩
  · intro h
    obtain ⟨hmore, ws, rfl, rfl⟩ := h
    have hnone : ∀ b n, p.front r ≠ .item b n := by simp [hmore]
    rw [f.items_append, f.rest_append, Parser.items_of_none hnone, Parser.rest_of_none hnone,
      List.append_nil]
    exact ⟨rfl, rfl, hmore⟩

end Format

end MinotaurRobot.Lib.Incremental
