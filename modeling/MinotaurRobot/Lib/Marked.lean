import Mathlib.Data.List.TakeWhile
import Mathlib.Tactic.Common

/-!
# Packets in a stream that is cut anywhere

Messages are sent one after the other, and the stream arrives in chunks.  A
message is a packet of `size` elements that begins with a mark, or a filler
without any mark.  A receiver without a buffer takes a chunk for a packet if it
begins with a mark and has `size` elements.

If the packets are among the chunks, then each of them is a chunk of its own,
at its place in the stream (`own_of_sublist`), and then the receiver takes
these chunks and no others (`recognise_of_own`).  A packet cannot be found
anywhere else, however the fillers and the other packets look like: a chunk
that repeats a packet later than it was sent lags behind the stream, and the
lag never goes away (`not_sublist_of_lag`).
-/

namespace MinotaurRobot.Lib.Marked

variable {α : Type} (mark : α → Bool) (size : ℕ)

/-- The list begins with a mark. -/
def headed (xs : List α) : Bool := xs.head?.any mark

/-- No element is a mark. -/
def Filler (xs : List α) : Prop := ∀ x ∈ xs, mark x = false

/-- Every message is a filler or a packet. -/
def Valid (messages : List (List α)) : Prop :=
  ∀ m ∈ messages, Filler mark m ∨ headed mark m = true ∧ m.length = size

/-- The packets of a list of messages. -/
def packets (messages : List (List α)) : List (List α) := messages.filter (headed mark)

/-- What the receiver takes for a packet. -/
def recognise (chunks : List (List α)) : List (List α) :=
  chunks.filter fun c => headed mark c && c.length == size

/-- Every packet is a chunk of its own, at its place in the stream. -/
def Own (messages chunks : List (List α)) : Prop :=
  ∀ pre m suf, messages = pre ++ m :: suf → headed mark m = true →
    ∃ cpre csuf, chunks = cpre ++ m :: csuf ∧ cpre.flatten = pre.flatten

variable {mark size}

theorem headed_append {xs : List α} (h : headed mark xs = true) (ys : List α) :
    headed mark (xs ++ ys) = true := by
  cases xs with
  | nil => cases h
  | cons x xs => exact h

theorem Filler.not_headed {xs : List α} (h : Filler mark xs) : headed mark xs = false := by
  cases xs with
  | nil => rfl
  | cons x xs => exact h x List.mem_cons_self

theorem Filler.of_mem {m : List α} {messages : List (List α)} (h : Filler mark messages.flatten)
    (hm : m ∈ messages) : Filler mark m :=
  fun x hx => h x (List.mem_flatten.2 ⟨m, hm, hx⟩)

/-- Up to the first packet the stream has no mark. -/
theorem split_first {messages : List (List α)} (hvalid : Valid mark size messages) :
    (Filler mark messages.flatten ∧ packets mark messages = []) ∨
      ∃ pre m suf, messages = pre ++ m :: suf ∧ Filler mark pre.flatten ∧
        headed mark m = true ∧ m.length = size ∧ Valid mark size suf ∧
        packets mark messages = m :: packets mark suf := by
  induction messages with
  | nil => exact Or.inl ⟨by simp [Filler], rfl⟩
  | cons m messages ih =>
    have hrest : Valid mark size messages := fun m' hm' => hvalid m' (List.mem_cons_of_mem _ hm')
    rcases hvalid m List.mem_cons_self with hfiller | ⟨hhead, hlen⟩
    · have hskip : packets mark (m :: messages) = packets mark messages := by
        unfold packets
        rw [List.filter_cons_of_neg (by simp [hfiller.not_headed])]
      have happend : ∀ {xs : List α}, Filler mark xs → Filler mark (m ++ xs) := by
        intro xs hxs x hx
        rcases List.mem_append.1 hx with hx | hx
        · exact hfiller x hx
        · exact hxs x hx
      rw [hskip]
      rcases ih hrest with ⟨hflat, hnone⟩ | ⟨pre, m', suf, hsplit, hpre, hm'⟩
      · exact Or.inl ⟨happend hflat, hnone⟩
      · refine Or.inr ⟨m :: pre, m', suf, by rw [hsplit, List.cons_append], happend hpre, hm'⟩
    · refine Or.inr ⟨[], m, messages, rfl, by simp [Filler], hhead, hlen, hrest, ?_⟩
      exact List.filter_cons_of_pos hhead

/-! ## A packet that is found too late -/

/-- There is a mark at offset `k`. -/
def MarkAt (mark : α → Bool) (stream : List α) (k : ℕ) : Prop :=
  ∃ x, stream[k]? = some x ∧ mark x = true

/-- Marks that come back with a lag come back behind the packet. -/
theorem exists_markAt {stream : List α} {lag i : ℕ} (hlag : 0 < lag)
    (hback : ∀ k, k < size → MarkAt mark stream k → MarkAt mark stream (lag + k))
    (hi : MarkAt mark stream i) (hlt : i < size + lag) :
    ∃ k, size ≤ k ∧ k < size + lag ∧ MarkAt mark stream k := by
  induction hn : size - i using Nat.strongRecOn generalizing i with
  | ind n ih =>
    by_cases hsize : size ≤ i
    · exact ⟨i, hsize, hlt, hi⟩
    · exact ih (size - (lag + i)) (by omega) (hback i (by omega) hi) (by omega) rfl

/-- In a stream whose front comes back behind `lag` elements, the filler behind
this front is shorter than the lag. -/
theorem length_filler_lt {m filler rest tail : List α} {lag : ℕ} (hlag : 0 < lag)
    (hhead : headed mark m = true) (hfiller : Filler mark filler)
    (hback : (m ++ filler ++ rest).drop lag = m ++ tail) :
    filler.length < lag ∧ rest ≠ [] := by
  have hget : ∀ k, k < m.length → MarkAt mark (m ++ filler ++ rest) k →
      MarkAt mark (m ++ filler ++ rest) (lag + k) := by
    intro k hk hmark
    obtain ⟨x, hx, hmx⟩ := hmark
    refine ⟨x, ?_, hmx⟩
    rw [← List.getElem?_drop, hback, List.getElem?_append_left hk, ← hx, List.append_assoc,
      List.getElem?_append_left hk]
  have hzero : MarkAt mark (m ++ filler ++ rest) 0 := by
    cases m with
    | nil => cases hhead
    | cons x m => exact ⟨x, rfl, hhead⟩
  obtain ⟨k, hlow, hhigh, x, hx, hmark⟩ := exists_markAt hlag hget hzero (by omega)
  rw [List.append_assoc, List.getElem?_append_right hlow] at hx
  by_cases hin : k - m.length < filler.length
  · rw [List.getElem?_append_left hin] at hx
    rw [hfiller x (List.mem_of_getElem? hx)] at hmark
    cases hmark
  · refine ⟨by omega, ?_⟩
    intro hnil
    rw [hnil, List.append_nil, List.getElem?_eq_none (by omega)] at hx
    cases hx

/-- Take the chunk of the first packet out of the chunks. -/
theorem exists_chunk {m : List α} {ms chunks : List (List α)} (h : (m :: ms).Sublist chunks) :
    ∃ cpre csuf, chunks = cpre ++ m :: csuf ∧ ms.Sublist csuf := by
  obtain ⟨r₁, r₂, rfl, hmem, hsub⟩ := List.cons_sublist_iff.1 h
  obtain ⟨cpre, csuf, rfl⟩ := List.append_of_mem hmem
  exact ⟨cpre, csuf ++ r₂, by rw [List.append_assoc, List.cons_append],
    hsub.trans (List.sublist_append_right csuf r₂)⟩

/-- Chunks that lag behind the stream of a packet and further messages do not
contain this packet and those of the messages. -/
theorem not_sublist_of_lag {m : List α} {messages chunks : List (List α)} {lag : ℕ}
    (hhead : headed mark m = true) (hlen : m.length = size) (hvalid : Valid mark size messages)
    (hlag : 0 < lag) (hchunks : chunks.flatten = (m ++ messages.flatten).drop lag) :
    ¬(m :: packets mark messages).Sublist chunks := by
  induction hn : messages.length using Nat.strongRecOn generalizing m messages chunks lag with
  | ind n ih =>
    intro hsub
    obtain ⟨cpre, csuf, rfl, hrest⟩ := exists_chunk hsub
    rw [List.flatten_append, List.flatten_cons] at hchunks
    have hback : (m ++ messages.flatten).drop (lag + cpre.flatten.length) = m ++ csuf.flatten := by
      rw [← List.drop_drop, ← hchunks, List.drop_left]
    have hpos : 0 < lag + cpre.flatten.length := by omega
    rcases split_first hvalid with
      ⟨hflat, -⟩ | ⟨pre, m', suf, rfl, hpre, hhead', hlen', hsuf, hpackets⟩
    · rw [← List.append_nil (m ++ messages.flatten)] at hback
      exact (length_filler_lt hpos hhead hflat hback).2 rfl
    · rw [List.flatten_append, List.flatten_cons, ← List.append_assoc] at hback
      obtain ⟨hshort, -⟩ := length_filler_lt hpos hhead hpre hback
      rw [hpackets] at hrest
      have hcsuf : csuf.flatten =
          (m' ++ suf.flatten).drop (lag + cpre.flatten.length - pre.flatten.length) := by
        have hdrop := congrArg (List.drop m.length) hback
        rw [List.drop_left, List.drop_drop, List.drop_append, List.drop_eq_nil_of_le
          (by rw [List.length_append]; omega), List.nil_append, List.length_append] at hdrop
        rw [← hdrop]
        congr 1
        omega
      refine ih suf.length ?_ hhead' hlen' hsuf ?_ hcsuf rfl hrest
      · rw [← hn, List.length_append, List.length_cons]
        omega
      · omega

/-! ## Packets among the chunks -/

/-- The first packet is at its place, if it and the packets behind it are
among the chunks. -/
theorem length_flatten_eq {pre suf cpre csuf : List (List α)} {m : List α}
    (hpre : Filler mark pre.flatten) (hhead : headed mark m = true) (hlen : m.length = size)
    (hsuf : Valid mark size suf)
    (hflat : cpre.flatten ++ (m ++ csuf.flatten) = pre.flatten ++ (m ++ suf.flatten))
    (hsub : (packets mark suf).Sublist csuf) : cpre.flatten.length = pre.flatten.length := by
  have hdrop := congrArg (List.drop cpre.flatten.length) hflat
  rw [List.drop_left, List.drop_append] at hdrop
  rcases Nat.lt_trichotomy cpre.flatten.length pre.flatten.length with hlt | heq | hgt
  · have hfront : headed mark (pre.flatten.drop cpre.flatten.length) = true := by
      have hne : pre.flatten.drop cpre.flatten.length ≠ [] := by
        rw [ne_eq, List.drop_eq_nil_iff]
        omega
      obtain ⟨x, xs, hxs⟩ := List.exists_cons_of_ne_nil hne
      have hm := headed_append hhead csuf.flatten
      rw [hdrop, hxs] at hm
      rw [hxs]
      exact hm
    have hfiller : Filler mark (pre.flatten.drop cpre.flatten.length) :=
      fun x hx => hpre x (List.mem_of_mem_drop hx)
    rw [hfiller.not_headed] at hfront
    cases hfront
  · exact heq
  · rw [List.drop_eq_nil_of_le (by omega), List.nil_append] at hdrop
    have hchunks : (m :: csuf).flatten =
        (m ++ suf.flatten).drop (cpre.flatten.length - pre.flatten.length) := hdrop
    exact absurd (hsub.cons_cons m)
      (not_sublist_of_lag hhead hlen hsuf (by omega) hchunks)

/-- Where a message is, in a list of messages that is split at another one. -/
theorem split_cases {β : Type} {pre₁ suf₁ pre suf : List β} {m₁ m : β}
    (h : pre₁ ++ m₁ :: suf₁ = pre ++ m :: suf) :
    (∃ mid, pre₁ = pre ++ m :: mid) ∨ (pre = pre₁ ∧ m = m₁) ∨
      ∃ mid, pre = pre₁ ++ m₁ :: mid ∧ suf₁ = mid ++ m :: suf := by
  rcases List.append_eq_append_iff.1 h with ⟨as, hpre, hsuf⟩ | ⟨bs, hpre, hsuf⟩
  · cases as with
    | nil =>
      rw [List.append_nil] at hpre
      exact Or.inr (Or.inl ⟨hpre, (List.cons.inj hsuf).1.symm⟩)
    | cons a as =>
      obtain ⟨hhead, hrest⟩ := List.cons.inj hsuf
      rw [← hhead] at hpre
      exact Or.inr (Or.inr ⟨as, hpre, hrest⟩)
  · cases bs with
    | nil =>
      rw [List.append_nil] at hpre
      exact Or.inr (Or.inl ⟨hpre.symm, (List.cons.inj hsuf).1⟩)
    | cons b bs =>
      rw [← (List.cons.inj hsuf).1] at hpre
      exact Or.inl ⟨bs, hpre⟩

theorem own_of_sublist {messages chunks : List (List α)} (hvalid : Valid mark size messages)
    (hflat : chunks.flatten = messages.flatten)
    (hsub : (packets mark messages).Sublist chunks) : Own mark messages chunks := by
  induction hn : messages.length using Nat.strongRecOn generalizing messages chunks with
  | ind n ih =>
    intro pre m suf hsplit hm
    rcases split_first hvalid with
      ⟨hfiller, -⟩ | ⟨pre₁, m₁, suf₁, rfl, hpre, hhead, hlen, hsuf, hpackets⟩
    · have hmem : m ∈ messages := by
        rw [hsplit]
        exact List.mem_append_right pre List.mem_cons_self
      rw [(hfiller.of_mem hmem).not_headed] at hm
      cases hm
    · rw [hpackets] at hsub
      obtain ⟨cpre, csuf, rfl, hrest⟩ := exists_chunk hsub
      rw [List.flatten_append, List.flatten_append, List.flatten_cons, List.flatten_cons] at hflat
      have hplace := length_flatten_eq hpre hhead hlen hsuf hflat hrest
      obtain ⟨hcpre, hbehind⟩ := List.append_inj hflat hplace
      rw [List.append_cancel_left_eq] at hbehind
      have hshort : suf₁.length < n := by
        rw [← hn, List.length_append, List.length_cons]
        omega
      rcases split_cases hsplit with ⟨mid, rfl⟩ | ⟨rfl, rfl⟩ | ⟨mid, rfl, rfl⟩
      · have hfiller := hpre.of_mem (List.mem_append_right pre List.mem_cons_self)
        rw [hfiller.not_headed] at hm
        cases hm
      · exact ⟨cpre, csuf, rfl, hcpre⟩
      · obtain ⟨cpre', csuf', rfl, hcpre'⟩ := ih _ hshort hsuf hbehind hrest rfl mid m suf rfl hm
        refine ⟨cpre ++ m₁ :: cpre', csuf', by rw [List.append_assoc, List.cons_append], ?_⟩
        rw [List.flatten_append, List.flatten_append, List.flatten_cons, List.flatten_cons,
          hcpre, hcpre']

/-- It is enough that the chunks have marks where the packets have them. -/
theorem own_of_marks {messages chunks : List (List α)} (hvalid : Valid mark size messages)
    (hflat : chunks.flatten = messages.flatten)
    (hsub : ((packets mark messages).map (List.map mark)).Sublist (chunks.map (List.map mark))) :
    Own mark messages chunks := by
  have hheaded : ∀ xs : List α, headed id (xs.map mark) = headed mark xs := by
    intro xs
    cases xs <;> rfl
  have hvalid' : Valid id size (messages.map (List.map mark)) := by
    intro m hm
    obtain ⟨xs, hxs, rfl⟩ := List.mem_map.1 hm
    refine (hvalid xs hxs).imp (fun hfiller => ?_) (fun hpacket => ?_)
    · intro b hb
      obtain ⟨x, hx, rfl⟩ := List.mem_map.1 hb
      exact hfiller x hx
    · rwa [hheaded, List.length_map]
  have hpackets : packets id (messages.map (List.map mark)) =
      (packets mark messages).map (List.map mark) := by
    unfold packets
    rw [List.filter_map]
    congr 1
    exact List.filter_congr fun xs _ => hheaded xs
  rw [← hpackets] at hsub
  have hown := own_of_sublist hvalid'
    (by rw [← List.map_flatten, ← List.map_flatten, hflat]) hsub
  intro pre m suf hsplit hm
  obtain ⟨cpre', csuf', hchunks, hplace⟩ := hown (pre.map (List.map mark)) (m.map mark)
    (suf.map (List.map mark)) (by rw [hsplit, List.map_append, List.map_cons])
    (by rw [hheaded, hm])
  obtain ⟨cpre, behind, rfl, rfl, hbehind⟩ := List.map_eq_append_iff.1 hchunks
  obtain ⟨c, csuf, rfl, hc, rfl⟩ := List.map_eq_cons_iff.1 hbehind
  rw [← List.map_flatten, ← List.map_flatten] at hplace
  have hplace := congrArg List.length hplace
  have hlength := congrArg List.length hc
  rw [List.length_map, List.length_map] at hplace hlength
  rw [hsplit, List.flatten_append, List.flatten_append, List.flatten_cons,
    List.flatten_cons] at hflat
  obtain ⟨hfront, hrest⟩ := List.append_inj hflat hplace
  rw [← (List.append_inj hrest hlength).1]
  exact ⟨cpre, csuf, rfl, hfront⟩

theorem recognise_filler {chunks : List (List α)} (h : Filler mark chunks.flatten) :
    recognise mark size chunks = [] := by
  unfold recognise
  rw [List.filter_eq_nil_iff]
  intro c hc
  simp [(h.of_mem hc).not_headed]

/-- A receiver without a buffer recognises the packets that are chunks of
their own, and nothing else. -/
theorem recognise_of_own {messages chunks : List (List α)} (hvalid : Valid mark size messages)
    (hflat : chunks.flatten = messages.flatten) (hown : Own mark messages chunks) :
    recognise mark size chunks = packets mark messages := by
  induction hn : messages.length using Nat.strongRecOn generalizing messages chunks with
  | ind n ih =>
    rcases split_first hvalid with
      ⟨hfiller, hnone⟩ | ⟨pre₁, m₁, suf₁, rfl, hpre, hhead, hlen, hsuf, hpackets⟩
    · rw [hnone]
      rw [← hflat] at hfiller
      exact recognise_filler hfiller
    · obtain ⟨cpre, csuf, rfl, hcpre⟩ := hown pre₁ m₁ suf₁ rfl hhead
      rw [List.flatten_append, List.flatten_append, List.flatten_cons, List.flatten_cons, hcpre,
        List.append_cancel_left_eq, List.append_cancel_left_eq] at hflat
      have hpos : 0 < m₁.length := by
        cases m₁ with
        | nil => cases hhead
        | cons x m₁ => exact Nat.succ_pos _
      have hrest : Own mark suf₁ csuf := by
        intro mid m suf hsplit hm
        obtain ⟨cpre', csuf', hchunks, hplace⟩ :=
          hown (pre₁ ++ m₁ :: mid) m suf (by rw [hsplit, List.append_assoc, List.cons_append]) hm
        rw [List.flatten_append, List.flatten_cons, ← hcpre] at hplace
        have hlength := congrArg List.length hplace
        rw [List.length_append, List.length_append] at hlength
        rcases split_cases hchunks with ⟨cmid, rfl⟩ | ⟨rfl, -⟩ | ⟨cmid, rfl, rfl⟩
        · rw [List.flatten_append, List.length_append] at hlength
          omega
        · omega
        · refine ⟨cmid, csuf', rfl, ?_⟩
          rw [List.flatten_append, List.flatten_cons, List.append_cancel_left_eq,
            List.append_cancel_left_eq] at hplace
          exact hplace
      have hshort : suf₁.length < n := by
        rw [← hn, List.length_append, List.length_cons]
        omega
      have hfront : recognise mark size cpre = [] := by
        apply recognise_filler
        rw [hcpre]
        exact hpre
      have hm₁ : (headed mark m₁ && m₁.length == size) = true := by
        rw [hhead, hlen, beq_self_eq_true]
        rfl
      have hbehind := ih _ hshort hsuf hflat hrest rfl
      unfold recognise at hfront hbehind ⊢
      rw [List.filter_append, List.filter_cons, if_pos hm₁, hfront, hbehind, hpackets,
        List.nil_append]

end MinotaurRobot.Lib.Marked
