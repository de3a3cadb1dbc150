import Fos.CommandPrompt

/-!
# Indices of the command prompt

Which keys keep the indices of `command_prompt_readline` in bounds. In a state that is in order, a
key goes wrong when it recalls the entry after a full history, deletes at the end of the line, types
or deletes where the line is full, or ends a line while the history is empty.
-/

namespace Fos

open Function (update)

namespace Prompt

/-- The string in the row ends within it. -/
def Terminated (row : Nat → UInt8) : Prop := ∃ k < bufLen, row k = 0

def InBounds (s : Prompt) : Prop := 0 ≤ s.i ∧ s.i ≤ s.lastIndex ∧ s.lastIndex ≤ bufLen - 1

/-- What a key leaves is in bounds, and a line that is returned ends within the buffer. -/
def Outcome.Good : Outcome → Prop
  | .editing s => s.InBounds
  | .returned s => s.InBounds ∧ Terminated s.buf

/-- The key is processed without an access outside an array, and leaves the indices in bounds. -/
def KeySafe (c : Nat) (s : Prompt) : Prop := ∃ r, processKey c s = some r ∧ r.Good

/-- When the key `c` does no harm. -/
def KeyOk (c : Nat) (s : Prompt) : Prop :=
  if c = 226 then Terminated (s.commandHistory (s.commandidx - 1).toNat)
  else if c = 227 then 0 ≤ s.lastCommandIdx → s.commandidx ≤ historyMax ∧
    Terminated (s.commandHistory
      (if s.commandidx < s.lastCommandIdx then s.commandidx + 1 else s.commandidx).toNat)
  else if c = 228 ∨ c = 229 then True
  else if c = 0xE9 ∧ 0 < s.i then s.i < s.lastIndex ∧ s.lastIndex < bufLen - 1
  else if 32 ≤ c ∧ s.i < bufLen - 1 then s.lastIndex < bufLen - 1
  else if c = 10 ∨ c = 13 then 0 ≤ s.lastCommandIdx
  else True

/-- Every key is processed safely. -/
def SafeRun : List Nat → Prompt → Prop
  | [], _ => True
  | c :: cs, s => KeySafe c s ∧ ∀ r, processKey c s = some r → SafeRun cs r.next

/-- No key does harm in the state in which it is read. -/
def OkRun : List Nat → Prompt → Prop
  | [], _ => True
  | c :: cs, s => KeyOk c s ∧ ∀ r, processKey c s = some r → OkRun cs r.next

/-- The state before a key. -/
structure Sane (s : Prompt) : Prop where
  bounds : s.InBounds
  history : -1 ≤ s.lastCommandIdx ∧ s.lastCommandIdx ≤ historyMax
  command : 0 ≤ s.commandidx ∧ s.commandidx ≤ s.lastCommandIdx + 1

section

variable {s t : Prompt} {row row' : Nat → UInt8} {c : Nat} {k r : Int} {i j n : Nat} {d : UInt8}

/-! ## The arrays -/

theorem writeBuf_of_lt (h : 0 ≤ k) (h' : k ≤ bufLen - 1) :
    s.writeBuf k d = some { s with buf := update s.buf k.toNat d } := if_pos ⟨h, by omega⟩

theorem readBuf_of_lt (h : 0 ≤ k) (h' : k ≤ bufLen - 1) : s.readBuf k = some (s.buf k.toNat) :=
  if_pos ⟨h, by omega⟩

theorem rowLength_of_terminated (h : Terminated row) : ∃ n < bufLen, rowLength row = some n := by
  obtain ⟨k, hk, h0⟩ := h
  have hsome : ((List.range bufLen).find? fun k => row k == 0).isSome := by
    rw [List.find?_isSome]
    exact ⟨k, List.mem_range.2 hk, beq_iff_eq.2 h0⟩
  obtain ⟨n, hn⟩ := Option.isSome_iff_exists.1 hsome
  exact ⟨n, List.mem_range.1 (List.mem_of_find?_eq_some hn), hn⟩

theorem rowLength_of_not (h : ¬ Terminated row) : rowLength row = none := by
  unfold rowLength
  rw [List.find?_eq_none]
  intro k hk h0
  exact h ⟨k, List.mem_range.1 hk, beq_iff_eq.1 h0⟩

/-- `strcmp` stops at the end of either string. -/
theorem rowsEqual_isSome (hj : i ≤ j) (hlt : j < i + n) (h0 : row' j = 0) :
    (rowsEqual row row' n i).isSome := by
  induction n generalizing i with
  | zero => exact absurd hlt (by omega)
  | succ n ih =>
    rw [rowsEqual]
    split
    case isTrue h =>
      by_cases hij : i = j
      · rw [hij, h0] at h
        exact absurd h.2 h.1
      · exact ih (by omega) (by omega)
    case isFalse => rfl

/-! ## Recalling a command -/

theorem copyCommand_eq (row : Nat → UInt8) (n : Nat) (s : Prompt) (h0 : 0 ≤ s.i)
    (hn : s.i + n ≤ bufLen) :
    ∃ buf, copyCommand row n s = some { s with buf := buf, i := s.i + n } := by
  induction n generalizing s with
  | zero => exact ⟨s.buf, by simp [copyCommand]⟩
  | succ n ih =>
    rw [copyCommand, writeBuf_of_lt h0 (by omega)]
    obtain ⟨buf, hbuf⟩ := ih
      { s with buf := update s.buf s.i.toNat (row s.i.toNat), i := s.i + 1 } (by dsimp only; omega)
      (by dsimp only; omega)
    refine ⟨buf, hbuf.trans ?_⟩
    dsimp only
    rw [show s.i + 1 + (n : Int) = s.i + (n + 1 : Nat) by omega]

theorem clearAndWriteCommand_eq (h : 0 ≤ r ∧ r ≤ historyMax)
    (ht : Terminated (s.commandHistory r.toNat)) :
    ∃ t, s.clearAndWriteCommand r = some t ∧ t.InBounds ∧ t.lastCommandIdx = s.lastCommandIdx ∧
      t.commandidx = s.commandidx := by
  obtain ⟨len, hlt, hlen⟩ := rowLength_of_terminated ht
  obtain ⟨buf, hcopy⟩ := copyCommand_eq (s.commandHistory r.toNat) len
    { s with buf := fun _ => 0, i := 0 } (Int.le_refl 0) (by dsimp only; omega)
  rw [clearAndWriteCommand, historyRow, if_pos h]
  dsimp only [Option.bind_eq_bind, Option.bind_some]
  rw [hlen]
  dsimp only [Option.bind_some]
  rw [hcopy]
  refine ⟨_, rfl, ⟨?_, ?_, ?_⟩, rfl, rfl⟩
  · show (0 : Int) ≤ 0 + len
    omega
  · show (0 : Int) + len ≤ len
    omega
  · show (len : Int) ≤ bufLen - 1
    omega

theorem clearAndWriteCommand_none
    (h : ¬ (0 ≤ r ∧ r ≤ historyMax) ∨ ¬ Terminated (s.commandHistory r.toNat)) :
    s.clearAndWriteCommand r = none := by
  rw [clearAndWriteCommand, historyRow]
  by_cases hr : 0 ≤ r ∧ r ≤ historyMax
  · rw [if_pos hr]
    dsimp only [Option.bind_eq_bind, Option.bind_some]
    rw [rowLength_of_not (h.resolve_left (not_not.2 hr))]
    rfl
  · rw [if_neg hr]
    rfl

/-! ## Deleting -/

theorem deleteLoop_eq (n : Nat) (k : Int) (s : Prompt) (h0 : 0 ≤ k) (hn : k + n ≤ bufLen - 1) :
    ∃ buf, deleteLoop n k s = some { s with buf := buf } := by
  induction n generalizing k s with
  | zero => exact ⟨s.buf, rfl⟩
  | succ n ih =>
    rw [deleteLoop, readBuf_of_lt (by omega) (by omega)]
    dsimp only [Option.bind_eq_bind, Option.bind_some]
    rw [writeBuf_of_lt h0 (by omega)]
    exact ih (k + 1) _ (by omega) (by omega)

theorem deleteLoop_none (n : Nat) (k : Int) (s : Prompt) (h0 : 0 ≤ k) (hk : k ≤ bufLen - 1)
    (hn : bufLen - 1 < k + n) : deleteLoop n k s = none := by
  induction n generalizing k s with
  | zero => omega
  | succ n ih =>
    rw [deleteLoop]
    by_cases hlast : k = bufLen - 1
    · have hread : s.readBuf (k + 1) = none := if_neg (by omega)
      rw [hread]
      rfl
    · rw [readBuf_of_lt (by omega) (by omega)]
      dsimp only [Option.bind_eq_bind, Option.bind_some]
      rw [writeBuf_of_lt h0 hk]
      exact ih (k + 1) _ (by omega) (by omega) (by omega)

/-! ## Ending a line -/

theorem enter_none (hb : s.InBounds) (h : s.lastCommandIdx = -1) : s.enter = none := by
  obtain ⟨h1, h2, h3⟩ := hb
  rw [enter, writeBuf_of_lt (by omega) h3]
  dsimp only [Option.bind_eq_bind, Option.bind_some]
  rw [if_neg (by rw [h]; decide), historyRow, if_neg (by rw [h]; decide)]
  rfl

theorem enter_eq (hs : Sane s) (h : 0 ≤ s.lastCommandIdx) :
    ∃ t, s.enter = some t ∧ t.i = s.i ∧ t.lastIndex = s.lastIndex ∧ Terminated t.buf ∧
      0 ≤ t.lastCommandIdx ∧ t.lastCommandIdx ≤ historyMax := by
  obtain ⟨h1, h2, h3⟩ := hs.bounds
  have hend : Terminated (update s.buf s.lastIndex.toNat 0) :=
    ⟨s.lastIndex.toNat, by omega, Function.update_self ..⟩
  rw [enter, writeBuf_of_lt (by omega) h3]
  dsimp only [Option.bind_eq_bind, Option.bind_some]
  -- a full history takes no further command, and neither does one that ends with the same text
  by_cases hfull : s.lastCommandIdx = historyMax
  · rw [if_pos hfull]
    exact ⟨_, rfl, rfl, rfl, hend, h, hs.history.2⟩
  · have hlast := hs.history.2
    have hrow : 0 ≤ s.lastCommandIdx ∧ s.lastCommandIdx ≤ historyMax := ⟨h, hlast⟩
    rw [if_neg hfull, historyRow, if_pos hrow]
    dsimp only [Option.bind_some]
    have hz : update s.buf s.lastIndex.toNat 0 s.lastIndex.toNat = 0 := Function.update_self ..
    have hcmp : (rowsEqual (s.commandHistory s.lastCommandIdx.toNat) (update s.buf s.lastIndex.toNat 0)
        bufLen 0).isSome := rowsEqual_isSome (Nat.zero_le _) (by omega) hz
    obtain ⟨b, hb⟩ := Option.isSome_iff_exists.1 hcmp
    rw [hb]
    cases b with
    | true => exact ⟨_, rfl, rfl, rfl, hend, h, hlast⟩
    | false =>
      have hnext : 0 ≤ s.lastCommandIdx + 1 ∧ s.lastCommandIdx + 1 ≤ historyMax := by omega
      dsimp only [Option.bind_some]
      rw [if_neg Bool.false_ne_true, writeHistory, if_pos hnext]
      exact ⟨_, rfl, rfl, rfl, hend, by show 0 ≤ s.lastCommandIdx + 1; omega, hnext.2⟩

/-! ## One key -/

theorem correct_eq (hb : s.InBounds) : s.correct = s := by
  obtain ⟨-, h, -⟩ := hb
  unfold correct
  rw [if_neg (by omega)]

/-- A key does no harm exactly when it should not, and then the next state is in order. -/
def KeySpec (c : Nat) (s : Prompt) : Prop :=
  ((∃ r, branch c s = some r ∧ r.Good) ↔ KeyOk c s) ∧
    ∀ r, branch c s = some r → KeyOk c s → Sane r.next

theorem keySpec_editing (hb : branch c s = some (.editing t)) (hok : KeyOk c s) (ht : Sane t) :
    KeySpec c s := by
  refine ⟨⟨fun _ => hok, fun _ => ⟨_, hb, ht.bounds⟩⟩, fun r hr _ => ?_⟩
  rw [hb] at hr
  cases hr
  exact ht

theorem keySpec_none (hb : branch c s = none) (hok : ¬ KeyOk c s) : KeySpec c s := by
  refine ⟨⟨fun ⟨r, hr, _⟩ => ?_, fun h => absurd h hok⟩, fun r _ h => absurd h hok⟩
  rw [hb] at hr
  cases hr

theorem keySpec_outside (hb : branch c s = some (.editing t)) (ht : ¬ t.InBounds)
    (hok : ¬ KeyOk c s) : KeySpec c s := by
  refine ⟨⟨fun ⟨r, hr, hgood⟩ => ?_, fun h => absurd h hok⟩, fun r _ h => absurd h hok⟩
  rw [hb] at hr
  cases hr
  exact absurd hgood ht

theorem keySpec_up (hs : Sane s) : KeySpec 226 s := by
  obtain ⟨hc0, hc1⟩ := hs.command
  have hlast : s.lastCommandIdx ≤ 9 := hs.history.2
  have hmax : historyMax = 9 := rfl
  set u := if s.commandidx ≠ 0 then { s with commandidx := s.commandidx - 1 } else s with hu
  -- the row shown is the one before, or the first again
  have hidx : 0 ≤ u.commandidx ∧ u.commandidx ≤ historyMax ∧
      u.commandidx.toNat = (s.commandidx - 1).toNat ∧ u.commandidx ≤ s.commandidx := by
    rw [hu]
    split
    case isTrue h =>
      dsimp only
      omega
    case isFalse h => omega
  have hhist : u.commandHistory = s.commandHistory ∧ u.lastCommandIdx = s.lastCommandIdx := by
    rw [hu]
    split <;> exact ⟨rfl, rfl⟩
  have hrow : u.commandHistory u.commandidx.toNat = s.commandHistory (s.commandidx - 1).toNat := by
    rw [hhist.1, hidx.2.2.1]
  have hbranch : branch 226 s = (u.clearAndWriteCommand u.commandidx).bind fun t =>
      some (.editing t) := rfl
  have hkey : KeyOk 226 s ↔ Terminated (s.commandHistory (s.commandidx - 1).toNat) := by
    rw [KeyOk, if_pos rfl]
  by_cases ht : Terminated (s.commandHistory (s.commandidx - 1).toNat)
  · obtain ⟨t, hrun, hb, hl, hc⟩ := clearAndWriteCommand_eq (s := u) ⟨hidx.1, hidx.2.1⟩ (hrow ▸ ht)
    rw [hrun] at hbranch
    refine keySpec_editing hbranch (hkey.2 ht) ⟨hb, ?_, ?_⟩
    · rw [hl, hhist.2]
      exact hs.history
    · rw [hl, hc, hhist.2]
      omega
  · rw [clearAndWriteCommand_none (.inr (hrow ▸ ht))] at hbranch
    exact keySpec_none hbranch fun h => ht (hkey.1 h)

theorem keySpec_down (hs : Sane s) : KeySpec 227 s := by
  obtain ⟨hc0, hc1⟩ := hs.command
  have hlast := hs.history.2
  -- `j` is the row that is shown, and `u` the state in which it is
  set j := if s.commandidx < s.lastCommandIdx then s.commandidx + 1 else s.commandidx with hj
  set u := if s.commandidx < s.lastCommandIdx then { s with commandidx := s.commandidx + 1 } else s
    with hu
  have huj : u.commandidx = j ∧ u.commandHistory = s.commandHistory ∧
      u.lastCommandIdx = s.lastCommandIdx ∧ u.InBounds := by
    rw [hu, hj]
    split <;> exact ⟨rfl, rfl, rfl, hs.bounds⟩
  have hjb : 0 ≤ j ∧ j ≤ s.lastCommandIdx + 1 ∧ (j ≤ historyMax ↔ s.commandidx ≤ historyMax) := by
    rw [hj]
    split <;> omega
  have hkey : KeyOk 227 s ↔ (0 ≤ s.lastCommandIdx → s.commandidx ≤ historyMax ∧
      Terminated (s.commandHistory j.toNat)) := by
    rw [KeyOk, if_neg (by decide), if_pos rfl]
  by_cases hneg : 0 ≤ s.lastCommandIdx
  · have hbranch : branch 227 s = (u.clearAndWriteCommand u.commandidx).bind fun t =>
        some (.editing t) := by
      have hpos : 0 ≤ u.lastCommandIdx := huj.2.2.1 ▸ hneg
      have hdef : branch 227 s = if 0 ≤ u.lastCommandIdx then
        (u.clearAndWriteCommand u.commandidx).bind fun t => some (.editing t)
        else some (.editing u) := rfl
      rw [hdef, if_pos hpos]
    by_cases hok : s.commandidx ≤ historyMax ∧ Terminated (s.commandHistory j.toNat)
    · have hrow : 0 ≤ u.commandidx ∧ u.commandidx ≤ historyMax := by
        rw [huj.1]
        exact ⟨hjb.1, hjb.2.2.2 hok.1⟩
      have hterm : Terminated (u.commandHistory u.commandidx.toNat) := by
        rw [huj.1, huj.2.1]
        exact hok.2
      obtain ⟨t, hrun, hb, hl, hc⟩ := clearAndWriteCommand_eq hrow hterm
      rw [hrun] at hbranch
      refine keySpec_editing hbranch (hkey.2 fun _ => hok) ⟨hb, ?_, ?_⟩
      · rw [hl, huj.2.2.1]
        exact hs.history
      · rw [hl, hc, huj.1, huj.2.2.1]
        exact ⟨hjb.1, hjb.2.1⟩
    · -- the row is none of the history's, or its text has no end
      have hfail : ¬ (0 ≤ u.commandidx ∧ u.commandidx ≤ historyMax) ∨
          ¬ Terminated (u.commandHistory u.commandidx.toNat) := by
        rw [huj.1, huj.2.1]
        rcases not_and_or.1 hok with h | h
        · exact .inl fun hc => h (hjb.2.2.1 hc.2)
        · exact .inr h
      rw [clearAndWriteCommand_none hfail] at hbranch
      exact keySpec_none hbranch fun h => hok (hkey.1 h hneg)
  · -- there is no command yet, so the key shows none
    have hbranch : branch 227 s = some (.editing u) := by
      have hdef : branch 227 s = if 0 ≤ u.lastCommandIdx then
        (u.clearAndWriteCommand u.commandidx).bind fun t => some (.editing t)
        else some (.editing u) := rfl
      rw [hdef, huj.2.2.1, if_neg hneg]
    refine keySpec_editing hbranch (hkey.2 fun h => absurd h hneg) ⟨huj.2.2.2, ?_, ?_⟩
    · rw [huj.2.2.1]
      exact hs.history
    · rw [huj.1, huj.2.2.1]
      exact ⟨hjb.1, hjb.2.1⟩

/-- A key that only moves the indices. -/
theorem Sane.move (hs : Sane s) (hb : t.InBounds) (hl : t.lastCommandIdx = s.lastCommandIdx)
    (hc : t.commandidx = s.commandidx) : Sane t := by
  refine ⟨hb, ?_, ?_⟩
  · rw [hl]
    exact hs.history
  · rw [hl, hc]
    exact hs.command

theorem keySpec_left (hs : Sane s) : KeySpec 228 s := by
  obtain ⟨h1, h2, h3⟩ := hs.bounds
  have hok : KeyOk 228 s := by
    rw [KeyOk, if_neg (by decide), if_neg (by decide), if_pos (by decide)]
    trivial
  have hbranch : branch 228 s = some (.editing (if 0 < s.i then { s with i := s.i - 1 } else s)) := rfl
  refine keySpec_editing hbranch hok ?_
  split
  case isTrue h =>
    refine hs.move ⟨?_, ?_, h3⟩ rfl rfl
    · show 0 ≤ s.i - 1
      omega
    · show s.i - 1 ≤ s.lastIndex
      omega
  case isFalse => exact hs

theorem keySpec_right (hs : Sane s) : KeySpec 229 s := by
  obtain ⟨h1, h2, h3⟩ := hs.bounds
  have hok : KeyOk 229 s := by
    rw [KeyOk, if_neg (by decide), if_neg (by decide), if_pos (by decide)]
    trivial
  have hbranch : branch 229 s =
      some (.editing (if s.i < s.lastIndex then { s with i := s.i + 1 } else s)) := rfl
  refine keySpec_editing hbranch hok ?_
  split
  case isTrue h =>
    refine hs.move ⟨?_, ?_, h3⟩ rfl rfl
    · show 0 ≤ s.i + 1
      omega
    · show s.i + 1 ≤ s.lastIndex
      omega
  case isFalse => exact hs

theorem keySpec_delete (hs : Sane s) (hi : 0 < s.i) : KeySpec 0xE9 s := by
  obtain ⟨h1, h2, h3⟩ := hs.bounds
  have hkey : KeyOk 0xE9 s ↔ s.i < s.lastIndex ∧ s.lastIndex < bufLen - 1 := by
    rw [KeyOk, if_neg (by decide), if_neg (by decide), if_neg (by decide), if_pos ⟨rfl, hi⟩]
  have hbranch : branch 0xE9 s = (deleteLoop (s.lastIndex + 1 - s.i).toNat s.i s).bind fun t =>
      some (.editing { t with lastIndex := t.lastIndex - 1 }) := by
    rw [branch, if_neg (by decide), if_neg (by decide), if_neg (by decide), if_neg (by decide),
      if_pos ⟨rfl, hi⟩]
    rfl
  by_cases hfull : s.lastIndex < bufLen - 1
  · obtain ⟨buf, hrun⟩ := deleteLoop_eq (s.lastIndex + 1 - s.i).toNat s.i s h1 (by omega)
    rw [hrun] at hbranch
    by_cases hend : s.i < s.lastIndex
    · refine keySpec_editing hbranch (hkey.2 ⟨hend, hfull⟩) (hs.move ⟨h1, ?_, ?_⟩ rfl rfl)
      · show s.i ≤ s.lastIndex - 1
        omega
      · show s.lastIndex - 1 ≤ bufLen - 1
        omega
    · refine keySpec_outside hbranch (fun hb => ?_) fun h => hend (hkey.1 h).1
      have hlt : s.i ≤ s.lastIndex - 1 := hb.2.1
      omega
  · rw [deleteLoop_none _ _ s h1 (by omega) (by omega)] at hbranch
    exact keySpec_none hbranch fun h => hfull (hkey.1 h).2

/-- A key that types itself. -/
theorem keySpec_type (hs : Sane s) (h226 : c ≠ 226) (h227 : c ≠ 227) (h228 : c ≠ 228)
    (h229 : c ≠ 229)
    (hdel : ¬ (c = 0xE9 ∧ 0 < s.i)) (hc : 32 ≤ c ∧ s.i < bufLen - 1) : KeySpec c s := by
  obtain ⟨h1, h2, h3⟩ := hs.bounds
  have hkey : KeyOk c s ↔ s.lastIndex < bufLen - 1 := by
    rw [KeyOk, if_neg h226, if_neg h227, if_neg (not_or.2 ⟨h228, h229⟩), if_neg hdel, if_pos hc]
  have hbranch : branch c s = some (.editing { s with
      buf := update s.buf s.i.toNat (.ofNat c)
      i := s.i + 1
      lastIndex := s.lastIndex + 1 }) := by
    rw [branch, if_neg h226, if_neg h227, if_neg h228, if_neg h229, if_neg hdel, if_pos hc,
      writeBuf_of_lt h1 (by omega)]
    rfl
  by_cases hfull : s.lastIndex < bufLen - 1
  · refine keySpec_editing hbranch (hkey.2 hfull) (hs.move ⟨?_, ?_, ?_⟩ rfl rfl)
    · show 0 ≤ s.i + 1
      omega
    · show s.i + 1 ≤ s.lastIndex + 1
      omega
    · show s.lastIndex + 1 ≤ bufLen - 1
      omega
  · refine keySpec_outside hbranch (fun hb => ?_) fun h => hfull (hkey.1 h)
    have hlt : s.lastIndex + 1 ≤ bufLen - 1 := hb.2.2
    omega

theorem keySpec_backspace (hs : Sane s) (hi : 0 < s.i) : KeySpec 8 s := by
  obtain ⟨h1, h2, h3⟩ := hs.bounds
  have hprint : ¬ (32 ≤ 8 ∧ s.i < bufLen - 1) := fun h => absurd h.1 (by decide)
  have hdel : ¬ (8 = 0xE9 ∧ 0 < s.i) := fun h => absurd h.1 (by decide)
  have hok : KeyOk 8 s := by
    rw [KeyOk, if_neg (by decide), if_neg (by decide), if_neg (by decide),
      if_neg hdel, if_neg hprint,
      if_neg (by decide)]
    trivial
  have hbranch : branch 8 s = some (.editing { s with
      buf := update s.buf (s.i - 1).toNat (s.buf s.i.toNat)
      i := s.i - 1 }) := by
    rw [branch, if_neg (by decide), if_neg (by decide), if_neg (by decide), if_neg (by decide),
      if_neg hdel, if_neg hprint, if_pos ⟨rfl, hi⟩, readBuf_of_lt h1 (by omega)]
    dsimp only [Option.bind_eq_bind, Option.bind_some]
    rw [writeBuf_of_lt (by omega) (by omega)]
    rfl
  refine keySpec_editing hbranch hok (hs.move ⟨?_, ?_, h3⟩ rfl rfl)
  · show 0 ≤ s.i - 1
    omega
  · show s.i - 1 ≤ s.lastIndex
    omega

theorem keySpec_enter (hs : Sane s) (hc : c = 10 ∨ c = 13) : KeySpec c s := by
  have hprint : ¬ (32 ≤ c ∧ s.i < bufLen - 1) := by omega
  have hdel : ¬ (c = 0xE9 ∧ 0 < s.i) := by omega
  have hkey : KeyOk c s ↔ 0 ≤ s.lastCommandIdx := by
    rw [KeyOk, if_neg (by omega), if_neg (by omega), if_neg (by omega), if_neg hdel, if_neg hprint,
      if_pos hc]
  have hbranch : branch c s = s.enter.bind fun t => some (.returned t) := by
    rw [branch, if_neg (by omega), if_neg (by omega), if_neg (by omega),
      if_neg (by omega), if_neg hdel,
      if_neg hprint, if_neg (by omega), if_pos hc]
    rfl
  by_cases h : 0 ≤ s.lastCommandIdx
  · obtain ⟨t, hrun, hi, hl, ht, hlast⟩ := enter_eq hs h
    rw [hrun] at hbranch
    have hb : t.InBounds := by
      unfold InBounds
      rw [hi, hl]
      exact hs.bounds
    refine ⟨⟨fun _ => hkey.2 h, fun _ => ⟨_, hbranch, hb, ht⟩⟩, fun r hr _ => ?_⟩
    rw [hbranch] at hr
    cases hr
    refine ⟨⟨Int.le_refl 0, Int.le_refl 0, (by decide : (0 : Int) ≤ bufLen - 1)⟩, ⟨?_, hlast.2⟩,
      ?_, Int.le_refl _⟩
    · exact Int.le_trans (by decide) hlast.1
    · show 0 ≤ t.lastCommandIdx + 1
      omega
  · have hneg : s.lastCommandIdx = -1 := by
      have := hs.history.1
      omega
    -- the first command is compared with the row before the history
    rw [enter_none hs.bounds hneg] at hbranch
    exact keySpec_none hbranch fun hok => h (hkey.1 hok)

/-- **One key**, in a state that is in order. -/
theorem keySpec (hs : Sane s) (c : Nat) : KeySpec c s := by
  by_cases h226 : c = 226
  · exact h226 ▸ keySpec_up hs
  by_cases h227 : c = 227
  · exact h227 ▸ keySpec_down hs
  by_cases h228 : c = 228
  · exact h228 ▸ keySpec_left hs
  by_cases h229 : c = 229
  · exact h229 ▸ keySpec_right hs
  by_cases hdel : c = 0xE9 ∧ 0 < s.i
  · exact hdel.1 ▸ keySpec_delete hs hdel.2
  by_cases hprint : 32 ≤ c ∧ s.i < bufLen - 1
  · exact keySpec_type hs h226 h227 h228 h229 hdel hprint
  by_cases hback : c = 8 ∧ 0 < s.i
  · exact hback.1 ▸ keySpec_backspace hs hback.2
  by_cases henter : c = 10 ∨ c = 13
  · exact keySpec_enter hs henter
  -- any other key is ignored
  have hok : KeyOk c s := by
    rw [KeyOk, if_neg h226, if_neg h227, if_neg (not_or.2 ⟨h228, h229⟩), if_neg hdel, if_neg hprint,
      if_neg henter]
    trivial
  have hbranch : branch c s = some (.editing s) := by
    rw [branch, if_neg h226, if_neg h227, if_neg h228, if_neg h229, if_neg hdel, if_neg hprint,
      if_neg hback, if_neg henter]
    rfl
  exact keySpec_editing hbranch hok hs

/-- **The indices stay in bounds through a run of keys exactly if no key does harm** in the state in
which it is read. The run begins at the start of a line, with any history. -/
theorem readline_safe_iff (hlast : -1 ≤ s.lastCommandIdx ∧ s.lastCommandIdx ≤ historyMax)
    (keys : List Nat) : SafeRun keys s.startLine ↔ OkRun keys s.startLine := by
  have hstart : Sane s.startLine := by
    refine ⟨⟨Int.le_refl 0, Int.le_refl 0, (by decide : (0 : Int) ≤ bufLen - 1)⟩, hlast,
      ?_, Int.le_refl _⟩
    show 0 ≤ s.lastCommandIdx + 1
    omega
  generalize s.startLine = u at hstart ⊢
  induction keys generalizing u with
  | nil => exact Iff.rfl
  | cons c keys ih =>
    have hspec := keySpec hstart c
    have hproc : processKey c u = branch c u := by rw [processKey, correct_eq hstart.bounds]
    have hsafe : KeySafe c u ↔ KeyOk c u := by
      unfold KeySafe
      rw [hproc]
      exact hspec.1
    rw [SafeRun, OkRun, hsafe]
    apply and_congr_right
    intro hok
    apply forall_congr'
    intro r
    apply imp_congr_right
    intro hr
    exact ih _ (hspec.2 r (hproc ▸ hr) hok)

/-- The prompt before its first line: the history is empty. -/
def start : Prompt := ⟨fun _ => 0, 0, 0, 0, fun _ _ => 0, -1⟩

/-- `ls`, deleted and recalled, after one line of history. -/
theorem readline_safe_recall :
    SafeRun [108, 115, 228, 0xE9, 8, 226, 227, 13] { start with lastCommandIdx := 0 }.startLine ↔
      OkRun [108, 115, 228, 0xE9, 8, 226, 227, 13] { start with lastCommandIdx := 0 }.startLine :=
  readline_safe_iff (by decide) _

/-- The first line compares with the entry before the first one of the history. -/
theorem readline_first_enter : ¬ SafeRun [13] start.startLine := by
  rintro ⟨⟨r, hr, -⟩, -⟩
  have hnone : processKey 13 start.startLine = none := rfl
  rw [hnone] at hr
  cases hr

end

end Prompt

end Fos
