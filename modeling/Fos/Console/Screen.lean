import Fos.Console

/-!
# What the display shows

The display is a window of 25 rows on a tape that is never moved: the text goes on below, and the
window follows the cursor down. Nothing above the window can be reached again.
-/

namespace Fos

open Function (update)

/-- The cells of the tape, the cursor, and the first row in the window. -/
structure Tape where
  cell : Nat → UInt16
  cursor : Nat
  top : Nat

namespace Tape

/-- The first cell in the window. -/
def start (t : Tape) : Nat := 80 * t.top

def putGlyph (c : UInt32) (t : Tape) : Tape :=
  if c &&& 0xFF = 8 then
    if t.start < t.cursor then
      { t with
        cursor := t.cursor - 1
        cell := update t.cell (t.cursor - 1) ((c &&& 0xFFFFFF00) ||| 0x20).toUInt16 }
    else t
  else if c &&& 0xFF = 10 then { t with cursor := (t.cursor / 80 + 1) * 80 }
  else if c &&& 0xFF = 13 then { t with cursor := t.cursor / 80 * 80 }
  else if c &&& 0xFF = 228 then (if t.start < t.cursor then { t with cursor := t.cursor - 1 } else t)
  else if c &&& 0xFF = 229 then { t with cursor := t.cursor + 1 }
  else { t with cell := update t.cell t.cursor c.toUInt16, cursor := t.cursor + 1 }

/-- The window goes down a row when the cursor has left it. -/
def follow (t : Tape) : Tape := if t.start + 2000 ≤ t.cursor then { t with top := t.top + 1 } else t

def putChar (c : UInt32) (t : Tape) : Tape := (t.putGlyph c).follow

def putc (c : UInt32) (t : Tape) : Tape :=
  if withAttribute c &&& 0xFF = 9 then
    (List.replicate 5 (withAttribute 32)).foldl (fun t c => t.putChar c) t
  else t.putChar (withAttribute c)

end Tape

/-- The tape that a display begins with: blank below it. -/
def Screen.tape (s : Screen) : Tape :=
  ⟨fun i => if i < 2000 then s.crtBuf i else 0x0720, s.crtPos, 0⟩

/-- The display is the window. -/
structure Screen.Shows (s : Screen) (t : Tape) : Prop where
  cursor : t.cursor = t.start + s.crtPos
  le : s.crtPos ≤ 2000
  cells : ∀ i < 2000, s.crtBuf i = t.cell (t.start + i)
  blank : ∀ i, t.start + 2000 ≤ i → t.cell i = 0x0720

section

variable {s : Screen} {t : Tape} {c : UInt32} {p q : Nat} {n : Int} {v : UInt16}

theorem Screen.shows_tape (h : s.crtPos < 2000) : s.Shows s.tape := by
  have hstart : s.tape.start = 0 := rfl
  constructor
  · rw [hstart, Nat.zero_add]
    rfl
  · omega
  · intro i hi
    rw [hstart, Nat.zero_add]
    exact (if_pos hi).symm
  · intro i hi
    simp only [hstart, Nat.zero_add] at hi
    exact if_neg (by omega)

/-- The cursor is moved. -/
theorem Screen.Shows.move (h : s.Shows t) (hp : p ≤ 2000) :
    Screen.Shows ⟨s.crtBuf, p, n⟩ { t with cursor := t.start + p } :=
  ⟨rfl, hp, h.cells, h.blank⟩

/-- A cell is written. -/
theorem Screen.Shows.write (h : s.Shows t) (hp : p < 2000) (hq : q ≤ 2000) :
    Screen.Shows ⟨update s.crtBuf p v, q, n⟩
      ⟨update t.cell (t.start + p) v, t.start + q, t.top⟩ := by
  refine ⟨rfl, hq, fun i hi => ?_, fun i hi => ?_⟩
  · show update s.crtBuf p v i = update t.cell (t.start + p) v (t.start + i)
    by_cases hip : i = p
    · simp [hip]
    · rw [Function.update_of_ne hip, Function.update_of_ne (by omega)]
      exact h.cells i hi
  · show update t.cell (t.start + p) v i = _
    have hi' : t.start + 2000 ≤ i := hi
    rw [Function.update_of_ne (by omega)]
    exact h.blank i hi'

/-- The beginning of the row of a cell of the window. -/
theorem Tape.row_start (t : Tape) : (t.start + p) / 80 * 80 = t.start + (p - p % 80) := by
  unfold Tape.start
  omega

theorem u16_of_lt {x : Nat} (h : x < 65536) : u16 x = x := Nat.mod_eq_of_lt h

theorem Screen.Shows.putGlyph (h : s.Shows t) (hlt : s.crtPos < 2000) :
    (s.putGlyph c).Shows (t.putGlyph c) := by
  have hcur := h.cursor
  have hmem : t.start < t.cursor ↔ 0 < s.crtPos := by omega
  have hprev (hpos : 0 < s.crtPos) : t.cursor - 1 = t.start + (s.crtPos - 1) := by omega
  have hnext : t.cursor + 1 = t.start + (s.crtPos + 1) := by omega
  have h80 : u16 (s.crtPos + 80) = s.crtPos + 80 := u16_of_lt (by omega)
  unfold Screen.putGlyph Tape.putGlyph
  simp only [hmem, u16_of_lt (show s.crtPos + 1 < 65536 by omega), h80, crtCols, crtSize]
  split
  · -- a backspace
    split
    · rename_i hpos
      rw [hprev hpos]
      exact h.write (by omega) (by omega)
    · exact h
  split
  · -- a new line goes to the row after that of the cursor
    have hrow : (t.cursor / 80 + 1) * 80 = t.start + (s.crtPos + 80 - (s.crtPos + 80) % 80) := by
      rw [← Tape.row_start, hcur]
      omega
    rw [hrow]
    exact h.move (by omega)
  split
  · -- a return
    have hrow : t.cursor / 80 * 80 = t.start + (s.crtPos - s.crtPos % 80) := by
      rw [← Tape.row_start, hcur]
    rw [hrow]
    exact h.move (by omega)
  split
  · -- the key to the left stops at the window's first cell
    split
    · rename_i hpos
      rw [hprev hpos]
      exact h.move (by omega)
    · exact h
  split
  · -- the key to the right
    rw [hnext]
    exact h.move (by omega)
  · -- a character
    rename_i h228 h229
    have hne : c ≠ 228 ∧ c ≠ 229 := by
      constructor
      · rintro rfl
        exact h228 (by decide)
      · rintro rfl
        exact h229 (by decide)
    rw [if_pos hne, hnext, hcur]
    exact h.write hlt (by omega)

/-- A full display scrolls as the window goes down. -/
theorem Screen.Shows.scroll (h : s.Shows t) : s.scroll.Shows t.follow ∧ s.scroll.crtPos < 2000 := by
  have hcur := h.cursor
  have hle := h.le
  unfold Screen.scroll Tape.follow
  simp only [crtSize, crtCols]
  by_cases hfull : 2000 ≤ s.crtPos
  · -- the cursor ran past the last row: the window moves down by one row of the tape
    have hstart : Tape.start ⟨t.cell, t.cursor, t.top + 1⟩ = t.start + 80 := by
      exact Nat.mul_succ ..
    rw [if_pos hfull, if_pos (by omega)]
    refine ⟨⟨?_, ?_, ?_, ?_⟩, ?_⟩
    · rw [hstart]
      dsimp only
      omega
    · dsimp only
      omega
    · intro i hi
      rw [hstart]
      dsimp only
      by_cases hlast : 2000 - 80 ≤ i
      · -- the row that comes into the window is blank on the tape
        rw [if_pos ⟨hlast, hi⟩, h.blank _ (by omega)]
      · rw [if_neg (by omega), Copy.up_eq_moved (by omega), Copy.moved_of_mem (by omega) (by omega),
          h.cells _ (by omega)]
        congr 1
        omega
    · intro i hi
      rw [hstart] at hi
      exact h.blank i (by omega)
    · dsimp only
      omega
  · rw [if_neg hfull, if_neg (by omega)]
    exact ⟨h, by omega⟩

theorem Screen.Shows.putChar (h : s.Shows t) (hlt : s.crtPos < 2000) :
    (s.putChar c).Shows (t.putChar c) ∧ (s.putChar c).crtPos < 2000 :=
  (h.putGlyph hlt).scroll

theorem Screen.Shows.putChars (h : s.Shows t) (hlt : s.crtPos < 2000) (cs : List UInt32) :
    (cs.foldl (fun s c => s.putChar c) s).Shows (cs.foldl (fun t c => t.putChar c) t) ∧
      (cs.foldl (fun s c => s.putChar c) s).crtPos < 2000 := by
  induction cs generalizing s t with
  | nil => exact ⟨h, hlt⟩
  | cons c cs ih =>
    obtain ⟨h', hlt'⟩ := h.putChar (c := c) hlt
    exact ih h' hlt'

/-- One call of `cga_putc`. -/
theorem Screen.Shows.cgaPutc (h : s.Shows t) (hlt : s.crtPos < 2000) :
    (s.cgaPutc c).Shows (t.putc c) ∧ (s.cgaPutc c).crtPos < 2000 := by
  unfold Screen.cgaPutc Tape.putc
  split
  · obtain ⟨h', hlt'⟩ := h.putChars hlt (List.replicate 5 (withAttribute 32))
    -- the display does not scroll once more after the last space
    rw [Screen.scroll, if_neg (by unfold crtSize; omega)]
    exact ⟨h', hlt'⟩
  · exact h.putChar hlt

theorem Screen.Shows.output (h : s.Shows t) (hlt : s.crtPos < 2000) (cs : List UInt32) :
    (cs.foldl (fun s c => s.cgaPutc c) s).Shows (cs.foldl (fun t c => t.putc c) t) ∧
      (cs.foldl (fun s c => s.cgaPutc c) s).crtPos < 2000 := by
  induction cs generalizing s t with
  | nil => exact ⟨h, hlt⟩
  | cons c cs ih =>
    obtain ⟨h', hlt'⟩ := h.cgaPutc (c := c) hlt
    exact ih h' hlt'

end

/-- **The display is a window.** Whatever is put, the cursor stays on the display, and the display
shows 25 rows of the tape on which the same characters were put. -/
theorem screen_window {s : Screen} (hpos : s.crtPos < crtSize) (cs : List UInt32) :
    let s' := cs.foldl (fun s c => s.cgaPutc c) s
    let t' := cs.foldl (fun t c => t.putc c) s.tape
    s'.crtPos < crtSize ∧ t'.cursor = 80 * t'.top + s'.crtPos ∧
      ∀ i < crtSize, s'.crtBuf i = t'.cell (80 * t'.top + i) := by
  obtain ⟨h, hlt⟩ := (Screen.shows_tape hpos).output hpos cs
  exact ⟨hlt, h.cursor, h.cells⟩

/-- A display with its cursor in the last cell. -/
def lastCell : Screen := ⟨fun _ => 0x0720, 1999, 0⟩

/-- A character in the last cell makes it scroll. -/
theorem screen_window_last : (lastCell.cgaPutc 65).crtPos < crtSize ∧
    ∀ i < crtSize, (lastCell.cgaPutc 65).crtBuf i =
      (lastCell.tape.putc 65).cell (80 * (lastCell.tape.putc 65).top + i) := by
  have h := screen_window (s := lastCell) (by decide) [65]
  exact ⟨h.1, h.2.2⟩

end Fos
