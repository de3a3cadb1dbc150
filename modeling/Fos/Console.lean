import Fos.Lib.Copy
import Fos.Lib.Ring

/-!
# The console

`kern/console.c`: the display, the keyboard, the serial port, and the buffer between the interrupts
and the readers. An `int` that is a character is a word of 32 bits. What goes to the parallel port
and to the display's registers is left out.
-/

namespace Fos

open Function (update)

/-! ## The display -/

/-- `CRT_COLS` -/
abbrev crtCols : Nat := 80

/-- `CRT_SIZE` -/
abbrev crtSize : Nat := 2000

/-- The text memory from `crt_buf` on, `crt_pos` and `text_length`. -/
structure Screen where
  crtBuf : Nat → UInt16
  crtPos : Nat
  textLength : Int

/-- A value as it is stored in a `uint16`. -/
def u16 (n : Nat) : Nat := n % 65536

/-- Black on white where no attribute is given. -/
def withAttribute (c : UInt32) : UInt32 := if c &&& 0xFFFFFF00 = 0 then c ||| 0x0700 else c

namespace Screen

/-- The `switch` of `cga_putc`, its case for a tab apart. -/
def putGlyph (c : UInt32) (s : Screen) : Screen :=
  if c &&& 0xFF = 8 then
    if 0 < s.crtPos then
      { s with
        crtPos := s.crtPos - 1
        crtBuf := update s.crtBuf (s.crtPos - 1) ((c &&& 0xFFFFFF00) ||| 0x20).toUInt16 }
    else s
  else if c &&& 0xFF = 10 then
    { s with
      crtPos := u16 (s.crtPos + crtCols) - u16 (s.crtPos + crtCols) % crtCols
      textLength := 0 }
  else if c &&& 0xFF = 13 then { s with crtPos := s.crtPos - s.crtPos % crtCols }
  else if c &&& 0xFF = 228 then (if 0 < s.crtPos then { s with crtPos := s.crtPos - 1 } else s)
  else if c &&& 0xFF = 229 then
    (if s.crtPos < crtSize then { s with crtPos := u16 (s.crtPos + 1) } else s)
  else if c ≠ 228 ∧ c ≠ 229 then
    { crtBuf := update s.crtBuf s.crtPos c.toUInt16
      crtPos := u16 (s.crtPos + 1)
      textLength :=
        if 1920 + s.textLength < u16 (s.crtPos + 1) then s.textLength + 1 else s.textLength }
  else s

/-- A full display moves up by a row. -/
def scroll (s : Screen) : Screen :=
  if crtSize ≤ s.crtPos then
    { s with
      crtBuf := fun i =>
        if crtSize - crtCols ≤ i ∧ i < crtSize then 0x0720
        else Copy.up 0 crtCols (crtSize - crtCols) s.crtBuf i
      crtPos := s.crtPos - crtCols }
  else s

/-- `cga_putc` of a character that is no tab. -/
def putChar (c : UInt32) (s : Screen) : Screen := (s.putGlyph c).scroll

/-- `cga_putc`. A tab calls it for five spaces. -/
def cgaPutc (c : UInt32) (s : Screen) : Screen :=
  if withAttribute c &&& 0xFF = 9 then
    ((List.replicate 5 (withAttribute 32)).foldl (fun s c => s.putChar c) s).scroll
  else s.putChar (withAttribute c)

end Screen

/-! ## The state -/

/-- `CONSBUFSIZE` -/
abbrev consBufSize : Nat := 512

/-- The display, the modifiers of the keyboard, the input buffer `cons`, and the bytes that wait at
the serial port and at the keyboard. -/
structure Console where
  screen : Screen
  shift : UInt32
  input : Ring.Buffer UInt8
  serialExists : Bool
  serial : List UInt8
  keyboard : List UInt8

/-! ## The keyboard -/

/-- `SHIFT` -/
abbrev modShift : UInt32 := 1

/-- `CTL` -/
abbrev modCtl : UInt32 := 2

/-- `ALT` -/
abbrev modAlt : UInt32 := 4

abbrev capsLock : UInt32 := 8

abbrev numLock : UInt32 := 16

abbrev scrollLock : UInt32 := 32

/-- `E0ESC`: the last byte was an E0 escape. -/
abbrev e0Esc : UInt32 := 64

def shiftcode (data : UInt8) : UInt32 :=
  if data = 0x1D ∨ data = 0x9D then modCtl
  else if data = 0x2A ∨ data = 0x36 then modShift
  else if data = 0x38 ∨ data = 0xB8 then modAlt
  else 0

def togglecode (data : UInt8) : UInt32 :=
  if data = 0x3A then capsLock
  else if data = 0x45 then numLock
  else if data = 0x46 then scrollLock
  else 0

/-- A row of keys. -/
def keys (cs : List Char) : List UInt8 := cs.map fun c => .ofNat c.toNat

/-- `KEY_DEL` -/
abbrev keyDel : UInt8 := 0xE9

/-- The entries of the maps that the keys after an E0 escape share. -/
def extendedKeys : List (UInt8 × UInt8) :=
  [(0x97, 0xE0), (0xC8, 0xE2), (0xC9, 0xE6), (0xCB, 0xE4), (0xCD, 0xE5), (0xCF, 0xE1), (0xD0, 0xE3),
    (0xD1, 0xE7), (0xD2, 0xE8), (0xD3, keyDel)]

/-- A map from its first rows and its entries from 0x80 on. -/
def keymap (rows : List UInt8) (extended : List (UInt8 × UInt8)) (data : UInt8) : UInt8 :=
  (extended.lookup data).getD (rows.getD data.toNat 0)

def normalmap : UInt8 → UInt8 :=
  keymap ([0, 0x1B] ++ keys ['1', '2', '3', '4', '5', '6', '7', '8', '9', '0', '-', '='] ++ [8, 9] ++
      keys ['q', 'w', 'e', 'r', 't', 'y', 'u', 'i', 'o', 'p', '[', ']'] ++ [10, 0] ++
      keys ['a', 's', 'd', 'f', 'g', 'h', 'j', 'k', 'l', ';'] ++ [0x27] ++ keys ['`'] ++ [0, 0x5C] ++
      keys ['z', 'x', 'c', 'v', 'b', 'n', 'm', ',', '.', '/'] ++ [0] ++ keys ['*'] ++ [0, 0x20] ++
      List.replicate 13 0 ++
      keys ['7', '8', '9', '-', '4', '5', '6', '+', '1', '2', '3', '0', '.'])
    ((0x9C, 10) :: (0xB5, 0x2F) :: extendedKeys)

def shiftmap : UInt8 → UInt8 :=
  keymap ([0, 0x1B] ++ keys ['!', '@', '#', '$', '%', '^', '&', '*', '(', ')', '_', '+'] ++ [8, 9] ++
      keys ['Q', 'W', 'E', 'R', 'T', 'Y', 'U', 'I', 'O', 'P', '{', '}'] ++ [10, 0] ++
      keys ['A', 'S', 'D', 'F', 'G', 'H', 'J', 'K', 'L', ':'] ++ [0x22] ++ keys ['~'] ++ [0, 0x7C] ++
      keys ['Z', 'X', 'C', 'V', 'B', 'N', 'M', '<', '>', '?'] ++ [0] ++ keys ['*'] ++ [0, 0x20] ++
      List.replicate 13 0 ++
      keys ['7', '8', '9', '-', '4', '5', '6', '+', '1', '2', '3', '0', '.'])
    ((0x9C, 10) :: (0xB5, 0x2F) :: extendedKeys)

/-- `C(x)` of a row of keys. -/
def ctlKeys (cs : List Char) : List UInt8 := (keys cs).map fun c => c - 0x40

def ctlmap : UInt8 → UInt8 :=
  keymap (List.replicate 16 0 ++ ctlKeys ['Q', 'W', 'E', 'R', 'T', 'Y', 'U', 'I', 'O', 'P'] ++
      [0, 0, 13, 0] ++ ctlKeys ['A', 'S', 'D', 'F', 'G', 'H', 'J', 'K', 'L'] ++ [0, 0, 0, 0] ++
      [0x5C - 0x40] ++ ctlKeys ['Z', 'X', 'C', 'V', 'B', 'N', 'M'] ++ [0, 0] ++ [0x2F - 0x40] ++
      [0, 0, 0, 0xFF])
    ((0xB5, 0x2F - 0x40) :: extendedKeys)

/-- `charcode[shift & (CTL | SHIFT)]` -/
def charcode (shift : UInt32) : UInt8 → UInt8 :=
  if shift &&& modCtl ≠ 0 then ctlmap
  else if shift &&& modShift ≠ 0 then shiftmap
  else normalmap

/-- Caps lock exchanges small and capital letters. -/
def withCapsLock (shift : UInt32) (c : UInt8) : UInt8 :=
  if shift &&& capsLock ≠ 0 then
    if 0x61 ≤ c ∧ c ≤ 0x7A then c - 0x20 else if 0x41 ≤ c ∧ c ≤ 0x5A then c + 0x20 else c
  else c

/-- The keys that give nothing. -/
def specialKey (shift : UInt32) (c : UInt8) : UInt8 :=
  if shift = numLock ∧ 0x30 ≤ c ∧ c ≤ 0x39 then 0 else if c = 255 then 0 else c

namespace Console

/-- The delete key. The loop takes the cells after the cursor one place back, up to the end of the
text of the last row. -/
def deleteKey (k : Console) : UInt8 × Console :=
  let s := k.screen
  if 0 < s.textLength then
    if (s.crtPos : Int) = 1920 + s.textLength then (0, k)
    else
      (keyDel, { k with screen := { s with
        textLength := s.textLength - 1
        crtBuf := Copy.up s.crtPos (s.crtPos + 1) (s.textLength - (s.crtPos - 1925)).toNat s.crtBuf } })
  else (0, k)

/-- A key goes down. -/
def keyDown (data : UInt8) (k : Console) : UInt8 × Console :=
  let shift := (k.shift ||| shiftcode data) ^^^ togglecode data
  let k := { k with shift := shift }
  let c := charcode shift data
  if c = keyDel then k.deleteKey else (specialKey shift (withCapsLock shift c), k)

/-- `kbd_proc_data` for a byte that the keyboard has. -/
def kbdProcData (data : UInt8) (k : Console) : UInt8 × Console :=
  if data = 0xE0 then (0, { k with shift := k.shift ||| e0Esc })
  else if data &&& 0x80 ≠ 0 then
    let data := if k.shift &&& e0Esc ≠ 0 then data else data &&& 0x7F
    (0, { k with shift := k.shift &&& ~~~(shiftcode data ||| e0Esc) })
  else if k.shift &&& e0Esc ≠ 0 then
    { k with shift := k.shift &&& ~~~e0Esc }.keyDown (data ||| 0x80)
  else k.keyDown data

/-- `serial_proc_data` for a byte that the port has. -/
def serialProcData (data : UInt8) (k : Console) : UInt8 × Console := (data, k)

/-! ## The input buffer -/

/-- A character goes into the buffer unless it is 0. -/
def enter (r : UInt8 × Console) : Console :=
  if r.1 = 0 then r.2 else { r.2 with input := Ring.push consBufSize r.1 r.2.input }

/-- `cons_intr`, over the bytes that the device has. -/
def consIntr (proc : UInt8 → Console → UInt8 × Console) : List UInt8 → Console → Console
  | [], k => k
  | data :: rest, k => consIntr proc rest (enter (proc data k))

def serialIntr (k : Console) : Console :=
  if k.serialExists then consIntr serialProcData k.serial { k with serial := [] } else k

def kbdIntr (k : Console) : Console := consIntr kbdProcData k.keyboard { k with keyboard := [] }

/-- The oldest character of the buffer, or 0. -/
def take (k : Console) : UInt8 × Console :=
  let r := Ring.pop consBufSize k.input
  (r.1.getD 0, { k with input := r.2 })

/-- `cons_getc` -/
def consGetc (k : Console) : UInt8 × Console := k.serialIntr.kbdIntr.take

/-- `cons_getc2` takes one byte of the serial port -/
def serialPoll (k : Console) : Console :=
  if k.serialExists then
    match k.serial with
    | [] => k
    | data :: rest => enter (serialProcData data { k with serial := rest })
  else k

/-- and one of the keyboard, and answers only when the keyboard gave a character. -/
def kbdPoll (k : Console) : UInt8 × Console :=
  match k.keyboard with
  | [] => (0, k)
  | data :: rest =>
    let r := kbdProcData data { k with keyboard := rest }
    if r.1 = 0 then (0, r.2) else (enter r).take

/-- `cons_getc2` -/
def consGetc2 (k : Console) : UInt8 × Console := k.serialPoll.kbdPoll

/-- `cons_putc` and `cputchar` -/
def consPutc (c : UInt32) (k : Console) : Console := { k with screen := k.screen.cgaPutc c }

end Console

end Fos
