import Fos.Console.Input

/-!
# Typing

What the keyboard driver makes of the bytes that keystrokes send: with and without shift, and under
any state of the locks.
-/

namespace Fos

/-- A key that is pressed and released, with shift held or not. -/
structure KeyStroke where
  shifted : Bool
  code : UInt8

namespace KeyStroke

/-- The bytes that the keyboard sends. -/
def bytes (t : KeyStroke) : List UInt8 :=
  if t.shifted then [0x2A, t.code, t.code ||| 0x80, 0xAA] else [t.code, t.code ||| 0x80]

/-- The key is on the main block, and no modifier. -/
def Plain (t : KeyStroke) : Prop := t.code < 0x60 ∧ shiftcode t.code = 0

/-- The locks after the stroke. -/
def locks (t : KeyStroke) (l : UInt32) : UInt32 := l ^^^ togglecode t.code

/-- What a reader is to get for it, or 0. -/
def char (t : KeyStroke) (l : UInt32) : UInt8 :=
  if t.shifted then
    specialKey (t.locks l ||| modShift) (withCapsLock (t.locks l ||| modShift) (shiftmap t.code))
  else specialKey (t.locks l) (withCapsLock (t.locks l) (normalmap t.code))

end KeyStroke

/-- What a reader is to get for strokes, beginning with locks. -/
def typedChars : UInt32 → List KeyStroke → List UInt8
  | _, [] => []
  | l, t :: ts => (if t.char l = 0 then [] else [t.char l]) ++ typedChars (t.locks l) ts

/-- What holds of every word of a list is decided along the list, not over all words. -/
local instance (priority := 2000) forallWords (P : UInt32 → Prop) [DecidablePred P]
    (l : List UInt32) : Decidable (∀ a ∈ l, P a) := List.decidableBAll P l

/-- The states of the locks with no modifier held. -/
def lockStates : List UInt32 := [0, 8, 16, 24, 32, 40, 48, 56]

namespace Console

/-- The driver's answer to a byte, and the modifiers afterwards; the delete key apart. -/
def decode (data : UInt8) (shift : UInt32) : UInt8 × UInt32 :=
  if data = 0xE0 then (0, shift ||| e0Esc)
  else if data &&& 0x80 ≠ 0 then
    let data := if shift &&& e0Esc ≠ 0 then data else data &&& 0x7F
    (0, shift &&& ~~~(shiftcode data ||| e0Esc))
  else
    let data := if shift &&& e0Esc ≠ 0 then data ||| 0x80 else data
    let shift := if shift &&& e0Esc ≠ 0 then shift &&& ~~~e0Esc else shift
    let shift := (shift ||| shiftcode data) ^^^ togglecode data
    (if charcode shift data = keyDel then keyDel
      else specialKey shift (withCapsLock shift (charcode shift data)), shift)

theorem kbdProcData_decode {data : UInt8} {k : Console} (h : (decode data k.shift).1 ≠ keyDel) :
    kbdProcData data k =
      ((decode data k.shift).1, { k with shift := (decode data k.shift).2 }) := by
  unfold decode at h ⊢
  unfold kbdProcData
  split
  · rfl
  split
  · rfl
  rename_i h1 h2
  rw [if_neg h1, if_neg h2] at h
  dsimp only at h ⊢
  -- after an escape the byte is another key's
  by_cases hesc : k.shift &&& e0Esc ≠ 0
  · simp only [if_pos hesc] at h ⊢
    unfold keyDown
    dsimp only
    split
    · rename_i hdel
      rw [if_pos hdel] at h
      exact absurd rfl h
    · rfl
  · simp only [if_neg hesc] at h ⊢
    unfold keyDown
    dsimp only
    split
    · rename_i hdel
      rw [if_pos hdel] at h
      exact absurd rfl h
    · rfl

section

variable {l : UInt32} {t : KeyStroke} {data : UInt8}

/-- The bits of the modifiers and of the escape, without shift and with it; what the keys of the
locks change; and the shift key. -/
theorem lock_values : ∀ l ∈ lockStates, (l &&& e0Esc = 0 ∧ l &&& modCtl = 0 ∧ l &&& modShift = 0 ∧
    (l ||| modShift) &&& e0Esc = 0 ∧ (l ||| modShift) &&& modCtl = 0 ∧
    (l ||| modShift) &&& modShift ≠ 0 ∧ l &&& ~~~(0 ||| e0Esc) = l ∧
    (l ||| modShift) &&& ~~~(0 ||| e0Esc) = l ||| modShift) ∧
    (∀ m ∈ [0, capsLock, numLock, scrollLock], l ^^^ m ∈ lockStates ∧ (l ||| 0) ^^^ m = l ^^^ m ∧
      ((l ||| modShift) ||| 0) ^^^ m = (l ^^^ m) ||| modShift) ∧
    decode 0x2A l = (0, l ||| modShift) ∧ decode 0xAA (l ||| modShift) = (0, l) := by decide +kernel

/-- The codes of the main block. -/
theorem plain_codes : ∀ i < 0x60, (UInt8.ofNat i) ≠ 0xE0 ∧ (UInt8.ofNat i) &&& 0x80 = 0 ∧
    (UInt8.ofNat i) ||| 0x80 ≠ 0xE0 ∧ ((UInt8.ofNat i) ||| 0x80) &&& 0x80 ≠ 0 ∧
    ((UInt8.ofNat i) ||| 0x80) &&& 0x7F = UInt8.ofNat i ∧
    togglecode (.ofNat i) ∈ [0, capsLock, numLock, scrollLock] ∧
    normalmap (.ofNat i) < 0x80 ∧ shiftmap (.ofNat i) < 0x80 := by decide +kernel

theorem plain_code (h : data < 0x60) : data ≠ 0xE0 ∧ data &&& 0x80 = 0 ∧ data ||| 0x80 ≠ 0xE0 ∧
    (data ||| 0x80) &&& 0x80 ≠ 0 ∧ (data ||| 0x80) &&& 0x7F = data ∧
    togglecode data ∈ [0, capsLock, numLock, scrollLock] ∧ normalmap data < 0x80 ∧
    shiftmap data < 0x80 := by
  have hcode := plain_codes data.toNat h
  rw [UInt8.ofNat_toNat] at hcode
  exact hcode

/-- No key of the main block is the delete key. -/
theorem specialKey_ne {c : UInt8} (hc : c < 0x80) (shift shift' : UInt32) :
    specialKey shift (withCapsLock shift' c) ≠ keyDel := by
  have hall : ∀ i < 0x80, (UInt8.ofNat i) ≠ keyDel ∧
      (0x61 ≤ UInt8.ofNat i → (UInt8.ofNat i) - 0x20 ≠ keyDel) ∧
      (UInt8.ofNat i) + 0x20 ≠ keyDel := by decide +kernel
  have hne := hall c.toNat hc
  rw [UInt8.ofNat_toNat] at hne
  have hcaps : withCapsLock shift' c ≠ keyDel := by
    unfold withCapsLock
    split
    · split
      · rename_i hsmall
        exact hne.2.1 hsmall.1
      · split
        · exact hne.2.2
        · exact hne.1
    · exact hne.1
  unfold specialKey
  split
  · decide
  · split
    · decide
    · exact hcaps

theorem char_ne (ht : t.Plain) : t.char l ≠ keyDel := by
  obtain ⟨-, -, -, -, -, -, hn, hs⟩ := plain_code ht.1
  unfold KeyStroke.char
  split
  · exact specialKey_ne hs _ _
  · exact specialKey_ne hn _ _

/-- A key that goes up changes nothing. -/
theorem decode_up (h : data < 0x60) (hcode : shiftcode data = 0) {shift : UInt32}
    (hesc : shift &&& e0Esc = 0) (hsame : shift &&& ~~~(0 ||| e0Esc) = shift) :
    decode (data ||| 0x80) shift = (0, shift) := by
  obtain ⟨-, -, h1, h2, h3, -⟩ := plain_code h
  unfold decode
  rw [if_neg h1, if_pos h2]
  simp only [hesc, ne_eq, not_true, if_false, h3, hcode, hsame]

theorem decode_down (h : data < 0x60) (hcode : shiftcode data = 0) {shift : UInt32}
    (hesc : shift &&& e0Esc = 0) {shift' : UInt32} (hshift : (shift ||| 0) ^^^ togglecode data = shift')
    (hdel : charcode shift' data ≠ keyDel) :
    decode data shift = (specialKey shift' (withCapsLock shift' (charcode shift' data)), shift') := by
  obtain ⟨h1, h2, -⟩ := plain_code h
  unfold decode
  rw [if_neg h1, if_neg (not_not.2 h2)]
  simp only [hesc, ne_eq, not_true, if_false, hcode, hshift, hdel]

theorem decode_shift {l : UInt32} (hl : l ∈ lockStates) : decode 0x2A l = (0, l ||| modShift) ∧
    decode 0xAA (l ||| modShift) = (0, l) := (lock_values l hl).2.2

/-- The bytes of a stroke, decoded one after the other. -/
theorem decode_stroke (hl : l ∈ lockStates) (ht : t.Plain) : t.locks l ∈ lockStates ∧
    if t.shifted then
      decode t.code (l ||| modShift) = (t.char l, t.locks l ||| modShift) ∧
        decode (t.code ||| 0x80) (t.locks l ||| modShift) = (0, t.locks l ||| modShift)
    else
      decode t.code l = (t.char l, t.locks l) ∧
        decode (t.code ||| 0x80) (t.locks l) = (0, t.locks l) := by
  obtain ⟨-, -, -, -, -, hm, hn, hs⟩ := plain_code ht.1
  obtain ⟨⟨hesc, -, -, hesc', -⟩, htoggles, -⟩ := lock_values l hl
  obtain ⟨hlocks, htoggle, htoggle'⟩ := htoggles _ hm
  -- the locks change before the key is looked up
  obtain ⟨⟨hesc₁, hctl, hshift, hesc₂, hctl', hshift', hsame, hsame'⟩, -⟩ := lock_values _ hlocks
  refine ⟨hlocks, ?_⟩
  have hlt : ∀ c : UInt8, c < 0x80 → c ≠ keyDel := by
    rintro c hc rfl
    exact absurd hc (by decide)
  by_cases hshifted : t.shifted
  · rw [if_pos hshifted]
    have hmap : charcode (t.locks l ||| modShift) t.code = shiftmap t.code := by
      unfold charcode KeyStroke.locks
      rw [if_neg (not_not.2 hctl'), if_pos hshift']
    have hdown :=
      decode_down ht.1 ht.2 hesc' htoggle' (by rw [← KeyStroke.locks, hmap]; exact hlt _ hs)
    refine ⟨?_, decode_up ht.1 ht.2 hesc₂ hsame'⟩
    rw [hdown, ← KeyStroke.locks, hmap, KeyStroke.char, if_pos hshifted]
  · rw [if_neg hshifted]
    have hmap : charcode (t.locks l) t.code = normalmap t.code := by
      unfold charcode KeyStroke.locks
      rw [if_neg (not_not.2 hctl), if_neg (not_not.2 hshift)]
    have hdown :=
      decode_down ht.1 ht.2 hesc htoggle (by rw [← KeyStroke.locks, hmap]; exact hlt _ hn)
    refine ⟨?_, decode_up ht.1 ht.2 hesc₁ hsame⟩
    rw [hdown, ← KeyStroke.locks, hmap, KeyStroke.char, if_neg hshifted]

end

/-! ## Streams of bytes -/

/-- The characters that bytes give, and the modifiers afterwards. -/
def decodeAll : List UInt8 → UInt32 → List UInt8 × UInt32
  | [], shift => ([], shift)
  | data :: rest, shift =>
    ((if (decode data shift).1 = 0 then [] else [(decode data shift).1]) ++
      (decodeAll rest (decode data shift).2).1, (decodeAll rest (decode data shift).2).2)

/-- The delete key is not among them. -/
def NoDelete : List UInt8 → UInt32 → Prop
  | [], _ => True
  | data :: rest, shift => (decode data shift).1 ≠ keyDel ∧ NoDelete rest (decode data shift).2

section

variable {l : UInt32} {t : KeyStroke} {k : Console} {bs : List UInt8}

theorem decodeAll_append (as bs : List UInt8) (shift : UInt32) : decodeAll (as ++ bs) shift =
    ((decodeAll as shift).1 ++ (decodeAll bs (decodeAll as shift).2).1,
      (decodeAll bs (decodeAll as shift).2).2) := by
  induction as generalizing shift with
  | nil => rfl
  | cons data as ih =>
    simp only [List.cons_append, decodeAll, ih, List.append_assoc]

theorem noDelete_append {as bs : List UInt8} {shift : UInt32} :
    NoDelete (as ++ bs) shift ↔ NoDelete as shift ∧ NoDelete bs (decodeAll as shift).2 := by
  induction as generalizing shift with
  | nil => exact ⟨fun h => ⟨trivial, h⟩, fun h => h.2⟩
  | cons data as ih =>
    simp only [List.cons_append, NoDelete, decodeAll, ih, and_assoc]

theorem decodeAll_stroke (hl : l ∈ lockStates) (ht : t.Plain) :
    decodeAll t.bytes l = (if t.char l = 0 then [] else [t.char l], t.locks l) ∧
      NoDelete t.bytes l := by
  obtain ⟨hlocks, hdecode⟩ := decode_stroke hl ht
  have hchar : t.char l ≠ keyDel := char_ne ht
  have hzero : (0 : UInt8) ≠ keyDel := by decide
  unfold KeyStroke.bytes
  split at hdecode
  · -- the two bytes of shift stand around the key's
    rename_i hshifted
    obtain ⟨hdown, hup⟩ := hdecode
    rw [if_pos hshifted]
    simp [decodeAll, NoDelete, decode_shift hl, hdown, hup, decode_shift hlocks, hchar, hzero]
  · rename_i hshifted
    obtain ⟨hdown, hup⟩ := hdecode
    rw [if_neg hshifted]
    simp [decodeAll, NoDelete, hdown, hup, hchar, hzero]

theorem decodeAll_strokes (hl : l ∈ lockStates) {ts : List KeyStroke} (hts : ∀ t ∈ ts, t.Plain) :
    (decodeAll (ts.flatMap KeyStroke.bytes) l).1 = typedChars l ts ∧
      NoDelete (ts.flatMap KeyStroke.bytes) l := by
  induction ts generalizing l with
  | nil => exact ⟨rfl, trivial⟩
  | cons t ts ih =>
    obtain ⟨hstroke, hdel⟩ := decodeAll_stroke hl (hts t List.mem_cons_self)
    obtain ⟨hrest, hdel'⟩ := ih (decode_stroke hl (hts t List.mem_cons_self)).1
      fun t' ht' => hts t' (List.mem_cons_of_mem _ ht')
    rw [List.flatMap_cons, decodeAll_append, noDelete_append, hstroke]
    exact ⟨by rw [hrest]; rfl, hdel, hdel'⟩

/-- The driver decodes what it receives. -/
theorem received_decodeAll (h : NoDelete bs k.shift) :
    received kbdProcData bs k = (decodeAll bs k.shift).1 := by
  induction bs generalizing k with
  | nil => rfl
  | cons data bs ih =>
    rw [received, decodeAll, kbdProcData_decode h.1]
    dsimp only
    rw [ih h.2]

end

end Console

/-- **Typing.** Whatever state the locks are in, the bytes of a sequence of strokes give the
characters of its keys, with shift, caps lock and num lock as they were at each of them. -/
theorem typed_received {k : Console} (hk : k.shift ∈ lockStates) {ts : List KeyStroke}
    (hts : ∀ t ∈ ts, t.Plain) :
    Console.received Console.kbdProcData (ts.flatMap KeyStroke.bytes) k = typedChars k.shift ts := by
  obtain ⟨hdecode, hdel⟩ := Console.decodeAll_strokes hk hts
  rw [Console.received_decodeAll hdel, hdecode]

/-! ## Text -/

/-- The codes of the main block. -/
def mainCodes : List UInt8 := (List.range 0x54).map .ofNat

/-- The key of a character: alone if it can be, else with shift. -/
def keyStroke (c : UInt8) : KeyStroke :=
  if c ∈ mainCodes.map normalmap then ⟨false, mainCodes.getD ((mainCodes.map normalmap).idxOf c) 0⟩
  else ⟨true, mainCodes.getD ((mainCodes.map shiftmap).idxOf c) 0⟩

/-- The characters of the keyboard: ASCII, and those of Backspace, Tab, Enter and Escape. -/
def Typable (c : UInt8) : Prop := (0x20 ≤ c ∧ c < 0x7F) ∨ c = 8 ∨ c = 9 ∨ c = 10 ∨ c = 0x1B

instance (c : UInt8) : Decidable (Typable c) :=
  inferInstanceAs (Decidable ((0x20 ≤ c ∧ c < 0x7F) ∨ c = 8 ∨ c = 9 ∨ c = 10 ∨ c = 0x1B))

theorem keyStroke_char : ∀ i < 128, Typable (.ofNat i) → (keyStroke (.ofNat i)).code < 0x60 ∧
    shiftcode (keyStroke (.ofNat i)).code = 0 ∧ togglecode (keyStroke (.ofNat i)).code = 0 ∧
    (keyStroke (.ofNat i)).char 0 = .ofNat i := by decide +kernel

theorem typable_stroke {c : UInt8} (hc : Typable c) : (keyStroke c).Plain ∧
    (keyStroke c).locks 0 = 0 ∧ (keyStroke c).char 0 = c ∧ c ≠ 0 := by
  have hlt : c.toNat < 128 ∧ c ≠ 0 := by
    rcases hc with ⟨h1, h2⟩ | rfl | rfl | rfl | rfl
    · refine ⟨Nat.lt_trans (UInt8.lt_iff_toNat_lt.1 h2) (by decide), ?_⟩
      rintro rfl
      exact absurd h1 (by decide)
    all_goals decide
  have hstroke := keyStroke_char c.toNat hlt.1
  rw [UInt8.ofNat_toNat] at hstroke
  obtain ⟨hcode, hshift, htoggle, hchar⟩ := hstroke hc
  refine ⟨⟨hcode, hshift⟩, ?_, hchar, hlt.2⟩
  rw [KeyStroke.locks, htoggle]
  rfl

/-- Text is typed with the keys of its characters. -/
theorem typedChars_text {cs : List UInt8} (hcs : ∀ c ∈ cs, Typable c) :
    typedChars 0 (cs.map keyStroke) = cs := by
  induction cs with
  | nil => rfl
  | cons c cs ih =>
    obtain ⟨-, hlocks, hchar, hne⟩ := typable_stroke (hcs c List.mem_cons_self)
    rw [List.map_cons, typedChars, hlocks, hchar, if_neg hne,
      ih fun d hd => hcs d (List.mem_cons_of_mem _ hd)]
    rfl

/-- The strokes of a word with a capital letter. -/
theorem typed_received_word : Console.received Console.kbdProcData
    (([72, 105].map keyStroke).flatMap KeyStroke.bytes) emptyConsole = [72, 105] := by
  have hall : ∀ c ∈ ([72, 105] : List UInt8), Typable c := by
    simp only [List.mem_cons, List.not_mem_nil, or_false, forall_eq_or_imp, forall_eq]
    exact ⟨.inl ⟨by decide, by decide⟩, .inl ⟨by decide, by decide⟩⟩
  rw [typed_received (k := emptyConsole) (by decide) fun t ht => ?_]
  · exact typedChars_text hall
  · obtain ⟨c, hc, rfl⟩ := List.mem_map.1 ht
    exact (typable_stroke (hall c hc)).1

end Fos
