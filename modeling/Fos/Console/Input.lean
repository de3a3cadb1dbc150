import Fos.Console

/-!
# The input buffer

Between the interrupts and the readers the characters wait in a circular buffer of 512 bytes. It
does not say that it is full: with the 512th character that waits, all of them are gone. Otherwise
the readers get every character that came in, once and in order.
-/

namespace Fos

namespace Console

/-- The characters that wait, the oldest first. -/
def waiting (k : Console) : List UInt8 := Ring.contents consBufSize k.input

/-- The characters that a device gives for its bytes. -/
def received (proc : UInt8 → Console → UInt8 × Console) : List UInt8 → Console → List UInt8
  | [], _ => []
  | data :: rest, k =>
    (if (proc data k).1 = 0 then [] else [(proc data k).1]) ++ received proc rest (proc data k).2

/-- The console with other contents of its buffer and its devices. -/
def withInput (k : Console) (r : Ring.Buffer UInt8) (s b : List UInt8) : Console :=
  { k with input := r, serial := s, keyboard := b }

/-- What a device gives for a byte depends on the display and the modifiers only. -/
def Blind (proc : UInt8 → Console → UInt8 × Console) : Prop :=
  ∀ data k r s b, proc data (k.withInput r s b) = ((proc data k).1, (proc data k).2.withInput r s b)

section

variable {proc : UInt8 → Console → UInt8 × Console} {k : Console} {l s b : List UInt8}
  {r : Ring.Buffer UInt8}

theorem blind_serialProcData : Blind serialProcData := fun _ _ _ _ _ => rfl

theorem deleteKey_withInput : (k.withInput r s b).deleteKey =
    (k.deleteKey.1, k.deleteKey.2.withInput r s b) := by
  unfold deleteKey withInput
  dsimp only
  split
  · split <;> rfl
  · rfl

theorem keyDown_withInput (data : UInt8) : (k.withInput r s b).keyDown data =
    ((k.keyDown data).1, (k.keyDown data).2.withInput r s b) := by
  have hdelete :=
    deleteKey_withInput (k := { k with shift := (k.shift ||| shiftcode data) ^^^ togglecode data })
    (r := r) (s := s) (b := b)
  unfold keyDown
  unfold withInput at hdelete ⊢
  dsimp only at hdelete ⊢
  split
  · -- the delete key reads the display
    exact hdelete
  · rfl

theorem blind_kbdProcData : Blind kbdProcData := by
  intro data k r s b
  unfold kbdProcData
  -- an escape and a key that goes up change the modifiers only
  split
  · rfl
  split
  · rfl
  have hshift : (k.withInput r s b).shift = k.shift := rfl
  rw [hshift]
  split
  · exact keyDown_withInput (k := { k with shift := k.shift &&& ~~~e0Esc }) (data ||| 0x80)
  · exact keyDown_withInput data

theorem received_withInput (hblind : Blind proc) :
    received proc l (k.withInput r s b) = received proc l k := by
  -- the display and the modifiers go from byte to byte, so `k` is not fixed
  induction l generalizing k with
  | nil => rfl
  | cons data l ih => rw [received, received, hblind, ih]

theorem received_one (data : UInt8) : received proc [data] k =
    if (proc data k).1 = 0 then [] else [(proc data k).1] :=
  List.append_nil _

theorem Blind.input (hblind : Blind proc) (data : UInt8) (k : Console) :
    (proc data k).2 = (proc data k).2.withInput k.input k.serial k.keyboard :=
  congrArg Prod.snd (hblind data k k.input k.serial k.keyboard)

theorem enter_eq_withInput (x : UInt8 × Console) : enter x = x.2.withInput
    (Ring.pushAll consBufSize (if x.1 = 0 then [] else [x.1]) x.2.input) x.2.serial x.2.keyboard := by
  unfold enter
  split <;> rfl

/-- An interrupt puts what the device gives into the buffer. -/
theorem consIntr_input (hblind : Blind proc) (l : List UInt8) (k : Console) :
    (consIntr proc l k).input = Ring.pushAll consBufSize (received proc l k) k.input := by
  induction l generalizing k with
  | nil => rfl
  | cons data l ih =>
    have hsame := congrArg Console.input (hblind.input data k)
    dsimp only [withInput] at hsame
    rw [consIntr, ih, enter_eq_withInput, received_withInput hblind, received, hsame,
      Ring.pushAll_append]
    rfl

end

end Console

/-! ## Calls -/

/-- What happens to the console: a byte comes to a device, an interrupt is handled, a reader asks
for a character, or one is put. -/
inductive ConsoleCall
  | serialByte (b : UInt8)
  | keyByte (b : UInt8)
  | serialIntr
  | kbdIntr
  | getc
  | getc2
  | putc (c : UInt32)

namespace ConsoleCall

/-- The character that a reader got, and the console afterwards. -/
def run : ConsoleCall → Console → List UInt8 × Console
  | .serialByte b, k => ([], { k with serial := k.serial ++ [b] })
  | .keyByte b, k => ([], { k with keyboard := k.keyboard ++ [b] })
  | .serialIntr, k => ([], k.serialIntr)
  | .kbdIntr, k => ([], k.kbdIntr)
  | .getc, k => (if k.consGetc.1 = 0 then [] else [k.consGetc.1], k.consGetc.2)
  | .getc2, k => (if k.consGetc2.1 = 0 then [] else [k.consGetc2.1], k.consGetc2.2)
  | .putc c, k => ([], k.consPutc c)

/-- The bytes of the serial port that a call takes. -/
def serialTaken (n : Nat) (k : Console) : List UInt8 :=
  if k.serialExists then k.serial.take n else []

/-- The characters that come into the buffer during a call. -/
def received : ConsoleCall → Console → List UInt8
  | .serialIntr, k => Console.received Console.serialProcData (serialTaken k.serial.length k) k
  | .kbdIntr, k => Console.received Console.kbdProcData k.keyboard k
  | .getc, k =>
    Console.received Console.serialProcData (serialTaken k.serial.length k) k ++
      Console.received Console.kbdProcData k.keyboard k
  | .getc2, k =>
    Console.received Console.serialProcData (serialTaken 1 k) k ++
      Console.received Console.kbdProcData (k.keyboard.take 1) k
  | _, _ => []

end ConsoleCall

namespace Console

/-- The buffer is well formed, and no character in it is 0. -/
structure InputOk (k : Console) : Prop where
  wf : Ring.WF consBufSize k.input
  nonzero : ∀ c ∈ k.waiting, c ≠ 0

section

variable {proc : UInt8 → Console → UInt8 × Console} {k : Console} {l : List UInt8}

theorem received_nonzero {c : UInt8} (hc : c ∈ received proc l k) : c ≠ 0 := by
  induction l generalizing k with
  | nil => cases hc
  | cons data l ih =>
    rw [received, List.mem_append] at hc
    rcases hc with hc | hc
    · split at hc
      · cases hc
      · rw [List.mem_singleton.1 hc]
        assumption
    · exact ih hc

theorem InputOk.pushAll {k' : Console} (h : k.InputOk) (hl : ∀ c ∈ l, c ≠ 0)
    (hk : k'.input = Ring.pushAll consBufSize l k.input) :
    k'.InputOk ∧ k'.waiting = Ring.wrap consBufSize (k.waiting ++ l) := by
  have hwait : k'.waiting = Ring.wrap consBufSize (k.waiting ++ l) := by
    unfold waiting
    rw [hk, h.wf.contents_pushAll]
  refine ⟨⟨hk ▸ h.wf.pushAll, fun c hc => ?_⟩, hwait⟩
  rw [hwait] at hc
  rcases List.mem_append.1 (List.mem_of_mem_drop hc) with hc | hc
  · exact h.nonzero c hc
  · exact hl c hc

/-- A reader takes the oldest character. -/
theorem InputOk.take (h : k.InputOk) : k.take.2.InputOk ∧
    k.waiting = (if k.take.1 = 0 then [] else [k.take.1]) ++ k.take.2.waiting := by
  obtain ⟨hhead, htail⟩ := h.wf.contents_pop
  have hrest : k.take.2.waiting = k.waiting.tail := htail
  have hfirst : k.take.1 = k.waiting.head?.getD 0 := by
    show (Ring.pop consBufSize k.input).1.getD 0 = _
    rw [hhead]
    rfl
  refine ⟨⟨h.wf.pop, fun c hc => ?_⟩, ?_⟩
  · rw [hrest] at hc
    exact h.nonzero c (List.mem_of_mem_tail hc)
  · rw [hrest, hfirst]
    cases hw : k.waiting with
    | nil => simp
    | cons c rest =>
      -- a 0 in the buffer would look like none
      have hc : c ≠ 0 := h.nonzero c (by rw [hw]; exact List.mem_cons_self)
      simp [hc]

/-- The serial interrupt changes nothing but the buffer and the port. -/
theorem consIntr_serial (l : List UInt8) (k : Console) : consIntr serialProcData l k =
    k.withInput (Ring.pushAll consBufSize (received serialProcData l k) k.input) k.serial k.keyboard := by
  induction l generalizing k with
  | nil => rfl
  | cons data l ih =>
    have hk : (serialProcData data k).2 = k := rfl
    rw [consIntr, ih, enter_eq_withInput, received_withInput blind_serialProcData, received, hk,
      Ring.pushAll_append]
    rfl

theorem serialIntr_eq (k : Console) : k.serialIntr = k.withInput
    (Ring.pushAll consBufSize
      (received serialProcData (ConsoleCall.serialTaken k.serial.length k) k) k.input)
    (if k.serialExists then [] else k.serial) k.keyboard := by
  unfold serialIntr ConsoleCall.serialTaken
  split
  · show consIntr serialProcData k.serial (k.withInput k.input [] k.keyboard) = _
    rw [consIntr_serial, received_withInput blind_serialProcData, List.take_length]
    rfl
  · rfl

theorem serialPoll_eq (k : Console) : k.serialPoll = k.withInput
    (Ring.pushAll consBufSize (received serialProcData (ConsoleCall.serialTaken 1 k) k) k.input)
    (if k.serialExists then k.serial.tail else k.serial) k.keyboard := by
  unfold serialPoll ConsoleCall.serialTaken
  split
  · cases hs : k.serial with
    | nil =>
      show k = k.withInput k.input [] k.keyboard
      rw [← hs]
      rfl
    | cons data rest =>
      show enter (serialProcData data (k.withInput k.input rest k.keyboard)) = _
      rw [enter_eq_withInput, blind_serialProcData, show (data :: rest).take 1 = [data] from rfl,
        received_one]
      rfl
  · rfl

theorem kbdIntr_input (k : Console) :
    k.kbdIntr.input = Ring.pushAll consBufSize (received kbdProcData k.keyboard k) k.input := by
  show (consIntr kbdProcData k.keyboard (k.withInput k.input k.serial [])).input = _
  rw [consIntr_input blind_kbdProcData, received_withInput blind_kbdProcData]
  rfl

/-- The buffer before `cons_getc2` answers, and whether it does. -/
theorem kbdPoll_input (k : Console) : ∃ k' : Console,
    k'.input = Ring.pushAll consBufSize (received kbdProcData (k.keyboard.take 1) k) k.input ∧
      (received kbdProcData (k.keyboard.take 1) k = [] → k.kbdPoll = (0, k')) ∧
      (received kbdProcData (k.keyboard.take 1) k ≠ [] → k.kbdPoll = k'.take) := by
  unfold kbdPoll
  cases k.keyboard with
  | nil => exact ⟨k, rfl, fun _ => rfl, fun h => absurd rfl h⟩
  | cons data rest =>
    have hproc := blind_kbdProcData data k k.input k.serial rest
    dsimp only [withInput] at hproc
    dsimp only
    rw [show (data :: rest).take 1 = [data] from rfl, received_one, hproc]
    dsimp only
    set k₁ := (kbdProcData data k).2.withInput k.input k.serial rest
    split
    · exact ⟨k₁, rfl, fun _ => rfl, fun h => absurd rfl h⟩
    · rename_i hc
      refine ⟨enter ((kbdProcData data k).1, k₁), ?_, fun h => absurd h (List.cons_ne_nil _ _),
        fun _ => rfl⟩
      rw [enter_eq_withInput, if_neg hc]
      rfl

end

end Console

namespace ConsoleCall

open Console

variable {k : Console}

theorem received_ne_zero {c : ConsoleCall} {x : UInt8} (hx : x ∈ c.received k) : x ≠ 0 := by
  cases c with
  | serialIntr => exact received_nonzero hx
  | kbdIntr => exact received_nonzero hx
  | getc =>
    rcases List.mem_append.1 hx with hx | hx
    · exact received_nonzero hx
    · exact received_nonzero hx
  | getc2 =>
    rcases List.mem_append.1 hx with hx | hx
    · exact received_nonzero hx
    · exact received_nonzero hx
  | _ => cases hx

/-- The buffer after the interrupts of a reader. -/
theorem getc_input (k : Console) : k.serialIntr.kbdIntr.input =
    Ring.pushAll consBufSize (received .getc k) k.input := by
  rw [kbdIntr_input, serialIntr_eq, received_withInput blind_kbdProcData]
  exact (Ring.pushAll_append ..).symm

theorem getc2_input (k : Console) :
    Ring.pushAll consBufSize
      (Console.received kbdProcData (k.serialPoll.keyboard.take 1) k.serialPoll) k.serialPoll.input =
    Ring.pushAll consBufSize (received .getc2 k) k.input := by
  rw [serialPoll_eq, received_withInput blind_kbdProcData]
  exact (Ring.pushAll_append ..).symm

/-- A call adds what comes in, unless that fills the buffer, and takes what it returns. -/
theorem step (h : k.InputOk) (c : ConsoleCall) : (c.run k).2.InputOk ∧
    Ring.wrap consBufSize (k.waiting ++ c.received k) = (c.run k).1 ++ (c.run k).2.waiting := by
  -- every call that reads nothing is a push of what it received
  have hin : ∀ k' : Console, k'.input = Ring.pushAll consBufSize (c.received k) k.input →
      k'.InputOk ∧ k'.waiting = Ring.wrap consBufSize (k.waiting ++ c.received k) :=
    fun k' => h.pushAll fun _ => received_ne_zero
  cases c with
  | serialIntr =>
    obtain ⟨hok, hwait⟩ := hin k.serialIntr (by rw [serialIntr_eq]; rfl)
    exact ⟨hok, hwait.symm⟩
  | kbdIntr =>
    obtain ⟨hok, hwait⟩ := hin k.kbdIntr (kbdIntr_input k)
    exact ⟨hok, hwait.symm⟩
  | getc =>
    obtain ⟨hok, hwait⟩ := hin k.serialIntr.kbdIntr (getc_input k)
    obtain ⟨hok', htake⟩ := hok.take
    rw [← hwait, htake]
    exact ⟨hok', rfl⟩
  | getc2 =>
    obtain ⟨k', hk', hempty, hanswer⟩ := kbdPoll_input k.serialPoll
    obtain ⟨hok, hwait⟩ := hin k' (by rw [hk', getc2_input])
    have hrun : ConsoleCall.run .getc2 k = (if k.serialPoll.kbdPoll.1 = 0 then []
      else [k.serialPoll.kbdPoll.1], k.serialPoll.kbdPoll.2) := rfl
    rw [hrun, ← hwait]
    by_cases hkey : Console.received kbdProcData (k.serialPoll.keyboard.take 1) k.serialPoll = []
    · -- the keyboard gave nothing, so what the serial port gave stays
      rw [hempty hkey]
      exact ⟨hok, rfl⟩
    · obtain ⟨hok', htake⟩ := hok.take
      rw [hanswer hkey, htake]
      exact ⟨hok', rfl⟩
  | serialByte b =>
    obtain ⟨hok, hwait⟩ := hin { k with serial := k.serial ++ [b] } rfl
    exact ⟨hok, hwait.symm⟩
  | keyByte b =>
    obtain ⟨hok, hwait⟩ := hin { k with keyboard := k.keyboard ++ [b] } rfl
    exact ⟨hok, hwait.symm⟩
  | putc c =>
    obtain ⟨hok, hwait⟩ := hin (k.consPutc c) rfl
    exact ⟨hok, hwait.symm⟩

/-! ## Runs -/

/-- What the readers get in a run, and the console at its end. -/
def runAll : List ConsoleCall → Console → List UInt8 × Console
  | [], k => ([], k)
  | c :: cs, k => ((c.run k).1 ++ (runAll cs (c.run k).2).1, (runAll cs (c.run k).2).2)

/-- What comes in during a run. -/
def receivedAll : List ConsoleCall → Console → List UInt8
  | [], _ => []
  | c :: cs, k => c.received k ++ receivedAll cs (c.run k).2

/-- The characters that wait never fill the buffer. -/
def Fits : List ConsoleCall → Console → Prop
  | [], _ => True
  | c :: cs, k => (k.waiting ++ c.received k).length < consBufSize ∧ Fits cs (c.run k).2

theorem runAll_ok (h : k.InputOk) (cs : List ConsoleCall) : (runAll cs k).2.InputOk := by
  induction cs generalizing k with
  | nil => exact h
  | cons c cs ih => exact ih (step h c).1

/-- While the buffer is not filled, a run keeps every character in its place. -/
theorem runAll_fits (h : k.InputOk) {cs : List ConsoleCall} (hfits : Fits cs k) :
    k.waiting ++ receivedAll cs k = (runAll cs k).1 ++ (runAll cs k).2.waiting := by
  induction cs generalizing k with
  | nil => simp [receivedAll, runAll]
  | cons c cs ih =>
    obtain ⟨hok, hstep⟩ := step h c
    rw [Ring.wrap_of_lt hfits.1] at hstep
    rw [receivedAll, runAll, ← List.append_assoc, hstep, List.append_assoc, ih hok hfits.2,
      List.append_assoc]

/-- Otherwise some are missing. -/
theorem runAll_count (h : k.InputOk) (cs : List ConsoleCall) : ∃ lost,
    (k.waiting ++ receivedAll cs k).length =
      ((runAll cs k).1 ++ (runAll cs k).2.waiting).length + lost ∧ (lost = 0 → Fits cs k) := by
  induction cs generalizing k with
  | nil => exact ⟨0, by simp [receivedAll, runAll], fun _ => trivial⟩
  | cons c cs ih =>
    obtain ⟨hok, hstep⟩ := step h c
    obtain ⟨lost, hlost, hfits⟩ := ih hok
    -- a call that fills the buffer loses a multiple of its size
    have hwrap := Ring.length_wrap consBufSize (k.waiting ++ c.received k)
    rw [hstep] at hwrap
    refine ⟨consBufSize * ((k.waiting ++ c.received k).length / consBufSize) + lost,
      ?_, fun h0 => ?_⟩
    · have hall : (k.waiting ++ receivedAll (c :: cs) k).length =
          (k.waiting ++ c.received k).length + (receivedAll cs (c.run k).2).length := by
        rw [receivedAll, ← List.append_assoc, List.length_append]
      have hread : (runAll (c :: cs) k).1 = (c.run k).1 ++ (runAll cs (c.run k).2).1 := rfl
      have hend : (runAll (c :: cs) k).2 = (runAll cs (c.run k).2).2 := rfl
      rw [hall, hread, hend]
      simp only [List.length_append] at hlost hwrap ⊢
      omega
    · have hdiv : (k.waiting ++ c.received k).length / consBufSize = 0 := by
        have hmul := (Nat.add_eq_zero_iff.1 h0).1
        exact (Nat.mul_eq_zero.1 hmul).resolve_left (by decide)
      exact ⟨Nat.lt_of_div_eq_zero (by decide) hdiv, hfits (Nat.add_eq_zero_iff.1 h0).2⟩

end ConsoleCall

open ConsoleCall in
/-- **The input buffer.** The readers get the characters that came in, each once and in order,
exactly as long as no 512 of them wait; the one that fills the buffer takes all of them away. -/
theorem consoleInput_iff {k : Console} (h : k.InputOk) (cs : List ConsoleCall) :
    (k.waiting ++ receivedAll cs k = (runAll cs k).1 ++ (runAll cs k).2.waiting ↔ Fits cs k) ∧
      ∀ c : ConsoleCall, (c.run (runAll cs k).2).1 ++ (c.run (runAll cs k).2).2.waiting =
        Ring.wrap consBufSize ((runAll cs k).2.waiting ++ c.received (runAll cs k).2) := by
  refine ⟨⟨fun heq => ?_, runAll_fits h⟩, fun c => (step (runAll_ok h cs) c).2.symm⟩
  obtain ⟨lost, hlost, hfits⟩ := runAll_count h cs
  rw [heq] at hlost
  exact hfits (by omega)

/-- The console with an empty buffer. -/
def emptyConsole : Console :=
  ⟨⟨fun _ => 0x0720, 0, 0⟩, 0, ⟨fun _ => 0, 0, 0⟩, true, [], []⟩

theorem emptyConsole_ok : emptyConsole.InputOk := by
  refine ⟨⟨by decide, by decide⟩, fun c hc => ?_⟩
  cases hc

open ConsoleCall in
/-- Two serial bytes and a key. -/
theorem consoleInput_three :
    emptyConsole.waiting ++ receivedAll [.serialByte 97, .serialByte 98, .keyByte 0x2E, .getc] emptyConsole =
      (runAll [.serialByte 97, .serialByte 98, .keyByte 0x2E, .getc] emptyConsole).1 ++
        (runAll [.serialByte 97, .serialByte 98, .keyByte 0x2E, .getc] emptyConsole).2.waiting := by
  rw [(consoleInput_iff emptyConsole_ok _).1]
  refine ⟨by decide +kernel, by decide +kernel, by decide +kernel, by decide +kernel, trivial⟩

end Fos
