import Fos.CommandPrompt
import Fos.Console.Keyboard

/-!
# Reading a line

`readline` of `lib/readline.c` as a user program runs it: its `getchar` polls the kernel, which
takes one byte of the keyboard at a time. Whenever the bytes come, the line is the one that was
typed.
-/

namespace Fos

open Function (update)

/-- A `char` as an `int`. -/
def charInt (c : UInt8) : UInt32 := if c < 0x80 then c.toUInt32 else c.toUInt32 ||| 0xFFFFFF00

/-- After a poll of the console the line is read, or not yet: its next index, the buffer and the
console. -/
inductive LineRead
  | done (buf : Nat → UInt8) (k : Console)
  | more (i : Nat) (buf : Nat → UInt8) (k : Console)

/-- A poll. `getchar` does not return with 0; every other character that `readline` takes is
echoed. -/
def readlinePoll (i : Nat) (buf : Nat → UInt8) (k : Console) : LineRead :=
  let c := k.consGetc2.1
  let k := k.consGetc2.2
  -- nothing, or a key without a character
  if c = 0 then .more i buf k
  else if 0x20 ≤ c ∧ i < bufLen - 1 then .more (i + 1) (update buf i c) (k.consPutc (charInt c))
  -- a backspace leaves the character in the buffer
  else if c = 8 ∧ 0 < i then .more (i - 1) buf (k.consPutc (charInt c))
  else if c = 10 ∨ c = 13 then .done (update buf i 0) (k.consPutc (charInt c))
  else .more i buf k

/-- `readline`, with the bytes that come to the keyboard before each poll. Without another poll it
waits. -/
def readlineLoop : List (List UInt8) → Nat → (Nat → UInt8) → Console →
    Option ((Nat → UInt8) × Console)
  | [], _, _, _ => none
  | a :: as, i, buf, k =>
    match readlinePoll i buf { k with keyboard := k.keyboard ++ a } with
    | .done buf k => some (buf, k)
    | .more i buf k => readlineLoop as i buf k

/-- The line that characters make of one that was begun. -/
def editLine : List UInt8 → List UInt8 → Option (List UInt8)
  | [], _ => none
  | c :: cs, text =>
    if 0x20 ≤ c ∧ text.length < bufLen - 1 then editLine cs (text ++ [c])
    else if c = 8 ∧ text ≠ [] then editLine cs text.dropLast
    else if c = 10 ∨ c = 13 then some text
    else editLine cs text

/-- Nothing waits but bytes of the keyboard. -/
structure Console.Typing (k : Console) (bs : List UInt8) : Prop where
  wf : Ring.WF consBufSize k.input
  waiting : k.waiting = []
  serial : k.serial = []
  keyboard : k.keyboard = bs

/-- The buffer begins with the line, and is unchanged behind its end. -/
structure HoldsLine (buf₀ buf : Nat → UInt8) (text : List UInt8) : Prop where
  chars : ∀ j c, text[j]? = some c → buf j = c
  length : text.length ≤ bufLen - 1
  outside : ∀ j, bufLen ≤ j → buf j = buf₀ j

section

variable {buf₀ buf : Nat → UInt8} {text out rest bs : List UInt8} {k : Console}
    {c data : UInt8} {i : Nat}

theorem HoldsLine.append (h : HoldsLine buf₀ buf text) (hlt : text.length < bufLen - 1) :
    HoldsLine buf₀ (update buf text.length c) (text ++ [c]) := by
  refine ⟨fun j d hj => ?_, ?_, fun j hj => ?_⟩
  · rw [List.getElem?_append] at hj
    split at hj
    · rename_i hjlt
      rw [Function.update_of_ne (by omega)]
      exact h.chars j d hj
    · rename_i hjge
      have hlast : j = text.length := by
        have hlen := (List.getElem?_eq_some_iff.1 hj).1
        rw [List.length_singleton] at hlen
        omega
      subst hlast
      rw [Nat.sub_self] at hj
      rw [Function.update_self]
      exact Option.some.inj hj
  · rw [List.length_append, List.length_singleton]
    exact hlt
  · unfold bufLen at hlt hj
    rw [Function.update_of_ne (by omega)]
    exact h.outside j hj

theorem HoldsLine.dropLast (h : HoldsLine buf₀ buf text) : HoldsLine buf₀ buf text.dropLast := by
  refine ⟨fun j d hj => h.chars j d ?_, ?_, h.outside⟩
  · rw [List.getElem?_dropLast] at hj
    split at hj
    · exact hj
    · cases hj
  · rw [List.length_dropLast]
    exact Nat.le_trans (Nat.sub_le ..) h.length

/-- The character after the line is written. -/
theorem HoldsLine.finish (h : HoldsLine buf₀ buf text) :
    HoldsLine buf₀ (update buf text.length 0) text := by
  have hle := h.length
  refine ⟨fun j d hj => ?_, h.length, fun j hj => ?_⟩
  · have hlt := (List.getElem?_eq_some_iff.1 hj).1
    rw [Function.update_of_ne (by omega)]
    exact h.chars j d hj
  · unfold bufLen at hle hj
    rw [Function.update_of_ne (by omega)]
    exact h.outside j hj

namespace Console

theorem Typing.serialPoll (h : k.Typing bs) : k.serialPoll = k := by
  unfold Console.serialPoll
  rw [h.serial]
  split <;> rfl

/-- A poll with no byte of the keyboard. -/
theorem Typing.poll_nil (h : k.Typing []) : k.consGetc2 = (0, k) := by
  unfold consGetc2
  rw [h.serialPoll]
  unfold kbdPoll
  rw [h.keyboard]

/-- A character that goes into an empty buffer is taken out at once. -/
theorem Typing.enter_take (h : k.Typing bs) (hc : c ≠ 0) : (enter (c, k)).take.1 = c ∧
    (enter (c, k)).take.2.Typing bs ∧ (enter (c, k)).take.2.shift = k.shift := by
  have hempty : Ring.contents consBufSize k.input = [] := h.waiting
  have hpush := h.wf.contents_push (a := c)
  rw [hempty] at hpush
  obtain ⟨hhead, htail⟩ := (h.wf.push (a := c)).contents_pop
  rw [hpush] at hhead htail
  unfold enter take
  rw [if_neg hc]
  refine ⟨?_, ⟨h.wf.push.pop, htail, h.serial, h.keyboard⟩, rfl⟩
  show (Ring.pop consBufSize (Ring.push consBufSize c k.input)).1.getD 0 = c
  rw [hhead]
  rfl

/-- A poll decodes a byte. -/
theorem Typing.poll_cons (h : k.Typing (data :: bs)) (hdel : (decode data k.shift).1 ≠ keyDel) :
    k.consGetc2.1 = (decode data k.shift).1 ∧ k.consGetc2.2.Typing bs ∧
      k.consGetc2.2.shift = (decode data k.shift).2 := by
  have hproc := kbdProcData_decode (k := { k with keyboard := bs }) hdel
  dsimp only at hproc
  set k₁ : Console := { k with keyboard := bs, shift := (decode data k.shift).2 }
  have h₁ : k₁.Typing bs := ⟨h.wf, h.waiting, h.serial, rfl⟩
  have hpoll : k.consGetc2 = if (decode data k.shift).1 = 0 then (0, k₁)
      else (enter ((decode data k.shift).1, k₁)).take := by
    unfold consGetc2
    rw [h.serialPoll]
    unfold kbdPoll
    rw [h.keyboard]
    dsimp only
    rw [hproc]
  rw [hpoll]
  split
  · rename_i hzero
    rw [hzero]
    exact ⟨rfl, h₁, rfl⟩
  · rename_i hne
    exact h₁.enter_take hne

end Console

/-- The line is begun, and the bytes still to come finish it. -/
structure Reading (buf₀ : Nat → UInt8) (out rest bs : List UInt8) (k : Console) (i : Nat)
    (buf : Nat → UInt8) : Prop where
  typing : k.Typing bs
  noDelete : Console.NoDelete (bs ++ rest) k.shift
  text : ∃ text, text.length = i ∧ HoldsLine buf₀ buf text ∧
    editLine (Console.decodeAll (bs ++ rest) k.shift).1 text = some out

/-- What a poll leaves: the line, or one byte less to read. -/
def LineRead.Ok (buf₀ : Nat → UInt8) (out rest bs : List UInt8) : LineRead → Prop
  | .done buf _ => HoldsLine buf₀ buf out ∧ buf out.length = 0
  | .more i buf k => Reading buf₀ out rest bs k i buf

theorem Console.Typing.putc (h : k.Typing bs) (c : UInt32) : (k.consPutc c).Typing bs :=
  ⟨h.wf, h.waiting, h.serial, h.keyboard⟩

/-- One poll. -/
theorem Reading.poll (h : Reading buf₀ out rest bs k i buf) :
    (readlinePoll i buf k).Ok buf₀ out rest bs.tail := by
  obtain ⟨text, rfl, hholds, hedit⟩ := h.text
  have htyping := h.typing
  have hdel := h.noDelete
  cases bs with
  | nil =>
    -- nothing came
    unfold readlinePoll
    rw [htyping.poll_nil]
    exact ⟨htyping, hdel, text, rfl, hholds, hedit⟩
  | cons data bs =>
    obtain ⟨hchar, htyping', hshift⟩ := htyping.poll_cons hdel.1
    have hdel' : Console.NoDelete (bs ++ rest) k.consGetc2.2.shift := by
      rw [hshift]
      exact hdel.2
    rw [List.cons_append, Console.decodeAll, ← hchar, ← hshift] at hedit
    unfold readlinePoll
    dsimp only at hedit ⊢
    -- `editLine` takes the branch that the poll takes
    by_cases h0 : k.consGetc2.1 = 0
    · rw [if_pos h0] at hedit ⊢
      exact ⟨htyping', hdel', text, rfl, hholds, hedit⟩
    rw [if_neg h0] at hedit ⊢
    rw [List.singleton_append, editLine] at hedit
    split
    · rename_i happend
      rw [if_pos happend] at hedit
      exact ⟨htyping'.putc _, hdel',
        text ++ [k.consGetc2.1], by simp, hholds.append happend.2, hedit⟩
    rename_i happend
    rw [if_neg happend] at hedit
    have hempty : 0 < text.length ↔ text ≠ [] := List.length_pos_iff
    simp only [hempty]
    split
    · rename_i herase
      rw [if_pos herase] at hedit
      exact ⟨htyping'.putc _, hdel', text.dropLast, by simp, hholds.dropLast, hedit⟩
    rename_i herase
    rw [if_neg herase] at hedit
    split
    · rename_i henter
      rw [if_pos henter] at hedit
      obtain rfl := Option.some.inj hedit
      exact ⟨hholds.finish, Function.update_self ..⟩
    · rename_i henter
      rw [if_neg henter] at hedit
      exact ⟨htyping', hdel', text, rfl, hholds, hedit⟩

/-- Bytes come before a poll. -/
theorem Reading.arrive {a : List UInt8} (h : Reading buf₀ out (a ++ rest) bs k i buf) :
    Reading buf₀ out rest (bs ++ a) { k with keyboard := k.keyboard ++ a } i buf := by
  have htyping := h.typing
  refine ⟨⟨htyping.wf, htyping.waiting, htyping.serial, ?_⟩, ?_, ?_⟩
  · show k.keyboard ++ a = _
    rw [htyping.keyboard]
  · rw [List.append_assoc]
    exact h.noDelete
  · rw [List.append_assoc]
    exact h.text

/-- After the last byte the line is read with as many polls as bytes are left. -/
theorem Reading.finish {n : Nat} (h : Reading buf₀ out [] bs k i buf) (hn : bs.length ≤ n) :
    ∃ buf' k', readlineLoop (List.replicate n []) i buf k = some (buf', k') ∧
      HoldsLine buf₀ buf' out ∧ buf' out.length = 0 := by
  induction n generalizing bs k i buf with
  | zero =>
    -- without a byte no line would be finished
    obtain ⟨text, -, -, hedit⟩ := h.text
    rw [List.length_eq_zero_iff.1 (Nat.le_zero.1 hn)] at hedit
    cases hedit
  | succ n ih =>
    have hpoll := (Reading.arrive (a := []) h).poll
    rw [List.replicate_succ, readlineLoop]
    cases hr : readlinePoll i buf { k with keyboard := k.keyboard ++ [] } with
    | done buf' k' =>
      rw [hr] at hpoll
      exact ⟨buf', k', rfl, hpoll.1, hpoll.2⟩
    | more i' buf' k' =>
      rw [hr] at hpoll
      apply ih hpoll
      rw [List.append_nil, List.length_tail]
      omega

theorem Reading.run {as : List (List UInt8)} {n : Nat}
    (h : Reading buf₀ out as.flatten bs k i buf) (hn : bs.length + as.flatten.length ≤ n) :
    ∃ buf' k', readlineLoop (as ++ List.replicate n []) i buf k = some (buf', k') ∧
      HoldsLine buf₀ buf' out ∧ buf' out.length = 0 := by
  induction as generalizing bs k i buf with
  | nil => exact h.finish hn
  | cons a as ih =>
    rw [List.flatten_cons] at h hn
    have hpoll := h.arrive.poll
    rw [List.cons_append, readlineLoop]
    cases hr : readlinePoll i buf { k with keyboard := k.keyboard ++ a } with
    | done buf' k' =>
      rw [hr] at hpoll
      exact ⟨buf', k', rfl, hpoll.1, hpoll.2⟩
    | more i' buf' k' =>
      rw [hr] at hpoll
      apply ih hpoll
      rw [List.length_append] at hn
      rw [List.length_tail, List.length_append]
      omega

end

/-- **A typed line is read.** Whenever the bytes of the strokes come, `readline` returns the line
that their characters make, with its end, and writes nothing behind its buffer. -/
theorem readline_typed {k : Console} (hk : k.Typing []) (hlocks : k.shift ∈ lockStates)
    {ts : List KeyStroke} (hts : ∀ t ∈ ts, t.Plain) {text : List UInt8}
    (htext : editLine (typedChars k.shift ts) [] = some text) {as : List (List UInt8)}
    (has : as.flatten = ts.flatMap KeyStroke.bytes) {n : Nat} (hn : as.flatten.length ≤ n)
    (buf : Nat → UInt8) :
    ∃ buf' k', readlineLoop (as ++ List.replicate n []) 0 buf k = some (buf', k') ∧
      (∀ j c, text[j]? = some c → buf' j = c) ∧ buf' text.length = 0 ∧ text.length < bufLen ∧
      ∀ j, bufLen ≤ j → buf' j = buf j := by
  obtain ⟨hdecode, hdel⟩ := Console.decodeAll_strokes hlocks hts
  have hstart : Reading buf text as.flatten [] k 0 buf := by
    refine ⟨hk, ?_, [], rfl, ⟨fun j c hj => ?_, Nat.zero_le _, fun _ _ => rfl⟩, ?_⟩
    · rw [has]
      exact hdel
    · cases hj
    · rw [List.nil_append, has, hdecode, htext]
  obtain ⟨buf', k', hrun, hholds, hend⟩ :=
    hstart.run (n := n) (by rwa [List.length_nil, Nat.zero_add])
  have hlength := hholds.length
  exact ⟨buf', k', hrun, hholds.chars, hend, by unfold bufLen at hlength ⊢; omega, hholds.outside⟩

/-- Two letters, the second corrected, come in three pieces. -/
theorem readline_typed_corrected : ∃ buf' k',
    readlineLoop ([[0x23, 0xA3, 0x1E], [0x9E, 0x0E, 0x8E, 0x17], [0x97, 0x1C, 0x9C]] ++
      List.replicate 10 []) 0 (fun _ => 0) emptyConsole = some (buf', k') ∧
    (∀ j c, ([104, 105] : List UInt8)[j]? = some c → buf' j = c) ∧ buf' 2 = 0 := by
  have htyping : emptyConsole.Typing [] := ⟨⟨by decide, by decide⟩, rfl, rfl, rfl⟩
  obtain ⟨buf', k', hrun, hchars, hend, -⟩ := @readline_typed emptyConsole htyping (by decide)
    [⟨false, 0x23⟩, ⟨false, 0x1E⟩, ⟨false, 0x0E⟩, ⟨false, 0x17⟩, ⟨false, 0x1C⟩]
    (by unfold KeyStroke.Plain; decide +kernel) [104, 105] (by decide +kernel)
    [[0x23, 0xA3, 0x1E], [0x9E, 0x0E, 0x8E, 0x17], [0x97, 0x1C, 0x9C]] rfl 10 (by decide)
    (fun _ => 0)
  exact ⟨buf', k', hrun, hchars, hend⟩

end Fos
