import Mathlib.Logic.Function.Basic
import Mathlib.Tactic.Common

/-!
# Byte memory

Memory as a function from addresses to bytes, with little-endian words and C strings. A C string
lies at an address when its bytes do, followed by a zero; `strcpy` puts it there wherever that is,
and writes that keep clear of those bytes leave it there.
-/

namespace Bytes

open Function (update)

/-- Memory, byte by byte. -/
abbrev Mem := Nat → UInt8

/-- A C string: its bytes before the terminating zero. -/
abbrev CString := { l : List UInt8 // 0 ∉ l }

/-- The little-endian word at `a`. -/
def load32 (m : Mem) (a : Nat) : Nat :=
  (m a).toNat + (m (a + 1)).toNat * 256 + (m (a + 2)).toNat * 65536 + (m (a + 3)).toNat * 16777216

def store8 (m : Mem) (a : Nat) (b : UInt8) : Mem := update m a b

def store32 (m : Mem) (a w : Nat) : Mem :=
  store8 (store8 (store8 (store8 m a (.ofNat w)) (a + 1) (.ofNat (w / 256))) (a + 2)
    (.ofNat (w / 65536))) (a + 3) (.ofNat (w / 16777216))

/-- `memset(a, 0, n)` -/
def clear (m : Mem) (a n : Nat) : Mem := fun x => if a ≤ x ∧ x < a + n then 0 else m x

/-- `strcpy`: the bytes of the string and a zero, however long it is. -/
def strcpy (m : Mem) : Nat → List UInt8 → Mem
  | dst, [] => store8 m dst 0
  | dst, c :: cs => strcpy (store8 m dst c) (dst + 1) cs

/-- The bytes are stored from `a` up. -/
def storeList (m : Mem) : Nat → List UInt8 → Mem
  | _, [] => m
  | a, c :: cs => storeList (store8 m a c) (a + 1) cs

/-- `strcmp` of a string with the one at `q`. -/
def strcmp (m : Mem) : List UInt8 → Nat → Int
  | [], q => - (m q).toNat
  | c :: cs, q => if c = m q then strcmp m cs (q + 1) else c.toNat - (m q).toNat

theorem strcmp_cons (m : Mem) (c : UInt8) (cs : List UInt8) (q : Nat) :
    strcmp m (c :: cs) q = if c = m q then strcmp m cs (q + 1) else c.toNat - (m q).toNat := rfl

section

variable {m m' : Mem} {a b w x n : Nat} {cs ds : List UInt8}

/-! ## Words -/

theorem store8_self (v : UInt8) : store8 m a v a = v := Function.update_self ..

theorem store8_of_ne {v : UInt8} (h : x ≠ a) : store8 m a v x = m x := Function.update_of_ne h ..

/-- A word is written to four bytes. -/
theorem store32_of_ne (h : x < a ∨ a + 4 ≤ x) : store32 m a w x = m x := by
  unfold store32
  rw [store8_of_ne (by omega), store8_of_ne (by omega), store8_of_ne (by omega),
    store8_of_ne (by omega)]

theorem store32_first : store32 m a w a = .ofNat w := by
  unfold store32
  rw [store8_of_ne (by omega), store8_of_ne (by omega), store8_of_ne (by omega), store8_self]

theorem load32_store32 (hw : w < 4294967296) : load32 (store32 m a w) a = w := by
  have h1 : store32 m a w (a + 1) = .ofNat (w / 256) := by
    unfold store32
    rw [store8_of_ne (by omega), store8_of_ne (by omega), store8_self]
  have h2 : store32 m a w (a + 2) = .ofNat (w / 65536) := by
    unfold store32
    rw [store8_of_ne (by omega), store8_self]
  have h3 : store32 m a w (a + 3) = .ofNat (w / 16777216) := store8_self _
  unfold load32
  rw [store32_first, h1, h2, h3]
  simp only [UInt8.toNat_ofNat']
  omega

theorem load32_congr (h : ∀ x, a ≤ x → x < a + 4 → m' x = m x) : load32 m' a = load32 m a := by
  unfold load32
  rw [h a (by omega) (by omega), h (a + 1) (by omega) (by omega), h (a + 2) (by omega) (by omega),
    h (a + 3) (by omega) (by omega)]

theorem load32_store32_of_ne (h : b + 4 ≤ a ∨ a + 4 ≤ b) : load32 (store32 m a w) b = load32 m b :=
  load32_congr fun _ h1 h2 => store32_of_ne (by omega)

theorem load32_store8_of_ne {v : UInt8} (h : b + 4 ≤ a ∨ a < b) :
    load32 (store8 m a v) b = load32 m b :=
  load32_congr fun _ h1 h2 => store8_of_ne (by omega)

/-! ## Strings -/

/-- The string lies at `a`. -/
def StringAt (m : Mem) (a : Nat) (cs : List UInt8) : Prop :=
  (∀ k, (h : k < cs.length) → m (a + k) = cs[k]) ∧ m (a + cs.length) = 0

theorem stringAt_cons {c : UInt8} :
    StringAt m a (c :: cs) ↔ m a = c ∧ StringAt m (a + 1) cs := by
  constructor
  · rintro ⟨h, h0⟩
    refine ⟨h 0 (by simp), fun k hk => ?_, ?_⟩
    · have := h (k + 1) (by simpa using hk)
      rwa [show a + (k + 1) = a + 1 + k by omega] at this
    · rwa [List.length_cons, show a + (cs.length + 1) = a + 1 + cs.length by omega] at h0
  · rintro ⟨hc, h, h0⟩
    refine ⟨fun k hk => ?_, ?_⟩
    · cases k with
      | zero => exact hc
      | succ k =>
        rw [show a + (k + 1) = a + 1 + k by omega]
        exact h k (by simpa using hk)
    · rwa [List.length_cons, show a + (cs.length + 1) = a + 1 + cs.length by omega]

/-- `strcmp` is zero exactly on the string that lies there. -/
theorem strcmp_eq_zero (h0 : 0 ∉ cs) : strcmp m cs a = 0 ↔ StringAt m a cs := by
  induction cs generalizing a with
  | nil =>
    have hz : (m a).toNat = 0 ↔ m a = 0 := by
      constructor
      · intro h
        exact UInt8.toNat_inj.1 h
      · intro h
        rw [h]
        rfl
    unfold strcmp StringAt
    simpa using hz
  | cons c cs ih =>
    rw [stringAt_cons, ← ih (fun h => h0 (.tail _ h)), strcmp_cons]
    split
    case isTrue heq => simp [heq]
    case isFalse hne =>
      refine iff_of_false (fun h => hne ?_) (fun h => hne h.1.symm)
      apply UInt8.toNat_inj.1
      omega

theorem StringAt.congr (h : StringAt m a cs) (hm : ∀ k ≤ cs.length, m' (a + k) = m (a + k)) :
    StringAt m' a cs :=
  ⟨fun k hk => (hm k (Nat.le_of_lt hk)).trans (h.1 k hk), (hm _ (Nat.le_refl _)).trans h.2⟩

/-- At most one string lies at an address. -/
theorem StringAt.unique (h : StringAt m a cs) (h' : StringAt m a ds) (h0 : 0 ∉ cs) (h0' : 0 ∉ ds) :
    cs = ds := by
  induction cs generalizing a ds with
  | nil =>
    cases ds with
    | nil => rfl
    | cons d ds =>
      have hd : m a = d := (stringAt_cons.1 h').1
      have hz : m a = 0 := h.2
      exact absurd (by rw [← hz, hd]; exact List.mem_cons_self) h0'
  | cons c cs ih =>
    obtain ⟨hc, h⟩ := stringAt_cons.1 h
    cases ds with
    | nil =>
      have hz : m a = 0 := h'.2
      exact absurd (by rw [← hz, hc]; exact List.mem_cons_self) h0
    | cons d ds =>
      obtain ⟨hd, h'⟩ := stringAt_cons.1 h'
      rw [← hc, ← hd, ih h h' (fun h => h0 (.tail _ h)) (fun h => h0' (.tail _ h))]

theorem strcpy_of_ne (h : x < a ∨ a + cs.length < x) : strcpy m a cs x = m x := by
  induction cs generalizing m a with
  | nil =>
    rw [List.length_nil] at h
    exact store8_of_ne (by omega)
  | cons c cs ih =>
    rw [List.length_cons] at h
    unfold strcpy
    rw [ih (by omega), store8_of_ne (by omega)]

theorem stringAt_strcpy : StringAt (strcpy m a cs) a cs := by
  induction cs generalizing m a with
  | nil => exact ⟨fun k hk => absurd hk (by simp), store8_self 0⟩
  | cons c cs ih =>
    refine stringAt_cons.2 ⟨?_, ih⟩
    show strcpy (store8 m a c) (a + 1) cs a = c
    rw [strcpy_of_ne (by omega), store8_self]

theorem load32_strcpy_of_ne (h : b + 4 ≤ a ∨ a + cs.length < b) :
    load32 (strcpy m a cs) b = load32 m b :=
  load32_congr fun _ h1 h2 => strcpy_of_ne (by omega)

/-! ## Runs of bytes -/

theorem storeList_of_ne (h : x < a ∨ a + cs.length ≤ x) : storeList m a cs x = m x := by
  induction cs generalizing m a with
  | nil => rfl
  | cons c cs ih =>
    rw [List.length_cons] at h
    unfold storeList
    rw [ih (by omega), store8_of_ne (by omega)]

theorem storeList_getElem {k : Nat} (hk : k < cs.length) : storeList m a cs (a + k) = cs[k] := by
  induction cs generalizing m a k with
  | nil => exact absurd hk (Nat.not_lt_zero k)
  | cons c cs ih =>
    unfold storeList
    cases k with
    | zero =>
      rw [storeList_of_ne (by omega)]
      exact store8_self c
    | succ k =>
      rw [show a + (k + 1) = a + 1 + k by omega]
      exact ih (Nat.lt_of_succ_lt_succ hk)

/-! ## Clearing -/

theorem clear_of_ne (h : x < a ∨ a + n ≤ x) : clear m a n x = m x := by
  unfold clear
  rw [if_neg (by omega)]

end

end Bytes
