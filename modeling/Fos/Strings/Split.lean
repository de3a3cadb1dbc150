import Fos.Strings
import Mathlib.Data.List.TakeWhile

/-!
# Splitting a string

An argument begins where a character that does not split follows the start of the string or one that
splits. `strsplit` finds the arguments in order and writes over characters that split, and over
nothing else.
-/

namespace Fos

open Bytes (Mem store8 store8_self store8_of_ne StringAt stringAt_cons)
open Function (update)

/-- An argument of `s` begins at `i`. -/
def BeginsAt (splitChars s : List UInt8) (i : Nat) : Prop :=
  (∃ c, s[i]? = some c ∧ c ∉ splitChars) ∧ (i = 0 ∨ ∃ c, s[i - 1]? = some c ∧ c ∈ splitChars)

instance (splitChars s : List UInt8) (i : Nat) : Decidable (BeginsAt splitChars s i) :=
  decidable_of_iff ((s[i]?.any fun c => decide (c ∉ splitChars)) = true ∧
    (i = 0 ∨ (s[i - 1]?.any fun c => decide (c ∈ splitChars)) = true)) (by
      unfold BeginsAt
      simp only [Option.any_eq_true, decide_eq_true_eq])

/-- Where the arguments of `s` begin, in order. -/
def beginnings (splitChars s : List UInt8) : List Nat :=
  (List.range s.length).filter fun i => decide (BeginsAt splitChars s i)

/-- The argument of `s` that begins at `i`. -/
def argumentAt (splitChars s : List UInt8) (i : Nat) : List UInt8 :=
  (s.drop i).takeWhile fun c => decide (c ∉ splitChars)

/-- What a call of `strsplit` on the string `s` at `a` leaves. -/
structure Tokenised (splitChars s : List UInt8) (a : Nat) (m : Mem) (r : Split) : Prop where
  ret : r.ret = if (beginnings splitChars s).length ≤ maxArguments - 1 then 1 else 0
  argc : r.argc = min (beginnings splitChars s).length (maxArguments - 1)
  argv : ∀ k, (h : k < (beginnings splitChars s).length) → k < maxArguments - 1 →
    r.argv k = a + (beginnings splitChars s)[k] ∧
    StringAt r.mem (r.argv k) (argumentAt splitChars s (beginnings splitChars s)[k])
  null : (beginnings splitChars s).length ≤ maxArguments - 1 → r.argv r.argc = 0
  written : ∀ x, r.mem x ≠ m x → ∃ j, x = a + j ∧ ∃ c, s[j]? = some c ∧ c ∈ splitChars

section

variable {splitChars l s : List UInt8} {m : Mem} {argv : Nat → Nat} {c : UInt8}
  {a argc fuel i j k n x : Nat}

/-! ## Beginnings -/

/-- The arguments that begin in the rest `l` of a string from index `i` on; `inside` tells that the
character before does not split. -/
def restBeginnings (splitChars : List UInt8) : List UInt8 → Nat → Bool → List Nat
  | [], _, _ => []
  | c :: l, i, inside =>
    if c ∈ splitChars then restBeginnings splitChars l (i + 1) false
    else if inside then restBeginnings splitChars l (i + 1) true
    else i :: restBeginnings splitChars l (i + 1) true

theorem restBeginnings_eq {inside : Bool} (hl : s.drop i = l)
    (hin : inside = true ↔ i ≠ 0 ∧ ¬ ∃ c, s[i - 1]? = some c ∧ c ∈ splitChars) :
    restBeginnings splitChars l i inside =
      (List.range' i l.length).filter fun i => decide (BeginsAt splitChars s i) := by
  induction l generalizing i inside with
  | nil => rfl
  | cons c l ih =>
    have hc : s[i]? = some c := by
      rw [← List.head?_drop, hl]
      rfl
    have hrest : s.drop (i + 1) = l := by
      rw [← List.tail_drop, hl]
      rfl
    rw [List.length_cons, List.range'_succ, restBeginnings]
    by_cases hsplit : c ∈ splitChars
    · have hno : ¬ BeginsAt splitChars s i := by
        rintro ⟨⟨d, hd, hnot⟩, -⟩
        rw [hc] at hd
        obtain rfl := Option.some.inj hd
        exact hnot hsplit
      rw [if_pos hsplit, List.filter_cons_of_neg (by simpa using hno)]
      apply ih hrest
      simp [hc, hsplit]
    · -- a token begins here if the character before it was a separator
      have hiff : BeginsAt splitChars s i ↔ inside = false := by
        rw [← Bool.not_eq_true, hin]
        unfold BeginsAt
        rw [and_iff_right ⟨c, hc, hsplit⟩, not_and_or, not_not, not_not]
      have hnext : restBeginnings splitChars l (i + 1) true =
          (List.range' (i + 1) l.length).filter fun i => decide (BeginsAt splitChars s i) := by
        apply ih hrest
        simp [hc, hsplit]
      rw [if_neg hsplit]
      cases inside with
      | true =>
        rw [if_pos rfl, List.filter_cons_of_neg (by simp [hiff])]
        exact hnext
      | false =>
        rw [if_neg Bool.false_ne_true, List.filter_cons_of_pos (by simp [hiff]), hnext]

theorem beginnings_eq (splitChars s : List UInt8) :
    beginnings splitChars s = restBeginnings splitChars s 0 false := by
  rw [beginnings, List.range_eq_range']
  exact (restBeginnings_eq rfl (by simp)).symm

theorem le_of_mem_restBeginnings {inside : Bool} (h : i ∈ restBeginnings splitChars l k inside) :
    k ≤ i ∧ i < k + l.length := by
  induction l generalizing k inside with
  | nil => cases h
  | cons c l ih =>
    rw [List.length_cons]
    unfold restBeginnings at h
    split at h
    · have := ih h
      omega
    · split at h
      · have := ih h
        omega
      · cases h with
        | head => omega
        | tail _ h =>
          have := ih h
          omega

/-- The characters at the front that split. -/
def gap (splitChars l : List UInt8) : Nat := (l.takeWhile fun c => decide (c ∈ splitChars)).length

/-- The characters at the front that do not split. -/
def word (splitChars l : List UInt8) : Nat := (l.takeWhile fun c => decide (c ∉ splitChars)).length

theorem gap_cons (c : UInt8) (l : List UInt8) :
    gap splitChars (c :: l) = if c ∈ splitChars then gap splitChars l + 1 else 0 := by
  unfold gap
  rw [List.takeWhile_cons]
  split <;> simp_all

theorem word_cons (c : UInt8) (l : List UInt8) :
    word splitChars (c :: l) = if c ∈ splitChars then 0 else word splitChars l + 1 := by
  unfold word
  rw [List.takeWhile_cons]
  split <;> simp_all

theorem gap_le (splitChars l : List UInt8) : gap splitChars l ≤ l.length :=
  (List.takeWhile_prefix _).length_le

theorem word_le (splitChars l : List UInt8) : word splitChars l ≤ l.length :=
  (List.takeWhile_prefix _).length_le

theorem restBeginnings_gap (splitChars l : List UInt8) (k : Nat) :
    restBeginnings splitChars l k false =
    restBeginnings splitChars (l.drop (gap splitChars l)) (k + gap splitChars l) false := by
  induction l generalizing k with
  | nil => rfl
  | cons c l ih =>
    rw [gap_cons]
    split
    case isTrue h =>
      rw [restBeginnings, if_pos h, ih, List.drop_succ_cons]
      congr 1
      omega
    case isFalse h => rfl

theorem restBeginnings_word (splitChars l : List UInt8) (k : Nat) :
    restBeginnings splitChars l k true =
    restBeginnings splitChars (l.drop (word splitChars l)) (k + word splitChars l) false := by
  induction l generalizing k with
  | nil => rfl
  | cons c l ih =>
    rw [word_cons]
    split
    case isTrue h =>
      rw [restBeginnings, if_pos h, List.drop_zero, Nat.add_zero, restBeginnings, if_pos h]
    case isFalse h =>
      rw [restBeginnings, if_neg h, if_pos rfl, ih, List.drop_succ_cons]
      congr 1
      omega

/-- Past the gap is the end or a character that does not split. -/
theorem drop_gap (splitChars l : List UInt8) :
    l.drop (gap splitChars l) = [] ∨ ∃ c l', l.drop (gap splitChars l) = c :: l' ∧
    c ∉ splitChars := by
  induction l with
  | nil => exact .inl rfl
  | cons c l ih =>
    rw [gap_cons]
    split
    case isTrue h => exact ih
    case isFalse h => exact .inr ⟨c, l, rfl, h⟩

/-- Past the word is the end or a character that splits. -/
theorem getElem_word (l : List UInt8) (h : word splitChars l < l.length) :
    l[word splitChars l] ∈ splitChars := by
  induction l with
  | nil => exact absurd h (Nat.not_lt_zero _)
  | cons c l ih =>
    by_cases hc : c ∈ splitChars
    · have h0 : word splitChars (c :: l) = 0 := by rw [word_cons, if_pos hc]
      simp only [h0]
      exact hc
    · have hs : word splitChars (c :: l) = word splitChars l + 1 := by rw [word_cons, if_neg hc]
      simp only [hs, List.getElem_cons_succ]
      rw [hs, List.length_cons] at h
      exact ih (Nat.lt_of_succ_lt_succ h)

theorem getElem_of_lt_word (l : List UInt8) (h : j < word splitChars l) (hj : j < l.length) :
    l[j] ∉ splitChars := by
  induction l generalizing j with
  | nil => exact absurd h (Nat.not_lt_zero _)
  | cons c l ih =>
    by_cases hc : c ∈ splitChars
    · rw [word_cons, if_pos hc] at h
      exact absurd h (Nat.not_lt_zero _)
    · cases j with
      | zero => exact hc
      | succ j =>
        rw [word_cons, if_neg hc] at h
        exact ih (Nat.lt_of_succ_lt_succ h) _

/-! ## The loops -/

theorem strchr_isSome (ds : List UInt8) (c : UInt8) : (strchr ds c).isSome = true ↔ c ∈ ds := by
  induction ds with
  | nil => simp [strchr]
  | cons d ds ih =>
    rw [strchr, List.mem_cons]
    split
    case isTrue h => simp [h]
    case isFalse h =>
      rw [Option.isSome_map, ih, or_iff_right (Ne.symm h)]

/-- The memory with the characters that split overwritten in the first `k` bytes from `a` on. -/
def blanked (splitChars : List UInt8) (m : Mem) (a k : Nat) : Mem := fun x =>
  if a ≤ x ∧ x < a + k ∧ m x ∈ splitChars then 0 else m x

theorem blanked_of_le (h : a + k ≤ x) : blanked splitChars m a k x = m x := by
  unfold blanked
  rw [if_neg (by omega)]

theorem blanked_of_notMem (h : m x ∉ splitChars) : blanked splitChars m a k x = m x := by
  unfold blanked
  rw [if_neg fun hc => h hc.2.2]

theorem blanked_zero : blanked splitChars m a 0 = m := by
  funext x
  unfold blanked
  rw [if_neg (by omega)]

theorem blanked_succ (h : m (a + k) ∈ splitChars) :
    store8 (blanked splitChars m a k) (a + k) 0 = blanked splitChars m a (k + 1) := by
  funext x
  by_cases hx : x = a + k
  · subst hx
    rw [store8_self]
    unfold blanked
    rw [if_pos ⟨by omega, by omega, h⟩]
  · rw [store8_of_ne hx]
    unfold blanked
    have hiff : (a ≤ x ∧ x < a + k ∧ m x ∈ splitChars) ↔
        (a ≤ x ∧ x < a + (k + 1) ∧ m x ∈ splitChars) := by
      constructor <;> rintro ⟨h1, h2, h3⟩ <;> exact ⟨h1, by omega, h3⟩
    rw [if_congr hiff rfl rfl]

theorem blanked_word (hm : StringAt m (a + k) l) :
    blanked splitChars m a (k + word splitChars l) = blanked splitChars m a k := by
  funext x
  by_cases hx : a + k ≤ x ∧ x < a + k + word splitChars l
  · have hj : x - (a + k) < word splitChars l := by omega
    have hlt := Nat.lt_of_lt_of_le hj (word_le splitChars l)
    have hnot := getElem_of_lt_word l hj hlt
    have hval := hm.1 (x - (a + k)) hlt
    rw [show a + k + (x - (a + k)) = x by omega] at hval
    rw [blanked_of_notMem (hval ▸ hnot), blanked_of_notMem (hval ▸ hnot)]
  · unfold blanked
    have hiff : (a ≤ x ∧ x < a + (k + word splitChars l) ∧ m x ∈ splitChars) ↔
        (a ≤ x ∧ x < a + k ∧ m x ∈ splitChars) := by
      constructor <;> rintro ⟨h1, h2, h3⟩ <;> exact ⟨h1, by omega, h3⟩
    rw [if_congr hiff rfl rfl]

/-- The rest of a string. -/
theorem stringAt_drop (h : StringAt m a l) (hn : n ≤ l.length) : StringAt m (a + n) (l.drop n) := by
  refine ⟨fun k hk => ?_, ?_⟩
  · rw [List.length_drop] at hk
    rw [List.getElem_drop, ← h.1 (n + k) (by omega)]
    congr 1
    omega
  · rw [List.length_drop, show a + n + (l.length - n) = a + l.length by omega]
    exact h.2

theorem trimSplitChars_eq (hm : StringAt m (a + k) l) (h0 : 0 ∉ l) (hn : l.length < n) :
    trimSplitChars splitChars n (a + k) (blanked splitChars m a k) =
      some (a + (k + gap splitChars l), blanked splitChars m a (k + gap splitChars l)) := by
  induction l generalizing k n with
  | nil =>
    cases n with
    | zero => exact absurd hn (Nat.not_lt_zero _)
    | succ n =>
      have hz : blanked splitChars m a k (a + k) = 0 := by
        rw [blanked_of_le (Nat.le_refl _)]
        exact hm.2
      rw [trimSplitChars, if_neg fun hc => hc.1 hz]
      rfl
  | cons c l ih =>
    cases n with
    | zero => exact absurd hn (Nat.not_lt_zero _)
    | succ n =>
      obtain ⟨hc, hm'⟩ := stringAt_cons.1 hm
      -- bytes from `k` on have not been blanked yet
      have hval : blanked splitChars m a k (a + k) = c := by rw [blanked_of_le (Nat.le_refl _), hc]
      have hne : c ≠ 0 := fun h => h0 (h ▸ List.mem_cons_self)
      rw [trimSplitChars, hval, gap_cons]
      by_cases hs : c ∈ splitChars
      · rw [if_pos ⟨hne, (strchr_isSome _ _).2 hs⟩, if_pos hs, blanked_succ (hc ▸ hs),
          Nat.add_assoc a k 1,
          ih (k := k + 1) hm' (fun h => h0 (.tail _ h)) (Nat.lt_of_succ_lt_succ hn),
          show k + 1 + gap splitChars l = k + (gap splitChars l + 1) by omega]
      · rw [if_neg fun h => hs ((strchr_isSome _ _).1 h.2), if_neg hs]
        rfl

theorem scanArgument_eq (hm : StringAt m (a + k) l) (h0 : 0 ∉ l) (hn : l.length < n) (hj : j ≤ k) :
    scanArgument splitChars (blanked splitChars m a j) n (a + k) =
      some (a + (k + word splitChars l)) := by
  induction l generalizing k n with
  | nil =>
    cases n with
    | zero => exact absurd hn (Nat.not_lt_zero _)
    | succ n =>
      have hz : blanked splitChars m a j (a + k) = 0 := by
        rw [blanked_of_le (by omega)]
        exact hm.2
      rw [scanArgument, if_neg fun hc => hc.1 hz]
      rfl
  | cons c l ih =>
    cases n with
    | zero => exact absurd hn (Nat.not_lt_zero _)
    | succ n =>
      obtain ⟨hc, hm'⟩ := stringAt_cons.1 hm
      have hval : blanked splitChars m a j (a + k) = c := by rw [blanked_of_le (by omega), hc]
      have hne : c ≠ 0 := fun h => h0 (h ▸ List.mem_cons_self)
      rw [scanArgument, hval, word_cons]
      -- the word ends at the first delimiter
      by_cases hs : c ∈ splitChars
      · rw [if_neg fun h => h.2 ((strchr_isSome _ _).2 hs), if_pos hs]
        rfl
      · rw [if_pos ⟨hne, fun h => hs ((strchr_isSome _ _).1 h)⟩, if_neg hs, Nat.add_assoc a k 1,
          ih (k := k + 1) hm' (fun h => h0 (.tail _ h)) (Nat.lt_of_succ_lt_succ hn) (Nat.le_succ_of_le hj),
          show k + 1 + word splitChars l = k + (word splitChars l + 1) by omega]

/-- An argument is terminated once the character after it is overwritten, or at the end. -/
theorem stringAt_word (hm : StringAt m (a + i) l)
    (hend : i + word splitChars l < i + l.length → i + word splitChars l < k)
    (hle : i + word splitChars l ≤ k) (hk : k ≤ i + l.length) :
    StringAt (blanked splitChars m a k) (a + i) (l.takeWhile fun c => decide (c ∉ splitChars)) := by
  have hw := word_le splitChars l
  refine ⟨fun j hj => ?_, ?_⟩
  · change j < word splitChars l at hj
    have hval := hm.1 j (by omega)
    have hnot := getElem_of_lt_word l hj (by omega)
    rw [blanked_of_notMem (hval ▸ hnot), hval]
    exact ((List.takeWhile_prefix _).getElem hj).symm
  · change blanked splitChars m a k (a + i + word splitChars l) = 0
    by_cases hlt : word splitChars l < l.length
    · have hval := hm.1 _ hlt
      have hsplit := getElem_word l hlt
      unfold blanked
      have := hend (by omega)
      rw [if_pos ⟨by omega, by omega, hval ▸ hsplit⟩]
    · rw [show word splitChars l = l.length by omega, blanked_of_le (by omega)]
      exact hm.2

/-- What the outer loop does from index `k` on, where the rest of the string is `l`. -/
structure SplitsRest (splitChars l : List UInt8) (m : Mem) (a k argc : Nat) (argv : Nat → Nat)
    (r : Split) : Prop where
  ret : r.ret =
    if argc + (restBeginnings splitChars l k false).length ≤ maxArguments - 1 then 1 else 0
  count : r.argc = min (argc + (restBeginnings splitChars l k false).length) (maxArguments - 1)
  old : ∀ j < argc, r.argv j = argv j
  new : ∀ j, (h : j < (restBeginnings splitChars l k false).length) →
    argc + j < maxArguments - 1 →
    r.argv (argc + j) = a + (restBeginnings splitChars l k false)[j] ∧
    StringAt r.mem (r.argv (argc + j))
      ((l.drop ((restBeginnings splitChars l k false)[j] - k)).takeWhile fun c => decide (c ∉ splitChars))
  null : argc + (restBeginnings splitChars l k false).length ≤ maxArguments - 1 → r.argv r.argc = 0
  mem : ∃ k', k + gap splitChars l ≤ k' ∧ k' ≤ k + l.length ∧ r.mem = blanked splitChars m a k'

theorem gap_pos (l : List UInt8) (h : word splitChars l < l.length) :
    0 < gap splitChars (l.drop (word splitChars l)) := by
  rw [List.drop_eq_getElem_cons h, gap_cons, if_pos (getElem_word l h)]
  exact Nat.succ_pos _

theorem setArgument_of_lt (h : i < maxArguments) (p : Nat) :
    setArgument argv i p = some (update argv i p) := if_pos h

theorem splitLoop_eq (hm : StringAt m (a + k) l) (h0 : 0 ∉ l) (hn : l.length < n)
    (hfuel : l.length < fuel) (hargc : argc ≤ maxArguments - 1) :
    ∃ r, splitLoop splitChars fuel n (a + k) argc argv (blanked splitChars m a k) = some r ∧
      SplitsRest splitChars l m a k argc argv r := by
  induction n generalizing l k argc argv with
  | zero => exact absurd hn (Nat.not_lt_zero _)
  | succ n ih =>
    have hg := gap_le splitChars l
    rw [splitLoop, trimSplitChars_eq hm h0 hfuel]
    dsimp only [Option.bind_eq_bind, Option.bind_some]
    have hm₁ := stringAt_drop hm hg
    rw [Nat.add_assoc] at hm₁
    have h0₁ : 0 ∉ l.drop (gap splitChars l) := fun h => h0 (List.mem_of_mem_drop h)
    have hstart := restBeginnings_gap splitChars l k
    rcases drop_gap splitChars l with hnil | ⟨c, l', hcons, hc⟩
    · -- the end of the string
      rw [hnil] at hm₁ hstart
      have hz : blanked splitChars m a (k + gap splitChars l) (a + (k + gap splitChars l)) = 0 := by
        rw [blanked_of_le (Nat.le_refl _)]
        exact hm₁.2
      rw [if_pos hz, setArgument_of_lt (Nat.lt_succ_of_le hargc)]
      change restBeginnings splitChars l k false = [] at hstart
      refine ⟨_, rfl, ?_⟩
      refine ⟨?_, ?_, fun j hj => ?_, fun j hj => ?_, fun _ => ?_, ?_⟩
      · rw [hstart, List.length_nil, if_pos (by omega)]
      · rw [hstart, List.length_nil]
        show argc = _
        omega
      · exact Function.update_of_ne (by omega) ..
      · rw [hstart] at hj
        exact absurd hj (Nat.not_lt_zero j)
      · exact Function.update_self ..
      · exact ⟨_, Nat.le_refl _, by omega, rfl⟩
    · have hval : blanked splitChars m a (k + gap splitChars l) (a + (k + gap splitChars l)) = c := by
        rw [blanked_of_le (Nat.le_refl _)]
        rw [hcons] at hm₁
        exact (stringAt_cons.1 hm₁).1
      have hne : c ≠ 0 := fun h => h0₁ (by rw [hcons, h]; exact List.mem_cons_self)
      rw [hcons, restBeginnings, if_neg hc, if_neg Bool.false_ne_true] at hstart
      rw [if_neg (by rw [hval]; exact hne)]
      by_cases hfull : argc = maxArguments - 1
      · -- an argument too many
        rw [if_pos hfull]
        refine ⟨_, rfl, ?_⟩
        refine ⟨?_, ?_, fun j hj => rfl, fun j hj hlt => ?_, fun hle => ?_, ?_⟩
        · rw [hstart, List.length_cons, if_neg (by omega)]
        · rw [hstart, List.length_cons]
          show argc = _
          omega
        · omega
        · rw [hstart, List.length_cons] at hle
          omega
        · exact ⟨_, Nat.le_refl _, by omega, rfl⟩
      · rw [if_neg hfull, setArgument_of_lt (i := argc) (by omega)]
        dsimp only [Option.bind_some]
        set k₁ := k + gap splitChars l with hk₁
        set l₁ := l.drop (gap splitChars l) with hl₁
        have hlen₁ : l₁.length = l.length - gap splitChars l := List.length_drop
        have hw := word_le splitChars l₁
        have hpos : 0 < word splitChars l₁ := by
          rw [hcons, word_cons, if_neg hc]
          exact Nat.succ_pos _
        have hscan : scanArgument splitChars (blanked splitChars m a k₁) fuel (a + k₁) =
            some (a + (k₁ + word splitChars l₁)) :=
          scanArgument_eq hm₁ h0₁ (by omega) (Nat.le_refl k₁)
        rw [hscan, ← blanked_word hm₁]
        dsimp only [Option.bind_some]
        have hm₂ := stringAt_drop hm₁ hw
        rw [Nat.add_assoc] at hm₂
        set k₂ := k₁ + word splitChars l₁ with hk₂
        set l₂ := l₁.drop (word splitChars l₁) with hl₂
        have hlen₂ : l₂.length = l₁.length - word splitChars l₁ := List.length_drop
        have h0₂ : 0 ∉ l₂ := fun h => h0₁ (List.mem_of_mem_drop h)
        have hargc' : argc + 1 ≤ maxArguments - 1 := by omega
        obtain ⟨r, hr, hs⟩ : ∃ r, splitLoop splitChars fuel n (a + k₂) (argc + 1)
            (update argv argc (a + k₁)) (blanked splitChars m a k₂) = some r ∧
            SplitsRest splitChars l₂ m a k₂ (argc + 1) (update argv argc (a + k₁)) r :=
          ih hm₂ h0₂ (by omega) (by omega) hargc'
        refine ⟨r, hr, ?_⟩
        have hrest : restBeginnings splitChars l' (k₁ + 1) true =
            restBeginnings splitChars l₂ k₂ false := by
          have hword := restBeginnings_word splitChars l₁ k₁
          rwa [hcons, restBeginnings, if_neg hc, if_pos rfl, ← hcons] at hword
        rw [hrest] at hstart
        obtain ⟨k', hk₁', hk₂', hmem⟩ := hs.mem
        have hargv : r.argv argc = a + k₁ := by
          rw [hs.old argc (Nat.lt_succ_self argc)]
          exact Function.update_self ..
        refine ⟨?_, ?_, fun j hj => ?_, fun j hj hlt => ?_, fun hle => ?_, ?_⟩
        · rw [hs.ret, hstart, List.length_cons]
          congr 2
          omega
        · rw [hs.count, hstart, List.length_cons]
          congr 1
          omega
        · rw [hs.old j (by omega)]
          exact Function.update_of_ne (by omega) ..
        · cases j with
          | zero =>
            -- the argument that was scanned
            have hlast : k₁ + word splitChars l₁ < k₁ + l₁.length →
                k₁ + word splitChars l₁ < k' := by
              intro hlt'
              have hgap : 0 < gap splitChars l₂ := gap_pos l₁ (by omega)
              omega
            have hstr := stringAt_word hm₁ hlast (by omega) (by omega)
            simp only [hstart, List.getElem_cons_zero, Nat.add_zero]
            rw [hargv, hmem, show k₁ - k = gap splitChars l by omega]
            exact ⟨rfl, hstr⟩
          | succ j =>
            have hj' : j < (restBeginnings splitChars l₂ k₂ false).length := by
              rw [hstart, List.length_cons] at hj
              exact Nat.lt_of_succ_lt_succ hj
            obtain ⟨hptr, hstr⟩ := hs.new j hj' (by omega)
            have hge := (le_of_mem_restBeginnings (List.getElem_mem hj')).1
            rw [show argc + 1 + j = argc + (j + 1) by omega] at hptr hstr
            have hdrop : ∀ i, k₂ ≤ i → l.drop (i - k) = l₂.drop (i - k₂) := by
              intro i hi
              have h₂ : l₂.drop (i - k₂) = l₁.drop (word splitChars l₁ + (i - k₂)) :=
                List.drop_drop ..
              have h₁ : ∀ q, l₁.drop q = l.drop (gap splitChars l + q) := fun q => List.drop_drop ..
              rw [h₂, h₁]
              congr 1
              omega
            simp only [hstart, List.getElem_cons_succ]
            rw [hdrop _ hge]
            exact ⟨hptr, hstr⟩
        · rw [hstart, List.length_cons] at hle
          exact hs.null (by omega)
        · exact ⟨k', by omega, by omega, hmem⟩

/-- **`strsplit` finds the arguments of a string**, the first fifteen of them when there are
more. -/
theorem strsplit_tokenises (hm : StringAt m a s) (h0 : 0 ∉ s) (hfuel : s.length < fuel) :
    ∃ r, strsplit fuel a splitChars argv m = some r ∧ Tokenised splitChars s a m r := by
  have hm' : StringAt m (a + 0) s := hm
  obtain ⟨r, hr, hs⟩ : ∃ r, splitLoop splitChars fuel fuel (a + 0) 0 (update argv 0 0)
      (blanked splitChars m a 0) = some r ∧ SplitsRest splitChars s m a 0 0 (update argv 0 0) r :=
    splitLoop_eq hm' h0 hfuel hfuel (Nat.zero_le _)
  -- at the start nothing is blanked
  rw [blanked_zero] at hr
  have hbegin := beginnings_eq splitChars s
  refine ⟨r, hr, ?_, ?_, fun k hk hlt => ?_, fun hle => ?_, fun x hx => ?_⟩
  · rw [hs.ret, hbegin, Nat.zero_add]
  · rw [hs.count, hbegin, Nat.zero_add]
  · have hk' : k < (restBeginnings splitChars s 0 false).length := by rwa [← hbegin]
    obtain ⟨hptr, hstr⟩ := hs.new k hk' (by omega)
    rw [Nat.zero_add] at hptr hstr
    simp only [hbegin]
    exact ⟨hptr, hstr⟩
  · rw [hbegin] at hle
    exact hs.null (by omega)
  · obtain ⟨k', -, hk', hmem⟩ := hs.mem
    rw [hmem, blanked] at hx
    split at hx
    case isTrue hc =>
      have hlt : x - a < s.length := by omega
      have hval := hm.1 (x - a) hlt
      rw [show a + (x - a) = x by omega] at hval
      exact ⟨x - a, by omega, _, List.getElem?_eq_getElem hlt, hval ▸ hc.2.2⟩
    case isFalse => exact absurd rfl hx

/-- `" run  fos"`, split at spaces. -/
theorem strsplit_tokenises_run : ∃ r,
    strsplit 10 100 [32] (fun _ => 0)
        (Bytes.strcpy (fun _ => 0) 100 [32, 114, 117, 110, 32, 32, 102, 111, 115]) =
      some r ∧ Tokenised [32] [32, 114, 117, 110, 32, 32, 102, 111, 115] 100
        (Bytes.strcpy (fun _ => 0) 100 [32, 114, 117, 110, 32, 32, 102, 111, 115]) r :=
  strsplit_tokenises Bytes.stringAt_strcpy (by decide) (by decide)

end

end Fos
