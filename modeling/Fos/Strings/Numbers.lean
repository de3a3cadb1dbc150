import Fos.Strings
import Mathlib.Data.List.TakeWhile
import Mathlib.Data.Nat.Digits.Defs

/-!
# Printing and parsing numbers

`ltostr` writes the digits from the last one up and stops at the first that is zero, the last one
apart. So it writes the decimal representation of a number exactly if no other digit is zero, the
least `long` apart, which has no negative in `long`.
-/

namespace Fos

open Bytes (Mem store8 store8_self store8_of_ne storeList storeList_of_ne storeList_getElem StringAt)

/-- A digit as a character. -/
def digitChar (d : Nat) : UInt8 := .ofNat (d + 48)

/-- The decimal digits of `k`, the first one first. -/
def decimalDigits (k : Nat) : List Nat := if k = 0 then [0] else (Nat.digits 10 k).reverse

/-- The decimal representation of `n`. -/
def decimal (n : Int) : List UInt8 :=
  (if n < 0 then [45] else []) ++ (decimalDigits n.natAbs).map digitChar

/-- The numbers that a `long` holds. -/
def IsLong (n : Int) : Prop := -2147483648 ≤ n ∧ n < 2147483648

instance (n : Int) : Decidable (IsLong n) := inferInstanceAs (Decidable (_ ∧ _))

/-- `n` has a negative, and none of its decimal digits but the last one is zero. -/
def Printable (n : Int) : Prop :=
  n ≠ -2147483648 ∧ ∀ d ∈ (Nat.digits 10 n.natAbs).tail, d ≠ 0

instance (n : Int) : Decidable (Printable n) := inferInstanceAs (Decidable (_ ∧ _))

section

variable {m : Mem} {str s start stop k v x : Nat} {n value : Int}

/-! ## What `ltostr` writes -/

/-- The digits that the first loop of `ltostr` writes. -/
def digitRun (value : Int) : List UInt8 :=
  digitByte (value.tmod 10) ::
    if _h : (value.tdiv 10).tmod 10 ≠ 0 then digitRun (value.tdiv 10) else []
termination_by value.natAbs
decreasing_by
  have hne : value ≠ 0 := by
    rintro rfl
    exact _h rfl
  rw [Int.natAbs_tdiv]
  exact Nat.div_lt_self (Int.natAbs_pos.2 hne) (by decide)

theorem putDigits_eq (value : Int) (s : Nat) (m : Mem) :
    putDigits str value s m =
      (storeList m (str + s) (digitRun value), s + (digitRun value).length) := by
  induction value, s, m using putDigits.induct str with
  | case1 value s m m' h ih =>
    rw [putDigits, digitRun, dif_pos h, dif_pos h, ih, List.length_cons]
    refine Prod.ext rfl ?_
    show s + 1 + _ = s + (_ + 1)
    omega
  | case2 value s m h =>
    rw [putDigits, digitRun, dif_neg h, dif_neg h]
    rfl

/-- Swapping from both ends reverses the bytes between them. -/
theorem reverseBytes_apply (x : Nat) :
    reverseBytes str start stop m x =
      if str + start ≤ x ∧ x ≤ str + stop then m (str + start + (str + stop) - x) else m x := by
  -- each turn exchanges the two ends and leaves the inside to the next
  induction start, stop, m using reverseBytes.induct str with
  | case1 start stop m h ih =>
    rw [reverseBytes, if_pos h, ih]
    by_cases hlo : x = str + start
    · subst hlo
      rw [if_neg (by omega), if_pos (by omega), store8_of_ne (by omega), store8_self]
      congr 1
      omega
    · by_cases hhi : x = str + stop
      · subst hhi
        rw [if_neg (by omega), if_pos (by omega), store8_self]
        congr 1
        omega
      · by_cases hin : str + start ≤ x ∧ x ≤ str + stop
        · rw [if_pos (by omega), if_pos hin, store8_of_ne (by omega), store8_of_ne (by omega)]
          congr 1
          omega
        · rw [if_neg (by omega), if_neg hin, store8_of_ne (by omega), store8_of_ne (by omega)]
  | case2 start stop m h =>
    rw [reverseBytes, if_neg h]
    split
    case isTrue hin =>
      congr 1
      omega
    case isFalse => rfl

/-- The number whose digits `ltostr` writes. -/
def magnitude (n : Int) : Int := if n < 0 then toLong (n * -1) else n

/-- The string that `ltostr` produces. -/
def produced (n : Int) : List UInt8 :=
  (if n < 0 then [45] else []) ++ (digitRun (magnitude n)).reverse

/-- Digits written from index `start` on and turned around. -/
theorem stringAt_reversed (m : Mem) (str start : Nat) {l : List UInt8} (hl : l ≠ []) (k : Nat)
    (hk : k < l.reverse.length) :
    reverseBytes str start (start + l.length - 1) (storeList m (str + start) l) (str + (start + k)) =
      l.reverse[k] := by
  have hpos := List.length_pos_iff.2 hl
  rw [List.length_reverse] at hk
  rw [reverseBytes_apply, if_pos (by omega), List.getElem_reverse,
    show str + start + (str + (start + l.length - 1)) - (str + (start + k)) =
      str + start + (l.length - 1 - k) by omega]
  exact storeList_getElem _

theorem digitRun_ne_nil (value : Int) : digitRun value ≠ [] := by
  rw [digitRun]
  exact List.cons_ne_nil _ _

theorem stringAt_ltostr (n : Int) (str : Nat) (m : Mem) :
    StringAt (ltostr n str m) str (produced n) := by
  have hne := digitRun_ne_nil (magnitude n)
  have hpos := List.length_pos_iff.2 hne
  by_cases hn : n < 0
  · -- after the sign the digits are written lowest first, then reversed in place
    have hrun : ltostr n str m =
        store8 (reverseBytes str 1 (1 + (digitRun (magnitude n)).length - 1)
          (storeList (store8 m str 45) (str + 1) (digitRun (magnitude n))))
          (str + (1 + (digitRun (magnitude n)).length)) 0 := by
      rw [ltostr, decide_eq_true hn, putDigits_eq]
      simp only [magnitude, if_pos hn, ↓reduceIte]
    rw [hrun, produced, if_pos hn]
    set l := digitRun (magnitude n)
    refine ⟨fun k hk => ?_, ?_⟩
    · rw [List.length_append, List.length_reverse] at hk
      change k < 1 + l.length at hk
      rw [store8_of_ne (by omega)]
      cases k with
      | zero =>
        rw [reverseBytes_apply, if_neg (by omega), storeList_of_ne (by omega)]
        exact store8_self 45
      | succ k =>
        have hrev := stringAt_reversed (store8 m str 45) str 1 hne k
          (by rw [List.length_reverse]; omega)
        rw [show str + (1 + k) = str + (k + 1) by omega] at hrev
        rw [hrev]
        simp
    · rw [List.length_append, List.length_reverse]
      exact store8_self 0
  · have hrun : ltostr n str m =
        store8 (reverseBytes str 0 (0 + (digitRun (magnitude n)).length - 1)
          (storeList m (str + 0) (digitRun (magnitude n))))
          (str + (0 + (digitRun (magnitude n)).length)) 0 := by
      rw [ltostr, decide_eq_false hn, putDigits_eq]
      simp only [magnitude, if_neg hn, Bool.false_eq_true, ↓reduceIte]
    rw [hrun, produced, if_neg hn, List.nil_append]
    set l := digitRun (magnitude n)
    refine ⟨fun k hk => ?_, ?_⟩
    · have hrev := stringAt_reversed m str 0 hne k hk
      rw [List.length_reverse] at hk
      rw [store8_of_ne (by omega)]
      rw [show str + (0 + k) = str + k by omega] at hrev
      exact hrev
    · rw [List.length_reverse, Nat.zero_add]
      exact store8_self 0

/-! ## Digits -/

theorem toLong_of_range (h : IsLong n) : toLong n = n := by
  obtain ⟨h1, h2⟩ := h
  exact Int.bmod_eq_of_le_mul_two (by omega) (by omega)

theorem digitByte_natCast {d : Nat} (hd : d < 10) : digitByte d = digitChar d := by
  unfold digitByte digitChar
  congr 1
  omega

theorem digitByte_toNat {d : Int} (h1 : -10 < d) (h2 : d < 10) :
    (digitByte d).toNat = (d + 48).toNat := by
  unfold digitByte
  rw [UInt8.toNat_ofNat']
  omega

theorem digitChar_toNat {d : Nat} (hd : d < 10) : (digitChar d).toNat = d + 48 := by
  unfold digitChar
  rw [UInt8.toNat_ofNat']
  omega

/-- The loop writes the last digit and then the digits up to the first zero. -/
theorem digitRun_natCast (v : Nat) :
    digitRun v = (v % 10 :: (Nat.digits 10 (v / 10)).takeWhile (· ≠ 0)).map digitChar := by
  induction v using Nat.strong_induction_on with
  | _ v ih =>
    have hfirst : digitByte ((v : Int).tmod 10) = digitChar (v % 10) :=
      digitByte_natCast (Nat.mod_lt v (by decide))
    have hquot : (v : Int).tdiv 10 = (v / 10 : Nat) := rfl
    have hnext : ((v / 10 : Nat) : Int).tmod 10 = (v / 10 % 10 : Nat) := rfl
    rw [digitRun, hfirst, hquot, hnext, List.map_cons]
    congr 1
    by_cases h0 : v / 10 % 10 = 0
    · rw [dif_neg (by omega)]
      by_cases hv : v / 10 = 0
      · rw [hv]
        rfl
      · rw [Nat.digits_def' (by decide) (by omega), h0]
        rfl
    · rw [dif_pos (by omega), ih (v / 10) (by omega),
        Nat.digits_def' (n := v / 10) (by decide) (by omega),
        List.takeWhile_cons_of_pos (by simpa using h0)]

theorem decimalDigits_eq (k : Nat) :
    decimalDigits k = (k % 10 :: Nat.digits 10 (k / 10)).reverse := by
  unfold decimalDigits
  split
  case isTrue h =>
    rw [h]
    rfl
  case isFalse h => rw [Nat.digits_def' (by decide) (by omega)]

theorem mem_decimalDigits {d : Nat} (h : d ∈ decimalDigits k) : d < 10 := by
  rw [decimalDigits_eq, List.mem_reverse] at h
  cases h with
  | head => exact Nat.mod_lt k (by decide)
  | tail _ h => exact Nat.digits_lt_base (by decide) h

theorem digits_tail (k : Nat) : (Nat.digits 10 k).tail = Nat.digits 10 (k / 10) := by
  by_cases h : k = 0
  · subst h
    rfl
  · rw [Nat.digits_def' (by decide) (by omega), List.tail_cons]

/-- The loop writes all digits exactly if only the last one may be zero. -/
theorem digitRun_eq_iff (v : Nat) : digitRun v = ((decimalDigits v).map digitChar).reverse ↔
    ∀ d ∈ (Nat.digits 10 v).tail, d ≠ 0 := by
  rw [digitRun_natCast, decimalDigits_eq, List.map_reverse, List.reverse_reverse, digits_tail]
  constructor
  · intro h d hd
    have hlen := congrArg List.length h
    rw [List.length_map, List.length_map, List.length_cons, List.length_cons] at hlen
    have hall := List.takeWhile_sublist (l := Nat.digits 10 (v / 10)) (fun d => decide (d ≠ 0))
    have heq := hall.eq_of_length (by omega)
    rw [← heq] at hd
    exact of_decide_eq_true (List.mem_takeWhile_imp (p := fun d => decide (d ≠ 0)) hd)
  · intro h
    rw [List.takeWhile_eq_self_iff.2 fun d hd => decide_eq_true (h d hd)]

theorem magnitude_eq (h : IsLong n) (hne : n ≠ -2147483648) : magnitude n = n.natAbs := by
  obtain ⟨h1, h2⟩ := h
  unfold magnitude
  split
  case isTrue hn =>
    rw [toLong_of_range ⟨by omega, by omega⟩]
    omega
  case isFalse hn => omega

theorem zero_notMem_decimal (n : Int) : 0 ∉ decimal n := by
  unfold decimal
  rw [List.mem_append, List.mem_map]
  rintro (h | ⟨d, hd, h⟩)
  · split at h
    · exact absurd h (by decide)
    · cases h
  · have := congrArg UInt8.toNat h
    rw [digitChar_toNat (mem_decimalDigits hd)] at this
    exact absurd this (by simp)

theorem digitRun_bounds (value : Int) : ∀ c ∈ digitRun value, 38 < c.toNat ∧ c.toNat < 58 := by
  induction value using digitRun.induct with
  | case1 value ih =>
    have h1 := Int.lt_tmod_of_pos value (b := 10) (by decide)
    have h2 := Int.tmod_lt_of_pos value (b := 10) (by decide)
    rw [digitRun]
    intro c hc
    cases hc with
    | head =>
      rw [digitByte_toNat h1 h2]
      omega
    | tail _ hc =>
      split at hc
      case isTrue h => exact ih h c hc
      case isFalse => cases hc

theorem zero_notMem_produced (n : Int) : 0 ∉ produced n := by
  unfold produced
  rw [List.mem_append, List.mem_reverse]
  rintro (h | h)
  · split at h
    · exact absurd h (by decide)
    · cases h
  · exact absurd (digitRun_bounds _ 0 h).1 (by decide)

/-- The string that is produced is the decimal representation exactly of the printable numbers. -/
theorem produced_eq_iff (h : IsLong n) : produced n = decimal n ↔ Printable n := by
  unfold produced decimal Printable
  rw [List.append_cancel_left_eq, List.reverse_eq_iff]
  by_cases hne : n = -2147483648
  · subst hne
    refine iff_of_false (fun heq => ?_) (fun hc => hc.1 rfl)
    have hfirst : digitByte (-8) ∈ digitRun (magnitude (-2147483648)) := by
      rw [digitRun]
      exact List.mem_cons_self
    rw [heq, List.mem_reverse, List.mem_map] at hfirst
    obtain ⟨d, hd, hchar⟩ := hfirst
    have := congrArg UInt8.toNat hchar
    rw [digitChar_toNat (mem_decimalDigits hd), digitByte_toNat (by decide) (by decide)] at this
    omega
  · rw [magnitude_eq h hne, digitRun_eq_iff]
    exact ⟨fun hd => ⟨hne, hd⟩, fun hd => hd.2⟩

/-! ## What `strtol` reads -/

theorem digitOf_digitChar {d : Nat} (hd : d < 10) : digitOf (digitChar d) = some (d : Int) := by
  have hc := digitChar_toNat hd
  have h1 : (48 : UInt8) ≤ digitChar d := by
    rw [UInt8.le_iff_toNat_le, hc]
    exact Nat.le_add_left 48 d
  have h2 : digitChar d ≤ 57 := by
    rw [UInt8.le_iff_toNat_le, hc]
    exact Nat.add_le_add_right (Nat.le_of_lt_succ hd) 48
  unfold digitOf
  rw [if_pos ⟨h1, h2⟩, hc]
  congr 1
  omega

/-- The loop computes the value of the digits as far as a `long` holds it. -/
theorem strtolDigits_digits {l : List Nat} (hl : ∀ d ∈ l, d < 10) (val : Int) :
    strtolDigits 10 (l.map digitChar) (toLong val) =
      (toLong (l.foldl (fun (a : Int) (d : Nat) => a * 10 + d) val), []) := by
  induction l generalizing val with
  | nil => rfl
  | cons d l ih =>
    have hd := hl d List.mem_cons_self
    have hstep : toLong (toLong (toLong val * 10) + d) = toLong (val * 10 + d) := by
      unfold toLong
      rw [Int.bmod_add_bmod, ← Int.bmod_add_bmod, Int.bmod_mul_bmod, Int.bmod_add_bmod]
    rw [List.map_cons, strtolDigits, digitOf_digitChar hd]
    dsimp only
    rw [if_neg (by omega), hstep, ih (fun c hc => hl c (.tail _ hc)), List.foldl_cons]

theorem foldr_digits (k : Nat) :
    (Nat.digits 10 k).foldr (fun (d : Nat) (a : Int) => a * 10 + d) 0 = k := by
  induction k using Nat.strong_induction_on with
  | _ k ih =>
    by_cases h : k = 0
    · subst h
      rfl
    · rw [Nat.digits_def' (by decide) (by omega), List.foldr_cons, ih (k / 10) (by omega)]
      omega

theorem foldl_decimalDigits (k : Nat) :
    (decimalDigits k).foldl (fun (a : Int) (d : Nat) => a * 10 + d) 0 = k := by
  rw [decimalDigits_eq, List.foldl_reverse, List.foldr_cons, foldr_digits]
  omega

theorem decimalDigits_ne_nil (k : Nat) : decimalDigits k ≠ [] := by
  rw [decimalDigits_eq]
  simp

/-- A digit is no white space and no sign. -/
theorem strtol_digit {c : UInt8} {cs : List UInt8} (h : 47 < c.toNat) (h' : c.toNat < 58) :
    strtol (c :: cs) 10 = ((strtolDigits 10 (c :: cs) 0).1, (strtolDigits 10 (c :: cs) 0).2) := by
  have hne : ∀ b : UInt8, b.toNat ≤ 47 → c ≠ b := by
    rintro b hb rfl
    omega
  have hspace : (c == 32 || c == 9) = false := by
    rw [Bool.or_eq_false_iff]
    exact ⟨beq_eq_false_iff_ne.2 (hne 32 (by decide)), beq_eq_false_iff_ne.2 (hne 9 (by decide))⟩
  have hsign : strtolSign (c :: cs) = (false, c :: cs) := by
    unfold strtolSign
    split
    · rename_i heq
      exact absurd (List.cons.inj heq).1 (hne 43 (by decide))
    · rename_i heq
      exact absurd (List.cons.inj heq).1 (hne 45 (by decide))
    · rfl
  rw [strtol, List.dropWhile_cons_of_neg (by simp [hspace]), hsign]
  rfl

/-- **`strtol` reads the decimal representation of a `long`.** -/
theorem strtol_decimal (h : IsLong n) : strtol (decimal n) 10 = (n, []) := by
  have hrange := h
  obtain ⟨h1, h2⟩ := h
  have hdigits := strtolDigits_digits (l := decimalDigits n.natAbs) (fun d => mem_decimalDigits) 0
  rw [foldl_decimalDigits] at hdigits
  change strtolDigits 10 _ 0 = _ at hdigits
  unfold decimal
  split
  case isTrue hn =>
    have hread : strtol ([45] ++ (decimalDigits n.natAbs).map digitChar) 10 =
        (toLong (-(strtolDigits 10 ((decimalDigits n.natAbs).map digitChar) 0).1),
          (strtolDigits 10 ((decimalDigits n.natAbs).map digitChar) 0).2) := rfl
    -- the smallest long has no positive counterpart, but its negation wraps back to it
    have hneg : toLong (-toLong (n.natAbs : Int)) = n := by
      have hsub : toLong (0 - toLong (n.natAbs : Int)) = toLong (0 - (n.natAbs : Int)) :=
        Int.sub_bmod_bmod
      rw [Int.zero_sub, Int.zero_sub, show -(n.natAbs : Int) = n by omega] at hsub
      rw [hsub, toLong_of_range hrange]
    rw [hread, hdigits, hneg]
  case isFalse hn =>
    cases hl : decimalDigits n.natAbs with
    | nil => exact absurd hl (decimalDigits_ne_nil _)
    | cons d l =>
      have hd : d < 10 := mem_decimalDigits (k := n.natAbs) (hl ▸ List.mem_cons_self)
      have hc := digitChar_toNat hd
      rw [List.nil_append, List.map_cons, strtol_digit (by omega) (by omega), ← List.map_cons, ← hl,
        hdigits, show (n.natAbs : Int) = n by omega, toLong_of_range hrange]

theorem decimal_inj {n' : Int} (h : IsLong n) (h' : IsLong n') (heq : decimal n = decimal n') :
    n = n' := by
  have hread := strtol_decimal h
  rw [heq, strtol_decimal h'] at hread
  exact (congrArg Prod.fst hread).symm

/-! ## The round trip -/

/-- The string at `str` is the decimal representation of `n`, and `strtol` of it is `n`. -/
structure RoundTrips (n : Int) (str : Nat) (m : Mem) : Prop where
  canonical : StringAt m str (decimal n)
  parsed : ∀ cs, 0 ∉ cs → StringAt m str cs → (strtol cs 10).1 = n

/-- **`ltostr` and `strtol` round-trip exactly on the printable numbers**, and two printable numbers
give two strings. -/
theorem ltostr_roundTrips_iff (h : IsLong n) (str : Nat) (m : Mem) :
    (RoundTrips n str (ltostr n str m) ↔ Printable n) ∧
    ∀ n', IsLong n' → Printable n → Printable n' →
      (∃ cs, 0 ∉ cs ∧ StringAt (ltostr n str m) str cs ∧ StringAt (ltostr n' str m) str cs) → n = n' := by
  have hstring : ∀ n cs, 0 ∉ cs → StringAt (ltostr n str m) str cs → cs = produced n :=
    fun n cs h0 hcs => hcs.unique (stringAt_ltostr n str m) h0 (zero_notMem_produced n)
  constructor
  · rw [← produced_eq_iff h]
    constructor
    · intro hr
      exact (hstring n _ (zero_notMem_decimal n) hr.canonical).symm
    · intro heq
      refine ⟨heq ▸ stringAt_ltostr n str m, fun cs h0 hcs => ?_⟩
      rw [hstring n cs h0 hcs, heq, strtol_decimal h]
  · rintro n' h' hp hp' ⟨cs, h0, hcs, hcs'⟩
    apply decimal_inj h h'
    rw [← (produced_eq_iff h).2 hp, ← (produced_eq_iff h').2 hp', ← hstring n cs h0 hcs,
      ← hstring n' cs h0 hcs']

/-- A number with a zero in the middle. -/
theorem ltostr_roundTrips_305 : (RoundTrips 305 0 (ltostr 305 0 fun _ => 0) ↔ Printable 305) ∧
    ∀ n', IsLong n' → Printable 305 → Printable n' →
      (∃ cs, 0 ∉ cs ∧ StringAt (ltostr 305 0 fun _ => 0) 0 cs ∧
        StringAt (ltostr n' 0 fun _ => 0) 0 cs) → 305 = n' :=
  ltostr_roundTrips_iff (by decide) 0 fun _ => 0

/-- 100 is printed as 0. -/
theorem ltostr_hundred : ¬ RoundTrips 100 0 (ltostr 100 0 fun _ => 0) := by
  intro h
  have hstring := h.canonical.unique (stringAt_ltostr 100 0 fun _ => 0) (zero_notMem_decimal 100)
    (zero_notMem_produced 100)
  have hp := (produced_eq_iff (by decide)).1 hstring.symm
  exact absurd hp (by simp [Printable])

end

end Fos
