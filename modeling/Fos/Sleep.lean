import Mathlib.Data.Nat.Find
import Mathlib.Tactic.Common

/-!
# Sleeping

`env_sleep` of `lib/concurrency.c`. It multiplies in 32 bits and keeps the low word of the elapsed
time, so the readings at which it returns are those where both are compared modulo 2^32.
-/

namespace Fos

/-- `struct uint64` -/
structure Uint64 where
  low : UInt32
  hi : UInt32

def Uint64.value (t : Uint64) : Nat := t.hi.toNat * 4294967296 + t.low.toNat

/-- `CYCLES_PER_MILLISEC` -/
abbrev cyclesPerMillisec : UInt32 := 10000

/-- The current time less the base time, as `env_sleep` computes it. -/
def timeSince (baseTime currentTime : Uint64) : Uint64 :=
  let low := (currentTime.low - baseTime.low) &&& 0xffffffff
  ⟨low, (currentTime.hi - baseTime.hi - (if currentTime.low < low then 1 else 0)) &&& 0xffffffff⟩

/-- The loop of `env_sleep` after reading `k`, with the value of `cycles_counter`. The result is the
number of the last reading. -/
def sleepLoop (clock : Nat → Uint64) (timeInCycles : UInt32) : Nat → Nat → UInt32 → Option Nat
  | 0, _, _ => none
  | n + 1, k, cyclesCounter =>
    if cyclesCounter < timeInCycles then
      sleepLoop clock timeInCycles n (k + 1) (timeSince (clock 0) (clock (k + 1))).low
    else some k

/-- `env_sleep`, where reading `k` of the clock gives `clock k`, for at most `n` rounds. -/
def envSleep (approxMilliSeconds : UInt32) (clock : Nat → Uint64) (n : Nat) : Option Nat :=
  sleepLoop clock (approxMilliSeconds * cyclesPerMillisec) n 0 0

/-- The call returns after reading `k`. -/
def ReturnsAt (approxMilliSeconds : UInt32) (clock : Nat → Uint64) (k : Nat) : Prop :=
  ∃ n, envSleep approxMilliSeconds clock n = some k

/-- The cycles between the first reading and reading `k`. -/
def elapsed (clock : Nat → Uint64) (k : Nat) : Nat := (clock k).value - (clock 0).value

/-- The cycles to sleep. -/
def cyclesOf (approxMilliSeconds : UInt32) : Nat := approxMilliSeconds.toNat * 10000

/-- `k` is the first reading with at least `n` cycles elapsed. -/
def FirstReading (clock : Nat → Uint64) (n k : Nat) : Prop :=
  n ≤ elapsed clock k ∧ ∀ j < k, elapsed clock j < n

/-- Until the cycles have elapsed, and at the reading where they have, comparing modulo 2^32 gives
the same. -/
def LowWordsAgree (approxMilliSeconds : UInt32) (clock : Nat → Uint64) : Prop :=
  ∀ k, (∀ j < k, elapsed clock j < cyclesOf approxMilliSeconds) →
    (elapsed clock k % 4294967296 < cyclesOf approxMilliSeconds % 4294967296 ↔
      elapsed clock k < cyclesOf approxMilliSeconds)

section

variable {clock : Nat → Uint64} {approxMilliSeconds w : UInt32} {i k n : Nat}

theorem clock_mono (hmono : ∀ k, (clock k).value ≤ (clock (k + 1)).value) (k : Nat) :
    (clock 0).value ≤ (clock k).value := by
  induction k with
  | zero => exact Nat.le_refl _
  | succ k ih => exact Nat.le_trans ih (hmono k)

/-- The low word is the elapsed time modulo 2^32. -/
theorem timeSince_low {base cur : Uint64} (h : base.value ≤ cur.value) :
    (timeSince base cur).low.toNat = (cur.value - base.value) % 4294967296 := by
  have hmask : (timeSince base cur).low = cur.low - base.low := by
    apply UInt32.toBitVec_inj.1
    exact BitVec.and_allOnes
  rw [hmask, UInt32.toNat_sub]
  unfold Uint64.value at *
  have hb := base.low.toNat_lt
  have hc := cur.low.toNat_lt
  omega

/-- The value of `cycles_counter` after reading `k`. -/
def counter (clock : Nat → Uint64) (k : Nat) : UInt32 :=
  if k = 0 then 0 else (timeSince (clock 0) (clock k)).low

theorem counter_toNat (hmono : ∀ k, (clock k).value ≤ (clock (k + 1)).value) (k : Nat) :
    (counter clock k).toNat = elapsed clock k % 4294967296 := by
  unfold counter elapsed
  split
  case isTrue h =>
    rw [h, Nat.sub_self]
    rfl
  case isFalse h => exact timeSince_low (clock_mono hmono k)

/-- The loop stops at the first reading whose counter is large enough. -/
theorem sleepLoop_eq_some :
    (∃ n, sleepLoop clock w n i (counter clock i) = some k) ↔
      i ≤ k ∧ ¬ counter clock k < w ∧ ∀ j, i ≤ j → j < k → counter clock j < w := by
  constructor
  · rintro ⟨n, h⟩
    -- induction on the fuel, from left to right
    induction n generalizing i with
    | zero => cases h
    | succ n ih =>
      rw [sleepLoop] at h
      split at h
      case isTrue hlt =>
        obtain ⟨hle, hstop, hbefore⟩ := ih h
        refine ⟨by omega, hstop, fun j h1 h2 => ?_⟩
        by_cases hj : j = i
        · rw [hj]
          exact hlt
        · exact hbefore j (by omega) h2
      case isFalse hge =>
        cases h
        exact ⟨Nat.le_refl _, hge, fun j h1 h2 => absurd h2 (by omega)⟩
  · rintro ⟨hle, hstop, hbefore⟩
    obtain ⟨d, rfl⟩ := Nat.exists_eq_add_of_le hle
    refine ⟨d + 1, ?_⟩
    clear hle
    -- the other way on the readings left to make
    induction d generalizing i with
    | zero =>
      rw [Nat.add_zero] at hstop
      rw [sleepLoop, if_neg hstop]
      rfl
    | succ d ih =>
      have hshift : i + (d + 1) = i + 1 + d := by omega
      rw [hshift] at hstop ⊢
      rw [sleepLoop, if_pos (hbefore i (Nat.le_refl i) (by omega))]
      exact ih hstop fun j h1 h2 => hbefore j (by omega) (by omega)

theorem cyclesOf_toNat : (approxMilliSeconds * cyclesPerMillisec).toNat =
    cyclesOf approxMilliSeconds % 4294967296 := by
  rw [UInt32.toNat_mul]
  rfl

theorem returnsAt_iff (hmono : ∀ k, (clock k).value ≤ (clock (k + 1)).value) :
    ReturnsAt approxMilliSeconds clock k ↔
      ¬ elapsed clock k % 4294967296 < cyclesOf approxMilliSeconds % 4294967296 ∧
      ∀ j < k, elapsed clock j % 4294967296 < cyclesOf approxMilliSeconds % 4294967296 := by
  have hiff : ∀ j, counter clock j < approxMilliSeconds * cyclesPerMillisec ↔
      elapsed clock j % 4294967296 < cyclesOf approxMilliSeconds % 4294967296 := by
    intro j
    rw [UInt32.lt_iff_toNat_lt, counter_toNat hmono, cyclesOf_toNat]
  have hloop : ReturnsAt approxMilliSeconds clock k ↔ _ :=
    sleepLoop_eq_some
  simp only [hiff, Nat.zero_le, true_and, forall_const] at hloop
  exact hloop

/-- **When `env_sleep` sleeps exactly as long as asked.** -/
theorem envSleep_exact_iff (hmono : ∀ k, (clock k).value ≤ (clock (k + 1)).value) :
    (∀ k, ReturnsAt approxMilliSeconds clock k ↔
      FirstReading clock (cyclesOf approxMilliSeconds) k) ↔
    LowWordsAgree approxMilliSeconds clock := by
  set T := cyclesOf approxMilliSeconds with hT
  constructor
  · intro h k hbefore
    -- the loop is still running before reading `k`
    have hrun : ∀ j < k, elapsed clock j % 4294967296 < T % 4294967296 := by
      intro j hj
      induction j using Nat.strong_induction_on with
      | _ j ih =>
        by_contra hge
        have hret := (returnsAt_iff hmono).2 ⟨hge, fun i hi => ih i hi (by omega)⟩
        have := ((h j).1 hret).1
        have := hbefore j hj
        omega
    constructor
    · intro hlt
      by_contra hge
      have hret := (h k).2 ⟨Nat.not_lt.1 hge, hbefore⟩
      exact ((returnsAt_iff hmono).1 hret).1 hlt
    · intro hlt
      by_contra hge
      have hret := (h k).1 ((returnsAt_iff hmono).2 ⟨hge, hrun⟩)
      have := hret.1
      omega
  · intro hagree k
    rw [returnsAt_iff hmono]
    constructor
    · rintro ⟨hstop, hrun⟩
      have hbefore : ∀ j < k, elapsed clock j < T := by
        intro j hj
        induction j using Nat.strong_induction_on with
        | _ j ih => exact (hagree j fun i hi => ih i hi (by omega)).1 (hrun j hj)
      exact ⟨Nat.not_lt.1 fun hlt => hstop ((hagree k hbefore).2 hlt), hbefore⟩
    · rintro ⟨hreach, hbefore⟩
      refine ⟨fun hlt => ?_, fun j hj => ?_⟩
      · exact absurd ((hagree k hbefore).1 hlt) (Nat.not_lt.2 hreach)
      · exact (hagree j fun i hi => hbefore i (by omega)).2 (hbefore j hj)

/-- Short sleeps without a long gap between readings are exact. -/
theorem lowWordsAgree_of_lt (hlt : cyclesOf approxMilliSeconds < 4294967296)
    (hgap : ∀ k, (∀ j < k, elapsed clock j < cyclesOf approxMilliSeconds) →
      elapsed clock k < 4294967296) : LowWordsAgree approxMilliSeconds clock := by
  intro k hbefore
  rw [Nat.mod_eq_of_lt hlt, Nat.mod_eq_of_lt (hgap k hbefore)]

/-- A tenth of a second, on a clock that stands still after the second reading. -/
theorem envSleep_exact_hundred :
    (∀ k, ReturnsAt 100 (fun k => if k = 0 then ⟨0, 0⟩ else ⟨2000000, 0⟩) k ↔
      FirstReading (fun k => if k = 0 then ⟨0, 0⟩ else ⟨2000000, 0⟩) (cyclesOf 100) k) ↔
    LowWordsAgree 100 fun k => if k = 0 then ⟨0, 0⟩ else ⟨2000000, 0⟩ := by
  apply envSleep_exact_iff
  intro k
  rw [if_neg (Nat.succ_ne_zero k)]
  split <;> decide

/-- Asked for 429497 milliseconds, the call returns after 3000 cycles. -/
theorem envSleep_wraps : ¬ ∀ (approxMilliSeconds : UInt32) (clock : Nat → Uint64),
    (∀ k, (clock k).value ≤ (clock (k + 1)).value) → ∀ k, ReturnsAt approxMilliSeconds clock k →
    FirstReading clock (cyclesOf approxMilliSeconds) k := by
  intro hall
  have hmono : ∀ k, (if k = 0 then ⟨0, 0⟩ else ⟨3000, 0⟩ : Uint64).value ≤
      (if k + 1 = 0 then ⟨0, 0⟩ else ⟨3000, 0⟩ : Uint64).value := by
    intro k
    rw [if_neg (Nat.succ_ne_zero k)]
    split <;> decide
  have hfirst := hall 429497 (fun k => if k = 0 then ⟨0, 0⟩ else ⟨3000, 0⟩) hmono 1 ⟨2, by decide⟩
  exact absurd hfirst.1 (by decide)

end

end Fos
