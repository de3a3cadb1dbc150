import Fos.ObjectTable.Semaphores
import Fos.ObjectTable.Shares

/-!
# Exact named lookup

In both tables, in every state of every run from the new array. The names a creation is given have
to fit in the entry.
-/

namespace Fos

open Relation (ReflTransGen)
open Bytes (CString)

namespace ObjectTable

/-- In a table that a run of fitting creations and of other calls reaches from a new array of `max`
entries, the lookup by owner and name is exact. -/
def NamedLookup (shareFits semaphoreFits : ObjectTable → UInt32 → CString → Prop) (max : Nat)
    (rest : Bytes.Mem) (t : ObjectTable) (live : Live) : Prop :=
  (ReflTransGen (ShareStep shareFits) (created shareLayout max rest, fun _ => none) (t, live) →
    NamedShares shareFits t live) ∧
  (ReflTransGen (SemaphoreStep semaphoreFits) (created semaphoreLayout max rest, fun _ => none)
    (t, live) → NamedSemaphores semaphoreFits t live)

/-- **Named lookup is exact** as long as the names of shared objects have at most 64 bytes, those of
semaphores at most 63, and no new object is created in a full table. -/
theorem namedLookup (max : Nat) (rest : Bytes.Mem) (t : ObjectTable) (live : Live) :
    NamedLookup ShareFits SemaphoreFits max rest t live := by
  constructor
  · intro hrun
    have h := Prog.invariant (I := fun x => Holds shareLayout 64 x.1 x.2)
      (holds_created shareLayout 64 max rest (by decide)) (fun _ _ => shareStep_holds) hrun
    exact h.namedShares
  · intro hrun
    have h := Prog.invariant (I := fun x => Holds semaphoreLayout 63 x.1 x.2)
      (holds_created semaphoreLayout 63 max rest (by decide)) (fun _ _ => semaphoreStep_holds) hrun
    exact h.namedSemaphores

/-- A name of `n` letters. -/
def letters (n : Nat) : CString :=
  ⟨List.replicate n 97, fun h => absurd (List.eq_of_mem_replicate h) (by decide)⟩

/-- A new array of two shared objects, and the state after one creation in it. -/
def twoShares : ObjectTable := created shareLayout 2 fun _ => 0

def afterCreate (n : Nat) : ObjectTable :=
  Prog.final (createSharedObject 0xF6004000 7 (letters n) 4096 1 twoShares)

theorem afterCreate_ok (n : Nat)
    (h : Prog.value (createSharedObject 0xF6004000 7 (letters n) 4096 1 twoShares) = some 0) :
    createSharedObject 0xF6004000 7 (letters n) 4096 1 twoShares = .ok 0 (afterCreate n) :=
  Prog.ok_of_value h

/-- A semaphore of two is created -/
def semaphoreCreated : ObjectTable :=
  Prog.final (createSemaphore 7 (letters 63) 1 (created semaphoreLayout 2 fun _ => 0))

/-- and waited for. -/
def semaphoreWaited : ObjectTable := Prog.final (waitSemaphore 7 (letters 63) none semaphoreCreated)

/-- A shared object with a name of 64 bytes is found, and so is a semaphore with one of 63. -/
theorem namedLookup_longest :
    getShareObjectID 7 (letters 64) (afterCreate 64) = .ok 0 (afterCreate 64) ∧
      getSemaphoreObjectID 7 (letters 63) semaphoreWaited = .ok 0 semaphoreWaited := by
  constructor
  · have hstep := @ShareStep.create ShareFits _ _ (fun _ => none) _ _ _ _ _ _
      ⟨by decide +kernel, .inr (by decide +kernel)⟩ (afterCreate_ok 64 (by decide +kernel))
    exact ((namedLookup 2 _ _ _).1 (.single hstep)).lookup.found 0 7 (letters 64) rfl
  · have hcreate : createSemaphore 7 (letters 63) 1 (created semaphoreLayout 2 fun _ => 0) =
        .ok 0 semaphoreCreated := Prog.ok_of_value (by decide +kernel)
    have hwait : waitSemaphore 7 (letters 63) none semaphoreCreated = .ok () semaphoreWaited :=
      Prog.ok_of_value (by decide +kernel)
    have hstep := @SemaphoreStep.create SemaphoreFits _ _ (fun _ => none) _ _ _ _
      ⟨by decide +kernel, .inr (by decide +kernel)⟩ hcreate
    exact ((namedLookup 2 _ _ _).2 (.tail (.single hstep) (.wait hwait))).lookup.found 0 7
      (letters 63) rfl

/-- One with a name of 65 bytes is not: the last byte is overwritten by `size`. -/
theorem namedLookup_long : ¬ ∀ max rest t live,
    NamedLookup (fun _ _ _ => True) (fun _ _ _ => True) max rest t live := by
  intro hall
  have hstep := @ShareStep.create (fun _ _ _ => True) _ _ (fun _ => none) _ _ _ _ _ _ trivial
    (afterCreate_ok 65 (by decide +kernel))
  have hfound := ((hall 2 _ _ _).1 (.single hstep)).lookup.found 0 7 (letters 65) rfl
  have hnone : Prog.value (getShareObjectID 7 (letters 65) (afterCreate 65)) ≠ some 0 := by
    decide +kernel
  rw [hfound] at hnone
  exact hnone rfl

end ObjectTable

end Fos
