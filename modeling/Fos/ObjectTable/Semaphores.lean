import Fos.ObjectTable.Names

/-!
# The table of semaphores

The calls on the table with the entries in use carried along. Behind the name lies the queue, which
`waitSemaphore` and `signalSemaphore` write, so the terminating zero has to fit in the field of the
name: `SemaphoreFits`.
-/

namespace Fos

open Function (update)
open Prog (bind_eq_ok bind_of_ok ok_inj)
open Bytes (Mem CString StringAt load32 store8 store32 clear strcpy store8_of_ne store8_self
  store32_of_ne strcpy_of_ne load32_store32 load32_store32_of_ne load32_store8_of_ne stringAt_strcpy
  clear_of_ne)

namespace ObjectTable

/-! ## The writes of a creation -/

/-- The writes of `createSemaphore` to the entry at `e`. -/
def enterSemaphore (m : Mem) (e : Nat) (ownerEnvID : UInt32) (semaphoreName : CString)
    (initialValue : UInt32) : Mem :=
  let m := store8 m (e + 88) 0
  let m := store8 m (e + 88) 0
  let m := strcpy m (e + 4) semaphoreName.1
  let m := store32 m (e + 84) initialValue.toNat
  store32 m e ownerEnvID.toNat

/-- The entry at `e` has the values of a creation, and its queue is as it was. -/
structure SemaphoreFields (m₀ m : Mem) (e : Nat) (ownerEnvID : UInt32) (semaphoreName : CString)
    (initialValue : UInt32) : Prop where
  ownerID : load32 m e = ownerEnvID.toNat
  name : StringAt m (e + 4) semaphoreName.1
  envQueue : ∀ off, 68 ≤ off → off < 84 → m (e + off) = m₀ (e + off)
  value : load32 m (e + 84) = initialValue.toNat
  empty : m (e + 88) = 0

section

variable {m : Mem} {e i x : Nat} {ownerEnvID : UInt32} {semaphoreName : CString}
  {initialValue : UInt32} {t t' : ObjectTable} {live : Live} {id : Int}

theorem enterSemaphore_of_ne (hlen : semaphoreName.1.length ≤ 63) (hx : x < e ∨ e + 92 ≤ x) :
    enterSemaphore m e ownerEnvID semaphoreName initialValue x = m x := by
  unfold enterSemaphore
  rw [store32_of_ne (by omega), store32_of_ne (by omega), strcpy_of_ne (by omega),
    store8_of_ne (by omega), store8_of_ne (by omega)]

theorem enterSemaphore_fields (hlen : semaphoreName.1.length ≤ 63) :
    SemaphoreFields m (enterSemaphore m e ownerEnvID semaphoreName initialValue) e ownerEnvID
      semaphoreName initialValue where
  ownerID := load32_store32 ownerEnvID.toNat_lt
  name := by
    unfold enterSemaphore
    apply stringAt_strcpy.congr
    intro k hk
    rw [store32_of_ne (by omega), store32_of_ne (by omega)]
  envQueue := by
    intro off h68 h84
    unfold enterSemaphore
    rw [store32_of_ne (by omega), store32_of_ne (by omega), strcpy_of_ne (by omega),
      store8_of_ne (by omega), store8_of_ne (by omega)]
  value := by
    unfold enterSemaphore
    rw [load32_store32_of_ne (by omega), load32_store32 initialValue.toNat_lt]
  empty := by
    unfold enterSemaphore
    rw [store32_of_ne (by omega), store32_of_ne (by omega), strcpy_of_ne (by omega), store8_self]

/-- The entry is in use under the owner and the name of its creation. -/
theorem SemaphoreFields.inUse {m₀ : Mem}
    (h : SemaphoreFields m₀ m e ownerEnvID semaphoreName initialValue) :
    InUse semaphoreLayout m e (ownerEnvID, semaphoreName) :=
  ⟨h.empty, h.ownerID, h.name⟩

/-! ## Creation -/

/-- A creation under a live owner and name is refused. -/
theorem createSemaphore_live (h : Holds semaphoreLayout 63 t live)
    (hlive : KeyTable.lookup t.max live (ownerEnvID, semaphoreName) = some i) :
    createSemaphore ownerEnvID semaphoreName initialValue t = .ok eSemaphoreExists t := by
  unfold createSemaphore
  rw [Prog.get_bind_apply, Prog.ite_run, if_neg (by simp [h.table]), Prog.ite_run, h.find_eq, hlive]
  rfl

/-- A creation under a new owner and name takes the first empty entry. -/
theorem createSemaphore_new (h : Holds semaphoreLayout 63 t live)
    (hnew : KeyTable.lookup t.max live (ownerEnvID, semaphoreName) = none)
    (hvac : KeyTable.vacant t.max live = some i) :
    createSemaphore ownerEnvID semaphoreName initialValue t =
      .ok i { t with
        bytes := enterSemaphore t.bytes (i * 92) ownerEnvID semaphoreName initialValue } := by
  have hne : (i : Int) ≠ eNoSemaphore := by
    unfold eNoSemaphore
    omega
  have halloc : allocateSemaphoreObject t = .ok i { t with
      bytes := store8 t.bytes (i * 92 + 88) 0 } := by
    unfold allocateSemaphoreObject allocateObject
    rw [Prog.get_bind_apply, Prog.ite_run, if_neg (by simp [h.table]), h.vacant_eq, hvac]
    rfl
  unfold createSemaphore
  rw [Prog.get_bind_apply, Prog.ite_run, if_neg (by simp [h.table]), Prog.ite_run, h.find_eq, hnew,
    if_neg (by decide), bind_of_ok halloc, if_pos hne]
  rfl

/-- What a creation may be given: a name that fits in its field with the terminating zero, and an
owner and name that are refused or an empty entry for them. -/
def SemaphoreFits (t : ObjectTable) (ownerEnvID : UInt32) (semaphoreName : CString) : Prop :=
  semaphoreName.1.length ≤ 63 ∧
    (t.find semaphoreLayout ownerEnvID semaphoreName ≠ none ∨ t.vacant semaphoreLayout ≠ none)

/-- A creation that fits is refused with the table as it was, or takes an empty entry. -/
theorem createSemaphore_cases (h : Holds semaphoreLayout 63 t live)
    (hfits : SemaphoreFits t ownerEnvID semaphoreName)
    (hret : createSemaphore ownerEnvID semaphoreName initialValue t = .ok id t') :
    (id = eSemaphoreExists ∧ t' = t) ∨
      ∃ i : Nat, id = i ∧ i < t.max ∧
        KeyTable.lookup t.max live (ownerEnvID, semaphoreName) = none ∧
        t' = { t with
          bytes := enterSemaphore t.bytes (i * 92) ownerEnvID semaphoreName initialValue } := by
  obtain ⟨-, hroom⟩ := hfits
  rw [h.find_eq, h.vacant_eq] at hroom
  cases hlook : KeyTable.lookup t.max live (ownerEnvID, semaphoreName) with
  | some j =>
    rw [createSemaphore_live h hlook] at hret
    obtain ⟨rfl, rfl⟩ := ok_inj.1 hret
    exact .inl ⟨rfl, rfl⟩
  | none =>
    obtain ⟨j, hvac⟩ := Option.ne_none_iff_exists'.1 (hroom.resolve_left fun hne => hne hlook)
    rw [createSemaphore_new h hlook hvac] at hret
    obtain ⟨rfl, rfl⟩ := ok_inj.1 hret
    exact .inr ⟨j, rfl, (KeyTable.vacant_eq_some.1 hvac).1, rfl, rfl⟩

theorem createSemaphore_holds (h : Holds semaphoreLayout 63 t live)
    (hfits : SemaphoreFits t ownerEnvID semaphoreName)
    (hret : createSemaphore ownerEnvID semaphoreName initialValue t = .ok id t') :
    Holds semaphoreLayout 63 t'
      (if 0 ≤ id then update live id.toNat (some (ownerEnvID, semaphoreName)) else live) := by
  rcases createSemaphore_cases h hfits hret with ⟨rfl, rfl⟩ | ⟨i, rfl, hi, hnew, rfl⟩
  · rw [if_neg (by decide)]
    exact h
  · rw [if_pos (Int.natCast_nonneg i)]
    refine h.enter (by rfl) (by rfl) (by decide) hi hnew hfits.1 ?_ ?_
    · intro j hj off hoff
      replace hoff : off < 92 := hoff
      replace hj : j ≠ i := hj
      show enterSemaphore t.bytes (i * 92) ownerEnvID semaphoreName initialValue (j * 92 + off) =
        t.bytes (j * 92 + off)
      exact enterSemaphore_of_ne hfits.1 (by omega)
    · exact (enterSemaphore_fields hfits.1).inUse

/-! ## The other calls -/

/-- The queue and the value of an entry lie behind its name and before `empty`. -/
theorem Holds.setWord (h : Holds semaphoreLayout 63 t live) (off : Nat) (h68 : 68 ≤ off)
    (h84 : off ≤ 84) (w : Nat) :
    Holds semaphoreLayout 63 { t with bytes := store32 t.bytes (i * 92 + off) w } live := by
  refine h.keep (by rfl) (by rfl) ?_ ?_
  · intro j _
    show store32 t.bytes (i * 92 + off) w (j * 92 + 88) = t.bytes (j * 92 + 88)
    exact store32_of_ne (by omega)
  · intro j _ o ho
    show store32 t.bytes (i * 92 + off) w (j * 92 + o) = t.bytes (j * 92 + o)
    exact store32_of_ne (by omega)

theorem changeSemaphore_holds {change : Int} {queue : Option QueueWords}
    (h : Holds semaphoreLayout 63 t live)
    (hret : changeSemaphore change ownerEnvID semaphoreName queue t = .ok () t') :
    Holds semaphoreLayout 63 t' live := by
  unfold changeSemaphore at hret
  rw [Prog.get_bind_apply, Prog.ite_run, if_neg (by simp [h.table])] at hret
  cases hfind : t.findSemaphore ownerEnvID semaphoreName with
  | none =>
    rw [hfind] at hret
    obtain ⟨-, rfl⟩ := ok_inj.1 hret
    exact h
  | some i =>
    rw [hfind] at hret
    -- the value and the queue lie behind the name
    have hvalue := h.setWord (i := i) 84 (by omega) (by omega)
      ((load32 t.bytes (i * 92 + 84) + change) % 4294967296).toNat
    cases queue with
    | none =>
      obtain ⟨-, rfl⟩ := ok_inj.1 hret
      exact hvalue
    | some q =>
      obtain ⟨-, rfl⟩ := ok_inj.1 hret
      have h1 := hvalue.setWord (i := i) 68 (by omega) (by omega) q.first.toNat
      have h2 := h1.setWord (i := i) 72 (by omega) (by omega) q.last.toNat
      have h3 := h2.setWord (i := i) 76 (by omega) (by omega) q.ptrNext.toNat
      exact h3.setWord (i := i) 80 (by omega) (by omega) q.size.toNat

theorem freeSemaphoreObject_holds (h : Holds semaphoreLayout 63 t live)
    (hret : freeSemaphoreObject i t = .ok id t') :
    Holds semaphoreLayout 63 t' (update live i none) := by
  unfold freeSemaphoreObject freeObject at hret
  rw [Prog.get_bind_apply, Prog.ite_run] at hret
  split at hret
  case isTrue hout =>
    obtain ⟨-, rfl⟩ := ok_inj.1 hret
    -- an index out of the table: nothing is freed
    have hnone : live i = none := by
      by_contra hne
      have := h.inside i hne
      omega
    rw [update_none_eq hnone]
    exact h
  case isFalse hin =>
    obtain ⟨-, rfl⟩ := ok_inj.1 hret
    refine h.erase (by rfl) (by rfl) (by decide) ?_ ?_
    · intro j hj off hoff
      replace hoff : off < 92 := hoff
      show store8 (clear t.bytes (i * 92) 92) (i * 92 + 88) 1 (j * 92 + off) = _
      rw [store8_of_ne (by omega), clear_of_ne (by omega)]
    · show store8 (clear t.bytes (i * 92) 92) (i * 92 + 88) 1 (i * 92 + 88) ≠ 0
      rw [store8_self]
      decide

end

/-! ## Runs -/

/-- A call on the table of semaphores, with the entries in use. -/
inductive SemaphoreStep (fits : ObjectTable → UInt32 → CString → Prop) :
    ObjectTable × Live → ObjectTable × Live → Prop
  | create {t t' : ObjectTable} {live : Live} {ownerEnvID : UInt32} {semaphoreName : CString}
      {initialValue : UInt32} {id : Int} (hfits : fits t ownerEnvID semaphoreName)
      (hret : createSemaphore ownerEnvID semaphoreName initialValue t = .ok id t') :
      SemaphoreStep fits (t, live)
        (t', if 0 ≤ id then update live id.toNat (some (ownerEnvID, semaphoreName)) else live)
  | wait {t t' : ObjectTable} {live : Live} {ownerEnvID : UInt32} {semaphoreName : CString}
      {queue : Option QueueWords} (hret : waitSemaphore ownerEnvID semaphoreName queue t = .ok () t') :
      SemaphoreStep fits (t, live) (t', live)
  | signal {t t' : ObjectTable} {live : Live} {ownerEnvID : UInt32} {semaphoreName : CString}
      {queue : Option QueueWords}
      (hret : signalSemaphore ownerEnvID semaphoreName queue t = .ok () t') :
      SemaphoreStep fits (t, live) (t', live)
  | free {t t' : ObjectTable} {live : Live} {i : Nat} {ret : Int}
      (hret : freeSemaphoreObject i t = .ok ret t') :
      SemaphoreStep fits (t, live) (t', update live i none)

theorem semaphoreStep_holds {x y : ObjectTable × Live} (h : Holds semaphoreLayout 63 x.1 x.2)
    (hstep : SemaphoreStep SemaphoreFits x y) : Holds semaphoreLayout 63 y.1 y.2 := by
  cases hstep with
  | create hfits hret => exact createSemaphore_holds h hfits hret
  | wait hret => exact changeSemaphore_holds h hret
  | signal hret => exact changeSemaphore_holds h hret
  | free hret => exact freeSemaphoreObject_holds h hret

/-! ## Exact lookup -/

/-- Named lookup is exact in a table of semaphores, and a creation that fits is exact too. -/
structure NamedSemaphores (fits : ObjectTable → UInt32 → CString → Prop) (t : ObjectTable)
    (live : Live) : Prop where
  lookup : Named semaphoreLayout getSemaphoreObjectID t live
  refused : ∀ i ownerEnvID semaphoreName initialValue, live i = some (ownerEnvID, semaphoreName) →
    createSemaphore ownerEnvID semaphoreName initialValue t = .ok eSemaphoreExists t
  created : ∀ ownerEnvID semaphoreName initialValue id t', fits t ownerEnvID semaphoreName →
    createSemaphore ownerEnvID semaphoreName initialValue t = .ok id t' → 0 ≤ id →
      OnlyEntry semaphoreLayout id.toNat t t' ∧
        SemaphoreFields t.bytes t'.bytes (id.toNat * 92) ownerEnvID semaphoreName initialValue

theorem Holds.namedSemaphores {t : ObjectTable} {live : Live}
    (h : Holds semaphoreLayout 63 t live) : NamedSemaphores SemaphoreFits t live := by
  refine ⟨h.named eSemaphoreNotExists, ?_, ?_⟩
  · intro i ownerEnvID semaphoreName initialValue hlive
    exact createSemaphore_live h (h.lookup hlive)
  · intro ownerEnvID semaphoreName initialValue id t' hfits hret hid
    rcases createSemaphore_cases h hfits hret with ⟨rfl, rfl⟩ | ⟨i, rfl, hi, -, rfl⟩
    · exact absurd hid (by decide)
    · refine ⟨⟨rfl, rfl, hi, ?_⟩, enterSemaphore_fields hfits.1⟩
      intro x hx
      exact enterSemaphore_of_ne hfits.1 hx

end ObjectTable

end Fos
