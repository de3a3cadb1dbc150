import Fos.ObjectTable.Names

/-!
# The table of shared objects

The calls on the table with the entries in use carried along. `ShareFits` says what a creation may
be given: a name that ends no later than the low byte of `size`, and a table that is not full.
-/

namespace Fos

open Function (update)
open Relation (ReflTransGen)
open Prog (bind_eq_ok bind_of_ok ok_inj)
open Bytes (Mem CString StringAt load32 store8 store32 clear strcpy strcmp store8_of_ne store8_self
  store32_of_ne store32_first strcpy_of_ne load32_store32 load32_store32_of_ne load32_store8_of_ne
  load32_strcpy_of_ne stringAt_strcpy clear_of_ne)

namespace ObjectTable

/-! ## The writes of a creation -/

/-- The writes of `createSharedObject` to the entry at `e`. -/
def enterShare (m : Mem) (e : Nat) (framesStorage ownerID : UInt32) (shareName : CString)
    (size : Nat) (isWritable : UInt8) : Mem :=
  let m := store8 m (e + 77) 0
  let m := store32 m (e + 80) framesStorage.toNat
  let m := strcpy m (e + 4) shareName.1
  let m := store32 m e ownerID.toNat
  let m := store32 m (e + 68) (roundup size pageSize)
  let m := store8 m (e + 76) isWritable
  store32 m (e + 72) 1

/-- The entry at `e` has the values of a creation. -/
structure ShareFields (m : Mem) (e : Nat) (framesStorage ownerID : UInt32) (shareName : CString)
    (size : Nat) (isWritable : UInt8) : Prop where
  ownerID : load32 m e = ownerID.toNat
  name : StringAt m (e + 4) shareName.1
  size : load32 m (e + 68) = roundup size pageSize
  references : load32 m (e + 72) = 1
  isWritable : m (e + 76) = isWritable
  empty : m (e + 77) = 0
  framesStorage : load32 m (e + 80) = framesStorage.toNat

section

variable {m : Mem} {e i x : Nat} {framesStorage ownerID : UInt32} {shareName : CString} {size : Nat}
  {isWritable : UInt8} {t t' : ObjectTable} {live live' : Live} {id : Int}

/-- A name of 64 bytes or fewer stays inside the entry. -/
theorem enterShare_of_ne (hlen : shareName.1.length ≤ 64) (hx : x < e ∨ e + 84 ≤ x) :
    enterShare m e framesStorage ownerID shareName size isWritable x = m x := by
  unfold enterShare
  rw [store32_of_ne (by omega), store8_of_ne (by omega), store32_of_ne (by omega),
    store32_of_ne (by omega), strcpy_of_ne (by omega), store32_of_ne (by omega),
    store8_of_ne (by omega)]

/-- The terminating zero of a name of 64 bytes is the low byte of `size`, which is a multiple of the
page size. -/
theorem enterShare_name (hlen : shareName.1.length ≤ 64) :
    StringAt (enterShare m e framesStorage ownerID shareName size isWritable) (e + 4)
      shareName.1 := by
  unfold enterShare
  apply stringAt_strcpy.congr
  intro k hk
  by_cases h64 : k < 64
  · rw [store32_of_ne (by omega), store8_of_ne (by omega), store32_of_ne (by omega),
      store32_of_ne (by omega)]
  · have hk : k = shareName.1.length := by omega
    have hzero : UInt8.ofNat (roundup size pageSize) = 0 := by
      apply UInt8.toNat_inj.1
      have := roundup_mod size
      unfold pageSize at this
      simp only [UInt8.toNat_ofNat', UInt8.toNat_zero, pageSize]
      omega
    rw [store32_of_ne (by omega), store8_of_ne (by omega), show e + 4 + k = e + 68 by omega,
      store32_first, hzero, show e + 68 = e + 4 + shareName.1.length by omega]
    exact stringAt_strcpy.2.symm

theorem enterShare_fields (hlen : shareName.1.length ≤ 64) :
    ShareFields (enterShare m e framesStorage ownerID shareName size isWritable) e framesStorage
      ownerID shareName size isWritable where
  -- each load skips the stores that follow its own
  ownerID := by
    unfold enterShare
    rw [load32_store32_of_ne (by omega), load32_store8_of_ne (by omega),
      load32_store32_of_ne (by omega), load32_store32 ownerID.toNat_lt]
  name := enterShare_name hlen
  size := by
    unfold enterShare
    rw [load32_store32_of_ne (by omega), load32_store8_of_ne (by omega),
      load32_store32 (roundup_lt size)]
  references := load32_store32 (by decide)
  isWritable := by
    unfold enterShare
    rw [store32_of_ne (by omega), store8_self]
  empty := by
    unfold enterShare
    rw [store32_of_ne (by omega), store8_of_ne (by omega), store32_of_ne (by omega),
      store32_of_ne (by omega), strcpy_of_ne (by omega), store32_of_ne (by omega), store8_self]
  framesStorage := by
    unfold enterShare
    rw [load32_store32_of_ne (by omega), load32_store8_of_ne (by omega),
      load32_store32_of_ne (by omega), load32_store32_of_ne (by omega),
      load32_strcpy_of_ne (by omega), load32_store32 framesStorage.toNat_lt]

/-- The entry is in use under the owner and the name of its creation. -/
theorem ShareFields.inUse (h : ShareFields m e framesStorage ownerID shareName size isWritable) :
    InUse shareLayout m e (ownerID, shareName) :=
  ⟨h.empty, h.ownerID, h.name⟩

/-! ## Creation -/

/-- A creation under a live owner and name is refused. -/
theorem createSharedObject_live (h : Holds shareLayout 64 t live)
    (hlive : KeyTable.lookup t.max live (ownerID, shareName) = some i) :
    createSharedObject framesStorage ownerID shareName size isWritable t =
      .ok eSharedMemExists t := by
  have hid : getShareObjectID ownerID shareName t = .ok (i : Int) t := by
    unfold getShareObjectID
    rw [h.getObjectID, hlive]
  unfold createSharedObject
  rw [bind_of_ok hid, if_pos (Int.natCast_nonneg i)]
  rfl

/-- A creation under a new owner and name takes the first empty entry. -/
theorem createSharedObject_new (h : Holds shareLayout 64 t live)
    (hnew : KeyTable.lookup t.max live (ownerID, shareName) = none)
    (hvac : KeyTable.vacant t.max live = some i) :
    createSharedObject framesStorage ownerID shareName size isWritable t =
      .ok i { t with
        bytes := enterShare t.bytes (i * 84) framesStorage ownerID shareName size isWritable } := by
  -- the name is not in the table, so no object is found
  have hid : getShareObjectID ownerID shareName t = .ok eSharedMemNotExists t := by
    unfold getShareObjectID
    rw [h.getObjectID, hnew]
  have hne : (i : Int) ≠ eNoShare := by
    unfold eNoShare
    omega
  have halloc : allocateShareObject framesStorage t = .ok i { t with
      bytes := store32 (store8 t.bytes (i * 84 + 77) 0) (i * 84 + 80) framesStorage.toNat } := by
    have hobj : allocateObject shareLayout eNoShare t = .ok i { t with
        bytes := store8 t.bytes (i * 84 + 77) 0 } := by
      unfold allocateObject
      rw [Prog.get_bind_apply, Prog.ite_run, if_neg (by simp [h.table]), h.vacant_eq, hvac]
      rfl
    unfold allocateShareObject
    rw [bind_of_ok hobj, if_neg hne]
    rfl
  unfold createSharedObject
  rw [bind_of_ok hid, if_neg (by decide), bind_of_ok halloc, if_neg hne]
  rfl

/-- The references of an entry lie behind its name and before `isWritable`. -/
theorem Holds.setReferences (h : Holds shareLayout 64 t live) (w : Nat) :
    Holds shareLayout 64 { t with bytes := store32 t.bytes (i * 84 + 72) w } live := by
  refine h.keep (by rfl) (by rfl) ?_ ?_
  · intro j _
    show store32 t.bytes (i * 84 + 72) w (j * 84 + 77) = t.bytes (j * 84 + 77)
    exact store32_of_ne (by omega)
  · intro j _ off hoff
    show store32 t.bytes (i * 84 + 72) w (j * 84 + off) = t.bytes (j * 84 + off)
    exact store32_of_ne (by omega)

theorem Holds.clearShare (h : Holds shareLayout 64 t live) :
    Holds shareLayout 64 { t with
      bytes := store8 (clear t.bytes (i * 84) 84) (i * 84 + 77) 1 } (update live i none) := by
  refine h.erase (by rfl) (by rfl) (by decide) ?_ ?_
  · intro j hj off hoff
    replace hoff : off < 84 := hoff
    show store8 (clear t.bytes (i * 84) 84) (i * 84 + 77) 1 (j * 84 + off) = _
    rw [store8_of_ne (by omega), clear_of_ne (by omega)]
  · show store8 (clear t.bytes (i * 84) 84) (i * 84 + 77) 1 (i * 84 + 77) ≠ 0
    rw [store8_self]
    decide

/-- What a creation may be given: a name of at most 64 bytes, and an owner and name that are refused
or an empty entry for them. -/
def ShareFits (t : ObjectTable) (ownerID : UInt32) (shareName : CString) : Prop :=
  shareName.1.length ≤ 64 ∧
    (t.find shareLayout ownerID shareName ≠ none ∨ t.vacant shareLayout ≠ none)

/-- A creation that fits is refused with the table as it was, or takes an empty entry. -/
theorem createSharedObject_cases (h : Holds shareLayout 64 t live)
    (hfits : ShareFits t ownerID shareName)
    (hret : createSharedObject framesStorage ownerID shareName size isWritable t = .ok id t') :
    (id = eSharedMemExists ∧ t' = t) ∨
      ∃ i : Nat, id = i ∧ i < t.max ∧ KeyTable.lookup t.max live (ownerID, shareName) = none ∧
        t' = { t with
          bytes := enterShare t.bytes (i * 84) framesStorage ownerID shareName size isWritable } := by
  obtain ⟨-, hroom⟩ := hfits
  rw [h.find_eq, h.vacant_eq] at hroom
  cases hlook : KeyTable.lookup t.max live (ownerID, shareName) with
  | some j =>
    rw [createSharedObject_live h hlook] at hret
    obtain ⟨rfl, rfl⟩ := ok_inj.1 hret
    exact .inl ⟨rfl, rfl⟩
  | none =>
    obtain ⟨j, hvac⟩ := Option.ne_none_iff_exists'.1 (hroom.resolve_left fun hne => hne hlook)
    rw [createSharedObject_new h hlook hvac] at hret
    obtain ⟨rfl, rfl⟩ := ok_inj.1 hret
    exact .inr ⟨j, rfl, (KeyTable.vacant_eq_some.1 hvac).1, rfl, rfl⟩

/-! ## Runs -/

/-- A call on the table of shared objects, with the entries in use. -/
inductive ShareStep (fits : ObjectTable → UInt32 → CString → Prop) :
    ObjectTable × Live → ObjectTable × Live → Prop
  | create {t t' : ObjectTable} {live : Live} {framesStorage ownerID : UInt32}
      {shareName : CString} {size : Nat} {isWritable : UInt8} {id : Int}
      (hfits : fits t ownerID shareName)
      (hret : createSharedObject framesStorage ownerID shareName size isWritable t = .ok id t') :
      ShareStep fits (t, live)
        (t', if 0 ≤ id then update live id.toNat (some (ownerID, shareName)) else live)
  | get {t t' : ObjectTable} {live : Live} {ownerID : UInt32} {shareName : CString} {id : Int}
      (hret : getSharedObject ownerID shareName t = .ok id t') :
      ShareStep fits (t, live) (t', live)
  | free {t t' : ObjectTable} {live : Live} {i : Nat} {ret : Int}
      (hret : freeSharedObject i t = .ok ret t') :
      ShareStep fits (t, live)
        (t', if t'.bytes (i * 84 + 77) ≠ 0 then update live i none else live)

theorem createSharedObject_holds (h : Holds shareLayout 64 t live)
    (hfits : ShareFits t ownerID shareName)
    (hret : createSharedObject framesStorage ownerID shareName size isWritable t = .ok id t') :
    Holds shareLayout 64 t'
      (if 0 ≤ id then update live id.toNat (some (ownerID, shareName)) else live) := by
  rcases createSharedObject_cases h hfits hret with ⟨rfl, rfl⟩ | ⟨i, rfl, hi, hnew, rfl⟩
  · rw [if_neg (by decide)]
    exact h
  · rw [if_pos (Int.natCast_nonneg i)]
    refine h.enter (by rfl) (by rfl) (by decide) hi hnew hfits.1 ?_ ?_
    · intro j hj off hoff
      replace hoff : off < 84 := hoff
      replace hj : j ≠ i := hj
      show enterShare t.bytes (i * 84) framesStorage ownerID shareName size isWritable
        (j * 84 + off) = t.bytes (j * 84 + off)
      exact enterShare_of_ne hfits.1 (by omega)
    · exact (enterShare_fields hfits.1).inUse

theorem getSharedObject_holds (h : Holds shareLayout 64 t live)
    (hret : getSharedObject ownerID shareName t = .ok id t') : Holds shareLayout 64 t' live := by
  unfold getSharedObject at hret
  obtain ⟨sharedID, t₁, hid, hret⟩ := bind_eq_ok.1 hret
  unfold getShareObjectID at hid
  rw [h.getObjectID] at hid
  obtain ⟨-, rfl⟩ := ok_inj.1 hid
  rw [Prog.ite_run] at hret
  split at hret
  case isTrue =>
    obtain ⟨-, rfl⟩ := ok_inj.1 hret
    exact h
  case isFalse =>
    obtain ⟨-, rfl⟩ := ok_inj.1 hret
    exact h.setReferences _

theorem freeSharedObject_holds (h : Holds shareLayout 64 t live)
    (hret : freeSharedObject i t = .ok id t') :
    Holds shareLayout 64 t' (if t'.bytes (i * 84 + 77) ≠ 0 then update live i none else live) := by
  unfold freeSharedObject at hret
  rw [Prog.get_bind_apply, Prog.ite_run, if_neg (by simp [h.table]), Prog.ite_run] at hret
  split at hret
  case isTrue hout =>
    obtain ⟨-, rfl⟩ := ok_inj.1 hret
    -- an id that is out of range or empty names no live object
    have hnone : live i = none := by
      cases hk : live i with
      | none => rfl
      | some k =>
        have hi := h.inside i (by simp [hk])
        have hu : t.bytes (i * 84 + 77) = 0 := (h.inUse i k hk).used
        exact (hout.resolve_left (by omega) hu).elim
    rw [update_none_eq hnone, ite_self]
    exact h
  case isFalse hin =>
    have hi : ¬ t.max ≤ i := fun hle => hin (.inl hle)
    have hu : t.bytes (i * 84 + 77) = 0 := by
      by_contra hne
      exact hin (.inr hne)
    set w := u32Sub (load32 t.bytes (i * 84 + 72)) 1 with hw
    have hset := h.setReferences (i := i) w
    unfold modifyBytes at hret
    rw [Prog.modify_bind_apply, Prog.get_bind_apply, Prog.ite_run] at hret
    split at hret
    case isTrue =>
      -- the last reference is gone, so the record is cleared
      unfold freeShareObject freeObject at hret
      rw [Prog.bind_run, Prog.get_bind_apply, Prog.ite_run, if_neg hi] at hret
      obtain ⟨-, rfl⟩ := ok_inj.1 hret
      rw [if_pos]
      · exact hset.clearShare
      · show store8 _ (i * 84 + 77) 1 (i * 84 + 77) ≠ 0
        rw [store8_self]
        decide
    case isFalse =>
      obtain ⟨-, rfl⟩ := ok_inj.1 hret
      rw [if_neg]
      · exact hset
      · show ¬ store32 t.bytes (i * 84 + 72) w (i * 84 + 77) ≠ 0
        rw [store32_of_ne (by omega), hu]
        simp

theorem shareStep_holds {x y : ObjectTable × Live} (h : Holds shareLayout 64 x.1 x.2)
    (hstep : ShareStep ShareFits x y) : Holds shareLayout 64 y.1 y.2 := by
  cases hstep with
  | create hfits hret => exact createSharedObject_holds h hfits hret
  | get hret => exact getSharedObject_holds h hret
  | free hret => exact freeSharedObject_holds h hret

end

/-! ## Exact lookup -/

/-- Named lookup is exact in a table of shared objects, and a creation that fits is exact too. -/
structure NamedShares (fits : ObjectTable → UInt32 → CString → Prop) (t : ObjectTable)
    (live : Live) : Prop where
  lookup : Named shareLayout getShareObjectID t live
  refused : ∀ i ownerID shareName framesStorage size isWritable,
    live i = some (ownerID, shareName) →
      createSharedObject framesStorage ownerID shareName size isWritable t = .ok eSharedMemExists t
  created : ∀ ownerID shareName framesStorage size isWritable id t', fits t ownerID shareName →
    createSharedObject framesStorage ownerID shareName size isWritable t = .ok id t' → 0 ≤ id →
      OnlyEntry shareLayout id.toNat t t' ∧
        ShareFields t'.bytes (id.toNat * 84) framesStorage ownerID shareName size isWritable

theorem Holds.namedShares {t : ObjectTable} {live : Live} (h : Holds shareLayout 64 t live) :
    NamedShares ShareFits t live := by
  refine ⟨h.named eSharedMemNotExists, ?_, ?_⟩
  · intro i ownerID shareName framesStorage size isWritable hlive
    exact createSharedObject_live h (h.lookup hlive)
  · intro ownerID shareName framesStorage size isWritable id t' hfits hret hid
    rcases createSharedObject_cases h hfits hret with ⟨rfl, rfl⟩ | ⟨i, rfl, hi, -, rfl⟩
    · exact absurd hid (by decide)
    · refine ⟨⟨rfl, rfl, hi, ?_⟩, enterShare_fields hfits.1⟩
      intro x hx
      exact enterShare_of_ne hfits.1 hx

end ObjectTable

end Fos
