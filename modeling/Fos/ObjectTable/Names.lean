import Mathlib.Data.List.Find
import Fos.Lib.KeyTable
import Fos.ObjectTable

/-!
# Named lookup

A table is described by the owner and the name of every entry in use. The searches by owner and name
and for an empty entry are the searches of this description as long as every stored name ends inside
its entry, which the length of the names that were created decides.
-/

namespace Fos

open Function (update)
open Relation (ReflTransGen)
open Prog (bind_eq_ok bind_of_ok ok_inj)
open Bytes (Mem CString StringAt load32 store8 store32 clear strcpy strcmp store8_of_ne store8_self
  store32_of_ne strcpy_of_ne load32_congr load32_store32 strcmp_eq_zero stringAt_strcpy)

namespace ObjectTable

/-- The owner and the name under which each entry was created, for the entries not freed since. -/
abbrev Live := Nat → Option (UInt32 × CString)

/-- The entry at `e` is in use under an owner and a name. -/
structure InUse (lay : EntryLayout) (m : Mem) (e : Nat) (k : UInt32 × CString) : Prop where
  used : m (e + lay.emptyAt) = 0
  owner : load32 m e = k.1.toNat
  name : StringAt m (e + 4) k.2.1

/-- The table has exactly the entries of `live`, under names of at most `len` bytes. -/
structure Holds (lay : EntryLayout) (len : Nat) (t : ObjectTable) (live : Live) : Prop where
  table : t.null = false
  inside : ∀ i, live i ≠ none → i < t.max
  inUse : ∀ i k, live i = some k → InUse lay t.bytes (i * lay.size) k
  short : ∀ i k, live i = some k → k.2.1.length ≤ len
  vacant : ∀ i < t.max, live i = none → t.bytes (i * lay.size + lay.emptyAt) ≠ 0
  distinct : KeyTable.Distinct t.max live

section

variable {lay : EntryLayout} {len i : Nat} {t t' : ObjectTable} {live : Live} {ownerID : UInt32}
  {name : CString}

/-! ## The two searches -/

/-- The test of the search by owner and name. -/
def Matches (lay : EntryLayout) (t : ObjectTable) (ownerID : UInt32) (name : CString) (i : Nat) :
    Prop :=
  t.bytes (i * lay.size + lay.emptyAt) = 0 ∧ load32 t.bytes (i * lay.size) = ownerID.toNat ∧
    strcmp t.bytes name.1 (i * lay.size + 4) = 0

/-- An entry in use matches exactly its own owner and name. -/
theorem Holds.matches_iff (h : Holds lay len t live) (hi : i < t.max) :
    t.Matches lay ownerID name i ↔ live i = some (ownerID, name) := by
  constructor
  · rintro ⟨hempty, hown, hname⟩
    cases hk : live i with
    | none => exact absurd hempty (h.vacant i hi hk)
    | some k =>
      obtain ⟨-, ho, hn⟩ := h.inUse i k hk
      rw [strcmp_eq_zero name.2] at hname
      have h1 : k.1 = ownerID := UInt32.toNat_inj.1 (ho.symm.trans hown)
      have h2 : k.2 = name := Subtype.ext (hn.unique hname k.2.2 name.2)
      rw [← h1, ← h2]
  · intro hk
    obtain ⟨hu, ho, hn⟩ := h.inUse i _ hk
    exact ⟨hu, ho, (strcmp_eq_zero name.2).2 hn⟩

theorem Holds.find_eq (h : Holds lay len t live) :
    t.find lay ownerID name = KeyTable.lookup t.max live (ownerID, name) := by
  unfold ObjectTable.find KeyTable.lookup
  apply List.find?_congr
  intro i hi
  rw [decide_eq_decide]
  exact h.matches_iff (List.mem_range.1 hi)

theorem Holds.vacant_eq (h : Holds lay len t live) :
    t.vacant lay = KeyTable.vacant t.max live := by
  unfold ObjectTable.vacant KeyTable.vacant
  apply List.find?_congr
  intro i hi
  cases hk : live i with
  | none => simpa using h.vacant i (List.mem_range.1 hi) hk
  | some k => simpa using (h.inUse i k hk).used

theorem Holds.getObjectID (h : Holds lay len t live) (notExists : Int) :
    ObjectTable.getObjectID lay notExists ownerID name t =
      .ok (match KeyTable.lookup t.max live (ownerID, name) with
        | some i => (i : Int)
        | none => notExists) t := by
  rw [ObjectTable.getObjectID, Prog.get_bind_apply, Prog.ite_run, if_neg (by simp [h.table]),
    h.find_eq]
  cases KeyTable.lookup t.max live (ownerID, name) <;> rfl

/-! ## Exactness -/

theorem Holds.lookup (h : Holds lay len t live) (hlive : live i = some (ownerID, name)) :
    KeyTable.lookup t.max live (ownerID, name) = some i :=
  h.distinct.lookup (h.inside i (by simp [hlive])) hlive

/-- Every entry in use is found under its owner and name, and under no other is it found. -/
structure Named (lay : EntryLayout) (lookup : UInt32 → CString → O Int) (t : ObjectTable)
    (live : Live) : Prop where
  found : ∀ i ownerID name, live i = some (ownerID, name) → lookup ownerID name t = .ok i t
  unique : ∀ i j ownerID name, i < t.max → j < t.max → t.Matches lay ownerID name i →
    t.Matches lay ownerID name j → i = j

theorem Holds.named (h : Holds lay len t live) (notExists : Int) :
    Named lay (ObjectTable.getObjectID lay notExists) t live := by
  constructor
  · intro i ownerID name hlive
    rw [h.getObjectID, h.lookup hlive]
  · intro i j ownerID name hi hj hmi hmj
    rw [h.matches_iff hi] at hmi
    rw [h.matches_iff hj] at hmj
    exact h.distinct i hi j hj _ hmi hmj

/-- A call changed the table in one entry only. -/
structure OnlyEntry (lay : EntryLayout) (i : Nat) (t t' : ObjectTable) : Prop where
  max : t'.max = t.max
  table : t'.null = t.null
  inside : i < t.max
  others : ∀ x, x < i * lay.size ∨ i * lay.size + lay.size ≤ x → t'.bytes x = t.bytes x

/-! ## Writes -/

theorem InUse.congr {m m' : Mem} {e : Nat} {k : UInt32 × CString} (h : InUse lay m e k)
    (hempty : m' (e + lay.emptyAt) = m (e + lay.emptyAt))
    (hm : ∀ off ≤ 4 + k.2.1.length, m' (e + off) = m (e + off)) : InUse lay m' e k := by
  refine ⟨hempty.trans h.used, ?_, h.name.congr fun j hj => ?_⟩
  · rw [← h.owner]
    apply load32_congr
    intro x h1 h2
    rw [show x = e + (x - e) by omega]
    exact hm _ (by omega)
  · rw [Nat.add_assoc]
    exact hm _ (by omega)

/-- What writes that keep clear of owners, names and `empty` leave. -/
theorem Holds.keep (h : Holds lay len t live) (hnull : t'.null = t.null) (hmax : t'.max = t.max)
    (hempty : ∀ i < t.max, t'.bytes (i * lay.size + lay.emptyAt) =
      t.bytes (i * lay.size + lay.emptyAt))
    (hm : ∀ i < t.max, ∀ off ≤ 4 + len, t'.bytes (i * lay.size + off) =
      t.bytes (i * lay.size + off)) : Holds lay len t' live := by
  refine ⟨hnull.trans h.table, ?_, fun i k hk => ?_, h.short, ?_, ?_⟩
  · rw [hmax]
    exact h.inside
  · have hi := h.inside i (by simp [hk])
    have hs := h.short i k hk
    exact (h.inUse i k hk).congr (hempty i hi) fun off hoff => hm i hi off (by omega)
  · rw [hmax]
    intro i hi hk
    rw [hempty i hi]
    exact h.vacant i hi hk
  · rw [hmax]
    exact h.distinct

/-- The entry `i` becomes one in use, and the other entries are as they were. -/
theorem Holds.enter (h : Holds lay len t live) (hnull : t'.null = t.null) (hmax : t'.max = t.max)
    (hlay : lay.emptyAt < lay.size ∧ 4 + len < lay.size) (hi : i < t.max)
    (hnone : KeyTable.lookup t.max live (ownerID, name) = none) (hlen : name.1.length ≤ len)
    (hothers : ∀ j ≠ i, ∀ off < lay.size, t'.bytes (j * lay.size + off) =
      t.bytes (j * lay.size + off))
    (hnew : InUse lay t'.bytes (i * lay.size) (ownerID, name)) :
    Holds lay len t' (update live i (some (ownerID, name))) := by
  -- entry `i` is the one that is new, and every other is read as before
  refine ⟨hnull.trans h.table, fun j hj => ?_, fun j k hk => ?_, fun j k hk => ?_, ?_, ?_⟩
  · rw [hmax]
    by_cases hji : j = i
    · rw [hji]
      exact hi
    · rw [Function.update_of_ne hji] at hj
      exact h.inside j hj
  · by_cases hji : j = i
    · subst hji
      rw [Function.update_self] at hk
      cases hk
      exact hnew
    · rw [Function.update_of_ne hji] at hk
      have hs := h.short j k hk
      exact (h.inUse j k hk).congr (hothers j hji _ hlay.1)
        fun off hoff => hothers j hji off (by omega)
  · by_cases hji : j = i
    · subst hji
      rw [Function.update_self] at hk
      cases hk
      exact hlen
    · rw [Function.update_of_ne hji] at hk
      exact h.short j k hk
  · rw [hmax]
    intro j hj hk
    by_cases hji : j = i
    · subst hji
      simp at hk
    · rw [Function.update_of_ne hji] at hk
      rw [hothers j hji _ hlay.1]
      exact h.vacant j hj hk
  · rw [hmax]
    exact h.distinct.enter hnone

/-- Erasing what was not there. -/
theorem update_none_eq (h : live i = none) : update live i none = live := by
  rw [← h]
  exact Function.update_eq_self i live

/-- The entry `i` becomes empty, and the other entries are as they were. -/
theorem Holds.erase (h : Holds lay len t live) (hnull : t'.null = t.null) (hmax : t'.max = t.max)
    (hlay : lay.emptyAt < lay.size ∧ 4 + len < lay.size)
    (hothers : ∀ j ≠ i, ∀ off < lay.size, t'.bytes (j * lay.size + off) =
      t.bytes (j * lay.size + off))
    (hempty : t'.bytes (i * lay.size + lay.emptyAt) ≠ 0) :
    Holds lay len t' (update live i none) := by
  -- the names that are left are those of the other entries
  have hold : ∀ j k, update live i none j = some k → j ≠ i ∧ live j = some k := by
    intro j k hk
    by_cases hji : j = i
    · subst hji
      simp at hk
    · rw [Function.update_of_ne hji] at hk
      exact ⟨hji, hk⟩
  refine ⟨hnull.trans h.table, fun j hj => ?_, fun j k hk => ?_, fun j k hk => ?_, ?_, ?_⟩
  · rw [hmax]
    obtain ⟨k, hk⟩ := Option.ne_none_iff_exists'.1 hj
    exact h.inside j (by simp [(hold j k hk).2])
  · obtain ⟨hji, hk⟩ := hold j k hk
    have hs := h.short j k hk
    exact (h.inUse j k hk).congr (hothers j hji _ hlay.1)
      fun off hoff => hothers j hji off (by omega)
  · exact h.short j k (hold j k hk).2
  · rw [hmax]
    intro j hj hk
    by_cases hji : j = i
    · subst hji
      exact hempty
    · rw [Function.update_of_ne hji] at hk
      rw [hothers j hji _ hlay.1]
      exact h.vacant j hj hk
  · rw [hmax]
    exact h.distinct.erase

/-- A new array has no entry in use. -/
theorem holds_created (lay : EntryLayout) (len max : Nat) (rest : Mem)
    (hlay : lay.emptyAt < lay.size) : Holds lay len (created lay max rest) fun _ => none := by
  refine ⟨rfl, by simp, by simp, by simp, ?_, by intro i _ j _ k hk; cases hk⟩
  intro i hi _
  replace hi : i < max := hi
  have hlt : i * lay.size + lay.emptyAt < max * lay.size := by
    have := Nat.mul_le_mul_right lay.size (Nat.succ_le_of_lt hi)
    rw [Nat.succ_mul] at this
    omega
  have hmod : (i * lay.size + lay.emptyAt) % lay.size = lay.emptyAt := by
    rw [Nat.mul_comm, Nat.mul_add_mod]
    exact Nat.mod_eq_of_lt hlay
  show (if i * lay.size + lay.emptyAt < max * lay.size then _ else _) ≠ (0 : UInt8)
  rw [if_pos hlt, if_pos hmod]
  decide

end

end ObjectTable

end Fos
