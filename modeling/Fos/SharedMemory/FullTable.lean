import Fos.Lib.KeyTable
import Fos.Sched
import Fos.SharedMemory.Blind

/-!
# Full object tables

`allocate_share_object` and `allocate_semaphore_object` hand out the first empty entry. When there
is none they overwrite the pointer to the table with what `krealloc` returns, which is null.
-/

namespace Fos

open Function (update)
open Prog (bind_eq_ok bind_of_ok ok_inj)

/-! ## Shared objects -/

/-- The owner and the name of an entry in use. -/
def Shares.key (sh : Shares) (i : Nat) : Option (Nat × List UInt8) :=
  if (sh.shares i).empty then none else some ((sh.shares i).ownerID, (sh.shares i).name)

/-- What `allocate_share_object` does for the frames storage of an entry. -/
def newFramesStorage : K Nat := do
  let framesStorage ← kmalloc pageSize
  if framesStorage = 0 then
    throw (.panic "Kernel runs out of memory\nCan't create the framesStorage.")
  else do
    zeroWords framesStorage 1024
    return framesStorage

theorem newFramesStorage_ok {s t : Kern} {p : Nat} (hk : newFramesStorage s = .ok p t) :
    ∃ u, kmalloc pageSize s = .ok p u ∧ p ≠ 0 ∧ zeroWords p 1024 u = .ok () t := by
  obtain ⟨q, u, h₁, h₂⟩ := bind_eq_ok.1 hk
  rw [Prog.ite_run] at h₂
  split at h₂
  case isTrue => cases h₂
  case isFalse hne =>
    obtain ⟨_, u', h₃, h₄⟩ := bind_eq_ok.1 h₂
    obtain ⟨rfl, rfl⟩ := ok_inj.1 h₄
    exact ⟨u, h₁, hne, h₃⟩

/-- `allocate_share_object` returns the index of an entry that was empty or an error. The live
entries stay where they are, and `get_share_object_ID` finds all that it found before. -/
def AllocatesShare (s : Kern) : Prop :=
  ∃ id s', allocateShareObject s = .ok id s' ∧
    (id = eNoShare ∨ ∃ i : Nat, id = i ∧ i < s'.shares.maxShares ∧
      (i < s.shares.maxShares → (s.shares.shares i).empty = true)) ∧
    (∀ i < s.shares.maxShares, (s.shares.shares i).empty = false →
      i < s'.shares.maxShares ∧ s'.shares.shares i = s.shares.shares i) ∧
    ∀ (ownerID : Nat) (name : List UInt8) (i : Nat), getShareObjectID ownerID name s = .ok i s →
      getShareObjectID ownerID name s' = .ok i s'

/-- The table exists and has an empty entry; the first one does not carry the owner and the name of
an entry in use behind it, as a cleared entry never does; and there is memory for the frames
storage. -/
structure ShareRoom (s : Kern) (i : Nat) : Prop where
  table : s.shares.null = false
  vacant : KeyTable.vacant s.shares.maxShares s.shares.key = some i
  stale : ∀ j, s.shares.find (s.shares.shares i).ownerID (s.shares.shares i).name = some j → j < i
  storage : ∃ framesStorage t, newFramesStorage s = .ok framesStorage t

section

variable {sh : Shares} {s : Kern} {ownerID i : Nat} {name : List UInt8}

theorem key_eq_none : sh.key i = none ↔ (sh.shares i).empty = true := by
  unfold Shares.key
  split
  case isTrue h => exact iff_of_true rfl h
  case isFalse h => exact iff_of_false (by simp) h

theorem Shares.find_eq_lookup :
    sh.find ownerID name = KeyTable.lookup sh.maxShares sh.key (ownerID, name) := by
  unfold Shares.find KeyTable.lookup Shares.key
  congr 1
  funext i
  cases (sh.shares i).empty <;> simp [Prod.ext_iff, Bool.beq_eq_decide_eq]

theorem vacant_eq_find :
    (List.range sh.maxShares).find? (fun i => (sh.shares i).empty) =
      KeyTable.vacant sh.maxShares sh.key := by
  unfold KeyTable.vacant Shares.key
  congr 1
  funext i
  cases (sh.shares i).empty <;> rfl

/-- An entry taken in use keeps its owner and its name. -/
theorem key_setShare {share : Share} (hempty : share.empty = false) :
    (sh.setShare i share).key = update sh.key i (some (share.ownerID, share.name)) := by
  funext j
  unfold Shares.key Shares.setShare
  dsimp only
  by_cases hj : j = i
  · subst hj
    simp [hempty]
  · simp [hj]

theorem getShareObjectID_ok (hnull : s.shares.null = false) :
    getShareObjectID ownerID name s = .ok i s ↔ s.shares.find ownerID name = some i := by
  rw [getShareObjectID, Prog.get_bind_apply, Prog.ite_run, if_neg (by simp [hnull])]
  cases s.shares.find ownerID name with
  | none =>
    refine iff_of_false (fun h => ?_) (by simp)
    have : eSharedMemNotExists = (i : Int) := (ok_inj.1 h).1
    unfold eSharedMemNotExists at this
    omega
  | some j =>
    constructor
    · intro h
      have : ((j : Nat) : Int) = i := (ok_inj.1 h).1
      rw [Int.ofNat_inj.1 this]
    · intro h
      cases h
      rfl

/-- Once the pointer is lost every lookup in a table with entries follows it. -/
theorem getShareObjectID_null (hnull : s.shares.null = true) (hpos : 0 < s.shares.maxShares)
    {id : Int} {t : Kern} : getShareObjectID ownerID name s ≠ .ok id t := by
  rw [getShareObjectID, Prog.get_bind_apply, Prog.ite_run, if_pos ⟨hnull, hpos⟩]
  intro h
  cases h

theorem writeShare_ok (hnull : s.shares.null = false) (f : Share → Share) :
    writeShare i f s = .ok () (s.setShares (s.shares.setShare i (f (s.shares.shares i)))) := by
  rw [writeShare, Prog.get_bind_apply, Prog.ite_run, if_neg (by simp [hnull])]
  rfl

/-- The entry that `takeShareEntry` leaves. -/
def Share.taken (share : Share) (framesStorage : Nat) : Share :=
  { share with empty := false, framesStorage := framesStorage }

/-- With memory for the frames storage the entry is taken and nothing else of the table changes. -/
theorem takeShareEntry_iff (hnull : s.shares.null = false) {id : Int} {s' : Kern} :
    takeShareEntry i s = .ok id s' ↔ ∃ framesStorage t, newFramesStorage s = .ok framesStorage t ∧
      id = i ∧
      s' = t.setShares (s.shares.setShare i ((s.shares.shares i).taken framesStorage)) := by
  set sh₁ := s.shares.setShare i { s.shares.shares i with empty := false } with hsh₁
  have hstore : ∀ (t : Kern) (p : Nat),
      writeShare i (fun share => { share with framesStorage := p }) (t.setShares sh₁) =
        .ok () (t.setShares (s.shares.setShare i ((s.shares.shares i).taken p))) := by
    intro t p
    have hnull₁ : (t.setShares sh₁).shares.null = false := hnull
    rw [writeShare_ok hnull₁]
    simp [hsh₁, Kern.setShares, Shares.setShare, Share.taken]
  have htake : writeShare i (fun share => { share with empty := false }) s =
      .ok () (s.setShares sh₁) := writeShare_ok hnull _
  -- `kmalloc` and the clearing of the page do not look at the share table
  have hkm : kmalloc pageSize (s.setShares sh₁) =
      Prog.mapState (fun t => t.setShares sh₁) (kmalloc pageSize s) := blind_kmalloc sh₁ s
  rw [takeShareEntry, newFramesStorage, bind_of_ok htake]
  simp only [Prog.bind_run (kmalloc pageSize), hkm]
  cases kmalloc pageSize s with
  | error e t =>
    constructor
    · intro h
      cases h
    · rintro ⟨p, u, h, -⟩
      cases h
  | ok p t =>
    dsimp only [Prog.mapState]
    rw [bind_of_ok (hstore t p)]
    simp only [Prog.ite_run]
    by_cases h0 : p = 0
    · rw [if_pos h0, if_pos h0]
      constructor
      · intro h
        cases h
      · rintro ⟨p, u, h, -⟩
        cases h
    · rw [if_neg h0, if_neg h0]
      have hz := (blind_zeroWords : Blind (zeroWords p 1024))
        (s.shares.setShare i ((s.shares.shares i).taken p)) t
      simp only [Prog.bind_run (zeroWords p 1024), hz]
      cases zeroWords p 1024 t with
      | error e u =>
        constructor
        · intro h
          cases h
        · rintro ⟨p, u, h, -⟩
          cases h
      | ok _ u =>
        constructor
        · intro h
          obtain ⟨rfl, rfl⟩ := ok_inj.1 h
          exact ⟨p, u, rfl, rfl, rfl⟩
        · rintro ⟨p', u', h, rfl, rfl⟩
          obtain ⟨rfl, rfl⟩ := ok_inj.1 h
          rfl

/-- **`allocate_share_object`** returns the index of an empty entry or an error and keeps every live
entry within reach exactly where there is room, or no entry at all. -/
theorem allocateShareObject_iff :
    AllocatesShare s ↔ s.shares.maxShares = 0 ∨ ∃ i, ShareRoom s i := by
  by_cases hmax : s.shares.maxShares = 0
  · -- the loops do not run, and nothing can be lost
    refine iff_of_true ⟨eNoShare, s.setShares { s.shares with null := true }, ?_, .inl rfl, ?_, ?_⟩
      (.inl hmax)
    · rw [allocateShareObject, Prog.get_bind_apply, Prog.ite_run, if_neg (by omega), hmax]
      rfl
    · intro i hi
      omega
    · intro ownerID name i h
      rw [getShareObjectID, Prog.get_bind_apply, Prog.ite_run, if_neg (by omega), Shares.find,
        hmax] at h
      have : eSharedMemNotExists = (i : Int) := (ok_inj.1 h).1
      unfold eSharedMemNotExists at this
      omega
  · have hpos : 0 < s.shares.maxShares := Nat.pos_of_ne_zero hmax
    rw [or_iff_right hmax]
    unfold AllocatesShare
    rw [allocateShareObject, Prog.get_bind_apply, Prog.ite_run]
    cases hnull : s.shares.null with
    | true =>
      rw [if_pos ⟨rfl, hpos⟩]
      refine iff_of_false ?_ ?_
      · rintro ⟨id, s', h, -⟩
        cases h
      · rintro ⟨i, hroom⟩
        rw [hroom.table] at hnull
        cases hnull
    | false =>
      rw [if_neg (by simp), vacant_eq_find]
      cases hv : KeyTable.vacant s.shares.maxShares s.shares.key with
      | none =>
        -- every entry is in use, and the pointer to them is lost
        refine iff_of_false ?_ ?_
        · rintro ⟨id, s', h, -, -, hfound⟩
          obtain ⟨rfl, rfl⟩ := ok_inj.1 h
          have h0 : (s.shares.shares 0).empty = false := by
            have := KeyTable.vacant_eq_none.1 hv 0 hpos
            rw [Ne, key_eq_none] at this
            simpa using this
          have hsome : ∃ j, s.shares.find (s.shares.shares 0).ownerID (s.shares.shares 0).name =
              some j := by
            rw [Shares.find_eq_lookup]
            refine Option.ne_none_iff_exists'.1 fun hnone => ?_
            refine KeyTable.lookup_eq_none.1 hnone 0 hpos ?_
            unfold Shares.key
            rw [h0]
            rfl
          obtain ⟨j, hj⟩ := hsome
          exact getShareObjectID_null (s := s.setShares { s.shares with null := true }) rfl hpos
            (hfound _ _ j ((getShareObjectID_ok hnull).2 hj))
        · rintro ⟨i, hroom⟩
          rw [hroom.vacant] at hv
          cases hv
      | some i =>
        obtain ⟨hi, hkey, -⟩ := KeyTable.vacant_eq_some.1 hv
        dsimp only
        -- the lookups that succeed before and after
        have hlook : ∀ (t : Kern) (p : Nat),
            (∀ ownerID name (j : Nat), getShareObjectID ownerID name s = .ok j s →
              getShareObjectID ownerID name
                  (t.setShares (s.shares.setShare i ((s.shares.shares i).taken p))) =
                .ok j (t.setShares (s.shares.setShare i ((s.shares.shares i).taken p)))) ↔
            ∀ j, s.shares.find (s.shares.shares i).ownerID (s.shares.shares i).name = some j →
              j < i := by
          intro t p
          set s' := t.setShares (s.shares.setShare i ((s.shares.shares i).taken p)) with hs'
          have hnull' : s'.shares.null = false := hnull
          have hfind : ∀ ownerID name, s'.shares.find ownerID name =
              KeyTable.lookup s.shares.maxShares
                (update s.shares.key i
                  (some ((s.shares.shares i).ownerID, (s.shares.shares i).name))) (ownerID, name) := by
            intro ownerID name
            have hkeys : s'.shares.key = update s.shares.key i
                (some ((s.shares.shares i).ownerID, (s.shares.shares i).name)) :=
              key_setShare rfl
            rw [Shares.find_eq_lookup, hkeys]
            rfl
          simp only [getShareObjectID_ok hnull, getShareObjectID_ok hnull', hfind,
            Shares.find_eq_lookup]
          rw [← KeyTable.lookup_enter_iff hkey hi]
          exact ⟨fun h l j => h l.1 l.2 j, fun h o n j => h (o, n) j⟩
        constructor
        · rintro ⟨id, s', h, -, -, hfound⟩
          obtain ⟨p, t, hp, -, rfl⟩ := (takeShareEntry_iff hnull).1 h
          exact ⟨i, hnull, hv, (hlook t p).1 hfound, p, t, hp⟩
        · rintro ⟨j, hroom⟩
          have hji : j = i := Option.some.inj (hroom.vacant.symm.trans hv)
          subst hji
          obtain ⟨p, t, hp⟩ := hroom.storage
          refine ⟨_, _, (takeShareEntry_iff hnull).2 ⟨p, t, hp, rfl, rfl⟩, .inr ⟨j, rfl, hi, ?_⟩,
            ?_, (hlook t p).2 hroom.stale⟩
          · intro _
            exact key_eq_none.1 hkey
          · intro m hm hlive
            refine ⟨hm, ?_⟩
            have hne : m ≠ j := by
              rintro rfl
              rw [key_eq_none.1 hkey] at hlive
              cases hlive
            show update s.shares.shares j _ m = _
            rw [Function.update_of_ne hne]

end

/-! ## Semaphores -/

/-- The owner and the name of an entry in use. -/
def Sched.key (s : Sched) (i : Nat) : Option (Int × List UInt8) :=
  if (s.semaphores i).empty then none else some ((s.semaphores i).ownerID, (s.semaphores i).name)

/-- `allocate_semaphore_object` returns the index of an entry that was empty or an error. The live
entries stay where they are, and `get_semaphore_object_ID` finds all that it found before. -/
def AllocatesSemaphore (s : Sched) : Prop :=
  ∃ id s', allocateSemaphoreObject s = .ok id s' ∧
    (id = eNoSemaphore ∨ ∃ i : Nat, id = i ∧ i < s'.maxSemaphores ∧
      (i < s.maxSemaphores → (s.semaphores i).empty = true)) ∧
    (∀ i < s.maxSemaphores, (s.semaphores i).empty = false →
      i < s'.maxSemaphores ∧ s'.semaphores i = s.semaphores i) ∧
    ∀ (ownerID : Int) (name : List UInt8) (i : Nat),
      getSemaphoreObjectID ownerID name s = .ok i s →
        getSemaphoreObjectID ownerID name s' = .ok i s'

/-- The table exists and has an empty entry, and the first one does not carry the owner and the name
of an entry in use behind it. -/
structure SemaphoreRoom (s : Sched) (i : Nat) : Prop where
  table : s.semaphoresNull = false
  vacant : KeyTable.vacant s.maxSemaphores s.key = some i
  stale : ∀ j, s.findSemaphore (s.semaphores i).ownerID (s.semaphores i).name = some j → j < i

section

variable {s : Sched} {ownerID : Int} {i : Nat} {name : List UInt8}

theorem semKey_eq_none : s.key i = none ↔ (s.semaphores i).empty = true := by
  unfold Sched.key
  split
  case isTrue h => exact iff_of_true rfl h
  case isFalse h => exact iff_of_false (by simp) h

theorem findSemaphore_eq_lookup :
    s.findSemaphore ownerID name = KeyTable.lookup s.maxSemaphores s.key (ownerID, name) := by
  unfold Sched.findSemaphore KeyTable.lookup Sched.key
  congr 1
  funext i
  cases (s.semaphores i).empty <;> simp [Prod.ext_iff, Bool.beq_eq_decide_eq]

theorem semVacant_eq_find :
    (List.range s.maxSemaphores).find? (fun i => (s.semaphores i).empty) =
      KeyTable.vacant s.maxSemaphores s.key := by
  unfold KeyTable.vacant Sched.key
  congr 1
  funext i
  cases (s.semaphores i).empty <;> rfl

theorem key_setSemaphore {sem : Semaphore} (hempty : sem.empty = false) :
    (s.setSemaphore i sem).key = update s.key i (some (sem.ownerID, sem.name)) := by
  funext j
  unfold Sched.key Sched.setSemaphore
  dsimp only
  by_cases hj : j = i
  · subst hj
    simp [hempty]
  · simp [hj]

theorem getSemaphoreObjectID_ok (hnull : s.semaphoresNull = false) :
    getSemaphoreObjectID ownerID name s = .ok i s ↔ s.findSemaphore ownerID name = some i := by
  rw [getSemaphoreObjectID, Prog.get_bind_apply, Prog.ite_run, if_neg (by simp [hnull])]
  cases s.findSemaphore ownerID name with
  | none =>
    refine iff_of_false (fun h => ?_) (by simp)
    have : eSemaphoreNotExists = (i : Int) := (ok_inj.1 h).1
    unfold eSemaphoreNotExists at this
    omega
  | some j =>
    constructor
    · intro h
      have : ((j : Nat) : Int) = i := (ok_inj.1 h).1
      rw [Int.ofNat_inj.1 this]
    · intro h
      cases h
      rfl

theorem getSemaphoreObjectID_null (hnull : s.semaphoresNull = true) (hpos : 0 < s.maxSemaphores)
    {id : Int} {t : Sched} : getSemaphoreObjectID ownerID name s ≠ .ok id t := by
  rw [getSemaphoreObjectID, Prog.get_bind_apply, Prog.ite_run, if_pos ⟨hnull, hpos⟩]
  intro h
  cases h

/-- **`allocate_semaphore_object`** returns the index of an empty entry or an error and keeps every
live entry within reach exactly where there is room, or no entry at all. -/
theorem allocateSemaphoreObject_iff :
    AllocatesSemaphore s ↔ s.maxSemaphores = 0 ∨ ∃ i, SemaphoreRoom s i := by
  by_cases hmax : s.maxSemaphores = 0
  · refine iff_of_true ⟨eNoSemaphore, { s with semaphoresNull := true }, ?_, .inl rfl, ?_, ?_⟩
      (.inl hmax)
    · rw [allocateSemaphoreObject, Prog.get_bind_apply, Prog.ite_run, if_neg (by omega), hmax]
      rfl
    · intro i hi
      omega
    · intro ownerID name i h
      rw [getSemaphoreObjectID, Prog.get_bind_apply, Prog.ite_run, if_neg (by omega),
        Sched.findSemaphore, hmax] at h
      have : eSemaphoreNotExists = (i : Int) := (ok_inj.1 h).1
      unfold eSemaphoreNotExists at this
      omega
  · have hpos : 0 < s.maxSemaphores := Nat.pos_of_ne_zero hmax
    rw [or_iff_right hmax]
    unfold AllocatesSemaphore
    rw [allocateSemaphoreObject, Prog.get_bind_apply, Prog.ite_run]
    cases hnull : s.semaphoresNull with
    | true =>
      rw [if_pos ⟨rfl, hpos⟩]
      refine iff_of_false ?_ ?_
      · rintro ⟨id, s', h, -⟩
        cases h
      · rintro ⟨i, hroom⟩
        rw [hroom.table] at hnull
        cases hnull
    | false =>
      rw [if_neg (by simp), semVacant_eq_find]
      cases hv : KeyTable.vacant s.maxSemaphores s.key with
      | none =>
        refine iff_of_false ?_ ?_
        · rintro ⟨id, s', h, -, -, hfound⟩
          obtain ⟨rfl, rfl⟩ := ok_inj.1 h
          -- the table is full; the first entry has a name, and was found before
          have h0 : (s.semaphores 0).empty = false := by
            have := KeyTable.vacant_eq_none.1 hv 0 hpos
            rw [Ne, semKey_eq_none] at this
            simpa using this
          have hsome : ∃ j, s.findSemaphore (s.semaphores 0).ownerID (s.semaphores 0).name =
              some j := by
            rw [findSemaphore_eq_lookup]
            refine Option.ne_none_iff_exists'.1 fun hnone => ?_
            refine KeyTable.lookup_eq_none.1 hnone 0 hpos ?_
            unfold Sched.key
            rw [h0]
            rfl
          obtain ⟨j, hj⟩ := hsome
          exact getSemaphoreObjectID_null (s := { s with semaphoresNull := true }) rfl hpos
            (hfound _ _ j ((getSemaphoreObjectID_ok hnull).2 hj))
        · rintro ⟨i, hroom⟩
          rw [hroom.vacant] at hv
          cases hv
      | some i =>
        obtain ⟨hi, hkey, -⟩ := KeyTable.vacant_eq_some.1 hv
        set s' := s.setSemaphore i { s.semaphores i with empty := false } with hs'
        have hkeys : s'.key = update s.key i
            (some ((s.semaphores i).ownerID, (s.semaphores i).name)) := key_setSemaphore rfl
        have hnull' : s'.semaphoresNull = false := hnull
        -- the entry taken still carries its old name, which hides a later one of that name
        have hlook : (∀ ownerID name (j : Nat), getSemaphoreObjectID ownerID name s = .ok j s →
              getSemaphoreObjectID ownerID name s' = .ok j s') ↔
            ∀ j, s.findSemaphore (s.semaphores i).ownerID (s.semaphores i).name = some j →
              j < i := by
          simp only [getSemaphoreObjectID_ok hnull, getSemaphoreObjectID_ok hnull',
            findSemaphore_eq_lookup, hkeys]
          rw [← KeyTable.lookup_enter_iff hkey hi]
          exact ⟨fun h l j => h l.1 l.2 j, fun h o n j => h (o, n) j⟩
        constructor
        · rintro ⟨id, t, h, -, -, hfound⟩
          obtain ⟨-, rfl⟩ := ok_inj.1 h
          exact ⟨i, hnull, hv, hlook.1 hfound⟩
        · rintro ⟨j, hroom⟩
          have hji : j = i := Option.some.inj (hroom.vacant.symm.trans hv)
          subst hji
          refine ⟨_, s', rfl, .inr ⟨j, rfl, hi, fun _ => semKey_eq_none.1 hkey⟩, ?_,
            hlook.2 hroom.stale⟩
          intro m hm hlive
          refine ⟨hm, ?_⟩
          have hne : m ≠ j := by
            rintro rfl
            rw [semKey_eq_none.1 hkey] at hlive
            cases hlive
          show update s.semaphores j _ m = _
          rw [Function.update_of_ne hne]

end

/-! ## Both tables -/

/-- **A table with room** is what the two allocations need: they return the index of an empty entry
or an error and keep every live entry within reach exactly then, or when there is no entry. -/
theorem allocate_object_iff (s : Kern) (t : Sched) :
    (AllocatesShare s ↔ s.shares.maxShares = 0 ∨ ∃ i, ShareRoom s i) ∧
      (AllocatesSemaphore t ↔ t.maxSemaphores = 0 ∨ ∃ i, SemaphoreRoom t i) :=
  ⟨allocateShareObject_iff, allocateSemaphoreObject_iff⟩

/-- With 97 entries in use, of different owners, a creation loses the pointer to them. -/
theorem allocate_object_full : ¬ ∀ (s : Kern) (t : Sched),
    AllocatesShare s ∧ AllocatesSemaphore t := by
  intro hall
  have h := (hall (smallBoot.setShares ⟨97, fun i => { emptyShare with ownerID := i }, false⟩)
    (bootSched ⟨fun _ => none, fun _ => none⟩ 89)).1
  rw [allocateShareObject_iff] at h
  rcases h with h | ⟨i, hroom⟩
  · cases h
  · obtain ⟨-, hkey, -⟩ := KeyTable.vacant_eq_some.1 hroom.vacant
    cases hkey

end Fos
