import Fos.Descriptors
import Fos.UserHeap.EmptyList

/-!
# The block descriptors of a process

A process has 100000 block descriptors for 262144 pages. The three lists share them out in every
state of a run, so a request fails for want of a descriptor exactly when all are in use and the gap
it takes is not used up by it.
-/

namespace Fos

open Prog (bind_eq_ok ok_inj final ok_of_value)
open Relation (ReflTransGen)

/-- The lists after `initialize_user_heap`. -/
def UHeap.started (h : UHeap) : UHeap :=
  if h.firstTime then ⟨false, h.freeList, [], insertHeads 0 (maxNumberOfBlocksUser - 1) []⟩ else h

/-- The free list, the taken list and `free_blocks_user` partition the array of descriptors, once it
is set up. -/
def UHeap.Partitioned (h : UHeap) : Prop :=
  h.firstTime = false →
    ShareOut maxNumberOfBlocksUser h.blockInfoFreeListUser h.blockInfoTakenListUser h.freeBlocksUser

/-- What a run carries on. -/
structure UHeap.SharesOut (h : UHeap) : Prop where
  fresh : h.firstTime = true → h.blockInfoTakenListUser = []
  partitioned : h.Partitioned

/-- The descriptors of blocks. -/
def UHeap.inUse (h : UHeap) : Nat := h.freeList.length + h.blockInfoTakenListUser.length

/-- A descriptor is spare, or the first gap that is large enough has exactly the size of the
request. -/
def UHeap.HasDescriptor (h : UHeap) (size : Nat) : Prop :=
  h.inUse < maxNumberOfBlocksUser ∨
    ∃ found, firstFit h.freeList size = some found ∧ found.elem.size = roundup size pageSize

/-- The size that a call asks `first_fit_user` for. -/
def UserCall.size : UserCall → Nat
  | .malloc size | .smalloc _ _ size _ => size
  | .sget sys owner name => toU32 (sys.getSizeOfSharedObject owner name)
  | .free _ | .sfree _ => 0

/-- The call asks `first_fit_user` for a block. -/
def UserCall.Asks : UserCall → Prop
  | .malloc _ => True
  | .smalloc sys .. => sys.isFirstFit
  | .sget sys owner name =>
    sys.isFirstFit ∧ sys.getSizeOfSharedObject owner name ≠ eSharedMemNotExists
  | .free _ | .sfree _ => False

section

variable {h h' : UHeap} {va size : Nat} {take : BlockInfo} {found : Place BlockInfo}

/-! ## One call -/

theorem UHeap.started_firstTime (h : UHeap) : h.started.firstTime = false := by
  unfold UHeap.started
  split
  case isTrue => rfl
  case isFalse hf => simpa using hf

theorem UHeap.started_freeList (h : UHeap) : h.started.blockInfoFreeListUser = h.freeList := by
  unfold UHeap.started
  split
  case isTrue => rfl
  case isFalse hf => exact (freeList_started (by simpa using hf)).symm

theorem UHeap.SharesOut.started_taken (hi : h.SharesOut) :
    h.started.blockInfoTakenListUser = h.blockInfoTakenListUser := by
  unfold UHeap.started
  split
  case isTrue hf => exact (hi.fresh hf).symm
  case isFalse => rfl

theorem initializeUserHeap_run (h : UHeap) : initializeUserHeap h = .ok () h.started := by
  rw [initializeUserHeap, Prog.get_bind_apply, Prog.ite_run]
  unfold UHeap.started UHeap.freeList
  split
  case isTrue hf =>
    rw [Prog.modify_bind_apply]
    have halloc : allocateBlock { h with
        blockInfoFreeListUser := []
        blockInfoTakenListUser := []
        freeBlocksUser := insertHeads 0 maxNumberOfBlocksUser [] } =
          .ok (maxNumberOfBlocksUser - 1) { h with
            blockInfoFreeListUser := []
            blockInfoTakenListUser := []
            freeBlocksUser := insertHeads 0 (maxNumberOfBlocksUser - 1) [] } := by
      rw [allocateBlock, Prog.get_bind_apply, maxNumberOfBlocksUser, insertHeads_succ]
      rfl
    rw [Prog.bind_of_ok halloc]
    rfl
  case isFalse => rfl

/-- The lists partition the array when the first call has set them up. -/
theorem UHeap.SharesOut.started (hi : h.SharesOut) :
    ShareOut maxNumberOfBlocksUser h.freeList h.blockInfoTakenListUser h.started.freeBlocksUser := by
  cases hf : h.firstTime with
  | false =>
    have hs : h.started = h := by rw [UHeap.started, if_neg (by simp [hf])]
    rw [hs, freeList_started hf]
    exact hi.partitioned hf
  | true =>
    have hs : h.started.freeBlocksUser = insertHeads 0 (maxNumberOfBlocksUser - 1) [] := by
      rw [UHeap.started, if_pos hf]
    rw [hs, hi.fresh hf, UHeap.freeList, if_pos hf]
    exact insertHeads_perm maxNumberOfBlocksUser

theorem UHeap.SharesOut.length (hi : h.SharesOut) :
    h.inUse + h.started.freeBlocksUser.length = maxNumberOfBlocksUser := hi.started.length

/-- What is spare once the gap is carved. -/
def UHeap.spare (h : UHeap) (found : Place BlockInfo) (size : Nat) : List Nat :=
  (h.started.carve found (roundup size pageSize)).freeBlocksUser

theorem firstFitUser_none (hnone : firstFit h.freeList size = none) :
    firstFitUser size h = .ok 0 h.started := by
  rw [firstFitUser, Prog.bind_of_ok (initializeUserHeap_run h), Prog.get_bind_apply,
    h.started_freeList, hnone]
  rfl

theorem firstFitUser_nil (hfound : firstFit h.freeList size = some found)
    (hspare : h.spare found size = []) :
    firstFitUser size h = .error (.panic "Error no free blocks !!!!")
      (h.started.carve found (roundup size pageSize)) := by
  have halloc : allocateBlock (h.started.carve found (roundup size pageSize)) =
      .error (.panic "Error no free blocks !!!!") (h.started.carve found (roundup size pageSize)) := by
    have hfree : (h.started.carve found (roundup size pageSize)).freeBlocksUser = [] := hspare
    rw [allocateBlock, Prog.get_bind_apply, hfree]
    rfl
  rw [firstFitUser, Prog.bind_of_ok (initializeUserHeap_run h), Prog.get_bind_apply,
    h.started_freeList, hfound]
  show (set (h.started.carve found (roundup size pageSize)) >>= _ : U Nat) h.started = _
  rw [Prog.set_bind_apply, Prog.bind_run, halloc]

theorem firstFitUser_cons {id : Nat} {rest : List Nat}
    (hfound : firstFit h.freeList size = some found) (hspare : h.spare found size = id :: rest) :
    firstFitUser size h = .ok found.elem.startVa
      { h.started.carve found (roundup size pageSize) with
        freeBlocksUser := rest
        blockInfoTakenListUser :=
          ⟨id, found.elem.startVa,
            roundup size pageSize⟩ :: h.started.blockInfoTakenListUser } := by
  have halloc : allocateBlock (h.started.carve found (roundup size pageSize)) =
      .ok id { h.started.carve found (roundup size pageSize) with freeBlocksUser := rest } := by
    have hfree : (h.started.carve found (roundup size pageSize)).freeBlocksUser = id :: rest := hspare
    rw [allocateBlock, Prog.get_bind_apply, hfree]
    rfl
  rw [firstFitUser, Prog.bind_of_ok (initializeUserHeap_run h), Prog.get_bind_apply,
    h.started_freeList, hfound]
  show (set (h.started.carve found (roundup size pageSize)) >>= _ : U Nat) h.started = _
  rw [Prog.set_bind_apply, Prog.bind_of_ok halloc]
  rfl

/-- A request panics for want of a descriptor exactly when none is spare after the gap is carved. -/
theorem firstFitUser_panics (hfound : firstFit h.freeList size = some found) :
    (∀ t, firstFitUser size h ≠ .error (.panic "Error no free blocks !!!!") t) ↔
      h.spare found size ≠ [] := by
  cases hspare : h.spare found size with
  | nil => exact iff_of_false (fun hall => hall _ (firstFitUser_nil hfound hspare)) (by simp)
  | cons id rest =>
    refine iff_of_true (fun t ht => ?_) (by simp)
    rw [firstFitUser_cons hfound hspare] at ht
    cases ht

theorem UHeap.SharesOut.hasDescriptor (hi : h.SharesOut)
    (hfound : firstFit h.freeList size = some found) :
    h.spare found size ≠ [] ↔ h.HasDescriptor size := by
  have hlen := hi.length
  have hfit : roundup size pageSize ≤ found.elem.size := by
    simpa using (firstWhere_some hfound).2.1
  have hsize : (found.elem.carved (roundup size pageSize)).size =
      found.elem.size - roundup size pageSize := rfl
  unfold UHeap.HasDescriptor UHeap.spare UHeap.carve
  rw [hfound, hsize]
  dsimp only
  by_cases hz : found.elem.size - roundup size pageSize = 0
  · rw [if_pos hz]
    refine iff_of_true (by simp) (.inr ⟨found, rfl, by omega⟩)
  · rw [if_neg hz, ← List.length_pos_iff]
    constructor
    · exact fun hpos => .inl (by omega)
    · rintro (hlt | ⟨f, hf, he⟩)
      · omega
      · obtain rfl := Option.some.inj hf
        omega

/-! ## Runs -/

theorem UHeap.SharesOut.firstFitUser (hi : h.SharesOut) (hc : Fos.firstFitUser size h = .ok va h') :
    h'.SharesOut := by
  cases hfound : firstFit h.freeList size with
  | none =>
    rw [firstFitUser_none hfound] at hc
    obtain ⟨-, rfl⟩ := ok_inj.1 hc
    refine ⟨fun hf => absurd hf (by simp [h.started_firstTime]), fun _ => ?_⟩
    rw [h.started_freeList, hi.started_taken]
    exact hi.started
  | some found =>
    cases hspare : h.spare found size with
    | nil =>
      rw [firstFitUser_nil hfound hspare] at hc
      cases hc
    | cons id rest =>
      rw [firstFitUser_cons hfound hspare] at hc
      obtain ⟨-, rfl⟩ := ok_inj.1 hc
      refine ⟨fun hf => absurd hf (by simp [UHeap.carve, h.started_firstTime]), fun _ => ?_⟩
      have hlist := (firstWhere_some hfound).1
      have hshare := hi.started
      rw [hlist] at hshare
      refine hshare.allocate (b := ⟨id, found.elem.startVa, roundup size pageSize⟩) ?_ ?_
      · exact hspare
      · rw [hi.started_taken]

/-- A free block that takes the place of the released one keeps its own descriptor. -/
theorem ShareOut.absorb {n : Nat} {free free' taken taken' : List BlockInfo} {spare : List Nat}
    (hs : ShareOut n free taken spare) (htaken : taken.Perm (take :: taken'))
    (hids : ids free' = ids free) : ShareOut n free' taken' (take.id :: spare) := by
  refine shareOut_of_count fun a => ?_
  have hc := hs.count a
  have ht := (ids_perm htaken).count_eq a
  rw [ids_cons, List.count_cons] at ht
  rw [hids, List.count_cons]
  omega

theorem ShareOut.coalescingUser {n : Nat} {taken : List BlockInfo}
    (hs : ShareOut n h.blockInfoFreeListUser taken h.freeBlocksUser)
    (htaken : taken.Perm (take :: h.blockInfoTakenListUser)) (hc : h.coalescing take = some h') :
    ShareOut n h'.blockInfoFreeListUser h'.blockInfoTakenListUser h'.freeBlocksUser ∧
      h'.firstTime = h.firstTime := by
  have hinsert : (insertSortedUser h.blockInfoFreeListUser take).map (h.joined · []) = some h' →
      ShareOut n h'.blockInfoFreeListUser h'.blockInfoTakenListUser h'.freeBlocksUser ∧
        h'.firstTime = h.firstTime := by
    intro hm
    obtain ⟨free, hfree, rfl⟩ := Option.map_eq_some_iff.1 hm
    exact ⟨hs.insert htaken hfree, rfl⟩
  unfold UHeap.coalescing at hc
  dsimp only at hc
  cases hhead : h.blockInfoFreeListUser.head? with
  | none =>
    rw [hhead] at hc
    cases hc
  | some str =>
    cases hlast : h.blockInfoFreeListUser.getLast? with
    | none =>
      rw [hhead, hlast] at hc
      cases hc
    | some last =>
      rw [hhead, hlast] at hc
      dsimp only at hc
      split at hc
      case isTrue =>
        -- the block below the first free one
        cases hc
        obtain ⟨ys, hys⟩ := List.head?_eq_some_iff.1 hhead
        refine ⟨hs.absorb htaken ?_, rfl⟩
        rw [hys]
        rfl
      case isFalse =>
        split at hc
        case isTrue =>
          split at hc
          case isTrue =>
            -- the block above the last free one
            cases hc
            obtain ⟨ys, hys⟩ := List.getLast?_eq_some_iff.1 hlast
            refine ⟨hs.absorb htaken ?_, rfl⟩
            rw [UHeap.joined, hys, List.dropLast_concat]
            simp
          case isFalse => exact hinsert hc
        case isFalse =>
          split at hc
          case h_1 free out hjoin =>
            cases hc
            rw [← List.takeWhile_append_dropWhile (p := fun curr : BlockInfo =>
              decide (curr.startVa < take.startVa)) (l := h.blockInfoFreeListUser)] at hs
            exact ⟨hs.join htaken hjoin, rfl⟩
          case h_2 => exact hinsert hc

theorem UHeap.SharesOut.free (hi : h.SharesOut) (hc : Fos.free va h = .ok () h') :
    h'.SharesOut := by
  rw [Fos.free, Prog.get_bind_apply] at hc
  cases hfirst : firstWhere (fun bi => decide (bi.startVa = va)) h.blockInfoTakenListUser with
  | none =>
    rw [hfirst] at hc
    obtain ⟨-, rfl⟩ := ok_inj.1 hc
    exact hi
  | some bi =>
    have hlist := (firstWhere_some hfirst).1
    rw [hfirst] at hc
    dsimp only at hc
    cases hco : ({ h with blockInfoTakenListUser := bi.removed } : UHeap).coalescing bi.elem with
    | none =>
      rw [hco] at hc
      cases hc
    | some h₁ =>
      rw [hco] at hc
      obtain ⟨-, rfl⟩ := ok_inj.1 hc
      -- a block can be taken only after the first allocation
      have hf : h.firstTime = false := by
        by_contra hne
        have hnil := hi.fresh (by simpa using hne)
        rw [hnil, Place.list] at hlist
        exact absurd hlist.symm (by simp)
      have htaken : h.blockInfoTakenListUser.Perm (bi.elem :: bi.removed) := by
        rw [hlist]
        exact List.perm_middle
      obtain ⟨hs, hf'⟩ :=
        ShareOut.coalescingUser (h := { h with blockInfoTakenListUser := bi.removed })
        (hi.partitioned hf) htaken hco
      refine ⟨fun ht => ?_, fun _ => hs⟩
      rw [hf'] at ht
      exact absurd (ht.symm.trans hf) (by decide)

/-- A reservation and what is answered to it. -/
theorem UHeap.SharesOut.reserve (hi : h.SharesOut) {answer : Nat → Int}
    (hc : (do
      let result ← Fos.firstFitUser size
      if result ≠ 0 ∧ answer result ≥ 0 then return result else return 0 : U Nat) h = .ok va h') :
    h'.SharesOut := by
  obtain ⟨result, h₁, hfirst, hc⟩ := bind_eq_ok.1 hc
  have hi₁ := hi.firstFitUser hfirst
  rw [Prog.ite_run] at hc
  split at hc
  all_goals
    obtain ⟨-, rfl⟩ := ok_inj.1 hc
    exact hi₁

theorem UserCall.sharesOut {c : UserCall} (hi : h.SharesOut) (hc : c.run h = .ok va h') :
    h'.SharesOut := by
  cases c with
  | malloc size => exact hi.firstFitUser hc
  | smalloc sys name size isWritable =>
    rw [run, Fos.smalloc, Prog.ite_run] at hc
    split at hc
    case isTrue => exact hi.reserve hc
    case isFalse =>
      obtain ⟨-, rfl⟩ := ok_inj.1 hc
      exact hi
  | sget sys owner name =>
    rw [run, Fos.sget, Prog.ite_run] at hc
    split at hc
    case isTrue => exact hi.reserve hc
    case isFalse =>
      obtain ⟨-, rfl⟩ := ok_inj.1 hc
      exact hi
  | free start =>
    obtain ⟨_, h₁, hfree, hc⟩ := bind_eq_ok.1 hc
    obtain ⟨-, rfl⟩ := ok_inj.1 hc
    exact hi.free hfree
  | sfree start =>
    obtain ⟨-, rfl⟩ := ok_inj.1 hc
    exact hi

theorem UHeap.sharesOut_run (hrun : ReflTransGen UserHeapStep UHeap.initial h) : h.SharesOut := by
  refine Prog.invariant (I := UHeap.SharesOut) ⟨fun _ => rfl, fun hf => ?_⟩ ?_ hrun
  · cases hf
  · rintro x y hi ⟨c, va, hc⟩
    exact c.sharesOut hi hc

/-! ## Requests -/

/-- What is done with a reservation does not panic. -/
theorem reserve_panics {answer : Nat → Int} : (∀ t, (do
      let result ← firstFitUser size
      if result ≠ 0 ∧ answer result ≥ 0 then return result else return 0 : U Nat) h ≠
        .error (.panic "Error no free blocks !!!!") t) ↔
    ∀ t, firstFitUser size h ≠ .error (.panic "Error no free blocks !!!!") t := by
  cases hc : firstFitUser size h with
  | ok result h₁ =>
    refine iff_of_true (fun t ht => ?_) (fun t ht => by cases ht)
    rw [Prog.bind_of_ok hc, Prog.ite_run] at ht
    split at ht
    all_goals cases ht
  | error e h₁ =>
    rw [Prog.bind_run, hc]

theorem firstFitUser_roundup (size : Nat) :
    firstFitUser (roundup size pageSize) = firstFitUser size := by
  unfold firstFitUser
  simp only [firstFit_roundup, roundup_roundup]

/-- A call panics when its reservation does. -/
theorem UserCall.run_panics {c : UserCall} (hasks : c.Asks) :
    (∀ t, c.run h ≠ .error (.panic "Error no free blocks !!!!") t) ↔
      ∀ t, Fos.firstFitUser c.size h ≠ .error (.panic "Error no free blocks !!!!") t := by
  cases c with
  | malloc size =>
    rw [run, Fos.malloc, firstFitUser_roundup]
    exact Iff.rfl
  | smalloc sys name size isWritable =>
    have hfirst : sys.isFirstFit := hasks
    rw [run, Fos.smalloc, Prog.ite_run, if_pos hfirst, reserve_panics, firstFitUser_roundup]
    exact Iff.rfl
  | sget sys owner name =>
    have hknown : sys.isFirstFit ∧
        sys.getSizeOfSharedObject owner name ≠ eSharedMemNotExists := hasks
    rw [run, Fos.sget, Prog.ite_run, if_pos hknown, reserve_panics]
    exact Iff.rfl
  | free _ => cases hasks
  | sfree _ => cases hasks

/-- A gap that is large enough is found. -/
theorem UHeap.Partition.gap (hp : h.Partition) {b : BlockInfo} (hb : b ∈ h.freeList)
    (hsize : size ≤ b.size) : ∃ found, firstFit h.freeList size = some found := by
  obtain ⟨-, halign, -, hend⟩ := hp.part.wf b (List.mem_append_left _ hb)
  have hmax := userHeapMax_lt
  have hfit : roundup size pageSize ≤ b.size := by
    unfold roundup rounddown u32 pageSize
    omega
  cases hfound : firstFit h.freeList size with
  | some found => exact ⟨found, rfl⟩
  | none =>
    have hno := firstWhere_none.1 hfound b hb
    simp only [ge_iff_le, decide_eq_false_iff_not] at hno
    exact absurd hfit hno

theorem UHeap.partition_run (hrun : ReflTransGen UserHeapStep UHeap.initial h) : h.Partition := by
  refine Prog.invariant (I := UHeap.Partition) UHeap.partition_initial ?_ hrun
  rintro x y hp ⟨c, va, hc⟩
  exact (UserCall.spec hp rfl hc).part

/-- **When a process has a descriptor left.** In every state of a run the lists partition the array,
and a request for which there is room panics exactly when all descriptors are in use and the gap it
takes is larger than the request. -/
theorem userDescriptors_iff (hrun : ReflTransGen UserHeapStep UHeap.initial h) {c : UserCall}
    (hasks : c.Asks) (hgap : ∃ b ∈ h.freeList, c.size ≤ b.size) :
    (h.Partitioned ∧ ∀ t, c.run h ≠ .error (.panic "Error no free blocks !!!!") t) ↔
      h.HasDescriptor c.size := by
  have hi := UHeap.sharesOut_run hrun
  obtain ⟨b, hb, hsize⟩ := hgap
  obtain ⟨found, hfound⟩ := (UHeap.partition_run hrun).gap hb hsize
  rw [and_iff_right hi.partitioned, c.run_panics hasks, firstFitUser_panics hfound,
    hi.hasDescriptor hfound]

end

/-- A request in a heap with two gaps and a block between them. -/
theorem userDescriptors_joined : userJoined.freeList.length = 2 ∧ userJoined.Partitioned ∧
    ∀ t, (UserCall.malloc 10000).run userJoined ≠ .error (.panic "Error no free blocks !!!!") t := by
  obtain ⟨h₁, h₂, h₃, h₄, h₅, -⟩ := userAttached_values
  have hfree : ∀ {va x}, Prog.value (free va x) = some () →
      UserHeapStep x (Prog.final (free va x)) := fun h =>
        ⟨.free _, 0, Prog.bind_of_ok (Prog.ok_of_value h)⟩
  have hrun₃ : ReflTransGen UserHeapStep UHeap.initial userShared :=
    .tail (.tail (.tail .refl ⟨.malloc 5000, _, Prog.ok_of_value h₁⟩)
      ⟨.malloc 4096, _, Prog.ok_of_value h₂⟩)
      ⟨.smalloc sharingSys [120] 4096 1, _, Prog.ok_of_value h₃⟩
  have hrun₅ : ReflTransGen UserHeapStep UHeap.initial userJoined :=
    .tail (.tail hrun₃ (hfree h₄)) (hfree h₅)
  have hgap : (∃ b ∈ userJoined.freeList, 10000 ≤ b.size) ∧ userJoined.freeList.length = 2 ∧
      userJoined.inUse < maxNumberOfBlocksUser := by decide +kernel
  exact ⟨hgap.2.1,
    (userDescriptors_iff (c := .malloc 10000) hrun₅ trivial hgap.1).2 (.inl hgap.2.2)⟩

/-! ## A run that uses them up -/

/-- The blocks of `n` pages, allocated one by one. -/
def pageBlocks : Nat → List BlockInfo
  | 0 => []
  | n + 1 => ⟨99998 - n, userHeapStart + 4096 * n, 4096⟩ :: pageBlocks n

/-- The heap with `n` pages taken. -/
def pagesTaken (n : Nat) : UHeap :=
  ⟨false, [⟨99999, userHeapStart + 4096 * n, 1073741824 - 4096 * n⟩], pageBlocks n,
    insertHeads 0 (99999 - n) []⟩

theorem malloc_page {h : UHeap} {n : Nat} (hs : h.started = pagesTaken n) (hn : n < 99999) :
    malloc 4096 h = .ok (userHeapStart + 4096 * n) (pagesTaken (n + 1)) := by
  have hfree : h.freeList = [⟨99999, userHeapStart + 4096 * n, 1073741824 - 4096 * n⟩] := by
    rw [← h.started_freeList, hs]
    rfl
  have hround : roundup 4096 pageSize = 4096 := by
    unfold roundup rounddown u32 pageSize
    rfl
  have hfound : firstFit h.freeList 4096 =
      some ⟨[], ⟨99999, userHeapStart + 4096 * n, 1073741824 - 4096 * n⟩, []⟩ := by
    rw [hfree, firstFit, hround, firstWhere, if_pos (by simp; omega)]
  have hstart : userHeapStart = 2147483648 := rfl
  have hu : u32 (userHeapStart + 4096 * n + 4096) = userHeapStart + 4096 * (n + 1) := by
    rw [u32_of_lt (by omega)]
    omega
  have hsize : 1073741824 - 4096 * n - 4096 = 1073741824 - 4096 * (n + 1) := by omega
  have hspare : h.spare ⟨[], ⟨99999, userHeapStart + 4096 * n, 1073741824 - 4096 * n⟩, []⟩ 4096 =
      (99998 - n) :: insertHeads 0 (99999 - (n + 1)) [] := by
    have hlist : insertHeads 0 (99999 - n) [] = (99998 - n) :: insertHeads 0 (99999 - (n + 1)) [] := by
      have hid : 0 + (99999 - (n + 1)) = 99998 - n := by omega
      rw [show 99999 - n = 99999 - (n + 1) + 1 by omega, insertHeads_succ, hid]
    have hrest : (pagesTaken n).freeBlocksUser = insertHeads 0 (99999 - n) [] := rfl
    have hleft :
        (BlockInfo.carved ⟨99999, userHeapStart + 4096 * n, 1073741824 - 4096 * n⟩ 4096).size ≠ 0 := by
      simp only [BlockInfo.carved]
      omega
    rw [UHeap.spare, hs, UHeap.carve]
    dsimp only
    rw [hround, if_neg hleft, hrest, hlist]
  have hcarved : Place.carved ⟨[], ⟨99999, userHeapStart + 4096 * n, 1073741824 - 4096 * n⟩, []⟩ 4096 =
      [⟨99999, userHeapStart + 4096 * (n + 1), 1073741824 - 4096 * (n + 1)⟩] := by
    unfold Place.carved
    simp only [BlockInfo.carved, hu, hsize]
    rw [if_neg (by omega)]
    rfl
  rw [malloc, firstFitUser_roundup, firstFitUser_cons hfound hspare, hround, hs,
    UHeap.carve, hcarved]
  rfl

/-- After 99999 pages every descriptor is in use, and there is room for 162145 more. -/
theorem userDescriptors_runOut : ¬ ∀ h, ReflTransGen UserHeapStep UHeap.initial h →
    ∀ c : UserCall, c.Asks → (∃ b ∈ h.freeList, c.size ≤ b.size) →
    h.Partitioned ∧ ∀ t, c.run h ≠ .error (.panic "Error no free blocks !!!!") t := by
  intro hall
  have hpages : ∀ n ≤ 99999, ∃ h, h.started = pagesTaken n ∧
      ReflTransGen UserHeapStep UHeap.initial h := by
    intro n
    induction n with
    | zero => exact fun _ => ⟨UHeap.initial, rfl, .refl⟩
    | succ n ih =>
      intro hn
      obtain ⟨h, hs, hrun⟩ := ih (Nat.le_of_succ_le hn)
      exact ⟨pagesTaken (n + 1), rfl, hrun.tail ⟨.malloc 4096, _, malloc_page hs hn⟩⟩
  obtain ⟨h, hs, hrun⟩ := hpages 99999 (Nat.le_refl _)
  have hfree : h.freeList = [⟨99999, userHeapStart + 4096 * 99999, 1073741824 - 4096 * 99999⟩] := by
    rw [← h.started_freeList, hs]
    rfl
  have hi := UHeap.sharesOut_run hrun
  have hlen := hi.length
  have hnil : h.started.freeBlocksUser = [] := by
    rw [hs]
    rfl
  have hgap : ∃ b ∈ h.freeList, 1 ≤ b.size := by
    rw [hfree]
    exact ⟨_, List.mem_singleton.2 rfl, by decide⟩
  have hno := hall h hrun (.malloc 1) trivial hgap
  have hbad : h.HasDescriptor 1 := by
    obtain ⟨b, hb, hsize⟩ := hgap
    obtain ⟨found, hfound⟩ := (UHeap.partition_run hrun).gap hb hsize
    rw [← hi.hasDescriptor hfound, ← firstFitUser_panics hfound]
    exact (UserCall.run_panics (c := .malloc 1) trivial).1 hno.2
  rcases hbad with hlt | ⟨found, hfound, he⟩
  · rw [hnil, List.length_nil, Nat.add_zero] at hlen
    omega
  · have hlist := (firstWhere_some hfound).1
    rw [hfree] at hlist
    have hmem : found.elem ∈ found.list := by simp [Place.list]
    rw [← hlist, List.mem_singleton] at hmem
    rw [hmem] at he
    exact absurd he (by decide +kernel)

end Fos
