import Fos.UserHeap

/-!
# What the user heap accounts for

Runs of the library calls of one process, with the ranges that were returned and not yet released
kept beside the block lists. The two agree as long as the kernel refuses no shared object after its
range was reserved and `sfree` is given no live start: `smalloc` and `sget` do not give back what
they reserved, and `sfree` does not give back anything.
-/

namespace Fos

open Cover (mult range)
open Prog (bind_eq_ok ok_inj final value ok_of_value)

/-! ## The free space -/

/-- The free blocks as the next search will see them: before the first call the whole heap. -/
def UHeap.freeList (h : UHeap) : List BlockInfo :=
  if h.firstTime then [⟨maxNumberOfBlocksUser - 1, userHeapStart, userHeapMax - userHeapStart⟩]
  else h.blockInfoFreeListUser

/-- The addresses that the free blocks describe. -/
def UHeap.freeSpace (h : UHeap) : Set Nat := {a | ∃ b ∈ h.freeList, a ∈ b.addrs}

theorem userHeapMax_lt : userHeapMax < 4294967296 := by decide

/-- The blocks of the two lists tile the user heap. -/
structure UHeap.Partition (h : UHeap) : Prop where
  fresh : h.firstTime = true → h.blockInfoTakenListUser = []
  part : BlockPartition userHeapStart userHeapMax h.freeList h.blockInfoTakenListUser

theorem freeList_started {h : UHeap} (hf : h.firstTime = false) :
    h.freeList = h.blockInfoFreeListUser := if_neg (by simp [hf])

theorem UHeap.Partition.of_started {h : UHeap} (hf : h.firstTime = false)
    (hp : BlockPartition userHeapStart userHeapMax h.freeList h.blockInfoTakenListUser) :
    h.Partition where
  fresh ht := absurd ht (by simp [hf])
  part := hp

theorem UHeap.partition_initial : UHeap.initial.Partition := by
  refine ⟨fun _ => rfl, ⟨?_, List.pairwise_singleton _ _, fun a => ?_⟩⟩
  · intro b hb
    cases List.mem_singleton.1 hb
    exact ⟨by decide, by decide, by decide, by decide⟩
  · change userHeapStart ≤ a ∧ a < userHeapMax ↔ ∃ b ∈ [_], a ∈ BlockInfo.addrs b
    simp only [List.mem_singleton, exists_eq_left, BlockInfo.addrs, Cover.mem_range]
    unfold userHeapStart userHeapMax
    omega

/-! ## What a call did -/

section

variable {h h' : UHeap} {va size : Nat}

theorem allocateBlock_ok {id : Nat} (hc : allocateBlock h = .ok id h') :
    ∃ rest, h.freeBlocksUser = id :: rest ∧ h' = { h with freeBlocksUser := rest } := by
  rw [allocateBlock, Prog.get_bind_apply] at hc
  cases hl : h.freeBlocksUser with
  | nil => rw [hl] at hc; cases hc
  | cons id' rest =>
    rw [hl] at hc
    cases hc
    exact ⟨rest, rfl, rfl⟩

/-- After the first part of `first_fit_user` the free list is what the search sees. -/
theorem initializeUserHeap_ok (hfresh : h.firstTime = true → h.blockInfoTakenListUser = [])
    (hc : initializeUserHeap h = .ok () h') :
    h'.firstTime = false ∧ h'.blockInfoFreeListUser = h.freeList ∧
      h'.blockInfoTakenListUser = h.blockInfoTakenListUser := by
  rw [initializeUserHeap, Prog.get_bind_apply, Prog.ite_run] at hc
  unfold UHeap.freeList
  by_cases hf : h.firstTime = true
  · rw [if_pos hf, Prog.modify_bind_apply] at hc
    obtain ⟨ptr, h₁, halloc, hc⟩ := bind_eq_ok.1 hc
    obtain ⟨rest, hrest, rfl⟩ := allocateBlock_ok halloc
    obtain ⟨-, rfl⟩ := ok_inj.1 hc
    rw [maxNumberOfBlocksUser, insertHeads_succ] at hrest
    rw [if_pos hf, hfresh hf, ← (List.cons.inj hrest).1]
    exact ⟨rfl, rfl, rfl⟩
  · rw [if_neg hf] at hc
    obtain ⟨-, rfl⟩ := ok_inj.1 hc
    rw [if_neg hf]
    exact ⟨by simpa using hf, rfl, rfl⟩

/-- What `first_fit_user` did: no free block was large enough, or the front of the first one that
was is now a taken block. -/
inductive UHeap.Reserved (h h' : UHeap) (size : Nat) : Nat → Prop
  | none (hnone : firstFit h.freeList size = .none) (hfree : h'.freeList = h.freeList)
      (htaken : h'.blockInfoTakenListUser = h.blockInfoTakenListUser) : Reserved h h' size 0
  | some (found : Place BlockInfo) (id : Nat) (hsome : firstFit h.freeList size = .some found)
      (hfree : h'.freeList = found.carved (roundup size pageSize))
      (htaken : h'.blockInfoTakenListUser =
        ⟨id, found.elem.startVa, roundup size pageSize⟩ :: h.blockInfoTakenListUser) :
      Reserved h h' size found.elem.startVa

theorem firstFitUser_ok (hfresh : h.firstTime = true → h.blockInfoTakenListUser = [])
    (hc : firstFitUser size h = .ok va h') :
    h'.firstTime = false ∧ UHeap.Reserved h h' size va := by
  obtain ⟨_, h₁, hinit, hc⟩ := bind_eq_ok.1 hc
  obtain ⟨hf, hfree, htaken⟩ := initializeUserHeap_ok hfresh hinit
  rw [Prog.get_bind_apply, hfree] at hc
  cases hfit : firstFit h.freeList size with
  | none =>
    rw [hfit] at hc
    obtain ⟨rfl, rfl⟩ := ok_inj.1 hc
    exact ⟨hf, .none hfit (by rw [freeList_started hf, hfree]) htaken⟩
  | some found =>
    rw [hfit] at hc
    replace hc : (set _ >>= _ : U Nat) h₁ = _ := hc
    rw [Prog.set_bind_apply] at hc
    obtain ⟨ptr, h₂, halloc, hc⟩ := bind_eq_ok.1 hc
    obtain ⟨rest, -, rfl⟩ := allocateBlock_ok halloc
    obtain ⟨rfl, rfl⟩ := ok_inj.1 hc
    refine ⟨hf, .some found ptr hfit ?_ ?_⟩
    · exact freeList_started hf
    · rw [← htaken]
      rfl

theorem coalescingUser_cases {take : BlockInfo} (hc : h.coalescing take = some h') :
    (∃ X Y m, Joined h.blockInfoFreeListUser h'.blockInfoFreeListUser take X Y m) ∧
      h'.blockInfoTakenListUser = h.blockInfoTakenListUser ∧ h'.firstTime = h.firstTime := by
  have hinsert : (insertSortedUser h.blockInfoFreeListUser take).map (h.joined · []) = some h' →
      (∃ X Y m, Joined h.blockInfoFreeListUser h'.blockInfoFreeListUser take X Y m) ∧
        h'.blockInfoTakenListUser = h.blockInfoTakenListUser ∧ h'.firstTime = h.firstTime := by
    intro hm
    obtain ⟨free, hfree, rfl⟩ := Option.map_eq_some_iff.1 hm
    exact ⟨⟨_, _, _, .of_insertSorted hfree⟩, rfl, rfl⟩
  unfold UHeap.coalescing at hc
  dsimp only at hc
  cases hhead : h.blockInfoFreeListUser.head? with
  | none => rw [hhead] at hc; cases hc
  | some str =>
    cases hlast : h.blockInfoFreeListUser.getLast? with
    | none => rw [hhead, hlast] at hc; cases hc
    | some last =>
      rw [hhead, hlast] at hc
      dsimp only at hc
      split at hc
      case isTrue hadj =>
        -- the block below the first free one
        cases hc
        obtain ⟨ys, hys⟩ := List.head?_eq_some_iff.1 hhead
        refine ⟨⟨[str], ys, _, by rw [hys]; exact .refl _, .nex hadj.2, ?_⟩, rfl, rfl⟩
        rw [UHeap.joined, hys]
        exact .refl _
      case isFalse =>
        split at hc
        case isTrue =>
          split at hc
          case isTrue hadj =>
            -- the block above the last free one
            cases hc
            obtain ⟨ys, hys⟩ := List.getLast?_eq_some_iff.1 hlast
            refine ⟨⟨[last], ys, _, ?_, .pre hadj, ?_⟩, rfl, rfl⟩
            · rw [hys]
              exact List.perm_append_singleton _ _
            · rw [UHeap.joined, hys, List.dropLast_concat]
              exact List.perm_append_singleton _ _
          case isFalse => exact hinsert hc
        case isFalse =>
          split at hc
          case h_1 free ids hjoin =>
            cases hc
            have hj := joinBetween_some hjoin
            rw [List.takeWhile_append_dropWhile] at hj
            exact ⟨hj, rfl, rfl⟩
          case h_2 => exact hinsert hc

/-- A call of `free` that returned: nothing starts at the address, or the first block that does
joined the free ones. -/
theorem free_ok (hc : free va h = .ok () h') :
    ((∀ b ∈ h.blockInfoTakenListUser, b.startVa ≠ va) ∧ h' = h) ∨
      ∃ bi : Place BlockInfo, h.blockInfoTakenListUser = bi.list ∧ bi.elem.startVa = va ∧
        (∀ b ∈ bi.before, b.startVa ≠ va) ∧ h'.blockInfoTakenListUser = bi.removed ∧
        h'.firstTime = h.firstTime ∧
        ∃ X Y m, Joined h.blockInfoFreeListUser h'.blockInfoFreeListUser bi.elem X Y m := by
  rw [free, Prog.get_bind_apply] at hc
  cases hfirst : firstWhere (fun bi => decide (bi.startVa = va)) h.blockInfoTakenListUser with
  | none =>
    rw [hfirst] at hc
    obtain ⟨-, rfl⟩ := ok_inj.1 hc
    exact .inl ⟨by simpa using firstWhere_none.1 hfirst, rfl⟩
  | some bi =>
    obtain ⟨hlist, hstart, hbefore⟩ := firstWhere_some hfirst
    rw [hfirst] at hc
    dsimp only at hc
    cases hco : ({ h with blockInfoTakenListUser := bi.removed } : UHeap).coalescing bi.elem with
    | none => rw [hco] at hc; cases hc
    | some h₁ =>
      rw [hco] at hc
      obtain ⟨-, rfl⟩ := ok_inj.1 hc
      obtain ⟨hj, htaken, hf⟩ := coalescingUser_cases hco
      exact .inr ⟨bi, hlist, by simpa using hstart, by simpa using hbefore, htaken, hf, hj⟩

/-! ## The partition -/

theorem UHeap.Partition.reserved (hp : h.Partition) (hf : h'.firstTime = false)
    (hr : UHeap.Reserved h h' size va) : h'.Partition := by
  cases hr with
  | none hnone hfree htaken =>
    refine .of_started hf ?_
    rw [hfree, htaken]
    exact hp.part
  | some found id hsome hfree htaken =>
    obtain ⟨hlist, hfit, -⟩ := firstWhere_some hsome
    refine .of_started hf ?_
    rw [hfree, htaken]
    exact hp.part.allocate (b := ⟨id, found.elem.startVa, roundup size pageSize⟩) userHeapMax_lt
      hlist rfl (roundup_mod size) (by simpa using hfit) (.refl _)

theorem UHeap.Partition.free (hp : h.Partition) (hc : Fos.free va h = .ok () h') :
    h'.Partition := by
  rcases free_ok hc with ⟨-, rfl⟩ | ⟨bi, hlist, -, -, htaken, hf, X, Y, m, hj⟩
  · exact hp
  · -- a taken block is there, so the first call is over
    have hfirst : h.firstTime = false := by
      by_contra hne
      have := hp.fresh (by simpa using hne)
      rw [hlist] at this
      simp [Place.list] at this
    rw [hfirst] at hf
    refine .of_started hf ?_
    have hpart := hp.part
    rw [freeList_started hfirst, hlist] at hpart
    rw [freeList_started hf, htaken]
    exact hpart.release userHeapMax_lt List.perm_middle hj

end

/-! ## Runs -/

/-- The library calls, with what the kernel answers to them. -/
inductive UserCall
  | malloc (size : Nat)
  | smalloc (sys : Sys) (sharedVarName : List UInt8) (size isWritable : Nat)
  | sget (sys : Sys) (ownerEnvID : Int) (sharedVarName : List UInt8)
  | free (va : Nat)
  | sfree (va : Nat)

/-- The call, with the address it returned or 0. -/
def UserCall.run : UserCall → U Nat
  | .malloc size => Fos.malloc size
  | .smalloc sys name size isWritable => Fos.smalloc sys name size isWritable
  | .sget sys owner name => Fos.sget sys owner name
  | .free va => do Fos.free va; return 0
  | .sfree va => do Fos.sfree va; return 0

/-- `malloc`, `smalloc` and `sget`. -/
def UserCall.Allocates : UserCall → Prop
  | .malloc _ | .smalloc .. | .sget .. => True
  | .free _ | .sfree _ => False

/-- The live ranges after `size` bytes were asked for and `va` was returned. -/
def returned (live : List Allocation) (va size : Nat) : List Allocation :=
  if va = 0 then live else ⟨va, roundup size pageSize⟩ :: live

/-- The ranges returned and not yet released, the latest first, after a call that returned `va`. -/
def UserCall.record : UserCall → Nat → List Allocation → List Allocation
  | .malloc size, va, live | .smalloc _ _ size _, va, live => returned live va size
  | .sget sys owner name, va, live =>
    returned live va (toU32 (sys.getSizeOfSharedObject owner name))
  | .free start, _, live | .sfree start, _, live => live.eraseP fun r => r.start = start

/-- One call of a run. -/
structure Event where
  before : UHeap × List Allocation
  call : UserCall
  result : Nat
  after : UHeap × List Allocation

/-- A run of a process, the latest call first, and what it leaves. -/
inductive UserRun : List Event → UHeap × List Allocation → Prop
  | start : UserRun [] (UHeap.initial, [])
  | call {events : List Event} {h h' : UHeap} {live : List Allocation} {va : Nat} (c : UserCall)
      (hrun : UserRun events (h, live)) (hcall : c.run h = .ok va h') :
      UserRun (⟨(h, live), c, va, (h', c.record va live)⟩ :: events) (h', c.record va live)

/-- The block lists account for a call: the taken blocks are the live ranges and the free blocks
the rest of the heap, a null result left both lists describing the same space, and what `sfree`
was given is free. -/
structure Event.Sound (e : Event) : Prop where
  taken : e.after.1.blockInfoTakenListUser.map BlockInfo.allocation = e.after.2
  free : ∀ a, a ∈ e.after.1.freeSpace ↔
    (userHeapStart ≤ a ∧ a < userHeapMax) ∧ ∀ r ∈ e.after.2, a ∉ range r.start r.size
  null : e.call.Allocates → e.result = 0 → e.after.1.freeSpace = e.before.1.freeSpace ∧
    e.after.1.blockInfoTakenListUser = e.before.1.blockInfoTakenListUser
  sfree : ∀ va, e.call = .sfree va → ∀ r ∈ e.before.2, r.start = va →
    range r.start r.size ⊆ e.after.1.freeSpace

/-- The condition on a call: the kernel accepts the shared object at the range that the search
finds for it, and `sfree` is not given the start of a live range. -/
def UserCall.Clean : UserCall → UHeap × List Allocation → Prop
  | .smalloc sys name size isWritable, (h, _) => sys.isFirstFit →
    ∀ found ∈ firstFit h.freeList size,
      0 ≤ sys.createSharedObject name (roundup size pageSize) isWritable found.elem.startVa
  | .sget sys owner name, (h, _) => sys.isFirstFit →
    sys.getSizeOfSharedObject owner name ≠ eSharedMemNotExists →
    ∀ found ∈ firstFit h.freeList (toU32 (sys.getSizeOfSharedObject owner name)),
      0 ≤ sys.getSharedObject owner name found.elem.startVa
  | .sfree va, (_, live) => ∀ r ∈ live, r.start ≠ va
  | _, _ => True

/-! ## One call -/

section

variable {h h' : UHeap} {live : List Allocation} {va size : Nat}

/-- A block found by the search does not start at the null address. -/
theorem UHeap.Partition.start_ne_zero (hp : h.Partition) {found : Place BlockInfo}
    (hf : firstFit h.freeList size = some found) : found.elem.startVa ≠ 0 := by
  have := (hp.part.found_within (firstWhere_some hf).1).start_le
  unfold userHeapStart at this
  omega

/-- A successful search enters exactly the range it returns. -/
theorem UHeap.Reserved.taken (hp : h.Partition) (hr : UHeap.Reserved h h' size va)
    (hlive : h.blockInfoTakenListUser.map BlockInfo.allocation = live) :
    h'.blockInfoTakenListUser.map BlockInfo.allocation = returned live va size := by
  cases hr with
  | none hnone hfree htaken => rw [htaken, hlive, returned, if_pos rfl]
  | some found id hsome hfree htaken =>
    rw [htaken, List.map_cons, hlive, returned, if_neg (hp.start_ne_zero hsome)]
    rfl

/-- `smalloc` and `sget` after their checks: the reserved range stays taken when the kernel's
answer is negative. -/
theorem reserve_spec (hp : h.Partition)
    (hlive : h.blockInfoTakenListUser.map BlockInfo.allocation = live) {answer : Nat → Int}
    (hc : (do
      let result ← firstFitUser size
      if result ≠ 0 ∧ answer result ≥ 0 then return result else return 0 : U Nat) h = .ok va h') :
    h'.Partition ∧
      (h'.blockInfoTakenListUser.map BlockInfo.allocation = returned live va size ↔
        ∀ found ∈ firstFit h.freeList size, 0 ≤ answer found.elem.startVa) ∧
      ((∀ found ∈ firstFit h.freeList size, 0 ≤ answer found.elem.startVa) → va = 0 →
        h'.freeList = h.freeList ∧ h'.blockInfoTakenListUser = h.blockInfoTakenListUser) := by
  obtain ⟨result, h₁, hfit, hc⟩ := bind_eq_ok.1 hc
  obtain ⟨hf, hr⟩ := firstFitUser_ok hp.fresh hfit
  have hp' := hp.reserved hf hr
  have htaken := hr.taken hp hlive
  rw [Prog.ite_run] at hc
  cases hr with
  | none hnone hfree htaken' =>
    rw [if_neg (by simp)] at hc
    obtain ⟨rfl, rfl⟩ := ok_inj.1 hc
    rw [hnone]
    exact ⟨hp', ⟨by simp, fun _ => htaken⟩, fun _ _ => ⟨hfree, htaken'⟩⟩
  | some found id hsome hfree htaken' =>
    have hne := hp.start_ne_zero hsome
    have hall : (∀ f ∈ firstFit h.freeList size, 0 ≤ answer f.elem.startVa) ↔
        0 ≤ answer found.elem.startVa := by
      rw [hsome]
      exact ⟨fun hall => hall found rfl, fun h0 f hmem => by cases hmem; exact h0⟩
    rw [hall]
    by_cases hans : 0 ≤ answer found.elem.startVa
    · rw [if_pos ⟨hne, hans⟩] at hc
      obtain ⟨rfl, rfl⟩ := ok_inj.1 hc
      exact ⟨hp', ⟨fun _ => hans, fun _ => htaken⟩, fun _ h0 => absurd h0 hne⟩
    · rw [if_neg (fun hcond => hans hcond.2)] at hc
      obtain ⟨rfl, rfl⟩ := ok_inj.1 hc
      refine ⟨hp', ⟨fun heq => ?_, fun h0 => absurd h0 hans⟩, fun h0 => absurd h0 hans⟩
      -- the block is there, but no range was returned
      rw [htaken', List.map_cons, hlive, returned, if_pos rfl] at heq
      exact absurd (congrArg List.length heq) (by simp)

theorem firstFit_roundup (l : List BlockInfo) (size : Nat) :
    firstFit l (roundup size pageSize) = firstFit l size := by
  unfold firstFit
  rw [roundup_roundup]

theorem returned_roundup (live : List Allocation) (va size : Nat) :
    returned live va (roundup size pageSize) = returned live va size := by
  unfold returned
  rw [roundup_roundup]

/-- Removing the first block that starts at an address removes its range from the ledger. -/
theorem eraseP_place {bi : Place BlockInfo} (hstart : bi.elem.startVa = va)
    (hbefore : ∀ b ∈ bi.before, b.startVa ≠ va) :
    (bi.list.map BlockInfo.allocation).eraseP (fun r => r.start = va) =
      bi.removed.map BlockInfo.allocation := by
  rw [Place.list, Place.removed, List.map_append, List.map_append, List.map_cons,
    List.eraseP_append_right, List.eraseP_cons_of_pos]
  · exact decide_eq_true hstart
  · intro r hr
    obtain ⟨b, hb, rfl⟩ := List.mem_map.1 hr
    exact fun h => hbefore b hb (of_decide_eq_true h)

/-- What one call does to the accounts: the blocks stay a partition, the taken ones are the live
ranges afterwards exactly when the call met its condition, and then a null result changed nothing.
-/
structure CallSpec (c : UserCall) (h : UHeap) (live : List Allocation) (va : Nat) (h' : UHeap) :
    Prop where
  part : h'.Partition
  taken_iff : h'.blockInfoTakenListUser.map BlockInfo.allocation = c.record va live ↔
    c.Clean (h, live)
  null : c.Allocates → c.Clean (h, live) → va = 0 →
    h'.freeList = h.freeList ∧ h'.blockInfoTakenListUser = h.blockInfoTakenListUser

theorem UserCall.spec {c : UserCall} (hp : h.Partition)
    (hlive : h.blockInfoTakenListUser.map BlockInfo.allocation = live)
    (hc : c.run h = .ok va h') : CallSpec c h live va h' := by
  cases c with
  | malloc size =>
    obtain ⟨hf, hr⟩ := firstFitUser_ok hp.fresh hc
    have htaken := hr.taken hp hlive
    rw [returned_roundup] at htaken
    refine ⟨hp.reserved hf hr, ⟨fun _ => trivial, fun _ => htaken⟩, fun _ _ h0 => ?_⟩
    cases hr with
    | none hnone hfree htaken' => exact ⟨hfree, htaken'⟩
    | some found id hsome => exact absurd h0 (hp.start_ne_zero hsome)
  | smalloc sys name size isWritable =>
    rw [run, Fos.smalloc, Prog.ite_run] at hc
    by_cases hfirst : sys.isFirstFit
    · rw [if_pos hfirst] at hc
      obtain ⟨hp', htaken, hnull⟩ := reserve_spec hp hlive hc
      rw [firstFit_roundup] at htaken hnull
      rw [returned_roundup] at htaken
      exact ⟨hp', htaken.trans ⟨fun hall _ => hall, fun hall => hall hfirst⟩,
        fun _ hclean => hnull (hclean hfirst)⟩
    · rw [if_neg hfirst] at hc
      obtain ⟨rfl, rfl⟩ := ok_inj.1 hc
      exact ⟨hp, ⟨fun _ hf => absurd hf hfirst, fun _ => hlive⟩, fun _ _ _ => ⟨rfl, rfl⟩⟩
  | sget sys owner name =>
    rw [run, Fos.sget, Prog.ite_run] at hc
    by_cases hcond : sys.isFirstFit ∧ sys.getSizeOfSharedObject owner name ≠ eSharedMemNotExists
    · rw [if_pos hcond] at hc
      obtain ⟨hp', htaken, hnull⟩ := reserve_spec hp hlive hc
      exact ⟨hp', htaken.trans ⟨fun hall _ _ => hall, fun hall => hall hcond.1 hcond.2⟩,
        fun _ hclean => hnull (hclean hcond.1 hcond.2)⟩
    · rw [if_neg hcond] at hc
      obtain ⟨rfl, rfl⟩ := ok_inj.1 hc
      exact ⟨hp, ⟨fun _ h1 h2 => absurd ⟨h1, h2⟩ hcond, fun _ => hlive⟩, fun _ _ _ => ⟨rfl, rfl⟩⟩
  | free start =>
    obtain ⟨_, h₁, hfree, hc⟩ := bind_eq_ok.1 hc
    obtain ⟨rfl, rfl⟩ := ok_inj.1 hc
    refine ⟨hp.free hfree, ⟨fun _ => trivial, fun _ => ?_⟩, fun hal => hal.elim⟩
    -- the record of the block with this start goes, if there is one
    rcases free_ok hfree with ⟨hnone, rfl⟩ | ⟨bi, hlist, hstart, hbefore, htaken, -⟩
    · rw [hlive, record, List.eraseP_of_forall_not]
      intro r hr
      rw [← hlive] at hr
      obtain ⟨b, hb, rfl⟩ := List.mem_map.1 hr
      exact fun h => hnone b hb (of_decide_eq_true h)
    · rw [htaken, record, ← hlive, hlist, eraseP_place hstart hbefore]
  | sfree start =>
    obtain ⟨rfl, rfl⟩ := ok_inj.1 hc
    refine ⟨hp, ?_, fun hal => hal.elim⟩
    rw [hlive, record]
    constructor
    · -- a ledger that lost nothing had no range to lose
      intro heq r hr hstart
      have hlen := List.length_eraseP_of_mem (p := fun r => decide (r.start = start)) hr
        (by simpa using hstart)
      have : 0 < live.length := List.length_pos_of_mem hr
      rw [← heq] at hlen
      omega
    · intro hclean
      rw [List.eraseP_of_forall_not]
      intro r hr
      simpa using hclean r hr

/-- When the taken blocks are the live ranges, the free blocks are the rest of the heap. -/
theorem UHeap.Partition.mem_freeSpace (hp : h.Partition)
    (hlive : h.blockInfoTakenListUser.map BlockInfo.allocation = live) (a : Nat) :
    a ∈ h.freeSpace ↔
      (userHeapStart ≤ a ∧ a < userHeapMax) ∧ ∀ r ∈ live, a ∉ range r.start r.size := by
  have hcover : (userHeapStart ≤ a ∧ a < userHeapMax) ↔ _ := hp.part.tiles.2 a
  have hapart := (List.pairwise_append.1 hp.part.tiles.1).2.2
  rw [hcover, ← hlive]
  constructor
  · rintro ⟨b, hb, hab⟩
    refine ⟨⟨b, List.mem_append_left _ hb, hab⟩, fun r hr har => ?_⟩
    obtain ⟨c, hc, rfl⟩ := List.mem_map.1 hr
    exact Set.disjoint_left.1 (hapart b hb c hc) hab har
  · rintro ⟨⟨b, hb, hab⟩, hnot⟩
    rcases List.mem_append.1 hb with hb | hb
    · exact ⟨b, hb, hab⟩
    · exact absurd hab (hnot b.allocation (List.mem_map_of_mem hb))

theorem CallSpec.sound {c : UserCall} (hspec : CallSpec c h live va h')
    (hclean : c.Clean (h, live)) : Event.Sound ⟨(h, live), c, va, (h', c.record va live)⟩ where
  taken := hspec.taken_iff.2 hclean
  free := hspec.part.mem_freeSpace (hspec.taken_iff.2 hclean)
  null hal h0 := by
    obtain ⟨hfree, htaken⟩ := hspec.null hal hclean h0
    exact ⟨by unfold UHeap.freeSpace; rw [hfree], htaken⟩
  sfree start hcall r hr hstart := by
    cases hcall
    exact absurd hstart (hclean r hr)

end

/-! ## Every run -/

/-- What is carried along a run: the blocks are a partition, the accounts have been sound exactly
as long as every call met its condition, and then the taken blocks are the live ranges. -/
theorem UserRun.accounts {events : List Event} {x : UHeap × List Allocation}
    (h : UserRun events x) : x.1.Partition ∧
      ((∀ e ∈ events, e.Sound) ↔ ∀ e ∈ events, e.call.Clean e.before) ∧
      ((∀ e ∈ events, e.call.Clean e.before) →
        x.1.blockInfoTakenListUser.map BlockInfo.allocation = x.2) := by
  induction h with
  | start => exact ⟨UHeap.partition_initial, by simp, fun _ => rfl⟩
  | @call events h h' live va c hrun hcall ih =>
    obtain ⟨hp, hiff, hacc⟩ := ih
    simp only [List.forall_mem_cons]
    have hspec := fun hclean => UserCall.spec hp (hacc hclean) hcall
    refine ⟨(UserCall.spec hp rfl hcall).part, ⟨?_, ?_⟩, ?_⟩
    · rintro ⟨hs, hsound⟩
      have hclean := hiff.1 hsound
      exact ⟨(hspec hclean).taken_iff.1 hs.taken, hclean⟩
    · rintro ⟨hc, hclean⟩
      exact ⟨(hspec hclean).sound hc, hiff.2 hclean⟩
    · rintro ⟨hc, hclean⟩
      exact (hspec hclean).taken_iff.2 hc

/-- **When the user heap keeps its accounts.** In a run of a process the block lists account for
every call if and only if the kernel accepted every shared object for which `smalloc` or `sget` had
found a range, and no `sfree` was given the start of a live range. -/
theorem userHeap_sound_iff {events : List Event} {x : UHeap × List Allocation}
    (h : UserRun events x) :
    (∀ e ∈ events, e.Sound) ↔ ∀ e ∈ events, e.call.Clean e.before := h.accounts.2.1

/-- A kernel under first fit with an object of two pages, which accepts every new one. -/
def sharingSys : Sys := ⟨uhpPlaceFirstFit, fun _ _ _ _ => 0, fun _ _ => 8192, fun _ _ _ => 0⟩

/-- Two blocks and a shared object are allocated, -/
def userOne : UHeap := Prog.final (malloc 5000 UHeap.initial)

def userTwo : UHeap := Prog.final (malloc 4096 userOne)

def userShared : UHeap := Prog.final (smalloc sharingSys [120] 4096 1 userTwo)

/-- the blocks are freed, -/
def userFreed : UHeap := Prog.final (free 0x80000000 userShared)

def userJoined : UHeap := Prog.final (free 0x80002000 userFreed)

/-- and the object of two pages is attached in their gap. -/
def userAttached : UHeap := Prog.final (sget sharingSys 3 [121] userJoined)

theorem userAttached_values :
    Prog.value (malloc 5000 UHeap.initial) = some 0x80000000 ∧
    Prog.value (malloc 4096 userOne) = some 0x80002000 ∧
    Prog.value (smalloc sharingSys [120] 4096 1 userTwo) = some 0x80003000 ∧
    Prog.value (free 0x80000000 userShared) = some () ∧
    Prog.value (free 0x80002000 userFreed) = some () ∧
    Prog.value (sget sharingSys 3 [121] userJoined) = some 0x80000000 := by decide +kernel

/-- The run is clean, so the lists account for its six calls. -/
theorem userHeap_sound_iff_attached : ∃ events live, UserRun events (userAttached, live) ∧
    events.length = 6 ∧ ∀ e ∈ events, e.Sound := by
  obtain ⟨h₁, h₂, h₃, h₄, h₅, h₆⟩ := userAttached_values
  have hfree : ∀ {va x y}, Prog.value (free va x) = some () → y = Prog.final (free va x) →
      (UserCall.free va).run x = .ok 0 y := by
    rintro va x y h rfl
    exact Prog.bind_of_ok (ok_of_value h)
  have hrun₁ := UserRun.call (.malloc 5000) .start (ok_of_value h₁)
  have hrun₂ := UserRun.call (.malloc 4096) hrun₁ (ok_of_value h₂)
  have hrun₃ := UserRun.call (.smalloc sharingSys [120] 4096 1) hrun₂ (ok_of_value h₃)
  have hrun₄ := UserRun.call (.free 0x80000000) hrun₃ (hfree h₄ rfl)
  have hrun₅ := UserRun.call (.free 0x80002000) hrun₄ (hfree h₅ rfl)
  have hrun₆ := UserRun.call (.sget sharingSys 3 [121]) hrun₅ (ok_of_value h₆)
  refine ⟨_, _, hrun₆, rfl, (userHeap_sound_iff hrun₆).2 ?_⟩
  simp only [List.forall_mem_cons]
  refine ⟨?_, trivial, trivial, ?_, trivial, trivial, fun _ h => absurd h List.not_mem_nil⟩
  · exact fun _ _ _ _ => le_refl (0 : Int)
  · exact fun _ _ _ => le_refl (0 : Int)

/-- A kernel under first fit that answers `id` to `sys_createSharedObject`. -/
def answering (id : Int) : Sys :=
  ⟨uhpPlaceFirstFit, fun _ _ _ _ => id, fun _ _ => -16, fun _ _ _ => -16⟩

/-- `smalloc("x", PAGE_SIZE, 1)`. -/
def smallocX (id : Int) : UserCall := .smalloc (answering id) [120] 4096 1

/-- The heap after a first `smalloc("x", PAGE_SIZE, 1)`. -/
def firstX : UHeap := final ((smallocX 0).run UHeap.initial)

/-- `smalloc` of an object that exists returns null and keeps the range it had reserved. -/
theorem userHeap_unsound : ¬ ∀ (events : List Event) (x : UHeap × List Allocation),
    UserRun events x → ∀ e ∈ events, e.Sound := by
  intro hall
  have h1 : (smallocX 0).run UHeap.initial = .ok userHeapStart firstX :=
    ok_of_value (by decide +kernel)
  have h2 : (smallocX (-15)).run firstX = .ok 0 (final ((smallocX (-15)).run firstX)) :=
    ok_of_value (by decide +kernel)
  have hs := (hall _ _ (.call (smallocX (-15)) (.call (smallocX 0) .start h1) h2) _
    (List.mem_cons_self)).null trivial rfl
  have hlen : (final ((smallocX (-15)).run firstX)).blockInfoTakenListUser.length = 2 ∧
    firstX.blockInfoTakenListUser.length = 1 := by decide +kernel
  have heq := congrArg List.length hs.2
  rw [hlen.1, hlen.2] at heq
  exact absurd heq (by decide)

end Fos
