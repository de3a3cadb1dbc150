import Fos.BlockOrder
import Fos.UserHeap.Accounting

/-!
# First fit on the user heap

The lists of `lib/uheap.c` tile the user heap and the free list stays in address order, so that
`first_fit_user` takes the lowest maximal gap that is large enough, and `free` asks the kernel for
exactly the block that starts at its argument.
-/

namespace Fos

open Relation (ReflTransGen)
open Prog (bind_eq_ok ok_inj)
open Gaps (Ordered MaxRun)
open Cover (Tiles)

/-! ## Coalescing -/

section

variable {h h' : UHeap} {va size : Nat}

/-- `Coalescing_heap_user` keeps the free list in order. -/
theorem coalescingUser_order {take : BlockInfo} (ho : FreeOrder h.blockInfoFreeListUser)
    (hfits : Fits take h.blockInfoFreeListUser) (hw : NoWrap (take :: h.blockInfoFreeListUser))
    (hc : h.coalescing take = some h') : FreeOrder h'.blockInfoFreeListUser := by
  obtain ⟨lo, hi, hl, hcut⟩ := hfits.cut ho
  have hw' : NoWrap (lo ++ take :: hi) := by
    intro b hb
    apply hw
    rw [hl]
    simpa [or_left_comm, or_comm, or_assoc] using hb
  obtain ⟨ht, hd⟩ := hcut.takeWhile (p := fun curr => decide (curr.startVa < take.startVa))
    (fun b hb => by simpa using hb) (fun b hb => by simpa using Nat.le_of_lt hb)
  have hinsert : joinBetween lo hi take = none →
      (insertSortedUser (lo ++ hi) take).map (h.joined · []) = some h' →
      FreeOrder h'.blockInfoFreeListUser := by
    intro hj hm
    by_cases hne : lo ++ hi = []
    · rw [hne] at hm
      cases hm
    · rw [insertSortedUser, hcut.insertSorted hne, Option.map_some] at hm
      cases hm
      exact hcut.joinBetween_none hw' hj
  unfold UHeap.coalescing at hc
  dsimp only at hc
  rw [hl] at hc
  cases hhead : (lo ++ hi).head? with
  | none => rw [hhead] at hc; cases hc
  | some str =>
    cases hlast : (lo ++ hi).getLast? with
    | none => rw [hhead, hlast] at hc; cases hc
    | some last =>
      rw [hhead, hlast] at hc
      dsimp only at hc
      split at hc
      case isTrue hadj =>
        -- nothing lies below, and the first block joins
        cases lo with
        | cons b bs =>
          have hb : b = str := by simpa using hhead
          have := hcut.start_lt (b := b) List.mem_cons_self
          rw [hb] at this
          omega
        | nil =>
          cases hi with
          | nil => cases hhead
          | cons c cs =>
            have hcs : c = str := by simpa using hhead
            subst hcs
            cases hc
            have hj : joinBetween [] (c :: cs) take = some
                ([] ++ { c with startVa := take.startVa, size := u32 (c.size + take.size) } :: cs,
                  [take.id]) := by
              have hnex : adjoiningNex (c :: cs) take = _ := adjoiningNex_of_head List.head?_cons
              rw [if_pos hadj.2] at hnex
              rw [joinBetween, hnex]
              rfl
            exact hcut.joinBetween_some hw' hj
      case isFalse hnadj =>
        split at hc
        case isTrue hge =>
          -- nothing lies above
          have hnil : hi = [] := by
            rcases List.eq_nil_or_concat hi with rfl | ⟨cs, c, rfl⟩
            · rfl
            · have hcl : c = last := by
                rw [List.concat_eq_append, ← List.append_assoc, List.getLast?_concat] at hlast
                exact Option.some.inj hlast
              have := hcut.lt_start (c := c) (by simp)
              rw [hcl] at this
              omega
          subst hnil
          rw [List.append_nil] at hlast
          split at hc
          case isTrue hadj =>
            cases hc
            have hj : joinBetween lo [] take = some
                (lo.dropLast ++ { last with size := u32 (last.size + take.size) } :: [],
                  [take.id]) := by
              have hpre : adjoiningPre lo take = _ := adjoiningPre_of_last hlast
              rw [if_pos hadj] at hpre
              rw [joinBetween, hpre]
              rfl
            have := hcut.joinBetween_some hw' hj
            rw [List.append_nil]
            exact this
          case isFalse hnadj' =>
            refine hinsert ?_ hc
            have hpre : adjoiningPre lo take = _ := adjoiningPre_of_last hlast
            rw [if_neg hnadj'] at hpre
            rw [joinBetween, hpre]
            rfl
        case isFalse =>
          rw [ht, hd] at hc
          split at hc
          case h_1 free ids hjoin =>
            cases hc
            exact hcut.joinBetween_some hw' hjoin
          case h_2 hjoin => exact hinsert hjoin hc

/-! ## One call -/

/-- The lists tile the user heap, the free list is in order and no block is empty. -/
structure UserFirstFitInv (h : UHeap) : Prop where
  part : h.Partition
  order : FreeOrder h.freeList
  taken : ∀ b ∈ h.blockInfoTakenListUser, 0 < b.size

theorem UserFirstFitInv.reserved (hi : UserFirstFitInv h) (hpos : 0 < roundup size pageSize)
    (hf : h'.firstTime = false) (hr : UHeap.Reserved h h' size va) : UserFirstFitInv h' := by
  refine ⟨hi.part.reserved hf hr, ?_, ?_⟩
  · -- the free list stays, or one of its blocks is cut
    cases hr with
    | none hnone hfree htaken =>
      rw [hfree]
      exact hi.order
    | some found id hsome hfree htaken =>
      obtain ⟨hlist, hfit, -⟩ := firstWhere_some hsome
      rw [hfree]
      refine carved_order ?_ ?_ (by simpa using hfit)
      · rw [← hlist]
        exact hi.order
      · rw [← hlist]
        exact hi.part.part.noWrap userHeapMax_lt fun b hb => List.mem_append_left _ hb
  · cases hr with
    | none hnone hfree htaken =>
      rw [htaken]
      exact hi.taken
    | some found id hsome hfree htaken =>
      rw [htaken]
      intro b hb
      rcases List.mem_cons.1 hb with rfl | hb
      · exact hpos
      · exact hi.taken b hb

theorem UserFirstFitInv.firstFitUser (hi : UserFirstFitInv h) (hpos : 0 < roundup size pageSize)
    (hc : Fos.firstFitUser size h = .ok va h') : UserFirstFitInv h' :=
  let ⟨hf, hr⟩ := firstFitUser_ok hi.part.fresh hc
  hi.reserved hpos hf hr

theorem UserFirstFitInv.free (hi : UserFirstFitInv h) (hc : Fos.free va h = .ok () h') :
    UserFirstFitInv h' := by
  have hpart := hi.part.free hc
  rw [Fos.free, Prog.get_bind_apply] at hc
  cases hfirst : firstWhere (fun bi => decide (bi.startVa = va)) h.blockInfoTakenListUser with
  | none =>
    rw [hfirst] at hc
    obtain ⟨-, rfl⟩ := ok_inj.1 hc
    exact hi
  | some bi =>
    obtain ⟨hlist, -, -⟩ := firstWhere_some hfirst
    have hperm : h.blockInfoTakenListUser.Perm (bi.elem :: bi.removed) := by
      rw [hlist]
      exact List.perm_middle
    -- a taken block is there, so the list has been made
    have hstarted : h.firstTime = false := by
      by_contra hne
      have := hi.part.fresh (by simpa using hne)
      rw [hlist] at this
      simp [Place.list] at this
    have hfl := freeList_started hstarted
    have hp := hi.part.part
    have ho := hi.order
    rw [hfl] at hp ho
    rw [hfirst] at hc
    dsimp only at hc
    cases hco : ({ h with blockInfoTakenListUser := bi.removed } : UHeap).coalescing bi.elem with
    | none => rw [hco] at hc; cases hc
    | some h₁ =>
      rw [hco] at hc
      obtain ⟨-, rfl⟩ := ok_inj.1 hc
      obtain ⟨-, htaken, hf⟩ := coalescingUser_cases hco
      refine ⟨hpart, ?_, ?_⟩
      · rw [freeList_started (hf.trans hstarted)]
        refine coalescingUser_order ?_ ?_ ?_ hco
        · exact ho
        · exact hp.fits ho hperm (hi.taken _ (by simp [hperm.mem_iff]))
        · refine hp.noWrap userHeapMax_lt fun b hb => ?_
          rcases List.mem_cons.1 hb with rfl | hb
          · simp [hperm.mem_iff]
          · exact List.mem_append_left _ hb
      · rw [htaken]
        exact fun b hb => hi.taken b (by simp [hperm.mem_iff, show b ∈ bi.removed from hb])

/-! ## Runs -/

/-- A size a process can ask for. -/
def Requestable (size : Nat) : Prop := 1 ≤ size ∧ size ≤ 2 ^ 32 - 4096

theorem Requestable.roundup_pos (hs : Requestable size) : 0 < roundup size pageSize := by
  have := le_roundup hs.2
  have := hs.1
  omega

/-- One library call, with whatever the kernel answers to it. -/
inductive UserStep : UHeap → UHeap → Prop
  | malloc {h h' : UHeap} {size va : Nat} (hs : Requestable size)
      (hc : malloc size h = .ok va h') : UserStep h h'
  | smalloc {h h' : UHeap} {sys : Sys} {name : List UInt8} {size isWritable va : Nat}
      (hs : Requestable size) (hc : smalloc sys name size isWritable h = .ok va h') : UserStep h h'
  | sget {h h' : UHeap} {sys : Sys} {owner : Int} {name : List UInt8} {va : Nat}
      (hs : sys.getSizeOfSharedObject owner name ≠ eSharedMemNotExists →
        Requestable (toU32 (sys.getSizeOfSharedObject owner name)))
      (hc : sget sys owner name h = .ok va h') : UserStep h h'
  | free {h h' : UHeap} {va : Nat} (hc : free va h = .ok () h') : UserStep h h'

/-- What follows `first_fit_user` in `smalloc` and `sget` leaves the lists alone. -/
theorem UserFirstFitInv.afterSearch (hi : UserFirstFitInv h) (hpos : 0 < roundup size pageSize)
    {p : Nat → Prop} [DecidablePred p]
    (hc : (do
      let result ← Fos.firstFitUser size
      if p result then return result else return 0 : U Nat) h = .ok va h') :
    UserFirstFitInv h' := by
  obtain ⟨result, h₁, hfit, hc⟩ := bind_eq_ok.1 hc
  have hi₁ := hi.firstFitUser hpos hfit
  rw [Prog.ite_run] at hc
  split at hc
  · obtain ⟨-, rfl⟩ := ok_inj.1 hc
    exact hi₁
  · obtain ⟨-, rfl⟩ := ok_inj.1 hc
    exact hi₁

theorem UserStep.inv (hi : UserFirstFitInv h) (hs : UserStep h h') : UserFirstFitInv h' := by
  cases hs with
  | malloc hs hc =>
    refine hi.firstFitUser ?_ hc
    rw [roundup_roundup]
    exact hs.roundup_pos
  | @smalloc sys _ size _ _ hs hc =>
    rw [Fos.smalloc, Prog.ite_run] at hc
    split at hc
    · have hpos : 0 < roundup (roundup size pageSize) pageSize := by
        rw [roundup_roundup]
        exact hs.roundup_pos
      exact hi.afterSearch hpos hc
    · obtain ⟨-, rfl⟩ := ok_inj.1 hc
      exact hi
  | sget hs hc =>
    unfold Fos.sget at hc
    rw [Prog.ite_run] at hc
    split at hc
    case isTrue hck => exact hi.afterSearch (hs hck.2).roundup_pos hc
    case isFalse =>
      obtain ⟨-, rfl⟩ := ok_inj.1 hc
      exact hi
  | free hc => exact hi.free hc

theorem userFirstFitInv_initial : UserFirstFitInv UHeap.initial := by
  refine ⟨UHeap.partition_initial, ⟨?_, List.pairwise_singleton _ _⟩, by simp [UHeap.initial]⟩
  intro b hb
  rw [List.mem_singleton.1 hb]
  decide

/-! ## The lowest gap -/

/-- The addresses of the user heap that no taken block holds. -/
def UHeap.unallocated (h : UHeap) : Set Nat :=
  Fos.unallocated userHeapStart userHeapMax h.blockInfoTakenListUser

/-- First fit as a process sees it. -/
structure UserFirstFitOk (h : UHeap) : Prop where
  /-- Once the lists are initialised their blocks tile the user heap. -/
  tiles : h.firstTime = false → Tiles BlockInfo.addrs
    (h.blockInfoFreeListUser ++ h.blockInfoTakenListUser) (addrsBetween userHeapStart userHeapMax)
  /-- The blocks are page-aligned and not empty. -/
  blocks : h.firstTime = false → ∀ b ∈ h.blockInfoFreeListUser ++ h.blockInfoTakenListUser,
    b.startVa % pageSize = 0 ∧ b.size % pageSize = 0 ∧ 0 < b.size
  /-- The free list is strictly increasing, without blocks that meet. -/
  order : h.firstTime = false → FreeOrder h.blockInfoFreeListUser
  /-- `first_fit_user` initialises the lists at its first call, and returns the start of the lowest
  maximal gap that is large enough, `NULL` exactly when there is none. -/
  firstFitUser : ∀ size va h', Requestable size → Fos.firstFitUser size h = .ok va h' →
    h'.firstTime = false ∧ LowestFit h.unallocated (roundup size pageSize) va
  /-- `free` asks the kernel for the block that starts at its argument. -/
  free : ∀ va calls h' calls', freeTraced va (h, calls) = .ok () (h', calls') →
    ∀ b ∈ h.blockInfoTakenListUser, b.startVa = va → calls' = calls ++ [.freeMem va b.size]
  /-- Where no taken block starts, `free` asks for nothing. -/
  free_none : ∀ va calls, (∀ b ∈ h.blockInfoTakenListUser, b.startVa ≠ va) →
    freeTraced va (h, calls) = .ok () (h, calls)

theorem freeTraced_calls {calls calls' : List SysCall} {bi : Place BlockInfo}
    (hf : firstWhere (fun bi => decide (bi.startVa = va)) h.blockInfoTakenListUser = some bi)
    (hc : freeTraced va (h, calls) = .ok () (h', calls')) :
    calls' = calls ++ [.freeMem va bi.elem.size] := by
  rw [freeTraced, Prog.get_bind_apply] at hc
  dsimp only at hc
  rw [hf] at hc
  dsimp only at hc
  replace hc : (set _ >>= _ : EStateM Stop (UHeap × List SysCall) Unit) _ = _ := hc
  rw [Prog.set_bind_apply] at hc
  cases hco : ({ h with blockInfoTakenListUser := bi.removed } : UHeap).coalescing bi.elem with
  | none => rw [hco] at hc; cases hc
  | some h₁ =>
    rw [hco] at hc
    obtain ⟨-, he⟩ := ok_inj.1 hc
    rw [Prod.mk.injEq] at he
    exact he.2.symm

/-- Blocks that are not empty and start at one address are one block. -/
theorem UserFirstFitInv.start_inj (hi : UserFirstFitInv h) {b c : BlockInfo}
    (hb : b ∈ h.blockInfoTakenListUser) (hc : c ∈ h.blockInfoTakenListUser)
    (he : b.startVa = c.startVa) : b = c := hi.part.part.start_inj hi.taken hb hc he

theorem UserFirstFitInv.ok (hi : UserFirstFitInv h) : UserFirstFitOk h := by
  have hp := hi.part.part
  refine ⟨fun hf => ?_, fun hf => ?_, fun hf => ?_, ?_, ?_, ?_⟩
  · rw [freeList_started hf] at hp
    exact hp.tiles
  · have ho := hi.order
    rw [freeList_started hf] at hp ho
    intro b hb
    refine ⟨(hp.wf b hb).start_aligned, (hp.wf b hb).size_aligned, ?_⟩
    rcases List.mem_append.1 hb with hb | hb
    · exact ho.pos b hb
    · exact hi.taken b hb
  · have ho := hi.order
    rwa [freeList_started hf] at ho
  · intro size va h' hs hc
    obtain ⟨hf, hr⟩ := firstFitUser_ok hi.part.fresh hc
    refine ⟨hf, hp.lowestFit hi.order (by decide) hs.roundup_pos ?_⟩
    cases hr with
    | none hnone => exact .inl ⟨hnone, rfl⟩
    | some found id hsome => exact .inr ⟨found, hsome, rfl⟩
  · intro va calls h' calls' hc b hb hstart
    cases hfirst : firstWhere (fun bi => decide (bi.startVa = va)) h.blockInfoTakenListUser with
    | none =>
      have := firstWhere_none.1 hfirst b hb
      simp [hstart] at this
    | some bi =>
      obtain ⟨hlist, hst, -⟩ := firstWhere_some hfirst
      have hmem : bi.elem ∈ h.blockInfoTakenListUser := by rw [hlist]; simp [Place.list]
      rw [freeTraced_calls hfirst hc,
        hi.start_inj hb hmem (hstart.trans (of_decide_eq_true hst).symm)]
  · intro va calls hnone
    have hfirst : firstWhere (fun bi => decide (bi.startVa = va)) h.blockInfoTakenListUser =
        none := firstWhere_none.2 (by simpa using hnone)
    rw [freeTraced, Prog.get_bind_apply]
    dsimp only
    rw [hfirst]
    rfl

end

end Fos
