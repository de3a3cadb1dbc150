import Fos.SharedMemory

/-!
# The memory calls and the shared objects

`kmalloc` and all it calls neither read nor write the array of shared objects.
-/

namespace Fos

open Prog (Commutes)

/-- The call does not look at the array of shared objects. -/
abbrev Blind {α : Type} (x : K α) : Prop := ∀ sh : Shares, Commutes (fun s => s.setShares sh) x

section

variable {α β : Type} {va w n perm : Nat} {dir : DirPtr} {t : TablePtr}

theorem Blind.bind {x : K α} {f : α → K β} (hx : Blind x) (hf : ∀ a, Blind (f a)) :
    Blind (x >>= f) := fun sh => (hx sh).bind fun a => hf a sh

theorem Blind.pure (a : α) : Blind (pure a : K α) := fun _ => .pure a

theorem Blind.throw (e : Stop) : Blind (throw e : K α) := fun _ => .throw e

theorem Blind.ite {p : Prop} [Decidable p] {x y : K α} (hx : Blind x) (hy : Blind y) :
    Blind (if p then x else y) := fun sh => (hx sh).ite (hy sh)

theorem Blind.get_bind {f : Kern → K α} (hg : ∀ s sh, f (s.setShares sh) = f s)
    (hf : ∀ s, Blind (f s)) : Blind (get >>= f) :=
  fun sh => .get_bind (fun s => hg s sh) fun s => hf s sh

/-! ## Words and tables -/

theorem blind_readWord : Blind (readWord va) := by
  intro sh s
  simp only [readWord, Prog.get_bind_apply, Prog.ite_run]
  show (if s.Mapped va then _ else _) = Prog.mapState _ (if s.Mapped va then _ else _)
  split <;> rfl

theorem blind_writeWord : Blind (writeWord va w) := by
  intro sh s
  simp only [writeWord, Prog.get_bind_apply, Prog.ite_run]
  show (if s.Mapped va then _ else _) = Prog.mapState _ (if s.Mapped va then _ else _)
  split <;> rfl

theorem blind_zeroWords : Blind (zeroWords va n) := by
  induction n generalizing va with
  | zero => exact .pure _
  | succ n ih => exact blind_writeWord.bind fun _ => ih

theorem blind_setFrames {g : Kern → Frames} (hg : ∀ s sh, g (s.setShares sh) = g s) :
    Blind (modify fun s => s.setFrames (g s) : K Unit) := by
  intro sh s
  rw [Prog.modify_apply, hg]
  rfl

theorem blind_setHeap {g : Kern → Heap} (hg : ∀ s sh, g (s.setShares sh) = g s) :
    Blind (modify fun s => s.setHeap (g s) : K Unit) := by
  intro sh s
  rw [Prog.modify_apply, hg]
  rfl

theorem blind_readPde {i : Nat} : Blind (readPde dir i) := by
  cases dir with
  | boot => exact fun _ _ => rfl
  | heap d => exact blind_readWord

theorem blind_writePde {i : Nat} : Blind (writePde dir i w) := by
  cases dir with
  | boot => exact fun _ _ => rfl
  | heap d => exact blind_writeWord

theorem blind_readPte {i : Nat} : Blind (readPte t i) := by
  cases t with
  | boot => exact fun _ _ => rfl
  | directory => exact fun _ _ => rfl
  | heap d => exact blind_readWord

theorem blind_writePte {i : Nat} : Blind (writePte t i w) := by
  cases t with
  | boot => exact fun _ _ => rfl
  | directory => exact fun _ _ => rfl
  | heap d => exact blind_writeWord

/-! ## Frames -/

theorem blind_allocateFrame : Blind allocateFrame := by
  intro sh s
  simp only [allocateFrame, Prog.get_bind_apply]
  rw [show (s.setShares sh).frames.freeFrameList = s.frames.freeFrameList from rfl]
  cases s.frames.freeFrameList <;> rfl

theorem blind_getPageTable : Blind (getPageTable dir va) :=
  blind_readPde.bind fun _ => .get_bind (fun _ _ => rfl) fun _ =>
    .ite (.pure _) (.ite (.throw _) (.ite (.pure _) (.throw _)))

theorem blind_kheapPhysicalAddress : Blind (kheapPhysicalAddress va) := by
  apply blind_getPageTable.bind
  rintro (_ | t)
  · exact .throw _
  · exact blind_readPte.bind fun _ => .pure _

theorem blind_toFrameInfo {pa : Nat} : Blind (toFrameInfo pa) :=
  .get_bind (fun _ _ => rfl) fun _ => .ite (.throw _) (.pure _)

theorem blind_getFrameInfo : Blind (getFrameInfo dir va) := by
  apply blind_getPageTable.bind
  rintro (_ | t)
  · exact .pure _
  · exact .ite (.pure _) (blind_readPte.bind fun _ =>
      .ite (blind_toFrameInfo.bind fun _ => .pure _) (.pure _))

theorem blind_unmapFrame : Blind (unmapFrame dir va) := by
  apply blind_getFrameInfo.bind
  rintro (_ | ⟨f, t⟩)
  · exact .pure _
  · exact (blind_setFrames (by intros; rfl)).bind fun _ => blind_writePte

theorem blind_mapFrameIn {f : Nat} : Blind (mapFrameIn dir t f va perm) :=
  blind_readPte.bind fun _ => .ite (.pure _) <|
    (Blind.ite blind_unmapFrame (.pure _)).bind fun _ =>
      (blind_setFrames (by intros; rfl)).bind fun _ => blind_writePte

theorem blind_mapFrameWith {create : DirPtr → Nat → K TablePtr} {f : Nat}
    (hc : ∀ dir va, Blind (create dir va)) : Blind (mapFrameWith create dir f va perm) := by
  refine Blind.bind (blind_getPageTable.bind ?_) fun _ => blind_mapFrameIn
  rintro (_ | t)
  · exact hc _ _
  · exact .pure _

/-! ## The kernel heap -/

theorem blind_kAllocateBlock : Blind kAllocateBlock := by
  intro sh s
  simp only [kAllocateBlock, Prog.get_bind_apply]
  rw [show (s.setShares sh).heap.freeBlocks = s.heap.freeBlocks from rfl]
  cases s.heap.freeBlocks <;> rfl

section

variable {mapFrame : Nat → Nat → Nat → K Unit} (hm : ∀ f va perm, Blind (mapFrame f va perm))
include hm

theorem blind_mapPages : Blind (mapPages mapFrame n va) := by
  induction n generalizing va with
  | zero => exact .pure _
  | succ n ih => exact blind_allocateFrame.bind fun _ => (hm _ _ _).bind fun _ => ih

theorem blind_contAllocation : Blind (contAllocation mapFrame n) :=
  .get_bind (fun _ _ => rfl) fun _ => .ite ((blind_mapPages hm).bind fun _ =>
    .get_bind (fun _ _ => rfl) fun _ => (blind_setHeap (by intros; rfl)).bind fun _ =>
      blind_kAllocateBlock.bind fun _ => (blind_setHeap (by intros; rfl)).bind fun _ => .pure _) (.pure _)

theorem blind_firstFitAllocation : Blind (firstFitAllocation mapFrame n) := by
  refine .get_bind (fun _ _ => rfl) fun s₀ => ?_
  dsimp only
  cases firstWhere _ s₀.heap.blockInfoFreeList with
  | none => exact .pure _
  | some found =>
    refine (blind_mapPages hm).bind fun _ => (blind_setHeap (by intros; rfl)).bind fun _ =>
      blind_kAllocateBlock.bind fun ptr sh s => ?_
    simp only [Prog.get_bind_apply]
    rw [show (s.setShares sh).heap = s.heap from rfl]
    cases insertSorted s.heap.blockInfoTakenList _ <;> rfl

theorem blind_nextFitAllocation : Blind (nextFitAllocation mapFrame n) := by
  intro sh s
  simp only [nextFitAllocation, Prog.get_bind_apply]
  rw [show (s.setShares sh).heap = s.heap from rfl]
  cases nextFitSearch _ s.heap.lastVaInKheap [] s.heap.blockInfoFreeList none with
  | none => rfl
  | some found =>
    have hrest : Blind (do
        mapPages mapFrame (roundup n pageSize / pageSize) found.elem.startVa
        let ptr ← kAllocateBlock
        modify fun s =>
          s.setHeap (s.heap.insertTaken ⟨ptr, found.elem.startVa, roundup n pageSize⟩)
        return found.elem.startVa : K Nat) :=
      (blind_mapPages hm).bind fun _ => blind_kAllocateBlock.bind fun _ =>
        (blind_setHeap (by intros; rfl)).bind fun _ => .pure _
    exact hrest sh (s.setHeap { s.heap.carve found (roundup n pageSize) with
      lastVaInKheap := found.elem.startVa })

theorem blind_kmallocWith : Blind (kmallocWith mapFrame n) := by
  refine .get_bind (fun _ _ => rfl) fun s₀ => ?_
  cases s₀.heap.strategy with
  | contAlloc => exact blind_contAllocation hm
  | firstFit => exact blind_firstFitAllocation hm
  | nextFit => exact blind_nextFitAllocation hm
  | bestFit => exact .pure _
  | worstFit => exact .pure _

end

theorem blind_createPageTableWith {kmalloc : Nat → K Nat} (hk : ∀ n, Blind (kmalloc n)) :
    Blind (createPageTableWith kmalloc dir va) :=
  (hk _).bind fun _ => .ite (.throw _) <| blind_kheapPhysicalAddress.bind fun _ =>
    blind_writePde.bind fun _ => blind_zeroWords.bind fun _ => .pure _

/-- `kmalloc` does not look at the array of shared objects. -/
theorem blind_kmalloc : Blind (kmalloc n) := by
  have hnested : ∀ n, Blind (kmallocNested n) := fun n =>
    blind_kmallocWith fun _ _ _ => blind_mapFrameWith fun _ _ => .throw _
  exact blind_kmallocWith fun _ _ _ => blind_mapFrameWith fun _ _ =>
    blind_createPageTableWith hnested

end

end Fos
