import Fos.PageFile.MemoryRuns
import Fos.SharedMemory.Blind

/-!
# The array before the first call on it

Creating environments, mapping their pages and using the page file does not touch the array of
shared objects, so a run of these steps from boot ends with every entry empty.
-/

namespace Fos

open Prog (bind_eq_ok bind_of_ok ok_inj)
open Relation (ReflTransGen)

section

variable {α : Type} {x : K α} {a : α} {s t : Kern} {va w n perm f e curenv d i : Nat} {dir : DirPtr}
  {page : Nat → Nat} {create : Bool}

/-- A call that does not look at the array leaves it alone. -/
theorem Blind.shares (h : Blind x) (hk : x s = .ok a t) : t.shares = s.shares := by
  have hs := h s.shares s
  change x s = _ at hs
  rw [hk] at hs
  obtain ⟨-, ht⟩ := ok_inj.1 hs
  rw [ht]
  rfl

theorem blind_setEnv {g : Kern → Env} (hg : ∀ s sh, g (s.setShares sh) = g s) :
    Blind (modify fun s => s.setEnv e (g s) : K Unit) := by
  intro sh s
  rw [Prog.modify_apply, hg]
  rfl

theorem blind_setDisk {g : Kern → Disk} (hg : ∀ s sh, g (s.setShares sh) = g s) :
    Blind (modify fun s => s.setDisk (g s) : K Unit) := by
  intro sh s
  rw [Prog.modify_apply, hg]
  rfl

theorem blind_mapFrame : Blind (mapFrame dir f va perm) :=
  blind_mapFrameWith fun _ _ => blind_createPageTableWith fun _ => blind_kmalloc

/-! ## Directories -/

theorem blind_copyDirectory : Blind (copyDirectory dir i n) := by
  induction n generalizing i with
  | zero => exact .pure _
  | succ n ih => exact blind_readPde.bind fun _ => blind_writePde.bind fun _ => ih

theorem blind_initializeDirectory : Blind (initializeDirectory d) :=
  blind_zeroWords.bind fun _ => blind_copyDirectory

theorem blind_listDirectory : Blind (listDirectory d w) :=
  blind_writePde.bind fun _ => blind_writePde

theorem blind_mirrorPages {sva : Nat} : Blind (mirrorPages dir n sva va) := by
  induction n generalizing sva va with
  | zero => exact .pure _
  | succ n ih =>
    exact blind_kheapPhysicalAddress.bind fun _ => blind_toFrameInfo.bind fun _ =>
      blind_mapFrame.bind fun _ => ih

theorem blind_writeUserPage : Blind (writeUserPage dir va page) := by
  intro sh s
  simp only [writeUserPage, Prog.get_bind_apply]
  rw [show (s.setShares sh).walk dir va = s.walk dir va by cases dir <;> rfl]
  cases s.walk dir va <;> rfl

/-! ## The page file -/

theorem blind_getDiskPageDirectory : Blind (getDiskPageDirectory e) :=
  .get_bind (fun _ _ => rfl) fun _ => .ite (blind_kmalloc.bind fun _ =>
    (blind_setEnv (by intros; rfl)).bind fun _ => .ite (.pure _)
      (blind_kheapPhysicalAddress.bind fun _ => blind_zeroWords.bind fun _ => .pure _)) (.pure _)

theorem blind_getDiskPageTable : Blind (getDiskPageTable d va create) := by
  refine blind_readWord.bind fun _ => .ite (.ite ?_ (.pure _)) (.ite (.pure _) ?_)
  · exact blind_kmalloc.bind fun _ => .ite (.pure _) (blind_kheapPhysicalAddress.bind fun _ =>
      blind_writeWord.bind fun _ => blind_zeroWords.bind fun _ => .pure _)
  · exact .get_bind (fun _ _ => rfl) fun _ => .pure _

theorem blind_allocateDiskFrame : Blind allocateDiskFrame := by
  intro sh s
  simp only [allocateDiskFrame, Prog.get_bind_apply]
  rw [show (s.setShares sh).disk.diskFreeFrameList = s.disk.diskFreeFrameList from rfl]
  cases s.disk.diskFreeFrameList <;> rfl

theorem blind_freeDiskFrame : Blind (freeDiskFrame n) :=
  .ite (.pure _) (blind_setDisk (by intros; rfl))

theorem blind_pfDiskFrame : Blind (pfDiskFrame e va) := by
  refine .ite (.throw _) (blind_getDiskPageDirectory.bind fun _ => .get_bind (fun _ _ => rfl) fun _ =>
    blind_getDiskPageTable.bind fun _ => blind_readWord.bind fun _ => .ite ?_ (.pure _))
  apply blind_allocateDiskFrame.bind
  rintro (_ | dfn)
  · exact .pure _
  · exact blind_writeWord.bind fun _ => .pure _

theorem blind_pfAddEnvPage : Blind (pfAddEnvPage e va page) := by
  apply blind_pfDiskFrame.bind
  rintro (_ | dfn)
  · exact .pure _
  · exact (blind_setDisk (by intros; rfl)).bind fun _ => .pure _

theorem blind_pfAddEmptyEnvPage : Blind (pfAddEmptyEnvPage e va w) := by
  refine .ite (.get_bind (fun _ _ => rfl) fun _ => blind_pfAddEnvPage) (blind_pfDiskFrame.bind ?_)
  rintro (_ | dfn) <;> exact .pure _

theorem blind_writeFrame : Blind (writeFrame dir n f) := by
  refine blind_mapFrame.bind fun _ sh s => ?_
  simp only [Prog.get_bind_apply, Prog.ite_run]
  show (if s.Mapped userLimit then _ else _) =
    Prog.mapState _ (if s.Mapped userLimit then _ else _)
  split
  · have hrest : Blind (do
        writeDiskPage n (s.ram (s.frameAt userLimit))
        modify fun s => s.setFrames (s.frames.incReferences f)
        unmapFrame dir userLimit
        modify fun s => s.setFrames (s.frames.decReferences f) : K Unit) :=
      (blind_setDisk (by intros; rfl)).bind fun _ =>
        (blind_setFrames (by intros; rfl)).bind fun _ =>
        blind_unmapFrame.bind fun _ => blind_setFrames (by intros; rfl)
    exact hrest sh s
  · rfl

theorem blind_pfUpdateEnvPage : Blind (pfUpdateEnvPage e va f) :=
  .ite (.throw _) (blind_getDiskPageDirectory.bind fun _ => .get_bind (fun _ _ => rfl) fun _ =>
    blind_getDiskPageTable.bind fun _ => .ite (.pure _) (blind_readWord.bind fun _ =>
      .ite (.pure _) (.get_bind (fun _ _ => rfl) fun _ => blind_writeFrame.bind fun _ => .pure _)))

theorem blind_ptSetPagePermissions : Blind (ptSetPagePermissions e va w n) :=
  .get_bind (fun _ _ => rfl) fun _ => blind_readPde.bind fun _ =>
    .ite (.get_bind (fun _ _ => rfl) fun _ => blind_readPte.bind fun _ => blind_writePte.bind fun _ =>
      blind_readPte.bind fun _ => blind_writePte) (.ite (.throw _) (.throw _))

theorem blind_pfReadEnvPage : Blind (pfReadEnvPage curenv e va) :=
  .get_bind (fun _ _ => rfl) fun _ => .ite (.pure _) (.get_bind (fun _ _ => rfl) fun _ =>
    blind_getDiskPageTable.bind fun _ => .ite (.pure _) (blind_readWord.bind fun _ => .ite (.pure _)
      (.get_bind (fun _ _ => rfl) fun _ => .get_bind (fun _ _ => rfl) fun _ =>
        blind_writeUserPage.bind fun _ => blind_ptSetPagePermissions.bind fun _ => .pure _)))

theorem blind_pfRemoveEnvPage : Blind (pfRemoveEnvPage e va) :=
  .get_bind (fun _ _ => rfl) fun _ => .ite (.pure _) (.get_bind (fun _ _ => rfl) fun _ =>
    blind_getDiskPageTable.bind fun _ => .ite (.pure _) (blind_readWord.bind fun _ =>
      blind_writeWord.bind fun _ => blind_freeDiskFrame))

theorem blind_unmapPages : Blind (unmapPages n va) := by
  induction n generalizing va with
  | zero => exact .pure _
  | succ n ih => exact blind_unmapFrame.bind fun _ => ih

theorem blind_kfree : Blind (kfree va) := by
  refine .get_bind (fun _ _ => rfl) fun s₀ => ?_
  cases firstWhere (fun bi => bi.startVa = va) s₀.heap.blockInfoTakenList with
  | none => exact .pure _
  | some bi =>
    refine blind_unmapPages.bind fun _ sh s => ?_
    simp only [Prog.get_bind_apply]
    rw [show (s.setShares sh).heap = s.heap from rfl]
    cases ({ s.heap with blockInfoTakenList := bi.removed }).coalescing bi.elem <;> rfl

theorem blind_freeDiskTable : Blind (freeDiskTable d i n) := by
  induction n generalizing i with
  | zero => exact .pure _
  | succ n ih => exact blind_readWord.bind fun _ => blind_writeWord.bind fun _ =>
      blind_freeDiskFrame.bind fun _ => ih

theorem blind_freeDiskTables : Blind (freeDiskTables e i n) := by
  induction n generalizing i with
  | zero => exact .pure _
  | succ n ih => exact .get_bind (fun _ _ => rfl) fun _ => blind_readWord.bind fun _ =>
      (Blind.ite (.get_bind (fun _ _ => rfl) fun _ => blind_freeDiskTable.bind fun _ =>
        blind_writeWord.bind fun _ => blind_kfree) (.pure _)).bind fun _ => ih

theorem blind_pfFreeEnv : Blind (pfFreeEnv e) :=
  blind_freeDiskTables.bind fun _ => .get_bind (fun _ _ => rfl) fun _ => blind_kfree.bind fun _ =>
    blind_setEnv (by intros; rfl)

end

/-! ## Runs -/

section

variable {s t : FileState}

theorem StoreStep.shares (h : StoreStep s t) : t.kern.shares = s.kern.shares := by
  cases h with
  | newEnv h0 h₁ hd h₂ h₃ henv hdisk =>
    exact (blind_listDirectory.shares h₃).trans
      ((blind_initializeDirectory.shares h₂).trans (blind_kmalloc.shares h₁))
  | mirror hdir hpos hn hz h₁ hws h₂ =>
    exact (blind_mirrorPages.shares h₂).trans (blind_kmalloc.shares h₁)
  | mapPage hdir hva hz hperm h₁ h₂ =>
    exact (blind_mapFrame.shares h₂).trans (blind_allocateFrame.shares h₁)
  | sharePage hdir hva hz hperm hf hlt h => exact blind_mapFrame.shares h
  | unmapPage hdir hva h => exact blind_unmapFrame.shares h
  | write hdir hva hpr h => exact blind_writeUserPage.shares h
  | add hva h => exact blind_pfAddEnvPage.shares h
  | addEmpty hva h => exact blind_pfAddEmptyEnvPage.shares h
  | update hva hf h => exact blind_pfUpdateEnvPage.shares h
  | updateFails hva hf hr h => exact blind_pfUpdateEnvPage.shares h
  | read hva hpd hpr h => exact blind_pfReadEnvPage.shares h
  | remove hva h => exact blind_pfRemoveEnvPage.shares h

theorem MemoryStep.shares (h : MemoryStep s t) : t.kern.shares = s.kern.shares := by
  cases h with
  | store h => exact StoreStep.shares h
  | addFails hva h => exact blind_pfAddEnvPage.shares h
  | addEmptyFails hva h => exact blind_pfAddEmptyEnvPage.shares h
  | freeEnv hd h => exact blind_pfFreeEnv.shares h
  | workingSet e ws maxSize lastIndex => rfl

end

/-- **After a run from boot** that made no call on shared objects every entry is empty. -/
theorem memoryRun_shares {c : BootConfig} {s₀ : Kern} {st : KHeapPlacementStrategy} {s : FileState}
    (hboot : fosInitialize (initializePaging c) = .ok () s₀)
    (hrun : ReflTransGen MemoryStep ⟨setStrategy st s₀, [.boot], fun _ => none⟩ s) :
    s.kern.shares = clearedShares (0x2000 / sizeofShare) := by
  induction hrun with
  | refl =>
    obtain ⟨_, s₁, h₁, h₂⟩ := bind_eq_ok.1 hboot
    obtain ⟨va, t₁, hk₁, h₃⟩ := bind_eq_ok.1 h₁
    obtain ⟨va', t₂, hk₂, h₄⟩ := bind_eq_ok.1 h₂
    rw [Prog.ite_run] at h₃ h₄
    split at h₃
    · cases h₃
    · split at h₄
      · cases h₄
      · obtain ⟨-, rfl⟩ := ok_inj.1 h₃
        obtain ⟨-, rfl⟩ := ok_inj.1 h₄
        exact blind_kmalloc.shares hk₂
  | tail _ hstep ih => exact hstep.shares.trans ih

end Fos
