import Fos.KernelHeap

/-!
# Mapping and unmapping pages of the kernel heap

What `map_frame` and `unmap_frame` do at an address whose page table was built at boot, and the
loops of `kmalloc` and `kfree` over such pages.
-/

namespace Fos

open Function (update)
open Prog (bind_eq_ok bind_run map_run ok_inj)

/-! ## Page numbers of the kernel space -/

/-- `p` is a page from `KERNEL_BASE` up, whose tables `initialize_kernel_VM` builds. -/
def KernelPage (p : Nat) : Prop := 983040 ≤ p ∧ p < 1048576

/-- `p` is a page of the kernel heap. -/
def HeapPage (p : Nat) : Prop := 1007616 ≤ p ∧ p < 1048575

theorem HeapPage.kernelPage {p : Nat} (h : HeapPage p) : KernelPage p := by
  unfold HeapPage at h; unfold KernelPage; omega

theorem heapPage_iff {p : Nat} :
    HeapPage p ↔ kernelHeapStart ≤ p * 4096 ∧ p * 4096 < kernelHeapMax := by
  unfold HeapPage kernelHeapStart kernelHeapMax; omega

/-- The directory entries that cover the kernel heap are present. -/
def HeapTables (s : Kern) : Prop := ∀ i, 984 ≤ i → i < 1024 → present (s.kernelDirectory i)

theorem HeapTables.of_forall {s : Kern} (h : ∀ i < 40, present (s.kernelDirectory (984 + i))) :
    HeapTables s := by
  intro i hlow hhigh
  have hi := h (i - 984) (by omega)
  rwa [Nat.add_sub_cancel' hlow] at hi

theorem HeapTables.pde {s : Kern} (h : HeapTables s) {p : Nat} (hp : HeapPage p) :
    present (s.kernelDirectory (pdx (p * 4096))) := by
  unfold HeapPage at hp
  exact h _ (by unfold pdx; omega) (by unfold pdx; omega)

theorem ppn_page (p : Nat) : ppn (p * 4096) = p := by unfold ppn; omega

theorem pdx_ptx_page {p : Nat} (hp : p < 1048576) :
    pdx (p * 4096) * 1024 + ptx (p * 4096) = p := by
  unfold pdx ptx; omega

theorem KernelPage.isKernelAddress {p : Nat} (h : KernelPage p) :
    checkIfKernelAddress (p * 4096) := by
  unfold KernelPage at h
  unfold checkIfKernelAddress userTop
  omega

theorem u32_page_succ {p : Nat} (hp : p + 1 < 1048576) :
    u32 (p * 4096 + pageSize) = (p + 1) * 4096 := by
  unfold u32 pageSize; omega

/-! ## One page -/

/-- The entry that maps a frame. -/
def entryOf (f perm : Nat) : Nat := constructEntry (f * 4096) (perm ||| permPresent)

theorem present_entryOf {f perm : Nat} (hp : perm < 4096) : present (entryOf f perm) :=
  present_constructEntry hp

theorem ppn_entryOf {f perm : Nat} (hp : perm < 4096) : ppn (entryOf f perm) = f :=
  ppn_constructEntry hp

/-- `s` after frame `f` is mapped at page `p`, which was not mapped. -/
def Kern.mapPage (s : Kern) (f p perm : Nat) : Kern :=
  (s.setFrames (s.frames.addReference f (p * 4096))).setKernelTable p (entryOf f perm)

/-- `s` after page `p`, which maps a frame, is unmapped. -/
def Kern.unmapPage (s : Kern) (p : Nat) : Kern :=
  (s.setFrames (s.frames.decrementReferences (ppn (s.kernelTable p)))).setKernelTable p 0

section

variable (s : Kern) (f p perm : Nat)

@[simp] theorem mapPage_frames :
    (s.mapPage f p perm).frames = s.frames.addReference f (p * 4096) := rfl

@[simp] theorem mapPage_kernelTable :
    (s.mapPage f p perm).kernelTable = update s.kernelTable p (entryOf f perm) := rfl

@[simp] theorem unmapPage_frames :
    (s.unmapPage p).frames = s.frames.decrementReferences (ppn (s.kernelTable p)) := rfl

@[simp] theorem unmapPage_kernelTable :
    (s.unmapPage p).kernelTable = update s.kernelTable p 0 := rfl

end

theorem decrementReferences_numberOfFrames (fr : Frames) (f : Nat) :
    (fr.decrementReferences f).numberOfFrames = fr.numberOfFrames := by
  unfold Frames.decrementReferences
  dsimp only
  split <;> rfl

theorem getPageTable_kernel {s : Kern} {p : Nat} (hp : KernelPage p)
    (hpde : present (s.kernelDirectory (pdx (p * 4096)))) :
    getPageTable .boot (p * 4096) s = .ok (some (.boot (pdx (p * 4096)))) s := by
  have hself : ¬ selfMapped (p * 4096) := by
    unfold KernelPage at hp
    unfold selfMapped pdx
    omega
  rw [getPageTable_boot hpde, tableOf_kernel hp.isKernelAddress hself (listsBootTable_self hpde)]

/-- `unmap_frame` at a kernel page. -/
theorem unmapFrame_kernel {s : Kern} {p : Nat} (hp : KernelPage p)
    (hpde : present (s.kernelDirectory (pdx (p * 4096)))) :
    unmapFrame .boot (p * 4096) s =
      if s.kernelTable p = 0 then .ok () s
      else if s.frames.numberOfFrames ≤ ppn (s.kernelTable p) then
        .error (.panic "to_frame_info called with invalid pa=%x\n") s
      else .ok () (s.unmapPage p) := by
  have hlt : p < 1048576 := hp.2
  by_cases h0 : s.kernelTable p = 0
  · simp [unmapFrame, getFrameInfo, bind_run, getPageTable_kernel hp hpde, pdx_ptx_page hlt,
      TablePtr.null, h0]
  · by_cases hf : s.frames.numberOfFrames ≤ ppn (s.kernelTable p)
    · simp [unmapFrame, getFrameInfo, bind_run, map_run, getPageTable_kernel hp hpde,
        pdx_ptx_page hlt, TablePtr.null, h0, toFrameInfo, ppn_extractAddress, hf]
    · simp [unmapFrame, getFrameInfo, bind_run, map_run, getPageTable_kernel hp hpde,
        pdx_ptx_page hlt, TablePtr.null, h0, toFrameInfo, ppn_extractAddress, hf, Kern.unmapPage]

/-- In the boot directory no table of a kernel page is missing. -/
theorem mapFrameWith_kernel {create : DirPtr → Nat → K TablePtr} {s : Kern} {f p perm : Nat}
    (hp : KernelPage p) (hpde : present (s.kernelDirectory (pdx (p * 4096)))) :
    mapFrameWith create .boot f (p * 4096) perm s =
      mapFrameIn .boot (.boot (pdx (p * 4096))) f (p * 4096) perm s := by
  simp [mapFrameWith, pageTableWith, bind_run, getPageTable_kernel hp hpde]

/-- `map_frame` at a kernel page that is not mapped. -/
theorem mapFrame_kernel {create : DirPtr → Nat → K TablePtr} {s : Kern} {f p perm : Nat}
    (hp : KernelPage p) (hpde : present (s.kernelDirectory (pdx (p * 4096))))
    (hnp : ¬ present (s.kernelTable p)) :
    mapFrameWith create .boot f (p * 4096) perm s = .ok () (s.mapPage f p perm) := by
  rw [mapFrameWith_kernel hp hpde]
  simp [mapFrameIn, bind_run, pdx_ptx_page hp.2, hnp, Kern.mapPage, entryOf]

/-- One turn of the loop of `kmalloc` at a page that is not mapped. -/
theorem allocate_mapFrame_kernel {create : DirPtr → Nat → K TablePtr} {s : Kern} {p perm : Nat}
    (hp : KernelPage p) (hpde : present (s.kernelDirectory (pdx (p * 4096))))
    (hnp : ¬ present (s.kernelTable p)) :
    (do let f ← allocateFrame; mapFrameWith create .boot f (p * 4096) perm : K Unit) s =
      match s.frames.freeFrameList with
      | [] => .error .fault s
      | f :: rest => .ok () ((s.setFrames (s.frames.take f rest)).mapPage f p perm) := by
  cases hl : s.frames.freeFrameList with
  | nil => rw [bind_run, allocateFrame_nil hl]
  | cons f rest =>
    rw [bind_run, allocateFrame_cons hl]
    exact mapFrame_kernel hp hpde hnp

/-! ## The loops over pages -/

section

variable {P : Nat → Kern → Prop} {p n : Nat} {s s' : Kern}

/-- A property that each turn of the loop of `kmalloc` carries on holds when the loop is done, if
the pages it comes to are not mapped. -/
theorem mapPages_induct {create : DirPtr → Nat → K TablePtr} (hn : p + n < 1048576) (h0 : P 0 s)
    (hstep : ∀ i < n, ∀ t, P i t →
      KernelPage (p + i) ∧ present (t.kernelDirectory (pdx ((p + i) * 4096))) ∧
      ¬ present (t.kernelTable (p + i)) ∧
      ∀ f rest, t.frames.freeFrameList = f :: rest →
        P (i + 1) ((t.setFrames (t.frames.take f rest)).mapPage f (p + i) permWriteable))
    (h : mapPages (mapFrameWith create .boot) n (p * 4096) s = .ok () s') : P n s' := by
  induction n generalizing p s P with
  | zero =>
    cases h
    exact h0
  | succ n ih =>
    obtain ⟨hk, hpde, hnp, hnext⟩ := hstep 0 (by omega) s h0
    rw [Nat.add_zero] at hk hpde hnp hnext
    -- one round takes a frame and maps it
    have h' : (do (do let f ← allocateFrame; mapFrameWith create .boot f (p * 4096) permWriteable)
                  mapPages (mapFrameWith create .boot) n (u32 (p * 4096 + pageSize))) s =
        .ok () s' := by
      rw [← h, mapPages_succ]; simp only [bind_assoc]
    obtain ⟨_, s₁, h1, h2⟩ := bind_eq_ok.1 h'
    rw [allocate_mapFrame_kernel hk hpde hnp] at h1
    cases hl : s.frames.freeFrameList with
    | nil => rw [hl] at h1; cases h1
    | cons f rest =>
      rw [hl] at h1
      cases h1
      rw [u32_page_succ (by omega)] at h2
      refine ih (P := fun i t => P (i + 1) t) (by omega) (hnext f rest hl) ?_ h2
      intro i hi t ht
      have := hstep (i + 1) (by omega) t ht
      rwa [show p + (i + 1) = p + 1 + i by omega] at this

/-- A property that each turn of the loop of `kfree` carries on holds when the loop is done. -/
theorem unmapPages_induct (hn : p + n < 1048576) (h0 : P 0 s)
    (hstep : ∀ i < n, ∀ t, P i t →
      KernelPage (p + i) ∧ present (t.kernelDirectory (pdx ((p + i) * 4096))) ∧
      (t.kernelTable (p + i) = 0 → P (i + 1) t) ∧
      (t.kernelTable (p + i) ≠ 0 → ppn (t.kernelTable (p + i)) < t.frames.numberOfFrames →
        P (i + 1) (t.unmapPage (p + i))))
    (h : unmapPages n (p * 4096) s = .ok () s') : P n s' := by
  induction n generalizing p s P with
  | zero =>
    cases h
    exact h0
  | succ n ih =>
    obtain ⟨hk, hpde, hzero, hnext⟩ := hstep 0 (by omega) s h0
    rw [Nat.add_zero] at hk hpde hzero hnext
    rw [unmapPages_succ] at h
    obtain ⟨_, s₁, h1, h2⟩ := bind_eq_ok.1 h
    rw [u32_page_succ (by omega)] at h2
    -- the first page, then the rest with the index moved by one
    have h1' : P 1 s₁ := by
      rw [unmapFrame_kernel hk hpde] at h1
      split at h1
      case isTrue hz =>
        cases h1
        exact hzero hz
      case isFalse hz =>
        split at h1
        case isTrue => cases h1
        case isFalse hlt =>
          obtain ⟨-, rfl⟩ := ok_inj.1 h1
          exact hnext hz (Nat.lt_of_not_le hlt)
    refine ih (P := fun i t => P (i + 1) t) (by omega) h1' ?_ h2
    intro i hi t ht
    have := hstep (i + 1) (by omega) t ht
    rwa [show p + (i + 1) = p + 1 + i by omega] at this

end

/-! ## What the loops leave alone -/

/-- The block lists and the boot directory are the same. -/
def SameLists (s s' : Kern) : Prop := s'.heap = s.heap ∧ s'.kernelDirectory = s.kernelDirectory

theorem SameLists.refl (s : Kern) : SameLists s s := ⟨rfl, rfl⟩

theorem SameLists.trans {s₁ s₂ s₃ : Kern} (h : SameLists s₁ s₂) (h' : SameLists s₂ s₃) :
    SameLists s₁ s₃ := ⟨h'.1.trans h.1, h'.2.trans h.2⟩

theorem SameLists.tables {s s' : Kern} (h : SameLists s s') (ht : HeapTables s) :
    HeapTables s' := by
  unfold HeapTables
  rwa [h.2]

theorem unmapFrame_sameLists {s s' : Kern} {p : Nat} (hp : KernelPage p)
    (hpde : present (s.kernelDirectory (pdx (p * 4096))))
    (h : unmapFrame .boot (p * 4096) s = .ok () s') : SameLists s s' := by
  rw [unmapFrame_kernel hp hpde] at h
  split at h
  case isTrue =>
    obtain ⟨-, rfl⟩ := ok_inj.1 h
    exact .refl _
  case isFalse =>
    split at h
    case isTrue => cases h
    case isFalse =>
      obtain ⟨-, rfl⟩ := ok_inj.1 h
      exact ⟨rfl, rfl⟩

/-- `map_frame` at a kernel page touches the frames and the page tables only, whatever the page
maps before. -/
theorem mapFrame_sameLists {create : DirPtr → Nat → K TablePtr} {s s' : Kern} {f p perm : Nat}
    (hp : KernelPage p) (hpde : present (s.kernelDirectory (pdx (p * 4096))))
    (h : mapFrameWith create .boot f (p * 4096) perm s = .ok () s') : SameLists s s' := by
  rw [mapFrameWith_kernel hp hpde] at h
  obtain ⟨pte, s₁, hpte, h⟩ := bind_eq_ok.1 h
  obtain ⟨-, rfl⟩ := ok_inj.1 hpte
  rw [Prog.ite_run] at h
  split at h
  case isTrue =>
    obtain ⟨-, rfl⟩ := ok_inj.1 h
    exact .refl _
  case isFalse =>
    obtain ⟨_, s₂, hun, h⟩ := bind_eq_ok.1 h
    have h₂ : SameLists s s₂ := by
      rw [Prog.ite_run] at hun
      split at hun
      case isTrue => exact unmapFrame_sameLists hp hpde hun
      case isFalse =>
        obtain ⟨-, rfl⟩ := ok_inj.1 hun
        exact .refl _
    rw [Prog.modify_bind_apply, writePte_boot] at h
    obtain ⟨-, rfl⟩ := ok_inj.1 h
    exact h₂.trans ⟨rfl, rfl⟩

section

variable {p n : Nat} {s s' : Kern}

theorem mapPages_sameLists {create : DirPtr → Nat → K TablePtr} (ht : HeapTables s)
    (hp : ∀ i < n, HeapPage (p + i))
    (h : mapPages (mapFrameWith create .boot) n (p * 4096) s = .ok () s') : SameLists s s' := by
  induction n generalizing p s with
  | zero =>
    obtain ⟨-, rfl⟩ := ok_inj.1 h
    exact .refl _
  | succ n ih =>
    have hp0 : HeapPage p := hp 0 (by omega)
    rw [mapPages_succ] at h
    obtain ⟨f, s₁, h1, h⟩ := bind_eq_ok.1 h
    obtain ⟨_, s₂, h2, h⟩ := bind_eq_ok.1 h
    have h₁ : SameLists s s₁ := by
      cases hl : s.frames.freeFrameList with
      | nil => rw [allocateFrame_nil hl] at h1; cases h1
      | cons g rest =>
        rw [allocateFrame_cons hl] at h1
        obtain ⟨-, rfl⟩ := ok_inj.1 h1
        exact ⟨rfl, rfl⟩
    -- the table of a heap page is there, so `create` is never called
    have h₂ := mapFrame_sameLists hp0.kernelPage ((h₁.tables ht).pde hp0) h2
    have h₁₂ := h₁.trans h₂
    rw [u32_page_succ (by unfold HeapPage at hp0; omega)] at h
    refine h₁₂.trans (ih (h₁₂.tables ht) (fun i hi => ?_) h)
    have := hp (i + 1) (by omega)
    rwa [show p + (i + 1) = p + 1 + i by omega] at this

theorem unmapPages_sameLists (ht : HeapTables s) (hp : ∀ i < n, HeapPage (p + i))
    (h : unmapPages n (p * 4096) s = .ok () s') : SameLists s s' := by
  induction n generalizing p s with
  | zero =>
    obtain ⟨-, rfl⟩ := ok_inj.1 h
    exact .refl _
  | succ n ih =>
    have hp0 : HeapPage p := hp 0 (by omega)
    rw [unmapPages_succ] at h
    obtain ⟨_, s₁, h1, h⟩ := bind_eq_ok.1 h
    have h₁ := unmapFrame_sameLists hp0.kernelPage (ht.pde hp0) h1
    rw [u32_page_succ (by unfold HeapPage at hp0; omega)] at h
    refine h₁.trans (ih (h₁.tables ht) (fun i hi => ?_) h)
    have := hp (i + 1) (by omega)
    rwa [show p + (i + 1) = p + 1 + i by omega] at this

end

end Fos
