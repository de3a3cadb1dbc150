import Fos.Boot
import Fos.KernelHeap.Strategy
import Fos.PageTables.NewDirectory

/-!
# The accounts at boot

The layout that boot fixes, and the invariant in the state it leaves: the only directory is
`ptr_page_directory`, no page is owned, and the only frames in use are static and those of the two
tables that boot allocates.
-/

namespace Fos

open Function (update)
open Prog (bind_eq_ok ok_inj)

/-- The frames in `free_frame_list` after `initialize_paging`, and the pages of the kernel space
that have a table but no static mapping. -/
def BootConfig.layout (c : BootConfig) : Layout where
  pool := {f | f ∈ (initialFrames c).freeFrameList}
  dynamic := {p | 977920 ≤ p ∧ p < 1048576 ∧ p / 1024 ≠ 957 ∧ p / 1024 ≠ 959 ∧
    initializeKernelTable c p = 0}
  outside := (initialFrames c).info
  lost := fun _ => 0
  heap_dynamic p hp := by
    have h := hp
    unfold HeapPage at h
    exact ⟨by omega, by omega, by omega, by omega, initializeKernelTable_heapPage hp⟩
  dynamic_kernel p hp := ⟨hp.1, hp.2.1, hp.2.2.1, hp.2.2.2.1⟩
  pool_lt f hf := by
    have h1 := c.frames_le
    have h2 := c.image_fits
    have h3 := c.extended_le
    have := mem_initialFrames.1 (show f ∈ (initialFrames c).freeFrameList from hf)
    omega
  pool_ge f hf := by
    have h3 := c.extended_le
    have := mem_initialFrames.1 (show f ∈ (initialFrames c).freeFrameList from hf)
    omega

/-- The roots when only page directories are in use. -/
def pageRoots (dirs : List DirPtr) : Roots := ⟨dirs, [], by simp⟩

theorem mem_pageRoots {dirs : List DirPtr} {dir : DirPtr} : dir ∈ pageRoots dirs ↔ dir ∈ dirs := by
  constructor
  · rintro (h | h)
    · exact h
    · cases h
  · exact .inl

section

variable {c : BootConfig} {lay : Layout} {G D : Set Nat} {dirs : Roots}
    {held : Set Nat} {s t : Kern}

theorem initializeKernelDirectory_user {i : Nat} (hi : i < 955) :
    initializeKernelDirectory c i = 0 := by
  unfold initializeKernelDirectory
  rw [show pdx 0xEF400000 = 957 by rfl, show pdx 0xEFC00000 = 959 by rfl,
    show pdx userTop = 955 by rfl, show pdx userLimit = 958 by rfl,
    show pdx kernelBase = 960 by rfl]
  rw [if_neg (by omega), if_neg (by omega), if_neg (by omega), if_neg (by omega)]

/-- At boot no live entry maps a frame. -/
theorem boot_live {x : Slot}
    (hx : x ∈ liveSlots c.layout (pageRoots [.boot]) (initializePaging c)) :
    (initializePaging c).entry x = 0 := by
  obtain ⟨t, j⟩ := x
  obtain ⟨hj, hx⟩ := hx
  cases t with
  | boot d => exact hx.2.2.2.2
  | directory => exact hx.elim
  | heap a =>
    obtain ⟨dir, hdir, i, hi, ha⟩ := hx
    have hboot : dir = .boot := List.mem_singleton.1 hdir
    subst hboot
    unfold Kern.table at ha
    rw [show (initializePaging c).pde .boot i = 0 from initializeKernelDirectory_user hi,
      if_neg not_present_zero] at ha
    cases ha

theorem boot_mapping (x : Slot) :
    (initializePaging c).mapping (liveSlots c.layout (pageRoots [.boot]) (initializePaging c)) x =
      none := by
  unfold Kern.mapping
  rw [if_neg]
  rintro ⟨hx, hp⟩
  rw [boot_live hx] at hp
  exact not_present_zero hp

theorem initialFrames_refs {f : Nat} (hf : f ∈ (initialFrames c).freeFrameList) :
    ((initialFrames c).info f).references = 0 := by
  have h1 := c.extended_le
  have := mem_initialFrames.1 hf
  show (if f < 3 ∨ 160 ≤ f ∧ f < c.imageEnd then (⟨1, 0⟩ : FrameInfo) else
    initializeFrameInfo).references = 0
  rw [if_neg (by omega)]
  rfl

theorem initialHeap_source : initialHeap.SourceOk :=
  ⟨by decide, by decide, by decide, by simp [initialHeap]⟩

theorem memOk_paging (c : BootConfig) :
    MemOk c.layout ∅ ∅ (pageRoots [.boot]) ∅ (initializePaging c) := by
  -- no page of a user is mapped yet, so no slot points anywhere
  have hpoint : ∀ f, RefPool.pointing ((initializePaging c).mapping
      (liveSlots c.layout (pageRoots [.boot]) (initializePaging c))) f = ∅ := by
    intro f
    ext x
    rw [RefPool.mem_pointing, boot_mapping]
    simp
  have hdir : ∀ dir ∈ pageRoots [.boot], dir = .boot := by
    intro dir hdir
    exact List.mem_singleton.1 (mem_pageRoots.1 hdir)
  have hpde : ∀ dir ∈ pageRoots [.boot], ∀ i < 955, (initializePaging c).pde dir i = 0 := by
    intro dir hd i hi
    rw [hdir dir hd]
    exact initializeKernelDirectory_user hi
  have hnone : ∀ dir ∈ pageRoots [.boot],
      ∀ i < 955, ¬ present ((initializePaging c).pde dir i) := by
    intro dir hd i hi hp
    rw [hpde dir hd i hi] at hp
    exact not_present_zero hp
  have hnoheap : ∀ d, .heap d ∉ pageRoots [.boot] := by
    intro d hd
    cases hdir _ hd
  have htables : HeapTables (initializePaging c) := fun i h1 h2 =>
    initializeKernelDirectory_present (by omega)
  refine ⟨⟨⟨⟨by simp, by simp, by simp⟩, htables, fun d hd => absurd hd (hnoheap d),
    fun dir hd i hi _ => hpde dir hd i hi, fun dir hd i hi hp => absurd hp (hnone dir hd i hi),
    fun dir hd i hi _ _ _ _ hp => absurd hp (hnone dir hd i hi),
    fun dir hd i hi hp => absurd hp (hnone dir hd i hi),
    fun d hd => absurd (.inl hd) (hnoheap d),
    fun d hd => absurd (.inr hd) (hnoheap d)⟩, ?_, by simp, ?_, ?_, fun f _ => rfl⟩, ?_, by simp,
    by simp⟩
  · refine ⟨?_, ?_, ?_, nodup_initialFrames c, fun f hf => hf, by simp, by simp, ?_⟩
    · simp [boot_mapping]
    · intro x f hx
      rw [boot_mapping] at hx
      cases hx
    · intro f hf
      rw [hpoint, Set.ncard_empty]
      exact initialFrames_refs hf
    · intro f hf
      rw [hpoint]
      exact iff_of_true hf ⟨rfl, rfl, fun h => h.elim⟩
  · exact fun x hx _ => boot_live hx
  · intro f hf
    have h1 := c.image_fits
    have h2 := c.extended_le
    have := mem_initialFrames.1 (show f ∈ (initialFrames c).freeFrameList from hf)
    show f < c.numberOfFrames
    omega
  · refine ⟨htables, by simp [initializePaging, initialHeap], ?_, ?_, ?_, ?_⟩
    · show List.Pairwise _ []
      exact List.Pairwise.nil
    · intro p hp
      show present (initializeKernelTable c p) ↔ _
      rw [initializeKernelTable_heapPage hp]
      refine iff_of_false not_present_zero ?_
      rintro ⟨b, hb, -⟩
      cases hb
    · exact fun p hp _ => initializeKernelTable_heapPage hp
    · exact initialHeap_source

/-! ## After boot -/

/-- The invariant does not read the page file, the environments and the shared objects. -/
theorem MemOk.setRest (h : MemOk lay G D dirs held s) (disk : Disk) (envs : Nat → Env)
    (shares : Shares) :
    MemOk lay G D dirs held { s with disk := disk, envs := envs, shares := shares } := by
  have ha := h.accounted
  have hd := ha.directories
  set t : Kern := { s with disk := disk, envs := envs, shares := shares }
  -- no table or entry is kept in these three fields
  have hpde : ∀ dir i, t.pde dir i = s.pde dir i := fun dir i => by cases dir <;> rfl
  have hentry : ∀ x, t.entry x = s.entry x := by rintro ⟨_ | _ | _, _⟩ <;> rfl
  have hdirs : Directories G dirs t :=
    hd.congr (fun _ _ => rfl) (fun _ _ => rfl) (fun dir _ i _ => hpde dir i) rfl
  have hlive : liveSlots lay dirs t = liveSlots lay dirs s :=
    liveSlots_congr fun dir hdir i hi =>
      hd.table_congr hdirs (fun _ _ => rfl) (.inl hdir) hi (hpde dir i)
  have hmap : t.mapping (liveSlots lay dirs t) = s.mapping (liveSlots lay dirs s) := by
    rw [hlive]
    exact mapping_congr fun y _ => hentry y
  refine ⟨⟨hdirs, ?_, ?_, ?_, ha.inRange, ha.outside⟩,
    h.heap.congr rfl (fun _ _ => rfl) fun _ _ => rfl,
    h.blocks, fun p hp => h.data_congr (fun _ _ => rfl) (fun dir _ i _ => hpde dir i) hp⟩
  · rw [hmap]
    exact ha.counted
  · rw [hmap]
    exact ha.unshared
  · intro x hx
    rw [hlive] at hx
    rw [hentry]
    exact ha.entry_zero x hx

/-- What boot leaves of the state before it: all but the memory and the shares. -/
structure BootRest (c : BootConfig) (s : Kern) : Prop where
  disk : s.disk = (initializePaging c).disk
  envs : s.envs = fun _ => emptyEnv
  offHeap : ∀ p, ¬ HeapPage p → s.kernelTable p = initializeKernelTable c p
  kernelDirectory : ∀ i, s.kernelDirectory i = initializeKernelDirectory c i
  static : ∀ f < 3, s.ram f = clearedPages c.ram f

/-- **After boot** the frames are accounted for. -/
theorem fosInitialize_boot (hb : fosInitialize (initializePaging c) = .ok () s) :
    MemOk c.layout ∅ ∅ (pageRoots [.boot]) ∅ s ∧ BootRest c s := by
  obtain ⟨_, s₁, hshares, hsems⟩ := bind_eq_ok.1 hb
  obtain ⟨va₁, t₁, hk₁, h1⟩ := bind_eq_ok.1 hshares
  obtain ⟨va₂, t₂, hk₂, h2⟩ := bind_eq_ok.1 hsems
  -- both tables are blocks of the kernel heap, and each allocation keeps the boot state
  have hkm : ∀ {s t : Kern} {size va : Nat},
      MemOk c.layout ∅ ∅ (pageRoots [.boot]) ∅ s ∧ BootRest c s → kmalloc size s = .ok va t →
      MemOk c.layout ∅ ∅ (pageRoots [.boot]) ∅ t ∧ BootRest c t := by
    rintro s t size va ⟨hs, hr⟩ hk
    rcases hs.kmalloc hk with ⟨-, rfl⟩ | ⟨b, -, -, -, -, -, -, -, hpde, -, hq, hok⟩
    · exact ⟨hs, hr⟩
    · refine ⟨hok, hq.disk.trans hr.disk, hq.envs.trans hr.envs, fun p hp => ?_, fun i => ?_,
        fun f hf => ?_⟩
      · rw [hq.kernelTable p (.inr hp), hr.offHeap p hp]
      · exact (hpde .boot (.inl List.mem_cons_self) i).trans (hr.kernelDirectory i)
      · exact ((hq.still hs).static f hf).trans (hr.static f hf)
  rw [Prog.ite_run] at h1 h2
  split at h1
  case isTrue => cases h1
  case isFalse =>
    split at h2
    case isTrue => cases h2
    case isFalse =>
      obtain ⟨-, rfl⟩ := ok_inj.1 h1
      obtain ⟨-, rfl⟩ := ok_inj.1 h2
      obtain ⟨hok, hr⟩ := hkm ⟨memOk_paging c, rfl, rfl, fun _ _ => rfl, fun _ => rfl,
        fun _ _ => rfl⟩ hk₁
      exact hkm ⟨hok.setRest _ _ (clearedShares _),
        hr.disk, hr.envs, hr.offHeap, hr.kernelDirectory, hr.static⟩ hk₂

/-- The choice of a placement strategy right after boot. -/
theorem fosInitialize_memOk_strategy (hb : fosInitialize (initializePaging c) = .ok () s)
    (st : KHeapPlacementStrategy) :
    MemOk c.layout ∅ ∅ (pageRoots [.boot]) ∅ (setStrategy st s) := by
  obtain ⟨h, -⟩ := fosInitialize_boot hb
  obtain ⟨hheap, -⟩ := fosInitialize_heapInv hb
  have hsrc : ({ s.heap with strategy := st } : Heap).SourceOk := by
    rw [hheap]
    cases st with
    | contAlloc => exact ⟨by decide, by decide, by decide, by simp [bootHeap]⟩
    | firstFit => exact bootHeap_partition
    | nextFit => exact bootHeap_partition
    | bestFit => trivial
    | worstFit => trivial
  refine ⟨h.accounted.setHeap _, ⟨h.heap.tables, h.heap.wf, h.heap.apart, h.heap.present_iff,
    h.heap.zero, hsrc⟩, h.blocks, ?_⟩
  rintro p ⟨⟩

end

end Fos
