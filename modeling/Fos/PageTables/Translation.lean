import Fos.PageTables.Pages
import Fos.PageTables.Boot

/-!
# Addresses of the kernel heap

`kheap_virtual_address` reads the one address that `map_frame` keeps for a frame. As long as the
kernel maps nothing but its heap, that is the heap page of the frame. The first mapping of a user
page breaks the law, and the test for frames without a page never finds one.
-/

namespace Fos

open Relation (ReflTransGen)
open Prog (bind_eq_ok bind_of_ok ok_inj)

/-- The frame is behind a page of the kernel heap. -/
def Kern.BacksHeap (s : Kern) (f : Nat) : Prop :=
  ∃ p, HeapPage p ∧ present (s.kernelTable p) ∧ s.kframe p = f

/-- The two translations are inverse to each other on the pages of the kernel heap, and the frames
behind no page have no address. -/
structure Translates (s : Kern) : Prop where
  inverse : ∀ va, HeapPage (ppn va) → present (s.kernelTable (ppn va)) →
    ∃ pa, kheapPhysicalAddress va s = .ok pa s ∧ kheapVirtualAddress s pa = va
  none : ∀ pa, ppn pa < s.frames.numberOfFrames → ¬ s.BacksHeap (ppn pa) →
    kheapVirtualAddress s pa = 0

/-- A call of the kernel heap. -/
inductive HeapCallStep : Kern → Kern → Prop
  | kmalloc {s t : Kern} {size va : Nat} (h : kmalloc size s = .ok va t) : HeapCallStep s t
  | kfree {s t : Kern} {va : Nat} (h : kfree va s = .ok () t) : HeapCallStep s t

/-- What the calls of the kernel heap keep. -/
structure TranslationInv (c : BootConfig) (s : Kern) : Prop where
  mem : MemOk c.layout ∅ ∅ (pageRoots [.boot]) ∅ s
  back : ∀ p, HeapPage p → present (s.kernelTable p) → (s.frames.info (s.kframe p)).va = p * 4096
  clear : ∀ f ∈ s.frames.freeFrameList, (s.frames.info f).va = 0
  offHeap : ∀ p, ¬ HeapPage p → s.kernelTable p = initializeKernelTable c p
  kernelDirectory : ∀ i, s.kernelDirectory i = initializeKernelDirectory c i

section

variable {c : BootConfig} {lay : Layout} {G D : Set Nat} {dirs : Roots} {held : Set Nat}
  {s s₀ t : Kern} {dir : DirPtr} {f p pa perm size va : Nat} {st : KHeapPlacementStrategy}

/-! ## The two translations -/

theorem pdx_page_of (va : Nat) : pdx (ppn va * 4096) = pdx va := by
  unfold pdx ppn
  omega

/-- `kheap_physical_address` inside a mapped page. -/
theorem kheapPhysicalAddress_heap (ht : HeapTables s) (hp : HeapPage (ppn va))
    (hlt : s.kframe (ppn va) < 1048576) :
    kheapPhysicalAddress va s = .ok (s.kframe (ppn va) * 4096 + va % 4096) s := by
  have hpde : present (s.kernelDirectory (pdx va)) := by
    rw [← pdx_page_of]
    exact ht.pde hp
  have hkernel : checkIfKernelAddress va := by
    unfold HeapPage ppn at hp
    unfold checkIfKernelAddress userTop
    omega
  -- the heap lies above both self-map entries
  have hself : ¬ selfMapped va := by
    unfold HeapPage ppn at hp
    unfold selfMapped pdx
    omega
  have hindex : pdx va * 1024 + ptx va = ppn va := by
    unfold HeapPage at hp
    unfold pdx ptx
    unfold ppn at hp ⊢
    omega
  have hu : u32 (s.kframe (ppn va) * 4096 + va % 4096) = s.kframe (ppn va) * 4096 + va % 4096 :=
    u32_of_lt (by omega)
  have hget : getPageTable .boot va s = .ok (some (.boot (pdx va))) s := by
    rw [getPageTable_boot hpde, tableOf_kernel hkernel hself (listsBootTable_self hpde)]
  rw [kheapPhysicalAddress, bind_of_ok hget]
  dsimp only
  rw [bind_of_ok (readPte_boot _ _ s), hindex]
  show EStateM.Result.ok (u32 (s.kframe (ppn va) * 4096 + va % 4096)) s = _
  rw [hu]

/-- `kheap_virtual_address` adds the offset to the address kept for the frame. -/
theorem kheapVirtualAddress_of_va (hva : (s.frames.info (ppn pa)).va = 0) :
    kheapVirtualAddress s pa = pa % 4096 := by
  unfold kheapVirtualAddress
  rw [hva, Nat.zero_add, u32_of_lt (by omega)]

/-! ## Runs of the kernel heap -/

/-- The entry of a mapped heap page is live, so its frame is not free. -/
theorem TranslationInv.notFree (h : TranslationInv c s) (hp : HeapPage p)
    (hpr : present (s.kernelTable p)) : s.kframe p ∉ s.frames.freeFrameList ∧
    s.kframe p ∈ c.layout.pool := by
  have hpr' : present (s.entry (bootSlot p)) := by
    rw [entry_bootSlot]
    exact hpr
  have hlive : bootSlot p ∈ liveSlots c.layout (pageRoots [.boot]) s :=
    bootSlot_live (c.layout.heap_dynamic p hp)
  have hm := mapping_of_present hlive hpr'
  rw [entry_bootSlot] at hm
  exact ⟨h.mem.counted.notFree hm, h.mem.counted.inPool _ _ hm⟩

theorem TranslationInv.kmalloc (h : TranslationInv c s) (hk : Fos.kmalloc size s = .ok va t) :
    TranslationInv c t := by
  rcases h.mem.kmalloc hk with ⟨-, rfl⟩ | ⟨b, hb, -, -, -, -, -, honly, hpde, hacc, -, hok⟩
  · exact h
  · refine ⟨hok, fun p hp hpr => ?_, fun f hf => ?_, fun p hp => ?_, fun i => ?_⟩
    · by_cases hpb : p ∈ b.pages
      · exact hacc.directories.owned.back p (.inr hpb)
      · -- the page was mapped before, and its frame was not free
        have hsame := honly.kernelTable p hpb
        rw [hsame] at hpr
        have hkf : t.kframe p = s.kframe p := by
          unfold Kern.kframe
          rw [hsame]
        rw [hkf, honly.info _ (h.notFree hp hpr).1]
        exact h.back p hp hpr
    · rw [honly.infoFree f hf]
      exact h.clear f (honly.free.subset hf)
    · rw [honly.kernelTable p fun hpb => hp (hb.heapPage hpb)]
      exact h.offHeap p hp
    · rw [honly.kernelDirectory]
      exact h.kernelDirectory i

theorem TranslationInv.kfree (h : TranslationInv c s) (hk : Fos.kfree va s = .ok () t) :
    TranslationInv c t := by
  rcases h.mem.kfree hk (fun _ _ _ _ _ hp => hp) with ⟨-, rfl⟩ | ⟨b, hmem, hb, -, honly, -, -, hok⟩
  · exact h
  · -- only the pages of the freed block and their frames change
    have hmapped : ∀ q ∈ b.pages, present (s.kernelTable q) :=
      fun q hq => (h.mem.heap.present_iff q (hb.heapPage hq)).2 ⟨b, hmem, hq⟩
    refine ⟨hok, fun p hp hpr => ?_, fun f hf => ?_, fun p hp => ?_, fun i => ?_⟩
    · have hpb : p ∉ b.pages := by
        intro hpb
        rw [honly.cleared p hpb] at hpr
        exact not_present_zero hpr
      have hsame := honly.kernelTable p hpb
      rw [hsame] at hpr
      have hkf : t.kframe p = s.kframe p := by
        unfold Kern.kframe
        rw [hsame]
      rw [hkf, honly.info]
      · exact h.back p hp hpr
      · -- no page of the block has the same frame: the frame keeps one address
        intro q hq he
        have h1 := h.back p hp hpr
        rw [he, h.back q (hb.heapPage hq) (hmapped q hq)] at h1
        obtain rfl : q = p := by omega
        exact hpb hq
    · rcases honly.reset f hf with hfs | hva
      · rw [honly.info]
        · exact h.clear f hfs
        · intro q hq he
          exact (h.notFree (hb.heapPage hq) (hmapped q hq)).1 (he ▸ hfs)
      · exact hva
    · rw [honly.kernelTable p fun hpb => hp (hb.heapPage hpb)]
      exact h.offHeap p hp
    · rw [honly.kernelDirectory]
      exact h.kernelDirectory i

theorem initialFrames_va (c : BootConfig) (f : Nat) : ((initialFrames c).info f).va = 0 := by
  show (if f < 3 ∨ 160 ≤ f ∧ f < c.imageEnd then (⟨1, 0⟩ : FrameInfo) else initializeFrameInfo).va = 0
  split <;> rfl

theorem TranslationInv.setShares (h : TranslationInv c s) (sh : Shares) :
    TranslationInv c (s.setShares sh) :=
  ⟨h.mem.setRest s.disk s.envs sh, h.back, h.clear, h.offHeap, h.kernelDirectory⟩

/-- Boot calls `kmalloc` twice. -/
theorem translationInv_boot (hb : fosInitialize (initializePaging c) = .ok () s)
    (st : KHeapPlacementStrategy) : TranslationInv c (setStrategy st s) := by
  have hpaging : TranslationInv c (initializePaging c) := by
    refine ⟨memOk_paging c, fun p hp hpr => ?_, fun f _ => initialFrames_va c f, fun _ _ => rfl,
      fun _ => rfl⟩
    have h0 : (initializePaging c).kernelTable p = 0 := initializeKernelTable_heapPage hp
    rw [h0] at hpr
    exact absurd hpr not_present_zero
  have hst := fosInitialize_memOk_strategy hb st
  obtain ⟨_, s₁, hshares, hsems⟩ := bind_eq_ok.1 hb
  obtain ⟨va₁, t₁, hk₁, h1⟩ := bind_eq_ok.1 hshares
  obtain ⟨va₂, t₂, hk₂, h2⟩ := bind_eq_ok.1 hsems
  rw [Prog.ite_run] at h1 h2
  split at h1
  case isTrue => cases h1
  case isFalse =>
    split at h2
    case isTrue => cases h2
    case isFalse =>
      obtain ⟨-, rfl⟩ := ok_inj.1 h1
      obtain ⟨-, rfl⟩ := ok_inj.1 h2
      have hinv := ((hpaging.kmalloc hk₁).setShares _).kmalloc hk₂
      exact ⟨hst, hinv.back, hinv.clear, hinv.offHeap, hinv.kernelDirectory⟩

theorem HeapCallStep.inv (hi : TranslationInv c s) (h : HeapCallStep s t) : TranslationInv c t := by
  cases h with
  | kmalloc hk => exact hi.kmalloc hk
  | kfree hk => exact hi.kfree hk

/-- In a run of the heap calls the frames behind no heap page have no address. -/
theorem TranslationInv.noAddress (h : TranslationInv c s) (hf : ¬ s.BacksHeap f) :
    (s.frames.info f).va = 0 := by
  by_cases hpool : f ∈ c.layout.pool
  · by_cases hfree : f ∈ s.frames.freeFrameList
    · exact h.clear f hfree
    · -- the frame is entered somewhere, and only heap pages are
      rw [h.mem.counted.free_iff f hpool] at hfree
      have hne : RefPool.pointing (s.mapping (liveSlots c.layout (pageRoots [.boot]) s)) f ≠ ∅ :=
        fun hempty => hfree ⟨hempty, rfl, fun h => h⟩
      obtain ⟨⟨tbl, j⟩, hx⟩ := Set.nonempty_iff_ne_empty.2 hne
      rw [RefPool.mem_pointing] at hx
      unfold Kern.mapping at hx
      split at hx
      case isFalse => cases hx
      case isTrue hlive =>
        obtain ⟨⟨hj, hx'⟩, hpr⟩ := hlive
        obtain rfl := Option.some.inj hx
        cases tbl with
        | boot d =>
          exfalso
          apply hf
          by_cases hp : HeapPage (d * 1024 + j)
          · exact ⟨d * 1024 + j, hp, hpr, rfl⟩
          · have h0 : s.kernelTable (d * 1024 + j) = 0 := (h.offHeap _ hp).trans hx'.2.2.2.2
            change present (s.kernelTable (d * 1024 + j)) at hpr
            rw [h0] at hpr
            exact absurd hpr not_present_zero
        | directory => exact hx'.elim
        | heap a =>
          obtain ⟨dir, hdir, i, hi, ha⟩ := hx'
          obtain rfl : dir = .boot := List.mem_singleton.1 hdir
          have h0 : s.pde .boot i = 0 :=
            (h.kernelDirectory i).trans (initializeKernelDirectory_user hi)
          unfold Kern.table at ha
          rw [h0, if_neg not_present_zero] at ha
          cases ha
  · rw [h.mem.accounted.outside f hpool]
    exact initialFrames_va c f

theorem TranslationInv.inverse (h : TranslationInv c s) (hp : HeapPage (ppn va))
    (hpr : present (s.kernelTable (ppn va))) :
    ∃ pa, kheapPhysicalAddress va s = .ok pa s ∧ kheapVirtualAddress s pa = va := by
  have hlt : s.kframe (ppn va) < 1048576 := c.layout.pool_lt _ (h.notFree hp hpr).2
  refine ⟨_, kheapPhysicalAddress_heap h.mem.heap.tables hp hlt, ?_⟩
  have hppn : ppn (s.kframe (ppn va) * 4096 + va % 4096) = s.kframe (ppn va) := by
    unfold ppn
    omega
  have hmod : (s.kframe (ppn va) * 4096 + va % 4096) % 4096 = va % 4096 := by omega
  have hsum : ppn va * 4096 + va % 4096 = va := by
    unfold ppn
    omega
  have haddr : va < 4294967296 := by
    have := hp.addr_lt
    unfold HeapPage at hp
    omega
  unfold kheapVirtualAddress
  rw [hppn, hmod, h.back _ hp hpr, hsum]
  exact u32_of_lt haddr

/-- **The translations while only the kernel heap is mapped.** In every state that `kmalloc` and
`kfree` reach from boot under any strategy, `kheap_virtual_address` undoes `kheap_physical_address`
at every address of a mapped heap page, and for a frame behind no heap page it returns zero exactly
at the first byte of the frame. -/
theorem kheapTranslation_iff (hboot : fosInitialize (initializePaging c) = .ok () s₀)
    (hrun : ReflTransGen HeapCallStep (setStrategy st s₀) s) :
    (∀ va, HeapPage (ppn va) → present (s.kernelTable (ppn va)) →
      ∃ pa, kheapPhysicalAddress va s = .ok pa s ∧ kheapVirtualAddress s pa = va) ∧
    ∀ pa, ppn pa < s.frames.numberOfFrames → ¬ s.BacksHeap (ppn pa) →
      (kheapVirtualAddress s pa = 0 ↔ pa % pageSize = 0) := by
  have hi := Prog.invariant (translationInv_boot hboot st) (fun _ _ => HeapCallStep.inv) hrun
  refine ⟨fun va => hi.inverse, fun pa _ hf => ?_⟩
  rw [kheapVirtualAddress_of_va (hi.noAddress hf)]

/-- A run of one call. -/
theorem kheapTranslation_kmalloc :
    let s := Prog.final (kmalloc 5000 (setStrategy .nextFit smallBoot))
    (∀ va, HeapPage (ppn va) → present (s.kernelTable (ppn va)) →
      ∃ pa, kheapPhysicalAddress va s = .ok pa s ∧ kheapVirtualAddress s pa = va) ∧
    ∀ pa, ppn pa < s.frames.numberOfFrames → ¬ s.BacksHeap (ppn pa) →
      (kheapVirtualAddress s pa = 0 ↔ pa % pageSize = 0) := by
  have hk : kmalloc 5000 (setStrategy .nextFit smallBoot) =
      .ok 0xF6004000 (Prog.final (kmalloc 5000 (setStrategy .nextFit smallBoot))) :=
    Prog.ok_of_value (by decide +kernel)
  exact kheapTranslation_iff smallBoot_ok (.single (.kmalloc hk))

/-- The second byte of a frame behind no heap page has an address. -/
theorem kheapTranslation_offset :
    ¬ ∀ s, ReflTransGen HeapCallStep (setStrategy .nextFit smallBoot) s →
    Translates s := by
  intro hall
  have hi := translationInv_boot smallBoot_ok .nextFit
  have h0 := (hall _ .refl).none 1 (by decide +kernel)
  have hval : kheapVirtualAddress (setStrategy .nextFit smallBoot) 1 = 1 := by decide +kernel
  rw [hval] at h0
  apply absurd (h0 _) (by decide)
  rintro ⟨p, hp, hpr, hzero⟩
  have hpool := (hi.notFree hp hpr).2
  rw [hzero] at hpool
  exact absurd (smallMachine.layout.pool_ge 0 hpool) (by omega)

/-- **A user page breaks the law.** `map_frame` keeps the user address for the frame, so the address
leads to no heap page. -/
theorem MapsUser.not_translates (h : MapsUser dirs D held dir (ppn va) f va perm s t)
    (ht : HeapTables t) (hva : va < userTop) (hne : va ≠ 0)
    (hf : f < t.frames.numberOfFrames) (hlt : f < 1048576) : ¬ Translates t := by
  intro htr
  have hppn : ppn (f * 4096) = f := ppn_page f
  have haddr : kheapVirtualAddress t (f * 4096) = va := by
    unfold kheapVirtualAddress
    rw [hppn, h.infoSelf, Nat.mul_mod_left, Nat.add_zero]
    show u32 va = va
    exact u32_of_lt (by unfold userTop at hva; omega)
  by_cases hb : t.BacksHeap f
  · obtain ⟨p, hp, hpr, rfl⟩ := hb
    have hpage : ppn (p * 4096) = p := ppn_page p
    obtain ⟨pa, hpa, hback⟩ := htr.inverse (p * 4096) (by rwa [hpage]) (by rwa [hpage])
    rw [kheapPhysicalAddress_page ht hp hlt] at hpa
    obtain ⟨rfl, -⟩ := ok_inj.1 hpa
    rw [haddr] at hback
    unfold HeapPage at hp
    unfold userTop at hva
    omega
  · have hz := htr.none (f * 4096) (by rwa [hppn]) (by rwa [hppn])
    exact hne (haddr.symm.trans hz)

end

end Fos
