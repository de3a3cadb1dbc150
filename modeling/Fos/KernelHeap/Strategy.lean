import Fos.KernelHeap.Runs

/-!
# Switching the placement strategy

Runs of `kmalloc` and `kfree` in which the strategy also switches to and from `CONTALLOC`. The
three strategies allocate from different records: continuous allocation from the cursor
`last_va_in_kheap`, first fit and next fit from `Block_info_free_list`. Neither kind of allocation
enters what it takes in the record of the other, so a switch can hand out a live page again.
-/

namespace Fos

open Relation (ReflTransGen)
open Prog (bind_eq_ok ok_inj final value ok_of_value)

/-! ## Live allocations -/

/-- The two ranges share no address. -/
def Allocation.Apart (a b : Allocation) : Prop :=
  a.start + a.size ≤ b.start ∨ b.start + b.size ≤ a.start

/-- The live allocations are pairwise disjoint runs of pages of the kernel heap. -/
structure LiveOk (live : List Allocation) : Prop where
  pages : ∀ a ∈ live, a.start % pageSize = 0 ∧ a.size % pageSize = 0
  inside : ∀ a ∈ live, kernelHeapStart ≤ a.start ∧ a.start + a.size ≤ kernelHeapMax
  disjoint : live.Pairwise Allocation.Apart

/-- The calls of a run. -/
inductive HeapCall
  | kmalloc (size : Nat)
  | kfree (va : Nat)
  | setContAlloc
  | setFirstFit
  | setNextFit

/-- The live allocations of non-zero size after `kmalloc` returned `va` for `size` bytes. -/
def recorded (live : List Allocation) (va size : Nat) : List Allocation :=
  if va = 0 ∨ roundup size pageSize = 0 then live else ⟨va, roundup size pageSize⟩ :: live

/-- The live allocations after `kfree va`: the one that starts at `va` is gone. When an empty
allocation starts there too, it is the one whose descriptor `kfree` finds. -/
def released (live : List Allocation) (va : Nat) (taken : List BlockInfo) : List Allocation :=
  match firstWhere (fun bi => bi.startVa = va) taken with
  | none => live
  | some bi => live.erase bi.elem.allocation

/-- One call, on the kernel state and the live allocations of non-zero size. -/
inductive HeapCall.Step : HeapCall → Kern × List Allocation → Kern × List Allocation → Prop
  | kmalloc {s s' : Kern} {live : List Allocation} {size va : Nat}
      (h : Fos.kmalloc size s = .ok va s') :
      Step (.kmalloc size) (s, live) (s', recorded live va size)
  | kfree {s s' : Kern} {live : List Allocation} {va : Nat} (h : Fos.kfree va s = .ok () s') :
      Step (.kfree va) (s, live) (s', released live va s.heap.blockInfoTakenList)
  | setContAlloc (s : Kern) (live : List Allocation) :
      Step .setContAlloc (s, live) (setStrategy .contAlloc s, live)
  | setFirstFit (s : Kern) (live : List Allocation) :
      Step .setFirstFit (s, live) (setStrategy .firstFit s, live)
  | setNextFit (s : Kern) (live : List Allocation) :
      Step .setNextFit (s, live) (setStrategy .nextFit s, live)

/-- The allocations that are live after boot: the tables of semaphores and of shared objects. -/
def bootLive : List Allocation :=
  [⟨kernelHeapStart + 0x2000, 0x2000⟩, ⟨kernelHeapStart, 0x2000⟩]

/-- A run from boot, with the live allocations it leaves. -/
def SwitchingRun (ok : HeapCall → Kern × List Allocation → Prop) (c : BootConfig)
    (s : Kern) (live : List Allocation) : Prop :=
  ∃ s₀, fosInitialize (initializePaging c) = .ok () s₀ ∧
    ReflTransGen (fun x y => ∃ call : HeapCall, ok call x ∧ call.Step x y) (s₀, bootLive) (s, live)

/-! ## Boot switches straight into a collision -/

/-- `kmalloc(4096)` under continuous allocation and then under first fit. -/
def collisionState : Kern :=
  final (kmalloc 4096 (setStrategy .firstFit (final (kmalloc 4096 smallBoot))))

/-- Not every run keeps the live allocations disjoint: after boot, `kmalloc(4096)` under
`CONTALLOC` and `kmalloc(4096)` under `FIRSTFIT` both return `0xF6004000`. -/
theorem switching_unsafe : ¬ ∀ (c : BootConfig) (s : Kern) (live : List Allocation),
    SwitchingRun (fun _ _ => True) c s live → LiveOk live := by
  intro h
  have h1 : kmalloc 4096 smallBoot = .ok 0xF6004000 (final (kmalloc 4096 smallBoot)) :=
    ok_of_value (by decide +kernel)
  have h2 : kmalloc 4096 (setStrategy .firstFit (final (kmalloc 4096 smallBoot))) =
      .ok 0xF6004000 collisionState := ok_of_value (by decide +kernel)
  have hrun := h smallMachine collisionState _ ⟨smallBoot, smallBoot_ok,
    .tail (.tail (.tail .refl ⟨_, trivial, .kmalloc h1⟩) ⟨_, trivial, .setFirstFit _ _⟩)
      ⟨_, trivial, .kmalloc h2⟩⟩
  have hr : roundup 4096 pageSize = 4096 := by decide +kernel
  have hd := hrun.disjoint
  simp [recorded, hr, Allocation.Apart] at hd

/-! ## When switching is safe -/

/-- The record that the strategy allocates from holds no page of a live allocation: under
continuous allocation the pages from the cursor on, under first fit and next fit the free list. -/
def RecordAccurate (h : Heap) (live : List Allocation) : Prop :=
  match h.strategy with
  | .contAlloc => kernelHeapStart ≤ h.lastVaInKheap ∧ h.lastVaInKheap ≤ kernelHeapMax ∧
      ∀ a ∈ live, a.start + a.size ≤ h.lastVaInKheap
  | .firstFit | .nextFit => ∀ b ∈ h.blockInfoFreeList, ∀ a ∈ live,
      b.size = 0 ∨ b.allocation.Apart a
  | .bestFit | .worstFit => True

/-- The condition on a call: a `kmalloc` of non-zero size finds the record of its strategy
accurate. -/
def HeapCall.Accurate : HeapCall → Kern × List Allocation → Prop
  | .kmalloc size, (s, live) => roundup size pageSize ≠ 0 → RecordAccurate s.heap live
  | _, _ => True

/-- A block is a run of pages of the heap, unless it is empty. -/
structure BlockInfo.InHeap (b : BlockInfo) : Prop where
  start_aligned : b.startVa % 4096 = 0
  size_aligned : b.size % 4096 = 0
  start_lt : b.startVa < 4294967296
  inside : b.size ≠ 0 → kernelHeapStart ≤ b.startVa ∧ b.startVa + b.size ≤ kernelHeapMax

theorem BlockInfo.InHeap.end_lt {b : BlockInfo} (hb : b.InHeap) :
    b.startVa + b.size < 4294967296 := by
  by_cases h : b.size = 0
  · have := hb.start_lt
    omega
  · have := (hb.inside h).2
    unfold kernelHeapMax at this
    omega

theorem BlockInfo.InHeap.size_lt {b : BlockInfo} (hb : b.InHeap) : b.size < 268435456 := by
  by_cases h : b.size = 0
  · omega
  · have := hb.inside h
    unfold kernelHeapStart kernelHeapMax at this
    omega

theorem inHeap_merge {b c : BlockInfo} (hb : b.InHeap) (hc : c.InHeap)
    (hadj : u32 (b.startVa + b.size) = c.startVa) (id : Nat) :
    (⟨id, b.startVa, u32 (b.size + c.size)⟩ : BlockInfo).InHeap := by
  rw [u32_of_lt hb.end_lt] at hadj
  have h1 := hb.size_aligned
  have h2 := hc.size_aligned
  have hu : u32 (b.size + c.size) = b.size + c.size := by
    have := hb.size_lt
    have := hc.size_lt
    exact u32_of_lt (by omega)
  rw [hu]
  refine ⟨hb.start_aligned, ?_, hb.start_lt, ?_⟩
  · change (b.size + c.size) % 4096 = 0
    omega
  · intro hne
    change kernelHeapStart ≤ b.startVa ∧ b.startVa + (b.size + c.size) ≤ kernelHeapMax
    change b.size + c.size ≠ 0 at hne
    -- an empty block may lie anywhere, so the bounds come from the other one
    by_cases hb0 : b.size = 0
    · have := hc.inside (by omega)
      omega
    · have hbi := hb.inside hb0
      by_cases hc0 : c.size = 0
      · omega
      · have := hc.inside hc0
        omega

theorem Merge.inHeap {take m : BlockInfo} {X : List BlockInfo} (h : Merge take X m)
    (htake : take.InHeap) (hX : ∀ b ∈ X, b.InHeap) : m.InHeap := by
  cases h with
  | alone => exact htake
  | @nex nex h =>
    have := inHeap_merge htake (hX nex (by simp)) h nex.id
    rwa [Nat.add_comm take.size nex.size] at this
  | @pre pre h => exact inHeap_merge (hX pre (by simp)) htake h pre.id
  | @both pre nex h h' =>
    exact inHeap_merge (hX pre (by simp)) (inHeap_merge htake (hX nex (by simp)) h' take.id) h pre.id

theorem BlockInfo.InHeap.heapPage {b : BlockInfo} (hb : b.InHeap) {i : Nat}
    (hi : i < b.size / 4096) : HeapPage (b.startVa / 4096 + i) := by
  have h1 := hb.inside (by omega)
  have h2 := hb.start_aligned
  rw [heapPage_iff]
  unfold kernelHeapStart kernelHeapMax at *
  omega

theorem BlockInfo.InHeap.start_eq {b : BlockInfo} (hb : b.InHeap) :
    b.startVa = b.startVa / 4096 * 4096 := by
  have := hb.start_aligned
  omega

theorem BlockInfo.InHeap.carved {b : BlockInfo} (hb : b.InHeap) {size : Nat}
    (hs : size % 4096 = 0) (hle : size ≤ b.size) : (b.carved size).InHeap := by
  have hu : u32 (b.startVa + size) = b.startVa + size := by
    have := hb.end_lt
    exact u32_of_lt (by omega)
  obtain ⟨h1, h2, h3, h4⟩ := hb
  refine ⟨?_, ?_, u32_lt _, ?_⟩
  · simp only [BlockInfo.carved, hu]; omega
  · simp only [BlockInfo.carved]; omega
  · simp only [BlockInfo.carved, hu]
    intro hne
    have := h4 (by omega)
    omega

theorem carved_inHeap {found : Place BlockInfo} (hin : ∀ b ∈ found.list, b.InHeap) {size : Nat}
    (hs : size % 4096 = 0) (hle : size ≤ found.elem.size) :
    ∀ b ∈ found.carved size, b.InHeap := by
  intro b hmem
  rcases mem_carved hmem with rfl | hmem
  · exact (hin _ (by simp [Place.list])).carved hs hle
  · exact hin b hmem

/-- What a run keeps whatever the strategies do: every block that is not empty is a run of pages of
the heap, and so is every live allocation, which no other one meets. -/
structure SwitchInv (s : Kern) (live : List Allocation) : Prop where
  tables : HeapTables s
  blocks : ∀ b ∈ s.heap.blockInfoFreeList ++ s.heap.blockInfoTakenList, b.InHeap
  cursor : s.heap.lastVaInKheap % 4096 = 0 ∧ s.heap.lastVaInKheap < 4294967296
  liveOk : LiveOk live
  ledger : live.Perm ((s.heap.blockInfoTakenList.filter (·.size ≠ 0)).map BlockInfo.allocation)

section

variable {s s' : Kern} {live : List Allocation} {size va start : Nat}

/-- The pages `kmalloc` is about to map lie in the heap. -/
theorem SwitchInv.source_inHeap (hi : SwitchInv s live) (hal : size % 4096 = 0)
    (hacc : size ≠ 0 → RecordAccurate s.heap live) (hsrc : s.heap.Source start size) (id : Nat) :
    (⟨id, start, size⟩ : BlockInfo).InHeap := by
  have hfit : (∃ found : Place BlockInfo, s.heap.blockInfoFreeList = found.list ∧
      size ≤ found.elem.size ∧ start = found.elem.startVa) →
      (⟨id, start, size⟩ : BlockInfo).InHeap := by
    rintro ⟨found, hlist, hle, rfl⟩
    have hf : found.elem.InHeap := hi.blocks _ (by rw [hlist]; simp [Place.list])
    refine ⟨hf.start_aligned, hal, hf.start_lt, fun hne => ?_⟩
    have hne' : size ≠ 0 := hne
    have := hf.inside (by omega)
    exact ⟨this.1, by dsimp only; omega⟩
  unfold Heap.Source at hsrc
  unfold RecordAccurate at hacc
  cases hst : s.heap.strategy <;> rw [hst] at hsrc hacc
  case contAlloc =>
    obtain ⟨rfl, hle⟩ := hsrc
    refine ⟨hi.cursor.1, hal, hi.cursor.2, fun hne => ?_⟩
    obtain ⟨h1, h2, -⟩ := hacc hne
    rw [u32Sub_of_le h2 (by decide)] at hle
    exact ⟨h1, by dsimp only; omega⟩
  case firstFit => exact hfit hsrc
  case nextFit => exact hfit hsrc
  case bestFit | worstFit => exact hsrc.elim

/-- The pages `kmalloc` takes from an accurate record belong to no live allocation. -/
theorem source_apart (hacc : RecordAccurate s.heap live) (hsrc : s.heap.Source start size)
    (hne : size ≠ 0) : ∀ a ∈ live, (⟨start, size⟩ : Allocation).Apart a := by
  intro a ha
  have hfit : (∀ b ∈ s.heap.blockInfoFreeList, ∀ a ∈ live, b.size = 0 ∨ b.allocation.Apart a) →
      (∃ found : Place BlockInfo, s.heap.blockInfoFreeList = found.list ∧
        size ≤ found.elem.size ∧ start = found.elem.startVa) →
      (⟨start, size⟩ : Allocation).Apart a := by
    rintro hacc ⟨found, hlist, hle, rfl⟩
    rcases hacc found.elem (by rw [hlist]; simp [Place.list]) a ha with h0 | h | h
    · omega
    · left
      change found.elem.startVa + found.elem.size ≤ a.start at h
      dsimp only
      omega
    · exact .inr h
  unfold Heap.Source at hsrc
  unfold RecordAccurate at hacc
  cases hst : s.heap.strategy <;> rw [hst] at hsrc hacc
  case contAlloc =>
    obtain ⟨rfl, -⟩ := hsrc
    exact .inr (hacc.2.2 a ha)
  case firstFit => exact hfit hacc hsrc
  case nextFit => exact hfit hacc hsrc
  case bestFit | worstFit => exact hsrc.elim

/-- A `kmalloc` that finds its record accurate changes nothing or enters one block. -/
theorem SwitchInv.kmalloc_cases (hi : SwitchInv s live)
    (hacc : roundup size pageSize ≠ 0 → RecordAccurate s.heap live)
    (h : Fos.kmalloc size s = .ok va s') :
    (va = 0 ∧ s' = s) ∨ ∃ b, s.heap.Alloc s'.heap b ∧ b.size = roundup size pageSize ∧
      va = b.startVa ∧ b.InHeap ∧ HeapTables s' := by
  have hkeep : ∀ (b : BlockInfo) h₁ t, b.InHeap → mapPages
      (mapFrameWith (createPageTableWith kmallocNested) .boot) (b.size / pageSize) b.startVa
        (s.setHeap h₁) = .ok () t → SameLists (s.setHeap h₁) t := by
    intro b h₁ t hb hmap
    rw [hb.start_eq] at hmap
    exact mapPages_sameLists hi.tables (fun i hlt => hb.heapPage hlt) hmap
  have hcall := kmallocWith_ok (fun start h₁ t hsrc hmap =>
    (hkeep ⟨0, start, roundup size pageSize⟩ h₁ t
      (hi.source_inHeap (roundup_mod size) hacc hsrc 0) hmap).1) h
  rcases hcall with hnull | ⟨b, h', ha, hsize, hva, h₁, s₁, hmap, rfl⟩
  · exact .inl hnull
  · have hb : b.InHeap := hi.source_inHeap (by rw [hsize]; exact roundup_mod size)
      (by rwa [hsize]) ha.source b.id
    exact .inr ⟨b, ha, hsize, hva, hb, (hkeep b h₁ s₁ hb hmap).tables hi.tables⟩

/-- A `kmalloc` that finds its record accurate keeps the invariant. -/
theorem SwitchInv.kmalloc (hi : SwitchInv s live)
    (hacc : roundup size pageSize ≠ 0 → RecordAccurate s.heap live)
    (h : Fos.kmalloc size s = .ok va s') : SwitchInv s' (recorded live va size) := by
  rcases hi.kmalloc_cases hacc h with ⟨rfl, rfl⟩ | ⟨b, ha, hsize, rfl, hb, htables⟩
  · rw [recorded, if_pos (.inl rfl)]
    exact hi
  · -- a block that is not empty does not start at the null address
    have hrec : recorded live b.startVa size =
        if b.size = 0 then live else b.allocation :: live := by
      unfold recorded
      rw [← hsize]
      by_cases h0 : b.size = 0
      · rw [if_pos h0, if_pos (.inr h0)]
      · have hne : b.startVa ≠ 0 := by
          have := (hb.inside h0).1
          unfold kernelHeapStart at this
          omega
        rw [if_neg h0, if_neg (by rw [not_or]; exact ⟨hne, h0⟩)]
        rfl
    rw [hrec]
    have hal : b.size % 4096 = 0 := hb.size_aligned
    refine ⟨htables, ?_, ?_, ?_, ?_⟩
    · intro c hc
      rw [List.mem_append, ha.taken.mem_iff, List.mem_cons] at hc
      rcases hc with hc | rfl | hc
      · cases ha with
        | fit found hfit ha =>
          rw [ha.free'] at hc
          exact carved_inHeap (fun d hd => hi.blocks d (by simp [ha.free, hd])) hal ha.fits c hc
        | cont rest hst hstart hle haligned hfree heq =>
          rw [heq] at hc
          exact hi.blocks c (List.mem_append_left _ hc)
      · exact hb
      · exact hi.blocks c (by simp [hc])
    · have hadv : u32 (s.heap.lastVaInKheap + b.size) % 4096 = 0 := by
        have := hi.cursor.1
        unfold u32
        omega
      cases ha with
      | fit found hfit ha =>
        rcases ha.cursor with hc | hc <;> rw [hc]
        · exact ⟨hadv, u32_lt _⟩
        · exact ⟨hb.start_aligned, hb.start_lt⟩
      | cont rest hst hstart hle haligned hfree heq =>
        rw [heq]
        exact ⟨hadv, u32_lt _⟩
    · split
      case isTrue => exact hi.liveOk
      case isFalse hne =>
        -- what is handed out overlaps no allocation, since the record was accurate
        have hacc' := hacc (by rwa [← hsize])
        refine ⟨?_, ?_, ?_⟩
        · rintro a (_ | ⟨_, ha'⟩)
          · exact ⟨hb.start_aligned, hal⟩
          · exact hi.liveOk.pages a ha'
        · rintro a (_ | ⟨_, ha'⟩)
          · exact hb.inside hne
          · exact hi.liveOk.inside a ha'
        · exact List.pairwise_cons.2 ⟨source_apart hacc' ha.source hne, hi.liveOk.disjoint⟩
    · refine .trans ?_ ((ha.taken.filter _).map _).symm
      rw [List.filter_cons]
      -- an empty block is in the taken list, but is no allocation
      by_cases h0 : b.size = 0
      · rw [if_pos h0, if_neg (by simpa using h0)]
        exact hi.ledger
      · rw [if_neg h0, if_pos (by simpa using h0)]
        exact hi.ledger.cons _

/-- `kfree` keeps the invariant. -/
theorem SwitchInv.kfree (hi : SwitchInv s live) (h : Fos.kfree va s = .ok () s') :
    SwitchInv s' (released live va s.heap.blockInfoTakenList) := by
  rcases kfree_ok h with ⟨hnone, rfl⟩ | ⟨bi, s₁, h', hfirst, hlist, -, hun, hc, rfl⟩
  · have : firstWhere (fun bi => decide (bi.startVa = va)) s'.heap.blockInfoTakenList = none :=
      firstWhere_none.2 (by simpa using hnone)
    rw [released, this]
    exact hi
  rw [released, hfirst]
  dsimp only
  have hperm : s.heap.blockInfoTakenList.Perm (bi.elem :: bi.removed) := by
    rw [hlist]
    exact List.perm_middle
  have hb : bi.elem.InHeap := hi.blocks _ (by simp [hperm.mem_iff])
  rw [hb.start_eq] at hun
  have hlists := unmapPages_sameLists hi.tables (fun i hlt => hb.heapPage hlt) hun
  rw [hlists.1] at hc
  obtain ⟨X, Y, m, hco⟩ := coalescing_cases hc
  have hfree : ∀ c ∈ s.heap.blockInfoFreeList, c.InHeap := fun c hc =>
    hi.blocks c (List.mem_append_left _ hc)
  -- the block that goes back lies in the heap, joined or not
  have hm : m.InHeap := hco.merge.inHeap hb fun c hc =>
    hfree c (hco.free.mem_iff.2 (List.mem_append_left _ hc))
  have htaken : h'.blockInfoTakenList = bi.removed := hco.taken
  have hsub : List.Sublist (live.erase bi.elem.allocation) live := List.erase_sublist
  refine ⟨hlists.tables hi.tables, ?_, ?_, ?_, ?_⟩
  · intro c hc
    rcases List.mem_append.1 hc with hc | hc
    · rcases List.mem_cons.1 (hco.free'.mem_iff.1 hc) with rfl | hc
      · exact hm
      · exact hfree c (hco.free.mem_iff.2 (List.mem_append_right _ hc))
    · change c ∈ h'.blockInfoTakenList at hc
      rw [htaken] at hc
      exact hi.blocks c (by simp [hperm.mem_iff, hc])
  · rcases hco.cursor with hcur | ⟨-, hcur⟩
    · change h'.lastVaInKheap % 4096 = 0 ∧ h'.lastVaInKheap < 4294967296
      rw [hcur]
      exact hi.cursor
    · change h'.lastVaInKheap % 4096 = 0 ∧ h'.lastVaInKheap < 4294967296
      rw [hcur]
      exact ⟨hb.start_aligned, hb.start_lt⟩
  · exact ⟨fun a ha => hi.liveOk.pages a (hsub.mem ha),
      fun a ha => hi.liveOk.inside a (hsub.mem ha), hi.liveOk.disjoint.sublist hsub⟩
  · change List.Perm _ ((h'.blockInfoTakenList.filter (·.size ≠ 0)).map BlockInfo.allocation)
    rw [htaken]
    have hled := hi.ledger.trans ((hperm.filter _).map _)
    rw [List.filter_cons] at hled
    by_cases h0 : bi.elem.size = 0
    · rw [if_neg (by simpa using h0)] at hled
      -- an empty block was never recorded
      have hnot : bi.elem.allocation ∉ live := by
        rw [hled.mem_iff, List.mem_map]
        rintro ⟨c, hc, he⟩
        have h1 : c.size ≠ 0 := by simpa using (List.mem_filter.1 hc).2
        have h2 : c.size = bi.elem.size := congrArg Allocation.size he
        omega
      rw [List.erase_of_not_mem hnot]
      exact hled
    · rw [if_pos (by simpa using h0)] at hled
      have := hled.erase bi.elem.allocation
      rwa [List.map_cons, List.erase_cons_head] at this

end

theorem SwitchInv.setStrategy {s : Kern} {live : List Allocation} (hi : SwitchInv s live)
    (st : KHeapPlacementStrategy) : SwitchInv (setStrategy st s) live :=
  ⟨hi.tables, hi.blocks, hi.cursor, hi.liveOk, hi.ledger⟩

/-- One call that meets its condition keeps the invariant. -/
theorem HeapCall.Step.switchInv {call : HeapCall} {x y : Kern × List Allocation}
    (hi : SwitchInv x.1 x.2) (hacc : call.Accurate x) (h : call.Step x y) : SwitchInv y.1 y.2 := by
  cases h with
  | kmalloc h => exact hi.kmalloc hacc h
  | kfree h => exact hi.kfree h
  | setContAlloc | setFirstFit | setNextFit => exact hi.setStrategy _

theorem switchInv_boot {c : BootConfig} {s : Kern}
    (h : fosInitialize (initializePaging c) = .ok () s) : SwitchInv s bootLive := by
  obtain ⟨hheap, hi⟩ := fosInitialize_heapInv h
  refine ⟨hi.map.tables, fun b hb => ?_, ?_, ?_, ?_⟩
  · have hw := hi.part.wf b hb
    have hend := hw.end_le
    unfold kernelHeapMax at hend
    exact ⟨hw.start_aligned, hw.size_aligned, by omega, fun _ => ⟨hw.start_le, hw.end_le⟩⟩
  · rw [hheap]
    exact ⟨by decide, by decide⟩
  · refine ⟨?_, ?_, ?_⟩
    · simp only [bootLive, List.forall_mem_cons]
      exact ⟨by decide, by decide, by simp⟩
    · simp only [bootLive, List.forall_mem_cons]
      exact ⟨by decide, by decide, by simp⟩
    · simp [bootLive, Allocation.Apart]
  · rw [hheap]
    exact .refl _

/-- **When switching strategies is safe.** In every run from boot in which each `kmalloc` of
non-zero size finds the record of the current strategy accurate, the live allocations are pairwise
disjoint runs of pages of the kernel heap in every state reached. -/
theorem switching_safe {c : BootConfig} {s : Kern} {live : List Allocation}
    (h : SwitchingRun HeapCall.Accurate c s live) : LiveOk live := by
  obtain ⟨s₀, hboot, hrun⟩ := h
  exact (Prog.invariant (I := fun x => SwitchInv x.1 x.2) (switchInv_boot hboot)
    (fun _ _ hi ⟨_, hacc, hst⟩ => hst.switchInv hi hacc) hrun).liveOk

theorem switching_safe_small : LiveOk (recorded bootLive 0xF6004000 5000) := by
  have hk : kmalloc 5000 (setStrategy .firstFit smallBoot) =
      .ok 0xF6004000 (final (kmalloc 5000 (setStrategy .firstFit smallBoot))) :=
    ok_of_value (by decide +kernel)
  have hheap : (setStrategy .firstFit smallBoot).heap = { bootHeap with strategy := .firstFit } := by
    rw [← (fosInitialize_heapInv smallBoot_ok).1]
    rfl
  refine switching_safe ⟨smallBoot, smallBoot_ok,
    .tail (.tail .refl ⟨.setFirstFit, trivial, .setFirstFit _ _⟩)
      ⟨.kmalloc 5000, fun _ => ?_, .kmalloc hk⟩⟩
  rw [hheap]
  simp [RecordAccurate, bootHeap, bootLive, BlockInfo.allocation, Allocation.Apart]

/-! ## Each strategy alone -/

/-- Between the partition and the ledger, no free block meets a live allocation. -/
theorem HeapInv.recordAccurate {s : Kern} {live : List Allocation} (hi : HeapInv s)
    (hs : SwitchInv s live) (hfit : s.heap.Fits) : RecordAccurate s.heap live := by
  have hfree : ∀ b ∈ s.heap.blockInfoFreeList, ∀ a ∈ live, b.size = 0 ∨ b.allocation.Apart a := by
    intro b hb a ha
    obtain ⟨c, hc, rfl⟩ := List.mem_map.1 (hs.ledger.mem_iff.1 ha)
    obtain ⟨hc, hne⟩ := List.mem_filter.1 hc
    have hd := (List.pairwise_append.1 hi.part.tiles.1).2.2 b hb c hc
    rcases Cover.disjoint_range_iff.1 hd with h | h | h | h
    · exact .inl h
    · simp [h] at hne
    · exact .inr (.inl h)
    · exact .inr (.inr h)
  rcases hfit with h | h <;> rw [RecordAccurate, h] <;> exact hfree

/-- A run that allocates under first fit and next fit only. -/
def HeapCall.FitOnly : HeapCall → Kern × List Allocation → Prop
  | .kmalloc _, (s, _) => s.heap.Fits
  | .setContAlloc, _ => False
  | _, _ => True

/-- First fit and next fit are safe, also in alternation. -/
theorem liveOk_of_fitOnly {c : BootConfig} {s : Kern} {live : List Allocation}
    (h : SwitchingRun HeapCall.FitOnly c s live) : LiveOk live := by
  obtain ⟨s₀, hboot, hrun⟩ := h
  refine (Prog.invariant (I := fun x => HeapInv x.1 ∧ SwitchInv x.1 x.2)
    ⟨(fosInitialize_heapInv hboot).2, switchInv_boot hboot⟩ ?_ hrun).2.liveOk
  rintro x y ⟨hi, hs⟩ ⟨call, hok, hst⟩
  have hacc : call.Accurate x := by
    cases hst with
    | kmalloc h => exact fun _ => hi.recordAccurate hs hok
    | _ => trivial
  refine ⟨?_, hst.switchInv hs hacc⟩
  cases hst with
  | kmalloc h => exact (kmalloc_heapInv hi hok h).1
  | kfree h => exact (kfree_heapInv hi h).1
  | setContAlloc => exact hok.elim
  | setFirstFit => exact hi.setStrategy .firstFit
  | setNextFit => exact hi.setStrategy .nextFit

/-- A run that allocates continuously only. -/
def HeapCall.ContOnly : HeapCall → Kern × List Allocation → Prop
  | .setFirstFit, _ | .setNextFit, _ => False
  | _, _ => True

/-- Under continuous allocation the cursor stays above every taken block. -/
structure CursorAbove (h : Heap) : Prop where
  strategy : h.strategy = .contAlloc
  inside : kernelHeapStart ≤ h.lastVaInKheap ∧ h.lastVaInKheap ≤ kernelHeapMax
  above : ∀ b ∈ h.blockInfoTakenList, b.startVa + b.size ≤ h.lastVaInKheap

theorem CursorAbove.recordAccurate {s : Kern} {live : List Allocation} (hc : CursorAbove s.heap)
    (hs : SwitchInv s live) : RecordAccurate s.heap live := by
  rw [RecordAccurate, hc.strategy]
  refine ⟨hc.inside.1, hc.inside.2, fun a ha => ?_⟩
  obtain ⟨b, hb, rfl⟩ := List.mem_map.1 (hs.ledger.mem_iff.1 ha)
  exact hc.above b (List.mem_filter.1 hb).1

theorem CursorAbove.alloc {h h' : Heap} {b : BlockInfo} (hc : CursorAbove h)
    (ha : h.Alloc h' b) : CursorAbove h' := by
  cases ha with
  | fit found hfit => rcases hfit with hf | hf <;> rw [hc.strategy] at hf <;> cases hf
  | cont rest hst hstart hsize haligned hfree heq =>
    rw [u32Sub_of_le hc.inside.2 (by decide)] at hsize
    have hin := hc.inside
    have hcur : h'.lastVaInKheap = h.lastVaInKheap + b.size := by
      rw [heq]
      unfold kernelHeapMax at hsize hin
      exact u32_of_lt (by omega)
    refine ⟨by rw [heq]; exact hst, by omega, ?_⟩
    intro c hc'
    rw [heq] at hc'
    rw [hcur]
    rcases List.mem_cons.1 hc' with rfl | hc'
    · omega
    · have := hc.above c hc'
      omega

theorem CursorAbove.kfree {s s' : Kern} {live : List Allocation} {va : Nat}
    (hc : CursorAbove s.heap) (hs : SwitchInv s live) (h : Fos.kfree va s = .ok () s') :
    CursorAbove s'.heap := by
  rcases kfree_ok h with ⟨-, rfl⟩ | ⟨bi, s₁, h', -, hlist, -, hun, hco, rfl⟩
  · exact hc
  have hperm : s.heap.blockInfoTakenList.Perm (bi.elem :: bi.removed) := by
    rw [hlist]
    exact List.perm_middle
  have hb : bi.elem.InHeap := hs.blocks _ (by simp [hperm.mem_iff])
  rw [hb.start_eq] at hun
  rw [(unmapPages_sameLists hs.tables (fun i hlt => hb.heapPage hlt) hun).1] at hco
  obtain ⟨X, Y, m, hco⟩ := coalescing_cases hco
  -- only next fit moves the cursor
  have hcur : h'.lastVaInKheap = s.heap.lastVaInKheap := by
    rcases hco.cursor with hcur | ⟨hst, -⟩
    · exact hcur
    · exact absurd (hc.strategy.symm.trans hst) (by decide)
  refine ⟨hco.strategy.trans hc.strategy, ?_, fun b hbm => ?_⟩
  · change kernelHeapStart ≤ h'.lastVaInKheap ∧ h'.lastVaInKheap ≤ kernelHeapMax
    rw [hcur]
    exact hc.inside
  · change b.startVa + b.size ≤ h'.lastVaInKheap
    rw [hcur]
    change b ∈ h'.blockInfoTakenList at hbm
    rw [hco.taken] at hbm
    exact hc.above b (hperm.mem_iff.2 (List.mem_cons_of_mem _ hbm))

/-- Continuous allocation on its own is safe. -/
theorem liveOk_of_contOnly {c : BootConfig} {s : Kern} {live : List Allocation}
    (h : SwitchingRun HeapCall.ContOnly c s live) : LiveOk live := by
  obtain ⟨s₀, hboot, hrun⟩ := h
  have hcur : CursorAbove s₀.heap := by
    rw [(fosInitialize_heapInv hboot).1]
    refine ⟨rfl, by decide, ?_⟩
    simp [bootHeap]
  refine (Prog.invariant (I := fun x => CursorAbove x.1.heap ∧ SwitchInv x.1 x.2)
    ⟨hcur, switchInv_boot hboot⟩ ?_ hrun).2.liveOk
  rintro x y ⟨hc, hs⟩ ⟨call, hok, hst⟩
  have hacc : call.Accurate x := by
    cases hst with
    | kmalloc h => exact fun _ => hc.recordAccurate hs
    | _ => trivial
  refine ⟨?_, hst.switchInv hs hacc⟩
  cases hst with
  | kmalloc h =>
    rcases hs.kmalloc_cases hacc h with ⟨-, rfl⟩ | ⟨b, ha, -⟩
    · exact hc
    · exact hc.alloc ha
  | kfree h => exact hc.kfree hs h
  | setContAlloc => exact ⟨rfl, hc.inside, hc.above⟩
  | setFirstFit | setNextFit => exact hok.elim

end Fos
