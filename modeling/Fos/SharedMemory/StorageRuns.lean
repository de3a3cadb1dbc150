import Fos.KernelHeap.EmptyList
import Fos.KernelHeap.Sizes
import Fos.SharedMemory.FullTable
import Fos.SharedMemory.Storage
import Fos.PageTables.HeapBlocks

/-!
# Kernels that create frames storages

Between boot and the creation of a frames storage the clients of the kernel heap take and return
blocks, environments come and map pages, and other storages are created and filled. Every block that
is handed out holds a byte at least, so no two start at the same address.
-/

namespace Fos

open Prog (bind_eq_ok ok_inj Keeps)
open Relation (ReflTransGen)

/-- The kernel, the page directories, the frames storages, and the pointers that clients of the heap
got and did not free. -/
structure StorageState where
  kern : Kern
  pages : List DirPtr
  storages : List Nat
  live : Set Nat

/-- The frames storage of a shared object. -/
def Kern.framesStorage (s : Kern) (id : Int) : Nat := (s.shares.shares id.toNat).framesStorage

/-- One call. -/
inductive StorageStep : StorageState → StorageState → Prop
  | kmalloc {s : StorageState} {size va : Nat} {k : Kern} (hsize : KernelRequestable size)
      (h : Fos.kmalloc size s.kern = .ok va k) :
      StorageStep s ⟨k, s.pages, s.storages, {a | a ∈ s.live ∨ a = va ∧ va ≠ 0}⟩
  | kfree {s : StorageState} {va : Nat} {k : Kern} (hva : va ∈ s.live)
      (h : Fos.kfree va s.kern = .ok () k) : StorageStep s ⟨k, s.pages, s.storages, s.live \ {va}⟩
  | setStrategy {s : StorageState} {st : KHeapPlacementStrategy} (hst : st = .firstFit ∨ st = .nextFit) :
      StorageStep s ⟨setStrategy st s.kern, s.pages, s.storages, s.live⟩
  | newDirectory {s : StorageState} {d cr3 : Nat} {k₁ k₂ k₃ : Kern}
      (h₁ : createUserDirectory s.kern = .ok d k₁) (hd : d ≠ 0)
      (h₂ : initializeDirectory d k₁ = .ok () k₂) (h₃ : listDirectory d cr3 k₂ = .ok () k₃) :
      StorageStep s ⟨k₃, .heap d :: s.pages, s.storages, s.live⟩
  | mapPage {s : StorageState} {dir : DirPtr} {f va perm : Nat} {k₁ k₂ : Kern} (hdir : dir ∈ s.pages)
      (hva : va < userTop) (hperm : perm < 4096) (h₁ : allocateFrame s.kern = .ok f k₁)
      (h₂ : mapFrame dir f va perm k₁ = .ok () k₂) : StorageStep s ⟨k₂, s.pages, s.storages, s.live⟩
  | unmapPage {s : StorageState} {dir : DirPtr} {va : Nat} {k : Kern} (hdir : dir ∈ s.pages)
      (hva : va < userTop) (h : unmapFrame dir va s.kern = .ok () k) :
      StorageStep s ⟨k, s.pages, s.storages, s.live⟩
  | allocateShareObject {s : StorageState} {id : Int} {k : Kern} (hid : 0 ≤ id)
      (h : Fos.allocateShareObject s.kern = .ok id k) :
      StorageStep s ⟨k, s.pages, k.framesStorage id :: s.storages, s.live⟩
  | addFrame {s : StorageState} {d f i : Nat} {k : Kern} (hd : d ∈ s.storages)
      (hf : f < s.kern.frames.numberOfFrames) (hi : i < userTop / pageSize)
      (h : addFrameToStorage d f i s.kern = .ok () k) :
      StorageStep s ⟨k, s.pages, s.storages, s.live⟩

/-- What a run carries on. -/
structure StorageInv (lay : Layout) (G : Set Nat) (dirs : Roots) (s : StorageState) : Prop where
  mem : MemOk lay G ∅ dirs ∅ s.kern
  pages : dirs.page = s.pages
  storages : ∀ d ∈ s.storages, .heap d ∈ dirs.disk
  fits : s.kern.heap.Fits
  pos : ∀ b ∈ s.kern.heap.blockInfoTakenList, 0 < b.size
  live : ∀ va ∈ s.live, ∃ b ∈ s.kern.heap.blockInfoTakenList, b.startVa = va ∧ ∀ p ∈ b.pages, p ∉ G

section

variable {lay : Layout} {G G' D : Set Nat} {dirs : Roots} {held : Set Nat} {s t u : Kern}
    {b c : BlockInfo}
  {dir : DirPtr} {tbl : TablePtr} {d f k p perm size va : Nat} {id : Int}

/-! ## Blocks of the heap -/

/-- A block whose pages are not owned keeps to itself while pages are taken. -/
theorem Quiet.keepsBlock (hq : Quiet dirs D G G' s t) (h : MemOk lay G D dirs held s)
    (hb : b ∈ s.heap.blockInfoTakenList) (hG : ∀ p ∈ b.pages, p ∉ G) :
    b ∈ t.heap.blockInfoTakenList ∧ ∀ p ∈ b.pages, p ∉ G' := by
  refine ⟨hq.taken b hb, fun p hp hpG' => ?_⟩
  have hheap := (h.heap.wf b hb).heapPage hp
  have hpr : present (s.kernelTable p) := (h.heap.present_iff p hheap).2 ⟨b, hb, hp⟩
  have hfresh := hq.fresh p hpG' (hG p hp)
  have hkf : t.kframe p = s.kframe p := by
    unfold Kern.kframe
    rw [hq.kernelTable p (.inl hpr)]
  rw [hkf] at hfresh
  have hm : s.mapping (liveSlots lay dirs s) (bootSlot p) = some (s.kframe p) := by
    rw [mapping_of_present (bootSlot_live (lay.heap_dynamic p hheap)) (by rwa [entry_bootSlot]),
      entry_bootSlot]
    rfl
  exact h.counted.notFree hm hfresh

theorem addFrameToStorage_takes (hk : addFrameToStorage d f k s = .ok () t) : TakesPage s t := by
  obtain ⟨tbl, u, htbl, hk⟩ := bind_eq_ok.1 hk
  exact (pageTableWith_takes htbl).congr (bookkeeping_eq (writePte_keeps _ _ _ _ _ _ hk)).1

theorem newFramesStorage_page (hk : Fos.kmalloc pageSize s = .ok (p * 4096) u)
    (hp : p ≠ 0) (hm : present (u.kernelTable p)) :
    newFramesStorage s = .ok (p * 4096) (u.clearWords (u.kframe p) 0 1024) := by
  have hzero := zeroWords_page (k := 0) (n := 1024) hm (by omega)
  rw [Nat.mul_zero, Nat.add_zero] at hzero
  rw [newFramesStorage, Prog.bind_of_ok hk, Prog.ite_run, if_neg (by omega), Prog.bind_of_ok hzero]
  rfl

/-- **`allocate_share_object`** makes a new storage, or returns an error. -/
theorem allocateShareObject_ok (hid : 0 ≤ id) (hk : allocateShareObject s = .ok id t) :
    ∃ u, newFramesStorage s = .ok (t.framesStorage id) u ∧ ∃ sh, t = u.setShares sh := by
  rw [allocateShareObject, Prog.get_bind_apply, Prog.ite_run] at hk
  split at hk
  case isTrue => cases hk
  case isFalse hnull =>
    cases hv : (List.range s.shares.maxShares).find? fun i => (s.shares.shares i).empty with
    | none =>
      rw [hv] at hk
      obtain ⟨rfl, -⟩ := ok_inj.1 hk
      -- no free entry: the result is an error code
      exact absurd hid (by decide)
    | some i =>
      rw [hv] at hk
      have hpos : 0 < s.shares.maxShares := by
        have := List.mem_range.1 (List.mem_of_find?_eq_some hv)
        omega
      have hnull' : s.shares.null = false := by
        by_contra hne
        exact hnull ⟨by simpa using hne, hpos⟩
      obtain ⟨d, u, hnew, rfl, rfl⟩ := (takeShareEntry_iff hnull').1 hk
      refine ⟨u, ?_, _, rfl⟩
      have hd : Kern.framesStorage (u.setShares
          (s.shares.setShare i ((s.shares.shares i).taken d))) i = d := by
        unfold Kern.framesStorage Kern.setShares Shares.setShare
        simp [Share.taken]
      rwa [hd]

/-! ## One step -/

theorem MemOk.setFitStrategy (h : MemOk lay G D dirs held s) (hfit : s.heap.Fits)
    {st : KHeapPlacementStrategy} (hst : st = .firstFit ∨ st = .nextFit) :
    MemOk lay G D dirs held (setStrategy st s) := by
  have hpart : s.heap.Partition := by
    have hsrc := h.heap.source
    rcases hfit with hf | hf <;> rw [Heap.SourceOk, hf] at hsrc <;> exact hsrc
  have hsrc : ({ s.heap with strategy := st } : Heap).SourceOk := by
    rcases hst with rfl | rfl <;> exact hpart
  exact ⟨h.accounted.setHeap _, ⟨h.heap.tables, h.heap.wf, h.heap.apart, h.heap.present_iff,
    h.heap.zero, hsrc⟩, h.blocks, fun p hp => ⟨(h.data p hp).1, (h.data p hp).2.table,
    (h.data p hp).2.dir⟩⟩

/-- Pages were taken and slots of tables written, and nothing else happened to the heap. -/
theorem StorageInv.takes {s : StorageState} {k : Kern} {dirs' : Roots} {pages : List DirPtr}
    {storages : List Nat} (hi : StorageInv lay G dirs s) (hm : MemOk lay G' ∅ dirs' ∅ k)
    (hpages : dirs'.page = pages) (hst : ∀ d ∈ storages, .heap d ∈ dirs'.disk)
    (htaken : OneMoreBlock s.kern.heap k.heap)
    (hkeep : ∀ b ∈ s.kern.heap.blockInfoTakenList, (∀ p ∈ b.pages, p ∉ G) →
      b ∈ k.heap.blockInfoTakenList ∧ ∀ p ∈ b.pages, p ∉ G') :
    StorageInv lay G' dirs' ⟨k, pages, storages, s.live⟩ := by
  obtain ⟨hstrategy, htaken⟩ := htaken
  refine ⟨hm, hpages, hst, ?_, fun b hb => ?_, fun va hva => ?_⟩
  · rw [Heap.Fits, hstrategy]
    exact hi.fits
  · rcases htaken with he | ⟨c, hsize, hperm⟩
    · rw [he] at hb
      exact hi.pos b hb
    · rcases List.mem_cons.1 (hperm.mem_iff.1 hb) with rfl | hb
      · rw [hsize]
        decide
      · exact hi.pos b hb
  · obtain ⟨b, hb, hstart, hG⟩ := hi.live va hva
    obtain ⟨hb', hG'⟩ := hkeep b hb hG
    exact ⟨b, hb', hstart, hG'⟩

theorem StorageInv.kmalloc {s : StorageState} {kk : Kern} (hi : StorageInv lay G dirs s)
    (hsize : KernelRequestable size) (hk : Fos.kmalloc size s.kern = .ok va kk) :
    StorageInv lay G dirs ⟨kk, s.pages, s.storages, {a | a ∈ s.live ∨ a = va ∧ va ≠ 0}⟩ := by
  rcases hi.mem.kmalloc hk with ⟨rfl, rfl⟩ | ⟨b, -, hstart, hbsize, hperm, -, hnotG,
    -, -, -, hq, hok⟩
  · refine ⟨hi.mem, hi.pages, hi.storages, hi.fits, hi.pos, ?_⟩
    rintro va (hva | ⟨-, hne⟩)
    · exact hi.live va hva
    · exact absurd rfl hne
  · refine ⟨hok, hi.pages, hi.storages, ?_, fun c hc => ?_, ?_⟩
    · rw [Heap.Fits, hq.strategy]
      exact hi.fits
    · rcases List.mem_cons.1 (hperm.mem_iff.1 hc) with rfl | hc
      · rw [hbsize]
        exact roundup_pos hsize.1 hsize.2
      · exact hi.pos c hc
    · rintro a (ha | ⟨rfl, -⟩)
      · obtain ⟨c, hc, hcs, hG⟩ := hi.live a ha
        obtain ⟨hc', hG'⟩ := hq.keepsBlock hi.mem hc hG
        exact ⟨c, hc', hcs, hG'⟩
      · exact ⟨b, hperm.mem_iff.2 List.mem_cons_self, hstart, hnotG⟩

theorem StorageInv.kfree {s : StorageState} {kk : Kern} (hi : StorageInv lay G dirs s)
    (hva : va ∈ s.live) (hk : Fos.kfree va s.kern = .ok () kk) :
    StorageInv lay G dirs ⟨kk, s.pages, s.storages, s.live \ {va}⟩ := by
  obtain ⟨b, hb, hstart, hG⟩ := hi.live va hva
  have hone : ∀ c ∈ s.kern.heap.blockInfoTakenList, c.startVa = va → c = b := fun c hc he =>
    hi.mem.heap.start_inj hi.pos hc hb (he.trans hstart.symm)
  rcases hi.mem.kfree hk (fun c hc he => by rw [hone c hc he]; exact hG) with
    ⟨hnone, -⟩ | ⟨c, hc, -, hcs, -, hperm, hstrategy, hok⟩
  · exact absurd hstart (hnone b hb)
  obtain rfl := hone c hc hcs
  refine ⟨hok, hi.pages, hi.storages, ?_, fun d hd => ?_, ?_⟩
  · rw [Heap.Fits, hstrategy]
    exact hi.fits
  · exact hi.pos d (hperm.mem_iff.2 (List.mem_cons_of_mem _ hd))
  · rintro a ⟨ha, hne⟩
    obtain ⟨d, hd, hds, hdG⟩ := hi.live a ha
    rcases List.mem_cons.1 (hperm.mem_iff.1 hd) with rfl | hd
    · exact absurd (hds.symm.trans hcs) hne
    · exact ⟨d, hd, hds, hdG⟩

theorem StorageInv.newDirectory {s : StorageState} {cr3 : Nat} {k₁ k₂ k₃ : Kern}
    (hi : StorageInv lay G dirs s) (h₁ : createUserDirectory s.kern = .ok d k₁) (hd : d ≠ 0)
    (h₂ : initializeDirectory d k₁ = .ok () k₂) (h₃ : Fos.listDirectory d cr3 k₂ = .ok () k₃) :
    ∃ G' dirs', StorageInv lay G' dirs' ⟨k₃, .heap d :: s.pages, s.storages, s.live⟩ := by
  have ht : TakesPage s.kern k₂ := .inr ⟨d, k₁, hd, h₁, initializeDirectory_heap h₂⟩
  obtain ⟨p, hnew, rfl, -, hok₂, hq, -⟩ := hi.mem.newDirectory h₁ hd h₂
  obtain ⟨hok₃, -, -, -, hheap, -⟩ := hok₂.listDirectory List.mem_cons_self h₃
  refine ⟨_, _, hi.takes hok₃ ?_ hi.storages ((ht.congr hheap).taken hi.mem) fun b hb hG => ?_⟩
  · exact congrArg (DirPtr.heap (p * 4096) :: ·) hi.pages
  · rw [hheap]
    exact hq.keepsBlock hi.mem hb hG

theorem StorageInv.mapPage {s : StorageState} {k₁ k₂ : Kern} (hi : StorageInv lay G dirs s)
    (hdir : dir ∈ s.pages) (hva : va < userTop) (hperm : perm < 4096)
    (h₁ : Fos.allocateFrame s.kern = .ok f k₁) (h₂ : Fos.mapFrame dir f va perm k₁ = .ok () k₂) :
    ∃ G' dirs', StorageInv lay G' dirs' ⟨k₂, s.pages, s.storages, s.live⟩ := by
  rw [← hi.pages] at hdir
  obtain ⟨hok₁, hq₁, hf, hinfo, -⟩ := hi.mem.allocateFrame h₁
  obtain ⟨G', u, x, hq, hok₂, hx, -, hr⟩ := hok₁.mapFrame hdir (.inl hva) h₂
  have hrefs : u.references f = 0 := by
    unfold Kern.references
    rw [hq.info f hf.notFree, hinfo]
  have hok := hok₂.remap hx (hf.quiet hq hok₁.owned) hperm (fun _ => by rw [hrefs]; decide) hr
  have hempty : insert f (∅ : Set Nat) \ {f} = ∅ := by simp
  rw [hempty] at hok
  have hheap : k₂.heap = u.heap := hr.heap
  have hheap₁ : k₁.heap = s.kern.heap := (bookkeeping_eq (allocateFrame_keeps _ _ _ h₁)).1
  have hall := hq₁.trans hq hi.mem.owned hok₁.owned
  have htaken := (mapFrame_takes h₂).taken hok₁
  rw [hheap₁] at htaken
  refine ⟨G', dirs, hi.takes hok hi.pages hi.storages htaken fun b hb hG => ?_⟩
  rw [hheap]
  exact hall.keepsBlock hi.mem hb hG

theorem StorageInv.unmapPage {s : StorageState} {kk : Kern} (hi : StorageInv lay G dirs s)
    (hdir : dir ∈ s.pages) (hva : va < userTop) (hk : Fos.unmapFrame dir va s.kern = .ok () kk) :
    StorageInv lay G dirs ⟨kk, s.pages, s.storages, s.live⟩ := by
  rw [← hi.pages] at hdir
  rcases hi.mem.unmapFrame hdir (.inl hva) hk with ⟨rfl, -⟩ | ⟨x, hx, -, hpr, rfl⟩
  · exact hi
  · have hheap : (s.kern.unmapSlot x).heap = s.kern.heap := by simp [Kern.unmapSlot, Kern.setFrames]
    refine hi.takes (hi.mem.unmapLocated hx hpr) hi.pages hi.storages ?_ fun b hb hG => ?_
    · rw [hheap]
      exact ⟨rfl, .inl rfl⟩
    · rw [hheap]
      exact ⟨hb, hG⟩

theorem StorageInv.allocateShareObject {s : StorageState} {kk : Kern} (hi : StorageInv lay G dirs s)
    (hid : 0 ≤ id) (hk : Fos.allocateShareObject s.kern = .ok id kk) :
    ∃ p dirs', kk.framesStorage id = p * 4096 ∧ .heap (p * 4096) ∈ dirs'.disk ∧
      (∀ i < 955, kk.table (.heap (p * 4096)) i = none) ∧
      StorageInv lay (insert p G) dirs' ⟨kk, s.pages, kk.framesStorage id :: s.storages, s.live⟩ := by
  obtain ⟨u, hnew, sh, rfl⟩ := allocateShareObject_ok hid hk
  obtain ⟨v, hkm, hne, hz⟩ := newFramesStorage_ok hnew
  obtain ⟨p, hd, hp, hok, hq, htab⟩ := hi.mem.newStorage hkm hne hz
  have hheap : u.heap = v.heap := (bookkeeping_eq (zeroWords_keeps _ _ _ _ _ hz)).1
  refine ⟨p, _, hp, List.mem_cons_self, htab, hi.takes (hok.setRest _ _ _) hi.pages ?_ ?_
    fun b hb hG => hq.keepsBlock hi.mem hb hG⟩
  · intro d hd'
    rcases List.mem_cons.1 hd' with rfl | hd'
    · rw [hp]
      exact List.mem_cons_self
    · exact List.mem_cons_of_mem _ (hi.storages d hd')
  · exact TakesPage.taken (t := u.setShares sh) (.inr ⟨_, v, hne, hkm, hheap⟩) hi.mem

theorem StorageInv.addFrame {s : StorageState} {i : Nat} {kk : Kern} (hi : StorageInv lay G dirs s)
    (hd : d ∈ s.storages) (hlt : i < 977920) (hk : addFrameToStorage d f i s.kern = .ok () kk) :
    ∃ G' dirs', StorageInv lay G' dirs' ⟨kk, s.pages, s.storages, s.live⟩ := by
  obtain ⟨G', u, a, -, hq, hok, he, rfl⟩ := hi.mem.addFrameToStorage_table (hi.storages d hd) hlt hk
  refine ⟨G', dirs, hi.takes (hok.setDiskEntry he _) hi.pages hi.storages
    ((addFrameToStorage_takes hk).taken hi.mem) fun b hb hG => ?_⟩
  rw [setEntry_heap]
  exact hq.keepsBlock hi.mem hb hG

theorem StorageStep.inv {s t : StorageState} (hi : ∃ G dirs, StorageInv lay G dirs s)
    (hstep : StorageStep s t) : ∃ G dirs, StorageInv lay G dirs t := by
  obtain ⟨G, dirs, hi⟩ := hi
  cases hstep with
  | kmalloc hsize h => exact ⟨G, dirs, hi.kmalloc hsize h⟩
  | kfree hva h => exact ⟨G, dirs, hi.kfree hva h⟩
  | setStrategy hst =>
    exact ⟨G, dirs, hi.mem.setFitStrategy hi.fits hst, hi.pages, hi.storages, hst, hi.pos, hi.live⟩
  | newDirectory h₁ hd h₂ h₃ => exact hi.newDirectory h₁ hd h₂ h₃
  | mapPage hdir hva hperm h₁ h₂ => exact hi.mapPage hdir hva hperm h₁ h₂
  | unmapPage hdir hva h => exact ⟨G, dirs, hi.unmapPage hdir hva h⟩
  | allocateShareObject hid h =>
    obtain ⟨p, dirs', -, -, -, hi'⟩ := hi.allocateShareObject hid h
    exact ⟨_, dirs', hi'⟩
  | addFrame hd hf hlt h => exact hi.addFrame hd hlt h

theorem storageInv_run {c : BootConfig} {s₀ : Kern} {st : KHeapPlacementStrategy} {s : StorageState}
    (hboot : fosInitialize (initializePaging c) = .ok () s₀) (hst : st = .firstFit ∨ st = .nextFit)
    (hrun : ReflTransGen StorageStep ⟨setStrategy st s₀, [.boot], [], ∅⟩ s) :
    ∃ G dirs, StorageInv c.layout G dirs s := by
  refine Prog.invariant (I := fun s => ∃ G dirs, StorageInv c.layout G dirs s) ?_
    (fun _ _ hi hstep => hstep.inv hi) hrun
  refine ⟨∅, pageRoots [.boot], fosInitialize_memOk_strategy hboot st, rfl, by simp, hst, ?_, ?_⟩
  · exact (orderInv_boot hboot st).taken
  · rintro va ⟨⟩

end

end Fos
