import Fos.PageTables.Memory

/-!
# User pages

`map_frame` and `unmap_frame` below `USER_TOP`. The entry of a page is in the table that the
directory names; writing it changes the leaf of that page and nothing else that is in use.
-/

namespace Fos

open Function (update)
open Prog (bind_eq_ok ok_inj)

section

variable {lay : Layout} {G G' D : Set Nat} {dirs : Roots} {held : Set Nat} {s s' t : Kern}
  {dir dir' : DirPtr} {f p q va perm w : Nat} {x : Slot}

/-! ## The entry of a page -/

/-- `x` is the entry of page `p` in a table of `dir`. -/
structure SlotAt (dirs : Roots) (s : Kern) (dir : DirPtr) (p : Nat) (x : Slot) : Prop where
  mem : dir ∈ dirs.page
  page : p < 977920
  table : ∃ a, s.table dir (p / 1024) = some a ∧ x = (.heap a, p % 1024)

theorem SlotAt.entry (hx : SlotAt dirs s dir p x) : s.entry x = s.leaf dir p := by
  obtain ⟨a, ha, rfl⟩ := hx.table
  exact (leaf_of_some ha).symm

theorem SlotAt.live (hx : SlotAt dirs s dir p x) : x ∈ liveSlots lay dirs s := by
  have hp := hx.page
  obtain ⟨a, ha, rfl⟩ := hx.table
  exact ⟨Nat.mod_lt _ (by decide), dir, hx.mem, p / 1024, by omega, ha⟩

theorem SlotAt.writable (hx : SlotAt dirs s dir p x) : Writable lay G dirs s x := by
  refine ⟨hx.live, ?_⟩
  obtain ⟨a, -, rfl⟩ := hx.table
  intro q _ he
  cases congrArg Prod.fst he

theorem SlotAt.reach (h : Directories G dirs s) (hx : SlotAt dirs s dir p x) : s.Reach x.1 := by
  have hp := hx.page
  obtain ⟨a, ha, rfl⟩ := hx.table
  obtain ⟨q, hq, rfl, -⟩ := h.table_some (.inl hx.mem) (by omega) ha
  exact h.owned.reach hq

theorem pdx_user (hva : va < userTop) : pdx va = ppn va / 1024 ∧ ppn va < 977920 := by
  unfold userTop at hva
  unfold pdx ppn
  omega

theorem ptx_eq (va : Nat) : ptx va = ppn va % 1024 := rfl

/-- Where the table is, `get_page_table` finds it. -/
theorem SlotAt.get (h : Directories G dirs s) (hva : va < userTop)
    (hx : SlotAt dirs s dir (ppn va) x) :
    getPageTable dir va s = .ok (some x.1) s ∧ x = (x.1, ptx va) := by
  obtain ⟨a, ha, rfl⟩ := hx.table
  obtain ⟨hpdx, hlt⟩ := pdx_user hva
  rw [getPageTable_user (h.reachDir (.inl hx.mem)) hva, hpdx, ha]
  · exact ⟨rfl, rfl⟩
  · rw [hpdx]
    exact h.pde_zero dir (.inl hx.mem) _ (by omega)

/-- The entry of a page, when its table exists. -/
theorem slotAt_of_table (hdir : dir ∈ dirs.page) (hp : p < 977920) {a : Nat}
    (ha : s.table dir (p / 1024) = some a) : SlotAt dirs s dir p (.heap a, p % 1024) :=
  ⟨hdir, hp, a, ha, rfl⟩

/-- A word of a table is no word of a directory. -/
theorem Directories.setTable_pde (h : Directories G dirs s) (hdir : dir ∈ dirs) {i : Nat}
    (hi : i < 955) {a : Nat} (ha : s.table dir i = some a) (j w : Nat) (hdir' : dir' ∈ dirs)
    (k : Nat) : (s.setEntry (.heap a, j) w).pde dir' k = s.pde dir' k := by
  obtain ⟨q, -, rfl, hpr, he⟩ := h.table_some hdir hi ha
  cases dir' with
  | boot => rfl
  | heap d =>
    show (s.store (s.frameAt (q * 4096)) j w).ram (s.frameAt d) k = s.ram (s.frameAt d) k
    rw [kframe_page, store_ram, if_neg]
    rintro ⟨hc, -⟩
    exact h.pde_ne_dir dir hdir i hi hpr d hdir' (by rw [he, hc])

/-- Overwriting a word of a table keeps the shape of the directories. -/
theorem Directories.setTable (h : Directories G dirs s) (hdir : dir ∈ dirs) {i : Nat}
    (hi : i < 955) {a : Nat} (ha : s.table dir i = some a) (j w : Nat) :
    Directories G dirs (s.setEntry (.heap a, j) w) :=
  h.congr (fun _ _ => rfl) (fun _ _ => rfl)
    (fun _ hdir' k _ => h.setTable_pde hdir hi ha j w hdir' k) rfl

theorem Directories.setTable_table (h : Directories G dirs s) (hdir : dir ∈ dirs) {i : Nat}
    (hi : i < 955) {a : Nat} (ha : s.table dir i = some a) (j w : Nat) (hdir' : dir' ∈ dirs)
    {k : Nat} (hk : k < 955) : (s.setEntry (.heap a, j) w).table dir' k = s.table dir' k :=
  h.table_congr (h.setTable hdir hi ha j w) (fun _ _ => rfl) hdir' hk
    (h.setTable_pde hdir hi ha j w hdir' k)

/-- A page with an entry of its own has no other. -/
theorem Directories.setTable_leaf (h : Directories G dirs s) (hdir : dir ∈ dirs)
    (hp : p < 977920) {a : Nat} (ha : s.table dir (p / 1024) = some a) (w : Nat)
    (hdir' : dir' ∈ dirs) (hq : q < 977920) :
    (s.setEntry (.heap a, p % 1024) w).leaf dir' q =
      if dir' = dir ∧ q = p then w else s.leaf dir' q := by
  -- an entry of a table is written, so the directories name the same tables
  have htab := h.setTable_table hdir (by omega) ha (p % 1024) w hdir' (k := q / 1024) (by omega)
  cases hold : s.table dir' (q / 1024) with
  | none =>
    rw [leaf_of_none (htab.trans hold), leaf_of_none hold, if_neg]
    rintro ⟨rfl, rfl⟩
    rw [hold] at ha
    cases ha
  | some b =>
    rw [leaf_of_some (htab.trans hold), leaf_of_some hold]
    obtain ⟨r, hr, rfl, hpr, he⟩ := h.table_some hdir (by omega) ha
    obtain ⟨r', hr', rfl, hpr', he'⟩ := h.table_some hdir' (by omega) hold
    show (s.store (s.frameAt (r * 4096)) (p % 1024) w).ram (s.frameAt (r' * 4096)) (q % 1024) =
      if _ then w else s.ram (s.frameAt (r' * 4096)) (q % 1024)
    rw [kframe_page, kframe_page, store_ram]
    by_cases hrr : s.kframe r' = s.kframe r
    · -- one table is named once
      obtain ⟨rfl, hpq⟩ := h.pde_inj dir' hdir' _ (by omega) dir hdir _ (by omega) hpr' hpr
        (by rw [he, he', hrr])
      by_cases hj : q % 1024 = p % 1024
      · rw [if_pos ⟨hrr, hj⟩, if_pos ⟨rfl, by omega⟩]
      · rw [if_neg fun hc => hj hc.2, if_neg]
        rintro ⟨-, rfl⟩
        exact hj rfl
    · rw [if_neg fun hc => hrr hc.1, if_neg]
      rintro ⟨rfl, rfl⟩
      rw [he] at he'
      exact hrr he'.symm

theorem SlotAt.leaf_setEntry (h : Directories G dirs s)
    (hx : SlotAt dirs s dir p x) (w : Nat) (hdir : dir' ∈ dirs) (hq : q < 977920) :
    (s.setEntry x w).leaf dir' q = if dir' = dir ∧ q = p then w else s.leaf dir' q := by
  obtain ⟨a, ha, rfl⟩ := hx.table
  exact h.setTable_leaf (.inl hx.mem) hx.page ha w hdir hq

/-! ## What the two updates leave alone -/

/-- New descriptors that keep the addresses of the owned pages keep the leaves. -/
theorem Directories.leaf_setFrames {fr : Frames} (h : Directories G dirs s)
    (hback : ∀ p ∈ G, (fr.info (s.kframe p)).va = (s.frames.info (s.kframe p)).va)
    (hdir : dir ∈ dirs) (hp : p < 977920) : (s.setFrames fr).leaf dir p = s.leaf dir p :=
  h.leaf_congr (h.setFrames hback) (fun _ _ => rfl) (fun i _ => setFrames_pde s fr dir i)
    (fun _ _ => rfl) hdir hp

theorem SlotAt.setFrames {fr : Frames} (h : Directories G dirs s) (hx : SlotAt dirs s dir p x)
    (hback : ∀ p ∈ G, (fr.info (s.kframe p)).va = (s.frames.info (s.kframe p)).va) :
    SlotAt dirs (s.setFrames fr) dir p x := by
  have hp := hx.page
  obtain ⟨a, ha, rfl⟩ := hx.table
  refine slotAt_of_table hx.mem hp ?_
  rw [h.table_congr (h.setFrames hback) (fun _ _ => rfl) (.inl hx.mem) (by omega)
    (setFrames_pde s fr dir _)]
  exact ha

theorem SlotAt.setEntry_kernelTable (hx : SlotAt dirs s dir p x) (w : Nat) :
    (s.setEntry x w).kernelTable = s.kernelTable := by
  obtain ⟨a, -, rfl⟩ := hx.table
  rfl

/-! ## The heap -/

/-- The heap part of the invariant reads the block lists and the tables of the heap. -/
theorem HeapOk.congr (hs : HeapOk s) (hh : s'.heap = s.heap)
    (hd : ∀ i, 955 ≤ i → s'.kernelDirectory i = s.kernelDirectory i)
    (hk : ∀ p, HeapPage p → s'.kernelTable p = s.kernelTable p) : HeapOk s' := by
  refine ⟨?_, ?_, ?_, ?_, ?_, ?_⟩
  · intro i h1 h2
    rw [hd i (by omega)]
    exact hs.tables i h1 h2
  · rw [hh]
    exact hs.wf
  · rw [hh]
    exact hs.apart
  · intro p hp
    rw [hh, hk p hp]
    exact hs.present_iff p hp
  · intro p hp
    rw [hh, hk p hp]
    exact hs.zero p hp
  · rw [hh]
    exact hs.source

/-- An entry that is not one of the kernel heap. -/
def OffHeap : Slot → Prop
  | (.boot d, j) => ¬ HeapPage (d * 1024 + j)
  | (_, _) => True

theorem SlotAt.offHeap (hx : SlotAt dirs s dir p x) : OffHeap x := by
  obtain ⟨a, -, rfl⟩ := hx.table
  trivial

/-- Then the pages of the heap keep their entries. -/
theorem OffHeap.kernelTable (hx : OffHeap x) (s : Kern) (w : Nat) (hp : HeapPage p) :
    (s.setEntry x w).kernelTable p = s.kernelTable p := by
  obtain ⟨a, j⟩ := x
  cases a with
  | boot d =>
    show update s.kernelTable (d * 1024 + j) w p = _
    refine Function.update_of_ne ?_ _ _
    rintro rfl
    exact hx hp
  | directory => rfl
  | heap a => rfl

theorem HeapOk.setEntry (hs : HeapOk s) (hx : OffHeap x) (fr : Frames) (w : Nat) :
    HeapOk ((s.setFrames fr).setEntry x w) :=
  hs.congr (setEntry_heap _ x w) (fun _ _ => by rw [setEntry_kernelDirectory]; rfl)
    fun _ hp => hx.kernelTable (s.setFrames fr) w hp

/-! ## The invariant -/

/-- The frame was taken from the pool and is no frame of an owned page. -/
structure Usable (lay : Layout) (G : Set Nat) (s : Kern) (f : Nat) : Prop where
  pool : f ∈ lay.pool
  notFree : f ∉ s.frames.freeFrameList
  notOwned : ∀ p ∈ G, f ≠ s.kframe p

/-- An update off the heap leaves the data pages alone. -/
theorem MemOk.data_setEntry (h : MemOk lay G D dirs held s) (hx : Writable lay G dirs s x)
    (hoff : OffHeap x) (fr : Frames) (w : Nat) (hp : p ∈ D) :
    p ∈ G ∧ Unlinked dirs ((s.setFrames fr).setEntry x w) p := by
  refine h.data_congr (fun q hq => hoff.kernelTable (s.setFrames fr) w (h.owned.heapPage q hq)) ?_ hp
  intro dir hdir i _
  rw [← hx.pde h.directories w hdir i]
  rcases x with ⟨_ | _ | _, _⟩ <;> cases dir <;> rfl

theorem MemOk.mapSlot (h : MemOk lay G D dirs held s) (hx : x ∈ liveSlots lay dirs s)
    (hoff : OffHeap x) (hnp : ¬ present (s.entry x)) (hf : Usable lay G s f)
    (hlt : s.references f < 65535) (hperm : perm < 4096) :
    MemOk lay G D dirs (held \ {f}) (s.mapSlot x f va perm) := by
  refine ⟨h.accounted.mapSlot hx hnp hf.pool hf.notFree hf.notOwned hlt hperm,
    h.heap.setEntry hoff _ _, ?_,
    fun p hp => h.data_setEntry (h.accounted.writable hx hnp) hoff _ _ hp⟩
  unfold Kern.mapSlot
  rw [setEntry_heap]
  exact h.blocks

theorem MemOk.unmapSlot (h : MemOk lay G D dirs held s) (hx : Writable lay G dirs s x)
    (hoff : OffHeap x) (hpr : present (s.entry x)) : MemOk lay G D dirs held (s.unmapSlot x) := by
  refine ⟨h.accounted.unmapSlot hx hpr, h.heap.setEntry hoff _ _, ?_,
    fun p hp => h.data_setEntry hx hoff _ _ hp⟩
  unfold Kern.unmapSlot
  rw [setEntry_heap]
  exact h.blocks

/-- A quiet step leaves a usable frame usable. -/
theorem Usable.quiet (hf : Usable lay G s f) (hq : Quiet dirs D G G' s t) (ho : Owned G s) :
    Usable lay G' t f := by
  refine ⟨hf.pool, fun hm => hf.notFree (hq.free.subset hm), ?_⟩
  intro p hp he
  by_cases hpG : p ∈ G
  · rw [hq.kframe ho hpG] at he
    exact hf.notOwned p hpG he
  · exact hf.notFree (he ▸ hq.fresh p hp hpG)

/-- The frames of the owned pages after an update off the heap. -/
theorem OffHeap.kframe (hx : OffHeap x) (ho : Owned G s) (fr : Frames) (w : Nat) (hp : p ∈ G) :
    ((s.setFrames fr).setEntry x w).kframe p = s.kframe p := by
  unfold Kern.kframe
  rw [hx.kernelTable _ w (ho.heapPage p hp)]
  rfl

/-- Giving up another frame leaves the frame usable. -/
theorem Usable.unmapSlot (hf : Usable lay G s f) (ho : Owned G s) (hx : OffHeap x)
    (hne : ppn (s.entry x) ≠ f) : Usable lay G (s.unmapSlot x) f := by
  refine ⟨hf.pool, ?_, fun p hp => ?_⟩
  · unfold Kern.unmapSlot
    rw [setEntry_frames]
    show f ∉ (s.frames.decrementReferences (ppn (s.entry x))).freeFrameList
    rcases decrementReferences_list s.frames (ppn (s.entry x)) with he | he <;> rw [he]
    · exact hf.notFree
    · rw [List.mem_cons, not_or]
      exact ⟨hne.symm, hf.notFree⟩
  · unfold Kern.unmapSlot
    rw [hx.kframe ho _ _ hp]
    exact hf.notOwned p hp

/-! ## Pages that a directory can map -/

/-- A page below `USER_TOP`, or a page of the kernel space off the heap that no static mapping
uses and whose table was built at boot. -/
def Mappable (lay : Layout) (s : Kern) (va : Nat) : Prop :=
  va < userTop ∨ (ppn va ∈ lay.dynamic ∧ ¬ HeapPage (ppn va) ∧ present (s.kernelDirectory (pdx va)))

/-- Where `get_page_table` finds the entry of `va`. -/
structure Located (lay : Layout) (dirs : Roots) (s : Kern) (dir : DirPtr) (va : Nat) (x : Slot) :
    Prop where
  get : getPageTable dir va s = .ok (some x.1) s
  index : x = (x.1, ptx va)
  reach : s.Reach x.1
  live : x ∈ liveSlots lay dirs s
  offHeap : OffHeap x

theorem SlotAt.located (h : Directories G dirs s) (hva : va < userTop)
    (hx : SlotAt dirs s dir (ppn va) x) : Located lay dirs s dir va x :=
  ⟨(hx.get h hva).1, (hx.get h hva).2, hx.reach h, hx.live, hx.offHeap⟩

/-- A page of the kernel space has its entry in the tables built at boot, in every directory. -/
theorem located_kernel (h : Directories G dirs s) (hdir : dir ∈ dirs.page)
    (hd : ppn va ∈ lay.dynamic) (hoff : ¬ HeapPage (ppn va))
    (hpr : present (s.kernelDirectory (pdx va))) :
    Located lay dirs s dir va (bootSlot (ppn va)) := by
  obtain ⟨h1, h2, h3, h4⟩ := lay.dynamic_kernel _ hd
  have hpdx : pdx va = ppn va / 1024 := by
    unfold pdx
    unfold ppn at h1 h2 ⊢
    omega
  -- every directory lists the kernel tables of the boot directory
  have hpde : s.pde dir (pdx va) = s.kernelDirectory (pdx va) := by
    cases dir with
    | boot => rfl
    | heap d => exact h.kernelPart d hdir _ (by omega) (pdx_lt va) (by omega) (by omega)
  have hself : ¬ selfMapped va := by
    unfold selfMapped
    omega
  have hk : checkIfKernelAddress va := by
    unfold checkIfKernelAddress userTop
    unfold ppn at h1
    omega
  refine ⟨?_, rfl, trivial, bootSlot_live hd, ?_⟩
  · have hlists : s.listsBootTable va (s.pde dir (pdx va)) := by
      rw [hpde]
      exact listsBootTable_self hpr
    rw [getPageTable_present (h.reachDir (.inl hdir)) (by rwa [hpde]) (not_tableBeyond_lists hlists),
      tableOf_kernel hk hself hlists, hpdx]
    rfl
  · show ¬ HeapPage (ppn va / 1024 * 1024 + ppn va % 1024)
    rwa [show ppn va / 1024 * 1024 + ppn va % 1024 = ppn va by omega]

/-- `get_page_table` finds the entry of a mappable page, or its directory entry is not there and
the page lies below `USER_TOP`. -/
theorem Mappable.located (h : Directories G dirs s) (hdir : dir ∈ dirs.page)
    (hm : Mappable lay s va) : (∃ x, Located lay dirs s dir va x ∧
      (va < userTop → SlotAt dirs s dir (ppn va) x)) ∨
    (va < userTop ∧ ¬ present (s.pde dir (pdx va)) ∧ s.table dir (pdx va) = none ∧
      getPageTable dir va s = .ok none s) := by
  rcases hm with hva | ⟨hd, hoff, hpr⟩
  · obtain ⟨hpdx, hlt⟩ := pdx_user hva
    cases htab : s.table dir (pdx va) with
    | some a =>
      have hx := slotAt_of_table hdir hlt (hpdx ▸ htab)
      exact .inl ⟨_, hx.located h hva, fun _ => hx⟩
    | none =>
      have hnp : ¬ present (s.pde dir (pdx va)) := by
        intro hp
        unfold Kern.table at htab
        rw [if_pos hp] at htab
        cases htab
      refine .inr ⟨hva, hnp, rfl, ?_⟩
      exact getPageTable_zero (h.reachDir (.inl hdir)) (h.pde_zero dir (.inl hdir) _ (by omega) hnp)
  · refine .inl ⟨_, located_kernel h hdir hd hoff hpr, fun hva => ?_⟩
    obtain ⟨h1, -⟩ := lay.dynamic_kernel _ hd
    have := (pdx_user hva).2
    omega

/-! ## unmap_frame and map_frame -/

theorem Located.notOwned (ho : Owned G s) (hx : Located lay dirs s dir va x) :
    Writable lay G dirs s x := by
  refine ⟨hx.live, ?_⟩
  rintro p hp rfl
  apply hx.offHeap
  rw [show p / 1024 * 1024 + p % 1024 = p by omega]
  exact ho.heapPage p hp

theorem MemOk.entry_zero (h : MemOk lay G D dirs held s) (hx : x ∈ liveSlots lay dirs s) :
    s.entry x = 0 ↔ ¬ present (s.entry x) :=
  ⟨fun h0 hp => present_ne_zero hp h0, h.accounted.entry_zero x hx⟩

/-- **`unmap_frame`.** The entry of the page is cleared, if it maps a frame. -/
theorem MemOk.unmapFrame (h : MemOk lay G D dirs held s) (hdir : dir ∈ dirs.page)
    (hm : Mappable lay s va) (hk : Fos.unmapFrame dir va s = .ok () s') :
    (s' = s ∧ (va < userTop → s.leaf dir (ppn va) = 0)) ∨
    ∃ x, Located lay dirs s dir va x ∧ (va < userTop → SlotAt dirs s dir (ppn va) x) ∧
      present (s.entry x) ∧ s' = s.unmapSlot x := by
  rcases hm.located h.directories hdir with ⟨x, hx, huser⟩ | ⟨hva, -, htab, hnone⟩
  · rw [unmapFrame_slot hx.get hx.reach, ← hx.index] at hk
    by_cases h0 : s.entry x = 0
    · rw [if_pos h0] at hk
      obtain ⟨-, rfl⟩ := ok_inj.1 hk
      exact .inl ⟨rfl, fun hva => by rw [← (huser hva).entry, h0]⟩
    · rw [if_neg h0] at hk
      split at hk
      case isTrue => cases hk
      case isFalse =>
        obtain ⟨-, rfl⟩ := ok_inj.1 hk
        refine .inr ⟨x, hx, huser, ?_, rfl⟩
        by_contra hnp
        exact h0 ((h.entry_zero hx.live).2 hnp)
  · rw [unmapFrame_none hnone] at hk
    obtain ⟨-, rfl⟩ := ok_inj.1 hk
    refine .inl ⟨rfl, fun hva => leaf_of_none ?_⟩
    rw [← (pdx_user hva).1]
    exact htab

theorem MemOk.unmapLocated (h : MemOk lay G D dirs held s) (hx : Located lay dirs s dir va x)
    (hpr : present (s.entry x)) : MemOk lay G D dirs held (s.unmapSlot x) :=
  h.unmapSlot (hx.notOwned h.owned) hx.offHeap hpr

/-- **`map_frame`**, up to the entry: the table of the page is there, or is created. -/
theorem MemOk.mapFrame (h : MemOk lay G D dirs held s) (hdir : dir ∈ dirs.page)
    (hm : Mappable lay s va) (hk : Fos.mapFrame dir f va perm s = .ok () s') :
    ∃ G' t x, Quiet dirs D G G' s t ∧ MemOk lay G' D dirs held t ∧ Located lay dirs t dir va x ∧
      (va < userTop → SlotAt dirs t dir (ppn va) x) ∧ Remap t x f va perm s' := by
  obtain ⟨tbl, t, htbl, hk⟩ := bind_eq_ok.1 hk
  rcases hm.located h.directories hdir with ⟨x, hx, huser⟩ | ⟨hva, hnp, htab, hnone⟩
  · rw [pageTableWith, Prog.bind_of_ok hx.get] at htbl
    obtain ⟨rfl, rfl⟩ := ok_inj.1 htbl
    have hr := mapFrameIn_slot hx.get hx.reach hk
    rw [← hx.index] at hr
    exact ⟨G, s, x, .refl dirs D G s, h, hx, huser, hr⟩
  · rw [pageTableWith, Prog.bind_of_ok hnone] at htbl
    obtain ⟨p, -, rfl, htab', hq, hok⟩ := h.createPageTable (.inl hdir) hva hnp htbl
    obtain ⟨hpdx, hlt⟩ := pdx_user hva
    have hx := slotAt_of_table hdir hlt (hpdx ▸ htab')
    have hloc : Located lay dirs t dir va _ := hx.located hok.directories hva
    have hr := mapFrameIn_slot hloc.get hloc.reach hk
    exact ⟨_, t, _, hq, hok, hloc, fun _ => hx, hr⟩

/-- The entry maps the frame from then on, and the accounts are kept. -/
theorem MemOk.remap (h : MemOk lay G D dirs held s) (hx : Located lay dirs s dir va x)
    (hf : Usable lay G s f) (hperm : perm < 4096)
    (hlt : ¬ (present (s.entry x) ∧ ppn (s.entry x) = f) → s.references f < 65535)
    (hr : Remap s x f va perm s') : MemOk lay G D dirs (held \ {f}) s' := by
  cases hr with
  | same hp he =>
    have hmapped := mapping_of_present hx.live hp
    rw [he] at hmapped
    rwa [Set.sdiff_singleton_eq_self (h.counted.notHeld hmapped)]
  | new hnp => exact h.mapSlot hx.live hx.offHeap hnp hf (hlt fun hc => hnp hc.1) hperm
  | other hp hne hlt' =>
    have hwr := hx.notOwned h.owned
    -- the page maps another frame, which is given up before the entry is written
    have h' := h.unmapLocated hx hp
    have hback : ∀ q ∈ G, ((s.frames.decrementReferences (ppn (s.entry x))).info (s.kframe q)).va =
        (s.frames.info (s.kframe q)).va := by
      intro q hq
      rw [decrementReferences_info_of_ne]
      rintro he
      refine hwr.notOwned q hq (h.accounted.unshared q hq x ?_)
      rw [mapping_of_present hx.live hp, he]
    have hwr' := hwr.setFrames h.directories hback
    have hdirs' := h.directories.setFrames hback
    have hself : (s.unmapSlot x).entry x = 0 := hwr'.entry_self hdirs' 0
    refine h'.mapSlot ?_ hx.offHeap ?_ (hf.unmapSlot h.owned hx.offHeap hne) ?_ hperm
    · show x ∈ liveSlots lay dirs ((s.setFrames _).setEntry x 0)
      rw [hwr'.liveSlots hdirs' 0]
      exact hwr'.live
    · rw [hself]
      exact not_present_zero
    · unfold Kern.references Kern.unmapSlot
      rw [setEntry_frames]
      show ((s.frames.decrementReferences (ppn (s.entry x))).info f).references < 65535
      rw [decrementReferences_info_of_ne _ hne.symm]
      exact hlt fun hc => hne hc.2

end

end Fos
