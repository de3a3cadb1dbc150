import Fos.PageTables.Access
import Fos.PageFile.Slots

/-!
# Between the page file and memory

`pf_read_env_page` fills a mapped page of the running environment from the disk, and
`pf_update_env_page` copies a frame to the disk through a scratch page of the kernel space. The
scratch page is given back before the call returns.
-/

namespace Fos

open Function (update)
open Prog (bind_eq_ok ok_inj)

section

variable {lay : Layout} {G G' D : Set Nat} {dirs : Roots} {pages : List DirPtr} {held : Set Nat}
  {s s' t : Kern} {dir : DirPtr} {e f n p va w : Nat} {x : Slot} {page : Nat → Nat}

/-! ## Reading -/

/-- **A store through the MMU** fills the frame of the page and marks its entry modified. -/
theorem MemOk.writeUserPage (h : MemOk lay G D dirs held s) (hdir : dir ∈ dirs.page)
    (hva : va < userTop) (hpr : present (s.leaf dir (ppn va))) (page : Nat → Nat) :
    ∃ t, Fos.writeUserPage dir va page s = .ok () t ∧ MemOk lay G D dirs held t ∧
      TouchesPage dirs D held dir (ppn va) (ppn (s.leaf dir (ppn va)))
        (setPerm (s.leaf dir (ppn va)) permModified) page s t := by
  obtain ⟨q, hq, hx, hwalk⟩ := h.walk hdir hva hpr
  obtain ⟨-, hlt⟩ := pdx_user hva
  set e := s.leaf dir (ppn va) with he
  have hnot := h.leaf_notOwned hdir hlt hpr
  have hentry := hx.entry
  have hpr' : present (setPerm e permModified) := (present_setPerm e).2 hpr
  have hppn : ppn (setPerm e permModified) = ppn e := ppn_setPerm e (by decide)
  have h₁ := h.setPermissions hx (by rw [hentry]; exact hpr) hpr' (by rw [hentry, hppn])
  have ht₁ := h.setPermissions_touches hx (setPerm e permModified) (f := ppn e)
    fun r hr _ => hnot r hr
  obtain ⟨h₂, hleaf₂⟩ := h₁.fillUser (f := ppn e) hnot page
  have hstore : s.store (s.kframe q) (ptx va) (setPerm e permModified) =
      s.setEntry (.heap (q * 4096), ptx va) (setPerm e permModified) := by
    show _ = s.store (s.frameAt (q * 4096)) (ptx va) (setPerm e permModified)
    rw [kframe_page]
  -- the frame is one of the pool, behind no page of the kernel
  have hge : 3 ≤ ppn e := lay.pool_ge _ (h.usable_leaf hdir hlt hpr).pool
  refine ⟨_, ?_, h₂, ⟨ht₁.data, ht₁.offHeap, ht₁.kernelDirectory, ht₁.numberOfFrames, ht₁.strategy,
    fun f hf => (fill_ram_of_ne (by omega)).trans (ht₁.static f hf)⟩,
    ⟨ht₁.disk, ht₁.envs, ht₁.shares, fun dir' hdir' p hp => ?_⟩, fun dir' hdir' p hp => ?_,
    fill_ram_self, fun g hg hgf => ?_, ht₁.frames⟩
  · rw [Fos.writeUserPage, Prog.get_bind_apply, hwalk]
    dsimp only
    rw [hstore]
    rfl
  · rw [hleaf₂ dir' (.inr hdir') p hp, ht₁.diskLeaf dir' hdir' p hp]
  · rw [hleaf₂ dir' (.inl hdir') p hp, ht₁.leaf dir' hdir' p hp]
  · rw [fill_ram_of_ne hgf, ht₁.ram g hg hgf]

theorem SlotAt.setEntry_self (hx : SlotAt dirs s dir p x) : s.setEntry x (s.entry x) = s := by
  obtain ⟨a, -, rfl⟩ := hx.table
  show s.store (s.frameAt a) (p % 1024) (s.ram (s.frameAt a) (p % 1024)) = s
  unfold Kern.store
  rw [Function.update_eq_self, Function.update_eq_self]

/-- **`pt_set_page_permissions`** that clears the modified bit. -/
theorem MemOk.clearModified (h : MemOk lay G D dirs held s)
    (hdir : .heap (s.envs e).envPageDirectory ∈ dirs.page) (hva : va < userTop)
    (hpr : present (s.leaf (.heap (s.envs e).envPageDirectory) (ppn va))) :
    ∃ t, ptSetPagePermissions e va 0 permModified s = .ok () t ∧ MemOk lay G D dirs held t ∧
      TouchesPage dirs D held (.heap (s.envs e).envPageDirectory) (ppn va)
        (ppn (s.leaf (.heap (s.envs e).envPageDirectory) (ppn va)))
        (clearPerm (s.leaf (.heap (s.envs e).envPageDirectory) (ppn va)) permModified)
        (s.ram (ppn (s.leaf (.heap (s.envs e).envPageDirectory) (ppn va)))) s t := by
  set dir := DirPtr.heap (s.envs e).envPageDirectory with hdirdef
  obtain ⟨q, hpde, htable, hx⟩ := h.tableOf_user hdir hva hpr
  have hlt := (pdx_user hva).2
  have hentry := hx.entry
  have hnot := h.leaf_notOwned hdir hlt hpr
  have hreach := hx.reach h.directories
  have hset : setPerm (s.leaf dir (ppn va)) 0 = s.leaf dir (ppn va) := Nat.or_zero _
  -- setting no bit writes the entry back as it is
  have hself : s.setEntry (.heap (q * 4096), ptx va) (s.leaf dir (ppn va)) = s := by
    rw [← hentry]
    exact hx.setEntry_self
  refine ⟨s.setEntry (.heap (q * 4096), ptx va) (clearPerm (s.leaf dir (ppn va)) permModified),
    ?_, ?_, ?_⟩
  · rw [ptSetPagePermissions, Prog.get_bind_apply]
    dsimp only
    rw [← hdirdef, Prog.bind_of_ok (readPde_reach (h.directories.reachDir (.inl hdir)) (pdx_lt va)),
      Prog.ite_run, if_pos hpde, Prog.get_bind_apply, htable,
      Prog.bind_of_ok (readPte_reach hreach (ptx_lt va)), hentry, hset,
      Prog.bind_of_ok (writePte_reach hreach (ptx_lt va)), hself,
      Prog.bind_of_ok (readPte_reach hreach (ptx_lt va)), hentry]
    exact writePte_reach hreach (ptx_lt va)
  · refine h.setPermissions hx (by rw [hentry]; exact hpr) ?_ ?_
    · rw [present_clearPerm]
      exact hpr
    · rw [hentry, ppn_clearPerm]
  · exact h.setPermissions_touches hx _ fun r hr _ => hnot r hr

/-- **`pf_read_env_page`** into the running environment, where the page is mapped: the page gets the
words of its disk frame, and is not modified. -/
theorem FileOk.pfReadEnvPage (h : FileOk lay G D dirs held s)
    (hdir : .heap (s.envs e).envPageDirectory ∈ dirs.page) (hva : va < userTop)
    (hpr : present (s.leaf (.heap (s.envs e).envPageDirectory) (ppn va))) :
    (s.diskSlot (e, ppn va) = 0 ∧ Fos.pfReadEnvPage e e va s = .ok ePageNotExistInPf s) ∨
    (s.diskSlot (e, ppn va) ≠ 0 ∧ ∃ t, Fos.pfReadEnvPage e e va s = .ok 0 t ∧
      FileOk lay G D dirs held t ∧
      TouchesPage dirs D held (.heap (s.envs e).envPageDirectory) (ppn va)
        (ppn (s.leaf (.heap (s.envs e).envPageDirectory) (ppn va)))
        (clearPerm (s.leaf (.heap (s.envs e).envPageDirectory) (ppn va)) permModified)
        (s.disk.words (s.diskSlot (e, ppn va))) s t) := by
  obtain ⟨va', hva'⟩ : ∃ va', va' = rounddown va pageSize := ⟨_, rfl⟩
  have hround : va' < userTop ∧ ppn va' = ppn va := by
    rw [hva']
    unfold rounddown ppn pageSize
    omega
  obtain ⟨hpdx, hlt⟩ := pdx_user hround.1
  rw [hround.2] at hpdx hlt
  rw [Fos.pfReadEnvPage, ← hva', Prog.get_bind_apply, Prog.ite_run]
  by_cases hd : (s.envs e).diskEnvPgdir = 0
  · rw [if_pos hd]
    exact .inl ⟨diskSlot_none hd, rfl⟩
  · rw [if_neg hd, Prog.get_bind_apply,
      Prog.bind_of_ok (getDiskPageTable_find h.mem.directories (h.dir e hd) hround.1), Prog.ite_run,
      diskSlot_eq hd hlt]
    cases ha : s.table (.heap (s.envs e).diskEnvPgdir) (pdx va') with
    | none =>
      rw [Option.getD_none, if_pos rfl]
      exact .inl ⟨leaf_of_none (by rw [← hpdx]; exact ha), rfl⟩
    | some a =>
      have he : DiskEntry dirs s (.heap (s.envs e).diskEnvPgdir) (ppn va) a :=
        ⟨h.dir e hd, hlt, by rw [← hpdx]; exact ha⟩
      rw [Option.getD_some, if_neg (he.ne_zero h.mem.directories),
        show ptx va' = ppn va % 1024 by rw [← hround.2]; rfl,
        Prog.bind_of_ok (he.read h.mem.directories), Prog.ite_run]
      set n := s.leaf (.heap (s.envs e).diskEnvPgdir) (ppn va) with hn
      by_cases h0 : n = 0
      · rw [if_pos h0]
        exact .inl ⟨h0, rfl⟩
      · rw [if_neg h0, Prog.get_bind_apply, Prog.get_bind_apply]
        refine .inr ⟨h0, ?_⟩
        rw [← hround.2] at hpr ⊢
        obtain ⟨t₁, hrun₁, hok₁, ht₁⟩ :=
          h.mem.writeUserPage hdir hround.1 hpr (s.disk.words n)
        rw [Prog.bind_of_ok hrun₁]
        have hlt' : ppn va' < 977920 := by
          rw [hround.2]
          exact hlt
        have hleaf := ht₁.leaf _ hdir _ hlt'
        rw [if_pos ⟨rfl, rfl⟩] at hleaf
        have hprt : present (setPerm (s.leaf (.heap (s.envs e).envPageDirectory) (ppn va'))
            permModified) := (present_setPerm _).2 hpr
        have hppn : ppn (setPerm (s.leaf (.heap (s.envs e).envPageDirectory) (ppn va'))
            permModified) = ppn (s.leaf (.heap (s.envs e).envPageDirectory) (ppn va')) :=
          ppn_setPerm _ (by decide)
        have henv : (t₁.envs e).envPageDirectory = (s.envs e).envPageDirectory := by rw [ht₁.envs]
        have hclear := hok₁.clearModified (e := e) (by rw [henv]; exact hdir) hround.1
          (by rw [henv, hleaf]; exact hprt)
        rw [henv, hleaf, clearPerm_setPerm, hppn] at hclear
        obtain ⟨t, hrun, hok, ht⟩ := hclear
        rw [ht₁.content] at ht
        have hboth := ht₁.trans ht fun g =>
          (ht₁.inUse hpr hprt hppn).2
        refine ⟨t, ?_, h.congr hok rfl hboth.toSameRest (hboth.offHeap 0 not_heapPage_zero), hboth⟩
        rw [Prog.bind_of_ok hrun]
        rfl

/-! ## Writing back -/

/-- `map_frame` where the table exists and maps nothing at the address. -/
theorem mapFrame_new (hx : Located lay dirs s dir va x) (hnp : ¬ present (s.entry x)) (perm : Nat) :
    mapFrame dir f va perm s = .ok () (s.mapSlot x f va perm) := by
  have hpte : readPte x.1 (ptx va) s = .ok (s.entry x) s := by
    rw [readPte_reach hx.reach (ptx_lt va), ← hx.index]
  have hwrite : writePte x.1 (ptx va) (entryOf f perm) (s.setFrames (s.frames.addReference f va)) =
      .ok () (s.mapSlot x f va perm) := by
    rw [writePte_reach (hx.reach.setFrames _) (ptx_lt va), ← hx.index]
    rfl
  have htable : pageTableWith createPageTable dir va s = .ok x.1 s := by
    rw [pageTableWith, Prog.bind_of_ok hx.get]
    rfl
  rw [mapFrame, mapFrameWith, Prog.bind_of_ok htable, mapFrameIn, Prog.bind_of_ok hpte,
    Prog.ite_run, if_neg fun hc => hnp hc.1, if_neg hnp]
  exact hwrite

/-- The page at `USER_LIMIT`. -/
abbrev scratchPage : Nat := 980992

/-- Where `pf_update_env_page` maps the frame for a moment: a kernel page off the heap, with a table
since boot and mapping nothing. -/
structure Scratch (lay : Layout) (s : Kern) : Prop where
  dynamic : scratchPage ∈ lay.dynamic
  table : present (s.kernelDirectory 958)
  unmapped : s.kernelTable scratchPage = 0

theorem Scratch.kept (h : Scratch lay s) (hk : Kept D s t) : Scratch lay t := by
  refine ⟨h.dynamic, ?_, ?_⟩
  · rw [hk.kernelDirectory 958 (by omega)]
    exact h.table
  · rw [hk.offHeap scratchPage (by unfold HeapPage scratchPage; omega)]
    exact h.unmapped

/-- A kernel page with a table is located in every page directory. -/
theorem Scratch.located (hd : Directories G dirs s) (hdir : dir ∈ dirs.page)
    (hdyn : scratchPage ∈ lay.dynamic) (htab : present (s.kernelDirectory 958)) :
    Located lay dirs s dir userLimit (bootSlot scratchPage) :=
  located_kernel hd hdir hdyn (by unfold HeapPage; decide) htab

/-- The state in which frame `f` is mapped at the scratch page. -/
def Kern.atScratch (s : Kern) (f perm : Nat) : Kern :=
  (s.setFrames (s.frames.addReference f userLimit)).setKernelTable scratchPage (entryOf f perm)

theorem Kern.atScratch_kernelTable (s : Kern) (f perm : Nat) :
    (s.atScratch f perm).kernelTable scratchPage = entryOf f perm := by
  show update s.kernelTable scratchPage (entryOf f perm) scratchPage = _
  rw [Function.update_self]

theorem Owned.atScratch (ho : Owned G s) (f perm : Nat) (hp : p ∈ G) :
    (s.atScratch f perm).kframe p = s.kframe p := by
  have hoff : ¬ HeapPage scratchPage := by
    unfold HeapPage scratchPage
    omega
  have hne : p ≠ scratchPage := fun hc => hoff (hc ▸ ho.heapPage p hp)
  exact congrArg ppn (Function.update_of_ne hne _ _)

/-- Two references more and two references less, the second without `free_frame`. -/
theorem frames_round {fr : Frames} (hlt : (fr.info f).references < 65535) :
    (((fr.addReference f va).incReferences f).decrementReferences f).decReferences f =
      fr.setInfo f ⟨(fr.info f).references, va⟩ := by
  unfold Frames.decReferences Frames.decrementReferences Frames.incReferences Frames.addReference
    Frames.setInfo
  simp only [Function.update_self, Function.update_idem]
  have h1 : u16Pred (u16Succ (u16Succ (fr.info f).references)) = (fr.info f).references + 1 := by
    rw [show u16Succ (fr.info f).references = (fr.info f).references + 1 from
      if_neg (Nat.ne_of_lt hlt)]
    unfold u16Pred u16Succ
    by_cases hm : (fr.info f).references + 1 = 65535
    · rw [if_pos hm, if_pos rfl, hm]
    · rw [if_neg hm, if_neg (by omega), Nat.add_sub_cancel]
  rw [h1, if_neg (by omega)]
  simp only [Function.update_self, Function.update_idem]
  unfold u16Pred
  rw [if_neg (by omega), Nat.add_sub_cancel]

/-- `map_frame` at the scratch page. -/
theorem MemOk.mapScratch (h : MemOk lay G D dirs held s) (hdir : dir ∈ dirs.page)
    (hs : Scratch lay s) (hf : Usable lay G s f) (hlt : s.references f < 65535) (perm : Nat)
    (hperm : perm < 4096) :
    Fos.mapFrame dir f userLimit perm s = .ok () (s.atScratch f perm) ∧
      MemOk lay G D dirs (held \ {f}) (s.atScratch f perm) ∧
      (s.atScratch f perm).Mapped userLimit ∧ (s.atScratch f perm).frameAt userLimit = f := by
  have hx := Scratch.located h.directories hdir hs.dynamic hs.table
  have hnp : ¬ present (s.entry (bootSlot scratchPage)) := by
    rw [entry_bootSlot, hs.unmapped]
    exact not_present_zero
  have hst : s.mapSlot (bootSlot scratchPage) f userLimit perm = s.atScratch f perm :=
    setEntry_bootSlot _ _ _
  have hpte := s.atScratch_kernelTable f perm
  refine ⟨?_, ?_, ?_, ?_⟩
  · rw [mapFrame_new hx hnp perm, hst]
  · rw [← hst]
    exact h.remap hx hf hperm (fun _ => hlt) (.new hnp)
  · show present ((s.atScratch f perm).kernelTable scratchPage)
    rw [hpte]
    exact present_entryOf hperm
  · show ppn ((s.atScratch f perm).kernelTable scratchPage) = f
    rw [hpte]
    exact ppn_entryOf hperm

/-- The scratch page is given up with one reference to spare, so that the frame is not freed. -/
theorem MemOk.unmapScratch {perm : Nat} (h : MemOk lay G D dirs held s)
    (hdir : dir ∈ dirs.page) (hs : Scratch lay s) (hf : Usable lay G s f)
    (hlt : s.references f < 65535) (hperm : perm < 4096) (u : Kern)
    (hu : Directories G dirs u)
    (hframes : u.frames = s.frames.addReference f userLimit)
    (hktab : u.kernelTable = (s.atScratch f perm).kernelTable)
    (hkdir : u.kernelDirectory = s.kernelDirectory) :
    (do
      modify fun s => s.setFrames (s.frames.incReferences f)
      Fos.unmapFrame dir userLimit
      modify fun s => s.setFrames (s.frames.decReferences f) : K Unit) u =
    .ok () ((u.setFrames (s.frames.setInfo f ⟨s.references f, userLimit⟩)).setKernelTable
      scratchPage 0) := by
  set v := u.setFrames (u.frames.incReferences f) with hv
  have hpte : u.kernelTable scratchPage = entryOf f perm := by
    rw [hktab]
    exact s.atScratch_kernelTable f perm
  have hkf : ∀ p ∈ G, u.kframe p ≠ f := by
    intro p hp
    have hk : u.kframe p = (s.atScratch f perm).kframe p := by
      unfold Kern.kframe
      rw [hktab]
    rw [hk, h.owned.atScratch f perm hp]
    exact (hf.notOwned p hp).symm
  have hdirs : Directories G dirs v := hu.setFrames fun p hp =>
    congrArg FrameInfo.va (Function.update_of_ne (hkf p hp) _ _)
  have hx : Located lay dirs v dir userLimit (bootSlot scratchPage) :=
    Scratch.located hdirs hdir hs.dynamic (hkdir ▸ hs.table)
  have hentry : v.entry (bootSlot scratchPage) = entryOf f perm := by
    rw [entry_bootSlot]
    exact hpte
  have hin : f < s.frames.numberOfFrames := h.accounted.inRange f hf.pool
  have hunmap : Fos.unmapFrame dir userLimit v = .ok () (v.unmapSlot (bootSlot scratchPage)) := by
    have hrun := unmapFrame_slot hx.get hx.reach
    rw [← hx.index, hentry, if_neg (present_ne_zero (present_entryOf hperm)), ppn_entryOf hperm,
      if_neg] at hrun
    · exact hrun
    · show ¬ u.frames.numberOfFrames ≤ f
      rw [hframes]
      exact Nat.not_le.2 hin
  have hv' : v.unmapSlot (bootSlot scratchPage) =
      (v.setFrames (v.frames.decrementReferences f)).setKernelTable scratchPage 0 := by
    unfold Kern.unmapSlot
    rw [hentry, ppn_entryOf hperm, setEntry_bootSlot]
  rw [Prog.modify_bind_apply]
  show (do
    Fos.unmapFrame dir userLimit
    modify fun s => s.setFrames (s.frames.decReferences f) : K Unit) v = _
  rw [Prog.bind_of_ok hunmap, Prog.modify_apply, hv']
  congr 1
  -- the counts of the frame go up twice and down twice
  show ((u.setFrames ((v.frames.decrementReferences f).decReferences f)).setKernelTable
    scratchPage 0) = _
  rw [hv]
  show ((u.setFrames (((u.frames.incReferences f).decrementReferences f).decReferences f)
    ).setKernelTable scratchPage 0) = _
  rw [hframes, frames_round hlt]
  rfl

/-- The descriptor of a usable frame does not belong to the books of the heap. -/
theorem MemOk.setVa (h : MemOk lay G D dirs held s) (hf : Usable lay G s f) (va : Nat) :
    MemOk lay G D dirs held (s.setFrames (s.frames.setInfo f ⟨s.references f, va⟩)) := by
  set fr := s.frames.setInfo f ⟨s.references f, va⟩ with hfr
  have hinfo : ∀ g, g ≠ f → fr.info g = s.frames.info g := by
    intro g hg
    exact Function.update_of_ne hg _ _
  have hback : ∀ p ∈ G, (fr.info (s.kframe p)).va = (s.frames.info (s.kframe p)).va := by
    intro p hp
    rw [hinfo _ (hf.notOwned p hp).symm]
  have hrefs : (fun g => (fr.info g).references) = s.references := by
    funext g
    by_cases hg : g = f
    · rw [hg]
      show (update s.frames.info f ⟨s.references f, va⟩ f).references = _
      rw [Function.update_self]
    · exact congrArg FrameInfo.references (hinfo g hg)
  have hacc : Accounted lay G dirs held (s.setFrames fr) := by
    refine h.accounted.setFrames hback rfl (fun g hg => hinfo g ?_) ?_
    · rintro rfl
      exact hg hf.pool
    · rw [hrefs]
      exact h.counted
  exact ⟨hacc, h.heap.congr rfl (fun _ _ => rfl) fun _ _ => rfl, h.blocks, fun p hp =>
    h.data_congr (fun _ _ => rfl) (fun dir _ i _ => setFrames_pde s fr dir i) hp⟩

/-- The state after frame `f` was copied to disk frame `n`: its descriptor has the scratch address,
and its count is what it was. -/
def Kern.copied (s : Kern) (n f : Nat) : Kern :=
  (s.setFrames (s.frames.setInfo f ⟨s.references f, userLimit⟩)).setDisk
    { s.disk with words := update s.disk.words n (s.ram f) }

theorem references_copied (s : Kern) (n f g : Nat) :
    (s.copied n f).references g = s.references g := by
  show (update s.frames.info f ⟨s.references f, userLimit⟩ g).references = _
  by_cases hg : g = f
  · rw [hg, Function.update_self]
  · rw [Function.update_of_ne hg]
    rfl

theorem MemOk.copied (h : MemOk lay G D dirs held s) (hf : Usable lay G s f) (n : Nat) :
    MemOk lay G D dirs held (s.copied n f) :=
  (h.setVa hf userLimit).setRest _ s.envs s.shares

/-- **The copy of a frame to the disk.** -/
theorem MemOk.writeFrame (h : MemOk lay G D dirs held s) (hdir : dir ∈ dirs.page)
    (hs : Scratch lay s) (hf : Usable lay G s f) (hlt : s.references f < 65535) (n : Nat) :
    Fos.writeFrame dir n f s = .ok () (s.copied n f) := by
  obtain ⟨hmap, hok₁, hmapped, hframe⟩ :=
    h.mapScratch hdir hs hf hlt 0 (by decide)
  set s₁ := s.atScratch f 0 with hs₁
  set s₂ := s₁.setDisk { s₁.disk with words := update s₁.disk.words n (s₁.ram f) } with hs₂
  have hback := h.unmapScratch hdir hs hf hlt (by decide : 0 < 4096) s₂
    (hok₁.setRest _ s₁.envs s₁.shares).directories rfl rfl rfl
  rw [Fos.writeFrame, Prog.bind_of_ok hmap, Prog.get_bind_apply, Prog.ite_run, if_pos hmapped,
    hframe]
  show (do
    modify fun s => s.setFrames (s.frames.incReferences f)
    Fos.unmapFrame dir userLimit
    modify fun s => s.setFrames (s.frames.decReferences f) : K Unit) s₂ = _
  rw [hback]
  congr 1
  -- nothing but the descriptor and the disk is left changed
  rw [hs₂, hs₁]
  unfold Kern.copied Kern.atScratch Kern.setKernelTable Kern.setFrames Kern.setDisk
  dsimp only
  rw [Function.update_idem, ← hs.unmapped, Function.update_eq_self]

/-- The file after a copy: the words of one disk frame. -/
theorem FileOk.copied (h : FileOk lay G D dirs held s) (hf : Usable lay G s f) (n : Nat) :
    FileOk lay G D dirs held (s.copied n f) ∧ (s.copied n f).diskSlot = s.diskSlot ∧
      ∀ dir ∈ dirs, ∀ p < 977920, (s.copied n f).leaf dir p = s.leaf dir p := by
  have hback : ∀ p ∈ G, ((s.frames.setInfo f ⟨s.references f, userLimit⟩).info (s.kframe p)).va =
      (s.frames.info (s.kframe p)).va := fun p hp =>
    congrArg FrameInfo.va (Function.update_of_ne (hf.notOwned p hp).symm _ _)
  have hleaf : ∀ dir ∈ dirs, ∀ p < 977920, (s.copied n f).leaf dir p = s.leaf dir p :=
    fun dir hdir p hp => h.mem.directories.leaf_setFrames hback hdir hp
  have hslot : (s.copied n f).diskSlot = s.diskSlot :=
    diskSlot_congr (fun _ => rfl) fun e hd p hp => hleaf _ (.inr (h.dir e hd)) p hp
  refine ⟨⟨h.mem.copied hf n, h.dir, h.inj, h.low, ?_⟩, hslot, hleaf⟩
  rw [hslot]
  exact h.exact

/-- The scratch page is found only through a page directory. -/
theorem writeFrame_null (hlow : ¬ present (s.kernelTable 0)) (n f : Nat) (t : Kern) :
    Fos.writeFrame (.heap 0) n f s ≠ .ok () t := by
  intro hk
  obtain ⟨_, s₁, hmap, -⟩ := bind_eq_ok.1 hk
  obtain ⟨tbl, s₂, htable, -⟩ := bind_eq_ok.1 hmap
  obtain ⟨o, s₃, hget, -⟩ := bind_eq_ok.1 htable
  obtain ⟨w, s₄, hread, -⟩ := bind_eq_ok.1 hget
  exact readWord_null hlow (pdx userLimit) w s₄ (by
    rw [show pdx userLimit % 1024 = pdx userLimit by rfl]
    exact hread)

/-- **`pf_update_env_page`** for a mapped frame: a page that is not in the file is refused, and at
most the directory of the environment is made; else the disk frame gets the words of the frame. -/
theorem FileInv.pfUpdateEnvPage {r : Int} (h : FileInv lay D pages held s) (hva : va < userTop)
    (hdir : (s.envs e).envPageDirectory ≠ 0 → .heap (s.envs e).envPageDirectory ∈ pages)
    (hs : Scratch lay s) (hf : UserFrame pages s f) (hlt : s.references f < 65535)
    (hk : Fos.pfUpdateEnvPage e va f s = .ok r t) :
    FileInv lay D pages held t ∧
    ((r = ePageNotExistInPf ∧ s.diskSlot (e, ppn va) = 0 ∧ FileOnly pages D held s t ∧
        t.disk = s.disk ∧ t.diskSlot = s.diskSlot ∧ ((s.envs e).diskEnvPgdir ≠ 0 → t = s)) ∨
      (r = 0 ∧ s.diskSlot (e, ppn va) ≠ 0 ∧ t = s.copied (s.diskSlot (e, ppn va)) f ∧
        t.diskSlot = s.diskSlot ∧ ∀ dir ∈ pages, ∀ p < 977920, t.leaf dir p = s.leaf dir p)) := by
  obtain ⟨G, dirs, rfl, h⟩ := h
  have hnk : ¬ kernelBase ≤ va := by
    unfold userTop at hva
    unfold kernelBase
    omega
  obtain ⟨hpdx, hlt'⟩ := pdx_user hva
  rw [Fos.pfUpdateEnvPage, Prog.ite_run, if_neg hnk] at hk
  obtain ⟨r₁, s₁, h₁, hrest⟩ := bind_eq_ok.1 hk
  rw [Prog.get_bind_apply] at hrest
  by_cases hd : (s.envs e).diskEnvPgdir = 0
  · -- a new directory has no table
    obtain ⟨G₁, dirs₁, hpages, hok₁, hf₁, hdisk₁, hslot₁⟩ := h.getDiskPageDirectory h₁
    have hzero : s.diskSlot (e, ppn va) = 0 := diskSlot_none hd
    have hd₁ : (s₁.envs e).diskEnvPgdir ≠ 0 := by
      intro hd₁
      obtain ⟨tbl, s₂, htable, -⟩ := bind_eq_ok.1 hrest
      obtain ⟨w, s₃, hread, -⟩ := bind_eq_ok.1 htable
      rw [hd₁, show pdx va = pdx va % 1024 by unfold pdx; omega] at hread
      exact readWord_null hok₁.low _ w s₃ hread
    have hzero₁ : s₁.leaf (.heap (s₁.envs e).diskEnvPgdir) (ppn va) = 0 := by
      rw [← diskSlot_eq hd₁ hlt', hslot₁, hzero]
    rw [Prog.bind_of_ok (getDiskPageTable_find hok₁.mem.directories (hok₁.dir e hd₁) hva),
      Prog.ite_run] at hrest
    -- no slot of a new directory holds a disk frame, whether the table exists or not
    have hend : r = ePageNotExistInPf ∧ t = s₁ := by
      cases ha : s₁.table (.heap (s₁.envs e).diskEnvPgdir) (pdx va) with
      | none =>
        rw [ha, Option.getD_none, if_pos rfl] at hrest
        obtain ⟨rfl, rfl⟩ := ok_inj.1 hrest
        exact ⟨rfl, rfl⟩
      | some a =>
        have he : DiskEntry dirs₁ s₁ (.heap (s₁.envs e).diskEnvPgdir) (ppn va) a :=
          ⟨hok₁.dir e hd₁, hlt', by rw [← hpdx]; exact ha⟩
        rw [ha, Option.getD_some, if_neg (he.ne_zero hok₁.mem.directories),
          show ptx va = ppn va % 1024 from rfl, Prog.bind_of_ok (he.read hok₁.mem.directories),
          Prog.ite_run, if_pos hzero₁] at hrest
        obtain ⟨rfl, rfl⟩ := ok_inj.1 hrest
        exact ⟨rfl, rfl⟩
    obtain ⟨rfl, rfl⟩ := hend
    exact ⟨⟨G₁, dirs₁, hpages, hok₁⟩,
      .inl ⟨rfl, hzero, hf₁, hdisk₁, hslot₁, fun hc => absurd hd hc⟩⟩
  · -- the directory exists, so `get_disk_page_directory` changes nothing
    have hsame : s₁ = s := by
      rw [Fos.getDiskPageDirectory, Prog.get_bind_apply, Prog.ite_run, if_neg hd] at h₁
      exact (ok_inj.1 h₁).2.symm
    subst hsame
    rw [Prog.bind_of_ok (getDiskPageTable_find h.mem.directories (h.dir e hd) hva),
      Prog.ite_run] at hrest
    rw [diskSlot_eq hd hlt']
    cases ha : s₁.table (.heap (s₁.envs e).diskEnvPgdir) (pdx va) with
    | none =>
      rw [ha, Option.getD_none, if_pos rfl] at hrest
      obtain ⟨rfl, rfl⟩ := ok_inj.1 hrest
      exact ⟨⟨G, dirs, rfl, h⟩,
        .inl ⟨rfl, leaf_of_none (by rw [← hpdx]; exact ha), .refl _ _ _ _, rfl, rfl, fun _ => rfl⟩⟩
    | some a =>
      have he : DiskEntry dirs s₁ (.heap (s₁.envs e).diskEnvPgdir) (ppn va) a :=
        ⟨h.dir e hd, hlt', by rw [← hpdx]; exact ha⟩
      rw [ha, Option.getD_some, if_neg (he.ne_zero h.mem.directories),
        show ptx va = ppn va % 1024 from rfl, Prog.bind_of_ok (he.read h.mem.directories),
        Prog.ite_run] at hrest
      split at hrest
      case isTrue h0 =>
        obtain ⟨rfl, rfl⟩ := ok_inj.1 hrest
        exact ⟨⟨G, dirs, rfl, h⟩, .inl ⟨rfl, h0, .refl _ _ _ _, rfl, rfl, fun _ => rfl⟩⟩
      case isFalse h0 =>
        rw [Prog.get_bind_apply] at hrest
        obtain ⟨_, s₂, hwrite, hrest⟩ := bind_eq_ok.1 hrest
        obtain ⟨rfl, rfl⟩ := ok_inj.1 hrest
        have hpd : (s₁.envs e).envPageDirectory ≠ 0 := by
          intro hpd
          rw [hpd] at hwrite
          exact writeFrame_null h.low _ _ _ hwrite
        have husable := hf.usable h.mem
        rw [h.mem.writeFrame (hdir hpd) hs husable hlt] at hwrite
        obtain ⟨-, rfl⟩ := ok_inj.1 hwrite
        obtain ⟨hok, hslot, hleaf⟩ := h.copied husable
          (s₁.leaf (.heap (s₁.envs e).diskEnvPgdir) (ppn va))
        exact ⟨⟨G, dirs, rfl, hok⟩,
          .inr ⟨rfl, h0, rfl, hslot, fun dir hdir => hleaf dir (.inl hdir)⟩⟩

end

end Fos
