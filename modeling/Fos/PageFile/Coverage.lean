import Fos.PageFile.Counting
import Fos.PageFile.Later

/-!
# The addresses that the page file covers

The page-file functions accept every address below `KERNEL_BASE`. A page below `USER_TOP` that is in
the file is found by every later call, counted, and given back with its disk table at teardown. From
`USER_TOP` on the count and the teardown do not go as far as its table.
-/

namespace Fos

open Function (update)
open Prog (bind_eq_ok ok_inj)
open Relation (ReflTransGen)

/-- The word of the disk tables of an environment for the page at `va`. -/
def Kern.diskWord (s : Kern) (e va : Nat) : Nat := s.leaf (.heap (s.envs e).diskEnvPgdir) (ppn va)

/-- `s` with the word of the page cleared. -/
def Kern.withoutPage (s : Kern) (e va : Nat) : Kern :=
  match s.table (.heap (s.envs e).diskEnvPgdir) (pdx va) with
  | some a => s.setEntry (.heap a, ptx va) 0
  | none => s

/-- The page at `va` has disk frame `n`, and the page file knows it. -/
structure CoversPage (e va n : Nat) (s : FileState) : Prop where
  update : (s.kern.envs e).envPageDirectory ≠ 0 → ∀ f, UserFrame s.pages s.kern f →
    ∃ t, pfUpdateEnvPage e va f s.kern = .ok 0 t ∧
      t.disk.words = update s.kern.disk.words n (s.kern.ram f)
  read : (s.kern.envs e).envPageDirectory ≠ 0 →
    present (s.kern.leaf (s.kern.pageDirectory e) (ppn va)) →
    ∃ t, pfReadEnvPage e e va s.kern = .ok 0 t ∧
      t.ram (ppn (t.leaf (s.kern.pageDirectory e) (ppn va))) = s.kern.disk.words n
  remove : ∃ t, pfRemoveEnvPage e va s.kern = .ok () t ∧ t.diskWord e va = 0 ∧
    t.disk.diskFreeFrameList = n :: s.kern.disk.diskFreeFrameList
  /-- The page is one of those that are counted. -/
  counts : ∃ c, pfCalculateAllocatedPages e s.kern = .ok (c + 1) s.kern ∧
    pfCalculateAllocatedPages e (s.kern.withoutPage e va) = .ok c (s.kern.withoutPage e va)
  /-- Teardown frees the disk frame and gives the table back. -/
  frees : ∀ t, pfFreeEnv e s.kern = .ok () t → n ∈ t.disk.diskFreeFrameList ∧
    ∀ a, s.kern.table (.heap (s.kern.envs e).diskEnvPgdir) (pdx va) = some a → Released t (a / 4096)

/-- A successful add of the page at `va`. -/
inductive AddsPage (e va : Nat) (s : FileState) : FileState → Prop
  | add {dataSrc : Nat → Nat} {k : Kern} (h : pfAddEnvPage e va dataSrc s.kern = .ok 0 k) :
      AddsPage e va s ⟨k, s.pages, Store.put s.store (e, ppn va) dataSrc⟩
  | addEmpty {k : Kern} (h : pfAddEmptyEnvPage e va 0 s.kern = .ok 0 k) :
      AddsPage e va s ⟨k, s.pages, Store.touch s.store (e, ppn va)⟩
  | addZero {init : Nat} {k : Kern} (hinit : init ≠ 0)
      (h : pfAddEmptyEnvPage e va init s.kern = .ok 0 k) :
      AddsPage e va s ⟨k, s.pages, Store.put s.store (e, ppn va) (s.kern.kernelPage ptrZeroPage)⟩

/-- A step after which the page is still in the file. -/
def LaterStep (x : Nat × Nat) (s t : FileState) : Prop := MemoryStep s t ∧ t.store x ≠ none

/-- `k` is `s` but for the words of page `p` of the heap and the entries of the directory `d` from
`USER_TOP` on. -/
structure Beside (p d : Nat) (s k : Kern) : Prop where
  kernelTable : k.kernelTable = s.kernelTable
  frames : k.frames = s.frames
  ram : ∀ f i, f ≠ s.kframe p → (f = s.frameAt d → i < 955) → k.ram f i = s.ram f i

/-- The disk table for `va` is a page of the heap that the directories do not name below
`USER_TOP`. -/
def HighPage (e va : Nat) (k : Kern) : Prop :=
  ∃ s G dirs p, Directories G dirs s ∧ .heap (k.envs e).diskEnvPgdir ∈ dirs.disk ∧
    Unlinked dirs s p ∧ Beside p (k.envs e).diskEnvPgdir s k ∧
    k.table (.heap (k.envs e).diskEnvPgdir) (pdx va) = some (p * 4096)

section

variable {lay : Layout} {G D : Set Nat} {dirs : Roots} {held : Set Nat} {s t : Kern}
  {a d e f i n p va w : Nat}

/-! ## From `USER_TOP` on -/

theorem Beside.linkTable (hi : 955 ≤ i) (w : Nat) : Beside p d s (s.linkTable (.heap d) i p w) := by
  refine ⟨linkTable_kernelTable, linkTable_frames, fun f j hf hj => ?_⟩
  by_cases hd : f = s.frameAt d
  · unfold Kern.linkTable
    rw [clearWords_ram_of_ne _ hf, hd]
    show update s.ram (s.frameAt d) (update (s.ram (s.frameAt d)) i w) (s.frameAt d) j = _
    rw [Function.update_self, Function.update_of_ne]
    have := hj hd
    omega
  · rw [linkTable_ram_of_ne hf]
    rintro d' he
    rw [← DirPtr.heap.inj he]
    exact hd

theorem Beside.store (h : Beside p d s t) (i w : Nat) :
    Beside p d s (t.store (s.kframe p) i w) := by
  refine ⟨h.kernelTable, h.frames, fun f j hf hj => ?_⟩
  show update t.ram (s.kframe p) _ f j = _
  rw [Function.update_of_ne hf]
  exact h.ram f j hf hj

/-- The directory names the same tables below `USER_TOP`, with the same words. -/
theorem Beside.tables (h : Beside p d s t) (hd : Directories G dirs s) (hdir : .heap d ∈ dirs)
    (hu : Unlinked dirs s p) : (∀ i < 955, t.table (.heap d) i = s.table (.heap d) i) ∧
      ∀ q < 977920, t.leaf (.heap d) q = s.leaf (.heap d) q := by
  have hframe : ∀ a, t.frameAt a = s.frameAt a := fun a => by
    unfold Kern.frameAt
    rw [h.kernelTable]
  -- an entry below `USER_TOP` lies in another page than the one written
  have htable : ∀ i < 955, t.table (.heap d) i = s.table (.heap d) i := by
    intro i hi
    have hpde : t.pde (.heap d) i = s.pde (.heap d) i := by
      show t.ram (t.frameAt d) i = _
      rw [hframe]
      exact h.ram _ _ (hu.dir d hdir) fun _ => hi
    unfold Kern.table kheapVirtualAddress
    rw [hpde, h.frames]
  refine ⟨htable, fun q hq => ?_⟩
  have hi : q / 1024 < 955 := by omega
  cases ha : s.table (.heap d) (q / 1024) with
  | none => rw [leaf_of_none ha, leaf_of_none ((htable _ hi).trans ha)]
  | some a =>
    rw [leaf_of_some ha, leaf_of_some ((htable _ hi).trans ha)]
    obtain ⟨r, -, rfl, hpr, hr⟩ := hd.table_some hdir hi ha
    show t.ram (t.frameAt (r * 4096)) _ = s.ram (s.frameAt (r * 4096)) _
    rw [hframe, kframe_page, ← hr]
    refine h.ram _ _ (hu.table _ hdir _ hi hpr) fun hc => ?_
    exact absurd hc (hd.pde_ne_dir _ hdir _ hi hpr d hdir)

theorem Beside.count (h : Beside p (t.envs e).diskEnvPgdir s t) (hd : Directories G dirs s)
    (hdir : .heap (t.envs e).diskEnvPgdir ∈ dirs) (hu : Unlinked dirs s p) :
    pfCalculateAllocatedPages e t = .ok (s.pageCount (t.envs e).diskEnvPgdir) t := by
  obtain ⟨htable, hleaf⟩ := h.tables hd hdir hu
  have hread : Readable t (t.envs e).diskEnvPgdir := by
    have hs := hd.readable hdir
    refine ⟨?_, fun i hi a ha => ?_⟩
    · have := hs.dir
      unfold Kern.ReachDir Kern.Mapped at this ⊢
      rwa [h.kernelTable]
    · have := hs.table i hi a ((htable i hi).symm.trans ha)
      unfold Kern.Reach Kern.Mapped at this ⊢
      rwa [h.kernelTable]
  rw [pfCalculateAllocatedPages_run hread, pageCount_congr hleaf]

/-- A page from `USER_TOP` on is not counted. -/
theorem HighPage.not_counted (h : HighPage e va t) : ¬ ∃ c,
    pfCalculateAllocatedPages e t = .ok (c + 1) t ∧
    pfCalculateAllocatedPages e (t.withoutPage e va) = .ok c (t.withoutPage e va) := by
  obtain ⟨s, G, dirs, p, hd, hdir, hu, hb, htab⟩ := h
  have hframe : t.frameAt (p * 4096) = s.kframe p := by
    rw [← kframe_page]
    unfold Kern.frameAt
    rw [hb.kernelTable]
  have hwithout : t.withoutPage e va = t.store (s.kframe p) (ptx va) 0 := by
    unfold Kern.withoutPage
    rw [htab]
    show t.store (t.frameAt (p * 4096)) (ptx va) 0 = _
    rw [hframe]
  rintro ⟨c, h₁, h₂⟩
  have hb' : Beside p ((t.store (s.kframe p) (ptx va) 0).envs e).diskEnvPgdir s
      (t.store (s.kframe p) (ptx va) 0) := hb.store _ _
  rw [hwithout, hb'.count hd (.inr hdir) hu] at h₂
  rw [hb.count hd (.inr hdir) hu] at h₁
  have h₁' := (ok_inj.1 h₁).1
  have h₂' := (ok_inj.1 h₂).1
  exact absurd (h₁'.symm.trans h₂') (by omega)

/-- **A page from `USER_TOP` on** gets a disk table that the directory names above the part that is
counted. -/
theorem FileOk.addHigh (h : FileOk lay G D dirs held s) (hva : userTop ≤ va)
    (hk : Fos.pfDiskFrame e va s = .ok (some n) t) : HighPage e va t := by
  rw [Fos.pfDiskFrame, Prog.ite_run] at hk
  split at hk
  case isTrue => cases hk
  case isFalse hlt =>
  have hi : 955 ≤ pdx va ∧ pdx va < 1024 := by
    unfold userTop at hva
    unfold kernelBase at hlt
    unfold pdx
    omega
  obtain ⟨r, s₁, h₁, hk⟩ := bind_eq_ok.1 hk
  obtain ⟨G₁, dirs₁, -, hok₁, -⟩ := h.getDiskPageDirectory h₁
  rw [Prog.get_bind_apply] at hk
  obtain ⟨tbl, s₂, h₂, hk⟩ := bind_eq_ok.1 hk
  obtain ⟨dfn, s₃, h₃, hk⟩ := bind_eq_ok.1 hk
  set d := (s₁.envs e).diskEnvPgdir with hd
  -- without a directory the look into it faults
  have hne : d ≠ 0 := by
    intro h0
    rw [h0] at h₂
    obtain ⟨w, u, hread, -⟩ := bind_eq_ok.1 h₂
    rw [show pdx va = pdx va % 1024 by omega] at hread
    exact readWord_null hok₁.low _ w u hread
  have hdir := hok₁.dir e hne
  have hz : s₁.pde (.heap d) (pdx va) = 0 :=
    hok₁.mem.directories.diskPart d hdir _ hi.1 hi.2
  have hreach := hok₁.mem.directories.reachDir (.inr hdir)
  have hread : readWord (d + 4 * pdx va) s₁ = .ok (s₁.pde (.heap d) (pdx va)) s₁ :=
    readPde_reach hreach hi.2
  have hrun := h₂
  rw [Fos.getDiskPageTable, Prog.bind_of_ok hread, Prog.ite_run, if_pos hz, Prog.ite_run,
    if_pos rfl] at hrun
  obtain ⟨tv, u, hkm, hrun⟩ := bind_eq_ok.1 hrun
  rw [Prog.ite_run] at hrun
  split at hrun
  case isTrue h0 =>
    -- without a page for the table the read of its word faults
    rw [h0] at hkm
    obtain ⟨rfl, rfl⟩ := ok_inj.1 hrun
    have hlow : ¬ present (u.kernelTable 0) := by
      rw [hok₁.mem.kmalloc_zero hkm]
      exact hok₁.low
    exact absurd h₃ (readWord_null hlow (ppn va) dfn s₃)
  case isFalse h0 =>
    obtain ⟨p, rfl, hpG, hpage, hu, -, hq, hok⟩ := hok₁.mem.kmallocPage hkm h0
    have hp : p ∈ insert p G₁ := Set.mem_insert p G₁
    rw [getDiskPageTable_new hreach hz hkm (hok.directories.reachDir (.inr hdir)) hok.heap.tables
      hpage (hok.owned.mapped p hp) (hok.kframe_lt hp)] at h₂
    obtain ⟨rfl, rfl⟩ := ok_inj.1 h₂
    set w := entryOf (u.kframe p) 0 with hw
    set v := u.linkTable (.heap d) (pdx va) p w with hv
    have henv : (v.envs e).diskEnvPgdir = d := by
      rw [hv, linkTable_envs, hq.envs]
    have hframe : v.frameAt (p * 4096) = u.kframe p := by
      rw [kframe_page, hv, linkTable_kframe]
    have hmapped : v.Mapped (p * 4096) := by
      rw [mapped_page, hv, linkTable_kernelTable]
      exact hok.owned.mapped p hp
    have hzero : readWord (p * 4096 + 4 * ptx va) v = .ok 0 v := by
      rw [readWord_page (by omega) (ptx_lt va) hmapped]
      congr 1
      exact linkTable_entry_new (ptx_lt va)
    rw [hzero] at h₃
    obtain ⟨rfl, rfl⟩ := ok_inj.1 h₃
    -- the directory names the table
    have htab : v.table (.heap d) (pdx va) = some (p * 4096) := by
      have hpde : v.pde (.heap d) (pdx va) = w := by
        rw [hv, linkTable_pde hok.directories hu (.inr hdir) (.inr hdir), if_pos ⟨rfl, rfl⟩]
      have haddr : kheapVirtualAddress v (extractAddress w) = p * 4096 := by
        unfold kheapVirtualAddress
        rw [hv, linkTable_frames]
        exact hok.owned.kheapVirtualAddress hp (ppn_entryOf (by decide))
      unfold Kern.table
      rw [hpde, if_pos (present_entryOf (by decide)), haddr]
    have hb : Beside p d u v := Beside.linkTable hi.1 w
    rw [Prog.ite_run, if_pos rfl] at hk
    obtain ⟨o, s₄, h₄, hk⟩ := bind_eq_ok.1 hk
    rw [allocateDiskFrame, Prog.get_bind_apply] at h₄
    cases hfree : v.disk.diskFreeFrameList with
    | nil =>
      rw [hfree] at h₄
      obtain ⟨rfl, rfl⟩ := ok_inj.1 h₄
      obtain ⟨hc, -⟩ := ok_inj.1 hk
      cases hc
    | cons dfn rest =>
      rw [hfree] at h₄
      obtain ⟨rfl, rfl⟩ := ok_inj.1 h₄
      dsimp only at hk
      have hwrite := writeWord_page (s := v.setDisk { v.disk with diskFreeFrameList := rest })
        (t := p * 4096) (i := ptx va) (w := dfn) (by omega) (ptx_lt va) hmapped
      rw [Prog.bind_of_ok hwrite] at hk
      obtain ⟨-, rfl⟩ := ok_inj.1 hk
      rw [show (v.setDisk { v.disk with diskFreeFrameList := rest }).frameAt (p * 4096) =
        u.kframe p from hframe]
      set t := (v.setDisk { v.disk with diskFreeFrameList := rest }).store (u.kframe p) (ptx va) dfn
      have hpde : t.pde (.heap d) (pdx va) = v.pde (.heap d) (pdx va) := by
        show update v.ram (u.kframe p) _ (v.frameAt d) (pdx va) = _
        rw [Function.update_of_ne]
        · rfl
        · rw [hv]
          show ppn ((u.linkTable (.heap d) (pdx va) p w).kernelTable (ppn d)) ≠ _
          rw [linkTable_kernelTable]
          exact hu.dir d (.inr hdir)
      have htab' : t.table (.heap d) (pdx va) = some (p * 4096) := by
        unfold Kern.table at htab ⊢
        rw [hpde]
        exact htab
      have hdt : (t.envs e).diskEnvPgdir = d := henv
      have hbd : Beside p d u (v.setDisk { v.disk with diskFreeFrameList := rest }) :=
        ⟨hb.kernelTable, hb.frames, hb.ram⟩
      refine ⟨u, _, dirs₁, p, hok.directories, ?_, hu, ?_, ?_⟩
      · rw [hdt]
        exact hdir
      · rw [hdt]
        exact hbd.store _ _
      · rw [hdt]
        exact htab'

/-! ## Below `USER_TOP` -/

/-- A page in the file has a disk table, and the look for it finds the table. -/
theorem FileOk.diskEntry (h : FileOk lay G D dirs held s) (hva : va < userTop)
    (hn : s.diskSlot (e, ppn va) ≠ 0) : (s.envs e).diskEnvPgdir ≠ 0 ∧ ∃ a,
      DiskEntry dirs s (.heap (s.envs e).diskEnvPgdir) (ppn va) a ∧
      s.table (.heap (s.envs e).diskEnvPgdir) (pdx va) = some a ∧
      Fos.getDiskPageTable (s.envs e).diskEnvPgdir va false s = .ok a s ∧ a ≠ 0 ∧
      readWord (a + 4 * ptx va) s = .ok (s.diskSlot (e, ppn va)) s := by
  obtain ⟨hpdx, hlt⟩ := pdx_user hva
  have hd : (s.envs e).diskEnvPgdir ≠ 0 := fun h0 => hn (diskSlot_none h0)
  rw [diskSlot_eq hd hlt] at hn ⊢
  refine ⟨hd, ?_⟩
  have hfind := getDiskPageTable_find h.mem.directories (h.dir e hd) hva
  cases ha : s.table (.heap (s.envs e).diskEnvPgdir) (pdx va) with
  | none =>
    rw [hpdx] at ha
    exact absurd (leaf_of_none ha) hn
  | some a =>
    have he : DiskEntry dirs s (.heap (s.envs e).diskEnvPgdir) (ppn va) a :=
      ⟨h.dir e hd, hlt, by rw [← hpdx]; exact ha⟩
    rw [ha] at hfind
    exact ⟨a, he, rfl, hfind, he.ne_zero h.mem.directories, he.read h.mem.directories⟩

theorem diskWord_eq (hva : va < userTop) (hd : (s.envs e).diskEnvPgdir ≠ 0) :
    s.diskWord e va = s.diskSlot (e, ppn va) := (diskSlot_eq hd (pdx_user hva).2).symm

theorem FileOk.updateStored (h : FileOk lay G D dirs held s) (hva : va < userTop)
    (hn : s.diskSlot (e, ppn va) ≠ 0) (hdir : .heap (s.envs e).envPageDirectory ∈ dirs.page)
    (hs : Scratch lay s) (hf : UserFrame dirs.page s f) (hlt : s.references f < 65535) :
    Fos.pfUpdateEnvPage e va f s = .ok 0 (s.copied (s.diskSlot (e, ppn va)) f) := by
  obtain ⟨hd, a, -, -, hfind, ha, hread⟩ := h.diskEntry hva hn
  have hnk : ¬ kernelBase ≤ va := by
    unfold userTop at hva
    unfold kernelBase
    omega
  have hdirectory : Fos.getDiskPageDirectory e s = .ok 0 s := by
    rw [Fos.getDiskPageDirectory, Prog.get_bind_apply, Prog.ite_run, if_neg hd]
    rfl
  have hwrite := h.mem.writeFrame hdir hs (hf.usable h.mem) hlt (s.diskSlot (e, ppn va))
  rw [Fos.pfUpdateEnvPage, Prog.ite_run, if_neg hnk, Prog.bind_of_ok hdirectory,
    Prog.get_bind_apply,
    Prog.bind_of_ok hfind, Prog.ite_run, if_neg ha, Prog.bind_of_ok hread, Prog.ite_run, if_neg hn,
    Prog.get_bind_apply, Prog.bind_of_ok hwrite]
  rfl

theorem FileOk.removeStored (h : FileOk lay G D dirs held s) (hva : va < userTop)
    (hn : s.diskSlot (e, ppn va) ≠ 0) : ∃ t, Fos.pfRemoveEnvPage e va s = .ok () t ∧
      t.diskWord e va = 0 ∧
      t.disk.diskFreeFrameList = s.diskSlot (e, ppn va) :: s.disk.diskFreeFrameList := by
  obtain ⟨hd, a, he, -, hfind, ha, hread⟩ := h.diskEntry hva hn
  obtain ⟨-, hwrite, t, hfree, hok, -, hclear, henvs, -⟩ := h.clearEntry hd he
  have hptx : ptx va = ppn va % 1024 := rfl
  refine ⟨t, ?_, ?_, ?_⟩
  · rw [Fos.pfRemoveEnvPage, Prog.get_bind_apply, Prog.ite_run, if_neg hd, Prog.get_bind_apply,
      Prog.bind_of_ok hfind, Prog.ite_run, if_neg ha, Prog.bind_of_ok hread, hptx,
      Prog.bind_of_ok hwrite]
    exact hfree
  · rw [diskWord_eq hva (by rw [henvs]; exact hd)]
    exact hclear.cleared _ rfl
  · rw [freeDiskFrame_run] at hfree
    obtain ⟨-, rfl⟩ := ok_inj.1 hfree
    show (Disk.give _ _).diskFreeFrameList = _
    unfold Disk.give
    rw [if_neg hn]
    rfl

theorem FileOk.countsStored (h : FileOk lay G D dirs held s) (hva : va < userTop)
    (hn : s.diskSlot (e, ppn va) ≠ 0) : ∃ c,
      pfCalculateAllocatedPages e s = .ok (c + 1) s ∧
      pfCalculateAllocatedPages e (s.withoutPage e va) = .ok c (s.withoutPage e va) := by
  obtain ⟨hd, a, he, htab, -⟩ := h.diskEntry hva hn
  have hdir : .heap (s.envs e).diskEnvPgdir ∈ dirs := .inr (h.dir e hd)
  have hlt := (pdx_user hva).2
  have hwithout : s.withoutPage e va = s.setEntry (.heap a, ppn va % 1024) 0 := by
    unfold Kern.withoutPage
    rw [htab]
    rfl
  have henv : ((s.setEntry (.heap a, ppn va % 1024) 0).envs e).diskEnvPgdir =
      (s.envs e).diskEnvPgdir := rfl
  have hread := (h.mem.setDiskEntry he 0).directories.readable hdir
  rw [diskSlot_eq hd hlt] at hn
  have hcount := pageCount_erase hlt hn fun q hq => by
    rw [h.mem.directories.setTable_leaf hdir hlt he.table 0 hdir hq]
    simp
  refine ⟨(s.setEntry (.heap a, ppn va % 1024) 0).pageCount (s.envs e).diskEnvPgdir, ?_, ?_⟩
  · rw [pfCalculateAllocatedPages_run (h.mem.directories.readable hdir), hcount]
  · rw [hwithout, pfCalculateAllocatedPages_run (by rw [henv]; exact hread), henv]

/-- **A page below `USER_TOP` that is in the file is covered.** -/
theorem StoreInv.covers {u : FileState} (hi : StoreInv lay u) (hpos : u.kern.heap.BlocksPositive)
    (hva : va < userTop) (hn : u.kern.diskSlot (e, ppn va) ≠ 0) :
    CoversPage e va (u.kern.diskSlot (e, ppn va)) u := by
  obtain ⟨G, dirs, hpages, h⟩ := hi.file
  obtain ⟨hd, a, he, htab, -⟩ := h.diskEntry hva hn
  refine ⟨fun hpd f hf => ⟨u.kern.copied (u.kern.diskSlot (e, ppn va)) f, ?_, rfl⟩,
    fun hpd hpr => ?_, h.removeStored hva hn,
    h.countsStored hva hn, fun t hk => ⟨?_, fun a' ha' => ?_⟩⟩
  · have hdir := hi.pages e hpd
    have hcount := hi.count f hf
    rw [← hpages] at hdir hf
    exact h.updateStored hva hn hdir hi.scratch hf hcount
  · have hdir := hi.pages e hpd
    rw [← hpages] at hdir
    rcases h.pfReadEnvPage hdir hva hpr with ⟨h0, -⟩ | ⟨-, t, hrun, -, ht⟩
    · exact absurd h0 hn
    · refine ⟨t, hrun, ?_⟩
      rw [ht.leaf _ hdir _ (pdx_user hva).2, if_pos ⟨rfl, rfl⟩, ppn_clearPerm]
      exact ht.content
  · -- teardown walks the tables below the user limit, where this slot lies
    exact ((hi.file.conserved.freeEnv e t hd hk).2.2 _).2 (.inr ⟨hn, _, rfl⟩)
  · have hlt := (pdx_user hva).2
    have hi' : pdx va < 955 := by
      rw [(pdx_user hva).1]
      omega
    exact hi.file.pfFreeEnv_releases hd (h.mem.heap.startsApart hpos) hi' ha' hk

/-! ## Adding a page -/

/-- An add below `USER_TOP` is a step of the page file, and the page is in the file. -/
theorem AddsPage.step {u v : FileState} (h : AddsPage e va u v) (hva : va < userTop) :
    MemoryStep u v ∧ v.store (e, ppn va) ≠ none := by
  cases h with
  | add h => exact ⟨.store (.add hva h), by simp⟩
  | addEmpty h => exact ⟨.store (.addEmpty hva h), by simp⟩
  | addZero hinit h =>
    rw [Fos.pfAddEmptyEnvPage, Prog.ite_run, if_pos hinit, Prog.get_bind_apply] at h
    exact ⟨.store (.add hva h), by simp⟩

/-- An add from `USER_TOP` on. -/
theorem AddsPage.high {u v : FileState} (h : AddsPage e va u v) (hi : StoreInv lay u)
    (hva : userTop ≤ va) : HighPage e va v.kern := by
  obtain ⟨G, dirs, -, hfile⟩ := hi.file
  -- a page above the limit still gets a disk frame, in a table teardown does not visit
  have hadd : ∀ {dataSrc : Nat → Nat} {k : Kern}, pfAddEnvPage e va dataSrc u.kern = .ok 0 k →
      HighPage e va k := by
    intro dataSrc k h
    obtain ⟨o, k₁, h₁, h⟩ := bind_eq_ok.1 h
    cases o with
    | none => exact absurd (ok_inj.1 h).1 (by decide)
    | some n =>
      obtain ⟨-, rfl⟩ := ok_inj.1 h
      obtain ⟨s, G, dirs, p, hd, hdir, hu, hb, htab⟩ := hfile.addHigh hva h₁
      exact ⟨s, G, dirs, p, hd, hdir, hu, ⟨hb.kernelTable, hb.frames, hb.ram⟩, htab⟩
  cases h with
  | add h => exact hadd h
  | addEmpty h =>
    rw [Fos.pfAddEmptyEnvPage, Prog.ite_run, if_neg (not_not.2 rfl)] at h
    obtain ⟨o, k₁, h₁, h⟩ := bind_eq_ok.1 h
    cases o with
    | none => exact absurd (ok_inj.1 h).1 (by decide)
    | some n =>
      obtain ⟨-, rfl⟩ := ok_inj.1 h
      exact hfile.addHigh hva h₁
  | addZero hinit h =>
    rw [Fos.pfAddEmptyEnvPage, Prog.ite_run, if_pos hinit, Prog.get_bind_apply] at h
    exact hadd h

/-- A page that stays in the file keeps its disk frame. -/
theorem laterRun_slot {u v : FileState} {x : Nat × Nat} (hi : StoreInv lay u)
    (hpos : u.kern.heap.BlocksPositive) (hx : u.store x ≠ none)
    (hrun : ReflTransGen (LaterStep x) u v) :
    StoreInv lay v ∧ v.kern.heap.BlocksPositive ∧ v.store x ≠ none ∧
      v.kern.diskSlot x = u.kern.diskSlot x := by
  induction hrun with
  | refl => exact ⟨hi, hpos, hx, rfl⟩
  | tail _ hstep ih =>
    obtain ⟨hi', hpos', hx', hslot⟩ := ih
    obtain ⟨hstep, hnext⟩ := hstep
    exact ⟨hstep.inv hi', hstep.positive hi' hpos', hnext, (hstep.slot hi' hx' hnext).trans hslot⟩

end

theorem blocksPositive_run {c : BootConfig} {s₀ : Kern} {st : KHeapPlacementStrategy}
    {s : FileState} (hboot : fosInitialize (initializePaging c) = .ok () s₀)
    (hrun : ReflTransGen MemoryStep ⟨setStrategy st s₀, [.boot], fun _ => none⟩ s) :
    s.kern.heap.BlocksPositive := by
  have hstart : (setStrategy st s₀).heap.BlocksPositive := by
    intro b hb
    have hb' : b ∈ s₀.heap.blockInfoTakenList := hb
    rw [(fosInitialize_heapInv hboot).1] at hb'
    simp only [bootHeap, List.mem_cons, List.not_mem_nil, or_false] at hb'
    rcases hb' with rfl | rfl <;> decide
  induction hrun with
  | refl => exact hstart
  | tail hrun hstep ih => exact hstep.positive (memoryRun_inv hboot hrun) ih

/-- **The page file covers an address that it accepts exactly if it is below `USER_TOP`**: after a
successful add every later lookup uses the same disk frame, the page is counted, and teardown gives
its disk frame and its disk table back. -/
theorem pageFile_covers_iff {c : BootConfig} {s₀ : Kern} {st : KHeapPlacementStrategy}
    {s t : FileState} {e va : Nat} (hboot : fosInitialize (initializePaging c) = .ok () s₀)
    (hrun : ReflTransGen MemoryStep ⟨setStrategy st s₀, [.boot], fun _ => none⟩ s)
    (hadd : AddsPage e va s t) :
    (∀ u, ReflTransGen (LaterStep (e, ppn va)) t u → CoversPage e va (t.kern.diskWord e va) u) ↔
      va < userTop := by
  have hi := memoryRun_inv hboot hrun
  constructor
  · intro hcovers
    by_contra hva
    exact (hadd.high hi (Nat.not_lt.1 hva)).not_counted (hcovers t .refl).counts
  · intro hva u hlater
    obtain ⟨hstep, hx⟩ := hadd.step hva
    have hrun' := hrun.tail hstep
    have hit := memoryRun_inv hboot hrun'
    obtain ⟨hiu, hpos, hxu, hslot⟩ := laterRun_slot hit (blocksPositive_run hboot hrun') hx hlater
    have hne : ∀ {v : FileState}, StoreInv c.layout v → v.store (e, ppn va) ≠ none →
        v.kern.diskSlot (e, ppn va) ≠ 0 := fun hv hxv h0 => hxv ((hv.shows.absent _).2 h0)
    have hd : (t.kern.envs e).diskEnvPgdir ≠ 0 := fun h0 => hne hit hx (diskSlot_none h0)
    rw [diskWord_eq hva hd, ← hslot]
    exact hiu.covers hpos hva (hne hiu hxu)

/-- The first page of the user heap, added after boot, is covered. -/
theorem pageFile_covers_first : ∃ t,
    AddsPage 3 userHeapStart ⟨setStrategy .firstFit smallBoot, [.boot], fun _ => none⟩ t ∧
      CoversPage 3 userHeapStart (t.kern.diskWord 3 userHeapStart) t := by
  obtain ⟨k, hadd⟩ := pfAddEmptyEnvPage_one (.inl rfl)
  exact ⟨_, .addEmpty hadd,
    (pageFile_covers_iff smallBoot_ok .refl (.addEmpty hadd)).2 (by decide) _ .refl⟩

/-- The page at `USER_TOP` is accepted and never counted. -/
theorem pageFile_covers_not : ¬ ∀ (s t : FileState) (e va : Nat),
    ReflTransGen MemoryStep ⟨setStrategy .firstFit smallBoot, [.boot], fun _ => none⟩ s →
    AddsPage e va s t → ∀ u, ReflTransGen (LaterStep (e, ppn va)) t u →
      CoversPage e va (t.kern.diskWord e va) u := by
  intro hcovers
  obtain ⟨k, hadd⟩ := pfAddEmptyEnvPage_one (.inr rfl)
  have hadd : AddsPage 3 userTop ⟨setStrategy .firstFit smallBoot, [.boot], fun _ => none⟩ _ :=
    .addEmpty hadd
  exact (hadd.high (storeInv_boot smallBoot_ok .firstFit) le_rfl).not_counted
    (hcovers _ _ _ _ .refl hadd _ .refl).counts

end Fos
