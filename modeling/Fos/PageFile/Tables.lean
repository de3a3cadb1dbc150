import Fos.Lib.SlotPool
import Fos.PageTables.Still
import Fos.PageFile

/-!
# Disk page tables

A disk directory has the shape of a page directory, and its tables come from the same kernel heap;
their entries are disk frames. This module says what finding a table, making one and writing one
entry do to the kernel heap, to the page tables and to the disk tables of the other environments.
-/

namespace Fos

open Function (update)
open Prog (bind_eq_ok ok_inj)

/-- The entry of page `p` in the disk tables of `dir` is word `p % 1024` of the table at `a`. -/
structure DiskEntry (dirs : Roots) (s : Kern) (dir : DirPtr) (p a : Nat) : Prop where
  mem : dir ∈ dirs.disk
  page : p < 977920
  table : s.table dir (p / 1024) = some a

section

variable {lay : Layout} {G G' D : Set Nat} {dirs : Roots} {held : Set Nat} {s s' t : Kern}
  {dir dir' : DirPtr} {a d p q va w : Nat}

theorem DiskEntry.owned (h : Directories G dirs s) (he : DiskEntry dirs s dir p a) :
    ∃ r ∈ G, a = r * 4096 ∧ present (s.pde dir (p / 1024)) ∧
      ppn (s.pde dir (p / 1024)) = s.kframe r := by
  have hp := he.page
  exact h.table_some (.inr he.mem) (by omega) he.table

theorem DiskEntry.ne_zero (h : Directories G dirs s) (he : DiskEntry dirs s dir p a) : a ≠ 0 := by
  obtain ⟨r, hr, rfl, -⟩ := he.owned h
  exact (h.owned.heapPage r hr).ne_zero

/-! ## One entry -/

theorem DiskEntry.read (h : Directories G dirs s) (he : DiskEntry dirs s dir p a) :
    readWord (a + 4 * (p % 1024)) s = .ok (s.leaf dir p) s := by
  obtain ⟨r, hr, rfl, -⟩ := he.owned h
  rw [readWord_page (by omega) (Nat.mod_lt _ (by decide))
    ((mapped_page s r).2 (h.owned.mapped r hr)), leaf_of_some he.table]
  rfl

theorem DiskEntry.write (h : Directories G dirs s) (he : DiskEntry dirs s dir p a) (w : Nat) :
    writeWord (a + 4 * (p % 1024)) w s = .ok () (s.setEntry (.heap a, p % 1024) w) := by
  obtain ⟨r, hr, rfl, -⟩ := he.owned h
  exact writeWord_page (by omega) (Nat.mod_lt _ (by decide))
    ((mapped_page s r).2 (h.owned.mapped r hr))

/-- The entries of the page tables are in other tables. -/
theorem DiskEntry.live_entry (h : Directories G dirs s) (he : DiskEntry dirs s dir p a) (w : Nat)
    {x : Slot} (hx : x ∈ liveSlots lay dirs s) :
    (s.setEntry (.heap a, p % 1024) w).entry x = s.entry x := by
  have hp := he.page
  obtain ⟨b, j⟩ := x
  cases b with
  | boot d => rfl
  | directory => rfl
  | heap b =>
    obtain ⟨-, dir', hdir', i, hi, hb⟩ := hx
    obtain ⟨r, hr, rfl, hpr, hf⟩ := he.owned h
    obtain ⟨r', hr', rfl, hpr', hf'⟩ := h.table_some (.inl hdir') hi hb
    show (s.store (s.frameAt (r * 4096)) (p % 1024) w).ram (s.frameAt (r' * 4096)) j = _
    rw [kframe_page, kframe_page, store_ram, if_neg]
    · show _ = s.ram (s.frameAt (r' * 4096)) j
      rw [kframe_page]
    · rintro ⟨hc, -⟩
      -- one table would be named by a page directory and by a disk directory
      obtain ⟨rfl, -⟩ := h.pde_inj dir' (.inl hdir') i hi dir (.inr he.mem) (p / 1024) (by omega)
        hpr' hpr (by rw [hf, hf', hc])
      exact dirs.apart dir' hdir' he.mem

theorem DiskEntry.liveSlots (h : Directories G dirs s) (he : DiskEntry dirs s dir p a) (w : Nat) :
    liveSlots lay dirs (s.setEntry (.heap a, p % 1024) w) = Fos.liveSlots lay dirs s := by
  have hp := he.page
  exact liveSlots_congr fun dir' hdir' i hi =>
    h.setTable_table (.inr he.mem) (by omega) he.table _ w (.inl hdir') hi

/-- Writing a disk entry keeps the books of the memory. -/
theorem MemOk.setDiskEntry (h : MemOk lay G D dirs held s)
    (he : DiskEntry dirs s dir p a) (w : Nat) :
    MemOk lay G D dirs held (s.setEntry (.heap a, p % 1024) w) := by
  have hp := he.page
  have hd := h.directories
  have hlive : liveSlots lay dirs (s.setEntry (.heap a, p % 1024) w) = liveSlots lay dirs s :=
    he.liveSlots hd w
  have hmap : (s.setEntry (.heap a, p % 1024) w).mapping
      (liveSlots lay dirs (s.setEntry (.heap a, p % 1024) w)) =
      s.mapping (liveSlots lay dirs s) := by
    rw [hlive]
    exact mapping_congr fun y hy => he.live_entry hd w hy
  refine ⟨⟨hd.setTable (.inr he.mem) (by omega) he.table _ w, ?_, ?_, ?_, h.accounted.inRange,
    h.accounted.outside⟩, h.heap.congr rfl (fun _ _ => rfl) fun _ _ => rfl, h.blocks, ?_⟩
  · rw [hmap]
    exact h.counted
  · rw [hmap]
    exact h.accounted.unshared
  · intro x hx
    rw [hlive] at hx
    rw [he.live_entry hd w hx]
    exact h.accounted.entry_zero x hx
  · intro q hq
    exact h.data_congr (fun _ _ => rfl)
      (fun dir' hdir' i _ => hd.setTable_pde (.inr he.mem) (by omega) he.table _ w hdir' i) hq

/-- Writing a disk entry touches nothing that is in use. -/
theorem MemOk.setDiskEntry_still (h : MemOk lay G D dirs held s) (he : DiskEntry dirs s dir p a)
    (w : Nat) : Still dirs.page D held s (s.setEntry (.heap a, p % 1024) w) := by
  have hp := he.page
  have hram : ∀ f, (∀ q ∈ G, q ∉ D → f ≠ s.kframe q) →
      (s.setEntry (.heap a, p % 1024) w).ram f = s.ram f := by
    intro f hf
    obtain ⟨r, hr, rfl, hpr, hfr⟩ := he.owned h.directories
    show update s.ram (s.frameAt (r * 4096)) _ f = s.ram f
    rw [kframe_page]
    refine Function.update_of_ne (hf r hr fun hrD => ?_) _ _
    -- a table holds no data
    exact (h.data r hrD).2.table dir (.inr he.mem) _ (by omega) hpr hfr
  refine ⟨⟨fun _ _ => rfl, fun _ _ => rfl, fun _ _ => rfl, rfl, rfl, fun f hf => ?_⟩,
    fun dir' hdir' q hq => ?_, fun f hf => ?_, fun _ _ => rfl⟩
  · exact hram f fun q hq _ => (h.static hf).2 q hq
  · rw [h.directories.setTable_leaf (.inr he.mem) he.page he.table w (.inl hdir') hq, if_neg]
    rintro ⟨rfl, -⟩
    exact dirs.apart dir' hdir' he.mem
  · exact hram f (h.inUse hf).2

/-! ## Finding the table -/

/-- `get_disk_page_table` where no table is made. -/
theorem getDiskPageTable_find (h : Directories G dirs s) (hd : .heap d ∈ dirs.disk)
    (hva : va < userTop) :
    getDiskPageTable d va false s = .ok ((s.table (.heap d) (pdx va)).getD 0) s := by
  have hi : pdx va < 955 := by
    obtain ⟨h1, h2⟩ := pdx_user hva
    omega
  have hnk : ¬ checkIfKernelAddress va := by
    unfold checkIfKernelAddress
    omega
  have hread : readWord (d + 4 * pdx va) s = .ok (s.pde (.heap d) (pdx va)) s :=
    readPde_reach (h.reachDir (.inr hd)) (pdx_lt va)
  rw [getDiskPageTable, Prog.bind_of_ok hread, Prog.ite_run]
  by_cases hz : s.pde (.heap d) (pdx va) = 0
  · rw [if_pos hz]
    unfold Kern.table
    rw [hz, if_neg not_present_zero]
    rfl
  · have hpr : present (s.pde (.heap d) (pdx va)) := by
      by_contra hnp
      exact hz (h.pde_zero _ (.inr hd) _ hi hnp)
    unfold Kern.table
    rw [if_neg hz, if_pos hpr, Prog.ite_run, if_neg hnk]
    rfl

/-- `get_disk_page_table` where a page is left for a missing table. -/
theorem getDiskPageTable_new (hs : s.ReachDir (.heap d)) (hz : s.pde (.heap d) (pdx va) = 0)
    (hkm : kmalloc pageSize s = .ok (p * 4096) t) (hd : t.ReachDir (.heap d)) (ht : HeapTables t)
    (hp : HeapPage p) (hpr : present (t.kernelTable p)) (hlt : t.kframe p < 1048576) :
    getDiskPageTable d va true s =
      .ok (p * 4096) (t.linkTable (.heap d) (pdx va) p (entryOf (t.kframe p) 0)) := by
  have hread : readWord (d + 4 * pdx va) s = .ok (s.pde (.heap d) (pdx va)) s :=
    readPde_reach hs (pdx_lt va)
  have hw : constructEntry (t.kframe p * 4096) permPresent = entryOf (t.kframe p) 0 := by
    unfold entryOf
    rw [Nat.zero_or]
  have hwrite : writeWord (d + 4 * pdx va) (entryOf (t.kframe p) 0) t =
      .ok () (t.setPde (.heap d) (pdx va) (entryOf (t.kframe p) 0)) :=
    writePde_reach hd (pdx_lt va)
  have hmapped : present
      ((t.setPde (.heap d) (pdx va) (entryOf (t.kframe p) 0)).kernelTable p) := hpr
  have hzero := zeroWords_page (k := 0) (n := 1024) hmapped (by omega)
  rw [Nat.mul_zero, Nat.add_zero, setPde_kframe] at hzero
  rw [Fos.getDiskPageTable, Prog.bind_of_ok hread, Prog.ite_run, if_pos hz, Prog.ite_run,
    if_pos rfl, Prog.bind_of_ok hkm, Prog.ite_run, if_neg hp.ne_zero,
    Prog.bind_of_ok (kheapPhysicalAddress_page ht hp hlt), hw, Prog.bind_of_ok hwrite,
    Prog.bind_of_ok hzero]
  rfl

theorem RoomForTable.getDiskPageTable (h : RoomForTable s d va p) :
    Fos.getDiskPageTable d va true s = .ok (p * 4096) (s.withTable d va p 0) := by
  obtain ⟨⟨hd, hmapped, hmapped'⟩, hz, hkm, hp, htables, hpr, hlt⟩ := h
  exact getDiskPageTable_new ⟨hd, hmapped⟩ hz (Prog.ok_of_value hkm) ⟨hd, hmapped'⟩
    (.of_forall htables) hp hpr hlt

/-- `get_disk_page_table` where a missing table is made: the null pointer, or the table, with
nothing that was in use changed. -/
theorem MemOk.getDiskPageTable (h : MemOk lay G D dirs held s) (hd : .heap d ∈ dirs.disk)
    (hva : va < userTop) (hk : Fos.getDiskPageTable d va true s = .ok a t) :
    (a = 0 ∧ t = s) ∨ ∃ G', MemOk lay G' D dirs held t ∧ Quiet dirs D G G' s t ∧
      DiskEntry dirs t (.heap d) (ppn va) a := by
  obtain ⟨hpdx, hlt⟩ := pdx_user hva
  have hi : pdx va < 955 := by omega
  have hfind := getDiskPageTable_find h.directories hd hva
  have hrun := hk
  have hread : readWord (d + 4 * pdx va) s = .ok (s.pde (.heap d) (pdx va)) s :=
    readPde_reach (h.directories.reachDir (.inr hd)) (pdx_lt va)
  rw [Fos.getDiskPageTable, Prog.bind_of_ok hread, Prog.ite_run] at hrun hfind
  by_cases hz : s.pde (.heap d) (pdx va) = 0
  · rw [if_pos hz, Prog.ite_run, if_pos rfl] at hrun
    obtain ⟨tbl, s₁, hkm, hrun⟩ := bind_eq_ok.1 hrun
    rw [Prog.ite_run] at hrun
    split at hrun
    case isTrue h0 =>
      obtain ⟨rfl, rfl⟩ := ok_inj.1 hrun
      rcases h.kmalloc hkm with ⟨-, rfl⟩ | ⟨b, hwf, hstart, -⟩
      · exact .inl ⟨rfl, rfl⟩
      · -- no block of the heap starts at zero
        have := hwf.start_le
        unfold kernelHeapStart at this
        omega
    case isFalse h0 =>
      obtain ⟨p, rfl, hpG, hpage, hu, hpde, hq, hok⟩ := h.kmallocPage hkm h0
      have hpG' : p ∈ insert p G := Set.mem_insert p G
      rw [getDiskPageTable_new (h.directories.reachDir (.inr hd)) hz hkm
        (hok.directories.reachDir (.inr hd)) hok.heap.tables hpage (hok.owned.mapped p hpG')
        (hok.kframe_lt hpG')] at hk
      obtain ⟨rfl, rfl⟩ := ok_inj.1 hk
      have hperm : (0 : Nat) < 4096 := by decide
      have hw : present (entryOf (s₁.kframe p) 0) := present_entryOf hperm
      have hwp : ppn (entryOf (s₁.kframe p) 0) = s₁.kframe p := ppn_entryOf hperm
      have hnp₁ : ¬ present (s₁.pde (.heap d) (pdx va)) := by
        rw [hpde _ (.inr hd), hz]
        exact not_present_zero
      -- the page is not one of the data pages, since those were taken before it
      have hpD : p ∉ D := fun hp => hpG (h.data p hp).1
      obtain ⟨hok', hq'⟩ := hok.linkTable hu hpG' hpD (.inr hd) hi hw hwp hnp₁
      refine .inr ⟨_, hok', hq.trans hq' h.owned hok.owned, hd, hlt, ?_⟩
      have := linkTable_table hok.directories hu hpG' (.inr hd) hi hw hwp (.inr hd) hi
      rw [if_pos ⟨rfl, rfl⟩] at this
      rw [← hpdx]
      exact this
  · rw [if_neg hz] at hrun hfind
    rw [hrun] at hfind
    obtain ⟨rfl, rfl⟩ := ok_inj.1 hfind
    have hpr : present (t.pde (.heap d) (pdx va)) := by
      by_contra hnp
      exact hz (h.directories.pde_zero _ (.inr hd) _ hi hnp)
    refine .inr ⟨G, h, .refl dirs D G t, hd, hlt, ?_⟩
    rw [← hpdx]
    unfold Kern.table
    rw [if_pos hpr]
    rfl

end

end Fos
