import Fos.KernelHeap.Tabled
import Fos.PageTables.NewDirectory
import Fos.PageTables.Pages

/-!
# Blocks of the kernel heap

The calls that work on page tables take whole pages of the kernel heap, for directories and tables.
Blocks that hold a byte at least start at different addresses.
-/

namespace Fos

open Prog (bind_eq_ok ok_inj Keeps)

section

variable {lay : Layout} {G D : Set Nat} {dirs : Roots} {held : Set Nat} {s t u : Kern}
  {b c : BlockInfo} {dir : DirPtr} {tbl : TablePtr} {d f perm va : Nat}

/-- Blocks that are not empty start apart. -/
theorem HeapOk.start_inj (h : HeapOk s) (hpos : ∀ b ∈ s.heap.blockInfoTakenList, 0 < b.size)
    (hb : b ∈ s.heap.blockInfoTakenList) (hc : c ∈ s.heap.blockInfoTakenList)
    (he : b.startVa = c.startVa) : b = c := by
  by_contra hne
  have : Std.Symm fun x y : BlockInfo => Disjoint x.addrs y.addrs := ⟨fun _ _ h => h.symm⟩
  have h1 := hpos b hb
  have h2 := hpos c hc
  rcases Cover.disjoint_range_iff.1 (h.apart.forall hb hc hne) with h | h | h | h <;> omega

theorem HeapOk.startsApart (h : HeapOk s) (hpos : ∀ b ∈ s.heap.blockInfoTakenList, 0 < b.size) :
    s.heap.StartsApart := fun _ hb _ hc he => h.start_inj hpos hb hc he

/-- A page of the heap was taken, or the heap is as it was. -/
def TakesPage (s t : Kern) : Prop :=
  t.heap = s.heap ∨ ∃ va u, va ≠ 0 ∧ Fos.kmalloc pageSize s = .ok va u ∧ t.heap = u.heap

/-- At most one block was taken, of one page. -/
def OneMoreBlock (h h' : Heap) : Prop :=
  h'.strategy = h.strategy ∧ (h'.blockInfoTakenList = h.blockInfoTakenList ∨
    ∃ b : BlockInfo, b.size = 4096 ∧ h'.blockInfoTakenList.Perm (b :: h.blockInfoTakenList))

theorem TakesPage.taken (ht : TakesPage s t) (h : MemOk lay G D dirs held s) :
    OneMoreBlock s.heap t.heap := by
  rcases ht with he | ⟨va, u, hva, hk, he⟩
  · rw [he]
    exact ⟨rfl, .inl rfl⟩
  · obtain ⟨b, -, -, hsize, hperm, -, -, -, -, -, hq, -⟩ :=
      (h.kmalloc hk).resolve_left fun h0 => hva h0.1
    rw [he]
    exact ⟨hq.strategy, .inr ⟨b, hsize.trans roundup_pageSize, hperm⟩⟩

theorem writePde_heap {i w : Nat} (hk : writePde dir i w s = .ok () t) : t.heap = s.heap := by
  cases dir with
  | boot =>
    obtain ⟨-, rfl⟩ := ok_inj.1 hk
    rfl
  | heap d => exact (bookkeeping_eq (writeWord_keeps _ _ _ _ _ hk)).1

theorem createPageTable_takes (hk : createPageTable dir va s = .ok tbl t) : TakesPage s t := by
  obtain ⟨add, u, hkm, hk⟩ := bind_eq_ok.1 hk
  rw [Prog.ite_run] at hk
  split at hk
  case isTrue => cases hk
  case isFalse hne =>
    obtain ⟨pa, u₁, hpa, hk⟩ := bind_eq_ok.1 hk
    obtain ⟨hh₁, -⟩ := bookkeeping_eq (kheapPhysicalAddress_keeps add _ _ _ hpa)
    obtain ⟨_, u₂, hpde, hk⟩ := bind_eq_ok.1 hk
    obtain ⟨_, u₃, hzero, hk⟩ := bind_eq_ok.1 hk
    obtain ⟨hh₃, -⟩ := bookkeeping_eq (zeroWords_keeps 1024 add _ _ _ hzero)
    obtain ⟨-, rfl⟩ := ok_inj.1 hk
    exact .inr ⟨add, u, hne, hkm, (hh₃.trans (writePde_heap hpde)).trans hh₁⟩

theorem TakesPage.congr (ht : TakesPage s t) (he : u.heap = t.heap) : TakesPage s u := by
  rcases ht with h | ⟨va, v, hva, hk, h⟩
  · exact .inl (he.trans h)
  · exact .inr ⟨va, v, hva, hk, he.trans h⟩

theorem pageTableWith_takes (hk : pageTableWith createPageTable dir va s = .ok tbl t) :
    TakesPage s t := by
  obtain ⟨r, u, hget, hk⟩ := bind_eq_ok.1 hk
  have hu : id u = id s := getPageTable_keeps dir va _ _ _ hget
  obtain rfl : u = s := hu
  cases r with
  | some tbl' =>
    obtain ⟨-, rfl⟩ := ok_inj.1 hk
    exact .inl rfl
  | none => exact createPageTable_takes hk

theorem mapFrame_takes (hk : mapFrame dir f va perm s = .ok () t) : TakesPage s t := by
  obtain ⟨tbl, u, htbl, hk⟩ := bind_eq_ok.1 hk
  exact (pageTableWith_takes htbl).congr (bookkeeping_eq (mapFrameIn_keeps _ _ _ _ _ _ _ _ hk)).1

theorem writePde_keeps (i w : Nat) : Keeps Kern.heap (writePde dir i w) :=
  fun _ _ _ hk => writePde_heap hk

theorem copyDirectory_keeps (n i : Nat) : Keeps Kern.heap (copyDirectory dir i n) := by
  induction n generalizing i with
  | zero => exact .pure _
  | succ n ih =>
    refine .bind (readPde_keeps .boot i) fun w => .bind (writePde_keeps i w) fun _ => ih (i + 1)

theorem initializeDirectory_heap (hk : initializeDirectory d s = .ok () t) : t.heap = s.heap := by
  obtain ⟨_, u, hz, hc⟩ := bind_eq_ok.1 hk
  exact (copyDirectory_keeps _ _ _ _ _ hc).trans (bookkeeping_eq (zeroWords_keeps _ _ _ _ _ hz)).1

theorem Remap.heap {x : Slot} (hr : Remap s x f va perm t) : t.heap = s.heap := by
  cases hr with
  | same => rfl
  | new => simp [Kern.mapSlot, Kern.setFrames]
  | other => simp [Kern.mapSlot, Kern.unmapSlot, Kern.setFrames]

/-- `kfree` takes nothing. -/
theorem kfree_taken (hk : kfree va s = .ok () t) :
    ∀ b ∈ t.heap.blockInfoTakenList, b ∈ s.heap.blockInfoTakenList := by
  rcases kfree_ok hk with ⟨-, rfl⟩ | ⟨bi, s₁, h', -, hlist, -, -, hc, rfl⟩
  · exact fun _ hb => hb
  · obtain ⟨X, Y, m, hcoal⟩ := coalescing_cases hc
    intro b hb
    have htaken : h'.blockInfoTakenList = bi.removed := hcoal.taken
    have hb' : b ∈ bi.removed := by
      rw [← htaken]
      exact hb
    rw [hlist]
    simp only [Place.removed, Place.list, List.mem_append, List.mem_cons] at hb' ⊢
    tauto

end

end Fos
