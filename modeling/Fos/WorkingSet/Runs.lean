import Fos.WorkingSet.Invariant

/-!
# Runs of one environment

Page faults of an environment and its `freeMem` calls on the user heap, in any order. Its working
set stays exact as long as every `freeMem` leaves the free entries in a row.
-/

namespace Fos

open Prog (ok_inj)
open Relation (ReflTransGen)

/-- What an environment asks for. -/
inductive DemandCall
  | fault (va : Nat)
  | free (va size : Nat)

/-- One call of the environment `e`. A fault is at a page that is not mapped, and that is in the
page file or on the stack; `freeMem` gets a range of pages of the user heap. -/
inductive DemandStep (e : Nat) : DemandCall → Kern → Kern → Prop
  | fault {va : Nat} {s t : Kern} (hz : s.leaf (s.pageDirectory e) (ppn va) = 0)
      (hpage : s.diskSlot (e, ppn va) ≠ 0 ∨ (ustackBottom ≤ va ∧ va < ustackTop))
      (h : pageFaultHandler e va s = .ok () t) : DemandStep e (.fault va) s t
  | free {va size : Nat} {s t : Kern} (hva : va % pageSize = 0) (hsize : size % pageSize = 0)
      (hlow : userHeapStart ≤ va) (hhigh : va + size ≤ userHeapMax)
      (h : freeMem e va size s = .ok () t) : DemandStep e (.free va size) s t

/-- A call that leaves the free entries in a row. -/
def DemandCall.LeavesRow (env : Env) : DemandCall → Prop
  | .fault _ => True
  | .free va size => env.LeavesRow (ppn va) (ppn size)

/-- One call of `e` that leaves the free entries in a row. -/
def RowStep (e : Nat) (s t : Kern) : Prop :=
  ∃ c, DemandStep e c s t ∧ c.LeavesRow (s.envs e)

/-- The entries in use are exactly the pages mapped on demand, each of them once. -/
structure WorkingSetExact (e : Nat) (fixed : Set Nat) (s : Kern) : Prop where
  exact : ∀ q, (∃ i, (s.envs e).Holds i q) ↔
    q < 977920 ∧ s.leaf (s.pageDirectory e) q ≠ 0 ∧ q ∉ fixed
  distinct : ∀ i j q, (s.envs e).Holds i q → (s.envs e).Holds j q → i = j

/-- A page that is placed goes into an entry that is free before. -/
def PlacesFree (e : Nat) (s : Kern) : Prop :=
  ∀ va t, DemandStep e (.fault va) s t → (s.envs e).pageWsGetSize < (s.envs e).pageWSMaxSize →
    ∃ i, (s.envs e).FreeEntry i ∧ (t.envs e).Holds i (ppn va)

/-- The working set at the start of a run: exact, and its free entries in a row. -/
structure WorkingSetStart (e : Nat) (fixed : Set Nat) (s : Kern) : Prop extends
    WorkingSetOk e fixed s where
  noneMissing : NoneMissing e fixed s
  row : (s.envs e).FreeRow

section

variable {lay : Layout} {pages : List DirPtr} {s t : Kern} {e : Nat} {fixed : Set Nat}
    {c : DemandCall}

/-- The state of the memory and the page file in a run. -/
def MemoryInv (lay : Layout) (pages : List DirPtr) (s : Kern) : Prop :=
  ∃ m, StoreInv lay ⟨s, pages, m⟩

theorem WorkingSetOk.exact (hok : WorkingSetOk e fixed s) (hm : NoneMissing e fixed s) :
    WorkingSetExact e fixed s := by
  refine ⟨fun q => ⟨?_, fun ⟨hq, hne, hnf⟩ => hm q hq hne hnf⟩, hok.distinct⟩
  rintro ⟨i, hi⟩
  obtain ⟨hq, hnf, hpr, -⟩ := hok.mapped i q hi
  exact ⟨hq, present_ne_zero hpr, hnf⟩

/-- One call. -/
theorem WorkingSetStart.step (h : WorkingSetStart e fixed s) (hmem : MemoryInv lay pages s)
    (hstep : RowStep e s t) : MemoryInv lay pages t ∧ WorkingSetStart e fixed t := by
  obtain ⟨m, hi⟩ := hmem
  obtain ⟨c, hc, hrow⟩ := hstep
  cases c with
  | fault va =>
    obtain ⟨hz, -, hk⟩ := hc
    obtain ⟨hik, hok, hplace⟩ := h.toWorkingSetOk.fault hi hz hk
    obtain ⟨⟨hm, hr⟩, -⟩ := hplace h.row h.noneMissing
    exact ⟨hik, hok, hm, hr⟩
  | free va size =>
    cases hc with
    | free hva hsize hlow hhigh hk =>
      have hva' : va = ppn va * 4096 := by unfold ppn; unfold pageSize at hva; omega
      have hsize' : size = ppn size * 4096 := by unfold ppn; unfold pageSize at hsize; omega
      have hpos : 0 < ppn va := by unfold ppn; unfold userHeapStart at hlow; omega
      have hend : ppn va + ppn size ≤ 977920 := by unfold userHeapMax at hhigh; omega
      rw [hva', hsize'] at hk
      obtain ⟨hik, hok, hm, hr⟩ := h.toWorkingSetOk.free hi hpos hend hk
      exact ⟨hik, hok, hm h.noneMissing, hr hrow⟩

/-- A run. -/
theorem WorkingSetStart.run (h : WorkingSetStart e fixed s) (hmem : MemoryInv lay pages s)
    (hsteps : ReflTransGen (RowStep e) s t) : MemoryInv lay pages t ∧
    WorkingSetStart e fixed t := by
  induction hsteps with
  | refl => exact ⟨hmem, h⟩
  | tail _ hstep ih => exact ih.2.step ih.1 hstep

theorem WorkingSetStart.placesFree (h : WorkingSetStart e fixed s) (hmem : MemoryInv lay pages s) :
    PlacesFree e s := by
  obtain ⟨m, hi⟩ := hmem
  intro va t hstep hroom
  obtain ⟨hz, -, hk⟩ := hstep
  obtain ⟨-, -, hplace⟩ := h.toWorkingSetOk.fault hi hz hk
  exact (hplace h.row h.noneMissing).2 hroom

end

/-- **The working set is exact** in every state of a run whose `freeMem` calls leave the free
entries in a row, and pages are placed in free entries. -/
theorem workingSet_exact {b : BootConfig} {s₀ : Kern} {st : KHeapPlacementStrategy} {s : FileState}
    {e : Nat} {fixed : Set Nat} {t : Kern} (hboot : fosInitialize (initializePaging b) = .ok () s₀)
    (hrun : ReflTransGen MemoryStep ⟨setStrategy st s₀, [.boot], fun _ => none⟩ s)
    (hstart : WorkingSetStart e fixed s.kern) (hsteps : ReflTransGen (RowStep e) s.kern t) :
    WorkingSetExact e fixed t ∧ PlacesFree e t := by
  obtain ⟨hmem, ht⟩ := hstart.run ⟨_, memoryRun_inv hboot hrun⟩ hsteps
  exact ⟨ht.toWorkingSetOk.exact ht.noneMissing, ht.placesFree hmem⟩

/-! ## A working set of two pages -/

/-- Beside a page of the stack, the first page of the heap gets a frame -/
def heapFrame : Kern := Prog.final (allocateFrame (residentKern 0xEEBFC000))

/-- and is mapped. -/
def heapMapped : Kern :=
  Prog.final (mapFrameIn (.heap (1007620 * 4096)) (.heap (1007624 * 4096)) 1014 userHeapStart
    (permUser ||| permWriteable)
    (heapFrame.withTable (1007620 * 4096) userHeapStart 1007624 (permUser ||| permWriteable)))

/-- The working set is full of the two pages. -/
def twoPages : Kern := heapMapped.setEnv 3
  ((heapMapped.envs 3).setWorkingSet [⟨0xEEBFC000, false⟩, ⟨userHeapStart, false⟩] 2 0)

theorem twoPages_values :
    (twoPages.envs 3).pageWSMaxSize = 2 ∧
    (twoPages.envs 3).ptrPageWorkingSet = [⟨0xEEBFC000, false⟩, ⟨userHeapStart, false⟩] ∧
    (twoPages.envs 3).pageLastWSIndex = 0 ∧
    twoPages.pageDirectory 3 = .heap (1007620 * 4096) ∧
    (twoPages.envs 3).envPageDirectory ≠ 0 ∧
    (∀ q ∈ [ppn 0xEEBFC000, ppn userHeapStart], present (twoPages.leaf (.heap (1007620 * 4096)) q) ∧
      twoPages.references (ppn (twoPages.leaf (.heap (1007620 * 4096)) q)) = 1) ∧
    (∀ i < 955, i ≠ 512 → i ≠ 954 → twoPages.table (.heap (1007620 * 4096)) i = none) ∧
    (∀ j < 1024, j ≠ 0 → twoPages.leaf (.heap (1007620 * 4096)) (512 * 1024 + j) = 0) ∧
    (∀ j < 1024, j ≠ 1020 → twoPages.leaf (.heap (1007620 * 4096)) (954 * 1024 + j) = 0) ∧
    Prog.value (allocateFrame (residentKern 0xEEBFC000)) = some 1014 ∧
    (residentKern 0xEEBFC000).leaf (.heap (1007620 * 4096)) (ppn userHeapStart) = 0 ∧
    RoomForTable heapFrame (1007620 * 4096) userHeapStart 1007624 ∧
    Prog.value (mapFrameIn (.heap (1007620 * 4096)) (.heap (1007624 * 4096)) 1014 userHeapStart
      (permUser ||| permWriteable) (heapFrame.withTable (1007620 * 4096) userHeapStart 1007624
        (permUser ||| permWriteable))) = some () := by decide +kernel

theorem twoPages_run : ∃ m,
    ReflTransGen MemoryStep ⟨setStrategy .firstFit smallBoot, [.boot], fun _ => none⟩
      ⟨twoPages, [.heap (1007620 * 4096), .boot], m⟩ := by
  obtain ⟨m, hrun⟩ := resident_run (.inl rfl)
  obtain ⟨-, -, -, -, -, -, -, -, -, halloc, hz, hroom, hin⟩ := twoPages_values
  have hmap : mapFrame (.heap (1007620 * 4096)) 1014 userHeapStart (permUser ||| permWriteable) heapFrame =
      .ok () heapMapped := hroom.mapFrame.trans (Prog.ok_of_value hin)
  have hstep : StoreStep ⟨residentKern 0xEEBFC000, [.heap (1007620 * 4096), .boot], m⟩
      ⟨heapMapped, [.heap (1007620 * 4096), .boot], m⟩ :=
    .mapPage List.mem_cons_self (by decide) hz (by decide) (Prog.ok_of_value halloc) hmap
  exact ⟨m, .tail (.tail hrun (.store hstep)) (.workingSet 3 _ 2 0)⟩

/-- Its two pages are the ones that are mapped. -/
theorem twoPages_mapped {q : Nat} (hq : q < 977920)
    (hne : twoPages.leaf (.heap (1007620 * 4096)) q ≠ 0) :
    q = ppn 0xEEBFC000 ∨ q = ppn userHeapStart := by
  obtain ⟨-, -, -, -, -, -, htables, hheap, hstack, -⟩ := twoPages_values
  have hsplit : q = q / 1024 * 1024 + q % 1024 := by omega
  by_cases h512 : q / 1024 = 512
  · by_cases h0 : q % 1024 = 0
    · right
      unfold ppn userHeapStart
      omega
    · have := hheap (q % 1024) (by omega) h0
      rw [← h512, ← hsplit] at this
      exact absurd this hne
  · by_cases h954 : q / 1024 = 954
    · by_cases h1020 : q % 1024 = 1020
      · left
        unfold ppn
        omega
      · have := hstack (q % 1024) (by omega) h1020
        rw [← h954, ← hsplit] at this
        exact absurd this hne
    · exact absurd (leaf_of_none (htables (q / 1024) (by omega) h512 h954)) hne

theorem twoPages_holds {i q : Nat} : (twoPages.envs 3).Holds i q ↔
    (i = 0 ∧ q = ppn 0xEEBFC000) ∨ (i = 1 ∧ q = ppn userHeapStart) := by
  obtain ⟨hmax, hws, -⟩ := twoPages_values
  unfold Env.Holds
  rw [hmax, hws]
  constructor
  · rintro ⟨hi, w, hw, -, rfl⟩
    rcases Nat.lt_succ_iff_lt_or_eq.1 hi with h | rfl
    · obtain rfl : i = 0 := by omega
      obtain rfl := Option.some.inj hw
      exact .inl ⟨rfl, rfl⟩
    · obtain rfl := Option.some.inj hw
      exact .inr ⟨rfl, rfl⟩
  · rintro (⟨rfl, rfl⟩ | ⟨rfl, rfl⟩)
    · exact ⟨by decide, _, rfl, rfl, rfl⟩
    · exact ⟨by decide, _, rfl, rfl, rfl⟩

theorem twoPages_start : WorkingSetStart 3 ∅ twoPages := by
  obtain ⟨hmax, hws, hindex, hd, hdir, hpages, -⟩ := twoPages_values
  refine ⟨⟨hdir, by rw [hindex, hmax]; decide, by rw [hmax, hws]; rfl, ?_, fun _ hq => hq.elim, ?_, ?_⟩,
    ?_, Env.FreeRow.full ?_⟩
  · intro i _ w hw hempty
    rw [hws] at hw
    have hmem := List.mem_of_getElem? hw
    simp only [List.mem_cons, List.not_mem_nil, or_false] at hmem
    rcases hmem with rfl | rfl <;> cases hempty
  · intro i q hiq
    have hq : q < 977920 ∧ q ∈ [ppn 0xEEBFC000, ppn userHeapStart] := by
      rcases twoPages_holds.1 hiq with ⟨-, rfl⟩ | ⟨-, rfl⟩ <;> decide
    rw [hd]
    exact ⟨hq.1, fun h => h.elim, hpages q hq.2⟩
  · intro i j q hiq hjq
    have hne : ppn 0xEEBFC000 ≠ ppn userHeapStart := by decide
    rcases twoPages_holds.1 hiq with ⟨rfl, rfl⟩ | ⟨rfl, rfl⟩
    · exact ((twoPages_holds.1 hjq).resolve_right fun h => hne h.2).1.symm
    · exact ((twoPages_holds.1 hjq).resolve_left fun h => hne h.2.symm).1.symm
  · intro q hq hne _
    rw [hd] at hne
    rcases twoPages_mapped hq hne with rfl | rfl
    · exact ⟨0, twoPages_holds.2 (.inl ⟨rfl, rfl⟩)⟩
    · exact ⟨1, twoPages_holds.2 (.inr ⟨rfl, rfl⟩)⟩
  · rintro ⟨i, hi⟩
    have hlt : i < 2 := hmax ▸ hi.1
    rcases Nat.lt_succ_iff_lt_or_eq.1 hlt with h | rfl
    · obtain rfl : i = 0 := by omega
      exact Env.Holds.not_free (twoPages_holds.2 (.inl ⟨rfl, rfl⟩)) hi
    · exact Env.Holds.not_free (twoPages_holds.2 (.inr ⟨rfl, rfl⟩)) hi

/-- A third page takes the place of the first, -/
def thirdPage : Kern := Prog.final (pageFaultHandler 3 0xEEBFB000 twoPages)

/-- the page of the heap is freed, -/
def heapFreed : Kern := Prog.final (freeMem 3 userHeapStart pageSize thirdPage)

/-- and the first page comes back. -/
def firstBack : Kern := Prog.final (pageFaultHandler 3 0xEEBFC000 heapFreed)

theorem firstBack_values :
    twoPages.leaf (twoPages.pageDirectory 3) (ppn 0xEEBFB000) = 0 ∧
    twoPages.diskSlot (3, ppn 0xEEBFB000) ≠ 0 ∧
    Prog.value (pageFaultHandler 3 0xEEBFB000 twoPages) = some () ∧
    Prog.value (freeMem 3 userHeapStart pageSize thirdPage) = some () ∧
    (thirdPage.envs 3).LeavesRow (ppn userHeapStart) (ppn pageSize) ∧
    heapFreed.leaf (heapFreed.pageDirectory 3) (ppn 0xEEBFC000) = 0 ∧
    heapFreed.diskSlot (3, ppn 0xEEBFC000) ≠ 0 ∧
    Prog.value (pageFaultHandler 3 0xEEBFC000 heapFreed) = some () := by decide +kernel

/-- The page of the heap is freed when its entry is the next one, and the page placed after it goes
there. -/
theorem workingSet_exact_fault : DemandStep 3 (.fault 0xEEBFB000) twoPages thirdPage ∧
    DemandStep 3 (.free userHeapStart pageSize) thirdPage heapFreed ∧
    DemandStep 3 (.fault 0xEEBFC000) heapFreed firstBack ∧
    WorkingSetExact 3 ∅ firstBack ∧ PlacesFree 3 firstBack := by
  obtain ⟨m, hrun⟩ := twoPages_run
  obtain ⟨hz, hslot, hfault, hfree, hrow, hz₁, hslot₁, hfault₁⟩ := firstBack_values
  have h₁ : DemandStep 3 (.fault 0xEEBFB000) twoPages thirdPage :=
    .fault hz (.inl hslot) (Prog.ok_of_value hfault)
  have h₂ : DemandStep 3 (.free userHeapStart pageSize) thirdPage heapFreed :=
    .free (by decide) (by decide) (by decide) (by decide) (Prog.ok_of_value hfree)
  have h₃ : DemandStep 3 (.fault 0xEEBFC000) heapFreed firstBack :=
    .fault hz₁ (.inl hslot₁) (Prog.ok_of_value hfault₁)
  have hsteps : ReflTransGen (RowStep 3) twoPages firstBack :=
    .tail (.tail (.single ⟨_, h₁, trivial⟩) ⟨_, h₂, hrow⟩) ⟨_, h₃, trivial⟩
  have hexact := workingSet_exact smallBoot_ok hrun twoPages_start hsteps
  exact ⟨h₁, h₂, h₃, hexact⟩

/-- The page of the heap is freed at once, -/
def heapFreedFirst : Kern := Prog.final (freeMem 3 userHeapStart pageSize twoPages)

/-- and a third page is placed. -/
def thirdPlaced : Kern := Prog.final (pageFaultHandler 3 0xEEBFB000 heapFreedFirst)

theorem thirdPlaced_values :
    Prog.value (freeMem 3 userHeapStart pageSize twoPages) = some () ∧
    heapFreedFirst.leaf (heapFreedFirst.pageDirectory 3) (ppn 0xEEBFB000) = 0 ∧
    heapFreedFirst.diskSlot (3, ppn 0xEEBFB000) ≠ 0 ∧
    Prog.value (pageFaultHandler 3 0xEEBFB000 heapFreedFirst) = some () ∧
    (heapFreedFirst.envs 3).pageWsGetSize < (heapFreedFirst.envs 3).pageWSMaxSize ∧
    (heapFreedFirst.envs 3).pageWSMaxSize = 2 ∧
    (heapFreedFirst.envs 3).ptrPageWorkingSet[0]? = some ⟨0xEEBFC000, false⟩ ∧
    (thirdPlaced.envs 3).ptrPageWorkingSet[1]? = some ⟨0, true⟩ := by decide +kernel

/-- The page of the heap is freed. Its entry is not the next one, so the page placed after it goes
into the entry of the other page. -/
theorem workingSet_overwritten : ¬ ∀ (s : FileState) (e : Nat) (fixed : Set Nat) (t : Kern),
    ReflTransGen MemoryStep ⟨setStrategy .firstFit smallBoot, [.boot], fun _ => none⟩ s →
    WorkingSetStart e fixed s.kern → ReflTransGen (fun s t => ∃ c, DemandStep e c s t) s.kern t →
    WorkingSetExact e fixed t ∧ PlacesFree e t := by
  intro hall
  obtain ⟨m, hrun⟩ := twoPages_run
  obtain ⟨hfreed, hz, hslot, hfault, hroom, hmax, hfirst, hsecond⟩ := thirdPlaced_values
  have hfree : DemandStep 3 (.free userHeapStart pageSize) twoPages heapFreedFirst :=
    .free (by decide) (by decide) (by decide) (by decide) (Prog.ok_of_value hfreed)
  have hplaces := (hall _ 3 ∅ _ hrun twoPages_start (.single ⟨_, hfree⟩)).2
  have hplaced : DemandStep 3 (.fault 0xEEBFB000) heapFreedFirst thirdPlaced :=
    .fault hz (.inl hslot) (Prog.ok_of_value hfault)
  obtain ⟨i, ⟨hlt, w, hw, hempty⟩, -, w', hw', hused, -⟩ := hplaces _ _ hplaced hroom
  rcases Nat.lt_succ_iff_lt_or_eq.1 (hmax ▸ hlt) with h | rfl
  · obtain rfl : i = 0 := by omega
    obtain rfl := Option.some.inj (hfirst.symm.trans hw)
    cases hempty
  · obtain rfl := Option.some.inj (hsecond.symm.trans hw')
    cases hused

end Fos
