import Fos.WorkingSet.DemandPaging

/-!
# Demand paging is transparent

A run of reads and writes starts where every page mapped on demand equals its copy in the page file.
Whatever page faults come in between, a read answers the byte written there last, or the byte of the
page file.
-/

namespace Fos

open FlatMemory (Access lastWritten)
open Relation (ReflTransGen)

/-- The pages of the program that are mapped on demand. -/
def demandPages (fixed : Set Nat) : Set Nat := {q | q < 977920 ∧ q ∉ fixed}

/-- The bytes that the page file holds. -/
def fileMemory (e : Nat) (s : Kern) : UserMemory := fun va =>
  if s.diskSlot (e, ppn va) = 0 then none
  else some (pageByte (s.disk.words (s.diskSlot (e, ppn va))) va)

/-- The store with all words that the page file holds. -/
def fileStore (s : Kern) : PageStore := fun x =>
  if s.diskSlot x = 0 then none else some (some (s.disk.words (s.diskSlot x)))

/-- Page `q` has a frame of its own, with the words of its copy in the page file. -/
structure EqualsCopy (e q : Nat) (s : Kern) : Prop where
  once : s.references (ppn (s.leaf (s.pageDirectory e) q)) = 1
  stored : s.diskSlot (e, q) ≠ 0
  words : ∀ i < 1024,
    s.ram (ppn (s.leaf (s.pageDirectory e) q)) i = s.disk.words (s.diskSlot (e, q)) i

/-- The start of a run: every page mapped on demand equals its copy in the page file. -/
structure PagingStart (e : Nat) (fixed : Set Nat) (s : Kern) : Prop extends
    WorkingSetOk e fixed s where
  copies : ∀ q ∈ demandPages fixed, present (s.leaf (s.pageDirectory e) q) → EqualsCopy e q s

section

variable {lay : Layout} {s : FileState} {k : Kern} {e q va : Nat} {fixed : Set Nat}

theorem StoreInv.fileStore (hi : StoreInv lay s) :
    StoreInv lay ⟨s.kern, s.pages, Fos.fileStore s.kern⟩ := by
  refine ⟨hi.file, hi.pages, hi.scratch, hi.count, fun x => ?_, fun x w hx => ?_⟩
  · unfold Fos.fileStore
    by_cases h0 : s.kern.diskSlot x = 0 <;> simp [h0]
  · unfold Fos.fileStore at hx
    dsimp only at hx
    split at hx
    case isTrue => cases hx
    case isFalse => exact Option.some.inj (Option.some.inj hx)

theorem fileMemory_eq_some {v : Nat} (h : fileMemory e k va = some v) :
    k.diskSlot (e, ppn va) ≠ 0 ∧ pageByte (k.disk.words (k.diskSlot (e, ppn va))) va = v := by
  unfold fileMemory at h
  split at h
  case isTrue => cases h
  case isFalse h0 => exact ⟨h0, Option.some.inj h⟩

/-- At the start the pages show the page file. -/
theorem PagingStart.paging (h : PagingStart e fixed s.kern) (hi : StoreInv lay s) :
    PagingInv lay e fixed (demandPages fixed) (fileMemory e s.kern)
      ⟨s.kern, s.pages, fileStore s.kern⟩ := by
  refine ⟨hi.fileStore, h.toWorkingSetOk, fun q hq => hq.1, fun q hq => ?_⟩
  constructor
  · intro hpr
    exact (h.copies q hq hpr).once
  · intro hpr
    show fileStore s.kern (e, q) ≠ none
    unfold fileStore
    rw [if_neg (h.copies q hq hpr).stored]
    exact Option.some_ne_none _
  · intro hpr va v hva hv
    obtain ⟨-, hbyte⟩ := fileMemory_eq_some hv
    subst hva
    -- a byte of the page lies in one of its words
    have hword : va % 4096 / 4 < 1024 := by omega
    unfold pageByte at hbyte ⊢
    rw [← hbyte]
    exact congrArg (byteOf · (va % 4)) ((h.copies _ hq hpr).words _ hword)
  · intro _ va v hva hv
    obtain ⟨h0, hbyte⟩ := fileMemory_eq_some hv
    subst hva
    refine ⟨_, ?_, hbyte⟩
    show fileStore s.kern (e, ppn va) = _
    exact if_neg h0

end

/-- **Demand paging is transparent.** A read answers the value written there last in the run, or
else the value that the page file held at the start. -/
theorem demandPaging_transparent {b : BootConfig} {s₀ : Kern} {st : KHeapPlacementStrategy}
    {s : FileState} {e va v : Nat} {fixed : Set Nat} {l₁ l₂ : List (Access Nat Nat)} {k : Kern}
    (hboot : fosInitialize (initializePaging b) = .ok () s₀)
    (hrun : ReflTransGen MemoryStep ⟨setStrategy st s₀, [.boot], fun _ => none⟩ s)
    (hstart : PagingStart e fixed s.kern)
    (haccess : AccessRun e (demandPages fixed) s.kern (l₁ ++ .read va v :: l₂) k) :
    (∀ w, lastWritten va l₁ = some w → v = w) ∧
      (lastWritten va l₁ = none → s.kern.diskSlot (e, ppn va) ≠ 0 →
        v = pageByte (s.kern.disk.words (s.kern.diskSlot (e, ppn va))) va) := by
  have hpaging := hstart.paging (memoryRun_inv hboot hrun)
  have hread := (haccess.paging hpaging).1.read
  refine ⟨hread.1, fun hnone h0 => hread.2 hnone _ ?_⟩
  unfold fileMemory
  exact if_neg h0

/-! ## A working set of one page -/

/-- An environment that maps no page and has one free entry. -/
theorem PagingStart.of_empty {s : Kern} {e : Nat} (hdir : (s.envs e).envPageDirectory ≠ 0)
    (hmax : (s.envs e).pageWSMaxSize = 1) (hindex : (s.envs e).pageLastWSIndex = 0)
    (hws : (s.envs e).ptrPageWorkingSet = [⟨0, true⟩])
    (hz : ∀ q < 977920, s.leaf (s.pageDirectory e) q = 0) : PagingStart e ∅ s := by
  have hnone : ∀ i q, ¬ (s.envs e).Holds i q := by
    rintro i q ⟨hi, w, hw, hused, -⟩
    rw [hmax] at hi
    obtain rfl : i = 0 := by omega
    rw [hws] at hw
    obtain rfl := Option.some.inj hw
    cases hused
  refine ⟨⟨hdir, by rw [hmax, hindex]; decide, by rw [hmax, hws]; rfl, ?_, fun _ hq => hq.elim,
    fun i q hiq => absurd hiq (hnone i q), fun i j q hiq => absurd hiq (hnone i q)⟩, ?_⟩
  · rw [hmax, hws]
    decide
  · intro q hq hpr
    rw [hz q hq.1] at hpr
    exact absurd hpr not_present_zero

/-- The first fault on a page makes its table. -/
theorem RoomForTable.faultHandler {s : Kern} {e d va p : Nat} (h : RoomForTable s d va p)
    (hva : va < ustackTop) (hd : (s.envs e).envPageDirectory = d) :
    Fos.faultHandler e va s = .ok () (s.withTable d va p (permUser ||| permWriteable)) := by
  have hnp : ¬ present (s.pde (.heap d) (pdx va)) := by
    rw [h.2.1]
    exact not_present_zero
  have hreach : s.ReachDir (.heap d) := ⟨h.1.1, h.1.2.1⟩
  rw [Fos.faultHandler, Prog.ite_run, if_neg (Nat.not_le.2 hva), Prog.get_bind_apply, hd,
    Prog.bind_of_ok (readPde_reach hreach (pdx_lt _)), Prog.ite_run, if_pos hnp,
    tableFaultHandler, Prog.get_bind_apply, hd, Prog.bind_of_ok h.create]
  rfl

/-- Two pages of the stack are in the page file, and none is mapped. -/
def onePage : Kern := fileKern.setEnv 3 ((fileKern.envs 3).setWorkingSet [⟨0, true⟩] 1 0)

/-- The same with a page table for them. -/
def onePageTable : Kern :=
  onePage.withTable (1007620 * 4096) 0xEEBFB000 1007623 (permUser ||| permWriteable)

/-- The first page is loaded. -/
def onePageLoaded : Kern := Prog.final (faultHandler 3 0xEEBFB000 onePageTable)

/-- It is written. -/
def onePageWritten : Kern := Prog.final (writeUserByte 3 0xEEBFB000 5 onePageLoaded)

/-- The other page takes its place, -/
def onePageEvicted : Kern := Prog.final (faultHandler 3 0xEEBFC000 onePageWritten)

/-- and goes out again. -/
def onePageBack : Kern := Prog.final (faultHandler 3 0xEEBFB000 onePageEvicted)

theorem onePage_values :
    (onePage.envs 3).envPageDirectory = 1007620 * 4096 ∧ (onePage.envs 3).pageWSMaxSize = 1 ∧
    (onePage.envs 3).pageLastWSIndex = 0 ∧ (onePage.envs 3).ptrPageWorkingSet = [⟨0, true⟩] ∧
    (∀ i < 955, onePage.table (onePage.pageDirectory 3) i = none) ∧
    RoomForTable onePage (1007620 * 4096) 0xEEBFB000 1007623 ∧
    onePage.disk.diskFreeFrameList ≠ [] := by decide +kernel

theorem onePageBack_values :
    onePageTable.leaf (onePageTable.pageDirectory 3) (ppn 0xEEBFB000) = 0 ∧
    onePageTable.disk.diskFreeFrameList ≠ [] ∧
    Prog.value (faultHandler 3 0xEEBFB000 onePageTable) = some () ∧
    Prog.value (writeUserByte 3 0xEEBFB000 5 onePageLoaded) = some () ∧
    onePageWritten.leaf (onePageWritten.pageDirectory 3) (ppn 0xEEBFC000) = 0 ∧
    onePageWritten.disk.diskFreeFrameList ≠ [] ∧
    Prog.value (faultHandler 3 0xEEBFC000 onePageWritten) = some () ∧
    onePageEvicted.leaf (onePageEvicted.pageDirectory 3) (ppn 0xEEBFB000) = 0 ∧
    onePageEvicted.disk.diskFreeFrameList ≠ [] ∧
    Prog.value (faultHandler 3 0xEEBFB000 onePageEvicted) = some () ∧
    Prog.value (readUserByte 3 0xEEBFB000 onePageBack) = some 5 := by decide +kernel

theorem onePage_run : ∃ m,
    ReflTransGen MemoryStep ⟨setStrategy .firstFit smallBoot, [.boot], fun _ => none⟩
      ⟨onePage, [.heap (1007620 * 4096), .boot], m⟩ := by
  obtain ⟨m, hrun⟩ := fileKern_run
  exact ⟨m, .tail hrun (.workingSet 3 _ 1 0)⟩

theorem onePage_leaf (q : Nat) (hq : q < 977920) :
    onePage.leaf (onePage.pageDirectory 3) q = 0 := by
  obtain ⟨-, -, -, -, htables, -⟩ := onePage_values
  exact leaf_of_none (htables (q / 1024) (by omega))

theorem onePage_start : PagingStart 3 ∅ onePage := by
  obtain ⟨hdir, hmax, hindex, hws, -⟩ := onePage_values
  exact .of_empty (by rw [hdir]; decide) hmax hindex hws onePage_leaf

/-- A byte is written and its page evicted; the byte is read from the page that is loaded again. -/
theorem demandPaging_transparent_evicted : ∃ k,
    AccessRun 3 (demandPages ∅) onePage ([.write 0xEEBFB000 5] ++ .read 0xEEBFB000 5 :: []) k ∧
      ∀ w, lastWritten 0xEEBFB000 [Access.write 0xEEBFB000 5] = some w → 5 = w := by
  obtain ⟨m, hrun⟩ := onePage_run
  obtain ⟨hdir, -, -, -, -, hroom, hfree⟩ := onePage_values
  obtain ⟨hz₁, hfree₁, h₁, h₂, hz₃, hfree₃, h₃, hz₄, hfree₄, h₄, h₅⟩ := onePageBack_values
  have hpage : ppn 0xEEBFB000 ∈ demandPages ∅ := ⟨by decide, fun h => h⟩
  have hother : ppn 0xEEBFC000 ∈ demandPages ∅ := ⟨by decide, fun h => h⟩
  have hrun₀ : AccessRun 3 (demandPages ∅) onePage [] onePageTable :=
    .fault .start hpage (onePage_leaf _ (by decide)) hfree (hroom.faultHandler (by decide) hdir)
  have hrun₁ := hrun₀.fault hpage hz₁ hfree₁ (Prog.ok_of_value h₁)
  have hrun₂ : AccessRun 3 (demandPages ∅) onePage ([] ++ [.write 0xEEBFB000 5]) onePageWritten :=
    hrun₁.write hpage (by decide) (Prog.ok_of_value h₂)
  have hrun₃ := hrun₂.fault hother hz₃ hfree₃ (Prog.ok_of_value h₃)
  have hrun₄ := hrun₃.fault hpage hz₄ hfree₄ (Prog.ok_of_value h₄)
  have hrun₅ := hrun₄.read (v := 5) hpage (Prog.ok_of_value h₅)
  exact ⟨_, hrun₅, (demandPaging_transparent smallBoot_ok hrun onePage_start hrun₅).1⟩

end Fos
