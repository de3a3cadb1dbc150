import Fos.KernelHeap.EmptyList
import Fos.PageFile.MemoryRuns
import Fos.UserHeap.Accounting
import Fos.UserMemory

/-!
# Backing of user allocations

`allocateMem` does not look at what `pf_add_empty_env_page` answers, and `malloc` returns the block
whatever happened. So the block is backed by the page file exactly when the page file has room for
what the block lacks.
-/

namespace Fos

open Prog (bind_eq_ok bind_of_ok ok_inj)
open Relation (ReflTransGen)

/-- The pages among the `n` from `p` up that the page file of `e` does not hold. -/
def missingPages (s : Kern) (e : Nat) : Nat → Nat → Nat
  | _, 0 => 0
  | p, n + 1 => (if s.diskSlot (e, p) = 0 then 1 else 0) + missingPages s e (p + 1) n

/-- The page file has a frame for every page of the block that `malloc` would return. -/
def PageFileHolds (h : UHeap) (s : Kern) (e size : Nat) : Prop :=
  ∀ found, firstFit h.freeList (roundup size pageSize) = some found →
    missingPages s e (ppn found.elem.startVa) (roundup size pageSize / pageSize) ≤
      s.disk.diskFreeFrameList.length

/-- What `malloc` has to do: a block it returns has a disk frame for every page, and when the page
file has no room for one it returns the null pointer and changes neither the file nor the lists. -/
structure MallocBacked (e size : Nat) (x : UHeap × Kern) : Prop where
  backed : ∀ va y, mallocSys e size x = .ok va y → va ≠ 0 →
    ∀ p, ppn va ≤ p → p < ppn va + roundup size pageSize / pageSize → y.2.diskSlot (e, p) ≠ 0
  refused : ¬ PageFileHolds x.1 x.2 e size → ∃ y, mallocSys e size x = .ok 0 y ∧
    y.2.diskSlot = x.2.diskSlot ∧ y.2.disk = x.2.disk ∧ y.1.freeList = x.1.freeList ∧
      y.1.blockInfoTakenListUser = x.1.blockInfoTakenListUser

section

variable {lay : Layout} {D held : Set Nat} {pages : List DirPtr} {s t : Kern} {e n p q va : Nat}

/-! ## The loop -/

theorem missingPages_succ (s : Kern) (e p n : Nat) : missingPages s e p (n + 1) =
    (if s.diskSlot (e, p) = 0 then 1 else 0) + missingPages s e (p + 1) n := rfl

theorem missingPages_le (s : Kern) (e p n : Nat) : missingPages s e p n ≤ n := by
  induction n generalizing p with
  | zero => exact Nat.le_refl 0
  | succ n ih =>
    have := ih (p + 1)
    rw [missingPages_succ]
    split <;> omega

theorem missingPages_congr (h : ∀ q, p ≤ q → t.diskSlot (e, q) = s.diskSlot (e, q)) :
    missingPages t e p n = missingPages s e p n := by
  induction n generalizing p with
  | zero => rfl
  | succ n ih =>
    rw [missingPages_succ, missingPages_succ, h p (Nat.le_refl p),
      ih fun q hq => h q (Nat.le_of_succ_le hq)]

/-- An empty page file lacks all pages. -/
theorem missingPages_all (h : ∀ q, s.diskSlot (e, q) = 0) : missingPages s e p n = n := by
  induction n generalizing p with
  | zero => rfl
  | succ n ih =>
    rw [missingPages_succ, if_pos (h p), ih]
    omega

/-- One turn: with a free disk frame, or a page that has one, the page has one afterwards. -/
theorem FileInv.pfAddEmptyEnvPage_room {r : Int} (h : FileInv lay D pages held s)
    (hva : va < userTop) (hroom : s.diskSlot (e, ppn va) = 0 → s.disk.diskFreeFrameList ≠ [])
    (hk : Fos.pfAddEmptyEnvPage e va 0 s = .ok r t) :
    FileInv lay D pages held t ∧ t.diskSlot (e, ppn va) ≠ 0 ∧
      (∀ x, x ≠ (e, ppn va) → t.diskSlot x = s.diskSlot x) ∧
      s.disk.diskFreeFrameList.length ≤
        t.disk.diskFreeFrameList.length + if s.diskSlot (e, ppn va) = 0 then 1 else 0 := by
  rw [Fos.pfAddEmptyEnvPage, Prog.ite_run, if_neg (by simp)] at hk
  obtain ⟨o, s₁, h₁, hk⟩ := bind_eq_ok.1 hk
  -- with `init = 0` nothing is written to the disk frame
  have hs₁ : s₁ = t := by
    cases o with
    | none => exact (ok_inj.1 hk).2
    | some n => exact (ok_inj.1 hk).2
  subst hs₁
  obtain ⟨hinv, -, ha⟩ := h.pfDiskFrame hva h₁
  refine ⟨hinv, ?_⟩
  cases ha with
  | full h0 hfree => exact absurd hfree (hroom h0)
  | old h0 hd hs =>
    rw [hs, hd, if_neg h0]
    exact ⟨h0, fun _ _ => rfl, Nat.le_refl _⟩
  | new h0 hfree hd hs =>
    have hn := h.frame_ne_zero (.new h0 hfree hd hs) rfl
    rw [hs, hd, if_pos h0, hfree, Function.update_self]
    exact ⟨hn, fun x hx => Function.update_of_ne hx .., Nat.le_refl _⟩

/-- A page that has a disk frame keeps one, with room or without. -/
theorem FileInv.pfAddEmptyEnvPage_keeps {r : Int} (h : FileInv lay D pages held s)
    (hva : va < userTop) (hk : Fos.pfAddEmptyEnvPage e va 0 s = .ok r t) (x : Nat × Nat)
    (hx : s.diskSlot x ≠ 0) : t.diskSlot x ≠ 0 := by
  obtain ⟨-, -, ha⟩ := h.pfAddEmptyEnvPage hva hk
  cases ha with
  | full _ _ hs =>
    rw [hs]
    exact hx
  | done hn _ hs _ =>
    rw [hs]
    by_cases he : x = (e, ppn va)
    · rw [he, Function.update_self]
      exact hn
    · rw [Function.update_of_ne he]
      exact hx

/-- With room for the pages that lack a frame, every page of the range has one in the end, and so
has every page that had one. -/
theorem FileInv.allocatePages (h : FileInv lay D pages held s) (hend : va + n * 4096 ≤ userTop)
    (hroom : missingPages s e (ppn va) n ≤ s.disk.diskFreeFrameList.length)
    (hk : Fos.allocatePages e va n s = .ok () t) :
    (∀ p, ppn va ≤ p → p < ppn va + n → t.diskSlot (e, p) ≠ 0) ∧
      ∀ x, s.diskSlot x ≠ 0 → t.diskSlot x ≠ 0 := by
  induction n generalizing s va with
  | zero =>
    obtain ⟨-, rfl⟩ := ok_inj.1 hk
    exact ⟨fun p h1 h2 => by omega, fun _ hx => hx⟩
  | succ n ih =>
    obtain ⟨r, s₁, h₁, hk⟩ := bind_eq_ok.1 hk
    have hva : va < userTop := by omega
    have hnext : u32 (va + pageSize) = va + 4096 :=
      u32_of_lt (by unfold userTop pageSize at *; omega)
    have hppn : ppn (va + 4096) = ppn va + 1 := by unfold ppn; omega
    rw [hnext] at hk
    rw [missingPages_succ] at hroom
    have hne : s.diskSlot (e, ppn va) = 0 → s.disk.diskFreeFrameList ≠ [] := by
      intro h0 hnil
      rw [if_pos h0, hnil, List.length_nil] at hroom
      omega
    obtain ⟨hinv, hslot, hother, hlen⟩ := h.pfAddEmptyEnvPage_room hva hne h₁
    -- the first page is stored now, which stores none of the others
    have hrest : missingPages s₁ e (ppn va + 1) n = missingPages s e (ppn va + 1) n := by
      apply missingPages_congr
      intro q hq
      apply hother
      intro he
      rw [Prod.mk.injEq] at he
      omega
    rw [← hppn] at hrest hroom
    obtain ⟨hall, hkeep⟩ := ih hinv (by omega) (by omega) hk
    constructor
    · intro p h1 h2
      by_cases hp : p = ppn va
      · rw [hp]
        exact hkeep _ hslot
      · rw [hppn] at hall
        exact hall p (by omega) (by omega)
    · intro x hx
      exact hkeep x (h.pfAddEmptyEnvPage_keeps hva h₁ x hx)

/-! ## One call -/

theorem inLibrary_ok {α : Type} {x : U α} {a : α} {y z : UHeap × Kern}
    (h : inLibrary x y = .ok a z) : x y.1 = .ok a z.1 ∧ z.2 = y.2 := by
  unfold inLibrary at h
  cases hx : x y.1 with
  | ok b g =>
    rw [hx] at h
    obtain ⟨rfl, rfl⟩ := ok_inj.1 h
    exact ⟨rfl, rfl⟩
  | error stop g =>
    rw [hx] at h
    cases h

theorem inKernel_ok {α : Type} {x : K α} {a : α} {y z : UHeap × Kern}
    (h : inKernel x y = .ok a z) : x y.2 = .ok a z.2 ∧ z.1 = y.1 := by
  unfold inKernel at h
  cases hx : x y.2 with
  | ok b g =>
    rw [hx] at h
    obtain ⟨rfl, rfl⟩ := ok_inj.1 h
    exact ⟨rfl, rfl⟩
  | error stop g =>
    rw [hx] at h
    cases h

/-- `malloc` returns the null pointer when no free block is large enough, and otherwise the first
such block, for whose pages it has called the kernel. -/
theorem mallocSys_ok {h : UHeap} {size : Nat} {y : UHeap × Kern} (hp : h.Partition)
    (hk : mallocSys e size (h, s) = .ok va y) :
    (va = 0 ∧ firstFit h.freeList (roundup size pageSize) = none) ∨
      ∃ found, firstFit h.freeList (roundup size pageSize) = some found ∧
        va = found.elem.startVa ∧ va ≠ 0 ∧
        allocateMem e va (roundup size pageSize) s = .ok () y.2 := by
  obtain ⟨space, z, h₁, hk⟩ := bind_eq_ok.1 hk
  obtain ⟨hlib, hz⟩ := inLibrary_ok h₁
  obtain ⟨-, hres⟩ := firstFitUser_ok hp.fresh hlib
  rw [Prog.ite_run] at hk
  split at hk
  case isTrue h0 =>
    obtain ⟨rfl, rfl⟩ := ok_inj.1 hk
    cases hres with
    | none hnone => exact .inl ⟨rfl, hnone⟩
    | some found id hsome => exact absurd h0 (hp.start_ne_zero hsome)
  case isFalse h0 =>
    obtain ⟨_, z', h₂, hk⟩ := bind_eq_ok.1 hk
    obtain ⟨rfl, rfl⟩ := ok_inj.1 hk
    obtain ⟨hker, -⟩ := inKernel_ok h₂
    rw [hz] at hker
    cases hres with
    | none hnone => exact absurd rfl h0
    | some found id hsome => exact .inr ⟨found, hsome, rfl, h0, hker⟩

/-- The block that the search finds begins on a page boundary, and what is asked for ends below
`USER_TOP`. -/
theorem UHeap.Partition.found_range {h : UHeap} {size : Nat} {found : Place BlockInfo}
    (hp : h.Partition) (hf : firstFit h.freeList (roundup size pageSize) = some found) :
    found.elem.startVa + roundup size pageSize / pageSize * 4096 ≤ userTop := by
  obtain ⟨hlist, hfit, -⟩ := firstWhere_some hf
  have hw := hp.part.found_within hlist
  have hle : roundup size pageSize ≤ found.elem.size := by
    rw [roundup_roundup] at hfit
    simpa using hfit
  have hend := hw.end_le
  have hmod := Nat.div_mul_le_self (roundup size pageSize) 4096
  unfold userTop userHeapMax at *
  unfold pageSize at *
  omega

theorem malloc_backed {h : UHeap} {size : Nat} (hp : h.Partition)
    (hi : FileInv lay D pages held s) : MallocBacked e size (h, s) ↔ PageFileHolds h s e size := by
  constructor
  · intro hb
    by_contra hnot
    obtain ⟨y, hk, -⟩ := hb.refused hnot
    rcases mallocSys_ok hp hk with ⟨-, hnone⟩ | ⟨_, _, _, h0, _⟩
    · apply hnot
      intro found hsome
      rw [hnone] at hsome
      cases hsome
    · exact h0 rfl
  · intro hholds
    refine ⟨?_, fun hnot => absurd hholds hnot⟩
    intro va y hk h0
    rcases mallocSys_ok hp hk with ⟨h0', -⟩ | ⟨found, hsome, hva, -, halloc⟩
    · exact absurd h0' h0
    · have hroom := hholds found hsome
      have hend := hp.found_range hsome
      rw [← hva] at hroom hend
      exact (hi.allocatePages hend hroom halloc).1

end

/-- **`malloc` is backed by the page file** exactly when the file has a free disk frame for every
page of the block that lacks one. -/
theorem malloc_backed_iff {c : BootConfig} {s₀ : Kern} {st : KHeapPlacementStrategy} {s : FileState}
    {events : List Event} {h : UHeap} {live : List Allocation} (e size : Nat)
    (hboot : fosInitialize (initializePaging c) = .ok () s₀)
    (hrun : ReflTransGen MemoryStep ⟨setStrategy st s₀, [.boot], fun _ => none⟩ s)
    (huser : UserRun events (h, live)) :
    MallocBacked e size (h, s.kern) ↔ PageFileHolds h s.kern e size :=
  malloc_backed huser.accounts.1 (memoryRun_inv hboot hrun).file

theorem boot_diskFree {c : BootConfig} {s₀ : Kern} (st : KHeapPlacementStrategy)
    (hboot : fosInitialize (initializePaging c) = .ok () s₀) :
    (setStrategy st s₀).disk.diskFreeFrameList.length = 133119 := by
  show s₀.disk.diskFreeFrameList.length = _
  rw [(fosInitialize_boot hboot).2.disk]
  exact length_insertHeads 1 133119 []

theorem boot_diskSlot {c : BootConfig} {s₀ : Kern} (st : KHeapPlacementStrategy)
    (hboot : fosInitialize (initializePaging c) = .ok () s₀) (x : Nat × Nat) :
    (setStrategy st s₀).diskSlot x = 0 := by
  apply diskSlot_none
  show (s₀.envs x.1).diskEnvPgdir = 0
  rw [(fosInitialize_boot hboot).2.envs]
  rfl

/-- The first page of a process. -/
theorem malloc_backed_iff_page :
    MallocBacked 3 4096 (UHeap.initial, setStrategy .firstFit wideBoot) := by
  rw [malloc_backed_iff (s := ⟨setStrategy .firstFit wideBoot, [.boot], fun _ => none⟩) 3 4096
    wideBoot_ok .refl .start]
  intro found hfound
  have hpages : roundup 4096 pageSize / pageSize = 1 := by decide +kernel
  have hfree := boot_diskFree .firstFit wideBoot_ok
  have hle := missingPages_le (setStrategy .firstFit wideBoot) 3 (ppn found.elem.startVa) 1
  rw [hpages]
  show missingPages (setStrategy .firstFit wideBoot) 3 (ppn found.elem.startVa) 1 ≤
    (setStrategy .firstFit wideBoot).disk.diskFreeFrameList.length
  omega

/-- `malloc` of the whole user heap takes 262144 pages, and the page file has 133119. -/
theorem malloc_unbacked : ¬ ∀ (e size : Nat) (s : FileState) (events : List Event) (h : UHeap)
    (live : List Allocation),
    ReflTransGen MemoryStep ⟨setStrategy .firstFit wideBoot, [.boot], fun _ => none⟩ s →
    UserRun events (h, live) → MallocBacked e size (h, s.kern) := by
  intro hall
  have hb := hall 3 0x40000000 _ [] UHeap.initial [] .refl .start
  rw [malloc_backed UHeap.partition_initial (memoryRun_inv wideBoot_ok .refl).file] at hb
  have hround : roundup 0x40000000 pageSize = 0x40000000 := by decide +kernel
  have hpages : (0x40000000 : Nat) / pageSize = 262144 := by decide +kernel
  have hfirst : firstFit UHeap.initial.freeList (roundup 0x40000000 pageSize) =
      some ⟨[], ⟨99999, userHeapStart, 0x40000000⟩, []⟩ := by
    unfold firstFit
    rw [hround, hround]
    rfl
  have hle := hb _ hfirst
  have hfree := boot_diskFree .firstFit wideBoot_ok
  rw [hround, hpages, missingPages_all fun q => boot_diskSlot .firstFit wideBoot_ok (3, q),
    hfree] at hle
  omega

end Fos
