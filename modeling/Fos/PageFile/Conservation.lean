import Fos.PageFile.Teardown

/-!
# Page-file frame conservation

Over any run of the calls that add pages, remove pages and tear an environment's file down, every
disk frame is in the free list or in one slot of one environment.
-/

namespace Fos

open Function (update)
open Prog (bind_eq_ok ok_inj)
open Relation (ReflTransGen)
open SlotPool (Exact)

section

variable {c : BootConfig} {lay : Layout} {D : Set Nat} {pages : List DirPtr} {held : Set Nat}
  {s s₀ t : Kern} {st : KHeapPlacementStrategy} {e n p va init : Nat} {r : Int} {src : Nat → Nat}

/-! ## The adds -/

theorem AddsFrame.of_some (ha : AddsFrame (e, p) s t (some n)) :
    t.diskSlot = update s.diskSlot (e, p) n ∧ t.disk.words = s.disk.words ∧
      (s.diskSlot (e, p) ≠ 0 → n = s.diskSlot (e, p)) := by
  cases ha with
  | old h0 hd hs =>
    rw [Function.update_eq_self, hs, hd]
    exact ⟨rfl, rfl, fun _ => rfl⟩
  | new h0 hfree hd hs =>
    rw [hs, hd]
    exact ⟨rfl, rfl, fun hc => absurd h0 hc⟩

theorem AddsFrame.of_none (ha : AddsFrame (e, p) s t none) :
    t.disk = s.disk ∧ t.diskSlot = s.diskSlot ∧ s.diskSlot (e, p) = 0 := by
  cases ha with
  | full h0 hfree hd hs => exact ⟨hd, hs, h0⟩

/-- What an add did: no frame was left and nothing changed, or the page has disk frame `n`, the one
it had if it had one, and the words of the disk are now `words n`. -/
inductive Adds (x : Nat × Nat) (words : Nat → Nat → Nat → Nat) (s t : Kern) : Int → Prop
  | full (h0 : s.diskSlot x = 0) (hd : t.disk = s.disk) (hs : t.diskSlot = s.diskSlot) :
      Adds x words s t eNoPageFileSpace
  | done {n : Nat} (h0 : n ≠ 0) (hold : s.diskSlot x ≠ 0 → n = s.diskSlot x)
      (hs : t.diskSlot = update s.diskSlot x n) (hw : t.disk.words = words n) : Adds x words s t 0

theorem FileInv.setWords (h : FileInv lay D pages held s) (words : Nat → Nat → Nat) :
    FileInv lay D pages held (s.setDisk { s.disk with words := words }) ∧
      FileOnly pages D held s (s.setDisk { s.disk with words := words }) := by
  obtain ⟨G, dirs, rfl, h⟩ := h
  refine ⟨⟨G, dirs, rfl, h.mem.setRest _ s.envs s.shares, h.dir, h.inj, h.low, h.exact⟩,
    ⟨⟨⟨fun _ _ => rfl, fun _ _ => rfl, fun _ _ => rfl, rfl, rfl, fun _ _ => rfl⟩, fun _ _ _ _ => rfl,
      fun _ _ => rfl, fun _ _ => rfl⟩, rfl, fun _ => rfl⟩⟩

theorem FileInv.frame_ne_zero {o : Option Nat} (h : FileInv lay D pages held s)
    (ha : AddsFrame (e, p) s t o) (ho : o = some n) : n ≠ 0 := by
  obtain ⟨G, dirs, rfl, h⟩ := h
  exact ha.ne_zero h.exact ho

/-- **`pf_add_env_page`.** -/
theorem FileInv.pfAddEnvPage (h : FileInv lay D pages held s) (hva : va < userTop)
    (hk : Fos.pfAddEnvPage e va src s = .ok r t) :
    FileInv lay D pages held t ∧ FileOnly pages D held s t ∧
      Adds (e, ppn va) (fun n => update s.disk.words n src) s t r := by
  obtain ⟨o, s₁, h₁, hk⟩ := bind_eq_ok.1 hk
  obtain ⟨hinv, hf, ha⟩ := h.pfDiskFrame hva h₁
  cases o with
  | none =>
    obtain ⟨rfl, rfl⟩ := ok_inj.1 hk
    obtain ⟨hd, hs, h0⟩ := ha.of_none
    exact ⟨hinv, hf, .full h0 hd hs⟩
  | some n =>
    obtain ⟨rfl, rfl⟩ := ok_inj.1 hk
    obtain ⟨hslot, hwords, hold⟩ := ha.of_some
    obtain ⟨hinv', hf'⟩ := hinv.setWords (update s₁.disk.words n src)
    refine ⟨hinv', hf.trans hf', .done (h.frame_ne_zero ha rfl) hold hslot ?_⟩
    show update s₁.disk.words n src = _
    rw [hwords]

/-- **`pf_add_empty_env_page`.** -/
theorem FileInv.pfAddEmptyEnvPage (h : FileInv lay D pages held s) (hva : va < userTop)
    (hk : Fos.pfAddEmptyEnvPage e va init s = .ok r t) :
    FileInv lay D pages held t ∧ FileOnly pages D held s t ∧
      Adds (e, ppn va)
        (fun n => if init = 0 then s.disk.words
          else update s.disk.words n (s.kernelPage ptrZeroPage)) s t r := by
  rw [Fos.pfAddEmptyEnvPage, Prog.ite_run] at hk
  split at hk
  case isTrue h0 =>
    -- a zeroed page is an ordinary page written from the zero page
    rw [Prog.get_bind_apply] at hk
    obtain ⟨hinv, hf, ha⟩ := h.pfAddEnvPage hva hk
    refine ⟨hinv, hf, ?_⟩
    cases ha with
    | full h0 hd hs => exact .full h0 hd hs
    | done hn hold hs hw => exact .done hn hold hs (by rw [hw, if_neg h0])
  case isFalse h0 =>
    -- otherwise the disk frame keeps what was written on it before
    obtain ⟨o, s₁, h₁, hk⟩ := bind_eq_ok.1 hk
    obtain ⟨hinv, hf, ha⟩ := h.pfDiskFrame hva h₁
    cases o with
    | none =>
      obtain ⟨rfl, rfl⟩ := ok_inj.1 hk
      obtain ⟨hd, hs, h0⟩ := ha.of_none
      exact ⟨hinv, hf, .full h0 hd hs⟩
    | some n =>
      obtain ⟨rfl, rfl⟩ := ok_inj.1 hk
      obtain ⟨hslot, hwords, hold⟩ := ha.of_some
      refine ⟨hinv, hf, .done (h.frame_ne_zero ha rfl) hold hslot ?_⟩
      rw [hwords, if_pos (not_not.1 h0)]

theorem Adds.slots_of_full {words : Nat → Nat → Nat → Nat} {x : Nat × Nat}
    (ha : Adds x words s t eNoPageFileSpace) : t.diskSlot = s.diskSlot := by
  generalize hr : eNoPageFileSpace = r at ha
  cases ha with
  | full _ _ hs => exact hs
  | done => exact absurd hr (by decide)

/-! ## Boot -/

/-- **After boot** the page file is empty and every disk frame is free. -/
theorem fileInv_boot (hb : fosInitialize (initializePaging c) = .ok () s)
    (st : KHeapPlacementStrategy) : FileInv c.layout ∅ [.boot] ∅ (setStrategy st s) := by
  obtain ⟨-, hr⟩ := fosInitialize_boot hb
  have hzero : ∀ e, ((setStrategy st s).envs e).diskEnvPgdir = 0 := by
    intro e
    show (s.envs e).diskEnvPgdir = 0
    rw [hr.envs]
    rfl
  refine ⟨∅, pageRoots [.boot], rfl, fosInitialize_memOk_strategy hb st,
    fun e he => absurd (hzero e) he, fun e _ he => absurd (hzero e) he, ?_, ?_⟩
  · show ¬ present (s.kernelTable 0)
    rw [hr.offHeap 0 not_heapPage_zero, initializeKernelTable_user (by omega)]
    exact not_present_zero
  · have hdisk : (setStrategy st s).disk.diskFreeFrameList = insertHeads 1 (pagesPerFile - 1) [] := by
      show s.disk.diskFreeFrameList = _
      rw [hr.disk]
      rfl
    rw [hdisk]
    refine .empty (fun h0 => absurd h0.1 (by decide)) (nodup_insertHeads List.nodup_nil (by simp))
      (fun n => ?_) fun x => diskSlot_none (hzero x.1)
    rw [mem_insertHeads]
    simp only [List.not_mem_nil, or_false, diskPool, Set.mem_ofPred_eq, pagesPerFile]

/-! ## Runs -/

/-- One call on the page file. -/
inductive FileStep : Kern → Kern → Prop
  | addEmpty {s t : Kern} {e va init : Nat} {r : Int} (hva : va < userTop)
      (h : Fos.pfAddEmptyEnvPage e va init s = .ok r t) : FileStep s t
  | add {s t : Kern} {e va : Nat} {dataSrc : Nat → Nat} {r : Int} (hva : va < userTop)
      (h : Fos.pfAddEnvPage e va dataSrc s = .ok r t) : FileStep s t
  | remove {s t : Kern} {e va : Nat} (hva : va < userTop)
      (h : Fos.pfRemoveEnvPage e va s = .ok () t) : FileStep s t
  | freeEnv {s t : Kern} {e : Nat} (hd : (s.envs e).diskEnvPgdir ≠ 0)
      (h : Fos.pfFreeEnv e s = .ok () t) : FileStep s t

theorem FileStep.inv (hi : FileInv lay D pages held s) (h : FileStep s t) :
    FileInv lay D pages held t := by
  cases h with
  | addEmpty hva h => exact (hi.pfAddEmptyEnvPage hva h).1
  | add hva h => exact (hi.pfAddEnvPage hva h).1
  | remove hva h => exact (hi.pfRemoveEnvPage hva h).1
  | freeEnv hd h => exact (hi.pfFreeEnv hd h).1

/-- **What every state of a run shows of the disk frames.** -/
structure DiskFramesConserved (s : Kern) : Prop where
  /-- A disk frame is once in the free list, or in one slot of one environment. -/
  place : ∀ n, 1 ≤ n → n < pagesPerFile →
    (s.disk.diskFreeFrameList.count n = 1 ∧ ∀ x, s.diskSlot x ≠ n) ∨
      (n ∉ s.disk.diskFreeFrameList ∧ ∃! x, s.diskSlot x = n)
  /-- Nothing else is in the list or in a slot. -/
  free : ∀ n ∈ s.disk.diskFreeFrameList, 1 ≤ n ∧ n < pagesPerFile
  slot : ∀ x, s.diskSlot x ≠ 0 → 1 ≤ s.diskSlot x ∧ s.diskSlot x < pagesPerFile
  addFails : ∀ e va dataSrc t, va < userTop →
    pfAddEnvPage e va dataSrc s = .ok eNoPageFileSpace t → t.diskSlot = s.diskSlot
  addEmptyFails : ∀ e va init t, va < userTop →
    pfAddEmptyEnvPage e va init s = .ok eNoPageFileSpace t → t.diskSlot = s.diskSlot
  /-- Teardown frees the disk frames of the environment and no other. -/
  freeEnv : ∀ e t, (s.envs e).diskEnvPgdir ≠ 0 → pfFreeEnv e s = .ok () t →
    (∀ p, t.diskSlot (e, p) = 0) ∧ (∀ e' p, e' ≠ e → t.diskSlot (e', p) = s.diskSlot (e', p)) ∧
    ∀ n, n ∈ t.disk.diskFreeFrameList ↔
      n ∈ s.disk.diskFreeFrameList ∨ n ≠ 0 ∧ ∃ p, s.diskSlot (e, p) = n

theorem FileInv.exact (h : FileInv lay D pages held s) :
    Exact diskPool s.diskSlot s.disk.diskFreeFrameList := by
  obtain ⟨G, dirs, -, h⟩ := h
  exact h.exact

theorem FileInv.conserved (h : FileInv lay D pages held s) : DiskFramesConserved s := by
  refine ⟨fun n h1 h2 => h.exact.place ⟨h1, h2⟩, h.exact.freePool, h.exact.inPool,
    fun e va src t hva hk => (h.pfAddEnvPage hva hk).2.2.slots_of_full,
    fun e va init t hva hk => (h.pfAddEmptyEnvPage hva hk).2.2.slots_of_full,
    fun e t hd hk => ?_⟩
  obtain ⟨hinv, -, hclear⟩ := h.pfFreeEnv hd hk
  refine ⟨fun p => hclear.cleared (e, p) rfl, fun e' p he => hclear.other (e', p) he, fun n => ?_⟩
  by_cases hn : n ∈ diskPool
  · rw [hinv.exact.free_iff n hn, h.exact.free_iff n hn]
    -- a frame is free afterwards when it was, or when a slot of `e` held it
    have hn0 : n ≠ 0 := h.exact.ne_zero hn
    constructor
    · intro hall
      by_cases hex : ∃ p, s.diskSlot (e, p) = n
      · exact .inr ⟨hn0, hex⟩
      · refine .inl fun x hx => ?_
        by_cases hxe : x ∈ slotsOf e
        · exact hex ⟨x.2, by rw [← hx, ← show x.1 = e from hxe]⟩
        · exact hall x (by rw [hclear.other x hxe, hx])
    · rintro (hall | ⟨-, p, rfl⟩) x hx
      · by_cases hxe : x ∈ slotsOf e
        · rw [hclear.cleared x hxe] at hx
          exact hn0 hx.symm
        · rw [hclear.other x hxe] at hx
          exact hall x hx
      · by_cases hxe : x ∈ slotsOf e
        · rw [hclear.cleared x hxe] at hx
          exact hn0 hx.symm
        · -- a frame of the environment is in no slot of another
          rw [hclear.other x hxe] at hx
          exact hxe (congrArg Prod.fst (h.exact.inj _ (e, p) (by rw [hx]; exact hn0) hx))
  · refine iff_of_false (fun hc => hn (hinv.exact.freePool n hc)) ?_
    rintro (hc | ⟨hn0, p, rfl⟩)
    · exact hn (h.exact.freePool n hc)
    · exact hn (h.exact.inPool _ hn0)

end

/-- **Page-file frame conservation.** From boot under any placement strategy of the kernel heap,
through any run of the page-file calls on any environments, no disk frame is lost or owned twice. -/
theorem diskFrames_conserved {c : BootConfig} {s₀ s : Kern} {st : KHeapPlacementStrategy}
    (hboot : fosInitialize (initializePaging c) = .ok () s₀)
    (hrun : ReflTransGen FileStep (setStrategy st s₀) s) : DiskFramesConserved s :=
  (Prog.invariant (fileInv_boot hboot st) (fun _ _ hi h => h.inv hi) hrun).conserved

/-- Environment 3 after boot, with an empty disk directory. -/
def oneDirectory : Kern :=
  let k := Prog.final (kmalloc pageSize (setStrategy .firstFit smallBoot))
  (k.fill (k.kframe 1007620) (clearedWords k (k.kframe 1007620))).setEnv 3
    { k.envs 3 with diskEnvPgdir := 1007620 * 4096 }

theorem oneDirectory_ok :
    getDiskPageDirectory 3 (setStrategy .firstFit smallBoot) = .ok 0 oneDirectory ∧
      ∃ G dirs, FileOk smallMachine.layout G ∅ dirs ∅ oneDirectory := by
  obtain ⟨G, dirs, -, h⟩ := fileInv_boot smallBoot_ok .firstFit
  have hkm : kmalloc pageSize (setStrategy .firstFit smallBoot) = .ok (1007620 * 4096)
      (Prog.final (kmalloc pageSize (setStrategy .firstFit smallBoot))) :=
    Prog.ok_of_value (by decide +kernel)
  obtain ⟨p, _, _, _, _, _, _, hok⟩ := h.mem.kmallocPage hkm (by decide)
  have hdir := getDiskPageDirectory_new (e := 3) (by decide +kernel) hkm hok.heap.tables
    (by unfold HeapPage; omega) (by decide +kernel) (by decide +kernel)
  obtain ⟨G₁, dirs₁, -, h₁, -⟩ := h.getDiskPageDirectory hdir
  exact ⟨hdir, G₁, dirs₁, h₁⟩

/-- The first page of environment 3, the first one of the user heap or the one at `USER_TOP`, gets a
new disk table and the first free disk frame. -/
theorem pfAddEmptyEnvPage_one {va : Nat} (hva : va = userHeapStart ∨ va = userTop) :
    ∃ t, pfAddEmptyEnvPage 3 va 0 (setStrategy .firstFit smallBoot) = .ok 0 t := by
  obtain ⟨hdir, G, dirs, h⟩ := oneDirectory_ok
  have hkm : kmalloc pageSize oneDirectory =
      .ok (1007621 * 4096) (Prog.final (kmalloc pageSize oneDirectory)) :=
    Prog.ok_of_value (by decide +kernel)
  obtain ⟨p, _, _, _, _, _, _, hok⟩ := h.mem.kmallocPage hkm (by decide)
  have hz : oneDirectory.pde (.heap (1007620 * 4096)) (pdx va) = 0 := by
    rcases hva with rfl | rfl
    · decide +kernel
    · decide +kernel
  -- the directory is empty, so the table is a new page
  have htable : getDiskPageTable (1007620 * 4096) va true oneDirectory = _ := getDiskPageTable_new
    ⟨by decide, by decide +kernel⟩ hz hkm ⟨by decide, by decide +kernel⟩
    hok.heap.tables (by unfold HeapPage; omega) (by decide +kernel) (by decide +kernel)
  have hlt : ¬ kernelBase ≤ va := by
    rcases hva with rfl | rfl
    · decide
    · decide
  have hframe : ∃ t, pfDiskFrame 3 va (setStrategy .firstFit smallBoot) = .ok (some 133119) t := by
    rw [pfDiskFrame, Prog.ite_run, if_neg hlt, Prog.bind_of_ok hdir, Prog.get_bind_apply,
      show (oneDirectory.envs 3).diskEnvPgdir = 1007620 * 4096 by rfl, Prog.bind_of_ok htable]
    rcases hva with rfl | rfl
    · exact ⟨_, Prog.ok_of_value (by decide +kernel)⟩
    · exact ⟨_, Prog.ok_of_value (by decide +kernel)⟩
  obtain ⟨t, hframe⟩ := hframe
  refine ⟨t, ?_⟩
  rw [pfAddEmptyEnvPage, Prog.ite_run, if_neg (by decide), Prog.bind_of_ok hframe]
  rfl

/-- The first page of one environment is added. -/
theorem diskFrames_conserved_one : ∃ t, pfAddEmptyEnvPage 3 userHeapStart 0
    (setStrategy .firstFit smallBoot) = .ok 0 t ∧ DiskFramesConserved t := by
  obtain ⟨t, hadd⟩ := pfAddEmptyEnvPage_one (.inl rfl)
  exact ⟨t, hadd, diskFrames_conserved smallBoot_ok (.tail .refl (.addEmpty (by decide) hadd))⟩

end Fos
