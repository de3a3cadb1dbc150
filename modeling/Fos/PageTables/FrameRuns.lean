import Mathlib.Data.Set.Card
import Fos.PageTables.Boot
import Fos.PageTables.Mirror

/-!
# Frame accounting over runs

Clients take frames, map them in any page directory, map others over them and unmap them; page
tables, directories and other memory of the kernel heap come and go meanwhile. In every state
reached the frame table, the free list and the page tables agree.
-/

namespace Fos

open Function (update)
open Prog (ok_inj)
open Relation (ReflTransGen)
open RefPool (pointing mem_pointing)

/-! ## Counting an entry more -/

section

variable {lay : Layout} {G D : Set Nat} {dirs : Roots} {held : Set Nat} {s s' : Kern}
  {dir : DirPtr} {f va perm : Nat} {x : Slot}

/-- The descriptors of the owned pages are not touched when a usable frame is entered. -/
theorem Usable.addReference_back (hf : Usable lay G s f) (va : Nat) :
    ∀ p ∈ G, ((s.frames.addReference f va).info (s.kframe p)).va =
      (s.frames.info (s.kframe p)).va := by
  intro p hp
  rw [addReference_info_of_ne _ _ (hf.notOwned p hp).symm]

theorem mapSlot_mapping (hd : Directories G dirs s) (hx : Writable lay G dirs s x)
    (hf : Usable lay G s f) (hperm : perm < 4096) :
    (s.mapSlot x f va perm).mapping (liveSlots lay dirs (s.mapSlot x f va perm)) =
      update (s.mapping (liveSlots lay dirs s)) x (some f) := by
  unfold Kern.mapSlot
  rw [hx.mapping_setFrames hd (hf.addReference_back va), if_pos (present_entryOf hperm),
    ppn_entryOf hperm]

/-- Entering a frame where it was not mapped adds one entry to those that map it. -/
theorem MemOk.remap_pointing (h : MemOk lay G D dirs held s) (hx : Located lay dirs s dir va x)
    (hf : Usable lay G s f) (hperm : perm < 4096)
    (hnew : ¬ (present (s.entry x) ∧ ppn (s.entry x) = f)) (hr : Remap s x f va perm s') :
    x ∉ pointing (s.mapping (liveSlots lay dirs s)) f ∧
      pointing (s'.mapping (liveSlots lay dirs s')) f =
        insert x (pointing (s.mapping (liveSlots lay dirs s)) f) := by
  have hnot : x ∉ pointing (s.mapping (liveSlots lay dirs s)) f := by
    rw [mem_pointing, mapping_eq_some]
    exact fun hc => hnew hc.2
  have hwr := hx.notOwned h.owned
  refine ⟨hnot, ?_⟩
  cases hr with
  | same hp he => exact absurd ⟨hp, he⟩ hnew
  | new hnp =>
    rw [mapSlot_mapping h.directories hwr hf hperm]
    exact RefPool.pointing_update_some_self (mapping_of_not_present hnp)
  | other hp hne hlt =>
    -- the entry is cleared first, and then written
    have h' := h.unmapLocated hx hp
    have hback : ∀ q ∈ G, ((s.frames.decrementReferences (ppn (s.entry x))).info (s.kframe q)).va =
        (s.frames.info (s.kframe q)).va := by
      intro q hq
      rw [decrementReferences_info_of_ne]
      intro he
      refine hwr.notOwned q hq (h.accounted.unshared q hq x ?_)
      rw [mapping_of_present hx.live hp, he]
    have hwr' := hwr.setFrames h.directories hback
    have hdirs' := h.directories.setFrames hback
    have hwr₂ : Writable lay G dirs (s.unmapSlot x) x :=
      ⟨by unfold Kern.unmapSlot; rw [hwr'.liveSlots hdirs' 0]; exact hwr'.live, hwr.notOwned⟩
    have hmap : (s.unmapSlot x).mapping (liveSlots lay dirs (s.unmapSlot x)) =
        update (s.mapping (liveSlots lay dirs s)) x none := by
      unfold Kern.unmapSlot
      rw [hwr.mapping_setFrames h.directories hback, if_neg not_present_zero]
    have hpt : pointing (update (s.mapping (liveSlots lay dirs s)) x none) f =
        pointing (s.mapping (liveSlots lay dirs s)) f :=
      RefPool.pointing_update_none_of_ne (mapping_of_present hx.live hp) hne.symm
    rw [mapSlot_mapping h'.directories hwr₂ (hf.unmapSlot h.owned hx.offHeap hne) hperm, hmap,
      RefPool.pointing_update_some_self (Function.update_self _ _ _), hpt]

/-- The frames of the owned pages after a remap. -/
theorem Located.remap_kframe (hx : Located lay dirs s dir va x) (ho : Owned G s)
    (hr : Remap s x f va perm s') {p : Nat} (hp : p ∈ G) : s'.kframe p = s.kframe p := by
  have hstep : ∀ {t : Kern} {fr : Frames} {w : Nat}, (∀ q ∈ G, HeapPage q) →
      ((t.setFrames fr).setEntry x w).kframe p = t.kframe p := by
    intro t fr w hG
    unfold Kern.kframe
    rw [hx.offHeap.kernelTable _ w (hG p hp)]
    rfl
  cases hr with
  | same => rfl
  | new => exact hstep ho.heapPage
  | other =>
    show (((s.unmapSlot x).setFrames _).setEntry x _).kframe p = _
    rw [hstep ho.heapPage]
    exact hstep ho.heapPage

end

/-! ## Runs -/

/-- What the clients of the frames know: the page directories, the frames obtained from
`allocate_frame` and not freed since, and those of them that were never mapped. -/
structure FrameState where
  kern : Kern
  dirs : List DirPtr
  obtained : Set Nat
  unmapped : Set Nat

/-- The present page-table entries that map `f`, in the tables of every page directory and in those
of the kernel space; the static entries made at boot are left aside. -/
def FrameState.entriesOf (c : BootConfig) (s : FrameState) (f : Nat) : Set Slot :=
  {x | x ∈ liveSlots c.layout (pageRoots s.dirs) s.kern ∧ present (s.kern.entry x) ∧
    ppn (s.kern.entry x) = f}

/-- The frames of `fs` that a call left allocated. -/
def stillAllocated (fs : Set Nat) (k : Kern) : Set Nat := {f | f ∈ fs ∧ f ∉ k.frames.freeFrameList}

/-- The frames of the pages of the kernel heap that a call mapped. -/
def newHeapFrames (k k' : Kern) : Set Nat :=
  {f | ∃ p, HeapPage p ∧ ¬ present (k.kernelTable p) ∧ present (k'.kernelTable p) ∧ k'.kframe p = f}

/-- One call. A page is mapped or unmapped below `USER_TOP`, or in the kernel space off the kernel
heap and off the static mappings; the pages of the kernel heap are mapped by `kmalloc`. -/
inductive FrameStep (c : BootConfig) : FrameState → FrameState → Prop
  | allocateFrame {s : FrameState} {f : Nat} {k : Kern} (hfree : s.kern.frames.freeFrameList ≠ [])
      (h : Fos.allocateFrame s.kern = .ok f k) :
      FrameStep c s ⟨k, s.dirs, insert f s.obtained, insert f s.unmapped⟩
  | mapFrame {s : FrameState} {dir : DirPtr} {f va perm : Nat} {k : Kern} (hdir : dir ∈ s.dirs)
      (hf : f ∈ s.obtained) (hva : Mappable c.layout s.kern va) (hperm : perm < 4096)
      (h : Fos.mapFrame dir f va perm s.kern = .ok () k)
      (hcount : (FrameState.entriesOf c ⟨k, s.dirs, s.obtained, s.unmapped⟩ f).encard ≤ 65535) :
      FrameStep c s ⟨k, s.dirs, stillAllocated s.obtained k, s.unmapped \ {f}⟩
  | unmapFrame {s : FrameState} {dir : DirPtr} {va : Nat} {k : Kern} (hdir : dir ∈ s.dirs)
      (hva : Mappable c.layout s.kern va) (h : Fos.unmapFrame dir va s.kern = .ok () k) :
      FrameStep c s ⟨k, s.dirs, stillAllocated s.obtained k, s.unmapped⟩
  | newDirectory {s : FrameState} {d cr3 : Nat} {k₁ k₂ k₃ : Kern}
      (h₁ : createUserDirectory s.kern = .ok d k₁) (hd : d ≠ 0)
      (h₂ : initializeDirectory d k₁ = .ok () k₂) (h₃ : listDirectory d cr3 k₂ = .ok () k₃) :
      FrameStep c s ⟨k₃, .heap d :: s.dirs, s.obtained, s.unmapped⟩
  | kmalloc {s : FrameState} {size va : Nat} {k : Kern} (h : Fos.kmalloc size s.kern = .ok va k) :
      FrameStep c s ⟨k, s.dirs, s.obtained ∪ newHeapFrames s.kern k, s.unmapped⟩

/-- What the run carries on. -/
def FrameInv (c : BootConfig) (s : FrameState) : Prop :=
  ∃ G, MemOk c.layout G ∅ (pageRoots s.dirs) s.unmapped s.kern ∧
    (∀ f ∈ s.obtained, Usable c.layout G s.kern f) ∧ ∀ p < 977920, s.kern.kernelTable p = 0

section

variable {c : BootConfig} {s t : FrameState} {f : Nat}

theorem entriesOf_eq (s : FrameState) (f : Nat) : s.entriesOf c f =
    pointing (s.kern.mapping (liveSlots c.layout (pageRoots s.dirs) s.kern)) f := by
  ext x
  rw [mem_pointing, mapping_eq_some]
  rfl

/-- A frame that stays allocated stays usable when the owned pages keep their frames. -/
theorem Usable.still {lay : Layout} {G : Set Nat} {k k' : Kern} (hf : Usable lay G k f)
    (hnot : f ∉ k'.frames.freeFrameList) (hk : ∀ p ∈ G, k'.kframe p = k.kframe p) :
    Usable lay G k' f :=
  ⟨hf.pool, hnot, fun p hp => by rw [hk p hp]; exact hf.notOwned p hp⟩

/-- The boot tables map no user page, whatever entry is written. -/
theorem Located.kernelTable_user {lay : Layout} {dirs : Roots} {k k' : Kern} {dir : DirPtr}
    {va w p : Nat} {x : Slot} (hx : Located lay dirs k dir va x) (fr : Frames) (hp : p < 977920) :
    ((k'.setFrames fr).setEntry x w).kernelTable p = k'.kernelTable p := by
  obtain ⟨-, hlive⟩ := hx.live
  obtain ⟨_ | _ | _, j⟩ := x
  · refine Function.update_of_ne ?_ _ _
    have := (lay.dynamic_kernel _ hlive).1
    dsimp only at this
    omega
  · rfl
  · rfl

/-- The pages that `kmalloc` maps are in no directory and no table. -/
theorem newHeapFrames_usable {lay : Layout} {G : Set Nat} {dirs : Roots}
    {held : Set Nat} {k k' : Kern}
    {b : BlockInfo} (hnotG : ∀ p ∈ b.pages, p ∉ G) (honly : MapsOnly b.pages k k')
    (hacc : Accounted lay (G ∪ b.pages) dirs held k') (hf : f ∈ newHeapFrames k k') :
    Usable lay G k' f := by
  obtain ⟨p, hp, hold, hnew, rfl⟩ := hf
  have hpb : p ∈ b.pages := by
    by_contra hnot
    rw [honly.kernelTable p hnot] at hnew
    exact hold hnew
  exact hacc.usable hnotG hpb

theorem FrameStep.inv (hi : FrameInv c s) (h : FrameStep c s t) : FrameInv c t := by
  obtain ⟨G, hok, huse, hzero⟩ := hi
  have hquiet : ∀ {dirs : Roots} {G G' : Set Nat} {k : Kern}, Quiet dirs ∅ G G' s.kern k →
      ∀ p < 977920, k.kernelTable p = 0 := by
    intro dirs G G' k hq p hp
    rw [hq.kernelTable p (.inr fun hheap => ?_)]
    · exact hzero p hp
    · unfold HeapPage at hheap
      omega
  cases h with
  | allocateFrame hfree h =>
    obtain ⟨hok', hq, hf, -⟩ := hok.allocateFrame h
    refine ⟨G, hok', ?_, hquiet hq⟩
    rintro g (rfl | hg)
    · exact hf
    · exact (huse g hg).quiet hq hok.owned
  | @mapFrame dir f va perm k hdir hf hva hperm h hcount =>
    obtain ⟨G', k₁, x, hq, hok₁, hx, -, hr⟩ := hok.mapFrame hdir hva h
    have hf₁ := (huse f hf).quiet hq hok.owned
    have hlt : ¬ (present (k₁.entry x) ∧ ppn (k₁.entry x) = f) → k₁.references f < 65535 := by
      intro hnew
      -- one entry more maps the frame afterwards
      obtain ⟨hnot, hins⟩ := hok₁.remap_pointing hx hf₁ hperm hnew hr
      have hfin := hok₁.counted.finite_pointing f
      rw [entriesOf_eq, hins, Set.encard_insert_of_notMem hnot, ← hfin.cast_ncard_eq] at hcount
      rw [hok₁.counted.count f hf₁.pool]
      have hle : (pointing (k₁.mapping (liveSlots c.layout (pageRoots s.dirs) k₁)) f).ncard + 1 ≤
          65535 := by exact_mod_cast hcount
      have hlost : c.layout.lost f = 0 := rfl
      omega
    refine ⟨G', hok₁.remap hx hf₁ hperm hlt hr, fun g hg => ?_, fun p hp => ?_⟩
    · exact ((huse g hg.1).quiet hq hok.owned).still hg.2 fun p hp =>
        hx.remap_kframe hok₁.owned hr hp
    · cases hr with
      | same => exact hquiet hq p hp
      | new => exact (hx.kernelTable_user _ hp).trans (hquiet hq p hp)
      | other =>
        exact (hx.kernelTable_user _ hp).trans ((hx.kernelTable_user _ hp).trans (hquiet hq p hp))
  | unmapFrame hdir hva h =>
    rcases hok.unmapFrame hdir hva h with ⟨rfl, -⟩ | ⟨x, hx, -, hpr, rfl⟩
    · exact ⟨G, hok, fun g hg => huse g hg.1, hzero⟩
    · refine ⟨G, hok.unmapLocated hx hpr, fun g hg => (huse g hg.1).still hg.2 fun p hp => ?_,
        fun p hp => (hx.kernelTable_user _ hp).trans (hzero p hp)⟩
      exact hx.offHeap.kframe hok.owned _ _ hp
  | newDirectory h₁ hd h₂ h₃ =>
    obtain ⟨p, hnew, rfl, -, hok₂, hq, -⟩ := hok.newDirectory h₁ hd h₂
    obtain ⟨hok₃, hst, -, hfr, -, hkt⟩ := hok₂.listDirectory List.mem_cons_self h₃
    refine ⟨insert p G, hok₃, fun g hg => ?_, fun q hlt => by rw [hkt]; exact hquiet hq q hlt⟩
    have hg₂ := (huse g hg).quiet hq hok.owned
    refine hg₂.still (by rw [hfr]; exact hg₂.notFree) fun r _ => ?_
    unfold Kern.kframe
    rw [hkt]
  | kmalloc h =>
    rcases hok.kmalloc h with ⟨-, rfl⟩ | ⟨b, -, -, -, -, -, hnotG, honly, -, hacc, hq, hok'⟩
    · refine ⟨G, hok, fun g hg => ?_, hzero⟩
      rcases hg with hg | ⟨p, -, hold, hnew, -⟩
      · exact huse g hg
      · exact absurd hnew hold
    · refine ⟨G, hok', fun g hg => ?_, hquiet hq⟩
      rcases hg with hg | hg
      · exact (huse g hg).quiet hq hok.owned
      · exact newHeapFrames_usable hnotG honly hacc hg

/-- A frame with room in its counter is not mapped too often by one call. -/
theorem FrameInv.mapFrame_count {dir : DirPtr} {va perm : Nat} {k : Kern} (hi : FrameInv c s)
    (hdir : dir ∈ s.dirs) (hf : f ∈ s.obtained) (hva : Mappable c.layout s.kern va)
    (hperm : perm < 4096) (hlt : s.kern.references f < 65535)
    (h : Fos.mapFrame dir f va perm s.kern = .ok () k) :
    (FrameState.entriesOf c ⟨k, s.dirs, s.obtained, s.unmapped⟩ f).encard ≤ 65535 := by
  obtain ⟨G, hok, huse, -⟩ := hi
  obtain ⟨G', k₁, x, hq, hok₁, hx, -, hr⟩ := hok.mapFrame hdir hva h
  have hf₁ := (huse f hf).quiet hq hok.owned
  have hrefs : k₁.references f = s.kern.references f := by
    unfold Kern.references
    rw [hq.info f (huse f hf).notFree]
  have hcard : k₁.references f = _ := hok₁.counted.count f hf₁.pool
  rw [show c.layout.lost f = 0 from rfl, Nat.add_zero] at hcard
  have hfin := hok₁.counted.finite_pointing f
  rw [entriesOf_eq]
  -- mapping the same frame again changes nothing, so the old bound holds
  by_cases hsame : present (k₁.entry x) ∧ ppn (k₁.entry x) = f
  · cases hr with
    | new hnp => exact absurd hsame.1 hnp
    | other _ hne => exact absurd hsame.2 hne
    | same =>
      rw [← hfin.cast_ncard_eq, ← hcard, hrefs]
      exact_mod_cast hlt.le
  · obtain ⟨hnot, hins⟩ := hok₁.remap_pointing hx hf₁ hperm hsame hr
    rw [hins, Set.encard_insert_of_notMem hnot, ← hfin.cast_ncard_eq, ← hcard, hrefs]
    exact_mod_cast hlt

theorem frameInv_boot {s₀ : Kern} (hboot : fosInitialize (initializePaging c) = .ok () s₀)
    (st : KHeapPlacementStrategy) : FrameInv c ⟨setStrategy st s₀, [.boot], ∅, ∅⟩ := by
  refine ⟨∅, fosInitialize_memOk_strategy hboot st, by simp, fun p hp => ?_⟩
  have hheap : ¬ HeapPage p := by
    unfold HeapPage
    omega
  exact ((fosInitialize_boot hboot).2.offHeap p hheap).trans (initializeKernelTable_user hp)

theorem frameInv_run {s₀ : Kern} {st : KHeapPlacementStrategy}
    (hboot : fosInitialize (initializePaging c) = .ok () s₀)
    (hrun : ReflTransGen (FrameStep c) ⟨setStrategy st s₀, [.boot], ∅, ∅⟩ s) : FrameInv c s :=
  Prog.invariant (frameInv_boot hboot st) (fun _ _ hi h => h.inv hi) hrun

/-- **What every state of a run shows.** -/
structure FrameAccounts (c : BootConfig) (s : FrameState) : Prop where
  /-- `references` counts the entries that map the frame, over what boot counted for the static
  mappings: nothing for the frames that are free at boot. -/
  references : ∀ f, (s.kern.references f : ℕ∞) =
    ((initialFrames c).info f).references + (s.entriesOf c f).encard
  nodup : s.kern.frames.freeFrameList.Nodup
  /-- No frame enters the list that was not in it at boot. -/
  pool : ∀ f ∈ s.kern.frames.freeFrameList, f ∈ (initialFrames c).freeFrameList
  free_iff : ∀ f ∈ (initialFrames c).freeFrameList,
    f ∈ s.kern.frames.freeFrameList ↔ s.entriesOf c f = ∅ ∧ f ∉ s.unmapped
  notFree : ∀ f, (s.entriesOf c f).Nonempty → f ∉ s.kern.frames.freeFrameList

theorem FrameInv.accounts (hi : FrameInv c s) : FrameAccounts c s := by
  obtain ⟨G, hok, -⟩ := hi
  have hcnt := hok.counted
  have hpool : ∀ f, f ∈ (initialFrames c).freeFrameList ↔ f ∈ c.layout.pool := fun f => Iff.rfl
  refine ⟨fun f => ?_, hcnt.nodup, fun f hf => hcnt.freePool f hf, fun f hf => ?_, ?_⟩
  · rw [entriesOf_eq]
    by_cases hf : f ∈ c.layout.pool
    · rw [hcnt.count f hf, initialFrames_refs hf, ← (hcnt.finite_pointing f).cast_ncard_eq]
      simp [BootConfig.layout]
    · -- a frame that is never free is mapped by static entries only
      have hempty : pointing (s.kern.mapping (liveSlots c.layout (pageRoots s.dirs) s.kern)) f = ∅ :=
        Set.eq_empty_of_forall_notMem fun x hx => hf (hcnt.inPool x f hx)
      rw [hempty, Set.encard_empty, add_zero]
      unfold Kern.references
      rw [hok.accounted.outside f hf]
      rfl
  · rw [entriesOf_eq, hcnt.free_iff f hf]
    exact and_congr_right fun _ => and_iff_right rfl
  · rintro f ⟨x, hx⟩
    rw [entriesOf_eq] at hx
    exact hcnt.notFree hx

end

/-- **Physical frame accounting.** From boot under any placement strategy, through any run of
`allocate_frame`, `map_frame` and `unmap_frame` over any page directories, the counts are exact and
no frame is lost or free while an entry maps it. -/
theorem frames_accounted {c : BootConfig} {s₀ : Kern} {st : KHeapPlacementStrategy} {s : FrameState}
    (hboot : fosInitialize (initializePaging c) = .ok () s₀)
    (hrun : ReflTransGen (FrameStep c) ⟨setStrategy st s₀, [.boot], ∅, ∅⟩ s) :
    FrameAccounts c s := by
  exact (frameInv_run hboot hrun).accounts

/-! ## One frame, taken and mapped -/

/-- The first frame, taken from the list. -/
def oneFrame : FrameState :=
  ⟨Prog.final (allocateFrame (setStrategy .firstFit smallBoot)), [.boot], {1019}, {1019}⟩

/-- The state in which `map_frame` enters it: the table of the user heap is new. -/
def oneTable : Kern :=
  let t := Prog.final (kmalloc pageSize oneFrame.kern)
  t.linkTable .boot (pdx userHeapStart) 1007620 (entryOf (t.kframe 1007620) (permUser ||| permWriteable))

/-- The frame mapped read-only at the start of the user heap of the boot directory. -/
def oneMapped : Kern :=
  Prog.final (mapFrameIn .boot (.heap (1007620 * 4096)) 1019 userHeapStart permUser oneTable)

theorem oneMapped_values :
    (setStrategy .firstFit smallBoot).frames.freeFrameList ≠ [] ∧
    Prog.value (allocateFrame (setStrategy .firstFit smallBoot)) = some 1019 ∧
    oneFrame.kern.pde .boot (pdx userHeapStart) = 0 ∧ RoomForPage oneFrame.kern 1007620 ∧
    oneFrame.kern.references 1019 = 0 ∧
    Prog.value (mapFrameIn .boot (.heap (1007620 * 4096)) 1019 userHeapStart permUser oneTable) =
      some () := by decide +kernel

theorem oneFrame_step :
    FrameStep smallMachine ⟨setStrategy .firstFit smallBoot, [.boot], ∅, ∅⟩ oneFrame := by
  obtain ⟨hfree, hframe, -⟩ := oneMapped_values
  have h := FrameStep.allocateFrame (c := smallMachine)
    (s := ⟨setStrategy .firstFit smallBoot, [.boot], ∅, ∅⟩) hfree (Prog.ok_of_value (a := 1019) hframe)
  rwa [insert_empty_eq] at h

theorem oneFrame_inv : FrameInv smallMachine oneFrame :=
  oneFrame_step.inv (frameInv_boot smallBoot_ok .firstFit)

theorem mapFrame_oneFrame :
    mapFrame .boot 1019 userHeapStart permUser oneFrame.kern = .ok () oneMapped := by
  obtain ⟨-, -, hz, ⟨hkm, hp, htables, hpr, hlt⟩, -, hin⟩ := oneMapped_values
  have hreach : ∀ k : Kern, k.ReachDir .boot := fun _ => trivial
  have hcreate : createPageTable .boot userHeapStart oneFrame.kern =
      .ok (.heap (1007620 * 4096)) oneTable :=
    createPageTable_new (Prog.ok_of_value hkm) (hreach _) (.of_forall htables) hp hpr hlt
  exact (mapFrame_create (hreach _) hz hcreate).trans (Prog.ok_of_value hin)

theorem frames_accounted_mapped :
    FrameAccounts smallMachine
      ⟨Prog.final (mapFrame .boot 1019 userHeapStart permUser
        (Prog.final (allocateFrame (setStrategy .firstFit smallBoot)))), [.boot],
      stillAllocated {1019} (Prog.final (mapFrame .boot 1019 userHeapStart permUser
        (Prog.final (allocateFrame (setStrategy .firstFit smallBoot))))), {1019} \ {1019}⟩ := by
  have hfinal : Prog.final (mapFrame .boot 1019 userHeapStart permUser oneFrame.kern) = oneMapped := by
    rw [mapFrame_oneFrame]
    rfl
  have hmap : mapFrame .boot 1019 userHeapStart permUser oneFrame.kern = .ok ()
      (Prog.final (mapFrame .boot 1019 userHeapStart permUser oneFrame.kern)) := by
    rw [hfinal]
    exact mapFrame_oneFrame
  refine frames_accounted smallBoot_ok (.tail (.tail .refl oneFrame_step)
    (.mapFrame List.mem_cons_self rfl (.inl (by decide)) (by decide) hmap ?_))
  obtain ⟨-, -, -, -, hrefs, -⟩ := oneMapped_values
  exact oneFrame_inv.mapFrame_count List.mem_cons_self rfl (.inl (by decide)) (by decide)
    (by rw [hrefs]; decide) hmap

end Fos
