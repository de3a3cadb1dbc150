import Fos.Loader.Program
import Fos.WorkingSet.Runs

/-!
# A loaded program runs on its image

The loader leaves the start of demand paging: whatever the process reads later is what it wrote
last, or the byte of its program, and its working set is exact.
-/

namespace Fos

open FlatMemory (Access lastWritten)
open Prog (bind_eq_ok ok_inj)
open Relation (ReflTransGen)

/-- The user pages through which the environment may read its working set. -/
abbrev Kern.mirror (s : Kern) (e : Nat) : Set Nat := workingSetMirror (s.envs e).pageWSMaxSize

/-- The environment as `env_create` has made it before it loads the program: only the mirror of its
working set, an array in the kernel heap, is mapped. -/
structure NewProcess (e : Nat) (s : Kern) : Prop where
  directory : (s.envs e).envPageDirectory ≠ 0
  size : 0 < (s.envs e).pageWSMaxSize
  length : (s.envs e).pageWSMaxSize ≤ (s.envs e).ptrPageWorkingSet.length
  empty : ∀ w ∈ (s.envs e).ptrPageWorkingSet, w = ⟨0, true⟩
  index : (s.envs e).pageLastWSIndex = 0
  array : workingSetPages (s.envs e).pageWSMaxSize ≤ 40959
  mirror : ∀ q ∈ s.mirror e, q < 977920 ∧ present (s.leaf (s.pageDirectory e) q)
  unmapped : ∀ q < 977920, q ∉ s.mirror e → s.leaf (s.pageDirectory e) q = 0

/-- The segments begin with pages, lie below the stack and off the pages of `fixed`, and have no
page in common. -/
structure ProgramFits (m : KernelImage) (p : Nat) (fixed : Set Nat) : Prop where
  fits : ∀ seg ∈ programSegments m p, seg.Fits
  free : ∀ seg ∈ programSegments m p, ∀ q, seg.Covers q → q ∉ fixed
  apart : (programSegments m p).Pairwise fun seg seg' => ∀ q, seg.Covers q → ¬ seg'.Covers q

/-- The memory of a process that begins. -/
def programMemory (m : KernelImage) (p : Nat) : UserMemory :=
  overlay stackPage 1 (fun _ => 0)
    ((programSegments m p).foldl (ProgramSegment.overlay m) fun _ => none)

section

variable {lay : Layout} {s : FileState} {k : Kern} {e c p n entry : Nat} {mem : UserMemory}
  {m : KernelImage} {progName : List UInt8} {fixed : Set Nat}

/-! ## Before -/

/-- An environment that maps no user page and whose working set is empty and mirrored. -/
theorem StoreInv.mirrored {ws : Nat} {k₁ k₂ : Kern} (hi : StoreInv lay s)
    (hpage : s.kern.pageDirectory e ∈ s.pages) (h0 : (s.kern.envs e).envPageDirectory ≠ 0)
    (hempty : (s.kern.envs e).ptrPageWorkingSet = List.replicate n ⟨0, true⟩)
    (hsize : (s.kern.envs e).pageWSMaxSize = n) (hn : 0 < n) (hlt : n * 12 ≤ 4294963200)
    (hindex : (s.kern.envs e).pageLastWSIndex = 0)
    (hz : ∀ q < 977920, s.kern.leaf (s.kern.pageDirectory e) q = 0)
    (h₁ : createUserPageWS n s.kern = .ok ws k₁) (hws : ws ≠ 0)
    (h₂ : mirrorPages (s.kern.pageDirectory e) (workingSetPages n) ws userPagesWSStart k₁ = .ok () k₂) :
    NewProcess e k₂ := by
  obtain ⟨-, dirs, hpages, hmir⟩ := hi.mirror hpage hn hlt (fun q _ hq => hz q hq) h₁ hws h₂
  have henv : k₂.envs e = s.kern.envs e := by rw [hmir.envs]
  have hd : k₂.pageDirectory e = s.kern.pageDirectory e := by rw [Kern.pageDirectory, henv]
  rw [← hpages] at hpage
  -- the record is as it was created; only the mirror is mapped beside it
  constructor
  · rwa [henv]
  · rwa [henv, hsize]
  · rw [henv, hempty, hsize, List.length_replicate]
  · intro w hw
    rw [henv, hempty] at hw
    exact List.eq_of_mem_replicate hw
  · rwa [henv]
  · rw [henv, hsize]
    exact hmir.fits
  · rw [Kern.mirror, henv, hsize, hd]
    exact hmir.mirror
  · rw [Kern.mirror, henv, hsize, hd]
    intro q hq hnot
    rw [hmir.leaf _ hpage q hq fun _ => hnot]
    exact hz q hq

/-- An environment with a new page directory and an empty working set, which is mirrored. -/
theorem StoreInv.newProcess {d cr3 ws : Nat} {env : Env} {k₁ k₂ k₃ k₄ k₅ : Kern}
    (hi : StoreInv lay s)
    (h0 : (s.kern.envs e).diskEnvPgdir = 0) (h₁ : createUserDirectory s.kern = .ok d k₁) (hd : d ≠ 0)
    (h₂ : initializeDirectory d k₁ = .ok () k₂) (h₃ : listDirectory d cr3 k₂ = .ok () k₃)
    (henv : env.envPageDirectory = d) (hdisk : env.diskEnvPgdir = 0)
    (hempty : env.ptrPageWorkingSet = List.replicate n ⟨0, true⟩) (hsize : env.pageWSMaxSize = n)
    (hn : 0 < n) (hlt : n * 12 ≤ 4294963200) (hindex : env.pageLastWSIndex = 0)
    (h₄ : createUserPageWS n (k₃.setEnv e env) = .ok ws k₄) (hws : ws ≠ 0)
    (h₅ : mirrorPages (.heap d) (workingSetPages n) ws userPagesWSStart k₄ = .ok () k₅) :
    NewProcess e k₅ := by
  obtain ⟨G, dirs, -, hfile⟩ := hi.file
  obtain ⟨p, hnew, rfl, -, hok, -, hleaf⟩ := hfile.mem.newDirectory h₁ hd h₂
  obtain ⟨-, hst, -, -⟩ := hok.listDirectory List.mem_cons_self h₃
  have hi₃ := (hi.newEnv h0 h₁ hd h₂ h₃ henv hdisk).1
  have hself : (k₃.setEnv e env).envs e = env := setEnv_self ..
  have hd₃ : (k₃.setEnv e env).pageDirectory e = .heap (p * 4096) := by
    rw [Kern.pageDirectory, hself, henv]
  refine hi₃.mirrored (by rw [hd₃]; exact List.mem_cons_self) (by rwa [hself, henv]) (by rwa [hself])
    (by rwa [hself]) hn hlt (by rwa [hself]) (fun q hq => ?_) h₄ hws (by rwa [hd₃])
  rw [hd₃, leaf_setEnv, hst.leaf _ List.mem_cons_self q hq]
  exact hleaf q hq

/-- Of a new process nothing is known. -/
theorem NewProcess.load (h : NewProcess e s.kern) (hi : StoreInv lay s) (hz : ZeroPage s.kern) :
    LoadInv lay e (s.kern.mirror e) (s.kern.envs e).pageWSMaxSize (fun _ => none) s := by
  have hentry : ∀ {i : Nat} {w : WorkingSetElement},
      (s.kern.envs e).ptrPageWorkingSet[i]? = some w → w = ⟨0, true⟩ :=
    fun hw => h.empty _ (List.mem_of_getElem? hw)
  have hnone : ∀ i q, ¬ (s.kern.envs e).Holds i q := by
    rintro i q ⟨-, w, hw, hused, -⟩
    rw [hentry hw] at hused
    cases hused
  have hindex : (s.kern.envs e).pageLastWSIndex < (s.kern.envs e).pageWSMaxSize := by
    rw [h.index]
    exact h.size
  refine ⟨hi, ⟨⟨h.directory, hindex, h.length, fun i _ w hw _ => ?_, h.mirror,
    fun i q hiq => absurd hiq (hnone i q), fun i j q hiq => absurd hiq (hnone i q)⟩,
    fun q hq hne hnf => absurd (h.unmapped q hq hnf) hne, Nat.le_refl _, fun i hlt => ?_⟩, hz,
    fun q hq hnf hpr => ?_, fun x v _ _ hv => absurd hv nofun, fun q _ x v _ hv => absurd hv nofun⟩
  · rw [hentry hw]
  · -- every entry is free
    refine iff_of_true ⟨hlt, ?_⟩ (Env.rank_lt hindex i)
    have hw := List.getElem?_eq_getElem (Nat.lt_of_lt_of_le hlt h.length)
    exact ⟨_, hw, by rw [hentry hw]⟩
  · rw [h.unmapped q hq hnf] at hpr
    exact absurd hpr not_present_zero

/-! ## After -/

theorem ProgramFits.stack (h : ProgramFits m p fixed) {seg : ProgramSegment}
    (hseg : seg ∈ programSegments m p) : ¬ seg.Covers stackPage := fun hc =>
  Nat.not_lt.2 (h.fits seg hseg).pages_le hc.2

/-- The mirror is below the stack. -/
theorem NewProcess.stack (h : NewProcess e s.kern) : stackPage ∉ s.kern.mirror e := by
  have harray := h.array
  rintro ⟨-, hlt⟩
  unfold ppn userPagesWSStart stackPage at hlt
  omega

/-- **The loader** builds the memory of the program. -/
theorem NewProcess.loadProgram (h : NewProcess e s.kern) (hi : StoreInv lay s)
    (hz : ZeroPage s.kern) (hfits : ProgramFits m p (s.kern.mirror e))
    (hk : Fos.loadProgram m progName e p s.kern = .ok entry k)
    (hfree : k.disk.diskFreeFrameList ≠ []) :
    ∃ store c, LoadInv lay e (s.kern.mirror e) c (programMemory m p) ⟨k, s.pages, store⟩ := by
  obtain ⟨c, hc⟩ : ∃ c, (s.kern.envs e).pageWSMaxSize = c + 1 :=
    ⟨_, (Nat.succ_pred_eq_of_pos h.size).symm⟩
  have hload := h.load hi hz
  unfold Fos.loadProgram at hk
  rw [Prog.get_bind_apply, hc, Nat.add_sub_cancel] at hk
  rw [hc] at hload
  obtain ⟨y, k₁, h₁, hk⟩ := bind_eq_ok.1 hk
  rw [Prog.get_bind_apply] at hk
  obtain ⟨_, k₂, h₂, hk⟩ := bind_eq_ok.1 hk
  obtain ⟨_, k₃, h₃, hk⟩ := bind_eq_ok.1 hk
  obtain ⟨-, rfl⟩ := ok_inj.1 hk
  by_cases hmagic : eMagic m p = elfMagic
  · rw [programSegmentForeach_run hmagic] at h₁
    obtain ⟨store₁, hl₁⟩ := hload.loadSegments hfits.fits hfits.apart
      (fun seg hseg q hq => ⟨hfits.free seg hseg q hq, rfl⟩) h₁
    have hl₂ :=
      LoadInv.clearModified (s := ⟨k₁, s.pages, store₁⟩) hl₁ (Nat.le_of_eq (Nat.zero_add _)) h₂
    -- no segment has the page of the stack
    have hstack : (programSegments m p).foldl (ProgramSegment.overlay m) (fun _ => none)
        (stackPage * 4096) = none :=
      overlays_of_not fun seg hseg => by rw [ppn_page]; exact hfits.stack hseg
    obtain ⟨store₂, hl₃⟩ :=
      LoadInv.mapInitialStack (s := ⟨k₂, s.pages, store₁⟩) hl₂ h.stack hstack h₃
      hfree
    exact ⟨store₂, _, hl₃⟩
  · rw [programSegmentForeach_panic hmagic] at h₁
    cases h₁

theorem LoadInv.paging (h : LoadInv lay e fixed c mem s) :
    PagingInv lay e fixed (demandPages fixed) mem s := by
  refine ⟨h.inv, h.room.toWorkingSetOk, fun q hq => hq.1, fun q hq => ?_⟩
  refine ⟨fun hpr => (h.room.own hq.1 hq.2 (present_ne_zero hpr)).2, fun hpr => ?_,
    fun hpr x v hx hv => ?_, fun _ => h.backed q hq.1⟩
  · -- what is mapped is known, and what is known is in the page file
    obtain ⟨v, hv⟩ := Option.ne_none_iff_exists'.1 (h.known q hq.1 hq.2 hpr)
    obtain ⟨w, hw, -⟩ := h.backed q hq.1 _ v (ppn_page q) hv
    rw [hw]
    exact Option.some_ne_none _
  · subst hx
    exact h.shows x v hq.1 hpr hv

theorem LoadInv.start (h : LoadInv lay e fixed c mem s) : WorkingSetStart e fixed s.kern :=
  ⟨h.room.toWorkingSetOk, h.room.noneMissing, c, h.room.free⟩

theorem programMemory_stack {x : Nat} (hx : ppn x = stackPage) : programMemory m p x = some 0 := by
  unfold programMemory
  rw [overlay_of_page (Nat.le_of_eq hx.symm) (by rw [hx]; decide)]
  rfl

theorem ProgramFits.memory (h : ProgramFits m p fixed) {seg : ProgramSegment} {x : Nat}
    (hseg : seg ∈ programSegments m p) (hx : seg.Covers (ppn x)) :
    programMemory m p x = some (seg.byte m x).toNat := by
  unfold programMemory
  rw [overlay_of_not, overlays_of_covers h.apart hseg hx]
  intro hc
  have hstack : ppn x = stackPage := Nat.le_antisymm (Nat.le_of_lt_succ hc.2) hc.1
  rw [hstack] at hx
  exact h.stack hseg hx

end

/-- **A loaded program runs on its image.** Whatever page faults come in between, a read answers the
byte written there last, or the byte of the segment, or zero on the stack. -/
theorem loadProgram_image {b : BootConfig} {s₀ k k' : Kern} {st : KHeapPlacementStrategy}
    {s : FileState}
    {e p va v entry : Nat} {m : KernelImage} {progName : List UInt8} {l₁ l₂ : List (Access Nat Nat)}
    (hboot : fosInitialize (initializePaging b) = .ok () s₀) (hclear : ∀ i < 1024, b.ram 1 i = 0)
    (hrun : ReflTransGen MemoryStep ⟨setStrategy st s₀, [.boot], fun _ => none⟩ s)
    (hnew : NewProcess e s.kern) (hfits : ProgramFits m p (s.kern.mirror e))
    (hload : loadProgram m progName e p s.kern = .ok entry k) (hfree : k.disk.diskFreeFrameList ≠ [])
    (haccess : AccessRun e (demandPages (s.kern.mirror e)) k (l₁ ++ .read va v :: l₂) k') :
    (∀ w, lastWritten va l₁ = some w → v = w) ∧
      (lastWritten va l₁ = none →
        (∀ seg ∈ programSegments m p, seg.Covers (ppn va) → v = (seg.byte m va).toNat) ∧
        (ppn va = stackPage → v = 0)) := by
  obtain ⟨store, c, hloaded⟩ := hnew.loadProgram (memoryRun_inv hboot hrun)
    (zeroPage_run hboot hclear hrun) hfits hload hfree
  have hread := (AccessRun.paging (s := ⟨k, s.pages, store⟩) hloaded.paging haccess).1.read
  refine ⟨hread.1, fun hnone => ⟨fun seg hseg hcovers => ?_, fun hstack => ?_⟩⟩
  · exact hread.2 hnone _ (hfits.memory hseg hcovers)
  · exact hread.2 hnone _ (programMemory_stack hstack)

/-- **The working set of a loaded program** holds its mapped pages but those of the mirror, each
once, from the start and over any run of faults and of calls that free memory and leave the free
entries in a row. -/
theorem loadProgram_workingSet {b : BootConfig} {s₀ k t : Kern} {st : KHeapPlacementStrategy}
    {s : FileState} {e p entry : Nat} {m : KernelImage} {progName : List UInt8}
    (hboot : fosInitialize (initializePaging b) = .ok () s₀) (hclear : ∀ i < 1024, b.ram 1 i = 0)
    (hrun : ReflTransGen MemoryStep ⟨setStrategy st s₀, [.boot], fun _ => none⟩ s)
    (hnew : NewProcess e s.kern) (hfits : ProgramFits m p (s.kern.mirror e))
    (hload : loadProgram m progName e p s.kern = .ok entry k) (hfree : k.disk.diskFreeFrameList ≠ [])
    (hsteps : ReflTransGen (RowStep e) k t) : WorkingSetExact e (s.kern.mirror e) t ∧
    PlacesFree e t := by
  obtain ⟨store, c, hloaded⟩ := hnew.loadProgram (memoryRun_inv hboot hrun)
    (zeroPage_run hboot hclear hrun) hfits hload hfree
  have hstart : WorkingSetStart e (s.kern.mirror e) k := hloaded.start
  obtain ⟨hmem, hend⟩ := hstart.run ⟨store, hloaded.inv⟩ hsteps
  exact ⟨hend.toWorkingSetOk.exact hend.noneMissing, hend.placesFree hmem⟩

/-! ## A program of five bytes -/

/-- A file with one header, for the five bytes at its end. -/
def helloProgram : List UInt8 :=
  [0x7F, 0x45, 0x4C, 0x46] ++ List.replicate 20 0 ++ [0, 0, 0, 0x80, 52, 0, 0, 0] ++
    List.replicate 12 0 ++ [1, 0] ++ List.replicate 6 0 ++
    [1, 0, 0, 0, 84, 0, 0, 0, 0, 0, 0, 0x80, 0, 0, 0, 0, 5, 0, 0, 0, 5, 0, 0, 0] ++
    List.replicate 8 0 ++ [72, 101, 108, 108, 111]

/-- The kernel image with the file at 0xF0200000. -/
def helloImage : KernelImage := fun a => helloProgram.getD (a - 0xF0200000) 0

/-- The five bytes are loaded at the start of the user heap. -/
def helloSegment : ProgramSegment := ⟨0xF0200054, 5, 5, 0x80000000, 0⟩

/-- An environment gets a working set of two pages -/
def helloEnv : Kern :=
  fileKern.setEnv 3 ((fileKern.envs 3).setWorkingSet [⟨0, true⟩, ⟨0, true⟩] 2 0)

/-- at 0xF6007000, -/
def helloArray : Kern := Prog.final (createUserPageWS 2 helloEnv)

/-- and its mirror. -/
def helloStart : Kern :=
  Prog.final (mapFrameIn (.heap (1007620 * 4096)) (.heap (1007624 * 4096)) 1016 userPagesWSStart permUser
    (helloArray.withTable (1007620 * 4096) userPagesWSStart 1007624 (permUser ||| permWriteable)))

/-- The page of the segment gets a frame, -/
def segmentFrame : Kern := Prog.final (allocateFrame helloStart)

/-- is mapped -/
def segmentMapped : Kern := Prog.final ((do
  modify fun s => s.setFrames (s.frames.incReferences 1014)
  writePte (.heap (1007625 * 4096)) (ptx 0x80000000)
    (constructEntry (1014 * 4096) (permUser ||| permWriteable ||| permPresent)) : K Unit)
  (segmentFrame.withTable (1007620 * 4096) 0x80000000 1007625 (permUser ||| permWriteable)))

/-- and in the working set. -/
def segmentEntered : Kern := Prog.final ((do
  modify fun s => s.setEnv 3 { s.envs 3 with
    ptrPageWorkingSet := (s.envs 3).ptrPageWorkingSet.set (s.envs 3).pageLastWSIndex ⟨0x80000000, false⟩ }
  advanceLastWSIndex 3
  addTableToTableWorkingSet 3 : K Unit) segmentMapped)

/-- The five bytes are copied, -/
def segmentCopied : Kern :=
  Prog.final (copyToUser helloImage 3 5 0x80000000 0xF0200054 segmentEntered)

/-- the rest of the page is zero, -/
def segmentZeroed : Kern := segmentCopied.writtenPage 1013 (ptx 0x80000000) (1014 * 4096 + 0x47)
  (withBytes (fun _ => 0) 4091 0x80000005 (segmentCopied.ram 1014))

/-- and the page file gets the page. -/
def segmentStored : Kern :=
  let k := Prog.final (addToTable (1007626 * 4096) 0x80000000
    (pageWords (fillTempPage helloImage 0 0 0xF0200054))
    (segmentZeroed.withTable (1007621 * 4096) 0x80000000 1007626 0))
  Prog.final (pfAddEnvPage 3 0x80000000 (pageWords (fillTempPage helloImage 5 0 0xF0200054)) k)

/-- The page counts as not modified. -/
def helloCleared : Kern := Prog.final (clearModified 3 2 0 segmentStored)

/-- The stack gets a frame, -/
def stackFrame : Kern := Prog.final (allocateFrame helloCleared)

/-- is mapped, -/
def stackMapped : Kern := Prog.final ((do
  modify fun s => s.setFrames (s.frames.incReferences 1011)
  writePte (.heap (1007627 * 4096)) (ptx 0xEEBFD000)
    (constructEntry (1011 * 4096) (permUser ||| permWriteable ||| permPresent)) : K Unit)
  (stackFrame.withTable (1007620 * 4096) 0xEEBFD000 1007627 (permUser ||| permWriteable)))

/-- is filled with zeros, -/
def stackZeroed : Kern := stackMapped.writtenPage 1010 (ptx 0xEEBFD000) (1011 * 4096 + 7)
  (withBytes (fun _ => 0) pageSize 0xEEBFD000 (stackMapped.ram 1011))

/-- is in the working set -/
def stackEntered : Kern := stackZeroed.setEnv 3 ((stackZeroed.envs 3).enterPage 0xEEBFD000)

/-- and in the page file: the program is loaded. -/
def helloStack : Kern := Prog.final (pfAddEmptyEnvPage 3 0xEEBFD000 1 stackEntered)

/-- What the file says. -/
theorem helloProgram_values : eMagic helloImage 0xF0200000 = elfMagic ∧
    eEntry helloImage 0xF0200000 = 0x80000000 ∧
    programSegments helloImage 0xF0200000 = [helloSegment] ∧
    (helloSegment.byte helloImage 0x80000000).toNat = 72 := by decide +kernel

/-- Where the pages and the bytes of the segment end. -/
theorem helloSegment_bounds :
    helloSegment.firstPage = 0x80000 ∧ helloSegment.pages = 1 ∧
    rounddown 0x80000000 pageSize = 0x80000000 ∧ roundup 0x80000000 pageSize = 0x80000000 ∧
    u32 (0x80000000 + helloSegment.sizeInFile) = 0x80000005 ∧
    roundup (u32 (0x80000000 + helloSegment.sizeInMemory)) pageSize = 0x80001000 ∧
    rounddown 0x80000005 pageSize = 0x80000000 ∧
    roundup (u32Sub (u32 (0x80000000 + helloSegment.sizeInMemory)) (roundup 0x80000005 pageSize))
      pageSize / pageSize = 0 := by decide +kernel

/-- The working set is mirrored in one page. -/
theorem workingSetPages_two : workingSetPages 2 = 0 + 1 := by decide +kernel

theorem helloSegment_covers {q : Nat} : helloSegment.Covers q ↔ q = 0x80000 := by
  obtain ⟨hfirst, hpages, -⟩ := helloSegment_bounds
  unfold ProgramSegment.Covers
  rw [hfirst, hpages]
  omega

/-- The mirror is made. -/
theorem helloStart_values :
    (helloEnv.envs 3).envPageDirectory = 1007620 * 4096 ∧
    (helloEnv.envs 3).ptrPageWorkingSet = List.replicate 2 ⟨0, true⟩ ∧
    (helloEnv.envs 3).pageWSMaxSize = 2 ∧ (helloEnv.envs 3).pageLastWSIndex = 0 ∧
    (∀ i < 955, helloEnv.table (helloEnv.pageDirectory 3) i = none) ∧
    Prog.value (createUserPageWS 2 helloEnv) = some (1007623 * 4096) ∧
    (∀ i < 40, present (helloArray.kernelDirectory (984 + i))) ∧
    helloArray.kframe 1007623 = 1016 ∧ 1016 < helloArray.frames.numberOfFrames ∧
    RoomForTable helloArray (1007620 * 4096) userPagesWSStart 1007624 ∧
    Prog.value (mapFrameIn (.heap (1007620 * 4096)) (.heap (1007624 * 4096)) 1016 userPagesWSStart
      permUser (helloArray.withTable (1007620 * 4096) userPagesWSStart 1007624
        (permUser ||| permWriteable))) = some () := by decide +kernel

/-- The page of the segment. -/
theorem segment_values :
    (helloStart.envs 3).pageWSMaxSize = 2 ∧
    Prog.value (allocateFrame helloStart) = some 1014 ∧
    (segmentFrame.envs 3).envPageDirectory = 1007620 * 4096 ∧
    RoomForTable segmentFrame (1007620 * 4096) 0x80000000 1007625 ∧
    Prog.value ((do
      modify fun s => s.setFrames (s.frames.incReferences 1014)
      writePte (.heap (1007625 * 4096)) (ptx 0x80000000)
        (constructEntry (1014 * 4096) (permUser ||| permWriteable ||| permPresent)) : K Unit)
      (segmentFrame.withTable (1007620 * 4096) 0x80000000 1007625 (permUser ||| permWriteable))) =
        some () ∧
    Prog.value ((do
      modify fun s => s.setEnv 3 { s.envs 3 with
        ptrPageWorkingSet := (s.envs 3).ptrPageWorkingSet.set (s.envs 3).pageLastWSIndex ⟨0x80000000, false⟩ }
      advanceLastWSIndex 3
      addTableToTableWorkingSet 3 : K Unit) segmentMapped) = some () ∧
    Prog.value (copyToUser helloImage 3 5 0x80000000 0xF0200054 segmentEntered) = some () ∧
    (segmentCopied.envs 3).envPageDirectory = 1007620 * 4096 ∧
    segmentCopied.walk (.heap (1007620 * 4096)) 0x80000005 = some (1013, 1014 * 4096 + 0x47) ∧
    segmentCopied.frameAt (1007620 * 4096) ≠ 1013 ∧
    segmentCopied.frameAt (1007620 * 4096) ≠ 1014 := by
  decide +kernel

/-- The page file. -/
theorem stored_values :
    (segmentZeroed.envs 3).diskEnvPgdir = 1007621 * 4096 ∧
    RoomForTable segmentZeroed (1007621 * 4096) 0x80000000 1007626 ∧
    Prog.value (addToTable (1007626 * 4096) 0x80000000
      (pageWords (fillTempPage helloImage 0 0 0xF0200054))
      (segmentZeroed.withTable (1007621 * 4096) 0x80000000 1007626 0)) = some 0 ∧
    Prog.value (pfAddEnvPage 3 0x80000000 (pageWords (fillTempPage helloImage 5 0 0xF0200054))
      (Prog.final (addToTable (1007626 * 4096) 0x80000000
        (pageWords (fillTempPage helloImage 0 0 0xF0200054))
        (segmentZeroed.withTable (1007621 * 4096) 0x80000000 1007626 0)))) = some 0 ∧
    (segmentStored.envs 3).pageWSMaxSize = 2 ∧
    Prog.value (clearModified 3 2 0 segmentStored) = some () := by
  decide +kernel

/-- The stack. -/
theorem stack_values :
    Prog.value (allocateFrame helloCleared) = some 1011 ∧
    (stackFrame.envs 3).envPageDirectory = 1007620 * 4096 ∧
    RoomForTable stackFrame (1007620 * 4096) 0xEEBFD000 1007627 ∧
    Prog.value ((do
      modify fun s => s.setFrames (s.frames.incReferences 1011)
      writePte (.heap (1007627 * 4096)) (ptx 0xEEBFD000)
        (constructEntry (1011 * 4096) (permUser ||| permWriteable ||| permPresent)) : K Unit)
      (stackFrame.withTable (1007620 * 4096) 0xEEBFD000 1007627 (permUser ||| permWriteable))) =
        some () ∧
    (stackMapped.envs 3).envPageDirectory = 1007620 * 4096 ∧
    stackMapped.walk (.heap (1007620 * 4096)) 0xEEBFD000 = some (1010, 1011 * 4096 + 7) ∧
    stackMapped.frameAt (1007620 * 4096) ≠ 1010 ∧ stackMapped.frameAt (1007620 * 4096) ≠ 1011 ∧
    Prog.value (envPageWsSetEntry 3 (stackZeroed.envs 3).pageLastWSIndex 0xEEBFD000 stackZeroed) =
      some () ∧
    Prog.value (pfAddEmptyEnvPage 3 0xEEBFD000 1 stackEntered) = some 0 := by
  decide +kernel

theorem helloArray_mirror :
    mirrorPages (.heap (1007620 * 4096)) (workingSetPages 2) (1007623 * 4096)
    userPagesWSStart helloArray = .ok () helloStart := by
  obtain ⟨-, -, -, -, -, -, htables, hframe, hlt, hroom, hin⟩ := helloStart_values
  have hpa :=
    kheapPhysicalAddress_page (p := 1007623) (.of_forall htables) (by unfold HeapPage; decide)
    (by rw [hframe]; decide)
  have hinfo : toFrameInfo (1016 * 4096) helloArray = .ok 1016 helloArray := by
    rw [toFrameInfo, Prog.get_bind_apply, Prog.ite_run, ppn_page, if_neg (Nat.not_le.2 hlt)]
    rfl
  rw [hframe] at hpa
  rw [workingSetPages_two, mirrorPages, Prog.bind_of_ok hpa, Prog.bind_of_ok hinfo]
  exact Prog.bind_of_ok (hroom.mapFrame.trans (Prog.ok_of_value hin))

theorem helloEnv_run : ∃ m,
    ReflTransGen MemoryStep ⟨setStrategy .firstFit smallBoot, [.boot], fun _ => none⟩
      ⟨helloEnv, [.heap (1007620 * 4096), .boot], m⟩ := by
  obtain ⟨m, hrun⟩ := fileKern_run
  exact ⟨m, .tail hrun (.workingSet 3 _ 2 0)⟩

theorem helloEnv_leaf (q : Nat) (hq : q < 977920) :
    helloEnv.leaf (helloEnv.pageDirectory 3) q = 0 := by
  obtain ⟨-, -, -, -, htables, -⟩ := helloStart_values
  exact leaf_of_none (htables (q / 1024) (by omega))

theorem helloStart_run : ∃ m,
    ReflTransGen MemoryStep ⟨setStrategy .firstFit smallBoot, [.boot], fun _ => none⟩
      ⟨helloStart, [.heap (1007620 * 4096), .boot], m⟩ := by
  obtain ⟨m, hrun⟩ := helloEnv_run
  obtain ⟨hdir, -, -, -, -, harray, -⟩ := helloStart_values
  have hd : helloEnv.pageDirectory 3 = .heap (1007620 * 4096) := congrArg DirPtr.heap hdir
  exact ⟨m, .tail hrun (.store (.mirror List.mem_cons_self (by decide) (by decide)
    (fun q _ hq => hd ▸ helloEnv_leaf q hq) (Prog.ok_of_value harray) (by decide) helloArray_mirror))⟩

theorem helloStart_new : NewProcess 3 helloStart := by
  obtain ⟨m, hrun⟩ := helloEnv_run
  obtain ⟨hdir, hws, hsize, hindex, -, harray, -⟩ := helloStart_values
  have hd : helloEnv.pageDirectory 3 = .heap (1007620 * 4096) := congrArg DirPtr.heap hdir
  have hi := memoryRun_inv smallBoot_ok hrun
  exact hi.mirrored (by rw [hd]; exact List.mem_cons_self) (by rw [hdir]; decide) hws hsize (by decide)
    (by decide) hindex helloEnv_leaf (Prog.ok_of_value harray) (by decide)
    (by rw [hd]; exact helloArray_mirror)

/-- The mirror is one page. -/
theorem helloStart_mirror {q : Nat} : q ∈ helloStart.mirror 3 ↔ q = 0xC0000 := by
  rw [Kern.mirror, segment_values.1]
  unfold workingSetMirror
  rw [Set.mem_ofPred_eq, workingSetPages_two]
  unfold ppn userPagesWSStart
  omega

theorem helloProgram_fits : ProgramFits helloImage 0xF0200000 (helloStart.mirror 3) := by
  obtain ⟨-, -, hseg, -⟩ := helloProgram_values
  obtain ⟨hfirst, hpages, -⟩ := helloSegment_bounds
  constructor
  · rw [hseg]
    intro seg hmem
    obtain rfl := List.mem_singleton.1 hmem
    refine ⟨by rw [hfirst]; rfl, by decide, ?_⟩
    rw [hfirst, hpages]
    decide
  · rw [hseg]
    rintro seg hmem q hq hmirror
    obtain rfl := List.mem_singleton.1 hmem
    exact absurd ((helloSegment_covers.1 hq).symm.trans (helloStart_mirror.1 hmirror)) (by decide)
  · rw [hseg]
    exact List.pairwise_singleton _ _

/-- The loop over the pages of the segment maps one page. -/
theorem segmentPage_ok :
    allocSegmentPages 3 0x80001000 1 0x80000000 0xFFFFFFFF helloStart = .ok (1, 512) segmentEntered := by
  obtain ⟨-, hframe, hdir, hroom, hmap, henter, -⟩ := segment_values
  have hframe : allocateFrame helloStart = .ok 1014 segmentFrame := Prog.ok_of_value hframe
  have hmap : loadtimeMapFrame (.heap (1007620 * 4096)) 1014 0x80000000 (permUser ||| permWriteable)
      segmentFrame = .ok () segmentMapped := hroom.loadtimeMapFrame.trans (Prog.ok_of_value hmap)
  have hpage : allocSegmentPage 3 0x80000000 0xFFFFFFFF helloStart = .ok 512 segmentEntered := by
    rw [allocSegmentPage, Prog.bind_of_ok hframe, Prog.get_bind_apply, hdir, Prog.bind_of_ok hmap]
    obtain ⟨_, k₁, h₁, henter'⟩ := bind_eq_ok.1 (Prog.ok_of_value henter)
    obtain ⟨_, k₂, h₂, h₃⟩ := bind_eq_ok.1 henter'
    rw [Prog.bind_of_ok h₁, Prog.bind_of_ok h₂, Prog.ite_run, if_pos (by decide),
      Prog.bind_of_ok h₃]
    rfl
  rw [allocSegmentPages, Prog.ite_run, if_pos (by decide), Prog.bind_of_ok hpage]
  rfl

theorem segmentZeroed_ok : zeroUser 3 4091 0x80000005 segmentCopied = .ok () segmentZeroed := by
  obtain ⟨-, -, -, -, -, -, -, hdir, hwalk, h1, h2⟩ := segment_values
  have hframe : ppn (1014 * 4096 + 0x47) = 1014 := by decide
  have hrun := zeroUser_walk (n := 4090) (congrArg DirPtr.heap hdir) hwalk (by decide) h1
    (by rwa [hframe]) (by rw [hframe]; decide) (by decide)
  rw [hframe] at hrun
  exact hrun

theorem segmentAlloc_ok :
    programSegmentAllocMapCopyWorkingset helloImage [] 3 helloSegment 1 0xFFFFFFFF
    helloStart = .ok (1, 512) segmentZeroed := by
  obtain ⟨-, -, -, -, -, -, hcopy, -⟩ := segment_values
  have hcopy : copyToUser helloImage 3 5 0x80000000 0xF0200054 segmentEntered = .ok () segmentCopied :=
    Prog.ok_of_value hcopy
  obtain ⟨-, -, hdown, -, hfile, hend, -⟩ := helloSegment_bounds
  have hcopied : min (0x80000000 + 1 * pageSize) 0x80000005 - 0x80000000 = 5 := by decide
  rw [programSegmentAllocMapCopyWorkingset]
  dsimp only
  rw [show helloSegment.virtualAddress = 0x80000000 from rfl, hend, hdown, hfile,
    if_neg (by decide), Prog.bind_of_ok segmentPage_ok]
  dsimp only
  rw [hcopied, show helloSegment.ptrStart = 0xF0200054 from rfl, Prog.bind_of_ok hcopy]
  exact Prog.bind_of_ok segmentZeroed_ok

theorem segmentStore_ok :
    storeSegment helloImage 3 helloSegment segmentZeroed = .ok () segmentStored := by
  obtain ⟨hdisk, hroom, hfirst, hlast, -⟩ := stored_values
  have hdir : getDiskPageDirectory 3 segmentZeroed = .ok 0 segmentZeroed := by
    rw [getDiskPageDirectory, Prog.get_bind_apply, Prog.ite_run, hdisk, if_neg (by decide)]
    rfl
  have hadd :=
    (pfAddEnvPage_table (by decide) hdir (by rw [hdisk]; exact hroom.getDiskPageTable)).trans
    (Prog.ok_of_value hfirst)
  have hva : helloSegment.virtualAddress = 0x80000000 := rfl
  have hmiddle : (0x80000000 - 0x80000000) / pageSize = 0 := by decide
  obtain ⟨-, -, hdown, hup, hend, -, hlow, hrest⟩ := helloSegment_bounds
  rw [storeSegment]
  dsimp only
  rw [hva, hdown, hup, hend, hlow, hmiddle, hrest]
  rw [Nat.sub_self, Nat.add_zero, Nat.zero_mul, Nat.add_zero,
    show helloSegment.ptrStart = 0xF0200054 from rfl,
    show 0x80000005 - 0x80000000 = 5 from rfl, Prog.bind_of_ok (storePage_stored hadd), storePages]
  exact (Prog.bind_of_ok rfl).trans (Prog.bind_of_ok (storePage_stored (Prog.ok_of_value hlast)))

theorem helloSegments_ok : programSegmentForeach helloImage 0xF0200000 (loadSegment helloImage [] 3)
    (1, 0xFFFFFFFF) helloStart = .ok (0, 512) segmentStored := by
  obtain ⟨hmagic, -, hseg, -⟩ := helloProgram_values
  have hload : loadSegment helloImage [] 3 (1, 0xFFFFFFFF) helloSegment helloStart =
      .ok (0, 512) segmentStored := by
    rw [loadSegment, Prog.bind_of_ok segmentAlloc_ok]
    exact Prog.bind_of_ok segmentStore_ok
  rw [programSegmentForeach_run hmagic, hseg, List.foldlM_cons, Prog.bind_of_ok hload]
  rfl

theorem stackZeroed_ok : zeroUser 3 pageSize 0xEEBFD000 stackMapped = .ok () stackZeroed := by
  obtain ⟨-, -, -, -, hdir, hwalk, h1, h2, -⟩ := stack_values
  have hframe : ppn (1011 * 4096 + 7) = 1011 := by decide
  have hrun := zeroUser_walk (n := 4095) (congrArg DirPtr.heap hdir) hwalk (by decide) h1
    (by rwa [hframe]) (by rw [hframe]; decide) (by decide)
  rw [hframe] at hrun
  exact hrun

theorem helloStack_map : mapInitialStack 3 helloCleared = .ok () helloStack := by
  obtain ⟨hframe, hdir, hroom, hmap, -, -, -, -, hset, hadd⟩ := stack_values
  have hframe : allocateFrame helloCleared = .ok 1011 stackFrame := Prog.ok_of_value hframe
  have hmap : loadtimeMapFrame (.heap (1007620 * 4096)) 1011 0xEEBFD000 (permUser ||| permWriteable)
      stackFrame = .ok () stackMapped := hroom.loadtimeMapFrame.trans (Prog.ok_of_value hmap)
  have hset := Prog.ok_of_value hset
  have hva : ustackTop - pageSize = 0xEEBFD000 := rfl
  rw [mapInitialStack, hva, Prog.bind_of_ok hframe, Prog.get_bind_apply, hdir, Prog.bind_of_ok hmap,
    Prog.bind_of_ok stackZeroed_ok, Prog.get_bind_apply, Prog.bind_of_ok hset,
    Prog.bind_of_ok (envPageWsSetEntry_advance hset)]
  exact Prog.bind_of_ok (Prog.ok_of_value hadd)

theorem helloStack_load :
    loadProgram helloImage [] 3 0xF0200000 helloStart = .ok 0x80000000 helloStack := by
  obtain ⟨-, -, -, -, hsize, hclear⟩ := stored_values
  rw [loadProgram, Prog.get_bind_apply, segment_values.1, Prog.bind_of_ok helloSegments_ok,
    Prog.get_bind_apply, hsize, Prog.bind_of_ok (Prog.ok_of_value hclear)]
  rw [show Prog.final (clearModified 3 2 0 segmentStored) = helloCleared from rfl,
    Prog.bind_of_ok helloStack_map, helloProgram_values.2.1]
  rfl

/-- A page of the stack takes the place of the segment, -/
def helloEvicted : Kern := Prog.final (faultHandler 3 0xEEBFC000 helloStack)

/-- and the segment that of the first page of the stack. -/
def helloRuns : Kern := Prog.final (faultHandler 3 0x80000000 helloEvicted)

/-- What the run does. -/
theorem helloRuns_values :
    helloStack.disk.diskFreeFrameList ≠ [] ∧
    (helloStack.walk (helloStack.pageDirectory 3) 0x80000000).isSome ∧
    helloStack.leaf (helloStack.pageDirectory 3) (ppn 0xEEBFC000) = 0 ∧
    Prog.value (faultHandler 3 0xEEBFC000 helloStack) = some () ∧
    helloEvicted.leaf (helloEvicted.pageDirectory 3) (ppn 0x80000000) = 0 ∧
    helloEvicted.disk.diskFreeFrameList ≠ [] ∧
    Prog.value (faultHandler 3 0x80000000 helloEvicted) = some () ∧
    (helloRuns.walk (helloRuns.pageDirectory 3) 0x80000000).isSome := by decide +kernel

/-- The first byte is read from the page that the loader maps, and again from the page that a fault
loads. -/
theorem loadProgram_image_hello : ∃ k, AccessRun 3 (demandPages (helloStart.mirror 3)) helloStack
    ([.read 0x80000000 72] ++ .read 0x80000000 72 :: []) k := by
  obtain ⟨m, hrun⟩ := helloStart_run
  obtain ⟨hfree, hwalk, hz, hfault, hz₁, hfree₁, hfault₁, hwalk₁⟩ := helloRuns_values
  obtain ⟨-, -, hseg, h72⟩ := helloProgram_values
  have hpage : ppn 0x80000000 ∈ demandPages (helloStart.mirror 3) :=
    ⟨by decide, fun h => absurd (helloStart_mirror.1 h) (by decide)⟩
  have hstack : ppn 0xEEBFC000 ∈ demandPages (helloStart.mirror 3) :=
    ⟨by decide, fun h => absurd (helloStart_mirror.1 h) (by decide)⟩
  -- the byte is read before the page went out, and again after it came back
  have hbyte : ∀ {l v k}, AccessRun 3 (demandPages (helloStart.mirror 3)) helloStack
      (l ++ .read 0x80000000 v :: []) k → FlatMemory.lastWritten 0x80000000 l = none → v = 72 := by
    intro l v k haccess hnone
    have h :=
      ((loadProgram_image smallBoot_ok (fun _ _ => rfl) hrun helloStart_new helloProgram_fits
      helloStack_load hfree haccess).2 hnone).1 helloSegment
      (by rw [hseg]; exact List.mem_singleton_self _) (helloSegment_covers.2 (by decide))
    rw [h, h72]
  have hfault : faultHandler 3 0xEEBFC000 helloStack = .ok () helloEvicted :=
    Prog.ok_of_value hfault
  have hfault₁ : faultHandler 3 0x80000000 helloEvicted = .ok () helloRuns :=
    Prog.ok_of_value hfault₁
  obtain ⟨v, hread⟩ := readUserByte_walk hwalk
  have hrun₁ := (AccessRun.start (T := demandPages (helloStart.mirror 3))).read hpage hread
  obtain rfl := hbyte (l := []) hrun₁ rfl
  have hrun₂ := hrun₁.fault hstack hz hfree hfault
  have hrun₃ := hrun₂.fault hpage hz₁ hfree₁ hfault₁
  obtain ⟨w, hread₁⟩ := readUserByte_walk hwalk₁
  have hrun₄ := hrun₃.read hpage hread₁
  obtain rfl := hbyte hrun₄ rfl
  exact ⟨_, hrun₄⟩

/-- The page of the segment is freed, -/
def helloFreed : Kern := Prog.final (freeMem 3 0x80000000 pageSize helloStack)

/-- and a page of the stack takes the entry. -/
def helloPlaced : Kern := Prog.final (pageFaultHandler 3 0xEEBFC000 helloFreed)

theorem helloFreed_values :
    Prog.value (freeMem 3 0x80000000 pageSize helloStack) = some () ∧
    (helloStack.envs 3).LeavesRow (ppn 0x80000000) (ppn pageSize) ∧
    helloFreed.leaf (helloFreed.pageDirectory 3) (ppn 0xEEBFC000) = 0 ∧
    helloFreed.diskSlot (3, ppn 0xEEBFC000) ≠ 0 ∧
    Prog.value (pageFaultHandler 3 0xEEBFC000 helloFreed) = some () := by decide +kernel

/-- The entry that `freeMem` leaves is the next one. -/
theorem loadProgram_workingSet_hello :
    DemandStep 3 (.free 0x80000000 pageSize) helloStack helloFreed ∧
    DemandStep 3 (.fault 0xEEBFC000) helloFreed helloPlaced ∧
    WorkingSetExact 3 (helloStart.mirror 3) helloPlaced ∧ PlacesFree 3 helloPlaced := by
  obtain ⟨m, hrun⟩ := helloStart_run
  obtain ⟨hfreed, hrow, hz, hslot, hfault⟩ := helloFreed_values
  have hfree : DemandStep 3 (.free 0x80000000 pageSize) helloStack helloFreed :=
    .free (by decide) (by decide) (by decide) (by decide) (Prog.ok_of_value hfreed)
  have hplace : DemandStep 3 (.fault 0xEEBFC000) helloFreed helloPlaced :=
    .fault hz (.inl hslot) (Prog.ok_of_value hfault)
  have hsteps : ReflTransGen (RowStep 3) helloStack helloPlaced :=
    .tail (.single ⟨_, hfree, hrow⟩) ⟨_, hplace, trivial⟩
  have hexact := loadProgram_workingSet smallBoot_ok (fun _ _ => rfl) hrun helloStart_new
    helloProgram_fits helloStack_load helloRuns_values.1 hsteps
  exact ⟨hfree, hplace, hexact⟩

end Fos
