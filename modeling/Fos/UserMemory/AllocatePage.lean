import Fos.PageFile.MemoryRuns
import Fos.PageTables.MapFrame

/-!
# Allocating a page

`__sys_allocate_page` takes a frame, checks its arguments, clears the frame through the scratch page
of the kernel space and maps it. The frame is taken before the arguments are checked, and a refused
call does not give it back.
-/

namespace Fos

open Function (update)
open Prog (bind_eq_ok ok_inj)
open Relation (ReflTransGen)

/-- `E_INVAL` -/
abbrev eInval : Int := -3

/-- `PERM_AVAILABLE` -/
abbrev permAvailable : Nat := 0xE00

/-- `~PERM_AVAILABLE & ~PERM_WRITEABLE`, the bits that are not for the caller to choose. -/
def permFixed : Nat := (0xFFFFFFFF - permAvailable) &&& (0xFFFFFFFF - permWriteable)

/-- The frame is cleared through a mapping at `USER_LIMIT`, which is taken back with one reference
to spare. -/
def clearFrame (dir : DirPtr) (f : Nat) : K Unit := do
  mapFrame dir f userLimit permWriteable
  zeroWords userLimit 1024
  modify fun s => s.setFrames (s.frames.incReferences f)
  unmapFrame dir userLimit
  modify fun s => s.setFrames (s.frames.decReferences f)

/-- `__sys_allocate_page` -/
def sysAllocatePage (curenv va perm : Nat) : K Int := do
  let f ← allocateFrame
  if userTop ≤ va ∨ va % pageSize ≠ 0 then return eInval
  else if perm &&& permFixed ≠ permUser then return eInval
  else do
    let dir := DirPtr.heap ((← get).envs curenv).envPageDirectory
    clearFrame dir f
    mapFrame dir f va perm
    return 0

/-- The arguments `__sys_allocate_page` accepts. -/
structure PageArguments (va perm : Nat) : Prop where
  user : va < userTop
  aligned : va % pageSize = 0
  perm : perm &&& permFixed = permUser

/-! ## Atomicity -/

/-- The free list, the reference counts and the mappings of `t` are those of `s`. -/
structure SameMemory (pages : List DirPtr) (s t : Kern) : Prop where
  free : t.frames.freeFrameList = s.frames.freeFrameList
  references : t.references = s.references
  kernelTable : t.kernelTable = s.kernelTable
  kernelDirectory : t.kernelDirectory = s.kernelDirectory
  leaf : ∀ dir ∈ pages, ∀ p < 977920, t.leaf dir p = s.leaf dir p

/-- The address is mapped to a cleared frame with the permissions asked for and one reference, and
the frame that was mapped there has a reference less. -/
structure AllocatesPage (dir : DirPtr) (va perm : Nat) (s t : Kern) : Prop where
  mapped : ∃ f, t.leaf dir (ppn va) = constructEntry (f * 4096) (perm ||| permPresent) ∧
    ppn (t.leaf dir (ppn va)) = f ∧ (∀ i < 1024, t.ram f i = 0) ∧ t.references f = 1
  replaced : present (s.leaf dir (ppn va)) →
    t.references (ppn (s.leaf dir (ppn va))) + 1 = s.references (ppn (s.leaf dir (ppn va)))

/-- The call either fails and changes nothing, or it maps the page. -/
structure AllocatesAtomically (pages : List DirPtr) (e va perm : Nat) (s : Kern) (r : Int)
    (t : Kern) : Prop where
  failure : r ≠ 0 → SameMemory pages s t
  success : r = 0 → AllocatesPage (s.pageDirectory e) va perm s t

/-- What happens to the user pages of the directories besides the page file: calls of
`__sys_allocate_page` with any arguments, pages that are shared and pages that are unmapped. -/
inductive PageStep (pages : List DirPtr) : Kern → Kern → Prop
  | allocate {s t : Kern} {e va perm : Nat} {r : Int} (hpd : (s.envs e).envPageDirectory ≠ 0)
      (hperm : perm < 2 ^ 32) (h : sysAllocatePage e va perm s = .ok r t) : PageStep pages s t
  | share {s t : Kern} {dir : DirPtr} {f va perm : Nat} (hdir : dir ∈ pages) (hva : va < userTop)
      (hz : s.leaf dir (ppn va) = 0) (hperm : perm < 4096) (hf : UserFrame pages s f)
      (hlt : s.references f < 65534) (h : mapFrame dir f va perm s = .ok () t) : PageStep pages s t
  | unmap {s t : Kern} {dir : DirPtr} {va : Nat} (hdir : dir ∈ pages) (hva : va < userTop)
      (h : unmapFrame dir va s = .ok () t) : PageStep pages s t

/-- The invariant of these runs. The frames of refused calls are held by nobody. -/
structure PageInv (lay : Layout) (pages : List DirPtr) (s : Kern) : Prop where
  memory : ∃ G dirs held, dirs.page = pages ∧ MemOk lay G ∅ dirs held s
  listed : ∀ e, (s.envs e).envPageDirectory ≠ 0 → s.pageDirectory e ∈ pages
  scratch : Scratch lay s
  count : ∀ f, UserFrame pages s f → s.references f < 65535

section

variable {lay : Layout} {G D : Set Nat} {dirs : Roots} {pages : List DirPtr} {held : Set Nat}
  {s t : Kern} {dir : DirPtr} {e f va perm : Nat} {r : Int}

/-! ## The arguments -/

/-- Permissions that are accepted are bits of a page-table entry. -/
theorem PageArguments.perm_lt (h : PageArguments va perm) (hlt : perm < 2 ^ 32) : perm < 4096 := by
  have hsplit : perm = perm &&& permFixed ||| perm &&& 0xE02 := by
    rw [← Nat.and_or_distrib_left, show permFixed ||| 0xE02 = 2 ^ 32 - 1 by decide,
      Nat.and_two_pow_sub_one_eq_mod, Nat.mod_eq_of_lt hlt]
  rw [hsplit, h.perm]
  refine Nat.or_lt_two_pow (n := 12) (by decide) ?_
  exact Nat.and_lt_two_pow perm (by decide)

/-- A call with arguments that are not accepted keeps the frame it took. -/
theorem sysAllocatePage_refused (hargs : ¬ PageArguments va perm)
    (halloc : allocateFrame s = .ok f t) : sysAllocatePage e va perm s = .ok eInval t := by
  rw [sysAllocatePage, Prog.bind_of_ok halloc, Prog.ite_run]
  by_cases hva : userTop ≤ va ∨ va % pageSize ≠ 0
  · rw [if_pos hva]
    rfl
  · have hperm : perm &&& permFixed ≠ permUser := by
      intro hperm
      rw [not_or, Nat.not_le, not_not] at hva
      exact hargs ⟨hva.1, hva.2, hperm⟩
    rw [if_neg hva, Prog.ite_run, if_pos hperm]
    rfl

/-! ## The frame -/

/-- The state in which frame `f` is taken and cleared. -/
def Kern.cleared (s : Kern) (f : Nat) : Kern :=
  (s.setFrames (s.frames.setInfo f ⟨s.references f, userLimit⟩)).fill f fun i =>
    if i < 1024 then 0 else s.ram f i

theorem cleared_ram (s : Kern) (f : Nat) {i : Nat} (hi : i < 1024) : (s.cleared f).ram f i = 0 := by
  unfold Kern.cleared
  rw [fill_ram_self, if_pos hi]

theorem references_cleared (s : Kern) (f g : Nat) :
    (s.cleared f).references g = s.references g := by
  show (update s.frames.info f ⟨s.references f, userLimit⟩ g).references = _
  by_cases hg : g = f
  · rw [hg, Function.update_self]
  · rw [Function.update_of_ne hg]
    rfl

/-- Nothing but the words and the descriptor of the frame changes. -/
theorem MemOk.cleared (h : MemOk lay G D dirs held s) (hf : Usable lay G s f) :
    MemOk lay G D dirs held (s.cleared f) ∧ Usable lay G (s.cleared f) f ∧
      ∀ dir ∈ dirs, ∀ p < 977920, (s.cleared f).leaf dir p = s.leaf dir p := by
  have hback : ∀ p ∈ G, ((s.frames.setInfo f ⟨s.references f, userLimit⟩).info (s.kframe p)).va =
      (s.frames.info (s.kframe p)).va := fun p hp =>
    congrArg FrameInfo.va (Function.update_of_ne (hf.notOwned p hp).symm _ _)
  obtain ⟨hok, hleaf⟩ := (h.setVa hf userLimit).fillUser (f := f) hf.notOwned fun i =>
    if i < 1024 then 0 else s.ram f i
  refine ⟨hok, ⟨hf.pool, hf.notFree, hf.notOwned⟩, fun dir hdir p hp => ?_⟩
  rw [Kern.cleared, hleaf dir hdir p hp]
  exact h.directories.leaf_setFrames hback hdir hp

/-- **The frame is cleared** and the scratch page is left unmapped. -/
theorem MemOk.clearFrame (h : MemOk lay G D dirs held s) (hdir : dir ∈ dirs.page)
    (hs : Scratch lay s) (hf : Usable lay G s f) (hlt : s.references f < 65535) :
    Fos.clearFrame dir f s = .ok () (s.cleared f) := by
  obtain ⟨hmap, hok₁, hmapped, hframe⟩ :=
    h.mapScratch hdir hs hf hlt permWriteable (by decide)
  set s₁ := s.atScratch f permWriteable with hs₁
  have hzero : zeroWords userLimit 1024 s₁ = .ok () (s₁.clearWords f 0 1024) := by
    have hrun := zeroWords_page (p := scratchPage) (k := 0) (n := 1024) hmapped (by omega)
    rwa [show s₁.kframe scratchPage = f from hframe] at hrun
  have hkf : ∀ p ∈ G, f ≠ s₁.kframe p := by
    intro p hp
    rw [h.owned.atScratch f permWriteable hp]
    exact hf.notOwned p hp
  have hdirs := (hok₁.fillUser hkf fun i => if 0 ≤ i ∧ i < 0 + 1024 then 0 else s₁.ram f i).1
  have hback := h.unmapScratch hdir hs hf hlt (by decide : permWriteable < 4096)
    (s₁.clearWords f 0 1024) hdirs.directories rfl rfl rfl
  rw [Fos.clearFrame, Prog.bind_of_ok hmap, Prog.bind_of_ok hzero, hback]
  congr 1
  -- only the descriptor and the words of the frame are left changed
  have hsame : (s₁.clearWords f 0 1024).ram = (s.cleared f).ram := by
    unfold Kern.cleared Kern.clearWords Kern.fill
    simp only [Nat.zero_le, Nat.zero_add, true_and]
    rfl
  have htab : update s₁.kernelTable scratchPage 0 = s.kernelTable := by
    rw [hs₁]
    show update (update s.kernelTable scratchPage _) scratchPage 0 = _
    rw [Function.update_idem, ← hs.unmapped, Function.update_eq_self]
  unfold Kern.setKernelTable Kern.setFrames
  rw [hsame]
  show ({ s.cleared f with kernelTable := update s₁.kernelTable scratchPage 0 } : Kern) = _
  rw [htab]
  rfl

/-! ## The mapping -/

/-- **`map_frame` of a frame that is mapped nowhere**: its words stay, it has one reference, and the
frame that was mapped at the address loses one. -/
theorem MemOk.replaceUser {s' : Kern} (h : MemOk lay G D dirs held s) (hdir : dir ∈ dirs.page)
    (hva : va < userTop) (hf : Usable lay G s f) (h0 : s.references f = 0)
    (hk : Fos.mapFrame dir f va perm s = .ok () s') :
    s'.ram f = s.ram f ∧ (present (s.leaf dir (ppn va)) →
      s'.references (ppn (s.leaf dir (ppn va))) + 1 = s.references (ppn (s.leaf dir (ppn va)))) := by
  obtain ⟨G', t, x, hq, hok, hloc, huser, hr⟩ := h.mapFrame hdir (.inl hva) hk
  have hx := huser hva
  have hf' := hf.quiet hq h.owned
  have hst := hq.still h
  have hleaf : t.entry x = s.leaf dir (ppn va) := by
    rw [hx.entry, hst.leaf dir hdir _ (pdx_user hva).2]
  have h0' : t.references f = 0 := by
    unfold Kern.references at h0 ⊢
    rwa [hq.info f hf.notFree]
  have hram : t.ram f = s.ram f := hq.ram f hf.notFree fun p hp _ => hf.notOwned p hp
  -- the frame that is mapped at the address has a reference, so it is another frame
  have hpos : present (t.entry x) → 0 < t.references (ppn (t.entry x)) := fun hpr =>
    hok.counted.count_pos (mapping_of_present hx.live hpr)
  have hne : present (t.entry x) → ppn (t.entry x) ≠ f := by
    intro hpr hpf
    have := hpos hpr
    rw [hpf] at this
    omega
  cases hr with
  | same hpr hpf => exact absurd hpf (hne hpr)
  | new hnp =>
    refine ⟨?_, fun hpr => absurd (hleaf ▸ hpr) hnp⟩
    rw [← hram]
    exact hok.setEntry_ram hx _ _ fun p hp _ => hf'.notOwned p hp
  | other hpr hpf hrange =>
    have hu := hok.unmapSlot_user hx hpr
    have hxu := hx.unmapSlot hok hpr
    have hfu := hf'.unmapSlot hok.owned hx.offHeap hpf
    have hram' := (hok.unmapLocated hloc hpr).setEntry_ram hxu
      ((t.unmapSlot x).frames.addReference f va) (entryOf f perm) fun p hp _ => hfu.notOwned p hp
    refine ⟨?_, fun hpr' => ?_⟩
    · calc (((t.unmapSlot x).mapSlot x f va perm)).ram f = (t.unmapSlot x).ram f := hram'
        _ = t.ram f := hu.ram f fun p hp _ => hf'.notOwned p hp
        _ = s.ram f := hram
    · have hstay : s.references (ppn (t.entry x)) = t.references (ppn (t.entry x)) := by
        have hin : InUse dirs.page D held s (ppn (t.entry x)) :=
          .inr (.inr ⟨dir, hdir, ppn va, (pdx_user hva).2, hpr', by rw [hleaf]⟩)
        unfold Kern.references
        rw [hst.info _ hin]
      rw [← hleaf, mapSlot_references_of_ne _ _ _ hpf, hstay]
      have := hpos hpr
      by_cases h1 : (t.frames.info (ppn (t.entry x))).references = 1
      · have hz := (hu.last h1).2
        unfold Kern.references
        omega
      · have hs := (hu.shared h1).2
        unfold Kern.references at this ⊢
        omega

/-! ## One call -/

theorem MemOk.cleared_kept (hf : Usable lay G s f) : Kept D s (s.cleared f) := by
  have hge : 3 ≤ f := lay.pool_ge f hf.pool
  refine ⟨fun _ _ => rfl, fun _ _ => rfl, fun _ _ => rfl, rfl, rfl, fun g hg => ?_⟩
  exact fill_ram_of_ne (by omega)

/-- A call that is refused takes the head of the free list and changes nothing else. -/
theorem PageInv.refused (hi : PageInv lay pages s) (hargs : ¬ PageArguments va perm)
    (hk : sysAllocatePage e va perm s = .ok r t) :
    r = eInval ∧ PageInv lay pages t ∧
    ∃ f, s.frames.freeFrameList = f :: t.frames.freeFrameList := by
  obtain ⟨f, s₁, halloc, -⟩ := bind_eq_ok.1 hk
  rw [sysAllocatePage_refused hargs halloc] at hk
  obtain ⟨rfl, rfl⟩ := ok_inj.1 hk
  obtain ⟨G, dirs, held, rfl, h⟩ := hi.memory
  obtain ⟨hok, hq, -, -, hfree, -⟩ := h.allocateFrame halloc
  have hst := hq.still h
  refine ⟨rfl,
    ⟨⟨G, dirs, _, rfl, hok⟩, ?_, hi.scratch.kept hst.toKept, hst.count hi.count⟩, f, hfree⟩
  intro e' he
  unfold Kern.pageDirectory at he ⊢
  rw [hq.envs] at he ⊢
  exact hi.listed e' he

/-- **A call with arguments that are accepted.** -/
theorem PageInv.accepted (hi : PageInv lay pages s) (hpd : (s.envs e).envPageDirectory ≠ 0)
    (hargs : PageArguments va perm) (hperm : perm < 2 ^ 32)
    (hk : sysAllocatePage e va perm s = .ok r t) :
    r = 0 ∧ PageInv lay pages t ∧ AllocatesPage (s.pageDirectory e) va perm s t := by
  obtain ⟨G, dirs, held, rfl, h⟩ := hi.memory
  have hdir := hi.listed e hpd
  have hlt := hargs.perm_lt hperm
  obtain ⟨-, hp⟩ := pdx_user hargs.user
  obtain ⟨f, s₁, halloc, hrest⟩ := bind_eq_ok.1 hk
  rw [Prog.ite_run, if_neg (not_or.2 ⟨Nat.not_le.2 hargs.user, not_not.2 hargs.aligned⟩),
    Prog.ite_run, if_neg (not_not.2 hargs.perm), Prog.get_bind_apply] at hrest
  obtain ⟨hok₁, hq, hf, hinfo, -⟩ := h.allocateFrame halloc
  have hst := hq.still h
  have h0 : s₁.references f = 0 := by
    unfold Kern.references
    rw [hinfo]
  have hd : DirPtr.heap (s₁.envs e).envPageDirectory = s.pageDirectory e := by rw [hq.envs]
  rw [hd] at hrest
  -- the frame is cleared
  have hclear := hok₁.clearFrame hdir (hi.scratch.kept hst.toKept) hf (by omega)
  obtain ⟨hok₂, hf₂, hleaf₂⟩ := hok₁.cleared hf
  have h0₂ : (s₁.cleared f).references f = 0 := by rw [references_cleared, h0]
  rw [Prog.bind_of_ok hclear] at hrest
  -- and mapped
  obtain ⟨_, u, hmap, hret⟩ := bind_eq_ok.1 hrest
  obtain ⟨rfl, rfl⟩ := ok_inj.1 hret
  obtain ⟨G', hok₃, hplace⟩ := hok₂.placeUser hdir hargs.user hf₂ h0₂ hlt hmap
  obtain ⟨hram, hrep⟩ := hok₂.replaceUser hdir hargs.user hf₂ h0₂ hmap
  have hkept : Kept ∅ s u := (hst.toKept.trans (MemOk.cleared_kept hf)).trans hplace.toKept
  have henvs : u.envs = s.envs := hplace.envs.trans hq.envs
  refine ⟨rfl, ⟨⟨G', dirs, _, rfl, hok₃⟩, fun e' he => ?_, hi.scratch.kept hkept, ?_⟩, ⟨?_, ?_⟩⟩
  · unfold Kern.pageDirectory at he ⊢
    rw [henvs] at he ⊢
    exact hi.listed e' he
  · apply hplace.count_lt hlt
    intro g hg
    rw [references_cleared]
    exact hst.count hi.count g ((userFrame_congr fun dir' hd' q hq' => hleaf₂ dir' (.inl hd') q hq').1 hg)
  · have hleaf := hplace.leaf _ hdir _ hp
    rw [if_pos ⟨rfl, rfl⟩] at hleaf
    refine ⟨f, hleaf, ?_, fun i hi => ?_, hplace.countSelf⟩
    · rw [hleaf, ppn_entryOf hlt]
    · rw [hram, cleared_ram s₁ f hi]
  · intro hpr
    have hin : InUse dirs.page ∅ held s (ppn (s.leaf (s.pageDirectory e) (ppn va))) :=
      .inr (.inr ⟨_, hdir, ppn va, hp, hpr, rfl⟩)
    have hstay : (s₁.cleared f).references (ppn (s.leaf (s.pageDirectory e) (ppn va))) =
        s.references (ppn (s.leaf (s.pageDirectory e) (ppn va))) := by
      rw [references_cleared]
      exact congrArg FrameInfo.references (hst.info _ hin)
    have hleaf : (s₁.cleared f).leaf (s.pageDirectory e) (ppn va) =
        s.leaf (s.pageDirectory e) (ppn va) := by
      rw [hleaf₂ _ (.inl hdir) _ hp, hst.leaf _ hdir _ hp]
    rw [hleaf, hstay] at hrep
    exact hrep hpr

/-! ## Runs -/

theorem PageStep.inv (hi : PageInv lay pages s) (h : PageStep pages s t) : PageInv lay pages t := by
  cases h with
  | allocate hpd hperm h =>
    rename_i va perm _
    -- a refused call has taken a frame all the same
    by_cases hargs : PageArguments va perm
    · exact (hi.accepted hpd hargs hperm h).2.1
    · exact (hi.refused hargs h).2.1
  | share hdir hva hz hperm hf hlt h =>
    obtain ⟨G, dirs, held, rfl, hmem⟩ := hi.memory
    obtain ⟨G', -, hok, hmap, -⟩ :=
      hmem.mapUser hdir hva hz (hf.usable hmem) (by omega) hperm h
    refine ⟨⟨G', dirs, _, rfl, hok⟩, ?_, hi.scratch.kept hmap.toKept, hmap.count hperm hlt hi.count⟩
    intro e he
    unfold Kern.pageDirectory at he ⊢
    rw [hmap.envs] at he ⊢
    exact hi.listed e he
  | unmap hdir hva h =>
    obtain ⟨G, dirs, held, rfl, hmem⟩ := hi.memory
    rcases hmem.unmapUser hdir hva h with ⟨rfl, -⟩ | ⟨-, hok, hun⟩
    · exact hi
    · refine ⟨⟨G, dirs, _, rfl, hok⟩, ?_, hi.scratch.kept hun.toKept, hun.count hi.count⟩
      intro e he
      unfold Kern.pageDirectory at he ⊢
      rw [hun.envs] at he ⊢
      exact hi.listed e he

theorem StoreInv.pageInv {x : FileState} (hi : StoreInv lay x) : PageInv lay x.pages x.kern := by
  obtain ⟨G, dirs, hpages, h⟩ := hi.file
  exact ⟨⟨G, dirs, ∅, hpages, h.mem⟩, hi.pages, hi.scratch, hi.count⟩

theorem pageRun_inv (hi : PageInv lay pages s) (hrun : ReflTransGen (PageStep pages) s t) :
    PageInv lay pages t := by
  induction hrun with
  | refl => exact hi
  | tail _ hstep ih => exact hstep.inv ih

/-- A call is atomic exactly if its arguments are accepted. -/
theorem PageInv.atomic_iff (hi : PageInv lay pages s) (hpd : (s.envs e).envPageDirectory ≠ 0)
    (hperm : perm < 2 ^ 32) (hk : sysAllocatePage e va perm s = .ok r t) :
    AllocatesAtomically pages e va perm s r t ↔ PageArguments va perm := by
  constructor
  · intro hatomic
    by_contra hargs
    obtain ⟨rfl, -, f, hfree⟩ := hi.refused hargs hk
    have hlen := congrArg List.length ((hatomic.failure (by decide)).free.symm.trans rfl)
    rw [hfree, List.length_cons] at hlen
    omega
  · intro hargs
    obtain ⟨rfl, -, hpage⟩ := hi.accepted hpd hargs hperm hk
    exact ⟨fun hc => absurd rfl hc, fun _ => hpage⟩

end

/-- **`__sys_allocate_page` is atomic exactly on the arguments it accepts**, in every state after
boot, any work on the page file and any pages allocated, shared and unmapped: with other arguments
it returns `E_INVAL` and the frame it took is lost. -/
theorem sysAllocatePage_atomic_iff {c : BootConfig} {s₀ : Kern} {st : KHeapPlacementStrategy}
    {x : FileState} {s t : Kern} {e va perm : Nat} {r : Int}
    (hboot : fosInitialize (initializePaging c) = .ok () s₀)
    (hmem : ReflTransGen MemoryStep ⟨setStrategy st s₀, [.boot], fun _ => none⟩ x)
    (hrun : ReflTransGen (PageStep x.pages) x.kern s) (hpd : (s.envs e).envPageDirectory ≠ 0)
    (hperm : perm < 2 ^ 32) (hk : sysAllocatePage e va perm s = .ok r t) :
    AllocatesAtomically x.pages e va perm s r t ↔ PageArguments va perm :=
  (pageRun_inv (memoryRun_inv hboot hmem).pageInv hrun).atomic_iff hpd hperm hk

/-- The first environment gets a frame -/
def heapPageFrame : Kern := Prog.final (allocateFrame firstEnv)

/-- for the first page of its heap. -/
def heapPage : Kern :=
  Prog.final (mapFrameIn (.heap (1007620 * 4096)) (.heap (1007621 * 4096)) 1018 userHeapStart
    (permUser ||| permWriteable) ((heapPageFrame.cleared 1018).withTable (1007620 * 4096) userHeapStart
      1007621 (permUser ||| permWriteable)))

theorem heapPage_values :
    Prog.value (allocateFrame firstEnv) = some 1018 ∧ heapPageFrame.references 1018 < 65535 ∧
    (firstEnv.envs 3).envPageDirectory ≠ 0 ∧ firstEnv.frames.freeFrameList ≠ [] ∧
    (heapPageFrame.envs 3).envPageDirectory = 1007620 * 4096 ∧
    RoomForTable (heapPageFrame.cleared 1018) (1007620 * 4096) userHeapStart 1007621 ∧
    Prog.value (mapFrameIn (.heap (1007620 * 4096)) (.heap (1007621 * 4096)) 1018 userHeapStart
      (permUser ||| permWriteable) ((heapPageFrame.cleared 1018).withTable (1007620 * 4096) userHeapStart
        1007621 (permUser ||| permWriteable))) = some () := by decide +kernel

theorem heapPage_run :
    sysAllocatePage 3 userHeapStart (permUser ||| permWriteable) firstEnv = .ok 0 heapPage := by
  obtain ⟨halloc, hlt, -, -, hpd, hroom, hin⟩ := heapPage_values
  have halloc : allocateFrame firstEnv = .ok 1018 heapPageFrame := Prog.ok_of_value halloc
  obtain ⟨G, dirs, hdirs, h⟩ := firstEnv_inv.file
  obtain ⟨hok, hq, hf, -⟩ := h.mem.allocateFrame halloc
  have hdir : DirPtr.heap (1007620 * 4096) ∈ dirs.page := hdirs ▸ List.mem_cons_self
  have hclear := hok.clearFrame hdir (firstEnv_inv.scratch.kept (hq.still h.mem).toKept) hf hlt
  have hmap : mapFrame (.heap (1007620 * 4096)) 1018 userHeapStart (permUser ||| permWriteable)
      (heapPageFrame.cleared 1018) = .ok () heapPage := hroom.mapFrame.trans (Prog.ok_of_value hin)
  rw [sysAllocatePage, Prog.bind_of_ok halloc, Prog.ite_run, if_neg (by decide), Prog.ite_run,
    if_neg (by decide), Prog.get_bind_apply, hpd, Prog.bind_of_ok hclear, Prog.bind_of_ok hmap]
  rfl

/-- The first heap page of the first environment. -/
theorem sysAllocatePage_atomic_first : ∃ t,
    sysAllocatePage 3 userHeapStart (permUser ||| permWriteable) firstEnv = .ok 0 t ∧
    (AllocatesAtomically [.heap (1007620 * 4096), .boot] 3 userHeapStart (permUser ||| permWriteable)
      firstEnv 0 t ↔ PageArguments userHeapStart (permUser ||| permWriteable)) := by
  obtain ⟨-, -, hpd, -⟩ := heapPage_values
  exact ⟨heapPage, heapPage_run,
    sysAllocatePage_atomic_iff smallBoot_ok (.single (.store firstEnv_step))
    .refl hpd (by decide) heapPage_run⟩

/-- The first environment asks for a page at address 1: `E_INVAL`, and the free list is a frame
shorter. -/
theorem sysAllocatePage_leaks : ¬ ∀ (x : FileState) (e va perm : Nat) (r : Int) (t : Kern),
    ReflTransGen MemoryStep ⟨setStrategy .firstFit smallBoot, [.boot], fun _ => none⟩ x →
    (x.kern.envs e).envPageDirectory ≠ 0 → x.kern.frames.freeFrameList ≠ [] → perm < 2 ^ 32 →
    sysAllocatePage e va perm x.kern = .ok r t →
    AllocatesAtomically x.pages e va perm x.kern r t := by
  intro hall
  obtain ⟨halloc, -, hpd, hfull, -⟩ := heapPage_values
  have halloc : allocateFrame firstEnv = .ok 1018 heapPageFrame := Prog.ok_of_value halloc
  have hargs : ¬ PageArguments 1 permUser := fun h => absurd h.aligned (by decide)
  have hatomic :=
    hall _ 3 1 permUser eInval _ (.single (.store firstEnv_step)) hpd hfull (by decide)
    (sysAllocatePage_refused hargs halloc)
  have hfree := congrArg List.length (hatomic.failure (by decide)).free
  exact absurd hfree (by decide +kernel)

end Fos
