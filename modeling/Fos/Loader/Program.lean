import Fos.Loader.Image
import Fos.WorkingSet.Transparency

/-!
# A program that is loaded

After the segments the loader clears the modified bits of the pages that are mapped, and adds a page
for the stack. Then the process runs on the image of its program.
-/

namespace Fos

open FlatMemory (Access lastWritten)
open Prog (bind_eq_ok ok_inj)
open Relation (ReflTransGen)

/-- The user pages keep their frames and the words in them; permission bits may be different. -/
structure KeepsFrames (pages : List DirPtr) (s t : Kern) : Prop where
  kept : Kept ∅ s t
  envs : t.envs = s.envs
  frames : t.frames = s.frames
  leaf : ∀ dir ∈ pages, ∀ q < 977920, (t.leaf dir q ≠ 0 → s.leaf dir q ≠ 0) ∧
    (present (t.leaf dir q) ↔ present (s.leaf dir q)) ∧ ppn (t.leaf dir q) = ppn (s.leaf dir q)
  ram : ∀ dir ∈ pages, ∀ q < 977920, present (s.leaf dir q) →
    t.ram (ppn (s.leaf dir q)) = s.ram (ppn (s.leaf dir q))

section

variable {lay : Layout} {pages : List DirPtr} {s : FileState} {a b k : Kern}
  {e c i n q va : Nat} {mem : UserMemory} {fixed : Set Nat}

/-! ## The modified bits -/

/-- The entry of a page of `e` is written back without the bit. -/
theorem clearModifiedPage_run {G : Set Nat} {dirs : Roots} (h : MemOk lay G ∅ dirs ∅ k)
    (hdir : k.pageDirectory e ∈ dirs.page) (hva : va < userTop)
    (hpr : present (k.leaf (k.pageDirectory e) (ppn va))) :
    ∃ x, SlotAt dirs k (k.pageDirectory e) (ppn va) x ∧ clearModifiedPage e va k =
      .ok () (k.setEntry x (clearPerm (k.leaf (k.pageDirectory e) (ppn va)) permModified)) := by
  obtain ⟨q, -, hx, -⟩ := h.walk hdir hva hpr
  have hreach := hx.reach h.directories
  have hentry : k.entry (.heap (q * 4096), ptx va) = _ := hx.entry
  refine ⟨_, hx, ?_⟩
  rw [clearModifiedPage, Prog.get_bind_apply, Prog.bind_of_ok (hx.get h.directories hva).1]
  dsimp only
  rw [Prog.bind_of_ok (readPte_reach hreach (ptx_lt va)), hentry]
  exact writePte_reach hreach (ptx_lt va)

theorem TouchesPage.keepsFrames {dirs : Roots} {dir : DirPtr} {p w : Nat} {words : Nat → Nat}
    (h : TouchesPage dirs ∅ ∅ dir p (ppn (a.leaf dir p)) w words a b) (hpr : present (a.leaf dir p))
    (hw : present w) (he : ppn w = ppn (a.leaf dir p)) (hwords : words = a.ram (ppn (a.leaf dir p))) :
    KeepsFrames dirs.page a b := by
  refine ⟨h.toKept, h.envs, h.frames, fun dir' hdir q hq => ?_, fun dir' hdir q hq hprq => ?_⟩
  · rw [h.leaf dir' hdir q hq]
    split
    case isTrue hc =>
      obtain ⟨rfl, rfl⟩ := hc
      exact ⟨fun _ => present_ne_zero hpr, iff_of_true hw hpr, he⟩
    case isFalse => exact ⟨id, Iff.rfl, rfl⟩
  · by_cases hf : ppn (a.leaf dir' q) = ppn (a.leaf dir p)
    · rw [hf, h.content, hwords]
    · exact h.ram _ (.inr (.inr ⟨dir', hdir, q, hq, hprq, rfl⟩)) hf

theorem StoreInv.clearModifiedPage (hi : StoreInv lay s) (hdir : s.kern.pageDirectory e ∈ s.pages)
    (hva : va < userTop) (hpr : present (s.kern.leaf (s.kern.pageDirectory e) (ppn va)))
    (hk : Fos.clearModifiedPage e va s.kern = .ok () k) :
    StoreInv lay ⟨k, s.pages, s.store⟩ ∧ KeepsFrames s.pages s.kern k := by
  obtain ⟨G, dirs, hpages, h⟩ := hi.file
  have hcount := hi.count
  rw [← hpages] at hdir hcount
  obtain ⟨x, hx, hrun⟩ := clearModifiedPage_run h.mem hdir hva hpr
  obtain ⟨-, rfl⟩ := ok_inj.1 (hk.symm.trans hrun)
  have hw := (present_clearPerm _).2 hpr
  have he := ppn_clearPerm (s.kern.leaf (s.kern.pageDirectory e) (ppn va))
  have hok := h.mem.setPermissions hx (by rw [hx.entry]; exact hpr) hw (by rw [hx.entry]; exact he)
  have ht :=
    h.mem.setPermissions_touches hx (clearPerm (s.kern.leaf (s.kern.pageDirectory e) (ppn va))
    permModified) fun q hq _ => h.mem.leaf_notOwned hdir hx.page hpr q hq
  constructor
  · refine (hi.memory hpages h hok ht.toKept ht.toSameRest ?_).1
    rw [← hpages]
    exact ht.count hpr hw he hcount
  · rw [← hpages]
    exact ht.keepsFrames hpr hw he rfl

/-- What is known of the memory stays. -/
theorem LoadInv.keepsFrames (h : LoadInv lay e fixed c mem s)
    (hi : StoreInv lay ⟨k, s.pages, s.store⟩)
    (hk : KeepsFrames s.pages s.kern k) : LoadInv lay e fixed c mem ⟨k, s.pages, s.store⟩ := by
  have hdir := h.inv.pageDirectory_mem h.room.toWorkingSetOk
  have hd : k.pageDirectory e = s.kern.pageDirectory e := pageDirectory_congr hk.envs
  have henv : k.envs e = s.kern.envs e := congrFun hk.envs e
  -- only flag bits of the entries may differ, never frames or counts
  have hrefs : ∀ f, k.references f = s.kern.references f := by
    intro f
    unfold Kern.references
    rw [hk.frames]
  refine ⟨hi, ⟨h.room.toWorkingSetOk.congr henv fun q hq hpr => ?_, fun q hq hne hnf => ?_, ?_⟩,
    h.zeroPage.kept hk.kept, fun q hq hnf hpr => ?_, fun x v hx hpr hv => ?_, h.backed⟩
  · obtain ⟨-, hiff, hframe⟩ := hk.leaf _ hdir q hq
    exact ⟨hiff.2 hpr, hframe, hrefs _⟩
  · rw [hd] at hne
    rw [henv]
    exact h.room.noneMissing q hq ((hk.leaf _ hdir q hq).1 hne) hnf
  · rw [henv]
    exact h.room.free
  · rw [hd] at hpr
    exact h.known q hq hnf ((hk.leaf _ hdir q hq).2.1.1 hpr)
  · rw [hd] at hpr
    obtain ⟨-, hiff, hframe⟩ := hk.leaf _ hdir _ hx
    have hold := hiff.1 hpr
    rw [← h.shows x v hx hold hv]
    unfold Kern.userByte
    rw [hd, hframe, hk.ram _ hdir _ hx hold]

/-- **The loop** over the working set. -/
theorem LoadInv.clearModified (h : LoadInv lay e fixed c mem s)
    (hn : i + n ≤ (s.kern.envs e).pageWSMaxSize) (hk : Fos.clearModified e n i s.kern = .ok () k) :
    LoadInv lay e fixed c mem ⟨k, s.pages, s.store⟩ := by
  induction n generalizing s i with
  | zero =>
    obtain ⟨-, rfl⟩ := ok_inj.1 hk
    exact h
  | succ n ih =>
    unfold Fos.clearModified at hk
    rw [Prog.get_bind_apply] at hk
    cases hw : (s.kern.envs e).ptrPageWorkingSet[i]? with
    | none =>
      rw [hw] at hk
      cases hk
    | some w =>
      rw [hw] at hk
      obtain ⟨_, k₁, h₁, hk⟩ := bind_eq_ok.1 hk
      rw [Prog.ite_run] at h₁
      split at h₁
      case isTrue hused =>
        -- the page of the entry is mapped
        obtain ⟨hq, -, hpr, -⟩ := h.room.mapped i _ ⟨by omega, w, hw, hused, rfl⟩
        have hva : w.virtualAddress < userTop := (Nat.div_lt_iff_lt_mul (by decide)).1 hq
        have hdir := h.inv.pageDirectory_mem h.room.toWorkingSetOk
        obtain ⟨hi₁, hkeep⟩ := h.inv.clearModifiedPage hdir hva hpr h₁
        refine ih (s := ⟨k₁, s.pages, s.store⟩) (h.keepsFrames hi₁ hkeep) ?_ hk
        show i + 1 + n ≤ (k₁.envs e).pageWSMaxSize
        rw [congrFun hkeep.envs e]
        omega
      case isFalse =>
        obtain ⟨-, rfl⟩ := ok_inj.1 h₁
        exact ih h (by omega) hk

/-! ## The stack -/

/-- The page of the stack that the loader maps. -/
abbrev stackPage : Nat := 977917

theorem stackPage_va : ustackTop - pageSize = stackPage * 4096 := rfl

theorem userByte_setEnv (env : Env)
    (h : env.envPageDirectory = (k.envs e).envPageDirectory) (x : Nat) :
    (k.setEnv e env).userByte e x = k.userByte e x := by
  have hd : (k.setEnv e env).pageDirectory e = k.pageDirectory e := by
    unfold Kern.pageDirectory
    rw [setEnv_self, h]
  unfold Kern.userByte
  rw [hd, leaf_setEnv]
  rfl

/-- The entry is set, and the index advances. -/
theorem envPageWsSetEntry_advance
    (h : envPageWsSetEntry e (a.envs e).pageLastWSIndex va a = .ok () b) :
    advanceLastWSIndex e b = .ok () (a.setEnv e ((a.envs e).enterPage va)) := by
  obtain ⟨-, -, rfl⟩ := envPageWsSetEntry_ok h
  rw [advanceLastWSIndex_run, setEnv_self, setEnv_setEnv]
  rfl

/-- The entry of the stack page in the working set. -/
theorem LoadInv.stackEntry (h : LoadInv lay e fixed (c + 1) mem s) (hnf : stackPage ∉ fixed)
    (hnone : mem (stackPage * 4096) = none) (hadds : AddsPages s.pages e stackPage 1 s.kern a)
    (henvs : a.envs = s.kern.envs) (hb : b = a.setEnv e ((a.envs e).enterPage (stackPage * 4096))) :
    WorkingSetRoom e fixed c b ∧ AddsPages s.pages e stackPage 1 s.kern b := by
  have hz := h.unmapped (q := stackPage) (by decide) hnf hnone
  subst hb
  have hadds' := hadds.setEnv ((a.envs e).enterPage (stackPage * 4096)) rfl
  have henter := hadds'.enters (d := (s.kern.envs e).diskEnvPgdir)
    (j := (s.kern.envs e).tableLastWSIndex) (by decide) (by rw [setEnv_self, henvs]; rfl)
  rw [← ppn_page stackPage] at hz
  exact ⟨henter.room (h.inv.pageDirectory_mem h.room.toWorkingSetOk) h.room hz, hadds'⟩

/-- **The first page of the stack**, where the page file has room for it. -/
theorem LoadInv.mapInitialStack (h : LoadInv lay e fixed (c + 1) mem s) (hnf : stackPage ∉ fixed)
    (hnone : mem (stackPage * 4096) = none) (hk : Fos.mapInitialStack e s.kern = .ok () k)
    (hfree : k.disk.diskFreeFrameList ≠ []) :
    ∃ store, LoadInv lay e fixed c (overlay stackPage 1 (fun _ => 0) mem) ⟨k, s.pages, store⟩ := by
  have hdir := h.inv.pageDirectory_mem h.room.toWorkingSetOk
  unfold Fos.mapInitialStack at hk
  rw [stackPage_va] at hk
  obtain ⟨f, k₁, h₁, hk⟩ := bind_eq_ok.1 hk
  rw [Prog.get_bind_apply] at hk
  obtain ⟨_, k₂, h₂, hk⟩ := bind_eq_ok.1 hk
  obtain ⟨_, k₃, h₃, hk⟩ := bind_eq_ok.1 hk
  rw [Prog.get_bind_apply] at hk
  obtain ⟨_, k₄, h₄, hk⟩ := bind_eq_ok.1 hk
  rw [Prog.bind_of_ok (envPageWsSetEntry_advance h₄)] at hk
  obtain ⟨r, k₅, h₅, hk⟩ := bind_eq_ok.1 hk
  obtain ⟨-, rfl⟩ := ok_inj.1 hk
  obtain ⟨hi₂, hmap⟩ :=
    h.inv.loadtimePage hdir (by decide) (h.unmapped (by decide) hnf hnone) (by decide)
    h₁ h₂
  have hadds := hmap.adds (by decide)
  have hd₂ := hadds.directory
  rw [zeroUser_eq] at h₃
  obtain ⟨hi₃, hwrites⟩ := hi₂.writeUserBytes (s := ⟨k₂, s.pages, s.store⟩)
    (by rw [hd₂]; exact hdir) (hadds.own (by decide)) h₃
  obtain ⟨hroom, hadds₄⟩ := h.stackEntry hnf hnone (hadds.writes hwrites (by decide))
    (hwrites.envs.trans hmap.envs) rfl
  have hi₄ : StoreInv lay ⟨k₃.setEnv e ((k₃.envs e).enterPage (stackPage * 4096)), s.pages, s.store⟩ :=
    hi₃.setEnv rfl rfl
  have hz₄ := h.zeroPage.kept hadds₄.kept
  -- the page of zeros gets into the page file
  have hbytes : ∀ x, ppn x = ppn (stackPage * 4096) →
      pageByte (k₃.kernelPage ptrZeroPage) x = (0 : UInt8).toNat := fun x _ => hz₄.byte x
  rcases hi₄.addPage (f := fun _ => 0) (by decide) hbytes h₅ with ⟨-, -, -, hdisk,
    h0⟩ | ⟨store, hi₅, hstores⟩
  · -- there was room for it
    rw [hdisk] at hfree
    exact absurd h0 (hi₄.file.pfAddEmptyEnvPage_stored (by decide) hfree h₅)
  · rw [ppn_page] at hstores
    refine ⟨store,
      h.add (fun q h1 h2 => ?_) hadds₄ hroom (fun x h1 h2 => ?_) (Nat.le_refl 1) hi₅ hstores⟩
    · obtain rfl : q = stackPage := by omega
      exact ⟨hnf, hnone⟩
    · have hx : ppn x = stackPage := by omega
      have hpr := (hadds.mapped stackPage (Nat.le_refl _) (by decide)).1
      rw [← hd₂, ← hx] at hpr
      rw [userByte_setEnv ((k₃.envs e).enterPage (stackPage * 4096)) rfl,
        hwrites.byte x (by rw [hx]; decide) hpr,
        if_pos]
      have hrange := page_range.1 ⟨h1, h2⟩
      exact hrange

/-! ## The page of zeros -/

/-- No step of the memory writes to the frames of the kernel's own pages. -/
theorem StoreStep.kept {t : FileState} (hi : StoreInv lay s) (h : StoreStep s t) :
    Kept ∅ s.kern t.kern := by
  obtain ⟨G, dirs, hpages, hfile⟩ := hi.file
  cases h with
  | newEnv _ h₁ hd h₂ h₃ henv _ =>
    obtain ⟨p, hnew, rfl, -, hok, hq, -⟩ := hfile.mem.newDirectory h₁ hd h₂
    obtain ⟨-, hst, -, -⟩ := hok.listDirectory List.mem_cons_self h₃
    exact ((hq.still hfile.mem).toKept.trans hst.toKept).setEnv _ _
  | mirror hdir hpos hn hz h₁ hws h₂ =>
    obtain ⟨-, dirs, -, hmir⟩ := hi.mirror hdir hpos hn hz h₁ hws h₂
    exact hmir.toKept
  | mapPage hdir hva hz hperm h₁ h₂ =>
    rw [← hpages] at hdir
    obtain ⟨hok₁, hq, hf, hinfo, -, -, -⟩ := hfile.mem.allocateFrame h₁
    have hst := hq.still hfile.mem
    obtain ⟨G', -, hmap⟩ :=
      hok₁.placeUser hdir hva hf (by unfold Kern.references; rw [hinfo]) hperm h₂
    exact hst.toKept.trans hmap.toKept
  | sharePage hdir hva hz hperm hf hlt hk =>
    rw [← hpages] at hdir hf
    obtain ⟨G', -, -, hmap, -⟩ :=
      hfile.mem.mapUser hdir hva hz (hf.usable hfile.mem) (by omega) hperm hk
    exact hmap.toKept
  | unmapPage hdir hva hk =>
    rw [← hpages] at hdir
    rcases hfile.mem.unmapUser hdir hva hk with ⟨rfl, -⟩ | ⟨-, -, hun⟩
    · exact .refl _ _
    · exact hun.toKept
  | write hdir hva hpr hk =>
    rw [← hpages] at hdir
    obtain ⟨t, hrun, -, ht⟩ := hfile.mem.writeUserPage hdir hva hpr _
    rw [hk] at hrun
    rw [(ok_inj.1 hrun).2]
    exact ht.toKept
  | add hva hk => exact (hi.file.pfAddEnvPage hva hk).2.1.toKept
  | addEmpty hva hk => exact (hi.file.pfAddEmptyEnvPage hva hk).2.1.toKept
  | update hva hf hk =>
    rcases (hi.file.pfUpdateEnvPage hva (hi.pages _) hi.scratch hf (hi.count _ hf) hk).2 with
      ⟨-, -, honly, -⟩ | ⟨-, -, hcopied, -⟩
    · exact honly.toKept
    · rw [hcopied]
      exact ⟨fun _ _ => rfl, fun _ _ => rfl, fun _ _ => rfl, rfl, rfl, fun _ _ => rfl⟩
  | updateFails hva hf _ hk =>
    rcases (hi.file.pfUpdateEnvPage hva (hi.pages _) hi.scratch hf (hi.count _ hf) hk).2 with
      ⟨-, -, honly, -⟩ | ⟨-, -, hcopied, -⟩
    · exact honly.toKept
    · rw [hcopied]
      exact ⟨fun _ _ => rfl, fun _ _ => rfl, fun _ _ => rfl, rfl, rfl, fun _ _ => rfl⟩
  | read hva hpd hpr hk =>
    have hdir := hi.pages _ hpd
    rw [← hpages] at hdir
    rcases hfile.pfReadEnvPage hdir hva hpr with ⟨-, hrun⟩ | ⟨-, t, hrun, -, ht⟩
    · rw [hk] at hrun
      rw [(ok_inj.1 hrun).2]
      exact .refl _ _
    · rw [hk] at hrun
      rw [(ok_inj.1 hrun).2]
      exact ht.toKept
  | remove hva hk => exact (hi.file.pfRemoveEnvPage hva hk).2.1.toKept

theorem MemoryStep.kept {t : FileState} (hi : StoreInv lay s) (h : MemoryStep s t) :
    Kept ∅ s.kern t.kern := by
  cases h with
  | store h => exact h.kept hi
  | addFails hva hk => exact (hi.file.pfAddEnvPage hva hk).2.1.toKept
  | addEmptyFails hva hk => exact (hi.file.pfAddEmptyEnvPage hva hk).2.1.toKept
  | freeEnv hd hk => exact (hi.file.pfFreeEnv hd hk).2.1.toKept
  | workingSet e ws maxSize lastIndex => exact (Kept.refl _ _).setEnv _ _

/-- On a machine whose memory is clear the page of zeros is clear. -/
theorem zeroPage_run {b : BootConfig} {s₀ : Kern} {st : KHeapPlacementStrategy} {t : FileState}
    (hboot : fosInitialize (initializePaging b) = .ok () s₀) (hclear : ∀ i < 1024, b.ram 1 i = 0)
    (hrun : ReflTransGen MemoryStep ⟨setStrategy st s₀, [.boot], fun _ => none⟩ t) :
    ZeroPage t.kern := by
  induction hrun with
  | refl =>
    obtain ⟨-, hr⟩ := fosInitialize_boot hboot
    constructor
    · show ppn (s₀.kernelTable (ppn ptrZeroPage)) = 1
      have hpage : ppn ptrZeroPage = 0xF0001 := by decide
      have himage := b.extended_le
      rw [hpage, hr.offHeap _ (by unfold HeapPage; decide), initializeKernelTable, bootMapRange,
        if_pos (by omega)]
      exact ppn_entryOf (by decide)
    · intro i hi
      show s₀.ram 1 i = 0
      rw [hr.static 1 (by decide), clearedPages, hclear i hi, ite_self]
  | tail hrun hstep ih => exact ih.kept (hstep.kept (memoryRun_inv hboot hrun))

end

end Fos
