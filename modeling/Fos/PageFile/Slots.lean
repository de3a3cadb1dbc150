import Fos.PageTables.Boot
import Fos.PageFile.Tables

/-!
# The slots of the page file

A slot is an environment and one of its user pages, and holds the disk frame of the page. `FileOk`
says that every disk frame is in the free list or in one slot; the calls that add a page and remove
a page keep it, and change no slot but the one they are about.
-/

namespace Fos

open Function (update)
open Prog (bind_eq_ok ok_inj)
open SlotPool (Exact)

/-- The disk frame of page `x.2` of environment `x.1`, zero for a page that is not in the file. -/
def Kern.diskSlot (s : Kern) (x : Nat × Nat) : Nat :=
  if (s.envs x.1).diskEnvPgdir ≠ 0 ∧ x.2 < 977920 then
    s.leaf (.heap (s.envs x.1).diskEnvPgdir) x.2
  else 0

/-- The frames of the page file, `1` to `PAGES_PER_FILE - 1`. -/
def diskPool : Set Nat := {n | 1 ≤ n ∧ n < pagesPerFile}

/-- What the page file relies on and keeps: the kernel heap, a disk directory for each environment,
and the accounts of the disk frames. The page at address zero is not mapped in the kernel. -/
structure FileOk (lay : Layout) (G D : Set Nat) (dirs : Roots) (held : Set Nat) (s : Kern) :
    Prop where
  mem : MemOk lay G D dirs held s
  dir : ∀ e, (s.envs e).diskEnvPgdir ≠ 0 → .heap (s.envs e).diskEnvPgdir ∈ dirs.disk
  inj : ∀ e e', (s.envs e).diskEnvPgdir ≠ 0 →
    (s.envs e).diskEnvPgdir = (s.envs e').diskEnvPgdir → e = e'
  low : ¬ present (s.kernelTable 0)
  exact : Exact diskPool s.diskSlot s.disk.diskFreeFrameList

/-- `FileOk` for some disk directories and some owned pages. -/
def FileInv (lay : Layout) (D : Set Nat) (pages : List DirPtr) (held : Set Nat) (s : Kern) : Prop :=
  ∃ G dirs, dirs.page = pages ∧ FileOk lay G D dirs held s

/-- Nothing changed but the page file: what is in use stands still, and so does all of an
environment but its disk directory. -/
structure FileOnly (pages : List DirPtr) (D held : Set Nat) (s t : Kern) : Prop extends
    Still pages D held s t where
  shares : t.shares = s.shares
  env : ∀ e, t.envs e = { s.envs e with diskEnvPgdir := (t.envs e).diskEnvPgdir }

section

variable {lay : Layout} {G G' D : Set Nat} {dirs dirs' : Roots} {pages : List DirPtr}
  {held held' : Set Nat} {s s' t u : Kern} {dir : DirPtr} {a e n p va w : Nat} {r : Int}

theorem FileOnly.refl (pages : List DirPtr) (D held : Set Nat) (s : Kern) :
    FileOnly pages D held s s :=
  ⟨.refl pages D held s, rfl, fun _ => rfl⟩

theorem FileOnly.trans (h : FileOnly pages D held s t) (h' : FileOnly pages D held t u) :
    FileOnly pages D held s u := by
  refine ⟨h.toStill.trans h'.toStill, h'.shares.trans h.shares, fun e => ?_⟩
  rw [h'.env e, h.env e]

theorem Quiet.fileOnly (hq : Quiet dirs D G G' s t) (h : MemOk lay G D dirs held s) :
    FileOnly dirs.page D held s t := by
  refine ⟨hq.still h, hq.shares, fun e => ?_⟩
  rw [hq.envs]

/-! ## Slots and leaves -/

theorem diskSlot_eq (hd : (s.envs e).diskEnvPgdir ≠ 0) (hp : p < 977920) :
    s.diskSlot (e, p) = s.leaf (.heap (s.envs e).diskEnvPgdir) p := if_pos ⟨hd, hp⟩

theorem diskSlot_none (hd : (s.envs e).diskEnvPgdir = 0) : s.diskSlot (e, p) = 0 :=
  if_neg fun h => h.1 hd

/-- The slots are the same where the directories and their leaves are. -/
theorem diskSlot_congr (he : ∀ e, (t.envs e).diskEnvPgdir = (s.envs e).diskEnvPgdir)
    (hl : ∀ e, (s.envs e).diskEnvPgdir ≠ 0 → ∀ p < 977920,
      t.leaf (.heap (s.envs e).diskEnvPgdir) p = s.leaf (.heap (s.envs e).diskEnvPgdir) p) :
    t.diskSlot = s.diskSlot := by
  funext ⟨e, p⟩
  unfold Kern.diskSlot
  dsimp only
  rw [he e]
  split
  case isTrue hc => exact hl e hc.1 p hc.2
  case isFalse => rfl

/-- A memory step that leaves the disk side alone keeps the file. -/
theorem FileOk.congr {D' : Set Nat} (h : FileOk lay G D dirs held s)
    (hmem : MemOk lay G' D' dirs' held' t) (hdisk : dirs'.disk = dirs.disk) (hr : SameRest dirs s t)
    (hlow : t.kernelTable 0 = s.kernelTable 0) : FileOk lay G' D' dirs' held' t := by
  have hslot : t.diskSlot = s.diskSlot :=
    diskSlot_congr (fun e => by rw [hr.envs]) fun e hd p hp => hr.diskLeaf _ (h.dir e hd) p hp
  refine ⟨hmem, ?_, ?_, ?_, ?_⟩
  · rw [hr.envs, hdisk]
    exact h.dir
  · rw [hr.envs]
    exact h.inj
  · rw [hlow]
    exact h.low
  · rw [hslot, hr.disk]
    exact h.exact

theorem not_heapPage_zero : ¬ HeapPage 0 := by
  unfold HeapPage
  omega

theorem FileOk.quiet (h : FileOk lay G D dirs held s) (hq : Quiet dirs D G G' s t)
    (hmem : MemOk lay G' D dirs held t) :
    FileOk lay G' D dirs held t ∧ t.diskSlot = s.diskSlot :=
  ⟨h.congr hmem rfl hq.sameRest (hq.kernelTable 0 (.inr not_heapPage_zero)),
    diskSlot_congr (fun e => by rw [hq.envs]) fun e hd p hp => hq.leaf _ (.inr (h.dir e hd)) p hp⟩

/-- Nothing can be read through the null pointer. -/
theorem readWord_null (hlow : ¬ present (s.kernelTable 0)) (i : Nat) :
    ∀ (w : Nat) (t : Kern), readWord (0 + 4 * (i % 1024)) s ≠ .ok w t := by
  intro w t h
  have hp : ppn (0 + 4 * (i % 1024)) = 0 := by
    unfold ppn
    omega
  have hm : ¬ s.Mapped (0 + 4 * (i % 1024)) := by
    unfold Kern.Mapped
    rw [hp]
    exact hlow
  rw [readWord_unmapped hm] at h
  cases h

/-! ## The directory of an environment -/

theorem MemOk.setEnv (h : MemOk lay G D dirs held s) (e : Nat) (env : Env) :
    MemOk lay G D dirs held (s.setEnv e env) :=
  h.setRest s.disk _ s.shares

theorem leaf_setEnv (s : Kern) (e : Nat) (env : Env) (dir : DirPtr) (q : Nat) :
    (s.setEnv e env).leaf dir q = s.leaf dir q := rfl

/-- The words of a disk directory right after it was made. -/
def clearedWords (s : Kern) (f j : Nat) : Nat := if 0 ≤ j ∧ j < 0 + 1024 then 0 else s.ram f j

/-- `get_disk_page_directory` where a page is left for the directory. -/
theorem getDiskPageDirectory_new (h0 : (s.envs e).diskEnvPgdir = 0)
    (hkm : kmalloc pageSize s = .ok (p * 4096) t) (ht : HeapTables t) (hp : HeapPage p)
    (hpr : present (t.kernelTable p)) (hlt : t.kframe p < 1048576) :
    Fos.getDiskPageDirectory e s = .ok 0
      ((t.fill (t.kframe p) (clearedWords t (t.kframe p))).setEnv e
        { t.envs e with diskEnvPgdir := p * 4096 }) := by
  rw [Fos.getDiskPageDirectory, Prog.get_bind_apply, Prog.ite_run, if_pos h0, Prog.bind_of_ok hkm,
    Prog.modify_bind_apply, Prog.ite_run, if_neg hp.ne_zero]
  set env' : Env := { t.envs e with diskEnvPgdir := p * 4096 }
  have hmapped : present ((t.setEnv e env').kernelTable p) := hpr
  have hzero := zeroWords_page (k := 0) (n := 1024) hmapped (by omega)
  rw [Nat.mul_zero, Nat.add_zero] at hzero
  have hpa : kheapPhysicalAddress (p * 4096) (t.setEnv e env') =
      .ok (t.kframe p * 4096) (t.setEnv e env') := kheapPhysicalAddress_page ht hp hlt
  rw [Prog.bind_of_ok hpa, Prog.bind_of_ok hzero]
  rfl

/-- The state with a disk directory on page `p`. -/
def Kern.withDiskDirectory (s : Kern) (e p : Nat) : Kern :=
  let t := Prog.final (kmalloc pageSize s)
  (t.fill (t.kframe p) (clearedWords t (t.kframe p))).setEnv e
    { t.envs e with diskEnvPgdir := p * 4096 }

theorem RoomForPage.getDiskPageDirectory (h : RoomForPage s p) (h0 : (s.envs e).diskEnvPgdir = 0) :
    Fos.getDiskPageDirectory e s = .ok 0 (s.withDiskDirectory e p) := by
  obtain ⟨hkm, hp, htables, hpr, hlt⟩ := h
  exact getDiskPageDirectory_new h0 (Prog.ok_of_value hkm) (.of_forall htables) hp hpr hlt

/-- **`get_disk_page_directory`.** No slot changes. -/
theorem FileOk.getDiskPageDirectory (h : FileOk lay G D dirs held s)
    (hk : Fos.getDiskPageDirectory e s = .ok r t) :
    ∃ G' dirs', dirs'.page = dirs.page ∧ FileOk lay G' D dirs' held t ∧
      FileOnly dirs.page D held s t ∧ t.disk = s.disk ∧ t.diskSlot = s.diskSlot := by
  by_cases h0 : (s.envs e).diskEnvPgdir = 0
  case neg =>
    rw [Fos.getDiskPageDirectory, Prog.get_bind_apply, Prog.ite_run, if_neg h0] at hk
    obtain ⟨-, rfl⟩ := ok_inj.1 hk
    exact ⟨G, dirs, rfl, h, .refl _ _ _ _, rfl, rfl⟩
  case pos =>
    have hrun := hk
    rw [Fos.getDiskPageDirectory, Prog.get_bind_apply, Prog.ite_run, if_pos h0] at hrun
    obtain ⟨d, s₁, hkm, hrun⟩ := bind_eq_ok.1 hrun
    rw [Prog.modify_bind_apply, Prog.ite_run] at hrun
    split at hrun
    case isTrue hd0 =>
      -- no page is left: the field stays zero
      obtain ⟨-, rfl⟩ := ok_inj.1 hrun
      subst hd0
      rcases h.mem.kmalloc hkm with ⟨-, rfl⟩ | ⟨b, hwf, hstart, -⟩
      · have hself : s₁.setEnv e { s₁.envs e with diskEnvPgdir := 0 } = s₁ := by
          unfold Kern.setEnv
          rw [← h0, Function.update_eq_self]
        rw [hself]
        exact ⟨G, dirs, rfl, h, .refl _ _ _ _, rfl, rfl⟩
      · have := hwf.start_le
        unfold kernelHeapStart at this
        omega
    case isFalse hd0 =>
      obtain ⟨p, rfl, hpG, hpage, hu, hpde, hq, hok⟩ := h.mem.kmallocPage hkm hd0
      have hpG' : p ∈ insert p G := Set.mem_insert p G
      have hpD : p ∉ D := fun hp => hpG (h.mem.data p hp).1
      rw [getDiskPageDirectory_new h0 hkm hok.heap.tables hpage (hok.owned.mapped p hpG')
        (hok.kframe_lt hpG')] at hk
      obtain ⟨-, rfl⟩ := ok_inj.1 hk
      set env' : Env := { s₁.envs e with diskEnvPgdir := p * 4096 } with henv
      have hn : NewRoot (insert p G) dirs (dirs.addDisk (.heap (p * 4096)) hu.notMem) s₁ p
          (clearedWords s₁ (s₁.kframe p)) :=
        newRoot_disk hpG' hu fun i hi => if_pos ⟨by omega, by omega⟩
      obtain ⟨hok', hq'⟩ := hok.addRoot hn hpD
      set s₂ := s₁.fill (s₁.kframe p) (clearedWords s₁ (s₁.kframe p)) with hs₂
      have hq₂ := hq.trans hq' h.mem.owned hok.owned
      obtain ⟨-, hslot⟩ := h.quiet hq hok
      have hnew : .heap (p * 4096) ∉ dirs := hu.notMem
      have hdirOf : ∀ e', (s₁.envs e').diskEnvPgdir ≠ 0 →
          .heap (s₁.envs e').diskEnvPgdir ∈ dirs.disk := by
        rw [hq.envs]
        exact h.dir
      have henvs : ∀ e', ((s₂.setEnv e env').envs e').diskEnvPgdir =
          if e' = e then p * 4096 else (s₁.envs e').diskEnvPgdir := by
        intro e'
        show (update s₁.envs e env' e').diskEnvPgdir = _
        by_cases he : e' = e
        · rw [he, Function.update_self, if_pos rfl]
        · rw [Function.update_of_ne he, if_neg he]
      have hslots : (s₂.setEnv e env').diskSlot = s₁.diskSlot := by
        funext ⟨e', q⟩
        unfold Kern.diskSlot
        dsimp only
        rw [henvs e']
        by_cases he : e' = e
        · -- the new directory has no table yet
          have hno : ¬ ((s₁.envs e).diskEnvPgdir ≠ 0 ∧ q < 977920) := by
            rw [hq.envs]
            exact fun hc => hc.1 h0
          rw [if_pos he, he, if_neg hno]
          split
          case isTrue hc => exact hn.leaf_new hc.2
          case isFalse => rfl
        · rw [if_neg he]
          split
          case isTrue hc => exact hq'.leaf _ (.inr (hdirOf e' hc.1)) q hc.2
          case isFalse => rfl
      refine ⟨_, dirs.addDisk (.heap (p * 4096)) hnew, rfl, ⟨hok'.setEnv e env', ?_, ?_, ?_, ?_⟩,
        ⟨⟨⟨?_, ?_, ?_, ?_, ?_, ?_⟩, ?_, ?_, ?_⟩, hq₂.shares, ?_⟩, hq₂.disk, ?_⟩
      · intro e' he'
        rw [henvs e'] at he' ⊢
        by_cases he : e' = e
        · rw [if_pos he]
          exact List.mem_cons_self
        · rw [if_neg he] at he' ⊢
          exact .tail _ (hdirOf e' he')
      · intro e₁ e₂ h1 h2
        rw [henvs e₁] at h1 h2
        rw [henvs e₂] at h2
        have hne : ∀ e', (s₁.envs e').diskEnvPgdir ≠ p * 4096 := by
          intro e' he'
          exact hnew (.inr (he' ▸ hdirOf e' (by rw [he']; exact hd0)))
        by_cases he₁ : e₁ = e
        · by_cases he₂ : e₂ = e
          · rw [he₁, he₂]
          · rw [if_pos he₁, if_neg he₂] at h2
            exact absurd h2.symm (hne e₂)
        · rw [if_neg he₁] at h1 h2
          by_cases he₂ : e₂ = e
          · rw [if_pos he₂] at h2
            exact absurd h2 (hne e₁)
          · rw [if_neg he₂] at h2
            rw [hq.envs] at h1 h2
            exact h.inj e₁ e₂ h1 h2
      · show ¬ present (s₁.kernelTable 0)
        rw [hq.kernelTable 0 (.inr not_heapPage_zero)]
        exact h.low
      · rw [hslots, hslot]
        show Exact _ _ s₁.disk.diskFreeFrameList
        rw [hq.disk]
        exact h.exact
      · exact (hq₂.still h.mem).data
      · exact (hq₂.still h.mem).offHeap
      · exact hq₂.kernelDirectory
      · exact hq₂.numberOfFrames
      · exact hq₂.strategy
      · exact (hq₂.still h.mem).static
      · exact (hq₂.still h.mem).leaf
      · exact (hq₂.still h.mem).ram
      · exact (hq₂.still h.mem).info
      · intro e'
        show update s₁.envs e env' e' = _
        by_cases he : e' = e
        · subst he
          show update s₁.envs e' env' e' = { s.envs e' with
            diskEnvPgdir := (update s₁.envs e' env' e').diskEnvPgdir }
          rw [Function.update_self, henv, hq.envs]
        · show update s₁.envs e env' e' = { s.envs e' with
            diskEnvPgdir := (update s₁.envs e env' e').diskEnvPgdir }
          rw [Function.update_of_ne he, hq.envs]
      · rw [hslots, hslot]

/-! ## Writing a slot -/

/-- Writing the entry of a page changes the slot of that page alone. -/
theorem FileOk.diskSlot_write (h : FileOk lay G D dirs held s) (hd : (s.envs e).diskEnvPgdir ≠ 0)
    (he : DiskEntry dirs s (.heap (s.envs e).diskEnvPgdir) p a) (w : Nat) :
    (s.setEntry (.heap a, p % 1024) w).diskSlot = update s.diskSlot (e, p) w := by
  funext ⟨e', q⟩
  have hleaf : ∀ e', (s.envs e').diskEnvPgdir ≠ 0 → q < 977920 →
      (s.setEntry (.heap a, p % 1024) w).diskSlot (e', q) =
        if (.heap (s.envs e').diskEnvPgdir : DirPtr) = .heap (s.envs e).diskEnvPgdir ∧ q = p then w
        else s.diskSlot (e', q) := by
    intro e' hd' hq
    rw [diskSlot_eq (s := s) hd' hq,
      ← h.mem.directories.setTable_leaf (.inr he.mem) he.page he.table w (.inr (h.dir e' hd')) hq]
    exact diskSlot_eq (s := s.setEntry (.heap a, p % 1024) w) hd' hq
  by_cases hx : (e', q) = (e, p)
  · obtain ⟨rfl, rfl⟩ := Prod.mk.inj hx
    rw [Function.update_self, hleaf e' hd he.page, if_pos ⟨rfl, rfl⟩]
  · rw [Function.update_of_ne hx]
    by_cases hc : (s.envs e').diskEnvPgdir ≠ 0 ∧ q < 977920
    · rw [hleaf e' hc.1 hc.2, if_neg]
      rintro ⟨hdir, rfl⟩
      exact hx (by rw [h.inj e' e hc.1 (DirPtr.heap.inj hdir)])
    · unfold Kern.diskSlot
      dsimp only
      rw [if_neg hc]
      exact if_neg hc

/-- A slot is written while the free list changes with it. -/
theorem FileOk.write (h : FileOk lay G D dirs held s) (hd : (s.envs e).diskEnvPgdir ≠ 0)
    (he : DiskEntry dirs s (.heap (s.envs e).diskEnvPgdir) p a) (w : Nat) (d : Disk)
    (hex : Exact diskPool (update s.diskSlot (e, p) w) d.diskFreeFrameList) :
    FileOk lay G D dirs held ((s.setDisk d).setEntry (.heap a, p % 1024) w) ∧
      FileOnly dirs.page D held s ((s.setDisk d).setEntry (.heap a, p % 1024) w) ∧
      ((s.setDisk d).setEntry (.heap a, p % 1024) w).diskSlot = update s.diskSlot (e, p) w := by
  have hslot : ((s.setDisk d).setEntry (.heap a, p % 1024) w).diskSlot =
      update s.diskSlot (e, p) w := h.diskSlot_write hd he w
  have hmem := (h.mem.setDiskEntry he w).setRest d s.envs s.shares
  have hstill := h.mem.setDiskEntry_still he w
  refine ⟨⟨hmem, h.dir, h.inj, h.low, ?_⟩, ⟨⟨⟨hstill.data, hstill.offHeap,
    hstill.kernelDirectory, hstill.numberOfFrames, hstill.strategy, hstill.static⟩, hstill.leaf,
    hstill.ram, hstill.info⟩, rfl, fun _ => rfl⟩, hslot⟩
  rw [hslot]
  exact hex

/-! ## Adding a page -/

/-- How an add came by the disk frame of slot `x`: no frame was left, or the slot had one, or the
head of the free list went into it. -/
inductive AddsFrame (x : Nat × Nat) (s t : Kern) : Option Nat → Prop
  | full (h0 : s.diskSlot x = 0) (hfree : s.disk.diskFreeFrameList = []) (hd : t.disk = s.disk)
      (hs : t.diskSlot = s.diskSlot) : AddsFrame x s t none
  | old (h0 : s.diskSlot x ≠ 0) (hd : t.disk = s.disk) (hs : t.diskSlot = s.diskSlot) :
      AddsFrame x s t (some (s.diskSlot x))
  | new {n : Nat} {rest : List Nat} (h0 : s.diskSlot x = 0)
      (hfree : s.disk.diskFreeFrameList = n :: rest)
      (hd : t.disk = { s.disk with diskFreeFrameList := rest })
      (hs : t.diskSlot = update s.diskSlot x n) : AddsFrame x s t (some n)

theorem AddsFrame.ne_zero {o : Option Nat} (ha : AddsFrame (e, p) s t o)
    (hex : Exact diskPool s.diskSlot s.disk.diskFreeFrameList) (ho : o = some n) : n ≠ 0 := by
  cases ha with
  | full => cases ho
  | old h0 => exact Option.some.inj ho ▸ h0
  | new h0 hfree =>
    obtain rfl := Option.some.inj ho
    exact hex.ne_zero (hex.freePool _ (by rw [hfree]; exact List.mem_cons_self))

/-- The search for a slot, or the space for it, after the directory is there. -/
theorem FileOk.getDiskPageTable (h : FileOk lay G D dirs held s) (hva : va < userTop)
    (hk : Fos.getDiskPageTable (s.envs e).diskEnvPgdir va true s = .ok a t) :
    (a = 0 ∧ ¬ present (t.kernelTable 0)) ∨ ∃ G', FileOk lay G' D dirs held t ∧
      FileOnly dirs.page D held s t ∧ t.disk = s.disk ∧ t.diskSlot = s.diskSlot ∧
      (t.envs e).diskEnvPgdir ≠ 0 ∧
      DiskEntry dirs t (.heap (t.envs e).diskEnvPgdir) (ppn va) a := by
  by_cases hd : (s.envs e).diskEnvPgdir = 0
  · -- the null directory cannot be read
    obtain ⟨w, s₁, hread, -⟩ := bind_eq_ok.1 hk
    rw [hd, show pdx va = pdx va % 1024 by unfold pdx; omega] at hread
    exact absurd hread (readWord_null h.low _ w s₁)
  · rcases h.mem.getDiskPageTable (h.dir e hd) hva hk with ⟨rfl, rfl⟩ | ⟨G', hok, hq, hent⟩
    · exact .inl ⟨rfl, h.low⟩
    · obtain ⟨hok', hslot⟩ := h.quiet hq hok
      refine .inr ⟨G', hok', hq.fileOnly h.mem, hq.disk, hslot, ?_, ?_⟩
      · rw [hq.envs]
        exact hd
      · rw [hq.envs]
        exact hent

/-- **The common part of the adds.** -/
theorem FileInv.pfDiskFrame {o : Option Nat} (h : FileInv lay D pages held s) (hva : va < userTop)
    (hk : Fos.pfDiskFrame e va s = .ok o t) :
    FileInv lay D pages held t ∧ FileOnly pages D held s t ∧ AddsFrame (e, ppn va) s t o := by
  obtain ⟨G, dirs, rfl, h⟩ := h
  have hnk : ¬ kernelBase ≤ va := by
    unfold userTop at hva
    unfold kernelBase
    omega
  obtain ⟨-, hlt⟩ := pdx_user hva
  rw [Fos.pfDiskFrame, Prog.ite_run, if_neg hnk] at hk
  obtain ⟨r, s₁, h₁, hk⟩ := bind_eq_ok.1 hk
  obtain ⟨G₁, dirs₁, hpages, hok₁, hf₁, hdisk₁, hslot₁⟩ := h.getDiskPageDirectory h₁
  rw [Prog.get_bind_apply] at hk
  obtain ⟨a, s₂, h₂, hk⟩ := bind_eq_ok.1 hk
  obtain ⟨dfn, s₃, h₃, hk⟩ := bind_eq_ok.1 hk
  rcases hok₁.getDiskPageTable hva h₂ with ⟨rfl, hlow⟩ | ⟨G₂, hok₂, hf₂, hdisk₂, hslot₂, hd, hent⟩
  · exact absurd h₃ (readWord_null hlow _ dfn s₃)
  · rw [show ptx va = ppn va % 1024 from rfl, hent.read hok₂.mem.directories] at h₃
    obtain ⟨rfl, rfl⟩ := ok_inj.1 h₃
    rw [← hpages]
    have hf : FileOnly dirs₁.page D held s s₂ := (hpages ▸ hf₁).trans hf₂
    have hdisk : s₂.disk = s.disk := hdisk₂.trans hdisk₁
    have hslot : s₂.diskSlot = s.diskSlot := hslot₂.trans hslot₁
    -- the page has a disk frame, or one is taken if any is free
    rw [← diskSlot_eq hd hlt, Prog.ite_run] at hk
    split at hk
    case isFalse h0 =>
      obtain ⟨rfl, rfl⟩ := ok_inj.1 hk
      refine ⟨⟨G₂, dirs₁, rfl, hok₂⟩, hf, ?_⟩
      rw [hslot] at h0 ⊢
      exact .old h0 hdisk hslot
    case isTrue h0 =>
      obtain ⟨o', s₄, h₄, hk⟩ := bind_eq_ok.1 hk
      rw [allocateDiskFrame, Prog.get_bind_apply] at h₄
      cases hfree : s₂.disk.diskFreeFrameList with
      | nil =>
        rw [hfree] at h₄
        obtain ⟨rfl, rfl⟩ := ok_inj.1 h₄
        obtain ⟨rfl, rfl⟩ := ok_inj.1 hk
        refine ⟨⟨G₂, dirs₁, rfl, hok₂⟩, hf, ?_⟩
        rw [hslot] at h0
        rw [hdisk] at hfree
        exact .full h0 hfree hdisk hslot
      | cons n rest =>
        rw [hfree] at h₄
        obtain ⟨rfl, rfl⟩ := ok_inj.1 h₄
        dsimp only at hk
        rw [show ptx va = ppn va % 1024 from rfl] at hk
        have hwrite : writeWord (a + 4 * (ppn va % 1024)) n
            (s₂.setDisk { s₂.disk with diskFreeFrameList := rest }) = .ok () _ :=
          DiskEntry.write (hok₂.mem.setRest { s₂.disk with diskFreeFrameList := rest } s₂.envs
            s₂.shares).directories ⟨hent.mem, hent.page, hent.table⟩ n
        rw [Prog.bind_of_ok hwrite] at hk
        obtain ⟨rfl, rfl⟩ := ok_inj.1 hk
        have hex := hok₂.exact
        rw [hfree] at hex
        obtain ⟨hok₃, hf₃, hslot₃⟩ := hok₂.write hd hent n
          { s₂.disk with diskFreeFrameList := rest } (hex.take h0)
        refine ⟨⟨G₂, dirs₁, rfl, hok₃⟩, hf.trans hf₃, ?_⟩
        rw [hslot] at h0
        rw [hdisk] at hfree
        refine .new h0 hfree ?_ ?_
        · rw [← hdisk]
          rfl
        · rw [← hslot]
          exact hslot₃

end

end Fos
