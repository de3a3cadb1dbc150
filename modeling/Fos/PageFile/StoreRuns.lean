import Fos.PageFile.Contents
import Fos.PageTables.Mirror

/-!
# Runs of the page file

Environments are created, their pages are mapped, shared, unmapped and written, and the page file is
called in between. One step lemma carries the store along; what a read returns and what an update
leaves alone follow in every state reached.
-/

namespace Fos

open Function (update)
open Prog (bind_eq_ok ok_inj)
open Relation (ReflTransGen)

/-- The state of a run: the page directories, and the store that the page file should show. -/
structure FileState where
  kern : Kern
  pages : List DirPtr
  store : PageStore

/-- The page directory of an environment. -/
abbrev Kern.pageDirectory (s : Kern) (e : Nat) : DirPtr := .heap (s.envs e).envPageDirectory

/-- One step. The calls on the page file say what they do to the store; the other steps leave it. -/
inductive StoreStep : FileState → FileState → Prop
  | newEnv {s : FileState} {e d cr3 : Nat} {env : Env} {k₁ k₂ k₃ : Kern}
      (h0 : (s.kern.envs e).diskEnvPgdir = 0) (h₁ : createUserDirectory s.kern = .ok d k₁)
      (hd : d ≠ 0) (h₂ : initializeDirectory d k₁ = .ok () k₂)
      (h₃ : listDirectory d cr3 k₂ = .ok () k₃) (henv : env.envPageDirectory = d)
      (hdisk : env.diskEnvPgdir = 0) :
      StoreStep s ⟨k₃.setEnv e env, .heap d :: s.pages, s.store⟩
  | mirror {s : FileState} {dir : DirPtr} {n ws : Nat} {k₁ k₂ : Kern} (hdir : dir ∈ s.pages)
      (hpos : 0 < n) (hn : n * 12 ≤ 4294963200)
      (hz : ∀ q ∈ workingSetMirror n, q < 977920 → s.kern.leaf dir q = 0)
      (h₁ : createUserPageWS n s.kern = .ok ws k₁) (hws : ws ≠ 0)
      (h₂ : mirrorPages dir (workingSetPages n) ws userPagesWSStart k₁ = .ok () k₂) :
      StoreStep s ⟨k₂, s.pages, s.store⟩
  | mapPage {s : FileState} {dir : DirPtr} {f va perm : Nat} {k₁ k₂ : Kern} (hdir : dir ∈ s.pages)
      (hva : va < userTop) (hz : s.kern.leaf dir (ppn va) = 0) (hperm : perm < 4096)
      (h₁ : allocateFrame s.kern = .ok f k₁) (h₂ : mapFrame dir f va perm k₁ = .ok () k₂) :
      StoreStep s ⟨k₂, s.pages, s.store⟩
  | sharePage {s : FileState} {dir : DirPtr} {f va perm : Nat} {k : Kern} (hdir : dir ∈ s.pages)
      (hva : va < userTop) (hz : s.kern.leaf dir (ppn va) = 0) (hperm : perm < 4096)
      (hf : UserFrame s.pages s.kern f) (hlt : s.kern.references f < 65534)
      (h : mapFrame dir f va perm s.kern = .ok () k) : StoreStep s ⟨k, s.pages, s.store⟩
  | unmapPage {s : FileState} {dir : DirPtr} {va : Nat} {k : Kern} (hdir : dir ∈ s.pages)
      (hva : va < userTop) (h : unmapFrame dir va s.kern = .ok () k) :
      StoreStep s ⟨k, s.pages, s.store⟩
  | write {s : FileState} {dir : DirPtr} {va : Nat} {page : Nat → Nat} {k : Kern}
      (hdir : dir ∈ s.pages) (hva : va < userTop) (hpr : present (s.kern.leaf dir (ppn va)))
      (h : writeUserPage dir va page s.kern = .ok () k) : StoreStep s ⟨k, s.pages, s.store⟩
  | add {s : FileState} {e va : Nat} {dataSrc : Nat → Nat} {k : Kern} (hva : va < userTop)
      (h : pfAddEnvPage e va dataSrc s.kern = .ok 0 k) :
      StoreStep s ⟨k, s.pages, Store.put s.store (e, ppn va) dataSrc⟩
  | addEmpty {s : FileState} {e va : Nat} {k : Kern} (hva : va < userTop)
      (h : pfAddEmptyEnvPage e va 0 s.kern = .ok 0 k) :
      StoreStep s ⟨k, s.pages, Store.touch s.store (e, ppn va)⟩
  | update {s : FileState} {e va f : Nat} {k : Kern} (hva : va < userTop)
      (hf : UserFrame s.pages s.kern f) (h : pfUpdateEnvPage e va f s.kern = .ok 0 k) :
      StoreStep s ⟨k, s.pages, Store.put s.store (e, ppn va) (s.kern.ram f)⟩
  | updateFails {s : FileState} {e va f : Nat} {r : Int} {k : Kern} (hva : va < userTop)
      (hf : UserFrame s.pages s.kern f) (hr : r ≠ 0) (h : pfUpdateEnvPage e va f s.kern = .ok r k) :
      StoreStep s ⟨k, s.pages, s.store⟩
  | read {s : FileState} {e va : Nat} {r : Int} {k : Kern} (hva : va < userTop)
      (hpd : (s.kern.envs e).envPageDirectory ≠ 0)
      (hpr : present (s.kern.leaf (s.kern.pageDirectory e) (ppn va)))
      (h : pfReadEnvPage e e va s.kern = .ok r k) : StoreStep s ⟨k, s.pages, s.store⟩
  | remove {s : FileState} {e va : Nat} {k : Kern} (hva : va < userTop)
      (h : pfRemoveEnvPage e va s.kern = .ok () k) :
      StoreStep s ⟨k, s.pages, Store.erase s.store (e, ppn va)⟩

/-- What a run carries on. -/
structure StoreInv (lay : Layout) (s : FileState) : Prop where
  file : FileInv lay ∅ s.pages ∅ s.kern
  pages : ∀ e, (s.kern.envs e).envPageDirectory ≠ 0 → s.kern.pageDirectory e ∈ s.pages
  scratch : Scratch lay s.kern
  count : ∀ f, UserFrame s.pages s.kern f → s.kern.references f < 65535
  shows : Shows s.store s.kern

section

variable {lay : Layout} {G G' D : Set Nat} {dirs : Roots} {pages : List DirPtr} {held : Set Nat}
  {s t : FileState} {k k' : Kern} {m : PageStore} {dir : DirPtr} {e f p va w : Nat} {r : Int}

/-! ## The steps that leave the file alone -/

theorem StoreInv.newEnv {d cr3 : Nat} {env : Env} {k₁ k₂ k₃ : Kern} (hi : StoreInv lay s)
    (h0 : (s.kern.envs e).diskEnvPgdir = 0) (h₁ : createUserDirectory s.kern = .ok d k₁)
    (hd : d ≠ 0) (h₂ : initializeDirectory d k₁ = .ok () k₂)
    (h₃ : listDirectory d cr3 k₂ = .ok () k₃) (henv : env.envPageDirectory = d)
    (hdisk : env.diskEnvPgdir = 0) :
    StoreInv lay ⟨k₃.setEnv e env, .heap d :: s.pages, s.store⟩ ∧
      (k₃.setEnv e env).diskSlot = s.kern.diskSlot := by
  obtain ⟨⟨G, dirs, hpages, h⟩, hpd, hscr, hcount, hshows⟩ := hi
  obtain ⟨p, hnew, rfl, -, hok₂, hq, hleaf₂⟩ := h.mem.newDirectory h₁ hd h₂
  obtain ⟨hok₃, hst₃, hr₃, -⟩ := hok₂.listDirectory List.mem_cons_self h₃
  have hr₃' : SameRest dirs k₂ k₃ := ⟨hr₃.disk, hr₃.envs, hr₃.shares, hr₃.diskLeaf⟩
  have hr : SameRest dirs s.kern k₃ := hq.sameRest.trans hr₃'
  have hst₂ := hq.still h.mem
  have hlow : k₃.kernelTable 0 = s.kern.kernelTable 0 := by
    rw [hst₃.offHeap 0 not_heapPage_zero, hst₂.offHeap 0 not_heapPage_zero]
  have hok := h.congr hok₃ rfl hr hlow
  -- the environment had no page file, and has none now
  have hd0 : (k₃.envs e).diskEnvPgdir = 0 := by
    rw [hr.envs]
    exact h0
  obtain ⟨hok', hslot⟩ := hok.setEnv (hdisk.trans hd0.symm)
  rw [← hpages] at hpd hcount ⊢
  refine ⟨⟨⟨_, _, rfl, hok'⟩, fun e' he' => ?_, ?_, ?_, ?_⟩, hslot.trans (hr.diskSlot h)⟩
  · show (.heap (update k₃.envs e env e').envPageDirectory : DirPtr) ∈ _
    have he'' : (update k₃.envs e env e').envPageDirectory ≠ 0 := he'
    by_cases he : e' = e
    · rw [he, Function.update_self, henv]
      exact List.mem_cons_self
    · rw [Function.update_of_ne he, hr.envs] at he'' ⊢
      exact .tail _ (hpd e' he'')
  · have hscr₃ : Scratch lay k₃ := (hscr.kept hst₂.toKept).kept hst₃.toKept
    exact ⟨hscr₃.dynamic, hscr₃.table, hscr₃.unmapped⟩
  · refine hst₃.count fun f hf => ?_
    obtain ⟨dir', hdir', q, hq', hpr, rfl⟩ := hf
    rcases List.mem_cons.1 hdir' with rfl | hold
    · -- the new directory maps nothing
      rw [hleaf₂ q hq'] at hpr
      exact absurd hpr not_present_zero
    · exact hst₂.count hcount _ ⟨dir', hold, q, hq', hpr, rfl⟩
  · refine hshows.congr (hslot.trans (hr.diskSlot h)) ?_
    show k₃.disk.words = _
    rw [hr.disk]

/-- A step of the memory alone leaves the slots of the page file. -/
theorem StoreInv.memory (hi : StoreInv lay s) (hpages : dirs.page = s.pages)
    (h : FileOk lay G ∅ dirs ∅ s.kern) (hmem : MemOk lay G' ∅ dirs ∅ k) (hk : Kept ∅ s.kern k)
    (hr : SameRest dirs s.kern k)
    (hc : ∀ f, UserFrame s.pages k f → k.references f < 65535) :
    StoreInv lay ⟨k, s.pages, s.store⟩ ∧ k.diskSlot = s.kern.diskSlot := by
  refine ⟨⟨⟨G', dirs, hpages, h.congr hmem rfl hr (hk.offHeap 0 not_heapPage_zero)⟩, ?_,
    hi.scratch.kept hk, hc, hi.shows.congr (hr.diskSlot h) (by rw [hr.disk])⟩, hr.diskSlot h⟩
  show ∀ e, (k.envs e).envPageDirectory ≠ 0 → .heap (k.envs e).envPageDirectory ∈ s.pages
  rw [hr.envs]
  exact hi.pages

/-- The mirror of a working set. -/
theorem StoreInv.mirror {n ws : Nat} {k₁ k₂ : Kern} (hi : StoreInv lay s) (hdir : dir ∈ s.pages)
    (hpos : 0 < n) (hn : n * 12 ≤ 4294963200)
    (hz : ∀ q ∈ workingSetMirror n, q < 977920 → s.kern.leaf dir q = 0)
    (h₁ : createUserPageWS n s.kern = .ok ws k₁) (hws : ws ≠ 0)
    (h₂ : mirrorPages dir (workingSetPages n) ws userPagesWSStart k₁ = .ok () k₂) :
    (StoreInv lay ⟨k₂, s.pages, s.store⟩ ∧ k₂.diskSlot = s.kern.diskSlot) ∧
      ∃ dirs : Roots, dirs.page = s.pages ∧ MirrorsWorkingSet dirs dir n s.kern k₂ := by
  obtain ⟨G, dirs, hpages, h⟩ := hi.file
  have hcount := hi.count
  rw [← hpages] at hdir hcount
  obtain ⟨G', hok, hmir⟩ := h.mem.mirrorWorkingSet hdir hpos hn hz h₁ hws h₂
  refine ⟨hi.memory hpages h hok hmir.toKept hmir.toSameRest ?_, dirs, hpages, hmir⟩
  rw [← hpages]
  exact hmir.count hcount

theorem PlacesUser.count_lt (h : PlacesUser dirs D held dir p f w k k') (hw : w < 4096)
    (hc : ∀ g, UserFrame dirs.page k g → k.references g < 65535) :
    ∀ g, UserFrame dirs.page k' g → k'.references g < 65535 := by
  rintro g ⟨dir', hdir', q, hq, hpr, rfl⟩
  rw [h.leaf dir' hdir' q hq] at hpr ⊢
  by_cases hgf : ppn (if dir' = dir ∧ q = p then entryOf f w else k.leaf dir' q) = f
  · rw [hgf, h.countSelf]
    decide
  · split at hpr
    case isTrue hcase =>
      rw [if_pos hcase] at hgf
      exact absurd (ppn_entryOf hw) hgf
    case isFalse hcase =>
      rw [if_neg hcase] at hgf ⊢
      have hg : UserFrame dirs.page k (ppn (k.leaf dir' q)) := ⟨dir', hdir', q, hq, hpr, rfl⟩
      exact Nat.lt_of_le_of_lt (h.count _ hg.inUse hgf) (hc _ hg)

/-- A new frame at a user page, whatever the page mapped before. -/
theorem StoreInv.placePage {va perm : Nat} {k₁ k₂ : Kern} (hi : StoreInv lay s)
    (hdir : dir ∈ s.pages)
    (hva : va < userTop) (hperm : perm < 4096) (h₁ : allocateFrame s.kern = .ok f k₁)
    (h₂ : mapFrame dir f va perm k₁ = .ok () k₂) :
    (StoreInv lay ⟨k₂, s.pages, s.store⟩ ∧ k₂.diskSlot = s.kern.diskSlot) ∧ k₂.envs = s.kern.envs ∧
      ∀ dir' ∈ s.pages, ∀ q < 977920, k₂.leaf dir' q =
        if dir' = dir ∧ q = ppn va then entryOf f perm else s.kern.leaf dir' q := by
  obtain ⟨G, dirs, hpages, h⟩ := hi.file
  have hcount := hi.count
  rw [← hpages] at hdir hcount
  obtain ⟨hok₁, hq, hf, hinfo, -, -, -⟩ := h.mem.allocateFrame h₁
  have hst := hq.still h.mem
  -- the frame is new, so nothing refers to it
  have hrefs : k₁.references f = 0 := by
    unfold Kern.references
    rw [hinfo]
  obtain ⟨G', hok₂, hmap⟩ := hok₁.placeUser hdir hva hf hrefs hperm h₂
  have hnone : insert f (∅ : Set Nat) \ {f} = ∅ := by simp
  rw [hnone] at hok₂
  have hc₁ := hst.count hcount
  refine ⟨hi.memory hpages h hok₂ (hst.toKept.trans hmap.toKept)
    (hq.sameRest.trans hmap.toSameRest) ?_, ?_, ?_⟩
  · rw [← hpages]
    exact hmap.count_lt hperm hc₁
  · rw [hmap.envs, hq.envs]
  · rw [← hpages]
    intro dir' hdir' q hq'
    rw [hmap.leaf dir' hdir' q hq', hst.leaf dir' hdir' q hq']

theorem StoreInv.sharePage {va perm : Nat} (hi : StoreInv lay s) (hdir : dir ∈ s.pages)
    (hva : va < userTop) (hz : s.kern.leaf dir (ppn va) = 0) (hperm : perm < 4096)
    (hf : UserFrame s.pages s.kern f) (hlt : s.kern.references f < 65534)
    (h : mapFrame dir f va perm s.kern = .ok () k) :
    StoreInv lay ⟨k, s.pages, s.store⟩ ∧ k.diskSlot = s.kern.diskSlot := by
  obtain ⟨G, dirs, hpages, hfile⟩ := hi.file
  have hcount := hi.count
  rw [← hpages] at hdir hcount hf
  obtain ⟨G', -, hok, hmap, -⟩ :=
    hfile.mem.mapUser hdir hva hz (hf.usable hfile.mem) (by omega) hperm h
  rw [Set.empty_sdiff] at hok
  refine hi.memory hpages hfile hok hmap.toKept hmap.toSameRest ?_
  rw [← hpages]
  exact hmap.count hperm hlt hcount

theorem StoreInv.unmapPage {va : Nat} (hi : StoreInv lay s) (hdir : dir ∈ s.pages)
    (hva : va < userTop) (h : unmapFrame dir va s.kern = .ok () k) :
    StoreInv lay ⟨k, s.pages, s.store⟩ ∧ k.diskSlot = s.kern.diskSlot := by
  obtain ⟨G, dirs, hpages, hfile⟩ := hi.file
  have hcount := hi.count
  rw [← hpages] at hdir hcount
  rcases hfile.mem.unmapUser hdir hva h with ⟨rfl, -⟩ | ⟨-, hok, hun⟩
  · exact ⟨hi, rfl⟩
  · refine hi.memory hpages hfile hok hun.toKept hun.toSameRest ?_
    rw [← hpages]
    exact hun.count hcount

theorem TouchesPage.count {words : Nat → Nat} (h : TouchesPage dirs D held dir p f w words k k')
    (hpr : present (k.leaf dir p)) (hw : present w) (he : ppn w = ppn (k.leaf dir p))
    (hc : ∀ g, UserFrame dirs.page k g → k.references g < 65535) :
    ∀ g, UserFrame dirs.page k' g → k'.references g < 65535 := by
  intro g hg
  unfold Kern.references
  rw [h.frames]
  exact hc g ((h.userFrame_iff hpr hw he).1 hg)

theorem StoreInv.write {va : Nat} {page : Nat → Nat} (hi : StoreInv lay s) (hdir : dir ∈ s.pages)
    (hva : va < userTop) (hpr : present (s.kern.leaf dir (ppn va)))
    (h : writeUserPage dir va page s.kern = .ok () k) :
    StoreInv lay ⟨k, s.pages, s.store⟩ ∧ k.diskSlot = s.kern.diskSlot := by
  obtain ⟨G, dirs, hpages, hfile⟩ := hi.file
  have hcount := hi.count
  rw [← hpages] at hdir hcount
  obtain ⟨t, hrun, hok, ht⟩ := hfile.mem.writeUserPage hdir hva hpr page
  rw [h] at hrun
  obtain ⟨-, rfl⟩ := ok_inj.1 hrun
  refine hi.memory hpages hfile hok ht.toKept ht.toSameRest ?_
  rw [← hpages]
  exact ht.count hpr ((present_setPerm _).2 hpr) (ppn_setPerm _ (by decide)) hcount

theorem StoreInv.read {va : Nat} (hi : StoreInv lay s) (hva : va < userTop)
    (hpd : (s.kern.envs e).envPageDirectory ≠ 0)
    (hpr : present (s.kern.leaf (s.kern.pageDirectory e) (ppn va)))
    (h : pfReadEnvPage e e va s.kern = .ok r k) :
    StoreInv lay ⟨k, s.pages, s.store⟩ ∧ k.diskSlot = s.kern.diskSlot := by
  obtain ⟨G, dirs, hpages, hfile⟩ := hi.file
  have hcount := hi.count
  have hdir := hi.pages e hpd
  rw [← hpages] at hdir hcount
  rcases hfile.pfReadEnvPage hdir hva hpr with ⟨-, hrun⟩ | ⟨-, t, hrun, hok, ht⟩
  · rw [h] at hrun
    obtain ⟨-, rfl⟩ := ok_inj.1 hrun
    exact ⟨hi, rfl⟩
  · rw [h] at hrun
    obtain ⟨-, rfl⟩ := ok_inj.1 hrun
    refine hi.memory hpages hfile hok.mem ht.toKept ht.toSameRest ?_
    rw [← hpages]
    exact ht.count hpr ((present_clearPerm _).2 hpr) (ppn_clearPerm _) hcount

/-! ## The calls that change the file -/

/-- A call that touches nothing but the file. -/
theorem StoreInv.fileOnly (hi : StoreInv lay s) (hfile : FileInv lay ∅ s.pages ∅ k)
    (hf : FileOnly s.pages ∅ ∅ s.kern k) (hm : Shows m k) : StoreInv lay ⟨k, s.pages, m⟩ := by
  refine ⟨hfile, fun e he => ?_, hi.scratch.kept hf.toKept, hf.toStill.count hi.count, hm⟩
  show (.heap (k.envs e).envPageDirectory : DirPtr) ∈ s.pages
  have he' : (k.envs e).envPageDirectory ≠ 0 := he
  rw [hf.env e] at he' ⊢
  exact hi.pages e he'

theorem StoreInv.add {va : Nat} {src : Nat → Nat} (hi : StoreInv lay s) (hva : va < userTop)
    (h : pfAddEnvPage e va src s.kern = .ok 0 k) :
    StoreInv lay ⟨k, s.pages, Store.put s.store (e, ppn va) src⟩ := by
  obtain ⟨hfile, hf, ha⟩ := hi.file.pfAddEnvPage hva h
  refine hi.fileOnly hfile hf ?_
  cases ha with
  | done hn _ hs hw => exact hi.shows.put hfile.exact hn hs hw

theorem StoreInv.addEmpty {va : Nat} (hi : StoreInv lay s) (hva : va < userTop)
    (h : pfAddEmptyEnvPage e va 0 s.kern = .ok 0 k) :
    StoreInv lay ⟨k, s.pages, Store.touch s.store (e, ppn va)⟩ := by
  obtain ⟨hfile, hf, ha⟩ := hi.file.pfAddEmptyEnvPage hva h
  refine hi.fileOnly hfile hf ?_
  cases ha with
  | done hn hold hs hw => exact hi.shows.touch hn hold hs hw

theorem StoreInv.remove {va : Nat} (hi : StoreInv lay s) (hva : va < userTop)
    (h : pfRemoveEnvPage e va s.kern = .ok () k) :
    StoreInv lay ⟨k, s.pages, Store.erase s.store (e, ppn va)⟩ := by
  obtain ⟨hfile, hf, hc⟩ := hi.file.pfRemoveEnvPage hva h
  exact hi.fileOnly hfile hf (hi.shows.erase hc)

theorem StoreInv.updateFails {va : Nat} (hi : StoreInv lay s) (hva : va < userTop)
    (hf : UserFrame s.pages s.kern f) (hr : r ≠ 0)
    (h : pfUpdateEnvPage e va f s.kern = .ok r k) : StoreInv lay ⟨k, s.pages, s.store⟩ := by
  obtain ⟨hfile, hcase⟩ := hi.file.pfUpdateEnvPage hva (hi.pages e) hi.scratch hf (hi.count f hf) h
  rcases hcase with ⟨-, -, hfo, hd, hs, -⟩ | ⟨h0, -⟩
  · exact hi.fileOnly hfile hfo (hi.shows.congr hs (by rw [hd]))
  · exact absurd h0 hr

theorem StoreInv.update {va : Nat} (hi : StoreInv lay s) (hva : va < userTop)
    (hf : UserFrame s.pages s.kern f) (h : pfUpdateEnvPage e va f s.kern = .ok 0 k) :
    StoreInv lay ⟨k, s.pages, Store.put s.store (e, ppn va) (s.kern.ram f)⟩ := by
  obtain ⟨hfile, hcase⟩ := hi.file.pfUpdateEnvPage hva (hi.pages e) hi.scratch hf (hi.count f hf) h
  rcases hcase with ⟨h0, -⟩ | ⟨-, hn, rfl, hs, hl⟩
  · exact absurd h0 (by decide)
  · refine ⟨hfile, hi.pages, ⟨hi.scratch.dynamic, hi.scratch.table, hi.scratch.unmapped⟩,
      fun g hg => ?_, hi.shows.put hfile.exact hn ?_ rfl⟩
    · rw [references_copied]
      exact hi.count g ((userFrame_congr hl).1 hg)
    · rw [hs, Function.update_eq_self]

theorem StoreStep.inv (hi : StoreInv lay s) (h : StoreStep s t) : StoreInv lay t := by
  cases h with
  | newEnv h0 h₁ hd h₂ h₃ henv hdisk => exact (hi.newEnv h0 h₁ hd h₂ h₃ henv hdisk).1
  | mirror hdir hpos hn hz h₁ hws h₂ => exact (hi.mirror hdir hpos hn hz h₁ hws h₂).1.1
  | mapPage hdir hva hz hperm h₁ h₂ => exact (hi.placePage hdir hva hperm h₁ h₂).1.1
  | sharePage hdir hva hz hperm hf hlt h => exact (hi.sharePage hdir hva hz hperm hf hlt h).1
  | unmapPage hdir hva h => exact (hi.unmapPage hdir hva h).1
  | write hdir hva hpr h => exact (hi.write hdir hva hpr h).1
  | add hva h => exact hi.add hva h
  | addEmpty hva h => exact hi.addEmpty hva h
  | update hva hf h => exact hi.update hva hf h
  | updateFails hva hf hr h => exact hi.updateFails hva hf hr h
  | read hva hpd hpr h => exact (hi.read hva hpd hpr h).1
  | remove hva h => exact hi.remove hva h

end

/-! ## Boot -/

/-- After boot no user page is mapped. -/
theorem leaf_boot {c : BootConfig} {s : Kern} (hr : BootRest c s) {p : Nat} (hp : p < 977920) :
    s.leaf .boot p = 0 := by
  refine leaf_of_none (if_neg ?_)
  show ¬ present (s.kernelDirectory (p / 1024))
  rw [hr.kernelDirectory, initializeKernelDirectory_user (by omega)]
  exact not_present_zero

theorem scratch_boot {c : BootConfig} {s : Kern} (hr : BootRest c s) : Scratch c.layout s := by
  have h2 := c.envs_fit
  have hzero : initializeKernelTable c scratchPage = 0 := by
    unfold initializeKernelTable bootMapRange scratchPage
    rw [if_neg (by omega), if_neg (by omega), if_neg (by omega)]
  refine ⟨⟨by decide, by decide, by decide, by decide, hzero⟩, ?_, ?_⟩
  · rw [hr.kernelDirectory]
    exact initializeKernelDirectory_present (.inr ⟨by omega, by omega⟩)
  · rw [hr.offHeap scratchPage (by unfold HeapPage scratchPage; omega), hzero]

theorem storeInv_boot {c : BootConfig} {s : Kern}
    (hb : fosInitialize (initializePaging c) = .ok () s) (st : KHeapPlacementStrategy) :
    StoreInv c.layout ⟨setStrategy st s, [.boot], fun _ => none⟩ := by
  obtain ⟨-, hr⟩ := fosInitialize_boot hb
  have hr' : BootRest c (setStrategy st s) := ⟨hr.disk, hr.envs, hr.offHeap, hr.kernelDirectory,
    hr.static⟩
  have hzero : ∀ e, (setStrategy st s).envs e = emptyEnv := by
    intro e
    rw [hr'.envs]
  refine ⟨fileInv_boot hb st, fun e he => ?_, scratch_boot hr', ?_, fun x => ?_, fun x w hx => ?_⟩
  · exact absurd (by rw [hzero e]; rfl) he
  · rintro f ⟨dir, hdir, p, hp, hpr, -⟩
    obtain rfl := List.mem_singleton.1 hdir
    rw [leaf_boot hr' hp] at hpr
    exact absurd hpr not_present_zero
  · refine iff_of_true rfl (diskSlot_none (p := x.2) (e := x.1) ?_)
    rw [hzero]
    rfl
  · cases hx

/-! ## The law -/

/-- **What every state of a run shows of the page file.** -/
structure PageFileLaw (s : FileState) : Prop where
  /-- A read refuses a page that is not in the file. -/
  absent : ∀ e va, va < userTop → (s.kern.envs e).envPageDirectory ≠ 0 →
    present (s.kern.leaf (s.kern.pageDirectory e) (ppn va)) → s.store (e, ppn va) = none →
    pfReadEnvPage e e va s.kern = .ok ePageNotExistInPf s.kern
  /-- A read of a page in the file succeeds, and the page has the words put there last. -/
  read : ∀ e va o, va < userTop → (s.kern.envs e).envPageDirectory ≠ 0 →
    present (s.kern.leaf (s.kern.pageDirectory e) (ppn va)) → s.store (e, ppn va) = some o →
    ∃ t, pfReadEnvPage e e va s.kern = .ok 0 t ∧
      present (t.leaf (s.kern.pageDirectory e) (ppn va)) ∧
      ∀ words, o = some words → t.ram (ppn (t.leaf (s.kern.pageDirectory e) (ppn va))) = words
  /-- An update succeeds on the pages of the file only. -/
  updateResult : ∀ e va f r t, va < userTop → UserFrame s.pages s.kern f →
    pfUpdateEnvPage e va f s.kern = .ok r t →
    (r = 0 ∧ s.store (e, ppn va) ≠ none) ∨ (r = ePageNotExistInPf ∧ s.store (e, ppn va) = none)
  /-- An update for an environment with a disk directory leaves the counts, the free list and every
  mapping. -/
  update : ∀ e va f r t, va < userTop → UserFrame s.pages s.kern f →
    (s.kern.envs e).diskEnvPgdir ≠ 0 → pfUpdateEnvPage e va f s.kern = .ok r t →
    t.references = s.kern.references ∧ t.frames.freeFrameList = s.kern.frames.freeFrameList ∧
      t.kernelTable = s.kern.kernelTable ∧ t.kernelDirectory = s.kern.kernelDirectory ∧
      ∀ dir ∈ s.pages, ∀ p < 977920, t.leaf dir p = s.kern.leaf dir p
  /-- For one without, it makes the directory; the user mappings, the kernel mappings off the heap
  and the frames of user pages stay. -/
  updateNew : ∀ e va f r t, va < userTop → UserFrame s.pages s.kern f →
    (s.kern.envs e).diskEnvPgdir = 0 → pfUpdateEnvPage e va f s.kern = .ok r t →
    (∀ dir ∈ s.pages, ∀ p < 977920, t.leaf dir p = s.kern.leaf dir p) ∧
      (∀ p, ¬ HeapPage p → t.kernelTable p = s.kern.kernelTable p) ∧
      ∀ g, UserFrame s.pages s.kern g →
        t.references g = s.kern.references g ∧ t.ram g = s.kern.ram g

theorem StoreInv.law {lay : Layout} {s : FileState} (hi : StoreInv lay s) : PageFileLaw s := by
  -- what a read does in either case
  have hread : ∀ e va, va < userTop → (s.kern.envs e).envPageDirectory ≠ 0 →
      present (s.kern.leaf (s.kern.pageDirectory e) (ppn va)) →
      (s.kern.diskSlot (e, ppn va) = 0 ∧
        pfReadEnvPage e e va s.kern = .ok ePageNotExistInPf s.kern) ∨
      (s.kern.diskSlot (e, ppn va) ≠ 0 ∧ ∃ t, pfReadEnvPage e e va s.kern = .ok 0 t ∧
        present (t.leaf (s.kern.pageDirectory e) (ppn va)) ∧
        t.ram (ppn (t.leaf (s.kern.pageDirectory e) (ppn va))) =
          s.kern.disk.words (s.kern.diskSlot (e, ppn va))) := by
    intro e va hva hpd hpr
    obtain ⟨G, dirs, hpages, hfile⟩ := hi.file
    have hdir := hi.pages e hpd
    rw [← hpages] at hdir
    rcases hfile.pfReadEnvPage hdir hva hpr with h | ⟨h0, t, hrun, -, ht⟩
    · exact .inl h
    · have hleaf := ht.leaf _ hdir _ (pdx_user hva).2
      rw [if_pos ⟨rfl, rfl⟩] at hleaf
      refine .inr ⟨h0, t, hrun, ?_, ?_⟩
      · rw [hleaf]
        exact (present_clearPerm _).2 hpr
      · rw [hleaf, ppn_clearPerm]
        exact ht.content
  refine ⟨fun e va hva hpd hpr hx => ?_, fun e va o hva hpd hpr hx => ?_,
    fun e va f r t hva hf h => ?_, fun e va f r t hva hf hd h => ?_,
    fun e va f r t hva hf hd h => ?_⟩
  · rcases hread e va hva hpd hpr with ⟨-, hrun⟩ | ⟨h0, -⟩
    · exact hrun
    · exact absurd ((hi.shows.absent _).1 hx) h0
  · rcases hread e va hva hpd hpr with ⟨h0, -⟩ | ⟨-, t, hrun, hprt, hwords⟩
    · rw [(hi.shows.absent _).2 h0] at hx
      cases hx
    · refine ⟨t, hrun, hprt, ?_⟩
      rintro words rfl
      rw [hwords]
      exact hi.shows.words _ _ hx
  · obtain ⟨-, hcase⟩ := hi.file.pfUpdateEnvPage hva (hi.pages e) hi.scratch hf (hi.count f hf) h
    rcases hcase with ⟨hr, h0, -⟩ | ⟨hr, h0, -⟩
    · exact .inr ⟨hr, (hi.shows.absent _).2 h0⟩
    · exact .inl ⟨hr, fun hx => h0 ((hi.shows.absent _).1 hx)⟩
  · obtain ⟨-, hcase⟩ := hi.file.pfUpdateEnvPage hva (hi.pages e) hi.scratch hf (hi.count f hf) h
    rcases hcase with ⟨-, -, -, -, -, hsame⟩ | ⟨-, -, rfl, -, hl⟩
    · rw [hsame hd]
      exact ⟨rfl, rfl, rfl, rfl, fun _ _ _ _ => rfl⟩
    · exact ⟨funext (references_copied _ _ _), rfl, rfl, rfl, hl⟩
  · obtain ⟨-, hcase⟩ := hi.file.pfUpdateEnvPage hva (hi.pages e) hi.scratch hf (hi.count f hf) h
    rcases hcase with ⟨-, -, hfo, -⟩ | ⟨-, h0, -⟩
    · refine ⟨hfo.leaf, hfo.offHeap, fun g hg => ⟨?_, hfo.ram g hg.inUse⟩⟩
      unfold Kern.references
      rw [hfo.info g hg.inUse]
    · exact absurd (diskSlot_none hd) h0

/-- **The page file is a store.** From boot under any placement strategy of the kernel heap, through
any run over any environments, reads return what was put last, and updates leave memory alone. -/
theorem pageFile_store {c : BootConfig} {s₀ : Kern} {st : KHeapPlacementStrategy} {s : FileState}
    (hboot : fosInitialize (initializePaging c) = .ok () s₀)
    (hrun : ReflTransGen StoreStep ⟨setStrategy st s₀, [.boot], fun _ => none⟩ s) : PageFileLaw s :=
  (Prog.invariant (storeInv_boot hboot st) (fun _ _ hi h => h.inv hi) hrun).law

/-! ## Pages in the file -/

/-- The part of `pf_add_env_page` after the disk table is known. -/
def addToTable (t va : Nat) (dataSrc : Nat → Nat) : K Int := do
  match ← (do
    let dfn ← readWord (t + 4 * ptx va)
    if dfn = 0 then do
      match ← allocateDiskFrame with
      | none => return none
      | some dfn => do
        writeWord (t + 4 * ptx va) dfn
        return some dfn
    else return some dfn : K (Option Nat)) with
  | none => return eNoPageFileSpace
  | some dfn => do
    writeDiskPage dfn dataSrc
    return 0

/-- `pf_add_env_page` once it is known which disk table it finds. -/
theorem pfAddEnvPage_table {s s₁ s₂ : Kern} {e va t : Nat} {r : Int} {src : Nat → Nat}
    (hva : va < kernelBase) (hdir : getDiskPageDirectory e s = .ok r s₁)
    (htable : getDiskPageTable (s₁.envs e).diskEnvPgdir va true s₁ = .ok t s₂) :
    pfAddEnvPage e va src s = addToTable t va src s₂ := by
  have h : pfDiskFrame e va s = (do
    let dfn ← readWord (t + 4 * ptx va)
    if dfn = 0 then do
      match ← allocateDiskFrame with
      | none => return none
      | some dfn => do
        writeWord (t + 4 * ptx va) dfn
        return some dfn
    else return some dfn : K (Option Nat)) s₂ := by
    unfold pfDiskFrame
    rw [Prog.ite_run, if_neg (Nat.not_le.2 hva)]
    refine (Prog.bind_of_ok hdir).trans ?_
    exact Prog.bind_of_ok htable
  unfold pfAddEnvPage addToTable
  refine (Prog.bind_run ..).trans ?_
  rw [h]
  exact (Prog.bind_run ..).symm

/-- A page is allocated for the page directory of the first environment, at 0xF6004000, -/
def firstPage : Kern := Prog.final (kmalloc pageSize (setStrategy .firstFit smallBoot))

/-- and filled, -/
def firstDirectory : Kern :=
  firstPage.fill (firstPage.kframe 1007620) (directoryWords firstPage (firstPage.kframe 1007620))

/-- and the environment gets it. -/
def firstEnv : Kern :=
  (Prog.final (listDirectory (1007620 * 4096) 0 firstDirectory)).setEnv 3
    ⟨1007620 * 4096, 0, 5, 0, [], 0, 0⟩

theorem firstEnv_values :
    Prog.value (kmalloc pageSize (setStrategy .firstFit smallBoot)) = some (1007620 * 4096) ∧
    ((setStrategy .firstFit smallBoot).envs 3).diskEnvPgdir = 0 ∧
    present (firstPage.kernelTable 1007620) ∧
    Prog.value (listDirectory (1007620 * 4096) 0 firstDirectory) = some () := by decide +kernel

theorem firstEnv_step : StoreStep ⟨setStrategy .firstFit smallBoot, [.boot], fun _ => none⟩
    ⟨firstEnv, [.heap (1007620 * 4096), .boot], fun _ => none⟩ := by
  obtain ⟨hkm, hdisk, hpr, hlist⟩ := firstEnv_values
  exact .newEnv hdisk (Prog.ok_of_value hkm) (by decide) (initializeDirectory_page hpr)
    (Prog.ok_of_value hlist) rfl rfl

theorem firstEnv_inv : StoreInv smallMachine.layout
    ⟨firstEnv, [.heap (1007620 * 4096), .boot], fun _ => none⟩ :=
  firstEnv_step.inv (storeInv_boot smallBoot_ok _)

/-- The disk directory and the disk table for the stack of the first environment. -/
def fileTable : Kern :=
  (firstEnv.withDiskDirectory 3 1007621).withTable (1007621 * 4096) 0xEEBFB000 1007622 0

/-- Two pages of the stack are in the page file. -/
def fileKern : Kern :=
  let k := Prog.final (addToTable (1007622 * 4096) 0xEEBFB000 (fun _ => 0) fileTable)
  Prog.final (pfAddEnvPage 3 0xEEBFC000 (fun _ => 0) k)

theorem fileKern_values :
    (firstEnv.envs 3).diskEnvPgdir = 0 ∧ RoomForPage firstEnv 1007621 ∧
    ((firstEnv.withDiskDirectory 3 1007621).envs 3).diskEnvPgdir = 1007621 * 4096 ∧
    RoomForTable (firstEnv.withDiskDirectory 3 1007621) (1007621 * 4096) 0xEEBFB000 1007622 ∧
    Prog.value (addToTable (1007622 * 4096) 0xEEBFB000 (fun _ => 0) fileTable) = some 0 ∧
    Prog.value (pfAddEnvPage 3 0xEEBFC000 (fun _ => 0)
      (Prog.final (addToTable (1007622 * 4096) 0xEEBFB000 (fun _ => 0) fileTable))) = some 0 := by
  decide +kernel

/-- What the page file has then. -/
def fileStored : PageStore :=
  Store.put (Store.put (fun _ => none) (3, ppn 0xEEBFB000) fun _ => 0) (3, ppn 0xEEBFC000) fun _ => 0

theorem fileKern_stored : ReflTransGen StoreStep
    ⟨setStrategy .firstFit smallBoot, [.boot], fun _ => none⟩
    ⟨fileKern, [.heap (1007620 * 4096), .boot], fileStored⟩ := by
  obtain ⟨hnone, hpage, hdisk, hroom, hfirst, hsecond⟩ := fileKern_values
  have hdir := hpage.getDiskPageDirectory hnone
  have htable : getDiskPageTable ((firstEnv.withDiskDirectory 3 1007621).envs 3).diskEnvPgdir 0xEEBFB000
      true (firstEnv.withDiskDirectory 3 1007621) = .ok (1007622 * 4096) fileTable := by
    rw [hdisk]
    exact hroom.getDiskPageTable
  have hadd := (pfAddEnvPage_table (by decide) hdir htable).trans (Prog.ok_of_value hfirst)
  exact .tail (.tail (.tail .refl firstEnv_step) (.add (by decide) hadd))
    (.add (by decide) (Prog.ok_of_value hsecond))

/-- A page is mapped at `va` -/
def mappedKern (va : Nat) : Kern :=
  Prog.final (mapFrameIn (.heap (1007620 * 4096)) (.heap (1007623 * 4096)) 1016 va
    (permUser ||| permWriteable) ((Prog.final (allocateFrame fileKern)).withTable (1007620 * 4096) va
      1007623 (permUser ||| permWriteable)))

/-- and filled. -/
def writtenKern (va : Nat) : Kern :=
  Prog.final (writeUserPage (.heap (1007620 * 4096)) va (fun _ => 7) (mappedKern va))

theorem writtenKern_values : Prog.value (allocateFrame fileKern) = some 1016 ∧
    ∀ va ∈ [0xEEBFC000, 0xEEBFD000, userHeapStart], va < userTop ∧
      fileKern.leaf (.heap (1007620 * 4096)) (ppn va) = 0 ∧
      RoomForTable (Prog.final (allocateFrame fileKern)) (1007620 * 4096) va 1007623 ∧
      Prog.value (mapFrameIn (.heap (1007620 * 4096)) (.heap (1007623 * 4096)) 1016 va
        (permUser ||| permWriteable) ((Prog.final (allocateFrame fileKern)).withTable (1007620 * 4096)
          va 1007623 (permUser ||| permWriteable))) = some () ∧
      present ((mappedKern va).leaf (.heap (1007620 * 4096)) (ppn va)) ∧
      Prog.value (writeUserPage (.heap (1007620 * 4096)) va (fun _ => 7) (mappedKern va)) = some () := by
  decide +kernel

theorem writtenKern_stored {va : Nat}
    (hva : va = 0xEEBFC000 ∨ va = 0xEEBFD000 ∨ va = userHeapStart) : ReflTransGen StoreStep
    ⟨setStrategy .firstFit smallBoot, [.boot], fun _ => none⟩
    ⟨writtenKern va, [.heap (1007620 * 4096), .boot], fileStored⟩ := by
  obtain ⟨halloc, hvalues⟩ := writtenKern_values
  obtain ⟨huser, hz, hroom, hin, hpr, hwrite⟩ := hvalues va (by simpa using hva)
  have hmap : mapFrame (.heap (1007620 * 4096)) 1016 va (permUser ||| permWriteable)
      (Prog.final (allocateFrame fileKern)) = .ok () (mappedKern va) :=
    hroom.mapFrame.trans (Prog.ok_of_value hin)
  exact .tail (.tail fileKern_stored
    (.mapPage List.mem_cons_self huser hz (by decide) (Prog.ok_of_value halloc) hmap))
    (.write List.mem_cons_self huser hpr (Prog.ok_of_value hwrite))

/-- The page file gets what the page was filled with, -/
def updatedKern : Kern := Prog.final (pfUpdateEnvPage 3 0xEEBFC000 1016 (writtenKern 0xEEBFC000))

/-- and the page is read back. -/
def readKern : Kern := Prog.final (pfReadEnvPage 3 3 0xEEBFC000 updatedKern)

theorem readKern_values :
    present ((writtenKern 0xEEBFC000).leaf (.heap (1007620 * 4096)) (ppn 0xEEBFC000)) ∧
    ppn ((writtenKern 0xEEBFC000).leaf (.heap (1007620 * 4096)) (ppn 0xEEBFC000)) = 1016 ∧
    Prog.value (pfUpdateEnvPage 3 0xEEBFC000 1016 (writtenKern 0xEEBFC000)) = some 0 ∧
    (updatedKern.envs 3).envPageDirectory ≠ 0 ∧
    present (updatedKern.leaf (updatedKern.pageDirectory 3) (ppn 0xEEBFC000)) ∧
    Prog.value (pfReadEnvPage 3 3 0xEEBFC000 updatedKern) = some 0 ∧
    (writtenKern 0xEEBFC000).ram 1016 5 = 7 := by decide +kernel

/-- A page is added, mapped, filled, updated and read. -/
theorem pageFile_store_first : ∃ s : FileState,
    ReflTransGen StoreStep ⟨setStrategy .firstFit smallBoot, [.boot], fun _ => none⟩ s ∧
    s.kern = readKern ∧
    (∃ words, s.store (3, ppn 0xEEBFC000) = some (some words) ∧ words 5 = 7) ∧ PageFileLaw s := by
  obtain ⟨hpr, hframe, hupdate, hpd, hpr', hread, h7⟩ := readKern_values
  have hf : UserFrame [.heap (1007620 * 4096), .boot] (writtenKern 0xEEBFC000) 1016 :=
    ⟨.heap (1007620 * 4096), List.mem_cons_self, ppn 0xEEBFC000, by decide, hpr, hframe⟩
  have hrun : ReflTransGen StoreStep ⟨setStrategy .firstFit smallBoot, [.boot], fun _ => none⟩
      ⟨readKern, [.heap (1007620 * 4096), .boot],
        Store.put fileStored (3, ppn 0xEEBFC000) ((writtenKern 0xEEBFC000).ram 1016)⟩ :=
    .tail (.tail (writtenKern_stored (.inl rfl)) (.update (by decide) hf (Prog.ok_of_value hupdate)))
      (.read (by decide) hpd hpr' (Prog.ok_of_value hread))
  have hstored : Store.put fileStored (3, ppn 0xEEBFC000) ((writtenKern 0xEEBFC000).ram 1016)
      (3, ppn 0xEEBFC000) = some (some ((writtenKern 0xEEBFC000).ram 1016)) := Store.put_self _
  exact ⟨_, hrun, rfl, ⟨_, hstored, h7⟩, pageFile_store smallBoot_ok hrun⟩

/-- The first update of an environment makes its disk directory. -/
theorem RoomForPage.pfUpdateEnvPage {s : Kern} {e va f p : Nat} (h : RoomForPage s p)
    (h0 : (s.envs e).diskEnvPgdir = 0) (hva : va < kernelBase) :
    Fos.pfUpdateEnvPage e va f s = Fos.pfUpdateEnvPage e va f (s.withDiskDirectory e p) := by
  have hdisk : ((s.withDiskDirectory e p).envs e).diskEnvPgdir = p * 4096 := by
    unfold Kern.withDiskDirectory Kern.setEnv
    dsimp only
    rw [Function.update_self]
  have hdir : Fos.getDiskPageDirectory e (s.withDiskDirectory e p) = .ok 0 (s.withDiskDirectory e p) := by
    rw [Fos.getDiskPageDirectory, Prog.get_bind_apply, Prog.ite_run, hdisk, if_neg h.2.1.ne_zero]
    rfl
  unfold Fos.pfUpdateEnvPage
  rw [Prog.ite_run, Prog.ite_run, if_neg (Nat.not_le.2 hva), if_neg (Nat.not_le.2 hva),
    Prog.bind_of_ok (h.getDiskPageDirectory h0), Prog.bind_of_ok hdir]

/-- The first heap page of the environment gets a frame -/
def firstFrame : Kern := Prog.final (allocateFrame firstEnv)

/-- and is mapped; the environment has no page in the file yet. -/
def firstMapped : Kern :=
  Prog.final (mapFrameIn (.heap (1007620 * 4096)) (.heap (1007621 * 4096)) 1018 userHeapStart
    (permUser ||| permWriteable)
    (firstFrame.withTable (1007620 * 4096) userHeapStart 1007621 (permUser ||| permWriteable)))

theorem firstMapped_values :
    Prog.value (allocateFrame firstEnv) = some 1018 ∧
    firstEnv.leaf (.heap (1007620 * 4096)) (ppn userHeapStart) = 0 ∧
    RoomForTable firstFrame (1007620 * 4096) userHeapStart 1007621 ∧
    Prog.value (mapFrameIn (.heap (1007620 * 4096)) (.heap (1007621 * 4096)) 1018 userHeapStart
      (permUser ||| permWriteable) (firstFrame.withTable (1007620 * 4096) userHeapStart 1007621
        (permUser ||| permWriteable))) = some () ∧
    present (firstMapped.leaf (.heap (1007620 * 4096)) (ppn userHeapStart)) ∧
    ppn (firstMapped.leaf (.heap (1007620 * 4096)) (ppn userHeapStart)) = 1018 ∧
    RoomForPage firstMapped 1007622 ∧ (firstMapped.envs 3).diskEnvPgdir = 0 ∧
    Prog.value (pfUpdateEnvPage 3 userHeapStart 1018 (firstMapped.withDiskDirectory 3 1007622)) =
      some ePageNotExistInPf ∧
    (Prog.final (pfUpdateEnvPage 3 userHeapStart 1018
      (firstMapped.withDiskDirectory 3 1007622))).frames.freeFrameList.head? ≠
        firstMapped.frames.freeFrameList.head? := by decide +kernel

/-- The update makes the disk directory, on a page of the kernel heap. -/
theorem storeRun_first : ∃ s : FileState,
    ReflTransGen StoreStep ⟨setStrategy .firstFit smallBoot, [.boot], fun _ => none⟩ s ∧
    UserFrame s.pages s.kern 1018 ∧
    ∃ t, pfUpdateEnvPage 3 userHeapStart 1018 s.kern = .ok ePageNotExistInPf t ∧
      t.frames.freeFrameList.head? ≠ s.kern.frames.freeFrameList.head? := by
  obtain ⟨halloc, hz, hroom, hin, hpr, hframe, hpage, hdisk, hupdate, hhead⟩ := firstMapped_values
  have hmap : mapFrame (.heap (1007620 * 4096)) 1018 userHeapStart (permUser ||| permWriteable) firstFrame =
      .ok () firstMapped := hroom.mapFrame.trans (Prog.ok_of_value hin)
  have hstep : StoreStep ⟨firstEnv, [.heap (1007620 * 4096), .boot], fun _ => none⟩
      ⟨firstMapped, [.heap (1007620 * 4096), .boot], fun _ => none⟩ :=
    .mapPage List.mem_cons_self (by decide) hz (by decide) (Prog.ok_of_value halloc) hmap
  refine ⟨⟨firstMapped, [.heap (1007620 * 4096), .boot], fun _ => none⟩,
    .tail (.tail .refl firstEnv_step) hstep, ?_, _,
    (hpage.pfUpdateEnvPage hdisk (by decide)).trans (Prog.ok_of_value hupdate), hhead⟩
  exact ⟨.heap (1007620 * 4096), List.mem_cons_self, ppn userHeapStart, by decide, hpr, hframe⟩

/-- An update for an environment without a disk directory takes a frame for one. -/
theorem pfUpdate_takes_frame : ¬ ∀ s : FileState,
    ReflTransGen StoreStep ⟨setStrategy .firstFit smallBoot, [.boot], fun _ => none⟩ s →
    ∀ e va f r t, va < userTop → UserFrame s.pages s.kern f →
    pfUpdateEnvPage e va f s.kern = .ok r t →
    t.frames.freeFrameList = s.kern.frames.freeFrameList := by
  intro hall
  obtain ⟨s, hrun, hf, t, hupdate, hfree⟩ := storeRun_first
  exact hfree (by rw [hall s hrun 3 userHeapStart 1018 _ t (by decide) hf hupdate])

end Fos
