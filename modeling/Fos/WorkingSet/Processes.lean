import Fos.WorkingSet.Fifo
import Fos.WorkingSet.Transparency

/-!
# Processes

Several environments read, write and fault in any order. A fault of one of them may evict its own
pages only, so each environment sees a flat memory of its own, whatever the others do.
-/

namespace Fos

open FlatMemory (Access Consistent lastWritten replay)
open Function (update)
open Prog (bind_eq_ok ok_inj)
open Relation (ReflTransGen)

/-- The environments other than `e` keep their records, the place of their part of the page file
aside. -/
def KeepsOthers (e : Nat) (s t : Kern) : Prop :=
  ∀ e', e' ≠ e → t.envs e' = { s.envs e' with diskEnvPgdir := (t.envs e').diskEnvPgdir }

section

variable {lay : Layout} {pages : List DirPtr} {D held : Set Nat} {s t u : Kern} {e e' f va : Nat}

theorem KeepsOthers.of_envs (h : t.envs = s.envs) : KeepsOthers e s t := fun e' _ => by rw [h]

theorem KeepsOthers.trans (h : KeepsOthers e s t) (h' : KeepsOthers e t u) : KeepsOthers e s u := by
  intro e' he'
  rw [h' e' he', h e' he']

theorem KeepsOthers.setEnv (h : KeepsOthers e s t) (env : Env) :
    KeepsOthers e s (t.setEnv e env) := by
  intro e' he'
  have hsame : (t.setEnv e env).envs e' = t.envs e' := Function.update_of_ne he' ..
  rw [hsame]
  exact h e' he'

theorem FileOnly.others (h : FileOnly pages D held s t) : KeepsOthers e s t := fun e' _ => h.env e'

theorem KeepsOthers.pageDirectory (h : KeepsOthers e s t) (he' : e' ≠ e) :
    t.pageDirectory e' = s.pageDirectory e' := by
  unfold Kern.pageDirectory
  rw [h e' he']

end

section

variable {lay : Layout} {s : FileState} {k k₁ k₂ : Kern} {e e' f q v va : Nat} {fixed : Set Nat}
  {m : UserMemory}

/-! ## A fault of one environment -/

/-- Bringing a page in leaves the records of the others alone. -/
theorem StoreInv.in_others {init : Nat} {invalid : String} (hi : StoreInv lay s)
    (hpd : (s.kern.envs e).envPageDirectory ≠ 0) (h₁ : allocateFrame s.kern = .ok f k₁)
    (h₂ : mapFrame (s.kern.pageDirectory e) f va (permUser ||| permWriteable) k₁ = .ok () k₂)
    (h₃ : Fos.enterFaultingPage e va init invalid k₂ = .ok () k) : KeepsOthers e s.kern k := by
  obtain ⟨hva, r, k₃, k₄, hread, hadd, -, rfl⟩ := enterFaultingPage_ok h₃
  have hdir := hi.pages e hpd
  obtain ⟨⟨hi₂, -⟩, henvs₂, hleaf₂⟩ := hi.placePage hdir hva (by decide) h₁ h₂
  have hd₂ : k₂.pageDirectory e = s.kern.pageDirectory e := by
    unfold Kern.pageDirectory
    rw [henvs₂]
  have hpd₂ : (k₂.envs e).envPageDirectory ≠ 0 := by
    rw [henvs₂]
    exact hpd
  have hpr₂ : present (k₂.leaf (k₂.pageDirectory e) (ppn va)) := by
    rw [hd₂, hleaf₂ _ hdir _ (pdx_user hva).2, if_pos ⟨rfl, rfl⟩]
    exact present_entryOf (by decide)
  -- the read changes no record
  have henvs₃ : k₃.envs = k₂.envs := by
    obtain ⟨G, dirs, hpages, hfile⟩ := hi₂.file
    have hdir₂ := hi₂.pages e hpd₂
    rw [← hpages] at hdir₂
    rcases hfile.pfReadEnvPage hdir₂ hva hpr₂ with ⟨-, hrun⟩ | ⟨-, t, hrun, -, ht⟩
    · rw [hread] at hrun
      rw [(ok_inj.1 hrun).2]
    · rw [hread] at hrun
      rw [(ok_inj.1 hrun).2, ht.envs]
  have hothers₃ : KeepsOthers e s.kern k₃ := .of_envs (henvs₃.trans henvs₂)
  apply KeepsOthers.setEnv
  rcases hadd with ⟨-, rfl⟩ | ⟨-, -, -, r', hadd⟩
  · exact hothers₃
  · have hi₃ := (hi₂.read hva hpd₂ hpr₂ hread).1
    exact hothers₃.trans (hi₃.file.pfAddEmptyEnvPage hva hadd).2.1.others

/-- So does the handler as a whole. -/
theorem WorkingSetOk.fault_others (hok : WorkingSetOk e fixed s.kern) (hi : StoreInv lay s)
    (h : Fos.pageFaultHandler e va s.kern = .ok () k) : KeepsOthers e s.kern k := by
  have hpd := hok.directory
  unfold Fos.pageFaultHandler at h
  rw [Prog.get_bind_apply, Prog.ite_run] at h
  split at h
  case isTrue =>
    unfold Fos.placePage at h
    rw [Prog.get_bind_apply] at h
    obtain ⟨f, k₁, h₁, h⟩ := bind_eq_ok.1 h
    obtain ⟨_, k₂, h₂, h⟩ := bind_eq_ok.1 h
    exact hi.in_others hpd h₁ h₂ h
  case isFalse hfull =>
    obtain ⟨v, hv, -⟩ := hok.victim hfull
    have hdir := hi.pages e hpd
    have hf : UserFrame s.pages s.kern (ppn (s.kern.leaf (s.kern.pageDirectory e) (ppn v))) :=
      ⟨_, hdir, _, (pdx_user hv.user).2, hv.mapped, rfl⟩
    obtain ⟨G, dirs, hpages, hfile⟩ := hi.file
    have hdir' : s.kern.pageDirectory e ∈ dirs.page := by
      rw [hpages]
      exact hdir
    obtain ⟨tbl, hget⟩ := hfile.mem.getFrameInfo_user hdir' hv.user hv.mapped
    have hperm := hfile.mem.ptGetPagePermissions_user hdir' hv.user hv.mapped
    obtain ⟨s₁, s₂, f, s₄, s₅, hcall, h₂, h₄, h₅, h₆⟩ := replacePage_ok hget hperm hv.entry h
    rw [modified_permissions] at hcall
    -- the victim
    obtain ⟨m₁, hi₁, hout⟩ := hi.pagesOut hpd hv hcall h₂
    have hothers₁ : KeepsOthers e s.kern s₁ := by
      rcases hcall with ⟨-, r, hupdate⟩ | ⟨-, rfl⟩
      · rcases (hi.file.pfUpdateEnvPage hv.user (hi.pages e) hi.scratch hf (hi.count _ hf) hupdate).2 with
          ⟨-, -, honly, -⟩ | ⟨-, -, hcopied, -⟩
        · exact honly.others
        · exact .of_envs (by rw [hcopied]; rfl)
      · exact .of_envs rfl
    have henvs₂ : s₂.envs = s₁.envs := by
      rcases hcall with ⟨hmod, r, hupdate⟩ | ⟨-, rfl⟩
      · obtain ⟨m, hi', -⟩ := hi.writeBack_keeps hv.user hf hupdate
        exact (hi'.unmapPage_leaf hdir hv.user h₂).2
      · exact (hi.unmapPage_leaf hdir hv.user h₂).2
    have hothers₂ := (hothers₁.trans (.of_envs henvs₂)).setEnv
      ((s₂.envs e).clearEntry (s.kern.envs e).pageLastWSIndex)
    -- the faulting page
    have hd := hout.pageDirectory
    have hd : (s₂.setEnv e ((s₂.envs e).clearEntry (s.kern.envs e).pageLastWSIndex)).pageDirectory e =
      s.kern.pageDirectory e := hd
    rw [← hd] at h₅
    exact hothers₂.trans (hi₁.in_others (by rw [DirPtr.heap.inj hd]; exact hpd) h₄ h₅ h₆)

/-- The working set of an environment whose record stays, the page file aside. -/
theorem WorkingSetOk.congr_disk {a b : Kern} (hok : WorkingSetOk e fixed a)
    (henv : b.envs e = { a.envs e with diskEnvPgdir := (b.envs e).diskEnvPgdir })
    (hleaf : ∀ q < 977920, KeepsPage (a.pageDirectory e) q a b) : WorkingSetOk e fixed b := by
  have hd : b.pageDirectory e = a.pageDirectory e := by
    unfold Kern.pageDirectory
    rw [henv]
  constructor
  · rw [henv]
    exact hok.directory
  · rw [henv]
    exact hok.index
  · rw [henv]
    exact hok.length
  · rw [henv]
    exact hok.empty
  · intro q hq
    obtain ⟨hlt, hpr⟩ := hok.stays q hq
    rw [hd, (hleaf q hlt).leaf]
    exact ⟨hlt, hpr⟩
  · intro i q hiq
    rw [henv] at hiq
    obtain ⟨hlt, hnf, hpr, hone⟩ := hok.mapped i q hiq
    rw [hd, (hleaf q hlt).leaf, (hleaf q hlt).references hpr]
    exact ⟨hlt, hnf, hpr, hone⟩
  · rw [henv]
    exact hok.distinct

/-- What a fault of `e` does: its own pages show what they showed, and the pages of the other
directories and of the other environments in the page file are kept. -/
structure Faults (e : Nat) (fixed : Set Nat) (s t : FileState) : Prop where
  pages : t.pages = s.pages
  workingSet : WorkingSetOk e fixed t.kern
  directory : t.kern.pageDirectory e = s.kern.pageDirectory e
  shows : ∀ q < 977920, ∀ m, PageShows e q m s → PageShows e q m t
  others : KeepsOthers e s.kern t.kern
  store : ∀ x : Nat × Nat, x.1 ≠ e → t.store x = s.store x
  keeps : ∀ dir ∈ s.pages, dir ≠ s.kern.pageDirectory e →
      ∀ q < 977920, KeepsPage dir q s.kern t.kern

theorem WorkingSetOk.faultHandler (hok : WorkingSetOk e fixed s.kern) (hi : StoreInv lay s)
    (hva : va < userTop) (hz : s.kern.leaf (s.kern.pageDirectory e) (ppn va) = 0)
    (hdisk : s.kern.disk.diskFreeFrameList ≠ []) (hk : Fos.faultHandler e va s.kern = .ok () k) :
    ∃ store, StoreInv lay ⟨k, s.pages, store⟩ ∧ Faults e fixed s ⟨k, s.pages, store⟩ := by
  have hdir := hi.pageDirectory_mem hok
  have hreach := hi.reachDir hdir
  by_cases hpde : present (s.kern.pde (s.kern.pageDirectory e) (pdx va))
  · have hpage := faultHandler_page hreach hpde hk
    have hothers := hok.fault_others hi hpage
    obtain ⟨u, store, hiu, hik, hoku, hzu, hu, hin⟩ := hok.handler hi hz hpage
    have hdiru := hiu.pageDirectory_mem hoku
    -- what holds of the victim, or of nothing
    obtain ⟨hpu, hdu, hshow, hfree, hstore, hkeep⟩ : u.pages = s.pages ∧
        u.kern.pageDirectory e = s.kern.pageDirectory e ∧
        (∀ q < 977920, ∀ m, PageShows e q m s → PageShows e q m u) ∧
        u.kern.disk.diskFreeFrameList = s.kern.disk.diskFreeFrameList ∧
        (∀ x : Nat × Nat, x.1 ≠ e → u.store x = s.store x) ∧
        ∀ dir ∈ s.pages, dir ≠ s.kern.pageDirectory e →
        ∀ q < 977920, KeepsPage dir q s.kern u.kern := by
      rcases hu with ⟨-, rfl⟩ | ⟨-, v, hlast, hout⟩
      · exact ⟨rfl, rfl, fun _ _ _ h => h, rfl, fun _ _ => rfl, fun _ _ _ _ _ =>
          ⟨rfl, fun _ => rfl, fun _ => rfl⟩⟩
      · have hpr := (hok.mapped _ _ hlast).2.2.1
        refine ⟨hout.pages, hout.pageDirectory, fun q hq m h => hout.shows hdir hq hpr h,
          hout.freeFrames,
          fun x hx => hout.store x fun hc => hx (congrArg Prod.fst hc), fun dir hmem hne q hq => ?_⟩
        exact hout.keeps dir hmem q hq fun hc => hne (congrArg Prod.fst hc)
    refine ⟨store, hik, rfl, hin.ok hiu hoku hzu, hin.pageDirectory.trans hdu,
      fun q hq m h => ?_, hothers, fun x hx => ?_, fun dir hmem hne q hq => ?_⟩
    · exact hin.shows hdiru hq hzu (by rw [hfree]; exact hdisk) (hshow q hq m h)
    · exact (hin.store x fun hc => hx (congrArg Prod.fst hc)).trans (hstore x hx)
    · refine (hkeep dir hmem hne q hq).trans (hin.keeps dir (by rw [hpu]; exact hmem) q hq ?_)
      intro hc
      exact hne ((congrArg Prod.fst hc).trans hdu)
  · obtain ⟨-, tbl, hcreate⟩ := faultHandler_table hreach hpde hk
    obtain ⟨hik, hkeep, henvs⟩ := hi.createPageTable hdir hva hpde hcreate
    have henv : k.envs e = s.kern.envs e := by rw [henvs]
    have hd : k.pageDirectory e = s.kern.pageDirectory e := by
      unfold Kern.pageDirectory
      rw [henv]
    refine ⟨s.store, hik, rfl, hok.kept henv hdir hkeep, hd, fun q hq m h => ?_, .of_envs henvs,
      fun _ _ => rfl, fun dir hmem _ q hq => hkeep dir hmem q hq (Set.notMem_empty _)⟩
    exact h.keeps hd (hkeep _ hdir q hq (Set.notMem_empty _)) rfl fun _ _ => rfl

end

/-! ## Directories -/

/-- Environments with a directory have different ones. -/
def Apart (s : Kern) : Prop :=
  ∀ e e', (s.envs e).envPageDirectory ≠ 0 →
    (s.envs e).envPageDirectory = (s.envs e').envPageDirectory → e = e'

section

variable {lay : Layout} {s t : FileState} {a b : Kern} {e : Nat}

theorem Apart.congr (h : Apart a)
    (hd : ∀ e, (b.envs e).envPageDirectory = (a.envs e).envPageDirectory) : Apart b := by
  intro e e' hne heq
  rw [hd e] at hne heq
  rw [hd e'] at heq
  exact h e e' hne heq

theorem Apart.of_envs (h : Apart a) (henvs : b.envs = a.envs) : Apart b :=
  h.congr fun e => by rw [henvs]

theorem Apart.fileOnly {pages : List DirPtr} {D held : Set Nat} (h : Apart a)
    (hf : FileOnly pages D held a b) : Apart b := by
  apply h.congr
  intro e
  rw [hf.env e]

theorem Apart.setEnv {env : Env} (h : Apart a)
    (henv : env.envPageDirectory = (a.envs e).envPageDirectory) : Apart (a.setEnv e env) := by
  apply h.congr
  intro e'
  show (update a.envs e env e').envPageDirectory = _
  by_cases he : e' = e
  · rw [he, Function.update_self]
    exact henv
  · rw [Function.update_of_ne he]

/-- The page directory of a new environment is new. -/
theorem Apart.newEnv {d cr3 : Nat} {env : Env} {k₁ k₂ k₃ : Kern} (h : Apart s.kern)
    (hi : StoreInv lay s) (h₁ : createUserDirectory s.kern = .ok d k₁) (hd : d ≠ 0)
    (h₂ : initializeDirectory d k₁ = .ok () k₂) (h₃ : listDirectory d cr3 k₂ = .ok () k₃)
    (henv : env.envPageDirectory = d) : Apart (k₃.setEnv e env) := by
  obtain ⟨G, dirs, hpages, hfile⟩ := hi.file
  obtain ⟨p, hnew, rfl, -, hok₂, hq, -⟩ := hfile.mem.newDirectory h₁ hd h₂
  obtain ⟨-, -, hr₃, -⟩ := hok₂.listDirectory List.mem_cons_self h₃
  have henvs : k₃.envs = s.kern.envs := hr₃.envs.trans hq.sameRest.envs
  -- no environment has it yet
  have hfresh : ∀ e', (s.kern.envs e').envPageDirectory ≠ p * 4096 := by
    intro e' hc
    have hmem := hi.pages e' (by rw [hc]; exact hd)
    rw [← hpages, Kern.pageDirectory, hc] at hmem
    exact hnew (.inl hmem)
  intro e₁ e₂ hne heq
  have hne : (update k₃.envs e env e₁).envPageDirectory ≠ 0 := hne
  have heq : (update k₃.envs e env e₁).envPageDirectory = (update k₃.envs e env e₂).envPageDirectory :=
    heq
  rw [henvs] at hne heq
  by_cases he₁ : e₁ = e <;> by_cases he₂ : e₂ = e
  · rw [he₁, he₂]
  · rw [he₁, Function.update_self, Function.update_of_ne he₂, henv] at heq
    exact absurd heq.symm (hfresh e₂)
  · rw [he₂, Function.update_self, Function.update_of_ne he₁, henv] at heq
    exact absurd heq (hfresh e₁)
  · rw [Function.update_of_ne he₁] at hne heq
    rw [Function.update_of_ne he₂] at heq
    exact h e₁ e₂ hne heq

theorem Apart.store (h : Apart s.kern) (hi : StoreInv lay s) (hstep : StoreStep s t) :
    Apart t.kern := by
  cases hstep with
  | newEnv _ h₁ hd h₂ h₃ henv _ => exact h.newEnv hi h₁ hd h₂ h₃ henv
  | mirror hdir hpos hn hz h₁ hws h₂ =>
    obtain ⟨-, dirs, -, hmir⟩ := hi.mirror hdir hpos hn hz h₁ hws h₂
    exact h.of_envs hmir.envs
  | mapPage hdir hva _ hperm h₁ h₂ => exact h.of_envs (hi.placePage hdir hva hperm h₁ h₂).2.1
  | sharePage hdir hva hz hperm hf hlt hk =>
    obtain ⟨G, dirs, hpages, hfile⟩ := hi.file
    rw [← hpages] at hdir hf
    obtain ⟨G', -, -, hmap, -⟩ :=
      hfile.mem.mapUser hdir hva hz (hf.usable hfile.mem) (by omega) hperm hk
    exact h.of_envs hmap.envs
  | unmapPage hdir hva hk => exact h.of_envs (hi.unmapPage_leaf hdir hva hk).2
  | write hdir hva hpr hk =>
    obtain ⟨G, dirs, hpages, hfile⟩ := hi.file
    rw [← hpages] at hdir
    obtain ⟨t, hrun, -, ht⟩ := hfile.mem.writeUserPage hdir hva hpr _
    rw [hk] at hrun
    rw [(ok_inj.1 hrun).2]
    exact h.of_envs ht.envs
  | add hva hk => exact h.fileOnly (hi.file.pfAddEnvPage hva hk).2.1
  | addEmpty hva hk => exact h.fileOnly (hi.file.pfAddEmptyEnvPage hva hk).2.1
  | update hva hf hk =>
    rcases (hi.file.pfUpdateEnvPage hva (hi.pages _) hi.scratch hf (hi.count _ hf) hk).2 with
      ⟨-, -, honly, -⟩ | ⟨-, -, hcopied, -⟩
    · exact h.fileOnly honly
    · exact h.of_envs (by rw [hcopied]; rfl)
  | updateFails hva hf _ hk =>
    rcases (hi.file.pfUpdateEnvPage hva (hi.pages _) hi.scratch hf (hi.count _ hf) hk).2 with
      ⟨-, -, honly, -⟩ | ⟨-, -, hcopied, -⟩
    · exact h.fileOnly honly
    · exact h.of_envs (by rw [hcopied]; rfl)
  | read hva hpd hpr hk =>
    obtain ⟨G, dirs, hpages, hfile⟩ := hi.file
    have hdir := hi.pages _ hpd
    rw [← hpages] at hdir
    rcases hfile.pfReadEnvPage hdir hva hpr with ⟨-, hrun⟩ | ⟨-, t, hrun, -, ht⟩
    · rw [hk] at hrun
      rw [(ok_inj.1 hrun).2]
      exact h
    · rw [hk] at hrun
      rw [(ok_inj.1 hrun).2]
      exact h.of_envs ht.envs
  | remove hva hk => exact h.fileOnly (hi.file.pfRemoveEnvPage hva hk).2.1

theorem Apart.step (h : Apart s.kern) (hi : StoreInv lay s) (hstep : MemoryStep s t) :
    Apart t.kern := by
  cases hstep with
  | store hstep => exact h.store hi hstep
  | addFails hva hk => exact h.fileOnly (hi.file.pfAddEnvPage hva hk).2.1
  | addEmptyFails hva hk => exact h.fileOnly (hi.file.pfAddEmptyEnvPage hva hk).2.1
  | freeEnv hd hk => exact h.fileOnly (hi.file.pfFreeEnv hd hk).2.1
  | workingSet e ws maxSize lastIndex => exact h.setEnv rfl

end

/-- **No two environments share a page directory** in any state of a run from boot. -/
theorem memoryRun_apart {c : BootConfig} {s₀ : Kern} {st : KHeapPlacementStrategy} {s : FileState}
    (hboot : fosInitialize (initializePaging c) = .ok () s₀)
    (hrun : ReflTransGen MemoryStep ⟨setStrategy st s₀, [.boot], fun _ => none⟩ s) :
    StoreInv c.layout s ∧ Apart s.kern := by
  induction hrun with
  | refl =>
    refine ⟨storeInv_boot hboot st, fun e e' hne => absurd ?_ hne⟩
    obtain ⟨-, hr⟩ := fosInitialize_boot hboot
    have hzero : (setStrategy st s₀).envs e = emptyEnv := congrFun hr.envs e
    show ((setStrategy st s₀).envs e).envPageDirectory = 0
    rw [hzero]
    rfl
  | tail _ hstep ih => exact ⟨hstep.inv ih.1, ih.2.step ih.1 hstep⟩

/-! ## Runs of several processes -/

/-- The environments of `E` make the accesses `l` between `s` and `t`, in any order, each at its own
pages `T e`. -/
inductive ProcessRun (E : Set Nat) (T : Nat → Set Nat) (s : Kern) :
    List (Access (Nat × Nat) Nat) → Kern → Prop
  | start : ProcessRun E T s [] s
  | fault {l : List (Access (Nat × Nat) Nat)} {e va : Nat} {t u : Kern} (h : ProcessRun E T s l t)
      (he : e ∈ E) (hT : ppn va ∈ T e) (hz : t.leaf (t.pageDirectory e) (ppn va) = 0)
      (hdisk : t.disk.diskFreeFrameList ≠ []) (hk : faultHandler e va t = .ok () u) :
      ProcessRun E T s l u
  | read {l : List (Access (Nat × Nat) Nat)} {e va v : Nat} {t u : Kern} (h : ProcessRun E T s l t)
      (he : e ∈ E) (hT : ppn va ∈ T e) (hk : readUserByte e va t = .ok v u) :
      ProcessRun E T s (l ++ [.read (e, va) v]) u
  | write {l : List (Access (Nat × Nat) Nat)} {e va v : Nat} {t u : Kern} (h : ProcessRun E T s l t)
      (he : e ∈ E) (hT : ppn va ∈ T e) (hv : v < 256) (hk : writeUserByte e va v t = .ok () u) :
      ProcessRun E T s (l ++ [.write (e, va) v]) u

/-- The known bytes of every process. -/
abbrev ProcessMemory : Type := FlatMemory.Mem (Nat × Nat) Nat

/-- The known bytes of one. -/
def ProcessMemory.of (m : ProcessMemory) (e : Nat) : UserMemory := fun va => m (e, va)

/-- The pages of every process show its memory. -/
structure ProcessesInv (lay : Layout) (E : Set Nat) (fixed T : Nat → Set Nat) (m : ProcessMemory)
    (s : FileState) : Prop where
  paging : ∀ e ∈ E, PagingInv lay e (fixed e) (T e) (m.of e) s
  apart : Apart s.kern

section

variable {lay : Layout} {s : FileState} {k : Kern} {e v va : Nat} {E : Set Nat}
    {fixed T : Nat → Set Nat}
  {m : ProcessMemory} {l : List (Access (Nat × Nat) Nat)}

theorem ProcessMemory.of_update : ProcessMemory.of (update m (e, va) (some v)) e =
    update (m.of e) va (some v) := by
  funext va'
  unfold ProcessMemory.of
  by_cases hva : va' = va
  · rw [hva, Function.update_self, Function.update_self]
  · rw [Function.update_of_ne hva, Function.update_of_ne fun hc => hva (congrArg Prod.snd hc)]

theorem ProcessMemory.of_update_ne {e' : Nat} (he' : e' ≠ e) :
    ProcessMemory.of (update m (e, va) (some v)) e' = m.of e' := by
  funext va'
  exact Function.update_of_ne (fun hc => he' (congrArg Prod.fst hc)) ..

/-- The others see nothing of a step of `e` that keeps their records, their pages and their part of
the page file. -/
theorem PagingInv.others {T : Set Nat} {fixed : Set Nat} {m : UserMemory}
    {s t : FileState} {e' : Nat} (h : PagingInv lay e' fixed T m s) (ht : StoreInv lay t)
    (henv : t.kern.envs e' = { s.kern.envs e' with diskEnvPgdir := (t.kern.envs e').diskEnvPgdir })
    (hkeep : ∀ q < 977920, KeepsPage (s.kern.pageDirectory e') q s.kern t.kern)
    (hstore : ∀ q, t.store (e', q) = s.store (e', q)) : PagingInv lay e' fixed T m t := by
  have hd : t.kern.pageDirectory e' = s.kern.pageDirectory e' := by
    unfold Kern.pageDirectory
    rw [henv]
  refine ⟨ht, h.workingSet.congr_disk henv hkeep, h.user, fun q hq => ?_⟩
  exact (h.shows q hq).keeps hd (hkeep q (h.user q hq)) (hstore q) fun _ _ => rfl

theorem ProcessesInv.directory_ne {e' : Nat} (h : ProcessesInv lay E fixed T m s) (he' : e' ∈ E)
    (hne : e' ≠ e) : s.kern.pageDirectory e' ≠ s.kern.pageDirectory e := by
  intro hc
  exact hne (h.apart e' e (h.paging e' he').workingSet.directory (DirPtr.heap.inj hc))

theorem ProcessesInv.fault (h : ProcessesInv lay E fixed T m s) (he : e ∈ E) (hT : ppn va ∈ T e)
    (hz : s.kern.leaf (s.kern.pageDirectory e) (ppn va) = 0)
    (hdisk : s.kern.disk.diskFreeFrameList ≠ []) (hk : faultHandler e va s.kern = .ok () k) :
    ∃ store, ProcessesInv lay E fixed T m ⟨k, s.pages, store⟩ := by
  have hp := h.paging e he
  have hva : va < userTop := by
    have hlt := hp.user _ hT
    unfold ppn at hlt
    unfold userTop
    omega
  obtain ⟨store, hi, hf⟩ := hp.workingSet.faultHandler hp.inv hva hz hdisk hk
  have hd : k.pageDirectory e = s.kern.pageDirectory e := hf.directory
  have hothers : KeepsOthers e s.kern k := hf.others
  refine ⟨store, fun e' he' => ?_, ?_⟩
  · by_cases hee : e' = e
    · subst hee
      exact ⟨hi, hf.workingSet, hp.user, fun q hq => hf.shows q (hp.user q hq) _ (hp.shows q hq)⟩
    · have hp' := h.paging e' he'
      have hdir := hp'.inv.pageDirectory_mem hp'.workingSet
      exact hp'.others hi (hothers e' hee) (hf.keeps _ hdir (h.directory_ne he' hee))
        fun q => hf.store (e', q) hee
  · apply h.apart.congr
    intro e'
    by_cases hee : e' = e
    · rw [hee]
      exact DirPtr.heap.inj hd
    · exact DirPtr.heap.inj (hothers.pageDirectory hee)

theorem ProcessesInv.write (h : ProcessesInv lay E fixed T m s) (he : e ∈ E) (hT : ppn va ∈ T e)
    (hv : v < 256) (hk : writeUserByte e va v s.kern = .ok () k) :
    ProcessesInv lay E fixed T (update m (e, va) (some v)) ⟨k, s.pages, s.store⟩ := by
  have hp := h.paging e he
  have hdir := hp.inv.pageDirectory_mem hp.workingSet
  have hva : va < userTop := by
    have hlt := hp.user _ hT
    unfold ppn at hlt
    unfold userTop
    omega
  obtain ⟨hi, hw, hkeep⟩ := hp.inv.writeUserByte hdir hva (fun hpr => (hp.shows _ hT).once hpr) hk
  refine ⟨fun e' he' => ?_, h.apart.of_envs hw.envs⟩
  by_cases hee : e' = e
  · subst hee
    rw [ProcessMemory.of_update]
    exact hp.write hT hv hk
  · rw [ProcessMemory.of_update_ne hee]
    have hp' := h.paging e' he'
    have hdir' := hp'.inv.pageDirectory_mem hp'.workingSet
    refine hp'.others hi ?_ (fun q hq => ?_) fun q => rfl
    · show k.envs e' = { s.kern.envs e' with diskEnvPgdir := (k.envs e').diskEnvPgdir }
      rw [hw.envs]
    · exact hkeep _ hdir' q hq fun hc => h.directory_ne he' hee (congrArg Prod.fst hc)

/-- **A run of several processes** is consistent with the memories they have at its start. -/
theorem ProcessRun.paging (h : ProcessesInv lay E fixed T m s) (hrun : ProcessRun E T s.kern l k) :
    Consistent m l ∧ ∃ t, t.kern = k ∧ ProcessesInv lay E fixed T (replay m l) t := by
  induction hrun with
  | start => exact ⟨trivial, s, rfl, h⟩
  | fault _ he hT hz hdisk hk ih =>
    obtain ⟨hl, t, rfl, ht⟩ := ih
    obtain ⟨store, hnext⟩ := ht.fault he hT hz hdisk hk
    exact ⟨hl, _, rfl, hnext⟩
  | read _ he hT hk ih =>
    obtain ⟨hl, t, rfl, ht⟩ := ih
    obtain ⟨heq, hanswer⟩ := (ht.paging _ he).read hT hk
    refine ⟨FlatMemory.consistent_concat.2 ⟨hl, hanswer⟩, t, heq.symm, ?_⟩
    rw [FlatMemory.replay_append]
    exact ht
  | write _ he hT hv hk ih =>
    obtain ⟨hl, t, rfl, ht⟩ := ih
    refine ⟨FlatMemory.consistent_concat.2 ⟨hl, trivial⟩, ⟨_, t.pages, t.store⟩, rfl, ?_⟩
    rw [FlatMemory.replay_append]
    exact ht.write he hT hv hk

end

/-- Whatever the others read, write and evict in between, a read of a process answers the byte that
the process itself wrote there last, or else the byte that its part of the page file held at the
start. -/
def Isolated (E : Set Nat) (fixed : Nat → Set Nat) (s : Kern) : Prop :=
  ∀ (e va v : Nat) (l₁ l₂ : List (Access (Nat × Nat) Nat)) (k : Kern),
    ProcessRun E (fun e => demandPages (fixed e)) s (l₁ ++ .read (e, va) v :: l₂) k →
    (∀ w, lastWritten (e, va) l₁ = some w → v = w) ∧
      (lastWritten (e, va) l₁ = none → s.diskSlot (e, ppn va) ≠ 0 →
        v = pageByte (s.disk.words (s.diskSlot (e, ppn va))) va)

theorem ProcessesInv.isolated {lay : Layout} {s : FileState} {E : Set Nat} {fixed : Nat → Set Nat}
    (h : ProcessesInv lay E fixed (fun e => demandPages (fixed e))
      (fun x => fileMemory x.1 s.kern x.2) s) :
    Isolated E fixed s.kern := by
  intro e va v l₁ l₂ k haccess
  have hread := (haccess.paging h).1.read
  refine ⟨hread.1, fun hnone h0 => hread.2 hnone _ ?_⟩
  show fileMemory e s.kern va = _
  unfold fileMemory
  exact if_neg h0

/-- **Processes do not see each other.** No two environments have the same page directory, and any
set of environments whose resident pages equal their copies in the page file is isolated. -/
theorem processes_isolated {b : BootConfig} {s₀ : Kern} {st : KHeapPlacementStrategy}
    {s : FileState} (hboot : fosInitialize (initializePaging b) = .ok () s₀)
    (hrun : ReflTransGen MemoryStep ⟨setStrategy st s₀, [.boot], fun _ => none⟩ s) :
    Apart s.kern ∧ ∀ (E : Set Nat) (fixed : Nat → Set Nat),
      (∀ e ∈ E, PagingStart e (fixed e) s.kern) → Isolated E fixed s.kern := by
  obtain ⟨hi, hapart⟩ := memoryRun_apart hboot hrun
  refine ⟨hapart, fun E fixed hstart => ?_⟩
  have hinv : ProcessesInv b.layout E fixed (fun e => demandPages (fixed e))
      (fun x => fileMemory x.1 s.kern x.2) ⟨s.kern, s.pages, fileStore s.kern⟩ :=
    ⟨fun e he => (hstart e he).paging hi, hapart⟩
  exact ProcessesInv.isolated (s := ⟨s.kern, s.pages, fileStore s.kern⟩) hinv

/-! ## Two processes -/

/-- Another environment is created: a page is allocated at 0xF6007000, -/
def secondPage : Kern := Prog.final (kmalloc pageSize onePage)

/-- it is filled as a page directory, -/
def secondDirectory : Kern :=
  secondPage.fill (secondPage.kframe 1007623) (directoryWords secondPage (secondPage.kframe 1007623))

/-- and the environment gets it. -/
def secondEnv : Kern :=
  (Prog.final (listDirectory (1007623 * 4096) 0 secondDirectory)).setEnv 4
    ⟨1007623 * 4096, 0, 1, 0, [⟨0, true⟩], 0, 0⟩

/-- It has a disk directory -/
def secondDisk : Kern := secondEnv.withDiskDirectory 4 1007624

/-- and a disk table for its stack. -/
def secondTable : Kern := secondDisk.withTable (1007624 * 4096) 0xEEBFB000 1007625 0

/-- Both environments have the same page of their stacks in the page file. -/
def bothStored : Kern :=
  Prog.final (addToTable (1007625 * 4096) 0xEEBFB000 (fun _ => 9) secondTable)

/-- The first environment has a page table for the stack, -/
def firstTable : Kern :=
  bothStored.withTable (1007620 * 4096) 0xEEBFB000 1007626 (permUser ||| permWriteable)

/-- loads the page -/
def firstLoaded : Kern := Prog.final (faultHandler 3 0xEEBFB000 firstTable)

/-- and writes a byte. -/
def firstWritten : Kern := Prog.final (writeUserByte 3 0xEEBFB000 5 firstLoaded)

/-- So does the second, -/
def bothTables : Kern :=
  firstWritten.withTable (1007623 * 4096) 0xEEBFB000 1007627 (permUser ||| permWriteable)

/-- with its own page. -/
def bothLoaded : Kern := Prog.final (faultHandler 4 0xEEBFB000 bothTables)

/-- It writes another byte at the same address. -/
def bothWritten : Kern := Prog.final (writeUserByte 4 0xEEBFB000 7 bothLoaded)

theorem bothStored_values :
    Prog.value (kmalloc pageSize onePage) = some (1007623 * 4096) ∧
    (onePage.envs 4).diskEnvPgdir = 0 ∧ present (secondPage.kernelTable 1007623) ∧
    Prog.value (listDirectory (1007623 * 4096) 0 secondDirectory) = some () ∧
    (secondEnv.envs 4).diskEnvPgdir = 0 ∧ RoomForPage secondEnv 1007624 ∧
    (secondDisk.envs 4).diskEnvPgdir = 1007624 * 4096 ∧
    RoomForTable secondDisk (1007624 * 4096) 0xEEBFB000 1007625 ∧
    Prog.value (addToTable (1007625 * 4096) 0xEEBFB000 (fun _ => 9) secondTable) = some 0 := by
  decide +kernel

theorem bothStored_envs : ∀ e ∈ [3, 4], (bothStored.envs e).envPageDirectory ≠ 0 ∧
    (bothStored.envs e).pageWSMaxSize = 1 ∧ (bothStored.envs e).pageLastWSIndex = 0 ∧
    (bothStored.envs e).ptrPageWorkingSet = [⟨0, true⟩] ∧
    ∀ i < 955, bothStored.table (bothStored.pageDirectory e) i = none := by decide +kernel

theorem firstWritten_values :
    (bothStored.envs 3).envPageDirectory = 1007620 * 4096 ∧
    RoomForTable bothStored (1007620 * 4096) 0xEEBFB000 1007626 ∧
    bothStored.disk.diskFreeFrameList ≠ [] ∧
    firstTable.leaf (firstTable.pageDirectory 3) (ppn 0xEEBFB000) = 0 ∧
    firstTable.disk.diskFreeFrameList ≠ [] ∧
    Prog.value (faultHandler 3 0xEEBFB000 firstTable) = some () ∧
    Prog.value (writeUserByte 3 0xEEBFB000 5 firstLoaded) = some () := by decide +kernel

theorem bothWritten_values :
    (firstWritten.envs 4).envPageDirectory = 1007623 * 4096 ∧
    RoomForTable firstWritten (1007623 * 4096) 0xEEBFB000 1007627 ∧
    firstWritten.leaf (firstWritten.pageDirectory 4) (ppn 0xEEBFB000) = 0 ∧
    firstWritten.disk.diskFreeFrameList ≠ [] ∧
    bothTables.leaf (bothTables.pageDirectory 4) (ppn 0xEEBFB000) = 0 ∧
    bothTables.disk.diskFreeFrameList ≠ [] ∧
    Prog.value (faultHandler 4 0xEEBFB000 bothTables) = some () ∧
    Prog.value (writeUserByte 4 0xEEBFB000 7 bothLoaded) = some () ∧
    Prog.value (readUserByte 3 0xEEBFB000 bothWritten) = some 5 := by decide +kernel

theorem secondEnv_run : ∃ m,
    ReflTransGen MemoryStep ⟨setStrategy .firstFit smallBoot, [.boot], fun _ => none⟩
      ⟨secondEnv, [.heap (1007623 * 4096), .heap (1007620 * 4096), .boot], m⟩ := by
  obtain ⟨m, hrun⟩ := onePage_run
  obtain ⟨hkm, hdisk, hpr, hlist, -⟩ := bothStored_values
  exact ⟨m, .tail hrun (.store (.newEnv hdisk (Prog.ok_of_value hkm) (by decide)
    (initializeDirectory_page hpr) (Prog.ok_of_value hlist) rfl rfl))⟩

theorem bothStored_run : ∃ m,
    ReflTransGen MemoryStep ⟨setStrategy .firstFit smallBoot, [.boot], fun _ => none⟩
      ⟨bothStored, [.heap (1007623 * 4096), .heap (1007620 * 4096), .boot], m⟩ := by
  obtain ⟨m, hrun⟩ := secondEnv_run
  obtain ⟨-, -, -, -, hnone, hpage, hdir, hroom, hadd⟩ := bothStored_values
  have htable : getDiskPageTable (secondDisk.envs 4).diskEnvPgdir 0xEEBFB000 true secondDisk =
      .ok (1007625 * 4096) secondTable := by
    rw [hdir]
    exact hroom.getDiskPageTable
  exact ⟨_, .tail hrun (.store (.add (by decide)
    ((pfAddEnvPage_table (by decide) (hpage.getDiskPageDirectory hnone) htable).trans
      (Prog.ok_of_value hadd))))⟩

theorem mem_both {e : Nat} (he : e = 3 ∨ e = 4) : e ∈ [3, 4] := by
  simpa using he

theorem bothStored_leaf {e : Nat} (he : e = 3 ∨ e = 4) {q : Nat} (hq : q < 977920) :
    bothStored.leaf (bothStored.pageDirectory e) q = 0 := by
  obtain ⟨-, -, -, -, htables⟩ := bothStored_envs e (mem_both he)
  exact leaf_of_none (htables (q / 1024) (by omega))

theorem bothStored_start {e : Nat} (he : e = 3 ∨ e = 4) : PagingStart e ∅ bothStored := by
  obtain ⟨hdir, hmax, hindex, hws, -⟩ := bothStored_envs e (mem_both he)
  exact .of_empty hdir hmax hindex hws fun _ => bothStored_leaf he

theorem firstWritten_run : ProcessRun {3, 4} (fun _ => demandPages ∅) bothStored
    [.write (3, 0xEEBFB000) 5] firstWritten := by
  obtain ⟨hdir, hroom, hfree, hz, hfree₁, hfault, hwrite⟩ := firstWritten_values
  have hpage : ppn 0xEEBFB000 ∈ demandPages ∅ := ⟨by decide, fun h => h⟩
  have hrun₁ : ProcessRun {3, 4} (fun _ => demandPages ∅) bothStored [] firstTable :=
    .fault .start (.inl rfl) hpage (bothStored_leaf (.inl rfl) (by decide)) hfree
      (hroom.faultHandler (by decide) hdir)
  have hrun₂ := hrun₁.fault (e := 3) (.inl rfl) hpage hz hfree₁ (Prog.ok_of_value hfault)
  exact hrun₂.write (.inl rfl) hpage (by decide) (Prog.ok_of_value hwrite)

/-- The second process writes at the address that the first has written; the first reads its own
byte. -/
theorem processes_isolated_two : Apart bothStored ∧
    (∃ k, ProcessRun {3, 4} (fun _ => demandPages ∅) bothStored
      ([.write (3, 0xEEBFB000) 5, .write (4, 0xEEBFB000) 7] ++ .read (3, 0xEEBFB000) 5 :: []) k) ∧
    ∀ v k, ProcessRun {3, 4} (fun _ => demandPages ∅) bothStored
      ([.write (3, 0xEEBFB000) 5, .write (4, 0xEEBFB000) 7] ++ .read (3, 0xEEBFB000) v :: []) k → v = 5 := by
  obtain ⟨m, hrun⟩ := bothStored_run
  obtain ⟨hapart, hisolated⟩ := processes_isolated smallBoot_ok hrun
  refine ⟨hapart, ?_, fun v k haccess => ?_⟩
  · obtain ⟨hdir, hroom, hz, hfree, hz₁, hfree₁, hfault, hwrite, hread⟩ := bothWritten_values
    have hpage : ppn 0xEEBFB000 ∈ demandPages ∅ := ⟨by decide, fun h => h⟩
    have hrun₁ := firstWritten_run.fault (e := 4) (.inr rfl) hpage hz hfree
      (hroom.faultHandler (by decide) hdir)
    have hrun₂ := hrun₁.fault (e := 4) (.inr rfl) hpage hz₁ hfree₁ (Prog.ok_of_value hfault)
    have hrun₃ := hrun₂.write (e := 4) (.inr rfl) hpage (by decide) (Prog.ok_of_value hwrite)
    exact ⟨_, hrun₃.read (e := 3) (v := 5) (.inl rfl) hpage (Prog.ok_of_value hread)⟩
  · have hboth := hisolated {3, 4} (fun _ => ∅) fun _ => bothStored_start
    exact (hboth 3 0xEEBFB000 v _ _ k haccess).1 5 (by decide)

end Fos
