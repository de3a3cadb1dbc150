import Fos.PageFile.StoreRuns

/-!
# Runs with failing calls

The steps of the store, and beside them what a full page file refuses, the teardown of the page file
of an environment, and any change of a working set. The states reached carry the same invariant.
-/

namespace Fos

open Relation (ReflTransGen)

/-- The environment with another working set. -/
def Env.setWorkingSet (env : Env) (ws : List WorkingSetElement) (maxSize lastIndex : Nat) : Env :=
  { env with ptrPageWorkingSet := ws, pageWSMaxSize := maxSize, pageLastWSIndex := lastIndex }

/-- The store without the pages of an environment. -/
def PageStore.eraseEnv (m : PageStore) (e : Nat) : PageStore :=
  fun x => if x.1 = e then none else m x

/-- One step. -/
inductive MemoryStep : FileState → FileState → Prop
  | store {s t : FileState} (h : StoreStep s t) : MemoryStep s t
  | addFails {s : FileState} {e va : Nat} {dataSrc : Nat → Nat} {k : Kern} (hva : va < userTop)
      (h : pfAddEnvPage e va dataSrc s.kern = .ok eNoPageFileSpace k) :
      MemoryStep s ⟨k, s.pages, s.store⟩
  | addEmptyFails {s : FileState} {e va init : Nat} {k : Kern} (hva : va < userTop)
      (h : pfAddEmptyEnvPage e va init s.kern = .ok eNoPageFileSpace k) :
      MemoryStep s ⟨k, s.pages, s.store⟩
  | freeEnv {s : FileState} {e : Nat} {k : Kern} (hd : (s.kern.envs e).diskEnvPgdir ≠ 0)
      (h : pfFreeEnv e s.kern = .ok () k) : MemoryStep s ⟨k, s.pages, s.store.eraseEnv e⟩
  | workingSet {s : FileState} (e : Nat) (ws : List WorkingSetElement) (maxSize lastIndex : Nat) :
      MemoryStep s ⟨s.kern.setEnv e ((s.kern.envs e).setWorkingSet ws maxSize lastIndex), s.pages,
        s.store⟩

section

variable {lay : Layout} {s t : FileState} {k : Kern} {e va init : Nat} {dataSrc : Nat → Nat}
  {m : PageStore}

theorem StoreInv.addFails (hi : StoreInv lay s) (hva : va < userTop)
    (h : pfAddEnvPage e va dataSrc s.kern = .ok eNoPageFileSpace k) :
    StoreInv lay ⟨k, s.pages, s.store⟩ := by
  obtain ⟨hfile, hf, ha⟩ := hi.file.pfAddEnvPage hva h
  apply hi.fileOnly hfile hf
  cases ha with
  | full _ hd hs => exact hi.shows.congr hs (by rw [hd])

theorem StoreInv.addEmptyFails (hi : StoreInv lay s) (hva : va < userTop)
    (h : pfAddEmptyEnvPage e va init s.kern = .ok eNoPageFileSpace k) :
    StoreInv lay ⟨k, s.pages, s.store⟩ := by
  obtain ⟨hfile, hf, ha⟩ := hi.file.pfAddEmptyEnvPage hva h
  apply hi.fileOnly hfile hf
  cases ha with
  | full _ hd hs => exact hi.shows.congr hs (by rw [hd])

theorem Shows.eraseEnv {u v : Kern} (h : Shows m u) (hc : ClearsSlots (slotsOf e) u v) :
    Shows (m.eraseEnv e) v := by
  constructor
  · intro x
    unfold PageStore.eraseEnv
    split
    case isTrue hx => exact iff_of_true rfl (hc.cleared x hx)
    case isFalse hx =>
      rw [hc.other x hx]
      exact h.absent x
  · intro x w hx
    unfold PageStore.eraseEnv at hx
    split at hx
    case isTrue => cases hx
    case isFalse hxe =>
      rw [hc.other x hxe, hc.words]
      exact h.words x w hx

theorem StoreInv.freeEnv (hi : StoreInv lay s) (hd : (s.kern.envs e).diskEnvPgdir ≠ 0)
    (h : pfFreeEnv e s.kern = .ok () k) : StoreInv lay ⟨k, s.pages, s.store.eraseEnv e⟩ := by
  obtain ⟨hfile, hf, hc⟩ := hi.file.pfFreeEnv hd h
  exact hi.fileOnly hfile hf (hi.shows.eraseEnv hc)

/-- The memory manager finds nothing but the two directories in the record of an environment. -/
theorem StoreInv.setEnv {env : Env} (hi : StoreInv lay s)
    (hpage : env.envPageDirectory = (s.kern.envs e).envPageDirectory)
    (hdisk : env.diskEnvPgdir = (s.kern.envs e).diskEnvPgdir) :
    StoreInv lay ⟨s.kern.setEnv e env, s.pages, s.store⟩ := by
  obtain ⟨⟨G, dirs, hpages, h⟩, hpd, hscr, hcount, hshows⟩ := hi
  obtain ⟨hok, hslot⟩ := h.setEnv hdisk
  refine ⟨⟨G, dirs, hpages, hok⟩, ?_, ⟨hscr.dynamic, hscr.table, hscr.unmapped⟩, hcount,
    hshows.congr hslot rfl⟩
  intro e' he'
  have hsame : ((s.kern.setEnv e env).envs e').envPageDirectory =
      (s.kern.envs e').envPageDirectory := by
    show (Function.update s.kern.envs e env e').envPageDirectory = _
    by_cases he : e' = e
    · rw [he, Function.update_self, hpage]
    · rw [Function.update_of_ne he]
  show (.heap ((s.kern.setEnv e env).envs e').envPageDirectory : DirPtr) ∈ _
  replace he' : ((s.kern.setEnv e env).envs e').envPageDirectory ≠ 0 := he'
  rw [hsame] at he' ⊢
  exact hpd e' he'

theorem MemoryStep.inv (hi : StoreInv lay s) (h : MemoryStep s t) : StoreInv lay t := by
  cases h with
  | store h => exact StoreStep.inv hi h
  | addFails hva h => exact hi.addFails hva h
  | addEmptyFails hva h => exact hi.addEmptyFails hva h
  | freeEnv hd h => exact hi.freeEnv hd h
  | workingSet e ws maxSize lastIndex => exact hi.setEnv rfl rfl

end

/-- The invariant in every state of a run from boot. -/
theorem memoryRun_inv {c : BootConfig} {s₀ : Kern} {st : KHeapPlacementStrategy} {s : FileState}
    (hboot : fosInitialize (initializePaging c) = .ok () s₀)
    (hrun : ReflTransGen MemoryStep ⟨setStrategy st s₀, [.boot], fun _ => none⟩ s) :
    StoreInv c.layout s :=
  Prog.invariant (storeInv_boot hboot st) (fun _ _ => MemoryStep.inv) hrun

end Fos
