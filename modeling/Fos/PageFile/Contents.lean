import Fos.Lib.Store
import Fos.PageFile.Conservation
import Fos.PageFile.Transfer
import Fos.PageTables.NewDirectory

/-!
# The page file as a store

Beside a run of the page-file calls, with environments created, pages mapped, unmapped and written
meanwhile, a store is kept that maps an environment and a page to the words last put there. The file
shows what the store holds in every state reached.
-/

namespace Fos

open Function (update)
open Prog (bind_eq_ok ok_inj)
open Relation (ReflTransGen)
open SlotPool (Exact)

/-- What the page file is for: words of a page for each environment and page. -/
abbrev PageStore : Type := Store.Contents (Nat × Nat) (Nat → Nat)

/-- The file shows the store: a page is in both or in none, and holds what was put there. -/
structure Shows (m : PageStore) (s : Kern) : Prop where
  absent : ∀ x, m x = none ↔ s.diskSlot x = 0
  words : ∀ x w, m x = some (some w) → s.disk.words (s.diskSlot x) = w

section

variable {lay : Layout} {G G' D : Set Nat} {dirs : Roots} {pages : List DirPtr} {held : Set Nat}
  {s s' t : Kern} {dir : DirPtr} {e f n p va w : Nat} {r : Int} {x : Nat × Nat} {m : PageStore}
  {src : Nat → Nat} {free : List Nat}

theorem Shows.congr (h : Shows m s) (hslot : t.diskSlot = s.diskSlot)
    (hwords : t.disk.words = s.disk.words) : Shows m t := by
  refine ⟨fun x => ?_, fun x w hx => ?_⟩
  · rw [hslot]
    exact h.absent x
  · rw [hslot, hwords]
    exact h.words x w hx

/-- The words of one page are overwritten. -/
theorem Shows.put (h : Shows m s) (hex : Exact diskPool t.diskSlot free) (hn : n ≠ 0)
    (hslot : t.diskSlot = update s.diskSlot x n) (hwords : t.disk.words = update s.disk.words n src) :
    Shows (Store.put m x src) t := by
  have hself : t.diskSlot x = n := by rw [hslot, Function.update_self]
  refine ⟨fun y => ?_, fun y w hy => ?_⟩
  · by_cases hyx : y = x
    · rw [hyx, Store.put_self, hself]
      exact iff_of_false (by simp) hn
    · rw [Store.put_of_ne m hyx, hslot, Function.update_of_ne hyx]
      exact h.absent y
  · by_cases hyx : y = x
    · rw [hyx, Store.put_self] at hy
      rw [hyx, hself, hwords, Function.update_self]
      exact Option.some.inj (Option.some.inj hy)
    · rw [Store.put_of_ne m hyx] at hy
      have hy0 : s.diskSlot y ≠ 0 := fun h0 => by
        rw [(h.absent y).2 h0] at hy
        cases hy
      have hsame : t.diskSlot y = s.diskSlot y := by rw [hslot, Function.update_of_ne hyx]
      -- another page has another disk frame
      have hne : s.diskSlot y ≠ n := by
        intro he
        exact hyx (hex.inj y x (by rw [hsame]; exact hy0) (by rw [hsame, hself, he]))
      rw [hsame, hwords, Function.update_of_ne hne]
      exact h.words y w hy

/-- A page is created, or stays what it was. -/
theorem Shows.touch (h : Shows m s) (hn : n ≠ 0) (hold : s.diskSlot x ≠ 0 → n = s.diskSlot x)
    (hslot : t.diskSlot = update s.diskSlot x n) (hwords : t.disk.words = s.disk.words) :
    Shows (Store.touch m x) t := by
  cases hm : m x with
  | some o =>
    have h0 : s.diskSlot x ≠ 0 := fun h0 => by
      rw [(h.absent x).2 h0] at hm
      cases hm
    rw [Store.touch_of_some m hm]
    refine h.congr ?_ hwords
    rw [hslot, hold h0, Function.update_eq_self]
  | none =>
    refine ⟨fun y => ?_, fun y w hy => ?_⟩
    · by_cases hyx : y = x
      · rw [hyx, Store.touch_self, hslot, Function.update_self]
        exact iff_of_false (by simp) hn
      · rw [Store.touch_of_ne m hyx, hslot, Function.update_of_ne hyx]
        exact h.absent y
    · by_cases hyx : y = x
      · rw [hyx, Store.touch_self, hm] at hy
        cases hy
      · rw [Store.touch_of_ne m hyx] at hy
        rw [hslot, Function.update_of_ne hyx, hwords]
        exact h.words y w hy

/-- A page is taken out of the file. -/
theorem Shows.erase (h : Shows m s) (hc : ClearsSlots {x} s t) : Shows (Store.erase m x) t := by
  refine ⟨fun y => ?_, fun y w hy => ?_⟩
  · by_cases hyx : y = x
    · rw [hyx, Store.erase_self]
      exact iff_of_true rfl (hc.cleared x rfl)
    · rw [Store.erase_of_ne m hyx, hc.other y hyx]
      exact h.absent y
  · by_cases hyx : y = x
    · rw [hyx, Store.erase_self] at hy
      cases hy
    · rw [Store.erase_of_ne m hyx] at hy
      rw [hc.other y hyx, hc.words]
      exact h.words y w hy

/-! ## A new environment -/

/-- The record of an environment without a disk directory is replaced by another such record. -/
theorem FileOk.setEnv {env : Env} (h : FileOk lay G D dirs held s)
    (hdisk : env.diskEnvPgdir = (s.envs e).diskEnvPgdir) :
    FileOk lay G D dirs held (s.setEnv e env) ∧ (s.setEnv e env).diskSlot = s.diskSlot := by
  have hdir : ∀ e', ((s.setEnv e env).envs e').diskEnvPgdir = (s.envs e').diskEnvPgdir := by
    intro e'
    show (update s.envs e env e').diskEnvPgdir = _
    by_cases he : e' = e
    · rw [he, Function.update_self, hdisk]
    · rw [Function.update_of_ne he]
  have hslot : (s.setEnv e env).diskSlot = s.diskSlot :=
    diskSlot_congr hdir fun _ _ _ _ => rfl
  refine ⟨⟨h.mem.setEnv e env, fun e' he' => ?_, fun e₁ e₂ he₁ he₂ => ?_, h.low, ?_⟩, hslot⟩
  · rw [hdir] at he' ⊢
    exact h.dir e' he'
  · rw [hdir] at he₁ he₂
    rw [hdir] at he₂
    exact h.inj e₁ e₂ he₁ he₂
  · rw [hslot]
    exact h.exact

end

end Fos
