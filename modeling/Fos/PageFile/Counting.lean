import Fos.PageFile.Teardown
import Mathlib.Data.Nat.Count

/-!
# Counting the pages of an environment

`pf_calculate_allocated_pages` goes through the disk tables below `USER_TOP` and counts their words
that are not zero.
-/

namespace Fos

open Prog (bind_eq_ok ok_inj)

/-- How many pages below page `n` a disk directory has a word for. -/
def Kern.pagesBelow (s : Kern) (d n : Nat) : Nat := Nat.count (fun p => s.leaf (.heap d) p ≠ 0) n

/-- The pages below `USER_TOP`. -/
abbrev Kern.pageCount (s : Kern) (d : Nat) : Nat := s.pagesBelow d 977920

/-- The disk directory and the tables it names below `USER_TOP` can be read. -/
structure Readable (s : Kern) (d : Nat) : Prop where
  dir : s.ReachDir (.heap d)
  table : ∀ i < 955, ∀ a, s.table (.heap d) i = some a → s.Reach (.heap a)

section

variable {lay : Layout} {G D : Set Nat} {dirs : Roots} {held : Set Nat} {s t : Kern}
  {a d e i j n p : Nat} {w : Nat}

theorem Directories.readable (h : Directories G dirs s) (hd : .heap d ∈ dirs) : Readable s d := by
  refine ⟨h.reachDir hd, fun i hi a ha => ?_⟩
  obtain ⟨q, hq, rfl, -⟩ := h.table_some hd hi ha
  exact h.owned.reach hq

/-- The loop over a table counts the pages it goes through. -/
theorem countDiskTable_run (hr : s.Reach (.heap a)) (ha : s.table (.heap d) i = some a)
    (hj : j + n ≤ 1024) :
    countDiskTable a j n (s.pagesBelow d (i * 1024 + j)) s =
      .ok (s.pagesBelow d (i * 1024 + j + n)) s := by
  induction n generalizing j with
  | zero =>
    rw [countDiskTable, Nat.add_zero]
    rfl
  | succ n ih =>
    have hleaf : s.leaf (.heap d) (i * 1024 + j) = s.entry (.heap a, j) := by
      have hdiv : (i * 1024 + j) / 1024 = i := by omega
      rw [leaf_of_some (t := a) (by rw [hdiv]; exact ha), show (i * 1024 + j) % 1024 = j by omega]
    have hread : readWord (a + 4 * j) s = .ok (s.entry (.heap a, j)) s :=
      readPte_reach hr (by omega)
    have hnext : (if s.leaf (.heap d) (i * 1024 + j) ≠ 0 then s.pagesBelow d (i * 1024 + j) + 1
        else s.pagesBelow d (i * 1024 + j)) = s.pagesBelow d (i * 1024 + (j + 1)) := by
      unfold Kern.pagesBelow
      rw [← Nat.add_assoc (i * 1024) j 1, Nat.count_succ]
      split <;> omega
    rw [countDiskTable, Prog.bind_of_ok hread, ← hleaf, hnext, ih (by omega),
      show i * 1024 + (j + 1) + n = i * 1024 + j + (n + 1) by omega]

/-- A directory entry that names no table. -/
theorem pagesBelow_none (ha : s.table (.heap d) i = none) :
    s.pagesBelow d ((i + 1) * 1024) = s.pagesBelow d (i * 1024) := by
  have hzero : Nat.count (fun k => s.leaf (.heap d) (i * 1024 + k) ≠ 0) 1024 = 0 := by
    apply Nat.count_of_forall_not
    intro k hk hne
    apply hne
    apply leaf_of_none
    rw [show (i * 1024 + k) / 1024 = i by omega]
    exact ha
  unfold Kern.pagesBelow
  rw [show (i + 1) * 1024 = i * 1024 + 1024 by omega, Nat.count_add, hzero, Nat.add_zero]

/-- The loop over the directory. -/
theorem countDiskTables_run (hr : Readable s (s.envs e).diskEnvPgdir) (hn : i + n ≤ 955) :
    countDiskTables e i n (s.pagesBelow (s.envs e).diskEnvPgdir (i * 1024)) s =
      .ok (s.pagesBelow (s.envs e).diskEnvPgdir ((i + n) * 1024)) s := by
  set d := (s.envs e).diskEnvPgdir with hd
  induction n generalizing i with
  | zero =>
    rw [countDiskTables, Nat.add_zero]
    rfl
  | succ n ih =>
    have hread : readWord (d + 4 * i) s = .ok (s.pde (.heap d) i) s :=
      readPde_reach hr.dir (by omega)
    have hnext := ih (i := i + 1) (by omega)
    rw [show i + 1 + n = i + (n + 1) by omega] at hnext
    rw [countDiskTables, Prog.get_bind_apply, ← hd, Prog.bind_of_ok hread, Prog.ite_run]
    by_cases hpr : present (s.pde (.heap d) i)
    · have ha : s.table (.heap d) i =
          some (kheapVirtualAddress s (extractAddress (s.pde (.heap d) i))) := if_pos hpr
      have hrun :=
        countDiskTable_run (hr.table i (by omega) _ ha) ha (j := 0) (n := 1024) (by omega)
      rw [Nat.add_zero, show i * 1024 + 1024 = (i + 1) * 1024 by omega] at hrun
      rw [if_pos hpr, Prog.get_bind_apply, Prog.bind_of_ok hrun]
      exact hnext
    · rw [pagesBelow_none (if_neg hpr)] at hnext
      rw [if_neg hpr]
      exact hnext

/-- **`pf_calculate_allocated_pages`** returns the number of pages below `USER_TOP`. -/
theorem pfCalculateAllocatedPages_run (hr : Readable s (s.envs e).diskEnvPgdir) :
    pfCalculateAllocatedPages e s = .ok (s.pageCount (s.envs e).diskEnvPgdir) s := by
  have hrun := countDiskTables_run (i := 0) (n := 955) hr (by omega)
  exact hrun

theorem pageCount_congr (h : ∀ p < 977920, t.leaf (.heap d) p = s.leaf (.heap d) p) :
    t.pageCount d = s.pageCount d := by
  unfold Kern.pageCount Kern.pagesBelow
  rw [Nat.count_eq_card_filter_range, Nat.count_eq_card_filter_range]
  refine congrArg Finset.card (Finset.filter_congr fun p hp => ?_)
  rw [h p (Finset.mem_range.1 hp)]

/-- A page that is taken out is counted no more. -/
theorem pageCount_erase (hp : p < 977920) (hne : s.leaf (.heap d) p ≠ 0)
    (h : ∀ q < 977920, t.leaf (.heap d) q = if q = p then 0 else s.leaf (.heap d) q) :
    s.pageCount d = t.pageCount d + 1 := by
  unfold Kern.pageCount Kern.pagesBelow
  rw [Nat.count_eq_card_filter_range, Nat.count_eq_card_filter_range]
  have hmem : p ∈ (Finset.range 977920).filter fun q => s.leaf (.heap d) q ≠ 0 :=
    Finset.mem_filter.2 ⟨Finset.mem_range.2 hp, hne⟩
  -- the pages that are left are those of before without `p`
  have herase : ((Finset.range 977920).filter fun q => t.leaf (.heap d) q ≠ 0) =
      ((Finset.range 977920).filter fun q => s.leaf (.heap d) q ≠ 0).erase p := by
    ext q
    simp only [Finset.mem_filter, Finset.mem_range, Finset.mem_erase]
    constructor
    · rintro ⟨hq, hqne⟩
      rw [h q hq] at hqne
      split at hqne
      case isTrue => exact absurd rfl hqne
      case isFalse hqp => exact ⟨hqp, hq, hqne⟩
    · rintro ⟨hqp, hq, hqne⟩
      refine ⟨hq, ?_⟩
      rwa [h q hq, if_neg hqp]
  rw [herase, Finset.card_erase_of_mem hmem]
  have := Finset.card_pos.2 ⟨p, hmem⟩
  omega

end

end Fos
