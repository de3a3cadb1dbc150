import Fos.EmptyTables
import Fos.PageTables.Pages

/-!
# The tables of a range given back

`freeMem` and `freeSharedObject` go over the pages of a range and free each page table that maps
nothing. A table that covers many pages of the range is met many times, and freed at most once.
-/

namespace Fos

open Prog (bind_eq_ok ok_inj)

/-- The heap pages of the tables `I` of a directory. -/
def tableFrames (s : Kern) (dir : DirPtr) (I : Set Nat) : Set Nat :=
  {p | ∃ i ∈ I, s.table dir i = some (p * 4096)}

/-- What giving back the tables `I` of one directory does, and what it leaves alone. -/
structure FreesTables (dirs : Roots) (D held : Set Nat) (dir : DirPtr) (I : Set Nat) (s t : Kern) :
    Prop extends FreesPages dirs D held (tableFrames s dir I) s t where
  empty : ∀ i ∈ I, ∃ p, EmptyTable dirs s dir i p
  gone : ∀ i ∈ I, t.table dir i = none
  stays : ∀ dir' ∈ dirs, ∀ i < 955, ¬ (dir' = dir ∧ i ∈ I) → t.table dir' i = s.table dir' i

section

variable {lay : Layout} {G D : Set Nat} {dirs : Roots} {held I J : Set Nat} {s t u : Kern}
  {dir : DirPtr} {i k n p va : Nat} {tbl : TablePtr}

/-! ## One table -/

/-- The loop finds out whether the entries from `k` on are zero. -/
theorem tableIsEmpty_reach (ht : s.Reach tbl) (hk : k + n ≤ 1024) :
    tableIsEmpty tbl k n s = .ok (decide (∀ j, k ≤ j → j < k + n → s.entry (tbl, j) = 0)) s := by
  induction n generalizing k with
  | zero =>
    rw [tableIsEmpty, decide_eq_true (fun j h1 h2 => by omega)]
    rfl
  | succ n ih =>
    rw [tableIsEmpty, Prog.bind_of_ok (readPte_reach ht (by omega)), Prog.ite_run]
    split
    case isTrue hne =>
      rw [decide_eq_false fun hall => hne (hall k (le_refl k) (by omega))]
      rfl
    case isFalse h0 =>
      rw [ih (by omega)]
      congr 1
      apply decide_eq_decide.2
      refine ⟨fun hall j h1 h2 => ?_, fun hall j h1 h2 => hall j (by omega) (by omega)⟩
      by_cases hj : j = k
      · rw [hj]
        exact not_not.1 h0
      · exact hall j (by omega) (by omega)

theorem freeEmptyTable_none (hget : getPageTable dir va s = .ok none s) :
    freeEmptyTable dir va s = .ok () s := by
  rw [freeEmptyTable, Prog.bind_of_ok hget]
  rfl

theorem freeEmptyTable_zero (hget : getPageTable dir va s = .ok (some tbl) s) (hne : tbl ≠ .null)
    (ht : s.Reach tbl) (h0 : ∀ j < 1024, s.entry (tbl, j) = 0) :
    freeEmptyTable dir va s = (do
      tbl.kfree
      writePde dir (pdx va) 0 : K Unit) s := by
  rw [freeEmptyTable, Prog.bind_of_ok hget]
  show (if tbl = .null then pure () else _ : K Unit) s = _
  rw [Prog.ite_run, if_neg hne, Prog.bind_of_ok (tableIsEmpty_reach ht (by omega)),
    decide_eq_true fun j _ hj => h0 j (by omega), Prog.ite_run, if_pos rfl]

theorem freeEmptyTable_used (hget : getPageTable dir va s = .ok (some tbl) s) (ht : s.Reach tbl)
    (h0 : ¬ ∀ j < 1024, s.entry (tbl, j) = 0) : freeEmptyTable dir va s = .ok () s := by
  rw [freeEmptyTable, Prog.bind_of_ok hget]
  show (if tbl = .null then pure () else _ : K Unit) s = _
  rw [Prog.ite_run]
  split
  · rfl
  · rw [Prog.bind_of_ok (tableIsEmpty_reach ht (by omega)), decide_eq_false, Prog.ite_run,
      if_neg (by simp)]
    · rfl
    · exact fun hall => h0 fun j hj => hall j (Nat.zero_le j) (by omega)

/-- **The table of one page**: it is freed when it maps nothing, and nothing happens otherwise. -/
theorem MemOk.freeEmptyTable (h : MemOk lay G D dirs held s) (hdir : dir ∈ dirs.page)
    (hva : va < userTop) (hk : Fos.freeEmptyTable dir va s = .ok () t) :
    (t = s ∧ ∀ p, ¬ EmptyTable dirs s dir (pdx va) p) ∨
    ∃ p, EmptyTable dirs s dir (pdx va) p ∧ MemOk lay (G \ {p}) D dirs held t ∧
      FreesPages dirs D held {p} s t ∧ ∀ dir' ∈ dirs, ∀ i < 955, t.table dir' i =
        if dir' = dir ∧ i = pdx va then none else s.table dir' i := by
  have hd := h.directories
  obtain ⟨hpdx, hlt⟩ := pdx_user hva
  have hi : pdx va < 955 := by omega
  have hget := getPageTable_user (hd.reachDir (.inl hdir)) hva (hd.pde_zero dir (.inl hdir) _ hi)
  cases ha : s.table dir (pdx va) with
  | none =>
    rw [ha] at hget
    rw [freeEmptyTable_none hget] at hk
    obtain ⟨-, rfl⟩ := ok_inj.1 hk
    refine .inl ⟨rfl, fun p he => ?_⟩
    rw [he.table] at ha
    cases ha
  | some a =>
    obtain ⟨p, hp, rfl, -⟩ := hd.table_some (.inl hdir) hi ha
    rw [ha] at hget
    have hne : TablePtr.heap (p * 4096) ≠ .null :=
      fun hn => (hd.owned.heapPage p hp).ne_zero (TablePtr.heap.inj hn)
    -- the loop of the source reads all 1024 entries before it frees the table
    by_cases hzero : ∀ j < 1024, s.entry (.heap (p * 4096), j) = 0
    · rw [freeEmptyTable_zero hget hne (hd.owned.reach hp) hzero] at hk
      have he : EmptyTable dirs s dir (pdx va) p := ⟨.inl hdir, hi, ha, hzero⟩
      exact .inr ⟨p, he, h.freeTable he hk⟩
    · rw [freeEmptyTable_used hget (hd.owned.reach hp) hzero] at hk
      obtain ⟨-, rfl⟩ := ok_inj.1 hk
      refine .inl ⟨rfl, fun q he => hzero fun j hj => ?_⟩
      have hq := he.table
      rw [ha] at hq
      rw [Option.some.inj hq]
      exact he.zero j hj

/-! ## The tables of a range -/

theorem FreesTables.refl (dirs : Roots) (D held : Set Nat) (dir : DirPtr) (s : Kern) :
    FreesTables dirs D held dir ∅ s s := by
  refine ⟨?_, fun _ h => h.elim, fun _ h => h.elim, fun _ _ _ _ _ => rfl⟩
  have : tableFrames s dir ∅ = ∅ := by
    ext p
    simp [tableFrames]
  rw [this]
  exact .refl _ _ _ _

theorem FreesPages.freesTables (h : FreesPages dirs D held {p} s t) (he : EmptyTable dirs s dir i p)
    (htab : ∀ dir' ∈ dirs, ∀ k < 955, t.table dir' k =
      if dir' = dir ∧ k = i then none else s.table dir' k) :
    FreesTables dirs D held dir {i} s t := by
  refine ⟨?_, ?_, ?_, ?_⟩
  · have : tableFrames s dir {i} = {p} := by
      ext q
      have hp := he.table
      constructor
      · rintro ⟨k, rfl, hq⟩
        rw [hp] at hq
        have := Option.some.inj hq
        change q = p
        omega
      · rintro rfl
        exact ⟨i, rfl, hp⟩
    rw [this]
    exact h
  · rintro k rfl
    exact ⟨p, he⟩
  · rintro k rfl
    rw [htab dir he.dir k he.index, if_pos ⟨rfl, rfl⟩]
  · intro dir' hdir' k hk hne
    rw [htab dir' hdir' k hk, if_neg fun hc => hne ⟨hc.1, hc.2⟩]

/-- A table keeps its entries while others are given back. -/
theorem FreesTables.emptyTable_iff (h : FreesTables dirs D held dir I s t) (hdir : dir ∈ dirs.page)
    (hi : i < 955) (hnot : i ∉ I) : EmptyTable dirs t dir i p ↔ EmptyTable dirs s dir i p := by
  have htab : t.table dir i = s.table dir i :=
    h.stays dir (.inl hdir) i hi fun hc => hnot hc.2
  have hentry : ∀ a, s.table dir i = some a → ∀ j < 1024,
      t.entry (.heap a, j) = s.entry (.heap a, j) := by
    intro a ha j hj
    have hdiv : (i * 1024 + j) / 1024 = i := by omega
    have hmod : (i * 1024 + j) % 1024 = j := by omega
    have := h.leaf dir hdir (i * 1024 + j) (by omega)
    rwa [leaf_of_some (t := a) (by rw [hdiv, htab, ha]), leaf_of_some (t := a) (by rw [hdiv, ha]),
      hmod] at this
  constructor
  · intro he
    have ha := he.table
    rw [htab] at ha
    exact ⟨he.dir, hi, ha, fun j hj => by rw [← hentry _ ha j hj]; exact he.zero j hj⟩
  · intro he
    exact ⟨he.dir, hi, htab.trans he.table, fun j hj => by
      rw [hentry _ he.table j hj]; exact he.zero j hj⟩

theorem FreesTables.trans (h : FreesTables dirs D held dir I s t)
    (h' : FreesTables dirs D held dir J t u) (ho : Directories G dirs s) (hdir : dir ∈ dirs.page)
    (hIJ : ∀ i ∈ J, i ∉ I) : FreesTables dirs D held dir (I ∪ J) s u := by
  have hempty : ∀ i ∈ J, ∃ p, EmptyTable dirs s dir i p := by
    intro i hi
    obtain ⟨p, he⟩ := h'.empty i hi
    exact ⟨p, (h.emptyTable_iff hdir he.index (hIJ i hi)).1 he⟩
  have htab : ∀ i ∈ J, t.table dir i = s.table dir i := by
    intro i hi
    obtain ⟨p, he⟩ := hempty i hi
    exact h.stays dir he.dir i he.index fun hc => hIJ i hi hc.2
  have hpages : tableFrames t dir J = tableFrames s dir J := by
    ext p
    exact exists_congr fun i => and_congr_right fun hi => by rw [htab i hi]
  have hunion : tableFrames s dir (I ∪ J) = tableFrames s dir I ∪ tableFrames s dir J := by
    ext p
    simp only [tableFrames, Set.mem_ofPred_eq, Set.mem_union]
    constructor
    · rintro ⟨i, hi | hi, hp⟩
      · exact .inl ⟨i, hi, hp⟩
      · exact .inr ⟨i, hi, hp⟩
    · rintro (⟨i, hi, hp⟩ | ⟨i, hi, hp⟩)
      · exact ⟨i, .inl hi, hp⟩
      · exact ⟨i, .inr hi, hp⟩
  refine ⟨?_, ?_, ?_, ?_⟩
  · rw [hunion]
    have hf := h'.toFreesPages
    rw [hpages] at hf
    apply h.toFreesPages.trans hf
    rintro p ⟨i, hi, hp⟩ ⟨k, hk, hpk⟩
    -- two entries of one directory name different tables
    obtain ⟨_, hek⟩ := h.empty k hk
    obtain ⟨_, hei⟩ := hempty i hi
    obtain ⟨q, -, hqp, hpr, hn⟩ := ho.table_some (.inl hdir) hek.index hpk
    obtain ⟨r, -, hrp, hpr', hn'⟩ := ho.table_some (.inl hdir) hei.index hp
    have hqr : q = r := by omega
    subst hqr
    have :=
      (ho.pde_inj dir hek.dir k hek.index dir hei.dir i hei.index hpr hpr' (hn.trans hn'.symm)).2
    exact hIJ i hi (this ▸ hk)
  · rintro i (hi | hi)
    · exact h.empty i hi
    · exact hempty i hi
  · rintro i (hi | hi)
    · by_cases hiJ : i ∈ J
      · exact h'.gone i hiJ
      · obtain ⟨p, he⟩ := h.empty i hi
        rw [h'.stays dir he.dir i he.index fun hc => hiJ hc.2, h.gone i hi]
    · exact h'.gone i hi
  · intro dir' hdir' i hi hne
    rw [h'.stays dir' hdir' i hi fun hc => hne ⟨hc.1, .inr hc.2⟩,
      h.stays dir' hdir' i hi fun hc => hne ⟨hc.1, .inl hc.2⟩]

/-- The directory entries of `n` pages from page `p` on. -/
def rangeTables (p n : Nat) : Set Nat := {i | ∃ k < n, i = (p + k) / 1024}

/-- The tables of a range that map nothing. -/
def emptyTables (dirs : Roots) (s : Kern) (dir : DirPtr) (p n : Nat) : Set Nat :=
  {i | i ∈ rangeTables p n ∧ ∃ q, EmptyTable dirs s dir i q}

theorem emptyTables_succ : i ∈ emptyTables dirs s dir p (n + 1) ↔
    (i = p / 1024 ∧ ∃ q, EmptyTable dirs s dir i q) ∨ i ∈ emptyTables dirs s dir (p + 1) n := by
  constructor
  · rintro ⟨⟨k, hk, rfl⟩, he⟩
    cases k with
    | zero => exact .inl ⟨rfl, he⟩
    | succ k => exact .inr ⟨⟨k, by omega, by rw [Nat.add_right_comm, Nat.add_assoc]⟩, he⟩
  · rintro (⟨rfl, he⟩ | ⟨⟨k, hk, rfl⟩, he⟩)
    · exact ⟨⟨0, by omega, rfl⟩, he⟩
    · exact ⟨⟨k + 1, by omega, by rw [Nat.add_right_comm, Nat.add_assoc]⟩, he⟩

/-- The table of the first page is not given back. -/
theorem emptyTables_skip (hva : va < userTop) (hnone : ∀ p, ¬ EmptyTable dirs s dir (pdx va) p) :
    emptyTables dirs s dir (ppn va) (n + 1) = emptyTables dirs s dir (ppn va + 1) n := by
  ext i
  rw [emptyTables_succ]
  refine or_iff_right ?_
  rintro ⟨rfl, q, he⟩
  exact hnone q ((pdx_user hva).1 ▸ he)

/-- The table of the first page is given back, and then those of the other pages. -/
theorem FreesTables.emptyTables_free (h : FreesTables dirs D held dir {pdx va} s t)
    (hdir : dir ∈ dirs.page) (hva : va < userTop) (hn : ppn va + 1 + n ≤ 977920)
    (he : EmptyTable dirs s dir (pdx va) p) :
    emptyTables dirs s dir (ppn va) (n + 1) =
      {pdx va} ∪ emptyTables dirs t dir (ppn va + 1) n := by
  have hpdx := (pdx_user hva).1
  ext i
  rw [emptyTables_succ]
  by_cases hi : i = pdx va
  · exact iff_of_true (.inl ⟨hi.trans hpdx, p, hi ▸ he⟩) (.inl hi)
  · have hright : i ∈ emptyTables dirs s dir (ppn va + 1) n ↔
        i ∈ emptyTables dirs t dir (ppn va + 1) n := by
      refine and_congr_right fun hrange => exists_congr fun q => ?_
      have hi955 : i < 955 := by
        obtain ⟨k, hkn, rfl⟩ := hrange
        omega
      exact (h.emptyTable_iff hdir hi955 hi).symm
    rw [or_iff_right fun hc => hi (hc.1.trans hpdx.symm), hright]
    exact ⟨.inr, fun hc => hc.resolve_left hi⟩

/-- **The loop over the range** gives back exactly the tables of the range that map nothing. -/
theorem MemOk.freeEmptyTables (h : MemOk lay G D dirs held s) (hdir : dir ∈ dirs.page)
    (hva : va + 4096 * n ≤ userTop) (hk : Fos.freeEmptyTables dir va n s = .ok () t) :
    ∃ G', G' ⊆ G ∧ MemOk lay G' D dirs held t ∧
      FreesTables dirs D held dir (emptyTables dirs s dir (ppn va) n) s t := by
  induction n generalizing G s va with
  | zero =>
    obtain ⟨-, rfl⟩ := ok_inj.1 hk
    have : emptyTables dirs s dir (ppn va) 0 = ∅ := by
      ext i
      constructor
      · rintro ⟨⟨k, hk, -⟩, -⟩
        omega
      · exact fun hi => hi.elim
    rw [this]
    exact ⟨G, subset_rfl, h, .refl _ _ _ _ _⟩
  | succ n ih =>
    have hlt : va < userTop := by unfold userTop at hva ⊢; omega
    have hnext : u32 (va + 4096) = va + 4096 := u32_of_lt (by unfold userTop at hva; omega)
    have hppn : ppn (va + 4096) = ppn va + 1 := by unfold ppn; omega
    obtain ⟨hpdx, -⟩ := pdx_user hlt
    obtain ⟨_, s₁, h₁, h₂⟩ := bind_eq_ok.1 hk
    rw [show u32 (va + pageSize) = va + 4096 from hnext] at h₂
    have hrest : va + 4096 + 4096 * n ≤ userTop := by omega
    rcases h.freeEmptyTable hdir hlt h₁ with ⟨rfl, hnone⟩ | ⟨p, he, hok, hfrees, htab⟩
    · obtain ⟨G', hsub, hok', hf⟩ := ih h hrest h₂
      rw [emptyTables_skip hlt hnone, ← hppn]
      exact ⟨G', hsub, hok', hf⟩
    · obtain ⟨G', hsub, hok', hf⟩ := ih hok hrest h₂
      -- the table is gone now, so the rest of the range does not meet it again
      have hone := hfrees.freesTables he htab
      rw [hone.emptyTables_free hdir hlt (by unfold ppn userTop at *; omega) he, ← hppn]
      refine ⟨G', hsub.trans Set.sdiff_subset, hok', hone.trans hf h.directories hdir ?_⟩
      rintro i ⟨-, q, heq⟩ rfl
      have := heq.table
      rw [hone.gone _ rfl] at this
      cases this

end

end Fos
