import Fos.PageTables.Kmalloc

/-!
# Creating a page table

`create_page_table` enters an owned page into a directory and clears it. The directories then name
one table more, and no page-table entry maps a frame that was not mapped before.
-/

namespace Fos

open Function (update)
open Prog (bind_eq_ok ok_inj)

/-! ## Clearing words -/

/-- `s` with the words `k`, …, `k + n - 1` of frame `f` cleared. -/
def Kern.clearWords (s : Kern) (f k n : Nat) : Kern :=
  { s with ram := update s.ram f fun i => if k ≤ i ∧ i < k + n then 0 else s.ram f i }

theorem zeroWords_page {s : Kern} {p k n : Nat} (hm : present (s.kernelTable p))
    (hk : k + n ≤ 1024) :
    zeroWords (p * 4096 + 4 * k) n s = .ok () (s.clearWords (s.kframe p) k n) := by
  induction n generalizing s k with
  | zero =>
    -- an empty range changes no word
    have hnone : ∀ i, ¬ (k ≤ i ∧ i < k + 0) := fun i => by omega
    have hsame : s.clearWords (s.kframe p) k 0 = s := by
      unfold Kern.clearWords
      simp only [hnone, if_false, Function.update_eq_self]
    rw [hsame]
    rfl
  | succ n ih =>
    have hw := writeWord_page (s := s) (t := p * 4096) (i := k) (w := 0) (by omega) (by omega)
      ((mapped_page s p).2 hm)
    rw [kframe_page] at hw
    rw [zeroWords, Prog.bind_of_ok hw, show p * 4096 + 4 * k + 4 = p * 4096 + 4 * (k + 1) by omega,
      ih (s := s.store (s.kframe p) k 0) hm (by omega)]
    have hkf : (s.store (s.kframe p) k 0).kframe p = s.kframe p := rfl
    rw [hkf]
    congr 1
    unfold Kern.clearWords Kern.store
    dsimp only
    rw [Function.update_self, Function.update_idem]
    -- the word just written and the rest of the range make the longer range
    congr 2
    funext i
    by_cases hi : i = k
    · subst hi
      rw [Function.update_self, if_pos (show i ≤ i ∧ i < i + (n + 1) by omega)]
      split <;> rfl
    · rw [Function.update_of_ne hi]
      by_cases hr : k + 1 ≤ i ∧ i < k + 1 + n
      · rw [if_pos hr, if_pos (by omega)]
      · rw [if_neg hr, if_neg (by omega)]

theorem clearWords_ram_self (s : Kern) (f : Nat) {i : Nat} (hi : i < 1024) :
    (s.clearWords f 0 1024).ram f i = 0 := by
  unfold Kern.clearWords
  dsimp only
  rw [Function.update_self, if_pos (by omega)]

theorem clearWords_ram_of_ne (s : Kern) {f g k n : Nat} (h : g ≠ f) :
    (s.clearWords f k n).ram g = s.ram g := Function.update_of_ne h _ _

/-! ## Linking a table -/

section

variable {lay : Layout} {G : Set Nat} {dirs : Roots} {held : Set Nat} {s s' : Kern}
  {dir d₀ : DirPtr} {i i₀ p w : Nat}

/-- The owned page `p` is no directory, and no directory names it. -/
structure Unlinked (dirs : Roots) (s : Kern) (p : Nat) : Prop where
  table : ∀ dir ∈ dirs, ∀ i < 955, present (s.pde dir i) → ppn (s.pde dir i) ≠ s.kframe p
  dir : ∀ d, .heap d ∈ dirs → s.frameAt d ≠ s.kframe p

/-- `s` after entry `i₀` of the directory `d₀` names the cleared page `p`. -/
def Kern.linkTable (s : Kern) (d₀ : DirPtr) (i₀ p w : Nat) : Kern :=
  (s.setPde d₀ i₀ w).clearWords (s.kframe p) 0 1024

@[simp] theorem linkTable_kernelTable : (s.linkTable d₀ i₀ p w).kernelTable = s.kernelTable := by
  cases d₀ <;> rfl

@[simp] theorem linkTable_frames : (s.linkTable d₀ i₀ p w).frames = s.frames := by
  cases d₀ <;> rfl

@[simp] theorem linkTable_heap : (s.linkTable d₀ i₀ p w).heap = s.heap := by
  cases d₀ <;> rfl

@[simp] theorem linkTable_disk : (s.linkTable d₀ i₀ p w).disk = s.disk := by
  cases d₀ <;> rfl

@[simp] theorem linkTable_envs : (s.linkTable d₀ i₀ p w).envs = s.envs := by
  cases d₀ <;> rfl

@[simp] theorem linkTable_shares : (s.linkTable d₀ i₀ p w).shares = s.shares := by
  cases d₀ <;> rfl

@[simp] theorem linkTable_kframe (q : Nat) : (s.linkTable d₀ i₀ p w).kframe q = s.kframe q := by
  unfold Kern.kframe
  rw [linkTable_kernelTable]

/-- Above `USER_TOP` the boot directory keeps its entries. -/
theorem linkTable_kernelDirectory (hi : i₀ < 955) (hj : 955 ≤ i) :
    (s.linkTable d₀ i₀ p w).kernelDirectory i = s.kernelDirectory i := by
  cases d₀ with
  | boot =>
    show update s.kernelDirectory i₀ w i = _
    exact Function.update_of_ne (by omega) _ _
  | heap d => rfl

/-- Of a frame that backs neither the table nor the directory the words stay. -/
theorem linkTable_ram_of_ne {g : Nat} (hp : g ≠ s.kframe p)
    (hd : ∀ d, d₀ = .heap d → g ≠ s.frameAt d) :
    (s.linkTable d₀ i₀ p w).ram g = s.ram g := by
  unfold Kern.linkTable
  rw [clearWords_ram_of_ne _ hp]
  cases d₀ with
  | boot => rfl
  | heap d => exact Function.update_of_ne (hd d rfl) _ _

/-- Only the entry that was written changes in the directories. -/
theorem linkTable_pde (h : Directories G dirs s) (hu : Unlinked dirs s p) (hd₀ : d₀ ∈ dirs)
    (hdir : dir ∈ dirs) : (s.linkTable d₀ i₀ p w).pde dir i =
      if dir = d₀ ∧ i = i₀ then w else s.pde dir i := by
  cases dir with
  | boot =>
    cases d₀ with
    | boot =>
      show update s.kernelDirectory i₀ w i = _
      by_cases hi : i = i₀
      · subst hi
        rw [Function.update_self, if_pos ⟨rfl, rfl⟩]
      · rw [Function.update_of_ne hi, if_neg fun h => hi h.2]
        rfl
    | heap e =>
      rw [if_neg (by simp)]
      rfl
  | heap d =>
    obtain ⟨q, hq, rfl⟩ := h.dir d hdir
    -- the page of the table is not that of a directory, so clearing it changes no entry
    have hqp : s.kframe q ≠ s.kframe p := by
      have := hu.dir _ hdir
      rwa [kframe_page] at this
    show (s.linkTable d₀ i₀ p w).ram ((s.linkTable d₀ i₀ p w).frameAt (q * 4096)) i = _
    rw [kframe_page, linkTable_kframe]
    show ((s.setPde d₀ i₀ w).clearWords (s.kframe p) 0 1024).ram (s.kframe q) i = _
    rw [clearWords_ram_of_ne _ hqp]
    cases d₀ with
    | boot =>
      rw [if_neg (by simp)]
      show s.ram (s.kframe q) i = s.ram (s.frameAt (q * 4096)) i
      rw [kframe_page]
    | heap e =>
      obtain ⟨r, hr, rfl⟩ := h.dir e hd₀
      show (s.store (s.frameAt (r * 4096)) i₀ w).ram (s.kframe q) i =
        if _ then w else s.ram (s.frameAt (q * 4096)) i
      rw [kframe_page, kframe_page, store_ram]
      by_cases hqr : q = r
      · subst hqr
        by_cases hi : i = i₀
        · rw [if_pos ⟨rfl, hi⟩, if_pos ⟨rfl, hi⟩]
        · rw [if_neg fun h => hi h.2, if_neg fun h => hi h.2]
      · have hne : s.kframe q ≠ s.kframe r := fun he => hqr (h.owned.kframe_inj hq hr he)
        have hqr' : ¬ (DirPtr.heap (q * 4096) = DirPtr.heap (r * 4096) ∧ i = i₀) := by
          rintro ⟨he, -⟩
          have := DirPtr.heap.inj he
          omega
        rw [if_neg fun h => hne h.1, if_neg hqr']

/-- The directories with the new table. -/
theorem Directories.linkTable (h : Directories G dirs s) (hu : Unlinked dirs s p) (hp : p ∈ G)
    (hd₀ : d₀ ∈ dirs) (hi₀ : i₀ < 955) (hw : present w) (hwp : ppn w = s.kframe p) :
    Directories G dirs (s.linkTable d₀ i₀ p w) := by
  have hpde : ∀ dir ∈ dirs, ∀ i, (s.linkTable d₀ i₀ p w).pde dir i =
      if dir = d₀ ∧ i = i₀ then w else s.pde dir i :=
    fun dir hdir i => linkTable_pde h hu hd₀ hdir
  -- the new entry names no table and no directory of before
  have hnew : ∀ dir ∈ dirs, ∀ i < 955, present (s.pde dir i) → ppn (s.pde dir i) ≠ ppn w := by
    intro dir hdir i hi hpr
    rw [hwp]
    exact hu.table dir hdir i hi hpr
  refine ⟨⟨h.owned.heapPage, ?_, ?_⟩, ?_, h.dir, ?_, ?_, ?_, ?_, ?_, ?_⟩
  · rw [linkTable_kernelTable]
    exact h.owned.mapped
  · intro q hq
    rw [linkTable_frames, linkTable_kframe]
    exact h.owned.back q hq
  · intro i h1 h2
    rw [linkTable_kernelDirectory hi₀ (by omega)]
    exact h.heapTables i h1 h2
  · intro dir hdir i hi
    rw [hpde dir hdir i]
    split
    · exact fun hnp => absurd hw hnp
    · exact h.pde_zero dir hdir i hi
  · intro dir hdir i hi hpr
    rw [hpde dir hdir i] at hpr ⊢
    split at hpr
    case isTrue hc =>
      rw [if_pos hc]
      exact ⟨p, hp, by rw [linkTable_kframe]; exact hwp⟩
    case isFalse hc =>
      rw [if_neg hc]
      obtain ⟨q, hq, he⟩ := h.pde_owned dir hdir i hi hpr
      exact ⟨q, hq, by rw [linkTable_kframe]; exact he⟩
  · intro dir hdir i hi dir' hdir' i' hi' hpr hpr' he
    rw [hpde dir hdir i] at hpr he
    rw [hpde dir' hdir' i'] at hpr' he
    split at hpr
    case isTrue hc =>
      rw [if_pos hc] at he
      split at hpr'
      case isTrue hc' => exact ⟨hc.1.trans hc'.1.symm, hc.2.trans hc'.2.symm⟩
      case isFalse hc' =>
        rw [if_neg hc'] at he
        exact absurd he.symm (hnew dir' hdir' i' hi' hpr')
    case isFalse hc =>
      rw [if_neg hc] at he
      split at hpr'
      case isTrue hc' =>
        rw [if_pos hc'] at he
        exact absurd he (hnew dir hdir i hi hpr)
      case isFalse hc' =>
        rw [if_neg hc'] at he
        exact h.pde_inj dir hdir i hi dir' hdir' i' hi' hpr hpr' he
  · intro dir hdir i hi hpr d hd
    rw [hpde dir hdir i] at hpr ⊢
    obtain ⟨q, hq, rfl⟩ := h.dir d hd
    rw [kframe_page, linkTable_kframe, ← kframe_page]
    split at hpr
    case isTrue hc =>
      rw [if_pos hc, hwp]
      exact (hu.dir _ hd).symm
    case isFalse hc =>
      rw [if_neg hc]
      exact h.pde_ne_dir dir hdir i hi hpr _ hd
  · intro d hd i h1 h2 h3 h4
    rw [hpde _ (.inl hd) i, if_neg fun hc => by omega, linkTable_kernelDirectory hi₀ h1]
    exact h.kernelPart d hd i h1 h2 h3 h4
  · intro d hd i h1 h2
    rw [hpde _ (.inr hd) i, if_neg fun hc => by omega]
    exact h.diskPart d hd i h1 h2

/-! ## What a directory leads to -/

/-- The word for page `p` under a directory, zero where there is no table. -/
def Kern.leaf (s : Kern) (dir : DirPtr) (p : Nat) : Nat :=
  match s.table dir (p / 1024) with
  | some t => s.entry (.heap t, p % 1024)
  | none => 0

theorem leaf_of_some {t : Nat} (h : s.table dir (p / 1024) = some t) :
    s.leaf dir p = s.entry (.heap t, p % 1024) := by
  unfold Kern.leaf
  rw [h]

theorem leaf_of_none (h : s.table dir (p / 1024) = none) : s.leaf dir p = 0 := by
  unfold Kern.leaf
  rw [h]

/-- The directories name the tables they named before, and the new one. -/
theorem linkTable_table (h : Directories G dirs s) (hu : Unlinked dirs s p) (hp : p ∈ G)
    (hd₀ : d₀ ∈ dirs) (hi₀ : i₀ < 955) (hw : present w) (hwp : ppn w = s.kframe p)
    (hdir : dir ∈ dirs) (hi : i < 955) : (s.linkTable d₀ i₀ p w).table dir i =
      if dir = d₀ ∧ i = i₀ then some (p * 4096) else s.table dir i := by
  have h' := h.linkTable hu hp hd₀ hi₀ hw hwp
  have hpde : (s.linkTable d₀ i₀ p w).pde dir i = _ := linkTable_pde h hu hd₀ hdir
  by_cases hc : dir = d₀ ∧ i = i₀
  · rw [if_pos hc]
    rw [if_pos hc] at hpde
    refine h'.table_eq (by rwa [hpde]) hp ?_
    rw [hpde, linkTable_kframe]
    exact hwp
  · rw [if_neg hc]
    rw [if_neg hc] at hpde
    exact h.table_congr h' (fun q _ => by rw [linkTable_kernelTable]) hdir hi hpde

/-- The entries of the tables named before stay. -/
theorem linkTable_entry (h : Directories G dirs s) (hu : Unlinked dirs s p) (hd₀ : d₀ ∈ dirs)
    (hdir : dir ∈ dirs) (hi : i < 955) {t j : Nat} (ht : s.table dir i = some t) :
    (s.linkTable d₀ i₀ p w).entry (.heap t, j) = s.entry (.heap t, j) := by
  obtain ⟨q, hq, rfl, hpr, he⟩ := h.table_some hdir hi ht
  show (s.linkTable d₀ i₀ p w).ram ((s.linkTable d₀ i₀ p w).frameAt (q * 4096)) j = _
  rw [kframe_page, linkTable_kframe, linkTable_ram_of_ne]
  · show _ = s.ram (s.frameAt (q * 4096)) j
    rw [kframe_page]
  · rw [← he]
    exact hu.table dir hdir i hi hpr
  · rintro d rfl
    rw [← he]
    exact h.pde_ne_dir dir hdir i hi hpr d hd₀

/-- The new table is clear. -/
theorem linkTable_entry_new {j : Nat} (hj : j < 1024) :
    (s.linkTable d₀ i₀ p w).entry (.heap (p * 4096), j) = 0 := by
  show (s.linkTable d₀ i₀ p w).ram ((s.linkTable d₀ i₀ p w).frameAt (p * 4096)) j = 0
  rw [kframe_page, linkTable_kframe]
  exact clearWords_ram_self _ _ hj

/-- No page is mapped that was not mapped before. -/
theorem linkTable_leaf (h : Directories G dirs s) (hu : Unlinked dirs s p) (hp : p ∈ G)
    (hd₀ : d₀ ∈ dirs) (hi₀ : i₀ < 955) (hw : present w) (hwp : ppn w = s.kframe p)
    (hnp : ¬ present (s.pde d₀ i₀)) (hdir : dir ∈ dirs) {q : Nat} (hq : q < 977920) :
    (s.linkTable d₀ i₀ p w).leaf dir q = s.leaf dir q := by
  have ht := linkTable_table (i := q / 1024) h hu hp hd₀ hi₀ hw hwp hdir (by omega)
  by_cases hc : dir = d₀ ∧ q / 1024 = i₀
  · rw [if_pos hc] at ht
    have hnone : s.table dir (q / 1024) = none := by
      rw [hc.1, hc.2]
      unfold Kern.table
      rw [if_neg hnp]
    rw [leaf_of_some ht, leaf_of_none hnone]
    exact linkTable_entry_new (by omega)
  · rw [if_neg hc] at ht
    cases hold : s.table dir (q / 1024) with
    | none => rw [leaf_of_none hold, leaf_of_none (ht.trans hold)]
    | some t =>
      rw [leaf_of_some hold, leaf_of_some (ht.trans hold)]
      exact linkTable_entry h hu hd₀ hdir (by omega) hold

/-- The live entries are those of before and the entries of the new table, which are zero. -/
theorem linkTable_live (lay : Layout) (h : Directories G dirs s)
    (hu : Unlinked dirs s p) (hp : p ∈ G)
    (hd₀ : d₀ ∈ dirs) (hi₀ : i₀ < 955) (hw : present w) (hwp : ppn w = s.kframe p)
    (hnp : ¬ present (s.pde d₀ i₀)) (x : Slot) :
    (x ∈ liveSlots lay dirs s → x ∈ liveSlots lay dirs (s.linkTable d₀ i₀ p w) ∧
      (s.linkTable d₀ i₀ p w).entry x = s.entry x) ∧
    (x ∈ liveSlots lay dirs (s.linkTable d₀ i₀ p w) → x ∉ liveSlots lay dirs s →
      (s.linkTable d₀ i₀ p w).entry x = 0) := by
  obtain ⟨t, j⟩ := x
  -- the tables are those of before and the one that is linked
  have htab := fun (dir : DirPtr) hdir (i : Nat) hi =>
    linkTable_table h hu hp hd₀ hi₀ hw hwp (show dir ∈ dirs from hdir) (show i < 955 from hi)
  cases t with
  | boot d =>
    refine ⟨fun hx => ⟨hx, ?_⟩, fun hx hnot => absurd hx hnot⟩
    show (s.linkTable d₀ i₀ p w).kernelTable _ = _
    rw [linkTable_kernelTable]
    rfl
  | directory => exact ⟨fun hx => hx.2.elim, fun hx => hx.2.elim⟩
  | heap t =>
    constructor
    · rintro ⟨hj, dir, hdir, i, hi, ht⟩
      have hne : ¬ (dir = d₀ ∧ i = i₀) := by
        rintro ⟨rfl, rfl⟩
        unfold Kern.table at ht
        rw [if_neg hnp] at ht
        cases ht
      refine ⟨⟨hj, dir, hdir, i, hi, ?_⟩, linkTable_entry h hu hd₀ (.inl hdir) hi ht⟩
      rw [htab dir (.inl hdir) i hi, if_neg hne]
      exact ht
    · rintro ⟨hj, dir, hdir, i, hi, ht⟩ hnot
      rw [htab dir (.inl hdir) i hi] at ht
      by_cases hc : dir = d₀ ∧ i = i₀
      · rw [if_pos hc] at ht
        cases ht
        exact linkTable_entry_new hj
      · rw [if_neg hc] at ht
        exact absurd ⟨hj, dir, hdir, i, hi, ht⟩ hnot

theorem linkTable_mapping (lay : Layout) (h : Directories G dirs s)
    (hu : Unlinked dirs s p) (hp : p ∈ G)
    (hd₀ : d₀ ∈ dirs) (hi₀ : i₀ < 955) (hw : present w) (hwp : ppn w = s.kframe p)
    (hnp : ¬ present (s.pde d₀ i₀)) :
    (s.linkTable d₀ i₀ p w).mapping (liveSlots lay dirs (s.linkTable d₀ i₀ p w)) =
      s.mapping (liveSlots lay dirs s) := by
  funext x
  obtain ⟨hold, hnew⟩ := linkTable_live lay h hu hp hd₀ hi₀ hw hwp hnp x
  unfold Kern.mapping
  by_cases hx : x ∈ liveSlots lay dirs s
  · obtain ⟨hx', he⟩ := hold hx
    simp only [hx, hx', he]
  · rw [if_neg (fun h => hx h.1 : ¬ (x ∈ liveSlots lay dirs s ∧ present (s.entry x))), if_neg]
    intro hc
    rw [hnew hc.1 hx] at hc
    exact not_present_zero hc.2

/-- A cleared owned page becomes a table. -/
theorem Accounted.linkTable (h : Accounted lay G dirs held s) (hu : Unlinked dirs s p) (hp : p ∈ G)
    (hd₀ : d₀ ∈ dirs) (hi₀ : i₀ < 955) (hw : present w) (hwp : ppn w = s.kframe p)
    (hnp : ¬ present (s.pde d₀ i₀)) :
    Accounted lay G dirs held (s.linkTable d₀ i₀ p w) := by
  have hmap := linkTable_mapping lay h.directories hu hp hd₀ hi₀ hw hwp hnp
  refine ⟨h.directories.linkTable hu hp hd₀ hi₀ hw hwp, ?_, ?_, ?_, ?_, ?_⟩
  · rw [hmap, linkTable_frames]
    refine h.counted.congr fun f _ => ?_
    unfold Kern.references
    rw [linkTable_frames]
  · intro q hq x hx
    rw [hmap, linkTable_kframe] at hx
    exact h.unshared q hq x hx
  · intro x hx hnp'
    obtain ⟨hold, hnew⟩ := linkTable_live lay h.directories hu hp hd₀ hi₀ hw hwp hnp x
    by_cases hxo : x ∈ liveSlots lay dirs s
    · rw [(hold hxo).2] at hnp' ⊢
      exact h.entry_zero x hxo hnp'
    · exact hnew hx hxo
  · rw [linkTable_frames]
    exact h.inRange
  · rw [linkTable_frames]
    exact h.outside

theorem HeapOk.linkTable (hs : HeapOk s) (hi₀ : i₀ < 955) : HeapOk (s.linkTable d₀ i₀ p w) := by
  refine ⟨?_, ?_, ?_, ?_, ?_, ?_⟩
  · intro i h1 h2
    rw [linkTable_kernelDirectory hi₀ (by omega)]
    exact hs.tables i h1 h2
  · rw [linkTable_heap]
    exact hs.wf
  · rw [linkTable_heap]
    exact hs.apart
  · rw [linkTable_heap, linkTable_kernelTable]
    exact hs.present_iff
  · rw [linkTable_heap, linkTable_kernelTable]
    exact hs.zero
  · rw [linkTable_heap]
    exact hs.source

end

end Fos
