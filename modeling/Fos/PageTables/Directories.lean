import Fos.PageTables

/-!
# Directories and their tables

Page directories and page tables are pages of the kernel heap. They are `Owned`: the address that
`frames_info` keeps for their frames is their own, so that it leads back from a directory entry to
the table. `Writable` is an entry that can be overwritten without touching them.
-/

namespace Fos

open Function (update)

/-! ## Owned pages and directories -/

/-- The pages `G` of the kernel heap are mapped, and their frames lead back to them. -/
structure Owned (G : Set Nat) (s : Kern) : Prop where
  heapPage : ∀ p ∈ G, HeapPage p
  mapped : ∀ p ∈ G, present (s.kernelTable p)
  back : ∀ p ∈ G, (s.frames.info (s.kframe p)).va = p * 4096

theorem Owned.kframe_inj {G : Set Nat} {s : Kern} (h : Owned G s) {p q : Nat} (hp : p ∈ G)
    (hq : q ∈ G) (he : s.kframe p = s.kframe q) : p = q := by
  have h1 := h.back p hp
  rw [he, h.back q hq] at h1
  omega

theorem kframe_page (s : Kern) (p : Nat) : s.frameAt (p * 4096) = s.kframe p := by
  unfold Kern.frameAt Kern.kframe
  rw [ppn_page]

theorem mapped_page (s : Kern) (p : Nat) : s.Mapped (p * 4096) ↔ present (s.kernelTable p) := by
  unfold Kern.Mapped
  rw [ppn_page]

/-- The directories in use: the page directories, and the disk directories of the page file. -/
structure Roots where
  page : List DirPtr
  disk : List DirPtr
  apart : ∀ dir ∈ page, dir ∉ disk

instance : Membership DirPtr Roots := ⟨fun dirs dir => dir ∈ dirs.page ∨ dir ∈ dirs.disk⟩

/-- The directories `dirs` are owned pages, their entries below `USER_TOP` name distinct owned
pages, and above it the page directories have the entries of the boot directory. -/
structure Directories (G : Set Nat) (dirs : Roots) (s : Kern) : Prop where
  owned : Owned G s
  heapTables : HeapTables s
  dir : ∀ d, .heap d ∈ dirs → ∃ p ∈ G, d = p * 4096
  pde_zero : ∀ dir ∈ dirs, ∀ i < 955, ¬ present (s.pde dir i) → s.pde dir i = 0
  pde_owned : ∀ dir ∈ dirs, ∀ i < 955, present (s.pde dir i) →
    ∃ p ∈ G, ppn (s.pde dir i) = s.kframe p
  pde_inj : ∀ dir ∈ dirs, ∀ i < 955, ∀ dir' ∈ dirs, ∀ i' < 955, present (s.pde dir i) →
    present (s.pde dir' i') → ppn (s.pde dir i) = ppn (s.pde dir' i') → dir = dir' ∧ i = i'
  pde_ne_dir : ∀ dir ∈ dirs, ∀ i < 955, present (s.pde dir i) → ∀ d, .heap d ∈ dirs →
    ppn (s.pde dir i) ≠ s.frameAt d
  kernelPart : ∀ d, .heap d ∈ dirs.page → ∀ i, 955 ≤ i → i < 1024 → i ≠ 957 → i ≠ 959 →
    s.pde (.heap d) i = s.kernelDirectory i
  diskPart : ∀ d, .heap d ∈ dirs.disk → ∀ i, 955 ≤ i → i < 1024 → s.pde (.heap d) i = 0

section

variable {G : Set Nat} {dirs : Roots} {s s' : Kern} {dir : DirPtr} {i t p : Nat}

theorem HeapPage.addr_lt (hp : HeapPage p) : p * 4096 < 4294967296 := by
  unfold HeapPage at hp
  omega

theorem HeapPage.ne_zero (hp : HeapPage p) : p * 4096 ≠ 0 := by
  unfold HeapPage at hp
  omega

/-- The address kept for the frame of an owned page is the page. -/
theorem Owned.kheapVirtualAddress (h : Owned G s) (hp : p ∈ G) {e : Nat}
    (he : ppn e = s.kframe p) :
    Fos.kheapVirtualAddress s (extractAddress e) = p * 4096 := by
  have hmod : extractAddress e % 4096 = 0 := by unfold extractAddress; omega
  unfold Fos.kheapVirtualAddress
  rw [ppn_extractAddress, he, h.back p hp, hmod, Nat.add_zero, u32_of_lt (h.heapPage p hp).addr_lt]

theorem Directories.table_eq (h : Directories G dirs s) (hpr : present (s.pde dir i)) (hp : p ∈ G)
    (he : ppn (s.pde dir i) = s.kframe p) : s.table dir i = some (p * 4096) := by
  unfold Kern.table
  rw [if_pos hpr, h.owned.kheapVirtualAddress hp he]

/-- A table that a directory names is an owned page, and the entry holds its frame. -/
theorem Directories.table_some (h : Directories G dirs s) (hd : dir ∈ dirs) (hi : i < 955)
    (ht : s.table dir i = some t) :
    ∃ p ∈ G, t = p * 4096 ∧ present (s.pde dir i) ∧ ppn (s.pde dir i) = s.kframe p := by
  by_cases hpr : present (s.pde dir i)
  · obtain ⟨p, hp, he⟩ := h.pde_owned dir hd i hi hpr
    rw [h.table_eq hpr hp he, Option.some.injEq] at ht
    exact ⟨p, hp, ht.symm, hpr, he⟩
  · unfold Kern.table at ht
    rw [if_neg hpr] at ht
    cases ht

theorem Directories.reachDir (h : Directories G dirs s) (hd : dir ∈ dirs) : s.ReachDir dir := by
  cases dir with
  | boot => trivial
  | heap d =>
    obtain ⟨p, hp, rfl⟩ := h.dir d hd
    exact ⟨by omega, (mapped_page s p).2 (h.owned.mapped p hp)⟩

theorem Owned.reach (h : Owned G s) (hp : p ∈ G) : s.Reach (.heap (p * 4096)) :=
  ⟨(h.heapPage p hp).ne_zero, by omega, (mapped_page s p).2 (h.mapped p hp)⟩

/-- The directories are kept when their words, the entries of the owned pages and the addresses of
their frames are. -/
theorem Directories.congr (h : Directories G dirs s)
    (hk : ∀ p ∈ G, s'.kernelTable p = s.kernelTable p)
    (hv : ∀ p ∈ G, (s'.frames.info (s.kframe p)).va = (s.frames.info (s.kframe p)).va)
    (hpde : ∀ dir ∈ dirs, ∀ i < 1024, s'.pde dir i = s.pde dir i)
    (hd : s'.kernelDirectory = s.kernelDirectory) : Directories G dirs s' := by
  have hkf : ∀ p ∈ G, s'.kframe p = s.kframe p := by
    intro p hp
    unfold Kern.kframe
    rw [hk p hp]
  have hpde' : ∀ dir ∈ dirs, ∀ i < 955, s'.pde dir i = s.pde dir i :=
    fun dir hdir i hi => hpde dir hdir i (by omega)
  refine ⟨⟨h.owned.heapPage, ?_, ?_⟩, ?_, h.dir, ?_, ?_, ?_, ?_, ?_, ?_⟩
  · intro p hp
    rw [hk p hp]
    exact h.owned.mapped p hp
  · intro p hp
    rw [hkf p hp, hv p hp]
    exact h.owned.back p hp
  · unfold HeapTables
    rw [hd]
    exact h.heapTables
  · intro dir hdir i hi
    rw [hpde' dir hdir i hi]
    exact h.pde_zero dir hdir i hi
  · intro dir hdir i hi hpr
    rw [hpde' dir hdir i hi] at hpr ⊢
    obtain ⟨p, hp, he⟩ := h.pde_owned dir hdir i hi hpr
    exact ⟨p, hp, he.trans (hkf p hp).symm⟩
  · intro dir hdir i hi dir' hdir' i' hi'
    rw [hpde' dir hdir i hi, hpde' dir' hdir' i' hi']
    exact h.pde_inj dir hdir i hi dir' hdir' i' hi'
  · intro dir hdir i hi hpr d hmem
    rw [hpde' dir hdir i hi] at hpr ⊢
    obtain ⟨p, hp, rfl⟩ := h.dir d hmem
    have hne := h.pde_ne_dir dir hdir i hi hpr _ hmem
    rw [kframe_page] at hne ⊢
    rwa [hkf p hp]
  · intro d hmem i h1 h2 h3 h4
    rw [hpde _ (.inl hmem) i h2, hd]
    exact h.kernelPart d hmem i h1 h2 h3 h4
  · intro d hmem i h1 h2
    rw [hpde _ (.inr hmem) i h2]
    exact h.diskPart d hmem i h1 h2

/-- Then the directories name the same tables. -/
theorem Directories.table_congr (h : Directories G dirs s) (h' : Directories G dirs s')
    (hk : ∀ p ∈ G, s'.kernelTable p = s.kernelTable p) (hdir : dir ∈ dirs) (hi : i < 955)
    (hpde : s'.pde dir i = s.pde dir i) : s'.table dir i = s.table dir i := by
  by_cases hpr : present (s.pde dir i)
  · obtain ⟨p, hp, he⟩ := h.pde_owned dir hdir i hi hpr
    rw [h.table_eq hpr hp he]
    refine h'.table_eq (by rwa [hpde]) hp ?_
    rw [hpde, he]
    unfold Kern.kframe
    rw [hk p hp]
  · unfold Kern.table
    rw [hpde, if_neg hpr, if_neg hpr]

end

/-! ## Live entries -/

/-- What boot fixes: the frames that are free at some time, the kernel pages whose entries are not
static, and the descriptors of the other frames. `lost` counts the references of a frame whose
entries the program loader overwrote. -/
structure Layout where
  pool : Set Nat
  dynamic : Set Nat
  outside : Nat → FrameInfo
  lost : Nat → Nat
  heap_dynamic : ∀ p, HeapPage p → p ∈ dynamic
  dynamic_kernel : ∀ p ∈ dynamic, 977920 ≤ p ∧ p < 1048576 ∧ p / 1024 ≠ 957 ∧ p / 1024 ≠ 959
  pool_lt : ∀ f ∈ pool, f < 1048576
  pool_ge : ∀ f ∈ pool, 3 ≤ f

/-- The page-table entries that are not static: those of the dynamic kernel pages and of every
table that one of the page directories names. -/
def liveSlots (lay : Layout) (dirs : Roots) (s : Kern) : Set Slot :=
  {x | x.2 < 1024 ∧ match x.1 with
    | .boot d => d * 1024 + x.2 ∈ lay.dynamic
    | .directory => False
    | .heap t => ∃ dir ∈ dirs.page, ∃ i < 955, s.table dir i = some t}

open Classical in
/-- The frame that an entry of `live` maps. -/
noncomputable def Kern.mapping (s : Kern) (live : Set Slot) (x : Slot) : Option Nat :=
  if x ∈ live ∧ present (s.entry x) then some (ppn (s.entry x)) else none

section

variable {lay : Layout} {G : Set Nat} {dirs : Roots} {s s' : Kern} {x y : Slot} {f p w : Nat}
  {live : Set Slot}

theorem mapping_eq_some : s.mapping live x = some f ↔
    x ∈ live ∧ present (s.entry x) ∧ ppn (s.entry x) = f := by
  unfold Kern.mapping
  split
  case isTrue h => simp [h.1, h.2]
  case isFalse h =>
    simp only [reduceCtorEq, false_iff]
    exact fun h' => h ⟨h'.1, h'.2.1⟩

theorem mapping_of_present (hx : x ∈ live) (hp : present (s.entry x)) :
    s.mapping live x = some (ppn (s.entry x)) := mapping_eq_some.2 ⟨hx, hp, rfl⟩

theorem mapping_of_not_present (hp : ¬ present (s.entry x)) : s.mapping live x = none := by
  unfold Kern.mapping
  rw [if_neg fun h => hp h.2]

theorem mapping_congr (h : ∀ y ∈ live, s'.entry y = s.entry y) :
    s'.mapping live = s.mapping live := by
  funext y
  unfold Kern.mapping
  by_cases hy : y ∈ live
  · rw [h y hy]
  · rw [if_neg fun h => hy h.1, if_neg fun h => hy h.1]

/-- Overwriting one live entry changes the mapping there. -/
theorem mapping_update (hx : x ∈ live) (hw : s'.entry x = w)
    (h : ∀ y ∈ live, y ≠ x → s'.entry y = s.entry y) :
    s'.mapping live = update (s.mapping live) x (if present w then some (ppn w) else none) := by
  funext y
  by_cases hyx : y = x
  · subst hyx
    rw [Function.update_self]
    unfold Kern.mapping
    rw [hw]
    by_cases hp : present w
    · rw [if_pos ⟨hx, hp⟩, if_pos hp]
    · rw [if_neg fun h => hp h.2, if_neg hp]
  · rw [Function.update_of_ne hyx]
    unfold Kern.mapping
    by_cases hy : y ∈ live
    · rw [h y hy hyx]
    · rw [if_neg fun h => hy h.1, if_neg fun h => hy h.1]

theorem bootSlot_live (hp : p ∈ lay.dynamic) : bootSlot p ∈ liveSlots lay dirs s := by
  refine ⟨Nat.mod_lt _ (by decide), ?_⟩
  show p / 1024 * 1024 + p % 1024 ∈ lay.dynamic
  rwa [show p / 1024 * 1024 + p % 1024 = p by omega]

theorem liveSlots_congr (h : ∀ dir ∈ dirs.page, ∀ i < 955, s'.table dir i = s.table dir i) :
    liveSlots lay dirs s' = liveSlots lay dirs s := by
  ext ⟨t, i⟩
  cases t with
  | boot d => exact Iff.rfl
  | directory => exact Iff.rfl
  | heap t =>
    apply and_congr_right
    intro _
    constructor
    · rintro ⟨dir, hdir, i, hi, he⟩
      exact ⟨dir, hdir, i, hi, (h dir hdir i hi) ▸ he⟩
    · rintro ⟨dir, hdir, i, hi, he⟩
      exact ⟨dir, hdir, i, hi, (h dir hdir i hi).trans he⟩

/-- A live entry is one of a dynamic kernel page, or lies in a table on an owned page. -/
theorem liveSlots_cases (h : Directories G dirs s) (hx : x ∈ liveSlots lay dirs s) :
    (∃ p ∈ lay.dynamic, x = bootSlot p) ∨
    ∃ p ∈ G, ∃ j < 1024, x = (.heap (p * 4096), j) ∧ ∀ d, .heap d ∈ dirs →
      s.kframe p ≠ s.frameAt d := by
  obtain ⟨t, j⟩ := x
  obtain ⟨hj, hx⟩ := hx
  cases t with
  | boot d => exact .inl ⟨_, hx, slot_eq_bootSlot hj⟩
  | directory => exact hx.elim
  | heap t =>
    obtain ⟨dir, hdir, i, hi, ht⟩ := hx
    obtain ⟨p, hp, rfl, hpr, he⟩ := h.table_some (.inl hdir) hi ht
    refine .inr ⟨p, hp, j, hj, rfl, fun d hd => ?_⟩
    rw [← he]
    exact h.pde_ne_dir dir (.inl hdir) i hi hpr d hd

/-! ## Overwriting an entry -/

/-- The entry is live and does not map an owned page. -/
structure Writable (lay : Layout) (G : Set Nat) (dirs : Roots) (s : Kern) (x : Slot) :
    Prop where
  live : x ∈ liveSlots lay dirs s
  notOwned : ∀ p ∈ G, x ≠ bootSlot p

/-- Writing an entry changes no entry of an owned page. -/
theorem Writable.kernelTable (h : Directories G dirs s) (hx : Writable lay G dirs s x) (w : Nat)
    (hp : p ∈ G) : (s.setEntry x w).kernelTable p = s.kernelTable p := by
  rcases liveSlots_cases h hx.live with ⟨q, -, rfl⟩ | ⟨q, -, j, -, rfl, -⟩
  · rw [setEntry_bootSlot]
    show update s.kernelTable q w p = _
    refine Function.update_of_ne ?_ _ _
    rintro rfl
    exact hx.notOwned p hp rfl
  · rfl

theorem Writable.kframe (h : Directories G dirs s) (hx : Writable lay G dirs s x) (w : Nat)
    (hp : p ∈ G) : (s.setEntry x w).kframe p = s.kframe p := by
  unfold Kern.kframe
  rw [hx.kernelTable h w hp]

/-- Writing an entry changes no directory. -/
theorem Writable.pde (h : Directories G dirs s) (hx : Writable lay G dirs s x) (w : Nat)
    {dir : DirPtr} (hdir : dir ∈ dirs) (i : Nat) : (s.setEntry x w).pde dir i = s.pde dir i := by
  cases dir with
  | boot => exact congrFun (setEntry_kernelDirectory s x w) i
  | heap d =>
    obtain ⟨q, hq, rfl⟩ := h.dir d hdir
    show (s.setEntry x w).ram ((s.setEntry x w).frameAt (q * 4096)) i = s.ram (s.frameAt (q * 4096)) i
    rw [kframe_page, kframe_page, hx.kframe h w hq]
    rcases liveSlots_cases h hx.live with ⟨r, -, rfl⟩ | ⟨r, hr, j, -, rfl, hne⟩
    · rw [setEntry_bootSlot]
      rfl
    · have hne' := hne _ hdir
      rw [kframe_page] at hne'
      show (s.store (s.frameAt (r * 4096)) j w).ram (s.kframe q) i = _
      rw [store_ram, kframe_page, if_neg fun h => hne' h.1.symm]

theorem Writable.directories (h : Directories G dirs s) (hx : Writable lay G dirs s x) (w : Nat) :
    Directories G dirs (s.setEntry x w) := by
  refine h.congr (fun p hp => hx.kernelTable h w hp) (fun p _ => ?_)
    (fun dir hdir i _ => hx.pde h w hdir i) (setEntry_kernelDirectory s x w)
  rw [setEntry_frames]

theorem Writable.liveSlots (h : Directories G dirs s) (hx : Writable lay G dirs s x) (w : Nat) :
    liveSlots lay dirs (s.setEntry x w) = liveSlots lay dirs s :=
  liveSlots_congr fun _ hdir i hi => h.table_congr (hx.directories h w)
    (fun _ hp => hx.kernelTable h w hp) (.inl hdir) hi (hx.pde h w (.inl hdir) i)

/-- The entry written reads back. -/
theorem Writable.entry_self (h : Directories G dirs s) (hx : Writable lay G dirs s x) (w : Nat) :
    (s.setEntry x w).entry x = w := by
  rcases liveSlots_cases h hx.live with ⟨q, -, rfl⟩ | ⟨q, -, j, -, rfl, -⟩
  · rw [setEntry_bootSlot, entry_bootSlot]
    show update s.kernelTable q w q = w
    exact Function.update_self _ _ _
  · show (s.store (s.frameAt (q * 4096)) j w).ram (s.frameAt (q * 4096)) j = w
    rw [store_ram, if_pos ⟨rfl, rfl⟩]

/-- No other live entry changes. -/
theorem Writable.entry_of_ne (h : Directories G dirs s) (hx : Writable lay G dirs s x) (w : Nat)
    (hy : y ∈ Fos.liveSlots lay dirs s) (hyx : y ≠ x) : (s.setEntry x w).entry y = s.entry y := by
  rcases liveSlots_cases h hy with ⟨q, -, rfl⟩ | ⟨q, hq, j, -, rfl, -⟩
  · rw [entry_bootSlot, entry_bootSlot]
    rcases liveSlots_cases h hx.live with ⟨r, -, rfl⟩ | ⟨r, hr, k, -, rfl, -⟩
    · rw [setEntry_bootSlot]
      show update s.kernelTable r w q = _
      refine Function.update_of_ne ?_ _ _
      rintro rfl
      exact hyx rfl
    · rfl
  · show (s.setEntry x w).ram ((s.setEntry x w).frameAt (q * 4096)) j = s.ram (s.frameAt (q * 4096)) j
    rw [kframe_page, kframe_page, hx.kframe h w hq]
    rcases liveSlots_cases h hx.live with ⟨r, -, rfl⟩ | ⟨r, hr, k, -, rfl, -⟩
    · rw [setEntry_bootSlot]
      rfl
    · show (s.store (s.frameAt (r * 4096)) k w).ram (s.kframe q) j = _
      rw [store_ram, kframe_page, if_neg]
      rintro ⟨hf, rfl⟩
      apply hyx
      rw [h.owned.kframe_inj hq hr hf]

/-- Writing an entry updates the mapping there. -/
theorem Writable.mapping (h : Directories G dirs s) (hx : Writable lay G dirs s x) (w : Nat) :
    (s.setEntry x w).mapping (Fos.liveSlots lay dirs (s.setEntry x w)) =
      update (s.mapping (Fos.liveSlots lay dirs s)) x
        (if present w then some (ppn w) else none) := by
  rw [hx.liveSlots h w]
  exact mapping_update hx.live (hx.entry_self h w) fun y hy hyx => hx.entry_of_ne h w hy hyx

end

end Fos
