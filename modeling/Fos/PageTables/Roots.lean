import Fos.PageTables.Release

/-!
# Directories and tables come and go

A cleared owned page becomes a directory, and a table all of whose entries are zero is given back:
its directory entry is cleared and its page leaves the owned ones.
-/

namespace Fos

open Function (update)
open Prog (bind_eq_ok ok_inj)

section

variable {lay : Layout} {G G' D : Set Nat} {dirs dirs' : Roots} {held : Set Nat} {s s' t : Kern}
  {dir d₀ : DirPtr} {f i i₀ p q va : Nat} {words : Nat → Nat}

theorem fill_ram_self : (s.fill f words).ram f = words := Function.update_self _ _ _

theorem fill_ram_of_ne {g : Nat} (h : g ≠ f) : (s.fill f words).ram g = s.ram g :=
  Function.update_of_ne h _ _

/-! ## A new directory -/

/-- Filling a page that no directory leads to changes no directory. -/
theorem fill_pde (hu : Unlinked dirs s p) (hdir : dir ∈ dirs) :
    (s.fill (s.kframe p) words).pde dir i = s.pde dir i := by
  cases dir with
  | boot => rfl
  | heap d =>
    have hne := hu.dir d hdir
    show (s.fill (s.kframe p) words).ram (s.frameAt d) i = s.ram (s.frameAt d) i
    rw [fill_ram_of_ne hne]

/-- The page itself, read as a directory. -/
theorem fill_pde_new :
    (s.fill (s.kframe p) words).pde (.heap (p * 4096)) i = words i := by
  show (s.fill (s.kframe p) words).ram (s.frameAt (p * 4096)) i = _
  rw [kframe_page, fill_ram_self]

/-- What a new directory needs: its page is owned and not led to, its entries below `USER_TOP` are
zero, and those of a page directory above are copied. -/
structure NewRoot (G : Set Nat) (dirs dirs' : Roots) (s : Kern) (p : Nat) (words : Nat → Nat) :
    Prop where
  owned : p ∈ G
  unlinked : Unlinked dirs s p
  root : ∀ dir ∈ dirs', dir = .heap (p * 4096) ∨ dir ∈ dirs
  page : ∀ dir ∈ dirs'.page, dir = .heap (p * 4096) ∨ dir ∈ dirs.page
  keep : ∀ dir ∈ dirs.page, dir ∈ dirs'.page
  zero : ∀ i < 955, words i = 0
  kernelPart : .heap (p * 4096) ∈ dirs'.page → ∀ i, 955 ≤ i → i < 1024 → i ≠ 957 → i ≠ 959 →
    words i = s.kernelDirectory i
  disk : ∀ dir ∈ dirs'.disk, dir = .heap (p * 4096) ∨ dir ∈ dirs.disk
  diskPart : .heap (p * 4096) ∈ dirs'.disk → ∀ i, 955 ≤ i → i < 1024 → words i = 0

theorem NewRoot.pde (hn : NewRoot G dirs dirs' s p words)
    (hdir : dir ∈ dirs') (hi : i < 955) :
    ((s.fill (s.kframe p) words).pde dir i = 0 ∧ dir = .heap (p * 4096)) ∨
      (dir ∈ dirs ∧ (s.fill (s.kframe p) words).pde dir i = s.pde dir i) := by
  rcases hn.root dir hdir with rfl | hold
  · exact .inl ⟨by rw [fill_pde_new, hn.zero i hi], rfl⟩
  · exact .inr ⟨hold, fill_pde hn.unlinked hold⟩

theorem NewRoot.pde_present (hn : NewRoot G dirs dirs' s p words)
    (hdir : dir ∈ dirs') (hi : i < 955)
    (hpr : present ((s.fill (s.kframe p) words).pde dir i)) :
    dir ∈ dirs ∧ (s.fill (s.kframe p) words).pde dir i = s.pde dir i := by
  rcases hn.pde hdir hi with ⟨h0, -⟩ | hold
  · rw [h0] at hpr
    exact absurd hpr not_present_zero
  · exact hold

theorem Directories.addRoot (h : Directories G dirs s) (hn : NewRoot G dirs dirs' s p words) :
    Directories G dirs' (s.fill (s.kframe p) words) := by
  refine ⟨⟨h.owned.heapPage, h.owned.mapped, h.owned.back⟩, h.heapTables, ?_, ?_, ?_,
    ?_, ?_, ?_, ?_⟩
  · intro d hd
    rcases hn.root _ hd with he | hold
    · exact ⟨p, hn.owned, DirPtr.heap.inj he⟩
    · exact h.dir d hold
  · intro dir hdir i hi hnp
    rcases hn.pde hdir hi with ⟨h0, -⟩ | ⟨hold, he⟩
    · exact h0
    · rw [he] at hnp ⊢
      exact h.pde_zero dir hold i hi hnp
  · intro dir hdir i hi hpr
    obtain ⟨hold, he⟩ := hn.pde_present hdir hi hpr
    rw [he] at hpr ⊢
    exact h.pde_owned dir hold i hi hpr
  · intro dir hdir i hi dir' hdir' i' hi' hpr hpr' heq
    obtain ⟨hold, he⟩ := hn.pde_present hdir hi hpr
    obtain ⟨hold', he'⟩ := hn.pde_present hdir' hi' hpr'
    rw [he] at hpr heq
    rw [he'] at hpr' heq
    exact h.pde_inj dir hold i hi dir' hold' i' hi' hpr hpr' heq
  · intro dir hdir i hi hpr d hd
    obtain ⟨hold, he⟩ := hn.pde_present hdir hi hpr
    rw [he] at hpr ⊢
    show _ ≠ s.frameAt d
    rcases hn.root _ hd with hnew | hdold
    · rw [DirPtr.heap.inj hnew, kframe_page]
      exact hn.unlinked.table dir hold i hi hpr
    · exact h.pde_ne_dir dir hold i hi hpr d hdold
  · intro d hd i h1 h2 h3 h4
    rcases hn.page _ hd with hnew | hdold
    · rw [DirPtr.heap.inj hnew] at hd ⊢
      rw [fill_pde_new]
      exact hn.kernelPart hd i h1 h2 h3 h4
    · rw [fill_pde hn.unlinked (.inl hdold)]
      exact h.kernelPart d hdold i h1 h2 h3 h4
  · intro d hd i h1 h2
    rcases hn.disk _ hd with hnew | hdold
    · rw [DirPtr.heap.inj hnew] at hd ⊢
      rw [fill_pde_new]
      exact hn.diskPart hd i h1 h2
    · rw [fill_pde hn.unlinked (.inr hdold)]
      exact h.diskPart d hdold i h1 h2

/-- A new directory names no table. -/
theorem NewRoot.table_new (hn : NewRoot G dirs dirs' s p words) (hi : i < 955) :
    (s.fill (s.kframe p) words).table (.heap (p * 4096)) i = none := by
  unfold Kern.table
  rw [fill_pde_new, hn.zero i hi, if_neg not_present_zero]

theorem NewRoot.leaf_new (hn : NewRoot G dirs dirs' s p words) (hq : q < 977920) :
    (s.fill (s.kframe p) words).leaf (.heap (p * 4096)) q = 0 :=
  leaf_of_none (hn.table_new (by omega))

theorem NewRoot.table (hn : NewRoot G dirs dirs' s p words)
    (hdir : dir ∈ dirs) : (s.fill (s.kframe p) words).table dir i = s.table dir i := by
  unfold Kern.table
  rw [fill_pde hn.unlinked hdir]
  rfl

/-- The entries of the tables stay. -/
theorem NewRoot.entry (hn : NewRoot G dirs dirs' s p words) (h : Directories G dirs s)
    (hdir : dir ∈ dirs) (hi : i < 955) {a j : Nat} (ha : s.table dir i = some a) :
    (s.fill (s.kframe p) words).entry (.heap a, j) = s.entry (.heap a, j) := by
  obtain ⟨r, hr, rfl, hpr, he⟩ := h.table_some hdir hi ha
  show (s.fill (s.kframe p) words).ram (s.frameAt (r * 4096)) j = s.ram (s.frameAt (r * 4096)) j
  rw [kframe_page, fill_ram_of_ne]
  rw [← he]
  exact hn.unlinked.table dir hdir i hi hpr

theorem NewRoot.liveSlots (hn : NewRoot G dirs dirs' s p words) :
    liveSlots lay dirs' (s.fill (s.kframe p) words) = Fos.liveSlots lay dirs s := by
  ext ⟨t, j⟩
  cases t with
  | boot d => exact Iff.rfl
  | directory => exact Iff.rfl
  | heap a =>
    apply and_congr_right
    intro _
    constructor
    · rintro ⟨dir, hdir, i, hi, ha⟩
      rcases hn.page dir hdir with rfl | hold
      · rw [hn.table_new hi] at ha
        cases ha
      · rw [hn.table (.inl hold)] at ha
        exact ⟨dir, hold, i, hi, ha⟩
    · rintro ⟨dir, hdir, i, hi, ha⟩
      refine ⟨dir, hn.keep dir hdir, i, hi, ?_⟩
      rw [hn.table (.inl hdir)]
      exact ha

theorem NewRoot.live_entry (hn : NewRoot G dirs dirs' s p words) (h : Directories G dirs s)
    {x : Slot} (hx : x ∈ Fos.liveSlots lay dirs s) :
    (s.fill (s.kframe p) words).entry x = s.entry x := by
  obtain ⟨t, j⟩ := x
  cases t with
  | boot d => rfl
  | directory => rfl
  | heap a =>
    obtain ⟨-, dir, hdir, i, hi, ha⟩ := hx
    exact hn.entry h (.inl hdir) hi ha

/-- **A new directory** joins the others, and nothing that was in use changes. -/
theorem MemOk.addRoot (h : MemOk lay G D dirs held s) (hn : NewRoot G dirs dirs' s p words)
    (hpD : p ∉ D) :
    MemOk lay G D dirs' held (s.fill (s.kframe p) words) ∧
      Quiet dirs D G G s (s.fill (s.kframe p) words) := by
  have hd := h.directories
  -- the new directory has no table below `USER_TOP`, so there is no slot to add
  have hlive : liveSlots lay dirs' (s.fill (s.kframe p) words) = liveSlots lay dirs s :=
    hn.liveSlots
  have hmap : (s.fill (s.kframe p) words).mapping
      (liveSlots lay dirs' (s.fill (s.kframe p) words)) = s.mapping (liveSlots lay dirs s) := by
    rw [hlive]
    exact mapping_congr fun y hy => hn.live_entry hd hy
  refine ⟨⟨⟨hd.addRoot hn, ?_, ?_, ?_, h.accounted.inRange, h.accounted.outside⟩,
    h.heap.congr rfl (fun _ _ => rfl) fun _ _ => rfl, h.blocks, ?_⟩, ?_⟩
  · rw [hmap]
    exact h.counted
  · rw [hmap]
    exact h.accounted.unshared
  · intro x hx
    rw [hlive] at hx
    rw [hn.live_entry hd hx]
    exact h.accounted.entry_zero x hx
  · intro q hq
    obtain ⟨hqG, hqu⟩ := h.data q hq
    refine ⟨hqG, fun dir hdir i hi hpr => ?_, fun d hdir => ?_⟩
    · obtain ⟨hold, he⟩ := hn.pde_present hdir hi hpr
      rw [he] at hpr ⊢
      exact hqu.table dir hold i hi hpr
    · show s.frameAt d ≠ s.kframe q
      rcases hn.root _ hdir with hnew | hold
      · rw [DirPtr.heap.inj hnew, kframe_page]
        intro he
        exact hpD (h.owned.kframe_inj hn.owned hqG he ▸ hq)
      · exact hqu.dir d hold
  · refine ⟨subset_rfl, fun _ h h' => absurd h h', fun dir hdir q hq => ?_, fun _ _ => rfl,
      fun g _ hg => ?_, fun _ _ => rfl, List.suffix_refl _, rfl, fun _ _ => rfl, fun _ h => h, rfl,
      rfl, rfl, rfl⟩
    · exact leaf_congr (fun i _ => hn.table hdir)
        (fun i hi a ha j => hn.entry hd hdir hi ha) hq
    · exact fill_ram_of_ne (hg p hn.owned hpD)

/-- One page directory more. -/
def Roots.addPage (dirs : Roots) (d : DirPtr) (hd : d ∉ dirs) : Roots where
  page := d :: dirs.page
  disk := dirs.disk
  apart := by
    intro dir hdir hdisk
    rcases List.mem_cons.1 hdir with rfl | hpage
    · exact hd (.inr hdisk)
    · exact dirs.apart dir hpage hdisk

/-- One disk directory more. -/
def Roots.addDisk (dirs : Roots) (d : DirPtr) (hd : d ∉ dirs) : Roots where
  page := dirs.page
  disk := d :: dirs.disk
  apart := by
    intro dir hpage hdir
    rcases List.mem_cons.1 hdir with rfl | hdisk
    · exact hd (.inl hpage)
    · exact dirs.apart dir hpage hdisk

theorem Unlinked.notMem (hu : Unlinked dirs s p) : .heap (p * 4096) ∉ dirs := by
  intro hd
  have := hu.dir _ hd
  rw [kframe_page] at this
  exact this rfl

theorem newRoot_page (hp : p ∈ G) (hu : Unlinked dirs s p) (h0 : ∀ i < 955, words i = 0)
    (hk : ∀ i, 955 ≤ i → i < 1024 → i ≠ 957 → i ≠ 959 → words i = s.kernelDirectory i) :
    NewRoot G dirs (dirs.addPage (.heap (p * 4096)) hu.notMem) s p words := by
  refine ⟨hp, hu, ?_, ?_, fun dir hdir => .tail _ hdir, h0, fun _ => hk,
    fun dir hdir => .inr hdir, ?_⟩
  · rintro dir (hdir | hdir)
    · exact (List.mem_cons.1 hdir).imp_right .inl
    · exact .inr (.inr hdir)
  · exact fun dir hdir => List.mem_cons.1 hdir
  · exact fun hdisk => absurd (.inr hdisk) hu.notMem

theorem newRoot_disk (hp : p ∈ G) (hu : Unlinked dirs s p) (h0 : ∀ i < 1024, words i = 0) :
    NewRoot G dirs (dirs.addDisk (.heap (p * 4096)) hu.notMem) s p words := by
  refine ⟨hp, hu, ?_, fun dir hdir => .inr hdir, fun dir hdir => hdir, fun i hi => h0 i (by omega),
    ?_, fun dir hdir => List.mem_cons.1 hdir, fun _ i _ hi => h0 i hi⟩
  · rintro dir (hdir | hdir)
    · exact .inr (.inl hdir)
    · exact (List.mem_cons.1 hdir).imp_right .inr
  · exact fun hpage => absurd (.inl hpage) hu.notMem

/-! ## A table given back -/

/-- Only the entry that was written changes in the directories. -/
theorem setPde_pde (h : Directories G dirs s) (hd₀ : d₀ ∈ dirs) (hdir : dir ∈ dirs) (w : Nat) :
    (s.setPde d₀ i₀ w).pde dir i = if dir = d₀ ∧ i = i₀ then w else s.pde dir i := by
  cases d₀ with
  | boot =>
    cases dir with
    | boot =>
      show update s.kernelDirectory i₀ w i = _
      by_cases hi : i = i₀
      · rw [hi, Function.update_self, if_pos ⟨rfl, rfl⟩]
      · rw [Function.update_of_ne hi, if_neg fun h => hi h.2]
        rfl
    | heap d =>
      rw [if_neg (by simp)]
      rfl
  | heap e =>
    obtain ⟨r, hr, rfl⟩ := h.dir e hd₀
    cases dir with
    | boot =>
      rw [if_neg (by simp)]
      rfl
    | heap d =>
      obtain ⟨q, hq, rfl⟩ := h.dir d hdir
      show (s.store (s.frameAt (r * 4096)) i₀ w).ram (s.frameAt (q * 4096)) i =
        if _ then w else s.ram (s.frameAt (q * 4096)) i
      rw [kframe_page, kframe_page, store_ram]
      -- two directories in one frame are one directory
      by_cases hqr : s.kframe q = s.kframe r
      · rw [h.owned.kframe_inj hq hr hqr]
        by_cases hi : i = i₀
        · rw [if_pos ⟨rfl, hi⟩, if_pos ⟨rfl, hi⟩]
        · rw [if_neg fun h => hi h.2, if_neg fun h => hi h.2]
      · rw [if_neg fun h => hqr h.1, if_neg]
        rintro ⟨he, -⟩
        have := DirPtr.heap.inj he
        exact hqr (by rw [show q = r by omega])

@[simp] theorem setPde_frames (w : Nat) : (s.setPde d₀ i₀ w).frames = s.frames := by
  cases d₀ <;> rfl

@[simp] theorem setPde_heap (w : Nat) : (s.setPde d₀ i₀ w).heap = s.heap := by
  cases d₀ <;> rfl

@[simp] theorem setPde_disk (w : Nat) : (s.setPde d₀ i₀ w).disk = s.disk := by
  cases d₀ <;> rfl

@[simp] theorem setPde_envs (w : Nat) : (s.setPde d₀ i₀ w).envs = s.envs := by
  cases d₀ <;> rfl

@[simp] theorem setPde_shares (w : Nat) : (s.setPde d₀ i₀ w).shares = s.shares := by
  cases d₀ <;> rfl

theorem setPde_kframe (w q : Nat) : (s.setPde d₀ i₀ w).kframe q = s.kframe q := by
  unfold Kern.kframe
  rw [setPde_kernelTable]

theorem setPde_kernelDirectory (w : Nat) (hi : i₀ < 955) (hj : 955 ≤ i) :
    (s.setPde d₀ i₀ w).kernelDirectory i = s.kernelDirectory i := by
  cases d₀ with
  | boot => exact Function.update_of_ne (by omega) _ _
  | heap d => rfl

theorem setPde_ram_of_ne (w : Nat) (hd : ∀ d, d₀ = .heap d → f ≠ s.frameAt d) :
    (s.setPde d₀ i₀ w).ram f = s.ram f := by
  cases d₀ with
  | boot => rfl
  | heap d => exact Function.update_of_ne (hd d rfl) _ _

/-- Writing a directory entry changes no table. -/
theorem setPde_entry (h : Directories G dirs s) (hd₀ : d₀ ∈ dirs) (w : Nat) (hdir : dir ∈ dirs)
    (hi : i < 955) {a j : Nat} (ha : s.table dir i = some a) :
    (s.setPde d₀ i₀ w).entry (.heap a, j) = s.entry (.heap a, j) := by
  obtain ⟨r, hr, rfl, hpr, hn⟩ := h.table_some hdir hi ha
  show (s.setPde d₀ i₀ w).ram ((s.setPde d₀ i₀ w).frameAt (r * 4096)) j =
    s.ram (s.frameAt (r * 4096)) j
  rw [kframe_page, kframe_page, setPde_kframe, setPde_ram_of_ne]
  rintro d rfl
  rw [← hn]
  exact h.pde_ne_dir dir hdir i hi hpr d hd₀

/-- What it takes to give a table back: entry `i₀` of `d₀` names the page `p`, which is all zero. -/
structure EmptyTable (dirs : Roots) (s : Kern) (d₀ : DirPtr) (i₀ p : Nat) : Prop where
  dir : d₀ ∈ dirs
  index : i₀ < 955
  table : s.table d₀ i₀ = some (p * 4096)
  zero : ∀ j < 1024, s.entry (.heap (p * 4096), j) = 0

theorem EmptyTable.names (he : EmptyTable dirs s d₀ i₀ p) (h : Directories G dirs s) :
    p ∈ G ∧ present (s.pde d₀ i₀) ∧ ppn (s.pde d₀ i₀) = s.kframe p := by
  obtain ⟨q, hq, hqp, hpr, hn⟩ := h.table_some he.dir he.index he.table
  obtain rfl : q = p := by omega
  exact ⟨hq, hpr, hn⟩

/-- No other entry names the page. -/
theorem EmptyTable.other (he : EmptyTable dirs s d₀ i₀ p) (h : Directories G dirs s)
    (hdir : dir ∈ dirs) (hi : i < 955) (hne : ¬ (dir = d₀ ∧ i = i₀))
    (hpr : present (s.pde dir i)) : ppn (s.pde dir i) ≠ s.kframe p := by
  obtain ⟨-, hpr₀, hn⟩ := he.names h
  rw [← hn]
  exact fun heq => hne (h.pde_inj dir hdir i hi d₀ he.dir i₀ he.index hpr hpr₀ heq)

theorem EmptyTable.pde_present (he : EmptyTable dirs s d₀ i₀ p) (h : Directories G dirs s)
    (hdir : dir ∈ dirs) (hpr : present ((s.setPde d₀ i₀ 0).pde dir i)) :
    ¬ (dir = d₀ ∧ i = i₀) ∧ (s.setPde d₀ i₀ 0).pde dir i = s.pde dir i := by
  rw [setPde_pde h he.dir hdir] at hpr ⊢
  split at hpr
  case isTrue => exact absurd hpr not_present_zero
  case isFalse hne => exact ⟨hne, if_neg hne⟩

theorem EmptyTable.directories (he : EmptyTable dirs s d₀ i₀ p) (h : Directories G dirs s) :
    Directories (G \ {p}) dirs (s.setPde d₀ i₀ 0) := by
  obtain ⟨hp, hpr₀, hn⟩ := he.names h
  have hpresent :=
    fun (dir : DirPtr) hdir (i : Nat) (hpr : present ((s.setPde d₀ i₀ 0).pde dir i)) =>
    he.pde_present h hdir hpr
  refine ⟨⟨fun q hq => h.owned.heapPage q hq.1, ?_, ?_⟩, ?_, ?_, ?_, ?_, ?_, ?_, ?_, ?_⟩
  · rw [setPde_kernelTable]
    exact fun q hq => h.owned.mapped q hq.1
  · intro q hq
    rw [setPde_frames, setPde_kframe]
    exact h.owned.back q hq.1
  · intro i h1 h2
    rw [setPde_kernelDirectory 0 he.index (by omega)]
    exact h.heapTables i h1 h2
  · intro d hd
    obtain ⟨q, hq, rfl⟩ := h.dir d hd
    refine ⟨q, ⟨hq, ?_⟩, rfl⟩
    -- a directory is no table
    rintro rfl
    have := h.pde_ne_dir d₀ he.dir i₀ he.index hpr₀ _ hd
    rw [kframe_page] at this
    exact this hn
  · intro dir hdir i hi hnp
    rw [setPde_pde h he.dir hdir] at hnp ⊢
    split
    case isTrue => rfl
    case isFalse hne =>
      rw [if_neg hne] at hnp
      exact h.pde_zero dir hdir i hi hnp
  · intro dir hdir i hi hpr
    obtain ⟨hne, heq⟩ := hpresent dir hdir i hpr
    rw [heq] at hpr ⊢
    obtain ⟨q, hq, hqe⟩ := h.pde_owned dir hdir i hi hpr
    refine ⟨q, ⟨hq, ?_⟩, by rw [setPde_kframe]; exact hqe⟩
    rintro rfl
    exact he.other h hdir hi hne hpr hqe
  · intro dir hdir i hi dir' hdir' i' hi' hpr hpr' heq
    obtain ⟨-, h1⟩ := hpresent dir hdir i hpr
    obtain ⟨-, h2⟩ := hpresent dir' hdir' i' hpr'
    rw [h1] at hpr heq
    rw [h2] at hpr' heq
    exact h.pde_inj dir hdir i hi dir' hdir' i' hi' hpr hpr' heq
  · intro dir hdir i hi hpr d hd
    obtain ⟨-, h1⟩ := hpresent dir hdir i hpr
    rw [h1] at hpr ⊢
    have := h.pde_ne_dir dir hdir i hi hpr d hd
    unfold Kern.frameAt at this ⊢
    rwa [setPde_kernelTable]
  · intro d hd i h1 h2 h3 h4
    have hi₀ := he.index
    rw [setPde_pde h he.dir (.inl hd), if_neg fun hc => by omega,
      setPde_kernelDirectory 0 hi₀ h1]
    exact h.kernelPart d hd i h1 h2 h3 h4
  · intro d hd i h1 h2
    have hi₀ := he.index
    rw [setPde_pde h he.dir (.inr hd), if_neg fun hc => by omega]
    exact h.diskPart d hd i h1 h2

/-- The directories name the other tables still. -/
theorem EmptyTable.table_eq (he : EmptyTable dirs s d₀ i₀ p) (h : Directories G dirs s)
    (hdir : dir ∈ dirs) : (s.setPde d₀ i₀ 0).table dir i =
      if dir = d₀ ∧ i = i₀ then none else s.table dir i := by
  unfold Kern.table
  rw [setPde_pde h he.dir hdir]
  split
  case isTrue => rw [if_neg not_present_zero]
  case isFalse => unfold kheapVirtualAddress; rw [setPde_frames]

/-- The leaves stay: those of the table were zero. -/
theorem EmptyTable.leaf (he : EmptyTable dirs s d₀ i₀ p) (h : Directories G dirs s)
    (hdir : dir ∈ dirs) (hq : q < 977920) : (s.setPde d₀ i₀ 0).leaf dir q = s.leaf dir q := by
  have ht := he.table_eq (i := q / 1024) h hdir
  split at ht
  case isTrue hc =>
    have hold : s.table dir (q / 1024) = some (p * 4096) := by
      rw [hc.1, hc.2]
      exact he.table
    rw [leaf_of_none ht, leaf_of_some hold]
    exact (he.zero _ (Nat.mod_lt _ (by decide))).symm
  case isFalse =>
    cases hold : s.table dir (q / 1024) with
    | none => rw [leaf_of_none (ht.trans hold), leaf_of_none hold]
    | some a =>
      rw [leaf_of_some (ht.trans hold), leaf_of_some hold]
      exact setPde_entry h he.dir 0 hdir (by omega) hold

/-- The live entries that are left, and those of the table, which were zero. -/
theorem EmptyTable.live (lay : Layout) (he : EmptyTable dirs s d₀ i₀ p)
    (h : Directories G dirs s) (x : Slot) :
    (x ∈ liveSlots lay dirs (s.setPde d₀ i₀ 0) → x ∈ liveSlots lay dirs s ∧
      (s.setPde d₀ i₀ 0).entry x = s.entry x) ∧
    (x ∈ liveSlots lay dirs s → x ∉ liveSlots lay dirs (s.setPde d₀ i₀ 0) → s.entry x = 0) := by
  obtain ⟨t, j⟩ := x
  cases t with
  | boot d =>
    refine ⟨fun hx => ⟨hx, ?_⟩, fun hx hnot => absurd hx hnot⟩
    show (s.setPde d₀ i₀ 0).kernelTable _ = _
    rw [setPde_kernelTable]
    rfl
  | directory => exact ⟨fun hx => hx.2.elim, fun hx => hx.2.elim⟩
  | heap a =>
    constructor
    · rintro ⟨hj, dir, hdir, i, hi, ha⟩
      rw [he.table_eq h (.inl hdir)] at ha
      split at ha
      case isTrue => cases ha
      case isFalse => exact ⟨⟨hj, dir, hdir, i, hi, ha⟩, setPde_entry h he.dir 0 (.inl hdir) hi ha⟩
    · rintro ⟨hj, dir, hdir, i, hi, ha⟩ hnot
      by_cases hc : dir = d₀ ∧ i = i₀
      · rw [hc.1, hc.2, he.table] at ha
        cases ha
        exact he.zero j hj
      · refine absurd ⟨hj, dir, hdir, i, hi, ?_⟩ hnot
        rw [he.table_eq h (.inl hdir), if_neg hc]
        exact ha

/-- **A table given back**: its page is owned no more, and nothing else in use changes. -/
theorem MemOk.unlinkTable (h : MemOk lay G D dirs held s) (he : EmptyTable dirs s d₀ i₀ p) :
    MemOk lay (G \ {p}) D dirs held (s.setPde d₀ i₀ 0) := by
  have hd := h.directories
  -- the table is empty, so the slots that go map nothing
  have hmap : (s.setPde d₀ i₀ 0).mapping (liveSlots lay dirs (s.setPde d₀ i₀ 0)) =
      s.mapping (liveSlots lay dirs s) := by
    funext x
    obtain ⟨hnew, hold⟩ := he.live lay hd x
    unfold Kern.mapping
    by_cases hx : x ∈ liveSlots lay dirs (s.setPde d₀ i₀ 0)
    · obtain ⟨hx', heq⟩ := hnew hx
      simp only [hx, hx', heq]
    · rw [if_neg fun hc => hx hc.1, if_neg]
      intro hc
      have hpr := hc.2
      rw [hold hc.1 hx] at hpr
      exact not_present_zero hpr
  refine ⟨⟨he.directories hd, ?_, ?_, ?_, ?_, ?_⟩, ?_, ?_, ?_⟩
  · rw [hmap, setPde_frames]
    refine h.counted.congr fun f _ => ?_
    unfold Kern.references
    rw [setPde_frames]
  · intro q hq x hx
    rw [hmap, setPde_kframe] at hx
    exact h.accounted.unshared q hq.1 x hx
  · intro x hx hnp
    obtain ⟨hx', heq⟩ := (he.live lay hd x).1 hx
    rw [heq] at hnp ⊢
    exact h.accounted.entry_zero x hx' hnp
  · rw [setPde_frames]
    exact h.accounted.inRange
  · rw [setPde_frames]
    exact h.accounted.outside
  · refine h.heap.congr (setPde_heap 0) (fun i hi => setPde_kernelDirectory 0 he.index hi) ?_
    rw [setPde_kernelTable]
    exact fun _ _ => rfl
  · rw [setPde_heap]
    exact fun q hq => h.blocks q hq.1
  · intro q hq
    obtain ⟨hqG, hqu⟩ := h.data q hq
    obtain ⟨-, hpr₀, hn⟩ := he.names hd
    refine ⟨⟨hqG, ?_⟩, fun dir hdir i hi hpr => ?_, fun d hdir => ?_⟩
    · rintro rfl
      exact hqu.table d₀ he.dir i₀ he.index hpr₀ hn
    · obtain ⟨-, heq⟩ := he.pde_present hd hdir hpr
      rw [heq] at hpr ⊢
      rw [setPde_kframe]
      exact hqu.table dir hdir i hi hpr
    · have hne := hqu.dir d hdir
      unfold Kern.frameAt at hne ⊢
      rw [setPde_kframe]
      rwa [setPde_kernelTable]

/-! ## The entries that list a directory -/

/-- The entries of `VPT` and `UVPT` lead nowhere. -/
theorem MemOk.setPde_list (h : MemOk lay G D dirs held s) {d : Nat} (hpage : .heap d ∈ dirs.page)
    (hi₀ : i₀ = 957 ∨ i₀ = 959) (w : Nat) : MemOk lay G D dirs held (s.setPde (.heap d) i₀ w) := by
  have hdirs := h.directories
  have hd : .heap d ∈ dirs := .inl hpage
  -- one entry changes, and the user part of no directory has it
  have hpde : ∀ dir ∈ dirs, ∀ i, i ≠ i₀ → (s.setPde (.heap d) i₀ w).pde dir i = s.pde dir i := by
    intro dir hdir i hi
    rw [setPde_pde hdirs hd hdir, if_neg fun hc => hi hc.2]
  have hpde' : ∀ dir ∈ dirs, ∀ i < 955, (s.setPde (.heap d) i₀ w).pde dir i = s.pde dir i :=
    fun dir hdir i hi => hpde dir hdir i (by omega)
  have htab : ∀ dir ∈ dirs, ∀ i < 955, (s.setPde (.heap d) i₀ w).table dir i = s.table dir i := by
    intro dir hdir i hi
    unfold Kern.table
    rw [hpde' dir hdir i hi]
    rfl
  have hlive : liveSlots lay dirs (s.setPde (.heap d) i₀ w) = liveSlots lay dirs s :=
    liveSlots_congr fun dir hdir i hi => htab dir (.inl hdir) i hi
  have hentry : ∀ x ∈ liveSlots lay dirs s, (s.setPde (.heap d) i₀ w).entry x = s.entry x := by
    rintro ⟨t, j⟩ hx
    cases t with
    | boot t => rfl
    | directory => rfl
    | heap a =>
      obtain ⟨-, dir, hdir, i, hi, ha⟩ := hx
      exact setPde_entry hdirs hd w (.inl hdir) hi ha
  have hmap : (s.setPde (.heap d) i₀ w).mapping (liveSlots lay dirs (s.setPde (.heap d) i₀ w)) =
      s.mapping (liveSlots lay dirs s) := by
    rw [hlive]
    exact mapping_congr hentry
  refine ⟨⟨?_, ?_, ?_, ?_, h.accounted.inRange, h.accounted.outside⟩,
    h.heap.congr rfl (fun _ _ => rfl) fun _ _ => rfl, h.blocks,
    fun p hp => h.data_congr (fun _ _ => rfl) hpde' hp⟩
  · refine ⟨⟨hdirs.owned.heapPage, hdirs.owned.mapped, hdirs.owned.back⟩, hdirs.heapTables,
      hdirs.dir, ?_, ?_, ?_, ?_, ?_, ?_⟩
    · intro dir hdir i hi
      rw [hpde' dir hdir i hi]
      exact hdirs.pde_zero dir hdir i hi
    · intro dir hdir i hi
      rw [hpde' dir hdir i hi]
      exact hdirs.pde_owned dir hdir i hi
    · intro dir hdir i hi dir' hdir' i' hi'
      rw [hpde' dir hdir i hi, hpde' dir' hdir' i' hi']
      exact hdirs.pde_inj dir hdir i hi dir' hdir' i' hi'
    · intro dir hdir i hi
      rw [hpde' dir hdir i hi]
      exact hdirs.pde_ne_dir dir hdir i hi
    · intro e he i h1 h2 h3 h4
      rw [hpde _ (.inl he) i (by omega)]
      exact hdirs.kernelPart e he i h1 h2 h3 h4
    · intro e he i h1 h2
      rw [setPde_pde hdirs hd (.inr he), if_neg]
      · exact hdirs.diskPart e he i h1 h2
      · rintro ⟨hed, -⟩
        exact dirs.apart _ hpage (hed ▸ he)
  · rw [hmap]
    exact h.counted
  · rw [hmap]
    exact h.accounted.unshared
  · intro x hx
    rw [hlive] at hx
    rw [hentry x hx]
    exact h.accounted.entry_zero x hx

theorem MemOk.setPde_list_leaf (h : MemOk lay G D dirs held s) {d : Nat} (hd : .heap d ∈ dirs)
    (hi₀ : i₀ = 957 ∨ i₀ = 959) (w : Nat) (hdir : dir ∈ dirs) (hq : q < 977920) :
    (s.setPde (.heap d) i₀ w).leaf dir q = s.leaf dir q := by
  refine leaf_congr (fun i hi => ?_) (fun i hi a ha j => setPde_entry h.directories hd w hdir hi ha) hq
  have hne : ¬ (dir = .heap d ∧ i = i₀) := by
    rintro ⟨-, rfl⟩
    omega
  unfold Kern.table
  rw [setPde_pde h.directories hd hdir, if_neg hne]
  rfl

/-! ## A disk directory given back -/

/-- One disk directory less. -/
def Roots.dropDisk (dirs : Roots) (d : DirPtr) : Roots where
  page := dirs.page
  disk := dirs.disk.filter (· ≠ d)
  apart := fun dir hpage hdisk => dirs.apart dir hpage (List.mem_of_mem_filter hdisk)

theorem Roots.mem_dropDisk (hd : d₀ ∈ dirs.disk) :
    dir ∈ dirs.dropDisk d₀ ↔ dir ∈ dirs ∧ dir ≠ d₀ := by
  constructor
  · rintro (hpage | hdisk)
    · refine ⟨.inl hpage, ?_⟩
      rintro rfl
      exact dirs.apart dir hpage hd
    · obtain ⟨hmem, hne⟩ := List.mem_filter.1 hdisk
      exact ⟨.inr hmem, of_decide_eq_true hne⟩
  · rintro ⟨hpage | hdisk, hne⟩
    · exact .inl hpage
    · exact .inr (List.mem_filter.2 ⟨hdisk, decide_eq_true hne⟩)

theorem Directories.subset (h : Directories G dirs s) (hsub : ∀ dir ∈ dirs', dir ∈ dirs)
    (hpage : ∀ dir ∈ dirs'.page, dir ∈ dirs.page)
    (hdisk : ∀ dir ∈ dirs'.disk, dir ∈ dirs.disk) : Directories G dirs' s where
  owned := h.owned
  heapTables := h.heapTables
  dir d hd := h.dir d (hsub _ hd)
  pde_zero dir hdir := h.pde_zero dir (hsub _ hdir)
  pde_owned dir hdir := h.pde_owned dir (hsub _ hdir)
  pde_inj dir hdir i hi dir' hdir' := h.pde_inj dir (hsub _ hdir) i hi dir' (hsub _ hdir')
  pde_ne_dir dir hdir i hi hpr d hd := h.pde_ne_dir dir (hsub _ hdir) i hi hpr d (hsub _ hd)
  kernelPart d hd := h.kernelPart d (hpage _ hd)
  diskPart d hd := h.diskPart d (hdisk _ hd)

/-- **A disk directory that is forgotten** leaves its page without an owner. -/
theorem MemOk.dropDisk (h : MemOk lay G D dirs held s) (hd : .heap (p * 4096) ∈ dirs.disk) :
    MemOk lay (G \ {p}) D (dirs.dropDisk (.heap (p * 4096))) held s := by
  have hsub : ∀ dir ∈ dirs.dropDisk (.heap (p * 4096)), dir ∈ dirs := fun dir hdir =>
    ((Roots.mem_dropDisk hd).1 hdir).1
  have hacc : Accounted lay G (dirs.dropDisk (.heap (p * 4096))) held s :=
    ⟨h.directories.subset hsub (fun _ hdir => hdir) fun _ hdir => List.mem_of_mem_filter hdir,
      h.accounted.counted, h.accounted.unshared,
      h.accounted.entry_zero, h.accounted.inRange, h.accounted.outside⟩
  -- no table and no other directory lies in the frame of the dropped one
  refine ⟨hacc.disown Set.sdiff_subset ?_ ?_, h.heap, fun q hq => h.blocks q hq.1, fun q hq => ?_⟩
  · intro d hdir
    obtain ⟨hold, hne⟩ := (Roots.mem_dropDisk hd).1 hdir
    obtain ⟨q, hq, rfl⟩ := h.directories.dir d hold
    refine ⟨q, ⟨hq, ?_⟩, rfl⟩
    rintro rfl
    exact hne rfl
  · intro dir hdir i hi hpr
    obtain ⟨q, hq, he⟩ := h.directories.pde_owned dir (hsub _ hdir) i hi hpr
    refine ⟨q, ⟨hq, ?_⟩, he⟩
    rintro rfl
    have hne := h.directories.pde_ne_dir dir (hsub _ hdir) i hi hpr _ (.inr hd)
    rw [kframe_page] at hne
    exact hne he
  · obtain ⟨hqG, hqu⟩ := h.data q hq
    refine ⟨⟨hqG, ?_⟩, fun dir hdir => hqu.table dir (hsub _ hdir),
      fun d hdir => hqu.dir d (hsub _ hdir)⟩
    rintro rfl
    have hne := hqu.dir _ (.inr hd)
    rw [kframe_page] at hne
    exact hne rfl

end

end Fos
