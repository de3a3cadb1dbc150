import Fos.Loader.Mapping
import Fos.Loader.Storing

/-!
# The pages of a segment

The first loop of `program_segment_alloc_map_copy_workingset` gives new pages to the segment while
the working set has room, and the two loops after it fill them.
-/

namespace Fos

open Prog (bind_eq_ok ok_inj)

/-- The pages of `e` off `fixed` are in its working set, of which the next `c` entries are free. -/
structure WorkingSetRoom (e : Nat) (fixed : Set Nat) (c : Nat) (s : Kern) : Prop
    extends WorkingSetOk e fixed s where
  noneMissing : NoneMissing e fixed s
  free : (s.envs e).FreeFrom c

/-- The pages of `e` from `p` to `p + n` are new. -/
structure AddsPages (pages : List DirPtr) (e p n : Nat) (s t : Kern) : Prop where
  kept : Kept ∅ s t
  disk : t.disk = s.disk
  directory : t.pageDirectory e = s.pageDirectory e
  mapped : ∀ q, p ≤ q → q < p + n → present (t.leaf (s.pageDirectory e) q) ∧
    t.references (ppn (t.leaf (s.pageDirectory e) q)) = 1
  keeps : KeepsOutside pages {x | x.1 = s.pageDirectory e ∧ p ≤ x.2 ∧ x.2 < p + n} s t

section

variable {lay : Layout} {pages : List DirPtr} {s : FileState} {k t u : Kern}
    {e c p n i va last last' : Nat}
  {fixed : Set Nat}

/-! ## The working set -/

theorem setEnv_self (k : Kern) (e : Nat) (env : Env) : (k.setEnv e env).envs e = env :=
  Function.update_self ..

theorem setEnv_setEnv (k : Kern) (e : Nat) (env env' : Env) :
    (k.setEnv e env).setEnv e env' = k.setEnv e env' := by
  unfold Kern.setEnv
  dsimp only
  rw [Function.update_idem]

theorem Kept.setEnv {D : Set Nat} (h : Kept D k t) (e : Nat) (env : Env) :
    Kept D k (t.setEnv e env) :=
  ⟨h.data, h.offHeap, h.kernelDirectory, h.numberOfFrames, h.strategy, h.static⟩

/-- A new page takes a free entry. -/
theorem EntersPage.room (h : EntersPage pages e va k t) (hdir : k.pageDirectory e ∈ pages)
    (hw : WorkingSetRoom e fixed (c + 1) k) (hz : k.leaf (k.pageDirectory e) (ppn va) = 0) :
    WorkingSetRoom e fixed c t := by
  obtain ⟨hfirst, hfree⟩ := hw.free.enter hw.index hw.length (Nat.succ_pos c) va
  refine ⟨h.ok hdir hw.toWorkingSetOk hz,
    h.noneMissing hdir hw.toWorkingSetOk hfirst hw.noneMissing, ?_⟩
  obtain ⟨d, j, henv⟩ := h.env
  rw [henv]
  exact hfree

/-! ## One page -/

theorem addTableToTableWorkingSet_ok (h : addTableToTableWorkingSet e k = .ok () t) :
    ∃ j, t = k.setEnv e { k.envs e with tableLastWSIndex := j } := by
  unfold addTableToTableWorkingSet at h
  rw [Prog.modify_bind_apply, Prog.get_bind_apply, Prog.ite_run] at h
  split at h
  case isTrue => cases h
  case isFalse => exact ⟨_, (ok_inj.1 h).2.symm⟩

theorem advanceLastWSIndex_run (e : Nat) (k : Kern) :
    advanceLastWSIndex e k = .ok () (k.setEnv e { k.envs e with
      pageLastWSIndex := ((k.envs e).pageLastWSIndex + 1) % (k.envs e).pageWSMaxSize }) := rfl

/-- A new frame for a page, as the loader maps it. -/
theorem StoreInv.loadtimePage {f perm : Nat} {k₁ : Kern} (hi : StoreInv lay s)
    (hdir : s.kern.pageDirectory e ∈ s.pages) (hp : p < 977920)
    (hz : s.kern.leaf (s.kern.pageDirectory e) p = 0) (hperm : perm < 4096)
    (h₁ : allocateFrame s.kern = .ok f k₁)
    (h₂ : loadtimeMapFrame (k₁.pageDirectory e) f (p * 4096) perm k₁ = .ok () k) :
    StoreInv lay ⟨k, s.pages, s.store⟩ ∧
      MapsNew s.pages (s.kern.pageDirectory e) (p * 4096) f perm s.kern k := by
  have henvs : k₁.envs = s.kern.envs := by
    obtain ⟨G, dirs, -, h⟩ := hi.file
    exact (h.mem.allocateFrame h₁).2.1.envs
  have hva : p * 4096 < userTop := by
    unfold userTop
    omega
  rw [pageDirectory_congr henvs] at h₂
  exact hi.loadtimeMap hdir hva (by rwa [ppn_page]) hperm h₁ h₂

theorem allocSegmentPage_ok (h : allocSegmentPage e va last k = .ok last' t) :
    ∃ f k₁ k₂ j, allocateFrame k = .ok f k₁ ∧
      loadtimeMapFrame (k₁.pageDirectory e) f va (permUser ||| permWriteable) k₁ = .ok () k₂ ∧
      t = k₂.setEnv e { k₂.envs e with
        ptrPageWorkingSet := (k₂.envs e).ptrPageWorkingSet.set (k₂.envs e).pageLastWSIndex ⟨va, false⟩
        pageLastWSIndex := ((k₂.envs e).pageLastWSIndex + 1) % (k₂.envs e).pageWSMaxSize
        tableLastWSIndex := j } := by
  obtain ⟨f, k₁, h₁, h⟩ := bind_eq_ok.1 h
  rw [Prog.get_bind_apply] at h
  obtain ⟨_, k₂, h₂, h⟩ := bind_eq_ok.1 h
  refine ⟨f, k₁, k₂, ?_⟩
  rw [Prog.modify_bind_apply, Prog.bind_of_ok (advanceLastWSIndex_run e _),
    setEnv_self, setEnv_setEnv, Prog.ite_run] at h
  split at h
  case isTrue =>
    obtain ⟨_, k₄, h₄, h⟩ := bind_eq_ok.1 h
    obtain ⟨-, rfl⟩ := ok_inj.1 h
    obtain ⟨j, rfl⟩ := addTableToTableWorkingSet_ok h₄
    refine ⟨j, h₁, h₂, ?_⟩
    rw [setEnv_self, setEnv_setEnv]
  case isFalse =>
    obtain ⟨-, rfl⟩ := ok_inj.1 h
    exact ⟨_, h₁, h₂, rfl⟩

/-- The page that the loader maps. -/
theorem MapsNew.adds {f perm : Nat} (h : MapsNew pages (k.pageDirectory e) (p * 4096) f perm k t)
    (hperm : perm < 4096) : AddsPages pages e p 1 k t := by
  have hleaf := h.leaf
  have hkeeps := h.keeps
  rw [ppn_page] at hleaf hkeeps
  refine ⟨h.kept, h.disk, pageDirectory_congr h.envs, fun q h1 h2 => ?_, hkeeps.mono ?_⟩
  · obtain rfl : q = p := by omega
    rw [hleaf, ppn_entryOf hperm]
    exact ⟨present_entryOf hperm, h.once⟩
  · rintro x rfl
    exact ⟨rfl, Nat.le_refl _, Nat.lt_succ_self _⟩

theorem AddsPages.setEnv (h : AddsPages pages e p n k t) (env : Env)
    (hdir : env.envPageDirectory = (t.envs e).envPageDirectory) :
    AddsPages pages e p n k (t.setEnv e env) := by
  refine ⟨h.kept.setEnv e _, h.disk, ?_, h.mapped, h.keeps.setEnv e _⟩
  rw [← h.directory]
  unfold Kern.pageDirectory
  rw [setEnv_self, hdir]

/-- One page, when the process has it in its working set. -/
theorem AddsPages.enters {d j : Nat} (h : AddsPages pages e p 1 k t) (hp : p < 977920)
    (henv : t.envs e =
      { (k.envs e).enterPage (p * 4096) with diskEnvPgdir := d, tableLastWSIndex := j }) :
    EntersPage pages e (p * 4096) k t := by
  obtain ⟨hpr, hone⟩ := h.mapped p (Nat.le_refl _) (Nat.lt_succ_self _)
  refine ⟨?_, ⟨d, j, henv⟩, ?_, ?_, h.keeps.mono ?_⟩
  · unfold userTop
    omega
  all_goals rw [ppn_page]
  · exact hpr
  · exact hone
  · rintro x ⟨hx, h1, h2⟩
    exact Prod.ext hx (by show x.2 = p; omega)

/-- One page of the segment. -/
theorem StoreInv.allocSegmentPage (hi : StoreInv lay s) (hw : WorkingSetRoom e fixed (c + 1) s.kern)
    (hp : p < 977920) (hz : s.kern.leaf (s.kern.pageDirectory e) p = 0)
    (hk : Fos.allocSegmentPage e (p * 4096) last s.kern = .ok last' k) :
    StoreInv lay ⟨k, s.pages, s.store⟩ ∧ WorkingSetRoom e fixed c k ∧
    AddsPages s.pages e p 1 s.kern k := by
  obtain ⟨f, k₁, k₂, j, h₁, h₂, rfl⟩ := allocSegmentPage_ok hk
  have hdir := hi.pageDirectory_mem hw.toWorkingSetOk
  obtain ⟨hi₂, hmap⟩ := hi.loadtimePage hdir hp hz (by decide) h₁ h₂
  have hadds := (hmap.adds (by decide)).setEnv { k₂.envs e with
    ptrPageWorkingSet := (k₂.envs e).ptrPageWorkingSet.set (k₂.envs e).pageLastWSIndex ⟨p * 4096, false⟩
    pageLastWSIndex := ((k₂.envs e).pageLastWSIndex + 1) % (k₂.envs e).pageWSMaxSize
    tableLastWSIndex := j } rfl
  have henter := hadds.enters (d := (s.kern.envs e).diskEnvPgdir) (j := j) hp (by
    rw [setEnv_self, hmap.envs]
    unfold Env.enterPage
    rw [rounddown_page])
  rw [← ppn_page p] at hz
  exact ⟨hi₂.setEnv rfl rfl, henter.room hdir hw hz, hadds⟩

/-! ## The loop -/

theorem AddsPages.refl (pages : List DirPtr) (e p : Nat) (k : Kern) : AddsPages pages e p 0 k k :=
  ⟨.refl _ _, rfl, rfl, fun _ h1 h2 => absurd h2 (by omega), .refl _ _ _⟩

/-- A page, and the pages after it. -/
theorem AddsPages.cons (h : AddsPages pages e p 1 k t) (h' : AddsPages pages e (p + 1) n t u)
    (hdir : k.pageDirectory e ∈ pages) (hp : p < 977920) : AddsPages pages e p (n + 1) k u := by
  have hmapped := h'.mapped
  have hkeeps := h'.keeps
  rw [h.directory] at hmapped hkeeps
  refine ⟨h.kept.trans h'.kept, h'.disk.trans h.disk, h'.directory.trans h.directory,
    fun q h1 h2 => ?_, ?_⟩
  · by_cases hq : q = p
    · -- the pages after it leave it alone
      subst hq
      obtain ⟨hpr, hone⟩ := h.mapped q (Nat.le_refl _) (Nat.lt_succ_self _)
      have hkeep := hkeeps _ hdir q hp fun hc => Nat.not_succ_le_self q hc.2.1
      rw [hkeep.leaf, hkeep.references hpr]
      exact ⟨hpr, hone⟩
    · exact hmapped q (by omega) (by omega)
  · apply (h.keeps.mono _).trans (hkeeps.mono _)
    · rintro x ⟨hx, h1, h2⟩
      exact ⟨hx, h1, by omega⟩
    · rintro x ⟨hx, h1, h2⟩
      exact ⟨hx, by omega, by omega⟩

/-- **The first loop** allocates pages until the end of the segment, or until the working set has
but `c` free entries. -/
theorem StoreInv.allocSegmentPages {allocated stop : Nat} (hi : StoreInv lay s)
    (hw : WorkingSetRoom e fixed (c + n) s.kern) (hstop : stop ≤ 977920)
    (hz : ∀ q, p ≤ q → q < stop → s.kern.leaf (s.kern.pageDirectory e) q = 0)
    (hk : Fos.allocSegmentPages e (stop * 4096) n (p * 4096) last s.kern = .ok (allocated, last') k) :
    allocated = min n (stop - p) ∧ StoreInv lay ⟨k, s.pages, s.store⟩ ∧
      WorkingSetRoom e fixed (c + (n - allocated)) k ∧
      AddsPages s.pages e p allocated s.kern k := by
  induction n generalizing s p last allocated last' with
  | zero =>
    obtain ⟨hr, rfl⟩ := ok_inj.1 hk
    obtain ⟨rfl, -⟩ := Prod.mk.inj hr
    exact ⟨(Nat.zero_min _).symm, hi, hw, .refl ..⟩
  | succ n ih =>
    unfold Fos.allocSegmentPages at hk
    rw [Prog.ite_run] at hk
    by_cases hlt : p < stop
    · have hdir := hi.pageDirectory_mem hw.toWorkingSetOk
      have hp : p < 977920 := Nat.lt_of_lt_of_le hlt hstop
      rw [if_pos (Nat.mul_lt_mul_of_pos_right hlt (by decide))] at hk
      obtain ⟨last₁, k₁, h₁, hk⟩ := bind_eq_ok.1 hk
      obtain ⟨⟨allocated₂, last₂⟩, k₂, h₂, hk⟩ := bind_eq_ok.1 hk
      obtain ⟨hr, rfl⟩ := ok_inj.1 hk
      obtain ⟨rfl, -⟩ := Prod.mk.inj hr
      obtain ⟨hi₁, hw₁, hone⟩ :=
        hi.allocSegmentPage (c := c + n) hw hp (hz p (Nat.le_refl _) hlt) h₁
      -- the other pages are still not mapped
      have hz₁ : ∀ q, p + 1 ≤ q → q < stop → k₁.leaf (k₁.pageDirectory e) q = 0 := by
        intro q h1 h2
        have hkeep := hone.keeps _ hdir q (Nat.lt_of_lt_of_le h2 hstop)
          fun hc => Nat.not_lt.2 h1 hc.2.2
        rw [hone.directory, hkeep.leaf]
        exact hz q (Nat.le_of_succ_le h1) h2
      have hnext : p * 4096 + pageSize = (p + 1) * 4096 := add_pageSize rfl
      rw [hnext] at h₂
      obtain ⟨hcount, hi₂, hw₂, hadds⟩ := ih (s := ⟨k₁, s.pages, s.store⟩) hi₁ hw₁ hz₁ h₂
      refine ⟨by omega, hi₂, ?_, hone.cons hadds hdir hp⟩
      rwa [Nat.add_sub_add_right]
    · rw [if_neg (fun h => hlt (Nat.lt_of_mul_lt_mul_right h))] at hk
      obtain ⟨hr, rfl⟩ := ok_inj.1 hk
      obtain ⟨rfl, -⟩ := Prod.mk.inj hr
      exact ⟨by omega, hi, hw, .refl ..⟩

/-! ## The content -/

theorem page_range {a : Nat} : p ≤ ppn a ∧ ppn a < p + n ↔ p * 4096 ≤ a ∧
    a < p * 4096 + n * 4096 := by
  unfold ppn
  rw [Nat.le_div_iff_mul_le (by decide), Nat.div_lt_iff_lt_mul (by decide), Nat.add_mul]

/-- The new pages are the process's own. -/
theorem AddsPages.own (h : AddsPages pages e p n k t) (hn : p + n ≤ 977920) :
    OwnPages e (p * 4096) (p * 4096 + n * 4096) t := by
  intro a h1 h2
  obtain ⟨hlo, hhi⟩ := page_range.2 ⟨h1, h2⟩
  rw [h.directory]
  exact ⟨by omega, h.mapped _ hlo hhi⟩

/-- They stay so while they are written. -/
theorem AddsPages.writes {f : Nat → UInt8} (h : AddsPages pages e p n k t)
    (hw : WritesUser pages e (p * 4096) (p * 4096 + n * 4096) f t u) (hn : p + n ≤ 977920) :
    AddsPages pages e p n k u := by
  have hleaf := hw.leaf
  have hkeeps := hw.keeps
  rw [h.directory] at hleaf hkeeps
  refine ⟨h.kept.trans hw.kept, hw.disk.trans h.disk, hw.pageDirectory.trans h.directory,
    fun q h1 h2 => ?_, h.keeps.trans (hkeeps.mono ?_)⟩
  · obtain ⟨hpr, hone⟩ := h.mapped q h1 h2
    obtain ⟨hpr', hframe⟩ := hleaf q (by omega) hpr
    rw [hframe]
    unfold Kern.references at hone ⊢
    rw [hw.frames]
    exact ⟨hpr', hone⟩
  · rintro x ⟨hx, a, h1, h2, hq⟩
    obtain ⟨hlo, hhi⟩ := page_range.2 ⟨h1, h2⟩
    exact ⟨hx, hq ▸ hlo, hq ▸ hhi⟩

/-- Writing to its own pages leaves the working set as it is. -/
theorem WorkingSetRoom.writes {lo hi : Nat} {f : Nat → UInt8} (h : WorkingSetRoom e fixed c k)
    (hw : WritesUser pages e lo hi f k t) (hown : OwnPages e lo hi k)
    (hdir : k.pageDirectory e ∈ pages) : WorkingSetRoom e fixed c t := by
  have henv : t.envs e = k.envs e := congrFun hw.envs e
  refine ⟨h.toWorkingSetOk.congr henv fun q hq hpr => ?_, fun q hq hne hnf => ?_, ?_⟩
  · obtain ⟨hpr', hframe⟩ := hw.leaf q hq hpr
    refine ⟨hpr', hframe, ?_⟩
    unfold Kern.references
    rw [hw.frames]
  · rw [hw.pageDirectory] at hne
    rw [henv]
    apply h.noneMissing q hq _ hnf
    by_cases hin : (k.pageDirectory e, q) ∈ addressPages (k.pageDirectory e) lo hi
    · obtain ⟨-, a, h1, h2, rfl⟩ := hin
      exact present_ne_zero (hown a h1 h2).2.1
    · rwa [(hw.keeps _ hdir q hq hin).leaf] at hne
  · rw [henv]
    exact h.free

/-- Where the content ends in the pages that there are. -/
theorem copied_end {base size stop : Nat} (h : base ≤ stop) :
    base + (min stop (base + size) - base) = min stop (base + size) := by
  omega

/-- The two loops of the loader fill `n` pages with the bytes of the segment. -/
theorem StoreInv.fillPages {seg : ProgramSegment} {m : KernelImage} {k₁ : Kern} {stop copied : Nat}
    (hi : StoreInv lay s) (hw : WorkingSetRoom e fixed c s.kern)
    (hown : OwnPages e seg.virtualAddress stop s.kern) (hle : seg.virtualAddress ≤ stop)
    (hcopied : copied = min stop (seg.virtualAddress + seg.sizeInFile) - seg.virtualAddress)
    (h₁ : copyToUser m e copied seg.virtualAddress seg.ptrStart s.kern = .ok () k₁)
    (h₂ : zeroUser e (stop - (seg.virtualAddress + copied)) (seg.virtualAddress + copied) k₁ = .ok () k) :
    StoreInv lay ⟨k, s.pages, s.store⟩ ∧ WorkingSetRoom e fixed c k ∧
      ∃ f, WritesUser s.pages e seg.virtualAddress stop f s.kern k ∧
        ∀ a, seg.virtualAddress ≤ a → a < stop → f a = seg.byte m a := by
  have hdir := hi.pageDirectory_mem hw.toWorkingSetOk
  -- the bytes of the file end inside of the pages, or at their end
  have hmid : seg.virtualAddress + copied = min stop (seg.virtualAddress + seg.sizeInFile) := by
    rw [hcopied]
    exact copied_end hle
  have hmidle : seg.virtualAddress + copied ≤ stop := hmid ▸ Nat.min_le_left ..
  rw [copyToUser_eq] at h₁
  rw [zeroUser_eq] at h₂
  obtain ⟨hi₁, hw₁⟩ := hi.writeUserBytes hdir (hown.mono (Nat.le_refl _) hmidle) h₁
  have hown₁ := (hown.writes hw₁).mono (Nat.le_add_right _ copied)
    (Nat.le_of_eq (Nat.add_sub_of_le hmidle))
  obtain ⟨hi₂, hw₂⟩ := hi₁.writeUserBytes (s := ⟨k₁, s.pages, s.store⟩)
    (by rw [hw₁.pageDirectory]; exact hdir) hown₁ h₂
  rw [Nat.add_sub_of_le hmidle] at hw₂
  have hall := hw₁.trans hw₂ (Nat.le_add_right ..) hmidle
  refine ⟨hi₂, hw.writes hall hown hdir, _, hall, fun a h1 h2 => ?_⟩
  unfold ProgramSegment.byte
  rw [hmid]
  exact if_congr (by omega) rfl rfl

/-- **`program_segment_alloc_map_copy_workingset`**: the first pages of the segment are new, and
hold its bytes. -/
theorem StoreInv.allocMapCopy {seg : ProgramSegment} {m : KernelImage} {progName : List UInt8}
    {remaining allocated : Nat} (hi : StoreInv lay s) (hw : WorkingSetRoom e fixed (remaining + 1) s.kern)
    (hfit : seg.Fits) (hz : ∀ q, seg.firstPage ≤ q → q < seg.firstPage + seg.pages →
      s.kern.leaf (s.kern.pageDirectory e) q = 0)
    (hk : programSegmentAllocMapCopyWorkingset m progName e seg remaining last s.kern =
      .ok (allocated, last') k) :
    allocated ≤ remaining ∧ allocated ≤ seg.pages ∧ StoreInv lay ⟨k, s.pages, s.store⟩ ∧
      WorkingSetRoom e fixed (remaining - allocated + 1) k ∧
      AddsPages s.pages e seg.firstPage allocated s.kern k ∧
      ∀ a, seg.firstPage ≤ ppn a → ppn a < seg.firstPage + allocated →
        k.userByte e a = (seg.byte m a).toNat := by
  have hlen : (seg.sizeInMemory + 4095) / 4096 ≤ seg.pages := Nat.le_max_right ..
  have hmem := Nat.lt_of_le_of_lt hfit.memory_le (show ustackTop < 2 ^ 32 by decide)
  have hfile := Nat.lt_of_le_of_lt hfit.file_le (show ustackTop < 2 ^ 32 by decide)
  unfold programSegmentAllocMapCopyWorkingset at hk
  dsimp only at hk
  -- of a segment at 0x200000 six pages are loaded at most, except for `tpp`
  generalize hlimit : (if rounddown seg.virtualAddress pageSize = 0x200000 ∧ progName ≠ tpp then
    if remaining < 6 then remaining else 6 else remaining) = limit at hk
  have hle : limit ≤ remaining := by
    rw [← hlimit]
    split
    · split <;> omega
    · exact Nat.le_refl _
  rw [hfit.aligned, rounddown_page, u32_of_lt hmem, u32_of_lt hfile,
    roundup_add hfit.memory_le] at hk
  obtain ⟨⟨allocated', last₁⟩, k₁, h₁, hk⟩ := bind_eq_ok.1 hk
  obtain ⟨_, k₂, h₂, hk⟩ := bind_eq_ok.1 hk
  obtain ⟨_, k₃, h₃, hk⟩ := bind_eq_ok.1 hk
  obtain ⟨hr, rfl⟩ := ok_inj.1 hk
  obtain ⟨rfl, -⟩ := Prod.mk.inj hr
  have hsplit : remaining + 1 = remaining + 1 - limit + limit := by omega
  rw [hsplit] at hw
  obtain ⟨hcount, hi₁, hw₁, hadds⟩ := hi.allocSegmentPages hw
    (Nat.le_trans (Nat.add_le_add_left hlen _) (Nat.le_trans hfit.pages_le (by decide)))
    (fun q h1 h2 => hz q h1 (Nat.lt_of_lt_of_le h2 (Nat.add_le_add_left hlen _))) h₁
  have hpages : allocated' ≤ seg.pages := by omega
  have hbelow : seg.firstPage + allocated' ≤ 977920 :=
    Nat.le_trans (Nat.add_le_add_left hpages _) (Nat.le_trans hfit.pages_le (by decide))
  -- the bytes are copied into pages that no other directory maps
  have hown := hadds.own hbelow
  rw [← hfit.aligned] at hown h₂ h₃
  obtain ⟨hi₃, hw₃, f, hwrites, hbytes⟩ :=
    StoreInv.fillPages (s := ⟨k₁, s.pages, s.store⟩) hi₁ hw₁ hown
    (Nat.le_add_right ..) rfl h₂ h₃
  refine ⟨by omega, hpages, hi₃, ?_, ?_, fun a h1 h2 => ?_⟩
  · rwa [show remaining + 1 - limit + (limit - allocated') = remaining - allocated' + 1 by omega] at hw₃
  · rw [hfit.aligned] at hwrites
    exact hadds.writes hwrites hbelow
  · have hrange := page_range.1 ⟨h1, h2⟩
    rw [← hfit.aligned] at hrange
    have hpr := (hown a hrange.1 hrange.2).2.1
    rw [hwrites.byte a (Nat.lt_of_lt_of_le h2 hbelow) hpr, if_pos hrange,
      hbytes a hrange.1 hrange.2]

end

end Fos
