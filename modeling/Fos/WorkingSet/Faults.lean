import Fos.WorkingSet.Eviction

/-!
# Page faults

What `page_fault_handler` does to the pages of all environments. Both of its branches bring the
faulting page in, and the second one takes the page of an entry out before that.
-/

namespace Fos

open Prog (bind_eq_ok bind_of_ok ok_inj)

/-- Page `q` of `dir` keeps its entry, the words of its frame and the count of its frame. -/
structure KeepsPage (dir : DirPtr) (q : Nat) (s t : Kern) : Prop where
  leaf : t.leaf dir q = s.leaf dir q
  ram : present (s.leaf dir q) → t.ram (ppn (s.leaf dir q)) = s.ram (ppn (s.leaf dir q))
  references : present (s.leaf dir q) →
    t.references (ppn (s.leaf dir q)) = s.references (ppn (s.leaf dir q))

/-- The pages outside `P` are kept. -/
def KeepsOutside (pages : List DirPtr) (P : Set (DirPtr × Nat)) (s t : Kern) : Prop :=
  ∀ dir ∈ pages, ∀ q < 977920, (dir, q) ∉ P → KeepsPage dir q s t

section

variable {lay : Layout} {G G' D : Set Nat} {dirs : Roots} {pages : List DirPtr} {held : Set Nat}
  {s t u : Kern} {dir dir' : DirPtr} {e f p q va perm w : Nat} {P Q : Set (DirPtr × Nat)}
  {words : Nat → Nat}

theorem KeepsPage.trans (h : KeepsPage dir q s t) (h' : KeepsPage dir q t u) :
    KeepsPage dir q s u := by
  constructor
  · rw [h'.leaf, h.leaf]
  · intro hpr
    rw [← h.leaf] at hpr
    have hram := h'.ram hpr
    rw [h.leaf] at hpr hram
    rw [hram, h.ram hpr]
  · intro hpr
    rw [← h.leaf] at hpr
    have href := h'.references hpr
    rw [h.leaf] at hpr href
    rw [href, h.references hpr]

theorem KeepsOutside.refl (pages : List DirPtr) (P : Set (DirPtr × Nat)) (s : Kern) :
    KeepsOutside pages P s s :=
  fun _ _ _ _ _ => ⟨rfl, fun _ => rfl, fun _ => rfl⟩

theorem KeepsOutside.trans (h : KeepsOutside pages P s t) (h' : KeepsOutside pages P t u) :
    KeepsOutside pages P s u := by
  intro dir hdir q hq hn
  exact (h dir hdir q hq hn).trans (h' dir hdir q hq hn)

theorem KeepsOutside.mono (h : KeepsOutside pages P s t) (hsub : P ⊆ Q) :
    KeepsOutside pages Q s t := by
  intro dir hdir q hq hn
  exact h dir hdir q hq fun hp => hn (hsub hp)

theorem KeepsOutside.setEnv (h : KeepsOutside pages P s t) (e : Nat) (env : Env) :
    KeepsOutside pages P s (t.setEnv e env) :=
  fun dir hdir q hq hn =>
    have hk := h dir hdir q hq hn
    ⟨hk.leaf, hk.ram, hk.references⟩

/-! ## Single steps -/

/-- A frame with one reference is the frame of one page. -/
theorem MemOk.leaf_unique (h : MemOk lay G D dirs held s) (hdir : dir ∈ dirs.page) (hp : p < 977920)
    (hpr : present (s.leaf dir p)) (hone : s.references (ppn (s.leaf dir p)) = 1)
    (hdir' : dir' ∈ dirs.page) (hq : q < 977920) (hpr' : present (s.leaf dir' q))
    (he : ppn (s.leaf dir' q) = ppn (s.leaf dir p)) : dir' = dir ∧ q = p := by
  obtain ⟨a, ha, hmap⟩ := leaf_mapping lay hdir hp hpr
  obtain ⟨b, hb, hmap'⟩ := leaf_mapping lay hdir' hq hpr'
  rw [he] at hmap'
  have hslot := h.counted.unique hone hmap hmap'
  -- the two entries are one entry of one table
  injection hslot with htable hindex
  obtain ⟨r, -, hr, hpde, hframe⟩ := h.directories.table_some (.inl hdir) (by omega) ha
  obtain ⟨r', -, hr', hpde', hframe'⟩ := h.directories.table_some (.inl hdir') (by omega) hb
  have hrr : r' = r := by
    have hab : a = b := TablePtr.heap.inj htable
    omega
  rw [hrr, ← hframe] at hframe'
  obtain ⟨hd, hi⟩ :=
    h.directories.pde_inj dir' (.inl hdir') _ (by omega) dir (.inl hdir) _ (by omega)
    hpde' hpde hframe'
  exact ⟨hd, by omega⟩

/-- Where memory stands still all pages are kept. -/
theorem Still.keeps (h : Still pages D held s t) : KeepsOutside pages ∅ s t := by
  intro dir hdir q hq _
  have huse : present (s.leaf dir q) → InUse pages D held s (ppn (s.leaf dir q)) :=
    fun hpr => .inr (.inr ⟨dir, hdir, q, hq, hpr, rfl⟩)
  refine ⟨h.leaf dir hdir q hq, fun hpr => h.ram _ (huse hpr), fun hpr => ?_⟩
  unfold Kern.references
  rw [h.info _ (huse hpr)]

/-- A frame that was not in use is mapped. -/
theorem MapsUser.keeps (h : MapsUser dirs D held dir p f va perm s t)
    (hf : ∀ dir' ∈ dirs.page, ∀ q < 977920, present (s.leaf dir' q) → ppn (s.leaf dir' q) ≠ f) :
    KeepsOutside dirs.page {(dir, p)} s t := by
  intro dir' hdir' q hq hn
  have huse : present (s.leaf dir' q) → InUse dirs.page D held s (ppn (s.leaf dir' q)) :=
    fun hpr => .inr (.inr ⟨dir', hdir', q, hq, hpr, rfl⟩)
  refine ⟨?_, fun hpr => h.ram _ (huse hpr), fun hpr => ?_⟩
  · rw [h.leaf dir' hdir' q hq, if_neg]
    rintro ⟨rfl, rfl⟩
    exact hn rfl
  · unfold Kern.references
    rw [h.info _ (huse hpr) (hf dir' hdir' q hq hpr)]

/-- A page whose frame has one reference gives it up. -/
theorem UnmapsUser.keeps (h : UnmapsUser dirs D G dir p (ppn (s.leaf dir p)) s t)
    (hok : MemOk lay G D dirs held s) (hdir : dir ∈ dirs.page) (hp : p < 977920)
    (hpr : present (s.leaf dir p)) (hone : s.references (ppn (s.leaf dir p)) = 1) :
    KeepsOutside dirs.page {(dir, p)} s t := by
  intro dir' hdir' q hq hn
  have hne : ¬ (dir' = dir ∧ q = p) := by
    rintro ⟨rfl, rfl⟩
    exact hn rfl
  refine ⟨?_, fun hpr' => h.ram _ ?_, fun hpr' => ?_⟩
  · rw [h.leaf dir' hdir' q hq, if_neg hne]
  · exact (hok.inUse (.inr (.inr ⟨dir', hdir', q, hq, hpr', rfl⟩))).2
  · unfold Kern.references
    rw [h.info _ fun he => hne (hok.leaf_unique hdir hp hpr hone hdir' hq hpr' he)]

/-- A page whose frame has one reference is filled. -/
theorem TouchesPage.keeps (h : TouchesPage dirs D held dir p (ppn (s.leaf dir p)) w words s t)
    (hok : MemOk lay G D dirs held s) (hdir : dir ∈ dirs.page) (hp : p < 977920)
    (hpr : present (s.leaf dir p)) (hone : s.references (ppn (s.leaf dir p)) = 1) :
    KeepsOutside dirs.page {(dir, p)} s t := by
  intro dir' hdir' q hq hn
  have hne : ¬ (dir' = dir ∧ q = p) := by
    rintro ⟨rfl, rfl⟩
    exact hn rfl
  refine ⟨?_, fun hpr' => h.ram _ (.inr (.inr ⟨dir', hdir', q, hq, hpr', rfl⟩)) ?_, fun _ => ?_⟩
  · rw [h.leaf dir' hdir' q hq, if_neg hne]
  · intro he
    exact hne (hok.leaf_unique hdir hp hpr hone hdir' hq hpr' he)
  · unfold Kern.references
    rw [h.frames]

end

/-! ## The faulting page -/

/-- The page of `va` comes in between `s` and `t`: it is mapped to a frame of its own and entered
into the working set. A page that the page file has is loaded, and another one is a page of the
stack. -/
structure PagesIn (e va : Nat) (s t : FileState) : Prop where
  user : va < userTop
  pages : t.pages = s.pages
  index : (s.kern.envs e).pageLastWSIndex < (s.kern.envs e).pageWSMaxSize
  env : ∃ d, t.kern.envs e = { (s.kern.envs e).enterPage va with diskEnvPgdir := d }
  mapped : present (t.kern.leaf (s.kern.pageDirectory e) (ppn va))
  once : t.kern.references (ppn (t.kern.leaf (s.kern.pageDirectory e) (ppn va))) = 1
  keeps : KeepsOutside s.pages {(s.kern.pageDirectory e, ppn va)} s.kern t.kern
  store : ∀ x, x ≠ (e, ppn va) → t.store x = s.store x
  loaded : s.store (e, ppn va) ≠ none → t.store (e, ppn va) = s.store (e, ppn va) ∧
    ¬ modified (t.kern.leaf (s.kern.pageDirectory e) (ppn va)) ∧
    ∀ w, s.store (e, ppn va) = some (some w) →
      t.kern.ram (ppn (t.kern.leaf (s.kern.pageDirectory e) (ppn va))) = w
  added : s.store (e, ppn va) = none → (va < ustackTop ∧ ustackBottom ≤ va) ∧
    (s.kern.disk.diskFreeFrameList ≠ [] → t.store (e, ppn va) ≠ none)

section

variable {lay : Layout} {D : Set Nat} {pages : List DirPtr} {held : Set Nat}
    {s : FileState} {k : Kern}
  {dir : DirPtr} {e f va v init perm : Nat} {r : Int}

/-- With a free disk frame the page is in the file afterwards. -/
theorem FileInv.pfAddEmptyEnvPage_stored {k' : Kern} (h : FileInv lay D pages held k)
    (hva : va < userTop) (hroom : k.disk.diskFreeFrameList ≠ [])
    (hk : Fos.pfAddEmptyEnvPage e va init k = .ok r k') : k'.diskSlot (e, ppn va) ≠ 0 := by
  -- with or without a first content, the slot is that of `pf_disk_frame`
  obtain ⟨o, k₁, h₁, hslot⟩ : ∃ o k₁, Fos.pfDiskFrame e va k = .ok o k₁ ∧
    k'.diskSlot = k₁.diskSlot := by
    rw [Fos.pfAddEmptyEnvPage, Prog.ite_run] at hk
    split at hk
    case isTrue =>
      rw [Prog.get_bind_apply] at hk
      obtain ⟨o, k₁, h₁, hk⟩ := bind_eq_ok.1 hk
      refine ⟨o, k₁, h₁, ?_⟩
      cases o with
      | none =>
        obtain ⟨-, rfl⟩ := ok_inj.1 hk
        rfl
      | some n =>
        obtain ⟨-, rfl⟩ := ok_inj.1 hk
        rfl
    case isFalse =>
      obtain ⟨o, k₁, h₁, hk⟩ := bind_eq_ok.1 hk
      refine ⟨o, k₁, h₁, ?_⟩
      cases o with
      | none =>
        obtain ⟨-, rfl⟩ := ok_inj.1 hk
        rfl
      | some n =>
        obtain ⟨-, rfl⟩ := ok_inj.1 hk
        rfl
  obtain ⟨-, -, ha⟩ := h.pfDiskFrame hva h₁
  rw [hslot]
  cases ha with
  | full h0 hfree => exact absurd hfree hroom
  | old h0 hd hs =>
    rw [hs]
    exact h0
  | new h0 hfree hd hs =>
    rw [hs, Function.update_self]
    exact h.frame_ne_zero (.new h0 hfree hd hs) rfl

/-- A new frame at a page that is not mapped. -/
theorem StoreInv.place_keeps {k₁ k₂ : Kern} (hi : StoreInv lay s) (hdir : dir ∈ s.pages)
    (hva : va < userTop) (hz : s.kern.leaf dir (ppn va) = 0) (hperm : perm < 4096)
    (h₁ : allocateFrame s.kern = .ok f k₁) (h₂ : mapFrame dir f va perm k₁ = .ok () k₂) :
    KeepsOutside s.pages {(dir, ppn va)} s.kern k₂ ∧ k₂.references f = 1 ∧
    k₂.disk = s.kern.disk := by
  obtain ⟨G, dirs, hpages, h⟩ := hi.file
  rw [← hpages] at hdir ⊢
  obtain ⟨hok₁, hq, hf, hinfo, -, hnot, -⟩ := h.mem.allocateFrame h₁
  have hst := hq.still h.mem
  have hrefs : k₁.references f = 0 := by
    unfold Kern.references
    rw [hinfo]
  have hz₁ : k₁.leaf dir (ppn va) = 0 := by
    rw [hst.leaf dir hdir _ (pdx_user hva).2]
    exact hz
  obtain ⟨G', -, -, hmap, -⟩ := hok₁.mapUser hdir hva hz₁ hf (by omega) hperm h₂
  refine ⟨(hst.keeps.mono (Set.empty_subset _)).trans (hmap.keeps ?_), ?_, ?_⟩
  · intro dir' hdir' q hq' hpr he
    rw [hst.leaf dir' hdir' q hq'] at hpr he
    exact hnot (.inr (.inr ⟨dir', hdir', q, hq', hpr, he⟩))
  · unfold Kern.references at hrefs ⊢
    rw [hmap.infoSelf, hrefs]
  · rw [hmap.disk, hq.disk]

/-- What `pf_read_env_page` does to a page with a frame of its own. -/
theorem StoreInv.read_page (hi : StoreInv lay s) (hva : va < userTop)
    (hpd : (s.kern.envs e).envPageDirectory ≠ 0)
    (hpr : present (s.kern.leaf (s.kern.pageDirectory e) (ppn va)))
    (hone : s.kern.references (ppn (s.kern.leaf (s.kern.pageDirectory e) (ppn va))) = 1)
    (h : pfReadEnvPage e e va s.kern = .ok r k) :
    KeepsOutside s.pages {(s.kern.pageDirectory e, ppn va)} s.kern k ∧
      (k.envs = s.kern.envs ∧ k.disk = s.kern.disk ∧ k.frames = s.kern.frames) ∧
      (present (k.leaf (s.kern.pageDirectory e) (ppn va)) ∧
        ppn (k.leaf (s.kern.pageDirectory e) (ppn va)) =
          ppn (s.kern.leaf (s.kern.pageDirectory e) (ppn va))) ∧
      ((r ≠ 0 ∧ s.kern.diskSlot (e, ppn va) = 0) ∨ (r = 0 ∧ s.kern.diskSlot (e, ppn va) ≠ 0 ∧
        ¬ modified (k.leaf (s.kern.pageDirectory e) (ppn va)) ∧
        k.ram (ppn (s.kern.leaf (s.kern.pageDirectory e) (ppn va))) =
          s.kern.disk.words (s.kern.diskSlot (e, ppn va)))) := by
  obtain ⟨G, dirs, hpages, hfile⟩ := hi.file
  have hdir := hi.pages e hpd
  have hp := (pdx_user hva).2
  rw [← hpages] at hdir ⊢
  rcases hfile.pfReadEnvPage hdir hva hpr with ⟨h0, hrun⟩ | ⟨hn, t, hrun, -, ht⟩
  · rw [h] at hrun
    obtain ⟨rfl, rfl⟩ := ok_inj.1 hrun
    exact ⟨.refl _ _ _, ⟨rfl, rfl, rfl⟩, ⟨hpr, rfl⟩,
      .inl ⟨by decide, h0⟩⟩
  · rw [h] at hrun
    obtain ⟨rfl, rfl⟩ := ok_inj.1 hrun
    -- the kernel clears the modified bit that its own copying has set
    have hleaf : k.leaf (s.kern.pageDirectory e) (ppn va) =
        clearPerm (s.kern.leaf (s.kern.pageDirectory e) (ppn va)) permModified := by
      rw [ht.leaf _ hdir _ hp, if_pos ⟨rfl, rfl⟩]
    refine ⟨ht.keeps hfile.mem hdir hp hpr hone, ⟨ht.envs, ht.disk, ht.frames⟩, ⟨?_, ?_⟩,
      .inr ⟨rfl, hn, ?_, ht.content⟩⟩
    · rw [hleaf]
      exact (present_clearPerm _).2 hpr
    · rw [hleaf, ppn_clearPerm]
    · rw [hleaf]
      exact not_modified_clearPerm _

/-- Both branches bring the faulting page in. -/
theorem StoreInv.pagesIn {invalid : String} {k₁ k₂ : Kern} (hi : StoreInv lay s)
    (hpd : (s.kern.envs e).envPageDirectory ≠ 0)
    (hz : s.kern.leaf (s.kern.pageDirectory e) (ppn va) = 0)
    (h₁ : allocateFrame s.kern = .ok f k₁)
    (h₂ : mapFrame (s.kern.pageDirectory e) f va (permUser ||| permWriteable) k₁ = .ok () k₂)
    (h₃ : Fos.enterFaultingPage e va init invalid k₂ = .ok () k) :
    ∃ m, StoreInv lay ⟨k, s.pages, m⟩ ∧ PagesIn e va s ⟨k, s.pages, m⟩ := by
  obtain ⟨hva, r, k₃, k₄, hread, hadd, hindex, rfl⟩ := enterFaultingPage_ok h₃
  have hdir := hi.pages e hpd
  have hp := (pdx_user hva).2
  -- the frame
  obtain ⟨⟨hi₂, hslot₂⟩, henvs₂, hleaf₂⟩ := hi.placePage hdir hva (by decide) h₁ h₂
  obtain ⟨hkeep₂, hone₂, hdisk₂⟩ := hi.place_keeps hdir hva hz (by decide) h₁ h₂
  have hd₂ : k₂.pageDirectory e = s.kern.pageDirectory e := by
    unfold Kern.pageDirectory
    rw [henvs₂]
  have hself₂ : k₂.leaf (s.kern.pageDirectory e) (ppn va) = entryOf f (permUser ||| permWriteable) := by
    rw [hleaf₂ _ hdir _ hp, if_pos ⟨rfl, rfl⟩]
  have hframe₂ : ppn (k₂.leaf (s.kern.pageDirectory e) (ppn va)) = f := by
    rw [hself₂]
    exact ppn_entryOf (by decide)
  have hpr₂ : present (k₂.leaf (s.kern.pageDirectory e) (ppn va)) := by
    rw [hself₂]
    exact present_entryOf (by decide)
  -- its words
  have hpd₂ : (k₂.envs e).envPageDirectory ≠ 0 := by
    rw [henvs₂]
    exact hpd
  rw [← hd₂] at hpr₂ hframe₂
  have hi₃ := (hi₂.read hva hpd₂ hpr₂ hread).1
  obtain ⟨hkeep₃, ⟨henvs₃, hdisk₃, hframes₃⟩, ⟨hpr₃, hframe₃⟩, hcase₃⟩ :=
    hi₂.read_page hva hpd₂ hpr₂
    (by rw [hframe₂]; exact hone₂) hread
  rw [hd₂] at hkeep₃ hpr₃ hframe₃ hframe₂ hcase₃
  have hone₃ : k₃.references (ppn (k₃.leaf (s.kern.pageDirectory e) (ppn va))) = 1 := by
    unfold Kern.references at hone₂ ⊢
    rw [hframe₃, hframe₂, hframes₃]
    exact hone₂
  have hkeep := hkeep₂.trans hkeep₃
  have henv₃ : k₃.envs e = s.kern.envs e := by rw [henvs₃, henvs₂]
  -- its place in the page file
  rcases hadd with ⟨hr, rfl⟩ | ⟨hr, htop, hbottom, r', hadd⟩
  · rcases hcase₃ with ⟨hr', -⟩ | ⟨-, hn, hclean, hwords⟩
    · exact absurd hr hr'
    · have hsome : s.store (e, ppn va) ≠ none := by
        intro hnone
        rw [hslot₂] at hn
        exact hn ((hi.shows.absent _).1 hnone)
      refine ⟨s.store, hi₃.setEnv rfl rfl,
        ⟨hva, rfl, ?_, ⟨(s.kern.envs e).diskEnvPgdir, ?_⟩, hpr₃, hone₃,
        hkeep.setEnv e _, fun _ _ => rfl, fun _ => ⟨rfl, hclean, fun w hw => ?_⟩,
        fun hnone => absurd hnone hsome⟩⟩
      · rw [← henv₃]
        exact hindex
      · show Function.update k₄.envs e _ e = _
        rw [Function.update_self, henv₃]
        rfl
      · show k₄.ram (ppn (k₄.leaf (s.kern.pageDirectory e) (ppn va))) = w
        rw [hframe₃, hwords, hslot₂, hdisk₂]
        exact hi.shows.words _ _ hw
  · rcases hcase₃ with ⟨-, h0⟩ | ⟨hr', -⟩
    · rw [hslot₂] at h0
      have hnone := (hi.shows.absent _).2 h0
      obtain ⟨m, hi₄, helse⟩ := hi₃.addEmpty_elsewhere hva hadd
      obtain ⟨-, honly, -⟩ := hi₃.file.pfAddEmptyEnvPage hva hadd
      have henv₄ : k₄.envs e = { s.kern.envs e with diskEnvPgdir := (k₄.envs e).diskEnvPgdir } := by
        rw [← henv₃]
        exact honly.env e
      have hself := honly.toStill.keeps _ hdir _ hp (Set.notMem_empty _)
      refine ⟨m, hi₄.setEnv rfl rfl, ⟨hva, rfl, ?_, ⟨(k₄.envs e).diskEnvPgdir, ?_⟩, ?_, ?_,
        (hkeep.trans (honly.toStill.keeps.mono (Set.empty_subset _))).setEnv e _, helse.store,
        fun hsome => absurd hnone hsome, fun _ => ⟨⟨htop, hbottom⟩, fun hroom hm => ?_⟩⟩⟩
      · rw [henv₄] at hindex
        exact hindex
      · show Function.update k₄.envs e _ e = _
        rw [Function.update_self, henv₄]
        rfl
      · show present (k₄.leaf (s.kern.pageDirectory e) (ppn va))
        rw [hself.leaf]
        exact hpr₃
      · show k₄.references (ppn (k₄.leaf (s.kern.pageDirectory e) (ppn va))) = 1
        rw [hself.leaf, hself.references hpr₃]
        exact hone₃
      · apply hi₃.file.pfAddEmptyEnvPage_stored hva ?_ hadd ((hi₄.shows.absent _).1 hm)
        show k₃.disk.diskFreeFrameList ≠ []
        rw [hdisk₃, hdisk₂]
        exact hroom
    · exact absurd hr' hr

/-! ## The victim -/

/-- The page of `v` goes out between `s` and `t`: it is not mapped any more, its entry is cleared,
and the page file has its words if it was modified and has a disk frame. -/
structure PagesOut (e v : Nat) (s t : FileState) : Prop where
  pages : t.pages = s.pages
  env : ∃ d, t.kern.envs e =
    { (s.kern.envs e).clearEntry (s.kern.envs e).pageLastWSIndex with diskEnvPgdir := d }
  unmapped : t.kern.leaf (s.kern.pageDirectory e) (ppn v) = 0
  keeps : KeepsOutside s.pages {(s.kern.pageDirectory e, ppn v)} s.kern t.kern
  store : ∀ x, x ≠ (e, ppn v) → t.store x = s.store x
  clean : ¬ modified (s.kern.leaf (s.kern.pageDirectory e) (ppn v)) →
    t.store (e, ppn v) = s.store (e, ppn v)
  written : modified (s.kern.leaf (s.kern.pageDirectory e) (ppn v)) → s.store (e, ppn v) ≠ none →
    t.store (e, ppn v) =
      some (some (s.kern.ram (ppn (s.kern.leaf (s.kern.pageDirectory e) (ppn v)))))
  freeFrames : t.kern.disk.diskFreeFrameList = s.kern.disk.diskFreeFrameList

/-- The entry at `page_last_WS_index` holds the page of `v`, mapped to a frame of its own. -/
structure VictimAt (e v : Nat) (s : Kern) : Prop where
  entry : ∃ w, (s.envs e).ptrPageWorkingSet[(s.envs e).pageLastWSIndex]? = some w ∧
    w.virtualAddress = v
  user : v < userTop
  mapped : present (s.leaf (s.pageDirectory e) (ppn v))
  once : s.references (ppn (s.leaf (s.pageDirectory e) (ppn v))) = 1

/-- What `pf_update_env_page` does to the pages. -/
theorem StoreInv.writeBack_keeps {r : Int} (hi : StoreInv lay s) (hva : va < userTop)
    (hf : UserFrame s.pages s.kern f) (h : pfUpdateEnvPage e va f s.kern = .ok r k) :
    ∃ m, StoreInv lay ⟨k, s.pages, m⟩ ∧ KeepsOutside s.pages ∅ s.kern k ∧
      (k.envs e = { s.kern.envs e with diskEnvPgdir := (k.envs e).diskEnvPgdir } ∧
        k.disk.diskFreeFrameList = s.kern.disk.diskFreeFrameList) ∧
      (∀ x, x ≠ (e, ppn va) → m x = s.store x) ∧
      (s.store (e, ppn va) ≠ none → m (e, ppn va) = some (some (s.kern.ram f))) := by
  have hcase := (hi.file.pfUpdateEnvPage hva (hi.pages e) hi.scratch hf (hi.count f hf) h).2
  rcases hcase with ⟨rfl, h0, honly, hdisk, -⟩ | ⟨rfl, hn, hcopied, -, hleaf⟩
  · refine ⟨s.store, hi.updateFails hva hf (by decide) h, honly.toStill.keeps, ⟨honly.env e, ?_⟩,
      fun _ _ => rfl, fun hsome => absurd ((hi.shows.absent _).2 h0) hsome⟩
    rw [hdisk]
  · refine ⟨_, hi.update hva hf h,
      fun dir hdir q hq _ => ⟨hleaf dir hdir q hq, fun _ => ?_, fun _ => ?_⟩,
      ?_, fun x hx => Store.put_of_ne _ hx, fun _ => Store.put_self _⟩
    · rw [hcopied]
      rfl
    · rw [hcopied, references_copied]
    · rw [hcopied]
      exact ⟨rfl, rfl⟩

theorem StoreInv.unmap_keeps {k' : Kern} (hi : StoreInv lay s) (hdir : dir ∈ s.pages)
    (hva : va < userTop) (hone : present (s.kern.leaf dir (ppn va)) →
      s.kern.references (ppn (s.kern.leaf dir (ppn va))) = 1)
    (h : unmapFrame dir va s.kern = .ok () k') :
    KeepsOutside s.pages {(dir, ppn va)} s.kern k' ∧ k'.disk = s.kern.disk := by
  obtain ⟨G, dirs, hpages, hfile⟩ := hi.file
  rw [← hpages] at hdir ⊢
  rcases hfile.mem.unmapUser hdir hva h with ⟨rfl, -⟩ | ⟨hpr, -, hun⟩
  · exact ⟨.refl _ _ _, rfl⟩
  · exact ⟨hun.keeps hfile.mem hdir (pdx_user hva).2 hpr (hone hpr), hun.disk⟩

/-- The calls of `replacePage` on the victim. -/
theorem StoreInv.pagesOut {s₁ s₂ : Kern} (hi : StoreInv lay s)
    (hpd : (s.kern.envs e).envPageDirectory ≠ 0) (hv : VictimAt e v s.kern)
    (h₁ : (modified (s.kern.leaf (s.kern.pageDirectory e) (ppn v)) ∧ ∃ r,
        pfUpdateEnvPage e v (ppn (s.kern.leaf (s.kern.pageDirectory e) (ppn v))) s.kern = .ok r s₁) ∨
      (¬ modified (s.kern.leaf (s.kern.pageDirectory e) (ppn v)) ∧ s₁ = s.kern))
    (h₂ : unmapFrame (s.kern.pageDirectory e) v s₁ = .ok () s₂) :
    ∃ m, StoreInv lay ⟨s₂.setEnv e ((s₂.envs e).clearEntry (s.kern.envs e).pageLastWSIndex), s.pages, m⟩ ∧
      PagesOut e v s
        ⟨s₂.setEnv e ((s₂.envs e).clearEntry (s.kern.envs e).pageLastWSIndex), s.pages, m⟩ := by
  have hdir := hi.pages e hpd
  have hp := (pdx_user hv.user).2
  have hf : UserFrame s.pages s.kern (ppn (s.kern.leaf (s.kern.pageDirectory e) (ppn v))) :=
    ⟨_, hdir, _, hp, hv.mapped, rfl⟩
  -- the words go to the page file
  obtain ⟨m, hi₁, hkeep₁, ⟨henv₁, hfree₁⟩, helse, hclean, hwritten⟩ : ∃ m, StoreInv lay ⟨s₁, s.pages, m⟩ ∧
      KeepsOutside s.pages ∅ s.kern s₁ ∧
      (s₁.envs e = { s.kern.envs e with diskEnvPgdir := (s₁.envs e).diskEnvPgdir } ∧
        s₁.disk.diskFreeFrameList = s.kern.disk.diskFreeFrameList) ∧
      (∀ x, x ≠ (e, ppn v) → m x = s.store x) ∧
      (¬ modified (s.kern.leaf (s.kern.pageDirectory e) (ppn v)) → m (e, ppn v) = s.store (e, ppn v)) ∧
      (modified (s.kern.leaf (s.kern.pageDirectory e) (ppn v)) → s.store (e, ppn v) ≠ none →
        m (e, ppn v) =
          some (some (s.kern.ram (ppn (s.kern.leaf (s.kern.pageDirectory e) (ppn v)))))) := by
    rcases h₁ with ⟨hmod, r, h₁⟩ | ⟨hmod, rfl⟩
    · obtain ⟨m, hi₁, hkeep₁, henv₁, helse, hstored⟩ := hi.writeBack_keeps hv.user hf h₁
      exact ⟨m, hi₁, hkeep₁, henv₁, helse, fun hclean => absurd hmod hclean, fun _ => hstored⟩
    · exact ⟨s.store, hi, .refl _ _ _, ⟨rfl, rfl⟩, fun _ _ => rfl, fun _ => rfl,
        fun hc => absurd hc hmod⟩
  -- the page is unmapped
  have hself := hkeep₁ _ hdir _ hp (Set.notMem_empty _)
  have hpr₁ : present (s₁.leaf (s.kern.pageDirectory e) (ppn v)) := by
    rw [hself.leaf]
    exact hv.mapped
  have hone₁ : s₁.references (ppn (s₁.leaf (s.kern.pageDirectory e) (ppn v))) = 1 := by
    rw [hself.leaf, hself.references hv.mapped]
    exact hv.once
  have hi₂ := (hi₁.unmapPage hdir hv.user h₂).1
  obtain ⟨hleaf₂, henvs₂⟩ := hi₁.unmapPage_leaf hdir hv.user h₂
  obtain ⟨hkeep₂, hdisk₂⟩ := hi₁.unmap_keeps hdir hv.user (fun _ => hone₁) h₂
  have henv₂ : s₂.envs e = { s.kern.envs e with diskEnvPgdir := (s₁.envs e).diskEnvPgdir } := by
    rw [henvs₂]
    exact henv₁
  refine ⟨m, hi₂.setEnv rfl rfl, ⟨rfl, ⟨(s₁.envs e).diskEnvPgdir, ?_⟩, hleaf₂,
    ((hkeep₁.mono (Set.empty_subset _)).trans hkeep₂).setEnv e _, helse, hclean, hwritten, ?_⟩⟩
  · show Function.update s₂.envs e _ e = _
    rw [Function.update_self, henv₂]
    rfl
  · show s₂.disk.diskFreeFrameList = _
    rw [hdisk₂]
    exact hfree₁

/-! ## The handler -/

/-- **`page_fault_handler`** at a page that is not mapped: in a full working set the page of the
entry at `page_last_WS_index` goes out first, and the faulting page comes in. -/
theorem StoreInv.pageFaultHandler (hi : StoreInv lay s) (hpd : (s.kern.envs e).envPageDirectory ≠ 0)
    (hz : s.kern.leaf (s.kern.pageDirectory e) (ppn va) = 0)
    (hv : ¬ (s.kern.envs e).pageWsGetSize < (s.kern.envs e).pageWSMaxSize → VictimAt e v s.kern)
    (h : Fos.pageFaultHandler e va s.kern = .ok () k) :
    ∃ u m, StoreInv lay u ∧ StoreInv lay ⟨k, s.pages, m⟩ ∧
      (((s.kern.envs e).pageWsGetSize < (s.kern.envs e).pageWSMaxSize ∧ u = s) ∨
        (¬ (s.kern.envs e).pageWsGetSize < (s.kern.envs e).pageWSMaxSize ∧ PagesOut e v s u)) ∧
      PagesIn e va u ⟨k, s.pages, m⟩ := by
  unfold Fos.pageFaultHandler at h
  rw [Prog.get_bind_apply, Prog.ite_run] at h
  split at h
  case isTrue hroom =>
    unfold Fos.placePage at h
    rw [Prog.get_bind_apply] at h
    obtain ⟨f, k₁, h₁, h⟩ := bind_eq_ok.1 h
    obtain ⟨_, k₂, h₂, h⟩ := bind_eq_ok.1 h
    obtain ⟨m, him, hin⟩ := hi.pagesIn hpd hz h₁ h₂ h
    exact ⟨s, m, hi, him, .inl ⟨hroom, rfl⟩, hin⟩
  case isFalse hfull =>
    have hv := hv hfull
    obtain ⟨G, dirs, hpages, hfile⟩ := hi.file
    have hdir : s.kern.pageDirectory e ∈ dirs.page := by
      rw [hpages]
      exact hi.pages e hpd
    obtain ⟨tbl, hget⟩ := hfile.mem.getFrameInfo_user hdir hv.user hv.mapped
    have hperm := hfile.mem.ptGetPagePermissions_user hdir hv.user hv.mapped
    obtain ⟨s₁, s₂, f, s₄, s₅, hcall, h₂, h₄, h₅, h₆⟩ := replacePage_ok hget hperm hv.entry h
    rw [modified_permissions] at hcall
    obtain ⟨m₁, hi₁, hout⟩ := hi.pagesOut hpd hv hcall h₂
    -- the directory is the same one
    obtain ⟨d, henv⟩ := hout.env
    have hd : (s₂.setEnv e ((s₂.envs e).clearEntry (s.kern.envs e).pageLastWSIndex)).pageDirectory e =
        s.kern.pageDirectory e := by
      unfold Kern.pageDirectory
      rw [henv]
      rfl
    have hne : ppn va ≠ ppn v := by
      intro he
      rw [he] at hz
      exact present_ne_zero hv.mapped hz
    have hmem : s.kern.pageDirectory e ∈ s.pages := hi.pages e hpd
    have huser : va < userTop := (enterFaultingPage_ok h₆).1
    have hz₁ : (s₂.setEnv e ((s₂.envs e).clearEntry (s.kern.envs e).pageLastWSIndex)).leaf
        (s.kern.pageDirectory e) (ppn va) = 0 := by
      rw [(hout.keeps _ hmem _ (pdx_user huser).2 fun hc => hne (congrArg Prod.snd hc)).leaf]
      exact hz
    rw [← hd] at h₅ hz₁
    obtain ⟨m, him, hin⟩ := hi₁.pagesIn (by rw [DirPtr.heap.inj hd]; exact hpd) hz₁ h₄ h₅ h₆
    exact ⟨_, m, hi₁, him, .inr ⟨hfull, hout⟩, hin⟩

end

end Fos
