import Fos.PageTables.Pages
import Fos.PageFile

/-!
# Words of user pages

The MMU walks the tables that `get_page_table` walks. Filling a user page changes the words of its
frame and the permission bits of its entry, and nothing else that is in use.
-/

namespace Fos

open Function (update)
open Prog (bind_eq_ok ok_inj)

/-- The entry of page `p` is `w` now, its frame `f` holds `words`, and that is all. -/
structure TouchesPage (dirs : Roots) (D held : Set Nat) (dir : DirPtr) (p f w : Nat)
    (words : Nat → Nat) (s t : Kern) : Prop extends Kept D s t, SameRest dirs s t where
  leaf : ∀ dir' ∈ dirs.page, ∀ q < 977920,
    t.leaf dir' q = if dir' = dir ∧ q = p then w else s.leaf dir' q
  content : t.ram f = words
  ram : ∀ g, InUse dirs.page D held s g → g ≠ f → t.ram g = s.ram g
  frames : t.frames = s.frames

section

variable {lay : Layout} {G G' D : Set Nat} {dirs : Roots} {held : Set Nat} {s s' t : Kern}
  {pages : List DirPtr} {dir : DirPtr} {e f p va perm w w' : Nat} {x : Slot} {words words' : Nat → Nat}

/-! ## The walk -/

/-- The frame that a user page maps has no owned page. -/
theorem MemOk.leaf_notOwned (h : MemOk lay G D dirs held s) (hdir : dir ∈ dirs.page)
    (hp : p < 977920) (hpr : present (s.leaf dir p)) :
    ∀ q ∈ G, ppn (s.leaf dir p) ≠ s.kframe q := by
  obtain ⟨a, -, hm⟩ := leaf_mapping lay hdir hp hpr
  intro q hq he
  rw [he] at hm
  cases congrArg Prod.fst (h.accounted.unshared q hq _ hm)

/-- The walk finds the entry of the page, where it is present. -/
theorem MemOk.walk (h : MemOk lay G D dirs held s) (hdir : dir ∈ dirs.page) (hva : va < userTop)
    (hpr : present (s.leaf dir (ppn va))) : ∃ q ∈ G,
      SlotAt dirs s dir (ppn va) (.heap (q * 4096), ptx va) ∧
      s.walk dir va = some (s.kframe q, s.leaf dir (ppn va)) := by
  obtain ⟨hpdx, hlt⟩ := pdx_user hva
  obtain ⟨a, ha, -⟩ := leaf_mapping lay hdir hlt hpr
  obtain ⟨q, hq, rfl, hpde, he⟩ := h.directories.table_some (.inl hdir) (by omega) ha
  rw [← hpdx] at hpde he
  refine ⟨q, hq, slotAt_of_table hdir hlt ha, ?_⟩
  have hleaf : s.leaf dir (ppn va) = s.ram (s.kframe q) (ptx va) := by
    rw [leaf_of_some ha]
    show s.ram (s.frameAt (q * 4096)) _ = _
    rw [kframe_page]
    rfl
  rw [hleaf] at hpr ⊢
  unfold Kern.walk
  dsimp only
  rw [if_pos hpde, he, if_pos hpr]

/-- The walk ends where the page is not mapped. -/
theorem MemOk.walk_none (h : MemOk lay G D dirs held s) (hdir : dir ∈ dirs.page)
    (hva : va < userTop) (hnp : ¬ present (s.leaf dir (ppn va))) : s.walk dir va = none := by
  obtain ⟨hpdx, hlt⟩ := pdx_user hva
  unfold Kern.walk
  dsimp only
  by_cases hpde : present (s.pde dir (pdx va))
  · have ha : s.table dir (ppn va / 1024) = _ := if_pos (hpdx ▸ hpde)
    obtain ⟨q, -, hq, -, he⟩ := h.directories.table_some (.inl hdir) (by omega) ha
    rw [← hpdx] at he
    rw [if_pos hpde, if_neg]
    rw [leaf_of_some ha, hq] at hnp
    intro hpr
    apply hnp
    show present (s.ram (s.frameAt (q * 4096)) (ppn va % 1024))
    rw [← kframe_page] at he
    rw [← he]
    exact hpr
  · rw [if_neg hpde]

/-- The directory names the table that the entry of a mapped user page is in. -/
theorem MemOk.tableOf_user (h : MemOk lay G D dirs held s) (hdir : dir ∈ dirs.page)
    (hva : va < userTop) (hpr : present (s.leaf dir (ppn va))) : ∃ q,
      present (s.pde dir (pdx va)) ∧ tableOf s va (s.pde dir (pdx va)) = .heap (q * 4096) ∧
      SlotAt dirs s dir (ppn va) (.heap (q * 4096), ptx va) := by
  obtain ⟨q, hq, hx, -⟩ := h.walk hdir hva hpr
  obtain ⟨hpdx, hlt⟩ := pdx_user hva
  obtain ⟨a, ha, hxa⟩ := hx.table
  obtain ⟨r, -, -, hpde, -⟩ := h.directories.table_some (.inl hdir) (by omega) ha
  rw [← hpdx] at hpde ha
  have hnk : ¬ checkIfKernelAddress va := by
    unfold checkIfKernelAddress
    omega
  refine ⟨q, hpde, ?_, hx⟩
  have hsome : s.table dir (pdx va) =
      some (kheapVirtualAddress s (extractAddress (s.pde dir (pdx va)))) := if_pos hpde
  rw [ha] at hsome
  rw [tableOf, if_neg hnk, ← Option.some.inj hsome]
  exact (congrArg Prod.fst hxa).symm

/-! ## Frames of user pages -/

/-- A frame that a user page maps may be mapped again. -/
theorem MemOk.usable_leaf (h : MemOk lay G D dirs held s) (hdir : dir ∈ dirs.page)
    (hp : p < 977920) (hpr : present (s.leaf dir p)) : Usable lay G s (ppn (s.leaf dir p)) := by
  obtain ⟨a, -, hm⟩ := leaf_mapping lay hdir hp hpr
  exact ⟨h.counted.inPool _ _ hm, h.counted.notFree hm, h.leaf_notOwned hdir hp hpr⟩

/-- The frame is mapped at a user page of one of the directories. -/
def UserFrame (pages : List DirPtr) (s : Kern) (f : Nat) : Prop :=
  ∃ dir ∈ pages, ∃ p < 977920, present (s.leaf dir p) ∧ ppn (s.leaf dir p) = f

theorem UserFrame.usable (hf : UserFrame dirs.page s f) (h : MemOk lay G D dirs held s) :
    Usable lay G s f := by
  obtain ⟨dir, hdir, p, hp, hpr, rfl⟩ := hf
  exact h.usable_leaf hdir hp hpr

theorem UserFrame.inUse (hf : UserFrame pages s f) : InUse pages D held s f := .inr (.inr hf)

theorem userFrame_congr (hl : ∀ dir ∈ pages, ∀ p < 977920, t.leaf dir p = s.leaf dir p) :
    UserFrame pages t f ↔ UserFrame pages s f := by
  unfold UserFrame
  refine exists_congr fun dir => and_congr_right fun hdir => exists_congr fun p =>
    and_congr_right fun hp => ?_
  rw [hl dir hdir p hp]

/-- Where the leaves and the counts of the frames in use stand still, no count gets too large. -/
theorem Still.count (h : Still pages D held s t)
    (hc : ∀ f, UserFrame pages s f → s.references f < 65535) :
    ∀ f, UserFrame pages t f → t.references f < 65535 := by
  intro f hf
  have hf' := (userFrame_congr h.leaf).1 hf
  unfold Kern.references
  rw [h.info f hf'.inUse]
  exact hc f hf'

theorem MapsUser.count (h : MapsUser dirs D held dir p f va w s t) (hw : w < 4096)
    (hf : s.references f < 65534) (hc : ∀ g, UserFrame dirs.page s g → s.references g < 65535) :
    ∀ g, UserFrame dirs.page t g → t.references g < 65535 := by
  rintro g ⟨dir', hdir', q, hq, hpr, rfl⟩
  rw [h.leaf dir' hdir' q hq] at hpr ⊢
  by_cases hgf : ppn (if dir' = dir ∧ q = p then entryOf f w else s.leaf dir' q) = f
  · rw [hgf]
    unfold Kern.references at hf ⊢
    rw [h.infoSelf]
    show (s.frames.info f).references + 1 < 65535
    omega
  · split at hpr
    case isTrue hcase =>
      rw [if_pos hcase] at hgf
      exact absurd (ppn_entryOf hw) hgf
    case isFalse hcase =>
      rw [if_neg hcase] at hgf ⊢
      have hg : UserFrame dirs.page s (ppn (s.leaf dir' q)) := ⟨dir', hdir', q, hq, hpr, rfl⟩
      unfold Kern.references
      rw [h.info _ hg.inUse hgf]
      exact hc _ hg

theorem UnmapsUser.count (h : UnmapsUser dirs D G dir p f s t)
    (hc : ∀ g, UserFrame dirs.page s g → s.references g < 65535) :
    ∀ g, UserFrame dirs.page t g → t.references g < 65535 := by
  rintro g ⟨dir', hdir', q, hq, hpr, rfl⟩
  rw [h.leaf dir' hdir' q hq] at hpr ⊢
  split at hpr
  case isTrue => exact absurd hpr not_present_zero
  case isFalse hcase =>
    rw [if_neg hcase]
    have hg := hc _ ⟨dir', hdir', q, hq, hpr, rfl⟩
    unfold Kern.references at hg ⊢
    by_cases hgf : ppn (s.leaf dir' q) = f
    · rw [hgf] at hg ⊢
      by_cases hone : (s.frames.info f).references = 1
      · rw [(h.last hone).2]
        omega
      · rw [(h.shared hone).2]
        omega
    · rw [h.info _ hgf]
      exact hg

/-! ## Filling a frame -/

/-- The words of a frame without an owned page do not matter. -/
theorem MemOk.fillUser (h : MemOk lay G D dirs held s) (hf : ∀ p ∈ G, f ≠ s.kframe p)
    (words : Nat → Nat) : MemOk lay G D dirs held (s.fill f words) ∧
      ∀ dir ∈ dirs, ∀ p < 977920, (s.fill f words).leaf dir p = s.leaf dir p := by
  have hd := h.directories
  -- the frame is behind no kernel page, so no directory or table is written
  have hram : ∀ p ∈ G, (s.fill f words).ram (s.kframe p) = s.ram (s.kframe p) :=
    fun p hp => fill_ram_of_ne (hf p hp).symm
  have hpde : ∀ dir ∈ dirs, ∀ i, (s.fill f words).pde dir i = s.pde dir i := fun dir hdir i =>
    hd.pde_congr (t := s.fill f words) (fun _ _ => rfl) hram rfl hdir
  have hdirs : Directories G dirs (s.fill f words) :=
    hd.congr (fun _ _ => rfl) (fun _ _ => rfl) (fun dir hdir i _ => hpde dir hdir i) rfl
  have htab : ∀ dir ∈ dirs, ∀ i < 955, (s.fill f words).table dir i = s.table dir i :=
    fun dir hdir i hi => hd.table_congr hdirs (fun _ _ => rfl) hdir hi (hpde dir hdir i)
  have hlive : liveSlots lay dirs (s.fill f words) = liveSlots lay dirs s :=
    liveSlots_congr fun dir hdir i hi => htab dir (.inl hdir) i hi
  have hentry : ∀ x ∈ liveSlots lay dirs s, (s.fill f words).entry x = s.entry x := by
    intro x hx
    rcases liveSlots_cases hd hx with ⟨p, -, rfl⟩ | ⟨p, hp, j, -, rfl, -⟩
    · rw [entry_bootSlot, entry_bootSlot]
      rfl
    · show (s.fill f words).ram (s.frameAt (p * 4096)) j = s.ram (s.frameAt (p * 4096)) j
      rw [kframe_page, hram p hp]
  have hmap : (s.fill f words).mapping (liveSlots lay dirs (s.fill f words)) =
      s.mapping (liveSlots lay dirs s) := by
    rw [hlive]
    exact mapping_congr hentry
  refine ⟨⟨⟨hdirs, ?_, ?_, ?_, h.accounted.inRange, h.accounted.outside⟩,
    h.heap.congr rfl (fun _ _ => rfl) fun _ _ => rfl, h.blocks,
    fun p hp => h.data_congr (fun _ _ => rfl) (fun dir hdir i _ => hpde dir hdir i) hp⟩,
    fun dir hdir p hp =>
      hd.leaf_congr hdirs (fun _ _ => rfl) (fun i _ => hpde dir hdir i) hram hdir hp⟩
  · rw [hmap]
    exact h.counted
  · rw [hmap]
    exact h.accounted.unshared
  · intro x hx
    rw [hlive] at hx
    rw [hentry x hx]
    exact h.accounted.entry_zero x hx

/-! ## The permission bits -/

/-- An entry that keeps its frame keeps the books. -/
theorem MemOk.setPermissions (h : MemOk lay G D dirs held s) (hx : SlotAt dirs s dir p x)
    (hpr : present (s.entry x)) (hw : present w) (hf : ppn w = ppn (s.entry x)) :
    MemOk lay G D dirs held (s.setEntry x w) := by
  have hlive : x ∈ liveSlots lay dirs s := hx.live
  have hm := mapping_of_present hlive hpr
  have hacc : Accounted lay G dirs held ((s.setFrames s.frames).setEntry x w) := by
    refine h.accounted.setEntry hx.writable (fun hnp => absurd hw hnp) (fun _ q hq => ?_)
      (fun _ _ => rfl) rfl (fun _ _ => rfl) ?_
    · rw [hf]
      exact (h.slot_notOwned hx hpr q hq).symm
    · rw [if_pos hw, hf, ← hm, Function.update_eq_self]
      exact h.counted
  refine ⟨hacc, h.heap.setEntry hx.offHeap s.frames w, ?_,
    fun q hq => h.data_setEntry hx.writable hx.offHeap s.frames w hq⟩
  rw [setEntry_heap]
  exact h.blocks

/-- Writing the permission bits of an entry. -/
theorem MemOk.setPermissions_touches (h : MemOk lay G D dirs held s) (hx : SlotAt dirs s dir p x)
    (w : Nat) (hf : ∀ q ∈ G, q ∉ D → f ≠ s.kframe q) :
    TouchesPage dirs D held dir p f w (s.ram f) s (s.setEntry x w) := by
  have hback : ∀ q ∈ G, (s.frames.info (s.kframe q)).va = (s.frames.info (s.kframe q)).va :=
    fun _ _ => rfl
  refine ⟨h.setEntry_kept hx s.frames w rfl, hx.sameRest h.directories w hback,
    fun dir' hdir' q hq => ?_,
    h.setEntry_ram hx s.frames w hf, fun g hg _ => h.setEntry_ram hx s.frames w (h.inUse hg).2,
    setEntry_frames _ _ _⟩
  exact hx.leaf_update h.directories w hback (.inl hdir') hq

theorem TouchesPage.userFrame_iff (h : TouchesPage dirs D held dir p f w words s t)
    (hpr : present (s.leaf dir p)) (hw : present w) (he : ppn w = ppn (s.leaf dir p)) {g : Nat} :
    UserFrame dirs.page t g ↔ UserFrame dirs.page s g := by
  unfold UserFrame
  refine exists_congr fun dir' => and_congr_right fun hdir' => exists_congr fun q =>
    and_congr_right fun hq => ?_
  rw [h.leaf dir' hdir' q hq]
  split
  case isTrue hc =>
    obtain ⟨rfl, rfl⟩ := hc
    rw [he]
    exact and_congr_left fun _ => iff_of_true hw hpr
  case isFalse => exact Iff.rfl

theorem TouchesPage.inUse (h : TouchesPage dirs D held dir p f w words s t)
    (hpr : present (s.leaf dir p)) (hw : present w)
    (he : ppn w = ppn (s.leaf dir p)) {g : Nat} :
    InUse dirs.page D held t g ↔ InUse dirs.page D held s g := by
  refine or_congr_right (or_congr ?_ (h.userFrame_iff hpr hw he))
  exact exists_congr fun q => and_congr_right fun hq => by rw [h.toKept.kframe hq]

/-- Two touches of one page. -/
theorem TouchesPage.trans (h : TouchesPage dirs D held dir p f w words s t)
    (h' : TouchesPage dirs D held dir p f w' words' t s')
    (hin : ∀ g, InUse dirs.page D held s g → InUse dirs.page D held t g) :
    TouchesPage dirs D held dir p f w' words' s s' := by
  refine ⟨h.toKept.trans h'.toKept, h.toSameRest.trans h'.toSameRest, fun dir' hdir' q hq => ?_,
    h'.content, fun g hg hgf => ?_, h'.frames.trans h.frames⟩
  · rw [h'.leaf dir' hdir' q hq, h.leaf dir' hdir' q hq]
    split <;> rfl
  · rw [h'.ram g (hin g hg) hgf, h.ram g hg hgf]

end

end Fos
