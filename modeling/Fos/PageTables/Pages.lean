import Fos.PageTables.Still

/-!
# One user page

What `allocate_frame`, `map_frame` and `unmap_frame` do for a user page, as the code above the page
tables sees it: one leaf and one descriptor change.
-/

namespace Fos

open Function (update)
open Prog (bind_eq_ok ok_inj)

/-- The page `p` of `dir`, which was not mapped, maps `f` from then on. -/
structure MapsUser (dirs : Roots) (D held : Set Nat) (dir : DirPtr) (p f va perm : Nat)
    (s t : Kern) : Prop extends Kept D s t, SameRest dirs s t where
  leaf : ∀ dir' ∈ dirs.page, ∀ q < 977920,
    t.leaf dir' q = if dir' = dir ∧ q = p then entryOf f perm else s.leaf dir' q
  ram : ∀ g, InUse dirs.page D held s g → t.ram g = s.ram g
  info : ∀ g, InUse dirs.page D held s g → g ≠ f → t.frames.info g = s.frames.info g
  infoTaken : ∀ g, g ∉ s.frames.freeFrameList → g ≠ f → t.frames.info g = s.frames.info g
  infoSelf : t.frames.info f = ⟨(s.frames.info f).references + 1, va⟩
  mapped : ∀ q, present (s.kernelTable q) → t.kernelTable q = s.kernelTable q
  free : t.frames.freeFrameList <:+ s.frames.freeFrameList

/-- The page `p` of `dir` gives the frame `f` up. -/
structure UnmapsUser (dirs : Roots) (D : Set Nat) (G : Set Nat) (dir : DirPtr) (p f : Nat)
    (s t : Kern) : Prop extends Kept D s t, SameRest dirs s t where
  leaf : ∀ dir' ∈ dirs.page, ∀ q < 977920,
    t.leaf dir' q = if dir' = dir ∧ q = p then 0 else s.leaf dir' q
  ram : ∀ g, (∀ q ∈ G, q ∉ D → g ≠ s.kframe q) → t.ram g = s.ram g
  info : ∀ g, g ≠ f → t.frames.info g = s.frames.info g
  kernelTable : t.kernelTable = s.kernelTable
  heap : t.heap = s.heap
  table : ∀ dir' ∈ dirs, ∀ i < 955, t.table dir' i = s.table dir' i
  last : (s.frames.info f).references = 1 →
    t.frames.freeFrameList = f :: s.frames.freeFrameList ∧ (t.frames.info f).references = 0
  shared : (s.frames.info f).references ≠ 1 →
    t.frames.freeFrameList = s.frames.freeFrameList ∧
      (t.frames.info f).references = (s.frames.info f).references - 1

section

variable {lay : Layout} {G G' D : Set Nat} {dirs : Roots} {held : Set Nat} {s s' t : Kern}
  {dir : DirPtr} {f p va perm : Nat} {x : Slot}

/-! ## Taking a frame -/

/-- **`allocate_frame`** takes a frame nobody uses. -/
theorem MemOk.allocateFrame (h : MemOk lay G D dirs held s)
    (hk : Fos.allocateFrame s = .ok f s') :
    MemOk lay G D dirs (insert f held) s' ∧ Quiet dirs D G G s s' ∧ Usable lay G s' f ∧
      s'.frames.info f = ⟨0, 0⟩ ∧ s.frames.freeFrameList = f :: s'.frames.freeFrameList ∧
      ¬ InUse dirs.page D held s f ∧ s'.ram = s.ram := by
  cases hl : s.frames.freeFrameList with
  | nil =>
    rw [allocateFrame_nil hl] at hk
    cases hk
  | cons f' rest =>
    rw [allocateFrame_cons hl] at hk
    obtain ⟨rfl, rfl⟩ := ok_inj.1 hk
    have hmem : f' ∈ s.frames.freeFrameList := by rw [hl]; exact List.mem_cons_self
    -- no frame in use is free
    have hne : ∀ g, InUse dirs.page D held s g → g ≠ f' := by
      rintro g hg rfl
      exact (h.inUse hg).1 hmem
    have hback : ∀ p ∈ G, ((s.frames.take f' rest).info (s.kframe p)).va =
        (s.frames.info (s.kframe p)).va := by
      intro p hp
      show (update s.frames.info f' initializeFrameInfo (s.kframe p)).va = _
      rw [Function.update_of_ne]
      rintro he
      exact h.accounted.kframe_notFree hp (he ▸ hmem)
    have hpde : ∀ dir ∈ dirs, ∀ i < 955,
        (s.setFrames (s.frames.take f' rest)).pde dir i = s.pde dir i :=
      fun dir _ i _ => setFrames_pde s _ dir i
    refine ⟨⟨h.accounted.take hl, h.heap.congr rfl (fun _ _ => rfl) fun _ _ => rfl, h.blocks,
      fun p hp => h.data_congr (fun _ _ => rfl) hpde hp⟩, ?_, ?_, ?_, rfl, fun hu => hne _ hu rfl, rfl⟩
    · refine ⟨subset_rfl, fun _ hp hp' => absurd hp hp',
        fun dir hdir p hp => h.directories.leaf_setFrames hback hdir hp, fun _ _ => rfl,
        fun _ _ _ => rfl, fun g hg => ?_, ?_, rfl, fun _ _ => rfl, fun _ hb => hb,
        rfl, rfl, rfl, rfl⟩
      · refine Function.update_of_ne ?_ _ _
        rintro rfl
        exact hg hmem
      · rw [hl]
        exact List.suffix_cons _ _
    · refine ⟨h.counted.freePool f' hmem, ?_, ?_⟩
      · have hnd := h.counted.nodup
        rw [hl] at hnd
        exact (List.nodup_cons.1 hnd).1
      · intro p hp he
        exact h.accounted.kframe_notFree hp (he ▸ hmem)
    · exact Function.update_self _ _ _

/-! ## Entering it -/

/-- Writing the entry of a user page touches the frame of its table only. -/
theorem MemOk.setEntry_ram (h : MemOk lay G D dirs held s) (hx : SlotAt dirs s dir p x)
    (fr : Frames) (w : Nat) (hf : ∀ q ∈ G, q ∉ D → f ≠ s.kframe q) :
    ((s.setFrames fr).setEntry x w).ram f = s.ram f := by
  have hp := hx.page
  obtain ⟨a, ha, rfl⟩ := hx.table
  obtain ⟨r, hr, rfl, hpr, he⟩ := h.directories.table_some (.inl hx.mem) (by omega) ha
  show update s.ram (s.frameAt (r * 4096)) _ f = _
  rw [kframe_page]
  refine Function.update_of_ne (hf r hr fun hrD => ?_) _ _
  exact (h.data r hrD).2.table dir (.inl hx.mem) _ (by omega) hpr he

/-- What an update of one entry of a user page keeps. -/
theorem MemOk.setEntry_kept (h : MemOk lay G D dirs held s) (hx : SlotAt dirs s dir p x)
    (fr : Frames) (w : Nat) (hn : fr.numberOfFrames = s.frames.numberOfFrames) :
    Kept D s ((s.setFrames fr).setEntry x w) := by
  have hstatic : ∀ f < 3, ((s.setFrames fr).setEntry x w).ram f = s.ram f := by
    intro f hf
    apply h.setEntry_ram hx
    exact fun q hq _ => (h.static hf).2 q hq
  obtain ⟨a, -, rfl⟩ := hx.table
  exact ⟨fun _ _ => rfl, fun _ _ => rfl, fun _ _ => rfl, hn, rfl, hstatic⟩

/-- The leaves after an update of one entry of a user page. -/
theorem SlotAt.leaf_update (h : Directories G dirs s) (hx : SlotAt dirs s dir p x)
    {fr : Frames} (w : Nat)
    (hback : ∀ q ∈ G, (fr.info (s.kframe q)).va = (s.frames.info (s.kframe q)).va)
    {dir' : DirPtr} (hdir : dir' ∈ dirs) {q : Nat} (hq : q < 977920) :
    ((s.setFrames fr).setEntry x w).leaf dir' q =
      if dir' = dir ∧ q = p then w else s.leaf dir' q := by
  rw [(hx.setFrames h hback).leaf_setEntry (h.setFrames hback) w hdir hq,
    h.leaf_setFrames hback hdir hq]

theorem SlotAt.sameRest (h : Directories G dirs s) (hx : SlotAt dirs s dir p x)
    {fr : Frames} (w : Nat)
    (hback : ∀ q ∈ G, (fr.info (s.kframe q)).va = (s.frames.info (s.kframe q)).va) :
    SameRest dirs s ((s.setFrames fr).setEntry x w) := by
  refine ⟨setEntry_disk _ x w, setEntry_envs _ x w, setEntry_shares _ x w,
    fun dir' hdir' q hq => ?_⟩
  rw [hx.leaf_update h w hback (.inr hdir') hq, if_neg]
  rintro ⟨rfl, -⟩
  exact dirs.apart dir' hx.mem hdir'

/-- Entering a frame at a user page that maps nothing. -/
theorem MemOk.mapSlot_user (h : MemOk lay G D dirs held s) (hx : SlotAt dirs s dir p x)
    (hf : Usable lay G s f) (hlt : s.references f < 65535) (va perm : Nat) :
    MapsUser dirs D held dir p f va perm s (s.mapSlot x f va perm) := by
  have hback : ∀ q ∈ G, ((s.frames.addReference f va).info (s.kframe q)).va =
      (s.frames.info (s.kframe q)).va := by
    intro q hq
    rw [addReference_info_of_ne _ _ (hf.notOwned q hq).symm]
  have hframes : (s.mapSlot x f va perm).frames = s.frames.addReference f va :=
    setEntry_frames _ _ _
  refine ⟨h.setEntry_kept hx _ _ rfl, hx.sameRest h.directories _ hback, fun dir' hdir' q hq => ?_,
    fun g hg => ?_, fun g _ hgf => ?_, fun g _ hgf => ?_, ?_, ?_, ?_⟩
  · exact hx.leaf_update h.directories _ hback (.inl hdir') hq
  · exact h.setEntry_ram hx _ _ (h.inUse hg).2
  · rw [hframes, addReference_info_of_ne _ _ hgf]
  · rw [hframes, addReference_info_of_ne _ _ hgf]
  · rw [hframes, addReference_info_self]
    unfold u16Succ
    rw [if_neg]
    exact Nat.ne_of_lt (by unfold Kern.references at hlt; exact hlt)
  · obtain ⟨a, -, rfl⟩ := hx.table
    exact fun _ _ => rfl
  · rw [hframes]
    exact List.suffix_rfl

/-- The page table that a call makes first is not seen. -/
theorem MapsUser.after (hm : MapsUser dirs D held dir p f va perm t s')
    (h : MemOk lay G D dirs held s) (hq : Quiet dirs D G G' s t) (hf : f ∉ s.frames.freeFrameList) :
    MapsUser dirs D held dir p f va perm s s' := by
  have hst := hq.still h
  refine ⟨hst.toKept.trans hm.toKept, hq.sameRest.trans hm.toSameRest, fun dir' hdir' q hq => ?_,
    fun g hg => ?_, fun g hg hgf => ?_, fun g hg hgf => ?_, ?_, fun q hpr => ?_,
    hm.free.trans hq.free⟩
  · rw [hm.leaf dir' hdir' q hq, hst.leaf dir' hdir' q hq]
  · rw [hm.ram g (hst.inUse hg), hst.ram g hg]
  · rw [hm.info g (hst.inUse hg) hgf, hst.info g hg]
  · rw [hm.infoTaken g (fun hc => hg (hq.free.subset hc)) hgf, hq.info g hg]
  · rw [hm.infoSelf, hq.info f hf]
  · have hsame := hq.kernelTable q (.inl hpr)
    rw [hm.mapped q (by rwa [hsame]), hsame]

/-- **`map_frame`** at a user page that maps nothing. -/
theorem MemOk.mapUser (h : MemOk lay G D dirs held s) (hdir : dir ∈ dirs.page) (hva : va < userTop)
    (hz : s.leaf dir (ppn va) = 0) (hf : Usable lay G s f) (hlt : s.references f < 65535)
    (hperm : perm < 4096) (hk : Fos.mapFrame dir f va perm s = .ok () s') :
    ∃ G', G ⊆ G' ∧ MemOk lay G' D dirs (held \ {f}) s' ∧
      MapsUser dirs D held dir (ppn va) f va perm s s' ∧
      ∀ g, Usable lay G s g → Usable lay G' s' g := by
  obtain ⟨G', t, x, hq, hok, hloc, huser, hr⟩ := h.mapFrame hdir (.inl hva) hk
  have hx := huser hva
  have hp := (pdx_user hva).2
  have hst := hq.still h
  have hf' := hf.quiet hq h.owned
  have hinfo : t.frames.info f = s.frames.info f := hq.info f hf.notFree
  have hlt' : t.references f < 65535 := by
    unfold Kern.references at hlt ⊢
    rwa [hinfo]
  have hleaf : t.leaf dir (ppn va) = 0 := by rw [hst.leaf dir hdir _ hp, hz]
  -- the page maps nothing, so of the three outcomes only the new mapping is left
  have hnp : ¬ present (t.entry x) := by
    rw [hx.entry, hleaf]
    exact not_present_zero
  have hok' := hok.remap hloc hf' hperm (fun _ => hlt') hr
  refine ⟨G', hq.sub, hok', ?_⟩
  cases hr with
  | same hpr => exact absurd hpr hnp
  | other hpr => exact absurd hpr hnp
  | new _ =>
    have hm := hok.mapSlot_user hx hf' hlt' va perm
    refine ⟨hm.after h hq hf.notFree, fun g hg => ?_⟩
    have hg' := hg.quiet hq h.owned
    refine ⟨hg'.pool, fun hc => hg'.notFree (hm.free.subset hc), fun q hqG => ?_⟩
    unfold Kern.kframe
    rw [hm.mapped q (hok.owned.mapped q hqG)]
    exact hg'.notOwned q hqG

/-! ## Giving it up -/

/-- The frame that an entry of a user page maps has no owned page. -/
theorem MemOk.slot_notOwned (h : MemOk lay G D dirs held s) (hx : SlotAt dirs s dir p x)
    (hpr : present (s.entry x)) : ∀ q ∈ G, s.kframe q ≠ ppn (s.entry x) := by
  intro q hq he
  have hlive : x ∈ liveSlots lay dirs s := hx.live
  have hm := mapping_of_present hlive hpr
  rw [← he] at hm
  obtain ⟨a, -, rfl⟩ := hx.table
  cases congrArg Prod.fst (h.accounted.unshared q hq _ hm)

/-- Giving up the frame at a user page. -/
theorem MemOk.unmapSlot_user (h : MemOk lay G D dirs held s) (hx : SlotAt dirs s dir p x)
    (hpr : present (s.entry x)) :
    UnmapsUser dirs D G dir p (ppn (s.entry x)) s (s.unmapSlot x) := by
  set f := ppn (s.entry x) with hf
  have hback : ∀ q ∈ G, ((s.frames.decrementReferences f).info (s.kframe q)).va =
      (s.frames.info (s.kframe q)).va := by
    intro q hq
    rw [decrementReferences_info_of_ne _ (h.slot_notOwned hx hpr q hq)]
  have hframes : (s.unmapSlot x).frames = s.frames.decrementReferences f := setEntry_frames _ _ _
  -- the entry itself is one of the counted references
  have hpos : 0 < (s.frames.info f).references :=
    h.counted.count_pos (mapping_of_present hx.live hpr)
  refine ⟨h.setEntry_kept hx _ _ (decrementReferences_numberOfFrames _ _),
    hx.sameRest h.directories _ hback, fun dir' hdir' q hq => ?_,
    fun g hg => h.setEntry_ram hx _ _ hg, fun g hgf => ?_,
    (hx.setFrames h.directories hback).setEntry_kernelTable 0,
    setEntry_heap _ _ _, fun dir' hdir' i hi => ?_, fun hone => ?_, fun hmany => ?_⟩
  · exact hx.leaf_update h.directories _ hback (.inl hdir') hq
  · rw [hframes, decrementReferences_info_of_ne _ hgf]
  · obtain ⟨a, ha, rfl⟩ := hx.table
    have hd := h.directories.setFrames hback
    have htab : ∀ dir' ∈ dirs, ∀ i < 955,
        (s.setFrames (s.frames.decrementReferences f)).table dir' i = s.table dir' i :=
      fun dir' hdir' i hi =>
        h.directories.table_congr hd (fun _ _ => rfl) hdir' hi (setFrames_pde ..)
    have hp := hx.page
    rw [← htab dir' hdir' i hi]
    exact hd.setTable_table (.inl hx.mem) (by omega) ((htab _ (.inl hx.mem) _ (by omega)).trans ha) _ _
      hdir' hi
  · rw [hframes]
    obtain ⟨h1, h2⟩ := decrementReferences_last hone
    exact ⟨h2, h1⟩
  · rw [hframes]
    obtain ⟨h1, h2⟩ := decrementReferences_shared (show 1 < (s.frames.info f).references by omega)
    exact ⟨h2, h1⟩

/-- **`unmap_frame`** at a user page. -/
theorem MemOk.unmapUser (h : MemOk lay G D dirs held s) (hdir : dir ∈ dirs.page)
    (hva : va < userTop) (hk : Fos.unmapFrame dir va s = .ok () s') :
    (s' = s ∧ s.leaf dir (ppn va) = 0) ∨
    (present (s.leaf dir (ppn va)) ∧ MemOk lay G D dirs held s' ∧
      UnmapsUser dirs D G dir (ppn va) (ppn (s.leaf dir (ppn va))) s s') := by
  rcases h.unmapFrame hdir (.inl hva) hk with ⟨rfl, hz⟩ | ⟨x, hloc, huser, hpr, rfl⟩
  · exact .inl ⟨rfl, hz hva⟩
  · have hx := huser hva
    rw [← hx.entry]
    exact .inr ⟨hpr, h.unmapLocated hloc hpr, h.unmapSlot_user hx hpr⟩

/-! ## Replacing a page -/

/-- The page `p` of `dir` maps `f` from then on, whatever it mapped before. -/
structure PlacesUser (dirs : Roots) (D held : Set Nat) (dir : DirPtr) (p f perm : Nat)
    (s t : Kern) : Prop extends Kept D s t, SameRest dirs s t where
  leaf : ∀ dir' ∈ dirs.page, ∀ q < 977920,
    t.leaf dir' q = if dir' = dir ∧ q = p then entryOf f perm else s.leaf dir' q
  count : ∀ g, InUse dirs.page D held s g → g ≠ f → t.references g ≤ s.references g
  countSelf : t.references f = 1

theorem MapsUser.places (h : MapsUser dirs D held dir p f va perm s t) (h0 : s.references f = 0) :
    PlacesUser dirs D held dir p f perm s t := by
  refine ⟨h.toKept, h.toSameRest, h.leaf, fun g hg hgf => ?_, ?_⟩
  · unfold Kern.references
    rw [h.info g hg hgf]
  · unfold Kern.references at h0 ⊢
    rw [h.infoSelf, h0]

theorem UnmapsUser.references_le (h : UnmapsUser dirs D G dir p f s t) (g : Nat) :
    t.references g ≤ s.references g := by
  unfold Kern.references
  by_cases hgf : g = f
  · subst hgf
    by_cases hone : (s.frames.info g).references = 1
    · rw [(h.last hone).2]
      omega
    · rw [(h.shared hone).2]
      omega
  · rw [h.info g hgf]

theorem mapSlot_references_of_ne (s : Kern) (x : Slot) (va : Nat) {g : Nat} (hgf : g ≠ f) :
    (s.mapSlot x f va perm).references g = s.references g := by
  unfold Kern.references Kern.mapSlot
  rw [setEntry_frames]
  show ((s.frames.addReference f va).info g).references = _
  rw [addReference_info_of_ne _ _ hgf]

theorem SlotAt.unmapSlot (hx : SlotAt dirs s dir p x) (h : MemOk lay G D dirs held s)
    (hpr : present (s.entry x)) : SlotAt dirs (s.unmapSlot x) dir p x := by
  have hback : ∀ q ∈ G, ((s.frames.decrementReferences (ppn (s.entry x))).info (s.kframe q)).va =
      (s.frames.info (s.kframe q)).va := by
    intro q hq
    rw [decrementReferences_info_of_ne _ (h.slot_notOwned hx hpr q hq)]
  have hp := hx.page
  have hx' := hx.setFrames h.directories hback
  have hdirs := h.directories.setFrames hback
  obtain ⟨a, ha, rfl⟩ := hx'.table
  refine ⟨hx.mem, hx.page, a, ?_, rfl⟩
  unfold Kern.unmapSlot
  rw [hdirs.setTable_table (.inl hx.mem) (by omega) ha _ _ (.inl hx.mem) (by omega)]
  exact ha

/-- **`map_frame`** of a new frame at a user page. -/
theorem MemOk.placeUser (h : MemOk lay G D dirs held s) (hdir : dir ∈ dirs.page)
    (hva : va < userTop) (hf : Usable lay G s f) (h0 : s.references f = 0) (hperm : perm < 4096)
    (hk : Fos.mapFrame dir f va perm s = .ok () s') :
    ∃ G', MemOk lay G' D dirs (held \ {f}) s' ∧
      PlacesUser dirs D held dir (ppn va) f perm s s' := by
  obtain ⟨G', t, x, hq, hok, hloc, huser, hr⟩ := h.mapFrame hdir (.inl hva) hk
  have hx := huser hva
  have hp := (pdx_user hva).2
  have hst := hq.still h
  have hf' := hf.quiet hq h.owned
  have h0' : t.references f = 0 := by
    unfold Kern.references at h0 ⊢
    rwa [hq.info f hf.notFree]
  have hok' := hok.remap hloc hf' hperm (fun _ => by omega) hr
  refine ⟨G', hok', ?_⟩
  -- it is enough to compare with the state in which the page table exists
  suffices hplace : PlacesUser dirs D held dir (ppn va) f perm t s' by
    refine ⟨hst.toKept.trans hplace.toKept, hq.sameRest.trans hplace.toSameRest,
      fun dir' hdir' q hq => ?_, fun g hg hgf => ?_, hplace.countSelf⟩
    · rw [hplace.leaf dir' hdir' q hq, hst.leaf dir' hdir' q hq]
    · have hle := hplace.count g (hst.inUse hg) hgf
      unfold Kern.references at hle ⊢
      rwa [hst.info g hg] at hle
  cases hr with
  | same hpr hpf =>
    have hpos := hok.counted.count_pos (mapping_of_present hx.live hpr)
    rw [hpf] at hpos
    exact absurd h0' (Nat.ne_of_gt hpos)
  | new hnp => exact (hok.mapSlot_user hx hf' (by omega) va perm).places h0'
  | other hpr hpf hrange =>
    have hu := hok.unmapSlot_user hx hpr
    have hxu := hx.unmapSlot hok hpr
    have hfu := hf'.unmapSlot hok.owned hx.offHeap hpf
    have h0u : (t.unmapSlot x).references f = 0 := by
      have := hu.references_le f
      omega
    have hm := ((hok.unmapLocated hloc hpr).mapSlot_user hxu hfu (by omega) va perm).places h0u
    refine ⟨hu.toKept.trans hm.toKept, hu.toSameRest.trans hm.toSameRest, fun dir' hdir' q hq => ?_,
      fun g hg hgf => ?_, hm.countSelf⟩
    · rw [hm.leaf dir' hdir' q hq, hu.leaf dir' hdir' q hq]
      split <;> rfl
    · have hle := hu.references_le g
      rwa [mapSlot_references_of_ne _ _ _ hgf]

end

end Fos
