import Fos.Lib.RefPool
import Fos.PageTables.Directories

/-!
# The accounts of the physical frames

`Accounted` ties together the three places that know about a frame: the page-table entries that map
it, its descriptor in `frames_info`, and `free_frame_list`. No entry but its own maps the frame of
an owned page. The rules say what taking a frame, entering it and giving it up do to the accounts.
-/

namespace Fos

open Function (update)
open RefPool (Counted pointing)

/-! ## The invariant -/

/-- `references` of every frame. -/
def Kern.references (s : Kern) (f : Nat) : Nat := (s.frames.info f).references

/-- The frames are accounted for: descriptors and free list agree with the live entries, except
that the frames `held` are taken and not entered anywhere yet. -/
structure Accounted (lay : Layout) (G : Set Nat) (dirs : Roots) (held : Set Nat)
    (s : Kern) : Prop where
  directories : Directories G dirs s
  counted : Counted lay.pool lay.lost (s.mapping (liveSlots lay dirs s)) s.references
    s.frames.freeFrameList held
  unshared : ∀ p ∈ G, ∀ x, s.mapping (liveSlots lay dirs s) x = some (s.kframe p) → x = bootSlot p
  entry_zero : ∀ x ∈ liveSlots lay dirs s, ¬ present (s.entry x) → s.entry x = 0
  inRange : ∀ f ∈ lay.pool, f < s.frames.numberOfFrames
  outside : ∀ f, f ∉ lay.pool → s.frames.info f = lay.outside f

section

variable {lay : Layout} {G : Set Nat} {dirs : Roots} {held : Set Nat} {s s' : Kern}
  {x : Slot} {f p va perm : Nat} {rest : List Nat}

theorem Accounted.mapping_owned (h : Accounted lay G dirs held s) (hp : p ∈ G) :
    s.mapping (liveSlots lay dirs s) (bootSlot p) = some (s.kframe p) := by
  have hpr := h.directories.owned.mapped p hp
  have hlive : bootSlot p ∈ liveSlots lay dirs s :=
    bootSlot_live (lay.heap_dynamic p (h.directories.owned.heapPage p hp))
  rw [← entry_bootSlot] at hpr
  rw [mapping_of_present hlive hpr, entry_bootSlot]
  rfl

/-- The frames of owned pages are neither free nor held. -/
theorem Accounted.kframe_notFree (h : Accounted lay G dirs held s) (hp : p ∈ G) :
    s.kframe p ∉ s.frames.freeFrameList := h.counted.notFree (h.mapping_owned hp)

theorem Accounted.kframe_notHeld (h : Accounted lay G dirs held s) (hp : p ∈ G) :
    s.kframe p ∉ held := h.counted.notHeld (h.mapping_owned hp)

/-! ## Descriptors and the free list -/

/-- New descriptors keep the directories when the owned pages keep their addresses. -/
theorem Directories.setFrames {fr : Frames} (h : Directories G dirs s)
    (hback : ∀ p ∈ G, (fr.info (s.kframe p)).va = (s.frames.info (s.kframe p)).va) :
    Directories G dirs (s.setFrames fr) :=
  h.congr (fun _ _ => rfl) hback (fun dir _ i _ => setFrames_pde s fr dir i) rfl

theorem Directories.liveSlots_setFrames {fr : Frames} (h : Directories G dirs s)
    (hback : ∀ p ∈ G, (fr.info (s.kframe p)).va = (s.frames.info (s.kframe p)).va) :
    liveSlots lay dirs (s.setFrames fr) = liveSlots lay dirs s :=
  liveSlots_congr fun dir hdir i hi =>
    h.table_congr (h.setFrames hback) (fun _ _ => rfl) (.inl hdir) hi (setFrames_pde s fr dir i)

theorem Directories.mapping_setFrames {fr : Frames} (h : Directories G dirs s)
    (hback : ∀ p ∈ G, (fr.info (s.kframe p)).va = (s.frames.info (s.kframe p)).va) :
    (s.setFrames fr).mapping (liveSlots lay dirs (s.setFrames fr)) =
      s.mapping (liveSlots lay dirs s) := by
  rw [h.liveSlots_setFrames hback]
  exact mapping_congr fun y _ => setFrames_entry s y fr

theorem Writable.setFrames {fr : Frames} (h : Directories G dirs s) (hx : Writable lay G dirs s x)
    (hback : ∀ p ∈ G, (fr.info (s.kframe p)).va = (s.frames.info (s.kframe p)).va) :
    Writable lay G dirs (s.setFrames fr) x :=
  ⟨by rw [h.liveSlots_setFrames hback]; exact hx.live, hx.notOwned⟩

/-- New descriptors and one entry overwritten. -/
theorem Writable.mapping_setFrames {fr : Frames} (h : Directories G dirs s)
    (hx : Writable lay G dirs s x)
    (hback : ∀ p ∈ G, (fr.info (s.kframe p)).va = (s.frames.info (s.kframe p)).va) (w : Nat) :
    ((s.setFrames fr).setEntry x w).mapping
        (Fos.liveSlots lay dirs ((s.setFrames fr).setEntry x w)) =
      update (s.mapping (Fos.liveSlots lay dirs s)) x
        (if present w then some (ppn w) else none) := by
  rw [(hx.setFrames h hback).mapping (h.setFrames hback) w, h.mapping_setFrames hback]

/-- New counts with the same entries. -/
theorem Accounted.setFrames {held' : Set Nat} {fr : Frames} (h : Accounted lay G dirs held s)
    (hback : ∀ p ∈ G, (fr.info (s.kframe p)).va = (s.frames.info (s.kframe p)).va)
    (hn : fr.numberOfFrames = s.frames.numberOfFrames)
    (hout : ∀ f, f ∉ lay.pool → fr.info f = s.frames.info f)
    (hc : Counted lay.pool lay.lost (s.mapping (liveSlots lay dirs s)) (fun f => (fr.info f).references)
      fr.freeFrameList held') : Accounted lay G dirs held' (s.setFrames fr) := by
  have hdirs := h.directories.setFrames hback
  have hlive : liveSlots lay dirs (s.setFrames fr) = liveSlots lay dirs s :=
    h.directories.liveSlots_setFrames hback
  have hmap : (s.setFrames fr).mapping (liveSlots lay dirs (s.setFrames fr)) =
      s.mapping (liveSlots lay dirs s) := h.directories.mapping_setFrames hback
  refine ⟨hdirs, ?_, ?_, ?_, ?_, fun f hf => (hout f hf).trans (h.outside f hf)⟩
  · rw [hmap]
    exact hc
  · rw [hmap]
    exact h.unshared
  · rw [hlive]
    intro y hy
    rw [setFrames_entry]
    exact h.entry_zero y hy
  · intro f hf
    show f < fr.numberOfFrames
    rw [hn]
    exact h.inRange f hf

/-- `allocate_frame` takes the head of the free list. -/
theorem Accounted.take (h : Accounted lay G dirs held s)
    (hf : s.frames.freeFrameList = f :: rest) :
    Accounted lay G dirs (insert f held) (s.setFrames (s.frames.take f rest)) := by
  have hmem : f ∈ s.frames.freeFrameList := by rw [hf]; exact List.mem_cons_self
  have hpool : f ∈ lay.pool := h.counted.freePool f hmem
  -- the record of the frame is cleared, and no other
  have hinfo : ∀ g, g ≠ f → (s.frames.take f rest).info g = s.frames.info g :=
    fun g hg => Function.update_of_ne hg _ _
  have hc := h.counted
  rw [hf] at hc
  refine h.setFrames ?_ rfl ?_ ?_
  · intro p hp
    rw [hinfo]
    rintro rfl
    exact h.kframe_notFree hp hmem
  · intro g hg
    rw [hinfo]
    rintro rfl
    exact hg hpool
  · refine hc.allocate.congr fun g _ => ?_
    by_cases hgf : g = f
    · -- the count of a free frame is zero already
      rw [hgf]
      show (update s.frames.info f initializeFrameInfo f).references = s.references f
      rw [Function.update_self, h.counted.refs_free hmem]
      rfl
    · rw [hinfo g hgf]
      rfl

/-! ## Entering a frame -/

theorem addReference_info_self (fr : Frames) (f va : Nat) :
    (fr.addReference f va).info f = ⟨u16Succ (fr.info f).references, va⟩ := by
  simp [Frames.addReference, Frames.setInfo]

theorem addReference_info_of_ne (fr : Frames) {f g : Nat} (va : Nat) (hg : g ≠ f) :
    (fr.addReference f va).info g = fr.info g := by
  simp [Frames.addReference, Frames.setInfo, hg]

/-- Overwriting a writable entry, with new counts, keeps the accounts that the new mapping has. -/
theorem Accounted.setEntry {held' : Set Nat} {fr : Frames} {w : Nat}
    (h : Accounted lay G dirs held s) (hx : Writable lay G dirs s x)
    (hw : ¬ present w → w = 0) (hwG : present w → ∀ p ∈ G, ppn w ≠ s.kframe p)
    (hback : ∀ p ∈ G, (fr.info (s.kframe p)).va = (s.frames.info (s.kframe p)).va)
    (hn : fr.numberOfFrames = s.frames.numberOfFrames)
    (hout : ∀ f, f ∉ lay.pool → fr.info f = s.frames.info f)
    (hc : Counted lay.pool lay.lost (update (s.mapping (liveSlots lay dirs s)) x
        (if present w then some (ppn w) else none)) (fun f => (fr.info f).references)
      fr.freeFrameList held') : Accounted lay G dirs held' ((s.setFrames fr).setEntry x w) := by
  have hdirs := h.directories.setFrames hback
  have hlive : liveSlots lay dirs (s.setFrames fr) = liveSlots lay dirs s :=
    h.directories.liveSlots_setFrames hback
  have hx' := hx.setFrames h.directories hback
  have hmap' := hx.mapping_setFrames h.directories hback w
  refine ⟨hx'.directories hdirs w, ?_, ?_, ?_, ?_, ?_⟩
  · rw [hmap', setEntry_frames]
    refine hc.congr fun f _ => ?_
    show (((s.setFrames fr).setEntry x w).frames.info f).references = _
    rw [setEntry_frames]
    rfl
  · intro p hp y hy
    -- a page of the kernel is in no other slot, and is not what is written
    rw [hmap', hx'.kframe hdirs w hp] at hy
    by_cases hyx : y = x
    · subst hyx
      rw [Function.update_self] at hy
      split at hy
      case isTrue hpr =>
        exact absurd (Option.some.inj hy) (hwG hpr p hp)
      case isFalse => cases hy
    · rw [Function.update_of_ne hyx] at hy
      exact h.unshared p hp y hy
  · intro y hy
    rw [hx'.liveSlots hdirs w] at hy
    by_cases hyx : y = x
    · subst hyx
      rw [hx'.entry_self hdirs w]
      exact hw
    · rw [hx'.entry_of_ne hdirs w hy hyx, setFrames_entry]
      rw [hlive] at hy
      exact h.entry_zero y hy
  · intro f hf
    rw [setEntry_frames]
    show f < fr.numberOfFrames
    rw [hn]
    exact h.inRange f hf
  · intro f hf
    rw [setEntry_frames]
    exact (hout f hf).trans (h.outside f hf)

/-- An entry that maps nothing maps no owned page. -/
theorem Accounted.writable (h : Accounted lay G dirs held s) (hx : x ∈ liveSlots lay dirs s)
    (hnp : ¬ present (s.entry x)) : Writable lay G dirs s x := by
  refine ⟨hx, ?_⟩
  rintro p hp rfl
  rw [entry_bootSlot] at hnp
  exact hnp (h.directories.owned.mapped p hp)

/-- Entering a taken frame where nothing is mapped. -/
theorem Accounted.mapSlot (h : Accounted lay G dirs held s) (hx : x ∈ liveSlots lay dirs s)
    (hnp : ¬ present (s.entry x)) (hpool : f ∈ lay.pool) (hfree : f ∉ s.frames.freeFrameList)
    (hG : ∀ p ∈ G, f ≠ s.kframe p) (hlt : s.references f < 65535) (hperm : perm < 4096) :
    Accounted lay G dirs (held \ {f}) (s.mapSlot x f va perm) := by
  have hpr : present (entryOf f perm) := present_entryOf hperm
  have hnone : s.mapping (liveSlots lay dirs s) x = none := mapping_of_not_present hnp
  -- the pool counts one more pointer; the entry written is that pointer
  have hc := h.counted.map hnone hpool hfree
  refine h.setEntry (h.writable hx hnp) (fun hn => absurd hpr hn) (fun _ p hp => ?_)
    (fun p hp => ?_) rfl (fun g hg => ?_) ?_
  · rw [ppn_entryOf hperm]
    exact hG p hp
  · rw [addReference_info_of_ne _ _ (hG p hp).symm]
  · rw [addReference_info_of_ne]
    rintro rfl
    exact hg hpool
  · rw [if_pos hpr, ppn_entryOf hperm]
    refine hc.congr fun g _ => ?_
    by_cases hgf : g = f
    · subst hgf
      rw [addReference_info_self, Function.update_self]
      show u16Succ (s.references g) = _
      unfold u16Succ
      rw [if_neg (by omega)]
    · rw [addReference_info_of_ne _ _ hgf, Function.update_of_ne hgf]
      rfl

/-! ## Giving a frame up -/

theorem decrementReferences_info_of_ne (fr : Frames) {f g : Nat} (hg : g ≠ f) :
    (fr.decrementReferences f).info g = fr.info g := by
  unfold Frames.decrementReferences
  dsimp only
  split <;> simp [Frames.freeFrame, Frames.setInfo, hg]

/-- The last reference to a frame. -/
theorem decrementReferences_last {fr : Frames} {f : Nat} (h : (fr.info f).references = 1) :
    ((fr.decrementReferences f).info f).references = 0 ∧
      (fr.decrementReferences f).freeFrameList = f :: fr.freeFrameList := by
  unfold Frames.decrementReferences
  rw [h]
  exact ⟨by simp [u16Pred, Frames.freeFrame, Frames.setInfo, initializeFrameInfo], rfl⟩

/-- A reference to a frame that others map too. -/
theorem decrementReferences_shared {fr : Frames} {f : Nat} (h : 1 < (fr.info f).references) :
    ((fr.decrementReferences f).info f).references = (fr.info f).references - 1 ∧
      (fr.decrementReferences f).freeFrameList = fr.freeFrameList := by
  have hp : u16Pred (fr.info f).references = (fr.info f).references - 1 := by
    unfold u16Pred
    rw [if_neg (by omega)]
  unfold Frames.decrementReferences
  dsimp only
  rw [hp, if_neg (by omega)]
  exact ⟨by simp [Frames.setInfo], rfl⟩

/-- Giving up the frame of a writable entry. -/
theorem Accounted.unmapSlot (h : Accounted lay G dirs held s) (hx : Writable lay G dirs s x)
    (hpr : present (s.entry x)) : Accounted lay G dirs held (s.unmapSlot x) := by
  have hm := mapping_of_present hx.live hpr
  set f := ppn (s.entry x) with hf
  have hpool := h.counted.inPool x f hm
  have hpos := h.counted.count_pos hm
  -- the frame that the slot maps is none of the kernel's own
  have hG : ∀ p ∈ G, s.kframe p ≠ f := by
    intro p hp he
    apply hx.notOwned p hp
    exact h.unshared p hp x (by rw [hm, he])
  refine h.setEntry hx (fun _ => rfl) (fun h0 => absurd h0 not_present_zero) (fun p hp => ?_)
    (decrementReferences_numberOfFrames _ _) (fun g hg => ?_) ?_
  · rw [decrementReferences_info_of_ne _ (hG p hp)]
  · rw [decrementReferences_info_of_ne]
    rintro rfl
    exact hg hpool
  · rw [if_neg not_present_zero]
    -- the last reference gives the frame back, another one is only counted down
    by_cases hone : s.references f = 1
    · obtain ⟨h0, hlist⟩ := decrementReferences_last hone
      rw [hlist]
      refine (h.counted.unmap_last hm hone).congr fun g _ => ?_
      by_cases hgf : g = f
      · rw [hgf, Function.update_self, h0]
      · rw [decrementReferences_info_of_ne _ hgf, Function.update_of_ne hgf]
        rfl
    · have hshared : 1 < (s.frames.info f).references := by
        unfold Kern.references at hone hpos
        omega
      obtain ⟨h0, hlist⟩ := decrementReferences_shared hshared
      rw [hlist]
      refine (h.counted.unmap_shared hm hone).congr fun g _ => ?_
      by_cases hgf : g = f
      · rw [hgf, Function.update_self, h0]
        rfl
      · rw [decrementReferences_info_of_ne _ hgf, Function.update_of_ne hgf]
        rfl

end

end Fos
