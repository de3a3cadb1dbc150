import Fos.KernelHeap.Partition
import Fos.PageTables.Accounts

/-!
# Pages and tables from the kernel heap

`kmalloc` gives the kernel new owned pages; `create_page_table` turns one of them into a table of a
directory. Both keep the frames accounted for.
-/

namespace Fos

open Function (update)
open Prog (bind_eq_ok bind_run map_run ok_inj)
open RefPool (Counted pointing)
open Cover (range mem_range)

/-! ## Owning a page -/

section

variable {lay : Layout} {G G' : Set Nat} {dirs : Roots} {held : Set Nat} {s s' : Kern}
  {x : Slot} {f p va perm : Nat} {rest : List Nat}

theorem Directories.mono (h : Directories G dirs s) (hsub : G ⊆ G') (ho : Owned G' s) :
    Directories G' dirs s :=
  { h with
    owned := ho
    dir := fun d hd => (h.dir d hd).imp fun _ hp => ⟨hsub hp.1, hp.2⟩
    pde_owned := fun dir hd i hi hpr =>
      (h.pde_owned dir hd i hi hpr).imp fun _ hp => ⟨hsub hp.1, hp.2⟩ }

/-- A mapped page of the heap whose frame no other entry maps becomes an owned page. -/
theorem Accounted.own (h : Accounted lay G dirs held s) (hp : HeapPage p)
    (hpr : present (s.kernelTable p)) (hback : (s.frames.info (s.kframe p)).va = p * 4096)
    (huniq : ∀ x, s.mapping (liveSlots lay dirs s) x = some (s.kframe p) → x = bootSlot p) :
    Accounted lay (insert p G) dirs held s := by
  have ho : Owned (insert p G) s := by
    refine ⟨?_, ?_, ?_⟩ <;> rintro q (rfl | hq)
    · exact hp
    · exact h.directories.owned.heapPage q hq
    · exact hpr
    · exact h.directories.owned.mapped q hq
    · exact hback
    · exact h.directories.owned.back q hq
  refine { h with directories := h.directories.mono (Set.subset_insert p G) ho, unshared := ?_ }
  rintro q (rfl | hq)
  · exact huniq
  · exact h.unshared q hq

/-- Pages that hold no directory and no table need not stay owned. -/
theorem Accounted.disown (h : Accounted lay G dirs held s) (hsub : G' ⊆ G)
    (hdir : ∀ d, .heap d ∈ dirs → ∃ p ∈ G', d = p * 4096)
    (htab : ∀ dir ∈ dirs, ∀ i < 955, present (s.pde dir i) →
      ∃ p ∈ G', ppn (s.pde dir i) = s.kframe p) : Accounted lay G' dirs held s := by
  have ho := h.directories.owned
  refine { h with
    directories := { h.directories with
      owned := ⟨fun q hq => ho.heapPage q (hsub hq), fun q hq => ho.mapped q (hsub hq),
        fun q hq => ho.back q (hsub hq)⟩
      dir := hdir
      pde_owned := htab }
    unshared := fun q hq => h.unshared q (hsub hq) }

/-- A frame that was taken is entered where nothing is mapped. -/
theorem Accounted.mapSlot_held (h : Accounted lay G dirs held s) (hf : f ∈ held)
    (hx : x ∈ liveSlots lay dirs s) (hnp : ¬ present (s.entry x)) (hperm : perm < 4096) :
    Accounted lay G dirs (held \ {f}) (s.mapSlot x f va perm) := by
  have hpool := h.counted.heldPool f hf
  refine h.mapSlot hx hnp hpool ?_ ?_ ?_ hperm
  · exact fun hfree => ((h.counted.free_iff f hpool).1 hfree).2.2 hf
  · rintro p hp rfl
    exact h.kframe_notHeld hp hf
  · rw [h.counted.refs_held hf]
    decide

/-- A page of the heap that gets a taken frame for its own becomes an owned page. -/
theorem Accounted.mapSlot_own (h : Accounted lay G dirs held s) (hf : f ∈ held) (hp : HeapPage p)
    (hnp : ¬ present (s.kernelTable p)) (hperm : perm < 4096) :
    Accounted lay (insert p G) dirs (held \ {f}) (s.mapSlot (bootSlot p) f (p * 4096) perm) := by
  have hlive : bootSlot p ∈ liveSlots lay dirs s := bootSlot_live (lay.heap_dynamic p hp)
  rw [← entry_bootSlot] at hnp
  have h' : Accounted lay G dirs (held \ {f}) (s.mapSlot (bootSlot p) f (p * 4096) perm) :=
    h.mapSlot_held hf hlive hnp hperm
  have hx := h.writable hlive hnp
  set s' := s.mapSlot (bootSlot p) f (p * 4096) perm with hs'
  have htab : s'.kernelTable p = entryOf f perm := by
    rw [hs', Kern.mapSlot, setEntry_bootSlot]
    exact Function.update_self _ _ _
  have hkf : s'.kframe p = f := by
    unfold Kern.kframe
    rw [htab, ppn_entryOf hperm]
  -- the frame's record names this page
  have hinfo : s'.frames.info f = ⟨u16Succ (s.frames.info f).references, p * 4096⟩ := by
    rw [hs', Kern.mapSlot, setEntry_frames]
    exact addReference_info_self _ _ _
  refine h'.own hp ?_ ?_ ?_
  · rw [htab]
    exact present_entryOf hperm
  · rw [hkf, hinfo]
  · -- no entry mapped the taken frame before
    intro y hy
    rw [hkf] at hy
    by_contra hne
    have hback : ∀ q ∈ G, ((s.frames.addReference f (p * 4096)).info (s.kframe q)).va =
        (s.frames.info (s.kframe q)).va := by
      intro q hq
      rw [addReference_info_of_ne]
      rintro rfl
      exact h.kframe_notHeld hq hf
    rw [hs', Kern.mapSlot, hx.mapping_setFrames h.directories hback,
      Function.update_of_ne hne] at hy
    exact h.counted.notHeld hy hf

end

end Fos
