import Fos.Loader

/-!
# Mapping at load time

`loadtime_map_frame` does what `map_frame` does at a page that is not mapped, but for the address in
the frame's descriptor. The loader maps new frames with it.
-/

namespace Fos

open Prog (bind_eq_ok ok_inj)

section

variable {lay : Layout} {G D : Set Nat} {dirs : Roots} {held : Set Nat}
    {s s' t : Kern} {dir : DirPtr}
  {f p va perm : Nat} {x : Slot}

/-- The page table that it finds or makes. -/
theorem MemOk.loadtimeMapFrame_table (h : MemOk lay G D dirs held s) (hdir : dir ∈ dirs.page)
    (hva : va < userTop) (hk : Fos.loadtimeMapFrame dir f va perm s = .ok () s') :
    ∃ G' t x, pageTableWith Fos.createPageTable dir va s = .ok x.1 t ∧ Quiet dirs D G G' s t ∧
      MemOk lay G' D dirs held t ∧ SlotAt dirs t dir (ppn va) x ∧
      s' = t.mapSlot x f (t.frames.info f).va perm := by
  obtain ⟨hpdx, hlt⟩ := pdx_user hva
  have hreach := h.directories.reachDir (.inl hdir)
  -- both branches end with this write
  have hwrite : ∀ {G'} {t : Kern} {x : Slot}, MemOk lay G' D dirs held t →
      SlotAt dirs t dir (ppn va) x →
      (do
        modify fun s : Kern => s.setFrames (s.frames.incReferences f)
        writePte x.1 (ptx va) (constructEntry (f * 4096) (perm ||| permPresent)) : K Unit) t =
          .ok () s' → s' = t.mapSlot x f (t.frames.info f).va perm := by
    intro G' t x hok hx hrun
    rw [Prog.modify_bind_apply, writePte_reach ((hx.reach hok.directories).setFrames _) (ptx_lt va)]
      at hrun
    obtain ⟨a, -, rfl⟩ := hx.table
    exact (ok_inj.1 hrun).2.symm
  unfold Fos.loadtimeMapFrame at hk
  rw [Prog.bind_of_ok (readPde_reach hreach (pdx_lt va))] at hk
  by_cases hpr : present (s.pde dir (pdx va))
  · -- the directory names the table
    rw [if_neg (present_ne_zero hpr)] at hk
    obtain ⟨tbl, t, hfound, hk⟩ := bind_eq_ok.1 hk
    obtain ⟨rfl, rfl⟩ : tableOf s va (s.pde dir (pdx va)) = tbl ∧ s = t := ok_inj.1 hfound
    have htable : s.table dir (ppn va / 1024) =
        some (kheapVirtualAddress s (extractAddress (s.pde dir (pdx va)))) := by
      rw [← hpdx]
      exact if_pos hpr
    have hx := slotAt_of_table hdir hlt htable
    have htbl : tableOf s va (s.pde dir (pdx va)) =
        .heap (kheapVirtualAddress s (extractAddress (s.pde dir (pdx va)))) := if_neg (Nat.not_le.2 hva)
    rw [htbl] at hk
    refine ⟨G, s, _, ?_, .refl dirs D G s, h, hx, hwrite h hx hk⟩
    rw [pageTableWith, Prog.bind_of_ok (hx.get h.directories hva).1]
    rfl
  · -- it is new
    have hz : s.pde dir (pdx va) = 0 := h.directories.pde_zero dir (.inl hdir) _ (by omega) hpr
    rw [if_pos hz] at hk
    obtain ⟨tbl, t, hcreate, hk⟩ := bind_eq_ok.1 hk
    obtain ⟨p, -, rfl, htab, hq, hok⟩ := h.createPageTable (.inl hdir) hva hpr hcreate
    have hx := slotAt_of_table hdir hlt (hpdx ▸ htab)
    refine ⟨_, t, _, ?_, hq, hok, hx, hwrite hok hx hk⟩
    rw [pageTableWith, Prog.bind_of_ok (getPageTable_zero hreach hz)]
    exact hcreate

theorem RoomForTable.loadtimeMapFrame {s : Kern} {d va p f perm : Nat} (h : RoomForTable s d va p) :
    Fos.loadtimeMapFrame (.heap d) f va perm s = (do
      modify fun s => s.setFrames (s.frames.incReferences f)
      writePte (.heap (p * 4096)) (ptx va) (constructEntry (f * 4096) (perm ||| permPresent)) : K Unit)
        (s.withTable d va p (permUser ||| permWriteable)) := by
  have hreach : s.ReachDir (.heap d) := ⟨h.1.1, h.1.2.1⟩
  rw [Fos.loadtimeMapFrame, Prog.bind_of_ok (readPde_reach hreach (pdx_lt _)), h.2.1, if_pos rfl,
    Prog.bind_of_ok h.create]

/-- **`loadtime_map_frame`** at a user page that maps nothing. -/
theorem MemOk.loadtimeMapFrame (h : MemOk lay G D dirs held s) (hdir : dir ∈ dirs.page)
    (hva : va < userTop) (hz : s.leaf dir (ppn va) = 0) (hf : Usable lay G s f)
    (hlt : s.references f < 65535) (hperm : perm < 4096)
    (hk : Fos.loadtimeMapFrame dir f va perm s = .ok () s') :
    ∃ G', MemOk lay G' D dirs (held \ {f}) s' ∧
      MapsUser dirs D held dir (ppn va) f (s.frames.info f).va perm s s' := by
  obtain ⟨G', t, x, -, hq, hok, hx, rfl⟩ := h.loadtimeMapFrame_table hdir hva hk
  have hp := (pdx_user hva).2
  have hst := hq.still h
  have hf' := hf.quiet hq h.owned
  have hinfo : t.frames.info f = s.frames.info f := hq.info f hf.notFree
  have hlt' : t.references f < 65535 := by
    unfold Kern.references at hlt ⊢
    rwa [hinfo]
  have hnp : ¬ present (t.entry x) := by
    rw [hx.entry, hst.leaf dir hdir _ hp, hz]
    exact not_present_zero
  have hm := hok.mapSlot_user hx hf' hlt' (t.frames.info f).va perm
  refine ⟨G', hok.mapSlot hx.live hx.offHeap hnp hf' hlt' hperm, ?_⟩
  rw [← hinfo]
  exact hm.after h hq hf.notFree

end

section

variable {lay : Layout} {s : FileState} {k₁ k₂ : Kern} {dir : DirPtr} {f va perm : Nat}

/-- Page `va` of `dir` maps a new frame in `t`; nothing else is different for the user pages. -/
structure MapsNew (pages : List DirPtr) (dir : DirPtr) (va f perm : Nat) (s t : Kern) : Prop where
  kept : Kept ∅ s t
  envs : t.envs = s.envs
  disk : t.disk = s.disk
  leaf : t.leaf dir (ppn va) = entryOf f perm
  once : t.references f = 1
  keeps : KeepsOutside pages {(dir, ppn va)} s t

/-- The loader maps a new frame. -/
theorem StoreInv.loadtimeMap (hi : StoreInv lay s) (hdir : dir ∈ s.pages) (hva : va < userTop)
    (hz : s.kern.leaf dir (ppn va) = 0) (hperm : perm < 4096)
    (h₁ : allocateFrame s.kern = .ok f k₁) (h₂ : loadtimeMapFrame dir f va perm k₁ = .ok () k₂) :
    StoreInv lay ⟨k₂, s.pages, s.store⟩ ∧ MapsNew s.pages dir va f perm s.kern k₂ := by
  obtain ⟨G, dirs, hpages, h⟩ := hi.file
  have hcount := hi.count
  have hp := (pdx_user hva).2
  rw [← hpages] at hdir hcount ⊢
  obtain ⟨hok₁, hq, hf, hinfo, -, hnot, -⟩ := h.mem.allocateFrame h₁
  have hst := hq.still h.mem
  -- the frame was free, so nothing refers to it
  have hrefs : k₁.references f = 0 := by
    unfold Kern.references
    rw [hinfo]
  have hz₁ : k₁.leaf dir (ppn va) = 0 := by
    rw [hst.leaf dir hdir _ hp]
    exact hz
  obtain ⟨G', hok₂, hmap⟩ := hok₁.loadtimeMapFrame hdir hva hz₁ hf (by omega) hperm h₂
  have hnone : insert f (∅ : Set Nat) \ {f} = ∅ := by simp
  rw [hnone] at hok₂
  have hmem :=
    hi.memory hpages h hok₂ (hst.toKept.trans hmap.toKept) (hq.sameRest.trans hmap.toSameRest)
    (by
      rw [← hpages]
      exact hmap.count hperm (by omega) (hst.count hcount))
  rw [← hpages] at hmem
  refine ⟨hmem.1, hst.toKept.trans hmap.toKept, ?_, ?_, ?_, ?_, ?_⟩
  · rw [hmap.envs, hq.envs]
  · rw [hmap.disk, hq.disk]
  · rw [hmap.leaf dir hdir _ hp, if_pos ⟨rfl, rfl⟩]
  · unfold Kern.references at hrefs ⊢
    rw [hmap.infoSelf, hrefs]
  · refine (hst.keeps.mono (Set.empty_subset _)).trans (hmap.keeps ?_)
    intro dir' hdir' q hq' hpr he
    rw [hst.leaf dir' hdir' q hq'] at hpr he
    exact hnot (.inr (.inr ⟨dir', hdir', q, hq', hpr, he⟩))

end

end Fos
