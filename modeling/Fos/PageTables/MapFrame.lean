import Fos.PageTables.Access
import Fos.PageTables.FrameRuns

/-!
# What `map_frame` establishes

`map_frame` leaves an entry alone that maps the frame already, whatever permissions it carries, and
otherwise stores the physical address of the frame or'ed with the permission word. It notes the user
address in the descriptor of the frame, where `get_page_table` looks for the address of a page
table. So the entry is the one asked for unless an old entry of the same frame stays, the frame is
found again unless the word reaches into the address, and the tables are found again unless the
frame backs one.
-/

namespace Fos

open Prog (ok_inj)
open Relation (ReflTransGen)

/-- `get_page_table` finds the entry of `va` in the table `tbl`, and the entry is `w`. -/
structure Kern.Finds (s : Kern) (dir : DirPtr) (va : Nat) (tbl : TablePtr) (w : Nat) : Prop where
  table : getPageTable dir va s = .ok (some tbl) s
  entry : readPte tbl (ptx va) s = .ok w s

/-- What the comment of `map_frame` promises of the page at `va`, with the frame found again there
and the other user entries where and as they were. The entries of a table that did not exist are
zero. -/
structure MapsFrame (dir : DirPtr) (f va perm : Nat) (s t : Kern) : Prop where
  entry : ∃ tbl, t.Finds dir va tbl (constructEntry (f * 4096) (perm ||| permPresent))
  frame : ∃ tbl, getFrameInfo dir va t = .ok (some (f, tbl)) t
  others : ∀ va' < userTop, ppn va' ≠ ppn va → ∀ tbl w, s.Finds dir va' tbl w →
      t.Finds dir va' tbl w
  absent : ∀ va' < userTop, ppn va' ≠ ppn va → getPageTable dir va' s = .ok none s →
    getPageTable dir va' t = .ok none t ∨ ∃ tbl, t.Finds dir va' tbl 0

/-- The entry asked for is there already or the page does not map the frame yet, the permission word
leaves the address alone, and the frame backs no page table of the directory, nor is it the free
frame that a missing table takes. -/
structure CanEstablish (dir : DirPtr) (f va perm : Nat) (s : Kern) : Prop where
  same : present (s.leaf dir (ppn va)) → ppn (s.leaf dir (ppn va)) = f →
    s.leaf dir (ppn va) = constructEntry (f * 4096) (perm ||| permPresent)
  word : f ||| perm / 4096 = f
  notTable : ∀ i < 955, present (s.pde dir i) → ppn (s.pde dir i) ≠ f
  notTaken : ¬ present (s.pde dir (pdx va)) → s.frames.freeFrameList.head? ≠ some f

section

variable {lay : Layout} {G G' D : Set Nat} {dirs : Roots} {held : Set Nat} {s t u v : Kern}
  {dir : DirPtr} {f i j p q va va' perm w w' : Nat} {a : Nat} {tbl tbl' : TablePtr} {x : Slot} {fr : Frames}

/-! ## Entries with any permission word -/

/-- The number of the frame in the entry. -/
theorem ppn_entryOf_word (f perm : Nat) : ppn (entryOf f perm) = f ||| perm / 4096 := by
  have hor : ∀ a b : Nat, (a ||| b) / 2 ^ 12 = a / 2 ^ 12 ||| b / 2 ^ 12 :=
    fun a b => Nat.or_div_two_pow
  change ∀ a b : Nat, (a ||| b) / 4096 = a / 4096 ||| b / 4096 at hor
  rw [entryOf, constructEntry, ppn, hor, hor, Nat.mul_div_cancel f (by decide),
    show permPresent / 4096 = 0 from rfl, Nat.or_zero]

theorem entryOf_ne_zero (f perm : Nat) : entryOf f perm ≠ 0 := by
  intro h
  rw [entryOf, constructEntry, Nat.or_eq_zero_iff, Nat.or_eq_zero_iff] at h
  exact absurd h.2.2 (by decide)

/-! ## What `get_page_table` finds -/

theorem Kern.Finds.unique (h : s.Finds dir va tbl w) (h' : s.Finds dir va tbl' w') :
    tbl' = tbl ∧ w' = w := by
  have htbl := h'.table
  rw [h.table] at htbl
  obtain rfl := Option.some.inj (ok_inj.1 htbl).1
  have hw := h'.entry
  rw [h.entry] at hw
  exact ⟨rfl, (ok_inj.1 hw).1.symm⟩

/-- **`get_frame_info`** where the entry is found. -/
theorem Kern.Finds.getFrameInfo (h : s.Finds dir va tbl w) (hne : w ≠ 0) :
    Fos.getFrameInfo dir va s =
      if tbl = .null then .ok none s
      else if s.frames.numberOfFrames ≤ ppn w then
        .error (.panic "to_frame_info called with invalid pa=%x\n") s
      else .ok (some (ppn w, tbl)) s := by
  rw [Fos.getFrameInfo, Prog.bind_of_ok h.table]
  show (if tbl = .null then pure none else _ : K _) s = _
  rw [Prog.ite_run]
  by_cases hnull : tbl = .null
  · rw [if_pos hnull, if_pos hnull]
    rfl
  · rw [if_neg hnull, if_neg hnull, Prog.bind_of_ok h.entry, Prog.ite_run,
      if_pos hne, Prog.bind_run, toFrameInfo, Prog.get_bind_apply, Prog.ite_run, ppn_extractAddress]
    by_cases hin : s.frames.numberOfFrames ≤ ppn w
    · rw [if_pos hin, if_pos hin]
      rfl
    · rw [if_neg hin, if_neg hin]
      rfl

/-- A second call for the same frame does nothing. -/
theorem Kern.Finds.mapFrame_same (h : s.Finds dir va tbl w) (hp : present w) (he : ppn w = f)
    (perm : Nat) : Fos.mapFrame dir f va perm s = .ok () s := by
  have htbl : pageTableWith createPageTable dir va s = .ok tbl s := by
    rw [pageTableWith, Prog.bind_of_ok h.table]
    rfl
  rw [Fos.mapFrame, mapFrameWith, Prog.bind_of_ok htbl, mapFrameIn, Prog.bind_of_ok h.entry,
    Prog.ite_run, if_pos ⟨hp, (extractAddress_eq_iff _ _).2 he⟩]
  rfl

/-- The entries that are found are the leaves. -/
theorem Directories.finds_iff (h : Directories G dirs s) (hdir : dir ∈ dirs) (hva : va < userTop) :
    s.Finds dir va tbl w ↔
      ∃ a, s.table dir (pdx va) = some a ∧ tbl = .heap a ∧ w = s.leaf dir (ppn va) := by
  obtain ⟨hpdx, hlt⟩ := pdx_user hva
  have hget := getPageTable_user (h.reachDir hdir) hva (h.pde_zero dir hdir _ (by omega))
  have hread : ∀ {a}, s.table dir (pdx va) = some a →
      readPte (.heap a) (ptx va) s = .ok (s.leaf dir (ppn va)) s := by
    intro a ha
    obtain ⟨p, hp, rfl, -⟩ := h.table_some hdir (by omega) ha
    rw [readPte_reach (h.owned.reach hp) (ptx_lt va), leaf_of_some (hpdx ▸ ha), ptx_eq]
  constructor
  · rintro ⟨htable, hentry⟩
    rw [hget] at htable
    have hmap := (ok_inj.1 htable).1
    obtain ⟨a, ha, rfl⟩ := Option.map_eq_some_iff.1 hmap
    rw [hread ha] at hentry
    exact ⟨a, ha, rfl, (ok_inj.1 hentry).1.symm⟩
  · rintro ⟨a, ha, rfl, rfl⟩
    exact ⟨by rw [hget, ha]; rfl, hread ha⟩

/-- The tables are found at the addresses in the descriptors of their frames. -/
theorem getPageTable_setFrames (h : Directories G dirs s) (hdir : dir ∈ dirs) (hva : va < userTop)
    (hp : present (s.pde dir (pdx va)))
    (hlt : (fr.info (ppn (s.pde dir (pdx va)))).va < 4294967296) :
    getPageTable dir va (s.setFrames fr) =
      .ok (some (.heap (fr.info (ppn (s.pde dir (pdx va)))).va)) (s.setFrames fr) := by
  have hreach : (s.setFrames fr).ReachDir dir := by
    cases dir with
    | boot => trivial
    | heap d => exact h.reachDir hdir
  have hnk : ¬ checkIfKernelAddress va := Nat.not_le.2 hva
  have hmod : extractAddress (s.pde dir (pdx va)) % 4096 = 0 := by unfold extractAddress; omega
  have hpde : (s.setFrames fr).pde dir (pdx va) = s.pde dir (pdx va) := setFrames_pde s fr dir _
  rw [getPageTable_present hreach (by rwa [hpde]) (not_tableBeyond_user _ hnk), tableOf_user _ hnk,
    hpde, Fos.kheapVirtualAddress, ppn_extractAddress, hmod, Nat.add_zero,
    show (s.setFrames fr).frames = fr from rfl, u32_of_lt hlt]

/-- An entry whose table keeps its address is found again. -/
theorem Kern.Finds.setFrames (hf : s.Finds dir va tbl w) (h : Directories G dirs s)
    (hdir : dir ∈ dirs) (hva : va < userTop) (hinfo : (fr.info (ppn (s.pde dir (pdx va)))).va =
      (s.frames.info (ppn (s.pde dir (pdx va)))).va) : (s.setFrames fr).Finds dir va tbl w := by
  obtain ⟨a, ha, rfl, rfl⟩ := (h.finds_iff hdir hva).1 hf
  obtain ⟨hpdx, hlt⟩ := pdx_user hva
  obtain ⟨p, hp, rfl, hpr, he⟩ := h.table_some hdir (by omega) ha
  have hback : (fr.info (ppn (s.pde dir (pdx va)))).va = p * 4096 := by
    rw [hinfo, he]
    exact h.owned.back p hp
  refine ⟨?_, ?_⟩
  · rw [getPageTable_setFrames h hdir hva hpr, hback]
    rw [hback]
    exact (h.owned.heapPage p hp).addr_lt
  · rw [readPte_reach ((h.owned.reach hp).setFrames fr) (ptx_lt va), setFrames_entry,
      leaf_of_some (hpdx ▸ ha), ptx_eq]

/-! ## The entry that is written -/

theorem setEntry_setFrames (s : Kern) (x : Slot) (w : Nat) (fr : Frames) :
    (s.setFrames fr).setEntry x w = (s.setEntry x w).setFrames fr := by
  rcases x with ⟨_ | _ | _, _⟩ <;> rfl

theorem setFrames_setFrames (s : Kern) (fr fr' : Frames) :
    (s.setFrames fr).setFrames fr' = s.setFrames fr' := rfl

theorem setEntry_setEntry (s : Kern) (x : Slot) (w w' : Nat) :
    (s.setEntry x w).setEntry x w' = s.setEntry x w' := by
  rcases x with ⟨_ | _ | _, _⟩
  · simp [Kern.setEntry, Kern.setKernelTable]
  · rfl
  · simp [Kern.setEntry, Kern.store, Kern.frameAt]

/-- `map_frame` did nothing, or it wrote the entry, noted the address in the descriptor of the frame
and kept the addresses in those of all frames but the one the page mapped before. -/
theorem Remap.wrote (hr : Remap s x f va perm t) :
    (present (s.entry x) ∧ ppn (s.entry x) = f ∧ t = s) ∨
    (¬ (present (s.entry x) ∧ ppn (s.entry x) = f) ∧ ∃ fr : Frames,
      t = (s.setEntry x (entryOf f perm)).setFrames fr ∧
      fr.numberOfFrames = s.frames.numberOfFrames ∧ (fr.info f).va = va ∧
      ∀ k, k ≠ f → (present (s.entry x) → k ≠ ppn (s.entry x)) →
        (fr.info k).va = (s.frames.info k).va) := by
  have hself : ∀ fr : Frames, ((fr.addReference f va).info f).va = va := fun fr => by
    simp [Frames.addReference, Frames.setInfo]
  cases hr with
  | same hp he => exact .inl ⟨hp, he, rfl⟩
  | new hnp =>
    refine .inr ⟨fun hc => hnp hc.1, s.frames.addReference f va, ?_, rfl, hself _, fun k hk _ => ?_⟩
    · exact setEntry_setFrames _ _ _ _
    · rw [addReference_info_of_ne _ _ hk]
  | other hp hne hlt =>
    refine .inr ⟨fun hc => hne hc.2,
      (s.frames.decrementReferences (ppn (s.entry x))).addReference f va, ?_,
      decrementReferences_numberOfFrames _ _, hself _, fun k hk hold => ?_⟩
    · have hframes : (s.unmapSlot x).frames = s.frames.decrementReferences (ppn (s.entry x)) :=
        setEntry_frames _ _ _
      rw [Kern.mapSlot, setEntry_setFrames, hframes, Kern.unmapSlot, setEntry_setEntry,
        setEntry_setFrames, setFrames_setFrames]
    · rw [addReference_info_of_ne _ _ hk, decrementReferences_info_of_ne _ (hold hp)]

/-! ## The table of the page -/

/-- **`map_frame`** at a user page: the other tables of the directory are those of before, and a new
table is on the frame that was the head of the free list. -/
theorem MemOk.mapFrame_table (h : MemOk lay G D dirs held s) (hdir : dir ∈ dirs.page)
    (hva : va < userTop) (hk : Fos.mapFrame dir f va perm s = .ok () t) :
    ∃ G' u q, MemOk lay G' D dirs held u ∧ Quiet dirs D G G' s u ∧
      u.table dir (pdx va) = some (q * 4096) ∧
      (∀ i < 955, i ≠ pdx va → u.table dir i = s.table dir i) ∧
      ((G' = G ∧ u = s) ∨ ¬ present (s.pde dir (pdx va)) ∧
        s.frames.freeFrameList.head? = some (u.kframe q)) ∧
      Remap u (.heap (q * 4096), ptx va) f va perm t := by
  obtain ⟨hpdx, hlt⟩ := pdx_user hva
  have hin : dir ∈ dirs := .inl hdir
  obtain ⟨tbl, u, htbl, hrest⟩ := Prog.bind_eq_ok.1 hk
  -- the table is there, or the call makes it first
  by_cases hp : present (s.pde dir (pdx va))
  · obtain ⟨q, hq, he⟩ := h.directories.pde_owned dir hin _ (by omega) hp
    have htab := h.directories.table_eq hp hq he
    have hloc : Located lay dirs s dir va _ :=
      (slotAt_of_table hdir hlt (hpdx ▸ htab)).located h.directories hva
    rw [pageTableWith, Prog.bind_of_ok hloc.get] at htbl
    obtain ⟨rfl, rfl⟩ := ok_inj.1 htbl
    exact ⟨G, s, q, h, .refl dirs D G s, htab, fun _ _ _ => rfl, .inl ⟨rfl, rfl⟩,
      mapFrameIn_slot hloc.get hloc.reach hrest⟩
  · have hget := getPageTable_zero (h.directories.reachDir hin)
      (h.directories.pde_zero dir hin _ (by omega) hp)
    rw [pageTableWith, Prog.bind_of_ok hget] at htbl
    obtain ⟨q, -, -, -, -, rfl, -, htab, hq, hok⟩ := h.createPageTable_link hin hva hp htbl
    have hnew : u.table dir (pdx va) = some (q * 4096) := by
      rw [htab dir hin _ (by omega), if_pos ⟨rfl, rfl⟩]
    have hloc : Located lay dirs u dir va _ :=
      (slotAt_of_table hdir hlt (hpdx ▸ hnew)).located hok.directories hva
    refine ⟨_, u, q, hok, hq, hnew, fun i hi hne => ?_,
      .inr ⟨hp, h.createPageTable_head hin htbl⟩, mapFrameIn_slot hloc.get hloc.reach hrest⟩
    rw [htab dir hin i hi, if_neg fun hc => hne hc.2]

/-- How `map_frame` wrote an entry: in the state `u`, with the table of the page there, it replaced
the entry and the frame counts, noting `va` for `f` and keeping the addresses of the other owned
frames. -/
structure WritesEntry (lay : Layout) (G G' D : Set Nat) (dirs : Roots)
    (held : Set Nat) (dir : DirPtr)
    (f va perm : Nat) (s u : Kern) (q : Nat) (fr : Frames) : Prop where
  mem : MemOk lay G' D dirs held u
  quiet : Quiet dirs D G G' s u
  table : u.table dir (pdx va) = some (q * 4096)
  others : ∀ i < 955, i ≠ pdx va → u.table dir i = s.table dir i
  old : (G' = G ∧ u = s) ∨ ¬ present (s.pde dir (pdx va)) ∧
    s.frames.freeFrameList.head? = some (u.kframe q)
  numberOfFrames : fr.numberOfFrames = s.frames.numberOfFrames
  self : (fr.info f).va = va
  back : ∀ p ∈ G', u.kframe p ≠ f → (fr.info (u.kframe p)).va = p * 4096

/-- The state after it. -/
def Kern.withEntry (u : Kern) (q f va perm : Nat) (fr : Frames) : Kern :=
  (u.setEntry (.heap (q * 4096), ptx va) (entryOf f perm)).setFrames fr

theorem MemOk.mapFrame_cases (h : MemOk lay G D dirs held s) (hdir : dir ∈ dirs.page)
    (hva : va < userTop) (hk : Fos.mapFrame dir f va perm s = .ok () t) :
    (present (s.leaf dir (ppn va)) ∧ ppn (s.leaf dir (ppn va)) = f ∧ t = s) ∨
    (¬ (present (s.leaf dir (ppn va)) ∧ ppn (s.leaf dir (ppn va)) = f) ∧
      ∃ G' u q fr, WritesEntry lay G G' D dirs held dir f va perm s u q fr ∧
        t = u.withEntry q f va perm fr) := by
  obtain ⟨G', u, q, hok, hq, htab, hothers, hold, hr⟩ := h.mapFrame_table hdir hva hk
  obtain ⟨hpdx, hlt⟩ := pdx_user hva
  have hx := slotAt_of_table hdir hlt (hpdx ▸ htab)
  have hentry : u.entry (.heap (q * 4096), ptx va) = s.leaf dir (ppn va) := by
    rw [ptx_eq, hx.entry, hq.leaf dir (.inl hdir) _ hlt]
  have howned := hok.slot_notOwned hx
  rw [← ptx_eq, hentry] at howned
  rcases hr.wrote with ⟨hp, he, rfl⟩ | ⟨hnot, fr, rfl, hn, hself, hback⟩
  · rw [hentry] at hp he
    rcases hold with ⟨-, rfl⟩ | ⟨hnp, -⟩
    · exact .inl ⟨hp, he, rfl⟩
    · -- a table made by this call maps nothing yet
      have hnone : s.table dir (ppn va / 1024) = none := by
        rw [← hpdx]
        exact if_neg hnp
      rw [leaf_of_none hnone] at hp
      exact absurd hp not_present_zero
  · rw [hentry] at hnot hback
    refine .inr ⟨hnot, G', u, q, fr,
      ⟨hok, hq, htab, hothers, hold, hn.trans hq.numberOfFrames, hself, fun p hp hne => ?_⟩, rfl⟩
    rw [hback _ hne fun hpr => howned hpr p hp]
    exact hok.owned.back p hp

section

variable (hw : WritesEntry lay G G' D dirs held dir f va perm s u q fr)
include hw

theorem WritesEntry.directories (hdir : dir ∈ dirs.page) (hva : va < userTop) :
    Directories G' dirs (u.setEntry (.heap (q * 4096), ptx va) (entryOf f perm)) :=
  hw.mem.directories.setTable (.inl hdir) (by have := pdx_user hva; omega) hw.table _ _

theorem WritesEntry.pde (hdir : dir ∈ dirs.page) (hva : va < userTop) (i : Nat) :
    (u.setEntry (.heap (q * 4096), ptx va) (entryOf f perm)).pde dir i = u.pde dir i :=
  hw.mem.directories.setTable_pde (.inl hdir) (by have := pdx_user hva; omega) hw.table _ _ (.inl hdir) i

theorem WritesEntry.leaf (hdir : dir ∈ dirs.page) (hva : va < userTop) (hp : p < 977920) :
    (u.setEntry (.heap (q * 4096), ptx va) (entryOf f perm)).leaf dir p =
      if p = ppn va then entryOf f perm else s.leaf dir p := by
  obtain ⟨hpdx, hlt⟩ := pdx_user hva
  have hleaf := hw.mem.directories.setTable_leaf (.inl hdir) hlt (hpdx ▸ hw.table) (entryOf f perm)
    (.inl hdir) hp
  rw [ptx_eq, hleaf, hw.quiet.leaf dir (.inl hdir) p hp]
  by_cases hc : p = ppn va
  · rw [if_pos ⟨rfl, hc⟩, if_pos hc]
  · rw [if_neg fun h => hc h.2, if_neg hc]

theorem WritesEntry.kernelTable (hp : p < 977920) :
    (u.withEntry q f va perm fr).kernelTable p = s.kernelTable p :=
  hw.quiet.kernelTable p (.inr fun hheap => by unfold HeapPage at hheap; omega)

/-- A table of the directory that was there is there still, on the same frame. -/
theorem WritesEntry.keeps (h : MemOk lay G D dirs held s) (hdir : dir ∈ dirs.page) (hi : i < 955)
    (hp : present (s.pde dir i)) : present (u.pde dir i) ∧
    ppn (u.pde dir i) = ppn (s.pde dir i) := by
  obtain ⟨p, hpG, he⟩ := h.directories.pde_owned dir (.inl hdir) i hi hp
  have htab := h.directories.table_eq hp hpG he
  have htab' : u.table dir i = some (p * 4096) := by
    by_cases hc : i = pdx va
    · rcases hw.old with ⟨-, rfl⟩ | ⟨hnp, -⟩
      · exact htab
      · exact absurd (hc ▸ hp) hnp
    · rw [hw.others i hi hc, htab]
  obtain ⟨p', hp', heq, hpr, he'⟩ := hw.mem.directories.table_some (.inl hdir) hi htab'
  obtain rfl : p = p' := Nat.eq_of_mul_eq_mul_right (by decide) heq
  exact ⟨hpr, by rw [he', he, hw.quiet.kframe h.owned hpG]⟩

theorem WritesEntry.table_some (hi : i < 955) (ha : s.table dir i = some a) :
    u.table dir i = some a := by
  by_cases hc : i = pdx va
  · rcases hw.old with ⟨-, hus⟩ | ⟨hnp, -⟩
    · rwa [hus]
    · rw [hc, Kern.table, if_neg hnp] at ha
      cases ha
  · rwa [hw.others i hi hc]

/-- The frames of the tables, after the new one. -/
theorem WritesEntry.frame_ne (h : MemOk lay G D dirs held s) (hdir : dir ∈ dirs.page)
    (hc : CanEstablish dir f va perm s) (hi : i < 955) (hp : present (u.pde dir i)) :
    ppn (u.pde dir i) ≠ f := by
  by_cases hs : present (s.pde dir i)
  · rw [(hw.keeps h hdir hi hs).2]
    exact hc.notTable i hi hs
  · obtain ⟨p, hpG, he⟩ := hw.mem.directories.pde_owned dir (.inl hdir) i hi hp
    have htab := hw.mem.directories.table_eq hp hpG he
    have hnone : s.table dir i = none := if_neg hs
    have hi₀ : i = pdx va := by
      by_contra hne
      rw [hw.others i hi hne, hnone] at htab
      cases htab
    subst hi₀
    rcases hw.old with ⟨-, rfl⟩ | ⟨hnp, hhead⟩
    · exact absurd hp hs
    · rw [hw.table] at htab
      obtain rfl : q = p := Nat.eq_of_mul_eq_mul_right (by decide) (Option.some.inj htab)
      rw [he]
      intro hf
      exact hc.notTaken hnp (hf ▸ hhead)

end

/-- **When the condition is met.** -/
theorem WritesEntry.mapsFrame (hw : WritesEntry lay G G' D dirs held dir f va perm s u q fr)
    (h : MemOk lay G D dirs held s) (hdir : dir ∈ dirs.page) (hva : va < userTop)
    (hf : f < s.frames.numberOfFrames) (hc : CanEstablish dir f va perm s) :
    MapsFrame dir f va perm s (u.withEntry q f va perm fr) := by
  have hin : dir ∈ dirs := .inl hdir
  have hd := hw.directories hdir hva
  set v := u.setEntry (.heap (q * 4096), ptx va) (entryOf f perm) with hv
  have hpde : ∀ i, v.pde dir i = u.pde dir i := hw.pde hdir hva
  have hleaf : ∀ p < 977920, v.leaf dir p = if p = ppn va then entryOf f perm else s.leaf dir p :=
    fun p => hw.leaf hdir hva
  have htable : ∀ i < 955, v.table dir i = u.table dir i := fun i hi =>
    hw.mem.directories.setTable_table hin (by have := pdx_user hva; omega) hw.table _ _ hin hi
  -- no table loses its address
  have hkeep : ∀ {va' tbl w}, va' < userTop → v.Finds dir va' tbl w →
      (v.setFrames fr).Finds dir va' tbl w := by
    intro va' tbl w hva' hfind
    obtain ⟨hpdx, hlt⟩ := pdx_user hva'
    obtain ⟨a, ha, -⟩ := (hd.finds_iff hin hva').1 hfind
    obtain ⟨p, hp, rfl, hpr, he⟩ := hd.table_some hin (by omega) ha
    have hback := hd.owned.back p hp
    refine hfind.setFrames hd hin hva' ?_
    rw [he, hback]
    refine hw.back p hp fun hfr => ?_
    refine hw.frame_ne h hdir hc (i := pdx va') (by omega) (by rwa [← hpde]) ?_
    rw [← hpde, he]
    exact hfr
  have hentry : (v.setFrames fr).Finds dir va (.heap (q * 4096)) (entryOf f perm) := by
    refine hkeep hva ((hd.finds_iff hin hva).2 ⟨q * 4096, ?_, rfl, ?_⟩)
    · rw [htable _ (by have := pdx_user hva; omega), hw.table]
    · rw [hleaf _ (pdx_user hva).2, if_pos rfl]
  refine ⟨⟨_, hentry⟩, ⟨.heap (q * 4096), ?_⟩, fun va' hva' hne tbl w hfind => ?_,
    fun va' hva' hne hnone => ?_⟩
  · have hnull : (.heap (q * 4096) : TablePtr) ≠ .null := by
      obtain ⟨p, hp, heq, -⟩ :=
        hw.mem.directories.table_some hin (by have := pdx_user hva; omega) hw.table
      rw [heq]
      exact fun hn => (hw.mem.owned.reach hp).1 (TablePtr.heap.inj hn)
    have hin' : ¬ (v.setFrames fr).frames.numberOfFrames ≤ f := by
      rw [show (v.setFrames fr).frames = fr from rfl, hw.numberOfFrames]
      omega
    show Fos.getFrameInfo dir va (v.setFrames fr) = _
    rw [hentry.getFrameInfo (entryOf_ne_zero f perm), if_neg hnull, ppn_entryOf_word,
      hc.word, if_neg hin']
    rfl
  · obtain ⟨hpdx, hlt⟩ := pdx_user hva'
    obtain ⟨a, ha, rfl, rfl⟩ := (h.directories.finds_iff hin hva').1 hfind
    refine hkeep hva' ((hd.finds_iff hin hva').2 ⟨a, ?_, rfl, ?_⟩)
    · rw [htable _ (by omega)]
      exact hw.table_some (by omega) ha
    · rw [hleaf _ hlt, if_neg hne]
  · obtain ⟨hpdx, hlt⟩ := pdx_user hva'
    rw [getPageTable_user (h.directories.reachDir hin) hva'
      (h.directories.pde_zero dir hin _ (by omega))] at hnone
    have hs : s.table dir (pdx va') = none := Option.map_eq_none_iff.1 (ok_inj.1 hnone).1
    by_cases hc' : pdx va' = pdx va
    · refine .inr ⟨.heap (q * 4096), hkeep hva' ((hd.finds_iff hin hva').2 ⟨q * 4096, ?_, rfl, ?_⟩)⟩
      · rw [hc', htable _ (by omega), hw.table]
      · rw [hleaf _ hlt, if_neg hne, leaf_of_none (hpdx ▸ hs)]
    · have hv' : v.table dir (pdx va') = none := by
        rw [htable _ (by omega), hw.others _ (by omega) hc', hs]
      have hnp : ¬ present (v.pde dir (pdx va')) := fun hp => by
        rw [Kern.table, if_pos hp] at hv'
        cases hv'
      have hzero := hd.pde_zero dir hin _ (by omega) hnp
      refine .inl (getPageTable_zero ?_ ?_)
      · cases dir with
        | boot => trivial
        | heap d => exact hd.reachDir hin
      · exact (setFrames_pde v fr dir _).trans hzero

/-! ## When the promise is kept -/

/-- A page other than that of `va` under the directory entry `i`. -/
def otherPage (i va : Nat) : Nat := i * 4194304 + if ptx va = 0 then 4096 else 0

theorem otherPage_user (hi : i < 955) (va : Nat) : otherPage i va < userTop ∧
    pdx (otherPage i va) = i ∧ ppn (otherPage i va) ≠ ppn va := by
  unfold otherPage pdx ptx ppn userTop
  split <;> omega

/-- The entry of that page, looked for at `va`, is in the user space. -/
theorem otherPage_entry (hva : va < userTop) (i : Nat) :
    ppn (va + 4 * ptx (otherPage i va)) < 977920 := by
  unfold otherPage ptx ppn
  unfold userTop at hva
  split <;> omega

/-- The permission word leaves the address alone where the frame is found again. -/
theorem MapsFrame.word (hm : MapsFrame dir f va perm s t) : f ||| perm / 4096 = f := by
  obtain ⟨tbl, hfind⟩ := hm.entry
  obtain ⟨tbl', hframe⟩ := hm.frame
  have hne := entryOf_ne_zero f perm
  rw [entryOf] at hne
  rw [hfind.getFrameInfo hne] at hframe
  split at hframe
  case isTrue => cases (ok_inj.1 hframe).1
  case isFalse =>
    split at hframe
    case isTrue => cases hframe
    case isFalse =>
      have hfr := congrArg Prod.fst (Option.some.inj (ok_inj.1 hframe).1)
      dsimp only at hfr
      exact (ppn_entryOf_word f perm).symm.trans hfr

/-- The page mapped the frame already. -/
theorem MemOk.canEstablish_same (h : MemOk lay G D dirs held s) (hdir : dir ∈ dirs.page)
    (hva : va < userTop) (hp : present (s.leaf dir (ppn va))) (he : ppn (s.leaf dir (ppn va)) = f)
    (hm : MapsFrame dir f va perm s s) : CanEstablish dir f va perm s := by
  obtain ⟨hpdx, hlt⟩ := pdx_user hva
  refine ⟨fun _ _ => ?_, hm.word, fun i hi hpr hf => ?_, fun hnp => ?_⟩
  · obtain ⟨tbl, hfind⟩ := hm.entry
    obtain ⟨a, -, -, hw⟩ := (h.directories.finds_iff (.inl hdir) hva).1 hfind
    exact hw.symm
  · obtain ⟨p, hpG, hk⟩ := h.directories.pde_owned dir (.inl hdir) i hi hpr
    exact (h.usable_leaf hdir hlt hp).notOwned p hpG (by rw [he, ← hf, hk])
  · have hnone : s.table dir (pdx va) = none := if_neg hnp
    rw [leaf_of_none (hpdx ▸ hnone)] at hp
    exact absurd hp not_present_zero

/-- **When it is needed**: a table on the frame is looked for at the page of the user from now
on. -/
theorem WritesEntry.canEstablish (hw : WritesEntry lay G G' D dirs held dir f va perm s u q fr)
    (h : MemOk lay G D dirs held s) (hdir : dir ∈ dirs.page) (hva : va < userTop)
    (hnot : ¬ (present (s.leaf dir (ppn va)) ∧ ppn (s.leaf dir (ppn va)) = f))
    (hzero : ∀ p < 977920, s.kernelTable p = 0)
    (hm : MapsFrame dir f va perm s (u.withEntry q f va perm fr)) :
    CanEstablish dir f va perm s := by
  have hin : dir ∈ dirs := .inl hdir
  have hd := hw.directories hdir hva
  -- every table on the frame is looked for at `va`
  have hlost : ∀ i < 955, present (u.pde dir i) → ppn (u.pde dir i) = f →
      getPageTable dir (otherPage i va) (u.withEntry q f va perm fr) =
        .ok (some (.heap va)) (u.withEntry q f va perm fr) := by
    intro i hi hpr he
    obtain ⟨huser, hpdx, -⟩ := otherPage_user hi va
    rw [← hw.pde hdir hva] at hpr he
    have hself := hw.self
    have hback : (fr.info (ppn ((u.setEntry (.heap (q * 4096), ptx va) (entryOf f perm)).pde dir
        (pdx (otherPage i va))))).va = va := by rw [hpdx, he, hself]
    have hlt : (fr.info (ppn ((u.setEntry (.heap (q * 4096), ptx va) (entryOf f perm)).pde dir
        (pdx (otherPage i va))))).va < 4294967296 := by
      rw [hback]
      unfold userTop at hva
      omega
    have hget := getPageTable_setFrames hd hin huser (by rwa [hpdx]) hlt
    rwa [hback] at hget
  refine ⟨fun hp he => absurd ⟨hp, he⟩ hnot, hm.word, fun i hi hpr he => ?_, fun hnp hhead => ?_⟩
  · obtain ⟨huser, hpdx, hne⟩ := otherPage_user hi va
    obtain ⟨p, hpG, hk⟩ := h.directories.pde_owned dir hin i hi hpr
    have htab := h.directories.table_eq hpr hpG hk
    have hold := hm.others _ huser hne _ _
      ((h.directories.finds_iff hin huser).2 ⟨p * 4096, by rw [hpdx, htab], rfl, rfl⟩)
    obtain ⟨hpr', he'⟩ := hw.keeps h hdir hi hpr
    have hnew := hlost i hi hpr' (he'.trans he)
    rw [hold.table] at hnew
    -- the table is in the kernel heap, and `va` is not
    have heq : p * 4096 = va := TablePtr.heap.inj (Option.some.inj (ok_inj.1 hnew).1)
    have hheap := h.owned.heapPage p hpG
    unfold HeapPage at hheap
    unfold userTop at hva
    omega
  · obtain ⟨huser, hpdx, hne⟩ := otherPage_user (i := pdx va) (by have := pdx_user hva; omega) va
    obtain ⟨p, hpG, heq, hpr, he⟩ :=
      hw.mem.directories.table_some hin (by have := pdx_user hva; omega) hw.table
    obtain rfl : q = p := Nat.eq_of_mul_eq_mul_right (by decide) heq
    rcases hw.old with ⟨-, hus⟩ | ⟨-, hhead'⟩
    · exact hnp (hus ▸ hpr)
    · have hf : ppn (u.pde dir (pdx va)) = f := by
        rw [hhead'] at hhead
        rw [he]
        exact Option.some.inj hhead
      have hnew := hlost _ (by have := pdx_user hva; omega) hpr hf
      have hmissing : getPageTable dir (otherPage (pdx va) va) s = .ok none s :=
        getPageTable_zero (h.directories.reachDir hin)
          (h.directories.pde_zero dir hin _ (by rw [hpdx]; have := pdx_user hva; omega) (by rwa [hpdx]))
      rcases hm.absent _ huser hne hmissing with hnone | ⟨tbl, hfind⟩
      · rw [hnew] at hnone
        cases (ok_inj.1 hnone).1
      · have htbl := hfind.table
        rw [hnew] at htbl
        obtain rfl := Option.some.inj (ok_inj.1 htbl).1
        have hread := hfind.entry
        change readWord _ _ = _ at hread
        rw [readWord_unmapped] at hread
        · cases hread
        · have hlow := hw.kernelTable (otherPage_entry hva (pdx va))
          rw [hzero _ (otherPage_entry hva (pdx va))] at hlow
          unfold Kern.Mapped
          rw [hlow]
          exact not_present_zero

/-- The same page and frame again: the entry stays. -/
theorem MemOk.mapsFrame_same (h : MemOk lay G D dirs held s) (hdir : dir ∈ dirs.page)
    (hva : va < userTop) (hf : f < s.frames.numberOfFrames) (hp : present (s.leaf dir (ppn va)))
    (he : ppn (s.leaf dir (ppn va)) = f) (hc : CanEstablish dir f va perm s) :
    MapsFrame dir f va perm s s := by
  obtain ⟨hpdx, hlt⟩ := pdx_user hva
  obtain ⟨a, ha⟩ : ∃ a, s.table dir (pdx va) = some a := by
    cases ha : s.table dir (pdx va) with
    | some a => exact ⟨a, rfl⟩
    | none =>
      rw [leaf_of_none (hpdx ▸ ha)] at hp
      exact absurd hp not_present_zero
  have hfind := (h.directories.finds_iff (.inl hdir) hva).2 ⟨a, ha, rfl, rfl⟩
  refine ⟨⟨_, by rw [← hc.same hp he]; exact hfind⟩, ⟨.heap a, ?_⟩, fun _ _ _ _ _ h => h,
    fun _ _ _ h => .inl h⟩
  have hnull : (.heap a : TablePtr) ≠ .null := by
    obtain ⟨p, hpG, heq, -⟩ := h.directories.table_some (.inl hdir) (by omega) ha
    rw [heq]
    exact fun hn => (h.owned.reach hpG).1 (TablePtr.heap.inj hn)
  rw [hfind.getFrameInfo (present_ne_zero hp), if_neg hnull, he, if_neg (by omega)]

theorem MemOk.mapFrame_establishes (h : MemOk lay G D dirs held s) (hdir : dir ∈ dirs.page)
    (hva : va < userTop) (hf : f < s.frames.numberOfFrames) (hzero : ∀ p < 977920, s.kernelTable p = 0)
    (hk : Fos.mapFrame dir f va perm s = .ok () t) :
    MapsFrame dir f va perm s t ↔ CanEstablish dir f va perm s := by
  rcases h.mapFrame_cases hdir hva hk with ⟨hp, he, rfl⟩ | ⟨hnot, G', u, q, fr, hw, rfl⟩
  · exact ⟨h.canEstablish_same hdir hva hp he, h.mapsFrame_same hdir hva hf hp he⟩
  · exact ⟨hw.canEstablish h hdir hva hnot hzero, hw.mapsFrame h hdir hva hf⟩

/-- **When `map_frame` establishes its mapping.** In every state of a run from boot, for every page
directory, every user address, every frame and every permission word. -/
theorem mapFrame_establishes_iff {c : BootConfig} {s₀ : Kern} {st : KHeapPlacementStrategy}
    {s : FrameState} (hboot : fosInitialize (initializePaging c) = .ok () s₀)
    (hrun : ReflTransGen (FrameStep c) ⟨setStrategy st s₀, [.boot], ∅, ∅⟩ s) (hdir : dir ∈ s.dirs)
    (hf : f < s.kern.frames.numberOfFrames) (hva : va < userTop)
    (hk : mapFrame dir f va perm s.kern = .ok () t) :
    MapsFrame dir f va perm s.kern t ↔ CanEstablish dir f va perm s.kern := by
  obtain ⟨G, hok, -, hzero⟩ := frameInv_run hboot hrun
  exact hok.mapFrame_establishes hdir hva hf hzero hk

end

/-! ## A frame mapped twice -/

theorem oneFrame_canEstablish : CanEstablish .boot 1019 userHeapStart permUser oneFrame.kern := by
  have hleaf : oneFrame.kern.leaf .boot (ppn userHeapStart) = 0 :=
    leaf_of_none (if_neg (by decide +kernel))
  refine ⟨fun hp => ?_, by decide, ?_, fun _ => by decide +kernel⟩
  · rw [hleaf] at hp
    exact absurd hp not_present_zero
  · have hboot : ∀ i < 955, ¬ present (oneFrame.kern.pde .boot i) := by decide +kernel
    exact fun i hi hp => absurd hp (hboot i hi)

theorem mapFrame_establishes_first :
    MapsFrame .boot 1019 userHeapStart permUser oneFrame.kern oneMapped :=
  (mapFrame_establishes_iff smallBoot_ok (.single oneFrame_step) List.mem_cons_self
    (by decide +kernel) (by decide) mapFrame_oneFrame).2 oneFrame_canEstablish

/-- Mapping the frame again, now writable, leaves the page read-only. -/
theorem mapFrame_keepsPermissions : ∃ (s : FrameState) (t : Kern),
    ReflTransGen (FrameStep smallMachine) ⟨setStrategy .firstFit smallBoot, [.boot], ∅, ∅⟩ s ∧
    .boot ∈ s.dirs ∧ 1019 < s.kern.frames.numberOfFrames ∧ 1019 ∈ s.obtained ∧
    mapFrame .boot 1019 userHeapStart (permUser ||| permWriteable) s.kern = .ok () t ∧
    ¬ MapsFrame .boot 1019 userHeapStart (permUser ||| permWriteable) s.kern t := by
  obtain ⟨G, hok, -, hzero⟩ := oneFrame_inv
  have hva : userHeapStart < userTop := by decide
  have hcount := oneFrame_inv.mapFrame_count List.mem_cons_self rfl (.inl hva) (by decide)
    (by decide +kernel) mapFrame_oneFrame
  have hrun := ReflTransGen.tail (.single oneFrame_step)
    (FrameStep.mapFrame List.mem_cons_self rfl (.inl hva) (by decide) mapFrame_oneFrame hcount)
  have hmaps := (hok.mapFrame_establishes List.mem_cons_self hva (by decide +kernel) hzero
    mapFrame_oneFrame).2 oneFrame_canEstablish
  obtain ⟨tbl, hfind⟩ := hmaps.entry
  refine ⟨_, _, hrun, List.mem_cons_self, by decide +kernel, ⟨rfl, by decide +kernel⟩,
    hfind.mapFrame_same (f := 1019) (by decide) (by decide) _, fun hc => ?_⟩
  obtain ⟨tbl', hfind'⟩ := hc.entry
  exact absurd (hfind.unique hfind').2 (by decide)

end Fos
