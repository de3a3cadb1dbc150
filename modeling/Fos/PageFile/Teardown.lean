import Fos.PageFile.Slots
import Fos.PageTables.HeapBlocks

/-!
# Giving pages of the file back

`pf_remove_env_page` and the loops of `pf_free_env`. An entry is cleared and its disk frame goes
back to the free list; a cleared table goes back to the kernel heap, and at last the directory.
-/

namespace Fos

open Function (update)
open Prog (bind_eq_ok ok_inj Keeps)
open SlotPool (Exact)

/-- The slots in `X` were cleared, and no other. -/
structure ClearsSlots (X : Set (Nat × Nat)) (s t : Kern) : Prop where
  cleared : ∀ x ∈ X, t.diskSlot x = 0
  other : ∀ x, x ∉ X → t.diskSlot x = s.diskSlot x
  words : t.disk.words = s.disk.words

section

variable {lay : Layout} {G G' D : Set Nat} {dirs : Roots} {pages : List DirPtr} {held : Set Nat}
  {s s' t u : Kern} {dir : DirPtr} {a d e i n p va : Nat} {X Y : Set (Nat × Nat)}

theorem ClearsSlots.empty (hslot : t.diskSlot = s.diskSlot) (hwords : t.disk.words = s.disk.words)
    (hX : ∀ x ∈ X, s.diskSlot x = 0) : ClearsSlots X s t := by
  refine ⟨fun x hx => ?_, fun x _ => by rw [hslot], hwords⟩
  rw [hslot]
  exact hX x hx

theorem ClearsSlots.trans (h : ClearsSlots X s t) (h' : ClearsSlots Y t u) :
    ClearsSlots (X ∪ Y) s u := by
  refine ⟨?_, fun x hx => ?_, h'.words.trans h.words⟩
  · rintro x (hx | hx)
    · by_cases hy : x ∈ Y
      · exact h'.cleared x hy
      · rw [h'.other x hy]
        exact h.cleared x hx
    · exact h'.cleared x hx
  · rw [h'.other x fun hy => hx (.inr hy), h.other x fun hy => hx (.inl hy)]

theorem ClearsSlots.of_update {x : Nat × Nat} (hslot : t.diskSlot = update s.diskSlot x 0)
    (hwords : t.disk.words = s.disk.words) : ClearsSlots {x} s t := by
  refine ⟨?_, fun y hy => ?_, hwords⟩
  · rintro y rfl
    rw [hslot, Function.update_self]
  · rw [hslot, Function.update_of_ne hy]

/-! ## One entry -/

/-- The disk after the frame of an entry went back. -/
def Disk.give (d : Disk) (dfn : Nat) : Disk :=
  if dfn = 0 then d else { d with diskFreeFrameList := dfn :: d.diskFreeFrameList }

theorem freeDiskFrame_run (dfn : Nat) (s : Kern) :
    freeDiskFrame dfn s = .ok () (s.setDisk (s.disk.give dfn)) := by
  unfold freeDiskFrame Disk.give
  rw [Prog.ite_run]
  split <;> rfl

@[simp] theorem give_words (d : Disk) (dfn : Nat) : (d.give dfn).words = d.words := by
  unfold Disk.give
  split <;> rfl

/-- What clearing the entry of a page leaves: its disk frame is free and its slot is empty. -/
theorem FileOk.clearEntry (h : FileOk lay G D dirs held s) (hd : (s.envs e).diskEnvPgdir ≠ 0)
    (he : DiskEntry dirs s (.heap (s.envs e).diskEnvPgdir) p a) :
    readWord (a + 4 * (p % 1024)) s = .ok (s.diskSlot (e, p)) s ∧
    writeWord (a + 4 * (p % 1024)) 0 s = .ok () (s.setEntry (.heap a, p % 1024) 0) ∧
    ∃ t, freeDiskFrame (s.diskSlot (e, p)) (s.setEntry (.heap a, p % 1024) 0) = .ok () t ∧
      FileOk lay G D dirs held t ∧ FileOnly dirs.page D held s t ∧ ClearsSlots {(e, p)} s t ∧
      t.envs = s.envs ∧ ∀ dir ∈ dirs, ∀ i < 955, t.table dir i = s.table dir i := by
  have hp := he.page
  refine ⟨?_, he.write h.mem.directories 0, _, freeDiskFrame_run _ _, ?_⟩
  · rw [diskSlot_eq hd hp]
    exact he.read h.mem.directories
  · set d' := s.disk.give (s.diskSlot (e, p)) with hd'
    have hex : Exact diskPool (update s.diskSlot (e, p) 0) d'.diskFreeFrameList := by
      rw [hd']
      unfold Disk.give
      split
      case isTrue h0 => exact h.exact.clear h0
      case isFalse h0 => exact h.exact.give h0
    obtain ⟨hok, hf, hslot⟩ := h.write hd he 0 d' hex
    refine ⟨hok, hf, .of_update hslot (give_words _ _), rfl, fun dir hdir i hi => ?_⟩
    exact h.mem.directories.setTable_table (.inr he.mem) (by omega) he.table _ 0 hdir hi

/-- **`pf_remove_env_page`.** -/
theorem FileInv.pfRemoveEnvPage (h : FileInv lay D pages held s) (hva : va < userTop)
    (hk : Fos.pfRemoveEnvPage e va s = .ok () t) :
    FileInv lay D pages held t ∧ FileOnly pages D held s t ∧ ClearsSlots {(e, ppn va)} s t := by
  obtain ⟨G, dirs, rfl, h⟩ := h
  obtain ⟨hpdx, hlt⟩ := pdx_user hva
  rw [Fos.pfRemoveEnvPage, Prog.get_bind_apply, Prog.ite_run] at hk
  split at hk
  case isTrue h0 =>
    obtain ⟨-, rfl⟩ := ok_inj.1 hk
    refine ⟨⟨G, dirs, rfl, h⟩, .refl _ _ _ _, .empty rfl rfl ?_⟩
    rintro x rfl
    exact diskSlot_none h0
  case isFalse hd =>
    rw [Prog.get_bind_apply,
      Prog.bind_of_ok (getDiskPageTable_find h.mem.directories (h.dir e hd) hva),
      Prog.ite_run] at hk
    -- the table is found or there is none; none is made here
    cases ha : s.table (.heap (s.envs e).diskEnvPgdir) (pdx va) with
    | none =>
      rw [ha, Option.getD_none, if_pos rfl] at hk
      obtain ⟨-, rfl⟩ := ok_inj.1 hk
      refine ⟨⟨G, dirs, rfl, h⟩, .refl _ _ _ _, .empty rfl rfl ?_⟩
      rintro x rfl
      rw [diskSlot_eq hd hlt]
      exact leaf_of_none (by rw [← hpdx]; exact ha)
    | some a =>
      have he : DiskEntry dirs s (.heap (s.envs e).diskEnvPgdir) (ppn va) a :=
        ⟨h.dir e hd, hlt, by rw [← hpdx]; exact ha⟩
      obtain ⟨hread, hwrite, t', hfree, hok, hf, hclear, -⟩ := h.clearEntry hd he
      rw [ha, Option.getD_some, if_neg (he.ne_zero h.mem.directories),
        show ptx va = ppn va % 1024 from rfl, Prog.bind_of_ok hread, Prog.bind_of_ok hwrite,
        hfree] at hk
      obtain ⟨-, rfl⟩ := ok_inj.1 hk
      exact ⟨⟨G, dirs, rfl, hok⟩, hf, hclear⟩

/-! ## One table -/

/-- The pages of entries `j` to `j + n - 1` of table `i`. -/
def tablePages (e i j n : Nat) : Set (Nat × Nat) :=
  {x | x.1 = e ∧ i * 1024 + j ≤ x.2 ∧ x.2 < i * 1024 + j + n}

theorem mem_tablePages {e' q j : Nat} : (e', q) ∈ tablePages e i j n ↔
    e' = e ∧ i * 1024 + j ≤ q ∧ q < i * 1024 + j + n := Iff.rfl

/-- The loop over the entries of a table. -/
theorem FileOk.freeDiskTable (hi : i < 955) (hj : p + n ≤ 1024) (h : FileOk lay G D dirs held s)
    (hd : (s.envs e).diskEnvPgdir ≠ 0) (ha : s.table (.heap (s.envs e).diskEnvPgdir) i = some a) :
    ∃ t, Fos.freeDiskTable a p n s = .ok () t ∧ FileOk lay G D dirs held t ∧
      FileOnly dirs.page D held s t ∧ ClearsSlots (tablePages e i p n) s t ∧ t.envs = s.envs ∧
      ∀ dir ∈ dirs, ∀ k < 955, t.table dir k = s.table dir k := by
  induction n generalizing p s with
  | zero =>
    refine ⟨s, rfl, h, .refl _ _ _ _, .empty rfl rfl ?_, rfl, fun _ _ _ _ => rfl⟩
    rintro x ⟨-, h1, h2⟩
    omega
  | succ n ih =>
    have hdiv : (i * 1024 + p) / 1024 = i := by omega
    have hmod : (i * 1024 + p) % 1024 = p := by omega
    have he : DiskEntry dirs s (.heap (s.envs e).diskEnvPgdir) (i * 1024 + p) a :=
      ⟨h.dir e hd, by omega, by rw [hdiv]; exact ha⟩
    -- one entry is cleared and its disk frame given back, then the rest of the table
    obtain ⟨hread, hwrite, t₁, hfree, hok, hf, hclear, henv, htab⟩ := h.clearEntry hd he
    rw [hmod] at hread hwrite hfree
    have ha₁ : t₁.table (.heap (t₁.envs e).diskEnvPgdir) i = some a := by
      rw [henv, htab _ (.inr (h.dir e hd)) i hi]
      exact ha
    obtain ⟨t, hrun, hok', hf', hclear', henv', htab'⟩ :=
      ih (p := p + 1) (by omega) hok (by rw [henv]; exact hd) ha₁
    refine ⟨t, ?_, hok', hf.trans hf', ?_, henv'.trans henv, fun dir hdir k hk => ?_⟩
    · rw [Fos.freeDiskTable, Prog.bind_of_ok hread, Prog.bind_of_ok hwrite, Prog.bind_of_ok hfree]
      exact hrun
    · have hsplit : tablePages e i p (n + 1) = {(e, i * 1024 + p)} ∪ tablePages e i (p + 1) n := by
        ext ⟨e', q⟩
        rw [Set.mem_union, mem_tablePages, mem_tablePages, Set.mem_singleton_iff, Prod.mk.injEq]
        by_cases he : e' = e
        · simp only [he, true_and]
          omega
        · simp only [he, false_and, or_self]
      rw [hsplit]
      exact hclear.trans hclear'
    · rw [htab' dir hdir k hk, htab dir hdir k hk]

/-! ## The directory -/

theorem SameRest.fileOnly (hr : SameRest dirs s t) (hs : Still pages D held s t) :
    FileOnly pages D held s t := by
  refine ⟨hs, hr.shares, fun e => ?_⟩
  rw [hr.envs]

theorem SameRest.diskSlot (hr : SameRest dirs s t) (h : FileOk lay G D dirs held s) :
    t.diskSlot = s.diskSlot :=
  diskSlot_congr (fun e => by rw [hr.envs]) fun e hd p hp => hr.diskLeaf _ (h.dir e hd) p hp

/-- The tables that the entries `I` of a disk directory named are given back, and nothing is
taken. -/
structure GivesBack (d : Nat) (I : Set Nat) (s t : Kern) : Prop where
  taken : ∀ b ∈ t.heap.blockInfoTakenList, b ∈ s.heap.blockInfoTakenList
  table : ∀ k < 955, k ∉ I → t.table (.heap d) k = s.table (.heap d) k
  freed : s.heap.StartsApart → ∀ k ∈ I, ∀ a, s.table (.heap d) k = some a →
    ∀ b ∈ t.heap.blockInfoTakenList, a / 4096 ∉ b.pages

theorem GivesBack.refl (d : Nat) (s : Kern) : GivesBack d ∅ s s :=
  ⟨fun _ hb => hb, fun _ _ _ => rfl, fun _ _ hk => absurd hk id⟩

theorem GivesBack.trans {I J : Set Nat} (h : GivesBack d I s t) (h' : GivesBack d J t u)
    (hJ : ∀ k ∈ J, k < 955 ∧ k ∉ I) : GivesBack d (I ∪ J) s u := by
  refine ⟨fun b hb => h.taken b (h'.taken b hb), fun k hk hne => ?_, fun hs k hk a ha b hb => ?_⟩
  · rw [Set.mem_union, not_or] at hne
    rw [h'.table k hk hne.2, h.table k hk hne.1]
  · rcases hk with hk | hk
    · exact h.freed hs k hk a ha b (h'.taken b hb)
    · have hst : t.heap.StartsApart := fun b hb c hc => hs b (h.taken b hb) c (h.taken c hc)
      refine h'.freed hst k hk a ?_ b hb
      rw [h.table k (hJ k hk).1 (hJ k hk).2]
      exact ha

theorem freeDiskTable_heap (pt j n : Nat) : Keeps Kern.heap (freeDiskTable pt j n) := by
  induction n generalizing j with
  | zero => exact .pure _
  | succ n ih =>
    have hwrite : Keeps Kern.heap (writeWord (pt + 4 * j) 0) := fun _ _ _ hk =>
      (bookkeeping_eq (writeWord_keeps _ _ _ _ _ hk)).1
    refine .bind (readWord_keeps _) fun dfn => .bind hwrite fun _ => .bind ?_ fun _ => ih (j + 1)
    intro s _ t hk
    rw [freeDiskFrame_run] at hk
    obtain ⟨-, rfl⟩ := ok_inj.1 hk
    rfl

/-- One round of the loop over the directory, at an entry that names a table. -/
theorem FileOk.freeOneTable (hi : i < 955) (h : FileOk lay G D dirs held s)
    (hd : (s.envs e).diskEnvPgdir ≠ 0) (ha : s.table (.heap (s.envs e).diskEnvPgdir) i = some a)
    (hk : (do
      Fos.freeDiskTable a 0 1024
      writeWord ((s.envs e).diskEnvPgdir + 4 * i) 0
      kfree a) s = .ok () t) :
    ∃ G', FileOk lay G' D dirs held t ∧ FileOnly dirs.page D held s t ∧
      ClearsSlots (tablePages e i 0 1024) s t ∧ t.envs = s.envs ∧
      GivesBack (s.envs e).diskEnvPgdir {i} s t := by
  have hdir := h.dir e hd
  obtain ⟨p, hp, rfl, -⟩ := h.mem.directories.table_some (.inr hdir) hi ha
  obtain ⟨t₁, hrun, hok, hf, hclear, henv, htab⟩ :=
    h.freeDiskTable hi (p := 0) (n := 1024) (by omega) hd ha
  have hwrite : writeWord ((s.envs e).diskEnvPgdir + 4 * i) 0 t₁ =
      .ok () (t₁.setPde (.heap (s.envs e).diskEnvPgdir) i 0) :=
    writePde_reach (hok.mem.directories.reachDir (.inr hdir)) (by omega)
  rw [Prog.bind_of_ok hrun, Prog.bind_of_ok hwrite] at hk
  have ha₁ : t₁.table (.heap (s.envs e).diskEnvPgdir) i = some (p * 4096) := by
    rw [htab _ (.inr hdir) i hi]
    exact ha
  have hempty : EmptyTable dirs t₁ (.heap (s.envs e).diskEnvPgdir) i p := by
    refine ⟨.inr hdir, hi, ha₁, fun j hj => ?_⟩
    -- the loop cleared the slot of every page of the table
    have h0 : t₁.diskSlot (e, i * 1024 + j) = 0 :=
      hclear.cleared _ ⟨rfl, by dsimp only; omega, by dsimp only; omega⟩
    rw [diskSlot_eq (by rw [henv]; exact hd) (by omega), henv] at h0
    have hdiv : (i * 1024 + j) / 1024 = i := by omega
    rw [leaf_of_some (t := p * 4096) (by rw [hdiv]; exact ha₁),
      show (i * 1024 + j) % 1024 = j by omega] at h0
    exact h0
  obtain ⟨hmem, hfrees, htab₁⟩ := hok.mem.freeUnlinked hempty hk
  have hrest := hfrees.toSameRest
  have hheap : t₁.heap = s.heap := freeDiskTable_heap _ _ _ _ _ _ hrun
  have hp0 : (0 : Nat) ≠ p := by
    rintro rfl
    exact not_heapPage_zero (h.mem.owned.heapPage 0 hp)
  refine ⟨G \ {p}, hok.congr hmem rfl hrest (hfrees.kernelTable 0 hp0),
    hf.trans (hrest.fileOnly hfrees.toStill), ?_,
    hrest.envs.trans henv, fun b hb => hheap ▸ hfrees.sub b hb, fun k hk hne => ?_, ?_⟩
  rotate_left
  · rw [htab₁ _ (.inr hdir) k hk, if_neg fun hc => hne hc.2]
    exact htab _ (.inr hdir) k hk
  · -- the block of the table is the one that `kfree` finds
    rintro hs k rfl a ha' b hb hpb
    rw [ha] at ha'
    obtain rfl := Option.some.inj ha'
    rw [Nat.mul_div_cancel p (by omega)] at hpb
    obtain ⟨c, hc, hstart, hsize⟩ := hok.mem.blocks p hp
    have hpc : p ∈ c.pages := by
      rw [(hok.mem.heap.wf c hc).pages_one hstart hsize]
      exact rfl
    have hzero := hfrees.cleared (by rw [hheap]; exact hs) p rfl ⟨c, hc, hstart, hpc⟩
    have hpr := (hmem.heap.present_iff p (h.mem.owned.heapPage p hp)).2 ⟨b, hb, hpb⟩
    rw [hzero] at hpr
    exact not_present_zero hpr
  have hlast : ClearsSlots ∅ t₁ t :=
    .empty (hrest.diskSlot hok) (by rw [hrest.disk]) fun x hx => absurd hx id
  rw [← Set.union_empty (tablePages e i 0 1024)]
  exact hclear.trans hlast

/-- The pages under entries `i` to `i + n - 1` of the directory. -/
def directoryPages (e i n : Nat) : Set (Nat × Nat) :=
  {x | x.1 = e ∧ i * 1024 ≤ x.2 ∧ x.2 < (i + n) * 1024}

theorem mem_directoryPages {e' q : Nat} : (e', q) ∈ directoryPages e i n ↔
    e' = e ∧ i * 1024 ≤ q ∧ q < (i + n) * 1024 := Iff.rfl

theorem directoryPages_succ (e i n : Nat) :
    directoryPages e i (n + 1) = tablePages e i 0 1024 ∪ directoryPages e (i + 1) n := by
  ext ⟨e', q⟩
  rw [Set.mem_union, mem_directoryPages, mem_directoryPages, mem_tablePages]
  by_cases he : e' = e
  · simp only [he, true_and]
    omega
  · simp only [he, false_and, or_self]

/-- The loop over the directory. -/
theorem FileOk.freeDiskTables (hn : i + n ≤ 955) (h : FileOk lay G D dirs held s)
    (hd : (s.envs e).diskEnvPgdir ≠ 0) (hk : Fos.freeDiskTables e i n s = .ok () t) :
    ∃ G', FileOk lay G' D dirs held t ∧ FileOnly dirs.page D held s t ∧
      ClearsSlots (directoryPages e i n) s t ∧ t.envs = s.envs ∧
      GivesBack (s.envs e).diskEnvPgdir {k | i ≤ k ∧ k < i + n} s t := by
  induction n generalizing i G s with
  | zero =>
    obtain ⟨-, rfl⟩ := ok_inj.1 hk
    have hnone : {k | i ≤ k ∧ k < i + 0} = ∅ := by
      ext k
      simp only [Set.mem_ofPred_eq, Set.mem_empty_iff_false, iff_false]
      omega
    rw [hnone]
    refine ⟨G, h, .refl _ _ _ _, .empty rfl rfl ?_, rfl, .refl _ _⟩
    rintro x ⟨-, h1, h2⟩
    omega
  | succ n ih =>
    have hread : readWord ((s.envs e).diskEnvPgdir + 4 * i) s =
        .ok (s.pde (.heap (s.envs e).diskEnvPgdir) i) s :=
      readPde_reach (h.mem.directories.reachDir (.inr (h.dir e hd))) (by omega)
    rw [Fos.freeDiskTables, Prog.get_bind_apply, Prog.bind_of_ok hread] at hk
    obtain ⟨_, s₁, h₁, hk⟩ := bind_eq_ok.1 hk
    -- one round: a table that exists is emptied and freed, one that does not is passed over
    have hround : ∃ G₁, FileOk lay G₁ D dirs held s₁ ∧ FileOnly dirs.page D held s s₁ ∧
        ClearsSlots (tablePages e i 0 1024) s s₁ ∧ s₁.envs = s.envs ∧
        GivesBack (s.envs e).diskEnvPgdir {i} s s₁ := by
      rw [Prog.ite_run] at h₁
      split at h₁
      case isTrue hpr =>
        have ha : s.table (.heap (s.envs e).diskEnvPgdir) i = some (kheapVirtualAddress s
            (extractAddress (s.pde (.heap (s.envs e).diskEnvPgdir) i))) := if_pos hpr
        exact h.freeOneTable (by omega) hd ha h₁
      case isFalse hnp =>
        obtain ⟨-, rfl⟩ := ok_inj.1 h₁
        have hnone : s.table (.heap (s.envs e).diskEnvPgdir) i = none := if_neg hnp
        refine ⟨G, h, .refl _ _ _ _, .empty rfl rfl ?_, rfl, fun _ hb => hb, fun _ _ _ => rfl, ?_⟩
        rotate_left
        · rintro - k rfl a ha
          rw [hnone] at ha
          cases ha
        rintro ⟨e', q⟩ ⟨rfl, h1, h2⟩
        dsimp only at h1 h2
        rw [diskSlot_eq hd (by omega)]
        refine leaf_of_none ?_
        rw [show q / 1024 = i by omega]
        exact hnone
    obtain ⟨G₁, hok₁, hf₁, hclear₁, henv₁, hback₁⟩ := hround
    obtain ⟨G', hok, hf, hclear, henv, hback⟩ :=
      ih (by omega) hok₁ (by rw [henv₁]; exact hd) hk
    have hsplit : {k | i ≤ k ∧ k < i + (n + 1)} = {i} ∪ {k | i + 1 ≤ k ∧ k < i + 1 + n} := by
      ext k
      simp only [Set.mem_ofPred_eq, Set.mem_union, Set.mem_singleton_iff]
      omega
    refine ⟨G', hok, hf₁.trans hf, ?_, henv.trans henv₁, ?_⟩
    · rw [directoryPages_succ]
      exact hclear₁.trans hclear
    · rw [henv₁] at hback
      rw [hsplit]
      refine hback₁.trans hback fun k hk => ⟨by have := hk.2; omega, fun hc => ?_⟩
      have h1 : k = i := hc
      have h2 := hk.1
      omega

/-- The slots of an environment. -/
def slotsOf (e : Nat) : Set (Nat × Nat) := {x | x.1 = e}

/-- **`pf_free_env`.** -/
theorem FileInv.pfFreeEnv (h : FileInv lay D pages held s) (hd : (s.envs e).diskEnvPgdir ≠ 0)
    (hk : Fos.pfFreeEnv e s = .ok () t) :
    FileInv lay D pages held t ∧ FileOnly pages D held s t ∧ ClearsSlots (slotsOf e) s t := by
  obtain ⟨G, dirs, rfl, h⟩ := h
  rw [Fos.pfFreeEnv, show pdx userTop = 955 by rfl] at hk
  obtain ⟨_, s₁, h₁, hk⟩ := bind_eq_ok.1 hk
  obtain ⟨G₁, hok₁, hf₁, hclear, henv, -⟩ := h.freeDiskTables (by omega) hd h₁
  rw [Prog.get_bind_apply, henv] at hk
  obtain ⟨_, s₂, h₂, hk⟩ := bind_eq_ok.1 hk
  obtain ⟨-, rfl⟩ := ok_inj.1 hk
  have hdir := h.dir e hd
  have hdir₁ : .heap (s.envs e).diskEnvPgdir ∈ dirs.disk := hdir
  obtain ⟨p, hp, hpd⟩ := hok₁.mem.directories.dir _ (.inr hdir)
  rw [hpd] at h₂ hdir₁
  -- the page of the directory is given up, and then its block
  have hdrop := hok₁.mem.dropDisk hdir₁
  have hnotUse : ¬ InUse (dirs.dropDisk (.heap (p * 4096))).page D held s₁ (s₁.kframe p) := by
    intro hu
    refine (hok₁.mem.inUse hu).2 p hp (fun hpD => ?_) rfl
    have hne := (hok₁.mem.data p hpD).2.dir _ (.inr hdir₁)
    rw [kframe_page] at hne
    exact hne rfl
  obtain ⟨hmem, hfrees, -⟩ := hdrop.kfreePage (fun hc => hc.2 rfl)
    (fun b hb hstart => hok₁.mem.block_page hp hb hstart) hnotUse h₂
  have hstill := hfrees.toStill
  have hrest := hfrees.toSameRest
  have hkt := hfrees.kernelTable
  have henvs : ∀ e', ((s₂.setEnv e { s₂.envs e with diskEnvPgdir := 0 }).envs e').diskEnvPgdir =
      if e' = e then 0 else (s₁.envs e').diskEnvPgdir := by
    intro e'
    show (update s₂.envs e _ e').diskEnvPgdir = _
    by_cases he : e' = e
    · rw [he, Function.update_self, if_pos rfl]
    · rw [Function.update_of_ne he, if_neg he, hrest.envs]
  have hother : ∀ e', e' ≠ e → (s₁.envs e').diskEnvPgdir ≠ 0 →
      .heap (s₁.envs e').diskEnvPgdir ∈ (dirs.dropDisk (.heap (p * 4096))).disk := by
    intro e' he hne
    refine List.mem_filter.2 ⟨hok₁.dir e' hne, decide_eq_true fun hc => he ?_⟩
    refine hok₁.inj e' e hne ?_
    rw [DirPtr.heap.inj hc, henv, hpd]
  have hslot : (s₂.setEnv e { s₂.envs e with diskEnvPgdir := 0 }).diskSlot = s₁.diskSlot := by
    funext ⟨e', q⟩
    by_cases he : e' = e
    · rw [diskSlot_none (by rw [henvs, if_pos he])]
      by_cases hq : q < 977920
      · exact (hclear.cleared (e', q) ⟨he, by dsimp only; omega, by dsimp only; omega⟩).symm
      · exact (if_neg fun hc => hq hc.2).symm
    · unfold Kern.diskSlot
      dsimp only
      rw [henvs, if_neg he]
      split
      case isTrue hc => exact hrest.diskLeaf _ (hother e' he hc.1) q hc.2
      case isFalse => rfl
  have hp0 : (0 : Nat) ≠ p := by
    rintro rfl
    exact not_heapPage_zero (hok₁.mem.owned.heapPage 0 hp)
  refine ⟨⟨_, dirs.dropDisk (.heap (p * 4096)), rfl, hmem.setEnv e _, ?_, ?_, ?_, ?_⟩, ?_, ?_⟩
  · intro e' he'
    rw [henvs] at he' ⊢
    by_cases he : e' = e
    · rw [if_pos he] at he'
      exact absurd rfl he'
    · rw [if_neg he] at he' ⊢
      exact hother e' he he'
  · intro e₁ e₂ h1 h2
    rw [henvs e₁] at h1 h2
    rw [henvs e₂] at h2
    by_cases he₁ : e₁ = e
    · rw [if_pos he₁] at h1
      exact absurd rfl h1
    · rw [if_neg he₁] at h1 h2
      by_cases he₂ : e₂ = e
      · rw [if_pos he₂] at h2
        exact absurd h2 h1
      · rw [if_neg he₂] at h2
        exact hok₁.inj e₁ e₂ h1 h2
  · show ¬ present (s₂.kernelTable 0)
    rw [hkt 0 hp0]
    exact hok₁.low
  · rw [hslot]
    show Exact _ _ s₂.disk.diskFreeFrameList
    rw [hrest.disk]
    exact hok₁.exact
  · refine hf₁.trans ⟨⟨⟨hstill.data, hstill.offHeap, hstill.kernelDirectory, hstill.numberOfFrames,
      hstill.strategy,
      hstill.static⟩, hstill.leaf, hstill.ram, hstill.info⟩, hrest.shares, fun e' => ?_⟩
    show update s₂.envs e { s₂.envs e with diskEnvPgdir := 0 } e' = { s₁.envs e' with
      diskEnvPgdir := (update s₂.envs e { s₂.envs e with diskEnvPgdir := 0 } e').diskEnvPgdir }
    by_cases he : e' = e
    · rw [he, Function.update_self, hrest.envs]
    · rw [Function.update_of_ne he, hrest.envs]
  · refine ⟨fun x hx => ?_, fun x hx => ?_, ?_⟩
    · rw [hslot]
      by_cases hq : x.2 < 977920
      · exact hclear.cleared x ⟨hx, by omega, by omega⟩
      · exact if_neg fun hc => hq hc.2
    · rw [hslot]
      exact hclear.other x fun hc => hx hc.1
    · show s₂.disk.words = s.disk.words
      rw [hrest.disk]
      exact hclear.words

/-- A page of the heap that was given back maps nothing and lies in no block in use. -/
structure Released (s : Kern) (p : Nat) : Prop where
  unmapped : s.kernelTable p = 0
  apart : ∀ b ∈ s.heap.blockInfoTakenList, p ∉ b.pages

/-- **`pf_free_env` gives the disk tables back.** -/
theorem FileInv.pfFreeEnv_releases (h : FileInv lay D pages held s)
    (hd : (s.envs e).diskEnvPgdir ≠ 0) (hs : s.heap.StartsApart) (hi : i < 955)
    (ha : s.table (.heap (s.envs e).diskEnvPgdir) i = some a) (hk : Fos.pfFreeEnv e s = .ok () t) :
    Released t (a / 4096) := by
  obtain ⟨⟨G', dirs', -, hok⟩, -⟩ := h.pfFreeEnv hd hk
  obtain ⟨G, dirs, rfl, h⟩ := h
  rw [Fos.pfFreeEnv, show pdx userTop = 955 by rfl] at hk
  obtain ⟨_, s₁, h₁, hk⟩ := bind_eq_ok.1 hk
  obtain ⟨-, -, -, -, -, hback⟩ := h.freeDiskTables (by omega) hd h₁
  rw [Prog.get_bind_apply] at hk
  obtain ⟨_, s₂, h₂, hk⟩ := bind_eq_ok.1 hk
  obtain ⟨-, rfl⟩ := ok_inj.1 hk
  have hfreed : ∀ b ∈ s₂.heap.blockInfoTakenList, a / 4096 ∉ b.pages := fun b hb =>
    hback.freed hs i ⟨Nat.zero_le i, by omega⟩ a ha b (kfree_taken h₂ b hb)
  obtain ⟨p, hp, rfl, -⟩ := h.mem.directories.table_some (.inr (h.dir e hd)) hi ha
  rw [Nat.mul_div_cancel p (by omega)] at hfreed ⊢
  refine ⟨hok.mem.heap.zero p (h.mem.owned.heapPage p hp) ?_, hfreed⟩
  rintro ⟨b, hb, hpb⟩
  exact hfreed b hb hpb

end

end Fos
