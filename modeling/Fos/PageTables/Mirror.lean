import Fos.PageTables.Access
import Fos.PageTables.HeapBlocks

/-!
# The mirror of the working set

`initialize_environment` allocates the working set in the kernel heap and maps its pages a second
time, for the user to read. The frames behind them are no frames of page tables, so every count and
every other page stays as it was.
-/

namespace Fos

open Prog (bind_eq_ok ok_inj)

/-- The pages of `dir` from `q` to `q + n`, which were not mapped, map the frames of the kernel
pages from `p` on. -/
structure MirrorsPages (dirs : Roots) (dir : DirPtr) (p q n : Nat) (s t : Kern) : Prop
    extends Kept ∅ s t, SameRest dirs s t where
  leaf : ∀ dir' ∈ dirs.page, ∀ r < 977920, t.leaf dir' r =
    if dir' = dir ∧ q ≤ r ∧ r < q + n then entryOf (s.kframe (p + (r - q))) permUser else s.leaf dir' r
  taken : ∀ b ∈ t.heap.blockInfoTakenList, b ∈ s.heap.blockInfoTakenList ∨ 0 < b.size
  count : (∀ g, UserFrame dirs.page s g → s.references g < 65535) →
    ∀ g, UserFrame dirs.page t g → t.references g < 65535

/-- The working set of `n` elements is mapped for the user of `dir` to read. -/
structure MirrorsWorkingSet (dirs : Roots) (dir : DirPtr) (n : Nat) (s t : Kern) : Prop
    extends Kept ∅ s t, SameRest dirs s t where
  fits : workingSetPages n ≤ 40959
  mirror : ∀ q ∈ workingSetMirror n, q < 977920 ∧ present (t.leaf dir q)
  leaf : ∀ dir' ∈ dirs.page, ∀ q < 977920, (dir' = dir → q ∉ workingSetMirror n) →
    t.leaf dir' q = s.leaf dir' q
  taken : ∀ b ∈ t.heap.blockInfoTakenList, b ∈ s.heap.blockInfoTakenList ∨ 0 < b.size
  count : (∀ g, UserFrame dirs.page s g → s.references g < 65535) →
    ∀ g, UserFrame dirs.page t g → t.references g < 65535

section

variable {lay : Layout} {G R : Set Nat} {dirs : Roots} {held : Set Nat} {s s' t : Kern}
  {dir : DirPtr} {f p q n : Nat}

/-! ## New frames -/

/-- The frame of a page that is not owned may be mapped once more. -/
theorem Accounted.usable (h : Accounted lay (G ∪ R) dirs held s)
    (hnot : ∀ p ∈ R, p ∉ G) (hp : p ∈ R) : Usable lay G s (s.kframe p) := by
  have hm := h.mapping_owned (.inr hp)
  refine ⟨h.counted.inPool _ _ hm, h.counted.notFree hm, fun q hq he => ?_⟩
  have heq := h.directories.owned.kframe_inj (.inr hp) (.inl hq) he
  exact hnot p hp (heq ▸ hq)

/-- One entry maps it. -/
theorem Accounted.references_owned (h : Accounted lay G dirs held s) (hp : p ∈ G)
    (hlost : lay.lost (s.kframe p) = 0) : s.references (s.kframe p) = 1 := by
  have hm := h.mapping_owned hp
  have hone : RefPool.pointing (s.mapping (liveSlots lay dirs s)) (s.kframe p) = {bootSlot p} := by
    ext x
    exact ⟨fun hx => h.unshared p hp x hx, fun hx => by rw [Set.mem_singleton_iff.1 hx]; exact hm⟩
  have hcount := h.counted.count _ (h.counted.inPool _ _ hm)
  rw [hone, Set.ncard_singleton, hlost] at hcount
  exact hcount

/-! ## The loop -/

/-- The `n` pages of `dir` from `q` on are not mapped, and the kernel pages from `p` on have frames
of their own, which back no page of the structures of paging. -/
structure Mirrorable (lay : Layout) (G : Set Nat) (dir : DirPtr) (p q n : Nat)
    (s : Kern) : Prop where
  user : q + n ≤ 977920
  unmapped : ∀ i < n, s.leaf dir (q + i) = 0
  heap : ∀ i < n, HeapPage (p + i)
  mapped : ∀ i < n, present (s.kernelTable (p + i))
  usable : ∀ i < n, Usable lay G s (s.kframe (p + i))
  once : ∀ i < n, s.references (s.kframe (p + i)) = 1
  apart : ∀ i < n, ∀ j < n, s.kframe (p + i) = s.kframe (p + j) → i = j

/-- The kernel heap has 40959 pages. -/
theorem Mirrorable.length (h : Mirrorable lay G dir p q n s) : n ≤ 40959 := by
  by_contra hn
  have hfirst := h.heap 0 (by omega)
  have hlast := h.heap 40959 (by omega)
  unfold HeapPage at hfirst hlast
  omega

/-- The first page is done. -/
theorem Mirrorable.tail {G' : Set Nat} (h : Mirrorable lay G dir p q (n + 1) s)
    (hdir : dir ∈ dirs.page) (hm : MapsUser dirs ∅ ∅ dir q (s.kframe p) (q * 4096) permUser s t)
    (huse : ∀ g, Usable lay G s g → Usable lay G' t g) :
    Mirrorable lay G' dir (p + 1) (q + 1) n t ∧
    ∀ i < n, t.kframe (p + 1 + i) = s.kframe (p + 1 + i) := by
  -- a user page is mapped, which leaves the heap's own entries alone
  have hnext : ∀ i < n, t.kernelTable (p + 1 + i) = s.kernelTable (p + 1 + i) := by
    intro i hi
    have hpr := h.mapped (i + 1) (by omega)
    rw [show p + (i + 1) = p + 1 + i by omega] at hpr
    exact hm.mapped _ hpr
  have hframe : ∀ i < n, t.kframe (p + 1 + i) = s.kframe (p + 1 + i) := by
    intro i hi
    unfold Kern.kframe
    rw [hnext i hi]
  have hold : ∀ i, p + 1 + i = p + (i + 1) := fun i => by omega
  refine ⟨⟨?_, fun i hi => ?_, fun i hi => ?_, fun i hi => ?_, fun i hi => ?_, fun i hi => ?_,
    fun i hi j hj he => ?_⟩, hframe⟩
  · have := h.user
    omega
  · have huser := h.user
    rw [hm.leaf dir hdir _ (by omega), if_neg (by omega), show q + 1 + i = q + (i + 1) by omega]
    exact h.unmapped _ (by omega)
  · rw [hold]
    exact h.heap _ (by omega)
  · rw [hnext i hi, hold]
    exact h.mapped _ (by omega)
  · rw [hframe i hi, hold]
    exact huse _ (h.usable _ (by omega))
  · -- the frames are different, and this one was not free
    have hne : s.kframe (p + (i + 1)) ≠ s.kframe p := fun he =>
      absurd (h.apart (i + 1) (by omega) 0 (by omega) he) (by omega)
    have hinfo := hm.infoTaken _ (h.usable (i + 1) (by omega)).notFree hne
    have hone := h.once (i + 1) (by omega)
    rw [hframe i hi, hold]
    unfold Kern.references at hone ⊢
    rw [hinfo]
    exact hone
  · rw [hframe i hi, hframe j hj, hold, hold] at he
    have := h.apart _ (by omega) _ (by omega) he
    omega

theorem MirrorsPages.refl (dirs : Roots) (dir : DirPtr) (p q : Nat) (s : Kern) :
    MirrorsPages dirs dir p q 0 s s := by
  refine ⟨.refl _ _, .refl _ _, fun dir' _ r _ => ?_, fun _ hb => .inl hb, fun h => h⟩
  rw [if_neg (by omega)]

theorem OneMoreBlock.positive {h h' : Heap} (ht : OneMoreBlock h h') (b : BlockInfo)
    (hb : b ∈ h'.blockInfoTakenList) : b ∈ h.blockInfoTakenList ∨ 0 < b.size := by
  rcases ht.2 with he | ⟨c, hsize, hperm⟩
  · exact .inl (he ▸ hb)
  · rcases List.mem_cons.1 (hperm.mem_iff.1 hb) with rfl | hb
    · exact .inr (by rw [hsize]; decide)
    · exact .inl hb

/-- A page, and the pages after it. -/
theorem MirrorsPages.cons (hm : MapsUser dirs ∅ ∅ dir q (s.kframe p) (q * 4096) permUser s t)
    (htaken : OneMoreBlock s.heap t.heap) (hone : s.references (s.kframe p) = 1)
    (hframe : ∀ i < n, t.kframe (p + 1 + i) = s.kframe (p + 1 + i))
    (hrest : MirrorsPages dirs dir (p + 1) (q + 1) n t s') :
    MirrorsPages dirs dir p q (n + 1) s s' := by
  refine ⟨hm.toKept.trans hrest.toKept, hm.toSameRest.trans hrest.toSameRest,
    fun dir' hdir' r hr => ?_,
    fun b hb => ?_, fun hc => hrest.count (hm.count (by decide) (by omega) hc)⟩
  · rw [hrest.leaf dir' hdir' r hr, hm.leaf dir' hdir' r hr]
    by_cases hd : dir' = dir
    · by_cases hfirst : r = q
      · rw [if_neg (by omega), if_pos ⟨hd, hfirst⟩, if_pos ⟨hd, by omega, by omega⟩,
          hfirst, Nat.sub_self]
        rfl
      · by_cases hin : q + 1 ≤ r ∧ r < q + 1 + n
        · rw [if_pos ⟨hd, hin⟩, if_pos ⟨hd, by omega, by omega⟩, hframe _ (by omega),
            show p + 1 + (r - (q + 1)) = p + (r - q) by omega]
        · rw [if_neg fun hc => hin hc.2, if_neg fun hc => hfirst hc.2, if_neg (by omega)]
    · rw [if_neg fun hc => hd hc.1, if_neg fun hc => hd hc.1, if_neg fun hc => hd hc.1]
  · rcases hrest.taken b hb with hb | hpos
    · exact htaken.positive b hb
    · exact .inr hpos

/-- **The loop** maps the pages of the working set. -/
theorem MemOk.mirrorPages (h : MemOk lay G ∅ dirs ∅ s) (hdir : dir ∈ dirs.page)
    (hmir : Mirrorable lay G dir p q n s)
    (hk : Fos.mirrorPages dir n (p * 4096) (q * 4096) s = .ok () s') :
    ∃ G', MemOk lay G' ∅ dirs ∅ s' ∧ MirrorsPages dirs dir p q n s s' := by
  induction n generalizing s G p q with
  | zero =>
    obtain ⟨-, rfl⟩ := ok_inj.1 hk
    exact ⟨G, h, .refl ..⟩
  | succ n ih =>
    -- the frame of the first page of the array
    have huse := hmir.usable 0 (Nat.succ_pos n)
    have hlt := lay.pool_lt _ huse.pool
    have hpa := kheapPhysicalAddress_page h.heap.tables (hmir.heap 0 (Nat.succ_pos n)) hlt
    unfold Fos.mirrorPages at hk
    rw [Nat.add_zero] at huse hpa
    rw [Prog.bind_of_ok hpa] at hk
    obtain ⟨f, t, hf, hk₁⟩ := bind_eq_ok.1 hk
    obtain ⟨_, u, hmap, hk₂⟩ := bind_eq_ok.1 hk₁
    obtain ⟨rfl, rfl⟩ : s.kframe p = f ∧ s = t := by
      rw [toFrameInfo, Prog.get_bind_apply, Prog.ite_run, ppn_page] at hf
      split at hf
      case isTrue => cases hf
      case isFalse => exact ok_inj.1 hf
    have huser := hmir.user
    have hz := hmir.unmapped 0 (Nat.succ_pos n)
    have hone := hmir.once 0 (Nat.succ_pos n)
    rw [Nat.add_zero] at hz hone
    obtain ⟨G', -, hok, hm, hkeep⟩ :=
      h.mapUser hdir (by unfold userTop; omega) (by rwa [ppn_page]) huse
      (by omega) (by decide) hmap
    rw [ppn_page] at hm
    rw [Set.empty_sdiff] at hok
    obtain ⟨htail, hframe⟩ := hmir.tail hdir hm hkeep
    have hpage : ∀ r, r * 4096 + pageSize = (r + 1) * 4096 := fun r => by unfold pageSize; omega
    rw [hpage, hpage] at hk₂
    obtain ⟨G'', hok', hrest⟩ := ih hok htail hk₂
    exact ⟨G'', hok', .cons hm ((mapFrame_takes hmap).taken h) hone hframe hrest⟩

/-! ## The array -/

theorem workingSetPages_eq (hn : n * 12 ≤ 4294963200) :
    workingSetPages n = roundup (u32 (n * 12)) pageSize / 4096 := by
  have hsize : u32 (n * 12) = n * 12 := u32_of_lt (by omega)
  have hsum : u32 (n * 12 + 4096 - 1) = n * 12 + 4095 := u32_of_lt (by omega)
  unfold workingSetPages roundup rounddown pageSize
  rw [hsize, hsum]
  omega

/-- **`create_user_page_WS`** allocates pages that can be mirrored. -/
theorem MemOk.createUserPageWS {ws : Nat} (h : MemOk lay G ∅ dirs ∅ s) (hdir : dir ∈ dirs.page)
    (hpos : 0 < n) (hn : n * 12 ≤ 4294963200)
    (hz : ∀ q ∈ workingSetMirror n, q < 977920 → s.leaf dir q = 0)
    (hk : Fos.createUserPageWS n s = .ok ws t) (hws : ws ≠ 0) :
    ∃ p, ws = p * 4096 ∧ MemOk lay G ∅ dirs ∅ t ∧ Quiet dirs ∅ G G s t ∧
      (∀ b ∈ t.heap.blockInfoTakenList, b ∈ s.heap.blockInfoTakenList ∨ 0 < b.size) ∧
      Mirrorable lay G dir p (ppn userPagesWSStart) (workingSetPages n) t := by
  obtain ⟨b, hb, hva, hsize, hperm, -, hnotG, honly, -, hacc, hq, hok⟩ :=
    (h.kmalloc hk).resolve_left fun hc => hws hc.1
  have hcount : workingSetPages n = b.size / 4096 := by rw [workingSetPages_eq hn, hsize]
  have hmem : ∀ i < workingSetPages n, b.startVa / 4096 + i ∈ b.pages := by
    intro i hi
    rw [hb.mem_pages, ← hcount]
    omega
  -- an array that fits in the heap is mirrored below `USER_TOP`
  have huser : ppn userPagesWSStart + workingSetPages n ≤ 977920 := by
    have hend := hb.end_le
    have hstart := hb.start_le
    unfold kernelHeapMax at hend
    unfold kernelHeapStart at hstart
    rw [hcount]
    unfold ppn userPagesWSStart
    omega
  refine ⟨b.startVa / 4096, by rw [← hva]; exact hb.start_eq, hok, hq, fun c hc => ?_, huser,
    fun i hi => ?_, fun i hi => hb.heapPage (hmem i hi),
    fun i hi => hacc.directories.owned.mapped _ (.inr (hmem i hi)),
    fun i hi => hacc.usable hnotG (hmem i hi), fun i hi => ?_, fun i hi j hj he => ?_⟩
  · rcases List.mem_cons.1 (hperm.mem_iff.1 hc) with rfl | hold
    · have hsome := le_roundup (Nat.le_trans (Nat.le_of_eq (u32_of_lt (by omega))) hn)
      rw [← hsize, u32_of_lt (by omega)] at hsome
      exact .inr (by omega)
    · exact .inl hold
  · rw [hq.leaf dir (.inl hdir) _ (by omega)]
    exact hz _ ⟨by omega, by omega⟩ (by omega)
  · -- the frame was free before
    obtain ⟨f, hf, hentry⟩ := honly.fresh _ (hmem i hi)
    have hframe : t.kframe (b.startVa / 4096 + i) = f := by
      unfold Kern.kframe
      rw [hentry, ppn_entryOf (by decide)]
    refine hacc.references_owned (.inr (hmem i hi)) ?_
    rw [hframe]
    exact ((h.counted.free_iff f (h.counted.freePool f hf)).1 hf).2.1
  · have heq := hacc.directories.owned.kframe_inj (.inr (hmem i hi)) (.inr (hmem j hj)) he
    omega

/-- **The mirror** is mapped, and nothing else changes for the user pages. -/
theorem MemOk.mirrorWorkingSet {ws : Nat} {u : Kern} (h : MemOk lay G ∅ dirs ∅ s)
    (hdir : dir ∈ dirs.page)
    (hpos : 0 < n) (hn : n * 12 ≤ 4294963200)
    (hz : ∀ q ∈ workingSetMirror n, q < 977920 → s.leaf dir q = 0)
    (h₁ : Fos.createUserPageWS n s = .ok ws t) (hws : ws ≠ 0)
    (h₂ : Fos.mirrorPages dir (workingSetPages n) ws userPagesWSStart t = .ok () u) :
    ∃ G', MemOk lay G' ∅ dirs ∅ u ∧ MirrorsWorkingSet dirs dir n s u := by
  obtain ⟨p, rfl, hok, hq, htaken, hmir⟩ := h.createUserPageWS hdir hpos hn hz h₁ hws
  obtain ⟨G', hok', hpages⟩ := hok.mirrorPages hdir hmir h₂
  have hst := hq.still h
  refine ⟨G', hok', hst.toKept.trans hpages.toKept,
    hq.sameRest.trans hpages.toSameRest, hmir.length,
    fun q hqm => ?_, fun dir' hdir' q hlt hnot => ?_, fun b hb => ?_,
    fun hc => hpages.count (hst.count hc)⟩
  · have huser := hmir.user
    rw [hpages.leaf dir hdir q (Nat.lt_of_lt_of_le hqm.2 huser), if_pos ⟨rfl, hqm⟩]
    exact ⟨Nat.lt_of_lt_of_le hqm.2 huser, present_entryOf (by decide)⟩
  · rw [hpages.leaf dir' hdir' q hlt, if_neg fun hc => hnot hc.1 hc.2, hst.leaf dir' hdir' q hlt]
  · rcases hpages.taken b hb with hb | hsome
    · exact htaken b hb
    · exact .inr hsome

end

end Fos
