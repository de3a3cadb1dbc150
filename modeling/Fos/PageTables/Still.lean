import Fos.PageTables.Roots

/-!
# What callers rely on

`InUse` are the frames that user pages map, that data pages of the kernel have, and that were taken
and are not entered yet. Across a `Still` step they keep their contents and their descriptors, and
every user page keeps its entry. Creating a table, creating a directory and giving an empty table
back are such steps.
-/

namespace Fos

open Function (update)
open Prog (bind_eq_ok ok_inj)
open Cover (range mem_range)

/-- The frame is held, has a data page, or is mapped by a user page of one of the directories. -/
def InUse (pages : List DirPtr) (D held : Set Nat) (s : Kern) (f : Nat) : Prop :=
  f ∈ held ∨ (∃ p ∈ D, f = s.kframe p) ∨
    ∃ dir ∈ pages, ∃ p < 977920, present (s.leaf dir p) ∧ ppn (s.leaf dir p) = f

/-- The kernel's own mappings are the same, but for pages of the heap that hold no data, and so are
the first three frames, which are static. -/
structure Kept (D : Set Nat) (s t : Kern) : Prop where
  data : ∀ p ∈ D, t.kernelTable p = s.kernelTable p
  offHeap : ∀ p, ¬ HeapPage p → t.kernelTable p = s.kernelTable p
  kernelDirectory : ∀ i, 955 ≤ i → t.kernelDirectory i = s.kernelDirectory i
  numberOfFrames : t.frames.numberOfFrames = s.frames.numberOfFrames
  strategy : t.heap.strategy = s.heap.strategy
  static : ∀ f < 3, t.ram f = s.ram f

/-- Between `s` and `t` nothing that is in use changed. -/
structure Still (pages : List DirPtr) (D held : Set Nat)
    (s t : Kern) : Prop extends Kept D s t where
  leaf : ∀ dir ∈ pages, ∀ p < 977920, t.leaf dir p = s.leaf dir p
  ram : ∀ f, InUse pages D held s f → t.ram f = s.ram f
  info : ∀ f, InUse pages D held s f → t.frames.info f = s.frames.info f

/-- The page file, the environments and the shared objects are the same, and so are the disk
tables. -/
structure SameRest (dirs : Roots) (s t : Kern) : Prop where
  disk : t.disk = s.disk
  envs : t.envs = s.envs
  shares : t.shares = s.shares
  diskLeaf : ∀ dir ∈ dirs.disk, ∀ p < 977920, t.leaf dir p = s.leaf dir p

section

variable {lay : Layout} {G G' D : Set Nat} {dirs dirs' : Roots} {pages : List DirPtr}
  {held : Set Nat} {s s' t u : Kern} {dir d₀ : DirPtr} {f i i₀ p q n va w : Nat}

theorem Kept.refl (D : Set Nat) (s : Kern) : Kept D s s :=
  ⟨fun _ _ => rfl, fun _ _ => rfl, fun _ _ => rfl, rfl, rfl, fun _ _ => rfl⟩

theorem Kept.trans (h : Kept D s t) (h' : Kept D t u) : Kept D s u := by
  refine ⟨fun p hp => ?_, fun p hp => ?_, fun i hi => ?_, ?_, ?_, fun f hf => ?_⟩
  · rw [h'.data p hp, h.data p hp]
  · rw [h'.offHeap p hp, h.offHeap p hp]
  · rw [h'.kernelDirectory i hi, h.kernelDirectory i hi]
  · rw [h'.numberOfFrames, h.numberOfFrames]
  · rw [h'.strategy, h.strategy]
  · rw [h'.static f hf, h.static f hf]

theorem Kept.kframe (h : Kept D s t) (hp : p ∈ D) : t.kframe p = s.kframe p := by
  unfold Kern.kframe
  rw [h.data p hp]

theorem SameRest.refl (dirs : Roots) (s : Kern) : SameRest dirs s s :=
  ⟨rfl, rfl, rfl, fun _ _ _ _ => rfl⟩

theorem SameRest.trans (h : SameRest dirs s t) (h' : SameRest dirs t u) : SameRest dirs s u := by
  refine ⟨?_, ?_, ?_, fun dir hdir p hp => ?_⟩
  · rw [h'.disk, h.disk]
  · rw [h'.envs, h.envs]
  · rw [h'.shares, h.shares]
  · rw [h'.diskLeaf dir hdir p hp, h.diskLeaf dir hdir p hp]

theorem Still.refl (pages : List DirPtr) (D held : Set Nat) (s : Kern) : Still pages D held s s :=
  ⟨.refl D s, fun _ _ _ _ => rfl, fun _ _ => rfl, fun _ _ => rfl⟩

/-- The same frames are in use before and after. -/
theorem Still.inUse_iff (h : Still pages D held s t) :
    InUse pages D held t f ↔ InUse pages D held s f := by
  unfold InUse
  refine or_congr_right (or_congr ?_ ?_)
  · exact exists_congr fun p => and_congr_right fun hp => by rw [h.kframe hp]
  · refine exists_congr fun dir => and_congr_right fun hdir => exists_congr fun p => ?_
    refine and_congr_right fun hp => ?_
    rw [h.leaf dir hdir p hp]

theorem Still.inUse (h : Still pages D held s t) (hf : InUse pages D held s f) :
    InUse pages D held t f := h.inUse_iff.2 hf

theorem Still.trans (h : Still pages D held s t) (h' : Still pages D held t u) :
    Still pages D held s u := by
  refine ⟨h.toKept.trans h'.toKept, fun dir hdir p hp => ?_, fun f hf => ?_, fun f hf => ?_⟩
  · rw [h'.leaf dir hdir p hp, h.leaf dir hdir p hp]
  · rw [h'.ram f (h.inUse hf), h.ram f hf]
  · rw [h'.info f (h.inUse hf), h.info f hf]

/-- The entry of a user page that maps a frame. -/
theorem leaf_mapping (lay : Layout) (hdir : dir ∈ dirs.page) (hp : p < 977920)
    (hpr : present (s.leaf dir p)) : ∃ a, s.table dir (p / 1024) = some a ∧
      s.mapping (liveSlots lay dirs s) (.heap a, p % 1024) = some (ppn (s.leaf dir p)) := by
  cases ha : s.table dir (p / 1024) with
  | none =>
    rw [leaf_of_none ha] at hpr
    exact absurd hpr not_present_zero
  | some a =>
    have hx := slotAt_of_table hdir hp ha
    refine ⟨a, rfl, ?_⟩
    rw [leaf_of_some ha] at hpr ⊢
    exact mapping_of_present hx.live hpr

/-- Entries of user pages are present or zero. -/
theorem MemOk.leaf_present (h : MemOk lay G D dirs held s) (hdir : dir ∈ dirs.page)
    (hp : p < 977920) (hne : s.leaf dir p ≠ 0) : present (s.leaf dir p) := by
  cases ha : s.table dir (p / 1024) with
  | none => exact absurd (leaf_of_none ha) hne
  | some a =>
    rw [leaf_of_some ha] at hne ⊢
    by_contra hnp
    exact hne ((h.entry_zero (slotAt_of_table hdir hp ha).live).2 hnp)

/-- A frame in use is not free, and has no directory and no table. -/
theorem MemOk.inUse (h : MemOk lay G D dirs held s) (hf : InUse dirs.page D held s f) :
    f ∉ s.frames.freeFrameList ∧ ∀ p ∈ G, p ∉ D → f ≠ s.kframe p := by
  rcases hf with hf | ⟨q, hq, rfl⟩ | ⟨dir, hdir, q, hq, hpr, rfl⟩
  · have hpool := h.counted.heldPool f hf
    refine ⟨fun hfree => ((h.counted.free_iff f hpool).1 hfree).2.2 hf, ?_⟩
    rintro p hp - rfl
    exact h.accounted.kframe_notHeld hp hf
  · have hqG := (h.data q hq).1
    refine ⟨h.accounted.kframe_notFree hqG, fun p hp hpD he => ?_⟩
    exact hpD (h.owned.kframe_inj hqG hp he ▸ hq)
  · obtain ⟨a, -, hm⟩ := leaf_mapping lay hdir hq hpr
    refine ⟨h.counted.notFree hm, fun p hp _ he => ?_⟩
    rw [he] at hm
    cases congrArg Prod.fst (h.accounted.unshared p hp _ hm)

/-- A static frame is not free, and has no directory and no table. -/
theorem MemOk.static (h : MemOk lay G D dirs held s) (hf : f < 3) :
    f ∉ s.frames.freeFrameList ∧ ∀ p ∈ G, f ≠ s.kframe p := by
  have hpool : f ∉ lay.pool := fun hp => absurd (lay.pool_ge f hp) (by omega)
  refine ⟨fun hfree => hpool (h.counted.freePool f hfree), ?_⟩
  rintro p hp rfl
  exact hpool (h.counted.inPool _ _ (h.accounted.mapping_owned hp))

theorem Quiet.still (hq : Quiet dirs D G G' s t) (h : MemOk lay G D dirs held s) :
    Still dirs.page D held s t := by
  refine ⟨⟨fun p hp => ?_, fun p hp => ?_, hq.kernelDirectory, hq.numberOfFrames, hq.strategy,
    fun f hf => ?_⟩, fun dir hdir => hq.leaf dir (.inl hdir), fun f hf => ?_, fun f hf => ?_⟩
  · exact hq.kernelTable p (.inl (h.owned.mapped p (h.data p hp).1))
  · exact hq.kernelTable p (.inr hp)
  · exact hq.ram f (h.static hf).1 fun p hp _ => (h.static hf).2 p hp
  · exact hq.ram f (h.inUse hf).1 (h.inUse hf).2
  · exact hq.info f (h.inUse hf).1

theorem Quiet.sameRest (hq : Quiet dirs D G G' s t) : SameRest dirs s t :=
  ⟨hq.disk, hq.envs, hq.shares, fun dir hdir => hq.leaf dir (.inr hdir)⟩

/-! ## Giving a table back -/

theorem unmapPage_setPde (hd : ∀ d, d₀ = .heap d → ppn d ≠ q) :
    (s.setPde d₀ i₀ w).unmapPage q = (s.unmapPage q).setPde d₀ i₀ w := by
  cases d₀ with
  | boot => rfl
  | heap d =>
    have hfr : (s.unmapPage q).frameAt d = s.frameAt d := by
      unfold Kern.frameAt
      rw [unmapPage_kernelTable, Function.update_of_ne (hd d rfl)]
    show (s.store (s.frameAt d) i₀ w).unmapPage q = (s.unmapPage q).store ((s.unmapPage q).frameAt d) i₀ w
    rw [hfr]
    rfl

/-- The loop of `kfree` does not read the directories below `USER_TOP`. -/
theorem unmapPages_setPde (hn : p + n < 1048576) (hi : i₀ < 955) (ht : HeapTables s)
    (hheap : ∀ k < n, HeapPage (p + k)) (hd : ∀ d, d₀ = .heap d → ∀ k < n, ppn d ≠ p + k)
    (hu : unmapPages n (p * 4096) s = .ok () t) :
    unmapPages n (p * 4096) (s.setPde d₀ i₀ w) = .ok () (t.setPde d₀ i₀ w) := by
  induction n generalizing p s with
  | zero =>
    cases hu
    rfl
  | succ n ih =>
    have hpage : HeapPage p := hheap 0 (by omega)
    have hpde := ht.pde hpage
    have hidx : 955 ≤ pdx (p * 4096) := by
      have := hpage.kernelPage
      unfold KernelPage at this
      unfold pdx
      omega
    have hpde' : present ((s.setPde d₀ i₀ w).kernelDirectory (pdx (p * 4096))) := by
      rw [setPde_kernelDirectory w hi hidx]
      exact hpde
    rw [unmapPages_succ] at hu ⊢
    obtain ⟨_, s₁, h1, h2⟩ := bind_eq_ok.1 hu
    -- the page lies in the kernel part, which the written entry does not reach
    have hnext : unmapFrame .boot (p * 4096) (s.setPde d₀ i₀ w) = .ok () (s₁.setPde d₀ i₀ w) ∧
        HeapTables s₁ := by
      rw [unmapFrame_kernel hpage.kernelPage hpde] at h1
      rw [unmapFrame_kernel hpage.kernelPage hpde', setPde_kernelTable, setPde_frames]
      split at h1
      case isTrue h0 =>
        cases h1
        rw [if_pos h0]
        exact ⟨rfl, ht⟩
      case isFalse h0 =>
        rw [if_neg h0]
        split at h1
        case isTrue => cases h1
        case isFalse hlt =>
          obtain ⟨-, rfl⟩ := ok_inj.1 h1
          have hd₀ : ∀ d, d₀ = .heap d → ppn d ≠ p := fun d hd' => hd d hd' 0 (by omega)
          rw [if_neg hlt, unmapPage_setPde hd₀]
          exact ⟨rfl, ht⟩
    rw [Prog.bind_of_ok hnext.1]
    rw [u32_page_succ (by omega)] at h2 ⊢
    refine ih (by omega) hnext.2 (fun k hk => ?_) (fun d hd' k hk => ?_) h2
    · have := hheap (k + 1) (by omega)
      rwa [show p + (k + 1) = p + 1 + k by omega] at this
    · have := hd d hd' (k + 1) (by omega)
      omega

/-- `kfree` of a block in which the directory does not lie. -/
theorem kfree_setPde (hs : HeapOk s) (hi : i₀ < 955) (hk : kfree va s = .ok () t)
    (hd : ∀ d, d₀ = .heap d → ∀ b ∈ s.heap.blockInfoTakenList, b.startVa = va → ppn d ∉ b.pages) :
    kfree va (s.setPde d₀ i₀ w) = .ok () (t.setPde d₀ i₀ w) := by
  rcases kfree_ok hk with ⟨hnone, rfl⟩ | ⟨bi, s₁, h', hfirst, hlist, hstart, hun, hc, rfl⟩
  · have hfirst : firstWhere (fun bi => decide (bi.startVa = va)) t.heap.blockInfoTakenList = none :=
      firstWhere_none.2 (by simpa using hnone)
    rw [kfree, Prog.get_bind_apply, setPde_heap, hfirst]
    rfl
  · have hmem : bi.elem ∈ s.heap.blockInfoTakenList := by
      rw [hlist]
      exact List.mem_append_right _ List.mem_cons_self
    have hb := hs.wf _ hmem
    -- unmapping heap pages never reads a user entry of a directory
    have hun' : unmapPages (bi.elem.size / pageSize) va (s.setPde d₀ i₀ w) =
        .ok () (s₁.setPde d₀ i₀ w) := by
      rw [← hstart, hb.start_eq]
      rw [hb.start_eq] at hun
      refine unmapPages_setPde hb.end_page hi hs.tables (fun k hk => hb.heapPage ?_) ?_ hun
      · rw [hb.mem_pages]
        exact ⟨Nat.le_add_right _ _, Nat.add_lt_add_left hk _⟩
      · intro d hd' k hk he
        refine hd d hd' _ hmem hstart ?_
        rw [he, hb.mem_pages]
        exact ⟨Nat.le_add_right _ _, Nat.add_lt_add_left hk _⟩
    rw [kfree, Prog.get_bind_apply, setPde_heap, hfirst]
    refine (Prog.bind_of_ok hun').trans ?_
    rw [Prog.get_bind_apply, setPde_heap, hc]
    cases d₀ <;> rfl

/-- A block that starts where an owned page does holds no other owned page. -/
theorem MemOk.block_start (h : MemOk lay G D dirs held s) (hq : q ∈ G) {b : BlockInfo}
    (hb : b ∈ s.heap.blockInfoTakenList) (hqb : q ∈ b.pages) :
    b.startVa = q * 4096 ∧ b.pages = {q} := by
  obtain ⟨c, hc, hstart, hsize⟩ := h.blocks q hq
  have hcp := (h.heap.wf c hc).pages_one hstart hsize
  by_cases hbc : b = c
  · rw [hbc]
    exact ⟨hstart, hcp⟩
  · have hdis : Disjoint b.addrs c.addrs :=
      List.Pairwise.forall (R := fun b c : BlockInfo => Disjoint b.addrs c.addrs) h.heap.apart hb hc hbc
    have hqc : q ∈ c.pages := by rw [hcp]; rfl
    exact absurd hqc fun hqc => Set.disjoint_left.1 hdis hqb hqc

/-- What `kfree` of a block without owned pages leaves alone. -/
theorem UnmapsOnly.still {R : Set Nat} (hm : UnmapsOnly R s t) (h : MemOk lay G D dirs held s)
    (h' : MemOk lay G D dirs held t) (hR : ∀ p ∈ R, HeapPage p ∧ p ∉ G)
    (hf : ∀ p ∈ R, ¬ InUse dirs.page D held s (s.kframe p)) (hst : t.heap.strategy = s.heap.strategy) :
    Still dirs.page D held s t ∧ SameRest dirs s t := by
  have hk : ∀ p ∈ G, t.kernelTable p = s.kernelTable p :=
    fun p hp => hm.kernelTable p fun hpR => (hR p hpR).2 hp
  have hram : ∀ g, t.ram g = s.ram g := fun g => by rw [hm.ram]
  have hleaf : ∀ dir ∈ dirs, ∀ p < 977920, t.leaf dir p = s.leaf dir p := by
    intro dir hdir p hp
    refine h.directories.leaf_congr h'.directories hk (fun i _ => ?_) (fun _ _ => hram _) hdir hp
    exact h.directories.pde_congr hk (fun _ _ => hram _) (by rw [hm.kernelDirectory]) hdir
  exact ⟨⟨⟨fun p hp => hk p (h.data p hp).1,
    fun p hp => hm.kernelTable p fun hpR => hp (hR p hpR).1, fun i _ => by rw [hm.kernelDirectory],
    hm.numberOfFrames, hst,
    fun g _ => hram g⟩, fun dir hdir => hleaf dir (.inl hdir), fun g _ => hram g,
    fun g hg => hm.info g fun q hq he => hf q hq (he ▸ hg)⟩,
    hm.disk, hm.envs, hm.shares, fun dir hdir => hleaf dir (.inr hdir)⟩

/-- Overwriting a directory entry touches a page without data. -/
theorem MemOk.setPde_ram (h : MemOk lay G D dirs held s) (hd : d₀ ∈ dirs) (w : Nat)
    (hf : ∀ q ∈ G, q ∉ D → f ≠ s.kframe q) : (s.setPde d₀ i₀ w).ram f = s.ram f := by
  apply setPde_ram_of_ne
  rintro d rfl
  obtain ⟨q, hq, rfl⟩ := h.directories.dir d hd
  rw [kframe_page]
  apply hf q hq
  intro hqD
  have hne := (h.data q hqD).2.dir _ hd
  rw [kframe_page] at hne
  exact hne rfl

/-- Clearing the entry of an empty table is `Still`. -/
theorem EmptyTable.still (he : EmptyTable dirs s d₀ i₀ p) (h : MemOk lay G D dirs held s) :
    Still dirs.page D held s (s.setPde d₀ i₀ 0) ∧ SameRest dirs s (s.setPde d₀ i₀ 0) := by
  refine ⟨⟨⟨fun q _ => ?_, fun q _ => ?_, fun i hi => setPde_kernelDirectory 0 he.index hi, ?_, ?_,
    fun g hg => h.setPde_ram he.dir 0 fun q hq _ => (h.static hg).2 q hq⟩,
    fun dir hdir q hq => he.leaf h.directories (.inl hdir) hq, fun g hg => ?_, fun g _ => ?_⟩,
    setPde_disk 0, setPde_envs 0, setPde_shares 0,
    fun dir hdir q hq => he.leaf h.directories (.inr hdir) hq⟩
  · rw [setPde_kernelTable]
  · rw [setPde_kernelTable]
  · rw [setPde_frames]
  · rw [setPde_heap]
  · exact h.setPde_ram he.dir 0 (h.inUse hg).2
  · rw [setPde_frames]

/-- The frame of the table itself is not in use. -/
theorem EmptyTable.notInUse (he : EmptyTable dirs s d₀ i₀ p) (h : MemOk lay G D dirs held s) :
    ¬ InUse dirs.page D held s (s.kframe p) := by
  intro hu
  obtain ⟨hp, hpr, hn⟩ := he.names h.directories
  refine (h.inUse hu).2 p hp (fun hpD => ?_) rfl
  exact (h.data p hpD).2.table d₀ he.dir i₀ he.index hpr hn

/-- The blocks that start at an owned page have that page at most. -/
theorem MemOk.block_page (h : MemOk lay G D dirs held s) (hp : p ∈ G) {b : BlockInfo}
    (hb : b ∈ s.heap.blockInfoTakenList) (hstart : b.startVa = p * 4096) :
    ∀ q ∈ b.pages, q = p := by
  intro q hq
  have hwf := h.heap.wf b hb
  have hpb : p ∈ b.pages := by
    rw [hwf.mem_pages] at hq ⊢
    omega
  have hqp : q ∈ ({p} : Set Nat) := (h.block_start hp hb hpb).2 ▸ hq
  exact hqp

/-- No two blocks in use begin at one address. An empty block begins where the next block does, and
`kfree` takes the first one in the list. -/
def Heap.StartsApart (h : Heap) : Prop :=
  ∀ b ∈ h.blockInfoTakenList, ∀ c ∈ h.blockInfoTakenList, b.startVa = c.startVa → b = c

/-- What giving back the blocks of the heap pages `R` does, and what it leaves alone. -/
structure FreesPages (dirs : Roots) (D held : Set Nat) (R : Set Nat) (s t : Kern) : Prop extends
    Still dirs.page D held s t, SameRest dirs s t where
  kernelTable : ∀ q, q ∉ R → t.kernelTable q = s.kernelTable q
  others : ∀ f, (∀ p ∈ R, f ≠ s.kframe p) → t.frames.info f = s.frames.info f
  freed : ∀ f ∈ t.frames.freeFrameList, f ∈ s.frames.freeFrameList ∨ ∃ p ∈ R, f = s.kframe p
  free : s.frames.freeFrameList <:+ t.frames.freeFrameList
  taken : ∀ b ∈ s.heap.blockInfoTakenList, (∀ p ∈ R, b.startVa ≠ p * 4096) →
    b ∈ t.heap.blockInfoTakenList
  sub : ∀ b ∈ t.heap.blockInfoTakenList, b ∈ s.heap.blockInfoTakenList
  cleared : s.heap.StartsApart → ∀ p ∈ R,
    (∃ b ∈ s.heap.blockInfoTakenList, b.startVa = p * 4096 ∧ p ∈ b.pages) → t.kernelTable p = 0

theorem FreesPages.refl (dirs : Roots) (D held : Set Nat) (s : Kern) :
    FreesPages dirs D held ∅ s s :=
  ⟨.refl _ _ _ _, .refl _ _, fun _ _ => rfl, fun _ _ => rfl, fun _ h => .inl h, List.suffix_refl _,
    fun _ h _ => h, fun _ h => h, fun _ _ h => h.elim⟩

theorem FreesPages.startsApart {R : Set Nat} (h : FreesPages dirs D held R s t)
    (hs : s.heap.StartsApart) : t.heap.StartsApart :=
  fun b hb c hc => hs b (h.sub b hb) c (h.sub c hc)

theorem FreesPages.kframe {R : Set Nat} (h : FreesPages dirs D held R s t) (hp : p ∉ R) :
    t.kframe p = s.kframe p := by
  unfold Kern.kframe
  rw [h.kernelTable p hp]

theorem FreesPages.trans {R R' : Set Nat} (h : FreesPages dirs D held R s t)
    (h' : FreesPages dirs D held R' t u) (hR : ∀ p ∈ R', p ∉ R) :
    FreesPages dirs D held (R ∪ R') s u := by
  refine ⟨h.toStill.trans h'.toStill, h.toSameRest.trans h'.toSameRest, fun q hq => ?_,
    fun f hf => ?_,
    fun f hf => ?_, h.free.trans h'.free, fun b hb hne => ?_, fun b hb => h.sub b (h'.sub b hb),
    fun hs p hp hex => ?_⟩
  · rw [h'.kernelTable q fun hc => hq (.inr hc), h.kernelTable q fun hc => hq (.inl hc)]
  · rw [h'.others f, h.others f fun p hp => hf p (.inl hp)]
    intro p hp
    rw [h.kframe (hR p hp)]
    exact hf p (.inr hp)
  · rcases h'.freed f hf with hft | ⟨p, hp, rfl⟩
    · exact (h.freed f hft).imp_right fun ⟨p, hp, hfp⟩ => ⟨p, .inl hp, hfp⟩
    · exact .inr ⟨p, .inr hp, h.kframe (hR p hp)⟩
  · exact h'.taken b (h.taken b hb fun p hp => hne p (.inl hp)) fun p hp => hne p (.inr hp)
  · rcases hp with hp | hp
    · rw [h'.kernelTable p fun hc => hR p hc hp]
      exact h.cleared hs p hp hex
    · obtain ⟨b, hb, hstart, hpb⟩ := hex
      apply h'.cleared (h.startsApart hs) p hp
      refine ⟨b, h.taken b hb fun q hq he => hR p hp ?_, hstart, hpb⟩
      obtain rfl : q = p := by omega
      exact hq

/-- **`kfree` of a page** that is not owned any more and not in use. -/
theorem MemOk.kfreePage (h : MemOk lay G D dirs held s) (hp : p ∉ G)
    (hb : ∀ b ∈ s.heap.blockInfoTakenList, b.startVa = p * 4096 → ∀ q ∈ b.pages, q = p)
    (hu : ¬ InUse dirs.page D held s (s.kframe p)) (hk : Fos.kfree (p * 4096) s = .ok () t) :
    MemOk lay G D dirs held t ∧ FreesPages dirs D held {p} s t ∧
      (∀ dir ∈ dirs, ∀ i, t.pde dir i = s.pde dir i) ∧ t.ram = s.ram := by
  rcases h.kfree hk (fun b hbm hstart q hq => hb b hbm hstart q hq ▸ hp) with
    ⟨hnone, rfl⟩ | ⟨b, hbm, hwf, hstart, honly, hperm, hst, hok⟩
  · refine ⟨h, ⟨.refl _ _ _ _, .refl _ _, fun _ _ => rfl, fun _ _ => rfl, fun f hf => .inl hf,
      List.suffix_refl _, fun b hb _ => hb, fun b hb => hb, ?_⟩, fun _ _ _ => rfl, rfl⟩
    rintro - q rfl ⟨b, hb, hstart, -⟩
    exact absurd hstart (hnone b hb)
  · -- the block is the one page
    have hpages := hb b hbm hstart
    obtain ⟨hstill, hrest⟩ := honly.still h hok
      (fun q hq => ⟨hwf.heapPage hq, by rw [hpages q hq]; exact hp⟩)
      (fun q hq => by rw [hpages q hq]; exact hu) hst
    refine ⟨hok, ⟨hstill, hrest, fun q hq => ?_, fun f hf => ?_, fun f hf => ?_, honly.free,
      fun c hc hne => ?_, fun c hc => hperm.mem_iff.2 (.tail _ hc), ?_⟩,
      fun dir hdir i => ?_, honly.ram⟩
    · exact honly.kernelTable q fun hqb => hq (hpages q hqb)
    · exact honly.info f fun q hqb => hpages q hqb ▸ hf p rfl
    · apply (honly.freed f hf).imp_right
      rintro ⟨q, hqb, rfl⟩
      exact ⟨p, rfl, by rw [hpages q hqb]⟩
    · rcases List.mem_cons.1 (hperm.mem_iff.1 hc) with rfl | hmem
      · exact absurd hstart (hne p rfl)
      · exact hmem
    · rintro hs q rfl ⟨c, hc, hcstart, hqc⟩
      apply honly.cleared q
      rw [hs b hbm c hc (hstart.trans hcstart.symm)]
      exact hqc
    · refine h.directories.pde_congr (fun q hq => ?_) (fun _ _ => by rw [honly.ram])
        (by rw [honly.kernelDirectory]) hdir
      exact honly.kernelTable q fun hqb => hp (hpages q hqb ▸ hq)

/-- **`kfree` of an empty table** that the directory no longer names. -/
theorem MemOk.freeUnlinked (h : MemOk lay G D dirs held s) (he : EmptyTable dirs s d₀ i₀ p)
    (hk : Fos.kfree (p * 4096) (s.setPde d₀ i₀ 0) = .ok () t) :
    MemOk lay (G \ {p}) D dirs held t ∧ FreesPages dirs D held {p} s t ∧
      ∀ dir ∈ dirs, ∀ i < 955, t.table dir i =
        if dir = d₀ ∧ i = i₀ then none else s.table dir i := by
  obtain ⟨hp, -, -⟩ := he.names h.directories
  have hunl := h.unlinkTable he
  obtain ⟨hstill, hrest⟩ := he.still h
  have hnotUse : ¬ InUse dirs.page D held (s.setPde d₀ i₀ 0) ((s.setPde d₀ i₀ 0).kframe p) := by
    rw [hstill.inUse_iff, setPde_kframe]
    exact he.notInUse h
  have hblock : ∀ b ∈ (s.setPde d₀ i₀ 0).heap.blockInfoTakenList, b.startVa = p * 4096 →
      ∀ q ∈ b.pages, q = p := by
    rw [setPde_heap]
    exact fun b hb hstart => h.block_page hp hb hstart
  obtain ⟨hok, hfrees, hpde, -⟩ := hunl.kfreePage (fun hc => hc.2 rfl) hblock hnotUse hk
  -- clearing the entry alone frees no page
  have hunlink : FreesPages dirs D held ∅ s (s.setPde d₀ i₀ 0) := by
    refine ⟨hstill, hrest, fun q _ => by rw [setPde_kernelTable], fun f _ => by rw [setPde_frames],
      fun f hf => ?_, ?_, fun b hb _ => ?_, fun b hb => ?_, fun _ _ hq => hq.elim⟩
    · rw [setPde_frames] at hf
      exact .inl hf
    · rw [setPde_frames]
    · rwa [setPde_heap]
    · rwa [setPde_heap] at hb
  refine ⟨hok, ?_, ?_⟩
  · rw [← Set.empty_union {p}]
    exact hunlink.trans hfrees fun _ _ h => h
  · intro dir hdir i hi
    rw [hunl.directories.table_congr hok.directories (fun q hq => hfrees.kernelTable q fun hqp => hq.2 hqp)
      hdir hi (hpde dir hdir i)]
    exact he.table_eq h.directories hdir

/-- A directory is no page of the block that holds one of its tables. -/
theorem EmptyTable.root_ne (he : EmptyTable dirs s d₀ i₀ p) (h : Directories G dirs s) {d : Nat}
    (hd : d₀ = .heap d) : ∃ r ∈ G, d = r * 4096 ∧ r ≠ p := by
  subst hd
  obtain ⟨hp, hpr₀, hn⟩ := he.names h
  obtain ⟨r, hr, rfl⟩ := h.dir d he.dir
  refine ⟨r, hr, rfl, ?_⟩
  rintro rfl
  have hne := h.pde_ne_dir _ he.dir i₀ he.index hpr₀ _ he.dir
  rw [kframe_page] at hne
  exact hne hn

/-- **`kfree` of an empty table** and the clearing of its directory entry. -/
theorem MemOk.freeTable (h : MemOk lay G D dirs held s) (he : EmptyTable dirs s d₀ i₀ p)
    (hk : (do Fos.kfree (p * 4096); writePde d₀ i₀ 0) s = .ok () s') :
    MemOk lay (G \ {p}) D dirs held s' ∧ FreesPages dirs D held {p} s s' ∧
      ∀ dir ∈ dirs, ∀ i < 955, s'.table dir i =
        if dir = d₀ ∧ i = i₀ then none else s.table dir i := by
  obtain ⟨_, s₁, hk1, hk2⟩ := bind_eq_ok.1 hk
  -- the source frees the table before it clears the entry; the two commute
  have hd : ∀ d, d₀ = .heap d → ∀ b ∈ s.heap.blockInfoTakenList, b.startVa = p * 4096 →
      ppn d ∉ b.pages := by
    intro d hd b hb hstart hmem
    obtain ⟨r, hr, rfl, hrp⟩ := he.root_ne h.directories hd
    rw [ppn_page] at hmem
    have := (h.block_start hr hb hmem).1
    omega
  obtain ⟨hok, hfrees, htab⟩ :=
    h.freeUnlinked he (kfree_setPde (w := 0) h.heap he.index hk1 hd)
  have hreach : s₁.ReachDir d₀ := by
    cases d₀ with
    | boot => trivial
    | heap d =>
      obtain ⟨r, hr, rfl, hrp⟩ := he.root_ne h.directories rfl
      refine ⟨by omega, (mapped_page _ _).2 ?_⟩
      have := hfrees.kernelTable r hrp
      rw [setPde_kernelTable] at this
      rw [this]
      exact h.owned.mapped r hr
  rw [writePde_reach hreach (by have := he.index; omega)] at hk2
  obtain ⟨-, rfl⟩ := ok_inj.1 hk2
  exact ⟨hok, hfrees, htab⟩

end

end Fos
