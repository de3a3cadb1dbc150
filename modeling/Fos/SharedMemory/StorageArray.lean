import Fos.SharedMemory.StorageRuns

/-!
# A frames storage is an array

`add_frame_to_storage` writes the entry of its index and takes a page of the heap for a table when
there is none yet. What an index holds is the frame added there last, whatever the order, and
`clear_frames_storage` gives back the tables: the heap is then as `allocate_share_object` left it.
-/

namespace Fos

open Prog (bind_eq_ok bind_of_ok ok_inj)
open Relation (ReflTransGen)

/-- One `add_frame_to_storage`, with the frames that the indices hold. -/
inductive AddStep (d : Nat) : Kern × (Nat → Option Nat) → Kern × (Nat → Option Nat) → Prop
  | add {s t : Kern} {T : Nat → Option Nat} {f i : Nat} (hf : f < s.frames.numberOfFrames)
      (hi : i < userTop / pageSize) (h : addFrameToStorage d f i s = .ok () t) :
      AddStep d (s, T) (t, Function.update T i (some f))

/-- The tables that the directory of a storage names. -/
def Kern.tableAddrs (s : Kern) (d : Nat) : List Nat :=
  (List.range 955).filterMap fun i => s.table (.heap d) i

/-- The storage `d`, created in `u`, holds the frames `T`. -/
structure ActsAsArray (d : Nat) (T : Nat → Option Nat) (u t : Kern) : Prop where
  get : ∀ i < userTop / pageSize, getFrameFromStorage d i t = .ok (T i) t
  /-- Adding at one index changes no other. -/
  add : ∀ f < t.frames.numberOfFrames, ∀ i < userTop / pageSize, ∀ v,
    addFrameToStorage d f i t = .ok () v → ∀ j < userTop / pageSize,
      getFrameFromStorage d j v = .ok (if j = i then some f else T j) v
  /-- It returns while the heap has a page left. -/
  room : (∃ va v, kmalloc pageSize t = .ok va v ∧ va ≠ 0) → ∀ f, ∀ i < userTop / pageSize,
    ∃ v, addFrameToStorage d f i t = .ok () v
  /-- The blocks taken since are those of the tables, one each. -/
  tables : ∃ blocks, t.heap.blockInfoTakenList.Perm (blocks ++ u.heap.blockInfoTakenList) ∧
    (blocks.map BlockInfo.startVa).Perm (t.tableAddrs d)
  /-- They are given back, and no other block is. -/
  clear : t.heap.blockInfoFreeList ≠ [] → ∃ v, clearFramesStorage d 0 1024 t = .ok () v ∧
    v.heap.blockInfoTakenList.Perm u.heap.blockInfoTakenList

/-- What adding carries on. -/
structure ArrayInv (lay : Layout) (G : Set Nat) (dirs : Roots) (d : Nat) (u s : Kern)
    (T : Nat → Option Nat) : Prop where
  mem : MemOk lay G ∅ dirs ∅ s
  disk : .heap d ∈ dirs.disk
  pos : ∀ b ∈ s.heap.blockInfoTakenList, 0 < b.size
  leaf : ∀ i < 977920, s.leaf (.heap d) i = (T i).elim 0 fun f => entryOf f 0
  frame : ∀ i f, T i = some f → f < s.frames.numberOfFrames
  tables : ∃ blocks, s.heap.blockInfoTakenList.Perm (blocks ++ u.heap.blockInfoTakenList) ∧
    (blocks.map BlockInfo.startVa).Perm (s.tableAddrs d)

section

variable {lay : Layout} {G G' D : Set Nat} {dirs : Roots} {held : Set Nat} {s t u v : Kern}
  {T : Nat → Option Nat} {d f i k n p q : Nat}

/-! ## Tables -/

theorem mem_tableAddrs {a : Nat} : a ∈ s.tableAddrs d ↔
    ∃ i < 955, s.table (.heap d) i = some a := by
  simp [Kern.tableAddrs]

theorem tableAddrs_congr (h : ∀ i < 955, t.table (.heap d) i = s.table (.heap d) i) :
    t.tableAddrs d = s.tableAddrs d :=
  List.filterMap_congr fun i hi => h i (List.mem_range.1 hi)

/-- One table more. -/
theorem tableAddrs_cons {a : Nat} (hk : k < 955) (hnone : s.table (.heap d) k = none)
    (h : ∀ i < 955, t.table (.heap d) i = if i = k then some a else s.table (.heap d) i) :
    (t.tableAddrs d).Perm (a :: s.tableAddrs d) := by
  obtain ⟨xs, ys, hsplit⟩ := List.append_of_mem (List.mem_range.2 hk)
  have hnodup : (xs ++ k :: ys).Nodup := hsplit ▸ List.nodup_range
  have hnot : k ∉ xs ++ ys := (List.nodup_middle.1 hnodup).notMem
  have hlt : ∀ i ∈ xs ++ ys, i < 955 := fun i hi => by
    rw [← List.mem_range, hsplit]
    rcases List.mem_append.1 hi with hi | hi
    · exact List.mem_append_left _ hi
    · exact List.mem_append_right _ (List.mem_cons_of_mem _ hi)
  -- off `k` the two directories name the same tables
  have hsame : ∀ i ∈ xs ++ ys, t.table (.heap d) i = s.table (.heap d) i := by
    intro i hi
    rw [h i (hlt i hi), if_neg]
    rintro rfl
    exact hnot hi
  have hxs : xs.filterMap (fun i => t.table (.heap d) i) = xs.filterMap fun i => s.table (.heap d) i :=
    List.filterMap_congr fun i hi => hsame i (List.mem_append_left _ hi)
  have hys : ys.filterMap (fun i => t.table (.heap d) i) = ys.filterMap fun i => s.table (.heap d) i :=
    List.filterMap_congr fun i hi => hsame i (List.mem_append_right _ hi)
  have hkk : t.table (.heap d) k = some a := by rw [h k hk, if_pos rfl]
  unfold Kern.tableAddrs
  rw [hsplit, List.filterMap_append, List.filterMap_append, hxs, List.filterMap_cons_some hkk, hys,
    List.filterMap_cons_none hnone]
  exact List.perm_middle

/-! ## Adding -/

theorem HeapOk.nodup (h : HeapOk s) (hpos : ∀ b ∈ s.heap.blockInfoTakenList, 0 < b.size) :
    s.heap.blockInfoTakenList.Nodup := by
  refine h.apart.imp_of_mem fun {b c} hb _ hd he => ?_
  subst he
  have hstart : b.startVa ∈ b.addrs := ⟨le_refl _, Nat.lt_add_of_pos_right (hpos b hb)⟩
  exact Set.disjoint_left.1 hd hstart hstart

theorem ArrayInv.add (hi : ArrayInv lay G dirs d u s T) (hf : f < s.frames.numberOfFrames)
    (hk : k < 977920) (h : addFrameToStorage d f k s = .ok () t) :
    ∃ G', ArrayInv lay G' dirs d u t (Function.update T k (some f)) := by
  have htaken := (addFrameToStorage_takes h).taken hi.mem
  obtain ⟨G', w, a, hst, hq, hok, he, rfl⟩ := hi.mem.addFrameToStorage_table hi.disk hk h
  -- slot `k` holds the frame, and the other slots what they held
  have hleaf : ∀ i < 977920, (w.setEntry (.heap a, k % 1024) (entryOf f 0)).leaf (.heap d) i =
      if i = k then entryOf f 0 else s.leaf (.heap d) i := by
    intro i hlt
    rw [hok.directories.setTable_leaf (.inr hi.disk) hk he.table _ (.inr hi.disk) hlt,
      hq.leaf _ (.inr hi.disk) i hlt]
    simp
  have htab : ∀ i < 955, (w.setEntry (.heap a, k % 1024) (entryOf f 0)).table (.heap d) i =
      w.table (.heap d) i := fun i hlt =>
    hok.directories.setTable_table (.inr hi.disk) (by omega) he.table _ _ (.inr hi.disk) hlt
  refine ⟨G', hok.setDiskEntry he _, hi.disk, fun b hb => ?_, fun i hlt => ?_, fun i g hg => ?_, ?_⟩
  · rcases htaken.2 with heq | ⟨c, hsize, hperm⟩
    · rw [heq] at hb
      exact hi.pos b hb
    · rcases List.mem_cons.1 (hperm.mem_iff.1 hb) with rfl | hb
      · rw [hsize]
        decide
      · exact hi.pos b hb
  · rw [hleaf i hlt, Function.update_apply]
    split
    · rfl
    · exact hi.leaf i hlt
  · rw [setEntry_frames, hq.numberOfFrames]
    rw [Function.update_apply] at hg
    split at hg
    · obtain rfl := Option.some.inj hg
      exact hf
    · exact hi.frame i g hg
  · obtain ⟨blocks, hperm, hstarts⟩ := hi.tables
    rw [setEntry_heap, tableAddrs_congr htab]
    cases hst with
    | old _ hw =>
      subst hw
      exact ⟨blocks, hperm, hstarts⟩
    | new v hnone hkm ha hheap hnew =>
      obtain ⟨b, -, hstart, -, hb, -⟩ := (hi.mem.kmalloc hkm).resolve_left fun h0 => ha h0.1
      refine ⟨b :: blocks, ?_, ?_⟩
      · rw [hheap]
        exact hb.trans (hperm.cons b)
      · -- the new table is the one block more
        have hcons := tableAddrs_cons (t := w) (a := a) (show k / 1024 < 955 by omega) hnone
          fun i hlt => by rw [hnew _ (.inr hi.disk) i hlt]; simp
        rw [List.map_cons, hstart]
        exact (hstarts.cons a).trans hcons.symm

/-- `get_frame_from_storage` finds the frame added last. -/
theorem ArrayInv.get (hi : ArrayInv lay G dirs d u s T) (hk : k < 977920) :
    getFrameFromStorage d k s = .ok (T k) s := by
  have hleaf := hi.leaf k hk
  have hframe : s.frameIn (.heap d) k = T k := by
    unfold Kern.frameIn
    rw [hleaf]
    cases hT : T k with
    | none => exact if_pos rfl
    | some f =>
      rw [Option.elim_some, if_neg (present_ne_zero (present_entryOf (by decide))),
        ppn_entryOf (by decide)]
  have hin : s.leaf (.heap d) k ≠ 0 → ppn (s.leaf (.heap d) k) < s.frames.numberOfFrames := by
    intro hne
    rw [hleaf] at hne ⊢
    cases hT : T k with
    | none =>
      rw [hT] at hne
      exact absurd rfl hne
    | some f =>
      rw [Option.elim_some, ppn_entryOf (by decide)]
      exact hi.frame k f hT
  rw [hi.mem.getFrameFromStorage hi.disk hk hin, hframe]

/-- `add_frame_to_storage` returns where `kmalloc` has a page. -/
theorem ArrayInv.room (hi : ArrayInv lay G dirs d u s T) {va : Nat}
    (hkm : Fos.kmalloc pageSize s = .ok va v) (hva : va ≠ 0) (hk : k < 977920) :
    ∃ t, addFrameToStorage d f k s = .ok () t := by
  obtain ⟨-, hlt, hppn⟩ := storage_addr hk
  obtain ⟨hpdx, -⟩ := pdx_user hlt
  have hdirs := hi.mem.directories
  have hpdx' : pdx (u32 (k * pageSize)) = k / 1024 := by rw [hpdx, hppn]
  have hget := getPageTable_user (hdirs.reachDir (.inr hi.disk)) hlt
    (hdirs.pde_zero _ (.inr hi.disk) _ (by rw [hpdx']; omega))
  rw [hpdx'] at hget
  have hptx : ptx (u32 (k * pageSize)) = k % 1024 := by rw [ptx_eq, hppn]
  cases ha : s.table (.heap d) (k / 1024) with
  | some a =>
    rw [ha] at hget
    have he : DiskEntry dirs s (.heap d) k a := ⟨hi.disk, hk, ha⟩
    refine ⟨s.setEntry (.heap a, k % 1024) (constructEntry (f * 4096) permPresent), ?_⟩
    rw [addFrameToStorage, pageTableWith, bind_assoc, bind_of_ok hget]
    show writePte (.heap a) _ _ s = _
    rw [hptx]
    exact he.write hdirs (constructEntry (f * 4096) permPresent)
  | none =>
    rw [ha] at hget
    -- the table is missing, so one page is taken for it, which there is room for
    have hnp : ¬ present (s.pde (.heap d) (pdx (u32 (k * pageSize)))) := by
      intro hpr
      unfold Kern.table at ha
      rw [hpdx'] at hpr
      rw [if_pos hpr] at ha
      cases ha
    obtain ⟨p, rfl, -, hpage, -, -, -, hok⟩ := hi.mem.kmallocPage hkm hva
    have hpG : p ∈ insert p G := Set.mem_insert p G
    obtain ⟨w, hnew⟩ : ∃ w, createPageTable (.heap d) (u32 (k * pageSize)) s = .ok (.heap (p * 4096)) w :=
      ⟨_, createPageTable_new hkm (hok.directories.reachDir (.inr hi.disk)) hok.heap.tables hpage
        (hok.owned.mapped p hpG) (hok.kframe_lt hpG)⟩
    obtain ⟨p', -, -, -, -, htbl, -, htab, -, hok'⟩ :=
      hi.mem.createPageTable_link (.inr hi.disk) hlt hnp hnew
    obtain rfl : p = p' := by
      have : p * 4096 = p' * 4096 := by injection htbl
      omega
    have htable := htab _ (.inr hi.disk) (k / 1024) (by omega)
    rw [if_pos ⟨rfl, hpdx'.symm⟩] at htable
    have he : DiskEntry dirs w (.heap d) k (p * 4096) := ⟨hi.disk, hk, htable⟩
    refine ⟨w.setEntry (.heap (p * 4096), k % 1024) (constructEntry (f * 4096) permPresent), ?_⟩
    rw [addFrameToStorage, pageTableWith, bind_assoc, bind_of_ok hget]
    show (createPageTable (.heap d) _ >>= _ : K Unit) s = _
    rw [bind_of_ok hnew, hptx]
    exact he.write hok'.directories (constructEntry (f * 4096) permPresent)

/-! ## Clearing -/

/-- The loop of `clear_frames_storage` returns while a block is free. -/
theorem MemOk.clearFramesStorage_total {T : Nat → Option Nat} (h : MemOk lay G D dirs held s)
    (hp : LoosePage dirs.page D held G s p) (hin : i + n ≤ 1024)
    (hT : NamesLoose dirs.page D held G s p T i n)
    (hinj : ∀ j k q, i ≤ j → j < i + n → i ≤ k → k < i + n → T j = some q → T k = some q → j = k)
    (hfree : s.heap.blockInfoFreeList ≠ []) :
    ∃ t, Fos.clearFramesStorage (p * 4096) i n s = .ok () t := by
  induction n generalizing i s with
  | zero => exact ⟨s, rfl⟩
  | succ n ih =>
    have hinj' : ∀ j k q, i + 1 ≤ j → j < i + 1 + n → i + 1 ≤ k → k < i + 1 + n → T j = some q →
        T k = some q → j = k := fun j k q h1 h2 h3 h4 =>
      hinj j k q (by omega) (by omega) (by omega) (by omega)
    rcases hT i (le_refl i) (by omega) with ⟨-, h0⟩ | ⟨q, hsome, hqp, hne, hn, hq⟩
    · rw [hp.clear_none (by omega) h0]
      exact ih h hp (by omega) (fun j h1 h2 => hT j (by omega) (by omega)) hinj' hfree
    · obtain ⟨s₁, h₁, hfree₁⟩ := h.kfree_total hfree (q * 4096)
      obtain ⟨s₂, hwrite, hheap, hok₂, -, hp₂, hT'⟩ := h.clearEntry hp hin hT hinj hsome hqp hq h₁
      rw [hp.clear_some hq (by omega) hne hn, bind_of_ok h₁, bind_of_ok hwrite]
      apply ih hok₂ hp₂ (by omega) hT' hinj'
      rwa [hheap]

/-- **`clear_frames_storage`** gives back the blocks of the tables, and no other block. -/
theorem ArrayInv.clear (hi : ArrayInv lay G dirs d u s T) (hfree : s.heap.blockInfoFreeList ≠ []) :
    ∃ v, Fos.clearFramesStorage d 0 1024 s = .ok () v ∧
      v.heap.blockInfoTakenList.Perm u.heap.blockInfoTakenList := by
  have hdirs := hi.mem.directories
  obtain ⟨p, -, rfl⟩ := hdirs.dir d (.inr hi.disk)
  obtain ⟨hdrop, hloose⟩ := hi.mem.dropStorage hi.disk
  obtain ⟨v, hv⟩ := hdrop.clearFramesStorage_total (hloose p (Set.mem_insert _ _)) (by omega)
    (hi.mem.storageNames hi.disk) (fun j k q _ _ _ _ => hdirs.storageTables_inj hi.disk) hfree
  obtain ⟨hok, hf, -⟩ := hi.mem.clearStorage hi.disk hv
  refine ⟨v, hv, ?_⟩
  obtain ⟨blocks, hperm, hstarts⟩ := hi.tables
  have hnodup := hi.mem.heap.nodup hi.pos
  have hsplit := hperm.nodup_iff.1 hnodup
  have hinj := fun b hb c hc => hi.mem.heap.start_inj (b := b) (c := c) hi.pos hb hc
  have hposv : ∀ b ∈ v.heap.blockInfoTakenList, 0 < b.size := fun b hb => hi.pos b (hf.sub b hb)
  -- the start of a table of the storage
  have hstart : ∀ {a}, a ∈ blocks.map BlockInfo.startVa ↔
      ∃ q ∈ tableFrames s (.heap (p * 4096)) {i | i < 955}, a = q * 4096 := by
    intro a
    rw [hstarts.mem_iff, mem_tableAddrs]
    constructor
    · rintro ⟨i, hlt, ha⟩
      obtain ⟨q, -, rfl, -⟩ := hdirs.table_some (.inr hi.disk) hlt ha
      exact ⟨q, ⟨i, hlt, ha⟩, rfl⟩
    · rintro ⟨q, ⟨i, hlt, hq⟩, rfl⟩
      exact ⟨i, hlt, hq⟩
  refine (List.perm_ext_iff_of_nodup (hok.heap.nodup hposv) (List.nodup_append.1 hsplit).2.1).2
    fun b => ⟨fun hb => ?_, fun hb => ?_⟩
  · have hbs := hf.sub b hb
    rcases List.mem_append.1 (hperm.mem_iff.1 hbs) with hblock | hold
    · -- a block of a table is not taken any more: its page is unmapped
      obtain ⟨q, hq, he⟩ := hstart.1 (List.mem_map_of_mem hblock)
      have hwf := hi.mem.heap.wf b hbs
      have hpos := hi.pos b hbs
      have hal := hwf.size_aligned
      have hpage : q ∈ b.pages := by
        rw [hwf.mem_pages, he]
        omega
      have hzero := hf.cleared (fun b hb c hc he => hinj b hb c hc he) q hq ⟨b, hbs, he, hpage⟩
      have hpr := (hok.heap.present_iff q (hwf.heapPage hpage)).2 ⟨b, hb, hpage⟩
      rw [hzero] at hpr
      exact absurd hpr not_present_zero
    · exact hold
  · have hbs : b ∈ s.heap.blockInfoTakenList := hperm.mem_iff.2 (List.mem_append_right _ hb)
    refine hf.taken b hbs fun q hq he => ?_
    obtain ⟨c, hc, hcs⟩ := List.mem_map.1 (hstart.2 ⟨q, hq, he⟩)
    have hcb := hinj c (hperm.mem_iff.2 (List.mem_append_left _ hc)) b hbs hcs
    subst hcb
    exact (List.nodup_append.1 hsplit).2.2 c hc c hb rfl

/-! ## Runs -/

theorem AddStep.inv {x y : Kern × (Nat → Option Nat)} (hi : ∃ G, ArrayInv lay G dirs d u x.1 x.2)
    (hstep : AddStep d x y) : ∃ G, ArrayInv lay G dirs d u y.1 y.2 := by
  obtain ⟨G, hi⟩ := hi
  cases hstep with
  | add hf hk h => exact hi.add hf hk h

theorem ArrayInv.actsAsArray (hi : ArrayInv lay G dirs d u s T) : ActsAsArray d T u s where
  get i hlt := hi.get hlt
  add f hf i hlt v h j hj := by
    obtain ⟨G', hi'⟩ := hi.add hf hlt h
    rw [hi'.get hj, Function.update_apply]
  room h f i hlt := by
    obtain ⟨va, v, hkm, hva⟩ := h
    exact hi.room hkm hva hlt
  tables := hi.tables
  clear hfree := hi.clear hfree

end

/-- **A frames storage is an array.** The storage that `allocate_share_object` creates, in any state
that the kernel reaches from boot under first fit and next fit, holds at each index the frame added
last, through any run of additions; and clearing it gives back the tables, each once, and no other
block of the heap. -/
theorem framesStorage_array {c : BootConfig} {s₀ u t : Kern} {st : KHeapPlacementStrategy}
    {s : StorageState} {id : Int} {T : Nat → Option Nat}
    (hboot : fosInitialize (initializePaging c) = .ok () s₀) (hst : st = .firstFit ∨ st = .nextFit)
    (hrun : ReflTransGen StorageStep ⟨setStrategy st s₀, [.boot], [], ∅⟩ s)
    (hid : 0 ≤ id) (halloc : allocateShareObject s.kern = .ok id u)
    (hadds : ReflTransGen (AddStep (u.framesStorage id)) (u, fun _ => none) (t, T)) :
    ActsAsArray (u.framesStorage id) T u t := by
  obtain ⟨G, dirs, hi⟩ := storageInv_run hboot hst hrun
  obtain ⟨p, dirs', hp, hdisk, htab, hi'⟩ := hi.allocateShareObject hid halloc
  have h0 : ArrayInv c.layout (insert p G) dirs' (u.framesStorage id) u u fun _ => none := by
    rw [hp]
    refine ⟨hi'.mem, hdisk, hi'.pos, fun i hlt => leaf_of_none (htab _ (by omega)), ?_,
      [], .refl _, ?_⟩
    · rintro i f ⟨⟩
    · rw [Kern.tableAddrs, List.filterMap_eq_nil_iff.2 fun i hi => htab i (List.mem_range.1 hi)]
      exact .refl _
  obtain ⟨G', ht⟩ := Prog.invariant
    (I := fun x : Kern × (Nat → Option Nat) =>
      ∃ G, ArrayInv c.layout G dirs' (u.framesStorage id) u x.1 x.2)
    ⟨_, h0⟩ (fun _ _ hi hstep => hstep.inv hi) hadds
  exact ht.actsAsArray

/-- The state of a new storage after boot under first fit. -/
def oneStorage : Kern :=
  let k := Prog.final (kmalloc pageSize (setStrategy .firstFit smallBoot))
  (k.clearWords (k.kframe 1007620) 0 1024).setShares
    (smallBoot.shares.setShare 0 ((smallBoot.shares.shares 0).taken (1007620 * 4096)))

theorem oneStorage_ok :
    allocateShareObject (setStrategy .firstFit smallBoot) = .ok 0 oneStorage := by
  have hkm : kmalloc pageSize (setStrategy .firstFit smallBoot) = .ok (1007620 * 4096)
      (Prog.final (kmalloc pageSize (setStrategy .firstFit smallBoot))) :=
    Prog.ok_of_value (by decide +kernel)
  have hnew := newFramesStorage_page hkm (by decide) (by decide +kernel)
  have hnull : (setStrategy .firstFit smallBoot).shares.null = false := by decide +kernel
  have hvacant : (List.range (setStrategy .firstFit smallBoot).shares.maxShares).find? (fun i =>
      ((setStrategy .firstFit smallBoot).shares.shares i).empty) = some 0 := by decide +kernel
  rw [allocateShareObject, Prog.get_bind_apply, Prog.ite_run, if_neg (by simp [hnull]), hvacant]
  exact (takeShareEntry_iff hnull).2 ⟨_, _, hnew, rfl, rfl⟩

/-- Frame 300 at index 5 of the first storage. -/
theorem framesStorage_array_one :
    ∃ t, addFrameToStorage (oneStorage.framesStorage 0) 300 5 oneStorage =
    .ok () t ∧ ActsAsArray (oneStorage.framesStorage 0)
      (Function.update (fun _ => none) 5 (some 300)) oneStorage t := by
  have hkm : kmalloc pageSize oneStorage = .ok (1007621 * 4096)
      (Prog.final (kmalloc pageSize oneStorage)) := Prog.ok_of_value (by decide +kernel)
  have hempty := framesStorage_array smallBoot_ok (.inl rfl) .refl (le_refl 0) oneStorage_ok .refl
  obtain ⟨t, ht⟩ := hempty.room ⟨_, _, hkm, by decide⟩ 300 5 (by decide)
  exact ⟨t, ht, framesStorage_array smallBoot_ok (.inl rfl) .refl (le_refl 0) oneStorage_ok
    (.tail .refl (.add (by decide +kernel) (by decide) ht))⟩

end Fos
