import Fos.KernelHeap.FirstFit

/-!
# Next fit on the kernel heap

Under `NEXTFIT` the search starts at `last_va_in_kheap` and loops back. The cursor is the start of
the last allocation, and `kfree` takes it back to a block that lies below it and joins no free one.
-/

namespace Fos

open Relation (ReflTransGen)
open Prog (bind_eq_ok ok_inj)
open Gaps (Ordered MaxRun)

/-! ## The search -/

/-- What the loop of `next_fit_allocation` knows after the blocks `seen`: those that are large
enough lie below the cursor, and `before` is one with the lowest start. -/
structure Scanned (size lastVa : Nat) (seen : List BlockInfo) (before : Option (Place BlockInfo)) :
    Prop where
  fits : ∀ b ∈ before, size ≤ b.elem.size
  lowest : ∀ c ∈ seen, size ≤ c.size → c.startVa < lastVa ∧ ∃ b ∈ before, b.elem.startVa ≤ c.startVa

/-- `f` is the lowest large enough block at or above the cursor or, when there is none, the lowest
large enough block. -/
structure NextBlock (size lastVa : Nat) (free : List BlockInfo) (f : BlockInfo) : Prop where
  mem : f ∈ free
  fits : size ≤ f.size
  next : (lastVa ≤ f.startVa ∧
      ∀ c ∈ free, size ≤ c.size → lastVa ≤ c.startVa → f.startVa ≤ c.startVa) ∨
    ∀ c ∈ free, size ≤ c.size → c.startVa < lastVa ∧ f.startVa ≤ c.startVa

section

variable {size lastVa : Nat} {l seen rest : List BlockInfo} {bi : BlockInfo}
  {before : Option (Place BlockInfo)}

/-- A block that is too small teaches nothing. -/
theorem Scanned.skip (h : Scanned size lastVa seen before) (hs : bi.size < size) :
    Scanned size lastVa (seen ++ [bi]) before := by
  refine ⟨h.fits, fun c hc hle => ?_⟩
  rcases List.mem_append.1 hc with hc | hc
  · exact h.lowest c hc hle
  · rw [List.mem_singleton.1 hc] at hle
    omega

/-- A large enough block below the cursor is a candidate. -/
theorem Scanned.candidate (h : Scanned size lastVa seen before) (hs : size ≤ bi.size)
    (hlast : bi.startVa < lastVa) :
    Scanned size lastVa (seen ++ [bi]) (some (nextFitBefore before ⟨seen, bi, rest⟩)) := by
  -- the new candidate lies no higher than the old one and the block at hand
  have hle : (nextFitBefore before ⟨seen, bi, rest⟩).elem.startVa ≤ bi.startVa ∧
      ∀ b ∈ before, (nextFitBefore before ⟨seen, bi, rest⟩).elem.startVa ≤ b.elem.startVa := by
    unfold nextFitBefore
    cases before with
    | none => simp
    | some b =>
      dsimp only
      split
      case isTrue hge => simpa using hge
      case isFalse hlt => simpa using Nat.le_of_not_le hlt
  refine ⟨?_, fun c hc hcs => ?_⟩
  · intro b hb
    cases hb
    exact nextFitBefore_cases (P := fun b => size ≤ b.elem.size) h.fits hs
  · rcases List.mem_append.1 hc with hc | hc
    · obtain ⟨h1, b, hb, h2⟩ := h.lowest c hc hcs
      exact ⟨h1, _, rfl, Nat.le_trans (hle.2 b hb) h2⟩
    · rw [List.mem_singleton.1 hc]
      exact ⟨hlast, _, rfl, hle.1⟩

/-- The search of a list in address order. -/
theorem nextFitSearch_next (ho : FreeOrder l) (hl : l = seen ++ rest)
    (hb : ∀ b ∈ before, l = b.list ∧ size ≤ b.elem.size) (hs : Scanned size lastVa seen before) :
    (nextFitSearch size lastVa seen rest before = none ∧ ∀ c ∈ l, c.size < size) ∨
      ∃ f, nextFitSearch size lastVa seen rest before = some f ∧
        NextBlock size lastVa l f.elem := by
  induction rest generalizing seen before with
  | nil =>
    rw [List.append_nil] at hl
    subst hl
    cases before with
    | none =>
      refine .inl ⟨rfl, fun c hc => Nat.lt_of_not_le fun hle => ?_⟩
      obtain ⟨-, b, hb, -⟩ := hs.lowest c hc hle
      cases hb
    | some b =>
      refine .inr ⟨b, rfl, ?_, hs.fits b rfl, .inr fun c hc hle => ?_⟩
      · rw [(hb b rfl).1]
        simp [Place.list]
      · obtain ⟨h1, b', hb', h2⟩ := hs.lowest c hc hle
        cases hb'
        exact ⟨h1, h2⟩
  | cons bi rest ih =>
    have hl' : l = (seen ++ [bi]) ++ rest := by rw [hl]; simp
    have hplace : l = (⟨seen, bi, rest⟩ : Place BlockInfo).list := hl
    unfold nextFitSearch
    split
    case isTrue hsize =>
      split
      case isTrue hge =>
        -- the loop ends here, and the blocks after this one lie above it
        refine .inr ⟨_, rfl, by rw [hl]; simp, hsize, .inl ⟨hge, fun c hc hcs hcl => ?_⟩⟩
        rw [hl] at hc ho
        obtain ⟨-, -, hr⟩ := ho.sides
        rcases List.mem_append.1 hc with hc | hc
        · have := (hs.lowest c hc hcs).1
          omega
        · rcases List.mem_cons.1 hc with rfl | hc
          · exact Nat.le_refl _
          · have := hr c hc
            show bi.startVa ≤ _
            omega
      case isFalse hlt =>
        refine ih hl' ?_ (hs.candidate hsize (Nat.lt_of_not_le hlt))
        intro b hmem
        cases hmem
        exact nextFitBefore_cases (P := fun b => l = b.list ∧ size ≤ b.elem.size) hb
          ⟨hplace, hsize⟩
    case isFalse hsize => exact ih hl' hb (hs.skip (Nat.lt_of_not_le hsize))

end

/-! ## The cursor -/

/-- No free block ends where `b` starts or starts where it ends. -/
def Kern.Alone (s : Kern) (b : BlockInfo) : Prop :=
  ∀ c ∈ s.heap.blockInfoFreeList, c.startVa + c.size ≠ b.startVa ∧ b.startVa + b.size ≠ c.startVa

instance (s : Kern) (b : BlockInfo) : Decidable (s.Alone b) := by unfold Kern.Alone; infer_instance

/-- `Coalescing_heap` moves the cursor exactly when the block joins no free one and lies below. -/
theorem coalescing_cursor {s : Kern} {h h' : Heap} {take : BlockInfo}
    (hfree : h.blockInfoFreeList = s.heap.blockInfoFreeList) (hst : h.strategy = .nextFit)
    (ho : FreeOrder h.blockInfoFreeList) (hfits : Fits take h.blockInfoFreeList)
    (hw : NoWrap (take :: h.blockInfoFreeList)) (hc : h.coalescing take = some h') :
    h'.lastVaInKheap =
      if s.Alone take ∧ take.startVa < h.lastVaInKheap then take.startVa else h.lastVaInKheap := by
  obtain ⟨lo, hi, hl, hcut⟩ := hfits.cut ho
  have hw' : NoWrap (lo ++ take :: hi) := by
    intro b hb
    apply hw
    rw [hl]
    simpa [or_left_comm, or_comm, or_assoc] using hb
  obtain ⟨ht, hd⟩ := hcut.takeWhile (p := fun curr => decide (curr.startVa ≤ take.startVa))
    (fun b hb => by simpa using Nat.le_of_lt hb) (fun b hb => by simpa using hb)
  unfold Heap.coalescing at hc
  dsimp only at hc
  rw [hl, ht, hd] at hc
  cases hj : joinBetween lo hi take with
  | some r =>
    rw [hj] at hc
    cases hc
    -- a block that was joined had a neighbour, so the cursor stays
    have hnot : ¬ s.Alone take := by
      intro ha
      unfold Kern.Alone at ha
      rw [← hfree, hl] at ha
      cases hpre : adjoiningPre lo take with
      | some pre =>
        obtain ⟨lo', rfl, hadj⟩ := adjoiningPre_end hw' hpre
        exact (ha pre (by simp)).1 hadj
      | none =>
        cases hnex : adjoiningNex hi take with
        | some nex =>
          obtain ⟨hi', rfl, hadj⟩ := Cut.nex hw' hnex
          exact (ha nex (by simp)).2 hadj
        | none =>
          rw [joinBetween, hpre, hnex] at hj
          cases hj
    rw [if_neg fun h => hnot h.1]
  | none =>
    rw [hj] at hc
    obtain ⟨free, -, rfl⟩ := Option.map_eq_some_iff.1 hc
    have hnone : adjoiningPre lo take = none ∧ adjoiningNex hi take = none := by
      unfold joinBetween at hj
      cases hpre : adjoiningPre lo take <;> cases hnex : adjoiningNex hi take <;>
        rw [hpre, hnex] at hj <;> simp_all
    -- a block that was not joined has none
    have halone : s.Alone take := by
      intro c hc
      rw [← hfree, hl] at hc
      have hpos := hcut.pos
      rcases List.mem_append.1 hc with hc | hc
      · have h1 := hcut.pre_none hw' hnone.1 c hc
        omega
      · have h1 := hcut.nex_none hw' hnone.2 c hc
        omega
    simp only [halone, hst, true_and]

/-! ## Runs -/

/-- Where the next search starts: after an allocation of `size` bytes at `va`, and after a `kfree`
of `va` in the state `s` when it started at `resume` before. -/
structure ResumeRule where
  allocated : (va size : Nat) → Nat
  freed : (s : Kern) → (va resume : Nat) → Nat

/-- At the end of the last allocation, whatever is freed later. -/
def ResumeRule.afterLast : ResumeRule where
  allocated va size := va + roundup size pageSize
  freed _ _ resume := resume

/-- At the start of the last allocation, or at a block freed below it that stays a block of its
own. -/
def ResumeRule.lowering : ResumeRule where
  allocated va _ := va
  freed s va resume :=
    match firstWhere (fun bi => bi.startVa = va) s.heap.blockInfoTakenList with
    | none => resume
    | some bi => if s.Alone bi.elem ∧ va < resume then va else resume

/-- One call under next fit, with the address where the next search starts. -/
inductive NextFitStep (rule : ResumeRule) : Kern × Nat → Kern × Nat → Prop
  | kmalloc {s s' : Kern} {resume size va : Nat} (h1 : 1 ≤ size) (h2 : size ≤ 2 ^ 32 - 4096)
      (h : kmalloc size s = .ok va s') :
      NextFitStep rule (s, resume) (s', if va = 0 then resume else rule.allocated va size)
  | kfree {s s' : Kern} {resume va : Nat} (h : kfree va s = .ok () s') :
      NextFitStep rule (s, resume) (s', rule.freed s va resume)

/-- A run from boot under next fit. The tables made at boot are the last allocations before it. -/
def NextFitRun (rule : ResumeRule) (c : BootConfig) (s : Kern) (resume : Nat) : Prop :=
  ∃ s₀, fosInitialize (initializePaging c) = .ok () s₀ ∧
    ReflTransGen (NextFitStep rule) (setStrategy .nextFit s₀, kernelHeapStart + 0x4000) (s, resume)

/-- `va` answers a request for `n` bytes with the start of the lowest maximal run of `U` at or above
`resume` that is long enough or, when there is none, of the lowest one that is, and with 0 exactly
when none is. -/
structure NextFit (U : Set Nat) (resume n va : Nat) : Prop where
  next : va ≠ 0 → ∃ m, MaxRun U va m ∧ n ≤ m ∧
    ((resume ≤ va ∧ ∀ g k, MaxRun U g k → n ≤ k → resume ≤ g → va ≤ g) ∨
      ∀ g k, MaxRun U g k → n ≤ k → g < resume ∧ va ≤ g)
  null : va = 0 ↔ ¬ ∃ g k, MaxRun U g k ∧ n ≤ k

/-- Every `kmalloc` in the state follows next fit from `resume`, and a `NULL` changes nothing. -/
def NextFitOk (s : Kern) (resume : Nat) : Prop :=
  ∀ size va s', 1 ≤ size → size ≤ 2 ^ 32 - 4096 → kmalloc size s = .ok va s' →
    NextFit s.unallocated resume (roundup size pageSize) va ∧ (va = 0 → s' = s)

/-! ## The invariant -/

/-- The kernel heap under next fit: `last_va_in_kheap` is where the next search starts. -/
structure NextFitInv (s : Kern) (resume : Nat) : Prop where
  order : OrderInv s
  strategy : s.heap.strategy = .nextFit
  cursor : s.heap.lastVaInKheap = resume

section

variable {s s' : Kern} {size va resume : Nat}

/-- What `next_fit_allocation` returns is decided by the search alone. -/
theorem OrderInv.nextFit_found (hi : OrderInv s) (hst : s.heap.strategy = .nextFit)
    (h : Fos.kmalloc size s = .ok va s') :
    (nextFitSearch (roundup size pageSize) s.heap.lastVaInKheap [] s.heap.blockInfoFreeList none =
        none ∧ va = 0 ∧ s' = s) ∨
      ∃ found, nextFitSearch (roundup size pageSize) s.heap.lastVaInKheap []
          s.heap.blockInfoFreeList none = some found ∧
        va = found.elem.startVa ∧ s'.heap.lastVaInKheap = va := by
  have hk : nextFitAllocation (mapFrameWith (createPageTableWith kmallocNested) .boot) size s =
      .ok va s' := by
    rw [← h, Fos.kmalloc, kmallocWith, Prog.get_bind_apply, hst]
  rw [nextFitAllocation, Prog.get_bind_apply] at hk
  cases hf : nextFitSearch (roundup size pageSize) s.heap.lastVaInKheap []
      s.heap.blockInfoFreeList none with
  | none =>
    rw [hf] at hk
    obtain ⟨rfl, rfl⟩ := ok_inj.1 hk
    exact .inl ⟨rfl, rfl, rfl⟩
  | some found =>
    rw [hf] at hk
    replace hk : (set _ >>= _ : K Nat) s = _ := hk
    rw [Prog.set_bind_apply] at hk
    obtain ⟨_, s₁, hmap, hk⟩ := bind_eq_ok.1 hk
    -- the pages come from the block found, so mapping them leaves the lists alone
    have hsrc : s.heap.Source found.elem.startVa (roundup size pageSize) := by
      rw [Heap.Source, hst]
      obtain ⟨hlist, hle⟩ := nextFitSearch_some (l := s.heap.blockInfoFreeList) rfl (by simp) hf
      exact ⟨found, hlist, hle, rfl⟩
    have hheap := hi.heap.mapPages_heap (.inr hst) hsrc hmap
    obtain ⟨ptr, s₂, halloc, hk⟩ := bind_eq_ok.1 hk
    obtain ⟨rest, -, rfl⟩ := kAllocateBlock_ok halloc
    obtain ⟨rfl, rfl⟩ := ok_inj.1 hk
    refine .inr ⟨found, rfl, rfl, ?_⟩
    show s₁.heap.lastVaInKheap = _
    rw [hheap]

theorem NextFitInv.ok (hi : NextFitInv s resume) : NextFitOk s resume := by
  intro size va s' h1 h2 h
  have ho := hi.order.order
  have hcov := hi.order.heap.part.covered_free
  have hsearch :
      (nextFitSearch (roundup size pageSize) resume [] s.heap.blockInfoFreeList none = none ∧
        ∀ c ∈ s.heap.blockInfoFreeList, c.size < roundup size pageSize) ∨
      ∃ f, nextFitSearch (roundup size pageSize) resume [] s.heap.blockInfoFreeList none = some f ∧
        NextBlock (roundup size pageSize) resume s.heap.blockInfoFreeList f.elem :=
    nextFitSearch_next ho rfl (by simp) ⟨by simp, by simp⟩
  have hfound := hi.order.nextFit_found hi.strategy h
  rw [hi.cursor] at hfound
  unfold Kern.unallocated
  rw [← hcov]
  rcases hfound with ⟨hnone, rfl, rfl⟩ | ⟨found, hsome, rfl, -⟩
  · rcases hsearch with ⟨-, hsmall⟩ | ⟨f, hf, -⟩
    · refine ⟨⟨fun h0 => absurd rfl h0, fun _ => ?_, fun _ => rfl⟩, fun _ => rfl⟩
      rintro ⟨g, k, hm, hk⟩
      obtain ⟨b, hb, -, rfl⟩ := ho.maxRun_iff.1 hm
      exact absurd hk (Nat.not_le_of_lt (hsmall b hb))
    · rw [hnone] at hf
      cases hf
  · rcases hsearch with ⟨hn, -⟩ | ⟨f, hf, hnext⟩
    · rw [hsome] at hn
      cases hn
    · rw [hsome] at hf
      cases hf
      -- the block found is a maximal run of free addresses
      have hrun := ho.maxRun_iff.2 ⟨found.elem, hnext.mem, rfl, rfl⟩
      have hne : found.elem.startVa ≠ 0 := by
        have := (hi.order.heap.part.wf _ (List.mem_append_left _ hnext.mem)).start_le
        unfold kernelHeapStart at this
        omega
      refine ⟨⟨fun _ => ⟨_, hrun, hnext.fits, ?_⟩, ?_⟩, fun h0 => absurd h0 hne⟩
      · rcases hnext.next with ⟨hge, hlow⟩ | hlow
        · refine .inl ⟨hge, fun g k hm hk hg => ?_⟩
          obtain ⟨b, hb, rfl, rfl⟩ := ho.maxRun_iff.1 hm
          exact hlow b hb hk hg
        · refine .inr fun g k hm hk => ?_
          obtain ⟨b, hb, rfl, rfl⟩ := ho.maxRun_iff.1 hm
          exact hlow b hb hk
      · exact ⟨fun h0 => absurd h0 hne, fun hno => absurd ⟨_, _, hrun, hnext.fits⟩ hno⟩

theorem NextFitInv.kmalloc (hi : NextFitInv s resume) (h1 : 1 ≤ size) (h2 : size ≤ 2 ^ 32 - 4096)
    (h : Fos.kmalloc size s = .ok va s') : NextFitInv s' (if va = 0 then resume else va) := by
  obtain ⟨hord, hst, -⟩ := hi.order.kmalloc (.inr hi.strategy) h1 h2 h
  have h0 := (hi.ok size va s' h1 h2 h).2
  refine ⟨hord, hst.trans hi.strategy, ?_⟩
  rcases hi.order.nextFit_found hi.strategy h with ⟨-, rfl, rfl⟩ | ⟨found, -, -, hcur⟩
  · exact hi.cursor
  · split
    case isTrue hva => rw [h0 hva, hi.cursor]
    case isFalse => exact hcur

theorem NextFitInv.kfree (hi : NextFitInv s resume) (h : Fos.kfree va s = .ok () s') :
    NextFitInv s' (ResumeRule.lowering.freed s va resume) := by
  obtain ⟨hord, hst, hcase⟩ := hi.order.kfree h
  refine ⟨hord, hst.trans hi.strategy, ?_⟩
  unfold ResumeRule.lowering
  dsimp only
  rcases hcase with ⟨hnone, rfl⟩ | ⟨b, rest, hstart, hperm, -, hco⟩
  · rw [firstWhere_none.2 (by simpa using hnone)]
    exact hi.cursor
  · have hb : b ∈ s.heap.blockInfoTakenList := hperm.mem_iff.2 List.mem_cons_self
    cases hf : firstWhere (fun bi => decide (bi.startVa = va)) s.heap.blockInfoTakenList with
    | none => exact absurd hstart (by simpa using firstWhere_none.1 hf b hb)
    | some bi =>
      obtain ⟨hlist, hbi, -⟩ := firstWhere_some hf
      have hmem : bi.elem ∈ s.heap.blockInfoTakenList := by
        rw [hlist]
        simp [Place.list]
      -- no two taken blocks start at the same address
      have hbe : b = bi.elem :=
        hi.order.start_inj hb hmem (hstart.trans (by simpa using hbi : bi.elem.startVa = va).symm)
      subst hbe
      have hpos := hi.order.taken _ hb
      have hcur := coalescing_cursor (s := s) (h := { s.heap with blockInfoTakenList := rest }) rfl
        hi.strategy hi.order.order (hi.order.heap.part.fits hi.order.order hperm hpos)
        (hi.order.heap.part.noWrap kernelHeapMax_lt fun c hc => by
          rcases List.mem_cons.1 hc with rfl | hc
          · exact List.mem_append_right _ hb
          · exact List.mem_append_left _ hc) hco
      rw [hcur]
      show (if s.Alone bi.elem ∧ bi.elem.startVa < s.heap.lastVaInKheap then bi.elem.startVa
        else s.heap.lastVaInKheap) = _
      rw [hi.cursor, hstart]

theorem NextFitStep.inv {x y : Kern × Nat} (hi : NextFitInv x.1 x.2)
    (h : NextFitStep .lowering x y) : NextFitInv y.1 y.2 := by
  cases h with
  | kmalloc h1 h2 h => exact hi.kmalloc h1 h2 h
  | kfree h => exact hi.kfree h

end

/-- **Next fit resumes at the cursor.** In every state that `kmalloc` and `kfree` reach from boot
under `NEXTFIT`, a `kmalloc` takes the lowest large enough gap at or above the cursor, else the
lowest large enough one. -/
theorem nextFit_resumes {c : BootConfig} {s : Kern} {resume : Nat}
    (h : NextFitRun .lowering c s resume) : NextFitOk s resume := by
  obtain ⟨s₀, hboot, hrun⟩ := h
  have h0 : NextFitInv (setStrategy .nextFit s₀) (kernelHeapStart + 0x4000) := by
    refine ⟨orderInv_boot hboot .nextFit, rfl, ?_⟩
    show s₀.heap.lastVaInKheap = _
    rw [(fosInitialize_heapInv hboot).1]
    rfl
  exact (Prog.invariant (I := fun x => NextFitInv x.1 x.2) h0 (fun _ _ hi h => h.inv hi) hrun).ok

/-! ## A block freed below the cursor -/

/-- Two allocations of two pages under next fit, then a `kfree` of the first. -/
def firstOfTwo : Kern := Prog.final (kmalloc 5000 (setStrategy .nextFit smallBoot))
def secondOfTwo : Kern := Prog.final (kmalloc 5000 firstOfTwo)
def firstFreed : Kern := Prog.final (kfree 0xF6004000 secondOfTwo)

theorem firstOfTwo_ok :
    kmalloc 5000 (setStrategy .nextFit smallBoot) = .ok 0xF6004000 firstOfTwo :=
  Prog.ok_of_value (by decide +kernel)

theorem secondOfTwo_ok : kmalloc 5000 firstOfTwo = .ok 0xF6006000 secondOfTwo :=
  Prog.ok_of_value (by decide +kernel)

theorem firstFreed_ok : kfree 0xF6004000 secondOfTwo = .ok () firstFreed :=
  Prog.ok_of_value (by decide +kernel)

theorem firstFreed_run (rule : ResumeRule) : NextFitRun rule smallMachine firstFreed
    (rule.freed secondOfTwo 0xF6004000 (rule.allocated 0xF6006000 5000)) :=
  ⟨smallBoot, smallBoot_ok, .tail (.tail (.tail .refl
    (.kmalloc (by decide) (by decide) firstOfTwo_ok))
    (.kmalloc (by decide) (by decide) secondOfTwo_ok)) (.kfree firstFreed_ok)⟩

theorem nextFit_resumes_freed : NextFitOk firstFreed
    (ResumeRule.lowering.freed secondOfTwo 0xF6004000 0xF6006000) :=
  nextFit_resumes (firstFreed_run .lowering)

/-- The next allocation takes the freed block, although a large enough one starts at the end of the
last allocation. -/
theorem nextFit_not_afterLast : ¬ ∀ (c : BootConfig) (s : Kern) (resume : Nat),
    NextFitRun .afterLast c s resume → NextFitOk s resume := by
  intro hall
  have horder : OrderInv firstFreed := by
    have h0 := orderInv_boot smallBoot_ok .nextFit
    have h1 := (h0.kmalloc (.inr rfl) (by decide) (by decide) firstOfTwo_ok).1
    have hst : firstOfTwo.heap.strategy = .nextFit := by decide +kernel
    have h2 := (h1.kmalloc (.inr hst) (by decide) (by decide) secondOfTwo_ok).1
    exact (h2.kfree firstFreed_ok).1
  have hmem : ⟨999999, 0xF6008000, 0x9FF7000⟩ ∈ firstFreed.heap.blockInfoFreeList := by
    decide +kernel
  -- the block behind the two is free, and lies after the first
  have hfree : Gaps.MaxRun firstFreed.unallocated 0xF6008000 0x9FF7000 := by
    unfold Kern.unallocated
    rw [← horder.heap.part.covered_free]
    exact horder.order.maxRun_iff.2 ⟨_, hmem, rfl, rfl⟩
  have hround : roundup 5000 pageSize = 8192 := by decide +kernel
  have hcall : kmalloc 5000 firstFreed = .ok 0xF6004000 (Prog.final (kmalloc 5000 firstFreed)) :=
    Prog.ok_of_value (by decide +kernel)
  have hok := (hall _ _ _ (firstFreed_run .afterLast) 5000 _ _ (by decide) (by decide) hcall).1
  rw [show ResumeRule.afterLast.freed secondOfTwo 0xF6004000
    (ResumeRule.afterLast.allocated 0xF6006000 5000) = 0xF6006000 + roundup 5000 pageSize by rfl,
    hround] at hok
  obtain ⟨m, -, -, ⟨hge, -⟩ | hbelow⟩ := hok.next (by decide)
  · omega
  · have := (hbelow _ _ hfree (by decide)).1
    omega

end Fos
