import Fos.KernelHeap.Order

/-!
# The sizes of kernel allocations

What a caller of `kmalloc` may rely on: the bytes it asked for are its own, and `kfree` of the
address gives back that block and no other. `ROUNDUP` wraps for sizes above `2^32 - 4096` and is
zero for size zero, and then the block that `kmalloc` hands out is empty.
-/

namespace Fos

open Relation (ReflTransGen)
open Prog (ok_of_value)

/-- One call, with the pointers handed out so far and the sizes they were asked for. A `NULL` is not
an allocation, and `kfree` ends the allocation that starts at its argument. -/
inductive SizedStep (ok : Nat → Prop) :
    Kern × List Allocation → Kern × List Allocation → Prop
  | kmalloc {s s' : Kern} {live : List Allocation} {size va : Nat} (hok : ok size)
      (hfit : s.heap.Fits) (h : kmalloc size s = .ok va s') :
      SizedStep ok (s, live) (s', if va = 0 then live else ⟨va, size⟩ :: live)
  | kfree {s s' : Kern} {live : List Allocation} {va : Nat} (h : kfree va s = .ok () s') :
      SizedStep ok (s, live) (s', live.filter fun a => a.start ≠ va)
  | setFirstFit (s : Kern) (live : List Allocation) :
      SizedStep ok (s, live) (setStrategy .firstFit s, live)
  | setNextFit (s : Kern) (live : List Allocation) :
      SizedStep ok (s, live) (setStrategy .nextFit s, live)

/-- A run from boot under first fit or next fit whose requests satisfy `ok`. -/
def SizedRun (ok : Nat → Prop) (c : BootConfig) (s : Kern) (live : List Allocation) : Prop :=
  ∃ s₀, fosInitialize (initializePaging c) = .ok () s₀ ∧
    ReflTransGen (SizedStep ok) (s₀, []) (s, live)

/-- The live allocations as their owners see them. -/
structure SizesHonoured (s : Kern) (live : List Allocation) : Prop where
  /-- At least as many bytes as were asked for are reserved. -/
  reserved : ∀ a ∈ live, ∃ b ∈ s.heap.blockInfoTakenList, b.startVa = a.start ∧ a.size ≤ b.size
  /-- They belong to no other allocation. -/
  apart : live.Pairwise fun a b => a.start + a.size ≤ b.start ∨ b.start + b.size ≤ a.start
  starts : (live.map Allocation.start).Nodup
  /-- `kfree` releases the block of the allocation, and no other. -/
  kfree : ∀ a ∈ live, ∀ t, Fos.kfree a.start s = .ok () t →
    ∃ b, b.startVa = a.start ∧ a.size ≤ b.size ∧
      s.heap.blockInfoTakenList.Perm (b :: t.heap.blockInfoTakenList)

/-- The sizes that `ROUNDUP` leaves at least as large. -/
def KernelRequestable (size : Nat) : Prop := 1 ≤ size ∧ size ≤ 2 ^ 32 - 4096

/-- Each live allocation has a block of its own, of the rounded size. -/
structure SizedInv (s : Kern) (live : List Allocation) : Prop where
  order : OrderInv s
  block : ∀ a ∈ live, KernelRequestable a.size ∧ ∃ b ∈ s.heap.blockInfoTakenList,
    b.startVa = a.start ∧ b.size = roundup a.size pageSize
  starts : (live.map Allocation.start).Nodup

section

variable {s s' : Kern} {live : List Allocation} {size va : Nat}

theorem SizedInv.kmalloc (hi : SizedInv s live) (hok : KernelRequestable size)
    (hfit : s.heap.Fits) (h : Fos.kmalloc size s = .ok va s') :
    SizedInv s' (if va = 0 then live else ⟨va, size⟩ :: live) := by
  obtain ⟨horder, -, hcase⟩ := hi.order.kmalloc hfit hok.1 hok.2 h
  rcases hcase with ⟨rfl, rfl⟩ | ⟨b, found, hstart, hsize, ha⟩
  · exact hi
  have htaken := ha.taken
  have hb : b ∈ s'.heap.blockInfoTakenList := htaken.mem_iff.2 List.mem_cons_self
  have hva : va ≠ 0 := by
    have := (horder.heap.part.wf b (List.mem_append_right _ hb)).start_le
    unfold kernelHeapStart at this
    omega
  rw [if_neg hva]
  refine ⟨horder, ?_, ?_⟩
  · intro a hmem
    rcases List.mem_cons.1 hmem with rfl | hmem
    · exact ⟨hok, b, hb, hstart, hsize⟩
    · obtain ⟨hreq, c, hc, hc'⟩ := hi.block a hmem
      exact ⟨hreq, c, htaken.mem_iff.2 (List.mem_cons_of_mem b hc), hc'⟩
  · rw [List.map_cons, List.nodup_cons]
    refine ⟨fun hmem => ?_, hi.starts⟩
    -- a live allocation at `va` would have a second block there
    obtain ⟨a, ha', hav⟩ := List.mem_map.1 hmem
    obtain ⟨-, c, hc, hcs, -⟩ := hi.block a ha'
    dsimp only at hav
    have hpw := (List.pairwise_append.1 horder.heap.part.tiles.1).2.1
    have hd := (List.pairwise_cons.1 ((htaken.pairwise_iff fun h => h.symm).1 hpw)).1 c hc
    have hpos := hi.order.taken c hc
    have hposb := horder.taken b hb
    rcases Cover.disjoint_range_iff.1 hd with h | h | h | h <;> omega

theorem SizedInv.kfree (hi : SizedInv s live) (h : Fos.kfree va s = .ok () s') :
    SizedInv s' (live.filter fun a => a.start ≠ va) := by
  obtain ⟨horder, -, hcase⟩ := hi.order.kfree h
  have hmem : ∀ {a}, a ∈ live.filter (fun a => a.start ≠ va) → a ∈ live ∧ a.start ≠ va := by
    intro a ha
    simpa using List.mem_filter.1 ha
  refine ⟨horder, fun a ha => ?_, hi.starts.sublist (List.filter_sublist.map _)⟩
  obtain ⟨ha, hne⟩ := hmem ha
  obtain ⟨hreq, b, hb, hstart, hsize⟩ := hi.block a ha
  refine ⟨hreq, b, ?_, hstart, hsize⟩
  rcases hcase with ⟨-, rfl⟩ | ⟨c, rest, hc, hperm, hrest, -⟩
  · exact hb
  · rcases List.mem_cons.1 (hperm.mem_iff.1 hb) with rfl | hb
    · exact absurd (hstart.symm.trans hc) hne
    · rw [hrest]
      exact hb

theorem SizedStep.inv {x y : Kern × List Allocation} (hi : SizedInv x.1 x.2)
    (h : SizedStep KernelRequestable x y) : SizedInv y.1 y.2 := by
  cases h with
  | kmalloc hok hfit h => exact hi.kmalloc hok hfit h
  | kfree h => exact hi.kfree h
  | setFirstFit s live =>
    exact ⟨⟨hi.order.heap.setStrategy .firstFit, hi.order.order, hi.order.taken⟩,
      hi.block, hi.starts⟩
  | setNextFit s live =>
    exact ⟨⟨hi.order.heap.setStrategy .nextFit, hi.order.order, hi.order.taken⟩,
      hi.block, hi.starts⟩

theorem SizedInv.honoured (hi : SizedInv s live) : SizesHonoured s live := by
  have hle : ∀ {size}, KernelRequestable size → size ≤ roundup size pageSize :=
    fun h => le_roundup h.2
  refine ⟨fun a ha => ?_, ?_, hi.starts, fun a ha t h => ?_⟩
  · obtain ⟨hreq, b, hb, hstart, hsize⟩ := hi.block a ha
    exact ⟨b, hb, hstart, hsize ▸ hle hreq⟩
  · refine (List.pairwise_map.1 hi.starts).imp_of_mem ?_
    intro a b ha hb hne
    obtain ⟨hra, c, hc, hcs, hcz⟩ := hi.block a ha
    obtain ⟨hrb, d, hd, hds, hdz⟩ := hi.block b hb
    -- two allocations have two blocks, and blocks lie apart
    have hcd : c ≠ d := by
      rintro rfl
      exact hne (hcs.symm.trans hds)
    have h1 := hle hra
    have h2 := hle hrb
    have hpart : BlockPartition kernelHeapStart kernelHeapMax _ _ := hi.order.heap.part
    rcases hpart.taken_apart hi.order.taken hc hd hcd with h | h <;> omega
  · obtain ⟨hreq, b, hb, hstart, hsize⟩ := hi.block a ha
    obtain ⟨-, -, ⟨hnone, -⟩ | ⟨c, rest, hc, hperm, hrest, -⟩⟩ := hi.order.kfree h
    · exact absurd hstart (hnone b hb)
    · have hcb : b = c := hi.order.start_inj hb (hperm.mem_iff.2 List.mem_cons_self)
        (hstart.trans hc.symm)
      subst hcb
      rw [hrest]
      exact ⟨b, hstart, hsize ▸ hle hreq, hperm⟩

theorem sizedInv_run {c : BootConfig} {s₀ : Kern}
    (hboot : fosInitialize (initializePaging c) = .ok () s₀)
    (hrun : ReflTransGen (SizedStep KernelRequestable) (s₀, []) (s, live)) : SizedInv s live := by
  have h0 : SizedInv s₀ [] := by
    have hb := orderInv_boot hboot s₀.heap.strategy
    exact ⟨⟨hb.heap, hb.order, hb.taken⟩, by simp, by simp⟩
  exact Prog.invariant (I := fun x => SizedInv x.1 x.2) h0 (fun _ _ hi h => h.inv hi) hrun

end

/-- **Kernel allocations honour their size**, in every run that asks for `1` to `2^32 - 4096` bytes
each time. -/
theorem kmalloc_honours_size {c : BootConfig} {s : Kern} {live : List Allocation}
    (h : SizedRun KernelRequestable c s live) : SizesHonoured s live := by
  obtain ⟨s₀, hboot, hrun⟩ := h
  exact (sizedInv_run hboot hrun).honoured

theorem kmalloc_honours_size_small : SizesHonoured
    (Prog.final (kmalloc 5000 (setStrategy .firstFit smallBoot))) [⟨0xF6004000, 5000⟩] := by
  have hrun : kmalloc 5000 (setStrategy .firstFit smallBoot) = .ok 0xF6004000
      (Prog.final (kmalloc 5000 (setStrategy .firstFit smallBoot))) :=
    ok_of_value (by decide +kernel)
  exact kmalloc_honours_size ⟨smallBoot, smallBoot_ok, .tail (.tail .refl (.setFirstFit _ _)) <|
    .kmalloc ⟨by decide, by decide⟩ (.inl rfl) hrun⟩

/-- `kmalloc(0xFFFFFFFF)` hands out an empty block. -/
theorem kmalloc_huge : ¬ ∀ (c : BootConfig) (s : Kern) (live : List Allocation),
    SizedRun (fun size => size < 2 ^ 32) c s live → SizesHonoured s live := by
  intro hall
  have hrun : kmalloc 0xFFFFFFFF (setStrategy .firstFit smallBoot) = .ok 0xF6004000
      (Prog.final (kmalloc 0xFFFFFFFF (setStrategy .firstFit smallBoot))) :=
    ok_of_value (by decide +kernel)
  obtain ⟨b, hb, hstart, hsize⟩ := (hall smallMachine _ _ ⟨smallBoot, smallBoot_ok,
    .tail (.tail .refl (.setFirstFit _ _)) (.kmalloc (by decide) (.inl rfl) hrun)⟩).reserved
    ⟨0xF6004000, 0xFFFFFFFF⟩ List.mem_cons_self
  have hall' : ∀ b ∈ (Prog.final (kmalloc 0xFFFFFFFF
      (setStrategy .firstFit smallBoot))).heap.blockInfoTakenList, b.size < 0xFFFFFFFF := by
    decide +kernel
  have := hall' b hb
  dsimp only at hsize
  omega

end Fos
