import Fos.UserHeap.FirstFit

/-!
# The sizes of user allocations

What a process may rely on: the bytes it asked `malloc` for are its own, the kernel was asked for
page-file space for all of them, and `free` of the address gives back that block and no other. The
request goes through `ROUNDUP` twice, which wraps for sizes above `2^32 - 4096`.
-/

namespace Fos

open Relation (ReflTransGen)
open Prog (final ok_of_value ok_inj)

/-- A process: its heap, the system calls made so far and the pointers handed out with the sizes
they were asked for. -/
structure Process where
  heap : UHeap
  calls : List SysCall
  live : List Allocation

/-- One call of `malloc` or `free`, for sizes that satisfy `ok`. -/
inductive ProcessStep (ok : Nat → Prop) : Process → Process → Prop
  | malloc {p : Process} {h : UHeap} {calls : List SysCall} {size va : Nat} (hok : ok size)
      (hc : mallocTraced size (p.heap, p.calls) = .ok va (h, calls)) :
      ProcessStep ok p ⟨h, calls, if va = 0 then p.live else ⟨va, size⟩ :: p.live⟩
  | free {p : Process} {h : UHeap} {calls : List SysCall} {va : Nat}
      (hc : freeTraced va (p.heap, p.calls) = .ok () (h, calls)) :
      ProcessStep ok p ⟨h, calls, p.live.filter fun a => a.start ≠ va⟩

/-- A process that has not allocated yet. -/
def Process.initial : Process := ⟨UHeap.initial, [], []⟩

/-- Among the calls is a request for the `n` bytes at `start`, and none to free them follows it. -/
def AskedFor (start n : Nat) (calls : List SysCall) : Prop :=
  ∃ before after, calls = before ++ .allocateMem start n :: after ∧ ∀ m, .freeMem start m ∉ after

/-- The live allocations as the program sees them. -/
structure Process.SizesHonoured (p : Process) : Prop where
  /-- At least as many bytes as were asked for are reserved in the taken list. -/
  reserved : ∀ a ∈ p.live, ∃ b ∈ p.heap.blockInfoTakenListUser,
    b.startVa = a.start ∧ a.size ≤ b.size
  /-- They overlap no other allocation. -/
  apart : p.live.Pairwise fun a b => a.start + a.size ≤ b.start ∨ b.start + b.size ≤ a.start
  starts : (p.live.map Allocation.start).Nodup
  /-- The kernel was asked for all their pages, and not to free them since. -/
  asked : ∀ a ∈ p.live, ∃ n, AskedFor a.start n p.calls ∧ a.size ≤ n ∧ n % pageSize = 0
  /-- `free` releases the block of the allocation, and no other. -/
  free : ∀ a ∈ p.live, ∀ h calls, freeTraced a.start (p.heap, p.calls) = .ok () (h, calls) →
    ∃ b, b.startVa = a.start ∧ a.size ≤ b.size ∧
      p.heap.blockInfoTakenListUser.Perm (b :: h.blockInfoTakenListUser) ∧
      calls = p.calls ++ [.freeMem a.start b.size]

/-- Each live allocation has a block of its own, of the rounded size, and the kernel was asked for
it. -/
structure Process.Inv (p : Process) : Prop where
  order : UserFirstFitInv p.heap
  block : ∀ a ∈ p.live, Requestable a.size ∧ ∃ b ∈ p.heap.blockInfoTakenListUser,
    b.startVa = a.start ∧ b.size = roundup a.size pageSize
  starts : (p.live.map Allocation.start).Nodup
  asked : ∀ a ∈ p.live, AskedFor a.start (roundup a.size pageSize) p.calls

section

variable {p q : Process} {h : UHeap} {calls : List SysCall} {size va : Nat}

theorem askedFor_last (start n : Nat) (calls : List SysCall) :
    AskedFor start n (calls ++ [.allocateMem start n]) :=
  ⟨calls, [], rfl, fun _ => List.not_mem_nil⟩

theorem AskedFor.append {start n : Nat} {c : SysCall} (h : AskedFor start n calls)
    (hc : ∀ m, .freeMem start m ≠ c) : AskedFor start n (calls ++ [c]) := by
  obtain ⟨before, after, rfl, hnone⟩ := h
  refine ⟨before, after ++ [c], by simp, fun m hm => ?_⟩
  rcases List.mem_append.1 hm with hm | hm
  · exact hnone m hm
  · exact hc m (List.mem_singleton.1 hm)

theorem Process.Inv.malloc (hi : p.Inv) (hok : Requestable size)
    (hc : mallocTraced size (p.heap, p.calls) = .ok va (h, calls)) :
    Process.Inv ⟨h, calls, if va = 0 then p.live else ⟨va, size⟩ :: p.live⟩ := by
  obtain ⟨hm, hcalls⟩ := mallocTraced_ok hc
  dsimp only at hm hcalls
  have hpos : 0 < roundup (roundup size pageSize) pageSize := by
    rw [roundup_roundup]
    exact hok.roundup_pos
  have horder := hi.order.firstFitUser hpos hm
  obtain ⟨-, hr⟩ := firstFitUser_ok hi.order.part.fresh hm
  cases hr with
  | none _ _ htaken =>
    rw [if_pos rfl] at hcalls ⊢
    subst hcalls
    exact ⟨horder, by rw [htaken]; exact hi.block, hi.starts, hi.asked⟩
  | some found id hsome _ htaken =>
    rw [roundup_roundup] at htaken
    set b : BlockInfo := ⟨id, found.elem.startVa, roundup size pageSize⟩ with hb
    have hmem : b ∈ h.blockInfoTakenListUser := by
      rw [htaken]
      exact List.mem_cons_self
    have hva : found.elem.startVa ≠ 0 := hi.order.part.start_ne_zero hsome
    rw [if_neg hva] at hcalls ⊢
    subst hcalls
    refine ⟨horder, ?_, ?_, ?_⟩
    · intro a ha
      rcases List.mem_cons.1 ha with rfl | ha
      · exact ⟨hok, b, hmem, rfl, rfl⟩
      · obtain ⟨hreq, c, hc, hc'⟩ := hi.block a ha
        exact ⟨hreq, c, by rw [htaken]; exact List.mem_cons_of_mem b hc, hc'⟩
    · rw [List.map_cons, List.nodup_cons]
      refine ⟨fun hin => ?_, hi.starts⟩
      -- a live allocation at the new start would have a second block there
      obtain ⟨a, ha, hav⟩ := List.mem_map.1 hin
      dsimp only at hav
      obtain ⟨-, c, hc, hcs, -⟩ := hi.block a ha
      have hpw := (List.pairwise_append.1 horder.part.part.tiles.1).2.1
      rw [htaken] at hpw
      have hd := (List.pairwise_cons.1 hpw).1 c hc
      have h1 := hi.order.taken c hc
      have h2 := horder.taken b hmem
      have h3 : b.startVa = found.elem.startVa := rfl
      rcases Cover.disjoint_range_iff.1 hd with h | h | h | h <;> omega
    · intro a ha
      rcases List.mem_cons.1 ha with rfl | ha
      · exact askedFor_last ..
      · exact (hi.asked a ha).append fun _ => nofun

theorem Process.Inv.free (hi : p.Inv)
    (hc : freeTraced va (p.heap, p.calls) = .ok () (h, calls)) :
    Process.Inv ⟨h, calls, p.live.filter fun a => a.start ≠ va⟩ := by
  have hf := freeTraced_free hc
  have horder := hi.order.free hf
  have hmem : ∀ {a}, a ∈ p.live.filter (fun a => a.start ≠ va) → a ∈ p.live ∧ a.start ≠ va := by
    intro a ha
    simpa using List.mem_filter.1 ha
  -- the blocks that start elsewhere stay taken
  have hkeep : ∀ b ∈ p.heap.blockInfoTakenListUser, b.startVa ≠ va →
      b ∈ h.blockInfoTakenListUser := by
    intro b hb hne
    rcases free_ok hf with ⟨-, rfl⟩ | ⟨bi, hlist, hstart, -, htaken, -⟩
    · exact hb
    · rw [hlist, Place.list, List.mem_append, List.mem_cons] at hb
      rw [htaken, Place.removed, List.mem_append]
      rcases hb with hb | rfl | hb
      · exact .inl hb
      · exact absurd hstart hne
      · exact .inr hb
  -- the request that goes out is about `va`, so it ends no other request
  have hasked : ∀ start n, start ≠ va → AskedFor start n p.calls → AskedFor start n calls := by
    intro start n hne hask
    cases hfirst : firstWhere (fun bi => decide (bi.startVa = va)) p.heap.blockInfoTakenListUser with
    | none =>
      rw [freeTraced, Prog.get_bind_apply] at hc
      dsimp only at hc
      rw [hfirst] at hc
      obtain ⟨-, he⟩ := ok_inj.1 hc
      rw [← (Prod.mk.inj he).2]
      exact hask
    | some bi =>
      rw [freeTraced_calls hfirst hc]
      exact hask.append fun m he => hne (SysCall.freeMem.inj he).1
  refine ⟨horder, fun a ha => ?_, hi.starts.sublist (List.filter_sublist.map _),
    fun a ha => hasked _ _ (hmem ha).2 (hi.asked a (hmem ha).1)⟩
  obtain ⟨ha, hne⟩ := hmem ha
  obtain ⟨hreq, b, hb, hstart, hsize⟩ := hi.block a ha
  exact ⟨hreq, b, hkeep b hb (by rwa [hstart]), hstart, hsize⟩

theorem ProcessStep.inv (hi : p.Inv) (h : ProcessStep Requestable p q) : q.Inv := by
  cases h with
  | malloc hok hc => exact hi.malloc hok hc
  | free hc => exact hi.free hc

theorem Process.Inv.honoured (hi : p.Inv) : p.SizesHonoured := by
  have hle : ∀ {size}, Requestable size → size ≤ roundup size pageSize := fun h => le_roundup h.2
  refine ⟨fun a ha => ?_, ?_, hi.starts, fun a ha => ?_, fun a ha h calls hc => ?_⟩
  · obtain ⟨hreq, b, hb, hstart, hsize⟩ := hi.block a ha
    exact ⟨b, hb, hstart, hsize ▸ hle hreq⟩
  · refine (List.pairwise_map.1 hi.starts).imp_of_mem ?_
    intro a b ha hb hne
    obtain ⟨hra, c, hc, hcs, hcz⟩ := hi.block a ha
    obtain ⟨hrb, d, hd, hds, hdz⟩ := hi.block b hb
    -- different starts come from different blocks
    have hcd : c ≠ d := by
      rintro rfl
      exact hne (hcs.symm.trans hds)
    have h1 := hle hra
    have h2 := hle hrb
    rcases hi.order.part.part.taken_apart hi.order.taken hc hd hcd with h | h <;> omega
  · exact ⟨_, hi.asked a ha, hle (hi.block a ha).1, roundup_mod _⟩
  · obtain ⟨hreq, b, hb, hstart, hsize⟩ := hi.block a ha
    have hcalls := hi.order.ok.free a.start p.calls h calls hc b hb hstart
    rcases free_ok (freeTraced_free hc) with ⟨hnone, -⟩ | ⟨bi, hlist, hbi, -, htaken, -⟩
    · exact absurd hstart (hnone b hb)
    · have hmem : bi.elem ∈ p.heap.blockInfoTakenListUser := by
        rw [hlist]
        simp [Place.list]
      -- the block found by its start is the one reserved for it
      have hbe : b = bi.elem := hi.order.start_inj hb hmem (hstart.trans hbi.symm)
      subst hbe
      refine ⟨bi.elem, hstart, hsize ▸ hle hreq, ?_, hcalls⟩
      rw [hlist, htaken]
      exact List.perm_middle

end

/-- **User allocations honour their size**, in every run that asks for `1` to `2^32 - 4096` bytes
each time. -/
theorem malloc_honours_size {p : Process}
    (hrun : ReflTransGen (ProcessStep Requestable) .initial p) : p.SizesHonoured := by
  have h0 : Process.Inv .initial :=
    ⟨userFirstFitInv_initial, by simp [Process.initial], by simp [Process.initial],
      by simp [Process.initial]⟩
  exact (Prog.invariant (I := Process.Inv) h0 (fun _ _ hi h => h.inv hi) hrun).honoured

/-- Three blocks are allocated, -/
def oneBlock : UHeap × List SysCall := final (mallocTraced 5000 (UHeap.initial, []))

def twoBlocks : UHeap × List SysCall := final (mallocTraced 4096 oneBlock)

def threeBlocks : UHeap × List SysCall := final (mallocTraced 4096 twoBlocks)

/-- the first two are freed, -/
def firstGap : UHeap × List SysCall := final (freeTraced 0x80000000 threeBlocks)

def joinedGap : UHeap × List SysCall := final (freeTraced 0x80002000 firstGap)

/-- and a new one takes their gap. -/
def gapTaken : UHeap × List SysCall := final (mallocTraced 10000 joinedGap)

theorem gapTaken_values :
    Prog.value (mallocTraced 5000 (UHeap.initial, [])) = some 0x80000000 ∧
    Prog.value (mallocTraced 4096 oneBlock) = some 0x80002000 ∧
    Prog.value (mallocTraced 4096 twoBlocks) = some 0x80003000 ∧
    Prog.value (freeTraced 0x80000000 threeBlocks) = some () ∧
    Prog.value (freeTraced 0x80002000 firstGap) = some () ∧
    Prog.value (mallocTraced 10000 joinedGap) = some 0x80000000 := by decide +kernel

/-- The kernel is asked for the pages at 0x80000000 twice, and to free them in between. -/
theorem malloc_honours_size_first : Process.SizesHonoured
    ⟨gapTaken.1, gapTaken.2, [⟨0x80000000, 10000⟩, ⟨0x80003000, 4096⟩]⟩ := by
  obtain ⟨h₁, h₂, h₃, h₄, h₅, h₆⟩ := gapTaken_values
  have hmalloc : ∀ (x y : UHeap × List SysCall) live n va, Requestable n → va ≠ 0 →
      mallocTraced n x = .ok va y →
      ProcessStep Requestable ⟨x.1, x.2, live⟩ ⟨y.1, y.2, ⟨va, n⟩ :: live⟩ := by
    intro x y live n va hn hva hc
    have hstep := ProcessStep.malloc (p := ⟨x.1, x.2, live⟩) hn hc
    rwa [if_neg hva] at hstep
  have hfree : ∀ (x y : UHeap × List SysCall) live va, freeTraced va x = .ok () y →
      ProcessStep Requestable ⟨x.1, x.2, live⟩ ⟨y.1, y.2, live.filter fun a => a.start ≠ va⟩ :=
    fun _ _ _ _ hc => .free hc
  have hsize : Requestable 4096 := ⟨by decide, by decide⟩
  -- three requests, two frees that join their gap, and a request that takes it
  have hrun₁ := hmalloc (UHeap.initial, []) oneBlock [] 5000 _ ⟨by decide, by decide⟩ (by decide)
    (ok_of_value h₁)
  have hrun₂ :=
    hmalloc oneBlock twoBlocks [⟨0x80000000, 5000⟩] 4096 _ hsize (by decide) (ok_of_value h₂)
  have hrun₃ := hmalloc twoBlocks threeBlocks [⟨0x80002000, 4096⟩, ⟨0x80000000, 5000⟩] 4096 _ hsize
    (by decide) (ok_of_value h₃)
  have hrun₄ := hfree threeBlocks firstGap
    [⟨0x80003000, 4096⟩, ⟨0x80002000, 4096⟩, ⟨0x80000000, 5000⟩] _ (ok_of_value h₄)
  have hrun₅ := hfree firstGap joinedGap [⟨0x80003000, 4096⟩, ⟨0x80002000, 4096⟩] _ (ok_of_value h₅)
  have hrun₆ :=
    hmalloc joinedGap gapTaken [⟨0x80003000, 4096⟩] 10000 _ ⟨by decide, by decide⟩ (by decide)
    (ok_of_value h₆)
  exact malloc_honours_size
    (.tail (.tail (.tail (.tail (.tail (.single hrun₁) hrun₂) hrun₃) hrun₄) hrun₅) hrun₆)

/-- `malloc(0xFFFFFFFF)` hands out an empty block. -/
theorem malloc_huge : ¬ ∀ p : Process,
    ReflTransGen (ProcessStep fun size => size < 2 ^ 32) .initial p → p.SizesHonoured := by
  intro hall
  have hrun : mallocTraced 0xFFFFFFFF (UHeap.initial, []) = .ok 0x80000000
      ((final (mallocTraced 0xFFFFFFFF (UHeap.initial, []))).1,
        (final (mallocTraced 0xFFFFFFFF (UHeap.initial, []))).2) := ok_of_value (by decide +kernel)
  obtain ⟨b, hb, -, hsize⟩ := (hall _ (.tail .refl (.malloc (by decide) hrun))).reserved
    ⟨0x80000000, 0xFFFFFFFF⟩ List.mem_cons_self
  have hsmall : ∀ b ∈ (final (mallocTraced 0xFFFFFFFF
      (UHeap.initial, []))).1.blockInfoTakenListUser, b.size < 0xFFFFFFFF := by
    decide +kernel
  have := hsmall b hb
  dsimp only at hsize
  omega

end Fos
