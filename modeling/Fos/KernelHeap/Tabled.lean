import Fos.KernelHeap.Partition

/-!
# Mapping anywhere in the kernel space

The cursor of `kmalloc` also moves under the strategies that do not use it, so under `CONT_ALLOC` it
may point below the kernel heap, or come round. Mapping pages there makes at most one page table:
the boot directory has the tables of every kernel page but those of entry 956, and `kmalloc` never
gets past a user page, where making the table asks for the same page again.
-/

namespace Fos

open Prog (bind_eq_ok ok_inj Keeps)

/-! ## What the calls keep -/

/-- The block lists and the boot directory. -/
def Kern.bookkeeping (s : Kern) : Heap × (Nat → Nat) := (s.heap, s.kernelDirectory)

section

variable {γ : Type} {π : Kern → γ} {s t : Kern} {dir : DirPtr} {tbl : TablePtr}
    {i w va f perm n : Nat}

theorem bookkeeping_eq (h : t.bookkeeping = s.bookkeeping) :
    t.heap = s.heap ∧ t.kernelDirectory = s.kernelDirectory := Prod.mk.inj h

-- what only reads keeps every part of the state
theorem readWord_keeps (va : Nat) : Keeps π (readWord va) :=
  .get_bind fun _ => .ite (.pure _) (.throw _)

theorem writeWord_keeps (va w : Nat) : Keeps Kern.bookkeeping (writeWord va w) := by
  intro s a t h
  rw [writeWord, Prog.get_bind_apply, Prog.ite_run] at h
  split at h
  case isTrue =>
    rw [← (ok_inj.1 h).2]
    rfl
  case isFalse => cases h

theorem readPte_keeps (tbl : TablePtr) (i : Nat) : Keeps π (readPte tbl i) := by
  cases tbl with
  | boot d => exact .get_bind fun _ => .pure _
  | directory => exact .get_bind fun _ => .pure _
  | heap va => exact readWord_keeps _

theorem writePte_keeps (tbl : TablePtr) (i w : Nat) :
    Keeps Kern.bookkeeping (writePte tbl i w) := by
  cases tbl with
  | boot d => exact .modify fun _ => rfl
  | directory => exact .throw _
  | heap va => exact writeWord_keeps _ _

theorem readPde_keeps (dir : DirPtr) (i : Nat) : Keeps π (readPde dir i) := by
  cases dir with
  | boot => exact .get_bind fun _ => .pure _
  | heap va => exact readWord_keeps _

theorem getPageTable_keeps (dir : DirPtr) (va : Nat) : Keeps π (getPageTable dir va) :=
  .bind (readPde_keeps dir _) fun _ => .get_bind fun _ =>
    .ite (.pure _) (.ite (.throw _) (.ite (.pure _) (.throw _)))

theorem toFrameInfo_keeps (pa : Nat) : Keeps π (toFrameInfo pa) :=
  .get_bind fun _ => .ite (.throw _) (.pure _)

theorem getFrameInfo_keeps (dir : DirPtr) (va : Nat) : Keeps π (getFrameInfo dir va) := by
  refine .bind (getPageTable_keeps dir va) fun t => ?_
  cases t with
  | none => exact .pure _
  | some t =>
    refine .ite (.pure _) (.bind (readPte_keeps t _) fun pte => ?_)
    exact .ite (.bind (toFrameInfo_keeps _) fun _ => .pure _) (.pure _)

theorem unmapFrame_keeps (dir : DirPtr) (va : Nat) :
    Keeps Kern.bookkeeping (unmapFrame dir va) := by
  refine .bind (getFrameInfo_keeps dir va) fun r => ?_
  cases r with
  | none => exact .pure _
  | some r => exact .bind (.modify fun _ => rfl) fun _ => writePte_keeps _ _ _

theorem mapFrameIn_keeps (dir : DirPtr) (tbl : TablePtr) (f va perm : Nat) :
    Keeps Kern.bookkeeping (mapFrameIn dir tbl f va perm) := by
  refine .bind (readPte_keeps tbl _) fun pte => .ite (.pure _) (.bind ?_ fun _ => ?_)
  · exact .ite (unmapFrame_keeps dir va) (.pure _)
  · exact .bind (.modify fun _ => rfl) fun _ => writePte_keeps _ _ _

theorem zeroWords_keeps (n va : Nat) : Keeps Kern.bookkeeping (zeroWords va n) := by
  induction n generalizing va with
  | zero => exact .pure _
  | succ n ih => exact .bind (writeWord_keeps va 0) fun _ => ih _

theorem unmapPages_keeps (n va : Nat) : Keeps Kern.bookkeeping (unmapPages n va) := by
  induction n generalizing va with
  | zero => exact .pure _
  | succ n ih => exact .bind (unmapFrame_keeps .boot va) fun _ => ih _

theorem kheapPhysicalAddress_keeps (va : Nat) :
    Keeps Kern.bookkeeping (kheapPhysicalAddress va) := by
  refine .bind (getPageTable_keeps .boot va) fun t => ?_
  cases t with
  | none => exact .throw _
  | some t => exact .bind (readPte_keeps t _) fun _ => .pure _

theorem allocateFrame_keeps : Keeps Kern.bookkeeping allocateFrame := by
  intro s f t h
  cases hl : s.frames.freeFrameList with
  | nil =>
    rw [allocateFrame_nil hl] at h
    cases h
  | cons g rest =>
    rw [allocateFrame_cons hl] at h
    rw [← (ok_inj.1 h).2]
    rfl

end

/-! ## Pages with a table -/

/-- An entry with the present bit among its permissions is present. -/
theorem present_constructEntry_or (pa perm : Nat) :
    present (constructEntry pa (perm ||| permPresent)) := by
  unfold present constructEntry
  rw [← Nat.or_assoc, show permPresent = 1 from rfl, Nat.and_one_is_mod]
  simp

/-- The page lies from `USER_TOP` up, and the boot directory has a table for it. -/
def Kern.Tabled (s : Kern) (p : Nat) : Prop := 977920 ≤ p ∧ present (s.kernelDirectory (p / 1024))

/-- The boot directory has all its kernel tables, except perhaps the one of entry 956, and no user
table. -/
structure KernelTables (s : Kern) : Prop where
  user : ∀ i < 955, ¬ present (s.kernelDirectory i)
  kernel : ∀ i, 955 ≤ i → i < 1024 → i ≠ 956 → present (s.kernelDirectory i)

/-- A run of whole pages that all have a table. -/
structure Kern.Placed (s : Kern) (b : BlockInfo) : Prop where
  start_aligned : b.startVa % 4096 = 0
  size_aligned : b.size % 4096 = 0
  start_lt : b.startVa < 4294967296
  end_le : b.startVa + b.size ≤ 4294967296
  tabled : ∀ p, b.startVa ≤ p * 4096 → p * 4096 < b.startVa + b.size → s.Tabled p

section

variable {s t : Kern} {b c take m : BlockInfo} {X : List BlockInfo} {f n p va perm size : Nat}

theorem Kern.Tabled.mono (h : s.Tabled p)
    (hst : ∀ i, present (s.kernelDirectory i) → present (t.kernelDirectory i)) : t.Tabled p :=
  ⟨h.1, hst _ h.2⟩

theorem Kern.Placed.mono (h : s.Placed b)
    (hst : ∀ i, present (s.kernelDirectory i) → present (t.kernelDirectory i)) : t.Placed b :=
  ⟨h.start_aligned, h.size_aligned, h.start_lt, h.end_le,
    fun p h1 h2 => (h.tabled p h1 h2).mono hst⟩

/-- The page of the block's start, when it has one. -/
theorem Kern.Placed.start_ge (h : s.Placed b) (hpos : 0 < b.size) : 977920 * 4096 ≤ b.startVa := by
  have ha := h.start_aligned
  have hp := h.tabled (b.startVa / 4096) (by omega) (by omega)
  have := hp.1
  omega

theorem Kern.Placed.carved (h : s.Placed b) (hsize : size % 4096 = 0) (hle : size ≤ b.size) :
    s.Placed (b.carved size) := by
  obtain ⟨h1, h2, h3, h4, h5⟩ := h
  by_cases hlt : b.startVa + size < 4294967296
  · have hu : u32 (b.startVa + size) = b.startVa + size := u32_of_lt hlt
    refine ⟨?_, ?_, ?_, ?_, fun p hp hp' => h5 p ?_ ?_⟩ <;>
      simp only [BlockInfo.carved, hu] at * <;> omega
  · -- nothing is left
    have hsz : b.size - size = 0 := by omega
    have hu : u32 (b.startVa + size) = 0 := by unfold u32; omega
    refine ⟨?_, ?_, ?_, ?_, fun p hp hp' => ?_⟩ <;>
      simp only [BlockInfo.carved, hu, hsz] at * <;> omega

/-- Two placed blocks that adjoin, made one. -/
theorem Kern.Placed.merge (hb : s.Placed b) (hc : s.Placed c)
    (hadj : u32 (b.startVa + b.size) = c.startVa) (id : Nat) :
    s.Placed ⟨id, b.startVa, u32 (b.size + c.size)⟩ := by
  have h1 := hb.start_aligned
  have h2 := hb.size_aligned
  have h3 := hc.size_aligned
  have h4 := hb.end_le
  have h5 := hc.end_le
  by_cases hlt : b.startVa + b.size < 4294967296
  · rw [u32_of_lt hlt] at hadj
    by_cases hfull : b.size + c.size < 4294967296
    · have hu : u32 (b.size + c.size) = b.size + c.size := u32_of_lt hfull
      rw [hu]
      refine ⟨h1, ?_, hb.start_lt, ?_, fun p hp hp' => ?_⟩
      · show (b.size + c.size) % 4096 = 0
        omega
      · show b.startVa + (b.size + c.size) ≤ 4294967296
        omega
      · change b.startVa ≤ p * 4096 at hp
        change p * 4096 < b.startVa + (b.size + c.size) at hp'
        by_cases hin : p * 4096 < b.startVa + b.size
        · exact hb.tabled p hp hin
        · exact hc.tabled p (by omega) (by omega)
    · -- the whole address space is not placed
      exfalso
      by_cases hpos : 0 < b.size
      · have := hb.start_ge hpos
        omega
      · have := hc.start_ge (by omega)
        omega
  · -- the first block ends at the top, where no page begins
    have hz : c.startVa = 0 := by
      rw [← hadj]
      unfold u32
      omega
    have hc0 : c.size = 0 := by
      by_contra hne
      have := hc.start_ge (Nat.pos_of_ne_zero hne)
      omega
    have hu : u32 (b.size + c.size) = b.size := by
      rw [hc0, Nat.add_zero]
      refine u32_of_lt ?_
      by_contra hbig
      have := hb.start_ge (by omega)
      omega
    rw [hu]
    exact ⟨h1, h2, hb.start_lt, h4, hb.tabled⟩

theorem Merge.placed (h : Merge take X m) (htake : s.Placed take) (hX : ∀ b ∈ X, s.Placed b) :
    s.Placed m := by
  cases h with
  | alone => exact htake
  | @nex nex h =>
    have hm := htake.merge (hX nex (by simp)) h nex.id
    rwa [Nat.add_comm take.size nex.size] at hm
  | @pre pre h => exact (hX pre (by simp)).merge htake h pre.id
  | @both pre nex h h' =>
    exact (hX pre (by simp)).merge (htake.merge (hX nex (by simp)) h' take.id) h pre.id

/-! ## Mapping -/

theorem Kern.Tabled.getPageTable (h : s.Tabled p) (hp : p < 1048576) :
    ∃ tbl, Fos.getPageTable .boot (p * 4096) s = .ok (some tbl) s := by
  have hpdx : pdx (p * 4096) = p / 1024 := by unfold pdx; omega
  have hpr := h.2
  rw [← hpdx] at hpr
  exact ⟨_, getPageTable_boot hpr⟩

/-- A page that has a table is mapped without making one. -/
theorem mapFrame_tabled {create : DirPtr → Nat → K TablePtr} (h : s.Tabled p) (hp : p < 1048576)
    (hk : mapFrameWith create .boot f (p * 4096) perm s = .ok () t) :
    t.bookkeeping = s.bookkeeping := by
  obtain ⟨tbl, u, htbl, hin⟩ := bind_eq_ok.1 hk
  obtain ⟨tbl', hget⟩ := h.getPageTable hp
  rw [pageTableWith, Prog.bind_of_ok hget] at htbl
  obtain ⟨rfl, rfl⟩ := ok_inj.1 htbl
  exact mapFrameIn_keeps .boot _ f _ perm _ _ _ hin

theorem mapPages_tabled {create : DirPtr → Nat → K TablePtr} (hp : ∀ i < n, s.Tabled (p + i))
    (hend : p + n ≤ 1048576) (hk : mapPages (mapFrameWith create .boot) n (p * 4096) s = .ok () t) :
    t.bookkeeping = s.bookkeeping := by
  induction n generalizing p s with
  | zero =>
    rw [(ok_inj.1 hk).2]
  | succ n ih =>
    rw [mapPages_succ] at hk
    obtain ⟨fi, s₁, halloc, hk⟩ := bind_eq_ok.1 hk
    obtain ⟨_, s₂, hmap, hk⟩ := bind_eq_ok.1 hk
    have h₁ := allocateFrame_keeps s fi s₁ halloc
    have hdir₁ := (bookkeeping_eq h₁).2
    have htab : ∀ {u : Kern}, u.kernelDirectory = s.kernelDirectory →
        ∀ i < n + 1, u.Tabled (p + i) := by
      intro u hu i hi
      exact (hp i hi).mono fun j hj => by rwa [hu]
    have h₂ := mapFrame_tabled (htab hdir₁ 0 (Nat.succ_pos n)) (by omega) hmap
    have hdir₂ := (bookkeeping_eq h₂).2.trans hdir₁
    -- the last page may end at 4 GB, so the next address is computed only when there is one
    cases n with
    | zero =>
      rw [← (ok_inj.1 hk).2, h₂, h₁]
    | succ n =>
      rw [u32_page_succ (by omega)] at hk
      rw [ih (fun i hi => ?_) (by omega) hk, h₂, h₁]
      rw [show p + 1 + i = p + (i + 1) by omega]
      exact htab hdir₂ (i + 1) (by omega)

end

end Fos
