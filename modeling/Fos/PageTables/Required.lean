import Fos.KernelHeap.Tabled
import Fos.PageTables.Access
import Fos.PageTables.Boot
import Mathlib.Order.Interval.Finset.Nat

/-!
# The frames that a range of addresses still needs

`calculate_required_frames` counts the missing page tables of a range in steps of 4 MB and its
missing pages in steps of 4 KB. Both loops compare a 32-bit address with the end of the range, so
the first never ends once that lies beyond the last multiple of 4 MB. At `VPT` and `UVPT` a
directory is a page table of its own; the kernel looks for it at `KERNEL_BASE` plus its address,
where only the boot directory is sure to be.
-/

namespace Fos

open Prog (ok_inj)

/-! ## The source -/

section

variable (missing : Nat → K Bool) (step stop : Nat)

/-- A loop over the addresses below `stop` that counts those where something is missing; `none`
when it has not come to its end after the given number of rounds. -/
def countLoop : Nat → Nat → Nat → K (Option Nat)
  | 0, cur, count => if cur < stop then return none else return some count
  | n + 1, cur, count =>
    if cur < stop then do
      let m ← missing cur
      countLoop n (u32 (cur + step)) (if m then u32 (count + 1) else count)
    else return some count

end

/-- `get_page_table` gives a null table. -/
def tableMissing (dir : DirPtr) (va : Nat) : K Bool := do
  match ← getPageTable dir va with
  | none => return true
  | some t => return t = .null

/-- `get_frame_info` gives a null frame. -/
def pageMissing (dir : DirPtr) (va : Nat) : K Bool := do
  return (← getFrameInfo dir va).isNone

section

variable {missing : Nat → K Bool} {step stop n cur count : Nat} {s : Kern}

/-- Over the multiples of `step` from `lo * step` on, where the loop does not wrap. -/
theorem countLoop_run {P : Nat → Prop} [DecidablePred P] {hi lo : Nat}
    (hmissing : ∀ i, lo ≤ i → i < hi → missing (i * step) s = .ok (decide (P i)) s)
    (hhi : ∀ i, i * step < stop ↔ i < hi) (hstop : hi * step < 4294967296)
    (hfuel : hi ≤ lo + n) (hcount : count + (hi - lo) < 4294967296) :
    countLoop missing step stop n (lo * step) count s =
      .ok (some (count + ((Finset.Ico lo hi).filter P).card)) s := by
  induction n generalizing lo count with
  | zero =>
    have hlo : ¬ lo * step < stop := by
      rw [hhi]
      omega
    rw [countLoop, Prog.ite_run, if_neg hlo, Finset.Ico_eq_empty (by omega)]
    rfl
  | succ n ih =>
    rw [countLoop, Prog.ite_run]
    by_cases hlt : lo < hi
    · have hle : (lo + 1) * step ≤ hi * step := Nat.mul_le_mul_right _ hlt
      have hnext : u32 (lo * step + step) = (lo + 1) * step := by
        rw [u32_of_lt (by rw [Nat.succ_mul] at hle; omega), Nat.succ_mul]
      rw [if_pos ((hhi lo).2 hlt), Prog.bind_of_ok (hmissing lo (le_refl _) hlt), hnext]
      -- the round counts `lo`, the rest of the loop what comes after it
      have hsplit : Finset.Ico lo hi = insert lo (Finset.Ico (lo + 1) hi) := by
        ext i
        simp only [Finset.mem_insert, Finset.mem_Ico]
        omega
      have hnot : lo ∉ (Finset.Ico (lo + 1) hi).filter P := by simp
      have hrest : ∀ i, lo + 1 ≤ i → i < hi → missing (i * step) s = .ok (decide (P i)) s :=
        fun i hi => hmissing i (by omega)
      rw [hsplit, Finset.filter_insert]
      by_cases hP : P lo
      · rw [if_pos (by simpa using hP), if_pos hP, Finset.card_insert_of_notMem hnot,
          u32_of_lt (by omega), ih hrest (by omega) (by omega)]
        congr 2
        omega
      · rw [if_neg (by simpa using hP), if_neg hP, ih hrest (by omega) (by omega)]
    · rw [if_neg (by rw [hhi]; exact hlt), Finset.Ico_eq_empty hlt]
      rfl

end

/-- The word of a page table can be read. The boot directory can be read as a table too. -/
def Kern.Readable (s : Kern) (t : TablePtr) : Prop := t = .directory ∨ s.Reach t

/-- The entry of page `p` that `get_frame_info` reads, 0 if there is no table to read it from. -/
def Kern.seenEntry (s : Kern) (dir : DirPtr) (p : Nat) : Nat :=
  if present (s.pde dir (p / 1024)) ∧ tableOf s (p * 4096) (s.pde dir (p / 1024)) ≠ .null then
    s.entry (tableOf s (p * 4096) (s.pde dir (p / 1024)), p % 1024)
  else 0

/-- The entry of page `p`, 0 if its table does not exist. At `VPT` and `UVPT` the table is the
directory that the entry names, wherever the kernel looks for it. -/
def Kern.pageEntry (s : Kern) (dir : DirPtr) (p : Nat) : Nat :=
  if selfMapped (p * 4096) ∧ present (s.pde dir (p / 1024)) then
    if s.listsBootTable (p * 4096) (s.pde dir (p / 1024)) then s.kernelDirectory (p % 1024)
    else s.ram (ppn (s.pde dir (p / 1024))) (p % 1024)
  else s.seenEntry dir p

/-- The page tables that the pages of a range lack. -/
def Kern.missingTables (s : Kern) (dir : DirPtr) (start stop : Nat) : Finset Nat :=
  (Finset.Ico (start / 4194304) ((stop + 4194303) / 4194304)).filter
    fun i => s.pde dir i = 0

/-- The pages of a range that are not mapped. -/
def Kern.missingPages (s : Kern) (dir : DirPtr) (start stop : Nat) : Finset Nat :=
  (Finset.Ico (start / 4096) ((stop + 4095) / 4096)).filter
    fun p => s.pageEntry dir p = 0

/-- The page tables of a range that exist where the kernel finds the null pointer. -/
def Kern.nullTables (s : Kern) (dir : DirPtr) (start stop : Nat) : Finset Nat :=
  (Finset.Ico (start / 4194304) ((stop + 4194303) / 4194304)).filter
    fun i => present (s.pde dir i) ∧ tableOf s (i * 4194304) (s.pde dir i) = .null

/-- The pages of a range for which the kernel finds no entry. -/
def Kern.unseenPages (s : Kern) (dir : DirPtr) (start stop : Nat) : Finset Nat :=
  (Finset.Ico (start / 4096) ((stop + 4095) / 4096)).filter
    fun p => s.seenEntry dir p = 0

/-- The directory can be followed from the first table of the range on, but for `VPT` and `UVPT`: a
table exists or its entry is zero, and the entries of the pages are frames. -/
structure Walkable (s : Kern) (dir : DirPtr) (start stop : Nat) : Prop where
  reach : s.ReachDir dir
  pde : ∀ va, rounddown start 4194304 ≤ va → va < stop →
    present (s.pde dir (pdx va)) ∨ s.pde dir (pdx va) = 0
  valid : ∀ va, rounddown start 4194304 ≤ va → va < stop → ¬ selfMapped va →
    present (s.pde dir (pdx va)) → ¬ s.tableBeyond va (s.pde dir (pdx va))
  table : ∀ va, rounddown start 4194304 ≤ va → va < stop → ¬ selfMapped va →
    present (s.pde dir (pdx va)) → s.Reach (tableOf s va (s.pde dir (pdx va)))
  frame : ∀ va, rounddown start 4096 ≤ va → va < stop → va % 4096 = 0 → ¬ selfMapped va →
    s.pageEntry dir (ppn va) ≠ 0 → ppn (s.pageEntry dir (ppn va)) < s.frames.numberOfFrames

/-- Where the range meets `VPT` or `UVPT`, the kernel can read what `KERNEL_BASE` plus the address
of the directory shows it, and the entries it finds there are frames. -/
structure ReadsItself (s : Kern) (dir : DirPtr) (start stop : Nat) : Prop where
  valid : ∀ va, rounddown start 4194304 ≤ va → va < stop → selfMapped va →
    present (s.pde dir (pdx va)) → ¬ s.tableBeyond va (s.pde dir (pdx va))
  table : ∀ va, rounddown start 4096 ≤ va → va < stop → va % 4096 = 0 → selfMapped va →
    present (s.pde dir (pdx va)) → tableOf s va (s.pde dir (pdx va)) ≠ .null →
      s.Readable (tableOf s va (s.pde dir (pdx va)))
  frame : ∀ va, rounddown start 4096 ≤ va → va < stop → va % 4096 = 0 → selfMapped va →
    s.seenEntry dir (ppn va) ≠ 0 → ppn (s.seenEntry dir (ppn va)) < s.frames.numberOfFrames

/-- And it misses there as many tables and pages as there are pages that are not mapped. -/
structure SeesItself (s : Kern) (dir : DirPtr) (start stop : Nat) : Prop
    extends ReadsItself s dir start stop where
  count : ((s.nullTables dir start stop).filter fun i => selfMapped (i * 4194304)).card +
      ((s.unseenPages dir start stop).filter fun p => selfMapped (p * 4096)).card =
    ((s.missingPages dir start stop).filter fun p => selfMapped (p * 4096)).card

section

variable {s t : Kern} {dir : DirPtr} {start stop va : Nat} {m : Bool}

theorem reach_ne_null {t : TablePtr} (h : s.Reach t) : t ≠ .null := by
  rintro rfl
  exact h.1 rfl

theorem readPte_readable {t : TablePtr} {i : Nat} (ht : s.Readable t) (hi : i < 1024) :
    readPte t i s = .ok (s.entry (t, i)) s := by
  rcases ht with rfl | ht
  · rfl
  · exact readPte_reach ht hi

theorem seenEntry_ppn (s : Kern) (dir : DirPtr) (hva : va < 4294967296) (hmod : va % 4096 = 0) :
    s.seenEntry dir (ppn va) = if present (s.pde dir (pdx va)) ∧
      tableOf s va (s.pde dir (pdx va)) ≠ .null then
        s.entry (tableOf s va (s.pde dir (pdx va)), ptx va) else 0 := by
  have hpdx : ppn va / 1024 = pdx va := by unfold ppn pdx; omega
  have hmul : ppn va * 4096 = va := by unfold ppn; omega
  rw [Kern.seenEntry, hpdx, hmul, ptx_eq]

theorem pageEntry_of_not_selfMapped {p : Nat} (hself : ¬ selfMapped (p * 4096)) :
    s.pageEntry dir p = s.seenEntry dir p := if_neg fun h => hself h.1

/-! ## One round of the first loop -/

theorem tableMissing_present (hd : s.ReachDir dir) (hp : present (s.pde dir (pdx va)))
    (hb : ¬ s.tableBeyond va (s.pde dir (pdx va))) :
    tableMissing dir va s = .ok (decide (tableOf s va (s.pde dir (pdx va)) = .null)) s := by
  rw [tableMissing, Prog.bind_of_ok (getPageTable_present hd hp hb)]
  rfl

theorem tableMissing_zero (hd : s.ReachDir dir) (hz : s.pde dir (pdx va) = 0) :
    tableMissing dir va s = .ok true s := by
  rw [tableMissing, Prog.bind_of_ok (getPageTable_zero hd hz)]
  rfl

theorem pageMissing_zero (hd : s.ReachDir dir) (hz : s.pde dir (pdx va) = 0) :
    pageMissing dir va s = .ok true s := by
  rw [pageMissing, getFrameInfo, Prog.bind_run, Prog.bind_of_ok (getPageTable_zero hd hz)]
  rfl

theorem pageMissing_null (hd : s.ReachDir dir) (hp : present (s.pde dir (pdx va)))
    (hb : ¬ s.tableBeyond va (s.pde dir (pdx va)))
    (hnull : tableOf s va (s.pde dir (pdx va)) = .null) : pageMissing dir va s = .ok true s := by
  rw [pageMissing, getFrameInfo, Prog.bind_run, Prog.bind_of_ok (getPageTable_present hd hp hb)]
  dsimp only
  rw [Prog.ite_run, if_pos hnull]
  rfl

theorem pageMissing_readable (hd : s.ReachDir dir) (hp : present (s.pde dir (pdx va)))
    (hb : ¬ s.tableBeyond va (s.pde dir (pdx va)))
    (hnull : tableOf s va (s.pde dir (pdx va)) ≠ .null)
    (hread : s.Readable (tableOf s va (s.pde dir (pdx va)))) :
    pageMissing dir va s =
      if s.entry (tableOf s va (s.pde dir (pdx va)), ptx va) = 0 then .ok true s
      else if s.frames.numberOfFrames ≤ ppn (s.entry (tableOf s va (s.pde dir (pdx va)), ptx va)) then
        .error (.panic "to_frame_info called with invalid pa=%x\n") s
      else .ok false s := by
  rw [pageMissing, getFrameInfo, Prog.bind_run, Prog.bind_of_ok (getPageTable_present hd hp hb)]
  dsimp only
  rw [Prog.ite_run, if_neg hnull,
    Prog.bind_of_ok (readPte_readable hread (ptx_lt va)), Prog.ite_run]
  by_cases h0 : s.entry (tableOf s va (s.pde dir (pdx va)), ptx va) = 0
  · rw [if_neg (not_not_intro h0), if_pos h0]
    rfl
  · rw [if_pos h0, if_neg h0, Prog.bind_run, toFrameInfo, Prog.get_bind_apply, Prog.ite_run,
      ppn_extractAddress]
    by_cases hf : s.frames.numberOfFrames ≤ ppn (s.entry (tableOf s va (s.pde dir (pdx va)), ptx va))
    · rw [if_pos hf, if_pos hf]
      rfl
    · rw [if_neg hf, if_neg hf]
      rfl

theorem mul_lt_iff_ceil {i d : Nat} (hd : 0 < d) : i * d < stop ↔ i < (stop + (d - 1)) / d := by
  rw [Nat.lt_iff_add_one_le, Nat.lt_iff_add_one_le (m := i), Nat.le_div_iff_mul_le hd,
    Nat.add_one_mul]
  omega

theorem Walkable.not_beyond (h : Walkable s dir start stop) (hs : ReadsItself s dir start stop)
    (hlo : rounddown start 4194304 ≤ va) (hva : va < stop) (hp : present (s.pde dir (pdx va))) :
    ¬ s.tableBeyond va (s.pde dir (pdx va)) := by
  by_cases hself : selfMapped va
  · exact hs.valid va hlo hva hself hp
  · exact h.valid va hlo hva hself hp

theorem Walkable.tableMissing (h : Walkable s dir start stop) (hs : ReadsItself s dir start stop)
    (hlo : rounddown start 4194304 ≤ va) (hva : va < stop) :
    Fos.tableMissing dir va s = .ok (decide (s.pde dir (pdx va) = 0 ∨
      present (s.pde dir (pdx va)) ∧ tableOf s va (s.pde dir (pdx va)) = .null)) s := by
  rcases h.pde va hlo hva with hp | hz
  · rw [tableMissing_present h.reach hp (h.not_beyond hs hlo hva hp)]
    simp [hp, present_ne_zero hp]
  · rw [tableMissing_zero h.reach hz]
    simp [hz]

theorem Walkable.pageMissing (h : Walkable s dir start stop) (hs : ReadsItself s dir start stop)
    (hstop : stop < 4294967296) (hlo : rounddown start 4096 ≤ va) (hva : va < stop)
    (hmod : va % 4096 = 0) :
    Fos.pageMissing dir va s = .ok (decide (s.seenEntry dir (ppn va) = 0)) s := by
  have hlo' : rounddown start 4194304 ≤ va := by
    unfold rounddown at hlo ⊢
    omega
  have hentry := seenEntry_ppn s dir (by omega : va < 4294967296) hmod
  -- each entry of the directory is present or zero
  rcases h.pde va hlo' hva with hp | hz
  · have hb := h.not_beyond hs hlo' hva hp
    by_cases hnull : tableOf s va (s.pde dir (pdx va)) = .null
    · rw [if_neg fun hc => hc.2 hnull] at hentry
      rw [pageMissing_null h.reach hp hb hnull, hentry]
      rfl
    · rw [if_pos ⟨hp, hnull⟩] at hentry
      -- a self-mapped page reads the directory, any other a table of its own
      have hread : s.Readable (tableOf s va (s.pde dir (pdx va))) := by
        by_cases hself : selfMapped va
        · exact hs.table va hlo hva hmod hself hp hnull
        · exact .inr (h.table va hlo' hva hself hp)
      have hframe : s.seenEntry dir (ppn va) ≠ 0 →
          ppn (s.seenEntry dir (ppn va)) < s.frames.numberOfFrames := by
        by_cases hself : selfMapped va
        · exact hs.frame va hlo hva hmod hself
        · have hmul : ppn va * 4096 = va := by unfold ppn; omega
          rw [← pageEntry_of_not_selfMapped (by rwa [hmul])]
          exact h.frame va hlo hva hmod hself
      rw [pageMissing_readable h.reach hp hb hnull hread, ← hentry]
      by_cases h0 : s.seenEntry dir (ppn va) = 0
      · rw [if_pos h0, decide_eq_true h0]
      · rw [if_neg h0, if_neg (Nat.not_le.2 (hframe h0)), decide_eq_false h0]
  · rw [if_neg fun hc => present_ne_zero hc.1 hz] at hentry
    rw [pageMissing_zero h.reach hz, hentry]
    rfl

theorem rounddown_eq_mul (d : Nat) : rounddown start d = start / d * d := by
  unfold rounddown
  have := Nat.div_add_mod start d
  rw [Nat.mul_comm] at this
  omega

/-- The first loop, up to the last multiple of 4 MB. -/
theorem Walkable.tables (h : Walkable s dir start stop) (hs : ReadsItself s dir start stop)
    {fuel : Nat} (hstop : stop ≤ 0xFFC00000)
    (hfuel : (stop + 4194303) / 4194304 ≤ start / 4194304 + fuel) :
    countLoop (Fos.tableMissing dir) 4194304 stop fuel (rounddown start 4194304) 0 s =
      .ok (some ((s.missingTables dir start stop).card + (s.nullTables dir start stop).card)) s := by
  have hhi : ∀ i, i * 4194304 < stop ↔ i < (stop + 4194303) / 4194304 :=
    fun i => mul_lt_iff_ceil (by decide)
  have hmissing : ∀ i, start / 4194304 ≤ i → i < (stop + 4194303) / 4194304 →
      Fos.tableMissing dir (i * 4194304) s = .ok (decide (s.pde dir i = 0 ∨
        present (s.pde dir i) ∧ tableOf s (i * 4194304) (s.pde dir i) = .null)) s := by
    intro i hi hlt
    have hpdx : pdx (i * 4194304) = i := by unfold pdx; omega
    have hlo : rounddown start 4194304 ≤ i * 4194304 := by
      rw [rounddown_eq_mul]
      exact Nat.mul_le_mul_right _ hi
    rw [h.tableMissing hs hlo ((hhi i).2 hlt), hpdx]
  rw [rounddown_eq_mul, countLoop_run hmissing hhi (by omega) hfuel (by omega), Nat.zero_add,
    Finset.filter_or, Finset.card_union_of_disjoint]
  · rfl
  · rw [Finset.disjoint_filter]
    exact fun i _ hz hp => present_ne_zero hp.1 hz

/-- The second loop. -/
theorem Walkable.pages (h : Walkable s dir start stop) (hs : ReadsItself s dir start stop)
    {fuel : Nat} (hstop : stop ≤ 0xFFC00000)
    (hfuel : (stop + 4095) / 4096 ≤ start / 4096 + fuel) :
    countLoop (Fos.pageMissing dir) 4096 stop fuel (rounddown start 4096) 0 s =
      .ok (some (s.unseenPages dir start stop).card) s := by
  have hhi : ∀ i, i * 4096 < stop ↔ i < (stop + 4095) / 4096 :=
    fun i => mul_lt_iff_ceil (by decide)
  have hmissing : ∀ i, start / 4096 ≤ i → i < (stop + 4095) / 4096 →
      Fos.pageMissing dir (i * 4096) s = .ok (decide (s.seenEntry dir i = 0)) s := by
    intro i hi hlt
    have hppn : ppn (i * 4096) = i := by unfold ppn; omega
    have hlo : rounddown start 4096 ≤ i * 4096 := by
      rw [rounddown_eq_mul]
      exact Nat.mul_le_mul_right _ hi
    rw [h.pageMissing hs (by omega) hlo ((hhi i).2 hlt) (by omega), hppn]
  rw [rounddown_eq_mul, countLoop_run hmissing hhi (by omega) hfuel (by omega), Nat.zero_add]
  rfl

/-! ## The directory seen through itself -/

/-- A range that does not meet `VPT` and `UVPT`. -/
theorem seesItself_of_disjoint
    (h : ∀ va, rounddown start 4194304 ≤ va → va < stop + 4194304 → ¬ selfMapped va) :
    SeesItself s dir start stop := by
  have hlo : rounddown start 4194304 ≤ rounddown start 4096 := by
    unfold rounddown
    omega
  -- away from the two self-map entries every correction term is zero
  have hzero : ∀ (S : Finset Nat) (d : Nat), (∀ i ∈ S, ¬ selfMapped (i * d)) →
      (S.filter fun i => selfMapped (i * d)).card = 0 := fun S d hS => by
    rw [Finset.card_eq_zero, Finset.filter_eq_empty_iff]
    exact fun i hi => hS i hi
  have hpages : ∀ (S : Finset Nat), S ⊆ Finset.Ico (start / 4096) ((stop + 4095) / 4096) →
      ∀ p ∈ S, ¬ selfMapped (p * 4096) := by
    intro S hS p hp
    obtain ⟨h1, h2⟩ := Finset.mem_Ico.1 (hS hp)
    refine h _ (hlo.trans ?_) (by omega)
    rw [rounddown_eq_mul]
    exact Nat.mul_le_mul_right _ h1
  refine ⟨⟨fun va h1 h2 hself => absurd hself (h va h1 (by omega)),
    fun va h1 h2 _ hself => absurd hself (h va (hlo.trans h1) (by omega)),
    fun va h1 h2 _ hself => absurd hself (h va (hlo.trans h1) (by omega))⟩, ?_⟩
  have htables : ∀ i ∈ s.nullTables dir start stop, ¬ selfMapped (i * 4194304) := by
    intro i hi
    obtain ⟨h1, h2⟩ := Finset.mem_Ico.1 (Finset.mem_filter.1 hi).1
    refine h _ ?_ (by omega)
    rw [rounddown_eq_mul]
    exact Nat.mul_le_mul_right _ h1
  rw [hzero _ _ htables,
    hzero (s.unseenPages dir start stop) _ (hpages _ (Finset.filter_subset _ _)),
    hzero (s.missingPages dir start stop) _ (hpages _ (Finset.filter_subset _ _))]

/-- The directory of an environment can be followed over all its pages. -/
theorem MemOk.walkable {lay : Layout} {G D : Set Nat} {dirs : Roots} {held : Set Nat}
    (h : MemOk lay G D dirs held s) (hdir : dir ∈ dirs.page) (hstop : stop ≤ userTop) :
    Walkable s dir start stop := by
  have hd := h.directories
  have hin : dir ∈ dirs := .inl hdir
  have hnk : ∀ va, va < stop → ¬ checkIfKernelAddress va := fun va hva =>
    Nat.not_le.2 (Nat.lt_of_lt_of_le hva hstop)
  -- below `USER_TOP` a present entry names a page of the kernel heap
  have htable : ∀ va, va < stop → present (s.pde dir (pdx va)) →
      ∃ p ∈ G, tableOf s va (s.pde dir (pdx va)) = .heap (p * 4096) ∧
        s.table dir (pdx va) = some (p * 4096) := by
    intro va hva hp
    have hlt := pdx_user (Nat.lt_of_lt_of_le hva hstop)
    obtain ⟨p, hpG, he⟩ := hd.pde_owned dir hin _ (by omega) hp
    have htab := hd.table_eq hp hpG he
    refine ⟨p, hpG, ?_, htab⟩
    rw [Kern.table, if_pos hp] at htab
    rw [Fos.tableOf_user _ (hnk va hva), Option.some.inj htab]
  have hpde : ∀ va, va < stop → present (s.pde dir (pdx va)) ∨ s.pde dir (pdx va) = 0 := by
    intro va hva
    have hlt := pdx_user (Nat.lt_of_lt_of_le hva hstop)
    exact or_iff_not_imp_left.2 (hd.pde_zero dir hin _ (by omega))
  refine ⟨hd.reachDir hin, fun va _ => hpde va,
    fun va _ hva _ _ => not_tableBeyond_user _ (hnk va hva), fun va _ hva _ hp => ?_,
    fun va _ hva hmod hself => ?_⟩
  · obtain ⟨p, hpG, ht, -⟩ := htable va hva hp
    rw [ht]
    exact hd.owned.reach hpG
  · have hlt := pdx_user (Nat.lt_of_lt_of_le hva hstop)
    have hmul : ppn va * 4096 = va := by unfold ppn; omega
    have hleaf : s.pageEntry dir (ppn va) = s.leaf dir (ppn va) := by
      rw [pageEntry_of_not_selfMapped (by rwa [hmul]),
        seenEntry_ppn s dir (by unfold userTop at hstop; omega) hmod]
      by_cases hp : present (s.pde dir (pdx va))
      · obtain ⟨p, hpG, ht, htab⟩ := htable va hva hp
        have hnull : tableOf s va (s.pde dir (pdx va)) ≠ .null := by
          rw [ht]
          exact reach_ne_null (hd.owned.reach hpG)
        rw [if_pos ⟨hp, hnull⟩, ht, leaf_of_some (hlt.1 ▸ htab), ptx_eq]
      · rw [if_neg fun hc => hp hc.1, leaf_of_none]
        rw [← hlt.1, Kern.table, if_neg hp]
    rw [hleaf]
    intro hne
    refine h.accounted.inRange _ (h.usable_leaf hdir hlt.2 ?_).pool
    by_contra hp
    cases ha : s.table dir (ppn va / 1024) with
    | none => exact hne (leaf_of_none ha)
    | some a =>
      have hx := slotAt_of_table hdir hlt.2 ha
      rw [← hx.entry] at hp hne
      exact hne (h.accounted.entry_zero _ hx.live hp)

end

end Fos
