import Fos.PageFile.Later
import Fos.PageTables.GiveBack
import Fos.PageTables.HeapBlocks
import Fos.UserMemory
import Fos.WorkingSet.Eviction

/-!
# What freeMem frees

The three loops of `freeMem` agree on the range: its pages leave the page file, its resident pages
are unmapped and leave the working set, and the page tables that map nothing any more are given
back. The rest stays.
-/

namespace Fos

open Function (update)
open Prog (bind_eq_ok bind_of_ok ok_inj)
open Relation (ReflTransGen)

section

variable {c : BootConfig} {lay : Layout} {G D : Set Nat} {dirs : Roots} {held : Set Nat}
    {s t u : Kern} {dir : DirPtr}
  {e g i j m n p q va : Nat} {P Q : Set Nat}

/-! ## The page file -/

/-- Memory is the same but for the words of the disk tables. -/
structure OnlyDisk (dirs : Roots) (s t : Kern) : Prop where
  envs : t.envs = s.envs
  table : ∀ dir ∈ dirs, ∀ i < 955, t.table dir i = s.table dir i
  frames : t.frames = s.frames
  heap : t.heap = s.heap

theorem OnlyDisk.refl (dirs : Roots) (s : Kern) : OnlyDisk dirs s s :=
  ⟨rfl, fun _ _ _ _ => rfl, rfl, rfl⟩

theorem OnlyDisk.trans (h : OnlyDisk dirs s t) (h' : OnlyDisk dirs t u) :
    OnlyDisk dirs s u := by
  refine ⟨h'.envs.trans h.envs, fun dir hdir i hi => ?_, h'.frames.trans h.frames,
    h'.heap.trans h.heap⟩
  rw [h'.table dir hdir i hi, h.table dir hdir i hi]

/-- **`pf_remove_env_page`** returns, whether the file has the page or not. -/
theorem FileOk.pfRemoveEnvPage_total (h : FileOk lay G D dirs held s) (hva : va < userTop) :
    ∃ t, Fos.pfRemoveEnvPage e va s = .ok () t ∧ FileOk lay G D dirs held t ∧
      FileOnly dirs.page D held s t ∧ ClearsSlots {(e, ppn va)} s t ∧ OnlyDisk dirs s t := by
  obtain ⟨hpdx, hlt⟩ := pdx_user hva
  rw [Fos.pfRemoveEnvPage, Prog.get_bind_apply, Prog.ite_run]
  -- no directory, no table, or an entry to clear
  by_cases hd : (s.envs e).diskEnvPgdir = 0
  · rw [if_pos hd]
    refine ⟨s, rfl, h, .refl _ _ _ _, .empty rfl rfl ?_, .refl _ _⟩
    rintro x rfl
    exact diskSlot_none hd
  · rw [if_neg hd, Prog.get_bind_apply,
      Prog.bind_of_ok (getDiskPageTable_find h.mem.directories (h.dir e hd) hva), Prog.ite_run]
    cases ha : s.table (.heap (s.envs e).diskEnvPgdir) (pdx va) with
    | none =>
      rw [Option.getD_none, if_pos rfl]
      refine ⟨s, rfl, h, .refl _ _ _ _, .empty rfl rfl ?_, .refl _ _⟩
      rintro x rfl
      rw [diskSlot_eq hd hlt]
      exact leaf_of_none (by rw [← hpdx]; exact ha)
    | some a =>
      have he : DiskEntry dirs s (.heap (s.envs e).diskEnvPgdir) (ppn va) a :=
        ⟨h.dir e hd, hlt, by rw [← hpdx]; exact ha⟩
      obtain ⟨hread, hwrite, t, hfree, hok, hf, hclear, henvs, htable⟩ := h.clearEntry hd he
      rw [Option.getD_some, if_neg (he.ne_zero h.mem.directories),
        show ptx va = ppn va % 1024 from rfl, Prog.bind_of_ok hread, Prog.bind_of_ok hwrite]
      have hrun := hfree
      rw [freeDiskFrame_run] at hfree
      obtain ⟨-, rfl⟩ := ok_inj.1 hfree
      exact ⟨_, hrun, hok, hf, hclear, henvs, htable, setEntry_frames _ _ _, setEntry_heap _ _ _⟩

/-- The pages of a range. -/
def rangeSlots (e p n : Nat) : Set (Nat × Nat) := {x | x.1 = e ∧ p ≤ x.2 ∧ x.2 < p + n}

/-- The first loop. -/
theorem FileOk.removePages (h : FileOk lay G D dirs held s) (hva : va + 4096 * n ≤ userTop) :
    ∃ t, Fos.removePages e va n s = .ok () t ∧ FileOk lay G D dirs held t ∧
      FileOnly dirs.page D held s t ∧ ClearsSlots (rangeSlots e (ppn va) n) s t ∧
      OnlyDisk dirs s t := by
  induction n generalizing s va with
  | zero =>
    refine ⟨s, rfl, h, .refl _ _ _ _, .empty rfl rfl ?_, .refl _ _⟩
    rintro x ⟨-, h1, h2⟩
    omega
  | succ n ih =>
    have hlt : va < userTop := by omega
    have hnext : u32 (va + pageSize) = va + 4096 :=
      u32_of_lt (by unfold userTop at hva; unfold pageSize; omega)
    have hppn : ppn (va + 4096) = ppn va + 1 := by
      unfold ppn
      omega
    obtain ⟨s₁, h₁, hok₁, hf₁, hc₁, hm₁⟩ := h.pfRemoveEnvPage_total (e := e) hlt
    have hrest : va + 4096 + 4096 * n ≤ userTop := by omega
    obtain ⟨t, h₂, hok₂, hf₂, hc₂, hm₂⟩ := ih hok₁ hrest
    refine ⟨t, ?_, hok₂, hf₁.trans hf₂, ?_, hm₁.trans hm₂⟩
    · rw [Fos.removePages, bind_of_ok h₁, hnext]
      exact h₂
    · -- the first page and the rest make the range
      have hset : rangeSlots e (ppn va) (n + 1) = {(e, ppn va)} ∪ rangeSlots e (ppn (va + 4096)) n := by
        ext ⟨e', q⟩
        rw [hppn]
        simp only [rangeSlots, Set.mem_ofPred_eq, Set.mem_union,
          Set.mem_singleton_iff, Prod.mk.injEq]
        omega
      rw [hset]
      exact hc₁.trans hc₂

/-! ## The working set -/

/-- The page in an entry of the working set. -/
def Env.wsPage (env : Env) (i : Nat) : Option Nat :=
  env.ptrPageWorkingSet[i]?.map fun w => ppn w.virtualAddress

/-- The pages of a range that the entries from `j` on hold. -/
def scannedPages (env : Env) (p n j m : Nat) : Set Nat :=
  {q | (p ≤ q ∧ q < p + n) ∧ ∃ i, j ≤ i ∧ i < j + m ∧ env.wsPage i = some q}

/-- The pages `P` of `dir` give up the frames that they alone map. -/
structure GivesUp (dirs : Roots) (dir : DirPtr) (P : Set Nat) (s t : Kern) : Prop where
  cleared : ∀ q ∈ P, t.leaf dir q = 0
  leaf : ∀ dir' ∈ dirs, ∀ q < 977920, ¬ (dir' = dir ∧ q ∈ P) → t.leaf dir' q = s.leaf dir' q
  table : ∀ dir' ∈ dirs, ∀ i < 955, t.table dir' i = s.table dir' i
  kernelTable : t.kernelTable = s.kernelTable
  heap : t.heap = s.heap
  disk : t.disk = s.disk
  info : ∀ g, g ∉ t.frames.freeFrameList → t.frames.info g = s.frames.info g
  free : s.frames.freeFrameList <:+ t.frames.freeFrameList
  count : t.frames.freeFrameList.length =
    s.frames.freeFrameList.length + {q | q ∈ P ∧ s.leaf dir q ≠ 0}.ncard

/-- The entries of `e` from `j` on whose page lies in a range are empty. -/
structure ClearsEntries (e p n j m : Nat) (s t : Kern) : Prop where
  others : ∀ e', e' ≠ e → t.envs e' = s.envs e'
  env : t.envs e = { s.envs e with
    ptrPageWorkingSet := (t.envs e).ptrPageWorkingSet,
    pageLastWSIndex := (t.envs e).pageLastWSIndex }
  length : (t.envs e).ptrPageWorkingSet.length = (s.envs e).ptrPageWorkingSet.length
  cleared : ∀ i q, j ≤ i → i < j + m → (s.envs e).wsPage i = some q → p ≤ q → q < p + n →
    (t.envs e).ptrPageWorkingSet[i]? = some ⟨0, true⟩
  entry : ∀ i, (i < j ∨ j + m ≤ i ∨ ∀ q, (s.envs e).wsPage i = some q → q < p ∨ p + n ≤ q) →
    (t.envs e).ptrPageWorkingSet[i]? = (s.envs e).ptrPageWorkingSet[i]?
  index : ∀ x, x ≤ (t.envs e).pageLastWSIndex ↔ x ≤ (s.envs e).pageLastWSIndex ∧
    ∀ i q, j ≤ i → i < j + m → (s.envs e).wsPage i = some q → p ≤ q → q < p + n → x ≤ i

theorem GivesUp.refl (dirs : Roots) (dir : DirPtr) (s : Kern) : GivesUp dirs dir ∅ s s := by
  refine ⟨fun _ h => h.elim, fun _ _ _ _ _ => rfl, fun _ _ _ _ => rfl, rfl, rfl, rfl,
    fun _ _ => rfl, List.suffix_refl _, ?_⟩
  simp

theorem GivesUp.setEnv (h : GivesUp dirs dir P s t) (env : Env) :
    GivesUp dirs dir P s (t.setEnv e env) :=
  ⟨fun q hq => (leaf_setEnv t e env dir q).trans (h.cleared q hq),
    fun dir' hdir' q hq hne => (leaf_setEnv t e env dir' q).trans (h.leaf dir' hdir' q hq hne),
    h.table, h.kernelTable, h.heap, h.disk, h.info, h.free, h.count⟩

theorem GivesUp.trans (h : GivesUp dirs dir P s t) (h' : GivesUp dirs dir Q t u) (hdir : dir ∈ dirs)
    (hP : ∀ q ∈ P, q < 977920) (hQ : ∀ q ∈ Q, q < 977920) : GivesUp dirs dir (P ∪ Q) s u := by
  have hfin : ∀ R : Set Nat, (∀ q ∈ R, q < 977920) → R.Finite :=
    fun R hR => (Set.finite_lt_nat 977920).subset hR
  refine ⟨?_, fun dir' hdir' q hq hne => ?_, fun dir' hdir' i hi => ?_,
    h'.kernelTable.trans h.kernelTable,
    h'.heap.trans h.heap, h'.disk.trans h.disk, fun g hg => ?_, h.free.trans h'.free, ?_⟩
  · -- a page of the first set may be cleared again by the second step
    rintro q (hq | hq)
    · by_cases hqQ : q ∈ Q
      · exact h'.cleared q hqQ
      · rw [h'.leaf dir hdir q (hP q hq) fun hc => hqQ hc.2]
        exact h.cleared q hq
    · exact h'.cleared q hq
  · rw [h'.leaf dir' hdir' q hq fun hc => hne ⟨hc.1, .inr hc.2⟩,
      h.leaf dir' hdir' q hq fun hc => hne ⟨hc.1, .inl hc.2⟩]
  · rw [h'.table dir' hdir' i hi, h.table dir' hdir' i hi]
  · rw [h'.info g hg, h.info g fun hgt => hg (h'.free.subset hgt)]
  · -- a page of both sets counts once: it maps nothing when the second step comes to it
    have hunion : {q | q ∈ P ∪ Q ∧ s.leaf dir q ≠ 0} =
        {q | q ∈ P ∧ s.leaf dir q ≠ 0} ∪ {q | q ∈ Q ∧ t.leaf dir q ≠ 0} := by
      ext q
      simp only [Set.mem_ofPred_eq, Set.mem_union]
      by_cases hqP : q ∈ P
      · have h0 := h.cleared q hqP
        simp [hqP, h0]
      · by_cases hqQ : q ∈ Q
        · rw [h.leaf dir hdir q (hQ q hqQ) fun hc => hqP hc.2]
          simp [hqP]
        · simp [hqP, hqQ]
    have hdisj : Disjoint {q | q ∈ P ∧ s.leaf dir q ≠ 0} {q | q ∈ Q ∧ t.leaf dir q ≠ 0} := by
      apply Set.disjoint_left.2
      rintro q ⟨hq, -⟩ ⟨-, hne⟩
      exact hne (h.cleared q hq)
    rw [h'.count, h.count, hunion, Set.ncard_union_eq hdisj ((hfin P hP).subset fun q hq => hq.1)
      ((hfin Q hQ).subset fun q hq => hq.1), Nat.add_assoc]

/-! ### One page -/

/-- `unmap_frame` returns at a user page. -/
theorem MemOk.unmapFrame_total (h : MemOk lay G D dirs held s) (hdir : dir ∈ dirs.page)
    (hva : va < userTop) : ∃ t, Fos.unmapFrame dir va s = .ok () t := by
  rcases Mappable.located h.directories hdir (.inl hva) with ⟨x, hx, huser⟩ | ⟨-, -, -, hnone⟩
  · rw [unmapFrame_slot hx.get hx.reach, ← hx.index]
    by_cases h0 : s.entry x = 0
    · rw [if_pos h0]
      exact ⟨s, rfl⟩
    · have hpr : present (s.entry x) := by
        by_contra hnp
        exact h0 ((h.entry_zero hx.live).2 hnp)
      have hlt := h.accounted.inRange _ (h.counted.inPool x _ (mapping_of_present hx.live hpr))
      rw [if_neg h0, if_neg (Nat.not_le_of_lt hlt)]
      exact ⟨_, rfl⟩
  · rw [unmapFrame_none hnone]
    exact ⟨s, rfl⟩

/-- **`unmap_frame`** at a user page whose frame nobody else maps. -/
theorem MemOk.unmapFrame_gives (h : MemOk lay G D dirs held s) (hdir : dir ∈ dirs.page)
    (hva : va < userTop) (honce : s.leaf dir (ppn va) ≠ 0 → s.references (ppn (s.leaf dir (ppn va))) = 1) :
    ∃ t, Fos.unmapFrame dir va s = .ok () t ∧ MemOk lay G D dirs held t ∧
      GivesUp dirs dir {ppn va} s t ∧ t.envs = s.envs := by
  obtain ⟨t, ht⟩ := h.unmapFrame_total hdir hva
  refine ⟨t, ht, ?_⟩
  rcases h.unmapUser hdir hva ht with ⟨rfl, hz⟩ | ⟨hpr, hok, hun⟩
  · refine ⟨h, ⟨?_, fun _ _ _ _ _ => rfl, fun _ _ _ _ => rfl, rfl, rfl, rfl, fun _ _ => rfl,
      List.suffix_refl _, ?_⟩, rfl⟩
    · rintro q rfl
      exact hz
    · have hnone : {q | q ∈ ({ppn va} : Set Nat) ∧ t.leaf dir q ≠ 0} = ∅ := by
        ext q
        simp only [Set.mem_ofPred_eq, Set.mem_singleton_iff, Set.mem_empty_iff_false, iff_false]
        rintro ⟨rfl, hne⟩
        exact hne hz
      rw [hnone, Set.ncard_empty, Nat.add_zero]
  · have hlt := (pdx_user hva).2
    -- the only reference goes, so the frame is free
    have hlast := (hun.last (honce (present_ne_zero hpr))).1
    refine ⟨hok, ⟨?_, fun dir' hdir' q hq hne => ?_, hun.table, hun.kernelTable, hun.heap, hun.disk,
      fun g hg => ?_, ?_, ?_⟩, hun.envs⟩
    · rintro q rfl
      rw [hun.leaf dir hdir _ hlt, if_pos ⟨rfl, rfl⟩]
    · rcases hdir' with hpage | hdisk
      · rw [hun.leaf dir' hpage q hq, if_neg fun hc => hne ⟨hc.1, hc.2⟩]
      · exact hun.diskLeaf dir' hdisk q hq
    · apply hun.info
      rintro rfl
      rw [hlast] at hg
      exact hg List.mem_cons_self
    · rw [hlast]
      exact List.suffix_cons _ _
    · have hone : {q | q ∈ ({ppn va} : Set Nat) ∧ s.leaf dir q ≠ 0} = {ppn va} := by
        ext q
        simp only [Set.mem_ofPred_eq, Set.mem_singleton_iff, and_iff_left_iff_imp]
        rintro rfl
        exact present_ne_zero hpr
      rw [hlast, hone, Set.ncard_singleton, List.length_cons]

/-- A page that still maps a frame counts it as before. -/
theorem GivesUp.references (h : GivesUp dirs dir P s t) (hmem : MemOk lay G D dirs held t)
    (hdir : dir ∈ dirs.page) (hq : q < 977920) (hne : t.leaf dir q ≠ 0) :
    s.leaf dir q = t.leaf dir q ∧
    t.references (ppn (t.leaf dir q)) = s.references (ppn (s.leaf dir q)) := by
  have hqP : ¬ (dir = dir ∧ q ∈ P) := fun hc => hne (h.cleared q hc.2)
  have hsame := h.leaf dir (.inl hdir) q hq hqP
  refine ⟨hsame.symm, ?_⟩
  unfold Kern.references
  rw [h.info _ (hmem.usable_leaf hdir hq (hmem.leaf_present hdir hq hne)).notFree, hsame]

/-! ### The scan -/

theorem envPageWsGetVirtualAddress_ok {w : WorkingSetElement}
    (hj : j < (s.envs e).pageWSMaxSize) (hw : (s.envs e).ptrPageWorkingSet[j]? = some w) :
    envPageWsGetVirtualAddress e j s = .ok (ppn w.virtualAddress * 4096) s := by
  have hround : rounddown w.virtualAddress pageSize = ppn w.virtualAddress * 4096 := by
    unfold rounddown pageSize ppn
    omega
  rw [envPageWsGetVirtualAddress, Prog.get_bind_apply, Prog.ite_run,
    if_neg (by omega), hw, ← hround]
  rfl

/-- The entry `j` is cleared. -/
theorem envPageWsClearEntry_lower (hj : j < (s.envs e).pageWSMaxSize) :
    ∃ env, (do
        envPageWsClearEntry e j
        modify fun s => s.setEnv e ((s.envs e).lowerLastWSIndex j) : K Unit) s = .ok () (s.setEnv e env) ∧
      env = { s.envs e with
        ptrPageWorkingSet := (s.envs e).ptrPageWorkingSet.set j ⟨0, true⟩
        pageLastWSIndex := min (s.envs e).pageLastWSIndex j } := by
  set env₁ : Env :=
    { s.envs e with ptrPageWorkingSet := (s.envs e).ptrPageWorkingSet.set j ⟨0, true⟩ }
    with henv
  refine ⟨env₁.lowerLastWSIndex j, ?_, ?_⟩
  · have hclear : envPageWsClearEntry e j s = .ok () (s.setEnv e env₁) := by
      rw [envPageWsClearEntry, Prog.get_bind_apply, Prog.ite_run, if_neg (by omega)]
      rfl
    rw [Prog.bind_of_ok hclear]
    show EStateM.Result.ok ()
      ((s.setEnv e env₁).setEnv e (((s.setEnv e env₁).envs e).lowerLastWSIndex j)) = _
    simp [Kern.setEnv]
  · unfold Env.lowerLastWSIndex
    split
    case isTrue hlt => rw [Nat.min_eq_right (Nat.le_of_lt hlt)]
    case isFalse hge => rw [Nat.min_eq_left (Nat.le_of_not_lt hge)]

theorem clearsEntries_set {env : Env} (henvs : t.envs = s.envs)
    (henv : env = { s.envs e with
      ptrPageWorkingSet := (s.envs e).ptrPageWorkingSet.set j ⟨0, true⟩
      pageLastWSIndex := min (s.envs e).pageLastWSIndex j })
    (hj : j < (s.envs e).ptrPageWorkingSet.length) (hq : (s.envs e).wsPage j = some q) (hpq : p ≤ q)
    (hqn : q < p + n) : ClearsEntries e p n j 1 s (t.setEnv e env) := by
  have hself : (t.setEnv e env).envs e = env := by simp [Kern.setEnv]
  have hws : env.ptrPageWorkingSet = (s.envs e).ptrPageWorkingSet.set j ⟨0, true⟩ := by rw [henv]
  refine ⟨fun e' hne => ?_, ?_, ?_, fun i r h1 h2 hr hpr hrn => ?_, fun i hi => ?_, fun x => ?_⟩
  · simp [Kern.setEnv, hne, henvs]
  · rw [hself]
    conv_lhs => rw [henv]
    rw [henv]
  · rw [hself, hws, List.length_set]
  · obtain rfl : i = j := by omega
    rw [hself, hws, List.getElem?_set_self hj]
  · -- the entry `i` is told apart by its place or by its page
    have hij : j ≠ i := by
      rintro rfl
      rcases hi with hi | hi | hi
      · omega
      · omega
      · have := hi q hq
        omega
    rw [hself, hws, List.getElem?_set_ne hij]
  · have hindex : env.pageLastWSIndex = min (s.envs e).pageLastWSIndex j := by rw [henv]
    rw [hself, hindex, Nat.le_min]
    apply and_congr_right
    intro _
    constructor
    · intro hx i _ h1 h2 _ _ _
      omega
    · intro hall
      exact hall j q (Nat.le_refl j) (by omega) hq hpq hqn

theorem ClearsEntries.skip (hout : ∀ q, (s.envs e).wsPage j = some q → q < p ∨ p + n ≤ q) :
    ClearsEntries e p n j 1 s s := by
  refine ⟨fun _ _ => rfl, rfl, rfl, fun i q h1 h2 hq hpq hqn => ?_, fun _ _ => rfl, fun x => ?_⟩
  · obtain rfl : i = j := by omega
    have := hout q hq
    omega
  · rw [iff_self_and]
    intro _ i q h1 h2 hq hpq hqn
    obtain rfl : i = j := by omega
    have := hout q hq
    omega

theorem ClearsEntries.wsPage_eq (h : ClearsEntries e p n j m s t) {i : Nat} (hi : j + m ≤ i) :
    (t.envs e).wsPage i = (s.envs e).wsPage i := by
  unfold Env.wsPage
  rw [h.entry i (.inr (.inl hi))]

theorem ClearsEntries.trans (h : ClearsEntries e p n j 1 s t)
    (h' : ClearsEntries e p n (j + 1) m t u) : ClearsEntries e p n j (m + 1) s u := by
  refine ⟨fun e' hne => (h'.others e' hne).trans (h.others e' hne), ?_, h'.length.trans h.length,
    fun i q h1 h2 hq hpq hqn => ?_, fun i hi => ?_, fun x => ?_⟩
  · rw [h'.env, h.env]
  · -- entry `j` is cleared by the first step, the others by the rest
    by_cases hij : i = j
    · subst hij
      rw [h'.entry i (.inl (by omega))]
      exact h.cleared i q (by omega) (by omega) hq hpq hqn
    · have hge : j + 1 ≤ i := by omega
      exact h'.cleared i q hge (by omega) ((h.wsPage_eq hge).trans hq) hpq hqn
  · by_cases hij : i = j
    · subst hij
      rw [h'.entry i (.inl (by omega)), h.entry i]
      exact hi.imp (fun hc => hc) fun hc => hc.imp (fun hc => by omega) fun hc => hc
    · rw [h'.entry i, h.entry i (by omega)]
      rcases Nat.lt_or_ge i (j + 1) with hlt | hge
      · exact .inl hlt
      · rw [h.wsPage_eq hge]
        exact hi.imp (fun hc => by omega) fun hc => hc.imp (fun hc => by omega) fun hc => hc
  · rw [h'.index, h.index, and_assoc]
    apply and_congr_right
    intro _
    constructor
    · rintro ⟨hfirst, hrest⟩ i q h1 h2 hq hpq hqn
      rcases Nat.lt_or_ge i (j + 1) with hlt | hge
      · exact hfirst i q h1 hlt hq hpq hqn
      · exact hrest i q hge (by omega) ((h.wsPage_eq hge).trans hq) hpq hqn
    · intro hall
      refine ⟨fun i q h1 h2 hq hpq hqn => ?_, fun i q h1 h2 hq hpq hqn => ?_⟩
      · exact hall i q h1 (by omega) hq hpq hqn
      · rw [h.wsPage_eq h1] at hq
        exact hall i q (by omega) (by omega) hq hpq hqn

theorem ClearsEntries.scanned (h : ClearsEntries e p n j 1 s t) :
    scannedPages (s.envs e) p n j (m + 1) =
      scannedPages (s.envs e) p n j 1 ∪ scannedPages (t.envs e) p n (j + 1) m := by
  ext q
  constructor
  · rintro ⟨hq, i, h1, h2, hi⟩
    by_cases hij : i = j
    · exact .inl ⟨hq, i, by omega, by omega, hi⟩
    · have hge : j + 1 ≤ i := by omega
      exact .inr ⟨hq, i, hge, by omega, (h.wsPage_eq hge).trans hi⟩
  · rintro (⟨hq, i, h1, h2, hi⟩ | ⟨hq, i, h1, h2, hi⟩)
    · exact ⟨hq, i, h1, by omega, hi⟩
    · exact ⟨hq, i, by omega, by omega, (h.wsPage_eq h1).symm.trans hi⟩

/-- The frames of the pages of a range are mapped once. -/
def MappedOnce (dir : DirPtr) (p n : Nat) (s : Kern) : Prop :=
  ∀ q, p ≤ q → q < p + n → s.leaf dir q ≠ 0 → s.references (ppn (s.leaf dir q)) = 1

theorem MappedOnce.gives (h : MappedOnce dir p n s) (hgive : GivesUp dirs dir P s t)
    (hmem : MemOk lay G D dirs held t) (hdir : dir ∈ dirs.page) (hn : p + n ≤ 977920) :
    MappedOnce dir p n t := by
  intro q hpq hqn hne
  obtain ⟨hsame, hrefs⟩ := hgive.references hmem hdir (by omega) hne
  rw [hrefs]
  apply h q hpq hqn
  rwa [hsame]

/-- One turn of the scan. -/
theorem MemOk.freeResident_step (h : MemOk lay G D dirs held s)
    (hdir : s.pageDirectory e ∈ dirs.page) (hj : j < (s.envs e).pageWSMaxSize)
    (hlen : (s.envs e).pageWSMaxSize ≤ (s.envs e).ptrPageWorkingSet.length) (hn : p + n ≤ 977920)
    (honce : MappedOnce (s.pageDirectory e) p n s) :
    ∃ t, Fos.freeResident e (p * 4096) (n * 4096) j (m + 1) s =
        Fos.freeResident e (p * 4096) (n * 4096) (j + 1) m t ∧ MemOk lay G D dirs held t ∧
      GivesUp dirs (s.pageDirectory e) (scannedPages (s.envs e) p n j 1) s t ∧
      ClearsEntries e p n j 1 s t := by
  have hlt : j < (s.envs e).ptrPageWorkingSet.length := by omega
  obtain ⟨w, hw⟩ : ∃ w, (s.envs e).ptrPageWorkingSet[j]? = some w :=
    ⟨_, List.getElem?_eq_getElem hlt⟩
  have hpage : (s.envs e).wsPage j = some (ppn w.virtualAddress) := by
    unfold Env.wsPage
    rw [hw]
    rfl
  have hend : u32 (p * 4096 + n * 4096) = p * 4096 + n * 4096 := u32_of_lt (by omega)
  set q := ppn w.virtualAddress with hq
  have hrun : Fos.freeResident e (p * 4096) (n * 4096) j (m + 1) s = (do
      (if p * 4096 ≤ q * 4096 ∧ q * 4096 < p * 4096 + n * 4096 then do
        Fos.unmapFrame (.heap ((← get).envs e).envPageDirectory) (q * 4096)
        envPageWsClearEntry e j
        modify fun s => s.setEnv e ((s.envs e).lowerLastWSIndex j)
      else return ())
      Fos.freeResident e (p * 4096) (n * 4096) (j + 1) m : K Unit) s := by
    rw [Fos.freeResident, Prog.bind_of_ok (envPageWsGetVirtualAddress_ok hj hw), hend]
  rw [hrun]
  by_cases hin : p ≤ q ∧ q < p + n
  · have hva : q * 4096 < userTop := by unfold userTop; omega
    have hppn : ppn (q * 4096) = q := ppn_page q
    -- the entry scanned names one page
    have hone : scannedPages (s.envs e) p n j 1 = {q} := by
      ext r
      constructor
      · rintro ⟨-, i, h1, h2, hi⟩
        obtain rfl : i = j := by omega
        exact Option.some.inj (hi.symm.trans hpage)
      · rintro rfl
        exact ⟨hin, j, le_refl j, by omega, hpage⟩
    obtain ⟨t, hun, hok, hgive, henvs⟩ := h.unmapFrame_gives hdir hva (by
      rw [hppn]
      exact honce q hin.1 hin.2)
    rw [hppn] at hgive
    obtain ⟨env, hclear, henv⟩ :=
      envPageWsClearEntry_lower (s := t) (e := e) (j := j) (by rwa [henvs])
    rw [henvs] at henv
    refine ⟨t.setEnv e env, ?_, hok.setEnv e env, ?_, ?_⟩
    · apply Prog.bind_of_ok (a := ())
      rw [Prog.ite_run, if_pos (by omega), Prog.get_bind_apply]
      exact (Prog.bind_of_ok hun).trans hclear
    · rw [hone]
      exact hgive.setEnv env
    · exact clearsEntries_set henvs henv hlt hpage hin.1 hin.2
  · have hnone : scannedPages (s.envs e) p n j 1 = ∅ := by
      ext r
      simp only [Set.mem_empty_iff_false, iff_false]
      rintro ⟨hr, i, h1, h2, hi⟩
      obtain rfl : i = j := by omega
      rw [hpage] at hi
      obtain rfl := Option.some.inj hi
      exact hin hr
    refine ⟨s, ?_, h, ?_, .skip fun r hr => ?_⟩
    · apply Prog.bind_of_ok (a := ())
      rw [Prog.ite_run, if_neg (by omega)]
      rfl
    · rw [hnone]
      exact .refl _ _ _
    · rw [hpage] at hr
      obtain rfl := Option.some.inj hr
      omega

/-- **The second loop**: it unmaps the pages of the range that the working set records and empties
their entries. -/
theorem MemOk.freeResident (h : MemOk lay G D dirs held s) (hdir : s.pageDirectory e ∈ dirs.page)
    (hj : j + m ≤ (s.envs e).pageWSMaxSize)
    (hlen : (s.envs e).pageWSMaxSize ≤ (s.envs e).ptrPageWorkingSet.length) (hn : p + n ≤ 977920)
    (honce : MappedOnce (s.pageDirectory e) p n s) :
    ∃ t, Fos.freeResident e (p * 4096) (n * 4096) j m s = .ok () t ∧ MemOk lay G D dirs held t ∧
      GivesUp dirs (s.pageDirectory e) (scannedPages (s.envs e) p n j m) s t ∧
      ClearsEntries e p n j m s t := by
  induction m generalizing s j with
  | zero =>
    have hnone : scannedPages (s.envs e) p n j 0 = ∅ := by
      ext r
      simp only [Set.mem_empty_iff_false, iff_false]
      rintro ⟨-, i, h1, h2, -⟩
      omega
    refine ⟨s, rfl, h, ?_, fun _ _ => rfl, rfl, rfl, fun i q h1 h2 => ?_,
      fun _ _ => rfl, fun x => ?_⟩
    · rw [hnone]
      exact .refl _ _ _
    · omega
    · rw [iff_self_and]
      intro _ i q h1 h2
      omega
  | succ m ih =>
    have hlt : j < (s.envs e).pageWSMaxSize := by omega
    obtain ⟨s₁, hrun, hok, hgive, hclear⟩ := h.freeResident_step (m := m) hdir hlt hlen hn honce
    -- the environment keeps its directory and its sizes
    have hpd : s₁.pageDirectory e = s.pageDirectory e := by
      unfold Kern.pageDirectory
      rw [hclear.env]
    have hmax : (s₁.envs e).pageWSMaxSize = (s.envs e).pageWSMaxSize := by rw [hclear.env]
    have hdir₁ : s₁.pageDirectory e ∈ dirs.page := by rwa [hpd]
    have hj₁ : j + 1 + m ≤ (s₁.envs e).pageWSMaxSize := by omega
    have hlen₁ : (s₁.envs e).pageWSMaxSize ≤ (s₁.envs e).ptrPageWorkingSet.length := by
      rwa [hmax, hclear.length]
    have honce₁ : MappedOnce (s₁.pageDirectory e) p n s₁ := by
      rw [hpd]
      exact honce.gives hgive hok hdir hn
    obtain ⟨t, hrest, hokt, hgivet, hcleart⟩ := ih hok hdir₁ hj₁ hlen₁ honce₁
    rw [hpd] at hgivet
    refine ⟨t, hrun.trans hrest, hokt, ?_, hclear.trans hcleart⟩
    have hlow : ∀ env k l, ∀ q ∈ scannedPages env p n k l, q < 977920 := by
      rintro env k l q ⟨hq, -⟩
      omega
    rw [hclear.scanned]
    exact hgive.trans hgivet (.inl hdir) (hlow _ _ _) (hlow _ _ _)

/-! ## The call -/

/-- What `freeMem` finds: the page tables of `e` are blocks of a page, the kernel heap has a free
block, and the working set records each page of the range that is mapped, once. -/
structure RangeHeld (dirs : Roots) (e p n : Nat) (s : Kern) : Prop where
  directory : s.pageDirectory e ∈ dirs.page
  tables : TableBlocks (s.pageDirectory e) s
  freeBlocks : s.heap.blockInfoFreeList ≠ []
  entries : (s.envs e).pageWSMaxSize ≤ (s.envs e).ptrPageWorkingSet.length
  recorded : ∀ q, p ≤ q → q < p + n → s.leaf (s.pageDirectory e) q ≠ 0 →
    ∃ i < (s.envs e).pageWSMaxSize, (s.envs e).wsPage i = some q
  once : MappedOnce (s.pageDirectory e) p n s

/-- The range is freed, and the rest stays. -/
structure FreesRange (dirs : Roots) (e p n : Nat) (s t : Kern) : Prop where
  stored : ∀ q, p ≤ q → q < p + n → t.diskSlot (e, q) = 0
  mapped : ∀ q, p ≤ q → q < p + n → t.leaf (s.pageDirectory e) q = 0
  resident : ∀ i < (s.envs e).pageWSMaxSize, ∀ w, (t.envs e).ptrPageWorkingSet[i]? = some w →
    w.empty = false → ppn w.virtualAddress < p ∨ p + n ≤ ppn w.virtualAddress
  storedElse : ∀ x : Nat × Nat, (x.1 = e → x.2 < p ∨ p + n ≤ x.2) → t.diskSlot x = s.diskSlot x
  words : t.disk.words = s.disk.words
  mappedElse : ∀ dir ∈ dirs.page, ∀ q < 977920, (dir = s.pageDirectory e → q < p ∨ p + n ≤ q) →
    t.leaf dir q = s.leaf dir q
  residentElse : ∀ i, (∀ q, (s.envs e).wsPage i = some q → q < p ∨ p + n ≤ q) →
    (t.envs e).ptrPageWorkingSet[i]? = (s.envs e).ptrPageWorkingSet[i]?
  others : ∀ e', e' ≠ e → t.envs e' = s.envs e'
  directory : t.pageDirectory e = s.pageDirectory e
  released : ∀ i ∈ rangeTables p n, ∀ a, s.table (s.pageDirectory e) i = some a →
    (t.table (s.pageDirectory e) i = none ↔
      ∀ q, q / 1024 = i → q < p ∨ p + n ≤ q → s.leaf (s.pageDirectory e) q = 0)
  returned : ∀ i < 955, ∀ a, s.table (s.pageDirectory e) i = some a →
    t.table (s.pageDirectory e) i = none → t.kernelTable (ppn a) = 0
  tables : ∀ dir ∈ dirs.page, ∀ i < 955, (dir = s.pageDirectory e → i ∉ rangeTables p n) →
    t.table dir i = s.table dir i
  count : t.frames.freeFrameList.length = s.frames.freeFrameList.length +
    {q | (p ≤ q ∧ q < p + n) ∧ s.leaf (s.pageDirectory e) q ≠ 0}.ncard +
    {i | i ∈ rangeTables p n ∧ s.table (s.pageDirectory e) i ≠ none ∧
      t.table (s.pageDirectory e) i = none}.ncard

/-- A table of a directory is all zero when its pages map nothing. -/
theorem emptyTable_iff (hdir : dir ∈ dirs) (hi : i < 955) (ha : s.table dir i = some (p * 4096)) :
    EmptyTable dirs s dir i p ↔ ∀ q, q / 1024 = i → s.leaf dir q = 0 := by
  constructor
  · rintro he q rfl
    rw [leaf_of_some ha]
    exact he.zero _ (by omega)
  · intro hall
    refine ⟨hdir, hi, ha, fun j hj => ?_⟩
    have hdiv : (i * 1024 + j) / 1024 = i := by omega
    have hmod : (i * 1024 + j) % 1024 = j := by omega
    have h0 := hall (i * 1024 + j) hdiv
    rwa [leaf_of_some (by rw [hdiv]; exact ha), hmod] at h0

/-- The three loops, one after the other. -/
structure FreeMemLoops (lay : Layout) (G D : Set Nat) (dirs : Roots) (held : Set Nat) (e p n : Nat)
    (s s₁ s₂ t : Kern) : Prop where
  file : FileOk lay G D dirs held s₁
  clears : ClearsSlots (rangeSlots e p n) s s₁
  fileOnly : FileOnly dirs.page D held s s₁
  onlyDisk : OnlyDisk dirs s s₁
  mem : MemOk lay G D dirs held s₂
  gives : GivesUp dirs (s.pageDirectory e)
    (scannedPages (s.envs e) p n 0 (s.envs e).pageWSMaxSize) s₁ s₂
  entries : ClearsEntries e p n 0 (s.envs e).pageWSMaxSize s₁ s₂
  frees : FreesTables dirs D held (s.pageDirectory e) (emptyTables dirs s₂ (s.pageDirectory e) p n) s₂ t
  returns : ReturnsTables (s.pageDirectory e) (emptyTables dirs s₂ (s.pageDirectory e) p n) s₂ t

theorem OnlyDisk.pageDirectory (h : OnlyDisk dirs s t) (e : Nat) :
    t.pageDirectory e = s.pageDirectory e := by
  unfold Kern.pageDirectory
  rw [h.envs]

theorem FileOk.freeMem_loops (h : FileOk c.layout G D dirs held s) (hr : RangeHeld dirs e p n s)
    (hn : p + n ≤ 977920) :
    ∃ s₁ s₂ t G', Fos.freeMem e (p * 4096) (n * 4096) s = .ok () t ∧
    MemOk c.layout G' D dirs held t ∧
      FreeMemLoops c.layout G D dirs held e p n s s₁ s₂ t := by
  have hppn : ppn (p * 4096) = p := ppn_page p
  have hend : p * 4096 + 4096 * n ≤ userTop := by unfold userTop; omega
  have hdiv : n * 4096 / pageSize = n := Nat.mul_div_cancel _ (by decide)
  obtain ⟨s₁, h₁, hok₁, hf₁, hc₁, ho₁⟩ := h.removePages (e := e) hend
  rw [hppn] at hc₁
  have hpd := ho₁.pageDirectory e
  have hleaf₁ : ∀ q < 977920, s₁.leaf (s.pageDirectory e) q = s.leaf (s.pageDirectory e) q :=
    hf₁.leaf _ hr.directory
  -- taking the pages out of the page file maps and unmaps nothing
  have honce : MappedOnce (s₁.pageDirectory e) p n s₁ := by
    intro q hpq hqn hne
    rw [hpd, hleaf₁ q (by omega)] at hne ⊢
    unfold Kern.references
    rw [ho₁.frames]
    exact hr.once q hpq hqn hne
  have hlen : (s₁.envs e).pageWSMaxSize ≤ (s₁.envs e).ptrPageWorkingSet.length := by
    rw [ho₁.envs]
    exact hr.entries
  obtain ⟨s₂, h₂, hok₂, hg₂, hc₂⟩ := hok₁.mem.freeResident (e := e) (j := 0)
    (m := (s₁.envs e).pageWSMaxSize) (by rw [hpd]; exact hr.directory) (by omega) hlen hn honce
  rw [hpd, ho₁.envs] at hg₂
  have hpd₂ : s₂.pageDirectory e = s.pageDirectory e := by
    rw [← hpd]
    unfold Kern.pageDirectory
    rw [hc₂.env]
  -- nor does unmapping the pages touch a table
  have hblocks : TableBlocks (s.pageDirectory e) s₂ := by
    intro i hi a ha
    rw [hg₂.table _ (.inl hr.directory) i hi, ho₁.table _ (.inl hr.directory) i hi] at ha
    rw [hg₂.heap, ho₁.heap]
    exact hr.tables i hi a ha
  have hfree : s₂.heap.blockInfoFreeList ≠ [] := by
    rw [hg₂.heap, ho₁.heap]
    exact hr.freeBlocks
  obtain ⟨t, h₃, hret⟩ := hok₂.freeEmptyTables_total hr.directory hend hblocks hfree
  obtain ⟨G', -, hok₃, hft⟩ := hok₂.freeEmptyTables hr.directory hend h₃
  rw [hppn] at hret hft
  refine ⟨s₁, s₂, t, G', ?_, hok₃, hok₁, hc₁, hf₁, ho₁, hok₂, hg₂, ?_, hft, hret⟩
  · rw [Fos.freeMem, hdiv, bind_of_ok h₁, Prog.get_bind_apply, bind_of_ok h₂, Prog.get_bind_apply]
    show Fos.freeEmptyTables (s₂.pageDirectory e) _ _ _ = _
    rw [hpd₂]
    exact h₃
  · rw [ho₁.envs] at hc₂
    exact hc₂

section

variable {s₁ s₂ : Kern} {a : Nat}

/-- The range maps nothing when the scan is done. -/
theorem FreeMemLoops.unmapped (hl : FreeMemLoops lay G D dirs held e p n s s₁ s₂ t)
    (hr : RangeHeld dirs e p n s) (hn : p + n ≤ 977920) (hpq : p ≤ q) (hqn : q < p + n) :
    s₂.leaf (s.pageDirectory e) q = 0 := by
  by_cases hq : q ∈ scannedPages (s.envs e) p n 0 (s.envs e).pageWSMaxSize
  · exact hl.gives.cleared q hq
  · rw [hl.gives.leaf _ (.inl hr.directory) q (by omega) fun hc => hq hc.2,
      hl.fileOnly.leaf _ hr.directory q (by omega)]
    by_contra hne
    obtain ⟨i, hi, hpage⟩ := hr.recorded q hpq hqn hne
    exact hq ⟨⟨hpq, hqn⟩, i, Nat.zero_le i, by omega, hpage⟩

/-- The pages off the range map what they did. -/
theorem FreeMemLoops.leaf (hl : FreeMemLoops lay G D dirs held e p n s s₁ s₂ t)
    (hdir : dir ∈ dirs.page) (hq : q < 977920) (hout : dir = s.pageDirectory e → q < p ∨ p + n ≤ q) :
    s₂.leaf dir q = s.leaf dir q := by
  rw [hl.gives.leaf dir (.inl hdir) q hq, hl.fileOnly.leaf dir hdir q hq]
  rintro ⟨hd, hr, -⟩
  have := hout hd
  omega

theorem FreeMemLoops.table (hl : FreeMemLoops lay G D dirs held e p n s s₁ s₂ t)
    (hdir : dir ∈ dirs.page) (hi : i < 955) : s₂.table dir i = s.table dir i := by
  rw [hl.gives.table dir (.inl hdir) i hi, hl.onlyDisk.table dir (.inl hdir) i hi]

/-- The tables that are given back are those of the range whose other pages map nothing. -/
theorem FreeMemLoops.mem_emptyTables (hl : FreeMemLoops lay G D dirs held e p n s s₁ s₂ t)
    (hr : RangeHeld dirs e p n s) (hn : p + n ≤ 977920) (hi : i ∈ rangeTables p n)
    (ha : s.table (s.pageDirectory e) i = some (a * 4096)) :
    i ∈ emptyTables dirs s₂ (s.pageDirectory e) p n ↔
      ∀ q, q / 1024 = i → q < p ∨ p + n ≤ q → s.leaf (s.pageDirectory e) q = 0 := by
  have hi955 : i < 955 := by
    obtain ⟨k, hk, rfl⟩ := hi
    omega
  have ha₂ : s₂.table (s.pageDirectory e) i = some (a * 4096) :=
    (hl.table hr.directory hi955).trans ha
  have hempty := emptyTable_iff (.inl hr.directory) hi955 ha₂
  constructor
  · rintro ⟨-, r, he⟩ q rfl hout
    have hra := he.table
    rw [ha₂] at hra
    obtain rfl : r = a := by have := Option.some.inj hra; omega
    rw [← hl.leaf hr.directory (by omega) fun _ => hout]
    exact hempty.1 he q rfl
  · intro hall
    refine ⟨hi, a, hempty.2 fun q hq => ?_⟩
    by_cases hin : p ≤ q ∧ q < p + n
    · exact hl.unmapped hr hn hin.1 hin.2
    · rw [hl.leaf hr.directory (by omega) fun _ => by omega]
      exact hall q hq (by omega)

/-- Which tables of the directory are gone. -/
theorem FreeMemLoops.table_none (hl : FreeMemLoops lay G D dirs held e p n s s₁ s₂ t)
    (hr : RangeHeld dirs e p n s) (hi : i < 955) (ha : s.table (s.pageDirectory e) i = some a) :
    t.table (s.pageDirectory e) i = none ↔ i ∈ emptyTables dirs s₂ (s.pageDirectory e) p n := by
  constructor
  · intro hnone
    by_contra hnot
    rw [hl.frees.stays _ (.inl hr.directory) i hi fun hc => hnot hc.2, hl.table hr.directory hi,
      ha] at hnone
    cases hnone
  · exact hl.frees.gone i

/-- The slots of the page file after the first loop stay. -/
theorem FreeMemLoops.diskSlot (hl : FreeMemLoops lay G D dirs held e p n s s₁ s₂ t)
    (hr : RangeHeld dirs e p n s) : t.diskSlot = s₁.diskSlot := by
  have henv : ∀ e', (s₂.envs e').diskEnvPgdir = (s₁.envs e').diskEnvPgdir := by
    intro e'
    by_cases he : e' = e
    · rw [he, hl.entries.env]
    · rw [hl.entries.others e' he]
  have h₂ : s₂.diskSlot = s₁.diskSlot := by
    apply diskSlot_congr henv
    intro e' hd q hq
    have hdisk := hl.file.dir e' hd
    apply hl.gives.leaf _ (.inr hdisk) q hq
    rintro ⟨hsame, -⟩
    exact dirs.apart _ hr.directory (hsame ▸ hdisk)
  rw [← h₂]
  apply diskSlot_congr fun e' => by rw [hl.frees.envs]
  intro e' hd q hq
  rw [henv e'] at hd ⊢
  exact hl.frees.diskLeaf _ (hl.file.dir e' hd) q hq

theorem FreeMemLoops.count (hl : FreeMemLoops lay G D dirs held e p n s s₁ s₂ t)
    (hr : RangeHeld dirs e p n s) (hn : p + n ≤ 977920) :
    t.frames.freeFrameList.length = s.frames.freeFrameList.length +
      {q | (p ≤ q ∧ q < p + n) ∧ s.leaf (s.pageDirectory e) q ≠ 0}.ncard +
      {i | i ∈ rangeTables p n ∧ s.table (s.pageDirectory e) i ≠ none ∧
        t.table (s.pageDirectory e) i = none}.ncard := by
  -- every page of the range that is mapped has an entry in the working set
  have hpages : {q | q ∈ scannedPages (s.envs e) p n 0 (s.envs e).pageWSMaxSize ∧
      s₁.leaf (s.pageDirectory e) q ≠ 0} =
      {q | (p ≤ q ∧ q < p + n) ∧ s.leaf (s.pageDirectory e) q ≠ 0} := by
    ext q
    constructor
    · rintro ⟨⟨hq, -⟩, hne⟩
      rw [hl.fileOnly.leaf _ hr.directory q (by omega)] at hne
      exact ⟨hq, hne⟩
    · rintro ⟨hq, hne⟩
      obtain ⟨i, hi, hpage⟩ := hr.recorded q hq.1 hq.2 hne
      rw [← hl.fileOnly.leaf _ hr.directory q (by omega)] at hne
      exact ⟨⟨hq, i, Nat.zero_le i, by omega, hpage⟩, hne⟩
  have htables : emptyTables dirs s₂ (s.pageDirectory e) p n =
      {i | i ∈ rangeTables p n ∧ s.table (s.pageDirectory e) i ≠ none ∧
        t.table (s.pageDirectory e) i = none} := by
    ext i
    constructor
    · intro hi
      obtain ⟨r, he⟩ := hi.2
      refine ⟨hi.1, ?_, hl.frees.gone i hi⟩
      rw [← hl.table hr.directory he.index, he.table]
      exact Option.some_ne_none _
    · rintro ⟨hi, hne, hnone⟩
      obtain ⟨a, ha⟩ := Option.ne_none_iff_exists'.1 hne
      have hi955 : i < 955 := by
        obtain ⟨k, hk, rfl⟩ := hi
        omega
      exact (hl.table_none hr hi955 ha).1 hnone
  rw [hl.returns.count, hl.gives.count, hl.onlyDisk.frames, hpages, htables]

theorem FreeMemLoops.freesRange (h : FileOk lay G D dirs held s)
    (hl : FreeMemLoops lay G D dirs held e p n s s₁ s₂ t) (hr : RangeHeld dirs e p n s)
    (hn : p + n ≤ 977920) : FreesRange dirs e p n s t := by
  have henvs : t.envs = s₂.envs := hl.frees.envs
  have henvs₁ : s₁.envs = s.envs := hl.onlyDisk.envs
  have hname : ∀ i < 955, ∀ a, s.table (s.pageDirectory e) i = some a → ∃ r, a = r * 4096 := by
    intro i hi a ha
    obtain ⟨r, -, rfl, -⟩ := h.mem.directories.table_some (.inl hr.directory) hi ha
    exact ⟨r, rfl⟩
  have hentry : ∀ i, (∀ q, (s.envs e).wsPage i = some q → q < p ∨ p + n ≤ q) →
      (t.envs e).ptrPageWorkingSet[i]? = (s.envs e).ptrPageWorkingSet[i]? := by
    intro i hi
    rw [henvs, hl.entries.entry i, henvs₁]
    rw [henvs₁]
    exact .inr (.inr hi)
  refine ⟨fun q hpq hqn => ?_, fun q hpq hqn => ?_, fun i hi w hw hfull => ?_, fun x hx => ?_, ?_,
    fun dir hdir q hq hout => ?_, hentry, fun e' he' => ?_, ?_, fun i hi a ha => ?_,
    fun i hi a ha hnone => ?_, fun dir hdir i hi hout => ?_, hl.count hr hn⟩
  · rw [hl.diskSlot hr]
    exact hl.clears.cleared _ ⟨rfl, hpq, hqn⟩
  · rw [hl.frees.leaf _ hr.directory q (by omega)]
    exact hl.unmapped hr hn hpq hqn
  · by_contra hin
    -- the entry was in the range before, and is empty now
    by_cases hsame : ∀ q, (s.envs e).wsPage i = some q → q < p ∨ p + n ≤ q
    · rw [hentry i hsame] at hw
      apply hin
      apply hsame
      unfold Env.wsPage
      rw [hw]
      rfl
    · push Not at hsame
      obtain ⟨q, hq, hpq, hqn⟩ := hsame
      rw [← henvs₁] at hq
      rw [henvs, hl.entries.cleared i q (Nat.zero_le i) (by omega) hq hpq hqn] at hw
      obtain rfl := Option.some.inj hw
      cases hfull
  · rw [hl.diskSlot hr]
    apply hl.clears.other
    rintro ⟨he, hpq, hqn⟩
    have := hx he
    omega
  · rw [hl.frees.disk, hl.gives.disk]
    exact hl.clears.words
  · rw [hl.frees.leaf dir hdir q hq]
    exact hl.leaf hdir hq hout
  · rw [henvs, hl.entries.others e' he', henvs₁]
  · unfold Kern.pageDirectory
    rw [henvs, hl.entries.env, henvs₁]
  · have hi955 : i < 955 := by
      obtain ⟨k, hk, rfl⟩ := hi
      omega
    obtain ⟨r, rfl⟩ := hname i hi955 a ha
    rw [hl.table_none hr hi955 ha]
    exact hl.mem_emptyTables hr hn hi ha
  · obtain ⟨r, rfl⟩ := hname i hi a ha
    rw [ppn_page]
    apply hl.returns.kernelTable
    refine ⟨i, (hl.table_none hr hi ha).1 hnone, ?_⟩
    rw [hl.table hr.directory hi, ha]
  · rw [hl.frees.stays dir (.inl hdir) i hi fun hc => hout hc.1 hc.2.1]
    exact hl.table hdir hi

end

/-- `freeMem` returns, frees the range, and keeps what the page file and the tables rely on. -/
theorem FileOk.freeMem (h : FileOk c.layout G D dirs held s) (hr : RangeHeld dirs e p n s)
    (hn : p + n ≤ 977920) :
    ∃ t, Fos.freeMem e (p * 4096) (n * 4096) s = .ok () t ∧ FreesRange dirs e p n s t ∧
      ∃ G', MemOk c.layout G' D dirs held t := by
  obtain ⟨s₁, s₂, t, G', hrun, hok, hl⟩ := h.freeMem_loops hr hn
  exact ⟨t, hrun, hl.freesRange h hr hn, G', hok⟩

/-- **`freeMem` frees exactly its range.** Where the page tables of the environment are blocks of a
page and the working set records the pages of a page-aligned range of the user heap that are mapped,
once each, the range is in the page file, in the working set and mapped no more, a table of the
range is given back exactly when it maps nothing, every other page stays as it is, and the free
frames are more by the pages that were resident and the tables given back. -/
theorem freeMem_frees {size : Nat} (h : FileOk c.layout G D dirs held s)
    (hr : RangeHeld dirs e (ppn va) (ppn size) s) (hva : va % pageSize = 0)
    (hsize : size % pageSize = 0) (hlow : userHeapStart ≤ va) (hhigh : va + size ≤ userHeapMax) :
    ∃ t, freeMem e va size s = .ok () t ∧ FreesRange dirs e (ppn va) (ppn size) s t := by
  have hva' : va = ppn va * 4096 := by unfold ppn; unfold pageSize at hva; omega
  have hsize' : size = ppn size * 4096 := by unfold ppn; unfold pageSize at hsize; omega
  have hn : ppn va + ppn size ≤ 977920 := by unfold userHeapMax at hhigh; omega
  obtain ⟨t, hrun, hfrees, -⟩ := h.freeMem hr hn
  rw [← hva', ← hsize'] at hrun
  exact ⟨t, hrun, hfrees⟩

/-- The first page of the user heap is resident, in the page file or not. -/
theorem freeMem_frees_resident : ∃ dirs t,
    Fos.freeMem 3 userHeapStart pageSize (residentKern userHeapStart) = .ok () t ∧
      FreesRange dirs 3 (ppn userHeapStart) (ppn pageSize) (residentKern userHeapStart) t := by
  obtain ⟨m, hrun⟩ := resident_run (.inr (.inr rfl))
  obtain ⟨G, dirs, hpages, hfile⟩ := (memoryRun_inv smallBoot_ok hrun).file
  have hdir : (residentKern userHeapStart).pageDirectory 3 ∈ dirs.page := by
    rw [hpages]
    have hself : (residentKern userHeapStart).pageDirectory 3 = .heap (1007620 * 4096) := by
      decide +kernel
    rw [hself]
    exact List.mem_cons_self
  have hpos : ∀ b ∈ (residentKern userHeapStart).heap.blockInfoTakenList, 0 < b.size := by
    decide +kernel
  have hpage : ∀ q, ppn userHeapStart ≤ q → q < ppn userHeapStart + ppn pageSize → q = 524288 := by
    intro q h1 h2
    rw [show ppn userHeapStart = 524288 by decide] at h1 h2
    rw [show ppn pageSize = 1 by decide] at h2
    omega
  refine ⟨dirs,
    freeMem_frees hfile ⟨hdir, hfile.mem.tableBlocks (.inl hdir) hpos, by decide +kernel,
    by decide +kernel, ?_, ?_⟩ (by decide) (by decide) (by decide) (by decide)⟩
  · intro q h1 h2 _
    rw [hpage q h1 h2]
    exact ⟨0, by decide +kernel, by decide +kernel⟩
  · intro q h1 h2 _
    rw [hpage q h1 h2]
    decide +kernel

end

end Fos
