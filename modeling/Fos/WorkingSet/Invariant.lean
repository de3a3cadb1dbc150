import Fos.WorkingSet.Entries
import Fos.WorkingSet.Faults

/-!
# The working set over runs

Page faults and `freeMem` calls in any order. The entries in use always hold mapped pages, each
once. That no mapped page is missing, and that a page is placed in a free entry, takes that the free
entries stand in a row from `page_last_WS_index` on, which placement and replacement keep and
`freeMem` need not.
-/

namespace Fos

open Prog (bind_eq_ok ok_inj)
open Relation (ReflTransGen)

section

variable {lay : Layout} {s : FileState} {k : Kern} {e i j m n p q va : Nat}

/-! ## Freeing -/

/-- One turn of the second loop of `freeMem` that returns. -/
theorem freeResident_ok {s t : Kern} (hn : p + n ≤ 977920)
    (h : freeResident e (p * 4096) (n * 4096) j (m + 1) s = .ok () t) :
    j < (s.envs e).pageWSMaxSize ∧ ∃ w, (s.envs e).ptrPageWorkingSet[j]? = some w ∧
      ((p ≤ ppn w.virtualAddress ∧ ppn w.virtualAddress < p + n ∧ ∃ u env,
          unmapFrame (s.pageDirectory e) (ppn w.virtualAddress * 4096) s = .ok () u ∧
          env = { u.envs e with
            ptrPageWorkingSet := (u.envs e).ptrPageWorkingSet.set j ⟨0, true⟩
            pageLastWSIndex := min (u.envs e).pageLastWSIndex j } ∧
          freeResident e (p * 4096) (n * 4096) (j + 1) m (u.setEnv e env) = .ok () t) ∨
        (¬ (p ≤ ppn w.virtualAddress ∧ ppn w.virtualAddress < p + n) ∧
          freeResident e (p * 4096) (n * 4096) (j + 1) m s = .ok () t)) := by
  have hend : u32 (p * 4096 + n * 4096) = p * 4096 + n * 4096 := u32_of_lt (by omega)
  rw [Fos.freeResident] at h
  obtain ⟨va, s₁, h₁, h⟩ := bind_eq_ok.1 h
  rw [envPageWsGetVirtualAddress, Prog.get_bind_apply, Prog.ite_run] at h₁
  split at h₁
  case isTrue => cases h₁
  case isFalse hj =>
    have hj : j < (s.envs e).pageWSMaxSize := Nat.lt_of_not_le hj
    refine ⟨hj, ?_⟩
    cases hw : (s.envs e).ptrPageWorkingSet[j]? with
    | none =>
      rw [hw] at h₁
      cases h₁
    | some w =>
      rw [hw] at h₁
      obtain ⟨rfl, rfl⟩ := ok_inj.1 h₁
      -- the entry is compared by its page
      have hround : rounddown w.virtualAddress pageSize = ppn w.virtualAddress * 4096 := by
        unfold rounddown pageSize ppn
        omega
      refine ⟨w, rfl, ?_⟩
      rw [hround, hend] at h
      obtain ⟨_, s₂, h₂, h⟩ := bind_eq_ok.1 h
      rw [Prog.ite_run] at h₂
      split at h₂
      case isTrue hin =>
        rw [Prog.get_bind_apply] at h₂
        obtain ⟨_, u, hu, h₂⟩ := bind_eq_ok.1 h₂
        have hlt : j < (u.envs e).pageWSMaxSize := by
          obtain ⟨_, _, hclear, -⟩ := bind_eq_ok.1 h₂
          exact (envPageWsClearEntry_ok hclear).1
        obtain ⟨env, hrun, henv⟩ := envPageWsClearEntry_lower hlt
        rw [hrun] at h₂
        obtain ⟨-, rfl⟩ := ok_inj.1 h₂
        exact .inl ⟨by omega, by omega, u, env, hu, henv, h⟩
      case isFalse hout =>
        obtain ⟨-, rfl⟩ := ok_inj.1 h₂
        exact .inr ⟨fun hc => hout ⟨by omega, by omega⟩, h⟩

/-- The frames of the pages of a range that `m` entries from `j` on hold are theirs alone. -/
def EntriesOnce (e p n j m : Nat) (s : Kern) : Prop :=
  ∀ i q, j ≤ i → i < j + m → (s.envs e).wsPage i = some q → p ≤ q → q < p + n →
    present (s.leaf (s.pageDirectory e) q) →
    s.references (ppn (s.leaf (s.pageDirectory e) q)) = 1

/-- The pages of `dir` that the scan of a range comes upon. -/
def scannedLeaves (dir : DirPtr) (env : Env) (p n j m : Nat) : Set (DirPtr × Nat) :=
  {x | x.1 = dir ∧ x.2 ∈ scannedPages env p n j m}

theorem scannedPages_zero (env : Env) : scannedPages env p n j 0 = ∅ := by
  ext q
  simp only [Set.mem_empty_iff_false, iff_false]
  rintro ⟨-, i, h1, h2, -⟩
  omega

/-- **The second loop of `freeMem`** unmaps the pages it comes upon and empties their entries. -/
theorem StoreInv.freeResident (hi : StoreInv lay s) (hpd : (s.kern.envs e).envPageDirectory ≠ 0)
    (hn : p + n ≤ 977920) (honce : EntriesOnce e p n j m s.kern)
    (h : Fos.freeResident e (p * 4096) (n * 4096) j m s.kern = .ok () k) :
    StoreInv lay ⟨k, s.pages, s.store⟩ ∧ ClearsEntries e p n j m s.kern k ∧
      KeepsOutside s.pages (scannedLeaves (s.kern.pageDirectory e) (s.kern.envs e) p n j m) s.kern k ∧
      ∀ q ∈ scannedPages (s.kern.envs e) p n j m, k.leaf (s.kern.pageDirectory e) q = 0 := by
  induction m generalizing s j with
  | zero =>
    obtain ⟨-, rfl⟩ := ok_inj.1 h
    refine ⟨hi, ⟨fun _ _ => rfl, rfl, rfl, fun i q h1 h2 => ?_, fun _ _ => rfl, fun x => ?_⟩,
      .refl _ _ _, ?_⟩
    · omega
    · rw [iff_self_and]
      intro _ i q h1 h2
      omega
    · rw [scannedPages_zero]
      exact fun q hq => hq.elim
  | succ m ih =>
    obtain ⟨hj, w, hw, hcase⟩ := freeResident_ok hn h
    have hpage : (s.kern.envs e).wsPage j = some (ppn w.virtualAddress) := by
      unfold Env.wsPage
      rw [hw]
      rfl
    have hlt : j < (s.kern.envs e).ptrPageWorkingSet.length := (List.getElem?_eq_some_iff.1 hw).1
    rcases hcase with ⟨hpq, hqn, u, env, hun, henv, hrest⟩ | ⟨hout, hrest⟩
    · set q := ppn w.virtualAddress with hq
      have hdir := hi.pages e hpd
      have hva : q * 4096 < userTop := by unfold userTop; omega
      have hppn : ppn (q * 4096) = q := ppn_page q
      have hself := honce j q (Nat.le_refl j) (by omega) hpage hpq hqn
      -- the page of the entry goes
      have hi₁ := (hi.unmapPage hdir hva hun).1
      obtain ⟨hleaf, henvs⟩ := hi.unmapPage_leaf hdir hva hun
      have hkeep := (hi.unmap_keeps hdir hva (by rwa [hppn]) hun).1
      rw [hppn] at hleaf hkeep
      rw [henvs] at henv
      have hclear : ClearsEntries e p n j 1 s.kern (u.setEnv e env) :=
        clearsEntries_set henvs henv hlt hpage hpq hqn
      have hi₂ : StoreInv lay ⟨u.setEnv e env, s.pages, s.store⟩ := by
        apply hi₁.setEnv
        · rw [henv, henvs]
        · rw [henv, henvs]
      have hd₂ : (u.setEnv e env).pageDirectory e = s.kern.pageDirectory e := by
        unfold Kern.pageDirectory
        rw [hclear.env]
      have hkeep₂ : KeepsOutside s.pages {(s.kern.pageDirectory e, q)} s.kern (u.setEnv e env) :=
        hkeep.setEnv e env
      -- the rest of the scan
      have honce₂ : EntriesOnce e p n (j + 1) m (u.setEnv e env) := by
        intro i r hji him hr hpr hrn hpres
        rw [hd₂] at hpres ⊢
        have hrq : r ≠ q := by
          rintro rfl
          exact present_ne_zero hpres hleaf
        have hk := hkeep₂ _ hdir r (by omega) fun hc => hrq (congrArg Prod.snd hc)
        rw [hk.leaf] at hpres ⊢
        rw [hk.references hpres]
        exact honce i r (by omega) (by omega) ((hclear.wsPage_eq hji).symm.trans hr) hpr hrn hpres
      have hpd₂ : ((u.setEnv e env).envs e).envPageDirectory ≠ 0 := by
        rw [DirPtr.heap.inj hd₂]
        exact hpd
      obtain ⟨hi₃, hclear₃, hkeep₃, hleaf₃⟩ := ih hi₂ hpd₂ honce₂ hrest
      rw [hd₂] at hkeep₃ hleaf₃
      refine ⟨hi₃, hclear.trans hclear₃, ?_, fun r hr => ?_⟩
      · refine (hkeep₂.mono ?_).trans (hkeep₃.mono ?_)
        · rintro x rfl
          exact ⟨rfl, ⟨hpq, hqn⟩, j, Nat.le_refl j, by omega, hpage⟩
        · rintro x ⟨hx, hscan⟩
          refine ⟨hx, ?_⟩
          rw [hclear.scanned]
          exact .inr hscan
      · by_cases hscan : r ∈ scannedPages ((u.setEnv e env).envs e) p n (j + 1) m
        · exact hleaf₃ r hscan
        · rw [hclear.scanned] at hr
          rcases hr with ⟨-, i, h1, h2, hir⟩ | hr
          · obtain rfl : i = j := by omega
            obtain rfl : r = q := Option.some.inj (hir.symm.trans hpage)
            rw [(hkeep₃ _ hdir q (by omega) fun hc => hscan hc.2).leaf]
            exact hleaf
          · exact absurd hr hscan
    · have hskip : ClearsEntries e p n j 1 s.kern s.kern := by
        apply ClearsEntries.skip
        intro r hr
        obtain rfl := Option.some.inj (hpage.symm.trans hr)
        omega
      have hscan : scannedPages (s.kern.envs e) p n j (m + 1) =
          scannedPages (s.kern.envs e) p n (j + 1) m := by
        rw [hskip.scanned]
        apply Set.union_eq_self_of_subset_left
        rintro r ⟨hr, i, h1, h2, hir⟩
        obtain rfl : i = j := by omega
        obtain rfl := Option.some.inj (hpage.symm.trans hir)
        exact absurd hr hout
      obtain ⟨hi₃, hclear₃, hkeep₃, hleaf₃⟩ :=
        ih hi hpd (fun i r hji him => honce i r (by omega) (by omega)) hrest
      refine ⟨hi₃, hskip.trans hclear₃, ?_, ?_⟩
      · rw [scannedLeaves, hscan]
        exact hkeep₃
      · rw [hscan]
        exact hleaf₃

theorem ClearsEntries.congr {s s' t t' : Kern} (h : ClearsEntries e p n j m s t)
    (hs : s.envs = s'.envs) (ht : t.envs = t'.envs) : ClearsEntries e p n j m s' t' := by
  refine ⟨?_, ?_, ?_, ?_, ?_, ?_⟩
  all_goals rw [← hs, ← ht]
  exacts [h.others, h.env, h.length, h.cleared, h.entry, h.index]

/-- The slots `X` are cleared. -/
theorem Shows.clears {store : PageStore} {X : Set (Nat × Nat)} {s t : Kern} (h : Shows store s)
    (hc : ClearsSlots X s t) : ∃ store', Shows store' t := by
  classical
  refine ⟨fun x => if x ∈ X then none else store x, fun x => ?_, fun x w hx => ?_⟩
  · split
    case isTrue hx => exact iff_of_true rfl (hc.cleared x hx)
    case isFalse hx =>
      rw [hc.other x hx]
      exact h.absent x
  · by_cases hxX : x ∈ X
    · rw [if_pos hxX] at hx
      cases hx
    · rw [if_neg hxX] at hx
      rw [hc.words, hc.other x hxX]
      exact h.words x w hx

/-- **`freeMem`** over the pages from `p` to `p + n`. -/
theorem StoreInv.freeMem (hi : StoreInv lay s) (hpd : (s.kern.envs e).envPageDirectory ≠ 0)
    (hn : p + n ≤ 977920) (honce : EntriesOnce e p n 0 (s.kern.envs e).pageWSMaxSize s.kern)
    (h : Fos.freeMem e (p * 4096) (n * 4096) s.kern = .ok () k) :
    (∃ m, StoreInv lay ⟨k, s.pages, m⟩) ∧
      ClearsEntries e p n 0 (s.kern.envs e).pageWSMaxSize s.kern k ∧
      KeepsOutside s.pages (scannedLeaves (s.kern.pageDirectory e) (s.kern.envs e) p n 0
        (s.kern.envs e).pageWSMaxSize) s.kern k ∧
      ∀ q ∈ scannedPages (s.kern.envs e) p n 0 (s.kern.envs e).pageWSMaxSize,
        k.leaf (s.kern.pageDirectory e) q = 0 := by
  have hend : p * 4096 + 4096 * n ≤ userTop := by unfold userTop; omega
  have hdiv : n * 4096 / pageSize = n := Nat.mul_div_cancel _ (by decide)
  have hdir := hi.pages e hpd
  obtain ⟨G, dirs, hpages, hfile⟩ := hi.file
  -- the page file
  obtain ⟨s₁, h₁, hfile₁, hf₁, hc₁, ho₁⟩ := hfile.removePages (e := e) hend
  rw [hpages] at hf₁
  obtain ⟨m₁, hshows₁⟩ := hi.shows.clears hc₁
  have hi₁ : StoreInv lay ⟨s₁, s.pages, m₁⟩ := hi.fileOnly ⟨G, dirs, hpages, hfile₁⟩ hf₁ hshows₁
  have hd₁ := ho₁.pageDirectory e
  have hkeep₁ : KeepsOutside s.pages (scannedLeaves (s.kern.pageDirectory e) (s.kern.envs e) p n 0
      (s.kern.envs e).pageWSMaxSize) s.kern s₁ := hf₁.toStill.keeps.mono (Set.empty_subset _)
  have honce₁ : EntriesOnce e p n 0 (s₁.envs e).pageWSMaxSize s₁ := by
    intro i q hi0 him hq hpq hqn hpr
    rw [hd₁] at hpr ⊢
    rw [ho₁.envs] at hq him
    have hk := hf₁.toStill.keeps _ hdir q (by omega) (Set.notMem_empty _)
    rw [hk.leaf] at hpr ⊢
    rw [hk.references hpr]
    exact honce i q hi0 him hq hpq hqn hpr
  rw [Fos.freeMem, hdiv, Prog.bind_of_ok h₁, Prog.get_bind_apply] at h
  obtain ⟨_, s₂, h₂, h⟩ := bind_eq_ok.1 h
  -- the pages of the working set
  have hpd₁ : (s₁.envs e).envPageDirectory ≠ 0 := by
    rw [ho₁.envs]
    exact hpd
  obtain ⟨hi₂, hclear₂, hkeep₂, hleaf₂⟩ := hi₁.freeResident hpd₁ hn honce₁ h₂
  rw [ho₁.envs] at hclear₂ hkeep₂ hleaf₂
  rw [hd₁] at hkeep₂ hleaf₂
  have hd₂ : s₂.pageDirectory e = s.kern.pageDirectory e := by
    rw [← hd₁]
    unfold Kern.pageDirectory
    rw [hclear₂.env]
  -- the tables
  rw [Prog.get_bind_apply] at h
  obtain ⟨G₂, dirs₂, hpages₂, hfile₂⟩ := hi₂.file
  have hdir₂ : s₂.pageDirectory e ∈ dirs₂.page := by
    rw [hd₂, hpages₂]
    exact hdir
  obtain ⟨G', -, hok, hft⟩ := hfile₂.mem.freeEmptyTables hdir₂ hend h
  have hst : Still s.pages ∅ ∅ s₂ k := by
    have hstill := hft.toStill
    rw [hpages₂] at hstill
    exact hstill
  have hi₃ := (hi₂.memory hpages₂ hfile₂ hok hst.toKept hft.toSameRest (hst.count hi₂.count)).1
  refine ⟨⟨m₁, hi₃⟩, hclear₂.congr ho₁.envs hft.envs.symm, ?_, fun q hq => ?_⟩
  · exact (hkeep₁.trans hkeep₂).trans (hst.keeps.mono (Set.empty_subset _))
  · rw [hst.leaf _ hdir q (by obtain ⟨hr, -⟩ := hq; omega)]
    exact hleaf₂ q hq

end

/-! ## The invariant -/

/-- What holds of the working set of `e` in all runs: its entries in use hold mapped pages, each
once, with a frame of their own. The pages `fixed` are mapped by other means. -/
structure WorkingSetOk (e : Nat) (fixed : Set Nat) (s : Kern) : Prop where
  directory : (s.envs e).envPageDirectory ≠ 0
  index : (s.envs e).pageLastWSIndex < (s.envs e).pageWSMaxSize
  length : (s.envs e).pageWSMaxSize ≤ (s.envs e).ptrPageWorkingSet.length
  empty : ∀ i < (s.envs e).pageWSMaxSize, ∀ w, (s.envs e).ptrPageWorkingSet[i]? = some w →
    w.empty = true → w.virtualAddress = 0
  stays : ∀ q ∈ fixed, q < 977920 ∧ present (s.leaf (s.pageDirectory e) q)
  mapped : ∀ i q, (s.envs e).Holds i q → q < 977920 ∧ q ∉ fixed ∧
    present (s.leaf (s.pageDirectory e) q) ∧
    s.references (ppn (s.leaf (s.pageDirectory e) q)) = 1
  distinct : ∀ i j q, (s.envs e).Holds i q → (s.envs e).Holds j q → i = j

/-- No page that is mapped on demand is missing. -/
def NoneMissing (e : Nat) (fixed : Set Nat) (s : Kern) : Prop :=
  ∀ q < 977920, s.leaf (s.pageDirectory e) q ≠ 0 → q ∉ fixed → ∃ i, (s.envs e).Holds i q

/-- A new page of `e`, at the next entry of the working set. -/
structure EntersPage (pages : List DirPtr) (e va : Nat) (s t : Kern) : Prop where
  user : va < userTop
  env : ∃ d j, t.envs e =
    { (s.envs e).enterPage va with diskEnvPgdir := d, tableLastWSIndex := j }
  mapped : present (t.leaf (s.pageDirectory e) (ppn va))
  once : t.references (ppn (t.leaf (s.pageDirectory e) (ppn va))) = 1
  keeps : KeepsOutside pages {(s.pageDirectory e, ppn va)} s t

section

variable {lay : Layout} {s t : FileState} {k : Kern} {e n p q v va : Nat} {fixed : Set Nat}

theorem StoreInv.pageDirectory_mem (hi : StoreInv lay s) (hok : WorkingSetOk e fixed s.kern) :
    s.kern.pageDirectory e ∈ s.pages := hi.pages e hok.directory

theorem EntersPage.pageDirectory {pages : List DirPtr} {s t : Kern}
    (h : EntersPage pages e va s t) : t.pageDirectory e = s.pageDirectory e := by
  obtain ⟨d, j, henv⟩ := h.env
  unfold Kern.pageDirectory
  rw [henv]
  rfl

/-- The working set with the new page. -/
theorem EntersPage.ok {pages : List DirPtr} {s t : Kern} (h : EntersPage pages e va s t)
    (hdir : s.pageDirectory e ∈ pages) (hok : WorkingSetOk e fixed s)
    (hz : s.leaf (s.pageDirectory e) (ppn va) = 0) : WorkingSetOk e fixed t := by
  obtain ⟨d, j, henv⟩ := h.env
  have hd := h.pageDirectory
  -- the entry at the index is the page that faulted
  have hholds : ∀ i q, (t.envs e).Holds i q ↔
      (i = (s.envs e).pageLastWSIndex ∧ q = ppn va) ∨
        (i ≠ (s.envs e).pageLastWSIndex ∧ (s.envs e).Holds i q) := by
    intro i q
    rw [henv]
    exact Env.enterPage_holds hok.index hok.length
  -- the other pages that are mapped stay as they are
  have hother : ∀ q < 977920, present (s.leaf (s.pageDirectory e) q) →
      KeepsPage (s.pageDirectory e) q s t := by
    intro q hq hpr
    apply h.keeps _ hdir q hq
    intro hc
    have hqv : q = ppn va := congrArg Prod.snd hc
    rw [hqv, hz] at hpr
    exact not_present_zero hpr
  constructor
  · rw [henv]
    exact hok.directory
  · rw [henv]
    exact Nat.mod_lt _ (by have := hok.index; omega)
  · rw [henv]
    show (s.envs e).pageWSMaxSize ≤ ((s.envs e).ptrPageWorkingSet.set _ _).length
    rw [List.length_set]
    exact hok.length
  · rw [henv]
    show ∀ i < (s.envs e).pageWSMaxSize, ∀ w, ((s.envs e).ptrPageWorkingSet.set
      (s.envs e).pageLastWSIndex ⟨rounddown va pageSize, false⟩)[i]? = some w → _
    intro i him w hw hempty
    by_cases hil : i = (s.envs e).pageLastWSIndex
    · rw [hil, List.getElem?_set_self (Nat.lt_of_lt_of_le hok.index hok.length)] at hw
      obtain rfl := Option.some.inj hw
      cases hempty
    · rw [List.getElem?_set_ne (Ne.symm hil)] at hw
      exact hok.empty i him w hw hempty
  · intro q hq
    obtain ⟨hlt, hpr⟩ := hok.stays q hq
    rw [hd, (hother q hlt hpr).leaf]
    exact ⟨hlt, hpr⟩
  · intro i q hiq
    rw [hd]
    rcases (hholds i q).1 hiq with ⟨-, rfl⟩ | ⟨-, hold⟩
    · refine ⟨(pdx_user h.user).2, fun hf => ?_, h.mapped, h.once⟩
      have hpr := (hok.stays _ hf).2
      rw [hz] at hpr
      exact not_present_zero hpr
    · obtain ⟨hlt, hnf, hpr, hone⟩ := hok.mapped i q hold
      have hkeep := hother q hlt hpr
      rw [hkeep.leaf, hkeep.references hpr]
      exact ⟨hlt, hnf, hpr, hone⟩
  · intro i j q hiq hjq
    rcases (hholds i q).1 hiq with ⟨hil, hq⟩ | ⟨hil, hold⟩
    · rcases (hholds j q).1 hjq with ⟨hjl, -⟩ | ⟨-, hold'⟩
      · rw [hil, hjl]
      · have hpr := (hok.mapped j q hold').2.2.1
        rw [hq, hz] at hpr
        exact absurd hpr not_present_zero
    · rcases (hholds j q).1 hjq with ⟨-, hq⟩ | ⟨-, hold'⟩
      · have hpr := (hok.mapped i q hold).2.2.1
        rw [hq, hz] at hpr
        exact absurd hpr not_present_zero
      · exact hok.distinct i j q hold hold'

/-- A page that comes in at a free entry makes none missing. -/
theorem EntersPage.noneMissing {pages : List DirPtr} {s t : Kern} (h : EntersPage pages e va s t)
    (hdir : s.pageDirectory e ∈ pages) (hok : WorkingSetOk e fixed s)
    (hfree : (s.envs e).FreeEntry (s.envs e).pageLastWSIndex)
    (hm : NoneMissing e fixed s) : NoneMissing e fixed t := by
  obtain ⟨d, j, henv⟩ := h.env
  have hd := h.pageDirectory
  intro q hq hne hnf
  rw [hd] at hne
  rw [henv]
  by_cases hqv : q = ppn va
  · exact ⟨_, (Env.enterPage_holds hok.index hok.length).2 (.inl ⟨rfl, hqv⟩)⟩
  · have hkeep := h.keeps _ hdir q hq fun hc => hqv (congrArg Prod.snd hc)
    rw [hkeep.leaf] at hne
    obtain ⟨i, hold⟩ := hm q hq hne hnf
    refine ⟨i, (Env.enterPage_holds hok.index hok.length).2 (.inr ⟨?_, hold⟩)⟩
    rintro rfl
    exact hold.not_free hfree

theorem PagesIn.enters (h : PagesIn e va s t) : EntersPage s.pages e va s.kern t.kern := by
  obtain ⟨d, henv⟩ := h.env
  exact ⟨h.user, ⟨d, _, henv⟩, h.mapped, h.once, h.keeps⟩

/-- The faulting page. -/
theorem PagesIn.ok (h : PagesIn e va s t) (hi : StoreInv lay s) (hok : WorkingSetOk e fixed s.kern)
    (hz : s.kern.leaf (s.kern.pageDirectory e) (ppn va) = 0) : WorkingSetOk e fixed t.kern :=
  h.enters.ok (hi.pageDirectory_mem hok) hok hz

theorem PagesIn.noneMissing (h : PagesIn e va s t) (hi : StoreInv lay s)
    (hok : WorkingSetOk e fixed s.kern) (hfree : (s.kern.envs e).FreeEntry (s.kern.envs e).pageLastWSIndex)
    (hm : NoneMissing e fixed s.kern) : NoneMissing e fixed t.kern :=
  h.enters.noneMissing (hi.pageDirectory_mem hok) hok hfree hm

/-- The victim. -/
theorem PagesOut.ok (h : PagesOut e v s t) (hi : StoreInv lay s) (hok : WorkingSetOk e fixed s.kern)
    (hv : (s.kern.envs e).Holds (s.kern.envs e).pageLastWSIndex (ppn v)) :
    WorkingSetOk e fixed t.kern := by
  obtain ⟨d, henv⟩ := h.env
  have hdir := hi.pageDirectory_mem hok
  have hd : t.kern.pageDirectory e = s.kern.pageDirectory e := by
    unfold Kern.pageDirectory
    rw [henv]
    rfl
  -- the entry of the victim is cleared, and no other
  have hholds : ∀ i q, (t.kern.envs e).Holds i q ↔
      i ≠ (s.kern.envs e).pageLastWSIndex ∧ (s.kern.envs e).Holds i q := by
    intro i q
    rw [henv]
    show ((s.kern.envs e).clearEntry (s.kern.envs e).pageLastWSIndex).Holds i q ↔ _
    exact Env.clearEntry_holds
  have hother : ∀ q < 977920, q ≠ ppn v → KeepsPage (s.kern.pageDirectory e) q s.kern t.kern :=
    fun q hq hqv => h.keeps _ hdir q hq fun hc => hqv (congrArg Prod.snd hc)
  constructor
  · rw [henv]
    exact hok.directory
  · rw [henv]
    exact hok.index
  · rw [henv]
    show (s.kern.envs e).pageWSMaxSize ≤ ((s.kern.envs e).ptrPageWorkingSet.set _ _).length
    rw [List.length_set]
    exact hok.length
  · rw [henv]
    show ∀ i < (s.kern.envs e).pageWSMaxSize, ∀ w, ((s.kern.envs e).ptrPageWorkingSet.set
      (s.kern.envs e).pageLastWSIndex ⟨0, true⟩)[i]? = some w → _
    intro i him w hw hempty
    by_cases hil : i = (s.kern.envs e).pageLastWSIndex
    · rw [hil, List.getElem?_set_self (Nat.lt_of_lt_of_le hok.index hok.length)] at hw
      obtain rfl := Option.some.inj hw
      rfl
    · rw [List.getElem?_set_ne (Ne.symm hil)] at hw
      exact hok.empty i him w hw hempty
  · intro q hq
    obtain ⟨hlt, hpr⟩ := hok.stays q hq
    rw [hd, (hother q hlt ?_).leaf]
    · exact ⟨hlt, hpr⟩
    · rintro rfl
      exact (hok.mapped _ _ hv).2.1 hq
  · intro i q hiq
    obtain ⟨hil, hold⟩ := (hholds i q).1 hiq
    obtain ⟨hlt, hnf, hpr, hone⟩ := hok.mapped i q hold
    -- no two entries hold the same page
    have hqv : q ≠ ppn v := by
      rintro rfl
      exact hil (hok.distinct _ _ _ hold hv)
    have hkeep := hother q hlt hqv
    rw [hd, hkeep.leaf, hkeep.references hpr]
    exact ⟨hlt, hnf, hpr, hone⟩
  · intro i j q hiq hjq
    exact hok.distinct i j q ((hholds i q).1 hiq).2 ((hholds j q).1 hjq).2

theorem PagesOut.noneMissing (h : PagesOut e v s t) (hi : StoreInv lay s)
    (hok : WorkingSetOk e fixed s.kern)
    (hv : (s.kern.envs e).Holds (s.kern.envs e).pageLastWSIndex (ppn v))
    (hm : NoneMissing e fixed s.kern) : NoneMissing e fixed t.kern := by
  obtain ⟨d, henv⟩ := h.env
  have hd : t.kern.pageDirectory e = s.kern.pageDirectory e := by
    unfold Kern.pageDirectory
    rw [henv]
    rfl
  intro q hq hne hnf
  rw [hd] at hne
  rw [henv]
  have hqv : q ≠ ppn v := by
    rintro rfl
    exact hne h.unmapped
  have hkeep := h.keeps _ (hi.pageDirectory_mem hok) q hq fun hc => hqv (congrArg Prod.snd hc)
  rw [hkeep.leaf] at hne
  obtain ⟨i, hold⟩ := hm q hq hne hnf
  have hil : i ≠ (s.kern.envs e).pageLastWSIndex := by
    rintro rfl
    exact hqv (hold.unique hv)
  have hcleared : ((s.kern.envs e).clearEntry (s.kern.envs e).pageLastWSIndex).Holds i q :=
    Env.clearEntry_holds.2 ⟨hil, hold⟩
  exact ⟨i, hcleared⟩

/-- In a full working set the entry at `page_last_WS_index` holds the victim. -/
theorem WorkingSetOk.victim {s : Kern} (hok : WorkingSetOk e fixed s)
    (hfull : ¬ (s.envs e).pageWsGetSize < (s.envs e).pageWSMaxSize) :
    ∃ v, VictimAt e v s ∧ (s.envs e).Holds (s.envs e).pageLastWSIndex (ppn v) := by
  rw [Env.room_iff hok.length] at hfull
  rcases Env.free_or_holds hok.index hok.length with hfree | ⟨q, hlast⟩
  · exact absurd ⟨_, hfree⟩ hfull
  · obtain ⟨hlt, -, hpr, hone⟩ := hok.mapped _ q hlast
    have hholds := hlast
    obtain ⟨-, w, hw, -, rfl⟩ := hlast
    have huser : w.virtualAddress < userTop := by
      unfold ppn at hlt
      unfold userTop
      omega
    exact ⟨w.virtualAddress, ⟨⟨w, hw, rfl⟩, huser, hpr, hone⟩, hholds⟩

/-- The handler from a state with the invariant: in a full working set the victim goes out, and the
faulting page comes in. -/
theorem WorkingSetOk.handler (hok : WorkingSetOk e fixed s.kern) (hi : StoreInv lay s)
    (hz : s.kern.leaf (s.kern.pageDirectory e) (ppn va) = 0)
    (h : Fos.pageFaultHandler e va s.kern = .ok () k) :
    ∃ u m, StoreInv lay u ∧ StoreInv lay ⟨k, s.pages, m⟩ ∧ WorkingSetOk e fixed u.kern ∧
      u.kern.leaf (u.kern.pageDirectory e) (ppn va) = 0 ∧
      (((s.kern.envs e).pageWsGetSize < (s.kern.envs e).pageWSMaxSize ∧ u = s) ∨
        (¬ (s.kern.envs e).pageWsGetSize < (s.kern.envs e).pageWSMaxSize ∧
          ∃ v, (s.kern.envs e).Holds (s.kern.envs e).pageLastWSIndex (ppn v) ∧ PagesOut e v s u)) ∧
      PagesIn e va u ⟨k, s.pages, m⟩ := by
  by_cases hroom : (s.kern.envs e).pageWsGetSize < (s.kern.envs e).pageWSMaxSize
  · obtain ⟨u, m, hiu, him, hu, hin⟩ := hi.pageFaultHandler (v := 0) hok.directory hz
      (fun hfull => absurd hroom hfull) h
    obtain ⟨-, rfl⟩ := hu.resolve_right fun hc => hc.1 hroom
    exact ⟨u, m, hiu, him, hok, hz, .inl ⟨hroom, rfl⟩, hin⟩
  · obtain ⟨v, hv, hlast⟩ := hok.victim hroom
    obtain ⟨u, m, hiu, him, hu, hin⟩ := hi.pageFaultHandler hok.directory hz (fun _ => hv) h
    obtain ⟨-, hout⟩ := hu.resolve_left fun hc => hroom hc.1
    obtain ⟨d, henvu⟩ := hout.env
    have hdu : u.kern.pageDirectory e = s.kern.pageDirectory e := by
      unfold Kern.pageDirectory
      rw [henvu]
      rfl
    have hne : ppn va ≠ ppn v := by
      intro he
      rw [he] at hz
      exact present_ne_zero hv.mapped hz
    refine ⟨u, m, hiu, him, hout.ok hi hok hlast, ?_, .inr ⟨hroom, v, hlast, hout⟩, hin⟩
    rw [hdu, (hout.keeps _ (hi.pageDirectory_mem hok) _ (pdx_user hin.user).2
      fun hc => hne (congrArg Prod.snd hc)).leaf]
    exact hz

/-- **A page fault** keeps the invariant. With the free entries in a row no page gets missing, the
row stays, and a page that is placed goes into a free entry. -/
theorem WorkingSetOk.fault (hok : WorkingSetOk e fixed s.kern) (hi : StoreInv lay s)
    (hz : s.kern.leaf (s.kern.pageDirectory e) (ppn va) = 0)
    (h : Fos.pageFaultHandler e va s.kern = .ok () k) :
    (∃ m, StoreInv lay ⟨k, s.pages, m⟩) ∧ WorkingSetOk e fixed k ∧
      ((s.kern.envs e).FreeRow → NoneMissing e fixed s.kern →
        (NoneMissing e fixed k ∧ (k.envs e).FreeRow) ∧
        ((s.kern.envs e).pageWsGetSize < (s.kern.envs e).pageWSMaxSize →
          ∃ i, (s.kern.envs e).FreeEntry i ∧ (k.envs e).Holds i (ppn va))) := by
  obtain ⟨u, m, hiu, him, hoku, hzu, hu, hin⟩ := hok.handler hi hz h
  refine ⟨⟨m, him⟩, hin.ok hiu hoku hzu, fun hrow hm => ?_⟩
  obtain ⟨d, henv⟩ := hin.env
  have henv : k.envs e = { (u.kern.envs e).enterPage va with diskEnvPgdir := d } := henv
  rcases hu with ⟨hroom, rfl⟩ | ⟨hfull, v, hlast, hout⟩
  · obtain ⟨hfree, hrow'⟩ := hrow.place hok.index hok.length ((Env.room_iff hok.length).1 hroom) va
    refine ⟨⟨hin.noneMissing hi hok hfree hm, ?_⟩, fun _ => ⟨_, hfree, ?_⟩⟩
    · rw [henv]
      exact hrow'
    · rw [henv]
      exact (Env.enterPage_holds hok.index hok.length).2 (.inl ⟨rfl, rfl⟩)
  · obtain ⟨d', henvu⟩ := hout.env
    refine ⟨⟨?_, ?_⟩, fun hc => absurd hc hfull⟩
    · -- the entry of the victim is free when the page comes in
      have hfree : (u.kern.envs e).FreeEntry (u.kern.envs e).pageLastWSIndex := by
        rw [henvu]
        exact (Env.clearEntry_free hok.index hok.length).2 (.inl rfl)
      exact hin.noneMissing hiu hoku hfree (hout.noneMissing hi hok hlast hm)
    · -- and in use again afterwards
      apply Env.FreeRow.full
      rintro ⟨i, hi'⟩
      rw [henv] at hi'
      obtain ⟨hil, hfree⟩ := (Env.enterPage_free hoku.index hoku.length).1 hi'
      rw [henvu] at hil hfree
      rcases (Env.clearEntry_free hok.index hok.length).1 hfree with heq | hold
      · exact hil heq
      · exact hfull ((Env.room_iff hok.length).2 ⟨i, hold⟩)

/-- **`freeMem`** keeps the invariant, and makes no page missing. -/
theorem WorkingSetOk.free (hok : WorkingSetOk e fixed s.kern) (hi : StoreInv lay s) (hp : 0 < p)
    (hn : p + n ≤ 977920) (h : Fos.freeMem e (p * 4096) (n * 4096) s.kern = .ok () k) :
    (∃ m, StoreInv lay ⟨k, s.pages, m⟩) ∧ WorkingSetOk e fixed k ∧
      (NoneMissing e fixed s.kern → NoneMissing e fixed k) ∧
      ((s.kern.envs e).LeavesRow p n → (k.envs e).FreeRow) := by
  have hdir := hi.pageDirectory_mem hok
  -- the scan comes upon entries in use only
  have hscan : ∀ i < (s.kern.envs e).pageWSMaxSize, ∀ q, (s.kern.envs e).wsPage i = some q → p ≤ q →
      (s.kern.envs e).Holds i q := by
    intro i him q hq hpq
    obtain ⟨w, hw, rfl⟩ := Option.map_eq_some_iff.1 hq
    refine ⟨him, w, hw, ?_, rfl⟩
    cases hempty : w.empty with
    | false => rfl
    | true =>
      rw [hok.empty i him w hw hempty] at hpq
      have h0 : ppn 0 = 0 := rfl
      omega
  have honce : EntriesOnce e p n 0 (s.kern.envs e).pageWSMaxSize s.kern :=
    fun i q _ him hq hpq _ _ => (hok.mapped i q (hscan i (by omega) q hq hpq)).2.2.2
  obtain ⟨hik, hclear, hkeep, hleaf⟩ := hi.freeMem hok.directory hn honce h
  have hd : k.pageDirectory e = s.kern.pageDirectory e := by
    unfold Kern.pageDirectory
    rw [hclear.env]
  have hout : ∀ q < 977920, ¬ (p ≤ q ∧ q < p + n) →
      KeepsPage (s.kern.pageDirectory e) q s.kern k := by
    intro q hq hnot
    exact hkeep _ hdir q hq fun hc => hnot hc.2.1
  refine ⟨hik, ?_, fun hm q hq hne hnf => ?_, hclear.freeRow_iff.2⟩
  · constructor
    · rw [hclear.env]
      exact hok.directory
    · rw [hclear.max, hclear.lastIndex]
      exact Nat.lt_of_le_of_lt Env.loweredIndex_le hok.index
    · rw [hclear.max, hclear.length]
      exact hok.length
    · rw [hclear.max]
      intro i him w hw hempty
      by_cases hr : (s.kern.envs e).releases p n i = true
      · rw [hclear.freed him hr] at hw
        obtain rfl := Option.some.inj hw
        rfl
      · rw [hclear.kept hr] at hw
        exact hok.empty i him w hw hempty
    · intro q hq
      obtain ⟨hlt, hpr⟩ := hok.stays q hq
      rw [hd, (hkeep _ hdir q hlt ?_).leaf]
      · exact ⟨hlt, hpr⟩
      · -- a page of the scan is mapped on demand
        rintro ⟨-, hr, i, -, him, hiq⟩
        exact (hok.mapped i q (hscan i (by omega) q hiq hr.1)).2.1 hq
    · intro i q hiq
      obtain ⟨hold, hnot⟩ := hclear.holds_iff.1 hiq
      obtain ⟨hlt, hnf, hpr, hone⟩ := hok.mapped i q hold
      have hk := hout q hlt hnot
      rw [hd, hk.leaf, hk.references hpr]
      exact ⟨hlt, hnf, hpr, hone⟩
    · intro i j q hiq hjq
      exact hok.distinct i j q (hclear.holds_iff.1 hiq).1 (hclear.holds_iff.1 hjq).1
  · rw [hd] at hne
    have hnotScanned : q ∉ scannedPages (s.kern.envs e) p n 0 (s.kern.envs e).pageWSMaxSize :=
      fun hc => hne (hleaf q hc)
    rw [(hkeep _ hdir q hq fun hc => hnotScanned hc.2).leaf] at hne
    obtain ⟨i, hold⟩ := hm q hq hne hnf
    refine ⟨i,
      hclear.holds_iff.2 ⟨hold, fun hin => hnotScanned ⟨hin, i, Nat.zero_le i, ?_, hold.wsPage⟩⟩⟩
    have := hold.1
    omega

end

end Fos
