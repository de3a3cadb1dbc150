import Fos.Lib.Fifo
import Fos.WorkingSet.DemandPaging
import Fos.WorkingSet.Runs

/-!
# Replacement is first in, first out

The working set is a circular array. Read from `page_last_WS_index` on, its pages are the queue of
textbook FIFO replacement: on any sequence of references the same pages fault, the same pages go out
for them, and the same pages are resident.
-/

namespace Fos

open Function (update)
open Prog (bind_eq_ok ok_inj)
open Relation (ReflTransGen)

/-! ## Writes -/

/-- The user program wrote `v` at `va`: the page has the modified bit, and its frame the byte. -/
structure WritesByte (e va v : Nat) (s t : Kern) : Prop where
  mapped : present (s.leaf (s.pageDirectory e) (ppn va))
  leaf : t.leaf (s.pageDirectory e) (ppn va) = setPerm (s.leaf (s.pageDirectory e) (ppn va)) permModified
  content : t.ram (ppn (s.leaf (s.pageDirectory e) (ppn va))) =
    withPageByte (s.ram (ppn (s.leaf (s.pageDirectory e) (ppn va)))) va v
  envs : t.envs = s.envs
  frames : t.frames = s.frames
  disk : t.disk = s.disk

section

variable {lay : Layout} {s : FileState} {k : Kern} {e v va : Nat} {fixed : Set Nat}

theorem StoreInv.writeUserByte (hi : StoreInv lay s) (hdir : s.kern.pageDirectory e ∈ s.pages)
    (hva : va < userTop)
    (hone : present (s.kern.leaf (s.kern.pageDirectory e) (ppn va)) →
      s.kern.references (ppn (s.kern.leaf (s.kern.pageDirectory e) (ppn va))) = 1)
    (hk : Fos.writeUserByte e va v s.kern = .ok () k) :
    StoreInv lay ⟨k, s.pages, s.store⟩ ∧ WritesByte e va v s.kern k ∧
      KeepsOutside s.pages {(s.kern.pageDirectory e, ppn va)} s.kern k := by
  have hlt := (pdx_user hva).2
  obtain ⟨G, dirs, hpages, hfile⟩ := hi.file
  have hdir' : s.kern.pageDirectory e ∈ dirs.page := by
    rw [hpages]
    exact hdir
  obtain ⟨hpr, -, hk⟩ := hfile.mem.writeUserByte hdir' hva hk
  obtain ⟨t, hrun, -, ht⟩ := hfile.mem.writeUserPage hdir' hva hpr _
  rw [hk] at hrun
  obtain ⟨-, rfl⟩ := ok_inj.1 hrun
  have hkeep := ht.keeps hfile.mem hdir' hlt hpr (hone hpr)
  rw [hpages] at hkeep
  refine ⟨(hi.write hdir hva hpr hk).1, ⟨hpr, ?_, ht.content, ht.envs, ht.frames, ht.disk⟩, hkeep⟩
  rw [ht.leaf _ hdir' _ hlt, if_pos ⟨rfl, rfl⟩]

/-- A write keeps the working set. -/
theorem WorkingSetOk.write (hok : WorkingSetOk e fixed s.kern)
    (hdir : s.kern.pageDirectory e ∈ s.pages) (hw : WritesByte e va v s.kern k)
    (hkeep : KeepsOutside s.pages {(s.kern.pageDirectory e, ppn va)} s.kern k) :
    WorkingSetOk e fixed k ∧ ∀ q < 977920, k.leaf (s.kern.pageDirectory e) q ≠ 0 →
      s.kern.leaf (s.kern.pageDirectory e) q ≠ 0 := by
  have henv : k.envs e = s.kern.envs e := by rw [hw.envs]
  constructor
  · apply hok.congr henv
    intro q hq hpr
    by_cases hqv : q = ppn va
    · subst hqv
      rw [hw.leaf, ppn_setPerm _ (by decide), present_setPerm]
      refine ⟨hpr, rfl, ?_⟩
      unfold Kern.references
      rw [hw.frames]
    · have hk := hkeep _ hdir q hq fun hc => hqv (congrArg Prod.snd hc)
      rw [hk.leaf]
      exact ⟨hpr, rfl, hk.references hpr⟩
  · intro q hq hne
    by_cases hqv : q = ppn va
    · subst hqv
      exact present_ne_zero hw.mapped
    · have hk := hkeep _ hdir q hq fun hc => hqv (congrArg Prod.snd hc)
      rw [hk.leaf] at hne
      exact hne

end

/-! ## The queue -/

/-- The page of entry `i`, when the entry is in use. -/
def Env.slot (env : Env) (i : Nat) : Option Nat :=
  match env.ptrPageWorkingSet[i]? with
  | some w => if w.empty then none else some (ppn w.virtualAddress)
  | none => none

/-- The pages of the working set, the next victim first. -/
def Env.queue (env : Env) : List Nat := Fifo.ring env.pageWSMaxSize env.slot env.pageLastWSIndex

section

variable {env : Env} {i j q va : Nat}

theorem Env.slot_eq_some (hi : i < env.pageWSMaxSize) : env.slot i = some q ↔ env.Holds i q := by
  unfold Env.slot Env.Holds
  cases env.ptrPageWorkingSet[i]? with
  | none => simp
  | some w => cases hempty : w.empty <;> simp [hi, hempty]

theorem Env.slot_eq_none (hi : i < env.pageWSMaxSize)
    (hlen : env.pageWSMaxSize ≤ env.ptrPageWorkingSet.length) :
    env.slot i = none ↔ env.FreeEntry i := by
  have hw := List.getElem?_eq_getElem (l := env.ptrPageWorkingSet) (Nat.lt_of_lt_of_le hi hlen)
  unfold Env.slot Env.FreeEntry
  rw [hw]
  cases hempty : (env.ptrPageWorkingSet[i]).empty <;> simp [hi, hempty]

theorem Env.slot_set {w : WorkingSetElement} (hj : j < env.ptrPageWorkingSet.length) :
    ({ env with ptrPageWorkingSet := env.ptrPageWorkingSet.set j w } : Env).slot =
      update env.slot j (if w.empty then none else some (ppn w.virtualAddress)) := by
  funext i
  unfold Env.slot
  by_cases hi : i = j
  · subst hi
    rw [Function.update_self]
    dsimp only
    rw [List.getElem?_set_self hj]
  · rw [Function.update_of_ne hi]
    dsimp only
    rw [List.getElem?_set_ne (Ne.symm hi)]

/-- Entering a page: it comes last in the queue, and what was first is gone. -/
theorem Env.queue_enterPage (hindex : env.pageLastWSIndex < env.pageWSMaxSize)
    (hlen : env.pageWSMaxSize ≤ env.ptrPageWorkingSet.length) :
    (env.enterPage va).queue = Fifo.ring env.pageWSMaxSize
      (update env.slot env.pageLastWSIndex (some (ppn va)))
      ((env.pageLastWSIndex + 1) % env.pageWSMaxSize) := by
  have hslot := env.slot_set (w := ⟨rounddown va pageSize, false⟩) (Nat.lt_of_lt_of_le hindex hlen)
  rw [ppn_rounddown] at hslot
  exact congrArg (fun f => Fifo.ring env.pageWSMaxSize f ((env.pageLastWSIndex + 1) % env.pageWSMaxSize))
    hslot

theorem Env.mem_queue (hindex : env.pageLastWSIndex < env.pageWSMaxSize) :
    q ∈ env.queue ↔ ∃ i, env.Holds i q := by
  unfold Env.queue
  rw [Fifo.mem_ring hindex]
  constructor
  · rintro ⟨i, hi, hq⟩
    exact ⟨i, (Env.slot_eq_some hi).1 hq⟩
  · rintro ⟨i, hq⟩
    exact ⟨i, hq.1, (Env.slot_eq_some hq.1).2 hq⟩

/-- A page placed in the free entry at `page_last_WS_index`. -/
theorem Env.queue_place (hindex : env.pageLastWSIndex < env.pageWSMaxSize)
    (hlen : env.pageWSMaxSize ≤ env.ptrPageWorkingSet.length) (hfree : env.FreeEntry env.pageLastWSIndex) :
    Fifo.enter env.pageWSMaxSize env.queue (ppn va) = (none, (env.enterPage va).queue) := by
  have hnone := (Env.slot_eq_none hindex hlen).2 hfree
  rw [Env.queue_enterPage hindex hlen, Env.queue, Fifo.enter_ring hindex (.inl hnone), hnone]

/-- A page that replaces the victim in a full working set. -/
theorem Env.queue_replace (hindex : env.pageLastWSIndex < env.pageWSMaxSize)
    (hlen : env.pageWSMaxSize ≤ env.ptrPageWorkingSet.length) (hfull : ¬ ∃ i, env.FreeEntry i)
    (hlast : env.Holds env.pageLastWSIndex q) :
    Fifo.enter env.pageWSMaxSize env.queue (ppn va) =
      (some q, ((env.clearEntry env.pageLastWSIndex).enterPage va).queue) := by
  have hused : ∀ j < env.pageWSMaxSize, env.slot j ≠ none := by
    intro j hj hnone
    exact hfull ⟨j, (Env.slot_eq_none hj hlen).1 hnone⟩
  have hlen' : (env.clearEntry env.pageLastWSIndex).pageWSMaxSize ≤
      (env.clearEntry env.pageLastWSIndex).ptrPageWorkingSet.length := by
    show env.pageWSMaxSize ≤ (env.ptrPageWorkingSet.set env.pageLastWSIndex ⟨0, true⟩).length
    rw [List.length_set]
    exact hlen
  have hslot : (env.clearEntry env.pageLastWSIndex).slot = update env.slot env.pageLastWSIndex none :=
    env.slot_set (w := ⟨0, true⟩) (Nat.lt_of_lt_of_le hindex hlen)
  have henter : ((env.clearEntry env.pageLastWSIndex).enterPage va).queue = _ :=
    (env.clearEntry env.pageLastWSIndex).queue_enterPage hindex hlen'
  rw [hslot] at henter
  have henter : ((env.clearEntry env.pageLastWSIndex).enterPage va).queue = Fifo.ring env.pageWSMaxSize
      (update (update env.slot env.pageLastWSIndex none) env.pageLastWSIndex (some (ppn va)))
      ((env.pageLastWSIndex + 1) % env.pageWSMaxSize) := henter
  rw [Function.update_idem] at henter
  rw [henter, Env.queue, Fifo.enter_ring hindex (.inr hused), (Env.slot_eq_some hindex).2 hlast]

end

/-! ## References -/

/-- The pages mapped on demand. -/
def residentPages (e : Nat) (fixed : Set Nat) (s : Kern) : Set Nat :=
  {q | q < 977920 ∧ s.leaf (s.pageDirectory e) q ≠ 0 ∧ q ∉ fixed}

/-- Between `s` and `t` the page `o` goes out of memory, or none. -/
def GoesOut (e : Nat) (o : Option Nat) (s t : Kern) : Prop :=
  ∀ q, (q < 977920 ∧ s.leaf (s.pageDirectory e) q ≠ 0 ∧ t.leaf (t.pageDirectory e) q = 0) ↔ o = some q

/-- The program refers to pages mapped on demand. A page that is mapped is read or written; another
one faults, first for its page table where there is none. The run keeps the pages referred to, and
the faults with the pages that went out. -/
inductive ReferenceRun (e : Nat) (fixed : Set Nat) (s : Kern) :
    List Nat → List (Nat × Option Nat) → Kern → Prop
  | start : ReferenceRun e fixed s [] [] s
  | hit {l : List Nat} {fs : List (Nat × Option Nat)} {va : Nat} {t u : Kern}
      (h : ReferenceRun e fixed s l fs t) (hva : va < userTop) (hf : ppn va ∉ fixed)
      (hm : t.leaf (t.pageDirectory e) (ppn va) ≠ 0)
      (hk : u = t ∨ ∃ v, writeUserByte e va v t = .ok () u) :
      ReferenceRun e fixed s (l ++ [ppn va]) fs u
  | table {l : List Nat} {fs : List (Nat × Option Nat)} {va : Nat} {t u : Kern}
      (h : ReferenceRun e fixed s l fs t) (hnp : ¬ present (t.pde (t.pageDirectory e) (pdx va)))
      (hk : faultHandler e va t = .ok () u) : ReferenceRun e fixed s l fs u
  | miss {l : List Nat} {fs : List (Nat × Option Nat)} {va : Nat} {o : Option Nat} {t u : Kern}
      (h : ReferenceRun e fixed s l fs t) (hf : ppn va ∉ fixed)
      (hpde : present (t.pde (t.pageDirectory e) (pdx va)))
      (hz : t.leaf (t.pageDirectory e) (ppn va) = 0) (hk : faultHandler e va t = .ok () u)
      (ho : GoesOut e o t u) :
      ReferenceRun e fixed s (l ++ [ppn va]) (fs ++ [(ppn va, o)]) u

section

variable {lay : Layout} {pages : List DirPtr} {s t : FileState} {k : Kern} {e va : Nat}
  {fixed : Set Nat} {o : Option Nat}

/-- The queue is the resident set. -/
theorem WorkingSetStart.mem_queue {a : Kern} {q : Nat} (h : WorkingSetStart e fixed a) :
    q ∈ (a.envs e).queue ↔ q ∈ residentPages e fixed a := by
  rw [Env.mem_queue h.index]
  exact (h.toWorkingSetOk.exact h.noneMissing).exact q

/-- Where the record of the environment and the pages that are mapped stay. -/
theorem WorkingSetStart.congr {a b : Kern} (h : WorkingSetStart e fixed a)
    (hok : WorkingSetOk e fixed b) (henv : b.envs e = a.envs e)
    (hleaf : ∀ q < 977920, b.leaf (a.pageDirectory e) q ≠ 0 → a.leaf (a.pageDirectory e) q ≠ 0) :
    WorkingSetStart e fixed b := by
  have hd : b.pageDirectory e = a.pageDirectory e := by
    unfold Kern.pageDirectory
    rw [henv]
  refine ⟨hok, fun q hq hne hnf => ?_, ?_⟩
  · rw [hd] at hne
    rw [henv]
    exact h.noneMissing q hq (hleaf q hq hne) hnf
  · rw [henv]
    exact h.row

/-- A reference to a mapped page. -/
theorem WorkingSetStart.hit (h : WorkingSetStart e fixed s.kern) (hi : StoreInv lay s)
    (hva : va < userTop) (hf : ppn va ∉ fixed)
    (hm : s.kern.leaf (s.kern.pageDirectory e) (ppn va) ≠ 0)
    (hk : k = s.kern ∨ ∃ v, writeUserByte e va v s.kern = .ok () k) :
    StoreInv lay ⟨k, s.pages, s.store⟩ ∧ WorkingSetStart e fixed k ∧ k.envs e = s.kern.envs e := by
  rcases hk with rfl | ⟨v, hk⟩
  · exact ⟨hi, h, rfl⟩
  · have hdir := hi.pageDirectory_mem h.toWorkingSetOk
    -- the page is in the working set, so its frame has one reference
    obtain ⟨i, hold⟩ := h.noneMissing _ (pdx_user hva).2 hm hf
    have hone := (h.mapped i _ hold).2.2.2
    obtain ⟨hik, hw, hkeep⟩ := hi.writeUserByte hdir hva (fun _ => hone) hk
    obtain ⟨hok, hleaf⟩ := h.toWorkingSetOk.write hdir hw hkeep
    have henv : k.envs e = s.kern.envs e := by rw [hw.envs]
    exact ⟨hik, h.congr hok henv hleaf, henv⟩

/-- `fault_handler` where the page table is missing. -/
theorem faultHandler_table {a b : Kern} (hreach : a.ReachDir (a.pageDirectory e))
    (hnp : ¬ present (a.pde (a.pageDirectory e) (pdx va))) (hk : faultHandler e va a = .ok () b) :
    va < userTop ∧ ∃ tbl, Fos.createPageTable (a.pageDirectory e) va a = .ok tbl b := by
  unfold faultHandler at hk
  rw [Prog.ite_run] at hk
  split at hk
  case isTrue => cases hk
  case isFalse htop =>
    rw [Prog.get_bind_apply, Prog.bind_of_ok (readPde_reach hreach (pdx_lt va)), Prog.ite_run,
      if_pos hnp, tableFaultHandler, Prog.get_bind_apply] at hk
    obtain ⟨tbl, b', hcreate, hret⟩ := bind_eq_ok.1 hk
    obtain ⟨-, rfl⟩ := ok_inj.1 hret
    unfold ustackTop at htop
    unfold userTop
    exact ⟨by omega, tbl, hcreate⟩

/-- `fault_handler` where it is there. -/
theorem faultHandler_page {a b : Kern} (hreach : a.ReachDir (a.pageDirectory e))
    (hpde : present (a.pde (a.pageDirectory e) (pdx va))) (hk : faultHandler e va a = .ok () b) :
    pageFaultHandler e va a = .ok () b := by
  unfold faultHandler at hk
  rw [Prog.ite_run] at hk
  split at hk
  case isTrue => cases hk
  case isFalse =>
    rw [Prog.get_bind_apply, Prog.bind_of_ok (readPde_reach hreach (pdx_lt va)), Prog.ite_run,
      if_neg fun hc => hc hpde] at hk
    exact hk

theorem StoreInv.reachDir {dir : DirPtr} (hi : StoreInv lay s) (hdir : dir ∈ s.pages) :
    s.kern.ReachDir dir := by
  obtain ⟨G, dirs, hpages, hfile⟩ := hi.file
  rw [← hpages] at hdir
  exact hfile.mem.directories.reachDir (.inl hdir)

/-- A new page table. -/
theorem WorkingSetStart.table (h : WorkingSetStart e fixed s.kern) (hi : StoreInv lay s)
    (hnp : ¬ present (s.kern.pde (s.kern.pageDirectory e) (pdx va)))
    (hk : faultHandler e va s.kern = .ok () k) :
    StoreInv lay ⟨k, s.pages, s.store⟩ ∧ WorkingSetStart e fixed k ∧ k.envs e = s.kern.envs e := by
  have hdir := hi.pageDirectory_mem h.toWorkingSetOk
  obtain ⟨hva, tbl, hcreate⟩ := faultHandler_table (hi.reachDir hdir) hnp hk
  obtain ⟨hik, hkeep, henvs⟩ := hi.createPageTable hdir hva hnp hcreate
  have henv : k.envs e = s.kern.envs e := by rw [henvs]
  refine ⟨hik, h.congr (h.toWorkingSetOk.kept henv hdir hkeep) henv fun q hq hne => ?_, henv⟩
  rw [(hkeep _ hdir q hq (Set.notMem_empty _)).leaf] at hne
  exact hne

theorem GoesOut.unique {a b : Kern} {o' : Option Nat} (h : GoesOut e o a b)
    (h' : GoesOut e o' a b) : o = o' := Option.ext fun q => (h q).symm.trans (h' q)

/-- The page that comes in is the only one that changes. -/
theorem PagesIn.leaf_iff (h : PagesIn e va s t) (hdir : s.kern.pageDirectory e ∈ s.pages) {q : Nat}
    (hq : q < 977920) :
    t.kern.leaf (t.kern.pageDirectory e) q = 0 ↔
      s.kern.leaf (s.kern.pageDirectory e) q = 0 ∧ q ≠ ppn va := by
  rw [h.pageDirectory]
  by_cases hqv : q = ppn va
  · subst hqv
    exact iff_of_false (present_ne_zero h.mapped) fun hc => hc.2 rfl
  · rw [(h.keeps _ hdir q hq fun hc => hqv (congrArg Prod.snd hc)).leaf]
    simp [hqv]

/-- The victim is the only page that goes out. -/
theorem PagesOut.leaf_iff {v : Nat} (h : PagesOut e v s t) (hdir : s.kern.pageDirectory e ∈ s.pages)
    {q : Nat} (hq : q < 977920) : t.kern.leaf (t.kern.pageDirectory e) q = 0 ↔
      s.kern.leaf (s.kern.pageDirectory e) q = 0 ∨ q = ppn v := by
  rw [h.pageDirectory]
  by_cases hqv : q = ppn v
  · subst hqv
    simp [h.unmapped]
  · rw [(h.keeps _ hdir q hq fun hc => hqv (congrArg Prod.snd hc)).leaf]
    simp [hqv]

/-- **A page fault** is one step of the queue. -/
theorem WorkingSetStart.miss (h : WorkingSetStart e fixed s.kern) (hi : StoreInv lay s)
    (hz : s.kern.leaf (s.kern.pageDirectory e) (ppn va) = 0)
    (hk : Fos.pageFaultHandler e va s.kern = .ok () k) :
    (∃ m, StoreInv lay ⟨k, s.pages, m⟩) ∧ WorkingSetStart e fixed k ∧
      (k.envs e).pageWSMaxSize = (s.kern.envs e).pageWSMaxSize ∧
      ∃ o, Fifo.enter (s.kern.envs e).pageWSMaxSize (s.kern.envs e).queue (ppn va) =
        (o, (k.envs e).queue) ∧ GoesOut e o s.kern k := by
  have hdir := hi.pageDirectory_mem h.toWorkingSetOk
  obtain ⟨him, hok, hplace⟩ := h.toWorkingSetOk.fault hi hz hk
  obtain ⟨⟨hnone, hrow⟩, -⟩ := hplace h.row h.noneMissing
  refine ⟨him, ⟨hok, hnone, hrow⟩, ?_⟩
  obtain ⟨u, m, hiu, -, hoku, hzu, hu, hin⟩ := h.toWorkingSetOk.handler hi hz hk
  have hdiru := hiu.pageDirectory_mem hoku
  obtain ⟨d, henv⟩ := hin.env
  have henv : k.envs e = { (u.kern.envs e).enterPage va with diskEnvPgdir := d } := henv
  rcases hu with ⟨hroom, rfl⟩ | ⟨hfull, v, hlast, hout⟩
  · refine ⟨by rw [henv]; rfl, none, ?_, fun q => ?_⟩
    · -- the free entries are in a row from the index on, so the page is queued last
      have hfree := (h.row.place h.index h.length ((Env.room_iff h.length).1 hroom) va).1
      rw [henv]
      exact Env.queue_place h.index h.length hfree
    · -- nothing goes out
      refine iff_of_false ?_ (by simp)
      rintro ⟨hq, hne, hzero⟩
      exact hne ((hin.leaf_iff hdir hq).1 hzero).1
  · obtain ⟨d', henvu⟩ := hout.env
    have hpr := (h.mapped _ _ hlast).2.2.1
    have hlt := (h.mapped _ _ hlast).1
    refine ⟨by rw [henv, henvu]; rfl, some (ppn v), ?_, fun q => ?_⟩
    · -- the entry at the index holds the page that was queued first
      have hnofree : ¬ ∃ i, (s.kern.envs e).FreeEntry i := by
        intro hfree
        exact hfull ((Env.room_iff h.length).2 hfree)
      rw [henv, henvu]
      exact Env.queue_replace h.index h.length hnofree hlast
    · have hne : ppn v ≠ ppn va := by
        intro hc
        rw [hc, hz] at hpr
        exact not_present_zero hpr
      constructor
      · rintro ⟨hq, hmapped, hzero⟩
        obtain ⟨hzu', -⟩ := (hin.leaf_iff hdiru hq).1 hzero
        rcases (hout.leaf_iff hdir hq).1 hzu' with h0 | rfl
        · exact absurd h0 hmapped
        · rfl
      · rintro hq
        obtain rfl := Option.some.inj hq
        exact ⟨hlt, present_ne_zero hpr,
          (hin.leaf_iff hdiru hlt).2 ⟨(hout.leaf_iff hdir hlt).2 (.inr rfl), hne⟩⟩

/-- A run of references is served as by the queue. -/
theorem WorkingSetStart.serves {l : List Nat} {fs : List (Nat × Option Nat)}
    (h : WorkingSetStart e fixed s.kern) (hmem : MemoryInv lay pages s.kern)
    (hrun : ReferenceRun e fixed s.kern l fs k) :
    MemoryInv lay pages k ∧ WorkingSetStart e fixed k ∧
      (k.envs e).pageWSMaxSize = (s.kern.envs e).pageWSMaxSize ∧
      Fifo.serve (s.kern.envs e).pageWSMaxSize (s.kern.envs e).queue l = (fs, (k.envs e).queue) := by
  induction hrun with
  | start => exact ⟨hmem, h, rfl, rfl⟩
  | @hit l fs va t u _ hva hf hm hk ih =>
    obtain ⟨⟨m, hi⟩, ht, hmax, hserve⟩ := ih
    obtain ⟨hiu, hu, henv⟩ := ht.hit (s := ⟨t, pages, m⟩) hi hva hf hm hk
    refine ⟨⟨m, hiu⟩, hu, by rw [henv]; exact hmax, ?_⟩
    have hin : ppn va ∈ (t.envs e).queue := ht.mem_queue.2 ⟨(pdx_user hva).2, hm, hf⟩
    rw [Fifo.serve_hit (by rw [hserve]; exact hin), hserve, henv]
  | @table l fs va t u _ hnp hk ih =>
    obtain ⟨⟨m, hi⟩, ht, hmax, hserve⟩ := ih
    obtain ⟨hiu, hu, henv⟩ := ht.table (s := ⟨t, pages, m⟩) hi hnp hk
    exact ⟨⟨m, hiu⟩, hu, by rw [henv]; exact hmax, by rw [hserve, henv]⟩
  | @miss l fs va o t u _ hf hpde hz hk ho ih =>
    obtain ⟨⟨m, hi⟩, ht, hmax, hserve⟩ := ih
    have hreach := hi.reachDir (hi.pageDirectory_mem ht.toWorkingSetOk)
    have hpage := faultHandler_page hreach hpde hk
    obtain ⟨hiu, hu, hmax', o', henter, hout⟩ := ht.miss (s := ⟨t, pages, m⟩) hi hz hpage
    obtain rfl := hout.unique ho
    have hnot : ppn va ∉ (t.envs e).queue := by
      rw [ht.mem_queue]
      exact fun hc => hc.2.1 hz
    refine ⟨hiu, hu, hmax'.trans hmax, ?_⟩
    rw [Fifo.serve_miss (by rw [hserve]; exact hnot), hserve, ← hmax]
    have henter : Fifo.enter (t.envs e).pageWSMaxSize (t.envs e).queue (ppn va) =
      (o', (u.envs e).queue) := henter
    rw [henter]

end

/-- **Replacement is first in, first out.** On any sequence of references the pages that fault,
those that go out for them, and the pages resident at the end are those of a FIFO queue of the size
of the working set. -/
theorem replacement_fifo {b : BootConfig} {s₀ : Kern} {st : KHeapPlacementStrategy} {s : FileState}
    {e : Nat} {fixed : Set Nat} {l : List Nat} {fs : List (Nat × Option Nat)} {k : Kern}
    (hboot : fosInitialize (initializePaging b) = .ok () s₀)
    (hrun : ReflTransGen MemoryStep ⟨setStrategy st s₀, [.boot], fun _ => none⟩ s)
    (hstart : WorkingSetStart e fixed s.kern) (href : ReferenceRun e fixed s.kern l fs k) :
    (Fifo.serve (s.kern.envs e).pageWSMaxSize (s.kern.envs e).queue l).1 = fs ∧
      ∀ q, q ∈ (Fifo.serve (s.kern.envs e).pageWSMaxSize (s.kern.envs e).queue l).2 ↔
        q ∈ residentPages e fixed k := by
  obtain ⟨-, hk, -, hserve⟩ := hstart.serves ⟨_, memoryRun_inv hboot hrun⟩ href
  rw [hserve]
  exact ⟨rfl, fun q => hk.mem_queue⟩

theorem twoPages_fault_values :
    (twoPages.envs 3).queue = [ppn 0xEEBFC000, ppn userHeapStart] ∧
    (twoPages.envs 3).pageWSMaxSize = 2 ∧
    twoPages.leaf (twoPages.pageDirectory 3) (ppn 0xEEBFB000) = 0 ∧
    present (twoPages.pde (twoPages.pageDirectory 3) (pdx 0xEEBFB000)) ∧
    twoPages.leaf (twoPages.pageDirectory 3) (ppn 0xEEBFC000) ≠ 0 ∧
    Prog.value (faultHandler 3 0xEEBFB000 twoPages) = some () := by decide +kernel

/-- A page of the stack faults in the working set of two pages: the page that came in first goes
out, though it has just been used. -/
theorem replacement_fifo_two : ∃ k,
    ReferenceRun 3 ∅ twoPages [ppn 0xEEBFC000, ppn 0xEEBFB000]
      [(ppn 0xEEBFB000, some (ppn 0xEEBFC000))] k ∧
    ∀ q, q ∈ [ppn userHeapStart, ppn 0xEEBFB000] ↔ q ∈ residentPages 3 ∅ k := by
  obtain ⟨m, hrun⟩ := twoPages_run
  have hi := memoryRun_inv smallBoot_ok hrun
  obtain ⟨hqueue, hmax, hz, hpde, hused, hfault⟩ := twoPages_fault_values
  have hk : faultHandler 3 0xEEBFB000 twoPages =
      .ok () (Prog.final (faultHandler 3 0xEEBFB000 twoPages)) := Prog.ok_of_value hfault
  have hreach : twoPages.ReachDir (twoPages.pageDirectory 3) :=
    hi.reachDir (hi.pageDirectory_mem twoPages_start.toWorkingSetOk)
  -- the queue says which page goes out
  obtain ⟨-, -, -, o, henter, hout⟩ :=
    twoPages_start.miss (s := ⟨twoPages, _, m⟩) hi hz (faultHandler_page hreach hpde hk)
  have henter : Fifo.enter (twoPages.envs 3).pageWSMaxSize (twoPages.envs 3).queue (ppn 0xEEBFB000) =
      (o, _) := henter
  rw [hqueue, hmax] at henter
  obtain rfl : some (ppn 0xEEBFC000) = o := congrArg Prod.fst henter
  have hhit : ReferenceRun 3 ∅ twoPages ([] ++ [ppn 0xEEBFC000]) [] twoPages :=
    .hit .start (by decide) (fun h => h.elim) hused (.inl rfl)
  have href : ReferenceRun 3 ∅ twoPages [ppn 0xEEBFC000, ppn 0xEEBFB000]
      [(ppn 0xEEBFB000, some (ppn 0xEEBFC000))] _ :=
    .miss hhit (fun h => h.elim) hpde hz hk hout
  have hfifo := (replacement_fifo smallBoot_ok hrun twoPages_start href).2
  have hserve : (Fifo.serve (twoPages.envs 3).pageWSMaxSize (twoPages.envs 3).queue
      [ppn 0xEEBFC000, ppn 0xEEBFB000]).2 = [ppn userHeapStart, ppn 0xEEBFB000] := by
    rw [hqueue, hmax]
    decide
  refine ⟨_, href, fun q => ?_⟩
  rw [← hserve]
  exact hfifo q

end Fos
