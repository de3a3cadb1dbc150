import Fos.Lib.FlatMemory
import Fos.WorkingSet.Invariant
import Mathlib.Tactic.IntervalCases

/-!
# Demand paging

A user program reads and writes the bytes of its pages. At a page that is not mapped the MMU calls
`fault_handler` of `kern/trap.c` and the access is made again. The program sees a flat memory: a
page that is mapped holds the known bytes in its frame, any other page holds them in the page file,
and a page that is not modified holds them in both.
-/

namespace Fos

open FlatMemory (Access Consistent lastWritten replay)
open Function (update)
open Prog (bind_eq_ok ok_inj)
open Relation (ReflTransGen)

/-! ## Bytes -/

/-- Byte `j` of a word. -/
def byteOf (w j : Nat) : Nat := w / 256 ^ j % 256

/-- The word with `v` for byte `j`. -/
def withByte (w j v : Nat) : Nat := w - byteOf w j * 256 ^ j + v * 256 ^ j

/-- The byte at `va` of a page of words. -/
def pageByte (page : Nat → Nat) (va : Nat) : Nat := byteOf (page (va % 4096 / 4)) (va % 4)

/-- The page with `v` for the byte at `va`. -/
def withPageByte (page : Nat → Nat) (va v : Nat) : Nat → Nat :=
  update page (va % 4096 / 4) (withByte (page (va % 4096 / 4)) (va % 4) v)

theorem byteOf_withByte {w i j v : Nat} (hv : v < 256) (hi : i < 4) (hj : j < 4) :
    byteOf (withByte w j v) i = if i = j then v else byteOf w i := by
  unfold withByte byteOf
  interval_cases j <;> interval_cases i <;> simp <;> omega

theorem pageByte_self {page : Nat → Nat} {va v : Nat} (hv : v < 256) :
    pageByte (withPageByte page va v) va = v := by
  have hj : va % 4 < 4 := Nat.mod_lt _ (by decide)
  unfold pageByte withPageByte
  rw [Function.update_self, byteOf_withByte hv hj hj, if_pos rfl]

theorem pageByte_of_ne {page : Nat → Nat} {va va' v : Nat} (hv : v < 256) (hp : ppn va' = ppn va)
    (hne : va' ≠ va) : pageByte (withPageByte page va v) va' = pageByte page va' := by
  have hj : va % 4 < 4 := Nat.mod_lt _ (by decide)
  have hj' : va' % 4 < 4 := Nat.mod_lt _ (by decide)
  unfold pageByte withPageByte
  by_cases hw : va' % 4096 / 4 = va % 4096 / 4
  · rw [hw, Function.update_self, byteOf_withByte hv hj' hj, if_neg]
    unfold ppn at hp
    omega
  · rw [Function.update_of_ne hw]

/-! ## Accesses -/

/-- The byte that a user program reads. -/
def readUserByte (e va : Nat) : K Nat := do
  let s ← get
  match s.walk (s.pageDirectory e) va with
  | none => throw .fault
  | some (_, pte) => return pageByte (s.ram (ppn pte)) va

/-- A byte is written; the MMU checks that the page is writable, for the kernel too, and sets the
modified bit. -/
def writeUserByte (e va v : Nat) : K Unit := do
  let s ← get
  match s.walk (s.pageDirectory e) va with
  | none => throw .fault
  | some (_, pte) =>
    if pte &&& permWriteable = 0 then throw .fault
    else writeUserPage (s.pageDirectory e) va (withPageByte (s.ram (ppn pte)) va v)

/-- `table_fault_handler` -/
def tableFaultHandler (curenv faultVa : Nat) : K Unit := do
  let _ ← createPageTable (.heap ((← get).envs curenv).envPageDirectory) faultVa
  return ()

/-- `fault_handler` for a fault of a user program. -/
def faultHandler (curenv faultVa : Nat) : K Unit := do
  if ustackTop ≤ faultVa then throw (.panic "User: stack underflow exception!")
  else do
    let pde ← readPde (.heap ((← get).envs curenv).envPageDirectory) (pdx faultVa)
    if ¬ present pde then tableFaultHandler curenv faultVa
    else pageFaultHandler curenv faultVa

/-- The program makes the accesses `l` between `s` and `t`, at pages of `T`. A fault is at a page
that is not mapped, and comes back with a frame and with disk frames to spare. -/
inductive AccessRun (e : Nat) (T : Set Nat) (s : Kern) : List (Access Nat Nat) → Kern → Prop
  | start : AccessRun e T s [] s
  | fault {l : List (Access Nat Nat)} {va : Nat} {t u : Kern} (h : AccessRun e T s l t)
      (hT : ppn va ∈ T) (hz : t.leaf (t.pageDirectory e) (ppn va) = 0)
      (hdisk : t.disk.diskFreeFrameList ≠ []) (hk : faultHandler e va t = .ok () u) :
      AccessRun e T s l u
  | read {l : List (Access Nat Nat)} {va v : Nat} {t u : Kern} (h : AccessRun e T s l t)
      (hT : ppn va ∈ T) (hk : readUserByte e va t = .ok v u) :
      AccessRun e T s (l ++ [.read va v]) u
  | write {l : List (Access Nat Nat)} {va v : Nat} {t u : Kern} (h : AccessRun e T s l t)
      (hT : ppn va ∈ T) (hv : v < 256) (hk : writeUserByte e va v t = .ok () u) :
      AccessRun e T s (l ++ [.write va v]) u

theorem readUserByte_walk {s : Kern} {e va : Nat} (h : (s.walk (s.pageDirectory e) va).isSome) :
    ∃ v, readUserByte e va s = .ok v s := by
  obtain ⟨x, hx⟩ := Option.isSome_iff_exists.1 h
  refine ⟨pageByte (s.ram (ppn x.2)) va, ?_⟩
  rw [readUserByte, Prog.get_bind_apply, hx]
  rfl

/-! ## What the program sees -/

/-- The known bytes of a memory. -/
abbrev UserMemory : Type := FlatMemory.Mem Nat Nat

/-- The page file has the known bytes of page `q`. -/
def Backed (e q : Nat) (m : UserMemory) (s : FileState) : Prop :=
  ∀ va v, ppn va = q → m va = some v → ∃ w, s.store (e, q) = some (some w) ∧ pageByte w va = v

/-- Page `q` shows the known bytes: in its frame while it is mapped, and in the page file as long as
it is not modified. -/
structure PageShows (e q : Nat) (m : UserMemory) (s : FileState) : Prop where
  once : present (s.kern.leaf (s.kern.pageDirectory e) q) →
    s.kern.references (ppn (s.kern.leaf (s.kern.pageDirectory e) q)) = 1
  stored : present (s.kern.leaf (s.kern.pageDirectory e) q) → s.store (e, q) ≠ none
  frame : present (s.kern.leaf (s.kern.pageDirectory e) q) → ∀ va v, ppn va = q → m va = some v →
    pageByte (s.kern.ram (ppn (s.kern.leaf (s.kern.pageDirectory e) q))) va = v
  backed : ¬ modified (s.kern.leaf (s.kern.pageDirectory e) q) → Backed e q m s

/-- The state of demand paging: the pages of `T` show the memory `m`. -/
structure PagingInv (lay : Layout) (e : Nat) (fixed T : Set Nat) (m : UserMemory) (s : FileState) :
    Prop where
  inv : StoreInv lay s
  workingSet : WorkingSetOk e fixed s.kern
  user : ∀ q ∈ T, q < 977920
  shows : ∀ q ∈ T, PageShows e q m s

section

variable {lay : Layout} {s t : FileState} {k : Kern} {e q v va : Nat} {fixed T : Set Nat}
  {m m' : UserMemory} {l : List (Access Nat Nat)}

theorem not_modified_zero : ¬ modified 0 := by decide

theorem Backed.congr (h : Backed e q m s) (hstore : t.store (e, q) = s.store (e, q))
    (hm : ∀ va, ppn va = q → m' va = m va) : Backed e q m' t := by
  intro va v hva hv
  rw [hm va hva] at hv
  rw [hstore]
  exact h va v hva hv

/-- A page that is kept shows what it showed. -/
theorem PageShows.keeps (h : PageShows e q m s)
    (hd : t.kern.pageDirectory e = s.kern.pageDirectory e)
    (hk : KeepsPage (s.kern.pageDirectory e) q s.kern t.kern)
    (hstore : t.store (e, q) = s.store (e, q)) (hm : ∀ va, ppn va = q → m' va = m va) :
    PageShows e q m' t := by
  constructor
  · intro hpr
    rw [hd, hk.leaf] at hpr ⊢
    rw [hk.references hpr]
    exact h.once hpr
  · intro hpr
    rw [hd, hk.leaf] at hpr
    rw [hstore]
    exact h.stored hpr
  · intro hpr va v hva hv
    rw [hd, hk.leaf] at hpr ⊢
    rw [hm va hva] at hv
    rw [hk.ram hpr]
    exact h.frame hpr va v hva hv
  · intro hclean
    rw [hd, hk.leaf] at hclean
    exact (h.backed hclean).congr hstore hm

theorem PagesIn.pageDirectory (h : PagesIn e va s t) :
    t.kern.pageDirectory e = s.kern.pageDirectory e := by
  obtain ⟨d, henv⟩ := h.env
  unfold Kern.pageDirectory
  rw [henv]
  rfl

theorem PagesOut.pageDirectory (h : PagesOut e v s t) :
    t.kern.pageDirectory e = s.kern.pageDirectory e := by
  obtain ⟨d, henv⟩ := h.env
  unfold Kern.pageDirectory
  rw [henv]
  rfl

/-- **The victim goes out**: a page that is modified is written to the page file before. -/
theorem PagesOut.shows (h : PagesOut e v s t) (hdir : s.kern.pageDirectory e ∈ s.pages)
    (hq : q < 977920) (hpr : present (s.kern.leaf (s.kern.pageDirectory e) (ppn v)))
    (hs : PageShows e q m s) : PageShows e q m t := by
  by_cases hqv : q = ppn v
  · subst hqv
    have hz : t.kern.leaf (t.kern.pageDirectory e) (ppn v) = 0 := by
      rw [h.pageDirectory]
      exact h.unmapped
    have hnp : ¬ present (t.kern.leaf (t.kern.pageDirectory e) (ppn v)) := by
      rw [hz]
      exact not_present_zero
    refine ⟨fun hc => absurd hc hnp, fun hc => absurd hc hnp, fun hc => absurd hc hnp, fun _ => ?_⟩
    by_cases hmod : modified (s.kern.leaf (s.kern.pageDirectory e) (ppn v))
    · -- the page file gets the words of the frame
      intro va w hva hw
      exact ⟨_, h.written hmod (hs.stored hpr), hs.frame hpr va w hva hw⟩
    · exact (hs.backed hmod).congr (h.clean hmod) fun _ _ => rfl
  · have hkeep := h.keeps _ hdir q hq fun hc => hqv (congrArg Prod.snd hc)
    exact hs.keeps h.pageDirectory hkeep (h.store _ fun hc => hqv (congrArg Prod.snd hc)) fun _ _ => rfl

/-- **The faulting page comes in**: it is loaded when the page file has it, and nothing is known of
a page that comes to the page file now. -/
theorem PagesIn.shows (h : PagesIn e va s t) (hdir : s.kern.pageDirectory e ∈ s.pages)
    (hq : q < 977920) (hz : s.kern.leaf (s.kern.pageDirectory e) (ppn va) = 0)
    (hdisk : s.kern.disk.diskFreeFrameList ≠ []) (hs : PageShows e q m s) : PageShows e q m t := by
  by_cases hqv : q = ppn va
  · subst hqv
    have hclean : Backed e (ppn va) m s := by
      apply hs.backed
      rw [hz]
      exact not_modified_zero
    rw [← h.pageDirectory] at hz
    constructor
    · intro _
      rw [h.pageDirectory]
      exact h.once
    · intro _ hnone
      by_cases hold : s.store (e, ppn va) = none
      · exact (h.added hold).2 hdisk hnone
      · exact hold ((h.loaded hold).1.symm.trans hnone)
    · intro _ va' v hva' hv
      obtain ⟨w, hw, hbyte⟩ := hclean va' v hva' hv
      have hold : s.store (e, ppn va) ≠ none := by
        rw [hw]
        exact Option.some_ne_none _
      rw [h.pageDirectory, (h.loaded hold).2.2 w hw]
      exact hbyte
    · intro _ va' v hva' hv
      obtain ⟨w, hw, hbyte⟩ := hclean va' v hva' hv
      have hold : s.store (e, ppn va) ≠ none := by
        rw [hw]
        exact Option.some_ne_none _
      exact ⟨w, (h.loaded hold).1.trans hw, hbyte⟩
  · have hkeep := h.keeps _ hdir q hq fun hc => hqv (congrArg Prod.snd hc)
    exact hs.keeps h.pageDirectory hkeep (h.store _ fun hc => hqv (congrArg Prod.snd hc)) fun _ _ => rfl

/-! ## One access -/

/-- Where the mapped pages keep their frames and the counts of these, so does the working set. -/
theorem WorkingSetOk.congr {a b : Kern} (hok : WorkingSetOk e fixed a) (henv : b.envs e = a.envs e)
    (hleaf : ∀ q < 977920, present (a.leaf (a.pageDirectory e) q) →
      present (b.leaf (a.pageDirectory e) q) ∧
        ppn (b.leaf (a.pageDirectory e) q) = ppn (a.leaf (a.pageDirectory e) q) ∧
        b.references (ppn (a.leaf (a.pageDirectory e) q)) =
          a.references (ppn (a.leaf (a.pageDirectory e) q))) : WorkingSetOk e fixed b := by
  have hd : b.pageDirectory e = a.pageDirectory e := by
    unfold Kern.pageDirectory
    rw [henv]
  constructor
  · rw [henv]
    exact hok.directory
  · rw [henv]
    exact hok.index
  · rw [henv]
    exact hok.length
  · rw [henv]
    exact hok.empty
  · intro q hq
    obtain ⟨hlt, hpr⟩ := hok.stays q hq
    rw [hd]
    exact ⟨hlt, (hleaf q hlt hpr).1⟩
  · intro i q hiq
    rw [henv] at hiq
    obtain ⟨hlt, hnf, hpr, hone⟩ := hok.mapped i q hiq
    obtain ⟨hpr', hppn, href⟩ := hleaf q hlt hpr
    rw [hd, hppn, href]
    exact ⟨hlt, hnf, hpr', hone⟩
  · rw [henv]
    exact hok.distinct

/-- Pages that are all kept. -/
theorem WorkingSetOk.kept {a b : Kern} {pages : List DirPtr} (hok : WorkingSetOk e fixed a)
    (henv : b.envs e = a.envs e) (hdir : a.pageDirectory e ∈ pages) (hk : KeepsOutside pages ∅ a b) :
    WorkingSetOk e fixed b := by
  apply hok.congr henv
  intro q hq hpr
  have hkeep := hk _ hdir q hq (Set.notMem_empty _)
  rw [hkeep.leaf]
  exact ⟨hpr, rfl, hkeep.references hpr⟩

/-- **`create_page_table`** for a directory entry that is not present. -/
theorem StoreInv.createPageTable {dir : DirPtr} {tbl : TablePtr} (hi : StoreInv lay s)
    (hdir : dir ∈ s.pages) (hva : va < userTop) (hnp : ¬ present (s.kern.pde dir (pdx va)))
    (h : Fos.createPageTable dir va s.kern = .ok tbl k) :
    StoreInv lay ⟨k, s.pages, s.store⟩ ∧ KeepsOutside s.pages ∅ s.kern k ∧
    k.envs = s.kern.envs := by
  obtain ⟨G, dirs, hpages, hfile⟩ := hi.file
  have hcount := hi.count
  rw [← hpages] at hdir hcount ⊢
  obtain ⟨p, -, -, -, hq, hok⟩ := hfile.mem.createPageTable (.inl hdir) hva hnp h
  have hst := hq.still hfile.mem
  refine ⟨?_, hst.keeps, hq.envs⟩
  have hmem := hi.memory hpages hfile hok hst.toKept hq.sameRest
    (by rw [← hpages]; exact hst.count hcount)
  rw [← hpages] at hmem
  exact hmem.1

/-- `fault_handler` makes a page table, or brings the page in. -/
theorem faultHandler_ok {a b : Kern} (hreach : a.ReachDir (a.pageDirectory e))
    (h : faultHandler e va a = .ok () b) : va < ustackTop ∧
      ((¬ present (a.pde (a.pageDirectory e) (pdx va)) ∧
          ∃ tbl, Fos.createPageTable (a.pageDirectory e) va a = .ok tbl b) ∨
        pageFaultHandler e va a = .ok () b) := by
  unfold faultHandler at h
  rw [Prog.ite_run] at h
  split at h
  case isTrue => cases h
  case isFalse htop =>
    refine ⟨Nat.lt_of_not_le htop, ?_⟩
    rw [Prog.get_bind_apply, Prog.bind_of_ok (readPde_reach hreach (pdx_lt va)), Prog.ite_run] at h
    split at h
    case isTrue hnp =>
      left
      unfold tableFaultHandler at h
      rw [Prog.get_bind_apply] at h
      obtain ⟨tbl, b', hcreate, hret⟩ := bind_eq_ok.1 h
      obtain ⟨-, rfl⟩ := ok_inj.1 hret
      exact ⟨hnp, tbl, hcreate⟩
    case isFalse => exact .inr h

/-- **A fault** changes nothing that the program sees. -/
theorem PagingInv.fault (h : PagingInv lay e fixed T m s) (hT : ppn va ∈ T)
    (hz : s.kern.leaf (s.kern.pageDirectory e) (ppn va) = 0)
    (hdisk : s.kern.disk.diskFreeFrameList ≠ []) (hk : faultHandler e va s.kern = .ok () k) :
    ∃ store, PagingInv lay e fixed T m ⟨k, s.pages, store⟩ := by
  have hdir := h.inv.pageDirectory_mem h.workingSet
  have hreach : s.kern.ReachDir (s.kern.pageDirectory e) := by
    obtain ⟨G, dirs, hpages, hfile⟩ := h.inv.file
    rw [← hpages] at hdir
    exact hfile.mem.directories.reachDir (.inl hdir)
  have hva : va < userTop := by
    have hlt := h.user _ hT
    unfold ppn at hlt
    unfold userTop
    omega
  obtain ⟨-, hcase⟩ := faultHandler_ok hreach hk
  rcases hcase with ⟨hnp, tbl, hcreate⟩ | hpage
  · -- the table of the page is new
    obtain ⟨hi, hkeep, henvs⟩ := h.inv.createPageTable hdir hva hnp hcreate
    have henv : k.envs e = s.kern.envs e := by rw [henvs]
    have hd : k.pageDirectory e = s.kern.pageDirectory e := by
      unfold Kern.pageDirectory
      rw [henv]
    refine ⟨s.store, hi, h.workingSet.kept henv hdir hkeep, h.user, fun q hq => ?_⟩
    exact (h.shows q hq).keeps hd (hkeep _ hdir q (h.user q hq) (Set.notMem_empty _)) rfl fun _ _ => rfl
  · obtain ⟨u, store, hiu, hik, hoku, hzu, hu, hin⟩ := h.workingSet.handler h.inv hz hpage
    have hdiru := hiu.pageDirectory_mem hoku
    refine ⟨store, hik, hin.ok hiu hoku hzu, h.user, fun q hq => ?_⟩
    have hlt := h.user q hq
    rcases hu with ⟨-, rfl⟩ | ⟨-, v, hlast, hout⟩
    · exact hin.shows hdir hlt hz hdisk (h.shows q hq)
    · -- the victim goes out before
      have hpr := (h.workingSet.mapped _ _ hlast).2.2.1
      rw [hout.pageDirectory] at hzu
      apply hin.shows hdiru hlt
      · rw [hout.pageDirectory]
        exact hzu
      · rw [hout.freeFrames]
        exact hdisk
      · exact hout.shows hdir hlt hpr (h.shows q hq)

/-- **A read** answers the known byte. -/
theorem PagingInv.read (h : PagingInv lay e fixed T m s) (hT : ppn va ∈ T)
    (hk : readUserByte e va s.kern = .ok v k) : k = s.kern ∧ ∀ w, m va = some w → v = w := by
  obtain ⟨G, dirs, hpages, hfile⟩ := h.inv.file
  have hdir := h.inv.pageDirectory_mem h.workingSet
  rw [← hpages] at hdir
  have hva : va < userTop := by
    have hlt := h.user _ hT
    unfold ppn at hlt
    unfold userTop
    omega
  unfold readUserByte at hk
  rw [Prog.get_bind_apply] at hk
  by_cases hpr : present (s.kern.leaf (s.kern.pageDirectory e) (ppn va))
  · obtain ⟨q, -, -, hwalk⟩ := hfile.mem.walk hdir hva hpr
    rw [hwalk] at hk
    obtain ⟨rfl, rfl⟩ := ok_inj.1 hk
    exact ⟨rfl, fun w hw => (h.shows _ hT).frame hpr va w rfl hw⟩
  · rw [hfile.mem.walk_none hdir hva hpr] at hk
    cases hk

/-- A byte is written only where the page is mapped and writable. -/
theorem MemOk.writeUserByte {G D held : Set Nat} {dirs : Roots} {k k' : Kern}
    (h : MemOk lay G D dirs held k) (hdir : k.pageDirectory e ∈ dirs.page) (hva : va < userTop)
    (hk : Fos.writeUserByte e va v k = .ok () k') :
    present (k.leaf (k.pageDirectory e) (ppn va)) ∧
      k.leaf (k.pageDirectory e) (ppn va) &&& permWriteable ≠ 0 ∧
      Fos.writeUserPage (k.pageDirectory e) va
        (withPageByte (k.ram (ppn (k.leaf (k.pageDirectory e) (ppn va)))) va v) k = .ok () k' := by
  unfold Fos.writeUserByte at hk
  rw [Prog.get_bind_apply] at hk
  by_cases hpr : present (k.leaf (k.pageDirectory e) (ppn va))
  · obtain ⟨q, -, -, hwalk⟩ := h.walk hdir hva hpr
    rw [hwalk] at hk
    dsimp only at hk
    rw [Prog.ite_run] at hk
    split at hk
    case isTrue => cases hk
    case isFalse hw => exact ⟨hpr, hw, hk⟩
  · rw [h.walk_none hdir hva hpr] at hk
    cases hk

/-- **A write** is known from then on. -/
theorem PagingInv.write (h : PagingInv lay e fixed T m s) (hT : ppn va ∈ T) (hv : v < 256)
    (hk : writeUserByte e va v s.kern = .ok () k) :
    PagingInv lay e fixed T (update m va (some v)) ⟨k, s.pages, s.store⟩ := by
  have hdir := h.inv.pageDirectory_mem h.workingSet
  have hlt := h.user _ hT
  have hva : va < userTop := by
    unfold ppn at hlt
    unfold userTop
    omega
  set dir := s.kern.pageDirectory e with hdirdef
  set w := s.kern.leaf dir (ppn va) with hw
  obtain ⟨G, dirs, hpages, hfile⟩ := h.inv.file
  have hdir' : dir ∈ dirs.page := by
    rw [hpages]
    exact hdir
  obtain ⟨hpr, -, hk⟩ := hfile.mem.writeUserByte hdir' hva hk
  set words := withPageByte (s.kern.ram (ppn w)) va v with hwords
  obtain ⟨t, hrun, -, ht⟩ := hfile.mem.writeUserPage hdir' hva hpr words
  rw [hk] at hrun
  obtain ⟨-, rfl⟩ := ok_inj.1 hrun
  have hone := (h.shows _ hT).once hpr
  have hkeep := ht.keeps hfile.mem hdir' hlt hpr hone
  rw [hpages] at hkeep
  have hself : k.leaf dir (ppn va) = setPerm w permModified := by
    rw [ht.leaf dir hdir' _ hlt, if_pos ⟨rfl, rfl⟩]
  have henv : k.envs e = s.kern.envs e := by rw [ht.envs]
  have hd : k.pageDirectory e = dir := by
    unfold Kern.pageDirectory
    rw [henv]
  -- the modified bit is set, and the page keeps its frame
  have hframe : ppn (setPerm w permModified) = ppn w := ppn_setPerm w (by decide)
  have hrefs : k.references (ppn w) = s.kern.references (ppn w) := by
    unfold Kern.references
    rw [ht.frames]
  refine ⟨(h.inv.write hdir hva hpr hk).1, ?_, h.user, fun q hq => ?_⟩
  · apply h.workingSet.congr henv
    intro q hq hprq
    by_cases hqv : q = ppn va
    · rw [← hdirdef, hqv, hself]
      exact ⟨(present_setPerm w).2 hpr, hframe, hrefs⟩
    · have hkq := hkeep dir hdir q hq fun hc => hqv (congrArg Prod.snd hc)
      rw [hkq.leaf]
      exact ⟨hprq, rfl, hkq.references hprq⟩
  · by_cases hqv : q = ppn va
    · subst hqv
      constructor
      · intro _
        show k.references (ppn (k.leaf (k.pageDirectory e) (ppn va))) = 1
        rw [hd, hself, hframe, hrefs]
        exact hone
      · intro _
        exact (h.shows _ hT).stored hpr
      · -- the byte is new, and the other bytes of the page stay
        intro _ va' v' hva' hv'
        show pageByte (k.ram (ppn (k.leaf (k.pageDirectory e) (ppn va)))) va' = v'
        rw [hd, hself, hframe, ht.content]
        by_cases heq : va' = va
        · subst heq
          rw [Function.update_self] at hv'
          rw [pageByte_self hv]
          exact Option.some.inj hv'
        · rw [Function.update_of_ne heq] at hv'
          rw [pageByte_of_ne hv hva' heq]
          exact (h.shows _ hT).frame hpr va' v' hva' hv'
      · -- the page is modified now
        intro hclean
        have hmod : modified (k.leaf (k.pageDirectory e) (ppn va)) := by
          rw [hd, hself]
          exact modified_setPerm w
        exact absurd hmod hclean
    · have hkq := hkeep dir hdir q (h.user q hq) fun hc => hqv (congrArg Prod.snd hc)
      have hm : ∀ va', ppn va' = q → update m va (some v) va' = m va' := by
        intro va' hva'
        apply Function.update_of_ne
        rintro rfl
        exact hqv hva'.symm
      exact (h.shows q hq).keeps (t := ⟨k, s.pages, s.store⟩) hd hkq rfl hm

/-! ## Runs -/

/-- **A run of accesses** is consistent with the memory that the pages show at its start. -/
theorem AccessRun.paging (h : PagingInv lay e fixed T m s) (hrun : AccessRun e T s.kern l k) :
    Consistent m l ∧ ∃ t, t.kern = k ∧ PagingInv lay e fixed T (replay m l) t := by
  induction hrun with
  | start => exact ⟨trivial, s, rfl, h⟩
  | fault _ hT hz hdisk hk ih =>
    obtain ⟨hl, t, rfl, ht⟩ := ih
    obtain ⟨store, hnext⟩ := ht.fault hT hz hdisk hk
    exact ⟨hl, _, rfl, hnext⟩
  | read _ hT hk ih =>
    obtain ⟨hl, t, rfl, ht⟩ := ih
    obtain ⟨heq, hanswer⟩ := ht.read hT hk
    refine ⟨FlatMemory.consistent_concat.2 ⟨hl, hanswer⟩, t, heq.symm, ?_⟩
    rw [FlatMemory.replay_append]
    exact ht
  | write _ hT hv hk ih =>
    obtain ⟨hl, t, rfl, ht⟩ := ih
    refine ⟨FlatMemory.consistent_concat.2 ⟨hl, trivial⟩, ⟨_, t.pages, t.store⟩, rfl, ?_⟩
    rw [FlatMemory.replay_append]
    exact ht.write hT hv hk

end

end Fos
