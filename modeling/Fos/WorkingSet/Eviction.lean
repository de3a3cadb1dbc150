import Fos.PageFile.MemoryRuns
import Fos.WorkingSet

/-!
# Eviction

`page_fault_handler` with a full working set. The answer of `pf_update_env_page` is not looked at,
so a modified page is kept exactly when the page file has a disk frame for it already.
-/

namespace Fos

open Prog (bind_eq_ok bind_of_ok ok_inj)
open Relation (ReflTransGen)

/-! ## Reading the tables -/

section

variable {lay : Layout} {G D : Set Nat} {dirs : Roots} {held : Set Nat} {s t : Kern} {dir : DirPtr}
  {e va : Nat}

/-- `get_frame_info` at a mapped user page. -/
theorem MemOk.getFrameInfo_user (h : MemOk lay G D dirs held s) (hdir : dir ∈ dirs.page)
    (hva : va < userTop) (hpr : present (s.leaf dir (ppn va))) :
    ∃ tbl, Fos.getFrameInfo dir va s = .ok (some (ppn (s.leaf dir (ppn va)), tbl)) s := by
  obtain ⟨q, hq, hx, -⟩ := h.walk hdir hva hpr
  obtain ⟨hget, -⟩ := hx.get h.directories hva
  have hreach := hx.reach h.directories
  have hread := readPte_reach hreach (ptx_lt va)
  have hentry : s.entry (.heap (q * 4096), ptx va) = s.leaf dir (ppn va) := hx.entry
  have hnull : (TablePtr.heap (q * 4096)) ≠ .null := by
    intro he
    exact hreach.1 (TablePtr.heap.inj he)
  have hrange : ¬ s.frames.numberOfFrames ≤ ppn (s.leaf dir (ppn va)) := by
    have := h.accounted.inRange _ (h.usable_leaf hdir (pdx_user hva).2 hpr).pool
    omega
  refine ⟨.heap (q * 4096), ?_⟩
  unfold Fos.getFrameInfo
  rw [bind_of_ok hget]
  dsimp only
  rw [if_neg hnull, bind_of_ok hread, hentry, if_pos (present_ne_zero hpr)]
  simp [toFrameInfo, ppn_extractAddress, hrange, Prog.bind_run]

/-- `pt_get_page_permissions` at a mapped user page. -/
theorem MemOk.ptGetPagePermissions_user (h : MemOk lay G D dirs held s)
    (hdir : s.pageDirectory e ∈ dirs.page) (hva : va < userTop)
    (hpr : present (s.leaf (s.pageDirectory e) (ppn va))) :
    ptGetPagePermissions e va s =
      .ok (s.leaf (s.pageDirectory e) (ppn va) &&& 0x00000FFF) s := by
  obtain ⟨q, hpde, htable, hx⟩ := h.tableOf_user hdir hva hpr
  have hread := readPte_reach (hx.reach h.directories) (ptx_lt va)
  have hentry : s.entry (.heap (q * 4096), ptx va) = s.leaf (s.pageDirectory e) (ppn va) := hx.entry
  unfold ptGetPagePermissions
  rw [Prog.get_bind_apply,
    bind_of_ok (readPde_reach (h.directories.reachDir (.inl hdir)) (pdx_lt va)),
    Prog.ite_run, if_pos hpde, Prog.get_bind_apply, htable, bind_of_ok hread, hentry]
  rfl

theorem modified_permissions (w : Nat) : modified (w &&& 0x00000FFF) ↔ modified w := by
  unfold modified
  rw [Nat.and_assoc, show 0x00000FFF &&& permModified = permModified by decide]

end

/-! ## The faulting page -/

/-- Between `s` and `t` nothing changed in the page file and in the mappings but at page `p` of the
environment `e`. -/
structure Elsewhere (e p : Nat) (s t : FileState) : Prop where
  pages : t.pages = s.pages
  directory : t.kern.pageDirectory e = s.kern.pageDirectory e
  store : ∀ x, x ≠ (e, p) → t.store x = s.store x
  leaf : ∀ dir ∈ s.pages, ∀ q < 977920, q ≠ p → t.kern.leaf dir q = s.kern.leaf dir q

section

variable {lay : Layout} {s t u : FileState} {k : Kern} {e p va init : Nat}

theorem Elsewhere.refl (e p : Nat) (s : FileState) : Elsewhere e p s s :=
  ⟨rfl, rfl, fun _ _ => rfl, fun _ _ _ _ _ => rfl⟩

theorem Elsewhere.trans (h : Elsewhere e p s t) (h' : Elsewhere e p t u) : Elsewhere e p s u := by
  refine ⟨h'.pages.trans h.pages, h'.directory.trans h.directory, fun x hx => ?_,
    fun dir hdir q hq hqp => ?_⟩
  · rw [h'.store x hx, h.store x hx]
  · rw [h'.leaf dir (by rw [h.pages]; exact hdir) q hq hqp, h.leaf dir hdir q hq hqp]

/-- A new working set. -/
theorem Elsewhere.setEnv {env : Env} (s : FileState) (e p : Nat)
    (hpage : env.envPageDirectory = (s.kern.envs e).envPageDirectory) :
    Elsewhere e p s ⟨s.kern.setEnv e env, s.pages, s.store⟩ := by
  refine ⟨rfl, ?_, fun _ _ => rfl, fun _ _ _ _ _ => rfl⟩
  show (.heap (Function.update s.kern.envs e env e).envPageDirectory : DirPtr) = _
  rw [Function.update_self, hpage]

/-- The environment after the page of `va` has been entered. -/
def Env.enterPage (env : Env) (va : Nat) : Env :=
  { env with
    ptrPageWorkingSet :=
      env.ptrPageWorkingSet.set env.pageLastWSIndex ⟨rounddown va pageSize, false⟩
    pageLastWSIndex := (env.pageLastWSIndex + 1) % env.pageWSMaxSize }

/-- The environment after the entry `i` has been cleared. -/
def Env.clearEntry (env : Env) (i : Nat) : Env :=
  { env with ptrPageWorkingSet := env.ptrPageWorkingSet.set i ⟨0, true⟩ }

/-- `env_page_ws_set_entry` returns for user addresses and entries of the array only. -/
theorem envPageWsSetEntry_ok {i : Nat} {s t : Kern} (h : envPageWsSetEntry e i va s = .ok () t) :
    i < (s.envs e).pageWSMaxSize ∧ va < userTop ∧ t = s.setEnv e { s.envs e with
      ptrPageWorkingSet :=
        (s.envs e).ptrPageWorkingSet.set i ⟨rounddown va pageSize, false⟩ } := by
  unfold envPageWsSetEntry at h
  rw [Prog.get_bind_apply, Prog.ite_run] at h
  split at h
  case isTrue => cases h
  case isFalse hi =>
    rw [Prog.ite_run] at h
    split at h
    case isTrue => cases h
    case isFalse hva =>
      obtain ⟨-, rfl⟩ := ok_inj.1 h
      exact ⟨Nat.lt_of_not_le hi, Nat.lt_of_not_le hva, rfl⟩

/-- The page is read, added to the file or refused; then it is entered into the working set. -/
theorem enterFaultingPage_ok {invalid : String} {s t : Kern}
    (h : enterFaultingPage e va init invalid s = .ok () t) :
    va < userTop ∧ ∃ r s₁ s₂, pfReadEnvPage e e va s = .ok r s₁ ∧
      ((r = 0 ∧ s₂ = s₁) ∨ (r ≠ 0 ∧ va < ustackTop ∧ ustackBottom ≤ va ∧
        ∃ r', pfAddEmptyEnvPage e va init s₁ = .ok r' s₂)) ∧
      (s₂.envs e).pageLastWSIndex < (s₂.envs e).pageWSMaxSize ∧
      t = s₂.setEnv e ((s₂.envs e).enterPage va) := by
  obtain ⟨r, s₁, h₁, h⟩ := bind_eq_ok.1 h
  obtain ⟨_, s₂, h₂, h⟩ := bind_eq_ok.1 h
  rw [Prog.get_bind_apply] at h
  obtain ⟨_, s₃, h₃, h⟩ := bind_eq_ok.1 h
  obtain ⟨hindex, hva, rfl⟩ := envPageWsSetEntry_ok h₃
  obtain ⟨-, rfl⟩ := ok_inj.1 h
  refine ⟨hva, r, s₁, s₂, h₁, ?_, hindex, ?_⟩
  · rw [Prog.ite_run] at h₂
    split at h₂
    case isTrue hr =>
      rw [Prog.ite_run] at h₂
      split at h₂
      case isTrue hstack =>
        obtain ⟨r', s₃, hadd, h₂⟩ := bind_eq_ok.1 h₂
        obtain ⟨-, rfl⟩ := ok_inj.1 h₂
        exact .inr ⟨hr, hstack.1, hstack.2, r', hadd⟩
      case isFalse => cases h₂
    case isFalse hr =>
      obtain ⟨-, rfl⟩ := ok_inj.1 h₂
      exact .inl ⟨not_not.1 hr, rfl⟩
  · unfold Kern.setEnv Env.enterPage
    dsimp only
    rw [Function.update_self, Function.update_idem]

/-- The read changes the page itself only. -/
theorem StoreInv.read_elsewhere {r : Int} (hi : StoreInv lay s) (hva : va < userTop)
    (hpd : (s.kern.envs e).envPageDirectory ≠ 0)
    (hpr : present (s.kern.leaf (s.kern.pageDirectory e) (ppn va)))
    (h : pfReadEnvPage e e va s.kern = .ok r k) :
    StoreInv lay ⟨k, s.pages, s.store⟩ ∧ Elsewhere e (ppn va) s ⟨k, s.pages, s.store⟩ := by
  refine ⟨(hi.read hva hpd hpr h).1, ?_⟩
  obtain ⟨G, dirs, hpages, hfile⟩ := hi.file
  have hdir := hi.pages e hpd
  rw [← hpages] at hdir
  rcases hfile.pfReadEnvPage hdir hva hpr with ⟨-, hrun⟩ | ⟨-, t, hrun, -, ht⟩
  · rw [h] at hrun
    obtain ⟨-, rfl⟩ := ok_inj.1 hrun
    exact .refl e _ s
  · rw [h] at hrun
    obtain ⟨-, rfl⟩ := ok_inj.1 hrun
    refine ⟨rfl, ?_, fun _ _ => rfl, fun dir hdir' q hq hqp => ?_⟩
    · show (.heap (k.envs e).envPageDirectory : DirPtr) = _
      rw [ht.envs]
    · rw [← hpages] at hdir'
      show k.leaf dir q = _
      rw [ht.leaf dir hdir' q hq, if_neg fun hc => hqp hc.2]

/-- Adding the page changes the file at the page only. -/
theorem StoreInv.addEmpty_elsewhere {r : Int} (hi : StoreInv lay s) (hva : va < userTop)
    (h : pfAddEmptyEnvPage e va init s.kern = .ok r k) :
    ∃ m, StoreInv lay ⟨k, s.pages, m⟩ ∧ Elsewhere e (ppn va) s ⟨k, s.pages, m⟩ := by
  obtain ⟨hfile, hf, ha⟩ := hi.file.pfAddEmptyEnvPage hva h
  have helse : ∀ m : PageStore, (∀ x, x ≠ (e, ppn va) → m x = s.store x) →
      Elsewhere e (ppn va) s ⟨k, s.pages, m⟩ := by
    intro m hm
    refine ⟨rfl, ?_, hm, fun dir hdir q hq _ => hf.leaf dir hdir q hq⟩
    show (.heap (k.envs e).envPageDirectory : DirPtr) = _
    rw [hf.env e]
  cases ha with
  | full _ hd hs =>
    exact ⟨s.store, hi.fileOnly hfile hf (hi.shows.congr hs (by rw [hd])), helse _ fun _ _ => rfl⟩
  | done hn hold hs hw =>
    by_cases h0 : init = 0
    · rw [if_pos h0] at hw
      exact ⟨_, hi.fileOnly hfile hf (hi.shows.touch hn hold hs hw),
        helse _ fun x hx => Store.touch_of_ne _ hx⟩
    · rw [if_neg h0] at hw
      exact ⟨_, hi.fileOnly hfile hf (hi.shows.put hfile.exact hn hs hw),
        helse _ fun x hx => Store.put_of_ne _ hx⟩

/-- What both branches of the handler do with the faulting page leaves the other pages alone. -/
theorem StoreInv.enterFaultingPage {f : Nat} {invalid : String} {k₁ k₂ : Kern}
    (hi : StoreInv lay s) (hpd : (s.kern.envs e).envPageDirectory ≠ 0)
    (h₁ : allocateFrame s.kern = .ok f k₁)
    (h₂ : mapFrame (s.kern.pageDirectory e) f va (permUser ||| permWriteable) k₁ = .ok () k₂)
    (h₃ : Fos.enterFaultingPage e va init invalid k₂ = .ok () k) :
    ∃ m, StoreInv lay ⟨k, s.pages, m⟩ ∧ Elsewhere e (ppn va) s ⟨k, s.pages, m⟩ := by
  obtain ⟨hva, r, k₃, k₄, hread, hadd, -, rfl⟩ := enterFaultingPage_ok h₃
  have hdir := hi.pages e hpd
  obtain ⟨⟨hi₂, -⟩, henvs, hleaf⟩ := hi.placePage hdir hva (by decide) h₁ h₂
  have h₂' : Elsewhere e (ppn va) s ⟨k₂, s.pages, s.store⟩ := by
    refine ⟨rfl, ?_, fun _ _ => rfl, fun dir hdir' q hq hqp => ?_⟩
    · show (.heap (k₂.envs e).envPageDirectory : DirPtr) = _
      rw [henvs]
    · show k₂.leaf dir q = _
      rw [hleaf dir hdir' q hq, if_neg fun hc => hqp hc.2]
  have hpr : present (k₂.leaf (k₂.pageDirectory e) (ppn va)) := by
    unfold Kern.pageDirectory
    rw [henvs, hleaf _ hdir _ (pdx_user hva).2, if_pos ⟨rfl, rfl⟩]
    exact present_entryOf (by decide)
  obtain ⟨hi₃, h₃'⟩ := hi₂.read_elsewhere hva (by rw [henvs]; exact hpd) hpr hread
  have h₄ : ∃ m, StoreInv lay ⟨k₄, s.pages, m⟩ ∧ Elsewhere e (ppn va) s ⟨k₄, s.pages, m⟩ := by
    rcases hadd with ⟨-, rfl⟩ | ⟨-, -, -, r', hadd⟩
    · exact ⟨_, hi₃, h₂'.trans h₃'⟩
    · obtain ⟨m, hi₄, h₄'⟩ := hi₃.addEmpty_elsewhere hva hadd
      exact ⟨m, hi₄, (h₂'.trans h₃').trans h₄'⟩
  obtain ⟨m, hi₄, h₄'⟩ := h₄
  exact ⟨m, hi₄.setEnv rfl rfl, h₄'.trans (.setEnv _ e _ rfl)⟩

/-! ## The victim -/

/-- A fault at `faultVa` evicts the modified page of `va`: the working set is full, and the entry at
`page_last_WS_index` holds the page, which is another one than the faulting page. -/
structure Evicts (s : Kern) (e faultVa va : Nat) : Prop where
  full : ¬ (s.envs e).pageWsGetSize < (s.envs e).pageWSMaxSize
  victim : ∃ w, (s.envs e).ptrPageWorkingSet[(s.envs e).pageLastWSIndex]? = some w ∧
    w.virtualAddress = va
  user : va < userTop
  other : ppn va ≠ ppn faultVa
  mapped : present (s.leaf (s.pageDirectory e) (ppn va))
  modified : modified (s.leaf (s.pageDirectory e) (ppn va))

/-- The contents of the page of `va` survive between `s` and `t`: where the page file can hold them
it does, and otherwise the page stays mapped and in the working set. -/
structure KeepsVictim (s t : Kern) (e va : Nat) : Prop where
  stored : s.diskSlot (e, ppn va) ≠ 0 ∨ s.disk.diskFreeFrameList ≠ [] →
    t.diskSlot (e, ppn va) ≠ 0 ∧ t.disk.words (t.diskSlot (e, ppn va)) =
      s.ram (ppn (s.leaf (s.pageDirectory e) (ppn va)))
  stays : s.diskSlot (e, ppn va) = 0 → s.disk.diskFreeFrameList = [] →
    t.leaf (s.pageDirectory e) (ppn va) = s.leaf (s.pageDirectory e) (ppn va) ∧
      ∃ w ∈ (t.envs e).ptrPageWorkingSet, w.empty = false ∧ ppn w.virtualAddress = ppn va

/-- A directory pointer that is null is not followed. -/
theorem getFrameInfo_null {s : Kern} (hlow : ¬ present (s.kernelTable 0)) (va : Nat)
    (r : Option (Nat × TablePtr)) (t : Kern) : getFrameInfo (.heap 0) va s ≠ .ok r t := by
  intro h
  obtain ⟨o, s₁, h₁, -⟩ := bind_eq_ok.1 h
  obtain ⟨w, s₂, h₂, -⟩ := bind_eq_ok.1 h₁
  have hread : readWord (0 + 4 * (pdx va % 1024)) s = .ok w s₂ := by
    rw [Nat.mod_eq_of_lt (pdx_lt va)]
    exact h₂
  exact readWord_null hlow _ _ _ hread

theorem envPageWsClearEntry_ok {i : Nat} {s t : Kern} (h : envPageWsClearEntry e i s = .ok () t) :
    i < (s.envs e).pageWSMaxSize ∧ t = s.setEnv e ((s.envs e).clearEntry i) := by
  unfold envPageWsClearEntry at h
  rw [Prog.get_bind_apply, Prog.ite_run] at h
  split at h
  case isTrue => cases h
  case isFalse hi =>
    obtain ⟨-, rfl⟩ := ok_inj.1 h
    exact ⟨Nat.lt_of_not_le hi, rfl⟩

/-- The calls of `replacePage` on a victim that has a frame: only a modified one is written back. -/
theorem replacePage_ok {s t : Kern} {faultVa fi : Nat} {tbl : TablePtr} {perms : Nat}
    (hget : getFrameInfo (s.pageDirectory e) va s = .ok (some (fi, tbl)) s)
    (hperm : ptGetPagePermissions e va s = .ok perms s)
    (hvic : ∃ w, (s.envs e).ptrPageWorkingSet[(s.envs e).pageLastWSIndex]? = some w ∧
      w.virtualAddress = va)
    (h : replacePage e faultVa s = .ok () t) :
    ∃ s₁ s₂ f s₄ s₅, ((modified perms ∧ ∃ r, pfUpdateEnvPage e va fi s = .ok r s₁) ∨
        (¬ modified perms ∧ s₁ = s)) ∧
      unmapFrame (s.pageDirectory e) va s₁ = .ok () s₂ ∧
      allocateFrame (s₂.setEnv e ((s₂.envs e).clearEntry (s.envs e).pageLastWSIndex)) = .ok f s₄ ∧
      mapFrame (s.pageDirectory e) f faultVa (permUser ||| permWriteable) s₄ = .ok () s₅ ∧
      enterFaultingPage e faultVa 1 "invalid access !!!.." s₅ = .ok () t := by
  obtain ⟨w, hw, rfl⟩ := hvic
  unfold replacePage at h
  rw [Prog.get_bind_apply] at h
  dsimp only at h
  rw [hw] at h
  dsimp only at h
  rw [bind_of_ok hget, bind_of_ok hperm, Prog.ite_run] at h
  -- a modified victim is written back first, whatever that answers
  obtain ⟨s₁, hcall, h⟩ : ∃ s₁,
      ((modified perms ∧ ∃ r, pfUpdateEnvPage e w.virtualAddress fi s = .ok r s₁) ∨
        (¬ modified perms ∧ s₁ = s)) ∧ (do
        unmapFrame (s.pageDirectory e) w.virtualAddress
        envPageWsClearEntry e (s.envs e).pageLastWSIndex
        let fi ← allocateFrame
        mapFrame (s.pageDirectory e) fi faultVa (permUser ||| permWriteable)
        enterFaultingPage e faultVa 1 "invalid access !!!.." : K Unit) s₁ = .ok () t := by
    split at h
    case isTrue hmod =>
      obtain ⟨r, s₁, h₁, h⟩ := bind_eq_ok.1 h
      exact ⟨s₁, .inl ⟨hmod, r, h₁⟩, h⟩
    case isFalse hmod => exact ⟨s, .inr ⟨hmod, rfl⟩, h⟩
  obtain ⟨_, s₂, h₂, h⟩ := bind_eq_ok.1 h
  obtain ⟨_, s₃, h₃, h⟩ := bind_eq_ok.1 h
  obtain ⟨-, rfl⟩ := envPageWsClearEntry_ok h₃
  obtain ⟨f, s₄, h₄, h⟩ := bind_eq_ok.1 h
  obtain ⟨_, s₅, h₅, h⟩ := bind_eq_ok.1 h
  exact ⟨s₁, s₂, f, s₄, s₅, hcall, h₂, h₄, h₅, h⟩

/-- The write-back of a page, whether or not it succeeds. -/
theorem StoreInv.writeBack {f : Nat} {r : Int} (hi : StoreInv lay s) (hva : va < userTop)
    (hf : UserFrame s.pages s.kern f) (h : pfUpdateEnvPage e va f s.kern = .ok r k) :
    ∃ m, StoreInv lay ⟨k, s.pages, m⟩ ∧ k.pageDirectory e = s.kern.pageDirectory e ∧
      (s.kern.diskSlot (e, ppn va) = 0 → m (e, ppn va) = none) ∧
      (s.kern.diskSlot (e, ppn va) ≠ 0 → m (e, ppn va) = some (some (s.kern.ram f))) := by
  have hcase := (hi.file.pfUpdateEnvPage hva (hi.pages e) hi.scratch hf (hi.count f hf) h).2
  rcases hcase with ⟨rfl, h0, honly, -⟩ | ⟨rfl, hn, hcopied, -⟩
  · refine ⟨s.store, hi.updateFails hva hf (by decide) h, ?_, fun _ => (hi.shows.absent _).2 h0,
      fun hn => absurd h0 hn⟩
    unfold Kern.pageDirectory
    rw [honly.env e]
  · refine ⟨_, hi.update hva hf h, ?_, fun h0 => absurd h0 hn, fun _ => Store.put_self _⟩
    rw [hcopied]
    rfl

theorem StoreInv.unmapPage_leaf (hi : StoreInv lay s) {dir : DirPtr} (hdir : dir ∈ s.pages)
    (hva : va < userTop) (h : unmapFrame dir va s.kern = .ok () k) :
    k.leaf dir (ppn va) = 0 ∧ k.envs = s.kern.envs := by
  obtain ⟨G, dirs, hpages, hfile⟩ := hi.file
  rw [← hpages] at hdir
  rcases hfile.mem.unmapUser hdir hva h with ⟨rfl, hz⟩ | ⟨-, -, hun⟩
  · exact ⟨hz, rfl⟩
  · refine ⟨?_, hun.envs⟩
    rw [hun.leaf dir hdir _ (pdx_user hva).2, if_pos ⟨rfl, rfl⟩]

/-- A handler that returns had a page directory to follow. -/
theorem Evicts.directory {s t : Kern} {faultVa : Nat} (hev : Evicts s e faultVa va)
    (hlow : ¬ present (s.kernelTable 0)) (h : pageFaultHandler e faultVa s = .ok () t) :
    (s.envs e).envPageDirectory ≠ 0 := by
  intro h0
  obtain ⟨w, hw, -⟩ := hev.victim
  unfold pageFaultHandler at h
  rw [Prog.get_bind_apply, Prog.ite_run, if_neg hev.full] at h
  unfold replacePage at h
  rw [Prog.get_bind_apply] at h
  dsimp only at h
  rw [hw, h0] at h
  obtain ⟨r, s₁, h₁, -⟩ := bind_eq_ok.1 h
  exact getFrameInfo_null hlow _ _ _ h₁

/-- After the handler the victim is not mapped, and the page file holds its contents if it had a
disk frame; if not, it has none now. -/
theorem StoreInv.evict {faultVa : Nat} (hi : StoreInv lay s) (hev : Evicts s.kern e faultVa va)
    (h : pageFaultHandler e faultVa s.kern = .ok () k) :
    k.leaf (s.kern.pageDirectory e) (ppn va) = 0 ∧
      ∃ m, StoreInv lay ⟨k, s.pages, m⟩ ∧ (s.kern.diskSlot (e, ppn va) = 0 → m (e, ppn va) = none) ∧
        (s.kern.diskSlot (e, ppn va) ≠ 0 → m (e, ppn va) =
          some (some (s.kern.ram (ppn (s.kern.leaf (s.kern.pageDirectory e) (ppn va)))))) := by
  obtain ⟨G, dirs, hpages, hfile⟩ := hi.file
  have hpd := hev.directory hfile.low h
  have hdir : s.kern.pageDirectory e ∈ s.pages := hi.pages e hpd
  have hlt := (pdx_user hev.user).2
  have hf : UserFrame s.pages s.kern (ppn (s.kern.leaf (s.kern.pageDirectory e) (ppn va))) :=
    ⟨_, hdir, _, hlt, hev.mapped, rfl⟩
  -- the calls
  have hdir' : s.kern.pageDirectory e ∈ dirs.page := by
    rw [hpages]
    exact hdir
  obtain ⟨tbl, hget⟩ := hfile.mem.getFrameInfo_user hdir' hev.user hev.mapped
  have hperm := hfile.mem.ptGetPagePermissions_user hdir' hev.user hev.mapped
  unfold pageFaultHandler at h
  rw [Prog.get_bind_apply, Prog.ite_run, if_neg hev.full] at h
  obtain ⟨s₁, s₂, f, s₄, s₅, hcall, h₂, h₄, h₅, h₆⟩ := replacePage_ok hget hperm hev.victim h
  have hmod := (modified_permissions _).2 hev.modified
  obtain ⟨-, r, h₁⟩ := hcall.resolve_right fun hc => hc.1 hmod
  -- the victim is written back and unmapped
  obtain ⟨m₁, hi₁, hd₁, habsent, hstored⟩ := hi.writeBack hev.user hf h₁
  have hi₂ := (hi₁.unmapPage hdir hev.user h₂).1
  obtain ⟨hleaf, henvs⟩ := hi₁.unmapPage_leaf hdir hev.user h₂
  have hi₃ : StoreInv lay
      ⟨s₂.setEnv e ((s₂.envs e).clearEntry (s.kern.envs e).pageLastWSIndex), s.pages, m₁⟩ :=
    hi₂.setEnv rfl rfl
  -- the faulting page is another one
  have hd₃ : (s₂.setEnv e ((s₂.envs e).clearEntry (s.kern.envs e).pageLastWSIndex)).pageDirectory e =
      s.kern.pageDirectory e := by
    rw [← hd₁]
    unfold Kern.pageDirectory Kern.setEnv Env.clearEntry
    dsimp only
    rw [Function.update_self, henvs]
  have hpd₃ : ((s₂.setEnv e ((s₂.envs e).clearEntry (s.kern.envs e).pageLastWSIndex)).envs
      e).envPageDirectory ≠ 0 := by
    rw [DirPtr.heap.inj hd₃]
    exact hpd
  rw [← hd₃] at h₅
  obtain ⟨m, hi₄, helse⟩ := hi₃.enterFaultingPage hpd₃ h₄ h₅ h₆
  have hm : m (e, ppn va) = m₁ (e, ppn va) := by
    apply helse.store
    intro he
    exact hev.other (congrArg Prod.snd he)
  refine ⟨?_, m, hi₄, fun h0 => hm.trans (habsent h0), fun hn => hm.trans (hstored hn)⟩
  rw [← hleaf]
  exact helse.leaf _ hdir _ hlt hev.other

theorem StoreInv.keepsVictim_iff {faultVa : Nat} (hi : StoreInv lay s)
    (hev : Evicts s.kern e faultVa va) (h : pageFaultHandler e faultVa s.kern = .ok () k) :
    KeepsVictim s.kern k e va ↔ s.kern.diskSlot (e, ppn va) ≠ 0 := by
  obtain ⟨hleaf, m, him, habsent, hstored⟩ := hi.evict hev h
  constructor
  · intro hkeep h0
    by_cases hfree : s.kern.disk.diskFreeFrameList = []
    · have hstays := (hkeep.stays h0 hfree).1
      rw [hleaf] at hstays
      exact present_ne_zero hev.mapped hstays.symm
    · have hslot := (hkeep.stored (.inr hfree)).1
      exact hslot ((him.shows.absent _).1 (habsent h0))
  · intro hn
    refine ⟨fun _ => ?_, fun h0 => absurd h0 hn⟩
    have hm := hstored hn
    constructor
    · intro h0
      cases hm.symm.trans ((him.shows.absent _).2 h0)
    · exact him.shows.words _ _ hm

end

/-- **An evicted page is kept** exactly when it has a disk frame in the page file already. -/
theorem pageFaultHandler_keeps_iff {c : BootConfig} {s₀ : Kern} {st : KHeapPlacementStrategy}
    {s : FileState} {e faultVa va : Nat} {t : Kern}
    (hboot : fosInitialize (initializePaging c) = .ok () s₀)
    (hrun : ReflTransGen MemoryStep ⟨setStrategy st s₀, [.boot], fun _ => none⟩ s)
    (hev : Evicts s.kern e faultVa va) (h : pageFaultHandler e faultVa s.kern = .ok () t) :
    KeepsVictim s.kern t e va ↔ s.kern.diskSlot (e, ppn va) ≠ 0 :=
  (memoryRun_inv hboot hrun).keepsVictim_iff hev h

/-! ## Two evictions -/

theorem fileKern_run : ∃ m, ReflTransGen MemoryStep
    ⟨setStrategy .firstFit smallBoot, [.boot], fun _ => none⟩
    ⟨fileKern, [.heap (1007620 * 4096), .boot], m⟩ :=
  ⟨_, fileKern_stored.lift id fun _ _ => .store⟩

/-- The page of `va` is the only one in the working set. -/
def residentKern (va : Nat) : Kern :=
  (writtenKern va).setEnv 3 (((writtenKern va).envs 3).setWorkingSet [⟨va, false⟩] 1 0)

theorem resident_run {va : Nat}
    (hva : va = 0xEEBFC000 ∨ va = 0xEEBFD000 ∨ va = userHeapStart) : ∃ m,
    ReflTransGen MemoryStep ⟨setStrategy .firstFit smallBoot, [.boot], fun _ => none⟩
      ⟨residentKern va, [.heap (1007620 * 4096), .boot], m⟩ :=
  ⟨_, .tail ((writtenKern_stored hva).lift id fun _ _ => .store) (.workingSet 3 _ 1 0)⟩

example : present ((residentKern 0xEEBFC000).leaf (.heap (1007620 * 4096)) (ppn 0xEEBFC000)) := by
  decide +kernel

theorem resident_evicts {va : Nat} (hva : va = 0xEEBFC000 ∨ va = 0xEEBFD000) :
    Evicts (residentKern va) 3 0xEEBFB000 va := by
  rcases hva with rfl | rfl
  all_goals exact ⟨by decide +kernel, ⟨_, rfl, rfl⟩, by decide, by decide, by decide +kernel,
    by decide +kernel⟩

theorem resident_handler {va : Nat} (hva : va = 0xEEBFC000 ∨ va = 0xEEBFD000) :
    pageFaultHandler 3 0xEEBFB000 (residentKern va) =
      .ok () (Prog.final (pageFaultHandler 3 0xEEBFB000 (residentKern va))) := by
  rcases hva with rfl | rfl <;> exact Prog.ok_of_value (by decide +kernel)

/-- A stack page that the page file holds is kept. -/
theorem pageFaultHandler_keeps_stack : ∃ t,
    pageFaultHandler 3 0xEEBFB000 (residentKern 0xEEBFC000) = .ok () t ∧
      KeepsVictim (residentKern 0xEEBFC000) t 3 0xEEBFC000 := by
  obtain ⟨m, hrun⟩ := resident_run (.inl rfl)
  have hret := resident_handler (.inl rfl)
  refine ⟨_, hret, ?_⟩
  rw [pageFaultHandler_keeps_iff smallBoot_ok hrun (resident_evicts (.inl rfl)) hret]
  show (residentKern 0xEEBFC000).diskSlot (3, ppn 0xEEBFC000) ≠ 0
  decide +kernel

/-- One that it does not hold is lost. -/
theorem pageFaultHandler_loses : ¬ ∀ (s : FileState) (e faultVa va : Nat) (t : Kern),
    ReflTransGen MemoryStep ⟨setStrategy .firstFit smallBoot, [.boot], fun _ => none⟩ s →
    Evicts s.kern e faultVa va → pageFaultHandler e faultVa s.kern = .ok () t →
    KeepsVictim s.kern t e va := by
  intro hall
  obtain ⟨m, hrun⟩ := resident_run (.inr (.inl rfl))
  have hev := resident_evicts (.inr rfl)
  have hret := resident_handler (.inr rfl)
  have hkeep := hall _ 3 0xEEBFB000 0xEEBFD000 _ hrun hev hret
  rw [(memoryRun_inv smallBoot_ok hrun).keepsVictim_iff hev hret] at hkeep
  have hslot : (residentKern 0xEEBFD000).diskSlot (3, ppn 0xEEBFD000) = 0 := by decide +kernel
  exact hkeep hslot

end Fos
