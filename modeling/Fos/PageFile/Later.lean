import Fos.PageFile.MemoryRuns

/-!
# What a page of the file keeps

While a page stays in the page file it keeps its disk frame, whatever the other calls do. The blocks
that these calls take from the kernel heap are never empty.
-/

namespace Fos

open Function (update)
open Prog (bind_eq_ok ok_inj Keeps)
open Relation (ReflTransGen)

/-- No block in use is empty. -/
def Heap.BlocksPositive (h : Heap) : Prop := ∀ b ∈ h.blockInfoTakenList, 0 < b.size

section

variable {lay : Layout} {G D : Set Nat} {dirs : Roots} {held : Set Nat} {s t : FileState}
  {k k' : Kern} {e f n va : Nat} {r : Int} {o : Option Nat} {x : Nat × Nat}

/-! ## Slots -/

theorem Adds.keeps {words : Nat → Nat → Nat → Nat} {y : Nat × Nat} (ha : Adds y words k k' r)
    (hx : k.diskSlot x ≠ 0) : k'.diskSlot x = k.diskSlot x := by
  cases ha with
  | full _ _ hs => rw [hs]
  | done _ hold hs _ =>
    rw [hs]
    by_cases hxy : x = y
    · rw [hxy] at hx ⊢
      rw [Function.update_self, hold hx]
    · exact Function.update_of_ne hxy _ _

theorem ClearsSlots.keeps {X : Set (Nat × Nat)} (hc : ClearsSlots X k k') (hx : k'.diskSlot x ≠ 0) :
    k'.diskSlot x = k.diskSlot x := by
  apply hc.other
  intro hmem
  exact hx (hc.cleared x hmem)

theorem StoreStep.slot (hi : StoreInv lay s) (h : StoreStep s t) (hs : s.kern.diskSlot x ≠ 0)
    (ht : t.kern.diskSlot x ≠ 0) : t.kern.diskSlot x = s.kern.diskSlot x := by
  cases h with
  | newEnv h0 h₁ hd h₂ h₃ henv hdisk => exact congrFun (hi.newEnv h0 h₁ hd h₂ h₃ henv hdisk).2 x
  | mirror hdir hpos hn hz h₁ hws h₂ => exact congrFun (hi.mirror hdir hpos hn hz h₁ hws h₂).1.2 x
  | mapPage hdir hva hz hperm h₁ h₂ => exact congrFun (hi.placePage hdir hva hperm h₁ h₂).1.2 x
  | sharePage hdir hva hz hperm hf hlt h =>
    exact congrFun (hi.sharePage hdir hva hz hperm hf hlt h).2 x
  | unmapPage hdir hva h => exact congrFun (hi.unmapPage hdir hva h).2 x
  | write hdir hva hpr h => exact congrFun (hi.write hdir hva hpr h).2 x
  | read hva hpd hpr h => exact congrFun (hi.read hva hpd hpr h).2 x
  | add hva h => exact (hi.file.pfAddEnvPage hva h).2.2.keeps hs
  | addEmpty hva h => exact (hi.file.pfAddEmptyEnvPage hva h).2.2.keeps hs
  | update hva hf h =>
    rcases (hi.file.pfUpdateEnvPage hva (hi.pages _) hi.scratch hf (hi.count _ hf) h).2 with
      ⟨-, -, -, -, hslot, -⟩ | ⟨-, -, -, hslot, -⟩ <;> exact congrFun hslot x
  | updateFails hva hf _ h =>
    rcases (hi.file.pfUpdateEnvPage hva (hi.pages _) hi.scratch hf (hi.count _ hf) h).2 with
      ⟨-, -, -, -, hslot, -⟩ | ⟨-, -, -, hslot, -⟩ <;> exact congrFun hslot x
  | remove hva h => exact (hi.file.pfRemoveEnvPage hva h).2.2.keeps ht

/-- **A page keeps its disk frame** while it is in the file. -/
theorem MemoryStep.slot (hi : StoreInv lay s) (h : MemoryStep s t) (hs : s.store x ≠ none)
    (ht : t.store x ≠ none) : t.kern.diskSlot x = s.kern.diskSlot x := by
  have hs' : s.kern.diskSlot x ≠ 0 := fun h0 => hs ((hi.shows.absent x).2 h0)
  have ht' : t.kern.diskSlot x ≠ 0 := fun h0 => ht (((h.inv hi).shows.absent x).2 h0)
  cases h with
  | store h => exact h.slot hi hs' ht'
  | addFails hva h => exact (hi.file.pfAddEnvPage hva h).2.2.keeps hs'
  | addEmptyFails hva h => exact (hi.file.pfAddEmptyEnvPage hva h).2.2.keeps hs'
  | freeEnv hd h => exact (hi.file.pfFreeEnv hd h).2.2.keeps ht'
  | workingSet e ws maxSize lastIndex =>
    obtain ⟨G, dirs, -, h⟩ := hi.file
    have hdisk : ((s.kern.envs e).setWorkingSet ws maxSize lastIndex).diskEnvPgdir =
        (s.kern.envs e).diskEnvPgdir := rfl
    exact congrFun (h.setEnv hdisk).2 x

/-! ## Blocks of the kernel heap -/

theorem TakesPage.positive (ht : TakesPage k k') (h : MemOk lay G D dirs held k)
    (hpos : k.heap.BlocksPositive) : k'.heap.BlocksPositive := by
  intro b hb
  rcases (ht.taken h).2 with he | ⟨c, hsize, hperm⟩
  · rw [he] at hb
    exact hpos b hb
  · rcases List.mem_cons.1 (hperm.mem_iff.1 hb) with rfl | hb
    · rw [hsize]
      decide
    · exact hpos b hb

theorem writeWord_heap (a w : Nat) : Keeps Kern.heap (writeWord a w) :=
  fun _ _ _ hk => (bookkeeping_eq (writeWord_keeps _ _ _ _ _ hk)).1

theorem MemOk.kmalloc_zero {size : Nat} (h : MemOk lay G D dirs held k)
    (hk : Fos.kmalloc size k = .ok 0 k') : k' = k := by
  rcases h.kmalloc hk with ⟨-, rfl⟩ | ⟨b, hb, hstart, -⟩
  · rfl
  · have := hb.start_le
    rw [hstart] at this
    exact absurd this (by decide)

theorem getDiskPageDirectory_takes (h : MemOk lay G D dirs held k)
    (hk : getDiskPageDirectory e k = .ok r k') : TakesPage k k' := by
  rw [getDiskPageDirectory, Prog.get_bind_apply, Prog.ite_run] at hk
  split at hk
  case isFalse =>
    obtain ⟨-, rfl⟩ := ok_inj.1 hk
    exact .inl rfl
  case isTrue =>
    obtain ⟨d, k₁, hkm, hk⟩ := bind_eq_ok.1 hk
    rw [Prog.modify_bind_apply, Prog.ite_run] at hk
    split at hk
    case isTrue h0 =>
      obtain ⟨-, rfl⟩ := ok_inj.1 hk
      rw [h0] at hkm
      rw [h.kmalloc_zero hkm]
      exact .inl rfl
    case isFalse hne =>
      obtain ⟨pa, k₂, hpa, hk⟩ := bind_eq_ok.1 hk
      obtain ⟨_, k₃, hzero, hk⟩ := bind_eq_ok.1 hk
      obtain ⟨-, rfl⟩ := ok_inj.1 hk
      have h₂ := (bookkeeping_eq (kheapPhysicalAddress_keeps _ _ _ _ hpa)).1
      have h₃ := (bookkeeping_eq (zeroWords_keeps _ _ _ _ _ hzero)).1
      exact .inr ⟨d, k₁, hne, hkm, h₃.trans h₂⟩

theorem getDiskPageTable_takes {create : Bool} {d a : Nat} (h : MemOk lay G D dirs held k)
    (hk : getDiskPageTable d va create k = .ok a k') : TakesPage k k' := by
  obtain ⟨pde, k₁, hread, hrest⟩ := bind_eq_ok.1 hk
  have hsame : id k₁ = id k := readWord_keeps _ _ _ _ hread
  rw [show k₁ = k from hsame] at hrest
  clear hk
  -- every return but the last comes before anything is written
  have hstop : ∀ (b : Nat), (pure b : K Nat) k = .ok a k' → TakesPage k k' := by
    intro b hb
    obtain ⟨-, rfl⟩ := ok_inj.1 hb
    exact .inl rfl
  rename' hrest => hk
  rw [Prog.ite_run] at hk
  split at hk
  case isFalse =>
    rw [Prog.ite_run] at hk
    split at hk
    · exact hstop _ hk
    · rw [Prog.get_bind_apply] at hk
      exact hstop _ hk
  case isTrue =>
    rw [Prog.ite_run] at hk
    split at hk
    case isFalse => exact hstop _ hk
    case isTrue =>
      obtain ⟨t, k₂, hkm, hk⟩ := bind_eq_ok.1 hk
      rw [Prog.ite_run] at hk
      split at hk
      case isTrue h0 =>
        obtain ⟨-, rfl⟩ := ok_inj.1 hk
        rw [h0] at hkm
        rw [h.kmalloc_zero hkm]
        exact .inl rfl
      case isFalse hne =>
        obtain ⟨pa, k₃, hpa, hk⟩ := bind_eq_ok.1 hk
        obtain ⟨_, k₄, hwrite, hk⟩ := bind_eq_ok.1 hk
        obtain ⟨_, k₅, hzero, hk⟩ := bind_eq_ok.1 hk
        obtain ⟨-, rfl⟩ := ok_inj.1 hk
        -- the page of the table is taken, and the rest touches no block
        have h₃ := (bookkeeping_eq (kheapPhysicalAddress_keeps _ _ _ _ hpa)).1
        have h₄ := writeWord_heap _ _ _ _ _ hwrite
        have h₅ := (bookkeeping_eq (zeroWords_keeps _ _ _ _ _ hzero)).1
        exact .inr ⟨t, k₂, hne, hkm, (h₅.trans h₄).trans h₃⟩

/-- A look at a table changes nothing. -/
theorem getDiskPageTable_look {d a : Nat} (hk : getDiskPageTable d va false k = .ok a k') :
    k' = k := by
  obtain ⟨pde, k₁, hread, hrest⟩ := bind_eq_ok.1 hk
  have hsame : id k₁ = id k := readWord_keeps _ _ _ _ hread
  rw [show k₁ = k from hsame, Prog.ite_run] at hrest
  split at hrest
  · rw [Prog.ite_run, if_neg Bool.false_ne_true] at hrest
    exact (ok_inj.1 hrest).2.symm
  · rw [Prog.ite_run] at hrest
    split at hrest
    · exact (ok_inj.1 hrest).2.symm
    · rw [Prog.get_bind_apply] at hrest
      exact (ok_inj.1 hrest).2.symm

theorem allocateDiskFrame_heap : Keeps Kern.heap allocateDiskFrame := by
  intro s o t hk
  rw [allocateDiskFrame, Prog.get_bind_apply] at hk
  cases hfree : s.disk.diskFreeFrameList with
  | nil =>
    rw [hfree] at hk
    obtain ⟨-, rfl⟩ := ok_inj.1 hk
    rfl
  | cons dfn rest =>
    rw [hfree] at hk
    obtain ⟨-, rfl⟩ := ok_inj.1 hk
    rfl

theorem FileOk.pfDiskFrame_positive (h : FileOk lay G D dirs held k) (hpos : k.heap.BlocksPositive)
    (hk : Fos.pfDiskFrame e va k = .ok o k') : k'.heap.BlocksPositive := by
  rw [Fos.pfDiskFrame, Prog.ite_run] at hk
  split at hk
  case isTrue => cases hk
  case isFalse =>
    obtain ⟨_, k₁, h₁, hk⟩ := bind_eq_ok.1 hk
    rw [Prog.get_bind_apply] at hk
    obtain ⟨a, k₂, h₂, hk⟩ := bind_eq_ok.1 hk
    obtain ⟨G', dirs', -, hok, -⟩ := h.getDiskPageDirectory h₁
    have hpos₁ := (getDiskPageDirectory_takes h.mem h₁).positive h.mem hpos
    have hpos₂ := (getDiskPageTable_takes hok.mem h₂).positive hok.mem hpos₁
    -- the rest writes at most the word of the page
    have hheap : k'.heap = k₂.heap := by
      refine Keeps.bind (readWord_keeps _) (fun dfn => .ite (.bind allocateDiskFrame_heap fun o => ?_)
        (.pure _)) _ _ _ hk
      cases o with
      | none => exact .pure _
      | some dfn => exact .bind (writeWord_heap _ _) fun _ => .pure _
    rw [Heap.BlocksPositive, hheap]
    exact hpos₂

theorem FileOk.pfAddEnvPage_positive {dataSrc : Nat → Nat} (h : FileOk lay G D dirs held k)
    (hpos : k.heap.BlocksPositive) (hk : Fos.pfAddEnvPage e va dataSrc k = .ok r k') :
    k'.heap.BlocksPositive := by
  obtain ⟨o, k₁, h₁, hk⟩ := bind_eq_ok.1 hk
  have hpos₁ := h.pfDiskFrame_positive hpos h₁
  cases o with
  | none =>
    obtain ⟨-, rfl⟩ := ok_inj.1 hk
    exact hpos₁
  | some dfn =>
    obtain ⟨-, rfl⟩ := ok_inj.1 hk
    exact hpos₁

theorem FileOk.pfAddEmptyEnvPage_positive {init : Nat} (h : FileOk lay G D dirs held k)
    (hpos : k.heap.BlocksPositive) (hk : Fos.pfAddEmptyEnvPage e va init k = .ok r k') :
    k'.heap.BlocksPositive := by
  rw [Fos.pfAddEmptyEnvPage, Prog.ite_run] at hk
  split at hk
  case isTrue =>
    rw [Prog.get_bind_apply] at hk
    exact h.pfAddEnvPage_positive hpos hk
  case isFalse =>
    obtain ⟨o, k₁, h₁, hk⟩ := bind_eq_ok.1 hk
    have hpos₁ := h.pfDiskFrame_positive hpos h₁
    cases o with
    | none =>
      obtain ⟨-, rfl⟩ := ok_inj.1 hk
      exact hpos₁
    | some dfn =>
      obtain ⟨-, rfl⟩ := ok_inj.1 hk
      exact hpos₁

theorem writeFrame_takes {dir : DirPtr} (hk : writeFrame dir n f k = .ok () k') :
    TakesPage k k' := by
  obtain ⟨_, k₁, hmap, hk⟩ := bind_eq_ok.1 hk
  rw [Prog.get_bind_apply, Prog.ite_run] at hk
  split at hk
  case isFalse => cases hk
  case isTrue =>
    obtain ⟨_, k₂, h₂, hk⟩ := bind_eq_ok.1 hk
    obtain ⟨-, rfl⟩ := ok_inj.1 h₂
    rw [Prog.modify_bind_apply] at hk
    obtain ⟨_, k₃, h₃, hk⟩ := bind_eq_ok.1 hk
    obtain ⟨-, rfl⟩ := ok_inj.1 hk
    exact (mapFrame_takes hmap).congr (bookkeeping_eq (unmapFrame_keeps _ _ _ _ _ h₃)).1

theorem FileOk.pfUpdateEnvPage_positive (h : FileOk lay G D dirs held k)
    (hpos : k.heap.BlocksPositive) (hk : Fos.pfUpdateEnvPage e va f k = .ok r k') :
    k'.heap.BlocksPositive := by
  rw [Fos.pfUpdateEnvPage, Prog.ite_run] at hk
  split at hk
  case isTrue => cases hk
  case isFalse =>
    obtain ⟨_, k₁, h₁, hk⟩ := bind_eq_ok.1 hk
    rw [Prog.get_bind_apply] at hk
    obtain ⟨a, k₂, h₂, hk⟩ := bind_eq_ok.1 hk
    obtain ⟨G', dirs', -, hok, -⟩ := h.getDiskPageDirectory h₁
    have hpos₁ := (getDiskPageDirectory_takes h.mem h₁).positive h.mem hpos
    -- the table is looked up only
    have hsame : k₂ = k₁ := getDiskPageTable_look h₂
    rw [hsame] at hk
    rw [Prog.ite_run] at hk
    split at hk
    · obtain ⟨-, rfl⟩ := ok_inj.1 hk
      exact hpos₁
    · obtain ⟨dfn, k₃, h₃, hk⟩ := bind_eq_ok.1 hk
      have hread : id k₃ = id k₁ := readWord_keeps _ _ _ _ h₃
      rw [show k₃ = k₁ from hread, Prog.ite_run] at hk
      split at hk
      · obtain ⟨-, rfl⟩ := ok_inj.1 hk
        exact hpos₁
      · rw [Prog.get_bind_apply] at hk
        obtain ⟨_, k₄, h₄, hk⟩ := bind_eq_ok.1 hk
        obtain ⟨-, rfl⟩ := ok_inj.1 hk
        exact (writeFrame_takes h₄).positive hok.mem hpos₁

theorem writeUserPage_heap (dir : DirPtr) (page : Nat → Nat) :
    Keeps Kern.heap (writeUserPage dir va page) := by
  intro s _ t hk
  rw [writeUserPage, Prog.get_bind_apply] at hk
  cases hw : s.walk dir va with
  | none =>
    rw [hw] at hk
    cases hk
  | some w =>
    rw [hw] at hk
    obtain ⟨-, rfl⟩ := ok_inj.1 hk
    rfl

theorem writePte_heap (tbl : TablePtr) (i w : Nat) : Keeps Kern.heap (writePte tbl i w) :=
  fun _ _ _ hk => (bookkeeping_eq (writePte_keeps _ _ _ _ _ _ hk)).1

theorem pfReadEnvPage_heap (curenv : Nat) : Keeps Kern.heap (pfReadEnvPage curenv e va) := by
  refine .get_bind fun s => .ite (.pure _) (.get_bind fun s => .bind ?_ fun a => .ite (.pure _)
    (.bind (readWord_keeps _) fun dfn => .ite (.pure _) (.get_bind fun s => .get_bind fun s =>
      .bind (writeUserPage_heap _ _) fun _ => .bind ?_ fun _ => .pure _)))
  · exact fun _ _ _ hk => congrArg Kern.heap (getDiskPageTable_look hk)
  · refine .get_bind fun s => .bind (readPde_keeps _ _) fun pde => .ite (.get_bind fun s => ?_)
      (.ite (.throw _) (.throw _))
    exact .bind (readPte_keeps _ _) fun _ => .bind (writePte_heap _ _ _) fun _ =>
      .bind (readPte_keeps _ _) fun _ => writePte_heap _ _ _

theorem freeDiskFrame_heap (dfn : Nat) : Keeps Kern.heap (freeDiskFrame dfn) :=
  .ite (.pure _) (.modify fun _ => rfl)

theorem pfRemoveEnvPage_heap : Keeps Kern.heap (pfRemoveEnvPage e va) := by
  refine .get_bind fun s => .ite (.pure _) (.get_bind fun s => .bind ?_ fun a => .ite (.pure _)
    (.bind (readWord_keeps _) fun dfn => .bind (writeWord_heap _ _) fun _ => freeDiskFrame_heap _))
  exact fun _ _ _ hk => congrArg Kern.heap (getDiskPageTable_look hk)

theorem listDirectory_heap (d cr3 : Nat) : Keeps Kern.heap (listDirectory d cr3) :=
  .bind (writePde_keeps _ _) fun _ => writePde_keeps _ _

theorem FileOk.pfFreeEnv_positive (h : FileOk lay G D dirs held k)
    (hd : (k.envs e).diskEnvPgdir ≠ 0) (hpos : k.heap.BlocksPositive)
    (hk : Fos.pfFreeEnv e k = .ok () k') : k'.heap.BlocksPositive := by
  rw [Fos.pfFreeEnv, show pdx userTop = 955 by rfl] at hk
  obtain ⟨_, k₁, h₁, hk⟩ := bind_eq_ok.1 hk
  obtain ⟨-, -, -, -, -, hback⟩ := h.freeDiskTables (by omega) hd h₁
  rw [Prog.get_bind_apply] at hk
  obtain ⟨_, k₂, h₂, hk⟩ := bind_eq_ok.1 hk
  obtain ⟨-, rfl⟩ := ok_inj.1 hk
  exact fun b hb => hpos b (hback.taken b (kfree_taken h₂ b hb))

/-- **The blocks in use stay positive.** -/
theorem MemoryStep.positive (hi : StoreInv lay s) (h : MemoryStep s t)
    (hpos : s.kern.heap.BlocksPositive) : t.kern.heap.BlocksPositive := by
  obtain ⟨G, dirs, hpages, hfile⟩ := hi.file
  -- most steps leave the heap's lists alone
  have hsame : ∀ {k : Kern}, k.heap = s.kern.heap → k.heap.BlocksPositive := by
    intro k hk
    rw [hk]
    exact hpos
  cases h with
  | addFails hva h => exact hfile.pfAddEnvPage_positive hpos h
  | addEmptyFails hva h => exact hfile.pfAddEmptyEnvPage_positive hpos h
  | freeEnv hd h => exact hfile.pfFreeEnv_positive hd hpos h
  | workingSet e ws maxSize lastIndex => exact hpos
  | store h =>
    cases h with
    | newEnv h0 h₁ hd h₂ h₃ henv hdisk =>
      have ht : TakesPage s.kern _ := .inr ⟨_, _, hd, h₁, rfl⟩
      have hpos₁ := ht.positive hfile.mem hpos
      rw [← initializeDirectory_heap h₂, ← listDirectory_heap _ _ _ _ _ h₃] at hpos₁
      exact hpos₁
    | mirror hdir hsome hn hz h₁ hws h₂ =>
      obtain ⟨-, dirs, -, hmir⟩ := hi.mirror hdir hsome hn hz h₁ hws h₂
      exact fun b hb => (hmir.taken b hb).elim (hpos b) id
    | mapPage hdir hva hz hperm h₁ h₂ =>
      obtain ⟨hok₁, -⟩ := hfile.mem.allocateFrame h₁
      exact (mapFrame_takes h₂).positive hok₁
        (hsame (bookkeeping_eq (allocateFrame_keeps _ _ _ h₁)).1)
    | sharePage hdir hva hz hperm hf hlt h => exact (mapFrame_takes h).positive hfile.mem hpos
    | unmapPage hdir hva h => exact hsame (bookkeeping_eq (unmapFrame_keeps _ _ _ _ _ h)).1
    | write hdir hva hpr h => exact hsame (writeUserPage_heap _ _ _ _ _ h)
    | add hva h => exact hfile.pfAddEnvPage_positive hpos h
    | addEmpty hva h => exact hfile.pfAddEmptyEnvPage_positive hpos h
    | update hva hf h => exact hfile.pfUpdateEnvPage_positive hpos h
    | updateFails hva hf hr h => exact hfile.pfUpdateEnvPage_positive hpos h
    | read hva hpd hpr h => exact hsame (pfReadEnvPage_heap _ _ _ _ h)
    | remove hva h => exact hsame (pfRemoveEnvPage_heap _ _ _ h)

end

end Fos
