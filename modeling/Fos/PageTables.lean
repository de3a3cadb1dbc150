import Fos.KernelHeap.Pages

/-!
# Page-table entries

A page-table entry is a table and an index. This module says what `map_frame` and `unmap_frame` do
to the one entry they are about, for the tables built at boot and for the tables on the kernel heap
alike, once the table of the address is known.
-/

namespace Fos

open Function (update)
open Prog (bind_eq_ok bind_run map_run ok_inj)

/-! ## Entries -/

/-- An entry of a page table. -/
abbrev Slot := TablePtr × Nat

/-- The frame that backs page `p` of the kernel space. -/
def Kern.kframe (s : Kern) (p : Nat) : Nat := ppn (s.kernelTable p)

/-- The word of a page-table entry. A table on the heap is a page of 1024 words. -/
def Kern.entry (s : Kern) : Slot → Nat
  | (.boot d, i) => s.kernelTable (d * 1024 + i)
  | (.directory, i) => s.kernelDirectory i
  | (.heap t, i) => s.ram (s.frameAt t) i

/-- `s` after the entry is overwritten. The boot directory is not written as a table. -/
def Kern.setEntry (s : Kern) : Slot → Nat → Kern
  | (.boot d, i), w => s.setKernelTable (d * 1024 + i) w
  | (.directory, _), _ => s
  | (.heap t, i), w => s.store (s.frameAt t) i w

/-- The word of a directory entry. -/
def Kern.pde (s : Kern) : DirPtr → Nat → Nat
  | .boot, i => s.kernelDirectory i
  | .heap d, i => s.ram (s.frameAt d) i

/-- `s` after the directory entry is overwritten. -/
def Kern.setPde (s : Kern) : DirPtr → Nat → Nat → Kern
  | .boot, i, w => s.setKernelDirectory i w
  | .heap d, i, w => s.store (s.frameAt d) i w

/-- The table that entry `i` of a directory names, below `USER_TOP`. -/
def Kern.table (s : Kern) (dir : DirPtr) (i : Nat) : Option Nat :=
  if present (s.pde dir i) then some (kheapVirtualAddress s (extractAddress (s.pde dir i)))
  else none

/-- The entry of page `p` of the kernel space. -/
def bootSlot (p : Nat) : Slot := (.boot (p / 1024), p % 1024)

@[simp] theorem entry_bootSlot (s : Kern) (p : Nat) : s.entry (bootSlot p) = s.kernelTable p := by
  unfold bootSlot Kern.entry
  dsimp only
  rw [show p / 1024 * 1024 + p % 1024 = p by omega]

@[simp] theorem setEntry_bootSlot (s : Kern) (p w : Nat) :
    s.setEntry (bootSlot p) w = s.setKernelTable p w := by
  unfold bootSlot Kern.setEntry
  dsimp only
  rw [show p / 1024 * 1024 + p % 1024 = p by omega]

theorem slot_eq_bootSlot {d i : Nat} (hi : i < 1024) :
    ((.boot d, i) : Slot) = bootSlot (d * 1024 + i) := by
  unfold bootSlot
  rw [show (d * 1024 + i) / 1024 = d by omega, show (d * 1024 + i) % 1024 = i by omega]

theorem bootSlot_inj {p q : Nat} (h : bootSlot p = bootSlot q) : p = q := by
  unfold bootSlot at h
  rw [Prod.mk.injEq, TablePtr.boot.injEq] at h
  omega

/-! ## What an update leaves alone -/

section

variable (s : Kern) (x : Slot) (w f i : Nat)

@[simp] theorem setEntry_frames : (s.setEntry x w).frames = s.frames := by
  rcases x with ⟨_ | _ | _, _⟩ <;> rfl

@[simp] theorem setEntry_kernelDirectory :
    (s.setEntry x w).kernelDirectory = s.kernelDirectory := by
  rcases x with ⟨_ | _ | _, _⟩ <;> rfl

@[simp] theorem setEntry_heap : (s.setEntry x w).heap = s.heap := by
  rcases x with ⟨_ | _ | _, _⟩ <;> rfl

@[simp] theorem setEntry_disk : (s.setEntry x w).disk = s.disk := by
  rcases x with ⟨_ | _ | _, _⟩ <;> rfl

@[simp] theorem setEntry_envs : (s.setEntry x w).envs = s.envs := by
  rcases x with ⟨_ | _ | _, _⟩ <;> rfl

@[simp] theorem setEntry_shares : (s.setEntry x w).shares = s.shares := by
  rcases x with ⟨_ | _ | _, _⟩ <;> rfl

@[simp] theorem setFrames_entry (fr : Frames) : (s.setFrames fr).entry x = s.entry x := by
  rcases x with ⟨_ | _ | _, _⟩ <;> rfl

theorem store_ram (g j : Nat) :
    (s.store f i w).ram g j = if g = f ∧ j = i then w else s.ram g j := by
  unfold Kern.store
  dsimp only
  by_cases hg : g = f
  · subst hg
    by_cases hj : j = i
    · subst hj
      simp
    · simp [hj]
  · simp [hg]

end

/-- The directory entry and what it says do not depend on the frame counts. -/
@[simp] theorem setFrames_pde (s : Kern) (fr : Frames) (dir : DirPtr) (i : Nat) :
    (s.setFrames fr).pde dir i = s.pde dir i := by
  cases dir <;> rfl

/-! ## Tables that can be read and written -/

/-- The table can be read and written: it was built at boot, or its pointer is a page the kernel
maps. -/
def Kern.Reach (s : Kern) : TablePtr → Prop
  | .boot _ => True
  | .directory => False
  | .heap t => t ≠ 0 ∧ t % 4096 = 0 ∧ s.Mapped t

theorem word_page {s : Kern} {t i : Nat} (ht : t % 4096 = 0) (hi : i < 1024) :
    (s.Mapped (t + 4 * i) ↔ s.Mapped t) ∧ s.frameAt (t + 4 * i) = s.frameAt t ∧
      (t + 4 * i) % 4096 / 4 = i := by
  have hp : ppn (t + 4 * i) = ppn t := by unfold ppn; omega
  unfold Kern.Mapped Kern.frameAt
  rw [hp]
  exact ⟨Iff.rfl, rfl, by omega⟩

theorem readWord_page {s : Kern} {t i : Nat} (ht : t % 4096 = 0) (hi : i < 1024)
    (hm : s.Mapped t) : readWord (t + 4 * i) s = .ok (s.ram (s.frameAt t) i) s := by
  obtain ⟨h1, h2, h3⟩ := word_page (s := s) ht hi
  simp [readWord, h1.2 hm, Kern.word, h2, h3]

theorem readWord_unmapped {s : Kern} {va : Nat} (hm : ¬ s.Mapped va) :
    readWord va s = .error .fault s := by
  simp [readWord, hm]

theorem writeWord_page {s : Kern} {t i w : Nat} (ht : t % 4096 = 0) (hi : i < 1024)
    (hm : s.Mapped t) : writeWord (t + 4 * i) w s = .ok () (s.store (s.frameAt t) i w) := by
  obtain ⟨h1, h2, h3⟩ := word_page (s := s) ht hi
  simp [writeWord, h1.2 hm, h2, h3]

theorem readPte_reach {s : Kern} {t : TablePtr} {i : Nat} (ht : s.Reach t) (hi : i < 1024) :
    readPte t i s = .ok (s.entry (t, i)) s := by
  cases t with
  | boot d => rfl
  | directory => exact ht.elim
  | heap t => exact readWord_page ht.2.1 hi ht.2.2

theorem writePte_reach {s : Kern} {t : TablePtr} {i w : Nat} (ht : s.Reach t) (hi : i < 1024) :
    writePte t i w s = .ok () (s.setEntry (t, i) w) := by
  cases t with
  | boot d => rfl
  | directory => exact ht.elim
  | heap t => exact writeWord_page ht.2.1 hi ht.2.2

theorem Kern.Reach.setEntry {s : Kern} {t : TablePtr} (ht : s.Reach t) (i w : Nat) :
    (s.setEntry (t, i) w).Reach t := by
  cases t with
  | boot d => trivial
  | directory => exact ht.elim
  | heap t => exact ht

theorem Kern.Reach.setFrames {s : Kern} {t : TablePtr} (ht : s.Reach t) (fr : Frames) :
    (s.setFrames fr).Reach t := by
  cases t with
  | boot d => trivial
  | directory => exact ht.elim
  | heap t => exact ht

/-- The directory pointer is a page the kernel maps. -/
def Kern.ReachDir (s : Kern) : DirPtr → Prop
  | .boot => True
  | .heap d => d % 4096 = 0 ∧ s.Mapped d

theorem readPde_reach {s : Kern} {dir : DirPtr} {i : Nat} (hd : s.ReachDir dir) (hi : i < 1024) :
    readPde dir i s = .ok (s.pde dir i) s := by
  cases dir with
  | boot => rfl
  | heap d => exact readWord_page hd.1 hi hd.2

theorem writePde_reach {s : Kern} {dir : DirPtr} {i w : Nat} (hd : s.ReachDir dir)
    (hi : i < 1024) : writePde dir i w s = .ok () (s.setPde dir i w) := by
  cases dir with
  | boot => rfl
  | heap d => exact writeWord_page hd.1 hi hd.2

theorem pdx_lt (va : Nat) : pdx va < 1024 := by unfold pdx; omega

theorem ptx_lt (va : Nat) : ptx va < 1024 := by unfold ptx; omega

/-! ## Finding the table -/

theorem getPageTable_present {s : Kern} {dir : DirPtr} {va : Nat} (hd : s.ReachDir dir)
    (hp : present (s.pde dir (pdx va))) (hb : ¬ s.tableBeyond va (s.pde dir (pdx va))) :
    getPageTable dir va s = .ok (some (tableOf s va (s.pde dir (pdx va)))) s :=
  getPageTable_of_present (readPde_reach hd (pdx_lt va)) hp hb

theorem getPageTable_zero {s : Kern} {dir : DirPtr} {va : Nat} (hd : s.ReachDir dir)
    (hz : s.pde dir (pdx va) = 0) : getPageTable dir va s = .ok none s :=
  getPageTable_of_zero (by rw [readPde_reach hd (pdx_lt va), hz])

/-- Below `USER_TOP` a directory entry is present or zero, and the table is the one it names. -/
theorem getPageTable_user {s : Kern} {dir : DirPtr} {va : Nat} (hd : s.ReachDir dir)
    (hva : va < userTop) (hz : ¬ present (s.pde dir (pdx va)) → s.pde dir (pdx va) = 0) :
    getPageTable dir va s = .ok ((s.table dir (pdx va)).map .heap) s := by
  unfold Kern.table
  by_cases hp : present (s.pde dir (pdx va))
  · have hnk : ¬ checkIfKernelAddress va := by unfold checkIfKernelAddress; omega
    rw [getPageTable_present hd hp (not_tableBeyond_user _ hnk), if_pos hp, tableOf_user _ hnk]
    rfl
  · rw [getPageTable_zero hd (hz hp), if_neg hp]
    rfl

/-! ## One entry -/

/-- `s` after frame `f` is entered at `x`, which mapped nothing, for the address `va`. -/
def Kern.mapSlot (s : Kern) (x : Slot) (f va perm : Nat) : Kern :=
  (s.setFrames (s.frames.addReference f va)).setEntry x (entryOf f perm)

/-- `s` after the frame at `x` is given up. -/
def Kern.unmapSlot (s : Kern) (x : Slot) : Kern :=
  (s.setFrames (s.frames.decrementReferences (ppn (s.entry x)))).setEntry x 0

/-- `unmap_frame` where the table is known. -/
theorem unmapFrame_slot {s : Kern} {dir : DirPtr} {va : Nat} {t : TablePtr}
    (hget : getPageTable dir va s = .ok (some t) s) (ht : s.Reach t) :
    unmapFrame dir va s =
      if s.entry (t, ptx va) = 0 then .ok () s
      else if s.frames.numberOfFrames ≤ ppn (s.entry (t, ptx va)) then
        .error (.panic "to_frame_info called with invalid pa=%x\n") s
      else .ok () (s.unmapSlot (t, ptx va)) := by
  have hnull : t ≠ .null := by
    cases t with
    | boot d => simp [TablePtr.null]
    | directory => simp [TablePtr.null]
    | heap t => simpa [TablePtr.null] using ht.1
  have hread := readPte_reach ht (ptx_lt va)
  by_cases h0 : s.entry (t, ptx va) = 0
  · simp [unmapFrame, getFrameInfo, bind_run, hget, hnull, hread, h0]
  · by_cases hf : s.frames.numberOfFrames ≤ ppn (s.entry (t, ptx va))
    · simp [unmapFrame, getFrameInfo, bind_run, map_run, hget, hnull, hread, h0, toFrameInfo,
        ppn_extractAddress, hf]
    · have hwrite := writePte_reach (w := 0)
        (ht.setFrames (s.frames.decrementReferences (ppn (s.entry (t, ptx va))))) (ptx_lt va)
      simp [unmapFrame, getFrameInfo, bind_run, map_run, hget, hnull, hread, h0, toFrameInfo,
        ppn_extractAddress, hf, hwrite, Kern.unmapSlot]

/-- `unmap_frame` where the table does not exist. -/
theorem unmapFrame_none {s : Kern} {dir : DirPtr} {va : Nat}
    (hget : getPageTable dir va s = .ok none s) : unmapFrame dir va s = .ok () s := by
  simp [unmapFrame, getFrameInfo, bind_run, hget]

/-- What `map_frame` did to the entry: it mapped the frame already, or it mapped none, or it gave
up the frame it mapped. -/
inductive Remap (s : Kern) (x : Slot) (f va perm : Nat) : Kern → Prop
  | same (hp : present (s.entry x)) (hf : ppn (s.entry x) = f) : Remap s x f va perm s
  | new (hp : ¬ present (s.entry x)) : Remap s x f va perm (s.mapSlot x f va perm)
  | other (hp : present (s.entry x)) (hf : ppn (s.entry x) ≠ f)
      (hr : ppn (s.entry x) < s.frames.numberOfFrames) :
      Remap s x f va perm ((s.unmapSlot x).mapSlot x f va perm)

/-- `map_frame` where the table is known. -/
theorem mapFrameIn_slot {s s' : Kern} {dir : DirPtr} {f va perm : Nat} {t : TablePtr}
    (hget : getPageTable dir va s = .ok (some t) s) (ht : s.Reach t)
    (h : mapFrameIn dir t f va perm s = .ok () s') : Remap s (t, ptx va) f va perm s' := by
  rw [mapFrameIn, bind_run, readPte_reach ht (ptx_lt va)] at h
  dsimp only at h
  rw [Prog.ite_run] at h
  split at h
  case isTrue hc =>
    obtain ⟨-, rfl⟩ := ok_inj.1 h
    -- the same frame: the source returns before it writes the entry
    exact .same hc.1 ((extractAddress_eq_iff _ _).1 hc.2)
  case isFalse hc =>
    by_cases hp : present (s.entry (t, ptx va))
    · -- the page maps another frame, so that one is unmapped first
      have hne : ppn (s.entry (t, ptx va)) ≠ f := fun he =>
        hc ⟨hp, (extractAddress_eq_iff _ _).2 he⟩
      rw [if_pos hp, bind_run, unmapFrame_slot hget ht, if_neg (present_ne_zero hp)] at h
      by_cases hr : s.frames.numberOfFrames ≤ ppn (s.entry (t, ptx va))
      · rw [if_pos hr] at h
        cases h
      · rw [if_neg hr] at h
        dsimp only at h
        have hreach : (s.unmapSlot (t, ptx va)).Reach t := (ht.setFrames _).setEntry _ _
        rw [Prog.modify_bind_apply, writePte_reach (hreach.setFrames _) (ptx_lt va)] at h
        obtain ⟨-, rfl⟩ := ok_inj.1 h
        exact .other hp hne (Nat.lt_of_not_le hr)
    · rw [if_neg hp, bind_run, Prog.pure_apply] at h
      dsimp only at h
      rw [Prog.modify_bind_apply, writePte_reach (ht.setFrames _) (ptx_lt va)] at h
      obtain ⟨-, rfl⟩ := ok_inj.1 h
      exact .new hp

end Fos
