import Fos.PageTables.Pages
import Fos.UserEnvironment

/-!
# The directory of a new environment

`create_user_directory` and the loops that fill the directory give one page directory more.
-/

namespace Fos

open Function (update)
open Prog (bind_eq_ok ok_inj)

section

variable {lay : Layout} {G G' D : Set Nat} {dirs : Roots} {held : Set Nat} {s s' t : Kern}
  {f i n p va : Nat}

theorem fill_fill (s : Kern) (f : Nat) (g g' : Nat → Nat) :
    (s.fill f g).fill f g' = s.fill f g' := by
  unfold Kern.fill
  dsimp only
  rw [Function.update_idem]

/-- The loop that copies the kernel part. -/
theorem copyDirectory_page (hm : present (s.kernelTable p)) (hi : i + n ≤ 1024) :
    copyDirectory (.heap (p * 4096)) i n s = .ok () (s.fill (s.kframe p) fun j =>
      if i ≤ j ∧ j < i + n then s.kernelDirectory j else s.ram (s.kframe p) j) := by
  induction n generalizing s i with
  | zero =>
    have hnone : ∀ j, ¬ (i ≤ j ∧ j < i + 0) := fun j => by omega
    have hsame : (s.fill (s.kframe p) fun j => s.ram (s.kframe p) j) = s := by
      unfold Kern.fill
      rw [Function.update_eq_self]
    simp only [hnone, if_false]
    rw [hsame]
    rfl
  | succ n ih =>
    have hreach : s.ReachDir (.heap (p * 4096)) := ⟨by omega, (mapped_page s p).2 hm⟩
    have hw := writePde_reach (i := i) (w := s.kernelDirectory i) hreach (by omega)
    -- the entry lands in the page, so the copy goes on from a page that holds it
    have hst : s.setPde (.heap (p * 4096)) i (s.kernelDirectory i) =
        s.fill (s.kframe p) (update (s.ram (s.kframe p)) i (s.kernelDirectory i)) := by
      show s.store (s.frameAt (p * 4096)) i _ = _
      rw [kframe_page]
      rfl
    rw [hst] at hw
    rw [copyDirectory, Prog.bind_of_ok (readPde_boot i s), Prog.bind_of_ok hw,
      ih (s := s.fill (s.kframe p) _) hm (by omega)]
    have hkf : ∀ g, (s.fill (s.kframe p) g).kframe p = s.kframe p := fun _ => rfl
    rw [hkf, fill_fill, fill_ram_self]
    congr 2
    funext j
    show (if i + 1 ≤ j ∧ j < i + 1 + n then s.kernelDirectory j else
      update (s.ram (s.kframe p)) i (s.kernelDirectory i) j) = _
    by_cases hj : j = i
    · rw [hj, Function.update_self, if_neg (by omega), if_pos (by omega)]
    · rw [Function.update_of_ne hj]
      by_cases hr : i + 1 ≤ j ∧ j < i + 1 + n
      · rw [if_pos hr, if_pos (by omega)]
      · rw [if_neg hr, if_neg (by omega)]

/-- The words of a fresh directory. -/
def directoryWords (s : Kern) (f j : Nat) : Nat :=
  if j < 955 then 0 else if j < 1024 then s.kernelDirectory j else s.ram f j

theorem initializeDirectory_page (hm : present (s.kernelTable p)) :
    initializeDirectory (p * 4096) s =
      .ok () (s.fill (s.kframe p) (directoryWords s (s.kframe p))) := by
  have h0 := zeroWords_page (k := 0) (n := 955) hm (by omega)
  rw [Nat.mul_zero, Nat.add_zero] at h0
  have hk := copyDirectory_page (s := s.clearWords (s.kframe p) 0 955) (i := 955) (n := 69) hm
    (by omega)
  rw [initializeDirectory, show pdx userTop = 955 by rfl, Prog.bind_of_ok h0]
  show copyDirectory (.heap (p * 4096)) 955 69 (s.clearWords (s.kframe p) 0 955) = _
  rw [hk]
  have hkf : (s.clearWords (s.kframe p) 0 955).kframe p = s.kframe p := rfl
  have hfill : s.clearWords (s.kframe p) 0 955 = s.fill (s.kframe p) fun j =>
      if 0 ≤ j ∧ j < 0 + 955 then 0 else s.ram (s.kframe p) j := rfl
  rw [hkf, hfill, fill_fill, fill_ram_self]
  congr 2
  funext j
  unfold directoryWords
  show (if 955 ≤ j ∧ j < 955 + 69 then s.kernelDirectory j else
    if 0 ≤ j ∧ j < 0 + 955 then 0 else s.ram (s.kframe p) j) = _
  by_cases h1 : j < 955
  · rw [if_neg (by omega), if_pos (by omega), if_pos h1]
  · by_cases h2 : j < 1024
    · rw [if_pos (by omega), if_neg h1, if_pos h2]
    · rw [if_neg (by omega), if_neg (by omega), if_neg h1, if_neg h2]

/-- **`create_user_directory` and `initialize_environment`, the directory.** -/
theorem MemOk.newDirectory (h : MemOk lay G D dirs held s) (hk : createUserDirectory s = .ok va t)
    (hva : va ≠ 0) (hk' : initializeDirectory va t = .ok () s') :
    ∃ p, ∃ hd : .heap (p * 4096) ∉ dirs, va = p * 4096 ∧ p ∉ G ∧
      MemOk lay (insert p G) D (dirs.addPage (.heap (p * 4096)) hd) held s' ∧
      Quiet dirs D G (insert p G) s s' ∧
      ∀ q < 977920, s'.leaf (.heap (p * 4096)) q = 0 := by
  obtain ⟨p, rfl, hpG, hpage, hu, -, hq, hok⟩ := h.kmallocPage hk hva
  have hp : p ∈ insert p G := Set.mem_insert p G
  have hpD : p ∉ D := fun hpD => hpG (h.data p hpD).1
  rw [initializeDirectory_page (hok.owned.mapped p hp)] at hk'
  obtain ⟨-, rfl⟩ := ok_inj.1 hk'
  have hkern : ∀ i, 955 ≤ i → i < 1024 → i ≠ 957 → i ≠ 959 →
      directoryWords t (t.kframe p) i = t.kernelDirectory i := by
    intro i h1 h2 _ _
    unfold directoryWords
    rw [if_neg (by omega), if_pos h2]
  have hn := newRoot_page hp hu (fun i hi => if_pos hi) hkern
  obtain ⟨hok', hq'⟩ := hok.addRoot hn hpD
  exact ⟨p, hu.notMem, rfl, hpG, hok', hq.trans hq' h.owned hok.owned, fun q hq => hn.leaf_new hq⟩

/-- The two entries that list the directory change nothing else. -/
theorem MemOk.listDirectory {d cr3 : Nat} (h : MemOk lay G D dirs held s)
    (hpage : .heap d ∈ dirs.page)
    (hk : Fos.listDirectory d cr3 s = .ok () s') :
    MemOk lay G D dirs held s' ∧ Still dirs.page D held s s' ∧ SameRest dirs s s' ∧
      s'.frames = s.frames ∧ s'.heap = s.heap ∧ s'.kernelTable = s.kernelTable := by
  have hd : .heap d ∈ dirs := .inl hpage
  -- entries 957 and 959 lie above the user tables, so no leaf depends on them
  have hstep : ∀ {t : Kern} {i w : Nat}, MemOk lay G D dirs held t → i = 957 ∨ i = 959 →
      MemOk lay G D dirs held (t.setPde (.heap d) i w) ∧
        Still dirs.page D held t (t.setPde (.heap d) i w) ∧
        SameRest dirs t (t.setPde (.heap d) i w) := by
    intro t i w ht hi
    refine ⟨ht.setPde_list hpage hi w, ⟨⟨fun _ _ => rfl, fun _ _ => rfl, fun _ _ => rfl, rfl, rfl,
      fun f hf => ?_⟩, fun dir hdir q hq => ht.setPde_list_leaf hd hi w (.inl hdir) hq, fun f hf => ?_,
      fun _ _ => rfl⟩, ⟨rfl, rfl, rfl,
      fun dir hdir q hq => ht.setPde_list_leaf hd hi w (.inr hdir) hq⟩⟩
    · exact ht.setPde_ram hd w fun q hq _ => (ht.static hf).2 q hq
    · exact ht.setPde_ram hd w (ht.inUse hf).2
  have hreach := h.directories.reachDir hd
  rw [Fos.listDirectory, show pdx 0xEFC00000 = 959 by rfl, show pdx 0xEF400000 = 957 by rfl,
    Prog.bind_of_ok (writePde_reach hreach (by omega))] at hk
  obtain ⟨h1, hs1, hr1⟩ :=
    hstep (w := constructEntry cr3 (permPresent ||| permWriteable)) h (.inr rfl)
  rw [writePde_reach (h1.directories.reachDir hd) (by omega)] at hk
  obtain ⟨-, rfl⟩ := ok_inj.1 hk
  obtain ⟨h2, hs2, hr2⟩ := hstep (w := constructEntry cr3 (permPresent ||| permUser)) h1 (.inl rfl)
  exact ⟨h2, hs1.trans hs2, hr1.trans hr2, rfl, rfl, rfl⟩

end

end Fos
