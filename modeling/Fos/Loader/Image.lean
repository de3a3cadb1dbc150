import Fos.Loader.Allocation
import Fos.Loader.Segments

/-!
# The image of a program

After the loop over the segments the process has the bytes of all of them, in the pages that are
mapped and in the page file.
-/

namespace Fos

open Prog (bind_eq_ok ok_inj)

/-- The memory `mem` under the bytes `f` of the pages from `p` to `p + n`. -/
def overlay (p n : Nat) (f : Nat → UInt8) (mem : UserMemory) : UserMemory := fun a =>
  if p ≤ ppn a ∧ ppn a < p + n then some (f a).toNat else mem a

/-- The pages that the loader writes for the segment. -/
def ProgramSegment.Covers (seg : ProgramSegment) (q : Nat) : Prop :=
  seg.firstPage ≤ q ∧ q < seg.firstPage + seg.pages

/-- The memory under the bytes of the segment. -/
def ProgramSegment.overlay (m : KernelImage) (mem : UserMemory)
    (seg : ProgramSegment) : UserMemory :=
  Fos.overlay seg.firstPage seg.pages (seg.byte m) mem

/-- While the program of `e` is loaded, what `mem` knows of its memory is in the page file, and in
the pages that are mapped off `fixed`. The working set has room for `c` pages. -/
structure LoadInv (lay : Layout) (e : Nat) (fixed : Set Nat) (c : Nat) (mem : UserMemory)
    (s : FileState) : Prop where
  inv : StoreInv lay s
  room : WorkingSetRoom e fixed c s.kern
  zeroPage : ZeroPage s.kern
  known : ∀ q < 977920, q ∉ fixed → present (s.kern.leaf (s.kern.pageDirectory e) q) →
    mem (q * 4096) ≠ none
  shows : ∀ a v, ppn a < 977920 → present (s.kern.leaf (s.kern.pageDirectory e) (ppn a)) →
    mem a = some v → s.kern.userByte e a = v
  backed : ∀ q < 977920, Backed e q mem s

section

variable {lay : Layout} {pages : List DirPtr} {s t u : FileState} {a b k : Kern}
  {e c d n p i q x last last' : Nat} {f : Nat → UInt8} {m : KernelImage} {mem : UserMemory}
  {seg : ProgramSegment} {progName : List UInt8} {fixed : Set Nat}

theorem overlay_of_page (h1 : p ≤ ppn x) (h2 : ppn x < p + n) :
    overlay p n f mem x = some (f x).toNat :=
  if_pos ⟨h1, h2⟩

theorem overlay_of_not (h : ¬ (p ≤ ppn x ∧ ppn x < p + n)) : overlay p n f mem x = mem x := if_neg h

/-- The page file is apart from the memory of the process. -/
theorem WorkingSetRoom.keepsMemory (h : WorkingSetRoom e fixed c a) (hk : KeepsMemory pages e a b)
    (hdir : a.pageDirectory e ∈ pages) : WorkingSetRoom e fixed c b := by
  have hd : b.pageDirectory e = a.pageDirectory e := by
    unfold Kern.pageDirectory
    rw [hk.env]
  have hpage : ∀ q < 977920, KeepsPage (a.pageDirectory e) q a b :=
    fun q hq => hk.keeps _ hdir q hq (Set.notMem_empty _)
  -- leaves and counts of the own directory are kept, and so is the environment record
  have hstays : ∀ q ∈ fixed, q < 977920 ∧ present (b.leaf (b.pageDirectory e) q) := by
    intro q hqf
    obtain ⟨hq, hpr⟩ := h.stays q hqf
    rw [hd, (hpage q hq).leaf]
    exact ⟨hq, hpr⟩
  refine ⟨⟨?_, ?_, ?_, ?_, hstays, ?_, ?_⟩, fun q hq hne hnf => ?_, ?_⟩
  all_goals rw [hk.env]
  · exact h.directory
  · exact h.index
  · exact h.length
  · exact h.empty
  · intro i q hiq
    obtain ⟨hq, hnf, hpr, hone⟩ := h.mapped i q hiq
    rw [hd, (hpage q hq).leaf, (hpage q hq).references hpr]
    exact ⟨hq, hnf, hpr, hone⟩
  · exact h.distinct
  · rw [hd, (hpage q hq).leaf] at hne
    exact h.noneMissing q hq hne hnf
  · exact h.free

/-- A mapped page is in the working set. -/
theorem WorkingSetRoom.own (h : WorkingSetRoom e fixed c k) (hq : q < 977920) (hnf : q ∉ fixed)
    (hne : k.leaf (k.pageDirectory e) q ≠ 0) : present (k.leaf (k.pageDirectory e) q) ∧
      k.references (ppn (k.leaf (k.pageDirectory e) q)) = 1 := by
  obtain ⟨i, hi⟩ := h.noneMissing q hq hne hnf
  exact (h.mapped i q hi).2.2

/-- Pages of which nothing is known are not mapped. -/
theorem LoadInv.unmapped (h : LoadInv lay e fixed c mem s) (hq : q < 977920) (hnf : q ∉ fixed)
    (hnone : mem (q * 4096) = none) : s.kern.leaf (s.kern.pageDirectory e) q = 0 := by
  by_contra hne
  exact h.known q hq hnf (h.room.own hq hnf hne).1 hnone

/-! ## New pages -/

/-- A page that is mapped afterwards is new, or an old one. -/
theorem LoadInv.page_cases (h : LoadInv lay e fixed c mem s)
    (hadds : AddsPages s.pages e p n s.kern a) (hfile : KeepsMemory s.pages e a b) (hq : q < 977920)
    (hpr : present (b.leaf (s.kern.pageDirectory e) q)) :
    (p ≤ q ∧ q < p + n ∧ present (a.leaf (s.kern.pageDirectory e) q)) ∨
      (present (s.kern.leaf (s.kern.pageDirectory e) q) ∧
        KeepsPage (s.kern.pageDirectory e) q s.kern b) := by
  have hdir := h.inv.pageDirectory_mem h.room.toWorkingSetOk
  have hkeep' := hfile.keeps _ hdir q hq (Set.notMem_empty _)
  rw [hkeep'.leaf] at hpr
  by_cases hin : p ≤ q ∧ q < p + n
  · exact .inl ⟨hin.1, hin.2, hpr⟩
  · have hkeep := hadds.keeps _ hdir q hq fun hc => hin hc.2
    rw [hkeep.leaf] at hpr
    exact .inr ⟨hpr, hkeep.trans hkeep'⟩

/-- The pages that are written to the page file, and the others. -/
theorem StoresBytes.backed (h : StoresBytes e p n f t u) (hb : Backed e q mem t) :
    Backed e q (overlay p n f mem) u := by
  intro x v hx hv
  by_cases hin : p ≤ ppn x ∧ ppn x < p + n
  · rw [overlay_of_page hin.1 hin.2] at hv
    rw [hx] at hin
    obtain ⟨w, hw, hbyte⟩ := h.stored q hin.1 hin.2
    refine ⟨w, hw, ?_⟩
    rw [hbyte x hx]
    exact Option.some.inj hv
  · rw [overlay_of_not hin] at hv
    obtain ⟨w, hw, hbyte⟩ := hb x v hx hv
    rw [hx] at hin
    exact ⟨w, (h.other (e, q) fun hc => hin hc.2).trans hw, hbyte⟩

/-- Pages that are new in memory, `i` of them, and in the page file. -/
theorem LoadInv.add {store : PageStore} (h : LoadInv lay e fixed c mem s)
    (hnew : ∀ q, p ≤ q → q < p + n → q ∉ fixed ∧ mem (q * 4096) = none)
    (hadds : AddsPages s.pages e p i s.kern a) (hroom : WorkingSetRoom e fixed d a)
    (hbytes : ∀ x, p ≤ ppn x → ppn x < p + i → a.userByte e x = (f x).toNat) (hin : i ≤ n)
    (hi : StoreInv lay ⟨b, s.pages, store⟩)
    (hstores : StoresBytes e p n f ⟨a, s.pages, s.store⟩ ⟨b, s.pages, store⟩) :
    LoadInv lay e fixed d (overlay p n f mem) ⟨b, s.pages, store⟩ := by
  have hdir := h.inv.pageDirectory_mem h.room.toWorkingSetOk
  -- storing the pages changes no page that is mapped
  have hroom' := hroom.keepsMemory hstores.memory (by rw [hadds.directory]; exact hdir)
  have hd : b.pageDirectory e = s.kern.pageDirectory e := by
    rw [← hadds.directory]
    unfold Kern.pageDirectory
    rw [hstores.memory.env]
  refine ⟨hi, hroom', (h.zeroPage.kept hadds.kept).kept hstores.memory.kept, fun q hq hnf hpr => ?_,
    fun x v hx hpr hv => ?_, fun q hq => hstores.backed (h.backed q hq)⟩
  all_goals rw [hd] at hpr
  · rcases h.page_cases hadds hstores.memory hq hpr with ⟨h1, h2, -⟩ | ⟨hold, -⟩
    · rw [overlay_of_page (by rwa [ppn_page]) (by rw [ppn_page]; omega)]
      exact Option.some_ne_none _
    · have hknown := h.known q hq hnf hold
      rw [overlay_of_not (by rw [ppn_page]; exact fun hc => hknown (hnew q hc.1 hc.2).2)]
      exact hknown
  · rcases h.page_cases hadds hstores.memory hx hpr with ⟨h1, h2, hpr'⟩ | ⟨hold, hkeep⟩
    · rw [overlay_of_page h1 (by omega)] at hv
      have hkeep := hstores.memory.keeps _ hdir _ hx (Set.notMem_empty _)
      rw [← hadds.directory] at hpr' hkeep hd
      rw [hkeep.userByte hd hpr', hbytes x h1 h2]
      exact Option.some.inj hv
    · rw [overlay_of_not fun hc => h.known _ hx (hnew _ hc.1 hc.2).1 hold (hnew _ hc.1 hc.2).2] at hv
      rw [hkeep.userByte hd hold]
      exact h.shows x v hx hold hv

/-! ## The segments -/

/-- **One round of the loop**: the bytes of the segment are added. -/
theorem LoadInv.loadSegment {x y : Nat × Nat} (h : LoadInv lay e fixed (x.1 + 1) mem s)
    (hfit : seg.Fits) (hnew : ∀ q, seg.Covers q → q ∉ fixed ∧ mem (q * 4096) = none)
    (hk : Fos.loadSegment m progName e x seg s.kern = .ok y k) :
    ∃ store, LoadInv lay e fixed (y.1 + 1) (seg.overlay m mem) ⟨k, s.pages, store⟩ := by
  obtain ⟨⟨allocated, last⟩, k₁, h₁, hk⟩ := bind_eq_ok.1 hk
  obtain ⟨_, k₂, h₂, hk⟩ := bind_eq_ok.1 hk
  obtain ⟨rfl, rfl⟩ := ok_inj.1 hk
  have hbelow : seg.firstPage + seg.pages ≤ 977920 := Nat.le_trans hfit.pages_le (by decide)
  obtain ⟨-, hle, hi₁, hroom, hadds, hbytes⟩ := h.inv.allocMapCopy h.room hfit
    (fun q h1 h2 => h.unmapped (by omega) (hnew q ⟨h1, h2⟩).1 (hnew q ⟨h1, h2⟩).2) h₁
  obtain ⟨store, hi₂, hstores⟩ := hi₁.storeSegment (s := ⟨k₁, s.pages, s.store⟩)
    (h.zeroPage.kept hadds.kept) hfit h₂
  exact ⟨store, h.add (fun q h1 h2 => hnew q ⟨h1, h2⟩) hadds hroom hbytes hle hi₂ hstores⟩

/-- **The loop** adds the bytes of every segment. -/
theorem LoadInv.loadSegments {segs : List ProgramSegment} {x y : Nat × Nat}
    (h : LoadInv lay e fixed (x.1 + 1) mem s) (hfit : ∀ seg ∈ segs, seg.Fits)
    (hapart : segs.Pairwise fun seg seg' => ∀ q, seg.Covers q → ¬ seg'.Covers q)
    (hnew : ∀ seg ∈ segs, ∀ q, seg.Covers q → q ∉ fixed ∧ mem (q * 4096) = none)
    (hk : segs.foldlM (Fos.loadSegment m progName e) x s.kern = .ok y k) :
    ∃ store, LoadInv lay e fixed (y.1 + 1) (segs.foldl (ProgramSegment.overlay m) mem) ⟨k, s.pages, store⟩ := by
  induction segs generalizing s mem x with
  | nil =>
    obtain ⟨rfl, rfl⟩ := ok_inj.1 hk
    exact ⟨_, h⟩
  | cons seg segs ih =>
    obtain ⟨x₁, k₁, h₁, hk⟩ := bind_eq_ok.1 hk
    obtain ⟨hfirst, hapart⟩ := List.pairwise_cons.1 hapart
    obtain ⟨store, hi₁⟩ :=
      h.loadSegment (hfit seg List.mem_cons_self) (hnew seg List.mem_cons_self) h₁
    refine ih (s := ⟨k₁, s.pages, store⟩) hi₁ (fun seg' hmem => hfit seg' (List.mem_cons_of_mem _ hmem))
      hapart (fun seg' hmem q hq => ?_) hk
    -- the new bytes are on other pages
    unfold ProgramSegment.overlay
    rw [overlay_of_not]
    · exact hnew seg' (List.mem_cons_of_mem _ hmem) q hq
    · rw [ppn_page]
      exact fun hc => hfirst seg' hmem q hc hq

theorem overlays_of_not {segs : List ProgramSegment} (h : ∀ seg ∈ segs, ¬ seg.Covers (ppn x)) :
    segs.foldl (ProgramSegment.overlay m) mem x = mem x := by
  induction segs generalizing mem with
  | nil => rfl
  | cons seg segs ih =>
    rw [List.foldl_cons, ih fun seg' hmem => h seg' (List.mem_cons_of_mem _ hmem)]
    exact overlay_of_not (h seg List.mem_cons_self)

/-- The bytes of each segment. -/
theorem overlays_of_covers {segs : List ProgramSegment}
    (hapart : segs.Pairwise fun seg seg' => ∀ q, seg.Covers q → ¬ seg'.Covers q) (hseg : seg ∈ segs)
    (hx : seg.Covers (ppn x)) :
    segs.foldl (ProgramSegment.overlay m) mem x = some (seg.byte m x).toNat := by
  induction segs generalizing mem with
  | nil => cases hseg
  | cons seg' segs ih =>
    obtain ⟨hfirst, hapart⟩ := List.pairwise_cons.1 hapart
    rw [List.foldl_cons]
    rcases List.mem_cons.1 hseg with rfl | hmem
    · rw [overlays_of_not fun seg' hmem => hfirst seg' hmem _ hx]
      exact overlay_of_page hx.1 hx.2
    · exact ih hapart hmem

end

end Fos
