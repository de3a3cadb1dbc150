import Fos.Loader.Copying

/-!
# The segments in the page file

Steps [1] to [4] of the loop over the segments write the pages of a segment to the page file: the
content of the file, and zeros up to the size in memory. Pages are written more than once; what
counts is the last time.
-/

namespace Fos

open Function (update)
open Prog (bind_eq_ok ok_inj)

/-! ## What the loader writes -/

/-- The byte of the segment at `a`, zero where the file has none. -/
def ProgramSegment.byte (m : KernelImage) (seg : ProgramSegment) (a : Nat) : UInt8 :=
  if a < seg.virtualAddress + seg.sizeInFile then m (u32 (seg.ptrStart + (a - seg.virtualAddress))) else 0

def ProgramSegment.firstPage (seg : ProgramSegment) : Nat := ppn seg.virtualAddress

/-- The number of pages of the page file that the loader writes for the segment. A segment that ends
with a full page of the file gets one more. -/
def ProgramSegment.pages (seg : ProgramSegment) : Nat :=
  max (seg.sizeInFile / 4096 + 1) ((seg.sizeInMemory + 4095) / 4096)

/-- The segment begins with a page, has at least the memory of its content, and ends below the first
page of the stack. -/
structure ProgramSegment.Fits (seg : ProgramSegment) : Prop where
  aligned : seg.virtualAddress = seg.firstPage * 4096
  file : seg.sizeInFile ≤ seg.sizeInMemory
  below : (seg.firstPage + seg.pages) * 4096 ≤ ustackTop - pageSize

/-- The page that the loader takes its zeros from is clear. -/
structure ZeroPage (s : Kern) : Prop where
  frame : s.frameAt ptrZeroPage = 1
  words : ∀ i < 1024, s.ram 1 i = 0

/-- Between `s` and `t` the memory of the processes stays, and so does the record of `e` but for its
part of the page file. -/
structure KeepsMemory (pages : List DirPtr) (e : Nat) (s t : Kern) : Prop where
  kept : Kept ∅ s t
  env : t.envs e = { s.envs e with diskEnvPgdir := (t.envs e).diskEnvPgdir }
  keeps : KeepsOutside pages ∅ s t

/-- Of the page file, the pages of `e` from `p` to `p + n` are written, with the bytes `f`. -/
structure StoresBytes (e p n : Nat) (f : Nat → UInt8) (s t : FileState) : Prop where
  pages : t.pages = s.pages
  memory : KeepsMemory s.pages e s.kern t.kern
  stored : ∀ q, p ≤ q → q < p + n → ∃ w, t.store (e, q) = some (some w) ∧
    ∀ a, ppn a = q → pageByte w a = (f a).toNat
  other : ∀ x : Nat × Nat, ¬ (x.1 = e ∧ p ≤ x.2 ∧ x.2 < p + n) → t.store x = s.store x

section

variable {lay : Layout} {pages : List DirPtr} {s t u : FileState} {a b c k : Kern}
    {e p n i j va src : Nat}
  {f g : Nat → UInt8} {m : KernelImage} {w : Nat → Nat} {seg : ProgramSegment}

/-! ## Bytes -/

theorem byteOf_bytes {b₀ b₁ b₂ b₃ : UInt8} (hj : j < 4) :
    byteOf (b₀.toNat + 256 * b₁.toNat + 65536 * b₂.toNat + 16777216 * b₃.toNat) j =
      if j = 0 then b₀.toNat else if j = 1 then b₁.toNat else if j = 2 then b₂.toNat else b₃.toNat := by
  have h0 := b₀.toNat_lt
  have h1 := b₁.toNat_lt
  have h2 := b₂.toNat_lt
  have h3 := b₃.toNat_lt
  unfold byteOf
  interval_cases j <;> simp <;> omega

/-- The bytes of a page of bytes. -/
theorem pageByte_pageWords (page : Nat → UInt8) (va : Nat) :
    pageByte (pageWords page) va = (page (va % 4096)).toNat := by
  unfold pageByte pageWords
  rw [byteOf_bytes (Nat.mod_lt _ (by decide))]
  have hsplit : 4 * (va % 4096 / 4) + va % 4 = va % 4096 := by omega
  have hlt : va % 4 < 4 := Nat.mod_lt _ (by decide)
  generalize va % 4 = j at hsplit hlt
  interval_cases j
  · rw [if_pos rfl]
    exact congrArg (fun i => (page i).toNat) hsplit
  · rw [if_neg (by decide), if_pos rfl]
    exact congrArg (fun i => (page i).toNat) hsplit
  · rw [if_neg (by decide), if_neg (by decide), if_pos rfl]
    exact congrArg (fun i => (page i).toNat) hsplit
  · rw [if_neg (by decide), if_neg (by decide), if_neg (by decide)]
    exact congrArg (fun i => (page i).toNat) hsplit

theorem fillTempPage_eq : fillTempPage m n i src j =
    if i ≤ j ∧ j < i + n then m (u32 (src + (j - i))) else 0 := by
  induction n with
  | zero => rw [if_neg (by omega)]; rfl
  | succ n ih =>
    unfold fillTempPage
    by_cases hj : j = i + n
    · subst hj
      rw [Function.update_self, if_pos (by omega), Nat.add_sub_cancel_left]
    · rw [Function.update_of_ne hj, ih]
      by_cases hin : i ≤ j ∧ j < i + n
      · rw [if_pos hin, if_pos (by omega)]
      · rw [if_neg hin, if_neg (by omega)]

theorem ZeroPage.kept {D : Set Nat} (h : ZeroPage a) (hk : Kept D a b) : ZeroPage b := by
  constructor
  · rw [← h.frame]
    unfold Kern.frameAt
    rw [hk.offHeap _ (by unfold HeapPage; decide)]
  · intro i hi
    rw [hk.static 1 (by decide)]
    exact h.words i hi

theorem ZeroPage.byte (h : ZeroPage a) (va : Nat) : pageByte (a.kernelPage ptrZeroPage) va = 0 := by
  unfold pageByte Kern.kernelPage
  rw [h.frame, h.words _ (by omega)]
  unfold byteOf
  rw [Nat.zero_div]

/-! ## Composition -/

theorem KeepsMemory.refl (pages : List DirPtr) (e : Nat) (s : Kern) : KeepsMemory pages e s s :=
  ⟨.refl _ _, rfl, .refl _ _ _⟩

theorem KeepsMemory.trans (h : KeepsMemory pages e a b) (h' : KeepsMemory pages e b c) :
    KeepsMemory pages e a c := by
  refine ⟨h.kept.trans h'.kept, ?_, h.keeps.trans h'.keeps⟩
  rw [h'.env, h.env]

theorem FileOnly.memory (h : FileOnly pages ∅ ∅ a b) (e : Nat) : KeepsMemory pages e a b :=
  ⟨h.toKept, h.env e, h.toStill.keeps⟩

/-- Writing no page. -/
theorem StoresBytes.refl (e p : Nat) (f : Nat → UInt8) (s : FileState) : StoresBytes e p 0 f s s :=
  ⟨rfl, .refl _ _ _, fun q h1 h2 => absurd h2 (by omega), fun _ _ => rfl⟩

/-- Pages that are written again later do not count. -/
theorem StoresBytes.before {p' n' : Nat} (h : StoresBytes e p' n' g s t)
    (h' : StoresBytes e p n f t u)
    (hp : p ≤ p') (hn : p' + n' ≤ p + n) : StoresBytes e p n f s u := by
  have hm := h'.memory
  rw [h.pages] at hm
  refine ⟨h'.pages.trans h.pages, h.memory.trans hm, h'.stored, fun x hx => ?_⟩
  rw [h'.other x hx, h.other x]
  exact fun hc => hx ⟨hc.1, by omega, by omega⟩

/-- More pages of the same bytes, which may begin with pages that are written already. -/
theorem StoresBytes.union {n' : Nat} (h : StoresBytes e p n f s t)
    (h' : StoresBytes e (p + i) n' f t u)
    (hi : i ≤ n) : StoresBytes e p (max n (i + n')) f s u := by
  have hm := h'.memory
  rw [h.pages] at hm
  refine ⟨h'.pages.trans h.pages, h.memory.trans hm, fun q h1 h2 => ?_, fun x hx => ?_⟩
  · by_cases hq : p + i ≤ q ∧ q < p + i + n'
    · exact h'.stored q hq.1 hq.2
    · rw [h'.other (e, q) fun hc => hq hc.2]
      exact h.stored q h1 (by omega)
  · rw [h'.other x, h.other x]
    · exact fun hc => hx ⟨hc.1, by omega, by omega⟩
    · exact fun hc => hx ⟨hc.1, by omega, by omega⟩

/-! ## The steps -/

/-- A page that is added to the page file. -/
theorem StoreInv.addPage {r : Int} (hi : StoreInv lay s) (hva : va < userTop)
    (hbytes : ∀ a, ppn a = ppn va → pageByte w a = (f a).toNat)
    (hk : pfAddEnvPage e va w s.kern = .ok r k) :
    (r = eNoPageFileSpace ∧ StoreInv lay ⟨k, s.pages, s.store⟩ ∧ KeepsMemory s.pages e s.kern k ∧
        k.disk = s.kern.disk ∧ k.diskSlot (e, ppn va) = 0) ∨
      ∃ store, StoreInv lay ⟨k, s.pages, store⟩ ∧
        StoresBytes e (ppn va) 1 f s ⟨k, s.pages, store⟩ := by
  obtain ⟨-, honly, hadds⟩ := hi.file.pfAddEnvPage hva hk
  cases hadds with
  | full h0 hd hs =>
    left
    refine ⟨rfl, MemoryStep.inv hi (.addFails hva hk), honly.memory e, hd, ?_⟩
    rw [hs]
    exact h0
  | done h0 hold hs hw =>
    right
    refine ⟨_, hi.add hva hk, rfl, honly.memory e, fun q h1 h2 => ?_, fun x hx => ?_⟩
    · obtain rfl : q = ppn va := by omega
      exact ⟨w, Function.update_self .., hbytes⟩
    · apply Function.update_of_ne
      rintro rfl
      exact hx ⟨rfl, Nat.le_refl _, Nat.lt_succ_self _⟩

theorem storePage_stored {page : Nat → Nat} {k k' : Kern}
    (h : pfAddEnvPage e va page k = .ok 0 k') : storePage e va page k = .ok () k' := by
  rw [storePage, Prog.bind_of_ok h]
  rfl

theorem StoreInv.storePage (hi : StoreInv lay s) (hva : va < userTop)
    (hbytes : ∀ a, ppn a = ppn va → pageByte w a = (f a).toNat)
    (hk : Fos.storePage e va w s.kern = .ok () k) :
    ∃ store, StoreInv lay ⟨k, s.pages, store⟩ ∧
    StoresBytes e (ppn va) 1 f s ⟨k, s.pages, store⟩ := by
  obtain ⟨r, k', h₁, hk⟩ := bind_eq_ok.1 hk
  rw [Prog.ite_run] at hk
  split at hk
  case isTrue => cases hk
  case isFalse hr =>
    obtain ⟨-, rfl⟩ := ok_inj.1 hk
    exact (hi.addPage hva hbytes h₁).resolve_left fun hc => hr hc.1

theorem sub_advance {x d : Nat} (h : x + d ≤ i) : src + (i - x) = src + d + (i - (x + d)) := by
  omega

/-- The page after `p`. -/
theorem next_page {p' P : Nat} (hp : p' = p + 1) (h : (p + (n + 1)) * 4096 ≤ P) :
    ppn (p * 4096) = p ∧ p * 4096 < P ∧ (p' + n) * 4096 ≤ P := by
  unfold ppn
  omega

theorem add_pageSize {p' : Nat} (hp : p' = p + 1) : p * 4096 + pageSize = p' * 4096 := by
  rw [hp, Nat.succ_mul]

/-- The loop over the pages in the middle of the file content. -/
theorem StoreInv.storePages (hi : StoreInv lay s) (hn : (p + n) * 4096 ≤ userTop)
    (hbytes : ∀ a, p ≤ ppn a → ppn a < p + n → f a = m (u32 (src + (a - p * 4096))))
    (hk : Fos.storePages m e n (p * 4096) src s.kern = .ok () k) :
    ∃ store, StoreInv lay ⟨k, s.pages, store⟩ ∧ StoresBytes e p n f s ⟨k, s.pages, store⟩ := by
  induction n generalizing s p src with
  | zero =>
    obtain ⟨-, rfl⟩ := ok_inj.1 hk
    exact ⟨_, hi, .refl ..⟩
  | succ n ih =>
    obtain ⟨_, k', h₁, hk⟩ := bind_eq_ok.1 hk
    obtain ⟨p', hp'⟩ : ∃ p', p' = p + 1 := ⟨_, rfl⟩
    obtain ⟨hpage, hva, hn'⟩ := next_page hp' hn
    -- the page at `src` holds the words of the first page, what lies behind it those of the rest
    have hfirst : ∀ a, ppn a = ppn (p * 4096) →
        pageByte (pageWords (m.page src)) a = (f a).toNat := by
      intro a ha
      rw [hpage] at ha
      rw [pageByte_pageWords, hbytes a (by omega) (by omega)]
      unfold ppn at ha
      unfold KernelImage.page
      congr 3
      omega
    have hrest : ∀ a, p' ≤ ppn a → ppn a < p' + n →
        f a = m (u32 (src + pageSize + (a - p' * 4096))) := by
      intro a h1 h2
      rw [hbytes a (by omega) (by omega)]
      have hle : p' * 4096 ≤ a := (Nat.le_div_iff_mul_le (by decide)).1 h1
      rw [← add_pageSize hp'] at hle ⊢
      rw [sub_advance hle]
    obtain ⟨store, hi', hs⟩ := hi.storePage hva hfirst h₁
    rw [hpage] at hs
    rw [add_pageSize hp'] at hk
    obtain ⟨store', hik, hs'⟩ := ih (s := ⟨k', s.pages, store⟩) hi' hn' hrest hk
    refine ⟨store', hik, ?_⟩
    rw [hp'] at hs'
    have hall := hs.union hs' (Nat.le_refl 1)
    rwa [show max 1 (1 + n) = n + 1 by omega] at hall

/-- The loop over the pages of zeros. -/
theorem StoreInv.storeZeroPages (hi : StoreInv lay s) (hz : ZeroPage s.kern)
    (hn : (p + n) * 4096 ≤ userTop)
    (hbytes : ∀ a, p ≤ ppn a → f a = 0) (hk : Fos.storeZeroPages e n (p * 4096) s.kern = .ok () k) :
    ∃ store, StoreInv lay ⟨k, s.pages, store⟩ ∧ StoresBytes e p n f s ⟨k, s.pages, store⟩ := by
  induction n generalizing s p with
  | zero =>
    obtain ⟨-, rfl⟩ := ok_inj.1 hk
    exact ⟨_, hi, .refl ..⟩
  | succ n ih =>
    obtain ⟨r, k', h₁, hk⟩ := bind_eq_ok.1 hk
    have h₁ : pfAddEnvPage e (p * 4096) (s.kern.kernelPage ptrZeroPage) s.kern = .ok r k' := h₁
    rw [Prog.ite_run] at hk
    split at hk
    case isTrue => cases hk
    case isFalse hr =>
      obtain ⟨p', hp'⟩ : ∃ p', p' = p + 1 := ⟨_, rfl⟩
      obtain ⟨hpage, hva, hn'⟩ := next_page hp' hn
      -- what is stored is the zero page
      have hzeros : ∀ a, ppn a = ppn (p * 4096) →
          pageByte (s.kern.kernelPage ptrZeroPage) a = (f a).toNat := by
        intro a ha
        rw [hpage] at ha
        rw [hz.byte, hbytes a (Nat.le_of_eq ha.symm)]
        rfl
      obtain ⟨store, hi', hs⟩ := (hi.addPage hva hzeros h₁).resolve_left fun hc => hr hc.1
      rw [hpage] at hs
      rw [add_pageSize hp'] at hk
      obtain ⟨store', hik, hs'⟩ := ih (s := ⟨k', s.pages, store⟩) hi' (hz.kept hs.memory.kept) hn'
        (fun a ha => hbytes a (by omega)) hk
      refine ⟨store', hik, ?_⟩
      rw [hp'] at hs'
      have hall := hs.union hs' (Nat.le_refl 1)
      rwa [show max 1 (1 + n) = n + 1 by omega] at hall

/-! ## A segment -/

theorem rounddown_add : rounddown (p * 4096 + n) pageSize = (p + n / 4096) * 4096 := by
  unfold rounddown pageSize
  omega

theorem roundup_add (h : p * 4096 + n ≤ ustackTop) :
    roundup (p * 4096 + n) pageSize = (p + (n + 4095) / 4096) * 4096 := by
  unfold ustackTop at h
  unfold roundup rounddown u32 pageSize
  omega

/-- The count of the zero pages; the length wraps where the content fills the last page. -/
theorem remaining_pages (hi : i ≤ n) (h : p * 4096 + n ≤ ustackTop) :
    roundup (u32Sub (u32 (p * 4096 + n)) ((p + (i + 4095) / 4096) * 4096)) pageSize / pageSize =
      (n + 4095) / 4096 - (i + 4095) / 4096 := by
  unfold ustackTop at h
  rw [u32_of_lt (by omega)]
  unfold u32Sub roundup rounddown u32 pageSize
  omega

theorem ProgramSegment.memory_le (seg : ProgramSegment) : seg.sizeInMemory ≤ seg.pages * 4096 := by
  have hround : seg.sizeInMemory ≤ (seg.sizeInMemory + 4095) / 4096 * 4096 := by omega
  exact Nat.le_trans hround (Nat.mul_le_mul_right _ (Nat.le_max_right ..))

theorem ProgramSegment.Fits.memory_le (h : seg.Fits) :
    seg.firstPage * 4096 + seg.sizeInMemory ≤ ustackTop := by
  have hbelow := h.below
  rw [Nat.add_mul] at hbelow
  refine Nat.le_trans (Nat.add_le_add_left seg.memory_le _) (Nat.le_trans hbelow ?_)
  exact Nat.sub_le _ _

theorem ProgramSegment.Fits.file_le (h : seg.Fits) :
    seg.firstPage * 4096 + seg.sizeInFile ≤ ustackTop :=
  Nat.le_trans (Nat.add_le_add_left h.file _) h.memory_le

theorem ProgramSegment.Fits.page_lt {i : Nat} (h : seg.Fits) (hi : i ≤ seg.firstPage + seg.pages) :
    i * 4096 < userTop := by
  refine Nat.lt_of_le_of_lt (Nat.mul_le_mul_right _ hi) (Nat.lt_of_le_of_lt h.below ?_)
  decide

theorem ProgramSegment.Fits.pages_le (h : seg.Fits) : seg.firstPage + seg.pages ≤ 977917 :=
  Nat.le_of_mul_le_mul_right h.below (by decide)

theorem rounddown_page : rounddown (p * 4096) pageSize = p * 4096 := by
  have h := rounddown_add (p := p) (n := 0)
  rwa [Nat.add_zero, Nat.zero_div, Nat.add_zero] at h

theorem roundup_page (h : p * 4096 ≤ ustackTop) : roundup (p * 4096) pageSize = p * 4096 := by
  have h := roundup_add (p := p) (n := 0) (by rw [Nat.add_zero]; exact h)
  rwa [Nat.add_zero] at h

theorem middle_pages : ((p + n / 4096) * 4096 - p * 4096) / pageSize = n / 4096 := by
  rw [Nat.add_mul, Nat.add_sub_cancel_left]
  exact Nat.mul_div_cancel _ (by decide)

theorem last_bytes : p * 4096 + n - (p + n / 4096) * 4096 = n % 4096 := by
  rw [Nat.add_mul, Nat.add_sub_add_left]
  exact Nat.sub_eq_of_eq_add (Nat.mod_add_div' n 4096).symm

/-- A page of zeros before the content. -/
theorem StoreInv.storeFirst (hi : StoreInv lay s) (hva : p * 4096 < userTop)
    (hk : Fos.storePage e (p * 4096) (pageWords (fillTempPage m 0 0 src)) s.kern = .ok () k) :
    ∃ store, StoreInv lay ⟨k, s.pages, store⟩ ∧
      StoresBytes e p 1 (fun _ => 0) s ⟨k, s.pages, store⟩ := by
  have hpage : ppn (p * 4096) = p := Nat.mul_div_cancel _ (by decide)
  have h := hi.storePage (f := fun _ => 0) hva (fun a _ => ?_) hk
  · rwa [hpage] at h
  · rw [pageByte_pageWords]
    rfl

/-- The last page of the content, filled up with zeros. -/
theorem StoreInv.storeLast (hi : StoreInv lay s) (hva : p * 4096 < userTop)
    (hbytes : ∀ a, ppn a = p → f a = if a % 4096 < n then m (u32 (src + a % 4096)) else 0)
    (hk : Fos.storePage e (p * 4096) (pageWords (fillTempPage m n 0 src)) s.kern = .ok () k) :
    ∃ store, StoreInv lay ⟨k, s.pages, store⟩ ∧ StoresBytes e p 1 f s ⟨k, s.pages, store⟩ := by
  have hpage : ppn (p * 4096) = p := Nat.mul_div_cancel _ (by decide)
  have h := hi.storePage (f := f) hva (fun a ha => ?_) hk
  · rwa [hpage] at h
  · rw [hpage] at ha
    rw [pageByte_pageWords, fillTempPage_eq, hbytes a ha, Nat.zero_add, Nat.sub_zero]
    simp only [Nat.zero_le, true_and]

/-- The bytes of the segment on the full pages of its content. -/
theorem ProgramSegment.Fits.byte_middle {a : Nat} (h : seg.Fits)
    (ha : ppn a < seg.firstPage + seg.sizeInFile / 4096) :
    seg.byte m a = m (u32 (seg.ptrStart + (a - seg.firstPage * 4096))) := by
  unfold ProgramSegment.byte
  rw [h.aligned, if_pos]
  have hlt : a < (seg.firstPage + seg.sizeInFile / 4096) * 4096 :=
    (Nat.div_lt_iff_lt_mul (by decide)).1 ha
  rw [Nat.add_mul] at hlt
  exact Nat.lt_of_lt_of_le hlt (Nat.add_le_add_left (Nat.div_mul_le_self _ _) _)

/-- An address by the page of the content and the place in it. -/
theorem last_page {a x y r r' : Nat} (ha : a = x + y + r) (hn : n = y + r') :
    (a < x + n ↔ r < r') ∧ a - x = y + r := by
  omega

/-- The bytes of the segment on the page where its content ends. -/
theorem ProgramSegment.Fits.byte_last {a : Nat} (h : seg.Fits)
    (ha : ppn a = seg.firstPage + seg.sizeInFile / 4096) :
    seg.byte m a = if a % 4096 < seg.sizeInFile % 4096 then
      m (u32 (seg.ptrStart + seg.sizeInFile / 4096 * 4096 + a % 4096)) else 0 := by
  have hsplit : a = seg.firstPage * 4096 + seg.sizeInFile / 4096 * 4096 + a % 4096 := by
    rw [← Nat.add_mul, ← ha]
    exact (Nat.div_add_mod' a 4096).symm
  obtain ⟨hlt, hsub⟩ := last_page hsplit (Nat.div_add_mod' seg.sizeInFile 4096).symm
  unfold ProgramSegment.byte
  rw [h.aligned, hsub, Nat.add_assoc]
  exact if_congr hlt rfl rfl

/-- The bytes of the segment after the page where its content ends. -/
theorem ProgramSegment.Fits.byte_zero {a : Nat} (h : seg.Fits)
    (ha : seg.firstPage + (seg.sizeInFile + 4095) / 4096 ≤ ppn a) : seg.byte m a = 0 := by
  unfold ProgramSegment.byte
  rw [h.aligned, if_neg]
  have hle : (seg.firstPage + (seg.sizeInFile + 4095) / 4096) * 4096 ≤ a :=
    (Nat.le_div_iff_mul_le (by decide)).1 ha
  have hround : seg.sizeInFile ≤ (seg.sizeInFile + 4095) / 4096 * 4096 := by omega
  rw [Nat.add_mul] at hle
  exact Nat.not_lt.2 (Nat.le_trans (Nat.add_le_add_left hround _) hle)

/-- The counts of the pages, and of what is written of them twice. -/
theorem stored_pages (hi : i ≤ n) :
    max (max (i / 4096) (i / 4096 + 1)) ((i + 4095) / 4096 + ((n + 4095) / 4096 - (i + 4095) / 4096)) =
        max (i / 4096 + 1) ((n + 4095) / 4096) ∧
      (i + 4095) / 4096 ≤ max (i / 4096) (i / 4096 + 1) ∧
      (i + 4095) / 4096 + ((n + 4095) / 4096 - (i + 4095) / 4096) ≤
        max (i / 4096 + 1) ((n + 4095) / 4096) := by
  omega

/-- **The pages of a segment** in the page file. -/
theorem StoreInv.storeSegment (hi : StoreInv lay s) (hz : ZeroPage s.kern) (hfit : seg.Fits)
    (hk : Fos.storeSegment m e seg s.kern = .ok () k) :
    ∃ store, StoreInv lay ⟨k, s.pages, store⟩ ∧
      StoresBytes e seg.firstPage seg.pages (seg.byte m) s ⟨k, s.pages, store⟩ := by
  have hmem := hfit.memory_le
  have hfilemem := hfit.file_le
  have hcontents : seg.sizeInFile / 4096 ≤ seg.pages :=
    Nat.le_trans (Nat.le_succ _) (Nat.le_max_left ..)
  have hone : 1 ≤ seg.pages := Nat.le_trans (Nat.le_add_left _ _) (Nat.le_max_left ..)
  obtain ⟨hcounts, hlastzero, hzerocount⟩ := stored_pages hfit.file
  unfold Fos.storeSegment at hk
  dsimp only at hk
  rw [hfit.aligned, u32_of_lt (Nat.lt_of_le_of_lt hfilemem (by decide)), rounddown_page,
    roundup_page (Nat.le_trans (Nat.le_add_right _ _) hfilemem), rounddown_add,
    roundup_add hfilemem, remaining_pages hfit.file hmem, Nat.sub_self, middle_pages, last_bytes,
    Nat.add_zero] at hk
  obtain ⟨_, k₁, h₁, hk⟩ := bind_eq_ok.1 hk
  obtain ⟨_, k₂, h₂, hk⟩ := bind_eq_ok.1 hk
  obtain ⟨_, k₃, h₃, h₄⟩ := bind_eq_ok.1 hk
  -- the first page is written with zeros, and once more with its content
  obtain ⟨store₁, hi₁, hs₁⟩ := hi.storeFirst (hfit.page_lt (Nat.le_add_right _ _)) h₁
  obtain ⟨store₂, hi₂, hs₂⟩ := hi₁.storePages (s := ⟨k₁, s.pages, store₁⟩) (f := seg.byte m)
    (hfit.page_lt (Nat.add_le_add_left hcontents _)).le (fun a _ ha => hfit.byte_middle ha) h₂
  obtain ⟨store₃, hi₃, hs₃⟩ := hi₂.storeLast (s := ⟨k₂, s.pages, store₂⟩) (f := seg.byte m)
    (hfit.page_lt (Nat.add_le_add_left hcontents _)) (fun a ha => hfit.byte_last ha) h₃
  have hz₃ := ((hz.kept hs₁.memory.kept).kept hs₂.memory.kept).kept hs₃.memory.kept
  obtain ⟨store₄, hi₄, hs₄⟩ := hi₃.storeZeroPages (s := ⟨k₃, s.pages, store₃⟩) (f := seg.byte m) hz₃
    (hfit.page_lt (Nat.add_assoc .. ▸ Nat.add_le_add_left hzerocount _)).le 
    (fun a ha => hfit.byte_zero ha) h₄
  have hcontent := hs₂.union hs₃ (Nat.le_refl _)
  have hall := hcontent.union hs₄ hlastzero
  rw [hcounts] at hall
  exact ⟨store₄, hi₄, hs₁.before hall (Nat.le_refl _) (Nat.add_le_add_left hone _)⟩

end

end Fos
