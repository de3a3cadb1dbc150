import Fos.Loader
import Fos.WorkingSet.Fifo

/-!
# Copying to user pages

The loader fills the pages it has mapped byte by byte, as the user program would.
-/

namespace Fos

open Function (update)
open Prog (bind_eq_ok ok_inj)

/-- The byte that page table and frame show at `va`. -/
def Kern.userByte (s : Kern) (e va : Nat) : Nat :=
  pageByte (s.ram (ppn (s.leaf (s.pageDirectory e) (ppn va)))) va

/-- The pages of the addresses from `lo` to `hi` in `dir`. -/
def addressPages (dir : DirPtr) (lo hi : Nat) : Set (DirPtr × Nat) :=
  {x | x.1 = dir ∧ ∃ a, lo ≤ a ∧ a < hi ∧ ppn a = x.2}

/-- The bytes from `lo` to `hi` are written to mapped pages of `e`. -/
structure WritesUser (pages : List DirPtr) (e lo hi : Nat) (f : Nat → UInt8)
    (s t : Kern) : Prop where
  kept : Kept ∅ s t
  envs : t.envs = s.envs
  frames : t.frames = s.frames
  disk : t.disk = s.disk
  leaf : ∀ q < 977920, present (s.leaf (s.pageDirectory e) q) →
    present (t.leaf (s.pageDirectory e) q) ∧
      ppn (t.leaf (s.pageDirectory e) q) = ppn (s.leaf (s.pageDirectory e) q)
  keeps : KeepsOutside pages (addressPages (s.pageDirectory e) lo hi) s t
  byte : ∀ a, ppn a < 977920 → present (s.leaf (s.pageDirectory e) (ppn a)) →
    t.userByte e a = if lo ≤ a ∧ a < hi then (f a).toNat else s.userByte e a

/-- The addresses from `lo` to `hi` are in mapped user pages with a frame of their own. -/
def OwnPages (e lo hi : Nat) (s : Kern) : Prop :=
  ∀ a, lo ≤ a → a < hi → ppn a < 977920 ∧ present (s.leaf (s.pageDirectory e) (ppn a)) ∧
    s.references (ppn (s.leaf (s.pageDirectory e) (ppn a))) = 1

/-- The two loops of the loader write the bytes `f` from `dst` on. -/
def writeUserBytes (e : Nat) (f : Nat → UInt8) : Nat → Nat → K Unit
  | 0, _ => return ()
  | n + 1, dst => do
    writeUserByte e dst (f dst).toNat
    writeUserBytes e f n (dst + 1)

section

variable {lay : Layout} {pages : List DirPtr} {s : FileState} {k t u : Kern}
    {e lo mid hi n va dst src : Nat}
  {f g : Nat → UInt8} {m : KernelImage}

theorem writeUserBytes_congr (h : ∀ a, dst ≤ a → a < dst + n → f a = g a) :
    writeUserBytes e f n dst = writeUserBytes e g n dst := by
  induction n generalizing dst with
  | zero => rfl
  | succ n ih =>
    unfold writeUserBytes
    rw [h dst (Nat.le_refl _) (by omega), ih fun a h1 h2 => h a (by omega) (by omega)]

theorem zeroUser_eq : zeroUser e n dst = writeUserBytes e (fun _ => 0) n dst := by
  induction n generalizing dst with
  | zero => rfl
  | succ n ih =>
    unfold zeroUser writeUserBytes
    rw [ih]
    rfl

theorem copyToUser_eq :
    copyToUser m e n dst src = writeUserBytes e (fun a => m (u32 (src + (a - dst)))) n dst := by
  induction n generalizing dst src with
  | zero => rfl
  | succ n ih =>
    unfold copyToUser writeUserBytes
    rw [ih, Nat.sub_self, Nat.add_zero]
    congr 1
    funext _
    apply writeUserBytes_congr
    intro a h1 _
    congr 2
    omega

/-! ## One byte -/

theorem StoreInv.writeUserByte_kept {v : Nat} (hi : StoreInv lay s)
    (hdir : s.kern.pageDirectory e ∈ s.pages) (hva : va < userTop)
    (hk : Fos.writeUserByte e va v s.kern = .ok () k) : Kept ∅ s.kern k := by
  obtain ⟨G, dirs, hpages, hfile⟩ := hi.file
  rw [← hpages] at hdir
  obtain ⟨hpr, -, hk⟩ := hfile.mem.writeUserByte hdir hva hk
  obtain ⟨t, hrun, -, ht⟩ := hfile.mem.writeUserPage hdir hva hpr _
  rw [hk] at hrun
  rw [(ok_inj.1 hrun).2]
  exact ht.toKept

theorem pageDirectory_congr (h : t.envs = k.envs) : t.pageDirectory e = k.pageDirectory e := by
  unfold Kern.pageDirectory
  rw [h]

/-- A page that is kept shows its bytes. -/
theorem KeepsPage.userByte (hd : t.pageDirectory e = k.pageDirectory e)
    (h : KeepsPage (k.pageDirectory e) (ppn va) k t)
    (hpr : present (k.leaf (k.pageDirectory e) (ppn va))) : t.userByte e va = k.userByte e va := by
  unfold Kern.userByte
  rw [hd, h.leaf, h.ram hpr]

theorem StoreInv.writeUserByte_writes (hs : StoreInv lay s)
    (hdir : s.kern.pageDirectory e ∈ s.pages)
    (hown : OwnPages e va (va + 1) s.kern) (hk : Fos.writeUserByte e va (f va).toNat s.kern = .ok () k) :
    StoreInv lay ⟨k, s.pages, s.store⟩ ∧ WritesUser s.pages e va (va + 1) f s.kern k := by
  obtain ⟨hlt, hpr, hone⟩ := hown va (Nat.le_refl _) (Nat.lt_succ_self _)
  have hva : va < userTop := by
    unfold ppn at hlt
    unfold userTop
    omega
  obtain ⟨hik, hw, hkeep⟩ := hs.writeUserByte hdir hva (fun _ => hone) hk
  have hd := pageDirectory_congr (e := e) hw.envs
  -- the write changes the modified bit of the entry, not its frame
  have hframe : ppn (k.leaf (s.kern.pageDirectory e) (ppn va)) =
      ppn (s.kern.leaf (s.kern.pageDirectory e) (ppn va)) := by
    rw [hw.leaf]
    exact ppn_setPerm _ (by decide)
  refine ⟨hik, hs.writeUserByte_kept hdir hva hk, hw.envs, hw.frames, hw.disk, fun q hq hprq => ?_,
    hkeep.mono ?_, fun a ha hpra => ?_⟩
  · by_cases hqv : q = ppn va
    · subst hqv
      refine ⟨?_, hframe⟩
      rw [hw.leaf]
      exact (present_setPerm _).2 hpr
    · have hkq := hkeep _ hdir q hq fun hc => hqv (congrArg Prod.snd hc)
      rw [hkq.leaf]
      exact ⟨hprq, rfl⟩
  · rintro x rfl
    exact ⟨rfl, va, Nat.le_refl _, Nat.lt_succ_self _, rfl⟩
  · by_cases hpage : ppn a = ppn va
    · -- a byte of the page that is written
      unfold Kern.userByte
      rw [hd, hpage, hframe, hw.content]
      by_cases hav : a = va
      · subst hav
        rw [if_pos ⟨Nat.le_refl _, Nat.lt_succ_self _⟩]
        exact pageByte_self (f a).toNat_lt
      · rw [if_neg (by omega)]
        exact pageByte_of_ne (f va).toNat_lt hpage hav
    · have hne : ¬ (va ≤ a ∧ a < va + 1) := by
        rintro ⟨h1, h2⟩
        exact hpage (congrArg ppn (by omega))
      rw [if_neg hne]
      exact (hkeep _ hdir _ ha fun hc => hpage (congrArg Prod.snd hc)).userByte hd hpra

/-! ## Many -/

theorem WritesUser.refl (pages : List DirPtr) (e lo : Nat) (f : Nat → UInt8) (s : Kern) :
    WritesUser pages e lo lo f s s := by
  refine ⟨.refl _ _, rfl, rfl, rfl, fun _ _ h => ⟨h, rfl⟩, .refl _ _ _, fun a _ _ => ?_⟩
  rw [if_neg (by omega)]

theorem WritesUser.pageDirectory (h : WritesUser pages e lo hi f k t) :
    t.pageDirectory e = k.pageDirectory e := pageDirectory_congr h.envs

theorem addressPages_mono {dir : DirPtr} {lo' hi' : Nat} (h1 : lo' ≤ lo) (h2 : hi ≤ hi') :
    addressPages dir lo hi ⊆ addressPages dir lo' hi' := by
  rintro x ⟨hx, a, ha, hb, hp⟩
  exact ⟨hx, a, by omega, by omega, hp⟩

/-- One stretch after another. -/
theorem WritesUser.trans (h : WritesUser pages e lo mid f k t)
    (h' : WritesUser pages e mid hi g t u) (h1 : lo ≤ mid) (h2 : mid ≤ hi) :
    WritesUser pages e lo hi (fun a => if a < mid then f a else g a) k u := by
  have hd := h.pageDirectory
  refine ⟨h.kept.trans h'.kept, h'.envs.trans h.envs, h'.frames.trans h.frames,
    h'.disk.trans h.disk, fun q hq hpr => ?_, ?_, fun a ha hpr => ?_⟩
  · obtain ⟨hpr₁, heq₁⟩ := h.leaf q hq hpr
    rw [← hd] at hpr₁ heq₁ ⊢
    obtain ⟨hpr₂, heq₂⟩ := h'.leaf q hq hpr₁
    exact ⟨hpr₂, heq₂.trans heq₁⟩
  · have hk' := h'.keeps
    rw [hd] at hk'
    exact (h.keeps.mono (addressPages_mono (Nat.le_refl _) h2)).trans
      (hk'.mono (addressPages_mono h1 (Nat.le_refl _)))
  · have hpr₁ := (h.leaf _ ha hpr).1
    rw [← hd] at hpr₁
    rw [h'.byte a ha hpr₁, h.byte a ha hpr]
    -- a byte was written by the first part, by the second, or by none
    by_cases ham : a < mid
    · rw [if_neg (by omega), if_pos ham]
      by_cases hal : lo ≤ a
      · rw [if_pos ⟨hal, ham⟩, if_pos ⟨hal, by omega⟩]
      · rw [if_neg (by omega), if_neg (by omega)]
    · rw [if_neg ham]
      by_cases hah : a < hi
      · rw [if_pos ⟨by omega, hah⟩, if_pos ⟨by omega, hah⟩]
      · rw [if_neg (by omega), if_neg (by omega), if_neg (by omega)]

theorem OwnPages.writes {lo' hi' : Nat} (h : OwnPages e lo' hi' k)
    (hw : WritesUser pages e lo hi f k t) : OwnPages e lo' hi' t := by
  intro a h1 h2
  obtain ⟨hlt, hpr, hone⟩ := h a h1 h2
  obtain ⟨hpr', heq⟩ := hw.leaf _ hlt hpr
  rw [hw.pageDirectory, heq]
  unfold Kern.references at hone ⊢
  rw [hw.frames]
  exact ⟨hlt, hpr', hone⟩

theorem OwnPages.mono {lo' hi' : Nat} (h : OwnPages e lo hi k) (h1 : lo ≤ lo') (h2 : hi' ≤ hi) :
    OwnPages e lo' hi' k := fun a ha hb => h a (by omega) (by omega)

/-- **The loop** writes all the bytes. -/
theorem StoreInv.writeUserBytes (hs : StoreInv lay s) (hdir : s.kern.pageDirectory e ∈ s.pages)
    (hown : OwnPages e dst (dst + n) s.kern) (hk : Fos.writeUserBytes e f n dst s.kern = .ok () k) :
    StoreInv lay ⟨k, s.pages, s.store⟩ ∧ WritesUser s.pages e dst (dst + n) f s.kern k := by
  induction n generalizing s dst with
  | zero =>
    obtain ⟨-, rfl⟩ := ok_inj.1 hk
    exact ⟨hs, .refl ..⟩
  | succ n ih =>
    unfold Fos.writeUserBytes at hk
    obtain ⟨_, t, h₁, hk⟩ := bind_eq_ok.1 hk
    obtain ⟨hit, ht⟩ := hs.writeUserByte_writes hdir (hown.mono (Nat.le_refl _) (by omega)) h₁
    have hd := ht.pageDirectory
    have hown' : OwnPages e (dst + 1) (dst + 1 + n) t := (hown.writes ht).mono (by omega) (by omega)
    obtain ⟨hik, hw⟩ := ih (s := ⟨t, s.pages, s.store⟩) hit (by rw [hd]; exact hdir) hown' hk
    refine ⟨hik, ?_⟩
    have hall := ht.trans hw (by omega) (by omega)
    rw [show dst + 1 + n = dst + (n + 1) by omega] at hall
    simpa only [ite_self] using hall

end

/-! ## The bytes of one page -/

/-- The state after the page of the entry `pte`, in frame `table`, is written. -/
def Kern.writtenPage (s : Kern) (table i pte : Nat) (page : Nat → Nat) : Kern :=
  (s.store table i (setPerm pte permModified)).fill (ppn pte) page

/-- The page with the bytes `f` from `dst` on. -/
def withBytes (f : Nat → UInt8) : Nat → Nat → (Nat → Nat) → Nat → Nat
  | 0, _, page => page
  | n + 1, dst, page => withBytes f n (dst + 1) (withPageByte page dst (f dst).toNat)

section

variable {s : Kern} {e n d va va' dst table pte v : Nat} {f : Nat → UInt8} {page page' : Nat → Nat}

theorem writeUserByte_walk (hwalk : s.walk (s.pageDirectory e) va = some (table, pte))
    (hw : pte &&& permWriteable ≠ 0) :
    writeUserByte e va v s =
      .ok () (s.writtenPage table (ptx va) pte (withPageByte (s.ram (ppn pte)) va v)) := by
  rw [writeUserByte, Prog.get_bind_apply, hwalk]
  dsimp only
  rw [Prog.ite_run, if_neg hw, writeUserPage, Prog.get_bind_apply, hwalk]
  rfl

theorem writable_setPerm {w : Nat} (hw : w &&& permWriteable ≠ 0) :
    setPerm w permModified &&& permWriteable ≠ 0 := by
  unfold setPerm
  rw [Nat.and_or_distrib_right]
  intro hz
  exact hw (Nat.or_eq_zero_iff.1 hz).1

theorem writtenPage_twice {i : Nat} (hne : table ≠ ppn pte) :
    (s.writtenPage table i pte page).writtenPage table i (setPerm pte permModified) page' =
      s.writtenPage table i pte page' := by
  have hidem : setPerm (setPerm pte permModified) permModified = setPerm pte permModified := by
    unfold setPerm
    rw [Nat.or_assoc, Nat.or_self]
  unfold Kern.writtenPage Kern.fill Kern.store
  rw [hidem, ppn_setPerm _ (by decide)]
  dsimp only
  rw [Function.update_of_ne hne, Function.update_self, Function.update_idem,
    Function.update_comm hne.symm, Function.update_idem, Function.update_idem]

/-- The MMU still finds the page. -/
theorem walk_writtenPage (page : Nat → Nat) (hpage : ppn va' = ppn va)
    (hwalk : s.walk (.heap d) va = some (table, pte))
    (h1 : s.frameAt d ≠ table) (h2 : s.frameAt d ≠ ppn pte) (h3 : table ≠ ppn pte) :
    (s.writtenPage table (ptx va) pte page).walk (.heap d) va' =
      some (table, setPerm pte permModified) := by
  have hpdx : pdx va' = pdx va := by
    unfold pdx
    unfold ppn at hpage
    omega
  have hptx : ptx va' = ptx va := congrArg (· % 1024) hpage
  -- neither the table nor the page is the directory
  have hpde : (s.writtenPage table (ptx va) pte page).pde (.heap d) (pdx va) =
      s.pde (.heap d) (pdx va) := by
    show update (update s.ram table _) (ppn pte) page (s.frameAt d) (pdx va) =
      s.ram (s.frameAt d) (pdx va)
    rw [Function.update_of_ne h2, Function.update_of_ne h1]
  have hpte : (s.writtenPage table (ptx va) pte page).ram table (ptx va) =
      setPerm pte permModified := by
    show update (update s.ram table _) (ppn pte) page table (ptx va) = _
    rw [Function.update_of_ne h3, Function.update_self, Function.update_self]
  unfold Kern.walk at hwalk ⊢
  dsimp only at hwalk ⊢
  rw [hpdx, hptx, hpde]
  split at hwalk
  case isTrue hdir =>
    split at hwalk
    case isTrue hpr =>
      obtain ⟨rfl, rfl⟩ := Prod.mk.inj (Option.some.inj hwalk)
      rw [if_pos hdir, hpte, if_pos ((present_setPerm _).2 hpr)]
    case isFalse => cases hwalk
  case isFalse => cases hwalk

/-- **The bytes of one page** are written as if at once. -/
theorem writeUserBytes_page (hdir : s.pageDirectory e = .heap d)
    (hwalk : s.walk (.heap d) va = some (table, pte)) (hw : pte &&& permWriteable ≠ 0)
    (h1 : s.frameAt d ≠ table) (h2 : s.frameAt d ≠ ppn pte) (h3 : table ≠ ppn pte)
    (hn : ∀ a, dst ≤ a → a < dst + n → ppn a = ppn va) :
    writeUserBytes e f n dst (s.writtenPage table (ptx va) pte page) =
      .ok () (s.writtenPage table (ptx va) pte (withBytes f n dst page)) := by
  induction n generalizing dst page with
  | zero => rfl
  | succ n ih =>
    have hdst := hn dst (Nat.le_refl _) (by omega)
    have hptx : ptx dst = ptx va := congrArg (· % 1024) hdst
    have hd : (s.writtenPage table (ptx va) pte page).pageDirectory e = .heap d := hdir
    have hfound := walk_writtenPage page hdst hwalk h1 h2 h3
    have hram : (s.writtenPage table (ptx va) pte page).ram (ppn pte) = page :=
      Function.update_self ..
    have hbyte := writeUserByte_walk (e := e) (v := (f dst).toNat) (hd ▸ hfound)
      (writable_setPerm hw)
    rw [hptx, writtenPage_twice h3, ppn_setPerm _ (by decide), hram] at hbyte
    rw [writeUserBytes, Prog.bind_of_ok hbyte]
    exact ih fun a ha hb => hn a (by omega) (by omega)

theorem writeUserBytes_walk (hdir : s.pageDirectory e = .heap d)
    (hwalk : s.walk (.heap d) va = some (table, pte)) (hw : pte &&& permWriteable ≠ 0)
    (h1 : s.frameAt d ≠ table) (h2 : s.frameAt d ≠ ppn pte) (h3 : table ≠ ppn pte)
    (hn : ∀ a, va ≤ a → a < va + (n + 1) → ppn a = ppn va) :
    writeUserBytes e f (n + 1) va s =
      .ok () (s.writtenPage table (ptx va) pte (withBytes f (n + 1) va (s.ram (ppn pte)))) := by
  rw [writeUserBytes, Prog.bind_of_ok (writeUserByte_walk (hdir ▸ hwalk) hw)]
  exact writeUserBytes_page hdir hwalk hw h1 h2 h3 fun a ha hb => hn a (by omega) (by omega)

/-- The zeros do not leave the page. -/
theorem zeroUser_walk (hdir : s.pageDirectory e = .heap d)
    (hwalk : s.walk (.heap d) va = some (table, pte)) (hw : pte &&& permWriteable ≠ 0)
    (h1 : s.frameAt d ≠ table) (h2 : s.frameAt d ≠ ppn pte) (h3 : table ≠ ppn pte)
    (hn : va % 4096 + (n + 1) ≤ 4096) :
    zeroUser e (n + 1) va s = .ok ()
      (s.writtenPage table (ptx va) pte (withBytes (fun _ => 0) (n + 1) va (s.ram (ppn pte)))) := by
  rw [zeroUser_eq]
  apply writeUserBytes_walk hdir hwalk hw h1 h2 h3
  intro a ha hlt
  unfold ppn
  omega

end

end Fos
