import Fos.PageFile.MemoryRuns
import Fos.SharedMemory.FullTable
import Fos.SharedMemory.Pages

/-!
# The calls on shared objects

Between calls every attachment is whole, and the reference count of an entry is the number of its
attachments. Each of `createSharedObject`, `getSharedObject` and `freeSharedObject` keeps that where
the range it works on is mapped nowhere yet, or is the range of an attachment.
-/

namespace Fos

open Function (update update_self update_of_ne)
open Prog (bind_eq_ok bind_of_ok ok_inj)

/-- The object of an entry in use. -/
def Shares.object (sh : Shares) (i : Nat) : Option ObjectAt :=
  if i < sh.maxShares ∧ (sh.shares i).empty = false then
    some ⟨(sh.shares i).framesStorage / 4096, (sh.shares i).size / pageSize⟩
  else none

/-- How many attachments an object has. -/
def attachCount (atts : List Attachment) (i : Nat) : Nat :=
  atts.countP fun a => decide (a.object = i)

/-- The permissions with which `getSharedObject` maps an object. -/
def Share.perm (share : Share) : Nat :=
  if share.isWritable ≠ 0 then permWriteable ||| permUser else permUser

/-- The state between two calls. -/
structure SharesOk (lay : Layout) (G : Set Nat) (dirs : Roots) (atts : List Attachment) (s : Kern) :
    Prop where
  mem : MemOk lay G ∅ dirs ∅ s
  attached : Attached dirs s.shares.object atts s
  table : s.shares.null = false
  storage : ∀ i o, s.shares.object i = some o → (s.shares.shares i).framesStorage = o.storage * 4096
  first : ∀ a ∈ atts, a.first = 0
  last : ∀ a ∈ atts, ∀ o, s.shares.object a.object = some o → a.last = o.pages
  range : ∀ a ∈ atts, a.va + 4096 * a.last ≤ userTop
  references : ∀ i o, s.shares.object i = some o →
    (s.shares.shares i).references = attachCount atts i
  used : ∀ i o, s.shares.object i = some o → 0 < attachCount atts i
  bound : ∀ i, attachCount atts i < 4294967296
  perm : ∀ a ∈ atts, a.perm =
    if a.got then (s.shares.shares a.object).perm else permWriteable ||| permUser
  envs : ∀ e, (s.envs e).envPageDirectory ≠ 0 → s.pageDirectory e ∈ dirs.page

/-- `n` pages of an environment from an address on that lie below `USER_TOP` and are not mapped. -/
structure Unmapped (s : Kern) (e va n : Nat) : Prop where
  dir : (s.envs e).envPageDirectory ≠ 0
  range : va + 4096 * n ≤ userTop
  zero : ∀ k < n, s.leaf (s.pageDirectory e) (ppn va + k) = 0

section

variable {lay : Layout} {G D : Set Nat} {dirs dirs' : Roots} {held : Set Nat} {s t u : Kern}
  {sh : Shares} {share : Share} {objs : Nat → Option ObjectAt} {atts atts' rest : List Attachment}
  {a : Attachment} {o : ObjectAt} {dir : DirPtr} {name : List UInt8} {id : Int}
  {curenv ownerID size isWritable i k n p va : Nat}

/-! ## The array -/

theorem readShare_ok (hnull : s.shares.null = false) :
    readShare i s = .ok (s.shares.shares i) s := by
  rw [readShare, Prog.get_bind_apply, Prog.ite_run, if_neg (by simp [hnull])]
  rfl

theorem object_eq_some : sh.object i = some o ↔ (i < sh.maxShares ∧ (sh.shares i).empty = false) ∧
    (sh.shares i).framesStorage / 4096 = o.storage ∧ (sh.shares i).size / pageSize = o.pages := by
  unfold Shares.object
  split
  case isTrue h =>
    rw [Option.some_inj, ObjectAt.mk.injEq]
    exact ⟨fun he => ⟨h, he⟩, fun he => he.2⟩
  case isFalse h =>
    constructor
    · intro he
      cases he
    · exact fun he => absurd he.1 h

theorem object_of_empty (h : (sh.shares i).empty = true) : sh.object i = none :=
  if_neg fun hc => by
    rw [h] at hc
    cases hc.2

/-- An entry in use is written. -/
theorem object_setShare (hi : i < sh.maxShares) (hempty : share.empty = false) :
    (sh.setShare i share).object =
      update sh.object i (some ⟨share.framesStorage / 4096, share.size / pageSize⟩) := by
  funext j
  unfold Shares.object Shares.setShare
  dsimp only
  by_cases hj : j = i
  · subst hj
    simp [hempty, hi]
  · simp [hj]

theorem object_setShare_empty (hempty : share.empty = true) :
    (sh.setShare i share).object = update sh.object i none := by
  funext j
  unfold Shares.object Shares.setShare
  dsimp only
  by_cases hj : j = i
  · subst hj
    simp [hempty]
  · simp [hj]

/-- The lookup leaves the state, and what it finds is an entry in use. -/
theorem getShareObjectID_run (hnull : s.shares.null = false) :
    getShareObjectID ownerID name s =
      .ok (match s.shares.find ownerID name with
        | some i => (i : Int)
        | none => eSharedMemNotExists) s := by
  rw [getShareObjectID, Prog.get_bind_apply, Prog.ite_run, if_neg (by simp [hnull])]
  cases s.shares.find ownerID name <;> rfl

theorem find_object (h : sh.find ownerID name = some i) :
    sh.object i = some ⟨(sh.shares i).framesStorage / 4096, (sh.shares i).size / pageSize⟩ := by
  have hmem := List.mem_of_find?_eq_some h
  have hp := List.find?_some h
  simp only [Bool.and_eq_true, Bool.not_eq_true'] at hp
  exact if_pos ⟨List.mem_range.1 hmem, hp.1.1⟩

/-! ## Counting attachments -/

theorem attachCount_cons (a : Attachment) (atts : List Attachment) (i : Nat) :
    attachCount (a :: atts) i = attachCount atts i + if a.object = i then 1 else 0 := by
  unfold attachCount
  rw [List.countP_cons]
  simp

theorem attachCount_pos : (∃ a ∈ atts, a.object = i) ↔ 0 < attachCount atts i := by
  unfold attachCount
  rw [List.countP_pos_iff]
  simp

theorem coverCount_le (atts : List Attachment) (i k : Nat) :
    coverCount atts i k ≤ attachCount atts i :=
  List.countP_mono_left fun _ _ hc => by
    simp only [decide_eq_true_eq] at hc ⊢
    exact hc.1

/-! ## Writing the array -/

/-- Nothing in memory reads the array. -/
theorem still_setShares (pages : List DirPtr) (D held : Set Nat) (s : Kern) (sh : Shares) :
    Still pages D held s (s.setShares sh) :=
  ⟨⟨fun _ _ => rfl, fun _ _ => rfl, fun _ _ => rfl, rfl, rfl, fun _ _ => rfl⟩, fun _ _ _ _ => rfl,
    fun _ _ => rfl, fun _ _ => rfl⟩

theorem MemOk.setShares (h : MemOk lay G D dirs held s) (sh : Shares) :
    MemOk lay G D dirs held (s.setShares sh) := h.setRest s.disk s.envs sh

theorem Attached.setShares (h : Attached dirs objs atts s) (sh : Shares) :
    Attached dirs objs atts (s.setShares sh) :=
  h.still (still_setShares _ ∅ ∅ s sh) fun _ _ _ _ => rfl

/-! ## Invariants -/

theorem SharesOk.covered (h : SharesOk lay G dirs atts s) : Covered s.shares.object atts := by
  intro i o ho k hk
  obtain ⟨a, ha, rfl⟩ := attachCount_pos.2 (h.used i o ho)
  exact ⟨a, ha, rfl, (h.first a ha).le.trans (Nat.zero_le k), hk.trans_eq (h.last a ha o ho).symm⟩

/-- Only the entry of a live object has attachments. -/
theorem SharesOk.live (h : SharesOk lay G dirs atts s) (ha : a ∈ atts) :
    ∃ o, s.shares.object a.object = some o := by
  obtain ⟨-, -, -, o, ho, -⟩ := h.attached.attachment a ha
  exact ⟨o, ho⟩

theorem SharesOk.object_ne (h : SharesOk lay G dirs atts s) (hi : s.shares.object i = none)
    (ha : a ∈ atts) : a.object ≠ i := by
  rintro rfl
  obtain ⟨o, ho⟩ := h.live ha
  rw [hi] at ho
  cases ho

theorem SharesOk.attachCount_none (h : SharesOk lay G dirs atts s) (hi : s.shares.object i = none) :
    attachCount atts i = 0 := by
  apply Nat.eq_zero_of_not_pos
  rw [← attachCount_pos]
  rintro ⟨a, ha, hai⟩
  exact h.object_ne hi ha hai

/-- An object has its pages mapped by all its attachments. -/
theorem SharesOk.coverCount_eq (h : SharesOk lay G dirs atts s) (ho : s.shares.object i = some o)
    (hk : k < o.pages) : coverCount atts i k = attachCount atts i := by
  unfold coverCount attachCount
  apply List.countP_congr
  intro a ha
  simp only [decide_eq_true_eq]
  constructor
  · exact fun hc => hc.1
  · rintro rfl
    have hfirst := h.first a ha
    have hlast := h.last a ha o ho
    exact ⟨rfl, by omega, by omega⟩

/-! ## `createSharedObject` -/

/-- The lookup of `allocate_share_object` with an entry that is not in use. -/
theorem allocateShareObject_room (hnull : s.shares.null = false)
    (hroom : ∃ i < s.shares.maxShares, (s.shares.shares i).empty = true) :
    ∃ i < s.shares.maxShares, (s.shares.shares i).empty = true ∧
      allocateShareObject s = takeShareEntry i s := by
  obtain ⟨j, hj, hempty⟩ := hroom
  cases hv : (List.range s.shares.maxShares).find? fun i => (s.shares.shares i).empty with
  | none => exact absurd hempty (List.find?_eq_none.1 hv j (List.mem_range.2 hj))
  | some i =>
    have hi : (s.shares.shares i).empty = true := by
      have := List.find?_some hv
      exact this
    refine ⟨i, List.mem_range.1 (List.mem_of_find?_eq_some hv), hi, ?_⟩
    rw [allocateShareObject, Prog.get_bind_apply, Prog.ite_run, if_neg (by simp [hnull]), hv]

/-- A new entry: its storage has no frames, and nothing else changed. -/
theorem SharesOk.allocateShareObject (h : SharesOk lay G dirs atts s)
    (hroom : ∃ i < s.shares.maxShares, (s.shares.shares i).empty = true)
    (hk : Fos.allocateShareObject s = .ok id t) :
    ∃ i p G' dirs', id = (i : Nat) ∧ i < s.shares.maxShares ∧ (s.shares.shares i).empty = true ∧
      dirs'.page = dirs.page ∧ MemOk lay G' ∅ dirs' ∅ t ∧
      Attached dirs' (update s.shares.object i (some ⟨p, 0⟩)) atts t ∧
      t.shares = s.shares.setShare i ((s.shares.shares i).taken (p * 4096)) ∧ t.envs = s.envs ∧
      ∀ dir ∈ dirs.page, ∀ q < 977920, t.leaf dir q = s.leaf dir q := by
  obtain ⟨i, hi, hempty, hrun⟩ := allocateShareObject_room h.table hroom
  rw [hrun] at hk
  obtain ⟨va, u, hnew, rfl, rfl⟩ := (takeShareEntry_iff h.table).1 hk
  obtain ⟨v, hkm, hne, hz⟩ := newFramesStorage_ok hnew
  obtain ⟨p, hd, rfl, hok, hq, htab⟩ := h.mem.newStorage hkm hne hz
  have hstill := hq.still h.mem
  have hatt := h.attached.still hstill fun dir hdir => hq.leaf dir (.inr hdir)
  have hobj : Attached (dirs.addDisk (.heap (p * 4096)) hd)
      (update s.shares.object i (some ⟨p, 0⟩)) atts u :=
    hatt.newObject (object_of_empty hempty) rfl (fun dir hdir => List.mem_cons_of_mem _ hdir)
      List.mem_cons_self (fun hc => hd (.inr hc)) fun q hq => leaf_of_none (htab _ (by omega))
  exact ⟨i, p, insert p G, dirs.addDisk (.heap (p * 4096)) hd, rfl, hi, hempty, rfl,
    hok.setShares _, hobj.setShares _, rfl, hq.envs, fun dir hdir => hq.leaf dir (.inl hdir)⟩

/-- What an attachment of entry `i` has to be when the entry holds `share`. -/
structure Attachment.Fits (a : Attachment) (share : Share) : Prop where
  first : a.first = 0
  last : a.last = share.size / pageSize
  range : a.va + 4096 * a.last ≤ userTop
  perm : a.perm = if a.got then share.perm else permWriteable ||| permUser

theorem SharesOk.fits (h : SharesOk lay G dirs atts s) (ha : a ∈ atts) :
    a.Fits (s.shares.shares a.object) := by
  obtain ⟨o, ho⟩ := h.live ha
  refine ⟨h.first a ha, ?_, h.range a ha, h.perm a ha⟩
  rw [h.last a ha o ho]
  exact (object_eq_some.1 ho).2.2.symm

/-- One entry is written, and only its attachments change. -/
theorem SharesOk.enter (h : SharesOk lay G dirs atts s) {G' : Set Nat}
    (hmem : MemOk lay G' ∅ dirs' ∅ t)
    (hpage : dirs'.page = dirs.page) (henvs : t.envs = s.envs) (hi : i < s.shares.maxShares)
    (hempty : share.empty = false)
    (hstorage : share.framesStorage = o.storage * 4096) (hpages : share.size / pageSize = o.pages)
    (hatt : Attached dirs' (update s.shares.object i (some o)) atts' t)
    (hrefs : share.references = attachCount atts' i) (hpos : 0 < attachCount atts' i)
    (hlt : attachCount atts' i < 4294967296)
    (hcount : ∀ j, j ≠ i → attachCount atts' j = attachCount atts j)
    (hself : ∀ a ∈ atts', a.object = i → a.Fits share)
    (hothers : ∀ a ∈ atts', a.object ≠ i → a ∈ atts) :
    SharesOk lay G' dirs' atts' (t.setShares (s.shares.setShare i share)) := by
  set t' := t.setShares (s.shares.setShare i share) with ht'
  have hobj : t'.shares.object = update s.shares.object i (some o) := by
    show (s.shares.setShare i share).object = _
    rw [object_setShare hi hempty, hstorage, hpages, Nat.mul_div_cancel _ (by omega)]
  have hentry : t'.shares.shares i = share := update_self ..
  have hother : ∀ j, j ≠ i → t'.shares.shares j = s.shares.shares j := fun j hj =>
    update_of_ne hj ..
  have hfits : ∀ a ∈ atts', a.Fits (t'.shares.shares a.object) := by
    intro a ha
    by_cases hai : a.object = i
    · rw [hai, hentry]
      exact hself a ha hai
    · rw [hother _ hai]
      exact h.fits (hothers a ha hai)
  -- the objects are the entered one and those of before
  have hcase : ∀ j o', t'.shares.object j = some o' →
      (j = i ∧ o' = o) ∨ (j ≠ i ∧ s.shares.object j = some o') := by
    intro j o' ho'
    rw [hobj] at ho'
    by_cases hj : j = i
    · subst hj
      rw [update_self] at ho'
      exact .inl ⟨rfl, (Option.some.inj ho').symm⟩
    · rw [update_of_ne hj] at ho'
      exact .inr ⟨hj, ho'⟩
  rw [← hobj] at hatt
  refine ⟨hmem.setShares _, hatt.setShares _, h.table, ?_, fun a ha => (hfits a ha).first, ?_,
    fun a ha => (hfits a ha).range, ?_, ?_, ?_, fun a ha => (hfits a ha).perm, ?_⟩
  · intro j o' ho'
    rcases hcase j o' ho' with ⟨rfl, rfl⟩ | ⟨hj, hold⟩
    · rw [hentry, hstorage]
    · rw [hother j hj]
      exact h.storage j o' hold
  · intro a ha o' ho'
    rw [(hfits a ha).last]
    exact (object_eq_some.1 ho').2.2
  · intro j o' ho'
    rcases hcase j o' ho' with ⟨rfl, rfl⟩ | ⟨hj, hold⟩
    · rw [hentry, hrefs]
    · rw [hother j hj, hcount j hj]
      exact h.references j o' hold
  · intro j o' ho'
    rcases hcase j o' ho' with ⟨rfl, rfl⟩ | ⟨hj, hold⟩
    · exact hpos
    · rw [hcount j hj]
      exact h.used j o' hold
  · intro j
    by_cases hj : j = i
    · rw [hj]
      exact hlt
    · rw [hcount j hj]
      exact h.bound j
  · intro e he
    change (t.envs e).envPageDirectory ≠ 0 at he
    show .heap (t.envs e).envPageDirectory ∈ dirs'.page
    rw [hpage]
    rw [henvs] at he ⊢
    exact h.envs e he

theorem setShare_setShare (sh : Shares) (i : Nat) (a b : Share) :
    (sh.setShare i a).setShare i b = sh.setShare i b := by
  unfold Shares.setShare
  dsimp only
  rw [Function.update_idem]

/-- The attachment that a call makes. -/
def newAttachment (s : Kern) (curenv va i n perm : Nat) (got : Bool) : Attachment :=
  ⟨s.pageDirectory curenv, va, i, 0, n, perm, got⟩

theorem Unmapped.page_le (h : Unmapped s curenv va n) (hk : k ≤ n) : ppn va + k ≤ 977920 := by
  have := h.range
  unfold userTop at this
  unfold ppn
  omega

/-- **`createSharedObject`** over unmapped pages makes an object with one attachment, or finds the
name taken. -/
theorem SharesOk.createSharedObject (h : SharesOk lay G dirs atts s)
    (hroom : ∃ i < s.shares.maxShares, (s.shares.shares i).empty = true)
    (hun : Unmapped s curenv va (roundup size pageSize / pageSize))
    (hk : Fos.createSharedObject curenv ownerID name size isWritable va s = .ok id t) :
    (id = eSharedMemExists ∧ t = s) ∨ ∃ i G' dirs', id = (i : Nat) ∧
      (s.shares.shares i).empty = true ∧ dirs'.page = dirs.page ∧
      SharesOk lay G' dirs' (newAttachment s curenv va i (roundup size pageSize / pageSize)
        (permWriteable ||| permUser) false :: atts) t := by
  set n := roundup size pageSize / pageSize with hn
  rw [Fos.createSharedObject, bind_of_ok (getShareObjectID_run h.table)] at hk
  cases hf : s.shares.find ownerID name with
  | some j =>
    rw [hf] at hk
    dsimp only at hk
    rw [Prog.ite_run, if_pos (Int.natCast_nonneg j)] at hk
    obtain ⟨rfl, rfl⟩ := ok_inj.1 hk
    exact .inl ⟨rfl, rfl⟩
  | none =>
    right
    rw [hf] at hk
    dsimp only at hk
    rw [Prog.ite_run, if_neg (by decide)] at hk
    obtain ⟨ret, s₁, h₁, hk⟩ := bind_eq_ok.1 hk
    obtain ⟨i, p, G₁, dirs', rfl, hi, hempty, hpage, hok₁, hatt₁, hsh₁, henv₁, hleaf₁⟩ :=
      h.allocateShareObject hroom h₁
    have hnull₁ : s₁.shares.null = false := by
      rw [hsh₁]
      exact h.table
    have hdir : s.pageDirectory curenv ∈ dirs.page := h.envs curenv hun.dir
    have hentry₁ : s₁.shares.shares i = (s.shares.shares i).taken (p * 4096) := by
      rw [hsh₁]
      exact update_self ..
    have hstorage : (s₁.shares.shares i).framesStorage = p * 4096 := by
      rw [hentry₁]
      rfl
    rw [Prog.ite_run, if_neg (by unfold eNoShare; omega), Int.toNat_natCast,
      bind_of_ok (readShare_ok hnull₁), Prog.get_bind_apply, henv₁, hstorage] at hk
    obtain ⟨_, s₂, h₂, hk⟩ := bind_eq_ok.1 hk
    -- the empty attachment that the loop extends
    have hnone : s.shares.object i = none := object_of_empty hempty
    have hpush := hatt₁.push (c := newAttachment s curenv va i 0 (permWriteable ||| permUser) false)
      (o := ⟨p, 0⟩) (by rw [hpage]; exact hdir) (hun.page_le (Nat.zero_le n)) (show 6 < 4096 by omega)
      (update_self ..) (le_refl _) (le_refl _)
    have hcov : Covered (update s.shares.object i (some ⟨p, 0⟩))
        (newAttachment s curenv va i 0 (permWriteable ||| permUser) false :: atts) := by
      intro j o ho k hk
      by_cases hj : j = i
      · subst hj
        rw [update_self] at ho
        cases ho
        exact absurd hk (Nat.not_lt_zero k)
      · rw [update_of_ne hj] at ho
        obtain ⟨a, ha, hc⟩ := h.covered j o ho k hk
        exact ⟨a, .tail _ ha, hc⟩
    have hz : ∀ k < n, s₁.leaf (s.pageDirectory curenv) (ppn va + k) = 0 := by
      intro k hkn
      have hlt : ppn va + k < 977920 := hun.page_le hkn
      rw [hleaf₁ _ hdir _ hlt]
      exact hun.zero k hkn
    have hrange : va + 4096 * (0 + n) ≤ userTop := by
      rw [Nat.zero_add]
      exact hun.range
    obtain ⟨G', -, hok₂, hatt₂, -, henv₂, hsh₂⟩ :=
      hok₁.createSharedPages hpush hcov (update_self ..)
      rfl (le_refl _) rfl (n := n) hrange
      (fun k _ hkn => hz k (by have hlt : k < 0 + n := hkn; omega)) h₂
    have hnull₂ : s₂.shares.null = false := by
      rw [hsh₂]
      exact hnull₁
    rw [bind_of_ok (writeShare_ok hnull₂ _), hsh₂, hentry₁, hsh₁, setShare_setShare] at hk
    obtain ⟨rfl, rfl⟩ := ok_inj.1 hk
    change Attached dirs' (update (update _ i (some ⟨p, 0⟩)) i (some ⟨p, 0 + n⟩))
      (newAttachment s curenv va i (0 + n) (permWriteable ||| permUser) false :: atts) s₂ at hatt₂
    rw [Function.update_idem, Nat.zero_add] at hatt₂
    have hcount := h.attachCount_none hnone
    refine ⟨i, G', dirs', rfl, hempty, hpage, ?_⟩
    have hsame := attachCount_cons
      (newAttachment s curenv va i n (permWriteable ||| permUser) false) atts
    apply h.enter hok₂ hpage (henv₂.trans henv₁) hi rfl rfl rfl hatt₂
    · rw [hsame, hcount, if_pos (show (newAttachment s curenv va i n _ false).object = i from rfl)]
    · rw [hsame, hcount]
      simp [newAttachment]
    · rw [hsame, hcount]
      simp [newAttachment]
    · intro j hj
      rw [hsame]
      simp [newAttachment, hj.symm]
    · rintro a (_ | ⟨_, ha⟩) hai
      · exact ⟨rfl, rfl, hun.range, rfl⟩
      · exact absurd hai (h.object_ne hnone ha)
    · rintro a (_ | ⟨_, ha⟩) hai
      · exact absurd rfl hai
      · exact ha

/-! ## `getSharedObject` -/

/-- **`getSharedObject`** over unmapped pages gives the object one attachment more, or finds no
object of the name. -/
theorem SharesOk.getSharedObject (h : SharesOk lay G dirs atts s)
    (hun : ∀ i, s.shares.find ownerID name = some i →
      Unmapped s curenv va ((s.shares.shares i).size / pageSize) ∧
        ((s.shares.shares i).size / pageSize ≠ 0 → attachCount atts i < 65535) ∧
        attachCount atts i + 1 < 4294967296)
    (hk : Fos.getSharedObject curenv ownerID name va s = .ok id t) :
    (id = eSharedMemNotExists ∧ t = s) ∨ ∃ i G', id = (i : Nat) ∧
      s.shares.find ownerID name = some i ∧
      SharesOk lay G' dirs (newAttachment s curenv va i ((s.shares.shares i).size / pageSize)
        (s.shares.shares i).perm true :: atts) t := by
  rw [Fos.getSharedObject, bind_of_ok (getShareObjectID_run h.table)] at hk
  cases hf : s.shares.find ownerID name with
  | none =>
    rw [hf] at hk
    dsimp only at hk
    rw [Prog.ite_run, if_pos rfl] at hk
    obtain ⟨rfl, rfl⟩ := ok_inj.1 hk
    exact .inl ⟨rfl, rfl⟩
  | some i =>
    right
    obtain ⟨hroom, hlt, hbound⟩ := hun i hf
    have ho := find_object hf
    set share := s.shares.shares i with hshare
    set n := share.size / pageSize with hn
    rw [hf] at hk
    dsimp only at hk
    rw [Prog.ite_run, if_neg (by unfold eSharedMemNotExists; omega), Int.toNat_natCast,
      bind_of_ok (readShare_ok h.table), Prog.get_bind_apply] at hk
    obtain ⟨_, s₁, h₁, hk⟩ := bind_eq_ok.1 hk
    have hdir : s.pageDirectory curenv ∈ dirs.page := h.envs curenv hroom.dir
    -- the empty attachment that the loop extends
    have hperm : share.perm < 4096 := by
      unfold Share.perm
      split <;> decide
    have hpush := h.attached.push (c := newAttachment s curenv va i 0 share.perm true) hdir
      (hroom.page_le (Nat.zero_le n)) hperm ho (le_refl _) (Nat.zero_le _)
    have hcov : Covered s.shares.object (newAttachment s curenv va i 0 share.perm true :: atts) := by
      intro j o ho k hk
      obtain ⟨a, ha, hc⟩ := h.covered j o ho k hk
      exact ⟨a, .tail _ ha, hc⟩
    have hcount : ∀ k, 0 ≤ k → k < n →
        coverCount (newAttachment s curenv va i 0 share.perm true :: atts) i k < 65535 := by
      intro k _ hkn
      rw [coverCount_cons, if_neg (by rintro ⟨-, -, hc⟩; exact Nat.not_lt_zero k hc)]
      exact (coverCount_le atts i k).trans_lt (hlt (by omega))
    obtain ⟨G', -, hok₁, hatt₁, henv₁, hsh₁⟩ := h.mem.getSharedPages hpush hcov ho
      (h.storage i _ ho) rfl (Nat.zero_add n) (le_refl _) hroom.range (fun k _ hkn => hroom.zero k hkn)
      hcount h₁
    have hnull₁ : s₁.shares.null = false := by
      rw [hsh₁]
      exact h.table
    rw [bind_of_ok (writeShare_ok hnull₁ _), hsh₁] at hk
    obtain ⟨rfl, rfl⟩ := ok_inj.1 hk
    have hsame := attachCount_cons (newAttachment s curenv va i n share.perm true) atts
    have hlive := object_eq_some.1 ho
    have hself : (newAttachment s curenv va i n share.perm true).object = i := rfl
    have hone : attachCount (newAttachment s curenv va i n share.perm true :: atts) i =
        attachCount atts i + 1 := by
      rw [hsame, if_pos hself]
    refine ⟨i, G', rfl, rfl, ?_⟩
    rw [← Function.update_eq_self i s.shares.object, ho] at hatt₁
    change Attached dirs _ (newAttachment s curenv va i n share.perm true :: atts) s₁ at hatt₁
    have hempty : { share with references := u32 (share.references + 1) }.empty = false := hlive.1.2
    apply h.enter hok₁ rfl henv₁ hlive.1.1 hempty (h.storage i _ ho) rfl hatt₁
    · rw [hone]
      show u32 (share.references + 1) = _
      rw [h.references i _ ho, u32_of_lt hbound]
    · rw [hone]
      exact Nat.succ_pos _
    · rw [hone]
      exact hbound
    · intro j hj
      rw [hsame, if_neg (by rw [hself]; exact hj.symm), Nat.add_zero]
    · rintro a (_ | ⟨_, ha⟩) hai
      · exact ⟨rfl, rfl, hroom.range, rfl⟩
      · have hfit := h.fits ha
        rw [hai] at hfit
        exact ⟨hfit.first, hfit.last, hfit.range, hfit.perm⟩
    · rintro a (_ | ⟨_, ha⟩) hai
      · exact absurd rfl hai
      · exact ha

/-! ## The search of `freeSharedObject` -/

/-- The lowest object whose first stored frame is `x`, which is `none` for an object without pages
and for a page that is not mapped. -/
structure FirstMatch (s : Kern) (x : Option Nat) (i : Nat) : Prop where
  found : ∃ o, s.shares.object i = some o ∧ s.frameIn o.root 0 = x
  lowest : ∀ j < i, ∀ o, s.shares.object j = some o → s.frameIn o.root 0 ≠ x

/-- The frame at a page of a storage lies within the frames of the machine. -/
theorem SharesOk.getFrameFromStorage (h : SharesOk lay G dirs atts s)
    (ho : s.shares.object i = some o) :
    Fos.getFrameFromStorage (s.shares.shares i).framesStorage 0 s = .ok (s.frameIn o.root 0) s := by
  rw [h.storage i o ho]
  refine h.mem.getFrameFromStorage (h.attached.storage i o ho) (by omega) fun hne => ?_
  have hpos : 0 < o.pages := by
    apply Nat.pos_of_ne_zero
    intro h0
    exact hne (h.attached.rest i o ho 0 h0.le (by omega))
  obtain ⟨a, ha, hc⟩ := h.covered i o ho 0 hpos
  exact h.mem.accounted.inRange _ ((h.attached.userFrame ho ha hc).usable h.mem).pool

/-- **The search** stops at the first live entry with the frame that the page maps. -/
theorem SharesOk.findShareAt {r : Option (Nat × TablePtr)} (h : SharesOk lay G dirs atts s)
    (hget : getFrameInfo dir va s = .ok r s) (hn : i + n = s.shares.maxShares)
    (hbelow : ∀ j < i, ∀ o, s.shares.object j = some o → s.frameIn o.root 0 ≠ r.map Prod.fst) :
    (Fos.findShareAt dir va i n s = .ok none s ∧
      ∀ j o, s.shares.object j = some o → s.frameIn o.root 0 ≠ r.map Prod.fst) ∨
    ∃ j, Fos.findShareAt dir va i n s = .ok (some j) s ∧ FirstMatch s (r.map Prod.fst) j := by
  induction n generalizing i with
  | zero =>
    refine .inl ⟨rfl, fun j o ho => hbelow j ?_ o ho⟩
    have := (object_eq_some.1 ho).1.1
    omega
  | succ n ih =>
    rw [Fos.findShareAt, bind_of_ok (readShare_ok h.table), Prog.ite_run]
    -- if entry `i` does not match either, the search goes on
    have hnext : (∀ o, s.shares.object i = some o → s.frameIn o.root 0 ≠ r.map Prod.fst) →
        ∀ j < i + 1, ∀ o, s.shares.object j = some o → s.frameIn o.root 0 ≠ r.map Prod.fst := by
      intro hi j hj o ho
      by_cases hji : j = i
      · subst hji
        exact hi o ho
      · exact hbelow j (by omega) o ho
    split
    case isTrue hempty =>
      apply ih (by omega)
      apply hnext
      intro o ho
      rw [object_of_empty hempty] at ho
      cases ho
    case isFalse hlive =>
      have ho : s.shares.object i = some _ := if_pos ⟨by omega, by simpa using hlive⟩
      rw [bind_of_ok (h.getFrameFromStorage ho), bind_of_ok hget, Prog.ite_run]
      split
      case isTrue heq => exact .inr ⟨i, rfl, ⟨_, ho, heq⟩, hbelow⟩
      case isFalse hne =>
        apply ih (by omega)
        apply hnext
        intro o ho'
        rw [ho] at ho'
        obtain rfl := Option.some.inj ho'
        exact hne

/-! ## Taking an attachment down -/

/-- The pages of an attachment are unmapped, and the tables among theirs that map nothing are gone.
Frames come free only from the object and from these tables. -/
structure TakesDown (dirs : Roots) (a : Attachment) (o : ObjectAt) (s t : Kern) : Prop extends
    SameRest dirs s t where
  leaf : ∀ dir ∈ dirs.page, ∀ p < 977920, t.leaf dir p =
    if dir = a.dir ∧ ppn a.va ≤ p ∧ p < ppn a.va + o.pages then 0 else s.leaf dir p
  storageTable : ∀ dir ∈ dirs.disk, ∀ i < 955, t.table dir i = s.table dir i
  kernelTable : ∀ p, (∀ i ∈ rangeTables (ppn a.va) o.pages, s.table a.dir i ≠ some (p * 4096)) →
    t.kernelTable p = s.kernelTable p
  freed : ∀ f ∈ t.frames.freeFrameList, f ∈ s.frames.freeFrameList ∨
    (∃ k < o.pages, f = s.storedFrame o k) ∨
    ∃ i ∈ rangeTables (ppn a.va) o.pages, ∃ p, s.table a.dir i = some (p * 4096) ∧ f = s.kframe p
  free : s.frames.freeFrameList <:+ t.frames.freeFrameList
  sub : ∀ b ∈ t.heap.blockInfoTakenList, b ∈ s.heap.blockInfoTakenList

theorem SharesOk.takeDown (h : SharesOk lay G dirs atts s) (hp : atts.Perm (a :: rest))
    (ho : s.shares.object a.object = some o)
    (h₁ : unmapSharedPages a.dir a.va o.pages s = .ok () t)
    (h₂ : freeEmptyTables a.dir a.va o.pages t = .ok () u) :
    ∃ G', MemOk lay G' ∅ dirs ∅ u ∧ Attached dirs s.shares.object rest u ∧ TakesDown dirs a o s u ∧
      (attachCount atts a.object = 1 → ∀ k < o.pages, s.storedFrame o k ∈ u.frames.freeFrameList) := by
  have ha : a ∈ atts := hp.mem_iff.2 List.mem_cons_self
  have hfirst := h.first a ha
  have hlast := h.last a ha o ho
  have hrange := h.range a ha
  have hatt := h.attached.perm hp
  obtain ⟨hdir, -⟩ := hatt.attachment a List.mem_cons_self
  have hpage : a.page a.first = ppn a.va := by rw [hfirst]; rfl
  rw [show a.va = a.va + 4096 * a.first by omega] at h₁
  obtain ⟨hok₁, hatt₁, hun, hcount⟩ := h.mem.unmapSharedPages (F := a.frames s o) hatt ho
    (by omega) hrange subset_rfl h₁
  rw [hpage] at hun
  obtain ⟨G', -, hok₂, hfrees⟩ := hok₁.freeEmptyTables hdir (by omega) h₂
  have hatt₂ := (hatt₁.pop (le_refl _)).still hfrees.toStill hfrees.diskLeaf
  refine ⟨G', hok₂, hatt₂, ?_,
    fun hone k hk => hfrees.free.subset (hcount k (by omega) (by omega) ?_)⟩
  case refine_2 =>
    rw [← hone, ← h.coverCount_eq ho hk]
    exact (hp.countP_eq _).symm
  -- a table that was given back named pages of this range
  have hnames : ∀ p, p ∈ tableFrames t a.dir (emptyTables dirs t a.dir (ppn a.va) o.pages) →
      ∃ i ∈ rangeTables (ppn a.va) o.pages, s.table a.dir i = some (p * 4096) := by
    rintro p ⟨i, ⟨hi, q, he⟩, hip⟩
    refine ⟨i, hi, ?_⟩
    rw [← hun.table a.dir (.inl hdir) i he.index]
    exact hip
  refine ⟨hun.toSameRest.trans hfrees.toSameRest, ?_, ?_, ?_, ?_, hun.free.trans hfrees.free, ?_⟩
  · intro dir hd q hq
    rw [hfrees.leaf dir hd q hq, hun.leaf dir hd q hq]
  · intro dir hd i hi
    rw [hfrees.stays dir (.inr hd) i hi, hun.table dir (.inr hd) i hi]
    rintro ⟨rfl, -⟩
    exact dirs.apart _ hdir hd
  · intro q hq
    rw [hfrees.kernelTable q, hun.kernelTable]
    intro hc
    obtain ⟨i, hi, hip⟩ := hnames q hc
    exact hq i hi hip
  · intro f hf
    rcases hfrees.freed f hf with hft | ⟨q, hq, rfl⟩
    · apply (hun.freed f hft).imp_right
      rintro ⟨k, -, hk, rfl⟩
      exact .inl ⟨k, by omega, rfl⟩
    · obtain ⟨i, hi, hip⟩ := hnames q hq
      refine .inr (.inr ⟨i, hi, q, hip, ?_⟩)
      unfold Kern.kframe
      rw [hun.kernelTable]
  · intro b hb
    have := hfrees.sub b hb
    rwa [hun.heap] at this

/-- What the detach of an attachment does. With the last one the entry is emptied, the frames are
free and the storage is given back. -/
structure Detaches (pages : List DirPtr) (a : Attachment) (o : ObjectAt) (s t : Kern) : Prop where
  maxShares : t.shares.maxShares = s.shares.maxShares
  others : ∀ j, j ≠ a.object → t.shares.shares j = s.shares.shares j
  entry : t.shares.shares a.object =
    if (s.shares.shares a.object).references = 1 then { emptyShare with empty := true }
    else { s.shares.shares a.object with
      references := (s.shares.shares a.object).references - 1 }
  disk : t.disk = s.disk
  envs : t.envs = s.envs
  leaf : ∀ dir ∈ pages, ∀ p < 977920, t.leaf dir p =
    if dir = a.dir ∧ ppn a.va ≤ p ∧ p < ppn a.va + o.pages then 0 else s.leaf dir p
  storages : ∀ j o', (j = a.object → (s.shares.shares j).references ≠ 1) →
    s.shares.object j = some o' → ∀ k < 977920, t.leaf o'.root k = s.leaf o'.root k
  freed : ∀ f ∈ t.frames.freeFrameList, f ∈ s.frames.freeFrameList ∨
    (∃ k < o.pages, f = s.storedFrame o k) ∨
    (∃ i ∈ rangeTables (ppn a.va) o.pages, ∃ p, s.table a.dir i = some (p * 4096) ∧ f = s.kframe p) ∨
    ((s.shares.shares a.object).references = 1 ∧ ∃ p ∈ storagePages s o.storage, f = s.kframe p)
  frames : (s.shares.shares a.object).references = 1 → ∀ k < o.pages,
    s.storedFrame o k ∈ t.frames.freeFrameList
  storage : (s.shares.shares a.object).references = 1 → s.heap.StartsApart →
    ∀ p ∈ storagePages s o.storage, t.kernelTable p = 0

/-- The entry loses its last attachment. -/
theorem SharesOk.leave (h : SharesOk lay G dirs atts s) {G' : Set Nat}
    (hmem : MemOk lay G' ∅ dirs' ∅ t)
    (hpage : dirs'.page = dirs.page) (henvs : t.envs = s.envs) (hempty : share.empty = true)
    (hatt : Attached dirs' (update s.shares.object i none) atts' t)
    (hsub : ∀ a ∈ atts', a ∈ atts ∧ a.object ≠ i)
    (hcount : ∀ j, j ≠ i → attachCount atts' j = attachCount atts j) :
    SharesOk lay G' dirs' atts' (t.setShares (s.shares.setShare i share)) := by
  set t' := t.setShares (s.shares.setShare i share) with ht'
  have hobj : t'.shares.object = update s.shares.object i none := object_setShare_empty hempty
  have hother : ∀ j, j ≠ i → t'.shares.shares j = s.shares.shares j := fun j hj =>
    update_of_ne hj ..
  -- the objects that are left are those of before
  have hcase : ∀ j o', t'.shares.object j = some o' → j ≠ i ∧ s.shares.object j = some o' := by
    intro j o' ho'
    rw [hobj] at ho'
    by_cases hj : j = i
    · rw [hj, update_self] at ho'
      cases ho'
    · rw [update_of_ne hj] at ho'
      exact ⟨hj, ho'⟩
  have hfits : ∀ a ∈ atts', a.Fits (t'.shares.shares a.object) := by
    intro a ha
    obtain ⟨hold, hai⟩ := hsub a ha
    rw [hother _ hai]
    exact h.fits hold
  rw [← hobj] at hatt
  refine ⟨hmem.setShares _, hatt.setShares _, h.table, ?_, fun a ha => (hfits a ha).first, ?_,
    fun a ha => (hfits a ha).range, ?_, ?_, ?_, fun a ha => (hfits a ha).perm, ?_⟩
  · intro j o' ho'
    obtain ⟨hj, hold⟩ := hcase j o' ho'
    rw [hother j hj]
    exact h.storage j o' hold
  · intro a ha o' ho'
    rw [(hfits a ha).last]
    exact (object_eq_some.1 ho').2.2
  · intro j o' ho'
    obtain ⟨hj, hold⟩ := hcase j o' ho'
    rw [hother j hj, hcount j hj]
    exact h.references j o' hold
  · intro j o' ho'
    obtain ⟨hj, hold⟩ := hcase j o' ho'
    rw [hcount j hj]
    exact h.used j o' hold
  · intro j
    by_cases hj : j = i
    · have h0 : attachCount atts' j = 0 := by
        apply Nat.eq_zero_of_not_pos
        rw [← attachCount_pos]
        rintro ⟨a, ha, hai⟩
        exact (hsub a ha).2 (hai.trans hj)
      omega
    · rw [hcount j hj]
      exact h.bound j
  · intro e he
    change (t.envs e).envPageDirectory ≠ 0 at he
    show .heap (t.envs e).envPageDirectory ∈ dirs'.page
    rw [hpage]
    rw [henvs] at he ⊢
    exact h.envs e he

/-- The calls that give an entry and its storage back. -/
theorem freeShareObject_ok {r : Int} (hi : i < s.shares.maxShares) (hnull : s.shares.null = false)
    (hk : freeShareObject i s = .ok r t) :
    ∃ u, (do
      Fos.clearFramesStorage (s.shares.shares i).framesStorage 0 1024
      Fos.kfree (s.shares.shares i).framesStorage : K Unit) s = .ok () u ∧
      writeShare i (fun _ => { emptyShare with empty := true }) u = .ok () t := by
  rw [freeShareObject, Prog.get_bind_apply, Prog.ite_run, if_neg (by omega),
    bind_of_ok (readShare_ok hnull)] at hk
  obtain ⟨_, u₁, h₁, hk⟩ := bind_eq_ok.1 hk
  obtain ⟨_, u₂, h₂, hk⟩ := bind_eq_ok.1 hk
  obtain ⟨_, u₃, h₃, hk⟩ := bind_eq_ok.1 hk
  obtain ⟨-, rfl⟩ := ok_inj.1 hk
  exact ⟨u₂, by rw [bind_of_ok h₁]; exact h₂, h₃⟩

theorem SharesOk.count_detach (hp : atts.Perm (a :: rest)) (j : Nat) :
    attachCount atts j = attachCount rest j + if a.object = j then 1 else 0 := by
  rw [← attachCount_cons]
  exact hp.countP_eq _

/-- Other attachments of the object are left. -/
theorem SharesOk.detachShared (h : SharesOk lay G dirs atts s) (hp : atts.Perm (a :: rest))
    (ho : s.shares.object a.object = some o) {G' : Set Nat} (hok : MemOk lay G' ∅ dirs ∅ u)
    (hatt : Attached dirs s.shares.object rest u) (hdown : TakesDown dirs a o s u)
    (hne : attachCount rest a.object ≠ 0) :
    Detaches dirs.page a o s (u.setShares (s.shares.setShare a.object { s.shares.shares a.object with
      references := attachCount rest a.object })) ∧
    SharesOk lay G' dirs rest (u.setShares (s.shares.setShare a.object { s.shares.shares a.object with
      references := attachCount rest a.object })) := by
  have hcount := SharesOk.count_detach hp
  have hself := hcount a.object
  rw [if_pos rfl] at hself
  have hrefs := h.references _ o ho
  have hlive := object_eq_some.1 ho
  -- others are attached still, so the object stays
  have hnotOne : (s.shares.shares a.object).references ≠ 1 := by omega
  constructor
  · refine ⟨rfl, fun j hj => update_of_ne hj .., ?_, hdown.disk, hdown.envs, hdown.leaf, ?_, ?_,
      fun hone => absurd hone hnotOne, fun hone => absurd hone hnotOne⟩
    · rw [if_neg hnotOne,
        show (s.shares.shares a.object).references - 1 = attachCount rest a.object by
        omega]
      exact update_self ..
    · exact fun j o' _ ho' k hk => hdown.diskLeaf _ (h.attached.storage j o' ho') k hk
    · intro f hf
      rcases hdown.freed f hf with hfs | hfo | hft
      · exact .inl hfs
      · exact .inr (.inl hfo)
      · exact .inr (.inr (.inl hft))
  · rw [← Function.update_eq_self a.object s.shares.object, ho] at hatt
    have hempty : { s.shares.shares a.object with references := attachCount rest a.object }.empty =
        false := hlive.1.2
    have hold : ∀ b ∈ rest, b ∈ atts := fun b hb => hp.mem_iff.2 (.tail _ hb)
    apply h.enter hok rfl hdown.envs hlive.1.1 hempty (h.storage _ o ho) hlive.2.2 hatt rfl
      (Nat.pos_of_ne_zero hne)
    · have := h.bound a.object
      omega
    · intro j hj
      rw [hcount j, if_neg hj.symm, Nat.add_zero]
    · intro b hb hbi
      have hfit := h.fits (hold b hb)
      rw [hbi] at hfit
      exact ⟨hfit.first, hfit.last, hfit.range, hfit.perm⟩
    · exact fun b hb _ => hold b hb

/-- The attachment was the last one. -/
theorem SharesOk.detachLast {r : Int} (h : SharesOk lay G dirs atts s) (hp : atts.Perm (a :: rest))
    (ho : s.shares.object a.object = some o) {G' : Set Nat} (hok : MemOk lay G' ∅ dirs ∅ u)
    (hatt : Attached dirs s.shares.object rest u) (hdown : TakesDown dirs a o s u)
    (hframes : ∀ k < o.pages, s.storedFrame o k ∈ u.frames.freeFrameList)
    (h0 : attachCount rest a.object = 0)
    (hk : freeShareObject a.object (u.setShares (s.shares.setShare a.object
      { s.shares.shares a.object with references := 0 })) = .ok r t) :
    Detaches dirs.page a o s t ∧ ∃ G' dirs', dirs'.page = dirs.page ∧
    SharesOk lay G' dirs' rest t := by
  have hcount := SharesOk.count_detach hp
  have hself := hcount a.object
  rw [if_pos rfl] at hself
  have hrefs := h.references _ o ho
  have hlive := object_eq_some.1 ho
  have hone : (s.shares.shares a.object).references = 1 := by omega
  have ha : a ∈ atts := hp.mem_iff.2 List.mem_cons_self
  obtain ⟨hadir, -⟩ := h.attached.attachment a ha
  set v :=
    u.setShares (s.shares.setShare a.object { s.shares.shares a.object with references := 0 })
    with hv
  have hentry : v.shares.shares a.object = { s.shares.shares a.object with references := 0 } :=
    update_self ..
  obtain ⟨w, hfree, hwrite⟩ := freeShareObject_ok (s := v) hlive.1.1 h.table hk
  rw [hentry] at hfree
  change (do
    Fos.clearFramesStorage (s.shares.shares a.object).framesStorage 0 1024
    Fos.kfree (s.shares.shares a.object).framesStorage : K Unit) v = .ok () w at hfree
  rw [h.storage _ o ho] at hfree
  have hdisk := h.attached.storage _ o ho
  -- no attachment refers to the object, so the storage leaves the directories
  have hnone : ∀ b ∈ rest, b.object ≠ a.object := by
    intro b hb hbi
    have := attachCount_pos.1 ⟨b, hb, hbi⟩
    omega
  have hdrop := (hatt.setShares (s.shares.setShare a.object { s.shares.shares a.object with
    references := 0 })).dropObject ho hnone
  obtain ⟨G'', hok', hf⟩ := (hok.setShares (s.shares.setShare a.object
    { s.shares.shares a.object with references := 0 })).freeStorage hdisk hfree
  have hatt' := hdrop.still hf.toStill hf.diskLeaf
  have hshares : w.shares = s.shares.setShare a.object { s.shares.shares a.object with
      references := 0 } := hf.shares
  have hnull : w.shares.null = false := by
    rw [hshares]
    exact h.table
  rw [writeShare_ok hnull, hshares, setShare_setShare] at hwrite
  obtain ⟨-, rfl⟩ := ok_inj.1 hwrite
  have hpages : ∀ p, p ∈ storagePages v o.storage ↔ p ∈ storagePages s o.storage := by
    intro p
    unfold storagePages tableFrames
    refine or_congr_right (exists_congr fun i => and_congr_right fun hi => ?_)
    rw [show v.table (.heap (o.storage * 4096)) i = s.table (.heap (o.storage * 4096)) i from
      hdown.storageTable _ hdisk i hi]
  have hkernel : ∀ p ∈ storagePages s o.storage, v.kernelTable p = s.kernelTable p := by
    intro p hp
    refine hdown.kernelTable p fun i hi hip => ?_
    have hi955 : i < 955 := by
      obtain ⟨k, hk, rfl⟩ := hi
      have := h.range a ha
      rw [h.last a ha o ho] at this
      unfold userTop at this
      unfold ppn
      omega
    have hd := h.mem.directories
    obtain ⟨q, -, hpq, hpr, hn⟩ := hd.table_some (.inl hadir) hi955 hip
    obtain rfl : p = q := by omega
    refine hd.storage_pde hdisk (.inl hadir) ?_ hi955 hpr hp hn
    rintro heq
    rw [heq] at hadir
    exact dirs.apart _ hadir hdisk
  constructor
  · refine ⟨rfl, fun j hj => update_of_ne hj .., ?_, hf.disk.trans hdown.disk,
      hf.envs.trans hdown.envs,
      fun dir hdir p hp => ?_, fun j o' hj ho' k hk => ?_, fun f hft => ?_,
      fun _ k hk => hf.free.subset (hframes k hk), fun _ hs p hp => ?_⟩
    · rw [if_pos hone]
      exact update_self ..
    · exact (hf.leaf dir hdir p hp).trans (hdown.leaf dir hdir p hp)
    · have hne : j ≠ a.object := by
        rintro rfl
        exact hj rfl hone
      have hstays : o'.root ∈ (dirs.dropDisk o.root).disk :=
        hdrop.storage j o' ((update_of_ne hne ..).trans ho')
      exact (hf.diskLeaf _ hstays k hk).trans
        (hdown.diskLeaf _ (h.attached.storage j o' ho') k hk)
    · rcases hf.freed f hft with hfu | ⟨p, hp, rfl⟩
      · rcases hdown.freed f hfu with hfs | hfo | hftab
        · exact .inl hfs
        · exact .inr (.inl hfo)
        · exact .inr (.inr (.inl hftab))
      · have hps := (hpages p).1 hp
        refine .inr (.inr (.inr ⟨hone, p, hps, ?_⟩))
        unfold Kern.kframe
        rw [hkernel p hps]
    · obtain ⟨b, hb, hstart, hsize⟩ :=
        hok.blocks p (hok.directories.storage_owned hdisk ((hpages p).2 hp))
      refine hf.cleared (fun b hb c hc => hs b (hdown.sub b hb) c (hdown.sub c hc)) p ((hpages p).2 hp)
        ⟨b, hb, hstart, ?_⟩
      rw [(hok.heap.wf b hb).mem_pages]
      omega
  · refine ⟨G'', dirs.dropDisk o.root, rfl, ?_⟩
    apply h.leave hok' rfl (hf.envs.trans hdown.envs) rfl hatt'
    · exact fun b hb => ⟨hp.mem_iff.2 (.tail _ hb), hnone b hb⟩
    · intro j hj
      rw [hcount j, if_neg hj.symm, Nat.add_zero]

/-- **`freeSharedObject`** once the search has found the object of an attachment that begins at the
address. -/
theorem SharesOk.detach (h : SharesOk lay G dirs atts s) (hp : atts.Perm (a :: rest))
    (hdir : a.dir = s.pageDirectory curenv)
    (hfind : Fos.findShareAt (s.pageDirectory curenv) a.va 0 s.shares.maxShares s =
      .ok (some a.object) s) (hk : Fos.freeSharedObject curenv a.va s = .ok id t) :
    ∃ o, s.shares.object a.object = some o ∧ id = 0 ∧ Detaches dirs.page a o s t ∧
      ∃ G' dirs', dirs'.page = dirs.page ∧ SharesOk lay G' dirs' rest t := by
  have ha : a ∈ atts := hp.mem_iff.2 List.mem_cons_self
  obtain ⟨o, ho⟩ := h.live ha
  have hlive := object_eq_some.1 ho
  rw [Fos.freeSharedObject, Prog.get_bind_apply, bind_of_ok hfind] at hk
  dsimp only at hk
  have hd : DirPtr.heap (s.envs curenv).envPageDirectory = a.dir := hdir.symm
  rw [bind_of_ok (readShare_ok h.table), hlive.2.2] at hk
  obtain ⟨_, s₁, h₁, hk⟩ := bind_eq_ok.1 hk
  obtain ⟨_, s₂, h₂, hk⟩ := bind_eq_ok.1 hk
  rw [hd] at h₁ h₂
  obtain ⟨G', hok, hatt, hdown, hframes⟩ := h.takeDown hp ho h₁ h₂
  have hnull : s₂.shares.null = false := by
    rw [hdown.shares]
    exact h.table
  -- one reference less, without a wrap
  have hcount := SharesOk.count_detach hp a.object
  rw [if_pos rfl] at hcount
  have hrefs : u32 ((s.shares.shares a.object).references + 4294967295) =
      attachCount rest a.object := by
    have := h.bound a.object
    rw [h.references _ o ho]
    unfold u32
    omega
  rw [bind_of_ok (writeShare_ok hnull _), hdown.shares, hrefs] at hk
  set v := s₂.setShares (s.shares.setShare a.object { s.shares.shares a.object with
    references := attachCount rest a.object }) with hv
  have hentry : (v.shares.shares a.object).references = attachCount rest a.object := by
    have hself : v.shares.shares a.object = { s.shares.shares a.object with
      references := attachCount rest a.object } := update_self ..
    rw [hself]
  rw [bind_of_ok (readShare_ok (s := v) h.table), hentry] at hk
  obtain ⟨_, s₃, h₃, hk⟩ := bind_eq_ok.1 hk
  obtain ⟨rfl, rfl⟩ := ok_inj.1 hk
  refine ⟨o, ho, rfl, ?_⟩
  rw [Prog.ite_run] at h₃
  split at h₃
  case isTrue h0 =>
    obtain ⟨r, w, h₄, h₅⟩ := bind_eq_ok.1 h₃
    obtain ⟨-, rfl⟩ := ok_inj.1 h₅
    rw [hv, h0] at h₄
    exact h.detachLast hp ho hok hatt hdown (hframes (by omega)) h0 h₄
  case isFalse hne =>
    obtain ⟨-, rfl⟩ := ok_inj.1 h₃
    obtain ⟨hdet, hnew⟩ := h.detachShared hp ho hok hatt hdown hne
    exact ⟨hdet, G', dirs, rfl, hnew⟩

end

end Fos
