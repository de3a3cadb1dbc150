import Fos.SharedMemory.Attachments

/-!
# The loops of the shared-memory calls

Page by page, `createSharedObject` makes an object longer, `getSharedObject` makes an attachment
longer, and `freeSharedObject` makes one shorter. Each lemma carries the invariant through one loop.
-/

namespace Fos

open Function (update)
open Prog (bind_eq_ok ok_inj)

/-- What unmapping `n` pages from page `p` on does; the frames given up are among `F`. -/
structure UnmapsRange (dirs : Roots) (D : Set Nat) (dir : DirPtr) (p n : Nat) (F : Set Nat)
    (s t : Kern) : Prop extends Kept D s t, SameRest dirs s t where
  leaf : ∀ dir' ∈ dirs.page, ∀ q < 977920,
    t.leaf dir' q = if dir' = dir ∧ p ≤ q ∧ q < p + n then 0 else s.leaf dir' q
  info : ∀ f, f ∉ F → t.frames.info f = s.frames.info f
  kernelTable : t.kernelTable = s.kernelTable
  heap : t.heap = s.heap
  table : ∀ dir' ∈ dirs, ∀ i < 955, t.table dir' i = s.table dir' i
  freed : ∀ f ∈ t.frames.freeFrameList, f ∈ s.frames.freeFrameList ∨ f ∈ F
  free : s.frames.freeFrameList <:+ t.frames.freeFrameList

section

variable {lay : Layout} {G D : Set Nat} {dirs : Roots} {s t u : Kern} {objs : Nat → Option ObjectAt}
  {atts : List Attachment} {c : Attachment} {o : ObjectAt} {dir : DirPtr} {f i k n p va : Nat}
  {F F' : Set Nat}

/-! ## Adding pages to an attachment -/

/-- The address of a page below `USER_TOP`, and the step to the next one. -/
theorem page_addr (hle : va + 4096 * n ≤ userTop) (hk : k < n) :
    va + 4096 * k < userTop ∧ ppn (va + 4096 * k) = ppn va + k ∧ ppn va + k < 977920 ∧
      u32 (va + 4096 * k + pageSize) = va + 4096 * (k + 1) := by
  have h : va + 4096 * k + 4096 ≤ userTop := by omega
  have hu : u32 (va + 4096 * k + 4096) = va + 4096 * k + 4096 :=
    u32_of_lt (by unfold userTop at h; omega)
  refine ⟨by omega, by unfold ppn; omega, by unfold ppn userTop at *; omega, ?_⟩
  change u32 (va + 4096 * k + 4096) = _
  rw [hu]
  omega

/-- **The loop of `getSharedObject`**: the attachment grows to the whole object. -/
theorem MemOk.getSharedPages {share : Share} (h : MemOk lay G D dirs ∅ s)
    (ha : Attached dirs objs (c :: atts) s) (hcov : Covered objs (c :: atts))
    (ho : objs c.object = some o) (hst : share.framesStorage = o.storage * 4096)
    (hperm : c.perm = if share.isWritable ≠ 0 then permWriteable ||| permUser else permUser)
    (hn : c.last + n = o.pages) (hfl : c.first ≤ c.last) (hle : c.va + 4096 * o.pages ≤ userTop)
    (hz : ∀ k, c.last ≤ k → k < o.pages → s.leaf c.dir (c.page k) = 0)
    (hcount : ∀ k, c.last ≤ k → k < o.pages → coverCount (c :: atts) c.object k < 65535)
    (hk : Fos.getSharedPages c.dir share c.last (c.va + 4096 * c.last) n s = .ok () t) :
    ∃ G', G ⊆ G' ∧ MemOk lay G' D dirs ∅ t ∧
      Attached dirs objs ({ c with last := o.pages } :: atts) t ∧ t.envs = s.envs ∧
      t.shares = s.shares := by
  induction n generalizing G s c with
  | zero =>
    obtain ⟨-, rfl⟩ := ok_inj.1 hk
    refine ⟨G, subset_rfl, h, ?_, rfl, rfl⟩
    rw [← hn, Nat.add_zero]
    exact ha
  | succ n ih =>
    have hlt : c.last < o.pages := by omega
    have hsmall := ha.small _ o ho
    obtain ⟨hva, hppn, hpage, hnext⟩ := page_addr hle hlt
    obtain ⟨hcdir, -, hcperm, -⟩ := ha.attachment c List.mem_cons_self
    obtain ⟨a, hmem, hcv⟩ := hcov _ o ho _ hlt
    have huser := ha.userFrame ho hmem hcv
    have husable := huser.usable h
    -- the storage names the frame of the page
    have hget := h.getFrameFromStorage (ha.storage _ o ho) (k := c.last) (by omega)
      fun _ => h.accounted.inRange _ husable.pool
    rw [frameIn_present (ha.stored _ o ho _ hlt)] at hget
    rw [Fos.getSharedPages, hst, Prog.bind_of_ok hget] at hk
    obtain ⟨_, s₁, h₁, h₂⟩ := bind_eq_ok.1 hk
    rw [← hperm] at h₁
    have hrefs : s.references (s.storedFrame o c.last) < 65535 := by
      rw [ha.counted _ o ho _ hlt ⟨a, hmem, hcv⟩]
      exact hcount _ (le_refl _) hlt
    have hzero : s.leaf c.dir (ppn (c.va + 4096 * c.last)) = 0 := by
      rw [hppn]
      exact hz _ (le_refl _) hlt
    obtain ⟨G₁, hsub, hok₁, hm, -⟩ := h.mapUser hcdir hva hzero husable hrefs hcperm h₁
    rw [Set.empty_sdiff] at hok₁
    rw [hppn] at hm
    have ha₁ := ha.attach hcov ho hlt hfl hpage (hz _ (le_refl _) hlt) hm
    have hcov₁ : Covered objs ({ c with last := c.last + 1 } :: atts) := by
      intro i o' ho' k hk'
      obtain ⟨b, hb, hbc⟩ := hcov i o' ho' k hk'
      rcases List.mem_cons.1 hb with rfl | hb
      · exact ⟨_, List.mem_cons_self, (covers_next hfl).2 (.inl hbc)⟩
      · exact ⟨b, .tail _ hb, hbc⟩
    have hz₁ : ∀ k, c.last + 1 ≤ k → k < o.pages → s₁.leaf c.dir (c.page k) = 0 := by
      intro k h1 h2
      obtain ⟨-, -, hpk, -⟩ := page_addr hle h2
      rw [hm.leaf c.dir hcdir _ hpk, if_neg fun hc => by have := hc.2; omega]
      exact hz k (by omega) h2
    have hcount₁ : ∀ k, c.last + 1 ≤ k → k < o.pages →
        coverCount ({ c with last := c.last + 1 } :: atts) c.object k < 65535 := by
      intro k h1 h2
      have := hcount k (by omega) h2
      rw [coverCount_cons] at this ⊢
      rwa [if_congr ((covers_next hfl).trans (or_iff_left fun hc => by have := hc.2; omega)) rfl rfl]
    rw [hnext] at h₂
    obtain ⟨G₂, hsub₂, hok₂, ha₂, henvs, hshares⟩ :=
      ih (c := { c with last := c.last + 1 }) hok₁ ha₁
      hcov₁ ho hperm (by dsimp only; omega) (by dsimp only; omega) hle hz₁ hcount₁ h₂
    exact ⟨G₂, hsub.trans hsub₂, hok₂, ha₂, henvs.trans hm.envs, hshares.trans hm.shares⟩

/-- **The loop of `createSharedObject`**: the object and the attachment of its owner grow
together. -/
theorem MemOk.createSharedPages (h : MemOk lay G D dirs ∅ s) (ha : Attached dirs objs (c :: atts) s)
    (hcov : Covered objs (c :: atts)) (ho : objs c.object = some o)
    (hperm : c.perm = permWriteable ||| permUser) (hfl : c.first ≤ c.last) (hlast : c.last = o.pages)
    (hle : c.va + 4096 * (o.pages + n) ≤ userTop)
    (hz : ∀ k, o.pages ≤ k → k < o.pages + n → s.leaf c.dir (c.page k) = 0)
    (hk : Fos.createSharedPages c.dir (o.storage * 4096) o.pages (c.va + 4096 * o.pages) n s =
      .ok () t) :
    ∃ G', G ⊆ G' ∧ MemOk lay G' D dirs ∅ t ∧
      Attached dirs (update objs c.object (some { o with pages := o.pages + n }))
        ({ c with last := o.pages + n } :: atts) t ∧
      Covered (update objs c.object (some { o with pages := o.pages + n }))
        ({ c with last := o.pages + n } :: atts) ∧ t.envs = s.envs ∧ t.shares = s.shares := by
  induction n generalizing G s c o objs with
  | zero =>
    obtain ⟨-, rfl⟩ := ok_inj.1 hk
    rw [Nat.add_zero, ← hlast]
    have hobjs : update objs c.object (some { o with pages := c.last }) = objs := by
      rw [hlast, ← ho, Function.update_eq_self]
    rw [hobjs]
    exact ⟨G, subset_rfl, h, ha, hcov, rfl, rfl⟩
  | succ n ih =>
    obtain ⟨hva, hppn, hpage, hnext⟩ := page_addr hle (k := o.pages) (by omega)
    obtain ⟨hcdir, -, hcperm, -⟩ := ha.attachment c List.mem_cons_self
    rw [Fos.createSharedPages] at hk
    obtain ⟨f, s₁, h₁, hk⟩ := bind_eq_ok.1 hk
    obtain ⟨_, s₂, h₂, hk⟩ := bind_eq_ok.1 hk
    obtain ⟨_, s₃, h₃, h₄⟩ := bind_eq_ok.1 hk
    rw [← hperm] at h₂
    -- a frame that nothing used
    obtain ⟨hok₁, hq, husable, hinfo, -, hunused, -⟩ := h.allocateFrame h₁
    have ha₁ := ha.still (hq.still h) fun dir hdir p hp => hq.leaf dir (.inr hdir) p hp
    have hfresh : ∀ i o, objs i = some o → ∀ k < o.pages, s₁.storedFrame o k ≠ f := by
      rintro i o' ho' k hk' rfl
      obtain ⟨a, hmem, hcv⟩ := hcov i o' ho' k hk'
      obtain ⟨dir, hdir, q, hq', hpr, he⟩ := ha₁.userFrame ho' hmem hcv
      rw [hq.leaf dir (.inl hdir) q hq'] at hpr he
      exact hunused (.inr (.inr ⟨dir, hdir, q, hq', hpr, he⟩))
    have hzero : s₁.leaf c.dir (ppn (c.va + 4096 * o.pages)) = 0 := by
      rw [hppn, hq.leaf c.dir (.inl hcdir) _ hpage]
      exact hz _ (le_refl _) (by omega)
    have hrefs : s₁.references f = 0 := by
      unfold Kern.references
      rw [hinfo]
    obtain ⟨G₂, hsub₂, hok₂, hm, -⟩ := hok₁.mapUser hcdir hva hzero husable (by omega) hcperm h₂
    have hheld : (insert f (∅ : Set Nat)) \ {f} = ∅ := by simp
    rw [hheld] at hok₂
    rw [hppn] at hm hzero
    have ha₂ := ha₁.mapOther hzero hcperm hfresh hm
    have hcount : s₂.references f = 1 := by
      unfold Kern.references at hrefs ⊢
      rw [hm.infoSelf, hrefs]
    have hleaf : s₂.leaf c.dir (c.page c.last) = entryOf f c.perm := by
      rw [hlast, hm.leaf c.dir hcdir _ hpage, if_pos ⟨rfl, rfl⟩]
    have honly : ∀ dir ∈ dirs.page, ∀ q < 977920, present (s₂.leaf dir q) →
        ppn (s₂.leaf dir q) = f → dir = c.dir ∧ q = c.page c.last := by
      intro dir hdir q hq' hpr he
      rw [hm.leaf dir hdir q hq'] at hpr he
      split at hpr
      case isTrue hc => exact ⟨hc.1, by rw [hc.2, hlast]⟩
      case isFalse hc =>
        rw [if_neg hc, hq.leaf dir (.inl hdir) q hq'] at he
        rw [hq.leaf dir (.inl hdir) q hq'] at hpr
        exact absurd (.inr (.inr ⟨dir, hdir, q, hq', hpr, he⟩)) hunused
    have hfresh₂ : ∀ i o, objs i = some o → ∀ k < o.pages, s₂.storedFrame o k ≠ f := by
      intro i o' ho' k hk'
      have hsmall := ha.small i o' ho'
      unfold Kern.storedFrame
      rw [hm.diskLeaf _ (ha.storage i o' ho') k (by omega)]
      exact hfresh i o' ho' k hk'
    -- the frame is stored, and the page belongs to the object
    obtain ⟨G₃, hsub₃, hok₃, hstores, -⟩ :=
      hok₂.addFrameToStorage (ha.storage _ o ho) (k := o.pages) (by omega) h₃
    have ha₃ :=
      ha₂.adopt ho hlast hfl (by omega) (by rw [hlast]; exact hpage) hleaf honly hcount hfresh₂
      hstores
    rw [hlast] at ha₃
    have hcov₃ : Covered (update objs c.object (some { o with pages := o.pages + 1 }))
        ({ c with last := o.pages + 1 } :: atts) := by
      intro i o' ho' k hk'
      by_cases hik : i = c.object ∧ k = o.pages
      · exact ⟨_, List.mem_cons_self, hik.1.symm, by dsimp only; omega, by dsimp only; omega⟩
      · have hold : ∃ o₂, objs i = some o₂ ∧ k < o₂.pages := by
          by_cases hi : i = c.object
          · rw [hi, Function.update_self] at ho'
            obtain rfl := Option.some.inj ho'
            dsimp only at hk'
            exact ⟨o, hi ▸ ho, by omega⟩
          · rw [Function.update_of_ne hi] at ho'
            exact ⟨o', ho', hk'⟩
        obtain ⟨o₂, ho₂, hk₂⟩ := hold
        obtain ⟨b, hb, hbc⟩ := hcov i o₂ ho₂ k hk₂
        rcases List.mem_cons.1 hb with rfl | hb
        · obtain ⟨h1, h2, h3⟩ := hbc
          exact ⟨_, List.mem_cons_self, h1, h2, by dsimp only; omega⟩
        · exact ⟨b, .tail _ hb, hbc⟩
    have hz₃ : ∀ k, o.pages + 1 ≤ k → k < o.pages + 1 + n → s₃.leaf c.dir (c.page k) = 0 := by
      intro k h1 h2
      obtain ⟨-, -, hpk, -⟩ := page_addr hle (k := k) (by omega)
      rw [hstores.leaf c.dir hcdir _ hpk, hm.leaf c.dir hcdir _ hpk,
        if_neg fun hc => by have := hc.2; omega, hq.leaf c.dir (.inl hcdir) _ hpk]
      exact hz k (by omega) (by omega)
    rw [hnext] at h₄
    obtain ⟨G₄, hsub₄, hok₄, ha₄, hcov₄, henvs, hshares⟩ :=
      ih (c := { c with last := o.pages + 1 }) (o := { o with pages := o.pages + 1 }) hok₃ ha₃ hcov₃
        (Function.update_self _ _ _) hperm (by dsimp only; omega) rfl
        (by dsimp only; omega) hz₃ h₄
    dsimp only at ha₄ hcov₄
    rw [Function.update_idem, show o.pages + 1 + n = o.pages + (n + 1) by omega] at ha₄ hcov₄
    refine ⟨G₄, hq.sub.trans (hsub₂.trans (hsub₃.trans hsub₄)), hok₄, ha₄, hcov₄, ?_, ?_⟩
    · rw [henvs, hstores.envs, hm.envs, hq.envs]
    · rw [hshares, hstores.shares, hm.shares, hq.shares]

/-! ## Taking pages from an attachment -/

theorem UnmapsRange.refl (dirs : Roots) (D : Set Nat) (dir : DirPtr) (p : Nat) (F : Set Nat)
    (s : Kern) : UnmapsRange dirs D dir p 0 F s s := by
  refine ⟨.refl _ _, .refl _ _, fun dir' _ q _ => ?_, fun _ _ => rfl, rfl, rfl, fun _ _ _ _ => rfl,
    fun f hf => .inl hf, List.suffix_refl _⟩
  rw [if_neg]
  rintro ⟨-, h1, h2⟩
  omega

/-- One page and the pages after it. -/
theorem UnmapsUser.range (h : UnmapsUser dirs D G dir p f s t)
    (h' : UnmapsRange dirs D dir (p + 1) n F t u) (hf : f ∈ F) :
    UnmapsRange dirs D dir p (n + 1) F s u := by
  refine ⟨h.toKept.trans h'.toKept, h.toSameRest.trans h'.toSameRest, fun dir' hdir' q hq => ?_,
    fun g hg => ?_, h'.kernelTable.trans h.kernelTable, h'.heap.trans h.heap,
    fun dir' hdir' i hi => ?_, fun g hg => ?_, ?_⟩
  · rw [h'.leaf dir' hdir' q hq, h.leaf dir' hdir' q hq]
    by_cases hin : dir' = dir ∧ p ≤ q ∧ q < p + (n + 1)
    · rw [if_pos hin]
      -- page `p` is cleared here, the rest by the later turns
      by_cases hqp : q = p
      · rw [if_neg fun hc => by have := hc.2.1; omega, if_pos ⟨hin.1, hqp⟩]
      · rw [if_pos ⟨hin.1, by omega, by omega⟩]
    · rw [if_neg hin, if_neg fun hc => hin ⟨hc.1, by omega, by omega⟩,
        if_neg fun hc => hin ⟨hc.1, by omega, by omega⟩]
  · rw [h'.info g hg, h.info g fun hgf => hg (hgf ▸ hf)]
  · rw [h'.table dir' hdir' i hi, h.table dir' hdir' i hi]
  · -- a frame freed late was freed by the later turns or was the one of page `p`
    rcases h'.freed g hg with hgt | hgF
    · by_cases hone : (s.frames.info f).references = 1
      · rw [(h.last hone).1] at hgt
        rcases List.mem_cons.1 hgt with rfl | hgs
        · exact .inr hf
        · exact .inl hgs
      · rw [(h.shared hone).1] at hgt
        exact .inl hgt
    · exact .inr hgF
  · apply List.IsSuffix.trans _ h'.free
    by_cases hone : (s.frames.info f).references = 1
    · rw [(h.last hone).1]
      exact List.suffix_cons _ _
    · rw [(h.shared hone).1]

/-- The frames of the pages of an attachment. -/
def Attachment.frames (a : Attachment) (s : Kern) (o : ObjectAt) : Set Nat :=
  {f | ∃ k, a.first ≤ k ∧ k < a.last ∧ f = s.storedFrame o k}

/-- **The first loop of `freeSharedObject`**: the attachment shrinks to nothing, and the frames that
no other attachment maps are free. -/
theorem MemOk.unmapSharedPages (h : MemOk lay G D dirs ∅ s) (ha : Attached dirs objs (c :: atts) s)
    (ho : objs c.object = some o) (hn : c.first + n = c.last) (hle : c.va + 4096 * c.last ≤ userTop)
    (hF : c.frames s o ⊆ F)
    (hk : Fos.unmapSharedPages c.dir (c.va + 4096 * c.first) n s = .ok () t) :
    MemOk lay G D dirs ∅ t ∧ Attached dirs objs ({ c with first := c.last } :: atts) t ∧
      UnmapsRange dirs D c.dir (c.page c.first) n F s t ∧
      ∀ k, c.first ≤ k → k < c.last → coverCount (c :: atts) c.object k = 1 →
        s.storedFrame o k ∈ t.frames.freeFrameList := by
  induction n generalizing s c with
  | zero =>
    obtain ⟨-, rfl⟩ := ok_inj.1 hk
    have hc : ({ c with first := c.last } : Attachment) = c :=
      congrArg (fun k => ({ c with first := k } : Attachment)) (show c.last = c.first by omega)
    rw [hc]
    refine ⟨h, ha, .refl _ _ _ _ _ _, fun k h1 h2 => ?_⟩
    omega
  | succ n ih =>
    have hlt : c.first < c.last := by omega
    obtain ⟨hcdir, -, hcperm, o', ho', hclast⟩ := ha.attachment c List.mem_cons_self
    obtain rfl : o = o' := Option.some.inj (ho.symm.trans ho')
    obtain ⟨hva, hppn, hpage, hnext⟩ := page_addr hle hlt
    have hleaf := ha.maps c List.mem_cons_self o ho _ (le_refl _) hlt
    rw [Fos.unmapSharedPages] at hk
    obtain ⟨_, s₁, h₁, h₂⟩ := bind_eq_ok.1 hk
    rcases h.unmapUser hcdir hva h₁ with ⟨-, hz⟩ | ⟨-, hok₁, hu⟩
    · rw [hppn] at hz
      exact absurd hz (ha.leaf_ne List.mem_cons_self (le_refl _) hlt)
    · rw [hppn, show s.leaf c.dir (ppn c.va + c.first) = _ from hleaf, ppn_entryOf hcperm] at hu
      have ha₁ := ha.detach ho hlt hu
      -- unmapping a user page does not write the storage
      have hframe : ∀ k < o.pages, s₁.storedFrame o k = s.storedFrame o k := by
        intro k hk'
        unfold Kern.storedFrame
        rw [hu.diskLeaf _ (ha.storage _ o ho) k (by have := ha.small _ o ho; omega)]
      have hF₁ : ({ c with first := c.first + 1 } : Attachment).frames s₁ o ⊆ F := by
        rintro f ⟨k, h1, h2, rfl⟩
        change c.first + 1 ≤ k at h1
        change k < c.last at h2
        apply hF
        exact ⟨k, by omega, h2, hframe k (by omega)⟩
      rw [hnext] at h₂
      obtain ⟨hok, ha₂, hr, hfree⟩ := ih (c := { c with first := c.first + 1 }) hok₁ ha₁ ho
        (by dsimp only; omega) hle hF₁ h₂
      refine ⟨hok, ha₂, hu.range hr (hF ⟨_, le_refl _, hlt, rfl⟩), fun k h1 h2 hone => ?_⟩
      by_cases hkf : k = c.first
      · -- the count of the frame was one
        subst hkf
        have hrefs :=
          ha.counted _ o ho c.first (by omega) ⟨c, List.mem_cons_self, rfl, le_refl _, hlt⟩
        rw [hone] at hrefs
        apply hr.free.subset
        rw [(hu.last hrefs).1]
        exact List.mem_cons_self
      · rw [← hframe k (by omega)]
        apply hfree k (by dsimp only; omega) h2
        rw [coverCount_cons] at hone ⊢
        refine Eq.trans ?_ hone
        congr 1
        exact if_congr (covers_rest.trans (and_iff_left fun hc => hkf hc.2)) rfl rfl

end

end Fos
