import Fos.SharedMemory.Storage

/-!
# Attachments

An object in memory is a storage and its pages; an attachment maps a range of these pages in a page
directory. While a call goes over a range page by page, the attachment it makes or takes down covers
the pages done so far. The invariant ties the storages, the user pages and the counts of the frames
together, and one lemma for each single page says how they stay in step.
-/

namespace Fos

open Function (update)

/-- A shared object: the heap page of its storage, and how many pages it has. -/
structure ObjectAt where
  storage : Nat
  pages : Nat
  deriving DecidableEq

/-- The pages `first` to `last - 1` of an object, mapped by a directory with the permissions `perm`.
Page `k` of the object lies `k` pages after the address `va`. `got` tells the attachments that
`getSharedObject` makes from the one of `createSharedObject`. -/
structure Attachment where
  dir : DirPtr
  va : Nat
  object : Nat
  first : Nat
  last : Nat
  perm : Nat
  got : Bool
  deriving DecidableEq

/-- The storage directory of an object. -/
abbrev ObjectAt.root (o : ObjectAt) : DirPtr := .heap (o.storage * 4096)

/-- The frame of page `k` of an object. -/
def Kern.storedFrame (s : Kern) (o : ObjectAt) (k : Nat) : Nat := ppn (s.leaf o.root k)

/-- The attachment maps page `k` of object `i`. -/
def Attachment.Covers (a : Attachment) (i k : Nat) : Prop := a.object = i ∧ a.first ≤ k ∧ k < a.last

instance (a : Attachment) (i k : Nat) : Decidable (a.Covers i k) :=
  inferInstanceAs (Decidable (a.object = i ∧ a.first ≤ k ∧ k < a.last))

/-- The page where an attachment maps page `k` of its object. -/
abbrev Attachment.page (a : Attachment) (k : Nat) : Nat := ppn a.va + k

/-- How many attachments map page `k` of object `i`. -/
def coverCount (atts : List Attachment) (i k : Nat) : Nat :=
  atts.countP fun a => decide (a.Covers i k)

/-- Two attachments map different pages. -/
def Attachment.Apart (a b : Attachment) : Prop :=
  a.dir = b.dir → ∀ k, a.first ≤ k → k < a.last → ∀ l, b.first ≤ l → l < b.last →
    a.page k ≠ b.page l

/-- Every page of every object is mapped somewhere. -/
def Covered (objs : Nat → Option ObjectAt) (atts : List Attachment) : Prop :=
  ∀ i o, objs i = some o → ∀ k < o.pages, ∃ a ∈ atts, a.Covers i k

/-- The storages, the user pages and the counts agree on the objects and their attachments. -/
structure Attached (dirs : Roots) (objs : Nat → Option ObjectAt)
    (atts : List Attachment) (s : Kern) : Prop where
  storage : ∀ i o, objs i = some o → o.root ∈ dirs.disk
  storage_inj : ∀ i o i' o', objs i = some o → objs i' = some o' → o.storage = o'.storage → i = i'
  small : ∀ i o, objs i = some o → o.pages ≤ 977920
  stored : ∀ i o, objs i = some o → ∀ k < o.pages, present (s.leaf o.root k)
  rest : ∀ i o, objs i = some o → ∀ k, o.pages ≤ k → k < 977920 → s.leaf o.root k = 0
  distinct : ∀ i o i' o', objs i = some o → objs i' = some o' → ∀ k < o.pages, ∀ k' < o'.pages,
    s.storedFrame o k = s.storedFrame o' k' → i = i' ∧ k = k'
  attachment : ∀ a ∈ atts, a.dir ∈ dirs.page ∧ a.page a.last ≤ 977920 ∧ a.perm < 4096 ∧
    ∃ o, objs a.object = some o ∧ a.last ≤ o.pages
  apart : atts.Pairwise Attachment.Apart
  maps : ∀ a ∈ atts, ∀ o, objs a.object = some o → ∀ k, a.first ≤ k → k < a.last →
    s.leaf a.dir (a.page k) = entryOf (s.storedFrame o k) a.perm
  only : ∀ i o, objs i = some o → ∀ k < o.pages, ∀ dir ∈ dirs.page, ∀ q < 977920,
    present (s.leaf dir q) → ppn (s.leaf dir q) = s.storedFrame o k →
    ∃ a ∈ atts, a.dir = dir ∧ a.Covers i k ∧ a.page k = q
  counted : ∀ i o, objs i = some o → ∀ k < o.pages, (∃ a ∈ atts, a.Covers i k) →
    s.references (s.storedFrame o k) = coverCount atts i k

section

variable {lay : Layout} {G D : Set Nat} {dirs dirs' : Roots} {held : Set Nat} {s t : Kern}
  {objs : Nat → Option ObjectAt} {atts atts' : List Attachment} {a b c : Attachment} {o : ObjectAt}
  {dir : DirPtr} {f i k n p va : Nat}

theorem Attachment.page_lt (hle : a.page a.last ≤ 977920) (hk : k < a.last) :
    a.page k < 977920 := by
  unfold Attachment.page at *
  omega

theorem Attachment.Apart.symm (h : a.Apart b) : b.Apart a :=
  fun hd k h1 h2 l h3 h4 he => h hd.symm l h3 h4 k h1 h2 he.symm

theorem coverCount_cons (a : Attachment) (atts : List Attachment) (i k : Nat) :
    coverCount (a :: atts) i k = coverCount atts i k + if a.Covers i k then 1 else 0 := by
  unfold coverCount
  rw [List.countP_cons]
  simp

theorem coverCount_pos : (∃ a ∈ atts, a.Covers i k) ↔ 0 < coverCount atts i k := by
  unfold coverCount
  rw [List.countP_pos_iff]
  simp

/-- The order of the attachments does not matter. -/
theorem Attached.perm (h : Attached dirs objs atts s) (hp : atts.Perm atts') :
    Attached dirs objs atts' s where
  storage := h.storage
  storage_inj := h.storage_inj
  small := h.small
  stored := h.stored
  rest := h.rest
  distinct := h.distinct
  attachment a ha := h.attachment a (hp.mem_iff.2 ha)
  apart := (hp.pairwise_iff fun h => h.symm).1 h.apart
  maps a ha := h.maps a (hp.mem_iff.2 ha)
  only i o ho k hk dir hdir q hq hpr he := by
    obtain ⟨a, ha, hrest⟩ := h.only i o ho k hk dir hdir q hq hpr he
    exact ⟨a, hp.mem_iff.1 ha, hrest⟩
  counted i o ho k hk hex := by
    obtain ⟨a, ha, hc⟩ := hex
    rw [h.counted i o ho k hk ⟨a, hp.mem_iff.2 ha, hc⟩]
    exact hp.countP_eq _

/-- A page of an object that is mapped has its frame in use. -/
theorem Attached.userFrame (h : Attached dirs objs atts s) (ho : objs i = some o)
    (ha : a ∈ atts) (hc : a.Covers i k) : UserFrame dirs.page s (s.storedFrame o k) := by
  obtain ⟨rfl, h1, h2⟩ := hc
  obtain ⟨hdir, hle, hperm, -⟩ := h.attachment a ha
  have hm := h.maps a ha o ho k h1 h2
  refine ⟨a.dir, hdir, a.page k, Attachment.page_lt hle h2, ?_, ?_⟩
  · rw [hm]
    exact present_entryOf hperm
  · rw [hm]
    exact ppn_entryOf hperm

/-- The invariant where the leaves and the counts of the frames in use stand still. -/
theorem Attached.still (h : Attached dirs objs atts s) (hs : Still dirs.page D held s t)
    (hd : ∀ dir ∈ dirs.disk, ∀ p < 977920, t.leaf dir p = s.leaf dir p) :
    Attached dirs objs atts t := by
  have hleaf : ∀ i o, objs i = some o → ∀ k < 977920, t.leaf o.root k = s.leaf o.root k :=
    fun i o ho k hk => hd _ (h.storage i o ho) k hk
  -- the storage tables are read through the disk directories
  have hframe : ∀ i o, objs i = some o → ∀ k < o.pages, t.storedFrame o k = s.storedFrame o k := by
    intro i o ho k hk
    unfold Kern.storedFrame
    rw [hleaf i o ho k (by have := h.small i o ho; omega)]
  refine ⟨h.storage, h.storage_inj, h.small, ?_, ?_, ?_, h.attachment, h.apart, ?_, ?_, ?_⟩
  · intro i o ho k hk
    rw [hleaf i o ho k (by have := h.small i o ho; omega)]
    exact h.stored i o ho k hk
  · intro i o ho k hk hlt
    rw [hleaf i o ho k hlt]
    exact h.rest i o ho k hk hlt
  · intro i o i' o' ho ho' k hk k' hk' he
    rw [hframe i o ho k hk, hframe i' o' ho' k' hk'] at he
    exact h.distinct i o i' o' ho ho' k hk k' hk' he
  · intro a ha o ho k h1 h2
    obtain ⟨hdir, hle, -, o', ho', hlast⟩ := h.attachment a ha
    obtain rfl : o' = o := Option.some.inj (ho'.symm.trans ho)
    rw [hs.leaf a.dir hdir _ (Attachment.page_lt hle h2), hframe _ _ ho k (by omega)]
    exact h.maps a ha _ ho k h1 h2
  · intro i o ho k hk dir hdir q hq hpr he
    rw [hs.leaf dir hdir q hq] at hpr he
    rw [hframe i o ho k hk] at he
    exact h.only i o ho k hk dir hdir q hq hpr he
  · intro i o ho k hk hex
    rw [hframe i o ho k hk]
    obtain ⟨a, ha, hc⟩ := hex
    unfold Kern.references
    rw [hs.info _ (h.userFrame ho ha hc).inUse]
    exact h.counted i o ho k hk ⟨a, ha, hc⟩

/-! ## Objects that come and go -/

/-- An object with an empty storage. -/
theorem Attached.newObject (h : Attached dirs objs atts s) (hi : objs i = none)
    (hpage : dirs'.page = dirs.page) (hsub : ∀ dir ∈ dirs.disk, dir ∈ dirs'.disk)
    (hp : .heap (p * 4096) ∈ dirs'.disk) (hnew : .heap (p * 4096) ∉ dirs.disk)
    (hzero : ∀ q < 977920, s.leaf (.heap (p * 4096)) q = 0) :
    Attached dirs' (update objs i (some ⟨p, 0⟩)) atts s := by
  -- an object is the new one, which has no page yet, or one of before
  have hold : ∀ j o, update objs i (some ⟨p, 0⟩) j = some o →
      (j = i ∧ o = ⟨p, 0⟩) ∨ (j ≠ i ∧ objs j = some o) := by
    intro j o hj
    by_cases hji : j = i
    · rw [hji, Function.update_self] at hj
      exact .inl ⟨hji, (Option.some.inj hj).symm⟩
    · rw [Function.update_of_ne hji] at hj
      exact .inr ⟨hji, hj⟩
  refine ⟨?_, ?_, ?_, ?_, ?_, ?_, ?_, h.apart, ?_, ?_, ?_⟩
  · intro j o hj
    rcases hold j o hj with ⟨-, rfl⟩ | ⟨-, ho⟩
    · exact hp
    · exact hsub _ (h.storage j o ho)
  · intro j o j' o' hj hj' he
    rcases hold j o hj with ⟨rfl, rfl⟩ | ⟨hne, ho⟩
    · rcases hold j' o' hj' with ⟨rfl, -⟩ | ⟨-, ho'⟩
      · rfl
      · have := h.storage j' o' ho'
        rw [ObjectAt.root, ← he] at this
        exact absurd this hnew
    · rcases hold j' o' hj' with ⟨rfl, rfl⟩ | ⟨-, ho'⟩
      · have := h.storage j o ho
        rw [ObjectAt.root, he] at this
        exact absurd this hnew
      · exact h.storage_inj j o j' o' ho ho' he
  · intro j o hj
    rcases hold j o hj with ⟨-, rfl⟩ | ⟨-, ho⟩
    · exact Nat.zero_le _
    · exact h.small j o ho
  · intro j o hj k hk
    rcases hold j o hj with ⟨-, rfl⟩ | ⟨-, ho⟩
    · exact absurd hk (Nat.not_lt_zero k)
    · exact h.stored j o ho k hk
  · intro j o hj k hk hlt
    rcases hold j o hj with ⟨-, rfl⟩ | ⟨-, ho⟩
    · exact hzero k hlt
    · exact h.rest j o ho k hk hlt
  · intro j o j' o' hj hj' k hk k' hk' he
    rcases hold j o hj with ⟨-, rfl⟩ | ⟨-, ho⟩
    · exact absurd hk (Nat.not_lt_zero k)
    · rcases hold j' o' hj' with ⟨-, rfl⟩ | ⟨-, ho'⟩
      · exact absurd hk' (Nat.not_lt_zero k')
      · exact h.distinct j o j' o' ho ho' k hk k' hk' he
  · intro a ha
    obtain ⟨h1, h2, h3, o, ho, h4⟩ := h.attachment a ha
    refine ⟨by rw [hpage]; exact h1, h2, h3, o, ?_, h4⟩
    rw [Function.update_of_ne, ho]
    rintro rfl
    rw [hi] at ho
    cases ho
  · intro a ha o hj k h1 h2
    rcases hold _ o hj with ⟨rfl, -⟩ | ⟨-, ho⟩
    · obtain ⟨-, -, -, o', ho', -⟩ := h.attachment a ha
      rw [hi] at ho'
      cases ho'
    · exact h.maps a ha o ho k h1 h2
  · intro j o hj k hk dir hdir q hq
    rcases hold j o hj with ⟨-, rfl⟩ | ⟨-, ho⟩
    · exact absurd hk (Nat.not_lt_zero k)
    · exact h.only j o ho k hk dir (by rwa [← hpage]) q hq
  · intro j o hj k hk
    rcases hold j o hj with ⟨-, rfl⟩ | ⟨-, ho⟩
    · exact absurd hk (Nat.not_lt_zero k)
    · exact h.counted j o ho k hk

/-- An object without attachments is forgotten. -/
theorem Attached.dropObject (h : Attached dirs objs atts s) (hi : objs i = some o)
    (hnone : ∀ a ∈ atts, a.object ≠ i) :
    Attached (dirs.dropDisk o.root) (update objs i none) atts s := by
  -- the objects left are the others
  have hold : ∀ j o', update objs i none j = some o' → j ≠ i ∧ objs j = some o' := by
    intro j o' hj
    by_cases hji : j = i
    · rw [hji, Function.update_self] at hj
      cases hj
    · rw [Function.update_of_ne hji] at hj
      exact ⟨hji, hj⟩
  refine ⟨?_, ?_, ?_, ?_, ?_, ?_, ?_, h.apart, ?_, ?_, ?_⟩
  · intro j o' hj
    obtain ⟨hne, ho⟩ := hold j o' hj
    refine List.mem_filter.2 ⟨h.storage j o' ho, decide_eq_true fun hc => hne ?_⟩
    have hst : o'.storage = o.storage := by
      have := DirPtr.heap.inj hc
      omega
    exact h.storage_inj j o' i o ho hi hst
  · exact fun j o' j' o'' hj hj' => h.storage_inj j o' j' o'' (hold j o' hj).2 (hold j' o'' hj').2
  · exact fun j o' hj => h.small j o' (hold j o' hj).2
  · exact fun j o' hj => h.stored j o' (hold j o' hj).2
  · exact fun j o' hj => h.rest j o' (hold j o' hj).2
  · exact fun j o' j' o'' hj hj' => h.distinct j o' j' o'' (hold j o' hj).2 (hold j' o'' hj').2
  · intro a ha
    obtain ⟨h1, h2, h3, o', ho', h4⟩ := h.attachment a ha
    exact ⟨h1, h2, h3, o', by rw [Function.update_of_ne (hnone a ha), ho'], h4⟩
  · exact fun a ha o' hj => h.maps a ha o' (hold _ o' hj).2
  · exact fun j o' hj => h.only j o' (hold j o' hj).2
  · exact fun j o' hj => h.counted j o' (hold j o' hj).2

/-! ## Attachments of no page -/

theorem Attached.push (h : Attached dirs objs atts s) (hdir : c.dir ∈ dirs.page)
    (hle : c.page c.last ≤ 977920) (hperm : c.perm < 4096) (ho : objs c.object = some o)
    (hempty : c.last ≤ c.first) (hlast : c.last ≤ o.pages) : Attached dirs objs (c :: atts) s := by
  -- the new record covers no page yet
  have hnot : ∀ i k, ¬ c.Covers i k := by
    rintro i k ⟨-, h1, h2⟩
    omega
  refine ⟨h.storage, h.storage_inj, h.small, h.stored, h.rest, h.distinct, ?_, ?_, ?_, ?_, ?_⟩
  · intro a ha
    rcases List.mem_cons.1 ha with rfl | ha
    · exact ⟨hdir, hle, hperm, o, ho, hlast⟩
    · exact h.attachment a ha
  · refine List.pairwise_cons.2 ⟨fun b _ _ k h1 h2 => ?_, h.apart⟩
    omega
  · intro a ha o' ho' k h1 h2
    rcases List.mem_cons.1 ha with rfl | ha
    · omega
    · exact h.maps a ha o' ho' k h1 h2
  · intro i o' ho' k hk dir hdir' q hq hpr he
    obtain ⟨a, ha, hrest⟩ := h.only i o' ho' k hk dir hdir' q hq hpr he
    exact ⟨a, .tail _ ha, hrest⟩
  · rintro i o' ho' k hk ⟨a, ha, hc⟩
    rw [coverCount_cons, if_neg (hnot i k), Nat.add_zero]
    rcases List.mem_cons.1 ha with rfl | ha
    · exact absurd hc (hnot i k)
    · exact h.counted i o' ho' k hk ⟨a, ha, hc⟩

theorem Attached.pop (h : Attached dirs objs (c :: atts) s) (hempty : c.last ≤ c.first) :
    Attached dirs objs atts s := by
  have hnot : ∀ i k, ¬ c.Covers i k := by
    rintro i k ⟨-, h1, h2⟩
    omega
  refine ⟨h.storage, h.storage_inj, h.small, h.stored, h.rest, h.distinct,
    fun a ha => h.attachment a (.tail _ ha), (List.pairwise_cons.1 h.apart).2,
    fun a ha => h.maps a (.tail _ ha), ?_, ?_⟩
  · intro i o ho k hk dir hdir q hq hpr he
    obtain ⟨a, ha, hd, hc, hq'⟩ := h.only i o ho k hk dir hdir q hq hpr he
    rcases List.mem_cons.1 ha with rfl | ha
    · exact absurd hc (hnot i k)
    · exact ⟨a, ha, hd, hc, hq'⟩
  · rintro i o ho k hk ⟨a, ha, hc⟩
    have := h.counted i o ho k hk ⟨a, .tail _ ha, hc⟩
    rwa [coverCount_cons, if_neg (hnot i k), Nat.add_zero] at this

/-! ## One page more -/

theorem covers_next (hfl : c.first ≤ c.last) :
    ({ c with last := c.last + 1 } : Attachment).Covers i k ↔
    c.Covers i k ∨ (i = c.object ∧ k = c.last) := by
  show (c.object = i ∧ c.first ≤ k ∧ k < c.last + 1) ↔ (c.object = i ∧ c.first ≤ k ∧ k < c.last) ∨ _
  omega

theorem covers_rest : ({ c with first := c.first + 1 } : Attachment).Covers i k ↔
    c.Covers i k ∧ ¬ (i = c.object ∧ k = c.first) := by
  show (c.object = i ∧ c.first + 1 ≤ k ∧ k < c.last) ↔ (c.object = i ∧ c.first ≤ k ∧ k < c.last) ∧ _
  omega

theorem Attached.leaf_ne (h : Attached dirs objs atts s) (ha : a ∈ atts) (h1 : a.first ≤ k)
    (h2 : k < a.last) : s.leaf a.dir (a.page k) ≠ 0 := by
  obtain ⟨-, -, hperm, o, ho, -⟩ := h.attachment a ha
  rw [h.maps a ha o ho k h1 h2]
  exact present_ne_zero (present_entryOf hperm)

/-- **The next page of an object is mapped** in the directory of an attachment. -/
theorem Attached.attach {D held : Set Nat} (h : Attached dirs objs (c :: atts) s)
    (hcov : Covered objs (c :: atts)) (ho : objs c.object = some o) (hlt : c.last < o.pages)
    (hfl : c.first ≤ c.last) (hr : c.page c.last < 977920) (hz : s.leaf c.dir (c.page c.last) = 0)
    (hm : MapsUser dirs D held c.dir (c.page c.last) (s.storedFrame o c.last) va c.perm s t) :
    Attached dirs objs ({ c with last := c.last + 1 } :: atts) t := by
  -- the storages are not written, so they list the frames they did
  have hframe : ∀ i o, objs i = some o → ∀ k < o.pages, t.storedFrame o k = s.storedFrame o k := by
    intro i o ho k hk
    unfold Kern.storedFrame
    rw [hm.diskLeaf _ (h.storage i o ho) k (by have := h.small i o ho; omega)]
  have hne : ∀ a ∈ c :: atts, ∀ k, a.first ≤ k → k < a.last →
      ¬ (a.dir = c.dir ∧ a.page k = c.page c.last) := by
    rintro a ha k h1 h2 ⟨hd, hp⟩
    refine h.leaf_ne ha h1 h2 ?_
    rw [hd, hp, hz]
  have hleaf : ∀ a ∈ c :: atts, ∀ k, a.first ≤ k → k < a.last →
      t.leaf a.dir (a.page k) = s.leaf a.dir (a.page k) := by
    intro a ha k h1 h2
    obtain ⟨hdir, hle, -⟩ := h.attachment a ha
    rw [hm.leaf a.dir hdir _ (Attachment.page_lt hle h2), if_neg (hne a ha k h1 h2)]
  obtain ⟨hcdir, -, hcperm, -⟩ := h.attachment c List.mem_cons_self
  refine ⟨h.storage, h.storage_inj, h.small, ?_, ?_, ?_, ?_, ?_, ?_, ?_, ?_⟩
  · intro i o ho k hk
    rw [hm.diskLeaf _ (h.storage i o ho) k (by have := h.small i o ho; omega)]
    exact h.stored i o ho k hk
  · intro i o ho k hk hlt
    rw [hm.diskLeaf _ (h.storage i o ho) k hlt]
    exact h.rest i o ho k hk hlt
  · intro i o i' o' ho ho' k hk k' hk' he
    rw [hframe i o ho k hk, hframe i' o' ho' k' hk'] at he
    exact h.distinct i o i' o' ho ho' k hk k' hk' he
  · intro a ha
    rcases List.mem_cons.1 ha with rfl | ha
    · refine ⟨hcdir, ?_, hcperm, o, ho, hlt⟩
      show ppn c.va + (c.last + 1) ≤ 977920
      unfold Attachment.page at hr
      omega
    · exact h.attachment a (.tail _ ha)
  · refine List.pairwise_cons.2 ⟨fun b hb hd k h1 h2 l h3 h4 he => ?_,
      (List.pairwise_cons.1 h.apart).2⟩
    by_cases hk : k = c.last
    · exact hne b (.tail _ hb) l h3 h4 ⟨hd.symm, by rw [← he, hk]⟩
    · exact (List.pairwise_cons.1 h.apart).1 b hb hd k h1 (by dsimp only at h2; omega) l h3 h4 he
  · intro a ha o' ho' k h1 h2
    rcases List.mem_cons.1 ha with rfl | ha
    · obtain rfl : o = o' := Option.some.inj (ho.symm.trans ho')
      change c.first ≤ k at h1
      change k < c.last + 1 at h2
      show t.leaf c.dir (c.page k) = entryOf (t.storedFrame o k) c.perm
      rw [hframe _ o ho k (by omega)]
      by_cases hk : k = c.last
      · rw [hk, hm.leaf c.dir hcdir _ hr, if_pos ⟨rfl, rfl⟩]
      · rw [hleaf c List.mem_cons_self k h1 (by omega)]
        exact h.maps c List.mem_cons_self o ho k h1 (by omega)
    · obtain ⟨-, -, -, o'', ho'', hl⟩ := h.attachment a (.tail _ ha)
      obtain rfl : o' = o'' := Option.some.inj (ho'.symm.trans ho'')
      rw [hleaf a (.tail _ ha) k h1 h2, hframe _ o' ho' k (by omega)]
      exact h.maps a (.tail _ ha) o' ho' k h1 h2
  · intro i o' ho' k hk dir hdir q hq hpr he
    rw [hm.leaf dir hdir q hq] at hpr he
    rw [hframe i o' ho' k hk] at he
    split at hpr
    case isTrue hc =>
      rw [if_pos hc, ppn_entryOf hcperm] at he
      obtain ⟨rfl, rfl⟩ := h.distinct _ o i o' ho ho' _ hlt k hk he
      exact ⟨_, List.mem_cons_self, hc.1.symm, (covers_next hfl).2 (.inr ⟨rfl, rfl⟩), hc.2.symm⟩
    case isFalse hc =>
      rw [if_neg hc] at he
      obtain ⟨a, ha, hd, hcv, hp⟩ := h.only i o' ho' k hk dir hdir q hq hpr he
      rcases List.mem_cons.1 ha with rfl | ha
      · exact ⟨_, List.mem_cons_self, hd, (covers_next hfl).2 (.inl hcv), hp⟩
      · exact ⟨a, .tail _ ha, hd, hcv, hp⟩
  · intro i o' ho' k hk _
    rw [hframe i o' ho' k hk]
    have hold := h.counted i o' ho' k hk (hcov i o' ho' k hk)
    obtain ⟨a, ha, hcv⟩ := hcov i o' ho' k hk
    rw [coverCount_cons] at hold ⊢
    by_cases hik : i = c.object ∧ k = c.last
    · obtain ⟨rfl, rfl⟩ := hik
      obtain rfl : o = o' := Option.some.inj (ho.symm.trans ho')
      -- the page that was added is the one the frame gained a reference by
      have hnot : ¬ c.Covers c.object c.last := fun hc => absurd hc.2.2 (lt_irrefl _)
      rw [if_neg hnot] at hold
      rw [if_pos ((covers_next hfl).2 (.inr ⟨rfl, rfl⟩))]
      unfold Kern.references at hold ⊢
      rw [hm.infoSelf]
      show (s.frames.info (s.storedFrame o c.last)).references + 1 = _
      rw [hold, Nat.add_zero]
    · -- another object or page has another frame, whose count stays
      have hfr : s.storedFrame o' k ≠ s.storedFrame o c.last := by
        intro he
        obtain ⟨h1, h2⟩ := h.distinct i o' _ o ho' ho k hk _ hlt he
        exact hik ⟨h1, h2⟩
      unfold Kern.references at hold ⊢
      rw [hm.info _ (h.userFrame ho' ha hcv).inUse hfr, hold]
      congr 1
      exact if_congr (((covers_next hfl).trans (or_iff_left hik)).symm) rfl rfl

/-- **A page of an attachment is unmapped.** -/
theorem Attached.detach {D : Set Nat} (h : Attached dirs objs (c :: atts) s)
    (ho : objs c.object = some o) (hlt : c.first < c.last)
    (hu : UnmapsUser dirs D G c.dir (c.page c.first) (s.storedFrame o c.first) s t) :
    Attached dirs objs ({ c with first := c.first + 1 } :: atts) t := by
  obtain ⟨hcdir, hcle, hcperm, o₁, ho₁, hclast⟩ := h.attachment c List.mem_cons_self
  obtain rfl : o = o₁ := Option.some.inj (ho.symm.trans ho₁)
  have hframe : ∀ i o, objs i = some o → ∀ k < o.pages, t.storedFrame o k = s.storedFrame o k := by
    intro i o ho k hk
    unfold Kern.storedFrame
    rw [hu.diskLeaf _ (h.storage i o ho) k (by have := h.small i o ho; omega)]
  have hleaf : ∀ dir ∈ dirs.page, ∀ q < 977920, ¬ (dir = c.dir ∧ q = c.page c.first) →
      t.leaf dir q = s.leaf dir q := by
    intro dir hdir q hq hne
    rw [hu.leaf dir hdir q hq, if_neg hne]
  refine ⟨h.storage, h.storage_inj, h.small, ?_, ?_, ?_, ?_, ?_, ?_, ?_, ?_⟩
  · intro i o ho k hk
    rw [hu.diskLeaf _ (h.storage i o ho) k (by have := h.small i o ho; omega)]
    exact h.stored i o ho k hk
  · intro i o ho k hk hlt
    rw [hu.diskLeaf _ (h.storage i o ho) k hlt]
    exact h.rest i o ho k hk hlt
  · intro i o i' o' ho ho' k hk k' hk' he
    rw [hframe i o ho k hk, hframe i' o' ho' k' hk'] at he
    exact h.distinct i o i' o' ho ho' k hk k' hk' he
  · intro a ha
    rcases List.mem_cons.1 ha with rfl | ha
    · exact ⟨hcdir, hcle, hcperm, o, ho, hclast⟩
    · exact h.attachment a (.tail _ ha)
  · refine List.pairwise_cons.2 ⟨fun b hb hd k h1 h2 l h3 h4 => ?_,
      (List.pairwise_cons.1 h.apart).2⟩
    exact (List.pairwise_cons.1 h.apart).1 b hb hd k (by dsimp only at h1; omega) h2 l h3 h4
  · intro a ha o' ho' k h1 h2
    rcases List.mem_cons.1 ha with rfl | ha
    · obtain rfl : o = o' := Option.some.inj (ho.symm.trans ho')
      change c.first + 1 ≤ k at h1
      change k < c.last at h2
      show t.leaf c.dir (c.page k) = entryOf (t.storedFrame o k) c.perm
      rw [hframe _ o ho k (by omega),
        hleaf c.dir hcdir _ (Attachment.page_lt hcle h2) (fun hc => ?_)]
      · exact h.maps c List.mem_cons_self o ho k (by omega) h2
      · have := hc.2
        unfold Attachment.page at this
        omega
    · obtain ⟨hadir, hale, -, o'', ho'', hl⟩ := h.attachment a (.tail _ ha)
      obtain rfl : o' = o'' := Option.some.inj (ho'.symm.trans ho'')
      rw [hframe _ o' ho' k (by omega),
        hleaf a.dir hadir _ (Attachment.page_lt hale h2) (fun hc => ?_)]
      · exact h.maps a (.tail _ ha) o' ho' k h1 h2
      · exact (List.pairwise_cons.1 h.apart).1 a ha hc.1.symm c.first (le_refl _) hlt k h1 h2 hc.2.symm
  · intro i o' ho' k hk dir hdir q hq hpr he
    rw [hframe i o' ho' k hk] at he
    by_cases hc : dir = c.dir ∧ q = c.page c.first
    · rw [hu.leaf dir hdir q hq, if_pos hc] at hpr
      exact absurd hpr not_present_zero
    · rw [hleaf dir hdir q hq hc] at hpr he
      obtain ⟨a, ha, hd, hcv, hp⟩ := h.only i o' ho' k hk dir hdir q hq hpr he
      rcases List.mem_cons.1 ha with rfl | ha
      · refine ⟨_, List.mem_cons_self, hd, covers_rest.2 ⟨hcv, fun hik => hc ?_⟩, hp⟩
        exact ⟨hd.symm, by rw [← hp, hik.2]⟩
      · exact ⟨a, .tail _ ha, hd, hcv, hp⟩
  · rintro i o' ho' k hk hex
    rw [hframe i o' ho' k hk]
    have hpos := coverCount_pos.1 hex
    have hexold : ∃ a ∈ c :: atts, a.Covers i k := by
      obtain ⟨a, ha, hcv⟩ := hex
      rcases List.mem_cons.1 ha with rfl | ha
      · exact ⟨c, List.mem_cons_self, (covers_rest.1 hcv).1⟩
      · exact ⟨a, .tail _ ha, hcv⟩
    have hold := h.counted i o' ho' k hk hexold
    rw [coverCount_cons] at hold hpos ⊢
    by_cases hik : i = c.object ∧ k = c.first
    · obtain ⟨rfl, rfl⟩ := hik
      obtain rfl : o = o' := Option.some.inj (ho.symm.trans ho')
      rw [if_pos ⟨rfl, le_refl _, hlt⟩] at hold
      -- the frame loses the reference of the page that went
      have hgone : ¬ ({ c with first := c.first + 1 } : Attachment).Covers c.object c.first :=
        fun hcv => (covers_rest.1 hcv).2 ⟨rfl, rfl⟩
      rw [if_neg hgone] at hpos ⊢
      unfold Kern.references at hold ⊢
      rw [(hu.shared (by omega)).2, hold]
      omega
    · -- another object or page has another frame, whose count stays
      have hfr : s.storedFrame o' k ≠ s.storedFrame o c.first := by
        intro he
        obtain ⟨h1, h2⟩ := h.distinct i o' _ o ho' ho k hk _ (by omega) he
        exact hik ⟨h1, h2⟩
      unfold Kern.references at hold ⊢
      rw [hu.info _ hfr, hold]
      congr 1
      exact if_congr ((covers_rest.trans (and_iff_left hik)).symm) rfl rfl

/-! ## A page more for the object -/

/-- **A page of another kind is mapped.** -/
theorem Attached.mapOther {D held : Set Nat} (h : Attached dirs objs atts s)
    (hz : s.leaf dir p = 0) (hperm : n < 4096)
    (hf : ∀ i o, objs i = some o → ∀ k < o.pages, s.storedFrame o k ≠ f)
    (hm : MapsUser dirs D held dir p f va n s t) : Attached dirs objs atts t := by
  have hframe : ∀ i o, objs i = some o → ∀ k < o.pages, t.storedFrame o k = s.storedFrame o k := by
    intro i o ho k hk
    unfold Kern.storedFrame
    rw [hm.diskLeaf _ (h.storage i o ho) k (by have := h.small i o ho; omega)]
  refine ⟨h.storage, h.storage_inj, h.small, ?_, ?_, ?_, h.attachment, h.apart, ?_, ?_, ?_⟩
  · intro i o ho k hk
    rw [hm.diskLeaf _ (h.storage i o ho) k (by have := h.small i o ho; omega)]
    exact h.stored i o ho k hk
  · intro i o ho k hk hlt
    rw [hm.diskLeaf _ (h.storage i o ho) k hlt]
    exact h.rest i o ho k hk hlt
  · intro i o i' o' ho ho' k hk k' hk' he
    rw [hframe i o ho k hk, hframe i' o' ho' k' hk'] at he
    exact h.distinct i o i' o' ho ho' k hk k' hk' he
  · intro a ha o ho k h1 h2
    obtain ⟨hdir, hle, -, o', ho', hlast⟩ := h.attachment a ha
    obtain rfl : o' = o := Option.some.inj (ho'.symm.trans ho)
    rw [hm.leaf a.dir hdir _ (Attachment.page_lt hle h2), if_neg, hframe _ _ ho k (by omega)]
    · exact h.maps a ha _ ho k h1 h2
    · rintro ⟨hd, hp⟩
      refine h.leaf_ne ha h1 h2 ?_
      rw [hd, hp, hz]
  · intro i o ho k hk dir' hdir q hq hpr he
    rw [hm.leaf dir' hdir q hq] at hpr he
    rw [hframe i o ho k hk] at he
    split at hpr
    case isTrue hc =>
      -- the page that is new maps no frame of an object
      rw [if_pos hc, ppn_entryOf hperm] at he
      exact absurd he.symm (hf i o ho k hk)
    case isFalse hc =>
      rw [if_neg hc] at he
      exact h.only i o ho k hk dir' hdir q hq hpr he
  · rintro i o ho k hk ⟨a, ha, hc⟩
    rw [hframe i o ho k hk]
    unfold Kern.references
    rw [hm.info _ (h.userFrame ho ha hc).inUse (hf i o ho k hk)]
    exact h.counted i o ho k hk ⟨a, ha, hc⟩

/-- **A mapped page becomes the next page of an object** when its frame is stored. -/
theorem Attached.adopt {D held : Set Nat} (h : Attached dirs objs (c :: atts) s)
    (ho : objs c.object = some o) (hlast : c.last = o.pages) (hfl : c.first ≤ c.last)
    (hroom : o.pages < 977920) (hpage : c.page c.last < 977920)
    (hleaf : s.leaf c.dir (c.page c.last) = entryOf f c.perm)
    (honly : ∀ dir ∈ dirs.page, ∀ q < 977920, present (s.leaf dir q) → ppn (s.leaf dir q) = f →
      dir = c.dir ∧ q = c.page c.last)
    (hone : s.references f = 1) (hf : ∀ i o, objs i = some o → ∀ k < o.pages, s.storedFrame o k ≠ f)
    (hs : StoresLeaf dirs D held o.root o.pages (entryOf f 0) s t) :
    Attached dirs (update objs c.object (some { o with pages := o.pages + 1 }))
      ({ c with last := c.last + 1 } :: atts) t := by
  obtain ⟨hcdir, -, hcperm, -⟩ := h.attachment c List.mem_cons_self
  have hobj : ∀ j o₁, update objs c.object (some { o with pages := o.pages + 1 }) j = some o₁ →
      (j = c.object ∧ o₁ = { o with pages := o.pages + 1 }) ∨
      (j ≠ c.object ∧ objs j = some o₁) := by
    intro j o₁ hj
    by_cases hjc : j = c.object
    · rw [hjc, Function.update_self] at hj
      exact .inl ⟨hjc, (Option.some.inj hj).symm⟩
    · rw [Function.update_of_ne hjc] at hj
      exact .inr ⟨hjc, hj⟩
  have hleafOld : ∀ j o₁, objs j = some o₁ → ∀ k < 977920, ¬ (j = c.object ∧ k = o.pages) →
      t.leaf o₁.root k = s.leaf o₁.root k := by
    intro j o₁ hj k hk hne
    rw [hs.diskLeaf _ (h.storage j o₁ hj) k hk, if_neg]
    rintro ⟨hroot, hkp⟩
    refine hne ⟨h.storage_inj j o₁ _ o hj ho ?_, hkp⟩
    have := DirPtr.heap.inj hroot
    omega
  have hleafNew : t.leaf o.root o.pages = entryOf f 0 := by
    rw [hs.diskLeaf _ (h.storage _ o ho) _ hroom, if_pos ⟨rfl, rfl⟩]
  -- a page of an object is the new one, or it was there and has the same frame
  have hcase : ∀ j o₁, update objs c.object (some { o with pages := o.pages + 1 }) j = some o₁ →
      ∀ k < o₁.pages, (j = c.object ∧ k = o.pages ∧ t.storedFrame o₁ k = f ∧
        t.leaf o₁.root k = entryOf f 0) ∨
      ∃ o₂, objs j = some o₂ ∧ k < o₂.pages ∧ t.storedFrame o₁ k = s.storedFrame o₂ k ∧
        t.leaf o₁.root k = s.leaf o₂.root k := by
    intro j o₁ hj k hk
    rcases hobj j o₁ hj with ⟨rfl, rfl⟩ | ⟨hne, hj'⟩
    · by_cases hkp : k = o.pages
      · subst hkp
        refine .inl ⟨rfl, rfl, ?_, hleafNew⟩
        unfold Kern.storedFrame
        rw [show t.leaf ({ o with pages := o.pages + 1 } : ObjectAt).root o.pages = entryOf f 0
          from hleafNew]
        exact ppn_entryOf (by decide)
      · have hk' : k < o.pages := by
          dsimp only at hk
          omega
        have hl := hleafOld _ o ho k (by omega) fun hc => hkp hc.2
        refine .inr ⟨o, ho, hk', ?_, hl⟩
        unfold Kern.storedFrame
        rw [show t.leaf ({ o with pages := o.pages + 1 } : ObjectAt).root k = s.leaf o.root k from hl]
    · have hl := hleafOld j o₁ hj' k (by have := h.small j o₁ hj'; omega) fun hc => hne hc.1
      refine .inr ⟨o₁, hj', hk, ?_, hl⟩
      unfold Kern.storedFrame
      rw [hl]
  have hnotNew : ∀ a ∈ c :: atts, ¬ a.Covers c.object o.pages := by
    rintro a ha ⟨hobj', -, h2⟩
    obtain ⟨-, -, -, o₁, ho₁, hl⟩ := h.attachment a ha
    rw [hobj', ho] at ho₁
    obtain rfl := Option.some.inj ho₁
    omega
  refine ⟨?_, ?_, ?_, ?_, ?_, ?_, ?_, ?_, ?_, ?_, ?_⟩
  · intro j o₁ hj
    rcases hobj j o₁ hj with ⟨rfl, rfl⟩ | ⟨-, hj'⟩
    · exact h.storage _ o ho
    · exact h.storage j o₁ hj'
  · intro j o₁ j' o₂ hj hj' he
    rcases hobj j o₁ hj with ⟨rfl, rfl⟩ | ⟨-, h1⟩
    · rcases hobj j' o₂ hj' with ⟨rfl, -⟩ | ⟨-, h2⟩
      · rfl
      · exact h.storage_inj _ o j' o₂ ho h2 he
    · rcases hobj j' o₂ hj' with ⟨rfl, rfl⟩ | ⟨-, h2⟩
      · exact h.storage_inj j o₁ _ o h1 ho he
      · exact h.storage_inj j o₁ j' o₂ h1 h2 he
  · intro j o₁ hj
    rcases hobj j o₁ hj with ⟨-, rfl⟩ | ⟨-, hj'⟩
    · exact hroom
    · exact h.small j o₁ hj'
  · intro j o₁ hj k hk
    rcases hcase j o₁ hj k hk with ⟨-, -, -, hl⟩ | ⟨o₂, ho₂, hk₂, -, hl⟩
    · rw [hl]
      exact present_entryOf (by decide)
    · rw [hl]
      exact h.stored j o₂ ho₂ k hk₂
  · intro j o₁ hj k hk hlt
    rcases hobj j o₁ hj with ⟨rfl, rfl⟩ | ⟨hne, hj'⟩
    · change o.pages + 1 ≤ k at hk
      show t.leaf o.root k = 0
      rw [hleafOld _ o ho k hlt fun hc => by omega]
      exact h.rest _ o ho k (by omega) hlt
    · rw [hleafOld j o₁ hj' k hlt fun hc => hne hc.1]
      exact h.rest j o₁ hj' k hk hlt
  · intro j o₁ j' o₂ hj hj' k hk k' hk' he
    rcases hcase j o₁ hj k hk with ⟨rfl, rfl, hfr, -⟩ | ⟨p₁, hp₁, hk₁, hfr, -⟩
    · rcases hcase j' o₂ hj' k' hk' with ⟨rfl, rfl, -, -⟩ | ⟨p₂, hp₂, hk₂, hfr', -⟩
      · exact ⟨rfl, rfl⟩
      · rw [hfr, hfr'] at he
        exact absurd he.symm (hf j' p₂ hp₂ k' hk₂)
    · rcases hcase j' o₂ hj' k' hk' with ⟨rfl, rfl, hfr', -⟩ | ⟨p₂, hp₂, hk₂, hfr', -⟩
      · rw [hfr, hfr'] at he
        exact absurd he (hf j p₁ hp₁ k hk₁)
      · rw [hfr, hfr'] at he
        exact h.distinct j p₁ j' p₂ hp₁ hp₂ k hk₁ k' hk₂ he
  · intro a ha
    rcases List.mem_cons.1 ha with rfl | ha
    · refine ⟨hcdir, ?_, hcperm, _, Function.update_self _ _ _, ?_⟩
      · show ppn c.va + (c.last + 1) ≤ 977920
        unfold Attachment.page at hpage
        omega
      · show c.last + 1 ≤ o.pages + 1
        omega
    · obtain ⟨h1, h2, h3, o₁, ho₁, h4⟩ := h.attachment a (.tail _ ha)
      refine ⟨h1, h2, h3, ?_⟩
      by_cases hac : a.object = c.object
      · rw [hac, ho] at ho₁
        obtain rfl := Option.some.inj ho₁
        exact ⟨_, by rw [hac, Function.update_self], by dsimp only; omega⟩
      · exact ⟨o₁, by rw [Function.update_of_ne hac, ho₁], h4⟩
  · refine List.pairwise_cons.2 ⟨fun b hb hd k h1 h2 l h3 h4 he => ?_,
      (List.pairwise_cons.1 h.apart).2⟩
    by_cases hk : k = c.last
    · -- the page of another attachment maps a frame of an object
      obtain ⟨hbdir, hble, hbperm, o₁, ho₁, hl⟩ := h.attachment b (.tail _ hb)
      have hm := h.maps b (.tail _ hb) o₁ ho₁ l h3 h4
      rw [← hd, ← he, hk] at hm
      change s.leaf c.dir (c.page c.last) = _ at hm
      rw [hleaf] at hm
      have hppn := congrArg ppn hm
      rw [ppn_entryOf hcperm, ppn_entryOf hbperm] at hppn
      exact hf _ o₁ ho₁ l (by omega) hppn.symm
    · exact (List.pairwise_cons.1 h.apart).1 b hb hd k h1 (by dsimp only at h2; omega) l h3 h4 he
  · intro a ha o₁ ho₁ k h1 h2
    rcases List.mem_cons.1 ha with rfl | ha
    · change c.first ≤ k at h1
      change k < c.last + 1 at h2
      show t.leaf c.dir (c.page k) = entryOf (t.storedFrame o₁ k) c.perm
      have hpk : c.page k < 977920 := by
        unfold Attachment.page at *
        omega
      have ho₁' : o₁ = { o with pages := o.pages + 1 } := by
        rcases hobj _ o₁ ho₁ with ⟨-, he⟩ | ⟨hne, -⟩
        · exact he
        · exact absurd rfl hne
      rw [hs.leaf c.dir hcdir _ hpk]
      rcases hcase _ o₁ ho₁ k (by rw [ho₁']; dsimp only; omega) with
        ⟨-, rfl, hfr, -⟩ | ⟨o₂, ho₂, hk₂, hfr, -⟩
      · rw [hfr, ← hlast, hleaf]
      · rw [hfr]
        obtain rfl : o = o₂ := Option.some.inj (ho.symm.trans ho₂)
        exact h.maps c List.mem_cons_self o ho k h1 (by omega)
    · obtain ⟨hadir, hale, -, o₂, ho₂, hl⟩ := h.attachment a (.tail _ ha)
      have hk₁ : k < o₁.pages := by
        rcases hobj _ o₁ ho₁ with ⟨hac, rfl⟩ | ⟨-, ho₁'⟩
        · rw [hac, ho] at ho₂
          obtain rfl := Option.some.inj ho₂
          dsimp only
          omega
        · obtain rfl : o₁ = o₂ := Option.some.inj (ho₁'.symm.trans ho₂)
          omega
      rw [hs.leaf a.dir hadir _ (Attachment.page_lt hale h2)]
      rcases hcase _ o₁ ho₁ k hk₁ with ⟨hac, rfl, -, -⟩ | ⟨o₃, ho₃, hk₃, hfr, -⟩
      · exact absurd ⟨hac, h1, h2⟩ (hnotNew a (.tail _ ha))
      · rw [hfr]
        exact h.maps a (.tail _ ha) o₃ ho₃ k h1 h2
  · intro j o₁ hj k hk dir hdir q hq hpr he
    rw [hs.leaf dir hdir q hq] at hpr he
    rcases hcase j o₁ hj k hk with ⟨rfl, rfl, hfr, -⟩ | ⟨o₂, ho₂, hk₂, hfr, -⟩
    · obtain ⟨rfl, rfl⟩ := honly dir hdir q hq hpr (he.trans hfr)
      exact ⟨_, List.mem_cons_self, rfl, (covers_next hfl).2 (.inr ⟨rfl, hlast.symm⟩),
        by rw [← hlast]⟩
    · obtain ⟨a, ha, hd, hcv, hp⟩ := h.only j o₂ ho₂ k hk₂ dir hdir q hq hpr (he.trans hfr)
      rcases List.mem_cons.1 ha with rfl | ha
      · exact ⟨_, List.mem_cons_self, hd, (covers_next hfl).2 (.inl hcv), hp⟩
      · exact ⟨a, .tail _ ha, hd, hcv, hp⟩
  · intro j o₁ hj k hk hex
    rcases hcase j o₁ hj k hk with ⟨rfl, rfl, hfr, -⟩ | ⟨o₂, ho₂, hk₂, hfr, -⟩
    · rw [hfr, coverCount_cons, if_pos ((covers_next hfl).2 (.inr ⟨rfl, hlast.symm⟩))]
      have h0 : coverCount atts c.object o.pages = 0 := by
        by_contra hne
        obtain ⟨a, ha, hcv⟩ := coverCount_pos.2 (Nat.pos_of_ne_zero hne)
        exact hnotNew a (.tail _ ha) hcv
      have huser : UserFrame dirs.page s f :=
        ⟨c.dir, hcdir, _, hpage, by rw [hleaf]; exact present_entryOf hcperm,
          by rw [hleaf]; exact ppn_entryOf hcperm⟩
      unfold Kern.references at hone ⊢
      rw [h0, hs.info f huser.inUse, hone]
    · have hexOld : ∃ a ∈ c :: atts, a.Covers j k := by
        obtain ⟨a, ha, hcv⟩ := hex
        rcases List.mem_cons.1 ha with rfl | ha
        · refine ⟨c, List.mem_cons_self, ((covers_next hfl).1 hcv).resolve_right ?_⟩
          rintro ⟨rfl, rfl⟩
          obtain rfl : o = o₂ := Option.some.inj (ho.symm.trans ho₂)
          omega
        · exact ⟨a, .tail _ ha, hcv⟩
      have hnot : ¬ (j = c.object ∧ k = c.last) := by
        rintro ⟨rfl, rfl⟩
        obtain rfl : o = o₂ := Option.some.inj (ho.symm.trans ho₂)
        omega
      have hold := h.counted j o₂ ho₂ k hk₂ hexOld
      obtain ⟨a, ha, hcv⟩ := hexOld
      rw [hfr]
      unfold Kern.references at hold ⊢
      rw [hs.info _ (h.userFrame ho₂ ha hcv).inUse, hold, coverCount_cons, coverCount_cons]
      congr 1
      exact if_congr (((covers_next hfl).trans (or_iff_left hnot)).symm) rfl rfl

end

end Fos
