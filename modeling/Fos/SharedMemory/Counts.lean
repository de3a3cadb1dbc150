import Fos.SharedMemory.OneObject

/-!
# The counts of shared frames

The count of a frame has 16 bits. As long as no object has more attachments than fit, the count of
each of its frames is the number of pages that map it.
-/

namespace Fos

open Prog (bind_eq_ok bind_of_ok ok_inj)
open Relation (ReflTransGen)

/-- The user pages that map a frame. -/
def ShareState.mappings (s : ShareState) (f : Nat) : Set (DirPtr × Nat) :=
  {x | x.1 ∈ s.pages ∧ x.2 < 977920 ∧ present (s.kern.leaf x.1 x.2) ∧ ppn (s.kern.leaf x.1 x.2) = f}

/-- No user page maps a free frame. -/
def NoFreeMapped (pages : List DirPtr) (s : Kern) : Prop :=
  ∀ dir ∈ pages, ∀ p < 977920, present (s.leaf dir p) → ppn (s.leaf dir p) ∉ s.frames.freeFrameList

section

variable {c : BootConfig} {lay : Layout} {G D : Set Nat} {dirs : Roots} {held : Set Nat}
  {s : ShareState} {k t : Kern} {o : ObjectAt} {atts : List Attachment} {i n : Nat}

theorem MemOk.noFreeMapped (h : MemOk lay G D dirs held k) : NoFreeMapped dirs.page k :=
  fun _ hdir _ hp hpr => (h.usable_leaf hdir hp hpr).notFree

/-- The pages that map page `n` of an object are those of the attachments that cover it. -/
theorem SharesOk.mem_mappings (h : SharesOk lay G dirs s.atts s.kern) (hdirs : dirs.page = s.pages)
    (ho : s.kern.shares.object i = some o) (hn : n < o.pages) (x : DirPtr × Nat) :
    x ∈ s.mappings (s.kern.storedFrame o n) ↔
      x ∈ (s.atts.filter fun a => decide (a.Covers i n)).map fun a => (a.dir, a.page n) := by
  rw [List.mem_map]
  constructor
  · rintro ⟨hdir, hp, hpr, hf⟩
    obtain ⟨a, ha, had, hc, hpage⟩ := h.attached.only i o ho n hn x.1 (hdirs ▸ hdir) x.2 hp hpr hf
    exact ⟨a, List.mem_filter.2 ⟨ha, decide_eq_true hc⟩, Prod.ext had hpage⟩
  · rintro ⟨a, hmem, rfl⟩
    obtain ⟨ha, hc⟩ := List.mem_filter.1 hmem
    obtain ⟨rfl, h1, h2⟩ := of_decide_eq_true hc
    obtain ⟨hdir, hle, hperm, -⟩ := h.attached.attachment a ha
    have hleaf : s.kern.leaf a.dir (a.page n) = _ := h.attached.maps a ha o ho n h1 h2
    refine ⟨hdirs ▸ hdir, Attachment.page_lt hle h2, ?_, ?_⟩
    · rw [hleaf]
      exact present_entryOf hperm
    · rw [hleaf]
      exact ppn_entryOf hperm

theorem SharesOk.ncard_mappings (h : SharesOk lay G dirs s.atts s.kern)
    (hdirs : dirs.page = s.pages) (ho : s.kern.shares.object i = some o) (hn : n < o.pages) :
    (s.mappings (s.kern.storedFrame o n)).ncard = coverCount s.atts i n := by
  set l := (s.atts.filter fun a => decide (a.Covers i n)).map fun a => (a.dir, a.page n) with hl
  have hset : s.mappings (s.kern.storedFrame o n) = (l.toFinset : Set (DirPtr × Nat)) := by
    ext x
    rw [h.mem_mappings hdirs ho hn, List.coe_toFinset, Set.mem_ofPred_eq]
  -- attachments that cover the same page of the object lie apart
  have hnodup : l.Nodup := by
    apply List.pairwise_map.2
    refine (h.attached.apart.filter _).imp_of_mem fun ha hb hapart he => ?_
    obtain ⟨-, h1, h2⟩ := of_decide_eq_true (List.mem_filter.1 ha).2
    obtain ⟨-, h3, h4⟩ := of_decide_eq_true (List.mem_filter.1 hb).2
    exact hapart (congrArg Prod.fst he) n h1 h2 n h3 h4 (congrArg Prod.snd he)
  rw [hset, Set.ncard_coe_finset, List.toFinset_card_of_nodup hnodup, hl,
    List.length_map, coverCount, List.countP_eq_length_filter]

/-- **The counts of shared frames are exact** in every state of a run, so no free frame is mapped,
and none gets mapped when a frame is unmapped. -/
theorem sharedFrames_counted (hrun : ShareRun c s) :
    (∀ i o, s.kern.shares.object i = some o → ∀ n < o.pages,
      s.kern.references (s.kern.storedFrame o n) = (s.mappings (s.kern.storedFrame o n)).ncard) ∧
    NoFreeMapped s.pages s.kern ∧
    ∀ dir ∈ s.pages, ∀ va < userTop, ∀ t, unmapFrame dir va s.kern = .ok () t →
      NoFreeMapped s.pages t := by
  obtain ⟨G, dirs, hdirs, h⟩ := hrun.inv
  rw [← hdirs]
  refine ⟨fun i o ho n hn => ?_, h.mem.noFreeMapped, fun dir hdir va hva t ht => ?_⟩
  · rw [h.ncard_mappings hdirs ho hn]
    exact h.attached.counted i o ho n hn (h.covered i o ho n hn)
  · rcases h.mem.unmapUser hdir hva ht with ⟨rfl, -⟩ | ⟨-, hok, -⟩
    · exact h.mem.noFreeMapped
    · exact hok.noFreeMapped

end

/-- Three attachments of an object of one page. -/
theorem sharedFrames_counted_three : ∃ s : ShareState, attachCount s.atts 0 = 3 ∧
    (∀ i o, s.kern.shares.object i = some o → ∀ n < o.pages,
      s.kern.references (s.kern.storedFrame o n) = (s.mappings (s.kern.storedFrame o n)).ncard) ∧
    NoFreeMapped s.pages s.kern := by
  obtain ⟨s, h⟩ := attachedTimes 2 (by decide)
  exact ⟨s, h.count, (sharedFrames_counted h.run).1, (sharedFrames_counted h.run).2.1⟩

theorem mappings_finite (s : ShareState) (f : Nat) : (s.mappings f).Finite := by
  apply (s.pages.toFinset ×ˢ Finset.range 977920).finite_toSet.subset
  rintro x ⟨hdir, hlt, -⟩
  simp [hdir, hlt]

/-- The frame of an object with 65535 attachments counts all of them. -/
theorem AttachedTimes.references_full {s : ShareState} {o : ObjectAt} (h : AttachedTimes 65534 s)
    (ho : s.kern.shares.object 0 = some o) (hone : o.pages = 1) :
    s.kern.references (s.kern.storedFrame o 0) = 65535 := by
  obtain ⟨G, dirs, hdirs, hok⟩ := h.run.inv
  have hlt : 0 < o.pages := by omega
  have hcount : attachCount s.atts 0 = 65535 := h.count
  rw [hok.attached.counted 0 o ho 0 hlt (hok.covered 0 o ho 0 hlt), ← hcount]
  apply List.countP_congr
  intro a ha
  simp only [decide_eq_true_eq]
  refine ⟨fun hc => hc.1, fun hobj => ⟨hobj, (hok.first a ha).le, ?_⟩⟩
  rw [hok.last a ha o (hobj ▸ ho)]
  exact hlt

/-- The next attachment takes the count of the frame to 0. -/
theorem sharedFrames_wrap : ¬ ∀ s : ShareState, ShareRun smallMachine s →
    ∀ curenv ownerID name va i t, getSharedObject curenv ownerID name va s.kern = .ok (i : Nat) t →
    Unmapped s.kern curenv va ((s.kern.shares.shares i).size / pageSize) →
    ∀ o, s.kern.shares.object i = some o → ∀ n < o.pages,
      t.references (s.kern.storedFrame o n) =
        (ShareState.mappings ⟨t, s.pages, []⟩ (s.kern.storedFrame o n)).ncard := by
  intro hall
  obtain ⟨s, h⟩ := attachedTimes 65534 (by decide)
  obtain ⟨t, o, hrun, -, ho, hone, -, hnew, hrefs, -, -⟩ := h.get (by decide)
  have hun : Unmapped s.kern 3 (userHeapStart + 4096 * (65534 + 1))
      ((s.kern.shares.shares 0).size / pageSize) := by
    rw [h.size]
    exact h.unmapped (by decide)
  have hcount := hall s h.run 3 3 [120] _ 0 t hrun hun o ho 0 (by omega)
  rw [hrefs, h.references_full ho hone, show u16Succ 65535 = 0 from rfl] at hcount
  -- the new page maps the frame
  obtain ⟨G, dirs, -, hok⟩ := h.run.inv
  have hperm : (s.kern.shares.shares 0).perm < 4096 := by
    unfold Share.perm
    split
    · decide
    · decide
  have hmem : (contDirectory, 524288 + (65534 + 1)) ∈
      ShareState.mappings ⟨t, s.pages, []⟩ (s.kern.storedFrame o 0) := by
    refine ⟨by rw [h.pages]; exact List.mem_cons_self, by decide, ?_, ?_⟩
    · rw [hnew]
      exact present_entryOf hperm
    · rw [hnew]
      exact ppn_entryOf hperm
  have hpos := (Set.ncard_pos (mappings_finite _ _)).2 ⟨_, hmem⟩
  omega

end Fos
