import Mathlib.Data.Set.Card

/-!
# Reference-counted pools

A pool hands out its frames from a free list. Table entries point to frames, every frame counts the
entries that point to it, and a frame whose count drops to zero goes back to the list. An entry that
is overwritten without giving its frame up is a lost reference: the count keeps it. `Counted` says
that the counts are exact but for the lost references and that no frame is handed out twice; the
rules say what handing out a frame, setting an entry, clearing one and overwriting one do to it.
-/

namespace RefPool

open Function (update)

variable {ι F : Type}

/-- The entries that point to `f`. -/
def pointing (m : ι → Option F) (f : F) : Set ι := {i | m i = some f}

@[simp] theorem mem_pointing {m : ι → Option F} {f : F} {i : ι} :
    i ∈ pointing m f ↔ m i = some f := Iff.rfl

/-- The frames of `pool` are accounted for: `refs` counts the entries of `m` and the `lost`
references, and a frame is in the free list unless its count is positive or it is `held`, that is
handed out and not entered yet. -/
structure Counted (pool : Set F) (lost : F → ℕ) (m : ι → Option F) (refs : F → ℕ) (free : List F)
    (held : Set F) : Prop where
  finite : {i | m i ≠ none}.Finite
  inPool : ∀ i f, m i = some f → f ∈ pool
  count : ∀ f ∈ pool, refs f = (pointing m f).ncard + lost f
  nodup : free.Nodup
  freePool : ∀ f ∈ free, f ∈ pool
  heldPool : ∀ f ∈ held, f ∈ pool
  heldUnused : ∀ f ∈ held, pointing m f = ∅ ∧ lost f = 0
  free_iff : ∀ f ∈ pool, f ∈ free ↔ pointing m f = ∅ ∧ lost f = 0 ∧ f ∉ held

/-! ## Setting an entry -/

section

variable [DecidableEq ι] {m : ι → Option F} {f g : F} {i : ι}

theorem pointing_update_some_self (h : m i = none) :
    pointing (update m i (some f)) f = insert i (pointing m f) := by
  ext j
  by_cases hj : j = i
  · subst hj
    simp
  · simp [hj]

theorem pointing_update_some_of_ne (h : m i = none) (hg : g ≠ f) :
    pointing (update m i (some f)) g = pointing m g := by
  ext j
  by_cases hj : j = i
  · subst hj
    simp [h, hg.symm]
  · simp [hj]

theorem pointing_update_none_self (h : m i = some f) :
    pointing (update m i none) f = pointing m f \ {i} := by
  ext j
  by_cases hj : j = i
  · subst hj
    simp
  · simp [hj]

theorem pointing_update_none_of_ne (h : m i = some f) (hg : g ≠ f) :
    pointing (update m i none) g = pointing m g := by
  ext j
  by_cases hj : j = i
  · subst hj
    simp [h, hg.symm]
  · simp [hj]

theorem finite_update (h : {j | m j ≠ none}.Finite) (o : Option F) :
    {j | update m i o j ≠ none}.Finite := by
  apply (h.insert i).subset
  intro j hj
  by_cases hji : j = i
  · exact .inl hji
  · rw [Set.mem_ofPred_eq, Function.update_of_ne hji] at hj
    exact .inr hj

end

namespace Counted

variable {pool held : Set F} {lost : F → ℕ} {m : ι → Option F} {refs : F → ℕ} {free rest : List F}
  {f : F} {i : ι}

/-! ## Counts -/

theorem finite_pointing (h : Counted pool lost m refs free held) (f : F) :
    (pointing m f).Finite := by
  apply h.finite.subset
  intro j hj
  rw [Set.mem_ofPred_eq, mem_pointing.1 hj]
  exact Option.some_ne_none f

theorem count_pos (h : Counted pool lost m refs free held) (hi : m i = some f) : 0 < refs f := by
  have hpos : 0 < (pointing m f).ncard := (Set.ncard_pos (h.finite_pointing f)).2 ⟨i, hi⟩
  rw [h.count f (h.inPool i f hi)]
  omega

/-- A frame with one reference has one entry. -/
theorem unique (h : Counted pool lost m refs free held) (h1 : refs f = 1) {j : ι}
    (hi : m i = some f) (hj : m j = some f) : i = j := by
  have hle : (pointing m f).ncard ≤ 1 := by
    have hcount := h.count f (h.inPool i f hi)
    omega
  exact (Set.ncard_le_one (h.finite_pointing f)).1 hle i hi j hj

/-- No entry points to a free frame. -/
theorem notFree (h : Counted pool lost m refs free held) (hi : m i = some f) : f ∉ free := by
  intro hf
  have h0 := ((h.free_iff f (h.inPool i f hi)).1 hf).1
  have : i ∈ pointing m f := hi
  rw [h0] at this
  exact this

theorem notHeld (h : Counted pool lost m refs free held) (hi : m i = some f) : f ∉ held := by
  intro hf
  have : i ∈ pointing m f := hi
  rw [(h.heldUnused f hf).1] at this
  exact this

theorem refs_free (h : Counted pool lost m refs free held) (hf : f ∈ free) : refs f = 0 := by
  obtain ⟨h0, hl, -⟩ := (h.free_iff f (h.freePool f hf)).1 hf
  rw [h.count f (h.freePool f hf), h0, Set.ncard_empty, hl]

theorem refs_held (h : Counted pool lost m refs free held) (hf : f ∈ held) : refs f = 0 := by
  rw [h.count f (h.heldPool f hf), (h.heldUnused f hf).1, Set.ncard_empty, (h.heldUnused f hf).2]

/-- Only the counts of the pool matter. -/
theorem congr {refs' : F → ℕ} (h : Counted pool lost m refs free held)
    (hr : ∀ f ∈ pool, refs' f = refs f) : Counted pool lost m refs' free held :=
  { h with count := fun f hf => (hr f hf).trans (h.count f hf) }

/-! ## The operations -/

/-- The head of the free list is handed out. -/
theorem allocate (h : Counted pool lost m refs (f :: rest) held) :
    Counted pool lost m refs rest (insert f held) := by
  have hfp : f ∈ pool := h.freePool f List.mem_cons_self
  have hf := (h.free_iff f hfp).1 List.mem_cons_self
  have hnd := List.nodup_cons.1 h.nodup
  refine ⟨h.finite, h.inPool, h.count, hnd.2, fun g hg => h.freePool g (.tail _ hg), ?_, ?_, ?_⟩
  · rintro g (rfl | hg)
    · exact hfp
    · exact h.heldPool g hg
  · rintro g (rfl | hg)
    · exact ⟨hf.1, hf.2.1⟩
    · exact h.heldUnused g hg
  · intro g hg
    by_cases hgf : g = f
    · subst hgf
      simp [hnd.1]
    · have := h.free_iff g hg
      simp only [List.mem_cons, hgf, false_or] at this
      simp [this, hgf]

variable [DecidableEq ι] [DecidableEq F]

/-- An entry that pointed nowhere points to `f`, which is not free. -/
theorem map (h : Counted pool lost m refs free held) (hi : m i = none) (hp : f ∈ pool)
    (hf : f ∉ free) :
    Counted pool lost (update m i (some f)) (update refs f (refs f + 1)) free (held \ {f}) := by
  have hnot : i ∉ pointing m f := by simp [hi]
  -- one more pointer to `f`, and `f` is held no longer
  refine ⟨finite_update h.finite _, ?_, ?_, h.nodup, h.freePool, ?_, ?_, ?_⟩
  · intro j g hj
    by_cases hji : j = i
    · subst hji
      rw [Function.update_self, Option.some.injEq] at hj
      exact hj ▸ hp
    · rw [Function.update_of_ne hji] at hj
      exact h.inPool j g hj
  · intro g hg
    by_cases hgf : g = f
    · subst hgf
      rw [Function.update_self, pointing_update_some_self hi, h.count g hg,
        Set.ncard_insert_of_notMem hnot (h.finite_pointing g)]
      omega
    · rw [Function.update_of_ne hgf, pointing_update_some_of_ne hi hgf, h.count g hg]
  · exact fun g hg => h.heldPool g hg.1
  · rintro g ⟨hg, hgf⟩
    rw [pointing_update_some_of_ne hi hgf]
    exact h.heldUnused g hg
  · intro g hg
    by_cases hgf : g = f
    · subst hgf
      rw [pointing_update_some_self hi]
      simp [hf, (Set.insert_nonempty i _).ne_empty]
    · rw [pointing_update_some_of_ne hi hgf, h.free_iff g hg]
      simp [hgf]

/-- The last entry that points to `f` is cleared: the frame goes back to the free list. -/
theorem unmap_last (h : Counted pool lost m refs free held) (hi : m i = some f) (hr : refs f = 1) :
    Counted pool lost (update m i none) (update refs f 0) (f :: free) held := by
  have hp := h.inPool i f hi
  have hpos : 0 < (pointing m f).ncard := (Set.ncard_pos (h.finite_pointing f)).2 ⟨i, hi⟩
  have hsum := h.count f hp
  have hlost : lost f = 0 := by omega
  -- a count of one that points somewhere leaves nothing lost
  have hone : pointing m f = {i} := by
    obtain ⟨j, hj⟩ := Set.ncard_eq_one.1 (show (pointing m f).ncard = 1 by omega)
    have : i ∈ pointing m f := hi
    rw [hj, Set.mem_singleton_iff] at this
    rw [hj, this]
  have hempty : pointing (update m i none) f = ∅ := by
    rw [pointing_update_none_self hi, hone, Set.sdiff_self]
  refine ⟨finite_update h.finite _, ?_, ?_, List.nodup_cons.2 ⟨h.notFree hi, h.nodup⟩, ?_,
    h.heldPool, ?_, ?_⟩
  · intro j g hj
    by_cases hji : j = i
    · subst hji
      simp at hj
    · rw [Function.update_of_ne hji] at hj
      exact h.inPool j g hj
  · intro g hg
    by_cases hgf : g = f
    · subst hgf
      rw [Function.update_self, hempty, Set.ncard_empty, hlost]
    · rw [Function.update_of_ne hgf, pointing_update_none_of_ne hi hgf, h.count g hg]
  · intro g hg
    rcases List.mem_cons.1 hg with rfl | hg
    · exact hp
    · exact h.freePool g hg
  · intro g hg
    have hgf : g ≠ f := by
      rintro rfl
      exact h.notHeld hi hg
    rw [pointing_update_none_of_ne hi hgf]
    exact h.heldUnused g hg
  · intro g hg
    by_cases hgf : g = f
    · subst hgf
      simp [hempty, hlost, h.notHeld hi]
    · rw [pointing_update_none_of_ne hi hgf, List.mem_cons, h.free_iff g hg]
      simp [hgf]

/-- An entry that points to `f` is cleared and others are left. -/
theorem unmap_shared (h : Counted pool lost m refs free held) (hi : m i = some f)
    (hr : refs f ≠ 1) :
    Counted pool lost (update m i none) (update refs f (refs f - 1)) free held := by
  have hp := h.inPool i f hi
  have hpos : 0 < (pointing m f).ncard := (Set.ncard_pos (h.finite_pointing f)).2 ⟨i, hi⟩
  have hsum := h.count f hp
  have hcard : (pointing (update m i none) f).ncard + lost f = refs f - 1 := by
    have hmem : i ∈ pointing m f := hi
    rw [pointing_update_none_self hi, Set.ncard_sdiff_singleton_of_mem hmem]
    omega
  -- another pointer, or a lost reference, keeps `f` in use
  have hne : ¬ (pointing (update m i none) f = ∅ ∧ lost f = 0) := by
    rintro ⟨he, hlost⟩
    rw [he, Set.ncard_empty] at hcard
    omega
  refine ⟨finite_update h.finite _, ?_, ?_, h.nodup, h.freePool, h.heldPool, ?_, ?_⟩
  · intro j g hj
    by_cases hji : j = i
    · subst hji
      simp at hj
    · rw [Function.update_of_ne hji] at hj
      exact h.inPool j g hj
  · intro g hg
    by_cases hgf : g = f
    · subst hgf
      rw [Function.update_self, hcard]
    · rw [Function.update_of_ne hgf, pointing_update_none_of_ne hi hgf, h.count g hg]
  · intro g hg
    have hgf : g ≠ f := by
      rintro rfl
      exact h.notHeld hi hg
    rw [pointing_update_none_of_ne hi hgf]
    exact h.heldUnused g hg
  · intro g hg
    by_cases hgf : g = f
    · subst hgf
      simp only [h.notFree hi, false_iff, not_and]
      exact fun he hlost => absurd ⟨he, hlost⟩ hne
    · rw [pointing_update_none_of_ne hi hgf, h.free_iff g hg]

end Counted

end RefPool
