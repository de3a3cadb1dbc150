import Fos.Lib.Cover

/-!
# Maximal gaps

The runs of consecutive naturals that a set contains. An ordered list of regions with room between
any two of them lists exactly the maximal runs of the set it covers, lowest first, so that a search
of the list for the first region that is long enough finds the lowest maximal run that is.
-/

namespace Gaps

open Cover (range mem_range)

/-- The `len` naturals from `lo` on are a maximal run of `S`. -/
structure MaxRun (S : Set ℕ) (lo len : ℕ) : Prop where
  pos : 0 < len
  sub : range lo len ⊆ S
  below : ∀ a ∈ S, a + 1 ≠ lo
  above : lo + len ∉ S

variable {β : Type} {lo len : β → ℕ} {bs : List β} {S : Set ℕ}

/-- `b` ends below the start of `c`, with room in between. -/
def Spaced (lo len : β → ℕ) (b c : β) : Prop := lo b + len b < lo c

/-- The regions are not empty, in increasing order, and no two of them meet. -/
structure Ordered (lo len : β → ℕ) (bs : List β) : Prop where
  pos : ∀ b ∈ bs, 0 < len b
  spaced : bs.Pairwise (Spaced lo len)

/-- Two regions of the list are the same or apart. -/
theorem Ordered.cases (h : Ordered lo len bs) {b c : β} (hb : b ∈ bs) (hc : c ∈ bs) :
    b = c ∨ Spaced lo len b c ∨ Spaced lo len c b := by
  have hsp := h.spaced
  clear h
  induction hsp with
  | nil => cases hb
  | @cons x xs hx _ ih =>
    rcases List.mem_cons.1 hb with rfl | hb'
    · rcases List.mem_cons.1 hc with rfl | hc'
      · exact .inl rfl
      · exact .inr (.inl (hx c hc'))
    · rcases List.mem_cons.1 hc with rfl | hc'
      · exact .inr (.inr (hx b hb'))
      · exact ih hb' hc'

/-- The points of the regions. -/
def covered (lo len : β → ℕ) (bs : List β) : Set ℕ := {a | ∃ b ∈ bs, a ∈ range (lo b) (len b)}

theorem Ordered.notMem_end (h : Ordered lo len bs) {b : β} (hb : b ∈ bs) :
    lo b + len b ∉ covered lo len bs := by
  rintro ⟨c, hc, h1, h2⟩
  rcases h.cases hb hc with rfl | hs | hs
  · omega
  · unfold Spaced at hs
    omega
  · unfold Spaced at hs
    omega

theorem Ordered.notMem_below (h : Ordered lo len bs) {b : β} (hb : b ∈ bs) {a : ℕ}
    (ha : a ∈ covered lo len bs) : a + 1 ≠ lo b := by
  intro he
  obtain ⟨c, hc, h1, h2⟩ := ha
  have hpos := h.pos b hb
  rcases h.cases hb hc with rfl | hs | hs
  · omega
  · unfold Spaced at hs
    omega
  · unfold Spaced at hs
    omega

/-- A run of covered points lies in one region. -/
theorem Ordered.run_within (h : Ordered lo len bs) {g n : ℕ} (hn : 0 < n)
    (hsub : range g n ⊆ covered lo len bs) :
    ∃ b ∈ bs, lo b ≤ g ∧ g + n ≤ lo b + len b := by
  induction n with
  | zero => omega
  | succ n ih =>
    by_cases h0 : n = 0
    · -- the first point picks the region
      subst h0
      obtain ⟨b, hb, h1, h2⟩ := hsub (show g ∈ range g 1 from ⟨Nat.le_refl _, by omega⟩)
      exact ⟨b, hb, h1, h2⟩
    · obtain ⟨b, hb, h1, h2⟩ := ih (by omega) fun a ha => hsub ⟨ha.1, by
        have := ha.2
        omega⟩
      refine ⟨b, hb, h1, ?_⟩
      by_contra hgt
      have he : g + n = lo b + len b := by omega
      apply h.notMem_end hb
      rw [← he]
      exact hsub ⟨by omega, by omega⟩

/-- The regions are exactly the maximal runs of what they cover. -/
theorem Ordered.maxRun_iff (h : Ordered lo len bs) {g n : ℕ} :
    MaxRun (covered lo len bs) g n ↔ ∃ b ∈ bs, lo b = g ∧ len b = n := by
  constructor
  · intro hm
    obtain ⟨b, hb, h1, h2⟩ := h.run_within hm.pos hm.sub
    refine ⟨b, hb, ?_, ?_⟩
    · by_contra hne
      refine hm.below (g - 1) ⟨b, hb, ?_, ?_⟩ ?_ <;> omega
    · by_contra hne
      refine hm.above ⟨b, hb, ?_, ?_⟩
      · omega
      · have hlo : lo b = g := by
          by_contra hne'
          refine hm.below (g - 1) ⟨b, hb, ?_, ?_⟩ ?_ <;> omega
        omega
  · rintro ⟨b, hb, rfl, rfl⟩
    exact ⟨h.pos b hb, fun a ha => ⟨b, hb, ha⟩, fun a ha => h.notMem_below hb ha,
      h.notMem_end hb⟩

/-! ## Building ordered lists -/

theorem Ordered.append_right {cs : List β} (h : Ordered lo len (bs ++ cs)) : Ordered lo len cs :=
  ⟨fun b hb => h.pos b (List.mem_append_right _ hb), (List.pairwise_append.1 h.spaced).2.1⟩

/-- A region between two ordered lists that leave room on both sides. -/
theorem Ordered.between {cs : List β} {x : β} (h : Ordered lo len (bs ++ cs)) (hx : 0 < len x)
    (hb : ∀ b ∈ bs, lo b + len b < lo x) (hc : ∀ c ∈ cs, lo x + len x < lo c) :
    Ordered lo len (bs ++ x :: cs) := by
  obtain ⟨h1, h2, h3⟩ := List.pairwise_append.1 h.spaced
  refine ⟨?_, List.pairwise_append.2 ⟨h1, List.pairwise_cons.2 ⟨hc, h2⟩, ?_⟩⟩
  · intro b hmem
    rcases List.mem_append.1 hmem with hmem | hmem
    · exact h.pos b (List.mem_append_left _ hmem)
    · rcases List.mem_cons.1 hmem with rfl | hmem
      · exact hx
      · exact h.pos b (List.mem_append_right _ hmem)
  · intro b hmem c hmem'
    rcases List.mem_cons.1 hmem' with rfl | hmem'
    · exact hb b hmem
    · exact h3 b hmem c hmem'

/-- The room on both sides of a region of an ordered list. -/
theorem Ordered.sides {cs : List β} {x : β} (h : Ordered lo len (bs ++ x :: cs)) :
    Ordered lo len (bs ++ cs) ∧ (∀ b ∈ bs, lo b + len b < lo x) ∧
      ∀ c ∈ cs, lo x + len x < lo c := by
  obtain ⟨h1, h2, h3⟩ := List.pairwise_append.1 h.spaced
  obtain ⟨h4, h5⟩ := List.pairwise_cons.1 h2
  refine ⟨⟨?_, List.pairwise_append.2 ⟨h1, h5, fun b hb c hc => h3 b hb c (.tail _ hc)⟩⟩,
    fun b hb => h3 b hb x List.mem_cons_self, h4⟩
  intro b hmem
  apply h.pos b
  rcases List.mem_append.1 hmem with hmem | hmem
  · exact List.mem_append_left _ hmem
  · exact List.mem_append_right _ (.tail _ hmem)

/-- An ordered list is cut by a region that meets none of its own. -/
theorem Ordered.split (h : Ordered lo len bs) {g n : ℕ}
    (hd : ∀ b ∈ bs, lo b + len b ≤ g ∨ g + n ≤ lo b) :
    ∃ l r, bs = l ++ r ∧ (∀ b ∈ l, lo b + len b ≤ g) ∧ ∀ c ∈ r, g + n ≤ lo c := by
  induction bs with
  | nil => exact ⟨[], [], rfl, by simp, by simp⟩
  | cons x xs ih =>
    obtain ⟨hx, hxs⟩ := List.pairwise_cons.1 h.spaced
    rcases hd x List.mem_cons_self with hle | hge
    · obtain ⟨l, r, rfl, hl, hr⟩ := ih ⟨fun b hb => h.pos b (.tail _ hb), hxs⟩
        fun b hb => hd b (.tail _ hb)
      refine ⟨x :: l, r, rfl, ?_, hr⟩
      rintro b (_ | ⟨_, hb⟩)
      · exact hle
      · exact hl b hb
    · refine ⟨[], x :: xs, rfl, by simp, ?_⟩
      rintro c (_ | ⟨_, hc⟩)
      · exact hge
      · have h1 : lo x + len x < lo c := hx c hc
        omega

end Gaps
