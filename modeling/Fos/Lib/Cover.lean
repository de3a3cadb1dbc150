import Mathlib.Data.Finset.Card
import Mathlib.Data.List.Count
import Mathlib.Data.Set.Lattice
import Mathlib.Order.BourbakiWitt
import Mathlib.Order.CompletePartialOrder
import Mathlib.Order.Interval.Set.Basic

/-!
# Multiplicity of a point in a list of sets

An allocator that keeps its regions in linked lists neither loses nor doubles a point when every
point lies in exactly one region of the lists together. `mult` counts the regions a point lies in,
so it ignores the order of the lists; `Tiles` says that the regions tile a set. The rules say what
the list operations do to the count.
-/

namespace Cover

variable {α β : Type} {pts : β → Set α}

/-! ## Counting -/

open Classical in
/-- How many of the regions `bs` the point `a` lies in. -/
noncomputable def mult (pts : β → Set α) (bs : List β) (a : α) : ℕ :=
  bs.countP fun b => a ∈ pts b

open Classical in
/-- One region's share of the count. -/
noncomputable def weight (pts : β → Set α) (b : β) (a : α) : ℕ := if a ∈ pts b then 1 else 0

@[simp] theorem mult_nil (a : α) : mult pts [] a = 0 := rfl

@[simp] theorem mult_cons (b : β) (bs : List β) (a : α) :
    mult pts (b :: bs) a = weight pts b a + mult pts bs a := by
  unfold mult weight
  rw [List.countP_cons, Nat.add_comm]
  by_cases h : a ∈ pts b <;> simp [h]

@[simp] theorem mult_append (bs cs : List β) (a : α) :
    mult pts (bs ++ cs) a = mult pts bs a + mult pts cs a := List.countP_append

theorem mult_perm {bs cs : List β} (h : bs.Perm cs) : mult pts bs = mult pts cs :=
  funext fun _ => h.countP_eq _

theorem weight_of_mem {b : β} {a : α} (h : a ∈ pts b) : weight pts b a = 1 := if_pos h

theorem weight_of_notMem {b : β} {a : α} (h : a ∉ pts b) : weight pts b a = 0 := if_neg h

/-- A region that is the disjoint union of two counts as much as the two together. -/
theorem weight_union {b c d : β} (h : pts b = pts c ∪ pts d) (hd : Disjoint (pts c) (pts d))
    (a : α) : weight pts b a = weight pts c a + weight pts d a := by
  by_cases hc : a ∈ pts c
  · have hnd : a ∉ pts d := Set.disjoint_left.1 hd hc
    rw [weight_of_mem hc, weight_of_notMem hnd, weight_of_mem (by rw [h]; exact .inl hc)]
  · by_cases hd' : a ∈ pts d
    · rw [weight_of_notMem hc, weight_of_mem hd', weight_of_mem (by rw [h]; exact .inr hd')]
    · rw [weight_of_notMem hc, weight_of_notMem hd',
        weight_of_notMem (by rw [h]; exact fun hm => hm.elim hc hd')]

theorem weight_eq_zero_of_empty {b : β} (h : pts b = ∅) (a : α) : weight pts b a = 0 :=
  weight_of_notMem (by rw [h]; exact Set.notMem_empty a)

theorem mult_pos_iff {bs : List β} {a : α} : 0 < mult pts bs a ↔ ∃ b ∈ bs, a ∈ pts b := by
  unfold mult
  rw [List.countP_pos_iff]
  simp

theorem mult_eq_zero_iff {bs : List β} {a : α} : mult pts bs a = 0 ↔ ∀ b ∈ bs, a ∉ pts b := by
  rw [← Nat.le_zero, ← Nat.not_lt, mult_pos_iff]
  simp

/-! ## Disjointness -/

/-- No point is counted twice exactly when the regions are pairwise disjoint. -/
theorem mult_le_one_iff {bs : List β} :
    (∀ a, mult pts bs a ≤ 1) ↔ bs.Pairwise fun b c => Disjoint (pts b) (pts c) := by
  induction bs with
  | nil => simp
  | cons b bs ih =>
    rw [List.pairwise_cons, ← ih]
    constructor
    · intro h
      refine ⟨fun c hc => Set.disjoint_left.2 fun a hab hac => ?_, fun a => ?_⟩
      · have h1 := h a
        have h2 : 0 < mult pts bs a := mult_pos_iff.2 ⟨c, hc, hac⟩
        rw [mult_cons, weight_of_mem hab] at h1
        omega
      · have := h a
        rw [mult_cons] at this
        omega
    · rintro ⟨hb, hbs⟩ a
      rw [mult_cons]
      by_cases hab : a ∈ pts b
      · have h0 : mult pts bs a = 0 :=
          mult_eq_zero_iff.2 fun c hc => Set.disjoint_left.1 (hb c hc) hab
        rw [weight_of_mem hab, h0]
      · rw [weight_of_notMem hab, Nat.zero_add]
        exact hbs a

/-! ## Tilings -/

/-- Disjoint sets with a chosen point each are no more than the points there are to choose. -/
theorem length_le_card (pts : β → Set α) {bs : List β} {S : Finset α} (pick : β → α)
    (hd : bs.Pairwise fun b c => Disjoint (pts b) (pts c)) (hmem : ∀ b ∈ bs, pick b ∈ pts b)
    (hS : ∀ b ∈ bs, pick b ∈ S) : bs.length ≤ S.card := by
  classical
  have hnodup : (bs.map pick).Nodup := by
    apply List.pairwise_map.2
    refine hd.imp_of_mem fun {b c} hb hc hbc heq => ?_
    exact Set.disjoint_left.1 hbc (hmem b hb) (heq ▸ hmem c hc)
  calc bs.length = (bs.map pick).toFinset.card := by
        rw [List.toFinset_card_of_nodup hnodup, List.length_map]
    _ ≤ S.card := by
        apply Finset.card_le_card
        intro a ha
        obtain ⟨b, hb, rfl⟩ := List.mem_map.1 (List.mem_toFinset.1 ha)
        exact hS b hb

/-- The regions `bs` tile `S`: every point of `S` lies in exactly one, no other point in any. -/
def Tiles (pts : β → Set α) (bs : List β) (S : Set α) : Prop :=
  bs.Pairwise (fun b c => Disjoint (pts b) (pts c)) ∧ ∀ a, a ∈ S ↔ ∃ b ∈ bs, a ∈ pts b

open Classical in
theorem tiles_iff_mult {bs : List β} {S : Set α} :
    Tiles pts bs S ↔ ∀ a, mult pts bs a = if a ∈ S then 1 else 0 := by
  unfold Tiles
  rw [← mult_le_one_iff]
  constructor
  · rintro ⟨hle, hmem⟩ a
    have h1 := hle a
    have h2 : a ∈ S ↔ 0 < mult pts bs a := by rw [hmem, mult_pos_iff]
    split
    · have := h2.1 ‹_›; omega
    · have : ¬ 0 < mult pts bs a := fun h => ‹a ∉ S› (h2.2 h)
      omega
  · intro h
    refine ⟨fun a => ?_, fun a => ?_⟩
    · rw [h a]; split <;> omega
    · rw [← mult_pos_iff, h a]; split <;> simp_all

/-- Lists with the same counts tile the same set. -/
theorem Tiles.congr {bs cs : List β} {S : Set α} (h : Tiles pts bs S)
    (hm : ∀ a, mult pts cs a = mult pts bs a) : Tiles pts cs S := by
  classical
  rw [tiles_iff_mult] at h ⊢
  intro a
  rw [hm, h]

theorem Tiles.mult_le_one {bs : List β} {S : Set α} (h : Tiles pts bs S) (a : α) :
    mult pts bs a ≤ 1 := mult_le_one_iff.2 h.1 a

/-- A tiling stays one without its empty regions. -/
theorem Tiles.filter {bs : List β} {S : Set α} (h : Tiles pts bs S) (p : β → Bool)
    (hp : ∀ b ∈ bs, p b = false → pts b = ∅) : Tiles pts (bs.filter p) S := by
  refine ⟨h.1.filter _, fun a => ?_⟩
  rw [h.2 a]
  constructor
  · rintro ⟨b, hb, ha⟩
    refine ⟨b, List.mem_filter.2 ⟨hb, ?_⟩, ha⟩
    by_contra hpb
    rw [hp b hb (by simpa using hpb)] at ha
    exact ha
  · rintro ⟨b, hb, ha⟩
    exact ⟨b, (List.mem_filter.1 hb).1, ha⟩

/-! ## Half-open ranges of naturals -/

/-- The addresses of a region that starts at `lo` and is `len` long. -/
def range (lo len : ℕ) : Set ℕ := {a | lo ≤ a ∧ a < lo + len}

@[simp] theorem mem_range {lo len a : ℕ} : a ∈ range lo len ↔ lo ≤ a ∧ a < lo + len := Iff.rfl

@[simp] theorem range_zero (lo : ℕ) : range lo 0 = ∅ := by
  ext a; simp only [mem_range, Set.mem_empty_iff_false, iff_false]; omega

theorem range_eq_empty_iff {lo len : ℕ} : range lo len = ∅ ↔ len = 0 := by
  constructor
  · intro h
    by_contra hne
    have : lo ∈ range lo len := ⟨Nat.le_refl _, by omega⟩
    rw [h] at this
    exact this
  · rintro rfl; exact range_zero lo

theorem range_succ (lo len : ℕ) : range lo (len + 1) = insert (lo + len) (range lo len) := by
  ext a; simp only [mem_range, Set.mem_insert_iff]; omega

/-- A range cut in two. -/
theorem range_add (lo m n : ℕ) : range lo (m + n) = range lo m ∪ range (lo + m) n := by
  ext a; simp only [mem_range, Set.mem_union]; omega

theorem disjoint_range_adjacent (lo m n : ℕ) : Disjoint (range lo m) (range (lo + m) n) := by
  rw [Set.disjoint_left]
  intro a h1 h2
  simp only [mem_range] at h1 h2
  omega

theorem disjoint_range_iff {lo len lo' len' : ℕ} :
    Disjoint (range lo len) (range lo' len') ↔
      len = 0 ∨ len' = 0 ∨ lo + len ≤ lo' ∨ lo' + len' ≤ lo := by
  rw [Set.disjoint_left]
  constructor
  · intro h
    by_contra hn
    rcases Nat.le_total lo lo' with hl | hl
    · exact h (a := lo') ⟨hl, by omega⟩ ⟨Nat.le_refl _, by omega⟩
    · exact h (a := lo) ⟨Nat.le_refl _, by omega⟩ ⟨hl, by omega⟩
  · rintro h a ⟨h1, h2⟩ ⟨h3, h4⟩
    omega

end Cover
