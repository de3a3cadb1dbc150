import Fos.UserMemory.FreeMem
import Fos.WorkingSet.Eviction

/-!
# The entries of a working set

The entries in use and the free ones, and what entering a page, clearing an entry and freeing a
range do to them. Pages are entered at `page_last_WS_index`, so they find a free entry as long as
the free entries stand in a row from that index on.
-/

namespace Fos

/-- Entry `i` is in use, for page `q`. -/
def Env.Holds (env : Env) (i q : Nat) : Prop :=
  i < env.pageWSMaxSize ∧
    ∃ w, env.ptrPageWorkingSet[i]? = some w ∧ w.empty = false ∧ ppn w.virtualAddress = q

/-- Entry `i` is free. -/
def Env.FreeEntry (env : Env) (i : Nat) : Prop :=
  i < env.pageWSMaxSize ∧ ∃ w, env.ptrPageWorkingSet[i]? = some w ∧ w.empty = true

instance (env : Env) (i : Nat) : Decidable (env.FreeEntry i) :=
  decidable_of_iff (i < env.pageWSMaxSize ∧ (env.ptrPageWorkingSet[i]?).any (·.empty) = true)
    (and_congr_right fun _ => Option.any_eq_true ..)

/-- How many entries lie between `page_last_WS_index` and `i`, going around. -/
def Env.rank (env : Env) (i : Nat) : Nat :=
  (i + env.pageWSMaxSize - env.pageLastWSIndex) % env.pageWSMaxSize

/-- The free entries stand in a row from `page_last_WS_index` on. -/
def Env.FreeRow (env : Env) : Prop :=
  ∃ c ≤ env.pageWSMaxSize, ∀ i < env.pageWSMaxSize, env.FreeEntry i ↔ env.rank i < c

/-- The free entries are the `c` next ones. -/
def Env.FreeFrom (env : Env) (c : Nat) : Prop :=
  c ≤ env.pageWSMaxSize ∧ ∀ i < env.pageWSMaxSize, env.FreeEntry i ↔ env.rank i < c

/-- The page of entry `i` lies in a range. -/
def Env.releases (env : Env) (p n i : Nat) : Bool :=
  (env.wsPage i).any fun q => p ≤ q ∧ q < p + n

/-- `page_last_WS_index` after the entries below `m` whose pages lie in a range have been freed. -/
def Env.loweredIndex (env : Env) (p n : Nat) : Nat → Nat
  | 0 => env.pageLastWSIndex
  | m + 1 => if env.releases p n m then min (env.loweredIndex p n m) m else env.loweredIndex p n m

/-- `freeMem` of a range leaves the free entries in a row. -/
def Env.LeavesRow (env : Env) (p n : Nat) : Prop :=
  ∃ c ≤ env.pageWSMaxSize, ∀ i < env.pageWSMaxSize, (env.FreeEntry i ∨ env.releases p n i = true) ↔
    (i + env.pageWSMaxSize - env.loweredIndex p n env.pageWSMaxSize) % env.pageWSMaxSize < c

instance (env : Env) (p n : Nat) : Decidable (env.LeavesRow p n) := by
  unfold Env.LeavesRow
  infer_instance

section

variable {env : Env} {c i j m n p q va x : Nat}

/-! ## Free and used -/

theorem Env.Holds.not_free (h : env.Holds i q) : ¬ env.FreeEntry i := by
  obtain ⟨-, w, hw, hused, -⟩ := h
  rintro ⟨-, w', hw', hfree⟩
  obtain rfl := Option.some.inj (hw.symm.trans hw')
  rw [hused] at hfree
  cases hfree

theorem Env.Holds.unique (h : env.Holds i p) (h' : env.Holds i q) : p = q := by
  obtain ⟨-, w, hw, -, rfl⟩ := h
  obtain ⟨-, w', hw', -, rfl⟩ := h'
  obtain rfl := Option.some.inj (hw.symm.trans hw')
  rfl

/-- Within the array every entry is free or in use. -/
theorem Env.free_or_holds (hi : i < env.pageWSMaxSize)
    (hlen : env.pageWSMaxSize ≤ env.ptrPageWorkingSet.length) :
    env.FreeEntry i ∨ ∃ q, env.Holds i q := by
  have hw := List.getElem?_eq_getElem (l := env.ptrPageWorkingSet) (Nat.lt_of_lt_of_le hi hlen)
  cases hempty : (env.ptrPageWorkingSet[i]).empty with
  | true => exact .inl ⟨hi, _, hw, hempty⟩
  | false => exact .inr ⟨_, hi, _, hw, hempty, rfl⟩

/-- The entries in use are counted among the first `page_WS_max_size`. -/
theorem Env.size_eq_iff (hlen : env.pageWSMaxSize ≤ env.ptrPageWorkingSet.length) :
    env.pageWsGetSize = env.pageWSMaxSize ↔ ¬ ∃ i, env.FreeEntry i := by
  have htake : (env.ptrPageWorkingSet.take env.pageWSMaxSize).length = env.pageWSMaxSize := by
    rw [List.length_take, Nat.min_eq_left hlen]
  have hcount := List.countP_eq_length (p := fun w : WorkingSetElement => decide (w.empty = false))
    (l := env.ptrPageWorkingSet.take env.pageWSMaxSize)
  rw [htake] at hcount
  refine Iff.trans hcount ⟨?_, fun hnone w hw => ?_⟩
  · rintro hall ⟨i, hi, w, hw, hempty⟩
    have hmem : w ∈ env.ptrPageWorkingSet.take env.pageWSMaxSize := by
      apply List.mem_of_getElem? (i := i)
      rw [List.getElem?_take_of_lt hi, hw]
    have hused := hall w hmem
    simp [hempty] at hused
  · obtain ⟨i, hi⟩ := List.getElem?_of_mem hw
    have hlt : i < env.pageWSMaxSize := by
      rw [← htake]
      exact (List.getElem?_eq_some_iff.1 hi).1
    rw [List.getElem?_take_of_lt hlt] at hi
    cases hempty : w.empty with
    | true => exact absurd ⟨i, hlt, w, hi, hempty⟩ hnone
    | false => simp

/-- The working set has room when an entry is free. -/
theorem Env.room_iff (hlen : env.pageWSMaxSize ≤ env.ptrPageWorkingSet.length) :
    env.pageWsGetSize < env.pageWSMaxSize ↔ ∃ i, env.FreeEntry i := by
  have hle : env.pageWsGetSize ≤ env.pageWSMaxSize :=
    Nat.le_trans List.countP_le_length (Nat.le_trans (List.length_take_le ..) (Nat.le_refl _))
  have heq := Env.size_eq_iff hlen
  rw [Nat.lt_iff_le_and_ne, and_iff_right hle, Ne, heq, not_not]

/-! ## Entering and clearing -/

theorem ppn_rounddown (va : Nat) : ppn (rounddown va pageSize) = ppn va := by
  unfold rounddown pageSize ppn
  omega

theorem Env.enterPage_holds (hindex : env.pageLastWSIndex < env.pageWSMaxSize)
    (hlen : env.pageWSMaxSize ≤ env.ptrPageWorkingSet.length) :
    (env.enterPage va).Holds i q ↔
      (i = env.pageLastWSIndex ∧ q = ppn va) ∨ (i ≠ env.pageLastWSIndex ∧ env.Holds i q) := by
  unfold Env.Holds Env.enterPage
  dsimp only
  by_cases hi : i = env.pageLastWSIndex
  · subst hi
    rw [List.getElem?_set_self (by omega)]
    constructor
    · rintro ⟨-, w, hw, -, rfl⟩
      obtain rfl := Option.some.inj hw
      exact .inl ⟨rfl, ppn_rounddown va⟩
    · rintro (⟨-, rfl⟩ | ⟨hne, -⟩)
      · exact ⟨hindex, _, rfl, rfl, ppn_rounddown va⟩
      · exact absurd rfl hne
  · rw [List.getElem?_set_ne (Ne.symm hi)]
    simp [hi]

theorem Env.enterPage_free (hindex : env.pageLastWSIndex < env.pageWSMaxSize)
    (hlen : env.pageWSMaxSize ≤ env.ptrPageWorkingSet.length) :
    (env.enterPage va).FreeEntry i ↔ i ≠ env.pageLastWSIndex ∧ env.FreeEntry i := by
  unfold Env.FreeEntry Env.enterPage
  dsimp only
  by_cases hi : i = env.pageLastWSIndex
  · subst hi
    rw [List.getElem?_set_self (by omega)]
    simp
  · rw [List.getElem?_set_ne (Ne.symm hi)]
    simp [hi]

theorem Env.clearEntry_holds : (env.clearEntry j).Holds i q ↔ i ≠ j ∧ env.Holds i q := by
  unfold Env.Holds Env.clearEntry
  dsimp only
  by_cases hi : i = j
  · subst hi
    constructor
    · rintro ⟨-, w, hw, hused, -⟩
      have hlt := (List.getElem?_eq_some_iff.1 hw).1
      rw [List.length_set] at hlt
      rw [List.getElem?_set_self hlt] at hw
      obtain rfl := Option.some.inj hw
      cases hused
    · exact fun h => absurd rfl h.1
  · rw [List.getElem?_set_ne (Ne.symm hi)]
    simp [hi]

theorem Env.clearEntry_free (hj : j < env.pageWSMaxSize)
    (hlen : env.pageWSMaxSize ≤ env.ptrPageWorkingSet.length) :
    (env.clearEntry j).FreeEntry i ↔ i = j ∨ env.FreeEntry i := by
  unfold Env.FreeEntry Env.clearEntry
  dsimp only
  by_cases hi : i = j
  · subst hi
    rw [List.getElem?_set_self (by omega)]
    simp [hj]
  · rw [List.getElem?_set_ne (Ne.symm hi)]
    simp [hi]

/-! ## The row of free entries -/

theorem Env.rank_of_le (hi : i < env.pageWSMaxSize) (hle : env.pageLastWSIndex ≤ i) :
    env.rank i = i - env.pageLastWSIndex := by
  unfold Env.rank
  rw [show i + env.pageWSMaxSize - env.pageLastWSIndex =
    i - env.pageLastWSIndex + env.pageWSMaxSize by omega, Nat.add_mod_right, Nat.mod_eq_of_lt (by omega)]

theorem Env.rank_of_lt (hindex : env.pageLastWSIndex < env.pageWSMaxSize)
    (hlt : i < env.pageLastWSIndex) :
    env.rank i = i + env.pageWSMaxSize - env.pageLastWSIndex := by
  unfold Env.rank
  rw [Nat.mod_eq_of_lt (by omega)]

theorem Env.rank_last (hindex : env.pageLastWSIndex < env.pageWSMaxSize) :
    env.rank env.pageLastWSIndex = 0 := by
  rw [Env.rank_of_le hindex (Nat.le_refl _), Nat.sub_self]

/-- Entering a page moves all entries one place forward, and the entry of the page to the end. -/
theorem Env.rank_enterPage (hindex : env.pageLastWSIndex < env.pageWSMaxSize)
    (hi : i < env.pageWSMaxSize) : (env.enterPage va).rank i =
      if i = env.pageLastWSIndex then env.pageWSMaxSize - 1 else env.rank i - 1 := by
  have hmax : (env.enterPage va).pageWSMaxSize = env.pageWSMaxSize := rfl
  have hnext : (env.enterPage va).pageLastWSIndex = (env.pageLastWSIndex + 1) % env.pageWSMaxSize := rfl
  by_cases hwrap : env.pageLastWSIndex + 1 = env.pageWSMaxSize
  · have h0 : (env.enterPage va).pageLastWSIndex = 0 := by rw [hnext, hwrap, Nat.mod_self]
    rw [Env.rank_of_le (by rw [hmax]; exact hi) (by omega), h0]
    split
    case isTrue heq => omega
    case isFalse hne =>
      rw [Env.rank_of_lt hindex (by omega)]
      omega
  · have h1 : (env.enterPage va).pageLastWSIndex = env.pageLastWSIndex + 1 := by
      rw [hnext, Nat.mod_eq_of_lt (by omega)]
    split
    case isTrue heq =>
      rw [Env.rank_of_lt (by omega) (by omega), h1, hmax]
      omega
    case isFalse hne =>
      rcases Nat.lt_or_ge i env.pageLastWSIndex with hlt | hge
      · rw [Env.rank_of_lt (by omega) (by omega), Env.rank_of_lt hindex hlt, h1, hmax]
        omega
      · rw [Env.rank_of_le (by omega) (by omega), Env.rank_of_le hi hge, h1]
        omega

theorem Env.rank_pos (hindex : env.pageLastWSIndex < env.pageWSMaxSize) (hi : i < env.pageWSMaxSize)
    (hne : i ≠ env.pageLastWSIndex) : 0 < env.rank i := by
  rcases Nat.lt_or_ge i env.pageLastWSIndex with hlt | hge
  · rw [Env.rank_of_lt hindex hlt]
    omega
  · rw [Env.rank_of_le hi hge]
    omega

theorem Env.rank_lt (hindex : env.pageLastWSIndex < env.pageWSMaxSize) (i : Nat) :
    env.rank i < env.pageWSMaxSize := Nat.mod_lt _ (by omega)

/-- The next entry is free, and is the last of all once it is taken. -/
theorem Env.FreeFrom.enter (h : env.FreeFrom c) (hindex : env.pageLastWSIndex < env.pageWSMaxSize)
    (hlen : env.pageWSMaxSize ≤ env.ptrPageWorkingSet.length) (hc : 0 < c) (va : Nat) :
    env.FreeEntry env.pageLastWSIndex ∧ (env.enterPage va).FreeFrom (c - 1) := by
  refine ⟨(h.2 _ hindex).2 (by rw [Env.rank_last hindex]; exact hc),
    Nat.le_trans (Nat.sub_le ..) h.1, fun j hj => ?_⟩
  have hj : j < env.pageWSMaxSize := hj
  rw [Env.enterPage_free hindex hlen, Env.rank_enterPage hindex hj, h.2 j hj]
  split
  case isTrue heq =>
    -- the entry itself is the last of all now
    have := h.1
    constructor
    · exact fun h => absurd heq h.1
    · intro h
      omega
  case isFalse hne =>
    have := Env.rank_pos hindex hj hne
    constructor
    · rintro ⟨-, h⟩
      omega
    · intro h
      exact ⟨hne, by omega⟩

/-- A placement finds its entry free, and leaves the row. -/
theorem Env.FreeRow.place (h : env.FreeRow) (hindex : env.pageLastWSIndex < env.pageWSMaxSize)
    (hlen : env.pageWSMaxSize ≤ env.ptrPageWorkingSet.length) (hroom : ∃ i, env.FreeEntry i)
    (va : Nat) : env.FreeEntry env.pageLastWSIndex ∧ (env.enterPage va).FreeRow := by
  obtain ⟨c, hrow⟩ : ∃ c, env.FreeFrom c := h
  obtain ⟨i, hi⟩ := hroom
  have hpos : env.rank i < c := (hrow.2 i hi.1).1 hi
  obtain ⟨hfree, hrow'⟩ := hrow.enter hindex hlen (by omega) va
  exact ⟨hfree, _, hrow'⟩

/-- A full working set stays full, with any entry next. -/
theorem Env.FreeRow.full (h : ¬ ∃ i, env.FreeEntry i) : env.FreeRow :=
  ⟨0, Nat.zero_le _, fun i _ => iff_of_false (fun hi => h ⟨i, hi⟩) (Nat.not_lt_zero _)⟩

/-! ## Freeing -/

theorem Env.releases_iff : env.releases p n i = true ↔ ∃ q, env.wsPage i = some q ∧ p ≤ q ∧
    q < p + n := by
  unfold Env.releases
  cases env.wsPage i <;> simp

/-- The lowered index is the least of the old one and of the entries freed. -/
theorem Env.le_loweredIndex : x ≤ env.loweredIndex p n m ↔
    x ≤ env.pageLastWSIndex ∧ ∀ i < m, env.releases p n i = true → x ≤ i := by
  induction m with
  | zero => simp [Env.loweredIndex]
  | succ m ih =>
    rw [Env.loweredIndex]
    split
    case isTrue hrel =>
      rw [Nat.le_min, ih, and_assoc]
      apply and_congr_right
      intro _
      constructor
      · rintro ⟨hall, hm⟩ i hi hr
        rcases Nat.lt_succ_iff_lt_or_eq.1 hi with hlt | rfl
        · exact hall i hlt hr
        · exact hm
      · intro hall
        exact ⟨fun i hi hr => hall i (by omega) hr, hall m (by omega) hrel⟩
    case isFalse hrel =>
      rw [ih]
      apply and_congr_right
      intro _
      constructor
      · intro hall i hi hr
        rcases Nat.lt_succ_iff_lt_or_eq.1 hi with hlt | rfl
        · exact hall i hlt hr
        · exact absurd hr hrel
      · intro hall i hi hr
        exact hall i (by omega) hr

/-- Lowering the index keeps it in the array. -/
theorem Env.loweredIndex_le : env.loweredIndex p n m ≤ env.pageLastWSIndex :=
  (Env.le_loweredIndex.1 (Nat.le_refl _)).1

theorem Env.wsPage_of_some {w : WorkingSetElement} (hw : env.ptrPageWorkingSet[i]? = some w) :
    env.wsPage i = some (ppn w.virtualAddress) := by
  unfold Env.wsPage
  rw [hw]
  rfl

theorem Env.Holds.wsPage (h : env.Holds i q) : env.wsPage i = some q := by
  obtain ⟨-, w, hw, -, rfl⟩ := h
  exact Env.wsPage_of_some hw

end

/-! ### The scan of `freeMem` -/

section

variable {s t : Kern} {e i n p q : Nat}

theorem ClearsEntries.max (h : ClearsEntries e p n 0 (s.envs e).pageWSMaxSize s t) :
    (t.envs e).pageWSMaxSize = (s.envs e).pageWSMaxSize := by
  rw [h.env]

/-- An entry that is not freed is as before. -/
theorem ClearsEntries.kept (h : ClearsEntries e p n 0 (s.envs e).pageWSMaxSize s t)
    (hr : (s.envs e).releases p n i ≠ true) :
    (t.envs e).ptrPageWorkingSet[i]? = (s.envs e).ptrPageWorkingSet[i]? := by
  apply h.entry
  refine .inr (.inr fun q hq => ?_)
  by_contra hin
  exact hr (Env.releases_iff.2 ⟨q, hq, by omega, by omega⟩)

theorem ClearsEntries.freed (h : ClearsEntries e p n 0 (s.envs e).pageWSMaxSize s t)
    (hi : i < (s.envs e).pageWSMaxSize) (hr : (s.envs e).releases p n i = true) :
    (t.envs e).ptrPageWorkingSet[i]? = some ⟨0, true⟩ := by
  obtain ⟨q, hq, hpq, hqn⟩ := Env.releases_iff.1 hr
  exact h.cleared i q (Nat.zero_le i) (by omega) hq hpq hqn

theorem ClearsEntries.free_iff (h : ClearsEntries e p n 0 (s.envs e).pageWSMaxSize s t)
    (hi : i < (s.envs e).pageWSMaxSize) :
    (t.envs e).FreeEntry i ↔ (s.envs e).FreeEntry i ∨ (s.envs e).releases p n i = true := by
  unfold Env.FreeEntry
  rw [h.max]
  by_cases hr : (s.envs e).releases p n i = true
  · rw [h.freed hi hr]
    simp [hi, hr]
  · rw [h.kept hr]
    simp [hr]

theorem ClearsEntries.holds_iff (h : ClearsEntries e p n 0 (s.envs e).pageWSMaxSize s t) :
    (t.envs e).Holds i q ↔ (s.envs e).Holds i q ∧ ¬ (p ≤ q ∧ q < p + n) := by
  by_cases hr : (s.envs e).releases p n i = true
  · constructor
    · rintro ⟨hi, w, hw, hused, -⟩
      rw [h.max] at hi
      rw [h.freed hi hr] at hw
      obtain rfl := Option.some.inj hw
      cases hused
    · rintro ⟨hold, hout⟩
      obtain ⟨r, hr, hpr, hrn⟩ := Env.releases_iff.1 hr
      obtain rfl := Option.some.inj (hold.wsPage.symm.trans hr)
      exact absurd ⟨hpr, hrn⟩ hout
  · unfold Env.Holds
    rw [h.max, h.kept hr, iff_self_and]
    rintro ⟨-, w, hw, -, rfl⟩ hin
    exact hr (Env.releases_iff.2 ⟨_, Env.wsPage_of_some hw, hin⟩)

theorem ClearsEntries.lastIndex (h : ClearsEntries e p n 0 (s.envs e).pageWSMaxSize s t) :
    (t.envs e).pageLastWSIndex = (s.envs e).loweredIndex p n (s.envs e).pageWSMaxSize := by
  apply eq_of_forall_le_iff
  intro x
  rw [h.index, Env.le_loweredIndex]
  apply and_congr_right
  intro _
  constructor
  · intro hall i hi hr
    obtain ⟨q, hq, hpq, hqn⟩ := Env.releases_iff.1 hr
    exact hall i q (Nat.zero_le i) (by omega) hq hpq hqn
  · intro hall i q _ hi hq hpq hqn
    exact hall i (by omega) (Env.releases_iff.2 ⟨q, hq, hpq, hqn⟩)

/-- The row after `freeMem`, read off the state before. -/
theorem ClearsEntries.freeRow_iff (h : ClearsEntries e p n 0 (s.envs e).pageWSMaxSize s t) :
    (t.envs e).FreeRow ↔ (s.envs e).LeavesRow p n := by
  unfold Env.FreeRow Env.LeavesRow Env.rank
  rw [h.max, h.lastIndex]
  apply exists_congr
  intro c
  apply and_congr_right
  intro _
  apply forall₂_congr
  intro i hi
  rw [h.free_iff hi]

end

end Fos
