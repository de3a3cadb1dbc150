import Fos.Queue.Sequences

/-!
# LIST_FOREACH

The loop keeps the next element in the head before it runs the body, so a body may remove the
element it is at.
-/

namespace Fos

variable {ι α ρ : Type} [DecidableEq ι] [DecidableEq α]

/-- `LOOP_LIST_NEXT` -/
def loopListNext (l : Links α) (elm : Option α) : Option α :=
  match elm with
  | none => none
  | some elm => l.next elm

/-- The body of a loop at an element: the macros it uses on the lists, as it finds them and the rest
of the memory, and what it does to that rest. -/
abbrev LoopBody (ι α ρ : Type) := α → Lists ι α → ρ → List (ListOp ι α) × ρ

/-- `LIST_FOREACH` over the list `i` from `var` on, at most `n` times: the elements visited, the
lists and the rest of the memory. -/
def listForeach (i : ι) (body : LoopBody ι α ρ) :
    Nat → Option α → Lists ι α → ρ → Option (List α × Lists ι α × ρ)
  -- `___ptr_next` and `var` are both null
  | _, none, m, r => some ([], (ListOp.savePtrNext i (loopListNext m.links none)).run m, r)
  | 0, some _, _, _ => none
  | n + 1, some var, m, r =>
    let m := (ListOp.savePtrNext i (loopListNext m.links var)).run m
    let (ops, r) := body var m r
    let m := runOps ops m
    (listForeach i body n (m.ptrNext i) m r).map fun (xs, t) => (var :: xs, t)

/-- On the list `i` the macro at most removes `x`, and it does not start a loop over `i`. -/
def ListOp.OnlyRemoves (i : ι) (x : α) : ListOp ι α → Prop
  | .init j | .insertHead j _ | .insertTail j _ => j ≠ i
  | .insertBefore j _ _ | .insertAfter j _ _ => j ≠ i
  | .remove j elm => j = i → elm = x
  | .savePtrNext j _ => j ≠ i

/-- The body removes nothing but the element it is at, gives the macros what they need, and keeps
`Inv`. -/
def RemovesCurrent (i : ι) (body : LoopBody ι α ρ) (Inv : Sequences ι α → ρ → Prop) : Prop :=
  ∀ x m r s, Represents m s → s.Listed i x → Inv s r →
    AllowedOps (body x m r).1 s ∧ (∀ op ∈ (body x m r).1, op.OnlyRemoves i x) ∧
      Inv (applyOps (body x m r).1 s) (body x m r).2

section

variable {m : Lists ι α} {s : Sequences ι α} {i : ι} {xs : List α} {x : α}

omit [DecidableEq α] in
theorem ListOp.OnlyRemoves.ptrNext [DecidableEq α] {op : ListOp ι α} (h : op.OnlyRemoves i x) :
    (op.run m).ptrNext i = m.ptrNext i := by
  cases op with
  | savePtrNext j v => exact Function.update_of_ne (Ne.symm h) _ _
  | _ => rfl

/-- One macro of the body leaves the list as it is or takes `x` out. -/
theorem ListOp.OnlyRemoves.apply {op : ListOp ι α} (h : op.OnlyRemoves i x) :
    op.apply s i = s i ∨ op.apply s i = (s i).map fun xs => xs.erase x := by
  cases op with
  | remove j elm =>
    by_cases hj : j = i
    · subst hj
      rw [h rfl]
      exact .inr (Function.update_self _ _ _)
    · exact .inl (Function.update_of_ne (Ne.symm hj) _ _)
  | savePtrNext j v => exact .inl rfl
  | _ => exact .inl (Function.update_of_ne (Ne.symm h) _ _)

theorem runOps_ptrNext {ops : List (ListOp ι α)} (h : ∀ op ∈ ops, op.OnlyRemoves i x) :
    (runOps ops m).ptrNext i = m.ptrNext i := by
  induction ops generalizing m with
  | nil => rfl
  | cons op ops ih =>
    have hrest : ∀ op ∈ ops, op.OnlyRemoves i x := fun op hm => h op (List.mem_cons_of_mem _ hm)
    exact (ih hrest).trans (h op List.mem_cons_self).ptrNext

/-- The body leaves the list as it is or takes `x` out. -/
theorem applyOps_list {ops : List (ListOp ι α)} (h : ∀ op ∈ ops, op.OnlyRemoves i x)
    (hnd : xs.Nodup) (hs : s i = some xs ∨ s i = some (xs.erase x)) :
    applyOps ops s i = some xs ∨ applyOps ops s i = some (xs.erase x) := by
  induction ops generalizing s with
  | nil => exact hs
  | cons op ops ih =>
    have hrest : ∀ op ∈ ops, op.OnlyRemoves i x := fun op hm => h op (List.mem_cons_of_mem _ hm)
    have htwice : (xs.erase x).erase x = xs.erase x := List.erase_of_not_mem hnd.not_mem_erase
    have hstep : op.apply s i = some xs ∨ op.apply s i = some (xs.erase x) := by
      rcases (h op List.mem_cons_self).apply (s := s) with hop | hop
      · rwa [hop]
      · rcases hs with hs | hs
        · exact .inr (by rw [hop, hs, Option.map_some])
        · exact .inr (by rw [hop, hs, Option.map_some, htwice])
    exact ih hrest hstep

/-- From any element on the loop visits the rest of the list. -/
theorem listForeach_rest {body : LoopBody ι α ρ} {Inv : Sequences ι α → ρ → Prop}
    (hbody : RemovesCurrent i body Inv) {r : ρ} {kept rest : List α} {n : Nat}
    (h : Represents m s) (hi : s i = some (kept ++ rest)) (hr : Inv s r) (hn : rest.length ≤ n) :
    ∃ m' s' r', listForeach i body n rest.head? m r = some (rest, m', r') ∧ Represents m' s' ∧
      Inv s' r' := by
  induction rest generalizing m s r kept n with
  | nil =>
    have h₁ : Represents ((ListOp.savePtrNext i none).run m) s := h.savePtrNext
    refine ⟨_, s, r, ?_, h₁, hr⟩
    cases n <;> rfl
  | cons x rest ih =>
    cases n with
    | zero => cases hn
    | succ n =>
    have hl := h.list hi
    -- the next element is saved before the body runs
    have h₁ : Represents ((ListOp.savePtrNext i rest.head?).run m) s := h.savePtrNext
    have hsave : ((ListOp.savePtrNext i rest.head?).run m).ptrNext i = rest.head? :=
      Function.update_self _ _ _
    set m₁ := (ListOp.savePtrNext i rest.head?).run m
    obtain ⟨hops, honly, hr₁⟩ := hbody x m₁ r s h₁ ⟨_, hi, by simp⟩ hr
    have h₂ := h₁.run hops
    have hnext := (runOps_ptrNext honly).trans hsave
    -- whether or not the body took `x` out, `rest` is behind it
    have herase : (kept ++ x :: rest).erase x = kept ++ rest := by
      have hx : x ∉ kept := fun hm => hl.split.2.2.2.2.2 x hm List.mem_cons_self
      rw [List.erase_append_right _ hx, List.erase_cons_head]
    have hi₂ : ∃ kept', applyOps (body x m₁ r).1 s i = some (kept' ++ rest) := by
      rcases applyOps_list honly hl.nodup (.inl hi) with hi₂ | hi₂
      · exact ⟨kept ++ [x], by rw [hi₂, List.append_assoc, List.singleton_append]⟩
      · exact ⟨kept, by rw [hi₂, herase]⟩
    obtain ⟨kept', hi₂⟩ := hi₂
    obtain ⟨m', s', r', hrun, h', hr'⟩ := ih h₂ hi₂ hr₁ (Nat.le_of_succ_le_succ hn)
    refine ⟨m', s', r', ?_, h', hr'⟩
    rw [List.head?_cons, listForeach]
    dsimp only [loopListNext]
    rw [hl.next_eq, hnext, hrun, Option.map_some]

end

/-- **The list macros implement a sequence.** From any memory, after any run of the macros that
inserts elements of no list and names elements of the list at hand, a list reads forwards and
backwards as the sequence that the sequence operations give, `size` is its length, and a
`LIST_FOREACH` whose body removes at most the current element visits every element once, in
order. -/
theorem lists_sequences (m : Lists ι α) {ops : List (ListOp ι α)}
    (hops : AllowedOps ops fun _ => none) {i : ι} {xs : List α}
    (hi : applyOps ops (fun _ => none) i = some xs) :
    let t := runOps ops m
    (∀ n, xs.length ≤ n → readList t.links.next n (t.head i).first = some xs ∧
      readList t.links.prev n (t.head i).last = some xs.reverse) ∧
    (t.head i).size = xs.length ∧
    ([Fintype α] → Fintype.card α < 4294967296 → (t.head i).size < 4294967296) ∧
    xs.Nodup ∧
    ∀ (ρ : Type) (body : LoopBody ι α ρ) (Inv : Sequences ι α → ρ → Prop) (r : ρ),
      RemovesCurrent i body Inv → Inv (applyOps ops fun _ => none) r → ∀ n, xs.length ≤ n →
      ∃ m' s' r', listForeach i body n (t.head i).first t r = some (xs, m', r') ∧
        Represents m' s' ∧ Inv s' r' := by
  intro t
  have ht : Represents t (applyOps ops fun _ => none) := (represents_none m).run hops
  have hl := ht.list hi
  refine ⟨fun n hn => ⟨?_, ?_⟩, hl.size, hl.size_lt, hl.nodup, fun ρ body Inv r hbody hr n hn => ?_⟩
  · rw [hl.first]
    exact hl.seg.readNext hn
  · rw [hl.last]
    exact hl.seg.readPrev hn
  · rw [hl.first]
    have hi' : applyOps ops (fun _ => none) i = some ([] ++ xs) := hi
    exact listForeach_rest hbody ht hi' hr hn

/-- Two lists of numbers: one is built and then loses its head to the other. -/
def twoLists : List (ListOp Bool Nat) :=
  [.init false, .init true, .insertHead false 5, .insertTail false 7, .insertBefore false 7 6,
    .insertAfter false 7 8, .remove false 5, .insertTail true 5]

/-- A loop that removes the even numbers and counts its rounds. -/
def removeEven : LoopBody Bool Nat Nat := fun x _ rounds =>
  (if x % 2 = 0 then [.remove false x] else [], rounds + 1)

theorem removeEven_removesCurrent : RemovesCurrent false removeEven fun _ _ => True := by
  intro x m r s _ hx _
  unfold removeEven
  split
  · exact ⟨⟨hx, trivial⟩, by simp [ListOp.OnlyRemoves], trivial⟩
  · exact ⟨trivial, by simp, trivial⟩

/-- The list that is left, its size and the rounds of a loop over it. -/
theorem lists_sequences_twoLists :
    let t := runOps twoLists ⟨⟨fun _ => none, fun _ => none⟩, fun _ => listInit, fun _ => none⟩
    readList t.links.next 3 (t.head false).first = some [6, 7, 8] ∧
      readList t.links.prev 3 (t.head false).last = some [8, 7, 6] ∧ (t.head false).size = 3 ∧
      ∃ m' r', listForeach false removeEven 3 (t.head false).first t 0 = some ([6, 7, 8], m', r') := by
  intro t
  have hops : AllowedOps twoLists fun _ => none := by
    simp [twoLists, AllowedOps, ListOp.Allowed, ListOp.apply, Sequences.Unlisted, Sequences.Listed]
  have hi : applyOps twoLists (fun _ => none) false = some [6, 7, 8] := rfl
  obtain ⟨hread, hsize, -, -, hloop⟩ := lists_sequences
    ⟨⟨fun _ => none, fun _ => none⟩, fun _ => listInit, fun _ => none⟩ hops hi
  obtain ⟨m', s', r', hrun, -, -⟩ := hloop Nat removeEven (fun _ _ => True) 0
    removeEven_removesCurrent trivial 3 le_rfl
  exact ⟨(hread 3 le_rfl).1, (hread 3 le_rfl).2, hsize, m', r', hrun⟩

end Fos
