import Fos.Loader

/-!
# The segments of a program

`PROGRAM_SEGMENT_FOREACH` runs its body once for each header that is loaded, in the order of the
headers, whatever other headers stand between them.
-/

namespace Fos

open Prog (bind_eq_ok ok_inj)

section

variable {σ : Type} {m : KernelImage} {p i j n : Nat} {body : σ → ProgramSegment → K σ} {s : Kern}

/-- The headers from `i` on, `n` of them, that are loaded. -/
def loadedHeaders (m : KernelImage) (p n i : Nat) : List Nat :=
  (List.range' i n).filter fun i => pType m p i = elfProgLoad

/-- The segments of the file. -/
def programSegments (m : KernelImage) (p : Nat) : List ProgramSegment :=
  (loadedHeaders m p (ePhnum m p) 0).map (programSegment m p)

theorem loadedHeaders_load (h : pType m p i = elfProgLoad) :
    loadedHeaders m p (n + 1) i = i :: loadedHeaders m p n (i + 1) := by
  unfold loadedHeaders
  rw [List.range'_succ, List.filter_cons_of_pos (by simpa using h)]

theorem loadedHeaders_skip (h : pType m p i ≠ elfProgLoad) :
    loadedHeaders m p (n + 1) i = loadedHeaders m p n (i + 1) := by
  unfold loadedHeaders
  rw [List.range'_succ, List.filter_cons_of_neg (by simpa using h)]

/-- The `while` loop stops at the first of them. -/
theorem skipHeaders_nil (h : loadedHeaders m p n i = []) : skipHeaders m p n i = i + n := by
  induction n generalizing i with
  | zero => rfl
  | succ n ih =>
    by_cases hload : pType m p i = elfProgLoad
    · rw [loadedHeaders_load hload] at h
      cases h
    · rw [loadedHeaders_skip hload] at h
      rw [skipHeaders, if_pos hload, ih h]
      omega

theorem skipHeaders_cons {rest : List Nat} (h : loadedHeaders m p n i = j :: rest) :
    skipHeaders m p n i = j ∧ (i ≤ j ∧ j < i + n) ∧
      loadedHeaders m p (i + n - (j + 1)) (j + 1) = rest := by
  induction n generalizing i with
  | zero => cases h
  | succ n ih =>
    by_cases hload : pType m p i = elfProgLoad
    · rw [loadedHeaders_load hload] at h
      obtain ⟨rfl, hrest⟩ := List.cons.inj h
      refine ⟨?_, by omega, ?_⟩
      · rw [skipHeaders, if_neg (not_not.2 hload)]
      · rw [← hrest]
        congr 1
        omega
    · rw [loadedHeaders_skip hload] at h
      obtain ⟨hskip, hle, hrest⟩ := ih h
      refine ⟨?_, by omega, ?_⟩
      · rw [skipHeaders, if_pos hload, hskip]
      · rw [← hrest]
        congr 1
        omega

theorem programSegmentFrom_eq (hmagic : eMagic m p = elfMagic) (hi : i ≤ ePhnum m p) :
    programSegmentFrom m p i s =
      .ok ((loadedHeaders m p (ePhnum m p - i) i).head?.map (programSegment m p)) s := by
  unfold programSegmentFrom
  rw [Prog.ite_run, if_neg (not_not.2 hmagic), Prog.ite_run]
  cases h : loadedHeaders m p (ePhnum m p - i) i with
  | nil =>
    rw [skipHeaders_nil h, if_neg (by omega)]
    rfl
  | cons j rest =>
    obtain ⟨hskip, hlt, -⟩ := skipHeaders_cons h
    rw [hskip, if_pos (by omega)]
    rfl

/-- The loop at a header that is loaded, or at the end. -/
theorem foreachFrom_eq (hmagic : eMagic m p = elfMagic) (hi : i ≤ ePhnum m p) {x : σ}
    (hn : ePhnum m p - i ≤ n) :
    foreachFrom m p body n ((loadedHeaders m p (ePhnum m p - i) i).head?.map (programSegment m p)) x s =
      ((loadedHeaders m p (ePhnum m p - i) i).map (programSegment m p)).foldlM body x s := by
  induction n generalizing i x s with
  | zero =>
    have h0 : ePhnum m p - i = 0 := by omega
    rw [h0]
    rfl
  | succ n ih =>
    cases h : loadedHeaders m p (ePhnum m p - i) i with
    | nil => rfl
    | cons j rest =>
      obtain ⟨-, hlt, hrest⟩ := skipHeaders_cons h
      -- after the header `j` the search goes on behind it
      have hj : j + 1 ≤ ePhnum m p := by omega
      have hlen : i + (ePhnum m p - i) - (j + 1) = ePhnum m p - (j + 1) := by omega
      rw [hlen] at hrest
      rw [List.map_cons, List.foldlM_cons]
      show (body x (programSegment m p j) >>= fun x => _) s = _
      rw [Prog.bind_run, Prog.bind_run]
      cases body x (programSegment m p j) s with
      | error e s' => rfl
      | ok y s' =>
        have hnext : programSegmentNext m p (programSegment m p j) s' =
            .ok ((loadedHeaders m p (ePhnum m p - (j + 1)) (j + 1)).head?.map (programSegment m p)) s' :=
          programSegmentFrom_eq hmagic hj
        show (programSegmentNext m p (programSegment m p j) >>= fun seg => foreachFrom m p body n seg y)
          s' = (rest.map (programSegment m p)).foldlM body y s'
        rw [Prog.bind_of_ok hnext, ih hj (by omega), hrest]

theorem programSegmentForeach_run (hmagic : eMagic m p = elfMagic) {x : σ} :
    programSegmentForeach m p body x s = (programSegments m p).foldlM body x s := by
  unfold programSegmentForeach programSegmentFirst
  rw [Prog.bind_of_ok (programSegmentFrom_eq hmagic (Nat.zero_le _)),
    foreachFrom_eq hmagic (Nat.zero_le _) (Nat.sub_le ..)]
  rfl

theorem programSegmentForeach_panic (hmagic : eMagic m p ≠ elfMagic) {x : σ} :
    programSegmentForeach m p body x s = .error (.panic "Matafa2nash 3ala Keda") s := by
  unfold programSegmentForeach programSegmentFirst programSegmentFrom
  rw [if_pos hmagic]
  rfl

end

/-- **The loop over the segments** is a fold over the headers that are loaded. -/
theorem programSegmentForeach_eq {σ : Type} (m : KernelImage) (p : Nat)
    (body : σ → ProgramSegment → K σ) (x : σ) (s : Kern) : programSegmentForeach m p body x s =
      if eMagic m p = elfMagic then (programSegments m p).foldlM body x s
      else .error (.panic "Matafa2nash 3ala Keda") s := by
  split
  case isTrue hmagic => exact programSegmentForeach_run hmagic
  case isFalse hmagic => exact programSegmentForeach_panic hmagic

end Fos
