import Fos.PageTables.MapFrame
import Fos.SharedMemory.Room
import Fos.SharedMemory.Runs

/-!
# One object, attached again and again

A machine of 4 MiB under continuous allocation. Its first environment makes an object of one page
and attaches it to the next page of its user heap as often as the 16 bits of a frame's count allow.
-/

namespace Fos

open Prog (bind_eq_ok bind_of_ok ok_inj)
open Relation (ReflTransGen)

theorem setShare_shares_self (sh : Shares) (i : Nat) (share : Share) :
    (sh.setShare i share).shares i = share := Function.update_self ..

/-- A search reads the owner and the name of an entry, and whether it is in use. -/
theorem find_setShare {sh : Shares} {i ownerID : Nat} {share : Share} {name : List UInt8}
    (hempty : share.empty = (sh.shares i).empty) (howner : share.ownerID = (sh.shares i).ownerID)
    (hname : share.name = (sh.shares i).name) :
    (sh.setShare i share).find ownerID name = sh.find ownerID name := by
  have hentry : ∀ j, ((sh.setShare i share).shares j).empty = (sh.shares j).empty ∧
      ((sh.setShare i share).shares j).ownerID = (sh.shares j).ownerID ∧
      ((sh.setShare i share).shares j).name = (sh.shares j).name := by
    intro j
    by_cases hj : j = i
    · subst hj
      rw [setShare_shares_self]
      exact ⟨hempty, howner, hname⟩
    · rw [show (sh.setShare i share).shares j = sh.shares j from Function.update_of_ne hj ..]
      exact ⟨rfl, rfl, rfl⟩
  unfold Shares.find
  congr 1
  funext j
  obtain ⟨h1, h2, h3⟩ := hentry j
  rw [h1, h2, h3]

/-- A page is allocated for the page directory of the first environment under continuous
allocation, -/
def contPage : Kern := Prog.final (kmalloc pageSize (setStrategy .contAlloc smallBoot))

/-- and filled, -/
def contFilled : Kern :=
  contPage.fill (contPage.kframe 1007620) (directoryWords contPage (contPage.kframe 1007620))

/-- and the environment gets it. -/
def contEnv : Kern :=
  (Prog.final (listDirectory (1007620 * 4096) 0 contFilled)).setEnv 3
    ⟨1007620 * 4096, 0, 5, 0, [], 0, 0⟩

/-- Its directory. -/
abbrev contDirectory : DirPtr := .heap (1007620 * 4096)

theorem contEnv_values :
    Prog.value (kmalloc pageSize (setStrategy .contAlloc smallBoot)) = some (1007620 * 4096) ∧
    ((setStrategy .contAlloc smallBoot).envs 3).diskEnvPgdir = 0 ∧
    present (contPage.kernelTable 1007620) ∧
    Prog.value (listDirectory (1007620 * 4096) 0 contFilled) = some () ∧
    (contEnv.envs 3).envPageDirectory = 1007620 * 4096 := by decide +kernel

theorem contEnv_step :
    StoreStep ⟨setStrategy .contAlloc smallBoot, [.boot], fun _ => none⟩
      ⟨contEnv, [contDirectory, .boot], fun _ => none⟩ ∧
    ∀ q < 977920, contEnv.leaf contDirectory q = 0 := by
  obtain ⟨hkm, hdisk, hpr, hlist, -⟩ := contEnv_values
  have hkm := Prog.ok_of_value hkm
  have hinit := initializeDirectory_page hpr
  have hlist := Prog.ok_of_value hlist
  refine ⟨.newEnv hdisk hkm (by decide) hinit hlist rfl rfl, fun q hq => ?_⟩
  -- a new directory has no user pages
  obtain ⟨G, dirs, -, hfile⟩ := (storeInv_boot smallBoot_ok .contAlloc).file
  obtain ⟨p, hd, hp, -, hok, -, hzero⟩ := hfile.mem.newDirectory hkm (by decide) hinit
  obtain rfl : p = 1007620 := by omega
  obtain ⟨-, hstill, -⟩ := hok.listDirectory List.mem_cons_self hlist
  show (Kern.setEnv _ _ _).leaf _ _ = 0
  rw [leaf_setEnv, hstill.leaf _ List.mem_cons_self q hq, hzero q hq]

theorem contEnv_run :
    ReflTransGen MemoryStep ⟨setStrategy .contAlloc smallBoot, [.boot], fun _ => none⟩
    ⟨contEnv, [contDirectory, .boot], fun _ => none⟩ :=
  .single (.store contEnv_step.1)

theorem le_length_of_drop {α : Type} {l : List α} {n : Nat} (h : (l.drop n).isEmpty = false) :
    n + 1 ≤ l.length := by
  by_contra hc
  rw [List.drop_of_length_le (by omega)] at h
  cases h

theorem contEnv_room : Room 90 contEnv :=
  ⟨by decide +kernel, by decide +kernel, le_length_of_drop (by decide +kernel),
    le_length_of_drop (by decide +kernel)⟩

theorem contEnv_shares : contEnv.shares = clearedShares 97 :=
  memoryRun_shares smallBoot_ok contEnv_run

theorem contEnv_inv : ShareInv smallMachine.layout ⟨contEnv, [contDirectory, .boot], []⟩ :=
  shareInv_start (memoryRun_inv smallBoot_ok contEnv_run) contEnv_shares

theorem contEnv_dir : (contEnv.envs 3).envPageDirectory = 1007620 * 4096 := contEnv_values.2.2.2.2

theorem roundup_one : roundup 1 pageSize = 4096 := by decide +kernel

theorem contEnv_unmapped : Unmapped contEnv 3 userHeapStart 1 := by
  refine ⟨by rw [contEnv_dir]; decide, by decide, fun k hk => ?_⟩
  rw [Kern.pageDirectory, contEnv_dir]
  apply contEnv_step.2
  rw [show ppn userHeapStart = 524288 by rfl]
  omega

/-! ## The object -/

/-- The object is made at the start of the user heap. -/
theorem contEnv_create :
    ∃ t p, createSharedObject 3 3 [120] 1 0 userHeapStart contEnv = .ok (0 : Nat) t ∧
    Room 86 t ∧
    (∀ q, 524288 < q → q < 977920 → t.leaf contDirectory q = 0) ∧ t.envs = contEnv.envs ∧
    t.shares = (clearedShares 97).setShare 0 ⟨3, [120], 4096, 1, 0, false, p * 4096⟩ := by
  obtain ⟨G, dirs, hdirs, h⟩ := contEnv_inv
  have hvacant : (List.range contEnv.shares.maxShares).find?
      (fun i => (contEnv.shares.shares i).empty) = some 0 := by
    rw [contEnv_shares]
    decide
  have hfind : contEnv.shares.find 3 [120] = none := by
    rw [contEnv_shares]
    decide
  obtain ⟨t, p, hrun, hroom, hleaf, henvs, hshares⟩ :=
    h.createSharedObject_room (n := 86) contEnv_room
    hvacant hfind contEnv_unmapped roundup_one
  refine ⟨t, p, hrun, hroom, fun q hlt hq => ?_, henvs, by rw [hshares, contEnv_shares]⟩
  rw [hleaf contDirectory (hdirs ▸ List.mem_cons_self) q hq ?_, contEnv_step.2 q hq]
  rintro ⟨-, rfl⟩
  rw [show ppn userHeapStart = 524288 by rfl] at hlt
  exact Nat.lt_irrefl _ hlt

/-! ## Its attachments -/

/-- After `n` calls of `getSharedObject`, each at the page after the last. -/
structure AttachedTimes (n : Nat) (s : ShareState) : Prop where
  run : ShareRun smallMachine s
  pages : s.pages = [contDirectory, .boot]
  room : Room (86 - n / 1024) s.kern
  dir : (s.kern.envs 3).envPageDirectory = 1007620 * 4096
  find : s.kern.shares.find 3 [120] = some 0
  size : (s.kern.shares.shares 0).size = 4096
  count : attachCount s.atts 0 = n + 1
  last : s.kern.leaf contDirectory (524288 + n) ≠ 0
  free : ∀ q, 524288 + n < q → q < 977920 → s.kern.leaf contDirectory q = 0

theorem attachedTimes_zero : ∃ s, AttachedTimes 0 s := by
  obtain ⟨t, p, hrun, hroom, hleaf, henvs, hshares⟩ := contEnv_create
  have hone : sizePages 1 = 1 := by decide +kernel
  set a := newAttachment contEnv 3 userHeapStart 0 1 (permWriteable ||| permUser) false with ha
  set s : ShareState := ⟨t, [contDirectory, .boot], [a]⟩ with hs
  have hstep : ShareStep ⟨contEnv, [contDirectory, .boot], []⟩ s := by
    refine ⟨rfl, .create 3 3 [120] 1 0 userHeapStart, 0, ⟨?_, 0, ?_, ?_⟩, hrun, ?_⟩
    · rw [hone]
      exact contEnv_unmapped
    · show 0 < contEnv.shares.maxShares
      rw [contEnv_shares]
      decide
    · show (contEnv.shares.shares 0).empty = true
      rw [contEnv_shares]
      rfl
    · show _ = if _ then _ else _
      rw [if_pos (le_refl (0 : Int)), hone]
      rfl
  have hshareRun : ShareRun smallMachine s :=
    ⟨smallBoot, .contAlloc, _, smallBoot_ok, contEnv_run, .single hstep⟩
  -- the object has one page and one reference
  have hentry : t.shares.shares 0 = ⟨3, [120], 4096, 1, 0, false, p * 4096⟩ := by
    rw [hshares]
    exact setShare_shares_self ..
  have hdir : contEnv.pageDirectory 3 = contDirectory := by
    rw [Kern.pageDirectory, contEnv_dir]
  refine ⟨s, hshareRun, rfl, hroom, by rw [hs, henvs, contEnv_dir], ?_, by rw [hs, hentry], ?_, ?_,
    hleaf⟩
  · show t.shares.find 3 [120] = some 0
    rw [hshares]
    rfl
  · show attachCount [a] 0 = 1
    rfl
  · -- the page of the one attachment
    obtain ⟨G, dirs, -, h⟩ := hshareRun.inv
    have hmem : a ∈ s.atts := List.mem_singleton.2 rfl
    obtain ⟨o, ho⟩ := h.live hmem
    have hmaps := h.attached.maps a hmem o ho 0 (Nat.le_refl 0) Nat.zero_lt_one
    have hpage : a.page 0 = 524288 := by
      show ppn userHeapStart + 0 = 524288
      decide
    rw [hpage, show a.dir = contDirectory from hdir] at hmaps
    rw [Nat.add_zero]
    show t.leaf contDirectory 524288 ≠ 0
    rw [hmaps]
    exact entryOf_ne_zero _ _

theorem AttachedTimes.unmapped {n : Nat} {s : ShareState} (h : AttachedTimes n s) (hn : n < 65535) :
    Unmapped s.kern 3 (userHeapStart + 4096 * (n + 1)) 1 := by
  refine ⟨by rw [h.dir]; decide, ?_, fun k hk => ?_⟩
  · unfold userHeapStart userTop
    omega
  · rw [Kern.pageDirectory, h.dir]
    apply h.free
    · unfold ppn userHeapStart
      omega
    · unfold ppn userHeapStart
      omega

/-- What one more call does to the kernel, whatever the counts are. -/
theorem AttachedTimes.get {n : Nat} {s : ShareState} (h : AttachedTimes n s) (hn : n < 65535) :
    ∃ t o, getSharedObject 3 3 [120] (userHeapStart + 4096 * (n + 1)) s.kern = .ok (0 : Nat) t ∧
      Room (86 - (n + 1) / 1024) t ∧ s.kern.shares.object 0 = some o ∧ o.pages = 1 ∧
      (∀ q < 977920, q ≠ 524288 + (n + 1) → t.leaf contDirectory q = s.kern.leaf contDirectory q) ∧
      t.leaf contDirectory (524288 + (n + 1)) =
        entryOf (s.kern.storedFrame o 0) (s.kern.shares.shares 0).perm ∧
      t.references (s.kern.storedFrame o 0) = u16Succ (s.kern.references (s.kern.storedFrame o 0)) ∧
      t.envs = s.kern.envs ∧ t.shares = s.kern.shares.setShare 0 { s.kern.shares.shares 0 with
        references := u32 ((s.kern.shares.shares 0).references + 1) } := by
  obtain ⟨G, dirs, hdirs, hok⟩ := h.run.inv
  have ho := find_object h.find
  set o : ObjectAt :=
    ⟨(s.kern.shares.shares 0).framesStorage / 4096, (s.kern.shares.shares 0).size / pageSize⟩
    with hodef
  have hone : o.pages = 1 := by
    rw [hodef, h.size]
    rfl
  have hdir : s.kern.pageDirectory 3 = contDirectory := by
    rw [Kern.pageDirectory, h.dir]
  have hpage : ppn (userHeapStart + 4096 * (n + 1)) = 524288 + (n + 1) := by
    unfold ppn userHeapStart
    omega
  have hmem : contDirectory ∈ dirs := .inl (by rw [hdirs, h.pages]; exact List.mem_cons_self)
  -- the room for one more table is the room that `n` attachments left
  have hroom : Room (85 - n / 1024 + 1) s.kern := by
    rw [show 85 - n / 1024 + 1 = 86 - n / 1024 by omega]
    exact h.room
  obtain ⟨t, hrun, hroom₁, hroom₂, hleaf, hrefs, henvs, hshares⟩ :=
    hok.getSharedObject_room hroom h.find ho hone (h.unmapped hn)
  rw [hdir, hpage] at hleaf
  refine ⟨t, o, hrun, ?_, ho, hone, fun q hq hne => ?_, ?_, hrefs, henvs, hshares⟩
  · -- the page is in the table of the page before it, unless it is the first of its table
    by_cases hmod : (n + 1) % 1024 = 0
    · rw [show 86 - (n + 1) / 1024 = 85 - n / 1024 by omega]
      exact hroom₁
    · rw [show 86 - (n + 1) / 1024 = 85 - n / 1024 + 1 by omega]
      apply hroom₂
      intro hnone
      rw [hdir, hpage, show (524288 + (n + 1)) / 1024 = (524288 + n) / 1024 by omega] at hnone
      exact h.last (leaf_of_none hnone)
  · rw [hleaf _ hmem q hq, if_neg fun hc => hne hc.2]
  · rw [hleaf _ hmem _ (by omega), if_pos ⟨rfl, rfl⟩]

theorem AttachedTimes.succ {n : Nat} {s : ShareState} (h : AttachedTimes n s) (hn : n < 65534) :
    ∃ t, AttachedTimes (n + 1) t := by
  obtain ⟨t, o, hrun, hroom, ho, -, hleaf, hnew, -, henvs, hshares⟩ := h.get (by omega)
  have hsize : (s.kern.shares.shares 0).size / pageSize = 1 := by
    rw [h.size]
    rfl
  set a :=
    newAttachment s.kern 3 (userHeapStart + 4096 * (n + 1)) 0 1 (s.kern.shares.shares 0).perm true
    with ha
  set s' : ShareState := ⟨t, s.pages, a :: s.atts⟩ with hs'
  -- the next attachment is at the page after the last
  have hstep : ShareStep s s' := by
    refine ⟨rfl, .get 3 3 [120] (userHeapStart + 4096 * (n + 1)), 0, fun i hi => ?_, hrun, ?_⟩
    · obtain rfl : 0 = i := Option.some_inj.1 (h.find.symm.trans hi)
      rw [hsize]
      have hcount := h.count
      exact ⟨h.unmapped (by omega), fun _ => by omega, by omega⟩
    · show _ = if _ then _ else _
      rw [if_pos (le_refl (0 : Int)), Int.toNat_zero, hsize]
  refine ⟨s', h.run.tail hstep, h.pages, hroom, ?_, ?_, ?_, ?_, ?_, fun q hlt hq => ?_⟩
  · rw [hs', henvs, h.dir]
  · show t.shares.find 3 [120] = some 0
    rw [hshares]
    refine (find_setShare ?_ ?_ ?_).trans h.find
    · rfl
    · rfl
    · rfl
  · show (t.shares.shares 0).size = 4096
    rw [hshares]
    exact (congrArg Share.size (setShare_shares_self ..)).trans h.size
  · show attachCount (a :: s.atts) 0 = n + 2
    rw [attachCount_cons, h.count, if_pos (show a.object = 0 from rfl)]
  · show t.leaf contDirectory (524288 + (n + 1)) ≠ 0
    rw [hnew]
    exact entryOf_ne_zero _ _
  · show t.leaf contDirectory q = 0
    rw [hleaf q hq (by omega)]
    exact h.free q (by omega) hq

/-- The run goes on until the count of the frame is full. -/
theorem attachedTimes (n : Nat) (hn : n < 65535) : ∃ s, AttachedTimes n s := by
  induction n with
  | zero => exact attachedTimes_zero
  | succ n ih =>
    obtain ⟨s, hs⟩ := ih (by omega)
    exact hs.succ (by omega)

end Fos
