import Fos.SharedMemory.StorageRuns
import Fos.SharedMemory.Calls
import Fos.SharedMemory.Start

/-!
# Runs of the calls on shared objects

From any state that environments and the page file can reach, environments create, get and free
shared objects in any order. A run records the attachments; the page tables, the storages and the
counts agree with the record in every state it reaches.
-/

namespace Fos

open Prog (bind_eq_ok bind_of_ok ok_inj)
open Relation (ReflTransGen)

/-- The state of a run: the page directories, and the attachments made and not freed yet. -/
structure ShareState where
  kern : Kern
  pages : List DirPtr
  atts : List Attachment

/-- A call and its arguments, after the environment that makes it. -/
inductive ShareCall
  | create (curenv ownerID : Nat) (shareName : List UInt8) (size isWritable virtualAddress : Nat)
  | get (curenv ownerID : Nat) (shareName : List UInt8) (virtualAddress : Nat)
  | free (curenv startVA : Nat)

def ShareCall.run : ShareCall → K Int
  | .create e ownerID name size isWritable va =>
    createSharedObject e ownerID name size isWritable va
  | .get e ownerID name va => getSharedObject e ownerID name va
  | .free e va => freeSharedObject e va

/-- The pages of an object of a size in bytes. -/
abbrev sizePages (size : Nat) : Nat := roundup size pageSize / pageSize

/-- When `freeSharedObject` finds no object but that of an attachment that begins at the address. A
page that is not mapped matches the lowest object without pages, and inside the first page of an
attachment every address matches. -/
structure DetachSafe (s : ShareState) (curenv va : Nat) : Prop where
  dir : (s.kern.envs curenv).envPageDirectory ≠ 0
  start : va < userTop → ∀ a ∈ s.atts, a.dir = s.kern.pageDirectory curenv → 0 < a.last →
    ppn a.va = ppn va → a.va = va
  empty : va < userTop → s.kern.leaf (s.kern.pageDirectory curenv) (ppn va) = 0 →
    ∀ i o, s.kern.shares.object i = some o → o.pages = 0 →
    (∀ j < i, ∀ o', s.kern.shares.object j = some o' → o'.pages ≠ 0) →
    ∃ a ∈ s.atts, a.dir = s.kern.pageDirectory curenv ∧ a.object = i ∧ a.va = va
  kernel : userTop ≤ va → ∃ r, getFrameInfo (s.kern.pageDirectory curenv) va s.kern = .ok r s.kern ∧
    ∀ i o, s.kern.shares.object i = some o → s.kern.frameIn o.root 0 ≠ r.map Prod.fst

/-- What a run asks of a call. -/
def ShareCall.Allowed (s : ShareState) : ShareCall → Prop
  | .create e _ _ size _ va => Unmapped s.kern e va (sizePages size) ∧
    ∃ i < s.kern.shares.maxShares, (s.kern.shares.shares i).empty = true
  | .get e ownerID name va => ∀ i, s.kern.shares.find ownerID name = some i →
    Unmapped s.kern e va ((s.kern.shares.shares i).size / pageSize) ∧
      ((s.kern.shares.shares i).size / pageSize ≠ 0 → attachCount s.atts i < 65535) ∧
      attachCount s.atts i + 1 < 4294967296
  | .free e va => DetachSafe s e va

/-- How a call that returned `id` changes the record. A detach takes an attachment off that begins
at the address, one of the object whose entry changed. -/
def ShareCall.Records (id : Int) (s t : ShareState) : ShareCall → Prop
  | .create e _ _ size _ va => t.atts =
    if 0 ≤ id then newAttachment s.kern e va id.toNat (sizePages size)
      (permWriteable ||| permUser) false :: s.atts
    else s.atts
  | .get e _ _ va => t.atts =
    if 0 ≤ id then newAttachment s.kern e va id.toNat
      ((s.kern.shares.shares id.toNat).size / pageSize) (s.kern.shares.shares id.toNat).perm true :: s.atts
    else s.atts
  | .free e va =>
    if id = 0 then ∃ a, s.atts.Perm (a :: t.atts) ∧ a.dir = s.kern.pageDirectory e ∧ a.va = va ∧
      t.kern.shares.shares a.object ≠ s.kern.shares.shares a.object
    else t.atts = s.atts

def ShareStep (s t : ShareState) : Prop :=
  t.pages = s.pages ∧ ∃ (call : ShareCall) (id : Int), call.Allowed s ∧
    call.run s.kern = .ok id t.kern ∧ call.Records id s t

/-- What a run carries on. -/
def ShareInv (lay : Layout) (s : ShareState) : Prop :=
  ∃ G dirs, dirs.page = s.pages ∧ SharesOk lay G dirs s.atts s.kern

section

variable {lay : Layout} {G D : Set Nat} {dirs : Roots} {held : Set Nat} {s t : ShareState}
  {k k' : Kern} {a : Attachment} {o : ObjectAt} {dir : DirPtr} {atts : List Attachment} {id : Int}
  {curenv i p va : Nat}

/-! ## What the search finds -/

/-- What `get_frame_info` says of a user page. -/
theorem MemOk.frameInfo_user (h : MemOk lay G D dirs held k) (hdir : dir ∈ dirs.page)
    (hva : va < userTop) :
    ∃ r, getFrameInfo dir va k = .ok r k ∧ r.map Prod.fst = k.frameIn dir (ppn va) := by
  have hp : ppn va < 977920 := (pdx_user hva).2
  refine h.getFrameInfo_frameIn (.inl hdir) hva fun hne => ?_
  exact h.accounted.inRange _ (h.usable_leaf hdir hp (h.leaf_present hdir hp hne)).pool

/-- An object without pages has no first frame, and any other has one. -/
theorem SharesOk.frameIn_none (h : SharesOk lay G dirs atts k) (ho : k.shares.object i = some o) :
    k.frameIn o.root 0 = none ↔ o.pages = 0 := by
  rw [Fos.frameIn_none]
  constructor
  · intro hz
    by_contra hne
    exact present_ne_zero (h.attached.stored i o ho 0 (Nat.pos_of_ne_zero hne)) hz
  · exact fun hz => h.attached.rest i o ho 0 hz.le (by omega)

/-- **What the search finds** when the address is safe: no object, or that of an attachment that
begins there. -/
theorem SharesOk.findShareAt_safe (h : SharesOk lay G dirs s.atts s.kern)
    (hsafe : DetachSafe s curenv va) :
    Fos.findShareAt (s.kern.pageDirectory curenv) va 0 s.kern.shares.maxShares s.kern =
      .ok none s.kern ∨
    ∃ a ∈ s.atts, a.dir = s.kern.pageDirectory curenv ∧ a.va = va ∧
      Fos.findShareAt (s.kern.pageDirectory curenv) va 0 s.kern.shares.maxShares s.kern =
        .ok (some a.object) s.kern := by
  have hdir : s.kern.pageDirectory curenv ∈ dirs.page := h.envs curenv hsafe.dir
  by_cases hva : va < userTop
  · obtain ⟨r, hget, hr⟩ := h.mem.frameInfo_user hdir hva
    rcases h.findShareAt hget (Nat.zero_add _) (fun j hj => absurd hj (Nat.not_lt_zero j)) with
      ⟨hnone, -⟩ | ⟨i, hfind, hmatch⟩
    · exact .inl hnone
    · right
      obtain ⟨o, ho, hfr⟩ := hmatch.found
      cases hx : s.kern.frameIn (s.kern.pageDirectory curenv) (ppn va) with
      | none =>
        -- the page is not mapped, so the object has no pages and is the lowest such
        rw [hr, hx] at hmatch hfr
        have hlow : ∀ j < i, ∀ o', s.kern.shares.object j = some o' → o'.pages ≠ 0 :=
          fun j hj o' ho' h0 => hmatch.lowest j hj o' ho' ((h.frameIn_none ho').2 h0)
        obtain ⟨a, ha, had, hai, hav⟩ := hsafe.empty hva (Fos.frameIn_none.1 hx) i o ho
          ((h.frameIn_none ho).1 hfr) hlow
        exact ⟨a, ha, had, hav, by rw [hai]; exact hfind⟩
      | some f =>
        -- the page maps the first frame of the object
        rw [hr, hx] at hfr
        obtain ⟨hne, hf⟩ := frameIn_some hx
        obtain ⟨-, hst⟩ := frameIn_some hfr
        have hpos : 0 < o.pages := by
          apply Nat.pos_of_ne_zero
          intro h0
          rw [(h.frameIn_none ho).2 h0] at hfr
          cases hfr
        have hp : ppn va < 977920 := (pdx_user hva).2
        obtain ⟨a, ha, had, ⟨hai, -, hlast⟩, hpage⟩ := h.attached.only i o ho 0 hpos _ hdir _ hp
          (h.mem.leaf_present hdir hp hne) (hf.trans hst.symm)
        exact ⟨a, ha, had, hsafe.start hva a ha had hlast hpage, by rw [hai]; exact hfind⟩
  · obtain ⟨r, hget, hno⟩ := hsafe.kernel (by omega)
    rcases h.findShareAt hget (Nat.zero_add _) (fun j hj => absurd hj (Nat.not_lt_zero j)) with
      ⟨hnone, -⟩ | ⟨i, -, hmatch⟩
    · exact .inl hnone
    · obtain ⟨o, ho, hfr⟩ := hmatch.found
      exact absurd hfr (hno i o ho)

theorem freeSharedObject_none
    (hfind : Fos.findShareAt (k.pageDirectory curenv) va 0 k.shares.maxShares k = .ok none k) :
    freeSharedObject curenv va k = .ok eSharedMemNotExists k := by
  rw [freeSharedObject, Prog.get_bind_apply, bind_of_ok hfind]
  rfl

/-! ## One step -/

theorem ShareInv.create {ownerID size isWritable : Nat} {name : List UInt8} (hi : ShareInv lay s)
    (hall : ShareCall.Allowed s (.create curenv ownerID name size isWritable va))
    (hk : createSharedObject curenv ownerID name size isWritable va s.kern = .ok id t.kern)
    (hpages : t.pages = s.pages)
    (hrec : ShareCall.Records id s t (.create curenv ownerID name size isWritable va)) :
    ShareInv lay t := by
  obtain ⟨G, dirs, hdirs, h⟩ := hi
  obtain ⟨hun, hroom⟩ := hall
  change t.atts = _ at hrec
  unfold ShareInv
  rw [hrec, hpages]
  rcases h.createSharedObject hroom hun hk with ⟨rfl, heq⟩ | ⟨i, G', dirs', rfl, -, hpage, hok⟩
  · rw [if_neg (by decide), heq]
    exact ⟨G, dirs, hdirs, h⟩
  · rw [if_pos (Int.natCast_nonneg i), Int.toNat_natCast]
    exact ⟨G', dirs', hpage.trans hdirs, hok⟩

theorem ShareInv.get {ownerID : Nat} {name : List UInt8} (hi : ShareInv lay s)
    (hall : ShareCall.Allowed s (.get curenv ownerID name va))
    (hk : getSharedObject curenv ownerID name va s.kern = .ok id t.kern) (hpages : t.pages = s.pages)
    (hrec : ShareCall.Records id s t (.get curenv ownerID name va)) : ShareInv lay t := by
  obtain ⟨G, dirs, hdirs, h⟩ := hi
  change t.atts = _ at hrec
  unfold ShareInv
  rw [hrec, hpages]
  rcases h.getSharedObject hall hk with ⟨rfl, heq⟩ | ⟨i, G', rfl, -, hok⟩
  · rw [if_neg (by decide), heq]
    exact ⟨G, dirs, hdirs, h⟩
  · rw [if_pos (Int.natCast_nonneg i), Int.toNat_natCast]
    exact ⟨G', dirs, hdirs, hok⟩

/-- **A safe call of `freeSharedObject`** finds nothing and changes nothing, or it detaches the
attachment that begins at the address. -/
theorem ShareInv.freeSharedObject (hi : ShareInv lay s) (hsafe : DetachSafe s curenv va) :
    Fos.freeSharedObject curenv va s.kern = .ok eSharedMemNotExists s.kern ∨
    ∃ a ∈ s.atts, a.dir = s.kern.pageDirectory curenv ∧ a.va = va ∧
      ∀ id k, Fos.freeSharedObject curenv va s.kern = .ok id k → id = 0 ∧
        (∃ o, s.kern.shares.object a.object = some o ∧ Detaches s.pages a o s.kern k) ∧
        ∀ b rest, b.object = a.object → b.dir = s.kern.pageDirectory curenv → b.va = va →
          s.atts.Perm (b :: rest) → ShareInv lay ⟨k, s.pages, rest⟩ := by
  obtain ⟨G, dirs, hdirs, h⟩ := hi
  rcases h.findShareAt_safe hsafe with hnone | ⟨a, ha, hdir, rfl, hfind⟩
  · exact .inl (freeSharedObject_none hnone)
  · refine .inr ⟨a, ha, hdir, rfl, fun id k hk => ?_⟩
    obtain ⟨o, ho, hid, hdet, -⟩ := h.detach (List.perm_cons_erase ha) hdir hfind hk
    rw [hdirs] at hdet
    refine ⟨hid, ⟨o, ho, hdet⟩, fun b rest hb hbd hbv hperm => ?_⟩
    rw [← hb, ← hbv] at hfind
    rw [← hbv] at hk
    obtain ⟨-, -, -, -, G', dirs', hpage, hok⟩ := h.detach hperm hbd hfind hk
    exact ⟨G', dirs', hpage.trans hdirs, hok⟩

theorem ShareInv.free (hi : ShareInv lay s) (hsafe : DetachSafe s curenv va)
    (hk : Fos.freeSharedObject curenv va s.kern = .ok id t.kern) (hpages : t.pages = s.pages)
    (hrec : ShareCall.Records id s t (.free curenv va)) : ShareInv lay t := by
  rcases hi.freeSharedObject hsafe with hnone | ⟨a, -, -, -, hdone⟩
  · rw [hnone] at hk
    obtain ⟨rfl, heq⟩ := ok_inj.1 hk
    have hatts : t.atts = s.atts := hrec
    unfold ShareInv
    rw [hatts, hpages, ← heq]
    exact hi
  · obtain ⟨rfl, ⟨o, -, hdet⟩, hnext⟩ := hdone id t.kern hk
    obtain ⟨b, hperm, hbd, hbv, hchanged⟩ := hrec
    have hb : b.object = a.object := by
      by_contra hne
      exact hchanged (hdet.others _ hne)
    have := hnext b t.atts hb hbd hbv hperm
    rw [← hpages] at this
    exact this

theorem ShareStep.inv (hi : ShareInv lay s) (h : ShareStep s t) : ShareInv lay t := by
  obtain ⟨hpages, call, id, hall, hk, hrec⟩ := h
  cases call with
  | create curenv ownerID name size isWritable va => exact hi.create hall hk hpages hrec
  | get curenv ownerID name va => exact hi.get hall hk hpages hrec
  | free curenv va => exact hi.free hall hk hpages hrec

end

/-! ## Runs -/

/-- The states of the runs: from boot, through steps that make no call on shared objects, and then
through calls on them. -/
def ShareRun (c : BootConfig) (s : ShareState) : Prop :=
  ∃ s₀ st f, fosInitialize (initializePaging c) = .ok () s₀ ∧
    ReflTransGen MemoryStep ⟨setStrategy st s₀, [.boot], fun _ => none⟩ f ∧
    ReflTransGen ShareStep ⟨f.kern, f.pages, []⟩ s

section

variable {c : BootConfig} {lay : Layout} {s t : ShareState} {f : FileState} {o : ObjectAt}
    {a : Attachment}
  {curenv i j k va : Nat}

/-- Without objects there is nothing to agree on. -/
theorem attached_nil (dirs : Roots) (s : Kern) : Attached dirs (fun _ => none) [] s := by
  constructor
  case apart => exact .nil
  all_goals intros; contradiction

theorem shareInv_start (hi : StoreInv lay f) {n : Nat} (hsh : f.kern.shares = clearedShares n) :
    ShareInv lay ⟨f.kern, f.pages, []⟩ := by
  obtain ⟨⟨G, dirs, hpages, h⟩, henvs, -⟩ := hi
  have hnone : f.kern.shares.object = fun _ => none := by
    funext i
    rw [hsh]
    exact object_of_empty rfl
  have hno : ∀ i o, f.kern.shares.object i ≠ some o := by
    intro i o ho
    rw [hnone] at ho
    cases ho
  refine ⟨G, dirs, hpages, h.mem, ?_, by rw [hsh]; rfl, fun i o ho => absurd ho (hno i o),
    fun _ h => absurd h List.not_mem_nil, fun _ h => absurd h List.not_mem_nil,
    fun _ h => absurd h List.not_mem_nil, fun i o ho => absurd ho (hno i o),
    fun i o ho => absurd ho (hno i o), fun _ => (by decide : 0 < 4294967296),
    fun _ h => absurd h List.not_mem_nil, ?_⟩
  · rw [hnone]
    exact attached_nil _ _
  · intro e he
    rw [hpages]
    exact henvs e he

/-- The invariant in every state of a run. -/
theorem ShareRun.inv (h : ShareRun c s) : ShareInv c.layout s := by
  obtain ⟨s₀, st, f, hboot, hmem, hrun⟩ := h
  have hstart := shareInv_start (memoryRun_inv hboot hmem) (memoryRun_shares hboot hmem)
  exact Prog.invariant hstart (fun _ _ hi hstep => hstep.inv hi) hrun

theorem ShareRun.tail (h : ShareRun c s) (hstep : ShareStep s t) : ShareRun c t := by
  obtain ⟨s₀, st, f, hboot, hmem, hrun⟩ := h
  exact ⟨s₀, st, f, hboot, hmem, hrun.tail hstep⟩

/-- **A detach hits only the caller's own attachment.** In every state of a run a safe call of
`freeSharedObject` finds no object and changes nothing, or the caller has an attachment that begins
at the address, and what changes is what its object loses with it. -/
theorem freeSharedObject_own (hrun : ShareRun c s) (hsafe : DetachSafe s curenv va) :
    freeSharedObject curenv va s.kern = .ok eSharedMemNotExists s.kern ∨
    ∃ a ∈ s.atts, a.dir = s.kern.pageDirectory curenv ∧ a.va = va ∧
      ∀ id t, freeSharedObject curenv va s.kern = .ok id t →
        id = 0 ∧ ∃ o, s.kern.shares.object a.object = some o ∧ Detaches s.pages a o s.kern t := by
  rcases hrun.inv.freeSharedObject hsafe with hnone | ⟨a, ha, hdir, hva, hdone⟩
  · exact .inl hnone
  · refine .inr ⟨a, ha, hdir, hva, fun id t ht => ?_⟩
    obtain ⟨hid, hdet, -⟩ := hdone id t ht
    exact ⟨hid, hdet⟩

/-! ## An object without pages -/

/-- The entry that `createSharedObject` fills in. -/
def newShare (ownerID : Nat) (name : List UInt8) (size isWritable framesStorage : Nat) : Share :=
  ⟨ownerID, name, size, 1, isWritable, false, framesStorage⟩

theorem roundup_zero : roundup 0 pageSize = 0 := by decide +kernel

/-- **`createSharedObject`** once it has a storage and its pages are mapped. -/
theorem createSharedObject_new {s u w : Kern} {p ownerID size isWritable : Nat} {name : List UInt8}
    (hnull : s.shares.null = false) (hfind : s.shares.find ownerID name = none)
    (hvacant : (List.range s.shares.maxShares).find? (fun i => (s.shares.shares i).empty) = some i)
    (hnew : newFramesStorage s = .ok p u)
    (hpages : createSharedPages (.heap (u.envs curenv).envPageDirectory) p 0 va (sizePages size)
      (u.setShares (s.shares.setShare i ((s.shares.shares i).taken p))) = .ok () w)
    (hnull' : w.shares.null = false) :
    createSharedObject curenv ownerID name size isWritable va s =
      .ok i (w.setShares (w.shares.setShare i { w.shares.shares i with
        name := name
        ownerID := ownerID
        size := roundup size pageSize
        isWritable := isWritable
        references := 1 })) := by
  have hlook : getShareObjectID ownerID name s = _ := getShareObjectID_run hnull
  rw [hfind] at hlook
  -- the entry is taken before the pages are made
  have halloc : allocateShareObject s =
      .ok i (u.setShares (s.shares.setShare i ((s.shares.shares i).taken p))) := by
    rw [allocateShareObject, Prog.get_bind_apply, Prog.ite_run, if_neg (by simp [hnull]), hvacant]
    exact (takeShareEntry_iff hnull).2 ⟨p, u, hnew, rfl, rfl⟩
  set v := u.setShares (s.shares.setShare i ((s.shares.shares i).taken p)) with hv
  have hnull'' : v.shares.null = false := hnull
  have hentry : v.shares.shares i = (s.shares.shares i).taken p := Function.update_self ..
  rw [createSharedObject, bind_of_ok hlook, Prog.ite_run, if_neg (by decide), bind_of_ok halloc,
    Prog.ite_run, if_neg (by unfold eNoShare; omega), Int.toNat_natCast,
    bind_of_ok (readShare_ok hnull''), Prog.get_bind_apply, hentry]
  exact (bind_of_ok hpages).trans (bind_of_ok (writeShare_ok hnull' _))

/-- The creation of an object of size 0 needs a storage and nothing else. -/
theorem createSharedObject_zero {s u : Kern} {p ownerID isWritable : Nat} {name : List UInt8}
    (hnull : s.shares.null = false) (hfind : s.shares.find ownerID name = none)
    (hvacant : (List.range s.shares.maxShares).find? (fun i => (s.shares.shares i).empty) = some i)
    (hnew : newFramesStorage s = .ok p u) :
    createSharedObject curenv ownerID name 0 isWritable va s =
      .ok i (u.setShares (s.shares.setShare i (newShare ownerID name 0 isWritable p))) := by
  set v := u.setShares (s.shares.setShare i ((s.shares.shares i).taken p)) with hv
  have hpages : createSharedPages (.heap (u.envs curenv).envPageDirectory) p 0 va (sizePages 0) v =
      .ok () v := by
    rw [sizePages, roundup_zero]
    rfl
  have hentry : v.shares.shares i = (s.shares.shares i).taken p := Function.update_self ..
  rw [createSharedObject_new hnull hfind hvacant hnew hpages hnull, hentry,
    show v.shares = s.shares.setShare i ((s.shares.shares i).taken p) from rfl, setShare_setShare,
    roundup_zero]
  rfl

/-- **`getSharedObject`** once the pages are mapped. -/
theorem getSharedObject_new {s w : Kern} {ownerID : Nat} {name : List UInt8}
    (hnull : s.shares.null = false) (hfind : s.shares.find ownerID name = some i)
    (hpages : getSharedPages (.heap (s.envs curenv).envPageDirectory) (s.shares.shares i) 0 va
      ((s.shares.shares i).size / pageSize) s = .ok () w) (hnull' : w.shares.null = false) :
    getSharedObject curenv ownerID name va s = .ok i (w.setShares (w.shares.setShare i
      { w.shares.shares i with references := u32 ((w.shares.shares i).references + 1) })) := by
  have hlook : getShareObjectID ownerID name s = _ := getShareObjectID_run hnull
  rw [hfind] at hlook
  have hne : ¬ ((i : Nat) : Int) = eSharedMemNotExists := by
    unfold eSharedMemNotExists
    omega
  rw [getSharedObject, bind_of_ok hlook, Prog.ite_run, if_neg hne, Int.toNat_natCast,
    bind_of_ok (readShare_ok hnull), Prog.get_bind_apply, bind_of_ok hpages]
  exact bind_of_ok (writeShare_ok hnull' _)

/-- The kernel after the first environment made an object of size 0. -/
def emptyObject : Kern :=
  let k := Prog.final (kmalloc pageSize firstEnv)
  (k.clearWords (k.kframe 1007621) 0 1024).setShares
    (firstEnv.shares.setShare 0 (newShare 3 [120] 0 1 (1007621 * 4096)))

theorem shareRun_emptyObject : ShareRun smallMachine ⟨emptyObject, [.heap (1007620 * 4096), .boot],
    [newAttachment firstEnv 3 userHeapStart 0 0 (permWriteable ||| permUser) false]⟩ := by
  have hmem : ReflTransGen MemoryStep ⟨setStrategy .firstFit smallBoot, [.boot], fun _ => none⟩
      ⟨firstEnv, [.heap (1007620 * 4096), .boot], fun _ => none⟩ := .single (.store firstEnv_step)
  -- no step so far has touched the table of objects
  have hsh : firstEnv.shares = clearedShares 97 := memoryRun_shares smallBoot_ok hmem
  have hkm : kmalloc pageSize firstEnv = .ok (1007621 * 4096) (Prog.final (kmalloc pageSize firstEnv)) :=
    Prog.ok_of_value (by decide +kernel)
  have hnew := newFramesStorage_page hkm (by decide) (by decide +kernel)
  have hcreate : createSharedObject 3 3 [120] 0 1 userHeapStart firstEnv = .ok (0 : Nat) emptyObject :=
    createSharedObject_zero (by rw [hsh]; rfl) (by rw [hsh]; decide) (by rw [hsh]; decide) hnew
  refine ⟨smallBoot, .firstFit, _, smallBoot_ok, hmem,
    .single ⟨rfl, .create 3 3 [120] 0 1 userHeapStart,
    0, ⟨⟨by decide +kernel, ?_, ?_⟩, 0, ?_, ?_⟩, hcreate, ?_⟩⟩
  · rw [sizePages, roundup_zero]
    decide
  · rw [sizePages, roundup_zero]
    exact fun k hk => absurd hk (Nat.not_lt_zero k)
  · show 0 < firstEnv.shares.maxShares
    rw [hsh]
    decide
  · show (firstEnv.shares.shares 0).empty = true
    rw [hsh]
    rfl
  · show _ = if _ then _ else _
    rw [if_pos (le_refl (0 : Int)), sizePages, roundup_zero]
    rfl

/-- A call at the start of the one attachment. -/
theorem freeSharedObject_own_empty : ∃ s : ShareState, ShareRun smallMachine s ∧
    DetachSafe s 3 userHeapStart ∧
    (freeSharedObject 3 userHeapStart s.kern = .ok eSharedMemNotExists s.kern ∨
    ∃ a ∈ s.atts, a.dir = s.kern.pageDirectory 3 ∧ a.va = userHeapStart ∧
      ∀ id t, freeSharedObject 3 userHeapStart s.kern = .ok id t →
        id = 0 ∧ ∃ o, s.kern.shares.object a.object = some o ∧ Detaches s.pages a o s.kern t) := by
  have hdir : (emptyObject.envs 3).envPageDirectory = 1007620 * 4096 := by decide +kernel
  have hsafe : DetachSafe ⟨emptyObject, [.heap (1007620 * 4096), .boot],
      [newAttachment firstEnv 3 userHeapStart 0 0 (permWriteable ||| permUser) false]⟩ 3
      userHeapStart := by
    refine ⟨by rw [hdir]; decide, fun _ a ha _ hlast => ?_, fun _ _ i o ho _ hlow => ?_,
      fun hc => absurd hc (by decide)⟩
    · obtain rfl := List.mem_singleton.1 ha
      exact absurd hlast (Nat.lt_irrefl 0)
    · refine ⟨_, List.mem_singleton.2 rfl, by decide +kernel, ?_, rfl⟩
      show 0 = i
      by_contra hne
      refine hlow 0 (by omega) ⟨1007621, 0⟩ ?_ rfl
      decide +kernel
  exact ⟨_, shareRun_emptyObject, hsafe, freeSharedObject_own shareRun_emptyObject hsafe⟩

/-- A call at an address where nothing was ever attached deletes the object of size 0. -/
theorem freeSharedObject_stray : ¬ ∀ s : ShareState, ShareRun smallMachine s → ∀ curenv va,
    (∀ a ∈ s.atts, ¬ (a.dir = s.kern.pageDirectory curenv ∧ a.va = va)) →
    freeSharedObject curenv va s.kern = .ok eSharedMemNotExists s.kern := by
  intro hall
  have hvalue : freeSharedObject 3 0x90000000 emptyObject =
      .ok 0 (Prog.final (freeSharedObject 3 0x90000000 emptyObject)) :=
    Prog.ok_of_value (by decide +kernel)
  have hnone := hall _ shareRun_emptyObject 3 0x90000000 (fun a ha hc => ?_)
  · rw [hvalue] at hnone
    cases (ok_inj.1 hnone).1
  · obtain rfl := List.mem_singleton.1 ha
    exact absurd hc.2 (by decide)

end

end Fos
