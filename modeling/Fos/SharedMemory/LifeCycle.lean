import Fos.KernelHeap.Order
import Fos.SharedMemory.Runs
import Fos.WorkingSet.Processes

/-!
# The life of a shared object

Where environments attach objects of at least one byte at page-aligned unmapped ranges and free only
what they have attached, an object lives exactly as long as it has attachments.
-/

namespace Fos

open Prog (bind_eq_ok bind_of_ok ok_inj)
open Relation (ReflTransGen)

/-- What the user library asks of a call: `smalloc` and `sget` choose aligned ranges that are not
mapped, and `sfree` passes the start of an attachment. -/
def ShareCall.Proper (s : ShareState) : ShareCall → Prop
  | .create e _ _ size _ va => 1 ≤ size ∧ va % 4096 = 0 ∧ va + size ≤ userTop ∧
    Unmapped s.kern e va (sizePages size) ∧
    ∃ i < s.kern.shares.maxShares, (s.kern.shares.shares i).empty = true
  | .get e ownerID name va => va % 4096 = 0 ∧
    ∀ i, s.kern.shares.find ownerID name = some i →
      Unmapped s.kern e va ((s.kern.shares.shares i).size / pageSize) ∧ attachCount s.atts i < 65535
  | .free e va => (s.kern.envs e).envPageDirectory ≠ 0 ∧
    ∃ a ∈ s.atts, a.dir = s.kern.pageDirectory e ∧ a.va = va

def LifeStep (s t : ShareState) : Prop :=
  t.pages = s.pages ∧ ∃ (call : ShareCall) (id : Int), call.Proper s ∧
    call.run s.kern = .ok id t.kern ∧ call.Records id s t

/-- What such runs carry on beside the invariant of all runs. -/
structure LifeInv (lay : Layout) (s : ShareState) : Prop where
  shares : ShareInv lay s
  aligned : ∀ a ∈ s.atts, a.va % 4096 = 0
  pages : ∀ a ∈ s.atts, 0 < a.last

/-- **What every state of such a run shows.** -/
structure LifeLaw (s : ShareState) : Prop where
  /-- A page of an attachment maps the frame that the storage of its object lists for it. -/
  maps : ∀ a ∈ s.atts, ∃ o, s.kern.shares.object a.object = some o ∧ a.last = o.pages ∧
    ∀ k < o.pages, present (s.kern.leaf a.dir (ppn a.va + k)) ∧
      ppn (s.kern.leaf a.dir (ppn a.va + k)) = s.kern.storedFrame o k
  /-- The reference count is the number of attachments, and an object in the table has one. -/
  references : ∀ i o, s.kern.shares.object i = some o →
    (s.kern.shares.shares i).references = attachCount s.atts i ∧ 0 < attachCount s.atts i
  /-- The storage of an object in the table is mapped and in a block of the kernel heap that is
  taken. -/
  stored : ∀ i o, s.kern.shares.object i = some o → ∀ p ∈ storagePages s.kern o.storage,
    present (s.kern.kernelTable p) ∧ ∃ b ∈ s.kern.heap.blockInfoTakenList, p ∈ b.pages
  /-- The frames of an object in the table are not free. -/
  held : ∀ i o, s.kern.shares.object i = some o → ∀ k < o.pages,
    s.kern.storedFrame o k ∉ s.kern.frames.freeFrameList
  /-- `getSharedObject` attaches an object that is not writable without write permission. -/
  readOnly : ∀ a ∈ s.atts, a.got → (s.kern.shares.shares a.object).isWritable = 0 →
    ∀ k < a.last, s.kern.leaf a.dir (ppn a.va + k) &&& permWriteable = 0
  /-- A detach takes off one attachment that begins at the address. With the last one the object
  leaves the table, its frames are free and its storage is given back; before that it stays. -/
  detach : ∀ e va, ShareCall.Proper s (.free e va) → ∀ id t,
    freeSharedObject e va s.kern = .ok id t → id = 0 ∧
    ∃ a ∈ s.atts, a.dir = s.kern.pageDirectory e ∧ a.va = va ∧
    ∃ o, s.kern.shares.object a.object = some o ∧ Detaches s.pages a o s.kern t ∧
      (1 < attachCount s.atts a.object → t.shares.object a.object = some o ∧
        ∀ k < o.pages, s.kern.storedFrame o k ∉ t.frames.freeFrameList) ∧
      (attachCount s.atts a.object = 1 → t.shares.object a.object = none ∧
        (∀ k < o.pages, s.kern.storedFrame o k ∈ t.frames.freeFrameList) ∧
        (s.kern.heap.StartsApart → ∀ p ∈ storagePages s.kern o.storage, t.kernelTable p = 0 ∧
          ∀ b ∈ t.heap.blockInfoTakenList, p ∉ b.pages))

section

variable {lay : Layout} {G : Set Nat} {dirs : Roots} {s t : ShareState} {k : Kern} {o : ObjectAt}
  {a : Attachment} {atts : List Attachment} {curenv i n va : Nat} {id : Int}

/-! ## One step -/

theorem sizePages_pos (h : 1 ≤ n) (hle : va + n ≤ userTop) : 0 < sizePages n := by
  have hpos := roundup_pos h (by unfold userTop at hle; omega)
  have hmod := roundup_mod n
  change 0 < roundup n 4096 / 4096
  change roundup n 4096 % 4096 = 0 at hmod
  change 0 < roundup n 4096 at hpos
  omega

/-- The attachments know how many pages an object has. -/
theorem LifeInv.object_pos (hi : LifeInv lay s) (ho : s.kern.shares.object i = some o) :
    0 < o.pages := by
  obtain ⟨G, dirs, -, h⟩ := hi.shares
  obtain ⟨a, ha, rfl⟩ := attachCount_pos.2 (h.used i o ho)
  rw [← h.last a ha o ho]
  exact hi.pages a ha

/-- A call at the start of an attachment is safe. -/
theorem LifeInv.detachSafe (hi : LifeInv lay s) (hp : ShareCall.Proper s (.free curenv va)) :
    DetachSafe s curenv va := by
  obtain ⟨hdir, a, ha, had, rfl⟩ := hp
  obtain ⟨G, dirs, -, h⟩ := hi.shares
  refine ⟨hdir, fun _ b hb _ _ hpage => ?_, fun _ _ i o ho h0 => ?_, fun hva => ?_⟩
  · have h1 := hi.aligned a ha
    have h2 := hi.aligned b hb
    have h3 := h.range a ha
    have h4 := h.range b hb
    unfold ppn at hpage
    unfold userTop at h3 h4
    omega
  · have := hi.object_pos ho
    omega
  · have h1 := h.range a ha
    have h2 := hi.pages a ha
    omega

theorem LifeInv.allowed {call : ShareCall} (hi : LifeInv lay s) (hp : call.Proper s) :
    call.Allowed s := by
  cases call with
  | create e ownerID name size isWritable va => exact ⟨hp.2.2.2.1, hp.2.2.2.2⟩
  | get e ownerID name va =>
    intro i hf
    obtain ⟨hun, hlt⟩ := hp.2 i hf
    exact ⟨hun, fun _ => hlt, by omega⟩
  | free e va => exact hi.detachSafe hp

/-- The new attachments are aligned and have pages. -/
theorem LifeInv.records {call : ShareCall} (hi : LifeInv lay s) (hp : call.Proper s)
    (hk : call.run s.kern = .ok id t.kern) (hrec : call.Records id s t) :
    ∀ a ∈ t.atts, a.va % 4096 = 0 ∧ 0 < a.last := by
  have hold : ∀ a ∈ s.atts, a.va % 4096 = 0 ∧ 0 < a.last :=
    fun a ha => ⟨hi.aligned a ha, hi.pages a ha⟩
  cases call with
  | create e ownerID name size isWritable va =>
    change t.atts = _ at hrec
    rw [hrec]
    split
    · rintro a (_ | ⟨_, ha⟩)
      · exact ⟨hp.2.1, sizePages_pos hp.1 hp.2.2.1⟩
      · exact hold a ha
    · exact hold
  | get e ownerID name va =>
    change t.atts = _ at hrec
    rw [hrec]
    obtain ⟨G, dirs, -, h⟩ := hi.shares
    -- a failed get adds no record
    rcases h.getSharedObject (hi.allowed hp) hk with ⟨rfl, -⟩ | ⟨i, -, rfl, hf, -⟩
    · rw [if_neg (by decide)]
      exact hold
    · rw [if_pos (Int.natCast_nonneg i), Int.toNat_natCast]
      rintro a (_ | ⟨_, ha⟩)
      · exact ⟨hp.1, hi.object_pos (find_object hf)⟩
      · exact hold a ha
  | free e va =>
    intro a ha
    change if id = 0 then _ else _ at hrec
    split at hrec
    case isTrue =>
      obtain ⟨b, hperm, -⟩ := hrec
      exact hold a (hperm.mem_iff.2 (.tail _ ha))
    case isFalse =>
      rw [hrec] at ha
      exact hold a ha

theorem LifeStep.inv (hi : LifeInv lay s) (h : LifeStep s t) : LifeInv lay t := by
  obtain ⟨hpages, call, id, hp, hk, hrec⟩ := h
  have hstep : ShareStep s t := ⟨hpages, call, id, hi.allowed hp, hk, hrec⟩
  have hnew := hi.records hp hk hrec
  exact ⟨hstep.inv hi.shares, fun a ha => (hnew a ha).1, fun a ha => (hnew a ha).2⟩

/-! ## The law -/

/-- The leaf of a page of an attachment. -/
theorem SharesOk.leaf_attached (h : SharesOk lay G dirs atts k) (ha : a ∈ atts)
    (ho : k.shares.object a.object = some o) (hn : n < o.pages) :
    k.leaf a.dir (ppn a.va + n) = entryOf (k.storedFrame o n) a.perm :=
  h.attached.maps a ha o ho n ((h.first a ha).le.trans (Nat.zero_le n))
    (hn.trans_eq (h.last a ha o ho).symm)

/-- The frames of an object in the table are mapped, so they are not free. -/
theorem SharesOk.held (h : SharesOk lay G dirs atts k) (ho : k.shares.object i = some o)
    (hn : n < o.pages) : k.storedFrame o n ∉ k.frames.freeFrameList := by
  obtain ⟨a, ha, hc⟩ := h.covered i o ho n hn
  exact ((h.attached.userFrame ho ha hc).usable h.mem).notFree

/-- The storage of an object in the table is not given back. -/
theorem SharesOk.stored (h : SharesOk lay G dirs atts k) (ho : k.shares.object i = some o) {p : Nat}
    (hp : p ∈ storagePages k o.storage) :
    present (k.kernelTable p) ∧ ∃ b ∈ k.heap.blockInfoTakenList, p ∈ b.pages := by
  have hG := h.mem.directories.storage_owned (h.attached.storage _ o ho) hp
  have hpr := h.mem.owned.mapped p hG
  exact ⟨hpr, (h.mem.heap.present_iff p (h.mem.owned.heapPage p hG)).1 hpr⟩

/-- The search does not miss the object of an attachment that begins at the address. -/
theorem SharesOk.findShareAt_attached (h : SharesOk lay G dirs atts k) (ha : a ∈ atts)
    (hlast : 0 < a.last) : Fos.findShareAt a.dir a.va 0 k.shares.maxShares k ≠ .ok none k := by
  obtain ⟨o, ho⟩ := h.live ha
  have hpos : 0 < o.pages := hlast.trans_eq (h.last a ha o ho)
  obtain ⟨hdir, -, hperm, -⟩ := h.attached.attachment a ha
  have hrange := h.range a ha
  have hva : a.va < userTop := by omega
  obtain ⟨r, hget, hr⟩ := h.mem.frameInfo_user hdir hva
  have hleaf := h.leaf_attached ha ho hpos
  rw [Nat.add_zero] at hleaf
  have hsame : k.frameIn o.root 0 = r.map Prod.fst := by
    rw [hr, frameIn_present (h.attached.stored _ o ho 0 hpos),
      frameIn_present (by rw [hleaf]; exact present_entryOf hperm), hleaf, ppn_entryOf hperm]
    rfl
  rcases h.findShareAt hget (Nat.zero_add _) (fun j hj => absurd hj (Nat.not_lt_zero j)) with
    ⟨-, hno⟩ | ⟨i, hfind, -⟩
  · exact absurd hsame (hno _ o ho)
  · rw [hfind]
    intro hc
    cases (ok_inj.1 hc).1

/-- A user entry without write permission. -/
theorem entryOf_readOnly (f : Nat) : entryOf f permUser &&& permWriteable = 0 := by
  have he : entryOf f permUser = f * 4096 + 5 := constructEntry_eq (by decide)
  rw [he, show permWriteable = 2 ^ 1 from rfl, Nat.and_two_pow, Nat.testBit_eq_decide_div_mod_eq,
    decide_eq_false (by omega)]
  rfl

/-- What the detach of an attachment shows. -/
theorem SharesOk.detach_law (h : SharesOk lay G dirs s.atts s.kern) (hdirs : dirs.page = s.pages)
    (ha : a ∈ s.atts) (hdir : a.dir = s.kern.pageDirectory curenv)
    (hfind : Fos.findShareAt (s.kern.pageDirectory curenv) a.va 0 s.kern.shares.maxShares s.kern =
      .ok (some a.object) s.kern) (hk : freeSharedObject curenv a.va s.kern = .ok id k) :
    id = 0 ∧ ∃ o, s.kern.shares.object a.object = some o ∧ Detaches s.pages a o s.kern k ∧
      (1 < attachCount s.atts a.object → k.shares.object a.object = some o ∧
        ∀ j < o.pages, s.kern.storedFrame o j ∉ k.frames.freeFrameList) ∧
      (attachCount s.atts a.object = 1 → k.shares.object a.object = none ∧
        (∀ j < o.pages, s.kern.storedFrame o j ∈ k.frames.freeFrameList) ∧
        (s.kern.heap.StartsApart → ∀ p ∈ storagePages s.kern o.storage, k.kernelTable p = 0 ∧
          ∀ b ∈ k.heap.blockInfoTakenList, p ∉ b.pages)) := by
  obtain ⟨o, ho, hid, hdet, G', dirs', -, hok⟩ := h.detach (List.perm_cons_erase ha) hdir hfind hk
  rw [hdirs] at hdet
  have hrefs := h.references _ o ho
  refine ⟨hid, o, ho, hdet, fun hgt => ?_, fun hone => ?_⟩
  · have hne : (s.kern.shares.shares a.object).references ≠ 1 := by omega
    have hentry := hdet.entry
    rw [if_neg hne] at hentry
    have hobj : k.shares.object a.object = some o := by
      rw [object_eq_some, hentry, hdet.maxShares]
      exact object_eq_some.1 ho
    refine ⟨hobj, fun j hj => ?_⟩
    -- the storage stays, so it lists the frames that it did
    have hframe : k.storedFrame o j = s.kern.storedFrame o j := by
      have hsmall := h.attached.small _ o ho
      unfold Kern.storedFrame
      rw [hdet.storages _ o (fun _ => hne) ho j (by omega)]
    rw [← hframe]
    exact hok.held hobj hj
  · have hone' : (s.kern.shares.shares a.object).references = 1 := hrefs.trans hone
    have hentry := hdet.entry
    rw [if_pos hone'] at hentry
    refine ⟨object_of_empty (by rw [hentry]), hdet.frames hone', fun hs p hp => ?_⟩
    -- a page that is not mapped lies in no block
    have hzero := hdet.storage hone' hs p hp
    refine ⟨hzero, fun b hb hpb => ?_⟩
    have hheap := h.mem.owned.heapPage p
      (h.mem.directories.storage_owned (h.attached.storage _ o ho) hp)
    have := (hok.mem.heap.present_iff p hheap).2 ⟨b, hb, hpb⟩
    rw [hzero] at this
    exact not_present_zero this

theorem LifeInv.law (hi : LifeInv lay s) : LifeLaw s := by
  obtain ⟨G, dirs, hdirs, h⟩ := hi.shares
  refine ⟨?_, ?_, ?_, ?_, ?_, ?_⟩
  · intro a ha
    obtain ⟨o, ho⟩ := h.live ha
    obtain ⟨-, -, hperm, -⟩ := h.attached.attachment a ha
    refine ⟨o, ho, h.last a ha o ho, fun k hk => ?_⟩
    rw [h.leaf_attached ha ho hk]
    exact ⟨present_entryOf hperm, ppn_entryOf hperm⟩
  · exact fun i o ho => ⟨h.references i o ho, h.used i o ho⟩
  · exact fun i o ho p hp => h.stored ho hp
  · exact fun i o ho k hk => h.held ho hk
  · intro a ha hgot hw k hk
    obtain ⟨o, ho⟩ := h.live ha
    rw [h.leaf_attached ha ho (hk.trans_eq (h.last a ha o ho)), h.perm a ha,
      if_pos hgot, Share.perm,
      if_neg (not_not.2 hw)]
    exact entryOf_readOnly _
  · intro e va hp id t ht
    rcases h.findShareAt_safe (hi.detachSafe hp) with hnone | ⟨a, ha, hdir, rfl, hfind⟩
    · obtain ⟨-, b, hb, hbd, rfl⟩ := hp
      rw [← hbd] at hnone
      exact absurd hnone (h.findShareAt_attached hb (hi.pages b hb))
    · obtain ⟨hid, o, ho, hdet, hmore, hlast⟩ := h.detach_law hdirs ha hdir hfind ht
      exact ⟨hid, a, ha, hdir, rfl, o, ho, hdet, hmore, hlast⟩

/-- **The life cycle of shared objects.** From boot, through any steps without shared objects and
then any proper calls of any environments. -/
theorem sharedObject_lifeCycle {c : BootConfig} {s₀ : Kern} {st : KHeapPlacementStrategy}
    {f : FileState} (hboot : fosInitialize (initializePaging c) = .ok () s₀)
    (hmem : ReflTransGen MemoryStep ⟨setStrategy st s₀, [.boot], fun _ => none⟩ f)
    (hrun : ReflTransGen LifeStep ⟨f.kern, f.pages, []⟩ s) : LifeLaw s := by
  have hstart : LifeInv c.layout ⟨f.kern, f.pages, []⟩ :=
    ⟨shareInv_start (memoryRun_inv hboot hmem) (memoryRun_shares hboot hmem),
      fun _ h => absurd h List.not_mem_nil, fun _ h => absurd h List.not_mem_nil⟩
  exact (Prog.invariant hstart (fun _ _ hi hstep => hstep.inv hi) hrun).law

end

/-! ## One object and two environments -/

/-- The environment of directory 0xF6004000 makes an object: its storage is at 0xF6008000, -/
def objectStorage : Kern :=
  let k := Prog.final (kmalloc pageSize secondEnv)
  (k.clearWords (k.kframe 1007624) 0 1024).setShares
    (secondEnv.shares.setShare 0 ((secondEnv.shares.shares 0).taken (1007624 * 4096)))

/-- its frame -/
def objectFrame : Kern := Prog.final (allocateFrame objectStorage)

/-- is mapped at the start of the user heap -/
def objectMapped : Kern :=
  Prog.final (mapFrameIn (.heap (1007620 * 4096)) (.heap (1007625 * 4096)) 1014 userHeapStart
    (permWriteable ||| permUser)
    (objectFrame.withTable (1007620 * 4096) userHeapStart 1007625 (permUser ||| permWriteable)))

/-- and put into the storage, -/
def objectStored : Kern :=
  Prog.final (writePte (.heap (1007626 * 4096)) (ptx 0) (constructEntry (1014 * 4096) permPresent)
    (objectMapped.withTable (1007624 * 4096) 0 1007626 (permUser ||| permWriteable)))

/-- and the entry is filled in. -/
def objectMade : Kern := objectStored.setShares (objectStored.shares.setShare 0
  { objectStored.shares.shares 0 with
    name := [120]
    ownerID := 3
    size := roundup 1 pageSize
    isWritable := 0
    references := 1 })

/-- The storage is read, -/
def objectRead : Kern := Prog.final (getFrameFromStorage (1007624 * 4096) 0 objectMade)

/-- the frame is mapped in the other environment, -/
def objectShared : Kern :=
  Prog.final (mapFrameIn (.heap (1007623 * 4096)) (.heap (1007627 * 4096)) 1014 userHeapStart permUser
    (objectRead.withTable (1007623 * 4096) userHeapStart 1007627 (permUser ||| permWriteable)))

/-- and the reference counted. -/
def objectGot : Kern := objectShared.setShares (objectShared.shares.setShare 0
  { objectShared.shares.shares 0 with
    references := u32 ((objectShared.shares.shares 0).references + 1) })

/-- The first environment detaches the object, -/
def objectLeft : Kern := Prog.final (freeSharedObject 3 userHeapStart objectGot)

/-- and the second too. -/
def objectFreed : Kern := Prog.final (freeSharedObject 4 userHeapStart objectLeft)

theorem objectMade_values :
    Prog.value (kmalloc pageSize secondEnv) = some (1007624 * 4096) ∧
    present ((Prog.final (kmalloc pageSize secondEnv)).kernelTable 1007624) ∧
    (secondEnv.envs 3).envPageDirectory = 1007620 * 4096 ∧
    ((Prog.final (kmalloc pageSize secondEnv)).envs 3).envPageDirectory = 1007620 * 4096 ∧
    (∀ i < 955, secondEnv.table (.heap (1007620 * 4096)) i = none) ∧
    Prog.value (allocateFrame objectStorage) = some 1014 ∧
    RoomForTable objectFrame (1007620 * 4096) userHeapStart 1007625 ∧
    Prog.value (mapFrameIn (.heap (1007620 * 4096)) (.heap (1007625 * 4096)) 1014 userHeapStart
      (permWriteable ||| permUser) (objectFrame.withTable (1007620 * 4096) userHeapStart 1007625
        (permUser ||| permWriteable))) = some () ∧
    RoomForTable objectMapped (1007624 * 4096) 0 1007626 ∧
    Prog.value (writePte (.heap (1007626 * 4096)) (ptx 0) (constructEntry (1014 * 4096) permPresent)
      (objectMapped.withTable (1007624 * 4096) 0 1007626 (permUser ||| permWriteable))) = some () ∧
    objectStored.shares.null = false ∧ sizePages 1 = 1 := by decide +kernel

theorem objectGot_values :
    objectMade.shares.null = false ∧ objectMade.shares.find 3 [120] = some 0 ∧
    (objectMade.shares.shares 0).size / pageSize = 1 ∧
    (objectMade.shares.shares 0).framesStorage = 1007624 * 4096 ∧
    (objectMade.shares.shares 0).isWritable = 0 ∧
    (objectMade.envs 4).envPageDirectory = 1007623 * 4096 ∧
    (∀ i < 955, objectMade.table (.heap (1007623 * 4096)) i = none) ∧
    Prog.value (getFrameFromStorage (1007624 * 4096) 0 objectMade) = some (some 1014) ∧
    RoomForTable objectRead (1007623 * 4096) userHeapStart 1007627 ∧
    Prog.value (mapFrameIn (.heap (1007623 * 4096)) (.heap (1007627 * 4096)) 1014 userHeapStart permUser
      (objectRead.withTable (1007623 * 4096) userHeapStart 1007627 (permUser ||| permWriteable))) =
        some () ∧
    objectShared.shares.null = false := by decide +kernel

theorem objectFreed_values :
    (objectGot.envs 3).envPageDirectory = 1007620 * 4096 ∧
    Prog.value (freeSharedObject 3 userHeapStart objectGot) = some 0 ∧
    (objectGot.shares.shares 0).references = 2 ∧ (objectLeft.shares.shares 0).references = 1 ∧
    (objectLeft.envs 4).envPageDirectory = 1007623 * 4096 ∧
    Prog.value (freeSharedObject 4 userHeapStart objectLeft) = some 0 ∧
    (objectFreed.shares.shares 0).references = 0 := by decide +kernel

theorem secondEnv_shares : secondEnv.shares = clearedShares 97 := by
  obtain ⟨m, hrun⟩ := secondEnv_run
  exact memoryRun_shares smallBoot_ok hrun

theorem objectMade_run : createSharedObject 3 3 [120] 1 0 userHeapStart secondEnv =
    .ok (0 : Nat) objectMade := by
  obtain ⟨hkm, hpr, -, hdir, -, hframe, hroom, hmap, hroom₁, hstore, hnull, hone⟩ :=
    objectMade_values
  have hsh := secondEnv_shares
  have hnew := newFramesStorage_page (Prog.ok_of_value hkm) (by decide) hpr
  have hmapped : mapFrame (.heap (1007620 * 4096)) 1014 userHeapStart (permWriteable ||| permUser)
      objectFrame = .ok () objectMapped := hroom.mapFrame.trans (Prog.ok_of_value hmap)
  have hadded : addFrameToStorage (1007624 * 4096) 1014 0 objectMapped = .ok () objectStored := by
    rw [addFrameToStorage, Nat.zero_mul, u32_of_lt (by decide), bind_of_ok hroom₁.pageTable]
    exact Prog.ok_of_value hstore
  have hpages : createSharedPages (.heap (1007620 * 4096)) (1007624 * 4096) 0 userHeapStart 1
      objectStorage = .ok () objectStored := by
    rw [createSharedPages, bind_of_ok (Prog.ok_of_value hframe)]
    refine (bind_of_ok hmapped).trans ((bind_of_ok hadded).trans ?_)
    rfl
  refine createSharedObject_new (by rw [hsh]; rfl) (by rw [hsh]; decide) (by rw [hsh]; decide) hnew ?_ hnull
  rw [hone]
  show createSharedPages (.heap ((Prog.final (kmalloc pageSize secondEnv)).envs 3).envPageDirectory) _ _ _ _
    objectStorage = _
  rw [hdir]
  exact hpages

theorem objectGot_run :
    getSharedObject 4 3 [120] userHeapStart objectMade = .ok (0 : Nat) objectGot := by
  obtain ⟨hnull, hfind, hsize, hstorage, hw, hdir, -, hread, hroom, hmap, hnull₁⟩ :=
    objectGot_values
  have hmapped : mapFrame (.heap (1007623 * 4096)) 1014 userHeapStart permUser objectRead =
      .ok () objectShared := hroom.mapFrame.trans (Prog.ok_of_value hmap)
  refine getSharedObject_new hnull hfind ?_ hnull₁
  rw [hsize, hdir, getSharedPages, hstorage, hw, bind_of_ok (Prog.ok_of_value hread)]
  exact (bind_of_ok hmapped).trans rfl

theorem unmapped_of_tables {k : Kern} {e d n : Nat}
    (hdir : (k.envs e).envPageDirectory = d) (h0 : d ≠ 0)
    (htables : ∀ i < 955, k.table (.heap d) i = none) (hle : va + 4096 * n ≤ userTop) :
    Unmapped k e va n := by
  refine ⟨by rwa [hdir], hle, fun j hj => ?_⟩
  rw [Kern.pageDirectory, hdir]
  refine leaf_of_none (htables _ ?_)
  unfold ppn
  unfold userTop at hle
  omega

/-- The page directories of the two environments. -/
abbrev objectDirectories : List DirPtr := [.heap (1007623 * 4096), .heap (1007620 * 4096), .boot]

/-- The page of the object in the first environment -/
def madeAttachment : Attachment :=
  newAttachment secondEnv 3 userHeapStart 0 (sizePages 1) (permWriteable ||| permUser) false

/-- and in the second. -/
def gotAttachment : Attachment :=
  newAttachment objectMade 4 userHeapStart 0 ((objectMade.shares.shares 0).size / pageSize)
    (objectMade.shares.shares 0).perm true

theorem objectMade_step : LifeStep ⟨secondEnv, objectDirectories, []⟩
    ⟨objectMade, objectDirectories, [madeAttachment]⟩ := by
  obtain ⟨-, -, hdir, -, htables, -, -, -, -, -, -, hone⟩ := objectMade_values
  refine ⟨rfl, .create 3 3 [120] 1 0 userHeapStart, 0,
    ⟨le_rfl, by decide, by decide, ?_, 0, ?_, ?_⟩, objectMade_run, ?_⟩
  · rw [hone]
    exact unmapped_of_tables hdir (by decide) htables (by decide)
  · show 0 < secondEnv.shares.maxShares
    rw [secondEnv_shares]
    decide
  · show (secondEnv.shares.shares 0).empty = true
    rw [secondEnv_shares]
    rfl
  · exact (if_pos (le_refl (0 : Int))).symm

theorem objectGot_step : LifeStep ⟨objectMade, objectDirectories, [madeAttachment]⟩
    ⟨objectGot, objectDirectories, [gotAttachment, madeAttachment]⟩ := by
  obtain ⟨-, hfind, hsize, -, -, hdir, htables, -⟩ := objectGot_values
  refine ⟨rfl, .get 4 3 [120] userHeapStart, 0, ⟨by decide, fun i hi => ?_⟩, objectGot_run, ?_⟩
  · obtain rfl : 0 = i := Option.some_inj.1 (hfind.symm.trans hi)
    rw [hsize]
    exact ⟨unmapped_of_tables hdir (by decide) htables (by decide), by decide⟩
  · exact (if_pos (le_refl (0 : Int))).symm

/-- The first environment detaches, and the object stays for the second, -/
theorem objectLeft_step : LifeStep ⟨objectGot, objectDirectories, [gotAttachment, madeAttachment]⟩
    ⟨objectLeft, objectDirectories, [gotAttachment]⟩ := by
  obtain ⟨hdir, hrun, htwo, hone, -⟩ := objectFreed_values
  have hmade : madeAttachment.dir = objectGot.pageDirectory 3 := by
    obtain ⟨-, -, hdir₀, -⟩ := objectMade_values
    exact congrArg DirPtr.heap (hdir₀.trans hdir.symm)
  have hrun : freeSharedObject 3 userHeapStart objectGot = .ok 0 objectLeft := Prog.ok_of_value hrun
  refine ⟨rfl, .free 3 userHeapStart, 0,
    ⟨by rw [hdir]; decide, madeAttachment, .tail _ (.head _), hmade, rfl⟩, hrun, ?_⟩
  dsimp only [ShareCall.Records]
  rw [if_pos rfl]
  refine ⟨madeAttachment, .swap .., hmade, rfl, fun hsame => ?_⟩
  have hrefs := congrArg Share.references hsame
  rw [show madeAttachment.object = 0 from rfl, hone, htwo] at hrefs
  exact absurd hrefs (by decide)

/-- which is the last. -/
theorem objectFreed_step : LifeStep ⟨objectLeft, objectDirectories, [gotAttachment]⟩
    ⟨objectFreed, objectDirectories, []⟩ := by
  obtain ⟨-, -, -, hone, hdir, hrun, hzero⟩ := objectFreed_values
  have hgot : gotAttachment.dir = objectLeft.pageDirectory 4 := by
    obtain ⟨-, -, -, -, -, hdir₀, -⟩ := objectGot_values
    exact congrArg DirPtr.heap (hdir₀.trans hdir.symm)
  have hrun : freeSharedObject 4 userHeapStart objectLeft = .ok 0 objectFreed :=
    Prog.ok_of_value hrun
  refine ⟨rfl, .free 4 userHeapStart, 0, ⟨by rw [hdir]; decide, gotAttachment, .head _, hgot, rfl⟩,
    hrun, ?_⟩
  dsimp only [ShareCall.Records]
  rw [if_pos rfl]
  refine ⟨gotAttachment, .refl _, hgot, rfl, fun hsame => ?_⟩
  have hrefs := congrArg Share.references hsame
  rw [show gotAttachment.object = 0 from rfl, hone, hzero] at hrefs
  exact absurd hrefs (by decide)

/-- An object of one byte is made, attached by another environment and detached by both. -/
theorem sharedObject_lifeCycle_two : ∃ s t u : ShareState, LifeStep s t ∧ LifeStep t u ∧
    (attachCount s.atts 0 = 2 ∧ LifeLaw s) ∧ (attachCount t.atts 0 = 1 ∧ LifeLaw t) ∧
    attachCount u.atts 0 = 0 ∧ LifeLaw u := by
  obtain ⟨m, hrun⟩ := secondEnv_run
  have hgot : ReflTransGen LifeStep ⟨secondEnv, objectDirectories, []⟩
      ⟨objectGot, objectDirectories, [gotAttachment, madeAttachment]⟩ :=
    .tail (.single objectMade_step) objectGot_step
  have hleft := hgot.tail objectLeft_step
  exact ⟨_, _, _, objectLeft_step, objectFreed_step,
    ⟨rfl, sharedObject_lifeCycle smallBoot_ok hrun hgot⟩,
    ⟨rfl, sharedObject_lifeCycle smallBoot_ok hrun hleft⟩,
    rfl, sharedObject_lifeCycle smallBoot_ok hrun (hleft.tail objectFreed_step)⟩

end Fos
