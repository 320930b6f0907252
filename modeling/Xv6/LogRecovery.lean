import Xv6.FileSystemLog

/-!
# The contents of the disk through commits and crashes

At every moment the disk determines one contents of the blocks outside the log:
where the header on the disk lists a block, the copy in the log counts, and
everywhere else the block itself.  `DiskHolds` says that this contents is that
of the transactions whose header has reached the disk.  Every block write of
`commit` and of `recover_from_log` keeps it, so it survives crashes.
-/

namespace Xv6

namespace FsLog

open DiskBlock LabelledRun
open Function (update update_of_ne update_self)

/-! ## Lists of writes -/

theorem applyWrites_snoc (writes : List Write) (write : Write) (contents : Nat → Data) :
    applyWrites (writes ++ [write]) contents =
      update (applyWrites writes contents) write.block write.data := by
  rw [applyWrites, List.foldl_append]
  rfl

theorem applyWrites_append (first second : List Write) (contents : Nat → Data) :
    applyWrites (first ++ second) contents = applyWrites second (applyWrites first contents) :=
  List.foldl_append

theorem applyWrites_of_untouched {writes : List Write} {block : Nat}
    (untouched : ∀ write ∈ writes, write.block ≠ block) (contents : Nat → Data) :
    applyWrites writes contents block = contents block := by
  induction writes using List.reverseRecOn with
  | nil => rfl
  | append_singleton writes write ih =>
    have notLast : block ≠ write.block := (untouched write (by simp)).symm
    rw [applyWrites_snoc, update_of_ne notLast]
    exact ih fun earlier member => untouched earlier (by simp [member])

theorem applyWrites_congr (writes : List Write) {first second : Nat → Data} {block : Nat}
    (same : first block = second block) :
    applyWrites writes first block = applyWrites writes second block := by
  induction writes using List.reverseRecOn with
  | nil => exact same
  | append_singleton writes write ih =>
    rw [applyWrites_snoc, applyWrites_snoc]
    by_cases last : block = write.block
    · rw [last, update_self, update_self]
    · rw [update_of_ne last, update_of_ne last, ih]

/-! ## The header block -/

theorem readHead_writeHead {blocks : List Nat} (short : blocks.length ≤ logSize)
    (addressable : ∀ block ∈ blocks, block < 2 ^ 32) (data : Data) :
    readHead (writeHead blocks data) = blocks := by
  have fits : 0 + (BitVec.ofNat 32 blocks.length :: blocks.map (BitVec.ofNat 32)).length ≤
      wordCount := by
    change blocks.length ≤ 30 at short
    change _ ≤ 128
    rw [List.length_cons, List.length_map]
    omega
  have count : (word (writeHead blocks data) 0).toInt.toNat = blocks.length := by
    have first := word_setWords data fits 0 (by simp)
    change blocks.length ≤ 30 at short
    have small : (BitVec.ofNat 32 blocks.length).toNat = blocks.length := by
      exact Nat.mod_eq_of_lt (by omega)
    rw [writeHead, first, List.getElem_cons_zero, BitVec.toInt_eq_toNat_of_lt (by omega), small]
    exact Int.toNat_natCast _
  apply List.ext_getElem
  · rw [readHead, List.length_map, List.length_range, count]
  · intro index left right
    have stored := word_setWords data fits (index + 1) (by simpa using right)
    rw [Nat.zero_add] at stored
    rw [← writeHead] at stored
    simp only [readHead, List.getElem_map, List.getElem_range, stored, List.getElem_cons_succ,
      BitVec.toNat_ofNat]
    exact Nat.mod_eq_of_lt (addressable _ (List.getElem_mem right))

/-! ## What the disk holds -/

/-- The disk holds `contents` outside the log: a block listed in the header is
found in the log, every other block at its home. -/
structure DiskHolds (layout : Layout) (contents disk : Nat → Data) : Prop where
  room : ∀ index, index < (readHead (disk layout.start)).length → index + 1 < layout.size
  home : ∀ block ∈ readHead (disk layout.start), ¬ layout.InLog block
  rest : ∀ block, ¬ layout.InLog block → block ∉ readHead (disk layout.start) →
    disk block = contents block
  logged : ∀ index block, (readHead (disk layout.start))[index]? = some block →
    disk (layout.start + index + 1) = contents block

/-- Memory and disk while no transaction is committed: the header is clear, the
blocks of the transaction are pinned in the cache, and the cache shows the
pending writes. -/
structure Ready (layout : Layout) (disk view : Nat → Data) (pinned : Nat → Prop)
    (lh : List Nat) (pending : List Write) : Prop where
  clear : readHead (disk layout.start) = []
  nodup : lh.Nodup
  short : lh.length ≤ logSize
  room : ∀ index, index < lh.length → index + 1 < layout.size
  home : ∀ block ∈ lh, ¬ layout.InLog block
  onDisk : ∀ block ∈ lh, block < layout.blocks
  pinned : ∀ block ∈ lh, pinned block
  covers : ∀ write ∈ pending, write.block ∈ lh
  current : ∀ block, view block = applyWrites pending disk block

/-- The first `tail` blocks of the transaction have been copied to the log. -/
def Copied (layout : Layout) (disk view : Nat → Data) (lh : List Nat) (tail : Nat) : Prop :=
  ∀ index block, index < tail → lh[index]? = some block →
    disk (layout.start + index + 1) = view block

/-- The first `tail` blocks of the transaction have been copied home. -/
def Installed (contents disk : Nat → Data) (lh : List Nat) (tail : Nat) : Prop :=
  ∀ index block, index < tail → lh[index]? = some block → disk block = contents block

/-- Memory and disk while a committed transaction is installed: the cache shows
the new contents, and the blocks still to be copied are pinned. -/
structure Installing (layout : Layout) (contents disk view : Nat → Data) (pinned : Nat → Prop)
    (lh : List Nat) (tail : Nat) : Prop where
  header : readHead (disk layout.start) = lh
  nodup : lh.Nodup
  installed : Installed contents disk lh tail
  pinned : ∀ index block, tail ≤ index → lh[index]? = some block → pinned block
  home : ∀ block, ¬ layout.InLog block → view block = contents block
  log : ∀ block, layout.InLog block → view block = disk block

theorem Layout.inLog_start (layout : Layout) : layout.InLog layout.start :=
  ⟨le_rfl, by have := layout.nonempty; omega⟩

theorem Layout.inLog_block {layout : Layout} {index : Nat} (room : index + 1 < layout.size) :
    layout.InLog (layout.start + index + 1) :=
  ⟨by omega, by omega⟩

theorem ne_of_not_inLog {layout : Layout} {home log : Nat} (outside : ¬ layout.InLog home)
    (inside : layout.InLog log) : home ≠ log := by
  rintro rfl
  exact outside inside

theorem Ready.addressable {layout : Layout} {disk view : Nat → Data} {pinned : Nat → Prop}
    {lh : List Nat} {pending : List Write} (ready : Ready layout disk view pinned lh pending) :
    ∀ block ∈ lh, block < 2 ^ 32 :=
  fun block member => lt_of_lt_of_le (ready.onDisk block member) layout.addressable

section Steps

variable {layout : Layout} {contents disk view : Nat → Data} {pinned : Nat → Prop}
  {lh : List Nat} {pending : List Write} {tail block : Nat}

theorem Ready.log_write (ready : Ready layout disk view pinned lh pending)
    (outside : ¬ layout.InLog block) (onDisk : block < layout.blocks)
    (short : lh.length < logSize) (room : lh.length + 1 < layout.size) (op : Nat) (data : Data) :
    Ready layout disk (update view block data)
      (fun other => other = block ∨ pinned other)
      (if block ∈ lh then lh else lh ++ [block]) (pending ++ [⟨op, block, data⟩]) := by
  have member_iff : ∀ other, other ∈ (if block ∈ lh then lh else lh ++ [block]) ↔
      other ∈ lh ∨ other = block := by
    intro other
    split
    · grind
    · rw [List.mem_append, List.mem_singleton]
  have length_le : (if block ∈ lh then lh else lh ++ [block]).length ≤ lh.length + 1 := by
    grind
  constructor
  · exact ready.clear
  · split
    · exact ready.nodup
    · rename_i fresh
      exact List.Nodup.append ready.nodup (List.nodup_singleton block)
        (List.disjoint_singleton.mpr fresh)
  · omega
  · intro index inside
    omega
  · intro other member
    rcases (member_iff other).mp member with old | rfl
    · exact ready.home other old
    · exact outside
  · intro other member
    rcases (member_iff other).mp member with old | rfl
    · exact ready.onDisk other old
    · exact onDisk
  · intro other member
    rcases (member_iff other).mp member with old | rfl
    · exact Or.inr (ready.pinned other old)
    · exact Or.inl rfl
  · intro write member
    rw [member_iff]
    rcases List.mem_append.mp member with old | new
    · exact Or.inl (ready.covers write old)
    · grind
  · intro other
    rw [applyWrites_snoc]
    by_cases same : other = block
    · rw [same, update_self, update_self]
    · rw [update_of_ne same, update_of_ne same]
      exact ready.current other

theorem DiskHolds.write_log (holds : DiskHolds layout contents disk)
    (clear : readHead (disk layout.start) = []) (room : tail + 1 < layout.size) (data : Data) :
    DiskHolds layout contents
      (update disk (layout.start + tail + 1) data) := by
  have header : update disk (layout.start + tail + 1) data layout.start =
      disk layout.start :=
    update_of_ne (by omega) _ _
  constructor
  · rw [header, clear]
    simp
  · rw [header, clear]
    simp
  · intro other outside notListed
    rw [update_of_ne (ne_of_not_inLog outside (Layout.inLog_block room))]
    rw [header] at notListed
    exact holds.rest other outside notListed
  · rw [header, clear]
    simp

theorem Ready.write_log (ready : Ready layout disk view pinned lh pending)
    (listed : lh[tail]? = some block) :
    Ready layout (update disk (layout.start + tail + 1) (view block))
      (update view (layout.start + tail + 1) (view block))
      (fun other => other ≠ layout.start + tail + 1 ∧ pinned other) lh pending := by
  have room := ready.room tail (List.getElem?_eq_some_iff.mp listed).1
  have target := Layout.inLog_block room
  refine { ready with clear := ?_, pinned := ?_, current := ?_ }
  · rw [update_of_ne (by omega)]
    exact ready.clear
  · intro other member
    exact ⟨ne_of_not_inLog (ready.home other member) target, ready.pinned other member⟩
  · intro other
    by_cases same : other = layout.start + tail + 1
    · subst same
      rw [update_self, applyWrites_of_untouched, update_self]
      intro write member
      exact ne_of_not_inLog (ready.home _ (ready.covers write member)) target
    · rw [update_of_ne same, ready.current other]
      exact applyWrites_congr pending (update_of_ne same _ _).symm

theorem Copied.write_log (copied : Copied layout disk view lh tail)
    (ready : Ready layout disk view pinned lh pending) (listed : lh[tail]? = some block) :
    Copied layout (update disk (layout.start + tail + 1) (view block))
      (update view (layout.start + tail + 1) (view block)) lh (tail + 1) := by
  have target := Layout.inLog_block (ready.room tail (List.getElem?_eq_some_iff.mp listed).1)
  intro index other before at_index
  have member : other ∈ lh := List.mem_of_getElem? at_index
  rw [update_of_ne (ne_of_not_inLog (ready.home other member) target)]
  by_cases last : index = tail
  · grind
  · rw [update_of_ne (by omega)]
    exact copied index other (by omega) at_index

theorem DiskHolds.write_head (holds : DiskHolds layout contents disk)
    (ready : Ready layout disk view pinned lh pending) (copied : Copied layout disk view lh tail)
    (finished : lh.length ≤ tail) (data : Data) :
    DiskHolds layout (applyWrites pending contents)
      (update disk layout.start (writeHead lh data)) := by
  have header : readHead (update disk layout.start (writeHead lh data) layout.start) =
      lh := by
    rw [update_self, readHead_writeHead ready.short ready.addressable]
  have old : ∀ other, ¬ layout.InLog other → disk other = contents other := by
    intro other outside
    apply holds.rest other outside
    rw [ready.clear]
    exact List.not_mem_nil
  constructor
  · rw [header]
    exact ready.room
  · rw [header]
    exact ready.home
  · intro other outside notListed
    rw [header] at notListed
    rw [update_of_ne (ne_of_not_inLog outside layout.inLog_start), old other outside,
      applyWrites_of_untouched]
    rintro write member rfl
    exact notListed (ready.covers write member)
  · intro index other at_index
    rw [header] at at_index
    have inside := (List.getElem?_eq_some_iff.mp at_index).1
    have outside := ready.home other (List.mem_of_getElem? at_index)
    rw [update_of_ne (by omega), copied index other (by omega) at_index,
      ready.current other]
    exact applyWrites_congr pending (old other outside)

theorem Ready.write_head (ready : Ready layout disk view pinned lh pending)
    (holds : DiskHolds layout contents disk) (data : Data) :
    Installing layout (applyWrites pending contents)
      (update disk layout.start (writeHead lh data))
      (update view layout.start (writeHead lh data))
      (fun other => other ≠ layout.start ∧ pinned other) lh 0 := by
  have start := layout.inLog_start
  constructor
  · rw [update_self, readHead_writeHead ready.short ready.addressable]
  · exact ready.nodup
  · intro index other before
    cases before
  · intro index other _ at_index
    have member := List.mem_of_getElem? at_index
    exact ⟨ne_of_not_inLog (ready.home other member) start, ready.pinned other member⟩
  · intro other outside
    rw [update_of_ne (ne_of_not_inLog outside start), ready.current other]
    apply applyWrites_congr
    apply holds.rest other outside
    rw [ready.clear]
    exact List.not_mem_nil
  · intro other inside
    by_cases same : other = layout.start
    · rw [same, update_self, update_self]
    · rw [update_of_ne same, update_of_ne same, ready.current other,
        applyWrites_of_untouched]
      intro write member
      exact ne_of_not_inLog (ready.home _ (ready.covers write member)) inside

/-- `install_trans` copies a block of the log to its home. -/
theorem DiskHolds.install (holds : DiskHolds layout contents disk)
    (header : readHead (disk layout.start) = lh) (listed : lh[tail]? = some block)
    (data : Data) : DiskHolds layout contents (update disk block data) := by
  have member : block ∈ readHead (disk layout.start) := by
    grind
  have outside := holds.home block member
  have sameHeader : update disk block data layout.start = disk layout.start :=
    update_of_ne (ne_of_not_inLog outside layout.inLog_start).symm _ _
  constructor
  · rw [sameHeader]
    exact holds.room
  · rw [sameHeader]
    exact holds.home
  · rw [sameHeader]
    intro other otherOutside notListed
    rw [update_of_ne (ne_of_mem_of_not_mem member notListed).symm]
    exact holds.rest other otherOutside notListed
  · rw [sameHeader]
    intro index other at_index
    have target := Layout.inLog_block
      (holds.room index (List.getElem?_eq_some_iff.mp at_index).1)
    rw [update_of_ne (ne_of_not_inLog outside target).symm]
    exact holds.logged index other at_index

theorem Installed.install (installed : Installed contents disk lh tail)
    (listed : lh[tail]? = some block) :
    Installed contents (update disk block (contents block)) lh (tail + 1) := by
  intro index other before at_index
  by_cases same : other = block
  · rw [same, update_self]
  · rw [update_of_ne same]
    apply installed index other _ at_index
    have notLast : index ≠ tail := by
      grind
    omega

theorem DiskHolds.log_block (holds : DiskHolds layout contents disk)
    (header : readHead (disk layout.start) = lh) (listed : lh[tail]? = some block) :
    layout.InLog (layout.start + tail + 1) ∧
      disk (layout.start + tail + 1) = contents block := by
  subst header
  exact ⟨Layout.inLog_block (holds.room tail (List.getElem?_eq_some_iff.mp listed).1),
    holds.logged tail block listed⟩

theorem Installing.install
    (installing : Installing layout contents disk view pinned lh tail)
    (holds : DiskHolds layout contents disk) (listed : lh[tail]? = some block) :
    Installing layout contents (update disk block (contents block))
      (update view block (contents block))
      (fun other => other ≠ block ∧ pinned other) lh (tail + 1) := by
  have outside : ¬ layout.InLog block := by
    apply holds.home
    rw [installing.header]
    exact List.mem_of_getElem? listed
  constructor
  · rw [update_of_ne (ne_of_not_inLog outside layout.inLog_start).symm]
    exact installing.header
  · exact installing.nodup
  · exact installing.installed.install listed
  · intro index other after at_index
    refine ⟨?_, installing.pinned index other (by omega) at_index⟩
    rintro rfl
    have inside := (List.getElem?_eq_some_iff.mp at_index).1
    have same := (List.getElem?_inj inside installing.nodup).mp (at_index.trans listed.symm)
    omega
  · intro other otherOutside
    by_cases same : other = block
    · rw [same, update_self]
    · rw [update_of_ne same]
      exact installing.home other otherOutside
  · intro other inside
    have different := (ne_of_not_inLog outside inside).symm
    rw [update_of_ne different, update_of_ne different]
    exact installing.log other inside

/-- The cache and the disk agree on a block that does not wait to be installed. -/
theorem Installing.view_eq (installing : Installing layout contents disk view pinned lh tail)
    (holds : DiskHolds layout contents disk)
    (copied : ∀ index, lh[index]? = some block → index < tail) : view block = disk block := by
  by_cases inside : layout.InLog block
  · exact installing.log block inside
  rw [installing.home block inside]
  by_cases listed : block ∈ lh
  · obtain ⟨index, at_index⟩ := List.getElem?_of_mem listed
    exact (installing.installed index block (copied index at_index) at_index).symm
  · rw [← installing.header] at listed
    exact (holds.rest block inside listed).symm

theorem DiskHolds.clear (holds : DiskHolds layout contents disk)
    (header : readHead (disk layout.start) = lh) (installed : Installed contents disk lh tail)
    (finished : lh.length ≤ tail) (data : Data) :
    DiskHolds layout contents (update disk layout.start (writeHead [] data)) := by
  have cleared : readHead (update disk layout.start (writeHead [] data) layout.start) =
      [] := by
    rw [update_self]
    exact readHead_writeHead (Nat.zero_le _) (by simp) data
  constructor
  · rw [cleared]
    simp
  · rw [cleared]
    simp
  · intro other outside _
    rw [update_of_ne (ne_of_not_inLog outside layout.inLog_start)]
    by_cases listed : other ∈ lh
    · obtain ⟨index, inside, rfl⟩ := List.getElem_of_mem listed
      exact installed index lh[index] (by omega) (List.getElem?_eq_getElem inside)
    · rw [← header] at listed
      exact holds.rest other outside listed
  · rw [cleared]
    simp

theorem ready_of_clear (data : Data)
    (same : ∀ other, other ≠ layout.start → view other = disk other) :
    Ready layout (update disk layout.start (writeHead [] data))
      (update view layout.start (writeHead [] data)) pinned [] [] := by
  refine ⟨?_, List.nodup_nil, Nat.zero_le _, by simp, by simp, by simp, by simp, by simp, ?_⟩
  · rw [update_self]
    exact readHead_writeHead (Nat.zero_le _) (by simp) data
  · intro other
    by_cases start : other = layout.start
    · rw [start, update_self]
      change _ = update disk layout.start _ layout.start
      rw [update_self]
    · rw [update_of_ne start]
      change _ = update disk layout.start _ other
      rw [update_of_ne start]
      exact same other start

end Steps

/-! ## The invariant -/

namespace LogState

/-- The contents after the transactions whose header has reached the disk. -/
def contents (init : Nat → Data) (state : LogState) : Nat → Data :=
  applyWrites state.committed.flatten init

/-- What holds in a phase, when the cache shows `view` and pins the blocks in
`pinned`. -/
def Stage (layout : Layout) (init : Nat → Data) (state : LogState) (view : Nat → Data)
    (pinned : Nat → Prop) : Phase → Prop
  | .idle => Ready layout state.disk view pinned state.lh state.pending
  | .writeLog tail =>
    Ready layout state.disk view pinned state.lh state.pending ∧
      Copied layout state.disk view state.lh tail ∧
        (state.lh ≠ [] → state.attempted = state.committed ++ [state.pending])
  | .install tail =>
    Installing layout (state.contents init) state.disk view pinned state.lh tail ∧
      state.pending = []
  | .crashed => view = state.disk ∧ state.pending = []
  | .recover tail =>
    readHead (state.disk layout.start) = state.lh ∧
      Installed (state.contents init) state.disk state.lh tail ∧
        view = state.disk ∧ state.pending = []

/-- Whatever happens, the disk holds the contents after the committed
transactions. -/
structure Sound (layout : Layout) (init : Nat → Data) (state : LogState) : Prop where
  count : state.outstanding = state.active.length
  quiet : state.phase ≠ .idle → state.active = []
  started : state.committed <+: state.attempted
  holds : DiskHolds layout (state.contents init) state.disk
  stage : state.Stage layout init state.view state.Pinned state.phase

theorem sound_boot {layout : Layout} {init disk : Nat → Data}
    (holds : DiskHolds layout init disk) : (boot disk).Sound layout init where
  count := rfl
  quiet _ := rfl
  started := List.prefix_rfl
  holds := holds
  stage := ⟨rfl, rfl⟩

section Phases

variable {layout : Layout} {init : Nat → Data} {state : LogState} {op tail block : Nat}
  {data : Data} {cache : Nat → Option Buf}

theorem Sound.stage_of_phase (sound : state.Sound layout init) {phase : Phase}
    (at_phase : state.phase = phase) :
    state.Stage layout init state.view state.Pinned phase := by
  rw [← at_phase]
  exact sound.stage

theorem Sound.idle_of_active (sound : state.Sound layout init) (running : op ∈ state.active) :
    state.phase = .idle := by
  by_contra busy
  rw [sound.quiet busy] at running
  exact List.not_mem_nil running

theorem Sound.warm (sound : state.Sound layout init) (warm : state.Warm cache) :
    { state with cache := cache }.Sound layout init := by
  refine { sound with stage := ?_ }
  have pinned : { state with cache := cache }.Pinned = state.Pinned :=
    funext fun block => propext (warm.pinned block)
  rw [warm.view, pinned]
  exact sound.stage

/-- A clean buffer shows what the disk holds. -/
theorem Sound.view_of_not_pinned (sound : state.Sound layout init)
    (clean : ¬ state.Pinned block) : state.view block = state.disk block := by
  cases phase : state.phase with
  | idle =>
    have ready : Ready _ _ _ _ _ _ := sound.stage_of_phase phase
    rw [ready.current, applyWrites_of_untouched]
    rintro write member rfl
    exact clean (ready.pinned _ (ready.covers write member))
  | writeLog tail =>
    have ready : Ready _ _ _ _ _ _ := (sound.stage_of_phase phase).1
    rw [ready.current, applyWrites_of_untouched]
    rintro write member rfl
    exact clean (ready.pinned _ (ready.covers write member))
  | install tail =>
    have installing : Installing _ _ _ _ _ _ _ := (sound.stage_of_phase phase).1
    apply installing.view_eq sound.holds
    intro index at_index
    by_contra later
    exact clean (installing.pinned index block (by omega) at_index)
  | crashed =>
    have same : state.view = state.disk := (sound.stage_of_phase phase).1
    rw [same]
  | recover tail =>
    have same : state.view = state.disk := (sound.stage_of_phase phase).2.2.1
    rw [same]

theorem Sound.warm_evict (sound : state.Sound layout init)
    (clean : state.cache block = some ⟨data, false⟩) :
    state.Warm (update state.cache block none) := by
  have notPinned : ¬ state.Pinned block := by
    rintro ⟨buf, cached, dirty⟩
    rw [clean] at cached
    cases cached
    cases dirty
  constructor
  · funext other
    by_cases same : other = block
    · subst same
      rw [sound.view_of_not_pinned notPinned]
      simp [view]
    · simp [view, same]
  · grind [Pinned]

/-! ## The steps keep the invariant -/

theorem contents_commit (init : Nat → Data) (state next : LogState)
    (commits : next.committed = state.committed ++ [state.pending]) :
    next.contents init = applyWrites state.pending (state.contents init) := by
  rw [contents, commits, List.flatten_append, applyWrites_append]
  simp only [List.flatten_cons, List.flatten_nil, List.append_nil]
  rfl

theorem pinned_bwrite_eq (state : LogState) (block : Nat) (data : Data) :
    (state.bwrite block data).Pinned = fun other => other ≠ block ∧ state.Pinned other :=
  funext fun other => propext (state.pinned_bwrite block other data)

theorem Sound.beginOp (sound : state.Sound layout init) (idle : state.phase = .idle) :
    state.beginOp.Sound layout init where
  count := congrArg (· + 1) sound.count
  quiet busy := absurd idle busy
  started := sound.started
  holds := sound.holds
  stage := sound.stage

theorem Sound.logWrite (sound : state.Sound layout init) (running : op ∈ state.active)
    (outside : ¬ layout.InLog block) (onDisk : block < layout.blocks)
    (fits : ¬ state.TooBig layout) (data : Data) :
    (state.logWrite op block data).Sound layout init := by
  have idle := sound.idle_of_active running
  have ready : Ready _ _ _ _ _ _ := sound.stage_of_phase idle
  have room : state.lh.length < logSize ∧ state.lh.length + 1 < layout.size := by
    simpa [TooBig] using fits
  have shown : (state.logWrite op block data).view = update state.view block data := by
    funext other
    by_cases same : other = block
    · subst same
      simp [view, LogState.logWrite]
    · simp [view, LogState.logWrite, same]
  have pinned : (state.logWrite op block data).Pinned =
      fun other => other = block ∨ state.Pinned other := by
    funext other
    by_cases same : other = block
    · subst same
      simp [Pinned, LogState.logWrite]
    · simp [Pinned, LogState.logWrite, same]
  refine ⟨sound.count, sound.quiet, sound.started, sound.holds, ?_⟩
  change Stage _ _ _ _ _ state.phase
  rw [idle, shown, pinned]
  exact ready.log_write outside onDisk room.1 room.2 op data

theorem Sound.endOp (sound : state.Sound layout init) (running : op ∈ state.active)
    (idle : state.phase = .idle) : (state.endOp op).Sound layout init := by
  have ready : Ready _ _ _ _ _ _ := sound.stage_of_phase idle
  have remaining : state.outstanding - 1 = (state.active.erase op).length := by
    rw [sound.count, List.length_erase_of_mem running]
  by_cases last : state.outstanding - 1 = 0
  · refine ⟨remaining, fun _ => ?_, ?_, sound.holds, ?_⟩
    · exact List.length_eq_zero_iff.mp (remaining.symm.trans last)
    · simp only [LogState.endOp]
      split
      · exact List.prefix_append _ _
      · exact sound.started
    · have phase : (state.endOp op).phase = .writeLog 0 := if_pos last
      rw [phase]
      refine ⟨ready, fun index block before => absurd before (Nat.not_lt_zero _), ?_⟩
      intro nonempty
      exact if_pos ⟨last, nonempty⟩
  · have phase : (state.endOp op).phase = .idle := (if_neg last).trans idle
    refine ⟨remaining, fun busy => absurd phase busy, ?_, sound.holds, ?_⟩
    · simp only [LogState.endOp, last, false_and, if_false]
      exact sound.started
    · rw [phase]
      exact ready

theorem Sound.writeLog (sound : state.Sound layout init) (phase : state.phase = .writeLog tail)
    (listed : state.lh[tail]? = some block) :
    { state.bwrite (layout.start + tail + 1) (state.view block) with
      phase := .writeLog (tail + 1) }.Sound layout init := by
  obtain ⟨ready, copied, attempts⟩ := sound.stage_of_phase phase
  have room := ready.room tail (List.getElem?_eq_some_iff.mp listed).1
  refine ⟨sound.count, fun _ => sound.quiet (by rw [phase]; exact Phase.noConfusion),
    sound.started, sound.holds.write_log ready.clear room _, ?_⟩
  change Stage _ _ _ (bwrite _ _ _).view (bwrite _ _ _).Pinned _
  rw [view_bwrite, pinned_bwrite_eq]
  exact ⟨ready.write_log listed, copied.write_log ready listed, attempts⟩

theorem Sound.nothing (sound : state.Sound layout init) (phase : state.phase = .writeLog tail) :
    { state with phase := .idle }.Sound layout init where
  count := sound.count
  quiet busy := absurd rfl busy
  started := sound.started
  holds := sound.holds
  stage := (sound.stage_of_phase phase).1

theorem Sound.writeHead (sound : state.Sound layout init) (phase : state.phase = .writeLog tail)
    (finished : state.lh.length ≤ tail) (nonempty : state.lh ≠ []) :
    { state.bwrite layout.start (FsLog.writeHead state.lh (state.view layout.start)) with
      phase := .install 0
      pending := []
      committed := state.committed ++ [state.pending] }.Sound layout init := by
  obtain ⟨ready, copied, attempts⟩ := sound.stage_of_phase phase
  constructor
  · exact sound.count
  · intro _
    exact sound.quiet (by rw [phase]; exact Phase.noConfusion)
  · change state.committed ++ [state.pending] <+: state.attempted
    rw [attempts nonempty]
  · rw [contents_commit init state _ rfl]
    exact sound.holds.write_head ready copied finished _
  · change Stage _ _ _ (bwrite _ _ _).view (bwrite _ _ _).Pinned _
    rw [view_bwrite, pinned_bwrite_eq]
    refine ⟨?_, rfl⟩
    rw [contents_commit init state _ rfl]
    exact ready.write_head sound.holds _

theorem Sound.install (sound : state.Sound layout init) (phase : state.phase = .install tail)
    (listed : state.lh[tail]? = some block) :
    { state.bwrite block (state.view (layout.start + tail + 1)) with
      phase := .install (tail + 1) }.Sound layout init := by
  obtain ⟨installing, settled⟩ := sound.stage_of_phase phase
  obtain ⟨inside, logged⟩ := sound.holds.log_block installing.header listed
  rw [installing.log _ inside, logged]
  refine ⟨sound.count, fun _ => sound.quiet (by rw [phase]; exact Phase.noConfusion),
    sound.started, sound.holds.install installing.header listed _, ?_⟩
  change Stage _ _ _ (bwrite _ _ _).view (bwrite _ _ _).Pinned _
  rw [view_bwrite, pinned_bwrite_eq]
  exact ⟨installing.install sound.holds listed, settled⟩

theorem Sound.clear (sound : state.Sound layout init) (phase : state.phase = .install tail)
    (finished : state.lh.length ≤ tail) :
    { state.bwrite layout.start (FsLog.writeHead [] (state.view layout.start)) with
      lh := []
      phase := .idle }.Sound layout init := by
  obtain ⟨installing, settled⟩ := sound.stage_of_phase phase
  have shown : ∀ other, other ≠ layout.start → state.view other = state.disk other := by
    intro other _
    apply installing.view_eq sound.holds
    intro index at_index
    exact lt_of_lt_of_le (List.getElem?_eq_some_iff.mp at_index).1 finished
  refine ⟨sound.count, fun busy => absurd rfl busy, sound.started,
    sound.holds.clear installing.header installing.installed finished _, ?_⟩
  change Stage _ _ _ (bwrite _ _ _).view _ _
  rw [view_bwrite]
  change Ready _ _ _ _ _ state.pending
  rw [settled]
  exact ready_of_clear _ shown

theorem Sound.crash (sound : state.Sound layout init) : state.crash.Sound layout init where
  count := rfl
  quiet _ := rfl
  started := sound.started
  holds := sound.holds
  stage := ⟨rfl, rfl⟩

theorem Sound.readHead (sound : state.Sound layout init) (phase : state.phase = .crashed) :
    { state with
      lh := FsLog.readHead (state.view layout.start)
      phase := .recover 0 }.Sound layout init := by
  obtain ⟨shown, settled⟩ := sound.stage_of_phase phase
  refine ⟨sound.count, fun _ => sound.quiet (by rw [phase]; exact Phase.noConfusion),
    sound.started, sound.holds, ?_⟩
  refine ⟨by rw [shown], fun index block before => absurd before (Nat.not_lt_zero _), ?_⟩
  exact ⟨shown, settled⟩

theorem Sound.recover (sound : state.Sound layout init) (phase : state.phase = .recover tail)
    (listed : state.lh[tail]? = some block) :
    { state.bwrite block (state.view (layout.start + tail + 1)) with
      phase := .recover (tail + 1) }.Sound layout init := by
  obtain ⟨header, installed, shown, settled⟩ := sound.stage_of_phase phase
  obtain ⟨inside, logged⟩ := sound.holds.log_block header listed
  have holds := sound.holds.install header listed (state.contents init block)
  have outside : ¬ layout.InLog block := by
    apply sound.holds.home
    rw [header]
    exact List.mem_of_getElem? listed
  rw [shown, logged]
  refine ⟨sound.count, fun _ => sound.quiet (by rw [phase]; exact Phase.noConfusion),
    sound.started, holds, ?_⟩
  change Stage _ _ _ (bwrite _ _ _).view _ _
  rw [view_bwrite]
  refine ⟨?_, installed.install listed, by rw [shown]; rfl, settled⟩
  change FsLog.readHead (update state.disk block _ layout.start) = state.lh
  rw [update_of_ne (ne_of_not_inLog outside layout.inLog_start).symm, header]

theorem Sound.recovered (sound : state.Sound layout init) (phase : state.phase = .recover tail)
    (finished : state.lh.length ≤ tail) :
    { state.bwrite layout.start (FsLog.writeHead [] (state.view layout.start)) with
      lh := []
      phase := .idle }.Sound layout init := by
  obtain ⟨header, installed, shown, settled⟩ := sound.stage_of_phase phase
  refine ⟨sound.count, fun busy => absurd rfl busy, sound.started,
    sound.holds.clear header installed finished _, ?_⟩
  change Stage _ _ _ (bwrite _ _ _).view _ _
  rw [view_bwrite]
  change Ready _ _ _ _ _ state.pending
  rw [settled]
  exact ready_of_clear _ fun other _ => by rw [shown]

theorem Effect.sound {label : Label} {next : LogState} (effect : Effect layout state label next)
    (sound : state.Sound layout init) : next.Sound layout init := by
  cases effect with
  | beginOp idle room => exact sound.beginOp idle
  | logWrite running outside onDisk fits => exact sound.logWrite running outside onDisk fits _
  | endOp running idle => exact sound.endOp running idle
  | writeLog phase listed => exact sound.writeLog phase listed
  | nothing phase empty => exact sound.nothing phase
  | writeHead phase finished nonempty => exact sound.writeHead phase finished nonempty
  | install phase listed => exact sound.install phase listed
  | clear phase finished => exact sound.clear phase finished
  | fetch => exact sound
  | evict clean => exact sound.warm (sound.warm_evict clean)
  | crash => exact sound.crash
  | readHead phase => exact sound.readHead phase
  | recover phase listed => exact sound.recover phase listed
  | recovered phase finished => exact sound.recovered phase finished

theorem Sound.step {label : Label} {next : LogState} (sound : state.Sound layout init)
    (edge : state.step layout label = some next) : next.Sound layout init := by
  obtain ⟨cache, warm, effect⟩ := effect_of_step edge
  exact effect.sound (sound.warm warm)

end Phases

end LogState

end FsLog

end Xv6
