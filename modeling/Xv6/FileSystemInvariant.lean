import Xv6.InodeContents

/-!
# Well-formed file systems

The bitmap agrees with the addresses of the allocated inodes, the blocks up to the
size of every allocated inode have addresses, and the inode cache agrees with the
inodes on the disk.  Every operation on inodes that completes keeps this.  Reading
an inode therefore never allocates a block, and no block is freed twice.
-/

namespace Xv6

namespace Fs

open DiskBlock LabelledRun OwnershipTable
open Function (update update_eq_self update_idem update_of_ne update_self)

structure WellFormed (sb : SuperBlock) (state : State) : Prop where
  owns : Owns sb state.block state.dinode
  full : ∀ inum bn, (state.dinode inum).type ≠ .free → bn * bsize < (state.dinode inum).size →
    refs state.block state.dinode (inum, blockSlot bn) ≠ 0
  small : ∀ inum, (state.dinode inum).type ≠ .free → (state.dinode inum).size ≤ maxfile * bsize
  coherent : ∀ inum entry, state.icache inum = some entry → entry.valid = true →
    entry.copy = state.dinode inum ∧ (state.dinode inum).type ≠ .free

def Locked (state : State) (inum : Nat) : Prop :=
  ∃ entry, state.icache inum = some entry ∧ entry.valid = true ∧
    entry.copy = state.dinode inum ∧ (state.dinode inum).type ≠ .free

section Operations

variable {sb : SuperBlock} {devsw : Nat → Device} {state next : State} {inum off : Nat}
  {ip ip' : Inode} {src : List UInt8}

theorem nodes_self (state : State) (inum : Nat) :
    state.nodes inum (state.dinode inum) = state.dinode :=
  update_eq_self _ _

theorem WellFormed.setEntry (wellFormed : WellFormed sb state) {entry : Option Entry}
    (agrees : ∀ stored, entry = some stored → stored.valid = true →
      stored.copy = state.dinode inum ∧ (state.dinode inum).type ≠ .free) :
    WellFormed sb (state.setEntry inum entry) := by
  refine { wellFormed with coherent := ?_ }
  intro other stored cached valid
  change update state.icache inum entry other = some stored at cached
  by_cases same : other = inum
  · subst same
    rw [update_self] at cached
    exact agrees stored cached valid
  · rw [update_of_ne same] at cached
    exact wellFormed.coherent other stored cached valid

theorem WellFormed.iget (wellFormed : WellFormed sb state)
    (got : iget sb inum state = .ok next) : WellFormed sb next := by
  unfold Fs.iget at got
  split at got
  · rename_i entry cached
    cases got
    apply wellFormed.setEntry
    rintro stored ⟨⟩ valid
    exact wellFormed.coherent inum entry cached valid
  · split at got
    · cases got
    · cases got
      apply wellFormed.setEntry
      rintro stored ⟨⟩ valid
      cases valid

theorem WellFormed.iupdate (wellFormed : WellFormed sb state) {block : Nat → Data}
    (owns : Owns sb block (update state.dinode inum ip))
    (keeps : ∀ key, key.1 ≠ inum → refs state.block state.dinode key ≠ 0 →
      refs block (update state.dinode inum ip) key = refs state.block state.dinode key)
    (full : ip.type ≠ .free → ∀ bn, bn * bsize < ip.size →
      refs block (update state.dinode inum ip) (inum, blockSlot bn) ≠ 0)
    (small : ip.type ≠ .free → ip.size ≤ maxfile * bsize) {icache : Nat → Option Entry}
    (others : ∀ other, other ≠ inum → icache other = state.icache other)
    (agrees : ∀ entry, icache inum = some entry → entry.valid = true →
      entry.copy = ip ∧ ip.type ≠ .free) :
    WellFormed sb ⟨block, update state.dinode inum ip, icache⟩ := by
  refine ⟨owns, ?_, ?_, ?_⟩ <;> dsimp only
  · intro other bn live inside
    by_cases same : other = inum
    · grind
    · rw [update_of_ne same] at live inside
      have present := wellFormed.full other bn live inside
      rwa [keeps _ same present]
  · intro other live
    by_cases same : other = inum
    · grind
    · rw [update_of_ne same] at live ⊢
      exact wellFormed.small other live
  · intro other entry cached valid
    by_cases same : other = inum
    · grind
    · rw [update_of_ne same]
      exact wellFormed.coherent other entry (by rw [← others other same]; exact cached) valid

theorem WellFormed.ialloc {type : FileType} (wellFormed : WellFormed sb state)
    (allocated : ialloc sb type state = .ok (inum, next)) : WellFormed sb next := by
  unfold Fs.ialloc at allocated
  split at allocated
  · rename_i found search
    obtain ⟨middle, got, result⟩ := bind_eq_ok.mp allocated
    cases result
    have free : (state.dinode inum).type = .free := by
      simpa using List.find?_some search
    refine WellFormed.iget ?_ got
    have sameRefs : refs state.block
        (update state.dinode inum { Inode.zero with type := type }) =
          refs state.block state.dinode := by
      funext ⟨other, slot⟩
      by_cases same : other = inum
      · subst same
        have before : refs state.block state.dinode (other, slot) = 0 := if_pos free
        rw [before]
        simp only [refs, update_self]
        split
        · rfl
        · cases slot <;> simp [addrAt, Inode.zero]
      · exact refs_node_other same
    refine wellFormed.iupdate ?_ ?_ ?_ ?_ (fun _ _ => rfl) ?_
    · exact wellFormed.owns.congr (fun _ _ => Iff.rfl) sb.nmeta_le sameRefs
    · intro key _ _
      rw [sameRefs]
    · intro _ bn inside
      cases inside
    · intro _
      exact Nat.zero_le _
    · intro entry cached valid
      exact absurd free (wellFormed.coherent inum entry cached valid).2
  · cases allocated

/-- `ilock` returns the inode as it is on the disk. -/
theorem WellFormed.ilock (wellFormed : WellFormed sb state)
    (locked : ilock inum state = .ok (ip, next)) :
    WellFormed sb next ∧ Locked next inum ∧ ip = next.dinode inum ∧
      next.block = state.block ∧ next.dinode = state.dinode := by
  unfold Fs.ilock at locked
  split at locked
  · cases locked
  · rename_i entry cached
    split at locked
    · rename_i valid
      cases locked
      obtain ⟨same, live⟩ := wellFormed.coherent inum entry cached valid
      exact ⟨wellFormed, ⟨entry, cached, valid, same, live⟩, same, rfl, rfl⟩
    · dsimp only at locked
      split at locked
      · cases locked
      · rename_i live
        cases locked
        refine ⟨?_, ⟨_, update_self _ _ _, rfl, rfl, live⟩, rfl, rfl, rfl⟩
        apply wellFormed.setEntry
        rintro stored ⟨⟩ _
        exact ⟨rfl, live⟩

/-- The inode and its copy in memory are replaced by one with the same blocks. -/
theorem WellFormed.setFields (wellFormed : WellFormed sb state) (locked : Locked state inum)
    (type : ip.type = (state.dinode inum).type) (size : ip.size = (state.dinode inum).size)
    (addrs : ip.addrs = (state.dinode inum).addrs) :
    WellFormed sb ((state.iupdate inum ip).setCopy inum ip) := by
  obtain ⟨entry, cached, valid, _, live⟩ := locked
  have sameRefs : refs state.block (update state.dinode inum ip) =
      refs state.block state.dinode := by
    rw [refs_node_congr type addrs]
    exact congrArg (refs state.block) (nodes_self state inum)
  refine wellFormed.iupdate ?_ ?_ ?_ ?_ ?_ ?_
  · exact wellFormed.owns.congr (fun _ _ => Iff.rfl) sb.nmeta_le sameRefs
  · intro key _ _
    exact congrFun sameRefs key
  · intro _ bn inside
    change refs state.block _ _ ≠ 0
    rw [sameRefs]
    rw [size] at inside
    exact wellFormed.full inum bn live inside
  · intro _
    rw [size]
    exact wellFormed.small inum live
  · intro other different
    exact update_of_ne different _ _
  · simp_all

theorem WellFormed.setCopy_self (wellFormed : WellFormed sb state) (locked : Locked state inum) :
    WellFormed sb (state.setCopy inum (state.dinode inum)) := by
  have same := wellFormed.setFields locked rfl rfl rfl
  have unchanged : state.iupdate inum (state.dinode inum) = state := by
    rw [State.iupdate, update_eq_self]
  rwa [unchanged] at same

/-! ## Writing -/

/-- The blocks up to the size of the inode have addresses. -/
theorem WellFormed.covered (wellFormed : WellFormed sb state)
    (live : (state.dinode inum).type ≠ .free)
    {pos : Nat} (inside : pos < (state.dinode inum).size) :
    refs state.block state.dinode (inum, blockSlot (pos / bsize)) ≠ 0 := by
  apply wellFormed.full inum (pos / bsize) live
  have := Nat.div_mul_le_self pos bsize
  omega

theorem refs_dinode (state : State) (inum : Nat) :
    state.refs inum (state.dinode inum) = refs state.block state.dinode := by
  rw [State.refs, nodes_self]

/-- Bytes were stored in the inode, and its size was adjusted to them. -/
theorem WellFormed.wrote (wellFormed : WellFormed sb state) (locked : Locked state inum)
    (wrote : Wrote sb inum off src (state.dinode inum) state ip next) {size : Nat}
    (limit : size ≤ maxfile * bsize)
    (inRange : ∀ pos < size, pos < (state.dinode inum).size ∨
      (off ≤ pos ∧ pos < off + src.length)) :
    WellFormed sb ((next.iupdate inum { ip with size := size }).setCopy inum
      { ip with size := size }) := by
  obtain ⟨entry, cached, valid, _, live⟩ := locked
  have sameRefs : refs next.block (update state.dinode inum { ip with size := size }) =
      next.refs inum ip := by
    rw [State.refs, State.nodes, wrote.dinode]
    exact refs_node_congr rfl rfl
  have keeps : ∀ key, refs state.block state.dinode key ≠ 0 →
      next.refs inum ip key = refs state.block state.dinode key := by
    intro key present
    have kept := wrote.keeps key
    rw [refs_dinode] at kept
    exact kept present
  have shape : (next.iupdate inum { ip with size := size }).setCopy inum { ip with size := size } =
      ⟨next.block, update state.dinode inum { ip with size := size },
        update state.icache inum
          (some { entry with copy := { ip with size := size } })⟩ := by
    simp only [State.setCopy, State.iupdate, wrote.dinode, wrote.icache, cached, Option.map_some]
  rw [shape]
  refine wellFormed.iupdate ?_ ?_ ?_ (fun _ => limit) ?_ ?_
  · exact wrote.owns.congr (fun _ _ => Iff.rfl) sb.nmeta_le sameRefs
  · simp_all
  · intro _ bn inside
    rw [sameRefs]
    rcases inRange (bn * bsize) inside with old | ⟨above, below⟩
    · have present := wellFormed.full inum bn live old
      rwa [keeps _ present]
    · have new := wrote.covered (bn * bsize - off) (by omega)
      rwa [Nat.add_sub_cancel' above, Nat.mul_div_cancel _ (by decide)] at new
  · grind
  · intro stored isStored _
    rw [update_self] at isStored
    cases isStored
    refine ⟨rfl, ?_⟩
    rwa [wrote.type_eq]

/-- What `writei` does once its checks have passed. -/
theorem writei_stores {result : Int} (wellFormed : WellFormed sb state)
    (live : (state.dinode inum).type ≠ .free) (notDevice : (state.dinode inum).type ≠ .dev)
    (start : off ≤ (state.dinode inum).size)
    (noWrap : ¬ (off + src.length) % 2 ^ 32 < off)
    (inRange : ¬ maxfile * bsize < (off + src.length) % 2 ^ 32)
    (wrote : writei sb devsw inum (state.dinode inum) off src state = .ok (result, ip, next)) :
    ∃ ip₁ middle, Wrote sb inum off src (state.dinode inum) state ip₁ middle ∧
      result = src.length ∧
      ip = { ip₁ with size := max (state.dinode inum).size (off + src.length) } ∧
      next = middle.iupdate inum ip ∧ ip.size ≤ maxfile * bsize := by
  have owns : Owns sb state.block (state.nodes inum (state.dinode inum)) := by
    rw [nodes_self]
    exact wellFormed.owns
  have small := wellFormed.small inum live
  rw [writei, if_neg notDevice, if_neg (by omega), if_neg inRange] at wrote
  obtain ⟨⟨off', ip₁, middle⟩, loops, rest⟩ := bind_eq_ok.mp wrote
  obtain ⟨stores, total, limit⟩ := writeiLoop_wrote owns live le_rfl loops
  have sameSize : ip₁.size = (state.dinode inum).size := by rw [stores.fields]
  refine ⟨ip₁, middle, stores, ?_⟩
  dsimp only at rest
  split at rest
  · grind
  · rename_i stays
    cases rest
    have within : off + src.length ≤ (state.dinode inum).size := by
      grind
    have same : ip = state.dinode inum := by
      refine writeiLoop_inplace owns live le_rfl ?_ loops
      intro k inside
      rw [refs_dinode]
      exact wellFormed.covered live (by omega)
    rw [max_eq_left within, same]
    refine ⟨rfl, rfl, ?_, small⟩
    rw [State.iupdate, stores.dinode, update_eq_self, ← stores.dinode]

/-- `writei` changes nothing when one of its checks fails. -/
theorem writei_refuses {result : Int}
    (refused : ip.type = .dev ∨ ip.size < off ∨ (off + src.length) % 2 ^ 32 < off ∨
      maxfile * bsize < (off + src.length) % 2 ^ 32)
    (wrote : writei sb devsw inum ip off src state = .ok (result, ip', next)) :
    ip' = ip ∧ next = state := by
  grind [writei]

theorem WellFormed.writei {result : Int} (wellFormed : WellFormed sb state)
    (locked : Locked state inum)
    (wrote : writei sb devsw inum (state.dinode inum) off src state = .ok (result, ip, next)) :
    WellFormed sb (next.setCopy inum ip) := by
  have live : (state.dinode inum).type ≠ .free := by
    obtain ⟨_, _, _, _, live⟩ := locked
    exact live
  by_cases refused : (state.dinode inum).type = .dev ∨ (state.dinode inum).size < off ∨
      (off + src.length) % 2 ^ 32 < off ∨ maxfile * bsize < (off + src.length) % 2 ^ 32
  · obtain ⟨rfl, rfl⟩ := writei_refuses refused wrote
    exact wellFormed.setCopy_self locked
  · simp only [not_or] at refused
    obtain ⟨notDevice, start, noWrap, inRange⟩ := refused
    obtain ⟨ip₁, middle, stores, _, rfl, rfl, limit⟩ :=
      writei_stores wellFormed live notDevice (by omega) noWrap inRange wrote
    refine wellFormed.wrote locked stores limit ?_
    intro pos inside
    omega

/-! ## Giving up references -/

theorem WellFormed.dropRef (wellFormed : WellFormed sb state) {entry : Entry}
    (cached : state.icache inum = some entry) : WellFormed sb (state.dropRef inum entry) := by
  apply wellFormed.setEntry
  intro stored isStored valid
  split at isStored
  · cases isStored
  · cases isStored
    exact wellFormed.coherent inum entry cached valid

theorem WellFormed.free (wellFormed : WellFormed sb state) (live : ip.type ≠ .free)
    (only : OnlyBitmap sb state next) (owns : Owns sb next.block (next.nodes inum ip))
    (empty : ∀ slot, addrAt next.block ip slot = 0) :
    WellFormed sb ((next.iupdate inum { ip with type := .free }).setEntry inum none) := by
  have sameRefs : refs next.block (update state.dinode inum { ip with type := .free }) =
      refs next.block (next.nodes inum ip) := by
    funext ⟨other, slot⟩
    rw [State.nodes, only.dinode]
    by_cases same : other = inum
    · subst same
      rw [refs_node_self live, empty, refs, update_self]
      exact if_pos rfl
    · rw [refs_node_other same, refs_node_other same]
  have shape : (next.iupdate inum { ip with type := .free }).setEntry inum none =
      ⟨next.block, update state.dinode inum { ip with type := .free },
        update state.icache inum none⟩ := by
    simp only [State.setEntry, State.iupdate, only.dinode, only.icache]
  rw [shape]
  refine wellFormed.iupdate ?_ ?_ ?_ ?_ ?_ ?_
  · exact owns.congr (fun _ _ => Iff.rfl) sb.nmeta_le sameRefs
  · intro key different _
    rw [refs_node_other different]
    exact congrFun (only.refs fun other present => (wellFormed.owns.inside _ present).1) key
  · intro free
    exact absurd rfl free
  · intro free
    exact absurd rfl free
  · grind
  · grind

/-- `iput` never meets a free block. -/
theorem WellFormed.exists_iput (wellFormed : WellFormed sb state) {entry : Entry}
    (cached : state.icache inum = some entry) :
    ∃ next, iput sb inum state = .ok next ∧ WellFormed sb next := by
  simp only [iput, cached]
  split
  · rename_i last
    obtain ⟨valid, _, one⟩ := last
    obtain ⟨same, live⟩ := wellFormed.coherent inum entry cached valid
    have owns : Owns sb state.block (state.nodes inum entry.copy) := by
      rw [same, nodes_self]
      exact wellFormed.owns
    rw [← same] at live
    obtain ⟨ip, middle, truncated, only, ownsAfter, fields, empty⟩ := exists_itrunc owns live
    have liveAfter : ip.type ≠ .free := by rwa [fields]
    refine ⟨(middle.iupdate inum { ip with type := .free }).setEntry inum none, ?_,
      wellFormed.free liveAfter only ownsAfter empty⟩
    rw [truncated]
    change Except.ok (State.dropRef _ _ _) = _
    simp only [State.dropRef, State.iupdate, State.setEntry, update_idem, one]
    rfl
  · exact ⟨_, rfl, wellFormed.dropRef cached⟩

theorem WellFormed.iput (wellFormed : WellFormed sb state) (put : iput sb inum state = .ok next) :
    WellFormed sb next := by
  cases cached : state.icache inum with
  | none =>
    simp only [Fs.iput, cached] at put
    cases put
  | some entry =>
    obtain ⟨result, completes, after⟩ := wellFormed.exists_iput cached
    obtain rfl := Except.ok.inj (completes.symm.trans put)
    exact after

/-! ## Reading -/

def fileBytes (state : State) (inum off n : Nat) : List UInt8 :=
  (List.range n).map fun k => byteAt state.block (refs state.block state.dinode) inum (off + k)

/-- `readi` copies the bytes up to the size of the inode and changes nothing. -/
theorem readi_eq {n : Nat} (wellFormed : WellFormed sb state)
    (live : (state.dinode inum).type ≠ .free) (notDevice : (state.dinode inum).type ≠ .dev)
    (start : off ≤ (state.dinode inum).size) (noWrap : off + n < 2 ^ 32) :
    readi sb devsw (state.dinode inum) off n state =
      .ok ((min n ((state.dinode inum).size - off) : Nat),
        fileBytes state inum off (min n ((state.dinode inum).size - off)),
        state.dinode inum, state) := by
  have wrapped : (off + n) % 2 ^ 32 = off + n := Nat.mod_eq_of_lt noWrap
  have count : (if (state.dinode inum).size < off + n then (state.dinode inum).size - off else n) =
      min n ((state.dinode inum).size - off) := by
    split <;> omega
  have loop := @readiLoop_eq sb inum off (state.dinode inum) state
    (min n ((state.dinode inum).size - off)) (min n ((state.dinode inum).size - off)) live le_rfl
    (by
      intro k inside
      rw [refs_dinode]
      exact wellFormed.covered live (by omega))
  rw [refs_dinode] at loop
  rw [readi, if_neg notDevice, wrapped, if_neg (by omega), count]
  dsimp only
  rw [loop]
  rfl

theorem readi_unchanged {n : Nat} (wellFormed : WellFormed sb state)
    (live : (state.dinode inum).type ≠ .free) (offSmall : off < 2 ^ 32) (nSmall : n < 2 ^ 32) :
    ∃ result copied, readi sb devsw (state.dinode inum) off n state =
      .ok (result, copied, state.dinode inum, state) := by
  by_cases device : (state.dinode inum).type = .dev
  · rw [readi, if_pos device]
    split
    · exact ⟨-1, [], rfl⟩
    · split
      · exact ⟨-1, [], rfl⟩
      · exact ⟨_, _, rfl⟩
  · by_cases refused : (state.dinode inum).size < off ∨ (off + n) % 2 ^ 32 < off
    · refine ⟨-1, [], ?_⟩
      rw [readi, if_neg device, if_pos refused]
    · refine ⟨_, _, readi_eq wellFormed live device (by omega) ?_⟩
      by_contra wraps
      omega

/-! ## Panics -/

def NoDoubleFree {α : Type} (result : Result α) : Prop :=
  result ≠ .error .freeingFreeBlock

theorem noDoubleFree_ok {α : Type} (value : α) : NoDoubleFree (.ok value : Result α) :=
  nofun

theorem NoDoubleFree.bind {α β : Type} {first : Result α} {rest : α → Result β}
    (safe : NoDoubleFree first) (later : ∀ value, first = .ok value → NoDoubleFree (rest value)) :
    NoDoubleFree (first >>= rest) := by
  cases first with
  | error panic => exact fun same => safe (congrArg Except.error (Except.error.inj same))
  | ok value => exact later value rfl

theorem noDoubleFree_balloc : NoDoubleFree (balloc sb state) := by
  unfold balloc
  split <;> exact nofun

theorem noDoubleFree_bmapAddr {index : Nat} : NoDoubleFree (bmapAddr sb ip index state) := by
  unfold bmapAddr
  split
  · exact noDoubleFree_balloc.bind fun _ _ => noDoubleFree_ok _
  · exact noDoubleFree_ok _

theorem noDoubleFree_bmap {bn : Nat} : NoDoubleFree (bmap sb ip bn state) := by
  unfold bmap
  split
  · exact noDoubleFree_bmapAddr.bind fun _ _ => noDoubleFree_ok _
  · split
    · apply noDoubleFree_bmapAddr.bind
      rintro ⟨ip, middle⟩ _
      dsimp only
      split
      · exact noDoubleFree_balloc.bind fun _ _ => noDoubleFree_ok _
      · exact noDoubleFree_ok _
    · exact nofun

theorem noDoubleFree_writeiLoop {fuel : Nat} :
    NoDoubleFree (writeiLoop sb fuel ip off src state) := by
  induction fuel generalizing ip off src state with
  | zero => exact noDoubleFree_ok _
  | succ fuel ih =>
    unfold writeiLoop
    split
    · exact noDoubleFree_ok _
    · exact noDoubleFree_bmap.bind fun _ _ => ih

theorem noDoubleFree_writei : NoDoubleFree (writei sb devsw inum ip off src state) := by
  unfold writei
  split
  · split
    · exact noDoubleFree_ok _
    · split <;> exact noDoubleFree_ok _
  split
  · exact noDoubleFree_ok _
  split
  · exact noDoubleFree_ok _
  apply noDoubleFree_writeiLoop.bind
  rintro ⟨off, ip, middle⟩ _
  dsimp only
  split <;> exact noDoubleFree_ok _

theorem noDoubleFree_iget : NoDoubleFree (iget sb inum state) := by
  unfold iget
  split
  · exact noDoubleFree_ok _
  · split <;> exact nofun

theorem noDoubleFree_ilock : NoDoubleFree (ilock inum state) := by
  unfold ilock
  split
  · exact nofun
  · split
    · exact noDoubleFree_ok _
    · dsimp only
      split <;> exact nofun

theorem WellFormed.noDoubleFree (wellFormed : WellFormed sb state) (op : Op) :
    NoDoubleFree (perform sb devsw state op) := by
  cases op with
  | ialloc type =>
    refine NoDoubleFree.bind ?_ fun _ _ => noDoubleFree_ok _
    unfold Fs.ialloc
    split
    · exact noDoubleFree_iget.bind fun _ _ => noDoubleFree_ok _
    · exact nofun
  | iget inum => exact noDoubleFree_iget
  | iupdate inum major minor nlink => exact noDoubleFree_ilock.bind fun _ _ => noDoubleFree_ok _
  | readi inum off n =>
    refine noDoubleFree_ilock.bind ?_
    rintro ⟨ip, middle⟩ locks
    obtain ⟨after, ⟨_, _, _, _, live⟩, rfl, _⟩ := wellFormed.ilock locks
    obtain ⟨result, copied, reads⟩ :=
      @readi_unchanged _ devsw _ _ _ _ after live off.toNat_lt n.toNat_lt
    dsimp only
    rw [reads]
    exact noDoubleFree_ok _
  | writei inum off src =>
    exact noDoubleFree_ilock.bind fun _ _ =>
      noDoubleFree_writei.bind fun _ _ => noDoubleFree_ok _
  | iput inum =>
    change NoDoubleFree (Fs.iput sb inum state)
    cases cached : state.icache inum with
    | none =>
      simp only [Fs.iput, cached]
      exact nofun
    | some entry =>
      obtain ⟨next, completes, _⟩ := wellFormed.exists_iput cached
      rw [completes]
      exact noDoubleFree_ok _

/-! ## Sequences of operations -/

/-- An operation that completes keeps the file system well formed. -/
theorem WellFormed.perform {op : Op} (wellFormed : WellFormed sb state)
    (performed : perform sb devsw state op = .ok next) : WellFormed sb next := by
  cases op with
  | ialloc type =>
    obtain ⟨⟨inum, middle⟩, allocated, result⟩ := bind_eq_ok.mp performed
    cases result
    exact wellFormed.ialloc allocated
  | iget inum => exact wellFormed.iget performed
  | iupdate inum major minor nlink =>
    obtain ⟨⟨ip, middle⟩, locks, result⟩ := bind_eq_ok.mp performed
    obtain ⟨after, locked, rfl, _⟩ := wellFormed.ilock locks
    cases result
    exact after.setFields locked rfl rfl rfl
  | readi inum off n =>
    obtain ⟨⟨ip, middle⟩, locks, rest⟩ := bind_eq_ok.mp performed
    obtain ⟨after, locked, rfl, _⟩ := wellFormed.ilock locks
    have live : (middle.dinode inum).type ≠ .free := by
      obtain ⟨_, _, _, _, live⟩ := locked
      exact live
    obtain ⟨result, copied, reads⟩ :=
      @readi_unchanged _ devsw _ _ _ _ after live off.toNat_lt n.toNat_lt
    dsimp only at rest
    rw [reads] at rest
    cases rest
    exact after.setCopy_self locked
  | writei inum off src =>
    obtain ⟨⟨ip, middle⟩, locks, rest⟩ := bind_eq_ok.mp performed
    obtain ⟨after, locked, rfl, _⟩ := wellFormed.ilock locks
    obtain ⟨⟨result, ip, last⟩, writes, rest⟩ := bind_eq_ok.mp rest
    cases rest
    exact after.writei locked writes
  | iput inum => exact wellFormed.iput performed

theorem WellFormed.step {op : Op} (wellFormed : WellFormed sb state)
    (edge : step sb devsw state op = some next) : WellFormed sb next := by
  apply wellFormed.perform
  cases result : Fs.perform sb devsw state op with
  | error panic =>
    rw [Fs.step, result] at edge
    cases edge
  | ok state =>
    rw [Fs.step, result] at edge
    cases edge
    rfl

end Operations

/-- In the inodes that can be locked, `readi` finds an address for every block it
needs and changes nothing. -/
def ReadsOnly (sb : SuperBlock) (devsw : Nat → Device) (state : State) : Prop :=
  ∀ inum ip locked (off n : UInt32), ilock inum state = .ok (ip, locked) →
    ∃ result copied, readi sb devsw ip off.toNat n.toNat locked = .ok (result, copied, ip, locked)

/-- In every sequence of completed operations from a well-formed image, the file
system stays well formed, reading never allocates, and no free block is freed. -/
theorem block_ownership_throughout (sb : SuperBlock) (devsw : Nat → Device) {image : State}
    (wellFormed : WellFormed sb image) {trace : List (State × Op)} {finish : State}
    (run : FsRun sb devsw image trace finish) :
    Throughout (fun state => WellFormed sb state ∧ ReadsOnly sb devsw state ∧
      ∀ op, perform sb devsw state op ≠ .error .freeingFreeBlock) trace finish := by
  have derive : ∀ state, WellFormed sb state → WellFormed sb state ∧ ReadsOnly sb devsw state ∧
      ∀ op, perform sb devsw state op ≠ .error .freeingFreeBlock := by
    intro state holds
    refine ⟨holds, ?_, holds.noDoubleFree⟩
    intro inum ip locked off n locks
    obtain ⟨after, ⟨_, _, _, _, live⟩, rfl, _⟩ := holds.ilock locks
    exact readi_unchanged after live off.toNat_lt n.toNat_lt
  obtain ⟨visited, last⟩ := run.always (WellFormed sb) wellFormed fun holds edge => holds.step edge
  exact ⟨fun entry member => derive _ (visited entry member), derive _ last⟩

def smallDisk : SuperBlock where
  size := 64
  ninodes := 8
  bmapstart := 3
  nmeta := 4
  bitmap_before := by decide
  nmeta_le := by decide
  positive := by decide
  addressable := by decide

/-- The image of that disk without any inode: the bitmap marks the first four
blocks. -/
def emptyImage : State where
  block _ := setByte (fun _ => 0) 0 15
  dinode _ := .zero
  icache _ := none

theorem wellFormed_emptyImage : WellFormed smallDisk emptyImage := by
  have none : ∀ key, refs emptyImage.block emptyImage.dinode key = 0 := fun _ => rfl
  refine ⟨⟨?_, ?_, ?_, ?_⟩, ?_, ?_, ?_⟩
  · unfold used
    decide +kernel
  · grind
  · grind
  · intro b above below
    have clear : ∀ b < 64, 4 ≤ b →
        bitClear (emptyImage.block (smallDisk.bblock b)) (b % bpb) = true := by
      decide +kernel
    have positive : 0 < b := lt_of_lt_of_le (by decide : 0 < 4) above
    constructor
    · intro marked
      rw [used, clear b below above] at marked
      cases marked
    · grind
  · intro inum bn live
    exact absurd rfl live
  · intro inum live
    exact absurd rfl live
  · intro inum entry cached
    cases cached

/-- A file that needs an indirect block is written, read and removed. -/
def fileLife (bytes : List UInt8) : List Op :=
  [.ialloc .file, .iupdate 1 0 0 1, .writei 1 0 bytes, .readi 1 100 600, .iupdate 1 0 0 0, .iput 1]

theorem block_ownership_of_fileLife :
    ∃ trace finish, FsRun smallDisk (fun _ => ⟨none, none⟩) emptyImage trace finish ∧
      trace.map Prod.snd = fileLife (List.replicate 6145 7) ∧
      (finish.dinode 1).type = .free ∧ WellFormed smallDisk finish := by
  refine exists_run_of_test (fun _ finish => (finish.dinode 1).type = .free) (by decide +kernel) ?_
  exact fun _ _ run _ free =>
    ⟨free, (block_ownership_throughout smallDisk _ wellFormed_emptyImage run).2.1⟩

end Fs

end Xv6
