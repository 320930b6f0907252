import Xv6.BlockOwnership

/-!
# The contents of inodes

`Wrote` says what the functions on one inode do to the file system when they store
bytes at a position of that inode: blocks may be allocated to it, the addresses
that were there stay, and no byte outside the range changes, in this inode or
another one.  On the way back `itrunc` frees all blocks of an inode and never meets
a free one.
-/

namespace Xv6

namespace Fs

open DiskBlock LabelledRun OwnershipTable
open Function (update update_eq_self_iff update_of_ne update_self)

/-- The inodes when one of them is `ip` in memory. -/
def State.nodes (state : State) (inum : Nat) (ip : Inode) : Nat → Inode :=
  update state.dinode inum ip

/-- The addresses when one inode is `ip` in memory. -/
def State.refs (state : State) (inum : Nat) (ip : Inode) : Nat × Slot → Nat :=
  Fs.refs state.block (state.nodes inum ip)

/-- The byte of an inode at a position, given the addresses of the inodes. -/
def byteAt (block : Nat → Data) (ref : Nat × Slot → Nat) (inum pos : Nat) : UInt8 :=
  byte (block (ref (inum, blockSlot (pos / bsize)))) (pos % bsize)

/-- Bytes were stored at a position of an inode, whose in-memory copy changed
from `ip` to `ip'`. -/
structure Wrote (sb : SuperBlock) (inum off : Nat) (src : List UInt8) (ip : Inode) (state : State)
    (ip' : Inode) (next : State) : Prop where
  owns : Owns sb next.block (next.nodes inum ip')
  keeps : ∀ key, state.refs inum ip key ≠ 0 → next.refs inum ip' key = state.refs inum ip key
  fields : ip' = { ip with addrs := ip'.addrs }
  dinode : next.dinode = state.dinode
  icache : next.icache = state.icache
  covered : ∀ k < src.length, next.refs inum ip' (inum, blockSlot ((off + k) / bsize)) ≠ 0
  bytes : ∀ other pos, state.refs inum ip (other, blockSlot (pos / bsize)) ≠ 0 →
    (other = inum → pos < off ∨ off + src.length ≤ pos) →
      byteAt next.block (next.refs inum ip') other pos =
        byteAt state.block (state.refs inum ip) other pos
  written : ∀ k (inside : k < src.length),
    byteAt next.block (next.refs inum ip') inum (off + k) = src[k]

section Writing

variable {sb : SuperBlock} {inum off : Nat} {ip ip' ip'' : Inode} {state next last : State}
  {src src' : List UInt8}

theorem Wrote.refl (owns : Owns sb state.block (state.nodes inum ip)) :
    Wrote sb inum off [] ip state ip state where
  owns := owns
  keeps _ _ := rfl
  fields := rfl
  dinode := rfl
  icache := rfl
  covered := by simp
  bytes _ _ _ _ := rfl
  written := by simp

theorem wrote_nil (owns : Owns sb next.block (next.nodes inum ip'))
    (keeps : ∀ key, state.refs inum ip key ≠ 0 → next.refs inum ip' key = state.refs inum ip key)
    (fields : ip' = { ip with addrs := ip'.addrs }) (dinode : next.dinode = state.dinode)
    (icache : next.icache = state.icache)
    (data : ∀ key, key.2 ≠ .indirect → state.refs inum ip key ≠ 0 →
      next.block (state.refs inum ip key) = state.block (state.refs inum ip key)) :
    Wrote sb inum off [] ip state ip' next where
  owns := owns
  keeps := keeps
  fields := fields
  dinode := dinode
  icache := icache
  covered := by simp
  bytes other pos present _ := by
    rw [byteAt, keeps _ present, data _ (blockSlot_ne_indirect _) present]
    rfl
  written := by simp

theorem Wrote.trans (first : Wrote sb inum off src ip state ip' next)
    (second : Wrote sb inum (off + src.length) src' ip' next ip'' last) :
    Wrote sb inum off (src ++ src') ip state ip'' last where
  owns := second.owns
  keeps key present := by
    have kept := first.keeps key present
    rw [second.keeps key (by rwa [kept]), kept]
  fields := by
    rw [second.fields, first.fields]
  dinode := second.dinode.trans first.dinode
  icache := second.icache.trans first.icache
  covered k inside := by
    rw [List.length_append] at inside
    by_cases early : k < src.length
    · have present := first.covered k early
      rwa [second.keeps _ present]
    · have later := second.covered (k - src.length) (by omega)
      rwa [Nat.add_assoc, Nat.add_sub_cancel' (by omega)] at later
  bytes other pos present outside := by
    rw [List.length_append] at outside
    have kept := first.keeps _ present
    rw [second.bytes other pos (by rwa [kept]) (by omega)]
    exact first.bytes other pos present (by omega)
  written k inside := by
    rw [List.length_append] at inside
    by_cases early : k < src.length
    · rw [List.getElem_append_left early,
        second.bytes inum (off + k) (first.covered k early) (by omega)]
      exact first.written k early
    · have later := second.written (k - src.length) (by omega)
      rw [Nat.add_assoc, Nat.add_sub_cancel' (by omega)] at later
      rw [List.getElem_append_right (by omega)]
      exact later

variable {nodes : Nat → Inode} {b index addr bn fuel : Nat} {block : Nat → Data}
  {key : Nat × Slot}

theorem refs_allocates (owns : Owns sb state.block nodes) (allocates : Allocates sb state b next) :
    refs next.block nodes = refs state.block nodes := by
  apply refs_congr
  intro other live present
  have key : refs state.block nodes (other, .indirect) = (nodes other).addrs ndirect :=
    refs_of_live live _
  rw [← key] at present ⊢
  exact allocates.others _ (owns.inside _ present).1
    ((owns.of_not_used allocates.free).2 _ present)

/-- A fresh block is given to a slot of the inode. -/
theorem wrote_of_allocates {slot : Slot} (owns : Owns sb state.block (state.nodes inum ip))
    (allocates : Allocates sb state b next) (none : state.refs inum ip (inum, slot) = 0)
    (assigned : last.refs inum ip' = update (state.refs inum ip) (inum, slot) b)
    (marks : ∀ other < sb.size, used sb last.block other ↔ used sb next.block other)
    (data : ∀ key, key.2 ≠ .indirect → state.refs inum ip key ≠ 0 →
      last.block (state.refs inum ip key) = next.block (state.refs inum ip key))
    (fields : ip' = { ip with addrs := ip'.addrs }) (dinode : last.dinode = next.dinode)
    (icache : last.icache = next.icache) : Wrote sb inum off [] ip state ip' last := by
  apply wrote_nil
  · refine owns.assign sb.positive allocates.free allocates.below none ?_ assigned
    intro other below
    exact (marks other below).trans (allocates.marks other below)
  · intro key present
    rw [assigned, update_of_ne]
    rintro rfl
    exact present none
  · exact fields
  · exact dinode.trans allocates.dinode
  · exact icache.trans allocates.icache
  · intro key notIndirect present
    rw [data key notIndirect present]
    exact allocates.others _ (owns.inside key present).1
      ((owns.of_not_used allocates.free).2 key present)

theorem allocates_of_owns (owns : Owns sb state.block nodes)
    (allocated : balloc sb state = .ok (b, next)) : Allocates sb state b next :=
  allocates_of_balloc owns.reserved allocated

/-! ## Finding the address of a block -/

/-- The slot for an index of `addrs`. -/
def addrSlot (index : Nat) : Slot :=
  if index < ndirect then .direct index else .indirect

theorem refs_addrSlot (live : ip.type ≠ .free) (inside : index ≤ ndirect) :
    refs block (update nodes inum ip) (inum, addrSlot index) = ip.addrs index := by
  rw [refs_node_self live, addrSlot]
  split
  · rename_i direct
    exact if_pos direct
  · obtain rfl : index = ndirect := by omega
    rfl

theorem refs_setAddr (live : ip.type ≠ .free) (inside : index ≤ ndirect)
    (none : ip.addrs index = 0) (zeroed : block addr = fun _ => 0) :
    refs block (update nodes inum (ip.setAddr index addr)) =
      update (refs block (update nodes inum ip)) (inum, addrSlot index) addr := by
  grind [addrSlot, refs_setAddr_direct, refs_setAddr_indirect]

theorem refs_bmapAddr (owns : Owns sb state.block (state.nodes inum ip)) (live : ip.type ≠ .free)
    (inside : index ≤ ndirect) (none : ip.addrs index = 0) (allocates : Allocates sb state b next) :
    next.refs inum (ip.setAddr index b) =
      update (state.refs inum ip) (inum, addrSlot index) b := by
  have kept : refs next.block (update state.dinode inum ip) = state.refs inum ip :=
    refs_allocates owns allocates
  rw [State.refs, State.nodes, allocates.dinode,
    refs_setAddr live inside none allocates.zeroed, kept]

theorem bmapAddr_wrote (off : Nat) (owns : Owns sb state.block (state.nodes inum ip))
    (live : ip.type ≠ .free) (inside : index ≤ ndirect)
    (mapped : bmapAddr sb ip index state = .ok (ip', next)) :
    Wrote sb inum off [] ip state ip' next ∧ ip'.addrs index ≠ 0 := by
  unfold bmapAddr at mapped
  split at mapped
  · rename_i none
    obtain ⟨⟨b, middle⟩, allocated, same⟩ := bind_eq_ok.mp mapped
    obtain ⟨rfl, rfl⟩ := Prod.mk.inj (Except.ok.inj same)
    have allocates := allocates_of_owns owns allocated
    have positive := sb.positive
    have isData := allocates.isData
    have assigned := refs_bmapAddr owns live inside none allocates
    refine ⟨?_, ?_⟩
    · exact wrote_of_allocates owns allocates ((refs_addrSlot live inside).trans none) assigned
        (fun _ _ => Iff.rfl) (fun _ _ _ => rfl) rfl rfl rfl
    · simp only [Inode.setAddr, update_self]
      omega
  · rename_i present
    obtain ⟨rfl, rfl⟩ := Prod.mk.inj (Except.ok.inj mapped)
    exact ⟨.refl owns, present⟩

theorem Wrote.type_eq (wrote : Wrote sb inum off src ip state ip' next) : ip'.type = ip.type := by
  rw [wrote.fields]

theorem blockSlot_direct (inside : bn < ndirect) : blockSlot bn = .direct bn :=
  if_pos inside

theorem blockSlot_entry (outside : ¬ bn < ndirect) : blockSlot bn = .entry (bn - ndirect) :=
  if_neg outside

theorem eq_of_holds_indirect (owns : Owns sb state.block (state.nodes inum ip))
    (live : ip.type ≠ .free) (present : ip.addrs ndirect ≠ 0)
    (same : state.refs inum ip key = ip.addrs ndirect) : key = (inum, .indirect) := by
  have holder : state.refs inum ip (inum, .indirect) = ip.addrs ndirect := refs_node_self live _
  exact owns.unique key (inum, .indirect) (by rwa [← State.refs, same]) (same.trans holder.symm)

theorem refs_bmapEntry (owns : Owns sb state.block (state.nodes inum ip)) (live : ip.type ≠ .free)
    (present : ip.addrs ndirect ≠ 0) (inside : index < nindirect)
    (allocates : Allocates sb state b next) :
    (next.logWrite (ip.addrs ndirect) (setWord (next.block (ip.addrs ndirect)) index
        (BitVec.ofNat 32 b))).refs inum ip =
      update (state.refs inum ip) (inum, .entry index) b := by
  have sameNodes : next.nodes inum ip = state.nodes inum ip := by
    rw [State.nodes, State.nodes, allocates.dinode]
  have kept : refs next.block (state.nodes inum ip) = state.refs inum ip :=
    refs_allocates owns allocates
  have self : state.nodes inum ip inum = ip := update_self _ _ _
  have value : (BitVec.ofNat 32 b).toNat = b := by
    have below := allocates.below
    have addressable := sb.addressable
    exact Nat.mod_eq_of_lt (by omega)
  have stored := @refs_setEntry next.block (state.nodes inum ip) inum index
    (BitVec.ofNat 32 b) (by rwa [self]) (by rwa [self]) inside
  rw [self, kept, value] at stored
  rw [← stored, State.refs]
  · exact congrArg (refs _) sameNodes
  · intro other different otherLive same
    have holds : state.refs inum ip (other, .indirect) = ip.addrs ndirect :=
      (refs_of_live otherLive _).trans same
    exact different (congrArg Prod.fst (eq_of_holds_indirect owns live present holds))

theorem wrote_entry (off : Nat) (owns : Owns sb state.block (state.nodes inum ip))
    (live : ip.type ≠ .free) (present : ip.addrs ndirect ≠ 0) (inside : index < nindirect)
    (empty : word (state.block (ip.addrs ndirect)) index = 0)
    (allocates : Allocates sb state b next) :
    Wrote sb inum off [] ip state ip (next.logWrite (ip.addrs ndirect)
      (setWord (next.block (ip.addrs ndirect)) index (BitVec.ofNat 32 b))) := by
  have holder : state.refs inum ip (inum, .indirect) = ip.addrs ndirect := refs_node_self live _
  have isData := (owns.inside (inum, .indirect) (by rwa [← State.refs, holder])).1
  rw [← State.refs, holder] at isData
  have none : state.refs inum ip (inum, .entry index) = 0 := by
    refine (refs_node_self live _).trans ?_
    simp [addrAt, empty]
  refine wrote_of_allocates owns allocates none
    (refs_bmapEntry owns live present inside allocates) ?_ ?_ rfl rfl rfl
  · intro other below
    exact used_update_data isData below
  · intro key notIndirect _
    apply update_of_ne
    intro same
    exact notIndirect (congrArg Prod.snd (eq_of_holds_indirect owns live present same))

/-- `bmap` finds the address of a block of the file, or gives it a fresh one. -/
theorem bmap_wrote (owns : Owns sb state.block (state.nodes inum ip)) (live : ip.type ≠ .free)
    (mapped : bmap sb ip bn state = .ok (addr, ip', next)) :
    Wrote sb inum off [] ip state ip' next ∧ bn < maxfile ∧ addr ≠ 0 ∧
      next.refs inum ip' (inum, blockSlot bn) = addr := by
  unfold bmap at mapped
  split at mapped
  · rename_i direct
    obtain ⟨⟨ip₁, middle⟩, first, rest⟩ := bind_eq_ok.mp mapped
    cases rest
    obtain ⟨wrote, present⟩ := bmapAddr_wrote off owns live (by omega) first
    have liveAfter : ip'.type ≠ .free := by rwa [wrote.type_eq]
    refine ⟨wrote, Nat.lt_of_lt_of_le direct (Nat.le_add_right _ _), present, ?_⟩
    rw [blockSlot_direct direct]
    exact (refs_node_self liveAfter _).trans (if_pos direct)
  · rename_i notDirect
    split at mapped
    · rename_i inside
      obtain ⟨⟨ip₁, middle⟩, first, rest⟩ := bind_eq_ok.mp mapped
      obtain ⟨wrote, present⟩ := bmapAddr_wrote off owns live le_rfl first
      have liveAfter : ip₁.type ≠ .free := by rwa [wrote.type_eq]
      have entryRef : middle.refs inum ip₁ (inum, blockSlot bn) =
          (word (middle.block (ip₁.addrs ndirect)) (bn - ndirect)).toNat := by
        rw [blockSlot_entry notDirect]
        exact (refs_node_self liveAfter _).trans (if_pos ⟨present, inside⟩)
      have bound : bn < maxfile := by
        simp only [maxfile]
        omega
      dsimp only at rest
      split at rest
      · rename_i empty
        obtain ⟨⟨b, fresh⟩, found, result⟩ := bind_eq_ok.mp rest
        cases result
        have allocates := allocates_of_owns wrote.owns found
        have stores := wrote_entry (off + 0) wrote.owns liveAfter present inside empty allocates
        have positive := sb.positive
        have isData := allocates.isData
        refine ⟨wrote.trans stores, bound, by omega, ?_⟩
        rw [blockSlot_entry notDirect, refs_bmapEntry wrote.owns liveAfter present inside allocates,
          update_self]
      · rename_i nonempty
        cases rest
        refine ⟨wrote, bound, ?_, entryRef⟩
        intro zero
        exact nonempty (BitVec.eq_of_toNat_eq zero)
    · cases mapped

theorem bmapAddr_refs (owns : Owns sb state.block (state.nodes inum ip)) (live : ip.type ≠ .free)
    (inside : index ≤ ndirect) (mapped : bmapAddr sb ip index state = .ok (ip', next))
    (other : key ≠ (inum, addrSlot index)) : next.refs inum ip' key = state.refs inum ip key := by
  unfold bmapAddr at mapped
  split at mapped
  · rename_i none
    obtain ⟨⟨b, middle⟩, allocated, same⟩ := bind_eq_ok.mp mapped
    obtain ⟨rfl, rfl⟩ := Prod.mk.inj (Except.ok.inj same)
    rw [refs_bmapAddr owns live inside none (allocates_of_owns owns allocated),
      update_of_ne other]
  · grind

theorem bmap_refs (owns : Owns sb state.block (state.nodes inum ip)) (live : ip.type ≠ .free)
    (mapped : bmap sb ip bn state = .ok (addr, ip', next)) (other : key ≠ (inum, blockSlot bn))
    (notIndirect : ndirect ≤ bn → key ≠ (inum, .indirect)) :
    next.refs inum ip' key = state.refs inum ip key := by
  unfold bmap at mapped
  split at mapped
  · rename_i direct
    obtain ⟨⟨ip₁, middle⟩, first, rest⟩ := bind_eq_ok.mp mapped
    cases rest
    rw [blockSlot_direct direct] at other
    exact bmapAddr_refs owns live direct.le first (by rwa [addrSlot, if_pos direct])
  · rename_i notDirect
    split at mapped
    · rename_i inside
      obtain ⟨⟨ip₁, middle⟩, first, rest⟩ := bind_eq_ok.mp mapped
      obtain ⟨wrote, present⟩ := bmapAddr_wrote 0 owns live le_rfl first
      have liveAfter : ip₁.type ≠ .free := by rwa [wrote.type_eq]
      have kept := bmapAddr_refs owns live le_rfl first
        (by simpa [addrSlot] using notIndirect (not_lt.mp notDirect))
      dsimp only at rest
      split at rest
      · obtain ⟨⟨b, fresh⟩, found, result⟩ := bind_eq_ok.mp rest
        cases result
        have allocates := allocates_of_owns wrote.owns found
        rw [blockSlot_entry notDirect] at other
        rw [refs_bmapEntry wrote.owns liveAfter present inside allocates,
          update_of_ne other, kept]
      · cases rest
        exact kept
    · cases mapped

theorem bmap_of_present (live : ip.type ≠ .free)
    (present : state.refs inum ip (inum, blockSlot bn) ≠ 0) :
    bmap sb ip bn state = .ok (state.refs inum ip (inum, blockSlot bn), ip, state) := by
  have found : state.refs inum ip (inum, blockSlot bn) = addrAt state.block ip (blockSlot bn) :=
    refs_node_self live _
  rw [found] at present ⊢
  by_cases direct : bn < ndirect
  · rw [blockSlot_direct direct] at present ⊢
    simp only [addrAt, if_pos direct] at present ⊢
    simp [bmap, bmapAddr, direct, present, bind, Except.bind]
  · rw [blockSlot_entry direct] at present ⊢
    simp only [addrAt] at present ⊢
    split at present
    · rename_i exists_entry
      obtain ⟨indirect, inside⟩ := exists_entry
      have entry : word (state.block (ip.addrs ndirect)) (bn - ndirect) ≠ 0 := by
        grind
      rw [bmap, if_neg direct, if_pos inside, bmapAddr, if_neg indirect,
        if_pos ⟨indirect, inside⟩]
      exact if_neg entry
    · exact absurd rfl present

/-! ## Storing bytes -/

theorem refs_write_data (owns : Owns sb state.block (state.nodes inum ip))
    (holder : state.refs inum ip (inum, blockSlot bn) = addr) (present : addr ≠ 0) (data : Data) :
    (state.logWrite addr data).refs inum ip = state.refs inum ip := by
  subst holder
  apply refs_update
  intro other same
  have keys := owns.unique _ _ present same.symm
  exact blockSlot_ne_indirect _ (congrArg Prod.snd keys)

/-- One iteration of `writei` stores the bytes of one block. -/
theorem wrote_block (owns : Owns sb state.block (state.nodes inum ip))
    (holder : state.refs inum ip (inum, blockSlot (off / bsize)) = addr) (present : addr ≠ 0)
    (fits : off % bsize + src.length ≤ bsize) :
    Wrote sb inum off src ip state ip
      (state.logWrite addr (setBytes (state.block addr) (off % bsize) src)) := by
  subst holder
  have isData := (owns.inside _ present).1
  have sameRefs : (state.logWrite (state.refs inum ip (inum, blockSlot (off / bsize)))
      (setBytes (state.block (state.refs inum ip (inum, blockSlot (off / bsize))))
        (off % bsize) src)).refs inum ip = state.refs inum ip :=
    refs_write_data owns rfl present _
  constructor
  · refine owns.congr (fun other below => ?_) sb.nmeta_le sameRefs
    exact used_update_data isData below
  · intro key _
    rw [sameRefs]
  · rfl
  · rfl
  · rfl
  · intro k inside
    have sameBlock : (off + k) / bsize = off / bsize := by
      simp only [bsize] at fits ⊢
      omega
    rw [sameRefs, sameBlock]
    exact present
  · intro other pos otherPresent outside
    rw [byteAt, byteAt, sameRefs]
    by_cases same : state.refs inum ip (other, blockSlot (pos / bsize)) =
        state.refs inum ip (inum, blockSlot (off / bsize))
    · have keys := owns.unique _ _ otherPresent same
      have sameBlock : pos / bsize = off / bsize :=
        blockSlot_injective (congrArg Prod.snd keys)
      have apart := outside (congrArg Prod.fst keys)
      rw [same]
      change byte (update state.block _ _ _) _ = _
      rw [update_self, byte_setBytes _ (Nat.mod_lt pos (by decide : 0 < bsize))]
      split
      · grind
      · rfl
    · change byte (update state.block _ _ _) _ = _
      rw [update_of_ne same]
  · intro k inside
    have sameBlock : (off + k) / bsize = off / bsize := by
      simp only [bsize] at fits ⊢
      omega
    have position : (off + k) % bsize = off % bsize + k := by
      simp only [bsize] at fits ⊢
      omega
    rw [byteAt, sameRefs, sameBlock]
    change byte (update state.block _ _ _) _ = _
    rw [update_self, byte_setBytes _ (Nat.mod_lt (off + k) (by decide : 0 < bsize)),
      position, if_pos (Nat.le_add_right _ _), Nat.add_sub_cancel_left]
    exact List.getD_eq_getElem _ _ inside

theorem writeiLoop_wrote {off' : Nat} (owns : Owns sb state.block (state.nodes inum ip))
    (live : ip.type ≠ .free) (enough : src.length ≤ fuel)
    (loops : writeiLoop sb fuel ip off src state = .ok (off', ip', next)) :
    Wrote sb inum off src ip state ip' next ∧ off' = off + src.length ∧
      (0 < src.length → off' ≤ maxfile * bsize) := by
  induction fuel generalizing off src ip state with
  | zero =>
    obtain rfl : src = [] := List.length_eq_zero_iff.mp (Nat.le_zero.mp enough)
    cases loops
    exact ⟨.refl owns, rfl, by simp⟩
  | succ fuel ih =>
    unfold writeiLoop at loops
    split at loops
    · rename_i empty
      obtain rfl : src = [] := List.length_eq_zero_iff.mp empty
      cases loops
      exact ⟨.refl owns, rfl, by simp⟩
    · obtain ⟨⟨addr, ip₁, middle⟩, mapped, rest⟩ := bind_eq_ok.mp loops
      obtain ⟨maps, bound, present, holder⟩ := @bmap_wrote _ _ off _ _ _ _ _ _ owns live mapped
      have liveAfter : ip₁.type ≠ .free := by rwa [maps.type_eq]
      generalize chunk : min src.length (bsize - off % bsize) = m at rest
      have taken : (src.take m).length = m := by
        rw [List.length_take]
        omega
      have stores := @wrote_block sb inum off ip₁ middle (src.take m) addr maps.owns holder
        present (by rw [taken]; simp only [bsize] at chunk ⊢; omega)
      obtain ⟨later, total, limit⟩ := ih stores.owns liveAfter
        (by rw [List.length_drop]; simp only [bsize] at chunk; omega) rest
      have both : Wrote sb inum off (src.take m) ip state ip₁ _ := maps.trans stores
      have joined := both.trans (by rw [taken]; exact later)
      rw [List.take_append_drop] at joined
      rw [List.length_drop] at total limit
      refine ⟨joined, by omega, fun _ => ?_⟩
      by_cases more : 0 < src.length - m
      · exact limit more
      · grind

/-- The loop of `writei` allocates nothing where the blocks have addresses. -/
theorem writeiLoop_inplace {off' : Nat} (owns : Owns sb state.block (state.nodes inum ip))
    (live : ip.type ≠ .free) (enough : src.length ≤ fuel)
    (covered : ∀ k < src.length, state.refs inum ip (inum, blockSlot ((off + k) / bsize)) ≠ 0)
    (loops : writeiLoop sb fuel ip off src state = .ok (off', ip', next)) : ip' = ip := by
  induction fuel generalizing off src state with
  | zero =>
    cases loops
    rfl
  | succ fuel ih =>
    unfold writeiLoop at loops
    split at loops
    · cases loops
      rfl
    · have first : state.refs inum ip (inum, blockSlot (off / bsize)) ≠ 0 :=
        covered 0 (by omega)
      rw [bmap_of_present live first] at loops
      generalize chunk : min src.length (bsize - off % bsize) = m at loops
      have taken : (src.take m).length = m := by
        rw [List.length_take]
        omega
      have stores := @wrote_block sb inum off ip state (src.take m) _ owns rfl first
        (by rw [taken]; simp only [bsize] at chunk ⊢; omega)
      refine ih stores.owns ?_ ?_ loops
      · grind
      · intro k inside
        rw [List.length_drop] at inside
        have present := covered (m + k) (by omega)
        rw [← Nat.add_assoc] at present
        rwa [stores.keeps _ present]

/-! ## Reading bytes -/

/-- The loop of `readi` over blocks that have addresses copies the bytes of the file
and changes nothing. -/
theorem readiLoop_eq {n : Nat} (live : ip.type ≠ .free) (enough : n ≤ fuel)
    (covered : ∀ k < n, state.refs inum ip (inum, blockSlot ((off + k) / bsize)) ≠ 0) :
    readiLoop sb fuel ip off n state =
      .ok ((List.range n).map fun k => byteAt state.block (state.refs inum ip) inum (off + k),
        ip, state) := by
  induction fuel generalizing off n with
  | zero =>
    obtain rfl : n = 0 := Nat.le_zero.mp enough
    rfl
  | succ fuel ih =>
    by_cases empty : n = 0
    · subst empty
      rfl
    have first : state.refs inum ip (inum, blockSlot (off / bsize)) ≠ 0 :=
      covered 0 (by omega)
    generalize chunk : min n (bsize - off % bsize) = m
    have bound : m ≤ n ∧ off % bsize + m ≤ bsize ∧ 0 < m := by
      simp only [bsize] at chunk ⊢
      omega
    have later := @ih (off + m) (n - m) (by omega) (by
      intro k inside
      rw [Nat.add_assoc]
      exact covered (m + k) (by omega))
    have copied : bytes (state.block (state.refs inum ip (inum, blockSlot (off / bsize))))
        (off % bsize) m =
        (List.range m).map fun k => byteAt state.block (state.refs inum ip) inum (off + k) := by
      apply List.map_congr_left
      intro k member
      have inside := List.mem_range.mp member
      have sameBlock : (off + k) / bsize = off / bsize := by
        simp only [bsize] at bound ⊢
        omega
      have position : (off + k) % bsize = off % bsize + k := by
        simp only [bsize] at bound ⊢
        omega
      rw [byteAt, sameBlock, position]
    rw [readiLoop, if_neg empty, bmap_of_present live first]
    change (readiLoop sb fuel ip (off + min n (bsize - off % bsize))
      (n - min n (bsize - off % bsize)) state >>= fun result => _) = _
    rw [chunk, later]
    change Except.ok (bytes _ _ m ++ _, ip, state) = _
    rw [copied]
    have range : List.range n = List.range m ++ (List.range (n - m)).map (m + ·) := by
      rw [← List.range_add, Nat.add_sub_cancel' bound.1]
    rw [range, List.map_append, List.map_map]
    simp only [Function.comp_def, Nat.add_assoc]

/-! ## Freeing blocks -/

structure OnlyBitmap (sb : SuperBlock) (state next : State) : Prop where
  data : ∀ b, sb.nmeta ≤ b → next.block b = state.block b
  dinode : next.dinode = state.dinode
  icache : next.icache = state.icache

theorem OnlyBitmap.refl (state : State) : OnlyBitmap sb state state :=
  ⟨fun _ _ => rfl, rfl, rfl⟩

theorem OnlyBitmap.trans (first : OnlyBitmap sb state next) (second : OnlyBitmap sb next last) :
    OnlyBitmap sb state last where
  data b isData := (second.data b isData).trans (first.data b isData)
  dinode := second.dinode.trans first.dinode
  icache := second.icache.trans first.icache

def clearKeys (ref : Nat × Slot → Nat) (keys : List (Nat × Slot)) (key : Nat × Slot) : Nat :=
  if key ∈ keys then 0 else ref key

theorem clearKeys_cons (ref : Nat × Slot → Nat) (key : Nat × Slot) (keys : List (Nat × Slot)) :
    clearKeys ref (key :: keys) = clearKeys (update ref key 0) keys := by
  grind [clearKeys]

theorem exists_bfree {ref : Nat × Slot → Nat}
    (owned : Owned sb.nmeta sb.size (used sb state.block) ref) (holds : ref key ≠ 0) :
    ∃ next, bfree sb (ref key) state = .ok next ∧ OnlyBitmap sb state next ∧
      Owned sb.nmeta sb.size (used sb next.block) (update ref key 0) := by
  have below := (owned.inside key holds).2
  refine ⟨_, bfree_of_used (owned.used_ref holds), ⟨?_, rfl, rfl⟩, ?_⟩
  · intro b isData
    apply update_of_ne
    have := sb.bblock_lt below
    omega
  · refine owned.release sb.positive holds (fun other _ => ?_) rfl
    exact (used_update_bit (ref key)).2

theorem OnlyBitmap.refs (only : OnlyBitmap sb state next)
    (inside : ∀ other, Fs.refs state.block nodes (other, .indirect) ≠ 0 →
      sb.nmeta ≤ Fs.refs state.block nodes (other, .indirect)) :
    Fs.refs next.block nodes = Fs.refs state.block nodes := by
  apply refs_congr
  intro other live present
  have isData := inside other (by rwa [refs_of_live live])
  rw [refs_of_live live] at isData
  exact only.data _ isData

theorem exists_truncDirect {indices : List Nat} (nodup : indices.Nodup)
    (direct : ∀ index ∈ indices, index < ndirect)
    (owns : Owns sb state.block (state.nodes inum ip)) (live : ip.type ≠ .free) :
    ∃ ip' next, truncDirect sb indices ip state = .ok (ip', next) ∧ OnlyBitmap sb state next ∧
      Owns sb next.block (next.nodes inum ip') ∧ ip' = { ip with addrs := ip'.addrs } ∧
      ∀ index, ip'.addrs index = if index ∈ indices then 0 else ip.addrs index := by
  induction indices generalizing ip state with
  | nil => exact ⟨ip, state, rfl, .refl state, owns, rfl, by simp⟩
  | cons index rest ih =>
    obtain ⟨fresh, restNodup⟩ := List.nodup_cons.mp nodup
    have restDirect : ∀ index ∈ rest, index < ndirect :=
      fun index member => direct index (List.mem_cons_of_mem _ member)
    have inside := direct index List.mem_cons_self
    by_cases present : ip.addrs index = 0
    · grind [truncDirect]
    · have holder : Fs.refs state.block (state.nodes inum ip) (inum, .direct index) =
          ip.addrs index :=
        (refs_node_self live _).trans (if_pos inside)
      obtain ⟨middle, freed, onlyFirst, owned⟩ :=
        exists_bfree owns (by rwa [holder] : Fs.refs _ _ (inum, .direct index) ≠ 0)
      have ownsMiddle : Owns sb middle.block (middle.nodes inum (ip.setAddr index 0)) := by
        have kept : Fs.refs middle.block (update state.dinode inum ip) =
            Fs.refs state.block (state.nodes inum ip) :=
          onlyFirst.refs fun other present => (owns.inside _ present).1
        refine owned.congr (fun _ _ => Iff.rfl) sb.nmeta_le ?_
        rw [State.nodes, onlyFirst.dinode, refs_setAddr_direct live inside, kept]
      obtain ⟨ip', next, truncated, only, ownsAfter, fields, addrs⟩ :=
        ih restNodup restDirect ownsMiddle live
      refine ⟨ip', next, ?_, onlyFirst.trans only, ownsAfter, fields, ?_⟩
      · rw [holder] at freed
        rw [truncDirect, if_pos present, freed]
        exact truncated
      · intro other
        rw [addrs other]
        by_cases same : other = index
        · simp [same, Inode.setAddr]
        · simp [same, Inode.setAddr]

theorem exists_truncEntries {ref : Nat × Slot → Nat} {indirect : Data} {indices : List Nat}
    (nodup : indices.Nodup)
    (owned : Owned sb.nmeta sb.size (used sb state.block) ref)
    (entries : ∀ index ∈ indices, ref (inum, .entry index) = (word indirect index).toNat) :
    ∃ next, truncEntries sb indirect indices state = .ok next ∧ OnlyBitmap sb state next ∧
      Owned sb.nmeta sb.size (used sb next.block)
        (clearKeys ref (indices.map fun index => (inum, .entry index))) := by
  induction indices generalizing ref state with
  | nil => exact ⟨state, rfl, .refl state, owned⟩
  | cons index rest ih =>
    obtain ⟨fresh, restNodup⟩ := List.nodup_cons.mp nodup
    have holder := entries index List.mem_cons_self
    have restEntries : ∀ other ∈ rest,
        update ref (inum, .entry index) 0 (inum, .entry other) =
          (word indirect other).toNat := by
      intro other member
      rw [update_of_ne]
      · exact entries other (List.mem_cons_of_mem _ member)
      · grind
    rw [List.map_cons, clearKeys_cons, truncEntries]
    by_cases present : word indirect index = 0
    · have already : update ref (inum, .entry index) 0 = ref := by
        rw [update_eq_self_iff, holder, present]
        rfl
      rw [if_neg (not_not.mpr present), already]
      rw [already] at restEntries
      exact ih restNodup owned restEntries
    · have holds : ref (inum, .entry index) ≠ 0 := by
        rw [holder]
        intro zero
        exact present (BitVec.eq_of_toNat_eq zero)
      obtain ⟨middle, freed, onlyFirst, ownedMiddle⟩ := exists_bfree owned holds
      obtain ⟨next, truncated, only, ownedAfter⟩ := ih restNodup ownedMiddle restEntries
      refine ⟨next, ?_, onlyFirst.trans only, ownedAfter⟩
      rw [holder] at freed
      rw [if_pos present, freed]
      exact truncated

theorem refs_dropIndirect (live : ip.type ≠ .free) :
    refs block (update nodes inum (ip.setAddr ndirect 0)) =
      update (clearKeys (refs block (update nodes inum ip))
        ((List.range nindirect).map fun index => (inum, .entry index))) (inum, .indirect) 0 := by
  refine refs_node_eq live rfl ?_ ?_
  · grind [clearKeys, refs_node_other]
  · intro slot
    cases slot with
    | direct index =>
      rw [if_neg Slot.noConfusion, clearKeys, if_neg (by simp), refs_node_self live]
      by_cases inside : index < ndirect
      · have different : index ≠ ndirect := by omega
        simp [addrAt, Inode.setAddr, inside, update_of_ne different]
      · simp [addrAt, inside]
    | indirect => simp [addrAt, Inode.setAddr]
    | entry index =>
      simp_all [clearKeys, refs_node_self, addrAt, Inode.setAddr]

theorem exists_truncIndirect (owns : Owns sb state.block (state.nodes inum ip))
    (live : ip.type ≠ .free) :
    ∃ ip' next, truncIndirect sb ip state = .ok (ip', next) ∧ OnlyBitmap sb state next ∧
      Owns sb next.block (next.nodes inum ip') ∧ ip' = { ip with addrs := ip'.addrs } ∧
      ip'.addrs ndirect = 0 ∧ ∀ index < ndirect, ip'.addrs index = ip.addrs index := by
  by_cases present : ip.addrs ndirect = 0
  · refine ⟨ip, state, ?_, .refl state, owns, rfl, present, fun _ _ => rfl⟩
    rw [truncIndirect, if_neg (not_not.mpr present)]
  · have holder : refs state.block (state.nodes inum ip) (inum, .indirect) = ip.addrs ndirect :=
      refs_node_self live _
    have entries : ∀ index ∈ List.range nindirect,
        refs state.block (state.nodes inum ip) (inum, .entry index) =
          (word (state.block (ip.addrs ndirect)) index).toNat := by
      intro index member
      exact (refs_node_self live _).trans (if_pos ⟨present, List.mem_range.mp member⟩)
    obtain ⟨middle, truncated, onlyFirst, ownedMiddle⟩ :=
      exists_truncEntries List.nodup_range owns entries
    have stillHolds : clearKeys (refs state.block (state.nodes inum ip))
        ((List.range nindirect).map fun index => (inum, .entry index)) (inum, .indirect) =
          ip.addrs ndirect := by
      rw [clearKeys, if_neg (by simp), holder]
    obtain ⟨next, freed, onlySecond, ownedNext⟩ :=
      exists_bfree ownedMiddle (by rwa [stillHolds] : clearKeys _ _ (inum, .indirect) ≠ 0)
    have only := onlyFirst.trans onlySecond
    have kept : refs next.block (update state.dinode inum ip) =
        refs state.block (state.nodes inum ip) :=
      only.refs fun other present => (owns.inside _ present).1
    have dropped : (ip.setAddr ndirect 0).addrs ndirect = 0 := by
      simp [Inode.setAddr]
    refine ⟨ip.setAddr ndirect 0, next, ?_, only, ?_, rfl, dropped, ?_⟩
    · rw [stillHolds] at freed
      rw [truncIndirect, if_pos present, truncated]
      change (bfree sb (ip.addrs ndirect) middle >>= fun state => _) = _
      rw [freed]
      rfl
    · refine ownedNext.congr (fun _ _ => Iff.rfl) sb.nmeta_le ?_
      rw [State.nodes, only.dinode, refs_dropIndirect live, kept]
    · intro index inside
      exact update_of_ne (by omega) _ _

theorem exists_itrunc (owns : Owns sb state.block (state.nodes inum ip)) (live : ip.type ≠ .free) :
    ∃ ip' middle, itrunc sb inum ip state = .ok (ip', middle.iupdate inum ip') ∧
      OnlyBitmap sb state middle ∧ Owns sb middle.block (middle.nodes inum ip') ∧
      ip' = { ip with size := 0, addrs := ip'.addrs } ∧
      ∀ slot, addrAt middle.block ip' slot = 0 := by
  obtain ⟨ip₁, first, truncated, onlyFirst, ownsFirst, fields, addrs⟩ :=
    exists_truncDirect List.nodup_range (fun _ => List.mem_range.mp) owns live
  have liveFirst : ip₁.type ≠ .free := by rwa [fields]
  obtain ⟨ip₂, second, truncatedSecond, onlySecond, ownsSecond, fieldsSecond, none, direct⟩ :=
    exists_truncIndirect ownsFirst liveFirst
  refine ⟨{ ip₂ with size := 0 }, second, ?_, onlyFirst.trans onlySecond, ?_, ?_, ?_⟩
  · rw [itrunc, truncated]
    change (truncIndirect sb ip₁ first >>= fun result => _) = _
    rw [truncatedSecond]
    rfl
  · refine ownsSecond.congr (fun _ _ => Iff.rfl) sb.nmeta_le ?_
    exact refs_node_congr rfl rfl
  · rw [fieldsSecond, fields]
  · intro slot
    cases slot with
    | direct index =>
      grind [addrAt]
    | indirect => exact none
    | entry index => simp [addrAt, none]

end Writing

end Fs

end Xv6
