import Mathlib.Data.Finset.Card
import Mathlib.Order.Interval.Finset.Nat
import Xv6.FileSystemInvariant

/-!
# Enough free blocks

A write touches the slots of the blocks in its range, and the slot of the
indirect block when one of them is not direct.  It completes when the free
blocks are at least as many as the touched slots without an address: every
allocation takes one block and fills one of these slots.
-/

namespace Xv6

namespace Fs

open DiskBlock LabelledRun OwnershipTable

def freeBlocks (sb : SuperBlock) (block : Nat → Data) : Finset Nat :=
  (Finset.range sb.size).filter fun b => bitClear (block (sb.bblock b)) (b % bpb) = true

/-- The slots that a write of `n` bytes touches. -/
def touched (off n : Nat) : Finset Slot :=
  (Finset.range n).image (fun k => blockSlot ((off + k) / bsize)) ∪
    ((Finset.range n).filter fun k => ndirect ≤ (off + k) / bsize).image fun _ => .indirect

/-- The free blocks suffice to give every slot of the inode an address. -/
def Enough (sb : SuperBlock) (slots : Finset Slot) (inum : Nat) (ip : Inode) (state : State) :
    Prop :=
  (slots.filter fun slot => state.refs inum ip (inum, slot) = 0).card ≤
    (freeBlocks sb state.block).card

section Progress

variable {sb : SuperBlock} {devsw : Nat → Device} {state next last : State} {inum off b : Nat}
  {ip ip' : Inode} {src : List UInt8} {slots : Finset Slot} {slot : Slot}

theorem mem_freeBlocks : b ∈ freeBlocks sb state.block ↔ b < sb.size ∧ ¬ used sb state.block b := by
  simp [freeBlocks, used]

theorem touched_block {n k : Nat} (inside : k < n) :
    blockSlot ((off + k) / bsize) ∈ touched off n := by
  apply Finset.mem_union_left
  exact Finset.mem_image_of_mem _ (Finset.mem_range.mpr inside)

theorem touched_indirect {n k : Nat} (inside : k < n) (far : ndirect ≤ (off + k) / bsize) :
    .indirect ∈ touched off n := by
  apply Finset.mem_union_right
  refine Finset.mem_image.mpr ⟨k, ?_, rfl⟩
  exact Finset.mem_filter.mpr ⟨Finset.mem_range.mpr inside, far⟩

theorem touched_mono {n m : Nat} (inside : m ≤ n) : touched (off + m) (n - m) ⊆ touched off n := by
  intro slot touches
  rcases Finset.mem_union.mp touches with block | indirect
  · obtain ⟨k, member, rfl⟩ := Finset.mem_image.mp block
    have bound := Finset.mem_range.mp member
    rw [Nat.add_assoc]
    exact touched_block (by omega)
  · obtain ⟨k, member, rfl⟩ := Finset.mem_image.mp indirect
    obtain ⟨range, far⟩ := Finset.mem_filter.mp member
    have bound := Finset.mem_range.mp range
    rw [Nat.add_assoc] at far
    exact touched_indirect (by omega) far

theorem touched_subset {n m : Nat} (inside : m ≤ n) : touched off m ⊆ touched off n := by
  have ranges : Finset.range m ⊆ Finset.range n := Finset.range_subset_range.mpr inside
  apply Finset.union_subset_union
  · exact Finset.image_subset_image ranges
  · exact Finset.image_subset_image (Finset.filter_subset_filter _ ranges)

theorem exists_balloc (free : b ∈ freeBlocks sb state.block) :
    ∃ fresh next, balloc sb state = .ok (fresh, next) := by
  obtain ⟨below, notUsed⟩ := mem_freeBlocks.mp free
  cases found : state.findFree sb with
  | some pair =>
    simp_all [balloc]
  | none =>
    exfalso
    have groups := List.findSome?_eq_none_iff.mp found (b / bpb) (by
      rw [List.mem_range]
      simp only [bpb, bitCount]
      omega)
    have bits := List.find?_eq_none.mp (Option.map_eq_none_iff.mp groups) (b % bpb) (by
      rw [List.mem_range]
      simp only [bpb, bitCount]
      omega)
    have sameBlock : sb.bblock (b / bpb * bpb) = sb.bblock b := by
      simp only [SuperBlock.bblock, bpb, bitCount]
      omega
    rw [sameBlock] at bits
    apply notUsed
    rw [used]
    simpa using bits

theorem Enough.exists_balloc (enough : Enough sb slots inum ip state) (member : slot ∈ slots)
    (none : state.refs inum ip (inum, slot) = 0) :
    ∃ fresh next, balloc sb state = .ok (fresh, next) := by
  have positive : 0 < (freeBlocks sb state.block).card := by
    refine lt_of_lt_of_le ?_ enough
    exact Finset.card_pos.mpr ⟨slot, Finset.mem_filter.mpr ⟨member, none⟩⟩
  obtain ⟨b, free⟩ := Finset.card_pos.mp positive
  exact Fs.exists_balloc free

theorem Enough.congr (enough : Enough sb slots inum ip state)
    (sameRefs : next.refs inum ip' = state.refs inum ip)
    (sameUsed : ∀ other < sb.size, used sb next.block other ↔ used sb state.block other) :
    Enough sb slots inum ip' next := by
  have sameFree : freeBlocks sb next.block = freeBlocks sb state.block := by
    grind [mem_freeBlocks]
  rw [Enough, sameRefs, sameFree]
  exact enough

/-- One block less is free and one slot less is without an address. -/
theorem Enough.assign (enough : Enough sb slots inum ip state)
    (allocates : Allocates sb state b next) (member : slot ∈ slots)
    (none : state.refs inum ip (inum, slot) = 0)
    (assigned : last.refs inum ip' = Function.update (state.refs inum ip) (inum, slot) b)
    (marks : ∀ other < sb.size, used sb last.block other ↔ used sb next.block other) :
    Enough sb slots inum ip' last := by
  have positive := sb.positive
  have isData := allocates.isData
  have fewerFree : freeBlocks sb last.block = (freeBlocks sb state.block).erase b := by
    ext other
    rw [Finset.mem_erase, mem_freeBlocks, mem_freeBlocks]
    constructor
    · rintro ⟨below, free⟩
      rw [marks other below, allocates.marks other below, not_or] at free
      exact ⟨free.1, below, free.2⟩
    · rintro ⟨different, below, free⟩
      rw [marks other below, allocates.marks other below, not_or]
      exact ⟨below, different, free⟩
  have fewerSlots : (slots.filter fun slot => last.refs inum ip' (inum, slot) = 0) =
      (slots.filter fun slot => state.refs inum ip (inum, slot) = 0).erase slot := by
    ext other
    rw [Finset.mem_erase, Finset.mem_filter, Finset.mem_filter, assigned]
    by_cases same : other = slot
    · grind
    · grind
  have freeMember : b ∈ freeBlocks sb state.block :=
    mem_freeBlocks.mpr ⟨allocates.below, allocates.free⟩
  have slotMember : slot ∈ slots.filter fun slot => state.refs inum ip (inum, slot) = 0 :=
    Finset.mem_filter.mpr ⟨member, none⟩
  rw [Enough, fewerFree, fewerSlots, Finset.card_erase_of_mem freeMember,
    Finset.card_erase_of_mem slotMember]
  exact Nat.sub_le_sub_right enough 1

theorem Enough.bmapAddr {index : Nat} (enough : Enough sb slots inum ip state)
    (owns : Owns sb state.block (state.nodes inum ip)) (live : ip.type ≠ .free)
    (inside : index ≤ ndirect) (member : addrSlot index ∈ slots) :
    ∃ ip' next, bmapAddr sb ip index state = .ok (ip', next) ∧ Enough sb slots inum ip' next := by
  by_cases none : ip.addrs index = 0
  · have empty : state.refs inum ip (inum, addrSlot index) = 0 :=
      (refs_addrSlot live inside).trans none
    obtain ⟨b, next, allocated⟩ := enough.exists_balloc member empty
    refine ⟨ip.setAddr index b, next, ?_, ?_⟩
    · rw [Fs.bmapAddr, if_pos none, allocated]
      rfl
    · have allocates := allocates_of_owns owns allocated
      exact enough.assign allocates member empty (refs_bmapAddr owns live inside none allocates)
        fun _ _ => Iff.rfl
  · exact ⟨ip, state, by rw [Fs.bmapAddr, if_neg none], enough⟩

theorem Enough.bmap {bn : Nat} (enough : Enough sb slots inum ip state)
    (owns : Owns sb state.block (state.nodes inum ip)) (live : ip.type ≠ .free)
    (bound : bn < maxfile) (member : blockSlot bn ∈ slots)
    (indirect : ndirect ≤ bn → .indirect ∈ slots) :
    ∃ addr ip' next, bmap sb ip bn state = .ok (addr, ip', next) ∧
      Enough sb slots inum ip' next := by
  by_cases direct : bn < ndirect
  · have slotEq : addrSlot bn = blockSlot bn := by
      rw [addrSlot, if_pos direct, blockSlot_direct direct]
    obtain ⟨ip', next, mapped, after⟩ := enough.bmapAddr owns live (by omega)
      (by rwa [slotEq] : addrSlot bn ∈ slots)
    refine ⟨ip'.addrs bn, ip', next, ?_, after⟩
    rw [Fs.bmap, if_pos direct, mapped]
    rfl
  · have inside : bn - ndirect < nindirect := by
      simp only [maxfile] at bound
      omega
    have slotEq : addrSlot ndirect = .indirect := if_neg (lt_irrefl _)
    obtain ⟨ip', middle, mapped, after⟩ := enough.bmapAddr owns live le_rfl
      (by rw [slotEq]; exact indirect (by omega) : addrSlot ndirect ∈ slots)
    obtain ⟨wrote, present⟩ := bmapAddr_wrote 0 owns live le_rfl mapped
    have liveAfter : ip'.type ≠ .free := by rwa [wrote.type_eq]
    have entryRef : middle.refs inum ip' (inum, .entry (bn - ndirect)) =
        (word (middle.block (ip'.addrs ndirect)) (bn - ndirect)).toNat :=
      (refs_node_self liveAfter _).trans (if_pos ⟨present, inside⟩)
    have unfolded : Fs.bmap sb ip bn state =
        if word (middle.block (ip'.addrs ndirect)) (bn - ndirect) = 0 then
          balloc sb middle >>= fun fresh =>
            .ok (fresh.1, ip', fresh.2.logWrite (ip'.addrs ndirect)
              (setWord (fresh.2.block (ip'.addrs ndirect)) (bn - ndirect)
                (BitVec.ofNat 32 fresh.1)))
        else .ok ((word (middle.block (ip'.addrs ndirect)) (bn - ndirect)).toNat, ip', middle) := by
      rw [Fs.bmap, if_neg direct, if_pos inside, mapped]
      rfl
    rw [unfolded]
    by_cases empty : word (middle.block (ip'.addrs ndirect)) (bn - ndirect) = 0
    · have none : middle.refs inum ip' (inum, .entry (bn - ndirect)) = 0 := by
        rw [entryRef, empty]
        rfl
      rw [blockSlot_entry direct] at member
      obtain ⟨b, fresh, allocated⟩ := after.exists_balloc member none
      have allocates := allocates_of_owns wrote.owns allocated
      have isData := (wrote.owns.inside (inum, .indirect) (by
        rw [State.nodes, refs_node_self liveAfter]
        exact present)).1
      rw [State.nodes, refs_node_self liveAfter] at isData
      refine ⟨b, ip', _, by rw [if_pos empty, allocated]; rfl, ?_⟩
      exact after.assign allocates member none
        (refs_bmapEntry wrote.owns liveAfter present inside allocates)
        fun other below => used_update_data isData below
    · exact ⟨_, ip', middle, if_neg empty, after⟩

theorem Enough.writeiLoop {fuel : Nat} (enough : Enough sb slots inum ip state)
    (owns : Owns sb state.block (state.nodes inum ip)) (live : ip.type ≠ .free)
    (limit : off + src.length ≤ maxfile * bsize) (member : touched off src.length ⊆ slots) :
    ∃ off' ip' next, writeiLoop sb fuel ip off src state = .ok (off', ip', next) ∧
      Enough sb slots inum ip' next := by
  induction fuel generalizing off src ip state with
  | zero => exact ⟨off, ip, state, rfl, enough⟩
  | succ fuel ih =>
    by_cases empty : src.length = 0
    · refine ⟨off, ip, state, ?_, enough⟩
      rw [Fs.writeiLoop, if_pos empty]
    have bound : off / bsize < maxfile := by
      simp only [maxfile, ndirect, nindirect, wordCount, bsize] at limit ⊢
      omega
    have first : blockSlot (off / bsize) ∈ slots :=
      member (@touched_block off src.length 0 (by omega))
    have indirect : ndirect ≤ off / bsize → .indirect ∈ slots := fun far =>
      member (@touched_indirect off src.length 0 (by omega) far)
    obtain ⟨addr, ip₁, middle, mapped, after⟩ := enough.bmap owns live bound first indirect
    obtain ⟨maps, _, present, holder⟩ := @bmap_wrote _ _ off _ _ _ _ _ _ owns live mapped
    have liveAfter : ip₁.type ≠ .free := by rwa [maps.type_eq]
    generalize chunk : min src.length (bsize - off % bsize) = m
    have taken : (src.take m).length = m := by
      rw [List.length_take]
      omega
    have stores := @wrote_block sb inum off ip₁ middle (src.take m) addr maps.owns holder
      present (by rw [taken]; simp only [bsize] at chunk ⊢; omega)
    have isData := (maps.owns.inside (inum, blockSlot (off / bsize)) (by
      rw [← State.refs, holder]
      exact present)).1
    rw [← State.refs, holder] at isData
    have stillEnough : Enough sb slots inum ip₁ (middle.logWrite addr
        (setBytes (middle.block addr) (off % bsize) (src.take m))) :=
      after.congr (refs_write_data maps.owns holder present _)
        fun other below => used_update_data isData below
    obtain ⟨off', ip', next, loops, final⟩ := ih stillEnough stores.owns liveAfter
      (by rw [List.length_drop]; omega : off + m + (src.drop m).length ≤ maxfile * bsize)
      (by
        rw [List.length_drop]
        exact (touched_mono (by omega)).trans member)
    refine ⟨off', ip', next, ?_, final⟩
    rw [Fs.writeiLoop, if_neg empty, mapped]
    change Fs.writeiLoop sb fuel ip₁ (off + min src.length (bsize - off % bsize)) _ _ = _
    rw [chunk]
    exact loops

theorem Enough.writei (enough : Enough sb slots inum ip state)
    (owns : Owns sb state.block (state.nodes inum ip)) (live : ip.type ≠ .free)
    (notDevice : ip.type ≠ .dev) (start : off ≤ ip.size)
    (limit : off + src.length ≤ maxfile * bsize) (member : touched off src.length ⊆ slots) :
    ∃ result ip' next, writei sb devsw inum ip off src state = .ok (result, ip', next) ∧
      Enough sb slots inum ip' next := by
  have bound : maxfile * bsize < 2 ^ 32 := by decide
  obtain ⟨off', ip₁, middle, loops, after⟩ :
      ∃ off' ip₁ middle, Fs.writeiLoop sb src.length ip off src state = .ok (off', ip₁, middle) ∧
        Enough sb slots inum ip₁ middle :=
    enough.writeiLoop owns live limit member
  rw [Fs.writei, if_neg notDevice, Nat.mod_eq_of_lt (by omega), if_neg (by omega),
    if_neg (by omega), loops]
  by_cases grows : 0 < src.length ∧ ip₁.size < off'
  · refine ⟨src.length, { ip₁ with size := off' }, middle.iupdate inum { ip₁ with size := off' },
      ?_, ?_⟩
    · change (if 0 < src.length ∧ ip₁.size < off' then _ else _) = _
      rw [if_pos grows]
    · refine after.congr ?_ fun _ _ => Iff.rfl
      rw [State.refs, State.nodes, State.iupdate, Function.update_idem]
      exact refs_node_congr rfl rfl
  · refine ⟨src.length, ip₁, middle, ?_, after⟩
    change (if 0 < src.length ∧ ip₁.size < off' then _ else _) = _
    rw [if_neg grows]

end Progress

end Fs

end Xv6
