import Xv6.FileSystem
import Xv6.OwnershipTable

/-!
# Ownership of blocks

The addresses of an inode are found in slots: the direct addresses, the address
of the indirect block, and the entries of that block.  In a well-formed file
system the bitmap marks a data block as used exactly when one slot of one
allocated inode holds its address.
-/

namespace Xv6

namespace Fs

open DiskBlock LabelledRun OwnershipTable
open Function (update update_of_ne update_self)

/-- The places of an inode that hold addresses. -/
inductive Slot
  | direct (index : Nat)
  | indirect
  | entry (index : Nat)
  deriving DecidableEq

/-- The slot with the address of block `bn` of the file. -/
def blockSlot (bn : Nat) : Slot :=
  if bn < ndirect then .direct bn else .entry (bn - ndirect)

/-- The address in a slot, zero if there is none. -/
def addrAt (block : Nat → Data) (ip : Inode) : Slot → Nat
  | .direct index => if index < ndirect then ip.addrs index else 0
  | .indirect => ip.addrs ndirect
  | .entry index =>
    if ip.addrs ndirect ≠ 0 ∧ index < nindirect then
      (word (block (ip.addrs ndirect)) index).toNat
    else 0

def refs (block : Nat → Data) (nodes : Nat → Inode) (key : Nat × Slot) : Nat :=
  if (nodes key.1).type = .free then 0 else addrAt block (nodes key.1) key.2

def used (sb : SuperBlock) (block : Nat → Data) (b : Nat) : Prop :=
  bitClear (block (sb.bblock b)) (b % bpb) = false

/-- The bitmap agrees with the addresses of the inodes. -/
abbrev Owns (sb : SuperBlock) (block : Nat → Data) (nodes : Nat → Inode) : Prop :=
  Owned sb.nmeta sb.size (used sb block) (refs block nodes)

theorem blockSlot_injective : Function.Injective blockSlot := by
  intro first second same
  simp only [blockSlot] at same
  split at same <;> split at same <;> simp at same <;> omega

theorem blockSlot_ne_indirect (bn : Nat) : blockSlot bn ≠ .indirect := by
  simp only [blockSlot]
  split <;> exact Slot.noConfusion

section Blocks

variable {sb : SuperBlock} {block : Nat → Data} {nodes : Nat → Inode} {state next : State}
  {b inum : Nat} {ip : Inode} {data : Data}

theorem refs_of_live (live : (nodes inum).type ≠ .free) (slot : Slot) :
    refs block nodes (inum, slot) = addrAt block (nodes inum) slot :=
  if_neg live

theorem SuperBlock.bblock_lt (sb : SuperBlock) (below : b < sb.size) : sb.bblock b < sb.nmeta :=
  sb.bitmap_before b below

theorem used_update_data (isData : sb.nmeta ≤ b) {other : Nat} (below : other < sb.size) :
    used sb (update block b data) other ↔ used sb block other := by
  rw [used, update_of_ne (by have := sb.bblock_lt below; omega)]
  rfl

/-- The bits of the bitmap after one of them was changed. -/
theorem used_update_bit (b : Nat) {other : Nat} :
    (used sb (update block (sb.bblock b)
        (setBit (block (sb.bblock b)) (b % bpb))) other ↔ other = b ∨ used sb block other) ∧
    (used sb (update block (sb.bblock b)
        (clearBit (block (sb.bblock b)) (b % bpb))) other ↔ other ≠ b ∧ used sb block other) := by
  have inside : b % bpb < bitCount := Nat.mod_lt _ (by decide)
  by_cases sameBlock : sb.bblock other = sb.bblock b
  · have bits : other % bpb = b % bpb ↔ other = b := by
      simp only [SuperBlock.bblock, bpb, bitCount] at sameBlock ⊢
      omega
    simp only [used, sameBlock, update_self, bitClear_setBit _ inside,
      bitClear_clearBit _ inside]
    by_cases same : other = b
    · simp [same]
    · simp [same, bits]
  · grind [used, update_of_ne]

theorem refs_congr {block' : Nat → Data}
    (agree : ∀ inum, (nodes inum).type ≠ .free → (nodes inum).addrs ndirect ≠ 0 →
      block' ((nodes inum).addrs ndirect) = block ((nodes inum).addrs ndirect)) :
    refs block' nodes = refs block nodes := by
  funext ⟨inum, slot⟩
  simp only [refs]
  split
  · rfl
  · simp_all [addrAt]

theorem refs_update (notIndirect : ∀ inum, refs block nodes (inum, .indirect) ≠ b) :
    refs (update block b data) nodes = refs block nodes := by
  apply refs_congr
  intro inum live _
  apply update_of_ne
  have different := notIndirect inum
  rw [refs_of_live live] at different
  exact different

/-! ## Allocating and freeing a block -/

theorem findFree_eq_some {group bi : Nat} (found : state.findFree sb = some (group, bi)) :
    ∃ b < sb.size, group + bi = b ∧ sb.bblock group = sb.bblock b ∧ bi = b % bpb ∧
      ¬ used sb state.block b := by
  obtain ⟨index, _, inner⟩ := List.exists_of_findSome?_eq_some found
  obtain ⟨offset, foundOffset, same⟩ := Option.map_eq_some_iff.mp inner
  obtain ⟨rfl, rfl⟩ := Prod.mk.inj same
  have member := List.mem_range.mp (List.mem_of_find?_eq_some foundOffset)
  have clear := List.find?_some foundOffset
  have sameBlock : sb.bblock (index * bpb) = sb.bblock (index * bpb + offset) := by
    simp only [SuperBlock.bblock, bpb, bitCount] at member ⊢
    omega
  have remainder : offset = (index * bpb + offset) % bpb := by
    grind
  refine ⟨index * bpb + offset, by omega, rfl, sameBlock, remainder, ?_⟩
  rw [used, ← sameBlock, ← remainder, clear]
  exact Bool.noConfusion

/-- What `balloc` does to the blocks. -/
structure Allocates (sb : SuperBlock) (state : State) (b : Nat) (next : State) : Prop where
  free : ¬ used sb state.block b
  below : b < sb.size
  isData : sb.nmeta ≤ b
  dinode : next.dinode = state.dinode
  icache : next.icache = state.icache
  zeroed : next.block b = fun _ => 0
  marks : ∀ other < sb.size, used sb next.block other ↔ other = b ∨ used sb state.block other
  others : ∀ other, sb.nmeta ≤ other → other ≠ b → next.block other = state.block other

theorem allocates_of_balloc (reserved : ∀ other < sb.nmeta, used sb state.block other)
    (allocated : balloc sb state = .ok (b, next)) : Allocates sb state b next := by
  unfold balloc at allocated
  split at allocated
  · rename_i group bi found
    obtain ⟨b, below, sum, sameBlock, rfl, free⟩ := findFree_eq_some found
    rw [sum, sameBlock] at allocated
    obtain ⟨rfl, rfl⟩ := Prod.mk.inj (Except.ok.inj allocated)
    have isData : sb.nmeta ≤ b := by
      grind
    refine ⟨free, below, isData, rfl, rfl, update_self _ _ _, ?_, ?_⟩
    · intro other otherBelow
      change used sb (update (update state.block _ _) b _) other ↔ _
      rw [used_update_data isData otherBelow]
      exact (used_update_bit b).1
    · intro other otherData different
      change update (update state.block _ _) b _ other = _
      rw [update_of_ne different, update_of_ne]
      have := sb.bblock_lt below
      omega
  · cases allocated

theorem bfree_of_used (marked : used sb state.block b) :
    bfree sb b state = .ok (state.logWrite (sb.bblock b)
      (clearBit (state.block (sb.bblock b)) (b % bpb))) := by
  rw [used] at marked
  simp only [bfree, marked]
  rfl

/-! ## Changing the addresses of one inode -/

theorem live_update (live : ip.type ≠ .free) :
    (update nodes inum ip inum).type ≠ .free := by
  rwa [update_self]

theorem refs_node_other {key : Nat × Slot} (different : key.1 ≠ inum) :
    refs block (update nodes inum ip) key = refs block nodes key := by
  simp only [refs, update_of_ne different]

theorem refs_node_self (live : ip.type ≠ .free) (slot : Slot) :
    refs block (update nodes inum ip) (inum, slot) = addrAt block ip slot := by
  rw [refs_of_live (live_update live), update_self]

/-- Only the type and the addresses of the inodes matter. -/
theorem refs_nodes_congr {nodes' : Nat → Inode}
    (type : ∀ inum, (nodes' inum).type = (nodes inum).type)
    (addrs : ∀ inum, (nodes inum).type ≠ .free → (nodes' inum).addrs = (nodes inum).addrs) :
    refs block nodes' = refs block nodes := by
  funext ⟨inum, slot⟩
  simp only [refs, type inum]
  split
  · rfl
  · rename_i live
    cases slot <;> simp only [addrAt, addrs inum live]

theorem refs_node_congr {ip' : Inode} (type : ip'.type = ip.type) (addrs : ip'.addrs = ip.addrs) :
    refs block (update nodes inum ip') = refs block (update nodes inum ip) := by
  grind [update_self, update_of_ne, refs_nodes_congr]

theorem refs_node_eq {ref : Nat × Slot → Nat} {key : Nat × Slot} {value : Nat}
    (live : ip.type ≠ .free) (isKey : inum = key.1)
    (others : ∀ other, other.1 ≠ inum → refs block nodes other = ref other)
    (self : ∀ slot, addrAt block ip slot = if slot = key.2 then value else ref (inum, slot)) :
    refs block (update nodes inum ip) = update ref key value := by
  obtain ⟨holder, slot⟩ := key
  subst isKey
  funext ⟨other, otherSlot⟩
  by_cases same : other = inum
  · grind [refs_node_self, update_self, update_of_ne]
  · grind [refs_node_other, update_of_ne]

theorem refs_setAddr_direct {index addr : Nat} (live : ip.type ≠ .free) (inside : index < ndirect) :
    refs block (update nodes inum (ip.setAddr index addr)) =
      update (refs block (update nodes inum ip)) (inum, .direct index) addr := by
  refine refs_node_eq live rfl (fun other different => (refs_node_other different).symm) ?_
  intro slot
  rw [refs_node_self live]
  have notIndirect : ndirect ≠ index := by omega
  cases slot with
  | direct other =>
    by_cases same : other = index
    · simp [addrAt, Inode.setAddr, same, inside]
    · simp [addrAt, Inode.setAddr, same]
  | indirect => simp [addrAt, Inode.setAddr, update_of_ne notIndirect]
  | entry other => simp [addrAt, Inode.setAddr, update_of_ne notIndirect]

theorem refs_setAddr_indirect {addr : Nat} (live : ip.type ≠ .free) (none : ip.addrs ndirect = 0)
    (zeroed : block addr = fun _ => 0) :
    refs block (update nodes inum (ip.setAddr ndirect addr)) =
      update (refs block (update nodes inum ip)) (inum, .indirect) addr := by
  refine refs_node_eq live rfl (fun other different => (refs_node_other different).symm) ?_
  intro slot
  rw [refs_node_self live]
  cases slot with
  | direct other =>
    by_cases inside : other < ndirect
    · have notIndirect : other ≠ ndirect := by omega
      simp [addrAt, Inode.setAddr, inside, update_of_ne notIndirect]
    · simp [addrAt, inside]
  | indirect => simp [addrAt, Inode.setAddr]
  | entry other =>
    simp_all [word, byte, addrAt, Inode.setAddr]

theorem refs_setEntry {index : Nat} {value : BitVec 32} (live : (nodes inum).type ≠ .free)
    (present : (nodes inum).addrs ndirect ≠ 0) (inside : index < nindirect)
    (unique : ∀ other, other ≠ inum → (nodes other).type ≠ .free →
      (nodes other).addrs ndirect ≠ (nodes inum).addrs ndirect) :
    refs (update block ((nodes inum).addrs ndirect)
        (setWord (block ((nodes inum).addrs ndirect)) index value)) nodes =
      update (refs block nodes) (inum, .entry index) value.toNat := by
  funext ⟨other, slot⟩
  by_cases same : other = inum
  · subst same
    rw [refs_of_live live]
    cases slot with
    | direct other => simp [refs_of_live live, addrAt]
    | indirect => simp [refs_of_live live, addrAt]
    | entry entry =>
      by_cases sameEntry : entry = index
      · subst sameEntry
        simp [addrAt, present, inside]
      · grind [update_of_ne, refs_of_live, addrAt, word_setWord_of_ne]
  · simp_all [update_of_ne, refs, addrAt]

end Blocks

end Fs

end Xv6
