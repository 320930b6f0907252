import Xv6.InodeContents
import Xv6.MkfsImage

/-!
# `mkfs` allocates as the kernel would

While `mkfs` builds the image, the bitmap is only in the counter `freeblock`.
Seen with the bitmap that this counter stands for, every step of `iappend` is a
step of the kernel's `writei`, and what is known of `writei` holds for the image.
-/

namespace Xv6

namespace Mkfs

open DiskBlock OwnershipTable
open Function (update update_comm update_idem update_of_ne update_self)
open Fs (Inode FileType SuperBlock ndirect nindirect maxfile)

/-! ## The bitmap -/

theorem bitmap_succ (used : Nat) : bitmap (used + 1) = setBit (bitmap used) used := by
  rw [bitmap, bitmap, List.range_succ, List.foldl_append]
  rfl

theorem bitClear_bitmap {used : Nat} (inside : used ≤ bitCount) (bit : Nat) :
    bitClear (bitmap used) bit = decide (used ≤ bit) := by
  induction used with
  | zero =>
    simp [bitClear_eq, byte, bitmap]
  | succ used ih =>
    rw [bitmap_succ, bitClear_setBit _ inside, ih (Nat.le_of_succ_le inside), Bool.eq_iff_iff]
    simp only [Bool.and_eq_true, decide_eq_true_eq]
    omega

/-- The image with the bitmap that `freeblock` stands for. -/
def Image.view (image : Image) : Fs.State where
  block := update image.block bmapstart (bitmap image.freeblock)
  dinode := image.dinode
  icache _ := none

/-- Blocks that have not been handed out are clear. -/
structure Image.Clean (image : Image) : Prop where
  isData : nmeta ≤ image.freeblock
  clear : ∀ b, image.freeblock ≤ b → image.block b = fun _ => 0

theorem bblock_superblock {b : Nat} (inside : b < fssize) : superblock.bblock b = bmapstart := by
  have small : b < 1000 := inside
  simp only [SuperBlock.bblock, superblock, Fs.bpb, bitCount]
  omega

section View

variable {image : Image} {din : Inode} {index b : Nat} {data : Data}

theorem view_block_of_data (isData : nmeta ≤ b) : image.view.block b = image.block b := by
  apply update_of_ne
  have : 59 ≤ b := isData
  change b ≠ 58
  omega

theorem used_view (inside : b < fssize) (room : image.freeblock ≤ fssize) :
    Fs.used superblock image.view.block b ↔ b < image.freeblock := by
  have small : b < 1000 := inside
  have fits : image.freeblock ≤ bitCount := by
    grind
  have bit : b % Fs.bpb = b := by
    change b % 4096 = b
    omega
  rw [Fs.used, bblock_superblock inside, bit]
  change bitClear (update image.block bmapstart (bitmap image.freeblock) bmapstart) b =
    false ↔ _
  rw [update_self, bitClear_bitmap fits]
  simp

theorem findFree_view (room : image.freeblock < fssize) :
    image.view.findFree superblock = some (0, image.freeblock) := by
  have small : image.freeblock < 1000 := room
  have fits : image.freeblock ≤ bitCount := by
    change _ ≤ 4096
    omega
  have bits : ∀ bi, bitClear (image.view.block (superblock.bblock 0)) bi =
      decide (image.freeblock ≤ bi) := by
    intro bi
    change bitClear
      (update image.block bmapstart (bitmap image.freeblock) bmapstart) bi = _
    rw [update_self, bitClear_bitmap fits]
  have first : (List.range (min Fs.bpb (superblock.size - 0))).find? (fun bi =>
      bitClear (image.view.block (superblock.bblock 0)) bi) = some image.freeblock := by
    rw [List.find?_range_eq_some]
    simp only [bits, decide_eq_true_eq, le_refl, List.mem_range, true_and]
    refine ⟨?_, fun j below => by simpa using below⟩
    exact small
  have groups : List.range ((superblock.size + Fs.bpb - 1) / Fs.bpb) = [0] := by decide
  simp only [Fs.State.findFree, groups, List.findSome?_cons, Nat.zero_mul, first, Option.map_some]

/-- The kernel's `balloc` hands out the block that `mkfs` hands out. -/
theorem balloc_view (clean : image.Clean) (room : image.freeblock < fssize) :
    Fs.balloc superblock image.view = .ok (image.freeblock, image.takeBlock.view) := by
  have notBitmap : image.freeblock ≠ bmapstart := by
    have above : 59 ≤ image.freeblock := clean.isData
    change _ ≠ 58
    omega
  rw [Fs.balloc, findFree_view room]
  simp only [Nat.zero_add]
  refine congrArg Except.ok (Prod.ext rfl ?_)
  simp only [Fs.State.bzero, Fs.State.logWrite, Image.view, Image.takeBlock, Fs.State.mk.injEq,
    and_self, and_true, bblock_superblock (by decide : 0 < fssize), update_idem,
    update_self, ← bitmap_succ]
  funext b
  by_cases same : b = image.freeblock
  · subst same
    rw [update_self, update_of_ne notBitmap, clean.clear _ le_rfl]
  · rw [update_of_ne same]

theorem Image.Clean.takeBlock (clean : image.Clean) : image.takeBlock.Clean :=
  ⟨Nat.le_succ_of_le clean.isData, fun b above => clean.clear b (Nat.le_of_succ_le above)⟩

theorem Image.Clean.wsect (clean : image.Clean) (below : b < image.freeblock) (data : Data) :
    (image.wsect b data).Clean := by
  refine ⟨clean.isData, fun other above => ?_⟩
  change update image.block b data other = _
  have above : image.freeblock ≤ other := above
  rw [update_of_ne (by omega)]
  exact clean.clear other above

theorem view_wsect (isData : nmeta ≤ b) (data : Data) :
    (image.wsect b data).view = image.view.logWrite b data := by
  have notBitmap : b ≠ bmapstart := by
    grind
  simp only [Image.view, Image.wsect, Fs.State.logWrite, Fs.State.mk.injEq, and_self, and_true]
  exact update_comm notBitmap _ _ _

theorem appendAddr_clean (clean : image.Clean) : (appendAddr din index image).2.Clean := by
  rw [appendAddr]
  split
  · exact clean.takeBlock
  · exact clean

theorem bmapAddr_view (clean : image.Clean)
    (fits : (appendAddr din index image).2.freeblock ≤ fssize) :
    Fs.bmapAddr superblock din index image.view =
      .ok ((appendAddr din index image).1, (appendAddr din index image).2.view) := by
  rw [appendAddr] at fits ⊢
  rw [Fs.bmapAddr]
  split
  · rename_i none
    rw [if_pos none] at fits
    rw [balloc_view clean fits]
    rfl
  · rfl

theorem appendEntry_view {indirect : Nat} (isData : nmeta ≤ indirect)
    (empty : word (image.block indirect) index = 0) :
    (appendEntry indirect index image).view =
      image.takeBlock.view.logWrite indirect
        (setWord (image.takeBlock.view.block indirect) index
          (BitVec.ofNat 32 image.freeblock)) := by
  rw [appendEntry, if_pos empty, view_wsect isData, view_block_of_data isData]
  rfl

end View

/-! ## Blocks of an inode -/

def blocksFor (size : Nat) : Nat :=
  (size + bsize - 1) / bsize + if ndirect * bsize < size then 1 else 0

structure Filled (ref : Nat × Fs.Slot → Nat) (inum size : Nat) : Prop where
  indirect : ref (inum, .indirect) ≠ 0 ↔ ndirect * bsize < size
  blocks : ∀ bn < maxfile, ref (inum, Fs.blockSlot bn) ≠ 0 ↔ bn * bsize < size

/-- Growing within the last block takes a block when the size is a multiple of the
block size, and a second one for the first entry of the indirect block. -/
theorem blocksFor_grow {off off' : Nat} (after : off < off')
    (within : off' ≤ (off / bsize + 1) * bsize) :
    blocksFor off' = blocksFor off + (if off / bsize * bsize < off then 0 else 1) +
      if ndirect ≤ off / bsize ∧ ¬ ndirect * bsize < off then 1 else 0 := by
  simp only [blocksFor, bsize, ndirect] at *
  split_ifs <;> omega

theorem multiple_of_short {off : Nat} (far : ndirect ≤ off / bsize)
    (short : ¬ ndirect * bsize < off) : ¬ off / bsize * bsize < off := by
  grind

theorem word_zero (index : Nat) : word (fun _ => 0) index = 0 := by
  simp [word, byte]

section Append

variable {image : Image} {din : Inode} {inum off : Nat}

theorem indirect_inside (owns : Fs.Owns superblock image.view.block (image.view.nodes inum din))
    (live : din.type ≠ .free) (room : image.freeblock ≤ fssize) (present : din.addrs ndirect ≠ 0) :
    nmeta ≤ din.addrs ndirect ∧ din.addrs ndirect < image.freeblock := by
  have holder : image.view.refs inum din (inum, .indirect) = din.addrs ndirect :=
    Fs.refs_node_self live _
  have holds : image.view.refs inum din (inum, .indirect) ≠ 0 := by rwa [holder]
  obtain ⟨isData, below⟩ := owns.inside _ holds
  have marked := owns.used_ref holds
  change nmeta ≤ image.view.refs inum din (inum, .indirect) at isData
  rw [holder] at isData
  refine ⟨isData, ?_⟩
  have inUse := (used_view below room).mp marked
  change image.view.refs inum din (inum, .indirect) < _ at inUse
  rwa [holder] at inUse

theorem appendBlock_freeblock (clean : image.Clean)
    (owns : Fs.Owns superblock image.view.block (image.view.nodes inum din))
    (live : din.type ≠ .free) (room : image.freeblock ≤ fssize)
    (filled : Filled (image.view.refs inum din) inum off) (inside : off / bsize < maxfile)
    {off' : Nat} (after : off < off') (within : off' ≤ (off / bsize + 1) * bsize) :
    (appendBlock din (off / bsize) image).2.2.freeblock + blocksFor off =
      image.freeblock + blocksFor off' := by
  have slot := filled.blocks (off / bsize) inside
  rw [blocksFor_grow after within, appendBlock]
  by_cases direct : off / bsize < ndirect
  · have holder : image.view.refs inum din (inum, .direct (off / bsize)) =
        din.addrs (off / bsize) := (Fs.refs_node_self live _).trans (if_pos direct)
    rw [Fs.blockSlot_direct direct, holder] at slot
    have noIndirect : ¬ (ndirect ≤ off / bsize ∧ ¬ ndirect * bsize < off) :=
      fun far => absurd far.1 (not_le.mpr direct)
    rw [if_pos direct, if_neg noIndirect, ← if_congr slot rfl rfl]
    rw [appendAddr]
    by_cases none : din.addrs (off / bsize) = 0
    · simp only [none, if_true, ne_eq, not_true, if_false, Image.takeBlock]
      omega
    · grind
  · have holder : image.view.refs inum din (inum, .indirect) = din.addrs ndirect :=
      Fs.refs_node_self live _
    have present := filled.indirect
    rw [holder] at present
    rw [if_neg direct]
    by_cases none : din.addrs ndirect = 0
    · have short : ¬ ndirect * bsize < off := fun far => present.mpr far none
      have exact := multiple_of_short (not_lt.mp direct) short
      have fresh : word (image.block image.freeblock) (off / bsize - ndirect) = 0 := by
        rw [clean.clear _ le_rfl, word_zero]
      rw [if_neg exact, if_pos ⟨not_lt.mp direct, short⟩]
      simp only [appendAddr, none, if_true, Inode.setAddr, update_self]
      change (if word (image.block image.freeblock) _ = 0 then _ else _ : Image).freeblock + _ = _
      rw [if_pos fresh]
      change image.freeblock + 1 + 1 + _ = _
      omega
    · have isIndirect := present.mp none
      have isData := (indirect_inside owns live room none).1
      have holds : image.view.refs inum din (inum, Fs.blockSlot (off / bsize)) =
          (word (image.block (din.addrs ndirect)) (off / bsize - ndirect)).toNat := by
        have entry : off / bsize - ndirect < nindirect := by
          grind
        rw [Fs.blockSlot_entry direct, ← view_block_of_data isData]
        exact (Fs.refs_node_self live _).trans (if_pos ⟨none, entry⟩)
      rw [holds] at slot
      have noIndirect : ¬ (ndirect ≤ off / bsize ∧ ¬ ndirect * bsize < off) :=
        fun far => far.2 isIndirect
      rw [if_neg noIndirect, ← if_congr slot rfl rfl]
      simp only [appendAddr, none, if_false]
      rw [appendEntry]
      by_cases empty : word (image.block (din.addrs ndirect)) (off / bsize - ndirect) = 0
      · rw [if_pos empty, empty]
        change image.freeblock + 1 + _ = _
        simp
        omega
      · have nonzero : (word (image.block (din.addrs ndirect)) (off / bsize - ndirect)).toNat ≠ 0 :=
          fun zero => empty (BitVec.eq_of_toNat_eq zero)
        rw [if_neg empty, if_pos nonzero]
        omega

theorem appendAddr_indirect (clean : image.Clean)
    (owns : Fs.Owns superblock image.view.block (image.view.nodes inum din))
    (live : din.type ≠ .free) (room : image.freeblock ≤ fssize) :
    nmeta ≤ (appendAddr din ndirect image).1.addrs ndirect ∧
      (appendAddr din ndirect image).1.addrs ndirect <
        (appendAddr din ndirect image).2.freeblock := by
  rw [appendAddr]
  split
  · exact ⟨clean.isData, Nat.lt_succ_self _⟩
  · rename_i present
    exact indirect_inside owns live room present

theorem appendEntry_freeblock_le (image : Image) (indirect index : Nat) :
    image.freeblock ≤ (appendEntry indirect index image).freeblock := by
  rw [appendEntry]
  split
  · exact Nat.le_succ _
  · exact le_rfl

/-- The kernel's `bmap` finds or allocates the block that `iappend` does. -/
theorem bmap_view {fbn : Nat} (clean : image.Clean)
    (owns : Fs.Owns superblock image.view.block (image.view.nodes inum din))
    (live : din.type ≠ .free) (room : image.freeblock ≤ fssize) (inside : fbn < maxfile)
    (fits : (appendBlock din fbn image).2.2.freeblock ≤ fssize) :
    Fs.bmap superblock din fbn image.view =
        .ok ((appendBlock din fbn image).1, (appendBlock din fbn image).2.1,
          (appendBlock din fbn image).2.2.view) ∧
      (appendBlock din fbn image).2.2.Clean := by
  rw [appendBlock] at fits ⊢
  rw [Fs.bmap]
  by_cases direct : fbn < ndirect
  · rw [if_pos direct] at fits ⊢
    rw [if_pos direct, bmapAddr_view clean fits]
    exact ⟨rfl, appendAddr_clean clean⟩
  · have entry : fbn - ndirect < nindirect := by
      simp only [maxfile] at inside
      omega
    rw [if_neg direct] at fits ⊢
    rw [if_neg direct, if_pos entry]
    obtain ⟨isData, below⟩ := appendAddr_indirect clean owns live room
    have cleanAfter := @appendAddr_clean image din ndirect clean
    have grows := appendEntry_freeblock_le (appendAddr din ndirect image).2
      ((appendAddr din ndirect image).1.addrs ndirect) (fbn - ndirect)
    have fits : (appendEntry ((appendAddr din ndirect image).1.addrs ndirect) (fbn - ndirect)
      (appendAddr din ndirect image).2).freeblock ≤ fssize := fits
    rw [bmapAddr_view clean (grows.trans fits)]
    dsimp only
    generalize (appendAddr din ndirect image).1 = after at *
    generalize (appendAddr din ndirect image).2 = taken at *
    change (if word (taken.view.block (after.addrs ndirect)) (fbn - ndirect) = 0 then _ else _) =
      _ ∧ _
    rw [view_block_of_data isData]
    by_cases empty : word (taken.block (after.addrs ndirect)) (fbn - ndirect) = 0
    · have entryView := appendEntry_view isData empty
      rw [appendEntry, if_pos empty] at fits
      have space : taken.freeblock < fssize := fits
      have value : (word ((appendEntry (after.addrs ndirect) (fbn - ndirect) taken).block
          (after.addrs ndirect)) (fbn - ndirect)).toNat = taken.freeblock := by
        rw [appendEntry, if_pos empty]
        change (word (update taken.block (after.addrs ndirect) _ _) _).toNat = _
        rw [update_self, word_setWord_self _ entry, BitVec.toNat_ofNat]
        apply Nat.mod_eq_of_lt
        exact space.trans (by decide)
      rw [if_pos empty, balloc_view cleanAfter space, value, entryView]
      refine ⟨rfl, ?_⟩
      rw [appendEntry, if_pos empty]
      exact cleanAfter.takeBlock.wsect (Nat.lt_succ_of_lt below) _
    · rw [if_neg empty, appendEntry, if_neg empty]
      exact ⟨rfl, cleanAfter⟩

theorem appendBlock_freeinode (din : Inode) (fbn : Nat) (image : Image) :
    (appendBlock din fbn image).2.2.freeinode = image.freeinode := by
  have addr : ∀ index, (appendAddr din index image).2.freeinode = image.freeinode := by
    intro index
    rw [appendAddr]
    split <;> rfl
  rw [appendBlock]
  split
  · exact addr fbn
  · refine Eq.trans ?_ (addr ndirect)
    change (appendEntry _ _ _).freeinode = _
    rw [appendEntry]
    split <;> rfl

theorem Filled.bmap {sb : SuperBlock} {state next : Fs.State} {ip ip' : Inode} {addr : Nat}
    (filled : Filled (state.refs inum ip) inum off)
    (owns : Fs.Owns sb state.block (state.nodes inum ip)) (live : ip.type ≠ .free)
    (mapped : Fs.bmap sb ip (off / bsize) state = .ok (addr, ip', next)) {off' : Nat}
    (after : off < off') (within : off' ≤ (off / bsize + 1) * bsize) :
    Filled (next.refs inum ip') inum off' := by
  obtain ⟨wrote, -, present, holder⟩ := @Fs.bmap_wrote _ _ off _ _ _ _ _ _ owns live mapped
  have liveAfter : ip'.type ≠ .free := by rwa [wrote.type_eq]
  have start : off / bsize * bsize ≤ off := Nat.div_mul_le_self off bsize
  refine ⟨?_, ?_⟩
  · by_cases far : ndirect ≤ off / bsize
    · have grown : ndirect * bsize < off' := by
        have bound : ndirect * bsize ≤ off / bsize * bsize := Nat.mul_le_mul_right bsize far
        omega
      refine iff_of_true ?_ grown
      have entry : next.refs inum ip' (inum, Fs.blockSlot (off / bsize)) ≠ 0 := by rwa [holder]
      rw [Fs.blockSlot_entry (not_lt.mpr far)] at entry
      have entry : Fs.addrAt next.block ip' (.entry (off / bsize - ndirect)) ≠ 0 := by
        rwa [Fs.State.refs, Fs.State.nodes, Fs.refs_node_self liveAfter] at entry
      have indirect : next.refs inum ip' (inum, .indirect) = ip'.addrs ndirect :=
        Fs.refs_node_self liveAfter _
      rw [indirect]
      intro zero
      exact entry (if_neg fun found => found.1 zero)
    · have short : ¬ ndirect * bsize < off ∧ ¬ ndirect * bsize < off' := by
        have bound : (off / bsize + 1) * bsize ≤ ndirect * bsize :=
          Nat.mul_le_mul_right bsize (not_le.mp far)
        constructor <;> omega
      rw [Fs.bmap_refs owns live mapped
        (fun same => Fs.blockSlot_ne_indirect _ (congrArg Prod.snd same).symm)
        (fun close => absurd close far), filled.indirect]
      exact iff_of_false short.1 short.2
  · intro bn inside
    by_cases same : bn = off / bsize
    · grind
    · rw [Fs.bmap_refs owns live mapped
        (fun equal => same (Fs.blockSlot_injective (congrArg Prod.snd equal)))
        (fun _ equal => Fs.blockSlot_ne_indirect _ (congrArg Prod.snd equal)),
        filled.blocks bn inside]
      constructor
      · exact fun below => below.trans after
      · intro below
        have block : bn < off / bsize := by
          grind
        calc
          bn * bsize < (bn + 1) * bsize :=
            Nat.mul_lt_mul_of_pos_right (Nat.lt_succ_self bn) (by decide)
          _ ≤ off / bsize * bsize := Nat.mul_le_mul_right bsize block
          _ ≤ off := start

theorem chunk_spec {off n : Nat} (positive : n ≠ 0) :
    off < off + min n ((off / bsize + 1) * bsize - off) ∧
      off + min n ((off / bsize + 1) * bsize - off) ≤ (off / bsize + 1) * bsize ∧
      off - off / bsize * bsize = off % bsize ∧
      (off / bsize + 1) * bsize - off = bsize - off % bsize := by
  grind

theorem blocksFor_mono {first second : Nat} (le : first ≤ second) :
    blocksFor first ≤ blocksFor second := by
  simp only [blocksFor, bsize, ndirect]
  split_ifs <;> omega

/-- One iteration of `iappend` over `m` bytes, with the same step of the kernel's
`writei`. -/
structure Iterates (inum off m : Nat) (src : List UInt8) (din : Inode) (image : Image)
    (din' : Inode) (image' : Image) : Prop where
  appends : ∀ fuel, appendLoop (fuel + 1) din off src image =
    appendLoop fuel din' (off + m) (src.drop m) image'
  writes : ∀ fuel, Fs.writeiLoop superblock (fuel + 1) din off src image.view =
    Fs.writeiLoop superblock fuel din' (off + m) (src.drop m) image'.view
  owns : Fs.Owns superblock image'.view.block (image'.view.nodes inum din')
  live : din'.type ≠ .free
  clean : image'.Clean
  freeblock : image'.freeblock + blocksFor off = image.freeblock + blocksFor (off + m)
  freeinode : image'.freeinode = image.freeinode
  filled : Filled (image'.view.refs inum din') inum (off + m)
  others : ∀ key, key.1 ≠ inum → image'.view.refs inum din' key = image.view.refs inum din key

theorem exists_iteration {src : List UInt8} {m : Nat} (clean : image.Clean)
    (owns : Fs.Owns superblock image.view.block (image.view.nodes inum din))
    (live : din.type ≠ .free) (filled : Filled (image.view.refs inum din) inum off)
    (nonempty : src.length ≠ 0) (inside : off / bsize < maxfile)
    (chunk : min src.length ((off / bsize + 1) * bsize - off) = m)
    (before : image.freeblock ≤ fssize)
    (room : image.freeblock + blocksFor (off + m) ≤ fssize + blocksFor off) :
    ∃ din' image', Iterates inum off m src din image din' image' := by
  obtain ⟨after, within, position, piece⟩ := @chunk_spec off src.length nonempty
  rw [chunk] at after within
  have taken := appendBlock_freeblock clean owns live before filled inside after within
  obtain ⟨mapped, cleanAfter⟩ := bmap_view clean owns live before inside (by omega)
  have filledAfter := filled.bmap owns live mapped after within
  have freeinode := appendBlock_freeinode din (off / bsize) image
  obtain ⟨wrote, -, present, holder⟩ := @Fs.bmap_wrote _ _ off _ _ _ _ _ _ owns live mapped
  have others : ∀ key : Nat × Fs.Slot, key.1 ≠ inum → _ := fun key different =>
    Fs.bmap_refs owns live mapped (fun same => different (congrArg Prod.fst same))
      (fun _ same => different (congrArg Prod.fst same))
  have unfolds : ∀ fuel, appendLoop (fuel + 1) din off src image =
      appendLoop fuel (appendBlock din (off / bsize) image).2.1 (off + m) (src.drop m)
        ((appendBlock din (off / bsize) image).2.2.wsect (appendBlock din (off / bsize) image).1
          (setBytes ((appendBlock din (off / bsize) image).2.2.block
            (appendBlock din (off / bsize) image).1) (off % bsize) (src.take m))) := by
    intro fuel
    rw [appendLoop, if_neg nonempty, if_pos inside, chunk, position]
  generalize appendBlock din (off / bsize) image = result at *
  obtain ⟨x, din', image'⟩ := result
  have liveAfter : din'.type ≠ .free := by rwa [wrote.type_eq]
  have holds : image'.view.refs inum din' (inum, Fs.blockSlot (off / bsize)) ≠ 0 := by
    rwa [holder]
  obtain ⟨isData, below⟩ := wrote.owns.inside _ holds
  have inUse := (used_view below (by omega)).mp (wrote.owns.used_ref holds)
  have same : Fs.refs image'.view.block (image'.view.nodes inum din')
      (inum, Fs.blockSlot (off / bsize)) = x := holder
  rw [same] at isData inUse
  have length : (src.take m).length = m := by
    rw [List.length_take]
    omega
  have fits : off % bsize + (src.take m).length ≤ bsize := by
    omega
  have stores := Fs.wrote_block wrote.owns holder present fits
  have sameRefs := Fs.refs_write_data wrote.owns holder present
    (setBytes (image'.view.block x) (off % bsize) (src.take m))
  have written : (image'.wsect x (setBytes (image'.block x) (off % bsize) (src.take m))).view =
      image'.view.logWrite x (setBytes (image'.view.block x) (off % bsize) (src.take m)) := by
    rw [view_wsect isData, view_block_of_data isData]
  refine ⟨din', image'.wsect x (setBytes (image'.block x) (off % bsize) (src.take m)), unfolds,
    fun fuel => ?_, ?_, liveAfter, cleanAfter.wsect inUse _, taken, freeinode, ?_, ?_⟩
  · rw [Fs.writeiLoop, if_neg nonempty, mapped, written, ← chunk, piece]
    rfl
  · rw [written]
    exact stores.owns
  · rw [written, sameRefs]
    exact filledAfter
  · rw [written, sameRefs]
    exact others

/-- What `iappend` does to the image, and that the kernel's `writei` does the same. -/
structure Appends (fuel inum off : Nat) (src : List UInt8) (din : Inode) (image : Image)
    (din' : Inode) (image' : Image) : Prop where
  appends : appendLoop fuel din off src image = some (off + src.length, din', image')
  writes : Fs.writeiLoop superblock fuel din off src image.view =
    .ok (off + src.length, din', image'.view)
  clean : image'.Clean
  freeblock : image'.freeblock + blocksFor off = image.freeblock + blocksFor (off + src.length)
  freeinode : image'.freeinode = image.freeinode
  filled : Filled (image'.view.refs inum din') inum (off + src.length)
  others : ∀ key, key.1 ≠ inum → image'.view.refs inum din' key = image.view.refs inum din key

theorem Appends.refl (fuel : Nat) (clean : image.Clean)
    (filled : Filled (image.view.refs inum din) inum off) :
    Appends fuel inum off [] din image din image := by
  cases fuel with
  | zero => exact ⟨rfl, rfl, clean, rfl, rfl, filled, fun _ _ => rfl⟩
  | succ fuel => exact ⟨rfl, rfl, clean, rfl, rfl, filled, fun _ _ => rfl⟩

theorem exists_appendLoop {src : List UInt8} (fuel : Nat) (enough : src.length ≤ fuel)
    (clean : image.Clean)
    (owns : Fs.Owns superblock image.view.block (image.view.nodes inum din))
    (live : din.type ≠ .free) (filled : Filled (image.view.refs inum din) inum off)
    (limit : off + src.length ≤ maxfile * bsize)
    (room : image.freeblock + blocksFor (off + src.length) ≤ fssize + blocksFor off) :
    ∃ din' image', Appends fuel inum off src din image din' image' := by
  induction fuel generalizing off src din image with
  | zero =>
    obtain rfl : src = [] := List.length_eq_zero_iff.mp (Nat.le_zero.mp enough)
    exact ⟨din, image, .refl 0 clean filled⟩
  | succ fuel ih =>
    by_cases empty : src.length = 0
    · obtain rfl : src = [] := List.length_eq_zero_iff.mp empty
      exact ⟨din, image, .refl _ clean filled⟩
    have inside : off / bsize < maxfile :=
      Nat.div_lt_of_lt_mul (by rw [Nat.mul_comm]; omega)
    have after := (@chunk_spec off src.length empty).1
    generalize chunk : min src.length ((off / bsize + 1) * bsize - off) = m at after
    have grows := blocksFor_mono (show off + m ≤ off + src.length by omega)
    have more := blocksFor_mono (Nat.le_add_right off src.length)
    obtain ⟨din₁, image₁, first⟩ := exists_iteration clean owns live filled empty inside chunk
      (by omega) (by omega)
    have total : off + m + (src.drop m).length = off + src.length := by
      rw [List.length_drop]
      omega
    have taken := first.freeblock
    have fewer : (src.drop m).length ≤ fuel := by
      omega
    obtain ⟨din₂, image₂, rest⟩ := ih fewer first.clean first.owns
      first.live first.filled (by rwa [total]) (by rw [total]; omega)
    obtain ⟨appends, writes, clean, freeblock, freeinode, filled, others⟩ := rest
    rw [total] at appends writes freeblock filled
    refine ⟨din₂, image₂, (first.appends fuel).trans appends, (first.writes fuel).trans writes,
      clean, by omega, freeinode.trans first.freeinode, filled, fun key different => ?_⟩
    rw [others key different, first.others key different]

end Append

end Mkfs

end Xv6
