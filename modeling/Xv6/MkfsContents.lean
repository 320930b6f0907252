import Mathlib.Algebra.Order.BigOperators.Group.Finset
import Xv6.MkfsKernelView
import Xv6.TableSums

/-!
# What an image contains while it is built

Every call of `iappend` puts its bytes behind the contents of one inode, and
`ialloc` adds an inode without contents.  Both keep the invariant of the kernel,
and the number of blocks handed out is the number that the contents need.
-/

namespace Xv6

namespace Mkfs

open DiskBlock OwnershipTable
open Function (update update_eq_self update_of_ne update_self)
open Fs (Inode FileType SuperBlock ndirect nindirect maxfile)

def Image.refs (image : Image) : Nat × Fs.Slot → Nat :=
  Fs.refs image.view.block image.dinode

structure Built (image : Image) (contents : Nat → List UInt8) : Prop where
  clean : image.Clean
  started : 1 ≤ image.freeinode
  owns : Fs.Owns superblock image.view.block image.dinode
  freeblock : image.freeblock =
    nmeta + ∑ inum ∈ Finset.range image.freeinode, blocksFor (contents inum).length
  live : ∀ inum, (image.dinode inum).type ≠ .free ↔ 1 ≤ inum ∧ inum < image.freeinode
  fresh : ∀ inum, (image.dinode inum).type = .free →
    image.dinode inum = .zero ∧ contents inum = []
  size : ∀ inum, (image.dinode inum).size = (contents inum).length
  filled : ∀ inum, (image.dinode inum).type ≠ .free →
    Filled image.refs inum (contents inum).length
  bytes : ∀ inum, ∀ k < (contents inum).length,
    (contents inum)[k]? = some (Fs.byteAt image.view.block image.refs inum k)

/-- All contents of the image: each inode small enough, and all blocks together. -/
structure Fits (count : Nat) (final : Nat → List UInt8) : Prop where
  limit : ∀ inum, (final inum).length ≤ maxfile * bsize
  room : nmeta + ∑ inum ∈ Finset.range count, blocksFor (final inum).length ≤ fssize

section Building

variable {image : Image} {contents final : Nat → List UInt8} {count inum : Nat}

/-- What is there while the image is built needs no more blocks than the final
contents. -/
theorem Fits.sum_le (fits : Fits count final) {made : Nat} (few : made ≤ count)
    (le : ∀ inum, (contents inum).length ≤ (final inum).length) :
    nmeta + ∑ inum ∈ Finset.range made, blocksFor (contents inum).length ≤ fssize := by
  refine le_trans ?_ fits.room
  apply Nat.add_le_add_left
  calc
    _ ≤ ∑ inum ∈ Finset.range made, blocksFor (final inum).length :=
      Finset.sum_le_sum fun inum _ => blocksFor_mono (le inum)
    _ ≤ _ := Finset.sum_le_sum_of_subset (Finset.range_subset_range.mpr few)

theorem Built.covered (built : Built image contents) {k : Nat}
    (limit : (contents inum).length ≤ maxfile * bsize) (inside : k < (contents inum).length) :
    image.refs (inum, Fs.blockSlot (k / bsize)) ≠ 0 := by
  have live : (image.dinode inum).type ≠ .free := by
    intro free
    rw [(built.fresh inum free).2] at inside
    simp at inside
  have below : k / bsize < maxfile := Nat.div_lt_of_lt_mul (by rw [Nat.mul_comm]; omega)
  rw [(built.filled inum live).blocks _ below]
  exact (Nat.div_mul_le_self k bsize).trans_lt inside

theorem winode_type {image' : Image} {din' : Inode} (same : image'.dinode = image.dinode)
    (type : din'.type = (image.dinode inum).type) (size other : Nat) :
    ((image'.winode inum { din' with size := size }).dinode other).type =
      (image.dinode other).type := by
  change (update image'.dinode inum _ other).type = _
  by_cases here : other = inum
  · rw [here, update_self, ← type]
  · rw [update_of_ne here, same]

theorem Built.appended (built : Built image contents) {src : List UInt8} {din' : Inode}
    {image' : Image} (live : (image.dinode inum).type ≠ .free)
    (limit : ∀ other, (contents other).length ≤ maxfile * bsize)
    (appends : Appends src.length inum (contents inum).length src (image.dinode inum) image din'
      image')
    (wrote : Fs.Wrote superblock inum (contents inum).length src (image.dinode inum) image.view din'
      image'.view) :
    Built (image'.winode inum { din' with size := (contents inum).length + src.length })
      (update contents inum (contents inum ++ src)) := by
  have sameDinode : image'.dinode = image.dinode := wrote.dinode
  have sameRefs : image.view.refs inum (image.dinode inum) = image.refs :=
    congrArg (Fs.refs image.view.block) (update_eq_self inum image.dinode)
  have refs : (image'.winode inum { din' with
      size := (contents inum).length + src.length }).refs = image'.view.refs inum din' :=
    Fs.refs_node_congr rfl rfl
  have types := @winode_type image inum image' din' sameDinode wrote.type_eq
    ((contents inum).length + src.length)
  have sums := @sum_update_add _ _ _ _ contents inum (contents inum ++ src)
    (fun bytes => blocksFor bytes.length) (Finset.mem_range.mpr ((built.live inum).mp live).2)
  have before := built.freeblock
  have taken := appends.freeblock
  rw [List.length_append] at sums
  constructor
  case clean => exact ⟨appends.clean.isData, appends.clean.clear⟩
  case started =>
    change 1 ≤ image'.freeinode
    rw [appends.freeinode]
    exact built.started
  case owns =>
    exact wrote.owns.congr (fun _ _ => Iff.rfl) superblock.nmeta_le refs
  case freeblock =>
    change image'.freeblock = nmeta + ∑ other ∈ Finset.range image'.freeinode, _
    rw [appends.freeinode]
    omega
  case live =>
    intro other
    rw [types other, built.live other]
    change _ ↔ _ ∧ other < image'.freeinode
    rw [appends.freeinode]
  case fresh =>
    intro other free
    rw [types other] at free
    have different : other ≠ inum := fun same => live (same ▸ free)
    change update image'.dinode inum _ other = _ ∧ _
    rw [update_of_ne different, update_of_ne different, sameDinode]
    exact built.fresh other free
  case size =>
    intro other
    change (update image'.dinode inum _ other).size = _
    by_cases same : other = inum
    · rw [same, update_self, update_self, List.length_append]
    · rw [update_of_ne same, update_of_ne same, sameDinode, built.size]
  case filled =>
    intro other otherLive
    rw [types other] at otherLive
    rw [refs]
    by_cases same : other = inum
    · rw [same, update_self, List.length_append]
      exact appends.filled
    · rw [update_of_ne same]
      have filled := built.filled other otherLive
      rw [← sameRefs] at filled
      refine ⟨?_, fun bn inside => ?_⟩
      · rw [appends.others _ same]
        exact filled.indirect
      · rw [appends.others _ same]
        exact filled.blocks bn inside
  case bytes =>
    intro other k inside
    rw [refs]
    change _ = some (Fs.byteAt image'.view.block (image'.view.refs inum din') other k)
    have old : ∀ (below : k < (contents other).length),
        (other = inum → k < (contents inum).length) →
        (contents other)[k]? =
          some (Fs.byteAt image'.view.block (image'.view.refs inum din') other k) := by
      intro below before
      rw [built.bytes other k below, wrote.bytes other k, sameRefs]
      · rw [sameRefs]
        exact built.covered (limit other) below
      · exact fun same => .inl (before same)
    by_cases same : other = inum
    · subst same
      rw [update_self] at inside ⊢
      by_cases below : k < (contents other).length
      · grind
      · have offset : k - (contents other).length < src.length := by
          rw [List.length_append] at inside
          omega
        have written := wrote.written (k - (contents other).length) offset
        rw [Nat.add_sub_cancel' (not_lt.mp below)] at written
        rw [List.getElem?_append_right (not_lt.mp below), List.getElem?_eq_getElem offset, written]
    · grind

/-- `iappend` puts bytes behind the contents of an inode. -/
theorem Built.exists_iappend (built : Built image contents) (fits : Fits count final)
    (few : image.freeinode ≤ count) (live : (image.dinode inum).type ≠ .free) {src : List UInt8}
    (le : ∀ other, (update contents inum (contents inum ++ src) other).length ≤
      (final other).length) :
    ∃ image', iappend inum src image = some image' ∧ image'.freeinode = image.freeinode ∧
      (∀ other, (image'.dinode other).type = (image.dinode other).type) ∧
      Built image' (update contents inum (contents inum ++ src)) := by
  have sameNodes : image.view.nodes inum (image.dinode inum) = image.dinode :=
    update_eq_self inum image.dinode
  have sameRefs : image.view.refs inum (image.dinode inum) = image.refs :=
    congrArg (Fs.refs image.view.block) sameNodes
  have owns : Fs.Owns superblock image.view.block (image.view.nodes inum (image.dinode inum)) := by
    rw [sameNodes]
    exact built.owns
  have filled := built.filled inum live
  rw [← sameRefs] at filled
  have grown := le inum
  rw [update_self, List.length_append] at grown
  have total := fits.sum_le few le
  have sums := @sum_update_add _ _ _ _ contents inum (contents inum ++ src)
    (fun bytes => blocksFor bytes.length) (Finset.mem_range.mpr ((built.live inum).mp live).2)
  have freeblock := built.freeblock
  rw [List.length_append] at sums
  obtain ⟨din', image', appended⟩ := exists_appendLoop src.length le_rfl built.clean owns live
    filled (grown.trans (fits.limit inum)) (by omega)
  obtain ⟨wrote, -, -⟩ := Fs.writeiLoop_wrote owns live le_rfl appended.writes
  have result : iappend inum src image = some (image'.winode inum
      { din' with size := (contents inum).length + src.length }) := by
    rw [iappend, built.size, appended.appends]
    rfl
  refine ⟨_, result, appended.freeinode, winode_type wrote.dinode wrote.type_eq _,
    built.appended live (fun other => ?_) appended wrote⟩
  refine le_trans ?_ (fits.limit other)
  by_cases same : other = inum
  · rw [same]
    omega
  · grind

theorem refs_blank (key : Nat × Fs.Slot) : Image.blank.refs key = 0 := by
  have free : (Image.blank.dinode key.1).type = .free := rfl
  rw [Image.refs, Fs.refs, if_pos free]

theorem built_blank : Built Image.blank fun _ => [] := by
  constructor
  case clean => exact ⟨le_rfl, fun _ _ => rfl⟩
  case started => exact le_rfl
  case owns =>
    constructor
    case reserved =>
      intro b below
      exact (used_view (below.trans (by decide)) (by decide)).mpr below
    case inside => exact fun key nonzero => absurd (refs_blank key) nonzero
    case unique => exact fun first second nonzero => absurd (refs_blank first) nonzero
    case held =>
      intro b above below
      rw [used_view below (by decide)]
      refine iff_of_false (not_lt.mpr above) ?_
      rintro ⟨key, rfl⟩
      exact absurd (above.trans_eq (refs_blank key)) (by decide)
  case freeblock => decide
  case live =>
    intro inum
    refine iff_of_false (fun live => live rfl) ?_
    rintro ⟨above, below⟩
    exact absurd (above.trans_lt below) (lt_irrefl 1)
  case fresh => exact fun inum _ => ⟨rfl, rfl⟩
  case size => exact fun _ => rfl
  case filled => exact fun inum live => absurd rfl live
  case bytes => exact fun inum k inside => absurd inside (Nat.not_lt_zero k)

theorem Built.free_of_freeinode (built : Built image contents) :
    (image.dinode image.freeinode).type = .free := by
  by_contra live
  exact absurd ((built.live _).mp live).2 (lt_irrefl _)

theorem Built.ialloc (built : Built image contents) {type : FileType} (used : type ≠ .free) :
    Built (Mkfs.ialloc type image).2 contents := by
  have free := built.free_of_freeinode
  have empty := (built.fresh _ free).2
  have refs : (Mkfs.ialloc type image).2.refs = image.refs := by
    funext ⟨other, slot⟩
    by_cases same : other = image.freeinode
    · subst same
      have before : image.refs (image.freeinode, slot) = 0 := if_pos free
      rw [before]
      refine (Fs.refs_node_self (show ({ Inode.zero with type := type, nlink := 1 } : Inode).type ≠
        .free from used) slot).trans ?_
      cases slot <;> simp [Fs.addrAt, Inode.zero]
    · exact Fs.refs_node_other same
  have others : ∀ other, other ≠ image.freeinode →
      (Mkfs.ialloc type image).2.dinode other = image.dinode other :=
    fun other different => update_of_ne different _ _
  have self : (Mkfs.ialloc type image).2.dinode image.freeinode =
      { Inode.zero with type := type, nlink := 1 } := update_self _ _ _
  constructor
  case clean => exact ⟨built.clean.isData, built.clean.clear⟩
  case started => exact Nat.le_succ_of_le built.started
  case owns => exact built.owns.congr (fun _ _ => Iff.rfl) superblock.nmeta_le refs
  case freeblock =>
    change image.freeblock = nmeta + ∑ inum ∈ Finset.range (image.freeinode + 1), _
    rw [Finset.sum_range_succ, empty, built.freeblock]
    rfl
  case live =>
    intro other
    change _ ↔ 1 ≤ other ∧ other < image.freeinode + 1
    by_cases same : other = image.freeinode
    · subst same
      rw [self]
      exact iff_of_true used ⟨built.started, Nat.lt_succ_self _⟩
    · rw [others other same, built.live other]
      omega
  case fresh =>
    intro other isFree
    by_cases same : other = image.freeinode
    · grind
    · rw [others other same] at isFree ⊢
      exact built.fresh other isFree
  case size =>
    intro other
    by_cases same : other = image.freeinode
    · subst same
      rw [self, empty]
      rfl
    · rw [others other same]
      exact built.size other
  case filled =>
    intro other live
    rw [refs]
    by_cases same : other = image.freeinode
    · subst same
      have none : ∀ slot, image.refs (image.freeinode, slot) = 0 := fun _ => if_pos free
      rw [empty]
      exact ⟨by simp [none], by simp [none]⟩
    · rw [others other same] at live
      exact built.filled other live
  case bytes =>
    rw [refs]
    exact built.bytes

end Building

end Mkfs

end Xv6
