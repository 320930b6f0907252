import Xv6.DirectoryLookup
import Xv6.MkfsContents

/-!
# The kernel can use the image

The root directory lists the files, every file has its bytes, and the bitmap has
the blocks that are used.  The size of the root directory is rounded up by one
block too many when the entries fill their blocks exactly, and a file named like
one of the dots is hidden by it.
-/

namespace Xv6

namespace Mkfs

open DiskBlock OwnershipTable
open Function (update update_eq_self update_idem update_of_ne update_self)
open Fs (Inode FileType SuperBlock Record ndirect nindirect maxfile)

/-! ## What the inodes hold -/

def fileRecords (files : List File) : List Record :=
  (files.zipIdx 2).map fun numbered => ⟨numbered.2, numbered.1.name⟩

def rootRecords (files : List File) : List Record :=
  ⟨rootino, [46]⟩ :: ⟨rootino, [46, 46]⟩ :: fileRecords files

def layout (files : List File) : Nat → List UInt8
  | 0 => []
  | 1 => (rootRecords files).flatMap Record.bytes
  | index + 2 => (files[index]?.map File.bytes).getD []

section Layout

variable {files : List File} {file : File} {index : Nat}

theorem rootRecords_append (files rest : List File) :
    rootRecords (files ++ rest) = rootRecords files ++
      (rest.zipIdx (2 + files.length)).map fun numbered => ⟨numbered.2, numbered.1.name⟩ := by
  simp [rootRecords, fileRecords, List.zipIdx_append]

theorem rootRecords_length : (rootRecords files).length = files.length + 2 := by
  simp [rootRecords, fileRecords]

theorem rootRecords_file (files : List File) (index : Nat) :
    (rootRecords files)[index + 2]? = files[index]?.map fun file => ⟨index + 2, file.name⟩ := by
  simp [rootRecords, fileRecords, Nat.add_comm, Function.comp_def]

theorem layout_root_length : (layout files 1).length = 16 * (files.length + 2) := by
  have each : ∀ record ∈ rootRecords files, record.bytes.length = 16 :=
    fun record _ => Record.bytes_length
  change ((rootRecords files).flatMap Record.bytes).length = _
  rw [List.length_flatMap, List.map_congr_left each, List.map_const',
    List.sum_replicate_nat, rootRecords_length, Nat.mul_comm]

theorem layout_of_file (here : files[index]? = some file) :
    layout files (index + 2) = file.bytes := by
  simp [layout, here]

theorem layout_next (files : List File) : layout files (files.length + 2) = [] := by
  simp [layout]

theorem layout_isPrefix (files rest : List File) (inum : Nat) :
    layout files inum <+: layout (files ++ rest) inum := by
  match inum with
  | 0 => exact List.prefix_rfl
  | 1 =>
    change _ <+: (rootRecords _).flatMap _
    rw [rootRecords_append, List.flatMap_append]
    exact List.prefix_append _ _
  | index + 2 =>
    grind [layout, List.getElem?_append_left, List.getElem?_eq_none]

theorem layout_append_singleton (files : List File) (file : File) :
    layout (files ++ [file]) = update (update (layout files) 1
      (layout files 1 ++ dirent (files.length + 2) file.name)) (files.length + 2) file.bytes := by
  funext inum
  match inum with
  | 0 => simp [layout]
  | 1 =>
    simp [layout, rootRecords_append, Nat.add_comm, Record.bytes, dirent]
  | index + 2 =>
    grind [layout, update_of_ne, List.getElem?_append_left, List.getElem?_eq_none]

end Layout

/-- The files that fit on the image. -/
structure Admissible (files : List File) : Prop where
  distinct : (files.map File.name).Nodup
  short : ∀ file ∈ files, file.name.length ≤ dirsiz
  strings : ∀ file ∈ files, 0 ∉ file.argument
  noSlash : ∀ file ∈ files, 47 ∉ file.argument
  sizes : ∀ file ∈ files, file.bytes.length ≤ maxfile * bsize
  inodes : files.length + 1 < ninodes
  blocks : nmeta + ∑ inum ∈ Finset.range (files.length + 2), blocksFor (layout files inum).length ≤
    fssize

theorem Admissible.fits {files : List File} (admissible : Admissible files) :
    Fits (files.length + 2) (layout files) := by
  refine ⟨fun inum => ?_, admissible.blocks⟩
  match inum with
  | 0 => exact Nat.zero_le _
  | 1 =>
    have few := admissible.inodes
    rw [layout_root_length]
    simp only [ninodes, maxfile, bsize, ndirect, nindirect] at few ⊢
    omega
  | index + 2 =>
    rw [layout]
    cases here : files[index]? with
    | none => exact Nat.zero_le _
    | some file => exact admissible.sizes file (List.mem_of_getElem? here)

theorem File.notMem_name {file : File} (free : 0 ∉ file.argument) : 0 ∉ file.name := by
  rw [File.name]
  split
  · exact fun member => free (List.mem_of_mem_tail member)
  · exact free

theorem Admissible.record_fits {files : List File} (admissible : Admissible files)
    {record : Record} (member : record ∈ rootRecords files) : record.Fits := by
  obtain ⟨index, here⟩ := List.getElem?_of_mem member
  match index with
  | 0 =>
    cases here
    exact ⟨by decide, by decide, by decide, by decide⟩
  | 1 =>
    cases here
    exact ⟨by decide, by decide, by decide, by decide⟩
  | index + 2 =>
    rw [rootRecords_file, Option.map_eq_some_iff] at here
    obtain ⟨file, isFile, rfl⟩ := here
    have inside := (List.getElem?_eq_some_iff.mp isFile).1
    have few : files.length + 1 < 200 := admissible.inodes
    have member := List.mem_of_getElem? isFile
    refine ⟨Nat.succ_pos _, ?_, admissible.short file member,
      File.notMem_name (admissible.strings file member)⟩
    change index + 2 < _
    omega

/-! ## `main` -/

/-- The image after these files: their contents, and the types of the inodes. -/
structure Holds (files : List File) (image : Image) : Prop where
  built : Built image (layout files)
  freeinode : image.freeinode = files.length + 2
  root : (image.dinode rootino).type = .dir
  types : ∀ inum, 2 ≤ inum → inum < files.length + 2 → (image.dinode inum).type = .file

section Main

variable {image : Image} {contents final : Nat → List UInt8} {count inum : Nat} {files : List File}
  {file : File}

theorem Built.exists_pieces (built : Built image contents) (fits : Fits count final)
    (few : image.freeinode ≤ count) (live : (image.dinode inum).type ≠ .free)
    (pieces : List (List UInt8))
    (le : ∀ other, (update contents inum (contents inum ++ pieces.flatten) other).length ≤
      (final other).length) :
    ∃ image', pieces.foldlM (fun image piece => iappend inum piece image) image = some image' ∧
      image'.freeinode = image.freeinode ∧
      (∀ other, (image'.dinode other).type = (image.dinode other).type) ∧
      Built image' (update contents inum (contents inum ++ pieces.flatten)) := by
  induction pieces generalizing image contents with
  | nil =>
    simp_all
  | cons piece pieces ih =>
    have whole : update (update contents inum (contents inum ++ piece)) inum
          (update contents inum (contents inum ++ piece) inum ++ pieces.flatten) =
        update contents inum (contents inum ++ (piece :: pieces).flatten) := by
      rw [update_self, update_idem, List.append_assoc, List.flatten_cons]
    have leFirst : ∀ other,
        (update contents inum (contents inum ++ piece) other).length ≤
          (final other).length := by
      intro other
      refine le_trans ?_ (le other)
      by_cases same : other = inum
      · grind
      · rw [update_of_ne same, update_of_ne same]
    obtain ⟨first, appended, freeinode, types, built'⟩ :=
      built.exists_iappend fits few live leFirst
    obtain ⟨last, folded, sameFreeinode, sameTypes, built''⟩ :=
      ih built' (freeinode.trans_le few) (by rwa [types]) (by rwa [whole])
    rw [whole] at built''
    refine ⟨last, ?_, sameFreeinode.trans freeinode,
      fun other => (sameTypes other).trans (types other), built''⟩
    rw [List.foldlM_cons, appended]
    exact folded

/-- One round of the loop over the files. -/
theorem Holds.exists_addFile (holds : Holds files image) {rest : List File}
    (admissible : Admissible (files ++ file :: rest)) :
    ∃ image', addFile image file = some image' ∧ Holds (files ++ [file]) image' := by
  have member : file ∈ files ++ file :: rest := List.mem_append_right _ List.mem_cons_self
  have fits := admissible.fits
  have after := layout_append_singleton files file
  have le : ∀ inum, (layout (files ++ [file]) inum).length ≤
      (layout (files ++ file :: rest) inum).length := by
    intro inum
    have longer := (layout_isPrefix (files ++ [file]) rest inum).length_le
    rwa [List.append_assoc] at longer
  have few : (Mkfs.ialloc .file image).2.freeinode ≤ (files ++ file :: rest).length + 2 := by
    change image.freeinode + 1 ≤ _
    rw [holds.freeinode, List.length_append, List.length_cons]
    omega
  have allocated : ∀ other, other ≠ files.length + 2 →
      (Mkfs.ialloc .file image).2.dinode other = image.dinode other := by
    intro other different
    rw [← holds.freeinode] at different
    exact update_of_ne different _ _
  have rootType : ((Mkfs.ialloc .file image).2.dinode 1).type = .dir := by
    rw [allocated 1 (by omega)]
    exact holds.root
  have fileType : ((Mkfs.ialloc .file image).2.dinode (files.length + 2)).type = .file := by
    rw [← holds.freeinode]
    change (update image.dinode image.freeinode _ image.freeinode).type = _
    rw [update_self]
  have leEntry : ∀ other, (update (layout files) 1
      (layout files 1 ++ dirent (files.length + 2) file.name) other).length ≤
        (layout (files ++ file :: rest) other).length := by
    intro other
    refine le_trans ?_ (le other)
    rw [after]
    by_cases same : other = files.length + 2
    · rw [same, update_self, update_of_ne (by omega), layout_next]
      exact Nat.zero_le _
    · rw [update_of_ne same]
  obtain ⟨entered, isEntered, freeinode, types, built⟩ :=
    (holds.built.ialloc (by decide : FileType.file ≠ .free)).exists_iappend fits few
      (by rw [rootType]; decide) leEntry
  have contents : update (update (layout files) 1
      (layout files 1 ++ dirent (files.length + 2) file.name)) (files.length + 2)
        (update (layout files) 1
          (layout files 1 ++ dirent (files.length + 2) file.name) (files.length + 2) ++
            file.reads.flatten) = layout (files ++ [file]) := by
    rw [after, update_of_ne (by omega), layout_next]
    rfl
  obtain ⟨last, isLast, sameFreeinode, sameTypes, built'⟩ :=
    built.exists_pieces fits (freeinode.trans_le few) (by rw [types, fileType]; decide) file.reads
      (by rw [contents]; exact le)
  rw [contents] at built'
  refine ⟨last, ?_, ?_⟩
  · rw [addFile, if_neg (admissible.noSlash file member)]
    change (iappend rootino (dirent image.freeinode file.name) (Mkfs.ialloc .file image).2).bind
      (fun image' => file.reads.foldlM
        (fun image'' piece => iappend image.freeinode piece image'') image') = some last
    rw [holds.freeinode, isEntered]
    exact isLast
  · constructor
    case built => exact built'
    case freeinode =>
      rw [sameFreeinode, freeinode, List.length_append]
      exact congrArg (· + 1) holds.freeinode
    case root => rw [sameTypes, types, rootType]
    case types =>
      intro inum above below
      rw [sameTypes, types]
      by_cases same : inum = files.length + 2
      · rw [same, fileType]
      · rw [allocated inum same]
        rw [List.length_append] at below
        exact holds.types inum above (Nat.lt_of_le_of_ne (Nat.le_of_lt_succ below) same)

theorem Holds.exists_files (holds : Holds files image) {rest : List File}
    (admissible : Admissible (files ++ rest)) :
    ∃ image', rest.foldlM addFile image = some image' ∧ Holds (files ++ rest) image' := by
  induction rest generalizing files image with
  | nil => exact ⟨image, rfl, by rwa [List.append_nil]⟩
  | cons file rest ih =>
    obtain ⟨first, added, holds'⟩ := holds.exists_addFile admissible
    have same : files ++ [file] ++ rest = files ++ file :: rest := List.append_assoc _ _ _
    obtain ⟨last, folded, holds''⟩ := ih holds' (by rwa [same])
    rw [same] at holds''
    refine ⟨last, ?_, holds''⟩
    rw [List.foldlM_cons, added]
    exact folded

theorem admissible_nil : Admissible [] :=
  ⟨List.nodup_nil, by simp, by simp, by simp, by simp, by decide, by decide⟩

theorem layout_nil : layout [] =
    update (fun _ => []) 1 (dirent 1 [46] ++ dirent 1 [46, 46]) := by
  funext inum
  match inum with
  | 0 => rfl
  | 1 => decide
  | index + 2 => rw [update_of_ne (by omega)]; rfl

theorem exists_makeRoot : ∃ image, makeRoot = some image ∧ Holds [] image := by
  have rootType : ((Mkfs.ialloc .dir .blank).2.dinode 1).type = .dir := rfl
  have contents : update (fun _ => []) 1
      ([] ++ [dirent 1 [46], dirent 1 [46, 46]].flatten) = layout [] := by
    rw [layout_nil]
    rfl
  obtain ⟨image, folded, freeinode, types, built⟩ :=
    (built_blank.ialloc (by decide : FileType.dir ≠ .free)).exists_pieces admissible_nil.fits le_rfl
      (by rw [rootType]; decide) [dirent 1 [46], dirent 1 [46, 46]]
      (by rw [contents]; exact fun _ => le_rfl)
  rw [contents] at built
  refine ⟨image, ?_, built, freeinode, ?_, ?_⟩
  · simp only [List.foldlM_cons, List.foldlM_nil, bind_pure] at folded
    exact folded
  · rw [types]
    rfl
  · grind

end Main

/-! ## The image for the kernel -/

def Image.disk (image : Image) : Fs.State where
  block := image.block
  dinode := image.dinode
  icache _ := none

def Image.addresses (image : Image) : Nat × Fs.Slot → Nat :=
  Fs.refs image.block image.dinode

/-- The image has what the kernel needs: all blocks of the inodes, the right
bitmap, and every file under its name. -/
structure WellFormed (files : List File) (image : Image) : Prop where
  present : ∀ inum, ∀ bn < ((image.dinode inum).size + bsize - 1) / bsize,
    image.addresses (inum, Fs.blockSlot bn) ≠ 0
  unique : ∀ first second, image.addresses first ≠ 0 →
    image.addresses first = image.addresses second → first = second
  bitmap : ∀ b < Fs.bpb, Fs.used superblock image.block b ↔ b < image.freeblock
  inside : ∀ key, image.addresses key ≠ 0 →
    nmeta ≤ image.addresses key ∧ image.addresses key < image.freeblock
  found : ∀ index file, files[index]? = some file → ∀ devsw, ∃ off,
    Fs.dirlookup superblock devsw file.name (image.dinode rootino) image.disk =
        some (some (index + 2, off), image.dinode rootino, image.disk) ∧
      ∀ n, file.bytes.length ≤ n → n < 2 ^ 32 →
        Fs.readi superblock devsw (image.dinode (index + 2)) 0 n image.disk =
          .ok (file.bytes.length, file.bytes, image.dinode (index + 2), image.disk)

/-- The image that `balloc` leaves. -/
def finish (image : Image) : Image :=
  (fixRoot image).wsect bmapstart (bitmap image.freeblock)

section Finish

variable {image : Image} {files : List File} {file : File}

theorem addresses_finish (image : Image) : (finish image).addresses = image.refs := by
  have same := update_eq_self rootino image.dinode
  rw [Image.refs, ← same]
  exact Fs.refs_node_congr rfl rfl

theorem refs_disk (image : Image) (inum : Nat) :
    image.disk.refs inum (image.dinode inum) = image.addresses :=
  congrArg (Fs.refs image.block) (update_eq_self inum image.dinode)

theorem finish_root (holds : Holds files image) : (finish image).dinode rootino =
    { image.dinode rootino with size := (16 * (files.length + 2) / bsize + 1) * bsize } := by
  rw [← layout_root_length, ← holds.built.size]
  exact update_self rootino _ image.dinode

theorem finish_of_ne (image : Image) {inum : Nat} (different : inum ≠ rootino) :
    (finish image).dinode inum = image.dinode inum :=
  update_of_ne different _ _

theorem Holds.lists (holds : Holds files image) (admissible : Admissible files) :
    Fs.Lists (rootRecords files) rootino ((finish image).dinode rootino) (finish image).disk := by
  have root := finish_root holds
  have few := admissible.inodes
  have limit := admissible.fits.limit
  constructor
  case fits => exact fun record => admissible.record_fits
  case isDir =>
    exact holds.root
  case size =>
    rw [root, rootRecords_length]
    simp only [Fs.direntSize, bsize]
    omega
  case addressable =>
    rw [root]
    simp only [bsize, ninodes] at few ⊢
    omega
  case covered =>
    intro k below
    rw [rootRecords_length, ← layout_root_length] at below
    exact holds.built.covered (limit _) below
  case bytes =>
    intro index record here k below
    have inside := (List.getElem?_eq_some_iff.mp here).1
    rw [rootRecords_length] at inside
    have position : Fs.direntSize * index + k < (layout files 1).length := by
      rw [layout_root_length]
      simp only [Fs.direntSize] at below ⊢
      omega
    have stored := holds.built.bytes 1 _ position
    exact Option.some.inj (stored.symm.trans (Fs.getElem?_flatMap_bytes here below))

theorem Holds.readi (holds : Holds files image) (admissible : Admissible files) {index : Nat}
    (here : files[index]? = some file) (devsw : Nat → Fs.Device) {n : Nat}
    (all : file.bytes.length ≤ n) (small : n < 2 ^ 32) :
    Fs.readi superblock devsw ((finish image).dinode (index + 2)) 0 n (finish image).disk =
      .ok (file.bytes.length, file.bytes, (finish image).dinode (index + 2),
        (finish image).disk) := by
  have inside := (List.getElem?_eq_some_iff.mp here).1
  have contents := layout_of_file here
  have inode := finish_of_ne image (show index + 2 ≠ rootino from Nat.succ_succ_ne_one index)
  have type := holds.types (index + 2) (Nat.le_add_left 2 index) (by omega)
  rw [← inode] at type
  have size : ((finish image).dinode (index + 2)).size = file.bytes.length := by
    rw [inode, holds.built.size, contents]
  have refs := (refs_disk (finish image) (index + 2)).trans (addresses_finish image)
  have loop := @Fs.readiLoop_eq superblock (index + 2) 0 ((finish image).dinode (index + 2))
    (finish image).disk file.bytes.length file.bytes.length (by rw [type]; decide) le_rfl (by
      intro k below
      rw [refs, Nat.zero_add]
      exact holds.built.covered (admissible.fits.limit _) (by rwa [contents]))
  have copied : (List.range file.bytes.length).map (fun k => Fs.byteAt (finish image).disk.block
      ((finish image).disk.refs (index + 2) ((finish image).dinode (index + 2))) (index + 2)
      (0 + k)) = file.bytes := by
    apply List.ext_getElem?
    intro k
    by_cases below : k < file.bytes.length
    · have stored := holds.built.bytes (index + 2) k (by rwa [contents])
      rw [contents] at stored
      rw [List.getElem?_map, List.getElem?_range below, stored, Option.map_some, Nat.zero_add, refs]
      rfl
    · rw [List.getElem?_eq_none (by simpa using below), List.getElem?_eq_none (not_lt.mp below)]
  have count :
      (if file.bytes.length < n then file.bytes.length - 0 else n) = file.bytes.length := by
    split <;> omega
  rw [Fs.readi, if_neg (by rw [type]; decide), Nat.zero_add, Nat.mod_eq_of_lt small,
    if_neg (by omega), size]
  dsimp only
  rw [count, loop, copied]
  rfl

theorem used_finish (image : Image) {b : Nat} (inside : b < Fs.bpb)
    (few : image.freeblock ≤ bitCount) :
    Fs.used superblock (finish image).block b ↔ b < image.freeblock := by
  have here : superblock.bblock b = bmapstart := by
    rw [SuperBlock.bblock, Nat.div_eq_of_lt inside]
    rfl
  have written : (finish image).block bmapstart = bitmap image.freeblock :=
    update_self bmapstart _ image.block
  rw [Fs.used, here, written, Nat.mod_eq_of_lt inside, bitClear_bitmap few, decide_eq_false_iff_not,
    not_le]

theorem Holds.address_iff (holds : Holds files image) {inum bn : Nat}
    (live : (image.dinode inum).type ≠ .free) (below : bn < maxfile) :
    (finish image).addresses (inum, Fs.blockSlot bn) ≠ 0 ↔
      bn * bsize < (layout files inum).length := by
  rw [addresses_finish, (holds.built.filled inum live).blocks bn below]

theorem Holds.few_blocks (holds : Holds files image) (admissible : Admissible files) :
    image.freeblock ≤ fssize := by
  rw [holds.built.freeblock, holds.freeinode]
  exact admissible.blocks

theorem Holds.inside (holds : Holds files image) (admissible : Admissible files)
    {key : Nat × Fs.Slot} (nonzero : image.refs key ≠ 0) :
    nmeta ≤ image.refs key ∧ image.refs key < image.freeblock := by
  obtain ⟨above, below⟩ := holds.built.owns.inside key nonzero
  have used := (holds.built.owns.held _ above below).mpr ⟨key, rfl⟩
  exact ⟨above, (used_view below (holds.few_blocks admissible)).mp used⟩

/-- `main` reaches its end, with the contents of all files. -/
theorem exists_mkfs (admissible : Admissible files) :
    ∃ image, Holds files image ∧ mkfs files = some (finish image) := by
  obtain ⟨root, made, holds⟩ := exists_makeRoot
  obtain ⟨image, folded, holds'⟩ := @Holds.exists_files root [] holds files admissible
  have few : image.freeblock < 4096 := (holds'.few_blocks admissible).trans_lt (by decide)
  refine ⟨image, holds', ?_⟩
  rw [mkfs, made]
  change (files.foldlM addFile root).bind _ = _
  rw [folded]
  exact if_pos few

/-- All blocks of the inodes are there exactly if the root directory does not end
at the end of a block. -/
theorem Holds.present_iff (holds : Holds files image) (admissible : Admissible files) :
    (∀ inum, ∀ bn < (((finish image).dinode inum).size + bsize - 1) / bsize,
      (finish image).addresses (inum, Fs.blockSlot bn) ≠ 0) ↔ (files.length + 2) % 32 ≠ 0 := by
  have few : files.length + 1 < 200 := admissible.inodes
  have root := congrArg Inode.size (finish_root holds)
  have rootLive : (image.dinode 1).type ≠ .free := by
    rw [holds.root]
    decide
  constructor
  · intro present full
    have bound : 16 * (files.length + 2) / bsize <
        (((finish image).dinode rootino).size + bsize - 1) / bsize := by
      rw [root]
      simp only [bsize]
      omega
    have address := present 1 _ bound
    rw [holds.address_iff rootLive, layout_root_length] at address
    · simp only [bsize] at address
      omega
    · grind
  · intro notFull inum bn below
    by_cases isRoot : inum = 1
    · subst isRoot
      rw [root] at below
      simp only [bsize] at below
      rw [holds.address_iff rootLive, layout_root_length]
      · simp only [bsize]
        omega
      · grind
    · have limit := admissible.fits.limit inum
      rw [finish_of_ne image isRoot, holds.built.size] at below
      have inside : bn * bsize < (layout files inum).length := by
        simp only [bsize] at below ⊢
        omega
      have live : (image.dinode inum).type ≠ .free := by
        intro free
        rw [(holds.built.fresh inum free).2] at inside
        exact absurd inside (Nat.not_lt_zero _)
      rw [holds.address_iff live]
      · exact inside
      · grind

def dotNames : List (List UInt8) := [[46], [46, 46]]

theorem hidden_record (files : List File) {name : List UInt8} (hidden : name ∈ dotNames) :
    ∃ (found : Nat) (record : Record), (rootRecords files)[found]? = some record ∧
      record.inum = rootino ∧ record.name = name ∧
      ∀ index < found, ∀ other, (rootRecords files)[index]? = some other → other.name ≠ name := by
  rcases List.mem_pair.mp hidden with rfl | rfl
  · exact ⟨0, ⟨rootino, [46]⟩, rfl, rfl, rfl, fun index below => absurd below (Nat.not_lt_zero _)⟩
  · refine ⟨1, ⟨rootino, [46, 46]⟩, rfl, rfl, rfl, fun index below other isOther => ?_⟩
    obtain rfl : index = 0 := Nat.lt_one_iff.mp below
    cases isOther
    decide

/-- `dirlookup` gives the inode of every file exactly if none is hidden. -/
theorem Holds.lookup_iff (holds : Holds files image) (admissible : Admissible files)
    (devsw : Nat → Fs.Device) {index : Nat} (here : files[index]? = some file) :
    (∃ off, Fs.dirlookup superblock devsw file.name ((finish image).dinode rootino)
        (finish image).disk = some (some (index + 2, off), (finish image).dinode rootino,
          (finish image).disk)) ↔ file.name ∉ dotNames := by
  have lists := holds.lists admissible
  have member := List.mem_of_getElem? here
  have free := File.notMem_name (admissible.strings file member)
  have short := admissible.short file member
  constructor
  · rintro ⟨off, lookup⟩ hidden
    obtain ⟨found, record, isRecord, isRoot, same, first⟩ := hidden_record files hidden
    rw [lists.dirlookup_eq free short isRecord same first, isRoot] at lookup
    simp only [Option.some.injEq, Prod.mk.injEq] at lookup
    exact absurd lookup.1.1.symm (Nat.succ_succ_ne_one index)
  · intro visible
    have listed : (rootRecords files)[index + 2]? = some ⟨index + 2, file.name⟩ := by
      rw [rootRecords_file, here]
      rfl
    refine ⟨_, lists.dirlookup_eq free short listed rfl ?_⟩
    intro before below other isOther same
    match before with
    | 0 =>
      cases isOther
      exact visible (by simp [dotNames, ← same])
    | 1 =>
      cases isOther
      exact visible (by simp [dotNames, ← same])
    | before + 2 =>
      rw [rootRecords_file, Option.map_eq_some_iff] at isOther
      obtain ⟨earlier, isEarlier, rfl⟩ := isOther
      have sameName : (files.map File.name)[before]? = (files.map File.name)[index]? := by
        grind
      have inside : before < (files.map File.name).length := by
        grind
      have equal := (List.getElem?_inj inside admissible.distinct).mp sameName
      omega

/-- `mkfs` builds an image that the kernel can use, exactly if the root directory
does not end at the end of a block and no file has the name of one of its first
two entries. -/
theorem mkfs_wellFormed_iff (files : List File) (admissible : Admissible files) :
    ∃ image, mkfs files = some image ∧
      (WellFormed files image ↔
        (files.length + 2) % 32 ≠ 0 ∧ ∀ file ∈ files, file.name ∉ dotNames) := by
  obtain ⟨image, holds, result⟩ := exists_mkfs admissible
  have few := holds.few_blocks admissible
  refine ⟨finish image, result, ?_⟩
  constructor
  · intro wellFormed
    refine ⟨(holds.present_iff admissible).mp wellFormed.present, fun file member => ?_⟩
    obtain ⟨index, here⟩ := List.getElem?_of_mem member
    obtain ⟨off, lookup, -⟩ := wellFormed.found index file here fun _ => ⟨none, none⟩
    exact (holds.lookup_iff admissible _ here).mp ⟨off, lookup⟩
  · rintro ⟨notFull, visible⟩
    constructor
    case present => exact (holds.present_iff admissible).mpr notFull
    case unique =>
      rw [addresses_finish]
      exact holds.built.owns.unique
    case bitmap =>
      exact fun b below => used_finish image below (few.trans (by decide))
    case inside =>
      rw [addresses_finish]
      exact fun key nonzero => holds.inside admissible nonzero
    case found =>
      intro index file here devsw
      obtain ⟨off, lookup⟩ := (holds.lookup_iff admissible devsw here).mpr
        (visible file (List.mem_of_getElem? here))
      exact ⟨off, lookup, fun n all small => holds.readi admissible here devsw all small⟩

def twoFiles : List File := [⟨[95, 99, 97, 116], [[1, 2], [3]]⟩, ⟨[82], []⟩]

theorem admissible_twoFiles : Admissible twoFiles :=
  ⟨by decide, by decide, by decide, by decide, by decide, by decide, by decide⟩

theorem mkfs_wellFormed_twoFiles : Admissible twoFiles ∧
    ∃ image, mkfs twoFiles = some image ∧ WellFormed twoFiles image := by
  obtain ⟨image, result, wellFormed⟩ := mkfs_wellFormed_iff twoFiles admissible_twoFiles
  exact ⟨admissible_twoFiles, image, result, wellFormed.mpr (by decide)⟩

def thirtyFiles : List File :=
  (List.range 30).map fun index => ⟨[UInt8.ofNat (97 + index)], []⟩

theorem admissible_thirtyFiles : Admissible thirtyFiles :=
  ⟨by decide, by decide, by decide, by decide, by decide, by decide, by decide +kernel⟩

/-- With thirty files the root directory has two blocks by its size, and one address. -/
theorem mkfs_thirtyFiles : Admissible thirtyFiles ∧ ∃ image, mkfs thirtyFiles = some image ∧
    (image.dinode rootino).size = 2 * bsize ∧ image.addresses (rootino, Fs.blockSlot 1) = 0 ∧
    ¬ WellFormed thirtyFiles image := by
  obtain ⟨image, holds, result⟩ := exists_mkfs admissible_thirtyFiles
  refine ⟨admissible_thirtyFiles, finish image, result, ?_, ?_, ?_⟩
  · rw [finish_root holds]
    rfl
  · by_contra address
    have live : (image.dinode rootino).type ≠ .free := by
      rw [holds.root]
      decide
    rw [← ne_eq, holds.address_iff live (by decide), layout_root_length] at address
    exact absurd address (by decide)
  · intro wellFormed
    exact absurd ((holds.present_iff admissible_thirtyFiles).mp wellFormed.present) (by decide)

end Finish

end Mkfs

end Xv6
