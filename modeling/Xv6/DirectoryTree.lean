import Mathlib.Algebra.Order.BigOperators.Group.Finset
import Xv6.DirectoryCalls
import Xv6.TableSums

/-!
# The tree of directories

Every directory has its two dots, the directories below a linked one are listed in
it exactly once, and a directory that was removed while a process still uses it is
empty and below a linked one.  The link counts agree with the entries.
-/

namespace Xv6

namespace Dirs

open Fs (FileType)
open Function (update update_of_ne update_self)

/-! ## Entries and link counts -/

def Allocated (inode : Nat → Inode) (inum : Nat) : Prop :=
  (inode inum).type ≠ .free

def IsDir (inode : Nat → Inode) (d : Nat) : Prop :=
  (inode d).type = .dir

def Linked (inode : Nat → Inode) (d : Nat) : Prop :=
  IsDir inode d ∧ 0 < (inode d).nlink

/-- The entries other than "." that name an inode in a directory with links. -/
def Inode.linksTo (node : Inode) (inum : Nat) : Nat :=
  if node.type = .dir ∧ 0 < node.nlink then
    node.entries.countP fun de => de.inum = inum ∧ de.name ≠ dot
  else 0

/-- All entries other than "." that name an inode in directories with links. -/
def links (ninodes : Nat) (inode : Nat → Inode) (inum : Nat) : Nat :=
  ∑ d ∈ Finset.range ninodes, (inode d).linksTo inum

def Inode.parent (node : Inode) : Nat :=
  (node.entries.getD 1 ⟨0, []⟩).inum

def Inode.listing (node : Inode) : List Dirent :=
  node.entries.drop 2

def Inode.lists (node : Inode) (inum : Nat) : Nat :=
  node.listing.countP fun de => de.inum = inum

/-- The two dots come first, and no other entry has their names. -/
structure HasDots (d : Nat) (node : Inode) : Prop where
  entries : node.entries = ⟨d, dot⟩ :: ⟨node.parent, dotdot⟩ :: node.listing
  named : ∀ de ∈ node.listing, de.inum ≠ 0 → de.name ≠ dot ∧ de.name ≠ dotdot

structure Tree (ninodes : Nat) (inode : Nat → Inode) : Prop where
  addressable : ninodes ≤ 2 ^ 16
  inside : ∀ inum, Allocated inode inum → 0 < inum ∧ inum < ninodes
  dots : ∀ d, IsDir inode d → HasDots d (inode d)
  target : ∀ d, IsDir inode d → ∀ de ∈ (inode d).listing, de.inum ≠ 0 → Allocated inode de.inum
  parent : ∀ d, IsDir inode d → Linked inode (inode d).parent
  counts : ∀ inum, Allocated inode inum → (inode inum).nlink = links ninodes inode inum
  small : ∀ inum, Allocated inode inum → (inode inum).nlink < 2 ^ 15
  child : ∀ d c, IsDir inode d → IsDir inode c → (inode d).lists c ≠ 0 → (inode c).parent = d
  listed : ∀ c, Linked inode c → c ≠ rootino → (inode (inode c).parent).lists c = 1
  root : Linked inode rootino
  rootParent : (inode rootino).parent = rootino
  rootUnlisted : ∀ d, IsDir inode d → (inode d).lists rootino = 0
  removed : ∀ d, IsDir inode d → (inode d).nlink = 0 → ∀ de ∈ (inode d).listing, de.inum = 0

section Counting

variable {ninodes : Nat} {inode : Nat → Inode} {node : Inode} {d inum : Nat}

theorem linksTo_of_not_linked (unlinked : ¬ (node.type = .dir ∧ 0 < node.nlink)) :
    node.linksTo inum = 0 :=
  if_neg unlinked

theorem linksTo_eq (dots : HasDots d node) (dir : node.type = .dir) (linked : 0 < node.nlink)
    (positive : inum ≠ 0) :
    node.linksTo inum = (if node.parent = inum then 1 else 0) + node.lists inum := by
  have listing : node.listing.countP (fun de => de.inum = inum ∧ de.name ≠ dot) =
      node.lists inum := by
    apply List.countP_congr
    intro de member
    simp only [decide_eq_true_eq, and_iff_left_iff_imp]
    intro same
    exact (dots.named de member (by rw [same]; exact positive)).1
  rw [Inode.linksTo, if_pos ⟨dir, linked⟩, dots.entries, List.countP_cons, List.countP_cons,
    listing]
  have notDot : dotdot ≠ dot := by decide
  simp [notDot]
  omega

theorem links_update (inside : d < ninodes) :
    links ninodes (update inode d node) inum + (inode d).linksTo inum =
      links ninodes inode inum + node.linksTo inum :=
  sum_update_add (fun node : Inode => node.linksTo inum) (Finset.mem_range.mpr inside)

theorem exists_of_lists (lists : node.lists inum ≠ 0) : ∃ de ∈ node.listing, de.inum = inum := by
  obtain ⟨de, member, same⟩ := List.countP_pos_iff.mp (Nat.pos_of_ne_zero lists)
  exact ⟨de, member, by simpa using same⟩

theorem lists_pos {de : Dirent} (member : de ∈ node.listing) : node.lists de.inum ≠ 0 := by
  apply Nat.pos_iff_ne_zero.mp
  exact List.countP_pos_iff.mpr ⟨de, member, by simp⟩

end Counting

section Facts

variable {ninodes : Nat} {inode next : Nat → Inode} {node dir : Inode} {d c x dp inum : Nat}
  {de : Dirent}

theorem IsDir.allocated (isDir : IsDir inode d) : Allocated inode d := by
  rw [Allocated, isDir]
  decide

theorem Tree.nonneg (tree : Tree ninodes inode) (allocated : Allocated inode inum) :
    0 ≤ (inode inum).nlink := by
  rw [tree.counts inum allocated]
  omega

theorem Tree.linked_of_ne (tree : Tree ninodes inode) (isDir : IsDir inode d)
    (links : (inode d).nlink ≠ 0) : Linked inode d := by
  have := tree.nonneg isDir.allocated
  exact ⟨isDir, by omega⟩

theorem Tree.linked_of_lists (tree : Tree ninodes inode) (isDir : IsDir inode d)
    (positive : c ≠ 0) (lists : (inode d).lists c ≠ 0) : Linked inode d := by
  apply tree.linked_of_ne isDir
  intro unlinked
  obtain ⟨de, member, same⟩ := exists_of_lists lists
  apply positive
  rw [← same]
  exact tree.removed d isDir unlinked de member

theorem Tree.linksTo_eq (tree : Tree ninodes inode) (linked : Linked inode d) (positive : c ≠ 0) :
    (inode d).linksTo c = (if (inode d).parent = c then 1 else 0) + (inode d).lists c :=
  Dirs.linksTo_eq (tree.dots d linked.1) linked.1 linked.2 positive

theorem Tree.linksTo_le (tree : Tree ninodes inode) (isDir : IsDir inode d) :
    (inode d).linksTo c ≤ links ninodes inode c := by
  have inside := (tree.inside d isDir.allocated).2
  exact Finset.single_le_sum (f := fun i => (inode i).linksTo c) (fun _ _ => Nat.zero_le _)
    (Finset.mem_range.mpr inside)

theorem Tree.linksTo_add_le (tree : Tree ninodes inode) (isDir : IsDir inode d)
    (isDir' : IsDir inode x) (different : d ≠ x) :
    (inode d).linksTo c + (inode x).linksTo c ≤ links ninodes inode c := by
  have inside := (tree.inside d isDir.allocated).2
  have inside' := (tree.inside x isDir'.allocated).2
  rw [← Finset.sum_pair (f := fun i => (inode i).linksTo c) different]
  apply Finset.sum_le_sum_of_subset
  intro i member
  rcases Finset.mem_insert.mp member with rfl | single
  · exact Finset.mem_range.mpr inside
  · grind

theorem Tree.nlink_pos (tree : Tree ninodes inode) (isDir : IsDir inode d)
    (allocated : Allocated inode c) (lists : (inode d).lists c ≠ 0) : 0 < (inode c).nlink := by
  have positive := (tree.inside c allocated).1
  have linked := tree.linked_of_lists isDir (by omega) lists
  have some := tree.linksTo_eq linked (Nat.pos_iff_ne_zero.mp positive)
  have atMost := tree.linksTo_le (c := c) isDir
  have count := tree.counts c allocated
  omega

theorem Tree.links_free (tree : Tree ninodes inode) (free : ¬ Allocated inode c)
    (positive : c ≠ 0) : links ninodes inode c = 0 := by
  apply Finset.sum_eq_zero
  intro d _
  by_cases linked : Linked inode d
  · rw [tree.linksTo_eq linked positive, if_neg]
    · by_contra lists
      obtain ⟨de, member, same⟩ := exists_of_lists (by omega : (inode d).lists c ≠ 0)
      apply free
      rw [← same]
      exact tree.target d linked.1 de member (by rw [same]; exact positive)
    · intro same
      apply free
      rw [← same]
      exact (tree.parent d linked.1).1.allocated
  · exact linksTo_of_not_linked linked

theorem lists_eq_zero (empty : ∀ de ∈ node.listing, de.inum = 0) (positive : c ≠ 0) :
    node.lists c = 0 := by
  by_contra lists
  obtain ⟨de, member, same⟩ := exists_of_lists lists
  exact positive (by rw [← same]; exact empty de member)

/-! ## Changing an entry and the link counts with it -/

/-- An inode and an entry that names it change: the entry in the directory `dp`,
and the link counts of the two.  If the inode is a directory, it is an empty one
below `dp`. -/
structure Relinks (ninodes : Nat) (inode next : Nat → Inode) (x dp : Nat) : Prop where
  different : x ≠ dp
  other : ∀ d, d ≠ x → d ≠ dp → next d = inode d
  inside : 0 < x ∧ x < ninodes
  notRoot : x ≠ rootino
  linked : Linked inode dp
  stillLinked : Linked next dp
  dots : HasDots dp (next dp)
  parent : (next dp).parent = (inode dp).parent
  listing : ∀ de ∈ (next dp).listing, de ∈ (inode dp).listing ∨ de.inum = 0 ∨ de.inum = x
  lists : ∀ c, c ≠ 0 → c ≠ x → (next dp).lists c = (inode dp).lists c
  kept : Allocated next x
  asDir : IsDir next x → HasDots x (next x) ∧ (next x).parent = dp ∧
    (∀ de ∈ (next x).listing, de.inum = 0) ∧
    (¬ Allocated inode x ∨ IsDir inode x ∧ (inode x).parent = dp)
  asLinked : Linked next x → (next dp).lists x = 1
  notParent : ∀ d, IsDir inode d → (inode d).parent ≠ x
  counts : ∀ c, Allocated next c → (next c).nlink = links ninodes next c
  small : (next x).nlink < 2 ^ 15 ∧ (next dp).nlink < 2 ^ 15

theorem Relinks.isDir_iff (relinks : Relinks ninodes inode next x dp) (notX : d ≠ x) :
    IsDir next d ↔ IsDir inode d := by
  by_cases atDp : d = dp
  · subst atDp
    exact iff_of_true relinks.stillLinked.1 relinks.linked.1
  · rw [IsDir, relinks.other d notX atDp, IsDir]

theorem Relinks.linked_iff (relinks : Relinks ninodes inode next x dp) (notX : d ≠ x) :
    Linked next d ↔ Linked inode d := by
  by_cases atDp : d = dp
  · subst atDp
    exact iff_of_true relinks.stillLinked relinks.linked
  · rw [Linked, IsDir, relinks.other d notX atDp, Linked, IsDir]

theorem Relinks.parent_eq (relinks : Relinks ninodes inode next x dp) (notX : d ≠ x) :
    (next d).parent = (inode d).parent := by
  by_cases atDp : d = dp
  · rw [atDp, relinks.parent]
  · rw [relinks.other d notX atDp]

theorem Relinks.lists_eq (relinks : Relinks ninodes inode next x dp) (notX : d ≠ x)
    (positive : c ≠ 0) (notTarget : c ≠ x) : (next d).lists c = (inode d).lists c := by
  by_cases atDp : d = dp
  · rw [atDp, relinks.lists c positive notTarget]
  · rw [relinks.other d notX atDp]

theorem Relinks.allocated (relinks : Relinks ninodes inode next x dp)
    (allocated : Allocated inode c) : Allocated next c := by
  by_cases atX : c = x
  · rw [atX]
    exact relinks.kept
  · by_cases atDp : c = dp
    · rw [atDp]
      exact relinks.stillLinked.1.allocated
    · rwa [Allocated, relinks.other c atX atDp]

theorem Relinks.allocated_iff (relinks : Relinks ninodes inode next x dp) (notX : c ≠ x) :
    Allocated next c ↔ Allocated inode c := by
  refine ⟨?_, relinks.allocated⟩
  by_cases atDp : c = dp
  · rw [atDp]
    exact fun _ => relinks.linked.1.allocated
  · rw [Allocated, relinks.other c notX atDp, Allocated]
    exact id

theorem Relinks.tree (relinks : Relinks ninodes inode next x dp) (tree : Tree ninodes inode) :
    Tree ninodes next where
  addressable := tree.addressable
  inside := by
    intro c allocated
    by_cases atX : c = x
    · rw [atX]
      exact relinks.inside
    · exact tree.inside c ((relinks.allocated_iff atX).mp allocated)
  dots := by
    intro d isDir
    by_cases atX : d = x
    · subst atX
      exact (relinks.asDir isDir).1
    · by_cases atDp : d = dp
      · rw [atDp]
        exact relinks.dots
      · rw [relinks.other d atX atDp]
        exact tree.dots d ((relinks.isDir_iff atX).mp isDir)
  target := by
    intro d isDir de member used
    by_cases atX : d = x
    · subst atX
      exact absurd ((relinks.asDir isDir).2.2.1 de member) used
    · have wasDir := (relinks.isDir_iff atX).mp isDir
      by_cases atDp : d = dp
      · subst atDp
        rcases relinks.listing de member with old | unused | same
        · exact relinks.allocated (tree.target d wasDir de old used)
        · exact absurd unused used
        · rw [same]
          exact relinks.kept
      · rw [relinks.other d atX atDp] at member
        exact relinks.allocated (tree.target d wasDir de member used)
  parent := by
    intro d isDir
    by_cases atX : d = x
    · subst atX
      rw [(relinks.asDir isDir).2.1]
      exact relinks.stillLinked
    · have wasDir := (relinks.isDir_iff atX).mp isDir
      rw [relinks.parent_eq atX, relinks.linked_iff (relinks.notParent d wasDir)]
      exact tree.parent d wasDir
  counts := relinks.counts
  small := by
    intro c allocated
    by_cases atX : c = x
    · rw [atX]
      exact relinks.small.1
    · by_cases atDp : c = dp
      · rw [atDp]
        exact relinks.small.2
      · rw [relinks.other c atX atDp]
        exact tree.small c ((relinks.allocated_iff atX).mp allocated)
  child := by
    intro d c isDir isChild lists
    have positive : c ≠ 0 := by
      intro zero
      subst zero
      by_cases atX : 0 = x
      · exact absurd relinks.inside.1 (by omega)
      · exact absurd (tree.inside 0 ((relinks.isDir_iff atX).mp isChild).allocated).1 (by omega)
    by_cases atX : d = x
    · subst atX
      exact absurd (lists_eq_zero (relinks.asDir isDir).2.2.1 positive) lists
    · have wasDir := (relinks.isDir_iff atX).mp isDir
      by_cases childAtX : c = x
      · subst childAtX
        obtain ⟨_, below, _, before⟩ := relinks.asDir isChild
        by_cases atDp : d = dp
        · rw [below, atDp]
        · rw [relinks.other d atX atDp] at lists
          rcases before with fresh | ⟨wasChild, wasBelow⟩
          · obtain ⟨de, member, same⟩ := exists_of_lists lists
            refine absurd ?_ fresh
            rw [← same]
            exact tree.target d wasDir de member (by rw [same]; exact positive)
          · rw [below, ← wasBelow]
            exact tree.child d c wasDir wasChild lists
      · rw [relinks.lists_eq atX positive childAtX] at lists
        rw [relinks.parent_eq childAtX]
        exact tree.child d c wasDir ((relinks.isDir_iff childAtX).mp isChild) lists
  listed := by
    intro c linked notRoot
    by_cases atX : c = x
    · subst atX
      rw [(relinks.asDir linked.1).2.1]
      exact relinks.asLinked linked
    · have wasLinked := (relinks.linked_iff atX).mp linked
      have positive := (tree.inside c wasLinked.1.allocated).1
      rw [relinks.parent_eq atX, relinks.lists_eq (relinks.notParent c wasLinked.1)
        (Nat.pos_iff_ne_zero.mp positive) atX]
      exact tree.listed c wasLinked notRoot
  root := (relinks.linked_iff relinks.notRoot.symm).mpr tree.root
  rootParent := by
    rw [relinks.parent_eq relinks.notRoot.symm]
    exact tree.rootParent
  rootUnlisted := by
    intro d isDir
    by_cases atX : d = x
    · subst atX
      exact lists_eq_zero (relinks.asDir isDir).2.2.1 (by decide)
    · rw [relinks.lists_eq atX (by decide) relinks.notRoot.symm]
      exact tree.rootUnlisted d ((relinks.isDir_iff atX).mp isDir)
  removed := by
    intro d isDir unlinked
    by_cases atX : d = x
    · subst atX
      exact (relinks.asDir isDir).2.2.1
    · by_cases atDp : d = dp
      · subst atDp
        exact absurd relinks.stillLinked.2 (by omega)
      · have wasDir := (relinks.isDir_iff atX).mp isDir
        rw [relinks.other d atX atDp] at unlinked ⊢
        exact tree.removed d wasDir unlinked

theorem links_relinked (different : x ≠ dp)
    (other : ∀ d, d ≠ x → d ≠ dp → next d = inode d) (xInside : x < ninodes)
    (dpInside : dp < ninodes) (c : Nat) :
    links ninodes next c + (inode x).linksTo c + (inode dp).linksTo c =
      links ninodes inode c + (next x).linksTo c + (next dp).linksTo c := by
  have isUpdate : next = update (update inode x (next x)) dp (next dp) := by
    grind
  have firstStep := @links_update ninodes inode (next x) x c xInside
  have secondStep :=
    @links_update ninodes (update inode x (next x)) (next dp) dp c dpInside
  rw [← isUpdate, update_of_ne different.symm] at secondStep
  omega

structure Grown (d : Nat) (old new : Inode) (x : Nat) : Prop where
  dots : HasDots d new
  type : new.type = .dir
  parent : new.parent = old.parent
  listing : ∀ de ∈ new.listing, de ∈ old.listing ∨ de.inum = x
  lists : ∀ c ≠ 0, new.lists c = old.lists c + if x = c then 1 else 0

structure Shrunk (d : Nat) (old new : Inode) (x : Nat) : Prop where
  dots : HasDots d new
  type : new.type = .dir
  parent : new.parent = old.parent
  listing : ∀ de ∈ new.listing, de ∈ old.listing ∨ de.inum = 0
  lists : ∀ c ≠ 0, old.lists c = new.lists c + if x = c then 1 else 0

theorem Grown.linksTo_eq (grown : Grown dp (inode dp) (next dp) x) (tree : Tree ninodes inode)
    (linked : Linked inode dp) (stillLinked : Linked next dp) (positive : c ≠ 0) :
    (next dp).linksTo c = (inode dp).linksTo c + if x = c then 1 else 0 := by
  rw [Dirs.linksTo_eq grown.dots stillLinked.1 stillLinked.2 positive,
    tree.linksTo_eq linked positive, grown.parent, grown.lists c positive, Nat.add_assoc]

theorem Shrunk.linksTo_eq (shrunk : Shrunk dp (inode dp) (next dp) x) (tree : Tree ninodes inode)
    (linked : Linked inode dp) (stillLinked : Linked next dp) (positive : c ≠ 0) :
    (inode dp).linksTo c = (next dp).linksTo c + if x = c then 1 else 0 := by
  rw [Dirs.linksTo_eq shrunk.dots stillLinked.1 stillLinked.2 positive,
    tree.linksTo_eq linked positive, shrunk.parent, shrunk.lists c positive, Nat.add_assoc]

theorem linksTo_of_not_dir (notDir : ¬ IsDir inode d) : (inode d).linksTo c = 0 :=
  linksTo_of_not_linked fun linked => notDir linked.1

theorem Tree.ne_parent_of_not_linked (tree : Tree ninodes inode) (unlinked : ¬ Linked inode x)
    (isDir : IsDir inode d) : (inode d).parent ≠ x := by
  intro same
  apply unlinked
  rw [← same]
  exact tree.parent d isDir

/-- An inode that is not a directory gets an entry and a link. -/
theorem Tree.addNode (tree : Tree ninodes inode) (linked : Linked inode dp)
    (inside : 0 < x ∧ x < ninodes) (notDir : ¬ IsDir inode x) (different : x ≠ dp)
    (other : ∀ d, d ≠ x → d ≠ dp → next d = inode d) (kept : Allocated next x)
    (stillNotDir : ¬ IsDir next x) (count : (next x).nlink = links ninodes inode x + 1)
    (small : (next x).nlink < 2 ^ 15) (grown : Grown dp (inode dp) (next dp) x)
    (sameLinks : (next dp).nlink = (inode dp).nlink) : Tree ninodes next := by
  have stillLinked : Linked next dp := ⟨grown.type, by rw [sameLinks]; exact linked.2⟩
  have isAdded : ∀ c ≠ 0,
      links ninodes next c = links ninodes inode c + if x = c then 1 else 0 := by
    intro c positive
    have total := links_relinked different other inside.2
      (tree.inside dp linked.1.allocated).2 c
    rw [linksTo_of_not_dir notDir, linksTo_of_not_dir stillNotDir,
      grown.linksTo_eq tree linked stillLinked positive] at total
    omega
  have relinks : Relinks ninodes inode next x dp := {
    different := different
    other := other
    inside := inside
    notRoot := fun same => notDir (by rw [same]; exact tree.root.1)
    linked := linked
    stillLinked := stillLinked
    dots := grown.dots
    parent := grown.parent
    listing := fun de member => (grown.listing de member).imp_right .inr
    lists := by
      intro c positive notX
      rw [grown.lists c positive, if_neg notX.symm, Nat.add_zero]
    kept := kept
    asDir := fun isDir => absurd isDir stillNotDir
    asLinked := fun isLinked => absurd isLinked.1 stillNotDir
    notParent := fun d => tree.ne_parent_of_not_linked fun isLinked => notDir isLinked.1
    small := ⟨small, by rw [sameLinks]; exact tree.small dp linked.1.allocated⟩
    counts := by
      intro c allocated
      by_cases atX : c = x
      · grind
      · have same : (next c).nlink = (inode c).nlink ∧ Allocated inode c := by
          by_cases atDp : c = dp
          · rw [atDp]
            exact ⟨sameLinks, linked.1.allocated⟩
          · grind [Allocated]
        have positive := (tree.inside c same.2).1
        rw [same.1, isAdded c (Nat.pos_iff_ne_zero.mp positive), if_neg (Ne.symm atX),
          tree.counts c same.2, Nat.add_zero] }
  exact relinks.tree tree

/-- A new directory is added below a linked one. -/
theorem Tree.addDir (tree : Tree ninodes inode) (linked : Linked inode dp)
    (inside : 0 < x ∧ x < ninodes) (fresh : ¬ Allocated inode x) (different : x ≠ dp)
    (other : ∀ d, d ≠ x → d ≠ dp → next d = inode d) (isDir : IsDir next x)
    (dots : HasDots x (next x)) (parent : (next x).parent = dp) (empty : (next x).listing = [])
    (one : (next x).nlink = 1) (grown : Grown dp (inode dp) (next dp) x)
    (oneMore : (next dp).nlink = (inode dp).nlink + 1) (small : (next dp).nlink < 2 ^ 15) :
    Tree ninodes next := by
  have dpPositive := linked.2
  have xPositive := Nat.pos_iff_ne_zero.mp inside.1
  have stillLinked : Linked next dp := ⟨grown.type, by omega⟩
  have unused := tree.links_free fresh xPositive
  have isAdded : ∀ c ≠ 0, links ninodes next c = links ninodes inode c +
      (if dp = c then 1 else 0) + if x = c then 1 else 0 := by
    intro c positive
    have total := links_relinked different other inside.2
      (tree.inside dp linked.1.allocated).2 c
    have ofNew : (next x).linksTo c = if dp = c then 1 else 0 := by
      rw [Dirs.linksTo_eq dots isDir (by omega) positive, parent,
        lists_eq_zero (by simp [empty]) positive, Nat.add_zero]
    rw [linksTo_of_not_dir (fun wasDir => fresh wasDir.allocated), ofNew,
      grown.linksTo_eq tree linked stillLinked positive] at total
    omega
  have notLinked : ¬ Linked inode x := fun isLinked => fresh isLinked.1.allocated
  have notListed : (inode dp).lists x = 0 := by
    by_contra lists
    obtain ⟨de, member, same⟩ := exists_of_lists lists
    refine absurd ?_ fresh
    rw [← same]
    exact tree.target dp linked.1 de member (by rw [same]; exact xPositive)
  have relinks : Relinks ninodes inode next x dp := {
    different := different
    other := other
    inside := inside
    notRoot := fun same => notLinked (by rw [same]; exact tree.root)
    linked := linked
    stillLinked := stillLinked
    dots := grown.dots
    parent := grown.parent
    listing := fun de member => (grown.listing de member).imp_right .inr
    lists := by
      intro c positive notX
      rw [grown.lists c positive, if_neg notX.symm, Nat.add_zero]
    kept := isDir.allocated
    asDir := fun _ => ⟨dots, parent, by simp [empty], .inl fresh⟩
    asLinked := fun _ => by rw [grown.lists x xPositive, notListed, if_pos rfl]
    notParent := fun d => tree.ne_parent_of_not_linked notLinked
    small := ⟨by rw [one]; decide, small⟩
    counts := by
      intro c allocated
      by_cases atX : c = x
      · grind
      · by_cases atDp : c = dp
        · subst atDp
          have positive := (tree.inside c linked.1.allocated).1
          have before := tree.counts c linked.1.allocated
          rw [oneMore, isAdded c (Nat.pos_iff_ne_zero.mp positive), if_pos rfl, if_neg different,
            before]
          rfl
        · rw [Allocated, other c atX atDp] at allocated
          have positive := (tree.inside c allocated).1
          rw [other c atX atDp, isAdded c (Nat.pos_iff_ne_zero.mp positive), if_neg (Ne.symm atDp),
            if_neg (Ne.symm atX), tree.counts c allocated]
          rfl }
  exact relinks.tree tree

/-- An inode that is not a directory loses an entry and a link. -/
theorem Tree.dropNode (tree : Tree ninodes inode) (parentDir : IsDir inode dp)
    (allocated : Allocated inode x) (notDir : ¬ IsDir inode x) (different : x ≠ dp)
    (other : ∀ d, d ≠ x → d ≠ dp → next d = inode d) (sameType : (next x).type = (inode x).type)
    (count : (next x).nlink = (inode x).nlink - 1) (shrunk : Shrunk dp (inode dp) (next dp) x)
    (sameLinks : (next dp).nlink = (inode dp).nlink) : Tree ninodes next := by
  have inside := tree.inside x allocated
  have xPositive := Nat.pos_iff_ne_zero.mp inside.1
  have linked : Linked inode dp := by
    apply tree.linked_of_lists parentDir xPositive
    rw [shrunk.lists x xPositive, if_pos rfl]
    omega
  have stillLinked : Linked next dp := ⟨shrunk.type, by rw [sameLinks]; exact linked.2⟩
  have stillNotDir : ¬ IsDir next x := by rwa [IsDir, sameType]
  have isDropped : ∀ c ≠ 0,
      links ninodes next c + (if x = c then 1 else 0) = links ninodes inode c := by
    intro c positive
    have total := links_relinked different other inside.2
      (tree.inside dp linked.1.allocated).2 c
    rw [linksTo_of_not_dir notDir, linksTo_of_not_dir stillNotDir,
      shrunk.linksTo_eq tree linked stillLinked positive] at total
    omega
  have relinks : Relinks ninodes inode next x dp := {
    different := different
    other := other
    inside := inside
    notRoot := fun same => notDir (by rw [same]; exact tree.root.1)
    linked := linked
    stillLinked := stillLinked
    dots := shrunk.dots
    parent := shrunk.parent
    listing := fun de member => (shrunk.listing de member).imp_right .inl
    lists := by
      intro c positive notX
      rw [shrunk.lists c positive, if_neg notX.symm, Nat.add_zero]
    kept := by rwa [Allocated, sameType]
    asDir := fun isDir => absurd isDir stillNotDir
    asLinked := fun isLinked => absurd isLinked.1 stillNotDir
    notParent := fun d => tree.ne_parent_of_not_linked fun isLinked => notDir isLinked.1
    small := by
      have xSmall := tree.small x allocated
      have dpSmall := tree.small dp parentDir.allocated
      omega
    counts := by
      intro c isAllocated
      by_cases atX : c = x
      · subst atX
        have dropped := isDropped c xPositive
        have before := tree.counts c allocated
        rw [if_pos rfl] at dropped
        omega
      · have same : (next c).nlink = (inode c).nlink ∧ Allocated inode c := by
          by_cases atDp : c = dp
          · rw [atDp]
            exact ⟨sameLinks, linked.1.allocated⟩
          · grind [Allocated]
        have positive := (tree.inside c same.2).1
        have dropped := isDropped c (Nat.pos_iff_ne_zero.mp positive)
        rw [if_neg (Ne.symm atX), Nat.add_zero] at dropped
        rw [same.1, dropped, tree.counts c same.2] }
  exact relinks.tree tree

theorem Tree.ne_parent_of_empty (tree : Tree ninodes inode) (parentDir : IsDir inode dp)
    (lists : (inode dp).lists x ≠ 0)
    (empty : ∀ de ∈ (inode x).listing, de.inum = 0)
    (noneRemoved : ∀ d, IsDir inode d → (inode d).nlink = 0 → (inode d).parent ≠ x)
    (below : IsDir inode d) : (inode d).parent ≠ x := by
  by_cases unlinked : (inode d).nlink = 0
  · exact noneRemoved d below unlinked
  · have linked := tree.linked_of_ne below unlinked
    intro same
    by_cases isRoot : d = rootino
    · subst isRoot
      rw [tree.rootParent] at same
      apply lists
      rw [← same]
      exact tree.rootUnlisted dp parentDir
    · have positive := (tree.inside d below.allocated).1
      have listed := tree.listed d linked isRoot
      rw [same, lists_eq_zero empty (Nat.pos_iff_ne_zero.mp positive)] at listed
      omega

theorem Tree.links_eq_one (tree : Tree ninodes inode) (parentDir : IsDir inode dp)
    (isDir : IsDir inode x) (lists : (inode dp).lists x ≠ 0)
    (notParent : ∀ d, IsDir inode d → (inode d).parent ≠ x) : links ninodes inode x = 1 := by
  have positive := Nat.pos_iff_ne_zero.mp (tree.inside x isDir.allocated).1
  have linked := tree.linked_of_lists parentDir positive lists
  have parent := tree.child dp x parentDir isDir lists
  have notRoot : x ≠ rootino := by
    intro same
    apply lists
    rw [same]
    exact tree.rootUnlisted dp parentDir
  have once := tree.listed x ⟨isDir, tree.nlink_pos parentDir isDir.allocated lists⟩ notRoot
  rw [parent] at once
  have inRange : dp ∈ Finset.range ninodes :=
    Finset.mem_range.mpr (tree.inside dp parentDir.allocated).2
  rw [links, Finset.sum_eq_single_of_mem dp inRange]
  · rw [tree.linksTo_eq linked positive, if_neg (notParent dp parentDir), once]
  · intro d _ notDp
    by_cases isLinked : Linked inode d
    · rw [tree.linksTo_eq isLinked positive, if_neg (notParent d isLinked.1)]
      by_contra listsToo
      apply notDp
      rw [← parent]
      exact (tree.child d x isLinked.1 isDir (by omega)).symm
    · exact linksTo_of_not_linked isLinked

/-- The listing directory has one link more: from its own parent or, at the root,
from itself. -/
theorem Tree.one_lt_nlink (tree : Tree ninodes inode) (parentDir : IsDir inode dp)
    (isDir : IsDir inode x) (lists : (inode dp).lists x ≠ 0)
    (notParent : (inode dp).parent ≠ x) (different : x ≠ dp) : 1 < (inode dp).nlink := by
  have xPositive := Nat.pos_iff_ne_zero.mp (tree.inside x isDir.allocated).1
  have dpPositive := Nat.pos_iff_ne_zero.mp (tree.inside dp parentDir.allocated).1
  have linked := tree.linked_of_lists parentDir xPositive lists
  have xLinked : Linked inode x := ⟨isDir, tree.nlink_pos parentDir isDir.allocated lists⟩
  obtain ⟨q, qLinked, notX, some⟩ : ∃ q, Linked inode q ∧ q ≠ x ∧ (inode q).linksTo dp ≠ 0 := by
    by_cases isRoot : dp = rootino
    · refine ⟨dp, linked, different.symm, ?_⟩
      rw [tree.linksTo_eq linked dpPositive, isRoot, if_pos tree.rootParent]
      omega
    · have qLinked := tree.parent dp parentDir
      refine ⟨(inode dp).parent, qLinked, notParent, ?_⟩
      rw [tree.linksTo_eq qLinked dpPositive, tree.listed dp linked isRoot]
      omega
  have both := tree.linksTo_add_le (c := dp) qLinked.1 isDir notX
  rw [tree.linksTo_eq xLinked dpPositive, if_pos (tree.child dp x parentDir isDir lists)] at both
  rw [tree.counts dp parentDir.allocated]
  omega

theorem Tree.dropDir (tree : Tree ninodes inode) (parentDir : IsDir inode dp)
    (isDir : IsDir inode x) (empty : ∀ de ∈ (inode x).listing, de.inum = 0)
    (noneRemoved : ∀ d, IsDir inode d → (inode d).nlink = 0 → (inode d).parent ≠ x)
    (other : ∀ d, d ≠ x → d ≠ dp → next d = inode d)
    (removes : next x = { inode x with nlink := (inode x).nlink - 1 })
    (shrunk : Shrunk dp (inode dp) (next dp) x)
    (oneLess : (next dp).nlink = (inode dp).nlink - 1) : Tree ninodes next := by
  have inside := tree.inside x isDir.allocated
  have xPositive := Nat.pos_iff_ne_zero.mp inside.1
  have lists : (inode dp).lists x ≠ 0 := by
    rw [shrunk.lists x xPositive, if_pos rfl]
    omega
  have notParent : ∀ d, IsDir inode d → (inode d).parent ≠ x := fun d =>
    tree.ne_parent_of_empty parentDir lists empty noneRemoved
  have parent := tree.child dp x parentDir isDir lists
  have linked := tree.linked_of_lists parentDir xPositive lists
  have one : (inode x).nlink = 1 := by
    rw [tree.counts x isDir.allocated, tree.links_eq_one parentDir isDir lists notParent]
    rfl
  have xLinked : Linked inode x := ⟨isDir, by omega⟩
  have notRoot : x ≠ rootino := by
    intro same
    apply lists
    rw [same]
    exact tree.rootUnlisted dp parentDir
  have different : x ≠ dp := by
    grind
  have dpPositive := Nat.pos_iff_ne_zero.mp (tree.inside dp parentDir.allocated).1
  have ofX : ∀ c ≠ 0, (inode x).linksTo c = if dp = c then 1 else 0 := by
    intro c positive
    rw [tree.linksTo_eq xLinked positive, parent, lists_eq_zero empty positive, Nat.add_zero]
  have another := tree.one_lt_nlink parentDir isDir lists (notParent dp parentDir) different
  have stillLinked : Linked next dp := ⟨shrunk.type, by omega⟩
  have isDropped : ∀ c ≠ 0, links ninodes next c + (if dp = c then 1 else 0) +
      (if x = c then 1 else 0) = links ninodes inode c := by
    intro c positive
    have total := links_relinked different other inside.2
      (tree.inside dp parentDir.allocated).2 c
    have unlinked : (next x).linksTo c = 0 := by
      grind [linksTo_of_not_linked]
    rw [ofX c positive, unlinked, shrunk.linksTo_eq tree linked stillLinked positive] at total
    omega
  have relinks : Relinks ninodes inode next x dp := {
    different := different
    other := other
    inside := inside
    notRoot := notRoot
    linked := linked
    stillLinked := stillLinked
    dots := shrunk.dots
    parent := shrunk.parent
    listing := fun de member => (shrunk.listing de member).imp_right .inl
    lists := by
      intro c positive notX
      rw [shrunk.lists c positive, if_neg notX.symm, Nat.add_zero]
    kept := by
      rw [Allocated, removes]
      exact isDir.allocated
    asDir := by
      intro _
      rw [removes]
      exact ⟨⟨(tree.dots x isDir).entries, (tree.dots x isDir).named⟩, parent, empty,
        .inr ⟨isDir, parent⟩⟩
    asLinked := by
      rintro ⟨_, some⟩
      rw [removes] at some
      dsimp only at some
      omega
    notParent := notParent
    small := by
      have dpSmall := tree.small dp parentDir.allocated
      rw [removes]
      dsimp only
      omega
    counts := by
      intro c allocated
      by_cases atX : c = x
      · subst atX
        have dropped := isDropped c xPositive
        have before := tree.counts c isDir.allocated
        rw [if_pos rfl, if_neg different.symm] at dropped
        rw [removes]
        dsimp only
        omega
      · by_cases atDp : c = dp
        · subst atDp
          have dropped := isDropped c dpPositive
          have before := tree.counts c parentDir.allocated
          rw [if_pos rfl, if_neg different] at dropped
          omega
        · rw [Allocated, other c atX atDp] at allocated
          have positive := (tree.inside c allocated).1
          have dropped := isDropped c (Nat.pos_iff_ne_zero.mp positive)
          rw [if_neg (Ne.symm atDp), if_neg (Ne.symm atX), Nat.add_zero] at dropped
          rw [other c atX atDp, dropped, tree.counts c allocated] }
  exact relinks.tree tree

theorem Tree.free (tree : Tree ninodes inode) (unlinked : (inode x).nlink = 0)
    (other : ∀ d, d ≠ x → next d = inode d) (freed : (next x).type = .free) :
    Tree ninodes next := by
  have notAllocated : ¬ Allocated next x := fun allocated => allocated freed
  have ne : ∀ {c}, Allocated next c → c ≠ x := by
    grind
  have notLinked : ¬ Linked inode x := fun linked => absurd linked.2 (by omega)
  have sameLinks : ∀ c, links ninodes next c = links ninodes inode c := by
    intro c
    apply Finset.sum_congr rfl
    intro d _
    by_cases atX : d = x
    · grind [linksTo_of_not_dir, linksTo_of_not_linked]
    · rw [other d atX]
  have dirOf : ∀ {d}, IsDir next d → d ≠ x ∧ IsDir inode d := by
    grind [IsDir]
  have linkedOf : ∀ {d}, Linked inode d → Linked next d := by
    grind [Linked, IsDir]
  exact {
    addressable := tree.addressable
    inside := by
      intro c allocated
      have notX := ne allocated
      rw [Allocated, other c notX] at allocated
      exact tree.inside c allocated
    dots := by
      intro d isDir
      obtain ⟨notX, wasDir⟩ := dirOf isDir
      rw [other d notX]
      exact tree.dots d wasDir
    target := by
      intro d isDir de member used
      obtain ⟨notX, wasDir⟩ := dirOf isDir
      rw [other d notX] at member
      have allocated := tree.target d wasDir de member used
      have notTarget : de.inum ≠ x := by
        intro same
        have some := tree.nlink_pos wasDir allocated (lists_pos member)
        rw [same] at some
        omega
      rwa [Allocated, other _ notTarget]
    parent := by
      intro d isDir
      obtain ⟨notX, wasDir⟩ := dirOf isDir
      rw [other d notX]
      exact linkedOf (tree.parent d wasDir)
    counts := by
      intro c allocated
      have notX := ne allocated
      rw [Allocated, other c notX] at allocated
      rw [sameLinks, other c notX]
      exact tree.counts c allocated
    small := by
      intro c allocated
      have notX := ne allocated
      rw [Allocated, other c notX] at allocated
      rw [other c notX]
      exact tree.small c allocated
    child := by
      intro d c isDir isChild lists
      obtain ⟨notX, wasDir⟩ := dirOf isDir
      obtain ⟨childNotX, wasChild⟩ := dirOf isChild
      rw [other d notX] at lists
      rw [other c childNotX]
      exact tree.child d c wasDir wasChild lists
    listed := by
      intro c linked notRoot
      obtain ⟨notX, wasDir⟩ := dirOf linked.1
      rw [Linked, IsDir, other c notX] at linked
      rw [other c notX, other _ (tree.ne_parent_of_not_linked notLinked wasDir)]
      exact tree.listed c linked notRoot
    root := linkedOf tree.root
    rootParent := by
      rw [other rootino (ne (linkedOf tree.root).1.allocated)]
      exact tree.rootParent
    rootUnlisted := by
      intro d isDir
      obtain ⟨notX, wasDir⟩ := dirOf isDir
      rw [other d notX]
      exact tree.rootUnlisted d wasDir
    removed := by
      intro d isDir noLinks
      obtain ⟨notX, wasDir⟩ := dirOf isDir
      rw [other d notX] at noLinks ⊢
      exact tree.removed d wasDir noLinks }

end Facts

end Dirs

end Xv6
