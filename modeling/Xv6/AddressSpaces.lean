import Mathlib.Algebra.Group.Pi.Basic
import Mathlib.Algebra.Order.BigOperators.Group.Finset
import Mathlib.Data.Nat.Bitwise
import Mathlib.Order.Interval.Finset.Nat
import Xv6.TableSums
import Xv6.VirtualMemory

/-!
# The address space of a page directory

What a page directory maps is a table of entries by virtual page, and it owns the
directory page, its page tables and the pages its user entries refer to.  How often
it owns each page is counted.  Memory is sound if no page is free or owned more than
once in all and every such page is one of the allocator's.
-/

namespace Xv6

namespace Vm

namespace Memory

open Function (update update_of_ne update_self)

variable {memory next : Memory} {pgdir pgtab page index va value : Nat}

@[simp]
theorem word_setPage_self (words : Nat → Nat) : (memory.setPage page words).word page = words :=
  update_self ..

theorem word_setPage_of_ne {other : Nat} (words : Nat → Nat) (differs : other ≠ page) :
    (memory.setPage page words).word other = memory.word other :=
  update_of_ne differs ..

theorem word_setWord_of_ne {other : Nat} (differs : other ≠ page) :
    (memory.setWord page index value).word other = memory.word other :=
  word_setPage_of_ne _ differs

@[simp]
theorem word_setWord_self :
    (memory.setWord page index value).word page =
      update (memory.word page) index value :=
  word_setPage_self ..

/-! ## What is mapped -/

def mapping (value : Nat) : Option Nat :=
  if Present value then some value else none

def table (memory : Memory) (pgdir index : Nat) : Option Nat :=
  if index < 1024 then (mapping (memory.word pgdir index)).map (· / 4096) else none

def entry (memory : Memory) (pgdir va : Nat) : Option Nat :=
  (memory.table pgdir (va / 1024)).bind fun pgtab => mapping (memory.word pgtab (va % 1024))

def frame (memory : Memory) (pgdir va : Nat) : Option Nat :=
  (memory.entry pgdir va).map (· / 4096)

theorem entry_of_table (isTable : memory.table pgdir (va / 1024) = some pgtab) :
    memory.entry pgdir va = mapping (memory.word pgtab (va % 1024)) := by
  rw [entry, isTable, Option.bind_some]

theorem entry_of_no_table (noTable : memory.table pgdir (va / 1024) = none) :
    memory.entry pgdir va = none := by
  rw [entry, noTable, Option.bind_none]

theorem table_lt (isTable : memory.table pgdir index = some pgtab) : index < 1024 := by
  grind [table]

theorem table_congr (sameDirectory : next.word pgdir = memory.word pgdir) :
    next.table pgdir = memory.table pgdir := by
  funext index
  rw [table, table, sameDirectory]

theorem entry_congr (sameDirectory : next.word pgdir = memory.word pgdir)
    (sameTables : ∀ index pgtab, memory.table pgdir index = some pgtab →
      next.word pgtab = memory.word pgtab) : next.entry pgdir = memory.entry pgdir := by
  funext va
  rw [entry, entry, table_congr sameDirectory]
  cases isTable : memory.table pgdir (va / 1024) with
  | none => rfl
  | some pgtab =>
    rw [Option.bind_some, Option.bind_some, sameTables _ _ isTable]

/-! ## What is owned -/

/-- The numbers below a bound.  The set is not computed, so that no proof goes through
all the pages of an address space. -/
noncomputable def below (bound : Nat) : Finset Nat :=
  (Set.finite_Iio bound).toFinset

theorem mem_below {bound number : Nat} : number ∈ below bound ↔ number < bound := by
  rw [below, Set.Finite.mem_toFinset, Set.mem_Iio]

def one (page other : Nat) : Nat :=
  if page = other then 1 else 0

/-- Whether an optional page is the given one, as a number. -/
def weight (page : Nat) (found : Option Nat) : Nat :=
  if found = some page then 1 else 0

/-- How often a directory owns a page as its directory page or as a page table. -/
noncomputable def tables (memory : Memory) (pgdir page : Nat) : Nat :=
  one pgdir page + ∑ index ∈ below 1024, weight page (memory.table pgdir index)

/-- How often a page is a user page of a directory. -/
noncomputable def users (memory : Memory) (pgdir page : Nat) : Nat :=
  ∑ va ∈ below 0x80000, weight page (memory.frame pgdir va)

/-- How often a directory owns a page. -/
noncomputable def uses (memory : Memory) (pgdir page : Nat) : Nat :=
  memory.tables pgdir page + memory.users pgdir page

@[simp]
theorem one_self (page : Nat) : one page page = 1 :=
  if_pos rfl

theorem one_of_ne {other : Nat} (differs : page ≠ other) : one page other = 0 :=
  if_neg differs

@[simp]
theorem weight_none (page : Nat) : weight page none = 0 :=
  rfl

@[simp]
theorem weight_some (page other : Nat) : weight page (some other) = one other page := by
  simp [weight, one]

theorem tables_congr (same : next.table pgdir = memory.table pgdir) :
    next.tables pgdir = memory.tables pgdir := by
  funext page
  rw [tables, tables, same]

theorem users_congr (same : next.entry pgdir = memory.entry pgdir) :
    next.users pgdir = memory.users pgdir := by
  funext page
  simp only [users, frame, same]

theorem uses_congr (sameTables : next.table pgdir = memory.table pgdir)
    (sameEntries : next.entry pgdir = memory.entry pgdir) :
    next.uses pgdir = memory.uses pgdir := by
  funext page
  rw [uses, uses, tables_congr sameTables, users_congr sameEntries]

theorem users_update {found : Option Nat} (isUser : va < 0x80000)
    (isEntry : next.entry pgdir = update (memory.entry pgdir) va found) (page : Nat) :
    next.users pgdir page + weight page (memory.frame pgdir va) =
      memory.users pgdir page + weight page (found.map (· / 4096)) := by
  have counted := @sum_update_add _ _ _ (below 0x80000) (memory.entry pgdir) va found
    (fun found => weight page (found.map (· / 4096))) (mem_below.mpr isUser)
  simp only [users, frame, isEntry]
  exact counted

theorem users_update_kernel {found : Option Nat} (isKernel : 0x80000 ≤ va)
    (isEntry : next.entry pgdir = update (memory.entry pgdir) va found) :
    next.users pgdir = memory.users pgdir := by
  funext page
  refine Finset.sum_congr rfl fun other member => ?_
  have isOther := mem_below.mp member
  rw [frame, frame, isEntry, update_of_ne (by omega)]

theorem tables_update (small : index < 1024) (noTable : memory.table pgdir index = none)
    (isTable : next.table pgdir = update (memory.table pgdir) index (some pgtab))
    (page : Nat) : next.tables pgdir page = memory.tables pgdir page + one pgtab page := by
  have counted := @sum_update_add _ _ _ (below 1024) (memory.table pgdir) index (some pgtab)
    (weight page) (mem_below.mpr small)
  rw [noTable, weight_none, weight_some] at counted
  rw [tables, tables, isTable]
  omega

/-! ## Pages that are owned once -/

theorem tables_ge (memory : Memory) (pgdir index page : Nat) :
    one pgdir page + weight page (memory.table pgdir index) ≤ memory.tables pgdir page := by
  rw [tables]
  by_cases small : index < 1024
  · have := Finset.single_le_sum (f := fun index => weight page (memory.table pgdir index))
      (fun _ _ => Nat.zero_le _) (mem_below.mpr small)
    omega
  · rw [table, if_neg small, weight_none]
    omega

theorem uses_ge (memory : Memory) (pgdir page : Nat) (isUser : va < 0x80000) :
    memory.tables pgdir page + weight page (memory.frame pgdir va) ≤ memory.uses pgdir page := by
  have := Finset.single_le_sum (f := fun va => weight page (memory.frame pgdir va))
    (fun _ _ => Nat.zero_le _) (mem_below.mpr isUser)
  rw [uses, users]
  omega

theorem one_le_tables_pgdir (memory : Memory) (pgdir : Nat) : 1 ≤ memory.tables pgdir pgdir := by
  have := memory.tables_ge pgdir 0 pgdir
  rw [one_self] at this
  omega

theorem one_le_tables (isTable : memory.table pgdir index = some pgtab) :
    1 ≤ memory.tables pgdir pgtab := by
  have := memory.tables_ge pgdir index pgtab
  rw [isTable, weight_some, one_self] at this
  omega

theorem exists_table (isPart : 1 ≤ memory.tables pgdir page) (differs : page ≠ pgdir) :
    ∃ index, memory.table pgdir index = some page := by
  rw [tables, one_of_ne differs.symm, Nat.zero_add] at isPart
  obtain ⟨index, -, counted⟩ :=
    Finset.exists_ne_zero_of_sum_ne_zero (Nat.one_le_iff_ne_zero.mp isPart)
  refine ⟨index, ?_⟩
  by_contra noTable
  exact counted (if_neg noTable)

theorem exists_frame (isUsed : 1 ≤ memory.users pgdir page) :
    ∃ va < 0x80000, memory.frame pgdir va = some page := by
  obtain ⟨va, member, counted⟩ :=
    Finset.exists_ne_zero_of_sum_ne_zero (Nat.one_le_iff_ne_zero.mp isUsed)
  refine ⟨va, mem_below.mp member, ?_⟩
  by_contra noFrame
  exact counted (if_neg noFrame)

/-- A directory with user pages below `count` owns at most `count` and 1025 pages. -/
theorem length_le_of_uses {free others : List Nat} {count : Nat} (nodup : free.Nodup)
    (areUsed : ∀ page ∈ free, page ∈ others ∨ 1 ≤ memory.uses pgdir page)
    (absent : ∀ va, count ≤ va → va < 0x80000 → memory.entry pgdir va = none) :
    free.length ≤ others.length + 1025 + count := by
  have isCovered : free ⊆ others ++ pgdir :: ((List.range 1024).filterMap (memory.table pgdir) ++
      (List.range count).filterMap (memory.frame pgdir)) := by
    intro page isFree
    simp only [List.mem_cons, List.mem_append, List.mem_filterMap, List.mem_range]
    rcases areUsed page isFree with isOther | isUsed
    · exact .inl isOther
    by_cases isDirectory : page = pgdir
    · exact .inr (.inl isDirectory)
    by_cases isPart : 1 ≤ memory.tables pgdir page
    · obtain ⟨index, isTable⟩ := exists_table isPart isDirectory
      exact .inr (.inr (.inl ⟨index, table_lt isTable, isTable⟩))
    · rw [uses] at isUsed
      obtain ⟨va, isUser, isFrame⟩ := exists_frame (by omega : 1 ≤ memory.users pgdir page)
      refine .inr (.inr (.inr ⟨va, ?_, isFrame⟩))
      by_contra isAbove
      rw [frame, absent va (by omega) isUser] at isFrame
      cases isFrame
  have bound := (nodup.subperm isCovered).length_le
  have tablesBound := List.length_filterMap_le (memory.table pgdir) (List.range 1024)
  have framesBound := List.length_filterMap_le (memory.frame pgdir) (List.range count)
  rw [List.length_range] at tablesBound framesBound
  simp only [List.length_cons, List.length_append] at bound
  omega

theorem views_of_empty (empty : memory.word pgdir = fun _ => 0) :
    memory.table pgdir = (fun _ => none) ∧ memory.entry pgdir = (fun _ => none) ∧
      memory.uses pgdir = one pgdir := by
  have noTable : memory.table pgdir = fun _ => none := by
    funext index
    rw [table, empty]
    split <;> rfl
  have noEntry : memory.entry pgdir = fun _ => none := by
    funext va
    exact entry_of_no_table (congrFun noTable _)
  refine ⟨noTable, noEntry, funext fun page => ?_⟩
  simp only [uses, tables, users, frame, noTable, noEntry, Option.map_none, weight_none,
    Finset.sum_const_zero, Nat.add_zero]

theorem ne_of_tables_eq_zero (unused : memory.tables pgdir page = 0) :
    page ≠ pgdir ∧ ∀ index, memory.table pgdir index ≠ some page := by
  constructor
  · rintro rfl
    have := memory.one_le_tables_pgdir page
    omega
  · intro index isTable
    have := one_le_tables isTable
    omega

theorem views_setPage (unused : memory.tables pgdir page = 0) (words : Nat → Nat) :
    (memory.setPage page words).table pgdir = memory.table pgdir ∧
      (memory.setPage page words).entry pgdir = memory.entry pgdir := by
  obtain ⟨notDirectory, notTable⟩ := ne_of_tables_eq_zero unused
  have sameDirectory : (memory.setPage page words).word pgdir = memory.word pgdir :=
    word_setPage_of_ne words notDirectory.symm
  refine ⟨table_congr sameDirectory, entry_congr sameDirectory fun index pgtab isTable => ?_⟩
  refine word_setPage_of_ne _ ?_
  rintro rfl
  exact notTable index isTable

theorem entryWord_div (page : Nat) {flags : Nat} (small : flags < 4096) :
    (4096 * page ||| flags) / 4096 = page ∧ (4096 * page ||| flags) % 4096 = flags := by
  have isSum : 4096 * page ||| flags = 4096 * page + flags :=
    (Nat.two_pow_add_eq_or_of_lt (i := 12) small page).symm
  omega

section Once

variable (once : ∀ page, memory.uses pgdir page ≤ 1)

include once

theorem tables_le_one (page : Nat) : memory.tables pgdir page ≤ 1 := by
  have := once page
  rw [uses] at this
  omega

theorem table_ne_pgdir (isTable : memory.table pgdir index = some pgtab) : pgtab ≠ pgdir := by
  rintro rfl
  have counted := memory.tables_ge pgtab index pgtab
  have := tables_le_one once pgtab
  rw [isTable, weight_some, one_self] at counted
  omega

theorem table_inj {other : Nat} (isTable : memory.table pgdir index = some pgtab)
    (isOther : memory.table pgdir other = some pgtab) : index = other := by
  by_contra differ
  have counted := add_le_sum_of_ne (fun index => weight pgtab (memory.table pgdir index))
    (mem_below.mpr (table_lt isTable)) (mem_below.mpr (table_lt isOther)) differ
  have bound := tables_le_one once pgtab
  rw [tables] at bound
  simp only [isTable, isOther, weight_some, one_self] at counted
  omega

theorem tables_frame_eq_zero (isUser : va < 0x80000) (isFrame : memory.frame pgdir va = some page) :
    memory.tables pgdir page = 0 := by
  have counted := memory.uses_ge pgdir page isUser
  have := once page
  rw [isFrame, weight_some, one_self] at counted
  omega

theorem frame_inj {other : Nat} (isUser : va < 0x80000) (otherUser : other < 0x80000)
    (isFrame : memory.frame pgdir va = some page)
    (isOther : memory.frame pgdir other = some page) : va = other := by
  by_contra differ
  have counted := add_le_sum_of_ne (fun va => weight page (memory.frame pgdir va))
    (mem_below.mpr isUser) (mem_below.mpr otherUser) differ
  have bound := once page
  rw [uses, users] at bound
  simp only [isFrame, isOther, weight_some, one_self] at counted
  omega

theorem views_setWord (isTable : memory.table pgdir (va / 1024) = some pgtab) (value : Nat) :
    (memory.setWord pgtab (va % 1024) value).table pgdir = memory.table pgdir ∧
      (memory.setWord pgtab (va % 1024) value).entry pgdir =
        update (memory.entry pgdir) va (mapping value) := by
  have sameDirectory : (memory.setWord pgtab (va % 1024) value).word pgdir = memory.word pgdir :=
    word_setWord_of_ne (table_ne_pgdir once isTable).symm
  have sameTable := table_congr sameDirectory
  refine ⟨sameTable, funext fun other => ?_⟩
  rw [entry, sameTable]
  by_cases isOther : memory.table pgdir (other / 1024) = some pgtab
  · have := table_inj once isTable isOther
    rw [isOther, Option.bind_some, word_setWord_self]
    by_cases isVa : other = va
    · rw [isVa, update_self, update_self]
    · rw [update_of_ne (by omega), update_of_ne isVa, entry_of_table isOther]
  · have isVa : other ≠ va := by
      rintro rfl
      exact isOther isTable
    rw [update_of_ne isVa, entry]
    cases isSome : memory.table pgdir (other / 1024) with
    | none => rfl
    | some found =>
      rw [Option.bind_some, Option.bind_some, word_setWord_of_ne]
      rintro rfl
      exact isOther isSome

theorem views_attach (small : index < 1024) (noTable : memory.table pgdir index = none)
    (unused : memory.tables pgdir pgtab = 0) :
    ((memory.setPage pgtab fun _ => 0).setWord pgdir index (4096 * pgtab ||| 7)).table pgdir =
        update (memory.table pgdir) index (some pgtab) ∧
      ((memory.setPage pgtab fun _ => 0).setWord pgdir index (4096 * pgtab ||| 7)).entry pgdir =
        memory.entry pgdir := by
  obtain ⟨notDirectory, notTable⟩ := ne_of_tables_eq_zero unused
  have isEntry := entryWord_div pgtab (show 7 < 4096 by decide)
  have isTable : ((memory.setPage pgtab fun _ => 0).setWord pgdir index
      (4096 * pgtab ||| 7)).table pgdir =
        update (memory.table pgdir) index (some pgtab) := by
    funext other
    by_cases isIndex : other = index
    · rw [isIndex, update_self, table, if_pos small, word_setWord_self,
        update_self, mapping, if_pos (by unfold Present; omega), Option.map_some,
        isEntry.1]
    · rw [update_of_ne isIndex, table, table, word_setWord_self,
        update_of_ne isIndex, word_setPage_of_ne _ notDirectory.symm]
  refine ⟨isTable, funext fun va => ?_⟩
  rw [entry, isTable]
  by_cases isIndex : va / 1024 = index
  · rw [isIndex, update_self, Option.bind_some, word_setWord_of_ne notDirectory,
      word_setPage_self, entry_of_no_table (isIndex ▸ noTable)]
    rfl
  · rw [update_of_ne isIndex, entry]
    cases isSome : memory.table pgdir (va / 1024) with
    | none => rfl
    | some found =>
      have notFound : found ≠ pgtab := by
        rintro rfl
        exact notTable _ isSome
      rw [Option.bind_some, Option.bind_some, word_setWord_of_ne (table_ne_pgdir once isSome),
        word_setPage_of_ne _ notFound]

end Once

end Memory

end Vm

end Xv6
