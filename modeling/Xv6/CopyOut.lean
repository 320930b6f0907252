import Xv6.PageTableWalks

/-!
# Bytes copied to an address space

`copyout` copies bytes to user addresses page by page, and stops at the first page
that the user may not access.  It is exact where the page table of that page is
present; without one it reads an entry through the null pointer.
-/

namespace Xv6

namespace Vm

open Memory

variable {allowed : Stop → Prop} {memory next last : Memory} {pgdir page offset va value : Nat}
  {bytes : List Nat}

/-! ## Bytes of a page -/

theorem byte_of_word (word place : Nat) (small : place < 4) (value other : Nat)
    (isByte : value < 256) (isOther : other < 4) :
    (word % 256 ^ place + 256 ^ place * (value + 256 * (word / 256 ^ place / 256))) / 256 ^ other %
        256 = if other = place then value else word / 256 ^ other % 256 := by
  have places : place = 0 ∨ place = 1 ∨ place = 2 ∨ place = 3 := by omega
  have others : other = 0 ∨ other = 1 ∨ other = 2 ∨ other = 3 := by omega
  rcases places with rfl | rfl | rfl | rfl <;> rcases others with rfl | rfl | rfl | rfl <;>
    simp <;> omega

namespace Memory

theorem byte_setByte (isByte : value < 256) (other : Nat) :
    (memory.setByte page offset value).byte page other =
      if other = offset then value else memory.byte page other := by
  rw [byte, setByte, word_setWord_self]
  by_cases isIndex : other / 4 = offset / 4
  · grind [Function.update_self, byte_of_word, byte]
  · rw [Function.update_of_ne isIndex, if_neg (by rintro rfl; exact isIndex rfl), byte]

theorem word_setBytes_of_ne {other : Nat} (differs : other ≠ page) (bytes : List Nat) :
    ∀ (memory : Memory) (offset : Nat),
      (memory.setBytes page offset bytes).word other = memory.word other := by
  induction bytes with
  | nil => exact fun _ _ => rfl
  | cons value bytes ih =>
    intro memory offset
    rw [setBytes, ih, setByte, word_setWord_of_ne differs]

/-- All but the contents of the pages is the same. -/
structure SameAllocator (memory next : Memory) : Prop where
  freelist : next.freelist = memory.freelist
  failures : next.failures = memory.failures
  refusals : next.refusals = memory.refusals
  bottom : next.bottom = memory.bottom
  data : next.data = memory.data

theorem SameAllocator.trans (first : SameAllocator memory next)
    (second : SameAllocator next last) : SameAllocator memory last :=
  ⟨second.freelist.trans first.freelist, second.failures.trans first.failures,
    second.refusals.trans first.refusals, second.bottom.trans first.bottom,
    second.data.trans first.data⟩

theorem setBytes_same (page : Nat) (bytes : List Nat) : ∀ (memory : Memory) (offset : Nat),
    SameAllocator memory (memory.setBytes page offset bytes) := by
  induction bytes with
  | nil => exact fun _ _ => ⟨rfl, rfl, rfl, rfl, rfl⟩
  | cons value bytes ih =>
    intro memory offset
    have first : SameAllocator memory (memory.setByte page offset value) :=
      ⟨rfl, rfl, rfl, rfl, rfl⟩
    exact first.trans (ih (memory.setByte page offset value) (offset + 1))

theorem byte_setBytes (bytes : List Nat) : ∀ (memory : Memory) (offset other : Nat),
    (∀ value ∈ bytes, value < 256) →
      (memory.setBytes page offset bytes).byte page other =
        if other < offset then memory.byte page other
        else (bytes[other - offset]?).getD (memory.byte page other) := by
  induction bytes with
  | nil =>
    intro memory offset other _
    simp [setBytes]
  | cons value bytes ih =>
    grind [setBytes, byte_setByte]

end Memory

/-! ## What a user may access -/

/-- The page that a user may access at a virtual page. -/
def access (memory : Memory) (pgdir va : Nat) : Option Nat :=
  (memory.entry pgdir va).bind fun entry => if User entry then some (entry / 4096) else none

/-- The pages that a user may access are different ones and not part of the tables. -/
structure Separate (memory : Memory) (pgdir : Nat) : Prop where
  inj : ∀ va other page, access memory pgdir va = some page →
    access memory pgdir other = some page → va = other
  apart : ∀ va page, access memory pgdir va = some page → memory.tables pgdir page = 0

def address (va count : Nat) : Nat :=
  (va + count) % 0x100000000

theorem address_add (va first count : Nat) :
    address (address va first) count = address va (first + count) := by
  unfold address
  omega

theorem access_congr (same : next.entry pgdir = memory.entry pgdir) :
    access next pgdir = access memory pgdir := by
  funext va
  rw [access, access, same]

theorem ensures_uva2ka {post : Option Nat → Memory → Prop} (small : va < 0x100000)
    (faults : memory.table pgdir (va / 1024) = none → allowed .fault)
    (finds : memory.table pgdir (va / 1024) ≠ none → post (access memory pgdir va) memory) :
    EnsuresOr allowed (uva2ka pgdir va) memory post := by
  refine ensures_walkpgdir_bind small (fun noTable => ensures_throw (faults noTable))
    fun pgtab isTable => ensures_get_bind ?_
  have found := finds (isTable ▸ Option.some_ne_none _)
  rw [access, entry_of_table isTable, mapping] at found
  refine ensures_ite (fun both => ensures_pure ?_) fun notBoth => ensures_pure ?_
  · rwa [if_pos both.1, Option.bind_some, if_pos both.2] at found
  · grind

/-! ## Bytes written -/

/-- The first `count` bytes are written at the addresses from `va` on, and nothing else
changed. -/
structure Written (memory next : Memory) (pgdir va : Nat) (bytes : List Nat) (count : Nat) :
    Prop where
  written : ∀ k < count, ∀ page, access memory pgdir (address va k / 4096) = some page →
    next.byte page (address va k % 4096) = bytes[k]?.getD 0
  others : ∀ page offset, (∀ k < count, access memory pgdir (address va k / 4096) = some page →
    offset ≠ address va k % 4096) → next.byte page offset = memory.byte page offset
  word : ∀ page, (∀ k < count, access memory pgdir (address va k / 4096) ≠ some page) →
    next.word page = memory.word page
  allocator : SameAllocator memory next

theorem Written.refl (memory : Memory) (pgdir va : Nat) (bytes : List Nat) :
    Written memory memory pgdir va bytes 0 :=
  ⟨fun k isSmall => absurd isSmall (Nat.not_lt_zero k), fun _ _ _ => rfl, fun _ _ => rfl,
    ⟨rfl, rfl, rfl, rfl, rfl⟩⟩

variable {count first : Nat}

theorem Written.views (written : Written memory next pgdir va bytes count)
    (separate : Separate memory pgdir) :
    next.table pgdir = memory.table pgdir ∧ next.entry pgdir = memory.entry pgdir := by
  have untouched : ∀ page, 1 ≤ memory.tables pgdir page → next.word page = memory.word page := by
    intro page isPart
    refine written.word page fun k _ isAccess => ?_
    have := separate.apart _ page isAccess
    omega
  have sameDirectory := untouched pgdir (memory.one_le_tables_pgdir pgdir)
  exact ⟨table_congr sameDirectory, entry_congr sameDirectory fun index pgtab isTable =>
    untouched pgtab (one_le_tables isTable)⟩

theorem Written.separate (written : Written memory next pgdir va bytes count)
    (separate : Separate memory pgdir) : Separate next pgdir := by
  have views := written.views separate
  constructor
  · rw [access_congr views.2]
    exact separate.inj
  · rw [access_congr views.2, tables_congr views.1]
    exact separate.apart

theorem written_page (isPage : access memory pgdir (va / 4096) = some page)
    (isAddress : va < 0x100000000) (inside : count ≤ 4096 - va % 4096)
    (enough : count ≤ bytes.length) (small : ∀ value ∈ bytes, value < 256) :
    Written memory (memory.setBytes page (va % 4096) (bytes.take count)) pgdir va bytes count := by
  have isAddr : ∀ k < count, address va k / 4096 = va / 4096 ∧
      address va k % 4096 = va % 4096 + k := by
    intro k isSmall
    unfold address
    omega
  have isByte : ∀ value ∈ bytes.take count, value < 256 :=
    fun value member => small value (List.mem_of_mem_take member)
  refine ⟨fun k isSmall found isFound => ?_, fun other offset avoided => ?_,
    fun other avoided => ?_, setBytes_same page (bytes.take count) memory (va % 4096)⟩
  · rw [(isAddr k isSmall).1, isPage, Option.some_inj] at isFound
    rw [← isFound, (isAddr k isSmall).2, byte_setBytes _ _ _ _ isByte, if_neg (by omega),
      Nat.add_sub_cancel_left, List.getElem?_take_of_lt isSmall,
      List.getElem?_eq_getElem (by omega), Option.getD_some, Option.getD_some]
  · by_cases isOther : other = page
    · grind [byte_setBytes, List.getElem?_take_eq_none]
    · rw [byte, byte, word_setBytes_of_ne isOther]
  · cases count with
    | zero => rfl
    | succ count =>
      refine word_setBytes_of_ne ?_ _ memory _
      rintro rfl
      exact avoided 0 (Nat.succ_pos _) ((isAddr 0 (Nat.succ_pos _)).1 ▸ isPage)

theorem Written.trans (chunk : Written memory next pgdir va bytes first)
    (separate : Separate memory pgdir)
    (remaining : Written next last pgdir (address va first) (bytes.drop first) count)
    (bound : first + count ≤ 0x100000000) : Written memory last pgdir va bytes (first + count) := by
  have views := chunk.views separate
  have isAddress := address_add va first
  have isAccess := access_congr views.2
  refine ⟨fun k isSmall page isPage => ?_, fun page offset avoided => ?_, fun page avoided => ?_,
    chunk.allocator.trans remaining.allocator⟩
  · by_cases inChunk : k < first
    · rw [remaining.others page _ fun later isLater isOther isSame => ?_,
        chunk.written k inChunk page isPage]
      rw [isAccess, isAddress] at isOther
      have samePage := separate.inj _ _ page isPage isOther
      unfold address at samePage isSame
      omega
    · have isLater : k - first < count := by omega
      have isAddr := isAddress (k - first)
      have isWritten := remaining.written (k - first) isLater page
      rw [isAddr, isAccess, List.getElem?_drop, show first + (k - first) = k by omega] at isWritten
      exact isWritten isPage
  · rw [remaining.others page offset fun k isSmall isOther => ?_, chunk.others page offset
      fun k isSmall => avoided k (by omega)]
    rw [isAccess, isAddress] at isOther
    rw [isAddress]
    exact avoided (first + k) (by omega) isOther
  · rw [remaining.word page fun k isSmall isOther => ?_, chunk.word page
      fun k isSmall => avoided k (by omega)]
    rw [isAccess, isAddress] at isOther
    exact avoided (first + k) (by omega) isOther

/-! ## The loop of `copyout` -/

/-- All addresses of the first `count` bytes may be accessed. -/
def Accessible (memory : Memory) (pgdir va count : Nat) : Prop :=
  ∀ k < count, access memory pgdir (address va k / 4096) ≠ none

/-- The copy stopped at the first byte that may not be accessed, whose page table is
present. -/
def StopsAt (memory next : Memory) (pgdir va : Nat) (bytes : List Nat) (count : Nat) : Prop :=
  count < bytes.length ∧ Accessible memory pgdir va count ∧
    access memory pgdir (address va count / 4096) = none ∧
    memory.table pgdir (address va count / 4096 / 1024) ≠ none ∧
    Written memory next pgdir va bytes count

theorem Accessible.append (chunk : Accessible memory pgdir va first)
    (remaining : Accessible memory pgdir (address va first) count) :
    Accessible memory pgdir va (first + count) := by
  intro k isSmall
  by_cases inChunk : k < first
  · exact chunk k inChunk
  · have isLater := remaining (k - first) (by omega)
    rwa [address_add, show first + (k - first) = k by omega] at isLater

theorem Accessible.congr (same : next.entry pgdir = memory.entry pgdir)
    (accessible : Accessible next pgdir va count) : Accessible memory pgdir va count := by
  intro k isSmall
  rw [← access_congr same]
  exact accessible k isSmall

theorem StopsAt.append (separate : Separate memory pgdir)
    (accessible : Accessible memory pgdir va first)
    (chunk : Written memory next pgdir va bytes first) (bound : bytes.length < 0x100000000)
    (stops : StopsAt next last pgdir (address va first) (bytes.drop first) count) :
    StopsAt memory last pgdir va bytes (first + count) := by
  have views := chunk.views separate
  obtain ⟨isSmall, accessibleRest, noAccess, isTable, written⟩ := stops
  rw [List.length_drop] at isSmall
  rw [access_congr views.2, address_add] at noAccess
  rw [views.1, address_add] at isTable
  exact ⟨by omega, accessible.append (accessibleRest.congr views.2), noAccess, isTable,
    chunk.trans separate written (by omega)⟩

theorem accessible_zero : Accessible memory pgdir va 0 :=
  fun k isSmall => absurd isSmall (Nat.not_lt_zero k)

theorem copyoutLoop_nil (pgdir rounds va : Nat) : copyoutLoop pgdir rounds va [] = pure true := by
  cases rounds <;> rfl

def CopyResult (memory : Memory) (pgdir va : Nat) (bytes : List Nat) (ok : Bool) (next : Memory) :
    Prop :=
  (ok = true ∧ Accessible memory pgdir va bytes.length ∧
      Written memory next pgdir va bytes bytes.length) ∨
    (ok = false ∧ ∃ count, StopsAt memory next pgdir va bytes count)

theorem CopyResult.append {ok : Bool} (separate : Separate memory pgdir)
    (accessible : Accessible memory pgdir va first)
    (chunk : Written memory next pgdir va bytes first) (isSmall : first ≤ bytes.length)
    (bound : bytes.length < 0x100000000)
    (result : CopyResult next pgdir (address va first) (bytes.drop first) ok last) :
    CopyResult memory pgdir va bytes ok last := by
  rcases result with ⟨isTrue, accessibleRest, written⟩ | ⟨isFalse, count, stops⟩
  · rw [List.length_drop] at accessibleRest written
    have all := accessible.append (accessibleRest.congr (chunk.views separate).2)
    have allWritten := chunk.trans separate written (by omega)
    rw [show first + (bytes.length - first) = bytes.length by omega] at all allWritten
    exact .inl ⟨isTrue, all, allWritten⟩
  · exact .inr ⟨isFalse, first + count, stops.append separate accessible chunk bound⟩

theorem ensures_copyoutLoop (rounds : Nat) :
    ∀ (memory : Memory) (va : Nat) (bytes : List Nat), Separate memory pgdir →
      va < 0x100000000 → bytes.length ≤ rounds → bytes.length < 0x100000000 →
      (∀ value ∈ bytes, value < 256) →
      (∀ k < bytes.length, Accessible memory pgdir va k →
        memory.table pgdir (address va k / 4096 / 1024) = none → allowed .fault) →
      EnsuresOr allowed (copyoutLoop pgdir rounds va bytes) memory
        (CopyResult memory pgdir va bytes) := by
  induction rounds with
  | zero =>
    intro memory va bytes _ _ enough _ _ _
    rw [List.eq_nil_of_length_eq_zero (Nat.le_zero.mp enough)]
    exact ensures_pure (.inl ⟨rfl, accessible_zero, .refl memory pgdir va []⟩)
  | succ rounds ih =>
    intro memory va bytes separate isAddress enough bound small faults
    cases isBytes : bytes with
    | nil => exact ensures_pure (.inl ⟨rfl, accessible_zero, .refl memory pgdir va []⟩)
    | cons p rest =>
      have isPositive : 0 < bytes.length := isBytes ▸ Nat.succ_pos _
      have isFirst : address va 0 = va := by
        unfold address
        omega
      refine ensures_bind (ensures_uva2ka (by omega) (fun noTable => ?_) fun isTable => ?_)
      · exact faults 0 isPositive accessible_zero (by rwa [isFirst])
      rw [← isBytes]
      cases isAccess : access memory pgdir (va / 4096) with
      | none =>
        refine ensures_pure (.inr ⟨rfl, 0, isPositive, accessible_zero, ?_, ?_,
          .refl memory pgdir va bytes⟩)
        · rwa [isFirst]
        · rwa [isFirst]
      | some page =>
        refine ensures_modify_bind ?_
        generalize isCount : min (4096 - va % 4096) bytes.length = count
        have chunk := @written_page memory pgdir page va bytes count isAccess isAddress
          (by omega) (by omega) small
        have accessible : Accessible memory pgdir va count := by
          intro k isSmall
          rw [show address va k / 4096 = va / 4096 by unfold address; omega, isAccess]
          exact Option.some_ne_none _
        have views := chunk.views separate
        generalize memory.setBytes page (va % 4096) (bytes.take count) = next at chunk views ⊢
        by_cases whole : bytes.length ≤ 4096 - va % 4096
        · have isWhole : count = bytes.length := by omega
          rw [isWhole] at accessible chunk
          rw [isWhole, List.drop_length, copyoutLoop_nil]
          exact ensures_pure (.inl ⟨rfl, accessible, chunk⟩)
        · have isNext : (va / 4096 + 1) * 4096 % 0x100000000 = address va count := by
            unfold address
            omega
          rw [isNext]
          refine (ih next (address va count) (bytes.drop count) (chunk.separate separate)
            (Nat.mod_lt _ (by decide)) ?_ ?_ ?_ ?_).mono fun ok last result =>
              result.append separate accessible chunk (by omega) bound
          · rw [List.length_drop]
            omega
          · rw [List.length_drop]
            omega
          · exact fun value member => small value (List.mem_of_mem_drop member)
          · intro k isSmall accessibleRest noTable
            rw [List.length_drop] at isSmall
            rw [views.1, address_add] at noTable
            exact faults (count + k) (by omega)
              (accessible.append (accessibleRest.congr views.2)) noTable

/-! ## Exact copies -/

/-- `copyout` reads no entry through the null pointer; it returns 0 with the bytes
written if they may all be accessed, and otherwise -1 with those before the first
inaccessible page written. -/
structure CopyoutExact (memory : Memory) (pgdir va : Nat) (bytes : List Nat) : Prop where
  noFault : copyout pgdir va bytes memory ≠ .error .fault
  copies : Accessible memory pgdir va bytes.length →
    ∃ next, copyout pgdir va bytes memory = .ok (true, next) ∧
      Written memory next pgdir va bytes bytes.length
  fails : ¬ Accessible memory pgdir va bytes.length →
    ∃ next count, copyout pgdir va bytes memory = .ok (false, next) ∧ count < bytes.length ∧
      Accessible memory pgdir va count ∧ access memory pgdir (address va count / 4096) = none ∧
      Written memory next pgdir va bytes count

/-- Up to the first page that may not be accessed, the page tables are present. -/
def TablesPresent (memory : Memory) (pgdir va length : Nat) : Prop :=
  ∀ k < length, Accessible memory pgdir va k →
    memory.table pgdir (address va k / 4096 / 1024) ≠ none

/-- `copyout` is exact if and only if the page it stops at has a page table. -/
theorem copyoutExact_iff (separate : Separate memory pgdir) (isAddress : va < 0x100000000)
    (bound : bytes.length < 0x100000000) (small : ∀ value ∈ bytes, value < 256) :
    CopyoutExact memory pgdir va bytes ↔ TablesPresent memory pgdir va bytes.length := by
  have result : EnsuresOr (· = .fault) (copyout pgdir va bytes) memory
      (CopyResult memory pgdir va bytes) :=
    ensures_copyoutLoop bytes.length memory va bytes separate isAddress le_rfl bound small
      fun _ _ _ _ => rfl
  constructor
  · intro isExact k isSmall accessible noTable
    have noAccess : access memory pgdir (address va k / 4096) = none := by
      rw [access, entry_of_no_table noTable, Option.bind_none]
    obtain ⟨next, other, runs, -⟩ := isExact.fails fun all => all k isSmall noAccess
    rcases result.result runs with ⟨isTrue, -⟩ | ⟨-, count, -, before, notHere, isTable, -⟩
    · cases isTrue
    · rcases Nat.lt_trichotomy count k with less | rfl | greater
      · exact accessible count less notHere
      · exact isTable noTable
      · exact before k greater noAccess
  · intro present
    have returns : Ensures (copyout pgdir va bytes) memory (CopyResult memory pgdir va bytes) :=
      ensures_copyoutLoop bytes.length memory va bytes separate isAddress le_rfl bound small
        fun k isSmall accessible noTable => present k isSmall accessible noTable
    obtain ⟨ok, next, runs, holds⟩ := returns.returns
    refine ⟨fun isFault => ?_, fun all => ?_, fun notAll => ?_⟩
    · rw [runs] at isFault
      cases isFault
    · rcases holds with ⟨rfl, -, written⟩ | ⟨-, count, isSmall, -, noAccess, -⟩
      · exact ⟨next, runs, written⟩
      · exact absurd noAccess (all count isSmall)
    · rcases holds with ⟨-, all, -⟩ | ⟨rfl, count, isSmall, accessible, noAccess, -, written⟩
      · exact absurd all notAll
      · exact ⟨next, count, runs, isSmall, accessible, noAccess, written⟩

/-- A directory in page 1 with a page table in page 2 that maps page 3 at address 0. -/
def onePage : Memory where
  word := fun page index =>
    if page = 1 ∧ index = 0 then 4096 * 2 + 7 else if page = 2 ∧ index = 0 then 4096 * 3 + 7 else 0
  freelist := []
  failures := []
  refusals := 0
  bottom := 1
  data := 0x200

theorem onePage_views (va : Nat) :
    onePage.table 1 va = (if va = 0 then some 2 else none) ∧
      access onePage 1 va = if va = 0 then some 3 else none := by
  have isTable : ∀ index, onePage.table 1 index = if index = 0 then some 2 else none := by
    intro index
    simp only [table, onePage, mapping, Present]
    by_cases isZero : index = 0
    · simp [isZero]
    · simp [isZero]
  refine ⟨isTable va, ?_⟩
  rw [access, Memory.entry, isTable]
  by_cases isZero : va / 1024 = 0
  · simp only [onePage, mapping, Present, User]
    by_cases isVa : va = 0
    · simp [isVa]
    · grind
  · rw [if_neg isZero, if_neg (by omega)]
    rfl

theorem separate_onePage : Separate onePage 1 := by
  have isZero : ∀ va page, access onePage 1 va = some page → va = 0 ∧ page = 3 := by
    intro va page isAccess
    rw [(onePage_views va).2] at isAccess
    split at isAccess
    · exact ⟨‹_›, (Option.some_inj.mp isAccess).symm⟩
    · cases isAccess
  refine ⟨fun va other page isVa isOther => ?_, fun va page isAccess => ?_⟩
  · rw [(isZero va page isVa).1, (isZero other page isOther).1]
  · rw [(isZero va page isAccess).2, tables, Finset.sum_eq_zero]
    · rfl
    · intro index _
      rw [(onePage_views index).1]
      split <;> rfl

/-- Two bytes at address 4 of a mapped page. -/
theorem copyoutExact_iff_two_bytes : CopyoutExact onePage 1 4 [104, 105] := by
  refine (copyoutExact_iff separate_onePage (by decide) (by decide) (by decide)).mpr ?_
  intro k isSmall _
  rw [List.length_cons, List.length_singleton] at isSmall
  rw [(onePage_views _).1, if_pos (by unfold address; omega)]
  exact Option.some_ne_none _

/-- A byte at an address without a page table. -/
theorem copyout_faults : Separate onePage 1 ∧
    copyout 1 0x400000 [104] onePage = .error .fault ∧
      ¬ CopyoutExact onePage 1 0x400000 [104] := by
  have isFault : copyout 1 0x400000 [104] onePage = .error .fault := rfl
  exact ⟨separate_onePage, isFault, fun isExact => isExact.noFault isFault⟩

end Vm

end Xv6
