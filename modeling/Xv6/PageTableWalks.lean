import Xv6.AddressSpaces

/-!
# Pages taken and pages mapped

What the calls of `kalloc`, `kfree` and `walkpgdir` do to the free list and to an
address space, and what it means to map one page.
-/

namespace Xv6

namespace Vm

open Memory

variable {β : Type} {allowed : Stop → Prop} {memory next last : Memory}
  {pgdir pgtab page index va value pa perm count : Nat}
  {owned after final rest : Nat → Nat} {goal : β → Memory → Prop}

/-! ## Sound memory -/

/-- No page is free or owned more than once, and all such pages are the allocator's.
The kernel's data lies between its text and the end of physical memory. -/
structure Sound (memory : Memory) (owned : Nat → Nat) : Prop where
  once : ∀ page, memory.freelist.count page + owned page ≤ 1
  managed : ∀ page, 0 < memory.freelist.count page + owned page →
    memory.bottom ≤ page ∧ page < 0xE000
  bottom : 0 < memory.bottom
  data : 0x100 < memory.data ∧ memory.data < 0xE000

/-- Pages move between the free list and an owner, and no others are touched. -/
structure Moves (memory next : Memory) (owned after : Nat → Nat) : Prop where
  conserved : ∀ page,
    next.freelist.count page + after page = memory.freelist.count page + owned page
  framed : ∀ page, memory.freelist.count page + owned page = 0 →
    next.word page = memory.word page
  bottom : next.bottom = memory.bottom
  data : next.data = memory.data
  failures : memory.failures = [] → next.failures = []

theorem Moves.refl (memory : Memory) (owned : Nat → Nat) : Moves memory memory owned owned :=
  ⟨fun _ => rfl, fun _ _ => rfl, rfl, rfl, id⟩

/-- The memory after a call of `kalloc` that failed: it was made to fail, or there was
no page. -/
structure Refuses (memory next : Memory) : Prop where
  isNext : ∃ failures, next = memory.refuse failures
  failures : memory.failures = [] → next.failures = [] ∧ next.freelist = []

theorem Refuses.moves (refuses : Refuses memory next) (owned : Nat → Nat) :
    Moves memory next owned owned := by
  have noFailures := fun isNil => (refuses.failures isNil).1
  obtain ⟨failures, rfl⟩ := refuses.isNext
  exact ⟨fun _ => rfl, fun _ _ => rfl, rfl, rfl, noFailures⟩

theorem Refuses.refusals (refuses : Refuses memory next) :
    next.refusals = memory.refusals + 1 := by
  obtain ⟨failures, rfl⟩ := refuses.isNext
  rfl

theorem Refuses.views (refuses : Refuses memory next) :
    next.word = memory.word ∧ next.table = memory.table ∧ next.entry = memory.entry := by
  obtain ⟨failures, rfl⟩ := refuses.isNext
  exact ⟨rfl, rfl, rfl⟩

theorem Moves.trans (first : Moves memory next owned after) (second : Moves next last after final) :
    Moves memory last owned final := by
  refine ⟨fun page => (second.conserved page).trans (first.conserved page), fun page unowned => ?_,
    second.bottom.trans first.bottom, second.data.trans first.data,
    fun isNil => second.failures (first.failures isNil)⟩
  have stillUnowned : next.freelist.count page + after page = 0 :=
    (first.conserved page).trans unowned
  exact (second.framed page stillUnowned).trans (first.framed page unowned)

theorem Moves.add (moves : Moves memory next owned after) (rest : Nat → Nat) :
    Moves memory next (owned + rest) (after + rest) := by
  refine ⟨fun page => ?_, fun page unowned => ?_, moves.bottom, moves.data, moves.failures⟩
  · have := moves.conserved page
    simp only [Pi.add_apply]
    omega
  · simp only [Pi.add_apply] at unowned
    exact moves.framed page (by omega)

theorem Sound.moves (sound : Sound memory owned) (moves : Moves memory next owned after) :
    Sound next after := by
  refine ⟨fun page => moves.conserved page ▸ sound.once page, fun page used => ?_,
    moves.bottom ▸ sound.bottom, moves.data ▸ sound.data⟩
  rw [moves.bottom]
  exact sound.managed page (moves.conserved page ▸ used)

theorem Sound.moves_add (sound : Sound memory (owned + rest))
    (moves : Moves memory next owned after) : Sound next (after + rest) :=
  sound.moves (moves.add rest)

theorem Sound.refuses (sound : Sound memory (memory.uses pgdir + rest))
    (refuses : Refuses memory next) : Sound next (next.uses pgdir + rest) := by
  have views := refuses.views
  rw [uses_congr (congrFun views.2.1 pgdir) (congrFun views.2.2 pgdir)]
  exact sound.moves (refuses.moves _)

theorem Sound.unowned (sound : Sound memory owned) (isFree : page ∈ memory.freelist) :
    owned page = 0 := by
  have := sound.once page
  have := List.count_pos_iff.mpr isFree
  omega

theorem Sound.not_free (sound : Sound memory owned) (isOwned : 0 < owned page) :
    page ∉ memory.freelist := by
  intro isFree
  have := sound.unowned isFree
  omega

theorem Sound.uses_le_one (sound : Sound memory (memory.uses pgdir + rest)) (page : Nat) :
    memory.uses pgdir page ≤ 1 := by
  have := sound.once page
  simp only [Pi.add_apply] at this
  omega

/-- A user page is neither free nor part of the tables. -/
theorem Sound.apart (sound : Sound memory (memory.uses pgdir + rest)) (isUser : va < 0x80000)
    (isFrame : memory.frame pgdir va = some page) :
    memory.freelist.count page + memory.tables pgdir page = 0 := by
  have counted := memory.uses_ge pgdir page isUser
  have bound := sound.once page
  rw [isFrame, weight_some, one_self] at counted
  simp only [Pi.add_apply] at bound
  omega

/-- Few pages are taken from the free list for a directory and one more page. -/
theorem Sound.free_le (pgdir held : Nat) (sound : Sound memory (owned + rest))
    (moves : Moves memory next owned after)
    (isOwner : ∀ page, 1 ≤ after page → page = held ∨ 1 ≤ next.uses pgdir page)
    (absent : ∀ va, count ≤ va → va < 0x80000 → next.entry pgdir va = none) :
    memory.freelist.length ≤ next.freelist.length + 1026 + count := by
  have nodup : memory.freelist.Nodup := by
    refine List.nodup_iff_count_le_one.mpr fun page => ?_
    have := sound.once page
    omega
  have areUsed : ∀ page ∈ memory.freelist,
      page ∈ held :: next.freelist ∨ 1 ≤ next.uses pgdir page := by
    intro page isFree
    by_cases stays : page ∈ next.freelist
    · exact .inl (List.mem_cons_of_mem _ stays)
    · have conserved := moves.conserved page
      have isMember := List.count_pos_iff.mpr isFree
      rw [List.count_eq_zero_of_not_mem stays] at conserved
      rcases isOwner page (by omega) with rfl | isUsed
      · exact .inl List.mem_cons_self
      · exact .inr isUsed
  have bound := length_le_of_uses nodup areUsed absent
  omega

theorem Sound.free_le_of_nil (pgdir held : Nat) (sound : Sound memory (owned + rest))
    (moves : Moves memory next owned after) (noMore : next.freelist = [])
    (isOwner : ∀ page, 1 ≤ after page → page = held ∨ 1 ≤ next.uses pgdir page)
    (absent : ∀ va, count ≤ va → va < 0x80000 → next.entry pgdir va = none) :
    memory.freelist.length ≤ 1026 + count := by
  have bound := sound.free_le pgdir held moves isOwner absent
  rwa [noMore, List.length_nil, Nat.zero_add] at bound

theorem Moves.untouched (moves : Moves memory next owned after)
    (sound : Sound memory (owned + (memory.uses pgdir + rest)))
    (isUsed : 1 ≤ memory.uses pgdir page) : next.word page = memory.word page := by
  have bound := sound.once page
  simp only [Pi.add_apply] at bound
  exact moves.framed page (by omega)

theorem Moves.views (moves : Moves memory next owned after)
    (sound : Sound memory (owned + (memory.uses pgdir + rest))) :
    next.table pgdir = memory.table pgdir ∧ next.entry pgdir = memory.entry pgdir := by
  have isPart : 1 ≤ memory.uses pgdir pgdir :=
    (memory.one_le_tables_pgdir pgdir).trans (Nat.le_add_right _ _)
  have sameDirectory := moves.untouched sound isPart
  refine ⟨table_congr sameDirectory, entry_congr sameDirectory fun index pgtab isTable => ?_⟩
  exact moves.untouched sound ((one_le_tables isTable).trans (Nat.le_add_right _ _))

/-! ## The allocator -/

theorem ensures_kalloc_bind {code : Option Nat → Code β}
    (fails : ∀ next, Refuses memory next → EnsuresOr allowed (code none) next goal)
    (takes : ∀ page freelist failures, memory.freelist = page :: freelist →
      (memory.failures = [] → failures = []) →
      EnsuresOr allowed (code (some page)) (memory.take failures freelist) goal) :
    EnsuresOr allowed (kalloc >>= code) memory goal := by
  have noFailures : memory.failures = [] → memory.failures.tail = [] := by
    intro isNil
    rw [isNil, List.tail_nil]
  refine ensures_bind (ensures_modifyGet ?_)
  unfold Memory.kalloc
  split
  · rename_i isForced
    refine fails _ ⟨⟨_, rfl⟩, fun isNil => ?_⟩
    rw [isNil] at isForced
    cases isForced
  · split
    · rename_i isEmpty
      exact fails _ ⟨⟨_, rfl⟩, fun isNil => ⟨noFailures isNil, isEmpty⟩⟩
    · exact takes _ _ _ ‹_› noFailures

theorem ensures_kfree {post : Unit → Memory → Prop} (sound : Sound memory owned)
    (isOwned : 0 < owned page) (holds : post () (memory.release page)) :
    EnsuresOr allowed (kfree page) memory post := by
  have managed := sound.managed page (by omega)
  refine ensures_get_bind (ensures_ite (fun outside => ?_) fun _ => ?_)
  · omega
  · exact ensures_ite (fun isFree => absurd isFree (sound.not_free isOwned))
      fun _ => ensures_modify holds

theorem ensures_kfree_bind {code : Unit → Code β} (sound : Sound memory owned)
    (isOwned : 0 < owned page)
    (continues : EnsuresOr allowed (code ()) (memory.release page) goal) :
    EnsuresOr allowed (kfree page >>= code) memory goal :=
  ensures_bind (ensures_kfree sound isOwned continues)

theorem moves_release (memory : Memory) (page : Nat) :
    Moves memory (memory.release page) (one page) 0 := by
  refine ⟨fun other => ?_, fun other unowned => ?_, rfl, rfl, id⟩
  · simp only [release, List.count_cons, one, Pi.zero_apply, beq_iff_eq]
    omega
  · refine word_setPage_of_ne _ ?_
    rintro rfl
    rw [one_self] at unowned
    omega

/-- A page that is held besides what a directory owns is freed. -/
theorem Sound.release_held (sound : Sound memory (memory.uses pgdir + one page + rest)) :
    (memory.release page).table pgdir = memory.table pgdir ∧
      (memory.release page).entry pgdir = memory.entry pgdir ∧
      Moves memory (memory.release page) (memory.uses pgdir + one page)
        ((memory.release page).uses pgdir) := by
  have unused := sound.once page
  simp only [Pi.add_apply, one_self, uses] at unused
  have views : (memory.release page).table pgdir = memory.table pgdir ∧
      (memory.release page).entry pgdir = memory.entry pgdir := views_setPage (by omega) _
  have moves := (moves_release memory page).add (memory.uses pgdir)
  rw [zero_add, add_comm (one page)] at moves
  refine ⟨views.1, views.2, ?_⟩
  rw [uses_congr views.1 views.2]
  exact moves

variable {freelist : List Nat} {failures : List Bool} {words : Nat → Nat}

theorem moves_take (isFree : memory.freelist = page :: freelist)
    (noFailures : memory.failures = [] → failures = []) :
    Moves memory (memory.take failures freelist) 0 (one page) := by
  refine ⟨fun other => ?_, fun _ _ => rfl, rfl, rfl, noFailures⟩
  simp only [take, isFree, List.count_cons, one, Pi.zero_apply, beq_iff_eq]
  omega

theorem moves_setPage (memory : Memory) (words : Nat → Nat) (isOwned : 0 < owned page) :
    Moves memory (memory.setPage page words) owned owned := by
  refine ⟨fun _ => rfl, fun other unowned => word_setPage_of_ne _ ?_, rfl, rfl, id⟩
  rintro rfl
  omega

/-- A page is taken from the free list and filled. -/
structure Takes (memory next : Memory) (page : Nat) (words : Nat → Nat) : Prop where
  isFree : page ∈ memory.freelist
  moves : Moves memory next 0 (one page)
  word : next.word page = words
  others : ∀ other, other ≠ page → next.word other = memory.word other
  taken : ∀ other ∈ next.freelist, other ∈ memory.freelist
  refusals : next.refusals = memory.refusals

theorem takes (isFree : memory.freelist = page :: freelist)
    (noFailures : memory.failures = [] → failures = []) (words : Nat → Nat) :
    Takes memory ((memory.take failures freelist).setPage page words) page words := by
  refine ⟨isFree ▸ List.mem_cons_self, ?_, word_setPage_self words,
    fun other differs => word_setPage_of_ne words differs,
    fun other member => isFree ▸ List.mem_cons_of_mem _ member, rfl⟩
  refine (moves_take isFree noFailures).trans (moves_setPage _ _ ?_)
  rw [one_self]
  exact Nat.one_pos

theorem Takes.views (takes : Takes memory next page words)
    (sound : Sound memory (memory.uses pgdir + rest)) :
    next.table pgdir = memory.table pgdir ∧ next.entry pgdir = memory.entry pgdir := by
  have unused := sound.unowned takes.isFree
  simp only [Pi.add_apply, uses] at unused
  obtain ⟨notDirectory, notTable⟩ := ne_of_tables_eq_zero (by omega : memory.tables pgdir page = 0)
  have sameDirectory := takes.others pgdir notDirectory.symm
  refine ⟨table_congr sameDirectory, entry_congr sameDirectory fun index pgtab isTable => ?_⟩
  refine takes.others pgtab ?_
  rintro rfl
  exact notTable index isTable

theorem Takes.moves_uses (takes : Takes memory next page words)
    (sound : Sound memory (memory.uses pgdir + rest)) :
    Moves memory next (memory.uses pgdir) (next.uses pgdir + one page) := by
  have views := takes.views sound
  have moves := takes.moves.add (memory.uses pgdir)
  rw [zero_add, add_comm (one page)] at moves
  rw [uses_congr views.1 views.2]
  exact moves

/-! ## Page tables -/

theorem ensures_walkpgdir_bind {code : Option (Nat × Nat) → Code β} (small : va < 0x100000)
    (absent : memory.table pgdir (va / 1024) = none → EnsuresOr allowed (code none) memory goal)
    (found : ∀ pgtab, memory.table pgdir (va / 1024) = some pgtab →
      EnsuresOr allowed (code (some (pgtab, va % 1024))) memory goal) :
    EnsuresOr allowed (walkpgdir pgdir va false >>= code) memory goal := by
  have isSmall : va / 1024 < 1024 := by omega
  refine ensures_bind (ensures_get_bind (ensures_ite (fun present => ensures_pure ?_)
    fun missing => ensures_ite (fun isTrue => absurd isTrue Bool.false_ne_true)
      fun _ => ensures_pure ?_))
  · exact found _ (by rw [table, if_pos isSmall, mapping, if_pos present, Option.map_some])
  · exact absent (by rw [table, if_pos isSmall, mapping, if_neg missing, Option.map_none])

/-- The page table for `va` is added to a directory if there is none, and the entries
become the given ones. -/
structure Extends (memory next : Memory) (pgdir va : Nat) (entries : Nat → Option Nat) :
    Prop where
  moves : Moves memory next (memory.tables pgdir) (next.tables pgdir)
  entry : next.entry pgdir = entries
  table : ∀ index pgtab, memory.table pgdir index = some pgtab →
    next.table pgdir index = some pgtab
  others : ∀ index, index ≠ va / 1024 → next.table pgdir index = memory.table pgdir index
  taken : ∀ page ∈ next.freelist, page ∈ memory.freelist
  refusals : next.refusals = memory.refusals

theorem Extends.moves_uses {entries : Nat → Option Nat}
    (extends_ : Extends memory next pgdir va entries) (more : Nat → Nat)
    (mapped : ∀ page, next.users pgdir page = memory.users pgdir page + more page) :
    Moves memory next (memory.uses pgdir + more) (next.uses pgdir) := by
  refine ⟨fun page => ?_, fun page unowned => ?_, extends_.moves.bottom, extends_.moves.data,
    extends_.moves.failures⟩
  · have := extends_.moves.conserved page
    have := mapped page
    simp only [Pi.add_apply, uses]
    omega
  · simp only [Pi.add_apply, uses] at unowned
    exact extends_.moves.framed page (by omega)

theorem Extends.moves_tables {entries : Nat → Option Nat}
    (extends_ : Extends memory next pgdir va entries)
    (same : next.users pgdir = memory.users pgdir) :
    Moves memory next (memory.uses pgdir) (next.uses pgdir) := by
  have moves := extends_.moves_uses 0 fun page => by rw [same, Pi.zero_apply, Nat.add_zero]
  rwa [add_zero] at moves

theorem extends_attach (sound : Sound memory (memory.uses pgdir + rest))
    (isFree : memory.freelist = page :: freelist) (small : va / 1024 < 1024)
    (noTable : memory.table pgdir (va / 1024) = none)
    (noFailures : memory.failures = [] → failures = [])
    (isNext : next = ((memory.take failures freelist).setPage page fun _ => 0).setWord pgdir
      (va / 1024) (4096 * page ||| 7)) :
    Extends memory next pgdir va (memory.entry pgdir) ∧
      next.table pgdir (va / 1024) = some page := by
  have unused := sound.unowned (isFree ▸ List.mem_cons_self : page ∈ memory.freelist)
  simp only [Pi.add_apply, uses] at unused
  have isTable : next.table pgdir =
      Function.update (memory.table pgdir) (va / 1024) (some page) :=
    isNext ▸ (views_attach sound.uses_le_one small noTable (by omega)).1
  have isFreelist : next.freelist = freelist := isNext ▸ rfl
  refine ⟨⟨⟨fun other => ?_, fun other unowned => ?_, isNext ▸ rfl, isNext ▸ rfl,
      isNext ▸ noFailures⟩,
    isNext ▸ (views_attach sound.uses_le_one small noTable (by omega)).2,
    fun other pgtab isOther => ?_, fun other differs => ?_, fun other member => ?_,
    isNext ▸ rfl⟩, ?_⟩
  · rw [tables_update small noTable isTable, isFreelist, isFree, List.count_cons, one]
    simp only [beq_iff_eq]
    omega
  · have isPage : other ≠ page := by
      rintro rfl
      rw [isFree, List.count_cons_self] at unowned
      omega
    have noPart : memory.tables pgdir other = 0 := by omega
    have isDirectory := (ne_of_tables_eq_zero noPart).1
    rw [isNext, word_setWord_of_ne isDirectory, word_setPage_of_ne _ isPage]
    rfl
  · have differs : other ≠ va / 1024 := by
      rintro rfl
      rw [noTable] at isOther
      cases isOther
    rw [isTable, Function.update_of_ne differs, isOther]
  · rw [isTable, Function.update_of_ne differs]
  · grind
  · rw [isTable, Function.update_self]

theorem ensures_walkpgdir_alloc_bind {code : Option (Nat × Nat) → Code β}
    (sound : Sound memory (memory.uses pgdir + rest)) (small : va < 0x100000)
    (fails : ∀ next, Refuses memory next → EnsuresOr allowed (code none) next goal)
    (found : ∀ pgtab next, Extends memory next pgdir va (memory.entry pgdir) →
      next.table pgdir (va / 1024) = some pgtab →
      EnsuresOr allowed (code (some (pgtab, va % 1024))) next goal) :
    EnsuresOr allowed (walkpgdir pgdir va true >>= code) memory goal := by
  have isSmall : va / 1024 < 1024 := by omega
  refine ensures_bind (ensures_get_bind (ensures_ite (fun present => ensures_pure ?_)
    fun missing => ensures_ite (fun _ => ensures_kalloc_bind
      (fun next refuses => ensures_pure (fails next refuses))
      fun page freelist failures isFree noFailures => ?_) fun isFalse => absurd rfl isFalse))
  · refine found _ memory ⟨.refl memory _, rfl, fun _ _ => id, fun _ _ => rfl, fun _ => id, rfl⟩ ?_
    rw [table, if_pos isSmall, mapping, if_pos present, Option.map_some]
  · have noTable : memory.table pgdir (va / 1024) = none := by
      rw [table, if_pos isSmall, mapping, if_neg missing, Option.map_none]
    obtain ⟨isExtended, isTable⟩ := extends_attach sound isFree isSmall noTable noFailures rfl
    exact ensures_modify_bind (ensures_pure (found page _ isExtended isTable))

/-! ## Mapped pages -/

theorem or_one_of_present {flags : Nat} (present : Present flags) : flags ||| 1 = flags := by
  have isSum : flags = 2 * (flags / 2) ||| 1 := by
    have halves : 2 * (flags / 2) + 1 = 2 * (flags / 2) ||| 1 :=
      Nat.two_pow_add_eq_or_of_lt (i := 1) (by decide) (flags / 2)
    omega
  rw [isSum, Nat.or_assoc, Nat.or_self]

theorem mappedWord (pa : Nat) (small : perm < 4096) :
    4096 * pa ||| perm ||| 1 = 4096 * pa + (perm ||| 1) ∧ perm ||| 1 < 4096 ∧
      (perm ||| 1) % 2 = 1 := by
  have isSmall : perm ||| 1 < 4096 := Nat.or_lt_two_pow (n := 12) small (by decide)
  refine ⟨?_, isSmall, Nat.or_mod_two_eq_one.mpr (.inr rfl)⟩
  rw [Nat.or_assoc]
  exact (Nat.two_pow_add_eq_or_of_lt (i := 12) isSmall pa).symm

/-- A page is mapped at an address where none was. -/
theorem ensures_mappages_succ {post : Bool → Memory → Prop}
    (sound : Sound memory (memory.uses pgdir + rest)) (small : va < 0x100000)
    (free : memory.entry pgdir va = none) (flags : perm < 4096)
    (fails : ∀ next, Refuses memory next → post false next)
    (maps : ∀ next, Extends memory next pgdir va (Function.update (memory.entry pgdir) va
        (some (4096 * pa + (perm ||| 1)))) →
      EnsuresOr allowed (mappages pgdir perm count (va + 1) (pa + 1)) next post) :
    EnsuresOr allowed (mappages pgdir perm (count + 1) va pa) memory post := by
  refine ensures_walkpgdir_alloc_bind sound small
    (fun next refuses => ensures_pure (fails next refuses)) fun pgtab next isExtended isTable => ?_
  have soundNext := sound.moves_add (isExtended.moves_tables (users_congr isExtended.entry))
  have absent : ¬ Present (next.word pgtab (va % 1024)) := by
    intro present
    have isEntry := entry_of_table isTable
    rw [isExtended.entry, free, mapping, if_pos present] at isEntry
    cases isEntry
  have views := views_setWord soundNext.uses_le_one isTable (4096 * pa ||| perm ||| 1)
  refine ensures_get_bind (ensures_ite (fun present => absurd present absent)
    fun _ => ensures_modify_bind (maps _ ⟨?_, ?_, fun index found isFound => ?_,
      fun index differs => ?_, isExtended.taken, isExtended.refusals⟩))
  · have isPart := one_le_tables isTable
    have written : Moves next (next.setWord pgtab (va % 1024) (4096 * pa ||| perm ||| 1))
        (next.tables pgdir) (next.tables pgdir) := moves_setPage next _ isPart
    rw [tables_congr views.1]
    exact isExtended.moves.trans written
  · obtain ⟨isWord, -, odd⟩ := mappedWord pa flags
    rw [views.2, isExtended.entry, isWord, mapping, if_pos (by unfold Present; omega)]
  · rw [views.1]
    exact isExtended.table index found isFound
  · rw [views.1]
    exact isExtended.others index differs

/-- A user page that was free is added to an address space. -/
structure AddsPage (memory next : Memory) (pgdir va page flags : Nat) (words : Nat → Nat) :
    Prop where
  moves : Moves memory next (memory.uses pgdir) (next.uses pgdir)
  isFree : page ∈ memory.freelist
  entry : next.entry pgdir =
    Function.update (memory.entry pgdir) va (some (4096 * page + flags))
  word : next.word page = words
  table : ∀ index pgtab, memory.table pgdir index = some pgtab →
    next.table pgdir index = some pgtab
  others : ∀ index, index ≠ va / 1024 → next.table pgdir index = memory.table pgdir index
  kept : ∀ va page, va < 0x80000 → memory.frame pgdir va = some page →
    next.word page = memory.word page
  taken : ∀ page ∈ next.freelist, page ∈ memory.freelist
  refusals : next.refusals = memory.refusals

theorem Takes.addsPage {flags : Nat} (takes : Takes memory next page words)
    (sound : Sound memory (memory.uses pgdir + rest)) (isUser : va < 0x80000)
    (free : memory.entry pgdir va = none) (small : flags < 4096)
    (isExtended : Extends next last pgdir va
      (Function.update (next.entry pgdir) va (some (4096 * page + flags)))) :
    AddsPage memory last pgdir va page flags words := by
  have views := takes.views sound
  have moves := takes.moves_uses sound
  have soundNext := sound.moves_add moves
  have noFrame : next.frame pgdir va = none := by
    rw [frame, views.2, free, Option.map_none]
  have mapped : ∀ other, last.users pgdir other = next.users pgdir other + one page other := by
    intro other
    have counted := users_update isUser isExtended.entry other
    rw [noFrame, weight_none, Option.map_some, weight_some,
      show (4096 * page + flags) / 4096 = page by omega] at counted
    omega
  refine ⟨moves.trans (isExtended.moves_uses (one page) mapped), takes.isFree, ?_, ?_,
    fun index pgtab isTable => isExtended.table index pgtab (views.1 ▸ isTable),
    fun index differs => (isExtended.others index differs).trans (congrFun views.1 index),
    fun other found isOther isFrame => ?_,
    fun other isFree => takes.taken other (isExtended.taken other isFree),
    isExtended.refusals.trans takes.refusals⟩
  · rw [isExtended.entry, views.2]
  · have held := soundNext.once page
    simp only [Pi.add_apply, one_self, uses] at held
    rw [isExtended.moves.framed page (by omega), takes.word]
  · have apart := sound.apart isOther isFrame
    have differs : found ≠ page := by
      rintro rfl
      have := List.count_pos_iff.mpr takes.isFree
      omega
    have isFrameNext : next.frame pgdir other = some found := by
      rw [frame, views.2, ← frame, isFrame]
    rw [← takes.others found differs]
    rw [add_assoc] at soundNext
    exact isExtended.moves.framed found (soundNext.apart isOther isFrameNext)

end Vm

end Xv6
