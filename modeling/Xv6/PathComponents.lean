import Mathlib.Data.List.DropRight
import Xv6.CStrings
import Xv6.LinkCounts

/-!
# The components of a path

`skipelem` copies the next element of a path into an array of `DIRSIZ` bytes, without a
NUL when the element fills it, and `namex` looks up one element after the other.  The
elements are the non-empty parts of the path between slashes, cut to `DIRSIZ` bytes, so
a path is looked up by its components and by whether it begins with a slash.
-/

namespace Xv6

namespace Dirs

open CString Fallible LabelledRun

/-! ## Names in arrays -/

/-- `skipelem`, with the array `name` that it fills. -/
def skipelemArray (path name : List UInt8) : Option (List UInt8 × List UInt8) :=
  let path := path.dropWhile (· = slash)
  if path = [] then none
  else
    let element := path.takeWhile (· ≠ slash)
    let path := (path.dropWhile (· ≠ slash)).dropWhile (· = slash)
    if dirsiz ≤ element.length then some (element.take dirsiz, path)
    else some (element ++ 0 :: name.drop (element.length + 1), path)

def namecmp (s t : List UInt8) : Int :=
  strncmp s t dirsiz

def Dirent.array (de : Dirent) : List UInt8 :=
  strncpyBytes de.name dirsiz

/-- The loop of `dirlookup`. -/
def scanArray (name : List UInt8) : Nat → List Dirent → Option (Nat × Nat)
  | _, [] => none
  | off, de :: rest =>
    if de.inum = 0 then scanArray name (off + 1) rest
    else if namecmp name de.array = 0 then some (de.inum, off)
    else scanArray name (off + 1) rest

def dirlookupArray (ninodes dp : Nat) (name : List UInt8) (state : State) :
    Result (Option (Nat × Nat) × State) :=
  if (state.inode dp).type ≠ .dir then .error .dirlookupNotDir
  else
    match scanArray name 0 (state.inode dp).entries with
    | none => .ok (none, state)
    | some (inum, off) => do
      let state ← iget ninodes inum state
      .ok (some (inum, off), state)

/-- The loop of `namex`, with the array `name`. -/
def namexArrayLoop (ninodes : Nat) (nameiparent : Bool) :
    Nat → Nat → List UInt8 → List UInt8 → State → Result (Option Nat × List UInt8 × State)
  | 0, ip, _, name, state =>
    .ok (if nameiparent then (none, name, iput ip state) else (some ip, name, state))
  | fuel + 1, ip, path, name, state =>
    match skipelemArray path name with
    | none => .ok (if nameiparent then (none, name, iput ip state) else (some ip, name, state))
    | some (name, path) => do
      let state ← ilock ip state
      if (state.inode ip).type ≠ .dir then .ok (none, name, iput ip state)
      else if nameiparent = true ∧ path = [] then .ok (some ip, name, state)
      else do
        let (next, state) ← dirlookupArray ninodes ip name state
        match next with
        | none => .ok (none, name, iput ip state)
        | some (next, _) =>
          namexArrayLoop ninodes nameiparent fuel next path name (iput ip state)

def namexArray (ninodes : Nat) (nameiparent : Bool) (cwd : Nat) (path name : List UInt8)
    (state : State) : Result (Option Nat × List UInt8 × State) :=
  if path.head? = some slash then do
    let state ← iget ninodes rootino state
    namexArrayLoop ninodes nameiparent (path.length + 1) rootino path name state
  else namexArrayLoop ninodes nameiparent (path.length + 1) cwd path name (idup cwd state)

/-- `namei`, where `name` is what its array holds at first. -/
def namei (ninodes cwd : Nat) (path name : List UInt8) (state : State) :
    Result (Option Nat × List UInt8 × State) :=
  namexArray ninodes false cwd path name state

def nameiparent (ninodes cwd : Nat) (path name : List UInt8) (state : State) :
    Result (Option Nat × List UInt8 × State) :=
  namexArray ninodes true cwd path name state

section Arrays

variable {path name rest : List UInt8} {inode : Nat → Inode}

def Fits (name : Name) : Prop :=
  name.length ≤ dirsiz ∧ 0 ∉ name

def Named (inode : Nat → Inode) : Prop :=
  ∀ d, ∀ de ∈ (inode d).entries, Fits de.name

theorem namecmp_eq_zero_iff (isArray : name.length = dirsiz) {de : Dirent} (fits : Fits de.name) :
    namecmp name de.array = 0 ↔ ofBytes name = de.name := by
  have short : (ofBytes name).length ≤ dirsiz := (length_ofBytes_le name).trans_eq isArray
  rw [namecmp, Dirent.array, strncmp_eq_zero_iff, ofBytes_strncpyBytes, ofBytes_eq_self fits.2,
    List.take_take, Nat.min_self, List.take_of_length_le short, List.take_of_length_le fits.1]

theorem scanArray_eq (isArray : name.length = dirsiz) {entries : List Dirent}
    (fits : ∀ de ∈ entries, Fits de.name) (off : Nat) :
    scanArray name off entries = scan (ofBytes name) off entries := by
  induction entries generalizing off with
  | nil => rfl
  | cons de entries continues =>
    have later := continues (fun other member => fits other (List.mem_cons_of_mem _ member))
    have compares := namecmp_eq_zero_iff isArray (fits de List.mem_cons_self)
    rw [scanArray, scan, later]
    exact if_congr Iff.rfl rfl (if_congr compares rfl rfl)

/-- The array holds the element that `skipelem` cuts off. -/
theorem skipelem_eq (string : 0 ∉ path) (name : List UInt8) :
    skipelem path = (skipelemArray path name).map fun found => (ofBytes found.1, found.2) := by
  unfold skipelem skipelemArray
  dsimp only
  split
  · rfl
  · generalize isElement : (path.dropWhile (· = slash)).takeWhile (· ≠ slash) = element
    have free : 0 ∉ element := fun member => by
      rw [← isElement] at member
      exact string ((List.dropWhile_sublist _).subset ((List.takeWhile_sublist _).subset member))
    split
    · grind [ofBytes_eq_self]
    · have nonzero : ∀ byte ∈ element, decide (byte ≠ 0) = true := fun byte member =>
        decide_eq_true fun isNul => free (isNul ▸ member)
      have isString : ofBytes (element ++ 0 :: name.drop (element.length + 1)) = element := by
        rw [ofBytes, List.takeWhile_append_of_pos nonzero]
        exact List.append_nil _
      rw [Option.map_some, isString, List.take_of_length_le (by omega)]

theorem length_skipelemArray (isArray : name.length = dirsiz) {after : List UInt8}
    (isElement : skipelemArray path name = some (after, rest)) : after.length = dirsiz := by
  grind [skipelemArray]

theorem exists_skipelem {after : List UInt8}
    (isElement : skipelemArray path name = some (after, rest)) :
    ∃ element, skipelem path = some (element, rest) := by
  grind [skipelemArray, skipelem]

theorem sublist_of_skipelem {element : Name} (isElement : skipelem path = some (element, rest)) :
    rest.Sublist path := by
  unfold skipelem at isElement
  dsimp only at isElement
  split at isElement
  · cases isElement
  · cases isElement
    exact (List.dropWhile_sublist _).trans ((List.dropWhile_sublist _).trans
      (List.dropWhile_sublist _))

theorem length_lt_of_skipelemArray {after : List UInt8}
    (isElement : skipelemArray path name = some (after, rest)) : rest.length < path.length := by
  obtain ⟨element, isNext⟩ := exists_skipelem isElement
  exact length_lt_of_skipelem isNext

theorem not_mem_of_skipelemArray {after : List UInt8} (string : 0 ∉ path)
    (isElement : skipelemArray path name = some (after, rest)) : 0 ∉ rest := by
  obtain ⟨element, isNext⟩ := exists_skipelem isElement
  exact fun member => string ((sublist_of_skipelem isNext).subset member)

/-- The result of `namex` with the array read as a string. -/
def view (nameiparent : Bool) (result : Option Nat × List UInt8 × State) :
    Option (Nat × Name) × State :=
  (result.1.map fun ip => (ip, if nameiparent then ofBytes result.2.1 else []), result.2.2)

theorem dirlookupArray_eq (isArray : name.length = dirsiz) {state : State}
    (named : Named state.inode) (ninodes dp : Nat) :
    dirlookupArray ninodes dp name state = dirlookup ninodes dp (ofBytes name) state := by
  rw [dirlookupArray, scanArray_eq isArray (named dp)]
  rfl

theorem inode_of_iget {ninodes inum : Nat} {state next : State}
    (isNext : iget ninodes inum state = .ok next) : next.inode = state.inode := by
  unfold iget at isNext
  split at isNext
  · cases isNext
    rfl
  split at isNext
  · cases isNext
  · cases isNext
    rfl

theorem inode_of_ilock {inum : Nat} {state next : State} (isNext : ilock inum state = .ok next) :
    next.inode = state.inode := by
  unfold ilock at isNext
  split at isNext
  · cases isNext
  split at isNext
  · cases isNext
    rfl
  split at isNext
  · cases isNext
  · cases isNext
    rfl

theorem inode_of_dirlookup {ninodes dp : Nat} {element : Name} {state : State}
    {result : Option (Nat × Nat) × State}
    (isResult : dirlookup ninodes dp element state = .ok result) :
    result.2.inode = state.inode := by
  unfold dirlookup at isResult
  split at isResult
  · cases isResult
  split at isResult
  · cases isResult
    rfl
  · rename_i inum _ _
    cases isNext : iget ninodes inum state with
    | error panic =>
      rw [isNext] at isResult
      cases isResult
    | ok next =>
      rw [isNext] at isResult
      cases isResult
      exact inode_of_iget isNext

theorem Named.iput {state : State} (named : Named state.inode) (inum : Nat) :
    Named (iput inum state).inode := by
  unfold Dirs.iput
  dsimp only
  split
  · intro d de member
    rw [setCached_inode, setInode_inode] at member
    by_cases same : d = inum
    · subst same
      rw [Function.update_self] at member
      exact absurd member List.not_mem_nil
    · rw [Function.update_of_ne same] at member
      exact named d de member
  · exact named

theorem namexArrayLoop_eq (isArray : name.length = dirsiz) (string : 0 ∉ path) {state : State}
    (named : Named state.inode) (ninodes : Nat) (nameiparent : Bool) (fuel ip : Nat) :
    (namexArrayLoop ninodes nameiparent fuel ip path name state).map (view nameiparent) =
      namexLoop ninodes nameiparent fuel ip path state := by
  have ends : ∀ (ip : Nat) (name : List UInt8) (state : State),
      view nameiparent (if nameiparent then (none, name, iput ip state)
        else (some ip, name, state)) = namexEnd nameiparent ip state := by
    intro ip name state
    cases nameiparent with
    | false => rfl
    | true => rfl
  induction fuel generalizing ip path name state with
  | zero => exact congrArg Except.ok (ends ip name state)
  | succ fuel continues =>
    rw [namexArrayLoop, namexLoop, skipelem_eq string name]
    cases isElement : skipelemArray path name with
    | none => exact congrArg Except.ok (ends ip name state)
    | some element =>
      obtain ⟨after, rest⟩ := element
      have isAfter := length_skipelemArray isArray isElement
      have stringRest := not_mem_of_skipelemArray string isElement
      cases isLocked : ilock ip state with
      | error panic => rfl
      | ok locked =>
        have isNamed : Named locked.inode := by rwa [inode_of_ilock isLocked]
        change Except.map (view nameiparent) (if (locked.inode ip).type ≠ .dir then _
          else if nameiparent = true ∧ rest = [] then _
          else dirlookupArray ninodes ip after locked >>= _) =
          if (locked.inode ip).type ≠ .dir then _
          else if nameiparent = true ∧ rest = [] then _
          else dirlookup ninodes ip (ofBytes after) locked >>= _
        rw [dirlookupArray_eq isAfter isNamed]
        by_cases notDir : (locked.inode ip).type ≠ .dir
        · rw [if_pos notDir, if_pos notDir]
          rfl
        rw [if_neg notDir, if_neg notDir]
        by_cases isLast : nameiparent = true ∧ rest = []
        · rw [if_pos isLast, if_pos isLast, isLast.1]
          rfl
        rw [if_neg isLast, if_neg isLast]
        cases isFound : dirlookup ninodes ip (ofBytes after) locked with
        | error panic => rfl
        | ok found =>
          obtain ⟨next, looked⟩ := found
          have isLooked : Named looked.inode := by
            rwa [inode_of_dirlookup isFound]
          cases next with
          | none => rfl
          | some pair =>
            exact continues isAfter stringRest (isLooked.iput ip) _

theorem namexArray_eq (isArray : name.length = dirsiz) (string : 0 ∉ path) {state : State}
    (named : Named state.inode) (ninodes : Nat) (nameiparent : Bool) (cwd : Nat) :
    (namexArray ninodes nameiparent cwd path name state).map (view nameiparent) =
      namex ninodes nameiparent cwd path state := by
  rw [namexArray, namex]
  split
  · cases isNext : iget ninodes rootino state with
    | error panic => rfl
    | ok next =>
      exact namexArrayLoop_eq isArray string (by rwa [inode_of_iget isNext]) _ _ _ _
  · exact @namexArrayLoop_eq path name isArray string (idup cwd state) named _ _ _ _

end Arrays

/-! ## Components -/

/-- The non-empty parts of a path between slashes, each cut to `DIRSIZ` bytes. -/
def components (path : List UInt8) : List Name :=
  ((path.splitOn slash).filter (· ≠ [])).map (List.take dirsiz)

section Components

variable {path rest : List UInt8} {name : Name}

theorem components_slash (path : List UInt8) : components (slash :: path) = components path := by
  have isSplit : ([] ++ slash :: path).splitOn slash = [] :: path.splitOn slash :=
    List.splitOn_append_cons_self_of_not_mem List.not_mem_nil path
  rw [List.nil_append] at isSplit
  rfl

theorem components_dropWhile (path : List UInt8) :
    components (path.dropWhile (· = slash)) = components path := by
  induction path with
  | nil => rfl
  | cons byte path continues =>
    grind [List.dropWhile_cons, components_slash]

theorem components_append {element : List UInt8} (nonempty : element ≠ []) (free : slash ∉ element)
    (tail : List UInt8) (ends : tail.head? = none ∨ tail.head? = some slash) :
    components (element ++ tail) = element.take dirsiz :: components tail := by
  have kept : ∀ parts : List (List UInt8),
      (element :: parts).filter (· ≠ []) = element :: parts.filter (· ≠ []) := fun parts =>
    List.filter_cons_of_pos (decide_eq_true nonempty)
  cases tail with
  | nil =>
    rw [List.append_nil, components, List.splitOn_eq_singleton free, kept]
    rfl
  | cons byte tail =>
    rcases ends with isNone | isSlash
    · cases isNone
    · cases isSlash
      rw [components_slash, components, List.splitOn_append_cons_self_of_not_mem free, kept]
      rfl

theorem components_of_skipelem_none (isNone : skipelem path = none) : components path = [] := by
  unfold skipelem at isNone
  dsimp only at isNone
  split at isNone
  · rename_i isEmpty
    rw [← components_dropWhile, isEmpty]
    rfl
  · cases isNone

/-- `skipelem` cuts off the first component, and what it leaves is not empty unless there
are no more components. -/
theorem components_of_skipelem (isElement : skipelem path = some (name, rest)) :
    components path = name :: components rest := by
  unfold skipelem at isElement
  dsimp only at isElement
  split at isElement
  · cases isElement
  · rename_i nonempty
    cases isElement
    generalize isPath : path.dropWhile (· = slash) = trimmed at nonempty
    have notSlash : trimmed.head? ≠ some slash := fun isSlash => by
      have head := List.head?_dropWhile_not (fun byte => decide (byte = slash)) path
      rw [isPath, isSlash] at head
      simp at head
    have isPart : trimmed.takeWhile (· ≠ slash) ≠ [] := by
      cases trimmed with
      | nil => exact absurd rfl nonempty
      | cons byte trimmed =>
        simp_all
    have free : slash ∉ trimmed.takeWhile (· ≠ slash) := fun member => by
      have notSlash := List.mem_takeWhile_imp member
      simp at notSlash
    have ends : (trimmed.dropWhile (· ≠ slash)).head? = none ∨
        (trimmed.dropWhile (· ≠ slash)).head? = some slash := by
      have head := List.head?_dropWhile_not (fun byte => decide (byte ≠ slash)) trimmed
      cases isHead : (trimmed.dropWhile (· ≠ slash)).head? with
      | none => exact .inl rfl
      | some byte =>
        grind
    calc components path = components trimmed := by rw [← isPath, components_dropWhile]
      _ = components (trimmed.takeWhile (· ≠ slash) ++ trimmed.dropWhile (· ≠ slash)) := by
          rw [List.takeWhile_append_dropWhile]
      _ = _ := by rw [components_append isPart free _ ends, components_dropWhile]

/-- What `skipelem` leaves is empty when there are no more components. -/
theorem components_eq_nil_iff (isElement : skipelem path = some (name, rest)) :
    components rest = [] ↔ rest = [] := by
  refine ⟨fun isNil => ?_, fun isNil => by rw [isNil]; rfl⟩
  cases isNext : skipelem rest with
  | some pair =>
    rw [components_of_skipelem isNext] at isNil
    cases isNil
  | none =>
    have trimmed : rest.dropWhile (· = slash) = rest := by
      grind [skipelem, List.dropWhile_idempotent]
    unfold skipelem at isNext
    rw [trimmed] at isNext
    dsimp only at isNext
    split at isNext
    · assumption
    · cases isNext

/-- The names that `skipelem` puts into the array, one after the other. -/
def elements (path name : List UInt8) : List Name :=
  match _isElement : skipelemArray path name with
  | none => []
  | some (after, rest) => ofBytes after :: elements rest after
termination_by path.length
decreasing_by
  exact length_lt_of_skipelemArray _isElement

theorem elements_eq (string : 0 ∉ path) (array : List UInt8) :
    elements path array = components path := by
  induction path, array using elements.induct with
  | case1 path array isNone =>
    grind [skipelem_eq, elements, components_of_skipelem_none]
  | case2 path array after rest isElement continues =>
    have isNext : skipelem path = some (ofBytes after, rest) := by
      rw [skipelem_eq string array, isElement]
      rfl
    rw [components_of_skipelem isNext,
      ← continues (not_mem_of_skipelemArray string isElement), elements, isElement]

end Components

/-! ## Lookup -/

def search (inode : Nat → Inode) (d : Nat) (name : Name) : Option Nat :=
  if (inode d).type ≠ .dir then none else (scan name 0 (inode d).entries).map Prod.fst

def lookup (inode : Nat → Inode) (d : Nat) (names : List Name) : Option Nat :=
  names.foldlM (search inode) d

/-- The directory that all names but the last lead to, and the last name. -/
def lookupParent (inode : Nat → Inode) (d : Nat) (names : List Name) : Option (Nat × Name) :=
  match names.getLast?, lookup inode d names.dropLast with
  | some last, some dp => if (inode dp).type = .dir then some (dp, last) else none
  | _, _ => none

section Lookup

variable {inode : Nat → Inode} {path : List UInt8}

/-- A search fails in what is no directory, and when no entry in use has the name. -/
theorem search_eq_none_iff {d : Nat} {name : Name} :
    search inode d name = none ↔
      (inode d).type ≠ .dir ∨ ∀ de ∈ (inode d).entries, de.inum ≠ 0 → de.name ≠ name := by
  unfold search
  split
  · grind
  · rename_i isDir
    rw [Option.map_eq_none_iff]
    constructor
    · exact fun missing => .inr fun de member used => scan_eq_none missing member used
    · rintro (notDir | missing)
      · exact absurd notDir isDir
      · cases isFound : scan name 0 (inode d).entries with
        | none => rfl
        | some pair =>
          obtain ⟨used, -, isEntry⟩ := scan_eq_some isFound
          exact absurd rfl (missing _ (List.mem_of_getElem? isEntry) used)

theorem lookup_cons (d : Nat) (name : Name) (names : List Name) :
    lookup inode d (name :: names) =
      (search inode d name).bind fun next => lookup inode next names :=
  List.foldlM_cons

theorem lookup_eq_none_iff {d : Nat} {names : List Name} :
    lookup inode d names = none ↔ ∃ before name after dp, names = before ++ name :: after ∧
      lookup inode d before = some dp ∧ search inode dp name = none := by
  induction names generalizing d with
  | nil =>
    refine ⟨fun isNone => absurd isNone (Option.some_ne_none d), ?_⟩
    rintro ⟨before, name, after, dp, isNames, -⟩
    exact absurd isNames.symm (List.append_ne_nil_of_right_ne_nil _ (List.cons_ne_nil _ _))
  | cons first names continues =>
    rw [lookup_cons]
    cases isFound : search inode d first with
    | none => exact iff_of_true rfl ⟨[], first, names, d, rfl, rfl, isFound⟩
    | some next =>
      rw [Option.bind_some, continues]
      constructor
      · grind [lookup_cons]
      · rintro ⟨before, name, after, dp, isNames, isAt, isMissing⟩
        cases before with
        | nil =>
          obtain ⟨rfl, -⟩ := List.cons.inj isNames
          obtain rfl : d = dp := Option.some.inj isAt
          exact absurd (isFound.symm.trans isMissing) (Option.some_ne_none next)
        | cons other before =>
          grind [lookup_cons]

theorem walk_eq_lookup {fuel d : Nat} (enough : path.length < fuel) :
    walk inode false fuel d path =
      (lookup inode d (components path)).map fun ip => (ip, []) := by
  induction fuel generalizing d path with
  | zero => omega
  | succ fuel continues =>
    rw [walk]
    cases isElement : skipelem path with
    | none =>
      rw [components_of_skipelem_none isElement]
      rfl
    | some pair =>
      obtain ⟨name, rest⟩ := pair
      have shorter := length_lt_of_skipelem isElement
      rw [components_of_skipelem isElement, lookup_cons, search]
      dsimp only
      split
      · rfl
      · grind

theorem lookupParent_cons {names : List Name} (more : names ≠ []) (d : Nat) (name : Name) :
    lookupParent inode d (name :: names) =
      (search inode d name).bind fun next => lookupParent inode next names := by
  unfold lookupParent
  rw [List.dropLast_cons_of_ne_nil more, lookup_cons, List.getLast?_cons_of_ne_nil more]
  cases search inode d name with
  | none =>
    grind
  | some next => rfl

theorem walk_eq_lookupParent {fuel d : Nat} (enough : path.length < fuel) :
    walk inode true fuel d path = lookupParent inode d (components path) := by
  induction fuel generalizing d path with
  | zero => omega
  | succ fuel continues =>
    rw [walk]
    cases isElement : skipelem path with
    | none =>
      rw [components_of_skipelem_none isElement]
      rfl
    | some pair =>
      obtain ⟨name, rest⟩ := pair
      have shorter := length_lt_of_skipelem isElement
      have isLast := components_eq_nil_iff isElement
      rw [components_of_skipelem isElement]
      dsimp only
      by_cases isEmpty : rest = []
      · rw [isLast.mpr isEmpty, if_pos (show true = true ∧ rest = [] from ⟨rfl, isEmpty⟩),
          ite_not]
        rfl
      · grind [lookupParent_cons, search]

def start (cwd : Nat) (path : List UInt8) : Nat :=
  if path.head? = some slash then rootino else cwd

theorem resolve_eq_lookup (cwd : Nat) :
    resolve inode false cwd path =
      (lookup inode (start cwd path) (components path)).map fun ip => (ip, []) :=
  walk_eq_lookup (Nat.lt_succ_self _)

theorem resolve_eq_lookupParent (cwd : Nat) :
    resolve inode true cwd path = lookupParent inode (start cwd path) (components path) :=
  walk_eq_lookupParent (Nat.lt_succ_self _)

theorem lookupParent_eq_none_iff {d : Nat} {names : List Name} :
    lookupParent inode d names = none ↔ names = [] ∨ lookup inode d names.dropLast = none ∨
      ∃ dp, lookup inode d names.dropLast = some dp ∧ (inode dp).type ≠ .dir := by
  unfold lookupParent
  cases isLast : names.getLast? with
  | none => exact iff_of_true rfl (.inl (List.getLast?_eq_none_iff.mp isLast))
  | some last =>
    have nonempty : names ≠ [] := fun isNil => by
      rw [isNil] at isLast
      cases isLast
    cases lookup inode d names.dropLast with
    | none => exact iff_of_true rfl (.inr (.inl rfl))
    | some dp => simp [nonempty]

end Lookup

section Resolution

variable {ninodes cwd : Nat} {path name : List UInt8} {held : List Nat} {state : State}

theorem namexArray_bounded (string : 0 ∉ path) (isArray : name.length = dirsiz)
    (named : Named state.inode) (walkable : Walkable state.inode) (counted : Counted state held)
    (inUse : 0 < procRefs state.proc cwd) (nameiparent : Bool) :
    Meets (CacheFull ninodes 1 state.proc held)
      (namexArray ninodes nameiparent cwd path name state) fun result =>
        (view nameiparent result).1 = resolve state.inode nameiparent cwd path ∧
          SameNodes state result.2.2 := by
  have bounded := @namex_bounded ninodes state held nameiparent path cwd walkable counted inUse
  rw [← namexArray_eq isArray string named] at bounded
  exact bounded.of_map.mono fun _ resolved => ⟨resolved.found, resolved.same⟩

/-- Paths are looked up by their components.  Two paths with the same components that
both begin with a slash, or both do not, name the same. -/
theorem path_resolution (string : 0 ∉ path) (isArray : name.length = dirsiz)
    (named : Named state.inode) (walkable : Walkable state.inode) (counted : Counted state held)
    (inUse : 0 < procRefs state.proc cwd) :
    elements path name = components path ∧
    Meets (CacheFull ninodes 1 state.proc held) (namei ninodes cwd path name state) (fun result =>
      result.1 = lookup state.inode (start cwd path) (components path) ∧
        SameNodes state result.2.2) ∧
    Meets (CacheFull ninodes 1 state.proc held) (nameiparent ninodes cwd path name state)
      (fun result => result.1.map (fun dp => (dp, ofBytes result.2.1)) =
          lookupParent state.inode (start cwd path) (components path) ∧
        SameNodes state result.2.2) ∧
    (∀ d names, lookup state.inode d names = none ↔
      ∃ before name after dp, names = before ++ name :: after ∧
        lookup state.inode d before = some dp ∧ ((state.inode dp).type ≠ .dir ∨
          ∀ de ∈ (state.inode dp).entries, de.inum ≠ 0 → de.name ≠ name)) ∧
    (∀ d names, lookupParent state.inode d names = none ↔
      names = [] ∨ lookup state.inode d names.dropLast = none ∨
        ∃ dp, lookup state.inode d names.dropLast = some dp ∧ (state.inode dp).type ≠ .dir) ∧
    ∀ other, 0 ∉ other → components other = components path →
      (other.head? = some slash ↔ path.head? = some slash) →
      ∀ nameiparent first second,
        namexArray ninodes nameiparent cwd path name state = .ok first →
        namexArray ninodes nameiparent cwd other name state = .ok second →
          (view nameiparent first).1 = (view nameiparent second).1 := by
  have bounded := fun path string =>
    @namexArray_bounded ninodes cwd path name held state string isArray named walkable counted inUse
  refine ⟨elements_eq string name, ?_, ?_, fun d names => ?_, fun d names =>
    lookupParent_eq_none_iff, fun other otherString same sameStart parent first second isFirst
    isSecond => ?_⟩
  · refine (bounded path string false).mono fun result found => ⟨?_, found.2⟩
    have isFound := found.1
    rw [resolve_eq_lookup] at isFound
    exact Option.map_injective (fun _ _ isPair => congrArg Prod.fst isPair) isFound
  · refine (bounded path string true).mono fun result found => ⟨?_, found.2⟩
    rw [← resolve_eq_lookupParent]
    exact found.1
  · rw [lookup_eq_none_iff]
    simp only [search_eq_none_iff]
  · have isStart : start cwd other = start cwd path := if_congr sameStart rfl rfl
    have foundFirst := ((bounded path string parent).of_ok isFirst).1
    have foundSecond := ((bounded other otherString parent).of_ok isSecond).1
    rw [foundFirst, foundSecond]
    cases parent with
    | false => rw [resolve_eq_lookup, resolve_eq_lookup, same, isStart]
    | true => rw [resolve_eq_lookupParent, resolve_eq_lookupParent, same, isStart]

end Resolution

theorem named_bootState : Named bootState.inode := by
  intro d de member
  unfold bootState at member
  dsimp only at member
  split at member
  · rcases List.mem_pair.mp member with rfl | rfl
    · exact ⟨by decide, by decide⟩
    · exact ⟨by decide, by decide⟩
  · exact absurd member List.not_mem_nil

/-- The string "//./" from the root directory. -/
theorem path_resolution_root : ∃ result,
    namei 8 rootino [47, 47, 46, 47] (List.replicate 14 7) bootState = .ok result ∧
      result.1 = some rootino := by
  have resolved := @path_resolution 8 rootino [47, 47, 46, 47] (List.replicate 14 7) [] bootState
    (by decide) (by decide) named_bootState wellFormed_bootState.tree.walkable
    wellFormed_bootState.counted (by decide +kernel)
  cases isResult : namei 8 rootino [47, 47, 46, 47] (List.replicate 14 7) bootState with
  | error panic =>
    have full := (resolved.2.1.of_error isResult).2
    exact absurd full (by decide +kernel)
  | ok result =>
    refine ⟨result, rfl, ((resolved.2.1.of_ok isResult).1).trans ?_⟩
    decide +kernel

/-- The strings "/a" and "a" have the same components, and name different files for a
process whose current directory is "/a". -/
theorem leading_slash_matters : components [47, 97] = components [97] ∧
    ∃ trace finish, DirsRun 8 bootState trace finish ∧
      (finish.proc 1).map Proc.cwd = some 2 ∧
      (namei 8 2 [47, 97] (List.replicate 14 0) finish).toOption.map Prod.fst = some (some 2) ∧
      (namei 8 2 [97] (List.replicate 14 0) finish).toOption.map Prod.fst = some none := by
  refine ⟨by decide +kernel, ?_⟩
  obtain ⟨trace, finish, run, -, tested⟩ := @exists_run_of_decide _ _ (State.step 8) bootState
    [(1, .mkdir [47, 97]), (1, .chdir [47, 97])]
    (fun _ finish => (finish.proc 1).map Proc.cwd = some 2 ∧
      (namei 8 2 [47, 97] (List.replicate 14 0) finish).toOption.map Prod.fst = some (some 2) ∧
      (namei 8 2 [97] (List.replicate 14 0) finish).toOption.map Prod.fst = some none)
    _ (by decide +kernel)
  exact ⟨trace, finish, run, tested⟩

end Dirs

end Xv6
