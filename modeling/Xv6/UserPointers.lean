import Xv6.UserAccess

/-!
# User pointers stay inside the process

A system call that checks its pointers touches only addresses below the size of the
process, when that size is below the kernel's part of the address space: no sum in
the checks wraps then.  The exception is `recv`: its pointer is checked for four
bytes, and it stores as many as it is asked to.
-/

namespace Xv6

namespace UserAccess

open CString DiskBlock Traced

abbrev kernbase : BitVec 32 := 0x80000000

def Below (user : UserMemory) (access : Access) : Prop :=
  access.addr < user.sz

variable {user : UserMemory} {Proc : Type} {kernel : Kernel Proc}

variable {addr s p n path data : BitVec 32}

theorem toNat_add_ofNat {offset : Nat} (fits : addr.toNat + offset < 2 ^ 32) :
    (addr + BitVec.ofNat 32 offset).toNat = addr.toNat + offset := by
  rw [BitVec.toNat_add, BitVec.toNat_ofNat, Nat.add_mod_mod, Nat.mod_eq_of_lt fits]

theorem toNat_succ (fits : addr.toNat + 1 < 2 ^ 32) : (addr + 1).toNat = addr.toNat + 1 :=
  toNat_add_ofNat fits

/-! ## Loads and stores -/

theorem load_within (inside : addr.toNat < user.sz.toNat) :
    Within (Below user) (load user addr) fun byte => byte = user.memory addr := by
  apply Within.emit_bind
  · intro event member
    rw [List.mem_singleton.mp member]
    exact inside
  · exact within_pure.mpr rfl

theorem loadBytes_within {count : Nat} (inside : addr.toNat + count ≤ user.sz.toNat) :
    Within (Below user) (loadBytes user addr count) fun _ => True := by
  induction count generalizing addr with
  | zero => exact within_pure.mpr trivial
  | succ count ih =>
    apply (load_within (by omega)).bind
    intro byte _
    cases count with
    | zero => exact within_pure.mpr trivial
    | succ count =>
      apply (ih (by rw [toNat_succ (by omega)]; omega)).bind
      intro rest _
      exact within_pure.mpr trivial

theorem storeBytes_within {bytes : List UInt8}
    (inside : addr.toNat + bytes.length ≤ user.sz.toNat) :
    Within (Below user) (storeBytes addr bytes) fun _ => True := by
  induction bytes generalizing addr with
  | nil => exact within_pure.mpr trivial
  | cons byte rest ih =>
    rw [List.length_cons] at inside
    apply Within.emit_bind
    · intro event member
      rw [List.mem_singleton.mp member, Below, Access.addr, BitVec.lt_def]
      omega
    · grind

@[simp]
theorem intBytes_length (size value : Nat) : (intBytes size value).length = size := by
  rw [intBytes, List.length_map, List.length_range]

@[simp]
theorem value_load (addr : BitVec 32) : (load user addr).value = some (user.memory addr) :=
  rfl

theorem value_loadBytes (addr : BitVec 32) (count : Nat) :
    ∃ bytes, (loadBytes user addr count).value = some bytes := by
  induction count generalizing addr with
  | zero => exact ⟨[], rfl⟩
  | succ count ih =>
    obtain ⟨bytes, loaded⟩ := ih (addr + 1)
    refine ⟨user.memory addr :: bytes, ?_⟩
    rw [loadBytes, value_bind, value_load, Option.bind_some, value_bind, loaded]
    rfl

/-! ## Fetching arguments -/

/-- The traced functions fetch what the functions on memory do. -/
theorem value_fetchint (addr : BitVec 32) :
    (fetchint user addr).value = user.fetchint addr := by
  obtain ⟨bytes, loaded⟩ := @value_loadBytes user addr 4
  rw [fetchint, UserMemory.fetchint]
  split
  · rfl
  · simp [loaded]

theorem value_argint (n : Nat) : (argint user n).value = user.argint n :=
  value_fetchint _

theorem value_argptr (n : Nat) (size : Int) :
    (argptr user n size).value = user.argptr n size := by
  rw [argptr, UserMemory.argptr, value_bind, value_argint]
  congr 1
  funext pointer
  split <;> rfl

section Checked

variable (small : user.sz < kernbase)

include small

theorem small_toNat : user.sz.toNat < 2 ^ 31 :=
  small

/-- The four bytes of a word are checked, and no sum wraps. -/
theorem fetchint_within (addr : BitVec 32) :
    Within (Below user) (fetchint user addr) fun _ => True := by
  have bound := small_toNat small
  rw [fetchint]
  split
  · exact within_fail
  · rename_i checked
    simp only [not_or, ge_iff_le, gt_iff_lt, BitVec.le_def, BitVec.lt_def, not_le, not_lt]
      at checked
    have sum : (addr + 4).toNat = addr.toNat + 4 := toNat_add_ofNat (by
      change addr.toNat + 4 < 2 ^ 32
      omega)
    apply (loadBytes_within (by omega)).bind
    intro _ _
    exact within_pure.mpr trivial

theorem argint_within (n : Nat) : Within (Below user) (argint user n) fun _ => True :=
  fetchint_within small _

theorem argptr_within (n : Nat) {size : Int} (bounded : size < 2 ^ 31) :
    Within (Below user) (argptr user n size) fun p =>
      0 ≤ size ∧ p.toNat + size.toNat ≤ user.sz.toNat := by
  have bound := small_toNat small
  apply (argint_within small n).bind
  intro i _
  split
  · exact within_fail
  · rename_i checked
    simp only [not_or, ge_iff_le, gt_iff_lt, BitVec.le_def, BitVec.lt_def, not_le, not_lt]
      at checked
    obtain ⟨positive, inside, ends⟩ := checked
    have same : BitVec.ofInt 32 size = BitVec.ofNat 32 size.toNat := by
      rw [← BitVec.ofInt_natCast, Int.toNat_of_nonneg positive]
    rw [same, toNat_add_ofNat (by omega)] at ends
    exact within_pure.mpr ⟨positive, ends⟩

end Checked

/-! ## Strings -/

/-- The pointer stands in a string whose NUL lies inside the process. -/
def InString (user : UserMemory) (p : BitVec 32) : Prop :=
  ∃ stop, p.toNat ≤ stop ∧ stop < user.sz.toNat ∧ user.memory (BitVec.ofNat 32 stop) = 0

namespace InString

variable {p : BitVec 32}

theorem lt (string : InString user p) : p.toNat < user.sz.toNat := by
  obtain ⟨stop, before, inside, -⟩ := string
  omega

theorem succ (string : InString user p) (byte : user.memory p ≠ 0) :
    InString user (p + 1) ∧ (p + 1).toNat = p.toNat + 1 := by
  obtain ⟨stop, before, inside, nul⟩ := string
  have different : p.toNat ≠ stop := by
    grind
  have next : (p + 1).toNat = p.toNat + 1 := toNat_succ (by omega)
  exact ⟨⟨stop, by omega, inside, nul⟩, next⟩

end InString

theorem fetchstrLoop_within {left : Nat} (inside : s.toNat + left ≤ user.sz.toNat) :
    Within (Below user) (fetchstrLoop user left s) fun _ => InString user s := by
  induction left generalizing s with
  | zero => exact within_fail
  | succ left ih =>
    apply (load_within (by omega)).bind
    rintro byte rfl
    split
    · apply within_pure.mpr
      exact ⟨s.toNat, le_rfl, by omega, by rwa [BitVec.ofNat_toNat, BitVec.setWidth_eq]⟩
    · cases left with
      | zero => exact within_fail
      | succ left =>
        have next : (s + 1).toNat = s.toNat + 1 := toNat_succ (by omega)
        apply (ih (by omega)).mono
        rintro - ⟨stop, before, below, nul⟩
        exact ⟨stop, by omega, below, nul⟩

theorem fetchstr_within (addr : BitVec 32) :
    Within (Below user) (fetchstr user addr) (InString user) := by
  rw [fetchstr]
  split
  · exact within_fail
  · rename_i below
    rw [ge_iff_le, BitVec.le_def, not_le] at below
    have left : (user.sz - addr).toNat = user.sz.toNat - addr.toNat :=
      BitVec.toNat_sub_of_le (by rw [BitVec.le_def]; omega)
    apply (fetchstrLoop_within (by omega)).bind
    intro _ string
    exact within_pure.mpr string

theorem argstr_within (small : user.sz < kernbase) (n : Nat) :
    Within (Below user) (argstr user n) (InString user) := by
  apply (argint_within small n).bind
  intro addr _
  exact fetchstr_within addr

/-- A pointer that advances over bytes other than NUL stays in its string. -/
theorem advance_within {passes : UInt8 → Bool} (stops : passes 0 = false) (fuel : Nat)
    (string : InString user p) :
    Within (Below user) (advance user passes fuel p) fun q =>
      InString user q ∧ p.toNat ≤ q.toNat := by
  induction fuel generalizing p with
  | zero => exact within_fail
  | succ fuel ih =>
    apply (load_within string.lt).bind
    rintro byte rfl
    split
    · rename_i passed
      have byte : user.memory p ≠ 0 := by
        grind
      obtain ⟨later, next⟩ := string.succ byte
      apply (ih later).mono
      rintro q ⟨inside, behind⟩
      exact ⟨inside, by omega⟩
    · exact within_pure.mpr ⟨string, le_rfl⟩

theorem toNat_sub_of_le {q : BitVec 32} (order : p.toNat ≤ q.toNat) :
    (q - p).toNat = q.toNat - p.toNat :=
  BitVec.toNat_sub_of_le order

theorem strlen_within (string : InString user s) :
    Within (Below user) (strlen user s) fun len => s.toNat + (len + 1) ≤ user.sz.toNat := by
  apply (advance_within (by decide) _ string).bind
  rintro stop ⟨inside, behind⟩
  apply within_pure.mpr
  have bound := inside.lt
  rw [toNat_sub_of_le behind]
  omega

theorem strncmp_within (string : InString user p) (q : List UInt8) (n : Nat) :
    Within (Below user) (strncmp user p q n) fun _ => True := by
  induction n generalizing p q with
  | zero => exact within_pure.mpr trivial
  | succ n ih =>
    apply (load_within string.lt).bind
    rintro byte rfl
    split
    · rename_i equal
      exact ih (string.succ equal.1).1 q.tail
    · exact within_pure.mpr trivial

theorem safestrcpy_within {t : BitVec 32} (string : InString user t) (n : Nat) :
    Within (Below user) (safestrcpy user t n) fun _ => True := by
  induction n generalizing t with
  | zero => exact within_pure.mpr trivial
  | succ n ih =>
    apply (load_within string.lt).bind
    rintro byte rfl
    split
    · exact within_pure.mpr trivial
    · rename_i more
      apply (ih (string.succ more).1).bind
      intro rest _
      exact within_pure.mpr trivial

/-! ## Files -/

theorem toInt_toNat_le (n : BitVec 32) : n.toInt.toNat ≤ n.toNat := by
  rw [BitVec.toInt_eq_toNat_cond]
  split <;> omega

theorem toInt_lt (n : BitVec 32) : n.toInt < 2 ^ 31 :=
  BitVec.toInt_lt

theorem argfd_within (small : user.sz < kernbase) (n : Nat) :
    Within (Below user) (argfd user kernel n) fun _ => True := by
  apply (argint_within small n).bind
  intro fd _
  split
  · exact within_fail
  · cases kernel.ofile fd.toNat with
    | none => exact within_fail
    | some f => exact within_pure.mpr trivial

section Transfers

variable {addr n : BitVec 32} (fits : addr.toNat + n.toNat ≤ user.sz.toNat)

include fits

theorem piperead_within (p : Pipe) :
    Within (Below user) (piperead p addr n) fun _ => True := by
  have count := toInt_toNat_le n
  rw [piperead]
  cases p.unread with
  | none => exact within_fail
  | some bytes =>
    apply (storeBytes_within (by rw [List.length_take]; omega)).bind
    intro _ _
    exact within_pure.mpr trivial

theorem pipewrite_within (p : Pipe) :
    Within (Below user) (pipewrite user p addr n) fun _ => True := by
  have count := toInt_toNat_le n
  apply (loadBytes_within (by omega)).bind
  intro _ _
  split
  · exact within_fail
  · exact within_pure.mpr trivial

variable {left : Nat}

omit fits in
theorem consolereadLoop_within {typed : List UInt8} {dst : BitVec 32}
    (inside : dst.toNat + left ≤ user.sz.toNat) :
    Within (Below user) (consolereadLoop typed dst left) fun _ => True := by
  induction left generalizing typed dst with
  | zero =>
    rw [consolereadLoop]
    exact within_pure.mpr trivial
  | succ left ih =>
    cases typed with
    | nil => exact within_fail
    | cons c typed =>
      rw [consolereadLoop]
      split
      · exact within_pure.mpr trivial
      · apply Within.emit_bind
        · intro event member
          rw [List.mem_singleton.mp member, Below, Access.addr, BitVec.lt_def]
          omega
        · split
          · exact within_pure.mpr trivial
          · grind

theorem consoleread_within :
    Within (Below user) (consoleread kernel addr n) fun _ => True := by
  have count := toInt_toNat_le n
  apply (consolereadLoop_within (by omega)).bind
  intro left _
  exact within_pure.mpr trivial

theorem consolewrite_within :
    Within (Below user) (consolewrite user addr n) fun _ => True := by
  have count := toInt_toNat_le n
  apply (loadBytes_within (by omega)).bind
  intro _ _
  exact within_pure.mpr trivial

omit fits in
theorem readiLoop_within (ip : Inode) {fuel : Nat} {dst : BitVec 32} {off : Nat}
    (inside : dst.toNat + left ≤ user.sz.toNat) :
    Within (Below user) (readiLoop ip fuel dst off left) fun _ => True := by
  induction fuel generalizing dst off left with
  | zero => exact within_pure.mpr trivial
  | succ fuel ih =>
    rw [readiLoop]
    split
    · exact within_pure.mpr trivial
    · generalize chunk : min left (bsize - off % bsize) = m
      apply (storeBytes_within (by simp only [List.length_map, List.length_range]; omega)).bind
      intro _ _
      by_cases done : left - m = 0
      · grind
      · exact ih (by rw [toNat_add_ofNat (by omega)]; omega)

theorem readi_within (ip : Inode) (off : BitVec 32) :
    Within (Below user) (readi kernel ip addr off n) fun _ => True := by
  rw [readi]
  split
  · split
    · exact consoleread_within fits
    · exact within_fail
  split
  · exact within_fail
  rename_i checked
  simp only [gt_iff_lt, not_or, BitVec.lt_def, not_lt] at checked
  have count : (if off + n > ip.size then ip.size - off else n).toNat ≤ n.toNat := by
    grind [BitVec.lt_def, toNat_sub_of_le, Nat.mod_le]
  apply (readiLoop_within ip (by omega)).bind
  intro _ _
  exact within_pure.mpr trivial

omit fits in
theorem writeiLoop_within {fuel : Nat} {src : BitVec 32} {off : Nat}
    (inside : src.toNat + left ≤ user.sz.toNat) :
    Within (Below user) (writeiLoop user fuel src off left) fun _ => True := by
  induction fuel generalizing src off left with
  | zero => exact within_pure.mpr trivial
  | succ fuel ih =>
    rw [writeiLoop]
    split
    · exact within_pure.mpr trivial
    · generalize chunk : min left (bsize - off % bsize) = m
      apply (loadBytes_within (by omega)).bind
      intro _ _
      by_cases done : left - m = 0
      · grind
      · exact ih (by rw [toNat_add_ofNat (by omega)]; omega)

theorem writei_within (ip : Inode) (off : BitVec 32) :
    Within (Below user) (writei user ip addr off n) fun _ => True := by
  rw [writei]
  split
  · split
    · exact consolewrite_within fits
    · exact within_fail
  split
  · exact within_fail
  split
  · exact within_fail
  apply (writeiLoop_within fits).bind
  intro _ _
  exact within_pure.mpr trivial

theorem fileread_within (f : File) :
    Within (Below user) (fileread kernel f addr n) fun _ => True := by
  grind [fileread, within_fail, piperead_within, readi_within]

omit fits in
/-- Each transaction of `filewrite` starts behind the bytes written. -/
theorem filewriteLoop_within (ip : Nat → Inode) (off : Nat → BitVec 32) {addr : BitVec 32}
    {n : Nat} (fits : addr.toNat + n ≤ user.sz.toNat) (fuel round i : Nat) :
    Within (Below user) (filewriteLoop user ip off addr n fuel round i) fun _ => True := by
  induction fuel generalizing round i with
  | zero => exact within_pure.mpr trivial
  | succ fuel ih =>
    rw [filewriteLoop]
    split
    · exact within_pure.mpr trivial
    · have start : (addr + BitVec.ofNat 32 i).toNat = addr.toNat + i :=
        toNat_add_ofNat (by omega)
      have count : (BitVec.ofNat 32 (min (n - i) Fs.maxWrite)).toNat ≤ n - i := by
        exact (Nat.mod_le _ _).trans (Nat.min_le_left _ _)
      apply (writei_within (by omega) (ip round) (off round)).bind
      intro r _
      split
      · exact within_fail
      · exact ih (round + 1) (i + r)

theorem filewrite_within (f : File) :
    Within (Below user) (filewrite user f addr n) fun _ => True := by
  grind [filewrite, within_fail, pipewrite_within, filewriteLoop_within]

end Transfers

theorem filestat_within (f : File) {st : BitVec 32} (fits : st.toNat + 20 ≤ user.sz.toNat) :
    Within (Below user) (filestat f st) fun _ => True := by
  -- Every field of `struct stat` ends within its 20 bytes.
  have field : ∀ offset size value, offset + size ≤ 20 →
      Within (Below user) (storeBytes (st + BitVec.ofNat 32 offset) (intBytes size value))
        fun _ => True := by
    intro offset size value bound
    apply storeBytes_within
    rw [toNat_add_ofNat (by omega), intBytes_length]
    omega
  rw [filestat]
  cases f.object with
  | none => exact within_fail
  | pipe p => exact within_fail
  | inode ip off =>
    apply (field 4 4 _ (by decide)).bind
    intro _ _
    apply (field 8 4 _ (by decide)).bind
    intro _ _
    apply (storeBytes_within (by rw [intBytes_length]; omega)).bind
    intro _ _
    apply (field 12 2 _ (by decide)).bind
    intro _ _
    exact field 16 4 _ (by decide)

/-- The pointer and the length of `read` and `write` are checked together. -/
theorem checked_transfer (positive : 0 ≤ n.toInt) (fits : p.toNat + n.toInt.toNat ≤ user.sz.toNat) :
    p.toNat + n.toNat ≤ user.sz.toNat := by
  rw [BitVec.toInt_eq_toNat_cond] at positive fits
  split at positive <;> omega

section FileCalls

variable (small : user.sz < kernbase)

include small

theorem sysRead_within : Within (Below user) (sysRead user kernel) fun _ => True := by
  apply (argfd_within small 0).bind
  intro f _
  apply (argint_within small 2).bind
  intro n _
  apply (argptr_within small 1 (toInt_lt n)).bind
  rintro p ⟨positive, fits⟩
  exact fileread_within (checked_transfer positive fits) f

theorem sysWrite_within : Within (Below user) (sysWrite user kernel) fun _ => True := by
  apply (argfd_within small 0).bind
  intro f _
  apply (argint_within small 2).bind
  intro n _
  apply (argptr_within small 1 (toInt_lt n)).bind
  rintro p ⟨positive, fits⟩
  exact filewrite_within (checked_transfer positive fits) f

theorem sysFstat_within : Within (Below user) (sysFstat user kernel) fun _ => True := by
  apply (argfd_within small 0).bind
  intro f _
  apply (argptr_within small 1 (by decide)).bind
  rintro st ⟨-, fits⟩
  exact filestat_within f fits

theorem sysPipe_within : Within (Below user) (sysPipe user kernel) fun _ => True := by
  apply (argptr_within small 0 (by decide)).bind
  rintro fd ⟨-, fits⟩
  cases kernel.pipealloc with
  | none => exact within_fail
  | some files =>
    cases fdalloc kernel.ofile with
    | none => exact within_fail
    | some fd0 =>
      dsimp only
      cases fdalloc (Function.update kernel.ofile fd0 (some files.1)) with
      | none => exact within_fail
      | some fd1 =>
        apply (storeBytes_within (by rw [intBytes_length]; omega)).bind
        intro _ _
        have second : (fd + 4).toNat = fd.toNat + 4 := toNat_add_ofNat (by
          change fd.toNat + 4 < 2 ^ 32
          omega)
        exact storeBytes_within (by rw [intBytes_length]; omega)

end FileCalls

/-! ## Programs -/

theorem skipelem_within (string : InString user path) :
    Within (Below user) (skipelem user path) fun element =>
      ∀ name rest, element = some (name, rest) → InString user rest := by
  apply (advance_within (by decide) _ string).bind
  rintro s ⟨inside, -⟩
  apply (load_within inside.lt).bind
  intro byte _
  split
  · exact within_pure.mpr (by simp)
  apply (advance_within (by decide) _ inside).bind
  rintro stop ⟨atStop, behind⟩
  have bound := atStop.lt
  apply (loadBytes_within (by rw [toNat_sub_of_le behind]; omega)).bind
  intro name _
  apply (advance_within (by decide) _ atStop).bind
  rintro rest ⟨atRest, -⟩
  apply within_pure.mpr
  rintro name' rest' same
  obtain ⟨-, rfl⟩ := Prod.mk.inj (Option.some.inj same)
  exact atRest

theorem namexLoop_within (fuel : Nat) (string : InString user path) (walked : List (List UInt8)) :
    Within (Below user) (namexLoop user kernel fuel path walked) fun _ => True := by
  induction fuel generalizing path walked with
  | zero => exact within_fail
  | succ fuel ih =>
    apply (skipelem_within string).bind
    intro element inside
    cases element with
    | none => exact within_pure.mpr trivial
    | some pair =>
      grind [within_fail]

theorem namei_within (string : InString user path) :
    Within (Below user) (namei user kernel path) fun _ => True := by
  apply (load_within string.lt).bind
  intro _ _
  exact namexLoop_within _ string []

theorem copyout_within {move : BitVec 32 → Nat → Code Unit} (Source : BitVec 32 → Nat → Prop)
    (moves : ∀ buf len n, Source buf len → n ≤ len → Within (Below user) (move buf n) fun _ => True)
    (behind : ∀ buf len n, Source buf len → n < len →
      Source (buf + BitVec.ofNat 32 n) (len - n))
    (fuel : Nat) (va : BitVec 32) {buf : BitVec 32} {len : Nat} (source : Source buf len) :
    Within (Below user) (copyout kernel move fuel va buf len) fun _ => True := by
  induction fuel generalizing va buf len with
  | zero => exact within_pure.mpr trivial
  | succ fuel ih =>
    rw [copyout]
    split
    · exact within_pure.mpr trivial
    dsimp only
    split
    · exact within_fail
    generalize chunk : min (4096 - (va - (va &&& ~~~4095)).toNat) len = n
    apply (moves buf len n source (by omega)).bind
    intro _ _
    by_cases done : len - n = 0
    · cases fuel with
      | zero => exact within_pure.mpr trivial
      | succ fuel =>
        rw [copyout, if_pos done]
        exact within_pure.mpr trivial
    · exact ih _ (behind buf len n source (by omega))

theorem pushStrings_within {argv : List (BitVec 32)} (strings : ∀ arg ∈ argv, InString user arg)
    (argc : Nat) (sp : BitVec 32) :
    Within (Below user) (pushStrings user kernel argv argc sp) fun _ => True := by
  induction argv generalizing argc sp with
  | nil => exact within_pure.mpr trivial
  | cons arg argv ih =>
    have string := strings arg List.mem_cons_self
    rw [pushStrings]
    split
    · exact within_fail
    apply (strlen_within string).bind
    intro len _
    apply (strlen_within string).bind
    intro len inside
    have copied := @copyout_within user Proc kernel
      (fun buf n => do let _ ← loadBytes user buf n; pure ())
      (fun buf len => buf.toNat + len ≤ user.sz.toNat)
      (fun buf len n source bound => (loadBytes_within (by omega)).bind
        fun _ _ => within_pure.mpr trivial)
      (fun buf len n source bound => by rw [toNat_add_ofNat (by omega)]; omega)
    apply (copied _ _ inside).bind
    intro _ _
    exact ih (fun arg member => strings arg (List.mem_cons_of_mem _ member)) (argc + 1) _

theorem lastElement_within (fuel : Nat) {last : BitVec 32} (string : InString user s)
    (element : InString user last) :
    Within (Below user) (lastElement user fuel s last) (InString user) := by
  induction fuel generalizing s last with
  | zero => exact within_fail
  | succ fuel ih =>
    apply (load_within string.lt).bind
    rintro byte rfl
    split
    · exact within_pure.mpr element
    rename_i more
    obtain ⟨next, -⟩ := string.succ more
    split
    · exact ih next next
    · exact ih next element

theorem exec_within (string : InString user path) {argv : List (BitVec 32)}
    (strings : ∀ arg ∈ argv, InString user arg) :
    Within (Below user) (exec user kernel path argv) fun _ => True := by
  apply (namei_within string).bind
  intro _ _
  cases kernel.image with
  | none => exact within_fail
  | some sz =>
    apply (pushStrings_within strings 0 sz).bind
    intro sp _
    apply (copyout_within (fun _ _ => True) (fun _ _ _ _ _ => within_pure.mpr trivial)
      (fun _ _ _ _ _ => trivial) _ _ trivial).bind
    intro _ _
    apply (lastElement_within _ string string).bind
    intro last element
    exact safestrcpy_within element 15

theorem fetchArguments_within (small : user.sz < kernbase) (uargv : BitVec 32) (left i : Nat) :
    Within (Below user) (fetchArguments user uargv left i)
      fun argv => ∀ arg ∈ argv, InString user arg := by
  induction left generalizing i with
  | zero => exact within_fail
  | succ left ih =>
    apply (fetchint_within small _).bind
    intro uarg _
    split
    · exact within_pure.mpr (by simp)
    apply (fetchstr_within uarg).bind
    intro arg string
    apply (ih (i + 1)).bind
    intro rest strings
    exact within_pure.mpr (List.forall_mem_cons.mpr ⟨string, strings⟩)

theorem sysExec_within (small : user.sz < kernbase) :
    Within (Below user) (sysExec user kernel) fun _ => True := by
  apply (argstr_within small 0).bind
  intro path string
  apply (argint_within small 1).bind
  intro uargv _
  apply (fetchArguments_within small uargv 32 0).bind
  intro argv strings
  exact exec_within string strings

/-! ## Sockets -/

theorem sysConnect_within (small : user.sz < kernbase) :
    Within (Below user) (sysConnect user) fun _ => True := by
  apply (argint_within small 0).bind
  intro port _
  apply (argstr_within small 1).bind
  intro host string
  rw [connect]
  split
  · exact within_fail
  apply (strlen_within string).bind
  intro len _
  apply (strncmp_within string _ _).bind
  intro first _
  split
  · exact within_pure.mpr trivial
  apply (strlen_within string).bind
  intro len _
  apply (strncmp_within string _ _).bind
  intro second _
  split
  · exact within_pure.mpr trivial
  · exact within_fail

theorem fromUser_below (string : InString user data) (n : BitVec 32) :
    ∀ access ∈ (copyAccesses (fun index => user.memory (data + BitVec.ofNat 32 index))
      n).filterMap (fromUser data), Below user access := by
  obtain ⟨stop, before, inside, nul⟩ := string
  intro access member
  obtain ⟨copied, within, same⟩ := List.mem_filterMap.mp member
  cases copied with
  | store index byte => cases same
  | load index =>
    cases same
    rw [copyAccesses] at within
    split at within
    · have atStop : user.memory (data + BitVec.ofNat 32 (stop - data.toNat)) = 0 := by
        rw [← nul]
        congr 1
        apply BitVec.eq_of_toNat_eq
        rw [toNat_add_ofNat (by omega), BitVec.toNat_ofNat, Nat.mod_eq_of_lt (by omega)]
        omega
      have bound := @strncpyAccesses_load_le _ 0 _ (stop - data.toNat) _ atStop (Nat.zero_le _)
        within
      rw [Below, Access.addr, BitVec.lt_def, toNat_add_ofNat (by omega)]
      omega
    · exact absurd within padAccesses_load

variable [DecidableEq Proc]

theorem sysSend_within (small : user.sz < kernbase) :
    Within (Below user) (sysSend user kernel) fun _ => True := by
  apply (argint_within small 0).bind
  intro port _
  apply (argstr_within small 1).bind
  intro buf string
  apply (argint_within small 0).bind
  intro n _
  rw [send]
  split
  · exact within_fail
  split
  · exact within_fail
  split
  · exact within_fail
  exact within_emit.mpr ⟨fromUser_below string n, trivial⟩

/-- The number of bytes that `strncpy` stores for a 32-bit count.  Decrementing
the least integer wraps to the greatest. -/
def storedCount (n : BitVec 32) : Nat :=
  if n = 0x80000000 then 2 ^ 31 - 1 else n.toInt.toNat

theorem toInt_toNat_of_pos (positive : 0 < n.toInt) : n.toInt.toNat = n.toNat := by
  rw [BitVec.toInt_eq_toNat_cond] at positive ⊢
  split at positive <;> omega

/-- Decrementing a count below one leaves nothing to store, except at the least
integer. -/
theorem toInt_toNat_sub_one (negative : ¬ 0 < n.toInt) (other : n ≠ 0x80000000) :
    (n - 1).toInt.toNat = n.toInt.toNat := by
  have different : n.toNat ≠ 2 ^ 31 := fun same => other (BitVec.eq_of_toNat_eq same)
  have one : (1 : BitVec 32).toNat = 1 := rfl
  rw [BitVec.toInt_eq_toNat_cond] at negative ⊢
  rw [BitVec.toInt_eq_toNat_cond, BitVec.toNat_sub, one]
  split at negative
  · omega
  · omega

theorem copyAccesses_store_iff {source : Nat → UInt8} {target : Nat} :
    (∃ byte, .store target byte ∈ copyAccesses source n) ↔ target < storedCount n := by
  rw [copyAccesses, storedCount]
  split
  · rename_i positive
    have other : n ≠ 0x80000000 := by
      grind
    rw [strncpyAccesses_store_iff, if_neg other, toInt_toNat_of_pos positive]
    omega
  · rename_i negative
    rw [padAccesses_store_iff, Nat.zero_add, and_iff_right (Nat.zero_le _)]
    split
    · rename_i least
      subst least
      rfl
    · rename_i other
      rw [toInt_toNat_sub_one negative other]

/-- The stores of a copy to a checked pointer lie below the process size exactly
when there are none, or there is room for all of them. -/
theorem toUser_below_iff (small : user.sz < kernbase) (inside : data.toNat < user.sz.toNat)
    (source : Nat → UInt8) (n : BitVec 32) :
    (∀ access ∈ (copyAccesses source n).filterMap (toUser data), Below user access) ↔
      storedCount n = 0 ∨ data.toNat + storedCount n ≤ user.sz.toNat := by
  have bound := small_toNat small
  have count : storedCount n < 2 ^ 31 := by
    grind [storedCount]
  constructor
  · intro below
    by_contra! ⟨some, beyond⟩
    obtain ⟨byte, member⟩ := (@copyAccesses_store_iff n source (storedCount n - 1)).mpr (by omega)
    have last := below _ (List.mem_filterMap.mpr ⟨_, member, rfl⟩)
    rw [Below, Access.addr, BitVec.lt_def, toNat_add_ofNat (by omega)] at last
    omega
  · intro room access member
    obtain ⟨copied, within, same⟩ := List.mem_filterMap.mp member
    cases copied with
    | load index => cases same
    | store index byte =>
      cases same
      have early := copyAccesses_store_iff.mp ⟨byte, within⟩
      rw [Below, Access.addr, BitVec.lt_def, toNat_add_ofNat (by omega)]
      omega

/-- A `recv` on the port gets to its copy: it passes its checks, and it finds
the buffer full or is woken. -/
def Kernel.Copies (kernel : Kernel Proc) (port : Int) : Prop :=
  ∃ loc rem, Socket.checkPair kernel.myproc port kernel.world.stable = .ok (loc, rem) ∧
    ((kernel.world.stable.sock loc).hasfullbuffer = true ∨ kernel.woken.isSome = true)

/-- If the arguments of `recv` pass their checks and it gets to its copy, there
is room in the process for all the bytes asked for. -/
def RecvFits (user : UserMemory) (kernel : Kernel Proc) : Prop :=
  ∀ port buf n, user.argint 0 = some port → user.argptr 1 4 = some buf →
    user.argint 2 = some n → kernel.Copies port.toInt →
      storedCount n = 0 ∨ buf.toNat + storedCount n ≤ user.sz.toNat

theorem Kernel.copies_iff {lport : Int} {loc rem : Socket.Slot}
    (checked : Socket.checkPair kernel.myproc lport kernel.world.stable = .ok (loc, rem)) :
    kernel.Copies lport ↔
      (kernel.resumed (! (kernel.world.stable.sock loc).hasfullbuffer)).isSome = true := by
  rw [Kernel.resumed]
  constructor
  · rintro ⟨loc', rem', same, full | woken⟩
    · grind
    · split
      · exact woken
      · rfl
  · intro resumed
    refine ⟨loc, rem, checked, ?_⟩
    split at resumed
    · exact .inr resumed
    · grind

theorem recv_within_iff (small : user.sz < kernbase) {lport : Int}
    (inside : data.toNat < user.sz.toNat) :
    Within (Below user) (recv kernel lport data n) (fun _ => True) ↔
      (kernel.Copies lport → storedCount n = 0 ∨ data.toNat + storedCount n ≤ user.sz.toNat) := by
  rw [recv]
  cases checked : Socket.checkPair kernel.myproc lport kernel.world.stable with
  | error code =>
    refine iff_of_true within_fail ?_
    rintro ⟨loc, rem, same, -⟩
    cases checked.symm.trans same
  | ok pair =>
    rw [Kernel.copies_iff checked]
    dsimp only
    cases kernel.resumed (! (kernel.world.stable.sock pair.1).hasfullbuffer) with
    | none => exact iff_of_true within_fail (fun resumed => absurd resumed (by simp))
    | some world =>
      rw [within_emit, toUser_below_iff small inside]
      simp

/-- The only call that leaves the process is a `recv` without room for the bytes
asked for. -/
theorem sysRecv_within_iff (small : user.sz < kernbase) :
    Within (Below user) (sysRecv user kernel) (fun _ => True) ↔ RecvFits user kernel := by
  have first := (argint_within small 0).1
  have second := argptr_within small 1 (show (4 : Int) < 2 ^ 31 by decide)
  have third := (argint_within small 2).1
  rw [sysRecv, within_bind_iff, and_iff_right first, RecvFits, value_argint]
  refine forall_congr' fun port => ?_
  constructor
  · intro within buf n hasPort hasBuf hasLength
    obtain ⟨-, later⟩ := within_bind_iff.mp (within hasPort)
    obtain ⟨-, later⟩ := within_bind_iff.mp (later buf ((value_argptr 1 4).trans hasBuf))
    have inside := (second.2 buf ((value_argptr 1 4).trans hasBuf)).2
    exact (recv_within_iff small (by omega)).mp (later n ((value_argint 2).trans hasLength))
  · intro fits hasPort
    refine within_bind_iff.mpr ⟨second.1, fun buf hasBuf => ?_⟩
    refine within_bind_iff.mpr ⟨third, fun n hasLength => ?_⟩
    have inside := (second.2 buf hasBuf).2
    apply (recv_within_iff small (by omega)).mpr
    exact fits buf n hasPort ((value_argptr 1 4).symm.trans hasBuf)
      ((value_argint 2).symm.trans hasLength)

/-- Every system call touches only addresses below the size of the process,
whatever its stack pointer and its arguments are, and whatever it finds in the
kernel; except that a `recv` does so exactly when the bytes it is asked for fit
behind its pointer. -/
theorem user_accesses_below_iff (user : UserMemory) (small : user.sz < kernbase)
    (kernel : Kernel Proc) (call : Call) :
    (∀ access ∈ call.accesses user kernel, access.addr < user.sz) ↔
      (call = .recv → RecvFits user kernel) := by
  have other : ∀ {α : Type} {code : Code α}, Within (Below user) code (fun _ => True) →
      call ≠ .recv → ((∀ access ∈ code.events, access.addr < user.sz) ↔
        (call = .recv → RecvFits user kernel)) :=
    fun within different => iff_of_true within.1 fun same => absurd same different
  cases call with
  | read => exact other (sysRead_within small) (by decide)
  | write => exact other (sysWrite_within small) (by decide)
  | fstat => exact other (sysFstat_within small) (by decide)
  | pipe => exact other (sysPipe_within small) (by decide)
  | exec => exact other (sysExec_within small) (by decide)
  | connect => exact other (sysConnect_within small) (by decide)
  | send => exact other (sysSend_within small) (by decide)
  | recv =>
    rw [← sysRecv_within_iff small]
    exact ⟨fun below _ => ⟨below, fun _ _ => trivial⟩, fun within => (within rfl).1⟩

/-- A kernel of which only the sockets matter, and in which nobody is woken. -/
def Kernel.ofSockets (myproc : Proc) (world : Socket.World Proc) : Kernel Proc where
  ofile _ := none
  typed := []
  pipealloc := none
  found _ := false
  image := none
  present _ := false
  myproc := myproc
  world := world
  woken := none

/-- The client has sent a message, and the server receives eight bytes at
address 32 of its 64. -/
theorem user_accesses_below_of_room :
    ∃ (trace : List (Socket.World (Fin 3) × Socket.Label (Fin 3))) (world : Socket.World (Fin 3)),
      Socket.SockRun trace world ∧
        trace.map Prod.snd = Socket.handshake ++ [.call 1 (.send 127 Socket.messageAb 4)] ∧
        Socket.RecvStack (Socket.argumentImage 10 32 8 []) 10 32 8 ∧
        .store 39 0 ∈ Call.recv.accesses (Socket.argumentImage 10 32 8 [])
          (.ofSockets 0 world) ∧
        ∀ access ∈ Call.recv.accesses (Socket.argumentImage 10 32 8 []) (.ofSockets 0 world),
          access.addr < (Socket.argumentImage 10 32 8 []).sz := by
  refine LabelledRun.exists_run_of_test (fun _ world => .store 39 0 ∈
    Call.recv.accesses (Socket.argumentImage 10 32 8 []) (.ofSockets 0 world)) (by decide +kernel)
    fun _ world _ _ stores => ⟨by decide +kernel, stores, ?_⟩
  apply (user_accesses_below_iff (Socket.argumentImage 10 32 8 []) (by decide)
    (.ofSockets 0 world) .recv).mpr
  intro _ port buf n _ hasBuf hasLength _
  have pointer : (Socket.argumentImage 10 32 8 []).argptr 1 4 = some 32 := by decide +kernel
  have length : (Socket.argumentImage 10 32 8 []).argint 2 = some 8 := by decide +kernel
  obtain rfl := Option.some.inj (pointer.symm.trans hasBuf)
  obtain rfl := Option.some.inj (length.symm.trans hasLength)
  exact .inr (by decide)

/-- The server receives eight bytes at address 60 of its 64: the check passes,
and a byte is stored at address 64. -/
theorem recv_stores_outside :
    ∃ (trace : List (Socket.World (Fin 3) × Socket.Label (Fin 3))) (world : Socket.World (Fin 3)),
      Socket.SockRun trace world ∧
        trace.map Prod.snd = Socket.handshake ++ [.call 1 (.send 127 Socket.messageAb 4)] ∧
        Socket.RecvStack (Socket.argumentImage 10 60 8 []) 10 60 8 ∧
        (Socket.argumentImage 10 60 8 []).sz = 64 ∧
        .store 64 0 ∈ Call.recv.accesses (Socket.argumentImage 10 60 8 [])
          (.ofSockets 0 world) :=
  LabelledRun.exists_run_of_decide (by decide +kernel)

end UserAccess

end Xv6
