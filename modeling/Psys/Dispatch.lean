import Mathlib.Data.List.Induction
import Mathlib.Data.UInt

/-!
The entry of system calls: `int49` chooses a handler by the range that `eax`
lies in, and the handler calls an entry of its table. The tables are sparse
arrays that end after their largest index, and no handler looks at the bound.
-/
namespace Psys.Dispatch
universe u

/-! ### Arrays of designated initialisers -/

section Designated
variable {α : Type u}

/-- The array after one more initialiser `[index] = value`. It grows to hold
    the index, and new entries are zero. -/
def initialise (table : List (Option α)) (entry : Nat × α) : List (Option α) :=
  (table ++ List.replicate (entry.1 + 1 - table.length) none).set entry.1 (some entry.2)

/-- The array of a list of designated initialisers. -/
def designated (entries : List (Nat × α)) : List (Option α) := entries.foldl initialise []

theorem initialise_here (table : List (Option α)) (entry : Nat × α) :
    (initialise table entry)[entry.1]? = some (some entry.2) := by
  have inside : entry.1 < (table ++ List.replicate (entry.1 + 1 - table.length) (none : Option α)).length := by
    simp only [List.length_append,List.length_replicate]
    omega
  unfold initialise
  rw [List.getElem?_set_self inside]

theorem initialise_elsewhere (table : List (Option α)) (entry : Nat × α) (i : Nat) (other : i ≠ entry.1) (f : α) :
    (initialise table entry)[i]? = some (some f) ↔ table[i]? = some (some f) := by
  unfold initialise
  rw [List.getElem?_set_ne (Ne.symm other),List.getElem?_append]
  by_cases inside : i < table.length
  · rw [if_pos inside]
  · rw [if_neg inside,List.getElem?_replicate,List.getElem?_eq_none (not_lt.mp inside)]
    split <;> simp

/-- A table holds exactly its initialisers when no index is given twice. -/
theorem designated_entry (entries : List (Nat × α)) (once : (entries.map Prod.fst).Nodup) (i : Nat) (f : α) :
    (designated entries)[i]? = some (some f) ↔ (i,f) ∈ entries := by
  induction entries using List.reverseRecOn with
  | nil => simp [designated]
  | append_singleton before last ih =>
    rw [List.map_append,List.nodup_append] at once
    obtain ⟨distinct,_,apart⟩ := once
    have step : designated (before ++ [last]) = initialise (designated before) last := by simp [designated]
    rw [step,List.mem_append,List.mem_singleton]
    by_cases here : i = last.1
    · subst here
      have fresh : (last.1,f) ∉ before := by
        intro earlier
        exact apart last.1 (List.mem_map.mpr ⟨_,earlier,rfl⟩) last.1 (by simp) rfl
      rw [initialise_here]
      constructor
      · intro same
        cases same
        exact .inr rfl
      · rintro (earlier | now)
        · exact absurd earlier fresh
        · rw [← now]
    · rw [initialise_elsewhere _ _ _ here,ih distinct]
      constructor
      · exact .inl
      · rintro (earlier | now)
        · exact earlier
        · exact absurd (congrArg Prod.fst now) here

end Designated

/-! ### The system calls -/

/-- The functions of `syscalls.h` and `sig_return`. -/
inductive Routine where
  | currentClock | getpid | getppid | reboot | contextPs | semInfo | clear | sigReturn
  | exit | kill | waitClock | getprio | wait | tryWait | signal | scount | sdelete | consEcho | screate | usleep
  | open | close | chdir | setStdout
  | waitpid | chprio | signaln | consRead | consWrite | clockSettings | consIoctl | sreset | buzzerBeep | fstat
  | signalSend | sigaction | getcwd
  | read | write | readdir
  | start
  deriving DecidableEq

/-- The number of parameters in the prototype of a function. -/
def Routine.arity : Routine → Nat
  | .currentClock | .getpid | .getppid | .reboot | .contextPs | .semInfo | .clear | .sigReturn => 0
  | .exit | .kill | .waitClock | .getprio | .wait | .tryWait | .signal | .scount | .sdelete | .consEcho | .screate
  | .usleep | .open | .close | .chdir | .setStdout => 1
  | .waitpid | .chprio | .signaln | .consRead | .consWrite | .clockSettings | .consIoctl | .sreset | .buzzerBeep
  | .fstat | .signalSend | .sigaction | .getcwd => 2
  | .read | .write | .readdir => 3
  | .start => 5

/-- The initialisers of `syscalls_0`. `SYSCALL_CLOCK`, 0x00, is not among them. -/
def entries0 : List (Nat × Routine) :=
  [(0x03,.currentClock),(0x01,.getpid),(0x02,.getppid),(0x04,.reboot),(0x05,.contextPs),(0x06,.semInfo),
   (0x07,.clear),(0x08,.sigReturn)]

/-- The initialisers of `syscalls_1`. -/
def entries1 : List (Nat × Routine) :=
  [(0x21,.exit),(0x22,.kill),(0x28,.waitClock),(0x26,.getprio),(0x29,.wait),(0x2d,.tryWait),(0x27,.signal),
   (0x23,.scount),(0x25,.sdelete),(0x20,.consEcho),(0x24,.screate),(0x2a,.usleep),(0x2b,.open),(0x2c,.close),
   (0x2e,.chdir),(0x2f,.setStdout)]

/-- The initialisers of `syscalls_2`. -/
def entries2 : List (Nat × Routine) :=
  [(0x46,.waitpid),(0x40,.chprio),(0x44,.signaln),(0x42,.consRead),(0x43,.consWrite),(0x41,.clockSettings),
   (0x47,.consIoctl),(0x45,.sreset),(0x48,.buzzerBeep),(0x49,.fstat),(0x4b,.signalSend),(0x4c,.sigaction),
   (0x4a,.getcwd)]

/-- The initialisers of `syscalls_3`. -/
def entries3 : List (Nat × Routine) := [(0x60,.read),(0x61,.write),(0x62,.readdir)]

/-- The initialisers of `syscalls_5`. -/
def entries5 : List (Nat × Routine) := [(0xa0,.start)]

/-- The system calls registered in the tables, with their numbers. -/
def registered : List (Nat × Routine) := entries0 ++ entries1 ++ entries2 ++ entries3 ++ entries5

/-! ### The code -/

/-- The registers that `int49` reads. -/
structure Registers where
  eax : UInt32
  ebx : UInt32
  ecx : UInt32
  edx : UInt32
  esi : UInt32
  edi : UInt32

/-- What a handler does between its two writes to `in_syscall`. -/
inductive Jump where
  /-- A call of a function of the table. -/
  | called (f : Routine) (args : List UInt32)
  /-- A call through an empty entry. -/
  | empty
  /-- A call of whatever the word at that index past the end of the table names. -/
  | outside (index : Nat)
  | nothing
  deriving DecidableEq

/-- A handler at work: `in_syscall` while it calls and after it. -/
structure Service where
  inSyscall : UInt32
  jump : Jump
  after : UInt32
  deriving DecidableEq

/-- `syscalls_N[code]` called with arguments. -/
def callEntry (table : List (Option Routine)) (code : UInt32) (args : List UInt32) : Jump :=
  match table[code.toNat]? with
  | some (some f) => .called f args
  | some none => .empty
  | none => .outside code.toNat

/-- What the handlers that call something have in common. -/
def serve (entries : List (Nat × Routine)) (code : UInt32) (args : List UInt32) : Service :=
  ⟨code,callEntry (designated entries) code args,0xff⟩

/-- `syscall_handler0` -/
def syscallHandler0 (code : UInt32) : Service := serve entries0 code []
/-- `syscall_handler1` -/
def syscallHandler1 (code arg1 : UInt32) : Service := serve entries1 code [arg1]
/-- `syscall_handler2` -/
def syscallHandler2 (code arg1 arg2 : UInt32) : Service := serve entries2 code [arg1,arg2]
/-- `syscall_handler3` -/
def syscallHandler3 (code arg1 arg2 arg3 : UInt32) : Service := serve entries3 code [arg1,arg2,arg3]
/-- `syscall_handler4` has no table and leaves `in_syscall` as it is. -/
def syscallHandler4 (inSyscall : UInt32) : Service := ⟨inSyscall,.nothing,inSyscall⟩
/-- `syscall_handler5` -/
def syscallHandler5 (code arg1 arg2 arg3 arg4 arg5 : UInt32) : Service :=
  serve entries5 code [arg1,arg2,arg3,arg4,arg5]

/-- `int49`, entered with a value of `in_syscall`. -/
def int49 (inSyscall : UInt32) (r : Registers) : Service :=
  if r.eax < 0x20 then syscallHandler0 r.eax
  else if r.eax < 0x40 then syscallHandler1 r.eax r.ebx
  else if r.eax < 0x60 then syscallHandler2 r.eax r.ebx r.ecx
  else if r.eax < 0x70 then syscallHandler3 r.eax r.ebx r.ecx r.edx
  else if r.eax < 0x80 then syscallHandler4 inSyscall
  else syscallHandler5 r.eax r.ebx r.ecx r.edx r.esi r.edi

/-- `is_in_syscall` -/
def isInSyscall (inSyscall code : UInt32) : Bool := inSyscall == code

/-! ### Which numbers are dispatched well -/

/-- A function of the tables is called with as many arguments as it takes, or
    nothing is called. -/
def Jump.Sound : Jump → Prop
  | .called f args => (∃ code, (code,f) ∈ registered) ∧ args.length = f.arity
  | .empty => False
  | .outside _ => False
  | .nothing => True

/-- The number of a system call. -/
def Registered (eax : UInt32) : Prop := ∃ f, (eax.toNat,f) ∈ registered

theorem registered_iff (eax : UInt32) : eax.toNat ∈ registered.map Prod.fst ↔ Registered eax := by
  rw [List.mem_map]
  constructor
  · rintro ⟨⟨code,f⟩,listed,same⟩
    exact ⟨f,same ▸ listed⟩
  · rintro ⟨f,listed⟩
    exact ⟨_,listed,rfl⟩

instance (eax : UInt32) : Decidable (Registered eax) := decidable_of_iff _ (registered_iff eax)

/-- The numbers that `int49` gives to `syscall_handler4`. -/
def Reserved (eax : UInt32) : Prop := 0x70 ≤ eax ∧ eax < 0x80

/-- A call through a table is sound when the number is one of its indices and
    its functions take the arguments passed. -/
theorem callEntry_sound (entries : List (Nat × Routine)) (once : (entries.map Prod.fst).Nodup)
    (known : ∀ e ∈ entries, e ∈ registered) (code : UInt32) (args : List UInt32)
    (arity : ∀ e ∈ entries, e.2.arity = args.length) :
    (callEntry (designated entries) code args).Sound ↔ ∃ f, (code.toNat,f) ∈ entries := by
  have entry := designated_entry entries once code.toNat
  unfold callEntry
  constructor
  · intro sound
    split at sound
    · exact ⟨_,(entry _).mp ‹_›⟩
    · exact absurd sound id
    · exact absurd sound id
  · rintro ⟨f,listed⟩
    rw [(entry f).mpr listed]
    exact ⟨⟨_,known _ listed⟩,(arity _ listed).symm⟩

/-- The initialisers of the table that a number is looked up in. -/
def chosen (code : Nat) : List (Nat × Routine) :=
  if code < 0x20 then entries0
  else if code < 0x40 then entries1
  else if code < 0x60 then entries2
  else if code < 0x70 then entries3
  else if code < 0x80 then []
  else entries5

/-- Every number is registered in the table that `int49` looks it up in. -/
theorem registered_chosen : ∀ e ∈ registered, e ∈ chosen e.1 := by decide

theorem chosen_once (code : Nat) : ((chosen code).map Prod.fst).Nodup := by
  unfold chosen
  repeat' split
  all_goals decide

theorem chosen_registered (code : Nat) : ∀ e ∈ chosen code, e ∈ registered := by
  unfold chosen
  repeat' split
  all_goals decide

/-! Each table holds functions of one number of parameters. -/

theorem entries0_arity : ∀ e ∈ entries0, e.2.arity = 0 := by decide
theorem entries1_arity : ∀ e ∈ entries1, e.2.arity = 1 := by decide
theorem entries2_arity : ∀ e ∈ entries2, e.2.arity = 2 := by decide
theorem entries3_arity : ∀ e ∈ entries3, e.2.arity = 3 := by decide
theorem entries5_arity : ∀ e ∈ entries5, e.2.arity = 5 := by decide

/-- `int49` does nothing for a reserved number; for the others it looks the
    number up in one table, with as many arguments as the table's functions
    take. -/
theorem int49_cases (inSyscall : UInt32) (r : Registers) :
    (Reserved r.eax ∧ int49 inSyscall r = syscallHandler4 inSyscall) ∨
      (¬ Reserved r.eax ∧ ∃ args, int49 inSyscall r = serve (chosen r.eax.toNat) r.eax args ∧
        ∀ e ∈ chosen r.eax.toNat, e.2.arity = args.length) := by
  have reserved : Reserved r.eax ↔ 0x70 ≤ r.eax.toNat ∧ r.eax.toNat < 0x80 := Iff.rfl
  unfold int49 chosen
  simp only [reserved,UInt32.lt_iff_toNat_lt,UInt32.toNat_ofNat,Nat.reducePow,Nat.reduceMod]
  by_cases zero : r.eax.toNat < 0x20
  · simp only [zero,if_true]
    exact .inr ⟨by omega,_,rfl,entries0_arity⟩
  by_cases one : r.eax.toNat < 0x40
  · simp only [zero,one,if_true,if_false]
    exact .inr ⟨by omega,_,rfl,entries1_arity⟩
  by_cases two : r.eax.toNat < 0x60
  · simp only [zero,one,two,if_true,if_false]
    exact .inr ⟨by omega,_,rfl,entries2_arity⟩
  by_cases three : r.eax.toNat < 0x70
  · simp only [zero,one,two,three,if_true,if_false]
    exact .inr ⟨by omega,_,rfl,entries3_arity⟩
  by_cases four : r.eax.toNat < 0x80
  · simp only [zero,one,two,three,four,if_true,if_false]
    exact .inl ⟨⟨not_lt.mp three,trivial⟩,trivial⟩
  · simp only [zero,one,two,three,four,if_false]
    exact .inr ⟨by simp,_,rfl,entries5_arity⟩

/-- A call through a table calls what the table lists. -/
theorem callEntry_called (entries : List (Nat × Routine)) (once : (entries.map Prod.fst).Nodup) (code : UInt32)
    (args : List UInt32) {f : Routine} {given : List UInt32}
    (called : callEntry (designated entries) code args = .called f given) : (code.toNat,f) ∈ entries := by
  unfold callEntry at called
  split at called
  case h_1 g entry =>
    cases called
    exact (designated_entry entries once _ _).mp entry
  all_goals exact absurd called (by simp)

/-- A handler that calls a function has stored the number, which is
    registered, and will store `0xff`. -/
theorem int49_called {inSyscall : UInt32} {r : Registers} {f : Routine} {given : List UInt32}
    (called : (int49 inSyscall r).jump = .called f given) :
    (int49 inSyscall r).inSyscall = r.eax ∧ (int49 inSyscall r).after = 0xff ∧ (r.eax.toNat,f) ∈ registered := by
  rcases int49_cases inSyscall r with ⟨_,idle⟩ | ⟨_,args,same,_⟩
  · rw [idle] at called
    exact absurd called (by simp [syscallHandler4])
  · rw [same] at called ⊢
    have listed := callEntry_called _ (chosen_once _) _ _ called
    exact ⟨rfl,rfl,chosen_registered _ _ listed⟩

/-- `int49` calls a registered function with its number of arguments, or
    nothing, exactly for the registered numbers and those of the handler that
    does nothing. -/
theorem int49_sound (inSyscall : UInt32) (r : Registers) :
    (int49 inSyscall r).jump.Sound ↔ Registered r.eax ∨ Reserved r.eax := by
  rcases int49_cases inSyscall r with ⟨reserved,same⟩ | ⟨free,args,same,arity⟩
  · rw [same]
    constructor
    · intro _
      exact .inr reserved
    · intro _
      exact trivial
  · have sound := callEntry_sound _ (chosen_once _) (chosen_registered _) r.eax args arity
    rw [same]
    constructor
    · intro called
      obtain ⟨f,listed⟩ := sound.mp called
      exact .inl ⟨f,chosen_registered _ _ listed⟩
    · rintro (⟨f,listed⟩ | reserved)
      · exact sound.mpr ⟨f,registered_chosen _ listed⟩
      · exact absurd reserved free

/-- `SYSCALL_CLOCK` has a number and no function. -/
theorem int49_unsound : ¬ ∀ inSyscall r, (int49 inSyscall r).jump.Sound := by
  intro all
  exact absurd (all 0 ⟨0x00,0,0,0,0,0⟩) (by
    have jump : (int49 0 ⟨0x00,0,0,0,0,0⟩).jump = .empty := by decide
    rw [jump]
    exact id)

end Psys.Dispatch
