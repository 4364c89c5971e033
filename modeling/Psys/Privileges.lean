import Mathlib.Logic.Function.Basic
import Mathlib.Tactic.IntervalCases
import Psys.Bits
import Psys.State

/-!
The descriptors of `processor_structs.c` and what the processor reads off them:
which segments a program may use, and which software interrupts take it into the
kernel. A descriptor is a number of 64 bits.
-/
namespace Psys.Privileges
open Psys.State (ulong)

def SZ_32 : Nat := 0x4
def SZ_G : Nat := 0x8
def ACC_TASK_GATE : Nat := 0x05
def ACC_TSS : Nat := 0x09
def ACC_DATA_W : Nat := 0x12
def ACC_CODE_R : Nat := 0x1a
def ACC_PL_K : Nat := 0x00
def ACC_PL_U : Nat := 0x60
def ACC_P : Nat := 0x80

def BASE_TSS : Nat := 0x08
def KERNEL_CS : Nat := 0x10
def KERNEL_DS : Nat := 0x18
def USER_CS : Nat := 0x43
def USER_DS : Nat := 0x4b
def TRAP_TSS_BASE : Nat := 0x50
def HANDLER_ENTRIES : Nat := 32
/-- `sizeof(struct x86_tss)` -/
def TSS_SIZE : Nat := 104

/-- A table of descriptors, by index. -/
abbrev Table := Nat → Nat

def fillDescriptor (addr limit access sizebits : Nat) : Nat :=
  let large := limit > 0xfffff
  let sizebits := if large then sizebits ||| SZ_G else sizebits
  let limit := if large then limit >>> 12 else limit
  let p0 := (limit &&& 0xffff) + ulong ((addr &&& 0xffff) <<< 16)
  let p1 := (addr >>> 16) &&& 0xff
  let p1 := p1 ||| ((access ||| ACC_P) &&& 0xff) <<< 8
  let p1 := p1 ||| (limit &&& 0xf0000)
  let p1 := p1 ||| (sizebits &&& 0xf) <<< 20
  let p1 := p1 ||| (addr &&& 0xff000000)
  p1 <<< 32 ||| p0

def fillGate (offset selector access wordCount : Nat) : Nat :=
  let p0 := (offset &&& 0xffff) ||| selector <<< 16
  let p1 := wordCount &&& 0xf
  let p1 := p1 ||| (access ||| ACC_P) <<< 8
  let p1 := p1 ||| (offset &&& 0xffff0000)
  p1 <<< 32 ||| p0

def fillInterrupt (vector selector address DPL : Nat) (idt : Table) : Table :=
  let p0 := (address &&& 0xffff) ||| selector <<< 16
  let p1 := (address &&& 0xffff0000) ||| 0x8e00 ||| (DPL &&& 3) <<< 13
  Function.update idt vector (p1 <<< 32 ||| p0)

/-- The loop of `setup_gdt` over the tasks of the handlers. -/
def fillTasks (trapTss : Nat) : Nat → Table → Table
  | 0, gdt => gdt
  | i + 1, gdt => Function.update (fillTasks trapTss i gdt) (i + TRAP_TSS_BASE / 8)
      (fillDescriptor (trapTss + i * TSS_SIZE) (TSS_SIZE - 1) (ACC_PL_K ||| ACC_TSS ||| ACC_P) 0)

/-- `setup_gdt`, with the addresses of `tss` and `trap_tss`. -/
def setupGdt (tss trapTss : Nat) : Table :=
  let gdt : Table := fun _ => 0
  let gdt := Function.update gdt (BASE_TSS / 8) (fillDescriptor tss (TSS_SIZE - 1) (ACC_PL_K ||| ACC_TSS ||| ACC_P) 0)
  let gdt := Function.update gdt (KERNEL_CS / 8) (fillDescriptor 0 0xffffffff (ACC_PL_K ||| ACC_CODE_R) SZ_32)
  let gdt := Function.update gdt (KERNEL_DS / 8) (fillDescriptor 0 0xffffffff (ACC_PL_K ||| ACC_DATA_W) SZ_32)
  let gdt := Function.update gdt (USER_CS / 8) (fillDescriptor 0 0xffffffff (ACC_PL_U ||| ACC_CODE_R) SZ_32)
  let gdt := Function.update gdt (USER_DS / 8) (fillDescriptor 0 0xffffffff (ACC_PL_U ||| ACC_DATA_W) SZ_32)
  fillTasks trapTss HANDLER_ENTRIES gdt

/-- The loop of `setup_idt`. -/
def fillGates : Nat → Table → Table
  | 0, idt => idt
  | i + 1, idt => Function.update (fillGates i idt) i
      (fillGate 0 (TRAP_TSS_BASE + 8 * i) (ACC_TASK_GATE + if i = 3 then 0x60 else 0) 0)

/-- `setup_idt` -/
def setupIdt : Table := fillGates HANDLER_ENTRIES (fun _ => 0)

/-- A call of `fill_interrupt`. -/
structure Call where
  vector : Nat
  address : Nat
  DPL : Nat

/-- The calls of `kernel_start`, `console_init` and `context_init`, with the
    addresses of `int49`, `pfault`, `int33` and `int32`. -/
def calls (int49 pfault int33 int32 : Nat) : List Call :=
  [⟨49,int49,3⟩,⟨0x0d,pfault,0⟩,⟨0x0e,pfault,0⟩,⟨33,int33,0⟩,⟨32,int32,0⟩]

def Call.run (idt : Table) (call : Call) : Table := fillInterrupt call.vector KERNEL_CS call.address call.DPL idt

/-- `tss_sel_2_tss` of `debugger.c` -/
def tssSel2Tss (gdt : Table) (sel : Nat) : Nat :=
  let pdesc := gdt (sel >>> 3)
  (ulong (pdesc >>> 16) &&& 0xffffff) + (pdesc >>> 56) <<< 24

/-! ### What the processor reads -/

def base (d : Nat) : Nat := d / 2 ^ 16 % 2 ^ 24 + d / 2 ^ 56 % 256 * 2 ^ 24
def limit (d : Nat) : Nat :=
  let pages := d % 2 ^ 16 + d / 2 ^ 48 % 16 * 2 ^ 16
  if d / 2 ^ 55 % 2 = 1 then pages * 4096 + 4095 else pages
/-- The access byte: the type, bit 4 for segments, the privilege level and bit 7
    for presence. -/
def access (d : Nat) : Nat := d / 2 ^ 40 % 256
def dpl (d : Nat) : Nat := access d / 32 % 4
def offset (d : Nat) : Nat := d % 2 ^ 16 + d / 2 ^ 48 * 2 ^ 16
def selector (d : Nat) : Nat := d / 2 ^ 16 % 2 ^ 16

/-- Where an interrupt leads. -/
inductive Target where
  | fault (vector : Nat)
  | gate (selector offset : Nat)
  | task (selector : Nat)
deriving DecidableEq

/-- `int n` at a privilege level, through gates of 32 bits and task gates. -/
def software (idt : Table) (cpl n : Nat) : Target :=
  let d := idt n
  if access d % 32 ≠ 5 ∧ access d % 32 ≠ 14 ∧ access d % 32 ≠ 15 then .fault 13
  else if dpl d < cpl then .fault 13
  else if access d / 128 = 0 then .fault 11
  else if access d % 32 = 5 then .task (selector d)
  else .gate (selector d) (offset d)

/-- Whether the access byte of a descriptor lets a far jump or call with a selector
    through. -/
def jumps (byte cpl sel : Nat) : Bool :=
  -- no local table
  if sel / 4 % 2 = 1 ∨ sel / 8 = 0 then false
  else if byte / 128 = 0 then false
  else if byte / 16 % 2 = 0 then
    -- call gates, task gates and tasks
    (byte % 16 = 4 ∨ byte % 16 = 5 ∨ byte % 16 = 9 ∨ byte % 16 = 12) ∧ cpl ≤ byte / 32 % 4 ∧ sel % 4 ≤ byte / 32 % 4
  else if byte / 8 % 2 = 0 then false
  else if byte / 4 % 2 = 1 then byte / 32 % 4 ≤ cpl
  else sel % 4 ≤ cpl ∧ byte / 32 % 4 = cpl

/-- Whether it lets the selector be loaded into a data segment register. -/
def loads (byte cpl sel : Nat) : Bool :=
  if sel / 4 = 0 then true
  else if sel / 4 % 2 = 1 then false
  else if byte / 128 = 0 ∨ byte / 16 % 2 = 0 then false
  else if byte / 8 % 2 = 1 ∧ byte / 2 % 2 = 0 then false
  else if byte / 8 % 2 = 1 ∧ byte / 4 % 2 = 1 then true
  else cpl ≤ byte / 32 % 4 ∧ sel % 4 ≤ byte / 32 % 4

def mayJump (gdt : Table) (cpl sel : Nat) : Bool := jumps (access (gdt (sel / 8))) cpl sel

def mayLoad (gdt : Table) (cpl sel : Nat) : Bool := loads (access (gdt (sel / 8))) cpl sel

variable {a b c d e addr limit acc : Nat}

/-! ### Fields -/

theorem high_word (small : a < 2 ^ 8) (small' : b < 2 ^ 8) (small₂ : c < 2 ^ 4) (small₃ : d < 2 ^ 4) :
    a ||| b * 2 ^ 8 ||| c * 2 ^ 16 ||| d * 2 ^ 20 ||| e * 2 ^ 24 =
      a + b * 2 ^ 8 + c * 2 ^ 16 + d * 2 ^ 20 + e * 2 ^ 24 := by
  rw [Bits.or_add b small,Bits.or_add (k := 16) c (by omega),Bits.or_add (k := 20) d (by omega),
    Bits.or_add (k := 24) e (by omega)]

theorem two_words (small : a < 2 ^ 32) : b <<< 32 ||| a = a + b * 2 ^ 32 := by
  rw [Nat.or_comm,Nat.shiftLeft_eq,Bits.or_add b small]

theorem low_half (x : Nat) : x &&& 0xffff = x % 2 ^ 16 := Nat.and_two_pow_sub_one_eq_mod x 16

/-- The limit that a descriptor holds, and its size bits. -/
def pages (limit : Nat) : Nat := if limit > 0xfffff then limit >>> 12 else limit
def bits (limit sizebits : Nat) : Nat := if limit > 0xfffff then sizebits ||| SZ_G else sizebits

theorem fillDescriptor_eq (sizebits : Nat) (small : addr < 2 ^ 32) :
    fillDescriptor addr limit acc sizebits =
      (pages limit % 2 ^ 16 + addr % 2 ^ 16 * 2 ^ 16) +
        (addr / 2 ^ 16 % 2 ^ 8 + (acc ||| ACC_P) % 2 ^ 8 * 2 ^ 8 + pages limit / 2 ^ 16 % 2 ^ 4 * 2 ^ 16 +
          bits limit sizebits % 2 ^ 4 * 2 ^ 20 + addr / 2 ^ 24 * 2 ^ 24) * 2 ^ 32 := by
  have byte : ∀ x, x &&& 0xff = x % 2 ^ 8 := fun x => Nat.and_two_pow_sub_one_eq_mod x 8
  have nibble : ∀ x, x &&& 0xf = x % 2 ^ 4 := fun x => Nat.and_two_pow_sub_one_eq_mod x 4
  have field : ∀ x, x &&& 0xf0000 = x / 2 ^ 16 % 2 ^ 4 * 2 ^ 16 := fun x => Bits.and_field x 4 16
  have top : addr &&& 0xff000000 = addr / 2 ^ 24 * 2 ^ 24 := Bits.and_high 8 24 small
  have shift : ulong ((addr % 2 ^ 16) <<< 16) = addr % 2 ^ 16 * 2 ^ 16 := by
    rw [Nat.shiftLeft_eq]
    exact Nat.mod_eq_of_lt (by omega)
  simp only [fillDescriptor]
  rw [← pages,← bits,low_half,low_half,byte,byte,nibble,field,top,shift,Nat.shiftLeft_eq ((acc ||| ACC_P) % 2 ^ 8),
    Nat.shiftLeft_eq (bits limit sizebits % 2 ^ 4),Nat.shiftRight_eq_div_pow,
    high_word (by omega) (by omega) (by omega) (by omega),two_words (by omega)]

theorem fillGate_eq {offset selector wordCount : Nat} (small : offset < 2 ^ 32) (small' : selector < 2 ^ 16)
    (word : wordCount < 2 ^ 4) (byte : acc < 2 ^ 7) :
    fillGate offset selector acc wordCount =
      (offset % 2 ^ 16 + selector * 2 ^ 16) +
        (wordCount + (acc ||| ACC_P) * 2 ^ 8 + offset / 2 ^ 16 * 2 ^ 16) * 2 ^ 32 := by
  have nibble : wordCount &&& 0xf = wordCount := by
    rw [show (0xf : Nat) = 2 ^ 4 - 1 from rfl,Nat.and_two_pow_sub_one_eq_mod,Nat.mod_eq_of_lt word]
  have top : offset &&& 0xffff0000 = offset / 2 ^ 16 * 2 ^ 16 := Bits.and_high 16 16 small
  have present : acc ||| ACC_P < 2 ^ 8 := Nat.or_lt_two_pow (by omega) (by decide)
  simp only [fillGate]
  rw [low_half,nibble,top,Nat.shiftLeft_eq (acc ||| ACC_P),Nat.shiftLeft_eq selector,Bits.or_add selector (by omega),
    Bits.or_add (k := 8) (acc ||| ACC_P) (by omega),Bits.or_add (k := 16) (offset / 2 ^ 16) (by omega),two_words (by omega)]

theorem dpl_bits {address DPL : Nat} (less : DPL < 4) :
    address / 2 ^ 16 * 2 ^ 16 ||| 0x8e00 ||| DPL <<< 13 = 0x8e00 + DPL * 2 ^ 13 + address / 2 ^ 16 * 2 ^ 16 := by
  have low : 0x8e00 ||| DPL <<< 13 = 0x8e00 + DPL * 2 ^ 13 := by
    interval_cases DPL <;> rfl
  rw [Nat.or_assoc,low,Nat.or_comm,Bits.or_add (k := 16) (address / 2 ^ 16) (by omega)]

theorem fillInterrupt_self {vector selector address DPL : Nat} (idt : Table) (small : address < 2 ^ 32)
    (small' : selector < 2 ^ 16) (less : DPL < 4) :
    fillInterrupt vector selector address DPL idt vector =
      (address % 2 ^ 16 + selector * 2 ^ 16) + (0x8e00 + DPL * 2 ^ 13 + address / 2 ^ 16 * 2 ^ 16) * 2 ^ 32 := by
  have top : address &&& 0xffff0000 = address / 2 ^ 16 * 2 ^ 16 := Bits.and_high 16 16 small
  have level : DPL &&& 3 = DPL := by
    rw [show (3 : Nat) = 2 ^ 2 - 1 from rfl,Nat.and_two_pow_sub_one_eq_mod,Nat.mod_eq_of_lt less]
  simp only [fillInterrupt]
  rw [Function.update_self,low_half,Nat.shiftLeft_eq selector,Bits.or_add selector (by omega),top,level,dpl_bits less,
    two_words (by omega)]

/-! ### Reading them back -/

/-- A descriptor by its fields: the limit in two parts, the address in three, the
    access byte and the size. -/
def joined (a b c d e f g : Nat) : Nat :=
  (a + b * 2 ^ 16) + (c + d * 2 ^ 8 + e * 2 ^ 16 + f * 2 ^ 20 + g * 2 ^ 24) * 2 ^ 32

theorem joined_fields {f g : Nat} (_ : a < 2 ^ 16) (_ : b < 2 ^ 16) (_ : c < 2 ^ 8) (_ : d < 2 ^ 8) (_ : e < 2 ^ 4)
    (_ : f < 2 ^ 4) (_ : g < 2 ^ 8) :
    base (joined a b c d e f g) = b + c * 2 ^ 16 + g * 2 ^ 24 ∧ access (joined a b c d e f g) = d ∧
      Privileges.limit (joined a b c d e f g) =
        (if f / 8 = 1 then (a + e * 2 ^ 16) * 4096 + 4095 else a + e * 2 ^ 16) ∧
      joined a b c d e f g < 2 ^ 64 := by
  refine ⟨?_,?_,?_,?_⟩
  · rw [base,joined]
    omega
  · rw [access,joined]
    omega
  · have grain : joined a b c d e f g / 2 ^ 55 % 2 = f / 8 := by
      rw [joined]
      omega
    have low : joined a b c d e f g % 2 ^ 16 = a := by
      rw [joined]
      omega
    have high : joined a b c d e f g / 2 ^ 48 % 16 = e := by
      rw [joined]
      omega
    rw [Privileges.limit,grain,low,high]
  · rw [joined]
    omega

theorem fillDescriptor_joined (limit acc sizebits : Nat) (small : addr < 2 ^ 32) :
    fillDescriptor addr limit acc sizebits =
      joined (pages limit % 2 ^ 16) (addr % 2 ^ 16) (addr / 2 ^ 16 % 2 ^ 8) ((acc ||| ACC_P) % 2 ^ 8)
        (pages limit / 2 ^ 16 % 2 ^ 4) (bits limit sizebits % 2 ^ 4) (addr / 2 ^ 24) := fillDescriptor_eq sizebits small

/-- A descriptor has the address and the access that it was made with. Limits
    below 1 MB are exact, larger ones go up to the end of the page. -/
theorem fillDescriptor_fields {sizebits : Nat} (acc : Nat) (small : addr < 2 ^ 32) (small' : limit < 2 ^ 32)
    (plain : sizebits < 8) :
    base (fillDescriptor addr limit acc sizebits) = addr ∧
      access (fillDescriptor addr limit acc sizebits) = (acc ||| ACC_P) % 2 ^ 8 ∧
      Privileges.limit (fillDescriptor addr limit acc sizebits) =
        (if limit > 0xfffff then limit / 4096 * 4096 + 4095 else limit) ∧
      fillDescriptor addr limit acc sizebits < 2 ^ 64 := by
  obtain ⟨address,byte,length,whole⟩ := @joined_fields (pages limit % 2 ^ 16) (addr % 2 ^ 16) (addr / 2 ^ 16 % 2 ^ 8)
    ((acc ||| ACC_P) % 2 ^ 8) (pages limit / 2 ^ 16 % 2 ^ 4) (bits limit sizebits % 2 ^ 4) (addr / 2 ^ 24)
    (by omega) (by omega) (by omega) (by omega) (by omega) (by omega) (by omega)
  rw [← fillDescriptor_joined limit acc sizebits small] at address byte length whole
  refine ⟨?_,byte,?_,whole⟩
  · rw [address]
    omega
  · have grains : sizebits ||| SZ_G = sizebits + 8 := Bits.or_add (k := 3) 1 (by omega)
    rw [length,pages,bits]
    by_cases large : limit > 0xfffff
    · simp only [if_pos large,grains,Nat.shiftRight_eq_div_pow]
      rw [if_pos (by omega)]
      omega
    · simp only [if_neg large]
      rw [if_neg (by omega)]
      omega

theorem base_word {d : Nat} (small : d < 2 ^ 64) : (d / 2 ^ 16 % 4294967296) % 2 ^ 24 + d / 2 ^ 56 * 2 ^ 24 = base d := by
  have word : d / 2 ^ 16 % 4294967296 % 2 ^ 24 = d / 2 ^ 16 % 2 ^ 24 := by omega
  have byte : d / 2 ^ 56 % 256 = d / 2 ^ 56 := by omega
  rw [base,word,byte]

theorem base_bytes {d : Nat} (small : d < 2 ^ 64) : (ulong (d >>> 16) &&& 0xffffff) + (d >>> 56) <<< 24 = base d := by
  have low : ulong (d >>> 16) &&& 0xffffff = d / 2 ^ 16 % 4294967296 % 2 ^ 24 := by
    rw [show (0xffffff : Nat) = 2 ^ 24 - 1 by simp,Nat.and_two_pow_sub_one_eq_mod,ulong,Nat.shiftRight_eq_div_pow]
  have high : (d >>> 56) <<< 24 = d / 2 ^ 56 * 2 ^ 24 := by
    rw [Nat.shiftLeft_eq,Nat.shiftRight_eq_div_pow]
  rw [low,high,base_word small]

theorem tssSel2Tss_eq {gdt : Table} {sel : Nat} (small : gdt (sel / 8) < 2 ^ 64) :
    tssSel2Tss gdt sel = base (gdt (sel / 8)) := by
  have eighth : sel >>> 3 = sel / 8 := Nat.shiftRight_eq_div_pow sel 3
  unfold tssSel2Tss
  rw [eighth]
  exact base_bytes small

/-! ### The tables -/

/-- The descriptor of the task of a handler. -/
def taskOf (trapTss i : Nat) : Nat :=
  fillDescriptor (trapTss + i * TSS_SIZE) (TSS_SIZE - 1) (ACC_PL_K ||| ACC_TSS ||| ACC_P) 0

/-- The gate to the task of a handler. -/
def gateOf (i : Nat) : Nat := fillGate 0 (TRAP_TSS_BASE + 8 * i) (ACC_TASK_GATE + if i = 3 then 0x60 else 0) 0

theorem fillTasks_eq (trapTss n : Nat) (gdt : Table) (i : Nat) :
    fillTasks trapTss n gdt i = if 10 ≤ i ∧ i < 10 + n then taskOf trapTss (i - 10) else gdt i := by
  have first : TRAP_TSS_BASE / 8 = 10 := rfl
  induction n with
  | zero => rw [fillTasks,if_neg (by omega)]
  | succ n hyp =>
    rw [fillTasks,first]
    by_cases here : i = n + 10
    · rw [here,if_pos (by omega),Nat.add_sub_cancel]
      exact Function.update_self _ _ _
    · rw [Function.update_of_ne here,hyp]
      by_cases before : 10 ≤ i ∧ i < 10 + n
      · rw [if_pos before,if_pos (by omega)]
      · rw [if_neg before,if_neg (by omega)]

theorem fillGates_eq (n : Nat) (idt : Table) (i : Nat) : fillGates n idt i = if i < n then gateOf i else idt i := by
  induction n with
  | zero => rw [fillGates,if_neg (by omega)]
  | succ n hyp =>
    rw [fillGates,← gateOf]
    by_cases here : i = n
    · rw [here,Function.update_self,if_pos (by omega)]
    · rw [Function.update_of_ne here,hyp]
      by_cases before : i < n
      · rw [if_pos before,if_pos (by omega)]
      · rw [if_neg before,if_neg (by omega)]

/-- The entries of the table of segments. -/
theorem setupGdt_eq (tss trapTss i : Nat) :
    setupGdt tss trapTss i =
      if 10 ≤ i ∧ i < 42 then taskOf trapTss (i - 10)
      else if i = 9 then 0x00CFF2000000FFFF
      else if i = 8 then 0x00CFFA000000FFFF
      else if i = 3 then 0x00CF92000000FFFF
      else if i = 2 then 0x00CF9A000000FFFF
      else if i = 1 then fillDescriptor tss (TSS_SIZE - 1) (ACC_PL_K ||| ACC_TSS ||| ACC_P) 0
      else 0 := by
  have selectors : USER_DS / 8 = 9 ∧ USER_CS / 8 = 8 ∧ KERNEL_DS / 8 = 3 ∧ KERNEL_CS / 8 = 2 ∧ BASE_TSS / 8 = 1 ∧
      10 + HANDLER_ENTRIES = 42 := by decide
  have segments : fillDescriptor 0 0xffffffff (ACC_PL_U ||| ACC_DATA_W) SZ_32 = 0x00CFF2000000FFFF ∧
      fillDescriptor 0 0xffffffff (ACC_PL_U ||| ACC_CODE_R) SZ_32 = 0x00CFFA000000FFFF ∧
      fillDescriptor 0 0xffffffff (ACC_PL_K ||| ACC_DATA_W) SZ_32 = 0x00CF92000000FFFF ∧
      fillDescriptor 0 0xffffffff (ACC_PL_K ||| ACC_CODE_R) SZ_32 = 0x00CF9A000000FFFF := by decide +kernel
  simp only [setupGdt]
  rw [fillTasks_eq]
  simp only [Function.update_apply,selectors,segments]

theorem access_task {d addr : Nat} (small : addr < 2 ^ 32)
    (task : d = fillDescriptor addr (TSS_SIZE - 1) (ACC_PL_K ||| ACC_TSS ||| ACC_P) 0) : access d = 0x89 := by
  rw [task,(fillDescriptor_fields _ small (by decide) (by decide)).2.1]
  rfl

/-- Every descriptor is a task of the kernel, absent, or one of four segments. -/
theorem setupGdt_access {tss trapTss : Nat} (small : tss < 2 ^ 32) (small' : trapTss + HANDLER_ENTRIES * TSS_SIZE < 2 ^ 32)
    (i : Nat) :
    access (setupGdt tss trapTss i) =
      if i = 9 then 0xF2 else if i = 8 then 0xFA else if i = 3 then 0x92 else if i = 2 then 0x9A
      else if i = 1 ∨ 10 ≤ i ∧ i < 42 then 0x89 else 0 := by
  have sizes : HANDLER_ENTRIES * TSS_SIZE = 3328 ∧ TSS_SIZE = 104 := ⟨rfl,rfl⟩
  rw [setupGdt_eq]
  by_cases task : 10 ≤ i ∧ i < 42
  · rw [if_pos task,if_neg (by omega),if_neg (by omega),if_neg (by omega),if_neg (by omega),if_pos (by omega)]
    exact access_task (by rw [sizes.2]; omega) rfl
  · rw [if_neg task]
    split
    · rfl
    split
    · rfl
    split
    · rfl
    split
    · rfl
    split
    next one =>
      rw [if_pos (Or.inl one)]
      exact access_task small rfl
    next other =>
      rw [if_neg (by omega)]
      rfl

/-- The entries of the table of interrupts once the kernel has started. -/
def started (int49 pfault int33 int32 : Nat) : Table := (calls int49 pfault int33 int32).foldl Call.run setupIdt

theorem started_eq (int49 pfault int33 int32 n : Nat) :
    started int49 pfault int33 int32 n =
      if n = 32 then fillInterrupt 32 KERNEL_CS int32 0 setupIdt 32
      else if n = 33 then fillInterrupt 33 KERNEL_CS int33 0 setupIdt 33
      else if n = 0x0e then fillInterrupt 0x0e KERNEL_CS pfault 0 setupIdt 0x0e
      else if n = 0x0d then fillInterrupt 0x0d KERNEL_CS pfault 0 setupIdt 0x0d
      else if n = 49 then fillInterrupt 49 KERNEL_CS int49 3 setupIdt 49
      else if n < 32 then gateOf n else 0 := by
  simp only [started,calls,List.foldl,Call.run,fillInterrupt,Function.update_apply]
  rw [setupIdt,fillGates_eq]
  rfl

/-- A gate of `fill_interrupt`, as the processor reads it. -/
theorem interrupt_fields {vector address DPL : Nat} (small : address < 2 ^ 32) (less : DPL < 4) :
    access (fillInterrupt vector KERNEL_CS address DPL setupIdt vector) = 0x8e + 32 * DPL ∧
    selector (fillInterrupt vector KERNEL_CS address DPL setupIdt vector) = KERNEL_CS ∧
    offset (fillInterrupt vector KERNEL_CS address DPL setupIdt vector) = address := by
  have cs : KERNEL_CS = 0x10 := rfl
  rw [fillInterrupt_self setupIdt small (by decide) less]
  refine ⟨?_,?_,?_⟩
  · rw [access]
    omega
  · rw [selector]
    omega
  · rw [offset]
    omega

theorem gate_fields {i : Nat} (less : i < 32) :
    access (gateOf i) = (if i = 3 then 0xe5 else 0x85) ∧ selector (gateOf i) = TRAP_TSS_BASE + 8 * i := by
  have first : TRAP_TSS_BASE = 0x50 := rfl
  have present : (ACC_TASK_GATE + if i = 3 then 0x60 else 0) ||| ACC_P = if i = 3 then 0xe5 else 0x85 := by
    split <;> rfl
  have byte : (ACC_TASK_GATE + if i = 3 then 0x60 else 0) < 2 ^ 7 := by
    split <;> decide
  rw [gateOf,fillGate_eq (by omega) (by omega) (by omega) byte,present]
  constructor
  · rw [access]
    split <;> omega
  · rw [selector]
    split <;> omega

/-- A program enters the kernel through `int 3`, which leads to the task of a
    handler, and `int 49`, which leads to `int49`. Every other software interrupt
    is a protection fault. -/
theorem software_started {int49 pfault int33 int32 : Nat} (small : int49 < 2 ^ 32) (small' : pfault < 2 ^ 32)
    (small₂ : int33 < 2 ^ 32) (small₃ : int32 < 2 ^ 32) (n : Nat) :
    software (started int49 pfault int33 int32) 3 n =
      if n = 3 then .task (TRAP_TSS_BASE + 24) else if n = 49 then .gate KERNEL_CS int49 else .fault 13 := by
  have closed : ∀ vector address, address < 2 ^ 32 →
      started int49 pfault int33 int32 n = fillInterrupt vector KERNEL_CS address 0 setupIdt vector →
      software (started int49 pfault int33 int32) 3 n = .fault 13 := by
    intro vector address less entry
    obtain ⟨byte,_,_⟩ := @interrupt_fields vector address 0 less (by omega)
    rw [software,entry]
    simp only [byte,dpl]
    rfl
  rw [show (if n = 3 then Target.task (TRAP_TSS_BASE + 24) else if n = 49 then .gate KERNEL_CS int49 else .fault 13) =
    if n = 49 then .gate KERNEL_CS int49 else if n = 3 then .task (TRAP_TSS_BASE + 24) else .fault 13 by
      by_cases three : n = 3
      · simp [three]
      · simp [three]]
  have entry := started_eq int49 pfault int33 int32 n
  by_cases clock : n = 32
  · rw [if_pos clock] at entry
    rw [closed _ _ small₃ entry,if_neg (by omega),if_neg (by omega)]
  rw [if_neg clock] at entry
  by_cases keyboard : n = 33
  · rw [if_pos keyboard] at entry
    rw [closed _ _ small₂ entry,if_neg (by omega),if_neg (by omega)]
  rw [if_neg keyboard] at entry
  by_cases page : n = 0x0e
  · rw [if_pos page] at entry
    rw [closed _ _ small' entry,if_neg (by omega),if_neg (by omega)]
  rw [if_neg page] at entry
  by_cases protection : n = 0x0d
  · rw [if_pos protection] at entry
    rw [closed _ _ small' entry,if_neg (by omega),if_neg (by omega)]
  rw [if_neg protection] at entry
  by_cases call : n = 49
  · rw [if_pos call] at entry
    obtain ⟨byte,sel,off⟩ := @interrupt_fields 49 int49 3 small (by omega)
    rw [if_pos call,software,entry]
    simp only [byte,dpl,sel,off]
    rfl
  rw [if_neg call] at entry
  rw [if_neg call,software,entry]
  by_cases handler : n < 32
  · obtain ⟨byte,sel⟩ := gate_fields handler
    simp only [if_pos handler,dpl,byte,sel]
    by_cases three : n = 3
    · simp only [if_pos three]
      rw [three]
      rfl
    · simp only [if_neg three]
      rfl
  · simp only [if_neg handler]
    rw [show (if n = 3 then Target.task (TRAP_TSS_BASE + 24) else .fault 13) = .fault 13 from if_neg (by omega)]
    rfl

variable {tss trapTss : Nat}

/-- Only the code of programs is open to a jump of a program. -/
theorem mayJump_user (small : tss < 2 ^ 32) (small' : trapTss + HANDLER_ENTRIES * TSS_SIZE < 2 ^ 32) (sel : Nat) :
    mayJump (setupGdt tss trapTss) 3 sel = true ↔ sel / 4 = 16 := by
  have byte := setupGdt_access small small' (sel / 8)
  rw [mayJump,byte]
  by_cases user : sel / 8 = 8
  · rw [if_neg (by omega),if_pos user,jumps]
    by_cases table : sel / 4 % 2 = 1
    · rw [if_pos (Or.inl table)]
      exact iff_of_false (by decide) (by omega)
    · rw [if_neg (by omega)]
      exact iff_of_true (by simp; omega) (by omega)
  · refine iff_of_false ?_ (by omega)
    split_ifs <;> simp [jumps]

/-- Only the two segments of programs, and none, are open to a load of a program. -/
theorem mayLoad_user (small : tss < 2 ^ 32) (small' : trapTss + HANDLER_ENTRIES * TSS_SIZE < 2 ^ 32) (sel : Nat) :
    mayLoad (setupGdt tss trapTss) 3 sel = true ↔ sel / 4 = 0 ∨ sel / 4 = 16 ∨ sel / 4 = 18 := by
  have byte := setupGdt_access small small' (sel / 8)
  rw [mayLoad,byte,loads]
  by_cases none : sel / 4 = 0
  · rw [if_pos none]
    exact iff_of_true rfl (Or.inl none)
  rw [if_neg none]
  by_cases table : sel / 4 % 2 = 1
  · rw [if_pos table]
    exact iff_of_false (by simp) (by omega)
  rw [if_neg table]
  by_cases data : sel / 8 = 9
  · rw [if_pos data]
    exact iff_of_true (by simp; omega) (by omega)
  by_cases code : sel / 8 = 8
  · rw [if_neg data,if_pos code]
    exact iff_of_true (by simp; omega) (by omega)
  · rw [if_neg data,if_neg code]
    refine iff_of_false ?_ (by omega)
    generalize kernel : ite (sel / 8 = 3) 0x92 _ = found
    have level : found = 0x92 ∨ found = 0x9A ∨ found = 0x89 ∨ found = 0 := by
      rw [← kernel]
      split_ifs <;> simp
    rcases level with rfl | rfl | rfl | rfl <;> simp

/-- A selector of a handler's task leads `tss_sel_2_tss` to that task. -/
theorem tssSel2Tss_handler (small' : trapTss + HANDLER_ENTRIES * TSS_SIZE < 2 ^ 32) {i : Nat} (less : i < HANDLER_ENTRIES) :
    tssSel2Tss (setupGdt tss trapTss) (TRAP_TSS_BASE + 8 * i) = trapTss + i * TSS_SIZE := by
  have sizes : HANDLER_ENTRIES = 32 ∧ TSS_SIZE = 104 ∧ TRAP_TSS_BASE = 0x50 := ⟨rfl,rfl,rfl⟩
  have index : (TRAP_TSS_BASE + 8 * i) / 8 = 10 + i := by omega
  have address : trapTss + i * TSS_SIZE < 2 ^ 32 := by
    rw [sizes.1,sizes.2.1] at small'
    rw [sizes.2.1]
    omega
  obtain ⟨start,_,_,whole⟩ := @fillDescriptor_fields (trapTss + i * TSS_SIZE) (TSS_SIZE - 1) 0
    (ACC_PL_K ||| ACC_TSS ||| ACC_P) address (by decide) (by decide)
  have entry : setupGdt tss trapTss (10 + i) = taskOf trapTss i := by
    rw [setupGdt_eq,if_pos (by omega),Nat.add_sub_cancel_left]
  rw [tssSel2Tss_eq (by rw [index,entry]; exact whole),index,entry]
  exact start

/-- What a program itself can do to get into the kernel, exceptions and interrupts
    of devices aside, wherever the kernel's tables and handlers are: software
    interrupts lead to the task of the debugger or to `int49`, no jump or call
    changes the level, and no segment but the two of programs, which are flat, can
    be loaded. The debugger finds the task of each handler through its selector. -/
theorem kernel_entries {int49 pfault int33 int32 : Nat} (small : tss < 2 ^ 32)
    (small' : trapTss + HANDLER_ENTRIES * TSS_SIZE < 2 ^ 32)
    (addresses : ∀ address ∈ [int49,pfault,int33,int32], address < 2 ^ 32) :
    (∀ n, software (started int49 pfault int33 int32) 3 n =
      if n = 3 then .task (TRAP_TSS_BASE + 24) else if n = 49 then .gate KERNEL_CS int49 else .fault 13) ∧
    (∀ sel, mayJump (setupGdt tss trapTss) 3 sel = true ↔ sel / 4 = USER_CS / 4) ∧
    (∀ sel, mayLoad (setupGdt tss trapTss) 3 sel = true ↔ sel / 4 = 0 ∨ sel / 4 = USER_CS / 4 ∨ sel / 4 = USER_DS / 4) ∧
    (∀ sel ∈ [KERNEL_CS,KERNEL_DS,USER_CS,USER_DS], base (setupGdt tss trapTss (sel / 8)) = 0 ∧
      Privileges.limit (setupGdt tss trapTss (sel / 8)) = 0xffffffff) ∧
    (∀ i < HANDLER_ENTRIES, selector (setupIdt i) = TRAP_TSS_BASE + 8 * i ∧
      tssSel2Tss (setupGdt tss trapTss) (selector (setupIdt i)) = trapTss + i * TSS_SIZE) := by
  simp only [List.forall_mem_cons] at addresses
  obtain ⟨first,second,third,fourth,_⟩ := addresses
  refine ⟨software_started first second third fourth,mayJump_user small small',mayLoad_user small small',?_,?_⟩
  · have flat : ∀ d, d = 0x00CFF2000000FFFF ∨ d = 0x00CFFA000000FFFF ∨ d = 0x00CF92000000FFFF ∨
        d = 0x00CF9A000000FFFF → base d = 0 ∧ Privileges.limit d = 0xffffffff := by
      rintro d (rfl | rfl | rfl | rfl) <;> exact ⟨rfl,rfl⟩
    intro sel segment
    refine flat _ ?_
    rw [setupGdt_eq]
    simp only [List.mem_cons,List.not_mem_nil,or_false] at segment
    rcases segment with rfl | rfl | rfl | rfl <;> simp [KERNEL_CS,KERNEL_DS,USER_CS,USER_DS]
  · intro i less
    have gate : setupIdt i = gateOf i := by
      rw [setupIdt,fillGates_eq,if_pos less]
    rw [gate,(gate_fields less).2]
    exact ⟨rfl,tssSel2Tss_handler small' less⟩

/-- With the kernel at 1 MB. -/
theorem kernel_entries_low :
    software (started 0x101000 0x101100 0x101200 0x101300) 3 49 = .gate KERNEL_CS 0x101000 ∧
      mayLoad (setupGdt 0x104000 0x105000) 3 KERNEL_DS = false := by
  obtain ⟨interrupts,_,loads,_⟩ := @kernel_entries 0x104000 0x105000 0x101000 0x101100 0x101200 0x101300
    (by decide) (by decide) (by decide)
  exact ⟨interrupts 49,Bool.eq_false_iff.mpr fun load => absurd ((loads KERNEL_DS).mp load) (by decide)⟩

end Psys.Privileges
