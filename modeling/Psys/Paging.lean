import Mathlib.Logic.Function.Basic
import Mathlib.Data.List.GetD
import Mathlib.Tactic.IntervalCases
import Psys.Bits
import Psys.State

/-!
The page tables that `setup_pgtab` of `crt0.S` makes, the translation that the
processor reads off them, and the copies that `gdb_serial_support.c` makes
through the page tables of the program that it debugs. Memory is bytes.
-/
namespace Psys.Paging
open Psys.State (USER_SPACE Mapped ulong)

abbrev Memory := Nat → UInt8

/-- The word at an address, lowest byte first. -/
def wordAt (mem : Memory) (a : Nat) : Nat :=
  (mem a).toNat + 256 * (mem (a + 1)).toNat + 65536 * (mem (a + 2)).toNat + 16777216 * (mem (a + 3)).toNat

def writeWord (mem : Memory) (a w : Nat) : Memory :=
  Function.update (Function.update (Function.update (Function.update mem a (UInt8.ofNat w)) (a + 1) (UInt8.ofNat (w / 256)))
    (a + 2) (UInt8.ofNat (w / 65536))) (a + 3) (UInt8.ofNat (w / 16777216))

/-! ### `crt0.S` -/

def PGDIR : Nat := 0x101000
def PGTAB : Nat := 0x102000
/-- The addresses of the page directory and of the page tables. -/
def Tables (a : Nat) : Prop := PGDIR ≤ a ∧ a < 0x10E000
instance (a : Nat) : Decidable (Tables a) := inferInstanceAs (Decidable (_ ∧ _))

/-- The words at `pgdir`. -/
def pgdir : List Nat :=
  [0x102003,0x103003,0x104003,0x105003,0x106007,0x107007,0x108007,0x109007,0x10a007,0x10b007,0x10c007,0x10d007] ++
    List.replicate 1012 0

/-- The kernel is in memory. -/
def Loaded (mem : Memory) : Prop := ∀ i < 1024, wordAt mem (PGDIR + 4 * i) = pgdir.getD i 0

/-- The loops of `setup_pgtab`, with `%edx`, `%eax` and `%edi`. -/
def fill : Nat → Memory → Nat → Nat → Memory × Nat × Nat
  | 0, mem, eax, edi => (mem,eax,edi)
  | edx + 1, mem, eax, edi => fill edx (writeWord mem eax edi) (eax + 4) (edi + 0x1000)

/-- `setup_pgtab`, up to the end of its second loop. -/
def setupPgtab (mem : Memory) : Memory :=
  let kernel := fill (4 * 1024 - 1) (writeWord mem PGTAB 0) (PGTAB + 4) 0x1007
  (fill (8 * 1024) kernel.1 kernel.2.1 kernel.2.2).1

/-- Paging is enabled in `cr0`. -/
def PG : Nat := 0x80000000

/-! ### `gdb_serial_support.c` -/

def lin2pdenum (a : Nat) : Nat := (a >>> 22) &&& 0x3ff
def lin2ptenum (a : Nat) : Nat := (a >>> 12) &&& 0x3ff
def pdeToPa (p : Nat) : Nat := p &&& 0xfffff000
def pteToPa (p : Nat) : Nat := p &&& 0xfffff000
def truncSuperpage (x : Nat) : Nat := x &&& 0xffc00000

/-- The registers that `copy_client_paging_registers` keeps. -/
structure Client where
  cr0 : Nat
  cr3 : Nat
  word : cr3 < 4294967296

/-- `phys_addr_lookup`: a physical address and the size of the rest of its
    page. Without a page the size is 0, and no address is written. -/
def physAddrLookup (mem : Memory) (client : Client) (vaddr : Nat) : Nat × Nat :=
  let pd := pdeToPa client.cr3
  let pde := wordAt mem (pd + 4 * lin2pdenum vaddr)
  if client.cr0 &&& PG = 0 then (vaddr,0xffffffff)
  else if pde &&& 1 = 0 then (0,0)
  else if pde &&& 0x80 = 0 then
    let pt := pdeToPa pde
    let pte := wordAt mem (pt + 4 * lin2ptenum vaddr)
    let offs := vaddr &&& 0xfff
    if pte &&& 1 = 0 then (0,0) else (pteToPa pte + offs,0x1000 - offs)
  else
    let offs := vaddr &&& 0x3fffff
    (truncSuperpage pde + offs,0x400000 - offs)

/-- The bytes that `memcpy` reads. -/
def bytesAt (mem : Memory) (a : Nat) (n : Nat) : List UInt8 := (List.range n).map (fun i => mem (ulong (a + i)))

/-- The bytes that `memcpy` writes. -/
def storeAt (mem : Memory) (a : Nat) : List UInt8 → Memory
  | [] => mem
  | b :: bs => storeAt (Function.update mem (ulong a) b) (a + 1) bs

/-- The loop of `gdb_copyin`; what it has copied, and whether it succeeds. Every
    turn copies a byte at least. -/
def copyinLoop (mem : Memory) (client : Client) : Nat → Nat → Nat → List UInt8 × Bool
  | 0, _, _ => ([],true)
  | turns + 1, srcVa, size =>
    if size = 0 then ([],true)
    else
      let (pa,len) := physAddrLookup mem client srcVa
      if len = 0 then ([],false)
      else
        let sz := if len > size then size else len
        let rest := copyinLoop mem client turns (ulong (srcVa + sz)) (size - sz)
        (bytesAt mem pa sz ++ rest.1,rest.2)

/-- `gdb_copyin` -/
def gdbCopyin (mem : Memory) (client : Client) (srcVa size : Nat) : List UInt8 × Bool :=
  copyinLoop mem client size srcVa size

/-- The loop of `gdb_copyout`. -/
def copyoutLoop (client : Client) : Nat → Memory → List UInt8 → Nat → Memory × Bool
  | 0, mem, _, _ => (mem,true)
  | turns + 1, mem, src, destVa =>
    if src.length = 0 then (mem,true)
    else
      let (pa,len) := physAddrLookup mem client destVa
      if len = 0 then (mem,false)
      else
        let sz := if len > src.length then src.length else len
        copyoutLoop client turns (storeAt mem pa (src.take sz)) (src.drop sz) (ulong (destVa + sz))

/-- `gdb_copyout` -/
def gdbCopyout (mem : Memory) (client : Client) (src : List UInt8) (destVa : Nat) : Memory × Bool :=
  copyoutLoop client src.length mem src destVa

/-! ### What the processor does -/

inductive Mode where
  | kernel
  | user
deriving DecidableEq

/-- Whether an entry lets an access through: bit 0 is presence, bit 1 allows
    programs to write, bit 2 allows them access at all. -/
def lets (mode : Mode) (writes : Bool) (entry : Nat) : Bool :=
  match mode with
  | .kernel => entry % 2 == 1
  | .user => entry % 2 == 1 && entry / 4 % 2 == 1 && (!writes || entry / 2 % 2 == 1)

/-- The translation of a virtual address by the page tables at `cr3`. -/
def translate (mem : Memory) (cr3 : Nat) (mode : Mode) (writes : Bool) (va : Nat) : Option Nat :=
  let pde := wordAt mem (cr3 / 4096 * 4096 + 4 * (va / 4194304))
  if lets mode writes pde = false then none
  else if pde / 128 % 2 = 1 then some (pde / 4194304 * 4194304 + va % 4194304)
  else
    let pte := wordAt mem (pde / 4096 * 4096 + 4 * (va / 4096 % 1024))
    if lets mode writes pte = false then none else some (pte / 4096 * 4096 + va % 4096)

/-- A translation with or without paging. -/
def resolve (mem : Memory) (client : Client) (va : Nat) : Option Nat :=
  if client.cr0 &&& PG = 0 then some va else translate mem client.cr3 .kernel false va

/-- A copy byte by byte. -/
def copied (mem : Memory) (client : Client) : Nat → Nat → List UInt8 × Bool
  | 0, _ => ([],true)
  | n + 1, va =>
    match resolve mem client va with
    | none => ([],false)
    | some pa =>
      let rest := copied mem client n (ulong (va + 1))
      (mem pa :: rest.1,rest.2)

/-- A byte that the kernel or a program stores at a virtual address. -/
structure Store where
  mode : Mode
  va : Nat
  byte : UInt8
  word : va < 4294967296

/-- A store; what has no translation faults and stores nothing. -/
def store (mem : Memory) (access : Store) : Memory :=
  match translate mem PGDIR access.mode true access.va with
  | none => mem
  | some pa => Function.update mem pa access.byte

/-- The kernel leaves the page directory and the page tables alone. -/
def Store.Spares (access : Store) : Prop := access.mode = .kernel → ¬ Tables access.va

variable {mem mem' : Memory} {client : Client} {a b va w : Nat}

/-! ### Words and masks -/

theorem address_lt (x : Nat) : ulong x < 4294967296 := Nat.mod_lt _ (by decide)

theorem wordAt_lt (mem : Memory) (a : Nat) : wordAt mem a < 4294967296 := by
  have zero := (mem a).toNat_lt
  have one := (mem (a + 1)).toNat_lt
  have two := (mem (a + 2)).toNat_lt
  have three := (mem (a + 3)).toNat_lt
  rw [wordAt]
  omega

theorem wordAt_same (same : ∀ i < 4, mem' (a + i) = mem (a + i)) : wordAt mem' a = wordAt mem a := by
  have zero := same 0 (by omega)
  rw [Nat.add_zero] at zero
  rw [wordAt,wordAt,zero,same 1 (by omega),same 2 (by omega),same 3 (by omega)]

theorem writeWord_self (mem : Memory) (small : w < 4294967296) : wordAt (writeWord mem a w) a = w := by
  simp [wordAt,writeWord]
  omega

theorem writeWord_byte (mem : Memory) (w : Nat) (apart : b < a ∨ a + 4 ≤ b) : writeWord mem a w b = mem b := by
  rw [writeWord,Function.update_of_ne (by omega),Function.update_of_ne (by omega),Function.update_of_ne (by omega),
    Function.update_of_ne (by omega)]

theorem pdeToPa_eq {p : Nat} (small : p < 4294967296) : pdeToPa p = p / 4096 * 4096 := Bits.and_high 20 12 small
theorem pteToPa_eq {p : Nat} (small : p < 4294967296) : pteToPa p = p / 4096 * 4096 := Bits.and_high 20 12 small
theorem truncSuperpage_eq {p : Nat} (small : p < 4294967296) : truncSuperpage p = p / 4194304 * 4194304 :=
  Bits.and_high 10 22 small

theorem lin2pdenum_eq (small : va < 4294967296) : lin2pdenum va = va / 4194304 := by
  have low : lin2pdenum va = (va >>> 22) % 1024 := Nat.and_two_pow_sub_one_eq_mod _ 10
  rw [low,Nat.shiftRight_eq_div_pow]
  omega

theorem lin2ptenum_eq (va : Nat) : lin2ptenum va = va / 4096 % 1024 := by
  have low : lin2ptenum va = (va >>> 12) % 1024 := Nat.and_two_pow_sub_one_eq_mod _ 10
  rw [low,Nat.shiftRight_eq_div_pow]

theorem and_one (x : Nat) : x &&& 1 = 0 ↔ x % 2 = 0 := by simp [Nat.and_one_is_mod]
theorem and_superpage (x : Nat) : x &&& 0x80 = 0 ↔ x / 128 % 2 = 0 := Bits.and_bit x 7

/-- The lookup in the words of the translation. -/
theorem physAddrLookup_eq (mem : Memory) (client : Client) (small : va < 4294967296) :
    physAddrLookup mem client va =
      let pde := wordAt mem (client.cr3 / 4096 * 4096 + 4 * (va / 4194304))
      let pte := wordAt mem (pde / 4096 * 4096 + 4 * (va / 4096 % 1024))
      if client.cr0 &&& PG = 0 then (va,0xffffffff)
      else if pde % 2 = 0 then (0,0)
      else if pde / 128 % 2 = 0 then
        if pte % 2 = 0 then (0,0) else (pte / 4096 * 4096 + va % 4096,4096 - va % 4096)
      else (pde / 4194304 * 4194304 + va % 4194304,4194304 - va % 4194304) := by
  have page : va &&& 0xfff = va % 4096 := Nat.and_two_pow_sub_one_eq_mod va 12
  have superpage : va &&& 0x3fffff = va % 4194304 := Nat.and_two_pow_sub_one_eq_mod va 22
  simp only [physAddrLookup,lin2pdenum_eq small,lin2ptenum_eq,pdeToPa_eq client.word,pdeToPa_eq (wordAt_lt _ _),
    pteToPa_eq (wordAt_lt _ _),truncSuperpage_eq (wordAt_lt _ _),and_one,and_superpage,page,superpage]

/-! ### The lookup and the translation -/

theorem resolve_eq (mem : Memory) (client : Client) (va : Nat) :
    resolve mem client va =
      let pde := wordAt mem (client.cr3 / 4096 * 4096 + 4 * (va / 4194304))
      let pte := wordAt mem (pde / 4096 * 4096 + 4 * (va / 4096 % 1024))
      if client.cr0 &&& PG = 0 then some va
      else if pde % 2 = 0 then none
      else if pde / 128 % 2 = 0 then if pte % 2 = 0 then none else some (pte / 4096 * 4096 + va % 4096)
      else some (pde / 4194304 * 4194304 + va % 4194304) := by
  have bit : ∀ x : Nat, (x % 2 == 1) = false ↔ x % 2 = 0 := by
    intro x
    rw [beq_eq_false_iff_ne]
    omega
  simp only [resolve,translate,lets,bit]
  split
  · rfl
  next paged =>
    split
    · rfl
    next present =>
      by_cases table : wordAt mem (client.cr3 / 4096 * 4096 + 4 * (va / 4194304)) / 128 % 2 = 0
      · rw [if_neg (by omega),if_pos table]
      · rw [if_pos (by omega),if_neg table]

theorem lookup_none (small : va < 4294967296) (none : (physAddrLookup mem client va).2 = 0) :
    resolve mem client va = .none := by
  rw [physAddrLookup_eq mem client small] at none
  rw [resolve_eq]
  simp only at none ⊢
  split at none
  · simp at none
  next paged =>
    rw [if_neg paged]
    split at none
    next absent => rw [if_pos absent]
    next present =>
      rw [if_neg present]
      split at none
      next table =>
        rw [if_pos table]
        split at none
        next absent => rw [if_pos absent]
        next => simp only at none; omega
      next => simp only at none; omega

/-- Where the lookup finds a page, the rest of the page translates to the
    addresses behind the one that it answers. -/
theorem lookup_some {i : Nat} (small : va < 4294967296) (within : i < (physAddrLookup mem client va).2) :
    resolve mem client (ulong (va + i)) = some (ulong ((physAddrLookup mem client va).1 + i)) := by
  have directory := wordAt_lt mem (client.cr3 / 4096 * 4096 + 4 * (va / 4194304))
  have entry := wordAt_lt mem (wordAt mem (client.cr3 / 4096 * 4096 + 4 * (va / 4194304)) / 4096 * 4096 +
    4 * (va / 4096 % 1024))
  rw [physAddrLookup_eq mem client small] at within ⊢
  rw [resolve_eq]
  simp only at within ⊢
  by_cases paged : client.cr0 &&& PG = 0
  · rw [if_pos paged,if_pos paged]
  rw [if_neg paged] at within
  rw [if_neg paged,if_neg paged]
  by_cases present : wordAt mem (client.cr3 / 4096 * 4096 + 4 * (va / 4194304)) % 2 = 0
  · rw [if_pos present] at within
    simp at within
  rw [if_neg present] at within
  rw [if_neg present]
  by_cases table : wordAt mem (client.cr3 / 4096 * 4096 + 4 * (va / 4194304)) / 128 % 2 = 0
  · rw [if_pos table] at within
    rw [if_pos table]
    by_cases there : wordAt mem (wordAt mem (client.cr3 / 4096 * 4096 + 4 * (va / 4194304)) / 4096 * 4096 +
        4 * (va / 4096 % 1024)) % 2 = 0
    · rw [if_pos there] at within
      simp at within
    rw [if_neg there] at within
    rw [if_neg there]
    simp only at within ⊢
    have whole : ulong (va + i) = va + i := Nat.mod_eq_of_lt (by omega)
    have dir : (va + i) / 4194304 = va / 4194304 := by omega
    have page : (va + i) / 4096 = va / 4096 := by omega
    have offs : (va + i) % 4096 = va % 4096 + i := by omega
    rw [whole,dir,page,offs,if_neg present,if_pos table,if_neg there,Nat.add_assoc]
    congr 1
    exact (Nat.mod_eq_of_lt (by omega)).symm
  · rw [if_neg table] at within
    rw [if_neg table]
    simp only at within ⊢
    have whole : ulong (va + i) = va + i := Nat.mod_eq_of_lt (by omega)
    have dir : (va + i) / 4194304 = va / 4194304 := by omega
    have offs : (va + i) % 4194304 = va % 4194304 + i := by omega
    rw [whole,dir,offs,if_neg present,if_neg table,Nat.add_assoc]
    congr 1
    exact (Nat.mod_eq_of_lt (by omega)).symm

/-! ### Copies in -/

theorem copied_append {pa k : Nat} (n : Nat) (small : va < 4294967296)
    (found : ∀ i < k, resolve mem client (ulong (va + i)) = some (ulong (pa + i))) :
    copied mem client (k + n) va =
      (bytesAt mem pa k ++ (copied mem client n (ulong (va + k))).1,(copied mem client n (ulong (va + k))).2) := by
  induction k generalizing va pa with
  | zero =>
    have same : ulong va = va := Nat.mod_eq_of_lt small
    simp [bytesAt,same]
  | succ k hyp =>
    have next : ∀ i, ulong (ulong (va + 1) + i) = ulong (va + (i + 1)) := by
      intro i
      unfold ulong
      omega
    have first := found 0 (by omega)
    rw [Nat.add_zero,Nat.add_zero,show ulong va = va from Nat.mod_eq_of_lt small] at first
    have rest := @hyp (ulong (va + 1)) (pa + 1) (Nat.mod_lt _ (by decide)) (by
      intro i less
      rw [next,found (i + 1) (by omega),show pa + 1 + i = pa + (i + 1) by omega])
    rw [show k + 1 + n = (k + n) + 1 by omega]
    simp only [copied,first]
    rw [rest,next]
    simp only [bytesAt,List.range_succ_eq_map,List.map_cons,List.map_map,Nat.add_zero,List.cons_append]
    congr 3
    apply List.map_congr_left
    intro i _
    simp only [Function.comp]
    rw [show pa + 1 + i = pa + (i + 1) by omega]

theorem copyinLoop_eq (mem : Memory) (client : Client) {turns n : Nat} (enough : n ≤ turns) (small : va < 4294967296) :
    copyinLoop mem client turns va n = copied mem client n va := by
  induction turns generalizing n va with
  | zero =>
    have zero : n = 0 := by omega
    rw [zero]
    rfl
  | succ turns hyp =>
    rw [copyinLoop]
    split
    next zero =>
      rw [zero]
      rfl
    next more =>
      simp only
      split
      next absent =>
        obtain ⟨m,rfl⟩ : ∃ m, n = m + 1 := ⟨n - 1,by omega⟩
        simp only [copied,lookup_none small absent]
      next page =>
        have least : (if (physAddrLookup mem client va).2 > n then n else (physAddrLookup mem client va).2) =
            min (physAddrLookup mem client va).2 n := by split <;> omega
        rw [least]
        have found : ∀ i < min (physAddrLookup mem client va).2 n,
            resolve mem client (ulong (va + i)) = some (ulong ((physAddrLookup mem client va).1 + i)) :=
          fun i less => lookup_some small (by omega)
        have pages := copied_append (n - min (physAddrLookup mem client va).2 n) small found
        rw [show min (physAddrLookup mem client va).2 n + (n - min (physAddrLookup mem client va).2 n) = n by omega] at pages
        have rest := @hyp (ulong (va + min (physAddrLookup mem client va).2 n)) (n - min (physAddrLookup mem client va).2 n)
          (by omega) (address_lt _)
        rw [pages,rest]

/-- A copy in is no longer than it is asked to be. -/
theorem copyinLoop_length (mem : Memory) (client : Client) (turns va n : Nat) :
    (copyinLoop mem client turns va n).1.length ≤ n ∧
      (n ≤ turns → (copyinLoop mem client turns va n).2 = true → (copyinLoop mem client turns va n).1.length = n) := by
  induction turns generalizing va n with
  | zero => exact ⟨Nat.zero_le _,fun less _ => (Nat.le_zero.mp less).symm⟩
  | succ turns hyp =>
    rw [copyinLoop]
    split
    next zero => exact ⟨Nat.zero_le _,fun _ _ => zero.symm⟩
    next more =>
      simp only
      split
      · exact ⟨Nat.zero_le _,by simp⟩
      next page =>
        generalize size : (if (physAddrLookup mem client va).2 > n then n else (physAddrLookup mem client va).2) = k
        have within : 0 < k ∧ k ≤ n := by
          rw [← size]
          split <;> omega
        obtain ⟨less,whole⟩ := hyp (ulong (va + k)) (n - k)
        have first : (bytesAt mem (physAddrLookup mem client va).1 k).length = k := by simp [bytesAt]
        simp only [List.length_append,first]
        exact ⟨by omega,fun enough done => by rw [whole (by omega) done]; omega⟩

/-- `gdb_copyin` copies page by page what a copy byte by byte through the
    client's tables would, and fails where it would. The processor is taken to
    know superpages, for which it wants CR4.PSE. -/
theorem gdbCopyin_bytewise (mem : Memory) (client : Client) (n : Nat) (small : va < 4294967296) :
    gdbCopyin mem client va n = copied mem client n va :=
  copyinLoop_eq mem client (Nat.le_refl n) small

/-- Without paging, around the end of the memory. -/
theorem gdbCopyin_bytewise_real :
    gdbCopyin UInt8.ofNat ⟨0,0,by decide⟩ 0xFFFFFFFF 2 = copied UInt8.ofNat ⟨0,0,by decide⟩ 2 0xFFFFFFFF :=
  gdbCopyin_bytewise UInt8.ofNat ⟨0,0,by decide⟩ 2 (by decide)

/-! ### The tables that `setup_pgtab` makes -/

theorem fill_rest (n : Nat) (mem : Memory) (eax edi : Nat) : (fill n mem eax edi).2 = (eax + 4 * n,edi + 4096 * n) := by
  induction n generalizing mem eax edi with
  | zero => rfl
  | succ n hyp =>
    rw [fill,hyp]
    congr 1 <;> omega

theorem fill_byte (n : Nat) (mem : Memory) (eax edi : Nat) (apart : b < eax ∨ eax + 4 * n ≤ b) :
    (fill n mem eax edi).1 b = mem b := by
  induction n generalizing mem eax edi with
  | zero => rfl
  | succ n hyp =>
    rw [fill,hyp _ _ _ (by omega)]
    exact writeWord_byte mem edi (by omega)

theorem fill_word {n i : Nat} (mem : Memory) (eax edi : Nat) (less : i < n) (small : edi + 4096 * n < 4294967296) :
    wordAt (fill n mem eax edi).1 (eax + 4 * i) = edi + 4096 * i := by
  induction n generalizing mem eax edi i with
  | zero => omega
  | succ n hyp =>
    rw [fill]
    match i with
    | 0 =>
      have kept : wordAt (fill n (writeWord mem eax edi) (eax + 4) (edi + 4096)).1 eax =
          wordAt (writeWord mem eax edi) eax :=
        wordAt_same (fun i _ => fill_byte n _ _ _ (by omega))
      simp only [Nat.mul_zero,Nat.add_zero]
      rw [kept,writeWord_self mem (by omega)]
    | i + 1 =>
      have rest := hyp (writeWord mem eax edi) (eax + 4) (edi + 4096) (show i < n by omega) (by omega)
      rw [show eax + 4 * (i + 1) = eax + 4 + 4 * i by omega,rest]
      omega

/-- What the page table has for a page. -/
def entry (page : Nat) : Nat := if page = 0 then 0 else 4096 * page + 7

/-- The tables are set up. -/
structure SetUp (mem : Memory) : Prop where
  directory : ∀ i < 1024, wordAt mem (PGDIR + 4 * i) = pgdir.getD i 0
  table : ∀ page < 12288, wordAt mem (PGTAB + 4 * page) = entry page

/-- The table after loops of `m` and `n` turns. -/
def filled (m n : Nat) (mem : Memory) : Memory :=
  (fill n (fill m (writeWord mem PGTAB 0) (PGTAB + 4) 0x1007).1 (PGTAB + 4 + 4 * m) (0x1007 + 4096 * m)).1

theorem setupPgtab_eq (mem : Memory) : setupPgtab mem = filled (4 * 1024 - 1) (8 * 1024) mem := by
  rw [setupPgtab,fill_rest,filled]

theorem filled_byte (m n : Nat) (mem : Memory) (apart : b < PGTAB ∨ PGTAB + 4 + 4 * m + 4 * n ≤ b) :
    filled m n mem b = mem b := by
  rw [filled,fill_byte _ _ _ _ (by omega),fill_byte _ _ _ _ (by omega)]
  exact writeWord_byte mem 0 (by omega)

theorem filled_word {m n page : Nat} (mem : Memory) (less : page < 1 + m + n) (small : 1 + m + n < 0x100000) :
    wordAt (filled m n mem) (PGTAB + 4 * page) = entry page := by
  rw [filled]
  by_cases second : m < page
  · have word := fill_word (i := page - (m + 1)) (fill m (writeWord mem PGTAB 0) (PGTAB + 4) 0x1007).1
      (PGTAB + 4 + 4 * m) (0x1007 + 4096 * m) (n := n) (by omega) (by omega)
    rw [show PGTAB + 4 * page = PGTAB + 4 + 4 * m + 4 * (page - (m + 1)) by omega,word,entry,if_neg (by omega)]
    omega
  · rw [wordAt_same (fun i _ => fill_byte _ _ _ _ (by omega))]
    by_cases zero : page = 0
    · rw [zero,wordAt_same (fun i _ => fill_byte _ _ _ _ (by omega)),Nat.mul_zero,Nat.add_zero,
        writeWord_self mem (by decide)]
      rfl
    · have word := fill_word (i := page - 1) (writeWord mem PGTAB 0) (PGTAB + 4) 0x1007 (n := m) (by omega) (by omega)
      rw [show PGTAB + 4 * page = PGTAB + 4 + 4 * (page - 1) by omega,word,entry,if_neg zero]
      omega

theorem setUp_setupPgtab (loaded : Loaded mem) : SetUp (setupPgtab mem) where
  directory := by
    intro i less
    have low : PGTAB = PGDIR + 4096 := rfl
    rw [← loaded i less,setupPgtab_eq]
    exact wordAt_same (fun j _ => filled_byte _ _ mem (by omega))
  table := by
    intro page less
    rw [setupPgtab_eq]
    exact filled_word mem (by omega) (by omega)

theorem pgdir_entry (i : Nat) :
    pgdir.getD i 0 = if i < 4 then 0x102003 + 4096 * i else if i < 12 then 0x102007 + 4096 * i else 0 := by
  by_cases twelve : i < 12
  · interval_cases i <;> rfl
  · rw [if_neg (by omega),if_neg twelve,pgdir,List.getD_append_right _ _ _ _ (by simp; omega),List.getD_eq_getElem?_getD,
      List.getElem?_replicate]
    split <;> rfl

/-- What the directory has for the page tables of the first 48 MB. -/
def directoryEntry (va : Nat) : Nat :=
  if va < USER_SPACE then 0x102003 + 4096 * (va / 4194304) else 0x102007 + 4096 * (va / 4194304)

theorem entry_at (va : Nat) : directoryEntry va / 4096 * 4096 + 4 * (va / 4096 % 1024) = PGTAB + 4 * (va / 4096) := by
  have base : PGTAB = 0x102000 := rfl
  rw [directoryEntry,base]
  split <;> omega

theorem directory_entry (below : va < 0x3000000) : pgdir.getD (va / 4194304) 0 = directoryEntry va := by
  have user : USER_SPACE = 0x1000000 := rfl
  rw [pgdir_entry,directoryEntry]
  by_cases low : va < USER_SPACE
  · rw [if_pos low,if_pos (by omega)]
  · rw [if_neg low,if_neg (by omega),if_pos (by omega)]

theorem directoryEntry_super (va : Nat) : ¬ directoryEntry va / 128 % 2 = 1 := by
  rw [directoryEntry]
  split <;> omega

theorem lets_eq (mode : Mode) (writes : Bool) (entry : Nat) :
    lets mode writes entry = true ↔
      entry % 2 = 1 ∧ (mode = .user → entry / 4 % 2 = 1 ∧ (writes = true → entry / 2 % 2 = 1)) := by
  cases mode <;> cases writes <;> simp [lets,and_assoc]

/-- A translation by the tables, with the entries that they have for the page. -/
theorem translate_entries (tables : SetUp mem) (mode : Mode) (writes : Bool) (below : va < 0x3000000) :
    translate mem PGDIR mode writes va =
      if lets mode writes (directoryEntry va) = false then none
      else if lets mode writes (entry (va / 4096)) = false then none
      else some (entry (va / 4096) / 4096 * 4096 + va % 4096) := by
  have word : wordAt mem (PGDIR / 4096 * 4096 + 4 * (va / 4194304)) = directoryEntry va := by
    rw [show PGDIR / 4096 * 4096 = PGDIR from rfl,tables.directory (va / 4194304) (by omega),directory_entry below]
  rw [translate,word]
  simp only [if_neg (directoryEntry_super va),entry_at,tables.table (va / 4096) (by omega)]

/-- The tables map every page from the second one to 48 MB to itself, the pages
    from 16 MB on for programs too. -/
theorem translate_setUp (tables : SetUp mem) (mode : Mode) (writes : Bool) (small : va < 4294967296) :
    translate mem PGDIR mode writes va =
      match mode with
      | .kernel => if Mapped va then some va else none
      | .user => if USER_SPACE ≤ va ∧ va < 0x3000000 then some va else none := by
  have user : USER_SPACE = 0x1000000 := rfl
  by_cases below : va < 0x3000000
  · rw [translate_entries tables mode writes below]
    by_cases first : va < 0x1000
    · have zero : lets mode writes (entry (va / 4096)) = false := by
        rw [show va / 4096 = 0 by omega,Bool.eq_false_iff,ne_eq,lets_eq]
        simp [entry]
      have outside : ¬ Mapped va := by unfold Mapped; omega
      rw [zero]
      cases mode
      · simp [outside]
      · simp only [if_true,ite_self]
        rw [if_neg (by omega)]
    · have some : entry (va / 4096) = 4096 * (va / 4096) + 7 := if_neg (by omega)
      have present : lets mode writes (entry (va / 4096)) = true := by
        rw [lets_eq,some]
        omega
      have whole : entry (va / 4096) / 4096 * 4096 + va % 4096 = va := by omega
      rw [present,whole]
      cases mode
      · have inside : Mapped va := by unfold Mapped; omega
        have directory : lets .kernel writes (directoryEntry va) = true := by
          rw [lets_eq,directoryEntry]
          split <;> simp <;> omega
        simp [inside,directory]
      · by_cases low : va < USER_SPACE
        · have directory : lets .user writes (directoryEntry va) = false := by
            rw [Bool.eq_false_iff,ne_eq,lets_eq,directoryEntry,if_pos low]
            simp
            omega
          simp only [directory,if_true]
          rw [if_neg (by omega)]
        · have directory : lets .user writes (directoryEntry va) = true := by
            rw [lets_eq,directoryEntry,if_neg low]
            omega
          simp only [directory]
          rw [if_neg (by simp),if_neg (by simp),if_pos (by omega)]
  · have directory := tables.directory (va / 4194304) (by omega)
    rw [pgdir_entry,if_neg (by omega),if_neg (by omega)] at directory
    have none : lets mode writes 0 = false := by
      rw [Bool.eq_false_iff,ne_eq,lets_eq]
      simp
    have outside : ¬ Mapped va := by unfold Mapped; omega
    rw [translate,show PGDIR / 4096 * 4096 = PGDIR from rfl,directory]
    simp only [none,if_true]
    cases mode
    · simp only [if_neg outside]
    · simp only
      rw [if_neg (by omega)]

/-! ### Stores -/

theorem setUp_same (tables : SetUp mem) (same : ∀ a, Tables a → mem' a = mem a) : SetUp mem' where
  directory := by
    intro i less
    rw [← tables.directory i less]
    exact wordAt_same (fun j _ => same _ (by unfold Tables PGDIR; omega))
  table := by
    intro page less
    rw [← tables.table page less]
    exact wordAt_same (fun j _ => same _ (by unfold Tables PGDIR PGTAB; omega))

/-- A store with the tables set up, by the address. -/
theorem store_eq (tables : SetUp mem) (access : Store) :
    store mem access =
      match access.mode with
      | .kernel => if Mapped access.va then Function.update mem access.va access.byte else mem
      | .user =>
        if USER_SPACE ≤ access.va ∧ access.va < 0x3000000 then Function.update mem access.va access.byte else mem := by
  rw [store,translate_setUp tables _ _ access.word]
  cases access.mode
  · by_cases mapped : Mapped access.va
    · simp only [if_pos mapped]
    · simp only [if_neg mapped]
  · by_cases mapped : USER_SPACE ≤ access.va ∧ access.va < 0x3000000
    · simp only [if_pos mapped]
    · simp only [if_neg mapped]

theorem setUp_store {access : Store} (tables : SetUp mem) (spares : access.Spares) : SetUp (store mem access) := by
  refine setUp_same tables (fun a inside => ?_)
  have user : USER_SPACE = 0x1000000 := rfl
  rw [store_eq tables]
  unfold Tables at inside
  cases mode : access.mode with
  | kernel =>
    simp only
    split
    · refine Function.update_of_ne (fun same => ?_) _ _
      exact spares mode (same ▸ inside)
    · rfl
  | user =>
    simp only
    split
    · exact Function.update_of_ne (by omega) _ _
    · rfl

theorem setUp_stores {accesses : List Store} (tables : SetUp mem) (spares : ∀ access ∈ accesses, access.Spares) :
    SetUp (accesses.foldl store mem) := by
  induction accesses generalizing mem with
  | nil => exact tables
  | cons access accesses hyp =>
    exact hyp (setUp_store tables (spares access (by simp))) (fun other there => spares other (by simp [there]))

/-- A program's store leaves the memory of the kernel as it is; a store of the
    kernel does the same to it in memories that agree there. -/
theorem store_below {access : Store} {a : Nat} (tables : SetUp mem) (tables' : SetUp mem')
    (same : ∀ a < USER_SPACE, mem' a = mem a) (below : a < USER_SPACE) :
    store mem access a = if access.mode = .kernel then store mem' access a else mem' a := by
  rw [store_eq tables,store_eq tables']
  cases access.mode with
  | kernel =>
    simp only [if_true]
    split
    · by_cases there : a = access.va
      · rw [there,Function.update_self,Function.update_self]
      · rw [Function.update_of_ne there,Function.update_of_ne there,same a below]
    · exact (same a below).symm
  | user =>
    simp only [reduceCtorEq,if_false]
    split
    · rw [Function.update_of_ne (by omega),same a below]
    · exact (same a below).symm

theorem stores_below {accesses : List Store} (tables : SetUp mem) (tables' : SetUp mem')
    (spares : ∀ access ∈ accesses, access.Spares) (same : ∀ a < USER_SPACE, mem' a = mem a) :
    ∀ a < USER_SPACE, accesses.foldl store mem a = (accesses.filter (·.mode = .kernel)).foldl store mem' a := by
  induction accesses generalizing mem mem' with
  | nil => exact fun a below => (same a below).symm
  | cons access accesses hyp =>
    have rest := fun other there => spares other (List.mem_cons_of_mem access there)
    have spared := spares access (by simp)
    by_cases kernel : access.mode = .kernel
    · rw [List.filter_cons_of_pos (by simpa using kernel)]
      refine hyp (setUp_store tables spared) (setUp_store tables' spared) rest (fun a below => ?_)
      rw [store_below tables tables' same below,if_pos kernel]
    · rw [List.filter_cons_of_neg (by simpa using kernel)]
      refine hyp (setUp_store tables spared) tables' rest (fun a below => ?_)
      rw [store_below tables tables' same below,if_neg kernel]

/-- Whatever programs store, the memory of the kernel is as the kernel's own
    stores make it, the kernel reaches exactly what is mapped, and programs reach
    exactly the memory from 16 MB to 48 MB. -/
theorem protection {accesses : List Store} (loaded : Loaded mem) (spares : ∀ access ∈ accesses, access.Spares) :
    (∀ a < USER_SPACE, accesses.foldl store (setupPgtab mem) a =
      (accesses.filter (·.mode = .kernel)).foldl store (setupPgtab mem) a) ∧
    ∀ writes, ∀ va < 4294967296,
      translate (accesses.foldl store (setupPgtab mem)) PGDIR .kernel writes va = (if Mapped va then some va else none) ∧
      translate (accesses.foldl store (setupPgtab mem)) PGDIR .user writes va =
        if USER_SPACE ≤ va ∧ va < 0x3000000 then some va else none := by
  have tables := setUp_setupPgtab loaded
  have after := setUp_stores tables spares
  exact ⟨stores_below tables tables spares (fun _ _ => rfl),
    fun writes va small => ⟨translate_setUp after .kernel writes small,translate_setUp after .user writes small⟩⟩

/-- The memory with the page directory of `crt0.S`. -/
def image : Memory := fun a => UInt8.ofNat (pgdir.getD ((a - PGDIR) / 4) 0 / 256 ^ ((a - PGDIR) % 4))

theorem loaded_image : Loaded image := by
  intro i less
  have small : pgdir.getD i 0 < 4294967296 := by
    rw [pgdir_entry]
    split
    · omega
    · split <;> omega
  have byte : ∀ j < 4, image (PGDIR + 4 * i + j) = UInt8.ofNat (pgdir.getD i 0 / 256 ^ j) := by
    intro j low
    rw [image,show (PGDIR + 4 * i + j - PGDIR) / 4 = i by omega,show (PGDIR + 4 * i + j - PGDIR) % 4 = j by omega]
  have zero := byte 0 (by omega)
  rw [Nat.add_zero] at zero
  rw [wordAt,zero,byte 1 (by omega),byte 2 (by omega),byte 3 (by omega)]
  generalize pgdir.getD i 0 = w at small
  simp
  omega

/-- A program that writes to the page directory and to its own memory. -/
theorem protection_attack :
    [Store.mk .user 0x101000 0 (by decide),Store.mk .user 0x2000000 7 (by decide)].foldl store (setupPgtab image) 0x101000 =
      setupPgtab image 0x101000 :=
  (protection loaded_image (by simp [Store.Spares])).1 0x101000 (by decide)

/-! ### The debugger's copies through the tables -/

theorem storeAt_append (mem : Memory) (a : Nat) (xs ys : List UInt8) :
    storeAt mem a (xs ++ ys) = storeAt (storeAt mem a xs) (a + xs.length) ys := by
  induction xs generalizing mem a with
  | nil => rfl
  | cons x xs hyp =>
    rw [List.cons_append,storeAt,storeAt,hyp,List.length_cons,Nat.add_right_comm,Nat.add_assoc]

theorem storeAt_other {bytes : List UInt8} (small : a + bytes.length ≤ 4294967296)
    (apart : b < a ∨ a + bytes.length ≤ b) :
    storeAt mem a bytes b = mem b := by
  induction bytes generalizing mem a with
  | nil => rfl
  | cons x bytes hyp =>
    rw [List.length_cons] at small apart
    rw [storeAt,hyp (by omega) (by omega),ulong,Nat.mod_eq_of_lt (by omega)]
    exact Function.update_of_ne (by omega) _ _

theorem storeAt_inside {bytes : List UInt8} {i : Nat} (small : a + bytes.length ≤ 4294967296) (less : i < bytes.length) :
    storeAt mem a bytes (a + i) = bytes[i] := by
  induction bytes generalizing mem a i with
  | nil => simp at less
  | cons x bytes hyp =>
    rw [List.length_cons] at small less
    rw [storeAt,ulong,Nat.mod_eq_of_lt (by omega)]
    match i with
    | 0 =>
      rw [storeAt_other (by omega) (by omega)]
      simp
    | i + 1 =>
      rw [show a + (i + 1) = a + 1 + i by omega,hyp (by omega) (by omega)]
      simp

theorem bytesAt_storeAt {bytes : List UInt8} (small : a + bytes.length ≤ 4294967296) :
    bytesAt (storeAt mem a bytes) a bytes.length = bytes := by
  apply List.ext_getElem
  · simp [bytesAt]
  · intro i less less'
    simp only [bytesAt,List.getElem_map,List.getElem_range]
    rw [ulong,Nat.mod_eq_of_lt (by omega),storeAt_inside small less']

/-- How many of `n` bytes from an address on are mapped before the first that is not. -/
def reach (va n : Nat) : Nat := if va < 0x1000 then 0 else min n (0x3000000 - va)

/-- The debugger debugs what runs with the tables of `crt0.S`. -/
structure Client.Common (client : Client) : Prop where
  paged : client.cr0 &&& PG ≠ 0
  root : client.cr3 = PGDIR

theorem resolve_setUp (tables : SetUp mem) (common : client.Common) (small : va < 4294967296) :
    resolve mem client va = if Mapped va then some va else none := by
  rw [resolve,if_neg common.paged,common.root,translate_setUp tables .kernel false small]

theorem lookup_lt (mem : Memory) (small : va < 4294967296) (common : client.Common) :
    (physAddrLookup mem client va).1 < 4294967296 ∧ (physAddrLookup mem client va).2 ≤ 4194304 := by
  have directory := wordAt_lt mem (client.cr3 / 4096 * 4096 + 4 * (va / 4194304))
  have entry := wordAt_lt mem (wordAt mem (client.cr3 / 4096 * 4096 + 4 * (va / 4194304)) / 4096 * 4096 +
    4 * (va / 4096 % 1024))
  rw [physAddrLookup_eq mem client small]
  simp only [if_neg common.paged]
  split
  · simp
  · split
    · split
      · simp
      · constructor <;> simp only <;> omega
    · constructor <;> simp only <;> omega

/-- The lookup answers the address itself, and a part of the memory that is mapped. -/
theorem lookup_setUp (tables : SetUp mem) (common : client.Common) (small : va < 4294967296)
    (page : (physAddrLookup mem client va).2 ≠ 0) :
    (physAddrLookup mem client va).1 = va ∧ 0x1000 ≤ va ∧ va + (physAddrLookup mem client va).2 ≤ 0x3000000 := by
  obtain ⟨word,size⟩ := lookup_lt mem small common
  have mapped : ∀ i < (physAddrLookup mem client va).2,
      Mapped (ulong (va + i)) ∧ ulong ((physAddrLookup mem client va).1 + i) = ulong (va + i) := by
    intro i less
    have found := lookup_some small less
    rw [resolve_setUp tables common (address_lt _)] at found
    by_cases there : Mapped (ulong (va + i))
    · rw [if_pos there] at found
      exact ⟨there,(Option.some.inj found).symm⟩
    · rw [if_neg there] at found
      simp at found
  have first := mapped 0 (by omega)
  have last := mapped ((physAddrLookup mem client va).2 - 1) (by omega)
  unfold Mapped ulong at first last
  omega

theorem reach_add {k n : Nat} (low : 0x1000 ≤ va) (mapped : va + k ≤ 0x3000000) (less : k ≤ n) :
    reach va n = k + reach (va + k) (n - k) := by
  rw [reach,reach,if_neg (by omega),if_neg (by omega)]
  omega

theorem reach_le (va n : Nat) : reach va n ≤ n := by
  rw [reach]
  split <;> omega

theorem reach_none (absent : ¬ Mapped va) (n : Nat) : reach va n = 0 := by
  unfold Mapped at absent
  rw [reach]
  split <;> omega

/-- A copy in takes what is mapped. -/
theorem copied_setUp (tables : SetUp mem) (common : client.Common) (small : va < 4294967296) (n : Nat) :
    copied mem client n va = (bytesAt mem va (reach va n),decide (reach va n = n)) := by
  have found : ∀ i < reach va n, resolve mem client (ulong (va + i)) = some (ulong (va + i)) := by
    intro i less
    have mapped : Mapped (ulong (va + i)) := by
      unfold Mapped ulong
      rw [reach] at less
      split at less <;> omega
    rw [resolve_setUp tables common (address_lt _),if_pos mapped]
  have within := reach_le va n
  have pages := copied_append (n - reach va n) small found
  rw [show reach va n + (n - reach va n) = n by omega] at pages
  rw [pages]
  by_cases whole : reach va n = n
  · rw [whole,Nat.sub_self]
    simp [copied]
  · have absent : ¬ Mapped (ulong (va + reach va n)) := by
      unfold Mapped ulong
      rw [reach] at whole ⊢
      split at whole
      · rw [if_pos (by assumption)]
        omega
      · rw [if_neg (by assumption)]
        omega
    obtain ⟨m,more⟩ : ∃ m, n - reach va n = m + 1 := ⟨n - reach va n - 1,by omega⟩
    rw [more]
    simp only [copied,resolve_setUp tables common (address_lt _),if_neg absent]
    simp [whole]

theorem setUp_storeAt {bytes : List UInt8} (tables : SetUp mem) (small : a + bytes.length ≤ 4294967296)
    (spared : ∀ i < bytes.length, ¬ Tables (a + i)) : SetUp (storeAt mem a bytes) := by
  refine setUp_same tables (fun b inside => storeAt_other small ?_)
  by_contra overlap
  have there := spared (b - a) (by omega)
  rw [show a + (b - a) = b by omega] at there
  exact there inside

/-- A copy out stores the bytes up to the first that is not mapped. -/
theorem copyoutLoop_setUp {src : List UInt8} {turns : Nat} (enough : src.length ≤ turns) (tables : SetUp mem)
    (common : client.Common) (small : va < 4294967296) (spared : ∀ i < reach va src.length, ¬ Tables (va + i)) :
    copyoutLoop client turns mem src va =
      (storeAt mem va (src.take (reach va src.length)),decide (reach va src.length = src.length)) := by
  induction turns generalizing mem src va with
  | zero =>
    have none : src = [] := List.length_eq_zero_iff.mp (by omega)
    have zero : reach va 0 = 0 := by have := reach_le va 0; omega
    simp [none,copyoutLoop,zero,storeAt]
  | succ turns hyp =>
    rw [copyoutLoop]
    split
    next none =>
      have zero : reach va 0 = 0 := by have := reach_le va 0; omega
      simp [List.length_eq_zero_iff.mp none,zero,storeAt]
    next some =>
      simp only
      split
      next absent =>
        have unmapped : ¬ Mapped va := by
          intro mapped
          have found := lookup_none small absent
          rw [resolve_setUp tables common small,if_pos mapped] at found
          simp at found
        rw [reach_none unmapped]
        simp [storeAt]
        omega
      next page =>
        obtain ⟨same,low,mapped⟩ := lookup_setUp tables common small page
        have least :
            (if (physAddrLookup mem client va).2 > src.length then src.length else (physAddrLookup mem client va).2) =
            min (physAddrLookup mem client va).2 src.length := by split <;> omega
        rw [least,same]
        generalize size : min (physAddrLookup mem client va).2 src.length = k
        have parts := reach_add (k := k) (n := src.length) low (by omega) (by omega)
        have taken : (src.take k).length = k := by rw [List.length_take]; omega
        have left : (src.drop k).length = src.length - k := List.length_drop
        have whole : ulong (va + k) = va + k := Nat.mod_eq_of_lt (by omega)
        have kept : SetUp (storeAt mem va (src.take k)) :=
          setUp_storeAt tables (by omega) (fun i less => spared i (by omega))
        have rest := @hyp (storeAt mem va (src.take k)) (va + k) (src.drop k) (by omega) kept (by omega) (by
          intro i less
          rw [left] at less
          have there := spared (k + i) (by omega)
          rwa [← Nat.add_assoc] at there)
        rw [whole,rest,left]
        congr 1
        · have cut : src.take (reach va src.length) =
              src.take k ++ (src.drop k).take (reach (va + k) (src.length - k)) := by
            rw [parts,List.take_add]
          rw [cut,storeAt_append,taken]
        · rw [parts]
          congr 1
          apply propext
          omega

theorem reach_whole (va n : Nat) : reach va n = n ↔ ∀ i < n, Mapped (va + i) := by
  constructor
  · intro whole i less
    rw [reach] at whole
    unfold Mapped
    split at whole <;> omega
  · intro mapped
    match n with
    | 0 =>
      have within := reach_le va 0
      omega
    | n + 1 =>
      have first := mapped 0 (by omega)
      have last := mapped n (by omega)
      unfold Mapped at first last
      rw [reach,if_neg (by omega)]
      omega

/-- What the debugger writes beside the tables it reads back. It writes all bytes
    if they are all mapped, and else those before the first that is not; it
    writes nothing else, and the tables stay as they are. -/
theorem debugger_round_trip {src : List UInt8} (tables : SetUp mem) (common : client.Common) (small : va < 4294967296)
    (spared : ∀ i < src.length, Mapped (va + i) → ¬ Tables (va + i)) :
    ((gdbCopyout mem client src va).2 = true ↔ ∀ i < src.length, Mapped (va + i)) ∧
    ((gdbCopyout mem client src va).2 = true →
      gdbCopyin (gdbCopyout mem client src va).1 client va src.length = (src,true)) ∧
    (∀ i < reach va src.length, (gdbCopyout mem client src va).1 (va + i) = src.getD i 0) ∧
    (∀ b, b < va ∨ va + reach va src.length ≤ b → (gdbCopyout mem client src va).1 b = mem b) ∧
    SetUp (gdbCopyout mem client src va).1 := by
  have within := reach_le va src.length
  have spares : ∀ i < reach va src.length, ¬ Tables (va + i) := by
    intro i less
    refine spared i (by omega) ?_
    rw [reach] at less
    unfold Mapped
    split at less <;> omega
  have done : gdbCopyout mem client src va =
      (storeAt mem va (src.take (reach va src.length)),decide (reach va src.length = src.length)) :=
    copyoutLoop_setUp (Nat.le_refl _) tables common small spares
  have taken : (src.take (reach va src.length)).length = reach va src.length := by
    rw [List.length_take]
    omega
  have fits : va + (src.take (reach va src.length)).length ≤ 4294967296 := by
    rw [taken,reach]
    split <;> omega
  have kept : SetUp (storeAt mem va (src.take (reach va src.length))) :=
    setUp_storeAt tables fits (fun i less => spares i (by omega))
  rw [done]
  refine ⟨?_,?_,?_,?_,kept⟩
  · rw [decide_eq_true_iff]
    exact reach_whole va src.length
  · intro whole
    have all := of_decide_eq_true whole
    have back := copied_setUp kept common small src.length
    rw [gdbCopyin,copyinLoop_eq _ client (Nat.le_refl _) small,back,all,List.take_length]
    rw [all,List.take_length] at fits
    rw [bytesAt_storeAt fits]
    simp
  · intro i less
    simp only
    rw [storeAt_inside fits (by omega),List.getElem_take,List.getD_eq_getElem _ _ (by omega)]
  · intro b apart
    simp only
    rw [storeAt_other fits (by omega)]

/-- Five bytes that run over the end of the mapped memory. -/
theorem debugger_round_trip_end :
    (gdbCopyout (setupPgtab image) ⟨PG,PGDIR,by decide⟩ [1,2,3,4,5] 0x2FFFFFE).2 = false ∧
    (gdbCopyout (setupPgtab image) ⟨PG,PGDIR,by decide⟩ [1,2,3,4,5] 0x2FFFFFE).1 (0x2FFFFFE + 1) = 2 := by
  have trip := @debugger_round_trip _ ⟨PG,PGDIR,by decide⟩ 0x2FFFFFE [1,2,3,4,5] (setUp_setupPgtab loaded_image)
    ⟨by decide,rfl⟩ (by decide) (by
      intro i less _
      simp only [List.length_cons,List.length_nil] at less
      unfold Tables PGDIR
      omega)
  refine ⟨?_,trip.2.2.1 1 (by simp [reach])⟩
  rw [Bool.eq_false_iff,ne_eq,trip.1]
  intro mapped
  have last := mapped 2 (by decide)
  unfold Mapped at last
  omega

end Psys.Paging
