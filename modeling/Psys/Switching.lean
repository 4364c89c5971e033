import Psys.Assembly
import Psys.Runs

/-!
`context_switch.S`, `int49.S` and `interrupts.S`: the code around the C
functions of the kernel, which switches between the kernel stacks of the
processes. Whatever the other processes and the kernel do in between, a process
goes on with the registers that it had.
-/
namespace Psys.Switching
open Psys.Assembly

/-- 0 is `kernel_context`, the others are the entries of `tab_proc`. -/
abbrev Pid := Fin 21

def KERNEL_DS : Nat := 0x18
def USER_CS : Nat := 0x43
def USER_DS : Nat := 0x4b
/-- Lowest address of user space. -/
def USER_SPACE : Nat := 0x1000000
/-- Stack pointer and stack segment for the kernel in the task state. -/
def ESP0 : Nat := 0x20004
def SS0 : Nat := 0x20008
def KERNEL_STACK_SIZE : Nat := 40000

/-! ### The code -/

/-- The gates that come back to the process. -/
inductive Vector where
  | int32
  | int33
  | int38
  | int49
  deriving DecidableEq

/-- Which code a process entered the kernel with. -/
inductive Kind where
  | clock
  | device
  /-- `int49`, with the number of arguments. -/
  | syscall (args : Nat)
  /-- A new process, that `_iret` starts. -/
  | fresh
  deriving DecidableEq

/-- The dispatch of `int49` on `%eax`. -/
def arity (eax : Nat) : Nat :=
  if eax < 0x20 then 0 else if eax < 0x40 then 1 else if eax < 0x60 then 2 else if eax < 0x70 then 3
  else if eax < 0x80 then 4 else 5

def Vector.kind (eax : Nat) : Vector → Kind
  | .int32 => .clock
  | .int33 | .int38 => .device
  | .int49 => .syscall (arity eax)

/-- The arguments that `int49` pushes, after the number of the call. -/
def arguments (args : Nat) : List Reg := ([.edi,.esi,.edx,.ecx,.ebx,.eax] : List Reg).drop (5 - args)

/-- From the gate to the call of the C function. -/
def save : Kind → List Instr
  | .clock => ([.eax,.ebx,.ecx,.edx,.ebp,.esi,.edi,.ds,.es,.fs,.gs] : List Reg).map .push ++ [.movb 0x20 .eax]
  | .device => [.pusha,.push .ds,.push .es,.movw KERNEL_DS .eax,.movSeg .eax .ds,.movSeg .eax .es]
  | .syscall args => ([.ds,.es,.fs,.gs] : List Reg).map .push ++ (arguments args).map .push
  | .fresh => []

/-- From the return of the C function to `iret`. -/
def restore : Kind → List Instr
  | .clock => ([.gs,.fs,.es,.ds,.edi,.esi,.ebp,.edx,.ecx,.ebx,.eax] : List Reg).map .pop
  | .device => [.pop .es,.pop .ds,.popa]
  | .syscall args => .addEsp (4 * (arguments args).length) :: ([.gs,.fs,.es,.ds] : List Reg).map .pop
  | .fresh => [.movw USER_DS .eax,.movSeg .eax .ds,.movSeg .eax .es,.movSeg .eax .fs,.movSeg .eax .gs]

/-- `context_switch` up to its calls of `trt_sigs` and `garbage_collector`. -/
def switchOut : List Instr :=
  [.push .ebp,.mov .esp .ebp,.push .ebp,.load 8 .ebp .eax,.store .esp 0 .eax,.load 12 .ebp .eax,.load 0 .eax .esp,
    .load 4 .eax .ebx,.load 20 .eax .ecx,.add .ecx .ebx,.storeAt .ebx ESP0,.movImm KERNEL_DS .eax,.storeAt .eax SS0]

/-- And after them. -/
def switchIn : List Instr := [.pop .ebp,.leave,.ret]

/-! ### What is on the stacks -/

/-- How a process entered the kernel. -/
structure Record where
  kind : Kind
  /-- C functions that have not returned. -/
  depth : Nat
  /-- History: the registers that the process left behind. -/
  entry : Reg → Nat
  /-- Where its kernel stack ended. -/
  top : Nat

/-- The words that the code of the gate leaves on the stack, from the lowest
    address on, without the arguments of the C function. -/
def Record.image (r : Record) : List Nat :=
  (match r.kind with
    | .clock => ([.gs,.fs,.es,.ds,.edi,.esi,.ebp,.edx,.ecx,.ebx,.eax] : List Reg).map r.entry
    | .device => ([.es,.ds,.edi,.esi,.ebp] : List Reg).map r.entry ++ [r.top - 4 * (interrupted r.entry).length] ++
      ([.ebx,.edx,.ecx,.eax] : List Reg).map r.entry
    | .syscall _ => ([.gs,.fs,.es,.ds] : List Reg).map r.entry
    | .fresh => []) ++ interrupted r.entry

def Record.base (r : Record) : Nat := r.top - 4 * r.image.length

/-- The bytes of the arguments of the C function. -/
def Record.gap (r : Record) : Nat :=
  match r.kind with
  | .syscall args => 4 * (arguments args).length
  | _ => 0

/-- The stack pointer at the call of the C function. -/
def Record.start (r : Record) : Nat := r.base - r.gap

/-- The registers that a process finds again. A system call answers in `%eax`,
    and may change the others that the callers save. -/
def kept : Kind → List Reg
  | .clock | .device => [.eax,.ebx,.ecx,.edx,.esi,.edi,.ebp,.ds,.es,.fs,.gs,.eip,.cs,.eflags,.esp,.ss]
  | .syscall _ => [.ebp,.ds,.es,.fs,.gs,.eip,.cs,.eflags,.esp,.ss]
  | .fresh => [.ds,.es,.fs,.gs,.eip,.cs,.eflags,.esp,.ss]

variable {c : Cpu} {r : Record}

theorem arguments_length (args : Nat) : (arguments args).length ≤ 6 := by simp [arguments]

theorem arguments_free (args : Nat) : Reg.esp ∉ arguments args := fun member => by
  have := List.mem_of_mem_drop member
  simp at this

theorem interrupted_length (reg : Reg → Nat) : (interrupted reg).length = if Outer (reg .cs) then 5 else 3 := by
  rw [interrupted]
  split <;> simp

theorem image_length (r : Record) : r.image.length ≤ 16 := by
  have tail := interrupted_length r.entry
  rw [Record.image,List.length_append]
  split <;> split at tail <;> simp [tail]

/-- What the code of a gate leaves behind. -/
structure Saved (r : Record) (c d : Cpu) : Prop where
  esp : d.reg .esp = r.start
  holds : Holds d.mem r.base r.image
  ebp : d.reg .ebp = r.entry .ebp
  ss : d.reg .ss = c.reg .ss
  device : r.kind = .device → d.reg .fs = r.entry .fs ∧ d.reg .gs = r.entry .gs
  others : ∀ a, (a < r.start ∨ r.top ≤ a) → d.mem a = c.mem a

/-- Words pushed for the image, and then words for the C function. -/
theorem pushed_saved {d : Cpu} (vs args : List Nat) (room : 88 ≤ r.top)
    (esp : c.reg .esp = r.top - 4 * (interrupted r.entry).length) (holds : Holds c.mem (c.reg .esp) (interrupted r.entry))
    (form : r.image = vs.reverse ++ interrupted r.entry) (gap : r.gap = 4 * args.length) (few : args.length ≤ 6)
    (mem : d.mem = (c.pushWords (vs ++ args)).mem) (sp : d.reg .esp = (c.pushWords (vs ++ args)).reg .esp) :
    d.reg .esp = r.start ∧ Holds d.mem r.base r.image ∧ ∀ a, (a < r.start ∨ r.top ≤ a) → d.mem a = c.mem a := by
  have length := image_length r
  have base : r.base = c.reg .esp - 4 * vs.length := by
    rw [Record.base,esp,form,List.length_append,List.length_reverse]; omega
  rw [form,List.length_append,List.length_reverse] at length
  have enough : 4 * (vs ++ args).length ≤ c.reg .esp := by rw [esp,List.length_append]; omega
  have start : r.start = c.reg .esp - 4 * (vs ++ args).length := by
    rw [Record.start,base,gap,List.length_append]; omega
  refine ⟨by rw [sp,pushWords_esp,start],?_,fun a outside => ?_⟩
  · have pushed := pushWords_holds (vs ++ args) enough holds
    rw [List.reverse_append,List.append_assoc,Holds.append,List.length_reverse] at pushed
    rw [mem,base,form,show c.reg .esp - 4 * vs.length = c.reg .esp - 4 * (vs ++ args).length + 4 * args.length by
      rw [List.length_append] at enough ⊢; omega]
    exact pushed.2
  · rw [mem,pushWords_mem _ (by rw [← start,esp]; omega) enough]

theorem save_saved (room : 88 ≤ r.top) (old : r.kind ≠ .fresh) (same : ∀ s, s ≠ .esp → s ≠ .ss → c.reg s = r.entry s)
    (esp : c.reg .esp = r.top - 4 * (interrupted r.entry).length) (holds : Holds c.mem (c.reg .esp) (interrupted r.entry)) :
    Saved r c (exec (save r.kind) c) := by
  obtain ⟨kind,depth,entry,top⟩ := r
  simp only at room same esp holds old ⊢
  have values : ∀ rs : List Reg, Reg.esp ∉ rs → Reg.ss ∉ rs → rs.map c.reg = rs.map entry := fun rs noEsp noSs =>
    List.map_congr_left (fun s member => same s (ne_of_mem_of_not_mem member noEsp) (ne_of_mem_of_not_mem member noSs))
  cases kind with
  | clock =>
    let rs : List Reg := [.eax,.ebx,.ecx,.edx,.ebp,.esi,.edi,.ds,.es,.fs,.gs]
    have pushes : ∃ v, exec (save .clock) c = (c.pushWords (rs.map c.reg)).set .eax v :=
      ⟨_,by rw [save,exec_append,exec_push (by simp)]; rfl⟩
    obtain ⟨v,pushes⟩ := pushes
    obtain ⟨sp,image,others⟩ := pushed_saved (r := ⟨.clock,depth,entry,top⟩) (d := exec (save .clock) c)
      (rs.map c.reg) [] room esp holds (by rw [values rs (by simp [rs]) (by simp [rs])]; rfl) rfl (by simp)
      (by rw [pushes,List.append_nil]; rfl) (by rw [pushes,List.append_nil]; rfl)
    refine ⟨sp,image,?_,?_,by simp,others⟩
    · simp [pushes,pushWords_reg,same]
    · simp [pushes,pushWords_reg]
  | device =>
    let rs : List Reg := [.eax,.ecx,.edx,.ebx,.esp,.ebp,.esi,.edi]
    let vs := rs.map c.reg ++ [c.reg .ds,c.reg .es]
    have pushes : ∃ v w x, exec (save .device) c = (((c.pushWords vs).set .eax v).set .ds w).set .es x := ⟨_,_,_,rfl⟩
    obtain ⟨v,w,x,pushes⟩ := pushes
    have form : (⟨.device,depth,entry,top⟩ : Record).image = vs.reverse ++ interrupted entry := by
      simp [Record.image,vs,rs,esp,same]
    obtain ⟨sp,image,others⟩ := pushed_saved (r := ⟨.device,depth,entry,top⟩) (d := exec (save .device) c) vs []
      room esp holds form rfl (by simp)
      (by rw [pushes,List.append_nil]; rfl) (by rw [pushes,List.append_nil]; simp)
    have others' : ∀ s, s ∉ [Reg.eax,.ds,.es,.esp] → (exec (save .device) c).reg s = c.reg s := by
      intro s other
      simp only [List.mem_cons,List.not_mem_nil,or_false,not_or] at other
      rw [pushes]
      simp [other,pushWords_reg]
    refine ⟨sp,image,?_,?_,fun _ => ⟨?_,?_⟩,others⟩
    · exact (others' .ebp (by simp)).trans (same .ebp (by simp) (by simp))
    · exact others' .ss (by simp)
    · exact (others' .fs (by simp)).trans (same .fs (by simp) (by simp))
    · exact (others' .gs (by simp)).trans (same .gs (by simp) (by simp))
  | syscall args =>
    let rs : List Reg := [.ds,.es,.fs,.gs]
    have pushes : exec (save (.syscall args)) c = c.pushWords (rs.map c.reg ++ (arguments args).map c.reg) := by
      rw [save,← List.map_append,exec_push (by simp [arguments_free]),List.map_append]
    obtain ⟨sp,image,others⟩ := pushed_saved (r := ⟨.syscall args,depth,entry,top⟩)
      (d := exec (save (.syscall args)) c) (rs.map c.reg) ((arguments args).map c.reg) room esp holds
      (by rw [values rs (by simp [rs]) (by simp [rs])]; rfl) (by simp [Record.gap])
      (by simpa using arguments_length args) (by rw [pushes]) (by rw [pushes])
    refine ⟨sp,image,?_,?_,by simp,others⟩
    · rw [pushes]; exact (pushWords_reg _ (by simp)).trans (same .ebp (by simp) (by simp))
    · rw [pushes]; exact pushWords_reg _ (by simp)
  | fresh => exact absurd rfl old

/-- The end of a gate, up to `iret`. -/
theorem popped_saved {c d : Cpu} {ts : List (Option Reg)} {ws : List Nat} (room : 4 * r.image.length ≤ r.top)
    (form : r.image = ws ++ interrupted r.entry) (esp : c.reg .esp = r.base) (holds : Holds c.mem (c.reg .esp) r.image)
    (free : some Reg.esp ∉ ts) (told : List.Forall₂ (fun t w => ∀ s ∈ t, w = r.entry s) ts ws)
    (popped : d = c.popInto ts) :
    d.mem = c.mem ∧ d.reg .esp = r.top - 4 * (interrupted r.entry).length ∧
      Holds d.mem (d.reg .esp) (interrupted r.entry) ∧
      ∀ s, s ≠ .esp → d.reg s = if some s ∈ ts then r.entry s else c.reg s := by
  subst popped
  rw [form] at holds
  obtain ⟨sp,values,left⟩ := popInto_holds r.entry free told holds
  have atEnd : c.reg .esp + 4 * ws.length = r.top - 4 * (interrupted r.entry).length := by
    rw [esp,Record.base]
    rw [form,List.length_append] at room ⊢
    omega
  rw [atEnd] at sp left
  exact ⟨popInto_mem ts,sp,by rw [sp]; exact left,values⟩

/-- The registers that `iret` pops. -/
def returned : List Reg := [.eip,.cs,.eflags,.esp,.ss]

/-- Only `iret` is left, and the registers but those that it pops. -/
theorem iret_restored {c d : Cpu} (room : 4 * r.image.length ≤ r.top) (mem : d.mem = c.mem)
    (esp : d.reg .esp = r.top - 4 * (interrupted r.entry).length)
    (words : Holds d.mem (d.reg .esp) (interrupted r.entry)) (ss : d.reg .ss = c.reg .ss)
    (inner : ¬ Outer (r.entry .cs) → r.top = r.entry .esp ∧ c.reg .ss = r.entry .ss) :
    (iret d).mem = c.mem ∧ ∀ s, (s ∉ returned → d.reg s = r.entry s) → (iret d).reg s = r.entry s := by
  have length := interrupted_length r.entry
  have few : 4 * (interrupted r.entry).length ≤ r.top := by
    rw [Record.image,List.length_append] at room; omega
  have done := iret_holds words
    (fun out => by rw [if_neg out] at length; rw [esp,length,← (inner out).1]; omega)
    (fun out => ss.trans (inner out).2)
  refine ⟨done.1.trans mem,fun s others => (done.2 s).trans ?_⟩
  split
  · rfl
  next other => exact others other

section
variable {c : Cpu} (room : 4 * r.image.length + r.gap ≤ r.top) (start : c.reg .esp = r.start)
  (holds : Holds c.mem r.base r.image)
  (inner : ¬ Outer (r.entry .cs) → r.top = r.entry .esp ∧ c.reg .ss = r.entry .ss)
include room start holds inner

omit start in
/-- What a process finds again when the code of the gate pops all that it pushed. -/
theorem popped_restored {ts : List (Option Reg)} {ws : List Nat} {e : Cpu}
    (form : r.image = ws ++ interrupted r.entry) (esp : e.reg .esp = r.base) (mem : e.mem = c.mem)
    (others : ∀ s, s ≠ .esp → e.reg s = c.reg s) (free : some Reg.esp ∉ ts)
    (noSs : some Reg.ss ∉ ts) (told : List.Forall₂ (fun t w => ∀ s ∈ t, w = r.entry s) ts ws)
    (rest : ∀ s ∈ kept r.kind, s ∉ returned → some s ∉ ts → c.reg s = r.entry s) :
    (iret (e.popInto ts)).mem = c.mem ∧ ∀ s ∈ kept r.kind, (iret (e.popInto ts)).reg s = r.entry s := by
  obtain ⟨same,sp,words,values⟩ := popped_saved (by omega) form esp (by rw [esp,mem]; exact holds) free told rfl
  obtain ⟨memory,regs⟩ := iret_restored (c := c) (by omega) (same.trans mem) sp words
    (by rw [values .ss (by simp),if_neg noSs,others .ss (by simp)]) inner
  refine ⟨memory,fun s member => regs s (fun other => ?_)⟩
  have notEsp : s ≠ .esp := by rintro rfl; simp [returned] at other
  rw [values s notEsp]
  split
  · rfl
  next unsaved => exact (others s notEsp).trans (rest s member other unsaved)

omit start in
theorem restore_clock (kind : r.kind = .clock) (start : c.reg .esp = r.base) :
    (iret (exec (restore r.kind) c)).mem = c.mem ∧
      ∀ s ∈ kept r.kind, (iret (exec (restore r.kind) c)).reg s = r.entry s := by
  let rs : List Reg := [.gs,.fs,.es,.ds,.edi,.esi,.ebp,.edx,.ecx,.ebx,.eax]
  have pops : exec (restore r.kind) c = c.popInto (rs.map some) := by rw [kind]; exact exec_pop rs c
  have all : ∀ s ∈ kept .clock, s ∉ returned → some s ∈ rs.map some := by decide
  have form : r.image = rs.map r.entry ++ interrupted r.entry := by rw [Record.image,kind]
  rw [pops]
  exact popped_restored room holds inner form start rfl (fun _ _ => rfl)
    (by decide) (by decide) (by simp [rs]) (fun s member other unsaved => absurd (all s (kind ▸ member) other) unsaved)

theorem restore_device (kind : r.kind = .device) (device : c.reg .fs = r.entry .fs ∧ c.reg .gs = r.entry .gs) :
    (iret (exec (restore r.kind) c)).mem = c.mem ∧
      ∀ s ∈ kept r.kind, (iret (exec (restore r.kind) c)).reg s = r.entry s := by
  let ts : List (Option Reg) :=
    [some .es,some .ds,some .edi,some .esi,some .ebp,none,some .ebx,some .edx,some .ecx,some .eax]
  have pops : exec (restore r.kind) c = c.popInto ts := by rw [kind]; rfl
  have all : ∀ s ∈ kept .device, s ∉ returned → some s ∉ ts → s = .fs ∨ s = .gs := by decide
  have esp : c.reg .esp = r.base := by rw [start,Record.start,Record.gap,kind]; rfl
  have form : r.image = [r.entry .es,r.entry .ds,r.entry .edi,r.entry .esi,r.entry .ebp,
      r.top - 4 * (interrupted r.entry).length,r.entry .ebx,r.entry .edx,r.entry .ecx,r.entry .eax] ++
        interrupted r.entry := by rw [Record.image,kind]; rfl
  rw [pops]
  refine popped_restored room holds inner form esp rfl (fun _ _ => rfl) (by decide) (by decide) (by simp [ts])
    (fun s member other unsaved => ?_)
  rcases all s (kind ▸ member) other unsaved with rfl | rfl
  · exact device.1
  · exact device.2

theorem restore_syscall {args : Nat} (kind : r.kind = .syscall args) (ebp : c.reg .ebp = r.entry .ebp) :
    (iret (exec (restore r.kind) c)).mem = c.mem ∧
      ∀ s ∈ kept r.kind, (iret (exec (restore r.kind) c)).reg s = r.entry s := by
  let rs : List Reg := [.gs,.fs,.es,.ds]
  let e := c.set .esp (c.reg .esp + 4 * (arguments args).length)
  have pops : exec (restore r.kind) c = e.popInto (rs.map some) := by rw [kind]; exact exec_pop rs e
  have all : ∀ s ∈ kept (.syscall args), s ∉ returned → some s ∉ rs.map some → s = .ebp := by
    rw [kept]; decide
  have gap : r.gap = 4 * (arguments args).length := by rw [Record.gap,kind]
  have esp : e.reg .esp = r.base := by
    rw [gap] at room
    simp only [e,Cpu.set_reg,Function.update_self,start,Record.start,Record.base,gap]
    omega
  have form : r.image = rs.map r.entry ++ interrupted r.entry := by rw [Record.image,kind]
  rw [pops]
  refine popped_restored room holds inner form esp rfl (fun s other => by simp [e,other]) (by decide) (by decide)
    (by simp [rs]) (fun s member other unsaved => ?_)
  obtain rfl := all s (kind ▸ member) other unsaved
  exact ebp

theorem restore_fresh (kind : r.kind = .fresh) (fresh : ∀ s ∈ [Reg.ds,.es,.fs,.gs], r.entry s = USER_DS) :
    (iret (exec (restore r.kind) c)).mem = c.mem ∧
      ∀ s ∈ kept r.kind, (iret (exec (restore r.kind) c)).reg s = r.entry s := by
  have sets : ∃ v, exec (restore r.kind) c =
      ((((c.set .eax v).set .ds USER_DS).set .es USER_DS).set .fs USER_DS).set .gs USER_DS := by
    refine ⟨c.reg .eax / 65536 * 65536 + USER_DS,?_⟩
    have low : (c.reg .eax / 65536 * 65536 + USER_DS) % 65536 = USER_DS := by simp [USER_DS,Nat.add_mod]
    rw [kind]
    simp [restore,exec,exec1,low]
  obtain ⟨v,sets⟩ := sets
  have image : r.image = interrupted r.entry := by rw [Record.image,kind]; rfl
  have esp : c.reg .esp = r.top - 4 * (interrupted r.entry).length := by
    rw [start,Record.start,Record.base,image,Record.gap,kind]; rfl
  have words : Holds c.mem (c.reg .esp) (interrupted r.entry) := by
    rw [esp,← image]; exact holds
  obtain ⟨memory,regs⟩ := iret_restored (c := c) (d := exec (restore r.kind) c) (by omega) (by rw [sets]; rfl)
    (by rw [sets]; simpa using esp) (by rw [sets]; simpa using words) (by rw [sets]; simp) inner
  have all : ∀ s ∈ kept .fresh, s ∉ returned → s ∈ [Reg.ds,.es,.fs,.gs] := by decide
  refine ⟨memory,fun s member => regs s (fun other => ?_)⟩
  have segment := all s (kind ▸ member) other
  rw [fresh s segment,sets]
  simp only [List.mem_cons,List.not_mem_nil,or_false] at segment
  rcases segment with rfl | rfl | rfl | rfl <;> simp

/-- What a process finds again, once the C functions have returned. -/
theorem restore_restored (ebp : c.reg .ebp = r.entry .ebp)
    (device : r.kind = .device → c.reg .fs = r.entry .fs ∧ c.reg .gs = r.entry .gs)
    (fresh : r.kind = .fresh → ∀ s ∈ [Reg.ds,.es,.fs,.gs], r.entry s = USER_DS) :
    (iret (exec (restore r.kind) c)).mem = c.mem ∧
      ∀ s ∈ kept r.kind, (iret (exec (restore r.kind) c)).reg s = r.entry s := by
  cases kind : r.kind with
  | clock => exact kind ▸ restore_clock room holds inner kind (by rw [start,Record.start,Record.gap,kind]; rfl)
  | device => exact kind ▸ restore_device room start holds inner kind (device kind)
  | syscall args => exact kind ▸ restore_syscall room start holds inner kind ebp
  | fresh => exact kind ▸ restore_fresh room start holds inner kind (fresh kind)

end

end Psys.Switching
