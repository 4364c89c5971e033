import Mathlib.Data.List.Forall2
import Mathlib.Logic.Function.Basic
import Mathlib.Tactic.Simps.Basic

/-!
A few instructions of the 80386 in protected mode: registers, a stack in
memory, interrupts and what code that saves registers leaves there. Memory is
seen by words, at the addresses where the stack has them.
-/
namespace Psys.Assembly

inductive Reg where
  | eax
  | ebx
  | ecx
  | edx
  | esi
  | edi
  | ebp
  | esp
  | ds
  | es
  | fs
  | gs
  | ss
  | cs
  | eflags
  | eip
  deriving DecidableEq

structure Cpu where
  reg : Reg → Nat
  mem : Nat → Nat

inductive Instr where
  | push (r : Reg)
  | pop (r : Reg)
  | pusha
  | popa
  | mov (src dst : Reg)
  | movImm (value : Nat) (dst : Reg)
  /-- A value for the low byte of a register. -/
  | movb (value : Nat) (dst : Reg)
  /-- A value for the low half of a register. -/
  | movw (value : Nat) (dst : Reg)
  /-- A segment register gets the low half of a register. -/
  | movSeg (src dst : Reg)
  | load (disp : Nat) (base dst : Reg)
  | store (src : Reg) (disp : Nat) (base : Reg)
  | storeAt (src : Reg) (address : Nat)
  | add (src dst : Reg)
  | addEsp (value : Nat)
  | leave
  | ret

namespace Cpu

@[simps -fullyApplied]
def set (c : Cpu) (r : Reg) (v : Nat) : Cpu := { c with reg := Function.update c.reg r v }

@[simps -fullyApplied]
def write (c : Cpu) (a v : Nat) : Cpu := { c with mem := Function.update c.mem a v }

def push (c : Cpu) (v : Nat) : Cpu := (c.set .esp (c.reg .esp - 4)).write (c.reg .esp - 4) v

/-- Words pushed one after the other. -/
def pushWords (c : Cpu) (vs : List Nat) : Cpu := vs.foldl push c

/-- Words popped one after the other, into a register or into nothing. -/
def popInto : List (Option Reg) → Cpu → Cpu
  | [], c => c
  | none :: ts, c => popInto ts (c.set .esp (c.reg .esp + 4))
  | some r :: ts, c => popInto ts ((c.set .esp (c.reg .esp + 4)).set r (c.mem (c.reg .esp)))

end Cpu

/-- The privilege level that a code segment gives is the lowest one. -/
def Outer (cs : Nat) : Prop := cs % 4 = 3
instance (cs : Nat) : Decidable (Outer cs) := inferInstanceAs (Decidable (_ = _))

def exec1 (c : Cpu) : Instr → Cpu
  | .push r => c.pushWords [c.reg r]
  | .pop r => c.popInto [some r]
  | .pusha => c.pushWords (([.eax,.ecx,.edx,.ebx,.esp,.ebp,.esi,.edi] : List Reg).map c.reg)
  | .popa => c.popInto [some .edi,some .esi,some .ebp,none,some .ebx,some .edx,some .ecx,some .eax]
  | .mov src dst => c.set dst (c.reg src)
  | .movImm value dst => c.set dst value
  | .movb value dst => c.set dst (c.reg dst / 256 * 256 + value)
  | .movw value dst => c.set dst (c.reg dst / 65536 * 65536 + value)
  | .movSeg src dst => c.set dst (c.reg src % 65536)
  | .load disp base dst => c.set dst (c.mem (c.reg base + disp))
  | .store src disp base => c.write (c.reg base + disp) (c.reg src)
  | .storeAt src address => c.write address (c.reg src)
  | .add src dst => c.set dst (c.reg dst + c.reg src)
  | .addEsp value => c.set .esp (c.reg .esp + value)
  | .leave => (c.set .esp (c.reg .ebp)).popInto [some .ebp]
  | .ret => c.popInto [some .eip]

def exec (code : List Instr) (c : Cpu) : Cpu := code.foldl exec1 c

/-- An interrupt: from the outer level on the stack that the task state names,
    else on the current one. Where the handler runs is left to its model. -/
def interrupt (esp0 ss0 : Nat) (c : Cpu) : Cpu :=
  if Outer (c.reg .cs) then
    ((c.set .esp esp0).set .ss ss0).pushWords (([.ss,.esp,.eflags,.cs,.eip] : List Reg).map c.reg)
  else c.pushWords (([.eflags,.cs,.eip] : List Reg).map c.reg)

def iret (c : Cpu) : Cpu :=
  let c := c.popInto [some .eip,some .cs,some .eflags]
  if Outer (c.reg .cs) then (c.set .ss (c.mem (c.reg .esp + 4))).set .esp (c.mem (c.reg .esp)) else c

/-- The words that an interrupt pushes, the last one first. -/
def interrupted (reg : Reg → Nat) : List Nat :=
  [reg .eip,reg .cs,reg .eflags] ++ if Outer (reg .cs) then [reg .esp,reg .ss] else []

/-! ### Words on a stack -/

/-- The words from an address upwards. -/
def Holds (mem : Nat → Nat) : Nat → List Nat → Prop
  | _, [] => True
  | a, w :: ws => mem a = w ∧ Holds mem (a + 4) ws

variable {c : Cpu} {mem mem' : Nat → Nat} {a : Nat} {ws vs rest : List Nat}

theorem Holds.same (holds : Holds mem a ws) (same : ∀ i < ws.length, mem' (a + 4 * i) = mem (a + 4 * i)) :
    Holds mem' a ws := by
  induction ws generalizing a with
  | nil => trivial
  | cons w ws ih =>
    refine ⟨(same 0 (by simp)).trans holds.1,ih holds.2 (fun i inside => ?_)⟩
    have next := same (i + 1) (by simp only [List.length_cons]; omega)
    rwa [show a + 4 + 4 * i = a + 4 * (i + 1) by omega]

theorem Holds.append : Holds mem a (vs ++ ws) ↔ Holds mem a vs ∧ Holds mem (a + 4 * vs.length) ws := by
  induction vs generalizing a with
  | nil => simp [Holds]
  | cons v vs ih =>
    rw [List.cons_append,Holds,Holds,ih,and_assoc,List.length_cons,show a + 4 + 4 * vs.length = a + 4 * (vs.length + 1) by omega]

theorem push_holds (room : 4 ≤ c.reg .esp) (holds : Holds c.mem (c.reg .esp) ws) (v : Nat) :
    Holds (c.push v).mem (c.reg .esp - 4) (v :: ws) := by
  refine ⟨by simp [Cpu.push],?_⟩
  rw [Nat.sub_add_cancel room]
  exact holds.same (fun i _ => Function.update_of_ne (by omega) _ _)

theorem pushWords_holds (vs : List Nat) (room : 4 * vs.length ≤ c.reg .esp) (holds : Holds c.mem (c.reg .esp) ws) :
    Holds (c.pushWords vs).mem (c.reg .esp - 4 * vs.length) (vs.reverse ++ ws) := by
  induction vs generalizing c ws with
  | nil => exact holds
  | cons v vs ih =>
    rw [List.length_cons] at room
    have esp : (c.push v).reg .esp = c.reg .esp - 4 := by simp [Cpu.push]
    have above : Holds (c.push v).mem ((c.push v).reg .esp) (v :: ws) := by rw [esp]; exact push_holds (by omega) holds v
    have tail := ih (c := c.push v) (by omega) above
    rw [esp] at tail
    rw [List.reverse_cons,List.append_assoc,List.length_cons,
      show c.reg .esp - 4 * (vs.length + 1) = c.reg .esp - 4 - 4 * vs.length by omega]
    exact tail

theorem pushWords_reg (vs : List Nat) {r : Reg} (other : r ≠ .esp) : (c.pushWords vs).reg r = c.reg r := by
  induction vs generalizing c with
  | nil => rfl
  | cons v vs ih => exact (ih (c := c.push v)).trans (Function.update_of_ne other _ _)

theorem pushWords_esp (vs : List Nat) : (c.pushWords vs).reg .esp = c.reg .esp - 4 * vs.length := by
  induction vs generalizing c with
  | nil => rfl
  | cons v vs ih =>
    refine (ih (c := c.push v)).trans ?_
    rw [show (c.push v).reg .esp = c.reg .esp - 4 by simp [Cpu.push],List.length_cons]
    omega

/-- Pushes write nothing but the words below the stack pointer. -/
theorem pushWords_mem (vs : List Nat) {a : Nat} (outside : a < c.reg .esp - 4 * vs.length ∨ c.reg .esp ≤ a)
    (room : 4 * vs.length ≤ c.reg .esp) : (c.pushWords vs).mem a = c.mem a := by
  induction vs generalizing c with
  | nil => rfl
  | cons v vs ih =>
    rw [List.length_cons] at outside room
    have esp : (c.push v).reg .esp = c.reg .esp - 4 := by simp [Cpu.push]
    refine (ih (c := c.push v) (by omega) (by omega)).trans ?_
    exact Function.update_of_ne (by omega) _ _

@[simp] theorem popInto_mem (ts : List (Option Reg)) : (c.popInto ts).mem = c.mem := by
  induction ts generalizing c with
  | nil => rfl
  | cons t ts ih => cases t <;> exact ih

/-- Each register gets its word. -/
theorem popInto_holds {ts : List (Option Reg)} (values : Reg → Nat) (free : some Reg.esp ∉ ts)
    (told : List.Forall₂ (fun t w => ∀ r ∈ t, w = values r) ts ws) (holds : Holds c.mem (c.reg .esp) (ws ++ rest)) :
    (c.popInto ts).reg .esp = c.reg .esp + 4 * ws.length ∧
      (∀ r, r ≠ .esp → (c.popInto ts).reg r = if some r ∈ ts then values r else c.reg r) ∧
      Holds (c.popInto ts).mem (c.reg .esp + 4 * ws.length) rest := by
  induction told generalizing c with
  | nil => exact ⟨rfl,fun r _ => by simp [Cpu.popInto],holds⟩
  | @cons t w ts ws head tail ih =>
    have later : some Reg.esp ∉ ts := fun member => free (List.mem_cons_of_mem _ member)
    obtain ⟨word,above⟩ := holds
    have step : ∀ d : Cpu, d.mem = c.mem → d.reg .esp = c.reg .esp + 4 → Holds d.mem (d.reg .esp) (ws ++ rest) := by
      intro d sameMem esp
      rw [sameMem,esp]
      exact above
    have length : c.reg .esp + 4 * (w :: ws).length = c.reg .esp + 4 + 4 * ws.length := by
      rw [List.length_cons]; omega
    rw [length]
    cases t with
    | none =>
      obtain ⟨esp,others,left⟩ := ih (c := c.set .esp (c.reg .esp + 4)) later (step _ rfl (by simp))
      simp only [Cpu.set_reg,Function.update_self] at esp left
      refine ⟨esp,fun r other => (others r other).trans ?_,left⟩
      simp [other]
    | some r₀ =>
      have notEsp : Reg.esp ≠ r₀ := fun same => free (by simp [same])
      let d := (c.set .esp (c.reg .esp + 4)).set r₀ (c.mem (c.reg .esp))
      have atEsp : d.reg .esp = c.reg .esp + 4 := by simp [d,notEsp]
      obtain ⟨esp,others,left⟩ := ih (c := d) later (step d rfl atEsp)
      rw [atEsp] at esp left
      refine ⟨esp,fun r other => (others r other).trans ?_,left⟩
      by_cases same : r = r₀
      · subst same
        have value := head r rfl
        simp [d,← value,word]
      · simp [d,same,other]

theorem exec_append (first second : List Instr) (c : Cpu) : exec (first ++ second) c = exec second (exec first c) :=
  List.foldl_append

/-- Instructions that push registers push what these held at first. -/
theorem exec_push {rs : List Reg} (free : Reg.esp ∉ rs) (c : Cpu) : exec (rs.map .push) c = c.pushWords (rs.map c.reg) := by
  induction rs generalizing c with
  | nil => rfl
  | cons r rs ih =>
    have later : Reg.esp ∉ rs := fun member => free (List.mem_cons_of_mem _ member)
    refine (ih later (c.push (c.reg r))).trans ?_
    have kept : rs.map (c.push (c.reg r)).reg = rs.map c.reg :=
      List.map_congr_left (fun s member => Function.update_of_ne (ne_of_mem_of_not_mem member later) _ _)
    rw [kept]
    rfl

theorem exec_pop (rs : List Reg) (c : Cpu) : exec (rs.map .pop) c = c.popInto (rs.map some) := by
  induction rs generalizing c with
  | nil => rfl
  | cons r rs ih => exact ih _

/-- An interrupt pushes where execution goes on. -/
theorem interrupt_holds (esp0 ss0 top : Nat) (isTop : top = if Outer (c.reg .cs) then esp0 else c.reg .esp)
    (room : 20 ≤ top) :
    (interrupt esp0 ss0 c).reg .esp = top - 4 * (interrupted c.reg).length ∧
      (∀ r, r ≠ .esp → r ≠ .ss → (interrupt esp0 ss0 c).reg r = c.reg r) ∧
      (interrupt esp0 ss0 c).reg .ss = (if Outer (c.reg .cs) then ss0 else c.reg .ss) ∧
      Holds (interrupt esp0 ss0 c).mem (top - 4 * (interrupted c.reg).length) (interrupted c.reg) ∧
      ∀ a, (a < top - 4 * (interrupted c.reg).length ∨ top ≤ a) → (interrupt esp0 ss0 c).mem a = c.mem a := by
  rw [interrupt,interrupted]
  split
  next outer =>
    rw [if_pos outer] at isTop
    subst isTop
    let d := (c.set .esp top).set .ss ss0
    have atTop : d.reg .esp = top := by simp [d]
    refine ⟨by rw [pushWords_esp,atTop]; rfl,fun r other notSs => ?_,?_,?_,fun a outside => ?_⟩
    · rw [pushWords_reg _ other]; simp [other,notSs]
    · rw [pushWords_reg _ (by simp)]; simp
    · have none : Holds d.mem (d.reg .esp) [] := trivial
      have pushed := pushWords_holds (([.ss,.esp,.eflags,.cs,.eip] : List Reg).map c.reg) (by simpa [atTop] using room) none
      rw [atTop] at pushed
      exact pushed
    · rw [pushWords_mem _ (by simpa using outside) (by simpa using room)]
      rfl
  next inner =>
    rw [if_neg inner] at isTop
    subst isTop
    refine ⟨by rw [pushWords_esp]; rfl,fun r other _ => pushWords_reg _ other,pushWords_reg _ (by simp),?_,
      fun a outside => ?_⟩
    · have none : Holds c.mem (c.reg .esp) [] := trivial
      exact pushWords_holds (([.eflags,.cs,.eip] : List Reg).map c.reg) (by simp; omega) none
    · exact pushWords_mem _ (by simpa using outside) (by simp; omega)

/-- And `iret` goes on there. -/
theorem iret_holds {reg : Reg → Nat} (holds : Holds c.mem (c.reg .esp) (interrupted reg))
    (level : ¬ Outer (reg .cs) → c.reg .esp + 12 = reg .esp) (segment : ¬ Outer (reg .cs) → c.reg .ss = reg .ss) :
    (iret c).mem = c.mem ∧ ∀ r, (iret c).reg r =
      if r ∈ [Reg.eip,.cs,.eflags,.esp,.ss] then reg r else c.reg r := by
  rw [interrupted] at holds
  have told : List.Forall₂ (fun t w => ∀ r ∈ t, w = reg r) [some Reg.eip,some .cs,some .eflags]
      [reg .eip,reg .cs,reg .eflags] := by simp
  obtain ⟨esp,others,left⟩ := popInto_holds reg (by simp) told holds
  have cs : (c.popInto [some .eip,some .cs,some .eflags]).reg .cs = reg .cs := by rw [others .cs (by simp)]; simp
  rw [iret]
  simp only [cs]
  by_cases outer : Outer (reg .cs)
  · simp only [if_pos outer] at left ⊢
    rw [← esp] at left
    refine ⟨by simp,fun r => ?_⟩
    by_cases isEsp : r = .esp
    · subst isEsp
      simpa using left.1
    by_cases isSs : r = .ss
    · subst isSs
      simpa using left.2.1
    · rw [Cpu.set_reg,Cpu.set_reg,Function.update_of_ne isEsp,Function.update_of_ne isSs,others r isEsp]
      simp [isEsp,isSs]
  · simp only [if_neg outer]
    refine ⟨by simp,fun r => ?_⟩
    by_cases isEsp : r = .esp
    · subst isEsp
      rw [esp]
      simpa using level outer
    · rw [others r isEsp]
      by_cases isSs : r = .ss
      · subst isSs
        simpa using segment outer
      · simp [isEsp,isSs]

end Psys.Assembly
