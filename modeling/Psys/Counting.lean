import Mathlib.Data.List.Basic
import Mathlib.Order.MinMax
import Mathlib.Tactic.Linarith

/-!
A counting semaphore with a first-in-first-out queue, seen through its history:
how many units were given and taken, and in which order those who had to wait
were released. Histories and queues have their newest entry first.
-/
namespace Psys.Counting
universe u

variable {α : Type u}

inductive Note (α : Type u) where
  /-- A unit taken at once. -/
  | acquired (p : α)
  | blocked (p : α)
  /-- A unit given. -/
  | given
  /-- The unit just given goes to one who waits. -/
  | released (p : α)

def acquired (log : List (Note α)) : Nat := log.countP (fun | .acquired _ => true | _ => false)
def given (log : List (Note α)) : Nat := log.countP (fun | .given => true | _ => false)
def blocked (log : List (Note α)) : List α := log.filterMap (fun | .blocked p => some p | _ => none)
def released (log : List (Note α)) : List α := log.filterMap (fun | .released p => some p | _ => none)

section
variable (log : List (Note α)) (p : α)

@[simp] theorem acquired_nil : acquired ([] : List (Note α)) = 0 := rfl
@[simp] theorem acquired_acquired : acquired (.acquired p :: log) = acquired log + 1 := by simp [acquired]
@[simp] theorem acquired_blocked : acquired (.blocked p :: log) = acquired log := by simp [acquired]
@[simp] theorem acquired_given : acquired (.given :: log) = acquired log := by simp [acquired]
@[simp] theorem acquired_released : acquired (.released p :: log) = acquired log := by simp [acquired]
@[simp] theorem given_nil : given ([] : List (Note α)) = 0 := rfl
@[simp] theorem given_acquired : given (.acquired p :: log) = given log := by simp [given]
@[simp] theorem given_blocked : given (.blocked p :: log) = given log := by simp [given]
@[simp] theorem given_given : given (.given :: log) = given log + 1 := by simp [given]
@[simp] theorem given_released : given (.released p :: log) = given log := by simp [given]
@[simp] theorem blocked_nil : blocked ([] : List (Note α)) = [] := rfl
@[simp] theorem blocked_acquired : blocked (.acquired p :: log) = blocked log := rfl
@[simp] theorem blocked_blocked : blocked (.blocked p :: log) = p :: blocked log := rfl
@[simp] theorem blocked_given : blocked (.given :: log) = blocked log := rfl
@[simp] theorem blocked_released : blocked (.released p :: log) = blocked log := rfl
@[simp] theorem released_nil : released ([] : List (Note α)) = [] := rfl
@[simp] theorem released_acquired : released (.acquired p :: log) = released log := rfl
@[simp] theorem released_blocked : released (.blocked p :: log) = released log := rfl
@[simp] theorem released_given : released (.given :: log) = released log := rfl
@[simp] theorem released_released : released (.released p :: log) = p :: released log := rfl

end

/-- A semaphore that started with `n` units and has the history `log` now has
    the counter `c` and the queue `waiting`. -/
structure Balanced (n : Int) (log : List (Note α)) (c : Int) (waiting : List α) : Prop where
  counter : c = n + given log - acquired log - (blocked log).length
  order : blocked log = waiting ++ released log
  length : (waiting.length : Int) = max 0 (-c)

variable {n c : Int} {log : List (Note α)} {waiting rest : List α} {p : α}

theorem Balanced.start (positive : 0 ≤ n) : Balanced n ([] : List (Note α)) n [] :=
  ⟨by simp,rfl,by simp [positive]⟩

theorem Balanced.acquire (balanced : Balanced n log c waiting) (positive : 1 ≤ c) (p : α) :
    Balanced n (.acquired p :: log) (c - 1) waiting := by
  obtain ⟨counter,order,length⟩ := balanced
  exact ⟨by simp; omega,by simpa using order,by omega⟩

theorem Balanced.block (balanced : Balanced n log c waiting) (none : c ≤ 0) (p : α) :
    Balanced n (.blocked p :: log) (c - 1) (p :: waiting) := by
  obtain ⟨counter,order,length⟩ := balanced
  exact ⟨by simp; omega,by simpa using order,by simp; omega⟩

/-- A unit that nobody waits for. -/
theorem Balanced.give (balanced : Balanced n log c waiting) (positive : 0 ≤ c) :
    Balanced n (.given :: log) (c + 1) waiting := by
  obtain ⟨counter,order,length⟩ := balanced
  exact ⟨by simp; omega,by simpa using order,by omega⟩

/-- A unit for the one who has waited longest. -/
theorem Balanced.release (balanced : Balanced n log c waiting) (form : waiting = rest ++ [p]) :
    Balanced n (.released p :: .given :: log) (c + 1) rest := by
  obtain ⟨counter,order,length⟩ := balanced
  subst form
  simp only [List.length_append,List.length_singleton] at length
  exact ⟨by simp; omega,by simpa using order,by omega⟩

/-- Units taken, at once or after a wait, come from the start or were given. -/
theorem Balanced.taken_le (balanced : Balanced n log c waiting) :
    (acquired log + (released log).length : Int) ≤ n + given log := by
  have total := congrArg List.length balanced.order
  simp only [List.length_append] at total
  have counter := balanced.counter
  have length := balanced.length
  omega

/-- Those released are the first that blocked, in that order. -/
theorem Balanced.released_suffix (balanced : Balanced n log c waiting) : released log <:+ blocked log :=
  ⟨waiting,balanced.order.symm⟩

end Psys.Counting
