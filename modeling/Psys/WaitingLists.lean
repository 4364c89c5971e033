import Psys.Invariant

/-!
The waiting lists of the semaphores hold the processes that wait, once each,
and negative counters count them. This fails when `kill` ends a process that
waits: its unit is given back, and its PID stays in the list.
-/
namespace Psys.WaitingLists
open Psys.State Psys.Context Psys.System Psys.Waiting Psys.SemCalls Psys.Invariant
open Psys.Runs (run reach_of_run)

/-- The keyboard aside, the steps that kill no process that waits on a semaphore. -/
def Spares (k : Kernel) : Event → Prop
  | .call (.kill pid) => 1 < pid → InUse k.tabProc pid → (k.tabProc pid).state ≠ .waitSem
  | .key _ => False
  | _ => True

theorem Spares.safe {k : Kernel} {e : Event} (spares : Spares k e) : Safe k e := by
  cases e with
  | call c =>
    cases c with
    | kill pid => exact spares
    | _ => trivial
  | key c => exact spares.elim
  | _ => trivial

/-- The system calls on semaphores and the life of processes, from one
    interrupt of the clock to the next. -/
def Listed : Event → Prop
  | .call (.screate _ _) | .call (.wait _) | .call (.tryWait _) | .call (.signal _) | .call (.signaln _ _)
  | .call (.sreset _ _) | .call (.sdelete _) | .call (.start _ _ _) | .call (.exit _) | .call (.kill _)
  | .call (.waitpid _ _) | .tick | .resume => True
  | _ => False

end Psys.WaitingLists
