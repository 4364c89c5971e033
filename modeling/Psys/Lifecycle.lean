import Psys.Invariant

/-!
The end of a process is final: its descriptor runs no more until a new process
takes it. This fails when a stale PID is left in the waiting list of a
semaphore or in a console, and when the creation of a process is given up
halfway.
-/
namespace Psys.Lifecycle
open Psys.State Psys.Context Psys.Sys Psys.System Psys.ProcQueue Psys.Family Psys.Processes Psys.Calls Psys.SemCalls
open Psys.Invariant
open Psys.Runs (Leads run reach_of_run leads_of_run)

/-- A call of `start` that takes a descriptor and then is refused something,
    checked or not. -/
def Abandons (k : Kernel) : Event → Prop
  | .call (.start ssize _ memory) => ¬ memory.Serves ∧ ∃ pid, Takes k.tabProc ssize memory pid
  | _ => False

/-- The steps that give the descriptor `pid` to a new process. -/
def Allocates (k : Kernel) : Event → Int → Prop
  | .call (.start ssize _ memory), pid => Takes k.tabProc ssize memory pid ∧ memory.Serves
  | _, _ => False

/-- The steps after which no process that has ended can be woken up. -/
def Sound (k : Kernel) (e : Event) : Prop := Safe k e ∧ ¬ Abandons k e

/-- A step that takes a descriptor gives it to a new process, or is given up. -/
theorem reuses_allocates {k : Kernel} {e : Event} {pid : Int} (sound : ¬ Abandons k e) (reuses : Reuses k e pid) :
    Allocates k e pid := by
  unfold Reuses at reuses
  split at reuses
  · exact ⟨reuses,by_contra fun unserved => sound ⟨unserved,_,reuses⟩⟩
  · exact reuses.elim

variable {lost : Prop} {gone gone' : Int → Nat → Prop} {k k' : Kernel}

/-- The invariant may watch other processes that rest. -/
theorem Good.watch (good : Good lost gone k) (rests : ∀ p n, gone' p n → Rests k.toProcs p n) : Good lost gone' k :=
  ⟨{ good.stable with rests := rests },good.counted⟩

/-- The processes that rest go on doing so. -/
theorem leads_good (good : Good True gone k)
    (path : Leads step (fun k e => Safe k e ∧ ∀ pid, Reuses k e pid → ∀ n, ¬ gone pid n) k k') :
    Good True gone k' :=
  path.invariant good (fun _ _ _ good allowed stepped => step_good good allowed.1 (.inr trivial) allowed.2 stepped)

end Psys.Lifecycle
