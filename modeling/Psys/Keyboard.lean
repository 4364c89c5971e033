import Psys.Registration

/-!
The keyboard interrupt and the processes. A key wakes up the process that the
console remembers, whatever that process does by now: it may have left
`buffer_pop` long ago, since nothing clears `waiting_pid`.
-/
namespace Psys.Keyboard
open Psys.State Psys.Context Psys.System Psys.Devices Psys.ProcQueue Psys.Registration
open Psys.Invariant (Safe reach_safe)
open Psys.Runs (run reach_of_run)

variable {k : Kernel} {key : UInt8}

/-- A key makes `signal_new_io` wake up the process `p`. -/
structure Wakes (k : Kernel) (key : UInt8) (p : Int) : Prop where
  pushed : Devices.translate key ≠ 8
  notifies : Notifies (k.virtualConsoles k.vcCurrent) (Devices.translate key)
  waiting : (k.virtualConsoles k.vcCurrent).waitingPid = p
  used : InUse k.tabProc p

/-- A key wakes up nobody but a process that sleeps on the visible console. -/
def Expected (k : Kernel) (key : UInt8) : Prop := ∀ p, Wakes k key p → SleepsOn k.tabProc k.vcCurrent p

/-- Nothing has happened to the processes, except perhaps to readers that
    slept on the console `v`: descriptors, the place in the activable list and
    in the lists of the semaphores, and the current process stay. -/
structure Undisturbed (k k' : Kernel) (v : Int) : Prop where
  process : ∀ p, ¬ SleepsOn k.tabProc v p → k'.tabProc p = k.tabProc p
  queue : ∀ q, Ring.IsRing k.links q →
    ∃ q', Ring.IsRing k'.links q' ∧ q.Sublist q' ∧ ∀ p ∈ q', p ∉ q → SleepsOn k.tabProc v p
  semaphores : k'.semaphores = k.semaphores
  current : k'.pidCour = k.pidCour

theorem Wakes.wakeup {p : Int} (wakes : Wakes k key p) : (keyboardData k key).toProcs = wakeupProcess k.toProcs p :=
  keyboardData_wake wakes.pushed wakes.notifies wakes.waiting

theorem keyboardData_still (none : ∀ p, ¬ Wakes k key p) : (keyboardData k key).toProcs = k.toProcs := by
  unfold keyboardData bufferPush
  split
  · rfl
  · rename_i pushed
    dsimp only
    split
    · rename_i notifies
      exact wakeupProcess_unused (fun used => none _ ⟨pushed,notifies,rfl,used⟩)
    · rfl

theorem keyboardData_semaphores (k : Kernel) (key : UInt8) : (keyboardData k key).semaphores = k.semaphores := by
  unfold keyboardData bufferPush
  split
  · rfl
  · dsimp only
    split <;> rfl

/-- A reader is woken up and joins the activable list. -/
theorem woken_undisturbed {q : List Int} (ready : Ready k.toProcs q) {p : Int} (wakes : Wakes k key p)
    (sleeps : SleepsOn k.tabProc k.vcCurrent p) : Undisturbed k (keyboardData k key) k.vcCurrent := by
  have woken := wakes.wakeup
  refine ⟨?_,?_,keyboardData_semaphores k key,by simp [woken]⟩
  · intro x awake
    have other : x ≠ p := by
      rintro rfl
      exact awake sleeps
    simp [woken,other]
  · intro list ring
    obtain rfl := Ring.ring_unique ready.ring ring
    obtain ⟨l,r,rfl,joined⟩ := wakeupProcess_joins ready sleeps
    refine ⟨l ++ p :: r,woken ▸ joined.ring,?_,?_⟩
    · simp
    · intro x member new
      have same : x = p := by
        simp only [List.mem_append,List.mem_cons,not_or] at member new
        rcases member with left | same | right
        · exact absurd left new.1
        · exact same
        · exact absurd right new.2
      exact same ▸ sleeps

theorem wakeupProcess_links {k : Procs} {p : Int} (used : InUse k.tabProc p) : (wakeupProcess k p).links =
    (Ring.add (Ring.clear k.links (.elem p)) fuel (stopFor (k.setState p .activable).tabProc p) p).getD
      (Ring.clear k.links (.elem p)) := by
  have woken : wakeupProcess k p = queueAdd (initLink (k.setState p .activable) p) p := by
    unfold wakeupProcess
    have low := used.1.1
    have high := used.1.2
    rw [if_neg (by rw [used.2]; simp; omega)]
  have same : (k.setState p .activable).links = k.links := rfl
  rw [woken,← same]
  generalize k.setState p .activable = s
  cases added : Ring.add (Ring.clear s.links (.elem p)) fuel (stopFor s.tabProc p) p with
  | none =>
    simp only [queueAdd,initLink,added]
    rfl
  | some links => simp only [queueAdd,initLink,added,Option.getD_some]

/-- Another process in use is not woken up without being disturbed: it loses
    its state, or its place in the activable list. -/
theorem woken_disturbed {q : List Int} (ready : Ready k.toProcs q) {p : Int} (wakes : Wakes k key p)
    (awake : ¬ SleepsOn k.tabProc k.vcCurrent p) : ¬ Undisturbed k (keyboardData k key) k.vcCurrent := by
  intro undisturbed
  have woken := wakes.wakeup
  have activable : (k.tabProc p).state = .activable := by
    rw [← undisturbed.process p awake,woken]
    simp [wakes.used]
  have member : p ∈ q := (ready.member p).mpr ⟨wakes.used,activable⟩
  obtain ⟨l,r,rfl⟩ := List.append_of_mem member
  obtain ⟨q',ring',sub,_⟩ := undisturbed.queue _ ready.ring
  have broken := Ring.add_again ready.ring fuel (stopFor (k.toProcs.setState p .activable).tabProc p)
  rw [← wakeupProcess_links wakes.used,← woken] at broken
  have inside : Ring.brink l ∈ Ring.cycle q' := Ring.brink_mem (fun x left => sub.subset (by simp [left]))
  exact broken.2 (Ring.next_back ring' inside broken.1).2

end Psys.Keyboard
