import Psys.Grants
import Psys.Holding

/-!
Semaphores as locks. When the processes give back only units that they hold,
no more units are held than the semaphore had at first, whatever the order of
the system calls and the interrupts of the clock: with one unit, at most one
process is in its critical section. A key could let a process out of `wait`
without a unit, by a stale `waiting_pid`.
-/
namespace Psys.Exclusion
open Psys.State Psys.Context Psys.Semaphore Psys.System Psys.Processes Psys.Calls Psys.Waiting Psys.SemCalls Psys.Invariant
open Psys.SemSteps Psys.WaitingLists Psys.Grants Psys.Holding
open Psys.Counting (acquired released)
open Psys.Runs (run reach_of_run)

/-- The kernel, with the units of one semaphore that each process has got and
    not given back. -/
structure Machine where
  kernel : Kernel
  held : Int → Int

/-- What a note of the history means for the units in the hands of processes. -/
def moveOf (sid caller : Int) : SemNote → Option (Move Int)
  | .created _ _ | .blocked _ _ => none
  | .acquired s p | .released s p _ => if s = sid then some (.take p) else none
  | .signalled s => if s = sid then some (.give caller) else none

def moves (sid caller : Int) (notes : List SemNote) : List (Move Int) := notes.filterMap (moveOf sid caller)

/-- The notes that a step adds. -/
def news (k k' : Kernel) : List SemNote := k'.semLog.take (k'.semLog.length - k.semLog.length)

def step (sid : Int) (m : Machine) (e : Event) : Option Machine :=
  (System.step m.kernel e).map (fun k => ⟨k,after (moves sid m.kernel.pidCour (news m.kernel k)) m.held⟩)

def Boot (m : Machine) : Prop := System.Boot m.kernel ∧ m.held = fun _ => 0

/-- No key arrives, nobody kills a process that waits on a semaphore, none is
    reset or deleted, and the process gives back no more units than it holds. -/
def Disciplined (sid : Int) (m : Machine) (e : Event) : Prop :=
  Spares m.kernel e ∧ Lasting e ∧ ∀ count, Gives sid count e → (count : Int) ≤ m.held m.kernel.pidCour

abbrev Reach (sid : Int) : Machine → Prop := Runs.Reach Boot (step sid) (Disciplined sid)

variable {gone : Int → Nat → Prop} {k k' : Kernel} {m : Machine} {sid caller : Int}

/-! ### What the moves of a history are -/

theorem moves_append (late early : List SemNote) :
    moves sid caller (late ++ early) = moves sid caller late ++ moves sid caller early := List.filterMap_append

theorem history_append (late early : List SemNote) :
    history sid (late ++ early) = history sid late ++ history sid early := List.filterMap_append

theorem moves_taken (notes : List SemNote) :
    taken (moves sid caller notes) = acquired (history sid notes) + (released (history sid notes)).length := by
  induction notes with
  | nil => rfl
  | cons note rest ih =>
    cases note with
    | created s n => exact ih
    | blocked s p =>
      by_cases same : s = sid <;> simpa [moves,moveOf,history,noteFor,same,List.filterMap_cons] using ih
    | acquired s p | signalled s | released s p c =>
      by_cases same : s = sid
      · simp_all [moves,moveOf,history,noteFor]
        try omega
      · simp_all [moves,moveOf,history,noteFor]

theorem moves_given (notes : List SemNote) :
    given (moves sid caller notes) = Counting.given (history sid notes) := by
  induction notes with
  | nil => rfl
  | cons note rest ih =>
    cases note with
    | created s n => exact ih
    | blocked s p =>
      by_cases same : s = sid <;> simpa [moves,moveOf,history,noteFor,same,List.filterMap_cons] using ih
    | acquired s p | signalled s | released s p c =>
      by_cases same : s = sid <;> simp_all [moves,moveOf,history,noteFor]

theorem moves_giver {notes : List SemNote} {p : Int} (member : .give p ∈ moves sid caller notes) : p = caller := by
  obtain ⟨note,_,move⟩ := List.mem_filterMap.mp member
  cases note <;> simp [moveOf] at move
  exact move.2.symm

/-! ### What a step adds to the history -/

/-- A step adds notes by which processes take units, and the caller gives `n`. -/
def Told (sid caller : Int) (k k' : Kernel) (n : Nat) : Prop :=
  ∃ notes, k'.semLog = notes ++ k.semLog ∧ (∀ p, .take p ∈ moves sid caller notes → InTab p) ∧
    given (moves sid caller notes) = n

theorem Told.refl (k : Kernel) : Told sid caller k k 0 := ⟨[],rfl,by simp [moves],rfl⟩

theorem Told.trans {k'' : Kernel} {n n' : Nat} (first : Told sid caller k k' n) (second : Told sid caller k' k'' n') :
    Told sid caller k k'' (n' + n) := by
  obtain ⟨early,semLog,users,units⟩ := first
  obtain ⟨late,semLog',users',units'⟩ := second
  refine ⟨late ++ early,by rw [semLog',semLog,List.append_assoc],fun p member => ?_,?_⟩
  · rw [moves_append,List.mem_append] at member
    exact member.elim (users' p) (users p)
  · rw [moves_append,given,List.countP_append]
    exact congrArg₂ (· + ·) units' units

theorem Told.untouched {k'' : Kernel} {n : Nat} (told : Told sid caller k k' n) (untouched : Untouched k' k'') :
    Told sid caller k k'' n := by
  obtain ⟨notes,semLog,rest⟩ := told
  exact ⟨notes,by rw [untouched.semLog,semLog],rest⟩

/-- One unit of `signal` or `signaln`. -/
theorem signalOne_told (sid caller : Int) (counted : Counted k) {s : Int} (used : SemInUse k.semaphores s)
    (most : (k.semaphores s).c < SHRT_MAX) : Told sid caller k (signalOne k s) (if s = sid then 1 else 0) := by
  rcases signalOne_cases counted used most with ⟨_,_,same⟩ | ⟨rest,pid,form,_,same⟩
  · rw [same]
    refine ⟨[.signalled s],rfl,?_,?_⟩ <;> by_cases here : s = sid <;> simp [moves,moveOf,here]
  · have blocked := (counted.waiting s used pid).mp (by simp [form])
    rw [same]
    refine ⟨[.released s pid .signal,.signalled s],rfl,fun p member => ?_,?_⟩
    · by_cases here : s = sid
      · have isPid : p = pid := by simpa [moves,moveOf,here] using member
        exact isPid ▸ blocked.1.1
      · simp [moves,moveOf,here] at member
    · by_cases here : s = sid <;> simp [moves,moveOf,here]

theorem signalLoop_told {lost : Prop} (sid caller : Int) (inside : Inside lost gone k.toProcs) (going : Going k.toProcs) (counted : Counted k)
    {s : Int} {count : Nat} (used : SemInUse k.semaphores s) (room : (k.semaphores s).c + count ≤ SHRT_MAX) :
    Told sid caller k (signalLoop s count k) (if s = sid then count else 0) := by
  have all := signalLoop_invariant (P := fun left k' => ∃ n, Told sid caller k k' (if s = sid then n else 0) ∧ n + left = count)
    (fun left k' _ _ counted used most ⟨n,told,total⟩ => by
      refine ⟨n + 1,?_,by omega⟩
      have one := told.trans (signalOne_told sid caller counted used most)
      by_cases here : s = sid
      · simpa [here,Nat.add_comm] using one
      · simpa [here] using one)
    count inside going counted used room ⟨0,by simpa using Told.refl k,by omega⟩
  obtain ⟨n,told,total⟩ := all
  rwa [show n = count from total] at told

theorem step_told {lost : Prop} (sid : Int) (good : Good lost gone k) {e : Event} (lasting : Lasting e) (kind : SemStep k e k')
    (busy : InTab k.pidCour ∨ ∀ c, e ≠ .call c) :
    ∃ n, Told sid k.pidCour k k' n ∧ (n = 0 ∨ InTab k.pidCour ∧ Gives sid n e) := by
  have counted := good.counted
  cases kind with
  | still untouched => exact ⟨0,(Told.refl k).untouched untouched,.inl rfl⟩
  | @created _ memory _ s libres _ _ untouched =>
    refine ⟨0,Told.untouched ?_ untouched,.inl rfl⟩
    cases memory with
    | false => exact ⟨[],rfl,by simp [moves],rfl⟩
    | true => exact ⟨[.created s _],rfl,by simp [moves,moveOf],rfl⟩
  | @acquired _ s _ _ _ event untouched =>
    refine ⟨0,Told.untouched ⟨[.acquired s k.pidCour],rfl,fun p member => ?_,?_⟩ untouched,.inl rfl⟩
    · have inTab : InTab k.pidCour := busy.resolve_right (fun never => by rcases event with rfl | rfl <;> exact never _ rfl)
      by_cases here : s = sid
      · have isPid : p = k.pidCour := by simpa [moves,moveOf,here] using member
        exact isPid ▸ inTab
      · simp [moves,moveOf,here] at member
    · by_cases here : s = sid <;> simp [moves,moveOf,here]
  | @blocked s _ _ _ _ untouched =>
    exact ⟨0,Told.untouched ⟨[.blocked s k.pidCour],rfl,by simp [moves,moveOf],rfl⟩ untouched,.inl rfl⟩
  | @signalled _ s count _ used room event going untouched =>
    have told := signalLoop_told sid k.pidCour good.stable.toInside going counted used room
    have inTab : InTab k.pidCour := busy.resolve_right (fun never => by
      rcases event with ⟨rfl,_⟩ | ⟨_,rfl,_⟩ <;> exact never _ rfl)
    refine ⟨_,told.untouched untouched,?_⟩
    by_cases here : s = sid
    · subst here
      rw [if_pos rfl]
      exact .inr ⟨inTab,event⟩
    · exact .inl (if_neg here)
  | reseted _ _ _ | deleted _ _ _ => exact lasting.elim

/-! ### Runs -/

/-- The processes hold what the history says was taken and not given back. -/
structure Fair (sid : Int) (m : Machine) : Prop where
  positive : ∀ p, 0 ≤ m.held p
  outside : ∀ p, ¬ InTab p → m.held p = 0
  total : ∑ p ∈ pids.toFinset, m.held p = acquired (history sid m.kernel.semLog) +
    (released (history sid m.kernel.semLog)).length - Counting.given (history sid m.kernel.semLog)

theorem after_other {notes : List (Move Int)} {held : Int → Int} {p : Int} (never : ∀ m ∈ notes, m.user ≠ p) :
    after notes held p = held p := by
  induction notes with
  | nil => rfl
  | cons move rest ih =>
    have tail := ih (fun m member => never m (List.mem_cons_of_mem _ member))
    have other : p ≠ move.user := (never move List.mem_cons_self).symm
    cases move with
    | take q | give q => exact (Function.update_of_ne other _ _).trans tail

theorem step_fair {lost : Prop} (good : Good lost gone m.kernel) (fair : Fair sid m) {e : Event} (lasting : Lasting e)
    (held : ∀ count, Gives sid count e → (count : Int) ≤ m.held m.kernel.pidCour) (kind : SemStep m.kernel e k')
    (busy : InTab m.kernel.pidCour ∨ ∀ c, e ≠ .call c) :
    Fair sid ⟨k',after (moves sid m.kernel.pidCour (news m.kernel k')) m.held⟩ := by
  obtain ⟨n,⟨notes,semLog,users,units⟩,gives⟩ := step_told sid good lasting kind busy
  have fresh : news m.kernel k' = notes := by simp [news,semLog]
  rw [fresh]
  have givers : ∀ p, .give p ∈ moves sid m.kernel.pidCour notes → p = m.kernel.pidCour := fun p => moves_giver
  have inside : ∀ move ∈ moves sid m.kernel.pidCour notes, InTab move.user := by
    intro move member
    cases move with
    | take p => exact users p member
    | give p =>
      rcases gives with none | ⟨inTab,_⟩
      · rw [none,given,List.countP_eq_zero] at units
        exact absurd rfl (units _ member)
      · exact givers p member ▸ inTab
  refine ⟨fun p => ?_,fun p outside => ?_,?_⟩
  · have least : m.held p - _ ≤ after (moves sid m.kernel.pidCour notes) m.held p := after_ge givers p
    have before := fair.positive p
    rw [units] at least
    refine le_trans ?_ least
    split
    next same =>
      rcases gives with rfl | ⟨_,event⟩
      · simpa using before
      · have enough := held n event
        rw [same]
        omega
    next => simpa using before
  · exact (after_other (fun move member same => outside (by rw [← same]; exact inside move member))).trans (fair.outside p outside)
  · have total := sum_after (s := pids.toFinset)
      (fun move member => List.mem_toFinset.mpr ((mem_pids _).mpr (inside move member))) m.held
    show ∑ p ∈ pids.toFinset, after (moves sid m.kernel.pidCour notes) m.held p = _
    rw [total,fair.total,moves_taken,moves_given]
    show _ = (acquired (history sid k'.semLog) : Int) + _ - _
    rw [semLog,history_append]
    simp only [acquired,released,Counting.given,List.countP_append,List.filterMap_append,List.length_append]
    omega

theorem reach_kernel (reached : Reach sid m) : System.Reach (fun k e => Spares k e ∧ Lasting e) m.kernel := by
  induction reached with
  | start boot => exact .start boot.1
  | next _ allowed stepped ih =>
    obtain ⟨k,kernelStep,rfl⟩ := Option.map_eq_some_iff.mp stepped
    exact .next ih ⟨allowed.1,allowed.2.1⟩ kernelStep

theorem reach_fair (reached : Reach sid m) : Fair sid m := by
  induction reached with
  | @start m boot =>
    obtain ⟨⟨outside,consoles,same⟩,none⟩ := boot
    refine ⟨fun p => by simp [none],fun p _ => by simp [none],?_⟩
    simp [none,same,kernelStart,history]
  | @next m m' e before allowed stepped ih =>
    obtain ⟨k,kernelStep,rfl⟩ := Option.map_eq_some_iff.mp stepped
    obtain ⟨good,_⟩ := reach_ledger (reach_kernel before)
    have kind := step_semStep good allowed.1.safe (.inr trivial) (fun _ _ _ => id) kernelStep
    refine step_fair good ih allowed.2.1 allowed.2.2 kind ?_
    by_cases called : ∃ c, e = .call c
    · obtain ⟨c,rfl⟩ := called
      exact .inl (good.stable.live (step_called kernelStep).2.1).1.1
    · exact .inr (fun c same => called ⟨c,same⟩)

end Psys.Exclusion
