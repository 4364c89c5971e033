import Psys.Counting
import Psys.Invariant

/-!
What a step of the kernel may do to semaphores and to the processes inside
`wait`: a case for each way through `semaphore.c`, and one for all other steps.
-/
namespace Psys.SemSteps
open Psys.State Psys.Context Psys.Semaphore Psys.System Psys.ProcQueue Psys.Processes Psys.Calls Psys.Waiting
open Psys.SemCalls Psys.Invariant

variable {lost : Prop} {gone : Int → Nat → Prop} {k k' : Kernel}

/-- The current process put into the waiting list, with the rest of `wait`
    still to run. -/
def suspended (k : Kernel) (sid : Int) : Kernel :=
  (enlisted k sid).setProc k.pidCour (fun c => { c with frame := .wait sid })

/-- The waiting list emptied by `sreset`, with the new counter. -/
def resetted (k : Kernel) (sid count : Int) : Kernel :=
  dismissAll (k.setSem sid (fun s => { s with c := count })) sid .sreset markReseted

/-- The waiting list emptied by `sdelete`, with the identifier freed. -/
def deleted (k : Kernel) (sid : Int) : Kernel := closed (dismissAll k sid .sdelete markDeleted) sid

/-- The calls that give `count` units to `sid`. -/
def Gives (sid : Int) (count : Nat) (e : Event) : Prop :=
  e = .call (.signal sid) ∧ count = 1 ∨ ∃ n, e = .call (.signaln sid n) ∧ count = (short n).toNat

/-- The last writes of a step are no concern of the semaphores. -/
inductive SemStep (k : Kernel) : Event → Kernel → Prop
  | still {e : Event} {k' : Kernel} (untouched : Untouched k k') : SemStep k e k'
  | created {compteur : Int} {memory : Bool} {k' : Kernel} {sid : Int} {libres : List Int}
      (form : k.sidLibres = sid :: libres) (positive : 0 ≤ short compteur)
      (untouched : Untouched (opened k sid (short compteur) libres memory) k') :
      SemStep k (.call (.screate compteur memory)) k'
  | acquired {e : Event} {sid : Int} {k' : Kernel} (used : SemInUse k.semaphores sid)
      (positive : 1 ≤ (k.semaphores sid).c) (event : e = .call (.wait sid) ∨ e = .call (.tryWait sid))
      (untouched : Untouched (taken k sid) k') : SemStep k e k'
  | blocked {sid : Int} {k' : Kernel} (used : SemInUse k.semaphores sid) (none : (k.semaphores sid).c ≤ 0)
      (going : Going k.toProcs) (untouched : Untouched (suspended k sid) k') : SemStep k (.call (.wait sid)) k'
  | signalled {e : Event} {sid : Int} {count : Nat} {k' : Kernel} (used : SemInUse k.semaphores sid)
      (room : (k.semaphores sid).c + count ≤ SHRT_MAX) (event : Gives sid count e) (going : Going k.toProcs)
      (untouched : Untouched (signalLoop sid count k) k') : SemStep k e k'
  | reseted {sid count : Int} {k' : Kernel} (used : SemInUse k.semaphores sid) (going : Going k.toProcs)
      (untouched : Untouched (resetted k sid (short count)) k') : SemStep k (.call (.sreset sid count)) k'
  | deleted {sid : Int} {k' : Kernel} (used : SemInUse k.semaphores sid) (going : Going k.toProcs)
      (untouched : Untouched (deleted k sid) k') : SemStep k (.call (.sdelete sid)) k'

/-- The end of `wait` is no concern of those that still wait. -/
theorem waitResume_untouched (active : (k.tabProc k.pidCour).state = .active) (inTab : InTab k.pidCour) :
    Untouched k (waitResume k) := by
  rcases waitResume_cases k with ⟨_,same⟩ | ⟨_,same⟩
  · rw [same]
    refine ⟨rfl,rfl,rfl,.update k.pidCour (fun p other => ?_) (fun _ => by simp [active]) (fun _ => ?_)
      (fun sid _ frame => ?_)⟩
    · simp [sysret,unmarked,other]
    · simp [sysret,unmarked,active]
    · simp [sysret,unmarked,inTab] at frame
  · rw [same]; exact sysret_untouched k _

section
variable (inside : Inside lost gone k.toProcs) (going : Going k.toProcs) (counted : Counted k)
include inside going counted

omit inside going in
theorem screate_semStep (compteur : Int) (memory : Bool) :
    SemStep k (.call (.screate compteur memory)) (screate k compteur memory) := by
  rcases screate_cases counted compteur memory with ⟨r,_,same⟩ | ⟨sid,libres,form,positive,r,same⟩
  · rw [same]; exact .still (sysret_untouched k _)
  · rw [same]; exact .created form positive (sysret_untouched _ _)

theorem wait_semStep (sid : Int) : SemStep k (.call (.wait sid)) (wait k sid) := by
  rcases wait_cases counted sid with ⟨r,_,same⟩ | ⟨used,positive,same⟩ | ⟨used,_,none,same⟩
  · rw [same]; exact .still (sysret_untouched k _)
  · rw [same]; exact .acquired used positive (.inl rfl) (sysret_untouched _ _)
  · rw [same]
    have blocked : Inside lost gone (enlisted k sid).toProcs :=
      inside.block going (blocks_waitSem sid)
    obtain ⟨q,ready⟩ := blocked.ready
    have done := scheduler_scheduled (ready.setProc k.pidCour (f := fun c => { c with frame := .wait sid })
      (fun _ => rfl) (fun _ => rfl) (fun _ => rfl))
    exact .blocked used none going ⟨rfl,rfl,rfl,Dispatched.unconcerned done.dispatched⟩

omit inside going in
theorem tryWait_semStep (sid : Int) : SemStep k (.call (.tryWait sid)) (tryWait k sid) := by
  rcases tryWait_cases counted sid with ⟨r,_,same⟩ | ⟨used,positive,same⟩
  · rw [same]; exact .still (sysret_untouched k _)
  · rw [same]; exact .acquired used positive (.inr rfl) (sysret_untouched _ _)

theorem signal_semStep (sid : Int) : SemStep k (.call (.signal sid)) (signal k sid) := by
  rcases signal_cases k sid with ⟨_,refused⟩ | ⟨used,notMost,ends⟩
  · rw [refused]
    exact .still (sysret_untouched k _)
  · have range := counted.range sid used
    obtain ⟨served,_⟩ := signalOne_served inside going counted used (by omega)
    have step : ∀ k', Untouched (signalOne k sid) k' → SemStep k (.call (.signal sid)) k' := fun k' untouched =>
      .signalled used (by omega) (.inl ⟨rfl,rfl⟩) going untouched
    rcases ends with ⟨_,called⟩ | ⟨_,called⟩
    · rw [called]
      exact step _ (callScheduler_untouched served.inside (by simp))
    · rw [called]
      exact step _ (sysret_untouched _ _)

theorem signaln_semStep (sid count : Int) : SemStep k (.call (.signaln sid count)) (signaln k sid count) := by
  have most := (short_range count).2
  rcases signaln_cases k sid count with ⟨_,refused⟩ | ⟨used,positive,room,called⟩
  · rw [refused]
    exact .still (sysret_untouched k _)
  · have fits : (k.semaphores sid).c + (short count).toNat ≤ SHRT_MAX := by omega
    have served := signalLoop_served (short count).toNat inside going counted used fits
    rw [called]
    exact .signalled used fits (.inr ⟨count,rfl,rfl⟩) going (callScheduler_untouched served.inside (by simp))

theorem sreset_semStep (sid count : Int) : SemStep k (.call (.sreset sid count)) (sreset k sid count) := by
  rcases sreset_cases k sid count with ⟨_,same⟩ | ⟨used,_,same⟩
  · rw [same]; exact .still (sysret_untouched k _)
  · let k' := k.setSem sid (fun s => { s with c := short count })
    have list : (k'.semaphores sid).procWait = (k.semaphores sid).procWait := by simp [k']
    have emptied := dismissAll_emptied (k := k') markReseted_mark .sreset inside going
      (by rw [list]; exact counted.nodup sid used) (fun p => by rw [list]; exact (counted.waiting sid used p).mp)
    rw [same]
    exact .reseted used going (callScheduler_untouched emptied.inside (by simp))

theorem sdelete_semStep (sid : Int) : SemStep k (.call (.sdelete sid)) (sdelete k sid) := by
  rcases sdelete_cases k sid with ⟨_,same⟩ | ⟨used,same⟩
  · rw [same]; exact .still (sysret_untouched k _)
  · have emptied := dismissAll_emptied markDeleted_mark .sdelete inside going (counted.nodup sid used)
      (fun p => (counted.waiting sid used p).mp)
    have closed : Inside lost gone (deleted k sid).toProcs := emptied.inside
    rw [same]
    exact .deleted used going (callScheduler_untouched closed (by simp))

end

/-- Every step of the machine is of one of these kinds. -/
theorem step_semStep (good : Good lost gone k) {e : Event} (safe : Safe k e) (heard : Heard k e ∨ lost)
    (apart : ∀ pid, Reuses k e pid → ∀ n, ¬ gone pid n) (stepped : step k e = some k') : SemStep k e k' := by
  by_cases quiet : Quiet k e
  · exact .still (step_keeps good.stable quiet safe heard apart stepped).untouched
  rcases step_cases stepped with ⟨c,rfl,mode,busy,rfl⟩ | ⟨rfl,_⟩ | ⟨rfl,_⟩ | ⟨key,rfl,_⟩ | ⟨vcNumber,rfl,_⟩ | ⟨rfl,_,rfl⟩
  · have inside := good.stable.toInside
    have going := good.stable.going mode busy
    cases c with
    | screate compteur memory => exact screate_semStep good.counted compteur memory
    | wait sid => exact wait_semStep inside going good.counted sid
    | tryWait sid => exact tryWait_semStep good.counted sid
    | signal sid => exact signal_semStep inside going good.counted sid
    | signaln sid count => exact signaln_semStep inside going good.counted sid count
    | sreset sid count => exact sreset_semStep inside going good.counted sid count
    | sdelete sid => exact sdelete_semStep inside going good.counted sid
    | _ => exact absurd trivial quiet
  · exact absurd trivial quiet
  · exact absurd trivial quiet
  · exact absurd trivial quiet
  · exact absurd trivial quiet
  · obtain ⟨busy,same⟩ := resume_wait quiet
    rw [same]
    exact .still (waitResume_untouched (good.stable.running busy) (good.stable.live busy).1.1)

end Psys.SemSteps
