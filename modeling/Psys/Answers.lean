import Psys.Scheduling
import Psys.SemSteps

/-!
The answer of a call of `wait` that had to block. It tells what took the
process out of the waiting list: 0 for a signal, -4 for `sreset`, -3 for
`sdelete`. The mark of `sdelete` is never taken away, so this fails when a
signal releases a process with an old mark.
-/
namespace Psys.Answers
open Psys.State Psys.Context Psys.Semaphore Psys.System Psys.ProcQueue Psys.Family Psys.Processes Psys.Waiting
open Psys.SemCalls Psys.Invariant Psys.SemSteps Psys.WaitingLists Psys.Scheduling
open Psys.Runs (run reach_of_run)

variable {lost : Prop} {gone : Int → Nat → Prop} {k k' : Kernel}

/-- What the history says about one process: that it blocked on a semaphore, or
    what released it. -/
def about (p : Int) : SemNote → Option (Int × Option Cause)
  | .blocked s q => if q = p then some (s,none) else none
  | .released s q cause => if q = p then some (s,some cause) else none
  | _ => none

def passage (p : Int) (log : List SemNote) : List (Int × Option Cause) := log.filterMap (about p)

/-- The value that `wait` must return. -/
def answer : Cause → Int
  | .signal => 0
  | .sreset => -4
  | .sdelete => -3

/-- The marks of a process that has been released. -/
def Told (c : Context) : Cause → Prop
  | .signal => c.sidReseted = false ∧ c.sidDeleted = false
  | .sreset => c.sidReseted = true
  | .sdelete => c.sidReseted = false ∧ c.sidDeleted = true

/-- The history of a process inside `wait(sid)` ends with its block, and with
    its release once it waits no more; the marks tell the cause. -/
def Noted (k : Kernel) (p sid : Int) : Prop :=
  (k.tabProc p).state = .waitSem ∧ (∃ rest, passage p k.semLog = (sid,none) :: rest) ∨
    (k.tabProc p).state ≠ .waitSem ∧
      ∃ cause rest, passage p k.semLog = (sid,some cause) :: (sid,none) :: rest ∧ Told (k.tabProc p) cause

def Marks (k : Kernel) : Prop :=
  ∀ p sid, Live k.tabProc p → (k.tabProc p).frame = .wait sid → Noted k p sid

/-- The processes that `count` units on a semaphore release have no mark of an
    old `sdelete`. -/
def Clean (k : Kernel) (sid : Int) (count : Nat) : Prop :=
  ∀ p ∈ (k.semaphores sid).procWait.reverse.take count, (k.tabProc p).sidDeleted = false

/-- The steps by which no signal releases a process with an old mark. -/
def Unstained (k : Kernel) : Event → Prop
  | .call (.signal sid) => SemInUse k.semaphores sid → Clean k sid 1
  | .call (.signaln sid count) => SemInUse k.semaphores sid → Clean k sid (short count).toNat
  | _ => True

theorem Told.marks {c c' : Context} (reseted : c'.sidReseted = c.sidReseted) (deleted : c'.sidDeleted = c.sidDeleted)
    {cause : Cause} (told : Told c cause) : Told c' cause := by
  cases cause <;> simpa only [Told,reseted,deleted] using told

theorem Marks.untouched (marks : Marks k) (untouched : Untouched k k') : Marks k' := by
  intro p sid live frame
  obtain ⟨before,frame',reseted,deleted,waits⟩ := untouched.processes.waits p sid live frame
  rw [Noted,untouched.semLog,ne_eq,waits]
  refine (marks p sid before frame').imp_right ?_
  rintro ⟨awake,cause,rest,form,told⟩
  exact ⟨awake,cause,rest,form,told.marks reseted deleted⟩

/-- Only notes that are about other processes are added. -/
theorem Marks.notes (marks : Marks k) (notes : List SemNote) (tabProc : k'.tabProc = k.tabProc)
    (semLog : k'.semLog = notes ++ k.semLog) (others : ∀ p, passage p notes = []) : Marks k' := by
  intro p sid live frame
  have same : passage p k'.semLog = passage p k.semLog := by
    rw [semLog,passage,List.filterMap_append]
    exact congrArg (· ++ passage p k.semLog) (others p)
  rw [tabProc] at live frame
  rw [Noted,same,tabProc]
  exact marks p sid live frame

theorem suspended_marks (going : Going k.toProcs) (marks : Marks k) (sid : Int) : Marks (suspended k sid) := by
  intro p s live frame
  have inTab := going.live.1.1
  by_cases current : p = k.pidCour
  · subst current
    have same : s = sid := by simpa [suspended,enlisted,inTab,eq_comm] using frame
    subst same
    exact .inl ⟨by simp [suspended,enlisted,inTab],passage k.pidCour k.semLog,by
      simp [suspended,enlisted,passage,about]⟩
  · have table : (suspended k sid).tabProc p = k.tabProc p := by simp [suspended,enlisted,current]
    have log : passage p (suspended k sid).semLog = passage p k.semLog := by
      simp [suspended,enlisted,passage,about,Ne.symm current]
    rw [Noted,log,table]
    rw [Live,InUse,table] at live
    rw [table] at frame
    exact marks p s live frame

/-- A process that blocks is inside `wait`, and has no mark of `sreset`. -/
theorem Blocked.inside (inside : Inside lost gone k.toProcs) (going : Going k.toProcs) {p sid : Int}
    (blocked : Blocked k.tabProc p sid) :
    (k.tabProc p).frame = .wait sid ∧ (k.tabProc p).sidReseted = false := by
  have other : p ≠ k.pidCour := fun same => by
    have := blocked.2.1
    rw [same,going.active] at this
    simp at this
  have live : Live k.tabProc p := ⟨blocked.1,by simp [blocked.2.1],by simp [blocked.2.1]⟩
  have settled := inside.settled p other
  have holds := settled.holds live
  refine ⟨?_,?_⟩
  · cases form : (k.tabProc p).frame with
    | wait s =>
      simp only [form,Holds,blocked.2.1,blocked.2.2,Runnable,reduceCtorEq,or_self,true_and,false_or] at holds
      rw [holds]
    | _ => simp [form,Holds,blocked.2.1,Runnable] at holds
  · by_contra mark
    have := (settled.reseted live (by simpa using mark)).1
    simp [blocked.2.1,Runnable] at this

/-- A process that blocks is released, and told why. -/
theorem Noted.released (inside : Inside lost gone k.toProcs) (going : Going k.toProcs) (marks : Marks k) {p sid : Int}
    (blocked : Blocked k.tabProc p sid) {cause : Cause} {s : Int} (frame : (k'.tabProc p).frame = (k.tabProc p).frame)
    (form : (k'.tabProc p).frame = .wait s) (awake : (k'.tabProc p).state = .activable)
    (semLog : passage p k'.semLog = (sid,some cause) :: passage p k.semLog) (told : Told (k'.tabProc p) cause) :
    Noted k' p s := by
  obtain ⟨inWait,_⟩ := Blocked.inside inside going blocked
  have live : Live k.tabProc p := ⟨blocked.1,by simp [blocked.2.1],by simp [blocked.2.1]⟩
  have same : s = sid := by
    have := form.symm.trans (frame.trans inWait)
    simpa using this
  subst same
  obtain ⟨_,rest,noted⟩ := (marks p s live inWait).resolve_right (fun ended => ended.1 blocked.2.1)
  exact .inr ⟨by simp [awake],cause,rest,by rw [semLog,noted],told⟩

theorem signalOne_marks (inside : Inside lost gone k.toProcs) (going : Going k.toProcs) (counted : Counted k) {sid : Int}
    (used : SemInUse k.semaphores sid) (most : (k.semaphores sid).c < SHRT_MAX) {count : Nat}
    (known : Marks k ∧ Clean k sid (count + 1)) : Marks (signalOne k sid) ∧ Clean (signalOne k sid) sid count := by
  obtain ⟨marks,clean⟩ := known
  rcases signalOne_cases counted used most with ⟨none,_,same⟩ | ⟨rest,pid,form,_,same⟩
  · rw [same]
    have noted : Marks (raised k sid) := marks.notes [.signalled sid] rfl rfl (fun _ => rfl)
    exact ⟨noted,by simp [Clean,raised,none]⟩
  · have blocked := (counted.waiting sid used pid).mp (by simp [form])
    have first : pid ∈ (k.semaphores sid).procWait.reverse.take (count + 1) := by simp [form]
    have later : ∀ p ∈ rest.reverse.take count, p ∈ (k.semaphores sid).procWait.reverse.take (count + 1) :=
      fun p member => by simpa [form] using .inr member
    have log : ∀ p, passage p (relieved k sid pid).semLog =
        if p = pid then (sid,some .signal) :: passage p k.semLog else passage p k.semLog := fun p => by
      by_cases same : p = pid
      · subst same; simp [relieved,raised,passage,about,List.filterMap_cons]
      · simp [relieved,raised,passage,about,List.filterMap_cons,Ne.symm same,same]
    rw [same]
    refine ⟨fun p s live frame => ?_,fun p member => ?_⟩
    · by_cases isPid : p = pid
      · subst isPid
        have told : Told ((relieved k sid p).tabProc p) .signal :=
          ⟨by simpa [relieved] using (Blocked.inside inside going blocked).2,by simpa [relieved] using clean p first⟩
        exact Noted.released inside going marks blocked (by simp [relieved]) frame (by simp [relieved,blocked.1])
          (by rw [log,if_pos rfl]) told
      · have table : (relieved k sid pid).tabProc p = k.tabProc p := by simp [relieved,isPid]
        rw [Live,InUse,table] at live
        rw [table] at frame
        rw [Noted,log,if_neg isPid,table]
        exact marks p s live frame
    · have list : ((relieved k sid pid).semaphores sid).procWait = rest := by simp [relieved,raised,form]
      rw [list] at member
      simpa [relieved] using clean p (later p member)

/-- The list that is emptied tells every process in it the same. -/
theorem emptied_marks (inside : Inside lost gone k.toProcs) (going : Going k.toProcs) (marks : Marks k)
    {mark : Context → Context} (only : Mark mark) {sid : Int} {cause : Cause}
    (emptied : Emptied lost gone k sid cause mark k') (nodup : (k.semaphores sid).procWait.Nodup)
    (blocked : ∀ p ∈ (k.semaphores sid).procWait, Blocked k.tabProc p sid)
    (told : ∀ c : Context, c.sidReseted = false → Told (mark c) cause) : Marks k' := by
  have log : ∀ p, passage p k'.semLog =
      if p ∈ (k.semaphores sid).procWait then (sid,some cause) :: passage p k.semLog else passage p k.semLog := by
    intro p
    rw [emptied.semLog,passage,List.filterMap_append,List.map_reverse,List.filterMap_reverse,List.filterMap_map]
    have one : (k.semaphores sid).procWait.filterMap (about p ∘ fun p => .released sid p cause) =
        if p ∈ (k.semaphores sid).procWait then [(sid,some cause)] else [] := by
      generalize (k.semaphores sid).procWait = list at nodup
      induction list with
      | nil => rfl
      | cons q rest ih =>
        obtain ⟨fresh,distinct⟩ := List.nodup_cons.mp nodup
        rw [List.filterMap_cons,ih distinct]
        by_cases same : q = p
        · subst same; simp [about,fresh]
        · simp [about,same,Ne.symm same]
    rw [one]
    split <;> rfl
  intro p s live frame
  by_cases member : p ∈ (k.semaphores sid).procWait
  · have table : k'.tabProc p = { mark (k.tabProc p) with state := .activable } := by
      rw [emptied.tabProc p,if_pos member]
    have kept : (k'.tabProc p).frame = (k.tabProc p).frame := by
      rw [table]; exact (congrArg Context.frame (only.only (k.tabProc p)) :)
    refine Noted.released inside going marks (blocked p member) kept frame (by rw [table])
      (by rw [log,if_pos member]) ?_
    rw [table]
    exact (told _ (Blocked.inside inside going (blocked p member)).2).marks rfl rfl
  · have table : k'.tabProc p = k.tabProc p := by rw [emptied.tabProc p,if_neg member]
    rw [Live,InUse,table] at live
    rw [table] at frame
    rw [Noted,log,if_neg member,table]
    exact marks p s live frame

/-- Every step keeps the marks right. -/
theorem step_marks (good : Good lost gone k) (marks : Marks k) {e : Event} (unstained : Unstained k e)
    (kind : SemStep k e k') : Marks k' := by
  have inside := good.stable.toInside
  have counted := good.counted
  cases kind with
  | still untouched => exact marks.untouched untouched
  | @created compteur memory _ sid libres form positive untouched =>
    refine Marks.untouched ?_ untouched
    cases memory with
    | true => exact marks.notes [.created sid (short compteur)] rfl rfl (fun _ => rfl)
    | false => exact marks.notes [] rfl rfl (fun _ => rfl)
  | @acquired _ sid _ used positive _ untouched =>
    have noted : Marks (taken k sid) := marks.notes [.acquired sid k.pidCour] rfl rfl (fun _ => rfl)
    exact noted.untouched untouched
  | @blocked sid _ used none going untouched => exact (suspended_marks going marks sid).untouched untouched
  | @signalled _ sid count _ used room event going untouched =>
    have clean : Clean k sid count := by
      rcases event with ⟨rfl,rfl⟩ | ⟨n,rfl,rfl⟩ <;> exact unstained used
    refine Marks.untouched (k := signalLoop sid count k) ?_ untouched
    exact (signalLoop_invariant (P := fun count k => Marks k ∧ Clean k sid count)
      (fun _ _ inside going counted used most known => signalOne_marks inside going counted used most known) count
      inside going counted used room ⟨marks,clean⟩).1
  | @reseted sid count _ used going untouched =>
    refine Marks.untouched (k := resetted k sid (short count)) ?_ untouched
    let k₁ := k.setSem sid (fun s => { s with c := short count })
    have list : (k₁.semaphores sid).procWait = (k.semaphores sid).procWait := by simp [k₁]
    have nodup : (k₁.semaphores sid).procWait.Nodup := by rw [list]; exact counted.nodup sid used
    have blocked : ∀ p ∈ (k₁.semaphores sid).procWait, Blocked k₁.tabProc p sid := fun p => by
      rw [list]; exact (counted.waiting sid used p).mp
    exact emptied_marks (k := k₁) inside going marks markReseted_mark
      (dismissAll_emptied markReseted_mark .sreset inside going nodup blocked) nodup blocked (fun _ _ => rfl)
  | @deleted sid _ used going untouched =>
    refine Marks.untouched (k := deleted k sid) ?_ untouched
    have nodup := counted.nodup sid used
    have blocked : ∀ p ∈ (k.semaphores sid).procWait, Blocked k.tabProc p sid := fun p =>
      (counted.waiting sid used p).mp
    have emptied : Marks (dismissAll k sid .sdelete markDeleted) :=
      emptied_marks inside going marks markDeleted_mark
        (dismissAll_emptied markDeleted_mark .sdelete inside going nodup blocked) nodup blocked
        (fun c reseted => ⟨by simp [markDeleted,reseted],by simp [markDeleted,reseted]⟩)
    exact emptied.notes [] rfl rfl (fun _ => rfl)

theorem reach_marks (reached : Reach (fun k e => Spares k e ∧ Unstained k e) k) :
    Good True (fun _ _ => False) k ∧ Marks k := by
  induction reached with
  | start boot =>
    refine ⟨boot_good boot,fun p sid live frame => ?_⟩
    simp [(boot_init boot live.1).2.2.1] at frame
  | next _ allowed stepped ih =>
    have kind := step_semStep ih.1 allowed.1.safe (.inr trivial) (fun _ _ _ => id) stepped
    exact ⟨step_good ih.1 allowed.1.safe (.inr trivial) (fun _ _ _ => id) stepped,step_marks ih.1 ih.2 allowed.2 kind⟩

/-- A call of `wait` that had to block returns the answer that belongs to what
    took the process out of the waiting list. -/
theorem wait_answers (reached : Reach (fun k e => Spares k e ∧ Unstained k e) k) {sid : Int} (busy : k.pidCour ≠ 0)
    (frame : (k.tabProc k.pidCour).frame = .wait sid) (stepped : step k .resume = some k') :
    ∃ cause rest, passage k.pidCour k.semLog = (sid,some cause) :: (sid,none) :: rest ∧
      k'.ret = some (answer cause) ∧ k'.inKernel = false := by
  obtain ⟨good,marks⟩ := reach_marks reached
  have active := good.stable.running busy
  obtain ⟨_,cause,rest,noted,told⟩ := (marks k.pidCour sid (good.stable.live busy) frame).resolve_left
    (fun waits => by simp [active] at waits)
  refine ⟨cause,rest,noted,?_⟩
  have ends : k' = waitResume k := by simp [step_resumed stepped,resume,busy,frame]
  rw [ends]
  rcases waitResume_cases k with ⟨reseted,same⟩ | ⟨reseted,same⟩ <;> rw [same]
  · cases cause with
    | sreset => exact ⟨rfl,rfl⟩
    | signal | sdelete => simp [Told,reseted] at told
  · cases cause with
    | signal => exact ⟨by simp [sysret,told.2,answer],rfl⟩
    | sreset => simp [Told,reseted] at told
    | sdelete => exact ⟨by simp [sysret,told.2,answer],rfl⟩

/-- A process that `sdelete` has released returns -3. -/
theorem wait_answers_deleted : ∃ k k' : Kernel, Reach (fun k e => Spares k e ∧ Unstained k e) k ∧
    step k .resume = some k' ∧ k.pidCour = 2 ∧ k'.ret = some (-3) ∧
    ∃ cause rest, passage k.pidCour k.semLog = (10000,some cause) :: (10000,none) :: rest ∧
      k'.ret = some (answer cause) ∧ k'.inKernel = false := by
  let events : List Event :=
    [.tick,.resume,.call (.screate 0 true),.call (.start 512 5 .granted),.resume,.call (.wait 10000),.resume,
      .call (.sdelete 10000)]
  have seen : (run step zeroed events).map (fun k => (k.pidCour,(k.tabProc k.pidCour).frame)) =
      some (2,.wait 10000) := by decide +kernel
  have later : (run step zeroed (events ++ [.resume])).map (fun k => k.ret) = some (some (-3)) := by decide +kernel
  obtain ⟨k,k',ran,resumed,facts,returned⟩ := Runs.run_parts seen later
  rw [Prod.mk.injEq] at facts
  have reached : Reach (fun k e => Spares k e ∧ Unstained k e) k :=
    reach_of_run events (by simp [events,Spares,Unstained]) zeroed_boot ran
  have stepped : step k .resume = some k' := by simpa [run] using resumed
  exact ⟨k,k',reached,stepped,facts.1,returned,wait_answers reached (by simp [facts.1]) facts.2 stepped⟩

/-- A process returns -3 for a signal, because an earlier call of `wait` has
    ended in `sdelete`. -/
theorem wait_answers_stale : ¬ ∀ (k k' : Kernel) (sid : Int), Reach (fun _ e => Peaceful e) k → k.pidCour ≠ 0 →
    (k.tabProc k.pidCour).frame = .wait sid → step k .resume = some k' →
      ∃ cause rest, passage k.pidCour k.semLog = (sid,some cause) :: (sid,none) :: rest ∧
        k'.ret = some (answer cause) ∧ k'.inKernel = false := by
  intro claim
  let events : List Event :=
    [.tick,.resume,.call (.screate 0 true),.call (.start 512 5 .granted),.resume,.call (.wait 10000),.resume,
      .call (.sdelete 10000),.resume,.call (.screate 0 true),.call (.wait 10000),.resume,.call (.signal 10000)]
  have seen : (run step zeroed events).map (fun k =>
      (k.pidCour,(k.tabProc k.pidCour).frame,(passage 2 k.semLog).head?)) =
      some (2,.wait 10000,some (10000,some .signal)) := by decide +kernel
  have later : (run step zeroed (events ++ [.resume])).map (fun k => k.ret) = some (some (-3)) := by decide +kernel
  obtain ⟨k,k',ran,resumed,facts,returned⟩ := Runs.run_parts seen later
  simp only [Prod.mk.injEq] at facts
  obtain ⟨current,frame,released⟩ := facts
  have reached : Reach (fun _ e => Peaceful e) k := reach_of_run events (by simp [events,Peaceful]) zeroed_boot ran
  have stepped : step k .resume = some k' := by simpa [run] using resumed
  obtain ⟨cause,rest,noted,told,_⟩ := claim k k' 10000 reached (by simp [current]) frame stepped
  rw [current] at noted
  have isSignal : cause = .signal := by simpa [noted] using released
  rw [returned,isSignal] at told
  simp [answer] at told

end Psys.Answers
