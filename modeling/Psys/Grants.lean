import Psys.SemSteps
import Psys.WaitingLists

/-!
The units of a semaphore: how many calls have got one, which calls release a
blocked process, and in which order.
-/
namespace Psys.Grants
open Psys.State Psys.Context Psys.Semaphore Psys.System Psys.Processes Psys.Waiting Psys.SemCalls Psys.Invariant
open Psys.SemSteps Psys.WaitingLists
open Psys.Counting (Balanced)
open Psys.Runs (run reach_of_run)

variable {lost : Prop} {gone : Int → Nat → Prop} {k k' : Kernel}

/-- What the history says about one semaphore. -/
def noteFor (sid : Int) : SemNote → Option (Counting.Note Int)
  | .created _ _ => none
  | .acquired s p => if s = sid then some (.acquired p) else none
  | .blocked s p => if s = sid then some (.blocked p) else none
  | .signalled s => if s = sid then some .given else none
  | .released s p _ => if s = sid then some (.released p) else none

def history (sid : Int) (log : List SemNote) : List (Counting.Note Int) := log.filterMap (noteFor sid)

/-- The histories of the semaphores account for their counters and lists. -/
structure Ledger (k : Kernel) : Prop where
  used : ∀ s, SemInUse k.semaphores s → ∃ n, (∀ m, .created s m ∈ k.semLog → m = n) ∧
    Balanced n (history s k.semLog) (k.semaphores s).c (k.semaphores s).procWait
  fresh : ∀ s, ¬ SemInUse k.semaphores s → history s k.semLog = [] ∧ ∀ m, .created s m ∉ k.semLog

theorem Ledger.untouched (ledger : Ledger k) (untouched : Untouched k k') : Ledger k' := by
  refine ⟨?_,?_⟩ <;> rw [untouched.semaphores,untouched.semLog]
  · exact ledger.used
  · exact ledger.fresh

/-- One semaphore changes, by steps that the history tells. -/
theorem Ledger.change (ledger : Ledger k) {sid : Int} (used : SemInUse k.semaphores sid) (notes : List SemNote)
    (others : ∀ s, s ≠ sid → k'.semaphores s = k.semaphores s)
    (valide : (k'.semaphores sid).valide = (k.semaphores sid).valide) (semLog : k'.semLog = notes ++ k.semLog)
    (elsewhere : ∀ s, s ≠ sid → history s notes = []) (created : ∀ s m, .created s m ∉ notes)
    (balanced : ∀ n, Balanced n (history sid k.semLog) (k.semaphores sid).c (k.semaphores sid).procWait →
      Balanced n (history sid notes ++ history sid k.semLog) (k'.semaphores sid).c (k'.semaphores sid).procWait) :
    Ledger k' := by
  have inUse : ∀ s, SemInUse k'.semaphores s ↔ SemInUse k.semaphores s := by
    intro s
    by_cases same : s = sid
    · subst same; simp only [SemInUse,valide]
    · simp only [SemInUse,others s same]
  have told : ∀ s, history s k'.semLog = history s notes ++ history s k.semLog := fun s => by
    rw [semLog,history,List.filterMap_append]; rfl
  have old : ∀ s m, .created s m ∈ k'.semLog ↔ .created s m ∈ k.semLog := fun s m => by
    simp [semLog,created s m]
  refine ⟨fun s now => ?_,fun s never => ?_⟩
  · obtain ⟨n,first,sums⟩ := ledger.used s ((inUse s).mp now)
    refine ⟨n,fun m member => first m ((old s m).mp member),?_⟩
    rw [told]
    by_cases same : s = sid
    · subst same; exact balanced n sums
    · rw [elsewhere s same,others s same]; exact sums
  · obtain ⟨empty,first⟩ := ledger.fresh s (mt (inUse s).mpr never)
    have other : s ≠ sid := fun same => never ((inUse s).mpr (same ▸ used))
    exact ⟨by rw [told,empty,elsewhere s other]; rfl,fun m member => first m ((old s m).mp member)⟩

theorem opened_ledger (ledger : Ledger k) (counted : Counted k) {sid count : Int} {libres : List Int}
    (form : k.sidLibres = sid :: libres) (positive : 0 ≤ count) (memory : Bool) :
    Ledger (opened k sid count libres memory) := by
  have free := counted.free sid (by simp [form])
  have unused : ¬ SemInUse k.semaphores sid := fun used => by simp [SemInUse,free.2.2] at used
  obtain ⟨empty,never⟩ := ledger.fresh sid unused
  have others : ∀ s, s ≠ sid → (opened k sid count libres memory).semaphores s = k.semaphores s := fun s other => by
    cases memory <;> simp [opened,other]
  have self : (opened k sid count libres memory).semaphores sid = ⟨count,[],memory⟩ := by
    cases memory <;> simp [opened,free.2.2]
  have told : ∀ s, history s (opened k sid count libres memory).semLog = history s k.semLog := fun s => by
    cases memory <;> simp [opened,history,noteFor,List.filterMap_cons]
  have old : ∀ s m, s ≠ sid →
      (.created s m ∈ (opened k sid count libres memory).semLog ↔ .created s m ∈ k.semLog) := fun s m other => by
    cases memory <;> simp [opened,other]
  refine ⟨fun s used => ?_,fun s unusedS => ?_⟩
  · rw [told]
    by_cases same : s = sid
    · subst same
      refine ⟨count,fun m member => ?_,by rw [self,empty]; exact .start positive⟩
      cases memory with
      | false => exact absurd member (by simpa [opened] using never m)
      | true => simpa [opened,never m] using member
    · obtain ⟨n,first,sums⟩ := ledger.used s (by simpa [SemInUse,others s same] using used)
      exact ⟨n,fun m member => first m ((old s m same).mp member),by rw [others s same]; exact sums⟩
  · rw [told]
    by_cases same : s = sid
    · subst same
      refine ⟨empty,fun m => ?_⟩
      cases memory with
      | false => simpa [opened] using never m
      | true => simp [SemInUse,self,free.1,free.2.1] at unusedS
    · obtain ⟨none,first⟩ := ledger.fresh s (by simpa [SemInUse,others s same] using unusedS)
      exact ⟨none,fun m member => first m ((old s m same).mp member)⟩

theorem taken_ledger (ledger : Ledger k) {sid : Int} (used : SemInUse k.semaphores sid)
    (positive : 1 ≤ (k.semaphores sid).c) : Ledger (taken k sid) := by
  refine ledger.change used [.acquired sid k.pidCour] (fun s other => by simp [taken,other])
    (by simp [taken]) rfl (fun s other => by simp [history,noteFor,other.symm]) (by simp) (fun n balanced => ?_)
  simpa [history,noteFor,taken] using balanced.acquire positive k.pidCour

theorem suspended_ledger (ledger : Ledger k) {sid : Int} (used : SemInUse k.semaphores sid)
    (none : (k.semaphores sid).c ≤ 0) : Ledger (suspended k sid) := by
  refine ledger.change used [.blocked sid k.pidCour]
    (fun s other => by simp [suspended,enlisted,other]) (by simp [suspended,enlisted]) rfl
    (fun s other => by simp [history,noteFor,other.symm]) (by simp) (fun n balanced => ?_)
  simpa [history,noteFor,suspended,enlisted] using balanced.block none k.pidCour

theorem signalOne_ledger (ledger : Ledger k) (counted : Counted k) {sid : Int} (used : SemInUse k.semaphores sid)
    (most : (k.semaphores sid).c < SHRT_MAX) : Ledger (signalOne k sid) := by
  rcases signalOne_cases counted used most with ⟨_,positive,same⟩ | ⟨rest,pid,form,_,same⟩
  · rw [same]
    refine ledger.change used [.signalled sid] (fun s other => by simp [raised,other]) (by simp [raised]) rfl
      (fun s other => by simp [history,noteFor,other.symm]) (by simp) (fun n balanced => ?_)
    simpa [history,noteFor,raised] using balanced.give positive
  · rw [same]
    refine ledger.change used [.released sid pid .signal,.signalled sid]
      (fun s other => by simp [relieved,raised,other]) (by simp [relieved,raised]) rfl
      (fun s other => by simp [history,noteFor,other.symm]) (by simp) (fun n balanced => ?_)
    simpa [history,noteFor,relieved,raised,form] using balanced.release form

/-- The calls that leave the waiting lists to `signal` and `signaln`. -/
def Lasting : Event → Prop
  | .call (.sreset _ _) | .call (.sdelete _) => False
  | _ => True

theorem step_ledger (good : Good lost gone k) (ledger : Ledger k) {e : Event} (lasting : Lasting e)
    (kind : SemStep k e k') : Ledger k' := by
  have counted := good.counted
  cases kind with
  | still untouched => exact ledger.untouched untouched
  | created form positive untouched => exact (opened_ledger ledger counted form positive _).untouched untouched
  | acquired used positive _ untouched => exact (taken_ledger ledger used positive).untouched untouched
  | blocked used none _ untouched => exact (suspended_ledger ledger used none).untouched untouched
  | signalled used room _ going untouched =>
    refine Ledger.untouched ?_ untouched
    exact signalLoop_invariant (P := fun _ k => Ledger k)
      (fun _ _ _ _ counted used most ledger => signalOne_ledger ledger counted used most) _ good.stable.toInside going
      counted used room ledger
  | reseted _ _ _ | deleted _ _ _ => exact lasting.elim

/-- `signal` and `signaln` leave alone the processes that wait elsewhere. -/
theorem signalLoop_elsewhere (inside : Inside lost gone k.toProcs) (going : Going k.toProcs) (counted : Counted k)
    {sid : Int} {count : Nat} (used : SemInUse k.semaphores sid) (room : (k.semaphores sid).c + count ≤ SHRT_MAX)
    {p s : Int} (other : s ≠ sid) (waits : Blocked k.tabProc p s) : Blocked (signalLoop sid count k).tabProc p s := by
  refine signalLoop_invariant (P := fun _ k => Blocked k.tabProc p s) (fun _ k _ _ counted used most waits => ?_) count
    inside going counted used room waits
  rcases signalOne_cases counted used most with ⟨_,_,same⟩ | ⟨rest,pid,form,_,same⟩
  · rw [same]; exact waits
  · have blocked := (counted.waiting sid used pid).mp (by simp [form])
    have different : p ≠ pid := fun same => other (by rw [← waits.2.2,same,blocked.2.2])
    rw [same]
    simpa [Blocked,relieved,InUse,different] using waits

/-- Only `signal` and `signaln` release a process, from their own semaphore. -/
theorem step_released (good : Good lost gone k) {e : Event} (lasting : Lasting e) (kind : SemStep k e k') {p s : Int}
    (waits : Blocked k.tabProc p s) (released : ¬ Blocked k'.tabProc p s) :
    e = .call (.signal s) ∨ ∃ count, e = .call (.signaln s count) := by
  cases kind with
  | still untouched => exact absurd ((untouched.processes.blocked p s).mpr waits) released
  | @created _ memory _ _ _ _ _ untouched =>
    refine absurd ((untouched.processes.blocked p s).mpr ?_) released
    cases memory <;> exact waits
  | acquired _ _ _ untouched => exact absurd ((untouched.processes.blocked p s).mpr waits) released
  | @blocked sid _ _ _ going untouched =>
    refine absurd ((untouched.processes.blocked p s).mpr ?_) released
    have enlisted := (enlisted_blocked going sid p s).mpr (.inl waits)
    simpa [suspended,Blocked,InUse] using enlisted
  | @signalled _ sid count _ used room event going untouched =>
    by_cases same : s = sid
    · subst same
      rcases event with ⟨rfl,_⟩ | ⟨n,rfl,_⟩
      · exact .inl rfl
      · exact .inr ⟨n,rfl⟩
    · refine absurd ((untouched.processes.blocked p s).mpr ?_) released
      exact signalLoop_elsewhere good.stable.toInside going good.counted used room same waits
  | reseted _ _ _ | deleted _ _ _ => exact lasting.elim

/-! ### The history and the code -/

/-- The step is a call of `wait` or `try_wait` on the semaphore that returns 0 at
    once. -/
def Obtains (sid : Int) (e : Event) (k' : Kernel) : Prop :=
  (e = .call (.wait sid) ∨ e = .call (.tryWait sid)) ∧ k'.inKernel = false ∧ k'.ret = some 0

/-- How many units the history says have been taken at once. -/
def units (sid : Int) (log : List SemNote) : Nat := Counting.acquired (history sid log)

theorem units_acquired (sid s p : Int) (log : List SemNote) :
    units sid (.acquired s p :: log) = if s = sid then units sid log + 1 else units sid log := by
  unfold units history
  split
  next same => simp [noteFor,same]
  next other => simp [noteFor,other]

theorem units_other {note : SemNote} (other : ∀ s p, note ≠ .acquired s p) (sid : Int) (log : List SemNote) :
    units sid (note :: log) = units sid log := by
  unfold units history
  cases note with
  | acquired s p => exact absurd rfl (other s p)
  | created => simp [List.filterMap_cons,noteFor]
  | blocked s | signalled s | released s =>
    by_cases same : s = sid
    · simp [noteFor,same]
    · simp [noteFor,same]

theorem signalLoop_units (sid s : Int) (count : Nat) : units sid (signalLoop s count k).semLog = units sid k.semLog := by
  induction count generalizing k with
  | zero => rfl
  | succ count hyp =>
    rw [signalLoop,hyp,signalOne]
    dsimp only
    split
    · split
      · exact units_other (by simp) sid _
      · exact (units_other (by simp) sid _).trans (units_other (by simp) sid _)
    · exact units_other (by simp) sid _

theorem dismissAll_units (sid s : Int) (cause : Cause) (mark : Context → Context) :
    units sid (dismissAll k s cause mark).semLog = units sid k.semLog := by
  have loop : ∀ (l : List Int) (k : Kernel), units sid (l.foldl (dismiss s cause mark) k).semLog = units sid k.semLog := by
    intro l
    induction l with
    | nil => exact fun _ => rfl
    | cons p l hyp =>
      intro k
      rw [List.foldl_cons,hyp]
      exact units_other (by simp) sid _
  exact loop _ _

/-- A call that returns 0 at once takes a unit, and nothing else does. -/
def Tells (sid : Int) (k : Kernel) (e : Event) (k' : Kernel) : Prop :=
  Obtains sid e k' ∧ units sid k'.semLog = units sid k.semLog + 1 ∨
    ¬ Obtains sid e k' ∧ units sid k'.semLog = units sid k.semLog

theorem taken_tells {e : Event} {s : Int} (call : e = .call (.wait s) ∨ e = .call (.tryWait s)) (sid : Int) :
    Tells sid k e (sysret (taken k s) (some 0)) := by
  have log : units sid (sysret (taken k s) (some 0)).semLog = if s = sid then units sid k.semLog + 1 else units sid k.semLog :=
    units_acquired sid s _ _
  by_cases same : s = sid
  · rw [if_pos same] at log
    exact .inl ⟨⟨same ▸ call,rfl,rfl⟩,log⟩
  · rw [if_neg same] at log
    refine .inr ⟨?_,log⟩
    rintro ⟨rfl | rfl,-⟩
    · exact same (by simpa [eq_comm] using call)
    · exact same (by simpa [eq_comm] using call)

theorem refused_tells {e : Event} {r : Int} (negative : r < 0) (sid : Int) : Tells sid k e (sysret k (some r)) := by
  refine .inr ⟨?_,rfl⟩
  rintro ⟨-,-,zero⟩
  have : r = 0 := Option.some.inj zero
  omega

/-- The history counts a unit exactly when a call of `wait` or `try_wait` returns 0
    at once. -/
theorem step_obtains (good : Good lost gone k) {e : Event} (safe : Safe k e) (heard : Heard k e ∨ lost)
    (apart : ∀ pid, Reuses k e pid → ∀ n, ¬ gone pid n) (stepped : step k e = some k') (sid : Int) : Tells sid k e k' := by
  have untold : ∀ {e : Event} {k' : Kernel}, (∀ s, e ≠ .call (.wait s) ∧ e ≠ .call (.tryWait s)) →
      units sid k'.semLog = units sid k.semLog → Tells sid k e k' := fun other log =>
    .inr ⟨fun obtains => obtains.1.elim (other sid).1 (other sid).2,log⟩
  by_cases quiet : Quiet k e
  · have log := (step_keeps good.stable quiet safe heard apart stepped).untouched.semLog
    refine untold (fun s => ⟨?_,?_⟩) (by rw [log])
    · rintro rfl
      exact quiet
    · rintro rfl
      exact quiet
  rcases step_cases stepped with ⟨c,rfl,-,-,rfl⟩ | ⟨rfl,_⟩ | ⟨rfl,_⟩ | ⟨key,rfl,_⟩ | ⟨vcNumber,rfl,_⟩ | ⟨rfl,_,rfl⟩
  · cases c with
    | wait s =>
      rw [handle]
      rcases wait_cases good.counted s with ⟨r,negative,same⟩ | ⟨-,-,same⟩ | ⟨-,-,-,same⟩
      · rw [same]
        exact refused_tells negative sid
      · rw [same]
        exact taken_tells (.inl rfl) sid
      · rw [same]
        exact .inr ⟨fun obtains => absurd obtains.2.1 (by simp [callScheduler]),units_other (by simp) sid _⟩
    | tryWait s =>
      rw [handle]
      rcases tryWait_cases good.counted s with ⟨r,negative,same⟩ | ⟨-,-,same⟩
      · rw [same]
        exact refused_tells negative sid
      · rw [same]
        exact taken_tells (.inr rfl) sid
    | screate compteur memory =>
      refine untold (by simp) ?_
      rw [handle]
      rcases screate_cases good.counted compteur memory with ⟨r,_,same⟩ | ⟨s,libres,-,-,r,same⟩
      · rw [same]
        rfl
      · rw [same]
        cases memory with
        | true => exact units_other (by simp) sid _
        | false => rfl
    | signal s =>
      refine untold (by simp) ?_
      have one := @signalLoop_units k sid s 1
      rw [handle]
      rcases signal_cases k s with ⟨r,same⟩ | ⟨-,-,⟨-,same⟩ | ⟨-,same⟩⟩
      · rw [same]
        rfl
      · rw [same]
        exact one
      · rw [same]
        exact one
    | signaln s count =>
      refine untold (by simp) ?_
      rw [handle,signaln]
      split
      · rfl
      split
      · rfl
      split
      · rfl
      · exact signalLoop_units sid s _
    | sreset s count =>
      refine untold (by simp) ?_
      rw [handle,sreset]
      split
      · rfl
      · exact dismissAll_units sid s _ _
    | sdelete s =>
      refine untold (by simp) ?_
      rw [handle,sdelete]
      split
      · rfl
      · exact dismissAll_units sid s _ _
    | _ => exact absurd trivial quiet
  · exact absurd trivial quiet
  · exact absurd trivial quiet
  · exact absurd trivial quiet
  · exact absurd trivial quiet
  · obtain ⟨busy,same⟩ := resume_wait quiet
    rw [same]
    refine untold (by simp) ?_
    rcases waitResume_cases k with ⟨_,same⟩ | ⟨_,same⟩
    · rw [same]
      rfl
    · rw [same]
      rfl

/-! ### Runs -/

theorem reach_ledger (reached : Reach (fun k e => Spares k e ∧ Lasting e) k) :
    Good True (fun _ _ => False) k ∧ Ledger k := by
  induction reached with
  | start boot =>
    refine ⟨boot_good boot,?_⟩
    obtain ⟨outside,consoles,rfl⟩ := boot
    exact ⟨fun s used => by simp [kernelStart,SemInUse] at used,fun s _ => by simp [kernelStart,history]⟩
  | next _ allowed stepped ih =>
    have kind := step_semStep ih.1 allowed.1.safe (.inr trivial) (fun _ _ _ => id) stepped
    exact ⟨step_good ih.1 allowed.1.safe (.inr trivial) (fun _ _ _ => id) stepped,
      step_ledger ih.1 ih.2 allowed.2 kind⟩

end Psys.Grants
