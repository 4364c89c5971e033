import Psys.FamSteps

/-!
What `waitpid` reports: a zombie child of the caller, with the value of its
end, once for each end. A father that sleeps in `waitpid` sleeps for a child
that has not ended. The first fails when `kill` ends a child whose father
waits for any child: it wakes the father up without telling which one ended.
-/
namespace Psys.Reports
open Psys.State Psys.Context Psys.Sys Psys.System Psys.ProcQueue Psys.Family Psys.Termination Psys.Processes Psys.Creation
open Psys.Calls Psys.SemCalls Psys.Invariant Psys.Scheduling Psys.FamSteps
open Psys.Runs (run reach_of_run)

variable {lost : Prop} {gone : Int → Nat → Prop} {k k' : Kernel}

/-- What the newest note about a process says of its end: the value given to
    `exit`, or none when it was killed. Nothing when it has been reported. -/
def verdict (c : Int) : List EndNote → Option (Option Int)
  | [] => none
  | .exited p retval :: rest => if p = c then some (some retval) else verdict c rest
  | .killed p :: rest => if p = c then some none else verdict c rest
  | .reaped _ p :: rest => if p = c then none else verdict c rest

/-- The same, as the descriptor keeps it. -/
def outcome (c : Context) : Option Int := if c.killed then none else some c.valRet

/-- Every report is about an end that has not been reported before. -/
def Once (log : List EndNote) : Prop :=
  ∀ newer father child older, log = newer ++ .reaped father child :: older → ∃ o, verdict child older = some o

theorem Once.cons {log : List EndNote} (once : Once log) {note : EndNote}
    (first : ∀ father child, note = .reaped father child → ∃ o, verdict child log = some o) : Once (note :: log) := by
  intro newer father child older form
  cases newer with
  | nil =>
    obtain ⟨rfl,rfl⟩ := List.cons.inj form
    exact first father child rfl
  | cons head tail =>
    rw [List.cons_append] at form
    exact once tail father child older (List.cons.inj form).2

/-- Descriptors and history agree on the ends of processes. -/
structure Agrees (t : Int → Context) (log : List EndNote) : Prop where
  live : ∀ p, Live t p → (t p).killed = false
  zombie : ∀ p, InUse t p → (t p).state = .zombie → verdict p log = some (outcome (t p))
  once : Once log

theorem Agrees.kin {t t' : Int → Context} {log : List EndNote} (agrees : Agrees t log) (kin : Kin t t') :
    Agrees t' log where
  live p live := by
    rw [kin.killed p live.1]; exact agrees.live p ((kin.live p).mp live)
  zombie p used ended := by
    rw [agrees.zombie p (kin.used p used) ((kin.zombie p used).mp ended),outcome,outcome,kin.killed p used,
      kin.valRet p used]
  once := agrees.once

theorem created_agrees {k : Procs} {log : List EndNote} (agrees : Agrees k.tabProc log) (pid priority : Int) :
    Agrees (created k pid priority) log where
  live p live := by
    by_cases new : p = pid
    · simp [created,fresh,new]
    · simpa [created,new] using agrees.live p ((created_live p new).mp live)
  zombie p used ended := by
    by_cases new : p = pid
    · simp [created,fresh,new] at ended
    · have before := agrees.zombie p (by simpa [created,new,InUse] using used) (by simpa [created,new] using ended)
      simpa [created,new,outcome] using before
  once := agrees.once

/-- The end of a process, noted in the history. -/
theorem terminated_agrees {t : Int → Context} {log : List EndNote} (agrees : Agrees t log) {pid : Int}
    (live : Live t pid) {retval : Option Int} {note : EndNote} (noted : verdict pid (note :: log) = some retval)
    (others : ∀ c, c ≠ pid → verdict c (note :: log) = verdict c log)
    (fresh : ∀ father child, note ≠ .reaped father child) : Agrees (terminated t pid retval) (note :: log) where
  live p after := by
    obtain ⟨before,other⟩ := (terminated_live retval p).mp after
    simpa [terminated,other] using agrees.live p before
  zombie p used ended := by
    by_cases same : p = pid
    · subst same
      have above : (t p).pidParent > 1 := by
        by_contra below
        simp [terminated,below] at ended
      have alive := agrees.live p live
      rw [noted]
      cases retval <;> simp [outcome,terminated,above,alive]
    · rcases terminated_state (t := t) retval same with ⟨_,_,dead⟩ | ⟨_,_,woken⟩ | ⟨_,_,kept⟩
      · simp [dead] at ended
      · simp [woken] at ended
      · rw [others p same,agrees.zombie p used (kept ▸ ended)]
        simp [outcome,terminated,same]
  once := agrees.once.cons (fun father child is => absurd is (fresh father child))

/-- The report of a zombie child. -/
theorem buried_agrees {k : Procs} {log : List EndNote} (agrees : Agrees k.tabProc log) (tree : Tree k.tabProc)
    (going : Going k) {child : Int} (member : child ∈ (k.tabProc k.pidCour).children)
    (zombie : (k.tabProc child).state = .zombie) :
    Agrees (buried k child).tabProc (.reaped k.pidCour child :: log) := by
  have used := (tree.child _ going.live child member).1
  have same : ∀ p, ((buried k child).tabProc p).killed = (k.tabProc p).killed ∧
      ((buried k child).tabProc p).valRet = (k.tabProc p).valRet ∧
      (InUse (buried k child).tabProc p ↔ InUse k.tabProc p) := fun p => by
    by_cases current : p = k.pidCour ∧ InTab p <;> by_cases isChild : p = child ∧ InTab p <;>
      simp_all [buried,InUse]
  refine ⟨fun p live => ?_,fun p usedP ended => ?_,agrees.once.cons (fun father c is => ?_)⟩
  · rw [(same p).1]
    exact agrees.live p ((buried_live tree going.live member zombie p).mp live)
  · obtain ⟨_,dead⟩ := buried_child going.live used.1 zombie
    have other : p ≠ child := fun isChild => by simp [isChild,dead] at ended
    have state : ((buried k child).tabProc p).state = (k.tabProc p).state := by
      by_cases current : p = k.pidCour
      · subst current; simp [buried,other]
      · simp [buried,other,current]
    rw [outcome,(same p).1,(same p).2.1,verdict,if_neg (Ne.symm other)]
    exact agrees.zombie p ((same p).2.2.mp usedP) (state ▸ ended)
  · obtain ⟨rfl,rfl⟩ := EndNote.reaped.inj is
    exact ⟨_,agrees.zombie child used zombie⟩

/-- Every step keeps descriptors and history in agreement. -/
theorem step_agrees (bare : Bare False k) (agrees : Agrees k.tabProc k.endLog) {e : Event}
    (kind : FamStep False k e k') : Agrees k'.tabProc k'.endLog := by
  have tree := bare.stable.tree
  cases kind with
  | kin kin endLog => rw [endLog]; exact agrees.kin kin
  | created _ _ _ kin endLog => rw [endLog]; exact (created_agrees agrees _ _).kin kin
  | exited going kin endLog =>
    rw [endLog]
    refine Agrees.kin (terminated_agrees agrees going.live ?_ (fun c other => ?_) (by simp)) kin
    · simp [verdict]
    · simp [verdict,Ne.symm other]
  | killed _ live kin endLog =>
    rw [endLog]
    refine Agrees.kin (terminated_agrees agrees live ?_ (fun c other => ?_) (by simp)) kin
    · simp [verdict]
    · simp [verdict,Ne.symm other]
  | reaped going member zombie kin endLog =>
    rw [endLog]
    exact (buried_agrees agrees tree going member zombie).kin kin
  | missed unheard => exact unheard.elim

theorem reach_agrees (reached : Reach (fun k e => Plain e ∧ Heard k e) k) :
    Bare False k ∧ Agrees k.tabProc k.endLog := by
  induction reached with
  | start boot =>
    refine ⟨boot_bare boot,fun p live => ?_,fun p used ended => ?_,?_⟩
    · exact (boot_init boot live.1).2.2.2.2.2
    · simp [(boot_init boot used).2.1] at ended
    · obtain ⟨outside,consoles,rfl⟩ := boot
      simp [Once,kernelStart]
  | next _ allowed stepped ih =>
    have kind := step_famStep ih.1.stable allowed.1 (.inl allowed.2) (fun _ _ _ => id) stepped
    exact ⟨ih.1.step allowed.1 (.inl allowed.2) stepped,step_agrees ih.1 ih.2 kind⟩

/-! ### Calls of `waitpid` -/

/-- A step that may end a call of `waitpid`, with its pointer. -/
def Asks (k : Kernel) (e : Event) (retvalp : Nat) : Prop :=
  (∃ pid p, e = .call (.waitpid pid p) ∧ retvalp = checkPointer p) ∨
    e = .resume ∧ ((k.tabProc k.pidCour).frame = .waitpidAny retvalp ∨
      ∃ pid, (k.tabProc k.pidCour).frame = .waitpid pid retvalp)

/-- The report of `child`: a zombie child of the caller, whose last words are
    stored. Only that child is taken from the list, and nothing else changes. -/
structure Report (k k' : Kernel) (retvalp : Nat) (child : Int) : Prop where
  member : child ∈ (k.tabProc k.pidCour).children
  zombie : (k.tabProc child).state = .zombie
  stored : ∃ o, verdict child k.endLog = some o ∧
    k'.mem = if retvalp ≠ 0 then Function.update k.mem retvalp (o.getD 0) else k.mem
  reaped : k'.tabProc child = { k.tabProc child with state := .dead }
  caller : k'.tabProc k.pidCour = { k.tabProc k.pidCour with
    children := (k.tabProc k.pidCour).children.erase child, frame := .user }
  others : ∀ p, p ≠ child → p ≠ k.pidCour → k'.tabProc p = k.tabProc p

/-- A page fault does not return to user mode. -/
theorem handlePfault_inKernel (k : Kernel) : (handlePfault k).inKernel = true := by
  unfold handlePfault
  split
  · rfl
  · rename_i accepted
    unfold kill
    rw [if_neg accepted]
    dsimp only
    split <;> rfl

theorem reap_report (inside : Inside lost gone k.toProcs) (going : Going k.toProcs)
    (agrees : Agrees k.tabProc k.endLog) {child : Int} (member : child ∈ (k.tabProc k.pidCour).children)
    (zombie : (k.tabProc child).state = .zombie) (retvalp : Nat) :
    (reap k child retvalp).inKernel = true ∧ retvalp ≠ 0 ∧ ¬ Mapped retvalp ∨
      (reap k child retvalp).inKernel = false ∧ (reap k child retvalp).ret = some child ∧
        Report k (reap k child retvalp) retvalp child := by
  unfold reap
  split
  · rename_i faulty
    exact .inl ⟨handlePfault_inKernel k,faulty⟩
  · have used := (inside.tree.child _ going.live child member).1
    have other : child ≠ k.pidCour := fun same => going.live.2.1 (same ▸ zombie)
    have value : (if (k.tabProc child).killed then 0 else (k.tabProc child).valRet) =
        (outcome (k.tabProc child)).getD 0 := by
      unfold outcome
      split <;> rfl
    refine .inr ⟨?_,?_,member,zombie,⟨_,agrees.zombie child used zombie,?_⟩,?_,?_,?_⟩
    all_goals dsimp only
    · split <;> rfl
    · split <;> rfl
    · rw [value]; split <;> rfl
    · split <;> simp [sysret,other,used.1]
    · split <;> simp [sysret,other.symm,going.live.1.1]
    · intro p notChild notCaller
      split <;> simp [sysret,notChild,notCaller]

/-- A step that ends a call of `waitpid` with a PID has reported that child. -/
theorem asks_report (bare : Bare False k) (agrees : Agrees k.tabProc k.endLog) {e : Event} {retvalp : Nat}
    (asks : Asks k e retvalp) (stepped : step k e = some k') (user : k'.inKernel = false) {p : Int}
    (returned : k'.ret = some p) (positive : 0 < p) : Report k k' retvalp p := by
  have stable := bare.stable
  have inside := stable.toInside
  have reported : ∀ child, Going k.toProcs → child ∈ (k.tabProc k.pidCour).children →
      (k.tabProc child).state = .zombie → k' = reap k child retvalp → Report k k' retvalp p := by
    rintro child going member zombie rfl
    rcases reap_report inside going agrees member zombie retvalp with ⟨kernel,_⟩ | ⟨_,ret,report⟩
    · simp [user] at kernel
    · rw [ret,Option.some.injEq] at returned
      exact returned ▸ report
  rcases asks with ⟨pid,q,rfl,rfl⟩ | ⟨rfl,frame⟩
  · obtain ⟨mode,busy,rfl⟩ := step_called stepped
    rcases waitpid_cases k pid q with ⟨r,negative,same⟩ | ⟨child,finds,same⟩ | ⟨_,_,same⟩ | ⟨_,_,_,same⟩
    · simp only [handle,same,sysret,Option.some.injEq] at returned
      omega
    · exact reported child (stable.going mode busy) finds.member finds.zombie same
    · simp [handle,same,waitChild,callScheduler] at user
    · simp [handle,same,waitChild,callScheduler] at user
  · have same := step_resumed stepped
    have busy : k.pidCour ≠ 0 := fun idle => by simp [same,resume,idle] at returned
    rcases frame with frame | ⟨pid,frame⟩
    · have going := resume_going stable busy (by simp [frame])
      obtain ⟨member,zombie⟩ := (resume_any stable busy frame).resolve_left (fun missed => missed.1)
      exact reported _ going member zombie (by simp [same,resume,busy,frame])
    · have going := resume_going stable busy (by simp [frame])
      obtain ⟨member,zombie⟩ := resume_one stable busy frame
      exact reported _ going member zombie (by simp [same,resume,busy,frame])

/-- What a state owes to the callers of `waitpid`: a call that returns a PID
    reports a zombie child, a call of `waitpid(-1)` that slept goes on with such
    a child, and no end has been reported twice. -/
structure Accounts (k : Kernel) : Prop where
  report : ∀ e k' retvalp p, Asks k e retvalp → step k e = some k' → k'.inKernel = false → k'.ret = some p → 0 < p →
    Report k k' retvalp p
  woken : ∀ k' retvalp, k.pidCour ≠ 0 → (k.tabProc k.pidCour).frame = .waitpidAny retvalp →
    step k .resume = some k' → (k.tabProc k.pidCour).pidWait ∈ (k.tabProc k.pidCour).children ∧
      (k.tabProc (k.tabProc k.pidCour).pidWait).state = .zombie ∧
      (retvalp = 0 ∨ Mapped retvalp → k'.inKernel = false ∧ k'.ret = some (k.tabProc k.pidCour).pidWait)
  once : Once k.endLog

/-- A father that slept in `waitpid(-1)` goes on with a zombie child. -/
theorem resume_woken (bare : Bare False k) (agrees : Agrees k.tabProc k.endLog) {retvalp : Nat}
    (busy : k.pidCour ≠ 0) (frame : (k.tabProc k.pidCour).frame = .waitpidAny retvalp)
    (stepped : step k .resume = some k') :
    (k.tabProc k.pidCour).pidWait ∈ (k.tabProc k.pidCour).children ∧
      (k.tabProc (k.tabProc k.pidCour).pidWait).state = .zombie ∧
      (retvalp = 0 ∨ Mapped retvalp → k'.inKernel = false ∧ k'.ret = some (k.tabProc k.pidCour).pidWait) := by
  have stable := bare.stable
  have going := resume_going stable busy (by simp [frame])
  obtain ⟨member,zombie⟩ := (resume_any stable busy frame).resolve_left (fun missed => missed.1)
  refine ⟨member,zombie,fun sound => ?_⟩
  have same : k' = reap k (k.tabProc k.pidCour).pidWait retvalp := by
    simp [step_resumed stepped,resume,busy,frame]
  rw [same]
  rcases reap_report stable.toInside going agrees member zombie retvalp with ⟨_,some,unmapped⟩ | ⟨user,ret,_⟩
  · exact absurd sound (not_or.mpr ⟨some,unmapped⟩)
  · exact ⟨user,ret⟩

end Psys.Reports
