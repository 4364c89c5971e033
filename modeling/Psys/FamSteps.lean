import Psys.Scheduling

/-!
What a step without semaphores and keyboard may do to the family of the
processes and to the history of terminations: a case for each call that
creates, ends or reaps a process, and one for all other steps.
-/
namespace Psys.FamSteps
open Psys.State Psys.Context Psys.Sys Psys.Semaphore Psys.Devices Psys.System Psys.ProcQueue Psys.Family Psys.Termination
open Psys.Processes Psys.Creation Psys.Calls Psys.SemCalls Psys.Inputs Psys.Invariant Psys.Scheduling

variable {lost : Prop} {gone : Int → Nat → Prop} {k k' : Kernel}

/-- The same family. Dead processes may be freed. -/
structure Kin (t t' : Int → Context) : Prop where
  used : ∀ p, InUse t' p → InUse t p
  kept : ∀ p, InUse t p → (t p).state ≠ .dead → InUse t' p
  parent : ∀ p, InUse t' p → (t' p).pidParent = (t p).pidParent
  children : ∀ p, InUse t' p → (t' p).children = (t p).children
  zombie : ∀ p, InUse t' p → ((t' p).state = .zombie ↔ (t p).state = .zombie)
  dead : ∀ p, InUse t' p → ((t' p).state = .dead ↔ (t p).state = .dead)
  valRet : ∀ p, InUse t' p → (t' p).valRet = (t p).valRet
  killed : ∀ p, InUse t' p → (t' p).killed = (t p).killed

theorem Kin.refl (t : Int → Context) : Kin t t :=
  ⟨fun _ => id,fun _ used _ => used,fun _ _ => rfl,fun _ _ => rfl,fun _ _ => Iff.rfl,fun _ _ => Iff.rfl,
    fun _ _ => rfl,fun _ _ => rfl⟩

theorem Kin.trans {t t' t'' : Int → Context} (first : Kin t t') (second : Kin t' t'') : Kin t t'' where
  used p used := first.used p (second.used p used)
  kept p used alive := by
    have middle := first.kept p used alive
    exact second.kept p middle (mt (first.dead p middle).mp alive)
  parent p used := (second.parent p used).trans (first.parent p (second.used p used))
  children p used := (second.children p used).trans (first.children p (second.used p used))
  zombie p used := (second.zombie p used).trans (first.zombie p (second.used p used))
  dead p used := (second.dead p used).trans (first.dead p (second.used p used))
  valRet p used := (second.valRet p used).trans (first.valRet p (second.used p used))
  killed p used := (second.killed p used).trans (first.killed p (second.used p used))

theorem Kin.live {t t' : Int → Context} (kin : Kin t t') (p : Int) : Live t' p ↔ Live t p := by
  constructor
  · rintro ⟨used,zombie,dead⟩
    exact ⟨kin.used p used,mt (kin.zombie p used).mpr zombie,mt (kin.dead p used).mpr dead⟩
  · rintro ⟨used,zombie,dead⟩
    have after := kin.kept p used dead
    exact ⟨after,mt (kin.zombie p after).mp zombie,mt (kin.dead p after).mp dead⟩

/-- A change of a descriptor that is not in use. -/
theorem Kin.unused {t t' : Int → Context} {x : Int} (unused : ¬ InUse t x) (still : (t' x).valide = (t x).valide)
    (others : ∀ p, p ≠ x → t' p = t p) : Kin t t' := by
  have used : ∀ p, InUse t' p ↔ InUse t p := by
    intro p
    by_cases same : p = x
    · rw [InUse,InUse,same,still]
    · rw [InUse,InUse,others p same]
  have equal : ∀ p, InUse t' p → t' p = t p := fun p now =>
    others p (fun same => unused (same ▸ (used p).mp now))
  refine ⟨fun p => (used p).mp,fun p now _ => (used p).mpr now,?_,?_,?_,?_,?_,?_⟩
  all_goals
    intro p now
    rw [equal p now]

/-- The end of a process has nothing to do with a descriptor that is not in
    use. -/
theorem terminated_unused {t t' : Int → Context} {x pid : Int} (tree : Tree t) (live : Live t pid) (unused : ¬ InUse t x)
    (others : ∀ p, p ≠ x → t' p = t p) (retval : Option Int) {q : Int} (other : q ≠ x) :
    terminated t' pid retval q = terminated t pid retval q := by
  have self : t' pid = t pid := others pid (fun same => unused (same ▸ live.1))
  have kid : ∀ c ∈ (t pid).children, t' c = t c := fun c member =>
    others c (fun same => unused (same ▸ (tree.child pid live c member).1))
  have father : FatherWaits t' pid ↔ FatherWaits t pid := by
    by_cases above : (t pid).pidParent > 1
    · have parent := (tree.parent pid live.1 live.2.2 above).1.1
      simp only [FatherWaits,self,others _ (fun same => unused (same ▸ parent))]
    · simp only [FatherWaits,self,above,false_and]
  have left : orphans t' (t pid).children = orphans t (t pid).children :=
    List.filter_congr (fun c member => by rw [kid c member])
  have own : t' q = t q := others q other
  by_cases init : q = 1
  · subst init
    simp only [terminated,self,own,father,left]
  · ext <;> simp [terminated,self,own,father,init]

/-- One process changes in fields that do not concern the family. -/
theorem Kin.setProc (k : Procs) (x : Int) {f : Context → Context} (valide : ∀ c, (f c).valide = c.valide)
    (family : ∀ c, (f c).pidParent = c.pidParent ∧ (f c).children = c.children ∧ (f c).valRet = c.valRet ∧
      (f c).killed = c.killed)
    (zombie : (f (k.tabProc x)).state = .zombie ↔ (k.tabProc x).state = .zombie)
    (dead : (f (k.tabProc x)).state = .dead ↔ (k.tabProc x).state = .dead) :
    Kin k.tabProc (k.setProc x f).tabProc := by
  have used : ∀ p, InUse (k.setProc x f).tabProc p ↔ InUse k.tabProc p := fun p => by
    by_cases same : p = x ∧ InTab x <;> simp [InUse,same,valide]
  refine ⟨fun p => (used p).mp,fun p now _ => (used p).mpr now,fun p _ => ?_,fun p _ => ?_,fun p _ => ?_,fun p _ => ?_,
    fun p _ => ?_,fun p _ => ?_⟩
  all_goals simp only [Procs.setProc_tabProc]
  all_goals split
  · exact (family _).1
  · rfl
  · exact (family _).2.1
  · rfl
  · rename_i same; rw [same.1]; exact zombie
  · exact Iff.rfl
  · rename_i same; rw [same.1]; exact dead
  · exact Iff.rfl
  · exact (family _).2.2.1
  · rfl
  · exact (family _).2.2.2
  · rfl

theorem Kin.dispatched {t t' : Int → Context} (dispatched : Dispatched t t') : Kin t t' := by
  have alike := Dispatched.alike dispatched
  exact ⟨alike.used,alike.kept,fun p used => alike.parent p (alike.used p used),
    fun p used => alike.children p (alike.used p used),fun p used => alike.zombie p (alike.used p used),
    fun p used => alike.dead p (alike.used p used),fun p _ => (congrArg Context.valRet (dispatched.same p) :),
    fun p _ => (congrArg Context.killed (dispatched.same p) :)⟩

/-- A process that has not ended is woken up. -/
theorem Kin.wakeup (k : Procs) (x : Int) (alive : ¬ Over (k.tabProc x).state) :
    Kin k.tabProc (wakeupProcess k x).tabProc := by
  have used : ∀ p, InUse (wakeupProcess k x).tabProc p ↔ InUse k.tabProc p := fun p => by simp [InUse]
  simp only [Over,not_or] at alive
  refine ⟨fun p => (used p).mp,fun p now _ => (used p).mpr now,fun p _ => by simp,fun p _ => by simp,fun p _ => ?_,
    fun p _ => ?_,fun p _ => by simp,fun p _ => by simp⟩
  all_goals by_cases same : p = x ∧ InUse k.tabProc x
  · simp [same,alive.1]
  · simp [same]
  · simp [same,alive.2]
  · simp [same]

/-- A call of `scheduler` with a new frame. -/
theorem scheduler_kin {p : Procs} (ready : ∃ q, Ready p q) (frame : Frame) :
    Kin p.tabProc (scheduler (p.setProc p.pidCour (fun c => { c with frame := frame }))).tabProc := by
  obtain ⟨q,ready⟩ := ready
  have done := scheduler_scheduled (ready.setProc p.pidCour (f := fun c => { c with frame := frame }) (fun _ => rfl)
    (fun _ => rfl) (fun _ => rfl))
  have written : Kin p.tabProc (p.setProc p.pidCour (fun c => { c with frame := frame })).tabProc :=
    .setProc p p.pidCour (fun _ => rfl) (fun _ => ⟨rfl,rfl,rfl,rfl⟩) Iff.rfl Iff.rfl
  exact written.trans (.dispatched done.dispatched)

/-- The return to user mode. -/
theorem user_kin (p : Procs) : Kin p.tabProc (p.setProc p.pidCour (fun c => { c with frame := .user })).tabProc :=
  .setProc p p.pidCour (fun _ => rfl) (fun _ => ⟨rfl,rfl,rfl,rfl⟩) Iff.rfl Iff.rfl

/-- What a step does to the family, up to changes that do not concern it. -/
inductive FamStep (lost : Prop) (k : Kernel) : Event → Kernel → Prop
  | kin {e : Event} {k' : Kernel} (kin : Kin k.tabProc k'.tabProc) (endLog : k'.endLog = k.endLog) : FamStep lost k e k'
  | created {e : Event} {k' : Kernel} {pid priority : Int} (inTab : InTab pid) (unused : ¬ InUse k.tabProc pid)
      (going : Going k.toProcs) (kin : Kin (created k.toProcs pid priority) k'.tabProc) (endLog : k'.endLog = k.endLog) :
      FamStep lost k e k'
  | exited {retval : Int} {k' : Kernel} (going : Going k.toProcs)
      (kin : Kin (terminated k.tabProc k.pidCour (some retval)) k'.tabProc)
      (endLog : k'.endLog = .exited k.pidCour retval :: k.endLog) : FamStep lost k (.call (.exit retval)) k'
  | killed {e : Event} {k' : Kernel} {pid : Int} (above : 1 < pid) (live : Live k.tabProc pid)
      (kin : Kin (terminated k.tabProc pid none) k'.tabProc) (endLog : k'.endLog = .killed pid :: k.endLog) :
      FamStep lost k e k'
  | reaped {e : Event} {k' : Kernel} {child : Int} (going : Going k.toProcs)
      (member : child ∈ (k.tabProc k.pidCour).children) (zombie : (k.tabProc child).state = .zombie)
      (kin : Kin (buried k.toProcs child).tabProc k'.tabProc)
      (endLog : k'.endLog = .reaped k.pidCour child :: k.endLog) : FamStep lost k e k'
  /-- A father goes on without a child. -/
  | missed {e : Event} {k' : Kernel} (unheard : lost) (kin : Kin k.tabProc k'.tabProc)
      (endLog : k'.endLog = .reaped k.pidCour (-1) :: k.endLog) : FamStep lost k e k'

section
variable {e : Event} (inside : Inside lost gone k.toProcs) (going : Going k.toProcs)

theorem sysret_famStep (ret : Option Int) : FamStep lost k e (sysret k ret) := .kin (user_kin k.toProcs) rfl

include inside in
theorem scheduler_famStep (frame : Frame) : FamStep lost k e (callScheduler k frame) :=
  .kin (scheduler_kin inside.ready frame) rfl

include inside in
theorem kill_famStep (pid : Int) (heard : Live k.tabProc pid → Unheard k.tabProc pid → lost) :
    FamStep lost k e (kill k pid) := by
  rcases kill_cases k pid with refused | ⟨positive,accepted,called⟩
  · rw [refused]
    exact sysret_famStep _
  · have live := not_ended (by omega) accepted
    have killed := (inside.kill live (fun waits any => heard live ⟨waits,any⟩)).ready
    have table := killProcess_tabProc inside.tree live
    rw [called]
    refine .killed positive live ?_ rfl
    rw [← table]
    exact scheduler_kin killed _

include inside in
theorem handlePfault_famStep (heard : Unheard k.tabProc k.pidCour → lost) : FamStep lost k e (handlePfault k) := by
  unfold handlePfault
  split
  · exact scheduler_famStep inside _
  · exact kill_famStep inside _ (fun _ => heard)

include inside in
/-- The page fault of a process that has written to a descriptor not in use. -/
theorem handlePfault_unused {x : Int} {f : Context → Context} (unused : ¬ InUse k.tabProc x)
    (still : ∀ c, (f c).valide = c.valide) (inside' : Inside lost gone (k.toProcs.setProc x f))
    (heard : Unheard (k.toProcs.setProc x f).tabProc k.pidCour → lost) :
    FamStep lost k e (handlePfault { k with toProcs := k.toProcs.setProc x f }) := by
  have others : ∀ p, p ≠ x → (k.toProcs.setProc x f).tabProc p = k.tabProc p := fun p other => by simp [other]
  have valide : ((k.toProcs.setProc x f).tabProc x).valide = (k.tabProc x).valide := by
    by_cases inTab : InTab x <;> simp [inTab,still]
  have written : Kin k.tabProc (k.toProcs.setProc x f).tabProc := .unused unused valide others
  unfold handlePfault
  split
  · exact .kin (written.trans (scheduler_kin inside'.ready _)) rfl
  · rcases kill_cases { k with toProcs := k.toProcs.setProc x f } k.pidCour with refused | ⟨positive,accepted,called⟩
    · exact refused ▸ .kin (written.trans (user_kin _)) rfl
    · have live' : Live (k.toProcs.setProc x f).tabProc k.pidCour := not_ended (by omega) accepted
      have live := (written.live _).mp live'
      have killed := (inside'.kill live' (fun waits any => heard ⟨waits,any⟩)).ready
      refine called ▸ .killed positive live (Kin.trans ?_ (scheduler_kin killed _)) rfl
      rw [killProcess_tabProc inside'.tree live']
      exact .unused (x := x) unused valide (fun q other => terminated_unused inside.tree live unused others none other)

include inside going

theorem exit_famStep (retval : Int) : FamStep lost k (.call (.exit retval)) (exit k retval) := by
  refine .exited going ?_ rfl
  rw [← exitProcess_tabProc inside.tree going.live]
  exact scheduler_kin (inside.exit going retval).ready _

theorem chprio_famStep (pid newprio : Int) : FamStep lost k e (chprio k pid newprio) := by
  rcases chprio_cases k pid newprio with ⟨_,refused⟩ | ⟨positive,accepted,_,_,⟨_,called⟩ | called⟩
  · rw [refused]
    exact sysret_famStep _
  · rw [called]
    exact scheduler_famStep inside _
  · obtain ⟨inside',_⟩ := setPriority_inside inside going (not_ended positive accepted) newprio rfl
    rw [called]
    refine .kin (Kin.trans ?_ (scheduler_kin inside'.ready _)) rfl
    have written : Kin k.tabProc (k.toProcs.setProc pid (fun c => { c with priority := newprio })).tabProc :=
      .setProc k.toProcs pid (fun _ => rfl) (fun _ => ⟨rfl,rfl,rfl,rfl⟩) Iff.rfl Iff.rfl
    split
    · rw [requeue_tabProc]; exact written
    · exact written

theorem start_famStep (ssize : Nat) (prio : Int) {memory : Memory}
    (apart : ∀ pid, Takes k.tabProc ssize memory pid → ∀ n, ¬ gone pid n)
    (heard : ssize ≤ 0xffffffe7 → Stumbles k.tabProc memory → Unheard k.tabProc k.pidCour → lost) :
    FamStep lost k e (start k ssize prio memory) := by
  rcases start_cases k ssize prio memory with ⟨_,refused⟩ | ⟨small,ends⟩
  · rw [refused]
    exact sysret_famStep _
  · obtain ⟨inside',going',_⟩ := contextCreateUser_inside inside going prio
      (fun pid stack found => apart pid ⟨small,stack,found⟩)
    obtain ⟨q,ready⟩ := inside.ready
    have finish : ∀ k', Kin (contextCreateUser k.toProcs prio memory).1.tabProc k'.tabProc → k'.endLog = k.endLog →
        FamStep lost k e k' := by
      intro k' last endLog
      rcases contextCreateUser_cases ready.cour prio memory with ⟨_,same⟩ | ⟨pid,found,_,⟨_,same⟩ | ⟨_,same⟩⟩
      · rw [same] at last
        exact .kin last endLog
      · obtain ⟨inTab,unused⟩ := freePid_unused found
        have written : Kin k.tabProc (k.toProcs.setProc pid (givenUp k.toProcs prio memory)).tabProc :=
          .unused unused (by simp [inTab,givenUp]) (fun p other => by simp [other])
        rw [same] at last
        exact .kin (written.trans last) endLog
      · obtain ⟨inTab,unused⟩ := freePid_unused found
        rw [same,created_wakeup k.toProcs pid prio] at last
        exact .created inTab unused going last endLog
    rcases ends with ⟨_,_,_,called⟩ | ⟨_,_,_,called⟩ | ⟨fault,called⟩
    · rw [called]
      exact finish _ (scheduler_kin inside'.ready _) rfl
    · rw [called]
      exact finish _ (user_kin _) rfl
    · obtain ⟨_,pid,found,written⟩ := contextCreateUser_none ready.cour fault
      have told := stumbles_heard going.live.1 fault (heard small)
      rw [called]
      dsimp only at inside' told ⊢
      rw [written] at inside' told ⊢
      exact handlePfault_unused inside (freePid_unused found).2 (fun _ => rfl) inside' told

omit going in
/-- A father that has been woken up without a child reports nothing. -/
theorem reaped_kin {child : Int} (going : Going k.toProcs) (reported : Reported lost k.toProcs child)
    (kin : Kin (buried k.toProcs child).tabProc k'.tabProc) (endLog : k'.endLog = .reaped k.pidCour child :: k.endLog) :
    FamStep lost k e k' := by
  rcases reported with ⟨unheard,rfl⟩ | ⟨member,zombie⟩
  · rw [buried_lost inside.tree going.live] at kin
    exact .missed unheard kin endLog
  · exact .reaped going member zombie kin endLog

theorem reap_famStep {child : Int} (retvalp : Nat) (reported : Reported lost k.toProcs child)
    (heard : retvalp ≠ 0 → ¬ Mapped retvalp → Unheard k.tabProc k.pidCour → lost) :
    FamStep lost k e (reap k child retvalp) := by
  unfold reap
  split
  · rename_i faulty
    exact handlePfault_famStep inside (heard faulty.1 faulty.2)
  · dsimp only
    split
    all_goals
      exact reaped_kin inside going reported (user_kin (buried k.toProcs child)) rfl

theorem waitChild_famStep (pidWait : Int) (frame : Frame) : FamStep lost k e (waitChild k pidWait frame) := by
  have blocked := inside.block going (blocks_waitChild pidWait)
  refine .kin (Kin.trans ?_ (scheduler_kin blocked.ready _)) rfl
  exact .setProc k.toProcs k.pidCour (fun _ => rfl) (fun _ => ⟨rfl,rfl,rfl,rfl⟩) (by simp [going.active])
    (by simp [going.active])

theorem waitpid_famStep (pid : Int) (retvalp : Nat)
    (heard : (∃ child, Finds k.toProcs pid child) → checkPointer retvalp ≠ 0 → ¬ Mapped (checkPointer retvalp) →
      Unheard k.tabProc k.pidCour → lost) : FamStep lost k e (waitpid k pid retvalp) := by
  rcases waitpid_cases k pid retvalp with ⟨_,_,same⟩ | ⟨child,finds,same⟩ | ⟨_,_,same⟩ | ⟨_,_,_,same⟩
  · rw [same]; exact sysret_famStep _
  · rw [same]; exact reap_famStep inside going _ (.inr ⟨finds.member,finds.zombie⟩) (heard ⟨child,finds⟩)
  · rw [same]; exact waitChild_famStep inside going _ _
  · rw [same]; exact waitChild_famStep inside going _ _

theorem waitClock_famStep (clock : Nat) : FamStep lost k e (waitClock k clock) := by
  have blocked := inside.block going (blocks_asleep (ulong clock))
  refine .kin (Kin.trans ?_ (scheduler_kin blocked.ready _)) rfl
  exact .setProc k.toProcs k.pidCour (fun _ => rfl) (fun _ => ⟨rfl,rfl,rfl,rfl⟩) (by simp [going.active])
    (by simp [going.active])

end

/-- A kernel that differs from `k` in fields of no concern takes the same step. -/
theorem FamStep.congr {l : Kernel} {e : Event} (procs : l.toProcs = k.toProcs) (endLog : l.endLog = k.endLog)
    (step : FamStep lost l e k') : FamStep lost k e k' := by
  have table : l.tabProc = k.tabProc := congrArg Procs.tabProc procs
  have cour : l.pidCour = k.pidCour := congrArg Procs.pidCour procs
  cases step with
  | kin kin log => exact .kin (table ▸ kin) (log.trans endLog)
  | created inTab unused going kin log =>
    exact .created inTab (table ▸ unused) (procs ▸ going) (procs ▸ kin) (log.trans endLog)
  | exited going kin log =>
    rw [table,cour] at kin
    exact .exited (procs ▸ going) kin (by rw [log,endLog,cour])
  | killed above live kin log => exact .killed above (table ▸ live) (table ▸ kin) (by rw [log,endLog])
  | reaped going member zombie kin log =>
    rw [table,cour] at member
    exact .reaped (procs ▸ going) member (table ▸ zombie) (procs ▸ kin) (by rw [log,endLog,cour])
  | missed unheard kin log => exact .missed unheard (table ▸ kin) (by rw [log,endLog,cour])

/-! ### Input and time -/

theorem takeByte_famStep {e : Event} (inside : Inside lost gone k.toProcs) {vc : Int} {buf len left : Nat}
    {loop : Kernel → Kernel}
    (rest : ∀ l : Kernel, l.toProcs = k.toProcs → l.endLog = k.endLog → FamStep lost k e (loop l))
    (heard : Unheard k.tabProc k.pidCour → lost) : FamStep lost k e (takeByte k vc buf len left loop) := by
  unfold takeByte
  dsimp only
  split
  · exact .kin (user_kin k.toProcs) rfl
  · split
    · let l := k.setConsole vc (fun c => { c with buf := (InputBuffer.pop c.buf).2 })
      exact FamStep.congr (l := l) rfl rfl (handlePfault_famStep (k := l) inside heard)
    · exact rest _ rfl rfl

theorem consReadLoop_famStep {e : Event} (vc : Int) (buf len left : Nat) (inside : Inside lost gone k.toProcs)
    (going : Going k.toProcs) (heard : Unheard k.tabProc k.pidCour → lost) :
    FamStep lost k e (consReadLoop vc buf len left k) := by
  induction left generalizing k with
  | zero => exact sysret_famStep _
  | succ left ih =>
    unfold consReadLoop
    split
    · have blocked := inside.block going blocks_waitIo
      refine .kin (Kin.trans ?_ (scheduler_kin blocked.ready _)) rfl
      exact .setProc k.toProcs k.pidCour (fun _ => rfl) (fun _ => ⟨rfl,rfl,rfl,rfl⟩) (by simp [going.active])
        (by simp [going.active])
    · refine takeByte_famStep inside (fun l same log => ?_) heard
      exact (ih (k := l) (same ▸ inside) (same ▸ going) (same ▸ heard)).congr same log

theorem wakeSleepers_kin (n : Nat) (l : List Int) (k : Procs) : Kin k.tabProc (l.foldl (wakeSleeper n) k).tabProc := by
  induction l generalizing k with
  | nil => exact .refl _
  | cons pid rest ih =>
    refine Kin.trans ?_ (ih _)
    unfold wakeSleeper
    split
    · rename_i due
      exact .wakeup k pid (by simp [due.2.1,Over])
    · exact .refl _

theorem int32_famStep {e : Event} (stable : Stable lost gone k) (mode : k.inKernel = false) :
    FamStep lost k e (int32 k) := by
  let l : Kernel := { k with nbInterrupt := ulong (k.nbInterrupt + 1) }
  have served : Served lost gone l.toProcs (updateTimer l).toProcs :=
    updateTimer_served ⟨stable.toInside,stable.going mode,rfl,.refl _⟩
  exact .kin ((wakeSleepers_kin _ _ _).trans (scheduler_kin served.inside.ready _)) rfl

/-! ### All steps -/

theorem handle_famStep (stable : Stable lost gone k) (mode : k.inKernel = false) (busy : k.pidCour ≠ 0) (c : Call)
    (plain : Plain (.call c)) (heard : Heard k (.call c) ∨ lost)
    (apart : ∀ pid, Reuses k (.call c) pid → ∀ n, ¬ gone pid n) : FamStep lost k (.call c) (handle k c) := by
  have inside := stable.toInside
  have going := stable.going mode busy
  cases c with
  | start ssize prio memory =>
    exact start_famStep inside going ssize prio apart (fun small stumbles => Heard.fault heard ⟨small,stumbles⟩)
  | exit retval => exact exit_famStep inside going retval
  | kill pid => exact kill_famStep inside pid (Heard.kill heard)
  | getprio pid =>
    show FamStep lost k _ (getprio k pid)
    obtain ⟨_,called⟩ := getprio_sysret k pid
    rw [called]
    exact sysret_famStep _
  | chprio pid newprio => exact chprio_famStep inside going pid newprio
  | getpid | getppid | currentClock => exact sysret_famStep _
  | waitpid pid retvalp =>
    exact waitpid_famStep inside going pid retvalp (fun found some unmapped => Heard.fault heard ⟨found,some,unmapped⟩)
  | waitClock clock => exact waitClock_famStep inside going clock
  | consRead buf len => exact consReadLoop_famStep _ _ _ _ inside going (Heard.fault heard trivial)
  | setBuffered buffered => exact .kin (user_kin k.toProcs) rfl
  | setStdout node =>
    cases node with
    | none => exact sysret_famStep _
    | some inode =>
      have written : Kin k.tabProc (k.toProcs.setProc k.pidCour (fun c => { c with stdout := inode })).tabProc :=
        .setProc k.toProcs k.pidCour (fun _ => rfl) (fun _ => ⟨rfl,rfl,rfl,rfl⟩) Iff.rfl Iff.rfl
      exact .kin (written.trans (user_kin _)) rfl
  | sigReturn => exact scheduler_famStep inside _
  | screate _ _ | wait _ | tryWait _ | signal _ | signaln _ _ | scount _ | sreset _ _ | sdelete _ => exact plain.elim

theorem resume_famStep (stable : Stable lost gone k) (heard : Heard k .resume ∨ lost) :
    FamStep lost k .resume (resume k) := by
  have inside := stable.toInside
  unfold resume
  split
  · exact .kin (.refl _) rfl
  · rename_i busy
    have going := resume_going stable busy
    split
    · exact sysret_famStep _
    · exact sysret_famStep _
    · rcases waitResume_cases k with ⟨_,same⟩ | ⟨_,same⟩
      · have written : Kin k.tabProc (unmarked k).tabProc :=
          .setProc k.toProcs k.pidCour (f := fun c => { c with sidReseted := false }) (fun _ => rfl)
            (fun _ => ⟨rfl,rfl,rfl,rfl⟩) Iff.rfl Iff.rfl
        rw [same]
        exact .kin (written.trans (user_kin _)) rfl
      · rw [same]; exact sysret_famStep _
    · rename_i retvalp frame
      exact reap_famStep inside (going (by simp [frame])) retvalp (resume_any stable busy frame)
        (fun some unmapped => Heard.fault heard (by simp [Faults,Faulty,frame,some,unmapped]))
    · rename_i pid retvalp frame
      exact reap_famStep inside (going (by simp [frame])) retvalp (.inr (resume_one stable busy frame))
        (fun some unmapped => Heard.fault heard (by simp [Faults,Faulty,frame,some,unmapped]))
    · rename_i vc buf len left frame
      have told := Heard.fault heard (k := k) (by simp [Faults,Faulty,frame])
      have going := going (by simp [frame])
      refine takeByte_famStep inside (fun l same log => ?_) told
      exact (consReadLoop_famStep vc buf len left (k := l) (same ▸ inside) (same ▸ going) (same ▸ told)).congr same log
    · exact .kin (.refl _) rfl
    · rename_i frame
      exact handlePfault_famStep inside (Heard.fault heard (by simp [Faults,Faulty,frame]))

/-- Every step without semaphores and keyboard is of one of these kinds. -/
theorem step_famStep (stable : Stable lost gone k) {e : Event} (plain : Plain e) (heard : Heard k e ∨ lost)
    (apart : ∀ pid, Reuses k e pid → ∀ n, ¬ gone pid n) (stepped : step k e = some k') : FamStep lost k e k' := by
  rcases step_cases stepped with ⟨c,rfl,mode,busy,rfl⟩ | ⟨rfl,mode,busy,rfl⟩ | ⟨rfl,mode,rfl⟩ | ⟨key,rfl,_⟩ |
    ⟨vcNumber,rfl,_⟩ | ⟨rfl,_,rfl⟩
  · exact handle_famStep stable mode busy c plain heard apart
  · exact handlePfault_famStep stable.toInside (Heard.fault heard trivial)
  · exact int32_famStep stable mode
  · exact plain.elim
  · exact plain.elim
  · exact resume_famStep stable heard

end Psys.FamSteps
