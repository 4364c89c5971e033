import Psys.Invariant

/-!
What the kernel uses to find a descriptor stays in `tab_proc`, whatever the
processes do: the current PID, fathers, children, the activable list, and what
`waitpid` sleeps on. Only `pid_wait` may also be -1.
-/
namespace Psys.Bounds
open Psys.State Psys.Context Psys.Sys Psys.Semaphore Psys.Devices Psys.System Psys.ProcQueue
open Psys.Calls (waitpid_cases)
open Psys.Invariant (step_cases)
open Psys.SemCalls (waitResume_cases sreset_cases sdelete_cases)

/-- The cells of the activable list. -/
def Cell : Ring.Addr Int → Prop
  | .head => True
  | .elem p => InTab p

/-- The PIDs in a descriptor that are used as indices. -/
structure Within (c : Context) : Prop where
  children : ∀ child ∈ c.children, InTab child
  parent : c.pidParent ≤ NBPROC
  any : ∀ retvalp, c.frame = .waitpidAny retvalp → c.pidWait = -1 ∨ InTab c.pidWait
  one : ∀ pid retvalp, c.frame = .waitpid pid retvalp → InTab pid

structure Bounded (k : Procs) : Prop where
  within : ∀ p, InTab p → Within (k.tabProc p)
  cour : k.pidCour = 0 ∨ InTab k.pidCour
  linked : Ring.Closed Cell k.links

theorem Bounded.setProc {k : Procs} (bounded : Bounded k) (x : Int) {f : Context → Context}
    (written : InTab x → Within (k.tabProc x) → Within (f (k.tabProc x))) : Bounded (k.setProc x f) where
  within p inTab := by
    by_cases same : p = x
    · subst same
      simpa [inTab] using written inTab (bounded.within p inTab)
    · simpa [same] using bounded.within p inTab
  cour := bounded.cour
  linked := bounded.linked

/-- A write that leaves those PIDs alone. -/
theorem Bounded.write {k : Procs} (bounded : Bounded k) (x : Int) {f : Context → Context}
    (children : ∀ c, (f c).children = c.children) (parent : ∀ c, (f c).pidParent = c.pidParent)
    (wait : ∀ c, (f c).pidWait = c.pidWait) (frame : ∀ c, (f c).frame = c.frame) : Bounded (k.setProc x f) :=
  bounded.setProc x (fun _ within =>
    ⟨by rw [children]; exact within.children,by rw [parent]; exact within.parent,
      by rw [frame,wait]; exact within.any,by rw [frame]; exact within.one⟩)

theorem Bounded.setState {k : Procs} (bounded : Bounded k) (x : Int) (state : ProcState) : Bounded (k.setState x state) :=
  bounded.write x (fun _ => rfl) (fun _ => rfl) (fun _ => rfl) (fun _ => rfl)

theorem Bounded.ite {c : Prop} [Decidable c] {k k' : Procs} (first : Bounded k) (second : Bounded k') :
    Bounded (if c then k else k') := by
  split
  · exact first
  · exact second

/-- A process becomes the current one. -/
theorem Bounded.pass {k : Procs} (bounded : Bounded k) {pid : Int} (cour : pid = 0 ∨ InTab pid) :
    Bounded { k with pidCour := pid } := ⟨bounded.within,cour,bounded.linked⟩

theorem Bounded.relink {k : Procs} (bounded : Bounded k) {links : Ring.Links Int} (linked : Ring.Closed Cell links) :
    Bounded { k with links := links } := ⟨bounded.within,bounded.cour,linked⟩

/-! ### `context.c` -/

theorem queueAdd_bounded {k : Procs} (bounded : Bounded k) {pid : Int} (inTab : InTab pid) : Bounded (queueAdd k pid) := by
  unfold queueAdd
  split
  · rename_i links added
    exact { bounded with linked := Ring.add_closed bounded.linked trivial inTab added }
  · exact { bounded with }

theorem queueDel_bounded {k : Procs} (bounded : Bounded k) {pid : Int} (inTab : InTab pid) : Bounded (queueDel k pid) := by
  unfold queueDel
  split
  · rename_i links deleted
    exact { bounded with linked := Ring.del_closed bounded.linked inTab deleted }
  · exact { bounded with }

theorem wakeupProcess_bounded {k : Procs} (bounded : Bounded k) (pid : Int) : Bounded (wakeupProcess k pid) := by
  by_cases used : InUse k.tabProc pid
  · rw [wakeupProcess_used used]
    have stated := bounded.setState pid .activable
    refine queueAdd_bounded ?_ used.1
    exact { stated with linked := stated.linked.clear _ }
  · rw [wakeupProcess_unused used]
    exact bounded

theorem garbageCollector_bounded {k : Procs} (bounded : Bounded k) : Bounded (garbageCollector k) where
  within p inTab := by
    rw [garbageCollector_tabProc]
    exact { bounded.within p inTab with }
  cour := bounded.cour
  linked := bounded.linked

theorem switchTo_bounded {k : Procs} (bounded : Bounded k) {pid : Int} (inTab : InTab pid) : Bounded (switchTo k pid) :=
  garbageCollector_bounded ((bounded.pass (.inr inTab)).setState pid .active)

theorem scheduler_bounded {k : Procs} (bounded : Bounded k) : Bounded (scheduler k) := by
  unfold scheduler
  split
  · split
    · exact { bounded with }
    · exact bounded
    · rename_i pid links taken
      obtain ⟨inTab,linked⟩ := Ring.out_closed bounded.linked trivial taken
      exact switchTo_bounded (bounded.relink linked) inTab
  · split
    · exact { bounded with }
    · rename_i pid found
      have inTab : InTab pid := Ring.top_closed bounded.linked trivial found
      split
      · have deleted := queueDel_bounded bounded inTab
        dsimp only
        split
        · exact switchTo_bounded (wakeupProcess_bounded deleted _) inTab
        · exact switchTo_bounded deleted inTab
      · exact bounded
    · split
      · exact garbageCollector_bounded (bounded.pass (.inl rfl))
      · exact bounded

theorem freePid_inTab {t : Int → Context} {pid : Int} (found : freePid t = some pid) : InTab pid :=
  (mem_pids pid).mp (List.mem_of_find?_eq_some found)

theorem contextCreateUser_bounded {k : Procs} (bounded : Bounded k) (priority : Int) (memory : Memory) :
    Bounded (contextCreateUser k priority memory).1 := by
  have current : k.pidCour ≤ NBPROC := by
    rcases bounded.cour with idle | inTab
    · simp [idle,NBPROC]
    · exact inTab.2
  unfold contextCreateUser
  split
  · exact bounded
  · rename_i pid found
    have inTab := freePid_inTab found
    split
    · exact bounded
    · have fresh := bounded.setProc pid (f := fun c => { c with
          state := .activable, priority := priority, pidParent := k.pidCour, killed := false, children := []
          sidWait := 0, sidReseted := false, sidDeleted := false })
        (fun _ within => { within with children := by simp, parent := current })
      have printing := fun out : Int => fresh.write pid (f := fun c => { c with stdout := out }) (fun _ => rfl) (fun _ => rfl)
        (fun _ => rfl) (fun _ => rfl)
      dsimp only
      split
      · exact fresh
      · split
        · exact fresh
        · split
          · exact printing _
          · refine wakeupProcess_bounded (Bounded.setProc (.ite (Bounded.setProc (printing _) _ (fun _ within =>
              { within with children := fun child member => ?_ })) (printing _)) pid (fun _ within =>
                { within with any := by simp, one := by simp })) pid
            rcases List.mem_cons.mp member with rfl | old
            · exact inTab
            · exact within.children child old

/-! ### `sys.c` -/

theorem adopt_bounded {k : Procs} (bounded : Bounded k) {child : Int} (inTab : InTab child) : Bounded (adopt k child) := by
  unfold adopt
  split
  · exact bounded.setState child .dead
  · have moved := bounded.setProc child (f := fun c => { c with pidParent := 1 })
      (fun _ within => { within with parent := by simp [NBPROC] })
    refine moved.setProc 1 (fun _ within => { within with children := fun other member => ?_ })
    rcases List.mem_cons.mp member with rfl | old
    · exact inTab
    · exact within.children other old

theorem adoptChildren_bounded {k : Procs} (bounded : Bounded k) {pid : Int} (inTab : InTab pid) :
    Bounded (adoptChildren k pid) := by
  have fold : ∀ (children : List Int) (k : Procs), (∀ c ∈ children, InTab c) → Bounded k → Bounded (children.foldl adopt k) := by
    intro children
    induction children with
    | nil => exact fun _ _ bounded => bounded
    | cons c rest ih =>
      exact fun k inside bounded => ih _ (fun d member => inside d (by simp [member])) (adopt_bounded bounded (inside c (by simp)))
  exact fold _ k (bounded.within pid inTab).children bounded

/-- A child leaves the list of its father. -/
theorem Bounded.forget {k : Procs} (bounded : Bounded k) (x child : Int) :
    Bounded (k.setProc x (fun c => { c with children := c.children.erase child })) :=
  bounded.setProc x (fun _ within =>
    { within with children := fun other member => within.children other (List.mem_of_mem_erase member) })

theorem exitProcess_bounded {k : Procs} (bounded : Bounded k) (inTab : InTab k.pidCour) (retval : Int) :
    Bounded (exitProcess k retval) := by
  have told : Bounded (if FatherWaits k.tabProc k.pidCour
      then wakeupProcess (k.setProc (k.tabProc k.pidCour).pidParent (fun c => { c with pidWait := k.pidCour }))
        (k.tabProc k.pidCour).pidParent else k) :=
    .ite (wakeupProcess_bounded (bounded.setProc _ (fun _ within => { within with any := fun _ _ => .inr inTab })) _) bounded
  have adopted := adoptChildren_bounded told inTab
  exact .ite (adopted.write _ (fun _ => rfl) (fun _ => rfl) (fun _ => rfl) (fun _ => rfl))
    ((adopted.setState _ _).forget 1 _)

theorem killProcess_bounded {k : Procs} (bounded : Bounded k) {pid : Int} (inTab : InTab pid) :
    Bounded (killProcess k pid) := by
  have told : Bounded (if FatherWaits k.tabProc pid then wakeupProcess k (k.tabProc pid).pidParent else k) :=
    .ite (wakeupProcess_bounded bounded _) bounded
  have adopted := adoptChildren_bounded told inTab
  have out : ∀ p : Procs, Bounded p → Bounded (if (p.tabProc pid).state = .activable then queueDel p pid else p) :=
    fun p bounded => .ite (queueDel_bounded bounded inTab) bounded
  exact .ite ((out _ adopted).write _ (fun _ => rfl) (fun _ => rfl) (fun _ => rfl) (fun _ => rfl))
    (((out _ adopted).setState _ _).forget 1 _)

theorem requeue_bounded {k : Procs} (bounded : Bounded k) (pid : Int) : Bounded (requeue k pid) := by
  unfold requeue
  split
  · exact { bounded with }
  · exact bounded
  · rename_i found met
    have inTab : InTab found := Ring.seek_mem (S := Cell) (a := .head) (fun a c inside next => (bounded.linked a inside).1 c next)
      trivial met
    exact queueAdd_bounded (queueDel_bounded bounded inTab) inTab

/-! ### Steps -/

/-- A frame that `waitpid` does not leave. -/
def Other : Frame → Prop
  | .waitpidAny _ | .waitpid _ _ => False
  | _ => True

/-- The current process gets such a frame. -/
theorem Other.framed {f : Frame} (other : Other f) {k : Procs} (bounded : Bounded k) :
    Bounded (k.setProc k.pidCour (fun c => { c with frame := f })) := by
  refine bounded.setProc _ (fun _ within => { within with any := fun r same => ?_, one := fun q r same => ?_ })
  · have same : f = .waitpidAny r := same
    rw [same] at other
    exact other.elim
  · have same : f = .waitpid q r := same
    rw [same] at other
    exact other.elim

theorem sysret_bounded {k : Kernel} (bounded : Bounded k.toProcs) (ret : Option Int) : Bounded (sysret k ret).toProcs :=
  Other.framed (f := .user) trivial bounded

theorem callScheduler_bounded {k : Kernel} (bounded : Bounded k.toProcs) {frame : Frame} (other : Other frame) :
    Bounded (callScheduler k frame).toProcs :=
  scheduler_bounded (other.framed bounded)

theorem kill_bounded {k : Kernel} (bounded : Bounded k.toProcs) (pid : Int) : Bounded (kill k pid).toProcs := by
  rcases kill_cases k pid with refused | ⟨_,accepted,called⟩
  · rw [refused]
    exact sysret_bounded bounded _
  · simp only [Ended,not_or] at accepted
    have inTab : InTab pid := ⟨by omega,by omega⟩
    rw [called]
    exact callScheduler_bounded (k := { k with toProcs := _, semaphores := _, endLog := _ })
      (killProcess_bounded bounded inTab) trivial

theorem handlePfault_bounded {k : Kernel} (bounded : Bounded k.toProcs) : Bounded (handlePfault k).toProcs := by
  unfold handlePfault
  split
  · exact callScheduler_bounded bounded trivial
  · exact kill_bounded bounded _

theorem chprio_bounded {k : Kernel} (bounded : Bounded k.toProcs) (pid newprio : Int) :
    Bounded (chprio k pid newprio).toProcs := by
  have written := bounded.write pid (f := fun c => { c with priority := newprio }) (fun _ => rfl) (fun _ => rfl)
    (fun _ => rfl) (fun _ => rfl)
  rcases chprio_cases k pid newprio with ⟨_,refused⟩ | ⟨_,_,_,_,⟨_,called⟩ | called⟩
  · rw [refused]
    exact sysret_bounded bounded _
  · rw [called]
    exact callScheduler_bounded bounded trivial
  · rw [called]
    exact callScheduler_bounded (k := { k with toProcs := _ }) (.ite (requeue_bounded written pid) written) trivial

theorem reap_bounded {k : Kernel} (bounded : Bounded k.toProcs) (child : Int) (retvalp : Nat) :
    Bounded (reap k child retvalp).toProcs := by
  unfold reap
  split
  · exact handlePfault_bounded bounded
  · have dead := (bounded.setState child .dead).forget k.pidCour child
    dsimp only
    split
    · exact Other.framed (f := .user) trivial dead
    · exact Other.framed (f := .user) trivial dead

theorem waitChild_bounded {k : Kernel} (bounded : Bounded k.toProcs) {pidWait : Int} (wait : pidWait = -1 ∨ InTab pidWait)
    {frame : Frame} (one : ∀ pid retvalp, frame = .waitpid pid retvalp → InTab pid) :
    Bounded (waitChild k pidWait frame).toProcs := by
  have asleep := bounded.setProc k.pidCour (f := fun c => { c with state := .waitChild, pidWait := pidWait })
    (fun _ within => { within with any := fun _ _ => wait })
  refine scheduler_bounded (asleep.setProc k.pidCour (fun inTab within =>
    { within with any := fun _ _ => ?_, one := one }))
  simpa [inTab] using wait

theorem waitpid_bounded {k : Kernel} (bounded : Bounded k.toProcs) (busy : k.pidCour ≠ 0) (pid : Int) (retvalp : Nat) :
    Bounded (waitpid k pid retvalp).toProcs := by
  have children := (bounded.within _ (bounded.cour.resolve_left busy)).children
  rcases waitpid_cases k pid retvalp with ⟨_,_,called⟩ | ⟨_,_,called⟩ | ⟨_,_,called⟩ | ⟨_,member,_,called⟩
  all_goals rw [called]
  · exact sysret_bounded bounded _
  · exact reap_bounded bounded _ _
  · exact waitChild_bounded bounded (.inl rfl) (by simp)
  · have inTab := children pid member
    exact waitChild_bounded bounded (.inr inTab) (fun _ _ same => (Frame.waitpid.inj same).1 ▸ inTab)

theorem start_bounded {k : Kernel} (bounded : Bounded k.toProcs) (ssize : Nat) (prio : Int) (memory : Memory) :
    Bounded (start k ssize prio memory).toProcs := by
  have created := contextCreateUser_bounded bounded prio memory
  rcases start_cases k ssize prio memory with ⟨_,refused⟩ | ⟨_,⟨_,_,_,called⟩ | ⟨_,_,_,called⟩ | ⟨_,called⟩⟩
  · rw [refused]
    exact sysret_bounded bounded _
  · rw [called]
    exact callScheduler_bounded (k := { k with toProcs := _ }) created trivial
  · rw [called]
    exact sysret_bounded (k := { k with toProcs := _ }) created _
  · rw [called]
    exact handlePfault_bounded (k := { k with toProcs := _ }) created

theorem updateTimer_bounded {k : Kernel} (bounded : Bounded k.toProcs) : Bounded (updateTimer k).toProcs := by
  have fold : ∀ (rest : List Int) (p : Procs), Bounded p → Bounded (rest.foldl (wakeSleeper k.nbInterrupt) p) := by
    intro rest
    induction rest with
    | nil => exact fun _ bounded => bounded
    | cons pid rest ih => exact fun p bounded => ih _ (.ite (wakeupProcess_bounded bounded pid) bounded)
  exact fold pids _ bounded

theorem keyboardData_bounded {k : Kernel} (bounded : Bounded k.toProcs) (key : UInt8) :
    Bounded (keyboardData k key).toProcs := by
  unfold keyboardData
  split
  · exact bounded
  · unfold bufferPush
    dsimp only
    split
    · exact wakeupProcess_bounded bounded _
    · exact bounded

theorem takeByte_bounded {k : Kernel} (bounded : Bounded k.toProcs) {vc : Int} {buf len left : Nat} {loop : Kernel → Kernel}
    (rest : ∀ k : Kernel, Bounded k.toProcs → Bounded (loop k).toProcs) :
    Bounded (takeByte k vc buf len left loop).toProcs := by
  unfold takeByte
  dsimp only
  split
  · exact Other.framed (f := .user) trivial bounded
  split
  · exact handlePfault_bounded (k := k.setConsole vc _) bounded
  · exact rest _ bounded

theorem consReadLoop_bounded (vc : Int) (buf len left : Nat) {k : Kernel} (bounded : Bounded k.toProcs) :
    Bounded (consReadLoop vc buf len left k).toProcs := by
  induction left generalizing k with
  | zero => exact sysret_bounded bounded _
  | succ left ih =>
    rw [consReadLoop]
    split
    · exact scheduler_bounded (Other.framed (f := .consRead vc buf len left) trivial
        (bounded.setState k.pidCour .waitIo))
    · exact takeByte_bounded bounded (fun _ bounded => ih bounded)

theorem setStdout_bounded {k : Kernel} (bounded : Bounded k.toProcs) (node : Option Int) :
    Bounded (setStdout k node).toProcs := by
  cases node with
  | none => exact sysret_bounded bounded _
  | some inode =>
    exact Other.framed (f := .user) trivial
      (bounded.write k.pidCour (f := fun c => { c with stdout := inode }) (fun _ => rfl) (fun _ => rfl) (fun _ => rfl) (fun _ => rfl))

theorem wait_bounded {k : Kernel} (bounded : Bounded k.toProcs) (sid : Int) : Bounded (wait k sid).toProcs := by
  have asleep := bounded.write k.pidCour (f := fun c => { c with state := .waitSem, sidWait := sid }) (fun _ => rfl)
    (fun _ => rfl) (fun _ => rfl) (fun _ => rfl)
  unfold wait
  dsimp only
  split
  · exact sysret_bounded bounded _
  split
  · exact sysret_bounded bounded _
  split
  · exact scheduler_bounded (Other.framed (f := .wait sid) trivial asleep)
  · exact Other.framed (f := .user) trivial bounded

theorem waitResume_bounded {k : Kernel} (bounded : Bounded k.toProcs) : Bounded (waitResume k).toProcs := by
  have cleared := bounded.write k.pidCour (f := fun c => { c with sidReseted := false }) (fun _ => rfl) (fun _ => rfl)
    (fun _ => rfl) (fun _ => rfl)
  rcases waitResume_cases k with ⟨_,called⟩ | ⟨_,called⟩
  · rw [called]
    exact Other.framed (f := .user) trivial cleared
  · rw [called]
    exact sysret_bounded bounded _

theorem tryWait_bounded {k : Kernel} (bounded : Bounded k.toProcs) (sid : Int) : Bounded (tryWait k sid).toProcs := by
  unfold tryWait
  dsimp only
  repeat' split
  all_goals exact Other.framed (f := .user) trivial bounded

theorem signalOne_bounded {k : Kernel} (bounded : Bounded k.toProcs) (sid : Int) : Bounded (signalOne k sid).toProcs := by
  unfold signalOne
  dsimp only
  split
  · split
    · exact bounded
    · exact wakeupProcess_bounded bounded _
  · exact bounded

theorem signal_bounded {k : Kernel} (bounded : Bounded k.toProcs) (sid : Int) : Bounded (signal k sid).toProcs := by
  have given := signalOne_bounded bounded sid
  rcases signal_cases k sid with ⟨_,refused⟩ | ⟨_,_,⟨_,called⟩ | ⟨_,called⟩⟩
  · rw [refused]
    exact sysret_bounded bounded _
  · rw [called]
    exact callScheduler_bounded given trivial
  · rw [called]
    exact sysret_bounded given _

theorem signaln_bounded {k : Kernel} (bounded : Bounded k.toProcs) (sid count : Int) :
    Bounded (signaln k sid count).toProcs := by
  have loop : ∀ (count : Nat) (k : Kernel), Bounded k.toProcs → Bounded (signalLoop sid count k).toProcs := by
    intro count
    induction count with
    | zero => exact fun _ bounded => bounded
    | succ count ih => exact fun k bounded => ih _ (signalOne_bounded bounded sid)
  rcases signaln_cases k sid count with ⟨_,refused⟩ | ⟨_,_,_,called⟩
  · rw [refused]
    exact sysret_bounded bounded _
  · rw [called]
    exact callScheduler_bounded (loop _ k bounded) trivial

theorem scount_bounded {k : Kernel} (bounded : Bounded k.toProcs) (sid : Int) : Bounded (scount k sid).toProcs := by
  obtain ⟨_,called⟩ := scount_sysret k sid
  rw [called]
  exact sysret_bounded bounded _

theorem dismissAll_bounded {k : Kernel} (bounded : Bounded k.toProcs) (sid : Int) (cause : Cause)
    {mark : Context → Context} (only : SemCalls.Mark mark) : Bounded (dismissAll k sid cause mark).toProcs := by
  have fold : ∀ (waiting : List Int) (k : Kernel), Bounded k.toProcs →
      Bounded (waiting.foldl (dismiss sid cause mark) k).toProcs := by
    intro waiting
    induction waiting with
    | nil => exact fun _ bounded => bounded
    | cons pid rest ih =>
      intro k bounded
      refine ih _ (wakeupProcess_bounded (bounded.write pid (fun c => ?_) (fun c => ?_) (fun c => ?_) (fun c => ?_)) pid)
      all_goals rw [only.only c]
  exact fold _ _ bounded

theorem sdelete_bounded {k : Kernel} (bounded : Bounded k.toProcs) (sid : Int) : Bounded (sdelete k sid).toProcs := by
  rcases sdelete_cases k sid with ⟨_,refused⟩ | ⟨_,called⟩
  · rw [refused]
    exact sysret_bounded bounded _
  · rw [called]
    exact scheduler_bounded (Other.framed (f := .ret 0) trivial
      (dismissAll_bounded bounded sid .sdelete SemCalls.markDeleted_mark))

theorem sreset_bounded {k : Kernel} (bounded : Bounded k.toProcs) (sid count : Int) :
    Bounded (sreset k sid count).toProcs := by
  rcases sreset_cases k sid count with ⟨_,refused⟩ | ⟨_,_,called⟩
  · rw [refused]
    exact sysret_bounded bounded _
  · rw [called]
    exact callScheduler_bounded (dismissAll_bounded (k := k.setSem sid _) bounded sid .sreset SemCalls.markReseted_mark)
      trivial

theorem screate_bounded {k : Kernel} (bounded : Bounded k.toProcs) (compteur : Int) (memory : Bool) :
    Bounded (screate k compteur memory).toProcs := by
  unfold screate
  dsimp only
  repeat' split
  · exact sysret_bounded bounded _
  · exact sysret_bounded bounded _
  · exact ⟨bounded.within,bounded.cour,bounded.linked⟩
  · exact Other.framed (f := .user) trivial bounded
  · exact Other.framed (f := .user) trivial bounded

theorem handle_bounded {k : Kernel} (bounded : Bounded k.toProcs) (busy : k.pidCour ≠ 0) (c : Call) :
    Bounded (handle k c).toProcs := by
  cases c with
  | start ssize prio memory => exact start_bounded bounded ssize prio memory
  | exit retval =>
    exact callScheduler_bounded (k := { k with toProcs := _, endLog := _ })
      (exitProcess_bounded bounded (bounded.cour.resolve_left busy) retval) trivial
  | kill pid => exact kill_bounded bounded pid
  | getprio pid => simp only [handle,getprio]; split <;> exact sysret_bounded bounded _
  | chprio pid newprio => exact chprio_bounded bounded pid newprio
  | getpid | getppid | currentClock => exact sysret_bounded bounded _
  | waitpid pid retvalp => exact waitpid_bounded bounded busy pid retvalp
  | waitClock clock =>
    exact scheduler_bounded (Other.framed (f := .user) trivial (bounded.write k.pidCour
      (f := fun c => { c with state := .asleep, timer := ulong clock }) (fun _ => rfl) (fun _ => rfl) (fun _ => rfl) (fun _ => rfl)))
  | screate compteur memory => exact screate_bounded bounded compteur memory
  | wait sid => exact wait_bounded bounded sid
  | tryWait sid => exact tryWait_bounded bounded sid
  | signal sid => exact signal_bounded bounded sid
  | signaln sid count => exact signaln_bounded bounded sid count
  | scount sid => exact scount_bounded bounded sid
  | sreset sid count => exact sreset_bounded bounded sid count
  | sdelete sid => exact sdelete_bounded bounded sid
  | consRead buf len => exact consReadLoop_bounded _ _ _ _ bounded
  | setBuffered buffered => exact Other.framed (f := .user) trivial bounded
  | setStdout node => exact setStdout_bounded bounded node
  | sigReturn => exact callScheduler_bounded bounded trivial

theorem resume_bounded {k : Kernel} (bounded : Bounded k.toProcs) : Bounded (resume k).toProcs := by
  unfold resume
  split
  · exact bounded
  repeat' split
  · exact sysret_bounded bounded _
  · exact sysret_bounded bounded _
  · exact waitResume_bounded bounded
  · exact reap_bounded bounded _ _
  · exact reap_bounded bounded _ _
  · exact takeByte_bounded bounded (fun _ => consReadLoop_bounded _ _ _ _)
  · exact bounded
  · exact handlePfault_bounded bounded

theorem step_bounded {k k' : Kernel} {e : Event} (bounded : Bounded k.toProcs) (stepped : step k e = some k') :
    Bounded k'.toProcs := by
  rcases step_cases stepped with ⟨c,_,_,busy,rfl⟩ | ⟨_,_,_,rfl⟩ | ⟨_,_,rfl⟩ | ⟨key,_,_,rfl⟩ | ⟨vcNumber,_,_,rfl⟩ | ⟨_,_,rfl⟩
  · exact handle_bounded bounded busy c
  · exact handlePfault_bounded bounded
  · exact scheduler_bounded (Other.framed (f := .user) trivial (updateTimer_bounded (k := { k with nbInterrupt := _ }) bounded))
  · exact keyboardData_bounded bounded key
  · unfold vcFlip
    split <;> exact bounded
  · exact resume_bounded bounded

/-- Every state that the kernel reaches, by any steps. -/
theorem reach_bounded {guard : Kernel → Event → Prop} {k : Kernel} (reached : Reach guard k) : Bounded k.toProcs := by
  refine reached.invariant (fun k boot => ?_) (fun _ _ _ bounded _ => step_bounded bounded)
  obtain ⟨outside,consoles,rfl⟩ := boot
  refine contextCreateUser_bounded ⟨fun p inTab => ?_,.inl rfl,fun a _ => ?_⟩ 3 .granted
  · simp only [inTab,if_true]
    exact ⟨by simp [blank],by simp [blank,NBPROC],by simp [blank],by simp [blank]⟩
  · cases a <;> simp [Ring.empty,Cell]

end Psys.Bounds
