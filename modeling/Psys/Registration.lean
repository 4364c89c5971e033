import Psys.Invariant

/-!
Readers that sleep in `buffer_pop`. A console remembers one of them in
`waiting_pid` and wakes no other, so that every sleeping reader is remembered
as long as no second one falls asleep on the same console. What the rest of the
kernel does is of no concern: nothing else puts a process into that sleep.
-/
namespace Psys.Registration
open Psys.State Psys.Context Psys.Sys Psys.Semaphore Psys.Devices Psys.System Psys.ProcQueue
open Psys.Calls (waitpid_cases)
open Psys.Creation (freePid_unused contextCreateUser_pidCour)
open Psys.Processes (exitProcess_pidCour killProcess_pidCour)
open Psys.InputBuffer (RingBuffer pop)
open Psys.Invariant (Safe boot_init reach_safe step_cases step_running)
open Psys.Runs (run reach_of_run)
open Psys.SemCalls (waitResume_cases sreset_cases sdelete_cases)

/-- Inside `buffer_pop` on the console `v`. -/
def Reading (v : Int) (frame : Frame) : Prop := ∃ buf len left, frame = .consRead v buf len left

/-- A reader sleeps on the console `v`. -/
structure SleepsOn (t : Int → Context) (v p : Int) : Prop where
  used : InUse t p
  waits : (t p).state = .waitIo
  reading : Reading v (t p).frame

/-- The loop of `cons_read`, with `left` of its `len` bytes to read, finds the
    buffer empty before it ends. -/
def RunsDry (buf len : Nat) : RingBuffer → Nat → Prop
  | _, 0 => False
  | r, left + 1 => r.inSize = 0 ∨
      (pop r).1 ≠ 10 ∧ Mapped (buf + (len - (left + 1))) ∧ RunsDry buf len (pop r).2 left

/-- The steps in which the current process falls asleep on the console `v`. -/
def Dozes (k : Kernel) : Event → Int → Prop
  | .call (.consRead buf len), v =>
    v = (k.tabProc k.pidCour).stdout - 100 ∧ RunsDry (checkPointer buf) len (k.virtualConsoles v).buf len
  | .resume, v => k.pidCour ≠ 0 ∧ ∃ buf len left, (k.tabProc k.pidCour).frame = .consRead v buf len left ∧
    (pop (k.virtualConsoles v).buf).1 ≠ 10 ∧ Mapped (buf + (len - (left + 1))) ∧
      RunsDry buf len (pop (k.virtualConsoles v).buf).2 left
  | _, _ => False

/-- A virtual console. -/
def IsConsole (v : Int) : Prop := 0 ≤ v ∧ v < VIRTUAL_CONSOLES
instance (v : Int) : Decidable (IsConsole v) := inferInstanceAs (Decidable (_ ∧ _))

/-- No process falls asleep on a console on which another one sleeps. -/
def Alone (k : Kernel) (e : Event) : Prop := ∀ v p, IsConsole v → Dozes k e v → ¬ SleepsOn k.tabProc v p

/-- A key that reaches `buffer_push` and is to wake readers up: a newline, or in
    unbuffered mode any key that does not edit the line. -/
def Summons (c : VirtualConsole) (key : UInt8) : Prop :=
  Devices.translate key ≠ 8 ∧ (c.buffered = true → Devices.translate key = 10)

/-- A process may run again: the kernel goes on, with the process in a sound
    activable list. -/
structure Woken (k : Procs) (p : Int) : Prop where
  running : k.halted = false
  activable : (k.tabProc p).state = .activable
  linked : ∃ q, Ring.IsRing k.links q ∧ p ∈ q

/-- The console `v` knows its sleeping reader `p`, and keys on `v` wake it up. -/
def Remembered (k : Kernel) (v p : Int) : Prop :=
  (k.virtualConsoles v).waitingPid = p ∧
    (k.vcCurrent = v → ∀ key, Summons (k.virtualConsoles v) key → Woken (keyboardData k key).toProcs p)

/-! ### Tables with no new sleeper -/

/-- Nobody has fallen asleep in `buffer_pop`, and who sleeps there has kept its
    place in the code. -/
def Slept (t t' : Int → Context) : Prop :=
  ∀ p, InUse t' p → (t' p).state = .waitIo → InUse t p ∧ (t p).state = .waitIo ∧ (t' p).frame = (t p).frame

theorem Slept.refl (t : Int → Context) : Slept t t := fun _ used waits => ⟨used,waits,rfl⟩

theorem Slept.trans {t t' t'' : Int → Context} (first : Slept t t') (second : Slept t' t'') : Slept t t'' := by
  intro p used waits
  obtain ⟨used',waits',frame'⟩ := second p used waits
  obtain ⟨used,waits,frame⟩ := first p used' waits'
  exact ⟨used,waits,frame'.trans frame⟩

/-- A process that does not sleep has not fallen asleep. -/
theorem Slept.up {t t' : Int → Context} (slept : Slept t t') {p : Int} (up : InUse t p → (t p).state ≠ .waitIo) :
    InUse t' p → (t' p).state ≠ .waitIo := by
  intro used waits
  obtain ⟨before,slept,_⟩ := slept p used waits
  exact up before slept

theorem Slept.setProc (k : Procs) (x : Int) {f : Context → Context}
    (sleeps : (f (k.tabProc x)).valide = true → (f (k.tabProc x)).state = .waitIo →
      (k.tabProc x).valide = true ∧ (k.tabProc x).state = .waitIo ∧ (f (k.tabProc x)).frame = (k.tabProc x).frame) :
    Slept k.tabProc (k.setProc x f).tabProc := by
  intro p used waits
  by_cases same : p = x ∧ InTab x
  · obtain ⟨rfl,inTab⟩ := same
    simp only [InUse,Procs.setProc_tabProc,inTab,and_self,if_true,true_and] at used waits ⊢
    exact sleeps used waits
  · have kept : (k.setProc x f).tabProc p = k.tabProc p := by simp [same]
    rw [InUse,kept] at used
    rw [kept] at waits ⊢
    exact ⟨used,waits,rfl⟩

/-- A write to fields that say nothing of the sleep. -/
theorem Slept.write {t : Int → Context} {k : Procs} (slept : Slept t k.tabProc) (x : Int) {f : Context → Context}
    (valide : ∀ c, (f c).valide = c.valide) (state : ∀ c, (f c).state = c.state)
    (frame : ∀ c, (f c).frame = c.frame) : Slept t (k.setProc x f).tabProc := by
  apply slept.trans
  apply Slept.setProc
  intro used waits
  rw [valide] at used
  rw [state] at waits
  exact ⟨used,waits,frame _⟩

/-- A write of another state. -/
theorem Slept.rouse (k : Procs) (x : Int) {f : Context → Context} (state : ∀ c, (f c).state ≠ .waitIo) :
    Slept k.tabProc (k.setProc x f).tabProc := by
  apply Slept.setProc
  intro _ waits
  exact absurd waits (state _)

theorem wakeupProcess_slept (k : Procs) (pid : Int) : Slept k.tabProc (wakeupProcess k pid).tabProc := by
  intro p used waits
  rw [wakeupProcess_tabProc] at waits ⊢
  rw [InUse,wakeupProcess_tabProc] at used
  split at waits
  · simp at waits
  · rename_i other
    rw [if_neg other] at used ⊢
    exact ⟨used,waits,rfl⟩

theorem garbageCollector_slept (k : Procs) : Slept k.tabProc (garbageCollector k).tabProc := by
  intro p used waits
  have slept : (k.tabProc p).state = .waitIo := by simpa using waits
  have kept : (garbageCollector k).tabProc p = k.tabProc p := by
    have alive : ¬ (InUse k.tabProc p ∧ (k.tabProc p).state = .dead) := by simp [slept]
    simp only [garbageCollector,alive,if_false]
  rw [InUse,kept] at used
  exact ⟨used,slept,by rw [kept]⟩

theorem switchTo_slept (k : Procs) (pid : Int) : Slept k.tabProc (switchTo k pid).tabProc := by
  have running : Slept k.tabProc ({ k with pidCour := pid }.setState pid .active).tabProc :=
    .rouse { k with pidCour := pid } pid (by simp)
  exact running.trans (garbageCollector_slept _)

theorem scheduler_slept (k : Procs) : Slept k.tabProc (scheduler k).tabProc := by
  unfold scheduler
  split
  · split
    · exact .refl _
    · exact .refl _
    · rename_i pid links _
      exact switchTo_slept { k with links := links } pid
  · split
    · exact .refl _
    · rename_i pid _
      split
      · dsimp only
        have deleted : Slept k.tabProc (queueDel k pid).tabProc := by rw [queueDel_tabProc]; exact .refl _
        refine deleted.trans (Slept.trans ?_ (switchTo_slept _ _))
        split
        · exact wakeupProcess_slept _ _
        · exact .refl _
      · exact .refl _
    · split
      · exact garbageCollector_slept { k with pidCour := 0 }
      · exact .refl _

/-- The current process does not sleep in `buffer_pop`, unless the kernel has
    stopped. -/
def Up (k : Procs) : Prop := k.halted = false → InUse k.tabProc k.pidCour → (k.tabProc k.pidCour).state ≠ .waitIo

theorem switchTo_up (k : Procs) (pid : Int) : Up (switchTo k pid) := by
  intro _ used
  have inTab : InTab pid := by simpa [switchTo] using used.1
  simp [switchTo,inTab]

theorem scheduler_up (k : Procs) : Up (scheduler k) := by
  unfold scheduler
  split
  · rename_i idle
    split
    · intro running; simp at running
    · intro _ used
      have := used.1
      simp [idle,InTab] at this
    · exact switchTo_up _ _
  · split
    · intro running; simp at running
    · split
      · exact switchTo_up _ _
      · rename_i keeps
        intro _ _
        have active := (not_or.mp keeps).1
        rw [not_not] at active
        simp [active]
    · split
      · intro _ used
        have := used.1
        simp [switchToKernel,InTab] at this
      · rename_i active
        intro _ _
        rw [not_not] at active
        simp [active]

/-! ### Steps with no new sleeper -/

/-- A kernel on the way of a step of `k`. -/
structure Amid (k l : Kernel) : Prop where
  slept : Slept k.tabProc l.tabProc
  cour : l.pidCour = k.pidCour
  waiting : ∀ v, (l.virtualConsoles v).waitingPid = (k.virtualConsoles v).waitingPid

theorem Amid.refl (k : Kernel) : Amid k k := ⟨.refl _,rfl,fun _ => rfl⟩

theorem Amid.trans {k l m : Kernel} (first : Amid k l) (second : Amid l m) : Amid k m :=
  ⟨first.slept.trans second.slept,second.cour.trans first.cour,fun v => (second.waiting v).trans (first.waiting v)⟩

/-- A step after which nobody else sleeps in `buffer_pop`. -/
structure Leaves (k k' : Kernel) : Prop where
  slept : Slept k.tabProc k'.tabProc
  up : Up k'.toProcs
  waiting : ∀ v, (k'.virtualConsoles v).waitingPid = (k.virtualConsoles v).waitingPid

/-- The rest of the kernel has changed as well. -/
theorem Amid.of_procs {k l : Kernel} (slept : Slept k.tabProc l.tabProc) (cour : l.pidCour = k.pidCour)
    (consoles : l.virtualConsoles = k.virtualConsoles) : Amid k l := ⟨slept,cour,fun v => by rw [consoles]⟩

theorem Amid.leaves {k l k' : Kernel} (amid : Amid k l) (leaves : Leaves l k') : Leaves k k' :=
  ⟨amid.slept.trans leaves.slept,leaves.up,fun v => (leaves.waiting v).trans (amid.waiting v)⟩

section
variable {k : Kernel} (awake : InUse k.tabProc k.pidCour → (k.tabProc k.pidCour).state ≠ .waitIo)
include awake

theorem Amid.up {l : Kernel} (amid : Amid k l) : InUse l.tabProc l.pidCour → (l.tabProc l.pidCour).state ≠ .waitIo := by
  rw [amid.cour]
  exact amid.slept.up awake

theorem frame_slept (frame : Frame) :
    Slept k.tabProc (k.toProcs.setProc k.pidCour (fun c => { c with frame := frame })).tabProc := by
  intro p used waits
  by_cases same : p = k.pidCour ∧ InTab k.pidCour
  · obtain ⟨rfl,inTab⟩ := same
    simp only [InUse,Procs.setProc_tabProc,inTab,and_self,if_true] at used waits
    exact absurd waits (awake ⟨inTab,used.2⟩)
  · have kept : (k.toProcs.setProc k.pidCour (fun c => { c with frame := frame })).tabProc p = k.tabProc p := by
      simp [same]
    rw [InUse,kept] at used
    rw [kept] at waits ⊢
    exact ⟨used,waits,rfl⟩

theorem Amid.stay {l : Kernel} (amid : Amid k l) : Leaves k l :=
  ⟨amid.slept,fun _ => amid.up awake,amid.waiting⟩

theorem callScheduler_leaves {l : Kernel} (amid : Amid k l) (frame : Frame) : Leaves k (callScheduler l frame) := by
  apply amid.leaves
  exact ⟨(frame_slept (amid.up awake) frame).trans (scheduler_slept _),scheduler_up _,fun _ => rfl⟩

theorem sysret_leaves {l : Kernel} (amid : Amid k l) (ret : Option Int) : Leaves k (sysret l ret) := by
  apply amid.leaves
  have slept := frame_slept (amid.up awake) .user
  exact ⟨slept,fun _ => slept.up (amid.up awake),fun _ => rfl⟩

end

/-! ### The system calls -/

theorem adopt_slept (k : Procs) (child : Int) : Slept k.tabProc (adopt k child).tabProc := by
  unfold adopt
  split
  · exact .rouse k child (by simp)
  · have moved : Slept k.tabProc (k.setProc child (fun c => { c with pidParent := 1 })).tabProc :=
      (Slept.refl _).write child (fun _ => rfl) (fun _ => rfl) (fun _ => rfl)
    exact moved.write 1 (fun _ => rfl) (fun _ => rfl) (fun _ => rfl)

theorem adoptChildren_slept (k : Procs) (pid : Int) : Slept k.tabProc (adoptChildren k pid).tabProc := by
  unfold adoptChildren
  generalize (k.tabProc pid).children = children
  induction children generalizing k with
  | nil => exact .refl _
  | cons child rest ih => exact (adopt_slept k child).trans (ih _)

/-- The last writes of `exit` and `kill`. -/
theorem ended_slept (k : Procs) (pid : Int) (above : Prop) [Decidable above] {mark : Context → Context}
    (zombie : ∀ c, (mark c).state = .zombie) :
    Slept k.tabProc (if above then k.setProc pid mark
      else (k.setState pid .dead).setProc 1 (fun c => { c with children := c.children.erase pid })).tabProc := by
  split
  · exact .rouse k pid (by simp [zombie])
  · exact (Slept.rouse k pid (by simp)).write 1 (fun _ => rfl) (fun _ => rfl) (fun _ => rfl)

theorem exitProcess_slept (k : Procs) (retval : Int) : Slept k.tabProc (exitProcess k retval).tabProc := by
  have father : Slept k.tabProc (if FatherWaits k.tabProc k.pidCour
      then wakeupProcess (k.setProc (k.tabProc k.pidCour).pidParent (fun c => { c with pidWait := k.pidCour }))
        (k.tabProc k.pidCour).pidParent
      else k).tabProc := by
    split
    · have told : Slept k.tabProc (k.setProc (k.tabProc k.pidCour).pidParent
          (fun c => { c with pidWait := k.pidCour })).tabProc :=
        (Slept.refl _).write _ (fun _ => rfl) (fun _ => rfl) (fun _ => rfl)
      exact told.trans (wakeupProcess_slept _ _)
    · exact .refl _
  exact father.trans ((adoptChildren_slept _ _).trans (ended_slept _ _ _ (fun _ => rfl)))

theorem killProcess_slept (k : Procs) (pid : Int) : Slept k.tabProc (killProcess k pid).tabProc := by
  have father : Slept k.tabProc (if FatherWaits k.tabProc pid then wakeupProcess k (k.tabProc pid).pidParent
      else k).tabProc := by
    split
    · exact wakeupProcess_slept _ _
    · exact .refl _
  have removed : ∀ p : Procs, Slept p.tabProc (if (p.tabProc pid).state = .activable then queueDel p pid else p).tabProc := by
    intro p
    split
    · rw [queueDel_tabProc]; exact .refl _
    · exact .refl _
  exact father.trans ((adoptChildren_slept _ _).trans ((removed _).trans (ended_slept _ _ _ (fun _ => rfl))))

theorem contextCreateUser_slept (k : Procs) (priority : Int) (memory : Memory) :
    Slept k.tabProc (contextCreateUser k priority memory).1.tabProc := by
  unfold contextCreateUser
  split
  · exact .refl _
  · rename_i pid found
    split
    · exact .refl _
    · dsimp only
      have inTab := (freePid_unused found).1
      have reset := Slept.rouse k pid (f := fun c => { c with
        state := .activable, priority := priority, pidParent := k.pidCour, killed := false, children := []
        sidWait := 0, sidReseted := false, sidDeleted := false }) (by simp)
      have printed := fun out => reset.write pid (f := fun c => { c with stdout := out }) (fun _ => rfl)
        (fun _ => rfl) (fun _ => rfl)
      split
      · exact reset
      · split
        · exact reset
        · split
          · exact printed _
          · refine Slept.trans ?_ (wakeupProcess_slept _ _)
            simp only [Procs.setProc_pidCour]
            -- the new process is activable before it gets its frame
            by_cases busy : k.pidCour ≠ 0
            · rw [if_pos busy]
              have known := fun out => (printed out).write k.pidCour
                (f := fun c => { c with children := pid :: c.children }) (fun _ => rfl) (fun _ => rfl) (fun _ => rfl)
              refine (known _).trans (Slept.setProc _ pid (fun _ waits => ?_))
              by_cases current : k.pidCour = pid
              · simp [inTab,current] at waits
              · simp [inTab,Ne.symm current] at waits
            · rw [if_neg busy]
              refine (printed _).trans (Slept.setProc _ pid (fun _ waits => ?_))
              simp [inTab] at waits

section
variable {k : Kernel} (awake : InUse k.tabProc k.pidCour → (k.tabProc k.pidCour).state ≠ .waitIo)
include awake

theorem exit_leaves (retval : Int) : Leaves k (exit k retval) := by
  refine callScheduler_leaves awake ?_ _
  exact .of_procs (exitProcess_slept _ _) (exitProcess_pidCour _ _) rfl

theorem kill_leaves (pid : Int) : Leaves k (kill k pid) := by
  rcases kill_cases k pid with refused | ⟨_,_,called⟩
  · rw [refused]
    exact sysret_leaves awake (.refl k) _
  · rw [called]
    refine callScheduler_leaves awake ?_ _
    exact .of_procs (killProcess_slept _ _) (killProcess_pidCour _ _) rfl

theorem handlePfault_leaves {l : Kernel} (amid : Amid k l) : Leaves k (handlePfault l) := by
  unfold handlePfault
  split
  · exact callScheduler_leaves awake amid _
  · exact amid.leaves (kill_leaves (amid.up awake) _)

theorem getprio_leaves (pid : Int) : Leaves k (getprio k pid) := by
  obtain ⟨_,called⟩ := getprio_sysret k pid
  rw [called]
  exact sysret_leaves awake (.refl k) _

theorem chprio_leaves (pid newprio : Int) : Leaves k (chprio k pid newprio) := by
  have written : Slept k.tabProc (k.toProcs.setProc pid (fun c => { c with priority := newprio })).tabProc :=
    (Slept.refl _).write pid (fun _ => rfl) (fun _ => rfl) (fun _ => rfl)
  rcases chprio_cases k pid newprio with ⟨_,refused⟩ | ⟨_,_,_,_,⟨_,called⟩ | called⟩
  · rw [refused]
    exact sysret_leaves awake (.refl k) _
  · rw [called]
    exact callScheduler_leaves awake (.refl k) _
  · rw [called]
    refine callScheduler_leaves awake ?_ _
    split
    · exact .of_procs (by rw [requeue_tabProc]; exact written) (by simp) rfl
    · exact .of_procs written rfl rfl

theorem reap_leaves (child : Int) (retvalp : Nat) : Leaves k (reap k child retvalp) := by
  unfold reap
  split
  · exact handlePfault_leaves awake (.refl k)
  · dsimp only
    refine sysret_leaves awake (.of_procs ?_ ?_ ?_) _
    · have dead : Slept k.tabProc (k.toProcs.setProc child (fun c => { c with state := .dead })).tabProc :=
        .rouse k.toProcs child (by simp)
      split <;> exact dead.write _ (fun _ => rfl) (fun _ => rfl) (fun _ => rfl)
    · split <;> rfl
    · split <;> rfl

theorem waitChild_leaves (pidWait : Int) (frame : Frame) : Leaves k (waitChild k pidWait frame) := by
  refine callScheduler_leaves awake ?_ _
  exact .of_procs (.rouse k.toProcs _ (by simp)) rfl rfl

theorem waitpid_leaves (pid : Int) (retvalp : Nat) : Leaves k (waitpid k pid retvalp) := by
  rcases waitpid_cases k pid retvalp with ⟨_,_,called⟩ | ⟨_,_,called⟩ | ⟨_,_,called⟩ | ⟨_,_,_,called⟩
  all_goals rw [called]
  · exact sysret_leaves awake (.refl k) _
  · exact reap_leaves awake _ _
  · exact waitChild_leaves awake _ _
  · exact waitChild_leaves awake _ _

theorem start_leaves (ssize : Nat) (prio : Int) (memory : Memory) : Leaves k (start k ssize prio memory) := by
  have created : Amid k { k with toProcs := (contextCreateUser k.toProcs prio memory).1 } :=
    .of_procs (contextCreateUser_slept _ _ _) (contextCreateUser_pidCour _ _ _) rfl
  rcases start_cases k ssize prio memory with ⟨_,refused⟩ | ⟨_,⟨_,_,_,called⟩ | ⟨_,_,_,called⟩ | ⟨_,called⟩⟩
  · rw [refused]
    exact sysret_leaves awake (.refl k) _
  · rw [called]
    exact callScheduler_leaves awake created _
  · rw [called]
    exact sysret_leaves awake created _
  · rw [called]
    exact handlePfault_leaves awake created

theorem waitClock_leaves (clock : Nat) : Leaves k (waitClock k clock) := by
  refine callScheduler_leaves awake ?_ _
  exact .of_procs (.rouse k.toProcs _ (by simp)) rfl rfl

theorem int32_leaves : Leaves k (int32 k) := by
  refine callScheduler_leaves awake ?_ _
  refine .of_procs ?_ ?_ rfl
  · suffices ∀ (sleepers : List Int) (n : Nat) (p : Procs), Slept p.tabProc (sleepers.foldl (wakeSleeper n) p).tabProc from
      this _ _ _
    intro sleepers n
    induction sleepers with
    | nil => intro p; exact .refl _
    | cons pid rest ih =>
      intro p
      refine Slept.trans ?_ (ih _)
      unfold wakeSleeper
      split
      · exact wakeupProcess_slept _ _
      · exact .refl _
  · suffices ∀ (sleepers : List Int) (n : Nat) (p : Procs), (sleepers.foldl (wakeSleeper n) p).pidCour = p.pidCour from
      this _ _ _
    intro sleepers n
    induction sleepers with
    | nil => intro p; rfl
    | cons pid rest ih =>
      intro p
      rw [List.foldl_cons,ih]
      unfold wakeSleeper
      split <;> simp

theorem screate_leaves (compteur : Int) (memory : Bool) : Leaves k (screate k compteur memory) := by
  unfold screate
  dsimp only
  split
  · exact sysret_leaves awake (.refl k) _
  · split
    · exact sysret_leaves awake (.refl k) _
    · split
      · exact ⟨.refl _,fun running => by simp at running,fun _ => rfl⟩
      · split
        · refine sysret_leaves awake ?_ _
          exact .of_procs (.refl _) rfl rfl
        · refine sysret_leaves awake ?_ _
          exact .of_procs (.refl _) rfl rfl

theorem wait_leaves (sid : Int) : Leaves k (wait k sid) := by
  unfold wait
  split
  · exact sysret_leaves awake (.refl k) _
  · split
    · exact sysret_leaves awake (.refl k) _
    · dsimp only
      split
      · refine callScheduler_leaves awake ?_ _
        exact .of_procs (.rouse k.toProcs _ (by simp)) rfl rfl
      · refine sysret_leaves awake ?_ _
        exact .of_procs (.refl _) rfl rfl

theorem waitResume_leaves : Leaves k (waitResume k) := by
  rcases waitResume_cases k with ⟨_,called⟩ | ⟨_,called⟩
  · rw [called]
    refine sysret_leaves awake ?_ _
    exact .of_procs ((Slept.refl _).write k.pidCour (fun _ => rfl) (fun _ => rfl) (fun _ => rfl)) rfl rfl
  · rw [called]
    exact sysret_leaves awake (.refl k) _

theorem tryWait_leaves (sid : Int) : Leaves k (tryWait k sid) := by
  unfold tryWait
  split
  · exact sysret_leaves awake (.refl k) _
  · split
    · refine sysret_leaves awake ?_ _
      exact .of_procs (.refl _) rfl rfl
    · exact sysret_leaves awake (.refl k) _

omit awake in
theorem signalOne_amid (sid : Int) : Amid k (signalOne k sid) := by
  unfold signalOne
  dsimp only
  split
  · split
    · exact .of_procs (.refl _) rfl rfl
    · exact .of_procs (wakeupProcess_slept _ _) (wakeupProcess_pidCour _ _) rfl
  · exact .of_procs (.refl _) rfl rfl

omit awake in
theorem signalLoop_amid (sid : Int) (count : Nat) : Amid k (signalLoop sid count k) := by
  induction count generalizing k with
  | zero => exact .refl k
  | succ count ih => exact (signalOne_amid sid).trans ih

theorem signal_leaves (sid : Int) : Leaves k (signal k sid) := by
  rcases signal_cases k sid with ⟨_,refused⟩ | ⟨_,_,⟨_,called⟩ | ⟨_,called⟩⟩
  · rw [refused]
    exact sysret_leaves awake (.refl k) _
  · rw [called]
    exact callScheduler_leaves awake (signalOne_amid sid) _
  · rw [called]
    exact sysret_leaves awake (signalOne_amid sid) _

theorem signaln_leaves (sid count : Int) : Leaves k (signaln k sid count) := by
  rcases signaln_cases k sid count with ⟨_,refused⟩ | ⟨_,_,_,called⟩
  · rw [refused]
    exact sysret_leaves awake (.refl k) _
  · rw [called]
    exact callScheduler_leaves awake (signalLoop_amid sid _) _

theorem scount_leaves (sid : Int) : Leaves k (scount k sid) := by
  obtain ⟨_,called⟩ := scount_sysret k sid
  rw [called]
  exact sysret_leaves awake (.refl k) _

omit awake in
theorem dismissAll_amid (sid : Int) (cause : Cause) {mark : Context → Context} (valide : ∀ c, (mark c).valide = c.valide)
    (state : ∀ c, (mark c).state = c.state) (frame : ∀ c, (mark c).frame = c.frame) :
    Amid k (dismissAll k sid cause mark) := by
  have emptied : Amid k (k.setSem sid (fun s => { s with procWait := [] })) := .of_procs (.refl _) rfl rfl
  apply emptied.trans
  unfold dismissAll
  generalize k.setSem sid (fun s => { s with procWait := [] }) = l
  generalize (k.semaphores sid).procWait = waiting
  induction waiting generalizing l with
  | nil => exact .refl l
  | cons pid rest ih =>
    have marked : Slept l.tabProc (l.toProcs.setProc pid mark).tabProc := (Slept.refl _).write pid valide state frame
    have dismissed : Amid l (dismiss sid cause mark l pid) :=
      .of_procs (marked.trans (wakeupProcess_slept _ _)) (wakeupProcess_pidCour _ _) rfl
    exact dismissed.trans (ih _)

theorem sdelete_leaves (sid : Int) : Leaves k (sdelete k sid) := by
  rcases sdelete_cases k sid with ⟨_,refused⟩ | ⟨_,called⟩
  · rw [refused]
    exact sysret_leaves awake (.refl k) _
  · rw [called]
    refine callScheduler_leaves awake ?_ _
    have dismissed : Amid k (dismissAll k sid .sdelete markDeleted) := by
      apply dismissAll_amid <;> intro c <;> unfold markDeleted <;> split <;> rfl
    exact ⟨dismissed.slept,dismissed.cour,dismissed.waiting⟩

theorem sreset_leaves (sid count : Int) : Leaves k (sreset k sid count) := by
  rcases sreset_cases k sid count with ⟨_,refused⟩ | ⟨_,_,called⟩
  · rw [refused]
    exact sysret_leaves awake (.refl k) _
  · rw [called]
    refine callScheduler_leaves awake ?_ _
    have counted : Amid k (k.setSem sid (fun s => { s with c := short count })) := .of_procs (.refl _) rfl rfl
    exact counted.trans (dismissAll_amid sid .sreset (fun _ => rfl) (fun _ => rfl) (fun _ => rfl))

/-! ### Consoles -/

omit awake in
theorem setConsole_amid (n : Int) {f : VirtualConsole → VirtualConsole} (kept : ∀ c, (f c).waitingPid = c.waitingPid) :
    Amid k (k.setConsole n f) := by
  refine ⟨.refl _,rfl,fun v => ?_⟩
  simp [kept]

theorem setBuffered_leaves (buffered : Bool) : Leaves k (setBuffered k buffered) := by
  refine sysret_leaves awake ?_ _
  exact setConsole_amid k.vcCurrent (fun _ => rfl)

theorem setStdout_leaves (node : Option Int) : Leaves k (setStdout k node) := by
  unfold setStdout
  split
  · exact sysret_leaves awake (.refl k) _
  · refine sysret_leaves awake ?_ _
    exact .of_procs ((Slept.refl _).write k.pidCour (fun _ => rfl) (fun _ => rfl) (fun _ => rfl)) rfl rfl

omit awake in
theorem keyboardData_amid (key : UInt8) : Amid k (keyboardData k key) := by
  unfold keyboardData
  split
  · exact setConsole_amid k.vcCurrent (fun _ => rfl)
  · unfold bufferPush
    dsimp only
    split
    · have woken : Amid k (signalNewIo k (k.virtualConsoles k.vcCurrent).waitingPid) :=
        .of_procs (wakeupProcess_slept _ _) (wakeupProcess_pidCour _ _) rfl
      exact woken.trans (setConsole_amid k.vcCurrent (fun _ => rfl))
    · exact setConsole_amid k.vcCurrent (fun _ => rfl)

omit awake in
theorem vcFlip_amid (vcNumber : Int) : Amid k (vcFlip k vcNumber) := by
  unfold vcFlip
  split
  · exact .of_procs (.refl _) rfl rfl
  · exact .refl k

end

/-- A step in which the current process falls asleep on the console `v`. -/
structure Falls (k : Kernel) (v : Int) (k' : Kernel) : Prop where
  others : ∀ p, p ≠ k.pidCour → InUse k'.tabProc p → (k'.tabProc p).state = .waitIo →
    InUse k.tabProc p ∧ (k.tabProc p).state = .waitIo ∧ (k'.tabProc p).frame = (k.tabProc p).frame
  self : InUse k'.tabProc k.pidCour → (k'.tabProc k.pidCour).state = .waitIo → Reading v (k'.tabProc k.pidCour).frame
  up : Up k'.toProcs
  waiting : ∀ u, (k'.virtualConsoles u).waitingPid =
    if u = v ∧ IsConsole v then k.pidCour else (k.virtualConsoles u).waitingPid

theorem asleep_falls {k l : Kernel} (amid : Amid k l) (v : Int) (buf len left : Nat) :
    Falls k v (callScheduler ((l.setConsole v (fun c => { c with waitingPid := l.pidCour })).setProc l.pidCour
      (fun c => { c with state := .waitIo })) (.consRead v buf len left)) := by
  have slept := scheduler_slept ((l.toProcs.setState l.pidCour .waitIo).setProc l.pidCour
    (fun c => { c with frame := .consRead v buf len left }))
  refine ⟨fun p other used waits => ?_,fun used waits => ?_,scheduler_up _,fun u => ?_⟩
  · have different : p ≠ l.pidCour := amid.cour ▸ other
    obtain ⟨used,waits,frame⟩ := slept p used waits
    simp only [InUse,Procs.setProc_tabProc,different,false_and,if_false] at used waits frame
    obtain ⟨used,waits,kept⟩ := amid.slept p used waits
    exact ⟨used,waits,frame.trans kept⟩
  · rw [← amid.cour] at used waits ⊢
    obtain ⟨used,_,frame⟩ := slept _ used waits
    exact ⟨buf,len,left,frame.trans (by simp [used.1])⟩
  · simp only [callScheduler,Kernel.setProc_virtualConsoles,Kernel.setConsole_virtualConsoles,IsConsole,
      ite_waitingPid,amid.cour,amid.waiting]
    rfl

/-- One turn of the loop of `cons_read` that finds a byte. -/
theorem takeByte_cases {k l : Kernel} (awake : InUse k.tabProc k.pidCour → (k.tabProc k.pidCour).state ≠ .waitIo)
    (amid : Amid k l) {v : Int} {buf len left : Nat} {loop : Kernel → Kernel}
    (rest : ∀ m, Amid k m → (IsConsole v → (m.virtualConsoles v).buf = (pop (l.virtualConsoles v).buf).2) →
      Leaves k (loop m) ∨ (IsConsole v → RunsDry buf len (m.virtualConsoles v).buf left) ∧ Falls k v (loop m)) :
    Leaves k (takeByte l v buf len left loop) ∨
      (IsConsole v → (pop (l.virtualConsoles v).buf).1 ≠ 10 ∧ Mapped (buf + (len - (left + 1))) ∧
        RunsDry buf len (pop (l.virtualConsoles v).buf).2 left) ∧ Falls k v (takeByte l v buf len left loop) := by
  have popped : Amid k (l.setConsole v (fun c => { c with buf := (pop c.buf).2 })) :=
    amid.trans (setConsole_amid v (fun _ => rfl))
  unfold takeByte
  dsimp only
  split
  · exact .inl (sysret_leaves awake popped _)
  · rename_i other
    split
    · exact .inl (handlePfault_leaves awake popped)
    · rename_i mapped
      have stored : Amid k { l.setConsole v (fun c => { c with buf := (pop c.buf).2 }) with
          mem := Function.update l.mem (buf + (len - (left + 1))) (pop (l.virtualConsoles v).buf).1.toNat } :=
        ⟨popped.slept,popped.cour,popped.waiting⟩
      rcases rest _ stored (fun inside => by simp [inside.1,inside.2]) with leaves | ⟨dry,falls⟩
      · exact .inl leaves
      · refine .inr ⟨fun inside => ⟨other,not_not.mp mapped,?_⟩,falls⟩
        simpa [inside.1,inside.2] using dry inside

/-- The loop of `cons_read` ends, or the current process falls asleep in it. -/
theorem consReadLoop_cases {k : Kernel} (awake : InUse k.tabProc k.pidCour → (k.tabProc k.pidCour).state ≠ .waitIo)
    (v : Int) (buf len left : Nat) : ∀ l, Amid k l → Leaves k (consReadLoop v buf len left l) ∨
      (IsConsole v → RunsDry buf len (l.virtualConsoles v).buf left) ∧ Falls k v (consReadLoop v buf len left l) := by
  induction left with
  | zero => exact fun l amid => .inl (sysret_leaves awake amid _)
  | succ left ih =>
    intro l amid
    unfold consReadLoop
    by_cases empty : (l.virtualConsoles v).buf.inSize = 0
    · rw [if_pos empty]
      exact .inr ⟨fun _ => .inl empty,asleep_falls amid v buf len left⟩
    · rw [if_neg empty]
      rcases takeByte_cases awake amid (fun m between _ => ih m between) with leaves | ⟨dry,falls⟩
      · exact .inl leaves
      · exact .inr ⟨fun inside => .inr (dry inside),falls⟩

/-! ### The invariant -/

/-- What a step leaves of the sleepers of `buffer_pop`. -/
def Rested (k : Kernel) (e : Event) (k' : Kernel) : Prop :=
  Leaves k k' ∨ ∃ v, (IsConsole v → Dozes k e v) ∧ Falls k v k'

theorem handle_rested {k : Kernel} (awake : InUse k.tabProc k.pidCour → (k.tabProc k.pidCour).state ≠ .waitIo) (c : Call) :
    Rested k (.call c) (handle k c) := by
  cases c with
  | start ssize prio memory => exact .inl (start_leaves awake ssize prio memory)
  | exit retval => exact .inl (exit_leaves awake retval)
  | kill pid => exact .inl (kill_leaves awake pid)
  | getprio pid => exact .inl (getprio_leaves awake pid)
  | chprio pid newprio => exact .inl (chprio_leaves awake pid newprio)
  | getpid => exact .inl (sysret_leaves awake (.refl k) _)
  | getppid => exact .inl (sysret_leaves awake (.refl k) _)
  | waitpid pid retvalp => exact .inl (waitpid_leaves awake pid retvalp)
  | waitClock clock => exact .inl (waitClock_leaves awake clock)
  | currentClock => exact .inl (sysret_leaves awake (.refl k) _)
  | screate compteur memory => exact .inl (screate_leaves awake compteur memory)
  | wait sid => exact .inl (wait_leaves awake sid)
  | tryWait sid => exact .inl (tryWait_leaves awake sid)
  | signal sid => exact .inl (signal_leaves awake sid)
  | signaln sid count => exact .inl (signaln_leaves awake sid count)
  | scount sid => exact .inl (scount_leaves awake sid)
  | sreset sid count => exact .inl (sreset_leaves awake sid count)
  | sdelete sid => exact .inl (sdelete_leaves awake sid)
  | consRead buf len =>
    rcases consReadLoop_cases awake ((k.tabProc k.pidCour).stdout - 100) (checkPointer buf) len len k (.refl k) with
      leaves | ⟨dry,falls⟩
    · exact .inl leaves
    · exact .inr ⟨_,fun inside => ⟨rfl,dry inside⟩,falls⟩
  | setBuffered buffered => exact .inl (setBuffered_leaves awake buffered)
  | setStdout node => exact .inl (setStdout_leaves awake node)
  | sigReturn => exact .inl (callScheduler_leaves awake (.refl k) _)

theorem resume_rested {k : Kernel} (awake : InUse k.tabProc k.pidCour → (k.tabProc k.pidCour).state ≠ .waitIo) :
    Rested k .resume (resume k) := by
  unfold resume
  split
  · exact .inl ⟨.refl _,fun _ => awake,fun _ => rfl⟩
  · rename_i busy
    split
    · exact .inl (sysret_leaves awake (.refl k) _)
    · exact .inl (sysret_leaves awake (.refl k) _)
    · exact .inl (waitResume_leaves awake)
    · exact .inl (reap_leaves awake _ _)
    · exact .inl (reap_leaves awake _ _)
    · rename_i v buf len left frame
      rcases takeByte_cases awake (.refl k) (fun m between _ => consReadLoop_cases awake v buf len left m between) with
        leaves | ⟨dry,falls⟩
      · exact .inl leaves
      · exact .inr ⟨v,fun inside => ⟨busy,buf,len,left,frame,dry inside⟩,falls⟩
    · exact .inl ((Amid.refl k).stay awake)
    · exact .inl (handlePfault_leaves awake (.refl k))

theorem step_rested {k k' : Kernel} {e : Event} (up : Up k.toProcs) (stepped : step k e = some k') : Rested k e k' := by
  have awake : InUse k.tabProc k.pidCour → (k.tabProc k.pidCour).state ≠ .waitIo := up (step_running stepped)
  rcases step_cases stepped with ⟨c,rfl,_,_,rfl⟩ | ⟨rfl,_,_,rfl⟩ | ⟨rfl,_,rfl⟩ | ⟨key,rfl,_,rfl⟩ | ⟨vcNumber,rfl,_,rfl⟩ |
    ⟨rfl,_,rfl⟩
  · exact handle_rested awake c
  · exact .inl (handlePfault_leaves awake (.refl k))
  · exact .inl (int32_leaves awake)
  · exact .inl ((keyboardData_amid key).stay awake)
  · exact .inl ((vcFlip_amid vcNumber).stay awake)
  · exact resume_rested awake

/-- Who sleeps in `buffer_pop` is known to its console. -/
structure Registered (k : Kernel) : Prop where
  up : Up k.toProcs
  reading : ∀ p, InUse k.tabProc p → (k.tabProc p).state = .waitIo → ∃ v, Reading v (k.tabProc p).frame
  recorded : ∀ v p, IsConsole v → SleepsOn k.tabProc v p → (k.virtualConsoles v).waitingPid = p

theorem step_registered {k k' : Kernel} {e : Event} (known : Registered k) (alone : Alone k e)
    (stepped : step k e = some k') : Registered k' := by
  rcases step_rested known.up stepped with leaves | ⟨v,dozes,falls⟩
  · refine ⟨leaves.up,fun p used waits => ?_,fun v p inside sleeps => ?_⟩
    · obtain ⟨used,waits,frame⟩ := leaves.slept p used waits
      rw [frame]
      exact known.reading p used waits
    · obtain ⟨used,waits,frame⟩ := leaves.slept p sleeps.used sleeps.waits
      rw [leaves.waiting]
      exact known.recorded v p inside ⟨used,waits,frame ▸ sleeps.reading⟩
  · refine ⟨falls.up,fun p used waits => ?_,fun u p inside sleeps => ?_⟩
    · by_cases current : p = k.pidCour
      · subst current
        exact ⟨v,falls.self used waits⟩
      · obtain ⟨used,waits,frame⟩ := falls.others p current used waits
        rw [frame]
        exact known.reading p used waits
    · rw [falls.waiting]
      by_cases current : p = k.pidCour
      · subst current
        obtain ⟨_,_,_,frame⟩ := falls.self sleeps.used sleeps.waits
        obtain ⟨_,_,_,frame'⟩ := sleeps.reading
        have same : u = v := by
          rw [frame] at frame'
          injection frame' with same
          exact same.symm
        rw [if_pos ⟨same,same ▸ inside⟩]
      · obtain ⟨used,waits,frame⟩ := falls.others p current sleeps.used sleeps.waits
        have slept : SleepsOn k.tabProc u p := ⟨used,waits,frame ▸ sleeps.reading⟩
        -- another process is asleep there, so that nobody falls asleep beside it
        have other : ¬ (u = v ∧ IsConsole v) := by
          rintro ⟨rfl,_⟩
          exact alone u p inside (dozes inside) slept
        rw [if_neg other]
        exact known.recorded u p inside slept

theorem boot_registered {k : Kernel} (boot : Boot k) : Registered k := by
  have asleep : ∀ p, InUse k.tabProc p → (k.tabProc p).state ≠ .waitIo := by
    intro p used waits
    have := (boot_init boot used).2.1
    simp [waits] at this
  refine ⟨fun _ used => asleep _ used,fun p used waits => absurd waits (asleep p used),fun v p _ sleeps => ?_⟩
  exact absurd sleeps.waits (asleep p sleeps.used)

theorem reach_registered {k : Kernel} (reached : Reach Alone k) : Registered k :=
  reached.invariant (fun _ => boot_registered) (fun _ _ _ => step_registered)

/-! ### Keys -/

section
variable {k : Kernel} {p : Int} {key : UInt8}

/-- A key that notifies calls `wakeup_process` for the process that the visible
    console names. -/
theorem keyboardData_wake (pushed : Devices.translate key ≠ 8)
    (notifies : Notifies (k.virtualConsoles k.vcCurrent) (Devices.translate key))
    (waiting : (k.virtualConsoles k.vcCurrent).waitingPid = p) :
    (keyboardData k key).toProcs = wakeupProcess k.toProcs p := by
  unfold keyboardData bufferPush
  rw [if_neg pushed]
  dsimp only
  rw [if_pos notifies,waiting]
  rfl

/-- A sleeping reader that is woken up joins the activable list. -/
theorem wakeupProcess_joins {q : List Int} (ready : Ready k.toProcs q) {v : Int} (sleeps : SleepsOn k.tabProc v p) :
    ∃ l r, q = l ++ r ∧ Ready (wakeupProcess k.toProcs p) (l ++ p :: r) := by
  refine wakeupProcess_ready (ready.but ?_) sleeps.used
  intro member
  have activable := ((ready.member p).mp member).2
  simp [sleeps.waits] at activable

/-- Keys wake up the reader that the console names. -/
theorem keyboardData_woken {q : List Int} (ready : Ready k.toProcs q) (sleeps : SleepsOn k.tabProc k.vcCurrent p)
    (waiting : (k.virtualConsoles k.vcCurrent).waitingPid = p)
    (calls : Summons (k.virtualConsoles k.vcCurrent) key) : Woken (keyboardData k key).toProcs p := by
  have notifies : Notifies (k.virtualConsoles k.vcCurrent) (Devices.translate key) := by
    intro buffered
    refine ⟨calls.2 buffered,?_⟩
    have low := sleeps.used.1.1
    rw [waiting]
    omega
  obtain ⟨l,r,_,joined⟩ := wakeupProcess_joins ready sleeps
  rw [keyboardData_wake calls.1 notifies waiting]
  exact ⟨joined.running,by simp [sleeps.used],_,joined.ring,by simp⟩

end

/-- No step leaves a stale PID behind, or lets two readers sleep on a console. -/
def Orderly (k : Kernel) (e : Event) : Prop := Alone k e ∧ Safe k e

/-- A process that sleeps in `buffer_pop` is recorded, and stays so while it
    sleeps. -/
theorem waiting_recorded {k : Kernel} (reached : Reach Orderly k) {v p : Int} (inside : IsConsole v)
    (sleeps : SleepsOn k.tabProc v p) : Remembered k v p ∧
      ∀ e k', Alone k e → step k e = some k' → SleepsOn k'.tabProc v p → (k'.virtualConsoles v).waitingPid = p := by
  have known := reach_registered (reached.weaken (fun _ _ orderly => orderly.1))
  obtain ⟨q,ready⟩ := (reach_safe (reached.weaken (fun _ _ orderly => orderly.2))).stable.ready
  have recorded := known.recorded v p inside sleeps
  refine ⟨⟨recorded,?_⟩,?_⟩
  · rintro rfl key calls
    exact keyboardData_woken ready sleeps recorded calls
  · intro e k' alone stepped still
    exact (step_registered known alone stepped).recorded v p inside still

/-- Nobody sleeps in `buffer_pop`, and the step leaves no stale PID behind. -/
private def NoneAsleep (k : Kernel) (e : Event) : Prop := (∀ p ∈ pids, (k.tabProc p).state ≠ .waitIo) ∧ Safe k e
private instance (k : Kernel) (e : Event) : Decidable (NoneAsleep k e) := inferInstanceAs (Decidable (_ ∧ _))

/-- Init reads its console, and a newline will wake it up. -/
theorem waiting_recorded_init : ∃ k : Kernel, Reach Orderly k ∧ SleepsOn k.tabProc 0 1 ∧ k.vcCurrent = 0 ∧
    Remembered k 0 1 ∧ Woken (keyboardData k 13).toProcs 1 := by
  let events : List Event := [.tick,.resume,.call (.consRead 0x1000000 10)]
  have seen : (run (Runs.guarded step NoneAsleep) zeroed events).map (fun k =>
      ((k.tabProc 1).frame,k.vcCurrent,(k.virtualConsoles 0).buffered,decide (InUse k.tabProc 1 ∧ (k.tabProc 1).state = .waitIo))) =
      some (.consRead 0 0x1000000 10 9,0,true,true) := by decide
  obtain ⟨k,ran,facts⟩ := Option.map_eq_some_iff.mp seen
  simp only [Prod.mk.injEq,decide_eq_true_eq] at facts
  obtain ⟨frame,current,buffered,used,waits⟩ := facts
  have reached : Reach Orderly k := by
    refine (Runs.reach_of_guarded (.start zeroed_boot) ran).weaken (fun k e none => ⟨?_,none.2⟩)
    intro v p _ _ sleeps
    exact none.1 p ((mem_pids p).mpr sleeps.used.1) sleeps.waits
  have sleeps : SleepsOn k.tabProc 0 1 := ⟨used,waits,_,_,_,frame⟩
  have remembered := (waiting_recorded reached (by decide) sleeps).1
  exact ⟨k,reached,sleeps,current,remembered,remembered.2 current 13 (by simp [Summons,buffered]; decide)⟩

/-- A second reader takes the place of the first. -/
theorem waiting_forgotten : ¬ ∀ (k : Kernel) (v p : Int), Reach (fun _ _ => True) k → IsConsole v →
    SleepsOn k.tabProc v p → Remembered k v p := by
  intro claim
  let events : List Event :=
    [.tick,.resume,.call (.start 512 5 .granted),.resume,.call (.consRead 0x1000000 10),.resume,
      .call (.consRead 0x1000000 10)]
  have seen : (run step zeroed events).map (fun k => ((k.tabProc 2).frame,(k.virtualConsoles 0).waitingPid,
      decide (InUse k.tabProc 2 ∧ (k.tabProc 2).state = .waitIo))) = some (.consRead 0 0x1000000 10 9,1,true) := by
    decide
  obtain ⟨k,ran,facts⟩ := Option.map_eq_some_iff.mp seen
  simp only [Prod.mk.injEq,decide_eq_true_eq] at facts
  obtain ⟨frame,other,used,waits⟩ := facts
  have reached : Reach (fun _ _ => True) k := reach_of_run events (fun _ _ _ => trivial) zeroed_boot ran
  have recorded := (claim k 0 2 reached (by decide) ⟨used,waits,_,_,_,frame⟩).1
  simp [other] at recorded

end Psys.Registration
