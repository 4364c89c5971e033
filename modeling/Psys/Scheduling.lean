import Psys.WaitingLists

/-!
The activable list between steps, in runs without semaphores and console
input, and the priority of the process that a step returns to, in runs without
`kill` and console input.
-/
namespace Psys.Scheduling
open Psys.State Psys.Context Psys.Sys Psys.Semaphore Psys.Devices Psys.System Psys.ProcQueue Psys.Processes Psys.Creation
open Psys.Calls Psys.Waiting Psys.SemCalls Psys.Invariant Psys.WaitingLists
open Psys.Runs (run reach_of_run)

variable {lost : Prop} {gone : Int → Nat → Prop} {k k' : Kernel}

/-! ### The activable list -/

/-- Neither a semaphore call nor the keyboard. -/
def Plain : Event → Prop
  | .call (.screate _ _) | .call (.wait _) | .call (.tryWait _) | .call (.signal _) | .call (.signaln _ _)
  | .call (.scount _) | .call (.sreset _ _) | .call (.sdelete _) | .key _ | .flip _ => False
  | _ => True

instance : DecidablePred Plain
  | .call (.screate _ _) | .call (.wait _) | .call (.tryWait _) | .call (.signal _) | .call (.signaln _ _)
  | .call (.scount _) | .call (.sreset _ _) | .call (.sdelete _) | .key _ | .flip _ => instDecidableFalse
  | .call (.start _ _ _) | .call (.exit _) | .call (.kill _) | .call (.getprio _) | .call (.chprio _ _)
  | .call .getpid | .call .getppid | .call (.waitpid _ _) | .call (.waitClock _) | .call .currentClock
  | .call (.consRead _ _) | .call (.setBuffered _) | .call (.setStdout _) | .call .sigReturn
  | .fault | .tick | .resume => instDecidableTrue

/-- No semaphore is valid, so that no process waits on one. -/
structure Bare (lost : Prop) (k : Kernel) : Prop extends Good lost (fun _ _ => False) k where
  bare : ∀ s, ¬ SemInUse k.semaphores s

theorem Bare.safe (bare : Bare lost k) {e : Event} (plain : Plain e) : Safe k e := by
  cases e with
  | call c =>
    cases c with
    | kill pid => exact fun _ used waits => bare.bare _ (bare.counted.valid pid _ ⟨used,waits,rfl⟩)
    | _ => trivial
  | key c => exact plain.elim
  | _ => trivial

theorem Bare.step (bare : Bare lost k) {e : Event} (plain : Plain e) (heard : Heard k e ∨ lost)
    (stepped : step k e = some k') : Bare lost k' := by
  have safe := bare.safe plain
  refine ⟨step_good bare.toGood safe heard (fun _ _ _ => id) stepped,?_⟩
  have same : k'.semaphores = k.semaphores := by
    by_cases quiet : Quiet k e
    · exact (step_keeps bare.stable quiet safe heard (fun _ _ _ => id) stepped).untouched.semaphores
    · rcases step_cases stepped with ⟨c,rfl,_⟩ | ⟨rfl,_⟩ | ⟨rfl,_⟩ | ⟨_,rfl,_⟩ | ⟨_,rfl,_⟩ | ⟨rfl,_,rfl⟩
      · cases c <;> first | exact absurd trivial quiet | exact plain.elim
      · exact absurd trivial quiet
      · exact absurd trivial quiet
      · exact plain.elim
      · exact plain.elim
      · rw [(resume_wait quiet).2]
        rcases waitResume_cases k with ⟨_,same⟩ | ⟨_,same⟩ <;> rw [same] <;> rfl
  rw [same]
  exact bare.bare

theorem boot_bare (boot : Boot k) : Bare lost k := by
  refine ⟨boot_good boot,?_⟩
  obtain ⟨outside,consoles,rfl⟩ := boot
  simp [kernelStart,SemInUse]

theorem reach_bare (reached : Reach (fun k e => Plain e ∧ (Heard k e ∨ lost)) k) : Bare lost k :=
  reached.invariant (fun _ => boot_bare) (fun _ _ _ bare allowed stepped => bare.step allowed.1 allowed.2 stepped)

/-- Without a claim on the fathers that `kill` leaves without an answer. -/
theorem reach_plain (reached : Reach (fun _ e => Plain e) k) : Bare True k :=
  reach_bare (reached.weaken (fun _ _ plain => ⟨plain,.inr trivial⟩))

/-- No other process becomes activable, and no activable one or the current one
    changes its priority. -/
structure Calm (k k' : Procs) : Prop where
  cour : k'.pidCour = k.pidCour
  current : (k'.tabProc k.pidCour).priority = (k.tabProc k.pidCour).priority
  activable : ∀ p, InUse k'.tabProc p → (k'.tabProc p).state = .activable →
    InUse k.tabProc p ∧ (k.tabProc p).state = .activable ∧ (k'.tabProc p).priority = (k.tabProc p).priority

theorem Calm.refl (k : Procs) : Calm k k := ⟨rfl,rfl,fun _ used state => ⟨used,state,rfl⟩⟩

theorem Calm.trans {k k' k'' : Procs} (first : Calm k k') (second : Calm k' k'') : Calm k k'' where
  cour := second.cour.trans first.cour
  current := by rw [← first.cour,second.current,first.cour,first.current]
  activable p used state := by
    obtain ⟨used',state',priority'⟩ := second.activable p used state
    obtain ⟨used,state,priority⟩ := first.activable p used' state'
    exact ⟨used,state,priority'.trans priority⟩

theorem Calm.top {k k' : Procs} (calm : Calm k k') (top : Top k) : Top k' := by
  intro p used state
  obtain ⟨used,state,priority⟩ := calm.activable p used state
  rw [calm.cour,calm.current,priority]
  exact top p used state

theorem Calm.setProc (k : Procs) (x : Int) {f : Context → Context} (valide : ∀ c, (f c).valide = c.valide)
    (priority : ∀ c, (f c).priority = c.priority) (state : ∀ c, (f c).state = .activable → c.state = .activable) :
    Calm k (k.setProc x f) := by
  refine ⟨rfl,?_,fun p used activable => ?_⟩
  · simp only [Procs.setProc_tabProc]; split <;> simp [priority]
  · have used : InUse k.tabProc p := ⟨used.1,by
      have := used.2
      simp only [Procs.setProc_tabProc] at this
      split at this
      · rwa [valide] at this
      · exact this⟩
    simp only [Procs.setProc_tabProc] at activable ⊢
    split at activable
    · rename_i same
      rw [if_pos same]
      exact ⟨used,state _ activable,priority _⟩
    · rename_i other
      rw [if_neg other]
      exact ⟨used,activable,rfl⟩

/-- A step ends in `scheduler`, or leaves the rivals of the current process alone. -/
def Settles (k k' : Kernel) : Prop := k'.inKernel = true ∨ Calm k.toProcs k'.toProcs

theorem callScheduler_settles (k k' : Kernel) (frame : Frame) : Settles k (callScheduler k' frame) := .inl rfl

theorem sysret_settles {k k' : Kernel} (calm : Calm k.toProcs k'.toProcs) (ret : Option Int) :
    Settles k (sysret k' ret) :=
  .inr (calm.trans (.setProc k'.toProcs k'.pidCour (f := fun c => { c with frame := .user }) (fun _ => rfl)
    (fun _ => rfl) (fun _ => id)))

theorem kill_settles (k : Kernel) (pid : Int) : Settles k (kill k pid) := by
  rcases kill_cases k pid with refused | ⟨_,_,called⟩
  · rw [refused]; exact sysret_settles (.refl _) _
  · rw [called]; exact callScheduler_settles _ _ _

theorem handlePfault_settles (k : Kernel) : Settles k (handlePfault k) := by
  unfold handlePfault
  split
  · exact callScheduler_settles _ _ _
  · exact kill_settles k _

theorem getprio_settles (k : Kernel) (pid : Int) : Settles k (getprio k pid) := by
  obtain ⟨_,called⟩ := getprio_sysret k pid
  rw [called]; exact sysret_settles (.refl _) _

theorem chprio_settles (k : Kernel) (pid newprio : Int) : Settles k (chprio k pid newprio) := by
  rcases chprio_cases k pid newprio with ⟨_,refused⟩ | ⟨_,_,_,_,⟨_,called⟩ | called⟩
  · rw [refused]; exact sysret_settles (.refl _) _
  · rw [called]; exact callScheduler_settles _ _ _
  · rw [called]; exact callScheduler_settles _ _ _

/-- A descriptor that is given up rivals nobody. -/
theorem givenUp_calm {k : Procs} {q : List Int} (ready : Ready k q) {pid : Int} (found : freePid k.tabProc = some pid)
    (prio : Int) (memory : Memory) : Calm k (k.setProc pid (givenUp k prio memory)) := by
  obtain ⟨inTab,unused⟩ := freePid_unused found
  have other : ∀ p, InUse k.tabProc p → p ≠ pid := fun p used new => unused (new ▸ used)
  refine ⟨rfl,?_,fun p used activable => ?_⟩
  · rcases ready.cour with idle | used
    · have different : (0 : Int) ≠ pid := by rintro rfl; simp [InTab] at inTab
      simp [idle,different]
    · simp [other _ used]
  · have before : InUse k.tabProc p := by
      by_cases new : p = pid <;> simpa [InUse,new,givenUp] using used
    simp only [Procs.setProc_tabProc,other p before,false_and,if_false] at activable ⊢
    exact ⟨before,activable,trivial⟩

theorem start_settles {q : List Int} (ready : Ready k.toProcs q) (ssize : Nat) (prio : Int) (memory : Memory) :
    Settles k (start k ssize prio memory) := by
  rcases start_cases k ssize prio memory with ⟨_,refused⟩ | ⟨_,⟨_,_,_,called⟩ | ⟨ret,value,failed,called⟩ | ⟨fault,called⟩⟩
  · rw [refused]; exact sysret_settles (.refl _) _
  · rw [called]; exact callScheduler_settles _ _ _
  · rw [called]
    refine sysret_settles ?_ _
    rcases contextCreateUser_cases ready.cour prio memory with ⟨_,same⟩ | ⟨pid,found,_,⟨_,same⟩ | ⟨_,same⟩⟩
    · rw [same]; exact .refl _
    · rw [same]; exact givenUp_calm ready found prio memory
    · rw [same] at value
      have := (freePid_unused found).1.1
      obtain rfl := Option.some.inj value
      omega
  · obtain ⟨_,pid,found,written⟩ := contextCreateUser_none ready.cour fault
    rw [called]
    refine (handlePfault_settles _).imp_right (Calm.trans ?_)
    rw [written]
    exact givenUp_calm ready found prio memory

theorem reap_settles (k : Kernel) (child : Int) (retvalp : Nat) : Settles k (reap k child retvalp) := by
  have first : Calm k.toProcs (k.toProcs.setProc child (fun c => { c with state := .dead })) :=
    .setProc _ _ (fun _ => rfl) (fun _ => rfl) (fun _ => by simp)
  have both := first.trans (.setProc _ k.pidCour (f := fun c => { c with children := c.children.erase child })
    (fun _ => rfl) (fun _ => rfl) (fun _ => id))
  unfold reap
  split
  · exact handlePfault_settles k
  · dsimp only
    split <;> exact sysret_settles both _

theorem waitpid_settles (k : Kernel) (pid : Int) (retvalp : Nat) : Settles k (waitpid k pid retvalp) := by
  rcases waitpid_cases k pid retvalp with ⟨_,_,same⟩ | ⟨_,_,same⟩ | ⟨_,_,same⟩ | ⟨_,_,_,same⟩
  · rw [same]; exact sysret_settles (.refl _) _
  · rw [same]; exact reap_settles k _ _
  · rw [same]; exact callScheduler_settles _ _ _
  · rw [same]; exact callScheduler_settles _ _ _

/-- `signal` calls `scheduler` when it has woken a process up. -/
theorem signal_settles (counted : Counted k) (sid : Int) : Settles k (signal k sid) := by
  rcases signal_cases k sid with ⟨_,refused⟩ | ⟨used,notMost,⟨_,called⟩ | ⟨positive,called⟩⟩
  · rw [refused]; exact sysret_settles (.refl _) _
  · rw [called]; exact callScheduler_settles _ _ _
  · have range := counted.range sid used
    rcases signalOne_cases counted used (by omega) with ⟨_,_,same⟩ | ⟨rest,pid,_,negative,same⟩
    · rw [called,same]; exact sysret_settles (.refl _) _
    · rw [same] at positive
      simp [relieved,raised] at positive
      omega

theorem takeByte_settles {vc : Int} {buf len left : Nat} {loop : Kernel → Kernel}
    (rest : ∀ k' : Kernel, k'.toProcs = k.toProcs → Settles k (loop k')) :
    Settles k (takeByte k vc buf len left loop) := by
  unfold takeByte
  dsimp only
  split
  · exact sysret_settles (.refl _) _
  · split
    · exact handlePfault_settles (k.setConsole vc _)
    · exact rest _ rfl

theorem consReadLoop_settles (vc : Int) (buf len left : Nat) (k : Kernel) :
    Settles k (consReadLoop vc buf len left k) := by
  induction left generalizing k with
  | zero => exact sysret_settles (.refl _) _
  | succ left ih =>
    unfold consReadLoop
    split
    · exact callScheduler_settles _ _ _
    · refine takeByte_settles (fun k' same => ?_)
      have settles := ih k'
      rwa [Settles,same] at settles

/-- A system call ends in `scheduler`, or leaves the rivals alone. -/
theorem handle_settles (good : Good lost gone k) (c : Call) : Settles k (handle k c) := by
  obtain ⟨q,ready⟩ := good.stable.ready
  have counted := good.counted
  cases c with
  | start ssize prio memory => exact start_settles ready ssize prio memory
  | exit retval => exact callScheduler_settles _ _ _
  | kill pid => exact kill_settles k pid
  | chprio pid newprio => exact chprio_settles k pid newprio
  | waitpid pid retvalp => exact waitpid_settles k pid retvalp
  | waitClock clock => exact callScheduler_settles _ _ _
  | getprio pid => exact getprio_settles k pid
  | getpid | getppid | currentClock => exact sysret_settles (.refl _) _
  | screate compteur memory =>
    show Settles k (screate k compteur memory)
    rcases screate_cases counted compteur memory with ⟨r,_,same⟩ | ⟨sid,libres,_,_,r,same⟩
    · rw [same]; exact sysret_settles (.refl _) _
    · have procs : (opened k sid (short compteur) libres memory).toProcs = k.toProcs := by cases memory <;> rfl
      rw [same]; exact sysret_settles (procs ▸ .refl _) _
  | wait sid =>
    show Settles k (wait k sid)
    rcases wait_cases counted sid with ⟨r,_,same⟩ | ⟨_,_,same⟩ | ⟨_,_,_,same⟩
    · rw [same]; exact sysret_settles (.refl _) _
    · rw [same]; exact sysret_settles (.refl _) _
    · rw [same]; exact callScheduler_settles _ _ _
  | tryWait sid =>
    show Settles k (tryWait k sid)
    rcases tryWait_cases counted sid with ⟨r,_,same⟩ | ⟨_,_,same⟩ <;> rw [same] <;>
      exact sysret_settles (.refl _) _
  | signal sid => exact signal_settles counted sid
  | signaln sid count =>
    show Settles k (signaln k sid count)
    rcases signaln_cases k sid count with ⟨_,refused⟩ | ⟨_,_,_,called⟩
    · rw [refused]; exact sysret_settles (.refl _) _
    · rw [called]; exact callScheduler_settles _ _ _
  | scount sid =>
    show Settles k (scount k sid)
    obtain ⟨_,called⟩ := scount_sysret k sid
    rw [called]; exact sysret_settles (.refl _) _
  | sreset sid count =>
    show Settles k (sreset k sid count)
    rcases sreset_cases k sid count with ⟨_,same⟩ | ⟨_,_,same⟩
    · rw [same]; exact sysret_settles (.refl _) _
    · rw [same]; exact callScheduler_settles _ _ _
  | sdelete sid =>
    show Settles k (sdelete k sid)
    rcases sdelete_cases k sid with ⟨_,same⟩ | ⟨_,same⟩
    · rw [same]; exact sysret_settles (.refl _) _
    · rw [same]; exact callScheduler_settles _ _ _
  | consRead buf len => exact consReadLoop_settles _ _ _ _ k
  | setBuffered buffered => exact sysret_settles (.refl _) _
  | setStdout node =>
    cases node with
    | none => exact sysret_settles (.refl _) _
    | some inode =>
      have written : Calm k.toProcs (k.toProcs.setProc k.pidCour (fun c => { c with stdout := inode })) :=
        .setProc _ _ (fun _ => rfl) (fun _ => rfl) (fun _ => id)
      exact sysret_settles written _
  | sigReturn => exact callScheduler_settles _ _ _

theorem resume_settles (k : Kernel) : Settles k (resume k) := by
  unfold resume
  split
  · exact .inr (.refl _)
  · split
    · exact sysret_settles (.refl _) _
    · exact sysret_settles (.refl _) _
    · rcases waitResume_cases k with ⟨_,same⟩ | ⟨_,same⟩
      · have written : Calm k.toProcs (unmarked k).toProcs :=
          .setProc k.toProcs k.pidCour (f := fun c => { c with sidReseted := false }) (fun _ => rfl) (fun _ => rfl)
            (fun _ => id)
        rw [same]; exact sysret_settles written _
      · rw [same]; exact sysret_settles (.refl _) _
    · exact reap_settles k _ _
    · exact reap_settles k _ _
    · rename_i vc buf len left _
      refine takeByte_settles (fun k' same => ?_)
      have settles := consReadLoop_settles vc buf len left k'
      rwa [Settles,same] at settles
    · exact .inr (.refl _)
    · exact handlePfault_settles k

/-- Neither `kill` nor the keyboard. -/
def Peaceful : Event → Prop
  | .call (.kill _) | .key _ | .flip _ => False
  | _ => True

theorem Peaceful.spares {e : Event} (peaceful : Peaceful e) : Spares k e := by
  cases e with
  | call c =>
    cases c with
    | kill pid => exact peaceful.elim
    | _ => trivial
  | key c => exact peaceful.elim
  | _ => trivial

/-- The first step is a tick, which calls `scheduler`. No later step leaves a
    better candidate behind. -/
theorem step_top (good : Good lost gone k) {e : Event} (peaceful : Peaceful e) (first : Boot k ∨ Top k.toProcs)
    (after : Good lost gone k') (stepped : step k e = some k') : Top k'.toProcs := by
  have conclude : Top k.toProcs → Settles k k' → Top k'.toProcs := fun top settles =>
    settles.elim after.stable.top (fun calm => calm.top top)
  rcases step_cases stepped with ⟨c,rfl,_,busy,rfl⟩ | ⟨rfl,_,busy,rfl⟩ | ⟨rfl,_,rfl⟩ | ⟨_,rfl,_⟩ | ⟨_,rfl,_⟩ |
    ⟨rfl,mode,rfl⟩
  · exact conclude (first.resolve_left (fun boot => busy (boot_idle boot).1)) (handle_settles good c)
  · exact conclude (first.resolve_left (fun boot => busy (boot_idle boot).1)) (handlePfault_settles k)
  · exact after.stable.top rfl
  · exact peaceful.elim
  · exact peaceful.elim
  · refine conclude (first.resolve_left (fun boot => ?_)) (resume_settles k)
    have := (boot_idle boot).2
    simp [mode] at this

theorem reach_top (reached : Reach (fun _ e => Peaceful e) k) :
    Good True (fun _ _ => False) k ∧ (Boot k ∨ Top k.toProcs) := by
  induction reached with
  | start boot => exact ⟨boot_good boot,.inl boot⟩
  | next _ peaceful stepped ih =>
    have after := step_good ih.1 peaceful.spares.safe (.inr trivial) (fun _ _ _ => id) stepped
    exact ⟨after,.inr (step_top ih.1 peaceful ih.2 after stepped)⟩

/-- After any step, the current process has no activable rival of higher
    priority, and the kernel idles only when no process can run. -/
theorem step_returns_best (reached : Reach (fun _ e => Peaceful e) k) {e : Event} (peaceful : Peaceful e)
    (stepped : step k e = some k') :
    (k'.pidCour ≠ 0 → ∀ p, InUse k'.tabProc p → (k'.tabProc p).state = .activable →
      (k'.tabProc p).priority ≤ (k'.tabProc k'.pidCour).priority) ∧
      (k'.pidCour = 0 → ∀ p, InUse k'.tabProc p →
        (k'.tabProc p).state ≠ .activable ∧ (k'.tabProc p).state ≠ .active) := by
  obtain ⟨good,first⟩ := reach_top reached
  have after := step_good good peaceful.spares.safe (.inr trivial) (fun _ _ _ => id) stepped
  have top := step_top good peaceful first after stepped
  obtain ⟨q,ready⟩ := after.stable.ready
  refine ⟨fun _ p used state => (top p used state).2,fun idle p used => ⟨fun state => ?_,fun state => ?_⟩⟩
  · exact (top p used state).1 idle
  · have inTab := used.1
    simp [ready.active p used state,idle,InTab] at inTab

/-- Process 1 returns from the creation of a process of lower priority. -/
theorem step_returns_best_two : ∃ k k' : Kernel, Reach (fun _ e => Peaceful e) k ∧ step k .resume = some k' ∧
    k'.pidCour = 1 ∧
    (k'.pidCour ≠ 0 → ∀ p, InUse k'.tabProc p → (k'.tabProc p).state = .activable →
      (k'.tabProc p).priority ≤ (k'.tabProc k'.pidCour).priority) ∧
      (k'.pidCour = 0 → ∀ p, InUse k'.tabProc p →
        (k'.tabProc p).state ≠ .activable ∧ (k'.tabProc p).state ≠ .active) := by
  let events : List Event := [.tick,.resume,.call (.start 512 2 .granted)]
  have seen : (run step zeroed events).map (fun k => k.pidCour) = some 1 := by decide
  have later : (run step zeroed (events ++ [.resume])).map (fun k => k.pidCour) = some 1 := by decide
  obtain ⟨k,k',ran,resumed,_,current⟩ := Runs.run_parts seen later
  have reached : Reach (fun _ e => Peaceful e) k := reach_of_run events (by simp [events,Peaceful]) zeroed_boot ran
  have stepped : step k .resume = some k' := by simpa [run] using resumed
  exact ⟨k,k',reached,stepped,current,step_returns_best reached (e := .resume) trivial stepped⟩

/-- Until the first tick the kernel idles although Init is activable. -/
theorem idle_before_tick : ¬ ∀ k : Kernel, Reach (fun _ e => Peaceful e) k → k.inKernel = false →
    (k.pidCour ≠ 0 → ∀ p, InUse k.tabProc p → (k.tabProc p).state = .activable →
      (k.tabProc p).priority ≤ (k.tabProc k.pidCour).priority) ∧
      (k.pidCour = 0 → ∀ p, InUse k.tabProc p →
        (k.tabProc p).state ≠ .activable ∧ (k.tabProc p).state ≠ .active) := by
  intro claim
  have init : InUse zeroed.tabProc 1 ∧ (zeroed.tabProc 1).state = .activable ∧ zeroed.pidCour = 0 := by
    decide
  exact ((claim zeroed (.start zeroed_boot) rfl).2 init.2.2 1 init.1).1 init.2.1

end Psys.Scheduling
