import Psys.Devices
import Psys.Waiting

/-!
The clock, the keyboard and the console calls keep the invariant of the
processes and leave the semaphores alone.
-/
namespace Psys.Inputs
open Psys.State Psys.Context Psys.Sys Psys.Devices Psys.ProcQueue Psys.Family Psys.Processes Psys.Calls Psys.Waiting

variable {lost : Prop} {gone : Int → Nat → Prop}

/-- What a step must keep: the processes and, untouched, the semaphores. -/
structure Keeps (lost : Prop) (gone : Int → Nat → Prop) (k k' : Kernel) : Prop where
  stable : Stable lost gone k'
  untouched : Untouched k k'

theorem sysret_keeps {k : Kernel} (inside : Inside lost gone k.toProcs) (going : Going k.toProcs) (ret : Option Int) :
    Keeps lost gone k (sysret k ret) := ⟨sysret_stable inside going ret,sysret_untouched k ret⟩

theorem handlePfault_keeps {k : Kernel} (inside : Inside lost gone k.toProcs) (going : Going k.toProcs)
    (heard : Unheard k.tabProc k.pidCour → lost) : Keeps lost gone k (handlePfault k) :=
  ⟨handlePfault_stable inside going heard,handlePfault_untouched inside going heard⟩

/-! ### The clock -/

theorem waitClock_keeps {k : Kernel} (inside : Inside lost gone k.toProcs) (going : Going k.toProcs) (clock : Nat) :
    Keeps lost gone k (waitClock k clock) := by
  have inTab := going.live.1.1
  refine ⟨?_,block_untouched inside going (elsewhere_asleep (ulong clock)) (by simp)⟩
  have blocked := inside.block going (blocks_asleep (ulong clock))
  exact callScheduler_stable blocked (fun _ => ⟨fun _ => .inr (by simp [inTab]),fun _ mark => by
    simp [going.reseted] at mark⟩)

/-- The condition on the processes while the clock interrupt is served: a
    current process runs. -/
structure Served (lost : Prop) (gone : Int → Nat → Prop) (k k' : Procs) : Prop where
  inside : Inside lost gone k'
  going : k'.pidCour ≠ 0 → Going k'
  cour : k'.pidCour = k.pidCour
  processes : Unconcerned k.tabProc k'.tabProc

theorem wakeSleeper_served {k k' : Procs} (served : Served lost gone k k') {pid : Int} (inTab : InTab pid) (n : Nat) :
    Served lost gone k (wakeSleeper n k' pid) := by
  unfold wakeSleeper
  split
  · rename_i due
    have other : pid ≠ k'.pidCour := by
      rintro rfl
      have busy : k'.pidCour ≠ 0 := fun idle => by simp [idle,InTab] at inTab
      have active := (served.going busy).active
      rw [due.2.1] at active
      simp at active
    have sleeps : Sleeps k' pid := ⟨⟨inTab,due.1⟩,other,.inr (.inr due.2.1)⟩
    refine ⟨served.inside.wakeup (fun _ => sleeps),fun busy => ?_,by simpa using served.cour,
      served.processes.trans (wakeup_unconcerned (fun _ => by simp [due.2.1]))⟩
    exact (served.going (by simpa using busy)).wakeup other
  · exact served

theorem updateTimer_served {k : Kernel} (served : Served lost gone k.toProcs k.toProcs) :
    Served lost gone k.toProcs (updateTimer k).toProcs := by
  have general : ∀ (l : List Int) (k' : Procs), (∀ pid ∈ l, InTab pid) → Served lost gone k.toProcs k' →
      Served lost gone k.toProcs (l.foldl (wakeSleeper k.nbInterrupt) k') := by
    intro l
    induction l with
    | nil => exact fun _ _ served => served
    | cons pid rest ih =>
      intro k' inTab served
      exact ih _ (fun p member => inTab p (by simp [member])) (wakeSleeper_served served (inTab pid (by simp)) _)
  exact general pids k.toProcs (fun pid => (mem_pids pid).mp) served

theorem int32_keeps {k : Kernel} (stable : Stable lost gone k) (mode : k.inKernel = false) : Keeps lost gone k (int32 k) := by
  let k' : Kernel := { k with nbInterrupt := ulong (k.nbInterrupt + 1) }
  have served : Served lost gone k'.toProcs (updateTimer k').toProcs :=
    updateTimer_served ⟨stable.toInside,stable.going mode,rfl,.refl _⟩
  refine ⟨callScheduler_stable served.inside (fun busy => Going.fits (served.going busy) (fun _ _ runs => .inl runs)),?_⟩
  have first : Untouched k (updateTimer k') := ⟨rfl,rfl,rfl,served.processes⟩
  exact first.trans (callScheduler_untouched served.inside (by simp))

/-! ### The keyboard -/

/-- A sleeping process is woken up while the current one stays in user mode. -/
theorem signalNewIo_keeps {k : Kernel} (stable : Stable lost gone k) (mode : k.inKernel = false) {pid : Int}
    (sleeps : InUse k.tabProc pid → (k.tabProc pid).state = .waitIo ∨ (k.tabProc pid).state = .asleep) :
    Keeps lost gone k (signalNewIo k pid) := by
  by_cases used : InUse k.tabProc pid
  · have other : pid ≠ k.pidCour := by
      rintro rfl
      have busy : k.pidCour ≠ 0 := fun idle => by have := used.1; simp [idle,InTab] at this
      have := stable.running busy
      rcases sleeps used with state | state <;> simp [state] at this
    have inside := stable.toInside.wakeup (fun _ => ⟨used,other,.inr (sleeps used)⟩)
    have same : (signalNewIo k pid).tabProc k.pidCour = k.tabProc k.pidCour := by simp [signalNewIo,other.symm]
    have cour : (signalNewIo k pid).pidCour = k.pidCour := by simp [signalNewIo]
    refine ⟨⟨inside,fun busy => ?_,fun busy => ?_,fun _ busy => ?_,fun kernel => ?_⟩,rfl,rfl,rfl,wakeup_unconcerned (fun _ => ?_)⟩
    · have busy : k.pidCour ≠ 0 := by rwa [← cour]
      show ((signalNewIo k pid).tabProc (signalNewIo k pid).pidCour).state = _
      rw [cour,same]; exact stable.running busy
    · have busy : k.pidCour ≠ 0 := by rwa [← cour]
      have going := stable.going mode busy
      rw [cour,Settled,same,stable.user mode busy]
      refine ⟨fun _ => .inl (.inl ?_),fun _ mark => ?_⟩
      · rw [same]; exact going.active
      · rw [same,going.reseted] at mark; simp at mark
    · have busy : k.pidCour ≠ 0 := by rwa [← cour]
      rw [cour,same]; exact stable.user mode busy
    · exact absurd (mode.symm.trans kernel) (by simp)
    · rcases sleeps used with state | state <;> simp [state]
  · have same : signalNewIo k pid = k := by simp [signalNewIo,wakeupProcess_unused used]
    rw [same]
    exact ⟨stable,rfl,rfl,rfl,.refl _⟩

/-- The process that a key wakes up, if it is in use, reads a console or sleeps
    until a tick. -/
def Welcome (k : Kernel) (key : UInt8) : Prop :=
  Devices.translate key ≠ 8 → Notifies (k.virtualConsoles k.vcCurrent) (Devices.translate key) →
    InUse k.tabProc (k.virtualConsoles k.vcCurrent).waitingPid →
      (k.tabProc (k.virtualConsoles k.vcCurrent).waitingPid).state = .waitIo ∨
        (k.tabProc (k.virtualConsoles k.vcCurrent).waitingPid).state = .asleep

instance (k : Kernel) (key : UInt8) : Decidable (Welcome k key) := inferInstanceAs (Decidable (_ → _))

/-- The consoles are no concern of the processes. -/
theorem Keeps.setConsole {k k' : Kernel} (keeps : Keeps lost gone k k') (n : Int) (f : VirtualConsole → VirtualConsole) :
    Keeps lost gone k (k'.setConsole n f) :=
  ⟨⟨keeps.stable.toInside,keeps.stable.running,keeps.stable.current,keeps.stable.user,keeps.stable.top⟩,keeps.untouched.semaphores,
    keeps.untouched.sidLibres,keeps.untouched.semLog,keeps.untouched.processes⟩

theorem keyboardData_keeps {k : Kernel} (stable : Stable lost gone k) (mode : k.inKernel = false) {key : UInt8}
    (welcome : Welcome k key) : Keeps lost gone k (keyboardData k key) := by
  have unchanged : Keeps lost gone k k := ⟨stable,rfl,rfl,rfl,.refl _⟩
  unfold keyboardData
  split
  · exact unchanged.setConsole _ _
  · rename_i ordinary
    unfold bufferPush
    refine Keeps.setConsole ?_ _ _
    split
    · rename_i notifies
      exact signalNewIo_keeps stable mode (welcome ordinary notifies)
    · exact unchanged

theorem vcFlip_keeps {k : Kernel} (stable : Stable lost gone k) (vcNumber : Int) : Keeps lost gone k (vcFlip k vcNumber) := by
  unfold vcFlip
  split
  · exact ⟨⟨stable.toInside,stable.running,stable.current,stable.user,stable.top⟩,rfl,rfl,rfl,.refl _⟩
  · exact ⟨stable,rfl,rfl,rfl,.refl _⟩

/-! ### Console calls -/

theorem setBuffered_keeps {k : Kernel} (inside : Inside lost gone k.toProcs) (going : Going k.toProcs) (buffered : Bool) :
    Keeps lost gone k (setBuffered k buffered) := by
  let k' := k.setConsole k.vcCurrent (fun c => { c with buffered := buffered })
  exact ⟨sysret_stable (k := k') inside going _,(sysret_untouched k' none).semaphores,rfl,rfl,
    (sysret_untouched k' none).processes⟩

theorem setStdout_keeps {k : Kernel} (inside : Inside lost gone k.toProcs) (going : Going k.toProcs) (node : Option Int) :
    Keeps lost gone k (setStdout k node) := by
  cases node with
  | none => exact sysret_keeps inside going _
  | some inode =>
    have inTab := going.live.1.1
    have inside' := inside.write (f := fun c => { c with stdout := inode }) (fun _ => rfl) (fun _ => rfl) (fun _ => rfl)
      (fun _ => rfl) (fun _ => rfl)
    have going' : Going (k.setProc k.pidCour (fun c => { c with stdout := inode })).toProcs :=
      ⟨by simpa [Live,InUse] using going.live,by simpa using going.active,by simpa using going.reseted⟩
    have first : Untouched k (k.setProc k.pidCour (fun c => { c with stdout := inode })) :=
      ⟨rfl,rfl,rfl,.setProc k.toProcs _ (fun _ => rfl) (fun _ _ => id) (fun _ => rfl) (fun _ => rfl) (fun _ => rfl)
        Iff.rfl (fun zombie dead => ⟨zombie,dead⟩)⟩
    exact ⟨sysret_stable inside' going' _,first.trans (sysret_untouched _ _)⟩

/-- One turn of `cons_read` and what follows it. -/
theorem takeByte_keeps {k : Kernel} (inside : Inside lost gone k.toProcs) (going : Going k.toProcs) {vc : Int}
    {buf len left : Nat} {loop : Kernel → Kernel}
    (rest : ∀ k' : Kernel, k'.toProcs = k.toProcs → Untouched k k' → Keeps lost gone k (loop k'))
    (heard : Unheard k.tabProc k.pidCour → lost) : Keeps lost gone k (takeByte k vc buf len left loop) := by
  let k' := k.setConsole vc (fun c => { c with buf := (InputBuffer.pop c.buf).2 })
  have first : Untouched k k' := ⟨rfl,rfl,rfl,.refl _⟩
  have carry : ∀ k'', Keeps lost gone k' k'' → Keeps lost gone k k'' := fun k'' keeps =>
    ⟨keeps.stable,first.trans keeps.untouched⟩
  unfold takeByte
  dsimp only
  split
  · exact carry _ (sysret_keeps (k := k') inside going _)
  · split
    · exact carry _ (handlePfault_keeps (k := k') inside going heard)
    · exact rest _ rfl ⟨rfl,rfl,rfl,.refl _⟩

theorem consReadLoop_keeps (vc : Int) (buf len left : Nat) {k : Kernel} (inside : Inside lost gone k.toProcs)
    (going : Going k.toProcs) (heard : Unheard k.tabProc k.pidCour → lost) :
    Keeps lost gone k (consReadLoop vc buf len left k) := by
  induction left generalizing k with
  | zero => exact sysret_keeps inside going _
  | succ left ih =>
    unfold consReadLoop
    split
    · have inTab := going.live.1.1
      let k' := k.setConsole vc (fun c => { c with waitingPid := k.pidCour })
      have blocked := inside.block going blocks_waitIo
      have untouched : Untouched k' (callScheduler (k'.setProc k'.pidCour (fun c => { c with state := .waitIo }))
          (.consRead vc buf len left)) :=
        block_untouched (k := k') inside going elsewhere_waitIo (by simp)
      exact ⟨callScheduler_stable blocked (fun _ => ⟨fun _ => .inr (by simp [inTab]),fun _ mark => by
        simp [going.reseted] at mark⟩),untouched.semaphores,untouched.sidLibres,untouched.semLog,untouched.processes⟩
    · refine takeByte_keeps inside going (fun k' same untouched => ?_) heard
      have keeps := ih (k := k') (same ▸ inside) (same ▸ going) (same ▸ heard)
      exact ⟨keeps.stable,untouched.trans keeps.untouched⟩

end Psys.Inputs
