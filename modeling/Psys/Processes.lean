import Psys.Termination

/-!
The invariant of the processes: the activable list, the family tree and the
suspended kernel code. While the current process runs in the kernel, nothing is
said of its own frame; a call of `scheduler` or the return to user mode
restores the whole invariant.
-/
namespace Psys.Processes
open Psys.State Psys.Context Psys.Sys Psys.ProcQueue Psys.Family Psys.Termination

/-- A process has ended, and the activable list has taken it in `n` times. -/
structure Rests (k : Procs) (p : Int) (n : Nat) : Prop where
  finished : Over (k.tabProc p).state
  put : k.inserted.count p = n

/-- What holds while the current process runs in the kernel. The processes of
    `gone` rest, and nobody has taken their descriptors since. -/
structure Inside (lost : Prop) (gone : Int → Nat → Prop) (k : Procs) : Prop where
  ready : ∃ q, Ready k q
  tree : Tree k.tabProc
  settled : ∀ p, p ≠ k.pidCour → Settled lost k.tabProc p
  rests : ∀ p n, gone p n → Rests k p n

/-- The current process may go on. -/
structure Going (k : Procs) : Prop where
  live : Live k.tabProc k.pidCour
  active : (k.tabProc k.pidCour).state = .active
  reseted : (k.tabProc k.pidCour).sidReseted = false

/-- What holds between two steps. -/
structure Stable (lost : Prop) (gone : Int → Nat → Prop) (k : Kernel) : Prop extends Inside lost gone k.toProcs where
  running : Running k.toProcs
  current : k.pidCour ≠ 0 → Settled lost k.tabProc k.pidCour
  user : k.inKernel = false → k.pidCour ≠ 0 → (k.tabProc k.pidCour).frame = .user
  top : k.inKernel = true → Top k.toProcs

variable {lost : Prop} {gone : Int → Nat → Prop}

theorem Rests.same {k k' : Procs} {p : Int} {n : Nat} (rests : Rests k p n)
    (state : (k'.tabProc p).state = (k.tabProc p).state) (inserted : k'.inserted.count p = k.inserted.count p) :
    Rests k' p n := ⟨state ▸ rests.finished,inserted.trans rests.put⟩

/-- A step that concerns one process, which has not ended. -/
theorem Rests.others {k k' : Procs} {p : Int} {n : Nat} (rests : Rests k p n) {x : Int}
    (alive : ¬ Over (k.tabProc x).state)
    (others : p ≠ x → (k'.tabProc p).state = (k.tabProc p).state ∧ k'.inserted.count p = k.inserted.count p) :
    Rests k' p n := by
  have other : p ≠ x := fun same => alive (same ▸ rests.finished)
  exact rests.same (others other).1 (others other).2

theorem Inside.inUse {k : Procs} (inside : Inside lost gone k) (busy : k.pidCour ≠ 0) : InUse k.tabProc k.pidCour := by
  obtain ⟨q,ready⟩ := inside.ready
  exact ready.cour.resolve_left busy

theorem Stable.live {k : Kernel} (stable : Stable lost gone k) (busy : k.pidCour ≠ 0) : Live k.tabProc k.pidCour := by
  have active := stable.running busy
  exact ⟨stable.inUse busy,by simp [active],by simp [active]⟩

/-- A process in user mode may enter the kernel. -/
theorem Stable.going {k : Kernel} (stable : Stable lost gone k) (mode : k.inKernel = false) (busy : k.pidCour ≠ 0) :
    Going k.toProcs := by
  have live := stable.live busy
  refine ⟨live,stable.running busy,?_⟩
  by_contra mark
  obtain ⟨_,sid,frame⟩ := (stable.current busy).reseted live (by simpa using mark)
  simp [stable.user mode busy] at frame

/-- A call of `scheduler` with a fitting frame. -/
theorem callScheduler_stable {k : Kernel} (inside : Inside lost gone k.toProcs) {frame : Frame}
    (fits : k.pidCour ≠ 0 → Fits lost k.tabProc k.pidCour frame) : Stable lost gone (callScheduler k frame) := by
  let p := k.toProcs.setProc k.pidCour (fun c => { c with frame := frame })
  have alike : Alike k.tabProc p.tabProc :=
    Alike.setProc k.toProcs _ (fun _ => rfl) (fun _ => rfl) (fun _ => rfl) Iff.rfl Iff.rfl
  have settled : ∀ x, InTab x → Settled lost p.tabProc x := by
    intro x inTab
    by_cases same : x = k.pidCour
    · subst same
      have busy : k.pidCour ≠ 0 := by rintro idle; rw [idle] at inTab; simp [InTab] at inTab
      have frame' : (p.tabProc k.pidCour).frame = frame := by simp [p,inTab]
      rw [Settled,frame']
      exact (fits busy).alike inside.tree alike (.inl (by simp [p])) (by simp [p]) (by simp [p]) (by simp [p])
    · have frame' : (p.tabProc x).frame = (k.tabProc x).frame := by simp [p,same]
      rw [Settled,frame']
      exact (inside.settled x same).alike inside.tree alike (.inl (by simp [p])) (by simp [p]) (by simp [p]) (by simp [p])
  obtain ⟨q,ready⟩ := inside.ready
  have done := scheduler_scheduled (ready.setProc k.pidCour (f := fun c => { c with frame := frame }) (fun _ => rfl)
    (fun _ => rfl) (fun _ => rfl))
  have tree := (inside.tree.alike alike).alike (Dispatched.alike done.dispatched)
  have settled' : ∀ x, Settled lost (scheduler p).tabProc x := by
    intro x
    by_cases inTab : InTab x
    · exact Settled.dispatched (inside.tree.alike alike) done.dispatched (settled x inTab)
    · exact ⟨fun live => absurd live.1.1 inTab,fun live => absurd live.1.1 inTab⟩
  have rests : ∀ x n, gone x n → Rests (scheduler p) x n := by
    intro x n ended
    have before : Rests p x n := (inside.rests x n ended).same (by simp [p]) rfl
    have still : (p.tabProc x).state ≠ .active := fun active => before.finished.still (.inl active)
    refine before.same ?_ (scheduler_count p still)
    exact (done.dispatched.state x).resolve_right (fun runnable => before.finished.still runnable.1)
  exact ⟨⟨done.ready,tree,fun x _ => settled' x,rests⟩,done.running,fun _ => settled' _,
    fun mode => by simp [callScheduler] at mode,fun _ => done.top⟩

/-- The return to user mode. -/
theorem sysret_stable {k : Kernel} (inside : Inside lost gone k.toProcs) (going : Going k.toProcs) (ret : Option Int) :
    Stable lost gone (sysret k ret) := by
  have alike : Alike k.tabProc (k.toProcs.setProc k.pidCour (fun c => { c with frame := .user })).tabProc :=
    Alike.setProc k.toProcs _ (fun _ => rfl) (fun _ => rfl) (fun _ => rfl) Iff.rfl Iff.rfl
  obtain ⟨q,ready⟩ := inside.ready
  have inTab := going.live.1.1
  have live := (alike.live _).mpr going.live
  have ready' := ready.setProc k.pidCour (f := fun c => { c with frame := .user }) (fun _ => rfl) (fun _ => rfl)
    (fun _ => rfl)
  refine ⟨⟨⟨q,ready'⟩,inside.tree.alike alike,?_,fun x n ended => (inside.rests x n ended).same (by simp [sysret]) rfl⟩,
    ?_,?_,?_,fun mode => by simp [sysret] at mode⟩
  · intro x other
    have different : x ≠ k.pidCour := other
    have frame : ((sysret k ret).tabProc x).frame = (k.tabProc x).frame := by simp [sysret,different]
    rw [Settled,frame]
    exact (inside.settled x different).alike inside.tree alike (.inl (by simp)) (by simp) (by simp) (by simp)
  · intro busy
    simpa [sysret] using going.active
  · intro busy
    have frame : ((sysret k ret).tabProc k.pidCour).frame = .user := by simp [sysret,inTab]
    rw [Settled]
    simp only [sysret,Kernel.setProc_toProcs,Procs.setProc_pidCour] at frame ⊢
    rw [frame]
    exact ⟨fun _ => .inl (.inl (by simpa using going.active)),fun _ mark => by simp [going.reseted] at mark⟩
  · intro _ _
    simp [sysret,inTab]

/-! ### Writes to one process -/

/-- A write that leaves state and relatives of the current process alone. -/
theorem Inside.write {k : Procs} (inside : Inside lost gone k) {f : Context → Context}
    (valide : ∀ c, (f c).valide = c.valide) (priority : ∀ c, (f c).priority = c.priority)
    (parent : ∀ c, (f c).pidParent = c.pidParent) (children : ∀ c, (f c).children = c.children)
    (state : ∀ c, (f c).state = c.state) : Inside lost gone (k.setProc k.pidCour f) := by
  obtain ⟨q,ready⟩ := inside.ready
  have alike := Alike.setProc k k.pidCour valide parent children (by rw [state]) (by rw [state])
  refine ⟨⟨q,ready.setProc _ valide priority state⟩,inside.tree.alike alike,fun p other => ?_,
    fun p n ended => (inside.rests p n ended).same (by simp [state]) rfl⟩
  · have different : p ≠ k.pidCour := other
    exact (inside.settled p different).same inside.tree alike (by simp [different])

/-- A write that puts a living process to sleep. -/
structure Blocks (f : Context → Context) : Prop where
  valide : ∀ c, (f c).valide = c.valide
  priority : ∀ c, (f c).priority = c.priority
  parent : ∀ c, (f c).pidParent = c.pidParent
  children : ∀ c, (f c).children = c.children
  stopped : ∀ c, ¬ Runnable (f c).state
  alive : ∀ c, (f c).state ≠ .zombie ∧ (f c).state ≠ .dead

theorem blocks_waitChild (pidWait : Int) : Blocks (fun c => { c with state := .waitChild, pidWait := pidWait }) :=
  ⟨fun _ => rfl,fun _ => rfl,fun _ => rfl,fun _ => rfl,fun _ => by simp [Runnable],fun _ => by simp⟩
theorem blocks_waitSem (sid : Int) : Blocks (fun c => { c with state := .waitSem, sidWait := sid }) :=
  ⟨fun _ => rfl,fun _ => rfl,fun _ => rfl,fun _ => rfl,fun _ => by simp [Runnable],fun _ => by simp⟩
theorem blocks_asleep (timer : Nat) : Blocks (fun c => { c with state := .asleep, timer := timer }) :=
  ⟨fun _ => rfl,fun _ => rfl,fun _ => rfl,fun _ => rfl,fun _ => by simp [Runnable],fun _ => by simp⟩
theorem blocks_waitIo : Blocks (fun c => { c with state := .waitIo }) :=
  ⟨fun _ => rfl,fun _ => rfl,fun _ => rfl,fun _ => rfl,fun _ => by simp [Runnable],fun _ => by simp⟩

/-- The current process stops running. -/
theorem Inside.block {k : Procs} (inside : Inside lost gone k) (going : Going k) {f : Context → Context}
    (blocks : Blocks f) : Inside lost gone (k.setProc k.pidCour f) := by
  obtain ⟨q,ready⟩ := inside.ready
  have alike := Alike.setProc k k.pidCour blocks.valide blocks.parent blocks.children
    (by simp [going.active,(blocks.alive _).1]) (by simp [going.active,(blocks.alive _).2])
  have ready' := ready.stop going.live.1 blocks.valide blocks.priority (blocks.stopped _)
  rw [going.active] at ready'
  refine ⟨by simpa only [reduceCtorEq,if_false] using ready',inside.tree.alike alike,fun p other => ?_,
    fun p n ended => (inside.rests p n ended).others (x := k.pidCour) (by simp [going.active,Over])
      (fun different => ⟨by simp [different],rfl⟩)⟩
  have different : p ≠ k.pidCour := other
  exact (inside.settled p different).same inside.tree alike (by simp [different])

/-- A process that waits for something else than a child. -/
structure Sleeps (k : Procs) (x : Int) : Prop where
  used : InUse k.tabProc x
  other : x ≠ k.pidCour
  state : (k.tabProc x).state = .waitSem ∨ (k.tabProc x).state = .waitIo ∨ (k.tabProc x).state = .asleep

theorem Sleeps.live {k : Procs} {x : Int} (sleeps : Sleeps k x) : Live k.tabProc x := by
  refine ⟨sleeps.used,?_,?_⟩ <;> rcases sleeps.state with state | state | state <;> simp [state]

theorem Sleeps.still {k : Procs} {x : Int} (sleeps : Sleeps k x) : ¬ Runnable (k.tabProc x).state := by
  rcases sleeps.state with state | state | state <;> simp [state,Runnable]

/-- A sleeping process is woken up, perhaps with the mark of `sreset` or
    `sdelete`. -/
theorem Inside.wake {k : Procs} (inside : Inside lost gone k) {x : Int} (sleeps : Sleeps k x) {f : Context → Context}
    (mark : ∀ c, f c = { c with sidReseted := (f c).sidReseted, sidDeleted := (f c).sidDeleted })
    (reseted : (f (k.tabProc x)).sidReseted = (k.tabProc x).sidReseted ∨ (k.tabProc x).state = .waitSem) :
    Inside lost gone (wakeupProcess (k.setProc x f) x) := by
  obtain ⟨q,ready⟩ := inside.ready
  have used := sleeps.used
  have live := sleeps.live
  have valide : ∀ c, (f c).valide = c.valide := fun c => (congrArg Context.valide (mark c) :)
  have state : ∀ c, (f c).state = c.state := fun c => (congrArg Context.state (mark c) :)
  have frame : ∀ c, (f c).frame = c.frame := fun c => (congrArg Context.frame (mark c) :)
  have self : (wakeupProcess (k.setProc x f) x).tabProc x = { f (k.tabProc x) with state := .activable } := by
    have marked : InUse (k.setProc x f).tabProc x := by simpa [InUse,used.1,valide] using used
    simp [marked,used.1]
  have others : ∀ p, p ≠ x → (wakeupProcess (k.setProc x f) x).tabProc p = k.tabProc p := fun p different => by
    simp [different]
  have alike : Alike k.tabProc (wakeupProcess (k.setProc x f) x).tabProc := by
    refine Alike.update x others ?_ ?_ ?_ ?_ ?_ <;> rw [self]
    · exact valide _
    · exact fun _ => (congrArg Context.pidParent (mark _) :)
    · exact fun _ => (congrArg Context.children (mark _) :)
    · simp [live.2.1]
    · simp [live.2.2]
  have out : x ∉ q := fun member => sleeps.still (.inr ((ready.member x).mp member).2)
  obtain ⟨l,r,_,woken⟩ := wakeupProcess_ready ((ready.setProc x valide
    (fun c => (congrArg Context.priority (mark c) :)) state).but out) (by simpa [InUse,valide] using used)
  refine ⟨⟨_,woken⟩,inside.tree.alike alike,fun p other => ?_,
    fun p n ended => (inside.rests p n ended).others (x := x) (by simp [Over,live.2.1,live.2.2])
      (fun different => ⟨by rw [others p different],wakeupProcess_count (k.setProc x f) different⟩)⟩
  have different : p ≠ k.pidCour := by simpa using other
  have settled := inside.settled p different
  by_cases same : p = x
  · subst same
    rw [Settled,self]
    have runnable : Runnable ((wakeupProcess (k.setProc p f) p).tabProc p).state := by rw [self]; exact .inr rfl
    refine ⟨fun _ => ?_,fun _ marked => ⟨runnable,?_⟩⟩
    · simp only [frame]
      exact (settled.holds live).woken sleeps.state runnable
    · simp only [frame]
      rcases reseted with kept | waiting
      · rw [self] at marked
        obtain ⟨still,_⟩ := settled.reseted live (kept ▸ marked)
        exact absurd still sleeps.still
      · have holds := settled.holds live
        cases form : (k.tabProc p).frame with
        | wait sid => exact ⟨sid,rfl⟩
        | _ => simp [form,Holds,waiting,Runnable] at holds
  · exact settled.same inside.tree alike (others p same)

/-- `wakeup_process` on a PID that is not in use or sleeps. -/
theorem Inside.wakeup {k : Procs} (inside : Inside lost gone k) {x : Int} (sleeps : InUse k.tabProc x → Sleeps k x) :
    Inside lost gone (wakeupProcess k x) := by
  by_cases used : InUse k.tabProc x
  · have same : k.setProc x id = k := by simp [Procs.setProc]
    simpa only [same] using inside.wake (sleeps used) (f := id) (fun _ => rfl) (.inl rfl)
  · rw [wakeupProcess_unused used]; exact inside

theorem Going.wakeup {k : Procs} (going : Going k) {x : Int} (other : x ≠ k.pidCour) : Going (wakeupProcess k x) := by
  refine ⟨?_,?_,?_⟩
  · simpa [Live,InUse,other.symm] using going.live
  · simpa [other.symm] using going.active
  · simpa using going.reseted

/-! ### Termination -/

@[simp] theorem adoptChildren_pidCour (k : Procs) (pid : Int) : (adoptChildren k pid).pidCour = k.pidCour := by
  unfold adoptChildren
  generalize (k.tabProc pid).children = children
  induction children generalizing k with
  | nil => rfl
  | cons c rest ih =>
    rw [List.foldl_cons,ih]
    unfold adopt; split <;> rfl
@[simp] theorem exitProcess_pidCour (k : Procs) (retval : Int) : (exitProcess k retval).pidCour = k.pidCour := by
  simp only [exitProcess]
  split <;> split <;> simp
@[simp] theorem killProcess_pidCour (k : Procs) (pid : Int) : (killProcess k pid).pidCour = k.pidCour := by
  simp only [killProcess]
  split <;> split <;> split <;> simp

@[simp] theorem adoptChildren_inserted (k : Procs) (pid : Int) : (adoptChildren k pid).inserted = k.inserted := by
  unfold adoptChildren
  generalize (k.tabProc pid).children = children
  induction children generalizing k with
  | nil => rfl
  | cons c rest ih =>
    rw [List.foldl_cons,ih]
    unfold adopt; split <;> rfl

/-- A father that has ended is not woken up. -/
private theorem father_count {k p : Procs} (pid : Int) {x : Int} (inserted : p.inserted = k.inserted)
    (finished : Over (k.tabProc x).state) :
    (if FatherWaits k.tabProc pid then wakeupProcess p (k.tabProc pid).pidParent else k).inserted.count x =
      k.inserted.count x := by
  split
  · rename_i waits
    have other : x ≠ (k.tabProc pid).pidParent := by
      rintro rfl
      simp [waits.2.1,Over] at finished
    rw [wakeupProcess_count _ other,inserted]
  · rfl

theorem exitProcess_count (k : Procs) (retval : Int) {x : Int} (finished : Over (k.tabProc x).state) :
    (exitProcess k retval).inserted.count x = k.inserted.count x := by
  have woken := father_count (k := k) k.pidCour
    (p := k.setProc (k.tabProc k.pidCour).pidParent (fun c => { c with pidWait := k.pidCour })) rfl finished
  rw [← woken]
  unfold exitProcess
  dsimp only
  split <;> simp

theorem killProcess_count (k : Procs) (pid : Int) {x : Int} (finished : Over (k.tabProc x).state) :
    (killProcess k pid).inserted.count x = k.inserted.count x := by
  have woken := father_count (p := k) pid rfl finished
  rw [← woken]
  unfold killProcess
  dsimp only
  split <;> split <;> split <;> simp

theorem Inside.exit {k : Procs} (inside : Inside lost gone k) (going : Going k) (retval : Int) :
    Inside lost gone (exitProcess k retval) where
  ready := by
    obtain ⟨q,ready⟩ := inside.ready
    exact exitProcess_ready ready inside.tree going.live going.active retval
  tree := by
    rw [exitProcess_tabProc inside.tree going.live]
    exact terminated_tree inside.tree going.live _
  settled p other := by
    rw [exitProcess_tabProc inside.tree going.live]
    rw [exitProcess_pidCour] at other
    exact terminated_settled inside.tree going.live _ other (inside.settled p other) (fun _ _ => .inl rfl)
  rests p n ended := by
    have rests := inside.rests p n ended
    refine ⟨?_,(exitProcess_count k retval rests.finished).trans rests.put⟩
    rw [exitProcess_tabProc inside.tree going.live]
    exact terminated_over _ rests.finished

/-- `kill` on a live process, whose father does not wait for just any child
    unless that may be `lost`. -/
theorem Inside.kill {k : Procs} (inside : Inside lost gone k) {pid : Int} (live : Live k.tabProc pid)
    (heard : FatherWaits k.tabProc pid → (k.tabProc (k.tabProc pid).pidParent).pidWait = -1 → lost) :
    Inside lost gone (killProcess k pid) where
  ready := by
    obtain ⟨q,ready⟩ := inside.ready
    exact killProcess_ready ready inside.tree live
  tree := by
    rw [killProcess_tabProc inside.tree live]
    exact terminated_tree inside.tree live _
  settled p other := by
    rw [killProcess_tabProc inside.tree live]
    rw [killProcess_pidCour] at other
    by_cases same : p = pid
    · subst same
      exact ⟨fun ended => absurd rfl ((terminated_live none p).mp ended).2,
        fun ended => absurd rfl ((terminated_live none p).mp ended).2⟩
    · exact terminated_settled inside.tree live _ same (inside.settled p other)
        (fun waits any => .inr (heard waits any))
  rests p n ended := by
    have rests := inside.rests p n ended
    refine ⟨?_,(killProcess_count k pid rests.finished).trans rests.put⟩
    rw [killProcess_tabProc inside.tree live]
    exact terminated_over _ rests.finished

/-- The current process goes on after it has killed another. -/
theorem Going.kill {k : Procs} (going : Going k) (tree : Tree k.tabProc) {pid : Int} (live : Live k.tabProc pid)
    (other : k.pidCour ≠ pid) : Going (killProcess k pid) := by
  have active : (terminated k.tabProc pid none k.pidCour).state = .active := by
    rcases terminated_state (t := k.tabProc) none other with ⟨_,zombie,_⟩ | ⟨same,waits,_⟩ | ⟨_,_,kept⟩
    · simp [going.active] at zombie
    · have sleeping := waits.2.1
      rw [← same,going.active] at sleeping
      simp at sleeping
    · rw [kept]; exact going.active
  refine ⟨?_,?_,?_⟩ <;> rw [killProcess_tabProc tree live,killProcess_pidCour]
  · exact (terminated_live none _).mpr ⟨going.live,other⟩
  · exact active
  · exact going.reseted

end Psys.Processes
