import Psys.Descriptors

/-!
`read`, `write`, `readdir`, `fstat` and `close` with any integer for a
descriptor. Only `fstat` looks at the presence of a descriptor before it goes on;
what the others do depends on the node that is found at the index.
-/
namespace Psys.FileCalls
open Psys.State Psys.Vfs Psys.Provenance Psys.Handlers Psys.Descriptors
open Psys.UserPointers (checkPointer_bind)
open Psys.Runs (run reach_of_run)

/-- The descriptor is in the table and present. -/
def Open (m : Handlers.Machine) (fd : Int) : Prop := 0 ≤ fd ∧ fd < DTABLESIZE ∧ (m.fileDesc fd).present = true
instance (m : Handlers.Machine) (fd : Int) : Decidable (Open m fd) := inferInstanceAs (Decidable (_ ∧ _))

/-- The call returns -1 and changes nothing. -/
def Refused (m : Handlers.Machine) (c : FileCall) : Prop :=
  ∀ freed mem, (serve freed c ⟨m,mem⟩).value = some (-1) ∧ (serve freed c ⟨m,mem⟩).world = ⟨m,mem⟩

/-- A call on a descriptor that is there finds a node, any other is refused. -/
def Checked (m : Handlers.Machine) (c : FileCall) : Prop :=
  (Open m c.fd → (m.fileDesc c.fd).node ≠ .null) ∧ (¬ Open m c.fd → Refused m c)

/-- The indices that the `readdir` callback of a directory does not take. -/
def BeyondList (n : Node) (i : Int) : Prop :=
  match (fsNode n).readdir with
  | .to .rootfs | .to .vc => i < 0
  | .to .procfs => i < 0 ∨ n ≠ vfsProcfsRoot
  | .to .procfsSub => i < 0 ∨ i > 3
  | .null | .stray => False

/-- What it takes to be refused: for `fstat`, a descriptor that is not present;
    for `close`, moreover a node without a `close` callback; for `readdir`, a node
    that is no directory or has nothing at that index; for `write`, a setting and
    no byte. -/
def Turned (m : Handlers.Machine) : FileCall → Prop
  | .read _ _ _ => False
  | .write fd _ len => len = 0 ∧ ∃ n op, (m.fileDesc fd).node = .to n ∧ (fsNode n).write = .to op ∧ op ≠ .vc
  | .readdir fd _ i => ∃ n, (m.fileDesc fd).node = .to n ∧
    ((fsNode n).readdir = .null ∨ (fsNode n).type ≠ .dir ∨ BeyondList n i)
  | .fstat fd _ => (m.fileDesc fd).present = false
  | .close fd => (m.fileDesc fd).present = false ∧ ∃ n, (m.fileDesc fd).node = .to n ∧ closeCallback n = .null

/-- The calls that are handled as they should: on a descriptor that is there,
    other than 0, or turned down. -/
def Meets (m : Handlers.Machine) (c : FileCall) : Prop :=
  Open m c.fd ∧ c.fd ≠ 0 ∨ ¬ Open m c.fd ∧ Turned m c

variable {m : Handlers.Machine} {buf : Pointer}

/-! ### `read` -/

theorem memread_yields (bytes : List UInt8) (offset len : Nat) : Yields (fun r : Int => 0 ≤ r) (memread bytes offset buf len) := by
  refine Yields.ite (yields_pure (le_refl _)) ?_
  refine Yields.ite (yields_pure (le_refl _)) ?_
  exact yields_bind _ (fun _ => yields_pure (Int.natCast_nonneg _))

/-- A `read` callback counts bytes. -/
theorem readOp_yields (op : ReadOp) (node : Node) (offset len : Nat) :
    Yields (fun r : Int => 0 ≤ r) (readOp op node offset len buf) := by
  refine yields_bind _ ?_
  intro m
  cases op with
  | answer => exact yields_bind _ (fun _ => yields_pure (Int.natCast_nonneg _))
  | zero => exact yields_bind _ (fun _ => yields_pure (Int.natCast_nonneg _))
  | blink =>
    refine Yields.ite ?_ (yields_pure (le_refl _))
    exact yields_bind _ (fun _ => yields_pure (by decide))
  | kikoo => exact memread_yields _ _ _
  | fg => exact memread_yields _ _ _
  | bg => exact memread_yields _ _ _
  | state => exact memread_yields _ _ _
  | parent => exact memread_yields _ _ _
  | name => exact memread_yields _ _ _

/-- `read` never answers -1. -/
theorem read_yields (fd : Int) (len : Nat) : Yields (fun r : Int => 0 ≤ r) (read fd buf len) := by
  refine yields_bind _ ?_
  intro buf
  refine yields_bind _ ?_
  intro m
  split
  · exact yields_of_none (fun _ => rfl)
  · exact yields_of_none (fun _ => rfl)
  · split
    · exact yields_pure (le_refl _)
    · exact yields_of_none (fun _ => rfl)
    · refine (readOp_yields _ _ _ _).bind ?_
      intro bytesRead counted
      exact yields_bind _ (fun _ => yields_pure counted)

/-! ### What is refused -/

theorem not_refused_of_yields {c : FileCall} (yields : Yields (fun r : Int => 0 ≤ r) (serve id c)) : ¬ Refused m c := by
  intro refused
  have answer := yields _ _ (refused id (fun _ => 0)).1
  omega

theorem read_refused_iff (fd : Int) (buf len : Nat) : Refused m (.read fd buf len) ↔ Turned m (.read fd buf len) :=
  iff_of_false (not_refused_of_yields (read_yields fd len)) id

/-- A write callback of `/sys/console`. -/
theorem writeFirst_refused_iff (len : Nat) (f : UInt8 → Handlers.Machine → Handlers.Machine) :
    (∀ mem, (writeFirst len buf f ⟨m,mem⟩).value = some (-1) ∧ (writeFirst len buf f ⟨m,mem⟩).world = ⟨m,mem⟩) ↔
      len = 0 := by
  unfold writeFirst
  constructor
  · intro refused
    by_contra more
    have positive : len > 0 := Nat.pos_of_ne_zero more
    have answer := (refused (fun _ => 0)).1
    rw [if_pos positive] at answer
    have yields : Yields (fun r : Int => 0 ≤ r) (do
        let c ← byteAt buf 0
        modify (f c)
        return 1 : Handler Int) := yields_bind _ (fun _ => yields_bind _ (fun _ => yields_pure (by decide)))
    exact absurd (yields _ _ answer) (by decide)
  · rintro rfl mem
    exact ⟨rfl,rfl⟩

theorem write_refused_iff (fd : Int) (buf len : Nat) : Refused m (.write fd buf len) ↔ Turned m (.write fd buf len) := by
  simp only [Refused,Turned,serve,write,get_bind]
  generalize (m.fileDesc fd).node = node
  rcases node with _ | n | _
  · simp [stop]
  · rcases callback : (fsNode n).write with _ | op | _
    · simp [callback,pure,Prog.done]
    · have first : ∀ f, (∀ freed : List UInt8 → List UInt8, ∀ mem,
          (writeFirst len ⟨buf,some 0⟩ f ⟨m,mem⟩).value = some (-1) ∧
            (writeFirst len ⟨buf,some 0⟩ f ⟨m,mem⟩).world = ⟨m,mem⟩) ↔ len = 0 := by
        intro f
        rw [← writeFirst_refused_iff (m := m) len f]
        exact ⟨fun all => all id,fun all _ => all⟩
      cases op with
      | vc =>
        simp only [callback]
        refine iff_of_false ?_ (by simp [callback])
        intro refused
        have yields : Yields (fun r : Int => 0 ≤ r) (writeOp .vc n len ⟨buf,some 0⟩) :=
          yields_bind _ (fun _ => yields_pure (Int.natCast_nonneg _))
        exact absurd (yields _ _ (refused id (fun _ => 0)).1) (by decide)
      | blink => simpa [callback,writeOp] using first _
      | fg => simpa [callback,writeOp] using first _
      | bg => simpa [callback,writeOp] using first _
      | echo => simpa [callback,writeOp] using first _
    · simp [callback,expose]
  · simp [expose]

theorem seekEntry_ne_error (entries : List Dirent) (i : Int) : seekEntry entries i ≠ .error := by
  unfold seekEntry
  split <;> simp

theorem readdir_error_iff (t : Int → Context) (n : Node) (i : Int) :
    Vfs.readdir t n i = some .error ↔ BeyondList n i := by
  unfold Vfs.readdir BeyondList
  rcases (fsNode n).readdir with _ | op | _
  · simp
  · cases op with
    | rootfs => by_cases low : i < 0 <;> simp [rootfsReaddir,low,seekEntry_ne_error]
    | procfs => by_cases low : i < 0 <;> by_cases root : n = vfsProcfsRoot <;> simp [procfsReaddir,low,root,seekEntry_ne_error]
    | procfsSub => by_cases low : i < 0 <;> by_cases high : i > 3 <;> simp [procfsSubReaddir,low,high,seekEntry_ne_error]
    | vc => by_cases low : i < 0 <;> by_cases high : i ≥ VIRTUAL_CONSOLES <;> simp [consoleVcReaddir,low,high]
  · simp

theorem readdir_refused_iff (fd : Int) (dirp : Nat) (i : Int) :
    Refused m (.readdir fd dirp i) ↔ Turned m (.readdir fd dirp i) := by
  simp only [Refused,Turned,serve,Handlers.readdir,checkPointer_bind,get_bind]
  generalize (m.fileDesc fd).node = node
  rcases node with _ | n | _
  · simp [stop]
  · by_cases listed : (fsNode n).readdir ≠ .null ∧ (fsNode n).type = .dir
    · simp only [if_pos listed,← readdir_error_iff m.kernel.tabProc]
      rcases found : Vfs.readdir m.kernel.tabProc n i with _ | _ | _ | d
      · simp [expose,found,listed]
      · refine iff_of_true (fun _ _ => ⟨rfl,rfl⟩) ⟨n,rfl,.inr (.inr found)⟩
      · refine iff_of_false (fun refused => ?_) (by simp [found,listed])
        exact absurd (refused id (fun _ => 0)).1 (by simp [pure,Prog.done])
      · refine iff_of_false (fun refused => ?_) (by simp [found,listed])
        have yields : ∀ p : Pointer, Yields (fun r : Int => 0 ≤ r) (do
            storeBytes Mapped p (direntName (fsNode n).readdir d.name)
            storeWord (p.plus FS_NAME_MAX) (word d.inode)
            return 1 : Handler Int) := fun p => yields_bind _ (fun _ => yields_bind _ (fun _ => yields_pure (by decide)))
        exact absurd (yields _ _ _ (refused id (fun _ => 0)).1) (by decide)
    · simp only [if_neg listed]
      refine iff_of_true (fun _ _ => ⟨rfl,rfl⟩) ⟨n,rfl,?_⟩
      rcases not_and_or.mp listed with list | type
      · exact .inl (not_not.mp list)
      · exact .inr (.inl type)
  · simp [expose]

theorem fstat_refused_iff (fd : Int) (s : Nat) : Refused m (.fstat fd s) ↔ Turned m (.fstat fd s) := by
  simp only [Refused,Turned,serve,fstat,get_bind]
  by_cases absent : (m.fileDesc fd).present = false
  · simp only [if_pos absent]
    exact iff_of_true (fun _ _ => ⟨rfl,rfl⟩) absent
  · simp only [if_neg absent]
    refine iff_of_false (fun refused => ?_) absent
    have answer := (refused id (fun _ => 0)).1
    generalize (m.fileDesc fd).node = node at answer
    rcases node with _ | n | _
    · cases answer
    · have yields : Yields (fun r : Int => 0 ≤ r) (do
          storeWord (Pointer.plus ⟨s,some 0⟩ 128) (if (fsNode n).type = .dir then 1 else 0)
          storeWord (Pointer.plus ⟨s,some 0⟩ 132) (word (fsNode n).inode)
          storeWord (Pointer.plus ⟨s,some 0⟩ 136) (m.size n)
          storeBytes Mapped ⟨s,some 0⟩ (padded (fsNode n).name FS_NAME_MAX)
          return 0 : Handler Int) :=
        yields_bind _ (fun _ => yields_bind _ (fun _ => yields_bind _ (fun _ => yields_bind _ (fun _ => yields_pure (le_refl _)))))
      exact absurd (yields _ _ answer) (by decide)
    · cases answer

theorem fdFree_absent {fd : Int} {s : World Handlers.Machine} (absent : (s.state.fileDesc fd).present = false) :
    fdFree fd s = ⟨[],some (-1),s⟩ := by
  rw [fdFree,get_bind,if_pos absent]
  rfl

theorem fdFree_present {fd : Int} {s : World Handlers.Machine} (present : (s.state.fileDesc fd).present ≠ false) :
    (fdFree fd s).value = some 0 := by
  rw [fdFree,get_bind,if_neg present,modify_bind]
  rfl

theorem close_refused_iff (fd : Int) : Refused m (.close fd) ↔ Turned m (.close fd) := by
  simp only [Refused,Turned,serve,close,get_bind]
  generalize node' : (m.fileDesc fd).node = node
  rcases node with _ | n | _
  · simp [stop]
  · rcases callback : closeCallback n with _ | _ | _
    · simp only [callback]
      by_cases absent : (m.fileDesc fd).present = false
      · refine iff_of_true (fun _ mem => ?_) ⟨absent,n,rfl,callback⟩
        rw [fdFree_absent absent]
        exact ⟨rfl,rfl⟩
      · refine iff_of_false (fun refused => ?_) (fun turned => absent turned.1)
        have answer := (refused id (fun _ => 0)).1
        rw [fdFree_present absent] at answer
        cases answer
    · simp only [callback,modify_bind]
      refine iff_of_false (fun refused => ?_) (by simp [callback])
      -- `kikoo_close` frees the buffer, whatever `fd_free` answers.
      obtain ⟨answer,world⟩ := refused (fun bytes => 0 :: bytes) (fun _ => 0)
      by_cases absent : (m.fileDesc fd).present = false
      · rw [fdFree_absent absent] at world
        have longer := congrArg (fun w => w.state.kikoobuf.length) world
        simp at longer
      · rw [fdFree_present absent] at answer
        cases answer
    · simp [callback,expose]
  · simp [expose]

/-- A call is refused exactly when it is turned down. -/
theorem refused_iff (c : FileCall) : Refused m c ↔ Turned m c := by
  cases c with
  | read fd buf len => exact read_refused_iff fd buf len
  | write fd buf len => exact write_refused_iff fd buf len
  | readdir fd dirp n => exact readdir_refused_iff fd dirp n
  | fstat fd s => exact fstat_refused_iff fd s
  | close fd => exact close_refused_iff fd

/-! ### The tables of a run -/

/-- Descriptor 0 is kept and gets no node; the others have one when they are present. -/
structure Furnished (f : Files) : Prop where
  stdin : (f.fileDesc 0).node = .null
  reserved : f.created = true → (f.fileDesc 0).present = true
  nodes : ∀ fd, 1 ≤ fd → fd < DTABLESIZE → (f.fileDesc fd).present = true → (f.fileDesc fd).node ≠ .null

/-- The steps of a run in which descriptors are used as they should be: calls on
    files meet their condition, and a process that starts another one has a node
    in descriptor 1. -/
def Tame (m : Descriptors.Machine) : Event → Prop
  | .file c _ _ => Meets (m.entered c.number) c
  | .kernel e => creates m.base.kernel e ≠ none → (m.own.fileDesc 1).node ≠ .null
  | _ => True

theorem Furnished.worn {f f' : Files} (furnished : Furnished f) (created : f'.created = f.created)
    (worn : ∀ fd, Worn (f.fileDesc fd) (f'.fileDesc fd)) : Furnished f' where
  stdin := by
    rcases worn 0 with ⟨-,node⟩ | ⟨-,-,node⟩
    · rw [node,furnished.stdin]
    · exact node
  reserved real := by
    rcases worn 0 with ⟨present,-⟩ | ⟨found,-⟩
    · rw [present,furnished.reserved (created ▸ real)]
    · exact absurd furnished.stdin found
  nodes fd low high there := by
    rcases worn fd with ⟨present,node⟩ | ⟨-,absent,-⟩
    · rw [node]
      exact furnished.nodes fd low high (present ▸ there)
    · rw [absent] at there
      cases there

/-- A node is put into another descriptor than 0. -/
theorem Furnished.update {f f' : Files} (furnished : Furnished f) {i : Int} (other : i ≠ 0) {d : FileDescriptor}
    (node : d.node ≠ .null) (created : f'.created = f.created)
    (table : f'.fileDesc = Function.update f.fileDesc i d) : Furnished f' where
  stdin := by rw [table,Function.update_of_ne other.symm,furnished.stdin]
  reserved real := by rw [table,Function.update_of_ne other.symm,furnished.reserved (created ▸ real)]
  nodes fd low high there := by
    rw [table] at there ⊢
    by_cases same : fd = i
    · subst same
      simpa using node
    · rw [Function.update_of_ne same] at there ⊢
      exact furnished.nodes fd low high there

theorem setupFiles_furnished {f : Files} (stdin : (f.fileDesc 0).node = .null) {node : Ptr Node} (found : node ≠ .null) :
    Furnished (setupFiles node f) where
  stdin := by simpa [setupFiles] using stdin
  reserved _ := by simp [setupFiles]
  nodes fd low high there := by
    have other : fd ≠ 0 := by omega
    by_cases out : fd = 1
    · simpa [setupFiles,out] using found
    · have closed : 1 < fd ∧ fd < DTABLESIZE := ⟨by omega,high⟩
      simp [setupFiles,other,out,closed] at there

theorem step_furnished {m m' : Descriptors.Machine} {e : Event} (furnished : ∀ p, Furnished (m.files p)) (tame : Tame m e)
    (stepped : step m e = some m') (p : Int) : Furnished (m'.files p) := by
  have before := furnished p
  rcases step_change (p := p) stepped with ⟨created,worn⟩ | ⟨rfl,rfl,-,free,real,created,table⟩ |
    ⟨rfl,rfl,-,found,real,created,table⟩ | ⟨rfl,made,form⟩
  · exact before.worn created worn
  · have absent := (slot_free free).2.2
    refine before.update ?_ (by simp) (created.trans real.symm) table
    rintro rfl
    rw [before.reserved real] at absent
    cases absent
  · exact before.update (by decide) found (created.trans real.symm) table
  · rw [form]
    exact setupFiles_furnished before.stdin (tame (by simp [made]))

theorem Zeroed.furnished {f : Files} (zeroed : Zeroed f) : Furnished f where
  stdin := by rw [zeroed.2 0 (by decide) (by decide)]
  reserved real := by simp [zeroed.1] at real
  nodes fd low high there := by
    rw [zeroed.2 fd (by omega) high] at there
    cases there

/-- In every such run, for every process. -/
theorem reach_furnished {m : Descriptors.Machine} (reached : Reach Tame m) : ∀ p, Furnished (m.files p) := by
  refine Runs.Reach.invariant (P := fun m => ∀ p, Furnished (m.files p)) ?_ ?_ reached
  · rintro m ⟨-,files,zeroed,form⟩ p
    rw [form]
    by_cases init : p = 1
    · subst init
      simp only [Function.update_self]
      exact setupFiles_furnished (Zeroed.furnished (zeroed 1)).stdin (by simp)
    · rw [Function.update_of_ne init]
      exact Zeroed.furnished (zeroed p)
  · exact fun m e m' furnished tame stepped => step_furnished furnished tame stepped

/-- Init runs. -/
private theorem reach_user : ∃ m : Descriptors.Machine, Reach Tame m ∧ Reach (fun _ _ => True) m ∧ m.InUser ∧
    m.base.kernel.pidCour = 1 ∧ (m.own.fileDesc 0).present = true ∧ (m.own.fileDesc 0).node = .null ∧
      (m.own.fileDesc 1).present = true := by
  let events : List Event := [.kernel .tick,.kernel .resume]
  have seen : (run step zeroed events).map (fun m => (decide m.InUser,m.base.kernel.pidCour,(m.own.fileDesc 0).present,
      (m.own.fileDesc 0).node,(m.own.fileDesc 1).present)) = some (true,1,true,.null,true) := by decide
  obtain ⟨m,ran,facts⟩ := Option.map_eq_some_iff.mp seen
  simp only [Prod.mk.injEq,decide_eq_true_eq] at facts
  refine ⟨m,?_,reach_of_run events (fun _ _ _ => trivial) zeroed_boot ran,facts⟩
  exact reach_of_run events (by simp [events,Tame,creates]) zeroed_boot ran

end Psys.FileCalls
