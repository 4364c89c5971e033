import Psys.Descriptors

/-!
Descriptor 1 chooses the virtual console that `cons_read` reads from, by the
inode of its node. `set_stdout`, `open`, `close` and `start` change descriptor 1.
-/
namespace Psys.Stdout
open Psys.State Psys.Vfs Psys.Provenance Psys.Handlers Psys.Descriptors
open Psys.Runs (run reach_of_run)

/-- `node->inode - 100`, which faults for `NULL`. -/
def consoleIndex : Ptr Node → Ptr Int
  | .null => .null
  | .to n => .to ((fsNode n).inode - 100)
  | .stray => .stray

/-- The index is one of `virtual_consoles`. -/
def InArray : Ptr Int → Prop
  | .null => True
  | .to i => 0 ≤ i ∧ i < VIRTUAL_CONSOLES
  | .stray => False

/-- The indices that a write of so many bytes to a node uses. -/
def written (node : Ptr Node) (len : Nat) : List (Ptr Int) :=
  match node with
  | .null => []
  | .stray => [.stray]
  | .to n => if len = 0 ∨ (fsNode n).write ≠ .to .vc then [] else [consoleIndex node]

/-- The indices that a step of the current process uses, through descriptor 1. -/
def selects (m : Descriptors.Machine) : Event → List (Ptr Int)
  | .consRead _ len => if len = 0 then [] else [consoleIndex (m.own.fileDesc 1).node]
  | .file (.write fd _ len) _ _ => if fd = 1 then written (m.own.fileDesc 1).node len else []
  | .consWrite _ len _ => written (m.own.fileDesc 1).node (word len).toNat
  | _ => []

/-- One of `/dev/vc/0` to `/dev/vc/3`. -/
def Console (n : Node) : Prop := ∃ i : Int, 0 ≤ i ∧ i < VIRTUAL_CONSOLES ∧ n = .console i

/-- No node, or that of a console. -/
def Prints (node : Ptr Node) : Prop := node = .null ∨ ∃ n, node = .to n ∧ Console n

/-- The steps that leave descriptor 1 to the consoles: `set_stdout` finds nothing
    else, nor does `open` when descriptor 1 is the first free one, and the calls
    on files stay in the table. -/
def Faces (m : Descriptors.Machine) : Event → Prop
  | .setStdout name mem => ∀ node, m.resolved SYSCALL_SET_STDOUT name mem = some node → Prints node
  | .openFile name mem => slot m.own.fileDesc = some 1 →
    ∀ n, m.resolved SYSCALL_OPEN name mem = some (.to n) → Console n
  | .file c _ _ => 0 ≤ c.fd ∧ c.fd < DTABLESIZE
  | _ => True

theorem Prints.inArray {node : Ptr Node} (prints : Prints node) : InArray (consoleIndex node) := by
  rcases prints with rfl | ⟨_,rfl,i,low,high,rfl⟩
  · trivial
  · have index : consoleIndex (.to (.console i)) = .to i := by simp [consoleIndex,fsNode,vcFsNode]
    rw [index]
    exact ⟨low,high⟩

theorem written_inArray {node : Ptr Node} (prints : Prints node) (len : Nat) : ∀ i ∈ written node len, InArray i := by
  intro i member
  have index := prints.inArray
  rcases prints with rfl | ⟨n,rfl,-⟩
  · cases member
  · simp only [written] at member
    split at member
    · cases member
    · exact List.mem_singleton.mp member ▸ index

/-- In every such run, descriptor 1 of every process. -/
theorem reach_prints {m : Descriptors.Machine} (reached : Reach Faces m) (p : Int) :
    Prints ((m.files p).fileDesc 1).node := by
  have all : ∀ p, Prints ((m.files p).fileDesc 1).node := by
    refine Runs.Reach.invariant (P := fun m => ∀ p, Prints ((m.files p).fileDesc 1).node) ?_ ?_ reached
    · rintro m ⟨-,files,zeroed,form⟩ p
      rw [form]
      by_cases init : p = 1
      · subst init
        exact .inr ⟨.console 0,by simp [setupFiles],0,le_refl _,by decide,rfl⟩
      · rw [Function.update_of_ne init,(zeroed p).2 1 (by decide) (by decide)]
        exact .inl rfl
    · intro m e m' prints faces stepped p
      rcases step_change (p := p) stepped with ⟨-,worn⟩ | ⟨rfl,rfl,value,free,-,-,table⟩ |
        ⟨rfl,rfl,value,-,-,-,table⟩ | ⟨-,-,form⟩
      · rcases worn 1 with ⟨-,node⟩ | ⟨-,-,node⟩
        · rw [node]
          exact prints p
        · exact .inl node
      · rename_i name mem n i
        by_cases out : i = 1
        · subst out
          rw [table,Function.update_self]
          exact .inr ⟨n,rfl,faces free n value⟩
        · rw [table,Function.update_of_ne (Ne.symm out)]
          exact prints _
      · rw [table,Function.update_self]
        exact faces _ value
      · rw [form]
        exact prints m.base.kernel.pidCour
  exact all p

/-- In every such run a process reads from and writes to a console that exists. -/
theorem selects_inArray {m : Descriptors.Machine} (reached : Reach Faces m) (e : Event) :
    ∀ i ∈ selects m e, InArray i := by
  have prints : Prints (m.own.fileDesc 1).node := reach_prints reached _
  intro i member
  unfold selects at member
  split at member
  · split at member
    · cases member
    · exact List.mem_singleton.mp member ▸ prints.inArray
  · split at member
    · exact written_inArray prints _ i member
    · cases member
  · exact written_inArray prints _ i member
  · cases member

/-- A path in memory, from the start of user space on. -/
def pathAt (path : List UInt8) (a : Nat) : UInt8 := path.getD (a - 0x1000000) 0

/-- `/dev/vc/2` -/
def devVc : Nat → UInt8 := pathAt [47,100,101,118,47,118,99,47,50]
/-- `/dev/null` -/
def devNull : Nat → UInt8 := pathAt [47,100,101,118,47,110,117,108,108]

set_option maxRecDepth 4000 in
/-- Init chooses another console. -/
theorem selects_inArray_two : ∃ m : Descriptors.Machine, Reach Faces m ∧ m.InUser ∧
    selects m (.consRead 0x2000000 1) = [.to 2] ∧ ∀ i ∈ selects m (.consRead 0x2000000 1), InArray i := by
  let events : List Event := [.kernel .tick,.kernel .resume]
  have seen : (run step zeroed events).map (fun m => (m.resolved SYSCALL_SET_STDOUT 0x1000000 devVc,
      (step m (.setStdout 0x1000000 devVc)).map (fun m' => (decide m'.InUser,consoleIndex (m'.own.fileDesc 1).node)))) =
        some (some (.to (.console 2)),some (true,.to 2)) := by decide
  obtain ⟨m,ran,facts⟩ := Option.map_eq_some_iff.mp seen
  simp only [Prod.mk.injEq] at facts
  obtain ⟨value,after⟩ := facts
  obtain ⟨m',stepped,facts⟩ := Option.map_eq_some_iff.mp after
  simp only [Prod.mk.injEq,decide_eq_true_eq] at facts
  obtain ⟨user,index⟩ := facts
  have first : Reach Faces m := reach_of_run events (by simp [events,Faces]) zeroed_boot ran
  have faces : Faces m (.setStdout 0x1000000 devVc) := by
    intro node found
    obtain rfl := Option.some.inj (value.symm.trans found)
    exact .inr ⟨_,rfl,2,by decide,by decide,rfl⟩
  have reached : Reach Faces m' := .next first faces stepped
  exact ⟨m',reached,user,by simp [selects,index],selects_inArray reached _⟩

set_option maxRecDepth 4000 in
/-- Init chooses `/dev/null` and reads from the keyboard. -/
theorem selects_before : ¬ ∀ (m m' : Descriptors.Machine) (e : Event), Reach (fun _ _ => True) m → step m e = some m' →
    ∀ i ∈ selects m e, InArray i := by
  intro claim
  let events : List Event := [.kernel .tick,.kernel .resume,.setStdout 0x1000000 devNull]
  have seen : (run step zeroed events).map (fun m => ((step m (.consRead 0x2000000 1)).isSome,
      consoleIndex (m.own.fileDesc 1).node)) = some (true,.to (-91)) := by decide
  obtain ⟨m,ran,facts⟩ := Option.map_eq_some_iff.mp seen
  simp only [Prod.mk.injEq] at facts
  obtain ⟨enabled,index⟩ := facts
  obtain ⟨m',stepped⟩ := Option.isSome_iff_exists.mp enabled
  have reached : Reach (fun _ _ => True) m := reach_of_run events (fun _ _ _ => trivial) zeroed_boot ran
  have inside := claim m m' _ reached stepped (.to (-91)) (by simp [selects,index])
  exact absurd inside.1 (by decide)

end Psys.Stdout
