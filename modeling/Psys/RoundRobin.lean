import Mathlib.Data.List.Rotate
import Psys.Scheduling

/-!
The turns of processes of one priority. While nothing else happens, every call
of `scheduler` gives the processor to the next of them and puts the current one
behind the others, and those of lower priority keep their places.
-/
namespace Psys.RoundRobin
open Psys.State Psys.Context Psys.Sys Psys.System Psys.ProcQueue Psys.Runs Psys.Scheduling

/-- `turns` are the current process and those that wait for a turn with it, in
    the order of dispatch; the processes of `low` have a lower priority. -/
structure Turns (k : Procs) (low turns : List Int) (priority : Int) : Prop where
  cour : turns.head? = some k.pidCour
  ready : Ready k (low ++ turns.tail.reverse)
  busy : k.pidCour ≠ 0
  active : (k.tabProc k.pidCour).state = .active
  lower : ∀ x ∈ low, (k.tabProc x).priority < priority
  equal : ∀ x ∈ turns, (k.tabProc x).priority = priority

/-- The processes of `turns` are the only ones whose state changes. -/
structure Rotated (k k' : Procs) (turns : List Int) : Prop where
  dispatched : Dispatched k.tabProc k'.tabProc
  others : ∀ x ∉ turns, (k'.tabProc x).state = (k.tabProc x).state

theorem Rotated.refl (k : Procs) (turns : List Int) : Rotated k k turns := ⟨.refl _,fun _ _ => rfl⟩

theorem Rotated.trans {k k' k'' : Procs} {turns : List Int} (first : Rotated k k' turns) (second : Rotated k' k'' turns) :
    Rotated k k'' turns :=
  ⟨first.dispatched.trans second.dispatched,fun x out => (second.others x out).trans (first.others x out)⟩

/-- Two ways to cut a list by priority. -/
private theorem cut_unique {k : Procs} {bound : Int} {l r l' r' : List Int} (same : l ++ r = l' ++ r')
    (lower : ∀ a ∈ l, (k.tabProc a).priority < bound) (upper : ∀ b ∈ r, bound ≤ (k.tabProc b).priority)
    (lower' : ∀ a ∈ l', (k.tabProc a).priority < bound) (upper' : ∀ b ∈ r', bound ≤ (k.tabProc b).priority) :
    l = l' ∧ r = r' := by
  let low := fun a => decide ((k.tabProc a).priority < bound)
  have part : ∀ {l r : List Int}, (∀ a ∈ l, (k.tabProc a).priority < bound) →
      (∀ b ∈ r, bound ≤ (k.tabProc b).priority) → (l ++ r).filter low = l := by
    intro l r lower upper
    have kept : l.filter low = l := List.filter_eq_self.mpr (fun a member => by simpa [low] using lower a member)
    have dropped : r.filter low = [] := List.filter_eq_nil_iff.mpr (fun b member => by
      simpa [low] using upper b member)
    rw [List.filter_append,kept,dropped,List.append_nil]
  have cut : l = l' := by rw [← part lower upper,same,part lower' upper']
  subst cut
  exact ⟨rfl,List.append_cancel_left same⟩

/-- The next process takes its turn, and the current one goes behind the
    others. -/
private theorem Turns.passes {k : Procs} {low rest : List Int} {a b priority : Int}
    (turns : Turns k low (a :: b :: rest) priority) :
    Turns (scheduler k) low (b :: (rest ++ [a])) priority ∧ Rotated k (scheduler k) (a :: b :: rest) := by
  have cour : k.pidCour = a := by simpa using turns.cour.symm
  have equalA : (k.tabProc k.pidCour).priority = priority := cour ▸ turns.equal a (by simp)
  have equalB : (k.tabProc b).priority = priority := turns.equal b (by simp)
  have ready : Ready k ((low ++ rest.reverse) ++ [b]) := by
    simpa [List.append_assoc] using turns.ready
  have preempted : (k.tabProc b).priority ≥ (k.tabProc k.pidCour).priority := by omega
  have switched := scheduler_switches ready turns.busy turns.active preempted
  obtain ⟨l₁,l₂,split,ready',lower,upper⟩ := scheduler_requeues ready turns.busy turns.active preempted
  obtain ⟨rfl,rfl⟩ := cut_unique split (fun x member => by rw [equalA]; exact turns.lower x member)
    (fun x member => by rw [equalA,turns.equal x (by simp [List.mem_reverse.mp member])]) lower upper
  have dispatched := (scheduler_scheduled turns.ready).dispatched
  have chosen : (scheduler k).pidCour = b := by rw [switched]; rfl
  have inTab : InTab b := ready.inTab b (by simp)
  refine ⟨⟨by simp [chosen],?_,?_,?_,?_,?_⟩,dispatched,fun x out => ?_⟩
  · simpa [cour] using ready'
  · rw [chosen]
    rintro rfl
    simp [InTab] at inTab
  · rw [chosen,switched]
    simp [switchTo,inTab]
  · intro x member
    rw [dispatched.priority x]
    exact turns.lower x member
  · intro x member
    rw [dispatched.priority x]
    refine turns.equal x ?_
    simp only [List.mem_cons,List.mem_append,List.not_mem_nil,or_false] at member ⊢
    tauto
  · simp only [List.mem_cons,not_or] at out
    rw [switched]
    simp [switchTo,cour,out.1,out.2.1]

/-- Nothing else of this priority is runnable: the current process goes on. -/
private theorem Turns.continues {k : Procs} {low : List Int} {a priority : Int} (turns : Turns k low [a] priority) :
    scheduler k = k := by
  have cour : k.pidCour = a := by simpa using turns.cour.symm
  have ready : Ready k low := by simpa using turns.ready
  cases low using List.reverseRecOn with
  | nil => exact scheduler_alone ready turns.active
  | append_singleton l x =>
    refine scheduler_same ready turns.busy turns.active ?_
    have := turns.lower x (by simp)
    have := turns.equal a (by simp)
    rw [cour]
    omega

/-- One call of `scheduler`. -/
theorem Turns.step {k : Procs} {low turns : List Int} {priority : Int} (valid : Turns k low turns priority) :
    Turns (scheduler k) low (turns.rotate 1) priority ∧ Rotated k (scheduler k) turns := by
  match turns with
  | [] => exact absurd valid.cour (by simp)
  | [a] =>
    rw [valid.continues]
    exact ⟨by simpa using valid,.refl _ _⟩
  | a :: b :: rest => simpa using valid.passes

/-- Any number of calls. -/
theorem Turns.run {k : Procs} {low turns : List Int} {priority : Int} (valid : Turns k low turns priority) (i : Nat) :
    Turns (scheduler^[i] k) low (turns.rotate i) priority ∧ Rotated k (scheduler^[i] k) turns := by
  induction i with
  | zero => exact ⟨by simpa using valid,.refl _ _⟩
  | succ i ih =>
    obtain ⟨before,rotated⟩ := ih
    obtain ⟨after,again⟩ := before.step
    rw [Function.iterate_succ_apply']
    refine ⟨by simpa [List.rotate_rotate] using after,rotated.trans ⟨again.dispatched,fun x out => ?_⟩⟩
    exact again.others x (by simpa using out)

/-- Two states in which the same processes have come round. -/
theorem Turns.state {k k' : Procs} {low turns : List Int} {priority : Int} (valid : Turns k low turns priority)
    (again : Turns k' low turns priority) (rotated : Rotated k k' turns) (x : Int) :
    (k'.tabProc x).state = (k.tabProc x).state := by
  match turns with
  | [] => exact absurd valid.cour (by simp)
  | a :: rest =>
    have cour : k.pidCour = a := by simpa using valid.cour.symm
    have cour' : k'.pidCour = a := by simpa using again.cour.symm
    by_cases current : x = a
    · rw [current,← cour,valid.active,cour,← cour',again.active]
    · by_cases member : x ∈ rest
      · have waits : x ∈ low ++ (a :: rest).tail.reverse := by simp [member]
        rw [((again.ready.member x).mp waits).2,((valid.ready.member x).mp waits).2]
      · exact rotated.others x (by simp [current,member])

/-- A list cut by the priority of the current process, when none has a higher
    one. -/
private theorem Ready.turns {k : Procs} {q peers : List Int} (ready : Ready k q) (busy : k.pidCour ≠ 0)
    (active : (k.tabProc k.pidCour).state = .active)
    (order : q.reverse.filter (fun x => decide ((k.tabProc k.pidCour).priority ≤ (k.tabProc x).priority)) = peers)
    (equal : ∀ x ∈ peers, (k.tabProc x).priority = (k.tabProc k.pidCour).priority) :
    ∃ low, q = low ++ peers.reverse ∧ Turns k low (k.pidCour :: peers) (k.tabProc k.pidCour).priority := by
  obtain ⟨low,high,rfl,lower,upper⟩ := ready.toQueue.divide (k.tabProc k.pidCour).priority
  have dropped : low.reverse.filter (fun x => decide ((k.tabProc k.pidCour).priority ≤ (k.tabProc x).priority)) = [] :=
    List.filter_eq_nil_iff.mpr (fun x member => by simpa using lower x (by simpa using member))
  have kept : high.reverse.filter (fun x => decide ((k.tabProc k.pidCour).priority ≤ (k.tabProc x).priority)) =
      high.reverse := List.filter_eq_self.mpr (fun x member => by simpa using upper x (by simpa using member))
  rw [List.reverse_append,List.filter_append,dropped,kept,List.append_nil] at order
  have whole : high = peers.reverse := by rw [← order,List.reverse_reverse]
  subst whole
  refine ⟨low,rfl,rfl,by simpa using ready,busy,active,lower,fun x member => ?_⟩
  rcases List.mem_cons.mp member with rfl | member
  · rfl
  · exact equal x member

/-- The active process and the `peers`, which are the ready processes of at
    least its priority and have the same: calls of `scheduler` dispatch the
    peers in the order of the list, then the process itself, and leave the list,
    the current process and every descriptor as they were, less the dead ones
    that are freed. The others keep their places and never run. -/
theorem scheduler_rotates {k : Procs} {q peers : List Int} (ready : Ready k q) (busy : k.pidCour ≠ 0)
    (active : (k.tabProc k.pidCour).state = .active)
    (order : q.reverse.filter (fun x => decide ((k.tabProc k.pidCour).priority ≤ (k.tabProc x).priority)) = peers)
    (equal : ∀ x ∈ peers, (k.tabProc x).priority = (k.tabProc k.pidCour).priority) :
    (∀ i ≤ peers.length, (peers ++ [k.pidCour])[i]? = some (scheduler^[i+1] k).pidCour) ∧
      (Ready (scheduler^[peers.length+1] k) q ∧ (scheduler^[peers.length+1] k).pidCour = k.pidCour ∧
        ∀ x, ((scheduler^[peers.length+1] k).tabProc x).state = (k.tabProc x).state ∧
          (scheduler^[peers.length+1] k).tabProc x =
            { k.tabProc x with valide := ((scheduler^[peers.length+1] k).tabProc x).valide } ∧
          (((scheduler^[peers.length+1] k).tabProc x).valide = (k.tabProc x).valide ∨ (k.tabProc x).state = .dead)) ∧
      ∃ low, q = low ++ peers.reverse ∧
        (∀ x ∈ low, (k.tabProc x).priority < (k.tabProc k.pidCour).priority) ∧
        ∀ i, Ready (scheduler^[i] k) (low ++ ((k.pidCour :: peers).rotate i).tail.reverse) ∧
          (scheduler^[i] k).pidCour ∈ k.pidCour :: peers ∧ (scheduler^[i] k).pidCour ∉ low := by
  obtain ⟨low,split,turns⟩ := Ready.turns ready busy active order equal
  obtain ⟨around,rotated⟩ := turns.run (peers.length+1)
  have back : (k.pidCour :: peers).rotate (peers.length+1) = k.pidCour :: peers :=
    List.rotate_length (k.pidCour :: peers)
  rw [back] at around
  have cour : (scheduler^[peers.length+1] k).pidCour = k.pidCour := by simpa using around.cour.symm
  refine ⟨fun i bound => ?_,⟨?_,cour,fun x => ?_⟩,low,split,turns.lower,fun i => ?_⟩
  · rcases Nat.lt_or_eq_of_le bound with inside | rfl
    · have first := (turns.run (i+1)).1.cour
      rw [List.head?_rotate (by simpa using inside)] at first
      simpa [List.getElem?_append_left inside] using first
    · simpa using cour.symm
  · have listed : low ++ (k.pidCour :: peers).tail.reverse = q := by simp [split]
    exact listed ▸ around.ready
  · have state := turns.state around rotated x
    refine ⟨state,?_,(rotated.dispatched.valide x).imp_right And.right⟩
    conv_lhs => rw [rotated.dispatched.same x]
    rw [state]
  · obtain ⟨now,_⟩ := turns.run i
    have member : (scheduler^[i] k).pidCour ∈ k.pidCour :: peers :=
      List.mem_rotate.mp (List.mem_of_head? now.cour)
    refine ⟨now.ready,member,fun inLow => ?_⟩
    have := turns.lower _ inLow
    have := turns.equal _ member
    omega

/-- A child of priority 128 takes turns with its father of that priority, and
    one of priority 2 does not run. -/
theorem scheduler_rotates_three : ∃ (k : Kernel) (q peers : List Int), Reach (fun _ e => Plain e) k ∧
    Ready k.toProcs q ∧ 2 ∈ peers ∧ 3 ∈ q ∧ k.pidCour = 4 ∧
    (∀ i ≤ peers.length, (peers ++ [k.pidCour])[i]? = some (scheduler^[i+1] k.toProcs).pidCour) ∧
      (Ready (scheduler^[peers.length+1] k.toProcs) q ∧ (scheduler^[peers.length+1] k.toProcs).pidCour = k.pidCour ∧
        ∀ x, ((scheduler^[peers.length+1] k.toProcs).tabProc x).state = (k.tabProc x).state ∧
          (scheduler^[peers.length+1] k.toProcs).tabProc x =
            { k.tabProc x with valide := ((scheduler^[peers.length+1] k.toProcs).tabProc x).valide } ∧
          (((scheduler^[peers.length+1] k.toProcs).tabProc x).valide = (k.tabProc x).valide ∨
            (k.tabProc x).state = .dead)) ∧
      ∃ low, q = low ++ peers.reverse ∧
        (∀ x ∈ low, (k.tabProc x).priority < (k.tabProc k.pidCour).priority) ∧
        ∀ i, Ready (scheduler^[i] k.toProcs) (low ++ ((k.pidCour :: peers).rotate i).tail.reverse) ∧
          (scheduler^[i] k.toProcs).pidCour ∈ k.pidCour :: peers ∧ (scheduler^[i] k.toProcs).pidCour ∉ low := by
  let events : List Event := [.tick,.resume,.call (.start 512 128 .granted),.resume,
    .call (.start 512 2 .granted),.resume,.call (.start 512 128 .granted),.resume]
  have seen : (run step zeroed events).map (fun k => decide (k.pidCour = 4 ∧ (k.tabProc 4).state = .active ∧
      (k.tabProc 4).priority = 128 ∧ (InUse k.tabProc 2 ∧ (k.tabProc 2).state = .activable) ∧
      (k.tabProc 2).priority = 128 ∧ (InUse k.tabProc 3 ∧ (k.tabProc 3).state = .activable) ∧
      ∀ p ∈ pids, 128 ≤ (k.tabProc p).priority → (k.tabProc p).priority = 128)) = some true := by decide
  obtain ⟨k,ran,facts⟩ := Option.map_eq_some_iff.mp seen
  obtain ⟨cour,active,current,waits,same,waits',equal⟩ := of_decide_eq_true facts
  have reached : Reach (fun _ e => Plain e) k := reach_of_run events (by simp [events,Plain]) zeroed_boot ran
  obtain ⟨q,ready⟩ := (reach_plain reached).stable.ready
  have listed : 2 ∈ q := (ready.member 2).mpr waits
  refine ⟨k,q,_,reached,ready,?_,(ready.member 3).mpr waits',cour,
    scheduler_rotates ready (by simp [cour]) (by rw [cour]; exact active) rfl (fun x member => ?_)⟩
  · exact List.mem_filter.mpr ⟨List.mem_reverse.mpr listed,by simp [cour,current,same]⟩
  · obtain ⟨inQ,high⟩ := List.mem_filter.mp member
    rw [cour,current] at high ⊢
    exact equal x ((mem_pids x).mpr (ready.inTab x (List.mem_reverse.mp inQ))) (by simpa using high)

end Psys.RoundRobin
