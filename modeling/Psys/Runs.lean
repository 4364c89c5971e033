import Mathlib.Logic.Basic

/-!
Runs of a deterministic machine: states that a set of initial states reaches
by steps that meet a guard, runs from one state to another, and the rules that
carry an invariant along them.
-/
namespace Psys.Runs
universe u v

variable {State : Type u} {Event : Type v}

/-- The state after a list of events, if every one of them is enabled. -/
def run (step : State → Event → Option State) : State → List Event → Option State
  | s, [] => some s
  | s, e :: rest => (step s e).bind (fun next => run step next rest)

/-- States that a run reaches when every step of it meets `guard`. -/
inductive Reach (initial : State → Prop) (step : State → Event → Option State) (guard : State → Event → Prop) :
    State → Prop
  | start {s : State} : initial s → Reach initial step guard s
  | next {s s' : State} {e : Event} : Reach initial step guard s → guard s e → step s e = some s' →
      Reach initial step guard s'

/-- Runs between two states, every step of which meets `guard`. -/
inductive Leads (step : State → Event → Option State) (guard : State → Event → Prop) (s : State) : State → Prop
  | refl : Leads step guard s s
  | next {s' s'' : State} {e : Event} : Leads step guard s s' → guard s' e → step s' e = some s'' →
      Leads step guard s s''

variable {initial : State → Prop} {step : State → Event → Option State} {guard weaker : State → Event → Prop}

/-- Fewer steps are allowed, fewer states are reached. -/
theorem Reach.weaken (le : ∀ s e, guard s e → weaker s e) {s : State} (reached : Reach initial step guard s) :
    Reach initial step weaker s := by
  induction reached with
  | start first => exact .start first
  | next _ allowed stepped ih => exact .next ih (le _ _ allowed) stepped

/-- The invariant rule: what holds initially and survives every allowed step
    holds in every reached state. -/
theorem Reach.invariant {P : State → Prop} (first : ∀ s, initial s → P s)
    (preserved : ∀ s e s', P s → guard s e → step s e = some s' → P s') {s : State}
    (reached : Reach initial step guard s) : P s := by
  induction reached with
  | start h => exact first _ h
  | next _ allowed stepped ih => exact preserved _ _ _ ih allowed stepped

/-- The invariant rule with the help of an invariant that is already known. -/
theorem Reach.strengthen {P Q : State → Prop} (known : ∀ s, Reach initial step guard s → Q s)
    (first : ∀ s, initial s → P s)
    (preserved : ∀ s e s', Q s → P s → guard s e → step s e = some s' → P s') {s : State}
    (reached : Reach initial step guard s) : P s := by
  induction reached with
  | start h => exact first _ h
  | next before allowed stepped ih => exact preserved _ _ _ (known _ before) ih allowed stepped

theorem Reach.leads {s s' : State} (reached : Reach initial step guard s) (path : Leads step guard s s') :
    Reach initial step guard s' := by
  induction path with
  | refl => exact reached
  | next _ allowed stepped ih => exact .next ih allowed stepped

theorem Leads.weaken (le : ∀ s e, guard s e → weaker s e) {s s' : State} (path : Leads step guard s s') :
    Leads step weaker s s' := by
  induction path with
  | refl => exact .refl
  | next _ allowed stepped ih => exact .next ih (le _ _ allowed) stepped

/-- What holds at the start of a run and survives its steps holds at its end. -/
theorem Leads.invariant {P : State → Prop} {s s' : State} (path : Leads step guard s s') (first : P s)
    (preserved : ∀ t e t', P t → guard t e → step t e = some t' → P t') : P s' := by
  induction path with
  | refl => exact first
  | next _ allowed stepped ih => exact preserved _ _ _ ih allowed stepped

theorem Leads.trans {s t r : State} (first : Leads step guard s t) (second : Leads step guard t r) :
    Leads step guard s r := by
  induction second with
  | refl => exact first
  | next _ allowed stepped ih => exact .next ih allowed stepped

/-- A list of enabled events is a run, when the guard allows each of them. -/
theorem leads_of_run (events : List Event) (allowed : ∀ e ∈ events, ∀ s, guard s e) {s s' : State}
    (executed : run step s events = some s') : Leads step guard s s' := by
  induction events generalizing s with
  | nil =>
    simp only [run,Option.some.injEq] at executed
    exact executed ▸ .refl
  | cons e rest ih =>
    simp only [run,Option.bind_eq_some_iff] at executed
    obtain ⟨middle,stepped,tail⟩ := executed
    have head : Leads step guard s middle := .next .refl (allowed e (by simp) s) stepped
    exact head.trans (ih (fun e' member => allowed e' (by simp [member])) tail)

/-- The same from an initial state. -/
theorem reach_of_run (events : List Event) (allowed : ∀ e ∈ events, ∀ s, guard s e) {s s' : State}
    (first : initial s) (executed : run step s events = some s') : Reach initial step guard s' :=
  Reach.leads (.start first) (leads_of_run events allowed executed)

/-- The machine that takes only the steps that the guard allows. -/
def guarded (step : State → Event → Option State) (guard : State → Event → Prop) [∀ s e, Decidable (guard s e)]
    (s : State) (e : Event) : Option State := if guard s e then step s e else none

/-- A run of the guarded machine, for a guard that looks at the states. -/
theorem reach_of_guarded [∀ s e, Decidable (guard s e)] {events : List Event} {s s' : State}
    (reached : Reach initial step guard s) (executed : run (guarded step guard) s events = some s') :
    Reach initial step guard s' := by
  induction events generalizing s with
  | nil =>
    simp only [run,Option.some.injEq] at executed
    exact executed ▸ reached
  | cons e rest ih =>
    simp only [run,Option.bind_eq_some_iff,guarded,Option.ite_none_right_eq_some] at executed
    obtain ⟨_,⟨allowed,stepped⟩,tail⟩ := executed
    exact ih (.next reached allowed stepped) tail

theorem run_append (s : State) (first second : List Event) :
    run step s (first ++ second) = (run step s first).bind (fun t => run step t second) := by
  induction first generalizing s with
  | nil => rfl
  | cons e rest ih =>
    simp only [List.cons_append,run,Option.bind_assoc]
    exact congrArg _ (funext ih)

/-- A run in two parts, with what is seen after each of them. -/
theorem run_parts {α : Type u} {β : Type v} {f : State → α} {g : State → β} {s : State} {first second : List Event}
    {a : α} {b : β} (seen : (run step s first).map f = some a) (later : (run step s (first ++ second)).map g = some b) :
    ∃ t t', run step s first = some t ∧ run step t second = some t' ∧ f t = a ∧ g t' = b := by
  obtain ⟨t,ran,isA⟩ := Option.map_eq_some_iff.mp seen
  obtain ⟨t',ran',isB⟩ := Option.map_eq_some_iff.mp later
  rw [run_append,ran,Option.bind_some] at ran'
  exact ⟨t,t',ran,ran',isA,isB⟩

end Psys.Runs
