import Mathlib.Data.List.Basic
import Mathlib.Logic.Function.Basic

/-!
Programs that access memory through pointers, where a pointer remembers which
argument its address was computed from. The accesses of a program are recorded,
also those that fault, and a program that never gets hold of an argument makes
no access that comes from it.
-/
namespace Psys.Provenance
universe u v

/-- An address, with the index of the argument it was computed from. -/
structure Pointer where
  address : Nat
  origin : Option Nat
  deriving DecidableEq

/-- Address arithmetic, in 32 bits. -/
def Pointer.plus (p : Pointer) (offset : Nat) : Pointer := ⟨(p.address + offset) % 4294967296,p.origin⟩

/-- The pointer `NULL`, which comes from no argument. -/
def null : Pointer := ⟨0,none⟩

@[simp] theorem plus_origin (p : Pointer) (offset : Nat) : (p.plus offset).origin = p.origin := rfl
@[simp] theorem null_origin : null.origin = none := rfl

/-- A state with memory. -/
structure World (σ : Type u) where
  state : σ
  mem : Nat → UInt8

/-- What a program does: its accesses in order, its value if it does not stop,
    and the world it leaves. -/
structure Outcome (σ : Type u) (α : Type v) where
  accesses : List Pointer
  value : Option α
  world : World σ

/-- A program over a state with memory. -/
def Prog (σ : Type u) (α : Type v) := World σ → Outcome σ α

variable {σ : Type u} {α β : Type v}

/-- The end of a program. -/
def Prog.done (a : α) : Prog σ α := fun s => ⟨[],some a,s⟩

/-- One program after another. -/
def Prog.seq (m : Prog σ α) (f : α → Prog σ β) : Prog σ β := fun s =>
  match (m s).value with
  | none => ⟨(m s).accesses,none,(m s).world⟩
  | some a =>
    let next := f a (m s).world
    ⟨(m s).accesses ++ next.accesses,next.value,next.world⟩

instance : Monad (Prog σ) where
  pure := Prog.done
  bind := Prog.seq

/-- The program stops. -/
def stop : Prog σ α := fun s => ⟨[],none,s⟩

/-- Unknown code is run with some pointers: it may access any of them. -/
def expose (given : List Pointer) : Prog σ α := fun s => ⟨given,none,s⟩

/-- The state. -/
def get : Prog σ σ := fun s => ⟨[],some s.state,s⟩

/-- A change of the state. -/
def modify (f : σ → σ) : Prog σ Unit := fun s => ⟨[],some (),{ s with state := f s.state }⟩

/-- Other programs run, and do what they do to the state and the memory. -/
def pause (others : World σ → World σ) : Prog σ Unit := fun s => ⟨[],some (),others s⟩

section Access
variable (mapped : Nat → Prop) [DecidablePred mapped]

/-- A byte is read. -/
def load (p : Pointer) : Prog σ UInt8 := fun s =>
  ⟨[p],if mapped p.address then some (s.mem p.address) else none,s⟩

/-- A byte is written. -/
def store (p : Pointer) (b : UInt8) : Prog σ Unit := fun s =>
  if mapped p.address then ⟨[p],some (),{ s with mem := Function.update s.mem p.address b }⟩ else ⟨[p],none,s⟩

/-- Bytes are written one after the other. -/
def storeBytes (p : Pointer) : List UInt8 → Prog σ Unit
  | [] => pure ()
  | b :: rest => do
    store mapped p b
    storeBytes (p.plus 1) rest

/-- So many bytes are read. -/
def loadBytes (p : Pointer) : Nat → Prog σ (List UInt8)
  | 0 => pure []
  | n + 1 => do
    let b ← load mapped p
    let rest ← loadBytes (p.plus 1) n
    return b :: rest

end Access

/-! ### Programs without accesses that come from an argument -/

/-- The program makes no access that comes from the argument. -/
def Quiet (arg : Nat) (m : Prog σ α) : Prop := ∀ s, ∀ p ∈ (m s).accesses, p.origin ≠ some arg

/-- The pointer does not come from the argument. -/
def Foreign (arg : Nat) (p : Pointer) : Prop := p.origin ≠ some arg

variable {arg : Nat} {p : Pointer}

theorem foreign_null : Foreign arg null := by simp [Foreign]

theorem Foreign.plus (foreign : Foreign arg p) (offset : Nat) : Foreign arg (p.plus offset) := foreign

theorem quiet_of_silent {m : Prog σ α} (silent : ∀ s, (m s).accesses = []) : Quiet arg m := by
  intro s p accessed
  rw [silent s] at accessed
  cases accessed

theorem quiet_pure (a : α) : Quiet arg (pure a : Prog σ α) := quiet_of_silent (fun _ => rfl)
theorem quiet_stop : Quiet arg (stop : Prog σ α) := quiet_of_silent (fun _ => rfl)
theorem quiet_get : Quiet arg (get : Prog σ σ) := quiet_of_silent (fun _ => rfl)
theorem quiet_modify (f : σ → σ) : Quiet arg (modify f) := quiet_of_silent (fun _ => rfl)
theorem quiet_pause (others : World σ → World σ) : Quiet arg (pause others) := quiet_of_silent (fun _ => rfl)

theorem bind_some {m : Prog σ α} {f : α → Prog σ β} {s : World σ} {a : α} (value : (m s).value = some a) :
    (m >>= f) s =
      ⟨(m s).accesses ++ (f a (m s).world).accesses,(f a (m s).world).value,(f a (m s).world).world⟩ := by
  show Prog.seq m f s = _
  unfold Prog.seq
  rw [value]

theorem bind_none {m : Prog σ α} {f : α → Prog σ β} {s : World σ} (value : (m s).value = none) :
    (m >>= f) s = ⟨(m s).accesses,none,(m s).world⟩ := by
  show Prog.seq m f s = _
  unfold Prog.seq
  rw [value]

theorem Quiet.bind {m : Prog σ α} {f : α → Prog σ β} (first : Quiet arg m) (second : ∀ a, Quiet arg (f a)) :
    Quiet arg (m >>= f) := by
  intro s p accessed
  cases value : (m s).value with
  | none =>
    rw [bind_none value] at accessed
    exact first s p accessed
  | some a =>
    rw [bind_some value,List.mem_append] at accessed
    rcases accessed with before | after
    · exact first s p before
    · exact second a _ p after

theorem quiet_expose {given : List Pointer} (foreign : ∀ p ∈ given, Foreign arg p) :
    Quiet arg (expose given : Prog σ α) := fun _ => foreign

theorem Quiet.ite {c : Prop} [Decidable c] {m n : Prog σ α} (yes : Quiet arg m) (no : Quiet arg n) :
    Quiet arg (if c then m else n) := by
  split
  · exact yes
  · exact no

section Access
variable {mapped : Nat → Prop} [DecidablePred mapped]

theorem quiet_load (foreign : Foreign arg p) : Quiet arg (load mapped p : Prog σ UInt8) := by
  intro s q accessed
  rw [List.mem_singleton.mp accessed]
  exact foreign

theorem quiet_store (foreign : Foreign arg p) (b : UInt8) : Quiet arg (store mapped p b : Prog σ Unit) := by
  intro s q accessed
  have only : (store mapped p b s).accesses = [p] := by
    unfold store
    split <;> rfl
  rw [only] at accessed
  rw [List.mem_singleton.mp accessed]
  exact foreign

theorem quiet_storeBytes (bytes : List UInt8) : ∀ {p : Pointer}, Foreign arg p →
    Quiet arg (storeBytes mapped p bytes : Prog σ Unit) := by
  induction bytes with
  | nil => exact fun _ => quiet_pure ()
  | cons b rest ih => exact fun foreign => (quiet_store foreign b).bind (fun _ => ih (foreign.plus 1))

theorem quiet_loadBytes (n : Nat) : ∀ {p : Pointer}, Foreign arg p →
    Quiet arg (loadBytes mapped p n : Prog σ (List UInt8)) := by
  induction n with
  | zero => exact fun _ => quiet_pure []
  | succ n ih =>
    intro p foreign
    exact (quiet_load foreign).bind (fun _ => (ih (foreign.plus 1)).bind (fun _ => quiet_pure _))

end Access

/-! ### Programs that do make one -/

/-- The program makes an access that comes from the argument. -/
def Touches (arg : Nat) (m : Prog σ α) (s : World σ) : Prop := ∃ p ∈ (m s).accesses, p.origin = some arg

theorem Touches.bind {m : Prog σ α} {s : World σ} (touches : Touches arg m s) (f : α → Prog σ β) :
    Touches arg (m >>= f) s := by
  obtain ⟨p,accessed,comes⟩ := touches
  refine ⟨p,?_,comes⟩
  cases value : (m s).value with
  | none =>
    rw [bind_none value]
    exact accessed
  | some a =>
    rw [bind_some value]
    exact List.mem_append_left _ accessed

/-- A quiet continuation adds nothing. -/
theorem touches_bind_iff {m : Prog σ α} {f : α → Prog σ β} (quiet : ∀ a, Quiet arg (f a)) (s : World σ) :
    Touches arg (m >>= f) s ↔ Touches arg m s := by
  constructor
  · rintro ⟨p,accessed,comes⟩
    cases value : (m s).value with
    | none =>
      rw [bind_none value] at accessed
      exact ⟨p,accessed,comes⟩
    | some a =>
      rw [bind_some value,List.mem_append] at accessed
      rcases accessed with before | after
      · exact ⟨p,before,comes⟩
      · exact absurd comes (quiet a _ p after)
  · exact fun touches => touches.bind f

theorem touches_expose {given : List Pointer} (member : p ∈ given) (comes : p.origin = some arg) (s : World σ) :
    Touches arg (expose given : Prog σ α) s := ⟨p,member,comes⟩

section Access
variable {mapped : Nat → Prop} [DecidablePred mapped]

theorem touches_load (comes : p.origin = some arg) (s : World σ) : Touches arg (load mapped p : Prog σ UInt8) s :=
  ⟨p,List.mem_singleton.mpr rfl,comes⟩

theorem touches_store (comes : p.origin = some arg) (b : UInt8) (s : World σ) :
    Touches arg (store mapped p b : Prog σ Unit) s := by
  refine ⟨p,?_,comes⟩
  unfold store
  split <;> exact List.mem_singleton.mpr rfl

end Access

theorem not_touches {m : Prog σ α} (quiet : Quiet arg m) (s : World σ) : ¬ Touches arg m s := by
  rintro ⟨p,accessed,comes⟩
  exact quiet s p accessed comes

/-! ### The state -/

section State
variable {τ : Type} {γ : Type}

theorem touches_modify_bind (g : τ → τ) (f : Unit → Prog τ γ) (s : World τ) :
    Touches arg (modify g >>= f) s ↔ Touches arg (f ()) ⟨g s.state,s.mem⟩ := Iff.rfl

theorem touches_get_bind (f : τ → Prog τ γ) (s : World τ) :
    Touches arg (get >>= f) s ↔ Touches arg (f s.state) s := Iff.rfl

theorem get_bind (f : τ → Prog τ γ) (s : World τ) : (get >>= f) s = f s.state s := bind_some rfl

theorem modify_bind (g : τ → τ) (f : Unit → Prog τ γ) (s : World τ) :
    (modify g >>= f) s = f () ⟨g s.state,s.mem⟩ := bind_some rfl

end State

/-! ### What programs do to the state -/

/-- Wherever the program ends, the state it leaves is related to the first one. -/
def Moves (R : σ → σ → Prop) (m : Prog σ α) : Prop := ∀ s, R s.state (m s).world.state

section Moves
variable {R : σ → σ → Prop} {mapped : Nat → Prop} [DecidablePred mapped]

theorem moves_modify {f : σ → σ} (moved : ∀ s, R s (f s)) : Moves R (modify f) := fun s => moved s.state

theorem Moves.bind [IsTrans σ R] {m : Prog σ α} {f : α → Prog σ β} (first : Moves R m) (second : ∀ a, Moves R (f a)) :
    Moves R (m >>= f) := by
  intro s
  cases value : (m s).value with
  | none =>
    rw [bind_none value]
    exact first s
  | some a =>
    rw [bind_some value]
    exact IsTrans.trans _ _ _ (first s) (second a (m s).world)

theorem Moves.ite {c : Prop} [Decidable c] {m n : Prog σ α} (yes : Moves R m) (no : Moves R n) :
    Moves R (if c then m else n) := by
  split
  · exact yes
  · exact no

variable [Std.Refl R]

theorem moves_of_still {m : Prog σ α} (still : ∀ s, (m s).world.state = s.state) : Moves R m := by
  intro s
  rw [still s]
  exact Std.Refl.refl s.state

theorem moves_pure (a : α) : Moves R (pure a : Prog σ α) := moves_of_still (fun _ => rfl)
theorem moves_stop : Moves R (stop : Prog σ α) := moves_of_still (fun _ => rfl)
theorem moves_expose (given : List Pointer) : Moves R (expose given : Prog σ α) := moves_of_still (fun _ => rfl)
theorem moves_get : Moves R (get : Prog σ σ) := moves_of_still (fun _ => rfl)
theorem moves_load (p : Pointer) : Moves R (load mapped p : Prog σ UInt8) := moves_of_still (fun _ => rfl)

theorem moves_store (p : Pointer) (b : UInt8) : Moves R (store mapped p b : Prog σ Unit) := by
  apply moves_of_still
  intro s
  unfold store
  split <;> rfl

theorem moves_storeBytes [IsTrans σ R] (bytes : List UInt8) : ∀ p, Moves R (storeBytes mapped p bytes : Prog σ Unit) := by
  induction bytes with
  | nil => exact fun _ => moves_pure ()
  | cons b rest ih => exact fun p => (moves_store p b).bind (fun _ => ih (p.plus 1))

end Moves

/-! ### What programs answer -/

/-- Every value of the program is one of those. -/
def Yields (P : α → Prop) (m : Prog σ α) : Prop := ∀ s a, (m s).value = some a → P a

section Yields
variable {P : β → Prop}

theorem yields_pure {b : β} (holds : P b) : Yields P (pure b : Prog σ β) := by
  intro s a value
  exact Option.some.inj value ▸ holds

theorem yields_of_none {m : Prog σ β} (none' : ∀ s, (m s).value = none) : Yields P m := by
  intro s a value
  rw [none' s] at value
  cases value

theorem Yields.bind {Q : α → Prop} {m : Prog σ α} {f : α → Prog σ β} (first : Yields Q m)
    (second : ∀ a, Q a → Yields P (f a)) : Yields P (m >>= f) := by
  intro s b value
  cases answer : (m s).value with
  | none =>
    rw [bind_none answer] at value
    cases value
  | some a =>
    rw [bind_some answer] at value
    exact second a (first s a answer) _ b value

theorem yields_bind (m : Prog σ α) {f : α → Prog σ β} (second : ∀ a, Yields P (f a)) : Yields P (m >>= f) := by
  have first : Yields (fun _ => True) m := fun _ _ _ => trivial
  exact first.bind (fun a _ => second a)

theorem Yields.ite {c : Prop} [Decidable c] {m n : Prog σ β} (yes : Yields P m) (no : Yields P n) :
    Yields P (if c then m else n) := by
  split
  · exact yes
  · exact no

end Yields

end Psys.Provenance
