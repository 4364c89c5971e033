import Mathlib.Algebra.BigOperators.Group.Finset.Piecewise
import Mathlib.Algebra.Order.BigOperators.Group.Finset

/-!
Units of a resource in the hands of users: who takes and gives units, how many
each of them holds, and why at most one of them holds the only unit. Lists of
moves have their newest entry first.
-/
namespace Psys.Holding
universe u

variable {α : Type u}

inductive Move (α : Type u) where
  | take (p : α)
  | give (p : α)

def Move.user : Move α → α
  | .take p | .give p => p

def taken (moves : List (Move α)) : Nat := moves.countP (fun | .take _ => true | .give _ => false)
def given (moves : List (Move α)) : Nat := moves.countP (fun | .take _ => false | .give _ => true)

@[simp] theorem taken_nil : taken ([] : List (Move α)) = 0 := rfl
@[simp] theorem taken_take (p : α) (moves : List (Move α)) : taken (.take p :: moves) = taken moves + 1 := by
  simp [taken]
@[simp] theorem taken_give (p : α) (moves : List (Move α)) : taken (.give p :: moves) = taken moves := by simp [taken]
@[simp] theorem given_nil : given ([] : List (Move α)) = 0 := rfl
@[simp] theorem given_take (p : α) (moves : List (Move α)) : given (.take p :: moves) = given moves := by simp [given]
@[simp] theorem given_give (p : α) (moves : List (Move α)) : given (.give p :: moves) = given moves + 1 := by
  simp [given]

section
variable [DecidableEq α]

/-- What the users hold after a move. -/
def apply (move : Move α) (held : α → Int) : α → Int :=
  match move with
  | .take p => Function.update held p (held p + 1)
  | .give p => Function.update held p (held p - 1)

/-- What they hold after some moves. -/
def after (moves : List (Move α)) (held : α → Int) : α → Int := moves.foldr apply held

@[simp] theorem after_nil (held : α → Int) : after [] held = held := rfl

theorem sum_update {s : Finset α} {p : α} (inside : p ∈ s) (held : α → Int) (b : Int) :
    ∑ q ∈ s, Function.update held p b q = ∑ q ∈ s, held q + b - held p := by
  rw [Finset.sum_update_of_mem inside,Finset.sdiff_singleton_eq_erase,← Finset.add_sum_erase s held inside]
  omega

/-- The units in the hands of all users together change as many times as there
    are moves. -/
theorem sum_after {s : Finset α} {moves : List (Move α)} (inside : ∀ m ∈ moves, m.user ∈ s) (held : α → Int) :
    ∑ p ∈ s, after moves held p = ∑ p ∈ s, held p + taken moves - given moves := by
  induction moves with
  | nil => simp
  | cons move rest ih =>
    have tail := ih (fun m member => inside m (List.mem_cons_of_mem _ member))
    cases move with
    | take p =>
      have user : p ∈ s := inside _ List.mem_cons_self
      show ∑ q ∈ s, Function.update (after rest held) p (after rest held p + 1) q = _
      rw [sum_update user,tail,taken_take,given_take]
      omega
    | give p =>
      have user : p ∈ s := inside _ List.mem_cons_self
      show ∑ q ∈ s, Function.update (after rest held) p (after rest held p - 1) q = _
      rw [sum_update user,tail,taken_give,given_give]
      omega

/-- A user loses no more units than are given in its name. -/
theorem after_ge {moves : List (Move α)} {held : α → Int} {giver : α} (alone : ∀ p, .give p ∈ moves → p = giver)
    (p : α) : held p - (if p = giver then given moves else 0 : Nat) ≤ after moves held p := by
  induction moves with
  | nil => simp
  | cons move rest ih =>
    have tail := ih (fun q member => alone q (List.mem_cons_of_mem _ member))
    cases move with
    | take q =>
      show _ ≤ Function.update (after rest held) q (after rest held q + 1) p
      rw [given_take]
      by_cases same : p = q
      · subst same
        rw [Function.update_self]
        omega
      · rwa [Function.update_of_ne same]
    | give q =>
      obtain rfl := alone q List.mem_cons_self
      show _ ≤ Function.update (after rest held) q (after rest held q - 1) p
      rw [given_give]
      by_cases same : p = q
      · subst same
        rw [Function.update_self]
        simp only [if_true] at tail ⊢
        omega
      · rw [Function.update_of_ne same]
        simpa [same] using tail

end

/-- Nobody holds a unit beside the one who holds the only one. -/
theorem exclusive {s : Finset α} {held : α → Int} (positive : ∀ p ∈ s, 0 ≤ held p) (one : ∑ p ∈ s, held p ≤ 1) {p q : α}
    (inside : p ∈ s) (inside' : q ∈ s) (holds : 0 < held p) (holds' : 0 < held q) : p = q := by
  by_contra different
  classical
  have two := Finset.sum_le_sum_of_subset_of_nonneg (s := {p,q}) (t := s) (f := held)
    (Finset.insert_subset_iff.mpr ⟨inside,Finset.singleton_subset_iff.mpr inside'⟩) (fun r member _ => positive r member)
  rw [Finset.sum_pair different] at two
  omega

end Psys.Holding
