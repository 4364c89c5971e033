import Mathlib.Logic.Function.Basic
import Mathlib.Data.List.Nodup

/-!
Chains of cells that are linked by pointers: what lies between two pointers,
why a chain that ends has no cycle, and how cells are put into a chain and
taken out of it.
-/
namespace Psys.Chains
universe u

variable {A : Type u} {next : A → Option A} {p q r : Option A} {as bs : List A} {a b h : A}

/-- The cells passed on the way from one pointer to another. -/
def Segment (next : A → Option A) : Option A → List A → Option A → Prop
  | p, [], q => p = q
  | p, a :: rest, q => p = some a ∧ Segment next (next a) rest q

@[simp] theorem segment_nil : Segment next p [] q ↔ p = q := Iff.rfl

@[simp] theorem segment_cons : Segment next p (a :: as) q ↔ p = some a ∧ Segment next (next a) as q := Iff.rfl

/-- Two segments after each other. -/
theorem segment_append : Segment next p (as ++ bs) q ↔ ∃ r, Segment next p as r ∧ Segment next r bs q := by
  induction as generalizing p with
  | nil => simp
  | cons a as ih => simp only [List.cons_append,segment_cons,ih,exists_and_left,and_assoc]

theorem segment_head (ends : Segment next p as none) : p = as.head? := by
  cases as with
  | nil => exact ends
  | cons a as => exact ends.1

/-- The way to the end is determined by where it starts. -/
theorem segment_unique (first : Segment next p as none) (second : Segment next p bs none) : as = bs := by
  induction as generalizing p bs with
  | nil =>
    obtain rfl : p = none := first
    cases bs with
    | nil => rfl
    | cons b bs => cases second.1
  | cons a as ih =>
    obtain ⟨rfl,rest⟩ := first
    cases bs with
    | nil => cases second
    | cons b bs =>
      obtain ⟨same,rest'⟩ := second
      cases same
      rw [ih rest rest']

/-- A way that ends passes no cell twice. -/
theorem segment_nodup (ends : Segment next p as none) : as.Nodup := by
  induction as generalizing p with
  | nil => exact List.nodup_nil
  | cons a as ih =>
    obtain ⟨-,rest⟩ := ends
    refine List.nodup_cons.mpr ⟨?_,ih rest⟩
    intro again
    -- From the second visit on, the way is the same as from the first.
    obtain ⟨before,later,rfl⟩ := List.append_of_mem again
    obtain ⟨_,-,_,cut⟩ := segment_append.mp rest
    have same := congrArg List.length (segment_unique rest cut)
    simp only [List.length_append,List.length_cons] at same
    omega

/-- The cells behind a first one, to the end. -/
def Behind (next : A → Option A) (h : A) (as : List A) : Prop := Segment next (some h) (h :: as) none

theorem behind_nodup (behind : Behind next h as) : (h :: as).Nodup := segment_nodup behind

/-- A cell of the chain points to the one after it. -/
theorem behind_next {front rest : List A} (behind : Behind next h as) (cut : h :: as = front ++ a :: rest) :
    next a = rest.head? := by
  unfold Behind at behind
  rw [cut,segment_append] at behind
  obtain ⟨_,-,_,later⟩ := behind
  exact segment_head later

theorem behind_nil (ends : next h = none) : Behind next h [] := ⟨rfl,ends⟩

variable [DecidableEq A]

/-- A pointer outside of a segment does not matter to it. -/
theorem segment_update (way : Segment next p as q) (other : b ∉ as) : Segment (Function.update next b r) p as q := by
  induction as generalizing p with
  | nil => exact way
  | cons a as ih =>
    rw [List.mem_cons,not_or] at other
    refine ⟨way.1,?_⟩
    rw [Function.update_of_ne (Ne.symm other.1)]
    exact ih way.2 other.2

/-- A cell is put behind the first one. -/
theorem behind_cons (behind : Behind next h as) (fresh : b ∉ h :: as) :
    Behind (Function.update (Function.update next b (next h)) h (some b)) h (b :: as) := by
  have nodup := behind_nodup behind
  rw [List.nodup_cons] at nodup
  rw [List.mem_cons,not_or] at fresh
  refine ⟨rfl,Function.update_self ..,?_⟩
  rw [Function.update_of_ne fresh.1,Function.update_self]
  exact segment_update (segment_update behind.2 fresh.2) nodup.1

/-- The cell after one of the chain is taken out of it. -/
theorem behind_unlink {front rest : List A} (behind : Behind next h as) (cut : h :: as = front ++ a :: b :: rest)
    (joined : h :: bs = front ++ a :: rest) : Behind (Function.update next a (next b)) h bs := by
  have nodup := behind_nodup behind
  unfold Behind at behind ⊢
  rw [cut] at behind nodup
  rw [joined]
  obtain ⟨r,before,here,-,later⟩ := segment_append.mp behind
  rw [List.nodup_append] at nodup
  obtain ⟨-,tail,apart⟩ := nodup
  rw [List.nodup_cons,List.mem_cons,not_or] at tail
  refine segment_append.mpr ⟨r,segment_update before ?_,here,?_⟩
  · exact fun member => apart a member a List.mem_cons_self rfl
  · rw [Function.update_self]
    exact segment_update later tail.1.2

end Psys.Chains
