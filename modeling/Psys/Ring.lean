import Mathlib.Data.List.Chain
import Mathlib.Data.List.Nodup
import Mathlib.Data.List.TakeWhile
import Mathlib.Logic.Function.Basic

/-!
Intrusive circular doubly linked lists: a memory of link cells, the pointer
operations on it, and the list of elements that a well-formed memory stands
for. Every operation on a well-formed memory acts on that list; on a corrupted
memory it may follow NULL or walk forever, and then has no result.
-/
namespace Psys.Ring
universe u

/-- Where a link cell lies: the head of the list or inside an element. -/
inductive Addr (α : Type u) where
  | head
  | elem (a : α)
  deriving DecidableEq

/-- A link cell; `none` is the NULL pointer. -/
structure Link (α : Type u) where
  prev : Option (Addr α)
  next : Option (Addr α)

/-- The memory of all link cells. -/
abbrev Links (α : Type u) := Addr α → Link α

variable {α : Type u}

section Operations
variable [DecidableEq α]

/-- Memory with the two fields of a cell cleared. -/
def clear (m : Links α) (a : Addr α) : Links α := Function.update m a ⟨none,none⟩

/-- `a->next = b` -/
def setNext (m : Links α) (a : Addr α) (b : Option (Addr α)) : Links α :=
  Function.update m a { m a with next := b }
/-- `a->prev = b` -/
def setPrev (m : Links α) (a : Addr α) (b : Option (Addr α)) : Links α :=
  Function.update m a { m a with prev := b }

/-- An empty list. -/
def empty : Links α := fun a =>
  match a with
  | .head => ⟨some .head,some .head⟩
  | .elem _ => ⟨none,none⟩

/-- Forward from a cell to the first element that `stop` accepts, or to the
    head. No result when the walk meets NULL or does not end within `fuel`
    cells. -/
def seek (m : Links α) (stop : α → Bool) : Nat → Addr α → Option (Addr α)
  | 0, _ => none
  | fuel + 1, a =>
    match (m a).next with
    | none => none
    | some .head => some .head
    | some (.elem b) => if stop b then some (.elem b) else seek m stop fuel (.elem b)

/-- Link the cell `x` in before the cell `cur`. -/
def linkBefore (m : Links α) (x cur : Addr α) : Option (Links α) :=
  let m := setNext m x (some cur)
  let m := setPrev m x (m cur).prev
  match (m cur).prev with
  | none => none
  | some before =>
    let m := setNext m before (some x)
    some (setPrev m cur (some x))

/-- `queue_add`: insert `x` before the first element that `stop` accepts. The
    links of `x` must be clear. -/
def add (m : Links α) (fuel : Nat) (stop : α → Bool) (x : α) : Option (Links α) :=
  if (m (.elem x)).prev = none ∧ (m (.elem x)).next = none then
    (seek m stop fuel .head).bind (linkBefore m (.elem x))
  else none

/-- `queue_del`: unlink `x`, whose links must not be clear. -/
def del (m : Links α) (x : α) : Option (Links α) :=
  match (m (.elem x)).prev, (m (.elem x)).next with
  | some before, some _ =>
    let m := setNext m before (m (.elem x)).next
    match (m (.elem x)).next with
    | none => none
    | some after =>
      let m := setPrev m after (m (.elem x)).prev
      some (clear m (.elem x))
  | _, _ => none

/-- `queue_top`: the last element, or `some none` when the list is empty. -/
def top (m : Links α) : Option (Option α) :=
  if (m .head).next = some .head then some none
  else
    match (m .head).prev with
    | some (.elem x) => some (some x)
    | _ => none

/-- `queue_out`: the last element, unlinked. -/
def out (m : Links α) : Option (Option (α × Links α)) :=
  if (m .head).next = some .head then some none
  else
    match (m .head).prev with
    | some (.elem x) =>
      let m := setPrev m .head (m (.elem x)).prev
      match (m .head).prev with
      | none => none
      | some before =>
        let m := setNext m before (some .head)
        some (some (x,clear m (.elem x)))
    | _ => none

/-- The elements met going forward from a cell, at most `fuel` of them. -/
def walk (m : Links α) : Nat → Addr α → List α
  | 0, _ => []
  | fuel + 1, a =>
    match (m a).next with
    | some (.elem b) => b :: walk m fuel (.elem b)
    | _ => []

end Operations

/-! ### Well-formed memories -/

/-- Two neighbouring cells point at each other. -/
def Linked (m : Links α) (a b : Addr α) : Prop := (m a).next = some b ∧ (m b).prev = some a

/-- The cells of a list in the order of its `next` pointers, head first and last. -/
def cycle (l : List α) : List (Addr α) := .head :: l.map .elem ++ [.head]

/-- The memory is a well-formed circular list of the elements `l`. -/
structure IsRing (m : Links α) (l : List α) : Prop where
  nodup : l.Nodup
  chain : (cycle l).IsChain (Linked m)

theorem empty_ring : IsRing (empty : Links α) [] :=
  ⟨List.nodup_nil,by simp [cycle,Linked,empty]⟩

private theorem cycle_cut (l r : List α) : cycle (l ++ r) = (.head :: l.map .elem) ++ (r.map .elem ++ [.head]) := by
  simp [cycle]

/-- A chain stays one when the cells it reads through keep their pointers. -/
private theorem chain_frame {m m' : Links α} {cells : List (Addr α)} (chain : cells.IsChain (Linked m))
    (next : ∀ a ∈ cells.dropLast, (m' a).next = (m a).next) (prev : ∀ a ∈ cells.tail, (m' a).prev = (m a).prev) :
    cells.IsChain (Linked m') := by
  induction cells with
  | nil => exact .nil
  | cons a rest ih =>
    cases rest with
    | nil => exact .singleton a
    | cons b rest =>
      simp only [List.isChain_cons_cons] at chain ⊢
      refine ⟨⟨?_,?_⟩,ih chain.2 ?_ ?_⟩
      · rw [next a (by simp)]; exact chain.1.1
      · rw [prev b (by simp)]; exact chain.1.2
      · intro c member
        exact next c (by simp [List.dropLast_cons_of_ne_nil,member])
      · intro c member
        exact prev c (by simp only [List.tail_cons] at member ⊢; exact List.mem_cons_of_mem _ member)

/-- The cell just after a cut of the list: its first element, or the head. -/
def cut : List α → Addr α
  | [] => .head
  | b :: _ => .elem b

/-- The cell just before a cut: the last element, or the head. -/
def brink (l : List α) : Addr α := l.getLast?.elim .head .elem

private theorem front_last (l : List α) : (Addr.head :: l.map Addr.elem).getLast? = some (brink l) := by
  cases l using List.reverseRecOn with
  | nil => rfl
  | append_singleton l x => simp [brink,List.getLast?_cons]

private theorem back_first (r : List α) : (r.map Addr.elem ++ [Addr.head]).head? = some (cut r) := by
  cases r <;> rfl

/-- A chain through a cut: the cells before it, those after it, and the two
    cells at the cut, which point at each other. -/
private theorem chain_cut {m : Links α} (l r : List α) : (cycle (l ++ r)).IsChain (Linked m) ↔
    (Addr.head :: l.map Addr.elem).IsChain (Linked m) ∧ (r.map Addr.elem ++ [Addr.head]).IsChain (Linked m) ∧
      Linked m (brink l) (cut r) := by
  rw [cycle_cut,List.isChain_append,front_last,back_first]
  simp

theorem brink_ne {x : α} {l : List α} (fresh : x ∉ l) : brink l ≠ .elem x := by
  intro same
  have member : Addr.elem x ∈ Addr.head :: l.map Addr.elem := by
    rw [← same]; exact List.mem_of_getLast? (front_last l)
  simp [fresh] at member

theorem cut_ne {x : α} {r : List α} (fresh : x ∉ r) : cut r ≠ .elem x := by
  cases r with
  | nil => simp [cut]
  | cons b r =>
    simp only [cut,ne_eq,Addr.elem.injEq]
    exact fun same => fresh (by simp [same])

/-- The two parts of a chain around a cut stay chains when only the `next` of
    the cell before the cut, the `prev` of the cell after it and the links of
    an element outside the list change. -/
private theorem parts_frame {m : Links α} (m' : Links α) {l r : List α} (distinct : (l ++ r).Nodup) {x : α} (fresh : x ∉ l ++ r)
    (chainL : (Addr.head :: l.map Addr.elem).IsChain (Linked m))
    (chainR : (r.map Addr.elem ++ [Addr.head]).IsChain (Linked m))
    (next : ∀ a, a ≠ .elem x → a ≠ brink l → (m' a).next = (m a).next)
    (prev : ∀ a, a ≠ .elem x → a ≠ cut r → (m' a).prev = (m a).prev) :
    (Addr.head :: l.map Addr.elem).IsChain (Linked m') ∧ (r.map Addr.elem ++ [Addr.head]).IsChain (Linked m') := by
  have parts := List.nodup_append.mp distinct
  have mapped : ∀ {l : List α}, l.Nodup → (l.map Addr.elem).Nodup := fun h => h.map (fun a b same => by injection same)
  have freshL : ∀ a ∈ Addr.head :: l.map Addr.elem, a ≠ .elem x := by
    rintro a member rfl
    simp only [List.mem_cons,reduceCtorEq,List.mem_map,Addr.elem.injEq,exists_eq_right,false_or] at member
    exact fresh (List.mem_append_left _ member)
  have freshR : ∀ a ∈ r.map Addr.elem ++ [Addr.head], a ≠ .elem x := by
    rintro a member rfl
    simp only [List.mem_append,List.mem_map,Addr.elem.injEq,exists_eq_right,List.mem_singleton,reduceCtorEq,
      or_false] at member
    exact fresh (List.mem_append_right _ member)
  refine ⟨chain_frame chainL ?_ ?_,chain_frame chainR ?_ ?_⟩
  · intro a member
    refine next a (freshL a (List.dropLast_subset _ member)) ?_
    -- The cell before the cut is met last, and once.
    rintro rfl
    have whole := List.dropLast_append_getLast? (brink l) (front_last l)
    have nodup : (Addr.head :: l.map Addr.elem).Nodup := List.nodup_cons.mpr ⟨by simp,mapped parts.1⟩
    rw [← whole] at nodup
    exact (List.nodup_append.mp nodup).2.2 _ member _ (by simp) rfl
  · intro a member
    refine prev a (freshL a (List.mem_of_mem_tail member)) ?_
    rintro rfl
    cases r with
    | nil => simp [cut] at member
    | cons b r =>
      simp only [cut,List.tail_cons,List.mem_map,Addr.elem.injEq,exists_eq_right] at member
      exact parts.2.2 b member b (by simp) rfl
  · intro a member
    refine next a (freshR a (List.dropLast_subset _ member)) ?_
    rintro rfl
    rw [List.dropLast_concat] at member
    obtain ⟨y,inR,same⟩ := List.mem_map.mp member
    have inL : brink l ∈ Addr.head :: l.map Addr.elem := List.mem_of_getLast? (front_last l)
    rw [← same] at inL
    simp only [List.mem_cons,reduceCtorEq,List.mem_map,Addr.elem.injEq,exists_eq_right,false_or] at inL
    exact parts.2.2 y inL y inR rfl
  · intro a member
    refine prev a (freshR a (List.mem_of_mem_tail member)) ?_
    rintro rfl
    cases r with
    | nil => simp at member
    | cons b r =>
      simp only [List.map_cons,List.cons_append,List.tail_cons,cut,List.mem_append,List.mem_map,Addr.elem.injEq,
        exists_eq_right,List.mem_singleton,reduceCtorEq,or_false] at member
      exact (List.nodup_cons.mp parts.2.1).1 member

/-- What a search finds is accepted. -/
theorem seek_stops {m : Links α} {stop : α → Bool} {fuel : Nat} {a : Addr α} {b : α}
    (found : seek m stop fuel a = some (.elem b)) : stop b = true := by
  induction fuel generalizing a with
  | zero => simp [seek] at found
  | succ fuel ih =>
    unfold seek at found
    split at found
    · simp at found
    · simp at found
    · split at found
      · rename_i accepted
        simp only [Option.some.injEq,Addr.elem.injEq] at found
        exact found ▸ accepted
      · exact ih found

/-- Forward from the head, the first element that `stop` accepts. -/
theorem seek_ring {m : Links α} {l r : List α} (ring : IsRing m (l ++ r)) {stop : α → Bool}
    (skipped : ∀ b ∈ l, stop b = false) (stops : ∀ b ∈ r.head?, stop b = true) {fuel : Nat}
    (enough : l.length < fuel) : seek m stop fuel .head = some (cut r) := by
  have general : ∀ (l : List α) (a : Addr α) (fuel : Nat), (a :: l.map .elem ++ [cut r]).IsChain (Linked m) →
      (∀ b ∈ l, stop b = false) → l.length < fuel → seek m stop fuel a = some (cut r) := by
    intro l
    induction l with
    | nil =>
      intro a fuel chain _ enough
      obtain ⟨n,rfl⟩ := Nat.exists_eq_succ_of_ne_zero (Nat.ne_of_gt enough)
      simp only [List.map_nil,List.cons_append,List.nil_append,List.isChain_cons_cons] at chain
      simp only [seek,chain.1.1]
      cases r with
      | nil => rfl
      | cons b r => simp [cut,stops b (by simp)]
    | cons b l ih =>
      intro a fuel chain skipped enough
      obtain ⟨n,rfl⟩ := Nat.exists_eq_succ_of_ne_zero (Nat.ne_of_gt (Nat.lt_of_le_of_lt (Nat.zero_le _) enough))
      simp only [List.map_cons,List.cons_append,List.isChain_cons_cons] at chain
      simp only [seek,chain.1.1,skipped b (by simp)]
      exact ih (.elem b) n chain.2 (fun c member => skipped c (by simp [member])) (by simpa using enough)
  obtain ⟨chainL,_,link⟩ := (chain_cut l r).mp ring.chain
  refine general l .head fuel (chainL.append (.singleton _) ?_) skipped enough
  simpa [front_last] using link

/-- Going once around the list meets its elements in order. -/
theorem walk_ring {m : Links α} {l : List α} (ring : IsRing m l) {fuel : Nat} (enough : l.length ≤ fuel) :
    walk m fuel .head = l := by
  have general : ∀ (l : List α) (a : Addr α) (fuel : Nat), (a :: l.map .elem ++ [Addr.head]).IsChain (Linked m) →
      l.length ≤ fuel → walk m fuel a = l := by
    intro l
    induction l with
    | nil =>
      intro a fuel chain _
      simp only [List.map_nil,List.cons_append,List.nil_append,List.isChain_cons_cons] at chain
      cases fuel with
      | zero => rfl
      | succ n => simp [walk,chain.1.1]
    | cons b l ih =>
      intro a fuel chain enough
      cases fuel with
      | zero => simp at enough
      | succ n =>
        simp only [List.map_cons,List.cons_append,List.isChain_cons_cons] at chain
        simp only [walk,chain.1.1,ih (.elem b) n chain.2 (by simpa using enough)]
  exact general l .head fuel ring.chain enough

/-- One memory stands for one list. -/
theorem ring_unique {m : Links α} {l l' : List α} (ring : IsRing m l) (ring' : IsRing m l') : l = l' := by
  rw [← walk_ring ring (Nat.le_max_left l.length l'.length),walk_ring ring' (Nat.le_max_right l.length l'.length)]

/-- The cells around an element of a well-formed memory. -/
private theorem around {m : Links α} {l r : List α} {x : α} (ring : IsRing m (l ++ x :: r)) :
    (Addr.head :: l.map Addr.elem).IsChain (Linked m) ∧ (r.map Addr.elem ++ [Addr.head]).IsChain (Linked m) ∧
      Linked m (brink l) (.elem x) ∧ Linked m (.elem x) (cut r) := by
  obtain ⟨chainL,chainR,link⟩ := (chain_cut l (x :: r)).mp ring.chain
  rw [List.map_cons,List.cons_append,List.isChain_cons] at chainR
  exact ⟨chainL,chainR.2,link,chainR.1 _ (back_first r)⟩

private theorem occupied {m : Links α} {l : List α} {x : α} (ring : IsRing m (l ++ [x])) :
    (m .head).next ≠ some .head := by
  have chain := ring.chain
  cases l with
  | nil =>
    simp only [cycle,List.nil_append,List.map_cons,List.cons_append,List.isChain_cons_cons] at chain
    simp [chain.1.1]
  | cons b l =>
    simp only [cycle,List.cons_append,List.map_cons,List.isChain_cons_cons] at chain
    simp [chain.1.1]

/-! ### The operations on a well-formed memory -/

section Operations
variable [DecidableEq α]

theorem linkBefore_ring {m : Links α} {l r : List α} (ring : IsRing m (l ++ r)) {x : α} (fresh : x ∉ l ++ r) :
    ∃ m', linkBefore m (.elem x) (cut r) = some m' ∧ IsRing m' (l ++ x :: r) := by
  obtain ⟨chainL,chainR,link⟩ := (chain_cut l r).mp ring.chain
  have before := brink_ne (fun member => fresh (List.mem_append_left r member))
  have after := cut_ne (fun member => fresh (List.mem_append_right l member))
  let m' := setPrev (setNext (setPrev (setNext m (.elem x) (some (cut r))) (.elem x) (some (brink l))) (brink l)
    (some (.elem x))) (cut r) (some (.elem x))
  refine ⟨m',?_,List.nodup_middle.mpr (List.nodup_cons.mpr ⟨fresh,ring.nodup⟩),?_⟩
  · simp [m',linkBefore,setNext,setPrev,Function.update_of_ne after,link.2]
  · obtain ⟨frontL,frontR⟩ := parts_frame m' ring.nodup fresh chainL chainR
      (fun a other last => by by_cases same : a = cut r <;> simp_all [m',setNext,setPrev])
      (fun a other first => by by_cases same : a = brink l <;> simp_all [m',setNext,setPrev])
    refine (chain_cut l (x :: r)).mpr ⟨frontL,?_,?_⟩
    · rw [List.map_cons,List.cons_append,List.isChain_cons]
      rw [back_first]
      refine ⟨?_,frontR⟩
      intro y at_cut
      obtain rfl := Option.some.inj at_cut
      simp [Linked,m',setNext,setPrev,after.symm,before.symm]
    · show Linked m' (brink l) (.elem x)
      refine ⟨?_,?_⟩
      · by_cases same : brink l = cut r <;> simp [m',setNext,setPrev,same]
      · simp [m',setNext,setPrev,after.symm,before.symm]

/-- `queue_add` on a well-formed memory inserts at the place where `stop` ends
    the search. -/
theorem add_ring {m : Links α} {l r : List α} (ring : IsRing m (l ++ r)) {x : α} (fresh : x ∉ l ++ r)
    (unlinked : m (.elem x) = ⟨none,none⟩) {stop : α → Bool} (skipped : ∀ b ∈ l, stop b = false)
    (stops : ∀ b ∈ r.head?, stop b = true) {fuel : Nat} (enough : l.length < fuel) :
    ∃ m', add m fuel stop x = some m' ∧ IsRing m' (l ++ x :: r) := by
  obtain ⟨m',linked,ring'⟩ := linkBefore_ring ring fresh
  refine ⟨m',?_,ring'⟩
  simp [add,unlinked,seek_ring ring skipped stops enough,linked]

/-- Clearing the links of an element outside the list changes nothing. -/
theorem clear_ring {m : Links α} {l : List α} (ring : IsRing m l) {x : α} (fresh : x ∉ l) :
    IsRing (clear m (.elem x)) l := by
  have other : ∀ a ∈ cycle l, a ≠ .elem x := by
    rintro a member rfl
    simp [cycle,fresh] at member
  refine ⟨ring.nodup,chain_frame ring.chain ?_ ?_⟩
  · intro a member
    simp [clear,other a (List.dropLast_subset _ member)]
  · intro a member
    simp [clear,other a (List.mem_of_mem_tail member)]

/-- `queue_del` on a well-formed memory removes the element and clears its links. -/
theorem del_ring {m : Links α} {l r : List α} {x : α} (ring : IsRing m (l ++ x :: r)) :
    ∃ m', del m x = some m' ∧ IsRing m' (l ++ r) ∧ m' (.elem x) = ⟨none,none⟩ := by
  obtain ⟨chainL,chainR,linkL,linkR⟩ := around ring
  obtain ⟨fresh,distinct⟩ := List.nodup_cons.mp (List.nodup_middle.mp ring.nodup)
  have before := brink_ne (fun member => fresh (List.mem_append_left r member))
  have after := cut_ne (fun member => fresh (List.mem_append_right l member))
  let m' := clear (setPrev (setNext m (brink l) (some (cut r))) (cut r) (some (brink l))) (.elem x)
  refine ⟨m',?_,⟨distinct,?_⟩,by simp [m',clear]⟩
  · simp [m',del,linkL.2,linkR.1,setNext,Function.update_of_ne before.symm]
  · obtain ⟨frontL,frontR⟩ := parts_frame m' distinct fresh chainL chainR
      (fun a other last => by by_cases same : a = cut r <;> simp_all [m',setNext,setPrev,clear])
      (fun a other first => by by_cases same : a = brink l <;> simp_all [m',setNext,setPrev,clear])
    refine (chain_cut l r).mpr ⟨frontL,frontR,?_,?_⟩
    · by_cases same : brink l = cut r
      · simp [m',setNext,setPrev,clear,same,after]
      · simp [m',setNext,setPrev,clear,same,before]
    · simp [m',setNext,setPrev,clear,after]

/-- `queue_top` on a well-formed memory: the last element. -/
theorem top_ring {m : Links α} {l : List α} (ring : IsRing m l) : top m = some l.getLast? := by
  cases l using List.reverseRecOn with
  | nil =>
    have link := ((chain_cut [] []).mp ring.chain).2.2
    simp only [brink,cut,List.getLast?_nil,Option.elim_none] at link
    simp [top,link.1]
  | append_singleton l x =>
    obtain ⟨_,_,_,last⟩ := around ring
    have prev : (m .head).prev = some (.elem x) := last.2
    simp [top,occupied ring,prev]

theorem out_empty {m : Links α} (ring : IsRing m []) : out m = some none := by
  have link := ((chain_cut [] []).mp ring.chain).2.2
  simp only [brink,cut,List.getLast?_nil,Option.elim_none] at link
  simp [out,link.1]

/-- `queue_out` on a well-formed memory removes the last element. -/
theorem out_ring {m : Links α} {l : List α} {x : α} (ring : IsRing m (l ++ [x])) :
    ∃ m', out m = some (some (x,m')) ∧ IsRing m' l := by
  obtain ⟨m',deleted,ring',_⟩ := del_ring ring
  rw [List.append_nil] at ring'
  obtain ⟨_,_,first,last⟩ := around ring
  have fresh := (List.nodup_cons.mp (List.nodup_middle.mp ring.nodup)).1
  have before := brink_ne (fun member => fresh (List.mem_append_left [] member))
  have prev : (m .head).prev = some (.elem x) := last.2
  refine ⟨m',?_,ring'⟩
  -- Both functions do the same two writes, in opposite orders.
  have order : setNext (setPrev m .head (some (brink l))) (brink l) (some .head)
      = setPrev (setNext m (brink l) (some .head)) .head (some (brink l)) := by
    funext a
    by_cases aHead : a = .head <;> by_cases aBrink : a = brink l <;> simp_all [setNext,setPrev]
  have deleted : clear (setPrev (setNext m (brink l) (some .head)) .head (some (brink l))) (.elem x) = m' := by
    simpa [del,first.2,last.1,cut,setNext,Function.update_of_ne before.symm] using deleted
  rw [← order] at deleted
  simp only [out,occupied ring,if_false,prev,first.2]
  rw [← deleted]
  simp [setPrev]

end Operations

/-! ### An element of the list inserted again -/

theorem brink_mem {l l' : List α} (sub : l ⊆ l') : brink l ∈ cycle l' := by
  have member := List.mem_of_getLast? (front_last l)
  generalize brink l = a at member ⊢
  cases a with
  | head => simp [cycle]
  | elem x => simpa [cycle] using sub (by simpa using member)

/-- The cells of a well-formed memory have neighbours among them. -/
theorem ring_neighbours {m : Links α} {l : List α} (ring : IsRing m l) {a : Addr α} (member : a ∈ cycle l) :
    (∃ b ∈ cycle l, Linked m a b) ∧ ∃ b ∈ cycle l, Linked m b a := by
  have mem_cut : ∀ l r : List α, cut r ∈ cycle (l ++ r) := by
    intro l r
    rw [cycle_cut]
    exact List.mem_append_right _ (List.mem_of_mem_head? (back_first r))
  cases a with
  | head =>
    have first := ((chain_cut [] l).mp ring.chain).2.2
    have last := ((chain_cut l []).mp (by simpa using ring.chain)).2.2
    exact ⟨⟨cut l,mem_cut [] l,first⟩,⟨brink l,brink_mem (List.Subset.refl l),last⟩⟩
  | elem x =>
    have inside : x ∈ l := by simpa [cycle] using member
    obtain ⟨l,r,rfl⟩ := List.append_of_mem inside
    obtain ⟨_,_,before,after⟩ := around ring
    refine ⟨⟨cut r,?_,after⟩,⟨brink l,brink_mem (List.subset_append_left l _),before⟩⟩
    simpa using mem_cut (l ++ [x]) r

theorem next_back {m : Links α} {l : List α} (ring : IsRing m l) {a c : Addr α} (member : a ∈ cycle l)
    (next : (m a).next = some c) : c ∈ cycle l ∧ (m c).prev = some a := by
  obtain ⟨⟨b,inside,link⟩,_⟩ := ring_neighbours ring member
  obtain rfl : b = c := Option.some.inj (link.1.symm.trans next)
  exact ⟨inside,link.2⟩

theorem prev_back {m : Links α} {l : List α} (ring : IsRing m l) {a c : Addr α} (member : c ∈ cycle l)
    (prev : (m c).prev = some a) : (m a).next = some c := by
  obtain ⟨_,⟨b,_,link⟩⟩ := ring_neighbours ring member
  obtain rfl : b = a := Option.some.inj (link.2.symm.trans prev)
  exact link.1

/-- A search stays among the cells that `next` pointers lead to. -/
theorem seek_mem {m : Links α} {S : Addr α → Prop} (closed : ∀ a c, S a → (m a).next = some c → S c) {stop : α → Bool}
    {fuel : Nat} {a c : Addr α} (start : S a) (found : seek m stop fuel a = some c) : S c := by
  induction fuel generalizing a with
  | zero => simp [seek] at found
  | succ fuel ih =>
    unfold seek at found
    split at found
    · simp at found
    · rename_i next
      exact Option.some.inj found ▸ closed _ _ start next
    · rename_i b next
      split at found
      · exact Option.some.inj found ▸ closed _ _ start next
      · exact ih (closed _ _ start next) found

/-! ### Memories in any condition -/

section Closed
variable [DecidableEq α] {S : Addr α → Prop} {m m' : Links α}

/-- The pointers of the cells in `S` stay in `S`. -/
def Closed (S : Addr α → Prop) (m : Links α) : Prop :=
  ∀ a, S a → (∀ b, (m a).next = some b → S b) ∧ ∀ b, (m a).prev = some b → S b

theorem Closed.update (closed : Closed S m) (a : Addr α) {cell : Link α} (next : ∀ b, cell.next = some b → S b)
    (prev : ∀ b, cell.prev = some b → S b) : Closed S (Function.update m a cell) := by
  intro c inside
  by_cases same : c = a
  · subst same
    rw [Function.update_self]
    exact ⟨next,prev⟩
  · rw [Function.update_of_ne same]
    exact closed c inside

theorem Closed.clear (closed : Closed S m) (a : Addr α) : Closed S (clear m a) :=
  closed.update a (by simp) (by simp)

theorem Closed.setNext (closed : Closed S m) {a : Addr α} (inside : S a) {b : Option (Addr α)}
    (target : ∀ c, b = some c → S c) : Closed S (setNext m a b) :=
  closed.update a target (closed a inside).2

theorem Closed.setPrev (closed : Closed S m) {a : Addr α} (inside : S a) {b : Option (Addr α)}
    (target : ∀ c, b = some c → S c) : Closed S (setPrev m a b) :=
  closed.update a (closed a inside).1 target

theorem linkBefore_closed (closed : Closed S m) {x cur : Addr α} (inside : S x) (insideCur : S cur)
    (linked : linkBefore m x cur = some m') : Closed S m' := by
  have cell : ∀ c, some x = some c → S c := fun c same => Option.some.inj same ▸ inside
  have first := closed.setNext inside (b := some cur) (fun c same => Option.some.inj same ▸ insideCur)
  have second := first.setPrev inside (b := (Ring.setNext m x (some cur) cur).prev) (first cur insideCur).2
  unfold linkBefore at linked
  dsimp only at linked
  split at linked
  · simp at linked
  · rename_i before found
    have insideBefore := (second cur insideCur).2 before found
    rw [← Option.some.inj linked]
    exact (second.setNext insideBefore cell).setPrev insideCur cell

theorem add_closed (closed : Closed S m) (head : S .head) {x : α} (inside : S (.elem x)) {fuel : Nat} {stop : α → Bool}
    (added : add m fuel stop x = some m') : Closed S m' := by
  unfold add at added
  split at added
  · obtain ⟨cur,found,linked⟩ := Option.bind_eq_some_iff.mp added
    exact linkBefore_closed closed inside (seek_mem (fun a c member next => (closed a member).1 c next) head found) linked
  · simp at added

theorem del_closed (closed : Closed S m) {x : α} (inside : S (.elem x)) (deleted : del m x = some m') : Closed S m' := by
  unfold del at deleted
  split at deleted
  · rename_i before after prev next
    have insideBefore := (closed _ inside).2 before prev
    have first := closed.setNext insideBefore (b := (m (.elem x)).next) (closed _ inside).1
    dsimp only at deleted
    split at deleted
    · simp at deleted
    · rename_i after' next'
      have insideAfter := (first _ inside).1 after' next'
      rw [← Option.some.inj deleted]
      exact (first.setPrev insideAfter (first _ inside).2).clear _
  · simp at deleted

theorem top_closed (closed : Closed S m) (head : S .head) {x : α} (found : top m = some (some x)) : S (.elem x) := by
  unfold top at found
  split at found
  · simp at found
  · split at found
    · rename_i y prev
      rw [← Option.some.inj (Option.some.inj found)]
      exact (closed _ head).2 _ prev
    · simp at found

theorem out_closed (closed : Closed S m) (head : S .head) {x : α} (taken : out m = some (some (x,m'))) :
    S (.elem x) ∧ Closed S m' := by
  unfold out at taken
  split at taken
  · simp at taken
  · split at taken
    · rename_i y prev
      have inside := (closed _ head).2 _ prev
      have first := closed.setPrev head (b := (m (.elem y)).prev) (closed _ inside).2
      dsimp only at taken
      split at taken
      · simp at taken
      · rename_i before prev'
        have insideBefore := (first _ head).2 before prev'
        simp only [Option.some.injEq,Prod.mk.injEq] at taken
        obtain ⟨rfl,rfl⟩ := taken
        exact ⟨inside,(first.setNext insideBefore (fun c same => Option.some.inj same ▸ head)).clear _⟩
    · simp at taken

end Closed

/-- `queue_add` of an element that is in the list already, with its links
    cleared: the element before it still leads to it, but not back. -/
theorem add_again [DecidableEq α] {m : Links α} {l r : List α} {x : α} (ring : IsRing m (l ++ x :: r)) (fuel : Nat)
    (stop : α → Bool) :
    let m' := (add (clear m (.elem x)) fuel stop x).getD (clear m (.elem x))
    (m' (brink l)).next = some (.elem x) ∧ (m' (.elem x)).prev ≠ some (brink l) := by
  obtain ⟨_,_,link,_⟩ := around ring
  obtain ⟨fresh,_⟩ := List.nodup_cons.mp (List.nodup_middle.mp ring.nodup)
  have before : brink l ≠ .elem x := brink_ne (fun member => fresh (List.mem_append_left r member))
  have self : clear m (.elem x) (.elem x) = ⟨none,none⟩ := by simp [clear]
  have other : ∀ a, a ≠ .elem x → clear m (.elem x) a = m a := fun a different => by simp [clear,different]
  generalize clear m (.elem x) = m₀ at self other
  simp only [add,self,and_self,if_true]
  cases found : seek m₀ stop fuel .head with
  | none => simp [other _ before,link.1,self]
  | some cur =>
    rw [Option.bind_some]
    by_cases again : cur = .elem x
    · subst again
      simp [linkBefore,setNext,setPrev,self,other _ before,link.1]
    · have member : cur ∈ cycle (l ++ x :: r) := by
        refine seek_mem (fun a c inside next => ?_) (by simp [cycle]) found
        by_cases same : a = .elem x
        · simp [self,same] at next
        · exact (next_back ring inside (by rwa [other a same] at next)).1
      -- the cell before `cur` is not the one before `x`
      obtain ⟨_,previous,_,back⟩ := ring_neighbours ring member
      have elsewhere : previous ≠ brink l := by
        rintro rfl
        have next := prev_back ring member back.2
        exact again (Option.some.inj (next.symm.trans link.1))
      have prev : (m₀ cur).prev = some previous := by rw [other cur again]; exact back.2
      have linked : linkBefore m₀ (.elem x) cur = some (setPrev (setNext (setPrev (setNext m₀ (.elem x) (some cur))
          (.elem x) (some previous)) previous (some (.elem x))) cur (some (.elem x))) := by
        simp [linkBefore,setNext,setPrev,again,prev]
      rw [linked,Option.getD_some]
      have next : (m₀ (brink l)).next = some (.elem x) := by rw [other _ before]; exact link.1
      constructor
      · by_cases same : brink l = cur
        · subst same
          simp [setNext,setPrev,before,elsewhere.symm,next]
        · simp [setNext,setPrev,same,before,elsewhere.symm,next]
      · by_cases same : previous = .elem x
        · simp [setNext,setPrev,Ne.symm again,same,before.symm]
        · simp [setNext,setPrev,Ne.symm again,Ne.symm same,elsewhere]

end Psys.Ring
