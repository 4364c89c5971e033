import Psys.Blocks
import Psys.Chains

/-!
The lists of `list.c` as they are in memory: cells that point to each other, a
first one without an element, and loops that walk along them. What a caller
sees are lists of numbers.
-/
namespace Psys.Lists
open Psys.Chains (Segment Behind segment_nodup behind_next behind_nodup behind_nil behind_cons behind_unlink)

/-! ### Translation -/

/-- What a block was asked for: its size, that is. -/
inductive Kind where
  | cell
  | iterator
  deriving DecidableEq

/-- Memory, as far as `list.c` looks at it. The addresses do not include `NULL`. -/
structure Memory (A : Type) where
  /-- The blocks that are handed out. -/
  live : A → Option Kind
  element : A → Int
  next : A → Option A
  curPos : A → Option A

/-- Why a call does not return: an assertion fails, an access is not inside of a
    block, or a loop makes more turns than it was given. -/
inductive Stop where
  | panic
  | fault
  | turns
  deriving DecidableEq

section Translation
variable {A : Type} [DecidableEq A]

/-- An access through a pointer to a block of a kind. -/
def Memory.at (m : Memory A) (k : Kind) : Option A → Except Stop A
  | none => .error .fault
  | some a => if m.live a = some k then .ok a else .error .fault

/-- `l->element` -/
def Memory.elementOf (m : Memory A) (l : Option A) : Except Stop Int := do
  let a ← m.at .cell l
  return m.element a

/-- `l->next` -/
def Memory.nextOf (m : Memory A) (l : Option A) : Except Stop (Option A) := do
  let a ← m.at .cell l
  return m.next a

/-- `l->element = element` -/
def Memory.setElement (m : Memory A) (l : Option A) (element : Int) : Except Stop (Memory A) := do
  let a ← m.at .cell l
  return { m with element := Function.update m.element a element }

/-- `l->next = next` -/
def Memory.setNext (m : Memory A) (l : Option A) (next : Option A) : Except Stop (Memory A) := do
  let a ← m.at .cell l
  return { m with next := Function.update m.next a next }

/-- `it->cur_pos` -/
def Memory.curPosOf (m : Memory A) (it : Option A) : Except Stop (Option A) := do
  let a ← m.at .iterator it
  return m.curPos a

/-- `it->cur_pos = pos` -/
def Memory.setCurPos (m : Memory A) (it : Option A) (pos : Option A) : Except Stop (Memory A) := do
  let a ← m.at .iterator it
  return { m with curPos := Function.update m.curPos a pos }

/-- `assert(p != NULL)` -/
def assertSome (p : Option A) : Except Stop Unit := if p = none then .error .panic else .ok ()

/-- `mem_alloc`, with what it answers. A new block keeps what was in memory. -/
def memAlloc (m : Memory A) (k : Kind) : Option A → Memory A × Option A
  | none => (m,none)
  | some a => ({ m with live := Function.update m.live a (some k) },some a)

/-- `mem_free` -/
def memFree (m : Memory A) (k : Kind) (block : Option A) : Except Stop (Memory A) := do
  let a ← m.at k block
  return { m with live := Function.update m.live a none }

/-- `list_alloc` -/
def listAlloc (m : Memory A) (answer : Option A) : Memory A × Option A := memAlloc m .cell answer

/-- `list_free_block` -/
def listFreeBlock (m : Memory A) (block : Option A) : Except Stop (Memory A) := memFree m .cell block

/-- `list_new` -/
def listNew (m : Memory A) (answer : Option A) : Except Stop (Memory A × Option A) := do
  let (m,l) := listAlloc m answer
  if l = none then return (m,none)
  else
    let m ← m.setElement l (-1)
    let m ← m.setNext l none
    return (m,l)

/-- `list_is_empty` -/
def listIsEmpty (m : Memory A) (l : Option A) : Except Stop Bool := do
  assertSome l
  let next ← m.nextOf l
  return next = none

/-- `list_put_first` -/
def listPutFirst (m : Memory A) (l : Option A) (element : Int) (answer : Option A) : Except Stop (Memory A) := do
  assertSome l
  if 0 ≤ element then
    let (m,block) := listAlloc m answer
    let m ← m.setElement block element
    let next ← m.nextOf l
    let m ← m.setNext block next
    m.setNext l block
  else .error .panic

/-- `list_get_first` -/
def listGetFirst (m : Memory A) (l : Option A) : Except Stop (Memory A × Int) := do
  assertSome l
  if (← listIsEmpty m l) then return (m,-1)
  else
    let toFree ← m.nextOf l
    let toReturn ← m.elementOf toFree
    let next ← m.nextOf toFree
    let m ← m.setNext l next
    let m ← listFreeBlock m toFree
    return (m,toReturn)

/-- `list_empty` -/
def listEmpty : Nat → Memory A → Option A → Except Stop (Memory A)
  | 0, _, _ => .error .turns
  | turns + 1, m, l => do
    if (← listIsEmpty m l) then return m
    else
      let (m,_) ← listGetFirst m l
      listEmpty turns m l

/-- `list_free` -/
def listFree : Nat → Memory A → Option A → Except Stop (Memory A)
  | 0, _, _ => .error .turns
  | turns + 1, m, l => do
    if l = none then return m
    else
      let next ← m.nextOf l
      let m ← listFreeBlock m l
      listFree turns m next

/-- The loop of `list_get_last`: where it leaves `l`. -/
def lastLoop (m : Memory A) : Nat → Option A → Except Stop (Option A)
  | 0, _ => .error .turns
  | turns + 1, l => do
    let next ← m.nextOf l
    let behind ← m.nextOf next
    if behind = none then return l else lastLoop m turns next

/-- `list_get_last` -/
def listGetLast (turns : Nat) (m : Memory A) (l : Option A) : Except Stop (Memory A × Int) := do
  assertSome l
  if (← m.nextOf l) = none then return (m,-1)
  else
    let l ← lastLoop m turns l
    let freeMe ← m.nextOf l
    let returnMe ← m.elementOf freeMe
    let m ← m.setNext l none
    let m ← listFreeBlock m freeMe
    return (m,returnMe)

/-- The loop of `list_lookup`. -/
def lookupLoop (m : Memory A) (x : Int) : Nat → Option A → Except Stop Int
  | 0, _ => .error .turns
  | turns + 1, l => do
    if l = none then return 0
    else if (← m.elementOf l) = x then return 1
    else
      let next ← m.nextOf l
      lookupLoop m x turns next

/-- `list_lookup` -/
def listLookup (turns : Nat) (m : Memory A) (l : Option A) (x : Int) : Except Stop Int := do
  assertSome l
  let l ← m.nextOf l
  lookupLoop m x turns l

/-- The loop of `list_delete`: where it leaves `l`; none when it returns -1. -/
def deleteLoop (m : Memory A) (e : Int) : Nat → Option A → Except Stop (Option (Option A))
  | 0, _ => .error .turns
  | turns + 1, l => do
    let next ← m.nextOf l
    if (← m.elementOf next) ≠ e then
      if (← m.nextOf next) = none then return none else deleteLoop m e turns next
    else return some l

/-- `list_delete` -/
def listDelete (turns : Nat) (m : Memory A) (l : Option A) (e : Int) : Except Stop (Memory A × Int) := do
  assertSome l
  if (← m.nextOf l) = none then return (m,-1)
  else
    match ← deleteLoop m e turns l with
    | none => return (m,-1)
    | some l =>
      let freeMe ← m.nextOf l
      let next ← m.nextOf freeMe
      let m ← m.setNext l next
      let m ← listFreeBlock m freeMe
      return (m,e)

/-- `list_iterator` -/
def listIterator (m : Memory A) (l : Option A) (answer : Option A) : Except Stop (Memory A × Option A) := do
  assertSome l
  let (m,it) := memAlloc m .iterator answer
  let m ← m.setCurPos it l
  return (m,it)

/-- `list_iterator_has_next` -/
def listIteratorHasNext (m : Memory A) (it : Option A) : Except Stop Bool := do
  let pos ← m.curPosOf it
  let next ← m.nextOf pos
  return next ≠ none

/-- `list_iterator_next` -/
def listIteratorNext (m : Memory A) (it : Option A) : Except Stop (Memory A × Int) := do
  let pos ← m.curPosOf it
  let next ← m.nextOf pos
  let m ← m.setCurPos it next
  let pos ← m.curPosOf it
  let element ← m.elementOf pos
  return (m,element)

/-- `list_iterator_free` -/
def listIteratorFree (m : Memory A) (it : Option A) : Except Stop (Memory A) := memFree m .iterator it

/-- The loop around an iterator: the elements that it gives. -/
def traverseLoop : Nat → Memory A → Option A → Except Stop (Memory A × List Int)
  | 0, _, _ => .error .turns
  | turns + 1, m, it => do
    if (← listIteratorHasNext m it) then
      let (m,element) ← listIteratorNext m it
      let (m,rest) ← traverseLoop turns m it
      return (m,element :: rest)
    else return (m,[])

/-- A full traversal, as the loops of the kernel over an iterator make it. -/
def traverse (turns : Nat) (m : Memory A) (l : Option A) (answer : Option A) : Except Stop (Memory A × List Int) := do
  let (m,it) ← listIterator m l answer
  let (m,elements) ← traverseLoop turns m it
  let m ← listIteratorFree m it
  return (m,elements)

/-- A call, with what `mem_alloc` answers in it. -/
inductive Op (A : Type) where
  | putFirst (element : Int) (answer : Option A)
  | getFirst
  | getLast
  | delete (e : Int)
  | lookup (x : Int)
  | empty
  | traverse (answer : Option A)

/-- What a call gives back. -/
inductive Result where
  | done
  | number (n : Int)
  | elements (xs : List Int)
  deriving DecidableEq

/-- A call; a loop in it makes at most so many turns. -/
def exec (turns : Nat) (m : Memory A) (l : Option A) : Op A → Except Stop (Memory A × Result)
  | .putFirst element answer => do
    let m ← listPutFirst m l element answer
    return (m,.done)
  | .getFirst => do
    let (m,n) ← listGetFirst m l
    return (m,.number n)
  | .getLast => do
    let (m,n) ← listGetLast turns m l
    return (m,.number n)
  | .delete e => do
    let (m,n) ← listDelete turns m l e
    return (m,.number n)
  | .lookup x => do
    let n ← listLookup turns m l x
    return (m,.number n)
  | .empty => do
    let m ← listEmpty turns m l
    return (m,.done)
  | .traverse answer => do
    let (m,xs) ← traverse turns m l answer
    return (m,.elements xs)

/-- Calls after each other. -/
def run (turns : Nat) (l : Option A) : Memory A → List (Op A) → Except Stop (Memory A × List Result)
  | m, [] => return (m,[])
  | m, op :: rest => do
    let (m,result) ← exec turns m l op
    let (m,results) ← run turns l m rest
    return (m,result :: results)

/-! ### Lists of numbers -/

/-- What a call does with the cells of a list. -/
def Op.cells : Op A → List (Int × A) → List (Int × A)
  | .putFirst e (some b), cells => (e,b) :: cells
  | .putFirst _ none, cells => cells
  | .getFirst, cells => cells.tail
  | .getLast, cells => cells.dropLast
  | .delete e, cells => cells.eraseP (fun c => c.1 = e)
  | .lookup _, cells => cells
  | .empty, _ => []
  | .traverse _, cells => cells

/-- What a call is supposed to do with a list of numbers, and to give back; none
    when an assertion fails. -/
def Op.intended : Op A → List Int → Option (List Int × Result)
  | .putFirst e _, xs => if 0 ≤ e then some (e :: xs,.done) else none
  | .getFirst, xs => some (xs.tail,.number (xs.headD (-1)))
  | .getLast, xs => some (xs.dropLast,.number (xs.getLastD (-1)))
  | .delete e, xs => some (xs.erase e,.number (if e ∈ xs then e else -1))
  | .lookup x, xs => some (xs,.number (if x ∈ xs then 1 else 0))
  | .empty, _ => some ([],.done)
  | .traverse _, xs => some (xs,.elements xs)

/-- Calls on a list of numbers, after each other. -/
def intendedRun : List Int → List (Op A) → Option (List Int × List Result)
  | xs, [] => some (xs,[])
  | xs, op :: rest => do
    let (xs,result) ← op.intended xs
    let (xs,results) ← intendedRun xs rest
    return (xs,result :: results)

/-- A call that allocates gets a block that is not in use. -/
def Op.Fresh (m : Memory A) : Op A → Prop
  | .putFirst _ answer => ∃ b, answer = some b ∧ m.live b = none
  | .traverse answer => ∃ b, answer = some b ∧ m.live b = none
  | _ => True

/-- All calls do, each in the memory that the calls before it leave. -/
def FreshAlong (turns : Nat) (l : Option A) : Memory A → List (Op A) → Prop
  | _, [] => True
  | m, op :: rest =>
    op.Fresh m ∧
      match exec turns m l op with
      | .ok (m,_) => FreshAlong turns l m rest
      | .error _ => True

end Translation

/-! ### Accesses -/

variable {A : Type} {m m' m'' : Memory A} {a b l p : A} {e : Int} {cells passed rest : List (Int × A)} {turns : Nat}

@[simp] theorem ok_bind {α β : Type} (x : α) (f : α → Except Stop β) : (Except.ok x >>= f) = f x := rfl

@[simp] theorem pure_ok {α : Type} (x : α) : (pure x : Except Stop α) = .ok x := rfl

@[simp] theorem assertSome_some (a : A) : assertSome (some a) = .ok () := rfl

theorem at_live {k : Kind} (live : m.live a = some k) : m.at k (some a) = .ok a := if_pos live

theorem elementOf_live (live : m.live a = some .cell) : m.elementOf (some a) = .ok (m.element a) := by
  rw [Memory.elementOf,at_live live]
  rfl

theorem nextOf_live (live : m.live a = some .cell) : m.nextOf (some a) = .ok (m.next a) := by
  rw [Memory.nextOf,at_live live]
  rfl

theorem curPosOf_live (live : m.live a = some .iterator) : m.curPosOf (some a) = .ok (m.curPos a) := by
  rw [Memory.curPosOf,at_live live]
  rfl

/-! ### Lists in memory -/

/-- Behind a first cell hang the cells of a list, each with its element. -/
structure Stands (m : Memory A) (l : A) (cells : List (Int × A)) : Prop where
  chain : Behind m.next l (cells.map Prod.snd)
  live : ∀ b ∈ l :: cells.map Prod.snd, m.live b = some .cell
  sentinel : m.element l = -1
  elements : ∀ c ∈ cells, m.element c.2 = c.1

/-- What becomes of memory around a list: other blocks are left alone, those that
    the list gives up are free, and those that it gets were not in use. -/
structure Framed (m m' : Memory A) (blocks blocks' : List A) : Prop where
  live : ∀ b, b ∉ blocks → b ∉ blocks' → m'.live b = m.live b
  freed : ∀ b ∈ blocks, b ∉ blocks' → m'.live b = none
  fresh : ∀ b ∈ blocks', b ∉ blocks → m.live b = none
  kept : ∀ b, m.live b ≠ none → b ∉ blocks →
    m'.element b = m.element b ∧ m'.next b = m.next b ∧ m'.curPos b = m.curPos b

/-- The blocks of a list. -/
def blocks (l : A) (cells : List (Int × A)) : List A := l :: cells.map Prod.snd

/-- A walk has passed some cells and stands at the last of them. -/
def Cursor (l : A) (passed : List (Int × A)) (p : A) : Prop := ∃ front, l :: passed.map Prod.snd = front ++ [p]

theorem framed_refl (m : Memory A) (bs : List A) : Framed m m bs bs :=
  ⟨fun _ _ _ => rfl,fun _ member other => absurd member other,fun _ member other => absurd member other,
    fun _ _ _ => ⟨rfl,rfl,rfl⟩⟩

theorem framed_trans {bs bs' bs'' : List A} (first : Framed m m' bs bs') (second : Framed m' m'' bs' bs'') :
    Framed m m'' bs bs'' := by
  refine ⟨?_,?_,?_,?_⟩
  · intro b before after
    by_cases between : b ∈ bs'
    · rw [second.freed b between after,first.fresh b between before]
    · rw [second.live b between after,first.live b before between]
  · intro b before after
    by_cases between : b ∈ bs'
    · exact second.freed b between after
    · rw [second.live b between after,first.freed b before between]
  · intro b after before
    by_cases between : b ∈ bs'
    · exact first.fresh b between before
    · rw [← first.live b before between,second.fresh b after between]
  · intro b live before
    have between : b ∉ bs' := fun member => live (first.fresh b member before)
    obtain ⟨element,next,curPos⟩ := first.kept b live before
    obtain ⟨element',next',curPos'⟩ := second.kept b (by rwa [first.live b before between]) between
    exact ⟨element'.trans element,next'.trans next,curPos'.trans curPos⟩

theorem cursor_start (l : A) : Cursor l [] l := ⟨[],rfl⟩

theorem cursor_step (l : A) (passed : List (Int × A)) (c : Int × A) : Cursor l (passed ++ [c]) c.2 :=
  ⟨l :: passed.map Prod.snd,by simp⟩

section Walks
variable (stands : Stands m l (passed ++ rest)) (cursor : Cursor l passed p)
include stands cursor

/-- The cell where a walk stands points to the next one. -/
theorem cursor_next : m.next p = rest.head?.map Prod.snd := by
  obtain ⟨front,cut⟩ := cursor
  have split : l :: (passed ++ rest).map Prod.snd = front ++ p :: rest.map Prod.snd := by
    rw [List.map_append,← List.cons_append,cut]
    simp
  rw [behind_next stands.chain split,List.head?_map]

theorem cursor_live : m.live p = some .cell := by
  obtain ⟨front,cut⟩ := cursor
  apply stands.live
  rw [List.map_append,← List.cons_append,cut]
  simp

theorem cursor_nextOf : m.nextOf (some p) = .ok (rest.head?.map Prod.snd) := by
  rw [nextOf_live (cursor_live stands cursor),cursor_next stands cursor]

end Walks

theorem stands_nodup (stands : Stands m l cells) : (blocks l cells).Nodup := behind_nodup stands.chain

/-- A block that is not in use is none of the list. -/
theorem fresh_outside (stands : Stands m l cells) (fresh : m.live b = none) : b ∉ blocks l cells := by
  intro member
  rw [stands.live b member] at fresh
  cases fresh

/-- The cells of a list but one do not include this one. -/
theorem unlinked_outside (stands : Stands m l (passed ++ (e,b) :: rest)) : b ∉ blocks l (passed ++ rest) := by
  have nodup := stands_nodup stands
  simp only [blocks,List.map_append,List.map_cons] at nodup ⊢
  rw [← List.cons_append] at nodup ⊢
  rw [List.nodup_middle,List.nodup_cons] at nodup
  exact nodup.1

theorem mem_unlinked {c : A} : c ∈ blocks l (passed ++ (e,b) :: rest) ↔ c = b ∨ c ∈ blocks l (passed ++ rest) := by
  simp only [blocks,List.map_append,List.map_cons,List.mem_cons,List.mem_append]
  tauto

theorem cells_length (op : Op A) (cells : List (Int × A)) : (op.cells cells).length ≤ cells.length + 1 := by
  cases op with
  | putFirst e answer => cases answer <;> simp [Op.cells]
  | delete e => exact (List.length_eraseP_le).trans (Nat.le_succ _)
  | _ => simp [Op.cells] <;> omega

/-! ### Walks -/

theorem first_live (stands : Stands m l cells) : m.live l = some .cell := stands.live l List.mem_cons_self

theorem cell_live (stands : Stands m l (passed ++ (e,b) :: rest)) : m.live b = some .cell :=
  stands.live b (mem_unlinked.mpr (.inl rfl))

theorem cell_element (stands : Stands m l (passed ++ (e,b) :: rest)) : m.element b = e :=
  stands.elements (e,b) (by simp)

theorem listIsEmpty_eq (stands : Stands m l cells) : listIsEmpty m (some l) = .ok cells.isEmpty := by
  have whole : Stands m l ([] ++ cells) := stands
  rw [listIsEmpty,assertSome_some,ok_bind,cursor_nextOf whole (cursor_start l),ok_bind]
  cases cells <;> rfl

/-- One more cell has been passed. -/
theorem stands_step {c : Int × A} (stands : Stands m l (passed ++ c :: rest)) : Stands m l ((passed ++ [c]) ++ rest) := by
  rwa [List.append_assoc]

/-- The loop of `list_get_last` stops in front of the last cell. -/
theorem lastLoop_eq {c : Int × A} (stands : Stands m l (passed ++ c :: rest)) (cursor : Cursor l passed p)
    (enough : rest.length < turns) :
    ∃ passed' c' p', lastLoop m turns (some p) = .ok (some p') ∧ passed ++ c :: rest = passed' ++ [c'] ∧
      Cursor l passed' p' := by
  induction rest generalizing passed c p turns with
  | nil =>
    cases turns with
    | zero => cases enough
    | succ turns =>
      have behind := cursor_nextOf (stands_step stands) (cursor_step l passed c)
      rw [lastLoop,cursor_nextOf stands cursor,ok_bind]
      simp only [List.head?_cons,Option.map_some]
      rw [behind]
      exact ⟨passed,c,p,rfl,rfl,cursor⟩
  | cons d rest ih =>
    cases turns with
    | zero => cases enough
    | succ turns =>
      have behind := cursor_nextOf (stands_step stands) (cursor_step l passed c)
      obtain ⟨passed',c',p',stops,cut,cursor'⟩ := ih (stands_step stands) (cursor_step l passed c) (Nat.lt_of_succ_lt_succ enough)
      rw [lastLoop,cursor_nextOf stands cursor,ok_bind]
      simp only [List.head?_cons,Option.map_some] at behind ⊢
      rw [behind,ok_bind,if_neg (Option.some_ne_none _)]
      rw [List.append_assoc] at cut
      exact ⟨passed',c',p',stops,cut,cursor'⟩

theorem lookupLoop_eq {x : Int} (stands : Stands m l (passed ++ rest)) (enough : rest.length < turns) :
    lookupLoop m x turns (rest.head?.map Prod.snd) = .ok (if x ∈ rest.map Prod.fst then 1 else 0) := by
  induction rest generalizing passed turns with
  | nil =>
    cases turns with
    | zero => cases enough
    | succ turns => rfl
  | cons c rest ih =>
    obtain ⟨e,b⟩ := c
    cases turns with
    | zero => cases enough
    | succ turns =>
      have behind := cursor_nextOf (stands_step stands) (cursor_step l passed (e,b))
      rw [lookupLoop,if_neg (by simp)]
      simp only [List.head?_cons,Option.map_some,List.map_cons]
      rw [elementOf_live (cell_live stands),ok_bind,cell_element stands]
      by_cases here : e = x
      · rw [if_pos here,if_pos (here ▸ List.mem_cons_self)]
        rfl
      · rw [if_neg here,behind,ok_bind,ih (stands_step stands) (Nat.lt_of_succ_lt_succ enough)]
        simp only [List.mem_cons,Ne.symm here,false_or]

theorem listLookup_eq (stands : Stands m l cells) (x : Int) (enough : cells.length < turns) :
    listLookup turns m (some l) x = .ok (if x ∈ cells.map Prod.fst then 1 else 0) := by
  have whole : Stands m l ([] ++ cells) := stands
  rw [listLookup,assertSome_some,ok_bind,cursor_nextOf whole (cursor_start l),ok_bind]
  exact lookupLoop_eq whole enough

/-- The loop of `list_delete` stops in front of the first cell with the element,
    if there is one. -/
theorem deleteLoop_eq {c : Int × A} (stands : Stands m l (passed ++ c :: rest)) (cursor : Cursor l passed p)
    (before : ∀ d ∈ passed, d.1 ≠ e) (enough : rest.length < turns) :
    (deleteLoop m e turns (some p) = .ok none ∧ ∀ d ∈ passed ++ c :: rest, d.1 ≠ e) ∨
      ∃ passed' b rest' p', deleteLoop m e turns (some p) = .ok (some (some p')) ∧
        passed ++ c :: rest = passed' ++ (e,b) :: rest' ∧ Cursor l passed' p' ∧ ∀ d ∈ passed', d.1 ≠ e := by
  induction rest generalizing passed c p turns with
  | nil =>
    obtain ⟨f,b⟩ := c
    cases turns with
    | zero => cases enough
    | succ turns =>
      have behind := cursor_nextOf (stands_step stands) (cursor_step l passed (f,b))
      rw [deleteLoop,cursor_nextOf stands cursor,ok_bind]
      simp only [List.head?_cons,Option.map_some]
      rw [elementOf_live (cell_live stands),ok_bind,cell_element stands]
      by_cases here : f = e
      · subst here
        rw [if_neg (not_not.mpr rfl)]
        exact .inr ⟨passed,b,[],p,rfl,rfl,cursor,before⟩
      · rw [if_pos here,behind]
        refine .inl ⟨rfl,?_⟩
        intro d member
        rcases List.mem_append.mp member with passed' | last
        · exact before d passed'
        · exact List.mem_singleton.mp last ▸ here
  | cons d rest ih =>
    obtain ⟨f,b⟩ := c
    cases turns with
    | zero => cases enough
    | succ turns =>
      have behind := cursor_nextOf (stands_step stands) (cursor_step l passed (f,b))
      rw [deleteLoop,cursor_nextOf stands cursor,ok_bind]
      simp only [List.head?_cons,Option.map_some] at behind ⊢
      rw [elementOf_live (cell_live stands),ok_bind,cell_element stands]
      by_cases here : f = e
      · subst here
        rw [if_neg (not_not.mpr rfl)]
        exact .inr ⟨passed,b,d :: rest,p,rfl,rfl,cursor,before⟩
      · have before' : ∀ d ∈ passed ++ [(f,b)], d.1 ≠ e := by
          intro d member
          rcases List.mem_append.mp member with passed' | last
          · exact before d passed'
          · exact List.mem_singleton.mp last ▸ here
        have later := ih (stands_step stands) (cursor_step l passed (f,b)) before' (Nat.lt_of_succ_lt_succ enough)
        rw [if_pos here,behind,ok_bind,if_neg (Option.some_ne_none _)]
        rwa [List.append_assoc] at later

/-! ### What -1 means -/

/-- No negative number gets into a list. -/
theorem intended_real {op : Op A} {xs ys : List Int} {result : Result} (real : ∀ x ∈ xs, 0 ≤ x)
    (intended : op.intended xs = some (ys,result)) : ∀ y ∈ ys, 0 ≤ y := by
  cases op with
  | putFirst e answer =>
    by_cases positive : 0 ≤ e
    · rw [Op.intended,if_pos positive] at intended
      cases intended
      exact List.forall_mem_cons.mpr ⟨positive,real⟩
    · rw [Op.intended,if_neg positive] at intended
      cases intended
  | getFirst =>
    cases intended
    exact fun y member => real y (List.mem_of_mem_tail member)
  | getLast =>
    cases intended
    exact fun y member => real y (List.mem_of_mem_dropLast member)
  | delete e =>
    cases intended
    exact fun y member => real y (List.mem_of_mem_erase member)
  | empty =>
    cases intended
    exact fun _ member => absurd member List.not_mem_nil
  | _ =>
    cases intended
    exact real

theorem intendedRun_real {ops : List (Op A)} {xs ys : List Int} {results : List Result} (real : ∀ x ∈ xs, 0 ≤ x)
    (intended : intendedRun xs ops = some (ys,results)) : ∀ y ∈ ys, 0 ≤ y := by
  induction ops generalizing xs results with
  | nil =>
    cases intended
    exact real
  | cons op rest ih =>
    rw [intendedRun,Option.bind_eq_bind,Option.bind_eq_some_iff] at intended
    obtain ⟨⟨zs,result⟩,first,later⟩ := intended
    rw [Option.bind_eq_bind,Option.bind_eq_some_iff] at later
    obtain ⟨⟨ys',results'⟩,later,same⟩ := later
    cases same
    exact ih (intended_real real first) later

/-- After calls on a new list, `list_get_first` and `list_get_last` answer -1
    exactly if it is empty. -/
theorem empty_iff {ops : List (Op A)} {xs : List Int} {results : List Result}
    (intended : intendedRun [] ops = some (xs,results)) :
    ((Op.getFirst : Op A).intended xs = some (xs.tail,.number (-1)) ↔ xs = []) ∧
      ((Op.getLast : Op A).intended xs = some (xs.dropLast,.number (-1)) ↔ xs = []) := by
  have real := intendedRun_real (fun _ member => absurd member List.not_mem_nil) intended
  rcases List.eq_nil_or_concat' xs with rfl | ⟨front,last,rfl⟩
  · exact ⟨iff_of_true rfl rfl,iff_of_true rfl rfl⟩
  · have positive : 0 ≤ last := real last (by simp)
    have first : 0 ≤ (front ++ [last]).headD (-1) := by
      cases front with
      | nil => exact positive
      | cons x front => exact real x (by simp)
    have other : front ++ [last] ≠ [] := by simp
    refine ⟨iff_of_false ?_ other,iff_of_false ?_ other⟩
    · intro same
      have number : (front ++ [last]).headD (-1) = -1 := by simpa [Op.intended] using same
      omega
    · intro same
      have number : last = -1 := by simpa [Op.intended] using same
      omega

/-! ### Stores -/

variable [DecidableEq A]

theorem setElement_live (live : m.live a = some .cell) (element : Int) :
    m.setElement (some a) element = .ok { m with element := Function.update m.element a element } := by
  rw [Memory.setElement,at_live live]
  rfl

theorem setNext_live (live : m.live a = some .cell) (next : Option A) :
    m.setNext (some a) next = .ok { m with next := Function.update m.next a next } := by
  rw [Memory.setNext,at_live live]
  rfl

theorem setCurPos_live (live : m.live a = some .iterator) (pos : Option A) :
    m.setCurPos (some a) pos = .ok { m with curPos := Function.update m.curPos a pos } := by
  rw [Memory.setCurPos,at_live live]
  rfl

theorem memFree_live {k : Kind} (live : m.live a = some k) :
    memFree m k (some a) = .ok { m with live := Function.update m.live a none } := by
  rw [memFree,at_live live]
  rfl

/-! ### Cells that come and go -/

/-- Memory with a new cell behind the first one. -/
def Memory.put (m : Memory A) (l b : A) (e : Int) : Memory A where
  live := Function.update m.live b (some .cell)
  element := Function.update m.element b e
  next := Function.update (Function.update m.next b (m.next l)) l (some b)
  curPos := m.curPos

/-- Memory without the cell behind one of the list. -/
def Memory.unlink (m : Memory A) (p b : A) : Memory A where
  live := Function.update m.live b none
  element := m.element
  next := Function.update m.next p (m.next b)
  curPos := m.curPos

theorem stands_put (stands : Stands m l cells) (fresh : m.live b = none) (e : Int) :
    Stands (m.put l b e) l ((e,b) :: cells) := by
  have outside := fresh_outside stands fresh
  have apart : b ≠ l := fun same => outside (same ▸ List.mem_cons_self)
  refine ⟨behind_cons stands.chain outside,?_,?_,?_⟩
  · intro c member
    show Function.update m.live b (some .cell) c = some .cell
    by_cases new : c = b
    · rw [new,Function.update_self]
    · rw [Function.update_of_ne new]
      apply stands.live
      simp only [List.map_cons,List.mem_cons] at member ⊢
      tauto
  · show Function.update m.element b e l = -1
    rw [Function.update_of_ne apart.symm]
    exact stands.sentinel
  · intro c member
    show Function.update m.element b e c.2 = c.1
    rcases List.mem_cons.mp member with rfl | old
    · exact Function.update_self ..
    · have other : c.2 ≠ b := fun same => outside (same ▸ List.mem_cons_of_mem _ (List.mem_map_of_mem old))
      rw [Function.update_of_ne other]
      exact stands.elements c old

theorem framed_put (fresh : m.live b = none) (e : Int) :
    Framed m (m.put l b e) (blocks l cells) (blocks l ((e,b) :: cells)) := by
  refine ⟨?_,?_,?_,?_⟩
  · intro c _ after
    have other : c ≠ b := fun same => after (by simp [blocks,same])
    exact Function.update_of_ne other _ _
  · intro c before after
    refine absurd ?_ after
    simp only [blocks,List.map_cons,List.mem_cons] at before ⊢
    tauto
  · intro c after before
    have new : c = b := by
      simp only [blocks,List.map_cons,List.mem_cons] at before after
      tauto
    rwa [new]
  · intro c live before
    have other : c ≠ b := fun same => live (same ▸ fresh)
    have first : c ≠ l := fun same => before (same ▸ List.mem_cons_self)
    refine ⟨Function.update_of_ne other _ _,?_,rfl⟩
    show Function.update (Function.update m.next b (m.next l)) l (some b) c = m.next c
    rw [Function.update_of_ne first,Function.update_of_ne other]

section Unlink
variable (stands : Stands m l (passed ++ (e,b) :: rest)) (cursor : Cursor l passed p)
include stands cursor

theorem stands_unlink : Stands (m.unlink p b) l (passed ++ rest) := by
  have outside := unlinked_outside stands
  obtain ⟨front,cut⟩ := cursor
  refine ⟨?_,?_,stands.sentinel,?_⟩
  · have split : l :: (passed ++ (e,b) :: rest).map Prod.snd = front ++ p :: b :: rest.map Prod.snd := by
      rw [List.map_append,← List.cons_append,cut]
      simp
    have joined : l :: (passed ++ rest).map Prod.snd = front ++ p :: rest.map Prod.snd := by
      rw [List.map_append,← List.cons_append,cut]
      simp
    exact behind_unlink stands.chain split joined
  · intro c member
    have other : c ≠ b := fun same => outside (same ▸ member)
    exact (Function.update_of_ne other _ _).trans (stands.live c (mem_unlinked.mpr (.inr member)))
  · intro c member
    apply stands.elements c
    simp only [List.mem_append,List.mem_cons] at member ⊢
    tauto

omit stands in
theorem framed_unlink : Framed m (m.unlink p b) (blocks l (passed ++ (e,b) :: rest)) (blocks l (passed ++ rest)) := by
  obtain ⟨front,cut⟩ := cursor
  have inside : p ∈ blocks l (passed ++ (e,b) :: rest) := by
    rw [blocks,List.map_append,← List.cons_append,cut]
    simp
  refine ⟨?_,?_,?_,?_⟩
  · intro c before _
    have other : c ≠ b := fun same => before (mem_unlinked.mpr (.inl same))
    exact Function.update_of_ne other _ _
  · intro c before after
    rcases mem_unlinked.mp before with same | member
    · show Function.update m.live b none c = none
      rw [same,Function.update_self]
    · exact absurd member after
  · intro c after before
    exact absurd (mem_unlinked.mpr (.inr after)) before
  · intro c _ before
    have other : c ≠ p := fun same => before (same ▸ inside)
    exact ⟨rfl,Function.update_of_ne other _ _,rfl⟩

end Unlink

/-! ### The calls -/

/-- What `list_get_first`, `list_get_last` and `list_delete` end with. -/
theorem unlink_free (stands : Stands m l (passed ++ (e,b) :: rest)) (cursor : Cursor l passed p) :
    (m.setNext (some p) (m.next b) >>= fun m => listFreeBlock m (some b)) = .ok (m.unlink p b) := by
  have live : m.live b = some .cell := cell_live stands
  rw [setNext_live (cursor_live stands cursor),ok_bind]
  exact memFree_live (m := { m with next := Function.update m.next p (m.next b) }) live

theorem listPutFirst_eq (stands : Stands m l cells) (fresh : m.live b = none) (real : 0 ≤ e) :
    listPutFirst m (some l) e (some b) = .ok (m.put l b e) := by
  have other : l ≠ b := fun same => fresh_outside stands fresh (same ▸ List.mem_cons_self)
  have first : Function.update m.live b (some Kind.cell) l = some .cell :=
    (Function.update_of_ne other _ _).trans (first_live stands)
  have new : Function.update m.live b (some Kind.cell) b = some .cell := Function.update_self ..
  rw [listPutFirst,assertSome_some,ok_bind,if_pos real]
  simp only [listAlloc,memAlloc]
  rw [setElement_live new,ok_bind,nextOf_live first,ok_bind,setNext_live new,ok_bind,setNext_live first]
  rfl

theorem listGetFirst_nil (stands : Stands m l []) : listGetFirst m (some l) = .ok (m,-1) := by
  rw [listGetFirst,assertSome_some,ok_bind,listIsEmpty_eq stands]
  rfl

theorem listGetFirst_cons (stands : Stands m l ((e,b) :: rest)) : listGetFirst m (some l) = .ok (m.unlink l b,e) := by
  have whole : Stands m l ([] ++ (e,b) :: rest) := stands
  have live := cell_live whole
  rw [listGetFirst,assertSome_some,ok_bind,listIsEmpty_eq stands,ok_bind,List.isEmpty_cons,if_neg Bool.false_ne_true,
    cursor_nextOf whole (cursor_start l),ok_bind]
  simp only [List.head?_cons,Option.map_some]
  rw [elementOf_live live,ok_bind,nextOf_live live,ok_bind,← bind_assoc,unlink_free whole (cursor_start l),ok_bind,
    cell_element whole]
  rfl

theorem listEmpty_eq (stands : Stands m l cells) (enough : cells.length < turns) :
    ∃ m', listEmpty turns m (some l) = .ok m' ∧ Stands m' l [] ∧ Framed m m' (blocks l cells) (blocks l []) := by
  induction cells generalizing m turns with
  | nil =>
    cases turns with
    | zero => cases enough
    | succ turns =>
      rw [listEmpty,listIsEmpty_eq stands]
      exact ⟨m,rfl,stands,framed_refl _ _⟩
  | cons c rest ih =>
    obtain ⟨e,b⟩ := c
    cases turns with
    | zero => cases enough
    | succ turns =>
      have whole : Stands m l ([] ++ (e,b) :: rest) := stands
      have framed : Framed m (m.unlink l b) (blocks l ([] ++ (e,b) :: rest)) (blocks l ([] ++ rest)) :=
        framed_unlink (cursor_start l)
      obtain ⟨m',ran,empty,framed'⟩ := ih (stands_unlink whole (cursor_start l)) (Nat.lt_of_succ_lt_succ enough)
      rw [listEmpty,listIsEmpty_eq stands,ok_bind,List.isEmpty_cons,if_neg Bool.false_ne_true,listGetFirst_cons stands]
      exact ⟨m',ran,empty,framed_trans framed framed'⟩

theorem listGetLast_nil (stands : Stands m l []) (turns : Nat) : listGetLast turns m (some l) = .ok (m,-1) := by
  have whole : Stands m l ([] ++ []) := stands
  rw [listGetLast,assertSome_some,ok_bind,cursor_nextOf whole (cursor_start l)]
  rfl

theorem listGetLast_append (stands : Stands m l (passed ++ [(e,b)])) (enough : passed.length < turns) :
    ∃ p, Cursor l passed p ∧ listGetLast turns m (some l) = .ok (m.unlink p b,e) := by
  obtain ⟨c,rest,shape⟩ := List.exists_cons_of_ne_nil (List.append_ne_nil_of_right_ne_nil passed (List.cons_ne_nil (e,b) []))
  have whole : Stands m l ([] ++ c :: rest) := shape ▸ stands
  have few : rest.length < turns := by
    have size := congrArg List.length shape
    simp only [List.length_append,List.length_cons,List.length_nil] at size
    omega
  obtain ⟨passed',c',p,stops,cut,cursor⟩ := lastLoop_eq whole (cursor_start l) few
  rw [List.nil_append,← shape] at cut
  obtain ⟨rfl,last⟩ := List.append_inj' cut rfl
  cases last
  have nothing : m.next b = none := cursor_next (stands_step stands) (cursor_step l passed (e,b))
  have taken := unlink_free stands cursor
  rw [nothing] at taken
  refine ⟨p,cursor,?_⟩
  rw [listGetLast,assertSome_some,ok_bind,cursor_nextOf whole (cursor_start l),ok_bind,List.head?_cons,Option.map_some,
    if_neg (Option.some_ne_none _),stops,ok_bind,cursor_nextOf stands cursor,ok_bind]
  simp only [List.head?_cons,Option.map_some]
  rw [elementOf_live (cell_live stands),ok_bind,← bind_assoc,taken,ok_bind,cell_element stands]
  rfl

theorem listDelete_absent (stands : Stands m l cells) (absent : ∀ d ∈ cells, d.1 ≠ e) (enough : cells.length < turns) :
    listDelete turns m (some l) e = .ok (m,-1) := by
  have whole : Stands m l ([] ++ cells) := stands
  rw [listDelete,assertSome_some,ok_bind,cursor_nextOf whole (cursor_start l),ok_bind]
  cases cells with
  | nil => rfl
  | cons c rest =>
    rw [List.head?_cons,Option.map_some,if_neg (Option.some_ne_none _)]
    rcases deleteLoop_eq whole (cursor_start l) (fun _ member => nomatch member) (Nat.lt_of_succ_lt enough) with
      ⟨ran,-⟩ | ⟨passed,b,rest',p,-,cut,-,-⟩
    · rw [ran]
      rfl
    · exact absurd rfl (absent (e,b) (by rw [List.nil_append] at cut; rw [cut]; simp))

theorem listDelete_present (stands : Stands m l cells) (present : ∃ d ∈ cells, d.1 = e) (enough : cells.length < turns) :
    ∃ passed b rest p, cells = passed ++ (e,b) :: rest ∧ (∀ d ∈ passed, d.1 ≠ e) ∧ Cursor l passed p ∧
      listDelete turns m (some l) e = .ok (m.unlink p b,e) := by
  have whole : Stands m l ([] ++ cells) := stands
  rw [listDelete,assertSome_some,ok_bind,cursor_nextOf whole (cursor_start l),ok_bind]
  cases cells with
  | nil =>
    obtain ⟨d,member,-⟩ := present
    cases member
  | cons c rest =>
    rw [List.head?_cons,Option.map_some,if_neg (Option.some_ne_none _)]
    rcases deleteLoop_eq whole (cursor_start l) (fun _ member => nomatch member) (Nat.lt_of_succ_lt enough) with
      ⟨-,absent⟩ | ⟨passed,b,rest',p,ran,cut,cursor,before⟩
    · obtain ⟨d,member,same⟩ := present
      exact absurd same (absent d member)
    · rw [List.nil_append] at cut
      rw [cut] at stands
      refine ⟨passed,b,rest',p,cut,before,cursor,?_⟩
      rw [ran,ok_bind]
      dsimp only
      rw [cursor_nextOf stands cursor,ok_bind]
      simp only [List.head?_cons,Option.map_some]
      rw [nextOf_live (cell_live stands),ok_bind,← bind_assoc,unlink_free stands cursor]
      rfl

/-! ### Traversals -/

/-- Memory with the iterator somewhere else. -/
def Memory.moved (m : Memory A) (it : A) (pos : Option A) : Memory A := { m with curPos := Function.update m.curPos it pos }

theorem moved_curPosOf {it : A} (live : m.live it = some .iterator) (pos : Option A) :
    (m.moved it pos).curPosOf (some it) = .ok pos := by
  have live' : (m.moved it pos).live it = some .iterator := live
  rw [curPosOf_live live']
  exact congrArg Except.ok (Function.update_self ..)

theorem moved_setCurPos {it : A} (live : m.live it = some .iterator) (pos pos' : Option A) :
    (m.moved it pos).setCurPos (some it) pos' = .ok (m.moved it pos') := by
  have live' : (m.moved it pos).live it = some .iterator := live
  rw [setCurPos_live live']
  unfold Memory.moved
  rw [Function.update_idem]

theorem stands_moved (stands : Stands m l cells) (it : A) (pos : Option A) : Stands (m.moved it pos) l cells :=
  ⟨stands.chain,stands.live,stands.sentinel,stands.elements⟩

theorem traverseLoop_eq {it : A} (stands : Stands m l (passed ++ rest)) (cursor : Cursor l passed p)
    (live : m.live it = some .iterator) (enough : rest.length < turns) :
    ∃ pos, traverseLoop turns (m.moved it (some p)) (some it) = .ok (m.moved it pos,rest.map Prod.fst) := by
  induction rest generalizing passed p turns with
  | nil =>
    cases turns with
    | zero => cases enough
    | succ turns =>
      have next : (m.moved it (some p)).nextOf (some p) = .ok none := cursor_nextOf (stands_moved stands it _) cursor
      refine ⟨some p,?_⟩
      rw [traverseLoop,listIteratorHasNext,moved_curPosOf live,ok_bind,next]
      rfl
  | cons c rest ih =>
    obtain ⟨e,b⟩ := c
    cases turns with
    | zero => cases enough
    | succ turns =>
      have next : (m.moved it (some p)).nextOf (some p) = .ok (some b) := cursor_nextOf (stands_moved stands it _) cursor
      have moved := stands_moved stands it (some b)
      have element : (m.moved it (some b)).elementOf (some b) = .ok e :=
        (elementOf_live (cell_live moved)).trans (congrArg Except.ok (cell_element moved))
      obtain ⟨q,ran⟩ := ih (stands_step stands) (cursor_step l passed (e,b)) (Nat.lt_of_succ_lt_succ enough)
      refine ⟨q,?_⟩
      rw [traverseLoop,listIteratorHasNext,moved_curPosOf live,ok_bind,next,ok_bind,pure_ok,ok_bind,if_pos (by simp),
        listIteratorNext,moved_curPosOf live,ok_bind,next,ok_bind,moved_setCurPos live,ok_bind,moved_curPosOf live,ok_bind,
        element,ok_bind,pure_ok,ok_bind]
      dsimp only
      rw [ran]
      rfl

theorem traverse_eq {it : A} (stands : Stands m l cells) (fresh : m.live it = none) (enough : cells.length < turns) :
    ∃ pos, traverse turns m (some l) (some it) = .ok (m.moved it pos,cells.map Prod.fst) := by
  have outside := fresh_outside stands fresh
  let opened : Memory A := { m with live := Function.update m.live it (some .iterator) }
  have here : opened.live it = some .iterator := Function.update_self ..
  have stands' : Stands opened l ([] ++ cells) := by
    refine ⟨stands.chain,?_,stands.sentinel,stands.elements⟩
    intro c member
    have other : c ≠ it := fun same => outside (same ▸ member)
    exact (Function.update_of_ne other _ _).trans (stands.live c member)
  obtain ⟨pos,ran⟩ := traverseLoop_eq stands' (cursor_start l) here enough
  refine ⟨pos,?_⟩
  have starts : listIterator m (some l) (some it) = .ok (opened.moved it (some l),some it) := by
    rw [listIterator,assertSome_some,ok_bind]
    simp only [memAlloc]
    rw [setCurPos_live here]
    rfl
  have closed : listIteratorFree (opened.moved it pos) (some it) = .ok (m.moved it pos) := by
    have here' : (opened.moved it pos).live it = some .iterator := here
    have back : Function.update (Function.update m.live it (some Kind.iterator)) it none = m.live := by
      rw [Function.update_idem,← fresh,Function.update_eq_self]
    rw [listIteratorFree,memFree_live here']
    unfold Memory.moved
    rw [← back]
  rw [traverse,starts,ok_bind]
  dsimp only
  rw [ran,ok_bind]
  dsimp only
  rw [closed]
  rfl

theorem framed_moved {it : A} (fresh : m.live it = none) (pos : Option A) (bs : List A) : Framed m (m.moved it pos) bs bs := by
  refine ⟨fun _ _ _ => rfl,fun _ member other => absurd member other,fun _ member other => absurd member other,?_⟩
  intro b live _
  have other : b ≠ it := fun same => live (same ▸ fresh)
  exact ⟨rfl,rfl,Function.update_of_ne other _ _⟩

/-! ### Each call -/

/-- A call did what it is supposed to. -/
def Did (turns : Nat) (m : Memory A) (l : A) (op : Op A) (cells : List (Int × A)) (result : Result) : Prop :=
  ∃ m', exec turns m (some l) op = .ok (m',result) ∧ Stands m' l (op.cells cells) ∧
    Framed m m' (blocks l cells) (blocks l (op.cells cells))

theorem did_getFirst (stands : Stands m l cells) (turns : Nat) :
    Did turns m l .getFirst cells (.number ((cells.map Prod.fst).headD (-1))) := by
  cases cells with
  | nil =>
    refine ⟨m,?_,stands,framed_refl _ _⟩
    rw [exec,listGetFirst_nil stands]
    rfl
  | cons c rest =>
    have whole : Stands m l ([] ++ (c.1,c.2) :: rest) := stands
    have framed : Framed m (m.unlink l c.2) (blocks l ([] ++ (c.1,c.2) :: rest)) (blocks l ([] ++ rest)) :=
      framed_unlink (cursor_start l)
    refine ⟨m.unlink l c.2,?_,stands_unlink whole (cursor_start l),framed⟩
    rw [exec,listGetFirst_cons stands]
    rfl

theorem did_getLast (stands : Stands m l cells) (enough : cells.length < turns) :
    Did turns m l .getLast cells (.number ((cells.map Prod.fst).getLastD (-1))) := by
  rcases List.eq_nil_or_concat' cells with rfl | ⟨passed,⟨e,b⟩,rfl⟩
  · refine ⟨m,?_,stands,framed_refl _ _⟩
    rw [exec,listGetLast_nil stands]
    rfl
  · rw [List.length_append] at enough
    obtain ⟨p,cursor,ran⟩ := listGetLast_append stands (Nat.lt_of_le_of_lt (Nat.le_add_right _ _) enough)
    have kept : (Op.getLast : Op A).cells (passed ++ [(e,b)]) = passed ++ [] := by simp [Op.cells]
    refine ⟨m.unlink p b,?_,?_,?_⟩
    · rw [exec,ran]
      simp
    · rw [kept]
      exact stands_unlink stands cursor
    · rw [kept]
      exact framed_unlink cursor

theorem did_delete (stands : Stands m l cells) (enough : cells.length < turns) (e : Int) :
    Did turns m l (.delete e) cells (.number (if e ∈ cells.map Prod.fst then e else -1)) := by
  have member : e ∈ cells.map Prod.fst ↔ ∃ d ∈ cells, d.1 = e := List.mem_map
  by_cases present : ∃ d ∈ cells, d.1 = e
  · obtain ⟨passed,b,rest,p,rfl,before,cursor,ran⟩ := listDelete_present stands present enough
    have kept : (Op.delete e : Op A).cells (passed ++ (e,b) :: rest) = passed ++ rest := by
      show (passed ++ (e,b) :: rest).eraseP (fun c => c.1 = e) = passed ++ rest
      rw [List.eraseP_append_right _ (by simpa using before),List.eraseP_cons_of_pos (by simp)]
    refine ⟨m.unlink p b,?_,?_,?_⟩
    · rw [exec,ran,if_pos (member.mpr present)]
      rfl
    · rw [kept]
      exact stands_unlink stands cursor
    · rw [kept]
      exact framed_unlink cursor
  · have absent : ∀ d ∈ cells, d.1 ≠ e := fun d inside same => present ⟨d,inside,same⟩
    have kept : (Op.delete e : Op A).cells cells = cells := List.eraseP_of_forall_not (fun d inside => by simpa using absent d inside)
    refine ⟨m,?_,?_,?_⟩
    · rw [exec,listDelete_absent stands absent enough,if_neg (fun inside => present (member.mp inside))]
      rfl
    · rwa [kept]
    · rw [kept]
      exact framed_refl _ _

/-- One call. -/
theorem exec_intended {op : Op A} {ys : List Int} {result : Result} (stands : Stands m l cells) (fresh : op.Fresh m)
    (enough : cells.length < turns) (intended : op.intended (cells.map Prod.fst) = some (ys,result)) :
    Did turns m l op cells result ∧ (op.cells cells).map Prod.fst = ys := by
  cases op with
  | putFirst e answer =>
    obtain ⟨b,rfl,free⟩ := fresh
    by_cases real : 0 ≤ e
    · rw [Op.intended,if_pos real] at intended
      cases intended
      refine ⟨⟨m.put l b e,?_,stands_put stands free e,framed_put free e⟩,rfl⟩
      rw [exec,listPutFirst_eq stands free real]
      rfl
    · rw [Op.intended,if_neg real] at intended
      cases intended
  | getFirst =>
    cases intended
    exact ⟨did_getFirst stands turns,List.map_tail⟩
  | getLast =>
    cases intended
    exact ⟨did_getLast stands enough,List.map_dropLast⟩
  | delete e =>
    cases intended
    refine ⟨did_delete stands enough e,?_⟩
    rw [List.erase_eq_eraseP',List.eraseP_map]
    rfl
  | lookup x =>
    cases intended
    refine ⟨⟨m,?_,stands,framed_refl _ _⟩,rfl⟩
    rw [exec,listLookup_eq stands x enough]
    rfl
  | empty =>
    cases intended
    obtain ⟨m',ran,stands',framed⟩ := listEmpty_eq stands enough
    refine ⟨⟨m',?_,stands',framed⟩,rfl⟩
    rw [exec,ran]
    rfl
  | traverse answer =>
    cases intended
    obtain ⟨it,rfl,free⟩ := fresh
    obtain ⟨pos,ran⟩ := traverse_eq stands free enough
    refine ⟨⟨m.moved it pos,?_,stands_moved stands it pos,framed_moved free pos _⟩,rfl⟩
    rw [exec,ran]
    rfl

theorem exec_panics {op : Op A} (panics : op.intended (cells.map Prod.fst) = none) : exec turns m (some l) op = .error .panic := by
  cases op with
  | putFirst e answer =>
    by_cases real : 0 ≤ e
    · rw [Op.intended,if_pos real] at panics
      cases panics
    · rw [exec,listPutFirst,assertSome_some,ok_bind,if_neg real]
      rfl
  | _ => cases panics

/-! ### Calls after each other -/

/-- Calls do with the cells in memory what they are supposed to do with a list of
    numbers: they give the same results, or stop with the same failed assertion,
    and what is left in memory is a chain without a cycle, of these numbers. -/
def Refines (turns : Nat) (m : Memory A) (l : A) (cells : List (Int × A)) (ops : List (Op A)) : Prop :=
  match intendedRun (cells.map Prod.fst) ops with
  | none => run turns (some l) m ops = .error .panic
  | some (ys,results) =>
    ∃ m' cells', run turns (some l) m ops = .ok (m',results) ∧ Stands m' l cells' ∧ (blocks l cells').Nodup ∧
      cells'.map Prod.fst = ys ∧ Framed m m' (blocks l cells) (blocks l cells')

theorem run_refines (ops : List (Op A)) (stands : Stands m l cells) (fresh : FreshAlong turns (some l) m ops)
    (enough : cells.length + ops.length < turns + 1) : Refines turns m l cells ops := by
  induction ops generalizing m cells with
  | nil => exact ⟨m,cells,rfl,stands,stands_nodup stands,rfl,framed_refl _ _⟩
  | cons op rest ih =>
    obtain ⟨answer,later⟩ := fresh
    rw [List.length_cons] at enough
    unfold Refines
    rw [intendedRun,run]
    cases intended : op.intended (cells.map Prod.fst) with
    | none =>
      rw [exec_panics intended]
      rfl
    | some outcome =>
      obtain ⟨xs,result⟩ := outcome
      have roomy : cells.length < turns := by omega
      obtain ⟨⟨m',ran,stands',framed⟩,contents⟩ := exec_intended stands answer roomy intended
      rw [ran] at later ⊢
      have few := cells_length op cells
      have rest' := ih stands' later (by omega)
      unfold Refines at rest'
      rw [contents] at rest'
      rw [Option.bind_eq_bind,Option.bind_some,ok_bind]
      dsimp only
      cases intended' : intendedRun xs rest with
      | none =>
        rw [intended'] at rest'
        rw [show run turns (some l) m' rest = _ from rest']
        rfl
      | some outcome =>
        obtain ⟨ys,results⟩ := outcome
        rw [intended'] at rest'
        obtain ⟨m'',cells',ran',stands'',nodup,contents',framed'⟩ := rest'
        refine ⟨m'',cells',?_,stands'',nodup,contents',framed_trans framed framed'⟩
        rw [ran']
        rfl

/-! ### The end of a list -/

theorem listFree_segment {as : List A} {p : Option A} (way : Segment m.next p as none)
    (live : ∀ b ∈ as, m.live b = some .cell) (enough : as.length < turns) :
    listFree turns m p = .ok { m with live := fun b => if b ∈ as then none else m.live b } := by
  induction as generalizing m p turns with
  | nil =>
    cases turns with
    | zero => cases enough
    | succ turns =>
      obtain rfl : p = none := way
      rw [listFree,if_pos rfl]
      simp
  | cons a as ih =>
    cases turns with
    | zero => cases enough
    | succ turns =>
      have nodup := List.nodup_cons.mp (segment_nodup way)
      obtain ⟨rfl,rest⟩ := way
      have here := live a List.mem_cons_self
      have others : ∀ b ∈ as, Function.update m.live a none b = some .cell := by
        intro b member
        have other : b ≠ a := fun same => nodup.1 (same ▸ member)
        rw [Function.update_of_ne other]
        exact live b (List.mem_cons_of_mem _ member)
      have later := ih (m := { m with live := Function.update m.live a none }) rest others (Nat.lt_of_succ_lt_succ enough)
      rw [listFree,if_neg (Option.some_ne_none _),nextOf_live here,ok_bind,listFreeBlock,memFree_live here,ok_bind,later]
      congr 2
      funext b
      by_cases first : b = a
      · simp [first]
      · simp [first]

/-- `list_free` gives back the blocks of the list, and no others. -/
theorem listFree_eq (stands : Stands m l cells) (enough : (blocks l cells).length < turns) :
    listFree turns m (some l) = .ok { m with live := fun b => if b ∈ blocks l cells then none else m.live b } :=
  listFree_segment stands.chain stands.live enough

/-! ### New lists -/

/-- Memory with a list that has been made in it. -/
def Memory.created (m : Memory A) (l : A) : Memory A where
  live := Function.update m.live l (some .cell)
  element := Function.update m.element l (-1)
  next := Function.update m.next l none
  curPos := m.curPos

theorem listNew_eq (m : Memory A) (l : A) : listNew m (some l) = .ok (m.created l,some l) := by
  have live : Function.update m.live l (some Kind.cell) l = some .cell := Function.update_self ..
  show (({ m with live := Function.update m.live l (some .cell) } : Memory A).setElement (some l) (-1) >>= fun m =>
    m.setNext (some l) none >>= fun m => pure (m,some l)) = _
  rw [setElement_live live,ok_bind,setNext_live live]
  rfl

theorem stands_created (m : Memory A) (l : A) : Stands (m.created l) l [] := by
  refine ⟨behind_nil (Function.update_self ..),?_,Function.update_self ..,fun _ member => nomatch member⟩
  intro b member
  rw [List.map_nil,List.mem_singleton] at member
  rw [member]
  exact Function.update_self ..

theorem framed_created (fresh : m.live l = none) : Framed m (m.created l) [] [l] := by
  refine ⟨?_,fun _ member _ => absurd member List.not_mem_nil,?_,?_⟩
  · intro b _ other
    exact Function.update_of_ne (fun same => other (List.mem_singleton.mpr same)) _ _
  · intro b member _
    rwa [List.mem_singleton.mp member]
  · intro b live _
    have other : b ≠ l := fun same => live (same ▸ fresh)
    exact ⟨Function.update_of_ne other _ _,Function.update_of_ne other _ _,rfl⟩

/-- Whatever is called on a new list, and in which order: a list of numbers tells
    what the calls give back, and no loop makes more turns than there are calls. -/
theorem list_refines (m : Memory A) (l : A) (ops : List (Op A)) (turns : Nat)
    (fresh : m.live l = none ∧ FreshAlong turns (some l) (m.created l) ops) (enough : ops.length ≤ turns) :
    listNew m (some l) = .ok (m.created l,some l) ∧ Framed m (m.created l) [] (blocks l []) ∧
      Refines turns (m.created l) l [] ops := by
  refine ⟨listNew_eq m l,framed_created fresh.1,run_refines ops (stands_created m l) fresh.2 ?_⟩
  rw [List.length_nil]
  omega

/-- Memory with no block in use. -/
def vacant : Memory Nat := ⟨fun _ => none,fun _ => 0,fun _ => none,fun _ => none⟩

/-- Two elements come and one goes; block 1 is used again. -/
def calls : List (Op Nat) :=
  [.putFirst 5 (some 1),.putFirst 7 (some 2),.delete 5,.putFirst 3 (some 1),.traverse (some 3),.getLast]

theorem list_refines_calls :
    listNew vacant (some 0) = .ok (vacant.created 0,some 0) ∧ Framed vacant (vacant.created 0) [] (blocks 0 []) ∧
      Refines 6 (vacant.created 0) 0 [] calls :=
  list_refines vacant 0 calls 6
    ⟨rfl,⟨1,rfl,rfl⟩,⟨2,rfl,rfl⟩,trivial,⟨1,rfl,rfl⟩,⟨3,rfl,rfl⟩,trivial,trivial⟩ (by decide)

/-! ### The books of the kernel -/

/-- The call where only the blocks are kept. -/
def Op.book (b : Blocks.Machine) (place : Blocks.Place) : Op Nat → Blocks.Machine
  | .putFirst e _ => (Blocks.listPutFirst b true place e).1
  | .getFirst => (Blocks.listGetFirst b place).1
  | .getLast => (Blocks.listGetLast b place).1
  | .delete e => Blocks.listDelete b place e
  | _ => b

theorem list_setList (b : Blocks.Machine) (place : Blocks.Place) (c : Blocks.Chain) :
    (b.setList place c).list place = some c := by
  cases place <;> simp [Blocks.Machine.setList,Blocks.Machine.list,Blocks.Machine.setProc,Blocks.Machine.setSem]

theorem list_memFree (b : Blocks.Machine) (place : Blocks.Place) (block : Nat) :
    (Blocks.memFree b block).list place = b.list place := by
  cases place <;> rfl

theorem erase_found {c : Int × Nat} {cells : List (Int × Nat)} {q : Int × Nat → Bool} (found : cells.find? q = some c) :
    cells.erase c = cells.eraseP q := by
  induction cells with
  | nil => cases found
  | cons d rest ih =>
    by_cases first : q d = true
    · rw [List.find?_cons_of_pos first] at found
      obtain rfl := Option.some.inj found
      rw [List.erase_cons_head,List.eraseP_cons_of_pos first]
    · rw [List.find?_cons_of_neg first] at found
      have other : d ≠ c := fun same => first (same ▸ List.find?_some found)
      rw [List.erase_cons_tail (by simpa using other),List.eraseP_cons_of_neg first,ih found]

/-- The cells that are kept there are those in memory. -/
theorem book_cells {op : Op Nat} {b : Blocks.Machine} {place : Blocks.Place} {l : Nat} {cells : List (Int × Nat)}
    (there : b.list place = some ⟨l,cells⟩) (answers : ∀ e answer, op = .putFirst e answer → answer = some b.next)
    (full : op ≠ .empty) : (op.book b place).list place = some ⟨l,op.cells cells⟩ := by
  cases op with
  | putFirst e answer =>
    obtain rfl := answers e answer rfl
    rw [Op.book,Blocks.listPutFirst,there]
    exact list_setList _ place _
  | getFirst =>
    rw [Op.book,Blocks.listGetFirst,there]
    cases cells with
    | nil => exact there
    | cons c rest => exact (list_memFree _ place c.2).trans (list_setList b place _)
  | getLast =>
    rw [Op.book,Blocks.listGetLast,there]
    rcases List.eq_nil_or_concat' cells with rfl | ⟨front,c,rfl⟩
    · exact there
    · dsimp only
      rw [List.getLast?_concat]
      exact (list_memFree _ place c.2).trans (list_setList b place _)
  | delete e =>
    rw [Op.book,Blocks.listDelete,there]
    dsimp only
    cases found : cells.find? (fun cell => cell.1 = e) with
    | none =>
      have absent := List.find?_eq_none.mp found
      rw [there,Op.cells,List.eraseP_of_forall_not absent]
    | some cell =>
      refine (list_memFree _ place cell.2).trans ((list_setList b place _).trans ?_)
      rw [erase_found found]
      rfl
  | empty => exact absurd rfl full
  | _ => exact there

end Psys.Lists
