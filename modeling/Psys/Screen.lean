import Psys.Terminal

/-!
A console as a terminal of 25 rows of 80 characters. The code differs from the
terminal where a byte fills the last cell of the screen: after scrolling, it is
drawn a second time at the start of the new row. The copy stays there unless the
next byte overwrites it, or until it is scrolled away.
-/
namespace Psys.Screen
open Psys.Video Psys.Terminal

/-! ### The terminal -/

/-- A terminal; the character in the row `r` and the column `c` is the cell
    `80 * r + c`. -/
structure Term where
  cells : Nat → UInt8
  cursor : Nat

/-- All rows move up by one, and the last one becomes blank. -/
def Term.shift (t : Term) : Term where
  cells := fun i => if i < 1920 then t.cells (i + 80) else 32
  cursor := t.cursor - 80

/-- Where a byte takes the cursor: a newline or a carriage return to the start
    of the next row, a tab to the next multiple of 8, and all others to the next
    cell. -/
def target (c : UInt8) (cursor : Nat) : Nat :=
  if c = 10 ∨ c = 13 then (cursor / 80 + 1) * 80
  else if c = 9 then (cursor / 8 + 1) * 8
  else cursor + 1

/-- A byte arrives. -/
def Term.receive (t : Term) (c : UInt8) : Term :=
  let moved : Term :=
    { cells := if Stored c then Function.update t.cells t.cursor c else t.cells, cursor := target c t.cursor }
  if moved.cursor < 2000 then moved else moved.shift

/-- A cleared terminal. -/
def blank : Term := ⟨fun _ => 32,0⟩

/-- What a terminal shows that receives a string. -/
def reference (s : List UInt8) : Term := s.foldl Term.receive blank

/-! ### The strings that are shown right -/

/-- The cursor after a byte. -/
def next (c : UInt8) (cursor : Nat) : Nat := if target c cursor < 2000 then target c cursor else target c cursor - 80

/-- How often a string moves past the last cell. -/
def shifts : Nat → List UInt8 → Nat
  | _, [] => 0
  | cursor, c :: rest => (if target c cursor < 2000 then 0 else 1) + shifts (next c cursor) rest

/-- The first byte is stored in a cell. -/
def Starts : List UInt8 → Prop
  | [] => False
  | c :: _ => Stored c

/-- A character at the start of the last row, where the cursor is, does not
    survive the string: it is overwritten or scrolled away. -/
def Covered (rest : List UInt8) : Prop := Starts rest ∨ 25 ≤ shifts 1920 rest

/-- Every byte other than a space that is stored in the last cell is followed by
    bytes that cover its copy. -/
def Clean : Nat → List UInt8 → Prop
  | _, [] => True
  | cursor, c :: rest => (cursor = 1999 → Stored c → c ≠ 32 → Covered rest) ∧ Clean (next c cursor) rest

instance : DecidablePred Starts
  | [] => instDecidableFalse
  | c :: _ => inferInstanceAs (Decidable (Stored c))

instance (rest : List UInt8) : Decidable (Covered rest) := inferInstanceAs (Decidable (_ ∨ _))

instance decClean : ∀ (cursor : Nat) (s : List UInt8), Decidable (Clean cursor s)
  | _, [] => instDecidableTrue
  | cursor, c :: rest =>
    have : Decidable (Clean (next c cursor) rest) := decClean _ rest
    inferInstanceAs (Decidable (_ ∧ _))

/-! ### One byte in the code -/

theorem target_advance {c : UInt8} (other : c ≠ 8) (cursor : Nat) : advance c cursor = target c cursor := by
  unfold target
  split
  · rename_i row
    rw [advance_row (by omega) row]
    omega
  · rename_i column
    split
    · rename_i tab
      subst tab
      rw [advance_tab]
      omega
    · rename_i cell
      rw [advance_stored ⟨by tauto,other⟩]
      omega

theorem target_bounds {c : UInt8} {cursor : Nat} (inside : cursor < 2000) :
    cursor < target c cursor ∧ target c cursor ≤ 2000 := by
  unfold target
  split
  · omega
  · split <;> omega

theorem target_stored {c : UInt8} (stored : Stored c) (cursor : Nat) : target c cursor = cursor + 1 := by
  simp only [Stored,not_or] at stored
  simp [target,stored.1]

theorem next_lt {c : UInt8} {cursor : Nat} (inside : cursor < 2000) : next c cursor < 2000 := by
  have := target_bounds (c := c) inside
  unfold next
  split <;> omega

section Byte
variable {vc : Console} {cursor : Nat} {c : UInt8} (pos : vc.pos = cursor) (other : c ≠ 8)
include pos other

theorem put_cursor (inside : cursor < 2000) : (put c vc).pos = next c cursor := by
  have onScreen : OnScreen vc.pos := by
    simp only [OnScreen,NB_COL,NB_ROW,pos]
    omega
  have bounds := target_bounds (c := c) inside
  rw [put_pos onScreen,if_neg other,pos,target_advance other]
  by_cases fits : target c cursor < 2000
  · rw [if_neg (by simp only [NB_COL,NB_ROW]; omega),next,if_pos fits]
  · rw [if_pos (by simp only [NB_COL,NB_ROW]; omega),next,if_neg fits]
    simp only [NB_COL]
    omega

private theorem put_advance : advance c (drawn c vc).pos = target c cursor := by
  rw [drawn_pos,if_neg other,pos,target_advance other]

/-- `console_drawbyte` stores the byte at the cursor, or nothing. -/
theorem drawn_cell (i : Nat) : ((drawn c vc).mem i).c = if Stored c ∧ i = cursor then c else (vc.mem i).c := by
  rcases kinds c with moves | back | stored
  · have unstored : ¬ Stored c := fun stored => stored.1 moves
    simp only [drawn_moves moves,unstored,false_and,if_false]
  · exact absurd back other
  · rw [drawn_stored stored,pos]
    by_cases here : i = cursor
    · simp [here,stored]
    · have apart : (i : Int) ≠ cursor := by omega
      simp [here,apart]

/-- The characters after a byte that does not scroll. -/
theorem put_fits (fits : target c cursor < 2000) (i : Nat) :
    ((put c vc).mem i).c = if Stored c ∧ i = cursor then c else (vc.mem i).c := by
  have kept : (put c vc).mem = (drawn c vc).mem := by
    unfold put
    dsimp only
    rw [if_neg (by rw [put_advance pos other]; simp only [NB_COL,NB_ROW]; omega)]
  rw [kept,drawn_cell pos other]

omit pos other in
theorem scrolled_cell (w : Console) {i : Nat} (low : i < 2000) :
    ((scrolled w).mem i).c = if i < 1920 then (w.mem (i + 80 : Nat)).c else 32 := by
  have onScreen : OnScreen i := by
    simp only [OnScreen,NB_COL,NB_ROW]
    omega
  simp only [scrolled,NB_COL,NB_ROW]
  by_cases upper : i < 1920
  · rw [if_pos (by omega),if_pos upper]
    push_cast
    rfl
  · rw [if_neg (by omega),if_pos onScreen,if_neg upper]

/-- The characters after a byte that scrolls, with the copy. -/
theorem put_scrolls (past : target c cursor = 2000) {i : Nat} (low : i < 2000) :
    ((put c vc).mem i).c =
      if Stored c ∧ i = 1920 then c
      else if i < 1920 then (if Stored c ∧ i + 80 = cursor then c else (vc.mem (i + 80 : Nat)).c) else 32 := by
  have moved := put_advance pos other
  have whole : put c vc = drawn c (scrolled { drawn c vc with pos := 2000 }) := by
    unfold put
    dsimp only
    rw [moved,past,if_pos (by simp [NB_COL,NB_ROW])]
    rfl
  have row : (scrolled { drawn c vc with pos := 2000 }).pos = (1920 : Nat) := rfl
  rw [whole,drawn_cell row other,scrolled_cell _ low,drawn_cell pos other]

end Byte

/-! ### The code and the terminal -/

/-- The console shows what the terminal shows, but for the first cells of the
    rows in `stale`. -/
structure Agrees (vc : Console) (t : Term) (stale : Nat → Prop) : Prop where
  pos : vc.pos = t.cursor
  inside : t.cursor < 2000
  behind : ∀ r, stale r → 80 * r ≤ t.cursor
  same : ∀ i : Nat, i < 2000 → ((vc.mem i).c = t.cells i ↔ ¬ ∃ r, stale r ∧ i = 80 * r)

/-- The stale rows after a byte. -/
def staleAfter (stale : Nat → Prop) (cursor : Nat) (c : UInt8) (r : Nat) : Prop :=
  if target c cursor < 2000 then stale r ∧ ¬ (Stored c ∧ 80 * r = cursor)
  else stale (r + 1) ∨ r = 24 ∧ Stored c ∧ c ≠ 32

theorem staleAfter_fits {stale : Nat → Prop} {cursor : Nat} {c : UInt8} (fits : target c cursor < 2000) (r : Nat) :
    staleAfter stale cursor c r ↔ stale r ∧ ¬ (Stored c ∧ 80 * r = cursor) := by
  rw [staleAfter,if_pos fits]

theorem staleAfter_scrolls {stale : Nat → Prop} {cursor : Nat} {c : UInt8} (past : ¬ target c cursor < 2000) (r : Nat) :
    staleAfter stale cursor c r ↔ stale (r + 1) ∨ r = 24 ∧ Stored c ∧ c ≠ 32 := by
  rw [staleAfter,if_neg past]

theorem receive_cursor (t : Term) (c : UInt8) : (t.receive c).cursor = next c t.cursor := by
  unfold Term.receive next
  dsimp only
  split <;> rfl

/-- What the terminal stores. -/
theorem receive_cell (t : Term) (c : UInt8) (i : Nat) :
    (if Stored c then Function.update t.cells t.cursor c else t.cells) i =
      if Stored c ∧ i = t.cursor then c else t.cells i := by
  by_cases stored : Stored c
  · rw [if_pos stored,Function.update_apply]
    simp only [stored,true_and]
  · simp only [stored,false_and,if_false]

/-- A byte that does not scroll. -/
theorem Agrees.fits {vc : Console} {t : Term} {stale : Nat → Prop} (agrees : Agrees vc t stale) {c : UInt8} (other : c ≠ 8)
    (fits : target c t.cursor < 2000) : Agrees (put c vc) (t.receive c) (staleAfter stale t.cursor c) := by
  have forward := (target_bounds (c := c) agrees.inside).1
  have cells : (t.receive c).cells = if Stored c then Function.update t.cells t.cursor c else t.cells := by
    simp [Term.receive,fits]
  refine ⟨?_,?_,fun r old => ?_,fun i low => ?_⟩
  · rw [receive_cursor,put_cursor agrees.pos other agrees.inside]
  · rw [receive_cursor]
    exact next_lt agrees.inside
  · rw [receive_cursor,next,if_pos fits]
    have := agrees.behind r ((staleAfter_fits fits r).mp old).1
    omega
  · rw [put_fits agrees.pos other fits,cells,receive_cell]
    simp only [staleAfter_fits fits]
    by_cases drawn : Stored c ∧ i = t.cursor
    · obtain ⟨stored,rfl⟩ := drawn
      have fresh : ¬ ∃ r, (stale r ∧ ¬ (Stored c ∧ 80 * r = t.cursor)) ∧ t.cursor = 80 * r := by
        rintro ⟨r,⟨_,new⟩,here⟩
        exact new ⟨stored,here.symm⟩
      rw [if_pos ⟨stored,rfl⟩,if_pos ⟨stored,rfl⟩]
      exact iff_of_true rfl fresh
    · rw [if_neg drawn,if_neg drawn,agrees.same i low]
      refine not_congr (exists_congr (fun r => ?_))
      constructor
      · rintro ⟨old,here⟩
        exact ⟨⟨old,fun new => drawn ⟨new.1,here.trans new.2⟩⟩,here⟩
      · rintro ⟨⟨old,_⟩,here⟩
        exact ⟨old,here⟩

/-- A byte that scrolls, and its copy. -/
theorem Agrees.scrolls {vc : Console} {t : Term} {stale : Nat → Prop} (agrees : Agrees vc t stale) {c : UInt8} (other : c ≠ 8)
    (past : ¬ target c t.cursor < 2000) : Agrees (put c vc) (t.receive c) (staleAfter stale t.cursor c) := by
  have bounds := target_bounds (c := c) agrees.inside
  have full : target c t.cursor = 2000 := by omega
  have last : (t.receive c).cursor = 1920 := by
    rw [receive_cursor,next,if_neg past,full]
  have cells : ∀ i, (t.receive c).cells i =
      if i < 1920 then (if Stored c then Function.update t.cells t.cursor c else t.cells) (i + 80) else 32 := by
    intro i
    unfold Term.receive
    dsimp only
    rw [if_neg past]
    rfl
  have old : ∀ r, stale (r + 1) → r < 24 := by
    intro r was
    have := agrees.behind (r + 1) was
    have := agrees.inside
    omega
  refine ⟨?_,by omega,fun r is => ?_,fun i low => ?_⟩
  · rw [receive_cursor,put_cursor agrees.pos other agrees.inside]
  · rw [last]
    rcases (staleAfter_scrolls past r).mp is with was | ⟨rfl,_⟩
    · have := old r was
      omega
    · omega
  · rw [put_scrolls agrees.pos other full low,cells]
    simp only [staleAfter_scrolls past]
    by_cases upper : i < 1920
    · have apart : i ≠ 1920 := by omega
      simp only [apart,and_false,if_false,upper,if_true]
      have shifted : (∃ r, (stale (r + 1) ∨ r = 24 ∧ Stored c ∧ c ≠ 32) ∧ i = 80 * r) ↔ ∃ r, stale r ∧ i + 80 = 80 * r := by
        constructor
        · rintro ⟨r,was | ⟨rfl,_⟩,here⟩
          · exact ⟨r + 1,was,by omega⟩
          · omega
        · rintro ⟨r,was,here⟩
          obtain ⟨r,rfl⟩ : ∃ k, r = k + 1 := ⟨r - 1,by omega⟩
          exact ⟨r,.inl was,by omega⟩
      rw [shifted,receive_cell]
      by_cases drawn : Stored c ∧ i + 80 = t.cursor
      · obtain ⟨stored,here⟩ := drawn
        have corner : t.cursor = 1999 := by
          have := target_stored stored t.cursor
          omega
        have fresh : ¬ ∃ r, stale r ∧ t.cursor = 80 * r := by
          rintro ⟨r,_,start⟩
          omega
        simp [stored,here,fresh]
      · rw [if_neg drawn,if_neg drawn]
        exact agrees.same (i + 80) (by omega)
    · simp only [upper,if_false]
      by_cases copy : Stored c ∧ i = 1920
      · obtain ⟨stored,rfl⟩ := copy
        rw [if_pos ⟨stored,rfl⟩]
        constructor
        · rintro blank ⟨r,was | ⟨_,_,visible⟩,here⟩
          · have := old r was
            omega
          · exact visible blank
        · intro clean
          by_contra visible
          exact clean ⟨24,.inr ⟨rfl,stored,visible⟩,rfl⟩
      · rw [if_neg copy]
        refine iff_of_true rfl ?_
        rintro ⟨r,was | ⟨rfl,stored,_⟩,here⟩
        · have := old r was
          omega
        · exact copy ⟨stored,here⟩

/-- One byte. -/
theorem Agrees.receive {vc : Console} {t : Term} {stale : Nat → Prop} (agrees : Agrees vc t stale) {c : UInt8} (other : c ≠ 8) :
    Agrees (put c vc) (t.receive c) (staleAfter stale t.cursor c) := by
  by_cases fits : target c t.cursor < 2000
  · exact agrees.fits other fits
  · exact agrees.scrolls other fits

/-! ### Whole strings -/

/-- The first cell of the row `r` is overwritten by the string or scrolled
    away. -/
def Gone (r cursor : Nat) (s : List UInt8) : Prop := (80 * r = cursor ∧ Starts s) ∨ r < shifts cursor s

section Step
variable {stale : Nat → Prop} {cursor : Nat} (inside : cursor < 2000) (behind : ∀ r, stale r → 80 * r ≤ cursor)
  {c : UInt8} (rest : List UInt8)
include inside behind

/-- A byte that does not scroll overwrites the stale cell it is stored in, and
    none of them is a copy of its own. -/
theorem gone_fits (fits : target c cursor < 2000) :
    (∀ r, stale r → Gone r cursor (c :: rest)) ∧ (cursor = 1999 → Stored c → c ≠ 32 → Covered rest) ↔
      ∀ r, staleAfter stale cursor c r → Gone r (next c cursor) rest := by
  have bounds := target_bounds (c := c) inside
  have corner : cursor = 1999 → ¬ Stored c := by
    intro last stored
    have := target_stored stored cursor
    omega
  have moved : next c cursor = target c cursor := if_pos fits
  have same : shifts cursor (c :: rest) = shifts (next c cursor) rest := by simp [shifts,fits]
  constructor
  · rintro ⟨gone,_⟩ r old
    obtain ⟨was,kept⟩ := (staleAfter_fits fits r).mp old
    rcases gone r was with ⟨here,starts⟩ | scrolled
    · exact absurd ⟨starts,here⟩ kept
    · exact .inr (same ▸ scrolled)
  · intro gone
    refine ⟨fun r was => ?_,fun last stored => absurd stored (corner last)⟩
    by_cases stored : Stored c ∧ 80 * r = cursor
    · exact .inl ⟨stored.2,stored.1⟩
    · rcases gone r ((staleAfter_fits fits r).mpr ⟨was,stored⟩) with ⟨here,_⟩ | scrolled
      · have := behind r was
        omega
      · exact .inr (same ▸ scrolled)

/-- A byte that scrolls moves the stale rows up and leaves its copy in the last
    one. -/
theorem gone_scrolls (past : ¬ target c cursor < 2000) :
    (∀ r, stale r → Gone r cursor (c :: rest)) ∧ (cursor = 1999 → Stored c → c ≠ 32 → Covered rest) ↔
      ∀ r, staleAfter stale cursor c r → Gone r (next c cursor) rest := by
  have bounds := target_bounds (c := c) inside
  have row : next c cursor = 1920 := by
    rw [next,if_neg past]
    omega
  have one : shifts cursor (c :: rest) = 1 + shifts 1920 rest := by simp [shifts,past,row]
  have stored_last : Stored c → cursor = 1999 := by
    intro stored
    have := target_stored stored cursor
    omega
  have after : ∀ r, staleAfter stale cursor c r ↔ stale (r + 1) ∨ r = 24 ∧ Stored c ∧ c ≠ 32 := staleAfter_scrolls past
  rw [row]
  constructor
  · rintro ⟨gone,covered⟩ r old
    rcases (after r).mp old with was | ⟨rfl,stored,visible⟩
    · rcases gone (r + 1) was with ⟨here,starts⟩ | scrolled
      · have := stored_last starts
        omega
      · rw [one] at scrolled
        exact .inr (by omega)
    · rcases covered (stored_last stored) stored visible with starts | many
      · exact .inl ⟨rfl,starts⟩
      · exact .inr many
  · intro gone
    refine ⟨fun r was => ?_,fun _ stored visible => ?_⟩
    · cases r with
      | zero => exact .inr (by omega)
      | succ r =>
        rcases gone r ((after r).mpr (.inl was)) with ⟨here,_⟩ | scrolled
        · have := behind (r + 1) was
          omega
        · exact .inr (by omega)
    · rcases gone 24 ((after 24).mpr (.inr ⟨rfl,stored,visible⟩)) with ⟨_,starts⟩ | many
      · exact .inl starts
      · exact .inr many

/-- The stale rows vanish exactly when those after the first byte do, the row of
    its copy included. -/
theorem gone_step :
    (∀ r, stale r → Gone r cursor (c :: rest)) ∧ (cursor = 1999 → Stored c → c ≠ 32 → Covered rest) ↔
      ∀ r, staleAfter stale cursor c r → Gone r (next c cursor) rest := by
  by_cases fits : target c cursor < 2000
  · exact gone_fits inside behind rest fits
  · exact gone_scrolls inside behind rest fits

end Step

/-- The characters are those of the terminal exactly when every stale row is
    gone at the end and the string is clean. -/
theorem Agrees.whole {vc : Console} {t : Term} {stale : Nat → Prop} (agrees : Agrees vc t stale) {s : List UInt8}
    (plain : 8 ∉ s) :
    (∀ i : Nat, i < 2000 → ((s.foldl (fun vc c => put c vc) vc).mem i).c = (s.foldl Term.receive t).cells i) ↔
      (∀ r, stale r → Gone r t.cursor s) ∧ Clean t.cursor s := by
  induction s generalizing vc t stale with
  | nil =>
    constructor
    · intro same
      refine ⟨fun r old => ?_,trivial⟩
      have low := agrees.behind r old
      have inside := agrees.inside
      exact absurd ⟨r,old,rfl⟩ ((agrees.same (80 * r) (by omega)).mp (same (80 * r) (by omega)))
    · rintro ⟨gone,_⟩ i low
      refine (agrees.same i low).mpr ?_
      rintro ⟨r,old,_⟩
      rcases gone r old with ⟨_,starts⟩ | scrolled
      · exact starts
      · exact Nat.not_lt_zero _ scrolled
  | cons c rest ih =>
    have other : c ≠ 8 := fun same => plain (by simp [same])
    have later : 8 ∉ rest := fun member => plain (by simp [member])
    have step := gone_step agrees.inside agrees.behind (c := c) rest
    rw [List.foldl_cons,List.foldl_cons,ih (agrees.receive other) later,receive_cursor,Clean,← step]
    tauto

theorem consoleVcWrite_self (d : Display) (n : Int) (s : List UInt8) :
    (consoleVcWrite d n s).consoles n = s.foldl (fun vc c => put c vc) (d.consoles n) := by
  induction s generalizing d with
  | nil => rfl
  | cons c rest ih =>
    have first : (consolePutbyte d n c).consoles n = put c (d.consoles n) := by rw [consolePutbyte_consoles,if_pos rfl]
    exact (ih (consolePutbyte d n c)).trans (by rw [first]; rfl)

theorem consoleClear_agrees (d : Display) (n : Int) : Agrees ((consoleClear d n).consoles n) blank (fun _ => False) where
  pos := by simp [consoleClear,blank]
  inside := by decide
  behind r old := old.elim
  same i low := by
    have onScreen : OnScreen i := by
      simp only [OnScreen,NB_COL,NB_ROW]
      omega
    simp [consoleClear,blank,onScreen]

/-- A string without backspaces, written to a cleared console, leaves the
    characters of the terminal exactly when it covers every copy that it
    causes. -/
theorem screen_reference_iff (d : Display) (n : Int) {s : List UInt8} (plain : 8 ∉ s) :
    (∀ i : Nat, i < 2000 → (((consoleVcWrite (consoleClear d n) n s).consoles n).mem i).c = (reference s).cells i) ↔
      Clean 0 s := by
  rw [consoleVcWrite_self]
  have whole := (consoleClear_agrees d n).whole plain
  exact whole.trans (and_iff_right (fun r old => old.elim))

/-- A line break in the middle of a line. -/
theorem screen_reference_iff_break :
    (∀ i : Nat, i < 2000 → (((consoleVcWrite (consoleClear dark 0) 0 [97,10,98]).consoles 0).mem i).c =
      (reference [97,10,98]).cells i) ↔ Clean 0 [97,10,98] :=
  screen_reference_iff dark 0 (by decide)

/-- Fills the screen up to its last cell: 24 line breaks, 9 tabs and 8 letters. -/
def filling : List UInt8 := List.replicate 24 10 ++ List.replicate 9 9 ++ List.replicate 8 97

/-- The last letter is shown twice. -/
theorem screen_copies : ¬ ∀ (d : Display) (n : Int) (s : List UInt8), 8 ∉ s → ∀ i : Nat, i < 2000 →
    (((consoleVcWrite (consoleClear d n) n s).consoles n).mem i).c = (reference s).cells i := by
  intro claim
  have plain : 8 ∉ filling := by decide
  have wrong : ¬ Clean 0 filling := by decide
  have whole := (consoleClear_agrees dark 0).whole plain
  rw [← consoleVcWrite_self,show filling.foldl Term.receive blank = reference filling from rfl] at whole
  exact wrong (whole.mp (claim dark 0 filling plain)).2

end Psys.Screen
