import Psys.Words

/-!
The commands of the shell: the table that `shell_register_command` builds, and
which of its entries `shell_execute_cmd` runs for the first word of a line.
-/
namespace Psys.Commands
open Psys.Vfs (Text)
open Psys.Components (NUL StringAt literal literal_stringAt strncmp strncmp_eq_zero toNat_injective)

/-! ### Translation -/

def SHELL_MAX_CMD : Nat := 32

/-- `shell_association`, less what a command does, and `shell_max_cmd_len`. -/
structure Table where
  names : List Text
  maxCmdLen : Nat

/-- `shell_register_command` -/
def shellRegisterCommand (t : Table) (cmd : Text) : Table :=
  ⟨t.names ++ [cmd],if cmd.length > t.maxCmdLen then cmd.length else t.maxCmdLen⟩

/-- The table after some registrations. -/
def build (cmds : List Text) : Table := cmds.foldl shellRegisterCommand ⟨[],0⟩

/-- `n_matches`, `match` and the array `matches`. -/
structure Round where
  nMatches : Nat
  found : Int
  isMatch : Nat → Bool

/-- The loop over the commands, from one of them on. -/
def scan (word : Int → Char) (depth : Nat) : List Text → Nat → Round → Round
  | [], _, r => r
  | cmd :: rest, i, r =>
    scan word depth rest (i + 1)
      (if strncmp (literal cmd) word depth 0 = 0 then { r with nMatches := r.nMatches + 1, found := i }
       else { r with isMatch := Function.update r.isMatch i false })

/-- The commands that an ambiguous word is said to be one of. -/
def shown (isMatch : Nat → Bool) : List Text → Nat → List Text
  | [], _ => []
  | cmd :: rest, j => if isMatch j then cmd :: shown isMatch rest (j + 1) else shown isMatch rest (j + 1)

/-- What becomes of a line: the command at an index runs, or an error is
    printed. -/
inductive Outcome where
  | ran (found : Int)
  | ambiguous (candidates : List Text)
  | unknown
  deriving DecidableEq

/-- The loop over the depths, from one of them on, with so many left. -/
def search (t : Table) (word : Int → Char) : Nat → Nat → Round → Outcome
  | 0, _, _ => .unknown
  | left + 1, depth, r =>
    let r := scan word depth t.names 0 { r with nMatches := 0 }
    if r.nMatches = 1 then .ran r.found
    else if r.nMatches > 1 then .ambiguous (shown r.isMatch t.names 0)
    else search t word left (depth + 1) r

/-- `shell_execute_cmd` from the first word on. -/
def shellExecuteCmd (t : Table) (word : Text) : Outcome :=
  search t (literal word) (t.maxCmdLen + 1 - word.length) word.length ⟨0,-1,fun _ => true⟩

/-! ### The table -/

theorem foldl_register (cmds : List Text) (t : Table) :
    (cmds.foldl shellRegisterCommand t).names = t.names ++ cmds ∧ t.maxCmdLen ≤ (cmds.foldl shellRegisterCommand t).maxCmdLen ∧
      ∀ cmd ∈ cmds, cmd.length ≤ (cmds.foldl shellRegisterCommand t).maxCmdLen := by
  induction cmds generalizing t with
  | nil => exact ⟨(List.append_nil _).symm,le_refl _,fun _ member => nomatch member⟩
  | cons cmd rest ih =>
    obtain ⟨names,grows,inside⟩ := ih (shellRegisterCommand t cmd)
    have first : cmd.length ≤ (shellRegisterCommand t cmd).maxCmdLen ∧ t.maxCmdLen ≤ (shellRegisterCommand t cmd).maxCmdLen := by
      unfold shellRegisterCommand
      dsimp only
      split <;> omega
    rw [List.foldl_cons,List.forall_mem_cons]
    refine ⟨?_,first.2.trans grows,first.1.trans grows,inside⟩
    rw [names]
    exact List.append_assoc ..

theorem build_names (cmds : List Text) : (build cmds).names = cmds := (foldl_register cmds ⟨[],0⟩).1

/-- No command is longer than the longest one. -/
theorem build_maxCmdLen (cmds : List Text) : ∀ cmd ∈ cmds, cmd.length ≤ (build cmds).maxCmdLen :=
  (foldl_register cmds ⟨[],0⟩).2.2

/-! ### Comparing up to a depth -/

variable {word name : Int → Char} {at_ : Int} {s w : Text} {names : List Text} {depth i : Nat} {r : Round}

/-- Compared up to its length, a word agrees with the strings that it starts. -/
theorem strncmp_prefix (left : StringAt name at_ s) (right : StringAt word at_ w) :
    strncmp name word w.length at_ = 0 ↔ w <+: s := by
  induction w generalizing at_ s with
  | nil => exact iff_of_true rfl List.nil_prefix
  | cons d w ih =>
    obtain ⟨there,full,onward⟩ := right
    rw [List.length_cons,strncmp]
    cases s with
    | nil =>
      have ends : name at_ = NUL := left
      have differ : ((NUL.toNat : Int) - d.toNat) ≠ 0 := fun same => full (toNat_injective same).symm
      simp [ends,there,differ]
    | cons c rest =>
      obtain ⟨here,real,later⟩ := left
      rw [here,there]
      by_cases same : c = d
      · subst same
        simp only [sub_self,ne_eq,not_true_eq_false,real,or_self,if_false,List.cons_prefix_cons,true_and]
        exact ih later onward
      · have differ : ((c.toNat : Int) - d.toNat) ≠ 0 := fun zero => same (toNat_injective zero)
        simp [differ,Ne.symm same]

/-- The commands that agree with the word up to a depth. -/
def agrees (word : Int → Char) (depth : Nat) (cmd : Text) : Bool := decide (strncmp (literal cmd) word depth 0 = 0)

/-- The names that a word starts. -/
def completions (names : List Text) (w : Text) : List Text := names.filter (fun n => w.isPrefixOf n)

theorem filter_agrees (real : ∀ n ∈ names, NUL ∉ n) (realW : NUL ∉ w) :
    names.filter (agrees (literal w) w.length) = completions names w := by
  apply List.filter_congr
  intro n member
  have same := strncmp_prefix (literal_stringAt (real n member)) (literal_stringAt realW)
  rw [agrees,Bool.eq_iff_iff,decide_eq_true_iff,same]
  exact List.isPrefixOf_iff_prefix.symm

/-- Beyond the length of the word, only the word itself agrees. -/
theorem agrees_deeper (real : NUL ∉ s) (realW : NUL ∉ w) (deep : w.length < depth) :
    agrees (literal w) depth s = true ↔ s = w := by
  rw [agrees,decide_eq_true_iff]
  exact strncmp_eq_zero (literal_stringAt real) (literal_stringAt realW) deep

/-! ### One round -/

theorem scan_nMatches (names : List Text) (i : Nat) (r : Round) :
    (scan word depth names i r).nMatches = r.nMatches + (names.filter (agrees word depth)).length := by
  induction names generalizing i r with
  | nil => rfl
  | cons cmd rest ih =>
    rw [scan,ih]
    by_cases same : strncmp (literal cmd) word depth 0 = 0
    · have kept : agrees word depth cmd = true := decide_eq_true same
      rw [if_pos same,List.filter_cons_of_pos kept,List.length_cons]
      dsimp only
      omega
    · have dropped : ¬ agrees word depth cmd = true := by simpa [agrees] using same
      rw [if_neg same,List.filter_cons_of_neg dropped]

/-- A round that finds nothing leaves `match` alone. -/
theorem scan_none (none' : names.filter (agrees word depth) = []) (i : Nat) (r : Round) :
    (scan word depth names i r).found = r.found := by
  induction names generalizing i r with
  | nil => rfl
  | cons cmd rest ih =>
    rw [List.filter_eq_nil_iff,List.forall_mem_cons] at none'
    have other : ¬ strncmp (literal cmd) word depth 0 = 0 := by simpa [agrees] using none'.1
    rw [scan,if_neg other,ih (List.filter_eq_nil_iff.mpr none'.2)]

/-- A round that finds one command sets `match` to its index. -/
theorem scan_found {cmd : Text} (one : names.filter (agrees word depth) = [cmd]) (i : Nat) (r : Round) :
    ∃ j, names[j]? = some cmd ∧ (scan word depth names i r).found = ((i + j : Nat) : Int) := by
  induction names generalizing i r with
  | nil => cases one
  | cons first rest ih =>
    rw [scan]
    by_cases same : strncmp (literal first) word depth 0 = 0
    · have kept : agrees word depth first = true := decide_eq_true same
      rw [List.filter_cons_of_pos kept,List.cons_eq_cons] at one
      obtain ⟨rfl,none'⟩ := one
      rw [if_pos same,scan_none none']
      exact ⟨0,rfl,rfl⟩
    · have dropped : ¬ agrees word depth first = true := by simpa [agrees] using same
      rw [List.filter_cons_of_neg dropped] at one
      rw [if_neg same]
      obtain ⟨j,at',found⟩ := ih one (i + 1) _
      exact ⟨j + 1,at',found.trans (by congr 1; omega)⟩

/-! ### The candidates shown -/

theorem scan_before {j : Nat} (before : j < i) : (scan word depth names i r).isMatch j = r.isMatch j := by
  induction names generalizing i r with
  | nil => rfl
  | cons cmd rest ih =>
    rw [scan,ih (Nat.lt_succ_of_lt before)]
    split
    · rfl
    · exact Function.update_of_ne (by omega) _ _

/-- After the first round, what is left in `matches` are the commands that agree. -/
theorem shown_scan (all : ∀ j, i ≤ j → r.isMatch j = true) :
    shown (scan word depth names i r).isMatch names i = names.filter (agrees word depth) := by
  induction names generalizing i r with
  | nil => rfl
  | cons cmd rest ih =>
    rw [shown,scan,scan_before (Nat.lt_succ_self i)]
    by_cases same : strncmp (literal cmd) word depth 0 = 0
    · have kept : agrees word depth cmd = true := decide_eq_true same
      have later : ∀ j, i + 1 ≤ j → r.isMatch j = true := fun j behind => all j (by omega)
      rw [if_pos same,if_pos (all i (le_refl i)),List.filter_cons_of_pos kept]
      exact congrArg (cmd :: ·) (ih later)
    · have dropped : ¬ agrees word depth cmd = true := by simpa [agrees] using same
      rw [if_neg same,List.filter_cons_of_neg dropped,if_neg (by simp)]
      apply ih
      intro j behind
      exact (Function.update_of_ne (by omega) _ _).trans (all j (by omega))

/-! ### All rounds -/

/-- Rounds that find nothing lead to an unknown command. -/
theorem search_unknown {t : Table} {left : Nat} (nothing : ∀ d, depth ≤ d → t.names.filter (agrees word d) = []) :
    search t word left depth r = .unknown := by
  induction left generalizing depth r with
  | zero => rfl
  | succ left ih =>
    have counted : (scan word depth t.names 0 { r with nMatches := 0 }).nMatches = 0 + (t.names.filter (agrees word depth)).length :=
      scan_nMatches ..
    rw [nothing depth (le_refl depth)] at counted
    rw [search]
    simp only [counted,List.length_nil,Nat.add_zero,zero_ne_one,gt_iff_lt,if_false]
    exact ih (fun d deeper => nothing d (by omega))

theorem mem_completions (names : List Text) (w n : Text) : n ∈ completions names w ↔ n ∈ names ∧ w <+: n := by
  rw [completions,List.mem_filter,List.isPrefixOf_iff_prefix]

/-- There is a first round if some command begins with the word. -/
theorem exists_round (some' : completions names w ≠ []) :
    ∃ left, (build names).maxCmdLen + 1 - w.length = left + 1 := by
  obtain ⟨n,member⟩ := List.exists_mem_of_ne_nil _ some'
  rw [mem_completions] at member
  have short := member.2.length_le
  have fits := build_maxCmdLen names n member.1
  exact ⟨(build names).maxCmdLen - w.length,by omega⟩

variable (real : ∀ n ∈ names, NUL ∉ n) (realW : NUL ∉ w)
include real realW

theorem shellExecuteCmd_none (none' : completions names w = []) : shellExecuteCmd (build names) w = .unknown := by
  apply search_unknown
  intro d deep
  rw [build_names]
  rcases Nat.eq_or_lt_of_le deep with rfl | deeper
  · exact (filter_agrees real realW).trans none'
  · rw [List.filter_eq_nil_iff]
    intro n member same
    obtain rfl := (agrees_deeper (real n member) realW deeper).mp same
    have completed := (mem_completions names n n).mpr ⟨member,List.prefix_refl n⟩
    rw [none'] at completed
    cases completed

theorem shellExecuteCmd_one {cmd : Text} (one : completions names w = [cmd]) :
    ∃ j : Nat, names[j]? = some cmd ∧ shellExecuteCmd (build names) w = .ran j := by
  obtain ⟨left,turns⟩ := exists_round (by rw [one]; exact List.cons_ne_nil _ _ : completions names w ≠ [])
  rw [shellExecuteCmd,turns,search,build_names]
  rw [← filter_agrees real realW] at one
  obtain ⟨j,at',found⟩ := scan_found one 0 ⟨0,-1,fun _ => true⟩
  have counted : (scan (literal w) w.length names 0 ⟨0,-1,fun _ => true⟩).nMatches = 0 + _ := scan_nMatches ..
  rw [one] at counted
  refine ⟨j,at',?_⟩
  rw [Nat.zero_add] at found
  simp only [counted,found,List.length_singleton,Nat.zero_add,if_true]

theorem shellExecuteCmd_several (several : 1 < (completions names w).length) :
    shellExecuteCmd (build names) w = .ambiguous (completions names w) := by
  obtain ⟨left,turns⟩ := exists_round (List.ne_nil_of_length_pos (by omega) : completions names w ≠ [])
  rw [shellExecuteCmd,turns,search,build_names]
  rw [← filter_agrees real realW] at several ⊢
  have counted : (scan (literal w) w.length names 0 ⟨0,-1,fun _ => true⟩).nMatches = 0 + _ := scan_nMatches ..
  rw [Nat.zero_add] at counted
  have candidates : shown (scan (literal w) w.length names 0 ⟨0,-1,fun _ => true⟩).isMatch names 0 = _ :=
    shown_scan (fun _ _ => rfl)
  simp only [counted]
  rw [if_neg (by omega),if_pos several,candidates]

omit real realW

/-! ### The rule that is meant -/

/-- The names that `shell_start` may register. -/
structure Names where
  names : List Text
  distinct : names.Nodup
  real : ∀ n ∈ names, NUL ∉ n
  few : names.length ≤ SHELL_MAX_CMD

/-- The first word of a line. -/
structure Word where
  text : Text
  real : NUL ∉ text

/-- The command of that name runs; failing that, the one command that the word
    begins, if it is the only one; else none does, and the error says why. -/
structure AsIntended (names : List Text) (w : Text) (out : Outcome) : Prop where
  named : w ∈ names → ∃ j : Nat, names[j]? = some w ∧ out = .ran j
  begun : w ∉ names → ∀ cmd, completions names w = [cmd] → ∃ j : Nat, names[j]? = some cmd ∧ out = .ran j
  several : w ∉ names → 1 < (completions names w).length → out = .ambiguous (completions names w)
  unknown : completions names w = [] → out = .unknown

/-- A name of a command that another one goes on. -/
def Shadowed (names : List Text) (w : Text) : Prop := w ∈ names ∧ ∃ n ∈ names, n ≠ w ∧ w <+: n

theorem completions_shadowed (c : Names) {w : Text} (named : w ∈ c.names) :
    Shadowed c.names w ↔ 1 < (completions c.names w).length := by
  have self := (mem_completions c.names w w).mpr ⟨named,List.prefix_refl w⟩
  have nodup : (completions c.names w).Nodup := c.distinct.filter _
  constructor
  · rintro ⟨-,n,member,other,begins⟩
    have completed := (mem_completions c.names w n).mpr ⟨member,begins⟩
    match shape : completions c.names w with
    | [] => rw [shape] at self; cases self
    | [cmd] =>
      rw [shape,List.mem_singleton] at self completed
      exact absurd (completed.trans self.symm) other
    | _ :: _ :: _ => simp
  · intro several
    have another : ∃ n ∈ completions c.names w, n ≠ w := by
      match shape : completions c.names w with
      | [] => rw [shape] at several; cases several
      | [_] => rw [shape] at several; exact absurd several (lt_irrefl 1)
      | a :: b :: rest =>
        rw [shape,List.nodup_cons] at nodup
        have different : a ≠ b := fun same => nodup.1 (same ▸ List.mem_cons_self)
        by_cases first : a = w
        · exact ⟨b,by simp,fun second => different (first.trans second.symm)⟩
        · exact ⟨a,by simp,first⟩
    obtain ⟨n,completed,other⟩ := another
    rw [mem_completions] at completed
    exact ⟨named,n,completed.1,other,completed.2⟩

/-- The shell follows the rule unless the word is the name of a command and the
    start of another one. -/
theorem shellExecuteCmd_asIntended_iff (c : Names) (w : Word) :
    AsIntended c.names w.text (shellExecuteCmd (build c.names) w.text) ↔ ¬ Shadowed c.names w.text := by
  constructor
  · rintro intended shadowed
    obtain ⟨j,-,ran⟩ := intended.named shadowed.1
    rw [shellExecuteCmd_several c.real w.real ((completions_shadowed c shadowed.1).mp shadowed)] at ran
    cases ran
  · intro clear
    refine ⟨?_,fun _ cmd => shellExecuteCmd_one c.real w.real,fun _ => shellExecuteCmd_several c.real w.real,
      shellExecuteCmd_none c.real w.real⟩
    intro named
    rw [completions_shadowed c named] at clear
    have self := (mem_completions c.names w.text w.text).mpr ⟨named,List.prefix_refl w.text⟩
    have one : completions c.names w.text = [w.text] := by
      obtain ⟨cmd,shape⟩ := List.length_eq_one_iff.mp (Nat.le_antisymm (not_lt.mp clear) (List.length_pos_of_mem self))
      rw [shape,List.mem_singleton] at self
      rw [shape,self]
    exact shellExecuteCmd_one c.real w.real one

def ls : Text := ['l','s']
def lsx : Text := ['l','s','x']
def listing : Names := ⟨[ls,lsx],by decide,by decide,by decide⟩

/-- Of two commands `ls` and `lsx`, `ls` is called ambiguous. -/
theorem shellExecuteCmd_asIntended_ls :
    shellExecuteCmd (build listing.names) ls = .ambiguous [ls,lsx] ∧
      ¬ AsIntended listing.names ls (shellExecuteCmd (build listing.names) ls) := by
  have ambiguous : shellExecuteCmd (build listing.names) ls = .ambiguous [ls,lsx] := by decide
  refine ⟨ambiguous,?_⟩
  intro intended
  obtain ⟨j,-,ran⟩ := intended.named (by decide)
  rw [ambiguous] at ran
  cases ran

/-! ### The word in `cmd` -/

/-- A string, read from its start on. -/
theorem stringAt_shift {memory : Int → Char} {ptr : Int} (stands : StringAt memory (ptr + at_) w) :
    StringAt (fun i => memory (ptr + i)) at_ w := by
  induction w generalizing at_ with
  | nil => exact stands
  | cons c w ih =>
    refine ⟨stands.1,stands.2.1,ih ?_⟩
    rw [← add_assoc]
    exact stands.2.2

/-- `strncmp` looks at nothing but the two strings. -/
theorem strncmp_stringAt {word' : Int → Char} (stands : StringAt word at_ w) (stands' : StringAt word' at_ w)
    (name : Int → Char) (n : Nat) : strncmp name word n at_ = strncmp name word' n at_ := by
  induction w generalizing at_ n with
  | nil =>
    have ends : word at_ = NUL := stands
    have ends' : word' at_ = NUL := stands'
    cases n with
    | zero => rfl
    | succ n =>
      rw [strncmp,strncmp,ends,ends']
      by_cases full : name at_ = NUL
      · simp [full]
      · have differ : ((name at_).toNat : Int) - NUL.toNat ≠ 0 := fun same => full (toNat_injective same)
        simp [differ]
  | cons c w ih =>
    cases n with
    | zero => rfl
    | succ n =>
      rw [strncmp,strncmp,stands.1,stands'.1,ih stands.2.2 stands'.2.2]

theorem scan_congr {word' : Int → Char} (same : ∀ cmd, strncmp (literal cmd) word depth 0 = strncmp (literal cmd) word' depth 0)
    (names : List Text) (i : Nat) (r : Round) : scan word depth names i r = scan word' depth names i r := by
  induction names generalizing i r with
  | nil => rfl
  | cons cmd rest ih => rw [scan,scan,same,ih]

theorem search_congr {word' : Int → Char}
    (same : ∀ cmd n, strncmp (literal cmd) word n 0 = strncmp (literal cmd) word' n 0)
    (t : Table) (left depth : Nat) (r : Round) : search t word left depth r = search t word' left depth r := by
  induction left generalizing depth r with
  | zero => rfl
  | succ left ih =>
    rw [search,search,scan_congr (fun cmd => same cmd depth)]
    simp only [ih]

/-- The search reads the word where the line was cut: what it does there is what
    it does with the first of the words. -/
theorem shellTurn_search {l : Words.Line} (fits : l.bytes.length < Words.CMD_BUF_SIZE) (real : 0 ∉ l.bytes)
    (memory : Int → Char) {rest : List Text} (begins : Words.words l.text = w :: rest) (t : Table) :
    ∃ turn ptr ptrs, Words.shellTurn l memory = some turn ∧ turn.args.argv = ptr :: ptrs ∧ NUL ∉ w ∧
      search t (fun i => turn.args.memory (ptr + i)) (t.maxCmdLen + 1 - w.length) w.length ⟨0,-1,fun _ => true⟩ =
        shellExecuteCmd t w := by
  obtain ⟨turn,run,-,strings,-⟩ := Words.shellTurn_words fits real memory
  rw [begins] at strings
  obtain ⟨ptr,ptrs,stands,-,argv⟩ := List.forall₂_cons_right_iff.mp strings
  have realW := Words.stringAt_real stands
  refine ⟨turn,ptr,ptrs,run,argv,realW,search_congr ?_ ..⟩
  intro cmd n
  exact strncmp_stringAt (stringAt_shift (by rwa [add_zero])) (literal_stringAt realW) _ _

end Psys.Commands
