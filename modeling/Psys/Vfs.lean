import Mathlib.Logic.Function.Basic
import Psys.Strtol

/-!
`vfs.c` and the file system side of `console.c`: the nodes of the tree, the
callbacks that list and search directories, and the resolution of paths.
-/
namespace Psys.Vfs
open Psys.State

def FS_NAME_MAX : Nat := 128
def ROOTFS_ENTRIES : Nat := 64

/-! ### Strings -/

/-- A string: the characters before its terminator. -/
abbrev Text := List Char

/-- `strncmp(a, b, FS_NAME_MAX) == 0` -/
def sameName (a b : Text) : Bool := a.take FS_NAME_MAX == b.take FS_NAME_MAX

/-- The bytes of a text, without its terminator. -/
def textBytes (name : Text) : List UInt8 := name.map (fun c => UInt8.ofNat c.toNat)

/-- `strtol(p, NULL, 10)` -/
def strtol (p : Text) : Int := (Strtol.strtol 10 (textBytes p)).1

/-- `"%d"` of a number that is not negative. -/
def decimal (n : Int) : Text := Nat.toDigits 10 n.toNat

/-! ### Nodes -/

/-- A pointer: `NULL`, the address of something known, or what was in memory
    that no code has set or that lies outside of a table. -/
inductive Ptr (α : Type) where
  | null
  | to (a : α)
  | stray
  deriving DecidableEq

/-- The objects of type `fs_node_t`: in `rootfs_entries` and `vc_fs_node`, and
    the four that a process gets when it is created. -/
inductive Node where
  | rootfs (i : Nat)
  | console (n : Int)
  | process (pid : Int)
  | state (pid : Int)
  | parent (pid : Int)
  | name (pid : Int)
  deriving DecidableEq

/-- `enum fs_node_type` -/
inductive NodeType where
  | file
  | dir
  deriving DecidableEq

/-- The functions that `read` can point to. -/
inductive ReadOp where
  | answer | zero | kikoo | blink | fg | bg | state | parent | name
  deriving DecidableEq

/-- The functions that `write` can point to. -/
inductive WriteOp where
  | blink | fg | bg | echo | vc
  deriving DecidableEq

/-- The pairs of functions that `readdir` and `finddir` can point to. -/
inductive DirOp where
  | rootfs | procfs | procfsSub | vc
  deriving DecidableEq

/-- `fs_node_t`, less its size. Only `/kikoo` has `open` and `close`, which do
    not look at their node. -/
structure FsNode where
  name : Text
  type : NodeType
  inode : Int
  read : Ptr ReadOp
  write : Ptr WriteOp
  readdir : Ptr DirOp
  finddir : Ptr DirOp
  parent : Ptr Node
  deriving DecidableEq

/-- A node in zeroed memory. -/
def zeroNode : FsNode := ⟨[],.file,0,.null,.null,.null,.null,.null⟩

/-- A node in memory from `mem_alloc`, with the fields that its constructor
    sets. -/
def freshNode (name : Text) (type : NodeType) (inode : Int) : FsNode :=
  ⟨name,type,inode,.stray,.stray,.stray,.stray,.stray⟩

/-- `struct rootfs_entry` -/
structure RootfsEntry where
  present : Bool
  node : FsNode

abbrev Rootfs := Nat → RootfsEntry

/-- `rootfs_setup_node` -/
def rootfsSetupNode (t : Rootfs) (offset : Nat) (parent : Int) (name : Text) (type : NodeType) : Rootfs :=
  Function.update t offset ⟨true,
    { name := name
      type := type
      inode := offset
      read := .null
      write := .null
      readdir := .to .rootfs
      finddir := .to .rootfs
      parent := if parent < 0 then .null else .to (.rootfs parent.toNat) }⟩

/-- `vfs_node_register_callbacks`, less `open` and `close`. -/
def vfsNodeRegisterCallbacks (t : Rootfs) (inode : Nat) (read : Ptr ReadOp) (write : Ptr WriteOp)
    (readdir finddir : Ptr DirOp) : Rootfs :=
  Function.update t inode { t inode with
    node := { (t inode).node with
      read := read
      write := write
      readdir := if readdir ≠ .null then readdir else (t inode).node.readdir
      finddir := if finddir ≠ .null then finddir else (t inode).node.finddir } }

/-- The assignment of a `read` callback in `vfs_init`. -/
def setRead (t : Rootfs) (i : Nat) (read : ReadOp) : Rootfs :=
  Function.update t i { t i with node := { (t i).node with read := .to read } }

/-- `console_vfs_init` on `rootfs_entries`. -/
def consoleVfsInit (t : Rootfs) : Rootfs :=
  let t := vfsNodeRegisterCallbacks t 17 .null .null (.to .vc) (.to .vc)
  let t := vfsNodeRegisterCallbacks t 5 (.to .blink) (.to .blink) .null .null
  let t := vfsNodeRegisterCallbacks t 6 (.to .fg) (.to .fg) .null .null
  let t := vfsNodeRegisterCallbacks t 7 (.to .bg) (.to .bg) .null .null
  vfsNodeRegisterCallbacks t 13 .null (.to .echo) .null .null

/-- `vfs_init` -/
def vfsInit (t : Rootfs) : Rootfs :=
  let t := rootfsSetupNode t 0 (-1) ['r','o','o','t'] .dir
  let t := rootfsSetupNode t 1 0 ['p','r','o','c'] .dir
  let t := rootfsSetupNode t 2 0 ['s','e','m'] .dir
  let t := rootfsSetupNode t 3 0 ['s','y','s'] .dir
  let t := rootfsSetupNode t 4 3 ['c','o','n','s','o','l','e'] .dir
  let t := rootfsSetupNode t 5 4 ['b','l','i','n','k'] .file
  let t := rootfsSetupNode t 6 4 ['f','g'] .file
  let t := rootfsSetupNode t 7 4 ['b','g'] .file
  let t := rootfsSetupNode t 13 4 ['e','c','h','o'] .file
  let t := rootfsSetupNode t 8 0 ['d','e','v'] .dir
  let t := rootfsSetupNode t 9 8 ['n','u','l','l'] .file
  let t := rootfsSetupNode t 10 8 ['z','e','r','o'] .file
  let t := rootfsSetupNode t 11 8 ['a','n','s','w','e','r'] .file
  let t := rootfsSetupNode t 16 8 ['c','o','n','s','o','l','e'] .file
  let t := rootfsSetupNode t 17 8 ['v','c'] .dir
  let t := rootfsSetupNode t 12 0 ['k','i','k','o','o'] .file
  let t := rootfsSetupNode t 14 0 ['p','r','o','g'] .dir
  let t := setRead t 11 .answer
  let t := setRead t 10 .zero
  let t := setRead t 12 .kikoo
  let t := Function.update t 1 { t 1 with node := { (t 1).node with readdir := .to .procfs, finddir := .to .procfs } }
  consoleVfsInit t

/-- `rootfs_entries` after `vfs_init`, which is its only writer. -/
def rootfsEntries : Rootfs := vfsInit (fun _ => ⟨false,zeroNode⟩)

/-- `vc_fs_node[n]` after `console_vfs_init`. -/
def vcFsNode (n : Int) : FsNode := { zeroNode with name := decimal n, inode := 100 + n, write := .to .vc }

/-- `procfs_new_node`. The fields `read`, `write` and `parent` are not set. -/
def procfsNewNode (pid : Int) : FsNode :=
  { freshNode (decimal pid) .dir (200 + pid) with readdir := .to .procfsSub, finddir := .to .procfsSub }

/-- `procfs_new_state_node` -/
def procfsNewStateNode (pid : Int) : FsNode :=
  { freshNode ['s','t','a','t','e'] .file (1200 + pid) with read := .to .state }

/-- `procfs_new_parent_node` -/
def procfsNewParentNode (pid : Int) : FsNode :=
  { freshNode ['p','a','r','e','n','t'] .file (2200 + pid) with read := .to .parent }

/-- `procfs_new_name_node` -/
def procfsNewNameNode (pid : Int) : FsNode :=
  { freshNode ['n','a','m','e'] .file (3200 + pid) with read := .to .name }

/-- What a node holds. -/
def fsNode : Node → FsNode
  | .rootfs i => (rootfsEntries i).node
  | .console n => vcFsNode n
  | .process pid => procfsNewNode pid
  | .state pid => procfsNewStateNode pid
  | .parent pid => procfsNewParentNode pid
  | .name pid => procfsNewNameNode pid

/-- `fs_root` -/
def fsRoot : Node := .rootfs 0
/-- `vfs_procfs_root` -/
def vfsProcfsRoot : Node := .rootfs 1

/-! ### Directories -/

/-- `struct dirent` -/
structure Dirent where
  name : Text
  inode : Int
  deriving DecidableEq

/-- The answer of `readdir`: -1, 0, or 1 with an entry. -/
inductive Listing where
  | error
  | done
  | entry (d : Dirent)
  deriving DecidableEq

/-- The search for the `n`-th entry, from 0. -/
def seekEntry (entries : List Dirent) (n : Int) : Listing :=
  match entries[n.toNat]? with
  | some d => .entry d
  | none => .done

/-- `rootfs_entries[i]` is an entry of the directory. -/
def IsEntry (node : Node) (i : Nat) : Prop :=
  (rootfsEntries i).present = true ∧ (rootfsEntries i).node.parent = .to node
instance (node : Node) (i : Nat) : Decidable (IsEntry node i) := inferInstanceAs (Decidable (_ ∧ _))

/-- `rootfs_finddir` -/
def rootfsFinddir (node : Node) (name : Text) : Ptr Node :=
  match (List.range ROOTFS_ENTRIES).find? (fun i => decide (IsEntry node i) && sameName (rootfsEntries i).node.name name) with
  | some i => .to (.rootfs i)
  | none => .null

/-- `rootfs_readdir` -/
def rootfsReaddir (node : Node) (n : Int) : Listing :=
  if n < 0 then .error
  else seekEntry (((List.range ROOTFS_ENTRIES).filter (fun i => decide (IsEntry node i))).map
    (fun i => ⟨(rootfsEntries i).node.name,i⟩)) n

/-- `procfs_readdir`. The inode of an entry is its index in `tab_proc`. -/
def procfsReaddir (t : Int → Context) (node : Node) (n : Int) : Listing :=
  if n < 0 then .error
  else if node ≠ vfsProcfsRoot then .error
  else seekEntry ((pids.filter (fun pid => (t pid).valide)).map (fun pid => ⟨decimal pid,pid - 1⟩)) n

/-- `procfs_finddir` -/
def procfsFinddir (t : Int → Context) (name : Text) : Ptr Node :=
  let pid := strtol name
  if ¬ InTab pid then .stray
  else if (t pid).valide = false then .null
  else .to (.process pid)

/-- A node of a process through `tab_proc[pid-1]`. -/
def ofProcess (pid : Int) (node : Node) : Ptr Node := if InTab pid then .to node else .stray

/-- `procfs_sub_finddir` -/
def procfsSubFinddir (node : Node) (name : Text) : Ptr Node :=
  let pid := (fsNode node).inode - 200
  if sameName name ['s','t','a','t','e'] then ofProcess pid (.state pid)
  else if sameName name ['p','a','r','e','n','t'] then ofProcess pid (.parent pid)
  else if sameName name ['n','a','m','e'] then ofProcess pid (.name pid)
  else .null

/-- `procfs_sub_readdir` -/
def procfsSubReaddir (node : Node) (n : Int) : Listing :=
  if n < 0 then .error
  else if n > 3 then .error
  else seekEntry [⟨['s','t','a','t','e'],1000 + (fsNode node).inode⟩,⟨['p','a','r','e','n','t'],2000 + (fsNode node).inode⟩,
    ⟨['n','a','m','e'],3000 + (fsNode node).inode⟩] n

/-- `console_vc_finddir` -/
def consoleVcFinddir (name : Text) : Ptr Node :=
  let n := strtol name
  if n < 0 ∨ n ≥ VIRTUAL_CONSOLES then .null else .to (.console n)

/-- `console_vc_readdir` -/
def consoleVcReaddir (n : Int) : Listing :=
  if n < 0 then .error
  else if n ≥ VIRTUAL_CONSOLES then .done
  else .entry ⟨decimal n,100 + n⟩

/-- `node->finddir(node, name)` -/
def finddir (t : Int → Context) (node : Node) (name : Text) : Ptr Node :=
  match (fsNode node).finddir with
  | .to .rootfs => rootfsFinddir node name
  | .to .procfs => procfsFinddir t name
  | .to .procfsSub => procfsSubFinddir node name
  | .to .vc => consoleVcFinddir name
  | .null => .stray
  | .stray => .stray

/-- `node->readdir(node, dirp, n)`; none when there is no such function. -/
def readdir (t : Int → Context) (node : Node) (n : Int) : Option Listing :=
  match (fsNode node).readdir with
  | .to .rootfs => some (rootfsReaddir node n)
  | .to .procfs => some (procfsReaddir t node n)
  | .to .procfsSub => some (procfsSubReaddir node n)
  | .to .vc => some (consoleVcReaddir n)
  | .null => none
  | .stray => none

/-- `finddir_fs`. What is reached through a stray pointer is stray. -/
def finddirFs (t : Int → Context) (current : Ptr Node) (name : Text) : Ptr Node :=
  match current with
  | .to node =>
    if (fsNode node).finddir ≠ .null ∧ (fsNode node).type = .dir then
      if name = ['.','.'] then (fsNode node).parent else finddir t node name
    else .null
  | _ => .stray

/-! ### Paths -/

/-- `vfs_next_filename`: the characters up to a slash or the end, and what
    follows the slash. -/
def vfsNextFilename : Text → Text × Option Text
  | [] => ([],none)
  | c :: rest =>
    if c = '/' then ([],some rest)
    else
      let next := vfsNextFilename rest
      (c :: next.1,next.2)

/-- The walk stops at `NULL`. -/
def Ptr.andThen (found : Ptr Node) (walk : Ptr Node → Ptr Node) : Ptr Node :=
  match found with
  | .null => .null
  | found => walk found

/-- The loop of `vfs_path_resolution`. A name that does not fit into the buffer
    `filename` overwrites the stack. -/
def resolveLoop (t : Int → Context) : Nat → Ptr Node → Text → Ptr Node
  | 0, _, _ => .stray
  | turns + 1, current, name =>
    let next := vfsNextFilename name
    if next.1.length ≥ FS_NAME_MAX then .stray
    else
      (finddirFs t current next.1).andThen (fun found =>
        match next.2 with
        | none => found
        | some rest => resolveLoop t turns found rest)

/-- The loop from a node, with more turns than the name has slashes. -/
def resolveFrom (t : Int → Context) (current : Ptr Node) (name : Text) : Ptr Node :=
  resolveLoop t (name.length + 1) current name

/-- `vfs_path_resolution` of a process with a working directory. -/
def vfsPathResolution (t : Int → Context) (workingDir : Node) (name : Text) : Ptr Node :=
  match name with
  | [] => resolveFrom t (.to workingDir) []
  | c :: rest =>
    if c = '/' then
      if rest = [] then .to fsRoot else resolveFrom t (.to fsRoot) rest
    else if sameName name ['.'] then .to workingDir
    else if sameName name ['.','.'] then (fsNode workingDir).parent
    else resolveFrom t (.to workingDir) name

/-- `chdir`: the answer and the working directory. A stray node is not looked
    into. -/
def chdir (t : Int → Context) (workingDir : Node) (path : Text) : Int × Node :=
  match vfsPathResolution t workingDir path with
  | .to node => if (fsNode node).type = .dir then (0,node) else (-1,workingDir)
  | _ => (-1,workingDir)

end Psys.Vfs
