import Mathlib.Logic.Function.Basic
import WebUiBoot.Lib.Text
import WebUiBoot.Lib.Trace

/-!
# The bootnext queue: model

`check_and_process_bootnext` of `src/boot.rs`: the flag files of all volumes, of which one call
pops at most one path and boots it.

* `Volume` / `Node` — what stands at the paths of the flag files;
* `FlagIo`, `VolumeIo`, `BootIo` — which of the calls into the file system succeed, call by call.
  Opening an existing file with `CreateReadWrite` keeps its bytes, a write replaces the bytes it
  covers, and a write that fails replaces none;
* `popFlagFile` — what is done with the flag file that is found: delete, recreate, rewrite;
* `checkAndProcessBootnext` — the search over volumes and names, with its `continue`s and `break`s;
* `boots` — successive boots as a machine on the volumes.
-/

namespace WebUiBoot.Boot

open WebUiBoot.Text WebUiBoot.Trace

abbrev Bytes := List UInt8

inductive Node
  | file (content : Bytes)
  | dir
  deriving DecidableEq

/-- What a volume has at a path. -/
abbrev Volume := String → Option Node

/-- Which of the calls on a flag file succeed. -/
structure FlagIo where
  /-- `root.open(flag, ReadWrite)`, for a file that is there. -/
  openFile : Bool
  /-- `into_regular_file`, for a file that is one. -/
  intoRegularFile : Bool
  getInfo : Bool
  read : Bool
  delete : Bool
  /-- `root.open(flag, CreateReadWrite)`. -/
  reopen : Bool
  /-- `into_regular_file` on the handle of the second `open`. -/
  reopenRegular : Bool
  write : Bool

structure VolumeIo where
  openProtocol : Bool
  openVolume : Bool
  flag : String → FlagIo

/-- Which calls succeed during one call of `check_and_process_bootnext`. -/
structure BootIo where
  findHandles : Bool
  /-- For the volumes by their index in handle order. -/
  volume : ℕ → VolumeIo

/-- No call fails. -/
def FlagIo.ok : FlagIo := ⟨true, true, true, true, true, true, true, true⟩

def BootIo.ok : BootIo := ⟨true, fun _ => ⟨true, true, fun _ => .ok⟩⟩

/-! ### The content of a flag file -/

/-- `strip_prefix("\u{feff}").unwrap_or(content_str)`. -/
def stripBom : Str → Str
  | [] => []
  | c :: t => if c = '\ufeff' then t else c :: t

/-- The paths in a flag file: its trimmed lines that are not blank. -/
def entries (content : Str) : List Str := nonBlankLines (stripBom content)

/-- The text that is written back. -/
def newContent (remaining : List Str) : Str :=
  List.intercalate ['\r', '\n'] remaining ++ ['\r', '\n']

/-- `target_path_str.replace('/', "\\")`. -/
def replaceSlashes (path : Str) : Str := path.map fun c => if c = '/' then '\\' else c

/-! ### Popping a path -/

/-- A write at the start of a file. -/
def overwrite (old new : Bytes) : Bytes := new ++ old.drop new.length

/-- The second `open`, with `CreateReadWrite`, and the write; `node` is what the deletion left. -/
def rewriteFlagFile (io : FlagIo) (node : Option Node) (remaining : List Str) : Option Node :=
  if io.reopen then
    let old := match node with
      | some (.file bytes) => bytes
      | _ => []
    if io.reopenRegular ∧ io.write then
      some (.file (overwrite old (encodeUtf8 (newContent remaining))))
    else some (.file old)
  else node

/-- The path that is popped from a flag file, and what is there afterwards. -/
structure Popped where
  target : Option Str
  node : Option Node

/-- The body of the inner loop, for a flag file that could be opened. -/
def popFlagFile (io : FlagIo) (content : Bytes) : Popped :=
  let unchanged : Option Node := some (.file content)
  if !io.getInfo then ⟨none, unchanged⟩
  else if !io.read then ⟨none, unchanged⟩
  else
    match decodeUtf8 content with
    | none => ⟨none, unchanged⟩
    | some text =>
        let deleted := if io.delete then none else unchanged
        match entries text with
        | [] => ⟨none, deleted⟩
        | target :: remaining =>
            if remaining = [] then ⟨some target, deleted⟩
            else ⟨some target, rewriteFlagFile io deleted remaining⟩

/-! ### The search for a flag file -/

def flagFilenames : List String := ["\\bootnext.txt", "\\EFI\\bootnext.txt"]

/-- A path that is passed to `boot_os`, and the flag file from which it was popped. -/
structure Booted where
  volume : ℕ
  flagFile : String
  path : Str
  deriving DecidableEq

/-- The flag file is opened and is a regular file: its content. -/
def openFlag (io : FlagIo) : Option Node → Option Bytes
  | some (.file content) => if io.openFile ∧ io.intoRegularFile then some content else none
  | _ => none

/-- The inner loop: `none` when no flag file was processed. -/
def processFlags (io : VolumeIo) (v : Volume) :
    List String → Option (Volume × Option (String × Str))
  | [] => none
  | name :: names =>
      match openFlag (io.flag name) (v name) with
      | none => processFlags io v names
      | some content =>
          let popped := popFlagFile (io.flag name) content
          some (Function.update v name popped.node, popped.target.map (name, ·))

/-- The outer loop, from the volume with the index `i` on. -/
def processVolumes (io : BootIo) (i : ℕ) : List Volume → List Volume × List Booted
  | [] => ([], [])
  | v :: vs =>
      let next := processVolumes io (i + 1) vs
      if !(io.volume i).openProtocol then (v :: next.1, next.2)
      else if !(io.volume i).openVolume then (v :: next.1, next.2)
      else
        match processFlags (io.volume i) v flagFilenames with
        | none => (v :: next.1, next.2)
        | some (v', none) => (v' :: vs, [])
        | some (v', some (name, target)) => (v' :: vs, [⟨i, name, replaceSlashes target⟩])

def checkAndProcessBootnext (io : BootIo) (volumes : List Volume) : List Volume × List Booted :=
  if io.findHandles then processVolumes io 0 volumes else (volumes, [])

/-- Successive boots, each with one call. -/
def boots : Machine (List Volume) BootIo Booted :=
  ⟨fun volumes io => checkAndProcessBootnext io volumes⟩

end WebUiBoot.Boot
