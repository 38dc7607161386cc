import Bajutsu.Evidence.ScreenMapRedaction
import Bajutsu.Lib.FileEntries
import Bajutsu.Lib.PyText
import Mathlib.Data.Char
import Mathlib.Data.List.Lex

/-!
# Collecting a Device Farm run

The artifacts of a finished run are stored under one directory, zips unpacked and everything else as a log. The
verdict is read from the manifests that are there afterwards.
-/

namespace Bajutsu.Cloud.DeviceFarm

open FileSystem PyValue
open Evidence.EvidenceRedactor (truthy)

variable {β : Type}

/-- What reading a member gives: its bytes, or an exception and the bytes before it, if it could be opened at all. -/
inductive Data (β : Type) where
  | whole (bytes : β)
  | broken (part : Option β)

/-- A member of a zip. `symlink` is what its mode bits say. -/
structure Member (β : Type) where
  filename : List Char
  symlink : Bool
  data : Data β

structure Artifact (β : Type) where
  name : Option (List Char)
  extension : Option (List Char)
  payload : β

inductive Loaded where
  | value (data : Val)
  | unreadable
  | raised

/-- What the collection calls: the readers of zips and of JSON texts, and `str`. A path may be refused by the system. -/
structure Library (β : Type) where
  openZip : β → Option (List (Member β))
  loads : β → Loaded
  str : Val → String
  refuses : Path → Bool

/-! ## Members -/

def parts (filename : List Char) : List Name := filename.splitOn '/'

def isCurrent (part : Name) : Bool := part = [] || part = ['.']

def isParent (part : Name) : Bool := part = ['.', '.']

def resolveFrom (base : Path) : List Name → Path
  | [] => base
  | part :: rest =>
    if isCurrent part then resolveFrom base rest
    else if isParent part then resolveFrom base.dropLast rest
    else resolveFrom (base ++ [part]) rest

/-- `(dest / filename).resolve()`. Two leading slashes are a root of their own. -/
def resolve (dest : Path) (filename : List Char) : Option Path :=
  match filename with
  | '/' :: '/' :: '/' :: _ => some (resolveFrom [] (parts filename))
  | '/' :: '/' :: _ => none
  | '/' :: _ => some (resolveFrom [] (parts filename))
  | _ => some (resolveFrom dest (parts filename))

namespace Member

def isDir (member : Member β) : Bool := member.filename.getLast? = some '/'

/-- What `_safe_extract` asks of a member. -/
def safe (dest : Path) (member : Member β) : Bool :=
  !member.symlink && (resolve dest member.filename).any fun target => dest.isPrefixOf target

/-- Where `extractall` puts a member. -/
def path (dest : Path) (member : Member β) : Path :=
  dest ++ (parts member.filename).filter fun part => !isCurrent part && !isParent part

end Member

/-- `getinfo`: the last member of the name. -/
def getinfo (members : List (Member β)) (member : Member β) : Member β :=
  (members.reverse.find? fun other => other.filename = member.filename).getD member

/-! ## Storing -/

section Storing

variable (library : Library β) (dest : Path)

/-- What is stored, and whether nothing raised. -/
def placed (fs : Fs β) (e : Entry β) : Fs β × Bool :=
  if library.refuses e.path then (fs, false)
  else
    match fs.place e with
    | none => (fs, false)
    | some fs => (fs, true)

def strip (text : List Char) : List Char := text.map fun c => if c = '/' || c = '\\' then '_' else c

/-- `str(value or default)`. -/
def orDefault (value : Option (List Char)) (default : String) : List Char :=
  match value with
  | none => default.toList
  | some [] => default.toList
  | some text => text

/-- `f"{index:03d}-{name}.{extension}"`. -/
def logName (index : Nat) (artifact : Artifact β) : Name :=
  let digits := PyText.decimal index
  List.replicate (3 - digits.length) '0' ++ digits ++ ['-'] ++ strip (orDefault artifact.name "artifact") ++ ['.'] ++
    strip (orDefault artifact.extension "txt")

def Artifact.isZip (artifact : Artifact β) : Bool := artifact.extension = some "zip".toList

def logPath (index : Nat) (artifact : Artifact β) : Path := dest ++ ["logs".toList, logName index artifact]

end Storing

/-! ## The verdict -/

structure Verdict where
  ok : Bool
  passed : Nat
  total : Nat
  failures : List String
  deriving DecidableEq

structure Tally where
  passed : Nat
  total : Nat
  failures : List String

def Tally.failed (t : Tally) (failure : String) : Tally :=
  { t with total := t.total + 1, failures := t.failures ++ [failure] }

def manifestName : Name := "manifest.json".toList

def isManifest (dest : Path) (p : Path) : Bool := dest.isPrefixOf p && p ≠ dest && p.getLast? = some manifestName

/-- `sorted(runs_root.rglob("manifest.json"))`. -/
def manifests (dest : Path) (fs : Fs β) : List Path :=
  (((fs.files.map Prod.fst ++ fs.dirs).dedup).filter (isManifest dest)).mergeSort fun p q => decide (p ≤ q)

def pathText (p : Path) : String := String.ofList (p.flatMap fun name => '/' :: name)

section Verdict

variable (library : Library β)

end Verdict

end Bajutsu.Cloud.DeviceFarm
