import Bajutsu.Lib.FileSystem
import Mathlib.Data.Char
import Mathlib.Data.List.DropRight
import Mathlib.Data.List.Lex
import Mathlib.Data.List.Sort

/-!
# The file object store

An object's key is a path below the store's root, or below the directory mounted at the key's first part.
The store finds its keys again by walking the directories.
-/

namespace Bajutsu.Serve

open FileSystem

abbrev Text := List Char

local instance lawfulName : LawfulBEq Name := inferInstance

local instance lawfulPath : LawfulBEq Path := inferInstance

def stagingPrefix : Text := ".bajutsu-put-".toList

/-- The names between slashes. -/
def segments (text : Text) : List Name := text.splitOn '/'

def joined (names : List Name) : Text := ['/'].intercalate names

/-- `PurePosixPath(key.replace("\\", "/"))` is relative and has no `..`. -/
def validRelativeKey (key : Text) : Bool :=
  let slashed := key.map fun c => if c = '\\' then '/' else c
  key ≠ [] && '\x00' ∉ key && key.head? ≠ some '/' && "..".toList ∉ segments slashed &&
    slashed.head? ≠ some '/'

/-- The one spelling of a path that the store lists. -/
def canonical (key : Text) : Bool :=
  (segments key).all fun seg => seg ≠ [] && seg ≠ ".".toList && !stagingPrefix.isPrefixOf seg

/-- `_mount_prefix` accepts it. -/
def validMountPrefix (keyPrefix : Text) : Bool :=
  keyPrefix.getLast? = some '/' && validRelativeKey (keyPrefix.rdropWhile fun c => c = '/')

/-- One name of a path, taken from a directory that no link leads away from. -/
def walkName (dir : Path) (name : Name) : Path :=
  if name = [] ∨ name = ".".toList then dir else if name = "..".toList then dir.dropLast else dir ++ [name]

/-- `(base / rel).resolve()`. -/
def resolve (base : Path) (rel : Text) : Path :=
  (segments rel).foldl walkName (if rel.head? = some '/' then [] else base)

/-- A name a directory entry can have. -/
def ProperName (name : Name) : Prop :=
  name ≠ [] ∧ '/' ∉ name ∧ name ≠ ".".toList ∧ name ≠ "..".toList

/-- The directories are resolved, and no mount's key prefix starts with another's. -/
structure Store where
  root : Path
  mounts : List (Text × Path)
  valid : ∀ mount ∈ mounts, validMountPrefix mount.1 = true
  apart : mounts.Pairwise fun a b => ¬a.1 <+: b.1 ∧ ¬b.1 <+: a.1
  proper : ∀ dir ∈ root :: mounts.map Prod.snd, ∀ name ∈ dir, ProperName name

namespace Store

variable (store : Store)

/-- The directory a key lives under, with the part of the key that names it. -/
def located (key : Text) : Text × Path :=
  (store.mounts.find? fun mount => mount.1.isPrefixOf key).getD ([], store.root)

def dirs : List Path := store.root :: store.mounts.map Prod.snd

/-- The key prefixes that a canonical key can have, with their directories. -/
def keyed : List (Text × Path) :=
  (([], store.root) :: store.mounts).filter fun mount => canonical (mount.1 ++ ['x'])

/-- The file a key names, when the key is valid and stays in its directory. -/
def pathFor (key : Text) : Option Path :=
  if !validRelativeKey key || !canonical key then none
  else
    let (keyPrefix, base) := store.located key
    let resolved := resolve base (key.drop keyPrefix.length)
    if resolved = base || !base.isPrefixOf resolved then none
    else if store.dirs.any fun other => other ≠ base && other.isPrefixOf resolved && !other.isPrefixOf base then none
    else some resolved

variable {β : Type}

/-- The directories that lead to a file, up from it, as far as one of them is there or is the store's. -/
def missingParents (path : Path) (fs : Fs β) : List Path :=
  path.dropLast.inits.reverse.takeWhile fun parent => parent ∉ store.dirs && !fs.exists_ parent

inductive Answer (β : Type) where
  | done
  | valueError
  | content (content : Option β)
  | keys (keys : List Text)
deriving DecidableEq

/-- `none` is an `OSError`. -/
def putBytes (key : Text) (content : β) (fs : Fs β) : Option (Fs β × Answer β) :=
  match store.pathFor key with
  | none => some (fs, .valueError)
  | some final =>
    (fs.mkdirs (store.located key).2).bind fun fs =>
      (fs.mkdirEach (store.missingParents final fs).reverse).bind fun fs =>
        (fs.write final content).map fun fs => (fs, .done)

def getBytes (key : Text) (fs : Fs β) : Option (Fs β × Answer β) :=
  match store.pathFor key with
  | none => some (fs, .content none)
  | some path => if fs.blocked path then none else some (fs, .content (fs.file path))

def deleteKey (key : Text) (fs : Fs β) : Option (Fs β × Answer β) :=
  match store.pathFor key with
  | none => some (fs, .done)
  | some path =>
    if (fs.file path).isSome then
      let base := (store.located key).2
      let parents := path.dropLast.inits.reverse.takeWhile fun parent => parent ≠ base && base.isPrefixOf parent
      some ((fs.unlink path).rmdirWhile parents, .done)
    else some (fs, .done)

/-- The key that the walk of a directory gives a file below it. -/
def keyOf (base : Path) (keyPrefix start : Text) (path : Path) : Option Text :=
  let key := keyPrefix ++ joined (path.drop base.length)
  if (path.getLast?).any (stagingPrefix.isPrefixOf ·) then none
  else if start.isPrefixOf key then some key else none

def sorted (keys : List Text) : List Text := keys.insertionSort (· ≤ ·)

/-- `_walk`. -/
def walk (base : Path) (keyPrefix start : Text) (fs : Fs β) : List Text :=
  let dir := resolve base (joined (segments (start.drop keyPrefix.length)).dropLast)
  if !base.isPrefixOf dir || !fs.isDir dir then []
  else sorted ((fs.walk dir).filterMap (keyOf base keyPrefix start))

def listKeys (start : Text) (fs : Fs β) : Option (Fs β × Answer β) :=
  if start ≠ [] && !validRelativeKey start then some (fs, .valueError)
  else
    match store.mounts.find? fun mount => mount.1.isPrefixOf start with
    | some mount => some (fs, .keys (walk mount.2 mount.1 start fs))
    | none =>
      let outside := (walk store.root [] start fs).filter fun key =>
        !store.mounts.any fun mount => mount.1.isPrefixOf key
      let inside := store.mounts.flatMap fun mount =>
        if start.isPrefixOf mount.1 then walk mount.2 mount.1 mount.1 fs else []
      some (fs, .keys (if store.mounts.isEmpty then outside else sorted (outside ++ inside)))

inductive Op (β : Type) where
  | putBytes (key : Text) (content : β)
  | deleteKey (key : Text)
  | getBytes (key : Text)
  | listKeys (start : Text)

def op : Op β → Fs β → Option (Fs β × Answer β)
  | .putBytes key content => store.putBytes key content
  | .deleteKey key => store.deleteKey key
  | .getBytes key => store.getBytes key
  | .listKeys start => store.listKeys start

def run (fs : Fs β) : List (Op β) → Option (Fs β)
  | [] => some fs
  | o :: ops => (store.op o fs).bind fun result => run result.1 ops

/-- What an operation leaves under a key. -/
def left (key : Text) (content : Option β) : Op β → Option β
  | .putBytes key' content' => if key' = key ∧ (store.pathFor key).isSome then some content' else content
  | .deleteKey key' => if key' = key then none else content
  | _ => content

/-- What the operations left under a key: its last accepted put, unless a delete came later. -/
def stored (ops : List (Op β)) (key : Text) : Option β := ops.foldl (store.left key) none

end Store

end Bajutsu.Serve
