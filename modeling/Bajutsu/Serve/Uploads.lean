import Bajutsu.Lib.FileEntries

/-!
# Extracting an uploaded bundle

The members of a zip are written under a directory one after another, each after it has passed the checks on its
name, its type and its sizes. What the zip reader and the system raise is caught where the code catches it.
-/

namespace Bajutsu.Serve.Uploads

open FileSystem PyValue

variable {α : Type}

inductive Exc where
  | osError
  | badZipFile
  | runtimeError
  | notImplementedError
  | eofError
  | zlibError
  deriving DecidableEq

/-- An exception, and its text. -/
structure Raised where
  exc : Exc
  text : String

/-- A member: what the directory of the zip says of it, what opening it raises, the chunks that its reads give, and
what the read after them raises, if it is not at the end. -/
structure Info (α : Type) where
  filename : List Char
  symlink : Bool
  fileSize : Nat
  compressSize : Nat
  openRaises : Option Raised
  chunks : List (List α)
  readRaises : Option Raised

/-- A zip as it is opened: its members, unless that raises. -/
abbrev Archive (α : Type) := Except Raised (List (Info α))

def Info.isDir (info : Info α) : Bool := info.filename.getLast? = some '/'

inductive BundleError where
  | notAZip (text : String)
  | tooManyEntries (count : Nat)
  | unsafePath (name : List Char)
  | escapesRoot (name : List Char)
  | symlinkEntry (name : List Char)
  | ratioTooHigh (name : List Char)
  | tooManyBytes
  | couldNotExtract (name : List Char) (text : String)
  deriving DecidableEq

def maxTotalBytes : Nat := 4 * 1024 * 1024 * 1024

def maxEntries : Nat := 100000

def maxRatio : Nat := 200

def ratioFloor : Nat := 4096

/-- The text of an error, where `repr` shows a name. -/
def BundleError.message (repr : List Char → String) : BundleError → String
  | .notAZip text => s!"not a valid zip archive: {text}"
  | .tooManyEntries count => s!"too many entries ({count} > {maxEntries})"
  | .unsafePath name => s!"unsafe entry path: {repr name}"
  | .escapesRoot name => s!"entry escapes the bundle root: {repr name}"
  | .symlinkEntry name => s!"symlink entries are not allowed: {repr name}"
  | .ratioTooHigh name => s!"entry compression ratio too high: {repr name}"
  | .tooManyBytes => s!"bundle exceeds {maxTotalBytes} bytes uncompressed (zip-bomb?)"
  | .couldNotExtract name text => s!"could not extract {repr name}: {text}"

/-- What `extract_bundle` raises. -/
inductive Failure where
  | bundle (e : BundleError)
  | escaped (r : Raised)

/-- The system at the time of a call: the paths that it refuses to make, and how much it takes before its disk is full. -/
structure Env where
  refuses : Path → Bool
  room : Nat

def cleaned (name : List Char) : List Char := name.map fun c => if c = '\\' then '/' else c

def pureParts (cleaned : List Char) : List Name := (cleaned.splitOn '/').filter fun part => part ≠ [] && part ≠ ['.']

def safeTarget (dest : Path) (name : List Char) : Except BundleError Path :=
  let parts := pureParts (cleaned name)
  if cleaned name = [] || (cleaned name).contains '\x00' || (cleaned name).head? = some '/' || parts.contains ['.', '.'] then
    .error (.unsafePath name)
  else
    let target := dest ++ parts
    if dest.isPrefixOf target then .ok target else .error (.escapesRoot name)

/-- `file_size / compress_size > MAX_RATIO` on floats, where the quotient is rounded to 45 binary places. -/
def ratioCrossed (fileSize compressSize : Nat) : Bool := compressSize * (maxRatio * 2 ^ 46 + 1) < fileSize * 2 ^ 46

def checkRatio (info : Info α) : Except BundleError Unit :=
  if ratioFloor < info.fileSize && 0 < info.compressSize && ratioCrossed info.fileSize info.compressSize then
    .error (.ratioTooHigh info.filename)
  else .ok ()

/-- The files so far, and the bytes that the loop has counted. -/
structure Progress (α : Type) where
  fs : Fs (List α)
  written : Nat

def osError : Raised := ⟨.osError, "the system refused"⟩

/-- The handler around a member. -/
def translated (info : Info α) (r : Raised) : Failure :=
  match r.exc with
  | .osError => .bundle (.couldNotExtract info.filename r.text)
  | .badZipFile => .bundle (.couldNotExtract info.filename r.text)
  | _ => .escaped r

/-- The loop over the chunks of a member, whose file has the content so far. An empty chunk ends it. -/
def streamChunks (env : Env) (info : Info α) (target : Path) (st : Progress α) (content : List α) :
    List (List α) → Progress α × Except Failure Unit
  | [] =>
    match info.readRaises with
    | none => (st, .ok ())
    | some r => (st, .error (translated info r))
  | [] :: _ => (st, .ok ())
  | chunk :: chunks =>
    let written := st.written + chunk.length
    if maxTotalBytes < written then ({ st with written }, .error (.bundle .tooManyBytes))
    else if env.room < written then ({ st with written }, .error (translated info osError))
    else
      match st.fs.write target (content ++ chunk) with
      | none => ({ st with written }, .error (translated info osError))
      | some fs => streamChunks env info target ⟨fs, written⟩ (content ++ chunk) chunks

/-- One turn of the loop over the members. -/
def extractInfo (env : Env) (dest : Path) (st : Progress α) (info : Info α) : Progress α × Except Failure Unit :=
  match safeTarget dest info.filename with
  | .error e => (st, .error (.bundle e))
  | .ok target =>
    if info.symlink then (st, .error (.bundle (.symlinkEntry info.filename)))
    else
      match checkRatio info with
      | .error e => (st, .error (.bundle e))
      | .ok () =>
        if env.refuses target then (st, .error (translated info osError))
        else if info.isDir then
          match st.fs.mkdirs target with
          | none => (st, .error (translated info osError))
          | some fs => ({ st with fs }, .ok ())
        else
          match st.fs.mkdirs target.dropLast with
          | none => (st, .error (translated info osError))
          | some fs =>
            match info.openRaises with
            | some r => ({ st with fs }, .error (translated info r))
            | none =>
              match fs.write target [] with
              | none => ({ st with fs }, .error (translated info osError))
              | some fs => streamChunks env info target { st with fs } [] info.chunks

def extractEach (env : Env) (dest : Path) (st : Progress α) : List (Info α) → Progress α × Except Failure Unit
  | [] => (st, .ok ())
  | info :: infos =>
    match extractInfo env dest st info with
    | (st, .ok ()) => extractEach env dest st infos
    | (st, .error e) => (st, .error e)

/-- `extract_bundle`: the files it leaves, and what it raises. -/
def extractBundle (env : Env) (dest : Path) (fs : Fs (List α)) (archive : Archive α) :
    Fs (List α) × Except Failure Unit :=
  match archive with
  | .error r => (fs, .error (if r.exc = .badZipFile then .bundle (.notAZip r.text) else .escaped r))
  | .ok infos =>
    if maxEntries < infos.length then (fs, .error (.bundle (.tooManyEntries infos.length)))
    else
      let (st, result) := extractEach env dest ⟨fs, 0⟩ infos
      (st.fs, result)

end Bajutsu.Serve.Uploads
