import Bajutsu.Cloud.DeviceFarm

/-!
# The verdict of a cloud run

The manifests that the verdict reads are those that stand at the end: a later member for the same path hides an
earlier one, and a document without scenarios says nothing. The verdict hides a failure just when all that stands
passes and something else does not.
-/

namespace Bajutsu.Cloud.DeviceFarm

open FileSystem PyValue
open Evidence.EvidenceRedactor (truthy)

variable {β : Type} {library : Library β} {dest p : Path} {fs fin : Fs β} {artifacts : List (Artifact β)}

/-! ## What is stored -/

def Data.bytes : Data β → Option β
  | .whole bytes => some bytes
  | .broken _ => none

namespace Member

def readable (member : Member β) : Bool := member.isDir || member.data.bytes.isSome

def entry (dest : Path) (member : Member β) : Entry β :=
  ⟨member.path dest, if member.isDir then none else member.data.bytes⟩

end Member

def entriesOf (library : Library β) (dest : Path) (item : Artifact β × Nat) : List (Entry β) :=
  if item.1.isZip then
    let members := (library.openZip item.1.payload).getD []
    members.map fun member => (getinfo members member).entry dest
  else [⟨logPath dest item.2 item.1, some item.1.payload⟩]

/-- The directory of the run, and what the artifacts put there, in order. -/
def layout (library : Library β) (dest : Path) (artifacts : List (Artifact β)) : List (Entry β) :=
  ⟨dest, none⟩ :: artifacts.zipIdx.flatMap (entriesOf library dest)

/-- A zip opens, its members are safe, and those that are extracted can be read. -/
def Opens (library : Library β) (dest : Path) (artifact : Artifact β) : Prop :=
  artifact.isZip = true → ∃ members, library.openZip artifact.payload = some members ∧
    (∀ member ∈ members, member.safe dest = true) ∧ ∀ member ∈ members, (getinfo members member).readable = true

/-- The file at a path when everything has been stored: the last one that an artifact put there, or the one that was
there before. -/
def standing (library : Library β) (dest : Path) (fs : Fs β) (artifacts : List (Artifact β)) (p : Path) : Option β :=
  Fs.lastAt p (layout library dest artifacts) <|> fs.file p

end Bajutsu.Cloud.DeviceFarm
