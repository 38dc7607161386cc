import Bajutsu.Crawl.Screen

/-!
# The start of a crawl

Before its workers start, a crawl seeds the frontier: with the screen it starts on, with the branch of a saved
map that it resumes, or with what a saved map has left to try.
-/

namespace Bajutsu.Crawl

open PyValue

/-! ## Entries of a saved plan -/

/-- The quote ends the text, or comes before its last line break. -/
def endsQuoted (quote : Char) (text : List Char) : Bool :=
  text.getLast? = some quote || (text.getLast? = some '\n' && text.dropLast.getLast? = some quote)

/-- What comes before the first `=` that a quoted value follows to the end. -/
def beforeValue : List Char → Option (List Char)
  | [] => none
  | [_] => none
  | c :: quote :: text =>
    if c = '=' && "\x27\x22".toList.contains quote && endsQuoted quote text then some []
    else (beforeValue (quote :: text)).map (c :: ·)

/-- An entry of the older form `type <target>=<quoted value>` without its value. -/
def planKey (entry : String) : String :=
  match entry.toList with
  | 't' :: 'y' :: 'p' :: 'e' :: ' ' :: c :: text =>
    match beforeValue text with
    | some target => String.ofList ("type ".toList ++ c :: target)
    | none => entry
  | _ => entry

/-! ## The frontier of a saved map -/

/-- A screen map that a crawl wrote: the screens with untried operations are among its nodes. -/
structure SavedMap extends ScreenMap where
  planned : ∀ fp ops, get plan fp = some ops → ops ≠ [] → (get nodes fp).isSome = true

/-- Where the replay of a recorded path ends, if it still resolves. -/
inductive Walked where
  | stale
  | landed (elements : List Element) (dismissed : List String)

section Frontier

variable (settings : Settings) (rt : Runtime)

/-- The operations of a screen that a saved map has left to try. -/
def remaining (plan : List (String × List String)) (fp : String) : List String :=
  ((get plan fp).getD []).map planKey

/-- The candidates of the screen that the plan still lists. -/
def rederived (plan : List (String × List String)) (fp : String) (elements : List Element) : List Action :=
  (candidateActions rt elements).filter fun a => a.describe settings.spelling ∈ remaining plan fp

/-- The frontier of one screen of the plan. -/
def seedScreen (walk : String → Walked) (c : Coordinator) (fp : String) : Coordinator :=
  if remaining c.screenMap.plan fp = [] then c
  else match walk fp with
    | .stale => c
    | .landed elements dismissed =>
      if (fingerprint rt elements).value ≠ fp then c
      else
        let path := (get c.screenMap.paths fp).getD []
        let ops := rederived settings rt c.screenMap.plan fp elements
        let c := if dismissed = [] then c else c.recordAlert settings path dismissed
        if ops = [] then c else { c with pathTo := set c.pathTo fp path, pending := set c.pending fp ops }

def anyPending (c : Coordinator) : Bool := c.pending.any fun item => item.2 ≠ []

def reconstructFrontier (walk : String → Walked) (base : ScreenMap) : Coordinator :=
  let c := (sorted (base.plan.map Prod.fst)).foldl (seedScreen settings rt walk) { screenMap := base }
  if anyPending c then Coordinator.emit settings { c with screenMap.stopReason := "" }
  else if base.plan.any fun item => item.2 ≠ [] then
    { c with screenMap.stopReason := if base.stopReason ≠ "" then base.stopReason else "max_steps" }
  else Coordinator.emit settings { c with screenMap.stopReason := "completed" }

end Frontier

/-! ## The start -/

/-- How a crawl starts, and what its primary device shows and its guide proposes meanwhile. -/
inductive Boot where
  | fresh (start : List Element) (dismissed : List String) (guided : List Action)
  | resume (base : ScreenMap) (seedPath seedOps : List Action) (dismissed : List String)
      (walked : Walked) (guided : List Action)
  | continuing (base : SavedMap) (walk : String → Walked)

section Start

variable (settings : Settings) (rt : Runtime)

def alertIfAny (path : List Action) (dismissed : List String) (c : Coordinator) : Coordinator :=
  if dismissed = [] then c else c.recordAlert settings path dismissed

/-- A screen that is not in the map yet is published; its operations are claimed. -/
def publishIfNew (elements : List Element) (guided : List Action) (c : Coordinator) : Coordinator :=
  let fp := fingerprint rt elements
  if c.known fp.value then c
  else (c.publish settings (nodeOf elements settings.spelling fp guided) guided).2

/-- The coordinator that the workers start on, and the screen the primary worker is left on. -/
def bootstrap : Boot → Coordinator × Option String
  | .fresh start dismissed guided =>
    let fp := fingerprint rt start
    let c := alertIfAny settings [] dismissed { screenMap := {}, pathTo := [(fp.value, [])] }
    let (frontier, c) := c.publish settings (nodeOf start settings.spelling fp guided) guided
    (Coordinator.emit settings { c with pending := set c.pending fp.value frontier }, some fp.value)
  | .resume base seedPath seedOps dismissed walked guided =>
    let c := alertIfAny settings [] dismissed { screenMap := base }
    match walked with
    | .stale => (Coordinator.emit settings { c with screenMap.stopReason := "completed" }, none)
    | .landed elements _ =>
      let fp := fingerprint rt elements
      let c := publishIfNew settings rt elements guided { c with pathTo := set c.pathTo fp.value seedPath }
      (Coordinator.emit settings { c with pending := set c.pending fp.value seedOps }, some fp.value)
  | .continuing base walk => (reconstructFrontier settings rt walk base.toScreenMap, none)

end Start

end Bajutsu.Crawl
