import Bajutsu.Lib.EventStream
import Bajutsu.Lib.UnifiedDiff

/-!
# The events of a job's log

An event is written with a line for each line of its data. Data are broken where `str.splitlines` breaks them, which is at
more characters than end a line of an event stream, and a reader joins the lines by line feeds.
-/

namespace Bajutsu.Serve.EventFrames

open EventStream UnifiedDiff

/-- The names of the events that are sent. -/
inductive EventName where
  | log | humanRequest | artifact | notice | done
  deriving DecidableEq

def EventName.text : EventName → String
  | log => "log"
  | humanRequest => "human-request"
  | artifact => "artifact"
  | notice => "notice"
  | done => "done"

def formatSse (event : EventName) (data : EventStream.Text) : EventStream.Text :=
  let body := (splitlines data).flatMap fun line => "data: ".toList ++ line ++ ['\n']
  "event: ".toList ++ event.text.toList ++ ['\n'] ++ (if body = [] then "data: \n".toList else body) ++ ['\n']

/-! ## What a reader receives -/

/-- Each carriage return, with the line feed after it or without one, is a line feed. -/
def unixBreaks : EventStream.Text → EventStream.Text
  | [] => []
  | '\r' :: '\n' :: cs => '\n' :: unixBreaks cs
  | c :: cs => (if c = '\r' then '\n' else c) :: unixBreaks cs

def dropFinalBreak (text : EventStream.Text) : EventStream.Text :=
  if text.getLast? = some '\n' then text.dropLast else text

def received (data : EventStream.Text) : EventStream.Text := dropFinalBreak (unixBreaks data)

/-- A break of `str.splitlines` that an event stream has none at. -/
def isForeign (c : Char) : Bool := isBreak c && c ≠ '\r' && c ≠ '\n'

def Plain (data : EventStream.Text) : Prop := ∀ c ∈ data, isForeign c = false

/-! ## The lines of the data -/

/-- What a reader makes of the lines. -/
def joined (data : EventStream.Text) : EventStream.Text := ['\n'].intercalate (splitlines data)

theorem splitlines_eq_nil {data : EventStream.Text} : splitlines data = [] ↔ data = [] := by
  constructor
  · intro h
    cases data with
    | nil => rfl
    | cons c cs =>
      rw [splitlines.eq_def] at h
      split at h
      · assumption
      · cases h
      · split at h
        · cases h
        · unfold glue at h
          split at h <;> cases h
  · rintro rfl
    rfl

theorem not_break_of_mem_splitlines {data line : EventStream.Text} (h : line ∈ splitlines data) :
    ∀ c ∈ line, isBreak c = false := by
  induction data using splitlines.induct generalizing line with
  | case1 => cases h
  | case2 cs ih =>
    rw [splitlines, List.mem_cons] at h
    rcases h with rfl | hMem
    · intro c hNil
      cases hNil
    · exact ih hMem
  | case3 c cs hPair hBreak ih =>
    rw [splitlines_break hBreak (by rintro rfl hHead; cases cs <;> simp_all), List.mem_cons] at h
    rcases h with rfl | hMem
    · intro c hNil
      cases hNil
    · exact ih hMem
  | case4 c cs hPair hKept ih =>
    have hKept : isBreak c = false := by simpa using hKept
    rw [splitlines_kept hKept] at h
    cases hLines : splitlines cs with
    | nil =>
      rw [hLines, glue, List.mem_singleton] at h
      rw [h]
      simpa using hKept
    | cons first lines =>
      rw [hLines] at ih
      rw [hLines, glue, List.mem_cons] at h
      rcases h with rfl | hMem
      · intro d hMem
        rcases List.mem_cons.mp hMem with rfl | hMem
        · exact hKept
        · exact ih List.mem_cons_self d hMem
      · exact ih (List.mem_cons_of_mem first hMem)

theorem joined_of_empty_line {data rest : EventStream.Text} (h : splitlines data = [] :: splitlines rest) :
    joined data = if rest = [] then [] else '\n' :: joined rest := by
  rw [joined, h, joined]
  split
  · rename_i hNil
    rw [hNil]
    rfl
  · rename_i hNe
    rw [List.intercalate_cons_of_ne_nil (mt splitlines_eq_nil.mp hNe)]
    rfl

theorem joined_kept {c : Char} (h : isBreak c = false) (cs : EventStream.Text) : joined (c :: cs) = c :: joined cs := by
  rw [joined, splitlines_kept h, joined]
  cases splitlines cs with
  | nil => rfl
  | cons line lines => cases lines <;> simp [glue]

theorem unixBreaks_eq_nil {text : EventStream.Text} : unixBreaks text = [] ↔ text = [] := by
  fun_cases unixBreaks text <;> simp

theorem unixBreaks_cons {c : Char} {cs : EventStream.Text} (h : c = '\r' → cs.head? ≠ some '\n') :
    unixBreaks (c :: cs) = (if c = '\r' then '\n' else c) :: unixBreaks cs := by
  rw [unixBreaks]
  rintro rest rfl rfl
  exact h rfl rfl

theorem dropFinalBreak_cons (c : Char) (text : EventStream.Text) :
    dropFinalBreak (c :: text) = if text = [] ∧ c = '\n' then [] else c :: dropFinalBreak text := by
  cases text with
  | nil => by_cases hBreak : c = '\n' <;> simp [dropFinalBreak, hBreak]
  | cons d text =>
    rw [if_neg (by simp), dropFinalBreak, dropFinalBreak, List.getLast?_cons_cons]
    split <;> rfl

/-- A reader receives the data exactly when no break in them is foreign to the format. -/
theorem joined_eq_received_iff (data : EventStream.Text) : joined data = received data ↔ Plain data := by
  induction data using splitlines.induct with
  | case1 => exact iff_of_true rfl (by rintro _ ⟨⟩)
  | case2 cs ih =>
    have hPlain : Plain ('\r' :: '\n' :: cs) ↔ Plain cs := by
      have hReturn : isForeign '\r' = false := by decide
      have hFeed : isForeign '\n' = false := by decide
      simp [Plain, hReturn, hFeed]
    rw [hPlain, ← ih, joined_of_empty_line rfl, received, unixBreaks, dropFinalBreak_cons, received]
    simp only [unixBreaks_eq_nil]
    by_cases hNil : cs = [] <;> simp [hNil, joined, splitlines, dropFinalBreak, unixBreaks]
  | case3 c cs hPair hBreak ih =>
    have hHead : c = '\r' → cs.head? ≠ some '\n' := by
      rintro rfl hHead
      obtain ⟨rest, rfl⟩ := List.head?_eq_some_iff.mp hHead
      exact hPair rest rfl rfl
    have hPlain : Plain (c :: cs) ↔ isForeign c = false ∧ Plain cs := List.forall_mem_cons
    rw [hPlain, ← ih, joined_of_empty_line (splitlines_break hBreak hHead), received, unixBreaks_cons hHead,
      dropFinalBreak_cons, received]
    simp only [unixBreaks_eq_nil]
    by_cases hOwn : c = '\r' ∨ c = '\n'
    · have hShown : isForeign c = false := by rcases hOwn with rfl | rfl <;> decide
      have hFeed : (if c = '\r' then '\n' else c) = '\n' := by rcases hOwn with rfl | rfl <;> rfl
      rw [hFeed]
      by_cases hNil : cs = [] <;> simp [hNil, hShown, joined, splitlines, dropFinalBreak, unixBreaks]
    · obtain ⟨hReturn, hFeed⟩ := not_or.mp hOwn
      have hForeign : isForeign c = true := by simp [isForeign, hBreak, hReturn, hFeed]
      have hStays : ¬ (cs = [] ∧ c = '\n') := fun h => hFeed h.2
      rw [if_neg hReturn, if_neg hStays, hForeign]
      apply iff_of_false
      · intro hEq
        split at hEq
        · cases hEq
        · exact hFeed (List.cons.inj hEq).1.symm
      · rintro ⟨hFalse, -⟩
        cases hFalse
  | case4 c cs hPair hKept ih =>
    have hKept : isBreak c = false := by simpa using hKept
    have hFeed : c ≠ '\n' := by rintro rfl; revert hKept; decide
    have hReturn : c ≠ '\r' := by rintro rfl; revert hKept; decide
    have hPlain : Plain (c :: cs) ↔ Plain cs := by simp [Plain, isForeign, hKept]
    rw [hPlain, ← ih, joined_kept hKept, received, unixBreaks_cons (fun h => absurd h hReturn), if_neg hReturn,
      dropFinalBreak_cons, if_neg (fun h => hFeed h.2), List.cons.injEq, received]
    exact and_iff_right rfl

/-! ## The round trip -/

/-- The data lines of an event, of which there is always one. -/
def dataOf (data : EventStream.Text) : List EventStream.Text := if splitlines data = [] then [[]] else splitlines data

theorem intercalate_dataOf (data : EventStream.Text) : ['\n'].intercalate (dataOf data) = joined data := by
  rw [dataOf, joined]
  split
  · rename_i hNil
    rw [hNil]
    rfl
  · rfl

theorem dataOf_unbroken {data line : EventStream.Text} (h : line ∈ dataOf data) : Unbroken line := by
  rw [dataOf] at h
  split at h
  · rw [List.mem_singleton] at h
    rw [h]
    exact ⟨List.not_mem_nil, List.not_mem_nil⟩
  · have hKept := not_break_of_mem_splitlines h
    exact ⟨fun hMem => absurd (hKept _ hMem) (by decide), fun hMem => absurd (hKept _ hMem) (by decide)⟩

theorem dataOf_ne_nil (data : EventStream.Text) : dataOf data ≠ [] := by
  rw [dataOf]
  split
  · exact List.cons_ne_nil _ _
  · assumption

theorem formatSse_eq (event : EventName) (data : EventStream.Text) :
    formatSse event data = ended (eventLines event.text.toList (dataOf data)) := by
  have hBody : (if (splitlines data).flatMap (fun line => "data: ".toList ++ line ++ ['\n']) = [] then "data: \n".toList
      else (splitlines data).flatMap fun line => "data: ".toList ++ line ++ ['\n']) = ended ((dataOf data).map dataLine) := by
    rw [dataOf, ended, List.flatMap_map]
    cases splitlines data with
    | nil => rfl
    | cons line lines => simp [dataLine_eq]
  unfold formatSse
  simp only [hBody]
  simp [eventLines, eventLine_eq, ended]

theorem eventName_unbroken (event : EventName) : event.text.toList ≠ [] ∧ Unbroken event.text.toList := by
  cases event <;> exact ⟨by decide, by decide, by decide⟩

theorem parse_formatted (events : List (EventName × EventStream.Text)) :
    parse (events.flatMap fun event => formatSse event.1 event.2) =
      events.map fun event => ⟨event.1.text.toList, joined event.2⟩ := by
  have hWritten := @parse_written (events.map fun event => (event.1.text.toList, dataOf event.2))
    (by
      intro event hMem
      obtain ⟨sent, -, rfl⟩ := List.mem_map.mp hMem
      exact eventName_unbroken sent.1)
    (by
      intro event hMem
      obtain ⟨sent, -, rfl⟩ := List.mem_map.mp hMem
      exact ⟨dataOf_ne_nil sent.2, fun line hLine => dataOf_unbroken hLine⟩)
  simp only [List.flatMap_map, List.map_map, ended, List.flatMap_assoc] at hWritten
  simpa only [formatSse_eq, ended, Function.comp_def, intercalate_dataOf] using hWritten

/-- What a reader of the stream is to make of the events. -/
def Lossless (events : List (EventName × EventStream.Text)) : Prop :=
  parse (events.flatMap fun event => formatSse event.1 event.2) =
    events.map fun event => ⟨event.1.text.toList, received event.2⟩

theorem lossless_iff (events : List (EventName × EventStream.Text)) :
    Lossless events ↔ ∀ event ∈ events, Plain event.2 := by
  rw [Lossless, parse_formatted, List.map_inj_left]
  apply forall₂_congr
  intro event _
  rw [Event.mk.injEq, and_iff_right rfl, joined_eq_received_iff]

/-- One event is received as it was sent, and so is a list of them, exactly when no break in their data is foreign to the
format. -/
theorem formatSse_lossless_iff (event : EventName) (data : EventStream.Text)
    (events : List (EventName × EventStream.Text)) :
    (parse (formatSse event data) = [⟨event.text.toList, received data⟩] ↔ Plain data) ∧
      (Lossless events ↔ ∀ event ∈ events, Plain event.2) := by
  refine ⟨?_, lossless_iff events⟩
  simpa [Lossless] using lossless_iff [(event, data)]

/-- A log line with a form feed, which arrives as two lines. -/
theorem form_feed_lost : ¬ Lossless [(.log, "loading\x0c50%".toList)] := by
  rw [lossless_iff]
  intro h
  exact absurd (h _ List.mem_cons_self '\x0c' (by decide)) (by decide)

end Bajutsu.Serve.EventFrames
