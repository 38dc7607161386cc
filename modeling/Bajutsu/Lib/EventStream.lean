import Mathlib.Data.List.Basic
import Mathlib.Tactic.Common

/-!
# The event stream format

A stream is read line by line; a line ends at a carriage return and a line feed, at a line feed or at a carriage return.
A line gives a field a value, and an empty line dispatches the event of the lines before it, unless they gave no data. A
line that has not ended and an event that has not been dispatched are not read. The fields `id` and `retry` are no part of
an event.
-/

namespace Bajutsu.EventStream

abbrev Text := List Char

structure Event where
  type : Text
  data : Text
  deriving DecidableEq

/-! ## Lines -/

/-- The lines from here on, of which the first has begun. -/
def linesFrom (line : Text) : Text → List Text
  | [] => []
  | '\r' :: '\n' :: cs => line :: linesFrom [] cs
  | c :: cs => if c = '\r' ∨ c = '\n' then line :: linesFrom [] cs else linesFrom (line ++ [c]) cs

/-- A byte order mark in front of the stream is no part of it. -/
def lines (stream : Text) : List Text :=
  linesFrom [] (if stream.head? = some '\uFEFF' then stream.drop 1 else stream)

def Unbroken (line : Text) : Prop := '\r' ∉ line ∧ '\n' ∉ line

variable {line : Text}

theorem linesFrom_unbroken (h : Unbroken line) (begun rest : Text) :
    linesFrom begun (line ++ '\n' :: rest) = (begun ++ line) :: linesFrom [] rest := by
  induction line generalizing begun with
  | nil => rw [List.append_nil, List.nil_append, linesFrom, if_pos (.inr rfl)]; exact nofun
  | cons c line ih =>
    obtain ⟨hReturn, hFeed⟩ := h
    rw [List.mem_cons, not_or] at hReturn hFeed
    rw [List.cons_append, linesFrom, if_neg (not_or.mpr ⟨Ne.symm hReturn.1, Ne.symm hFeed.1⟩), ih ⟨hReturn.2, hFeed.2⟩,
      List.append_assoc, List.singleton_append]
    rintro cs rfl
    exact absurd rfl hReturn.1

/-- Lines, each ended by a line feed. -/
def ended (lines : List Text) : Text := lines.flatMap (· ++ ['\n'])

theorem linesFrom_ended {texts : List Text} (h : ∀ text ∈ texts, Unbroken text) (rest : Text) :
    linesFrom [] (ended texts ++ rest) = texts ++ linesFrom [] rest := by
  induction texts with
  | nil => rfl
  | cons text texts ih =>
    obtain ⟨hText, hTexts⟩ := List.forall_mem_cons.mp h
    have hEnded : ended (text :: texts) ++ rest = text ++ '\n' :: (ended texts ++ rest) := by simp [ended]
    rw [hEnded, linesFrom_unbroken hText, ih hTexts, List.nil_append, List.cons_append]

/-! ## Fields -/

structure Buffers where
  type : Text := []
  data : Text := []

def fieldOf (line : Text) : Text := line.takeWhile (· ≠ ':')

/-- One space after the colon is no part of the value. -/
def valueOf (line : Text) : Text :=
  match (line.dropWhile (· ≠ ':')).drop 1 with
  | ' ' :: value => value
  | value => value

def Buffers.give (buffers : Buffers) (line : Text) : Buffers :=
  if fieldOf line = "event".toList then { buffers with type := valueOf line }
  else if fieldOf line = "data".toList then { buffers with data := buffers.data ++ valueOf line ++ ['\n'] }
  else buffers

def Buffers.event (buffers : Buffers) : Event where
  type := if buffers.type = [] then "message".toList else buffers.type
  data := buffers.data.dropLast

def readLines (buffers : Buffers) : List Text → List Event
  | [] => []
  | [] :: lines => if buffers.data = [] then readLines {} lines else buffers.event :: readLines {} lines
  | line :: lines => readLines (buffers.give line) lines

def parse (stream : Text) : List Event := readLines {} (lines stream)

/-! ## An event that is written -/

def eventLine (type : Text) : Text := "event: ".toList ++ type

def dataLine (data : Text) : Text := "data: ".toList ++ data

theorem eventLine_eq (type : Text) : eventLine type = 'e' :: 'v' :: 'e' :: 'n' :: 't' :: ':' :: ' ' :: type := by
  have hField : "event: ".toList = ['e', 'v', 'e', 'n', 't', ':', ' '] := by simp
  unfold eventLine
  rw [hField]
  rfl

theorem dataLine_eq (data : Text) : dataLine data = 'd' :: 'a' :: 't' :: 'a' :: ':' :: ' ' :: data := by
  have hField : "data: ".toList = ['d', 'a', 't', 'a', ':', ' '] := by simp
  unfold dataLine
  rw [hField]
  rfl

theorem unbroken_eventLine {type : Text} (h : Unbroken type) : Unbroken (eventLine type) := by
  simpa [eventLine_eq, Unbroken] using h

theorem unbroken_dataLine {data : Text} (h : Unbroken data) : Unbroken (dataLine data) := by
  simpa [dataLine_eq, Unbroken] using h

theorem give_eventLine (buffers : Buffers) (type : Text) : buffers.give (eventLine type) = { buffers with type } := by
  simp [Buffers.give, fieldOf, valueOf, eventLine_eq]

theorem give_dataLine (buffers : Buffers) (data : Text) :
    buffers.give (dataLine data) = { buffers with data := buffers.data ++ data ++ ['\n'] } := by
  simp [Buffers.give, fieldOf, valueOf, dataLine_eq]

theorem readLines_dataLines (buffers : Buffers) (datas rest : List Text) :
    readLines buffers (datas.map dataLine ++ rest) =
      readLines { buffers with data := buffers.data ++ ended datas } rest := by
  induction datas generalizing buffers with
  | nil => rw [ended, List.flatMap_nil, List.append_nil]; rfl
  | cons data datas ih =>
    rw [List.map_cons, List.cons_append]
    change readLines (buffers.give (dataLine data)) (datas.map dataLine ++ rest) = _
    rw [give_dataLine, ih]
    simp [ended]

/-- The lines of one event: its type, its data in one line or more, and an empty line. -/
def eventLines (type : Text) (datas : List Text) : List Text := eventLine type :: (datas.map dataLine ++ [[]])

theorem dropLast_ended {datas : List Text} (h : datas ≠ []) : (ended datas).dropLast = ['\n'].intercalate datas := by
  induction datas with
  | nil => exact absurd rfl h
  | cons data datas ih =>
    cases datas with
    | nil => simp [ended]
    | cons next datas =>
      have hTail := ih (List.cons_ne_nil _ _)
      have hEnded : ended (data :: next :: datas) = data ++ '\n' :: ended (next :: datas) := by simp [ended]
      have hNe : ended (next :: datas) ≠ [] := by simp [ended]
      rw [hEnded, List.intercalate_cons_of_ne_nil (List.cons_ne_nil _ _), ← hTail, List.dropLast_append_of_ne_nil
        (List.cons_ne_nil _ _), List.dropLast_cons_of_ne_nil hNe]
      simp

theorem ended_ne_nil {datas : List Text} (h : datas ≠ []) : ended datas ≠ [] := by
  obtain ⟨data, datas, rfl⟩ := List.exists_cons_of_ne_nil h
  simp [ended]

theorem readLines_eventLines {type : Text} (hType : type ≠ []) {datas : List Text} (hDatas : datas ≠ [])
    (rest : List Text) :
    readLines {} (eventLines type datas ++ rest) = ⟨type, ['\n'].intercalate datas⟩ :: readLines {} rest := by
  have hRead : readLines {} (eventLines type datas ++ rest) =
      readLines (({} : Buffers).give (eventLine type)) (datas.map dataLine ++ [] :: rest) := by
    rw [eventLines, List.cons_append, List.append_assoc]
    rfl
  rw [hRead, give_eventLine, readLines_dataLines, List.nil_append, readLines, if_neg (ended_ne_nil hDatas),
    Buffers.event, if_neg hType, dropLast_ended hDatas]

/-- Events that are written one after the other are read as they were written, their data joined by line feeds. -/
theorem parse_written {events : List (Text × List Text)} (hTypes : ∀ event ∈ events, event.1 ≠ [] ∧ Unbroken event.1)
    (hDatas : ∀ event ∈ events, event.2 ≠ [] ∧ ∀ data ∈ event.2, Unbroken data) :
    parse (ended (events.flatMap fun event => eventLines event.1 event.2)) =
      events.map fun event => ⟨event.1, ['\n'].intercalate event.2⟩ := by
  have hUnbroken : ∀ line ∈ events.flatMap fun event => eventLines event.1 event.2, Unbroken line := by
    intro line hMem
    obtain ⟨event, hEvent, hLine⟩ := List.mem_flatMap.mp hMem
    rw [eventLines, List.mem_cons, List.mem_append, List.mem_map, List.mem_singleton] at hLine
    rcases hLine with rfl | ⟨data, hData, rfl⟩ | rfl
    · exact unbroken_eventLine (hTypes event hEvent).2
    · exact unbroken_dataLine ((hDatas event hEvent).2 data hData)
    · exact ⟨List.not_mem_nil, List.not_mem_nil⟩
  have hLines : lines (ended (events.flatMap fun event => eventLines event.1 event.2)) =
      events.flatMap fun event => eventLines event.1 event.2 := by
    have hMark : (ended (events.flatMap fun event => eventLines event.1 event.2)).head? ≠ some '\uFEFF' := by
      cases events with
      | nil => exact nofun
      | cons event events => simp [ended, eventLines, eventLine_eq]
    rw [lines, if_neg hMark]
    simpa [linesFrom] using linesFrom_ended hUnbroken []
  rw [parse, hLines]
  clear hUnbroken hLines
  induction events with
  | nil => rfl
  | cons event events ih =>
    obtain ⟨hType, hTypes⟩ := List.forall_mem_cons.mp hTypes
    obtain ⟨hData, hDatas⟩ := List.forall_mem_cons.mp hDatas
    rw [List.flatMap_cons, readLines_eventLines hType.1 hData.1, ih hTypes hDatas, List.map_cons]

end Bajutsu.EventStream
