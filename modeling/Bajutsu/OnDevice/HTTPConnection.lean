import Bajutsu.OnDevice.HTTPFraming

/-!
# A connection from its first byte to its last

The requests a connection dispatches are the frames of what arrives, taken by their last length field. They are
the well-formed requests just when no request behind these has length fields that disagree.
-/

namespace Bajutsu.OnDevice

open ByteStream

theorem writeResponse_cases (taken : Nat → Nat) (calls : Nat) (response : HTTPResponse) (keepAlive : Bool) :
    ((writeResponse taken calls response keepAlive).complete = true ∧
        (writeResponse taken calls response keepAlive).bytes = responseBytes response keepAlive) ∨
      ((writeResponse taken calls response keepAlive).complete = false ∧ (∃ i, taken i = 0) ∧
        ∃ rest ≠ [], responseBytes response keepAlive =
          (writeResponse taken calls response keepAlive).bytes ++ rest) := by
  rw [writeResponse, responseBytes]
  dsimp only
  obtain ⟨hHeader, hBytes⟩ | ⟨hHeader, hZero, rest, hRest, hBytes⟩ :=
    sendAll_cases taken calls (Nat.le_refl (responseHeader response keepAlive).length)
  · rw [if_pos hHeader]
    dsimp only
    rw [hBytes]
    obtain ⟨hBody, hSent⟩ | ⟨hBody, hZero, rest, hRest, hSent⟩ := sendAll_cases taken
      (sendAll taken (responseHeader response keepAlive).length calls (responseHeader response keepAlive)).calls
      (Nat.le_refl response.body.length)
    · exact .inl ⟨hBody, by rw [hSent]⟩
    · refine .inr ⟨hBody, hZero, rest, hRest, ?_⟩
      rw [List.append_assoc, ← hSent]
  · rw [if_neg (by rw [hHeader]; exact Bool.false_ne_true)]
    refine .inr ⟨hHeader, hZero, rest ++ response.body, ?_, ?_⟩
    · exact fun h => hRest (List.append_eq_nil_iff.mp h).1
    · rw [← List.append_assoc, ← hBytes]

/-! ## Framing is unique -/

theorem Framed.unique {F : Foundation} {P : Frame → Prop} (hP : ∀ f, P f → F.Taken f) {stream : List UInt8}
    {fs fs' : List Frame} {tail tail' : List UInt8} (h : Framed P stream fs tail)
    (h' : Framed P stream fs' tail') : fs = fs' ∧ tail = tail' := by
  induction h generalizing fs' with
  | stop hNone =>
    cases h' with
    | stop _ => exact ⟨rfl, rfl⟩
    | @next f fs rest tail hFrame hRest => exact absurd rfl (hNone f rest hFrame)
  | @next f fs rest tail hFrame hRest ih =>
    generalize hStream : f.bytes ++ rest = stream at h'
    cases h' with
    | stop hNone => exact absurd hStream.symm (hNone f rest hFrame)
    | @next g gs rest' tail' hFrame' hRest' =>
      obtain ⟨rfl, rfl⟩ := Foundation.Taken.unique (hP f hFrame) (hP g hFrame') hStream
      obtain ⟨rfl, rfl⟩ := ih hRest'
      exact ⟨rfl, rfl⟩

theorem Foundation.Taken.bytes_ne_nil {F : Foundation} {f : Frame} (h : F.Taken f) : f.bytes ≠ [] := by
  intro hNil
  have hBlock := (List.append_eq_nil_iff.mp hNil).1
  have hEnds := h.block.ends
  rw [hBlock] at hEnds
  exact absurd (List.suffix_nil.mp hEnds) (by decide)

theorem Framed.exists {F : Foundation} {P : Frame → Prop} (hP : ∀ f, P f → F.Taken f) (stream : List UInt8) :
    ∃ fs tail, Framed P stream fs tail := by
  induction hLength : stream.length using Nat.strong_induction_on generalizing stream with
  | _ n ih =>
    by_cases hFront : ∃ f rest, P f ∧ stream = f.bytes ++ rest
    · obtain ⟨f, rest, hFrame, rfl⟩ := hFront
      have hPos := List.length_pos_of_ne_nil (hP f hFrame).bytes_ne_nil
      obtain ⟨fs, tail, hRest⟩ := ih rest.length (by rw [List.length_append] at hLength; omega) rest rfl
      exact ⟨f :: fs, tail, .next hFrame hRest⟩
    · refine ⟨[], stream, .stop fun f rest hFrame hStream => ?_⟩
      exact hFront ⟨f, rest, hFrame, hStream⟩

/-! ## The run of a connection -/

section Run

variable {σ : Type} {F : Foundation} {handler : RequestHandler σ} {taken : Nat → Nat}

theorem Trace.cons {state : σ} {f : Frame} {fs : List Frame} {tail : List UInt8} {events : List Event}
    (h : Trace handler F (handler state f.request).2 fs tail events) :
    Trace handler F state (f :: fs) tail
      (served (f.request, (handler state f.request).1) ++ events) := by
  obtain ⟨refusal, hRefusal, hEvents⟩ | ⟨front, exchange, back, part, rest, hExchanges, hRest, hPart, hEvents⟩ := h
  · refine .inl ⟨refusal, hRefusal, ?_⟩
    rw [hEvents, exchanges, List.flatMap_cons, List.append_assoc]
  · refine .inr ⟨(f.request, (handler state f.request).1) :: front, exchange, back, part, rest, ?_, hRest, hPart, ?_⟩
    · rw [exchanges, hExchanges, List.cons_append]
    · rw [hEvents, List.flatMap_cons, List.append_assoc]

/-- A connection serves the frames of what arrives, taken by their last length field. -/
theorem handleConnection_trace {stream : List UInt8} {fs : List Frame} {tail : List UInt8}
    (h : Framed F.Taken stream fs tail) {fuel : Nat} {c : Connection σ} (hStream : arrived c.arrivals = stream)
    (hFuel : stream.length < fuel) :
    ∃ events, handleConnection F handler taken fuel c = some events ∧
      Trace handler F c.state fs tail events ∧
      ((∀ i, 0 < taken i) → events = (exchanges handler c.state fs).flatMap served ++
        if tail = [] then [] else [.sent (responseBytes (badRequest F) false)]) := by
  induction h generalizing fuel c with
  | @stop stream hNone =>
    obtain ⟨fuel, rfl⟩ := Nat.exists_eq_succ_of_ne_zero (by omega : fuel ≠ 0)
    rw [handleConnection]
    have hRead := @Foundation.readRequest_cases F c.arrivals
    generalize readRequest F c.arrivals = read at hRead
    obtain ⟨outcome, rest⟩ := read
    rw [hStream] at hRead
    obtain ⟨f, hTaken, -, hFront⟩ | ⟨rfl, hEmpty⟩ | ⟨rfl, hSome, -⟩ := hRead
    · exact absurd hFront (hNone f _ hTaken)
    · refine ⟨[], rfl, .inl ⟨[], List.nil_prefix, ?_⟩, fun _ => ?_⟩
      · rw [if_pos hEmpty]
        rfl
      · rw [if_pos hEmpty]
        rfl
    · refine ⟨_, rfl, .inl ⟨(writeResponse taken c.calls (badRequest F) false).bytes, ?_, ?_⟩, fun hAll => ?_⟩
      · obtain ⟨-, hBytes⟩ | ⟨-, -, rest, -, hBytes⟩ := writeResponse_cases taken c.calls (badRequest F) false
        · rw [hBytes]
        · exact ⟨rest, hBytes.symm⟩
      · rw [if_neg hSome]
        rfl
      · obtain ⟨-, hBytes⟩ | ⟨-, ⟨i, hZero⟩, -⟩ := writeResponse_cases taken c.calls (badRequest F) false
        · rw [if_neg hSome, hBytes]
          rfl
        · exact absurd hZero (hAll i).ne'
  | @next f fs rest tail hFrame hRest ih =>
    obtain ⟨fuel, rfl⟩ := Nat.exists_eq_succ_of_ne_zero (by omega : fuel ≠ 0)
    rw [handleConnection]
    have hRead := @Foundation.readRequest_cases F c.arrivals
    generalize readRequest F c.arrivals = read at hRead
    obtain ⟨outcome, later⟩ := read
    rw [hStream] at hRead
    obtain ⟨g, hTaken, rfl, hFront⟩ | ⟨-, hEmpty⟩ | ⟨-, -, hNone⟩ := hRead
    · obtain ⟨rfl, hLater⟩ := Foundation.Taken.unique hTaken hFrame hFront.symm
      dsimp only
      obtain ⟨hComplete, hBytes⟩ | ⟨hPart, ⟨i, hZero⟩, missing, hMissing, hBytes⟩ :=
        writeResponse_cases taken c.calls (handler c.state g.request).1 true
      · have hPos := List.length_pos_of_ne_nil hFrame.bytes_ne_nil
        obtain ⟨events, hRun, hTrace, hAll⟩ := @ih fuel
          ⟨later, (writeResponse taken c.calls (handler c.state g.request).1 true).calls,
            (handler c.state g.request).2⟩ hLater
          (by rw [List.length_append] at hFuel; omega)
        refine ⟨served (g.request, (handler c.state g.request).1) ++ events, ?_, hTrace.cons, fun hSends => ?_⟩
        · rw [if_pos hComplete, hRun, hBytes]
          rfl
        · rw [hAll hSends, exchanges, List.flatMap_cons, List.append_assoc]
      · rw [if_neg (by rw [hPart]; exact Bool.false_ne_true)]
        refine ⟨_, rfl, .inr ⟨[], _, exchanges handler (handler c.state g.request).2 fs, _, missing, rfl,
          hMissing, hBytes, rfl⟩, fun hSends => absurd hZero (hSends i).ne'⟩
    · exact absurd (List.append_eq_nil_iff.mp hEmpty).1 hFrame.bytes_ne_nil
    · exact absurd rfl (hNone f rest hFrame)

end Run

/-! ## Length fields that disagree -/

section Conflicts

variable {F : Foundation}

theorem Framed.append {P : Frame → Prop} {stream tail last : List UInt8} {fs gs : List Frame}
    (h : Framed F.WellFormed stream fs tail) (hTail : Framed P tail gs last)
    (hP : ∀ f, F.WellFormed f → P f) : Framed P stream (fs ++ gs) last := by
  induction h with
  | stop _ => exact hTail
  | next hFrame _ ih => exact .next (hP _ hFrame) (ih hTail)

theorem Framed.tail_none {P : Frame → Prop} {stream tail : List UInt8} {fs : List Frame}
    (h : Framed P stream fs tail) : ∀ f rest, P f → tail ≠ f.bytes ++ rest := by
  induction h with
  | stop hNone => exact hNone
  | next _ _ ih => exact ih

theorem framed_of_conflicting {f : Frame} (h : F.Conflicting f) (rest : List UInt8) :
    Framed F.WellFormed (f.bytes ++ rest) [] (f.bytes ++ rest) := by
  refine .stop fun g later hWell hStream => ?_
  obtain ⟨hTaken, declared, hDeclared, hOther⟩ := h
  obtain ⟨rfl, -⟩ := Foundation.Taken.unique hTaken hWell.taken hStream
  exact hOther (hWell.agree declared hDeclared)

def dispatchedOf (events : List Event) : List HTTPRequest :=
  events.filterMap fun
    | .dispatched request => some request
    | .sent _ => none

theorem dispatchedOf_served {σ : Type} (handler : RequestHandler σ) (state : σ) (fs : List Frame)
    (tail : List UInt8) (refusal : List UInt8) :
    dispatchedOf ((exchanges handler state fs).flatMap served ++ if tail = [] then [] else [.sent refusal]) =
      fs.map Frame.request := by
  induction fs generalizing state with
  | nil =>
    rw [exchanges, List.flatMap_nil, List.nil_append]
    split <;> rfl
  | cons f fs ih =>
    rw [exchanges, List.flatMap_cons, List.append_assoc, List.map_cons, ← ih (handler state f.request).2]
    rfl

theorem arrived_singleton (stream : List UInt8) : arrived [stream] = stream := by
  cases stream with
  | nil => rfl
  | cons b stream => simp [arrived]

/-- Where length fields disagree, the request is dispatched all the same. -/
theorem not_framedCorrectly {stream tail rest : List UInt8} {fs : List Frame} {f : Frame}
    (h : Framed F.WellFormed stream fs tail) (hConflict : F.Conflicting f) (hTail : tail = f.bytes ++ rest) :
    ¬FramedCorrectly F stream := by
  intro hCorrect
  obtain ⟨gs, last, hTaken⟩ := @Framed.exists F F.Taken (fun _ hFrame => hFrame) tail
  have hMore : gs ≠ [] := by
    rintro rfl
    cases hTaken with
    | stop hNone => exact hNone f rest hConflict.1 hTail
  have hAll := h.append hTaken fun _ => Foundation.WellFormed.taken
  -- One run with all of the stream at once, and every call of `send` taking a byte.
  let handler : RequestHandler Unit := fun state _ => (badRequest F, state)
  obtain ⟨frames, tail', events, hFramed, hServe, -, hEvents⟩ :=
    hCorrect Unit handler () (fun _ => 1) [stream] (arrived_singleton stream)
  obtain ⟨rfl, rfl⟩ := hFramed.unique (fun _ => Foundation.WellFormed.taken) h
  obtain ⟨events', hRun, -, hEvents'⟩ := @handleConnection_trace Unit F handler (fun _ => 1) stream _ _ hAll
    ((arrived [stream]).length + 1) ⟨[stream], 0, ()⟩ (arrived_singleton stream)
    (by rw [arrived_singleton]; exact Nat.lt_succ_self _)
  rw [serve, hRun] at hServe
  cases hServe
  have hSame := (hEvents fun _ => Nat.one_pos).symm.trans (hEvents' fun _ => Nat.one_pos)
  have hDispatched := congrArg dispatchedOf hSame
  rw [dispatchedOf_served, dispatchedOf_served, List.map_append] at hDispatched
  have hLength := congrArg List.length hDispatched
  have hPos := List.length_pos_of_ne_nil hMore
  rw [List.length_append, List.length_map, List.length_map] at hLength
  omega

/-- A stream is framed correctly just when no request behind its well-formed ones has length fields that
disagree, each of them a length that could be read, and the bytes that the last one declares. -/
theorem framedCorrectly_iff (F : Foundation) (stream : List UInt8) :
    FramedCorrectly F stream ↔
      ∀ frames tail, Framed F.WellFormed stream frames tail →
        ∀ f rest, F.Conflicting f → tail ≠ f.bytes ++ rest := by
  constructor
  · intro hCorrect frames tail hFramed f rest hConflict hTail
    exact not_framedCorrectly hFramed hConflict hTail hCorrect
  · rintro hAgree σ handler state taken arrivals rfl
    obtain ⟨frames, tail, hFramed⟩ :=
      @Framed.exists F F.WellFormed (fun _ => Foundation.WellFormed.taken) (arrived arrivals)
    have hStop : Framed F.Taken tail [] tail := by
      refine .stop fun f rest hTaken hTail => ?_
      apply hFramed.tail_none f rest _ hTail
      exact hTaken.wellFormed fun hConflict => hAgree frames tail hFramed f rest hConflict hTail
    have hTaken := hFramed.append hStop fun _ => Foundation.WellFormed.taken
    rw [List.append_nil] at hTaken
    obtain ⟨events, hRun, hTrace, hAll⟩ := @handleConnection_trace σ F handler taken _ _ _ hTaken
      ((arrived arrivals).length + 1) ⟨arrivals, 0, state⟩ rfl (Nat.lt_succ_self _)
    exact ⟨frames, tail, events, hFramed, hRun, hTrace, hAll⟩

end Conflicts

/-! ## Two lengths in one header -/

def asciiCharacters : List Char → List (List Char)
  | '\r' :: '\n' :: rest => ['\r', '\n'] :: asciiCharacters rest
  | c :: rest => [c] :: asciiCharacters rest
  | [] => []

def asciiFoundation : Foundation where
  utf8 bytes := if bytes.all fun b => b.toNat < 128 then some (bytes.map fun b => Char.ofNat b.toNat) else none
  characters := asciiCharacters
  lowercased text := text.map Char.toLower
  whitespaces c := c = ' ' || c = '\t'
  jsonData members := utf8Bytes ("\x7b" ++
    ",".intercalate (members.map fun m => "\"" ++ m.1 ++ "\":\"" ++ m.2 ++ "\"") ++ "\x7d")

/-- A `POST` of five bytes by its first length field and of none by its second. -/
def twoLengths : Frame where
  block := utf8Bytes "POST /a HTTP/1.1\r\nContent-Length: 5\r\nContent-Length: 0\r\n\r\n"
  body := []
  request := ⟨"POST".toList, "/a".toList, none⟩

theorem twoLengths_block : Block blankLine maxHeaderSize twoLengths.block where
  ends := by decide +kernel
  first shorter hShorter hEnds := by
    have hAll : twoLengths.block.inits.all (fun p => !blankLine.isSuffixOf p || p == twoLengths.block) = true := by
      decide +kernel
    have hHere := List.all_eq_true.mp hAll shorter ((List.mem_inits shorter _).mpr hShorter)
    rw [List.isSuffixOf_iff_suffix.mpr hEnds] at hHere
    simpa using hHere
  fits := by decide +kernel

theorem twoLengths_conflicting : asciiFoundation.Conflicting twoLengths := by
  have hLengths : asciiFoundation.declaredLengths twoLengths.block = [some 5, some 0] := by decide +kernel
  refine ⟨⟨⟨twoLengths_block, by decide +kernel, rfl⟩, ?_, .inl ?_⟩, some 5, ?_, by decide⟩
  · intro declared hDeclared
    rw [hLengths] at hDeclared
    simp only [List.mem_cons, List.not_mem_nil, or_false] at hDeclared
    obtain rfl | rfl := hDeclared
    · exact ⟨5, rfl, by decide, by decide⟩
    · exact ⟨0, rfl, by decide, by decide⟩
  · rw [hLengths]
    rfl
  · rw [hLengths]
    exact List.mem_cons_self

/-- The request goes to the handler, and its five bytes are read as the next one. -/
theorem twoLengths_dispatched :
    ¬∀ (F : Foundation) (stream : List UInt8), FramedCorrectly F stream := by
  intro hAll
  have hFramed := framed_of_conflicting twoLengths_conflicting (utf8Bytes "hello")
  exact not_framedCorrectly hFramed twoLengths_conflicting rfl (hAll asciiFoundation _)

end Bajutsu.OnDevice
