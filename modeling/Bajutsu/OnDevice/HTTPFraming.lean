import Bajutsu.OnDevice.HTTPServer

/-!
# Where one request ends and the next begins

A stream is framed by the requests at its front, each a header block and the body bytes its length fields
declare. The server frames every stream the same way but for a request whose length fields disagree: it goes by
the last of them.
-/

namespace Bajutsu.OnDevice

open ByteStream

/-- The bytes one request takes off the stream, and the request they are. -/
structure Frame where
  block : List UInt8
  body : List UInt8
  request : HTTPRequest

namespace Frame

def bytes (f : Frame) : List UInt8 := f.block ++ f.body

end Frame

namespace Foundation

variable (F : Foundation)

/-- What the Content-Length fields of a header declare, in their order. -/
def declaredLengths (headerBuf : List UInt8) : List (Option Int) :=
  match F.headerLines headerBuf with
  | some (_ :: lines) => (lines.filter F.isContentLength).map F.declaredLength
  | _ => []

def methodAndPath (headerBuf : List UInt8) : Option (List Char × List Char) :=
  match F.headerLines headerBuf with
  | some (first :: _) => F.requestLine first
  | _ => none

/-- A header block with a request line, and the body that belongs to the request. -/
structure Shaped (f : Frame) : Prop where
  block : Block blankLine maxHeaderSize f.block
  line : F.methodAndPath f.block = some (f.request.method, f.request.path)
  body : f.request.body = if f.body = [] then none else some f.body

/-- All length fields declare the body that follows, and without one there is none. -/
structure WellFormed (f : Frame) : Prop extends F.Shaped f where
  agree : ∀ declared ∈ F.declaredLengths f.block, declared = some (f.body.length : Int)
  absent : F.declaredLengths f.block = [] → f.body = []
  capped : (f.body.length : Int) ≤ maxBodySize

/-- Each field declares a length that could be read. -/
def LengthsReadable (headerBuf : List UInt8) : Prop :=
  ∀ declared ∈ F.declaredLengths headerBuf, ∃ n : Int, declared = some n ∧ 0 ≤ n ∧ n ≤ maxBodySize

/-- The last length field declares the body that follows. -/
structure Taken (f : Frame) : Prop extends F.Shaped f where
  readable : F.LengthsReadable f.block
  last : (F.declaredLengths f.block).getLast? = some (some (f.body.length : Int)) ∨
    F.declaredLengths f.block = [] ∧ f.body = []

/-- The last length field declares the body that follows, and another one declares something else. -/
def Conflicting (f : Frame) : Prop :=
  F.Taken f ∧ ∃ declared ∈ F.declaredLengths f.block, declared ≠ some (f.body.length : Int)

end Foundation

/-- The frames at the front of a stream, as long as there is one. -/
inductive Framed (P : Frame → Prop) : List UInt8 → List Frame → List UInt8 → Prop where
  | stop {stream : List UInt8} (h : ∀ f rest, P f → stream ≠ f.bytes ++ rest) : Framed P stream [] stream
  | next {f : Frame} {fs : List Frame} {rest tail : List UInt8} (hFrame : P f) (hRest : Framed P rest fs tail) :
    Framed P (f.bytes ++ rest) (f :: fs) tail

/-! ## The exchanges of a connection -/

section Exchanges

variable {σ : Type} (handler : RequestHandler σ)

/-- Each request and the response that the handler gives it. -/
def exchanges : σ → List Frame → List (HTTPRequest × HTTPResponse)
  | _, [] => []
  | state, f :: fs =>
    (f.request, (handler state f.request).1) :: exchanges (handler state f.request).2 fs

/-- A request and its whole response. -/
def served (exchange : HTTPRequest × HTTPResponse) : List Event :=
  [.dispatched exchange.1, .sent (responseBytes exchange.2 true)]

/-- All frames are served, and what follows them is answered with an error if there is anything; or the last
request dispatched is the one whose response did not go out in full. -/
def Trace (F : Foundation) (state : σ) (frames : List Frame) (tail : List UInt8) (events : List Event) : Prop :=
  (∃ refusal, refusal <+: responseBytes (badRequest F) false ∧
    events = (exchanges handler state frames).flatMap served ++ if tail = [] then [] else [.sent refusal]) ∨
  ∃ front exchange back part rest, exchanges handler state frames = front ++ exchange :: back ∧ rest ≠ [] ∧
    responseBytes exchange.2 true = part ++ rest ∧
    events = front.flatMap served ++ [.dispatched exchange.1, .sent part]

end Exchanges

/-- However the stream is split and whatever goes out at once, the connection serves the well-formed requests at
its front, each by its own bytes, and no other one. -/
def FramedCorrectly (F : Foundation) (stream : List UInt8) : Prop :=
  ∀ (σ : Type) (handler : RequestHandler σ) (state : σ) (taken : Nat → Nat) (arrivals : Arrivals UInt8),
    arrived arrivals = stream →
    ∃ frames tail events, Framed F.WellFormed stream frames tail ∧
      serve F handler taken state arrivals = some events ∧ Trace handler F state frames tail events ∧
      ((∀ i, 0 < taken i) → events = (exchanges handler state frames).flatMap served ++
        if tail = [] then [] else [.sent (responseBytes (badRequest F) false)])

/-! ## Reading is framing -/

namespace Foundation

variable {F : Foundation}

theorem scanLengths_eq_some (lines : List (List Char)) (contentLength result : Int) :
    F.scanLengths lines contentLength = some result ↔
      (∀ declared ∈ (lines.filter F.isContentLength).map F.declaredLength,
        ∃ n : Int, declared = some n ∧ 0 ≤ n ∧ n ≤ maxBodySize) ∧
      (((lines.filter F.isContentLength).map F.declaredLength).getLast?.getD (some contentLength)) = some result := by
  induction lines generalizing contentLength with
  | nil => simp [scanLengths]
  | cons line lines ih =>
    rw [scanLengths]
    by_cases hField : F.isContentLength line = true
    · rw [if_pos hField, List.filter_cons_of_pos hField, List.map_cons, List.forall_mem_cons,
        List.getLast?_cons, Option.getD_some]
      cases hDeclared : F.declaredLength line with
      | none => simp
      | some n =>
        dsimp only
        split
        · rename_i hRange
          rw [ih n]
          constructor
          · rintro ⟨hAll, hLast⟩
            exact ⟨⟨⟨n, rfl, hRange.1, hRange.2⟩, hAll⟩, hLast⟩
          · rintro ⟨⟨-, hAll⟩, hLast⟩
            exact ⟨hAll, hLast⟩
        · rename_i hRange
          constructor
          · intro h
            cases h
          · rintro ⟨⟨⟨m, hm, hLow, hHigh⟩, -⟩, -⟩
            cases hm
            exact absurd ⟨hLow, hHigh⟩ hRange
    · rw [if_neg hField, List.filter_cons_of_neg hField]
      exact ih contentLength

theorem parseHeader_eq_some {headerBuf : List UInt8} {header : Header} :
    F.parseHeader headerBuf = some header ↔
      F.methodAndPath headerBuf = some (header.method, header.path) ∧ F.LengthsReadable headerBuf ∧
        (F.declaredLengths headerBuf).getLast?.getD (some 0) = some (header.contentLength : Int) := by
  rw [parseHeader, methodAndPath, LengthsReadable, declaredLengths]
  cases hLines : F.headerLines headerBuf with
  | none => simp
  | some lines =>
    cases lines with
    | nil => simp
    | cons first lines =>
      dsimp only
      cases hLine : F.requestLine first with
      | none => simp
      | some parts =>
        obtain ⟨method, path⟩ := parts
        have hScan := fun n : Int => @scanLengths_eq_some F lines 0 n
        cases hLength : F.scanLengths lines 0 with
        | none =>
          dsimp only
          constructor
          · intro h
            cases h
          · rintro ⟨-, hAll, hLast⟩
            have hSome := (hScan _).mpr ⟨hAll, hLast⟩
            rw [hLength] at hSome
            cases hSome
        | some n =>
          obtain ⟨hAll, hLast⟩ := (hScan n).mp hLength
          have hPos : 0 ≤ n := by
            cases hDeclared : ((lines.filter F.isContentLength).map F.declaredLength).getLast? with
            | none =>
              rw [hDeclared] at hLast
              cases hLast
              exact Int.le_refl 0
            | some declared =>
              rw [hDeclared] at hLast
              obtain ⟨m, hm, hLow, -⟩ := hAll declared (List.mem_of_getLast? hDeclared)
              subst hm
              cases hLast
              exact hLow
          dsimp only
          rw [hLast]
          constructor
          · intro h
            cases h
            exact ⟨rfl, hAll, by rw [Int.toNat_of_nonneg hPos]⟩
          · rintro ⟨hParts, -, hn⟩
            obtain ⟨headerMethod, headerPath, headerLength⟩ := header
            cases hParts
            cases hn
            simp

theorem taken_iff {f : Frame} : F.Taken f ↔ F.Shaped f ∧ F.LengthsReadable f.block ∧
    (F.declaredLengths f.block).getLast?.getD (some 0) = some (f.body.length : Int) := by
  constructor
  · intro h
    refine ⟨h.toShaped, h.readable, ?_⟩
    obtain hLast | ⟨hNone, hBody⟩ := h.last
    · rw [hLast]
      rfl
    · rw [hNone, hBody]
      rfl
  · rintro ⟨hShaped, hReadable, hLast⟩
    refine ⟨hShaped, hReadable, ?_⟩
    cases hDeclared : (F.declaredLengths f.block).getLast? with
    | none =>
      rw [hDeclared] at hLast
      refine .inr ⟨List.getLast?_eq_none_iff.mp hDeclared, ?_⟩
      have hLength : (0 : Int) = f.body.length := by simpa using hLast
      exact List.length_eq_zero_iff.mp (by omega)
    | some declared =>
      rw [hDeclared] at hLast
      exact .inl (congrArg some hLast)

theorem WellFormed.taken {f : Frame} (h : F.WellFormed f) : F.Taken f := by
  refine ⟨h.toShaped, fun declared hDeclared => ?_, ?_⟩
  · exact ⟨f.body.length, h.agree declared hDeclared, Int.natCast_nonneg _, h.capped⟩
  · cases hLast : (F.declaredLengths f.block).getLast? with
    | none =>
      have hNone := List.getLast?_eq_none_iff.mp hLast
      exact .inr ⟨hNone, h.absent hNone⟩
    | some declared => exact .inl (congrArg some (h.agree declared (List.mem_of_getLast? hLast)))

theorem Taken.wellFormed {f : Frame} (h : F.Taken f) (hAgree : ¬F.Conflicting f) : F.WellFormed f := by
  have hAll : ∀ declared ∈ F.declaredLengths f.block, declared = some (f.body.length : Int) := by
    intro declared hDeclared
    by_contra hOther
    exact hAgree ⟨h, declared, hDeclared, hOther⟩
  refine ⟨h.toShaped, hAll, ?_, ?_⟩
  · intro hNone
    obtain hLast | ⟨-, hBody⟩ := h.last
    · rw [hNone] at hLast
      cases hLast
    · exact hBody
  · obtain hLast | ⟨-, hBody⟩ := h.last
    · obtain ⟨n, hn, -, hHigh⟩ := h.readable _ (List.mem_of_getLast? hLast)
      cases hn
      exact hHigh
    · rw [hBody]
      decide

theorem Taken.unique {f g : Frame} (hf : F.Taken f) (hg : F.Taken g) {rest rest' : List UInt8}
    (hStream : f.bytes ++ rest = g.bytes ++ rest') : f = g ∧ rest = rest' := by
  obtain ⟨hShaped, -, hLength⟩ := taken_iff.mp hf
  obtain ⟨hShaped', -, hLength'⟩ := taken_iff.mp hg
  obtain ⟨block, body, method, path, requestBody⟩ := f
  obtain ⟨block', body', method', path', requestBody'⟩ := g
  rw [Frame.bytes, Frame.bytes, List.append_assoc, List.append_assoc] at hStream
  have hBlock : block = block' := hShaped.block.unique hShaped'.block hStream
  subst hBlock
  have hSame := hLength.symm.trans hLength'
  simp only [Option.some.injEq, Int.natCast_inj] at hSame
  obtain ⟨rfl, hRest⟩ := List.append_inj (List.append_cancel_left hStream) hSame
  have hLine := hShaped.line.symm.trans hShaped'.line
  cases hLine
  have hBody : requestBody = requestBody' := hShaped.body.trans hShaped'.body.symm
  rw [hBody]
  exact ⟨rfl, hRest⟩

theorem readBody_cases {headerBuf : List UInt8} (hBlock : Block blankLine maxHeaderSize headerBuf)
    {header : Header} (hHeader : F.parseHeader headerBuf = some header) (arrivals : Arrivals UInt8) :
    (∃ body, F.Taken ⟨headerBuf, body, ⟨header.method, header.path, if body = [] then none else some body⟩⟩ ∧
        (readBody header arrivals).1 =
          .request ⟨header.method, header.path, if body = [] then none else some body⟩ ∧
        arrived arrivals = body ++ arrived (readBody header arrivals).2) ∨
      (readBody header arrivals).1 = .malformed ∧ (arrived arrivals).length < header.contentLength := by
  obtain ⟨hLine, hReadable, hLength⟩ := parseHeader_eq_some.mp hHeader
  have hTaken (body : List UInt8) (hBody : body.length = header.contentLength) :
      F.Taken ⟨headerBuf, body, ⟨header.method, header.path, if body = [] then none else some body⟩⟩ := by
    apply taken_iff.mpr
    exact ⟨⟨hBlock, hLine, rfl⟩, hReadable, by rw [hLength, hBody]⟩
  rw [readBody]
  by_cases hZero : header.contentLength = 0
  · rw [if_pos hZero]
    exact .inl ⟨[], hTaken [] hZero.symm, rfl, rfl⟩
  · rw [if_neg hZero]
    dsimp only
    obtain ⟨hFull, hArrived⟩ | ⟨hShort, hArrived⟩ :=
      readExactly_cases (Nat.le_refl header.contentLength) arrivals
    · rw [if_pos hFull]
      refine .inl ⟨_, hTaken _ hFull, ?_, hArrived⟩
      have hSome : (readExactly header.contentLength header.contentLength arrivals).1 ≠ [] := by
        intro hNil
        rw [hNil] at hFull
        exact hZero hFull.symm
      rw [if_neg hSome]
    · rw [if_neg hShort.ne, hArrived]
      exact .inr ⟨rfl, hShort⟩

theorem unended_nil : Unended blankLine [] := by
  intro shorter hShorter hEnds
  rw [List.prefix_nil.mp hShorter] at hEnds
  exact absurd (List.suffix_nil.mp hEnds) (by decide)

theorem readRequest_cases (arrivals : Arrivals UInt8) :
    (∃ f, F.Taken f ∧ (readRequest F arrivals).1 = .request f.request ∧
        arrived arrivals = f.bytes ++ arrived (readRequest F arrivals).2) ∨
      ((readRequest F arrivals).1 = .connectionEnded ∧ arrived arrivals = []) ∨
      ((readRequest F arrivals).1 = .malformed ∧ arrived arrivals ≠ [] ∧
        ∀ f rest, F.Taken f → arrived arrivals ≠ f.bytes ++ rest) := by
  have hRead := @readBlock_cases UInt8 _ blankLine maxHeaderSize [] arrivals maxHeaderSize unended_nil rfl
  rw [List.nil_append] at hRead
  rw [readRequest]
  generalize readBlock blankLine maxHeaderSize [] arrivals = read at hRead
  obtain ⟨outcome, rest⟩ := read
  obtain ⟨headerBuf, rfl, hBlock, hArrived⟩ | ⟨rfl, hNone⟩ | ⟨rfl, hSome, hNo⟩ := hRead
  · dsimp only at hArrived ⊢
    have hNotEmpty : arrived arrivals ≠ [] := by
      intro hEmpty
      rw [hEmpty] at hArrived
      have hNil := (List.append_eq_nil_iff.mp hArrived.symm).1
      rw [hNil] at hBlock
      exact absurd (List.suffix_nil.mp hBlock.ends) (by decide)
    cases hHeader : F.parseHeader headerBuf with
    | none =>
      refine .inr (.inr ⟨rfl, hNotEmpty, fun f later hTaken hStream => ?_⟩)
      obtain ⟨hShaped, hReadable, hLength⟩ := taken_iff.mp hTaken
      rw [Frame.bytes, List.append_assoc] at hStream
      have hSame := hBlock.unique hShaped.block (hArrived.symm.trans hStream)
      subst hSame
      have hSome := (@parseHeader_eq_some F f.block ⟨f.request.method, f.request.path, f.body.length⟩).mpr
        ⟨hShaped.line, hReadable, hLength⟩
      rw [hHeader] at hSome
      cases hSome
    | some header =>
      dsimp only
      obtain ⟨body, hTaken, hRequest, hBody⟩ | ⟨hMalformed, hShort⟩ := readBody_cases hBlock hHeader rest
      · refine .inl ⟨_, hTaken, hRequest, ?_⟩
        rw [hArrived, hBody, Frame.bytes, List.append_assoc]
      · refine .inr (.inr ⟨hMalformed, hNotEmpty, fun f later hTaken hStream => ?_⟩)
        obtain ⟨hShaped, hReadable, hLength⟩ := taken_iff.mp hTaken
        rw [Frame.bytes, List.append_assoc] at hStream
        have hSame := hBlock.unique hShaped.block (hArrived.symm.trans hStream)
        subst hSame
        rw [(parseHeader_eq_some.mp hHeader).2.2] at hLength
        simp only [Option.some.injEq, Int.natCast_inj] at hLength
        have hRest := List.append_cancel_left (hArrived.symm.trans hStream)
        rw [hRest, List.length_append] at hShort
        omega
  · exact .inr (.inl ⟨rfl, hNone⟩)
  · refine .inr (.inr ⟨rfl, hSome.resolve_left (by decide), fun f later hTaken hStream => ?_⟩)
    rw [Frame.bytes, List.append_assoc] at hStream
    exact hNo f.block (f.body ++ later) hTaken.block hStream

end Foundation

end Bajutsu.OnDevice
