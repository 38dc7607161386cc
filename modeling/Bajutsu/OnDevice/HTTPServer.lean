import Bajutsu.Lib.ByteStream
import Mathlib.Algebra.Group.Int.Defs
import Mathlib.Data.String.Basic

/-!
# The runner's HTTP server

One connection is kept open across requests. A request's header is read byte by byte up to the blank line, its
body by the length the header declares, and the handler's reply is written before the next request is read.
-/

namespace Bajutsu.OnDevice

open ByteStream

structure HTTPRequest where
  method : List Char
  path : List Char
  body : Option (List UInt8)
  deriving DecidableEq

structure HTTPResponse where
  statusCode : Int
  contentType : String
  body : List UInt8

/-- What the platform's libraries decide: how bytes read as UTF-8, where one user-perceived character ends and
the next begins, the lower case of a text, which characters are whitespace, and how an object is serialized. -/
structure Foundation where
  utf8 : List UInt8 → Option (List Char)
  characters : List Char → List (List Char)
  lowercased : List Char → List Char
  whitespaces : Char → Bool
  jsonData : List (String × String) → List UInt8

def maxHeaderSize : Nat := 8192

def maxBodySize : Int := 65536

/-- CR LF CR LF. -/
def blankLine : List UInt8 := [0x0D, 0x0A, 0x0D, 0x0A]

/-! ## Reading a header -/

/-- `components(separatedBy: "\r\n")`, `line` being what was read of the current one. -/
def components (line : List Char) : List Char → List (List Char)
  | '\r' :: '\n' :: rest => line :: components [] rest
  | c :: rest => components (line ++ [c]) rest
  | [] => [line]

/-- `split(separator: " ", maxSplits:)`: no empty part is kept, and behind the last split the rest is one part. -/
def split (maxSplits : Nat) (parts : List (List (List Char))) (part : List (List Char)) :
    List (List Char) → List (List (List Char))
  | [] => if part = [] then parts else parts ++ [part]
  | c :: rest =>
    if c ≠ [' '] then split maxSplits parts (part ++ [c]) rest
    else if part = [] then split maxSplits parts [] rest
    else if parts.length + 1 = maxSplits then
      if rest = [] then parts ++ [part] else parts ++ [part, rest]
    else split maxSplits (parts ++ [part]) [] rest

def digit (c : Char) : Option Nat := if c.isDigit then some (c.toNat - '0'.toNat) else none

def digitsValue (value : Nat) : List Char → Option Nat
  | [] => some value
  | c :: rest =>
    match digit c with
    | some d => digitsValue (value * 10 + d) rest
    | none => none

/-- `Int(_:)` of a text: a sign, decimal digits, and a value of 64 bits. -/
def parseInt (text : List Char) : Option Int :=
  let (sign, digits) : Int × List Char :=
    match text with
    | '-' :: digits => (-1, digits)
    | '+' :: digits => (1, digits)
    | digits => (1, digits)
  if digits = [] then none
  else
    match digitsValue 0 digits with
    | some n => if -2 ^ 63 ≤ sign * n ∧ sign * n < 2 ^ 63 then some (sign * n) else none
    | none => none

def contentLengthField : List Char := "content-length:".toList

namespace Foundation

variable (F : Foundation)

def trimmingWhitespaces (text : List Char) : List Char :=
  ((text.dropWhile F.whitespaces).reverse.dropWhile F.whitespaces).reverse

/-- `line.lowercased().hasPrefix("content-length:")`, character by character. -/
def isContentLength (line : List Char) : Bool :=
  (contentLengthField.map fun c => [c]).isPrefixOf (F.characters (F.lowercased line))

/-- What the line declares behind the field's name. -/
def declaredLength (line : List Char) : Option Int :=
  parseInt (F.trimmingWhitespaces ((F.characters line).drop contentLengthField.length).flatten)

/-- The loop over the lines behind the request line. -/
def scanLengths : List (List Char) → Int → Option Int
  | [], contentLength => some contentLength
  | line :: lines, contentLength =>
    if F.isContentLength line then
      match F.declaredLength line with
      | some declared =>
        if 0 ≤ declared ∧ declared ≤ maxBodySize then scanLengths lines declared else none
      | none => none
    else scanLengths lines contentLength

/-- Method and path of the request line. -/
def requestLine (line : List Char) : Option (List Char × List Char) :=
  match split 2 [] [] (F.characters line) with
  | method :: path :: _ => some (method.flatten, path.flatten)
  | _ => none

structure Header where
  method : List Char
  path : List Char
  contentLength : Nat

def headerLines (headerBuf : List UInt8) : Option (List (List Char)) := (F.utf8 headerBuf).map (components [])

def parseHeader (headerBuf : List UInt8) : Option Header :=
  match F.headerLines headerBuf with
  | none => none
  | some [] => none
  | some (first :: lines) =>
    match F.requestLine first, F.scanLengths lines 0 with
    | some (method, path), some contentLength => some ⟨method, path, contentLength.toNat⟩
    | _, _ => none

end Foundation

/-! ## Reading a request -/

inductive ReadOutcome where
  | request (request : HTTPRequest)
  | connectionEnded
  | malformed

/-- The rest of `readRequest` once the header is there. -/
def readBody (header : Foundation.Header) (arrivals : Arrivals UInt8) : ReadOutcome × Arrivals UInt8 :=
  if header.contentLength = 0 then (.request ⟨header.method, header.path, none⟩, arrivals)
  else
    let got := readExactly header.contentLength header.contentLength arrivals
    if got.1.length = header.contentLength then
      (.request ⟨header.method, header.path, some got.1⟩, got.2)
    else (.malformed, got.2)

def readRequest (F : Foundation) (arrivals : Arrivals UInt8) : ReadOutcome × Arrivals UInt8 :=
  match readBlock blankLine maxHeaderSize [] arrivals with
  | (.nothing, rest) => (.connectionEnded, rest)
  | (.cut, rest) => (.malformed, rest)
  | (.block headerBuf, rest) =>
    match F.parseHeader headerBuf with
    | none => (.malformed, rest)
    | some header => readBody header rest

/-! ## Writing a response -/

def statusText : Int → String
  | 200 => "OK"
  | 400 => "Bad Request"
  | 404 => "Not Found"
  | 500 => "Internal Server Error"
  | _ => "Unknown"

def utf8Bytes (text : String) : List UInt8 := text.toList.flatMap String.utf8EncodeChar

def responseHeader (response : HTTPResponse) (keepAlive : Bool) : List UInt8 :=
  utf8Bytes ("HTTP/1.1 " ++ toString response.statusCode ++ " " ++ statusText response.statusCode ++ "\r\n" ++
    "Content-Type: " ++ response.contentType ++ "\r\n" ++
    "Content-Length: " ++ toString response.body.length ++ "\r\n" ++
    "Connection: " ++ (if keepAlive then "keep-alive" else "close") ++ "\r\n\r\n")

def responseBytes (response : HTTPResponse) (keepAlive : Bool) : List UInt8 :=
  responseHeader response keepAlive ++ response.body

def writeResponse (taken : Nat → Nat) (calls : Nat) (response : HTTPResponse) (keepAlive : Bool) : Sent UInt8 :=
  let header := sendAll taken (responseHeader response keepAlive).length calls (responseHeader response keepAlive)
  if header.complete then
    let body := sendAll taken response.body.length header.calls response.body
    ⟨body.complete, header.bytes ++ body.bytes, body.calls⟩
  else header

/-- `.error(400, "bad request")` -/
def badRequest (F : Foundation) : HTTPResponse :=
  ⟨400, "application/json", F.jsonData [("status", "error"), ("message", "bad request")]⟩

/-! ## A connection -/

/-- What happens on a connection: a request reaches the handler, or bytes of a response go out. -/
inductive Event where
  | dispatched (request : HTTPRequest)
  | sent (bytes : List UInt8)
  deriving DecidableEq

/-- A handler answers by what it did before. -/
abbrev RequestHandler (σ : Type) := σ → HTTPRequest → HTTPResponse × σ

structure Connection (σ : Type) where
  arrivals : Arrivals UInt8
  calls : Nat
  state : σ

/-- `none` if `fuel` runs out. -/
def handleConnection {σ : Type} (F : Foundation) (handler : RequestHandler σ) (taken : Nat → Nat) :
    Nat → Connection σ → Option (List Event)
  | 0, _ => none
  | fuel + 1, c =>
    match readRequest F c.arrivals with
    | (.connectionEnded, _) => some []
    | (.malformed, _) => some [.sent (writeResponse taken c.calls (badRequest F) false).bytes]
    | (.request request, rest) =>
      let (response, state) := handler c.state request
      let written := writeResponse taken c.calls response true
      if written.complete then
        (handleConnection F handler taken fuel ⟨rest, written.calls, state⟩).map fun events =>
          .dispatched request :: .sent written.bytes :: events
      else some [.dispatched request, .sent written.bytes]

/-- The connection from its first byte on. -/
def serve {σ : Type} (F : Foundation) (handler : RequestHandler σ) (taken : Nat → Nat) (state : σ)
    (arrivals : Arrivals UInt8) : Option (List Event) :=
  handleConnection F handler taken ((arrived arrivals).length + 1) ⟨arrivals, 0, state⟩

end Bajutsu.OnDevice
