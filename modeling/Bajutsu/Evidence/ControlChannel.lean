import Bajutsu.Lib.Interleaving
import Bajutsu.Lib.PyText
import Bajutsu.Lib.PyValue
import Mathlib.Data.Finset.Basic

/-!
# The app's control channel

The collector queues commands for the app, hands them out when the app polls, and keeps the app's reports. Each
of its methods is one critical section. The requests of the app are handled on threads of their own.
-/

namespace Bajutsu.Evidence.Network

open Interleaving PyText PyValue

abbrev Text := List Char

abbrev Bytes := List UInt8

/-! ## The collector -/

inductive ToggleCapability where
  | touchVisualization
  deriving DecidableEq

inductive PendingCommand where
  | appCommand (id : Text) (capability : ToggleCapability) (enabled : Bool)
  | appStubTableCommand (id : Text) (mocks : List Val)

def PendingCommand.id : PendingCommand → Text
  | .appCommand id _ _ => id
  | .appStubTableCommand id _ => id

structure AppCommandReport where
  id : Text
  applied : Bool
  reason : Text
  deriving DecidableEq

/-- Times are in seconds of the monotonic clock. -/
structure Collector where
  items : List (Val × ℚ)
  transitions : List (Val × ℚ)
  commands : List PendingCommand
  issued : Finset Text
  reports : List (Text × AppCommandReport)
  issuedCount : Nat
  nonces : Finset Text
  refusedBearers : Nat

def Collector.init : Collector := ⟨[], [], [], ∅, [], 0, ∅, 0⟩

def commandId (count : Nat) : Text := 'c' :: decimal count

/-- The bodies of the collector's methods under its lock. -/
inductive Statement where
  | enqueueCommand (capability : ToggleCapability) (enabled : Bool)
  | enqueueStubTable (mocks : List Val)
  | drainCommands
  | recordReport (report : AppCommandReport)
  | reportFor (commandId : Text)
  | nonceSpent (nonce : Text)
  | claimNonce (nonce : Text)
  | add (exchange : Val)
  | addTransition (transition : Val)
  | refuseBearer
  | clear

def Reply : Statement → Type
  | .enqueueCommand .. => Text
  | .enqueueStubTable _ => Text
  | .drainCommands => List PendingCommand
  | .recordReport _ => Bool
  | .reportFor _ => Option AppCommandReport
  | .nonceSpent _ => Bool
  | .claimNonce _ => Bool
  | .add _ => Unit
  | .addTransition _ => Unit
  | .refuseBearer => Bool
  | .clear => Unit

def Collector.enqueue (collector : Collector) (command : Text → PendingCommand) : Collector × Text :=
  let id := commandId (collector.issuedCount + 1)
  ({ collector with
      issuedCount := collector.issuedCount + 1
      commands := collector.commands ++ [command id]
      issued := insert id collector.issued }, id)

def exec : (s : Statement) → ℚ → Collector → Collector × Reply s
  | .enqueueCommand capability enabled, _, collector =>
    collector.enqueue fun id => .appCommand id capability enabled
  | .enqueueStubTable mocks, _, collector => collector.enqueue fun id => .appStubTableCommand id mocks
  | .drainCommands, _, collector => ({ collector with commands := [] }, collector.commands)
  | .recordReport report, _, collector =>
    if report.id ∉ collector.issued then (collector, false)
    else ({ collector with reports := set collector.reports report.id report }, true)
  | .reportFor id, _, collector => (collector, get collector.reports id)
  | .nonceSpent nonce, _, collector => (collector, decide (nonce ∈ collector.nonces))
  | .claimNonce nonce, _, collector =>
    if nonce ∈ collector.nonces then (collector, false)
    else ({ collector with nonces := insert nonce collector.nonces }, true)
  | .add exchange, now, collector => ({ collector with items := collector.items ++ [(exchange, now)] }, ())
  | .addTransition transition, now, collector =>
    ({ collector with transitions := collector.transitions ++ [(transition, now)] }, ())
  | .refuseBearer, _, collector =>
    ({ collector with refusedBearers := collector.refusedBearers + 1 },
      decide (collector.refusedBearers + 1 = 1))
  | .clear, _, collector =>
    ({ collector with items := [], transitions := [], commands := [], issued := ∅, reports := [] }, ())

/-! ## The signed scheme -/

def requestVersion : Text := "bajutsu-request-v1".toList

def answerVersion : Text := "bajutsu-answer-v1".toList

def scheme : Text := "Bajutsu-HMAC-SHA256".toList

inductive Loaded where
  | value (data : Val)
  | jsonDecodeError
  | raised

/-- What the collector calls: the hash functions, the JSON and URL readers, and the models' validation. -/
structure Library where
  hexdigest : Bytes → Text
  mac : Text → Text → Text
  loads : Bytes → Loaded
  dumps : List PendingCommand → Bytes
  urlsplitPath : Text → Option Text
  validateExchange : Val → Option Val
  validateTransition : Val → Option Val
  validateReport : Val → Option AppCommandReport

/-- The collector's token, and whether it is bound to the loopback alone. -/
structure Receiver where
  token : Text
  bearerAccepted : Bool

def partition (sep : Char) (text : Text) : Text × Bool × Text :=
  (text.takeWhile (· ≠ sep), text.contains sep, (text.dropWhile (· ≠ sep)).drop 1)

def parseParams (params : List (Text × Text)) : List Text → Option (List (Text × Text))
  | [] => some params
  | part :: parts =>
    let (key, sep, val) := partition '=' (strip part)
    if !sep || val = [] || (get params key).isSome then none else parseParams (params ++ [(key, val)]) parts

/-- The nonce and the signature of an `Authorization` value. -/
def parseAuthorization (value : Text) : Option (Text × Text) :=
  let (name, _, rest) := partition ' ' value
  if name ≠ scheme then none
  else
    (parseParams [] (rest.splitOn ',')).bind fun params =>
      match get params "nonce".toList, get params "signature".toList with
      | some nonce, some signature => if params.length = 2 then some (nonce, signature) else none
      | _, _ => none

def canonicalPath (target : Text) : Text :=
  let path := (target.takeWhile (· ≠ '?')).takeWhile (· ≠ '#')
  if path = [] then ['/'] else path

def lines (fields : List Text) : Text := ['\n'].intercalate fields

def signRequest (library : Library) (token command path nonce digest : Text) : Text :=
  library.mac token (lines [requestVersion, command, path, nonce, digest])

def signAnswer (library : Library) (token nonce : Text) (status : Nat) (body : Bytes) : Text :=
  library.mac token (lines [answerVersion, nonce, decimal status, library.hexdigest body])

/-! ## The handlers -/

/-- `authorization` is the header or the empty text, and `stream` is what the client sends after the headers. -/
structure Request where
  command : Text
  target : Text
  contentLength : Option Text
  authorization : Text
  stream : Bytes

structure Answer where
  status : Nat
  signature : Option Text
  body : Bytes
  deriving DecidableEq

inductive Result where
  | id (commandId : Text)
  | commands (commands : List PendingCommand)
  | bool (value : Bool)
  | report (report : Option AppCommandReport)
  | answered (answer : Answer)
  | done
  | raised

abbrev Program := Prog Statement Reply Result

def groups : Text → List Text := List.splitOn '_'

/-- `int(text)`; `none` is the `ValueError`. -/
def int (text : Text) : Option Int :=
  let body := strip text
  let digits := if body.head? = some '-' ∨ body.head? = some '+' then body.drop 1 else body
  if (groups digits).any fun group => group = [] || !group.all isDigit then none
  else (intOf (groups digits).flatten).map fun n => if body.head? = some '-' then -(n : Int) else n

def contentLength (request : Request) : Option Nat :=
  match int (if request.contentLength.getD [] = [] then ['0'] else request.contentLength.getD []) with
  | some length => if 0 ≤ length then some length.toNat else none
  | none => none

/-- `check_token`; `none` is the `TypeError` for a text that is not ASCII. -/
def checkToken (receiver : Receiver) (candidate : Text) : Option Bool :=
  if receiver.token = [] then some false
  else if candidate.all fun c => c.toNat < 128 then some (candidate = receiver.token)
  else none

inductive Authenticated where
  | refused (status : Nat)
  | proven (raw : Bytes) (nonce : Option Text)

def bearer : Text := "Bearer ".toList

section Handler

variable (library : Library) (receiver : Receiver) (request : Request)

def checkBearer (candidate : Text) (andThen : Bool → Program) : Program :=
  match checkToken receiver candidate with
  | none => .ret .raised
  | some valid =>
    if receiver.bearerAccepted then andThen valid
    else if valid then .stmt .refuseBearer fun _ => andThen false
    else andThen false

/-- The signature that the request's is compared with. -/
def expected (nonce : Text) (length : Nat) : Text :=
  signRequest library receiver.token request.command (canonicalPath request.target) nonce
    (library.hexdigest (request.stream.take length))

/-- `_authenticate`. -/
def authenticate (andThen : Authenticated → Program) : Program :=
  match contentLength request with
  | none => andThen (.refused 400)
  | some length =>
    if bearer.isPrefixOf request.authorization then
      checkBearer receiver (request.authorization.drop bearer.length) fun valid =>
        if valid then andThen (.proven (request.stream.take length) none) else andThen (.refused 401)
    else
      match parseAuthorization request.authorization with
      | none => andThen (.refused 401)
      | some (nonce, signature) =>
        .stmt (.nonceSpent nonce) fun spent : Bool =>
          if spent then andThen (.refused 409)
          else if receiver.token = [] ∨ expected library receiver request nonce length ≠ signature then
            andThen (.refused 401)
          else
            .stmt (.claimNonce nonce) fun claimed : Bool =>
              if claimed then andThen (.proven (request.stream.take length) (some nonce))
              else andThen (.refused 409)

/-- `_answer`, signed against the nonce of a signed request. -/
def answer (nonce : Option Text) (status : Nat) (body : Bytes) : Program :=
  .ret (.answered ⟨status, nonce.map fun nonce => signAnswer library receiver.token nonce status body, body⟩)

/-- `_refuse`. -/
def refuse (status : Nat) : Program := .ret (.answered ⟨status, none, []⟩)

def transitionsPath : Text := "/transitions".toList

def commandsPath : Text := "/commands".toList

def acknowledgePath : Text := "/commands/ack".toList

def pingPath : Text := "/ping".toList

/-- `_route`; `none` is the `ValueError` of `urlsplit`. -/
def route : Option Text :=
  (library.urlsplitPath request.target).map fun path => path.rdropWhile fun c => c = '/'

/-- `add` and `add_transition` on each record of a batch that is an object. -/
def addEach (transition : Bool) (andThen : Program) : List Val → Program
  | [] => andThen
  | .dict kvs :: items =>
    match (if transition then library.validateTransition else library.validateExchange) (.dict kvs) with
    | none => addEach transition andThen items
    | some valid => .stmt (if transition then .addTransition valid else .add valid) fun _ => addEach transition andThen items
  | _ :: items => addEach transition andThen items

/-- `record_report` with its validation. -/
def recordReport (data : Val) (andThen : Bool → Program) : Program :=
  match library.validateReport data with
  | none => andThen false
  | some report => .stmt (.recordReport report) fun recorded : Bool => andThen recorded

def acknowledge (nonce : Option Text) : Val → Program
  | .dict kvs =>
    recordReport library (.dict kvs) fun recorded => answer library receiver nonce (if recorded then 204 else 400) []
  | _ => answer library receiver nonce 400 []

def doPost : Program :=
  authenticate library receiver request fun
    | .refused status => refuse status
    | .proven raw nonce =>
      match library.loads (if raw = [] then [123, 125] else raw) with
      | .raised => .ret .raised
      | .jsonDecodeError => answer library receiver nonce 400 []
      | .value data =>
        match route library request with
        | none => .ret .raised
        | some path =>
          if path = acknowledgePath then acknowledge library receiver nonce data
          else if path = pingPath then answer library receiver nonce 405 []
          else if path = commandsPath ∨ (commandsPath ++ ['/']) <+: path then
            answer library receiver nonce (if path = commandsPath then 405 else 404) []
          else
            addEach library (path = transitionsPath) (answer library receiver nonce 204 [])
              (match data with
              | .list items => items
              | item => [item])

def doGet : Program :=
  authenticate library receiver request fun
    | .refused status => refuse status
    | .proven _ nonce =>
      match route library request with
      | none => .ret .raised
      | some path =>
        if path = commandsPath then
          .stmt .drainCommands fun commands => answer library receiver nonce 200 (library.dumps commands)
        else if path = pingPath then answer library receiver nonce 204 []
        else answer library receiver nonce 404 []

/-- The handler of a request; a method without one is answered 501. -/
def handle : Program :=
  if request.command = "POST".toList then doPost library receiver request
  else if request.command = "GET".toList then doGet library receiver request
  else refuse 501

end Handler

/-! ## The calls -/

inductive Call where
  | enqueueCommand (capability : ToggleCapability) (enabled : Bool)
  | enqueueStubTable (mocks : List Val)
  | drainCommands
  | recordReport (data : Val)
  | reportFor (commandId : Text)
  | nonceSpent (nonce : Text)
  | claimNonce (nonce : Text)
  | add (data : Val)
  | addTransition (data : Val)
  | clear
  | request (request : Request)

def start (library : Library) (receiver : Receiver) : Call → Program
  | .enqueueCommand capability enabled => .stmt (.enqueueCommand capability enabled) fun id => .ret (.id id)
  | .enqueueStubTable mocks => .stmt (.enqueueStubTable mocks) fun id => .ret (.id id)
  | .drainCommands => .stmt .drainCommands fun commands => .ret (.commands commands)
  | .recordReport data => recordReport library data fun recorded => .ret (.bool recorded)
  | .reportFor id => .stmt (.reportFor id) fun report => .ret (.report report)
  | .nonceSpent nonce => .stmt (.nonceSpent nonce) fun spent => .ret (.bool spent)
  | .claimNonce nonce => .stmt (.claimNonce nonce) fun claimed => .ret (.bool claimed)
  | .add data => addEach library false (.ret .done) [data]
  | .addTransition data => addEach library true (.ret .done) [data]
  | .clear => .stmt .clear fun _ => .ret .done
  | .request request => handle library receiver request

/-- Any number of calls and requests at once. -/
def channel (library : Library) (receiver : Receiver) : Machine Collector Statement Reply ℚ Call Program :=
  .ofProg exec (start library receiver)

abbrev System := Config Collector Statement Reply ℚ Call Program

def Reachable (library : Library) (receiver : Receiver) (st : System) : Prop :=
  (channel library receiver).Reaches (.init .init) st

end Bajutsu.Evidence.Network
