import Brainfuck.Emit
import Brainfuck.Http.Field
import Brainfuck.Interpreter
import Brainfuck.Json.Read
import Brainfuck.Json.Write
import Brainfuck.Program.Dump
import Brainfuck.Program.Measure
import Brainfuck.Program.Text

/-! The endpoints that show a program, run it and generate its C text. -/
namespace Brainfuck.Http

structure Request where
  method : String
  path : String
  body : String

structure Response where
  status : Nat
  body : Json

/-- What keeps a request from being answered at all. -/
inductive Escape
  | run (error : RunError)
  | unwritable (error : Json.WriteError)
  deriving DecidableEq

def Escape.message : Escape → String
  | .run e => e.message
  | .unwritable e => e.message

structure ParseRequest where
  code : String
  optimize : Bool

structure RunRequest where
  code : String
  input : String
  memorySize : Int
  maxSteps : Int

structure GenerateRequest where
  code : String
  memorySize : Int

def defaultMaxSteps : Int := 1000000

def detail (status : Nat) (j : Json) : Response := ⟨status, .ofFields [("detail", j)]⟩

/-- The answer to a request that is understood but cannot be met. -/
def refusal (status : Nat) (message : String) : Response := detail status (.ofString message)

namespace ParseRequest

def check (fields : List (List CodePoint × Json)) : Checked ParseRequest :=
  ((required fields "code" text).both (optional fields "optimize" true bool)).map
    fun (code, optimize) => ⟨code, optimize⟩

/-- Shows the program, unless its loops nest too deep. There is memory for its text, since there is for the
code it comes from. -/
def answer (r : ParseRequest) : Response :=
  match Program.parse r.code with
  | .error e => refusal 422 e.message
  | .ok parsed =>
    let p := if r.optimize then parsed.optimize else parsed
    if maxDumpDepth < p.depth then
      refusal 422
        ("Loops nest " ++ toString p.depth ++ " levels deep; at most " ++ toString maxDumpDepth ++
          " can be returned as JSON")
    else
      ⟨200, .ofFields
        [("instructions", .list (p.dump?.getD [])),
          ("source", .ofString ((p.text .ample).toOption.getD "")),
          ("instruction_count", .integer p.size)]⟩

end ParseRequest

namespace RunRequest

def check (fields : List (List CodePoint × Json)) : Checked RunRequest :=
  ((required fields "code" text).both
    ((optional fields "input" "" text).both
      ((optional fields "memory_size" Tape.defaultSize positive).both
        (optional fields "max_steps" defaultMaxSteps positive)))).map
    fun (code, input, memorySize, maxSteps) => ⟨code, input, memorySize, maxSteps⟩

/-- One byte for each character; there are none for characters past U+00FF. -/
def inputBytes? (s : String) : Option (List UInt8) :=
  if s.toList.all (·.toNat < 256) then some (s.toList.map fun c => .ofNat c.toNat) else none

def ofBytes (bytes : List UInt8) : String := .ofList (bytes.map fun b => .ofNat b.toNat)

def result (r : Run) : Response :=
  let bytes := r.streams.written.toList
  ⟨200, .ofFields
    [("output", .ofString (ofBytes bytes)),
      ("output_bytes", .list (bytes.map fun b => .integer b.toNat)),
      ("tape_length", .integer r.interpreter.tape.length),
      ("cursor", .integer r.interpreter.tape.cursor)]⟩

/-- Runs the program. Every round but the last counts a step, so the budget bounds the rounds. -/
def answer (r : RunRequest) (room : Nat) : Except Escape Response :=
  match Program.parse r.code with
  | .error e => .ok (refusal 422 e.message)
  | .ok parsed =>
    match inputBytes? r.input with
    | none => .ok (refusal 422 "input must only contain characters in the range U+0000-U+00FF")
    | some bytes =>
      match Interpreter.create room r.memorySize (some r.maxSteps) with
      | .error e => .error (.run (.size e))
      | .ok i =>
        let done := i.run (r.maxSteps.toNat + 1) parsed.optimize (.ofBytes bytes)
        match done.ending with
        | .finished => .ok (result done)
        | .failed e =>
          if e.isFailure then .ok (refusal 409 e.message) else .error (.run e)
        | .unfinished => .ok (refusal 409 RunError.stepLimit.message)

end RunRequest

namespace GenerateRequest

def check (fields : List (List CodePoint × Json)) : Checked GenerateRequest :=
  ((required fields "code" text).both
    (optional fields "memory_size" Tape.defaultSize positive)).map
    fun (code, memorySize) => ⟨code, memorySize⟩

def answer (r : GenerateRequest) : Response :=
  match Program.parse r.code with
  | .error e => refusal 422 e.message
  | .ok parsed =>
    let source := (Emit.source r.memorySize parsed.optimize).toOption.getD ""
    ⟨200, .ofFields [("language", .ofString "c"), ("source", .ofString source)]⟩

end GenerateRequest

inductive Endpoint
  | parse
  | run
  | generate
  deriving DecidableEq

namespace Endpoint

/-- The answer to checked fields, or the complaints about them. -/
def answer (e : Endpoint) (room : Nat) (fields : List (List CodePoint × Json)) :
    Checked (Except Escape Response) :=
  match e with
  | parse => (ParseRequest.check fields).map fun r => .ok r.answer
  | run => (RunRequest.check fields).map fun r => r.answer room
  | generate => (GenerateRequest.check fields).map fun r => .ok r.answer

end Endpoint

/-- Complaints show the values they are about, and these need not be writable. -/
def refuse (complaints : List Complaint) : Except Escape Response :=
  let r := detail 422 (.list (complaints.map (·.json)))
  match r.body.writeError? with
  | none => .ok r
  | some e => .error (.unwritable e)

def answerBody (e : Endpoint) (room : Nat) (body : String) : Except Escape Response :=
  if body = "" then refuse [complaint .missing [] .null]
  else
    match Json.read body with
    | .error .unreadable => .ok (refusal 400 "There was an error parsing the body")
    | .error (.malformed n) => refuse [complaint .malformed [.integer n] (.object [])]
    | .ok (.object fields) =>
      match e.answer room fields with
      | .ok answer => answer
      | .error complaints => refuse complaints
    | .ok j => refuse [complaint .notObject [] j]

/-- What a path leads to: an endpoint, or a page about the endpoints. -/
inductive Route
  | endpoint (endpoint : Endpoint)
  | page
  deriving DecidableEq

/-- One line feed at the end of a path does not count. -/
def Route.ofPath? (path : String) : Option Route :=
  let cs := path.toList
  let cs := if cs.getLast? = some '\n' then cs.dropLast else cs
  match String.ofList cs with
  | "/api/parse" => some (.endpoint .parse)
  | "/api/run" => some (.endpoint .run)
  | "/api/generate" => some (.endpoint .generate)
  | "/openapi.json" => some .page
  | "/docs" => some .page
  | "/docs/oauth2-redirect" => some .page
  | "/redoc" => some .page
  | _ => none

/-- Whether a path that leads nowhere would lead somewhere without the slashes at its end. -/
def isRedirected (path : String) : Bool :=
  let cs := path.toList.reverse.dropWhile (· == '/')
  path.toList.getLast? == some '/' && (Route.ofPath? (.ofList cs.reverse)).isSome

/-- Answers a request with memory for `room` cells. Nothing can be sent to a page. -/
def respond (room : Nat) (r : Request) : Except Escape Response :=
  match Route.ofPath? r.path with
  | some (.endpoint e) =>
    if r.method = "POST" then answerBody e room r.body
    else .ok (refusal 405 "Method Not Allowed")
  | some .page => .ok (refusal 405 "Method Not Allowed")
  | none =>
    if isRedirected r.path then .ok ⟨307, .null⟩ else .ok (refusal 404 "Not Found")

end Brainfuck.Http
