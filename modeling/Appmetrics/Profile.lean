/-
nodeprofplugin.cpp and appmetrics-api.js: the call tree of a profile is
written out by `visit`, as lines or as JSON, and `formatProfiling` reads the
text back.
-/
import Appmetrics.Json
import Appmetrics.Text

namespace Appmetrics

open JsonText

/-- A node of the call tree that V8 returns. -/
structure CpuProfileNode where
  functionName : List Char
  scriptResourceName : List Char
  lineNumber : Int
  hitCount : Nat
  children : List CpuProfileNode

/-! ## The writer -/

/-- For a single character to replace. -/
def replaceInString (characterToReplace : Char) (replaceWith : List Char)
    (inputStr : List Char) : List Char :=
  inputStr.flatMap fun c => if c = characterToReplace then replaceWith else [c]

/-- The escapes of a script name in JSON mode. -/
def escapeScript (strScript : List Char) : List Char :=
  if strScript ≠ [] then
    replaceInString '"' ['\\', '"'] (replaceInString '\\' ['/'] strScript)
  else strScript

/-- The escapes of a function name in JSON mode. -/
def escapeFunction (strFunction : List Char) : List Char :=
  if strFunction ≠ [] then
    replaceInString '"' ['\\', '"']
      (replaceInString '\\' ['\\', '\\'] strFunction)
  else strFunction

/-- What a node adds to the result, with its names as C strings. -/
def nodeData (jsonEnabled : Bool) (script function : List Char) (line : Int)
    (selfSamples : Nat) (id parentId : Int) : List Char :=
  if jsonEnabled then
    "\x7b\"functionName\":\"".toList ++ escapeFunction function ++
      "\",\"url\":\"".toList ++ escapeScript script ++
      "\",\"lineNumber\":".toList ++ showInt line ++
      ",\"hitCount\":".toList ++ showDouble selfSamples ++
      ",\"id\":".toList ++ showInt id ++ ",\"children\":[".toList
  else
    "NodeProfData,Node,".toList ++ showInt id ++ ',' :: showInt parentId ++
      ',' :: script ++ ',' :: function ++ ',' :: showInt line ++
        ',' :: showDouble selfSamples ++ ['\n']

/-- `none` once a name has overrun its buffer. -/
def constructNodeData (jsonEnabled : Bool) (node : CpuProfileNode)
    (id parentId : Int) : Option (List Char) := do
  let function ← extractV8String node.functionName
  let script ← extractV8String node.scriptResourceName
  some (nodeData jsonEnabled script function node.lineNumber node.hitCount id
    parentId)

/-- `visit_callback`; what it returns is written to the result. -/
abbrev VisitCallback := CpuProfileNode → Int → Int → Option (List Char)

/-- A call of the callback. -/
structure VisitCall where
  node : CpuProfileNode
  id : Int
  parentId : Int

/-- The static `nextid` and the result of `visit`, with the calls of its
callback so far. -/
structure Visit where
  nextid : Int
  result : Option (List Char)
  calls : List VisitCall

/-- `nextid++` for a 32-bit `int`, as two's complement wraps it. -/
def increment (nextid : Int) : Int := (nextid + 1).bmod 0x100000000

namespace Visit

def write (s : Visit) (text : Option (List Char)) : Visit :=
  { s with result := s.result.bind fun result => text.map (result ++ ·) }

def call (s : Visit) (cb : VisitCallback) (node : CpuProfileNode)
    (parentId : Int) : Visit :=
  let id := s.nextid
  let s : Visit :=
    { s with
      nextid := increment s.nextid
      calls := s.calls ++ [⟨node, id, parentId⟩] }
  s.write (cb node id parentId)

end Visit

mutual

def visit (jsonEnabled : Bool) (cb : VisitCallback) (parentId : Int) :
    CpuProfileNode → Visit → Visit
  | ⟨functionName, scriptResourceName, lineNumber, hitCount, children⟩, s =>
      let id := s.nextid
      let current : CpuProfileNode :=
        ⟨functionName, scriptResourceName, lineNumber, hitCount, children⟩
      let s := visitChildren jsonEnabled cb id children
        (s.call cb current parentId)
      if jsonEnabled then s.write (some [']', '\x7d']) else s

/-- The loop over the children, with a comma after all but the last. -/
def visitChildren (jsonEnabled : Bool) (cb : VisitCallback) (id : Int) :
    List CpuProfileNode → Visit → Visit
  | [], s => s
  | child :: rest, s =>
      let s := visit jsonEnabled cb id child s
      visitChildren jsonEnabled cb id rest
        (if rest ≠ [] ∧ jsonEnabled then s.write (some [',']) else s)

end

/-- `ConstructData` at `time`, with the value of `nextid` before the profile;
`NewCString` copies the result up to a NUL. -/
def constructData (jsonEnabled : Bool) (time : Nat) (topRoot : CpuProfileNode)
    (nextid : Int) : Option (List Char) :=
  let start :=
    if jsonEnabled then
      "\x7b\"date\":".toList ++ showNat time ++ ",\"head\":".toList
    else "NodeProfData,Start,".toList ++ showNat time ++ ['\n']
  let s := visit jsonEnabled (constructNodeData jsonEnabled) 0 topRoot
    ⟨nextid, some start, []⟩
  let s := s.write
    (some (if jsonEnabled then ['\x7d'] else "NodeProfData,End\n".toList))
  s.result.map cText

/-! ## The reader -/

/-- An entry of the `functions` array; `none` is `undefined` or `NaN`. -/
structure FunctionEntry where
  self : Option Int
  parent : Option Int
  file : Option (List Char)
  name : Option (List Char)
  line : Option Int
  count : Option Int
deriving Repr, DecidableEq

/-- The object that the lines of a message are collected in; `time` stays
`undefined` without a start line. -/
structure Prof where
  date : Int
  functions : List FunctionEntry
  time : Option (Option Int)
deriving Repr, DecidableEq

/-- What a `profiling` event carries. -/
inductive ProfilingEvent
  | lines (prof : Prof)
  | json (prof : Json)

/-- A line of a message adds an entry or sets the time. -/
def formatLine (prof : Prof) (line : List Char) : Prof :=
  let values := line.splitOn ','
  if values[1]? = some "Node".toList then
    { prof with
      functions := prof.functions ++
        [{ self := values[2]?.bind parseInt
           parent := values[3]?.bind parseInt
           file := values[4]?
           name := values[5]?
           line := values[6]?.bind parseInt
           count := values[7]?.bind parseInt }] }
  else if values[1]? = some "Start".toList then
    { prof with time := some (values[2]?.bind parseInt) }
  else prof

/-- `formatProfiling` with the event it emits; `none` when `JSON.parse`
throws. -/
def formatProfiling (jsonProfilingMode : Bool) (message : List Char) :
    Option ProfilingEvent :=
  if jsonProfilingMode then (parse message).map .json
  else
    let lines := (jsTrim message).splitOn '\n'
    some (.lines (lines.foldl formatLine ⟨0, [], none⟩))

end Appmetrics
