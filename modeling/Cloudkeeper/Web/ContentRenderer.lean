import Cloudkeeper.Parsy.Basic

/-- A JSON element as `to_json` gives it; a number is kept as the text Python prints for it. -/
inductive Json where
  | null
  | bool (b : Bool)
  | num (repr : PyStr)
  | str (s : PyStr)
  | arr (elements : List Json)
  | obj (fields : List (PyStr × Json))

namespace Json

-- `isinstance(js, (dict, list))`
def isStructured : Json → Bool
  | arr _ | obj _ => true
  | _ => false

-- `str(js)`; `respond_text` applies it to scalars only.
def pyStr : Json → PyStr
  | null => "None"
  | bool true => "True"
  | bool false => "False"
  | num repr => repr
  | str s => s
  | arr _ | obj _ => []

end Json

namespace ContentRenderer

-- The loop `respond_json`, `respond_yaml` and `respond_text` share: `sep item` goes before every
-- item but the first, then the item's text. The flag is set once an item has been written.
def separatedLoop (sep render : Json → PyStr) : Bool → List Json → List PyStr
  | _, [] => []
  | flag, item :: rest =>
    (if flag then [sep item] else []) ++ [render item] ++ separatedLoop sep render true rest

-- `first` is the negation of the flag.
def respondJson (dumps : Json → PyStr) (items : List Json) : List PyStr :=
  ("[\n" : PyStr) :: separatedLoop (fun _ => ",\n") dumps false items ++ [("\n]" : PyStr)]

def respondNdjson (dumps : Json → PyStr) (items : List Json) : List PyStr :=
  items.map fun item => dumps item ++ "\n"

def respondYaml (dump : Json → PyStr) (items : List Json) : List PyStr :=
  separatedLoop (fun _ => "---\n") dump false items

def queryTookTooLongText : PyStr :=
  "\n\n---------------------------------------------------\n" ++
  "Query took too long.\n" ++
  "Try one of the following:\n" ++
  "- refine your query\n" ++
  "- add a limit to your query\n" ++
  "- define a longer timeout via env var query_timeout\n" ++
  "  e.g. $> query_timeout=60s query all\n" ++
  "---------------------------------------------------\n\n"

-- `sep` before a structured item, `cr` before a scalar.
def textSep (js : Json) : PyStr :=
  if js.isStructured then "---\n" else "\n"

-- `dump` is `yaml.dump(to_result(js), ...)`.
def textRender (dump : Json → PyStr) (js : Json) : PyStr :=
  if js.isStructured then dump js else js.pyStr

-- The stream yields `items`, then ends or raises `QueryTookToLongError` (`tookTooLong`).
def respondText (dump : Json → PyStr) (items : List Json) (tookTooLong : Bool) : List PyStr :=
  separatedLoop textSep (textRender dump) false items ++
    if tookTooLong then [queryTookTooLongText] else []

/-- What `respond_dot` reads from a record: its `type`, and the strings at the `NodePath`s it looks
up, `none` where the path is missing. -/
inductive Record where
  | node (uid name kind account : Option PyStr)
  | edge (fromNode toNode : Option PyStr)
  | other

-- `re.sub("[^a-zA-Z0-9]", "", s)`
def sanitize (s : PyStr) : PyStr :=
  s.filter isAsciiAlnum

-- The value of a path when Python reads it as true: present and non-empty.
def truthy : Option PyStr → Option PyStr
  | some (c :: s) => some (c :: s)
  | _ => none

-- The `defaultdict`s of `respond_dot`, each kept as its bindings in insertion order, and the
-- count of colours handed out.
structure DotState where
  colors : List (PyStr × Nat)
  counter : Nat
  inAccount : List (PyStr × List PyStr)

namespace DotState

def init : DotState :=
  ⟨[], 0, []⟩

-- `colors[kind]`: a kind seen for the first time takes `(next(cit) % 12) + 1`.
def color (st : DotState) (kind : PyStr) : Nat × DotState :=
  match st.colors.lookup kind with
  | some c => (c, st)
  | none => (st.counter % 12 + 1,
      { st with colors := st.colors ++ [(kind, st.counter % 12 + 1)], counter := st.counter + 1 })

end DotState

-- `in_account[account].append(uid)`
def appendIn : List (PyStr × List PyStr) → PyStr → PyStr → List (PyStr × List PyStr)
  | [], account, uid => [(account, [uid])]
  | (a, uids) :: rest, account, uid =>
    if a = account then (a, uids ++ [uid]) :: rest else (a, uids) :: appendIn rest account uid

def nodeLine (uid name kind : PyStr) (paired12 : Nat) : PyStr :=
  " \"" ++ uid ++ "\" [label=\"" ++ name ++ "|" ++ kind ++ "\", style=filled fillcolor=" ++
    PyStr.ofString (toString paired12) ++ "];\n"

def edgeLine (fromNode toNode : PyStr) : PyStr :=
  " \"" ++ fromNode ++ "\" -> \"" ++ toNode ++ "\"\n"

def subgraphLines (account : PyStr) (uids : List PyStr) : List PyStr :=
  (" subgraph \"" ++ account ++ "\" \x7b\n") :: uids.map (fun uid => "    \"" ++ uid ++ "\"\n") ++
    [(" \x7d\n" : PyStr)]

-- One turn of the `async for` loop of `respond_dot`.
def dotStep (st : DotState) : Record → List PyStr × DotState
  | .node uid name kind account =>
    match truthy uid with
    | some uid =>
      let name := sanitize (name.getD "n/a")
      let kind := kind.getD "n/a"
      let account := account.getD "graph_root"
      let (paired12, st) := st.color kind
      ([nodeLine uid name kind paired12], { st with inAccount := appendIn st.inAccount account uid })
    | none => ([], st)
  | .edge fromNode toNode =>
    match truthy fromNode, truthy toNode with
    | some fromNode, some toNode => ([edgeLine fromNode toNode], st)
    | _, _ => ([], st)
  | .other => ([], st)

def dotLoop : DotState → List Record → List PyStr × DotState
  | st, [] => ([], st)
  | st, r :: rs =>
    let (out, st) := dotStep st r
    let (out', st) := dotLoop st rs
    (out ++ out', st)

def dotHeader : PyStr :=
  "digraph \x7b\nrankdir=LR\noverlap=false\nsplines=true\n" ++
    "node [shape=Mrecord colorscheme=paired12]\nedge [arrowsize=0.5]\n"

def respondDot (items : List Record) : List PyStr :=
  let (lines, st) := dotLoop DotState.init items
  dotHeader :: lines ++ (st.inAccount.map fun (account, uids) => subgraphLines account uids).flatten ++
    [("\x7d" : PyStr)]

-- The renderers `result_string_gen` chooses from.
inductive Renderer where
  | ndjson
  | json
  | text
  | yaml
  | cytoscape
  | graphml
  | dot
  deriving DecidableEq

-- `result_string_gen`: the content type and the renderer for the request's `accept` header.
def resultStringGen (accept : Option PyStr) : PyStr × Renderer :=
  let accept := accept.getD "application/json"
  if accept ∈ (["application/x-ndjson", "application/ndjson"] : List PyStr) then
    ("application/x-ndjson", .ndjson)
  else if accept = "application/json" then ("application/json", .json)
  else if accept ∈ (["text/plain"] : List PyStr) then ("text/plain", .text)
  else if accept ∈ (["application/yaml", "text/yaml"] : List PyStr) then ("text/yaml", .yaml)
  else if accept = "application/vnd.cytoscape+json" then ("application/vnd.cytoscape+json", .cytoscape)
  else if accept ∈ (["application/graphml+xml", "application/vnd.graphml+xml"] : List PyStr) then
    ("application/graphml+xml", .graphml)
  else if ("text/vnd.graphviz" : PyStr) <+: accept then ("text/yaml", .dot)
  else ("application/json", .json)

end ContentRenderer
