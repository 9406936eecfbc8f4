import Cloudkeeper.Query.Model

namespace QueryParser

open QueryModel

open Parser

-- [A-Za-z0-9.*\[\]]
def isVariableChar (c : Nat) : Bool :=
  isAsciiAlnum c || c == 46 || c == 42 || c == 91 || c == 93

-- [^"\\]
def isStringChar (c : Nat) : Bool :=
  c != 34 && c != 92

-- [0-9a-fA-F]
def isHexDigit (c : Nat) : Bool :=
  (48 ≤ c && c ≤ 57) || (65 ≤ c && c ≤ 70) || (97 ≤ c && c ≤ 102)

-- `int(s, 16)` on a string of hex digits.
def hexValue (s : PyStr) : Nat :=
  s.foldl (fun n c => 16 * n + if c ≤ 57 then c - 48 else if c ≤ 70 then c - 55 else c - 87) 0

def whitespace : Parser PyStr :=
  regexStar isspace

def lexeme (p : Parser α) : Parser α :=
  whitespace *> p <* whitespace

def operations : List PyStr :=
  ["<=", ">=", ">", "<", "==", "!=", "=~", "!~", "in", "not in"]

def operationP : Parser PyStr :=
  choice <| operations.map fun a => lexeme (string a)

def functions : List PyStr :=
  ["in_subnet", "has_desired_change"]

def functionP : Parser PyStr :=
  choice <| functions.map fun a => lexeme (string a)

def preamblePropP : Parser PyStr :=
  choice <| ["edge_type"].map fun a => lexeme (string a)

def lparenP : Parser PyStr := lexeme (string "(")
def rparenP : Parser PyStr := lexeme (string ")")
def lbrackP : Parser PyStr := lexeme (string "[")
def rbrackP : Parser PyStr := lexeme (string "]")
def colonP : Parser PyStr := lexeme (string ":")
def commaP : Parser PyStr := lexeme (string ",")
def dotdotP : Parser PyStr := lexeme (string "..")
def equalsP : Parser PyStr := lexeme (string "=")
def trueP : Parser Value := (lexeme (string "true")).result (.bool true)
def falseP : Parser Value := (lexeme (string "false")).result (.bool false)
def nullP : Parser Value := (lexeme (string "null")).result .null

section Numbers

variable [Unicode]

def digit : Parser PyStr :=
  testChar Unicode.isdigit

def decimalValue (s : PyStr) : Option Nat :=
  s.foldlM (fun n c => (10 * n + ·) <$> Unicode.decimal c) 0

-- CPython's default `sys.get_int_max_str_digits()`: `int()` refuses a longer decimal string.
def intMaxStrDigits : Nat :=
  4300

-- `int(s)` on a string of `isdigit` characters.
def int (s : PyStr) : Except PyException Nat :=
  match decimalValue s with
  | some n => if s.length ≤ intMaxStrDigits then .ok n else .error (.valueError s)
  | none => .error (.valueError s)

-- `float(s)` on a string `digits.digits`; `float(".")` raises.
def float (s : PyStr) : Except PyException Value :=
  let whole := s.takeWhile (· != 46)
  let frac := (s.dropWhile (· != 46)).drop 1
  match whole ++ frac, decimalValue (whole ++ frac) with
  | [], _ => .error (.valueError s)
  | _ :: _, some m => .ok (.float m frac.length)
  | _ :: _, none => .error (.valueError s)

def integerP : Parser Nat :=
  (digit.atLeast 1).concat.mapRaising int

def floatP : Parser Value :=
  ((digit.many.plus ((string ".").result [↑"."])).plus digit.many).concat.mapRaising float

end Numbers

def variableP : Parser PyStr :=
  lexeme (regex isAsciiLetter isVariableChar)

def literalP : Parser PyStr :=
  lexeme (regex isAsciiLetter isAsciiAlnum)

def stringPart : Parser PyStr :=
  regex isStringChar isStringChar

def stringEsc : Parser PyStr :=
  string "\\" *>
    (string "\\" <|> string "/" <|> string "\"" <|> (string "b").result [8] <|>
      (string "f").result [12] <|> (string "n").result [10] <|> (string "r").result [13] <|>
      (string "t").result [9] <|>
      (fun s => [hexValue (s.drop 1)]) <$>
        regexFixed [(· == 117), isHexDigit, isHexDigit, isHexDigit, isHexDigit])

def stringP : Parser PyStr :=
  (stringPart <|> stringEsc).many.concat

def quotedStringP : Parser PyStr :=
  lexeme (string "\"" *> stringP <* string "\"")

section Terms

variable [Unicode]

-- `array_parser`, with the `valueP` it recurses into as a parameter.
def arrayParserWith (valueP : Parser Value) : Parser Value := do
  let _ ← lbrackP
  let elements ← valueP.sepBy commaP
  let _ ← rbrackP
  pure (.array elements)

def valueWith (arrayParser : Parser Value) : Parser Value :=
  (.str <$> quotedStringP) <|> floatP <|> (.int <$> integerP) <|> arrayParser <|> trueP <|>
    falseP <|> nullP

-- `valueP` with its nesting of arrays bounded by the fuel.
def valueFuel : Nat → Parser Value
  | 0 => valueWith (arrayParserWith diverge)
  | n + 1 => valueWith (arrayParserWith (valueFuel n))

def valueP : Parser Value :=
  withFuel valueFuel

def arrayParser : Parser Value :=
  arrayParserWith valueP

def predicateTerm : Parser Term := do
  let name ← variableP
  let op ← operationP
  let value ← valueP
  pure (.predicate name op value)

def functionTerm : Parser Term := do
  let fn ← functionP
  let _ ← lparenP
  let name ← variableP
  let args ← (commaP *> valueP).many
  let _ ← rparenP
  pure (.function fn name args)

def isinstanceTerm : Parser Term :=
  .isInstance <$> lexeme (string "isinstance" *> lparenP *> quotedStringP <* rparenP)

def idTerm : Parser Term :=
  .id <$> lexeme (string "id" *> lparenP *> quotedStringP <* rparenP)

def leafTermP : Parser Term :=
  isinstanceTerm <|> idTerm <|> predicateTerm <|> functionTerm

def boolOpP : Parser PyStr :=
  lexeme (string "and" <|> string "or")

-- The `while True` loop of `combined_term`.
def combinedLoop (simpleTermP : Parser Term) : Nat → Term → Parser Term
  | 0, _ => diverge
  | n + 1, result => do
    match ← (some <$> boolOpP) <|> success none with
    | none => pure result
    | some op =>
      let right ← simpleTermP
      combinedLoop simpleTermP n (.combined result op right)

def combinedTermWith (simpleTermP : Parser Term) : Parser Term := do
  let left ← simpleTermP
  withFuel fun n => combinedLoop simpleTermP n left

def simpleTermWith (combinedTerm : Parser Term) : Parser Term :=
  (lparenP *> combinedTerm <* rparenP) <|> leafTermP

-- `combined_term` with its nesting of parentheses bounded by the fuel.
def combinedFuel : Nat → Parser Term
  | 0 => combinedTermWith (simpleTermWith diverge)
  | n + 1 => combinedTermWith (simpleTermWith (combinedFuel n))

def combinedTerm : Parser Term :=
  withFuel combinedFuel

def simpleTermP : Parser Term :=
  simpleTermWith combinedTerm

def termParser : Parser Term :=
  combinedTerm <|> simpleTermP

end Terms

section Parts

variable [Unicode]

def rangeParser : Parser (Nat × ℕ∞) := do
  let _ ← lbrackP
  let start ← integerP
  let hasEnd ← (colonP <|> commaP <|> dotdotP).optional
  let maybeEnd ← integerP.optional
  let _ ← rbrackP
  pure (start, if hasEnd.isNone then ↑start else maybeEnd.elim Navigation.Max (↑))

def edgeDefinition : Parser (Nat × ℕ∞ × Option PyStr) := do
  let maybeEdgeType ← literalP.optional
  let maybeRange ← rangeParser.optional
  let parsedRange := maybeRange.getD (1, 1)
  pure (parsedRange.1, parsedRange.2, maybeEdgeType)

-- `outP`, `inP` and `inOutP` alike: an edge definition between an arrow's two ends.
def arrowP (opening closing : PyStr) (direction : Direction) : Parser Navigation :=
  (fun nav => ⟨nav.1, nav.2.1, nav.2.2, direction⟩) <$>
    lexeme (string opening *> edgeDefinition <* string closing)

def outP : Parser Navigation :=
  arrowP "-" "->" .outbound

def inP : Parser Navigation :=
  arrowP "<-" "-" .inbound

def inOutP : Parser Navigation :=
  arrowP "-" "-" .inout

def navigationParser : Parser Navigation :=
  outP <|> inP <|> inOutP

def pinParser : Parser Bool :=
  Option.isSome <$> (lexeme (string "+")).optional

def partParser : Parser QueryModel.Part := do
  let term ← termParser
  let _ ← whitespace
  let nav ← (some <$> navigationParser) <|> success none
  let pinned ← pinParser
  pure ⟨term, pinned, nav⟩

def preambleValueParser : Parser (PyStr × PyStr) := do
  let key ← preamblePropP
  let _ ← equalsP
  let value ← quotedStringP <|> literalP
  pure (key, value)

-- `.map(dict)` is kept as the list of bindings; `dictGet` reads it as the dict does.
def preambleP : Parser (List (PyStr × PyStr)) :=
  preambleValueParser.sepBy commaP <* colonP

def dictGet (d : List (PyStr × PyStr)) (key : PyStr) : Option PyStr :=
  d.reverse.lookup key

-- `if part.navigation and not part.navigation.edge_type: part.navigation.edge_type = edge_type`
def backfill (edgeType : PyStr) (part : QueryModel.Part) : QueryModel.Part :=
  match part.navigation with
  | some nav =>
    if (nav.edgeType.getD []).isEmpty then
      { part with navigation := some { nav with edgeType := some edgeType } }
    else part
  | none => part

def queryParser (E : EdgeType) : Parser Query := do
  let maybePreamble ← preambleP.optional
  let preamble := maybePreamble.getD []
  let parts ← partParser.many
  let edgeType := (dictGet preamble "edge_type").getD E.default
  if edgeType ∉ E.allowedEdgeTypes then
    raise (.attributeError edgeType E.allowedEdgeTypes)
  pure ⟨(parts.map (backfill edgeType)).reverse⟩

-- `query_parser.parse(query)`: a `.failure` is the `ParseError` it raises.
def parseQuery (E : EdgeType) (query : PyStr) : Outcome Query :=
  (queryParser E <* eof) query

end Parts

end QueryParser
