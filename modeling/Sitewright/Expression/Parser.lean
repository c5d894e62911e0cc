import Sitewright.Expression.Basic
import Sitewright.Expression.Token
import Sitewright.Naming
import Sitewright.Text.Escape

/-!
Reading expressions. From the loosest to the tightest: `||` and `&&` join to the left, at most one
`==` or `!=` stands between its operands, `!` may be repeated, and the tightest are names, literals and
parentheses. A mustache tag holds a single name.

Each level is a reader of a token list that hands on the tokens it leaves. The levels are written over
the reader for what stands between parentheses; `expression` ties the knot once for every token, which
is enough because every parenthesis takes one.
-/

namespace Sitewright.Expression

/-- Why a text is no expression. -/
inductive Fault where
  | missing
  | unexpected (text : Text)
  | unexpectedEnd
  | reservedGlobal (name : Text)
  | invalidGlobal (name : Text)
  | invalidProperty (name : Text)
  | unclosedParenthesis
  | escape (text : Text) (error : Text.Escape.Error)
  | notALookup
  deriving DecidableEq, Repr

def Fault.message : Fault → String
  | .missing => "expected an expression"
  | .unexpected text => s!"unexpected `{String.ofList text}`"
  | .unexpectedEnd => "unexpected end of expression"
  | .reservedGlobal name => s!"`{String.ofList name}` is a reserved keyword"
  | .invalidGlobal name => s!"`{String.ofList name}` is not a valid global name"
  | .invalidProperty name => s!"`{String.ofList name}` is not a valid property name"
  | .unclosedParenthesis => "expected `)`"
  | .escape text error => error.message text
  | .notALookup => "mustache tags only support a single `$global` or property lookup"

/-- A fault and the bytes of the expression it is about. -/
structure ParseError where
  fault : Fault
  span : ByteSpan
  deriving DecidableEq, Repr

/-- Reads from a token list and hands on the tokens it leaves. -/
abbrev Reader := List Token → Except ParseError (Expression × List Token)

def readGlobal (token : Token) : Except ParseError Expression :=
  if Naming.isGlobalName token.text then .ok (.global token.text)
  else if Naming.isReservedGlobal token.text then .error ⟨.reservedGlobal token.text, token.span⟩
  else .error ⟨.invalidGlobal token.text, token.span⟩

def readWord (token : Token) : Except ParseError Expression :=
  if token.text = "true".toList then .ok (.bool true)
  else if token.text = "false".toList then .ok (.bool false)
  else if Naming.isPropertyName token.text then .ok (.property token.text)
  else .error ⟨.invalidProperty token.text, token.span⟩

/-- A literal: the text between its quotes, decoded if it has a backslash. -/
def readQuoted (token : Token) : Except ParseError Expression :=
  let inner := token.text.tail.dropLast
  if inner.contains '\\' then
    match Text.Escape.decode inner with
    | .ok value => .ok (.literal value)
    | .error error => .error ⟨.escape inner error, token.span⟩
  else .ok (.literal inner)

/-- A name, a literal, or an expression between parentheses. `stop` is the end of the text. -/
def primary (inner : Reader) (stop : Nat) : Reader
  | [] => .error ⟨.unexpectedEnd, ⟨stop, stop⟩⟩
  | token :: rest =>
    match token.kind with
    | .global => (readGlobal token).map (·, rest)
    | .word => (readWord token).map (·, rest)
    | .quoted => (readQuoted token).map (·, rest)
    | .opening =>
      match inner rest with
      | .error error => .error error
      | .ok (_, []) => .error ⟨.unclosedParenthesis, ⟨stop, stop⟩⟩
      | .ok (expression, next :: rest) =>
        if next.kind = .closing then .ok (expression, rest)
        else .error ⟨.unclosedParenthesis, ⟨next.span.start, next.span.start⟩⟩
    | _ => .error ⟨.unexpected token.text, token.span⟩

/-- Any number of `!` before a primary expression. -/
def unary (inner : Reader) (stop : Nat) : Reader
  | [] => primary inner stop []
  | token :: rest =>
    if token.kind = .not then (unary inner stop rest).map fun (operand, rest) => (.not operand, rest)
    else primary inner stop (token :: rest)

/-- One operand, or two with `==` or `!=` between them. -/
def comparison (inner : Reader) (stop : Nat) : Reader := fun tokens => do
  let (left, rest) ← unary inner stop tokens
  match rest with
  | [] => .ok (left, [])
  | token :: rest =>
    if token.kind = .equal then
      (unary inner stop rest).map fun (right, rest) => (.equal left right, rest)
    else if token.kind = .notEqual then
      (unary inner stop rest).map fun (right, rest) => (.notEqual left right, rest)
    else .ok (left, token :: rest)

/-- Further operands after `left`, each after the operator `kind`, joined to the left. Every round
takes an operator. -/
def chain (kind : TokenKind) (node : Expression → Expression → Expression) (operand : Reader) :
    Nat → Expression → Reader
  | 0, left, tokens => .ok (left, tokens)
  | _ + 1, left, [] => .ok (left, [])
  | rounds + 1, left, token :: rest =>
    if token.kind = kind then
      match operand rest with
      | .error error => .error error
      | .ok (right, rest) => chain kind node operand rounds (node left right) rest
    else .ok (left, token :: rest)

/-- Comparisons joined by `&&`. -/
def conjunction (inner : Reader) (stop : Nat) : Reader := fun tokens => do
  let (left, rest) ← comparison inner stop tokens
  chain .and .and (comparison inner stop) rest.length left rest

/-- Conjunctions joined by `||`. -/
def disjunction (inner : Reader) (stop : Nat) : Reader := fun tokens => do
  let (left, rest) ← conjunction inner stop tokens
  chain .or .or (conjunction inner stop) rest.length left rest

/-- An expression with at most `depth` parentheses around its parts. -/
def expression (stop : Nat) : Nat → Reader
  | 0 => fun _ => .error ⟨.unexpectedEnd, ⟨stop, stop⟩⟩
  | depth + 1 => disjunction (expression stop depth) stop

def ofTokens (stop : Nat) (tokens : List Token) : Except ParseError Expression :=
  match tokens with
  | [] => .error ⟨.missing, ⟨0, stop⟩⟩
  | _ =>
    match expression stop (tokens.length + 1) tokens with
    | .error error => .error error
    | .ok (result, []) => .ok result
    | .ok (_, token :: _) => .error ⟨.unexpected token.text, token.span⟩

def parse (text : Text) : Except ParseError Expression :=
  ofTokens (Text.byteSize text) (tokens text)

def parseLookup (text : Text) : Except ParseError Expression :=
  match parse text with
  | .error error => .error error
  | .ok result =>
    if result.isLookup then .ok result else .error ⟨.notALookup, ⟨0, Text.byteSize text⟩⟩

end Sitewright.Expression
