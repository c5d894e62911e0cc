import Sitewright.Text.Digit

/-!
Decoding of text that holds quoted stretches of its own. Outside of them everything stands for itself;
the quotes that open and close a stretch are dropped. Inside `'…'` everything stands for itself. Inside
`"…"` a backslash begins an escape. A stretch that is never closed ends with the text.
-/

namespace Sitewright.Text.Escape

/-- Why the hexadecimal digits of an escape are no number below 2^32. -/
inductive HexError where
  | invalidDigit
  | empty
  | tooLarge
  deriving DecidableEq, Repr

/-- Why a `\u` escape is no character. -/
inductive CodePointError where
  /-- No brace follows. -/
  | noBrace
  /-- The digits between the braces are no number. -/
  | digits (text : Text) (cause : HexError)
  /-- The number is no code point of a character. -/
  | noCharacter (code : Nat)
  deriving DecidableEq, Repr

/-- Why a text cannot be decoded. `index` counts characters. -/
inductive Error where
  | unknownEscape (escape : Text) (index : Nat)
  | codePoint (index : Nat) (cause : CodePointError)
  deriving DecidableEq, Repr

def HexError.message : HexError → String
  | .invalidDigit => "invalid digit found in string"
  | .empty => "cannot parse integer from empty string"
  | .tooLarge => "number too large to fit in target type"

def CodePointError.message : CodePointError → String
  | .noBrace => "expected '\x7b' character in unicode escape"
  | .digits text cause =>
    s!"could not parse {String.ofList text} as u32 hex: " ++ cause.message
  | .noCharacter code => s!"could not parse {code} as a unicode char"

def Error.message (text : Text) : Error → String
  | .unknownEscape escape index =>
    s!"invalid escape {String.ofList escape} at {index} in {String.ofList text}"
  | .codePoint index cause =>
    s!"\\u could not be parsed at {index} in {String.ofList text}: " ++ cause.message

/-- Reads further hexadecimal digits after those that made `value`. -/
def hexDigits (value : Nat) : Text → Except HexError Nat
  | [] => .ok value
  | c :: rest =>
    match hexDigit? c with
    | none => .error .invalidDigit
    | some digit =>
      if value * 16 + digit < 0x100000000 then hexDigits (value * 16 + digit) rest else .error .tooLarge

/-- A hexadecimal number below 2^32, which may begin with `+`. -/
def hexNumber : Text → Except HexError Nat
  | [] => .error .empty
  | ['+'] => .error .invalidDigit
  | '+' :: rest => hexDigits 0 rest
  | digits => hexDigits 0 digits

def codePoint (digits : Text) : Except CodePointError Char :=
  match hexNumber digits with
  | .error cause => .error (.digits digits cause)
  | .ok code => if h : code.isValidChar then .ok (Char.ofNatAux code h) else .error (.noCharacter code)

def simple? (c : Char) : Option Char :=
  match c with
  | 'a' => some '\x07'
  | 'b' => some '\x08'
  | 'v' => some '\x0b'
  | 'f' => some '\x0c'
  | 'n' => some '\n'
  | 'r' => some '\r'
  | 't' => some '\t'
  | 'e' => some '\x1b'
  | 'E' => some '\x1b'
  | '\\' | '\'' | '"' | '$' | '\x60' | ' ' => some c
  | _ => none

/-- Where the decoder stands. -/
inductive State where
  /-- Outside of quotes. -/
  | outside
  /-- Between single quotes. -/
  | single
  /-- Between double quotes. -/
  | double
  /-- After a backslash between double quotes. -/
  | escape
  /-- After `\u`; `index` is the index of the `u`. -/
  | brace (index : Nat)
  /-- Between the braces of `\u`, after some digits, the last one first. -/
  | digits (index : Nat) (read : Text)
  deriving DecidableEq, Repr

/-- Decodes from a given state; `index` is the index of the next character. -/
def decodeFrom : State → Nat → Text → Except Error Text
  | .escape, index, [] => .error (.unknownEscape ['\\'] (index - 1))
  | .brace start, _, [] => .error (.codePoint start .noBrace)
  | .digits start read, _, [] =>
    match codePoint read.reverse with
    | .error cause => .error (.codePoint start cause)
    | .ok c => .ok [c]
  | _, _, [] => .ok []
  | .outside, index, c :: rest =>
    if c = '\'' then decodeFrom .single (index + 1) rest
    else if c = '"' then decodeFrom .double (index + 1) rest
    else (decodeFrom .outside (index + 1) rest).map (c :: ·)
  | .single, index, c :: rest =>
    if c = '\'' then decodeFrom .outside (index + 1) rest
    else (decodeFrom .single (index + 1) rest).map (c :: ·)
  | .double, index, c :: rest =>
    if c = '"' then decodeFrom .outside (index + 1) rest
    else if c = '\\' then decodeFrom .escape (index + 1) rest
    else (decodeFrom .double (index + 1) rest).map (c :: ·)
  | .escape, index, c :: rest =>
    if c = 'u' then decodeFrom (.brace index) (index + 1) rest
    else match simple? c with
      | some d => (decodeFrom .double (index + 1) rest).map (d :: ·)
      | none => .error (.unknownEscape ['\\', c] index)
  | .brace start, index, c :: rest =>
    if c = '\x7b' then decodeFrom (.digits start []) (index + 1) rest
    else .error (.codePoint start .noBrace)
  | .digits start read, index, c :: rest =>
    if c = '\x7d' then
      match codePoint read.reverse with
      | .error cause => .error (.codePoint start cause)
      | .ok d => (decodeFrom .double (index + 1) rest).map (d :: ·)
    else decodeFrom (.digits start (c :: read)) (index + 1) rest

def decode (text : Text) : Except Error Text :=
  decodeFrom .outside 0 text

end Sitewright.Text.Escape
