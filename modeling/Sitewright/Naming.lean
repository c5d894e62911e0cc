import Sitewright.Text.Blank

/-!
The grammars of names. Every name that the style sheet compiler, the templates or the project accept
passes one of these tests. All of them go by ASCII letters and digits; only "blank" is the Unicode
property.
-/

namespace Sitewright.Naming

/-! ## Slugs and paths -/

/-- The small letters and digits that slugs are made of. -/
def isSlugLetter (c : Char) : Bool :=
  c.isLower || c.isDigit

/-- Small letters and digits joined by single hyphens. The first character is a letter, or a digit
where `digitFirst` allows it. -/
def isSlugWith (digitFirst : Bool) (value : Text) : Bool :=
  match value with
  | [] => false
  | first :: _ =>
    (first.isLower || (digitFirst && first.isDigit))
      && !Text.endsWith '-' value
      && !Text.holds ['-', '-'] value
      && value.all fun c => isSlugLetter c || c == '-'

/-- A slug that begins with a letter, such as `foo-bar`. -/
def isSafeSlug (value : Text) : Bool :=
  isSlugWith false value

/-- Slugs with `/` between them, which may begin with digits, such as `layout/2col`. -/
def isComponentName (value : Text) : Bool :=
  value != [] && (Text.split '/' value).all (isSlugWith true)

/-- `/` alone, or safe slugs each after a `/`. -/
def isPagePath (value : Text) : Bool :=
  value == ['/'] ||
    match value with
    | '/' :: rest => (Text.split '/' rest).all isSafeSlug
    | _ => false

/-- A path below `/assets/` without empty segments and without blanks. -/
def isAssetPath (value : Text) : Bool :=
  match Text.after? "/assets/".toList value with
  | none => false
  | some rest => rest != [] && (Text.split '/' rest).all fun part => part != [] && !part.any isBlank

/-! ## Attributes and client directives -/

/-- An attribute name without one leading `:`, `@` or `x-`. -/
def attributeBody (value : Text) : Text :=
  match value with
  | ':' :: body => body
  | '@' :: body => body
  | 'x' :: '-' :: body => body
  | _ => value

/-- An attribute name: small letters, digits, `-`, `.` and `:`, with no digit or hyphen first, no
hyphen last and no two hyphens together. One `:`, `@` or `x-` may stand in front. -/
def isAttributeName (value : Text) : Bool :=
  let body := attributeBody value
  match body with
  | [] => false
  | first :: _ =>
    !(first.isDigit || first == '-' || Text.endsWith '-' body || Text.holds ['-', '-'] body)
      && body.all fun c => isSlugLetter c || c == '-' || c == '.' || c == ':'

/-- Whether an attribute is written in one of the forms of client directives, valid or not. -/
def looksLikeDirective (value : Text) : Bool :=
  match value with
  | 'x' :: '-' :: _ => true
  | '@' :: _ => true
  | ':' :: _ => true
  | _ => false

/-- The argument of a directive, or an event: small letters, digits, `-` and `:`, with no hyphen at
either end. -/
def isDirectiveWord (value : Text) : Bool :=
  value != [] && value.head? != some '-' && !Text.endsWith '-' value
    && value.all fun c => isSlugLetter c || c == '-' || c == ':'

/-- Modifiers with a `.` between neighbours. -/
def areModifiers (value : Text) : Bool :=
  (Text.split '.' value).all fun word => word != [] && word.all fun c => isSlugLetter c || c == '-'

/-- What stands before the first `.`, and the modifiers after it. -/
def splitModifiers (value : Text) : Text × Option Text :=
  match Text.splitOnce '.' value with
  | some (head, modifiers) => (head, some modifiers)
  | none => (value, none)

/-- `x-name[:argument][.modifier…]`, `@event[.modifier…]` or `:property`. -/
def isDirectiveName (value : Text) : Bool :=
  match value with
  | 'x' :: '-' :: rest =>
    let (head, modifiers) := splitModifiers rest
    let (name, argument) : Text × Option Text := match Text.splitOnce ':' head with
      | some (name, argument) => (name, some argument)
      | none => (head, none)
    isSafeSlug name && name.all (fun c => c.isLower || c == '-')
      && argument.all isDirectiveWord && modifiers.all areModifiers
  | '@' :: rest =>
    let (event, modifiers) := splitModifiers rest
    isDirectiveWord event && event.head?.any Char.isLower && modifiers.all areModifiers
  | ':' :: rest => isSafeSlug rest
  | _ => false

/-- Letters, digits, `_` and `$`, with no digit first. -/
def isScriptName (value : Text) : Bool :=
  match value with
  | [] => false
  | first :: rest =>
    (first.isAlpha || first == '_' || first == '$')
      && rest.all fun c => c.isAlphanum || c == '_' || c == '$'

/-- What a loop expression says before `in` or `of`: its names, and the rest of the text. -/
def loopNames (value : Text) : Option (List Text × Text) :=
  match value with
  | '(' :: inner =>
    match Text.splitOnce ')' inner with
    | none => none
    | some (head, rest) =>
      let names := (Text.split ',' head).map Text.trim
      if names.length > 2 then none else some (names, rest)
  | _ =>
    if value.any isBlank then
      some ([value.takeWhile (!isBlank ·)], value.dropWhile (!isBlank ·))
    else none

/-- `item in list`, `item of list`, `(item) in list` or `(item, index) in list`. -/
def isLoopExpression (value : Text) : Bool :=
  match loopNames (Text.trim value) with
  | none => false
  | some (names, rest) =>
    names.all isScriptName &&
      let rest := Text.trimStart rest
      match (Text.after? "in".toList rest).or (Text.after? "of".toList rest) with
      | none => false
      | some list => list.head?.any isBlank && Text.trim list != []

/-! ## Globals and properties -/

/-- Words with a meaning in style sheets, which no global may take. -/
def reservedGlobals : List Text :=
  ["charset", "container", "counterStyle", "document", "extend", "fontFace", "fontFeatureValues",
    "import", "include", "inlineCSS", "keyframes", "layer", "media", "mixin", "namespace", "page",
    "property", "supports", "viewport"].map String.toList

/-- Words with a meaning in templates, which no property may take. -/
def reservedProperties : List Text :=
  ["if", "into", "true", "false", "const"].map String.toList

/-- A small letter, then letters and digits. -/
def isLowerCamel (value : Text) : Bool :=
  match value with
  | [] => false
  | first :: rest => first.isLower && rest.all Char.isAlphanum

/-- `$` before a name in camel case that is not reserved. -/
def isGlobalName (value : Text) : Bool :=
  match value with
  | '$' :: name => isLowerCamel name && !reservedGlobals.contains name
  | _ => false

/-- `$` before a reserved word. -/
def isReservedGlobal (value : Text) : Bool :=
  match value with
  | '$' :: name => reservedGlobals.contains name
  | _ => false

/-- Small letters and digits joined by single underscores, a letter first, and not reserved. -/
def isPropertyName (value : Text) : Bool :=
  match value with
  | [] => false
  | first :: _ =>
    first.isLower && !Text.endsWith '_' value && !Text.holds ['_', '_'] value
      && (value.all fun c => isSlugLetter c || c == '_')
      && !reservedProperties.contains value

/-! ## Enclosed text -/

def isEnclosed (text enclosures : Text) : Bool :=
  match text with
  | first :: second :: rest => (second :: rest).getLast? == some first && enclosures.contains first
  | _ => false

end Sitewright.Naming
