import Sitewright.Proofs.Markup.Building
import Sitewright.Proofs.Markup.Written
import Sitewright.Proofs.Text

/-!
What reading gives can be written so that it is read again: names have the characters of names, texts
open no markup, comments do not hold their end, and content that is text does not hold the closing tag.
Each token is sound, and so is every forest that is put together from sound tokens (`sound_parse`).
-/

namespace Sitewright.Markup

variable {body rest : Text} {c : Char}

/-! ## Names -/

theorem toLower_of_isLower (h : c.isLower = true) : c.toLower = c := by
  have hlow := (isLower_iff.mp h).1
  refine dif_neg ?_
  rintro ⟨-, hupper⟩
  have hhigh : c.toNat ≤ 90 := hupper
  omega

/-- A name that was read off the beginning of a text, in small letters. -/
theorem isTagName_toLower (h : startsTagName body = true) :
    IsTagName (Text.toLower (body.takeWhile isTagChar)) := by
  cases body with
  | nil => exact absurd h Bool.false_ne_true
  | cons c rest =>
    have hc : c.isAlpha = true := h
    have htag : isTagChar c = true := by simp [isTagChar, isAlphanum_of_isAlpha hc]
    constructor
    · rw [List.takeWhile_cons_of_pos htag]
      show c.toLower.isAlpha = true
      rcases toLower_cases c with heq | ⟨-, hlower⟩
      · rwa [heq]
      · exact isAlpha_of_isLower hlower
    · intro d hd
      obtain ⟨e, he, rfl⟩ := List.mem_map.mp hd
      have htag := List.all_eq_true.mp List.all_takeWhile e he
      rcases toLower_cases e with heq | ⟨-, hlower⟩
      · rwa [heq]
      · simp [isTagChar, isAlphanum_of_isAlpha (isAlpha_of_isLower hlower)]
    · rw [Text.toLower, Text.toLower, List.map_map]
      refine List.map_congr_left fun d _ => ?_
      rcases toLower_cases d with heq | ⟨-, hlower⟩
      · rw [Function.comp_apply, heq, heq]
      · exact toLower_of_isLower hlower

theorem attributeName_chars (t : Text) :
    ∀ c ∈ (attributeName t).1, isAsciiBlank c = false ∧ c ≠ '=' ∧ c ≠ '>' ∧ c ≠ '<' := by
  induction t with
  | nil => intro c hc; cases hc
  | cons d rest ih =>
    rw [attributeName]
    split
    next => intro c hc; cases hc
    next hstop =>
      simp only [Bool.or_eq_true, not_or, beq_iff_eq, Bool.not_eq_true] at hstop
      intro c hc
      rcases List.mem_cons.mp hc with rfl | hc
      · exact ⟨hstop.1.1.1.1, hstop.1.1.1.2, hstop.1.1.2, hstop.1.2⟩
      · exact ih c hc

theorem attributeName_head (h : (attributeName (c :: rest)).1 ≠ []) :
    (attributeName (c :: rest)).1.head? = some c := by
  rw [attributeName] at h ⊢
  split at h
  next => exact absurd rfl h
  next hstop => rw [if_neg hstop]; rfl

theorem scanAttribute_name {start : Nat} (hc : c ≠ '/') {attr : Attribute}
    (h : (scanAttribute start (c :: rest)).result = some attr) : IsAttributeName attr.name := by
  have hname : attr.name = (attributeName (c :: rest)).1 ∧ attr.name ≠ [] := by
    simp only [scanAttribute] at h
    split at h
    next => cases h
    next hne =>
      split at h
      next => cases h; exact ⟨rfl, hne⟩
      next => cases h; exact ⟨rfl, hne⟩
  obtain ⟨hname, hne⟩ := hname
  rw [hname] at hne ⊢
  refine ⟨hne, attributeName_chars _, ?_⟩
  rw [attributeName_head hne]
  exact fun heq => hc (Option.some.inj heq)

theorem scanAttributes_isAttributeName (rounds start : Nat) (text : Text) :
    ∀ attr ∈ (scanAttributes rounds start text).result.1, IsAttributeName attr.name := by
  induction rounds generalizing start text with
  | zero => intro attr hattr; cases hattr
  | succ rounds ih =>
    cases text with
    | nil => intro attr hattr; cases hattr
    | cons c rest =>
      unfold scanAttributes
      split
      next => exact ih _ _
      next =>
        split
        next => intro attr hattr; cases hattr
        next =>
          split
          next =>
            split
            next => intro attr hattr; cases hattr
            next => exact ih _ _
          next hslash =>
            split
            next => intro attr hattr; cases hattr
            next =>
              intro attr hattr
              rcases List.mem_append.mp hattr with hattr | hattr
              · exact scanAttribute_name hslash (Option.mem_toList.mp hattr)
              · exact ih _ _ attr hattr

/-! ## Tokens -/

/-- An element with names as they are read. -/
structure Element.IsSound (element : Element) : Prop where
  name : IsTagName element.name
  attributes : ∀ attr ∈ element.attributes, IsAttributeName attr.name

/-- A token that can be written so that it is read again. -/
def Token.IsSound : Token → Prop
  | .text written _ => Calm written
  | .comment written _ => Text.cut "-->".toList written = none
  | .declaration written _ => IsDeclaration written
  | .opening element _ => element.IsSound ∧ rawElements.contains element.name = false
  | .complete element _ none => element.IsSound
  | .complete element _ (some content) =>
    element.IsSound ∧ rawElements.contains element.name = true ∧
      cutFolded ('<' :: '/' :: element.name) content = none
  | .closing _ _ => True

theorem opensMarkup_textUntilMarkup {t s : Text} (hne : s ≠ []) (h : s <:+ (textUntilMarkup t).1) :
    opensMarkup (s ++ (textUntilMarkup t).2) = false := by
  induction t with
  | nil => exact absurd (List.suffix_nil.mp h) hne
  | cons c rest ih =>
    rw [textUntilMarkup] at h ⊢
    split at h
    next => exact absurd (List.suffix_nil.mp h) hne
    next hstarts =>
      rw [if_neg hstarts]
      rcases List.suffix_cons_iff.mp h with rfl | h
      · show opensMarkup (c :: ((textUntilMarkup rest).1 ++ (textUntilMarkup rest).2)) = false
        rw [textUntilMarkup_eq]
        exact opensMarkup_of_not_startsMarkup (Bool.eq_false_iff.mpr hstarts)
      · exact ih h

theorem isSound_scanText (h : opensMarkup (c :: rest) = false) (start : Nat) :
    (scanText start c rest).result.IsSound := by
  show Calm (c :: (textUntilMarkup rest).1)
  intro s hs
  by_cases hne : s = []
  · rw [hne]
    rfl
  · refine opensMarkup_of_append (t := (textUntilMarkup rest).2) ?_
    rcases List.suffix_cons_iff.mp hs with rfl | hs
    · rw [List.cons_append, textUntilMarkup_eq]
      exact h
    · exact opensMarkup_textUntilMarkup hne hs

theorem isSound_scanComment (start : Nat) (body : Text) : (scanComment start body).result.IsSound := by
  rw [scanComment]
  split
  next text rest hcut => exact Text.cut_before_eq_none (by decide) hcut
  next hcut => exact hcut

theorem isSound_scanDeclaration (h : ¬['-', '-'] <+: body) (start : Nat) :
    (scanDeclaration start body).result.IsSound := by
  rw [scanDeclaration]
  split
  next text rest hsplit =>
    obtain ⟨hbody, hmem⟩ := Text.splitOnce_eq_some hsplit
    refine ⟨hmem, fun hdashes => h (hdashes.trans ?_)⟩
    exact ⟨'>' :: rest, hbody.symm⟩
  next hsplit => exact ⟨Text.splitOnce_eq_none hsplit, h⟩

theorem cutFolded_before {phrase t before after : Text} (hphrase : phrase ≠ [])
    (h : cutFolded phrase t = some (before, after)) : cutFolded phrase before = none := by
  induction t generalizing before with
  | nil =>
    rw [cutFolded, if_neg hphrase] at h
    cases h
  | cons c rest ih =>
    have hall := cutFolded_eq_some h
    rw [cutFolded] at h
    split at h
    next =>
      cases h
      rw [cutFolded, if_neg hphrase]
    next hnot =>
      obtain ⟨⟨first, second⟩, hrest, heq⟩ := Option.map_eq_some_iff.mp h
      cases heq
      have hmissing : ¬phrase.isPrefixOf (Text.toLower (c :: first)) = true := by
        rw [List.isPrefixOf_iff_prefix] at hnot ⊢
        intro hstart
        rw [hall, toLower_append] at hnot
        exact hnot (hstart.trans (List.prefix_append _ _))
      rw [cutFolded, if_neg hmissing, ih hrest]
      rfl

theorem isSound_scanRaw {element : Element} (h : element.IsSound)
    (hraw : rawElements.contains element.name = true) (span : ByteSpan) (body : Text) :
    (scanRaw element span body).result.IsSound := by
  have hdone (content : ByteSpan) (text : Text)
      (hcontent : cutFolded ('<' :: '/' :: element.name) text = none) (span : ByteSpan) :
      (Token.complete { element with content := content } span
        (if text = [] then none else some text)).IsSound := by
    have helement : Element.IsSound { element with content := content } := ⟨h.name, h.attributes⟩
    split
    next => exact helement
    next => exact ⟨helement, hraw, hcontent⟩
  simp only [scanRaw]
  split
  next text closing hcut =>
    have hcontent := cutFolded_before (List.cons_ne_nil _ _) hcut
    split
    next => exact hdone _ text hcontent _
    next => exact hdone _ text hcontent _
  next hcut => exact hdone _ body hcut _

theorem isSound_scanOpening (h : startsTagName body = true) (start : Nat) :
    (scanOpening start body).result.IsSound := by
  have hname := isTagName_toLower h
  have hattributes := scanAttributes_isAttributeName (body.dropWhile isTagChar).length
    (start + 1 + Text.byteSize (body.takeWhile isTagChar)) (body.dropWhile isTagChar)
  simp only [scanOpening]
  generalize scanAttributes (body.dropWhile isTagChar).length
    (start + 1 + Text.byteSize (body.takeWhile isTagChar)) (body.dropWhile isTagChar) = tail at hattributes ⊢
  obtain ⟨⟨attributes, ending⟩, problems, rest, stop⟩ := tail
  cases ending with
  | missing => exact ⟨hname, hattributes⟩
  | selfClosed => exact ⟨hname, hattributes⟩
  | closed =>
    simp only
    split
    next => exact ⟨hname, hattributes⟩
    next =>
      split
      next hraw => exact isSound_scanRaw ⟨hname, hattributes⟩ hraw _ _
      next hraw => exact ⟨⟨hname, hattributes⟩, Bool.eq_false_iff.mpr hraw⟩

theorem isSound_scanToken (start : Nat) (c : Char) (rest : Text) :
    (scanToken start c rest).result.IsSound := by
  by_cases hopens : opensMarkup (c :: rest) = false
  · rw [scanToken_of_not_opens hopens]
    exact isSound_scanText hopens start
  · unfold scanToken
    split
    next body => exact isSound_scanComment start body
    next body hnot => exact isSound_scanDeclaration (fun ⟨tail, htail⟩ => hnot tail htail.symm) start
    next body =>
      split
      next =>
        simp only [scanClosing]
        split <;> trivial
      next hname => exact absurd (Bool.eq_false_iff.mpr hname) hopens
    next hmark hslash =>
      split
      next hname => exact isSound_scanOpening hname start
      next hname =>
        rw [opensMarkup] at hopens
        · exact absurd (Bool.eq_false_iff.mpr hname) hopens
        · exact hmark
        · exact hslash
    next hne _ _ _ => exact absurd (opensMarkup_of_ne hne rest) hopens

theorem Tokenized.isSound {start : Nat} {text : Text} {all : List (Token × List Problem)}
    (hall : Tokenized start text all) {scanned : Token × List Problem} (h : scanned ∈ all) : scanned.1.IsSound := by
  induction hall with
  | nil => cases h
  | @cons start c rest later _ ih =>
    rcases List.mem_cons.mp h with rfl | h
    · exact isSound_scanToken start c rest
    · exact ih h

/-! ## Forests -/

/-- What stands below an element whose content is text. -/
def IsRawContent (name : Text) (below : Forest Node) : Prop :=
  below = .nil ∨ ∃ node content, below = .tree node .nil ∧ node.kind = .text content ∧
    cutFolded ('<' :: '/' :: name) content = none

/-- Nodes that can be written so that they are read again. -/
def Sound : Forest Node → Prop
  | .nil => True
  | .cons node below after =>
    (match node.kind with
      | .text text => Calm text
      | .comment text => Text.cut "-->".toList text = none
      | .declaration text => IsDeclaration text
      | .element element =>
        element.IsSound ∧
          if rawElements.contains element.name then IsRawContent element.name below else Sound below) ∧
    Sound after

theorem sound_append {f g : Forest Node} (hf : Sound f) (hg : Sound g) : Sound (f ++ g) := by
  induction f with
  | nil => exact hg
  | cons node below after _ ih => exact ⟨hf.1, ih hf.2⟩

/-- Closing an element that has more than text in it keeps its nodes sound. -/
theorem isKept_sound :
    IsKept Sound fun element => element.IsSound ∧ rawElements.contains element.name = false where
  nil := trivial
  append := sound_append
  close := by
    intro element inside helement hinside contentStop start stop
    refine ⟨⟨⟨helement.1.name, helement.1.attributes⟩, ?_⟩, trivial⟩
    rw [if_neg (Bool.eq_false_iff.mp helement.2)]
    exact hinside

theorem Token.IsSound.gives {token : Token} (h : token.IsSound) :
    token.Gives Sound fun element => element.IsSound ∧ rawElements.contains element.name = false := by
  cases token with
  | text written span => exact ⟨h, trivial⟩
  | comment written span => exact ⟨h, trivial⟩
  | declaration written span => exact ⟨h, trivial⟩
  | opening element span => exact h
  | complete element span content =>
    cases content with
    | none =>
      refine ⟨⟨h, ?_⟩, trivial⟩
      split
      next => exact .inl rfl
      next => trivial
    | some content =>
      refine ⟨⟨h.1, ?_⟩, trivial⟩
      rw [if_pos h.2.1]
      exact .inr ⟨_, content, rfl, rfl, h.2.2⟩
  | closing name span => trivial

/-- What is read off a source is sound. -/
theorem sound_parse (source : Text) : Sound (parse source).1 :=
  parse_of_tokens isKept_sound fun _ hscanned => ((tokenized_tokens source).isSound hscanned).gives

end Sitewright.Markup
