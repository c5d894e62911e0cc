import Sitewright.Proofs.Markup.Shapes

/-!
Reading markup that was written. Comments, declarations, tags and attributes are each read up to where they
were written, with the places that follow from their sizes. So texts that open no markup, comments and
declarations have no shapes, and a written tag has the shape that its names give, whatever its values are.
-/

namespace Sitewright.Markup

variable {c : Char} {name t text : Text}

/-! ## Texts -/

/-- Whether a text begins with a tag, a comment or a declaration. -/
def opensMarkup : Text → Bool
  | '<' :: '!' :: _ => true
  | '<' :: '/' :: rest => startsTagName rest
  | '<' :: rest => startsTagName rest
  | _ => false

theorem scanToken_of_not_opens {rest : Text} (h : opensMarkup (c :: rest) = false)
    (start : Nat) : scanToken start c rest = scanText start c rest := by
  unfold scanToken
  split
  next => simp [opensMarkup] at h
  next => simp [opensMarkup] at h
  next body =>
    have hname : startsTagName body = false := h
    rw [hname]
    rfl
  next hmark hslash =>
    rw [opensMarkup] at h
    · rw [h]
      rfl
    · exact hmark
    · exact hslash
  next => rfl

theorem opensMarkup_of_not_startsMarkup (h : startsMarkup t = false) : opensMarkup t = false := by
  unfold opensMarkup
  split
  next => simp [startsMarkup] at h
  next => simp [startsMarkup] at h
  next rest _ _ =>
    cases rest with
    | nil => rfl
    | cons c rest =>
      simp only [startsMarkup, Bool.or_eq_false_iff] at h
      exact h.2
  next => rfl

theorem shapes_textUntilMarkup (t : Text) : shapes (textUntilMarkup t).2 = shapes t := by
  induction t with
  | nil => rfl
  | cons c rest ih =>
    rw [textUntilMarkup]
    split
    next => rfl
    next hstarts =>
      have hopens := opensMarkup_of_not_startsMarkup (Bool.eq_false_iff.mpr hstarts)
      rw [shapes_cons c rest, scanToken_of_not_opens hopens]
      rfl

/-- A character that opens no markup is text. -/
theorem shapes_of_not_opens {rest : Text} (h : opensMarkup (c :: rest) = false) :
    shapes (c :: rest) = shapes rest := by
  rw [shapes_cons, scanToken_of_not_opens h, ← shapes_textUntilMarkup rest]
  rfl

theorem shapes_append {v : Text} (h : ∀ s, s ≠ [] → s <:+ v → opensMarkup (s ++ t) = false) :
    shapes (v ++ t) = shapes t := by
  induction v with
  | nil => rfl
  | cons c v ih =>
    have hc := h (c :: v) (List.cons_ne_nil c v) (List.suffix_refl _)
    rw [List.cons_append] at hc ⊢
    rw [shapes_of_not_opens hc]
    exact ih fun s hs hsuffix => h s hs (hsuffix.trans (List.suffix_cons c v))

/-- Nowhere in the text does markup begin. -/
def Calm (t : Text) : Prop :=
  ∀ s, s <:+ t → opensMarkup s = false

/-- Whether a text ends in `<` or `</`, where what follows decides if markup begins. -/
def isTrailing (t : Text) : Bool :=
  ['<'].isSuffixOf t || ['<', '/'].isSuffixOf t

/-- Whether a character after `<` or `</` leaves them text. -/
def isSettling (c : Char) : Bool :=
  c != '!' && c != '/' && !c.isAlpha

/-- A text that leaves `<` and `</` before it text. -/
def IsFence (t : Text) : Prop :=
  ∀ c ∈ t.head?, isSettling c = true

theorem isFence_nil : IsFence [] := nofun

theorem isFence_of_head? (h : t.head? = some c) (hc : isSettling c = true) : IsFence t := by
  intro d hd
  rw [h] at hd
  exact Option.some.inj hd ▸ hc

theorem opensMarkup_of_ne (hc : c ≠ '<') (t : Text) : opensMarkup (c :: t) = false := by
  rw [opensMarkup]
  all_goals
    intros
    simp_all

theorem opensMarkup_name (hmark : c ≠ '!') (hslash : c ≠ '/') (t : Text) :
    opensMarkup ('<' :: c :: t) = c.isAlpha := by
  rw [opensMarkup]
  · rfl
  · intro rest heq
    exact hmark (List.cons.inj heq).1
  · intro rest heq
    exact hslash (List.cons.inj heq).1

/-- Whether markup begins depends on no more than three characters. -/
theorem opensMarkup_cases (s : Text) :
    s = [] ∨ s = ['<'] ∨ s = ['<', '/'] ∨ ∀ t, opensMarkup (s ++ t) = opensMarkup s := by
  rcases s with _ | ⟨c, s⟩
  · exact .inl rfl
  · by_cases hc : c = '<'
    · subst hc
      rcases s with _ | ⟨d, s⟩
      · exact .inr (.inl rfl)
      · by_cases hslash : d = '/'
        · subst hslash
          rcases s with _ | ⟨e, s⟩
          · exact .inr (.inr (.inl rfl))
          · exact .inr (.inr (.inr fun t => rfl))
        · by_cases hmark : d = '!'
          · subst hmark
            exact .inr (.inr (.inr fun t => rfl))
          · refine .inr (.inr (.inr fun t => ?_))
            rw [List.cons_append, List.cons_append, opensMarkup_name hmark hslash,
              opensMarkup_name hmark hslash]
    · refine .inr (.inr (.inr fun t => ?_))
      rw [List.cons_append, opensMarkup_of_ne hc, opensMarkup_of_ne hc]

theorem Calm.right {a b : Text} (h : Calm (a ++ b)) : Calm b :=
  fun s hs => h s (hs.trans (List.suffix_append a b))

theorem opensMarkup_of_append {s : Text} (h : opensMarkup (s ++ t) = false) : opensMarkup s = false := by
  rcases opensMarkup_cases s with rfl | rfl | rfl | hsame
  · rfl
  · rfl
  · rfl
  · rw [← hsame t, h]

theorem Calm.left {a b : Text} (h : Calm (a ++ b)) : Calm a := by
  intro s hs
  obtain ⟨front, rfl⟩ := hs
  exact opensMarkup_of_append (h (s ++ b) ⟨front, (List.append_assoc _ _ _).symm⟩)

/-- A calm text adds no shapes, if it is not followed by what makes its end markup. -/
theorem Calm.shapes_append {v : Text} (h : Calm v) (ht : isTrailing v = true → IsFence t) :
    shapes (v ++ t) = shapes t := by
  have hfence : IsFence t → opensMarkup ('<' :: t) = false ∧ opensMarkup ('<' :: '/' :: t) = false := by
    intro hfence
    cases t with
    | nil => exact ⟨rfl, rfl⟩
    | cons c rest =>
      have hc := hfence c rfl
      simp only [isSettling, Bool.and_eq_true, bne_iff_ne, Bool.not_eq_true'] at hc
      obtain ⟨⟨hmark, hslash⟩, halpha⟩ := hc
      exact ⟨(opensMarkup_name hmark hslash rest).trans halpha, halpha⟩
  refine Markup.shapes_append fun s hne hs => ?_
  rcases opensMarkup_cases s with rfl | rfl | rfl | hsame
  · exact absurd rfl hne
  · have htrailing : isTrailing v = true := by
      rw [isTrailing, List.isSuffixOf_iff_suffix.mpr hs, Bool.true_or]
    exact (hfence (ht htrailing)).1
  · have htrailing : isTrailing v = true := by
      rw [isTrailing, List.isSuffixOf_iff_suffix.mpr hs, Bool.or_true]
    exact (hfence (ht htrailing)).2
  · rw [hsame t, h s hs]

/-- Without `<` there is no markup. -/
theorem shapes_append_of_not_mem {v : Text} (h : '<' ∉ v) (t : Text) : shapes (v ++ t) = shapes t := by
  refine shapes_append fun s hne hs => ?_
  obtain ⟨c, rest, rfl⟩ := List.exists_cons_of_ne_nil hne
  exact opensMarkup_of_ne (fun hc => h (hs.subset (hc ▸ List.mem_cons_self))) _

/-! ## Comments and declarations -/

theorem scanToken_comment (h : Text.cut "-->".toList text = none) (start : Nat) (t : Text) :
    scanToken start '<' ('!' :: '-' :: '-' :: (text ++ "-->".toList ++ t)) =
      ⟨.comment text ⟨start, start + 4 + Text.byteSize text + 3⟩, [], t,
        start + 4 + Text.byteSize text + 3⟩ := by
  have hphrase : "-->".toList = ['-', '-'] ++ ['>'] := rfl
  have hcut : Text.cut "-->".toList (text ++ "-->".toList ++ t) = some (text, t) :=
    Text.cut_append hphrase (by decide) h
  show scanComment start (text ++ "-->".toList ++ t) = _
  rw [scanComment, hcut]

theorem shapes_comment (h : Text.cut "-->".toList text = none) (t : Text) :
    shapes ("<!--".toList ++ text ++ "-->".toList ++ t) = shapes t := by
  show shapes ('<' :: '!' :: '-' :: '-' :: (text ++ "-->".toList ++ t)) = _
  rw [shapes_cons, scanToken_comment h]
  rfl

/-- The text between `<!` and `>`. -/
structure IsDeclaration (text : Text) : Prop where
  not_mem : '>' ∉ text
  /-- Else it is a comment. -/
  not_dashes : ¬['-', '-'] <+: text

theorem scanToken_declaration (h : IsDeclaration text) (start : Nat) (t : Text) :
    scanToken start '<' ('!' :: (text ++ '>' :: t)) =
      ⟨.declaration text ⟨start, start + 2 + Text.byteSize text + 1⟩, [], t,
        start + 2 + Text.byteSize text + 1⟩ := by
  have hscan : scanToken start '<' ('!' :: (text ++ '>' :: t)) =
      scanDeclaration start (text ++ '>' :: t) := by
    rw [scanToken]
    intro body heq
    rcases text with _ | ⟨c, _ | ⟨d, text⟩⟩
    · cases heq
    · cases heq
    · cases heq
      exact h.not_dashes ⟨text, rfl⟩
  rw [hscan, scanDeclaration, Text.splitOnce_append h.not_mem]

theorem shapes_declaration (h : IsDeclaration text) (t : Text) :
    shapes ('<' :: '!' :: (text ++ '>' :: t)) = shapes t := by
  rw [shapes_cons, scanToken_declaration h]
  rfl

/-! ## Names -/

/-- A name as tags have it after they were read. -/
structure IsTagName (name : Text) : Prop where
  starts : startsTagName name = true
  chars : ∀ c ∈ name, isTagChar c = true
  lower : Text.toLower name = name

/-- A name as attributes have it. -/
structure IsAttributeName (name : Text) : Prop where
  ne_nil : name ≠ []
  chars : ∀ c ∈ name, isAsciiBlank c = false ∧ c ≠ '=' ∧ c ≠ '>' ∧ c ≠ '<'
  head : name.head? ≠ some '/'

theorem IsTagName.exists_cons (h : IsTagName name) : ∃ c rest, name = c :: rest ∧ c.isAlpha = true := by
  cases name with
  | nil => exact absurd h.starts Bool.false_ne_true
  | cons c rest => exact ⟨c, rest, rfl, h.starts⟩

/-- The text ends a tag name. -/
def EndsName (t : Text) : Prop :=
  ∀ c ∈ t.head?, isTagChar c = false

theorem IsTagName.takeWhile_append (h : IsTagName name) (ht : EndsName t) :
    (name ++ t).takeWhile isTagChar = name ∧ (name ++ t).dropWhile isTagChar = t := by
  rw [List.takeWhile_append_of_pos h.chars, List.dropWhile_append_of_pos h.chars]
  cases t with
  | nil => exact ⟨List.append_nil name, rfl⟩
  | cons c rest =>
    have hc := ht c rfl
    rw [List.takeWhile_cons_of_neg (Bool.eq_false_iff.mp hc), List.append_nil,
      List.dropWhile_cons_of_neg (Bool.eq_false_iff.mp hc)]
    exact ⟨rfl, rfl⟩

theorem scanToken_closing (h : IsTagName name) (start : Nat) (t : Text) :
    scanToken start '<' ('/' :: (name ++ '>' :: t)) =
      ⟨.closing name ⟨start, start + 2 + Text.byteSize name + 1⟩, [], t,
        start + 2 + Text.byteSize name + 1⟩ := by
  have hstarts : startsTagName (name ++ '>' :: t) = true := by
    obtain ⟨c, rest, rfl, hc⟩ := h.exists_cons
    exact hc
  have hscan : scanToken start '<' ('/' :: (name ++ '>' :: t)) = scanClosing start (name ++ '>' :: t) := by
    rw [scanToken, if_pos hstarts]
  obtain ⟨htake, hdrop⟩ := h.takeWhile_append (t := '>' :: t) (by rintro c ⟨⟩; decide)
  have hsplit : Text.splitOnce '>' ('>' :: t) = some ([], t) := rfl
  rw [hscan]
  simp only [scanClosing, htake, hdrop, hsplit, h.lower]
  rfl

theorem shapes_closing (h : IsTagName name) (t : Text) :
    shapes ('<' :: '/' :: (name ++ '>' :: t)) = .closing name :: shapes t := by
  rw [shapes_cons, scanToken_closing h]
  rfl

/-! ## Attributes -/

/-- An attribute as written, with a quoted value or none. -/
def attributeText (attr : Text × Option Text) : Text :=
  ' ' :: attr.1 ++ match attr.2 with
    | some value => '=' :: '"' :: (value ++ ['"'])
    | none => []

/-- An attribute that can be read back up to its end. -/
structure IsWritten (attr : Text × Option Text) : Prop where
  name : IsAttributeName attr.1
  value : ∀ value ∈ attr.2, '"' ∉ value

/-- The name of an attribute, and whether it has a value. -/
def nameOnly (attr : Text × Option Text) : Text × Bool :=
  (attr.1, attr.2.isSome)

/-- The names that are read off written attributes, and how the tag ends. A slash at the end of the last
name belongs to the end of the tag. -/
def reread : List (Text × Bool) → List Text × TagEnd
  | [] => ([], .closed)
  | [(name, false)] =>
    if name.getLast? = some '/' then ([name.dropLast], .selfClosed) else ([name], .closed)
  | (name, _) :: rest => (name :: (reread rest).1, (reread rest).2)

theorem attributeName_append (hchars : ∀ c ∈ name, isAsciiBlank c = false ∧ c ≠ '=' ∧ c ≠ '>' ∧ c ≠ '<')
    (ht : attributeName t = ([], t)) (hslash : name.getLast? = some '/' → t.head? ≠ some '>') :
    attributeName (name ++ t) = (name, t) := by
  induction name with
  | nil => exact ht
  | cons c name ih =>
    obtain ⟨hblank, heq, hgt, hlt⟩ := hchars c List.mem_cons_self
    have hnext : (c == '/' && (name ++ t).head? == some '>') = false := by
      rw [Bool.and_eq_false_iff, beq_eq_false_iff_ne, beq_eq_false_iff_ne]
      by_cases hc : c = '/'
      · right
        cases name with
        | nil => exact hslash (congrArg some hc)
        | cons d name =>
          have hd := (hchars d (List.mem_cons_of_mem _ List.mem_cons_self)).2.2.1
          exact fun hhead => hd (Option.some.inj hhead)
      · exact .inl hc
    have hname := ih (fun d hd => hchars d (List.mem_cons_of_mem c hd)) fun hlast => hslash (by
      cases name with
      | nil => cases hlast
      | cons d name => rwa [List.getLast?_cons_cons])
    rw [List.cons_append, attributeName, hname, hblank, beq_eq_false_iff_ne.mpr heq,
      beq_eq_false_iff_ne.mpr hgt, beq_eq_false_iff_ne.mpr hlt, hnext]
    rfl

/-- A written attribute, as it is read where its blank stands at byte `start`. -/
def placeAttribute (start : Nat) (attr : Text × Option Text) : Attribute :=
  let nameStop := start + 1 + Text.byteSize attr.1
  ⟨attr.1, attr.2, ⟨start + 1, nameStop⟩,
    attr.2.map fun value => ⟨nameStop + 2, nameStop + 2 + Text.byteSize value⟩⟩

theorem byteSize_attributeText_none (name : Text) :
    Text.byteSize (attributeText (name, none)) = 1 + Text.byteSize name := by
  simp only [attributeText, List.append_nil]
  rfl

theorem byteSize_attributeText_some (name value : Text) :
    Text.byteSize (attributeText (name, some value)) = 1 + Text.byteSize name + 3 + Text.byteSize value := by
  have hquote : Text.byteSize ['"'] = 1 := rfl
  have hmarks : Text.byteSize ('=' :: '"' :: (value ++ ['"'])) = 1 + (1 + Text.byteSize (value ++ ['"'])) := rfl
  have hblank : Text.byteSize (' ' :: name) = 1 + Text.byteSize name := rfl
  simp only [attributeText, Text.byteSize_append, hmarks, hblank, hquote]
  omega

theorem scanAttribute_valued {value : Text} (hname : IsAttributeName name) (hvalue : '"' ∉ value)
    (start : Nat) (t : Text) :
    scanAttribute (start + 1) (name ++ '=' :: '"' :: (value ++ '"' :: t)) =
      ⟨some (placeAttribute start (name, some value)), [], t,
        start + Text.byteSize (attributeText (name, some value))⟩ := by
  have hread : attributeName (name ++ '=' :: '"' :: (value ++ '"' :: t)) =
      (name, '=' :: '"' :: (value ++ '"' :: t)) :=
    attributeName_append hname.chars rfl fun _ hhead => absurd (Option.some.inj hhead) (by decide)
  have hequals : ('=' :: '"' :: (value ++ '"' :: t)).dropWhile isAsciiBlank =
      '=' :: '"' :: (value ++ '"' :: t) := rfl
  have hquote : ('"' :: (value ++ '"' :: t)).dropWhile isAsciiBlank = '"' :: (value ++ '"' :: t) := rfl
  have hstop : start + Text.byteSize (attributeText (name, some value)) =
      start + 1 + Text.byteSize name + 1 + 1 + Text.byteSize value + 1 := by
    rw [byteSize_attributeText_some]
    omega
  rw [hstop]
  simp only [scanAttribute, hread, hname.ne_nil, if_false, hequals, hquote, scanValue,
    Text.splitOnce_append hvalue]
  rfl

theorem scanAttribute_bare (hne : name ≠ []) (hread : attributeName (name ++ t) = (name, t))
    (ht : (t.dropWhile isAsciiBlank).head? ≠ some '=') (start : Nat) :
    scanAttribute (start + 1) (name ++ t) =
      ⟨some (placeAttribute start (name, none)), [], t,
        start + Text.byteSize (attributeText (name, none))⟩ := by
  rw [byteSize_attributeText_none, ← Nat.add_assoc]
  simp only [scanAttribute, hread, hne, if_false]
  split
  next after hafter =>
    rw [hafter] at ht
    exact absurd rfl ht
  next => rfl

theorem scanAttributes_blank (rounds start : Nat) (t : Text) :
    scanAttributes (rounds + 1) start (' ' :: t) = scanAttributes rounds (start + 1) t := rfl

/-- One attribute is read, then the others. -/
theorem scanAttributes_name {s : Text} (hname : IsAttributeName name) {rounds start stop : Nat}
    {attr : Attribute} (h : scanAttribute start (name ++ s) = ⟨some attr, [], t, stop⟩) :
    scanAttributes (rounds + 1) start (name ++ s) =
      { scanAttributes rounds stop t with
        result := (attr :: (scanAttributes rounds stop t).result.1,
          (scanAttributes rounds stop t).result.2) } := by
  obtain ⟨c, rest, rfl⟩ := List.exists_cons_of_ne_nil hname.ne_nil
  obtain ⟨hblank, -, hgt, hlt⟩ := hname.chars c List.mem_cons_self
  have hslash : c ≠ '/' := fun hc => hname.head (congrArg some hc)
  rw [List.cons_append] at h ⊢
  conv_lhs => unfold scanAttributes
  rw [if_neg (Bool.eq_false_iff.mp hblank), if_neg hgt, if_neg hslash, if_neg hlt, h]
  rfl

theorem reread_cons {entry : Text × Bool} {rest : List (Text × Bool)}
    (h : entry.2 = false → entry.1.getLast? = some '/' → rest ≠ []) :
    reread (entry :: rest) = (entry.1 :: (reread rest).1, (reread rest).2) := by
  obtain ⟨name, hasValue⟩ := entry
  cases hasValue with
  | true => cases rest <;> rfl
  | false =>
    cases rest with
    | nil => exact if_neg fun hlast => h rfl hlast rfl
    | cons next rest => rfl

/-- The text ends an attribute that has no value. -/
structure EndsAttribute (t : Text) : Prop where
  name : attributeName t = ([], t)
  value : (t.dropWhile isAsciiBlank).head? ≠ some '='

theorem endsAttribute_written {attrs : List (Text × Option Text)} (h : ∀ attr ∈ attrs, IsWritten attr) (t : Text) :
    EndsAttribute (attrs.flatMap attributeText ++ '>' :: t) := by
  cases attrs with
  | nil => exact ⟨rfl, fun hhead => absurd (Option.some.inj hhead) (by decide)⟩
  | cons attr rest =>
    have hname := (h attr List.mem_cons_self).name
    obtain ⟨c, more, hc⟩ := List.exists_cons_of_ne_nil hname.ne_nil
    obtain ⟨hblank, hequals, -⟩ := hname.chars c (hc ▸ List.mem_cons_self)
    have hspace : isAsciiBlank ' ' = true := rfl
    refine ⟨rfl, ?_⟩
    rw [List.flatMap_cons, attributeText, hc]
    simp only [List.cons_append, List.dropWhile_cons_of_pos hspace,
      List.dropWhile_cons_of_neg (Bool.eq_false_iff.mp hblank), List.head?_cons]
    exact fun hhead => hequals (Option.some.inj hhead)

theorem endsName_written (attrs : List (Text × Option Text)) (t : Text) :
    EndsName (attrs.flatMap attributeText ++ '>' :: t) := by
  cases attrs with
  | nil => rintro c ⟨⟩; decide
  | cons attr attrs => rintro c ⟨⟩; decide

theorem two_le_length_attributeText {attr : Text × Option Text} (h : IsWritten attr) :
    2 ≤ (attributeText attr).length := by
  have hpositive := List.length_pos_iff.mpr h.name.ne_nil
  simp only [attributeText, List.length_append, List.length_cons]
  omega

/-- An attribute is read with its places, then the others. -/
theorem scanAttributes_attribute {attr : Text × Option Text} (h : IsWritten attr) {s : Text} (hs : EndsAttribute s)
    (hslash : attr.2 = none → attr.1.getLast? = some '/' → s.head? ≠ some '>') (rounds start : Nat) :
    scanAttributes (rounds + 2) start (attributeText attr ++ s) =
      { scanAttributes rounds (start + Text.byteSize (attributeText attr)) s with
        result := (placeAttribute start attr ::
            (scanAttributes rounds (start + Text.byteSize (attributeText attr)) s).result.1,
          (scanAttributes rounds (start + Text.byteSize (attributeText attr)) s).result.2) } := by
  obtain ⟨name, value⟩ := attr
  have hname : IsAttributeName name := h.name
  cases value with
  | some value =>
    have htext : attributeText (name, some value) ++ s =
        ' ' :: (name ++ '=' :: '"' :: (value ++ '"' :: s)) := by
      simp [attributeText]
    rw [htext, scanAttributes_blank]
    exact scanAttributes_name hname (scanAttribute_valued hname (h.value value rfl) start s)
  | none =>
    have htext : attributeText (name, none) ++ s = ' ' :: (name ++ s) := by
      simp [attributeText]
    have hread : attributeName (name ++ s) = (name, s) := attributeName_append hname.chars hs.name (hslash rfl)
    rw [htext, scanAttributes_blank]
    exact scanAttributes_name hname (scanAttribute_bare hname.ne_nil hread hs.value start)

theorem names_cons {names : List Text} {ending : TagEnd} {scan : Scan (List Attribute × TagEnd)} {attr : Attribute}
    (h : scan.names = (names, ending, t)) :
    Scan.names { scan with result := (attr :: scan.result.1, scan.result.2) } =
      (attr.name :: names, ending, t) := by
  simp only [Scan.names, Prod.mk.injEq] at h ⊢
  simp only [List.map_cons, h, and_self]

/-- A tag that ends in a name with a slash at its end is self-closing, and the name is without it. -/
theorem scanAttributes_slash (hname : IsAttributeName name) (hlast : name.getLast? = some '/')
    (rounds start : Nat) :
    (scanAttributes (rounds + 3) start (attributeText (name, none) ++ '>' :: t)).names =
      ([name.dropLast], .selfClosed, t) := by
  obtain ⟨front, rfl⟩ := List.getLast?_eq_some_iff.mp hlast
  have hne : front ≠ [] := by
    rintro rfl
    exact hname.head rfl
  have hfront : IsWritten (front, none) := by
    refine ⟨⟨hne, fun c hc => hname.chars c (List.mem_append_left _ hc), fun hhead => hname.head ?_⟩, nofun⟩
    rwa [List.head?_append_of_ne_nil _ hne]
  have hends : EndsAttribute ('/' :: '>' :: t) :=
    ⟨rfl, fun hhead => absurd (Option.some.inj hhead) (by decide)⟩
  have htext : attributeText (front ++ ['/'], none) ++ '>' :: t =
      attributeText (front, none) ++ '/' :: '>' :: t := by
    simp [attributeText]
  rw [List.dropLast_concat, htext, scanAttributes_attribute hfront hends fun _ _ hhead =>
    absurd (Option.some.inj hhead) (by decide)]
  exact names_cons rfl

/-- Written attributes are read back, and the tag ends where it was ended. -/
theorem scanAttributes_written {attrs : List (Text × Option Text)} (h : ∀ attr ∈ attrs, IsWritten attr)
    {rounds : Nat} (hrounds : (attrs.flatMap attributeText ++ '>' :: t).length ≤ rounds) (start : Nat) :
    (scanAttributes rounds start (attrs.flatMap attributeText ++ '>' :: t)).names =
      ((reread (attrs.map nameOnly)).1, (reread (attrs.map nameOnly)).2, t) := by
  induction attrs generalizing rounds start with
  | nil =>
    cases rounds with
    | zero => cases hrounds
    | succ rounds => rfl
  | cons attr attrs ih =>
    rw [List.forall_mem_cons] at h
    have hlength := two_le_length_attributeText h.1
    rw [List.flatMap_cons, List.append_assoc, List.length_append] at hrounds
    rw [List.flatMap_cons, List.append_assoc]
    by_cases hend : attr.2 = none → attr.1.getLast? = some '/' → attrs ≠ []
    · obtain ⟨rounds, rfl⟩ : ∃ n, rounds = n + 2 := ⟨rounds - 2, by omega⟩
      have hslash : attr.2 = none → attr.1.getLast? = some '/' →
          (attrs.flatMap attributeText ++ '>' :: t).head? ≠ some '>' := by
        intro hnone hlast
        obtain ⟨next, others, rfl⟩ := List.exists_cons_of_ne_nil (hend hnone hlast)
        exact fun hhead => absurd (Option.some.inj hhead) (by decide)
      have hnames : (nameOnly attr).2 = false → (nameOnly attr).1.getLast? = some '/' → attrs.map nameOnly ≠ [] := by
        intro hvalue hlast
        have hnone : attr.2 = none := Option.isNone_iff_eq_none.mp (Option.isSome_eq_false_iff.mp hvalue)
        exact mt List.map_eq_nil_iff.mp (hend hnone hlast)
      rw [scanAttributes_attribute h.1 (endsAttribute_written h.2 t) hslash, List.map_cons, reread_cons hnames]
      exact names_cons (ih h.2 (by omega) _)
    · -- the slash at the end of the last name belongs to the end of the tag
      simp only [Classical.not_imp, not_not] at hend
      obtain ⟨hnone, hlast, rfl⟩ := hend
      obtain ⟨name, value⟩ := attr
      cases hnone
      obtain ⟨rounds, rfl⟩ : ∃ n, rounds = n + 3 := ⟨rounds - 3, by simp at hrounds; omega⟩
      have hslash : reread ([(name, none)].map nameOnly) = ([name.dropLast], .selfClosed) := if_pos hlast
      rw [hslash]
      exact scanAttributes_slash h.1.name hlast rounds start

/-! ## Opening tags -/

/-- The shape of an opening tag with names that were read and the way it ends. -/
def tagShape (name : Text) (read : List Text × TagEnd) : Shape :=
  if read.2 = .closed && !isVoid name && !rawElements.contains name then .opening name read.1
  else .complete name read.1

theorem openingView_fst (name : Text) (read : List Text × TagEnd) (t : Text) :
    (openingView name (read.1, read.2, t)).1 = some (tagShape name read) := by
  obtain ⟨names, ending⟩ := read
  cases ending with
  | missing => rfl
  | selfClosed => rfl
  | closed =>
    simp only [openingView, tagShape]
    cases isVoid name with
    | true => rfl
    | false => cases hraw : rawElements.contains name <;> simp

theorem scanToken_tag (hname : IsTagName name) (start : Nat) :
    scanToken start '<' (name ++ t) = scanOpening start (name ++ t) := by
  obtain ⟨c, rest, rfl, hc⟩ := hname.exists_cons
  have hstarts : startsTagName (c :: (rest ++ t)) = true := hc
  rw [List.cons_append, scanToken]
  · rw [if_pos hstarts]
  · rintro body heq
    rw [(List.cons.inj heq).1] at hc
    exact absurd hc (by decide)
  · rintro body heq
    rw [(List.cons.inj heq).1] at hc
    exact absurd hc (by decide)
  · rintro body heq
    rw [(List.cons.inj heq).1] at hc
    exact absurd hc (by decide)

section

variable {name : Text} {attrs : List (Text × Option Text)}

/-- A written opening tag is read as one, whatever its values. -/
theorem shapes_opening (hname : IsTagName name) (hattrs : ∀ attr ∈ attrs, IsWritten attr) (t : Text) :
    shapes ('<' :: (name ++ (attrs.flatMap attributeText ++ '>' :: t))) =
      tagShape name (reread (attrs.map nameOnly)) ::
        shapes (openingView name ((reread (attrs.map nameOnly)).1, (reread (attrs.map nameOnly)).2, t)).2 := by
  obtain ⟨htake, hdrop⟩ := hname.takeWhile_append (endsName_written attrs t)
  rw [shapes_cons, scanToken_tag hname, scanOpening_view 0 0, htake, hdrop, hname.lower,
    scanAttributes_written hattrs (Nat.le_refl _), openingView_fst]
  rfl

/-- Where no content is text, what follows the tag is read on. -/
theorem shapes_tag (hname : IsTagName name) (hattrs : ∀ attr ∈ attrs, IsWritten attr)
    (hraw : rawElements.contains name = false) (t : Text) :
    shapes ('<' :: (name ++ (attrs.flatMap attributeText ++ '>' :: t))) =
      tagShape name (reread (attrs.map nameOnly)) :: shapes t := by
  rw [shapes_opening hname hattrs]
  cases (reread (attrs.map nameOnly)).2 with
  | missing => rfl
  | selfClosed => rfl
  | closed =>
    simp only [openingView, hraw]
    split <;> rfl

/-! ## Elements with text as content -/

theorem toLower_append (a b : Text) : Text.toLower (a ++ b) = Text.toLower a ++ Text.toLower b :=
  List.map_append

theorem IsTagName.toLower_closing (hname : IsTagName name) :
    Text.toLower ('<' :: '/' :: name) = '<' :: '/' :: name := by
  show '<' :: '/' :: Text.toLower name = _
  rw [hname.lower]

/-- A closing tag that begins in a text and ends after it begins with the text, for `<` stands in it
only once. -/
theorem closing_prefix_of_append {l t : Text} (hname : IsTagName name) (hl : l ≠ [])
    (h : '<' :: '/' :: name <+: l ++ ('<' :: '/' :: name ++ t)) : '<' :: '/' :: name <+: l := by
  obtain ⟨tail, htail⟩ := h
  rcases List.append_eq_append_iff.mp htail with ⟨gap, hgap, -⟩ | ⟨q, hq, hrest⟩
  · exact ⟨gap, hgap.symm⟩
  · cases q with
    | nil => exact ⟨[], by rw [List.append_nil, hq, List.append_nil]⟩
    | cons c q =>
      obtain rfl : '<' = c := (List.cons.inj hrest).1
      obtain ⟨d, l, rfl⟩ := List.exists_cons_of_ne_nil hl
      have hmem : '<' ∈ '/' :: name := by
        rw [(List.cons.inj hq).2]
        exact List.mem_append_right _ List.mem_cons_self
      rcases List.mem_cons.mp hmem with heq | hmem
      · exact absurd heq (by decide)
      · exact absurd (hname.chars '<' hmem) (by decide)

/-- A closing tag is found again after a text that has none. -/
theorem cutFolded_append {content t : Text} (hname : IsTagName name)
    (h : cutFolded ('<' :: '/' :: name) content = none) :
    cutFolded ('<' :: '/' :: name) (content ++ ('<' :: '/' :: name ++ t)) =
      some (content, '<' :: '/' :: name ++ t) := by
  induction content with
  | nil =>
    have hfound : ('<' :: '/' :: name).isPrefixOf (Text.toLower ('<' :: ('/' :: name ++ t))) = true := by
      rw [List.isPrefixOf_iff_prefix, ← List.cons_append, toLower_append, hname.toLower_closing]
      exact List.prefix_append _ _
    rw [List.nil_append, List.cons_append, cutFolded, if_pos hfound]
  | cons c content ih =>
    rw [cutFolded] at h
    split at h
    next => cases h
    next hnot =>
      have hmissing : ¬('<' :: '/' :: name).isPrefixOf
          (Text.toLower (c :: (content ++ ('<' :: '/' :: name ++ t)))) = true := by
        rw [List.isPrefixOf_iff_prefix, ← List.cons_append, toLower_append, toLower_append,
          hname.toLower_closing]
        intro hstart
        exact hnot (List.isPrefixOf_iff_prefix.mpr
          (closing_prefix_of_append hname (List.cons_ne_nil _ _) hstart))
      rw [List.cons_append, cutFolded, if_neg hmissing, ih (Option.map_eq_none_iff.mp h)]
      rfl

theorem splitOnce_closing (hname : IsTagName name) (t : Text) :
    Text.splitOnce '>' ('<' :: '/' :: name ++ '>' :: t) = some ('<' :: '/' :: name, t) := by
  refine Text.splitOnce_append fun hmem => ?_
  rcases List.mem_cons.mp hmem with heq | hmem
  · exact absurd heq (by decide)
  · rcases List.mem_cons.mp hmem with heq | hmem
    · exact absurd heq (by decide)
    · exact absurd (hname.chars '>' hmem) (by decide)

theorem shapes_raw {content : Text} (hname : IsTagName name) (hattrs : ∀ attr ∈ attrs, IsWritten attr)
    (hraw : rawElements.contains name = true) (hvoid : isVoid name = false)
    (hclosed : (reread (attrs.map nameOnly)).2 = .closed)
    (hcontent : cutFolded ('<' :: '/' :: name) content = none) (t : Text) :
    shapes ('<' :: (name ++ (attrs.flatMap attributeText ++ '>' ::
      (content ++ '<' :: '/' :: (name ++ '>' :: t))))) =
        tagShape name (reread (attrs.map nameOnly)) :: shapes t := by
  have hrest : rawRest name (content ++ '<' :: '/' :: (name ++ '>' :: t)) = t := by
    have hsplit := splitOnce_closing hname t
    have hcut := cutFolded_append (t := '>' :: t) hname hcontent
    rw [rawRest]
    simp only [List.cons_append] at hcut hsplit
    simp only [hcut, hsplit]
    rfl
  rw [shapes_opening hname hattrs, hclosed]
  simp only [openingView, hvoid, hraw, if_true, hrest]
  rfl

end

end Sitewright.Markup
