import Sitewright.Markup.Parser
import Sitewright.Proofs.Cuts
import Sitewright.Proofs.Places
import Sitewright.Proofs.Text

/-!
Where scans go. A scan that begins where its text stands in the source ends where the rest stands. The token that it reads
takes up all bytes between, the attributes of an element lie before its content, and what is reported lies in the source
on borders of characters (`stands_scanToken`).
-/

namespace Sitewright

theorem ByteSpan.Between.mono {span : ByteSpan} {start stop start' stop' : Nat} (h : span.Between start stop)
    (hstart : start' ≤ start) (hstop : stop ≤ stop') : span.Between start' stop' :=
  ⟨Nat.le_trans hstart h.start, Nat.le_trans h.stop hstop⟩

namespace Markup

variable {stop : Nat}

/-- The spans of an attribute select its name and its value. -/
structure Attribute.Stands (source : Text) (attr : Attribute) : Prop where
  name : attr.nameSpan.Selects source attr.name
  value : Option.Rel (fun value span => ByteSpan.Selects span source value) attr.value attr.valueSpan

/-- The name and the value of an attribute lie between two offsets. -/
structure Attribute.Between (attr : Attribute) (start stop : Nat) : Prop where
  name : attr.nameSpan.Between start stop
  value : ∀ span ∈ attr.valueSpan, span.Between start stop

theorem Attribute.Between.mono {attr : Attribute} {start start' stop' : Nat} (h : attr.Between start stop)
    (hstart : start' ≤ start) (hstop : stop ≤ stop') : attr.Between start' stop' :=
  ⟨h.name.mono hstart hstop, fun span hspan => (h.value span hspan).mono hstart hstop⟩

/-- The parts of an element in its span: the attributes, then the content. -/
structure Element.LiesIn (source : Text) (element : Element) (span : ByteSpan) : Prop where
  opened : span.start ≤ element.content.start
  content : element.content.Fits source
  closed : element.content.stop ≤ span.stop
  attributes : ∀ attr ∈ element.attributes, attr.Between span.start element.content.start

/-- An element with an opening tag that begins at an offset. The name stands there, then the attributes up to the
content. -/
structure Element.OpensAt (source : Text) (element : Element) (start : Nat) : Prop where
  name : ∃ written, source.StandsAt ('<' :: written) start ∧ Text.byteSize written = Text.byteSize element.name
  opened : start ≤ element.content.start
  content : source.IsBorder element.content.start
  attributes : ∀ attr ∈ element.attributes, attr.Between start element.content.start

/-- The bytes of a token. -/
def Token.span : Token → ByteSpan
  | .text _ span | .comment _ span | .declaration _ span | .opening _ span | .complete _ span _ | .closing _ span =>
    span

/-- The spans in a token select what they are the spans of. -/
def Token.Stands (source : Text) : Token → Prop
  | .text written span => span.Selects source written
  | .opening element _ => ∀ attr ∈ element.attributes, attr.Stands source
  | .complete element _ content =>
    (∀ attr ∈ element.attributes, attr.Stands source) ∧ ∀ written ∈ content, element.content.Selects source written
  | .comment _ _ | .declaration _ _ | .closing _ _ => True

/-- The parts of the element of a token lie in its span. -/
def Token.Lies (source : Text) : Token → Prop
  | .opening element span => element.OpensAt source span.start ∧ element.content.start = span.stop
  | .complete element span _ => element.LiesIn source span
  | .text _ _ | .comment _ _ | .declaration _ _ | .closing _ _ => True

/-- The token takes up what was scanned. -/
structure Token.Fills (source : Text) (start stop : Nat) (token : Token) : Prop where
  forward : start < stop
  span : token.span = ⟨start, stop⟩
  stands : token.Stands source
  lies : token.Lies source

/-- A scan that ends where its rest stands, with problems that lie in the source. What it reads fits to where it ends. -/
structure Scan.Stands {α : Type} (source : Text) (P : Nat → α → Prop) (scan : Scan α) : Prop where
  result : P scan.stop scan.result
  problems : ∀ problem ∈ scan.problems, problem.span.Fits source
  rest : source.StandsFrom scan.rest scan.stop

variable {source body text rest : Text} {start : Nat} {c : Char}

theorem fits_of_mem_nil : ∀ problem ∈ ([] : List Problem), problem.span.Fits source :=
  fun _ hproblem => (List.not_mem_nil hproblem).elim

theorem fits_of_mem_singleton {fault : Fault} (h : start ≤ stop) (hstart : source.IsBorder start)
    (hstop : source.IsBorder stop) : ∀ problem ∈ [Problem.mk fault ⟨start, stop⟩], problem.span.Fits source :=
  List.forall_mem_singleton.mpr (ByteSpan.fits_of_isBorder h hstart hstop)

/-! ## Attributes -/

theorem utf8Size_of_isAsciiBlank (h : isAsciiBlank c = true) : c.utf8Size = 1 := by
  simp only [isAsciiBlank, Bool.or_eq_true, beq_iff_eq] at h
  rcases h with (((h | h) | h) | h) | h <;> subst h <;> decide

theorem attributeName_eq (t : Text) : (attributeName t).1 ++ (attributeName t).2 = t := by
  induction t with
  | nil => rfl
  | cons c rest ih =>
    rw [attributeName]
    split
    next => rfl
    next => exact congrArg (c :: ·) ih

theorem stands_quoted {quote : Char} (hquote : quote.utf8Size = 1) {inner : Text}
    (h : source.StandsFrom (quote :: inner) start) {value : Text}
    (hinner : inner = value ++ quote :: rest ∧ stop = start + 1 + Text.byteSize value + 1 ∨
      inner = value ∧ rest = [] ∧ stop = start + 1 + Text.byteSize value) :
    ByteSpan.Selects ⟨start + 1, start + 1 + Text.byteSize value⟩ source value ∧ source.StandsFrom rest stop := by
  have hopened : source.StandsFrom inner (start + 1) := hquote ▸ h.tail
  rcases hinner with ⟨hinner, hstop⟩ | ⟨hinner, hrest, hstop⟩
  · have hclosed : inner = (value ++ [quote]) ++ rest := by simp [hinner]
    refine ⟨⟨hopened.standsAt hinner, rfl⟩, hopened.advance hclosed ?_⟩
    simp only [hstop, Text.byteSize_append, Text.byteSize_cons, Text.byteSize_nil, hquote]
    omega
  · have hall : inner = value ++ [] := by simp [hinner]
    rw [hrest]
    exact ⟨⟨hopened.standsAt hall, rfl⟩, hopened.advance hall hstop⟩

theorem stands_scanValue (name : Text) {nameStart : Nat} (h : source.StandsFrom text start)
    (hname : source.IsBorder nameStart) (hle : nameStart ≤ start) :
    (scanValue name nameStart start text).Stands source fun stop read =>
      start ≤ stop ∧ read.2.Selects source read.1 ∧ read.2.Between start stop := by
  simp only [scanValue]
  split
  case h_1 inner | h_2 inner =>
    split
    next value rest hsplit =>
      obtain ⟨hvalue, hrest⟩ := stands_quoted (by decide) h (.inl ⟨(Text.splitOnce_eq_some hsplit).1, rfl⟩)
      refine ⟨⟨?_, hvalue, ?_, ?_⟩, fits_of_mem_nil, hrest⟩ <;> simp only <;> omega
    next =>
      obtain ⟨hvalue, hrest⟩ := stands_quoted (by decide) h (.inr ⟨rfl, rfl, rfl⟩)
      have hquote := h.tail.isBorder
      refine ⟨⟨?_, hvalue, ?_, ?_⟩, fits_of_mem_singleton (Nat.le_succ_of_le hle) hname hquote, hrest⟩ <;>
        simp only <;> omega
  case h_3 =>
    have hsplit := (List.takeWhile_append_dropWhile (p := fun c => !isAsciiBlank c && c != '>') (l := text)).symm
    exact ⟨⟨Nat.le_add_right _ _, ⟨h.standsAt hsplit, rfl⟩, Nat.le_refl _, Nat.le_refl _⟩, fits_of_mem_nil,
      h.advance hsplit rfl⟩

/-- A scan of an attribute begins at a character that is neither blank nor ends a tag, and it goes on behind it. -/
theorem stands_scanAttribute (h : source.StandsFrom (c :: rest) start) (hblank : isAsciiBlank c = false)
    (hstop : c ≠ '>') (hslash : c ≠ '/') (hopen : c ≠ '<') :
    (scanAttribute start (c :: rest)).Stands source fun stop attr =>
      start < stop ∧ ∀ written ∈ attr, written.Stands source ∧ written.Between start stop := by
  have hsplit := (attributeName_eq (c :: rest)).symm
  simp only [scanAttribute]
  split
  next hempty =>
    -- of the characters that end a name only `=` is left, and the scan goes on one byte further
    have hequals : c = '=' := by
      by_contra hne
      simp [attributeName, hblank, hstop, hslash, hopen, hne] at hempty
    subst hequals
    exact ⟨⟨Nat.lt_succ_self start, fun written hwritten => (Option.not_mem_none written hwritten).elim⟩,
      fits_of_mem_singleton (Nat.le_succ start) h.isBorder h.tail.isBorder, h.tail⟩
  next hname =>
    have hpos := Text.byteSize_pos hname
    have hselects : ByteSpan.Selects ⟨start, start + Text.byteSize (attributeName (c :: rest)).1⟩ source
        (attributeName (c :: rest)).1 := ⟨h.standsAt hsplit, rfl⟩
    have hafter := h.advance hsplit rfl
    generalize (attributeName (c :: rest)).1 = name at hpos hselects hafter ⊢
    generalize (attributeName (c :: rest)).2 = after at hafter ⊢
    split
    next valued hvalued =>
      have hequals : after = (after.takeWhile isAsciiBlank ++ ['=']) ++ valued := by
        rw [List.append_assoc, List.singleton_append, ← hvalued, List.takeWhile_append_dropWhile]
      have hgap := (List.takeWhile_append_dropWhile (p := isAsciiBlank) (l := valued)).symm
      have hbehind : source.StandsFrom valued
          (start + Text.byteSize name + Text.byteSize (after.takeWhile isAsciiBlank) + 1) :=
        hafter.advance hequals (by rw [Text.byteSize_append, ← Nat.add_assoc]; rfl)
      obtain ⟨⟨hforward, hvalue, hbetween⟩, hproblems, hrest⟩ :=
        stands_scanValue name (hbehind.advance hgap rfl) h.isBorder (by omega)
      refine ⟨⟨by simp only; omega, fun written hwritten => ?_⟩, hproblems, hrest⟩
      cases hwritten
      refine ⟨⟨hselects, .some hvalue⟩, ⟨Nat.le_refl _, by simp only; omega⟩, fun span hspan => ?_⟩
      cases hspan
      exact hbetween.mono (by omega) (Nat.le_refl _)
    next =>
      refine ⟨⟨Nat.lt_add_of_pos_right hpos, fun written hwritten => ?_⟩, fits_of_mem_nil, hafter⟩
      cases hwritten
      exact ⟨⟨hselects, .none⟩, ⟨Nat.le_refl _, Nat.le_refl _⟩, fun span hspan => (Option.not_mem_none span hspan).elim⟩

/-- Attributes that were read between two offsets. -/
def AttributesStand (source : Text) (start stop : Nat) (attributes : List Attribute) : Prop :=
  ∀ attr ∈ attributes, attr.Stands source ∧ attr.Between start stop

theorem AttributesStand.nil : AttributesStand source start stop [] :=
  fun _ hattr => (List.not_mem_nil hattr).elim

theorem AttributesStand.mono {start' stop' : Nat} {attributes : List Attribute}
    (h : AttributesStand source start stop attributes) (hstart : start' ≤ start) (hstop : stop ≤ stop') :
    AttributesStand source start' stop' attributes :=
  fun attr hattr => ⟨(h attr hattr).1, (h attr hattr).2.mono hstart hstop⟩

theorem stands_scanAttributes (rounds : Nat) (h : source.StandsFrom text start) :
    (scanAttributes rounds start text).Stands source fun stop read =>
      start ≤ stop ∧ AttributesStand source start stop read.1 := by
  induction rounds generalizing start text with
  | zero => exact ⟨⟨Nat.le_refl _, .nil⟩, fits_of_mem_nil, h⟩
  | succ rounds ih =>
    -- a character of one byte that belongs to no attribute
    have hskip {c : Char} {rest : Text} (h : source.StandsFrom (c :: rest) start) (hsize : c.utf8Size = 1) :
        (scanAttributes rounds (start + 1) rest).Stands source fun stop read =>
          start ≤ stop ∧ AttributesStand source start stop read.1 := by
      obtain ⟨⟨hforward, hattributes⟩, hproblems, hrest⟩ := ih (hsize ▸ h.tail)
      exact ⟨⟨Nat.le_of_succ_le hforward, hattributes.mono (Nat.le_succ start) (Nat.le_refl _)⟩, hproblems, hrest⟩
    cases text with
    | nil => exact ⟨⟨Nat.le_refl _, .nil⟩, fits_of_mem_nil, h⟩
    | cons c rest =>
      unfold scanAttributes
      split
      next hblank => exact hskip h (utf8Size_of_isAsciiBlank hblank)
      next hblank =>
        split
        next hclose =>
          subst hclose
          exact ⟨⟨Nat.le_succ start, .nil⟩, fits_of_mem_nil, h.tail⟩
        next hclose =>
          split
          next hslash =>
            subst hslash
            split
            next after => exact ⟨⟨Nat.le_add_right start 2, .nil⟩, fits_of_mem_nil, h.tail.tail⟩
            next => exact hskip h rfl
          next hslash =>
            split
            next => exact ⟨⟨Nat.le_refl _, .nil⟩, fits_of_mem_nil, h⟩
            next hopen =>
              obtain ⟨⟨hforward, hfirst⟩, hproblems, hrest⟩ :=
                stands_scanAttribute h (Bool.eq_false_iff.mpr hblank) hclose hslash hopen
              obtain ⟨⟨hforward', hothers⟩, hproblems', hrest'⟩ := ih hrest
              have hone : AttributesStand source start _ _ := fun attr hattr => hfirst attr (Option.mem_toList.mp hattr)
              exact ⟨⟨Nat.le_trans (Nat.le_of_lt hforward) hforward', List.forall_mem_append.mpr
                ⟨hone.mono (Nat.le_refl _) hforward', hothers.mono (Nat.le_of_lt hforward) (Nat.le_refl _)⟩⟩,
                List.forall_mem_append.mpr ⟨hproblems, hproblems'⟩, hrest'⟩

/-! ## Tokens -/

theorem textUntilMarkup_eq (t : Text) : (textUntilMarkup t).1 ++ (textUntilMarkup t).2 = t := by
  induction t with
  | nil => rfl
  | cons c rest ih =>
    rw [textUntilMarkup]
    split
    next => rfl
    next => exact congrArg (c :: ·) ih

theorem stands_scanText (h : source.StandsFrom (c :: rest) start) :
    (scanText start c rest).Stands source (Token.Fills source start) := by
  have hsplit : c :: rest = (c :: (textUntilMarkup rest).1) ++ (textUntilMarkup rest).2 := by
    rw [List.cons_append, textUntilMarkup_eq]
  have hpos := Text.byteSize_pos (List.cons_ne_nil c (textUntilMarkup rest).1)
  exact ⟨⟨Nat.lt_add_of_pos_right hpos, rfl, ⟨h.standsAt hsplit, rfl⟩, trivial⟩, fits_of_mem_nil, h.advance hsplit rfl⟩

theorem stands_scanComment (hstart : source.IsBorder start) (h : source.StandsFrom body (start + 4)) :
    (scanComment start body).Stands source (Token.Fills source start) := by
  unfold scanComment
  split
  next text rest hcut =>
    refine ⟨⟨by simp only; omega, rfl, trivial, trivial⟩, fits_of_mem_nil, h.advance (Text.cut_eq_some hcut) ?_⟩
    rw [Text.byteSize_append, ← Nat.add_assoc]
    rfl
  next =>
    exact ⟨⟨by simp only; omega, rfl, trivial, trivial⟩,
      fits_of_mem_singleton (Nat.le_add_right start 4) hstart h.isBorder, h.advance (List.append_nil body).symm rfl⟩

/-- The text up to and with a mark of one byte, or all text. -/
theorem standsFrom_splitOnce {mark : Char} (hmark : mark.utf8Size = 1) (h : source.StandsFrom body start)
    {before : Text} (hsplit : Text.splitOnce mark body = some (before, rest)) :
    source.StandsFrom rest (start + Text.byteSize before + 1) := by
  have hbody : body = (before ++ [mark]) ++ rest := by simp [(Text.splitOnce_eq_some hsplit).1]
  refine h.advance hbody ?_
  simp only [Text.byteSize_append, Text.byteSize_cons, Text.byteSize_nil, hmark]
  omega

theorem stands_scanDeclaration (hstart : source.IsBorder start) (h : source.StandsFrom body (start + 2)) :
    (scanDeclaration start body).Stands source (Token.Fills source start) := by
  unfold scanDeclaration
  split
  next text rest hsplit =>
    exact ⟨⟨by simp only; omega, rfl, trivial, trivial⟩, fits_of_mem_nil, standsFrom_splitOnce (by decide) h hsplit⟩
  next =>
    exact ⟨⟨by simp only; omega, rfl, trivial, trivial⟩,
      fits_of_mem_singleton (Nat.le_add_right start 2) hstart h.isBorder, h.advance (List.append_nil body).symm rfl⟩

theorem stands_scanClosing (hstart : source.IsBorder start) (h : source.StandsFrom body (start + 2)) :
    (scanClosing start body).Stands source (Token.Fills source start) := by
  have hafter := h.advance (List.takeWhile_append_dropWhile (p := isTagChar) (l := body)).symm rfl
  simp only [scanClosing]
  split
  next skipped rest hsplit =>
    exact ⟨⟨by simp only; omega, rfl, trivial, trivial⟩, fits_of_mem_nil, standsFrom_splitOnce (by decide) hafter hsplit⟩
  next =>
    exact ⟨⟨by simp only; omega, rfl, trivial, trivial⟩, fits_of_mem_singleton (by omega) hstart hafter.isBorder,
      hafter.advance (List.append_nil _).symm rfl⟩

theorem cutFolded_eq_some {phrase t before after : Text} (h : cutFolded phrase t = some (before, after)) :
    t = before ++ after := by
  induction t generalizing before with
  | nil =>
    rw [cutFolded] at h
    split at h <;> cases h
    rfl
  | cons c rest ih =>
    rw [cutFolded] at h
    split at h
    next => cases h; rfl
    next =>
      obtain ⟨⟨first, second⟩, hrest, heq⟩ := Option.map_eq_some_iff.mp h
      cases heq
      rw [ih hrest]
      rfl

theorem stands_scanRaw {element : Element} {span : ByteSpan}
    (hattributes : AttributesStand source span.start span.stop element.attributes) (hspan : span.start < span.stop)
    (hstart : source.IsBorder span.start) (h : source.StandsFrom body span.stop) :
    (scanRaw element span body).Stands source (Token.Fills source span.start) := by
  have hdone {text rest : Text} (hbody : body = text ++ rest) {stop : Nat}
      (hstop : span.stop + Text.byteSize text ≤ stop) {problems : List Problem}
      (hproblems : ∀ problem ∈ problems, problem.span.Fits source) {after : Text} (hafter : source.StandsFrom after stop) :
      Scan.Stands source (Token.Fills source span.start)
        ⟨.complete { element with content := ⟨span.stop, span.stop + Text.byteSize text⟩ } ⟨span.start, stop⟩
          (if text = [] then none else some text), problems, after, stop⟩ := by
    refine ⟨⟨by simp only; omega, rfl, ⟨fun attr hattr => (hattributes attr hattr).1, fun written hwritten => ?_⟩,
      Nat.le_of_lt hspan, ?_, hstop, fun attr hattr => (hattributes attr hattr).2⟩, hproblems, hafter⟩
    · split at hwritten
      next => cases hwritten
      next =>
        cases hwritten
        exact ⟨h.standsAt hbody, rfl⟩
    · exact ByteSpan.fits_of_isBorder (Nat.le_add_right _ _) h.isBorder (h.advance hbody rfl).isBorder
  simp only [scanRaw]
  split
  next text closing hcut =>
    have hbody := cutFolded_eq_some hcut
    have hclosing := h.advance hbody rfl
    split
    next skipped rest hsplit =>
      exact hdone hbody (by omega) fits_of_mem_nil (standsFrom_splitOnce (by decide) hclosing hsplit)
    next => exact hdone hbody (by omega) fits_of_mem_nil (hclosing.advance (List.append_nil closing).symm rfl)
  next =>
    have hbody := (List.append_nil body).symm
    exact hdone hbody (Nat.le_refl _) (fits_of_mem_singleton (Nat.le_of_lt hspan) hstart h.isBorder)
      (h.advance hbody rfl)

theorem toLower_cases (c : Char) : c.toLower = c ∨ (c.isUpper = true ∧ c.toLower.isLower = true) := by
  by_cases hupper : c.isUpper = true
  · right
    obtain ⟨hlow, hhigh⟩ := isUpper_iff.mp hupper
    have hadd : (c.val + ('a'.val - 'A'.val)).toNat = c.toNat + 32 := by
      have h32 : ('a'.val - 'A'.val).toNat = 32 := by decide
      have hval : c.val.toNat = c.toNat := rfl
      rw [UInt32.toNat_add, h32, hval, Nat.mod_eq_of_lt (by omega)]
    have hlower : c.toLower.val = c.val + ('a'.val - 'A'.val) :=
      congrArg Char.val (dif_pos (show 'A'.val ≤ c.val ∧ c.val ≤ 'Z'.val from ⟨hlow, hhigh⟩))
    have hnat : c.toLower.toNat = c.toNat + 32 := by
      rw [← hadd, ← hlower]
      rfl
    refine ⟨hupper, isLower_iff.mpr ?_⟩
    rw [hnat]
    omega
  · left
    refine dif_neg fun h => hupper ?_
    exact isUpper_iff.mpr h

theorem byteSize_toLower (t : Text) : Text.byteSize (Text.toLower t) = Text.byteSize t := by
  have hchar (c : Char) : c.toLower.utf8Size = c.utf8Size := by
    rcases toLower_cases c with heq | ⟨hupper, hlower⟩
    · rw [heq]
    · have hsmall {d : Char} (hd : d.toNat ≤ 127) : d.utf8Size = 1 := Char.utf8Size_eq_one_iff.mpr hd
      have hhigh := (isUpper_iff.mp hupper).2
      have hhigh' := (isLower_iff.mp hlower).2
      rw [hsmall (Nat.le_trans hhigh (by decide)), hsmall (Nat.le_trans hhigh' (by decide))]
  induction t with
  | nil => rfl
  | cons c rest ih =>
    rw [Text.toLower, List.map_cons, Text.byteSize_cons, Text.byteSize_cons, hchar]
    exact congrArg _ ih

theorem stands_scanOpening (h : source.StandsFrom ('<' :: body) start) :
    (scanOpening start body).Stands source (Token.Fills source start) := by
  have hbody := (List.takeWhile_append_dropWhile (p := isTagChar) (l := body)).symm
  have hafter : source.StandsFrom (body.dropWhile isTagChar)
      (start + 1 + Text.byteSize (body.takeWhile isTagChar)) := h.tail.advance hbody rfl
  obtain ⟨⟨hforward, hattributes⟩, hproblems, hrest⟩ := stands_scanAttributes (body.dropWhile isTagChar).length hafter
  have hname : source.StandsAt ('<' :: body.takeWhile isTagChar) start :=
    h.standsAt (by rw [List.cons_append, ← hbody])
  have hlower := byteSize_toLower (body.takeWhile isTagChar)
  simp only [scanOpening]
  generalize body.takeWhile isTagChar = written at *
  generalize body.dropWhile isTagChar = after at *
  generalize scanAttributes after.length (start + 1 + Text.byteSize written) after = tail at *
  obtain ⟨⟨attributes, ending⟩, problems, rest, stop⟩ := tail
  simp only at hproblems hforward hrest
  have hlt : start < stop := by omega
  have hwide : AttributesStand source start stop attributes := hattributes.mono (by omega) (Nat.le_refl _)
  have hselects : ∀ attr ∈ attributes, attr.Stands source := fun attr hattr => (hwide attr hattr).1
  have hbetween : ∀ attr ∈ attributes, attr.Between start stop := fun attr hattr => (hwide attr hattr).2
  have hempty (name : Text) (selfClosing : Bool) :
      Token.Fills source start stop (.complete ⟨name, attributes, selfClosing, ⟨stop, stop⟩⟩ ⟨start, stop⟩ none) :=
    ⟨hlt, rfl, ⟨hselects, fun written hwritten => (Option.not_mem_none written hwritten).elim⟩, Nat.le_of_lt hlt,
      ByteSpan.fits_of_isBorder (Nat.le_refl _) hrest.isBorder hrest.isBorder, Nat.le_refl _, hbetween⟩
  cases ending with
  | missing =>
    refine ⟨hempty _ _, List.forall_mem_append.mpr ⟨hproblems, ?_⟩, hrest⟩
    exact fits_of_mem_singleton (by omega) h.isBorder hafter.isBorder
  | selfClosed => exact ⟨hempty _ _, hproblems, hrest⟩
  | closed =>
    simp only
    split
    next => exact ⟨hempty _ _, hproblems, hrest⟩
    next =>
      split
      next =>
        obtain ⟨hfills, hproblems', hrest'⟩ :=
          @stands_scanRaw source rest ⟨Text.toLower written, attributes, false, ⟨stop, stop⟩⟩ ⟨start, stop⟩ hwide hlt
            h.isBorder hrest
        exact ⟨hfills, List.forall_mem_append.mpr ⟨hproblems, hproblems'⟩, hrest'⟩
      next =>
        exact ⟨⟨hlt, rfl, hselects, ⟨⟨written, hname, hlower.symm⟩, Nat.le_of_lt hlt, hrest.isBorder, hbetween⟩, rfl⟩,
          hproblems, hrest⟩

theorem stands_scanToken (h : source.StandsFrom (c :: rest) start) :
    (scanToken start c rest).Stands source (Token.Fills source start) := by
  unfold scanToken
  split
  next body => exact stands_scanComment h.isBorder h.tail.tail.tail.tail
  next body _ => exact stands_scanDeclaration h.isBorder h.tail.tail
  next body =>
    split
    next => exact stands_scanClosing h.isBorder h.tail.tail
    next => exact stands_scanText h
  next =>
    split
    next => exact stands_scanOpening h
    next => exact stands_scanText h
  next => exact stands_scanText h

end Markup

end Sitewright
