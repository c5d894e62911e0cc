import Sitewright.Proofs.Cuts
import Sitewright.Proofs.Expression.Grammar
import Sitewright.Proofs.Text
import Sitewright.Template.Tag

/-!
How a text is cut at its tags. `Scanned` follows the cursor: it stops for good where no tag is opened or the opened one is
never closed, and otherwise goes on after the tag. By induction on it the tags and the pieces between them stand in the
text one after the other, and no piece opens a tag (`scanTags_partitions`).
-/

namespace Sitewright

variable {text : Text}

/-- A text that begins at a byte, and how it is cut. -/
inductive Scanned : Nat → Text → TagScan → Prop
  | plain {start : Nat} {text : Text} (hopen : Text.cut openMark text = none) : Scanned start text ⟨[], text, none⟩
  | unclosed {start : Nat} {text before after : Text} (hopen : Text.cut openMark text = some (before, after))
      (hclose : Text.cut closeMark after = none) :
    Scanned start text ⟨[], text, some (start + Text.byteSize before)⟩
  | tag {start : Nat} {text before after body rest : Text} {others : TagScan}
      (hopen : Text.cut openMark text = some (before, after)) (hclose : Text.cut closeMark after = some (body, rest))
      (hrest : Scanned (Tag.ofBody (start + Text.byteSize before) body).span.stop rest others) :
    Scanned start text
      { others with pieces := (before, Tag.ofBody (start + Text.byteSize before) body) :: others.pieces }

/-- As many rounds as there are characters are enough. -/
theorem scanned_scanTagsFrom (start : Nat) {rounds : Nat} (h : text.length ≤ rounds) :
    Scanned start text (scanTagsFrom rounds start text) := by
  induction rounds generalizing start text with
  | zero =>
    obtain rfl := List.eq_nil_of_length_eq_zero (Nat.le_zero.mp h)
    exact .plain rfl
  | succ rounds ih =>
    simp only [scanTagsFrom]
    split
    next hopen => exact .plain hopen
    next before after hopen =>
      split
      next hclose => exact .unclosed hopen hclose
      next body rest hclose =>
        have htext := congrArg List.length (Text.cut_eq_some hopen)
        have hafter := congrArg List.length (Text.cut_eq_some hclose)
        simp only [List.length_append, openMark, closeMark, List.length_cons] at htext hafter
        exact .tag hopen hclose (ih _ (by omega))

theorem scanned_scanTags (text : Text) : Scanned 0 text (scanTags text) :=
  scanned_scanTagsFrom 0 (Nat.le_refl _)

/-! ## One tag -/

/-- The text has a tag where the tag says. It ends at the first `}}`, and what is refused in it lies in it. -/
structure Tag.Stands (text : Text) (tag : Tag) : Prop where
  selects : tag.span.Selects text (openMark ++ tag.body ++ closeMark)
  closed : ∀ i < tag.body.length, ¬closeMark <+: (tag.body ++ closeMark).drop i
  expression : tag.expressionSpan.Selects text (Text.trim tag.body)
  read : ∀ expression, tag.expression = .ok expression → Expression.parseLookup (Text.trim tag.body) = .ok expression
  refused : ∀ error, tag.expression = .error error →
    error.span.start ≤ error.span.stop ∧ error.span.Between tag.span.start tag.span.stop

theorem Expression.fits_of_parseLookup {error : ParseError} (h : parseLookup text = .error error) :
    error.span.Fits text := by
  rw [parseLookup] at h
  split at h
  next herror =>
    cases h
    exact fits_of_parse herror
  next =>
    split at h
    · cases h
    · cases h
      exact ByteSpan.fits_whole text

theorem Tag.stands_ofBody {start : Nat} {body rest : Text}
    (h : text.StandsFrom (openMark ++ body ++ closeMark ++ rest) start)
    (hclosed : ∀ i < body.length, ¬closeMark <+: (body ++ closeMark ++ rest).drop i) :
    (Tag.ofBody start body).Stands text := by
  obtain ⟨blanks, -, hblanks⟩ := Text.exists_trimEnd (Text.trimStart body)
  have hbody : body = body.takeWhile isBlank ++ (Text.trim body ++ blanks) := by
    rw [Text.trim, ← hblanks, Text.trimStart, List.takeWhile_append_dropWhile]
  constructor
  case selects =>
    refine ⟨h.standsAt rfl, ?_⟩
    have hmark : Text.byteSize openMark = 2 ∧ Text.byteSize closeMark = 2 := ⟨rfl, rfl⟩
    simp only [Tag.ofBody, Text.byteSize_append, hmark]
    omega
  case closed =>
    intro i hi hfound
    have hle : i ≤ (body ++ closeMark).length := by
      rw [List.length_append]
      exact Nat.le_add_right_of_le (Nat.le_of_lt hi)
    refine hclosed i hi (hfound.trans ?_)
    rw [List.drop_append_of_le_length hle]
    exact List.prefix_append _ _
  case expression =>
    rw [List.append_assoc, List.append_assoc] at h
    have hname := h.advance rfl rfl
    nth_rewrite 1 [hbody] at hname
    rw [List.append_assoc] at hname
    exact ⟨(hname.advance rfl rfl).standsAt (List.append_assoc _ _ _), rfl⟩
  case read =>
    intro expression hok
    simp only [Tag.ofBody] at hok
    split at hok
    next hread =>
      cases hok
      exact hread
    next => cases hok
  case refused =>
    intro error herror
    simp only [Tag.ofBody] at herror
    split at herror
    next => cases herror
    next hread =>
      cases herror
      have hordered := (Expression.fits_of_parseLookup hread).ordered
      have hbounded := (Expression.fits_of_parseLookup hread).bounded
      have hsize := congrArg Text.byteSize hbody
      simp only [Text.byteSize_append] at hsize
      refine ⟨?_, ?_, ?_⟩ <;> simp only [Tag.ofBody, ByteSpan.shift] <;> omega

/-! ## All tags -/

/-- Every piece stands in the text between the tags around it, and the tail after the last one. -/
def Text.Lays (text : Text) : Nat → List (Text × Tag) → Text → Prop
  | start, [], tail => text.StandsFrom tail start
  | start, (before, tag) :: pieces, tail =>
    ByteSpan.Selects ⟨start, tag.span.start⟩ text before ∧ text.Lays tag.span.stop pieces tail

/-- What is found in the text from a byte on. -/
structure TagScan.Covers (scan : TagScan) (text : Text) (start : Nat) : Prop where
  stands : ∀ tag ∈ scan.tags, tag.Stands text
  later : ∀ tag ∈ scan.tags, start ≤ tag.span.start
  increasing : scan.tags.Pairwise fun tag next => tag.span.stop ≤ next.span.start
  lays : text.Lays start scan.pieces scan.tail
  literal : ∀ piece ∈ scan.pieces, ¬openMark <:+: piece.1
  unterminated : scan.unterminated = none ∧ ¬openMark <:+: scan.tail ∨
    ∃ place before after, scan.unterminated = some place ∧ Text.cut openMark scan.tail = some (before, after) ∧
      text.StandsFrom (openMark ++ after) place

variable {scan : TagScan} {start : Nat} {rest : Text}

theorem not_infix_of_cut (h : Text.cut openMark text = none) : ¬openMark <:+: text :=
  (Text.cut_eq_none_iff (by decide)).mp h

theorem Scanned.covers (h : Scanned start rest scan) (hstands : text.StandsFrom rest start) : scan.Covers text start := by
  have hnone {P : Tag → Prop} : ∀ tag ∈ ([] : List Tag), P tag := fun _ htag => (List.not_mem_nil htag).elim
  have hpieces : ∀ piece ∈ ([] : List (Text × Tag)), ¬openMark <:+: piece.1 :=
    fun _ hpiece => (List.not_mem_nil hpiece).elim
  induction h with
  | plain hopen => exact ⟨hnone, hnone, .nil, hstands, hpieces, .inl ⟨rfl, not_infix_of_cut hopen⟩⟩
  | unclosed hopen _ =>
    have hplace := hstands.advance ((Text.cut_eq_some hopen).trans (List.append_assoc _ _ _)) rfl
    exact ⟨hnone, hnone, .nil, hstands, hpieces, .inr ⟨_, _, _, rfl, hopen, hplace⟩⟩
  | @tag start rest before after body others _ hopen hclose _ ih =>
    have hrest : rest = before ++ (openMark ++ body ++ closeMark ++ others) := by
      rw [Text.cut_eq_some hopen, Text.cut_eq_some hclose]
      simp only [List.append_assoc]
    have hplace := hstands.advance hrest rfl
    have htag : (Tag.ofBody (start + Text.byteSize before) body).Stands text := by
      refine Tag.stands_ofBody hplace fun i hi => ?_
      rw [← Text.cut_eq_some hclose]
      exact Text.not_prefix_drop_of_cut hclose hi
    have hothers := ih (hplace.advance rfl htag.selects.stop)
    have hstop := htag.selects.fits.ordered
    constructor
    case stands => exact List.forall_mem_cons.mpr ⟨htag, hothers.stands⟩
    case later =>
      have hstart : start ≤ start + Text.byteSize before := Nat.le_add_right _ _
      exact List.forall_mem_cons.mpr ⟨hstart, fun tag htag =>
        Nat.le_trans hstart (Nat.le_trans hstop (hothers.later tag htag))⟩
    case increasing => exact .cons hothers.later hothers.increasing
    case lays => exact ⟨⟨hstands.standsAt hrest, rfl⟩, hothers.lays⟩
    case literal =>
      have hbefore := not_infix_of_cut (Text.cut_before_eq_none (by decide) hopen)
      exact List.forall_mem_cons.mpr ⟨hbefore, hothers.literal⟩
    case unterminated => exact hothers.unterminated

theorem covers_scanTags (text : Text) : (scanTags text).Covers text 0 :=
  (scanned_scanTags text).covers text.standsFrom_zero

/-- What a tag of a text holds stands in the text where the tag says, and the name in it was read from there. -/
theorem of_mem_tags {tag : Tag} {expression : Expression} (hmem : tag ∈ (scanTags text).tags)
    (h : tag.expression = .ok expression) :
    ∃ name, Expression.parseLookup name = .ok expression ∧ tag.expressionSpan.Selects text name := by
  have hstands := (covers_scanTags text).stands tag hmem
  exact ⟨Text.trim tag.body, hstands.read expression h, hstands.expression⟩

theorem Scanned.substitute_eq (h : Scanned start rest scan) :
    scan.substitute id (fun tag => openMark ++ tag.body ++ closeMark) = rest := by
  induction h with
  | plain | unclosed => rfl
  | @tag start rest before after body others scan hopen hclose _ ih =>
    rw [Text.cut_eq_some hopen, Text.cut_eq_some hclose, ← ih]
    simp [TagScan.substitute, Tag.ofBody]

theorem Scanned.hasTag_iff (h : Scanned start text scan) :
    hasTag text = true ↔ scan.tags ≠ [] ∨ scan.unterminated.isSome = true := by
  cases h with
  | plain hopen | unclosed hopen _ | tag hopen _ _ => simp [hasTag, Text.holds, hopen, TagScan.tags]

/-- The tags are in order and apart from each other, each from `{{` to the first `}}` after it. The pieces between them hold
no `{{`, and the tail does only if its first one is reported. So nothing of the text is lost or read twice. -/
theorem scanTags_partitions (text : Text) :
    (∀ tag ∈ (scanTags text).tags, tag.span.Fits text ∧ tag.Stands text) ∧
      ((scanTags text).tags.Pairwise fun tag next => tag.span.stop ≤ next.span.start) ∧
      text.Lays 0 (scanTags text).pieces (scanTags text).tail ∧
      (∀ piece ∈ (scanTags text).pieces, ¬openMark <:+: piece.1) ∧
      (openMark <:+: (scanTags text).tail ↔ (scanTags text).unterminated.isSome = true) ∧
      (∀ place ∈ (scanTags text).unterminated, ∃ before after,
        (scanTags text).tail = before ++ openMark ++ after ∧
          (∀ i < before.length, ¬openMark <+: (scanTags text).tail.drop i) ∧
          text.StandsFrom (openMark ++ after) place) ∧
      (hasTag text = true ↔ (scanTags text).tags ≠ [] ∨ (scanTags text).unterminated.isSome = true) ∧
      (scanTags text).substitute id (fun tag => text.slice (text.charRange tag.span)) = text := by
  have hscanned := scanned_scanTags text
  have hcovers := covers_scanTags text
  refine ⟨fun tag htag => ?_, hcovers.increasing, hcovers.lays, hcovers.literal, ?_, ?_, hscanned.hasTag_iff, ?_⟩
  · exact ⟨(hcovers.stands tag htag).selects.fits, hcovers.stands tag htag⟩
  · rcases hcovers.unterminated with ⟨hnone, htail⟩ | ⟨place, before, after, hplace, hcut, -⟩
    · simp [hnone, htail]
    · simp only [hplace, Option.isSome_some, iff_true]
      exact ⟨before, after, (Text.cut_eq_some hcut).symm⟩
  · intro place hplace
    rcases hcovers.unterminated with ⟨hnone, -⟩ | ⟨_, before, after, hsome, hcut, hstands⟩
    · rw [hnone] at hplace
      cases hplace
    · obtain rfl := Option.some.inj (hsome.symm.trans hplace)
      exact ⟨before, after, Text.cut_eq_some hcut, fun i hi => Text.not_prefix_drop_of_cut hcut hi, hstands⟩
  · refine Eq.trans ?_ hscanned.substitute_eq
    refine congrArg (· ++ _) (List.flatMap_congr fun piece hpiece => ?_)
    have hstands := hcovers.stands piece.2 (List.mem_map_of_mem hpiece)
    exact congrArg (_ ++ ·) hstands.selects.slice_charRange

end Sitewright
