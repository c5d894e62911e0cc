import Sitewright.Markup.Document
import Sitewright.Proofs.Markup.Extent
import Sitewright.Proofs.Markup.Spans

/-!
Nodes lie in the source as they stand in the forest: those of one level one after another, and what stands below an element
inside of its content (`Laid`). While a source is read, the ends of open elements are not known. What was read inside of one
ends where the next one begins, and for the innermost at the place that was reached (`Stacked`); closing an element at a
later place keeps that (`Lies.close`), and so does every token (`Lies.step`).
-/

namespace Sitewright.Markup

variable {source : Text}

/-- Nodes one after another between two offsets. What stands below an element lies in its content, and there is nothing
below other nodes. -/
def Laid (source : Text) : Nat → Nat → Forest Node → Prop
  | start, stop, .nil => start ≤ stop
  | start, stop, .cons node below after =>
    start ≤ node.span.start ∧ node.span.Fits source ∧
      (match node.kind with
        | .element element =>
          element.LiesIn source node.span ∧ Laid source element.content.start element.content.stop below
        | .text _ | .comment _ | .declaration _ => below = .nil) ∧
      Laid source node.span.stop stop after

namespace Laid

variable {forest : Forest Node} {start stop : Nat}

theorem le (h : Laid source start stop forest) : start ≤ stop := by
  induction forest generalizing start with
  | nil => exact h
  | cons node below after _ ih => exact Nat.le_trans h.1 (Nat.le_trans h.2.1.ordered (ih h.2.2.2))

theorem mono {stop' : Nat} (h : Laid source start stop forest) (hstop : stop ≤ stop') :
    Laid source start stop' forest := by
  induction forest generalizing start with
  | nil => exact Nat.le_trans h hstop
  | cons node below after _ ih => exact ⟨h.1, h.2.1, h.2.2.1, ih h.2.2.2⟩

theorem append {middle : Nat} {f g : Forest Node} (hf : Laid source start middle f)
    (hg : Laid source middle stop g) : Laid source start stop (f ++ g) := by
  induction f generalizing start with
  | nil =>
    cases g with
    | nil => exact Nat.le_trans hf hg
    | cons node below after => exact ⟨Nat.le_trans hf hg.1, hg.2⟩
  | cons node below after _ ih => exact ⟨hf.1, hf.2.1, hf.2.2.1, ih hf.2.2.2⟩

theorem fits_of_mem (h : Laid source start stop forest) {node : Node}
    (hnode : node ∈ forest.preorder) : node.span.Fits source := by
  induction forest generalizing start stop with
  | nil => cases hnode
  | cons first below after ihbelow ihafter =>
    obtain ⟨-, hfits, hbelow, hafter⟩ := h
    simp only [Forest.preorder, List.mem_cons, List.mem_append] at hnode
    rcases hnode with rfl | hnode | hnode
    · exact hfits
    · split at hbelow
      next => exact ihbelow hbelow.2 hnode
      all_goals
        rw [hbelow] at hnode
        cases hnode
    · exact ihafter hafter hnode

/-- One node by itself. -/
theorem leaf {kind : NodeKind} {span : ByteSpan} (hspan : span.Fits source)
    (hkind : ∀ element, kind = .element element → element.LiesIn source span) :
    Laid source span.start span.stop (.tree ⟨kind, span, false⟩ .nil) := by
  refine ⟨Nat.le_refl _, hspan, ?_, Nat.le_refl _⟩
  cases kind with
  | element element => exact ⟨hkind element rfl, (hkind element rfl).content.ordered⟩
  | text | comment | declaration => rfl

end Laid

/-! ## Open elements -/

theorem Element.OpensAt.start {element : Element} {start : Nat} (h : element.OpensAt source start) :
    source.IsBorder start := by
  obtain ⟨written, ⟨before, after, htext, hbefore⟩, -⟩ := h.name
  exact ⟨_, before, by rw [htext, List.append_assoc], hbefore⟩

/-- The problem with an element that is not closed is about its name. -/
theorem Element.OpensAt.unclosed {opened : OpenElement} (h : opened.element.OpensAt source opened.start) :
    ∀ problem ∈ Building.unclosed opened, problem.span.Fits source := by
  rw [Building.unclosed]
  split
  next => exact fits_of_mem_nil
  next =>
    obtain ⟨written, ⟨before, after, htext, hbefore⟩, hsize⟩ := h.name
    refine fits_of_mem_singleton (by omega) h.start ⟨after, before ++ '<' :: written, htext, ?_⟩
    rw [Text.byteSize_append, Text.byteSize_cons, hbefore, hsize]
    show opened.start + (1 + _) = _
    omega

/-- The complete nodes at the top level and the open elements, innermost first, up to some offset. -/
def Stacked (source : Text) (top : Forest Node) : Nat → List OpenElement → Prop
  | stop, [] => Laid source 0 stop top
  | stop, opened :: outer =>
    opened.element.OpensAt source opened.start ∧
      Laid source opened.element.content.start stop opened.inside ∧ Stacked source top opened.start outer

namespace Stacked

variable {top : Forest Node}

theorem mono {stop stop' : Nat} {elements : List OpenElement} (h : Stacked source top stop elements)
    (hstop : stop ≤ stop') : Stacked source top stop' elements := by
  cases elements with
  | nil => exact Laid.mono h hstop
  | cons opened outer => exact ⟨h.1, h.2.1.mono hstop, h.2.2⟩

theorem laid_top {stop : Nat} {elements : List OpenElement} (h : Stacked source top stop elements) :
    Laid source 0 stop top := by
  induction elements generalizing stop with
  | nil => exact h
  | cons opened outer ih =>
    obtain ⟨hopened, hinside, houter⟩ := h
    exact (ih houter).mono (Nat.le_trans hopened.opened hinside.le)

end Stacked

namespace Building

/-- All that was read lies in the source before some offset. -/
structure Lies (source : Text) (stop : Nat) (building : Building) : Prop where
  stacked : Stacked source building.top stop building.elements
  problems : ∀ problem ∈ building.problems, problem.span.Fits source

namespace Lies

variable {building : Building} {start stop : Nat}

theorem mono (h : building.Lies source start) (hstop : start ≤ stop) : building.Lies source stop :=
  ⟨h.stacked.mono hstop, h.problems⟩

theorem report (h : building.Lies source start) {problems : List Problem}
    (hproblems : ∀ problem ∈ problems, problem.span.Fits source) : (building.report problems).Lies source start :=
  ⟨h.stacked, List.forall_mem_append.mpr ⟨h.problems, hproblems⟩⟩

theorem attach (h : building.Lies source start) {nodes : Forest Node} (hnodes : Laid source start stop nodes) :
    (building.attach nodes).Lies source stop := by
  obtain ⟨top, elements, problems⟩ := building
  obtain ⟨hstacked, hproblems⟩ := h
  cases elements with
  | nil => exact ⟨Laid.append hstacked hnodes, hproblems⟩
  | cons inner outer => exact ⟨⟨hstacked.1, hstacked.2.1.append hnodes, hstacked.2.2⟩, hproblems⟩

/-- An element is closed behind all that was read. -/
theorem close (h : building.Lies source start) {contentStop : Nat} (hcontent : start ≤ contentStop)
    (hborder : source.IsBorder contentStop) (hle : contentStop ≤ stop) (hstop : source.IsBorder stop) :
    (building.close contentStop stop).Lies source stop := by
  obtain ⟨top, elements, problems⟩ := building
  obtain ⟨hstacked, hproblems⟩ := h
  cases elements with
  | nil => exact ⟨hstacked.mono (Nat.le_trans hcontent hle), hproblems⟩
  | cons inner outer =>
    obtain ⟨hopened, hinside, houter⟩ := hstacked
    have hinner : Laid source inner.element.content.start contentStop inner.inside := hinside.mono hcontent
    have hspan : ByteSpan.Fits ⟨inner.start, stop⟩ source :=
      ByteSpan.fits_of_isBorder (Nat.le_trans hopened.opened (Nat.le_trans hinner.le hle)) hopened.start hstop
    have hrest : Lies source inner.start ⟨top, outer, problems⟩ := ⟨houter, hproblems⟩
    refine hrest.attach ⟨Nat.le_refl _, hspan, ⟨⟨hopened.opened, ?_, hle, hopened.attributes⟩, hinner⟩, Nat.le_refl _⟩
    exact ByteSpan.fits_of_isBorder hinner.le hopened.content hborder

theorem closeImplicitly (h : building.Lies source start) (hle : start ≤ stop) (hstop : source.IsBorder stop) :
    (closeImplicitly stop building).Lies source stop := by
  rw [Building.closeImplicitly]
  split
  next => exact h.mono hle
  next inner outer heq =>
    have hstacked := h.stacked
    rw [heq] at hstacked
    exact (h.close hle hstop (Nat.le_refl _) hstop).report hstacked.1.unclosed

theorem closeMany (h : building.Lies source start) (hle : start ≤ stop) (hstop : source.IsBorder stop) (count : Nat) :
    (closeMany stop count building).Lies source stop := by
  induction count generalizing building start with
  | zero => exact h.mono hle
  | succ count ih => exact ih (h.closeImplicitly hle hstop) (Nat.le_refl _)

theorem closeTag (h : building.Lies source start) (name : Text) (hspan : ByteSpan.Fits ⟨start, stop⟩ source) :
    (building.closeTag name ⟨start, stop⟩).Lies source stop := by
  simp only [Building.closeTag]
  split
  next => exact h.mono hspan.ordered
  next =>
    split
    next => exact (h.report (List.forall_mem_singleton.mpr hspan)).mono hspan.ordered
    next => exact (h.closeMany (Nat.le_refl _) hspan.start _).close (Nat.le_refl _) hspan.start hspan.ordered hspan.stop

/-- A token that takes up the bytes behind all that was read. -/
theorem step (h : building.Lies source start) {scanned : Token × List Problem} (hspan : ByteSpan.Fits ⟨start, stop⟩ source)
    (hfills : scanned.1.Fills source start stop) (hproblems : ∀ problem ∈ scanned.2, problem.span.Fits source) :
    (building.step scanned).Lies source stop := by
  obtain ⟨token, problems⟩ := scanned
  have hreport := h.report hproblems
  have hleaf (kind : NodeKind) (hkind : ∀ element, kind = .element element → element.LiesIn source ⟨start, stop⟩) :
      ((building.report problems).attach (.tree ⟨kind, ⟨start, stop⟩, false⟩ .nil)).Lies source stop :=
    hreport.attach (.leaf hspan hkind)
  obtain ⟨-, heq, -, hlies⟩ := hfills
  cases token with
  | text written span | comment written span | declaration written span =>
    cases heq
    exact hleaf _ fun _ hkind => by cases hkind
  | opening element span =>
    cases heq
    exact ⟨⟨hlies.1, Nat.le_of_eq hlies.2, h.stacked⟩, hreport.problems⟩
  | complete element span content =>
    cases heq
    cases content with
    | none => exact hleaf _ fun other hkind => by cases hkind; exact hlies
    | some content =>
      refine hreport.attach ⟨Nat.le_refl _, hspan, ⟨hlies, ?_⟩, Nat.le_refl _⟩
      exact .leaf hlies.content fun _ hkind => by cases hkind
  | closing name span =>
    cases heq
    exact hreport.closeTag name hspan

/-- All tokens of a text that stands behind all that was read. -/
theorem foldl_tokenized (h : building.Lies source start) {text : Text} (htext : source.StandsFrom text start)
    {scanned : List (Token × List Problem)} (hscanned : Tokenized start text scanned) :
    (scanned.foldl Building.step building).Lies source (Text.byteSize source) := by
  induction hscanned generalizing building with
  | nil => exact h.mono htext.isBorder.le
  | cons _ ih =>
    obtain ⟨hfills, hproblems, hrest⟩ := stands_scanToken htext
    have hspan := ByteSpan.fits_of_isBorder (Nat.le_of_lt hfills.forward) htext.isBorder hrest.isBorder
    exact ih (h.step hspan hfills hproblems) hrest

end Lies

end Building

/-! ## Sources -/

theorem lies_start : Building.start.Lies source 0 :=
  ⟨Nat.le_refl 0, fits_of_mem_nil⟩

theorem lies_parse (source : Text) :
    Laid source 0 (Text.byteSize source) (parse source).1 ∧ ∀ problem ∈ (parse source).2, problem.span.Fits source := by
  have hread := lies_start.foldl_tokenized source.standsFrom_zero (tokenized_tokens source)
  have hfinish := hread.closeMany (Nat.le_refl _) source.isBorder_byteSize
    ((tokens source).foldl Building.step .start).elements.length
  exact ⟨hfinish.stacked.laid_top, hfinish.problems⟩

/-- The spans of a node lie in the source, and they select its text and the names and values of its attributes. -/
structure Node.PointsInto (source : Text) (node : Node) : Prop where
  span : node.span.Fits source
  attributes : ∀ element ∈ node.element?, ∀ attr ∈ element.attributes,
    attr.nameSpan.Fits source ∧ ∀ span ∈ attr.valueSpan, span.Fits source
  stands : node.Stands source

theorem Attribute.Stands.fits {attr : Attribute} (h : attr.Stands source) :
    attr.nameSpan.Fits source ∧ ∀ span ∈ attr.valueSpan, span.Fits source := by
  obtain ⟨hname, hvalue⟩ := h
  refine ⟨hname.fits, fun span hspan => ?_⟩
  rw [hspan] at hvalue
  generalize attr.value = value at hvalue
  cases hvalue with
  | some hselects => exact hselects.fits

/-- A source is read token by token to its end, and each tag attribute by attribute to its own. Every span lies in the
source on borders of characters and selects what it is the span of. The nodes of one level follow one another, and those
below an element lie in its content, behind its attributes. -/
theorem spans_faithful (source : Text) :
    ReadsOn source ∧
    (∀ problem ∈ (Document.parse source).2, problem.span.Fits source) ∧
    (∀ entry ∈ (Document.parse source).1.nodes, entry.2.PointsInto source) ∧
    (Document.parse source).1.span = ⟨0, Text.byteSize source⟩ ∧
    Laid source 0 (Text.byteSize source) ((Document.parse source).1.forest.map Prod.snd) := by
  obtain ⟨hlaid, hproblems⟩ := lies_parse source
  have hforest : (Document.parse source).1.forest.map Prod.snd = (parse source).1 := Forest.map_snd_number 1 _
  refine ⟨readsOn source, hproblems, fun entry hentry => ?_, rfl, by rwa [hforest]⟩
  have hnode : entry.2 ∈ (parse source).1.preorder := by
    rw [← hforest, Forest.preorder_map]
    exact List.mem_map_of_mem hentry
  have hstands := stands_of_mem_preorder (allStand_parse source) hnode
  exact ⟨hlaid.fits_of_mem hnode, fun element helement attr hattr => (hstands.attributes helement attr hattr).fits, hstands⟩

/-- Two elements without end in one that is closed, a tag without end, and characters of several bytes. -/
def unfinished : Text := "é<ul ü='ß'><li><b x=y>ö</ul>< <p =".toList

theorem spans_faithful_of_unfinished :
    let problem : Problem := ⟨.unclosedElement "b".toList, ⟨18, 20⟩⟩
    let node : Node := ⟨.text "ö".toList, ⟨25, 27⟩, false⟩
    (problem ∈ (Document.parse unfinished).2 ∧ problem.span.Fits unfinished) ∧
      (5, node) ∈ (Document.parse unfinished).1.nodes ∧ node.PointsInto unfinished ∧
      Laid unfinished 0 38 ((Document.parse unfinished).1.forest.map Prod.snd) := by
  intro problem node
  obtain ⟨-, hproblems, hnodes, -, hlaid⟩ := spans_faithful unfinished
  have hproblem : problem ∈ (Document.parse unfinished).2 := by decide +kernel
  have hnode : (5, node) ∈ (Document.parse unfinished).1.nodes := by decide +kernel
  exact ⟨⟨hproblem, hproblems problem hproblem⟩, hnode, hnodes (5, node) hnode, hlaid⟩

end Sitewright.Markup
