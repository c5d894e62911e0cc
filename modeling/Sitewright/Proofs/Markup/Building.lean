import Sitewright.Markup.Parser

/-!
Nodes are put together in two ways only: some follow others, and an element is put around those read since its opening
tag. So a property of forests that both keep holds of all that is read, as soon as it holds of what each token is by
itself (`parse_of_tokens`).
-/

namespace Sitewright.Markup

/-- A property of forests, and one of elements that are open, that putting nodes together keeps. -/
structure IsKept (P : Forest Node → Prop) (Q : Element → Prop) : Prop where
  nil : P .nil
  append : ∀ {f g : Forest Node}, P f → P g → P (f ++ g)
  close : ∀ {element : Element} {inside : Forest Node}, Q element → P inside → ∀ contentStop start stop,
    P (.tree ⟨.element { element with content := ⟨element.content.start, contentStop⟩ }, ⟨start, stop⟩, false⟩ inside)

/-- The nodes that a token is by itself have the one property, and the element that it opens has the other. -/
def Token.Gives (P : Forest Node → Prop) (Q : Element → Prop) : Token → Prop
  | .text written span => P (.tree ⟨.text written, span, false⟩ .nil)
  | .comment written span => P (.tree ⟨.comment written, span, false⟩ .nil)
  | .declaration written span => P (.tree ⟨.declaration written, span, false⟩ .nil)
  | .opening element _ => Q element
  | .complete element span none => P (.tree ⟨.element element, span, false⟩ .nil)
  | .complete element span (some content) =>
    P (.tree ⟨.element element, span, false⟩ (.tree ⟨.text content, element.content, false⟩ .nil))
  | .closing _ _ => True

namespace Building

/-- All that was put together so far has the property. -/
structure Holds (P : Forest Node → Prop) (Q : Element → Prop) (building : Building) : Prop where
  top : P building.top
  elements : ∀ opened ∈ building.elements, Q opened.element ∧ P opened.inside

namespace Holds

variable {P : Forest Node → Prop} {Q : Element → Prop} (hkept : IsKept P Q) {building : Building}

theorem report (h : building.Holds P Q) (problems : List Problem) : (building.report problems).Holds P Q :=
  ⟨h.top, h.elements⟩

include hkept

theorem attach (h : building.Holds P Q) {nodes : Forest Node} (hnodes : P nodes) :
    (building.attach nodes).Holds P Q := by
  unfold Building.attach
  split
  next => exact ⟨hkept.append h.top hnodes, h.elements⟩
  next inner outer heq =>
    have hall := h.elements
    rw [heq] at hall
    obtain ⟨hinner, houter⟩ := List.forall_mem_cons.mp hall
    exact ⟨h.top, List.forall_mem_cons.mpr ⟨⟨hinner.1, hkept.append hinner.2 hnodes⟩, houter⟩⟩

theorem close (h : building.Holds P Q) (contentStop stop : Nat) : (building.close contentStop stop).Holds P Q := by
  unfold Building.close
  split
  next => exact h
  next inner outer heq =>
    have hall := h.elements
    rw [heq] at hall
    obtain ⟨hinner, houter⟩ := List.forall_mem_cons.mp hall
    have hrest : Holds P Q { building with elements := outer } := ⟨h.top, houter⟩
    exact hrest.attach hkept (hkept.close hinner.1 hinner.2 contentStop inner.start stop)

theorem closeMany (h : building.Holds P Q) (stop count : Nat) : (closeMany stop count building).Holds P Q := by
  induction count generalizing building with
  | zero => exact h
  | succ count ih =>
    unfold Building.closeMany
    refine ih ?_
    unfold closeImplicitly
    split
    next => exact h
    next => exact (h.close hkept stop stop).report _

theorem closeTag (h : building.Holds P Q) (name : Text) (span : ByteSpan) :
    (building.closeTag name span).Holds P Q := by
  simp only [Building.closeTag]
  split
  next => exact h
  next =>
    split
    next => exact h.report _
    next => exact (h.closeMany hkept _ _).close hkept _ _

/-- One token keeps the property. -/
theorem step (h : building.Holds P Q) {scanned : Token × List Problem} (hscanned : scanned.1.Gives P Q) :
    (building.step scanned).Holds P Q := by
  obtain ⟨token, problems⟩ := scanned
  have hreport := h.report problems
  cases token with
  | text written span => exact hreport.attach hkept hscanned
  | comment written span => exact hreport.attach hkept hscanned
  | declaration written span => exact hreport.attach hkept hscanned
  | opening element span => exact ⟨h.top, List.forall_mem_cons.mpr ⟨⟨hscanned, hkept.nil⟩, h.elements⟩⟩
  | complete element span content =>
    cases content with
    | none => exact hreport.attach hkept hscanned
    | some content => exact hreport.attach hkept hscanned
  | closing name span => exact hreport.closeTag hkept name span

theorem foldl_step {scans : List (Token × List Problem)} (h : building.Holds P Q)
    (hscans : ∀ scanned ∈ scans, scanned.1.Gives P Q) : (scans.foldl Building.step building).Holds P Q := by
  induction scans generalizing building with
  | nil => exact h
  | cons scanned scans ih =>
    obtain ⟨hfirst, hothers⟩ := List.forall_mem_cons.mp hscans
    exact ih (h.step hkept hfirst) hothers

end Holds

end Building

/-- What holds of every token by itself holds of all that is read. -/
theorem parse_of_tokens {P : Forest Node → Prop} {Q : Element → Prop} (hkept : IsKept P Q) {source : Text}
    (htokens : ∀ scanned ∈ tokens source, scanned.1.Gives P Q) : P (parse source).1 := by
  have hstart : Building.Holds P Q .start := ⟨hkept.nil, fun opened hopened => by cases hopened⟩
  exact ((hstart.foldl_step hkept htokens).closeMany hkept _ _).top

end Sitewright.Markup
