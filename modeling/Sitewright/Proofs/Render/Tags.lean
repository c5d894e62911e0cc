import Sitewright.Proofs.Markup.Sound
import Sitewright.Proofs.Template.References
import Sitewright.Proofs.Template.Tags

/-!
Values in markup. A value that is written into a text has no `<`, and one that is written into an
attribute has no quote. So a text with tags adds no shapes, unless a literal piece of it ends where the
value decides if markup begins (`shapes_interpolate`), and an opening tag is a written tag whose names
depend on the template and the environment alone (`html_openingTag`, `map_nameOnly_attributes`).
-/

namespace Sitewright

open Markup

namespace Output

@[simp] theorem html_append (a b : Output) : (a ++ b).html = a.html ++ b.html := rfl

@[simp] theorem html_ofText (html : Text) : (ofText html).html = html := rfl

theorem html_concat (outputs : List Output) : (concat outputs).html = outputs.flatMap Output.html := by
  induction outputs with
  | nil => rfl
  | cons output outputs ih =>
    rw [List.flatMap_cons, ← ih]
    rfl

end Output

/-! ## Values -/

theorem not_mem_escapeText (text : Text) : '<' ∉ escapeText text := by
  intro hmem
  obtain ⟨c, -, hc⟩ := List.mem_flatMap.mp hmem
  split at hc
  next => exact absurd hc (by decide)
  next =>
    split at hc
    next => exact absurd hc (by decide)
    next hlt =>
      split at hc
      next => exact absurd hc (by decide)
      next => exact hlt (List.mem_singleton.mp hc).symm

theorem not_mem_escapeQuotes (text : Text) : '"' ∉ escapeQuotes text := by
  intro hmem
  obtain ⟨c, -, hc⟩ := List.mem_flatMap.mp hmem
  split at hc
  next => exact absurd hc (by decide)
  next hquote => exact hquote (List.mem_singleton.mp hc).symm

/-! ## Texts -/

/-- The pieces of a text in which no markup begins. -/
theorem Scanned.calm {start : Nat} {text : Text} {scan : TagScan} (h : Scanned start text scan) (hcalm : Calm text) :
    (∀ piece ∈ scan.pieces, Calm piece.1) ∧ Calm scan.tail := by
  induction h with
  | plain | unclosed => exact ⟨fun _ hpiece => (List.not_mem_nil hpiece).elim, hcalm⟩
  | tag hopen hclose _ ih =>
    rw [Text.cut_eq_some hopen] at hcalm
    obtain ⟨hpieces, htail⟩ := ih (Text.cut_eq_some hclose ▸ hcalm.right).right
    exact ⟨List.forall_mem_cons.mpr ⟨hcalm.left.left, hpieces⟩, htail⟩

/-- Whether no value decides if markup begins: no piece before a tag ends in `<` or `</`, and neither does
the last piece, unless something fixed follows. -/
def isFencedText (text : Text) (fixed : Bool) : Bool :=
  (scanTags text).pieces.all (fun piece => !isTrailing piece.1)
    && (!isTrailing (scanTags text).tail || fixed)

theorem shapes_pieces {pieces : List (Text × Tag)} {value : Tag → Text}
    (hpieces : ∀ piece ∈ pieces, Calm piece.1 ∧ isTrailing piece.1 = false)
    (hvalue : ∀ tag, '<' ∉ value tag) (t : Text) :
    shapes ((pieces.flatMap fun piece => piece.1 ++ value piece.2) ++ t) = shapes t := by
  induction pieces with
  | nil => rfl
  | cons piece pieces ih =>
    obtain ⟨hcalm, htrailing⟩ := hpieces piece List.mem_cons_self
    have hothers := ih fun other hother => hpieces other (List.mem_cons_of_mem piece hother)
    rw [List.flatMap_cons, List.append_assoc, List.append_assoc,
      hcalm.shapes_append fun h => absurd h (Bool.eq_false_iff.mp htrailing),
      shapes_append_of_not_mem (hvalue piece.2), hothers]

namespace Frame

variable {site : Site} {frame : Frame}

/-- A text with tags adds no shapes. -/
theorem shapes_interpolate {text t : Text} {fixed : Bool} (hcalm : Calm text)
    (hfenced : isFencedText text fixed = true) (ht : fixed = true → IsFence t) (node : Node) (base : Nat) :
    shapes ((frame.interpolate site node text base .content).html ++ t) = shapes t := by
  obtain ⟨hpieces, htail⟩ := (scanned_scanTags text).calm hcalm
  rw [isFencedText, Bool.and_eq_true, Bool.or_eq_true, List.all_eq_true] at hfenced
  have hsettled : ∀ piece ∈ (scanTags text).pieces, Calm piece.1 ∧ isTrailing piece.1 = false :=
    fun piece hpiece => ⟨hpieces piece hpiece, by simpa using hfenced.1 piece hpiece⟩
  have hvalue (tag : Tag) : '<' ∉ escapeText (frame.evaluateTag site tag).value := not_mem_escapeText _
  have htrailing : isTrailing (scanTags text).tail = true → IsFence t := fun h =>
    ht (hfenced.2.resolve_left (by rw [h]; decide))
  show shapes (((scanTags text).pieces.flatMap fun piece =>
    piece.1 ++ escapeText (frame.evaluateTag site piece.2).value) ++ (scanTags text).tail ++ t) = _
  rw [List.append_assoc, shapes_pieces hsettled hvalue, htail.shapes_append htrailing]

/-- A text that does not begin with a tag is written with its first character. -/
theorem head?_interpolate {text : Text} {c : Char} (h : text.head? = some c) (hc : c ≠ '\x7b') (node : Node)
    (base : Nat) : (frame.interpolate site node text base .content).html.head? = some c := by
  obtain ⟨rest, rfl⟩ := List.head?_eq_some_iff.mp h
  have hscanned := scanned_scanTags (c :: rest)
  rw [interpolate]
  generalize scanTags (c :: rest) = scan at hscanned ⊢
  cases hscanned with
  | plain | unclosed => rfl
  | @tag _ _ before _ _ _ _ hopen _ _ =>
    have htext := Text.cut_eq_some hopen
    cases before with
    | nil => exact absurd (List.cons.inj htext).1 hc
    | cons d before =>
      obtain rfl : c = d := (List.cons.inj htext).1
      rfl

/-! ## Attributes -/

/-- What stands between the quotes of an attribute. -/
def valueText (site : Site) (frame : Frame) (node : Node) (attr : Attribute) : Option Text :=
  match attr.value, attr.valueSpan with
  | some value, some span =>
    some (if Naming.looksLikeDirective attr.name then escapeQuotes value
      else (frame.interpolate site node value span.start .attributeValue).html)
  | _, _ => none

theorem not_mem_valueText {node : Node} {attr : Attribute} {value : Text}
    (h : value ∈ frame.valueText site node attr) : '"' ∉ value := by
  rw [valueText] at h
  split at h
  next written span _ _ =>
    obtain rfl := Option.some.inj h
    split
    next => exact not_mem_escapeQuotes written
    next =>
      intro hmem
      rcases List.mem_append.mp hmem with hmem | hmem
      · obtain ⟨piece, -, hpiece⟩ := List.mem_flatMap.mp hmem
        rcases List.mem_append.mp hpiece with hpiece | hpiece
        · exact not_mem_escapeQuotes _ hpiece
        · exact not_mem_escapeQuotes _ hpiece
      · exact not_mem_escapeQuotes _ hmem
  next => cases h

theorem html_renderValue (node : Node) (attr : Attribute) :
    ' ' :: attr.name ++ (frame.renderValue site node attr).html =
      attributeText (attr.name, frame.valueText site node attr) := by
  rw [renderValue, valueText, attributeText]
  cases attr.value with
  | none => rfl
  | some value =>
    cases attr.valueSpan with
    | none => rfl
    | some span =>
      simp only
      split <;> rfl

end Frame

/-! ## Opening tags -/

/-- The attributes that name what left the markup of an element, with their values. -/
def generatedAttributes (key : Text) (binding : Directive.Binding) : List (Text × Option Text) :=
  (if binding.states = [] then [] else [("x-data".toList, some key)])
    ++ if binding.moved = [] then [] else [("x-bind".toList, some (key ++ binding.suffix))]

theorem bindingAttributes_eq_flatMap (key : Text) (binding : Directive.Binding) :
    bindingAttributes key binding = (generatedAttributes key binding).flatMap attributeText := by
  have hdata : attributeText ("x-data".toList, some key) = " x-data=\"".toList ++ key ++ ['"'] := rfl
  have hbind : attributeText ("x-bind".toList, some (key ++ binding.suffix)) =
      " x-bind=\"".toList ++ key ++ binding.suffix ++ ['"'] := by
    show " x-bind=\"".toList ++ (key ++ binding.suffix ++ ['"']) = _
    simp only [List.append_assoc]
  rw [bindingAttributes, generatedAttributes, List.flatMap_append]
  refine congrArg₂ (· ++ ·) ?_ ?_
  · split
    next => rfl
    next => rw [List.flatMap_singleton, hdata]
  · split
    next => rfl
    next => rw [List.flatMap_singleton, hbind]

theorem mem_generatedAttributes {key : Text} {binding : Directive.Binding} {attr : Text × Option Text}
    (h : attr ∈ generatedAttributes key binding) :
    attr = ("x-data".toList, some key) ∨ attr = ("x-bind".toList, some (key ++ binding.suffix)) := by
  rcases List.mem_append.mp h with h | h
  · split at h
    next => cases h
    next => exact .inl (List.mem_singleton.mp h)
  · split at h
    next => cases h
    next => exact .inr (List.mem_singleton.mp h)

/-- Whether an attribute is written with a value. -/
def Markup.Attribute.isValued (attr : Attribute) : Bool :=
  attr.value.isSome && attr.valueSpan.isSome

namespace Compiled

/-- What left the markup of an element in an environment. -/
def binding? (compiled : Compiled) (environment : Environment) (id : Nat) : Option Directive.Binding :=
  match environment with
  | .development => none
  | .production => Directive.find? compiled.bindings id

/-- The attributes of an element that are written. -/
def kept (compiled : Compiled) (environment : Environment) (id : Nat) (element : Element) : List Attribute :=
  let removed := ((compiled.binding? environment id).map Directive.Binding.removed).getD []
  (element.attributes.zipIdx.filter fun entry =>
    !(unwrittenAttributes.contains entry.1.name || removed.contains entry.2)).map Prod.fst

/-- The names in an opening tag, and which of them have values. -/
def attributeNames (compiled : Compiled) (environment : Environment) (id : Nat) (element : Element) :
    List (Text × Bool) :=
  (compiled.kept environment id element).map (fun attr => (attr.name, attr.isValued))
    ++ ((compiled.binding? environment id).map fun binding =>
      (generatedAttributes [] binding).map nameOnly).getD []

end Compiled

namespace Frame

variable (site : Site) (frame : Frame) (id : Nat) (node : Node) (element : Element)

/-- The attributes of an opening tag as written. -/
def attributes : List (Text × Option Text) :=
  (frame.compiled.kept site.environment id element).map (fun attr =>
      (attr.name, frame.valueText site node attr))
    ++ ((frame.compiled.binding? site.environment id).map
      (generatedAttributes (site.key frame.compiled.template.id))).getD []

theorem html_openingTag :
    (frame.openingTag site id node element).html =
      '<' :: (element.name ++ ((frame.attributes site id node element).flatMap attributeText ++ ['>'])) := by
  have hbinding : frame.binding? site id = frame.compiled.binding? site.environment id := rfl
  have hgenerated : ((frame.compiled.binding? site.environment id).map
      (bindingAttributes (site.key frame.compiled.template.id))).getD [] =
        (((frame.compiled.binding? site.environment id).map
          (generatedAttributes (site.key frame.compiled.template.id))).getD []).flatMap attributeText := by
    cases frame.compiled.binding? site.environment id with
    | none => rfl
    | some binding => exact bindingAttributes_eq_flatMap _ binding
  have hattribute (removed : List Nat) (entries : List (Attribute × Nat)) :
      (entries.map (frame.renderAttribute site node removed)).flatMap Output.html =
        ((entries.filter fun entry =>
          !(unwrittenAttributes.contains entry.1.name || removed.contains entry.2)).map Prod.fst).flatMap
            fun attr => attributeText (attr.name, frame.valueText site node attr) := by
    induction entries with
    | nil => rfl
    | cons entry entries ih =>
      rw [List.map_cons, List.flatMap_cons, ih, renderAttribute, List.filter_cons]
      cases unwrittenAttributes.contains entry.1.name || removed.contains entry.2 with
      | true => rfl
      | false =>
        show (' ' :: entry.1.name ++ (frame.renderValue site node entry.1).html) ++ _ = _
        rw [html_renderValue]
        rfl
  simp only [openingTag, Output.html_append, Output.html_ofText, Output.html_concat, hbinding, hgenerated,
    hattribute, attributes, Compiled.kept, List.flatMap_append, List.flatMap_map, List.cons_append,
    List.append_assoc]

/-- The names do not depend on the values. -/
theorem map_nameOnly_attributes :
    (frame.attributes site id node element).map nameOnly =
      frame.compiled.attributeNames site.environment id element := by
  rw [attributes, Compiled.attributeNames, List.map_append, List.map_map]
  refine congrArg₂ (· ++ ·) (List.map_congr_left fun attr _ => ?_) ?_
  · rw [Function.comp_apply, nameOnly, valueText, Attribute.isValued]
    cases attr.value with
    | none => rfl
    | some value => cases attr.valueSpan <;> rfl
  · cases frame.compiled.binding? site.environment id with
    | none => rfl
    | some binding =>
      show (generatedAttributes _ binding).map nameOnly = (generatedAttributes [] binding).map nameOnly
      rw [generatedAttributes, generatedAttributes, List.map_append, List.map_append]
      refine congrArg₂ (· ++ ·) ?_ ?_
      · split <;> rfl
      · split <;> rfl

variable {site frame id node element}

theorem isWritten_attributes (h : element.IsSound)
    (hkey : site.environment = .production → Text.IsBare (site.key frame.compiled.template.id)) :
    ∀ attr ∈ frame.attributes site id node element, IsWritten attr := by
  have hname {name : Text} (hname : name = "x-data".toList ∨ name = "x-bind".toList) :
      IsAttributeName name := by
    have hletters : name.all (fun c => !isAsciiBlank c && c != '=' && c != '>' && c != '<') = true := by
      rcases hname with rfl | rfl <;> decide
    refine ⟨?_, fun c hc => ?_, ?_⟩
    · rcases hname with rfl | rfl <;> decide
    · simpa [and_assoc] using List.all_eq_true.mp hletters c hc
    · rcases hname with rfl | rfl <;> decide
  intro attr hattr
  rcases List.mem_append.mp hattr with hattr | hattr
  · obtain ⟨kept, hkept, rfl⟩ := List.mem_map.mp hattr
    obtain ⟨entry, hentry, rfl⟩ := List.mem_map.mp hkept
    have hmem := (List.mem_filter.mp hentry).1
    exact ⟨h.attributes entry.1 (List.fst_mem_of_mem_zipIdx hmem), fun value hvalue => not_mem_valueText hvalue⟩
  · cases henvironment : site.environment with
    | development =>
      rw [henvironment] at hattr
      cases hattr
    | production =>
      have hbare := hkey henvironment
      rw [henvironment] at hattr
      cases hbinding : frame.compiled.binding? .production id with
      | none =>
        rw [hbinding] at hattr
        cases hattr
      | some binding =>
        rw [hbinding] at hattr
        rcases mem_generatedAttributes hattr with rfl | rfl
        · refine ⟨hname (.inl rfl), ?_⟩
          rintro value ⟨⟩ hmem
          exact (hbare '"' hmem).2.1 rfl
        · refine ⟨hname (.inr rfl), ?_⟩
          rintro value ⟨⟩ hmem
          exact (Directive.isBare_bindName hbare binding.node '"' hmem).2.1 rfl

end Frame

end Sitewright
