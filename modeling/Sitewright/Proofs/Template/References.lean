import Mathlib.Data.List.Infix
import Mathlib.Data.List.Lemmas
import Sitewright.Proofs.Template.Directives
import Sitewright.Template.Render

/-!
References from the markup to the script. In production the opening tag of an element that lost
directives names registrations (`Frame.openingTag_eq`), and a line of the script begins with the name
that it registers. Names are made of a key and a number, and both can be read back, so the lines of a
template are for different names (`Template.countP_registration`, `Template.nodup_references`).
-/

namespace Sitewright

open Markup

/-! ## Names -/

namespace Text

/-- A text that stands for itself between quotes. -/
def IsBare (t : Text) : Prop :=
  ∀ c ∈ t, 0x20 ≤ c.toNat ∧ c ≠ '"' ∧ c ≠ '\\'

theorem isBare_append {a b : Text} (ha : IsBare a) (hb : IsBare b) : IsBare (a ++ b) := by
  intro c hc
  exact (List.mem_append.mp hc).elim (ha c) (hb c)

theorem isDigit_of_mem_ofNat {n : Nat} {c : Char} (h : c ∈ ofNat n) : c.isDigit = true :=
  Nat.isDigit_of_mem_toDigits (by decide) (by decide) h

theorem isBare_ofNat (n : Nat) : IsBare (ofNat n) := by
  intro c hc
  have hdigit := isDigit_of_mem_ofNat hc
  refine ⟨?_, ?_, ?_⟩
  · rw [Char.isDigit, Bool.and_eq_true, decide_eq_true_eq] at hdigit
    have hle : (48 : UInt32).toNat ≤ c.val.toNat := hdigit.1
    exact Nat.le_trans (by decide) hle
  · rintro rfl
    exact absurd hdigit (by decide)
  · rintro rfl
    exact absurd hdigit (by decide)

theorem ofNat_injective {n m : Nat} (h : ofNat n = ofNat m) : n = m := by
  have hread := congrArg (fun digits => Nat.ofDigitChars 10 digits 0) h
  simpa [ofNat] using hread

theorem quotedChar_of_bare {c : Char} (h : 0x20 ≤ c.toNat ∧ c ≠ '"' ∧ c ≠ '\\') : quotedChar c = [c] := by
  have hcontrol (d : Char) (hd : d.toNat < 0x20) : c ≠ d := by
    rintro rfl
    omega
  have hge : ¬c.toNat < 0x20 := by omega
  simp only [quotedChar, h.2.1, h.2.2, hcontrol '\x08' (by decide), hcontrol '\x0c' (by decide),
    hcontrol '\n' (by decide), hcontrol '\r' (by decide), hcontrol '\t' (by decide), hge, if_false]

theorem quoted_of_bare {t : Text} (h : IsBare t) : quoted t = '"' :: (t ++ ['"']) := by
  have hflat : t.flatMap quotedChar = t := by
    induction t with
    | nil => rfl
    | cons c t ih =>
      rw [List.flatMap_cons, quotedChar_of_bare (h c List.mem_cons_self),
        ih fun d hd => h d (List.mem_cons_of_mem c hd), List.singleton_append]
  rw [quoted, hflat, List.cons_append]

/-- A quoted character is escaped, or it stands for itself and is no quote. -/
theorem quotedChar_cases (c : Char) :
    (∃ rest, quotedChar c = '\\' :: rest) ∨ (quotedChar c = [c] ∧ c ≠ '"') := by
  by_cases hquote : c = '"'
  · exact .inl ⟨['"'], by rw [hquote]; rfl⟩
  · rw [quotedChar, if_neg hquote]
    repeat' split
    all_goals first | exact .inl ⟨_, rfl⟩ | exact .inr ⟨rfl, hquote⟩

/-- Reading up to the quote that ends it gives back a text that needs no escapes. -/
theorem eq_of_quoted {name t r s : Text} (ht : IsBare t)
    (h : name.flatMap quotedChar ++ '"' :: r = t ++ '"' :: s) : name = t := by
  induction t generalizing name with
  | nil =>
    cases name with
    | nil => rfl
    | cons c name =>
      rw [List.flatMap_cons, List.nil_append] at h
      rcases quotedChar_cases c with ⟨rest, hc⟩ | ⟨hc, hquote⟩
      · rw [hc] at h
        exact absurd (List.cons.inj h).1 (by decide)
      · rw [hc] at h
        exact absurd (List.cons.inj h).1 hquote
  | cons d t ih =>
    have hd := ht d List.mem_cons_self
    cases name with
    | nil => exact absurd (List.cons.inj h).1.symm hd.2.1
    | cons c name =>
      rw [List.flatMap_cons, List.append_assoc, List.cons_append] at h
      rcases quotedChar_cases c with ⟨rest, hc⟩ | ⟨hc, hquote⟩
      · rw [hc] at h
        exact absurd (List.cons.inj h).1.symm hd.2.2
      · rw [hc] at h
        obtain ⟨rfl, hrest⟩ := List.cons.inj h
        rw [ih (fun e he => ht e (List.mem_cons_of_mem c he)) hrest]

end Text

/-! ## References -/

/-- A reference of the markup to the script. -/
inductive Reference where
  | data (name : Text)
  | bind (name : Text)
  deriving DecidableEq

namespace Reference

/-- The attribute that makes the reference. -/
def written : Reference → Text
  | data name => " x-data=\"".toList ++ name ++ ['"']
  | bind name => " x-bind=\"".toList ++ name ++ ['"']

/-- What the line of the script that registers the name begins with. -/
def opening : Reference → Text
  | data name => "Alpine.data(".toList ++ Text.quoted name ++ [',']
  | bind name => "Alpine.bind(".toList ++ Text.quoted name ++ [',']

/-- Whether a line of the script registers the name. -/
def registeredBy (reference : Reference) (line : Text) : Bool :=
  reference.opening.isPrefixOf line

end Reference

namespace Directive

/-- The name of the registration of an element. -/
def bindName (key : Text) (id : Nat) : Text :=
  key ++ 'b' :: Text.ofNat id

/-- The line that registers directives under a name. -/
def entriesLine (name : Text) (entries : List (Text × Text)) : Text :=
  "Alpine.bind(".toList ++ Text.quoted name ++ ", () => (\x7b ".toList
    ++ Text.join ", ".toList (entries.map fun (name, value) =>
      Text.quoted name ++ ": ".toList ++ Text.quoted value) ++ " \x7d));".toList

/-- The references of an element with a number. -/
def references (key : Text) (id : Nat) (element : Element) : List Reference :=
  (if declaring element = [] then [] else [.data key])
    ++ if moving element = [] then [] else [.bind (bindName key id)]

variable {key : Text} {id : Nat} {element : Element}

theorem bindingLine_eq (key : Text) (id : Nat) (element : Element) :
    bindingLine key (binding id element) =
      entriesLine (bindName key id)
        ((moving element).map fun entry => (entry.1.name, entry.1.valueOrEmpty)) := rfl

theorem bindingAttributes_eq (key : Text) (id : Nat) (element : Element) :
    bindingAttributes key (binding id element) =
      (references key id element).flatMap Reference.written := by
  have hsuffix : (binding id element).suffix = 'b' :: Text.ofNat id := rfl
  have hwritten : ∀ name, (Reference.bind name).written = " x-bind=\"".toList ++ name ++ ['"'] :=
    fun _ => rfl
  have hwritten' : ∀ name, (Reference.data name).written = " x-data=\"".toList ++ name ++ ['"'] :=
    fun _ => rfl
  unfold bindingAttributes references bindName
  generalize " x-data=\"".toList = data, " x-bind=\"".toList = bind at *
  simp only [states_binding, moved_binding, hsuffix, List.map_eq_nil_iff,
    List.flatMap_append]
  by_cases hstates : declaring element = [] <;> by_cases hmoved : moving element = [] <;>
    simp only [hstates, hmoved, if_true, if_false, List.flatMap_nil, List.flatMap_singleton,
      hwritten, hwritten', List.append_assoc]

theorem isBare_bindName (hkey : Text.IsBare key) (id : Nat) : Text.IsBare (bindName key id) := by
  refine Text.isBare_append hkey ?_
  intro c hc
  rcases List.mem_cons.mp hc with rfl | hc
  · decide
  · exact Text.isBare_ofNat id c hc

/-- The text before the number can be read back. -/
theorem bindName_injective {key' : Text} {id' : Nat} (hkey : 'b' ∉ key)
    (h : bindName key id = bindName key' id') : key = key' ∧ id = id' := by
  have hdigits : 'b' ∉ Text.ofNat id := fun hmem =>
    absurd (Text.isDigit_of_mem_ofNat hmem) (by decide)
  obtain ⟨hkey, -, hid⟩ := (List.append_cons_inj_of_notMem hkey hdigits).mp h
  exact ⟨hkey, Text.ofNat_injective hid⟩

/-- How a line begins tells the name that it registers. -/
theorem isPrefixOf_quoted {name t : Text} (ht : Text.IsBare t) (first body last : Text) :
    (first ++ Text.quoted name ++ [',']).isPrefixOf
        (first ++ Text.quoted t ++ ", () => (\x7b ".toList ++ body ++ last) = true ↔ name = t := by
  have hcomma : ", () => (\x7b ".toList = ',' :: " () => (\x7b ".toList := rfl
  generalize ", () => (\x7b ".toList = comma, " () => (\x7b ".toList = arrow at hcomma ⊢
  rw [List.isPrefixOf_iff_prefix]
  simp only [List.append_assoc, List.prefix_append_right_inj, hcomma]
  constructor
  · rintro ⟨r, h⟩
    rw [Text.quoted_of_bare ht, Text.quoted] at h
    simp only [List.cons_append, List.append_assoc, List.nil_append, List.cons.injEq, true_and] at h
    exact Text.eq_of_quoted ht h
  · rintro rfl
    exact ⟨arrow ++ (body ++ last), by simp⟩

theorem registeredBy_stateLine (hkey : Text.IsBare key) (states : List Text) (reference : Reference) :
    reference.registeredBy (stateLine key states) = true ↔ reference = .data key := by
  cases reference with
  | data name =>
    have hname : name = key ↔ Reference.data name = .data key := by simp
    exact (isPrefixOf_quoted hkey _ _ _).trans hname
  | bind name => exact iff_of_false Bool.false_ne_true (by simp)

theorem registeredBy_entriesLine {name : Text} (hname : Text.IsBare name) (entries : List (Text × Text))
    (reference : Reference) :
    reference.registeredBy (entriesLine name entries) = true ↔ reference = .bind name := by
  cases reference with
  | data other => exact iff_of_false Bool.false_ne_true (by simp)
  | bind other =>
    have hother : other = name ↔ Reference.bind other = .bind name := by simp
    exact (isPrefixOf_quoted hname _ _ _).trans hother

/-- How a directive stands in the markup. -/
def written (attr : Attribute) : Text :=
  ' ' :: attr.name ++ match attr.value, attr.valueSpan with
    | some value, some _ => "=\"".toList ++ escapeQuotes value ++ ['"']
    | _, _ => []

end Directive

/-! ## Opening tags -/

namespace Frame

open Directive

variable {site : Site} {frame : Frame} {template : Template} {id : Nat} {element : Element}

theorem not_unwritten_of_directive {name : Text} (h : Naming.looksLikeDirective name = true) :
    unwrittenAttributes.contains name = false := by
  have hplain : ∀ other ∈ unwrittenAttributes, Naming.looksLikeDirective other = false := by decide
  rw [List.contains_eq_mem, decide_eq_false_iff_not]
  intro hmem
  rw [hplain name hmem] at h
  cases h

theorem renderAttribute_of_directive {node : Node} {removed : List Nat} {entry : Attribute × Nat}
    (h : Naming.looksLikeDirective entry.1.name = true) :
    frame.renderAttribute site node removed entry =
      if entry.2 ∈ removed then .empty else .ofText (written entry.1) := by
  simp only [renderAttribute, not_unwritten_of_directive h, Bool.false_or, List.contains_eq_mem,
    decide_eq_true_eq]
  split
  · rfl
  · rw [renderValue, written]
    cases entry.1.value with
    | none => rfl
    | some value =>
      cases entry.1.valueSpan with
      | none => rfl
      | some span =>
        rw [h]
        rfl

/-- In production the opening tag of an element leaves out what it loses and refers to the script
instead. -/
theorem openingTag_eq (hsite : site.environment = .production) (hframe : frame.compiled = template.compile)
    (h : (id, element) ∈ template.elements) (node : Node) :
    frame.openingTag site id node element =
      .ofText ('<' :: element.name)
        ++ .concat (element.attributes.zipIdx.map (frame.renderAttribute site node (template.removed id)))
        ++ .ofText ((references (site.key template.id) id element).flatMap Reference.written ++ ['>']) := by
  have hbinding : frame.binding? site id = find? (bindings template.document) id := by
    rw [binding?, hsite, hframe]
    rfl
  have hid : frame.compiled.template.id = template.id := by
    rw [hframe]
    rfl
  have hgenerated : ((find? (bindings template.document) id).map
      (bindingAttributes (site.key template.id))).getD [] =
        (references (site.key template.id) id element).flatMap Reference.written := by
    rw [← bindingAttributes_eq, Template.find?_bindings h]
    split
    · next hnone =>
      rw [List.append_eq_nil_iff] at hnone
      simp [bindingAttributes_eq, references, hnone.1, hnone.2]
    · rfl
  rw [openingTag, hbinding, hid, hgenerated, Template.removed]

end Frame

/-! ## What is registered -/

namespace Template

open Directive

variable {template : Template} {key : Text}

/-- What the registrations of a template are for, one after another. -/
def references (template : Template) (key : Text) : List Reference :=
  (if template.states = [] then [] else [.data key]) ++
    (template.elements.filter fun entry => moving entry.2 != []).map fun entry =>
      .bind (bindName key entry.1)

theorem mem_references {reference : Reference} (h : reference ∈ template.references key) :
    reference = .data key ∨ ∃ id, reference = .bind (bindName key id) := by
  rcases List.mem_append.mp h with h | h
  · split at h
    · cases h
    · exact .inl (List.mem_singleton.mp h)
  · obtain ⟨entry, -, rfl⟩ := List.mem_map.mp h
    exact .inr ⟨entry.1, rfl⟩

theorem states_ne_nil {id : Nat} {element : Element} (h : (id, element) ∈ template.elements)
    (hdeclaring : declaring element ≠ []) : template.states ≠ [] := by
  obtain ⟨entry, hentry⟩ := List.exists_mem_of_ne_nil _ hdeclaring
  have hmem : stateText entry.1 ∈ template.states :=
    List.mem_flatMap.mpr ⟨(id, element), h, List.mem_map.mpr ⟨entry, hentry, rfl⟩⟩
  exact List.ne_nil_of_mem hmem

/-- What an element refers to is registered for its template. -/
theorem references_subset {id : Nat} {element : Element} (h : (id, element) ∈ template.elements) :
    Directive.references key id element ⊆ template.references key := by
  intro reference hreference
  rcases List.mem_append.mp hreference with hdata | hbind
  · split at hdata
    · cases hdata
    · next hdeclaring =>
      refine List.mem_append_left _ ?_
      rwa [if_neg (states_ne_nil h hdeclaring)]
  · split at hbind
    · cases hbind
    · next hmoving =>
      refine List.mem_append_right _ (List.mem_map.mpr ⟨(id, element), ?_, (List.mem_singleton.mp hbind).symm⟩)
      exact List.mem_filter.mpr ⟨h, bne_iff_ne.mpr hmoving⟩

theorem nodup_references (hkey : 'b' ∉ key) : (template.references key).Nodup := by
  rw [references, List.nodup_append]
  refine ⟨by split <;> simp, ?_, ?_⟩
  · have hnumbers : ((template.elements.filter fun entry => moving entry.2 != []).map Prod.fst).Nodup :=
      template.nodup_elements.sublist (List.filter_sublist.map _)
    have hname : Function.Injective fun id => Reference.bind (bindName key id) := by
      intro id id' h
      exact (bindName_injective hkey (Reference.bind.inj h)).2
    have hnodup := hnumbers.map hname
    rwa [List.map_map] at hnodup
  · intro a ha b hb heq
    obtain ⟨entry, -, rfl⟩ := List.mem_map.mp hb
    split at ha
    · cases ha
    · rw [List.mem_singleton.mp ha] at heq
      cases heq

/-- A line for each of the references, and a reference for each of the lines. -/
theorem countP_registration (hkey : Text.IsBare key) (reference : Reference) :
    (registration key (bindings template.document)).countP reference.registeredBy =
      (template.references key).count reference := by
  rw [registration_eq, references, List.countP_append, List.count_append]
  refine congrArg₂ (· + ·) ?_ ?_
  · split
    · rfl
    · rw [List.countP_singleton, List.count_singleton]
      simp only [registeredBy_stateLine hkey, beq_iff_eq, @eq_comm _ reference]
  · rw [List.countP_map, List.count, List.countP_map]
    refine List.countP_congr fun entry _ => ?_
    simp only [Function.comp_apply, bindingLine_eq, beq_iff_eq,
      registeredBy_entriesLine (isBare_bindName hkey entry.1), @eq_comm _ reference]

end Template

end Sitewright
