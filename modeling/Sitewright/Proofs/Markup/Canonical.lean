import Sitewright.Proofs.Markup.Written
import Sitewright.Template.Tag

/-!
Forests that are read back from what is written for them. A canonical forest (`Canonical`) is written with
quoted values and explicit closing tags; reading that gives the same forest, each node at the bytes where it
was written (`place`), and no problems (`parse_write`). The rest of the source and the elements that are
open are variables of the induction: what is written for a forest is attached to the innermost of them.
-/

namespace Sitewright.Markup

/-! ## Forests without places -/

/-- A node without places. -/
inductive BareNode where
  | text (text : Text)
  | comment (text : Text)
  | declaration (text : Text)
  /-- An element with the names and values of its attributes. -/
  | element (name : Text) (attributes : List (Text × Option Text))
  deriving DecidableEq, Repr

/-- The attribute without its places. -/
def Attribute.bare (attr : Attribute) : Text × Option Text :=
  (attr.name, attr.value)

/-- The node without its places. -/
def Node.bare (node : Node) : BareNode :=
  match node.kind with
  | .text text => .text text
  | .comment text => .comment text
  | .declaration text => .declaration text
  | .element element => .element element.name (element.attributes.map Attribute.bare)

namespace BareNode

def isText : BareNode → Bool
  | .text _ => true
  | _ => false

/-- What is written before what stands below the node. -/
def opening : BareNode → Text
  | .text content => content
  | .comment content => "<!--".toList ++ content ++ "-->".toList
  | .declaration content => "<!".toList ++ content ++ ['>']
  | .element name attributes => '<' :: name ++ attributes.flatMap attributeText ++ ['>']

/-- What is written after what stands below the node. -/
def closing : BareNode → Text
  | .element name _ => if isVoid name then [] else "</".toList ++ name ++ ['>']
  | _ => []

end BareNode

/-- A forest as written. -/
def write : Forest BareNode → Text
  | .nil => []
  | .cons node below after => node.opening ++ write below ++ node.closing ++ write after

theorem leaf_written {node : BareNode} (h : node.closing = []) :
    node.opening ++ write .nil ++ node.closing = node.opening := by
  rw [h, List.append_nil]
  exact List.append_nil _

theorem write_text (content : Text) : write (.tree (.text content) .nil) = content := by
  show content ++ [] ++ [] ++ [] = content
  simp only [List.append_nil]

section

variable (name : Text) (attributes : List (Text × Option Text)) (t : Text)

theorem opening_append : (BareNode.element name attributes).opening ++ t =
    '<' :: (name ++ (attributes.flatMap attributeText ++ '>' :: t)) := by
  show '<' :: name ++ attributes.flatMap attributeText ++ ['>'] ++ t = _
  simp only [List.cons_append, List.append_assoc, List.nil_append]

theorem byteSize_opening : Text.byteSize (BareNode.element name attributes).opening =
    1 + Text.byteSize name + Text.byteSize (attributes.flatMap attributeText) + 1 := by
  have hopening : (BareNode.element name attributes).opening =
      '<' :: name ++ attributes.flatMap attributeText ++ ['>'] := rfl
  have hmark : Text.byteSize ('<' :: name) = 1 + Text.byteSize name := rfl
  have hend : Text.byteSize ['>'] = 1 := rfl
  rw [hopening, Text.byteSize_append, Text.byteSize_append, hmark, hend]

variable {name}

theorem closing_eq (hvoid : isVoid name = false) :
    (BareNode.element name attributes).closing = '<' :: '/' :: (name ++ ['>']) := by
  show (if isVoid name then [] else "</".toList ++ name ++ ['>']) = _
  rw [hvoid]
  rfl

theorem closing_append (hvoid : isVoid name = false) :
    (BareNode.element name attributes).closing ++ t = '<' :: '/' :: (name ++ '>' :: t) := by
  rw [closing_eq attributes hvoid]
  simp only [List.cons_append, List.append_assoc, List.nil_append]

theorem byteSize_closing (hvoid : isVoid name = false) :
    Text.byteSize (BareNode.element name attributes).closing = 2 + Text.byteSize name + 1 := by
  have hmarks : Text.byteSize ('<' :: '/' :: (name ++ ['>'])) =
      1 + (1 + Text.byteSize (name ++ ['>'])) := rfl
  have hend : Text.byteSize ['>'] = 1 := rfl
  rw [closing_eq attributes hvoid, hmarks, Text.byteSize_append, hend]
  omega

end

/-! ## Canonical forests -/

/-- Elements that rendering does not write as they stand. -/
def reservedElements : List Text :=
  ["include", "outlet", "inject", "style", "script"].map String.toList

/-- Whether an attribute can be written so that it is read back and rendered as it is. -/
def isCanonicalAttribute (attr : Text × Option Text) : Bool :=
  attr.1 != [] && attr.1.all (fun c => !isAsciiBlank c && c != '=' && c != '<' && c != '>' && c != '/')
    && attr.1 != "if".toList && attr.1 != "markdown".toList
    && attr.2.all fun value => !value.contains '"' && !hasTag value

/-- Forests that are read back from what is written for them, and rendered to it. -/
inductive Canonical : Forest BareNode → Prop where
  | nil : Canonical .nil
  | text {text : Text} {after : Forest BareNode} (hne : text ≠ []) (hmarkup : '<' ∉ text)
    (htag : hasTag text = false) (hnext : after.roots.head?.any BareNode.isText = false)
    (hafter : Canonical after) : Canonical (.cons (.text text) .nil after)
  | comment {text : Text} {after : Forest BareNode} (hend : Text.holds "-->".toList text = false)
    (hafter : Canonical after) : Canonical (.cons (.comment text) .nil after)
  | declaration {text : Text} {after : Forest BareNode} (hend : '>' ∉ text)
    (hdashes : ¬"--".toList <+: text) (hafter : Canonical after) :
    Canonical (.cons (.declaration text) .nil after)
  | void {name : Text} {attributes : List (Text × Option Text)} {after : Forest BareNode}
    (hvoid : isVoid name = true) (hattributes : attributes.all isCanonicalAttribute = true)
    (hafter : Canonical after) : Canonical (.cons (.element name attributes) .nil after)
  | script {attributes : List (Text × Option Text)} {below after : Forest BareNode}
    (hattributes : attributes.all isCanonicalAttribute = true)
    (hbelow : below = .nil ∨ ∃ content, content ≠ [] ∧
      Text.holds "</script".toList (Text.toLower content) = false ∧ below = .tree (.text content) .nil)
    (hafter : Canonical after) : Canonical (.cons (.element "script".toList attributes) below after)
  | element {name : Text} {attributes : List (Text × Option Text)} {below after : Forest BareNode}
    (hname : IsTagName name) (hreserved : name ∉ reservedElements) (hvoid : isVoid name = false)
    (hattributes : attributes.all isCanonicalAttribute = true) (hbelow : Canonical below)
    (hafter : Canonical after) : Canonical (.cons (.element name attributes) below after)

/-! ## Places -/

/-- Written attributes, as they are read from byte `start` on. -/
def placeAttributes : Nat → List (Text × Option Text) → List Attribute
  | _, [] => []
  | start, attr :: rest =>
    placeAttribute start attr :: placeAttributes (start + Text.byteSize (attributeText attr)) rest

/-- The node as read where it is written at byte `start`, with content at some bytes. -/
def BareNode.kind (start : Nat) (inner : ByteSpan) : BareNode → NodeKind
  | .text content => .text content
  | .comment content => .comment content
  | .declaration content => .declaration content
  | .element name attributes =>
    .element ⟨name, placeAttributes (start + 1 + Text.byteSize name) attributes, false, inner⟩

/-- The forest as read where it is written at byte `start`. -/
def place : Nat → Forest BareNode → Forest Node
  | _, .nil => .nil
  | start, .cons node below after =>
    let inner := start + Text.byteSize node.opening
    let innerStop := inner + Text.byteSize (write below)
    let stop := innerStop + Text.byteSize node.closing
    .cons ⟨node.kind start ⟨inner, innerStop⟩, ⟨start, stop⟩, false⟩ (place inner below) (place stop after)

theorem map_placeAttributes (start : Nat) (attributes : List (Text × Option Text)) :
    (placeAttributes start attributes).map Attribute.bare = attributes := by
  induction attributes generalizing start with
  | nil => rfl
  | cons attr rest ih =>
    rw [placeAttributes, List.map_cons, ih]
    rfl

/-- Placing changes nothing but places. -/
theorem map_bare_place (start : Nat) (forest : Forest BareNode) :
    (place start forest).map Node.bare = forest := by
  induction forest generalizing start with
  | nil => rfl
  | cons node below after ihbelow ihafter =>
    have hnode (content span : ByteSpan) : Node.bare ⟨node.kind start content, span, false⟩ = node := by
      cases node with
      | text text => rfl
      | comment text => rfl
      | declaration text => rfl
      | element name attributes => simp only [BareNode.kind, Node.bare, map_placeAttributes]
    simp only [place, Forest.map, ihbelow, ihafter, hnode]

/-! ## Opening tags -/

theorem isWritten_of_canonical {attr : Text × Option Text} (h : isCanonicalAttribute attr = true) :
    IsWritten attr ∧ '/' ∉ attr.1 := by
  simp only [isCanonicalAttribute, Bool.and_eq_true, bne_iff_ne, List.all_eq_true, Bool.not_eq_true'] at h
  obtain ⟨⟨⟨⟨hne, hchars⟩, -⟩, -⟩, hvalue⟩ := h
  have hslash : '/' ∉ attr.1 := fun hmem => (hchars '/' hmem).2 rfl
  refine ⟨⟨⟨hne, fun c hc => ?_, fun hhead => hslash (List.mem_of_head? hhead)⟩, fun value hmem => ?_⟩, hslash⟩
  · obtain ⟨⟨⟨⟨hblank, hequals⟩, hlt⟩, hgt⟩, -⟩ := hchars c hc
    exact ⟨hblank, hequals, hgt, hlt⟩
  · have hsome : attr.2 = some value := hmem
    rw [hsome, Option.all_some, Bool.and_eq_true, Bool.not_eq_true'] at hvalue
    simpa using hvalue.1

/-- The attributes of an opening tag are read back with their places. -/
theorem scanAttributes_canonical {attributes : List (Text × Option Text)}
    (h : attributes.all isCanonicalAttribute = true) {t : Text} {rounds : Nat}
    (hrounds : (attributes.flatMap attributeText ++ '>' :: t).length ≤ rounds) (start : Nat) :
    scanAttributes rounds start (attributes.flatMap attributeText ++ '>' :: t) =
      ⟨(placeAttributes start attributes, .closed), [], t,
        start + Text.byteSize (attributes.flatMap attributeText) + 1⟩ := by
  induction attributes generalizing rounds start with
  | nil =>
    cases rounds with
    | zero => cases hrounds
    | succ rounds => rfl
  | cons attr rest ih =>
    rw [List.all_cons, Bool.and_eq_true] at h
    obtain ⟨hwritten, hslash⟩ := isWritten_of_canonical h.1
    have hothers : ∀ other ∈ rest, IsWritten other :=
      fun other hother => (isWritten_of_canonical (List.all_eq_true.mp h.2 other hother)).1
    have hlength := two_le_length_attributeText hwritten
    rw [List.flatMap_cons, List.append_assoc, List.length_append] at hrounds
    obtain ⟨rounds, rfl⟩ : ∃ n, rounds = n + 2 := ⟨rounds - 2, by omega⟩
    rw [List.flatMap_cons, List.append_assoc,
      scanAttributes_attribute hwritten (endsAttribute_written hothers t)
        fun _ hlast => absurd (List.mem_of_getLast? hlast) hslash, ih h.2 (by omega)]
    simp only [placeAttributes, Text.byteSize_append, Nat.add_assoc]

/-- The element of an opening tag that is written at byte `start`, before its content is read. -/
def openElement (start : Nat) (name : Text) (attributes : List (Text × Option Text)) : Element :=
  let stop := start + Text.byteSize (BareNode.element name attributes).opening
  ⟨name, placeAttributes (start + 1 + Text.byteSize name) attributes, false, ⟨stop, stop⟩⟩

/-- What an opening tag is read as depends on its name. -/
theorem scanToken_opening {name : Text} {attributes : List (Text × Option Text)} (hname : IsTagName name)
    (hattributes : attributes.all isCanonicalAttribute = true) (start : Nat) (t : Text) :
    scanToken start '<' (name ++ (attributes.flatMap attributeText ++ '>' :: t)) =
      let element := openElement start name attributes
      let span : ByteSpan := ⟨start, element.content.start⟩
      if isVoid name then ⟨.complete element span none, [], t, span.stop⟩
      else if rawElements.contains name then scanRaw element span t
      else ⟨.opening element span, [], t, span.stop⟩ := by
  obtain ⟨htake, hdrop⟩ := hname.takeWhile_append (endsName_written attributes t)
  have hstop : start + 1 + Text.byteSize name + Text.byteSize (attributes.flatMap attributeText) + 1 =
      start + Text.byteSize (BareNode.element name attributes).opening := by
    rw [byteSize_opening]
    omega
  rw [scanToken_tag hname]
  simp only [scanOpening, htake, hdrop, hname.lower, scanAttributes_canonical hattributes (Nat.le_refl _),
    hstop, List.nil_append]
  rfl

/-! ## Reading on -/

namespace Building

/-- The building after a text that begins at byte `start` was read. -/
def read (building : Building) (start : Nat) (text : Text) : Building :=
  (tokensFrom text.length start text).foldl step building

variable {building : Building}

theorem read_cons {c : Char} {rest t : Text} {start stop : Nat} {token : Token}
    (h : scanToken start c rest = ⟨token, [], t, stop⟩) :
    building.read start (c :: rest) = (building.step (token, [])).read stop t := by
  have hlength : t.length ≤ rest.length := by
    have hsuffix := (scanToken_suffix start c rest).length_le
    rwa [h] at hsuffix
  rw [read, List.length_cons, tokensFrom, h]
  simp only [List.foldl_cons, read]
  rw [(tokenized_tokensFrom hlength stop).unique (tokenized_tokensFrom (Nat.le_refl _) stop)]

theorem report_nil : building.report [] = building := by
  rw [report, List.append_nil]

theorem attach_nil : building.attach .nil = building := by
  obtain ⟨top, elements, problems⟩ := building
  cases elements <;> simp only [attach, Forest.append_nil]

theorem attach_attach (f g : Forest Node) : (building.attach f).attach g = building.attach (f ++ g) := by
  obtain ⟨top, elements, problems⟩ := building
  cases elements <;> simp only [attach, Forest.append_assoc]

theorem step_opening (element : Element) (span : ByteSpan) :
    building.step (.opening element span, []) =
      { building with elements := ⟨element, span.start, .nil⟩ :: building.elements } := by
  have hstep : building.step (.opening element span, []) =
      { building.report [] with
        elements := ⟨element, span.start, .nil⟩ :: (building.report []).elements } := rfl
  rw [hstep, report_nil]

/-- A closing tag closes the innermost open element, if it has its name. -/
theorem step_closing {opened : OpenElement} {outer : List OpenElement} {top : Forest Node}
    {problems : List Problem} (hvoid : isVoid opened.element.name = false) (span : ByteSpan) :
    step ⟨top, opened :: outer, problems⟩ (.closing opened.element.name span, []) =
      attach ⟨top, outer, problems⟩ (.tree
        ⟨.element { opened.element with content := ⟨opened.element.content.start, span.start⟩ },
          ⟨opened.start, span.stop⟩, false⟩ opened.inside) := by
  have hinner : (opened :: outer).takeWhile (fun other => other.element.name != opened.element.name) = [] :=
    List.takeWhile_cons_of_neg (by simp)
  show closeTag (report ⟨top, opened :: outer, problems⟩ []) opened.element.name span = _
  rw [report_nil, closeTag, hvoid, if_neg Bool.false_ne_true]
  simp only [hinner, List.length_nil, List.length_cons]
  rw [if_neg (by omega)]
  rfl

end Building

/-! ## Texts -/

/-- The text leaves text before it as it is: markup begins at once, or nothing follows. -/
def EndsText (t : Text) : Prop :=
  textUntilMarkup t = ([], t)

theorem endsText_of_startsMarkup {t : Text} (h : startsMarkup t = true) : EndsText t := by
  cases t with
  | nil => rfl
  | cons c rest => rw [EndsText, textUntilMarkup, if_pos h]

theorem startsMarkup_tag {name : Text} (h : IsTagName name) (t : Text) :
    startsMarkup ('<' :: (name ++ t)) = true := by
  obtain ⟨c, rest, rfl, hc⟩ := h.exists_cons
  show (c == '!' || c == '/' || c.isAlpha) = true
  rw [hc, Bool.or_true]

theorem textUntilMarkup_append {text t : Text} (h : '<' ∉ text) (ht : EndsText t) :
    textUntilMarkup (text ++ t) = (text, t) := by
  induction text with
  | nil => exact ht
  | cons c rest ih =>
    rw [List.mem_cons, not_or] at h
    have hplain : ¬startsMarkup (c :: (rest ++ t)) = true := by
      rw [startsMarkup]
      · exact Bool.false_ne_true
      · intro d more heq
        exact h.1 (List.cons.inj heq).1.symm
    rw [List.cons_append, textUntilMarkup, if_neg hplain, ih h.2]

theorem isTagName_of_isVoid {name : Text} (h : isVoid name = true) : IsTagName name := by
  have hall : voidElements.all (fun name =>
      startsTagName name && name.all isTagChar && Text.toLower name == name) = true := by decide
  have hname := List.all_eq_true.mp hall name (by simpa [isVoid] using h)
  simp only [Bool.and_eq_true, List.all_eq_true, beq_iff_eq] at hname
  exact ⟨hname.1.1, hname.1.2, hname.2⟩

theorem isTagName_script : IsTagName "script".toList :=
  ⟨by decide, List.all_eq_true.mp (by decide), by decide⟩

/-- What is written for a forest that does not begin with a text ends a text before it. -/
theorem endsText_write {forest : Forest BareNode} (h : Canonical forest)
    (hnext : forest.roots.head?.any BareNode.isText = false) {t : Text} (ht : EndsText t) :
    EndsText (write forest ++ t) := by
  cases h with
  | nil => exact ht
  | text => cases hnext
  | comment => exact endsText_of_startsMarkup rfl
  | declaration => exact endsText_of_startsMarkup rfl
  | void hvoid =>
    rw [write, List.append_assoc, List.append_assoc, List.append_assoc, opening_append]
    exact endsText_of_startsMarkup (startsMarkup_tag (isTagName_of_isVoid hvoid) _)
  | script => exact endsText_of_startsMarkup rfl
  | element hname =>
    rw [write, List.append_assoc, List.append_assoc, List.append_assoc, opening_append]
    exact endsText_of_startsMarkup (startsMarkup_tag hname _)

/-! ## Scripts -/

theorem cutFolded_eq_none {phrase t : Text} (hphrase : phrase ≠ [])
    (h : Text.holds phrase (Text.toLower t) = false) : cutFolded phrase t = none := by
  rw [Text.holds, Option.isSome_eq_false_iff, Option.isNone_iff_eq_none] at h
  induction t with
  | nil => rw [cutFolded, if_neg hphrase]
  | cons c rest ih =>
    obtain ⟨hstart, hrest⟩ := Text.cut_cons_eq_none.mp h
    have hmissing : ¬phrase.isPrefixOf (Text.toLower (c :: rest)) = true := by
      rw [List.isPrefixOf_iff_prefix]
      exact hstart
    rw [cutFolded, if_neg hmissing, ih hrest]
    rfl

/-- An element whose content is text is read up to its closing tag. -/
theorem scanRaw_written {element : Element} (hname : IsTagName element.name) {content : Text}
    (hcontent : cutFolded ('<' :: '/' :: element.name) content = none) (span : ByteSpan) (t : Text) :
    scanRaw element span (content ++ ('<' :: '/' :: element.name ++ '>' :: t)) =
      let stop := span.stop + Text.byteSize content + Text.byteSize ('<' :: '/' :: element.name) + 1
      ⟨.complete { element with content := ⟨span.stop, span.stop + Text.byteSize content⟩ }
        ⟨span.start, stop⟩ (if content = [] then none else some content), [], t, stop⟩ := by
  simp only [scanRaw, cutFolded_append hname hcontent, splitOnce_closing hname]

/-! ## Nodes -/

/-- A node and what stands below it, as read where it is written at byte `start`. -/
def placeTree (start : Nat) (node : BareNode) (below : Forest BareNode) : Forest Node :=
  let inner := start + Text.byteSize node.opening
  let innerStop := inner + Text.byteSize (write below)
  .tree ⟨node.kind start ⟨inner, innerStop⟩, ⟨start, innerStop + Text.byteSize node.closing⟩, false⟩
    (place inner below)

/-- A node and what stands below it are read back from what is written for them, and reading goes on behind
them with `t`. -/
def TreeReadsBack (node : BareNode) (below : Forest BareNode) (t : Text) : Prop :=
  ∀ (building : Building) (start : Nat),
    building.read start (node.opening ++ (write below ++ (node.closing ++ t))) =
      (building.attach (placeTree start node below)).read (start + Text.byteSize node.opening
        + Text.byteSize (write below) + Text.byteSize node.closing) t

/-- A forest is read back from what is written for it, and reading goes on behind it with `t`. -/
def ReadsBack (forest : Forest BareNode) (t : Text) : Prop :=
  ∀ (building : Building) (start : Nat), building.read start (write forest ++ t) =
    (building.attach (place start forest)).read (start + Text.byteSize (write forest)) t

section

variable {t : Text}

/-- A token that is a node by itself is attached where it is read. -/
theorem read_leaf {building : Building} {start stop : Nat} {c : Char} {rest : Text} {token : Token}
    {nodes : Forest Node}
    (hscan : scanToken start c rest = ⟨token, [], t, stop⟩)
    (hstep : building.step (token, []) = (building.report []).attach nodes) :
    building.read start (c :: rest) = (building.attach nodes).read stop t := by
  rw [Building.read_cons hscan, hstep, Building.report_nil]

theorem read_text {text : Text} (hne : text ≠ []) (hmarkup : '<' ∉ text) (ht : EndsText t) :
    TreeReadsBack (.text text) .nil t := by
  intro building start
  obtain ⟨c, rest, rfl⟩ := List.exists_cons_of_ne_nil hne
  rw [List.mem_cons, not_or] at hmarkup
  have hscan : scanToken start c (rest ++ t) = scanText start c (rest ++ t) :=
    scanToken_of_not_opens (opensMarkup_of_ne (Ne.symm hmarkup.1) _) start
  rw [scanText, textUntilMarkup_append hmarkup.2 ht] at hscan
  exact read_leaf hscan rfl

theorem read_comment {text : Text} (hend : Text.holds "-->".toList text = false) :
    TreeReadsBack (.comment text) .nil t := by
  intro building start
  rw [Text.holds, Option.isSome_eq_false_iff, Option.isNone_iff_eq_none] at hend
  have hscan := scanToken_comment hend start t
  have hstop : start + 4 + Text.byteSize text + 3 =
      start + Text.byteSize (BareNode.comment text).opening := by
    have hopening : (BareNode.comment text).opening = "<!--".toList ++ text ++ "-->".toList := rfl
    have hopen : Text.byteSize "<!--".toList = 4 := rfl
    have hclose : Text.byteSize "-->".toList = 3 := rfl
    rw [hopening, Text.byteSize_append, Text.byteSize_append, hopen, hclose]
    omega
  rw [hstop] at hscan
  exact read_leaf hscan rfl

theorem read_declaration {text : Text} (hend : '>' ∉ text) (hdashes : ¬"--".toList <+: text) :
    TreeReadsBack (.declaration text) .nil t := by
  intro building start
  have hopening : (BareNode.declaration text).opening = "<!".toList ++ text ++ ['>'] := rfl
  have hscan := scanToken_declaration ⟨hend, hdashes⟩ start t
  have hstop : start + 2 + Text.byteSize text + 1 =
      start + Text.byteSize (BareNode.declaration text).opening := by
    have hopen : Text.byteSize "<!".toList = 2 := rfl
    have hclose : Text.byteSize ['>'] = 1 := rfl
    rw [hopening, Text.byteSize_append, Text.byteSize_append, hopen, hclose]
    omega
  have hwritten : (BareNode.declaration text).opening ++ t = '<' :: '!' :: (text ++ '>' :: t) := by
    rw [hopening, List.append_assoc, List.append_assoc]
    rfl
  rw [hstop] at hscan
  exact (congrArg (building.read start) hwritten).trans (read_leaf hscan rfl)

variable {name : Text} {attributes : List (Text × Option Text)} {below : Forest BareNode}

theorem read_void (hvoid : isVoid name = true) (hattributes : attributes.all isCanonicalAttribute = true) :
    TreeReadsBack (.element name attributes) .nil t := by
  intro building start
  have hscan := scanToken_opening (isTagName_of_isVoid hvoid) hattributes start t
  have hclosing : (BareNode.element name attributes).closing = [] := if_pos hvoid
  simp only [hvoid, if_true] at hscan
  rw [opening_append, placeTree, hclosing]
  exact read_leaf hscan rfl

/-- An element whose content is text, or nothing, is one token. -/
theorem read_raw (hname : IsTagName name) (hvoid : isVoid name = false)
    (hraw : rawElements.contains name = true) (hattributes : attributes.all isCanonicalAttribute = true)
    (hbelow : below = .nil ∨ ∃ content, content ≠ [] ∧
      cutFolded ('<' :: '/' :: name) content = none ∧ below = .tree (.text content) .nil) :
    TreeReadsBack (.element name attributes) below t := by
  intro building start
  have hscan (content : Text) (hcontent : cutFolded ('<' :: '/' :: name) content = none) := by
    have hopening := scanToken_opening hname hattributes start (content ++ '<' :: '/' :: (name ++ '>' :: t))
    simp only [hvoid, hraw, Bool.false_eq_true, if_false, if_true] at hopening
    exact hopening.trans (@scanRaw_written (openElement start name attributes) hname content hcontent
      ⟨start, (openElement start name attributes).content.start⟩ t)
  have hsize : Text.byteSize ('<' :: '/' :: name) = 2 + Text.byteSize name := by
    have hmarks : Text.byteSize ('<' :: '/' :: name) = 1 + (1 + Text.byteSize name) := rfl
    omega
  rw [opening_append, closing_append _ _ hvoid, placeTree, byteSize_closing _ hvoid, ← hsize]
  rcases hbelow with rfl | ⟨content, hne, hcontent, rfl⟩
  · exact read_leaf (hscan [] rfl) rfl
  · have hcomplete := hscan content hcontent
    simp only [if_neg hne] at hcomplete
    rw [write_text]
    exact read_leaf hcomplete rfl

theorem read_element (hname : IsTagName name) (hraw : rawElements.contains name = false)
    (hvoid : isVoid name = false) (hattributes : attributes.all isCanonicalAttribute = true)
    (hbelow : ∀ t, EndsText t → ReadsBack below t) :
    TreeReadsBack (.element name attributes) below t := by
  intro building start
  have hscan := scanToken_opening hname hattributes start
    (write below ++ ((BareNode.element name attributes).closing ++ t))
  simp only [hvoid, hraw, Bool.false_eq_true, if_false] at hscan
  have hends : EndsText ((BareNode.element name attributes).closing ++ t) := by
    rw [closing_append _ _ hvoid]
    exact endsText_of_startsMarkup rfl
  -- the content is attached to the element, and the closing tag attaches the element where it was opened
  have hclose := @Building.step_closing ⟨openElement start name attributes, start,
    place (start + Text.byteSize (BareNode.element name attributes).opening) below⟩ building.elements
    building.top building.problems hvoid
  rw [opening_append, Building.read_cons hscan, Building.step_opening, hbelow _ hends,
    closing_append _ _ hvoid, Building.read_cons (scanToken_closing hname _ t), placeTree, byteSize_closing _ hvoid,
    ← Nat.add_assoc, ← Nat.add_assoc]
  exact congrArg₂ (fun (building : Building) stop => building.read stop t) (hclose _) rfl

end

/-! ## Forests -/

/-- A tree is read, then the trees after it. -/
theorem read_tree {node : BareNode} {below after : Forest BareNode} {t : Text}
    (htree : TreeReadsBack node below (write after ++ t)) (hafter : ReadsBack after t) :
    ReadsBack (.cons node below after) t := by
  intro building start
  simp only [write, List.append_assoc, Text.byteSize_append, ← Nat.add_assoc]
  rw [htree, hafter, Building.attach_attach]
  rfl

/-- **What is written for a canonical forest is read back.** The nodes are attached to the innermost open
element, and reading goes on behind them. -/
theorem read_write {forest : Forest BareNode} (h : Canonical forest) (t : Text) (ht : EndsText t) :
    ReadsBack forest t := by
  induction h generalizing t with
  | nil =>
    intro building start
    rw [place, Building.attach_nil]
    rfl
  | text hne hmarkup htag hnext hafter ih =>
    exact read_tree (read_text hne hmarkup (endsText_write hafter hnext ht)) (ih t ht)
  | comment hend hafter ih => exact read_tree (read_comment hend) (ih t ht)
  | declaration hend hdashes hafter ih => exact read_tree (read_declaration hend hdashes) (ih t ht)
  | void hvoid hattributes hafter ih => exact read_tree (read_void hvoid hattributes) (ih t ht)
  | script hattributes hbelow hafter ih =>
    refine read_tree (read_raw isTagName_script (by decide) (by decide) hattributes ?_) (ih t ht)
    refine hbelow.imp_right ?_
    rintro ⟨content, hne, hend, hcontent⟩
    exact ⟨content, hne, cutFolded_eq_none (by decide) hend, hcontent⟩
  | @element name _ _ _ hname hreserved hvoid hattributes hbelow hafter ihbelow ihafter =>
    refine read_tree (read_element hname ?_ hvoid hattributes ihbelow) (ihafter t ht)
    have hsubset : ∀ other ∈ rawElements, other ∈ reservedElements := by decide
    rw [List.contains_eq_mem, decide_eq_false_iff_not]
    exact fun hmem => hreserved (hsubset name hmem)

theorem parse_of_read {forest : Forest BareNode} (h : ReadsBack forest []) :
    parse (write forest) = (place 0 forest, []) := by
  have hread := h .start 0
  rw [List.append_nil] at hread
  have htokens : (tokens (write forest)).foldl Building.step .start = Building.start.attach (place 0 forest) := hread
  rw [parse, htokens]
  rfl

/-- Reading what is written for a canonical forest gives its nodes where they were written, and no
problems. -/
theorem parse_write {forest : Forest BareNode} (h : Canonical forest) :
    parse (write forest) = (place 0 forest, []) :=
  parse_of_read (read_write h [] rfl)

end Sitewright.Markup
