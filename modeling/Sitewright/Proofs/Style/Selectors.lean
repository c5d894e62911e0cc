import Sitewright.Proofs.Style.Flatten
import Sitewright.Proofs.Style.Reprint

/-!
Selectors that are legible wherever they are printed. A selector is closed if its strings and brackets are,
if its commas stand inside of them, and if it has no slash outside of a string. A closed selector stays closed
with closed parents in place of `&`, and a list of closed selectors is read back as it is printed.
-/

namespace Sitewright.Style

variable {text : Text}

/-! ## Strings and brackets -/

/-- Where a walk through a selector is: how many brackets are open, and in which string it is. -/
structure Nesting where
  depth : Nat
  quote : Option Char
  deriving DecidableEq, Repr

namespace Nesting

variable {c : Char}

/-- In no string and no brackets. -/
def ground : Nesting := ⟨0, none⟩

/-- Reads one character. In a string, neither `&` nor a backslash may stand; outside of strings, there are
commas only in brackets, and no slashes. -/
def next (nesting : Nesting) (c : Char) : Option Nesting :=
  match nesting.quote with
  | some quote =>
    if c = '\\' ∨ c = '&' then none
    else if c = quote then some ⟨nesting.depth, none⟩
    else some nesting
  | none =>
    if c = '"' ∨ c = '\'' then some ⟨nesting.depth, some c⟩
    else if c = '(' ∨ c = '[' then some ⟨nesting.depth + 1, none⟩
    else if c = ')' ∨ c = ']' then if nesting.depth = 0 then none else some ⟨nesting.depth - 1, none⟩
    else if c = ',' ∧ nesting.depth = 0 then none
    else if Lexer.isSpecial c then none
    else some nesting

/-- Reads a text. -/
def read (nesting : Nesting) : Text → Option Nesting
  | [] => some nesting
  | c :: rest => (nesting.next c).bind fun nesting => nesting.read rest

/-- Inside more brackets. -/
def deeper (more : Nat) (nesting : Nesting) : Nesting :=
  ⟨nesting.depth + more, nesting.quote⟩

/-- Where the walk through plain text is. -/
def scan (nesting : Nesting) : Scan :=
  match nesting.quote with
  | some quote => .quoted quote false
  | none => .out

variable {nesting after : Nesting}

theorem read_append {middle : Nesting} {a b : Text} (ha : nesting.read a = some middle)
    (hb : middle.read b = some after) : nesting.read (a ++ b) = some after := by
  induction a generalizing nesting with
  | nil =>
    cases ha
    exact hb
  | cons c rest ih =>
    rw [read, Option.bind_eq_some_iff] at ha
    obtain ⟨first, hfirst, hrest⟩ := ha
    rw [List.cons_append, read, hfirst, Option.bind_some, ih hrest]

/-- What reading one character can do. -/
inductive Step (depth : Nat) : Option Char → Char → Nesting → Prop
  | leave {quote : Char} (hplain : ¬(quote = '\\' ∨ quote = '&')) : Step depth (some quote) quote ⟨depth, none⟩
  | stay {quote c : Char} (hplain : ¬(c = '\\' ∨ c = '&')) (hquote : c ≠ quote) :
    Step depth (some quote) c ⟨depth, some quote⟩
  | enter {c : Char} (hquote : c = '"' ∨ c = '\'') : Step depth none c ⟨depth, some c⟩
  | opening {c : Char} (hopen : c = '(' ∨ c = '[') : Step depth none c ⟨depth + 1, none⟩
  | closing {c : Char} (hclose : c = ')' ∨ c = ']') (hdepth : depth ≠ 0) : Step depth none c ⟨depth - 1, none⟩
  | pass {c : Char} (hquote : ¬(c = '"' ∨ c = '\'')) (hopen : ¬(c = '(' ∨ c = '['))
    (hclose : ¬(c = ')' ∨ c = ']')) (hcomma : ¬(c = ',' ∧ depth = 0)) (hspecial : Lexer.isSpecial c = false) :
    Step depth none c ⟨depth, none⟩

theorem step_of_next {depth : Nat} {quote : Option Char} (h : next ⟨depth, quote⟩ c = some after) :
    Step depth quote c after := by
  cases quote with
  | some quote =>
    simp only [next] at h
    split at h
    · cases h
    next hplain =>
      split at h <;> cases h
      next hquote => exact hquote ▸ .leave (hquote ▸ hplain)
      next hquote => exact .stay hplain hquote
  | none =>
    simp only [next] at h
    split at h
    next hquote =>
      cases h
      exact .enter hquote
    next hquote =>
      split at h
      next hopen =>
        cases h
        exact .opening hopen
      next hopen =>
        split at h
        next hclose =>
          split at h <;> cases h
          next hdepth => exact .closing hclose hdepth
        next hclose =>
          split at h
          · cases h
          next hcomma =>
            split at h <;> cases h
            next hspecial => exact .pass hquote hopen hclose hcomma (by simpa using hspecial)

theorem next_deeper (h : nesting.next c = some after) (more : Nat) :
    (nesting.deeper more).next c = some (after.deeper more) := by
  obtain ⟨depth, quote⟩ := nesting
  cases step_of_next h with
  | leave hplain => simp only [deeper, next, if_neg hplain, if_true]
  | stay hplain hquote => simp only [deeper, next, if_neg hplain, if_neg hquote]
  | enter hquote => simp only [deeper, next, if_pos hquote]
  | opening hopen =>
    have hdepth : depth + 1 + more = depth + more + 1 := by omega
    rcases hopen with rfl | rfl <;> simp [deeper, next, hdepth]
  | closing hclose hdepth =>
    have hpos : depth + more ≠ 0 := by omega
    have hsub : depth - 1 + more = depth + more - 1 := by omega
    have hif : (if depth + more = 0 then none else some (⟨depth + more - 1, none⟩ : Nesting)) =
        some (deeper more ⟨depth - 1, none⟩) := by
      rw [if_neg hpos, deeper, hsub]
    rcases hclose with rfl | rfl <;> exact hif
  | pass hquote hopen hclose hcomma hspecial =>
    have hcomma' : ¬(c = ',' ∧ depth + more = 0) := fun heq => hcomma ⟨heq.1, by omega⟩
    simp only [deeper, next, if_neg hquote, if_neg hopen, if_neg hclose, if_neg hcomma', hspecial,
      Bool.false_eq_true, if_false]

theorem read_deeper {t : Text} (h : nesting.read t = some after) (more : Nat) :
    (nesting.deeper more).read t = some (after.deeper more) := by
  induction t generalizing nesting with
  | nil =>
    cases h
    rfl
  | cons c rest ih =>
    rw [read, Option.bind_eq_some_iff] at h
    obtain ⟨first, hfirst, hrest⟩ := h
    rw [read, next_deeper hfirst, Option.bind_some, ih hrest]

/-- The walk knows where the lexer is. -/
theorem scan_next (h : nesting.next c = some after) (hblank : isBlank c = true → c = ' ') :
    nesting.scan.next c = some after.scan := by
  obtain ⟨depth, quote⟩ := nesting
  have hline : c ≠ '\n' := by
    rintro rfl
    cases hblank (by decide)
  cases step_of_next h with
  | leave hplain => simp only [scan, Scan.next, if_neg hline, Bool.false_eq_true, if_false, if_true]
  | stay hplain hquote =>
    rw [not_or] at hplain
    have hescape : (c == '\\') = false := beq_eq_false_iff_ne.mpr hplain.1
    simp only [scan, Scan.next, if_neg hline, if_neg hquote, hescape, Bool.false_eq_true, if_false]
  | enter hquote => rcases hquote with rfl | rfl <;> rfl
  | opening hopen => rcases hopen with rfl | rfl <;> rfl
  | closing hclose hdepth => rcases hclose with rfl | rfl <;> rfl
  | pass hquote hopen hclose hcomma hspecial => exact Lexer.opening_of_not_isSpecial hspecial

theorem scan_read {t : Text} (h : nesting.read t = some after) (hblank : ∀ c ∈ t, isBlank c = true → c = ' ') :
    nesting.scan.read t = some after.scan := by
  induction t generalizing nesting with
  | nil =>
    cases h
    rfl
  | cons c rest ih =>
    rw [List.forall_mem_cons] at hblank
    rw [read, Option.bind_eq_some_iff] at h
    obtain ⟨first, hfirst, hrest⟩ := h
    rw [Scan.read, scan_next hfirst hblank.1, Option.bind_some, ih hrest hblank.2]

/-- The walk knows where a list of selectors is split. -/
theorem splitSelectors_next (h : nesting.next c = some after) (before rest : Text) :
    splitSelectors nesting.depth nesting.quote before (c :: rest) =
      splitSelectors after.depth after.quote (c :: before) rest := by
  obtain ⟨depth, quote⟩ := nesting
  cases step_of_next h with
  | leave hplain => rw [splitSelectors, if_pos rfl]
  | stay hplain hquote => rw [splitSelectors, if_neg hquote]
  | enter hquote => rw [splitSelectors, if_pos hquote]
  | opening hopen => rcases hopen with rfl | rfl <;> rfl
  | closing hclose hdepth => rcases hclose with rfl | rfl <;> rfl
  | pass hquote hopen hclose hcomma hspecial =>
    rw [splitSelectors, if_neg hquote, if_neg hopen, if_neg hclose, if_neg hcomma]

theorem splitSelectors_read {t : Text} (h : nesting.read t = some after) (before rest : Text) :
    splitSelectors nesting.depth nesting.quote before (t ++ rest) =
      splitSelectors after.depth after.quote (t.reverse ++ before) rest := by
  induction t generalizing nesting before with
  | nil =>
    cases h
    rfl
  | cons c t ih =>
    rw [read, Option.bind_eq_some_iff] at h
    obtain ⟨first, hfirst, hrest⟩ := h
    rw [List.cons_append, splitSelectors_next hfirst, ih hrest, List.reverse_cons, List.append_assoc]
    rfl

end Nesting

/-- Strings and brackets of the selector are closed, and it has no comma outside of them. -/
def Closed (selector : Text) : Prop :=
  Nesting.ground.read selector = some .ground

instance (selector : Text) : Decidable (Closed selector) :=
  inferInstanceAs (Decidable (_ = _))

theorem Closed.append {a b : Text} (ha : Closed a) (hb : Closed b) : Closed (a ++ b) :=
  Nesting.read_append ha hb

/-- A closed parent may stand wherever `&` does. -/
theorem read_replace {parent : Text} (hparent : Closed parent) {nesting after : Nesting} {t : Text}
    (h : nesting.read t = some after) : nesting.read (Text.replace '&' parent t) = some after := by
  induction t generalizing nesting with
  | nil => exact h
  | cons c rest ih =>
    rw [Nesting.read, Option.bind_eq_some_iff] at h
    obtain ⟨first, hfirst, hrest⟩ := h
    have hreplace : Text.replace '&' parent (c :: rest) =
        (if c = '&' then parent else [c]) ++ Text.replace '&' parent rest := rfl
    rw [hreplace]
    refine Nesting.read_append ?_ (ih hrest)
    split
    next heq =>
      -- the walk is in no string here, but it may be in brackets
      subst heq
      obtain ⟨depth, quote⟩ := nesting
      cases quote with
      | some quote => cases hfirst
      | none =>
        cases hfirst
        have hdeeper := Nesting.read_deeper hparent depth
        rwa [Nesting.deeper, Nesting.ground, Nat.zero_add] at hdeeper
    next =>
      rw [Nesting.read, hfirst]
      rfl

/-! ## Pieces of a selector list -/

/-- A selector list is cut at commas, and the pieces are trimmed. -/
theorem exists_pieces (depth : Nat) (quote : Option Char) (before text : Text) :
    ∃ pieces, splitSelectors depth quote before text = pieces.map Text.trim ∧ pieces ≠ [] ∧
      Text.join [','] pieces = before.reverse ++ text := by
  fun_induction splitSelectors depth quote before text with
  | case1 depth quote before =>
    refine ⟨[before.reverse], rfl, List.cons_ne_nil _ _, ?_⟩
    rw [Text.join_singleton, List.append_nil]
  | case6 depth before c rest _ _ _ hcomma ih =>
    obtain ⟨pieces, hsplit, hne, hjoin⟩ := ih
    refine ⟨before.reverse :: pieces, by rw [hsplit]; rfl, List.cons_ne_nil _ _, ?_⟩
    rw [Text.join_cons hne, hjoin, hcomma.1]
    simp
  | case2 _ _ _ _ _ ih | case3 _ _ _ _ _ ih | case4 _ _ _ _ _ _ ih | case5 _ _ _ _ _ _ _ ih
  | case7 _ _ _ _ _ _ _ _ ih =>
    obtain ⟨pieces, hsplit, hne, hjoin⟩ := ih
    exact ⟨pieces, hsplit, hne, by rw [hjoin]; simp⟩

theorem spaced_of_mem_selectorList {token : Text} (htext : Text.Spaced text) (h : token ∈ selectorList text) :
    Text.Spaced token := by
  obtain ⟨pieces, hsplit, -, hjoin⟩ := exists_pieces 0 none [] text
  rw [selectorList, hsplit] at h
  obtain ⟨piece, hpiece, rfl⟩ := List.mem_map.mp h
  obtain ⟨w, w', -, -, heq⟩ := Text.exists_trim piece
  have hpart : Text.trim piece <:+: piece := ⟨w, w', heq.symm⟩
  have hwhole := Text.infix_join_of_mem [','] hpiece
  rw [hjoin] at hwhole
  exact htext.infix (hpart.trans hwhole)

/-- The first selector begins as the list does. -/
theorem head?_of_selectorList {token : Text} (htext : Text.Trimmed text)
    (h : (selectorList text).head? = some token) (hne : token ≠ []) : token.head? = text.head? := by
  obtain ⟨pieces, hsplit, hpieces, hjoin⟩ := exists_pieces 0 none [] text
  obtain ⟨first, rest, rfl⟩ := List.exists_cons_of_ne_nil hpieces
  rw [selectorList, hsplit, List.map_cons, List.head?_cons, Option.some.injEq] at h
  obtain ⟨after, hafter⟩ := Text.prefix_join [','] first rest
  rw [hjoin] at hafter
  have hfirst : first ≠ [] := by
    rintro rfl
    exact hne h.symm
  have hhead : first.head? = text.head? := by
    rw [← List.head?_append_of_ne_nil first hfirst, hafter]
    rfl
  have hstart : Text.trimStart first = first :=
    Text.trimStart_eq_self fun c hc => htext.head c (hhead ▸ hc)
  obtain ⟨w, -, heq⟩ := Text.exists_trimEnd first
  rw [Text.trim, hstart] at h
  rw [h] at heq
  rw [← hhead, heq, List.head?_append_of_ne_nil _ hne]

/-! ## Selectors that stand on their own -/

/-- A selector that can be printed anywhere. -/
structure Standing (selector : Text) : Prop where
  ne_nil : selector ≠ []
  closed : Closed selector
  parent : '&' ∉ selector
  trimmed : Text.Trimmed selector
  spaced : Text.Spaced selector

theorem replace_cons (c : Char) (substitute : Text) (d : Char) (t : Text) :
    Text.replace c substitute (d :: t) = (if d = c then substitute else [d]) ++ Text.replace c substitute t := rfl

theorem replace_append (c : Char) (substitute a b : Text) :
    Text.replace c substitute (a ++ b) = Text.replace c substitute a ++ Text.replace c substitute b :=
  List.flatMap_append

section

variable {parent t : Text} (hparent : Standing parent)
include hparent

theorem head?_replace : (Text.replace '&' parent t).head? =
    if t.head? = some '&' then parent.head? else t.head? := by
  cases t with
  | nil => rfl
  | cons c rest =>
    simp only [replace_cons, List.head?_cons, Option.some.injEq]
    split
    · exact List.head?_append_of_ne_nil _ hparent.ne_nil
    · rfl

theorem getLast?_replace : (Text.replace '&' parent t).getLast? =
    if t.getLast? = some '&' then parent.getLast? else t.getLast? := by
  rcases List.eq_nil_or_concat t with rfl | ⟨init, c, rfl⟩
  · rfl
  · simp only [List.concat_eq_append, replace_append, List.getLast?_append_of_ne_nil _ (List.cons_ne_nil c []),
      List.getLast?_singleton, Option.some.injEq]
    have hlast : Text.replace '&' parent [c] = if c = '&' then parent else [c] := by
      rw [replace_cons]
      exact List.append_nil _
    rw [hlast]
    split
    · exact List.getLast?_append_of_ne_nil _ hparent.ne_nil
    · exact List.getLast?_append_of_ne_nil _ (List.cons_ne_nil c [])

theorem trimmed_replace (h : Text.Trimmed t) : Text.Trimmed (Text.replace '&' parent t) := by
  constructor
  · rw [head?_replace hparent]
    split
    · exact hparent.trimmed.head
    · exact h.head
  · rw [getLast?_replace hparent]
    split
    · exact hparent.trimmed.last
    · exact h.last

theorem spaced_replace (h : Text.Spaced t) : Text.Spaced (Text.replace '&' parent t) := by
  induction t with
  | nil => exact h
  | cons c rest ih =>
    have hrest : Text.Spaced rest := h.infix (List.suffix_cons c rest).isInfix
    rw [replace_cons]
    split
    · exact Text.spaced_append hparent.spaced (ih hrest) fun d hd _ _ => .inl (hparent.trimmed.last d hd)
    · refine Text.spaced_append (Text.spaced_singleton (h.space c List.mem_cons_self)) (ih hrest) ?_
      intro d hd e he
      obtain rfl : c = d := Option.some.inj hd
      rw [head?_replace hparent] at he
      split at he
      · exact .inr (hparent.trimmed.head e he)
      · exact h.apart.rel_head? he

theorem not_mem_replace : '&' ∉ Text.replace '&' parent t := by
  intro hmem
  obtain ⟨c, -, hc⟩ := List.mem_flatMap.mp hmem
  split at hc
  · exact hparent.parent hc
  next hne => exact hne (List.mem_singleton.mp hc).symm

end

/-- A selector of a rule can be printed inside the selectors around it. -/
def Orderly (context : Context) (token : Text) : Prop :=
  Closed token ∧ ('&' ∈ token → context.hasParent = true ∧ token.head? ≠ some '%')

instance (context : Context) (token : Text) : Decidable (Orderly context token) :=
  inferInstanceAs (Decidable (_ ∧ (_ → _ ∧ _)))

/-- Selectors that a rule takes from the rules around it. -/
structure Inherited (context : Context) (selectors : List Text) : Prop where
  standing : ∀ selector ∈ selectors, Standing selector
  nodup : selectors.Nodup
  sign : ∀ selector ∈ selectors.head?, selector.head? ≠ some '@'
  parent : selectors ≠ [] ↔ context.hasParent = true

section

variable {context : Context} {parents : List Text} {token : Text}

theorem standing_of_mem_expandSelector (hparents : Inherited context parents) (htoken : Orderly context token)
    (hne : token ≠ []) (htrimmed : Text.Trimmed token) (hspaced : Text.Spaced token) {selector : Text}
    (h : selector ∈ expandSelector parents token) : Standing selector := by
  have hself (hnot : '&' ∉ token) : Standing token := ⟨hne, htoken.1, hnot, htrimmed, hspaced⟩
  rw [expandSelector] at h
  split at h
  next hplaceholder =>
    rw [List.mem_singleton.mp h]
    exact hself fun hmem => (htoken.2 hmem).2 hplaceholder
  next =>
    split at h
    next hnil =>
      have hnot : '&' ∉ token := fun hmem => hparents.parent.mpr (htoken.2 hmem).1 hnil
      rw [List.mem_singleton.mp h, replace_eq_self hnot, htrimmed.trim_eq]
      exact hself hnot
    next =>
      split at h
      next hcontains =>
        obtain ⟨parent, hmem, rfl⟩ := List.mem_map.mp h
        have hparent := hparents.standing parent hmem
        exact ⟨replace_ne_nil hparent.ne_nil (by simpa using hcontains), read_replace hparent.closed htoken.1,
          not_mem_replace hparent, trimmed_replace hparent htrimmed, spaced_replace hparent hspaced⟩
      next hcontains =>
        have hnot : '&' ∉ token := by simpa using hcontains
        obtain ⟨parent, hmem, rfl⟩ := List.mem_map.mp h
        have hparent := hparents.standing parent hmem
        have hspace : Closed [' '] := by decide
        rw [← List.singleton_append, ← List.append_assoc]
        refine ⟨List.append_ne_nil_of_right_ne_nil _ hne, (hparent.closed.append hspace).append htoken.1, ?_,
          ⟨?_, ?_⟩, ?_⟩
        · simp [hparent.parent, hnot]
        · rw [List.append_assoc, List.head?_append_of_ne_nil _ hparent.ne_nil]
          exact hparent.trimmed.head
        · rw [List.getLast?_append_of_ne_nil _ hne]
          exact htrimmed.last
        · have hleft : Text.Spaced (parent ++ [' ']) :=
            Text.spaced_append hparent.spaced (Text.spaced_singleton fun _ => rfl)
              fun c hc _ _ => .inl (hparent.trimmed.last c hc)
          exact Text.spaced_append hleft hspaced fun _ _ c hc => .inr (htrimmed.head c hc)

/-- The first selector that a selector makes begins like it or like the first parent. -/
theorem head?_of_expandSelector (hparents : Inherited context parents) (htoken : Orderly context token)
    (htrimmed : Text.Trimmed token) (hsign : token.head? ≠ some '@') :
    ∃ first rest, expandSelector parents token = first :: rest ∧ first.head? ≠ some '@' := by
  rw [expandSelector]
  split
  · exact ⟨token, [], rfl, hsign⟩
  · cases hcase : parents with
    | nil =>
      have hnot : '&' ∉ token := fun hmem => hparents.parent.mpr (htoken.2 hmem).1 hcase
      refine ⟨token, [], ?_, hsign⟩
      rw [if_pos rfl, replace_eq_self hnot, htrimmed.trim_eq]
    | cons parent others =>
      rw [hcase] at hparents
      have hparent := hparents.standing parent List.mem_cons_self
      have hfirst := hparents.sign parent rfl
      rw [if_neg (List.cons_ne_nil _ _)]
      split
      · refine ⟨_, _, rfl, ?_⟩
        rw [head?_replace hparent]
        split
        · exact hfirst
        · exact hsign
      · refine ⟨_, _, rfl, ?_⟩
        rw [List.head?_append_of_ne_nil _ hparent.ne_nil]
        exact hfirst

/-- The selectors of a rule are such that the rules inside it can take them over. -/
theorem inherited_combine (hparents : Inherited context parents) {text : Text} (htrimmed : Text.Trimmed text)
    (hspaced : Text.Spaced text) (hsign : text.head? ≠ some '@') (hempty : [] ∉ selectorList text)
    (htokens : ∀ token ∈ selectorList text, Orderly context token) :
    Inherited (context.inside (.style (selectorList text))) (combine parents (selectorList text)) := by
  have hne (token : Text) (h : token ∈ selectorList text) : token ≠ [] := fun heq => hempty (heq ▸ h)
  have hstanding : ∀ selector ∈ combine parents (selectorList text), Standing selector := by
    intro selector hselector
    obtain ⟨-, token, htoken, hmem⟩ := mem_combine.mp hselector
    exact standing_of_mem_expandSelector hparents (htokens token htoken) (hne token htoken)
      (trimmed_of_mem_selectorList htoken) (spaced_of_mem_selectorList hspaced htoken) hmem
  obtain ⟨token, rest, hlist⟩ := List.exists_cons_of_ne_nil (splitSelectors_ne_nil 0 none [] text)
  replace hlist : selectorList text = token :: rest := hlist
  have htoken : token ∈ selectorList text := hlist ▸ List.mem_cons_self
  have htokenSign : token.head? ≠ some '@' := by
    rw [head?_of_selectorList htrimmed (by rw [hlist]; rfl) (hne token htoken)]
    exact hsign
  obtain ⟨first, others, hexpand, hfirst⟩ :=
    head?_of_expandSelector hparents (htokens token htoken) (trimmed_of_mem_selectorList htoken) htokenSign
  have hfirstNe : first ≠ [] :=
    (standing_of_mem_expandSelector hparents (htokens token htoken) (hne token htoken)
      (trimmed_of_mem_selectorList htoken) (spaced_of_mem_selectorList hspaced htoken)
      (hexpand ▸ List.mem_cons_self)).ne_nil
  have hhead : (combine parents (selectorList text)).head? = some first := by
    rw [combine, hlist, List.flatMap_cons, hexpand, List.cons_append,
      List.filter_cons_of_pos (by simpa using hfirstNe), List.eraseDups_cons]
    rfl
  refine ⟨hstanding, nodup_eraseDups _, ?_, fun _ => rfl, fun _ hnil => ?_⟩
  · intro selector hselector
    rw [hhead] at hselector
    cases hselector
    exact hfirst
  · rw [hnil] at hhead
    cases hhead

end

/-! ## Lists of selectors -/

section

variable {selectors : List Text} (h : ∀ selector ∈ selectors, Standing selector)
include h

theorem read_join : Scan.out.read (Text.join ", ".toList selectors) = some .out := by
  induction selectors with
  | nil => rfl
  | cons selector rest ih =>
    rw [List.forall_mem_cons] at h
    have hfirst : Scan.out.read selector = some .out := Nesting.scan_read h.1.closed h.1.spaced.space
    cases rest with
    | nil =>
      rw [Text.join_singleton]
      exact hfirst
    | cons next others =>
      have hcomma : Scan.out.read ", ".toList = some .out := by decide
      rw [Text.join_cons (List.cons_ne_nil _ _), Scan.read_append, Scan.read_append, hfirst, Option.bind_some,
        hcomma, Option.bind_some]
      exact ih h.2

theorem splitSelectors_join (hne : selectors ≠ []) {before : Text} (hbefore : Text.allBlank before = true) :
    splitSelectors 0 none before (Text.join ", ".toList selectors) = selectors := by
  induction selectors generalizing before with
  | nil => exact absurd rfl hne
  | cons selector rest ih =>
    rw [List.forall_mem_cons] at h
    have hread (after : Text) : splitSelectors 0 none before (selector ++ after) =
        splitSelectors 0 none (selector.reverse ++ before) after :=
      Nesting.splitSelectors_read h.1.closed before after
    have htrim : Text.trim (selector.reverse ++ before).reverse = selector := by
      have hblank : Text.allBlank before.reverse = true := by rwa [Text.allBlank, List.all_reverse]
      have hpad := h.1.trimmed.trim_pad hblank (rfl : Text.allBlank [] = true)
      simpa using hpad
    cases rest with
    | nil =>
      rw [Text.join_singleton, ← List.append_nil selector, hread, splitSelectors, htrim,
        List.append_nil]
    | cons next others =>
      have hjoin : Text.join ", ".toList (selector :: next :: others) =
          selector ++ ',' :: ' ' :: Text.join ", ".toList (next :: others) := by
        rw [Text.join_cons (List.cons_ne_nil _ _), List.append_assoc]
        rfl
      have hcut (read after : Text) : splitSelectors 0 none read (',' :: ' ' :: after) =
          Text.trim read.reverse :: splitSelectors 0 none [' '] after := rfl
      rw [hjoin, hread, hcut, htrim, ih h.2 (List.cons_ne_nil _ _) (by decide)]

theorem combine_nil (hnodup : selectors.Nodup) : combine [] selectors = selectors := by
  have hexpand : selectors.flatMap (expandSelector []) = selectors := by
    clear hnodup
    induction selectors with
    | nil => rfl
    | cons selector rest ih =>
      rw [List.forall_mem_cons] at h
      have hself : expandSelector [] selector = [selector] := by
        rw [expandSelector]
        split
        · rfl
        · rw [if_pos rfl, replace_eq_self h.1.parent, h.1.trimmed.trim_eq]
      rw [List.flatMap_cons, hself, ih h.2]
      rfl
  rw [combine, hexpand, List.filter_eq_self.mpr fun selector hmem => by simpa using (h selector hmem).ne_nil,
    eraseDups_eq_self hnodup]

theorem trimmed_join : Text.Trimmed (Text.join ", ".toList selectors) ∧
    Text.Spaced (Text.join ", ".toList selectors) := by
  induction selectors with
  | nil => exact ⟨Text.trimmed_trim [], fun _ hc => (List.not_mem_nil hc).elim, .nil⟩
  | cons selector rest ih =>
    rw [List.forall_mem_cons] at h
    obtain ⟨htrimmed, hspaced⟩ := ih h.2
    cases rest with
    | nil =>
      rw [Text.join_singleton]
      exact ⟨h.1.trimmed, h.1.spaced⟩
    | cons next others =>
      have hnext : Text.join ", ".toList (next :: others) ≠ [] := by
        have hprefix := Text.prefix_join ", ".toList next others
        exact fun hnil => (h.2 next List.mem_cons_self).ne_nil (List.prefix_nil.mp (hnil ▸ hprefix))
      have hcomma : Text.Spaced ([','] ++ [' ']) := by
        refine Text.spaced_append (Text.spaced_singleton (by decide)) (Text.spaced_singleton fun _ => rfl) ?_
        intro c hc _ _
        cases hc
        exact .inl (by decide)
      rw [Text.join_cons (List.cons_ne_nil _ _)]
      refine ⟨⟨?_, ?_⟩, Text.spaced_append (Text.spaced_append h.1.spaced hcomma ?_) hspaced ?_⟩
      · rw [List.append_assoc, List.head?_append_of_ne_nil _ h.1.ne_nil]
        exact h.1.trimmed.head
      · rw [List.getLast?_append_of_ne_nil _ hnext]
        exact htrimmed.last
      · exact fun c hc _ _ => .inl (h.1.trimmed.last c hc)
      · exact fun _ _ c hc => .inr (htrimmed.head c hc)

end

theorem headOf_of_ne_at {context : Context} (hat : text.head? ≠ some '@')
    (hempty : [] ∉ selectorList text) : headOf context text = .style (selectorList text) := by
  have hany : (selectorList text).any List.isEmpty = false := by
    rw [List.any_eq_false]
    intro selector hselector hnil
    exact hempty (List.isEmpty_iff.mp hnil ▸ hselector)
  rw [headOf, readHead_of_ne_at hat]
  simp only [readSelectors, hany, Bool.false_eq_true, if_false]
  split <;> rfl

section

variable {context : Context} {selectors : List Text} {rule : FlatRule} (h : Inherited context selectors)
  (hne : selectors ≠ []) (hrule : rule.selectors = selectors)
include h hne hrule

/-- Selectors that rules inside a rule can take over are read as they are printed. -/
theorem Inherited.outermost :
    (headOf rule.place rule.selectorText).outermost rule.selectorText = some selectors := by
  obtain ⟨first, rest, hcons⟩ := List.exists_cons_of_ne_nil hne
  have htext : rule.selectorText = Text.join ", ".toList selectors := by rw [FlatRule.selectorText, hrule]
  have hlist : selectorList (Text.join ", ".toList selectors) = selectors := splitSelectors_join h.standing hne rfl
  have hat : (Text.join ", ".toList selectors).head? ≠ some '@' := by
    obtain ⟨after, hafter⟩ := Text.prefix_join ", ".toList first rest
    have hfirst := (h.standing first (hcons ▸ List.mem_cons_self)).ne_nil
    rw [hcons, ← hafter, List.head?_append_of_ne_nil _ hfirst]
    exact h.sign first (by rw [hcons]; rfl)
  have hhead : headOf rule.place (Text.join ", ".toList selectors) = .style selectors := by
    rw [headOf_of_ne_at hat] <;> rw [hlist]
    exact fun hmem => (h.standing [] hmem).ne_nil rfl
  rw [htext, hhead, Head.outermost, combine_nil h.standing h.nodup]

/-- Rules with selectors that rules inside them can take over are legible. -/
theorem Inherited.legible : rule.Legible := by
  have htext : rule.selectorText = Text.join ", ".toList selectors := by rw [FlatRule.selectorText, hrule]
  obtain ⟨htrimmed, hspaced⟩ := trimmed_join h.standing
  refine ⟨?_, ?_, ?_⟩
  · rw [htext]
    exact plain_iff.mpr ⟨.out, read_join h.standing, rfl⟩
  · rw [htext]
    exact Text.squeeze_eq_self htrimmed hspaced
  · rw [h.outermost hne hrule, htext]
    rfl

end

/-! ## Flat rules -/

theorem legible_atRule {rule : FlatRule} (h : ReadsAs .top text .atRule)
    (hselectors : rule.selectors = [text]) (hmedia : rule.media = none) (hgroup : rule.group = none) :
    rule.Legible := by
  have htext : rule.selectorText = text := by
    rw [FlatRule.selectorText, hselectors, Text.join_singleton]
  have hhead : headOf rule.place text = .atRule :=
    (headOf_congr (FlatRule.atTop_place.mpr ⟨hmedia, hgroup⟩) text).trans h.reads
  refine ⟨htext ▸ h.plain, htext ▸ h.squeezed, ?_⟩
  rw [htext, hhead, Head.outermost, Option.map_some, Text.join_singleton]

theorem inherited_nil {context : Context} (h : context.hasParent = false) : Inherited context [] := by
  refine ⟨fun _ hmem => (List.not_mem_nil hmem).elim, .nil, fun _ hmem => (by cases hmem), ?_⟩
  simp [h]

section

variable {found : Findings} {context : Context} {rule : Rule} {scope : Scope}

/-- The selectors that a rule passes on, where no at-rule begins. -/
theorem Inherited.own (h : Inherited context scope.selectors) (hrule : rule.Opened (.tidy found) context)
    (htokens : ∀ token ∈ rule.selectors, Orderly context token) (hhead : rule.head ≠ .atRule) :
    Inherited (context.inside rule.head) (scope.own rule).selectors := by
  rw [Scope.own]
  cases hcase : rule.head with
  | media | transparent => exact ⟨h.standing, h.nodup, h.sign, h.parent⟩
  | atRule => exact absurd hcase hhead
  | style tokens =>
    obtain ⟨fragment, htidy, htext, -, hread, -⟩ := hrule.exists_fragment (by rw [hcase]; exact Head.noConfusion)
    obtain ⟨hat, rfl, hempty, -⟩ := of_readHead_style (hread.symm.trans hcase)
    rw [Rule.selectors, hcase] at htokens
    refine inherited_combine h ?_ ?_ hat hempty htokens
    · rw [htext]
      exact Text.trimmed_squeeze htidy.trimmed
    · rw [htext]
      exact Text.spaced_squeeze htidy.trimmed

theorem Inherited.inside (h : Inherited context scope.selectors) (hrule : rule.Opened (.tidy found) context)
    (htokens : ∀ token ∈ rule.selectors, Orderly context token) (id : Nat) :
    Inherited (context.inside rule.head) (scope.inside id rule).selectors := by
  by_cases hhead : rule.head = .atRule
  · rw [Scope.inside, hhead]
    exact inherited_nil rfl
  · rw [Scope.inside_of_ne_atRule hhead]
    exact h.own hrule htokens hhead

/-- Flat rules are legible if the selectors of all rules are in order. -/
theorem legible_of_flatten {forest : Forest Rule} (hread : Within (Rule.Read (.tidy found)) context forest)
    (hwell : WellFormed found.problems) {start : Nat}
    (horderly : ∀ entry ∈ placedRules context (forest.number start), ∀ token ∈ entry.2.2.selectors,
      Orderly entry.1 token)
    (hscope : Inherited context scope.selectors) :
    ∀ flat ∈ flatten scope.selectors scope.media scope.group (forest.number start), flat.Legible := by
  have hforest : ∀ entry ∈ placedRules context (forest.number start),
      entry.2.2.Read (.tidy found) entry.1 ∧ ∀ token ∈ entry.2.2.selectors, Orderly entry.1 token :=
    fun entry hentry => ⟨forall_placedRules_of_within hread start entry hentry, horderly entry hentry⟩
  refine forall_mem_flatten (fun context scope => Inherited context scope.selectors)
    (fun context _ rule => rule.Read (.tidy found) context ∧ ∀ token ∈ rule.selectors, Orderly context token)
    ?_ ?_ hscope hforest
  · rintro context scope id rule hscope ⟨hrule, htokens⟩ flat hflat
    obtain ⟨-, hne, rfl⟩ := mem_emit hflat
    by_cases hhead : rule.head = .atRule
    · refine legible_atRule (hrule.opened.atRule hwell hhead) ?_ ?_ ?_ <;> rw [Scope.own, hhead]
    · exact (hscope.own hrule.opened htokens hhead).legible hne rfl
  · rintro context scope id rule hscope ⟨hrule, htokens⟩
    exact hscope.inside hrule.opened htokens id

end

end Sitewright.Style
