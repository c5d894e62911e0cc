import Sitewright.Proofs.Style.Ranges

/-!
Strings inside heads, declarations and statements. A string that stands in the range of an excerpt stands in
the excerpt as it is written (`Excerpt.exists_split`). Squeezing squeezes the string and changes nothing else
of it; and where no string has its own quote inside, splitting a selector list at commas leaves strings whole.
-/

namespace Sitewright

/-! ## Squeezing in parts -/

namespace Text

variable {s : Text}

/-- One space for each run of blanks, where `space` tells whether a blank stands before the text. -/
def compress (space : Bool) : Text → Text
  | [] => []
  | c :: rest =>
    if isBlank c then (if space then compress true rest else ' ' :: compress true rest)
    else c :: compress false rest

/-- Whether a blank stands before what follows a text. -/
def endsBlank (space : Bool) (t : Text) : Bool :=
  t.foldl (fun _ c => isBlank c) space

theorem compress_append (space : Bool) (a b : Text) :
    compress space (a ++ b) = compress space a ++ compress (endsBlank space a) b := by
  induction a generalizing space with
  | nil => rfl
  | cons c rest ih =>
    rw [List.cons_append, compress, compress, endsBlank, List.foldl_cons, ih, ih]
    cases hc : isBlank c <;> cases space <;> rfl

theorem compress_of_head {t : Text} (h : ∀ c ∈ t.head?, isBlank c = false) (space : Bool) :
    compress space t = compress false t := by
  cases t with
  | nil => rfl
  | cons c rest => rw [compress, h c rfl, compress, h c rfl]; rfl

theorem IsWord.compress_eq {w : Text} (h : IsWord w) (space : Bool) :
    compress space w = w ∧ endsBlank space w = false := by
  have hsolid := h.solid
  have hne := h.ne_nil
  clear h
  induction w generalizing space with
  | nil => exact absurd rfl hne
  | cons c rest ih =>
    rw [List.forall_mem_cons] at hsolid
    cases rest with
    | nil => exact ⟨by rw [compress, hsolid.1]; rfl, hsolid.1⟩
    | cons d others =>
      obtain ⟨hcompress, hends⟩ := ih false hsolid.2 (List.cons_ne_nil _ _)
      refine ⟨by rw [compress, hsolid.1, hcompress]; rfl, ?_⟩
      rw [endsBlank, List.foldl_cons, hsolid.1]
      exact hends

theorem compress_blanks {w : Text} (hw : allBlank w = true) : compress true w = [] ∧ endsBlank true w = true := by
  induction w with
  | nil => exact ⟨rfl, rfl⟩
  | cons c rest ih =>
    simp only [allBlank, List.all_cons, Bool.and_eq_true] at hw
    obtain ⟨hcompress, hends⟩ := ih hw.2
    refine ⟨by rw [compress, hw.1, hcompress]; rfl, ?_⟩
    rw [endsBlank, List.foldl_cons, hw.1]
    exact hends

theorem squeeze_eq_compress {t : Text} (h : Trimmed t) : squeeze t = compress false t := by
  refine h.byWords (P := fun t => squeeze t = compress false t) rfl ?_ ?_
  · intro u hu
    rw [hu.squeeze_eq, (hu.compress_eq false).1]
  · intro u c w rest hu hc hw hne hrest ih
    obtain ⟨hword, hends⟩ := hu.compress_eq false
    obtain ⟨hblanks, hendsBlanks⟩ := compress_blanks hw
    rw [squeeze_append hu hc hw hrest hne, ih, compress_append, hword, hends, compress, hc, compress_append, hblanks,
      hendsBlanks, compress_of_head hrest.head true]
    rfl

/-- A part that begins and ends with characters that are no blanks is squeezed by itself. -/
theorem squeeze_append_append {a b : Text} (h : Trimmed (a ++ s ++ b)) (hs : Trimmed s) :
    ∃ b', squeeze (a ++ s ++ b) = compress false a ++ squeeze s ++ b' := by
  rw [squeeze_eq_compress h, squeeze_eq_compress hs, compress_append, compress_append, compress_of_head hs.head]
  exact ⟨_, rfl⟩

theorem mem_compress {space : Bool} {t : Text} {c : Char} (h : c ∈ compress space t) : c = ' ' ∨ c ∈ t := by
  induction t generalizing space with
  | nil => exact .inr h
  | cons d rest ih =>
    have hrest {space : Bool} (h : c ∈ compress space rest) : c = ' ' ∨ c ∈ d :: rest :=
      (ih h).imp_right (List.mem_cons_of_mem d)
    rw [compress] at h
    split at h
    · split at h
      · exact hrest h
      · exact (List.mem_cons.mp h).elim .inl hrest
    · exact (List.mem_cons.mp h).elim (fun heq => .inr (heq ▸ List.mem_cons_self)) hrest

/-! ## Trimming around a part -/

theorem trimStart_append_of_head {a : Text} (h : ∀ c ∈ s.head?, isBlank c = false) :
    trimStart (a ++ s) = trimStart a ++ s := by
  rw [trimStart, List.dropWhile_append]
  split
  next hempty =>
    rw [List.isEmpty_iff] at hempty
    rw [trimStart, hempty]
    exact trimStart_eq_self h
  next => rfl

theorem trimEnd_append_of_last {b : Text} (h : ∀ c ∈ s.getLast?, isBlank c = false) :
    trimEnd (s ++ b) = s ++ trimEnd b := by
  have hreverse : trimStart (b.reverse ++ s.reverse) = trimStart b.reverse ++ s.reverse :=
    trimStart_append_of_head (by simpa using h)
  rw [← List.reverse_inj, reverse_trimEnd, List.reverse_append, hreverse, List.reverse_append, reverse_trimEnd]

theorem trim_append_append {a b : Text} (hne : s ≠ []) (hs : Trimmed s) :
    trim (a ++ s ++ b) = trimStart a ++ s ++ trimEnd b := by
  have hstart : trimStart (a ++ (s ++ b)) = trimStart a ++ (s ++ b) := by
    refine trimStart_append_of_head fun c hc => hs.head c ?_
    rwa [List.head?_append_of_ne_nil _ hne] at hc
  rw [trim, List.append_assoc, hstart, ← List.append_assoc]
  refine trimEnd_append_of_last fun c hc => hs.last c ?_
  rwa [List.getLast?_append_of_ne_nil _ hne] at hc

end Text

namespace Style

variable {lexeme : Lexeme} {quote : Char}

/-! ## Quotes without escapes -/

/-- The quote that is open after a character, if backslashes are not heeded. -/
def quoteNext (quote : Option Char) (c : Char) : Option Char :=
  match quote with
  | some quote => if c = quote then none else some quote
  | none => if c = '"' ∨ c = '\'' then some c else none

/-- The quote that is open after a text. -/
def quoteAfter (quote : Option Char) (t : Text) : Option Char :=
  t.foldl quoteNext quote

theorem quoteAfter_append (quote : Option Char) (a b : Text) :
    quoteAfter quote (a ++ b) = quoteAfter (quoteAfter quote a) b :=
  List.foldl_append

theorem isBlank_of_isQuote {c : Char} (h : IsQuote c) : isBlank c = false := by
  rcases h with rfl | rfl <;> decide

theorem quoteNext_of_not_isQuote {c : Char} (h : ¬IsQuote c) : quoteNext none c = none :=
  if_neg h

theorem quoteAfter_of_no_quotes {t : Text} (h : ∀ c ∈ t, ¬IsQuote c) : quoteAfter none t = none := by
  induction t with
  | nil => rfl
  | cons c rest ih =>
    rw [List.forall_mem_cons] at h
    rw [quoteAfter, List.foldl_cons, quoteNext_of_not_isQuote h.1]
    exact ih h.2

theorem quoteAfter_inside {inner : Text} (h : quote ∉ inner) : quoteAfter (some quote) inner = some quote := by
  induction inner with
  | nil => rfl
  | cons c rest ih =>
    rw [List.mem_cons, not_or] at h
    rw [quoteAfter, List.foldl_cons, quoteNext, if_neg (Ne.symm h.1)]
    exact ih h.2

/-- A string that does not have its quote inside is closed at its end. -/
theorem quoteAfter_string (hquote : IsQuote quote) {inner : Text} (h : quote ∉ inner) :
    quoteAfter none (quote :: (inner ++ [quote])) = none := by
  have hopen : quoteNext none quote = some quote := if_pos hquote
  have hclose : quoteNext (some quote) quote = none := if_pos rfl
  rw [quoteAfter, List.foldl_cons, hopen, List.foldl_append, List.foldl_cons, List.foldl_nil]
  exact (congrArg (quoteNext · quote) (quoteAfter_inside h)).trans hclose

/-- Blanks neither open nor close strings. -/
theorem quoteNext_of_isBlank {quote : Option Char} (hquote : ∀ q ∈ quote, IsQuote q) {c : Char}
    (hc : isBlank c = true) : quoteNext quote c = quote := by
  cases quote with
  | none =>
    refine quoteNext_of_not_isQuote fun h => ?_
    rw [isBlank_of_isQuote h] at hc
    cases hc
  | some quote => exact if_neg (ne_of_isBlank hc (isBlank_of_isQuote (hquote quote rfl)))

theorem isQuote_of_quoteNext {quote : Option Char} (hquote : ∀ q ∈ quote, IsQuote q) (c : Char) :
    ∀ q ∈ quoteNext quote c, IsQuote q := by
  intro q hq
  cases quote with
  | none =>
    rw [quoteNext] at hq
    split at hq
    next h =>
      cases hq
      exact h
    next => cases hq
  | some quote =>
    rw [quoteNext] at hq
    split at hq
    next => cases hq
    next =>
      cases hq
      exact hquote q rfl

theorem quoteAfter_compress {quote : Option Char} (hquote : ∀ q ∈ quote, IsQuote q) (space : Bool) (t : Text) :
    quoteAfter quote (Text.compress space t) = quoteAfter quote t := by
  induction t generalizing quote space with
  | nil => rfl
  | cons c rest ih =>
    have hnext := ih (isQuote_of_quoteNext hquote c)
    rw [Text.compress]
    cases hc : isBlank c with
    | false => exact hnext false
    | true =>
      have hsame := quoteNext_of_isBlank hquote hc
      have hspace := quoteNext_of_isBlank hquote (by decide : isBlank ' ' = true)
      rw [hsame] at hnext
      have hwhole : quoteAfter quote (c :: rest) = quoteAfter quote rest := by
        rw [quoteAfter, List.foldl_cons, hsame]
        rfl
      cases space with
      | true => exact (hnext true).trans hwhole.symm
      | false =>
        rw [if_pos rfl, if_neg Bool.false_ne_true, hwhole, quoteAfter, List.foldl_cons, hspace]
        exact hnext true

theorem quoteAfter_trimStart (t : Text) : quoteAfter none (Text.trimStart t) = quoteAfter none t := by
  obtain ⟨w, hw, heq⟩ := Text.exists_trimStart t
  have hblanks : quoteAfter none w = none := by
    refine quoteAfter_of_no_quotes fun c hc hquote => ?_
    have hblank := List.all_eq_true.mp hw c hc
    rw [isBlank_of_isQuote hquote] at hblank
    cases hblank
  conv => rhs; rw [heq, quoteAfter_append, hblanks]

theorem trimmed_string (hquote : IsQuote quote) (inner : Text) : Text.Trimmed (quote :: (inner ++ [quote])) := by
  constructor
  · rintro c ⟨⟩
    exact isBlank_of_isQuote hquote
  · rw [← List.cons_append, List.getLast?_concat]
    rintro c ⟨⟩
    exact isBlank_of_isQuote hquote

/-- A string that is squeezed is a string, with no more than spaces added. -/
theorem squeeze_string (hquote : IsQuote quote) (inner : Text) :
    ∃ squeezed, Text.squeeze (quote :: (inner ++ [quote])) = quote :: (squeezed ++ [quote]) ∧
      ∀ c ∈ squeezed, c = ' ' ∨ c ∈ inner := by
  have hblank := isBlank_of_isQuote hquote
  refine ⟨Text.compress false inner, ?_, fun c => Text.mem_compress⟩
  have hlast (space : Bool) : Text.compress space [quote] = [quote] := by
    rw [Text.compress, hblank]
    rfl
  rw [Text.squeeze_eq_compress (trimmed_string hquote inner), Text.compress, if_neg (by simp [hblank]),
    Text.compress_append, hlast]

/-! ## Selector lists -/

/-- What was read of a selector goes on into the next one that is complete. -/
theorem exists_splitSelectors (depth : Nat) (quote : Option Char) (read text : Text) :
    ∃ more others, splitSelectors depth quote read text = Text.trim (read.reverse ++ more) :: others := by
  induction text generalizing depth quote read with
  | nil => exact ⟨[], [], by rw [splitSelectors, List.append_nil]⟩
  | cons c rest ih =>
    have hread (depth : Nat) (quote : Option Char) : ∃ more others,
        splitSelectors depth quote (c :: read) rest = Text.trim (read.reverse ++ more) :: others := by
      obtain ⟨more, others, heq⟩ := ih depth quote (c :: read)
      rw [List.reverse_cons, List.append_assoc] at heq
      exact ⟨_, others, heq⟩
    cases quote with
    | some quote => exact hread depth _
    | none =>
      rw [splitSelectors]
      split
      · exact hread _ _
      split
      · exact hread _ _
      split
      · exact hread _ _
      split
      · exact ⟨[], _, by rw [List.append_nil]⟩
      · exact hread _ _

/-- Inside a string nothing is split. -/
theorem splitSelectors_inside {inner : Text} (h : quote ∉ inner) (depth : Nat) (read rest : Text) :
    splitSelectors depth (some quote) read (inner ++ rest) =
      splitSelectors depth (some quote) (inner.reverse ++ read) rest := by
  induction inner generalizing read with
  | nil => rfl
  | cons c inner ih =>
    rw [List.mem_cons, not_or] at h
    rw [List.cons_append, splitSelectors, if_neg (Ne.symm h.1), ih h.2, List.reverse_cons, List.append_assoc]
    rfl

theorem splitSelectors_string (hquote : IsQuote quote) {inner : Text} (h : quote ∉ inner)
    (depth : Nat) (read rest : Text) :
    splitSelectors depth none read (quote :: (inner ++ [quote]) ++ rest) =
      splitSelectors depth none ((quote :: (inner ++ [quote])).reverse ++ read) rest := by
  rw [List.cons_append, splitSelectors, if_pos (show quote = '"' ∨ quote = '\'' from hquote), List.append_assoc,
    splitSelectors_inside h, List.singleton_append, splitSelectors, if_pos rfl]
  simp

/-- A string that begins where no quote is open is in one of the selectors. -/
theorem exists_mem_splitSelectors (hquote : IsQuote quote) {inner : Text} (h : quote ∉ inner)
    (a b : Text) (depth : Nat) {before : Option Char} (hbefore : quoteAfter before a = none) (read : Text) :
    ∃ selector ∈ splitSelectors depth before read (a ++ quote :: (inner ++ [quote]) ++ b),
      quote :: (inner ++ [quote]) <:+: selector := by
  induction a generalizing depth before read with
  | nil =>
    cases hbefore
    obtain ⟨more, others, heq⟩ := exists_splitSelectors depth none ((quote :: (inner ++ [quote])).reverse ++ read) b
    rw [List.nil_append, splitSelectors_string hquote h, heq]
    refine ⟨_, List.mem_cons_self, ?_⟩
    rw [List.reverse_append, List.reverse_reverse,
      Text.trim_append_append (List.cons_ne_nil _ _) (trimmed_string hquote inner)]
    exact ⟨_, _, rfl⟩
  | cons c rest ih =>
    have hnext : quoteAfter (quoteNext before c) rest = none := hbefore
    rw [List.cons_append, List.cons_append]
    cases before with
    | some current => exact ih depth hnext (c :: read)
    | none =>
      rw [quoteNext] at hnext
      rw [splitSelectors]
      split at hnext
      next hc =>
        rw [if_pos hc]
        exact ih depth hnext (c :: read)
      next hc =>
        rw [if_neg hc]
        split
        · exact ih (depth + 1) hnext (c :: read)
        split
        · exact ih (depth - 1) hnext (c :: read)
        split
        · obtain ⟨selector, hmem, hpart⟩ := ih 0 hnext []
          exact ⟨selector, List.mem_cons_of_mem _ hmem, hpart⟩
        · exact ih depth hnext (c :: read)

/-! ## Excerpts -/

/-- The lexeme stands in a range. -/
def Lexeme.StandsIn (lexeme : Lexeme) (range : CharRange) : Prop :=
  range.start ≤ lexeme.start ∧ lexeme.stop ≤ range.stop

/-- The string does not have its own quote inside. -/
def Lexeme.Simple (lexeme : Lexeme) : Prop :=
  ∀ quote inner, lexeme.text = quote :: (inner ++ [quote]) → quote ∉ inner

instance (lexeme : Lexeme) (range : CharRange) : Decidable (lexeme.StandsIn range) :=
  inferInstanceAs (Decidable (_ ∧ _))

theorem Lexeme.simple_iff :
    lexeme.Simple ↔ lexeme.text.head?.all (fun quote => decide
      (lexeme.text = quote :: (lexeme.text.tail.dropLast ++ [quote]) → quote ∉ lexeme.text.tail.dropLast)) = true := by
  simp only [Option.all_eq_true, decide_eq_true_eq]
  constructor
  · exact fun h quote _ htext => h quote _ htext
  · intro h quote inner htext
    have hinner : lexeme.text.tail.dropLast = inner := by rw [htext, List.tail_cons, List.dropLast_concat]
    rw [← hinner] at htext ⊢
    exact h quote (by rw [htext]; rfl) htext

instance (lexeme : Lexeme) : Decidable lexeme.Simple :=
  decidable_of_iff _ Lexeme.simple_iff.symm

theorem mem_zipIdx_bounds {t : Text} {start : Nat} {mark : Char × Nat} (h : mark ∈ t.zipIdx start) :
    start ≤ mark.2 ∧ mark.2 < start + t.length := by
  obtain ⟨c, offset⟩ := mark
  exact ⟨List.le_snd_of_mem_zipIdx h, List.snd_lt_add_of_mem_zipIdx h⟩

theorem Lexeme.mem_marks_bounds (hshaped : lexeme.Shaped) {mark : Char × Nat}
    (h : mark ∈ lexeme.marks) : lexeme.start ≤ mark.2 ∧ mark.2 < lexeme.stop := by
  have hpos := List.length_pos_of_ne_nil hshaped.1
  unfold Lexeme.marks at h
  split at h
  · rw [List.mem_singleton.mp h, Lexeme.stop]
    omega
  · exact mem_zipIdx_bounds h
  · exact mem_zipIdx_bounds h
  · exact mem_zipIdx_bounds h
  · exact mem_zipIdx_bounds h
  · cases h

theorem Chained.mem_marksOf_bounds {start stop : Nat} {lexemes : List Lexeme} (h : Chained start lexemes stop)
    (hshaped : ∀ lexeme ∈ lexemes, lexeme.Shaped) {mark : Char × Nat} (hmark : mark ∈ marksOf lexemes) :
    start ≤ mark.2 ∧ mark.2 < stop := by
  obtain ⟨lexeme, hmem, hmark⟩ := List.mem_flatMap.mp hmark
  obtain ⟨hstart, hstop⟩ := h.mem hmem
  obtain ⟨hfirst, hlast⟩ := Lexeme.mem_marks_bounds (hshaped lexeme hmem) hmark
  omega

namespace Fragment

variable {fragment : Fragment}

theorem mem_trimStart {mark : Char × Nat} (h : mark ∈ fragment) (hsolid : isBlank mark.1 = false) :
    mark ∈ trimStart fragment := by
  rw [← List.takeWhile_append_dropWhile (p := fun mark => isBlank mark.1) (l := fragment)] at h
  rcases List.mem_append.mp h with h | h
  · have hblank := List.all_eq_true.mp List.all_takeWhile mark h
    rw [hsolid] at hblank
    cases hblank
  · exact h

/-- Trimming takes away nothing but blanks. -/
theorem mem_trim {mark : Char × Nat} (h : mark ∈ fragment) (hsolid : isBlank mark.1 = false) :
    mark ∈ trimEnd (trimStart fragment) :=
  List.mem_reverse.mpr (mem_trimStart (List.mem_reverse.mpr (mem_trimStart h hsolid)) hsolid)

theorem sublist_trim (fragment : Fragment) : (trimEnd (trimStart fragment)).Sublist fragment :=
  (prefix_trimEnd _).sublist.trans (List.dropWhile_sublist _)

theorem exists_range (hne : fragment ≠ []) :
    ∃ first ∈ fragment, ∃ last ∈ fragment, range fragment = ⟨first.2, last.2 + 1⟩ := by
  refine ⟨fragment.head hne, List.head_mem hne, fragment.getLast hne, List.getLast_mem hne, ?_⟩
  rw [range, List.head?_eq_some_head hne, List.getLast?_eq_some_getLast hne]
  rfl

theorem range_bounds (hsorted : fragment.Pairwise fun a b => a.2 < b.2) {mark : Char × Nat}
    (h : mark ∈ fragment) : (range fragment).start ≤ mark.2 ∧ mark.2 < (range fragment).stop := by
  constructor
  · cases fragment with
    | nil => cases h
    | cons first rest =>
      rcases List.mem_cons.mp h with rfl | h
      · exact Nat.le_refl _
      · exact Nat.le_of_lt (List.rel_of_pairwise_cons hsorted h)
  · rcases List.eq_nil_or_concat fragment with rfl | ⟨init, last, rfl⟩
    · cases h
    · rw [List.concat_eq_append] at h hsorted ⊢
      have hstop : (range (init ++ [last])).stop = last.2 + 1 := by
        rw [range, List.getLast?_concat]
        rfl
      rw [hstop]
      rcases List.mem_append.mp h with h | h
      · exact Nat.lt_succ_of_lt ((List.pairwise_append.mp hsorted).2.2 mark h last (List.mem_singleton.mpr rfl))
      · rw [List.mem_singleton.mp h]
        exact Nat.lt_succ_self _

end Fragment

variable {source : Text} {fragment : Fragment}

theorem Lexeme.marks_of_quoted {token : Lexeme} (h : token.kind = .quoted) :
    token.marks = token.text.zipIdx token.start := by
  unfold Lexeme.marks
  rw [h]

/-- An excerpt has exactly the strings that stand in its range. -/
theorem Excerpt.exists_recent (h : Excerpt (lexemes source) fragment) :
    ∃ recent : List Lexeme, (∀ lexeme ∈ recent, lexeme ∈ lexemes source ∧ Reading.ends lexeme.kind = false) ∧
      Fragment.text fragment = Text.trim (Fragment.text (marksOf recent)) ∧
      ∀ token ∈ lexemes source, token.kind = .quoted →
        (token.StandsIn (Fragment.range fragment) ↔ token ∈ recent) := by
  have hsorted := h.sited.sorted
  obtain ⟨hne, older, recent, newer, hall, hends, rfl⟩ := h
  have hshaped : ∀ lexeme ∈ lexemes source, lexeme.Shaped := fun _ hmem => (of_mem_lexemes hmem).1
  have hchained := chained_lexemes source
  rw [hall] at hshaped hchained ⊢
  obtain ⟨stop, hbefore, hnewer⟩ := chained_append.mp hchained
  obtain ⟨start, holder, hrecent⟩ := chained_append.mp hbefore
  have hrecentShaped : ∀ lexeme ∈ recent, lexeme.Shaped := fun lexeme hmem => hshaped lexeme (by simp [hmem])
  have hsub := Fragment.sublist_trim (marksOf recent)
  refine ⟨recent, fun lexeme hmem => ⟨by simp [hmem], hends lexeme hmem⟩, ?_,
    fun token hmem hkind => ⟨fun hin => ?_, fun hin => ?_⟩⟩
  · rw [Reading.text_trimEnd, Fragment.text_trimStart]
    rfl
  · -- the lexemes before and after those of the excerpt are outside of its range
    obtain ⟨first, hfirst, last, hlast, hrange⟩ := Fragment.exists_range hne
    have hlow := (hrecent.mem_marksOf_bounds hrecentShaped (hsub.subset hfirst)).1
    have hhigh := (hrecent.mem_marksOf_bounds hrecentShaped (hsub.subset hlast)).2
    have hpos := List.length_pos_of_ne_nil (hshaped token hmem).1
    simp only [Lexeme.StandsIn, hrange, Lexeme.stop] at hin
    rcases List.mem_append.mp hmem with hmem | hmem
    · rcases List.mem_append.mp hmem with hmem | hmem
      · have hstop := (holder.mem hmem).2
        rw [Lexeme.stop] at hstop
        omega
      · exact hmem
    · have hstart := (hnewer.mem hmem).1
      omega
  · obtain ⟨-, hform⟩ := hrecentShaped token hin
    rw [hkind] at hform
    obtain ⟨quote, inner, hquote, htext⟩ := hform
    have hmark (mark : Char × Nat) (hmark : mark ∈ token.text.zipIdx token.start) (hblank : isBlank mark.1 = false) :=
      Fragment.range_bounds hsorted (Fragment.mem_trim
        (List.mem_flatMap.mpr ⟨token, hin, by rw [Lexeme.marks_of_quoted hkind]; exact hmark⟩) hblank)
    have hfirst := hmark (quote, token.start) (by rw [htext]; exact List.mem_cons_self) (isBlank_of_isQuote hquote)
    have hlastMem : (quote, token.start + (inner.length + 1)) ∈ token.text.zipIdx token.start := by
      rw [htext, ← List.cons_append, List.zipIdx_append]
      exact List.mem_append_right _ (List.mem_singleton.mpr rfl)
    have hlast := hmark _ hlastMem (isBlank_of_isQuote hquote)
    refine ⟨hfirst.1, ?_⟩
    rw [Lexeme.stop, htext]
    simp only [List.length_cons, List.length_append, List.length_nil]
    omega

/-- A sheet that could be read in full has no string without an end. -/
theorem kind_ne_unterminatedString (h : (Sheet.parse source).isMalformed = false)
    (hmem : lexeme ∈ lexemes source) : lexeme.kind ≠ .unterminatedString := by
  intro hkind
  obtain ⟨before, after, hall⟩ := List.append_of_mem hmem
  have hstep : Problem.unterminatedString.located ⟨lexeme.start, lexeme.stop⟩ ∈
      ((before.foldl Reading.step .start).step lexeme).problems := by
    simp only [Reading.step, hkind, Reading.report]
    exact List.mem_append_right _ (List.mem_singleton.mpr rfl)
  have hread : Problem.unterminatedString.located ⟨lexeme.start, lexeme.stop⟩ ∈
      ((lexemes source).foldl Reading.step .start).problems := by
    rw [hall, List.foldl_append, List.foldl_cons]
    exact (Reading.grows_foldl _ after).problems.subset hstep
  have hparse : Problem.unterminatedString.located ⟨lexeme.start, lexeme.stop⟩ ∈
      (Sheet.parse source).diagnostics.reported := by
    rw [Sheet.parse, Reading.finish, Reading.problems_closeAll]
    exact List.mem_append_left _ ((Reading.grows_flush _ none).problems.subset hread)
  exact Sheet.isMalformed_eq_false.mp h _ hparse rfl

theorem text_marks_of_kind (hkind : lexeme.kind = .quoted) : Fragment.text lexeme.marks = lexeme.text := by
  rw [Lexeme.marks_of_quoted hkind, Fragment.text_zipIdx]

/-- Outside of strings there are no quotes. -/
theorem quoteAfter_marks (hshaped : lexeme.Shaped) (hkind : lexeme.kind ≠ .unterminatedString)
    (hsimple : lexeme.kind = .quoted → lexeme.Simple) : quoteAfter none (Fragment.text lexeme.marks) = none := by
  obtain ⟨kind, text, start⟩ := lexeme
  obtain ⟨-, hform⟩ := hshaped
  cases kind with
  | opening | closing | semicolon | unterminatedComment => rfl
  | unterminatedString => exact absurd rfl hkind
  | comment => rfl
  | slash =>
    cases (show text = ['/'] from hform)
    rfl
  | text =>
    rw [Lexeme.marks, Fragment.text_zipIdx]
    refine quoteAfter_of_no_quotes fun c hc hquote => ?_
    have hspecial := hform c hc
    rcases hquote with rfl | rfl <;> cases hspecial
  | quoted =>
    obtain ⟨quote, inner, hquote, rfl⟩ := hform
    rw [Lexeme.marks, Fragment.text_zipIdx]
    exact quoteAfter_string hquote (hsimple rfl quote inner rfl)

theorem quoteAfter_marksOf {lexemes : List Lexeme} (h : ∀ lexeme ∈ lexemes, lexeme.Shaped ∧
    lexeme.kind ≠ .unterminatedString ∧ (lexeme.kind = .quoted → lexeme.Simple)) :
    quoteAfter none (Fragment.text (marksOf lexemes)) = none := by
  induction lexemes with
  | nil => rfl
  | cons lexeme rest ih =>
    rw [List.forall_mem_cons] at h
    obtain ⟨⟨hshaped, hkind, hsimple⟩, hrest⟩ := h
    rw [marksOf, List.flatMap_cons, Fragment.text_append, quoteAfter_append, quoteAfter_marks hshaped hkind hsimple]
    exact ih hrest

/-- **A string that stands in the range of an excerpt is a part of it**, and where no string there has its own
quote inside, no quote is open before it. -/
theorem Excerpt.exists_split (h : Excerpt (lexemes source) fragment) {token : Lexeme} (hmem : token ∈ lexemes source)
    (hkind : token.kind = .quoted) (hin : token.StandsIn (Fragment.range fragment)) :
    ∃ a b, Fragment.text fragment = a ++ token.text ++ b ∧
      ((Sheet.parse source).isMalformed = false →
        (∀ other ∈ lexemes source, other.kind = .quoted → other.StandsIn (Fragment.range fragment) → other.Simple) →
        quoteAfter none a = none) := by
  obtain ⟨recent, hrecent, htext, hstrings⟩ := h.exists_recent
  obtain ⟨before, after, rfl⟩ := List.append_of_mem ((hstrings token hmem hkind).mp hin)
  obtain ⟨⟨-, hform⟩, -⟩ := of_mem_lexemes hmem
  rw [hkind] at hform
  obtain ⟨quote, inner, hquote, htoken⟩ := hform
  have hsplit : Fragment.text (marksOf (before ++ token :: after)) =
      Fragment.text (marksOf before) ++ token.text ++ Fragment.text (marksOf after) := by
    simp only [marksOf, List.flatMap_append, List.flatMap_cons, Fragment.text_append, text_marks_of_kind hkind,
      List.append_assoc]
  have htrimmed : Text.Trimmed token.text := htoken ▸ trimmed_string hquote inner
  have hne : token.text ≠ [] := htoken ▸ List.cons_ne_nil _ _
  refine ⟨_, _, htext.trans (by rw [hsplit, Text.trim_append_append hne htrimmed]), fun hwell hsimple => ?_⟩
  rw [quoteAfter_trimStart]
  refine quoteAfter_marksOf fun lexeme hlexeme => ?_
  have hall := (hrecent lexeme (List.mem_append_left _ hlexeme)).1
  refine ⟨(of_mem_lexemes hall).1, kind_ne_unterminatedString hwell hall, fun hquoted => ?_⟩
  exact hsimple lexeme hall hquoted ((hstrings lexeme hall hquoted).mpr (List.mem_append_left _ hlexeme))

end Style

end Sitewright
