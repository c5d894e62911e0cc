import Mathlib.Data.List.TakeWhile
import Sitewright.Proofs.Text
import Sitewright.Style.Variable

/-!
How style text is cut at its variables. What stands before a variable matters only by its quotes, so a text may
be cut part by part wherever the later part does not begin in the middle of a variable (`piecesFrom_append`).
Text that is put together from parts with separators between them has the variables of the parts, if no part
leaves a string open (`Yields`).
-/

namespace Sitewright.Style

/-! ## Quotes -/

section

variable {α : Type}

/-- The state after some items. -/
def Quoting.after (char : α → Char) (quoting : Quoting) (items : List α) : Quoting :=
  items.foldl (fun quoting item => quoting.next (char item)) quoting

variable {char : α → Char}

theorem Quoting.after_append (quoting : Quoting) (a b : List α) :
    quoting.after char (a ++ b) = (quoting.after char a).after char b :=
  List.foldl_append

theorem Quoting.next_of_not_quote {c : Char} (h : c ≠ '"' ∧ c ≠ '\'') : outside.next c = outside := by
  rw [next, if_neg]
  exact fun hquote => hquote.elim h.1 h.2

theorem not_quote_of_isVariableChar {c : Char} (h : isVariableChar c = true) : c ≠ '"' ∧ c ≠ '\'' := by
  constructor <;> rintro rfl <;> exact absurd h (by decide)

/-- Text without quotes stays outside of strings. -/
theorem Quoting.after_of_no_quotes {items : List α} (h : ∀ x ∈ items, char x ≠ '"' ∧ char x ≠ '\'') :
    outside.after char items = outside := by
  induction items with
  | nil => rfl
  | cons x rest ih =>
    rw [List.forall_mem_cons] at h
    rw [after, List.foldl_cons, next_of_not_quote h.1]
    exact ih h.2

/-! ## The cut, part by part -/

theorem takeWhile_append_of_head {p : α → Bool} {a b : List α} (h : ∀ x ∈ b.head?, p x = false) :
    (a ++ b).takeWhile p = a.takeWhile p := by
  have hb : b.takeWhile p = [] := by
    cases b with
    | nil => rfl
    | cons x rest => exact List.takeWhile_cons_of_neg (by rw [h x rfl]; exact Bool.false_ne_true)
  rw [List.takeWhile_append, hb, List.append_nil]
  split
  next hlength => exact ((List.takeWhile_prefix p).eq_of_length hlength).symm
  next => rfl

/-- A variable has no quotes. -/
theorem Quoting.after_takeWhile (items : List α) :
    outside.after char (items.drop (items.takeWhile fun y => isVariableChar (char y)).length) =
      outside.after char items := by
  have hvariable : outside.after char (items.takeWhile fun y => isVariableChar (char y)) = outside := by
    refine after_of_no_quotes fun y hy => ?_
    have hy := List.mem_takeWhile_imp hy
    exact not_quote_of_isVariableChar hy
  obtain ⟨others, hothers⟩ := List.takeWhile_prefix (l := items) fun y => isVariableChar (char y)
  have hdrop : items.drop (items.takeWhile fun y => isVariableChar (char y)).length = others := by
    conv => lhs; arg 2; rw [← hothers]
    exact List.drop_left
  rw [hdrop]
  conv => rhs; rw [← hothers, after_append, hvariable]

theorem piecesFrom_append (quoting : Quoting) {skip : Nat} {a b : List α} (hskip : skip ≤ a.length)
    (hb : ∀ x ∈ b.head?, isVariableChar (char x) = false) :
    piecesFrom char skip quoting (a ++ b) =
      piecesFrom char skip quoting a ++ piecesFrom char 0 (quoting.after char (a.drop skip)) b := by
  induction a generalizing skip quoting with
  | nil =>
    cases Nat.le_zero.mp hskip
    rfl
  | cons x rest ih =>
    cases skip with
    | succ skip => exact ih quoting (Nat.le_of_succ_le_succ hskip)
    | zero =>
      have hname := @takeWhile_append_of_head _ (fun y => isVariableChar (char y)) rest b hb
      simp only [List.cons_append, piecesFrom, hname, List.drop_zero]
      split
      next h =>
        have hnext : Quoting.outside.next (char x) = .outside := by rw [h.2.1]; rfl
        rw [ih .outside (List.takeWhile_prefix _).length_le, Quoting.after_takeWhile, List.cons_append, h.1,
          Quoting.after, Quoting.after, List.foldl_cons, hnext]
      next h =>
        rw [ih _ (Nat.zero_le _), List.drop_zero, List.cons_append]
        rfl

/-- Every character of a text without `$` is a piece. -/
theorem piecesFrom_of_no_dollar (quoting : Quoting) {items : List α} (h : ∀ x ∈ items, char x ≠ '$') :
    piecesFrom char 0 quoting items = items.map .plain := by
  induction items generalizing quoting with
  | nil => rfl
  | cons x rest ih =>
    rw [List.forall_mem_cons] at h
    rw [piecesFrom, if_neg fun hname => h.1 hname.2.1, ih _ h.2, List.map_cons]

theorem piecesFrom_length (quoting : Quoting) (items : List α) : piecesFrom char items.length quoting items = [] := by
  induction items with
  | nil => rfl
  | cons x rest ih => exact ih

/-- A variable is one piece. -/
theorem piecesFrom_variable {x : α} (hx : char x = '$') {name : List α} (hne : name ≠ [])
    (hname : ∀ y ∈ name, isVariableChar (char y) = true) :
    piecesFrom char 0 .outside (x :: name) = [.named (x :: name)] := by
  have hall : (name.takeWhile fun y => isVariableChar (char y)) = name := List.takeWhile_eq_self_iff.mpr hname
  rw [piecesFrom, hall, if_pos ⟨rfl, hx, hne⟩, piecesFrom_length]

end

/-- A text is cut part by part, unless a variable goes across. -/
theorem piecesFrom_id_append (quoting : Quoting) (a : Text) {b : Text}
    (hb : ∀ c ∈ b.head?, isVariableChar c = false) :
    piecesFrom id 0 quoting (a ++ b) = piecesFrom id 0 quoting a ++ piecesFrom id 0 (quoting.after id a) b :=
  @piecesFrom_append _ id quoting 0 a b (Nat.zero_le _) hb

/-! ## The variables of a text -/

/-- The variable that a piece is. -/
def Piece.name? {α : Type} : Piece α → Option (List α)
  | .plain _ => none
  | .named items => some items

/-- A piece of other items. -/
def Piece.map {α β : Type} (f : α → β) : Piece α → Piece β
  | .plain item => .plain (f item)
  | .named items => .named (items.map f)

/-- The variables of a text, if a string may be open before it. -/
def namesFrom (quoting : Quoting) (t : Text) : List Text :=
  (piecesFrom id 0 quoting t).filterMap Piece.name?

theorem namesIn_eq {α : Type} (char : α → Char) (items : List α) :
    namesIn char items = (pieces char items).filterMap Piece.name? := by
  rw [namesIn]
  exact List.filterMap_congr fun piece _ => by cases piece <;> rfl

theorem namesIn_id (t : Text) : namesIn id t = namesFrom .outside t :=
  namesIn_eq id t

theorem namesFrom_append (quoting : Quoting) (a : Text) {b : Text} (hb : ∀ c ∈ b.head?, isVariableChar c = false) :
    namesFrom quoting (a ++ b) = namesFrom quoting a ++ namesFrom (quoting.after id a) b := by
  rw [namesFrom, piecesFrom_id_append _ _ hb, List.filterMap_append]
  rfl

/-- Text without `$` has no variables, and none goes on after it. -/
theorem namesFrom_append_of_no_dollar (quoting : Quoting) {a : Text} (h : ∀ c ∈ a, c ≠ '$') (b : Text) :
    namesFrom quoting (a ++ b) = namesFrom (quoting.after id a) b := by
  induction a generalizing quoting with
  | nil => rfl
  | cons c rest ih =>
    rw [List.forall_mem_cons] at h
    rw [List.cons_append, namesFrom, piecesFrom, if_neg fun hname => h.1 hname.2.1, List.filterMap_cons_none rfl]
    exact ih _ h.2

theorem map_piecesFrom {α : Type} (char : α → Char) (skip : Nat) (quoting : Quoting) (items : List α) :
    (piecesFrom char skip quoting items).map (Piece.map char) = piecesFrom id skip quoting (items.map char) := by
  induction items generalizing skip quoting with
  | nil => rfl
  | cons item rest ih =>
    cases skip with
    | succ skip => exact ih skip quoting
    | zero =>
      have hname : (rest.map char).takeWhile (fun c => isVariableChar c) =
          (rest.takeWhile fun x => isVariableChar (char x)).map char := by
        rw [List.takeWhile_map]
        rfl
      simp only [piecesFrom, List.map_cons, id, hname, List.length_map, List.map_eq_nil_iff, ne_eq]
      split
      · rw [List.map_cons, ih]
        rfl
      · rw [List.map_cons, ih]
        rfl

/-- The variables of a list are those of its characters. -/
theorem map_namesIn {α : Type} (char : α → Char) (items : List α) :
    (namesIn char items).map (List.map char) = namesIn id (items.map char) := by
  rw [namesIn_eq, namesIn_eq, pieces, pieces, ← map_piecesFrom, List.filterMap_map, List.map_filterMap]
  exact List.filterMap_congr fun piece _ => by cases piece <;> rfl

/-! ## Texts put together -/

/-- The text leaves no string open. -/
def Sealed (t : Text) : Prop :=
  Quoting.outside.after id t = .outside

instance (t : Text) : Decidable (Sealed t) :=
  inferInstanceAs (Decidable (_ = _))

theorem sealed_append {a b : Text} (ha : Sealed a) : Sealed (a ++ b) ↔ Sealed b := by
  rw [Sealed, Quoting.after_append, ha]
  rfl

/-- The text leaves no string open, and every variable of it has a property. -/
structure Yields (S : Text → Prop) (t : Text) : Prop where
  closed : Sealed t
  names : ∀ name ∈ namesIn id t, S name

/-- Text without variables and quotes. -/
def isInert (t : Text) : Bool :=
  t.all fun c => c != '$' && c != '"' && c != '\''

/-- Text that ends a variable before it, without variables and quotes. -/
def isSeparator (t : Text) : Bool :=
  isInert t && t.head?.any fun c => !isVariableChar c

theorem of_isInert {t : Text} (h : isInert t = true) : ∀ c ∈ t, c ≠ '$' ∧ c ≠ '"' ∧ c ≠ '\'' := by
  intro c hc
  have hc := List.all_eq_true.mp h c hc
  simp only [Bool.and_eq_true, bne_iff_ne] at hc
  exact ⟨hc.1.1, hc.1.2, hc.2⟩

theorem sealed_of_isInert {t : Text} (h : isInert t = true) : Sealed t :=
  Quoting.after_of_no_quotes fun c hc => (of_isInert h c hc).2

theorem namesIn_inert_append {a : Text} (ha : isInert a = true) (b : Text) : namesIn id (a ++ b) = namesIn id b := by
  rw [namesIn_id, namesFrom_append_of_no_dollar _ fun c hc => (of_isInert ha c hc).1, sealed_of_isInert ha, namesIn_id]

section

variable {S : Text → Prop} {a b separator : Text}

theorem yields_nil : Yields S [] :=
  ⟨rfl, fun _ h => (List.not_mem_nil h).elim⟩

theorem Yields.inert_append (ha : isInert a = true) (hb : Yields S b) : Yields S (a ++ b) := by
  refine ⟨(sealed_append (sealed_of_isInert ha)).mpr hb.closed, fun name hname => hb.names name ?_⟩
  rwa [namesIn_inert_append ha] at hname

/-- Texts with a separator between them have their variables and no others. -/
theorem Yields.separate (ha : Yields S a) (hseparator : isSeparator separator = true) (hb : Yields S b) :
    Yields S (a ++ (separator ++ b)) := by
  rw [isSeparator, Bool.and_eq_true] at hseparator
  obtain ⟨hinert, hhead⟩ := hseparator
  have hrest := hb.inert_append hinert
  refine ⟨(sealed_append ha.closed).mpr hrest.closed, fun name hname => ?_⟩
  have hends : ∀ c ∈ (separator ++ b).head?, isVariableChar c = false := by
    cases separator with
    | nil => cases hhead
    | cons first others =>
      rintro c ⟨⟩
      simpa using hhead
  rw [namesIn_id, namesFrom_append _ _ hends, ha.closed] at hname
  rcases List.mem_append.mp hname with hname | hname
  · exact ha.names name (by rwa [namesIn_id])
  · exact hrest.names name (by rwa [namesIn_id])

theorem Yields.append_separator (ha : Yields S a) (hseparator : isSeparator separator = true) :
    Yields S (a ++ separator) := by
  have h := ha.separate hseparator yields_nil
  rwa [List.append_nil] at h

theorem yields_join (hseparator : isSeparator separator = true) {parts : List Text}
    (h : ∀ part ∈ parts, Yields S part) : Yields S (Text.join separator parts) := by
  induction parts with
  | nil => exact yields_nil
  | cons part rest ih =>
    rw [List.forall_mem_cons] at h
    cases rest with
    | nil => rw [Text.join_singleton]; exact h.1
    | cons second others =>
      have hjoin : Text.join separator (part :: second :: others) =
          part ++ (separator ++ Text.join separator (second :: others)) := by
        rw [Text.join_cons (List.cons_ne_nil _ _), List.append_assoc]
      rw [hjoin]
      exact h.1.separate hseparator (ih h.2)

end

end Sitewright.Style
