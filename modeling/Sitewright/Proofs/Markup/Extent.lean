import Sitewright.Proofs.Markup.Shapes

/-!
The readers go on to the end: the tokens of a source cover it without a gap (`tiles_tokens`), and the attributes of a
tag end with the tag, with the source or before `<` (`head_scanAttributes`).
-/

namespace Sitewright.Markup

variable {source text rest : Text} {start : Nat} {c : Char}

/-! ## All tokens -/

/-- Spans that take up all bytes between two offsets one after another, none of them empty. -/
def Tiles : Nat → Nat → List ByteSpan → Prop
  | start, stop, [] => start = stop
  | start, stop, span :: spans => span.start = start ∧ start < span.stop ∧ Tiles span.stop stop spans

theorem Tokenized.tiles {scanned : List (Token × List Problem)} (hscanned : Tokenized start text scanned)
    (h : source.StandsFrom text start) :
    Tiles start (Text.byteSize source) (scanned.map fun entry => entry.1.span) := by
  induction hscanned with
  | nil => exact h.add_byteSize
  | cons _ ih =>
    obtain ⟨⟨hforward, hspan, -⟩, -, hrest⟩ := stands_scanToken h
    rw [List.map_cons, Tiles, hspan]
    exact ⟨rfl, hforward, ih hrest⟩

theorem tiles_tokens (source : Text) :
    Tiles 0 (Text.byteSize source) ((tokens source).map fun scanned => scanned.1.span) :=
  (tokenized_tokens source).tiles source.standsFrom_zero

/-! ## Progress -/

/-- No reader stops before its end: the tokens take up the whole source, an attribute takes at least one character, and the
attributes of a tag end with the tag, with the source or before `<`. -/
structure ReadsOn (source : Text) : Prop where
  tokens : Tiles 0 (Text.byteSize source) ((tokens source).map fun scanned => scanned.1.span)
  oneAttribute : ∀ start c rest, source.StandsFrom (c :: rest) start → isAsciiBlank c = false → c ≠ '>' → c ≠ '/' →
    c ≠ '<' → start < (scanAttribute start (c :: rest)).stop ∧ (scanAttribute start (c :: rest)).rest <:+ rest
  allAttributes : ∀ start text, source.StandsFrom text start →
    (scanAttributes text.length start text).result.2 = .missing →
      ∀ c ∈ (scanAttributes text.length start text).rest.head?, c = '<'

theorem scanAttribute_tail (h : source.StandsFrom (c :: rest) start)
    (hblank : isAsciiBlank c = false) (hstop : c ≠ '>') (hslash : c ≠ '/') (hopen : c ≠ '<') :
    (scanAttribute start (c :: rest)).rest <:+ rest := by
  obtain ⟨⟨hforward, -⟩, -, hrest⟩ := stands_scanAttribute h hblank hstop hslash hopen
  exact h.suffix_of_lt hrest hforward

theorem head_scanAttributes {rounds : Nat} (hrounds : text.length ≤ rounds)
    (h : source.StandsFrom text start) (hmissing : (scanAttributes rounds start text).result.2 = .missing) :
    ∀ c ∈ (scanAttributes rounds start text).rest.head?, c = '<' := by
  have hnone : ∀ c ∈ ([] : Text).head?, c = '<' := fun c hc => (Option.not_mem_none c hc).elim
  induction rounds generalizing start text with
  | zero =>
    obtain rfl := List.eq_nil_of_length_eq_zero (Nat.le_zero.mp hrounds)
    exact hnone
  | succ rounds ih =>
    cases text with
    | nil => exact hnone
    | cons c rest =>
      have hlength : rest.length ≤ rounds := Nat.le_of_succ_le_succ hrounds
      unfold scanAttributes at hmissing ⊢
      split at hmissing
      next hblank =>
        rw [if_pos hblank]
        exact ih hlength (utf8Size_of_isAsciiBlank hblank ▸ h.tail) hmissing
      next hblank =>
        rw [if_neg hblank]
        split at hmissing
        next => cases hmissing
        next hclose =>
          rw [if_neg hclose]
          split at hmissing
          next hslash =>
            subst hslash
            rw [if_pos rfl]
            split at hmissing
            next => cases hmissing
            next => exact ih hlength h.tail hmissing
          next hslash =>
            rw [if_neg hslash]
            split at hmissing
            next hopen =>
              rw [if_pos hopen]
              exact fun d hd => (Option.some.inj hd).symm.trans hopen
            next hopen =>
              rw [if_neg hopen]
              have hplain := Bool.eq_false_iff.mpr hblank
              have htail := (scanAttribute_tail h hplain hclose hslash hopen).length_le
              exact ih (Nat.le_trans htail hlength) (stands_scanAttribute h hplain hclose hslash hopen).rest hmissing

theorem readsOn (source : Text) : ReadsOn source where
  tokens := tiles_tokens source
  oneAttribute _ _ _ h hblank hstop hslash hopen :=
    ⟨(stands_scanAttribute h hblank hstop hslash hopen).result.1, scanAttribute_tail h hblank hstop hslash hopen⟩
  allAttributes _ _ h hmissing := head_scanAttributes (Nat.le_refl _) h hmissing

end Sitewright.Markup
