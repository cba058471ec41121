import TypedId.Proofs.Source.Places
import TypedId.Proofs.Source.Remainders

/-!
Every lexeme stands where its extent says.

`Segments` describes the lexemes of a text: some are cut out of it by their extents, and the others
come in the groups that documentation comments stand for. So a word or literal either is what its
extent cuts out, or it can be told from what stands before it: within documentation a word follows a
bracket and a literal an equals sign (`cut_span_word`, `cut_span_literal`).
-/

namespace TypedId

open Lexeme

namespace Lexer

/-- Whether an extent cuts the characters of a lexeme out of a text. -/
def Stands (text : List Char) (l : Located) : Prop :=
  l.2.start ≤ l.2.stop ∧
    (text.drop l.2.start).take (l.2.stop - l.2.start) = l.1.text.toList

/-- Lexemes of a text: each stands in it or is part of documentation. -/
inductive Segments (text : List Char) : List Located → Prop where
  | nil : Segments text []
  | lexeme {l : Located} {ls : List Located} (h : Stands text l) (hrest : Segments text ls) :
      Segments text (l :: ls)
  | documentation {inner : Bool} {content : List Char} {extent : Extent} {found ls : List Located}
      (h : Lexer.documentation inner content extent = some found) (hrest : Segments text ls) :
      Segments text (found ++ ls)

variable {text cs rest : List Char} {start : Nat} {found : List Located}

/-! ### One lexeme -/

theorem text_leaf? {lexeme : Lexeme} (h : leaf? cs = some (lexeme, rest)) :
    rest <:+ cs ∧ lexeme.text.toList = cs.take (cs.length - rest.length) := by
  rw [leaf?.eq_def] at h
  split at h
  · next tail hliteral =>
    cases h
    refine ⟨?_, by simp [Lexeme.text]⟩
    obtain hquoted | ⟨-, hnumber⟩ := Option.or_eq_some_iff.mp hliteral
    · exact afterQuoted_suffix hquoted
    · exact afterNumber_suffix hnumber
  · split at h
    · cases h
    · next c tail _ =>
      split at h
      · split at h
        · split at h
          · cases h
            exact ⟨List.suffix_cons _ _, by simp [Lexeme.text]⟩
          · cases h
        · cases h
          exact ⟨List.suffix_cons _ _, by simp [Lexeme.text]⟩
      · split at h
        · cases h
        · obtain ⟨⟨w, tail'⟩, hword, h⟩ := Option.bind_eq_some_iff.mp h
          cases h
          rw [word?_eq_append hword]
          exact ⟨List.suffix_append _ _, by simp [Lexeme.text]⟩

/-- What is taken off a text is nothing, a lexeme that stands there, or documentation. -/
theorem next_cases (h : next start cs = some (found, rest)) :
    rest <:+ cs ∧
      (found = [] ∨
        (∃ lexeme : Lexeme, found = [(lexeme, ⟨start, start + (cs.length - rest.length)⟩)] ∧
          lexeme.text.toList = cs.take (cs.length - rest.length)) ∨
        ∃ inner content extent, documentation inner content extent = some found) := by
  have hcons := fun (c : Char) {tail : List Char} (h : rest <:+ tail) =>
    h.trans (List.suffix_cons c tail)
  -- A comment leaves nothing but what follows it.
  have hcomment : ∀ {result : List Char × List Char}, some ([], result.2) = some (found, rest) →
      rest = result.2 ∧ found = [] := by
    rintro result ⟨⟩
    exact ⟨rfl, rfl⟩
  have hdocument : ∀ {inner : Bool} {extent : Extent} {content tail : List Char},
      ((documentation inner content extent).map fun ls => (ls, tail)) = some (found, rest) →
      rest = tail ∧ ∃ inner content extent, documentation inner content extent = some found := by
    intro inner extent content tail h
    obtain ⟨ls, hls, heq⟩ := Option.map_eq_some_iff.mp h
    cases heq
    exact ⟨rfl, _, _, _, hls⟩
  have hsingle : ∀ {lexeme : Lexeme} {tail : List Char}, tail <:+ cs →
      lexeme.text.toList = cs.take (cs.length - tail.length) →
      some ([(lexeme, (⟨start, start + (cs.length - tail.length)⟩ : Extent))], tail) =
        some (found, rest) →
      rest <:+ cs ∧
        ∃ lexeme : Lexeme, found = [(lexeme, ⟨start, start + (cs.length - rest.length)⟩)] ∧
          lexeme.text.toList = cs.take (cs.length - rest.length) := by
    rintro lexeme tail hsuffix htext ⟨⟩
    exact ⟨hsuffix, lexeme, rfl, htext⟩
  rw [next.eq_def] at h
  simp only at h
  split at h
  · cases h
  · obtain ⟨rfl, hfound⟩ := hdocument h
    exact ⟨hcons _ (hcons _ (hcons _ (restOfLine_suffix _))), .inr (.inr hfound)⟩
  · obtain ⟨rfl, hfound⟩ := hcomment h
    exact ⟨hcons _ (hcons _ (hcons _ (hcons _ (restOfLine_suffix _)))), .inl hfound⟩
  · obtain ⟨rfl, hfound⟩ := hdocument h
    exact ⟨hcons _ (hcons _ (hcons _ (restOfLine_suffix _))), .inr (.inr hfound)⟩
  · obtain ⟨rfl, hfound⟩ := hcomment h
    exact ⟨hcons _ (hcons _ (restOfLine_suffix _)), .inl hfound⟩
  · obtain ⟨result, hresult, h⟩ := Option.bind_eq_some_iff.mp h
    obtain ⟨rfl, hfound⟩ := hdocument h
    exact ⟨hcons _ (hcons _ (hcons _ (restOfComment_suffix hresult))), .inr (.inr hfound)⟩
  · cases h
    exact ⟨hcons _ (hcons _ (hcons _ (List.suffix_cons _ _))), .inl rfl⟩
  · obtain ⟨result, hresult, h⟩ := Option.bind_eq_some_iff.mp h
    obtain ⟨rfl, hfound⟩ := hcomment h
    exact ⟨hcons _ (hcons _ (restOfComment_suffix hresult)), .inl hfound⟩
  · obtain ⟨result, hresult, h⟩ := Option.bind_eq_some_iff.mp h
    obtain ⟨rfl, hfound⟩ := hdocument h
    exact ⟨hcons _ (hcons _ (hcons _ (restOfComment_suffix hresult))), .inr (.inr hfound)⟩
  · obtain ⟨result, hresult, h⟩ := Option.bind_eq_some_iff.mp h
    obtain ⟨rfl, hfound⟩ := hcomment h
    exact ⟨hcons _ (hcons _ (restOfComment_suffix hresult)), .inl hfound⟩
  · next c tail _ _ _ _ _ _ _ _ _ =>
    have hdelimiter : ∀ {lexeme : Lexeme}, lexeme.text.toList = [c] →
        some ([(lexeme, (⟨start, start + ((c :: tail).length - tail.length)⟩ : Extent))], tail) =
          some (found, rest) → _ := fun {lexeme} htext h =>
      hsingle (List.suffix_cons c tail) (by simp [htext]) h
    split at h
    · cases h
      exact ⟨List.suffix_cons _ _, .inl rfl⟩
    · split at h
      · next hplaceholder =>
        have hprefix : placeholder <+: c :: tail := List.isPrefixOf_iff_prefix.mp hplaceholder
        obtain ⟨more, hmore⟩ := hprefix
        refine (hsingle (List.drop_suffix _ _) ?_ h).imp_right fun h => .inr (.inl h)
        rw [← hmore]
        simp [Lexeme.text]
      · split at h
        · exact (hdelimiter rfl h).imp_right fun h => .inr (.inl h)
        · exact (hdelimiter rfl h).imp_right fun h => .inr (.inl h)
        · exact (hdelimiter rfl h).imp_right fun h => .inr (.inl h)
        · exact (hdelimiter rfl h).imp_right fun h => .inr (.inl h)
        · exact (hdelimiter rfl h).imp_right fun h => .inr (.inl h)
        · exact (hdelimiter rfl h).imp_right fun h => .inr (.inl h)
        · obtain ⟨⟨lexeme, tail'⟩, hleaf, h⟩ := Option.bind_eq_some_iff.mp h
          obtain ⟨hsuffix, htext⟩ := text_leaf? hleaf
          exact (hsingle hsuffix htext h).imp_right fun h => .inr (.inl h)

/-! ### All lexemes -/

theorem segments_scan {fuel : Nat} (hdrop : text.drop start = cs)
    (h : scan fuel start cs = some found) : Segments text found := by
  induction fuel generalizing start cs found with
  | zero =>
      cases cs with
      | nil => cases h; exact .nil
      | cons c cs => cases h
  | succ fuel ih =>
      cases cs with
      | nil => cases h; exact .nil
      | cons c cs =>
          obtain ⟨⟨front, rest⟩, hnext, h⟩ := Option.bind_eq_some_iff.mp h
          obtain ⟨more, hmore, h⟩ := Option.bind_eq_some_iff.mp h
          cases h
          obtain ⟨hsuffix, hfront⟩ := next_cases hnext
          have hrest : text.drop (start + ((c :: cs).length - rest.length)) = rest := by
            rw [← List.drop_drop, hdrop]
            exact (List.suffix_iff_eq_drop.mp hsuffix).symm
          have hsegments : Segments text more := ih hrest hmore
          obtain rfl | ⟨lexeme, rfl, htext⟩ | ⟨inner, content, extent, hdocumentation⟩ := hfront
          · exact hsegments
          · refine .lexeme ⟨Nat.le_add_right _ _, ?_⟩ hsegments
            rw [hdrop, htext, Nat.add_sub_cancel_left]
          · exact .documentation hdocumentation hsegments

theorem segments_lex (h : lex cs = some found) : Segments cs found := by
  obtain ⟨found', hscan, h⟩ := Option.bind_eq_some_iff.mp h
  split at h
  · cases h
    exact segments_scan rfl hscan
  · cases h

/-! ### Telling documentation apart -/

/-- What documentation consists of, and what stands before its word and before its literal. -/
inductive Documents (ls : List Lexeme) : Nat → Lexeme → Prop where
  | punct (i : Nat) (c : Char) (joint : Bool) : Documents ls i (.punct c joint)
  | opening (i : Nat) (d : Delimiter) : Documents ls i (.opening d)
  | closing (i : Nat) (d : Delimiter) : Documents ls i (.closing d)
  | word {i : Nat} (h : ls[i]? = some (.opening .bracket)) : Documents ls (i + 1) (.word "doc")
  | literal {i : Nat} {content : String} (h : ls[i]? = some (.punct '=' false)) :
      Documents ls (i + 1) (.literal content)

variable {ls ls' : List Lexeme} {i : Nat} {lexeme : Lexeme}

theorem Documents.append_right (h : Documents ls i lexeme) : Documents (ls ++ ls') i lexeme := by
  have hget : ∀ {j : Nat} {a : Lexeme}, ls[j]? = some a → (ls ++ ls')[j]? = some a := by
    intro j a ha
    rw [List.getElem?_append_left (List.getElem?_eq_some_iff.mp ha).1, ha]
  cases h with
  | punct => exact .punct ..
  | opening => exact .opening ..
  | closing => exact .closing ..
  | word h => exact .word (hget h)
  | literal h => exact .literal (hget h)

theorem Documents.append_left (h : Documents ls i lexeme) :
    Documents (ls' ++ ls) (ls'.length + i) lexeme := by
  have hget : ∀ j : Nat, (ls' ++ ls)[ls'.length + j]? = ls[j]? := by
    intro j
    rw [List.getElem?_append_right (Nat.le_add_right _ _), Nat.add_sub_cancel_left]
  cases h with
  | punct => exact .punct ..
  | opening => exact .opening ..
  | closing => exact .closing ..
  | word h => exact .word ((hget _).trans h)
  | literal h => exact .literal ((hget _).trans h)

theorem documents_documentation {inner : Bool} {content : List Char} {extent : Extent}
    (h : documentation inner content extent = some found)
    (hi : (found.map Prod.fst)[i]? = some lexeme) : Documents (found.map Prod.fst) i lexeme := by
  rw [documentation] at h
  split at h
  · cases h
  · cases h
    cases inner
    · match i, hi with
      | 0, rfl => exact .punct ..
      | 1, rfl => exact .opening ..
      | 2, rfl => exact .word rfl
      | 3, rfl => exact .punct ..
      | 4, rfl => exact .literal rfl
      | 5, rfl => exact .closing ..
    · match i, hi with
      | 0, rfl => exact .punct ..
      | 1, rfl => exact .punct ..
      | 2, rfl => exact .opening ..
      | 3, rfl => exact .word rfl
      | 4, rfl => exact .punct ..
      | 5, rfl => exact .literal rfl
      | 6, rfl => exact .closing ..

/-- A lexeme stands in the text or is part of documentation. -/
theorem Segments.stands_or_documents (h : Segments text found) {l : Located}
    (hi : found[i]? = some l) : Stands text l ∨ Documents (found.map Prod.fst) i l.1 := by
  induction h generalizing i with
  | nil => simp at hi
  | lexeme hstands hrest ih =>
      cases i with
      | zero =>
          cases hi
          exact .inl hstands
      | succ i =>
          refine (ih hi).imp_right fun hdocuments => ?_
          rw [List.map_cons, ← List.singleton_append, Nat.add_comm]
          exact hdocuments.append_left
  | @documentation inner content extent found ls h hrest ih =>
      rw [List.map_append]
      by_cases hlt : i < found.length
      · rw [List.getElem?_append_left hlt] at hi
        refine .inr (documents_documentation h ?_).append_right
        rw [List.getElem?_map, hi]
        rfl
      · obtain ⟨j, rfl⟩ := Nat.exists_eq_add_of_le (Nat.le_of_not_lt hlt)
        rw [List.getElem?_append_right (Nat.le_add_right _ _), Nat.add_sub_cancel_left] at hi
        have hlength : found.length = (found.map Prod.fst).length := (List.length_map _).symm
        exact (ih hi).imp_right fun hdocuments => hlength ▸ hdocuments.append_left

end Lexer

namespace Source

open Lexer

variable {text : String} {s : Source} {i : Nat}

theorem segments_of_read? (h : read? text = some s) : Segments s.text s.located := by
  obtain ⟨located, hlex, rfl⟩ := Option.map_eq_some_iff.mp h
  exact segments_lex hlex

/-- A lexeme that is no part of documentation is what its span cuts out of the text. -/
theorem cut_span {lexeme : Lexeme} (h : read? text = some s) (hi : s.lexemes[i]? = some lexeme)
    (hdocuments : ¬ Documents s.lexemes i lexeme) :
    (s.span (.single i)).cut s.text = lexeme.text.toList := by
  obtain ⟨⟨_, extent⟩, hlocated, rfl⟩ := List.getElem?_map .. ▸ hi |> Option.map_eq_some_iff.mp
  obtain ⟨hle, hcut⟩ :=
    ((segments_of_read? h).stands_or_documents hlocated).resolve_right hdocuments
  have hextent : s.extents[i]? = some extent := by
    rw [extents, List.getElem?_map, hlocated]
    rfl
  rw [span_single_of_getElem? hextent, cut_spanOf s hle, cut]
  exact hcut

/-- A word is cut out by its span, unless it is the one in documentation. -/
theorem cut_span_word {w : String} (h : read? text = some s) (hi : s.lexemes[i]? = some (word w))
    (hw : w = "doc" → ∀ j, i = j + 1 → s.lexemes[j]? ≠ some (opening .bracket)) :
    (s.span (.single i)).cut s.text = w.toList := by
  refine cut_span h hi fun hdocuments => ?_
  cases hdocuments with
  | word hbefore => exact hw rfl _ rfl hbefore

/-- A literal is cut out by its span, unless it is the one in documentation. -/
theorem cut_span_literal {content : String} (h : read? text = some s)
    (hi : s.lexemes[i]? = some (literal content))
    (hbefore : ∀ j, i = j + 1 → s.lexemes[j]? ≠ some (punct '=' false)) :
    (s.span (.single i)).cut s.text = content.toList := by
  refine cut_span h hi fun hdocuments => ?_
  cases hdocuments with
  | literal h => exact hbefore _ rfl h

end Source

end TypedId
