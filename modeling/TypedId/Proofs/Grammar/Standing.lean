import TypedId.Proofs.Grammar.Series

/-!
Texts that stand by themselves.

A chunk fits a rule that reads it whatever follows and writes it again, up to joints
(`Grammar.Rule.Chunk.Fits`). A text stands if it is one of a chunk that fits (`Grammar.Rule.Stands`).
Whether a rule whose texts are all read again lets a given text stand can be computed, for it does if
it restores the text when that is read alone (`Grammar.Rule.restores`).
-/

namespace TypedId

open Lexeme Grammar Rule

/-- A lexeme as it stands alone: whether a punctuation character is joined to the next one is left
out. -/
def Lexeme.alone : Lexeme → Lexeme
  | punct c _ => punct c false
  | l => l

namespace Grammar.Rule

variable {α β ι : Type} {rule : Rule α} {keep : α → β} {ls : List Lexeme}

/-- A text with what a rule writes and remembers of it, whatever follows the text. It does not begin
with the end of a group. -/
structure Chunk.Fits (depth : Nat) (rule : Rule α) (keep : α → β) (c : Chunk β) : Prop where
  ends : ∀ k, Grammar.ends (c.text ++ k) = false
  delimits : rule.Delimits (Phrase.readWithin depth) keep c.text c.written c.found
  alone : c.written.map alone = c.text.map alone

/-- However much deeper a rule may go. -/
theorem Chunk.Fits.of_le {depth depth' : Nat} {c : Chunk β} (h : c.Fits depth rule keep)
    (hle : depth ≤ depth') :
    c.Fits depth' rule keep :=
  ⟨h.ends, h.delimits.of_le hle, h.alone⟩

/-- A rule reads a text whatever follows, and writes it again, up to joints; `good` tells what is
written and remembered. -/
def Stands (rule : Rule α) (keep : α → β) (text : List Lexeme) (good : Chunk β → Prop) : Prop :=
  ∃ depth c, c.Fits depth rule keep ∧ c.text = text ∧ good c

/-- Whether a rule takes all of a text, whose groups are whole, and writes it again, up to joints; what
is remembered is tested. -/
def restores (rule : Rule α) (ls : List Lexeme) (test : α → Bool) : Bool :=
  balanced [] ls &&
    match rule.read ls with
    | .ok (a, r) => r.rest.isEmpty && r.stray.isNone && r.position == ls.length &&
        r.written.reverse.map alone == ls.map alone && test a
    | .error _ => false

theorem exists_reads_of_restores {test : α → Bool} (h : rule.restores ls test = true) :
    ∃ a written, rule.Reads ls a written ∧ written.map alone = ls.map alone ∧ test a = true := by
  rw [restores, Bool.and_eq_true] at h
  obtain ⟨hbalanced, h⟩ := h
  split at h
  · next a r hread =>
    simp only [Bool.and_eq_true, List.isEmpty_iff, Option.isNone_iff_eq_none, beq_iff_eq] at h
    obtain ⟨⟨⟨⟨hrest, hstray⟩, hposition⟩, hwritten⟩, htest⟩ := h
    refine ⟨a, r.written.reverse, ⟨hbalanced, hread.trans ?_⟩, hwritten, htest⟩
    obtain ⟨⟨position, rest⟩, written, stray⟩ := r
    cases hrest
    cases hstray
    cases hposition
    simp [Reader.after, Reader.ofLexemes]
  · cases h

/-- A text stands if it is restored when it is read alone. -/
theorem Stands.of_restores {good : Chunk β → Prop} (hsteady : rule.Steady keep fun _ _ _ => True)
    {test : α → Bool}
    (hends : Grammar.ends ls = false) (h : rule.restores ls test = true)
    (hgood : ∀ a written, rule.Reads ls a written → test a = true → good ⟨ls, written, keep a⟩) :
    rule.Stands keep ls good := by
  obtain ⟨a, written, hreads, halone, htest⟩ := exists_reads_of_restores h
  exact ⟨_, ⟨ls, written, keep a⟩, ⟨ends_append hends, hreads.delimits hsteady, halone⟩, rfl,
    hgood a written hreads htest⟩

/-- Texts that stand are read at some depth all together. -/
theorem Stands.exists_chunks {texts : List (List Lexeme)} {xs : List ι} {good : ι → Chunk β → Prop}
    (h : List.Forall₂ (fun text x => rule.Stands keep text (good x)) texts xs) :
    ∃ depth, ∃ chunks : List (Chunk β), chunks.map Chunk.text = texts ∧ List.Forall₂ good xs chunks ∧
      ∀ c ∈ chunks, c.Fits depth rule keep := by
  induction h with
  | nil => exact ⟨0, [], rfl, .nil, nofun⟩
  | cons hstands _ ih =>
      obtain ⟨depth, chunks, rfl, hchunks, hall⟩ := ih
      obtain ⟨depth', c, hc, rfl, hgood⟩ := hstands
      refine ⟨max depth depth', c :: chunks, rfl, .cons hgood hchunks, ?_⟩
      exact List.forall_mem_cons.mpr ⟨hc.of_le (le_max_right ..), fun c' hc' =>
        (hall c' hc').of_le (le_max_left ..)⟩

/-- What is written of chunks that fit is what they are, up to joints. -/
theorem Chunk.Fits.alone_flatMap {depth : Nat} {chunks : List (Chunk β)}
    (h : ∀ c ∈ chunks, c.Fits depth rule keep) :
    (chunks.flatMap Chunk.written).map Lexeme.alone = (chunks.flatMap Chunk.text).map Lexeme.alone := by
  induction chunks with
  | nil => rfl
  | cons c chunks ih =>
      rw [List.flatMap_cons, List.flatMap_cons, List.map_append, List.map_append, (h c (by simp)).alone,
        ih fun c' hc' => h c' (List.mem_cons_of_mem c hc')]

end Grammar.Rule

end TypedId
