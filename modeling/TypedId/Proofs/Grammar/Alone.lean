import TypedId.Proofs.Grammar.Sufficiency

/-!
Reading a text alone.

A rule reads a text alone if it takes all of it (`Rule.Reads`). A rule is steady if its texts are
read again however deep it may go. What a steady rule reads in front of something else it reads
alone, too (`Reads.of_run`); and what it reads alone it reads in front of whatever does not go on with
it (`Reads.run`). So where a text ends can be told from the text.
-/

namespace TypedId.Grammar

open Lexeme Rule

variable {α β : Type} {rule : Rule α} {keep : α → β} {follow : α → List Lexeme → List Lexeme → Prop}

/-- A rule reads all of a text, whose groups are whole; what it remembers then, and what it writes. -/
structure Rule.Reads (rule : Rule α) (ls : List Lexeme) (a : α) (written : List Lexeme) : Prop where
  balanced : balanced [] ls = true
  read : rule.read ls = .ok (a, (Reader.ofLexemes ls).after ls written [])

/-- Both texts of a rule are read again by it, however deep it may go. -/
def Rule.Steady (rule : Rule α) (keep : α → β) (follow : α → List Lexeme → List Lexeme → Prop) : Prop :=
  ∀ depth m s, Rereads (Phrase.readWithin depth) m s rule rule keep (fun _ => True) follow

/-- A text that does not begin with the end of a group does not, whatever follows it. -/
theorem ends_append {ls : List Lexeme} (h : ends ls = false) (k : List Lexeme) : ends (ls ++ k) = false := by
  cases ls with
  | nil => cases h
  | cons l ls => cases l <;> first | rfl | cases h

/-! ### Depth -/

/-- What succeeds comes out the same however much deeper it may go. -/
theorem Rule.run_of_le {depth depth' : Nat} (h : depth ≤ depth') {r : Reader} {x : α × Reader}
    (hrun : rule.run (Phrase.readWithin depth) r = .ok x) :
    rule.run (Phrase.readWithin depth') r = .ok x := by
  have hlasting : Lasting fun _ => True := fun _ _ _ _ => trivial
  rw [(rule.settlesRun hlasting (keeps_readWithin hlasting depth) (settles_of_le hlasting h) r trivial
    (by rw [hrun]; rfl)).1, hrun]

/-- What succeeds at some depth is what is read. -/
theorem Rule.read_of_run_ok {depth : Nat} {ls : List Lexeme} {x : α × Reader}
    (hrun : rule.run (Phrase.readWithin depth) (.ofLexemes ls) = .ok x) : rule.read ls = .ok x := by
  rw [read_of_run (by rw [hrun]; rfl), hrun]

namespace Rule.Reads

/-! ### In front of something else, and alone -/

/-- What is read in front of something that may be missing is read alone. -/
theorem of_run (hsteady : rule.Steady keep follow) {depth : Nat} {r r' : Reader} {a : α}
    (hb : Balanced r.rest) (hrun : rule.run (Phrase.readWithin depth) r = .ok (a, r'))
    (hstray : r'.stray = none) (hend : follow a r'.rest []) :
    ∃ taken written a', r.rest = taken ++ r'.rest ∧ r' = r.after taken written r'.rest ∧
      r.stray = none ∧ keep a' = keep a ∧ rule.Reads taken a' written := by
  obtain ⟨taken, written, hclosed, hstray', hrest, hafter, hagain⟩ :=
    hsteady depth .source r.rest (tidy_readWithin depth) r a r' rfl hb hrun hstray
  obtain ⟨-, a', ha', hrun'⟩ := hagain (.ofLexemes taken) [] (List.append_nil taken).symm rfl hend
  have hbalanced : Lexeme.balanced [] taken = true := by
    have h := hclosed [] []
    rwa [List.append_nil] at h
  exact ⟨taken, written, a', hrest, hafter, hstray', ha', hbalanced, read_of_run_ok hrun'⟩

/-- What is read alone is read in front of whatever does not go on with it, and so is what is
written then. -/
theorem run {ls written : List Lexeme} {a : α} (h : rule.Reads ls a written)
    (hsteady : rule.Steady keep follow) (m : Rendition) {depth : Nat}
    (hdepth : sufficientDepth ls.length ≤ depth) {q : Reader} {k : List Lexeme}
    (hq : q.rest = m.text ls written ++ k) (hstray : q.stray = none) (hk : follow a [] k) :
    ∃ a', keep a' = keep a ∧
      rule.run (Phrase.readWithin depth) q = .ok (a', q.after (m.text ls written) written k) := by
  have hread := h.read
  obtain ⟨taken, written', -, -, hrest, hafter, hagain⟩ :=
    hsteady _ m ls (tidy_readWithin _) (.ofLexemes ls) a _ rfl ⟨[], h.balanced⟩ hread rfl
  obtain rfl : ls = taken := hrest.trans (List.append_nil taken)
  obtain ⟨-, rfl⟩ := Reader.after_inj rfl hafter
  obtain ⟨-, a', ha', hrun⟩ := hagain q k hq hstray hk
  exact ⟨a', ha', run_of_le hdepth hrun⟩

end Rule.Reads

/-! ### Rules that are steady -/

theorem Rule.steady_type (plus : Bool) : (call (.type plus)).Steady id fun _ => TypeFollow :=
  fun depth m s => ((rereadable_readWithin depth).plainType m s plus).front_mono fun _ _ => trivial

theorem Rule.steady_outerAttributes :
    outerAttributes.Steady id fun _ s k => sees "#" s = false → sees "#" k = false :=
  fun depth _ _ => (Rereads.outerAttributes (rereadable_readWithin depth) fun _ _ => True).mono
    (fun _ _ => trivial) fun _ _ _ hk hs => ⟨trivial, hk hs⟩

end TypedId.Grammar
