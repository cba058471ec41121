import TypedId.Proofs.Grammar.Atoms

/-!
Every expression takes something.

Statements are read one after another, and each of them takes a lexeme at least. For most rules that
is so because they begin with a keyword, an operator or a group.
-/

namespace TypedId.Grammar

open Lexeme Rule

variable {g : PhraseReader} {m : Rendition} {s : List Lexeme} {α β γ : Type}

namespace Solid

/-- What is read and held back takes what it takes without that. -/
theorem hold {rule : Rule α} {given : α × List Lexeme → Prop} (h : Solid g .source s rule fun _ => True) :
    Solid g .source s (Rule.hold rule) given := by
  intro hg r x r' hs hb hrun hstray _
  obtain ⟨a, r₁, hrule, -, rfl⟩ := Rule.run_hold_eq_ok.mp hrun
  exact h hg r.unwritten a r₁ hs hb hrule hstray trivial

/-- What is kept in its source spelling is written as it was taken. -/
theorem kept {rule : Rule α} {given : α → Prop} (h : Solid g .source s rule fun _ => True) :
    Solid g .source s (Rule.kept rule) given :=
  .look fun _ => .bind_left h.hold

/-- A group takes at least its delimiters. -/
theorem within {d : Delimiter} {rule : Rule α} {given : α → Prop} :
    Solid g .source s (Rule.within d rule) given := by
  intro hg r a r' hs _ hrun _ _
  obtain ⟨hsees, r₁, hrule, rfl⟩ := Rule.run_within_eq_ok.mp hrun
  obtain ⟨s', hr⟩ := Rereads.exists_of_seesGroup hsees
  have hinner : r₁.rest.length ≤ s'.length := by
    have htake : (r.take 1 [opening d]).rest = s' := by rw [Reader.take, hr]; rfl
    exact htake ▸ (Rule.run_getsOn hg rule _ a r₁ hrule).rest.length_le
  show (r₁.leave d).rest.length < r.rest.length
  rw [hr]
  exact Nat.lt_succ_of_le (((r₁.getsOn_leave d).rest.length_le).trans hinner)

theorem literal : Solid g m s Rule.literal fun _ => True := by
  refine (Rereads.literal : Rereads g m s _ _ _ _ fun _ _ _ => True).solid (fun _ _ _ => trivial) ?_
  rintro _ _ _ _ _ _ h
  cases h

theorem lifetime : Solid g m s Rule.lifetime fun _ => True := by
  refine (Rereads.lifetime : Rereads g m s _ _ _ _ fun _ _ _ => True).solid (fun _ _ _ => trivial) ?_
  rintro _ _ _ _ _ _ ⟨_, _, _, _, _, h, _⟩
  cases h

theorem identifierOr (keywords : List String) : Solid g m s (Rule.identifierOr keywords) fun _ => True := by
  refine Rereads.anyWord_solid.congr fun r x _ hrun => ?_
  obtain ⟨n, r'⟩ := x
  obtain ⟨w, rest, hrest, hw⟩ := word_of_run_identifierOr hrun
  rw [run_identifierOr_of_word hrest hw] at hrun
  exact (run_anyWord_of_word hrest).trans hrun

/-- One rule after another leaves a text if the first one does, given what the second one tells of it. -/
theorem bind_of_next {rule : Rule α} {next : α → Rule β} {P : α → Prop} {given : β → Prop}
    (h : Solid g m s rule P)
    (hnext : ∀ a r b r', (next a).run g r = .ok (b, r') → given b → P a) :
    Solid g m s (rule >>= next) given := by
  intro hg r b r'' hs hb hrun hstray hgiven
  obtain ⟨a, r', hrule, hrest⟩ := run_bind_eq_ok.mp hrun
  have hon := (next a).run_getsOn hg r' b r'' hrest
  have hleaves := h hg r a r' hs hb hrule (hon.stray hstray) (hnext a r' b r'' hrest hgiven)
  cases m with
  | source => exact Nat.lt_of_le_of_lt hon.rest.length_le hleaves
  | written => exact Nat.lt_of_lt_of_le hleaves hon.written.length_le

/-! ### Paths -/

/-- A word of a path is taken and written, in each of the cases. -/
theorem pathSegment (inExpression : Bool) : Solid g m s (Rule.pathSegment inExpression) fun _ => True :=
  .ahead (.ite (fun _ => .bind_left Rereads.anyWord_solid) fun _ => .bind_left (identifierOr _))

theorem pathSegments (inExpression : Bool) (goesOn : List Lexeme → Bool) :
    Solid g m s (Rule.pathSegments inExpression goesOn) fun _ => True :=
  .bind_left (pathSegment inExpression)

theorem path (inExpression : Bool) : Solid g m s (Rule.path inExpression) fun _ => True :=
  .bind_right fun _ _ => .bind_left (pathSegments inExpression _)

/-- A path takes something: an angle bracket or its first word. -/
theorem qualifiedPath (inExpression : Bool) :
    Solid g m s (Rule.qualifiedPath inExpression) fun _ => True := by
  refine .bind_right fun found s' => .ite (fun _ => ?_) fun _ => path inExpression
  exact .bind_right fun _ _ => .bind_right fun _ _ => .ite
    (fun _ => .bind_right fun _ _ => .bind_left (Rereads.operator_solid ">" (by decide)))
    fun _ => .bind_left (Rereads.operator_solid ">" (by decide))

/-! ### Expressions -/

/-- A keyword is something, whatever follows it. -/
theorem keyword_then {w : String} {next : Unit → Rule α} {given : α → Prop} :
    Solid g m s (Rule.keyword w >>= next) given :=
  .bind_left (Rereads.keyword_solid w)

theorem ifExpression : Solid g m s Rule.ifExpression fun _ => True :=
  .repeating keyword_then

theorem closure (braces : Bool) : Solid g m s (Rule.closure braces) fun _ => True :=
  .bind_right fun _ _ => .bind_right fun _ _ => .bind_right fun _ _ =>
    .bind_right fun _ _ => .bind_right fun _ _ =>
    .bind_left (Rereads.operator_solid "|" (by decide))

theorem labelledExpression : Solid g m s Rule.labelledExpression fun _ => True :=
  .bind_left lifetime

/-- An expression takes something that is neither built by operators nor followed by anything. -/
theorem atom (braces : Bool) : Solid g .source s (Rule.atom braces) fun _ => True := by
  refine .look fun n => ?_
  refine .ite (fun _ => .bind_left literal) fun _ => ?_
  refine .ite (fun _ => keyword_then) fun _ => ?_
  refine .ite (fun _ => keyword_then) fun _ => ?_
  refine .ite (fun _ => .bind_left (closure braces)) fun _ => ?_
  refine .ite (fun _ => .bind_left (kept keyword_then)) fun _ => ?_
  refine .ite (fun _ => .bind_left (qualifiedPath true)) fun _ => ?_
  refine .ite (fun _ => .bind_left within) fun _ => ?_
  refine .ite (fun _ => .bind_left keyword_then) fun _ => ?_
  refine .ite (fun _ => keyword_then) fun _ => ?_
  refine .ite (fun _ => keyword_then) fun _ => ?_
  refine .ite (fun _ => .bind_left (kept keyword_then)) fun _ => ?_
  refine .ite (fun _ => .bind_left within) fun _ => ?_
  refine .ite (fun _ => keyword_then) fun _ => ?_
  refine .ite (fun _ => .bind_left ifExpression) fun _ => ?_
  refine .ite (fun _ => .bind_left keyword_then) fun _ => ?_
  refine .ite (fun _ => .bind_left keyword_then) fun _ => ?_
  refine .ite (fun _ => .bind_left keyword_then) fun _ => ?_
  refine .ite (fun _ => .bind_left keyword_then) fun _ => ?_
  refine .ite (fun _ => keyword_then) fun _ => ?_
  refine .ite (fun _ => .bind_left keyword_then) fun _ => ?_
  refine .ite (fun _ => .bind_left keyword_then) fun _ => ?_
  refine .ite (fun _ => .bind_left within) fun _ => ?_
  refine .ite (fun _ => .bind_left Rereads.dots_solid) fun _ => ?_
  refine .ite (fun _ => keyword_then) fun _ => ?_
  exact .ite (fun _ => .bind_left labelledExpression) fun _ => .complain _

/-- An operand takes something. -/
theorem operand (hg : Rereadable g) (braces : Bool) :
    Solid g .source s (Rule.operand braces) fun _ => True := by
  refine .look fun n => .bind_right fun x s₁ => .ahead ?_
  refine .ite (fun _ => .bind_right fun _ _ => .bind_left (Rereads.operator_solid "&" (by decide)))
    fun _ => ?_
  refine .ite (fun _ => .bind_right fun _ _ => .bind_left ?_) fun _ => ?_
  · split
    · exact Rereads.operator_solid "*" (by decide)
    split
    · exact Rereads.operator_solid "!" (by decide)
    · exact Rereads.operator_solid "-" (by decide)
  · exact .bind_left (hold (.bind_left (hg.atomSolid s₁ braces)))

end Solid

/-- What is written is not empty either if what is written is read again before itself. -/
theorem Rereads.solid_written {rule rule' : Rule α} {keep : α → γ} {front : List Lexeme → Prop}
    {follow : α → List Lexeme → List Lexeme → Prop} {given : α → Prop}
    (h : Rereads g m s rule rule' keep front follow) (hfollow : ∀ a s', given a → follow a s' s')
    (hsolid : ∀ s, Solid g .source s rule' fun _ => True) : Solid g m s rule given := by
  intro hg r a r' hs hb hrun hstray hgiven
  obtain ⟨taken, written, hclosed, -, hrest, hafter, hagain⟩ := h hg r a r' hs hb hrun hstray
  refine (m.leaves_after (hs.trans hrest) hafter).mpr fun htext => ?_
  have hnil : (⟨⟨0, r'.rest⟩, [], none⟩ : Reader).rest = m.text taken written ++ r'.rest := by
    rw [htext]; rfl
  obtain ⟨-, a', -, hread⟩ := hagain _ _ hnil rfl (hfollow a r'.rest hgiven)
  rw [htext] at hread
  have hleaves := hsolid _ hg _ _ _ rfl (hclosed.balanced (hrest ▸ hb)) hread rfl trivial
  exact Nat.lt_irrefl _ hleaves

end TypedId.Grammar
