import TypedId.Proofs.Grammar.Run

/-!
Reading again what was written.

A rule takes lexemes and writes others. `Rereads` says of a rule that both texts can be read again:
in place of what was taken stands what was written, or what was taken itself, and something else
follows. The second run then takes that text and no more, writes what the first run wrote, and
remembers the same. It may rely on how that which follows looks (`follow`), and it tells how the
text that is read again looks at its beginning (`front`).

The lemmas here carry `Rereads` through every way to build a rule.
-/

namespace TypedId.Grammar

open Lexeme

/-- Which text is read again. -/
inductive Rendition where
  /-- What was taken, in its source spelling. -/
  | source
  /-- What was written. -/
  | written

/-- The text that is read again. -/
def Rendition.text (m : Rendition) (taken written : List Lexeme) : List Lexeme :=
  match m with
  | .source => taken
  | .written => written

/-- Whether all groups within a text are whole. -/
def Closed (ls : List Lexeme) : Prop :=
  ∀ stack rest, balanced stack (ls ++ rest) = balanced stack rest

/-- Whether a text is the end of one whose groups are whole. -/
def Balanced (ls : List Lexeme) : Prop :=
  ∃ stack, balanced stack ls = true

namespace Rendition

variable (m : Rendition) {taken written taken' written' : List Lexeme}

@[simp] theorem text_self (ls : List Lexeme) : m.text ls ls = ls := by
  cases m <;> rfl

/-- What is taken and written in two steps is taken and written in one. -/
theorem text_append :
    m.text (taken ++ taken') (written ++ written') = m.text taken written ++ m.text taken' written' := by
  cases m <;> rfl

end Rendition

/-! ### Whole groups -/

theorem Closed.nil : Closed [] := fun _ _ => rfl

/-- Closed texts may stand side by side. -/
theorem Closed.append {ls ls' : List Lexeme} (h : Closed ls) (h' : Closed ls') :
    Closed (ls ++ ls') := by
  intro stack rest
  rw [List.append_assoc, h, h']

/-- What stands behind a closed text is as balanced as the whole. -/
theorem Closed.balanced {ls rest : List Lexeme} (h : Closed ls) (hb : Balanced (ls ++ rest)) :
    Balanced rest := by
  obtain ⟨stack, hstack⟩ := hb
  exact ⟨stack, by rw [← h stack rest, hstack]⟩

theorem Closed.word (w : String) : Closed [word w] := by
  intro stack rest
  cases stack <;> rfl

theorem Closed.punct (c : Char) (joint : Bool) : Closed [punct c joint] := by
  intro stack rest
  cases stack <;> rfl

theorem Closed.literal (text : String) : Closed [literal text] := by
  intro stack rest
  cases stack <;> rfl

/-- A whole text in matching brackets is whole. -/
theorem Closed.group {d : Delimiter} {ls : List Lexeme} (h : Closed ls) :
    Closed (opening d :: ls ++ [closing d]) := by
  intro stack rest
  have hopen : ∀ tail, Lexeme.balanced stack (opening d :: tail) = Lexeme.balanced (d :: stack) tail := by
    intro tail
    cases stack <;> rfl
  rw [List.append_assoc, List.cons_append, hopen, h]
  simp [Lexeme.balanced]

/-- What closes the group that a text is in. -/
theorem Balanced.closing_of_ends {d : Delimiter} {content rest : List Lexeme} (h : Closed content)
    (hb : Balanced (opening d :: (content ++ rest))) (hends : ends rest = true) :
    ∃ tail, rest = closing d :: tail := by
  obtain ⟨stack, hstack⟩ := hb
  have hstack' : Lexeme.balanced (d :: stack) (content ++ rest) = true := by
    cases stack <;> exact hstack
  rw [h] at hstack'
  cases rest with
  | nil => simp [Lexeme.balanced] at hstack'
  | cons l tail =>
      cases l <;> simp [ends] at hends
      case closing e =>
        simp [Lexeme.balanced] at hstack'
        exact ⟨tail, by rw [hstack'.1]⟩

/-- The content of a group reaches to the delimiter that closes it, whatever follows. -/
theorem exists_content (opened : List Delimiter) {d : Delimiter} {stack : List Delimiter}
    {ls : List Lexeme} (h : Lexeme.balanced (opened ++ d :: stack) ls = true) :
    ∃ content rest, ls = content ++ closing d :: rest ∧
      (∀ stack' rest', Lexeme.balanced (opened ++ stack') (content ++ rest') =
        Lexeme.balanced stack' rest') ∧
      ∀ e rest', groupLength opened.length (content ++ closing e :: rest') = content.length + 1 := by
  induction ls generalizing opened with
  | nil => cases opened <;> simp [Lexeme.balanced] at h
  | cons l ls ih =>
      cases l with
      | opening e =>
          have h' : Lexeme.balanced (e :: opened ++ d :: stack) ls = true := by
            cases opened <;> simpa [Lexeme.balanced] using h
          obtain ⟨content, rest, rfl, hclosed, hlength⟩ := ih (e :: opened) h'
          refine ⟨opening e :: content, rest, rfl, fun stack' rest' => ?_, fun e' rest' => ?_⟩
          · rw [← hclosed stack' rest']
            cases opened <;> cases stack' <;> rfl
          · simpa [groupLength] using hlength e' rest'
      | closing e =>
          cases opened with
          | nil =>
              simp [Lexeme.balanced] at h
              exact ⟨[], ls, by simp [h.1], fun _ _ => rfl, fun _ _ => by simp [groupLength]⟩
          | cons f opened =>
              simp [Lexeme.balanced] at h
              obtain ⟨content, rest, rfl, hclosed, hlength⟩ := ih opened h.2
              refine ⟨closing e :: content, rest, rfl, fun stack' rest' => ?_, fun e' rest' => ?_⟩
              · simpa [Lexeme.balanced, h.1] using hclosed stack' rest'
              · simpa [groupLength] using hlength e' rest'
      | word | punct | literal =>
          have h' : Lexeme.balanced (opened ++ d :: stack) ls = true := by
            cases opened <;> simpa [Lexeme.balanced] using h
          obtain ⟨content, rest, rfl, hclosed, hlength⟩ := ih opened h'
          refine ⟨_ :: content, rest, rfl, fun stack' rest' => ?_, fun e' rest' => ?_⟩
          · rw [← hclosed stack' rest']
            cases opened <;> cases stack' <;> simp [Lexeme.balanced]
          · simpa [groupLength] using hlength e' rest'

/-! ### Where a reader gets to -/

/-- A reader that took a text and wrote another; `rest` is still ahead. -/
def Reader.after (r : Reader) (text written rest : List Lexeme) : Reader :=
  ⟨⟨r.position + text.length, rest⟩, written.reverse ++ r.written, none⟩

/-- To get to a place in two steps is to get there in one. -/
theorem Reader.after_after (r : Reader) (text written rest text' written' rest' : List Lexeme) :
    (r.after text written rest).after text' written' rest' =
      r.after (text ++ text') (written ++ written') rest' := by
  simp [Reader.after, Nat.add_assoc]

/-- A reader that has noted no leftovers is where it is. -/
theorem Reader.after_nil {r : Reader} (h : r.stray = none) : r.after [] [] r.rest = r := by
  obtain ⟨_, _, _⟩ := r
  cases h
  rfl

/-- What was taken and written can be told from where a reader gets to. -/
theorem Reader.after_inj {r : Reader} {taken written taken' written' rest : List Lexeme}
    (h : taken ++ rest = taken' ++ rest)
    (h' : r.after taken written rest = r.after taken' written' rest) :
    taken = taken' ∧ written = written' := by
  refine ⟨List.append_cancel_right h, ?_⟩
  have hwritten := congrArg Reader.written h'
  exact List.reverse_inj.mp (List.append_cancel_right hwritten)

/-- Taking lexemes that are ahead. -/
theorem Reader.take_eq_after (taken written : List Lexeme) {r : Reader} {rest : List Lexeme}
    (h : r.rest = taken ++ rest) (hstray : r.stray = none) :
    r.take taken.length written = r.after taken written rest := by
  obtain ⟨⟨_, _⟩, _, _⟩ := r
  cases hstray
  simp only at h
  simp [Reader.take, Reader.after, h]

/-- Behind the content of a group, nothing but the delimiter that closes it is left. -/
theorem Reader.leave_after (r : Reader) (d : Delimiter) (text written rest : List Lexeme) :
    ((r.take 1 [opening d]).after text written (closing d :: rest)).leave d =
      r.after (opening d :: text ++ [closing d]) (opening d :: written ++ [closing d]) rest := by
  simp [Reader.leave, Reader.after, Reader.take, ends, groupLength]
  omega

/-- A group is read if its content is. -/
theorem Rule.run_within_of_ok {g : PhraseReader} {α : Type} {d : Delimiter} {rule : Rule α} {r : Reader}
    {a : α} {text written rest : List Lexeme} (hsees : seesGroup d r.rest = true)
    (h : rule.run g (r.take 1 [opening d]) =
      .ok (a, (r.take 1 [opening d]).after text written (closing d :: rest))) :
    (Rule.within d rule).run g r =
      .ok (a, r.after (opening d :: text ++ [closing d]) (opening d :: written ++ [closing d]) rest) :=
  Rule.run_within_eq_ok.mpr ⟨hsees, _, h, (r.leave_after d text written rest).symm⟩

/-! ### What every run preserves -/

/-- A reader gets on: what is ahead shrinks, what is written grows, and a group that was not read to
its end is not forgotten. -/
structure Reader.GetsOn (r r' : Reader) : Prop where
  rest : r'.rest <:+ r.rest
  written : r.written <:+ r'.written
  stray : r'.stray = none → r.stray = none
  position : r.position ≤ r'.position

theorem Reader.GetsOn.refl (r : Reader) : r.GetsOn r :=
  ⟨List.suffix_refl _, List.suffix_refl _, id, Nat.le_refl _⟩

/-- Getting on twice is getting on. -/
theorem Reader.GetsOn.trans {r r' r'' : Reader} (h : r.GetsOn r') (h' : r'.GetsOn r'') :
    r.GetsOn r'' :=
  ⟨h'.rest.trans h.rest, h.written.trans h'.written, fun hstray => h.stray (h'.stray hstray),
    Nat.le_trans h.position h'.position⟩

theorem Reader.getsOn_take (r : Reader) (count : Nat) (written : List Lexeme) :
    r.GetsOn (r.take count written) :=
  ⟨List.drop_suffix _ _, List.suffix_append _ _, id, Nat.le_add_right _ _⟩

/-- Leaving a group drops what is left of its content and notes it. -/
theorem Reader.getsOn_leave (r : Reader) (d : Delimiter) : r.GetsOn (r.leave d) :=
  ⟨List.drop_suffix _ _, List.suffix_append _ _, fun h => (Option.or_eq_none_iff.mp h).1,
    Nat.le_add_right _ _⟩

/-- A way to read phrases with which every reader gets on. -/
def Tidy (g : PhraseReader) : Prop :=
  ∀ phrase r a r', g phrase r = .ok (a, r') → r.GetsOn r'

/-- A repetition gets on if its steps do. By induction on the bound. -/
theorem iterate_getsOn {σ α : Type} {step : σ → Reader → Outcome (σ ⊕ α)}
    (hstep : ∀ x r y r', step x r = .ok (y, r') → r.GetsOn r') :
    ∀ (bound : Nat) (x : σ) (r : Reader) (a : α) (r' : Reader),
      iterate step bound x r = .ok (a, r') → r.GetsOn r' := by
  intro bound
  induction bound with
  | zero =>
      intro x r a r' h
      cases h
  | succ bound ih =>
      intro x r a r' h
      rw [iterate] at h
      split at h
      · next y r₁ hrun => exact (hstep x r _ r₁ hrun).trans (ih y r₁ a r' h)
      · next b r₁ hrun =>
        cases h
        exact hstep x r _ r' hrun
      · cases h

/-- A reader gets on by every rule. -/
theorem Rule.run_getsOn {g : PhraseReader} (hg : Tidy g) {α : Type} (rule : Rule α) :
    ∀ (r : Reader) (a : α) (r' : Reader), rule.run g r = .ok (a, r') → r.GetsOn r' := by
  induction rule with
  | done b =>
      intro r a r' h
      cases h
      exact .refl r
  | andThen rule next ih ihnext =>
      intro r a r' h
      obtain ⟨b, r₁, hrule, hnext⟩ := run_bind_eq_ok.mp h
      exact (ih r b r₁ hrule).trans (ihnext b r₁ a r' hnext)
  | defer rule next ih ihnext =>
      intro r a r' h
      obtain ⟨b, r₁, r₂, hrule, hnext, rfl⟩ := run_defer_eq_ok.mp h
      have hfirst := ih r b r₁ hrule
      have hsecond := ihnext b { r₁ with stray := r.stray } a r₂ hnext
      exact ⟨hsecond.rest.trans hfirst.rest, hfirst.written.trans hsecond.written,
        fun hnone => hsecond.stray (Option.or_eq_none_iff.mp hnone).1,
        Nat.le_trans hfirst.position hsecond.position⟩
  | fail fault =>
      intro r a r' h
      rw [run_fail] at h
      cases h
  | look =>
      intro r a r' h
      rw [run_look] at h
      cases h
      exact .refl r
  | take count written =>
      intro r a r' h
      rw [run_take] at h
      cases h
      exact r.getsOn_take count written
  | call phrase =>
      intro r a r' h
      rw [run_call] at h
      exact hg phrase r a r' h
  | within d rule ih =>
      intro r a r' h
      obtain ⟨-, r₁, hrule, rfl⟩ := run_within_eq_ok.mp h
      exact ((r.getsOn_take 1 [opening d]).trans (ih _ a r₁ hrule)).trans (r₁.getsOn_leave d)
  | attempt rule ih =>
      intro r a r' h
      rw [run_attempt_eq] at h
      split at h
      · next b r₁ hrule =>
        cases h
        exact ih r b r' hrule
      · split at h <;> cases h
        exact .refl r
  | hold rule ih =>
      intro r a r' h
      obtain ⟨b, r₁, hrule, -, rfl⟩ := run_hold_eq_ok.mp h
      obtain ⟨hrest, -, hstray, hposition⟩ := ih { r with written := [] } b r₁ hrule
      exact ⟨hrest, List.suffix_refl _, hstray, hposition⟩
  | repeating step start ih =>
      intro r a r' h
      rw [run_repeating] at h
      exact iterate_getsOn ih _ start r a r' h

/-- If no leftovers are noted at the end, none were noted before. -/
theorem Rule.run_stray {g : PhraseReader} (hg : Tidy g) {α : Type} (rule : Rule α) (r : Reader)
    (a : α) (r' : Reader) (h : rule.run g r = .ok (a, r')) : r'.stray = none → r.stray = none :=
  (rule.run_getsOn hg r a r' h).stray

/-- Where no group is noted, it does not matter when one would be. -/
theorem Rule.run_defer_iff {g : PhraseReader} (hg : Tidy g) {α β : Type} {rule : Rule α} {next : α → Rule β}
    {r r' : Reader} {b : β} (hstray : r'.stray = none) :
    (defer rule next).run g r = .ok (b, r') ↔ (rule >>= next).run g r = .ok (b, r') := by
  have hsame : ∀ {q : Reader} {stray}, q.stray = none → stray = none →
      ({ q with stray := stray } : Reader) = q := by
    rintro ⟨view, written, _⟩ _ rfl rfl
    rfl
  rw [run_defer_eq_ok, run_bind_eq_ok]
  constructor
  · rintro ⟨a, r₁, r₂, hrule, hnext, rfl⟩
    obtain ⟨hstray₂, hstray₁⟩ := Option.or_eq_none_iff.mp hstray
    have hr : r.stray = none := run_stray hg (next a) { r₁ with stray := r.stray } b r₂ hnext hstray₂
    rw [hsame hstray₁ hr] at hnext
    rw [hsame hstray₂ hstray]
    exact ⟨a, r₁, hrule, hnext⟩
  · rintro ⟨a, r₁, hrule, hnext⟩
    have hstray₁ : r₁.stray = none := run_stray hg (next a) _ b r' hnext hstray
    have hr : r.stray = none := run_stray hg rule _ a r₁ hrule hstray₁
    refine ⟨a, r₁, r', hrule, (hsame hstray₁ hr).symm ▸ hnext, ?_⟩
    rw [hstray₁, Option.or_none]

/-- The end of such a text is one too. -/
theorem Balanced.of_suffix {s s' : List Lexeme} (h : Balanced s) (hs : s' <:+ s) : Balanced s' := by
  obtain ⟨front, rfl⟩ := hs
  induction front with
  | nil => exact h
  | cons l front ih =>
      refine ih ?_
      obtain ⟨stack, hstack⟩ := h
      cases l with
      | opening d => exact ⟨d :: stack, by cases stack <;> exact hstack⟩
      | closing d =>
          cases stack with
          | nil => simp [Lexeme.balanced] at hstack
          | cons e stack =>
              simp only [List.cons_append, Lexeme.balanced, Bool.and_eq_true] at hstack
              exact ⟨stack, hstack.2⟩
      | word | punct | literal => exact ⟨stack, by cases stack <;> exact hstack⟩

/-! ### The judgement -/

variable {g : PhraseReader} {m : Rendition} {s : List Lexeme} {α β γ δ σ : Type}

/-- Both texts of a rule that reads `s` can be read again by a second rule, which may depend on where
it starts and on the text that it reads. What is remembered is compared by `keep`, which leaves out
where things stand. -/
def RereadsBy (g : PhraseReader) (m : Rendition) (s : List Lexeme) (rule : Rule α)
    (again : Nat → List Lexeme → Rule α) (keep : α → β) (front : List Lexeme → Prop)
    (follow : α → List Lexeme → List Lexeme → Prop) : Prop :=
  Tidy g → ∀ r a r', r.rest = s → Balanced s → rule.run g r = .ok (a, r') → r'.stray = none →
    ∃ taken written, Closed taken ∧ r.stray = none ∧ s = taken ++ r'.rest ∧
      r' = r.after taken written r'.rest ∧
      ∀ q k, q.rest = m.text taken written ++ k → q.stray = none → follow a r'.rest k →
        front q.rest ∧
          ∃ a', keep a' = keep a ∧
            (again q.position q.rest).run g q = .ok (a', q.after (m.text taken written) written k)

/-- Both texts of a rule that reads `s` can be read again by a second rule. -/
@[reducible] def Rereads (g : PhraseReader) (m : Rendition) (s : List Lexeme) (rule rule' : Rule α)
    (keep : α → β) (front : List Lexeme → Prop) (follow : α → List Lexeme → List Lexeme → Prop) :
    Prop :=
  RereadsBy g m s rule (fun _ _ => rule') keep front follow

namespace RereadsBy

variable {rule : Rule α} {again again' : Nat → List Lexeme → Rule α} {keep : α → γ}
  {front front' : List Lexeme → Prop} {follow follow' : α → List Lexeme → List Lexeme → Prop}

/-- Reading again may be asked where less may stand ahead, and may promise less of what is left. -/
theorem mono (h : RereadsBy g m s rule again keep front follow) (hfront : ∀ p, front p → front' p)
    (hfollow : ∀ a s' k, follow' a s' k → follow a s' k) :
    RereadsBy g m s rule again keep front' follow' := by
  intro hg r a r' hs hb hrun hstray
  obtain ⟨taken, written, hclosed, hstray', hrest, hafter, hagain⟩ := h hg r a r' hs hb hrun hstray
  refine ⟨taken, written, hclosed, hstray', hrest, hafter, fun q k hq hq' hk => ?_⟩
  obtain ⟨hp, hread⟩ := hagain q k hq hq' (hfollow _ _ _ hk)
  exact ⟨hfront _ hp, hread⟩

theorem front_mono (h : RereadsBy g m s rule again keep front follow)
    (hfront : ∀ p, front p → front' p) : RereadsBy g m s rule again keep front' follow :=
  h.mono hfront fun _ _ _ => id

theorem follow_mono (h : RereadsBy g m s rule again keep front follow)
    (hfollow : ∀ a s' k, follow' a s' k → follow a s' k) :
    RereadsBy g m s rule again keep front follow' :=
  h.mono (fun _ => id) hfollow

/-- A coarser comparison of what is remembered. -/
theorem keep_mono {keep' : α → δ} (h : RereadsBy g m s rule again keep front follow)
    (hkeep : ∀ a a', keep a' = keep a → keep' a' = keep' a) :
    RereadsBy g m s rule again keep' front follow := by
  intro hg r a r' hs hb hrun hstray
  obtain ⟨taken, written, hclosed, hstray', hrest, hafter, hagain⟩ := h hg r a r' hs hb hrun hstray
  refine ⟨taken, written, hclosed, hstray', hrest, hafter, fun q k hq hq' hk => ?_⟩
  obtain ⟨hp, a', ha, hrun'⟩ := hagain q k hq hq' hk
  exact ⟨hp, a', hkeep _ _ ha, hrun'⟩

/-- Nothing is said of a text that is not read again. -/
theorem unread {m' : Rendition} (h : RereadsBy g m' s rule again' keep front' follow')
    (hfollow : ∀ a s' k, ¬ follow a s' k) : RereadsBy g m s rule again keep front follow := by
  intro hg r a r' hs hb hrun hstray
  obtain ⟨taken, written, hclosed, hstray', hrest, hafter, -⟩ := h hg r a r' hs hb hrun hstray
  exact ⟨taken, written, hclosed, hstray', hrest, hafter, fun _ _ _ _ hk => (hfollow _ _ _ hk).elim⟩

/-- What holds of every run that succeeds may be used. -/
theorem of_run
    (h : ∀ r a r', r.rest = s → Balanced s → rule.run g r = .ok (a, r') →
      RereadsBy g m s rule again keep front follow) :
    RereadsBy g m s rule again keep front follow :=
  fun hg r a r' hs hb hrun => h r a r' hs hb hrun hg r a r' hs hb hrun

/-- What is relied on may be shown for what a run remembers. -/
theorem follow_of_run (h : RereadsBy g m s rule again keep front follow)
    (hfollow : ∀ r a r' k, r.rest = s → rule.run g r = .ok (a, r') → follow' a r'.rest k →
      follow a r'.rest k) :
    RereadsBy g m s rule again keep front follow' := by
  intro hg r a r' hs hb hrun hstray
  obtain ⟨taken, written, hclosed, hstray', hrest, hafter, hagain⟩ := h hg r a r' hs hb hrun hstray
  exact ⟨taken, written, hclosed, hstray', hrest, hafter, fun q k hq hq' hk =>
    hagain q k hq hq' (hfollow r a r' k hs hrun hk)⟩

/-- A fact that what is relied on tells may be shown at the front. -/
theorem given {C : Prop} (h : RereadsBy g m s rule again keep front follow)
    (hC : ∀ r a r' k, r.rest = s → rule.run g r = .ok (a, r') → follow a r'.rest k → C) :
    RereadsBy g m s rule again keep (fun p => C ∧ front p) follow := by
  intro hg r a r' hs hb hrun hstray
  obtain ⟨taken, written, hclosed, hstray', hrest, hafter, hagain⟩ := h hg r a r' hs hb hrun hstray
  refine ⟨taken, written, hclosed, hstray', hrest, hafter, fun q k hq hq' hk => ?_⟩
  obtain ⟨hp, hread⟩ := hagain q k hq hq' hk
  exact ⟨⟨hC r a r' k hs hrun hk, hp⟩, hread⟩

/-- A rule that never succeeds has nothing to read again. -/
theorem of_error (h : ∀ r : Reader, r.rest = s → ∃ fault, rule.run g r = .error fault) :
    RereadsBy g m s rule again keep front follow := by
  intro _ r a r' hs _ hrun _
  obtain ⟨fault, hfault⟩ := h r hs
  rw [hfault] at hrun
  cases hrun

theorem fail (fault : Fault) : RereadsBy g m s (.fail fault) again keep front follow :=
  of_error fun _ _ => ⟨_, Rule.run_fail ..⟩

theorem complain (complaint : Complaint) :
    RereadsBy g m s (.complain complaint) again keep front follow :=
  of_error fun _ _ => ⟨_, Rule.run_complain ..⟩

/-- What fails need not be read again. -/
theorem expected (things : List Expectation) :
    RereadsBy g m s (.expected things) again keep front follow :=
  of_error fun _ _ => Rule.run_expected ..

/-- Neither need what comes behind a fault. -/
theorem fail_then (fault : Fault) (next : β → Rule α) :
    RereadsBy g m s (Rule.fail fault >>= next) again keep front follow :=
  of_error fun r _ => ⟨fault, by rw [Rule.run_bind, Rule.run_fail]⟩

theorem complain_then (complaint : Complaint) (next : β → Rule α) :
    RereadsBy g m s (Rule.complain complaint >>= next) again keep front follow :=
  of_error fun r _ => ⟨r.fault complaint, by rw [Rule.run_bind, Rule.run_complain]⟩

theorem expected_then (things : List Expectation) (next : β → Rule α) :
    RereadsBy g m s (Rule.expected things >>= next) again keep front follow := by
  refine of_error fun r _ => ?_
  obtain ⟨fault, h⟩ := Rule.run_expected (g := g) (α := β) things r
  exact ⟨fault, by rw [Rule.run_bind, h]⟩

/-- Two rules that run alike can stand for each other. -/
theorem congr {rule₂ : Rule α} (h : RereadsBy g m s rule again keep front follow)
    (hrule : ∀ r, r.rest = s → rule₂.run g r = rule.run g r)
    (hagain : ∀ q, front q.rest →
      (again' q.position q.rest).run g q = (again q.position q.rest).run g q) :
    RereadsBy g m s rule₂ again' keep front follow := by
  intro hg r a r' hs hb hrun hstray
  rw [hrule r hs] at hrun
  obtain ⟨taken, written, hclosed, hstray', hrest, hafter, hread⟩ := h hg r a r' hs hb hrun hstray
  refine ⟨taken, written, hclosed, hstray', hrest, hafter, fun q k hq hq' hk => ?_⟩
  obtain ⟨hp, a', ha', hrun'⟩ := hread q k hq hq' hk
  exact ⟨hp, a', ha', by rw [hagain q hp, hrun']⟩

/-- Rules that succeed alike can stand for each other. -/
theorem congr_ok {rule₂ : Rule α} (h : RereadsBy g m s rule again keep front follow)
    (hrule : ∀ r x, r.rest = s → rule₂.run g r = .ok x → rule.run g r = .ok x)
    (hagain : ∀ q x, front q.rest → (again q.position q.rest).run g q = .ok x →
      (again' q.position q.rest).run g q = .ok x) :
    RereadsBy g m s rule₂ again' keep front follow := by
  intro hg r a r' hs hb hrun hstray
  obtain ⟨taken, written, hclosed, hstray', hrest, hafter, hread⟩ :=
    h hg r a r' hs hb (hrule r _ hs hrun) hstray
  refine ⟨taken, written, hclosed, hstray', hrest, hafter, fun q k hq hq' hk => ?_⟩
  obtain ⟨hp, a', ha', hrun'⟩ := hread q k hq hq' hk
  exact ⟨hp, a', ha', hagain q _ hp hrun'⟩

/-- A second rule that depends on its place and text may do so if it always reads again. -/
theorem of_forall (h : ∀ n p, Rereads g m s rule (again n p) keep front follow) :
    RereadsBy g m s rule again keep front follow := by
  intro hg r a r' hs hb hrun hstray
  obtain ⟨taken, written, hclosed, hstray', hrest, hafter, -⟩ := h 0 [] hg r a r' hs hb hrun hstray
  refine ⟨taken, written, hclosed, hstray', hrest, hafter, fun q k hq hq' hk => ?_⟩
  obtain ⟨taken₂, written₂, -, -, hrest₂, hafter₂, hagain⟩ :=
    h q.position q.rest hg r a r' hs hb hrun hstray
  obtain ⟨rfl, rfl⟩ := Reader.after_inj (hrest.symm.trans hrest₂) (hafter.symm.trans hafter₂)
  exact hagain q k hq hq' hk

/-- A decision that is made alike. -/
theorem ite {c : Prop} {c' : Nat → List Lexeme → Prop} [Decidable c] [∀ n p, Decidable (c' n p)]
    {rule₁ rule₂ : Rule α} {again₁ again₂ : Nat → List Lexeme → Rule α}
    (hc : ∀ n p, front p → (c' n p ↔ c))
    (h₁ : c → RereadsBy g m s rule₁ again₁ keep front follow)
    (h₂ : ¬ c → RereadsBy g m s rule₂ again₂ keep front follow) :
    RereadsBy g m s (if c then rule₁ else rule₂)
      (fun n p => if c' n p then again₁ n p else again₂ n p) keep front follow := by
  by_cases h : c
  · refine (h₁ h).congr (fun r _ => by rw [if_pos h]) fun q hq => ?_
    rw [if_pos ((hc _ _ hq).mpr h)]
  · refine (h₂ h).congr (fun r _ => by rw [if_neg h]) fun q hq => ?_
    rw [if_neg fun hcq => h ((hc _ _ hq).mp hcq)]

/-- A decision by what is seen ahead. -/
theorem sight {b : Bool} {b' : Nat → List Lexeme → Bool} {rule₁ rule₂ : Rule α}
    {again₁ again₂ : Nat → List Lexeme → Rule α} (hb : ∀ n p, front p → b' n p = b)
    (h₁ : b = true → RereadsBy g m s rule₁ again₁ keep front follow)
    (h₂ : b = false → RereadsBy g m s rule₂ again₂ keep front follow) :
    RereadsBy g m s (if b = true then rule₁ else rule₂)
      (fun n p => if b' n p = true then again₁ n p else again₂ n p) keep front follow :=
  ite (fun n p hp => by rw [hb n p hp]) h₁ fun h => h₂ (Bool.eq_false_iff.mpr h)

/-- A decision by what is seen ahead, where more is known of the text if it is seen. -/
theorem sight_mono {b : Bool} {b' : Nat → List Lexeme → Bool} {rule₁ rule₂ : Rule α}
    {again₁ again₂ : Nat → List Lexeme → Rule α} (front₁ : List Lexeme → Prop)
    (hfront : ∀ p, front₁ p → front p) (hseen : b = true → ∀ n p, front₁ p → b' n p = true)
    (hunseen : b = false → ∀ n p, front p → b' n p = false)
    (h₁ : b = true → RereadsBy g m s rule₁ again₁ keep front₁ follow)
    (h₂ : b = false → RereadsBy g m s rule₂ again₂ keep front follow) :
    RereadsBy g m s (if b = true then rule₁ else rule₂)
      (fun n p => if b' n p = true then again₁ n p else again₂ n p) keep front follow := by
  cases h : b with
  | true =>
      refine ((h₁ h).congr (fun r _ => by rw [if_pos rfl]) fun q hq => ?_).front_mono hfront
      rw [hseen h _ _ hq, if_pos rfl]
  | false =>
      refine (h₂ h).congr (fun r _ => by rw [if_neg Bool.false_ne_true]) fun q hq => ?_
      rw [hunseen h _ _ hq, if_neg Bool.false_ne_true]

/-- A fault is not found again where it was not found before. -/
theorem fault {b : Bool} {b' : Nat → List Lexeme → Bool} {rule₁ rule₂ : Rule α}
    {again₁ again₂ : Nat → List Lexeme → Rule α}
    (hb : ∀ n p, front p → b = false → b' n p = false)
    (h₁ : ∀ r : Reader, r.rest = s → ∃ fault, rule₁.run g r = .error fault)
    (h₂ : b = false → RereadsBy g m s rule₂ again₂ keep front follow) :
    RereadsBy g m s (if b = true then rule₁ else rule₂)
      (fun n p => if b' n p = true then again₁ n p else again₂ n p) keep front follow :=
  sight_mono (fun _ => False) (fun _ h => h.elim) (fun _ _ _ => False.elim)
    (fun hs n p hp => hb n p hp hs) (fun _ => of_error h₁) h₂

/-- Nothing is taken, and what follows is what comes first. -/
theorem pure {a : α} {a' : Nat → List Lexeme → α} (hkeep : ∀ n p, keep (a' n p) = keep a)
    (hfront : ∀ k, follow a s k → front k) :
    RereadsBy g m s (Pure.pure a) (fun n p => Pure.pure (a' n p)) keep front follow := by
  intro _ r b r' hs _ hrun hstray
  rw [Rule.run_pure] at hrun
  cases hrun
  have hnil : ∀ q : Reader, q.stray = none → q = q.after [] [] q.rest :=
    fun q hq => (Reader.after_nil hq).symm
  refine ⟨[], [], .nil, hstray, hs.symm, hnil r hstray, fun q k hq hq' hk => ?_⟩
  have hk' : q.rest = k := by rw [hq, Rendition.text_self, List.nil_append]
  refine ⟨hk' ▸ hfront k (hs ▸ hk), _, hkeep q.position q.rest, ?_⟩
  rw [Rule.run_pure, Rendition.text_self, ← hk', ← hnil q hq']

/-- Taking certain lexemes and writing others. -/
theorem of_after (taken written : List Lexeme) {s' : List Lexeme} (hs : s = taken ++ s')
    (hclosed : Closed taken) (value value' : Nat → α)
    (hkeep : ∀ n n', keep (value' n') = keep (value n))
    (hrun : ∀ r, r.rest = s → r.stray = none →
      rule.run g r = .ok (value r.position, r.after taken written s'))
    (hagain : ∀ q k, q.rest = m.text taken written ++ k → q.stray = none →
      (again q.position q.rest).run g q =
        .ok (value' q.position, q.after (m.text taken written) written k))
    (hfront : ∀ n k, follow (value n) s' k → front (m.text taken written ++ k)) :
    RereadsBy g m s rule again keep front follow := by
  intro hg r a r' hr hb hok hstray
  have hstray' : r.stray = none := rule.run_stray hg r a r' hok hstray
  rw [hrun r hr hstray'] at hok
  cases hok
  refine ⟨taken, written, hclosed, hstray', hs, rfl, fun q k hq hq' hk => ?_⟩
  exact ⟨hq ▸ hfront _ k hk, _, hkeep _ _, hagain q k hq hq'⟩

end RereadsBy

namespace Rereads

variable {rule rule' : Rule α} {keep : α → γ} {front front' : List Lexeme → Prop}
  {follow follow' : α → List Lexeme → List Lexeme → Prop}

/-- Nothing is taken, and what follows is what comes first. -/
theorem pure (a a' : α) (hkeep : keep a' = keep a) (hfront : ∀ k, follow a s k → front k) :
    Rereads g m s (Pure.pure a) (Pure.pure a') keep front follow :=
  RereadsBy.pure (fun _ _ => hkeep) hfront

/-- One rule after another: what the second shows at its front is what the first relies on. -/
theorem bind {next next' : α → Rule β} {keep' : β → δ}
    {mid : α → List Lexeme → List Lexeme → Prop}
    {follow : β → List Lexeme → List Lexeme → Prop}
    (h : Rereads g m s rule rule' keep front mid)
    (hnext : ∀ a a' s', keep a' = keep a →
      Rereads g m s' (next a) (next' a') keep' (mid a s') follow) :
    Rereads g m s (rule >>= next) (rule' >>= next') keep' front follow := by
  intro hg r b r'' hs hb hrun hstray
  obtain ⟨a, r', hrule, hrun'⟩ := Rule.run_bind_eq_ok.mp hrun
  have hstray' : r'.stray = none := (next a).run_stray hg r' b r'' hrun' hstray
  obtain ⟨taken, written, hclosed, hstray₀, hrest, hafter, hagain⟩ := h hg r a r' hs hb hrule hstray'
  have hb' : Balanced r'.rest := hclosed.balanced (hrest ▸ hb)
  obtain ⟨taken', written', hclosed', -, hrest', hafter', hagain'⟩ :=
    hnext a a r'.rest rfl hg r' b r'' rfl hb' hrun' hstray
  refine ⟨taken ++ taken', written ++ written', hclosed.append hclosed', hstray₀,
    by rw [hrest, hrest', List.append_assoc], ?_, ?_⟩
  · exact hafter'.trans ((congrArg (·.after taken' written' r''.rest) hafter).trans
      (Reader.after_after ..))
  intro q k hq hq' hk
  rw [m.text_append, List.append_assoc] at hq
  -- What the second rule shows at its front, wherever its text stands.
  have hfront := (hagain' ⟨⟨0, m.text taken' written' ++ k⟩, [], none⟩ k rfl rfl hk).1
  obtain ⟨hp, a', ha', hrule'⟩ := hagain q _ hq hq' hfront
  obtain ⟨taken₂, written₂, -, -, hrest₂, hafter₂, hagain₂⟩ :=
    hnext a a' r'.rest ha' hg r' b r'' rfl hb' hrun' hstray
  obtain ⟨rfl, rfl⟩ := Reader.after_inj (hrest'.symm.trans hrest₂) (hafter'.symm.trans hafter₂)
  obtain ⟨-, b', hb', hrun₂⟩ :=
    hagain₂ (q.after (m.text taken written) written (m.text taken' written' ++ k)) k rfl rfl hk
  refine ⟨hp, b', hb', ?_⟩
  rw [Rule.run_bind_of_ok hrule', hrun₂, Reader.after_after, m.text_append]

/-- One rule after another, where something is known of all that the first one remembers. -/
theorem bind_of_run {next next' : α → Rule β} {keep' : β → δ}
    {mid : α → List Lexeme → List Lexeme → Prop} {follow : β → List Lexeme → List Lexeme → Prop}
    (P : α → Prop) (hP : ∀ r a r', r.rest = s → rule.run g r = .ok (a, r') → P a)
    (h : Rereads g m s rule rule' keep front mid)
    (hnext : ∀ a a' s', P a → keep a' = keep a →
      Rereads g m s' (next a) (next' a') keep' (mid a s') follow) :
    Rereads g m s (rule >>= next) (rule' >>= next') keep' front follow := by
  classical
  let guarded (a : α) : Rule β := if P a then next a else .fail ⟨⟨0, 0⟩, .tooDeep, false⟩
  have hguarded : Rereads g m s (rule >>= guarded) (rule' >>= next') keep' front follow := by
    refine h.bind fun a a' s' ha => ?_
    by_cases hp : P a
    · simp only [guarded, if_pos hp]
      exact hnext a a' s' hp ha
    · simp only [guarded, if_neg hp]
      exact .fail _
  refine hguarded.congr (fun r hr => ?_) fun _ _ => rfl
  rw [Rule.run_bind, Rule.run_bind]
  cases hrun : rule.run g r with
  | error fault => rfl
  | ok read => simp only [guarded, if_pos (hP r _ _ hr hrun)]

/-- Certain lexemes are taken and others written, and then something else is read. -/
theorem after_then {next next' : α → Rule β} {keep' : β → δ} {inner : List Lexeme → Prop}
    {follow : β → List Lexeme → List Lexeme → Prop} (taken written : List Lexeme) {s' : List Lexeme}
    (hs : s = taken ++ s') (hclosed : Closed taken) (a : α)
    (hrun : ∀ r, r.rest = s → r.stray = none → rule.run g r = .ok (a, r.after taken written s'))
    (hagain : ∀ q k, q.rest = m.text taken written ++ k → q.stray = none →
      rule'.run g q = .ok (a, q.after (m.text taken written) written k))
    (hnext : Rereads g m s' (next a) (next' a) keep' inner follow)
    (hfront : ∀ k, inner k → front (m.text taken written ++ k)) :
    Rereads g m s (rule >>= next) (rule' >>= next') keep' front follow := by
  intro hg r b r'' hr hb hok hstray
  have hstray₀ : r.stray = none := (rule >>= next).run_stray hg r b r'' hok hstray
  rw [Rule.run_bind_of_ok (hrun r hr hstray₀)] at hok
  obtain ⟨taken', written', hclosed', -, hrest', hafter', hagain'⟩ :=
    hnext hg _ b r'' rfl (hclosed.balanced (hs ▸ hb)) hok hstray
  refine ⟨taken ++ taken', written ++ written', hclosed.append hclosed', hstray₀, ?_, ?_,
    fun q k hq hq' hk => ?_⟩
  · rw [hs, hrest', List.append_assoc]
  · exact hafter'.trans (Reader.after_after ..)
  · rw [m.text_append, List.append_assoc] at hq
    obtain ⟨hp, b', hb', hrun'⟩ := hagain' (q.after (m.text taken written) written
      (m.text taken' written' ++ k)) k rfl rfl hk
    refine ⟨hq ▸ hfront _ hp, b', hb', ?_⟩
    rw [Rule.run_bind_of_ok (hagain q _ hq hq'), hrun', Reader.after_after, m.text_append]

/-- One rule after another, where all that is remembered is the same. -/
theorem bind_id {next next' : α → Rule β} {keep' : β → δ}
    {mid : α → List Lexeme → List Lexeme → Prop} {follow : β → List Lexeme → List Lexeme → Prop}
    (h : Rereads g m s rule rule' id front mid)
    (hnext : ∀ a s', Rereads g m s' (next a) (next' a) keep' (mid a s') follow)
    (hfront : ∀ p, front p → front' p) :
    Rereads g m s (rule >>= next) (rule' >>= next') keep' front' follow := by
  refine (h.bind fun a a' s' ha => ?_).front_mono hfront
  obtain rfl : a' = a := ha
  exact hnext a' s'

/-- A group that would be noted late is none of which something goes on. -/
theorem defer {first : Rule α} {first' : Rule γ} {next : α → Rule β} {next' : γ → Rule β} {keep' : β → δ}
    {follow : β → List Lexeme → List Lexeme → Prop}
    (h : Rereads g m s (first >>= next) (first' >>= next') keep' front follow) :
    Rereads g m s (.defer first next) (.defer first' next') keep' front follow := by
  intro hg r b r' hs hb hrun hstray
  obtain ⟨taken, written, hclosed, hstray', hrest, hafter, hagain⟩ :=
    h hg r b r' hs hb ((Rule.run_defer_iff hg hstray).mp hrun) hstray
  refine ⟨taken, written, hclosed, hstray', hrest, hafter, fun q k hq hq' hk => ?_⟩
  obtain ⟨hp, b', hb', hread⟩ := hagain q k hq hq' hk
  exact ⟨hp, b', hb', (Rule.run_defer_iff hg rfl).mpr hread⟩

/-- Nothing of what was read is remembered. -/
theorem then_pure {b : β} {keep' : β → δ} {follow : β → List Lexeme → List Lexeme → Prop}
    (h : Rereads g m s rule rule' keep front fun _ => follow b) :
    Rereads g m s (rule >>= fun _ => Pure.pure b) (rule' >>= fun _ => Pure.pure b) keep' front follow :=
  h.bind fun _ _ _ _ => pure b b rfl fun _ hk => hk

/-! ### Looking ahead -/

/-- A text that is looked at is read again as another text that agrees with it where this matters. -/
theorem look {next next' : View → Rule α}
    (h : ∀ n, RereadsBy g m s (next ⟨n, s⟩) (fun n p => next' ⟨n, p⟩) keep front follow) :
    Rereads g m s (Rule.look >>= next) (Rule.look >>= next') keep front follow := by
  intro hg r a r' hs hb hrun hstray
  rw [Rule.run_bind_of_ok (Rule.run_look r), show r.toView = ⟨r.position, s⟩ by rw [← hs]] at hrun
  obtain ⟨taken, written, hclosed, hstray', hrest, hafter, hagain⟩ :=
    h r.position hg r a r' hs hb hrun hstray
  refine ⟨taken, written, hclosed, hstray', hrest, hafter, fun q k hq hq' hk => ?_⟩
  obtain ⟨hp, a', ha', hrun'⟩ := hagain q k hq hq' hk
  exact ⟨hp, a', ha', (Rule.run_bind_of_ok (Rule.run_look q) _).trans hrun'⟩

/-- The same where only the lexemes ahead are looked at. -/
theorem ahead {next next' : List Lexeme → Rule α}
    (h : RereadsBy g m s (next s) (fun _ p => next' p) keep front follow) :
    Rereads g m s (Rule.ahead >>= next) (Rule.ahead >>= next') keep front follow := by
  have hlook : Rereads g m s (Rule.look >>= fun v => next v.rest)
      (Rule.look >>= fun v => next' v.rest) keep front follow := look fun _ => h
  refine hlook.congr (fun r _ => ?_) fun q _ => ?_ <;>
    rw [Rule.run_bind_of_ok (Rule.run_ahead _), Rule.run_bind_of_ok (Rule.run_look _)]

/-- Positions do not matter: the rule that reads again may stand anywhere. -/
theorem here {next next' : Nat → Rule α}
    (h : ∀ n, RereadsBy g m s (next n) (fun n _ => next' n) keep front follow) :
    Rereads g m s (Rule.here >>= next) (Rule.here >>= next') keep front follow := by
  have hlook : Rereads g m s (Rule.look >>= fun v => next v.position)
      (Rule.look >>= fun v => next' v.position) keep front follow := look h
  refine hlook.congr (fun r _ => ?_) fun q _ => ?_ <;>
    rw [Rule.run_bind_of_ok (Rule.run_here _), Rule.run_bind_of_ok (Rule.run_look _)]

end Rereads

end TypedId.Grammar
