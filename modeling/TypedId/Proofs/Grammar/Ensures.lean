import TypedId.Proofs.Grammar.Run

/-!
What a rule makes sure of.

`Ensures` is a triple for rules that read a given text: where a reader stands that satisfies the
first condition, what the rule remembers and where it leaves the reader satisfy the second. A
reader that stands in a text, with what lies ahead of it being the rest from its position on, never
leaves it (`run_within`), so a rule of which nothing needs to be known can be passed over
(`Ensures.any`).
-/

namespace TypedId.Grammar

open Lexeme

/-- Whether a rule stands within a text: what is ahead is the text from its position on. -/
def View.Within (v : View) (ls : List Lexeme) : Prop := v.rest = ls.drop v.position

/-- The lexeme ahead is the one at the position. -/
theorem View.Within.getElem? {v : View} {ls : List Lexeme} (h : v.Within ls) {l : Lexeme}
    {rest : List Lexeme} (hrest : v.rest = l :: rest) : ls[v.position]? = some l := by
  rw [← List.head?_drop, ← h, hrest]
  rfl

/-- Whether a name is the word of a text at its position. -/
def Name.StandsIn (n : Name) (ls : List Lexeme) : Prop := ls[n.position]? = some (word n.text)

/-- A way to read phrases that stays within a text. -/
def Stays (g : PhraseReader) (ls : List Lexeme) : Prop :=
  ∀ phrase r a r', r.toView.Within ls → g phrase r = .ok (a, r') → r'.toView.Within ls

variable {g : PhraseReader} {ls : List Lexeme} {α β σ : Type}

/-- A group ends with a closing delimiter, unless the text ends before. -/
theorem drop_groupLength (depth : Nat) (ls : List Lexeme) :
    ls.drop (groupLength depth ls) = [] ∨
      ∃ n d, groupLength depth ls = n + 1 ∧ ls[n]? = some (closing d) := by
  have hcons : ∀ {depth : Nat} {l : Lexeme} {ls : List Lexeme},
      (ls.drop (groupLength depth ls) = [] ∨
        ∃ n d, groupLength depth ls = n + 1 ∧ ls[n]? = some (closing d)) →
      (l :: ls).drop (groupLength depth ls + 1) = [] ∨
        ∃ n d, groupLength depth ls + 1 = n + 1 ∧ (l :: ls)[n]? = some (closing d) := by
    rintro depth l ls (h | ⟨n, d, hn, hd⟩)
    · exact .inl h
    · exact .inr ⟨n + 1, d, congrArg (· + 1) hn, hd⟩
  fun_induction groupLength depth ls with
  | case1 => exact .inl rfl
  | case2 _ _ _ ih => exact hcons ih
  | case3 d rest => exact .inr ⟨0, d, rfl, rfl⟩
  | case4 _ _ _ _ ih => exact hcons ih
  | case5 _ _ _ _ _ ih => exact hcons ih

theorem Reader.within_ofLexemes (ls : List Lexeme) : (Reader.ofLexemes ls).toView.Within ls := rfl

/-- Taking lexemes leads to a later place of the same text, or to its end. -/
theorem Reader.within_take {r : Reader} (h : r.toView.Within ls) (count : Nat)
    (written : List Lexeme) : (r.take count written).toView.Within ls := by
  show r.rest.drop count = ls.drop (r.position + count)
  rw [h, List.drop_drop]

/-- Leaving a group leads behind its closing delimiter. -/
theorem Reader.within_leave {r : Reader} (h : r.toView.Within ls) (d : Delimiter) :
    (r.leave d).toView.Within ls :=
  within_take h _ [closing d]

/-- A repetition stays in the text if its steps do. By induction on the bound. -/
theorem iterate_within {step : σ → Reader → Outcome (σ ⊕ α)}
    (hstep : ∀ x r y r', r.toView.Within ls → step x r = .ok (y, r') → r'.toView.Within ls) :
    ∀ (bound : Nat) (x : σ) (r : Reader) (a : α) (r' : Reader), r.toView.Within ls →
      iterate step bound x r = .ok (a, r') → r'.toView.Within ls := by
  intro bound
  induction bound with
  | zero =>
      intro x r a r' _ h
      cases h
  | succ bound ih =>
      intro x r a r' hr h
      rw [iterate] at h
      split at h
      · next y r₁ hrun => exact ih y r₁ a r' (hstep x r _ r₁ hr hrun) h
      · next b r₁ hrun =>
        cases h
        exact hstep x r _ r' hr hrun
      · cases h

/-- A reader within a text stays there by every rule. -/
theorem Rule.run_within (hg : Stays g ls) (rule : Rule α) :
    ∀ (r : Reader) (a : α) (r' : Reader), r.toView.Within ls → rule.run g r = .ok (a, r') →
      r'.toView.Within ls := by
  induction rule with
  | done b =>
      intro r a r' hr h
      cases h
      exact hr
  | andThen rule next ih ihnext =>
      intro r a r' hr h
      obtain ⟨b, r₁, hrule, hnext⟩ := run_bind_eq_ok.mp h
      exact ihnext b r₁ a r' (ih r b r₁ hr hrule) hnext
  | defer rule next ih ihnext =>
      intro r a r' hr h
      obtain ⟨b, r₁, r₂, hrule, hnext, rfl⟩ := run_defer_eq_ok.mp h
      exact ihnext b { r₁ with stray := r.stray } a r₂ (ih r b r₁ hr hrule) hnext
  | fail fault =>
      intro r a r' _ h
      rw [run_fail] at h
      cases h
  | look =>
      intro r a r' hr h
      rw [run_look] at h
      cases h
      exact hr
  | take count written =>
      intro r a r' hr h
      rw [run_take] at h
      cases h
      exact Reader.within_take hr count written
  | call phrase =>
      intro r a r' hr h
      rw [run_call] at h
      exact hg phrase r a r' hr h
  | within d rule ih =>
      intro r a r' hr h
      obtain ⟨-, r₁, hrule, rfl⟩ := run_within_eq_ok.mp h
      exact Reader.within_leave (ih _ a r₁ (Reader.within_take hr 1 [opening d]) hrule) d
  | attempt rule ih =>
      intro r a r' hr h
      rw [run_attempt_eq] at h
      split at h
      · next b r₁ hrule =>
        cases h
        exact ih r b r' hr hrule
      · split at h <;> cases h
        exact hr
  | hold rule ih =>
      intro r a r' hr h
      obtain ⟨b, r₁, hrule, -, rfl⟩ := run_hold_eq_ok.mp h
      exact ih { r with written := [] } b r₁ hr hrule
  | repeating step start ih =>
      intro r a r' hr h
      rw [run_repeating] at h
      exact iterate_within ih _ start r a r' hr h

/-- From a reader that satisfies a condition, a rule remembers something and leaves the reader
somewhere such that both satisfy another condition. -/
def Ensures (g : PhraseReader) (ls : List Lexeme) (pre : View → Prop) (rule : Rule α)
    (Q : α → View → Prop) : Prop :=
  ∀ r a r', r.toView.Within ls → pre r.toView → rule.run g r = .ok (a, r') →
    r'.toView.Within ls ∧ Q a r'.toView

namespace Ensures

variable {pre : View → Prop} {rule : Rule α} {M Q : α → View → Prop} {next : α → Rule β}
  {Q' : β → View → Prop}

/-- Less may be ensured. -/
theorem weaken (h : Ensures g ls pre rule M) (hpost : ∀ a v, M a v → Q a v) :
    Ensures g ls pre rule Q :=
  fun r a r' hr hpre hrun => (h r a r' hr hpre hrun).imp_right (hpost a r'.toView)

/-- More may be required. -/
theorem strengthen {pre' : View → Prop} (h : Ensures g ls pre' rule Q)
    (hpre : ∀ v, pre v → pre' v) : Ensures g ls pre rule Q :=
  fun r a r' hr h' => h r a r' hr (hpre _ h')

theorem pure {a : α} (h : ∀ v, pre v → Q a v) : Ensures g ls pre (pure a) Q := by
  rintro r _ _ hr hpre ⟨⟩
  exact ⟨hr, h _ hpre⟩

/-- What the first rule ensures is what the second may require. -/
theorem bind (h : Ensures g ls pre rule M) (hnext : ∀ a, Ensures g ls (M a) (next a) Q') :
    Ensures g ls pre (rule >>= next) Q' := by
  intro r b r' hr hpre hrun
  obtain ⟨a, r₁, hrule, hnext'⟩ := Rule.run_bind_eq_ok.mp hrun
  obtain ⟨hr₁, hmid⟩ := h r a r₁ hr hpre hrule
  exact hnext a r₁ b r' hr₁ hmid hnext'

/-- When a group is noted has no bearing on where a rule stands. -/
theorem defer (h : Ensures g ls pre rule M) (hnext : ∀ a, Ensures g ls (M a) (next a) Q') :
    Ensures g ls pre (.defer rule next) Q' := by
  intro r b r' hr hpre hrun
  obtain ⟨a, r₁, r₂, hrule, hrest, rfl⟩ := Rule.run_defer_eq_ok.mp hrun
  obtain ⟨hr₁, hmid⟩ := h r a r₁ hr hpre hrule
  exact hnext a { r₁ with stray := r.stray } b r₂ hr₁ hmid hrest

/-- Every rule ensures that it stays in the text, which is no condition here. -/
theorem any (hg : Stays g ls) : Ensures g ls pre rule fun _ _ => True :=
  fun r a r' hr _ hrun => ⟨rule.run_within hg r a r' hr hrun, trivial⟩

/-- A rule of which nothing needs to be known is passed over. -/
theorem skip (hg : Stays g ls) (hnext : ∀ a, Ensures g ls (fun _ => True) (next a) Q') :
    Ensures g ls pre (rule >>= next) Q' :=
  (any hg).bind hnext

/-- A fact that a rule makes sure of, wherever it leaves the reader, is known from then on. -/
theorem learn {P : α → Prop} (h : Ensures g ls pre rule fun a _ => P a)
    (hnext : ∀ a, P a → Ensures g ls (fun _ => True) (next a) Q') :
    Ensures g ls pre (rule >>= next) Q' :=
  h.bind fun a r b r' hr ha => hnext a ha r b r' hr trivial

/-- Each branch may use what decides for it. -/
theorem ite {c : Prop} [Decidable c] {rule' : Rule α} (h : c → Ensures g ls pre rule Q)
    (h' : ¬ c → Ensures g ls pre rule' Q) : Ensures g ls pre (if c then rule else rule') Q := by
  split
  · next hc => exact h hc
  · next hc => exact h' hc

theorem map {f : α → β} (h : Ensures g ls pre rule fun a => Q' (f a)) :
    Ensures g ls pre (f <$> rule) Q' :=
  (bind h fun _ => pure fun _ => id : Ensures g ls pre (rule >>= fun a => Pure.pure (f a)) Q')

theorem fail {fault : Fault} : Ensures g ls pre (.fail fault) Q := by
  intro r a r' _ _ hrun
  rw [Rule.run_fail] at hrun
  cases hrun

theorem complain {complaint : Complaint} : Ensures g ls pre (.complain complaint) Q := by
  intro r a r' _ _ hrun
  rw [Rule.run_complain] at hrun
  cases hrun

/-- What fails ensures anything. -/
theorem expected {things : List Expectation} : Ensures g ls pre (.expected things) Q := by
  intro r a r' _ _ hrun
  obtain ⟨fault, hfault⟩ := Rule.run_expected (g := g) (α := α) things r
  rw [hfault] at hrun
  cases hrun

theorem fail_then {fault : Fault} : Ensures g ls pre (Rule.fail fault >>= next) Q' :=
  bind (M := fun _ _ => False) fail fun _ _ _ _ _ h => h.elim

theorem expected_then {things : List Expectation} :
    Ensures g ls pre (Rule.expected things >>= next) Q' :=
  bind (M := fun _ _ => False) expected fun _ _ _ _ _ h => h.elim

/-! ### Looking ahead -/

/-- Behind a look, the place is known. -/
theorem look {next : View → Rule α}
    (h : ∀ v, v.Within ls → pre v → Ensures g ls (· = v) (next v) Q) :
    Ensures g ls pre (Rule.look >>= next) Q := by
  intro r a r' hr hpre hrun
  rw [Rule.run_bind_of_ok (Rule.run_look r)] at hrun
  exact h r.toView hr hpre r a r' hr rfl hrun

theorem ahead {next : List Lexeme → Rule α}
    (h : ∀ v, v.Within ls → pre v → Ensures g ls (· = v) (next v.rest) Q) :
    Ensures g ls pre (Rule.ahead >>= next) Q := by
  intro r a r' hr hpre hrun
  rw [Rule.run_bind_of_ok (Rule.run_ahead r)] at hrun
  exact h r.toView hr hpre r a r' hr rfl hrun

theorem here {next : Nat → Rule α}
    (h : ∀ v, v.Within ls → pre v → Ensures g ls (· = v) (next v.position) Q) :
    Ensures g ls pre (Rule.here >>= next) Q := by
  intro r a r' hr hpre hrun
  rw [Rule.run_bind_of_ok (Rule.run_here r)] at hrun
  exact h r.toView hr hpre r a r' hr rfl hrun

/-! ### Ways to build a rule -/

/-- Writing leads nowhere, so what was required still holds. -/
theorem write {written : List Lexeme} : Ensures g ls pre (.write written) fun _ v => pre v := by
  intro r a r' hr hpre hrun
  rw [Rule.run_write] at hrun
  cases hrun
  exact ⟨hr, hpre⟩

/-- A phrase ensures what is known of the reader of phrases. -/
theorem call {phrase : Phrase} {Q : phrase.Result → View → Prop}
    (h : ∀ r a r', r.toView.Within ls → pre r.toView → g phrase r = .ok (a, r') →
      r'.toView.Within ls ∧ Q a r'.toView) :
    Ensures g ls pre (.call phrase) Q := by
  intro r a r' hr hpre hrun
  rw [Rule.run_call] at hrun
  exact h r a r' hr hpre hrun

/-- Holding back what is written makes no difference to places. -/
theorem hold (h : Ensures g ls pre rule Q) :
    Ensures g ls pre (.hold rule) fun x v => Q x.1 v := by
  intro r x r' hr hpre hrun
  obtain ⟨a, r₁, hrule, rfl, rfl⟩ := Rule.run_hold_eq_ok.mp hrun
  exact h { r with written := [] } a r₁ hr hpre hrule

/-- Behind the content of a group, what was ensured within it is known of some earlier view. -/
theorem within {d : Delimiter} (h : Ensures g ls (fun _ => True) rule Q) :
    Ensures g ls pre (.within d rule) fun a _ => ∃ v, Q a v := by
  intro r a r' hr _ hrun
  obtain ⟨-, r₁, hrule, rfl⟩ := Rule.run_within_eq_ok.mp hrun
  obtain ⟨hr₁, hpost⟩ := h _ a r₁ (Reader.within_take hr 1 [opening d]) trivial hrule
  exact ⟨Reader.within_leave hr₁ d, r₁.toView, hpost⟩

/-- A group is left behind its closing delimiter, unless the text ends before. -/
theorem within_closes (hg : Stays g ls) {d : Delimiter} : Ensures g ls pre (.within d rule) fun _ v =>
    v.rest = [] ∨ ∃ p e, v.position = p + 1 ∧ ls[p]? = some (closing e) := by
  intro r a r' hr _ hrun
  obtain ⟨-, r₁, hrule, rfl⟩ := Rule.run_within_eq_ok.mp hrun
  have hr₁ := rule.run_within hg _ a r₁ (Reader.within_take hr 1 [opening d]) hrule
  refine ⟨Reader.within_leave hr₁ d, ?_⟩
  obtain hnil | ⟨n, e, hn, hclosing⟩ := drop_groupLength 0 r₁.rest
  · exact .inl hnil
  · refine .inr ⟨r₁.position + n, e, congrArg (r₁.position + ·) hn, ?_⟩
    rw [hr₁, List.getElem?_drop] at hclosing
    exact hclosing

/-- What every step keeps up to the last one, which gives the result, is ensured by all of them. -/
theorem repeating {step : σ → Rule (σ ⊕ α)} {start : σ} {I : σ → View → Prop}
    (hstart : ∀ v, pre v → I start v)
    (hstep : ∀ x, Ensures g ls (I x) (step x) fun y v =>
      match y with
      | .inl x' => I x' v
      | .inr a => Q a v) :
    Ensures g ls pre (.repeating step start) Q := by
  have hiterate : ∀ (bound : Nat) (x : σ) (r : Reader) (a : α) (r' : Reader),
      r.toView.Within ls → I x r.toView →
      iterate (fun x => (step x).run g) bound x r = .ok (a, r') →
      r'.toView.Within ls ∧ Q a r'.toView := by
    intro bound
    induction bound with
    | zero =>
        intro x r a r' _ _ h
        cases h
    | succ bound ih =>
        intro x r a r' hr hx h
        rw [iterate] at h
        split at h
        · next y r₁ hrun =>
          obtain ⟨hr₁, hy⟩ := hstep x r _ r₁ hr hx hrun
          exact ih y r₁ a r' hr₁ hy h
        · next b r₁ hrun =>
          cases h
          exact hstep x r _ r' hr hx hrun
        · cases h
  intro r a r' hr hpre hrun
  rw [Rule.run_repeating] at hrun
  exact hiterate _ start r a r' hr (hstart _ hpre) hrun

/-- What is ensured of each thing is ensured of all that are read while they are wanted. -/
theorem while_ {wanted : List Lexeme → Bool} {good : α → Prop}
    (h : Ensures g ls (fun _ => True) rule fun a _ => good a) :
    Ensures g ls pre (.while_ wanted rule) fun as _ => ∀ a ∈ as, good a := by
  refine repeating (I := fun soFar _ => ∀ a ∈ soFar, good a) (by simp) fun soFar => ?_
  refine ahead fun v _ hsoFar => ite (fun _ => ?_) fun _ => ?_
  · refine bind (h.strengthen fun _ _ => trivial) fun a => pure fun _ ha => ?_
    exact List.forall_mem_cons.mpr ⟨ha, hsoFar⟩
  · exact pure fun _ _ => by simpa using hsoFar

/-! ### Taking lexemes -/

/-- A word that is seen ahead stands in the text at this position. -/
theorem word_of_seesWord {v : View} (hv : v.Within ls) {w : String} (h : seesWord w v.rest = true) :
    ls[v.position]? = some (word w) := by
  cases hrest : v.rest with
  | nil => rw [hrest] at h; cases h
  | cons l rest =>
      cases l <;> rw [hrest] at h <;> simp only [seesWord, Bool.false_eq_true] at h
      rw [hv.getElem? hrest, eq_of_beq h]

/-- A keyword is right behind the reader that has taken it. -/
theorem keyword {w : String} : Ensures g ls pre (.keyword w) fun _ v =>
    ∃ p, v.position = p + 1 ∧ ls[p]? = some (word w) := by
  intro r u r' hr _ hrun
  obtain ⟨hsees, rfl⟩ := Rule.run_keyword_eq_ok.mp hrun
  exact ⟨Reader.within_take hr .., r.position, rfl, word_of_seesWord hr hsees⟩

/-- A keyword that was taken stands where the reader stood. -/
theorem keyword? {w : String} : Ensures g ls pre (.keyword? w) fun taken _ =>
    taken = true → ∃ v, pre v ∧ ls[v.position]? = some (word w) := by
  refine ahead fun v hv hpre => ite (fun hsees => ?_) fun _ => pure fun _ _ => nofun
  refine learn (P := fun _ => True) (keyword.weaken fun _ _ _ => trivial) fun _ _ => ?_
  exact pure fun _ _ _ => ⟨v, hpre, word_of_seesWord hv hsees⟩

/-- Where a word is taken, it stands at the position that is remembered of it. -/
theorem anyWord : Ensures g ls pre .anyWord fun n v =>
    n.StandsIn ls ∧ v.position = n.position + 1 ∧ ∃ v', pre v' ∧ n.position = v'.position := by
  refine look fun v hv hpre => ?_
  split
  · next w rest hrest =>
    refine bind (M := fun _ v' => v'.position = v.position + 1) ?_ fun _ => pure ?_
    · intro r u r' hr hpre hrun
      rw [Rule.run_copy] at hrun
      cases hrun
      exact ⟨Reader.within_take hr .., congrArg (View.position · + 1) hpre⟩
    · exact fun v' hv' => ⟨hv.getElem? hrest, hv', v, hpre, rfl⟩
  · exact complain

/-- What holds of any word that is taken holds of an identifier that is. -/
theorem identifierOr {keywords : List String} {Q : Name → View → Prop}
    (h : Ensures g ls pre .anyWord Q) : Ensures g ls pre (.identifierOr keywords) Q := by
  intro r n r' hr hpre hrun
  obtain ⟨w, rest, hrest, hw⟩ := Rule.word_of_run_identifierOr hrun
  rw [Rule.run_identifierOr_of_word hrest hw] at hrun
  exact h r n r' hr hpre ((Rule.run_anyWord_of_word hrest).trans hrun)

/-- A name is a word that is no keyword. -/
theorem identifier {Q : Name → View → Prop} (h : Ensures g ls pre .anyWord Q) :
    Ensures g ls pre .identifier Q := by
  intro r n r' hr hpre hrun
  rw [Rule.run_identifier_eq] at hrun
  exact identifierOr h r n r' hr hpre hrun

/-- What is ensured within any text is known of every run: a reader always stands within some text. -/
theorem of_run {Q : View → α → View → Prop} (h : ∀ ls v, Ensures g ls (· = v) rule (Q v))
    {r r' : Reader} {a : α} (hrun : rule.run g r = .ok (a, r')) : Q r.toView a r'.toView := by
  have hr : r.toView.Within (List.replicate r.position (word "") ++ r.rest) :=
    (List.drop_left' (List.length_replicate ..)).symm
  exact (h _ r.toView r a r' hr rfl hrun).2

end Ensures

end TypedId.Grammar
