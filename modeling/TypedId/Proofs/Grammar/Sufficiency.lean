import Mathlib.Data.List.Nodup
import TypedId.Proofs.Grammar.Depth

/-!
The depth of a reading is sufficient.

A reading that is not cut off for its depth comes out the same however much deeper it may go
(`run_of_extends`). Whatever depth it needs, `sufficientDepth` gives it (`read_of_run`): each phrase
that needs a certain depth at a place, and more than all phrases behind that place, refers to another
phrase at the same place that needs one less (`Needs.exists_needs`); there are few phrases that may
begin at one place, as what follows an operand begins with an operator.
-/

namespace TypedId.Grammar

open Lexeme Rule Outcome

variable {g g' : PhraseReader} {P : View → Prop} {α β σ : Type}

/-- Whether a reading was not cut off for its depth. -/
def Outcome.settled : Outcome α → Bool
  | .ok _ => true
  | .error fault => fault.complaint != .tooDeep

/-- What fails as something does that is not cut off is not cut off either. -/
theorem Outcome.settled_of_error {x : Outcome α} {y : Outcome β} (h : y.settled = true)
    (herror : ∀ fault, x = .error fault → y = .error fault) : x.settled = true := by
  cases x with
  | ok read => rfl
  | error fault =>
      rw [herror fault rfl] at h
      exact h

/-! ### Readings that agree -/

/-- A condition on places that holds behind every place where it holds. -/
def Lasting (P : View → Prop) : Prop :=
  ∀ (r : Reader) (count : Nat) (written : List Lexeme), P r.toView → P (r.take count written).toView

/-- A way to read phrases under which a condition on places lasts. -/
def Keeps (g : PhraseReader) (P : View → Prop) : Prop :=
  ∀ phrase r a r', P r.toView → g phrase r = .ok (a, r') → P r'.toView

/-- Two ways to read phrases: what is not cut off by the one comes out the same by the other, from
every place that satisfies a condition. -/
def Settles (g g' : PhraseReader) (P : View → Prop) : Prop :=
  ∀ phrase r, P r.toView → (g phrase r).settled = true → g' phrase r = g phrase r

/-- What comes of a reading by both ways, and where it leaves the reader. -/
def SettlesRun (g g' : PhraseReader) (P : View → Prop) (rule : Rule α) : Prop :=
  ∀ r, P r.toView → (rule.run g r).settled = true →
    rule.run g' r = rule.run g r ∧ ∀ a r', rule.run g r = .ok (a, r') → P r'.toView

/-- A repetition that settles does so in the same way with any steps that agree with its own where
these settle. -/
theorem iterate_settles {step step' : σ → Reader → Outcome (σ ⊕ α)}
    (hstep : ∀ x r, P r.toView → (step x r).settled = true →
      step' x r = step x r ∧ ∀ y r', step x r = .ok (y, r') → P r'.toView) :
    ∀ (bound : Nat) (x : σ) (r : Reader), P r.toView → (iterate step bound x r).settled = true →
      iterate step' bound x r = iterate step bound x r ∧
        ∀ a r', iterate step bound x r = .ok (a, r') → P r'.toView := by
  intro bound
  induction bound with
  | zero => exact fun x r _ h => absurd h (by simp [iterate, Outcome.settled, View.fault])
  | succ bound ih =>
      intro x r hr h
      rw [iterate] at h
      have hone : (step x r).settled = true := settled_of_error h fun fault hrun => by rw [hrun]
      obtain ⟨heq, hnext⟩ := hstep x r hr hone
      rw [iterate, iterate, heq]
      cases hrun : step x r with
      | error fault => exact ⟨rfl, fun _ _ h => by cases h⟩
      | ok read =>
          obtain ⟨y, r₁⟩ := read
          rw [hrun] at h
          cases y with
          | inl y => exact ih y r₁ (hnext _ _ hrun) h
          | inr a =>
              refine ⟨rfl, fun b r' hb => ?_⟩
              cases hb
              exact hnext _ _ hrun

namespace SettlesRun

/-- What settles in both of its parts settles as a sequence. -/
theorem andThen {rule : Rule α} {next : α → Rule β} (hrule : SettlesRun g g' P rule)
    (hnext : ∀ a, SettlesRun g g' P (next a)) : SettlesRun g g' P (rule >>= next) := by
  intro r hr hs
  rw [run_bind] at hs
  obtain ⟨heq, hlast⟩ := hrule r hr (settled_of_error hs fun fault hrun => by rw [hrun])
  rw [run_bind, run_bind, heq]
  cases hrun : rule.run g r with
  | error fault => exact ⟨rfl, fun _ _ h => by cases h⟩
  | ok read =>
      rw [hrun] at hs
      exact hnext read.1 read.2 (hlast _ _ hrun) hs

/-- The same where leftovers are noted late, as what is noted is no part of a place. -/
theorem defer {rule : Rule α} {next : α → Rule β} (hrule : SettlesRun g g' P rule)
    (hnext : ∀ a, SettlesRun g g' P (next a)) : SettlesRun g g' P (.defer rule next) := by
  intro r hr hs
  obtain ⟨heq, hlast⟩ := hrule r hr (settled_of_error hs fun fault hrun => run_defer_of_error hrun next)
  cases hrun : rule.run g r with
  | error fault =>
      rw [run_defer_of_error hrun, run_defer_of_error (heq.trans hrun)]
      exact ⟨rfl, fun _ _ h => by cases h⟩
  | ok read =>
      rw [run_defer_of_ok hrun] at hs ⊢
      rw [run_defer_of_ok (heq.trans hrun)]
      obtain ⟨heq', hlast'⟩ := hnext read.1 { read.2 with stray := r.stray } (hlast read.1 read.2 hrun)
        (settled_of_error hs fun fault hrun => by rw [hrun]; rfl)
      rw [heq']
      cases hrun' : (next read.1).run g { read.2 with stray := r.stray } with
      | error fault => exact ⟨rfl, fun _ _ h => by cases h⟩
      | ok read' =>
          refine ⟨rfl, fun b r' hb => ?_⟩
          cases hb
          exact hlast' read'.1 read'.2 hrun'

/-- What settles behind an opening delimiter settles as the content of a group. -/
theorem within (hP : Lasting P) (d : Delimiter) {rule : Rule α} (hrule : SettlesRun g g' P rule) :
    SettlesRun g g' P (.within d rule) := by
  intro r hr hs
  rw [run_within_eq] at hs
  rw [run_within_eq, run_within_eq]
  by_cases hsees : seesGroup d r.rest = true
  · rw [if_pos hsees] at hs ⊢
    rw [if_pos hsees]
    obtain ⟨heq, hlast⟩ := hrule _ (hP r 1 [opening d] hr)
      (settled_of_error hs fun fault hrun => by rw [hrun])
    rw [heq]
    cases hrun : rule.run g (r.take 1 [opening d]) with
    | error fault => exact ⟨rfl, fun _ _ h => by cases h⟩
    | ok read =>
        refine ⟨rfl, fun b r' hb => ?_⟩
        cases hb
        exact hP read.2 _ [closing d] (hlast _ _ hrun)
  · rw [if_neg hsees, if_neg hsees]
    exact ⟨rfl, fun _ _ h => by cases h⟩

/-- An attempt is cut off only where what it attempts is. -/
theorem settled_of_attempt {rule : Rule α} {r : Reader}
    (hs : ((Rule.attempt rule).run g r).settled = true) : (rule.run g r).settled = true := by
  rw [run_attempt_eq] at hs
  cases hrun : rule.run g r with
  | ok read => rfl
  | error fault =>
      rw [hrun] at hs
      dsimp only at hs
      by_cases hdeep : fault.complaint = .tooDeep
      · rwa [if_pos hdeep] at hs
      · exact bne_iff_ne.mpr hdeep

/-- What settles settles as an attempt. -/
theorem attempt {rule : Rule α} (hrule : SettlesRun g g' P rule) :
    SettlesRun g g' P (.attempt rule) := by
  intro r hr hs
  obtain ⟨heq, hlast⟩ := hrule r hr (settled_of_attempt hs)
  rw [run_attempt_eq, run_attempt_eq, heq]
  refine ⟨rfl, fun b r' hb => ?_⟩
  cases hrun : rule.run g r with
  | ok read =>
      rw [hrun] at hb
      cases hb
      exact hlast _ _ hrun
  | error fault =>
      rw [hrun] at hb
      dsimp only at hb
      split at hb <;> cases hb
      exact hr

/-- What settles settles while its text is held back. -/
theorem hold {rule : Rule α} (hrule : SettlesRun g g' P rule) : SettlesRun g g' P (.hold rule) := by
  intro r hr hs
  rw [run_hold_eq] at hs
  rw [run_hold_eq, run_hold_eq]
  obtain ⟨heq, hlast⟩ := hrule { r with written := [] } hr
    (settled_of_error hs fun fault hrun => by rw [hrun])
  rw [heq]
  cases hrun : rule.run g { r with written := [] } with
  | error fault => exact ⟨rfl, fun _ _ h => by cases h⟩
  | ok read =>
      refine ⟨rfl, fun b r' hb => ?_⟩
      cases hb
      exact hlast read.1 read.2 hrun

end SettlesRun

/-- Whatever rule it is, a reading that is not cut off comes out the same by both ways. -/
theorem Rule.settlesRun (hP : Lasting P) (hkeeps : Keeps g P) (h : Settles g g' P) (rule : Rule α) :
    SettlesRun g g' P rule := by
  induction rule with
  | done a =>
      refine fun r hr _ => ⟨rfl, fun b r' hb => ?_⟩
      cases hb
      exact hr
  | andThen rule next ih ihnext => exact ih.andThen ihnext
  | defer rule next ih ihnext => exact ih.defer ihnext
  | fail fault => exact fun r _ _ => ⟨rfl, fun _ _ h => by cases h⟩
  | look =>
      refine fun r hr _ => ⟨rfl, fun b r' hb => ?_⟩
      cases hb
      exact hr
  | take count written =>
      refine fun r hr _ => ⟨rfl, fun b r' hb => ?_⟩
      cases hb
      exact hP r count written hr
  | call phrase => exact fun r hr hs => ⟨h phrase r hr hs, fun a r' => hkeeps phrase r a r' hr⟩
  | within d rule ih => exact ih.within hP d
  | attempt rule ih => exact ih.attempt
  | hold rule ih => exact ih.hold
  | repeating step start ih => exact fun r hr hs => iterate_settles ih _ start r hr hs

/-! ### Deeper readings -/

/-- What lasts under taking lexemes lasts under reading phrases, at every depth. -/
theorem keeps_readWithin (hP : Lasting P) (depth : Nat) : Keeps (Phrase.readWithin depth) P := by
  induction depth with
  | zero => intro phrase r a r' _ h; cases h
  | succ depth ih =>
      intro phrase r a r' hr h
      have hsettled : (phrase.rule.run (Phrase.readWithin depth) r).settled = true := by
        rw [show phrase.rule.run (Phrase.readWithin depth) r = .ok (a, r') from h]
        rfl
      exact (phrase.rule.settlesRun hP ih (fun _ _ _ _ => rfl) r hr hsettled).2 a r' h

/-- What settles at one depth settles in the same way at the next. By induction on the depth. -/
theorem settles_succ (hP : Lasting P) (depth : Nat) :
    Settles (Phrase.readWithin depth) (Phrase.readWithin (depth + 1)) P := by
  induction depth with
  | zero => exact fun phrase r _ hs => absurd hs Bool.false_ne_true
  | succ depth ih =>
      exact fun phrase r hr hs => (phrase.rule.settlesRun hP (keeps_readWithin hP depth) ih r hr hs).1

/-- What is not cut off comes out the same however much deeper the reading may go. -/
theorem settles_of_le (hP : Lasting P) {depth depth' : Nat} (h : depth ≤ depth') :
    Settles (Phrase.readWithin depth) (Phrase.readWithin depth') P := by
  induction h with
  | refl => exact fun _ _ _ _ => rfl
  | step _ ih =>
      intro phrase r hr hs
      have heq := ih phrase r hr hs
      rw [← heq] at hs ⊢
      exact settles_succ hP _ phrase r hr hs

/-! ### Only the place matters -/

/-- A reader that left another group early before, or none. -/
def Reader.strayed (r : Reader) (stray : Option (Stretch × Delimiter)) : Reader :=
  { r with stray := stray }

/-- Two readings that come out the same but for groups that were left early. -/
inductive Outcome.Abreast : Outcome α → Outcome α → Prop where
  | ok (a : α) (r : Reader) (stray : Option (Stretch × Delimiter)) :
      Outcome.Abreast (.ok (a, r)) (.ok (a, r.strayed stray))
  | error (fault : Fault) : Outcome.Abreast (.error fault) (.error fault)

/-- Outcomes that go abreast settle together. -/
theorem Outcome.Abreast.settled_eq {o o' : Outcome α} (h : o.Abreast o') : o'.settled = o.settled := by
  cases h <;> rfl

/-- Whether a group was left early makes no difference to what is read behind it. -/
def Straightforward (g : PhraseReader) : Prop :=
  ∀ phrase r stray, (g phrase r).Abreast (g phrase (r.strayed stray))

/-- Leftovers that were noted before change nothing about a repetition but what is noted. -/
theorem iterate_abreast {step : σ → Reader → Outcome (σ ⊕ α)}
    (hstep : ∀ x r stray, (step x r).Abreast (step x (r.strayed stray))) :
    ∀ (bound : Nat) (x : σ) (r : Reader) (stray : Option (Stretch × Delimiter)),
      (iterate step bound x r).Abreast (iterate step bound x (r.strayed stray)) := by
  intro bound
  induction bound with
  | zero => exact fun _ _ _ => .error _
  | succ bound ih =>
      intro x r stray
      rw [iterate, iterate]
      have hone := hstep x r stray
      generalize step x r = o at hone
      generalize step x (r.strayed stray) = o' at hone
      cases hone with
      | error fault => exact .error fault
      | ok y r₁ stray₁ =>
          cases y with
          | inl y => exact ih y r₁ stray₁
          | inr a => exact .ok a r₁ stray₁

/-- A rule to which leftovers that were noted before make no difference but in what is noted. -/
def RunsAbreast (g : PhraseReader) (rule : Rule α) : Prop :=
  ∀ r stray, (rule.run g r).Abreast (rule.run g (r.strayed stray))

namespace RunsAbreast

theorem andThen {rule : Rule α} {next : α → Rule β} (hrule : RunsAbreast g rule)
    (hnext : ∀ a, RunsAbreast g (next a)) : RunsAbreast g (rule >>= next) := by
  intro r stray
  rw [run_bind, run_bind]
  have hone := hrule r stray
  generalize rule.run g r = o at hone
  generalize rule.run g (r.strayed stray) = o' at hone
  cases hone with
  | error fault => exact .error fault
  | ok a r₁ stray₁ => exact hnext a r₁ stray₁

/-- What is noted late is the only thing in which the two readings may differ behind both parts. -/
theorem defer {rule : Rule α} {next : α → Rule β} (hrule : RunsAbreast g rule)
    (hnext : ∀ a, RunsAbreast g (next a)) : RunsAbreast g (.defer rule next) := by
  intro r stray
  have hone := hrule r stray
  generalize hrun : rule.run g r = o at hone
  generalize hrun' : rule.run g (r.strayed stray) = o' at hone
  cases hone with
  | error fault =>
      rw [run_defer_of_error hrun, run_defer_of_error hrun']
      exact .error fault
  | ok a r₁ stray₁ =>
      rw [run_defer_of_ok hrun, run_defer_of_ok hrun']
      have htwo := hnext a (r₁.strayed r.stray) stray
      change Outcome.Abreast (((next a).run g (r₁.strayed r.stray)).map _)
        (((next a).run g ((r₁.strayed r.stray).strayed stray)).map _)
      generalize (next a).run g (r₁.strayed r.stray) = o at htwo
      generalize (next a).run g ((r₁.strayed r.stray).strayed stray) = o' at htwo
      cases htwo with
      | error fault => exact .error fault
      | ok b r₂ stray₂ => exact .ok b (r₂.strayed (r₂.stray.or r₁.stray)) _

theorem within (d : Delimiter) {rule : Rule α} (hrule : RunsAbreast g rule) :
    RunsAbreast g (.within d rule) := by
  intro r stray
  rw [run_within_eq, run_within_eq]
  show (if seesGroup d r.rest then _ else _ : Outcome _).Abreast (if seesGroup d r.rest then _ else _)
  split
  · have hone := hrule (r.take 1 [opening d]) stray
    have htake : (r.strayed stray).take 1 [opening d] = (r.take 1 [opening d]).strayed stray := rfl
    rw [htake]
    generalize rule.run g (r.take 1 [opening d]) = o at hone
    generalize rule.run g ((r.take 1 [opening d]).strayed stray) = o' at hone
    cases hone with
    | error fault => exact .error fault
    | ok a r₁ stray₁ => exact .ok a (r₁.leave d) _
  · exact .error _

theorem attempt {rule : Rule α} (hrule : RunsAbreast g rule) : RunsAbreast g (.attempt rule) := by
  intro r stray
  rw [run_attempt_eq, run_attempt_eq]
  have hone := hrule r stray
  generalize rule.run g r = o at hone
  generalize rule.run g (r.strayed stray) = o' at hone
  cases hone with
  | ok a r₁ stray₁ => exact .ok (some a) r₁ stray₁
  | error fault =>
      dsimp only
      split
      · exact .error fault
      · exact .ok none r stray

theorem hold {rule : Rule α} (hrule : RunsAbreast g rule) : RunsAbreast g (.hold rule) := by
  intro r stray
  rw [run_hold_eq, run_hold_eq]
  have hone := hrule { r with written := [] } stray
  have hempty : ({ r.strayed stray with written := [] } : Reader) =
    ({ r with written := [] } : Reader).strayed stray := rfl
  rw [hempty]
  generalize rule.run g { r with written := [] } = o at hone
  generalize rule.run g (({ r with written := [] } : Reader).strayed stray) = o' at hone
  cases hone with
  | error fault => exact .error fault
  | ok a r₁ stray₁ => exact .ok (a, r₁.written.reverse) { r₁ with written := r.written } stray₁

end RunsAbreast

/-- So it is with every rule. -/
theorem Rule.run_abreast (hg : Straightforward g) (rule : Rule α) : RunsAbreast g rule := by
  induction rule with
  | done a => exact fun r stray => .ok a r stray
  | andThen rule next ih ihnext => exact ih.andThen ihnext
  | defer rule next ih ihnext => exact ih.defer ihnext
  | fail fault => exact fun _ _ => .error fault
  | look => exact fun r stray => .ok r.toView r stray
  | take count written => exact fun r stray => .ok () (r.take count written) stray
  | call phrase => exact hg phrase
  | within d rule ih => exact ih.within d
  | attempt rule ih => exact ih.attempt
  | hold rule ih => exact ih.hold
  | repeating step start ih => exact fun r stray => iterate_abreast ih _ start r stray

/-- So it is at every depth. -/
theorem straightforward_readWithin (depth : Nat) : Straightforward (Phrase.readWithin depth) := by
  induction depth with
  | zero => exact fun _ _ _ => .error _
  | succ depth ih => exact fun phrase r stray => phrase.rule.run_abreast ih r stray

theorem settled_onto (o : Outcome α) (before : List Lexeme) : (o.onto before).settled = o.settled := by
  cases o <;> rfl

/-- Whether a reading is cut off depends on the place alone. -/
theorem settled_congr (depth : Nat) (phrase : Phrase) {r r' : Reader} (h : r.toView = r'.toView) :
    (Phrase.readWithin depth phrase r).settled = (Phrase.readWithin depth phrase r').settled := by
  have hbare : ∀ r : Reader, (Phrase.readWithin depth phrase r).settled =
      (Phrase.readWithin depth phrase ⟨r.toView, [], none⟩).settled := by
    intro r
    rw [show r = (r.unwritten).onto r.written from rfl, blind_readWithin depth phrase, settled_onto]
    exact (straightforward_readWithin depth phrase r.unwritten none).settled_eq.symm
  rw [hbare r, hbare r', h]

/-! ### At the end of a text -/

/-- At the end of a text or group four phrases are deep enough. -/
theorem settled_at_end (phrase : Phrase) {r : Reader} (h : r.rest = []) :
    (Phrase.readWithin 4 phrase r).settled = true := by
  obtain ⟨⟨position, rest⟩, written, stray⟩ := r
  obtain rfl : rest = [] := h
  cases phrase with
  | type plus => rfl
  | bound captures constant => rfl
  | expression braces => rfl
  | operand braces => rfl
  | atom braces => rfl
  | operators braces left least => cases left <;> cases least <;> rfl
  | pattern => rfl
  | statements => rfl
  | namedFields => rfl
  | item => rfl
  | importTree rootAdmitted => rfl

/-! ### What takes a lexeme before it refers to a phrase -/

/-- With a text ahead, a rule takes some of it before it refers to any phrase, or it fails: so it
depends on how phrases are read behind the beginning of that text alone. -/
def TakesFirst (g g' : PhraseReader) (s : List Lexeme) (rule : Rule α) : Prop :=
  ∀ r, r.rest = s → (rule.run g r).settled = true →
    rule.run g' r = rule.run g r ∧ ∀ a r', rule.run g r = .ok (a, r') → r'.rest.length < s.length

/-- Places with less ahead than a text. -/
def Shorter (n : Nat) (v : View) : Prop := v.rest.length < n

/-- That few lexemes are left lasts. -/
theorem lasting_shorter (n : Nat) : Lasting (Shorter n) :=
  fun _ _ _ h => Nat.lt_of_le_of_lt (List.drop_suffix _ _).length_le h

namespace TakesFirst

variable {s : List Lexeme}

/-- A rule that fails in every place takes nothing first for want of a result. -/
theorem of_error {rule : Rule α} (h : ∀ g r, r.rest = s → ∃ fault, rule.run g r = .error fault)
    (hsame : ∀ r, rule.run g' r = rule.run g r) : TakesFirst g g' s rule := by
  refine fun r hr _ => ⟨hsame r, fun a r' hrun => ?_⟩
  obtain ⟨fault, hfault⟩ := h g r hr
  cases hfault.symm.trans hrun

theorem complain (complaint : Complaint) : TakesFirst g g' s (Rule.complain complaint : Rule α) :=
  of_error (fun _ _ _ => ⟨_, run_complain ..⟩) fun r => by rw [run_complain, run_complain]

/-- An operator takes its lexemes before anything is read further down. -/
theorem operator {text : String} (htext : 0 < text.length) : TakesFirst g g' s (Rule.operator text) := by
  intro r hr _
  have hsame : (Rule.operator text).run g' r = (Rule.operator text).run g r := by
    rw [Rule.operator, run_bind_of_ok (run_ahead r), run_bind_of_ok (run_ahead r)]
    split
    · rfl
    · rw [run_complain, run_complain]
  refine ⟨hsame, fun a r' hrun => ?_⟩
  obtain ⟨hsees, rfl⟩ := run_operator_eq_ok.mp hrun
  rw [hr] at hsees
  show (r.rest.drop text.length).length < s.length
  rw [hr, List.length_drop]
  have hpos : 0 < s.length := by
    refine List.length_pos_iff.mpr ?_
    rintro rfl
    rw [sees] at hsees
    cases htext' : text.toList with
    | nil => rw [← String.length_toList, htext'] at htext; cases htext
    | cons c cs => rw [htext'] at hsees; cases cs <;> cases hsees
  omega

theorem keyword (w : String) : TakesFirst g g' s (Rule.keyword w) := by
  intro r hr _
  have hsame : (Rule.keyword w).run g' r = (Rule.keyword w).run g r := by
    rw [Rule.keyword, run_bind_of_ok (run_ahead r), run_bind_of_ok (run_ahead r)]
    split
    · rw [run_copy, run_copy]
    · rw [run_complain, run_complain]
  refine ⟨hsame, fun a r' hrun => ?_⟩
  obtain ⟨hsees, rfl⟩ := run_keyword_eq_ok.mp hrun
  obtain ⟨rest, hrest⟩ := Rereads.exists_of_seesWord hsees
  show (r.rest.drop 1).length < s.length
  rw [← hr, hrest]
  exact Nat.lt_succ_self _

/-- Each branch may be known by what decides for it. -/
theorem ite {c : Prop} [Decidable c] {rule₁ rule₂ : Rule α} (h₁ : c → TakesFirst g g' s rule₁)
    (h₂ : ¬ c → TakesFirst g g' s rule₂) : TakesFirst g g' s (if c then rule₁ else rule₂) := by
  split
  · next h => exact h₁ h
  · next h => exact h₂ h

/-- Looking takes nothing, so what follows it has to. -/
theorem look {next : View → Rule α} (h : ∀ n, TakesFirst g g' s (next ⟨n, s⟩)) :
    TakesFirst g g' s (Rule.look >>= next) := by
  intro r hr hs
  have hview : r.toView = ⟨r.position, s⟩ := by rw [← hr]
  rw [run_bind_of_ok (run_look r), hview] at hs ⊢
  rw [run_bind_of_ok (run_look r), hview]
  exact h r.position r hr hs

/-- Behind what takes something anything may be read. -/
theorem bind {rule : Rule α} {next : α → Rule β} (hkeeps : Keeps g (Shorter s.length))
    (hg : Settles g g' (Shorter s.length)) (h : TakesFirst g g' s rule) :
    TakesFirst g g' s (rule >>= next) := by
  intro r hr hs
  rw [run_bind] at hs
  obtain ⟨heq, hshorter⟩ := h r hr (settled_of_error hs fun fault hrun => by rw [hrun])
  rw [run_bind, run_bind, heq]
  cases hrun : rule.run g r with
  | error fault => exact ⟨rfl, fun _ _ h => by cases h⟩
  | ok read =>
      rw [hrun] at hs
      exact (next read.1).settlesRun (lasting_shorter _) hkeeps hg read.2 (hshorter _ _ hrun) hs

theorem expected (things : List Expectation) : TakesFirst g g' s (Rule.expected things : Rule α) := by
  refine of_error (fun _ _ _ => run_expected ..) fun r => ?_
  rw [Rule.expected, run_bind_of_ok (run_ahead r), run_bind_of_ok (run_ahead r), run_complain, run_complain]

section

variable (hkeeps : Keeps g (Shorter s.length)) (hg : Settles g g' (Shorter s.length))
include hkeeps hg

theorem dots : TakesFirst g g' s Rule.dots :=
  look fun _ => ite (fun _ => bind hkeeps hg (operator (by decide))) fun _ =>
    ite (fun _ => expected _) fun _ =>
      ite (fun _ => bind hkeeps hg (operator (by decide))) fun _ => expected _

/-- Where an operator comes next it is taken first, and otherwise nothing is read. -/
theorem operatorAt (braces : Bool) (least : Precedence) (left : ExprShape) :
    TakesFirst g g' s (Rule.operatorAt braces least left s) ∨
      Rule.operatorAt braces least left s = pure (.inr left) := by
  have hlength : ∀ x ∈ infixOperators, 0 < x.1.length := by decide
  rw [Rule.operatorAt]
  split
  · next text precedence hfind =>
    split
    · exact .inr rfl
    · refine .inl (ite (fun _ => bind hkeeps hg (complain _)) fun _ => ?_)
      exact bind hkeeps hg (operator (hlength _ (List.mem_of_find?_eq_some hfind)))
  · rw [otherStep]
    split
    · exact .inl (bind hkeeps hg (operator (by decide)))
    split
    · exact .inl (bind hkeeps hg (bind hkeeps hg (dots hkeeps hg)))
    split
    · exact .inl (bind hkeeps hg (keyword "as"))
    · exact .inr rfl

/-- So operators behind an expression are read as well less deep down. -/
theorem operators (braces : Bool) (left : ExprShape) (least : Precedence) {r : Reader} (hr : r.rest = s)
    (hs : ((Rule.operators braces left least).run g r).settled = true) :
    (Rule.operators braces left least).run g' r = (Rule.operators braces left least).run g r := by
  cases hrange : left.isRange with
  | true =>
      rw [Rule.operators, run_repeating, run_repeating, iterate, iterate, operatorStep_of_range hrange,
        run_bind_of_ok (run_ahead r), run_bind_of_ok (run_ahead r)]
      rfl
  | false =>
      rw [Rule.operators, run_repeating, iterate, operatorStep_of_not_range hrange] at hs
      rw [Rule.operators, run_repeating, run_repeating, iterate, iterate, operatorStep_of_not_range hrange]
      rw [run_bind_of_ok (run_ahead r), hr] at hs ⊢
      rw [run_bind_of_ok (run_ahead r), hr]
      rcases operatorAt hkeeps hg braces least left with h | h
      · obtain ⟨heq, hshorter⟩ := h r hr (settled_of_error hs fun fault hrun => by rw [hrun])
        rw [heq]
        cases hrun : (Rule.operatorAt braces least left s).run g r with
        | error fault => rfl
        | ok read =>
            obtain ⟨y, r₁⟩ := read
            rw [hrun] at hs
            cases y with
            | inr a => rfl
            | inl y =>
                exact (iterate_settles (fun x => (operatorStep braces least x).settlesRun
                  (lasting_shorter _) hkeeps hg) _ y r₁ (hshorter _ _ hrun) hs).1
      · rw [h]
        rfl

end

end TakesFirst

/-! ### How deep a reading needs to go -/

/-- A reader at a place that has not written anything. -/
def View.fresh (v : View) : Reader := ⟨v, [], none⟩

/-- A phrase is cut off at a place if it may go so deep, and is not if it may go one phrase deeper. -/
structure Needs (depth : Nat) (phrase : Phrase) (v : View) : Prop where
  enough : (Phrase.readWithin (depth + 1) phrase v.fresh).settled = true
  short : (Phrase.readWithin depth phrase v.fresh).settled = false

/-- All phrases that may begin at a place but those that begin with an operator. -/
def leadingPhrases : List Phrase :=
  [.type true, .type false, .bound true true, .bound true false, .bound false true, .bound false false,
    .expression true, .expression false, .operand true, .operand false, .atom true, .atom false,
    .pattern, .statements, .namedFields, .item, .importTree true, .importTree false]

/-- Operators are the only phrase that does not begin on its own. -/
theorem mem_leadingPhrases (phrase : Phrase) :
    phrase ∈ leadingPhrases ∨ ∃ braces left least, phrase = .operators braces left least := by
  cases phrase with
  | operators braces left least => exact .inr ⟨braces, left, least, rfl⟩
  | type plus => cases plus <;> simp [leadingPhrases]
  | bound captures constant => cases captures <;> cases constant <;> simp [leadingPhrases]
  | expression braces | operand braces | atom braces => cases braces <;> simp [leadingPhrases]
  | importTree rootAdmitted => cases rootAdmitted <;> simp [leadingPhrases]
  | _ => simp [leadingPhrases]

/-- What settles at a depth settles at all greater ones. -/
theorem settled_of_le {depth depth' : Nat} (h : depth ≤ depth') {phrase : Phrase} {r : Reader}
    (hs : (Phrase.readWithin depth phrase r).settled = true) :
    (Phrase.readWithin depth' phrase r).settled = true := by
  have hall : Lasting fun _ => True := fun _ _ _ _ => trivial
  rw [settles_of_le hall h phrase r trivial hs]
  exact hs

/-- What a phrase needs at a place is one depth. -/
theorem Needs.unique {depth depth' : Nat} {phrase : Phrase} {v : View} (h : Needs depth phrase v)
    (h' : Needs depth' phrase v) : depth = depth' := by
  have hle : ∀ {depth depth' : Nat}, Needs depth phrase v → Needs depth' phrase v → depth' ≤ depth := by
    intro depth depth' h h'
    by_contra hlt
    have hs := settled_of_le (Nat.succ_le_of_lt (Nat.not_le.mp hlt)) h.enough
    rw [h'.short] at hs
    cases hs
  exact Nat.le_antisymm (hle h' h) (hle h h')

/-- What is not cut off at some depth needs one that is less. -/
theorem exists_needs {depth least : Nat} {phrase : Phrase} {v : View}
    (hs : (Phrase.readWithin depth phrase v.fresh).settled = true)
    (hshort : (Phrase.readWithin least phrase v.fresh).settled = false) :
    ∃ more, Needs (least + more) phrase v := by
  induction depth with
  | zero => cases hs
  | succ depth ih =>
      cases hprev : (Phrase.readWithin depth phrase v.fresh).settled with
      | true => exact ih hprev
      | false =>
          have hle : least ≤ depth := by
            by_contra hlt
            rw [settled_of_le (Nat.succ_le_of_lt (Nat.not_le.mp hlt)) hs] at hshort
            cases hshort
          exact ⟨depth - least, by rw [Nat.add_sub_cancel' hle]; exact ⟨hs, hprev⟩⟩

section

variable {n least : Nat} {v : View} (hn : v.rest.length = n + 1)
  (hleast : ∀ depth phrase (r : Reader), r.rest.length < n + 1 →
    (Phrase.readWithin depth phrase r).settled = true → (Phrase.readWithin least phrase r).settled = true)
include hleast

/-- Behind a place nothing changes from a certain depth on. -/
theorem settles_shorter {depth : Nat} (h : least ≤ depth) :
    Settles (Phrase.readWithin (depth + 1)) (Phrase.readWithin depth) (Shorter (n + 1)) := by
  intro phrase r hr hs
  have hdepth := settled_of_le h (hleast _ phrase r hr hs)
  exact (settles_succ (lasting_shorter _) depth phrase r hr hdepth).symm

include hn

/-- What begins with an operator needs no more than what is read behind it. -/
theorem not_needs_operators {depth : Nat} (h : least ≤ depth) {braces : Bool} {left : ExprShape}
    {precedence : Precedence} : ¬ Needs (depth + 1) (.operators braces left precedence) v := by
  intro hneeds
  have hsame := TakesFirst.operators (s := v.rest) (hn ▸ keeps_readWithin (lasting_shorter _) _)
    (hn ▸ settles_shorter hleast h) braces left precedence (r := v.fresh) rfl hneeds.enough
  have hs : (Phrase.readWithin (depth + 1) (.operators braces left precedence) v.fresh).settled = true := by
    show ((Rule.operators braces left precedence).run (Phrase.readWithin depth) v.fresh).settled = true
    rw [hsame]
    exact hneeds.enough
  rw [hneeds.short] at hs
  cases hs

/-- What needs more than all that is read behind a place refers to something at that place that needs
one less. -/
theorem Needs.exists_needs {depth : Nat} (h : least ≤ depth) {phrase : Phrase}
    (hneeds : Needs (depth + 1) phrase v) : ∃ phrase', Needs depth phrase' v := by
  by_contra hnone
  have hlasting : Lasting fun w => w.rest.length < n + 1 ∨ w = v := by
    rintro r count written (hr | rfl)
    · exact .inl (lasting_shorter _ r count written hr)
    · cases count with
      | zero => exact .inr rfl
      | succ count =>
          refine .inl ?_
          show (r.rest.drop (count + 1)).length < n + 1
          rw [List.length_drop, hn]
          omega
  have hsettles : Settles (Phrase.readWithin (depth + 1)) (Phrase.readWithin depth)
      fun w => w.rest.length < n + 1 ∨ w = v := by
    rintro phrase' r (hr | hr) hs
    · exact settles_shorter hleast h phrase' r hr hs
    · cases hdepth : (Phrase.readWithin depth phrase' r).settled with
      | true => exact (settles_succ hlasting depth phrase' r (.inr hr) hdepth).symm
      | false =>
          refine (hnone ⟨phrase', ?_, ?_⟩).elim
          · rw [← hs]
            exact settled_congr _ _ hr.symm
          · rw [← hdepth]
            exact settled_congr _ _ hr.symm
  have hsame := (phrase.rule.settlesRun hlasting (keeps_readWithin hlasting _) hsettles v.fresh (.inr rfl)
    hneeds.enough).1
  have hs : (Phrase.readWithin (depth + 1) phrase v.fresh).settled = true := by
    show (phrase.rule.run (Phrase.readWithin depth) v.fresh).settled = true
    rw [hsame]
    exact hneeds.enough
  rw [hneeds.short] at hs
  cases hs

/-- So there are as many different phrases as a phrase needs more depth than all that is read behind
its place. -/
theorem Needs.exists_nodup {more : Nat} {phrase : Phrase} (hneeds : Needs (least + more) phrase v) :
    ∃ phrases : List Phrase, phrases.Nodup ∧ phrases.length = more ∧
      ∀ phrase' ∈ phrases, phrase' ∈ leadingPhrases ∧
        ∃ less, less < more ∧ Needs (least + less + 1) phrase' v := by
  induction more generalizing phrase with
  | zero => exact ⟨[], .nil, rfl, nofun⟩
  | succ more ih =>
      obtain ⟨phrase₁, hneeds₁⟩ := hneeds.exists_needs hn hleast (Nat.le_add_right least more)
      obtain ⟨phrases, hnodup, hlength, hall⟩ := ih hneeds₁
      refine ⟨phrase :: phrases, hnodup.cons ?_, congrArg (· + 1) hlength, ?_⟩
      · intro hmem
        obtain ⟨-, less, hless, hneeds'⟩ := hall phrase hmem
        have heq := hneeds.unique hneeds'
        omega
      · intro phrase' hmem
        rcases List.mem_cons.mp hmem with rfl | hmem
        · refine ⟨(mem_leadingPhrases phrase').resolve_right ?_, more, Nat.lt_succ_self _, hneeds⟩
          rintro ⟨braces, left, precedence, rfl⟩
          exact not_needs_operators hn hleast (Nat.le_add_right least more) hneeds
        · obtain ⟨hleading, less, hless, hneeds'⟩ := hall phrase' hmem
          exact ⟨hleading, less, Nat.lt_succ_of_lt hless, hneeds'⟩

end

/-- What is not cut off at some depth is not cut off at one that depends on the length of the text
alone. -/
theorem settled_of_settled (n : Nat) : ∀ (depth : Nat) (phrase : Phrase) (r : Reader), r.rest.length = n →
    (Phrase.readWithin depth phrase r).settled = true →
      (Phrase.readWithin (19 * n + 4) phrase r).settled = true := by
  induction n using Nat.strongRecOn with
  | ind n ih =>
      intro depth phrase r hr hs
      cases n with
      | zero => exact settled_at_end phrase (List.length_eq_zero_iff.mp hr)
      | succ n =>
          have hleast : ∀ depth phrase (r : Reader), r.rest.length < n + 1 →
              (Phrase.readWithin depth phrase r).settled = true →
                (Phrase.readWithin (19 * n + 4) phrase r).settled = true :=
            fun depth phrase r hr hs => settled_of_le (by omega) (ih _ hr depth phrase r rfl hs)
          by_contra hcut
          rw [Bool.not_eq_true] at hcut
          have hview : r.toView = r.toView.fresh.toView := rfl
          rw [settled_congr _ phrase hview] at hs
          rw [settled_congr _ phrase hview] at hcut
          obtain ⟨more, hneeds⟩ := exists_needs hs hcut
          have hneeds' : Needs (19 * n + 4 + (19 + more)) phrase r.toView := by
            rw [show 19 * n + 4 + (19 + more) = 19 * (n + 1) + 4 + more by omega]
            exact hneeds
          obtain ⟨phrases, hnodup, hlength, hall⟩ := hneeds'.exists_nodup hr hleast
          have hle := (List.subperm_of_subset hnodup fun phrase h => (hall phrase h).1).length_le
          rw [hlength, show leadingPhrases.length = 18 from rfl] at hle
          omega

/-- A reading that is not cut off for its depth comes out as that of `Rule.read`, whatever its depth
is. -/
theorem Rule.read_of_run {rule : Rule α} {ls : List Lexeme} {depth : Nat}
    (h : (rule.run (Phrase.readWithin depth) (.ofLexemes ls)).settled = true) :
    rule.read ls = rule.run (Phrase.readWithin depth) (.ofLexemes ls) := by
  have hlasting : Lasting fun v => v.rest.length ≤ ls.length :=
    fun _ _ _ h => (List.drop_suffix _ _).length_le.trans h
  have hsettles : Settles (Phrase.readWithin depth) (Phrase.readWithin (sufficientDepth ls.length))
      fun v => v.rest.length ≤ ls.length := by
    intro phrase r hr hs
    have hdeep : (Phrase.readWithin (sufficientDepth ls.length) phrase r).settled = true := by
      refine settled_of_le ?_ (settled_of_settled _ depth phrase r rfl hs)
      have hr : r.rest.length ≤ ls.length := hr
      rw [sufficientDepth]
      omega
    rcases Nat.le_total depth (sufficientDepth ls.length) with hle | hle
    · exact settles_of_le hlasting hle phrase r hr hs
    · exact (settles_of_le hlasting hle phrase r hr hdeep).symm
  exact (rule.settlesRun hlasting (keeps_readWithin hlasting _) hsettles _ (Nat.le_refl _) h).1

end TypedId.Grammar
