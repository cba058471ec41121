import TypedId.Proofs.Grammar.Angles
import TypedId.Proofs.Grammar.Attributes

/-!
Paths are read again, with their arguments in angle brackets and in parentheses.
-/

namespace TypedId.Grammar

open Lexeme

variable {g : PhraseReader} {m : Rendition} {s p : List Lexeme}

/-! ### Arguments -/

theorem AngleFront.look {element : Rule Bool} {start : List Lexeme → List Lexeme → Prop}
    (h : AngleFront g element start s p) : Look s p ∧ sees "<" s = true ∧ sees "<" p = true := by
  obtain ⟨joint, joint', s', p', rfl, rfl, hlook, -⟩ := h
  exact ⟨look_punct (by decide) fun _ => hlook, rfl, rfl⟩

/-- A comma separates. -/
theorem angleSeparator_comma : AngleSeparator g (Rule.operator ",") := by
  refine ⟨fun _ _ => rfl, fun r hr => ?_⟩
  rw [Rule.operator, Rule.run_bind_of_ok (Rule.run_ahead r), hr]
  exact ⟨_, Rule.run_complain ..⟩

/-- How an argument in angle brackets looks at its beginning. -/
structure ArgumentFront (s p : List Lexeme) : Prop extends Look s p where
  plus : seesLifetime s = true → sees "+" (second p) = sees "+" (second s)

/-- Behind the type that an argument may begin with. -/
inductive NameableFollow (s k : List Lexeme) : Prop where
  | equals (h : Spelt ['='] Look s k)
  | colon (h : Coloned s k)
  | stop (hs : AngleStop s) (hk : AngleStop k)

theorem exists_of_angleStop {ls : List Lexeme} (h : AngleStop ls) :
    ∃ c joint ls', ls = punct c joint :: ls' ∧ (c = ',' ∨ c = '>') := by
  rcases h with h | h
  · obtain ⟨joint, ls', rfl⟩ := exists_of_sees (c := ',') h
    exact ⟨_, joint, ls', rfl, .inl rfl⟩
  · obtain ⟨joint, ls', rfl⟩ := exists_of_sees (c := '>') h
    exact ⟨_, joint, ls', rfl, .inr rfl⟩

theorem AngleStop.not_sees {ls : List Lexeme} (h : AngleStop ls) {c : Char} (hc : c ≠ ',' ∧ c ≠ '>')
    (cs : List Char) : startsWith (c :: cs) ls = false := by
  obtain ⟨d, joint, ls', rfl, rfl | rfl⟩ := exists_of_angleStop h
  · exact startsWith_punct_of_ne hc.1 cs joint ls'
  · exact startsWith_punct_of_ne hc.2 cs joint ls'

theorem AngleStop.type {k : List Lexeme} (hk : AngleStop k) : TypeFollow s k := by
  obtain ⟨c, joint, k', rfl, hc⟩ := exists_of_angleStop hk
  exact .of_punct (by rcases hc with rfl | rfl <;> decide) _ _ _

theorem NameableFollow.type {k : List Lexeme} (h : NameableFollow s k) : TypeFollow s k := by
  cases h with
  | equals h =>
      obtain ⟨_, _, _, _, rfl, rfl, -, -⟩ := h
      exact .of_equals _ _ _ _
  | colon h => exact .of_coloned h
  | stop _ hk => exact hk.type

theorem NameableFollow.equality {k : List Lexeme} (h : NameableFollow s k) :
    sees "=" k = sees "=" s := by
  cases h with
  | equals h =>
      obtain ⟨_, _, _, _, rfl, rfl, -, -⟩ := h
      rfl
  | colon h =>
      obtain ⟨_, _, _, _, rfl, rfl, -, -⟩ := h
      rfl
  | stop hs hk => exact (hk.not_sees (by decide) []).trans (hs.not_sees (by decide) []).symm

theorem NameableFollow.colon_eq {k : List Lexeme} (h : NameableFollow s k) :
    sees ":" k = sees ":" s := by
  cases h with
  | equals h =>
      obtain ⟨_, _, _, _, rfl, rfl, -, -⟩ := h
      rfl
  | colon h =>
      obtain ⟨_, _, _, _, rfl, rfl, -, -⟩ := h
      rfl
  | stop hs hk => exact (hk.not_sees (by decide) []).trans (hs.not_sees (by decide) []).symm

namespace Rereads

/-- An argument that is a value is read again. -/
theorem constArgument (hg : Rereadable g) {follow : Unit → List Lexeme → List Lexeme → Prop} :
    Rereads g m s Rule.constArgument Rule.constArgument id (Look s) follow := by
  refine ahead (.sight (fun _ p hp => hp.literal) (fun _ => ?_) fun _ => ?_)
  · exact literal.front_mono fun p hp => hp.look
  · refine .sight (fun _ p hp => hp.identifier) (fun _ => ?_) fun _ => ?_
    · refine identifier_then (fun _ _ _ => True) (fun _ _ _ s' => ?_) fun w p _ hp => hp.look
      exact pure _ _ rfl fun _ _ => trivial
    · refine .sight (fun _ p hp => hp.group _) (fun _ => ?_) fun _ => .complain _
      exact (attributedBlock hg).front_mono fun p hp => hp.look

/-- Bounds between which a plus stands are read again; `stop` tells where they end. -/
theorem joinedBounds (hg : Rereadable g) {stop : List Lexeme → Bool}
    (hstop : ∀ s p, Look s p → stop p = stop s) :
    Rereads g m s (Rule.joined "+" stop (Rule.call (.bound false true)))
      (Rule.joined "+" stop (Rule.call (.bound false true))) (List.map BoundShape.placeless)
      (fun p => Uncoloned s p ∧ stop p = stop s)
      fun _ s' k => (stop s' = true → Uncoloned s' k ∧ stop k = true) ∧
        (sees "+" s' = false → TypeFollow s' k) := by
  let start (s p : List Lexeme) : Prop := Uncoloned s p ∧ stop p = stop s
  let behind (s p : List Lexeme) : Prop := TypeFollow s p ∧ sees "+" p = sees "+" s
  have hjoined : Rereads g m s (Rule.joined "+" stop (Rule.call (.bound false true)))
      (Rule.joined "+" stop (Rule.call (.bound false true))) (List.map BoundShape.placeless)
      (start s) fun _ s' k => (stop s' = true → start s' k) ∧ (sees "+" s' = false → behind s' k) := by
    refine joined _ start behind (fun _ _ h => h.2) (fun _ _ h => h.2) (fun s p h => ?_)
      (by decide) fun s _ => ?_
    · obtain ⟨joint, joint', s', p', rfl, rfl, -, -⟩ := h
      exact ⟨.of_plus _ _ _ _, rfl⟩
    · exact (hg.plainBound m s false true).mono
        (fun p hp => ⟨hp.uncoloned hp.colon, hstop s p hp.toLook⟩) fun _ _ _ hk => hk.1
  refine hjoined.follow_mono fun _ s' k hk => ⟨fun hs => ?_, fun hs => ?_⟩
  · exact ⟨(hk.1 hs).1, (hk.1 hs).2.trans hs.symm⟩
  · exact ⟨hk.2 hs, by rw [hs, (hk.2 hs).plus hs]⟩

/-- A type is read again that is the last of an argument. -/
theorem lastType (hg : Rereadable g) {follow : Bool → List Lexeme → List Lexeme → Prop}
    (hfollow : ∀ s' k, follow false s' k → TypeFollow s' k) :
    Rereads g m s (do let _ ← Rule.call (.type true); Pure.pure false)
      (do let _ ← Rule.call (.type true); Pure.pure false) id (Look s) follow := by
  refine ((hg.plainType m s true).bind fun _ _ s' _ => ?_).front_mono fun p hp => hp.toLook
  exact pure _ _ rfl fun k hk => hfollow s' k hk

/-- An argument in angle brackets is read again. -/
theorem angleArgument (hg : Rereadable g) :
    Rereads g m s Rule.angleArgument Rule.angleArgument id (ArgumentFront s)
      fun _ s' k => AngleStop s' ∧ AngleStop k := by
  let stops (s p : List Lexeme) : Prop := AngleStop s ∧ AngleStop p
  unfold Rule.angleArgument
  dsimp only
  refine ahead (.sight (fun _ p hp => ?_) (fun hs => ?_) fun hs => ?_)
  · rw [hp.lifetime]
    cases hs : seesLifetime s with
    | true => rw [hp.plus hs]
    | false => rfl
  · refine lifetime_then stops (fun _ _ s' => pure _ _ rfl fun k hk => hk) fun p hp => ?_
    refine ⟨hp.look, fun _ => ?_⟩
    obtain ⟨w, s', p', rfl, rfl, hs', hp'⟩ := hp
    exact (hp'.not_sees (by decide) []).trans (hs'.not_sees (by decide) []).symm
  · refine .sight (fun _ p hp => ?_) (fun hconst => ?_) fun _ => ?_
    · rw [Rule.seesConstArgument, hp.literal, hp.group, Rule.seesConstArgument]
    · refine ((constArgument hg : Rereads g m s _ _ _ _ fun _ => stops).bind fun _ _ s' _ =>
        pure _ _ rfl fun k hk => hk).front_mono fun p hp => ⟨hp, fun hlifetime => ?_⟩
      obtain ⟨w, s', rfl⟩ := exists_of_seesLifetime hlifetime
      cases hconst
    · refine ((hg.plainType m s true).bind (fun shape _ s' hshape => ?_)).front_mono fun p hp =>
        ⟨hp.toLook, fun hlifetime => (hp.object hlifetime).2.trans (hp.object hlifetime).1.symm⟩
      obtain rfl : _ = shape := hshape
      refine (?_ : Rereads g m s' _ _ _ (NameableFollow s') _).front_mono fun _ => NameableFollow.type
      refine .sight (fun _ _ _ => rfl) (fun _ => ?_) fun _ => pure _ _ rfl fun k hk => .stop hk.1 hk.2
      refine operator? (fun p hp => hp.equality) (fun _ => ?_) fun _ => ?_
      · refine operator_then "=" Look (fun s₂ => ?_) fun p hp => .equals hp
        refine ahead (.sight (fun _ p hp => ?_) (fun _ => ?_) fun _ => ?_)
        · rw [Rule.seesConstArgument, hp.literal, hp.group, Rule.seesConstArgument]
        · exact (constArgument hg : Rereads g m s₂ _ _ _ _ fun _ => stops).bind fun _ _ s' _ =>
            pure _ _ rfl fun k hk => hk
        · exact lastType hg fun s' k hk => hk.2.type
      · refine operator? (fun p hp => hp.colon_eq) (fun _ => ?_) fun _ =>
          pure _ _ rfl fun k hk => .stop hk.1 hk.2
        refine operator_then ":" Uncoloned (fun s₂ => ?_) fun p hp => .colon hp
        refine ((joinedBounds hg fun s p h => ?_).bind fun _ _ s₃ _ => ?_).front_mono fun p hp => hp.1
        · rw [h.operator "," rfl, h.operator ">" rfl]
        · refine pure _ _ rfl fun k hk => ⟨fun _ => ⟨?_, ?_⟩, fun _ => hk.2.type⟩
          · have hcolon := fun cs => hk.1.not_sees (c := ':') (by decide) cs
            have hcolon' := fun cs => hk.2.not_sees (c := ':') (by decide) cs
            refine ⟨(hcolon' []).trans (hcolon []).symm, (hcolon' [':']).trans (hcolon [':']).symm, ?_⟩
            rw [Rule.seesColon, show sees ":" s₃ = false from hcolon []]
            rfl
          · exact (Bool.or_eq_true _ _).mpr hk.2

/-- Arguments in angle brackets are read again. -/
theorem angleArguments (hg : Rereadable g) {follow : Unit → List Lexeme → List Lexeme → Prop} :
    Rereads g m s Rule.angleArguments Rule.angleArguments id
      (fun p => Look s p ∧ sees "<" s = true ∧ sees "<" p = true) follow := by
  have hargument : AngleElement g Rule.angleArgument ArgumentFront :=
    ⟨fun _ _ _ => angleArgument hg, fun _ _ h => h.toLook⟩
  refine ((angleBrackets hargument angleSeparator_comma : Rereads g m s _ _ _ _ fun _ _ _ => True).bind
    fun _ _ s' _ => pure _ _ rfl fun _ _ => trivial).front_mono fun p hp => hp.look

/-- The result of a function is read again, which may be left out. -/
theorem returnType (hg : Rereadable g) (plus : Bool) :
    Rereads g m s (Rule.returnType plus) (Rule.returnType plus) id
      (fun p => sees "->" p = sees "->" s) fun _ => TypeFollow := by
  refine operator? (fun p hp => hp) (fun hs => ?_) fun hs => pure _ _ rfl fun k hk => ?_
  · refine operator_then "->" (fun _ _ => True) (fun s' => ?_) fun p hp => ?_
    · refine ((hg.plainType m s' plus).bind fun _ _ s₂ _ => ?_).front_mono fun _ _ => trivial
      exact pure _ _ rfl fun k hk => hk
    · exact hp.startsWith.2.trans hs.symm
  · exact (hk.arrow hs).trans hs.symm

/-- Types in parentheses are read again. -/
theorem typesInParentheses (hg : Rereadable g) {follow : Unit → List Lexeme → List Lexeme → Prop} :
    Rereads g m s
      (Rule.within .parenthesis do let _ ← Rule.commaList (Rule.call (.type true)))
      (Rule.within .parenthesis do let _ ← Rule.commaList (Rule.call (.type true))) id
      (Bracketed .parenthesis s) follow :=
  groupedList id fun s _ =>
    (hg.plainType m s true).mono (fun _ hp => hp.ends) fun _ _ _ hk => hk.type

/-- Arguments in parentheses are read again. -/
theorem parenthesizedArguments (hg : Rereadable g) :
    Rereads g m s Rule.parenthesizedArguments Rule.parenthesizedArguments id
      (Bracketed .parenthesis s) fun _ => TypeFollow :=
  (typesInParentheses hg).bind fun _ _ _ _ => returnType hg false

end Rereads

/-! ### The words of a path -/

/-- Whether a word may stand in a path. -/
def IsSegment (w : String) : Prop :=
  isIdentifier w = true ∨ w ∈ ["super", "self", "crate", "try", "Self"]

/-- Whether arguments in angle brackets follow a word of a path. -/
def Rule.seesArguments (inExpression : Bool) (ls : List Lexeme) : Bool :=
  (!inExpression && seesAngle ls) || (sees "::" ls && sees "<" (third ls))

theorem Rule.seesArguments_colons (b joint : Bool) (ls : List Lexeme) :
    seesArguments b (punct ':' true :: punct ':' joint :: ls) = sees "<" ls := by
  have hcolons : sees "::" (punct ':' true :: punct ':' joint :: ls) = true := rfl
  have hangle : seesAngle (punct ':' true :: punct ':' joint :: ls) = false := rfl
  rw [seesArguments, hcolons, hangle, third_colons, Bool.and_false, Bool.false_or, Bool.true_and]

/-- A list of arguments is seen in both texts if they look alike. -/
theorem Look.arguments {b : Bool} (h : Look s p) (hs : Rule.seesArguments b s = true)
    (hcolons : sees "::" s = false) : Rule.seesArguments b p = true := by
  rw [Rule.seesArguments, hcolons, Bool.false_and, Bool.or_false, Bool.and_eq_true,
    Rule.seesAngle, Bool.and_eq_true, Bool.and_eq_true] at hs
  simp only [Bool.not_eq_true'] at hs
  obtain ⟨hb, ⟨hless, hle⟩, hshift⟩ := hs
  have hless' : sees "<" p = true := (h.char '<').trans hless
  rw [Rule.seesArguments, Rule.seesAngle, hb, hless', h.not_guard (by decide) hle,
    h.not_guard (by decide) hshift]
  rfl

theorem PathFollow.arguments {b : Bool} {k : List Lexeme} (h : PathFollow b s k)
    (hs : Rule.seesArguments b s = false) : Rule.seesArguments b k = false := by
  rw [Rule.seesArguments, Bool.or_eq_false_iff] at hs ⊢
  refine ⟨?_, h.turbofish hs.2⟩
  cases b with
  | true => rfl
  | false => simpa using h.angle rfl (by simpa using hs.1)

/-- Both texts begin with a word of a path. Behind it stand arguments or what is told by `rest`. -/
inductive SegmentFront (rest : List Lexeme → List Lexeme → Prop) :
    List Lexeme → List Lexeme → Prop where
  | bare {s p : List Lexeme} (w : String) (hw : IsSegment w) (h : rest s p) :
      SegmentFront rest (word w :: s) (word w :: p)
  | arguments {s p : List Lexeme} (w : String) (hw : IsSegment w) (hs : sees "<" s = true)
      (hp : sees "<" p = true) (h : Look s p) : SegmentFront rest (word w :: s) (word w :: p)
  | turbofish {s p : List Lexeme} (w : String) (hw : IsSegment w) (joint joint' : Bool)
      (hs : sees "<" s = true) (hp : sees "<" p = true) :
      SegmentFront rest (word w :: punct ':' true :: punct ':' joint :: s)
        (word w :: punct ':' true :: punct ':' joint' :: p)

/-- Both texts begin with the words of a path, and go on alike behind it; `last` tells how. Nothing
is told of what stands behind the first arguments. -/
inductive SegmentsFront (last : List Lexeme → List Lexeme → Prop) :
    List Lexeme → List Lexeme → Prop where
  | single {s p : List Lexeme} (h : SegmentFront last s p) : SegmentsFront last s p
  | further {s p : List Lexeme} (w : String) (hw : IsSegment w) (joint joint' : Bool)
      (h : SegmentsFront last s p) :
      SegmentsFront last (word w :: punct ':' true :: punct ':' joint :: s)
        (word w :: punct ':' true :: punct ':' joint' :: p)

/-- Both texts begin with a path, and go on alike behind it. -/
def PathFront (last : List Lexeme → List Lexeme → Prop) (s p : List Lexeme) : Prop :=
  SegmentsFront last s p ∨ Spelt [':', ':'] (SegmentsFront last) s p

/-- Both texts begin with a path or with a type in angle brackets that begins one. -/
def QualifiedFront (last : List Lexeme → List Lexeme → Prop) (s p : List Lexeme) : Prop :=
  PathFront last s p ∨ Spelt ['<'] (TypeFront True) s p

section Fronts

variable {last last' : List Lexeme → List Lexeme → Prop}

theorem SegmentFront.mono (h : SegmentFront last s p) (hlast : ∀ s p, last s p → last' s p) :
    SegmentFront last' s p := by
  cases h with
  | bare w hw h => exact .bare w hw (hlast _ _ h)
  | arguments w hw hs hp h => exact .arguments w hw hs hp h
  | turbofish w hw joint joint' hs hp => exact .turbofish w hw joint joint' hs hp

theorem SegmentsFront.mono (h : SegmentsFront last s p) (hlast : ∀ s p, last s p → last' s p) :
    SegmentsFront last' s p := by
  induction h with
  | single h => exact .single (h.mono hlast)
  | further w hw joint joint' _ ih => exact .further w hw joint joint' ih

theorem SegmentFront.word (h : SegmentFront last s p) :
    ∃ w s' p', IsSegment w ∧ s = Lexeme.word w :: s' ∧ p = Lexeme.word w :: p' := by
  cases h with
  | bare w hw | arguments w hw | turbofish w hw => exact ⟨w, _, _, hw, rfl, rfl⟩

theorem SegmentsFront.word (h : SegmentsFront last s p) :
    ∃ w s' p', IsSegment w ∧ s = Lexeme.word w :: s' ∧ p = Lexeme.word w :: p' := by
  cases h with
  | single h => exact h.word
  | further w hw => exact ⟨w, _, _, hw, rfl, rfl⟩

/-- What stands behind the first word, if that is known of all that looks alike. -/
theorem SegmentFront.behind (h : SegmentFront last s p) (hlook : ∀ s p, Look s p → last s p) :
    ∃ w s' p', IsSegment w ∧ s = Lexeme.word w :: s' ∧ p = Lexeme.word w :: p' ∧ last s' p' := by
  cases h with
  | bare w hw h => exact ⟨w, _, _, hw, rfl, rfl, h⟩
  | arguments w hw _ _ h => exact ⟨w, _, _, hw, rfl, rfl, hlook _ _ h⟩
  | turbofish w hw => exact ⟨w, _, _, hw, rfl, rfl, hlook _ _ (look_twoColons _ _ _ _)⟩

theorem SegmentsFront.behind (h : SegmentsFront last s p) (hlook : ∀ s p, Look s p → last s p) :
    ∃ w s' p', IsSegment w ∧ s = Lexeme.word w :: s' ∧ p = Lexeme.word w :: p' ∧ last s' p' := by
  cases h with
  | single h => exact h.behind hlook
  | further w hw => exact ⟨w, _, _, hw, rfl, rfl, hlook _ _ (look_twoColons _ _ _ _)⟩

theorem SegmentsFront.look (h : SegmentsFront last s p) : Look s p := by
  obtain ⟨w, s', p', -, rfl, rfl⟩ := h.word
  exact look_word w s' p'

theorem PathFront.look (h : PathFront last s p) : Look s p :=
  h.elim SegmentsFront.look look_colons

theorem QualifiedFront.look (h : QualifiedFront last s p) : Look s p :=
  h.elim PathFront.look fun h => h.look (by decide) fun _ _ _ h => h.toLook

end Fronts

theorem seesColon_eq {ls ls' : List Lexeme} (h : sees ":" ls' = sees ":" ls)
    (hcolons : sees "::" ls' = sees "::" ls) : Rule.seesColon ls' = Rule.seesColon ls := by
  rw [Rule.seesColon, h, hcolons, Rule.seesColon]

theorem Rule.seesParameters_punct (joint : Bool) (ls : List Lexeme) :
    seesParameters (punct '<' joint :: ls) =
      (sees ">" ls || sees "#" ls || seesWord "const" ls ||
        ((seesLifetime ls || seesIdentifier ls) && behindParameter (second ls))) := by
  have hsecond := second_punct (c := '<') (by decide) joint ls
  have hthird : third (punct '<' joint :: ls) = second ls := congrArg afterElement hsecond
  rw [seesParameters, hthird, hsecond]
  rfl

/-- An angle bracket before a type begins parameters in both texts, or in none. -/
theorem TypeFront.parameters_angle (h : TypeFront True s p) (joint joint' : Bool) :
    Rule.seesParameters (punct '<' joint' :: p) = Rule.seesParameters (punct '<' joint :: s) := by
  rw [Rule.seesParameters_punct, Rule.seesParameters_punct, h.operator ">" rfl, h.operator "#" rfl,
    h.word, h.lifetime, h.identifier]
  cases hlifetime : seesLifetime s with
  | true =>
      have hplus : ∀ ls, sees "+" ls = true → Rule.behindParameter ls = false := by
        intro ls hls
        obtain ⟨joint, ls', rfl⟩ := exists_of_sees (c := '+') hls
        rfl
      obtain ⟨hs, hp⟩ := h.object hlifetime
      rw [hplus _ hs, hplus _ hp]
  | false =>
      cases hidentifier : seesIdentifier s with
      | false => rfl
      | true =>
          have hword : seesAnyWord s = true := by
            cases s with
            | nil => cases hidentifier
            | cons l s => cases l <;> first | rfl | cases hidentifier
          obtain ⟨hlook, -⟩ := h.second trivial hword
          have hbehind : Rule.behindParameter (Grammar.second p) =
              Rule.behindParameter (Grammar.second s) := by
            simp only [Rule.behindParameter, hlook.operator ">" rfl, hlook.operator "," rfl,
              seesColon_eq (hlook.char ':') hlook.colons, hlook.operator "=" rfl]
          rw [hbehind]

section Types

variable {last : List Lexeme → List Lexeme → Prop} {told : Prop}

theorem SegmentsFront.second (h : SegmentsFront last s p)
    (hlast : ∀ s p, last s p → Look s p ∧ Rule.seesColon s = false) :
    Look (Grammar.second s) (Grammar.second p) ∧ Rule.seesColon (Grammar.second s) = false := by
  cases h with
  | single h =>
      cases h with
      | bare w hw h => exact hlast _ _ h
      | arguments w hw hs hp h =>
          obtain ⟨joint, s', rfl⟩ := exists_of_sees (c := '<') hs
          exact ⟨h, rfl⟩
      | turbofish w hw joint joint' hs hp => exact ⟨look_twoColons joint joint' _ _, rfl⟩
  | further w hw joint joint' h => exact ⟨look_twoColons joint joint' _ _, rfl⟩

/-- A type that begins with a path looks as the path does. -/
theorem QualifiedFront.type (h : QualifiedFront last s p)
    (hlast : told → ∀ s p, last s p → Look s p ∧ Rule.seesColon s = false) : TypeFront told s p := by
  have hlook := h.look
  rcases h with (h | ⟨s', p', rfl, rfl, joint, joint', s', p', rfl, rfl, -, h⟩) |
    ⟨joint, joint', s', p', rfl, rfl, hjoint, h⟩
  · have hsecond := fun ht => h.second (hlast ht)
    obtain ⟨w, s', p', hw, rfl, rfl⟩ := h.word
    exact ⟨hlook, rfl, fun h => Bool.noConfusion h, fun ht _ => hsecond ht, rfl, rfl, rfl⟩
  · exact ⟨hlook, rfl, fun h => Bool.noConfusion h, fun _ h => Bool.noConfusion h, rfl, rfl, rfl⟩
  · exact ⟨hlook, rfl, fun h => Bool.noConfusion h, fun _ h => Bool.noConfusion h, rfl, rfl,
      h.parameters_angle joint joint'⟩

end Types

namespace Rereads

/-- A word of a path is read again, with its arguments. -/
theorem pathSegment (hg : Rereadable g) (inExpression : Bool)
    (rest : List Lexeme → List Lexeme → Prop) :
    Rereads g m s (Rule.pathSegment inExpression) (Rule.pathSegment inExpression) id
      (SegmentFront rest s) fun _ s' k => rest s' k ∧
        (Rule.seesArguments inExpression s' = false → Rule.seesArguments inExpression k = false) := by
  -- What stands behind the word.
  let inner (s p : List Lexeme) : Prop :=
    Rule.seesArguments inExpression p = Rule.seesArguments inExpression s ∧
      (Rule.seesArguments inExpression s = true → sees "::" p = sees "::" s) ∧
      ∀ w, IsSegment w → SegmentFront rest (word w :: s) (word w :: p)
  unfold Rule.pathSegment
  refine ahead (.sight (fun _ p hp => ?_) (fun hs => ?_) fun hs => ?_)
  · obtain ⟨w, s', p', -, rfl, rfl⟩ := hp.word
    rfl
  · refine anyWord_then (fun _ s' k => rest s' k) (fun _ _ _ s' => pure _ _ rfl fun k hk => hk.1)
      fun w p hp => ?_
    obtain ⟨s', p', rfl, rfl, h⟩ := hp
    refine .bare w (.inr ?_) h
    simp only [List.any_cons, List.any_nil, Bool.or_false, seesWord, Bool.or_eq_true, beq_iff_eq] at hs
    rcases hs with rfl | rfl | rfl | rfl <;> decide
  · refine identifierOr_then ["Self"] (fun _ => inner) (fun w _ _ s' => ?_) fun w p hw hp => ?_
    · refine ahead (.sight (fun _ p hp => hp.1) (fun hseen => ?_) fun hseen => ?_)
      · refine operator? (fun p hp => hp.2.1 hseen) (fun hcolons => ?_) fun hcolons => ?_
        · refine operator_then "::" (fun s p => Look s p ∧ sees "<" s = true ∧ sees "<" p = true)
            (fun s₂ => ?_) fun p hp => ?_
          · exact (angleArguments hg : Rereads g m s₂ _ _ _ _ fun _ _ _ => True).bind
              fun _ _ _ _ => pure _ _ rfl fun _ _ => trivial
          · obtain ⟨s₂, p₂, rfl, rfl, joint, joint', s₃, p₃, rfl, rfl, -, -, hs₃, hp₃⟩ :
              Spelt [':', ':'] _ _ _ := hp
            refine ⟨?_, fun _ => rfl, fun w hw => .turbofish w hw joint joint' hs₃ hp₃⟩
            exact (Rule.seesArguments_colons ..).trans
              ((hp₃.trans hs₃.symm).trans (Rule.seesArguments_colons ..).symm)
        · refine ((angleArguments hg : Rereads g m s' _ _ _ _ fun _ _ _ => True).bind
            fun _ _ _ _ => pure _ _ rfl fun _ _ => trivial).front_mono fun p h => ?_
          obtain ⟨hlook, hs', hp⟩ := h
          exact ⟨(hlook.arguments hseen hcolons).trans hseen.symm, fun _ => hlook.colons,
            fun w hw => .arguments w hw hs' hp hlook⟩
      · exact pure _ _ rfl fun k hk => ⟨(hk.2 hseen).trans hseen.symm,
          fun h => Bool.noConfusion (hseen.symm.trans h), fun w hw => .bare w hw hk.1⟩
    · obtain ⟨s', p', rfl, rfl, h⟩ := hp
      refine h.2.2 w ?_
      simp only [Bool.or_eq_true, List.contains_cons, List.contains_nil, Bool.or_false, beq_iff_eq] at hw
      exact hw.imp id fun h => by rw [h]; decide

/-- The words of a path are read again; `goesOn` tells whether one more follows. -/
theorem pathSegments (hg : Rereadable g) (inExpression : Bool) (goesOn : List Lexeme → Bool)
    (hword : ∀ joint w ls, goesOn (punct ':' true :: punct ':' joint :: word w :: ls) = true)
    (last : List Lexeme → List Lexeme → Prop) :
    Rereads g m s (Rule.pathSegments inExpression goesOn) (Rule.pathSegments inExpression goesOn) id
      (SegmentsFront last s) fun _ s' k => goesOn s' = false → last s' k ∧
        (Rule.seesArguments inExpression s' = false → Rule.seesArguments inExpression k = false) ∧
        goesOn k = false := by
  -- What is seen behind a word, be it the last or not.
  let loop (s p : List Lexeme) : Prop :=
    (goesOn s = true ∧ Spelt [':', ':'] (SegmentsFront last) s p) ∨
      (goesOn s = false ∧ goesOn p = false ∧ last s p ∧
        (Rule.seesArguments inExpression s = false → Rule.seesArguments inExpression p = false))
  have hloop : ∀ s p, loop s p → goesOn p = goesOn s := by
    rintro s p (⟨hs, s', p', rfl, rfl, joint, joint', s₂, p₂, rfl, rfl, -, h⟩ | ⟨hs, hp, -⟩)
    · obtain ⟨w, s₃, p₃, -, rfl, rfl⟩ := h.word
      exact (hword ..).trans (hword ..).symm
    · rw [hs, hp]
  have harguments : ∀ s p, loop s p → Rule.seesArguments inExpression s = false →
      Rule.seesArguments inExpression p = false := by
    rintro s p (⟨-, s', p', rfl, rfl, joint, joint', s₂, p₂, rfl, rfl, -, h⟩ | h) hs
    · obtain ⟨w, s₃, p₃, -, rfl, rfl⟩ := h.word
      exact (Rule.seesArguments_colons ..).trans rfl
    · exact h.2.2.2 hs
  have hfront : ∀ s p, SegmentFront loop s p → SegmentsFront last s p := by
    rintro s p (⟨w, hw, ⟨-, s', p', rfl, rfl, joint, joint', s₂, p₂, rfl, rfl, -, h⟩ | ⟨-, -, h, -⟩⟩ |
      ⟨w, hw, hs, hp, h⟩ | ⟨w, hw, joint, joint', hs, hp⟩)
    · exact .further w hw joint joint' h
    · exact .single (.bare w hw h)
    · exact .single (.arguments w hw hs hp h)
    · exact .single (.turbofish w hw joint joint' hs hp)
  have hsegment : ∀ s, Rereads g m s (Rule.pathSegment inExpression) (Rule.pathSegment inExpression)
      id (SegmentsFront last s) fun _ => loop := fun s =>
    (pathSegment hg inExpression loop).mono (hfront s) fun _ s' k hk => ⟨hk, harguments s' k hk⟩
  have hmore : ∀ s, Rereads g m s
      (Rule.while_ goesOn do Rule.operator "::"; Rule.pathSegment inExpression)
      (Rule.while_ goesOn do Rule.operator "::"; Rule.pathSegment inExpression) (List.map id) (loop s)
      fun _ s' k => goesOn s' = false → loop s' k := by
    intro s
    refine while_ loop hloop (fun _ _ => .bind_left (operator_solid "::" (by decide))) fun s hs => ?_
    exact operator_then "::" (SegmentsFront last) (fun s' => hsegment s') fun p hp => .inl ⟨hs, hp⟩
  refine (hsegment s).bind fun first first' s' hfirst => (hmore s').bind fun more more' s₂ h =>
    pure _ _ ?_ fun k hk hs => .inr ⟨hs, (hk hs).2.2, (hk hs).1, (hk hs).2.1⟩
  rw [List.map_id, List.map_id] at h
  obtain rfl : first' = first := hfirst
  rw [h]

/-- A path is read again. -/
theorem path (hg : Rereadable g) (inExpression : Bool) (last : List Lexeme → List Lexeme → Prop) :
    Rereads g m s (Rule.path inExpression) (Rule.path inExpression) id (PathFront last s)
      fun _ s' k => (sees "::" s' && !seesGroup .parenthesis (third s')) = false →
        last s' k ∧ PathFollow inExpression s' k := by
  have hwords : ∀ s, Rereads g m s _ _ id (SegmentsFront last s) _ := fun s =>
    pathSegments hg inExpression (fun ls => sees "::" ls && !seesGroup .parenthesis (third ls))
      (fun joint w ls => by rw [third_colons]; rfl) last
  unfold Rule.path
  refine operator? (fun p hp => hp.look.colons) (fun _ => ?_) fun _ => ?_
  · refine operator_then "::" (SegmentsFront last) (fun s' => ?_) fun p hp => .inr hp
    refine (hwords s').bind fun segments segments' s₂ hsegments => ?_
    obtain rfl : segments' = segments := hsegments
    exact pure _ _ rfl fun k hk hs => ⟨(hk hs).1, (hk hs).2.arguments, (hk hs).2.further hs⟩
  · refine ((hwords s).bind fun segments segments' s₂ hsegments => ?_).front_mono fun p hp => .inl hp
    obtain rfl : segments' = segments := hsegments
    exact pure _ _ rfl fun k hk hs => ⟨(hk hs).1, (hk hs).2.arguments, (hk hs).2.further hs⟩

/-- A path is read again that may begin with a type. -/
theorem qualifiedPath (hg : Rereadable g) (inExpression : Bool)
    (last : List Lexeme → List Lexeme → Prop) :
    Rereads g m s (Rule.qualifiedPath inExpression) (Rule.qualifiedPath inExpression) id
      (QualifiedFront last s) fun _ s' k =>
        (sees "::" s' && !seesGroup .parenthesis (third s')) = false →
          last s' k ∧ PathFollow inExpression s' k := by
  -- What stands behind the type: the rest of its brackets.
  let behind (s p : List Lexeme) : Prop :=
    Look s p ∧ TypeFollow s p ∧ Rule.seesColon s = false
  have hrest : ∀ s', Rereads g m s'
      (do
        Rule.operator ">"
        Rule.operator "::"
        let segments ← Rule.pathSegments inExpression (sees "::")
        Pure.pure (⟨segments.length, false, false, segments.getLast?.all (!·), true⟩ : PathShape))
      (do
        Rule.operator ">"
        Rule.operator "::"
        let segments ← Rule.pathSegments inExpression (sees "::")
        Pure.pure (⟨segments.length, false, false, segments.getLast?.all (!·), true⟩ : PathShape))
      id (Spelt ['>'] (fun _ _ => True) s')
      fun _ s' k => (sees "::" s' && !seesGroup .parenthesis (third s')) = false →
        last s' k ∧ PathFollow inExpression s' k := by
    intro s'
    refine operator_then ">" (fun _ _ => True) (fun s₂ => ?_) fun p hp => hp
    refine operator_then "::" (SegmentsFront last) (fun s₃ => ?_) fun _ _ => trivial
    refine (pathSegments hg inExpression (sees "::") (fun _ _ _ => rfl) last).bind
      fun segments segments' s₄ h => ?_
    obtain rfl : segments' = segments := h
    refine pure _ _ rfl fun k hk hs => ?_
    obtain ⟨hlast, hpath⟩ := hk (by rw [hs, Bool.false_and])
    exact ⟨hlast, hpath.arguments, hpath.colons hs⟩
  unfold Rule.qualifiedPath
  dsimp only
  refine operator? (fun p hp => hp.look.char '<') (fun _ => ?_) fun _ => ?_
  · refine operator_then "<" (TypeFront True) (fun s' => ?_) fun p hp => .inr hp
    have htype : Rereads g m s' (Rule.call (.type true)) (Rule.call (.type true)) id
        (TypeFront True s') fun _ => behind :=
      (hg.type m s' true True).follow_mono fun _ _ _ hk => ⟨hk.2.1, fun _ => ⟨hk.1, hk.2.2⟩⟩
    refine htype.bind fun _ _ s₂ _ => ?_
    refine keyword? (fun p hp => hp.1.word _) (fun _ => ?_) fun _ => ?_
    · refine keyword_then "as" (fun _ _ => True) (fun s₃ => ?_) fun p hp => ?_
      · refine ((path hg false fun _ _ => True).bind fun _ _ s₄ _ => ?_).front_mono fun _ _ => trivial
        refine (hrest s₄).front_mono fun p hp _ => ⟨trivial, ?_⟩
        obtain ⟨joint, joint', s₅, p', rfl, rfl, -⟩ := hp
        exact .of_punct (by decide) _ _ _ _
      · refine ⟨hp.look, ?_⟩
        obtain ⟨s₃, p', rfl, rfl, -⟩ := hp
        exact ⟨.of_word "as" s₃ p', rfl⟩
    · refine (hrest s₂).front_mono fun p hp => ?_
      obtain ⟨joint, joint', s₅, p', rfl, rfl, -⟩ := hp
      exact ⟨look_punct (by decide) fun h => absurd h (by decide), .of_punct (by decide) _ _ _, rfl⟩
  · exact (path hg inExpression last).front_mono fun p hp => .inl hp

/-! ### Captured parameters -/

/-- A captured parameter is read again. -/
theorem capturedParameter :
    Rereads g m s
      (do
        let ls ← Rule.ahead
        if seesLifetime ls then
          let _ ← Rule.lifetime
          return true
        else if seesIdentifier ls || seesWord "Self" ls then
          let _ ← Rule.anyWord
          return false
        else Rule.expected [.lifetime, .identifier, .operator ">"])
      (do
        let ls ← Rule.ahead
        if seesLifetime ls then
          let _ ← Rule.lifetime
          return true
        else if seesIdentifier ls || seesWord "Self" ls then
          let _ ← Rule.anyWord
          return false
        else Rule.expected [.lifetime, .identifier, .operator ">"])
      id (Look s) fun _ s' k => AngleStop s' ∧ AngleStop k := by
  refine ahead (.sight (fun _ p hp => hp.lifetime) (fun _ => ?_) fun _ => ?_)
  · exact lifetime_then (fun _ _ => True) (fun _ _ _ => pure _ _ rfl fun _ _ => trivial)
      fun p hp => hp.look
  · refine .sight (fun _ p hp => ?_) (fun _ => ?_) fun _ => .expected _
    · rw [hp.identifier, hp.word]
    · exact anyWord_then (fun _ _ _ => True) (fun _ _ _ _ => pure _ _ rfl fun _ _ => trivial)
        fun w p hp => hp.look

theorem angleSeparator_captures : AngleSeparator g Rule.captureSeparator := by
  refine ⟨fun r hr => ?_, fun r hr => ?_⟩ <;>
    rw [Rule.captureSeparator, Rule.run_bind_of_ok (Rule.run_ahead r), hr]
  · rfl
  · exact Rule.run_expected ..

/-- A list of captured parameters is read again; only the place that it tells may differ. -/
theorem captureList {follow : Nat → List Lexeme → List Lexeme → Prop} :
    Rereads g m s Rule.captureList Rule.captureList (fun _ => ())
      (Worded "use" (fun _ _ => True) s) follow := by
  unfold Rule.captureList
  refine keyword_then "use" (fun _ _ => True) (fun s' => ?_) fun p hp => hp
  refine ((angleBrackets ⟨fun _ _ _ => capturedParameter, fun _ _ => id⟩ angleSeparator_captures :
    Rereads g m s' _ _ _ _ fun _ _ _ => True).bind fun _ _ _ _ => ?_).front_mono fun _ _ => trivial
  exact here fun _ => .pure (fun _ _ => rfl) fun _ _ => trivial

end Rereads

end TypedId.Grammar
