import TypedId.Proofs.Grammar.Atoms

/-!
Functions are read again.

Whether a parameter is a receiver is found out by trying. It can be seen beforehand as well, and a
rule that decides by sight reads the same parameters; that rule is read again.
-/

namespace TypedId.Grammar

open Lexeme Rule

variable {g : PhraseReader} {m : Rendition} {s p k : List Lexeme} {α β γ : Type}

/-! ### Receivers -/

/-- Whether a type with arguments stands alone where a parameter does. -/
def Rule.seesBareType (ls : List Lexeme) : Bool :=
  seesIdentifier ls && sees "<" (second ls)

/-- Reads a type that stands alone, and writes a pattern before it. -/
def Rule.bareType : Rule ArgShape := do
  write [word "_", punct ':' false]
  let _ ← call (.type true)
  return .typed

/-- Reads a parameter that has a pattern. -/
def Rule.patternParameter : Rule ArgShape := do
  let _ ← call .pattern
  operator ":"
  if ← operator? "..." then return .variadic
  else
    let _ ← call (.type true)
    return .typed

/-- Reads a parameter that is no receiver. -/
def Rule.plainParameter : Rule ArgShape := do
  if seesBareType (← ahead) then bareType else patternParameter

/-- Reads a parameter. It is seen whether it is a receiver. -/
def Rule.parameterBySight : Rule ArgShape := do
  if seesReceiver (← ahead) then return .receiver (← receiver)
  else plainParameter

/-- Reads a sign for further parameters, or a parameter. -/
def Rule.argument : Rule ArgShape := do
  if ← operator? "..." then return .variadic else parameter

/-- What is read behind a parameter is read behind what `Rule.argument` reads. -/
theorem Rule.run_argument_then (next : ArgShape → Rule α) (r : Reader) :
    (do if ← operator? "..." then do let shape ← pure .variadic; next shape
        else do let shape ← parameter; next shape : Rule α).run g r = (argument >>= next).run g r := by
  rw [argument, run_bind, run_bind, run_bind]
  cases hrun : (operator? "...").run g r with
  | error fault => rfl
  | ok read =>
      obtain ⟨found, r₁⟩ := read
      cases found with
      | true => rfl
      | false => exact run_bind parameter next r₁

/-- Reads a receiver from its word on. -/
def Rule.receiverFromWord (byReference : Bool) : Rule Nat := do
  let position ← here
  keyword "self"
  unless byReference do
    if ← operator? ":" then let _ ← call (.type true)
  return position

/-- A receiver is read from its word on where the words before it end. -/
theorem Rule.run_receiver (g : PhraseReader) (r : Reader) :
    ∃ r₁, r₁.rest = receiverWord r.rest ∧
      (sees "&" r.rest = false → r₁ = if seesWord "mut" r.rest then r.take 1 [word "mut"] else r) ∧
      receiver.run g r = (receiverFromWord (sees "&" r.rest)).run g r₁ := by
  have hmut : ∀ (r : Reader) (next : Bool → Rule Nat) (rule : Rule Nat), (∀ b, next b = rule) →
      (keyword? "mut" >>= next).run g r =
        rule.run g (if seesWord "mut" r.rest then r.take 1 [word "mut"] else r) := by
    intro r next rule hnext
    cases hmut : seesWord "mut" r.rest with
    | true =>
        obtain ⟨rest, hrest⟩ := Rereads.exists_of_seesWord hmut
        rw [run_bind_of_ok (run_keyword?_of_sees hmut), hnext, hrest]
        rfl
    | false => rw [run_bind_of_ok (run_keyword?_of_not_sees hmut), hnext]; rfl
  have hrest : ∀ r : Reader, (if seesWord "mut" r.rest then r.take 1 [word "mut"] else r).rest =
      dropWord "mut" r.rest := by
    intro r
    rw [dropWord]
    split <;> rfl
  cases hand : sees "&" r.rest with
  | false =>
      refine ⟨_, (hrest r).trans (by rw [receiverWord, hand]; rfl), fun _ => rfl, ?_⟩
      rw [receiver, run_bind_of_ok (run_operator?_of_not_sees hand)]
      exact hmut r _ _ fun _ => rfl
  | true =>
      have hbehind : (r.take 1 (Lexeme.operator "&".toList)).rest = r.rest.drop 1 := rfl
      cases hlifetime : seesLifetime (r.rest.drop 1) with
      | false =>
          refine ⟨_, (hrest (r.take 1 (Lexeme.operator "&".toList))).trans ?_,
            fun h => Bool.noConfusion h, ?_⟩
          · rw [receiverWord, hand, hbehind]
            simp only [if_true, hlifetime, Bool.false_eq_true, if_false]
          · rw [receiver, run_bind_of_ok (run_operator?_of_sees hand)]
            simp only [if_true]
            rw [run_bind_of_ok (run_lifetime?_of_not_sees hlifetime)]
            exact hmut _ _ _ fun _ => rfl
      | true =>
          obtain ⟨w, rest, hw⟩ := Rereads.exists_of_seesLifetime hlifetime
          refine ⟨_, (hrest ((r.take 1 (Lexeme.operator "&".toList)).take 2 (Lexeme.lifetime w))).trans ?_,
            fun h => Bool.noConfusion h, ?_⟩
          · rw [receiverWord, hand]
            simp only [if_true, hlifetime]
            rfl
          · rw [receiver, run_bind_of_ok (run_operator?_of_sees hand)]
            simp only [if_true]
            rw [run_bind_of_ok (run_lifetime?_of_seen hw)]
            exact hmut _ _ _ fun _ => rfl

/-- A receiver without a type is its word. -/
theorem Rule.run_receiverFromWord_of_bare {byReference : Bool} {r : Reader}
    (hself : seesWord "self" r.rest = true) (h : byReference = true ∨ sees ":" (r.rest.drop 1) = false) :
    (receiverFromWord byReference).run g r = .ok (r.position, r.take 1 [word "self"]) := by
  obtain ⟨rest, hrest⟩ := Rereads.exists_of_seesWord hself
  rw [receiverFromWord, run_bind_of_ok (run_here r), run_bind_of_ok (run_keyword_of_sees hself), hrest]
  cases byReference with
  | true => rfl
  | false =>
      have hcolon : sees ":" (r.take 1 [word "self"]).rest = false := h.resolve_left Bool.false_ne_true
      exact run_bind_of_ok (run_operator?_of_not_sees hcolon) _

/-- A receiver with a type fails where the type does. -/
theorem Rule.run_receiverFromWord_of_colon {r : Reader} (hself : seesWord "self" r.rest = true)
    (h : sees ":" (r.rest.drop 1) = true) :
    (receiverFromWord false).run g r = (do let _ ← call (.type true); return r.position : Rule Nat).run g
      ((r.take 1 [word "self"]).take 1 (Lexeme.operator ":".toList)) := by
  obtain ⟨rest, hrest⟩ := Rereads.exists_of_seesWord hself
  rw [receiverFromWord, run_bind_of_ok (run_here r), run_bind_of_ok (run_keyword_of_sees hself), hrest]
  have hcolon : sees ":" (r.take 1 [word "self"]).rest = true := h
  exact run_bind_of_ok (run_operator?_of_sees hcolon) _

theorem Rule.beginsNoType_of_untyped {ls : List Lexeme} (h : (seesColon ls || sees "..." ls) = true) :
    beginsNoType ls = true := by
  rcases (Bool.or_eq_true _ _).mp h with h | h <;> simp [beginsNoType, h]

/-- Where no receiver is seen, none is read. -/
theorem Rule.run_receiver_of_not_sees (hg : Rereadable g) {r : Reader} (h : seesReceiver r.rest = false) :
    ∃ fault, receiver.run g r = .error fault ∧
      (fault.complaint = .tooDeep → ∀ phrase r, ∃ fault, g phrase r = .error fault) := by
  obtain ⟨r₁, hrest, -, hrun⟩ := run_receiver g r
  rw [hrun]
  rw [seesReceiver, ← hrest] at h
  cases hself : seesWord "self" r₁.rest with
  | false =>
      refine ⟨r₁.fault (.keyword "self"), ?_, fun h => by cases h⟩
      rw [receiverFromWord, run_bind_of_ok (run_here r₁), run_bind, keyword,
        run_bind_of_ok (run_ahead r₁), hself]
      simp only [Bool.false_eq_true, if_false, run_complain]
  | true =>
      rw [hself, Bool.true_and, Bool.or_eq_false_iff, Bool.not_eq_false'] at h
      obtain ⟨hand, huntyped⟩ := h
      rw [seesUntyped, Bool.and_eq_true] at huntyped
      obtain ⟨fault, hfault, hdeep⟩ := hg.noType true
        ((r₁.take 1 [word "self"]).take 1 (Lexeme.operator ":".toList))
        (beginsNoType_of_untyped huntyped.2)
      refine ⟨fault, ?_, hdeep⟩
      rw [hand, run_receiverFromWord_of_colon hself huntyped.1, run_bind, run_call, hfault]

/-- Where a receiver is seen and none is read, its type is at fault. -/
theorem Rule.of_run_receiver_error {r : Reader} {fault : Fault} (h : seesReceiver r.rest = true)
    (hrun : receiver.run g r = .error fault) :
    ∃ ws ∈ [["self"], ["mut", "self"]], ∃ rest, r.rest = ws.map word ++ rest ∧ sees ":" rest = true ∧
      seesUntyped rest = false ∧ ∃ fault,
        g (.type true) ((r.take ws.length (ws.map word)).take 1 (Lexeme.operator ":".toList)) =
          .error fault := by
  obtain ⟨r₁, hrest, hr₁, hword⟩ := run_receiver g r
  rw [hword] at hrun
  rw [seesReceiver, ← hrest, Bool.and_eq_true, Bool.or_eq_true, Bool.not_eq_true'] at h
  obtain ⟨hself, htyped⟩ := h
  cases hand : sees "&" r.rest with
  | true =>
      rw [hand, run_receiverFromWord_of_bare hself (.inl rfl)] at hrun
      cases hrun
  | false =>
      have huntyped := htyped.resolve_left (by simp [hand])
      rw [hand] at hrun
      cases hcolon : sees ":" (r₁.rest.drop 1) with
      | false =>
          rw [run_receiverFromWord_of_bare hself (.inr hcolon)] at hrun
          cases hrun
      | true =>
          rw [run_receiverFromWord_of_colon hself hcolon, run_bind, run_call] at hrun
          have htype : ∃ fault, g (.type true)
              ((r₁.take 1 [word "self"]).take 1 (Lexeme.operator ":".toList)) = .error fault := by
            split at hrun
            · cases hrun
            · next fault' hfault => exact ⟨fault', hfault⟩
          obtain ⟨rest, hself⟩ := Rereads.exists_of_seesWord hself
          rw [hself] at hcolon huntyped
          cases hmut : seesWord "mut" r.rest with
          | false =>
              obtain rfl : r₁ = r := by rw [hr₁ hand, hmut]; rfl
              exact ⟨["self"], by simp, rest, hself, hcolon, huntyped, htype⟩
          | true =>
              obtain rfl : r₁ = r.take 1 [word "mut"] := by rw [hr₁ hand, hmut]; rfl
              obtain ⟨rest', hmut⟩ := Rereads.exists_of_seesWord hmut
              obtain rfl : rest' = word "self" :: rest := by
                have hdrop : r.rest.drop 1 = word "self" :: rest := hself
                rwa [hmut] at hdrop
              have htake : (r.take 1 [word "mut"]).take 1 [word "self"] =
                  r.take 2 [word "mut", word "self"] := by
                simp [Reader.take]
              exact ⟨["mut", "self"], by simp, rest, hmut, hcolon, huntyped, htake ▸ htype⟩

/-- Where the type of a receiver is at fault, no other parameter is read. -/
theorem Rule.run_plainParameter_of_receiver (hg : Rereadable g) {ws : List String}
    (hws : ws ∈ [["self"], ["mut", "self"]]) {r : Reader} {rest : List Lexeme}
    (hrest : r.rest = ws.map word ++ rest) (hcolon : sees ":" rest = true)
    (huntyped : seesUntyped rest = false) {fault : Fault}
    (htype : g (.type true) ((r.take ws.length (ws.map word)).take 1 (Lexeme.operator ":".toList)) =
      .error fault) : ∃ fault, plainParameter.run g r = .error fault := by
  have hidentifier : seesIdentifier r.rest = false := by
    rw [hrest]
    simp only [List.mem_cons, List.not_mem_nil, or_false] at hws
    rcases hws with rfl | rfl
    · show isIdentifier "self" = false
      decide
    · show isIdentifier "mut" = false
      decide
  rw [plainParameter, run_bind_of_ok (run_ahead r), seesBareType, hidentifier, Bool.false_and,
    if_neg Bool.false_ne_true, patternParameter, run_bind, run_call]
  cases hpattern : g .pattern r with
  | error fault => exact ⟨fault, rfl⟩
  | ok read =>
      obtain ⟨a, r₁⟩ := read
      obtain rfl := hg.receiver ws hws r rest a r₁ hrest hcolon huntyped hpattern
      have hbehind : (r.take ws.length (ws.map word)).rest = rest := by
        show r.rest.drop ws.length = rest
        rw [hrest, List.drop_left' (by simp)]
      have hdots : sees "..." (rest.drop 1) = false := by
        rw [seesUntyped, hcolon, Bool.true_and, Bool.or_eq_false_iff] at huntyped
        exact huntyped.2
      refine ⟨fault, ?_⟩
      dsimp only
      rw [run_bind_of_ok (run_operator_of_sees (hbehind ▸ hcolon)), run_bind_of_ok
        (run_operator?_of_not_sees
          (show sees "..." ((r.take ws.length (ws.map word)).rest.drop 1) = false from
          hbehind ▸ hdots)), if_neg Bool.false_ne_true, run_bind, run_call]
      rw [show ":".length = 1 from rfl, htype]

/-- Where no phrase is read, no parameter is. -/
theorem Rule.run_plainParameter_of_errors (h : ∀ phrase r, ∃ fault, g phrase r = .error fault) (r : Reader) :
    ∃ fault, plainParameter.run g r = .error fault := by
  have herror : ∀ {α : Type} (phrase : Phrase) (next : phrase.Result → Rule α) (r : Reader),
      ∃ fault, (call phrase >>= next).run g r = .error fault := by
    intro α phrase next r
    obtain ⟨fault, hfault⟩ := h phrase r
    exact ⟨fault, by rw [run_bind, run_call, hfault]⟩
  rw [plainParameter, run_bind_of_ok (run_ahead r)]
  split
  · exact herror _ _ _
  · exact herror _ _ _

theorem Rule.parameter_eq :
    parameter = attempt receiver >>= fun found =>
      found.elim plainParameter fun position => pure (.receiver position) :=
  congrArg (attempt receiver >>= ·) (funext fun found => by cases found <;> rfl)

/-- A parameter is read as sight tells. -/
theorem Rule.run_parameter_iff (hg : Rereadable g) (r : Reader) (x : ArgShape × Reader) :
    parameter.run g r = .ok x ↔ parameterBySight.run g r = .ok x := by
  rw [parameter_eq, parameterBySight, run_bind_of_ok (run_ahead r), run_bind, run_attempt_eq]
  cases hsees : seesReceiver r.rest with
  | false =>
      obtain ⟨fault, hfault, hdeep⟩ := run_receiver_of_not_sees hg hsees
      rw [hfault]
      by_cases hcomplaint : fault.complaint = .tooDeep
      · obtain ⟨fault', hplain⟩ := run_plainParameter_of_errors (hdeep hcomplaint) r
        rw [if_neg Bool.false_ne_true, hplain]
        simp only [if_pos hcomplaint, reduceCtorEq]
      · simp only [if_neg hcomplaint]
        rfl
  | true =>
      rw [if_pos rfl, run_bind]
      cases hrun : receiver.run g r with
      | ok read => rfl
      | error fault =>
          obtain ⟨ws, hws, rest, hrest, hcolon, huntyped, fault', htype⟩ := of_run_receiver_error hsees hrun
          obtain ⟨fault₂, hplain⟩ := run_plainParameter_of_receiver hg hws hrest hcolon huntyped htype
          by_cases hcomplaint : fault.complaint = .tooDeep
          · simp only [if_pos hcomplaint, reduceCtorEq]
          · simp only [if_neg hcomplaint, Option.elim_none, hplain, reduceCtorEq]

/-! ### Beginnings of receivers -/

/-- The word of a receiver, and no colon behind it that no type follows. -/
def SelfFront : List Lexeme → List Lexeme → Prop :=
  Worded "self" fun _ p => seesUntyped p = false

/-- A receiver from behind its `&` and its lifetime. -/
def MutableSelf (s p : List Lexeme) : Prop :=
  Worded "mut" SelfFront s p ∨ SelfFront s p

/-- How a receiver looks at its beginning. -/
def ReceiverFront (s p : List Lexeme) : Prop :=
  Spelt ['&'] (fun s p => Lifelong MutableSelf s p ∨ MutableSelf s p) s p ∨ MutableSelf s p

theorem MutableSelf.look (h : MutableSelf s p) : Look s p :=
  h.elim Worded.look Worded.look

theorem ReceiverFront.look (h : ReceiverFront s p) : Look s p :=
  h.elim (fun h => h.look (by decide) fun _ _ _ h => h.elim Lifelong.look MutableSelf.look) MutableSelf.look

/-- The words up to the word of a receiver may be left out. -/
theorem MutableSelf.receiver (h : MutableSelf s p) :
    seesLifetime p = false ∧ sees "&" p = false ∧ seesWord "self" (dropWord "mut" p) = true ∧
      seesUntyped ((dropWord "mut" p).drop 1) = false := by
  rcases h with ⟨_, _, rfl, rfl, _, p', rfl, rfl, h⟩ | ⟨_, p', rfl, rfl, h⟩ <;> exact ⟨rfl, rfl, rfl, h⟩

theorem ReceiverFront.receiver (h : ReceiverFront s p) : seesReceiver p = true := by
  rcases h with ⟨joint, joint', s', p', rfl, rfl, -, h⟩ | h
  · have hand : sees "&" (punct '&' joint' :: p') = true := rfl
    rw [seesReceiver, hand, Bool.true_or, Bool.and_true, receiverWord, hand, if_pos rfl]
    rcases h with ⟨w, s₂, p₂, rfl, rfl, h⟩ | h
    · exact h.receiver.2.2.1
    · simp only [List.drop_one, List.tail_cons, h.receiver.1, Bool.false_eq_true, if_false]
      exact h.receiver.2.2.1
  · obtain ⟨-, hand, hself, huntyped⟩ := h.receiver
    rw [seesReceiver, receiverWord, hand, if_neg Bool.false_ne_true, hself, huntyped]
    rfl

/-- A parameter that begins with an identifier is no receiver. -/
theorem seesReceiver_of_identifier (h : seesIdentifier s = true) : seesReceiver s = false := by
  obtain ⟨w, s', rfl, hw⟩ := exists_of_seesIdentifier h
  have hne : w ≠ "mut" ∧ w ≠ "self" := by
    constructor <;> rintro rfl <;> exact absurd hw (by decide)
  rw [seesReceiver_word, if_neg hne.1, beq_false_of_ne hne.2, Bool.false_and]

/-- What a parameter tells of itself, without its place. -/
def ArgShape.placeless : ArgShape → ArgShape
  | receiver _ => receiver 0
  | a => a

/-- How a parameter looks at its beginning, or what stands before one. -/
structure ElementStart (s p : List Lexeme) : Prop where
  ends : ends p = ends s
  hash : sees "#" p = sees "#" s

/-- How a parameter looks at its beginning that is no sign for further ones. -/
structure SingleStart (s p : List Lexeme) : Prop extends ElementStart s p where
  variadic : sees "..." p = sees "..." s

theorem Look.single (h : Look s p) : SingleStart s p :=
  ⟨⟨h.ends, h.operator "#" rfl⟩, h.threeDots⟩

/-- How what stands in parentheses looks at its beginning: one more parameter, or the end. -/
def ArgumentsFront (s p : List Lexeme) : Prop :=
  (ends s = false ∧ ends p = false) ∨ Ended s p

theorem ArgumentsFront.ends (h : ArgumentsFront s p) : Grammar.ends p = Grammar.ends s := by
  rcases h with ⟨hs, hp⟩ | h
  · rw [hs, hp]
  · exact Rereads.Ended.ends h

theorem Look.typed (h : Look s p) (hs : Rule.seesColon s = false) (joint : Bool)
    (hdots : sees "..." s = false) : seesUntyped (punct ':' joint :: p) = false := by
  show (true && (Rule.seesColon p || sees "..." p)) = false
  rw [h.seesColon, hs, h.threeDots, hdots]
  rfl

namespace Rereads

theorem Listed.colon (h : Listed s k) : sees ":" s = false ∧ sees ":" k = false := by
  rcases h with ⟨_, _, _, _, rfl, rfl, -⟩ | ⟨_, _, _, rfl, rfl⟩ <;> exact ⟨rfl, rfl⟩

/-- A receiver is read again from its word on; only its place may differ. -/
theorem receiverFromWord (hg : Rereadable g) (byReference : Bool) :
    Rereads g m s (Rule.receiverFromWord byReference) (Rule.receiverFromWord byReference) (fun _ => ())
      (SelfFront s) fun _ => Listed := by
  refine here fun n => .of_forall fun n' _ => ?_
  refine keyword_then "self" (fun _ p => seesUntyped p = false) (fun s' => ?_) fun p hp => hp
  cases byReference with
  | true => exact pure _ _ rfl fun k hk => by rw [seesUntyped, (Listed.colon hk).2, Bool.false_and]
  | false =>
      refine (?_ : Rereads g m s' _ _ _ (fun p => sees ":" p = sees ":" s' ∧ seesUntyped p = false)
        _).front_mono
        fun p hp => hp.2
      refine operator? (fun p hp => hp.1) (fun hs => ?_) fun hs => ?_
      · -- If no type followed, the receiver would not have been read.
        cases htyped : Rule.seesColon (s'.drop 1) || sees "..." (s'.drop 1) with
        | true =>
            refine .of_error fun r hr => ?_
            obtain ⟨fault, hfault, -⟩ := hg.noType true (r.take 1 (Lexeme.operator ":".toList))
              (Rule.beginsNoType_of_untyped (by rw [← htyped, ← hr]; rfl))
            refine ⟨fault, ?_⟩
            rw [Rule.run_bind_of_ok (Rule.run_operator_of_sees (hr ▸ hs)), if_pos rfl,
              Rule.run_bind, Rule.run_call]
            rw [show ":".length = 1 from rfl, hfault]
        | false =>
            rw [Bool.or_eq_false_iff] at htyped
            refine operator_then ":" (TypeFront False) (fun s₂ => ?_) fun p hp => ⟨?_, ?_⟩
            · exact (hg.plainType m s₂ true).bind fun _ _ _ _ => pure _ _ rfl fun k hk => Listed.type hk
            · exact hp.startsWith.2.trans hs.symm
            · obtain ⟨_, joint, _, _, rfl, rfl, -, h⟩ := hp
              exact h.toLook.typed htyped.1 joint htyped.2
      · refine pure _ _ rfl fun k hk => ⟨?_, ?_⟩
        · rw [(Listed.colon hk).2, hs]
        · rw [seesUntyped, (Listed.colon hk).2, Bool.false_and]

/-- A receiver is read again; only its place may differ. -/
theorem receiver (hg : Rereadable g) :
    Rereads g m s Rule.receiver Rule.receiver (fun _ => ()) (ReceiverFront s) fun _ => Listed := by
  have hmutable : ∀ byReference s, Rereads g m s
      (do let _ ← Rule.keyword? "mut"; Rule.receiverFromWord byReference)
      (do let _ ← Rule.keyword? "mut"; Rule.receiverFromWord byReference) (fun _ => ()) (MutableSelf s)
      fun _ => Listed := by
    intro byReference s
    refine keyword? (fun p hp => hp.look.word _) (fun _ => ?_) fun _ => ?_
    · exact keyword_then "mut" SelfFront (fun s' => receiverFromWord hg byReference) fun p hp => .inl hp
    · exact (receiverFromWord hg byReference).front_mono fun p hp => .inr hp
  refine operator? (fun p hp => hp.look.operator "&" rfl) (fun _ => ?_) fun _ => ?_
  · refine operator_then "&" (fun s p => Lifelong MutableSelf s p ∨ MutableSelf s p) (fun s' => ?_)
      fun p hp => .inl hp
    refine lifetime? (fun p hp => (hp.elim Lifelong.look MutableSelf.look).lifetime)
      (fun _ => ?_) fun _ => ?_
    · exact lifetime_then MutableSelf (fun _ _ s₂ => hmutable true s₂) fun p hp => .inl hp
    · exact (hmutable true s').front_mono fun p hp => .inr hp
  · exact (hmutable false s).front_mono fun p hp => .inr hp

/-! ### Parameters -/

/-- A parameter is read again that has a pattern. -/
theorem patternParameter (hg : Rereadable g) :
    Rereads g m s Rule.patternParameter Rule.patternParameter id (PatternFront s) fun _ => Listed := by
  refine (hg.pattern m s).bind fun _ _ s' _ => ?_
  refine operator_then ":" Colonless (fun s₂ => ?_) fun p hp => .of_colon hp fun _ _ h => ⟨h.toLook, h.colon⟩
  refine operator? (fun p hp => hp.threeDots) (fun _ => ?_) fun _ => ?_
  · refine operator_then "..." Listed (fun _ => pure _ _ rfl fun k hk => hk) fun p hp => ⟨hp.lookDots, ?_⟩
    obtain ⟨_, _, rfl, -, -⟩ := hp
    rfl
  · refine ((hg.plainType m s₂ true).bind fun _ _ _ _ => pure _ _ rfl fun k hk => Listed.type hk).front_mono
      fun p hp => ⟨hp.toLook, hp.colon⟩

/-- Where a pattern is written before a type that stands alone, it is read again. -/
theorem run_plainParameter_wildcard (hg : Rereadable g) {phrase : Phrase} {r₀ : Reader}
    {x : phrase.Result × Reader} (hx : g phrase r₀ = .ok x) {q : Reader} {joint : Bool} {p : List Lexeme}
    (hq : q.rest = word "_" :: punct ':' joint :: p) (hp : sees "..." p = false) :
    Rule.plainParameter.run g q = (do let _ ← Rule.call (.type true); return ArgShape.typed).run g
      (q.take 2 [word "_", punct ':' false]) := by
  have hpattern := hg.wildcard phrase r₀ x hx q _ hq
  have hidentifier : seesIdentifier q.rest = false := by
    rw [hq]
    show isIdentifier "_" = false
    decide
  have hcolon : sees ":" (q.take 1 [word "_"]).rest = true := by
    show sees ":" (q.rest.drop 1) = true
    rw [hq]
    rfl
  have htake : (q.take 1 [word "_"]).take 1 (Lexeme.operator ":".toList) =
      q.take 2 [word "_", punct ':' false] := by
    simp [Reader.take, Lexeme.operator]
  have hdots : sees "..." (q.take 2 [word "_", punct ':' false]).rest = false := by
    show sees "..." (q.rest.drop 2) = false
    rw [hq]
    exact hp
  rw [Rule.plainParameter, Rule.run_bind_of_ok (Rule.run_ahead q), Rule.seesBareType, hidentifier,
    Bool.false_and, if_neg Bool.false_ne_true, Rule.patternParameter,
    Rule.run_bind_of_ok ((Rule.run_call _ _).trans hpattern),
    Rule.run_bind_of_ok (Rule.run_operator_of_sees hcolon), show ":".length = 1 from rfl, htake,
    Rule.run_bind_of_ok (Rule.run_operator?_of_not_sees hdots)]
  rfl

/-- A type with arguments that stands alone is read again, with the pattern that is written before
it. -/
theorem bareType (hg : Rereadable g) (hs : Rule.seesBareType s = true) :
    Rereads g m s Rule.bareType Rule.plainParameter id
      (fun p => SingleStart s p ∧ seesReceiver p = false) fun _ => Listed := by
  have hidentifier : seesIdentifier s = true := ((Bool.and_eq_true _ _).mp hs).1
  have htype : Rereads g m s (do let _ ← Rule.call (.type true); return ArgShape.typed)
      (do let _ ← Rule.call (.type true); return ArgShape.typed) id (TypeFront True s) fun _ => Listed :=
    (hg.type m s true True).bind fun _ _ _ _ =>
      pure _ _ rfl fun k hk => ⟨Listed.type hk, fun _ => Listed.colonless hk⟩
  -- What is read again begins with what is written before the type, if that is read again at all.
  let written : List Lexeme := [word "_", punct ':' false]
  let front (p : List Lexeme) : Prop := ∃ p', p = m.text [] written ++ p' ∧ TypeFront True s p'
  have hthen : Rereads g m s
      (Rule.write written >>= fun _ => do let _ ← Rule.call (.type true); return ArgShape.typed)
      (Rule.take (m.text [] written).length written >>= fun _ => do
        let _ ← Rule.call (.type true)
        return ArgShape.typed) id front fun _ => Listed := by
    refine after_then [] written rfl .nil () (fun r hr hstray => ?_) (fun q k hq hq' => ?_) htype
      fun k hk => ⟨k, rfl, hk⟩
    · exact congrArg (fun r => Except.ok ((), r)) (Reader.take_eq_after [] written hr hstray)
    · exact congrArg (fun r => Except.ok ((), r)) (Reader.take_eq_after _ written hq hq')
  refine .of_run fun r a r' hr _ hrun => ?_
  obtain ⟨_, r₁, -, hrun⟩ := Rule.run_bind_eq_ok.mp hrun
  obtain ⟨shape, r₂, hread, -⟩ := Rule.run_bind_eq_ok.mp hrun
  rw [Rule.run_call] at hread
  refine (hthen.congr (fun _ _ => rfl) fun q hq => ?_).front_mono fun p hp => ?_
  · obtain ⟨p', hq, hp⟩ := hq
    cases m with
    | source =>
        have hbare : Rule.seesBareType q.rest = true := by
          rw [hq]
          show (seesIdentifier p' && sees "<" (second p')) = true
          rw [hp.identifier, (hp.second trivial (seesAnyWord_of_identifier hidentifier)).1.operator "<" rfl]
          exact hs
        rw [Rule.plainParameter, Rule.run_bind_of_ok (Rule.run_ahead q), if_pos hbare]
        rfl
    | written =>
        refine run_plainParameter_wildcard hg hread hq (hp.threeDots.trans ?_)
        obtain ⟨w, s', rfl, -⟩ := exists_of_seesIdentifier hidentifier
        rfl
  · obtain ⟨p', rfl, hp⟩ := hp
    cases m with
    | source => exact ⟨hp.toLook.single, seesReceiver_of_identifier (hp.identifier.trans hidentifier)⟩
    | written =>
        obtain ⟨w, s', rfl, -⟩ := exists_of_seesIdentifier hidentifier
        refine ⟨⟨⟨rfl, rfl⟩, rfl⟩, ?_⟩
        show seesReceiver (word "_" :: punct ':' false :: p') = false
        rw [seesReceiver_word]
        rfl

/-- A parameter that is no receiver is read again. -/
theorem plainParameter (hg : Rereadable g) :
    Rereads g m s Rule.plainParameter Rule.plainParameter id
      (fun p => SingleStart s p ∧ (seesReceiver s = false → seesReceiver p = false)) fun _ => Listed := by
  have hrun : ∀ {b} {q : Reader}, Rule.seesBareType q.rest = b → Rule.plainParameter.run g q =
      (if b = true then Rule.bareType else Rule.patternParameter).run g q := by
    rintro b q rfl
    rw [Rule.plainParameter, Rule.run_bind_of_ok (Rule.run_ahead q)]
  cases hs : Rule.seesBareType s with
  | true =>
      exact ((bareType hg hs).congr (fun r hr => hrun (hr ▸ hs)) fun _ _ => rfl).front_mono
        fun p hp => ⟨hp.1, fun _ => hp.2⟩
  | false =>
      have hbare : ∀ {p}, PatternFront s p → Rule.seesBareType p = false := by
        intro p hp
        rw [Rule.seesBareType, hp.identifier]
        cases hidentifier : seesIdentifier s with
        | false => rfl
        | true =>
            rw [hp.less hidentifier]
            rwa [Rule.seesBareType, hidentifier] at hs
      exact ((patternParameter hg).congr (fun r hr => hrun (hr ▸ hs)) fun q hq => hrun (hbare hq)).front_mono
        fun p hp => ⟨hp.toLook.single, hp.receiver⟩

/-- A parameter is read again; only the place that it tells may differ. -/
theorem parameter (hg : Rereadable g) :
    Rereads g m s Rule.parameter Rule.parameter ArgShape.placeless (SingleStart s) fun _ => Listed := by
  have hsight : Rereads g m s Rule.parameterBySight Rule.parameterBySight ArgShape.placeless
      (fun p => SingleStart s p ∧ seesReceiver p = seesReceiver s) fun _ => Listed := by
    refine ahead (.sight (fun _ p hp => hp.2) (fun hs => ?_) fun hs => ?_)
    · refine (?_ : Rereads g m s _ _ _ (ReceiverFront s) fun _ => Listed).front_mono fun p hp => ?_
      · exact (receiver hg).bind fun _ _ _ _ => pure _ _ rfl fun k hk => hk
      · exact ⟨hp.look.single, hp.receiver.trans hs.symm⟩
    · refine ((plainParameter hg).keep_mono fun _ _ => congrArg _).front_mono fun p hp => ?_
      exact ⟨hp.1, (hp.2 hs).trans hs.symm⟩
  exact (hsight.congr_ok (fun r x _ => (Rule.run_parameter_iff hg r x).mp)
    fun q x _ => (Rule.run_parameter_iff hg q x).mpr).front_mono fun p hp => hp.1

/-- A sign for further parameters is read again, or a parameter. -/
theorem argument (hg : Rereadable g) :
    Rereads g m s Rule.argument Rule.argument ArgShape.placeless (ElementStart s) fun _ => Listed := by
  refine (?_ : Rereads g m s _ _ _ (SingleStart s) _).front_mono fun p hp => hp.toElementStart
  refine operator? (fun p hp => hp.variadic) (fun _ => ?_) fun _ => parameter hg
  exact operator_then "..." Listed (fun _ => pure _ _ rfl fun k hk => hk) fun p hp => hp.lookDots.single

/-- The comma behind a parameter is read again, unless that is the last. -/
theorem commaUnlessLast :
    Rereads g m s Rule.commaUnlessLast Rule.commaUnlessLast id (Listed s) fun _ => ArgumentsFront := by
  unfold Rule.commaUnlessLast
  refine ahead (.sight (fun _ p hp => Listed.ends hp) (fun hs => pure _ _ rfl fun k hk => ?_) fun _ => ?_)
  · exact .inr (hk.resolve_left fun h => Bool.noConfusion (h.1.symm.trans hs))
  · exact (operator ",").front_mono fun p hp => .inl (hp.mono fun _ _ _ => trivial)

/-! ### Parameters in parentheses -/

theorem type_solid (hg : Rereadable g) (plus : Bool) (hs : s ≠ []) :
    Solid g m s (Rule.call (.type plus)) fun _ => True := by
  refine (hg.plainType m s plus).solid (fun _ s' _ => .of_nil s') fun _ _ _ _ _ _ hp => hs ?_
  simpa using hp.empty.symm

theorem bareType_solid (hg : Rereadable g) (hs : s ≠ []) :
    Solid g m s Rule.bareType fun _ => True := by
  intro htidy r a r' hr hb hrun hstray _
  obtain ⟨_, r₁, hwrite, hrun⟩ := Rule.run_bind_eq_ok.mp hrun
  obtain rfl : r.take 0 [word "_", punct ':' false] = r₁ := (Prod.mk.inj (Except.ok.inj hwrite)).2
  obtain ⟨shape, r₂, htype, hrun⟩ := Rule.run_bind_eq_ok.mp hrun
  cases hrun
  cases m with
  | source =>
      have hsolid : Solid g .source s (Rule.call (.type true)) fun _ => True := type_solid hg true hs
      exact hsolid htidy (r.take 0 [word "_", punct ':' false]) shape r' hr hb htype hstray trivial
  | written =>
      have hon := (Rule.call (.type true)).run_getsOn htidy _ _ _ htype
      refine Nat.lt_of_lt_of_le ?_ hon.written.length_le
      show r.written.length < ([word "_", punct ':' false].reverse ++ r.written).length
      simp only [List.reverse_cons, List.reverse_nil, List.nil_append, List.cons_append, List.length_cons]
      omega

theorem receiver_solid : Solid g m s Rule.receiver fun _ => True := by
  have hword : ∀ b s, Solid g m s (Rule.receiverFromWord b) fun _ => True := fun b s =>
    .bind_right fun _ _ => .bind_left (keyword_solid "self")
  have hmutable : ∀ b s,
      Solid g m s (do let _ ← Rule.keyword? "mut"; Rule.receiverFromWord b) fun _ => True :=
    fun b s => .bind_right fun _ s' => hword b s'
  refine .bind_right fun b s' => ?_
  cases b with
  | true => exact .bind_right fun _ s₂ => hmutable true s₂
  | false => exact hmutable false s'

theorem parameter_solid (hg : Rereadable g) : Solid g m s Rule.parameter fun _ => True := by
  have hsight : Solid g m s Rule.parameterBySight fun _ => True := by
    refine .ahead (.ite (fun _ => .bind_left receiver_solid) fun _ =>
      .ahead (.ite (fun hs => ?_) fun _ => ?_))
    · refine bareType_solid hg fun h => ?_
      rw [h] at hs
      cases hs
    · exact .bind_right fun _ _ => .bind_left (operator_solid ":" (by decide))
  exact hsight.congr fun r x _ => (Rule.run_parameter_iff hg r x).mp

theorem argument_solid (hg : Rereadable g) : Solid g m s Rule.argument fun _ => True := by
  intro htidy r a r' hr hb hrun hstray _
  cases hsees : sees "..." r.rest with
  | true =>
      rw [Rule.argument, Rule.run_bind_of_ok (Rule.run_operator?_of_sees hsees)] at hrun
      cases hrun
      exact operator_solid "..." (by decide) htidy r () _ hr hb
        (Rule.run_operator_of_sees hsees) hstray trivial
  | false =>
      rw [Rule.argument, Rule.run_bind_of_ok (Rule.run_operator?_of_not_sees hsees)] at hrun
      exact parameter_solid hg htidy r a r' hr hb hrun hstray trivial

/-- The comma behind a parameter is read again, and then no more. -/
theorem commaThen (y : Bool × Bool ⊕ Unit) :
    Rereads g m s (do Rule.commaUnlessLast; return y) (do Rule.commaUnlessLast; return y) (Sum.map id id)
      (Listed s) (stepFollow (fun _ => ArgumentsFront) fun _ => Ended) := by
  refine commaUnlessLast.bind fun _ _ _ _ => pure _ _ rfl fun k hk => ?_
  cases y with
  | inl x => exact hk
  | inr u => exact .inr hk

/-- The parameters of a function are read again. -/
theorem parameters (hg : Rereadable g) :
    Rereads g m s Rule.parameters Rule.parameters id (ArgumentsFront s) fun _ => Ended := by
  unfold Rule.parameters
  refine repeating id (fun _ => ArgumentsFront) (fun _ => ArgumentsFront)
    (fun x x' s hx => ?_) (fun _ _ _ => id)
    (fun x s => ?_) rfl
  · obtain rfl : x' = x := hx
    obtain ⟨first, received⟩ := x'
    dsimp only
    refine ahead (.sight (fun _ p hp => hp.ends) (fun _ => pure _ _ rfl fun k hk => .inr hk) fun hs => ?_)
    refine (outerAttributes hg ElementStart).bind_id (fun _ s₁ => ?_) fun p hp => .inl ⟨hs, ?_⟩
    · refine (?_ : Rereads g m s₁ _ _ _ (ElementStart s₁) _).front_mono fun p hp hs => ⟨hp, hp.hash.trans hs⟩
      refine ((argument hg).bind fun shape shape' s₂ hshape => ?_).congr
        (fun r _ => Rule.run_argument_then _ r) fun q _ => Rule.run_argument_then _ q
      cases shape with
      | receiver n =>
          cases shape' with
          | receiver n' =>
              refine .ite (fun _ _ _ => Iff.rfl) (fun _ => .fail_then _ _) fun _ => ?_
              refine .ite (fun _ _ _ => Iff.rfl) (fun _ => .fail_then _ _) fun _ => ?_
              exact commaThen _
          | typed | variadic => cases hshape
      | typed =>
          cases shape' with
          | typed => exact commaThen _
          | receiver | variadic => cases hshape
      | variadic =>
          cases shape' with
          | variadic => exact commaThen _
          | receiver | typed => cases hshape
    · rcases hp with hp | ⟨-, -, hp⟩
      · obtain ⟨_, _, _, _, -, rfl, -⟩ := hp
        rfl
      · rw [hp.ends, hs]
  · refine .ahead (.ite (fun _ => .pure (by simp)) fun _ => .bind_right fun _ s₁ => ?_)
    exact Solid.congr (.bind_left (argument_solid hg)) fun r y _ h =>
      (Rule.run_argument_then _ r).symm.trans h

end Rereads

/-! ### Signatures -/

/-- One of the words that may stand before the word of a function, or the name of a calling
convention. -/
def IsQualifier (l : Lexeme) : Prop :=
  (∃ w ∈ ["const", "async", "safe", "unsafe", "extern"], l = word w) ∨ ∃ text, l = literal text

/-- Both texts begin alike up to the word of a function. -/
def SignatureFront (s p : List Lexeme) : Prop :=
  ∃ ls s' p', (∀ l ∈ ls, IsQualifier l) ∧ s = ls ++ word "fn" :: s' ∧ p = ls ++ word "fn" :: p'

theorem SignatureFront.of_word (h : Worded "fn" (fun _ _ => True) s p) : SignatureFront s p := by
  obtain ⟨s', p', rfl, rfl, -⟩ := h
  exact ⟨[], s', p', fun _ h => absurd h List.not_mem_nil, rfl, rfl⟩

theorem SignatureFront.cons {l : Lexeme} (h : SignatureFront s p) (hl : IsQualifier l) :
    SignatureFront (l :: s) (l :: p) := by
  obtain ⟨ls, s', p', hls, rfl, rfl⟩ := h
  exact ⟨l :: ls, s', p', List.forall_mem_cons.mpr ⟨hl, hls⟩, rfl, rfl⟩

theorem SignatureFront.look (h : SignatureFront s p) : Look s p := by
  obtain ⟨ls, s', p', hls, rfl, rfl⟩ := h
  cases ls with
  | nil => exact look_word _ _ _
  | cons l ls =>
      rcases hls l List.mem_cons_self with ⟨w, -, rfl⟩ | ⟨text, rfl⟩
      · exact look_word w _ _
      · exact look_literal text _ _

/-- What stands behind the first lexeme, unless that is the word of a function. -/
theorem SignatureFront.drop (h : SignatureFront s p) (hs : seesWord "fn" s = false) :
    SignatureFront (s.drop 1) (p.drop 1) := by
  obtain ⟨ls, s', p', hls, rfl, rfl⟩ := h
  cases ls with
  | nil => cases hs
  | cons l ls => exact ⟨ls, s', p', fun l hl => hls l (List.mem_cons_of_mem _ hl), rfl, rfl⟩

theorem seesWord_ne {v w : String} (h : seesWord v s = true) (hne : v ≠ w) : seesWord w s = false := by
  obtain ⟨s', rfl⟩ := Rereads.exists_of_seesWord h
  exact beq_false_of_ne hne

theorem SignatureFront.dropWord {w : String} (h : SignatureFront s p) (hw : w ≠ "fn") :
    SignatureFront (Rule.dropWord w s) (Rule.dropWord w p) := by
  rw [Rule.dropWord, Rule.dropWord, h.look.word w]
  split
  · next hs => exact h.drop (seesWord_ne hs hw)
  · exact h

theorem SignatureFront.dropConvention (h : SignatureFront s p) :
    SignatureFront (Rule.dropConvention s) (Rule.dropConvention p) := by
  rw [Rule.dropConvention, Rule.dropConvention, h.look.word "extern"]
  split
  · next hs =>
    have hbehind := h.drop (seesWord_ne hs (by decide))
    dsimp only
    rw [hbehind.look.text]
    split
    · next htext =>
      refine hbehind.drop (Bool.eq_false_iff.mpr fun hfn => ?_)
      obtain ⟨_, hfn⟩ := Rereads.exists_of_seesWord hfn
      rw [hfn] at htext
      cases htext
    · exact hbehind
  · exact h

/-- A function comes next in both texts, or in none. -/
theorem SignatureFront.sees (h : SignatureFront s p) (safe : Bool) :
    seesSignature safe p = seesSignature safe s := by
  have hasync := (h.dropWord (w := "const") (by decide)).dropWord (w := "async") (by decide)
  rw [seesSignature, seesSignature, hasync.look.word "safe"]
  split
  · next hsafe =>
    have hword := ((Bool.and_eq_true _ _).mp hsafe).2
    exact (hasync.drop (seesWord_ne hword (by decide))).dropConvention.look.word "fn"
  · exact (hasync.dropWord (by decide)).dropConvention.look.word "fn"

/-- What stands behind a signature: a block or a semicolon. -/
def BodyEnd (s k : List Lexeme) : Prop :=
  Bracketed .brace s k ∨ Spelt [';'] (fun _ _ => True) s k

theorem BodyEnd.clause (h : BodyEnd s k) : ClauseEnd s k :=
  h.elim .brace .semicolon

theorem BodyEnd.look (h : BodyEnd s k) : Look s k :=
  h.elim Opened.look fun h => h.look (by decide) fun h => absurd h (by decide)

theorem BodyEnd.not_where (h : BodyEnd s k) : seesWord "where" s = false ∧ seesWord "where" k = false := by
  rcases h with ⟨_, _, rfl, rfl, -⟩ | ⟨_, _, _, _, rfl, rfl, -⟩ <;> exact ⟨rfl, rfl⟩

/-- Nothing that a type goes on with comes new where conditions may be left out. -/
theorem BodyEnd.type_of_where (h : WhereFront m BodyEnd BodyEnd s k) : TypeFollow s k := by
  have hend : ∀ {s s' k : List Lexeme}, BodyEnd s' k → TypeFollow s k := by
    rintro s s' k (⟨_, _, rfl, rfl, -⟩ | ⟨_, _, _, _, rfl, rfl, -⟩)
    · exact .of_brace _ _
    · exact .of_punct (by decide) _ _ _
  rcases h with ⟨_, _, rfl, rfl, -⟩ | ⟨-, -, s', h⟩ | ⟨-, h⟩
  · exact .of_word _ _ _
  · exact hend h
  · exact hend h

namespace Rereads

/-- The conditions before a block or a semicolon are read again. -/
theorem bodyConditions (hg : Rereadable g) :
    Rereads g m s Rule.whereClause Rule.whereClause (fun _ => ()) (WhereFront m BodyEnd BodyEnd s)
      fun _ => BodyEnd :=
  (whereClause hg (fun _ => ()) (fun _ _ => BodyEnd.clause) BodyEnd).follow_mono fun _ _ _ hk =>
    ⟨fun _ => rfl, fun _ => hk, fun _ => ⟨hk, hk.not_where.2⟩⟩

/-- A word that may stand before the word of a function is read again. -/
theorem qualifier? {w : String} (hw : w ∈ ["const", "async", "safe", "unsafe", "extern"])
    {next next' : Bool → Rule α} {keep : α → γ} {follow : α → List Lexeme → List Lexeme → Prop}
    (h : ∀ found s', Rereads g m s' (next found) (next' found) keep (SignatureFront s') follow) :
    Rereads g m s (Rule.keyword? w >>= next) (Rule.keyword? w >>= next') keep (SignatureFront s) follow := by
  refine keyword? (fun p hp => hp.look.word w) (fun _ => ?_) fun _ => h false s
  refine keyword_then w SignatureFront (h true) ?_
  rintro p ⟨s', p', rfl, rfl, hp⟩
  exact hp.cons (.inl ⟨w, hw, rfl⟩)

/-- The calling convention of a function is read again, which may be left out. -/
theorem signatureConvention :
    Rereads g m s Rule.convention? Rule.convention? id (SignatureFront s)
      fun _ => Worded "fn" fun _ _ => True := by
  unfold Rule.convention?
  refine ahead (.sight (fun _ p hp => hp.look.word _) (fun _ => ?_) fun _ => ?_)
  · refine keyword_then "extern" SignatureFront (fun s' => ?_) ?_
    · refine ahead (.sight (fun _ p hp => hp.look.text) (fun htext => ?_) fun _ => ?_)
      · refine literal.front_mono fun p hp => ?_
        cases hp with
        | plain text h => exact (SignatureFront.of_word h).cons (.inr ⟨text, rfl⟩)
        | truth w hw h => cases htext
        | negative text joint joint' hnumber h => cases htext
      · exact pure _ _ rfl fun k hk => .of_word hk
    · rintro p ⟨s', p', rfl, rfl, hp⟩
      exact hp.cons (.inl ⟨"extern", by decide, rfl⟩)
  · exact pure _ _ rfl fun k hk => .of_word hk

/-- A signature is read again from the word of the function on. -/
theorem signatureFromWord (hg : Rereadable g) (safe : Bool) :
    Rereads g m s
      (do
        Rule.keyword "fn"
        let name ← Rule.identifier
        let _ ← Rule.genericParameters
        Rule.defer (Rule.within .parenthesis Rule.parameters) fun _ => do
          Rule.returnType true
          let _ ← Rule.whereClause
          return (name, safe))
      (do
        Rule.keyword "fn"
        let name ← Rule.identifier
        let _ ← Rule.genericParameters
        Rule.defer (Rule.within .parenthesis Rule.parameters) fun _ => do
          Rule.returnType true
          let _ ← Rule.whereClause
          return (name, safe))
      (Prod.map Name.text id) (Worded "fn" (fun _ _ => True) s) fun _ => BodyEnd := by
  refine keyword_then "fn" (fun _ _ => True) (fun s₁ => ?_) fun p hp => hp
  refine identifier_then (fun _ _ _ => True) (fun w n n' s₂ => ?_) fun _ _ _ _ => trivial
  refine (genericParameters hg fun _ => ()).bind fun _ _ s₃ _ => ?_
  refine (?_ : Rereads g m s₃ _ _ _ (Bracketed .parenthesis s₃) _).front_mono fun p hp => ⟨fun _ => rfl, ?_⟩
  · refine .defer ((within ArgumentsFront (fun s₄ _ => parameters hg) : Rereads g m s₃ _ _ _ _
      fun _ s p => sees "->" p = sees "->" s).bind_id (fun _ s₄ => ?_) fun p hp => hp.bracketed)
    refine (returnType hg true).bind_id (fun _ s₅ => ?_) fun p hp => hp
    refine (?_ : Rereads g m s₅ _ _ _ (WhereFront m BodyEnd BodyEnd s₅) fun _ => BodyEnd).front_mono
      fun p hp => BodyEnd.type_of_where hp
    exact (bodyConditions hg).bind fun _ _ _ _ => pure _ _ rfl fun k hk => hk
  · obtain ⟨_, _, -, rfl, -⟩ := hp
    rfl

/-- A signature is read again; only the place of the name may differ. -/
theorem signature (hg : Rereadable g) (safe : Bool) :
    Rereads g m s (Rule.signature safe) (Rule.signature safe) (Prod.map Name.text id) (SignatureFront s)
      fun _ => BodyEnd := by
  have hfrom : ∀ declaredSafe s,
      Rereads g m s _ _ (Prod.map Name.text id) (SignatureFront s) fun _ => BodyEnd :=
    fun declaredSafe s => (signatureConvention (g := g) (m := m)).bind_id
      (fun _ s' => signatureFromWord hg declaredSafe) fun p hp => hp
  unfold Rule.signature
  refine qualifier? (by decide) fun _ s₁ => qualifier? (by decide) fun _ s₂ => ?_
  cases safe with
  | true =>
      refine qualifier? (by decide) fun declaredSafe s₃ => ?_
      cases declaredSafe with
      | true => exact hfrom true s₃
      | false => exact qualifier? (by decide) fun _ s₄ => hfrom false s₄
  | false => exact qualifier? (by decide) fun _ s₃ => hfrom false s₃

end Rereads

end TypedId.Grammar
