import TypedId.Proofs.Grammar.Likeness
import TypedId.Proofs.Grammar.Rereading

/-!
The elements of a text are read again: operators, words, literals and groups.
-/

namespace TypedId.Grammar.Rereads

open Lexeme

variable {g : PhraseReader} {m : Rendition} {s : List Lexeme} {α β γ δ : Type}

/-! ### Operators -/

theorem length_operator (cs : List Char) : (Lexeme.operator cs).length = cs.length := by
  induction cs with
  | nil => rfl
  | cons c cs ih =>
      cases cs with
      | nil => rfl
      | cons d cs => simpa [Lexeme.operator] using ih

/-- Where an operator is seen, its characters stand, and they can be told from any text that begins
with them, in the same spelling or as they are written. -/
theorem spelt_of_startsWith {cs : List Char} (h : startsWith cs s = true) :
    ∃ taken s', s = taken ++ s' ∧ taken.length = cs.length ∧ Closed taken ∧
      (∀ k, startsWith cs (taken ++ k) = true) ∧
      (∀ k, startsWith cs (Lexeme.operator cs ++ k) = true) ∧
      ∀ (m : Rendition) (rest : List Lexeme → List Lexeme → Prop) k, rest s' k →
        Spelt cs rest s (m.text taken (Lexeme.operator cs) ++ k) := by
  induction cs generalizing s with
  | nil =>
      refine ⟨[], s, rfl, rfl, .nil, fun _ => rfl, fun _ => rfl, fun m rest k h => ?_⟩
      simpa [Lexeme.operator, Spelt] using h
  | cons c cs ih =>
      cases s with
      | nil => cases cs <;> cases h
      | cons l s =>
          cases l with
          | punct d joint =>
              cases cs with
              | nil =>
                  obtain rfl : c = d := by simpa [startsWith] using h
                  refine ⟨[punct c joint], s, rfl, rfl, .punct c joint, fun k => by simp [startsWith],
                    fun k => by simp [startsWith, Lexeme.operator], fun m rest k hk => ?_⟩
                  cases m
                  · exact ⟨joint, joint, s, k, rfl, rfl, id, hk⟩
                  · exact ⟨joint, false, s, k, rfl, rfl, by simp, hk⟩
              | cons e cs =>
                  simp only [startsWith, Bool.and_eq_true, beq_iff_eq] at h
                  obtain ⟨⟨rfl, rfl⟩, h⟩ := h
                  obtain ⟨taken, s', rfl, hlen, hclosed, hsrc, hwritten, hspelt⟩ := ih h
                  refine ⟨punct c true :: taken, s', rfl, by simp [hlen],
                    (Closed.punct c true).append hclosed, fun k => ?_, fun k => ?_,
                    fun m rest k hk => ?_⟩
                  · simpa [startsWith] using hsrc k
                  · simpa [startsWith, Lexeme.operator] using hwritten k
                  · have htext : m.text (punct c true :: taken) (Lexeme.operator (c :: e :: cs)) =
                        punct c true :: m.text taken (Lexeme.operator (e :: cs)) := by
                      cases m <;> rfl
                    rw [htext]
                    exact ⟨_, _, rfl, rfl, hspelt m rest k hk⟩
          | word => cases cs <;> cases h
          | literal => cases cs <;> cases h
          | opening => cases cs <;> cases h
          | closing => cases cs <;> cases h

/-- An operator is read again. -/
theorem operator (text : String) {follow : Unit → List Lexeme → List Lexeme → Prop} :
    Rereads g m s (Rule.operator text) (Rule.operator text) id (Spelt text.toList (follow ()) s)
      follow := by
  intro hg r a r' hs hb hrun hstray
  obtain ⟨hsees, rfl⟩ := Rule.run_operator_eq_ok.mp hrun
  rw [hs] at hsees
  obtain ⟨taken, s', hsplit, hlen, hclosed, hsource, hwritten, hspelt⟩ := spelt_of_startsWith hsees
  rw [String.length_toList] at hlen
  have hafter : r.take text.length (Lexeme.operator text.toList) =
      r.after taken (Lexeme.operator text.toList) s' :=
    hlen ▸ Reader.take_eq_after taken _ (hs.trans hsplit) hstray
  refine ⟨taken, _, hclosed, hstray, by rw [hafter, hsplit]; rfl, by rw [hafter]; rfl, ?_⟩
  intro q k hq hq' hk
  refine ⟨hq ▸ hspelt m _ k (by rw [hafter] at hk; exact hk), (), rfl, ?_⟩
  have hsees' : sees text q.rest = true := by
    rw [hq, sees]
    cases m
    · exact hsource k
    · exact hwritten k
  have hlen' : (m.text taken (Lexeme.operator text.toList)).length = text.length := by
    cases m
    · exact hlen
    · exact (length_operator _).trans String.length_toList
  rw [Rule.run_operator_of_sees hsees', ← hlen', Reader.take_eq_after _ _ hq hq']

/-- An operator is read again, and then something else. -/
theorem operator_then (text : String) (inner : List Lexeme → List Lexeme → Prop)
    {next next' : Unit → Rule α} {keep : α → γ} {front : List Lexeme → Prop}
    {follow : α → List Lexeme → List Lexeme → Prop}
    (h : ∀ s', Rereads g m s' (next ()) (next' ()) keep (inner s') follow)
    (hfront : ∀ p, Spelt text.toList inner s p → front p) :
    Rereads g m s (Rule.operator text >>= next) (Rule.operator text >>= next') keep front follow :=
  ((operator text).bind fun _ _ s' _ => h s').front_mono hfront

/-- An operator of one character is read again, and then something else. -/
theorem operator_then_of_cons {c : Char} {joint : Bool} {s' : List Lexeme} (text : String)
    (htext : text.toList = [c]) {inner : List Lexeme → Prop} {next next' : Unit → Rule α} {keep : α → γ}
    {follow : α → List Lexeme → List Lexeme → Prop}
    (h : Rereads g m s' (next ()) (next' ()) keep inner follow) :
    Rereads g m (punct c joint :: s') (Rule.operator text >>= next) (Rule.operator text >>= next') keep
      (Spelt [c] (fun s p => s = s' ∧ inner p) (punct c joint :: s')) follow := by
  have hlength : text.length = 1 := by rw [← String.length_toList, htext]; rfl
  have hrun : ∀ (r : Reader) joint rest, r.rest = punct c joint :: rest → r.stray = none →
      (Rule.operator text).run g r = .ok ((), r.after [punct c joint] [punct c false] rest) := by
    intro r joint rest hr hstray
    have hsees : sees text r.rest = true := by
      rw [hr, sees, htext]
      simp [startsWith]
    rw [Rule.run_operator_of_sees hsees, hlength, htext]
    exact congrArg (fun q => Except.ok ((), q)) (Reader.take_eq_after [punct c joint] _ hr hstray)
  refine after_then [punct c joint] [punct c false] rfl (.punct c joint) ()
    (fun r hr hstray => hrun r joint s' hr hstray) (fun q k hq hq' => ?_) h fun k hk => ?_
  · cases m
    · exact hrun q joint k hq hq'
    · exact hrun q false k hq hq'
  · cases m
    · exact ⟨joint, joint, s', k, rfl, rfl, id, rfl, hk⟩
    · exact ⟨joint, false, s', k, rfl, rfl, by simp, rfl, hk⟩

/-- An operator that may be left out: a rule does one thing where it is seen and another where it is
not. -/
theorem operator? {text : String} {next next' : Bool → Rule α} {keep : α → γ}
    {front : List Lexeme → Prop} {follow : α → List Lexeme → List Lexeme → Prop}
    (hfront : ∀ p, front p → sees text p = sees text s)
    (hseen : sees text s = true →
      Rereads g m s (Rule.operator text >>= fun _ => next true)
        (Rule.operator text >>= fun _ => next' true) keep front follow)
    (hunseen : sees text s = false →
      Rereads g m s (next false) (next' false) keep front follow) :
    Rereads g m s (Rule.operator? text >>= next) (Rule.operator? text >>= next') keep front follow := by
  cases hs : sees text s with
  | true =>
      have hrun : ∀ (f : Bool → Rule α) (r : Reader), sees text r.rest = true →
          (Rule.operator? text >>= f).run g r =
            (Rule.operator text >>= fun _ => f true).run g r := by
        intro f r hr
        rw [Rule.run_bind_of_ok (Rule.run_operator?_of_sees hr),
          Rule.run_bind_of_ok (Rule.run_operator_of_sees hr)]
      exact (hseen hs).congr (fun r hr => hrun next r (hr ▸ hs))
        fun q hq => hrun next' q ((hfront _ hq).trans hs)
  | false =>
      exact (hunseen hs).congr
        (fun r hr => Rule.run_bind_of_ok (Rule.run_operator?_of_not_sees (hr ▸ hs)) _)
        fun q hq => Rule.run_bind_of_ok (Rule.run_operator?_of_not_sees ((hfront _ hq).trans hs)) _

/-! ### Words -/

/-- One lexeme that is no delimiter, taken as it is. -/
theorem single {rule rule' : Rule α} {keep : α → γ} {front : List Lexeme → Prop}
    {follow : α → List Lexeme → List Lexeme → Prop} {l : Lexeme} {s' : List Lexeme}
    (hs : s = l :: s') (hclosed : Closed [l]) (value value' : Nat → α)
    (hkeep : ∀ n n', keep (value' n') = keep (value n))
    (hrun : ∀ r, r.rest = s → rule.run g r = .ok (value r.position, r.take 1 [l]))
    (hrun' : ∀ q k, q.rest = l :: k → rule'.run g q = .ok (value' q.position, q.take 1 [l]))
    (hfront : ∀ n k, follow (value n) s' k → front (l :: k)) :
    Rereads g m s rule rule' keep front follow := by
  have htake : ∀ (r : Reader) rest, r.rest = l :: rest → r.stray = none →
      r.take 1 [l] = r.after [l] [l] rest :=
    fun r rest h hr => Reader.take_eq_after [l] [l] h hr
  refine .of_after [l] [l] hs hclosed value value' hkeep ?_ ?_ ?_
  · intro r hr hr'
    rw [hrun r hr, htake r s' (hr.trans hs) hr']
  · intro q k hq hq'
    rw [m.text_self] at hq ⊢
    rw [hrun' q k hq, htake q k hq hq']
  · intro n k hk
    rw [m.text_self]
    exact hfront n k hk

theorem exists_of_seesWord {w : String} (h : seesWord w s = true) : ∃ s', s = word w :: s' := by
  cases s with
  | nil => cases h
  | cons l s' =>
      cases l <;> simp [seesWord] at h
      exact ⟨s', by rw [h]⟩

/-- A keyword is read again. -/
theorem keyword (w : String) {follow : Unit → List Lexeme → List Lexeme → Prop} :
    Rereads g m s (Rule.keyword w) (Rule.keyword w) id (Worded w (follow ()) s) follow := by
  refine .of_run fun r _ _ hr _ hok => ?_
  obtain ⟨s', rfl⟩ := exists_of_seesWord (hr ▸ (Rule.run_keyword_eq_ok.mp hok).1)
  have hrun : ∀ (r : Reader) rest, r.rest = word w :: rest →
      (Rule.keyword w).run g r = .ok ((), r.take 1 [word w]) := by
    intro r rest hr
    rw [Rule.run_keyword_of_sees (hr ▸ by simp [seesWord]), hr]
    rfl
  exact single rfl (.word w) (fun _ => ()) (fun _ => ()) (fun _ _ => rfl)
    (fun r hr => hrun r s' hr) hrun fun _ k hk => ⟨s', k, rfl, rfl, hk⟩

/-- A keyword is read again, and then something else. -/
theorem keyword_then (w : String) (inner : List Lexeme → List Lexeme → Prop)
    {next next' : Unit → Rule α} {keep : α → γ} {front : List Lexeme → Prop}
    {follow : α → List Lexeme → List Lexeme → Prop}
    (h : ∀ s', Rereads g m s' (next ()) (next' ()) keep (inner s') follow)
    (hfront : ∀ p, Worded w inner s p → front p) :
    Rereads g m s (Rule.keyword w >>= next) (Rule.keyword w >>= next') keep front follow :=
  ((keyword w).bind fun _ _ s' _ => h s').front_mono hfront

/-- A keyword that may be left out. -/
theorem keyword? {w : String} {next next' : Bool → Rule α} {keep : α → γ}
    {front : List Lexeme → Prop} {follow : α → List Lexeme → List Lexeme → Prop}
    (hfront : ∀ p, front p → seesWord w p = seesWord w s)
    (hseen : seesWord w s = true →
      Rereads g m s (Rule.keyword w >>= fun _ => next true)
        (Rule.keyword w >>= fun _ => next' true) keep front follow)
    (hunseen : seesWord w s = false →
      Rereads g m s (next false) (next' false) keep front follow) :
    Rereads g m s (Rule.keyword? w >>= next) (Rule.keyword? w >>= next') keep front follow := by
  cases hs : seesWord w s with
  | true =>
      have hrun : ∀ (f : Bool → Rule α) (r : Reader), seesWord w r.rest = true →
          (Rule.keyword? w >>= f).run g r = (Rule.keyword w >>= fun _ => f true).run g r := by
        intro f r hr
        rw [Rule.run_bind_of_ok (Rule.run_keyword?_of_sees hr),
          Rule.run_bind_of_ok (Rule.run_keyword_of_sees hr)]
      exact (hseen hs).congr (fun r hr => hrun next r (hr ▸ hs))
        fun q hq => hrun next' q ((hfront _ hq).trans hs)
  | false =>
      exact (hunseen hs).congr
        (fun r hr => Rule.run_bind_of_ok (Rule.run_keyword?_of_not_sees (hr ▸ hs)) _)
        fun q hq => Rule.run_bind_of_ok (Rule.run_keyword?_of_not_sees ((hfront _ hq).trans hs)) _

/-- A keyword that may be left out, before something that looks alike. -/
theorem keyword?_look (w : String) {next next' : Bool → Rule α} {keep : α → γ}
    {follow : α → List Lexeme → List Lexeme → Prop}
    (h : ∀ found s', Rereads g m s' (next found) (next' found) keep (Look s') follow) :
    Rereads g m s (Rule.keyword? w >>= next) (Rule.keyword? w >>= next') keep (Look s) follow :=
  keyword? (fun _ hp => hp.word w) (fun _ => keyword_then w Look (h true) fun _ hp => hp.look)
    fun _ => h false s

/-- A word is read again; only its place may differ. -/
theorem anyWord {follow : Name → List Lexeme → List Lexeme → Prop} :
    Rereads g m s Rule.anyWord Rule.anyWord Name.text
      (fun p => ∃ w n, Worded w (follow ⟨w, n⟩) s p) follow := by
  refine .of_run fun r _ _ hr _ hok => ?_
  obtain ⟨w, s', rfl⟩ : ∃ w s', s = word w :: s' := by
    rw [Rule.anyWord, Rule.run_bind_of_ok (Rule.run_look r)] at hok
    split at hok
    · next w s' h => exact ⟨w, s', hr.symm.trans h⟩
    · rw [Rule.run_complain] at hok
      cases hok
  exact single rfl (.word w) (fun n => ⟨w, n⟩) (fun n => ⟨w, n⟩) (fun _ _ => rfl)
    (fun r hr => Rule.run_anyWord_of_word hr) (fun q k hq => Rule.run_anyWord_of_word hq)
    fun n k hk => ⟨w, n, s', k, rfl, rfl, hk⟩

/-- A word is read again, and then something else. -/
theorem anyWord_then (inner : String → List Lexeme → List Lexeme → Prop)
    {next next' : Name → Rule α} {keep : α → γ} {front : List Lexeme → Prop}
    {follow : α → List Lexeme → List Lexeme → Prop}
    (h : ∀ w n n' s', Rereads g m s' (next ⟨w, n⟩) (next' ⟨w, n'⟩) keep (inner w s') follow)
    (hfront : ∀ w p, Worded w (inner w) s p → front p) :
    Rereads g m s (Rule.anyWord >>= next) (Rule.anyWord >>= next') keep front follow := by
  have hword : Rereads g m s Rule.anyWord Rule.anyWord Name.text
      (fun p => ∃ w, ∃ _ : Nat, Worded w (inner w) s p) fun a => inner a.text := anyWord
  refine (hword.bind ?_).front_mono fun p ⟨w, _, hp⟩ => hfront w p hp
  rintro ⟨w, n⟩ ⟨w', n'⟩ s' rfl
  exact h w' n n' s'

/-- An identifier or one of some keywords is read again; only its place may differ. -/
theorem identifierOr (keywords : List String) {follow : Name → List Lexeme → List Lexeme → Prop} :
    Rereads g m s (Rule.identifierOr keywords) (Rule.identifierOr keywords) Name.text
      (fun p => ∃ w n, (isIdentifier w || keywords.contains w) = true ∧ Worded w (follow ⟨w, n⟩) s p)
      follow := by
  refine .of_run fun r _ _ hr _ hok => ?_
  obtain ⟨w, s', hs, hw⟩ := Rule.word_of_run_identifierOr hok
  rw [hr] at hs
  subst hs
  exact single rfl (.word w) (fun n => ⟨w, n⟩) (fun n => ⟨w, n⟩) (fun _ _ => rfl)
    (fun r hr => Rule.run_identifierOr_of_word hr hw)
    (fun q k hq => Rule.run_identifierOr_of_word hq hw) fun n k hk => ⟨w, n, hw, s', k, rfl, rfl, hk⟩

/-- An identifier is read again; only its place may differ. -/
theorem identifier {follow : Name → List Lexeme → List Lexeme → Prop} :
    Rereads g m s Rule.identifier Rule.identifier Name.text
      (fun p => ∃ w n, isIdentifier w = true ∧ Worded w (follow ⟨w, n⟩) s p) follow := by
  refine ((identifierOr []).congr (fun r _ => Rule.run_identifier_eq r)
    fun q _ => Rule.run_identifier_eq q).front_mono ?_
  rintro p ⟨w, n, hw, h⟩
  exact ⟨w, n, by simpa using hw, h⟩

/-- An identifier or one of some keywords is read again, and then something else. -/
theorem identifierOr_then (keywords : List String)
    (inner : String → List Lexeme → List Lexeme → Prop)
    {next next' : Name → Rule α} {keep : α → γ} {front : List Lexeme → Prop}
    {follow : α → List Lexeme → List Lexeme → Prop}
    (h : ∀ w n n' s', Rereads g m s' (next ⟨w, n⟩) (next' ⟨w, n'⟩) keep (inner w s') follow)
    (hfront : ∀ w p, (isIdentifier w || keywords.contains w) = true → Worded w (inner w) s p →
      front p) :
    Rereads g m s (Rule.identifierOr keywords >>= next) (Rule.identifierOr keywords >>= next') keep
      front follow := by
  have hword : Rereads g m s (Rule.identifierOr keywords) (Rule.identifierOr keywords) Name.text
      (fun p => ∃ w, ∃ _ : Nat, (isIdentifier w || keywords.contains w) = true ∧
        Worded w (inner w) s p) fun a => inner a.text := identifierOr keywords
  refine (hword.bind ?_).front_mono fun p ⟨w, _, hw, hp⟩ => hfront w p hw hp
  rintro ⟨w, n⟩ ⟨w', n'⟩ s' rfl
  exact h w' n n' s'

/-- An identifier is read again, and then something else. -/
theorem identifier_then (inner : String → List Lexeme → List Lexeme → Prop)
    {next next' : Name → Rule α} {keep : α → γ} {front : List Lexeme → Prop}
    {follow : α → List Lexeme → List Lexeme → Prop}
    (h : ∀ w n n' s', Rereads g m s' (next ⟨w, n⟩) (next' ⟨w, n'⟩) keep (inner w s') follow)
    (hfront : ∀ w p, isIdentifier w = true → Worded w (inner w) s p → front p) :
    Rereads g m s (Rule.identifier >>= next) (Rule.identifier >>= next') keep front follow := by
  have hword : Rereads g m s Rule.identifier Rule.identifier Name.text
      (fun p => ∃ w, ∃ _ : Nat, isIdentifier w = true ∧ Worded w (inner w) s p)
      fun a => inner a.text := identifier
  refine (hword.bind ?_).front_mono fun p ⟨w, _, hw, hp⟩ => hfront w p hw hp
  rintro ⟨w, n⟩ ⟨w', n'⟩ s' rfl
  exact h w' n n' s'

/-- A lifetime is read again. -/
theorem lifetime {follow : Nat → List Lexeme → List Lexeme → Prop} :
    Rereads g m s Rule.lifetime Rule.lifetime (fun _ => ())
      (fun p => ∃ n, Lifelong (follow n) s p) follow := by
  refine .of_run fun r _ _ hr _ hok => ?_
  obtain ⟨w, s', hs⟩ := Rule.seen_of_run_lifetime hok
  rw [hr] at hs
  subst hs
  have hrun : ∀ (r : Reader) rest, r.rest = punct '\'' true :: word w :: rest → r.stray = none →
      Rule.lifetime.run g r =
        .ok (r.position + 1, r.after (Lexeme.lifetime w) (Lexeme.lifetime w) rest) := by
    intro r rest hr hr'
    rw [Rule.run_lifetime_of_seen hr]
    exact congrArg (fun q => Except.ok (r.position + 1, q))
      (Reader.take_eq_after (Lexeme.lifetime w) _ hr hr')
  refine .of_after (Lexeme.lifetime w) (Lexeme.lifetime w) rfl
    ((Closed.punct _ _).append (.word w)) (· + 1) (· + 1) (fun _ _ => rfl)
    (fun r hr hr' => hrun r s' hr hr') ?_ ?_
  · intro q k hq hq'
    rw [m.text_self] at hq ⊢
    exact hrun q k hq hq'
  · intro n k hk
    rw [m.text_self]
    exact ⟨n + 1, w, s', k, rfl, rfl, hk⟩

/-- A lifetime is read again, and then something else. -/
theorem lifetime_then (inner : List Lexeme → List Lexeme → Prop)
    {next next' : Nat → Rule α} {keep : α → γ} {front : List Lexeme → Prop}
    {follow : α → List Lexeme → List Lexeme → Prop}
    (h : ∀ n n' s', Rereads g m s' (next n) (next' n') keep (inner s') follow)
    (hfront : ∀ p, Lifelong inner s p → front p) :
    Rereads g m s (Rule.lifetime >>= next) (Rule.lifetime >>= next') keep front follow := by
  have hlifetime : Rereads g m s Rule.lifetime Rule.lifetime (fun _ => ())
      (fun p => ∃ _ : Nat, Lifelong inner s p) fun _ => inner := lifetime
  exact (hlifetime.bind fun n n' s' _ => h n n' s').front_mono fun p ⟨_, hp⟩ => hfront p hp

theorem exists_of_seesLifetime (h : seesLifetime s = true) :
    ∃ w s', s = punct '\'' true :: word w :: s' := by
  unfold seesLifetime at h
  split at h
  · next w s' => exact ⟨w, s', rfl⟩
  · cases h

/-- A lifetime that may be left out. -/
theorem lifetime? {next next' : Bool → Rule α} {keep : α → γ}
    {front : List Lexeme → Prop} {follow : α → List Lexeme → List Lexeme → Prop}
    (hfront : ∀ p, front p → seesLifetime p = seesLifetime s)
    (hseen : seesLifetime s = true →
      Rereads g m s (Rule.lifetime >>= fun _ => next true)
        (Rule.lifetime >>= fun _ => next' true) keep front follow)
    (hunseen : seesLifetime s = false →
      Rereads g m s (next false) (next' false) keep front follow) :
    Rereads g m s (Rule.lifetime? >>= next) (Rule.lifetime? >>= next') keep front follow := by
  cases hs : seesLifetime s with
  | true =>
      have hrun : ∀ (f : Bool → Rule α) (r : Reader), seesLifetime r.rest = true →
          (Rule.lifetime? >>= f).run g r = (Rule.lifetime >>= fun _ => f true).run g r := by
        intro f r hr
        obtain ⟨w, rest, hrest⟩ := exists_of_seesLifetime hr
        rw [Rule.run_bind_of_ok (Rule.run_lifetime?_of_seen hrest),
          Rule.run_bind_of_ok (Rule.run_lifetime_of_seen hrest)]
      exact (hseen hs).congr (fun r hr => hrun next r (hr ▸ hs))
        fun q hq => hrun next' q ((hfront _ hq).trans hs)
  | false =>
      exact (hunseen hs).congr
        (fun r hr => Rule.run_bind_of_ok (Rule.run_lifetime?_of_not_sees (hr ▸ hs)) _)
        fun q hq => Rule.run_bind_of_ok (Rule.run_lifetime?_of_not_sees ((hfront _ hq).trans hs)) _

/-! ### Literals -/

theorem exists_of_run_literal {r r' : Reader} {u : Unit}
    (h : Rule.literal.run g r = .ok (u, r')) :
    (∃ text s', r.rest = literal text :: s') ∨
      (∃ w s', r.rest = word w :: s' ∧ (w = "true" ∨ w = "false")) ∨
      ∃ text joint s', r.rest = punct '-' joint :: literal text :: s' ∧
        Number.isNumber text = true := by
  rw [Rule.literal, Rule.run_bind_of_ok (Rule.run_ahead r)] at h
  have hsees : seesLiteral r.rest = true := by
    split at h <;> split at h
    · assumption
    · rw [Rule.run_complain] at h
      cases h
    · assumption
    · rw [Rule.run_complain] at h
      cases h
  unfold seesLiteral at hsees
  split at hsees
  · next text s' hr => exact .inl ⟨text, s', hr⟩
  · next w s' hr => exact .inr (.inl ⟨w, s', hr, by simpa using hsees⟩)
  · next joint text s' hr => exact .inr (.inr ⟨text, joint, s', hr, hsees⟩)
  · cases hsees

/-- A literal is read again. -/
theorem literal {follow : Unit → List Lexeme → List Lexeme → Prop} :
    Rereads g m s Rule.literal Rule.literal id (Valued (follow ()) s) follow := by
  refine .of_run fun r _ _ hr _ hok => ?_
  rw [← hr]
  rcases exists_of_run_literal hok with ⟨text, s', hs⟩ | ⟨w, s', hs, hw⟩ | ⟨text, joint, s', hs, hnumber⟩
  · have hrun : ∀ (r : Reader) rest, r.rest = Lexeme.literal text :: rest →
        Rule.literal.run g r = .ok ((), r.take 1 [Lexeme.literal text]) := by
      intro r rest hr
      rw [Rule.literal, Rule.run_bind_of_ok (Rule.run_ahead r), hr]
      simp only [seesLiteral, if_true]
      rw [Rule.run_copy, hr]
      rfl
    rw [hs]
    exact single rfl (.literal text) (fun _ => ()) (fun _ => ()) (fun _ _ => rfl)
      (fun r hr => hrun r s' hr) hrun fun _ k hk => .plain text hk
  · have hrun : ∀ (r : Reader) rest, r.rest = word w :: rest →
        Rule.literal.run g r = .ok ((), r.take 1 [word w]) := by
      intro r rest hr
      rw [Rule.literal, Rule.run_bind_of_ok (Rule.run_ahead r), hr]
      have hsees : seesLiteral (word w :: rest) = true := by simpa [seesLiteral] using hw
      simp only [hsees, if_true]
      rw [Rule.run_copy, hr]
      rfl
    rw [hs]
    exact single rfl (.word w) (fun _ => ()) (fun _ => ()) (fun _ _ => rfl)
      (fun r hr => hrun r s' hr) hrun fun _ k hk => .truth w hw hk
  · have hrun : ∀ (r : Reader) joint rest, r.rest = punct '-' joint :: Lexeme.literal text :: rest →
        r.stray = none → Rule.literal.run g r =
          .ok ((), r.after [punct '-' joint, Lexeme.literal text]
            [punct '-' false, Lexeme.literal text] rest) := by
      intro r joint rest hr hr'
      rw [Rule.literal, Rule.run_bind_of_ok (Rule.run_ahead r), hr]
      simp only [seesLiteral, hnumber, if_true]
      rw [Rule.run_take]
      exact congrArg (fun q => Except.ok ((), q))
        (Reader.take_eq_after [punct '-' joint, Lexeme.literal text] _ hr hr')
    rw [hs]
    refine .of_after [punct '-' joint, Lexeme.literal text]
      [punct '-' false, Lexeme.literal text] rfl
      ((Closed.punct _ _).append (.literal _)) (fun _ => ()) (fun _ => ()) (fun _ _ => rfl)
      (fun r hr hr' => hrun r joint s' hr hr') ?_ ?_
    · intro q k hq hq'
      cases m
      · exact hrun q joint k hq hq'
      · exact hrun q false k hq hq'
    · intro _ k hk
      cases m
      · exact .negative text joint joint hnumber hk
      · exact .negative text joint false hnumber hk

/-- A literal is read again, and then something else. -/
theorem literal_then (inner : List Lexeme → List Lexeme → Prop)
    {next next' : Unit → Rule α} {keep : α → γ} {front : List Lexeme → Prop}
    {follow : α → List Lexeme → List Lexeme → Prop}
    (h : ∀ s', Rereads g m s' (next ()) (next' ()) keep (inner s') follow)
    (hfront : ∀ p, Valued inner s p → front p) :
    Rereads g m s (Rule.literal >>= next) (Rule.literal >>= next') keep front follow := by
  have hliteral : Rereads g m s Rule.literal Rule.literal id (Valued inner s) fun _ => inner := literal
  exact (hliteral.bind fun _ _ s' _ => h s').front_mono hfront

/-! ### Groups -/

theorem exists_of_run_anyGroup {r r' : Reader} {d : Delimiter} (h : Rule.anyGroup.run g r = .ok (d, r')) :
    ∃ inner, r.rest = opening d :: inner := by
  rw [Rule.anyGroup, Rule.run_bind_of_ok (Rule.run_ahead r)] at h
  split at h
  · next e inner hr =>
    rw [Rule.run_bind_of_ok (Rule.run_copy ..), Rule.run_pure] at h
    cases h
    exact ⟨inner, hr⟩
  · rw [Rule.run_complain] at h
    cases h

/-- A group is whole, and how long it is can be told from its content. -/
theorem exists_group {d : Delimiter} {inner : List Lexeme} (hb : Balanced (opening d :: inner)) :
    ∃ content rest, inner = content ++ closing d :: rest ∧ Closed content ∧
      ∀ e k, groupLength 0 (content ++ closing e :: k) = content.length + 1 := by
  obtain ⟨stack, hstack⟩ := hb
  have hstack' : balanced ([] ++ d :: stack) inner = true := by cases stack <;> exact hstack
  exact exists_content [] hstack'

/-- A group is taken up to where it is closed. -/
theorem run_anyGroup_of_content {d : Delimiter} {content rest : List Lexeme} {r : Reader}
    (hlength : ∀ e k, groupLength 0 (content ++ closing e :: k) = content.length + 1)
    (hr : r.rest = opening d :: (content ++ closing d :: rest)) (hstray : r.stray = none) :
    Rule.anyGroup.run g r =
      .ok (d, r.after (opening d :: content ++ [closing d]) (opening d :: content ++ [closing d]) rest) := by
  have hr' : r.rest = (opening d :: content ++ [closing d]) ++ rest := by simpa using hr
  have hafter := Reader.take_eq_after _ (opening d :: content ++ [closing d]) hr' hstray
  have htake : (opening d :: (content ++ closing d :: rest)).take (content.length + 1 + 1) =
      opening d :: content ++ [closing d] := by
    rw [List.take_succ_cons, List.take_append, List.take_of_length_le (Nat.le_succ _)]
    simp
  rw [Rule.anyGroup, Rule.run_bind_of_ok (Rule.run_ahead r), hr]
  simp only
  rw [hlength, Rule.run_bind_of_ok (Rule.run_copy ..), hr, htake, ← hafter, Rule.run_pure]
  simp

/-- A group that is taken as it is is read again. -/
theorem anyGroup {follow : Delimiter → List Lexeme → List Lexeme → Prop} :
    Rereads g m s Rule.anyGroup Rule.anyGroup id (fun p => ∃ d, Enclosed d (follow d) s p) follow := by
  refine .of_run fun r e r' hr hb hok => ?_
  obtain ⟨inner, hinner⟩ := exists_of_run_anyGroup hok
  obtain rfl : s = opening e :: inner := hr.symm.trans hinner
  obtain ⟨content, rest, rfl, hclosed, hlength⟩ := exists_group hb
  have hsecond : ∀ k, second (opening e :: (content ++ closing e :: k)) = k := by
    intro k
    rw [second, afterElement, hlength]
    simp
  have hsplit : opening e :: (content ++ closing e :: rest) =
      (opening e :: content ++ [closing e]) ++ rest := by simp
  refine .of_after _ (opening e :: content ++ [closing e]) hsplit hclosed.group
    (fun _ => e) (fun _ => e) (fun _ _ => rfl) (fun r hr hr' => run_anyGroup_of_content hlength hr hr') ?_ ?_
  · intro q k hq hq'
    rw [m.text_self] at hq ⊢
    exact run_anyGroup_of_content hlength (by simpa using hq) hq'
  · intro _ k hk
    rw [m.text_self]
    exact ⟨e, content, rest, k, rfl, by simp, hsecond, hk⟩

/-- A group that is taken as it is is read again, and then something else. -/
theorem anyGroup_then (inner : Delimiter → List Lexeme → List Lexeme → Prop)
    {next next' : Delimiter → Rule α} {keep : α → γ} {front : List Lexeme → Prop}
    {follow : α → List Lexeme → List Lexeme → Prop}
    (h : ∀ d s', Rereads g m s' (next d) (next' d) keep (inner d s') follow)
    (hfront : ∀ d p, Enclosed d (inner d) s p → front p) :
    Rereads g m s (Rule.anyGroup >>= next) (Rule.anyGroup >>= next') keep front follow := by
  have hgroup : Rereads g m s Rule.anyGroup Rule.anyGroup id
      (fun p => ∃ d, Enclosed d (inner d) s p) inner := anyGroup
  refine (hgroup.bind ?_).front_mono fun p ⟨d, hp⟩ => hfront d p hp
  rintro d d' s' rfl
  exact h d' s'

theorem exists_of_seesGroup {d : Delimiter} (h : seesGroup d s = true) : ∃ s', s = opening d :: s' := by
  cases s with
  | nil => cases h
  | cons l s' =>
      cases l <;> simp [seesGroup] at h
      exact ⟨s', by rw [h]⟩

/-- The content of a group is read again, and so is the group. -/
theorem within {d : Delimiter} {rule rule' : Rule α} {keep : α → γ}
    (inner : List Lexeme → List Lexeme → Prop) {follow : α → List Lexeme → List Lexeme → Prop}
    (h : ∀ s', s = opening d :: s' →
      Rereads g m s' rule rule' keep (inner s') fun _ => Ended) :
    Rereads g m s (Rule.within d rule) (Rule.within d rule') keep (Opened d inner s) follow := by
  intro hg r a r' hr hb hok hstray
  obtain ⟨hsees, r₁, hrule, rfl⟩ := Rule.run_within_eq_ok.mp hok
  obtain ⟨s', rfl⟩ := exists_of_seesGroup (hr ▸ hsees)
  obtain ⟨hstray₁, hends⟩ : r₁.stray = none ∧ ends r₁.rest = true := by
    obtain ⟨h₁, h₂⟩ := Option.or_eq_none_iff.mp hstray
    refine ⟨h₁, ?_⟩
    by_cases hends : ends r₁.rest = true
    · exact hends
    · simp [hends] at h₂
  obtain ⟨stack, hstack⟩ := hb
  have hb' : Balanced s' := ⟨d :: stack, by cases stack <;> exact hstack⟩
  obtain ⟨taken, written, hclosed, hstray₀, hrest, hafter, hagain⟩ :=
    h s' rfl hg (r.take 1 [opening d]) a r₁ (by simp [Reader.take, hr]) hb' hrule hstray₁
  obtain ⟨tail, htail⟩ : ∃ tail, r₁.rest = closing d :: tail :=
    Balanced.closing_of_ends hclosed ⟨stack, hrest ▸ hstack⟩ hends
  refine ⟨opening d :: taken ++ [closing d], opening d :: written ++ [closing d], hclosed.group,
    hstray₀, ?_, ?_, ?_⟩
  · rw [hafter, htail, r.leave_after d taken written tail]
    simp [hrest, htail, Reader.after]
  · rw [hafter, htail, r.leave_after d taken written tail]
    rfl
  · intro q k hq hq' _
    have htext : m.text (opening d :: taken ++ [closing d]) (opening d :: written ++ [closing d]) =
        opening d :: m.text taken written ++ [closing d] := by
      cases m <;> rfl
    rw [htext] at hq ⊢
    obtain ⟨hinner, a', ha', hrun⟩ := hagain (q.take 1 [opening d]) (closing d :: k)
      (by simp [Reader.take, hq]) hq' ⟨d, tail, k, htail, rfl⟩
    refine ⟨⟨s', m.text taken written ++ closing d :: k, rfl, by simp [hq], ?_⟩, a', ha', ?_⟩
    · simpa [Reader.take, hq] using hinner
    · exact Rule.run_within_of_ok (by simp [hq, seesGroup]) hrun

/-- The content of a group is read again, and then something else. -/
theorem within_then {d : Delimiter} {rule rule' : Rule α} (keep : α → γ)
    (inner : List Lexeme → List Lexeme → Prop) {next next' : α → Rule β} {keep' : β → δ}
    {front : List Lexeme → Prop} {follow : β → List Lexeme → List Lexeme → Prop}
    (h : ∀ s', Rereads g m s' rule rule' keep (inner s') fun _ => Ended)
    (hnext : ∀ a a' s', keep a' = keep a →
      Rereads g m s' (next a) (next' a') keep' (fun _ => True) follow)
    (hfront : ∀ p, Opened d inner s p → front p) :
    Rereads g m s (Rule.within d rule >>= next) (Rule.within d rule' >>= next') keep' front follow :=
  ((within inner fun s' _ => h s' : Rereads g m s _ _ _ _ fun _ _ _ => True).bind hnext).front_mono hfront

end TypedId.Grammar.Rereads
