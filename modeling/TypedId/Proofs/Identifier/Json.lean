import TypedId.Identifier.Json
import TypedId.Proofs.JsonText.Document

/-!
Identifiers in JSON are the identifiers of plain texts.

An identifier is written as its text form between quotes, and a JSON text is read as an identifier
exactly if it is a single text between quotes that is read as that identifier
(`json_and_texts_correspond`). So every spelling of an identifier has all the spellings of a text, and no
other value is an identifier.
-/

namespace TypedId.JsonText

/-! ### Texts without escapes -/

/-- Whether a character stands for itself between quotes. -/
def IsOrdinary (c : Char) : Prop := c ≠ '"' ∧ c ≠ '\\' ∧ 32 ≤ c.toNat

instance (c : Char) : Decidable (IsOrdinary c) := inferInstanceAs (Decidable (_ ∧ _ ∧ _))

theorem escape_of_isOrdinary {c : Char} (h : IsOrdinary c) : escape c = [c] := by
  obtain ⟨hquote, hbackslash, hcontrol⟩ := h
  have hne : ∀ d : Char, d.toNat < 32 → c ≠ d := fun d hd heq => Nat.not_lt_of_le hcontrol (heq ▸ hd)
  simp only [escape, hquote, hbackslash, or_self, if_false, hne '\x08' (by decide), hne '\x0c' (by decide),
    hne '\n' (by decide), hne '\r' (by decide), hne '\t' (by decide), Nat.not_lt_of_le hcontrol]

/-- A text of ordinary characters spells itself. -/
theorem spellsText_self {cs : List Char} (h : ∀ c ∈ cs, IsOrdinary c) : SpellsText cs cs := by
  induction cs with
  | nil => exact .nil
  | cons c cs ih =>
      obtain ⟨hquote, hbackslash, hcontrol⟩ := h c List.mem_cons_self
      exact .cons (.plain hquote hbackslash hcontrol) (ih fun d hd => h d (List.mem_cons_of_mem _ hd))

/-- A text of ordinary characters is written as it is, with a quote on either side. -/
theorem quote_of_isOrdinary {s : String} (h : ∀ c ∈ s.toList, IsOrdinary c) :
    quote s = "\"" ++ s ++ "\"" := by
  have hsame : ∀ {cs : List Char}, (∀ c ∈ cs, IsOrdinary c) → cs.flatMap escape = cs := by
    intro cs hcs
    induction cs with
    | nil => rfl
    | cons c cs ih =>
        rw [List.flatMap_cons, escape_of_isOrdinary (hcs c List.mem_cons_self),
          ih fun d hd => hcs d (List.mem_cons_of_mem _ hd), List.singleton_append]
  rw [quote, hsame h, ← String.toList_inj]
  simp

end TypedId.JsonText

namespace TypedId.Identifier

open JsonText

variable {entity : String}

theorem isOrdinary_of_mem_render {u : Uuid} {c : Char} (h : c ∈ u.render.toList) : IsOrdinary c := by
  have hdigits : ∀ d < 16, IsOrdinary (Text.hexCharacter d) := by decide
  rw [Uuid.render, String.toList_ofList] at h
  obtain rfl | h := Uuid.mem_hyphenate h
  · decide
  · obtain ⟨d, hd, rfl⟩ := List.mem_map.mp h
    exact hdigits d (Uuid.nibbles_lt hd)

theorem toJson_eq (i : Identifier entity) : i.toJson = "\"" ++ i.render ++ "\"" :=
  quote_of_isOrdinary fun _ hc => isOrdinary_of_mem_render hc

/-- What is written for an identifier is its text form between quotes. -/
theorem isText_toJson (i : Identifier entity) : IsText i.toJson i.render := by
  refine ⟨[], i.render.toList, [], ?_, rfl, rfl, spellsText_self fun c hc => isOrdinary_of_mem_render hc⟩
  rw [toJson_eq]
  simp

/-- The identifier of a JSON text is that of the text between its quotes, and so is the complaint. -/
theorem ofJson_of_isText (entity : String) {json text : String} (h : IsText json text) :
    ∃ index, ofJson entity json =
      (read entity text).mapError fun failure => ⟨.notIdentifier failure.reason, index⟩ := by
  obtain ⟨index, hindex⟩ := readAll_identifier h
  refine ⟨index, ?_⟩
  rw [ofJson, hindex, read, readId]
  cases Uuid.read text <;> rfl

theorem exists_isText_of_ofJson {json : String} {i : Identifier entity} (h : ofJson entity json = .ok i) :
    ∃ text, IsText json text := by
  rw [ofJson] at h
  cases hread : readAll identifier json with
  | error failure =>
      rw [hread] at h
      cases h
  | ok u => exact exists_isText hread

theorem ofJson_eq_ok {json : String} {i : Identifier entity} :
    ofJson entity json = .ok i ↔ ∃ text, IsText json text ∧ read entity text = .ok i := by
  constructor
  · intro h
    obtain ⟨text, htext⟩ := exists_isText_of_ofJson h
    obtain ⟨index, hindex⟩ := ofJson_of_isText entity htext
    refine ⟨text, htext, ?_⟩
    rw [hindex] at h
    cases hread : read entity text with
    | error failure =>
        rw [hread] at h
        cases h
    | ok j =>
        rw [hread] at h
        cases h
        rfl
  · rintro ⟨text, htext, hread⟩
    obtain ⟨index, hindex⟩ := ofJson_of_isText entity htext
    rw [hindex, hread]
    rfl

/-- JSON texts and plain texts are read as the same identifiers.

An identifier is written as its text form between quotes, which is read as the identifier. A JSON text is
read as an identifier exactly if it is a single text between quotes, with blanks around it, and that
text is read as this identifier; if it is another text, the complaint about it is the same. Nothing else is
read: no value that begins with another character than a quote (a number, a list, an object, null), and no
text with anything but blanks behind it. -/
theorem json_and_texts_correspond (entity : String) :
    (∀ i : Identifier entity, i.toJson = "\"" ++ i.render ++ "\"" ∧ ofJson entity i.toJson = .ok i) ∧
      (∀ json (i : Identifier entity),
        ofJson entity json = .ok i ↔ ∃ text, IsText json text ∧ read entity text = .ok i) ∧
      (∀ json text, IsText json text →
        (∀ text', IsText json text' → text' = text) ∧
          ∃ index, ofJson entity json =
            (read entity text).mapError fun failure => ⟨.notIdentifier failure.reason, index⟩) ∧
      (∀ json, (json.toList.dropWhile isBlank).head? ≠ some '"' →
        ∃ failure, ofJson entity json = .error failure) ∧
      ∀ json text more, IsText json text → ¬ more.toList.all isBlank = true →
        ∃ failure, ofJson entity (json ++ more) = .error failure := by
  have hrefused : ∀ json, (¬ ∃ text, IsText json text) → ∃ failure, ofJson entity json = .error failure := by
    intro json hnone
    cases hread : ofJson entity json with
    | error failure => exact ⟨failure, rfl⟩
    | ok i => exact (hnone (exists_isText_of_ofJson hread)).elim
  refine ⟨fun i => ⟨toJson_eq i, ?_⟩, fun json i => ofJson_eq_ok, fun json text htext => ?_,
    fun json hhead => ?_,
    fun json text more htext hmore => ?_⟩
  · exact ofJson_eq_ok.mpr ⟨i.render, isText_toJson i, read_render i⟩
  · exact ⟨fun text' htext' => htext'.unique htext, ofJson_of_isText entity htext⟩
  · exact hrefused json fun ⟨text, htext⟩ => hhead htext.head?_dropWhile
  · exact hrefused (json ++ more) fun ⟨text', htext'⟩ => htext.not_isText_append hmore htext'

/-- A number is refused, and so is an identifier with a comma behind it. -/
theorem number_and_comma_are_refused :
    (∃ failure, ofJson "user" " 17" = .error failure) ∧
      ∃ failure, ofJson "user" ((⟨Uuid.nil⟩ : Identifier "user").toJson ++ " ,") = .error failure :=
  ⟨(json_and_texts_correspond "user").2.2.2.1 " 17" (by decide),
    (json_and_texts_correspond "user").2.2.2.2 _ _ " ," (isText_toJson _) (by decide)⟩

end TypedId.Identifier
