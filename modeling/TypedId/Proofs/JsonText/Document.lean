import Mathlib.Data.List.TakeWhile
import TypedId.JsonText.Value
import TypedId.Proofs.Uuid.Spelling

/-!
Which JSON texts are a single text between quotes, and of which characters.

`SpellsCharacter` tells how a character is spelt between quotes: as itself, by a letter behind a
backslash, by its unit of UTF-16 or by a pair of them. It is told without reading. What stands between
quotes is read exactly if it spells some text, and then that text is read (`of_unquote`,
`unquote_of_spells`).
-/

namespace TypedId.JsonText

open Uuid (AreDigits IsDigit)

/-! ### Spellings -/

/-- The letters that stand for a character behind a backslash. -/
def letters : List (Char × Char) :=
  [('"', '"'), ('\\', '\\'), ('/', '/'), ('b', '\x08'), ('f', '\x0c'), ('n', '\n'), ('r', '\r'),
    ('t', '\t')]

/-- Whether some characters are a unit of UTF-16, by number: a backslash, a `u` and four hexadecimal
digits. -/
def SpellsUnit (cs : List Char) (n : Nat) : Prop :=
  ∃ hs ds, cs = '\\' :: 'u' :: hs ∧ AreDigits 4 hs ds ∧ n = Positional.value 16 ds

/-- The ways to spell a character between quotes. -/
inductive SpellsCharacter : List Char → Char → Prop where
  | plain {c : Char} (hquote : c ≠ '"') (hbackslash : c ≠ '\\') (hcontrol : 32 ≤ c.toNat) :
    SpellsCharacter [c] c
  | letter {d c : Char} (h : (d, c) ∈ letters) : SpellsCharacter ['\\', d] c
  | unit {cs : List Char} {c : Char} (h : SpellsUnit cs c.toNat) : SpellsCharacter cs c
  | pair {cs cs' : List Char} {first second : Nat} {c : Char} (h : SpellsUnit cs first)
    (h' : SpellsUnit cs' second)
      (hfirst : 0xD800 ≤ first ∧ first ≤ 0xDBFF) (hsecond : 0xDC00 ≤ second ∧ second ≤ 0xDFFF)
      (hc : c.toNat = 0x10000 + (first - 0xD800) * 0x400 + (second - 0xDC00)) :
      SpellsCharacter (cs ++ cs') c

/-- Whether some characters spell a text, one character after the other. -/
inductive SpellsText : List Char → List Char → Prop where
  | nil : SpellsText [] []
  | cons {hs cs text : List Char} {c : Char} (h : SpellsCharacter hs c) (hrest : SpellsText cs text) :
    SpellsText (hs ++ cs) (c :: text)

/-- Whether a JSON text is one text between quotes, with nothing but blanks around it. -/
def IsText (json text : String) : Prop :=
  ∃ before body after, json.toList = before ++ '"' :: (body ++ '"' :: after) ∧
    before.all isBlank = true ∧ after.all isBlank = true ∧ SpellsText body text.toList

/-! ### Letters -/

variable {index missing v n : Nat} {high : Option Nat} {c d : Char} {cs hs ts rest : List Char}
  {ds : List Nat} {after : Cursor}

theorem escapedCharacter?_eq_some_iff : escapedCharacter? c = some d ↔ (c, d) ∈ letters := by
  constructor
  · intro h
    rw [escapedCharacter?] at h
    split at h
    · next hc =>
      cases h
      obtain rfl | rfl | rfl := hc <;> decide
    · repeat' split at h
      all_goals first | (subst_vars; cases h; decide) | cases h
  · intro h
    simp only [letters, List.mem_cons, Prod.mk.injEq, List.not_mem_nil, or_false] at h
    rcases h with ⟨rfl, rfl⟩ | ⟨rfl, rfl⟩ | ⟨rfl, rfl⟩ | ⟨rfl, rfl⟩ | ⟨rfl, rfl⟩ | ⟨rfl, rfl⟩ | ⟨rfl, rfl⟩ |
      ⟨rfl, rfl⟩ <;> decide

/-! ### Steps of the reader -/

/-- How a reader of a text goes on after a step. -/
def resume (index : Nat) (cs : List Char) : QuotedStep → Except Failure (List Char × Cursor)
  | .more mode => unquote index mode cs
  | .character c => (unquote index .plain cs).map fun (text, after) => (c :: text, after)
  | .close => .ok ([], ⟨index, cs⟩)
  | .refuse failure => .error failure

theorem endOfDigits_ne_close (high value : Option Nat) (index : Nat) :
    endOfDigits high value index ≠ .close := by
  unfold endOfDigits
  repeat' split
  all_goals exact nofun

/-- Only a quote closes a text. -/
theorem eq_quote_of_quotedStep {mode : QuotedMode} (h : quotedStep index mode c = .close) : c = '"' := by
  unfold quotedStep at h
  split at h
  · split at h
    · assumption
    · repeat' split at h
      all_goals cases h
  · repeat' split at h
    all_goals cases h
  · split at h
    · exact (endOfDigits_ne_close _ _ _ h).elim
    · cases h
  · split at h <;> cases h
  · split at h <;> cases h

theorem unquote_cons {mode : QuotedMode} (c : Char) (cs : List Char) :
    unquote index mode (c :: cs) = resume (index + c.utf8Size) cs (quotedStep index mode c) := by
  rw [unquote]
  cases h : quotedStep index mode c with
  | more mode => rfl
  | character d =>
      rw [resume]
      cases unquote (index + c.utf8Size) .plain cs <;> rfl
  | close =>
      obtain rfl := eq_quote_of_quotedStep h
      rfl
  | refuse failure => rfl

/-! ### Escapes by number -/

/-- After a character that is no digit an escape by number is never read. -/
theorem unquote_digits_none_ne_ok (r : List Char × Cursor) :
    unquote index (.digits high missing none) cs ≠ .ok r := by
  induction cs generalizing index missing with
  | nil => exact nofun
  | cons c cs ih =>
      rw [unquote_cons, quotedStep]
      simp only [Option.bind_none]
      split
      · exact nofun
      · exact ih

theorem quotedStep_digit {d : Nat} (h : IsDigit c d) :
    quotedStep index (.digits high (missing + 1) (some v)) c =
      if missing = 0 then endOfDigits high (some (v * 16 + d)) (index + 1)
      else .more (.digits high missing (some (v * 16 + d))) := by
  have hvalue : (some v).bind (fun v => (Text.hexValue? c).map (v * 16 + ·)) = some (v * 16 + d) := by
    rw [Uuid.hexValue?_eq_some_iff.mpr h]
    rfl
  simp only [quotedStep, hvalue, h.utf8Size, Nat.add_sub_cancel]
  by_cases hmissing : missing = 0
  · simp [hmissing]
  · simp [hmissing]

/-- The digits of an escape by number are read from the left. -/
theorem unquote_digits (h : AreDigits (missing + 1) hs ds) (rest : List Char) :
    unquote index (.digits high (missing + 1) (some v)) (hs ++ rest) =
      resume (index + (missing + 1)) rest
        (endOfDigits high (some (ds.foldl (fun n d => n * 16 + d) v)) (index + (missing + 1))) := by
  induction missing generalizing index v hs ds with
  | zero =>
      obtain ⟨hlength, hdigits⟩ := h
      obtain ⟨c, rfl⟩ := List.length_eq_one_iff.mp hlength
      cases hdigits with
      | cons hc hnil =>
          cases hnil
          rw [List.singleton_append, unquote_cons, quotedStep_digit hc, hc.utf8Size]
          rfl
  | succ missing ih =>
      obtain ⟨hlength, hdigits⟩ := h
      cases hdigits with
      | nil => cases hlength
      | cons hc hmore =>
          rw [List.cons_append, unquote_cons, quotedStep_digit hc, hc.utf8Size, if_neg (Nat.succ_ne_zero _),
            resume, ih ⟨Nat.succ.inj hlength, hmore⟩, Nat.add_assoc, Nat.add_comm 1]
          rfl

/-- Where an escape by number goes on, a digit follows. -/
theorem exists_digit {r : List Char × Cursor}
    (h : unquote index (.digits high missing (some v)) cs = .ok r) :
    ∃ c d rest, cs = c :: rest ∧ IsDigit c d := by
  cases cs with
  | nil => cases h
  | cons c cs =>
      cases hc : Text.hexValue? c with
      | some d => exact ⟨c, d, cs, rfl, Uuid.isDigit_of_hexValue? hc⟩
      | none =>
          rw [unquote_cons, quotedStep] at h
          simp only [hc, Option.bind_some, Option.map_none] at h
          split at h
          · cases h
          · exact (unquote_digits_none_ne_ok r h).elim

/-- Where an escape by number is read there are as many digits as are missing. -/
theorem exists_digits (missing : Nat) {r : List Char × Cursor}
    (h : unquote index (.digits high (missing + 1) (some v)) cs = .ok r) :
    ∃ hs ds rest, cs = hs ++ rest ∧ AreDigits (missing + 1) hs ds := by
  induction missing generalizing index v cs with
  | zero =>
      obtain ⟨c, d, rest, rfl, hc⟩ := exists_digit h
      exact ⟨[c], [d], rest, rfl, rfl, .cons hc .nil⟩
  | succ missing ih =>
      obtain ⟨c, d, rest, rfl, hc⟩ := exists_digit h
      rw [unquote_cons, quotedStep_digit hc, if_neg (Nat.succ_ne_zero _)] at h
      obtain ⟨hs, ds, rest, rfl, hlength, hdigits⟩ := ih h
      exact ⟨c :: hs, d :: ds, rest, rfl, congrArg Nat.succ hlength, .cons hc hdigits⟩

/-- A unit of UTF-16 is read as the number of its digits. -/
theorem unquote_unit (h : SpellsUnit cs n) (rest : List Char) :
    unquote index .plain (cs ++ rest) = resume (index + 6) rest (endOfDigits none (some n) (index + 6)) := by
  obtain ⟨hs, ds, rfl, hdigits, rfl⟩ := h
  exact unquote_digits hdigits rest

/-- So is the second unit of a pair. -/
theorem unquote_half {first : Nat} (h : SpellsUnit cs n) (rest : List Char) :
    unquote index (.half first) (cs ++ rest) =
      resume (index + 6) rest (endOfDigits (some first) (some n) (index + 6)) := by
  obtain ⟨hs, ds, rfl, hdigits, rfl⟩ := h
  exact unquote_digits hdigits rest

theorem exists_unit {r : List Char × Cursor} (h : unquote index .plain ('\\' :: 'u' :: cs) = .ok r) :
    ∃ hs n rest, '\\' :: 'u' :: cs = hs ++ rest ∧ SpellsUnit hs n := by
  obtain ⟨hs, ds, rest, rfl, hdigits⟩ := exists_digits 3 h
  exact ⟨_, _, rest, rfl, hs, ds, rfl, hdigits, rfl⟩

/-- After the first unit of a pair the second is read and nothing else. -/
theorem exists_second {first : Nat} {r : List Char × Cursor} (h : unquote index (.half first) cs = .ok r) :
    ∃ hs n rest, cs = hs ++ rest ∧ SpellsUnit hs n := by
  match cs with
  | [] => cases h
  | c :: cs =>
      rw [unquote_cons, quotedStep] at h
      split at h
      · next hc =>
        match cs with
        | [] => cases h
        | c' :: cs =>
            rw [resume, unquote_cons, quotedStep] at h
            split at h
            · next hc' =>
              obtain rfl := hc
              obtain rfl := hc'
              obtain ⟨hs, ds, rest, rfl, hdigits⟩ := exists_digits 3 h
              exact ⟨_, _, rest, rfl, hs, ds, rfl, hdigits, rfl⟩
            · cases h
      · cases h

/-! ### Characters -/

theorem SpellsUnit.lt (h : SpellsUnit cs n) : n < 0x10000 := by
  obtain ⟨hs, ds, -, hdigits, rfl⟩ := h
  have hvalue := Positional.value_lt ds (Uuid.Grouped.last hdigits).digits_lt
  rwa [← hdigits.2.length_eq, hdigits.1] at hvalue

/-- The number of a character is none of half a pair. -/
theorem not_half_toNat (c : Char) : isLow c.toNat = false ∧ isHigh c.toNat = false := by
  have hvalid : c.toNat < 0xD800 ∨ 0xDFFF < c.toNat ∧ c.toNat < 0x110000 := c.valid
  simp only [isLow, isHigh, Bool.and_eq_false_iff, decide_eq_false_iff_not]
  omega

/-- A spelling of a character is read as that character, whatever follows. -/
theorem unquote_character (h : SpellsCharacter hs c) (index : Nat) :
    ∃ i, ∀ rest, unquote index .plain (hs ++ rest) = resume i rest (.character c) := by
  cases h with
  | plain hquote hbackslash hcontrol =>
      refine ⟨index + c.utf8Size, fun rest => ?_⟩
      rw [List.singleton_append, unquote_cons, quotedStep, if_neg hquote, if_neg hbackslash,
        if_neg (Nat.not_lt_of_le hcontrol)]
  | @letter d _ h =>
      refine ⟨index + 1 + d.utf8Size, fun rest => ?_⟩
      have hstep : quotedStep (index + 1) .escaped d = .character c := by
        rw [quotedStep, escapedCharacter?_eq_some_iff.mpr h]
      show unquote (index + 1) .escaped (d :: rest) = _
      rw [unquote_cons, hstep]
  | unit h =>
      refine ⟨index + 6, fun rest => ?_⟩
      rw [unquote_unit h, endOfDigits, (not_half_toNat c).1, (not_half_toNat c).2]
      simp [Char.ofNat_toNat]
  | @pair cs cs' first second _ h h' hfirst hsecond hc =>
      refine ⟨index + 6 + 6, fun rest => ?_⟩
      have hnotLow : isLow first = false := by simp [isLow]; omega
      have hhigh : isHigh first = true := by simp [isHigh]; omega
      have hlow : isLow second = true := by simp [isLow]; omega
      have hvalue : (first - 0xD800) * 0x400 + (second - 0xDC00) + 0x10000 = c.toNat := by omega
      rw [List.append_assoc, unquote_unit h, endOfDigits, hnotLow, hhigh]
      simp only [Bool.false_eq_true, if_false, if_true, resume]
      rw [unquote_half h', endOfDigits, hlow, if_pos rfl, hvalue, Char.ofNat_toNat]
      rfl

/-- The character with a valid number has that number. -/
theorem toNat_ofNat (h : n.isValidChar) : (Char.ofNat n).toNat = n := by
  rw [Char.ofNat, dif_pos h]
  rfl

/-- After the first unit of a pair the second makes up a character with it. -/
theorem exists_pair {first : Nat} {r : List Char × Cursor} (hunit : SpellsUnit hs first)
    (hhigh : isHigh first = true) (h : unquote index (.half first) cs = .ok r) :
    ∃ hs' c rest, cs = hs' ++ rest ∧ SpellsCharacter (hs ++ hs') c := by
  obtain ⟨hs', second, rest, rfl, hunit'⟩ := exists_second h
  rw [unquote_half hunit', endOfDigits] at h
  split at h
  · next hlow =>
    simp only [isHigh, isLow, Bool.and_eq_true, decide_eq_true_eq] at hhigh hlow
    have hvalid : Nat.isValidChar (0x10000 + (first - 0xD800) * 0x400 + (second - 0xDC00)) := by
      refine .inr ⟨?_, ?_⟩ <;> omega
    exact ⟨hs', _, rest, rfl, .pair hunit hunit' hhigh hlow (toNat_ofNat hvalid)⟩
  · cases h

/-- What is read as a text and does not close it begins with the spelling of a character. -/
theorem exists_character {r : List Char × Cursor} (h : unquote index .plain (d :: cs) = .ok r)
    (hquote : d ≠ '"') : ∃ hs c rest, d :: cs = hs ++ rest ∧ SpellsCharacter hs c := by
  by_cases hbackslash : d = '\\'
  case neg =>
    rw [unquote_cons, quotedStep, if_neg hquote, if_neg hbackslash] at h
    split at h
    · cases h
    · next hcontrol => exact ⟨[d], d, cs, rfl, .plain hquote hbackslash (Nat.le_of_not_lt hcontrol)⟩
  obtain rfl := hbackslash
  match cs with
  | [] => cases h
  | e :: cs =>
      cases hletter : escapedCharacter? e with
      | some c => exact ⟨['\\', e], c, cs, rfl, .letter (escapedCharacter?_eq_some_iff.mp hletter)⟩
      | none =>
          have hu : e = 'u' := by
            refine Decidable.byContradiction fun hu => ?_
            change unquote (index + 1) .escaped (e :: cs) = .ok r at h
            rw [unquote_cons, quotedStep, hletter] at h
            simp only [if_neg hu] at h
            cases h
          obtain rfl := hu
          obtain ⟨hs, n, rest, heq, hunit⟩ := exists_unit h
          rw [heq, unquote_unit hunit, endOfDigits] at h
          split at h
          · cases h
          · next hlow =>
            split at h
            · next hhigh =>
              obtain ⟨hs', c, rest, rfl, hpair⟩ := exists_pair hunit hhigh h
              exact ⟨hs ++ hs', c, rest, heq.trans (List.append_assoc ..).symm, hpair⟩
            · next hhigh =>
              have hvalid : n.isValidChar := by
                have hlt := hunit.lt
                simp only [isLow, isHigh, Bool.and_eq_true, decide_eq_true_eq] at hlow hhigh
                show n < 0xD800 ∨ 0xDFFF < n ∧ n < 0x110000
                omega
              exact ⟨hs, Char.ofNat n, rest, heq, .unit (by rwa [toNat_ofNat hvalid])⟩

/-! ### Texts -/

theorem SpellsCharacter.ne_nil (h : SpellsCharacter hs c) : hs ≠ [] := by
  have hunit : ∀ {cs n}, SpellsUnit cs n → cs ≠ [] := by
    rintro _ _ ⟨_, _, rfl, -⟩
    exact List.cons_ne_nil _ _
  cases h with
  | plain => exact List.cons_ne_nil _ _
  | letter => exact List.cons_ne_nil _ _
  | unit h => exact hunit h
  | pair h => exact List.append_ne_nil_of_left_ne_nil (hunit h) _

/-- What spells a text is read as that text, up to the quote behind it. -/
theorem unquote_of_spells (h : SpellsText cs ts) (index : Nat) (rest : List Char) :
    ∃ i, unquote index .plain (cs ++ '"' :: rest) = .ok (ts, ⟨i, rest⟩) := by
  induction h generalizing index with
  | nil => exact ⟨index + 1, rfl⟩
  | cons h _ ih =>
      obtain ⟨i, hi⟩ := unquote_character h index
      obtain ⟨j, hj⟩ := ih i
      refine ⟨j, ?_⟩
      rw [List.append_assoc, hi, resume, hj]
      rfl

/-- What is read as a text spells it, up to the quote behind it. -/
theorem of_unquote (h : unquote index .plain cs = .ok (ts, after)) :
    ∃ body, cs = body ++ '"' :: after.rest ∧ SpellsText body ts := by
  induction hlength : cs.length using Nat.strongRecOn generalizing index cs ts with
  | ind length ih =>
      cases cs with
      | nil => cases h
      | cons d cs =>
          by_cases hquote : d = '"'
          · obtain rfl := hquote
            cases h
            exact ⟨[], rfl, .nil⟩
          · obtain ⟨hs, c, rest, heq, hcharacter⟩ := exists_character h hquote
            obtain ⟨i, hi⟩ := unquote_character hcharacter index
            rw [heq, hi, resume] at h
            cases hrest : unquote i .plain rest with
            | error failure =>
                rw [hrest] at h
                cases h
            | ok r =>
                obtain ⟨ts', after'⟩ := r
                rw [hrest] at h
                cases h
                have hshorter : rest.length < length := by
                  rw [← hlength, heq, List.length_append]
                  exact Nat.lt_add_of_pos_left (List.length_pos_of_ne_nil hcharacter.ne_nil)
                obtain ⟨body, rfl, htext⟩ := ih _ hshorter hrest rfl
                exact ⟨hs ++ body, by rw [heq, List.append_assoc], .cons hcharacter htext⟩

/-! ### Whole texts -/

namespace Cursor

theorem skipBlanks_of_blanks {before : List Char} (hbefore : before.all isBlank = true)
    (hd : isBlank d = false) :
    (⟨index, before ++ d :: cs⟩ : Cursor).skipBlanks = ⟨index + before.length, d :: cs⟩ := by
  have hblank : ∀ c ∈ before, isBlank c = true := List.all_eq_true.mp hbefore
  rw [skipBlanks, List.takeWhile_append_of_pos hblank, List.dropWhile_append_of_pos hblank,
    List.takeWhile_cons_of_neg (by simp [hd]), List.dropWhile_cons_of_neg (by simp [hd]), List.append_nil]

theorem rest_skipBlanks (c : Cursor) : c.skipBlanks.rest = c.rest.dropWhile isBlank := rfl

end Cursor

theorem all_isBlank_iff : cs.all isBlank = true ↔ cs.dropWhile isBlank = [] := by
  rw [List.dropWhile_eq_nil_iff, List.all_eq_true]

/-- Where a text is wanted nothing else is read. -/
theorem unwanted_ne_ok {α : Type} {wanted : Wanted} (c : Cursor) (r : α) : unwanted wanted c ≠ .ok r := by
  rw [unwanted]
  cases anything c with
  | ok found => exact nofun
  | error failure => exact nofun

/-- A text is read from what spells it between quotes, whatever follows. -/
theorem text_of_spells (wanted : Wanted) {before body : List Char} {s : String}
    (hbefore : before.all isBlank = true) (hbody : SpellsText body s.toList) (index : Nat)
    (rest : List Char) :
    ∃ i, text wanted ⟨index, before ++ '"' :: (body ++ '"' :: rest)⟩ = .ok (s, ⟨i, rest⟩) := by
  obtain ⟨i, hi⟩ := unquote_of_spells hbody (index + before.length + 1) rest
  refine ⟨i, ?_⟩
  rw [text, Cursor.skipBlanks_of_blanks hbefore rfl]
  simp only [hi, bind, Except.bind, pure, Except.pure, String.ofList_toList]

/-- What is read as a text spells it between quotes. -/
theorem of_text {s : String} {wanted : Wanted} {c : Cursor} (h : text wanted c = .ok (s, after)) :
    ∃ before body, c.rest = before ++ '"' :: (body ++ '"' :: after.rest) ∧ before.all isBlank = true ∧
      SpellsText body s.toList := by
  have hsplit := List.takeWhile_append_dropWhile (p := isBlank) (l := c.rest)
  rw [text] at h
  split at h
  · cases h
  · next cs hrest =>
    cases hread : unquote (c.skipBlanks.index + 1) .plain cs with
    | error failure =>
        rw [hread] at h
        cases h
    | ok r =>
        rw [hread] at h
        cases h
        obtain ⟨body, rfl, hbody⟩ := of_unquote hread
        rw [Cursor.rest_skipBlanks] at hrest
        refine ⟨c.rest.takeWhile isBlank, body, ?_, List.all_takeWhile, by rwa [String.toList_ofList]⟩
        rw [← hrest, hsplit]
  · exact (unwanted_ne_ok _ _ h).elim

/-- A text between quotes ends where it ends, and nothing else is spelt there. -/
theorem spelling_unique {before body before' body' rest' : List Char} {s s' : String}
    (hbefore : before.all isBlank = true) (hbody : SpellsText body s.toList)
    (hbefore' : before'.all isBlank = true) (hbody' : SpellsText body' s'.toList)
    (h : before ++ '"' :: (body ++ '"' :: rest) = before' ++ '"' :: (body' ++ '"' :: rest')) :
    s = s' ∧ rest = rest' := by
  obtain ⟨i, hi⟩ := text_of_spells .identifier hbefore hbody 0 rest
  obtain ⟨i', hi'⟩ := text_of_spells .identifier hbefore' hbody' 0 rest'
  rw [h, hi'] at hi
  cases hi
  exact ⟨rfl, rfl⟩

/-- A JSON text is at most one text between quotes. -/
theorem IsText.unique {json s s' : String} (h : IsText json s) (h' : IsText json s') : s = s' := by
  obtain ⟨before, body, after, heq, hbefore, -, hbody⟩ := h
  obtain ⟨before', body', after', heq', hbefore', -, hbody'⟩ := h'
  exact (spelling_unique hbefore hbody hbefore' hbody' (heq.symm.trans heq')).1

/-- The first of the characters of a text between quotes that is no blank is a quote. -/
theorem IsText.head?_dropWhile {json s : String} (h : IsText json s) :
    (json.toList.dropWhile isBlank).head? = some '"' := by
  obtain ⟨before, body, after, heq, hbefore, -, -⟩ := h
  rw [heq, List.dropWhile_append_of_pos (List.all_eq_true.mp hbefore)]
  rfl

/-- Behind a text between quotes nothing may follow but blanks. -/
theorem IsText.not_isText_append {json more s s' : String} (h : IsText json s)
    (hmore : ¬ more.toList.all isBlank = true) : ¬ IsText (json ++ more) s' := by
  obtain ⟨before, body, after, heq, hbefore, -, hbody⟩ := h
  rintro ⟨before', body', after', heq', hbefore', hafter', hbody'⟩
  have hsame : before ++ '"' :: (body ++ '"' :: (after ++ more.toList)) =
      before' ++ '"' :: (body' ++ '"' :: after') := by
    rw [← heq', String.toList_append, heq]
    simp
  obtain ⟨-, rfl⟩ := spelling_unique hbefore hbody hbefore' hbody' hsame
  rw [List.all_append, Bool.and_eq_true] at hafter'
  exact hmore hafter'.2

/-- The identifier of a JSON text is that of the text between its quotes. -/
theorem readAll_identifier {json s : String} (h : IsText json s) :
    ∃ index, readAll identifier json =
      (Uuid.read s).mapError fun reason => ⟨.notIdentifier reason, index⟩ := by
  obtain ⟨before, body, after, heq, hbefore, hafter, hbody⟩ := h
  obtain ⟨i, hi⟩ := text_of_spells .identifier hbefore hbody 0 after
  refine ⟨i, ?_⟩
  have hend : (⟨i, after⟩ : Cursor).skipBlanks.rest = [] := all_isBlank_iff.mp hafter
  rw [readAll, Cursor.start, heq, identifier, hi]
  cases hread : Uuid.read s with
  | error reason => simp only [bind, Except.bind, hread, Except.mapError, Cursor.fail]
  | ok u =>
      simp only [bind, Except.bind, hread, Except.mapError, pure, Except.pure, hend,
        List.isEmpty_nil, if_true]

/-- Nothing is read as an identifier but a text between quotes. -/
theorem exists_isText {json : String} {u : Uuid} (h : readAll identifier json = .ok u) :
    ∃ s, IsText json s := by
  rw [readAll, identifier] at h
  cases htext : text .identifier (Cursor.start json) with
  | error failure =>
      rw [htext] at h
      cases h
  | ok r =>
      obtain ⟨s, after⟩ := r
      obtain ⟨before, body, heq, hbefore, hbody⟩ := of_text htext
      refine ⟨s, before, body, after.rest, heq, hbefore, all_isBlank_iff.mpr ?_, hbody⟩
      rw [htext] at h
      simp only [bind, Except.bind] at h
      cases hread : Uuid.read s with
      | error reason =>
          simp only [hread, Cursor.fail] at h
          cases h
      | ok v =>
          simp only [hread, pure, Except.pure] at h
          split at h
          · next hend => exact List.isEmpty_iff.mp hend
          · cases h

end TypedId.JsonText
