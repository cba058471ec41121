import Mathlib.Data.List.Forall2
import Mathlib.Tactic.IntervalCases
import TypedId.Identifier

/-!
Which texts are identifiers, and of which value.

`Spells` tells how identifiers are spelt: thirty-two hexadecimal digits, or groups of them with
hyphens, plain, in braces or behind an announcement. It is told without reading. A text is read as an
identifier exactly if it is one of these spellings, and then the digits are the identifier's value
(`read_iff_spells`). The written form is one of the spellings, so it reads back.
-/

namespace TypedId.Uuid

open Text

/-! ### Digits -/

/-- Whether a character stands for a hexadecimal digit, in lower or in upper case. -/
def IsDigit (c : Char) (d : Nat) : Prop :=
  d < 16 ∧ (c = hexCharacter d ∨ c = (hexCharacter d).toUpper)

/-- Whether some characters are so many hexadecimal digits. -/
def AreDigits (count : Nat) (cs : List Char) (ds : List Nat) : Prop :=
  cs.length = count ∧ List.Forall₂ IsDigit cs ds

/-- A digit in upper case has the same value. -/
theorem hexValue?_toUpper_hexCharacter {d : Nat} (h : d < 16) :
    hexValue? (hexCharacter d).toUpper = some d := by
  revert d
  decide

/-- A character between two others is one of those whose numbers lie between theirs. -/
theorem eq_ofNat_of_between {c low high : Char} (h : low ≤ c ∧ c ≤ high) :
    low.toNat ≤ c.toNat ∧ c.toNat ≤ high.toNat ∧ c = Char.ofNat c.toNat :=
  ⟨h.1, h.2, (Char.ofNat_toNat c).symm⟩

/-- Only the sixteen digits, in either case, have a value. -/
theorem isDigit_of_hexValue? {c : Char} {d : Nat} (h : hexValue? c = some d) : IsDigit c d := by
  have hcase : ∀ {low high : Char} (offset : Nat), low ≤ c ∧ c ≤ high →
      (∀ n, low.toNat ≤ n → n ≤ high.toNat →
        n - offset < 16 ∧ (Char.ofNat n = hexCharacter (n - offset) ∨
          Char.ofNat n = (hexCharacter (n - offset)).toUpper)) → IsDigit c (c.toNat - offset) := by
    intro low high offset hbetween hall
    obtain ⟨hlow, hhigh, hc⟩ := eq_ofNat_of_between hbetween
    have hn := hall c.toNat hlow hhigh
    rwa [← hc] at hn
  rw [hexValue?] at h
  split at h
  · next hdigit =>
    cases h
    refine hcase 48 hdigit fun n hlow hhigh => ?_
    simp only [show '0'.toNat = 48 from rfl, show '9'.toNat = 57 from rfl] at hlow hhigh
    interval_cases n <;> decide
  split at h
  · next hdigit =>
    cases h
    refine hcase 87 hdigit fun n hlow hhigh => ?_
    simp only [show 'a'.toNat = 97 from rfl, show 'f'.toNat = 102 from rfl] at hlow hhigh
    interval_cases n <;> decide
  split at h
  · next hdigit =>
    cases h
    refine hcase 55 hdigit fun n hlow hhigh => ?_
    simp only [show 'A'.toNat = 65 from rfl, show 'F'.toNat = 70 from rfl] at hlow hhigh
    interval_cases n <;> decide
  · cases h

/-- A character has the value of a digit exactly if it is that digit. -/
theorem hexValue?_eq_some_iff {c : Char} {d : Nat} : hexValue? c = some d ↔ IsDigit c d := by
  constructor
  · exact isDigit_of_hexValue?
  · rintro ⟨hd, rfl | rfl⟩
    · exact hexValue?_hexCharacter hd
    · exact hexValue?_toUpper_hexCharacter hd

/-- So it is with lists of characters. -/
theorem mapM_hexValue?_eq_some_iff {cs : List Char} {ds : List Nat} :
    cs.mapM hexValue? = some ds ↔ List.Forall₂ IsDigit cs ds := by
  induction cs generalizing ds with
  | nil => simp [eq_comm]
  | cons c cs ih =>
      rw [List.mapM_cons, List.forall₂_cons_left_iff]
      simp only [bind, Option.bind_eq_some_iff, pure, Option.some.injEq, hexValue?_eq_some_iff, ih]
      grind

/-- A single group is read exactly if it has as many digits as it should. -/
theorem readGroups_single {n : Nat} {cs : List Char} {ds : List Nat} :
    readGroups [n] cs = some ds ↔ AreDigits n cs ds := by
  rw [readGroups, AreDigits, ← mapM_hexValue?_eq_some_iff]
  split
  · next h => simp [h]
  · next h => simp [h]

/-! ### Groups -/

/-- Whether some characters are hexadecimal digits in groups of so many, with hyphens between. -/
inductive Grouped : List Nat → List Char → List Nat → Prop where
  | last {n : Nat} {cs : List Char} {ds : List Nat} (h : AreDigits n cs ds) : Grouped [n] cs ds
  | more {n : Nat} {ns : List Nat} {cs cs' : List Char} {ds ds' : List Nat} (h : AreDigits n cs ds)
      (hmore : Grouped ns cs' ds') : Grouped (n :: ns) (cs ++ '-' :: cs') (ds ++ ds')

/-- There is at least one group. -/
theorem Grouped.ne_nil {ns : List Nat} {cs : List Char} {ds : List Nat} (h : Grouped ns cs ds) :
    ns ≠ [] := by
  cases h <;> exact List.cons_ne_nil _ _

/-- Several groups are read exactly if a hyphen stands behind the first, which is read alone, and the
others are read. -/
theorem readGroups_cons {n m : Nat} {ns : List Nat} {cs : List Char} {ds : List Nat} :
    readGroups (n :: m :: ns) cs = some ds ↔
      ∃ cs₁ cs₂ ds₁ ds₂, cs = cs₁ ++ '-' :: cs₂ ∧ ds = ds₁ ++ ds₂ ∧ AreDigits n cs₁ ds₁ ∧
        readGroups (m :: ns) cs₂ = some ds₂ := by
  rw [readGroups]
  swap
  · exact List.cons_ne_nil m ns
  simp only [bind, Option.bind_eq_some_iff, mapM_hexValue?_eq_some_iff]
  constructor
  · rintro ⟨ds₁, hds₁, h⟩
    split at h
    · next cs₂ hcs₂ =>
      obtain ⟨ds₂, hds₂, h⟩ := Option.bind_eq_some_iff.mp h
      cases h
      have hlength : (cs.take n).length = n := by
        have := congrArg List.length hcs₂
        simp only [List.length_drop, List.length_cons, List.length_take] at this ⊢
        omega
      exact ⟨_, _, _, _, (hcs₂ ▸ List.take_append_drop n cs).symm, rfl, ⟨hlength, hds₁⟩, hds₂⟩
    · cases h
  · rintro ⟨cs₁, cs₂, ds₁, ds₂, rfl, rfl, ⟨rfl, hds₁⟩, hds₂⟩
    refine ⟨ds₁, by simpa using hds₁, ?_⟩
    simp [hds₂]

/-- Groups are read where they stand, and nothing else is read as groups. -/
theorem readGroups_eq_some_iff {ns : List Nat} {cs : List Char} {ds : List Nat} (hne : ns ≠ []) :
    readGroups ns cs = some ds ↔ Grouped ns cs ds := by
  induction ns generalizing cs ds with
  | nil => exact (hne rfl).elim
  | cons n ns ih =>
      cases ns with
      | nil =>
          rw [readGroups_single]
          constructor
          · exact .last
          · intro h
            cases h with
            | last h => exact h
            | more _ hmore => exact (hmore.ne_nil rfl).elim
      | cons m ns =>
          rw [readGroups_cons]
          constructor
          · rintro ⟨cs₁, cs₂, ds₁, ds₂, rfl, rfl, hdigits, hmore⟩
            exact .more hdigits ((ih (List.cons_ne_nil _ _)).mp hmore)
          · intro h
            cases h with
            | more hdigits hmore =>
                exact ⟨_, _, _, _, rfl, rfl, hdigits, (ih (List.cons_ne_nil _ _)).mpr hmore⟩

/-! ### Lengths -/

/-- The length in bytes adds up. -/
theorem byteLength_append (cs cs' : List Char) :
    byteLength (cs ++ cs') = byteLength cs + byteLength cs' := by
  induction cs with
  | nil => simp [byteLength]
  | cons c cs ih => simp only [List.cons_append, byteLength, ih, Nat.add_assoc]

/-- A digit is one byte long. -/
theorem IsDigit.utf8Size {c : Char} {d : Nat} (h : IsDigit c d) : c.utf8Size = 1 := by
  have hsize : ∀ d < 16, (hexCharacter d).utf8Size = 1 ∧ (hexCharacter d).toUpper.utf8Size = 1 := by decide
  obtain ⟨hd, rfl | rfl⟩ := h
  · exact (hsize d hd).1
  · exact (hsize d hd).2

theorem byteLength_of_digits {cs : List Char} {ds : List Nat} (h : List.Forall₂ IsDigit cs ds) :
    byteLength cs = cs.length := by
  induction h with
  | nil => rfl
  | cons h _ ih => rw [byteLength, ih, h.utf8Size, List.length_cons, Nat.add_comm]

/-- Of digits, the length in bytes is their number. -/
theorem AreDigits.byteLength {n : Nat} {cs : List Char} {ds : List Nat} (h : AreDigits n cs ds) :
    byteLength cs = n :=
  (byteLength_of_digits h.2).trans h.1

/-- Groups are as long as their digits with a hyphen for each group but one. -/
theorem Grouped.byteLength {ns : List Nat} {cs : List Char} {ds : List Nat} (h : Grouped ns cs ds) :
    byteLength cs + 1 = ns.sum + ns.length := by
  induction h with
  | last h => simp [h.byteLength]
  | more h _ ih =>
      rw [byteLength_append, Uuid.byteLength, h.byteLength, List.sum_cons, List.length_cons,
        show '-'.utf8Size = 1 from rfl]
      omega

/-- Groups hold as many digits as their lengths add up to. -/
theorem Grouped.length_digits {ns : List Nat} {cs : List Char} {ds : List Nat} (h : Grouped ns cs ds) :
    ds.length = ns.sum := by
  induction h with
  | last h => simp [← h.2.length_eq, h.1]
  | more h _ ih => rw [List.length_append, ← h.2.length_eq, h.1, ih, List.sum_cons]

/-- All digits of all groups are less than sixteen. -/
theorem Grouped.digits_lt {ns : List Nat} {cs : List Char} {ds : List Nat} (h : Grouped ns cs ds) :
    ∀ d ∈ ds, d < 16 := by
  have hdigits : ∀ {cs : List Char} {ds : List Nat}, List.Forall₂ IsDigit cs ds → ∀ d ∈ ds, d < 16 := by
    intro cs ds h
    induction h with
    | nil => exact fun d hd => (List.not_mem_nil hd).elim
    | cons h _ ih =>
        intro d hd
        obtain rfl | hd := List.mem_cons.mp hd
        · exact h.1
        · exact ih d hd
  induction h with
  | last h => exact hdigits h.2
  | more h _ ih => exact fun d hd => (List.mem_append.mp hd).elim (hdigits h.2 d) (ih d)

/-! ### Spellings -/

/-- The ways to spell an identifier with such digits, given what may be put before it to announce
it. -/
inductive Spells (announces : List Char → Prop) : List Char → List Nat → Prop where
  | plain {cs : List Char} {ds : List Nat} (h : AreDigits 32 cs ds) : Spells announces cs ds
  | hyphenated {cs : List Char} {ds : List Nat} (h : Grouped [8, 4, 4, 4, 12] cs ds) :
      Spells announces cs ds
  | braced {cs : List Char} {ds : List Nat} (h : Grouped [8, 4, 4, 4, 12] cs ds) :
      Spells announces ('{' :: (cs ++ ['}'])) ds
  | announced {before cs : List Char} {ds : List Nat} (hbefore : announces before)
      (h : Grouped [8, 4, 4, 4, 12] cs ds) : Spells announces (before ++ cs) ds

/-- Whether some characters are `urn:uuid:` in any mixture of cases. -/
def AnnouncesInAnyCase (cs : List Char) : Prop := cs.map Char.toLower = "urn:uuid:".toList

/-- The groups of the usual form take thirty-six bytes, hyphens included. -/
theorem Grouped.byteLength_eq {cs : List Char} {ds : List Nat} (h : Grouped [8, 4, 4, 4, 12] cs ds) :
    Uuid.byteLength cs = 36 := by
  simpa using h.byteLength

/-- A text in braces is found to be in braces. -/
theorem isBraced_braces (cs : List Char) : isBraced ('{' :: (cs ++ ['}'])) = true := by
  simp [isBraced, List.getLast?_cons]

/-- What stands between the braces is found again. -/
theorem inner_braces (cs : List Char) : inner ('{' :: (cs ++ ['}'])) = cs := by
  simp [inner]

/-- A text in braces is its inner part with braces around it. -/
theorem eq_braces_of_isBraced {cs : List Char} (h : isBraced cs = true) :
    cs = '{' :: (inner cs ++ ['}']) := by
  cases cs with
  | nil => cases h
  | cons c cs =>
      simp only [isBraced, List.length_cons, List.head?_cons, Bool.and_eq_true, decide_eq_true_eq,
        beq_iff_eq, Option.some.injEq] at h
      obtain ⟨⟨hlength, rfl⟩, hlast⟩ := h
      have hne : cs ≠ [] := List.ne_nil_of_length_pos (by omega)
      have hbrace : cs.getLast hne = '}' := by
        rw [List.getLast?_cons_of_ne_nil hne, List.getLast?_eq_some_getLast hne] at hlast
        exact Option.some.inj hlast
      rw [inner, List.drop_succ_cons, List.drop_zero, ← hbrace, List.dropLast_append_getLast]

theorem AnnouncesInAnyCase.length {cs : List Char} (h : AnnouncesInAnyCase cs) : cs.length = 9 := by
  simpa using congrArg List.length h

/-- A character that is an ASCII letter in lower case is one in either case. -/
theorem utf8Size_of_toLower {c : Char} (h : c.toLower.utf8Size = 1) : c.utf8Size = 1 := by
  delta Char.toLower at h
  split at h
  · next hupper =>
    rw [Char.utf8Size_eq_one_iff]
    exact UInt32.le_trans hupper.2 (by decide)
  · exact h

/-- An announcement is nine bytes long, in any case: no character outside ASCII is read as one of its
letters. -/
theorem AnnouncesInAnyCase.byteLength {cs : List Char} (h : AnnouncesInAnyCase cs) :
    Uuid.byteLength cs = 9 := by
  have hall : ∀ c ∈ cs, c.utf8Size = 1 := by
    intro c hc
    have hmem : c.toLower ∈ "urn:uuid:".toList := h ▸ List.mem_map_of_mem hc
    have hsize : "urn:uuid:".toList.all (·.utf8Size = 1) = true := by decide
    exact utf8Size_of_toLower (of_decide_eq_true (List.all_eq_true.mp hsize _ hmem))
  have hcount : ∀ {cs : List Char}, (∀ c ∈ cs, c.utf8Size = 1) → Uuid.byteLength cs = cs.length := by
    intro cs hcs
    induction cs with
    | nil => rfl
    | cons c cs ih =>
        rw [Uuid.byteLength, hcs c List.mem_cons_self, ih fun c hc => hcs c (List.mem_cons_of_mem _ hc),
          List.length_cons, Nat.add_comm]
  rw [hcount hall, h.length]

/-- An announcement is found exactly where the first nine characters are one, in any case. -/
theorem hasUrnPrefix_iff {cs : List Char} : hasUrnPrefix cs = true ↔ AnnouncesInAnyCase (cs.take 9) := by
  rw [hasUrnPrefix, beq_iff_eq, AnnouncesInAnyCase]
  rfl

/-- A text is read as digits exactly if it is a spelling of them. -/
theorem digits_attempt_eq_some_iff {cs : List Char} {ds : List Nat} :
    (attempt cs).digits = some ds ↔ Spells AnnouncesInAnyCase cs ds := by
  have hgroups : ∀ {cs : List Char}, readGroups groupLengths cs = some ds ↔ Grouped [8, 4, 4, 4, 12] cs ds :=
    readGroups_eq_some_iff (List.cons_ne_nil _ _)
  constructor
  · intro h
    rw [attempt] at h
    split at h
    · exact .plain (readGroups_single.mp h)
    split at h
    · exact .hyphenated (hgroups.mp h)
    split at h
    · next hbraced =>
      rw [eq_braces_of_isBraced (Bool.and_eq_true_iff.mp hbraced).2]
      exact .braced (hgroups.mp h)
    split at h
    · next hannounced =>
      rw [← List.take_append_drop 9 cs]
      exact .announced (hasUrnPrefix_iff.mp (Bool.and_eq_true_iff.mp hannounced).2) (hgroups.mp h)
    · cases h
  · intro h
    cases h with
    | plain h =>
        rw [attempt]
        simp only [h.byteLength, if_true]
        exact readGroups_single.mpr h
    | hyphenated h =>
        rw [attempt]
        simp only [h.byteLength_eq, Nat.reduceEqDiff, if_false, if_true]
        exact hgroups.mpr h
    | @braced cs _ h =>
        have hsize : byteLength ('{' :: (cs ++ ['}'])) = 38 := by
          rw [byteLength, byteLength_append, h.byteLength_eq]
          rfl
        rw [attempt]
        simp only [hsize, isBraced_braces, inner_braces, Nat.reduceEqDiff, if_false, decide_true,
          Bool.and_self, if_true]
        exact hgroups.mpr h
    | @announced before cs _ hbefore h =>
        have hsize : byteLength (before ++ cs) = 45 := by
          rw [byteLength_append, hbefore.byteLength, h.byteLength_eq]
        have hannounced : hasUrnPrefix (before ++ cs) = true := by
          rw [hasUrnPrefix_iff, List.take_left' hbefore.length]
          exact hbefore
        rw [attempt]
        simp only [hsize, hannounced, List.drop_left' hbefore.length, Nat.reduceEqDiff,
          decide_false, decide_true,
          Bool.false_and, Bool.and_self, Bool.false_eq_true, if_false, if_true]
        exact hgroups.mpr h

/-- Digits without hyphens are a single group. -/
theorem AreDigits.grouped {cs : List Char} {ds : List Nat} (h : AreDigits 32 cs ds) :
    Grouped [32] cs ds := .last h

/-- However it is spelt, an identifier has thirty-two digits. -/
theorem Spells.value_lt {announces : List Char → Prop} {cs : List Char} {ds : List Nat}
    (h : Spells announces cs ds) :
    Positional.value 16 ds < Nat.pow 2 128 := by
  have hvalue : ∀ {ns : List Nat} {cs : List Char}, Grouped ns cs ds → ns.sum = 32 →
      Positional.value 16 ds < Nat.pow 2 128 := by
    intro ns cs h hsum
    have hlt := Positional.value_lt ds h.digits_lt
    rw [h.length_digits, hsum] at hlt
    exact Nat.lt_of_lt_of_eq hlt (by decide)
  cases h with
  | plain h => exact hvalue h.grouped rfl
  | hyphenated h | braced h | announced _ h => exact hvalue h rfl

/-- A text is read as an identifier exactly if it is a spelling of the identifier's digits. -/
theorem read_iff_spells {text : String} {u : Uuid} :
    read text = .ok u ↔
      ∃ ds, Spells AnnouncesInAnyCase text.toList ds ∧ u.value = Positional.value 16 ds := by
  rw [read]
  constructor
  · intro h
    split at h
    · next ds hds =>
      have hspells := digits_attempt_eq_some_iff.mp hds
      cases h
      exact ⟨ds, hspells, Nat.mod_eq_of_lt hspells.value_lt⟩
    · cases h
  · rintro ⟨ds, hspells, hvalue⟩
    rw [digits_attempt_eq_some_iff.mpr hspells]
    obtain ⟨n, hn⟩ := u
    obtain rfl : n = Positional.value 16 ds := hvalue
    simp only [ofNat, Nat.mod_eq_of_lt hn]

/-! ### The written form -/

/-- Putting hyphens between digits makes groups of them. -/
theorem grouped_hyphenate {ns : List Nat} {cs : List Char} {ds : List Nat} (hne : ns ≠ [])
    (hlength : cs.length = ns.sum) (h : List.Forall₂ IsDigit cs ds) : Grouped ns (hyphenate ns cs) ds := by
  induction ns generalizing cs ds with
  | nil => exact (hne rfl).elim
  | cons n ns ih =>
      cases ns with
      | nil => exact .last ⟨hlength.trans (Nat.add_zero n), h⟩
      | cons m ns =>
          rw [hyphenate, ← List.take_append_drop n ds]
          swap
          · exact List.cons_ne_nil m ns
          rw [List.sum_cons] at hlength
          refine .more ⟨?_, List.forall₂_take n h⟩ (ih (List.cons_ne_nil _ _) ?_ (List.forall₂_drop n h))
          · rw [List.length_take]
            omega
          · rw [List.length_drop]
            omega

/-- Hyphens are all that is put between digits. -/
theorem mem_hyphenate {ns : List Nat} {cs : List Char} {c : Char} (h : c ∈ hyphenate ns cs) :
    c = '-' ∨ c ∈ cs := by
  induction ns generalizing cs with
  | nil => exact .inr h
  | cons n ns ih =>
      cases ns with
      | nil => exact .inr h
      | cons m ns =>
          rw [hyphenate] at h
          swap
          · exact List.cons_ne_nil m ns
          obtain h | h := List.mem_append.mp h
          · exact .inr (List.mem_of_mem_take h)
          obtain rfl | h := List.mem_cons.mp h
          · exact .inl rfl
          · exact (ih h).imp_right List.mem_of_mem_drop

/-- The digits of an identifier are less than sixteen. -/
theorem nibbles_lt {u : Uuid} {d : Nat} (h : d ∈ u.nibbles) : d < 16 :=
  Positional.lt_of_mem_digits (by decide) h

/-- The digits of an identifier have its value. -/
theorem value_nibbles (u : Uuid) : Positional.value 16 u.nibbles = u.value := by
  rw [nibbles, Positional.value_digits, Nat.mod_eq_of_lt]
  exact Nat.lt_of_lt_of_eq u.value_lt (by decide)

/-- The written form has the digits of the identifier in groups. -/
theorem grouped_render (u : Uuid) : Grouped [8, 4, 4, 4, 12] u.render.toList u.nibbles := by
  have hdigits : List.Forall₂ IsDigit (u.nibbles.map hexCharacter) u.nibbles := by
    rw [List.forall₂_map_left_iff, List.forall₂_same]
    exact fun d hd => ⟨nibbles_lt hd, .inl rfl⟩
  rw [render, String.toList_ofList]
  exact grouped_hyphenate (List.cons_ne_nil _ _) (by simp) hdigits

/-- The written form has no letter in upper case. -/
theorem any_isUpper_render (u : Uuid) : u.render.toList.any Char.isUpper = false := by
  have hlower : ∀ d < 16, (hexCharacter d).isUpper = false := by decide
  rw [List.any_eq_false, render, String.toList_ofList]
  intro c hc
  obtain rfl | hc := mem_hyphenate hc
  · decide
  · obtain ⟨d, hd, rfl⟩ := List.mem_map.mp hc
    rw [hlower d (nibbles_lt hd)]
    exact Bool.false_ne_true

/-- The written form is read as the identifier. -/
theorem read_render (u : Uuid) : read u.render = .ok u :=
  read_iff_spells.mpr ⟨u.nibbles, .hyphenated (grouped_render u), (value_nibbles u).symm⟩

end TypedId.Uuid

namespace TypedId.Identifier

open Uuid

variable {entity : String}

/-! ### Identifiers of an entity -/

/-- An identifier of an entity is read from a text exactly if its identifier without an entity is. -/
theorem read_iff_read_uuid {text : String} {i : Identifier entity} :
    read entity text = .ok i ↔ Uuid.read text = .ok i.uuid := by
  rw [read, readId]
  cases Uuid.read text with
  | ok u =>
      constructor
      · intro h
        cases h
        rfl
      · intro h
        cases h
        rfl
  | error reason => exact ⟨nofun, nofun⟩

/-- A text that is refused is remembered, and so is the entity. -/
theorem read_eq_error_iff {text : String} {failure : ReadFailure} :
    read entity text = .error failure ↔
      ∃ reason, Uuid.read text = .error reason ∧ failure = ⟨entity, text, reason⟩ := by
  rw [read, readId]
  cases Uuid.read text with
  | ok u => exact ⟨nofun, fun ⟨_, h, _⟩ => nomatch h⟩
  | error reason =>
      constructor
      · intro h
        cases h
        exact ⟨reason, rfl, rfl⟩
      · rintro ⟨_, h, rfl⟩
        cases h
        rfl

/-- What was written is read again as the same identifier. -/
theorem read_render (i : Identifier entity) : read entity i.render = .ok i :=
  read_iff_read_uuid.mpr i.uuid.read_render

/-- A text is read as an identifier exactly if it is one of the four spellings of its value, with
any case in the digits and in the announcement; any other text is refused unchanged, for the entity
that was asked for. The written form is the spelling in groups without upper case. It reads back, so it
tells identifiers apart, however they were spelt. -/
theorem texts_and_identifiers_correspond (entity : String) :
    (∀ text (i : Identifier entity), read entity text = .ok i ↔
        ∃ ds, Spells AnnouncesInAnyCase text.toList ds ∧ i.uuid.value = Positional.value 16 ds) ∧
      (∀ text, (¬ ∃ ds, Spells AnnouncesInAnyCase text.toList ds) ↔
        ∃ reason, read entity text = .error ⟨entity, text, reason⟩) ∧
      (∀ i : Identifier entity, read entity i.render = .ok i ∧
        Positional.value 16 i.uuid.nibbles = i.uuid.value ∧
          Grouped [8, 4, 4, 4, 12] i.render.toList i.uuid.nibbles ∧
            i.render.toList.any Char.isUpper = false) ∧
      ∀ i i' : Identifier entity, i = i' ↔ i.render = i'.render := by
  have hread : ∀ text (i : Identifier entity), read entity text = .ok i ↔
      ∃ ds, Spells AnnouncesInAnyCase text.toList ds ∧ i.uuid.value = Positional.value 16 ds :=
    fun text i => read_iff_read_uuid.trans Uuid.read_iff_spells
  refine ⟨hread, fun text => ?_, fun i => ?_, fun i i' => ?_⟩
  · constructor
    · intro hnone
      cases h : read entity text with
      | ok i =>
          obtain ⟨ds, hspells, -⟩ := (hread text i).mp h
          exact (hnone ⟨ds, hspells⟩).elim
      | error failure =>
          obtain ⟨reason, -, rfl⟩ := read_eq_error_iff.mp h
          exact ⟨reason, rfl⟩
    · rintro ⟨reason, herror⟩ ⟨ds, hspells⟩
      have hok := (hread text ⟨⟨Positional.value 16 ds, hspells.value_lt⟩⟩).mpr ⟨ds, hspells, rfl⟩
      rw [herror] at hok
      cases hok
  · exact ⟨read_render i, value_nibbles i.uuid, grouped_render i.uuid, any_isUpper_render i.uuid⟩
  · constructor
    · exact congrArg render
    · intro h
      have hok := read_render i
      rw [h, read_render i'] at hok
      exact (Except.ok.inj hok).symm

/-- An announcement in upper case is read, so it is not only `urn:uuid:` that may announce. -/
theorem announcement_in_upper_case_is_read :
    (∃ i, read "user" "URN:UUID:67e55044-10b1-426f-9247-bb680e5fe0c8" = .ok i) ∧
      ¬ ∃ ds, Spells (· = "urn:uuid:".toList) "URN:UUID:67e55044-10b1-426f-9247-bb680e5fe0c8".toList ds := by
  refine ⟨⟨_, rfl⟩, ?_⟩
  rintro ⟨ds, h⟩
  generalize hcs : "URN:UUID:67e55044-10b1-426f-9247-bb680e5fe0c8".toList = cs at h
  cases h with
  | plain h =>
      have hsize := h.byteLength
      subst hcs
      revert hsize
      decide
  | hyphenated h =>
      have hsize := h.byteLength_eq
      subst hcs
      revert hsize
      decide
  | braced h => cases (List.cons.inj hcs).1
  | announced hbefore h =>
      subst hbefore
      cases (List.cons.inj hcs).1

end TypedId.Identifier
