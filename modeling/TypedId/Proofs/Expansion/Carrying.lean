import TypedId.Proofs.EntityModule.Parts
import TypedId.Proofs.Grammar.CarriedItems
import TypedId.Proofs.Invocation.Stages

/-!
What an expansion carries over of a module.

The text of a module is taken apart into its outer attributes, its visibility, its name, its inner
attributes and its own items, and the expansion has the same parts in the same order, with the
generated items before the module's own (`Invocation.text_is_carried_over`). The visibility is carried
over lexeme by lexeme, and so are the other parts as far as they are ordinary. What is not ordinary may
be written in another way: a `where` without conditions is left out, for example
(`Invocation.empty_conditions_are_lost`).
-/

namespace TypedId

open Lexeme Grammar Rule

variable {altered : Prop} {before taken : List Lexeme} {r r' : Reader} {depth : Nat}

/-- A text is written with the changes of `CarriedOver` alone, and without any if it is ordinary. -/
structure Grammar.WrittenOver (before taken written behind : List Lexeme) : Prop where
  carriedOver : CarriedOver True before taken written behind
  ordinary : Ordinary before taken behind → written.map alone = taken.map alone

theorem Grammar.CarriedOver.writtenOver {written behind : List Lexeme}
    (h : CarriedOver True before taken written behind) :
    WrittenOver before taken written behind :=
  ⟨h, h.alone_eq⟩

/-- What a rule takes is carried over to what it writes. -/
theorem Grammar.Rule.Carries.carriedOver {α : Type} {rule : Rule α} {text : α → List Lexeme} {a : α}
    (h : rule.Carries altered (Phrase.readWithin depth) before)
    (hwrites : Writes (Phrase.readWithin depth) rule text)
    (hb : Balanced r.rest) (hrun : rule.run (Phrase.readWithin depth) r = .ok (a, r'))
    (hstray : r'.stray = none)
    (hrest : r.rest = taken ++ r'.rest) : CarriedOver altered before taken (text a) r'.rest := by
  obtain ⟨taken', written, -, hrest', hafter, h⟩ := h (tidy_readWithin depth) r r' a hb hrun hstray
  obtain rfl := List.append_cancel_right (hrest.symm.trans hrest')
  have hwritten := hwrites r r' a hrun
  rw [hafter] at hwritten
  obtain rfl : written = text a := List.reverse_inj.mp (List.append_cancel_right hwritten)
  exact h

namespace EntityModule

variable {m : EntityModule} {ls : List Lexeme}

theorem carries_ownItems (before : List Lexeme) :
    (while_ (fun ls => !ends ls) (call .item)).Carries True (Phrase.readWithin depth) before :=
  .while_ fun before => (carrying_readWithin depth).call .item before

/-- The parts of a module's text: outer attributes, visibility, inner attributes and own items. -/
structure Parts (m : EntityModule) (ls outer visibility inner own : List Lexeme) : Prop where
  text : ls = outer ++ visibility ++ [word "mod", word m.name] ++ braces (inner ++ own)
  outer : IsAttributes false outer
  visibility : IsVisibility visibility
  inner : IsAttributes true inner
  /-- No further inner attribute follows. -/
  own : (sees "#" (own ++ [closing .brace]) && sees "!" (second (own ++ [closing .brace]))) = false

/-- An accepted text has such parts, and what stands behind each of them is ahead when the next one is
read. -/
theorem Course.exists_parts {q₁ q₂ q₃ q₄ : Reader} {founds : List OuterItem}
    (h : Course depth ls m q₁ q₂ q₃ q₄ founds) (hb : balanced [] ls = true) :
    ∃ outer visibility inner own, m.Parts ls outer visibility inner own ∧
      q₁.rest = visibility ++ [word "mod", word m.name] ++ braces (inner ++ own) ∧
      q₂.rest = [word "mod", word m.name] ++ braces (inner ++ own) ∧
      q₃.rest = own ++ [closing .brace] ∧ q₄.rest = [closing .brace] := by
  have hg := carrying_readWithin depth
  have ht := tidy_readWithin depth
  obtain ⟨k, hnamed⟩ := h.named
  have hcontent : (q₂.take 3 [word "mod", word m.name, opening .brace]).rest = k := by
    rw [Reader.take, hnamed]
    rfl
  -- What each part takes.
  obtain ⟨outer, _, houter, -, houterRest, -⟩ :=
    exists_of_run_outerAttributes hg [] ht (r := .ofLexemes ls) ⟨[], hb⟩ h.attributes h.stray₁
  obtain ⟨visibility, hvisibility, hvisibilityRest⟩ :=
    exists_of_run_visibility ht (r := q₁.unwritten) (h.balanced₁ hb) h.visibility h.stray₂
  obtain ⟨inner, _, hinner, hinnerClosed, hinnerRest, -⟩ :=
    exists_of_run_attributes hg [] ht (h.balanced_content hb) h.innerAttributes h.stray₃
  obtain ⟨own, _, hownClosed, hownRest, -⟩ :=
    carries_ownItems [] ht q₃ q₄ _ (h.balanced₃ hb) h.items h.stray₄
  replace houterRest : ls = outer ++ q₁.rest := houterRest
  replace hvisibilityRest : q₁.rest = visibility ++ q₂.rest := hvisibilityRest
  rw [hcontent] at hinnerRest
  -- The text ends with the braces of the module.
  obtain ⟨tail, htail⟩ : ∃ tail, q₄.rest = closing .brace :: tail := by
    refine Balanced.closing_of_ends (hinnerClosed.append hownClosed) ?_ (Reader.ends_of_leave h.stray)
    refine (h.balanced₂ hb).of_suffix ⟨[word "mod", word m.name], ?_⟩
    rw [hnamed, hinnerRest, hownRest, List.append_assoc]
    rfl
  obtain rfl : tail = [] := by
    have hrest := h.rest
    rwa [Reader.leave, Reader.take, htail] at hrest
  rw [htail] at hownRest
  have hq₂ : q₂.rest = [word "mod", word m.name] ++ braces (inner ++ own) := by
    rw [hnamed, hinnerRest, hownRest]
    simp [braces, grouped]
  have hq₁ : q₁.rest = visibility ++ [word "mod", word m.name] ++ braces (inner ++ own) := by
    rw [hvisibilityRest, hq₂, List.append_assoc]
  have hstop := (of_run_while h.innerAttributes).1
  rw [hownRest] at hstop
  refine ⟨outer, visibility, inner, own, ⟨?_, houter, hvisibility, hinner, hstop⟩, hq₁, hq₂, hownRest, htail⟩
  rw [houterRest, hq₁]
  simp only [List.append_assoc]

/-- Each part of an accepted text is written over. -/
theorem exists_parts (hb : balanced [] ls = true) (h : read ls = .ok m) :
    ∃ outer visibility inner own, m.Parts ls outer visibility inner own ∧
      WrittenOver [] outer (m.attributes.flatMap Attribute.text)
        (visibility ++ [word "mod", word m.name] ++ braces (inner ++ own)) ∧
      m.visibility.map alone = visibility.map alone ∧
      WrittenOver (outer ++ visibility ++ [word "mod", word m.name, opening .brace]) inner
        (m.innerAttributes.flatMap Attribute.text) (own ++ [closing .brace]) ∧
      WrittenOver (outer ++ visibility ++ [word "mod", word m.name, opening .brace] ++ inner) own
        (m.items.map Prod.snd).flatten [closing .brace] := by
  obtain ⟨depth, q₁, q₂, q₃, q₄, founds, hcourse⟩ := exists_course h
  obtain ⟨outer, visibility, inner, own, hparts, hq₁, hq₂, hq₃, hq₄⟩ := hcourse.exists_parts hb
  have hg := carrying_readWithin depth
  refine ⟨outer, visibility, inner, own, hparts, ?_, ?_, ?_, ?_⟩
  · have hrest : ls = outer ++ q₁.rest := by
      rw [hparts.text, hq₁]
      simp only [List.append_assoc]
    have hcarried : CarriedOver True [] outer _ q₁.rest := (carries_outerAttributes hg).carriedOver
      (Writes.while_ (writes_singleAttribute false) _) (r := .ofLexemes ls) ⟨[], hb⟩ hcourse.attributes
      hcourse.stray₁ hrest
    rw [hq₁] at hcarried
    exact hcarried.writtenOver
  · have hrest : q₁.rest = visibility ++ q₂.rest := by rw [hq₁, hq₂, List.append_assoc]
    have hcarried : CarriedOver False [] visibility (id m.visibility) q₂.rest :=
      carries_visibility.carriedOver
      writes_visibility (r := q₁.unwritten) (hcourse.balanced₁ hb) hcourse.visibility hcourse.stray₂ hrest
    exact hcarried.alone_eq_of_unaltered
  · have hrest : (q₂.take 3 [word "mod", word m.name, opening .brace]).rest = inner ++ q₃.rest := by
      rw [Reader.take, hq₂, hq₃]
      simp [braces, grouped]
    have hcarried : CarriedOver True (outer ++ visibility ++ [word "mod", word m.name, opening .brace])
        inner _ q₃.rest :=
      (carries_innerAttributes hg).carriedOver (Writes.while_ (writes_singleAttribute true) _)
        (hcourse.balanced_content hb) hcourse.innerAttributes hcourse.stray₃ hrest
    rw [hq₃] at hcarried
    exact hcarried.writtenOver
  · have hcarried : CarriedOver True
        (outer ++ visibility ++ [word "mod", word m.name, opening .brace] ++ inner) own _ q₄.rest :=
      (carries_ownItems _).carriedOver (Writes.while_ (writes_item depth) _)
        (hcourse.balanced₃ hb) hcourse.items
        hcourse.stray₄ (hq₃.trans (congrArg _ hq₄.symm))
    rw [hq₄, List.flatMap_def] at hcarried
    rw [hcourse.items_eq, List.map_map]
    exact hcarried.writtenOver

end EntityModule

namespace Invocation

/-- The text of an accepted module consists of outer attributes, a visibility, the module's name, and in
braces inner attributes and own items. The expansion has the same parts in the same order, with the generated
items before the own ones. The visibility is carried over lexeme by lexeme. Attributes and own items are
written with the changes of `CarriedOver` alone, and lexeme by lexeme where they are ordinary. -/
theorem text_is_carried_over {item : String} {m : EntityModule} {s : Source}
    (hs : Source.read? item = some s)
    (h : Invocation.module item = .ok m) :
    ∃ outer visibility inner own, m.Parts s.lexemes outer visibility inner own ∧
      (∀ options, m.expand options = m.attributes.flatMap Attribute.text ++ m.visibility ++
        [word "mod", word m.name] ++
        braces (m.innerAttributes.flatMap Attribute.text ++
          ((m.generated options).flatten ++ (m.items.map Prod.snd).flatten))) ∧
      WrittenOver [] outer (m.attributes.flatMap Attribute.text)
        (visibility ++ [word "mod", word m.name] ++ braces (inner ++ own)) ∧
      m.visibility.map alone = visibility.map alone ∧
      WrittenOver (outer ++ visibility ++ [word "mod", word m.name, opening .brace]) inner
        (m.innerAttributes.flatMap Attribute.text) (own ++ [closing .brace]) ∧
      WrittenOver (outer ++ visibility ++ [word "mod", word m.name, opening .brace] ++ inner) own
        (m.items.map Prod.snd).flatten [closing .brace] := by
  obtain ⟨s', hs', hread⟩ := module_eq_ok h
  obtain rfl : s' = s := Option.some_inj.mp (hs'.symm.trans hs)
  obtain ⟨outer, visibility, inner, own, hparts, houter, hvisibility, hinner, hown⟩ :=
    EntityModule.exists_parts (Source.balanced_lexemes hs) hread
  refine ⟨outer, visibility, inner, own, hparts, fun options => ?_, houter, hvisibility, hinner, hown⟩
  rw [EntityModule.expand, EntityModule.expandedItems, List.flatten_append]

/-- A structure is carried over lexeme by lexeme where nothing in it is empty. -/
theorem structure_is_carried_over :
    ∃ s m, Source.read? "mod m \x7b struct A \x7b a: u8 \x7d \x7d" = some s ∧
      Invocation.module "mod m \x7b struct A \x7b a: u8 \x7d \x7d" = .ok m ∧
      (m.items.map Prod.snd).flatten.map alone =
        [word "struct", word "A"] ++ braces [word "a", punct ':' false, word "u8"] := by
  obtain ⟨s, m, hs, h, hlexemes, hname⟩ : ∃ s m,
      Source.read? "mod m \x7b struct A \x7b a: u8 \x7d \x7d" = some s ∧
      Invocation.module "mod m \x7b struct A \x7b a: u8 \x7d \x7d" = .ok m ∧
        s.lexemes = [word "mod", word "m"] ++
        braces ([word "struct", word "A"] ++ braces [word "a", punct ':' false, word "u8"]) ∧ m.name = "m" :=
    ⟨_, _, rfl, rfl, rfl, rfl⟩
  obtain ⟨outer, visibility, inner, own, hparts, -, -, -, -, hown⟩ := text_is_carried_over hs h
  have htext := hparts.text
  rw [hlexemes, hname] at htext
  -- Nothing stands before the module, and no attribute before its structure.
  obtain rfl : outer = [] := by
    cases hparts.outer with
    | nil => rfl
    | cons => simp at htext
  obtain rfl : visibility = [] := by
    cases hparts.visibility with
    | inherited => rfl
    | _ => simp at htext
  obtain rfl : inner = [] := by
    cases hparts.inner with
    | nil => rfl
    | cons => simp [braces, grouped] at htext
  obtain rfl : own = [word "struct", word "A"] ++ braces [word "a", punct ':' false, word "u8"] := by
    have hbody : own ++ [closing .brace] =
        [word "struct", word "A"] ++ braces [word "a", punct ':' false, word "u8"] ++
        [closing .brace] := by simpa [braces, grouped, eq_comm] using htext
    exact List.append_cancel_right hbody
  rw [hname] at hown
  exact ⟨s, m, hs, h, hown.ordinary (.of_isPlain rfl (by simp))⟩

/-- A `where` without conditions is not carried over. -/
theorem empty_conditions_are_lost :
    ∃ s m, Source.read? "mod m \x7b struct A where; \x7d" = some s ∧
      Invocation.module "mod m \x7b struct A where; \x7d" = .ok m ∧
      m.Parts s.lexemes [] [] [] [word "struct", word "A", word "where", punct ';' false] ∧
      (m.items.map Prod.snd).flatten = [word "struct", word "A", punct ';' false] :=
  ⟨_, _, rfl, rfl, ⟨rfl, .nil, .inherited, .nil, rfl⟩, rfl⟩

end Invocation

end TypedId
