import TypedId.Expansion
import TypedId.Proofs.EntityModule.Reserved
import TypedId.Proofs.Grammar.Modules
import TypedId.Proofs.Grammar.Standing

/-!
The parts of a module that was accepted are read again.

Whatever text a module was made of, each of its parts is read where it is written, in front of what
stands behind it in the expansion (`restored_of_read`). So the module may be written around other
items (`Restored.read_around`).
-/

namespace TypedId.EntityModule

open Lexeme Grammar Rule

variable {m : EntityModule} {ls : List Lexeme} {depth : Nat}

/-- Each part of a module is read at some depth where it is written, in front of what may stand there. -/
structure Restored (depth : Nat) (m : EntityModule) : Prop where
  outer : ∀ a ∈ m.attributes, a.inner = false
  inner : ∀ a ∈ m.innerAttributes, a.inner = true
  attributes : ∀ (q : Reader) (k : List Lexeme), q.rest = m.attributes.flatMap Attribute.text ++ k →
    q.stray = none → sees "#" k = false → outerAttributes.run (Phrase.readWithin depth) q =
      .ok (m.attributes,
        q.after (m.attributes.flatMap Attribute.text) (m.attributes.flatMap Attribute.text) k)
  visibility : ∀ (q : Reader) (k : List Lexeme), q.rest = m.visibility ++ word "mod" :: k → q.stray = none →
    sees "#" q.rest = false ∧ Rule.visibility.run (Phrase.readWithin depth) q =
      .ok (m.visibility, q.after m.visibility m.visibility (word "mod" :: k))
  name : (isIdentifier m.name || ["try"].contains m.name) = true
  innerAttributes : ∀ (q : Reader) (k : List Lexeme),
    q.rest = m.innerAttributes.flatMap Attribute.text ++ k →
    q.stray = none → Outward k → Rule.innerAttributes.run (Phrase.readWithin depth) q =
      .ok (m.innerAttributes,
      q.after (m.innerAttributes.flatMap Attribute.text) (m.innerAttributes.flatMap Attribute.text) k)
  items : ∃ own : List (Chunk OuterItem), (∀ c ∈ own, c.Fits depth (call .item) OuterItem.placeless) ∧
    own.map Chunk.text = m.items.map Prod.snd ∧
    own.map (fun c => c.found.item) = m.items.map fun item => ⟨item.1.placeless, item.2⟩

/-- However much deeper a rule may go. -/
theorem Restored.of_le {depth' : Nat} (h : m.Restored depth) (hle : depth ≤ depth') : m.Restored depth' where
  outer := h.outer
  inner := h.inner
  attributes q k hq hstray hk := run_of_le hle (h.attributes q k hq hstray hk)
  visibility q k hq hstray := (h.visibility q k hq hstray).imp_right (run_of_le hle)
  name := h.name
  innerAttributes q k hq hstray hk := run_of_le hle (h.innerAttributes q k hq hstray hk)
  items := h.items.imp fun _ hown => hown.imp_left fun hfits c hc => (hfits c hc).of_le hle

/-- What was read as an item among others is read as one where it is written. Its text does not look
like the end of a group, nor like an attribute of what surrounds it. -/
theorem again_of_run_while {q q' : Reader} {founds : List OuterItem} (hb : Balanced q.rest)
    (h : (while_ (fun ls => !ends ls) (call .item)).run (Phrase.readWithin depth) q = .ok (founds, q'))
    (hstray : q'.stray = none) :
    ∀ found ∈ founds, ∃ s, ends s = false ∧ ∀ (q : Reader) (k : List Lexeme), q.rest = found.item.text ++ k →
      q.stray = none → (ends q.rest = ends s ∧ Outward q.rest) ∧
        ∃ found' : OuterItem, found'.placeless = found.placeless ∧
        (call .item).run (Phrase.readWithin depth) q =
          .ok (found', q.after found.item.text found.item.text k) := by
  intro found hfound
  obtain ⟨q₁, q₂, hq₁, hends, hrun, hq₂⟩ :=
    (row_of_run_while h).1.exists_run (tidy_readWithin depth) found hfound
  exact ⟨q₁.rest, by simpa using hends, fun q k hq hnone => (writes_item depth).again (tidy_readWithin depth)
    ((rereadable_readWithin depth).item .written q₁.rest) (hb.of_suffix hq₁.rest) hrun
      (hq₂.stray hstray) hq hnone trivial⟩

/-- Each item of an accepted module is read again from its own text at the same depth. -/
theorem fits_of_run_while {q q' : Reader} {founds : List OuterItem} (hb : Balanced q.rest)
    (h : (while_ (fun ls => !ends ls) (call .item)).run (Phrase.readWithin depth) q = .ok (founds, q'))
    (hstray : q'.stray = none) :
    ∀ found ∈ founds, Chunk.Fits depth (call .item) OuterItem.placeless
      ⟨found.item.text, found.item.text, found.placeless⟩ := by
  intro found hfound
  obtain ⟨s, hends, hagain⟩ := again_of_run_while hb h hstray found hfound
  exact ⟨fun k => (hagain (.ofLexemes _) k rfl rfl).1.1.trans hends, fun q k hq hnone =>
    (hagain q k hq hnone).2, rfl⟩

/-! ### How a module is read -/

/-- How an accepted module was read, part by part: where the reader stood behind the attributes, behind
the visibility, behind the inner attributes and behind the items. -/
structure Course (depth : Nat) (ls : List Lexeme) (m : EntityModule) (q₁ q₂ q₃ q₄ : Reader)
    (founds : List OuterItem) :
    Prop where
  attributes : outerAttributes.run (Phrase.readWithin depth) (.ofLexemes ls) = .ok (m.attributes, q₁)
  visibility : Rule.visibility.run (Phrase.readWithin depth) q₁.unwritten = .ok (m.visibility, q₂)
  named : ∃ k, q₂.rest = word "mod" :: word m.name :: opening .brace :: k
  name : (isIdentifier m.name || ["try"].contains m.name) = true
  innerAttributes : Rule.innerAttributes.run (Phrase.readWithin depth)
    (q₂.take 3 [word "mod", word m.name, opening .brace]) = .ok (m.innerAttributes, q₃)
  items : (while_ (fun ls => !ends ls) (call .item)).run (Phrase.readWithin depth) q₃ = .ok (founds, q₄)
  items_eq : m.items = founds.map fun found => (found.item.body, found.item.text)
  stray : (q₄.leave .brace).stray = none
  rest : (q₄.leave .brace).rest = []

/-- An accepted text has been read in these four steps. -/
theorem exists_course (h : read ls = .ok m) :
    ∃ depth q₁ q₂ q₃ q₄ founds, Course depth ls m q₁ q₂ q₃ q₄ founds := by
  obtain ⟨found, r, hread, hnothing, hstray, hof⟩ := read_eq_ok h
  obtain ⟨name, inner, items, hbody, -, rfl⟩ := ofItem_eq_ok hof
  obtain ⟨depth, hdepth⟩ : ∃ depth, sufficientDepth ls.length = depth + 1 := ⟨_, rfl⟩
  rw [Rule.read, hdepth] at hread
  obtain ⟨attributes, q₁, seen, body, q, text, hattributes, hcontent, -, rfl, rfl⟩ := run_item_eq_ok.mp hread
  obtain rfl : body = .module none name inner (some items) := hbody
  obtain ⟨q₂, hvisibility, hitem⟩ := run_itemContent_eq_ok.mp hcontent
  obtain ⟨k, founds, q₄, hrest, -, hname, hmodule, hitems, rfl⟩ :=
    run_moduleFromWord_eq_ok.mp (FindsModule.itemBody _ _ _ _ _ _ hitem)
  obtain ⟨_, q₃, hinner, hmodule⟩ := run_bind_eq_ok.mp hmodule
  obtain ⟨_, _, hwhile, hmodule⟩ := run_bind_eq_ok.mp hmodule
  cases hmodule
  exact ⟨depth, q₁, q₂, q₃, q₄, founds, hattributes, hvisibility, ⟨k, hrest⟩, hname, hinner, hwhile, hitems,
    Option.map_eq_none_iff.mp hstray, hnothing⟩

namespace Course

variable {q₁ q₂ q₃ q₄ : Reader} {founds : List OuterItem} (h : Course depth ls m q₁ q₂ q₃ q₄ founds)
include h

/-! Nothing is left over in any group. -/

/-- No step notes leftovers, since the last one has none. -/
theorem stray₄ : q₄.stray = none := (q₄.getsOn_leave .brace).stray h.stray

theorem stray₃ : q₃.stray = none := run_stray (tidy_readWithin depth) _ _ _ _ h.items h.stray₄

theorem stray₂ : q₂.stray = none :=
  run_stray (tidy_readWithin depth) _ (q₂.take 3 [word "mod", word m.name, opening .brace]) _ _
    h.innerAttributes h.stray₃

theorem stray₁ : q₁.stray = none :=
  run_stray (tidy_readWithin depth) _ q₁.unwritten _ _ h.visibility h.stray₂

/-! All groups are whole, wherever the reader stood. -/

variable (hb : balanced [] ls = true)
include hb

/-- Where each step begins, groups are balanced. -/
theorem balanced₁ : Balanced q₁.rest :=
  Balanced.of_suffix ⟨[], hb⟩ (run_getsOn (tidy_readWithin depth) _ (.ofLexemes ls) _ _ h.attributes).rest

theorem balanced₂ : Balanced q₂.rest :=
  (h.balanced₁ hb).of_suffix (run_getsOn (tidy_readWithin depth) _ q₁.unwritten _ _ h.visibility).rest

theorem balanced_content : Balanced (q₂.take 3 [word "mod", word m.name, opening .brace]).rest :=
  (h.balanced₂ hb).of_suffix (q₂.getsOn_take 3 _).rest

theorem balanced₃ : Balanced q₃.rest :=
  (h.balanced_content hb).of_suffix (run_getsOn (tidy_readWithin depth) _ _ _ _ h.innerAttributes).rest

/-- So each part is read again where it is written. -/
theorem restored : m.Restored depth := by
  have hg := tidy_readWithin depth
  have hrereadable := rereadable_readWithin depth
  refine ⟨(gives_singleAttribute false).while_ _ _ _ _ _ h.attributes,
    (gives_singleAttribute true).while_ _ _ _ _ _ h.innerAttributes, ?_, ?_, h.name, ?_, ?_⟩
  · intro q k hq hstray hk
    obtain ⟨-, _, rfl, hrun⟩ := (Writes.while_ (writes_singleAttribute false) _).again hg
      (Rereads.outerAttributes hrereadable fun _ _ => True) (r := .ofLexemes ls) ⟨[], hb⟩
      h.attributes h.stray₁ hq hstray
      fun _ => ⟨trivial, hk⟩
    exact hrun
  · intro q k hq hstray
    obtain ⟨k', hnamed⟩ := h.named
    have hmod : VisibilityFollow q₂.rest (word "mod" :: k) := hnamed ▸ .of_look (look_word _ _ _) rfl
    obtain ⟨hfront, _, rfl, hrun⟩ := writes_visibility.again (r := q₁.unwritten) hg
      (Rereads.visibility fun _ k => sees "#" k = false) (h.balanced₁ hb) h.visibility h.stray₂
      hq hstray ⟨rfl, hmod⟩
    refine ⟨?_, hrun⟩
    obtain ⟨_, _, -, hq, -⟩ | ⟨-, -, hq⟩ := hfront
    · rw [hq]
      rfl
    · exact hq
  · intro q k hq hstray hk
    obtain ⟨-, _, rfl, hrun⟩ := (Writes.while_ (writes_singleAttribute true) _).again hg
      (Rereads.innerAttributes hrereadable) (h.balanced_content hb) h.innerAttributes h.stray₃ hq hstray hk
    exact hrun
  · refine ⟨founds.map fun found => ⟨found.item.text, found.item.text, found.placeless⟩, ?_, ?_, ?_⟩
    · rintro _ hc
      obtain ⟨found, hfound, rfl⟩ := List.mem_map.mp hc
      exact fits_of_run_while (h.balanced₃ hb) h.items h.stray₄ found hfound
    all_goals
      rw [h.items_eq, List.map_map, List.map_map]
      rfl

end Course

/-- What is accepted is restored. -/
theorem restored_of_read (hb : balanced [] ls = true) (h : read ls = .ok m) : ∃ depth, m.Restored depth := by
  obtain ⟨depth, _, _, _, _, _, hcourse⟩ := exists_course h
  exact ⟨depth, hcourse.restored hb⟩

/-! ### The module around other items -/

/-- A module with given items. -/
def around (m : EntityModule) (items : List Lexeme) : List Lexeme :=
  m.attributes.flatMap Attribute.text ++ m.visibility ++ [word "mod", word m.name] ++
    braces (m.innerAttributes.flatMap Attribute.text ++ items)

/-- An expansion is the module around its new items. -/
theorem expand_eq_around (options : Options) (m : EntityModule) :
    m.expand options = m.around (m.expandedItems options).flatten := rfl

namespace Restored

/-- The content of the expansion is read as inner attributes and as many items as there are pieces. -/
theorem run_moduleContent (h : m.Restored depth) {chunks : List (Chunk OuterItem)}
    (hchunks : ∀ c ∈ chunks, c.Fits depth (call .item) OuterItem.placeless) {k : List Lexeme}
    (hk : ends k = true)
    (houtward : Outward (chunks.flatMap Chunk.text ++ k)) (q : Reader)
    (hq : q.rest = m.innerAttributes.flatMap Attribute.text ++ (chunks.flatMap Chunk.text ++ k))
    (hstray : q.stray = none) :
    ∃ founds : List OuterItem, founds.map OuterItem.placeless = chunks.map Chunk.found ∧
      moduleContent.run (Phrase.readWithin depth) q = .ok ((m.innerAttributes, founds),
        q.after (m.innerAttributes.flatMap Attribute.text ++ chunks.flatMap Chunk.text)
          (m.innerAttributes.flatMap Attribute.text ++ chunks.flatMap Chunk.written) k) := by
  have hinner := h.innerAttributes q _ hq hstray houtward
  obtain ⟨founds, hfounds, hitems⟩ := run_while_of_chunks (fun ls => !ends ls)
    (r := q.after (m.innerAttributes.flatMap Attribute.text) (m.innerAttributes.flatMap Attribute.text) _)
    (fun c hc => (hchunks c hc).delimits) (fun c hc k => by rw [(hchunks c hc).ends k]; rfl)
      (by rw [hk]; rfl) rfl rfl
  refine ⟨founds, hfounds, ?_⟩
  rw [moduleContent, run_bind_of_ok hinner, run_bind_of_ok hitems, Reader.after_after]
  rfl

/-- What is accepted with other items is one inline module that is not marked as unsafe, with these items. -/
theorem read_around (h : m.Restored depth) {chunks : List (Chunk OuterItem)}
    (hchunks : ∀ c ∈ chunks, c.Fits depth (call .item) OuterItem.placeless)
    (houtward : Outward (chunks.flatMap Chunk.text ++ [closing .brace])) :
    ∃ founds : List OuterItem, founds.map OuterItem.placeless = chunks.map Chunk.found ∧
      ∃ position written stretch, (call .item).read (m.around (chunks.flatMap Chunk.text)) = .ok
        (⟨m.attributes, m.visibility, ⟨.module none ⟨m.name, position⟩ m.innerAttributes
          (some (founds.map fun found => (found.item.body, found.item.text))), written⟩, stretch⟩,
        (Reader.ofLexemes (m.around (chunks.flatMap Chunk.text))).after
          (m.around (chunks.flatMap Chunk.text))
          written []) := by
  let content := m.innerAttributes.flatMap Attribute.text ++ chunks.flatMap Chunk.text
  let written := m.innerAttributes.flatMap Attribute.text ++ chunks.flatMap Chunk.written
  let named : List Lexeme := [word "mod", word m.name]
  let r : Reader := .ofLexemes (m.around (chunks.flatMap Chunk.text))
  have haround : r.rest = m.attributes.flatMap Attribute.text ++
      (m.visibility ++ (named ++ (braces content ++ []))) := by
    simp [r, Reader.ofLexemes, around, named, content]
  let q : Reader := ⟨⟨r.position + (m.attributes.flatMap Attribute.text).length,
    m.visibility ++ (named ++ (braces content ++ []))⟩, [], none⟩
  obtain ⟨hfront, hvisibility⟩ := h.visibility q _ rfl rfl
  have hattributes := h.attributes r.unwritten _ haround rfl hfront
  let q₁ := q.after m.visibility m.visibility (named ++ (braces content ++ []))
  let q₂ := (q₁.after named named (braces content ++ [])).take 1 [opening .brace]
  obtain ⟨founds, hfounds, hcontent⟩ := h.run_moduleContent hchunks (k := [closing .brace]) rfl houtward q₂
    (by simp [q₂, Reader.take, Reader.after, content, braces, grouped]) rfl
  have hbody : (itemBody q.toView !m.visibility.isEmpty).run (Phrase.readWithin depth) q₁ = .ok
      (.module none ⟨m.name, q₁.position + 1⟩ m.innerAttributes
        (some (founds.map fun found => (found.item.body, found.item.text))),
      q₁.after (named ++ braces content) (named ++ braces written) []) := by
    rw [run_itemBody_of_mod (k := word m.name :: (braces content ++ [])) rfl]
    refine run_moduleFromWord_eq_ok.mpr ⟨content ++ [closing .brace], founds, _, ?_, rfl,
      h.name, hcontent, rfl, ?_⟩
    · simp [q₁, Reader.after, named, braces, grouped]
    · exact ((q₁.after named named _).leave_after .brace content written []).symm ▸
        (Reader.after_after ..).symm
  have hitem := run_item_of_parts hattributes rfl hvisibility rfl hbody (by simp [ItemBody.placeless])
  have htext : m.attributes.flatMap Attribute.text ++ (m.visibility ++ (named ++ braces content)) =
      m.around (chunks.flatMap Chunk.text) := by
    simp [around, named, content]
  have hcall : (call .item).run (Phrase.readWithin (depth + 1)) r = _ := hitem
  rw [htext] at hcall
  exact ⟨founds, hfounds, q₁.position + 1, _, _, read_of_run_ok hcall⟩

end Restored

end TypedId.EntityModule
