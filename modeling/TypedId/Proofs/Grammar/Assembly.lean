import TypedId.Proofs.Grammar.Items
import TypedId.Proofs.Grammar.Series

/-!
Items are put together from their parts.

An item is read exactly if what stands before it and its content are (`Rule.run_item_eq_ok`). So an
item whose parts are read, each in front of the next one, is read (`Rule.run_item_of_parts`). What a
rule has written, it reads again in front of something else (`Rule.Writes.again`).
-/

namespace TypedId.Grammar

open Lexeme Rule

variable {g : PhraseReader} {r r' : Reader} {found : OuterItem} {depth : Nat} {α β : Type}

/-! ### The parts of an item -/

theorem Rule.itemText_eq {body : ItemBody} (h : body.placeless ≠ .kept) (start : View)
    (before own : List Lexeme)
    (stop : Nat) : itemText start before body own stop = before ++ own := by
  cases body <;> first | rfl | exact (h rfl).elim

/-- An item is read exactly if what stands before it and its content are. -/
theorem Rule.run_item_eq_ok :
    item.run g r = .ok (found, r') ↔
      ∃ attributes q seen body q' text, outerAttributes.run g r.unwritten = .ok (attributes, q) ∧
        itemContent.run g q.unwritten = .ok ((seen, body), q') ∧
        text = itemText r.toView q.written.reverse body q'.written.reverse q'.position ∧
        found = ⟨attributes, seen, ⟨body, text⟩, ⟨r.position, q'.position - 1⟩⟩ ∧
        r' = { q' with written := text.reverse ++ r.written } := by
  have hrest : ∀ {attributes q seen body q'}, outerAttributes.run g r.unwritten = .ok (attributes, q) →
      itemContent.run g q.unwritten = .ok ((seen, body), q') →
      item.run g r = .ok
        (⟨attributes, seen, ⟨body, itemText r.toView q.written.reverse body q'.written.reverse q'.position⟩,
          ⟨r.position, q'.position - 1⟩⟩,
        { q' with written :=
          (itemText r.toView q.written.reverse body q'.written.reverse q'.position).reverse ++
            r.written }) := by
    intro attributes q seen body q' hattributes hcontent
    rw [item, run_bind_of_ok (run_look r), run_bind_of_ok (run_hold_of_ok hattributes)]
    dsimp only
    rw [restOfItem_eq, run_bind_of_ok (run_hold_of_ok (r := { q with written := r.written }) hcontent)]
    dsimp only
    rw [run_bind_of_ok (run_here _), run_bind_of_ok (run_write ..), run_pure]
    rfl
  constructor
  · intro h
    have hrun := h
    rw [item, run_bind_of_ok (run_look r)] at hrun
    obtain ⟨_, _, hhold, hrun⟩ := run_bind_eq_ok.mp hrun
    obtain ⟨attributes, q, hattributes, rfl, rfl⟩ := run_hold_eq_ok.mp hhold
    dsimp only at hrun
    rw [restOfItem_eq] at hrun
    obtain ⟨_, _, hhold, -⟩ := run_bind_eq_ok.mp hrun
    obtain ⟨⟨seen, body⟩, q', hcontent, -, -⟩ := run_hold_eq_ok.mp hhold
    rw [hrest hattributes hcontent] at h
    cases h
    exact ⟨attributes, q, seen, body, q', _, hattributes, hcontent, rfl, rfl, rfl⟩
  · rintro ⟨attributes, q, seen, body, q', text, hattributes, hcontent, rfl, rfl, rfl⟩
    exact hrest hattributes hcontent

/-- The content of an item is its visibility and what stands behind it. -/
theorem Rule.run_itemContent_eq_ok {q q' : Reader} {seen : List Lexeme} {body : ItemBody} :
    itemContent.run g q = .ok ((seen, body), q') ↔
      ∃ q₁, visibility.run g q = .ok (seen, q₁) ∧ (itemBody q.toView !seen.isEmpty).run g q₁ =
        .ok (body, q') := by
  rw [itemContent, run_bind_of_ok (run_look q)]
  constructor
  · intro h
    obtain ⟨_, q₁, hvisibility, h⟩ := run_bind_eq_ok.mp h
    obtain ⟨_, _, hbody, h⟩ := run_bind_eq_ok.mp h
    cases h
    exact ⟨q₁, hvisibility, hbody⟩
  · rintro ⟨q₁, hvisibility, hbody⟩
    rw [run_bind_of_ok hvisibility, run_bind_of_ok hbody]
    rfl

/-- An item is read if what stands before it and the item itself are. -/
theorem Rule.run_item_of_parts {attributes : List Attribute} {body : ItemBody}
    {taken before seen text written k₁ k₂ k : List Lexeme} {q q₁ : Reader}
    (hattributes : outerAttributes.run g r.unwritten = .ok (attributes, r.unwritten.after taken before k₁))
    (hq : q = ⟨⟨r.position + taken.length, k₁⟩, [], none⟩)
    (hvisibility : visibility.run g q = .ok (seen, q.after seen seen k₂))
    (hq₁ : q₁ = q.after seen seen k₂)
    (hbody : (itemBody q.toView !seen.isEmpty).run g q₁ = .ok (body, q₁.after text written k))
    (hkept : body.placeless ≠ .kept) :
    item.run g r = .ok (⟨attributes, seen, ⟨body, before ++ (seen ++ written)⟩,
      ⟨r.position, r.position + (taken ++ (seen ++ text)).length - 1⟩⟩,
      r.after (taken ++ (seen ++ text)) (before ++ (seen ++ written)) k) := by
  subst hq hq₁
  have hcontent := run_itemContent_eq_ok.mpr ⟨_, hvisibility, hbody⟩
  refine run_item_eq_ok.mpr ⟨attributes, _, seen, body, _, before ++ (seen ++ written),
    hattributes, hcontent,
    ?_, ?_, ?_⟩
  · rw [itemText_eq hkept]
    simp [Reader.after, Reader.unwritten]
  · simp [Reader.after, Nat.add_assoc]
  · simp [Reader.after, Nat.add_assoc]

/-- An attribute may stand before an item. -/
theorem Rule.Delimits.attributed {a text written : List Lexeme} {b : OuterItem}
    (h : (call .item).Delimits (Phrase.readWithin (depth + 1)) OuterItem.placeless text written b)
    (hkept : b.item.body ≠ .kept) (hhash : ∀ k, sees "#" (a ++ k) = true)
    (hattribute : (singleAttribute false).Delimits (Phrase.readWithin depth) id a a ⟨false, a⟩) :
    (call .item).Delimits (Phrase.readWithin (depth + 1)) OuterItem.placeless (a ++ text) (a ++ written)
      ⟨⟨false, a⟩ :: b.attributes, b.visibility, ⟨b.item.body, a ++ b.item.text⟩, ⟨0, 0⟩⟩ := by
  intro r k hr hstray
  rw [List.append_assoc] at hr
  let q : Reader := ⟨⟨r.position + a.length, text ++ k⟩, [], none⟩
  obtain ⟨found, hfound, hrun⟩ := h q k rfl rfl
  obtain ⟨attributes, q₂, seen, body, q₄, own, hattributes, hcontent, rfl, rfl, hreader⟩ :=
    run_item_eq_ok.mp hrun
  have hbody : body.placeless ≠ .kept := fun hbody => hkept (by rw [← hfound]; exact hbody)
  rw [itemText_eq hbody] at hreader
  -- The attribute stands before those that the item has.
  obtain ⟨_, rfl, hfirst⟩ := hattribute r.unwritten (text ++ k) hr hstray
  have hafter : r.unwritten.after a a (text ++ k) = q.onto a.reverse := by
    simp [q, Reader.after, Reader.onto, Reader.unwritten]
  rw [hafter] at hfirst
  obtain ⟨hrow, hlength⟩ := row_of_run_while hattributes
  have hall : outerAttributes.run (Phrase.readWithin depth) r.unwritten =
      .ok (⟨false, a⟩ :: attributes, q₂.onto a.reverse) := by
    refine (Row.cons (hr ▸ hhash _) hfirst (hrow.onto (blind_readWithin depth) _)).run_while ?_
    have ha : 0 < a.length := List.length_pos_iff.mpr fun hnil => by
      have h := hhash []
      rw [hnil] at h
      cases h
    have hrest : r.unwritten.rest = a ++ (text ++ k) := hr
    have hq : attributes.length ≤ (text ++ k).length := hlength
    rw [hrest, List.length_append, List.length_cons]
    omega
  have hcontent' : itemContent.run (Phrase.readWithin depth) (q₂.onto a.reverse).unwritten =
      .ok ((seen, body), q₄) :=
    hcontent
  have hwritten : q₂.written.reverse ++ q₄.written.reverse = written := by
    have h := congrArg Reader.written hreader
    rw [← List.reverse_inj, ← List.append_nil (List.reverse _), ← List.append_nil written.reverse]
    exact h.symm
  refine ⟨_, ?_, run_item_eq_ok.mpr ⟨_, _, seen, body, q₄, a ++ written, hall, hcontent', ?_, rfl, ?_⟩⟩
  · rw [← hfound, itemText_eq hbody, hwritten]
    rfl
  · rw [itemText_eq hbody, ← hwritten]
    simp [Reader.onto]
  · have hview : q₄.toView = ⟨q.position + text.length, k⟩ := (congrArg Reader.toView hreader).symm
    have hnone : q₄.stray = none := (congrArg Reader.stray hreader).symm
    rw [hview, hnone]
    simp [Reader.after, q, Nat.add_assoc]

/-! ### What is written -/

theorem Rule.writes_singleAttribute (inner : Bool) : Writes g (singleAttribute inner) Attribute.text := by
  intro r r' a h
  obtain ⟨_, _, hhold, h⟩ := run_bind_eq_ok.mp h
  obtain ⟨_, q, -, rfl, rfl⟩ := run_hold_eq_ok.mp hhold
  rw [run_bind_of_ok (run_write ..)] at h
  cases h
  rfl

theorem Rule.writes_visibility : Writes g visibility id := by
  intro r r' seen h
  obtain ⟨_, _, hhold, h⟩ := run_bind_eq_ok.mp h
  obtain ⟨_, q, -, rfl, rfl⟩ := run_hold_eq_ok.mp hhold
  rw [run_bind_of_ok (run_write ..)] at h
  cases h
  rfl

theorem Rule.writes_item (depth : Nat) :
    Writes (Phrase.readWithin depth) (call .item) fun found : OuterItem => found.item.text := by
  intro r r' found h
  cases depth with
  | zero => exact not_readWithin_zero h
  | succ depth =>
      obtain ⟨_, _, _, _, _, _, -, -, -, rfl, rfl⟩ := run_item_eq_ok.mp h
      rfl

/-- What a rule has written is read again by it in front of something else. -/
theorem Rule.Writes.again {rule : Rule α} {text : α → List Lexeme}
    (hwrites : Writes g rule text) (hg : Tidy g)
    {keep : α → β} {front : List Lexeme → Prop} {follow : α → List Lexeme → List Lexeme → Prop}
    (h : Rereads g .written r.rest rule rule keep front follow) (hb : Balanced r.rest) {a : α}
    (hrun : rule.run g r = .ok (a, r')) (hstray : r'.stray = none) {q : Reader} {k : List Lexeme}
    (hq : q.rest = text a ++ k) (hq' : q.stray = none) (hk : follow a r'.rest k) :
    front q.rest ∧ ∃ a', keep a' = keep a ∧ rule.run g q = .ok (a', q.after (text a) (text a) k) := by
  obtain ⟨taken, written, -, -, hrest, hafter, hagain⟩ := h hg r a r' rfl hb hrun hstray
  obtain rfl : written = text a := by
    have hwritten := hwrites r r' a hrun
    rw [hafter] at hwritten
    exact List.reverse_inj.mp (List.append_cancel_right hwritten)
  exact hagain q k hq hq' hk

/-- What need not be kept is written as it is read. -/
theorem Rule.run_keptIf_of_not_wanted {rule : Rule α} {wanted : α → Bool} {a : α} {r₁ : Reader}
    (h : rule.run g r.unwritten = .ok (a, r₁)) (hwanted : wanted a = false) :
    (keptIf wanted rule).run g r = .ok (a, { r₁ with written := r₁.written ++ r.written }) := by
  rw [keptIf, run_bind_of_ok (run_look r), run_bind_of_ok (run_hold_of_ok h)]
  dsimp only
  rw [hwanted]
  simp only [Bool.false_eq_true, if_false]
  rw [run_bind_of_ok (run_write ..), run_pure]
  simp [Reader.take]

/-! ### Texts that end by themselves -/

theorem Rule.steady_item : (call .item).Steady OuterItem.placeless fun _ _ _ => True :=
  fun depth m s => ((rereadable_readWithin depth).item m s).front_mono fun _ _ => trivial

theorem Rule.steady_implementationMember : implementationMember.Steady id fun _ _ _ => True :=
  fun depth _ _ => (Rereads.implementationMember (rereadable_readWithin depth)).front_mono fun _ _ => trivial

end TypedId.Grammar
