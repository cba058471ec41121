import TypedId.Expansion.Summary
import TypedId.Proofs.Grammar.Assembly
import TypedId.Proofs.Grammar.Calls
import TypedId.Proofs.Grammar.Standing

/-!
Items that are put together from literals and from other items.

A text is an item by itself if it is read as one, whatever follows (`IsItem`). It stays one behind a
documentation, whichever literal that holds (`IsItem.documented`); members make an implementation
(`isItem_of_members`), and a constant is one of these, whichever literal is its value
(`isMember_entityConstant`).
-/

namespace TypedId

open Lexeme Grammar Rule

variable {g : PhraseReader} {r : Reader} {L kind : String} {names : List String}
  {text k : List Lexeme} {depth : Nat}

/-! ### Kinds and names -/

theorem Grammar.ItemBody.kind_placeless (body : ItemBody) : body.placeless.kind = body.kind := by
  cases body <;> rfl

theorem Grammar.ImportTree.names_placeless (tree : ImportTree) :
    tree.placeless.names.map Name.text = tree.names.map Name.text := by
  induction tree using ImportTree.rec
    (motive_2 := fun trees => (names.namesOfAll (placeless.placelessAll trees)).map Name.text =
      (names.namesOfAll trees).map Name.text) with
  | path _ tree ih => exact ih
  | name | rename | glob => rfl
  | group trees ih => exact ih
  | nil => rfl
  | cons tree trees ih ihs =>
      rw [placeless.placelessAll, names.namesOfAll, names.namesOfAll, List.map_append,
      List.map_append, ih, ihs]

/-- What is compared of an item tells the names that it declares. -/
theorem Grammar.ItemBody.names_placeless (body : ItemBody) :
    body.placeless.names.map Name.text = body.names.map Name.text := by
  cases body with
  | import_ tree => exact tree.names_placeless
  | externCrate n rename => cases rename <;> rfl
  | invocation path n => cases n <;> rfl
  | _ => rfl

/-- Whether a text is an item by itself: its kind, and the names that it declares. -/
def IsItem (text : List Lexeme) (kind : String) (names : List String) : Prop :=
  (call .item).Stands OuterItem.placeless text fun c =>
    c.found.item.body.kind = kind ∧ c.found.item.body.names.map Name.text = names

/-- Whether a text is a member of an implementation by itself. -/
def IsMember (text : List Lexeme) : Prop :=
  implementationMember.Stands id text fun _ => True

/-- Whether a text is restored as an item with a kind and names. -/
def restoresItem (text : List Lexeme) (kind : String) (names : List String) : Bool :=
  !ends text && (call .item).restores text fun found =>
    found.item.body.kind == kind && found.item.body.names.map Name.text == names

theorem isItem_of_restores (h : restoresItem text kind names = true) : IsItem text kind names := by
  rw [restoresItem, Bool.and_eq_true, Bool.not_eq_true'] at h
  refine .of_restores steady_item h.1 h.2 fun found written hreads htest => ?_
  rw [Bool.and_eq_true, beq_iff_eq, beq_iff_eq] at htest
  exact ⟨(ItemBody.kind_placeless _).trans htest.1, (ItemBody.names_placeless _).trans htest.2⟩

/-! ### Documentations -/

/-- What stands between the brackets of a documentation is read. -/
theorem run_documentation (depth : Nat)
    (hr : r.rest = [word "doc", punct '=' false, .literal L] ++ closing .bracket :: k)
    (hstray : r.stray = none) :
    (do
      if seesWord "unsafe" (← ahead) then keyword "unsafe" else plainPath
      attributeValue : Rule Unit).run (Phrase.readWithin (depth + 3)) r =
      .ok ((), r.after [word "doc", punct '=' false, .literal L] [word "doc", punct '=' false, .literal L]
        (closing .bracket :: k)) := by
  have hpath : plainPath.run (Phrase.readWithin (depth + 3)) r =
      .ok ((), r.after [word "doc"] [word "doc"]
        (punct '=' false :: .literal L :: closing .bracket :: k)) := by
    obtain ⟨⟨position, ls⟩, written, stray⟩ := r
    cases hr
    cases hstray
    rfl
  have hequals : (Rule.operator "=").run (Phrase.readWithin (depth + 3))
      (r.after [word "doc"] [word "doc"] (punct '=' false :: .literal L :: closing .bracket :: k)) =
      .ok ((), r.after [word "doc", punct '=' false] [word "doc", punct '=' false]
        (.literal L :: closing .bracket :: k)) := rfl
  have hvalue := @run_expression_of_literal
    (r.after [word "doc", punct '=' false] [word "doc", punct '=' false]
      (.literal L :: closing .bracket :: k)) L
    (closing .bracket :: k) depth rfl rfl (.closing _ _)
  rw [run_bind_of_ok (run_ahead r), hr]
  show (plainPath >>= fun _ => attributeValue).run (Phrase.readWithin (depth + 3)) r = _
  rw [run_bind_of_ok hpath, attributeValue, run_bind_of_ok (run_ahead _)]
  show (Rule.operator "=" >>= fun _ => _).run (Phrase.readWithin (depth + 3)) _ = _
  rw [run_bind_of_ok hequals, run_bind_of_ok (run_ahead _)]
  show (call (.expression true) >>= fun _ => _).run (Phrase.readWithin (depth + 3)) _ = _
  rw [run_bind_of_ok hvalue, Reader.after_after]
  rfl

/-- A documentation is an attribute. -/
theorem delimits_documented (depth : Nat) (L : String) :
    (singleAttribute false).Delimits (Phrase.readWithin (depth + 3)) id (documented (.literal L))
      (documented (.literal L))
      ⟨false, documented (.literal L)⟩ := by
  intro r k hr hstray
  have hhash : (Rule.operator "#").run (Phrase.readWithin (depth + 3)) r.unwritten = .ok ((),
      r.unwritten.after [punct '#' false] [punct '#' false]
        (grouped .bracket [word "doc", punct '=' false, .literal L] ++ k)) := by
    obtain ⟨⟨position, ls⟩, written, stray⟩ := r
    cases hr
    cases hstray
    rfl
  have hgroup := run_within_of_ok (d := .bracket) (r := r.unwritten.after [punct '#' false] [punct '#' false]
    (grouped .bracket [word "doc", punct '=' false, .literal L] ++ k)) rfl (run_documentation depth rfl rfl)
  refine ⟨_, rfl, ?_⟩
  rw [singleAttribute, run_bind_of_ok (run_hold_of_ok ((run_bind_of_ok hhash _).trans hgroup)),
    Reader.after_after]
  rfl

/-- A documentation may stand before an item. -/
theorem IsItem.documented (h : IsItem text kind names) (hkind : kind ≠ "verbatim") (L : String) :
    IsItem (documented (.literal L) ++ text) kind names := by
  obtain ⟨depth, c, hc, rfl, hk, hnames⟩ := h
  have hbody : c.found.item.body ≠ .kept := fun hbody => hkind (by rw [← hk, hbody]; rfl)
  have hdelimits := (hc.delimits.of_le (Nat.le_add_right _ 4)).attributed hbody (fun _ => rfl)
    (delimits_documented depth L)
  refine ⟨_, ⟨_, _, _⟩, ⟨fun _ => rfl, hdelimits, ?_⟩, rfl, hk, hnames⟩
  rw [List.map_append, List.map_append, hc.alone]

/-! ### Implementations -/

/-- An implementation without conditions ends in its members, which are between braces. -/
theorem run_endOfImplementation {members : List (Chunk Unit)}
    (h : ∀ c ∈ members, c.Fits depth implementationMember id)
    (houtward : ∀ k, Outward (members.flatMap Chunk.text ++ k)) (body : ItemBody)
    (hr : r.rest = braces (members.flatMap Chunk.text) ++ k) (hstray : r.stray = none) :
    (endOfImplementation body).run (Phrase.readWithin depth) r =
      .ok (body, r.after (braces (members.flatMap Chunk.text))
        (braces (members.flatMap Chunk.written)) k) := by
  have hbehind : (r.take 1 [opening .brace]).rest = members.flatMap Chunk.text ++ closing .brace :: k := by
    rw [Reader.take, hr]
    simp [braces, grouped]
  have hinner : innerAttributes.run (Phrase.readWithin depth) (r.take 1 [opening .brace]) =
      .ok ([], r.take 1 [opening .brace]) :=
    Row.run_while (.nil (hbehind ▸ (houtward _).not_seesInner)) (Nat.zero_le _)
  obtain ⟨found, -, hmembers⟩ := run_while_of_chunks (fun ls => !ends ls) (fun c hc => (h c hc).delimits)
    (fun c hc k => by rw [(h c hc).ends k]; rfl) (k := closing .brace :: k) rfl hbehind hstray
  have hcontent : (do
      let _ ← innerAttributes
      let _ ← while_ (fun ls => !ends ls) implementationMember : Rule Unit).run (Phrase.readWithin depth)
        (r.take 1 [opening .brace]) =
      .ok ((), (r.take 1 [opening .brace]).after (members.flatMap Chunk.text) (members.flatMap Chunk.written)
        (closing .brace :: k)) := by
    rw [run_bind_of_ok hinner, run_bind_of_ok hmembers]
    rfl
  rw [endOfImplementation, run_bind_of_ok (run_whereClause_of_not_sees (by rw [hr]; rfl)),
    run_bind_of_ok (run_within_of_ok (by rw [hr]; rfl) hcontent)]
  rfl

/-- Functions of the identifier are an item if they are members of an implementation. -/
theorem delimits_of_members {members : List (Chunk Unit)}
    (h : ∀ c ∈ members, c.Fits (depth + 3) implementationMember id)
    (houtward : ∀ k, Outward (members.flatMap Chunk.text ++ k)) :
    (call .item).Delimits (Phrase.readWithin (depth + 4)) OuterItem.placeless
      ([word "impl", word "Id"] ++ braces (members.flatMap Chunk.text))
      ([word "impl", word "Id"] ++ braces (members.flatMap Chunk.written))
      ⟨[], [], ⟨.implementation none [], [word "impl", word "Id"] ++ braces (members.flatMap Chunk.written)⟩,
        ⟨0, 0⟩⟩ := by
  intro r k hr hstray
  rw [List.append_assoc] at hr
  have hattributes : outerAttributes.run (Phrase.readWithin (depth + 3)) r.unwritten =
      .ok ([], r.unwritten.after [] [] r.rest) := by
    have hhash : sees "#" r.rest = false := by rw [hr]; rfl
    exact (run_outerAttributes_of_not_sees (r := r.unwritten) hhash).trans
      (congrArg (fun r => Except.ok ([], r)) (Reader.after_nil (r := r.unwritten) hstray).symm)
  let q : Reader := ⟨⟨r.position + 0, r.rest⟩, [], none⟩
  have hvisibility : visibility.run (Phrase.readWithin (depth + 3)) q = .ok ([], q.after [] [] r.rest) := by
    have hpub : (keyword? "pub").run (Phrase.readWithin (depth + 3)) q = .ok (false, q) :=
      run_keyword?_of_not_sees (by simp only [q]; rw [hr]; rfl)
    rw [visibility, run_bind_of_ok (run_hold_of_ok (r := q) ((run_bind_of_ok hpub _).trans rfl))]
    rfl
  have hfront : (itemBody q.toView false).run (Phrase.readWithin (depth + 3)) (q.after [] [] r.rest) =
      (endOfImplementation (.implementation none [word "Id"])).run (Phrase.readWithin (depth + 3))
        (q.after [word "impl", word "Id"] [word "impl", word "Id"]
          (braces (members.flatMap Chunk.text) ++ k)) := by
    rw [hr]
    rfl
  have hbody := run_endOfImplementation (k := k) h houtward (.implementation none [word "Id"])
    (r := q.after [word "impl", word "Id"] [word "impl", word "Id"]
      (braces (members.flatMap Chunk.text) ++ k)) rfl rfl
  rw [← hfront, Reader.after_after] at hbody
  exact ⟨_, rfl, run_item_of_parts hattributes rfl hvisibility rfl hbody (by simp [ItemBody.placeless])⟩

/-- Members make an implementation for the identifier. -/
theorem isItem_of_members {members : List (List Lexeme)} (h : ∀ text ∈ members, IsMember text)
    (houtward : ∀ k, Outward (members.flatten ++ k)) :
    IsItem ([word "impl", word "Id"] ++ braces members.flatten) "impl" [] := by
  obtain ⟨depth, chunks, rfl, -, hall⟩ := Stands.exists_chunks (List.forall₂_same.mpr h)
  rw [← List.flatMap_def] at houtward ⊢
  have hdelimits := delimits_of_members (fun c hc => (hall c hc).of_le (Nat.le_add_right _ 3)) houtward
  refine ⟨_, ⟨_, _, _⟩, ⟨fun _ => rfl, hdelimits, ?_⟩, rfl, rfl, rfl⟩
  simp only [braces, grouped, List.map_append, List.map_cons, Chunk.Fits.alone_flatMap hall]

/-! ### The constant with the name of the entity -/

/-- What stands before the value of the constant that holds the entity's name. -/
def entityPrefix : List Lexeme :=
  [word "const", word "ENTITY", punct ':' false, punct '&' false, punct '\'' true, word "static", word "str",
    punct '=' false]

/-- The constant that holds the entity's name. -/
def entityConstant (L : String) : List Lexeme :=
  word "pub" :: entityPrefix ++ [.literal L, punct ';' false]

theorem run_constant_entity (depth : Nat)
    (hr : r.rest = entityPrefix ++ (.literal L :: punct ';' false :: k))
    (hstray : r.stray = none) :
    constant.run (Phrase.readWithin (depth + 3)) r = .ok (⟨⟨"ENTITY", r.position + 1⟩, false, true⟩,
      r.after (entityPrefix ++ [.literal L, punct ';' false])
        (entityPrefix ++ [.literal L, punct ';' false]) k) := by
  have hfront : constant.run (Phrase.readWithin (depth + 3)) r = (do
      let _ ← call (.expression true)
      let conditional ← whereClause
      operator ";"
      return ⟨⟨"ENTITY", r.position + 1⟩, false || conditional, true⟩ : Rule ConstantShape).run
        (Phrase.readWithin (depth + 3))
        (r.after entityPrefix entityPrefix (.literal L :: punct ';' false :: k)) := by
    obtain ⟨⟨position, ls⟩, written, stray⟩ := r
    cases hr
    cases hstray
    rfl
  have hvalue := run_expression_of_literal depth (r := r.after entityPrefix entityPrefix
    (.literal L :: punct ';' false :: k))
    (L := L) rfl rfl (.semicolon false k)
  rw [hfront, run_bind_of_ok hvalue, Reader.after_after, run_bind_of_ok (run_whereClause_of_not_sees rfl)]
  rfl

/-- The constant is a member of an implementation. -/
theorem delimits_entityConstant (depth : Nat) (D L : String) :
    implementationMember.Delimits (Phrase.readWithin (depth + 3)) id
      (documented (.literal D) ++ entityConstant L)
      (documented (.literal D) ++ entityConstant L) () := by
  intro r k hr hstray
  rw [List.append_assoc] at hr
  have hattributes : outerAttributes.run (Phrase.readWithin (depth + 3)) r.unwritten = .ok
      ([⟨false, documented (.literal D)⟩],
        r.unwritten.after (documented (.literal D)) (documented (.literal D)) (entityConstant L ++ k)) := by
    obtain ⟨_, rfl, hattribute⟩ := delimits_documented depth D r.unwritten (entityConstant L ++ k) hr hstray
    have hhash : sees "#" r.unwritten.rest = true := by
      rw [show r.unwritten.rest = r.rest from rfl, hr]
      rfl
    refine (Row.cons hhash hattribute (.nil rfl)).run_while ?_
    rw [show r.unwritten.rest = r.rest from rfl, hr]
    simp [documented]
  generalize hq : r.unwritten.after (documented (.literal D)) (documented (.literal D))
    (entityConstant L ++ k) = q
    at hattributes
  have hrest : q.rest = [word "pub"] ++ (entityPrefix ++ (.literal L :: punct ';' false :: k)) := by
    rw [← hq]
    simp [Reader.after, entityConstant]
  have hnone : q.stray = none := hq ▸ rfl
  have hvisibility : visibility.run (Phrase.readWithin (depth + 3)) q =
      .ok ([word "pub"],
        q.after [word "pub"] [word "pub"] (entityPrefix ++ (.literal L :: punct ';' false :: k))) := by
    clear hq hattributes
    obtain ⟨⟨position, ls⟩, written, stray⟩ := q
    cases hrest
    cases hnone
    rfl
  have hbody : (implementationBody true).run (Phrase.readWithin (depth + 3))
      (q.after [word "pub"] [word "pub"] (entityPrefix ++ (.literal L :: punct ';' false :: k))) =
      .ok (false, q.after (entityConstant L) (entityConstant L) k) := by
    have hconstant := run_constant_entity (L := L) (k := k) depth
      (r := q.after [word "pub"] [word "pub"] (entityPrefix ++ (.literal L :: punct ';' false :: k))) rfl rfl
    rw [Reader.after_after] at hconstant
    refine Eq.trans (b := (constant >>= fun found => pure (found.general || !found.valued) : Rule Bool).run
      (Phrase.readWithin (depth + 3)) _) rfl ?_
    rw [run_bind_of_ok hconstant]
    rfl
  have hrun : (do
      let _ ← outerAttributes
      let visible := !(← visibility).isEmpty
      implementationBody visible : Rule Bool).run (Phrase.readWithin (depth + 3)) r.unwritten =
      .ok (false, q.after (entityConstant L) (entityConstant L) k) := by
    rw [run_bind_of_ok hattributes, run_bind_of_ok hvisibility]
    exact hbody
  refine ⟨(), rfl, ?_⟩
  rw [implementationMember_eq, memberOf, run_bind_of_ok (run_keptIf_of_not_wanted hrun rfl), run_pure, ← hq]
  simp [Reader.after, Reader.unwritten, Nat.add_assoc]

theorem isMember_entityConstant (D L : String) : IsMember (documented (.literal D) ++ entityConstant L) :=
  ⟨_, ⟨_, _, ()⟩, ⟨fun _ => rfl, delimits_entityConstant 0 D L, rfl⟩, rfl, trivial⟩

end TypedId
