import TypedId.Proofs.EntityModule.Parts
import TypedId.Proofs.Expansion.Generated
import TypedId.Proofs.Invocation.Stages

/-!
The expansion is read again.

It is one inline module with the name, the visibility and the attributes that were written. Its items
are the generated ones, the adapter if that was asked for, and then its own
(`Invocation.expansion_is_one_module`). They declare the three reserved names once each, so that the
expansion is refused for the first of them (`Invocation.expansion_declares_reserved_names`).
-/

namespace TypedId

open Lexeme Grammar Rule

/-- The kind of an item, and the names that it declares. -/
def Grammar.ItemBody.outline (body : ItemBody) : String × List String :=
  (body.kind, body.names.map Name.text)

theorem Grammar.ItemBody.outline_placeless (body : ItemBody) : body.placeless.outline = body.outline :=
  Prod.ext body.kind_placeless body.names_placeless

/-- Only a constant is outlined as one. -/
theorem Grammar.ItemBody.exists_constant {body : ItemBody} {w : String} (h : body.outline = ("const", [w])) :
    ∃ n, body = .constant n ∧ n.text = w := by
  obtain ⟨hkind, hnames⟩ := Prod.mk.inj h
  cases body with
  | constant n => exact ⟨n, rfl, List.singleton_inj.mp hnames⟩
  | _ => simp [kind] at hkind

/-- What is remembered as the text of an item is what is written of it. -/
theorem Grammar.Rule.Chunk.Fits.item_text {depth : Nat} {c : Chunk OuterItem}
    (h : c.Fits depth (call .item) OuterItem.placeless) : c.found.item.text = c.written := by
  obtain ⟨found, hfound, hrun⟩ := h.delimits (.ofLexemes c.text) [] (List.append_nil _).symm rfl
  have hwritten := writes_item depth _ _ _ hrun
  rw [← hfound]
  exact (List.reverse_inj.mp (List.append_cancel_right hwritten)).symm

/-- What was found of texts that stand: the outlines that were told of them, and the texts, up to
joints. -/
theorem outlines_of_founds {depth : Nat} {founds : List OuterItem} {chunks : List (Chunk OuterItem)}
    {outlines : List (String × List String)}
    (hfounds : founds.map OuterItem.placeless = chunks.map Chunk.found)
    (houtlines : List.Forall₂ (fun outline c => c.found.item.body.kind = outline.1 ∧
      c.found.item.body.names.map Name.text = outline.2) outlines chunks)
    (hfits : ∀ c ∈ chunks, c.Fits depth (call .item) OuterItem.placeless) :
    (founds.map fun found => found.item.body.outline) = outlines ∧
      (founds.map fun found => found.item.text.map alone) =
        (chunks.map Chunk.text).map (List.map alone) := by
  constructor
  · calc founds.map (fun found => found.item.body.outline)
        = (founds.map OuterItem.placeless).map fun b => b.item.body.outline := by
          rw [List.map_map]
          exact List.map_congr_left fun found _ => found.item.body.outline_placeless.symm
      _ = chunks.map fun c => c.found.item.body.outline := by rw [hfounds, List.map_map]; rfl
      _ = outlines := (List.forall₂_eq_eq_eq ▸ List.forall₂_map_right_iff.mpr
          (houtlines.imp fun outline c hc => Prod.ext hc.1.symm hc.2.symm) : outlines = _).symm
  · calc founds.map (fun found => found.item.text.map alone)
        = (founds.map OuterItem.placeless).map fun b => b.item.text.map alone := by rw [List.map_map]; rfl
      _ = chunks.map fun c => c.found.item.text.map alone := by rw [hfounds, List.map_map]; rfl
      _ = chunks.map fun c => c.text.map alone :=
          List.map_congr_left fun c hc => by rw [(hfits c hc).item_text, (hfits c hc).alone]
      _ = (chunks.map Chunk.text).map (List.map alone) := by rw [List.map_map]; rfl

/-- The outline of the adapter, if that is asked for. -/
def adapterOutlines (options : Options) : List (String × List String) :=
  if options.database then [("const", ["_"])] else []

/-- The adapter, if that is asked for. -/
def adapterTexts (options : Options) : List (List Lexeme) :=
  if options.database then [Generated.databaseAdapter] else []

theorem isItem_adapterTexts (options : Options) :
    List.Forall₂ (fun text outline => IsItem text outline.1 outline.2) (adapterTexts options)
      (adapterOutlines options) := by
  rw [adapterTexts, adapterOutlines]
  split
  · exact .cons Generated.isItem_databaseAdapter .nil
  · exact .nil

/-- The expansion is read as one inline module that is not marked as unsafe, and nothing is left over.
Its items are those that are put into it, up to joints, and then its own. -/
theorem exists_read_expand {m : EntityModule} {ls : List Lexeme} (hb : balanced [] ls = true)
    (h : EntityModule.read ls = .ok m) (options : Options) :
    ∃ position written stretch, ∃ generated adapter own : List OuterItem,
      (call .item).read (m.expand options) = .ok
        (⟨m.attributes, m.visibility, ⟨.module none ⟨m.name, position⟩ m.innerAttributes
          (some ((generated ++ adapter ++ own).map fun found => (found.item.body, found.item.text))),
            written⟩, stretch⟩,
          (Reader.ofLexemes (m.expand options)).after (m.expand options) written []) ∧
      (generated.map (fun found => found.item.body.outline) = Generated.outlines ∧
        generated.map (fun found => found.item.text.map alone) =
          (Generated.generatedItems m.entity).map (List.map alone)) ∧
      (adapter.map (fun found => found.item.body.outline) = adapterOutlines options ∧
        adapter.map (fun found => found.item.text.map alone) = (adapterTexts options).map (List.map alone)) ∧
      own.map (fun found => (found.item.body.outline, found.item.text)) =
        m.items.map fun x => (x.1.outline, x.2) := by
  obtain ⟨depth, hrestored⟩ := EntityModule.restored_of_read hb h
  obtain ⟨own, hown, htexts, hitems⟩ := hrestored.items
  obtain ⟨depth₁, chunks₁, htexts₁, houtlines₁, hfits₁⟩ :=
    Stands.exists_chunks (Generated.isItem_generatedItems m.entity)
  obtain ⟨depth₂, chunks₂, htexts₂, houtlines₂, hfits₂⟩ := Stands.exists_chunks (isItem_adapterTexts options)
  have hall : ∀ c ∈ chunks₁ ++ chunks₂ ++ own,
      c.Fits (max depth (max depth₁ depth₂)) (call .item) OuterItem.placeless := by
    simp only [List.forall_mem_append]
    exact ⟨⟨fun c hc => (hfits₁ c hc).of_le (by omega), fun c hc => (hfits₂ c hc).of_le (by omega)⟩,
      fun c hc => (hown c hc).of_le (by omega)⟩
  have hexpand : m.around ((chunks₁ ++ chunks₂ ++ own).flatMap Chunk.text) = m.expand options := by
    rw [EntityModule.expand_eq_around, List.flatMap_def, List.map_append, List.map_append,
      htexts₁, htexts₂, htexts]
    rfl
  have houtward : Outward ((chunks₁ ++ chunks₂ ++ own).flatMap Chunk.text ++ [closing .brace]) := by
    rw [List.flatMap_def, List.map_append, List.map_append, htexts₁]
    exact fun _ => rfl
  obtain ⟨founds, hfounds, position, written, stretch, hread⟩ :=
    (hrestored.of_le (le_max_left depth _)).read_around hall houtward
  rw [hexpand] at hread
  rw [List.map_append, List.map_append] at hfounds
  obtain ⟨_, founds₃, rfl, hfounds, hfounds₃⟩ := List.map_eq_append_iff.mp hfounds
  obtain ⟨founds₁, founds₂, rfl, hfounds₁, hfounds₂⟩ := List.map_eq_append_iff.mp hfounds
  refine ⟨position, written, stretch, founds₁, founds₂, founds₃, hread, ?_, ?_, ?_⟩
  · exact htexts₁ ▸ outlines_of_founds hfounds₁ houtlines₁ hfits₁
  · exact htexts₂ ▸ outlines_of_founds hfounds₂ houtlines₂ hfits₂
  · calc founds₃.map (fun found => (found.item.body.outline, found.item.text))
        = (founds₃.map OuterItem.placeless).map fun b => (b.item.body.outline, b.item.text) := by
          rw [List.map_map]
          exact List.map_congr_left fun found _ =>
            congrArg (·, found.item.text) found.item.body.outline_placeless.symm
      _ = (own.map fun c => c.found.item).map fun item => (item.body.outline, item.text) := by
          rw [hfounds₃, List.map_map, List.map_map]; rfl
      _ = m.items.map fun x => (x.1.outline, x.2) := by
          rw [hitems, List.map_map]
          exact List.map_congr_left fun x _ => congrArg (·, x.2) x.1.outline_placeless

namespace Invocation

/-- Whatever module is accepted, and whether or not the adapter is asked for, the expansion is one
inline module that is not marked as unsafe. It has the name, the visibility and the attributes of the
module, the outer ones outside and the inner ones inside. Its items are the generated ones, which are
the same for all modules of an entity's name, then a constant without a name if and only if the adapter
is asked for, and then the module's own, of the same kinds and with the same texts. -/
theorem expansion_is_one_module {item : String} {m : EntityModule} (h : Invocation.module item = .ok m)
    (options : Options) :
    ∃ found r name, ∃ generated adapter own : List (ItemBody × List Lexeme),
      (call .item).read (m.expand options) = .ok (found, r) ∧ r.rest = [] ∧ r.stray = none ∧
      found.item.body = .module none name m.innerAttributes (some (generated ++ adapter ++ own)) ∧
      name.text = m.name ∧ found.visibility = m.visibility ∧ found.attributes = m.attributes ∧
      (∀ a ∈ m.attributes, a.inner = false) ∧ (∀ a ∈ m.innerAttributes, a.inner = true) ∧
      generated.map (fun x => x.1.kind) =
        ["enum", "struct", "impl", "enum"] ++ List.replicate 13 "impl" ++ ["macro"] ∧
      generated.map (fun x => x.2.map alone) = (Generated.generatedItems m.entity).map (List.map alone) ∧
      (if options.database then ∃ n text, adapter = [(.constant n, text)] ∧ n.text = "_" ∧
          text.map alone = Generated.databaseAdapter.map alone
        else adapter = []) ∧
      own.map (fun x => (x.1.kind, x.2)) = m.items.map fun x => (x.1.kind, x.2) := by
  obtain ⟨s, hs, hread⟩ := module_eq_ok h
  have hbalanced := Source.balanced_lexemes hs
  obtain ⟨_, hrestored⟩ := EntityModule.restored_of_read hbalanced hread
  obtain ⟨position, written, stretch, generated, adapter, own, hexpand, ⟨hgenerated, htexts⟩,
    ⟨hadapter, htexts'⟩, hown⟩ :=
    exists_read_expand hbalanced hread options
  rw [List.map_append, List.map_append] at hexpand
  refine ⟨_, _, _, _, _, _, hexpand, rfl, rfl, rfl, rfl, rfl, rfl, hrestored.outer,
    hrestored.inner, ?_, ?_, ?_, ?_⟩
  · have hkinds := congrArg (List.map Prod.fst) hgenerated
    rw [List.map_map] at hkinds
    rw [List.map_map]
    exact hkinds
  · rw [List.map_map]
    exact htexts
  · rw [adapterOutlines] at hadapter
    rw [adapterTexts] at htexts'
    split
    · next hdatabase =>
      rw [if_pos hdatabase] at hadapter htexts'
      obtain ⟨found, rfl, houtline⟩ := List.map_eq_singleton_iff.mp hadapter
      obtain ⟨n, hbody, hn⟩ := ItemBody.exists_constant houtline
      exact ⟨n, found.item.text, by rw [List.map_singleton, hbody], hn, List.singleton_inj.mp htexts'⟩
    · next hdatabase =>
      rw [if_neg hdatabase] at hadapter
      rw [List.map_eq_nil_iff.mp hadapter]
      rfl
  · have hkinds := congrArg (List.map fun x : (String × List String) × List Lexeme => (x.1.1, x.2)) hown
    rw [List.map_map, List.map_map] at hkinds
    rw [List.map_map]
    exact hkinds

/-- A module with attributes of both sorts, a restricted visibility and a name that is a raw word. -/
theorem raw_module_is_one_module :
    ∃ m, Invocation.module "#[a] pub(in b) mod r#c { #![d] use e::{f, g as h}; i! { j } }" = .ok m ∧
      ∃ found r name, ∃ generated adapter own : List (ItemBody × List Lexeme),
        (call .item).read (m.expand ⟨true⟩) = .ok (found, r) ∧ r.rest = [] ∧
        found.item.body = .module none name m.innerAttributes (some (generated ++ adapter ++ own)) ∧
        adapter.map (fun x => x.1.kind) = ["const"] ∧ own.map (fun x => x.1.kind) = ["use", "macro"] := by
  have hkinds : (Invocation.module
      "#[a] pub(in b) mod r#c { #![d] use e::{f, g as h}; i! { j } }").toOption.map
      (fun m => m.items.map fun x => x.1.kind) = some ["use", "macro"] := by
    decide +kernel
  cases hm : Invocation.module "#[a] pub(in b) mod r#c { #![d] use e::{f, g as h}; i! { j } }" with
  | error refusal =>
      rw [hm] at hkinds
      cases hkinds
  | ok m =>
      rw [hm] at hkinds
      obtain ⟨found, r, name, generated, adapter, own, hread, hrest, -, hbody, -, -, -, -, -, -,
          -, hadapter, hown⟩ :=
        expansion_is_one_module hm ⟨true⟩
      rw [if_pos rfl] at hadapter
      obtain ⟨n, text, rfl, -, -⟩ := hadapter
      refine ⟨m, rfl, found, r, name, generated, _, own, hread, hrest, hbody, rfl, ?_⟩
      have hmap := congrArg (List.map Prod.fst) hown
      rw [List.map_map, List.map_map] at hmap
      exact hmap.trans (Option.some_inj.mp hkinds)

/-- The names that the items of a module declare, without `_`. -/
def declaredNames (items : List (ItemBody × List Lexeme)) : List String :=
  ((EntityModule.declared items).map Name.text).filter (· ≠ "_")

theorem map_text_declared (items : List (ItemBody × List Lexeme)) :
    (EntityModule.declared items).map Name.text = (items.map fun x => x.1.outline).flatMap Prod.snd := by
  rw [EntityModule.declared, List.map_flatMap, List.flatMap_map]
  rfl

theorem declaredNames_append (items items' : List (ItemBody × List Lexeme)) :
    declaredNames (items ++ items') = declaredNames items ++ declaredNames items' := by
  rw [declaredNames, EntityModule.declared, List.flatMap_append, List.map_append, List.filter_append]
  rfl

/-- An inline module whose first declared name is reserved is refused for that name. -/
theorem read_of_first_reserved {ls : List Lexeme} {found : OuterItem} {r : Reader} {name : Name}
    {innerAttributes : List Attribute} {items : List (ItemBody × List Lexeme)}
    {w : String} {ws : List String}
    (hread : (call .item).read ls = .ok (found, r)) (hrest : r.rest = [])
    (hbody : found.item.body = .module none name innerAttributes (some items))
    (hfirst : (EntityModule.declared items).map Name.text = w :: ws) (hw : w ∈ reservedNames) :
    ∃ d, EntityModule.read ls = .error d ∧ d.cause = .reserved w name.text := by
  obtain ⟨n, rest, hdeclared, rfl, -⟩ := List.map_eq_cons_iff.mp hfirst
  have hrefused : EntityModule.ofItem found = .error ⟨.reserved n.text name.text, .single n.position⟩ := by
    rw [EntityModule.ofItem_eq hbody, hdeclared, List.find?_cons_of_pos (Name.isReserved_iff.mpr hw)]
  refine ⟨⟨.reserved n.text name.text, .single n.position⟩, ?_, rfl⟩
  simp only [EntityModule.read, hread, hrest, hrefused]
  rfl

/-- The items of an expansion declare the reserved names, in their order, and then those that the
module's own items declare. So each reserved name is declared once, and the expansion is itself refused
as an entity's module, for the first one. -/
theorem expansion_declares_reserved_names {item : String} {m : EntityModule}
    (h : Invocation.module item = .ok m)
    (options : Options) :
    (∃ found r name items, (call .item).read (m.expand options) = .ok (found, r) ∧ r.rest = [] ∧
      found.item.body = .module none name m.innerAttributes (some items) ∧
      declaredNames items = ["Tag", "Id", "Unsafe"] ++ declaredNames m.items ∧
      ∀ n ∈ reservedNames, (declaredNames items).count n = 1) ∧
    ∃ d, EntityModule.read (m.expand options) = .error d ∧ d.cause = .reserved "Tag" m.name ∧
      d.cause.message =
        moduleExpected ++ s!" (`Tag` is generated by the macro and cannot be declared in `{m.name}`)" := by
  obtain ⟨s, hs, hread⟩ := module_eq_ok h
  obtain ⟨position, written, stretch, generated, adapter, own, hexpand, ⟨hgenerated, -⟩,
      ⟨hadapter, -⟩, hown⟩ :=
    exists_read_expand (Source.balanced_lexemes hs) hread options
  let members (founds : List OuterItem) := founds.map fun found => (found.item.body, found.item.text)
  have hnames : ∀ founds, (EntityModule.declared (members founds)).map Name.text =
      (founds.map fun found => found.item.body.outline).flatMap Prod.snd := by
    intro founds
    rw [map_text_declared, List.map_map]
    rfl
  have hgenerated' : (EntityModule.declared (members generated)).map Name.text =
      ["Tag", "Id", "Unsafe"] := by
    rw [hnames, hgenerated]
    rfl
  have hadapter' : declaredNames (members adapter) = [] := by
    rw [declaredNames, hnames, hadapter, adapterOutlines]
    split <;> rfl
  have hown' : declaredNames (members own) = declaredNames m.items := by
    have houtlines := congrArg (List.map Prod.fst) hown
    rw [List.map_map, List.map_map] at houtlines
    rw [declaredNames, declaredNames, hnames, map_text_declared]
    exact congrArg (fun outlines => (List.flatMap Prod.snd outlines).filter (· ≠ "_")) houtlines
  have hall : declaredNames (members (generated ++ adapter ++ own)) =
      ["Tag", "Id", "Unsafe"] ++ declaredNames m.items := by
    have hmembers : members (generated ++ adapter ++ own) =
        members generated ++ members adapter ++ members own := by
      simp [members]
    rw [hmembers, declaredNames_append, declaredNames_append, hadapter', hown',
      List.append_nil, declaredNames,
      hgenerated']
    rfl
  have hfirst : (EntityModule.declared (members (generated ++ adapter ++ own))).map Name.text =
      "Tag" :: (["Id", "Unsafe"] ++ (EntityModule.declared (members (adapter ++ own))).map Name.text) := by
    rw [hnames, hnames, List.append_assoc, List.map_append, List.flatMap_append,
      ← hnames generated, hgenerated']
    rfl
  refine ⟨⟨_, _, _, _, hexpand, rfl, rfl, hall, fun n hn => ?_⟩, ?_⟩
  · -- None of the module's own names is reserved.
    have hnone : n ∉ declaredNames m.items := by
      intro hmem
      obtain ⟨n', hn', rfl⟩ := List.mem_map.mp (List.mem_filter.mp hmem).1
      exact EntityModule.not_reserved_of_read hread n' hn' hn
    have honce : ∀ n ∈ reservedNames, ["Tag", "Id", "Unsafe"].count n = 1 := by decide
    rw [hall, List.count_append, honce n hn, List.count_eq_zero.mpr hnone]
  · obtain ⟨d, hd, hcause⟩ := read_of_first_reserved hexpand rfl rfl hfirst (by decide)
    exact ⟨d, hd, hcause, by rw [hcause]; rfl⟩

/-- Names that are hidden in imports and a constant without a name. -/
theorem importing_module_declares_reserved_names :
    ∃ m, Invocation.module "mod m { use a::{b as c, d}; const _: u8 = 0; }" = .ok m ∧
      ∃ found r name items, (call .item).read (m.expand ⟨true⟩) = .ok (found, r) ∧
        found.item.body = .module none name m.innerAttributes (some items) ∧
        declaredNames items = ["Tag", "Id", "Unsafe", "c", "d"] := by
  have hnames : (Invocation.module "mod m { use a::{b as c, d}; const _: u8 = 0; }").toOption.map
      (fun m => declaredNames m.items) = some ["c", "d"] := by
    decide +kernel
  cases hm : Invocation.module "mod m { use a::{b as c, d}; const _: u8 = 0; }" with
  | error refusal =>
      rw [hm] at hnames
      cases hnames
  | ok m =>
      rw [hm] at hnames
      obtain ⟨⟨found, r, name, items, hread, -, hbody, hdeclared, -⟩, -⟩ :=
        expansion_declares_reserved_names hm ⟨true⟩
      refine ⟨m, rfl, found, r, name, items, hread, hbody, ?_⟩
      rw [hdeclared, show declaredNames m.items = ["c", "d"] from Option.some_inj.mp hnames]
      rfl

end Invocation

end TypedId
