import TypedId.Proofs.Database.Ledger

/-!
A typed identifier and the `Uuid` within are interchangeable in a column.

Whatever codec plain identifiers have, the adapter stores an identifier as its `Uuid` is stored and
reads whatever is read as a `Uuid` (`read_adapted`), so a client with typed identifiers gets the answers
that a client with plain ones gets (`ask_adapted`). Clients of both types that use one table therefore
share one ledger, and a row is found whoever has written it (`adapter_is_interchangeable`).
-/

namespace TypedId

/-- The digits of the number that some digits denote are these digits. -/
theorem Positional.digits_value {b : Nat} (ds : List Nat) (h : ∀ d ∈ ds, d < b) :
    digits b ds.length (value b ds) = ds := by
  induction hlength : ds.length generalizing ds with
  | zero => rw [List.length_eq_zero_iff.mp hlength]; rfl
  | succ k ih =>
      obtain ⟨ds, d, rfl⟩ := List.eq_nil_or_concat ds |>.resolve_left (by rintro rfl; cases hlength)
      rw [List.concat_eq_append] at h hlength ⊢
      have hd : d < b := h d (by simp)
      have hdiv : (value b ds * b + d) / b = value b ds := by
        rw [Nat.mul_comm, Nat.mul_add_div (Nat.zero_lt_of_lt hd), Nat.div_eq_of_lt hd, Nat.add_zero]
      have hmod : (value b ds * b + d) % b = d := by
        rw [Nat.mul_comm, Nat.mul_add_mod, Nat.mod_eq_of_lt hd]
      rw [value_append_singleton, digits, hdiv, hmod,
        ih ds (fun e he => h e (List.mem_append_left _ he)) (by simpa using hlength)]

namespace Uuid

/-- What is read as an identifier is its byte form. -/
theorem bytes_of_ofBytes? {bs : List Nat} {u : Uuid} (hbytes : ∀ b ∈ bs, b < 256)
    (h : ofBytes? bs = some u) : u.bytes = bs := by
  rw [ofBytes?] at h
  split at h
  · next hlength =>
    cases h
    have hlt := Positional.value_lt bs hbytes
    rw [hlength] at hlt
    have hvalue : (ofNat (Positional.value 256 bs)).value = Positional.value 256 bs :=
      Nat.mod_eq_of_lt (Nat.lt_of_lt_of_eq hlt (by decide))
    rw [bytes, hvalue, ← hlength, Positional.digits_value bs hbytes]
  · cases h

theorem isSome_ofBytes? (bs : List Nat) : (ofBytes? bs).isSome = decide (bs.length = 16) := by
  rw [ofBytes?]
  by_cases h : bs.length = 16 <;> simp [h]

end Uuid

namespace Database

variable {entity : String}

/-! ### Stored values -/

/-- Whether a blob consists of bytes. -/
def Value.WellFormed : Value → Prop
  | .blob bs => ∀ b ∈ bs, b < 256
  | _ => True

theorem Value.WellFormed.bytes_lt {v : Value} (h : v.WellFormed) : ∀ b ∈ v.bytes, b < 256 := by
  have htext : ∀ s, ∀ b ∈ textBytes s, b < 256 := by
    intro s b hb
    obtain ⟨byte, -, rfl⟩ := List.mem_map.mp hb
    exact byte.toNat_lt
  cases v with
  | null => exact fun b hb => (List.not_mem_nil hb).elim
  | integer n => exact htext _
  | real f => exact htext _
  | text s => exact htext _
  | blob bs => exact h

/-! ### The adapter -/

/-- Whether a codec of identifiers asks one of plain identifiers for everything. -/
structure Codec.Delegates (d : Codec (Identifier entity)) (c : Codec Uuid) : Prop where
  kind : d.kind = c.kind
  isCompatible : ∀ k, d.isCompatible k = c.isCompatible k
  encode : ∀ i, d.encode i = c.encode i.uuid
  produces : ∀ i, d.produces i = c.produces i.uuid
  sizeHint : ∀ i, d.sizeHint i = c.sizeHint i.uuid
  decode : ∀ v, d.decode v = (c.decode v).map Identifier.mk

section Adapter

variable (c : Codec Uuid) (t : Table)

theorem delegates_adapted : (c.adapted entity).Delegates c :=
  ⟨rfl, fun _ => rfl, fun _ => rfl, fun _ => rfl, fun _ => rfl, fun _ => rfl⟩

theorem read_adapted (checked : Bool) (v : Value) :
    (c.adapted entity).read checked v = (c.read checked v).map Identifier.mk := by
  rw [Codec.read, Codec.read, apply_ite (Except.map Identifier.mk)]
  rfl

theorem readRows_adapted :
    (t.mapM fun r => ((c.adapted entity).read true r.key).map (·, r.name)) =
      (t.mapM fun r => (c.read true r.key).map (·, r.name)).map
        fun rows => rows.map fun (u, name) => (Identifier.mk u, name) := by
  induction t with
  | nil => rfl
  | cons r t ih =>
      rw [List.mapM_cons, List.mapM_cons, ih, read_adapted]
      cases c.read true r.key with
      | error fault => rfl
      | ok u => cases (t.mapM fun r => (c.read true r.key).map (·, r.name)) <;> rfl

/-- A client with typed identifiers is told what a client with plain ones is told. -/
theorem ask_adapted (q : Query (Identifier entity)) :
    (c.adapted entity).ask t q =
      ((c.ask t (q.map Identifier.uuid)).1.map Identifier.mk, (c.ask t (q.map Identifier.uuid)).2) := by
  cases q with
  | insert i name =>
      simp only [Codec.ask, Query.map, Codec.adapted]
      cases t.insert (c.encode i.uuid) name <;> rfl
  | delete i => rfl
  | findName i =>
      simp only [Codec.ask, Query.map, Codec.adapted]
      cases t.name? (c.encode i.uuid) <;> rfl
  | findId name =>
      simp only [Codec.ask, Query.map, read_adapted]
      cases t.key? name with
      | none => rfl
      | some key =>
          simp only
          cases c.read true key <;> rfl
  | list =>
      simp only [Codec.ask, Query.map, readRows_adapted]
      cases (t.mapM fun r => (c.read true r.key).map (·, r.name)) <;> rfl

end Adapter

theorem Response.map_uuid_mk (r : Response Uuid) :
    (r.map (Identifier.mk : Uuid → Identifier entity)).map Identifier.uuid = r := by
  cases r with
  | listed rows =>
      simp only [Response.map, List.map_map]
      exact congrArg Response.listed (List.map_id rows)
  | _ => rfl

/-- The client of a visit may have identifiers of either type. -/
theorem Visit.ask_eq (t : Table) (v : Visit entity) : v.ask t = Codec.plain.ask t v.query := by
  cases v with
  | plain query => rfl
  | typed query => simp only [Visit.ask, ask_adapted, Response.map_uuid_mk, Visit.query]

/-- The values that are read as identifiers: those of sixteen bytes, and of a compatible kind where
kinds are checked. -/
theorem exists_read_plain (checked : Bool) (v : Value) :
    (∃ u, Codec.plain.read checked v = .ok u) ↔
      (checked = true → isCompatible v.kind = true) ∧ v.bytes.length = 16 := by
  have hdecode : (∃ u, Codec.plain.decode v = .ok u) ↔ v.bytes.length = 16 := by
    have hsome := Uuid.isSome_ofBytes? v.bytes
    simp only [Codec.plain]
    cases hread : Uuid.ofBytes? v.bytes with
    | some u =>
        rw [hread, Option.isSome_some, eq_comm, decide_eq_true_iff] at hsome
        exact ⟨fun _ => hsome, fun _ => ⟨u, rfl⟩⟩
    | none =>
        rw [hread, Option.isSome_none, eq_comm, decide_eq_false_iff_not] at hsome
        constructor
        · rintro ⟨_, h⟩
          cases h
        · exact fun h => (hsome h).elim
  have hnull : v.kind = .null → v.bytes.length = 0 := by
    intro hkind
    cases v <;> first | rfl | cases hkind
  rw [Codec.read]
  split
  · next h =>
    obtain ⟨hchecked, -, hkind⟩ := h
    constructor
    · rintro ⟨_, h⟩
      cases h
    · exact fun h => (hkind (h.1 hchecked)).elim
  · next h =>
    rw [hdecode]
    refine ⟨fun hlength => ⟨fun hchecked => ?_, hlength⟩, And.right⟩
    refine Decidable.byContradiction fun hkind => h ⟨hchecked, fun hnone => ?_, hkind⟩
    rw [hnull hnone] at hlength
    cases hlength

/-- A column of identifiers is read as one of plain identifiers. -/
theorem decode_eq_read (checked : Bool) (v : Value) :
    decode entity checked v = (Codec.plain.read checked v).map Identifier.mk := by
  have hbytes : decodeBytes entity v = (Codec.plain.decode v).map Identifier.mk := by
    simp only [decodeBytes, Codec.plain]
    cases Uuid.ofBytes? v.bytes <;> rfl
  rw [decode, Codec.read, hbytes, apply_ite (Except.map Identifier.mk)]
  rfl

theorem decodeOptional_eq_read (v : Value) :
    decodeOptional entity v = (Codec.plain.readOptional v).map (Option.map Identifier.mk) := by
  have hbytes : (decodeBytes entity v).map some =
      ((Codec.plain.decode v).map some).map (Option.map Identifier.mk) := by
    simp only [decodeBytes, Codec.plain]
    cases Uuid.ofBytes? v.bytes <;> rfl
  rw [decodeOptional, Codec.readOptional, hbytes, apply_ite (Except.map (Option.map Identifier.mk)),
    apply_ite (Except.map (Option.map Identifier.mk))]
  rfl

/-- What is read from bytes is stored as these bytes again. -/
theorem bytes_of_decode {checked : Bool} {v : Value} {i : Identifier entity} (hv : v.WellFormed)
    (h : decode entity checked v = .ok i) : (encode i).bytes = v.bytes := by
  have hread : decodeBytes entity v = .ok i := by
    rw [decode] at h
    split at h
    · cases h
    · exact h
  rw [decodeBytes] at hread
  split at hread
  · next u hu =>
    cases hread
    exact Uuid.bytes_of_ofBytes? hv.bytes_lt hu
  · cases hread

/-! ### Steps of a session -/

/-- The step of a session that a query is, with keys as texts. -/
def Step.ofQuery : Query String → Step
  | .insert id name => .insert id name
  | .delete id => .delete id
  | .findName id => .findName id
  | .findId name => .findId name
  | .list => .list

/-- The reply of a session that a response is. -/
def Reply.ofResponse : Response (Identifier entity) → Reply entity
  | .rows n => .rows n
  | .name s => .name s
  | .found i => .decoded (some i)
  | .listed rs => .listed rs
  | .fault e => .fault e
  | .violation e => .violation e
  | .notFound => .notFound

theorem decode_eq_read_adapted (checked : Bool) (v : Value) :
    decode entity checked v = (Codec.plain.adapted entity).read checked v := by
  rw [decode_eq_read, read_adapted]

/-- A session works with its table as a client with the adapter does. -/
theorem step_ofQuery (t : Table) (q : Query (Identifier entity)) :
    (step t (.ofQuery (q.map Identifier.render)) : Reply entity × Table) =
      (.ofResponse ((Codec.plain.adapted entity).ask t q).1, ((Codec.plain.adapted entity).ask t q).2) := by
  have hreading : ∀ (i : Identifier entity) (act : Identifier entity → Reply entity × Table),
      reading t i.render act = act i := by
    intro i act
    rw [reading, Identifier.read_render]
  cases q with
  | insert i name =>
      have hencode : encode i = (Codec.plain.adapted entity).encode i := rfl
      simp only [Query.map, Step.ofQuery, step, hreading, inserting, Codec.ask, hencode]
      cases t.insert ((Codec.plain.adapted entity).encode i) name <;> rfl
  | delete i =>
      simp only [Query.map, Step.ofQuery, step, hreading]
      rfl
  | findName i =>
      have hencode : encode i = (Codec.plain.adapted entity).encode i := rfl
      simp only [Query.map, Step.ofQuery, step, hreading, Codec.ask, hencode]
      cases t.name? ((Codec.plain.adapted entity).encode i) <;> rfl
  | findId name =>
      simp only [Query.map, Step.ofQuery, step, decode_eq_read_adapted, Codec.ask]
      cases t.key? name with
      | none => rfl
      | some key =>
          simp only
          cases (Codec.plain.adapted entity).read true key <;> rfl
  | list =>
      simp only [Query.map, Step.ofQuery, step, readRows, decode_eq_read_adapted, Codec.ask]
      cases (t.mapM fun r => ((Codec.plain.adapted entity).read true r.key).map (·, r.name)) <;> rfl

/-! ### Runs -/

/-- The ledger after some visits, the last of which is the first in the list. -/
def ledgerOf : List (Visit entity) → Ledger
  | [] => []
  | v :: vs => ((ledgerOf vs).ask v.query).2

theorem ordered_ledgerOf (vs : List (Visit entity)) : (ledgerOf vs).Ordered := by
  induction vs with
  | nil => exact List.Pairwise.nil
  | cons v vs ih => exact Ledger.ordered_ask ih v.query

/-- What a visit finds depends on the ledger and on its query, not on the type of its identifiers. -/
theorem ask_run (vs : List (Visit entity)) (v : Visit entity) :
    v.ask (Visit.run vs) =
      (((ledgerOf vs).ask v.query).1, Ledger.rows ((ledgerOf vs).ask v.query).2) := by
  suffices Visit.run vs = Ledger.rows (ledgerOf vs) by
    rw [this, Visit.ask_eq, Ledger.ask_rows (ordered_ledgerOf vs)]
  induction vs with
  | nil => rfl
  | cons v vs ih => rw [Visit.run, ih, Visit.ask_eq, Ledger.ask_rows (ordered_ledgerOf vs), ledgerOf]

/-- After a row was inserted, its name is under its key, and other keys lead where they led. -/
theorem Ledger.ask_insert {l : Ledger} {u : Uuid} {name : String}
    (h : (l.ask (.insert u name)).1 = .rows 1) :
    Keyed.get? (l.ask (.insert u name)).2 u = some name ∧
      ∀ u' ≠ u, Keyed.get? (l.ask (.insert u name)).2 u' = l.get? u' := by
  rw [Ledger.ask] at h ⊢
  split at h
  · cases h
  · next hfree =>
    rw [if_neg hfree]
    exact ⟨Keyed.get?_put_self u name l, fun u' hu' => Keyed.get?_put_of_ne hu' name l⟩

theorem Ledger.ask_findName (l : Ledger) (u : Uuid) :
    (l.ask (.findName u)).1 = ((l.get? u).map Response.name).getD .notFound := by
  rw [Ledger.ask]
  cases l.get? u <;> rfl

/-- The adapter is interchangeable with plain identifiers, in both directions.

The adapter asks the codec of plain identifiers for everything. The value that stores an identifier is
the one that stores its `Uuid`, byte for byte, and is read back. A stored value is read as an identifier
exactly if it is read as a `Uuid`, which is then the one within: if it has sixteen bytes, of a compatible
kind where kinds are checked; and these bytes are stored again. A session works with its table as a
client with the adapter does. When clients with identifiers of either type use one table, each of them is
told what the one ledger of their visits tells. So a row that one has inserted is found under its key,
and listed, by any other, and other keys lead where they led. -/
theorem adapter_is_interchangeable (entity : String) :
    (Codec.plain.adapted entity).Delegates Codec.plain ∧
    (∀ i : Identifier entity,
      encode i = Codec.plain.encode i.uuid ∧ encode i = (Codec.plain.adapted entity).encode i ∧
        (encode i).bytes = i.uuid.bytes ∧
          ∀ checked, decode entity checked (encode i) = .ok i ∧
            Codec.plain.read checked (encode i) = .ok i.uuid) ∧
    (∀ (v : Value) (checked : Bool),
      decode entity checked v = (Codec.plain.adapted entity).read checked v ∧
        decode entity checked v = (Codec.plain.read checked v).map Identifier.mk ∧
        decodeOptional entity v = (Codec.plain.readOptional v).map (Option.map Identifier.mk) ∧
          ((∃ i, decode entity checked v = .ok i) ↔
            (checked = true → isCompatible v.kind = true) ∧ v.bytes.length = 16) ∧
            ∀ i, v.WellFormed → decode entity checked v = .ok i → (encode i).bytes = v.bytes) ∧
    (∀ (t : Table) (q : Query (Identifier entity)),
      (step t (.ofQuery (q.map Identifier.render)) : Reply entity × Table) =
        (.ofResponse ((Codec.plain.adapted entity).ask t q).1,
          ((Codec.plain.adapted entity).ask t q).2)) ∧
    (∀ (vs : List (Visit entity)) (v : Visit entity),
      v.ask (Visit.run vs) =
        (((ledgerOf vs).ask v.query).1, Ledger.rows ((ledgerOf vs).ask v.query).2)) ∧
    ∀ (vs : List (Visit entity)) (v w : Visit entity) (u : Uuid) (name : String),
      v.query = .insert u name → (v.ask (Visit.run vs)).1 = .rows 1 →
        (w.query = .findName u → (w.ask (Visit.run (v :: vs))).1 = .name name) ∧
        (w.query = .list → ∃ rows, (w.ask (Visit.run (v :: vs))).1 = .listed rows ∧ (u, name) ∈ rows) ∧
        ∀ u' ≠ u, w.query = .findName u' →
          (w.ask (Visit.run (v :: vs))).1 = (w.ask (Visit.run vs)).1 := by
  refine ⟨delegates_adapted Codec.plain,
    fun i => ⟨rfl, rfl, rfl, fun checked => ⟨decode_encode i checked, Ledger.read_encode checked i.uuid⟩⟩,
    fun v checked => ⟨decode_eq_read_adapted checked v, decode_eq_read checked v, decodeOptional_eq_read v,
      ?_, fun i hv h => bytes_of_decode hv h⟩,
    step_ofQuery, ask_run, fun vs v w u name hv hrows => ?_⟩
  · rw [← exists_read_plain, decode_eq_read]
    cases Codec.plain.read checked v with
    | error fault => constructor <;> rintro ⟨_, h⟩ <;> cases h
    | ok u => exact ⟨fun _ => ⟨u, rfl⟩, fun _ => ⟨⟨u⟩, rfl⟩⟩
  · rw [ask_run, hv] at hrows
    obtain ⟨hself, hothers⟩ := Ledger.ask_insert hrows
    have hledger : ledgerOf (v :: vs) = ((ledgerOf vs).ask (.insert u name)).2 := by rw [ledgerOf, hv]
    simp only [ask_run, hledger]
    refine ⟨fun hw => ?_, fun hw => ?_, fun u' hne hw => ?_⟩
    · rw [hw, Ledger.ask_findName, hself]
      rfl
    · rw [hw]
      exact ⟨_, rfl, Keyed.mem_of_get? hself⟩
    · rw [hw, Ledger.ask_findName, Ledger.ask_findName, hothers u' hne]

/-- A row that was inserted with a typed identifier is found with a plain one, and a stored text of sixteen
bytes is read as an identifier whose bytes are those of the text. -/
theorem typed_row_is_found_with_plain_key :
    (∃ i, decode "user" true (.text "0123456789abcdef") = .ok i ∧
        (encode i).bytes = (Value.text "0123456789abcdef").bytes) ∧
      (Visit.ask (Visit.run [.typed (.insert (⟨Uuid.nil⟩ : Identifier "user") "a")])
        (.plain (.findName Uuid.nil) : Visit "user")).1 = .name "a" := by
  obtain ⟨-, -, hread, -, -, hfound⟩ := adapter_is_interchangeable "user"
  refine ⟨?_, ?_⟩
  · obtain ⟨i, hi⟩ := (hread (.text "0123456789abcdef") true).2.2.2.1.mpr ⟨fun _ => rfl, by decide⟩
    exact ⟨i, hi, (hread (.text "0123456789abcdef") true).2.2.2.2 i trivial hi⟩
  · exact (hfound [] (.typed (.insert ⟨Uuid.nil⟩ "a")) (.plain (.findName Uuid.nil)) Uuid.nil "a" rfl rfl).1
      rfl

end Database

end TypedId
