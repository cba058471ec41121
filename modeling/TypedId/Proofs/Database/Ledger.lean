import TypedId.Database.Codec
import TypedId.Keyed
import TypedId.Proofs.Uuid.Order

/-!
A table of plain identifiers is a ledger.

A `Ledger` has a name for some identifiers, in their order. The table whose rows are those of a ledger
answers every query as the ledger does, and stays the table of a ledger (`ask_rows`). This is where the
order of stored values meets the order of identifiers: a row is found, placed and deleted by the bytes
of its key.
-/

namespace TypedId

/-! ### Ordered keys -/

namespace Keyed

variable {κ α : Type} [DecidableEq κ] {l : Keyed κ α} {key k : κ} {a : α}

/-- Whether things are in the order of their keys, and no two have the same. -/
def Ordered [LT κ] (l : Keyed κ α) : Prop := l.Pairwise fun p q => p.1 < q.1

/-- A key that is not there has no value. -/
theorem get?_eq_none (h : ∀ p ∈ l, p.1 ≠ key) : l.get? key = none := by
  induction l with
  | nil => rfl
  | cons p l ih =>
      rw [get?, if_neg (h p List.mem_cons_self)]
      exact ih fun q hq => h q (List.mem_cons_of_mem _ hq)

/-- What is found under a key is there. -/
theorem mem_of_get? (h : l.get? key = some a) : (key, a) ∈ l := by
  induction l with
  | nil => cases h
  | cons p l ih =>
      rw [get?] at h
      split at h
      · next hk =>
        cases h
        subst hk
        exact List.mem_cons_self
      · exact List.mem_cons_of_mem _ (ih h)

/-- What a ledger holds after a value was put there is this value or was there before. -/
theorem mem_put [LT κ] [DecidableLT κ] {p : κ × α} (h : p ∈ put key a l) : p = (key, a) ∨ p ∈ l := by
  induction l with
  | nil => exact .inl (List.mem_singleton.mp h)
  | cons q l ih => grind [put]

end Keyed

namespace Uuid

theorem lt_trans {u v w : Uuid} (h : u < v) (h' : v < w) : u < w := Nat.lt_trans h h'

theorem ne_of_lt {u v : Uuid} (h : u < v) : u ≠ v := by
  rintro rfl
  exact Nat.lt_irrefl _ h

end Uuid

/-- Keys stay in ascending order. -/
theorem Keyed.ordered_put {α : Type} {l : Keyed Uuid α} (h : l.Ordered) (u : Uuid) (a : α) :
    (Keyed.put u a l).Ordered := by
  induction l with
  | nil => exact List.pairwise_singleton _ _
  | cons p l ih =>
      obtain ⟨v, b⟩ := p
      rw [put]
      split
      · next heq =>
        subst heq
        exact List.Pairwise.cons (fun q hq => List.rel_of_pairwise_cons h hq) h.of_cons
      split
      · next hlt =>
        refine List.Pairwise.cons (fun q hq => ?_) h
        obtain rfl | hq := List.mem_cons.mp hq
        · exact hlt
        · exact Uuid.lt_trans hlt (List.rel_of_pairwise_cons h hq)
      · next hne hnot =>
        have hvu : v < u := by
          obtain hlt | heq | hgt := Nat.lt_trichotomy v.value u.value
          · exact hlt
          · exact (hne (Uuid.ext_iff.mpr heq)).elim
          · exact (hnot hgt).elim
        refine List.Pairwise.cons (fun q hq => ?_) (ih h.of_cons)
        obtain rfl | hq := mem_put hq
        · exact hvu
        · exact List.rel_of_pairwise_cons h hq

end TypedId

namespace TypedId.Database

/-! ### Ledgers -/

/-- Names for identifiers. -/
abbrev Ledger := Keyed Uuid String

namespace Ledger

/-- Answers a query: what a client is told, and the ledger afterwards. -/
def ask (l : Ledger) : Query Uuid → Response Uuid × Ledger
  | .insert u name =>
    if (l.get? u).isSome then (.violation .unique, l) else (.rows 1, l.put u name)
  | .delete u => (.rows (if (l.get? u).isSome then 1 else 0), l.erase u)
  | .findName u =>
    match l.get? u with
    | some name => (.name name, l)
    | none => (.notFound, l)
  | .findId name =>
    match l.find? (·.2 = name) with
    | some (u, _) => (.found u, l)
    | none => (.notFound, l)
  | .list => (.listed l, l)

/-- The table with the rows of a ledger. -/
def rows (l : Ledger) : Table := l.map fun (u, name) => ⟨Codec.plain.encode u, name⟩

variable {l : Ledger} {u v : Uuid} {name : String}

/-- The keys of a ledger are ordered as the values that store them. -/
theorem order_encode (u v : Uuid) : (Codec.plain.encode u).order (Codec.plain.encode v) = u.order v :=
  Uuid.compare_bytes u v

/-- A row has the key of an identifier exactly if it is that identifier's. -/
theorem hasKey_encode (u v : Uuid) (name : String) :
    Table.hasKey (Codec.plain.encode u) ⟨Codec.plain.encode v, name⟩ = decide (u = v) := by
  rw [Table.hasKey, order_encode, decide_eq_decide]
  exact Uuid.order_eq_eq_iff

/-- A name is found under an identifier in the table as in the ledger. -/
theorem name?_rows (l : Ledger) (u : Uuid) : Table.name? l.rows (Codec.plain.encode u) = l.get? u := by
  induction l with
  | nil => rfl
  | cons p l ih =>
      obtain ⟨v, name⟩ := p
      rw [Keyed.get?]
      by_cases h : v = u
      · rw [if_pos h, Table.name?, rows, List.map_cons, List.find?_cons_of_pos]
        · rfl
        · rw [hasKey_encode, decide_eq_true h.symm]
      · rw [if_neg h, Table.name?, rows, List.map_cons, List.find?_cons_of_neg]
        · exact ih
        · rw [hasKey_encode, decide_eq_false (Ne.symm h)]
          exact Bool.false_ne_true

/-- An identifier is found by a name in the table as in the ledger. -/
theorem key?_rows (l : Ledger) (name : String) :
    Table.key? l.rows name = (l.find? (·.2 = name)).map fun p => Codec.plain.encode p.1 := by
  rw [Table.key?, rows, List.find?_map, Option.map_map]
  rfl

/-- What was stored is read, be the kind of the value checked or not. -/
theorem read_encode (checked : Bool) (u : Uuid) :
    Codec.plain.read checked (Codec.plain.encode u) = .ok u := by
  simp [Codec.read, Codec.plain, isCompatible, Value.kind, Value.bytes, Uuid.ofBytes?_bytes]

/-- Reading all rows of a ledger's table gives the ledger. -/
theorem read_rows (l : Ledger) :
    (l.rows.mapM fun r => (Codec.plain.read true r.key).map (·, r.name)) = .ok l := by
  induction l with
  | nil => rfl
  | cons p l ih =>
      obtain ⟨u, name⟩ := p
      rw [rows, List.map_cons, List.mapM_cons, read_encode]
      change (do let rest ← (rows l).mapM fun r => (Codec.plain.read true r.key).map (·, r.name)
                 pure ((u, name) :: rest) : Except ColumnFault Ledger) = _
      rw [ih]
      rfl

/-- What comes before the first of some ordered things is not among them. -/
theorem get?_eq_none_of_lt {p : Uuid × String} (h : Keyed.Ordered (p :: l)) (hu : u < p.1) :
    Keyed.get? (p :: l) u = none := by
  refine Keyed.get?_eq_none fun q hq => ?_
  obtain rfl | hq := List.mem_cons.mp hq
  · exact (Uuid.ne_of_lt hu).symm
  · exact (Uuid.ne_of_lt (Uuid.lt_trans hu (List.rel_of_pairwise_cons h hq))).symm

/-- A row is placed where its key belongs in the ledger, unless the key is there. -/
theorem place_rows (h : l.Ordered) (u : Uuid) (name : String) :
    Table.place ⟨Codec.plain.encode u, name⟩ l.rows =
      if (l.get? u).isSome then .error .unique else .ok (rows (l.put u name)) := by
  induction l with
  | nil => rfl
  | cons p l ih =>
      obtain ⟨v, other⟩ := p
      rw [rows, List.map_cons, Table.place]
      simp only [order_encode]
      cases horder : u.order v with
      | lt =>
          have hlt : u < v := Uuid.lt_iff_order_eq_lt.mpr horder
          rw [get?_eq_none_of_lt h hlt, Keyed.put, if_neg (Uuid.ne_of_lt hlt).symm, if_pos hlt]
          rfl
      | eq =>
          obtain rfl := Uuid.order_eq_eq_iff.mp horder
          rw [Keyed.get?, if_pos rfl]
          rfl
      | gt =>
          have hne : v ≠ u := by
            rintro rfl
            rw [Uuid.order_eq_eq_iff.mpr rfl] at horder
            cases horder
          have hnot : ¬ u < v := by
            rw [Uuid.lt_iff_order_eq_lt, horder]
            decide
          rw [Keyed.get?, if_neg hne, Keyed.put, if_neg hne, if_neg hnot]
          change (Table.place ⟨Codec.plain.encode u, name⟩ (rows l)).map _ = _
          rw [ih h.of_cons]
          split <;> rfl

/-- Rows are chosen in the table as entries are in the ledger. -/
theorem filter_rows (l : Ledger) (p : Row → Bool) :
    l.rows.filter p = rows (l.filter fun (u, name) => p ⟨Codec.plain.encode u, name⟩) := by
  rw [rows, List.filter_map]
  rfl

/-- Of ordered things at most one has a given key. -/
theorem length_filter_key (h : l.Ordered) (u : Uuid) :
    (l.filter fun p => decide (u = p.1)).length = if (l.get? u).isSome then 1 else 0 := by
  induction l with
  | nil => rfl
  | cons p l ih =>
      obtain ⟨v, name⟩ := p
      by_cases heq : v = u
      · obtain rfl := heq
        have hnone : l.filter (fun p => decide (v = p.1)) = [] := by
          refine List.filter_eq_nil_iff.mpr fun q hq => ?_
          rw [decide_eq_true_iff]
          exact Uuid.ne_of_lt (List.rel_of_pairwise_cons h hq)
        rw [Keyed.get?, if_pos rfl, List.filter_cons_of_pos (by simp), hnone]
        rfl
      · rw [Keyed.get?, if_neg heq, List.filter_cons_of_neg (by simpa using Ne.symm heq)]
        exact ih h.of_cons

/-- Deleting a row erases the entry, and tells whether there was one. -/
theorem delete_rows (h : l.Ordered) (u : Uuid) :
    Table.delete l.rows (Codec.plain.encode u) = (rows (l.erase u), if (l.get? u).isSome then 1 else 0) := by
  rw [Table.delete, filter_rows, filter_rows]
  simp only [hasKey_encode, rows, List.length_map]
  rw [← length_filter_key h u, Keyed.erase]
  congr 3
  funext p
  rw [← decide_not]
  exact decide_eq_decide.mpr ⟨fun hne heq => hne heq.symm, fun hne heq => hne heq.symm⟩

/-- The table of a ledger answers as the ledger does, and is the table of a ledger afterwards. -/
theorem ask_rows (h : l.Ordered) (q : Query Uuid) :
    Codec.plain.ask l.rows q = ((l.ask q).1, rows (l.ask q).2) := by
  cases q with
  | insert u name =>
      have hinsert : Table.insert l.rows (Codec.plain.encode u) name = _ := place_rows h u name
      rw [Codec.ask, hinsert, ask]
      by_cases hsome : (l.get? u).isSome
      · simp only [if_pos hsome]
      · simp only [if_neg hsome]
  | delete u =>
      rw [Codec.ask, delete_rows h, ask]
  | findName u =>
      rw [Codec.ask, name?_rows, ask]
      cases l.get? u <;> rfl
  | findId name =>
      rw [Codec.ask, key?_rows, ask]
      cases hfind : l.find? (·.2 = name) with
      | none => rfl
      | some p =>
          simp only [Option.map_some, read_encode]
          rfl
  | list =>
      rw [Codec.ask, read_rows, ask]
      rfl

/-- A ledger stays in order. -/
theorem ordered_ask (h : l.Ordered) (q : Query Uuid) : Keyed.Ordered (l.ask q).2 := by
  cases q with
  | insert u name =>
      rw [ask]
      split
      · exact h
      · exact Keyed.ordered_put h u name
  | delete u => exact h.filter _
  | findName u =>
      rw [ask]
      split <;> exact h
  | findId name =>
      rw [ask]
      split <;> exact h
  | list => exact h

end Ledger

end TypedId.Database
