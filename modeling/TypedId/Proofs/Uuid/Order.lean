import TypedId.Database.Column
import TypedId.Proofs.Uuid.Spelling

/-!
One order for all forms of an identifier.

Identifiers are ordered as numbers. Numbers of equally many digits are ordered as the lists of their
digits, so the order of identifiers is also that of their bytes, of the values that a database
stores, and of their written forms (`order_agrees`); and whatever is sorted, the result is the same.
-/

namespace TypedId

open Text

/-! ### Lists -/

/-- Of two texts whose beginnings are equally long, the beginnings decide before the rest. -/
theorem compare_append {α : Type} [Ord α] {as bs cs ds : List α} (h : as.length = bs.length) :
    compare (as ++ cs) (bs ++ ds) = (compare as bs).then (compare cs ds) := by
  induction as generalizing bs with
  | nil =>
      obtain rfl : bs = [] := List.length_eq_zero_iff.mp h.symm
      rw [List.nil_append, List.nil_append, List.compare_nil_nil, Ordering.then]
  | cons a as ih =>
      cases bs with
      | nil => cases h
      | cons b bs =>
          rw [List.cons_append, List.cons_append, List.compare_cons_cons, List.compare_cons_cons,
            ih (Nat.succ.inj h), Ordering.then_assoc]

theorem compare_singleton {α : Type} [Ord α] (a b : α) : compare [a] [b] = compare a b := by
  rw [List.compare_cons_cons, List.compare_nil_nil, Ordering.then_eq]

/-- A function that keeps the order of elements keeps that of lists. -/
theorem compare_map {α β : Type} [Ord α] [Ord β] {f : α → β} {as bs : List α}
    (h : ∀ a ∈ as, ∀ b ∈ bs, compare (f a) (f b) = compare a b) :
    compare (as.map f) (bs.map f) = compare as bs := by
  induction as generalizing bs with
  | nil => cases bs <;> rfl
  | cons a as ih =>
      cases bs with
      | nil => rfl
      | cons b bs =>
          rw [List.map_cons, List.map_cons, List.compare_cons_cons, List.compare_cons_cons,
            h a List.mem_cons_self b List.mem_cons_self,
            ih fun a ha b hb => h a (List.mem_cons_of_mem _ ha) b (List.mem_cons_of_mem _ hb)]

theorem compareOfLessAndEq_list (cs ds : List Char) : compareOfLessAndEq cs ds = compare cs ds := by
  induction cs generalizing ds with
  | nil => cases ds <;> rfl
  | cons c cs ih =>
      cases ds with
      | nil => rfl
      | cons d ds =>
          have hchar : compare c d = if c < d then .lt else if c = d then .eq else .gt := rfl
          rw [List.compare_cons_cons, ← ih, hchar, compareOfLessAndEq, compareOfLessAndEq]
          simp only [List.cons_lt_cons_iff, List.cons.injEq]
          by_cases hlt : c < d
          · simp [hlt]
          · by_cases heq : c = d
            · simp [heq]
            · simp [hlt, heq]

/-- Texts are ordered as the lists of their characters. -/
theorem compare_ofList (cs ds : List Char) :
    compare (String.ofList cs) (String.ofList ds) = compare cs ds := by
  have hlt : String.ofList cs < String.ofList ds ↔ cs < ds := by
    show (String.ofList cs).toList < (String.ofList ds).toList ↔ _
    rw [String.toList_ofList, String.toList_ofList]
  rw [← compareOfLessAndEq_list]
  show compareOfLessAndEq (String.ofList cs) (String.ofList ds) = _
  rw [compareOfLessAndEq, compareOfLessAndEq]
  simp only [hlt, String.ofList_inj]

/-! ### Digits -/

/-- Of two numbers, all digits but the last decide before the last. -/
theorem compare_div_mod (b m n : Nat) :
    compare m n = (compare (m / b) (n / b)).then (compare (m % b) (n % b)) := by
  have hlt : ∀ {m n : Nat}, m / b < n / b → m < n := fun h =>
    Nat.lt_of_not_le fun hle => Nat.not_lt_of_le (Nat.div_le_div_right hle) h
  obtain h | h | h := Nat.lt_trichotomy (m / b) (n / b)
  · rw [Nat.compare_eq_lt.mpr h, Nat.compare_eq_lt.mpr (hlt h)]
    rfl
  · have hm := Nat.div_add_mod m b
    have hn := Nat.div_add_mod n b
    rw [h] at hm
    rw [h, Nat.compare_eq_eq.mpr rfl]
    show compare m n = compare (m % b) (n % b)
    obtain h' | h' | h' := Nat.lt_trichotomy (m % b) (n % b)
    · rw [Nat.compare_eq_lt.mpr h', Nat.compare_eq_lt.mpr (by omega)]
    · rw [Nat.compare_eq_eq.mpr h', Nat.compare_eq_eq.mpr (by omega)]
    · rw [Nat.compare_eq_gt.mpr h', Nat.compare_eq_gt.mpr (by omega)]
  · rw [Nat.compare_eq_gt.mpr h, Nat.compare_eq_gt.mpr (hlt h)]
    rfl

/-- Numbers are ordered as the lists of equally many digits. -/
theorem compare_digits {b : Nat} (k : Nat) {m n : Nat} (hm : m < Nat.pow b k) (hn : n < Nat.pow b k) :
    compare (Positional.digits b k m) (Positional.digits b k n) = compare m n := by
  induction k generalizing m n with
  | zero =>
      obtain rfl : m = 0 := Nat.lt_one_iff.mp hm
      obtain rfl : n = 0 := Nat.lt_one_iff.mp hn
      rfl
  | succ k ih =>
      have hdiv : ∀ {n}, n < Nat.pow b (k + 1) → n / b < Nat.pow b k := fun h => Nat.div_lt_of_lt_mul (by
        rwa [Nat.mul_comm])
      rw [Positional.digits, Positional.digits, compare_append (by simp [Positional.length_digits]),
        ih (hdiv hm) (hdiv hn), compare_singleton, ← compare_div_mod]

/-! ### Forms of identifiers -/

namespace Uuid

theorem value_lt_pow (u : Uuid) {b k : Nat} (h : Nat.pow b k = Nat.pow 2 128) : u.value < Nat.pow b k :=
  Nat.lt_of_lt_of_eq u.value_lt h.symm

/-- Identifiers are ordered as their bytes. -/
theorem compare_bytes (u v : Uuid) : compare u.bytes v.bytes = u.order v :=
  compare_digits 16 (u.value_lt_pow (by decide)) (v.value_lt_pow (by decide))

theorem compare_nibbles (u v : Uuid) : compare u.nibbles v.nibbles = u.order v :=
  compare_digits 32 (u.value_lt_pow (by decide)) (v.value_lt_pow (by decide))

/-- Hyphens at the same places leave the order as it is. -/
theorem compare_hyphenate (ns : List Nat) {cs ds : List Char} (h : cs.length = ds.length) :
    compare (hyphenate ns cs) (hyphenate ns ds) = compare cs ds := by
  induction ns generalizing cs ds with
  | nil => rfl
  | cons n ns ih =>
      cases ns with
      | nil => rfl
      | cons m ns =>
          have htake : (cs.take n).length = (ds.take n).length := by
            rw [List.length_take, List.length_take, h]
          have hdrop : (cs.drop n).length = (ds.drop n).length := by
            rw [List.length_drop, List.length_drop, h]
          have hcons : hyphenate (n :: m :: ns) =
              fun cs => cs.take n ++ '-' :: hyphenate (m :: ns) (cs.drop n) := by
            funext cs
            rw [hyphenate]
            exact List.cons_ne_nil m ns
          calc compare (hyphenate (n :: m :: ns) cs) (hyphenate (n :: m :: ns) ds)
              = (compare (cs.take n) (ds.take n)).then
                  (compare (hyphenate (m :: ns) (cs.drop n)) (hyphenate (m :: ns) (ds.drop n))) := by
                rw [hcons]
                show compare (cs.take n ++ _) (ds.take n ++ _) = _
                rw [compare_append htake, List.compare_cons_cons]
                rfl
            _ = (compare (cs.take n) (ds.take n)).then (compare (cs.drop n) (ds.drop n)) := by rw [ih hdrop]
            _ = compare cs ds := by
                rw [← compare_append htake, List.take_append_drop, List.take_append_drop]

/-- Identifiers are ordered as their written forms. -/
theorem compare_render (u v : Uuid) : compare u.render v.render = u.order v := by
  have hdigit : ∀ d < 16, ∀ e < 16, compare (hexCharacter d) (hexCharacter e) = compare d e := by decide
  calc compare u.render v.render
      = compare (u.nibbles.map hexCharacter) (v.nibbles.map hexCharacter) := by
        rw [render, render, compare_ofList, compare_hyphenate]
        simp
    _ = compare u.nibbles v.nibbles :=
        compare_map fun d hd e he => hdigit d (nibbles_lt hd) e (nibbles_lt he)
    _ = u.order v := compare_nibbles u v

theorem ext_iff {u v : Uuid} : u = v ↔ u.value = v.value := by
  cases u
  cases v
  exact ⟨fun h => by rw [h], fun h => by subst h; rfl⟩

theorem order_eq_eq_iff {u v : Uuid} : u.order v = .eq ↔ u = v :=
  Nat.compare_eq_eq.trans ext_iff.symm

theorem le_iff_isLE_order {u v : Uuid} : u ≤ v ↔ (u.order v).isLE = true :=
  Nat.isLE_compare.symm

theorem lt_iff_order_eq_lt {u v : Uuid} : u < v ↔ u.order v = .lt :=
  Nat.compare_eq_lt.symm

theorem bytes_injective {u v : Uuid} (h : u.bytes = v.bytes) : u = v := by
  rw [← order_eq_eq_iff, ← compare_bytes, h]
  exact Std.ReflCmp.compare_self

end Uuid

namespace Identifier

variable {entity : String}

theorem ext_iff {i j : Identifier entity} : i = j ↔ i.uuid = j.uuid := by
  cases i
  cases j
  exact ⟨fun h => by rw [h], fun h => by subst h; rfl⟩

/-- Stored identifiers are ordered as their bytes. -/
theorem order_encode (i j : Identifier entity) :
    (Database.encode i).order (Database.encode j) = compare i.uuid.bytes j.uuid.bytes := rfl

/-- What keeps the order of identifiers gives the same sequence, sorted before or after. -/
theorem map_mergeSort_of_compare {β : Type} {f : Identifier entity → β} {cmp : β → β → Ordering}
    (h : ∀ i j, cmp (f i) (f j) = i.order j) (is : List (Identifier entity)) :
    (is.mergeSort (· ≤ ·)).map f = (is.map f).mergeSort fun a b => (cmp a b).isLE := by
  refine List.map_mergeSort fun i _ j _ => ?_
  rw [h, Bool.eq_iff_iff, decide_eq_true_iff]
  exact Uuid.le_iff_isLE_order

/-- Identifiers are ordered as numbers, as bytes, as the values that a database stores and as their
written forms. This is a total order; only equal identifiers are equal in it, which are those that
wrap one value, and they give hash functions the same to read. So whichever form of identifiers is
sorted, the sequence is the same. -/
theorem forms_are_ordered_alike (entity : String) :
    (∀ i j : Identifier entity,
        i.order j = compare i.uuid.value j.uuid.value ∧ i.order j = compare i.uuid.bytes j.uuid.bytes ∧
          i.order j = (Database.encode i).order (Database.encode j) ∧
          i.order j = compare i.render j.render ∧ i.order? j = some (i.order j) ∧
          (i < j ↔ i.order j = .lt) ∧ (i ≤ j ↔ (i.order j).isLE = true) ∧
          (i.order j = .eq ↔ i = j) ∧ (i = j ↔ i.uuid = j.uuid) ∧ (i = j ↔ i.hashInput = j.hashInput)) ∧
      Std.TransCmp (fun i j : Identifier entity => i.order j) ∧
      ∀ is : List (Identifier entity),
        (is.mergeSort (· ≤ ·)).map uuid = (is.map uuid).mergeSort (· ≤ ·) ∧
          (is.mergeSort (· ≤ ·)).map (·.uuid.bytes) =
            (is.map (·.uuid.bytes)).mergeSort (fun a b => (compare a b).isLE) ∧
          (is.mergeSort (· ≤ ·)).map Database.encode =
            (is.map Database.encode).mergeSort (fun v w => (v.order w).isLE) ∧
          (is.mergeSort (· ≤ ·)).map render = (is.map render).mergeSort (fun s t => (compare s t).isLE) := by
  have hbytes : ∀ i j : Identifier entity, compare i.uuid.bytes j.uuid.bytes = i.order j :=
    fun i j => Uuid.compare_bytes i.uuid j.uuid
  have hvalues : ∀ i j : Identifier entity, (Database.encode i).order (Database.encode j) = i.order j :=
    fun i j => (order_encode i j).trans (hbytes i j)
  have htexts : ∀ i j : Identifier entity, compare i.render j.render = i.order j :=
    fun i j => Uuid.compare_render i.uuid j.uuid
  refine ⟨fun i j => ?_, ?_, fun is => ?_⟩
  · have hequal : i = j ↔ i.hashInput = j.hashInput := by
      refine ⟨fun h => by rw [h], fun h => ext_iff.mpr (Uuid.bytes_injective (List.cons.inj h).1)⟩
    exact ⟨rfl, (hbytes i j).symm, (hvalues i j).symm, (htexts i j).symm, rfl, Uuid.lt_iff_order_eq_lt,
      Uuid.le_iff_isLE_order, Uuid.order_eq_eq_iff.trans ext_iff.symm, ext_iff, hequal⟩
  · exact inferInstanceAs (Std.TransCmp (compareOn fun i : Identifier entity => i.uuid.value))
  · exact ⟨List.map_mergeSort fun _ _ _ _ => rfl, map_mergeSort_of_compare hbytes is,
      map_mergeSort_of_compare hvalues is, map_mergeSort_of_compare htexts is⟩

end Identifier

end TypedId
