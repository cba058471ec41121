/-!
Numbers written with a fixed count of digits, most significant digit first.

`digits b k n` writes `n` with `k` digits in base `b`, and `value b ds` reads such a list back.
Identifiers are numbers below `2 ^ 128`: in base 256 their sixteen digits are the bytes that are
stored and sent, in base 16 their thirty-two digits are the text that is shown.
-/

namespace TypedId.Positional

/-- The last `k` digits of `n` in base `b`, most significant first. -/
def digits (b : Nat) : Nat → Nat → List Nat
  | 0, _ => []
  | k + 1, n => digits b k (n / b) ++ [n % b]

/-- The number that a list of digits in base `b` denotes. -/
def value (b : Nat) (ds : List Nat) : Nat :=
  ds.foldl (fun n d => n * b + d) 0

theorem length_digits (b k n : Nat) : (digits b k n).length = k := by
  induction k generalizing n with
  | zero => rfl
  | succ k ih => simp [digits, ih]

theorem value_append_singleton (b d : Nat) (ds : List Nat) :
    value b (ds ++ [d]) = value b ds * b + d := by
  simp [value]

/-- Writing with `k` digits keeps a number up to multiples of `b ^ k`. -/
theorem value_digits (b k n : Nat) : value b (digits b k n) = n % Nat.pow b k := by
  induction k generalizing n with
  | zero => simp [digits, value, Nat.mod_one]
  | succ k ih =>
    rw [digits, value_append_singleton, ih]
    change n / b % Nat.pow b k * b + n % b = n % (Nat.pow b k * b)
    rw [Nat.mul_comm (Nat.pow b k) b, Nat.mod_mul, Nat.mul_comm, Nat.add_comm]

/-- Every digit is below the base. -/
theorem lt_of_mem_digits {b k n d : Nat} (hb : 0 < b) (h : d ∈ digits b k n) : d < b := by
  induction k generalizing n with
  | zero => simp [digits] at h
  | succ k ih =>
    rcases List.mem_append.1 h with h | h
    · exact ih h
    · exact List.mem_singleton.1 h ▸ Nat.mod_lt _ hb

/-- A list of digits denotes a number below the power of the base that its length gives. -/
theorem value_lt {b : Nat} (ds : List Nat) (h : ∀ d ∈ ds, d < b) : value b ds < Nat.pow b ds.length := by
  suffices ∀ (n : Nat), ds.foldl (fun n d => n * b + d) n < (n + 1) * Nat.pow b ds.length by
    simpa [value] using this 0
  induction ds with
  | nil => intro n; simp
  | cons d ds ih =>
    intro n
    have hd : d < b := h d (by simp)
    have step := ih (fun e he => h e (by simp [he])) (n * b + d)
    refine Nat.lt_of_lt_of_le step ?_
    change (n * b + d + 1) * Nat.pow b ds.length ≤ (n + 1) * (Nat.pow b ds.length * b)
    rw [Nat.mul_comm (Nat.pow b ds.length) b, ← Nat.mul_assoc]
    refine Nat.mul_le_mul_right _ ?_
    rw [Nat.add_mul, Nat.one_mul]
    omega

end TypedId.Positional
