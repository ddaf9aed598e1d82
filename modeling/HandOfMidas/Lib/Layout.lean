import Mathlib.Algebra.Order.Ring.Nat
import Mathlib.Data.List.Basic
import Mathlib.Data.Nat.Notation

/-! Values of a fixed size in memory or in a file. A layout says how many bytes a value takes, which
    they are, and that the value is read back from them; layouts of fields make the layout of a
    record, and records lie one behind another in an array. -/

namespace Midas

/-! ### Numbers as rows of bytes, the least significant byte first -/

/-- The low `width` bytes of `n`. -/
def leBytes : ℕ → ℕ → List UInt8
  | 0, _ => []
  | width + 1, n => .ofNat n :: leBytes width (n / 256)

def ofLeBytes : List UInt8 → ℕ
  | [] => 0
  | b :: bs => b.toNat + 256 * ofLeBytes bs

@[simp] theorem length_leBytes (width n : ℕ) : (leBytes width n).length = width := by
  induction width generalizing n with
  | zero => rfl
  | succ width ih => rw [leBytes, List.length_cons, ih]

theorem ofLeBytes_leBytes (width n : ℕ) : ofLeBytes (leBytes width n) = n % 256 ^ width := by
  induction width generalizing n with
  | zero => simp [leBytes, ofLeBytes, Nat.mod_one]
  | succ width ih =>
    have hbyte : (UInt8.ofNat n).toNat = n % 256 := UInt8.toNat_ofNat'
    rw [leBytes, ofLeBytes, ih, hbyte, pow_succ', Nat.mod_mul]

/-- A number that has room in the bytes is read back from them. -/
theorem ofLeBytes_of_lt {width n : ℕ} (h : n < 256 ^ width) : ofLeBytes (leBytes width n) = n := by
  rw [ofLeBytes_leBytes, Nat.mod_eq_of_lt h]

/-! ### Layouts -/

/-- How a value lies in memory. -/
structure Layout (α : Type) where
  width : ℕ
  put : α → List UInt8
  get : List UInt8 → α
  length_put : ∀ a, (put a).length = width
  get_put : ∀ a, get (put a) = a

namespace Layout

variable {α β : Type}

/-! ### Fields -/

/-- A number of `width` bytes, the least significant byte first. -/
def le (width : ℕ) (toNat : α → ℕ) (ofNat : ℕ → α) (hlt : ∀ a, toNat a < 256 ^ width)
    (hof : ∀ a, ofNat (toNat a) = a) : Layout α where
  width := width
  put a := leBytes width (toNat a)
  get bytes := ofNat (ofLeBytes bytes)
  length_put _ := length_leBytes _ _
  get_put a := by rw [ofLeBytes_of_lt (hlt a), hof]

def u16 : Layout UInt16 :=
  le 2 UInt16.toNat UInt16.ofNat (fun a => a.toNat_lt) (fun _ => UInt16.ofNat_toNat)

def u32 : Layout UInt32 :=
  le 4 UInt32.toNat UInt32.ofNat (fun a => a.toNat_lt) (fun _ => UInt32.ofNat_toNat)

def u64 : Layout UInt64 :=
  le 8 UInt64.toNat UInt64.ofNat (fun a => a.toNat_lt) (fun _ => UInt64.ofNat_toNat)

/-- A number with a sign lies there as its two's complement. -/
def i64 : Layout Int64 where
  width := 8
  put a := u64.put a.toUInt64
  get bytes := (u64.get bytes).toInt64
  length_put _ := u64.length_put _
  get_put a := by rw [u64.get_put, Int64.toInt64_toUInt64]

/-- An array of bytes. -/
def bytes (n : ℕ) : Layout (Vector UInt8 n) where
  width := n
  put v := v.toList
  get l := .ofFn fun i => l.getD i 0
  length_put _ := Vector.length_toList
  get_put v := by
    ext i hi
    simp

/-! ### Records -/

/-- One field behind another. -/
def pair (A : Layout α) (B : Layout β) : Layout (α × β) where
  width := A.width + B.width
  put x := A.put x.1 ++ B.put x.2
  get l := (A.get (l.take A.width), B.get (l.drop A.width))
  length_put x := by rw [List.length_append, A.length_put, B.length_put]
  get_put x := by
    rw [List.take_left' (A.length_put x.1), List.drop_left' (A.length_put x.1), A.get_put, B.get_put]

/-- The layout of a record that has these fields. -/
def via (A : Layout α) (fields : β → α) (make : α → β) (h : ∀ b, make (fields b) = b) : Layout β where
  width := A.width
  put b := A.put (fields b)
  get l := make (A.get l)
  length_put b := A.length_put (fields b)
  get_put b := by rw [A.get_put, h]

theorem take_put_pair (A : Layout α) (B : Layout β) (x : α × β) :
    ((A.pair B).put x).take A.width = A.put x.1 :=
  List.take_left' (A.length_put x.1)

/-! ### Arrays -/

variable (A : Layout α)

/-- Records one behind another. -/
def putAll (xs : List α) : List UInt8 := xs.flatMap A.put

/-- The first `n` records of a row of bytes. -/
def getAll : ℕ → List UInt8 → List α
  | 0, _ => []
  | n + 1, l => A.get (l.take A.width) :: getAll n (l.drop A.width)

@[simp] theorem length_putAll (xs : List α) : (A.putAll xs).length = xs.length * A.width := by
  induction xs with
  | nil => simp [putAll]
  | cons x xs ih =>
    rw [putAll] at ih ⊢
    rw [List.flatMap_cons, List.length_append, ih, A.length_put, List.length_cons, Nat.succ_mul,
      Nat.add_comm]

theorem length_getAll (n : ℕ) (l : List UInt8) : (A.getAll n l).length = n := by
  induction n generalizing l with
  | zero => rfl
  | succ n ih => rw [getAll, List.length_cons, ih]

/-- An array is read back from its bytes. -/
theorem getAll_putAll (xs : List α) : A.getAll xs.length (A.putAll xs) = xs := by
  induction xs with
  | nil => rfl
  | cons x xs ih =>
    rw [putAll] at ih ⊢
    rw [List.flatMap_cons, List.length_cons, getAll, List.take_left' (A.length_put x),
      List.drop_left' (A.length_put x), A.get_put, ih]

/-- The bytes of one record of an array. -/
theorem take_drop_putAll {xs : List α} {i : ℕ} {x : α} (h : xs[i]? = some x) :
    ((A.putAll xs).drop (i * A.width)).take A.width = A.put x := by
  induction xs generalizing i with
  | nil => simp at h
  | cons y xs ih =>
    rw [putAll] at ih ⊢
    rw [List.flatMap_cons]
    cases i with
    | zero =>
      obtain rfl := Option.some.inj h
      rw [Nat.zero_mul, List.drop_zero, List.take_left' (A.length_put y)]
    | succ i =>
      rw [Nat.succ_mul, Nat.add_comm, ← List.drop_drop, List.drop_left' (A.length_put y)]
      exact ih h

end Layout

end Midas
