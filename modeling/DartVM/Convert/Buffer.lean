import DartVM.Fault

namespace dart.convert
open List

/-- What a converter throws. -/
inductive Thrown where
  | format_exception (message : String) (offset : Option Nat)
  | argument_error (index : Nat) (value : Int)
  | out_of_bounds
deriving DecidableEq, Repr

/-- A list or string of fixed length that is filled from its start on: what it held before, and what has been written. -/
structure Buffer (α : Type) where
  initial : List α
  written : List α
  written_le : written.length ≤ initial.length

namespace Buffer
variable {α : Type}

/-- A buffer nothing has been written to. -/
def start (initial : List α) : Buffer α := ⟨initial, [], Nat.zero_le _⟩

section
variable (output : Buffer α)

/-- `output[index++] = value`. -/
def push (value : α) : Except Thrown (Buffer α) :=
  if h : output.written.length < output.initial.length then
    .ok ⟨output.initial, output.written ++ [value], by rw [List.length_append]; exact h⟩
  else .error .out_of_bounds

/-- What the buffer holds. -/
def contents : List α := output.written ++ output.initial.drop output.written.length

/-- Nothing is left of what it held before. -/
def Filled : Prop := output.written.length = output.initial.length

end

instance (output : Buffer α) : Decidable output.Filled := inferInstanceAs (Decidable (_ = _))

variable (initial : List α) {output : Buffer α}

@[simp] lemma written_start : (start initial).written = [] := rfl

@[simp] lemma initial_start : (start initial).initial = initial := rfl

lemma Filled.contents_eq (h : output.Filled) : output.contents = output.written := by
  rw [contents, drop_eq_nil_of_le (Nat.le_of_eq h.symm), append_nil]

section
variable (output : Buffer α)

/-- Several values are written, as long as there is room. -/
def WritesTo (values : List α) (output' : Buffer α) : Prop :=
  output'.initial = output.initial ∧ output'.written = output.written ++ values

lemma WritesTo.refl : output.WritesTo [] output := ⟨rfl, (append_nil _).symm⟩

lemma WritesTo.trans {output output' output'' : Buffer α} {values values' : List α}
    (h : output.WritesTo values output') (h' : output'.WritesTo values' output'') :
    output.WritesTo (values ++ values') output'' := ⟨h'.1.trans h.1, by rw [h'.2, h.2, append_assoc]⟩

/-- How many values can still be written. -/
def room : Nat := output.initial.length - output.written.length

end

lemma WritesTo.room_eq {output output' : Buffer α} {values : List α} (h : output.WritesTo values output') :
    output'.room = output.room - values.length := by
  rw [room, room, h.1, h.2, length_append]
  omega

lemma filled_iff_room : output.Filled ↔ output.room = 0 := by
  have hle := output.written_le
  rw [Filled, room]
  omega

lemma exists_push {n : Nat} (hroom : n + 1 ≤ output.room) (value : α) :
    ∃ output', output.push value = .ok output' ∧ output.WritesTo [value] output' ∧ n ≤ output'.room := by
  have hlt : output.written.length < output.initial.length := by
    rw [room] at hroom
    omega
  have hwrites : output.WritesTo [value] ⟨output.initial, output.written ++ [value], by rwa [length_append]⟩ :=
    ⟨rfl, rfl⟩
  refine ⟨_, dif_pos hlt, hwrites, ?_⟩
  rw [hwrites.room_eq, length_singleton]
  omega

end Buffer

/-- A `Uint8List` that is filled from its start on. -/
abbrev Uint8Buffer := Buffer UInt8

namespace Uint8Buffer

/-- A write to a `Uint8List` keeps the low eight bits. -/
def write (output : Uint8Buffer) (value : Nat) : Except Thrown Uint8Buffer := output.push (UInt8.ofNat value)

lemma exists_write {output : Uint8Buffer} {n : Nat} (hroom : n + 1 ≤ output.room) (value : Nat) :
    ∃ output', output.write value = .ok output' ∧ output.WritesTo [UInt8.ofNat value] output' ∧ n ≤ output'.room :=
  Buffer.exists_push hroom (UInt8.ofNat value)

end Uint8Buffer
end dart.convert
