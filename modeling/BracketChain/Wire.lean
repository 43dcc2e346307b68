import Mathlib.Data.List.Basic
import Mathlib.Logic.Equiv.Defs

namespace BracketChain.Wire

/-- A positional format: how a value is written, and how it is read back from
the front of any bytes. What is read is exactly what is written. -/
structure Codec (α : Type) where
  encode : α → List UInt8
  decode : List UInt8 → Option (α × List UInt8)
  decode_encode : ∀ a rest, decode (encode a ++ rest) = some (a, rest)
  encode_decode : ∀ {bytes a rest}, decode bytes = some (a, rest) → encode a ++ rest = bytes

namespace Codec

variable {α β : Type} (c : Codec α)

theorem decode_eq_some {bytes rest : List UInt8} {a : α} : c.decode bytes = some (a, rest) ↔ c.encode a ++ rest = bytes := by
  constructor
  · exact c.encode_decode
  · rintro rfl
    exact c.decode_encode a rest

/-- No encoding is a proper prefix of another. -/
theorem encode_inj {a b : α} {rest rest' : List UInt8} (h : c.encode a ++ rest = c.encode b ++ rest') :
    a = b ∧ rest = rest' := by
  have both := (c.decode_encode a rest).symm.trans (h ▸ c.decode_encode b rest')
  simpa using both

/-- Every value takes `n` bytes. -/
def Width (n : Nat) : Prop := ∀ a, (c.encode a).length = n

theorem decode_short {n : Nat} (wide : c.Width n) {bytes : List UInt8} (short : bytes.length < n) :
    c.decode bytes = none := by
  rw [Option.eq_none_iff_forall_ne_some]
  rintro ⟨a, rest⟩ h
  have length := congrArg List.length (c.encode_decode h)
  rw [List.length_append, wide] at length
  omega

/-- Any `n` bytes are some value's. -/
def Total (n : Nat) : Prop := ∀ bytes : List UInt8, n ≤ bytes.length → ∃ a rest, c.encode a ++ rest = bytes

/-- A value whose encoding is all zeros is what a zeroed account reads as. -/
def Blank (a : α) (n : Nat) : Prop := c.encode a = List.replicate n 0

theorem decode_zeros {a : α} {n m : Nat} (blank : c.Blank a n) (room : n ≤ m) :
    c.decode (List.replicate m 0) = some (a, List.replicate (m - n) 0) := by
  obtain ⟨k, rfl⟩ := Nat.exists_eq_add_of_le room
  rw [decode_eq_some, blank, List.replicate_append_replicate, Nat.add_sub_cancel_left]

/-- Zeros are read as no other value. -/
theorem eq_of_zeros {a b : α} {n m : Nat} {rest : List UInt8} (wide : c.Width n) (blank : c.Blank b n)
    (h : c.encode a ++ rest = List.replicate m 0) : a = b := by
  obtain ⟨_, zeros, _⟩ := List.append_eq_replicate_iff.1 h
  rw [wide, ← blank] at zeros
  exact (c.encode_inj (congrArg (· ++ []) zeros)).1

def fixed (n : Nat) : Codec (Vector UInt8 n) where
  encode v := v.toList
  decode bytes := if h : n ≤ bytes.length then
      some (⟨(bytes.take n).toArray, by simpa using List.length_take_of_le h⟩, bytes.drop n)
    else none
  decode_encode v rest := by
    have length : v.toList.length = n := Vector.length_toList
    rw [dif_pos (by simp)]
    simp only [List.take_left' length, List.drop_left' length]
    rfl
  encode_decode := by
    intro bytes a rest h
    split at h
    · obtain ⟨rfl, rfl⟩ := Prod.mk.inj (Option.some.inj h)
      exact List.take_append_drop n bytes
    · cases h

theorem fixed_total (n : Nat) : (fixed n).Total n := by
  intro bytes long
  exact ⟨⟨(bytes.take n).toArray, by simpa using List.length_take_of_le long⟩, bytes.drop n, List.take_append_drop n bytes⟩

theorem fixed_width (n : Nat) : (fixed n).Width n := fun _ => Vector.length_toList

def pair (d : Codec β) : Codec (α × β) where
  encode x := c.encode x.1 ++ d.encode x.2
  decode bytes := (c.decode bytes).bind fun x => (d.decode x.2).map fun y => ((x.1, y.1), y.2)
  decode_encode x rest := by
    rw [List.append_assoc, c.decode_encode, Option.bind_some, d.decode_encode]
    rfl
  encode_decode := by
    rintro bytes ⟨a, b⟩ rest h
    simp only [Option.bind_eq_some_iff, Option.map_eq_some_iff, Prod.mk.injEq, Prod.exists] at h
    obtain ⟨_, middle, first, _, _, second, ⟨rfl, rfl⟩, rfl⟩ := h
    rw [List.append_assoc, d.encode_decode second, c.encode_decode first]

theorem pair_width {d : Codec β} {m n : Nat} (hc : c.Width m) (hd : d.Width n) : (c.pair d).Width (m + n) := by
  intro x
  exact (List.length_append).trans (congrArg₂ (· + ·) (hc x.1) (hd x.2))

theorem pair_total {d : Codec β} {m n : Nat} (wide : c.Width m) (hc : c.Total m) (hd : d.Total n) :
    (c.pair d).Total (m + n) := by
  intro bytes long
  obtain ⟨a, middle, rfl⟩ := hc bytes (by omega)
  rw [List.length_append, wide] at long
  obtain ⟨b, rest, rfl⟩ := hd middle (by omega)
  exact ⟨(a, b), rest, List.append_assoc _ _ _⟩

theorem pair_blank {d : Codec β} {a : α} {b : β} {m n : Nat} (hc : c.Blank a m) (hd : d.Blank b n) :
    (c.pair d).Blank (a, b) (m + n) := by
  have both : c.encode a ++ d.encode b = List.replicate m 0 ++ List.replicate n 0 := congrArg₂ (· ++ ·) hc hd
  exact both.trans List.replicate_append_replicate

/-- A last field that is left out is read from the zeros behind the others. -/
theorem pair_decode_zeros {d : Codec β} {a : α} {b : β} {n m : Nat} (blank : d.Blank b n) (room : n ≤ m) :
    (c.pair d).decode (c.encode a ++ List.replicate m 0) = some ((a, b), List.replicate (m - n) 0) := by
  rw [← d.encode_decode (d.decode_zeros blank room), ← List.append_assoc]
  exact (c.pair d).decode_encode (a, b) _

/-- The format of the second value depends on the first: a tag and the fields
behind it. -/
def tagged {γ : α → Type} (d : ∀ a, Codec (γ a)) : Codec (Σ a, γ a) where
  encode x := c.encode x.1 ++ (d x.1).encode x.2
  decode bytes := (c.decode bytes).bind fun x => ((d x.1).decode x.2).map fun y => (⟨x.1, y.1⟩, y.2)
  decode_encode x rest := by
    rw [List.append_assoc, c.decode_encode, Option.bind_some, (d x.1).decode_encode]
    rfl
  encode_decode := by
    rintro bytes ⟨a, b⟩ rest h
    simp only [Option.bind_eq_some_iff, Option.map_eq_some_iff, Prod.exists] at h
    obtain ⟨tag, middle, first, y, rest', second, h⟩ := h
    obtain ⟨same, rfl⟩ := Prod.mk.inj h
    cases same
    rw [List.append_assoc, (d a).encode_decode second, c.encode_decode first]

def equiv (e : α ≃ β) : Codec β where
  encode b := c.encode (e.symm b)
  decode bytes := (c.decode bytes).map fun x => (e x.1, x.2)
  decode_encode b rest := by
    rw [c.decode_encode, Option.map_some, e.apply_symm_apply]
  encode_decode := by
    rintro bytes b rest h
    simp only [Option.map_eq_some_iff, Prod.mk.injEq, Prod.exists] at h
    obtain ⟨a, _, first, rfl, rfl⟩ := h
    rw [e.symm_apply_apply, c.encode_decode first]

theorem equiv_width {n : Nat} (hc : c.Width n) (e : α ≃ β) : (c.equiv e).Width n := fun b => hc (e.symm b)

theorem equiv_total {n : Nat} (hc : c.Total n) (e : α ≃ β) : (c.equiv e).Total n := by
  intro bytes long
  obtain ⟨a, rest, h⟩ := hc bytes long
  exact ⟨e a, rest, (congrArg (fun a => c.encode a ++ rest) (e.symm_apply_apply a)).trans h⟩

theorem equiv_blank {b : β} {n : Nat} (e : α ≃ β) (hc : c.Blank (e.symm b) n) : (c.equiv e).Blank b n := hc

/-- Values that fail the check do not decode. -/
def restrict (p : α → Prop) [DecidablePred p] : Codec {a // p a} where
  encode a := c.encode a.1
  decode bytes := (c.decode bytes).bind fun x => if h : p x.1 then some (⟨x.1, h⟩, x.2) else none
  decode_encode a rest := by
    rw [c.decode_encode, Option.bind_some, dif_pos a.2]
  encode_decode := by
    rintro bytes ⟨a, ha⟩ rest h
    simp only [Option.bind_eq_some_iff, Option.dite_none_right_eq_some, Option.some.injEq, Prod.mk.injEq,
      Subtype.mk.injEq, Prod.exists] at h
    obtain ⟨_, _, first, _, rfl, rfl⟩ := h
    exact c.encode_decode first

theorem restrict_width {p : α → Prop} [DecidablePred p] {n : Nat} (hc : c.Width n) : (c.restrict p).Width n :=
  fun a => hc a.1

/-- Bytes behind their own number. -/
def sized {N : Nat} (len : Codec (Fin N)) : Codec {bytes : List UInt8 // bytes.length < N} where
  encode a := len.encode ⟨a.1.length, a.2⟩ ++ a.1
  decode bytes := (len.decode bytes).bind fun x =>
    if h : x.1 ≤ x.2.length then
      some (⟨x.2.take x.1, by rw [List.length_take_of_le h]; exact x.1.2⟩, x.2.drop x.1)
    else none
  decode_encode a rest := by
    rw [List.append_assoc, len.decode_encode, Option.bind_some, dif_pos (by simp)]
    simp
  encode_decode := by
    rintro bytes ⟨a, ha⟩ rest h
    simp only [Option.bind_eq_some_iff, Option.dite_none_right_eq_some, Option.some.injEq, Prod.mk.injEq,
      Subtype.mk.injEq, Prod.exists] at h
    obtain ⟨n, tail, first, enough, rfl, rfl⟩ := h
    have length : (⟨(tail.take n).length, ha⟩ : Fin N) = n := Fin.ext (List.length_take_of_le enough)
    rw [length, List.append_assoc, List.take_append_drop, len.encode_decode first]

/-- A field without bytes. -/
def nothing : Codec Unit where
  encode _ := []
  decode bytes := some ((), bytes)
  decode_encode _ _ := rfl
  encode_decode h := (Prod.mk.inj (Option.some.inj h)).2.symm

/-- One value after the other. -/
def replicate : ∀ n, Codec {l : List α // l.length = n}
  | 0 => nothing.equiv {
      toFun _ := ⟨[], rfl⟩
      invFun _ := ()
      left_inv _ := rfl
      right_inv l := Subtype.ext (List.length_eq_zero_iff.1 l.2).symm }
  | n + 1 => (c.pair (replicate n)).equiv {
      toFun x := ⟨x.1 :: x.2.1, congrArg (· + 1) x.2.2⟩
      invFun l := (l.1.head (List.ne_nil_of_length_eq_add_one l.2), ⟨l.1.tail, by simp [l.2]⟩)
      left_inv _ := rfl
      right_inv l := Subtype.ext (List.cons_head_tail _) }

theorem replicate_width {m : Nat} (hc : c.Width m) (n : Nat) : (c.replicate n).Width (n * m) := by
  induction n with
  | zero =>
      intro a
      rw [Nat.zero_mul]
      rfl
  | succ n ih =>
      rw [Nat.succ_mul, Nat.add_comm (n * m)]
      exact (c.pair (replicate c n)).equiv_width (c.pair_width hc ih) _

theorem replicate_blank {a : α} {m : Nat} (hc : c.Blank a m) (n : Nat) :
    (c.replicate n).Blank ⟨List.replicate n a, List.length_replicate⟩ (n * m) := by
  induction n with
  | zero =>
      rw [Nat.zero_mul]
      rfl
  | succ n ih =>
      rw [Nat.succ_mul, Nat.add_comm (n * m)]
      exact c.pair_blank hc ih

def vector (n : Nat) : Codec (Vector α n) := (c.replicate n).equiv {
  toFun l := ⟨l.1.toArray, (List.size_toArray).trans l.2⟩
  invFun v := ⟨v.toList, Vector.length_toList⟩
  left_inv _ := rfl
  right_inv _ := rfl }

theorem vector_blank {a : α} {m : Nat} (hc : c.Blank a m) (n : Nat) :
    (c.vector n).Blank (Vector.replicate n a) (n * m) := by
  have stored : (Vector.replicate n a).toList = List.replicate n a := Vector.toList_replicate
  have listed := c.replicate_blank hc n
  simp only [← stored] at listed
  exact listed

theorem vector_width {m : Nat} (hc : c.Width m) (n : Nat) : (c.vector n).Width (n * m) :=
  (c.replicate n).equiv_width (c.replicate_width hc n) _

end Codec

end BracketChain.Wire
