/-
Hqsb/Lib/Cells.lean

Lists of values in cells of a fixed width.

A cell writes a value into a fixed number of bytes, or refuses it, and reads a value from as
many bytes.  `pack` puts the cells of a list one behind the other and `unpack` reads them off
again; a list of values that their cells keep is given back (`Cell.unpack_pack`).  The cells here
are the integers in two's complement, least byte first.
-/
import Mathlib

namespace Lib.Cells

open List

/-! ### Bytes of a number -/

/-- The `width` least bytes of a number, the least one first. -/
def toBytes : Nat → Nat → List (BitVec 8)
  | 0, _ => []
  | width + 1, n => BitVec.ofNat 8 n :: toBytes width (n / 256)

def ofBytes : List (BitVec 8) → Nat
  | [] => 0
  | byte :: bytes => byte.toNat + 256 * ofBytes bytes

@[simp] theorem length_toBytes (width n : Nat) : (toBytes width n).length = width := by
  induction width generalizing n with
  | zero => rfl
  | succ width ih => rw [toBytes, length_cons, ih]

theorem ofBytes_toBytes {width n : Nat} (h : n < 256 ^ width) : ofBytes (toBytes width n) = n := by
  induction width generalizing n with
  | zero =>
    exact (Nat.lt_one_iff.mp h).symm
  | succ width ih =>
    have hrest : n / 256 < 256 ^ width := by
      rw [pow_succ, mul_comm] at h
      exact Nat.div_lt_of_lt_mul h
    rw [toBytes, ofBytes, ih hrest]
    exact Nat.mod_add_div n 256

/-! ### Cells -/

/-- How values are stored in `width` bytes each. -/
structure Cell (α : Type*) where
  width : Nat
  write : α → Option (List (BitVec 8))
  read : List (BitVec 8) → α

namespace Cell

variable {α : Type*} (c : Cell α)

def pack : List α → Option (List (BitVec 8))
  | [] => some []
  | v :: values => do
    let bytes ← c.write v
    let rest ← pack values
    pure (bytes ++ rest)

def unpack : Nat → List (BitVec 8) → List α
  | 0, _ => []
  | n + 1, bytes => c.read (bytes.take c.width) :: unpack n (bytes.drop c.width)

/-- The cell gives the value back. -/
def Keeps (v : α) : Prop :=
  ∃ bytes, c.write v = some bytes ∧ bytes.length = c.width ∧ c.read bytes = v

variable {c}

/-- **The round trip.** -/
theorem unpack_pack {values : List α} (h : ∀ v ∈ values, c.Keeps v) :
    ∃ bytes, c.pack values = some bytes ∧ bytes.length = c.width * values.length ∧
      c.unpack values.length bytes = values := by
  induction values with
  | nil => exact ⟨[], rfl, rfl, rfl⟩
  | cons v values ih =>
    obtain ⟨bytes, hwrite, hwidth, hread⟩ := h v mem_cons_self
    obtain ⟨rest, hrest, hlength, hvalues⟩ := ih fun w hw => h w (mem_cons_of_mem v hw)
    refine ⟨bytes ++ rest, ?_, ?_, ?_⟩
    · simp [pack, hwrite, hrest]
    · rw [length_append, hwidth, hlength, length_cons]
      ring
    · show c.read ((bytes ++ rest).take c.width) :: c.unpack values.length
        ((bytes ++ rest).drop c.width) = _
      rw [take_left' hwidth, drop_left' hwidth, hread, hvalues]

end Cell

/-! ### Records -/

section Records

variable {α : Type*}

def packRecord : List (Cell α × α) → Option (List (BitVec 8))
  | [] => some []
  | (c, v) :: record => do
    let bytes ← c.write v
    let rest ← packRecord record
    pure (bytes ++ rest)

def unpackRecord : List (Cell α) → List (BitVec 8) → List α
  | [], _ => []
  | c :: cells, bytes => c.read (bytes.take c.width) :: unpackRecord cells (bytes.drop c.width)

/-- **The round trip of a record.** -/
theorem unpackRecord_packRecord {record : List (Cell α × α)} (h : ∀ e ∈ record, e.1.Keeps e.2) :
    ∃ bytes, packRecord record = some bytes ∧
      bytes.length = (record.map fun e => e.1.width).sum ∧
      unpackRecord (record.map Prod.fst) bytes = record.map Prod.snd := by
  induction record with
  | nil => exact ⟨[], rfl, rfl, rfl⟩
  | cons e record ih =>
    obtain ⟨c, v⟩ := e
    obtain ⟨bytes, hwrite, hwidth, hread⟩ := h (c, v) mem_cons_self
    obtain ⟨rest, hrest, hlength, hvalues⟩ := ih fun e he => h e (.tail _ he)
    refine ⟨bytes ++ rest, ?_, ?_, ?_⟩
    · simp only at hwrite
      rw [packRecord, hwrite, hrest]
      rfl
    · rw [length_append, hwidth, hlength, map_cons, sum_cons]
    · show c.read ((bytes ++ rest).take c.width) :: unpackRecord (record.map Prod.fst)
        ((bytes ++ rest).drop c.width) = _
      rw [take_left' hwidth, drop_left' hwidth, hvalues]
      exact congrArg (· :: _) hread

end Records

/-! ### Integers -/

/-- An integer in two's complement. -/
def signed (width : Nat) : Cell Int where
  width
  write n :=
    if -(256 ^ width : Int) ≤ n * 2 ∧ n * 2 < 256 ^ width then
      some (toBytes width (n % 256 ^ width).toNat)
    else none
  read bytes := Int.bmod (ofBytes bytes) (256 ^ width)

/-- What is in range is kept. -/
theorem signed_keeps {width : Nat} {n : Int} (hlow : -(256 ^ width : Int) ≤ n * 2)
    (hhigh : n * 2 < 256 ^ width) : (signed width).Keeps n := by
  have hcast : ((256 ^ width : Nat) : Int) = 256 ^ width := by push_cast; rfl
  have hpos : (0 : Int) < 256 ^ width := pow_pos (by decide) width
  have hnonneg : 0 ≤ n % 256 ^ width := Int.emod_nonneg n hpos.ne'
  have hlt : (n % 256 ^ width).toNat < 256 ^ width := by
    have hmod := Int.emod_lt_of_pos n hpos
    rw [← Int.toNat_of_nonneg hnonneg] at hmod
    exact Int.ofNat_lt.mp hmod
  refine ⟨toBytes width (n % 256 ^ width).toNat, if_pos ⟨hlow, hhigh⟩, length_toBytes _ _, ?_⟩
  show Int.bmod (ofBytes _ : Nat) (256 ^ width) = n
  rw [ofBytes_toBytes hlt, Int.toNat_of_nonneg hnonneg, ← hcast, Int.emod_bmod]
  exact Int.bmod_eq_of_le_mul_two (by rwa [hcast]) (by rwa [hcast])

/-- A number without a sign. -/
def unsigned (width : Nat) : Cell Int where
  width
  write n := if 0 ≤ n ∧ n < 256 ^ width then some (toBytes width n.toNat) else none
  read bytes := ofBytes bytes

theorem unsigned_keeps {width : Nat} {n : Int} (hnonneg : 0 ≤ n) (hlt : n < 256 ^ width) :
    (unsigned width).Keeps n := by
  have hnat : n.toNat < 256 ^ width := by
    rw [← Int.ofNat_lt, Int.toNat_of_nonneg hnonneg]
    push_cast
    exact hlt
  refine ⟨toBytes width n.toNat, if_pos ⟨hnonneg, hlt⟩, length_toBytes _ _, ?_⟩
  show ((ofBytes _ : Nat) : Int) = n
  rw [ofBytes_toBytes hnat, Int.toNat_of_nonneg hnonneg]

end Lib.Cells
