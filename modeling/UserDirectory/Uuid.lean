namespace UserDirectory

/-- The number of identifiers, two to the power of 128. -/
abbrev uuidCount : Nat := 0x100000000000000000000000000000000

/-- A 128-bit identifier. -/
structure Uuid where
  number : Fin uuidCount
  deriving DecidableEq

namespace Uuid

instance : Inhabited Uuid := ⟨⟨0⟩⟩

/-- The identifier of nothing: all bits are zero. -/
def nil : Uuid := ⟨0⟩

/-- The identifier with the low 128 bits of a number. -/
def ofNat (n : Nat) : Uuid := ⟨Fin.ofNat uuidCount n⟩

def toNat (u : Uuid) : Nat := u.number.val

def isNil (u : Uuid) : Bool := u.toNat == 0

/-- The digit that tells how an identifier was made. -/
def version (u : Uuid) : Nat := u.toNat / 0x10000000000000000000 % 16

instance : LT Uuid := ⟨fun a b => a.toNat < b.toNat⟩

instance : LE Uuid := ⟨fun a b => a.toNat ≤ b.toNat⟩

instance (a b : Uuid) : Decidable (a < b) := inferInstanceAs (Decidable (a.toNat < b.toNat))

instance (a b : Uuid) : Decidable (a ≤ b) := inferInstanceAs (Decidable (a.toNat ≤ b.toNat))

@[ext] theorem ext_toNat {a b : Uuid} (h : a.toNat = b.toNat) : a = b := by
  cases a; cases b
  exact congrArg Uuid.mk (Fin.ext h)

theorem toNat_lt (u : Uuid) : u.toNat < uuidCount := u.number.isLt

theorem toNat_ofNat (n : Nat) : (ofNat n).toNat = n % uuidCount := rfl

@[simp] theorem ofNat_toNat (u : Uuid) : ofNat u.toNat = u := by
  apply ext_toNat
  rw [toNat_ofNat, Nat.mod_eq_of_lt u.toNat_lt]

theorem isNil_iff {u : Uuid} : u.isNil = true ↔ u = nil := by
  simp only [isNil, beq_iff_eq]
  exact ⟨fun h => ext_toNat h, fun h => h ▸ rfl⟩

end Uuid

/-- The identifiers still to be drawn, in order. -/
abbrev Mint := Nat → Uuid

end UserDirectory
