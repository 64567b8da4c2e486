import CcspCommon.Shared.ChainTable
import CcspCommon.Shared.Text
import Mathlib.Data.BitVec

set_option autoImplicit false

namespace CcspCommon.AnscPlatform

open CcspCommon.Shared

def hashFrom (w : Nat) : Nat → BitVec w → Text → BitVec w
  | _, ulHashTemp, [] => ulHashTemp
  | i, ulHashTemp, c :: rest =>
    hashFrom w (i + 1) (ulHashTemp + BitVec.ofNat w i * BitVec.ofNat w c.toNat) rest

-- `ULONG` has `w` bits; a plain `char` is taken as unsigned.
def anscHashString (w : Nat) (string : Text) (ulTableSize : Nat) : Nat :=
  (hashFrom w 0 0 string).toNat % ulTableSize

def adoTableSize : Nat := 64

inductive DataType
  | string | int | unsignedInt | boolean | dateTime | base64 | long | unsignedLong
  | float | double | byte | none
  deriving DecidableEq, Repr

abbrev Handle := Nat

structure AtomDescriptor where
  atomName : Text
  -- the cast of the enumerator to ULONG loses nothing
  atomId : DataType
  hContext : Handle
  deriving DecidableEq, Repr

def hashIndex (w : Nat) (name : Text) : Fin adoTableSize :=
  ⟨anscHashString w name adoTableSize, Nat.mod_lt _ (by decide)⟩

abbrev AtomTable (w : Nat) := ChainTable (hashIndex w) AtomDescriptor.atomName

namespace AtomTable

variable {w : Nat}

def addAtomByName (table : AtomTable w) (name : Option Text) (id : DataType) (hContext : Handle) :
    AtomTable w :=
  match name with
  | .none => table
  | some [] => table
  | some (c :: rest) => table.push ⟨c :: rest, id, hContext⟩

def getAtomByName (table : AtomTable w) (name : Option Text) : Option AtomDescriptor :=
  match name with
  | .none => .none
  | some [] => .none
  | some (c :: rest) => table.find? (c :: rest)

def delAtomByName (table : AtomTable w) (name : Option Text) : AtomTable w :=
  match name, table.getAtomByName name with
  | some name, some _ => table.remove name
  | _, _ => table

theorem getAtomByName_some (table : AtomTable w) {name : Option Text} {atom : AtomDescriptor}
    (found : table.getAtomByName name = some atom) :
    name = some atom.atomName ∧ table.find? atom.atomName = some atom ∧ atom ∈ table.entries := by
  rcases name with _ | _ | ⟨c, rest⟩
  · simp [getAtomByName] at found
  · simp [getAtomByName] at found
  · have located : table.find? (c :: rest) = some atom := found
    obtain ⟨member, same⟩ := table.find?_some located
    refine ⟨congrArg some same.symm, same ▸ located, ?_⟩
    exact member

theorem getAtomByName_of_nonempty (table : AtomTable w) {name : Text} (nonempty : name ≠ []) :
    table.getAtomByName (some name) = table.find? name := by
  cases name with
  | nil => exact absurd rfl nonempty
  | cons c rest => rfl

theorem getAtomByName_none (table : AtomTable w) {name : Text} (nonempty : name ≠ []) :
    table.getAtomByName (some name) = .none ↔ ∀ atom ∈ table.entries, atom.atomName ≠ name := by
  rw [getAtomByName_of_nonempty table nonempty, table.find?_none]

theorem addAtomByName_entries (table : AtomTable w) {name : Text} (nonempty : name ≠ [])
    (id : DataType) (hContext : Handle) :
    (table.addAtomByName (some name) id hContext).entries = ⟨name, id, hContext⟩ ::ₘ table.entries := by
  cases name with
  | nil => exact absurd rfl nonempty
  | cons c rest => exact table.entries_push ⟨c :: rest, id, hContext⟩

theorem delAtomByName_entries (table : AtomTable w) {name : Option Text} {atom : AtomDescriptor}
    (found : table.getAtomByName name = some atom) :
    atom ::ₘ (table.delAtomByName name).entries = table.entries := by
  obtain ⟨rfl, located, _⟩ := table.getAtomByName_some found
  simp only [delAtomByName, found]
  exact table.entries_remove located

theorem delAtomByName_of_ne (table : AtomTable w) {name : Option Text} {atom : AtomDescriptor}
    (other : some atom.atomName ≠ name) :
    atom ∈ (table.delAtomByName name).entries ↔ atom ∈ table.entries := by
  cases found : table.getAtomByName name with
  | none => cases name <;> simp [delAtomByName, found]
  | some first =>
    obtain ⟨rfl, _, _⟩ := table.getAtomByName_some found
    simp only [delAtomByName, found]
    exact table.mem_remove_of_ne fun same => other (congrArg some same)

end AtomTable

end CcspCommon.AnscPlatform
