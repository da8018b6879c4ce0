/-
The in-memory key-value store.

Keys and values carry their length bounds, and a store its number of entries,
so a store past its capacity cannot be built. The map underneath is ordered by
whatever order the library compares keys with; nothing here depends on which.
-/

import Etlx.Core.Result
import Etlx.Lib.FlatMap
import Mathlib.Data.List.Lex

namespace Etlx.Storage

def category : Category := { name := "storage" }

inductive Code
  | none
  | notFound
  | full
  | tooLarge
  | ioError
deriving DecidableEq, Repr

def Code.value : Code → Int
  | .none => 0
  | .notFound => 1
  | .full => 2
  | .tooLarge => 3
  | .ioError => 4

def keyCapacity : Nat := 32

def valueCapacity : Nat := 128

def maxEntries : Nat := 16

@[ext]
structure Key where
  bytes : Bytes
  bound : bytes.length ≤ keyCapacity
deriving DecidableEq

@[ext]
structure Value where
  bytes : Bytes
  bound : bytes.length ≤ valueCapacity
deriving DecidableEq

def makeKey (key : Bytes) : Result Key :=
  if bound : key.length ≤ keyCapacity then .ok { bytes := key, bound := bound }
  else fail category Code.tooLarge.value "key too long"

theorem makeKey_bytes (k : Key) : makeKey k.bytes = .ok k := by
  rw [makeKey, dif_pos k.bound]

section

variable [LinearOrder Key]

@[ext]
structure Store where
  map : FlatMap Key Value
  bound : map.size ≤ maxEntries

def Store.empty : Store := { map := FlatMap.empty, bound := Nat.zero_le _ }

/-- `Get`: the byte count and the caller's buffer afterwards. -/
def Store.get (s : Store) (key out : Bytes) : Result Nat × Bytes :=
  match makeKey key with
  | .error e => (.error e, out)
  | .ok k =>
      match s.map.find k with
      | none => (fail category Code.notFound.value "key not found", out)
      | some v =>
          if out.length < v.bytes.length then
            (fail category Code.tooLarge.value "output buffer too small", out)
          else (.ok v.bytes.length, v.bytes ++ out.drop v.bytes.length)

def Store.has (s : Store) (key : Bytes) : Bool :=
  match makeKey key with
  | .error _ => false
  | .ok k => (s.map.find k).isSome

def Store.set (s : Store) (key value : Bytes) : Status × Store :=
  match makeKey key with
  | .error e => (.error e, s)
  | .ok k =>
      if bound : value.length ≤ valueCapacity then
        if present : s.map.find k = none then
          if room : s.map.size < maxEntries then
            (.ok (),
              { map := s.map.put k { bytes := value, bound := bound }
                bound := Nat.le_trans (s.map.put_size_le k _) room })
          else (fail category Code.full.value "store full", s)
        else
          (.ok (),
            { map := s.map.put k { bytes := value, bound := bound }
              bound := by
                rw [s.map.put_size_found _ present]
                exact s.bound })
      else (fail category Code.tooLarge.value "value too long", s)

/-- `Remove`; erasing an absent key is harmless. -/
def Store.remove (s : Store) (key : Bytes) : Status × Store :=
  match makeKey key with
  | .error e => (.error e, s)
  | .ok k =>
      (.ok (),
        { map := s.map.erase k
          bound := Nat.le_trans (s.map.erase_size_le k) s.bound })

def Store.commit (s : Store) : Status × Store := (.ok (), s)

def Store.setString (s : Store) (key value : Bytes) : Status × Store := s.set key value

/-- `GetStringInto`: a view of the front of the caller's buffer. -/
def Store.getStringInto (s : Store) (key scratch : Bytes) : Result Bytes × Bytes :=
  match s.get key scratch with
  | (.error e, out) => (.error e, out)
  | (.ok count, out) => (.ok (out.take count), out)

theorem Store.set_eq (s : Store) (k : Key) (v : Value)
    (room : s.map.find k ≠ none ∨ s.map.size < maxEntries) :
    (s.set k.bytes v.bytes).1 = .ok () ∧ (s.set k.bytes v.bytes).2.map = s.map.put k v := by
  unfold Store.set
  rw [makeKey_bytes]
  dsimp only
  rw [dif_pos v.bound]
  by_cases absent : s.map.find k = none
  · have space : s.map.size < maxEntries := room.resolve_left (fun found => found absent)
    rw [dif_pos absent, dif_pos space]
    exact ⟨rfl, rfl⟩
  · rw [dif_neg absent]
    exact ⟨rfl, rfl⟩

theorem Store.set_map (s : Store) (k : Key) (v : Value) :
    (s.set k.bytes v.bytes).2.map = s.map.put k v ∨ (s.set k.bytes v.bytes).2 = s := by
  by_cases room : s.map.find k ≠ none ∨ s.map.size < maxEntries
  · exact Or.inl (s.set_eq k v room).2
  · rw [not_or, not_not] at room
    right
    unfold Store.set
    rw [makeKey_bytes]
    dsimp only
    rw [dif_pos v.bound, dif_pos room.1, dif_neg room.2]

end

/-! ### A concrete order -/

instance Key.byBytes : LinearOrder Key :=
  LinearOrder.lift' (fun key => key.bytes.map UInt8.toNat) (by
    intro one other same
    cases one
    cases other
    simp only [Key.mk.injEq]
    exact List.map_injective_iff.mpr (fun _ _ => UInt8.toNat_inj.mp) same)

end Etlx.Storage
