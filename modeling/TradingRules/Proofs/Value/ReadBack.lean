import TradingRules.Value.Json
import TradingRules.Proofs.Dict
import TradingRules.Proofs.Json.ReadBack

/-!
# Values read back

A value is read back as it is from its JSON form (`ofJson_toJson`), if its floats are finite and its
maps in name order.
-/

namespace TradingRules.Value

open Decimal (twoTo)
open Json (Writable WritableItems WritableMembers)

mutual

/-- At every depth, floats are finite and maps are in name order. -/
def Storable : Value → Prop
  | .float x => x.isFinite = true
  | .list items => StorableItems items
  | .map fields => Dict.Ordered fields ∧ StorableFields fields
  | .null | .bool _ | .int _ | .str _ => True

def StorableItems : List Value → Prop
  | [] => True
  | v :: rest => Storable v ∧ StorableItems rest

def StorableFields : List (String × Value) → Prop
  | [] => True
  | (_, v) :: rest => Storable v ∧ StorableFields rest

end

theorem inInt64_toInt (i : Int64) : Decimal.inInt64 i.toInt = true := by
  have hlow := i.le_toInt
  have hhigh := i.toInt_lt
  simp only [Decimal.inInt64, Bool.and_eq_true, decide_eq_true_eq]
  exact ⟨by exact_mod_cast hlow, by exact_mod_cast hhigh⟩

theorem ofJsonInt_toInt (i : Int64) : ofJsonInt i.toInt = .int i := by
  rw [ofJsonInt, Decimal.int64?, if_pos (inInt64_toInt i)]
  simp

mutual

theorem writable_toJson : ∀ v : Value, Storable v → Writable v.toJson
  | .null, _ | .bool _, _ | .str _, _ => trivial
  | .int i, _ => by
    have hrange := inInt64_toInt i
    simp only [Decimal.inInt64, Bool.and_eq_true, decide_eq_true_eq] at hrange
    have hpower : (twoTo 63 : Int) ≤ twoTo 64 := by decide
    exact ⟨hrange.1, hrange.2.trans_le hpower⟩
  | .float x, h => by
    have hx : x.isFinite = true := h
    rw [toJson, if_pos hx]
    exact hx
  | .list items, h => writable_toJsonItems items h
  | .map fields, h => writable_toJsonFields fields h.2

theorem writable_toJsonItems : ∀ items, StorableItems items → WritableItems (toJsonItems items)
  | [], _ => trivial
  | v :: rest, h => ⟨writable_toJson v h.1, writable_toJsonItems rest h.2⟩

theorem writable_toJsonFields : ∀ fields, StorableFields fields → WritableMembers (toJsonFields fields)
  | [], _ => trivial
  | (_, v) :: rest, h => ⟨writable_toJson v h.1, writable_toJsonFields rest h.2⟩

end

mutual

theorem ofJson_toJson : ∀ v : Value, Storable v → ofJson v.toJson = v
  | .null, _ | .bool _, _ | .str _, _ => rfl
  | .int i, _ => ofJsonInt_toInt i
  | .float x, h => by
    have hx : x.isFinite = true := h
    rw [toJson, if_pos hx]
    rfl
  | .list items, h => congrArg Value.list (ofJsonItems_toJsonItems items h)
  | .map fields, h => by
    rw [toJson, ofJson, ofJsonMembers_toJsonFields fields h.2, Dict.ofList_of_ordered h.1]

theorem ofJsonItems_toJsonItems : ∀ items, StorableItems items → ofJsonItems (toJsonItems items) = items
  | [], _ => rfl
  | v :: rest, h => by
    rw [toJsonItems, ofJsonItems, ofJson_toJson v h.1, ofJsonItems_toJsonItems rest h.2]

theorem ofJsonMembers_toJsonFields :
    ∀ fields, StorableFields fields → ofJsonMembers (toJsonFields fields) = fields
  | [], _ => rfl
  | (name, v) :: rest, h => by
    rw [toJsonFields, ofJsonMembers, ofJson_toJson v h.1, ofJsonMembers_toJsonFields rest h.2]

end

mutual

theorem readable_toJson : ∀ v : Value, v.toJson.readable = true
  | .null | .bool _ | .str _ | .int _ => rfl
  | .float x => by
    rw [toJson]
    split <;> rfl
  | .list items => readableItems_toJsonItems items
  | .map fields => readableMembers_toJsonFields fields

theorem readableItems_toJsonItems : ∀ items, Json.readableItems (toJsonItems items) = true
  | [] => rfl
  | v :: rest => by
    rw [toJsonItems, Json.readableItems, readable_toJson v, readableItems_toJsonItems rest]
    rfl

theorem readableMembers_toJsonFields : ∀ fields, Json.readableMembers (toJsonFields fields) = true
  | [] => rfl
  | (_, v) :: rest => by
    rw [toJsonFields, Json.readableMembers, readable_toJson v, readableMembers_toJsonFields rest]
    rfl

end

end TradingRules.Value
