import TradingRules.Proofs.Project.Coherence
import TradingRules.Proofs.Project.RoundTrip

/-!
# What was read can be written and read again

The floats of a value that was read from a text are finite, its maps are in name order, and its own text
is not nested deeper (`storable_ofJson`, `depth_toJson_ofJson`). So a project that was read can be read
back from its text (`readable_ofText`).
-/

namespace TradingRules

open Decimal (twoTo)

theorem Decimal.isFinite_toDouble {n : Nat} (negative : Bool) (h : n ≤ 2 ^ 64) :
    (toDouble negative n 0).isFinite = true := by
  unfold toDouble
  dsimp only
  split
  · cases negative <;> decide
  · rename_i hdigits
    have hlog : n.log2 < 65 := (Nat.log2_lt (by omega)).mpr (by omega)
    rw [if_neg (by omega), if_pos le_rfl]
    have hone : n * tenTo (0 : Int).toNat = n := by simp [tenTo]
    rw [hone]
    exact Double.isFinite_nearest negative h

namespace Value

variable {j : Json}

theorem allFiniteFields_iff {fields : List (String × Value)} :
    AllFiniteFields fields ↔ ∀ v ∈ fields.map Prod.snd, AllFinite v := by
  induction fields with
  | nil => simp [AllFiniteFields]
  | cons first rest ih => simp [AllFiniteFields, ih]

theorem allFinite_ofJsonInt {i : Int} (h : (Json.int i).InRange) : AllFinite (ofJsonInt i) := by
  obtain ⟨hlow, hhigh⟩ := h
  have hpowers : twoTo 63 = 2 ^ 63 ∧ twoTo 64 = 2 ^ 64 := ⟨rfl, rfl⟩
  unfold ofJsonInt
  split
  · trivial
  · exact Decimal.isFinite_toDouble _ (by omega)

mutual

theorem allFinite_ofJson : ∀ j : Json, j.InRange → AllFinite (ofJson j)
  | .null, _ | .unreadable, _ | .bool _, _ | .str _, _ => trivial
  | .int _, h => allFinite_ofJsonInt h
  | .float _, h => h
  | .arr items, h => allFiniteItems_ofJsonItems items h
  | .obj members, h => by
    have hread := allFiniteFields_iff.mp (allFiniteFields_ofJsonMembers members h)
    exact allFiniteFields_iff.mpr fun v hv => hread v (Dict.mem_values_ofList hv)

theorem allFiniteItems_ofJsonItems : ∀ items, Json.InRangeItems items →
    AllFiniteItems (ofJsonItems items)
  | [], _ => trivial
  | j :: rest, h => ⟨allFinite_ofJson j h.1, allFiniteItems_ofJsonItems rest h.2⟩

theorem allFiniteFields_ofJsonMembers : ∀ members, Json.InRangeMembers members →
    AllFiniteFields (ofJsonMembers members)
  | [], _ => trivial
  | (_, j) :: rest, h => ⟨allFinite_ofJson j h.1, allFiniteFields_ofJsonMembers rest h.2⟩

end

theorem storable_ofJson (h : j.InRange) : Storable (ofJson j) :=
  storable_of_finite _ (allFinite_ofJson j h) (inNameOrder_ofJson j)

theorem depthMembers_toJsonFields_le {fields : List (String × Value)} {n : Nat}
    (h : ∀ v ∈ fields.map Prod.snd, v.toJson.depth ≤ n) : Json.depthMembers (toJsonFields fields) ≤ n := by
  induction fields with
  | nil => exact Nat.zero_le n
  | cons first rest ih =>
    obtain ⟨hfirst, hrest⟩ := List.forall_mem_cons.mp h
    exact max_le hfirst (ih hrest)

mutual

/-- The text of a value that was read is not nested deeper than what was read. -/
theorem depth_toJson_ofJson : ∀ j : Json, (ofJson j).toJson.depth ≤ j.depth
  | .null | .unreadable | .bool _ | .str _ => Nat.le_refl 0
  | .float x => by
    rw [ofJson, toJson]
    split <;> exact Nat.le_refl 0
  | .int i => by
    rw [ofJson, ofJsonInt]
    split
    · exact Nat.le_refl 0
    · rw [toJson]
      split <;> exact Nat.le_refl 0
  | .arr items => Nat.succ_le_succ (depthItems_toJsonItems_ofJsonItems items)
  | .obj members => by
    have hread := depth_of_mem_ofJsonMembers members
    exact Nat.succ_le_succ
      (depthMembers_toJsonFields_le fun v hv => hread v (Dict.mem_values_ofList hv))

theorem depthItems_toJsonItems_ofJsonItems : ∀ items : List Json,
    Json.depthItems (toJsonItems (ofJsonItems items)) ≤ Json.depthItems items
  | [] => Nat.le_refl 0
  | j :: rest => max_le_max (depth_toJson_ofJson j) (depthItems_toJsonItems_ofJsonItems rest)

theorem depth_of_mem_ofJsonMembers : ∀ members : List (String × Json),
    ∀ v ∈ (ofJsonMembers members).map Prod.snd, v.toJson.depth ≤ Json.depthMembers members
  | [] => nofun
  | (_, j) :: rest => by
    refine List.forall_mem_cons.mpr ⟨?_, fun v hv => ?_⟩
    · exact (depth_toJson_ofJson j).trans (le_max_left _ _)
    · exact (depth_of_mem_ofJsonMembers rest v hv).trans (le_max_right _ _)

end

end Value

namespace Project

variable {p q : Project} {v : ProjectVariable} {name : String} {value : Value}

def Keepable (v : Value) : Prop := v.Storable ∧ Shallow v

theorem keepable_widened (i : Int64) : Keepable (.float (.ofInt64 i)) := by
  have hfinite := Double.isFinite_ofInt64 i
  refine ⟨hfinite, ?_⟩
  rw [Shallow, Value.toJson, if_pos hfinite]
  exact (by decide : 0 + 3 ≤ Json.maxDepth)

theorem readable_iff : p.Readable ↔ p.Sound ∧ p.AllValues Keepable :=
  ⟨fun h => ⟨h.sound, fun v hv => ⟨h.storable v hv, h.shallow v hv⟩⟩,
    fun h => ⟨h.1, fun v hv => (h.2 v hv).1, fun v hv => (h.2 v hv).2⟩⟩

/-- A project that was read can be read back from its text. -/
theorem readable_ofText {text : String} (h : ofText text = .ok p) : p.Readable := by
  refine readable_iff.mpr ⟨.ofText h, forall_values_of_document keepable_widened ?_ h⟩
  intro version name definitions hdocument d hd
  obtain ⟨j, _, _, k, htext, hall, hone, hpart, hk⟩ := value_of_document? hdocument d hd
  obtain ⟨hdepth, hvalue⟩ := value?_eq_some hk
  have hrange : k.InRange := (((Json.inRange_ofText? htext).part hall).part hone).part hpart
  have hwritten := Value.depth_toJson_ofJson k
  rw [hvalue]
  exact ⟨Value.storable_ofJson hrange, by rw [Shallow]; omega⟩

theorem readable_empty (name : String) : (empty name).Readable :=
  readable_iff.mpr ⟨Reached.sound ⟨_, [], .inl ⟨name, rfl⟩, rfl⟩, nofun⟩

theorem Readable.add (h : p.Readable) (hadd : p.add v = (.ok (), q)) (hv : Keepable v.value) : q.Readable :=
  readable_iff.mpr ⟨h.sound.add hadd, (readable_iff.mp h).2.add keepable_widened hadd hv⟩

theorem Readable.update (h : p.Readable) (hupdate : p.update name value = (.ok (), q))
    (hvalue : Keepable value) : q.Readable :=
  readable_iff.mpr ⟨h.sound.update hupdate, (readable_iff.mp h).2.update keepable_widened hupdate hvalue⟩

theorem Readable.remove (h : p.Readable) (hremove : p.remove name = (.ok v, q)) : q.Readable :=
  readable_iff.mpr ⟨h.sound.remove hremove, (readable_iff.mp h).2.remove hremove⟩

end Project

end TradingRules
