import TradingRules.Builtin.Library
import TradingRules.Proofs.Dict
import TradingRules.Proofs.Double.Integers
import TradingRules.Proofs.Eval.Runs

/-!
# Distinct elements

Dropping repeated elements goes by keys of scalars, the plain definition by loose equality (`firsts`). Two
scalars have one key exactly if one repeats the other (`key_eq_iff`), which differs from loose equality for
an integer beside a float that it is only rounded to and for a NaN beside itself (`Value.Parted`);
`distinct_plain_iff` says for which lists that makes a difference.
-/

namespace TradingRules

open Double (ofInt64 Representable)

namespace Builtin.Collection

variable {x y : Double} {v w : Value} {j k : ScalarKey}

def floatKey (x : Double) : ScalarKey := if x.IsInteger then .int x.toInt64 else .float x.bits

theorem scalarKey?_float (x : Double) : scalarKey? (.float x) = some (floatKey x) := by
  simp only [scalarKey?, Bool.and_eq_true, floatKey]
  by_cases h : x.IsInteger
  · rw [if_pos h, if_pos ⟨Double.fractional_of_beq_ofInt64 h, h⟩]
  · rw [if_neg h, if_neg fun hboth => h hboth.2]

theorem floatKey_cases (x : Double) :
    floatKey x = .int x.toInt64 ∧ x.IsInteger ∨ floatKey x = .float x.bits ∧ ¬x.IsInteger := by
  unfold floatKey
  split
  · exact .inl ⟨rfl, ‹_›⟩
  · exact .inr ⟨rfl, ‹_›⟩

/-- An integer and a float have one key if the float is what the integer is rounded to and reads back as. -/
theorem floatKey_eq_int_iff (a : Int64) (x : Double) :
    floatKey x = .int a ↔ (ofInt64 a == x) = true ∧ (ofInt64 a).toInt64 = a := by
  constructor
  · intro h
    rcases floatKey_cases x with ⟨hkey, hinteger⟩ | ⟨hkey, -⟩
    · obtain rfl := ScalarKey.int.inj (hkey.symm.trans h)
      exact ⟨hinteger, Double.toInt64_congr hinteger⟩
    · cases hkey.symm.trans h
  · rintro ⟨heq, hback⟩
    have hwhole : x.toInt64 = a := (Double.toInt64_congr heq).symm.trans hback
    have hinteger : x.IsInteger := by rwa [Double.IsInteger, hwhole]
    rw [floatKey, if_pos hinteger, hwhole]

theorem floatKey_eq_iff (x y : Double) : floatKey x = floatKey y ↔ (x == y) = true ∨ x.bits = y.bits := by
  constructor
  · intro h
    rcases floatKey_cases y with ⟨hkey, hinteger⟩ | ⟨hkey, -⟩
    · have hx := ((floatKey_eq_int_iff _ x).mp (h.trans hkey)).1
      exact .inl (Double.beq_trans (Double.beq_symm hx) hinteger)
    · rcases floatKey_cases x with ⟨hxkey, -⟩ | ⟨hxkey, -⟩
      · cases hxkey.symm.trans (h.trans hkey)
      · exact .inr (ScalarKey.float.inj (hxkey.symm.trans (h.trans hkey)))
  · rintro (heq | hbits)
    · rcases Double.eq_or_zeros_of_beq heq with rfl | ⟨hx, hy⟩
      · rfl
      · rw [floatKey, floatKey, if_pos (Double.isInteger_of_zero hx), if_pos (Double.isInteger_of_zero hy),
          Double.toInt64_of_zero hx, Double.toInt64_of_zero hy]
    · exact congrArg floatKey (congrArg Double.mk hbits)

end Builtin.Collection

-- ---------------------------------------------------------------------------
-- What counts as a repetition
-- ---------------------------------------------------------------------------

namespace Value

/-- Loose equality, except that an integer and a float that it is rounded to are one only if the float
reads back as the integer, and that a NaN repeats one with the same bits. -/
def repeats : Value → Value → Bool
  | .int a, .float x => ofInt64 a == x && (ofInt64 a).toInt64 == a
  | .float x, .int a => ofInt64 a == x && (ofInt64 a).toInt64 == a
  | .float x, .float y => x == y || x.bits == y.bits
  | v, w => v.looseEq w

/-- Two values that are equal and do not repeat each other, or the other way round. -/
inductive Parted : Value → Value → Prop where
  | rounded {a : Int64} {x : Double} (heq : (ofInt64 a == x) = true) (hheld : ¬Representable a.toInt)
    (hmax : a ≠ .maxValue) : Parted (.int a) (.float x)
  | roundedRight {a : Int64} {x : Double} (heq : (ofInt64 a == x) = true) (hheld : ¬Representable a.toInt)
    (hmax : a ≠ .maxValue) : Parted (.float x) (.int a)
  | nan {x : Double} (hx : x.isNaN = true) : Parted (.float x) (.float x)

theorem repeats_eq_of_not_parted {v w : Value} (h : ¬v.Parted w) : v.repeats w = v.looseEq w := by
  have hback {a : Int64} (hheld : ¬(¬Representable a.toInt ∧ a ≠ .maxValue)) : (ofInt64 a).toInt64 = a := by
    rw [Double.toInt64_ofInt64_eq_iff]
    tauto
  cases v with
  | int a =>
    cases w with
    | float x =>
      rw [repeats, looseEq]
      cases heq : ofInt64 a == x with
      | false => rfl
      | true =>
        rw [Bool.true_and, beq_iff_eq]
        exact hback fun hrounded => h (.rounded heq hrounded.1 hrounded.2)
    | _ => rfl
  | float x =>
    cases w with
    | int a =>
      rw [repeats, looseEq]
      cases heq : ofInt64 a == x with
      | false => rfl
      | true =>
        rw [Bool.true_and, beq_iff_eq]
        exact hback fun hrounded => h (.roundedRight heq hrounded.1 hrounded.2)
    | float y =>
      rw [repeats, looseEq, Bool.or_eq_left_iff_imp, beq_iff_eq]
      intro hbits
      obtain rfl : x = y := congrArg Double.mk hbits
      rw [Double.beq_self_iff, ← Bool.not_eq_true]
      exact fun hnan => h (.nan hnan)
    | _ => rfl
  | _ => rfl

theorem Parted.repeats_ne {v w : Value} (h : v.Parted w) : v.repeats w ≠ v.looseEq w := by
  have hback {a : Int64} (hheld : ¬Representable a.toInt) (hmax : a ≠ .maxValue) :
      ((ofInt64 a).toInt64 == a) = false := by
    rw [beq_eq_false_iff_ne, ne_eq, Double.toInt64_ofInt64_eq_iff]
    tauto
  cases h with
  | rounded heq hheld hmax => simp [repeats, looseEq, heq, hback hheld hmax]
  | roundedRight heq hheld hmax => simp [repeats, looseEq, heq, hback hheld hmax]
  | @nan x hx =>
    have hself : (x == x) = false := by
      rw [← Bool.not_eq_true, Double.beq_self_iff, hx]
      nofun
    simp [repeats, looseEq, hself]

end Value

namespace Builtin.Collection

variable {v w : Value} {j k : ScalarKey}

theorem floatKey_ne {k : ScalarKey} (hint : ∀ i, k ≠ .int i) (hfloat : ∀ bits, k ≠ .float bits)
    (x : Double) : floatKey x ≠ k := by
  rintro rfl
  rcases floatKey_cases x with ⟨hkey, -⟩ | ⟨hkey, -⟩
  · exact hint _ hkey
  · exact hfloat _ hkey

/-- Keys of scalars tell which repeat each other. -/
theorem key_eq_iff (hv : scalarKey? v = some j) (hw : scalarKey? w = some k) :
    j = k ↔ v.repeats w = true := by
  have hfloat {x : Double} {key : ScalarKey} (h : scalarKey? (.float x) = some key) : floatKey x = key :=
    Option.some.inj ((scalarKey?_float x).symm.trans h)
  cases v with
  | list items => cases hv
  | map fields => cases hv
  | float x =>
    obtain rfl := hfloat hv
    cases w with
    | list items => cases hw
    | map fields => cases hw
    | float y =>
      obtain rfl := hfloat hw
      simp [floatKey_eq_iff, Value.repeats]
    | int a =>
      cases hw
      simp [floatKey_eq_int_iff, Value.repeats]
    | _ =>
      cases hw
      exact iff_of_false (floatKey_ne (by simp) (by simp) x) nofun
  | int a =>
    cases hv
    cases w with
    | list items => cases hw
    | map fields => cases hw
    | float x =>
      obtain rfl := hfloat hw
      rw [eq_comm, floatKey_eq_int_iff]
      simp [Value.repeats]
    | _ =>
      cases hw
      simp [Value.repeats, Value.looseEq]
  | _ =>
    cases hv
    cases w with
    | list items => cases hw
    | map fields => cases hw
    | float x =>
      obtain rfl := hfloat hw
      exact iff_of_false (floatKey_ne (by simp) (by simp) x).symm nofun
    | _ =>
      cases hw
      simp [Value.repeats, Value.looseEq]

theorem repeats_of_no_key (hv : scalarKey? v = none) (w : Value) : v.repeats w = v.looseEq w := by
  cases v with
  | float x => cases (scalarKey?_float x).symm.trans hv
  | list items => cases w <;> rfl
  | map fields => cases w <;> rfl
  | _ => cases hv

theorem not_repeats_of_key (hv : scalarKey? v = some j) (hw : scalarKey? w = none) :
    v.repeats w = false ∧ w.repeats v = false := by
  cases w with
  | float x => cases (scalarKey?_float x).symm.trans hw
  | list items => cases v <;> first | exact ⟨rfl, rfl⟩ | cases hv
  | map fields => cases v <;> first | exact ⟨rfl, rfl⟩ | cases hv
  | _ => cases hw

-- ---------------------------------------------------------------------------
-- The first of each kind
-- ---------------------------------------------------------------------------

/-- The values that are not the same as any kept before them, in order; `kept` are those to begin with. -/
def firsts (same : Value → Value → Bool) (kept : List Value) : List Value → List Value
  | [] => []
  | v :: rest =>
    if kept.any (same · v) then firsts same kept rest else v :: firsts same (kept ++ [v]) rest

/-- The keys and composites that are remembered are those of the values kept. -/
structure Remembers (seen : List ScalarKey) (composites kept : List Value) : Prop where
  seen_iff : ∀ key, key ∈ seen ↔ ∃ w ∈ kept, scalarKey? w = some key
  composites_iff : ∀ w, w ∈ composites ↔ w ∈ kept ∧ scalarKey? w = none

variable {seen : List ScalarKey} {composites kept : List Value}

theorem Remembers.any_of_key (h : Remembers seen composites kept) (hv : scalarKey? v = some k) :
    kept.any (·.repeats v) = decide (k ∈ seen) := by
  rw [Bool.eq_iff_iff, List.any_eq_true, decide_eq_true_iff, h.seen_iff]
  constructor
  · rintro ⟨w, hw, hrepeats⟩
    cases hkey : scalarKey? w with
    | none => cases hrepeats.symm.trans (not_repeats_of_key hv hkey).2
    | some key => exact ⟨w, hw, hkey.trans (congrArg some ((key_eq_iff hkey hv).mpr hrepeats))⟩
  · rintro ⟨w, hw, hkey⟩
    exact ⟨w, hw, (key_eq_iff hkey hv).mp rfl⟩

theorem Remembers.any_of_no_key (h : Remembers seen composites kept) (hv : scalarKey? v = none) :
    kept.any (·.repeats v) = composites.any (·.looseEq v) := by
  rw [Bool.eq_iff_iff, List.any_eq_true, List.any_eq_true]
  constructor
  · rintro ⟨w, hw, hrepeats⟩
    cases hkey : scalarKey? w with
    | none => exact ⟨w, (h.composites_iff w).mpr ⟨hw, hkey⟩, repeats_of_no_key hkey v ▸ hrepeats⟩
    | some key => cases hrepeats.symm.trans (not_repeats_of_key hkey hv).1
  · rintro ⟨w, hw, heq⟩
    obtain ⟨hmem, hkey⟩ := (h.composites_iff w).mp hw
    exact ⟨w, hmem, (repeats_of_no_key hkey v).trans heq⟩

theorem Remembers.keep_key (h : Remembers seen composites kept) (hv : scalarKey? v = some k) :
    Remembers (k :: seen) composites (kept ++ [v]) where
  seen_iff key := by
    simp only [List.mem_cons, h.seen_iff, List.mem_append, List.not_mem_nil, or_false, or_and_right,
      exists_or, exists_eq_left, hv, Option.some.injEq]
    exact or_comm.trans (or_congr_right eq_comm)
  composites_iff w := by
    rw [h.composites_iff, List.mem_append, List.mem_singleton]
    constructor
    · exact fun hw => ⟨.inl hw.1, hw.2⟩
    · rintro ⟨hw | rfl, hkey⟩
      · exact ⟨hw, hkey⟩
      · cases hv.symm.trans hkey

theorem Remembers.keep_composite (h : Remembers seen composites kept) (hv : scalarKey? v = none) :
    Remembers seen (v :: composites) (kept ++ [v]) where
  seen_iff key := by
    simp only [h.seen_iff, List.mem_append, List.mem_cons, List.not_mem_nil, or_false, or_and_right,
      exists_or, exists_eq_left, hv, reduceCtorEq]
  composites_iff w := by
    rw [List.mem_cons, h.composites_iff, List.mem_append, List.mem_singleton]
    constructor
    · rintro (rfl | hw)
      · exact ⟨.inr rfl, hv⟩
      · exact ⟨.inl hw.1, hw.2⟩
    · rintro ⟨hw | rfl, hkey⟩
      · exact .inr ⟨hw, hkey⟩
      · exact .inl rfl

theorem distinctCore_eq (values : List Value) : ∀ {seen composites kept},
    Remembers seen composites kept → distinctCore seen composites values = firsts Value.repeats kept values := by
  induction values with
  | nil => exact fun _ => rfl
  | cons v rest ih =>
    intro seen composites kept h
    rw [distinctCore, firsts]
    cases hv : scalarKey? v with
    | some key =>
      simp only [h.any_of_key hv, decide_eq_true_eq]
      rw [ih h, ih (h.keep_key hv)]
    | none =>
      simp only [h.any_of_no_key hv]
      rw [ih h, ih (h.keep_composite hv)]

/-- Keys find the values that repeat no kept one. -/
theorem distinct_eq_firsts (values : List Value) : distinct values = firsts Value.repeats [] values :=
  distinctCore_eq values ⟨by simp, by simp⟩

-- ---------------------------------------------------------------------------
-- Two notions of sameness
-- ---------------------------------------------------------------------------

section
variable {same other : Value → Value → Bool} {rest values : List Value}

theorem firsts_of_any (h : kept.any (same · v) = true) : firsts same kept (v :: rest) = firsts same kept rest :=
  if_pos h

theorem firsts_of_not_any (h : kept.any (same · v) = false) :
    firsts same kept (v :: rest) = v :: firsts same (kept ++ [v]) rest :=
  if_neg (by simp [h])

theorem mem_of_mem_firsts (h : w ∈ firsts same kept values) : w ∈ values := by
  induction values generalizing kept with
  | nil => cases h
  | cons v rest ih =>
    cases hany : kept.any (same · v) with
    | true => exact List.mem_cons_of_mem v (ih (firsts_of_any hany ▸ h))
    | false =>
      rw [firsts_of_not_any hany] at h
      rcases List.mem_cons.mp h with rfl | hrest
      · exact List.mem_cons_self
      · exact List.mem_cons_of_mem v (ih hrest)

theorem not_any_of_mem_firsts (h : w ∈ firsts same kept values) : kept.any (same · w) = false := by
  induction values generalizing kept with
  | nil => cases h
  | cons v rest ih =>
    cases hany : kept.any (same · v) with
    | true => exact ih (firsts_of_any hany ▸ h)
    | false =>
      rw [firsts_of_not_any hany] at h
      rcases List.mem_cons.mp h with rfl | hrest
      · exact hany
      · have hkept := ih hrest
        rw [List.any_append, Bool.or_eq_false_iff] at hkept
        exact hkept.1

theorem forall_split_cons_iff {P : List Value → Value → Prop} :
    (∀ before w after, v :: rest = before ++ w :: after → P before w) ↔
      P [] v ∧ ∀ before w after, rest = before ++ w :: after → P (v :: before) w := by
  constructor
  · exact fun h => ⟨h [] v rest rfl, fun before w after heq => h (v :: before) w after (congrArg (v :: ·) heq)⟩
  · rintro ⟨hhead, htail⟩ before w after heq
    cases before with
    | nil =>
      obtain ⟨rfl, rfl⟩ := List.cons.inj heq
      exact hhead
    | cons first before =>
      obtain ⟨rfl, rfl⟩ := List.cons.inj heq
      exact htail before w after rfl

/-- Two notions of sameness keep the same values exactly if at each value they agree on whether one of those
kept before is the same. -/
theorem firsts_eq_firsts_iff : firsts same kept values = firsts other kept values ↔
    ∀ before v after, values = before ++ v :: after →
      (kept ++ firsts other kept before).any (same · v) = (kept ++ firsts other kept before).any (other · v) := by
  induction values generalizing kept with
  | nil => simp [firsts]
  | cons v rest ih =>
    rw [forall_split_cons_iff, firsts, List.append_nil]
    cases hother : kept.any (other · v) with
    | true =>
      cases hsame : kept.any (same · v) with
      | true =>
        rw [firsts_of_any hsame, firsts_of_any hother, ih]
        simp [firsts_of_any hother]
      | false =>
        refine iff_of_false (fun heq => ?_) (by simp)
        rw [firsts_of_any hother, firsts_of_not_any hsame] at heq
        have hmem := not_any_of_mem_firsts (heq ▸ List.mem_cons_self)
        cases hother.symm.trans hmem
    | false =>
      cases hsame : kept.any (same · v) with
      | true =>
        refine iff_of_false (fun heq => ?_) (by simp)
        rw [firsts_of_any hsame, firsts_of_not_any hother] at heq
        have hmem := not_any_of_mem_firsts (heq ▸ List.mem_cons_self)
        cases hsame.symm.trans hmem
      | false =>
        rw [firsts_of_not_any hsame, firsts_of_not_any hother, List.cons.injEq, ih]
        simp [firsts_of_not_any hother]

end

section
variable {σ : Type} [RegimeHost σ] (context : Context) {values : List Value}

theorem call_distinct (values : List Value) :
    (Registry.builtins.call context "distinct" [.list values] : Run σ Value) =
      pure (.list (distinct values)) := by
  rw [Registry.call, Registry.builtins, Dict.find?_ofList]
  rfl

theorem firsts_repeats_of_not_parted (h : values.Pairwise fun w v => ¬w.Parted v) :
    firsts Value.repeats [] values = firsts Value.looseEq [] values := by
  rw [firsts_eq_firsts_iff]
  rintro before v after rfl
  have hbefore (w : Value) (hw : w ∈ firsts Value.looseEq [] before) : w.repeats v = w.looseEq v :=
    Value.repeats_eq_of_not_parted <|
      (List.pairwise_append.mp h).2.2 w (mem_of_mem_firsts hw) v List.mem_cons_self
  rw [List.nil_append, Bool.eq_iff_iff, List.any_eq_true, List.any_eq_true]
  exact exists_congr fun w => and_congr_right fun hw => by rw [hbefore w hw]

/-- The distinct elements are those that repeat no element kept before. Keys tell scalars apart as loose
equality does but for parted ones; and the distinct elements are those of the plain definition exactly if
at each element some kept one is equal where some kept one is repeated, so if no two are parted. -/
theorem distinct_plain_iff (values : List Value) :
    let call : Run σ Value := Registry.builtins.call context "distinct" [.list values]
    call = pure (.list (firsts Value.repeats [] values)) ∧
      (∀ v w j k, scalarKey? v = some j → scalarKey? w = some k →
        (decide (j = k) = v.looseEq w ↔ ¬v.Parted w)) ∧
      (call = pure (.list (firsts Value.looseEq [] values)) ↔
        ∀ before v after, values = before ++ v :: after →
          (firsts Value.looseEq [] before).any (·.repeats v) =
            (firsts Value.looseEq [] before).any (·.looseEq v)) ∧
      (values.Pairwise (fun w v => ¬w.Parted v) → call = pure (.list (firsts Value.looseEq [] values))) := by
  intro call
  have hcall : call = pure (.list (firsts Value.repeats [] values)) := by
    rw [← distinct_eq_firsts]
    exact call_distinct context values
  refine ⟨hcall, fun v w j k hv hw => ?_, ?_, fun h => ?_⟩
  · have hkey : decide (j = k) = v.repeats w := by
      rw [Bool.eq_iff_iff, decide_eq_true_iff]
      exact key_eq_iff hv hw
    rw [hkey]
    exact ⟨fun heq hparted => hparted.repeats_ne heq, Value.repeats_eq_of_not_parted⟩
  · rw [hcall, Run.pure_inj, Value.list.injEq, firsts_eq_firsts_iff]
    rfl
  · rw [hcall, firsts_repeats_of_not_parted h]

/-- The double 1 repeats the integer 1, also inside lists. -/
theorem distinct_plain_iff_one :
    let one : Double := ⟨0x3FF0000000000000⟩
    let values : List Value :=
      [.int 1, .float one, .str "1", .list [.int 1], .float .notANumber, .list [.float one]]
    scalarKey? (.int 1) = some (.int 1) ∧ scalarKey? (.float one) = some (.int 1) ∧
      ¬(Value.int 1).Parted (.float one) ∧ values.Pairwise (fun w v => ¬w.Parted v) ∧
      (Registry.builtins.call ⟨[], ⟨1700000000, 0⟩⟩ "distinct" [.list values] : Run FixedHost Value) =
        pure (.list [.int 1, .str "1", .list [.int 1], .float .notANumber]) := by
  intro one values
  have hint : scalarKey? (.int 1) = some (.int 1) := rfl
  have hfloat : scalarKey? (.float one) = some (.int 1) := by decide
  have hsame : values.Pairwise fun w v => w.repeats v = w.looseEq v := by decide
  have hparted : values.Pairwise fun w v => ¬w.Parted v :=
    hsame.imp fun heq hparted => hparted.repeats_ne heq
  have hone : (ofInt64 1 == one) = true := by decide
  have hnan : (ofInt64 1 == Double.notANumber) = false := by decide
  have hfirsts : firsts Value.looseEq [] values = [.int 1, .str "1", .list [.int 1], .float .notANumber] := by
    simp [values, firsts, Value.looseEq, Value.looseEqItems, hone, hnan]
  obtain ⟨-, hkeys, -, hplain⟩ := distinct_plain_iff (σ := FixedHost) ⟨[], ⟨1700000000, 0⟩⟩ values
  exact ⟨hint, hfloat, (hkeys _ _ _ _ hint hfloat).mp (by decide), hparted, hfirsts ▸ hplain hparted⟩

/-- A float is kept beside an equal integer that it does not read back as, and the second of two NaNs is
dropped. -/
theorem distinct_of_parted :
    let call (values : List Value) : Run FixedHost Value :=
      Registry.builtins.call ⟨[], ⟨1700000000, 0⟩⟩ "distinct" [.list values]
    let rounded : List Value := [.int 9007199254740993, .float ⟨0x4340000000000000⟩]
    let nans : List Value := [.float .notANumber, .float .notANumber]
    call rounded = pure (.list rounded) ∧ firsts Value.looseEq [] rounded = [.int 9007199254740993] ∧
      call nans = pure (.list [.float .notANumber]) ∧ firsts Value.looseEq [] nans = nans := by
  intro call rounded nans
  exact ⟨call_distinct _ rounded, rfl, call_distinct _ nans, rfl⟩

end

end Builtin.Collection

end TradingRules
