import TradingRules.Proofs.Double.Canonical
import TradingRules.Proofs.Expr.Acceptance
import TradingRules.Proofs.Expr.Printed

/-!
# Trees read back from their text

The text of a compiled tree compiles to an equal tree exactly if the tree is `legible` and the brackets
of its text are not nested too deeply (`compile_text_iff`). What is not legible is a prefix operator or a
sign under a postfix step, where no brackets are written, a character without an escape of the language,
a float without a point in its text, and a method call of `has`.
-/

namespace TradingRules

open Grammar

namespace Expr

/-- Whether the text begins with a prefix operator or a sign that is not in brackets. -/
def isPrefixed : Expr → Bool
  | .unary _ _ => true
  | .literal (.int i) => decide (i.toInt < 0)
  | .literal (.float x) => Decimal.isSigned x
  | _ => false

mutual

/-- Whether the text of a tree spells the tree. -/
@[simp] def legible : Expr → Bool
  | .literal (.str s) => s.toList.all Token.readsBack
  | .literal (.float x) => decide ('.' ∈ (Decimal.text x).toList)
  | .literal _ | .ident _ => true
  | .member target _ => !target.isPrefixed && legible target
  | .index target key => !target.isPrefixed && legible target && legible key
  | .call name args => name != "has" && legibleAll args
  | .unary _ operand => legible operand
  | .binary _ left right => legible left && legible right
  | .ternary condition yes no => legible condition && legible yes && legible no
  | .list items => legibleAll items
  | .comprehension _ range _ body => !range.isPrefixed && legible range && legible body
  | .has target => legible target

@[simp] def legibleAll : List Expr → Bool
  | [] => true
  | e :: rest => legible e && legibleAll rest

end

theorem legibleAll_eq_true {es : List Expr} : legibleAll es = true ↔ ∀ e ∈ es, e.legible = true := by
  induction es with
  | nil => simp
  | cons e es ih => simp [ih]

-- ---------------------------------------------------------------------------
-- Prefixes
-- ---------------------------------------------------------------------------

section
variable {e : Expr} {step : Written → Written}

theorem isUnary_writtenLiteral (v : Value) : (writtenLiteral v).isUnary = (literal v).isPrefixed := by
  cases v with
  | int i =>
    rw [writtenLiteral, isPrefixed]
    cases decide (i.toInt < 0) <;> rfl
  | float x =>
    rw [writtenLiteral, isPrefixed]
    cases Decimal.isSigned x with
    | true => rfl
    | false =>
      rw [writtenNumeral]
      split
      · rfl
      · split <;> rfl
  | _ => rfl

theorem isUnary_of_isPrefixed (h : e.isPrefixed = true) : e.written.isUnary = true := by
  cases e with
  | literal v => rw [written, isUnary_writtenLiteral, h]
  | unary op operand => rfl
  | _ => cases h

theorem isUnary_written_of_legible : ∀ {e : Expr}, e.legible = true → e.written.isUnary = e.isPrefixed
  | .literal v, _ => by rw [written, isUnary_writtenLiteral]
  | .member target field, h => by
    simp only [legible, Bool.and_eq_true, Bool.not_eq_true'] at h
    rw [written, Written.followedBy_of_not_isUnary ((isUnary_written_of_legible h.2).trans h.1)]
    rfl
  | .index target key, h => by
    simp only [legible, Bool.and_eq_true, Bool.not_eq_true'] at h
    rw [written, Written.followedBy_of_not_isUnary ((isUnary_written_of_legible h.1.2).trans h.1.1)]
    rfl
  | .comprehension kind range var body, h => by
    simp only [legible, Bool.and_eq_true, Bool.not_eq_true'] at h
    rw [written, Written.followedBy_of_not_isUnary ((isUnary_written_of_legible h.1.2).trans h.1.1)]
    rfl
  | .ident _, _ | .call _ _, _ | .unary _ _, _ | .binary _ _ _, _ | .ternary _ _ _, _ | .list _, _
  | .has _, _ => rfl

theorem followedBy_of_legible (h : e.legible = true) (hbare : e.isPrefixed = false) :
    e.written.followedBy step = step e.written :=
  Written.followedBy_of_not_isUnary ((isUnary_written_of_legible h).trans hbare)

end

-- ---------------------------------------------------------------------------
-- Literals
-- ---------------------------------------------------------------------------

section
variable {i : Int64} {x : Double} {s : String} {e : Expr}

theorem negated_of_not_isNumber (h : e.isNumber = false) : negated e = .unary .negate e := by
  unfold negated
  split <;> first | rfl | cases h

theorem tree?_signed {negative : Bool} {w : Written} {v : Value} (h : w.tree? = some (.literal v)) :
    (Written.signed negative w).tree? = some (if negative then negated (.literal v) else .literal v) := by
  cases negative with
  | false => exact h
  | true =>
    rw [Written.signed, if_pos rfl, Written.tree?, h]
    rfl

theorem tree?_digits {n : Nat} (h : n < Decimal.twoTo 63) :
    (Written.literal .int (toString n)).tree? = some (.literal (.int (Int64.ofInt n))) := by
  rw [Written.tree?, Written.literalValue?, Decimal.readInt64?_toString h]
  rfl

theorem tree?_int (h : i ≠ Int64.minValue) : (writtenLiteral (.int i)).tree? = some (.literal (.int i)) := by
  have hpower : Decimal.twoTo 63 = 2 ^ 63 := rfl
  have hlow := Int64.le_toInt i
  have hhigh := Int64.toInt_lt i
  have hmin : i.toInt ≠ -2 ^ 63 := fun hmin => h (Int64.toInt_inj.mp hmin)
  have hdigits : i.toInt.natAbs < Decimal.twoTo 63 := by omega
  rw [writtenLiteral, tree?_signed (tree?_digits hdigits)]
  rcases Int.lt_or_le i.toInt 0 with hneg | hnonneg
  · have hvalue : Int64.ofInt i.toInt.natAbs = -i := by
      rw [Int.ofNat_natAbs_of_nonpos hneg.le, Int64.ofInt_neg, Int64.ofInt_toInt]
    have hvalueMin : -i ≠ Int64.minValue := by
      intro heq
      apply h
      rw [← Int64.neg_neg (a := i), heq]
      rfl
    simp only [hneg, decide_true, ↓reduceIte, hvalue, negated, hvalueMin, Int64.neg_neg]
  · have hvalue : Int64.ofInt i.toInt.natAbs = i := by
      rw [Int.natAbs_of_nonneg hnonneg, Int64.ofInt_toInt]
    simp only [Int.not_lt.mpr hnonneg, decide_false, Bool.false_eq_true, ↓reduceIte, hvalue]

theorem point_mem_text : '.' ∈ (Decimal.text x).toList ↔ '.' ∈ (Decimal.numeral x).toList := by
  rw [Decimal.text_eq]
  cases Decimal.isSigned x <;> simp

theorem magnitude?_of_point (h : '.' ∈ (Decimal.text x).toList) : ∃ m, x.magnitude? = some m := by
  refine Option.isSome_iff_exists.mp (Option.isSome_iff_ne_none.mpr fun hnone => ?_)
  rw [point_mem_text] at h
  simp only [Decimal.numeral, hnone] at h
  split at h <;> simp at h

theorem tree?_float (h : '.' ∈ (Decimal.text x).toList) :
    (writtenLiteral (.float x)).tree? = some (.literal (.float x)) := by
  obtain ⟨m, hm⟩ := magnitude?_of_point h
  have hpoint := point_mem_text.mp h
  have hnumeral : (writtenNumeral x).tree? = some (.literal (.float (.ofMagnitude false m))) := by
    rw [writtenNumeral, hm, if_neg (by simp), if_pos hpoint, Written.tree?, Written.literalValue?,
      Decimal.readDouble?_numeral hm hpoint]
    rfl
  have hback := Double.ofMagnitude_magnitude? hm
  rw [writtenLiteral, tree?_signed hnumeral, Decimal.isSigned_of_magnitude? hm]
  cases hnegative : x.isNegative with
  | false =>
    rw [hnegative] at hback
    simp only [Bool.false_eq_true, ↓reduceIte, hback]
  | true =>
    have hword : m.toWord < 2 ^ 63 := by
      rw [Double.toWord_of_magnitude? hm]
      exact Nat.mod_lt _ (by decide)
    rw [hnegative] at hback
    simp only [↓reduceIte, negated, Double.neg_ofMagnitude hword, hback]

theorem tree?_str (s : String) : (writtenLiteral (.str s)).tree? =
    some (.literal (.str (String.ofList (s.toList.flatMap Token.reread)))) := by
  rw [writtenLiteral, Written.tree?, Written.literalValue?]
  rfl

end

-- ---------------------------------------------------------------------------
-- Legible trees
-- ---------------------------------------------------------------------------

section
variable {e e' : Expr} {es es' : List Expr}

theorem trees?_writtenAll (h : ∀ e ∈ es, e.written.tree? = some e) : Written.trees? (writtenAll es) = some es := by
  induction es with
  | nil => rfl
  | cons e es ih =>
    rw [writtenAll, Written.trees?, h e List.mem_cons_self, ih fun a ha => h a (List.mem_cons_of_mem e ha)]
    rfl

theorem ofFunctionForm_call {name : String} {args : List Expr} (hname : name ≠ "has")
    (hform : ¬Comprehends name args) : ofFunctionForm name args = .ok (.call name args) := by
  unfold ofFunctionForm
  rw [if_neg hname]
  split
  · rename_i hkind
    exact absurd ⟨hkind⟩ hform
  · rfl

/-- The text of a legible tree spells the tree. -/
theorem tree?_written (h : Formed e) (hlegible : e.legible = true) : e.written.tree? = some e := by
  induction h with
  | null => rfl
  | @bool b => cases b <;> rfl
  | int hmin => rw [written, tree?_int hmin]
  | float =>
    rw [legible, decide_eq_true_eq] at hlegible
    rw [written, tree?_float hlegible]
  | str =>
    rw [legible, ← Token.flatMap_reread_eq_iff] at hlegible
    rw [written, tree?_str, hlegible, String.ofList_toList]
  | ident => rfl
  | member _ _ ih =>
    simp only [legible, Bool.and_eq_true, Bool.not_eq_true'] at hlegible
    obtain ⟨hbare, htarget⟩ := hlegible
    rw [written, followedBy_of_legible htarget hbare, Written.tree?, ih htarget]
    rfl
  | index _ _ ih ihkey =>
    simp only [legible, Bool.and_eq_true, Bool.not_eq_true'] at hlegible
    obtain ⟨⟨hbare, htarget⟩, hkey⟩ := hlegible
    rw [written, followedBy_of_legible htarget hbare, Written.tree?, ih htarget,
      ihkey hkey]
    rfl
  | call _ hform _ ih =>
    simp only [legible, Bool.and_eq_true, bne_iff_ne, legibleAll_eq_true] at hlegible
    obtain ⟨hname, hargs⟩ := hlegible
    rw [written, Written.tree?, trees?_writtenAll fun a ha => ih a ha (hargs a ha), Option.bind_some,
      ofFunctionForm_call hname hform]
    rfl
  | not _ ih =>
    rw [legible] at hlegible
    rw [written, Written.tree?, ih hlegible]
    rfl
  | @negate e _ hnumber ih =>
    rw [legible] at hlegible
    rw [written, Written.tree?, ih hlegible, Option.map_some, Written.ofUnary, negated_of_not_isNumber hnumber]
  | binary _ _ ihleft ihright =>
    simp only [legible, Bool.and_eq_true] at hlegible
    rw [written, Written.tree?, Written.tree?, ihleft hlegible.1, ihright hlegible.2]
    rfl
  | ternary _ _ _ ihc ihy ihn =>
    simp only [legible, Bool.and_eq_true] at hlegible
    rw [written, Written.tree?, Written.tree?, ihc hlegible.1.1, ihy hlegible.1.2, ihn hlegible.2]
    rfl
  | list _ ih =>
    rw [legible, legibleAll_eq_true] at hlegible
    rw [written, Written.tree?, trees?_writtenAll fun a ha => ih a ha (hlegible a ha)]
    rfl
  | @comprehension range var body kind _ _ _ ih ihbody =>
    simp only [legible, Bool.and_eq_true, Bool.not_eq_true'] at hlegible
    obtain ⟨⟨hbare, hrange⟩, hbody⟩ := hlegible
    rw [written, followedBy_of_legible hrange hbare, Written.tree?, ih hrange,
      Written.trees?, Written.trees?, Written.trees?, ihbody hbody]
    simp [Written.tree?, ofMethodForm, Comprehension.ofName?_name]
  | has _ hpath ih =>
    rw [legible] at hlegible
    rw [written, Written.tree?, Written.trees?, Written.trees?, ih hlegible]
    simp [ofFunctionForm, hpath, Except.toOption]

theorem sameAll_self (h : ∀ e ∈ es, e.same e = true) : sameAll es es = true := by
  induction es with
  | nil => rfl
  | cons e es ih =>
    rw [sameAll, h e List.mem_cons_self, ih fun a ha => h a (List.mem_cons_of_mem e ha)]
    rfl

theorem same_self (h : Formed e) (hlegible : e.legible = true) : e.same e = true := by
  induction h with
  | null => rfl
  | bool | int | str => simp [same, Value.same]
  | float =>
    rw [legible, decide_eq_true_eq] at hlegible
    obtain ⟨m, hm⟩ := magnitude?_of_point hlegible
    rw [same, Value.same, Double.beq_self hm]
  | ident => simp [same]
  | call _ _ _ ih =>
    simp only [legible, Bool.and_eq_true, legibleAll_eq_true] at hlegible
    simp [same, sameAll_self fun a ha => ih a ha (hlegible.2 a ha)]
  | list _ ih =>
    rw [legible, legibleAll_eq_true] at hlegible
    rw [same, sameAll_self fun a ha => ih a ha (hlegible a ha)]
  | _ => simp_all [same]

-- ---------------------------------------------------------------------------
-- Trees that are read back
-- ---------------------------------------------------------------------------

theorem tree?_of_isUnary {w : Written} (hw : w.isUnary = true) (h : w.tree? = some e') :
    (∃ op a, e' = .unary op a) ∨ ∃ v, e' = .literal v := by
  cases w with
  | unary op operand =>
    obtain ⟨a, -, rfl⟩ := Option.map_eq_some_iff.mp h
    cases op with
    | not => exact .inl ⟨_, _, rfl⟩
    | negate =>
      simp only [Written.ofUnary, negated]
      split
      · exact .inr ⟨_, rfl⟩
      · split
        · exact .inl ⟨_, _, rfl⟩
        · exact .inr ⟨_, rfl⟩
      · exact .inl ⟨_, _, rfl⟩
  | _ => cases hw

/-- A postfix step is read back only if no prefix operator comes before its target. -/
theorem tree?_followedBy {step : Written → Written} {target : Expr}
    (h : (target.written.followedBy step).tree? = some e') (hunary : ∀ op a, e' ≠ .unary op a)
    (hliteral : ∀ v, e' ≠ .literal v) :
    target.isPrefixed = false ∧ (step target.written).tree? = some e' := by
  have hnot : target.written.isUnary = false := by
    refine Bool.eq_false_iff.mpr fun htarget => ?_
    rcases tree?_of_isUnary (Written.isUnary_followedBy htarget) h with ⟨op, a, rfl⟩ | ⟨v, rfl⟩
    · exact hunary op a rfl
    · exact hliteral v rfl
  rw [Written.followedBy_of_not_isUnary hnot] at h
  refine ⟨Bool.eq_false_iff.mpr fun hbare => ?_, h⟩
  rw [isUnary_of_isPrefixed hbare] at hnot
  cases hnot

theorem legibleAll_of_same (htrees : Written.trees? (writtenAll es) = some es') (hsame : sameAll es' es = true)
    (h : ∀ e ∈ es, ∀ {e' : Expr}, e.written.tree? = some e' → e'.same e = true → e.legible = true) :
    legibleAll es = true := by
  induction es generalizing es' with
  | nil => rfl
  | cons e es ih =>
    simp only [writtenAll, Written.trees?, Option.bind_eq_some_iff, Option.map_eq_some_iff] at htrees
    obtain ⟨a, hfirst, as, hrest, rfl⟩ := htrees
    simp only [sameAll, Bool.and_eq_true] at hsame
    rw [legibleAll, h e List.mem_cons_self hfirst hsame.1,
      ih hrest hsame.2 fun b hb => h b (List.mem_cons_of_mem e hb)]
    rfl

theorem tree?_of_no_point {x : Double} (hpoint : '.' ∉ (Decimal.numeral x).toList)
    (htree : (writtenNumeral x).tree? = some e') : (∃ name, e' = .ident name) ∨ ∃ i, e' = .literal (.int i) := by
  unfold writtenNumeral at htree
  split at htree
  · cases htree
    exact .inl ⟨_, rfl⟩
  · simp only [Written.tree?, Written.literalValue?, Option.map_eq_some_iff] at htree
    obtain ⟨_, ⟨i, -, rfl⟩, rfl⟩ := htree
    exact .inr ⟨i, rfl⟩

theorem not_same_negated {x : Double} (h : (∃ name, e' = .ident name) ∨ ∃ i, e' = .literal (.int i)) :
    (negated e').same (.literal (.float x)) = false := by
  rcases h with ⟨name, rfl⟩ | ⟨i, rfl⟩
  · simp [negated, same]
  · rw [negated]
    split <;> simp [same, Value.same]

theorem legible_float {x : Double} (htree : (writtenLiteral (.float x)).tree? = some e')
    (hsame : e'.same (.literal (.float x)) = true) : '.' ∈ (Decimal.text x).toList := by
  rw [point_mem_text]
  by_contra hpoint
  rw [writtenLiteral] at htree
  cases hsigned : Decimal.isSigned x with
  | false =>
    rw [hsigned] at htree
    rcases tree?_of_no_point hpoint htree with ⟨name, rfl⟩ | ⟨i, rfl⟩ <;> simp [same, Value.same] at hsame
  | true =>
    rw [hsigned] at htree
    obtain ⟨a, ha, rfl⟩ := Option.map_eq_some_iff.mp htree
    have hdiffers := not_same_negated (x := x) (tree?_of_no_point hpoint ha)
    simp only [Written.ofUnary, hdiffers, Bool.false_eq_true] at hsame

theorem legible_str {s : String} (htree : (writtenLiteral (.str s)).tree? = some e')
    (hsame : e'.same (.literal (.str s)) = true) : s.toList.all Token.readsBack = true := by
  rw [tree?_str, Option.some.injEq] at htree
  rw [← htree, same, Value.same, beq_iff_eq] at hsame
  have hchars := congrArg String.toList hsame
  rwa [String.toList_ofList, Token.flatMap_reread_eq_iff] at hchars

/-- A call is read back as a call unless it is one of `has`. -/
theorem same_ofFunctionForm {name : String} {args as : List Expr} (h : ofFunctionForm name as = .ok e')
    (hsame : e'.same (.call name args) = true) : name ≠ "has" ∧ sameAll as args = true := by
  unfold ofFunctionForm at h
  split at h
  · split at h
    · split at h
      · cases h
        simp [same] at hsame
      · cases h
    · cases h
  · rename_i hname
    split at h
    · cases h
      simp [same] at hsame
    · cases h
      simpa [same, hname] using hsame

theorem same_negated (h : (negated e').same (.unary .negate e) = true) : e'.same e = true := by
  unfold negated at h
  split at h
  · simp [same] at h
  · split at h
    · simpa [same] using h
    · simp [same] at h
  · simpa [same] using h

/-- A tree whose text spells an equal tree is legible. -/
theorem legible_of_same (h : Formed e) (htree : e.written.tree? = some e') (hsame : e'.same e = true) :
    e.legible = true := by
  induction h generalizing e' with
  | null | bool | int => rfl
  | float =>
    rw [written] at htree
    rw [legible, decide_eq_true_eq]
    exact legible_float htree hsame
  | str =>
    rw [written] at htree
    rw [legible]
    exact legible_str htree hsame
  | ident => rfl
  | member _ _ ih =>
    cases e' with
    | member a field =>
      rw [written] at htree
      obtain ⟨hbare, hstep⟩ := tree?_followedBy htree (by simp) (by simp)
      simp only [Written.tree?, Option.map_eq_some_iff, member.injEq] at hstep
      obtain ⟨b, htarget, rfl, -⟩ := hstep
      simp only [same, Bool.and_eq_true] at hsame
      simp [hbare, ih htarget hsame.1]
    | _ => simp [same] at hsame
  | index _ _ ih ihkey =>
    cases e' with
    | index a key =>
      rw [written] at htree
      obtain ⟨hbare, hstep⟩ := tree?_followedBy htree (by simp) (by simp)
      simp only [Written.tree?, Option.bind_eq_some_iff, Option.map_eq_some_iff, index.injEq] at hstep
      obtain ⟨b, htarget, key', hkey, rfl, rfl⟩ := hstep
      simp only [same, Bool.and_eq_true] at hsame
      simp [hbare, ih htarget hsame.1, ihkey hkey hsame.2]
    | _ => simp [same] at hsame
  | call _ _ _ ih =>
    simp only [written, Written.tree?, Option.bind_eq_some_iff, Except.toOption_eq_some] at htree
    obtain ⟨as, hargs, hform⟩ := htree
    obtain ⟨hname, hall⟩ := same_ofFunctionForm hform hsame
    simp [hname, legibleAll_of_same hargs hall ih]
  | not _ ih =>
    simp only [written, Written.tree?, Option.map_eq_some_iff] at htree
    obtain ⟨a, ha, rfl⟩ := htree
    simp only [Written.ofUnary, same, Bool.and_eq_true] at hsame
    exact ih ha hsame.2
  | @negate e _ _ ih =>
    simp only [written, Written.tree?, Option.map_eq_some_iff] at htree
    obtain ⟨a, ha, rfl⟩ := htree
    exact ih ha (same_negated hsame)
  | binary _ _ ihleft ihright =>
    simp only [written, Written.tree?, Option.bind_eq_some_iff, Option.map_eq_some_iff] at htree
    obtain ⟨a, ha, b, hb, rfl⟩ := htree
    simp only [same, Bool.and_eq_true] at hsame
    simp [ihleft ha hsame.1.2, ihright hb hsame.2]
  | ternary _ _ _ ihc ihy ihn =>
    simp only [written, Written.tree?, Option.bind_eq_some_iff, Option.map_eq_some_iff] at htree
    obtain ⟨a, ha, b, hb, c, hc, rfl⟩ := htree
    simp only [same, Bool.and_eq_true] at hsame
    simp [ihc ha hsame.1.1, ihy hb hsame.1.2, ihn hc hsame.2]
  | list _ ih =>
    simp only [written, Written.tree?, Option.map_eq_some_iff] at htree
    obtain ⟨as, hitems, rfl⟩ := htree
    exact legibleAll_of_same hitems hsame ih
  | @comprehension range var body kind _ _ _ ih ihbody =>
    cases e' with
    | comprehension kind' a var' b =>
      rw [written] at htree
      obtain ⟨hbare, hstep⟩ := tree?_followedBy htree (by simp) (by simp)
      simp only [Written.tree?, Written.trees?, Option.bind_eq_some_iff, Option.map_eq_some_iff, Option.some.injEq,
        exists_eq_left'] at hstep
      obtain ⟨range', hrange, args, ⟨more, ⟨body', hbody, rfl⟩, rfl⟩, hform⟩ := hstep
      simp only [ofMethodForm, Comprehension.ofName?_name, comprehension.injEq] at hform
      obtain ⟨rfl, rfl, rfl, rfl⟩ := hform
      simp only [same, Bool.and_eq_true] at hsame
      simp [hbare, ih hrange hsame.1.1.2, ihbody hbody hsame.2]
    | _ => simp [same] at hsame
  | has _ hpath ih =>
    simp only [written, Written.tree?, Written.trees?, Option.bind_eq_some_iff, Option.map_eq_some_iff,
      Except.toOption_eq_some, Option.some.injEq, exists_eq_left'] at htree
    obtain ⟨as, ⟨a, ha, rfl⟩, hform⟩ := htree
    rw [ofFunctionForm, if_pos rfl] at hform
    split at hform
    · cases hform
      exact ih ha hsame
    · cases hform

end

-- ---------------------------------------------------------------------------
-- Compiled trees
-- ---------------------------------------------------------------------------

theorem parse_eq_ok_iff_of_derives {source : String} {w : Written} {e : Expr}
    (h : Derives .expression (Token.strict source) w) : parse source = .ok e ↔
      w.tree? = some e ∧ w.levels none 1 ≤ maxDepth := by
  rw [parse_eq_ok_iff, ofTokens_eq_ok_iff]
  constructor
  · rintro ⟨w', hw', htree, hwithin⟩
    rw [hw'.unique h] at htree hwithin
    exact ⟨htree, hwithin⟩
  · rintro ⟨htree, hwithin⟩
    exact ⟨w, h, htree, hwithin⟩

theorem parse_text_eq_ok_iff {e e' : Expr} (h : Formed e) : parse e.text = .ok e' ↔
    e.written.tree? = some e' ∧ e.written.levels none 1 ≤ maxDepth :=
  parse_eq_ok_iff_of_derives (derives_text h)

end Expr

theorem compile_eq_ok_iff {source : String} {c : Compiled} : compile source = .ok c ↔
    ∃ e, Expr.parse source = .ok e ∧ ⟨source, e, e.freeNames, e.calledNames⟩ = c :=
  Except.map_eq_ok

/-- The text of a compiled tree compiles to an equal tree exactly if it spells the tree and the brackets
in it are not nested too deeply. -/
theorem compile_text_iff {source : String} {c : Compiled} (h : compile source = .ok c) :
    (∃ c', compile c.expr.text = .ok c' ∧ c'.expr.same c.expr = true) ↔
      c.expr.legible = true ∧ c.expr.written.levels none 1 ≤ Expr.maxDepth := by
  obtain ⟨e, hparse, rfl⟩ := compile_eq_ok_iff.mp h
  have hformed := Expr.formed_of_parse hparse
  constructor
  · rintro ⟨c', hc', hsame⟩
    obtain ⟨e', hparse', rfl⟩ := compile_eq_ok_iff.mp hc'
    obtain ⟨htree, hwithin⟩ := (Expr.parse_text_eq_ok_iff hformed).mp hparse'
    exact ⟨Expr.legible_of_same hformed htree hsame, hwithin⟩
  · rintro ⟨hlegible, hwithin⟩
    have hparse' := (Expr.parse_text_eq_ok_iff hformed).mpr ⟨Expr.tree?_written hformed hlegible, hwithin⟩
    exact ⟨_, compile_eq_ok_iff.mpr ⟨e, hparse', rfl⟩, Expr.same_self hformed hlegible⟩

def plainRule : String := "!(a.b[0] == -1.5 or x in [\"y\\n\", null]) ? f(-x, has(a.b)) : r.all(v, v > 2)"

theorem compile_text_of_plainRule : ∃ c, compile plainRule = .ok c ∧
    ∃ c', compile c.expr.text = .ok c' ∧ c'.expr.same c.expr = true := by
  have hplain : (compile plainRule).toOption.any (fun c =>
      c.expr.legible && decide (c.expr.written.levels none 1 ≤ Expr.maxDepth)) = true := by decide +kernel
  obtain ⟨c, hc, hholds⟩ := (Option.any_eq_true ..).mp hplain
  rw [Except.toOption_eq_some] at hc
  rw [Bool.and_eq_true, decide_eq_true_eq] at hholds
  exact ⟨c, hc, (compile_text_iff hc).mpr hholds⟩

/-- The brackets of a target with a prefix operator are not written. -/
theorem compile_text_of_prefixedTarget : ∃ c, compile "(-a).b" = .ok c ∧ c.expr.text = "-a.b" ∧
    ¬∃ c', compile c.expr.text = .ok c' ∧ c'.expr.same c.expr = true := by
  have hbareed : (compile "(-a).b").toOption.any (fun c => c.expr.text == "-a.b" &&
      (compile c.expr.text).toOption.all fun c' => !c'.expr.same c.expr) = true := by decide +kernel
  obtain ⟨c, hc, hholds⟩ := (Option.any_eq_true ..).mp hbareed
  rw [Except.toOption_eq_some] at hc
  rw [Bool.and_eq_true, beq_iff_eq] at hholds
  refine ⟨c, hc, hholds.1, ?_⟩
  rintro ⟨c', hc', hsame⟩
  have hdiffers := hholds.2
  rw [hc'] at hdiffers
  simp [Except.toOption, hsame] at hdiffers

end TradingRules
