import TradingRules.Proofs.Eval.NonInterference
import TradingRules.Proofs.Expr.Reprint

/-!
# Paths

A path is a name with fields behind points. Every free path of a compiled rule is a rule by itself
(`compile_of_mem_freeNames`): its names are words, and it opens no more levels alone than where it stands.
-/

namespace TradingRules

def dotted (root : String) (fields : List String) : String :=
  fields.foldl (fun path field => path ++ "." ++ field) root

section
variable {root field : String} {fields more : List String}

@[simp] theorem dotted_nil (root : String) : dotted root [] = root := rfl

theorem dotted_cons (root field : String) (fields : List String) :
    dotted root (field :: fields) = dotted (root ++ "." ++ field) fields := rfl

theorem dotted_append (root : String) (fields more : List String) :
    dotted root (fields ++ more) = dotted (dotted root fields) more := List.foldl_append

theorem dotted_concat (root : String) (fields : List String) (field : String) :
    dotted root (fields ++ [field]) = dotted root fields ++ "." ++ field := List.foldl_append

end

namespace Expr

open Grammar

def ofPath (root : String) (fields : List String) : Expr := fields.foldl .member (.ident root)

inductive Part : Expr → Expr → Prop
  | self : Part e e
  | child (hchild : x ∈ e.children) (h : Part t x) : Part t e

variable {e x t target : Expr} {p root field : String} {fields : List String} {bound : List String}

theorem ofPath_concat (root : String) (fields : List String) (field : String) :
    ofPath root (fields ++ [field]) = .member (ofPath root fields) field := List.foldl_append

@[simp] theorem path?_ofPath (root : String) (fields : List String) :
    (ofPath root fields).path? = some (dotted root fields) := by
  induction fields using List.reverseRecOn with
  | nil => rfl
  | append_singleton fields field ih => rw [ofPath_concat, path?, ih, dotted_concat, Option.map_some]

@[simp] theorem root?_ofPath (root : String) (fields : List String) :
    (ofPath root fields).root? = some root := by
  induction fields using List.reverseRecOn with
  | nil => rfl
  | append_singleton fields field ih => rw [ofPath_concat, root?, ih]

theorem eq_ofPath_of_path? (h : e.path? = some p) :
    ∃ root fields, e = ofPath root fields ∧ p = dotted root fields := by
  fun_induction path? e generalizing p with
  | case1 name =>
    cases h
    exact ⟨name, [], rfl, rfl⟩
  | case2 target field ih =>
    obtain ⟨base, hbase, rfl⟩ := Option.map_eq_some_iff.mp h
    obtain ⟨root, fields, rfl, rfl⟩ := ih hbase
    exact ⟨root, fields ++ [field], (ofPath_concat ..).symm, (dotted_concat ..).symm⟩
  | case3 => cases h

-- ---------------------------------------------------------------------------
-- Parts of a tree
-- ---------------------------------------------------------------------------

theorem children_call (name : String) (args : List Expr) : (call name args).children = args := by
  cases args <;> rfl

theorem mem_pathsAll {es : List Expr} : p ∈ pathsAll bound es ↔ ∃ e ∈ es, p ∈ e.paths bound := by
  induction es with
  | nil => simp [pathsAll]
  | cons e es ih => simp [pathsAll, ih]

/-- A free path is the tree itself or one of a child, where more names may be bound. -/
theorem path_of_mem_paths (h : p ∈ e.paths bound) :
    e.path? = some p ∨ ∃ x ∈ e.children, ∃ bound', p ∈ x.paths bound' := by
  cases e with
  | literal v => cases h
  | ident name =>
    simp only [paths] at h
    split at h
    · cases h
    · exact .inl (congrArg some (List.mem_singleton.mp h).symm)
  | member target field =>
    simp only [paths] at h
    split at h
    · rename_i path root hpath hroot
      split at h
      · cases h
      · rw [List.mem_singleton.mp h]
        exact .inl hpath
    · exact .inr ⟨target, List.mem_singleton_self _, bound, h⟩
  | call function args =>
    obtain ⟨x, hx, hp⟩ := mem_pathsAll.mp h
    exact .inr ⟨x, (children_call function args).symm ▸ hx, bound, hp⟩
  | list items =>
    obtain ⟨x, hx, hp⟩ := mem_pathsAll.mp h
    exact .inr ⟨x, hx, bound, hp⟩
  | _ =>
    simp only [paths, List.mem_append] at h
    grind [children, first?, later]

theorem exists_part_of_mem_paths (h : p ∈ e.paths bound) : ∃ t, Part t e ∧ t.path? = some p := by
  induction e using induction_on_children generalizing bound with
  | step e ih =>
    rcases path_of_mem_paths h with hself | ⟨x, hx, bound', hp⟩
    · exact ⟨e, .self, hself⟩
    · obtain ⟨t, ht, hpath⟩ := ih x hx hp
      exact ⟨t, .child hx ht, hpath⟩

theorem Formed.child (h : Formed e) (hx : x ∈ e.children) : Formed x := by
  cases h with
  | call _ _ h =>
    rw [children_call] at hx
    exact h x hx
  | list h => exact h x hx
  | _ => grind [children, first?, later]

theorem Part.formed (h : Part t e) (he : Formed e) : Formed t := by
  induction h with
  | self => exact he
  | child hx _ ih => exact ih (he.child hx)

-- ---------------------------------------------------------------------------
-- Levels
-- ---------------------------------------------------------------------------

theorem path?_negated (e : Expr) : (negated e).path? = none := by
  unfold negated
  split
  · rfl
  · split <;> rfl
  · rfl

theorem path?_ofMethodForm (target : Expr) (name : String) (args : List Expr) :
    (ofMethodForm target name args).path? = none := by
  unfold ofMethodForm
  split <;> rfl

theorem path?_ofFunctionForm {name : String} {args : List Expr} (h : ofFunctionForm name args = .ok e) :
    e.path? = none := by
  unfold ofFunctionForm at h
  grind [path?]

theorem mem_of_child_ofFunctionForm {name : String} {args : List Expr}
    (h : ofFunctionForm name args = .ok e) (hx : x ∈ e.children) : x ∈ args := by
  unfold ofFunctionForm at h
  split at h
  · split at h
    · split at h
      · cases h
        exact hx
      · cases h
    · cases h
  · split at h
    · cases h
      simp only [children, first?, later, Option.toList_some, List.cons_append, List.nil_append, List.mem_cons,
        List.not_mem_nil, or_false] at hx
      rcases hx with rfl | rfl <;> simp
    · cases h
      rwa [children_call] at hx

theorem mem_of_child_ofMethodForm {name : String} {args : List Expr}
    (hx : x ∈ (ofMethodForm target name args).children) : x = target ∨ x ∈ args := by
  unfold ofMethodForm at hx
  split at hx
  · simp only [children, first?, later, Option.toList_some, List.cons_append, List.nil_append, List.mem_cons,
      List.not_mem_nil, or_false] at hx
    exact hx.imp_right fun h => by simp [h]
  · rw [children_call] at hx
    exact List.mem_cons.mp hx

theorem part_negated (h : Part t (negated e)) (hpath : t.path?.isSome = true) : Part t e := by
  unfold negated at h
  split at h
  · cases h with
    | self => cases hpath
    | child hx => cases hx
  · split at h
    · cases h with
      | self => cases hpath
      | child hx ht => exact List.mem_singleton.mp hx ▸ ht
    · cases h with
      | self => cases hpath
      | child hx => cases hx
  · cases h with
    | self => cases hpath
    | child hx ht => exact List.mem_singleton.mp hx ▸ ht

theorem part_ofUnary {op : UnaryOp} (h : Part t (Written.ofUnary op e)) (hpath : t.path?.isSome = true) :
    Part t e := by
  cases op with
  | not =>
    cases h with
    | self => cases hpath
    | child hx ht => exact List.mem_singleton.mp hx ▸ ht
  | negate => exact part_negated h hpath

end Expr

namespace Written

variable {e t : Expr}

/-- A path is read as many levels deep as it is high, whatever stands behind it. -/
theorem height_le_levels_of_path : ∀ (w : Written) {e : Expr} (under : Option Expr.Chain) (depth : Nat),
    w.tree? = some e → e.path?.isSome = true → e.height + depth ≤ w.levels under depth
  | .ident _, _, _, depth, rfl, _ => by
    rw [levels, Expr.height]
    omega
  | .bracketed inner, _, _, depth, h, hpath => by
    have := height_le_levels_of_path inner none (depth + 2) h hpath
    rw [levels]
    omega
  | .member target field, _, under, depth, h, hpath => by
    obtain ⟨e, htarget, rfl⟩ := Option.map_eq_some_iff.mp h
    have := height_le_levels_of_path target (some .steps) depth htarget (by simpa [Expr.path?] using hpath)
    simp only [levels, Expr.height]
    split <;> omega
  | .literal _ _, _, _, _, h, hpath => by
    obtain ⟨v, -, rfl⟩ := Option.map_eq_some_iff.mp h
    cases hpath
  | .call _ _, _, _, _, h, hpath => by
    obtain ⟨args, -, hform⟩ := Option.bind_eq_some_iff.mp h
    rw [Expr.path?_ofFunctionForm (Except.toOption_eq_some.mp hform)] at hpath
    cases hpath
  | .method _ _ _, _, _, _, h, hpath => by
    obtain ⟨e, -, hmap⟩ := Option.bind_eq_some_iff.mp h
    obtain ⟨args, -, rfl⟩ := Option.map_eq_some_iff.mp hmap
    rw [Expr.path?_ofMethodForm] at hpath
    cases hpath
  | .unary .negate _, _, _, _, h, hpath => by
    obtain ⟨e, -, rfl⟩ := Option.map_eq_some_iff.mp h
    rw [ofUnary, Expr.path?_negated] at hpath
    cases hpath
  | .unary .not _, _, _, _, h, hpath | .list _, _, _, _, h, hpath => by
    obtain ⟨e, -, rfl⟩ := Option.map_eq_some_iff.mp h
    cases hpath
  | .index _ _, _, _, _, h, hpath | .binary _ _ _, _, _, _, h, hpath => by
    obtain ⟨a, -, hmap⟩ := Option.bind_eq_some_iff.mp h
    obtain ⟨b, -, rfl⟩ := Option.map_eq_some_iff.mp hmap
    cases hpath
  | .ternary _ _ _, _, _, _, h, hpath => by
    obtain ⟨a, -, hbind⟩ := Option.bind_eq_some_iff.mp h
    obtain ⟨b, -, hmap⟩ := Option.bind_eq_some_iff.mp hbind
    obtain ⟨c, -, rfl⟩ := Option.map_eq_some_iff.mp hmap
    cases hpath

mutual

/-- Every path in the tree is read within the levels of the whole. -/
theorem height_part_le_levels : ∀ (w : Written) {e t : Expr} (depth : Nat), w.tree? = some e →
    Expr.Part t e → t.path?.isSome = true → t.height + depth ≤ w.levels none depth
  | w, _, _, depth, h, .self, hpath => height_le_levels_of_path w none depth h hpath
  | .literal _ _, _, _, depth, h, .child hx ht, hpath => by
    obtain ⟨v, -, rfl⟩ := Option.map_eq_some_iff.mp h
    cases hx
  | .ident _, _, _, depth, rfl, .child hx ht, hpath => nomatch hx
  | .call name args, _, _, depth, h, .child hx ht, hpath => by
    obtain ⟨es, hargs, hform⟩ := Option.bind_eq_some_iff.mp h
    have hmem := Expr.mem_of_child_ofFunctionForm (Except.toOption_eq_some.mp hform) hx
    have := height_part_le_levelsAll args (depth + 2) hargs hmem ht hpath
    rw [levels]
    omega
  | .bracketed inner, _, _, depth, h, hpart, hpath => by
    have := height_part_le_levels inner (depth + 2) h hpart hpath
    rw [levels]
    omega
  | .list items, _, _, depth, h, .child hx ht, hpath => by
    obtain ⟨es, hitems, rfl⟩ := Option.map_eq_some_iff.mp h
    have := height_part_le_levelsAll items (depth + 2) hitems hx ht hpath
    rw [levels]
    omega
  | .member target field, _, _, depth, h, .child hx ht, hpath => by
    obtain ⟨e, htarget, rfl⟩ := Option.map_eq_some_iff.mp h
    cases List.mem_singleton.mp hx
    have := height_part_le_levels target depth htarget ht hpath
    simp only [levels, reduceCtorEq, if_false]
    omega
  | .method target name args, _, _, depth, h, .child hx ht, hpath => by
    obtain ⟨e, htarget, hmap⟩ := Option.bind_eq_some_iff.mp h
    obtain ⟨es, hargs, rfl⟩ := Option.map_eq_some_iff.mp hmap
    simp only [levels, reduceCtorEq, if_false]
    rcases Expr.mem_of_child_ofMethodForm hx with rfl | hx
    · have := height_part_le_levels target depth htarget ht hpath
      omega
    · have := height_part_le_levelsAll args (levels (some .steps) depth target + 1 + 1) hargs hx ht hpath
      have := lt_levels (some .steps) depth target
      omega
  | .index target key, _, _, depth, h, .child hx ht, hpath => by
    obtain ⟨e, htarget, hmap⟩ := Option.bind_eq_some_iff.mp h
    obtain ⟨k, hkey, rfl⟩ := Option.map_eq_some_iff.mp hmap
    simp only [levels, reduceCtorEq, if_false]
    rcases List.mem_pair.mp hx with rfl | rfl
    · have := height_part_le_levels target depth htarget ht hpath
      omega
    · have := height_part_le_levels key (levels (some .steps) depth target + 1 + 1) hkey ht hpath
      have := lt_levels (some .steps) depth target
      omega
  | .unary op operand, _, _, depth, h, hpart, hpath => by
    obtain ⟨e, hoperand, rfl⟩ := Option.map_eq_some_iff.mp h
    have := height_part_le_levels operand (depth + 1) hoperand (Expr.part_ofUnary hpart hpath) hpath
    rw [levels]
    omega
  | .binary op left right, _, _, depth, h, .child hx ht, hpath => by
    obtain ⟨l, hleft, hmap⟩ := Option.bind_eq_some_iff.mp h
    obtain ⟨r, hright, rfl⟩ := Option.map_eq_some_iff.mp hmap
    simp only [levels, reduceCtorEq, if_false]
    rcases List.mem_pair.mp hx with rfl | rfl
    · have := height_part_le_levels left depth hleft ht hpath
      omega
    · have := height_part_le_levels right (levels (some (.operators op.level)) depth left + 1) hright ht hpath
      have := lt_levels (some (.operators op.level)) depth left
      omega
  | .ternary condition yes no, _, _, depth, h, .child hx ht, hpath => by
    obtain ⟨c, hc, hbind⟩ := Option.bind_eq_some_iff.mp h
    obtain ⟨y, hy, hmap⟩ := Option.bind_eq_some_iff.mp hbind
    obtain ⟨n, hn, rfl⟩ := Option.map_eq_some_iff.mp hmap
    rw [levels]
    simp only [Expr.children, Expr.first?, Expr.later, Option.toList_none, List.nil_append, List.mem_cons,
      List.not_mem_nil, or_false] at hx
    rcases hx with rfl | rfl | rfl
    · have := height_part_le_levels condition depth hc ht hpath
      omega
    · have := height_part_le_levels yes (depth + 1) hy ht hpath
      omega
    · have := height_part_le_levels no (depth + 1) hn ht hpath
      omega

theorem height_part_le_levelsAll : ∀ (ws : List Written) {es : List Expr} {x t : Expr} (depth : Nat),
    trees? ws = some es → x ∈ es → Expr.Part t x → t.path?.isSome = true →
      t.height + depth ≤ levelsAll depth ws
  | [], _, _, _, depth, rfl, hx, _, _ => nomatch hx
  | w :: ws, _, _, _, depth, h, hx, ht, hpath => by
    obtain ⟨e, hfirst, hmap⟩ := Option.bind_eq_some_iff.mp h
    obtain ⟨es, hrest, rfl⟩ := Option.map_eq_some_iff.mp hmap
    rw [levelsAll]
    rcases List.mem_cons.mp hx with rfl | hx
    · have := height_part_le_levels w depth hfirst ht hpath
      omega
    · have := height_part_le_levelsAll ws depth hrest hx ht hpath
      omega

end

end Written

namespace Expr

variable {e t : Expr} {p : String}

-- ---------------------------------------------------------------------------
-- Paths as rules
-- ---------------------------------------------------------------------------

theorem isPrefixed_of_path? (h : t.path?.isSome = true) : t.isPrefixed = false := by
  cases t <;> first | rfl | cases h

theorem legible_of_path? : ∀ {t : Expr}, t.path?.isSome = true → t.legible = true
  | .ident _, _ => rfl
  | .member target field, h => by
    have htarget : target.path?.isSome = true := by simpa [path?] using h
    rw [legible, isPrefixed_of_path? htarget, legible_of_path? htarget]
    rfl

theorem calls_of_path? : ∀ {t : Expr}, t.path?.isSome = true → t.calls = []
  | .ident _, _ => rfl
  | .member target field, h => calls_of_path? (t := target) (by simpa [path?] using h)

theorem text_of_path? : ∀ {t : Expr} {p : String}, t.path? = some p → t.text = p
  | .ident _, _, rfl => rfl
  | .member target field, _, h => by
    obtain ⟨base, hbase, rfl⟩ := Option.map_eq_some_iff.mp h
    rw [text, text_of_path? hbase]

theorem levels_written_of_path? : ∀ {t : Expr} (under : Option Chain) (depth : Nat),
    t.path?.isSome = true → t.written.levels under depth = t.height + depth
  | .ident _, _, depth, _ => by
    rw [written, Written.levels, height, Nat.add_comm]
  | .member target field, under, depth, h => by
    have htarget : target.path?.isSome = true := by simpa [path?] using h
    have hlevels (under : Option Chain) := levels_written_of_path? (t := target) under depth htarget
    rw [written, followedBy_of_legible (legible_of_path? htarget) (isPrefixed_of_path? htarget), Written.levels,
      height, hlevels, hlevels]
    split <;> omega

theorem compile_of_path? (hformed : Formed t) (hpath : t.path? = some p) (hlow : t.height < maxDepth) :
    compile p = .ok ⟨p, t, [p], []⟩ := by
  have hsome : t.path?.isSome = true := hpath ▸ rfl
  obtain ⟨root, hroot⟩ := root?_of_path? hpath
  have hfree : t.freeNames = [p] := by
    rw [freeNames, paths_of_path? [] hpath hroot]
    rfl
  have hcalled : t.calledNames = [] := by
    rw [calledNames, calls_of_path? hsome]
    rfl
  have hparse : parse t.text = .ok t := by
    refine (parse_text_eq_ok_iff hformed).mpr ⟨tree?_written hformed (legible_of_path? hsome), ?_⟩
    rw [levels_written_of_path? none 1 hsome]
    exact hlow
  rw [text_of_path? hpath] at hparse
  exact compile_eq_ok_iff.mpr ⟨t, hparse, by rw [hfree, hcalled]⟩

/-- Every free path of a compiled rule is a rule by itself: a path of words that mentions nothing else. -/
theorem compile_of_mem_freeNames {source : String} {c : Compiled} (h : compile source = .ok c)
    (hp : p ∈ c.freeNames) : ∃ root fields, p = dotted root fields ∧ Formed (ofPath root fields) ∧
      compile p = .ok ⟨p, ofPath root fields, [p], []⟩ := by
  obtain ⟨e, hparse, rfl⟩ := compile_eq_ok_iff.mp h
  obtain ⟨t, hpart, hpath⟩ := exists_part_of_mem_paths (Names.mem_ofList.mp hp)
  obtain ⟨w, -, htree, hwithin⟩ := ofTokens_eq_ok_iff.mp (parse_eq_ok_iff.mp hparse)
  have hformed := hpart.formed (formed_of_parse hparse)
  have hlow : t.height + 1 ≤ maxDepth :=
    (w.height_part_le_levels 1 htree hpart (hpath ▸ rfl)).trans hwithin
  have hcompile := compile_of_path? hformed hpath hlow
  obtain ⟨root, fields, rfl, rfl⟩ := eq_ofPath_of_path? hpath
  exact ⟨root, fields, rfl, hformed, hcompile⟩

end Expr

end TradingRules
