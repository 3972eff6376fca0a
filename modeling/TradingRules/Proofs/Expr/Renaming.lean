import TradingRules.Proofs.Expr.Paths

/-!
# Renaming the variable of a comprehension

A name that occurs nowhere in the body can take the place of the variable: the comprehension then
mentions the same free paths and calls the same functions (`paths_renamed`, `calls_renamed`).
-/

namespace TradingRules.Expr

mutual

/-- The names that are read and the variables that are bound, in the order of the text. -/
def identifiers : Expr → List String
  | .literal _ => []
  | .ident name => [name]
  | .member target _ => identifiers target
  | .index target key => identifiers target ++ identifiers key
  | .call _ args => identifiersAll args
  | .unary _ operand => identifiers operand
  | .binary _ left right => identifiers left ++ identifiers right
  | .ternary condition yes no => identifiers condition ++ identifiers yes ++ identifiers no
  | .list items => identifiersAll items
  | .comprehension _ range var body => identifiers range ++ var :: identifiers body
  | .has target => identifiers target

def identifiersAll : List Expr → List String
  | [] => []
  | e :: rest => identifiers e ++ identifiersAll rest

end

mutual

def renamed (x y : String) : Expr → Expr
  | .literal v => .literal v
  | .ident name => .ident (if name = x then y else name)
  | .member target field => .member (renamed x y target) field
  | .index target key => .index (renamed x y target) (renamed x y key)
  | .call function args => .call function (renamedAll x y args)
  | .unary op operand => .unary op (renamed x y operand)
  | .binary op left right => .binary op (renamed x y left) (renamed x y right)
  | .ternary condition yes no => .ternary (renamed x y condition) (renamed x y yes) (renamed x y no)
  | .list items => .list (renamedAll x y items)
  | .comprehension kind range var body =>
    .comprehension kind (renamed x y range) var (if var = x then body else renamed x y body)
  | .has target => .has (renamed x y target)

def renamedAll (x y : String) : List Expr → List Expr
  | [] => []
  | e :: rest => renamed x y e :: renamedAll x y rest

end

variable {x y root var p field : String} {fields bound bound' : List String} {e target : Expr}

-- ---------------------------------------------------------------------------
-- Paths
-- ---------------------------------------------------------------------------

@[simp] theorem identifiers_ofPath (root : String) (fields : List String) :
    (ofPath root fields).identifiers = [root] := by
  induction fields using List.reverseRecOn with
  | nil => rfl
  | append_singleton fields field ih => rw [ofPath_concat, identifiers, ih]

@[simp] theorem renamed_ofPath (x y root : String) (fields : List String) :
    (ofPath root fields).renamed x y = ofPath (if root = x then y else root) fields := by
  induction fields using List.reverseRecOn with
  | nil => rfl
  | append_singleton fields field ih => rw [ofPath_concat, renamed, ih, ofPath_concat]

theorem renamed_ofPath_of_ne (h : root ≠ x) : (ofPath root fields).renamed x y = ofPath root fields := by
  rw [renamed_ofPath, if_neg h]

theorem path?_renamed_of_no_path (h : e.path? = none) : (e.renamed x y).path? = none := by
  fun_induction path? e with
  | case1 name => cases h
  | case2 target field ih => rw [renamed, path?, ih (Option.map_eq_none_iff.mp h), Option.map_none]
  | case3 e hident hmember => cases e <;> simp_all [renamed, path?]

theorem mem_identifiers_of_root? (h : e.root? = some root) : root ∈ e.identifiers := by
  fun_induction root? e with
  | case1 name =>
    cases h
    exact List.mem_singleton_self _
  | case2 target field ih => exact ih h
  | case3 => cases h

theorem paths_ofPath (bound : List String) (root : String) (fields : List String) :
    (ofPath root fields).paths bound = if root ∈ bound then [] else [dotted root fields] :=
  paths_of_path? bound (path?_ofPath root fields) (root?_ofPath root fields)

theorem paths_member_of_no_path (bound : List String) (h : (member target field).path? = none) :
    (member target field).paths bound = target.paths bound := by
  simp only [paths, h]

-- ---------------------------------------------------------------------------
-- The names that are mentioned
-- ---------------------------------------------------------------------------

mutual

/-- Which other names are bound does not matter. -/
theorem paths_congr : ∀ (bound bound' : List String) (e : Expr),
    (∀ name ∈ e.identifiers, name ∈ bound ↔ name ∈ bound') → e.paths bound = e.paths bound'
  | _, _, .literal _, _ => rfl
  | bound, bound', .ident name, h => by
    simp only [paths, h name (List.mem_singleton_self name)]
  | bound, bound', .member target field, h => by
    have htarget := paths_congr bound bound' target h
    cases hpath : (member target field).path? with
    | none => rw [paths_member_of_no_path bound hpath, paths_member_of_no_path bound' hpath, htarget]
    | some path =>
      obtain ⟨root, fields, heq, -⟩ := eq_ofPath_of_path? hpath
      rw [heq, identifiers_ofPath] at h
      simp only [heq, paths_ofPath, h root (List.mem_singleton_self root)]
  | bound, bound', .index target key, h => by
    rw [paths, paths, paths_congr bound bound' target fun n hn => h n (List.mem_append_left _ hn),
      paths_congr bound bound' key fun n hn => h n (List.mem_append_right _ hn)]
  | bound, bound', .call function args, h => by rw [paths, paths, pathsAll_congr bound bound' args h]
  | bound, bound', .unary op operand, h => by rw [paths, paths, paths_congr bound bound' operand h]
  | bound, bound', .binary op left right, h => by
    rw [paths, paths, paths_congr bound bound' left fun n hn => h n (List.mem_append_left _ hn),
      paths_congr bound bound' right fun n hn => h n (List.mem_append_right _ hn)]
  | bound, bound', .ternary condition yes no, h => by
    have hleft := fun n hn => h n (List.mem_append_left _ hn)
    rw [paths, paths, paths_congr bound bound' condition fun n hn => hleft n (List.mem_append_left _ hn),
      paths_congr bound bound' yes fun n hn => hleft n (List.mem_append_right _ hn),
      paths_congr bound bound' no fun n hn => h n (List.mem_append_right _ hn)]
  | bound, bound', .list items, h => by rw [paths, paths, pathsAll_congr bound bound' items h]
  | bound, bound', .comprehension kind range var body, h => by
    have hbody : body.paths (var :: bound) = body.paths (var :: bound') := by
      refine paths_congr (var :: bound) (var :: bound') body fun n hn => ?_
      rw [List.mem_cons, List.mem_cons, h n (List.mem_append_right _ (List.mem_cons_of_mem _ hn))]
    rw [paths, paths, paths_congr bound bound' range fun n hn => h n (List.mem_append_left _ hn), hbody]
  | bound, bound', .has target, h => by rw [paths, paths, paths_congr bound bound' target h]

theorem pathsAll_congr : ∀ (bound bound' : List String) (es : List Expr),
    (∀ name ∈ identifiersAll es, name ∈ bound ↔ name ∈ bound') → pathsAll bound es = pathsAll bound' es
  | _, _, [], _ => rfl
  | bound, bound', e :: rest, h => by
    rw [pathsAll, pathsAll, paths_congr bound bound' e fun n hn => h n (List.mem_append_left _ hn),
      pathsAll_congr bound bound' rest fun n hn => h n (List.mem_append_right _ hn)]

end

structure Rebound (x y : String) (bound bound' : List String) : Prop where
  old : x ∈ bound
  new : y ∈ bound'
  others : ∀ name, name ≠ x → name ≠ y → (name ∈ bound ↔ name ∈ bound')

theorem Rebound.cons (h : Rebound x y bound bound') (var : String) :
    Rebound x y (var :: bound) (var :: bound') where
  old := List.mem_cons_of_mem var h.old
  new := List.mem_cons_of_mem var h.new
  others name hnx hny := by rw [List.mem_cons, List.mem_cons, h.others name hnx hny]

theorem Rebound.shadowed (h : Rebound x y bound bound') {name : String} (hy : name ≠ y) :
    name ∈ x :: bound ↔ name ∈ x :: bound' := by
  rw [List.mem_cons, List.mem_cons]
  by_cases hx : name = x
  · simp only [hx, true_or]
  · rw [h.others name hx hy]

theorem rebound_cons (x y : String) (bound : List String) : Rebound x y (x :: bound) (y :: bound) where
  old := List.mem_cons_self
  new := List.mem_cons_self
  others name hx hy := by simp only [List.mem_cons, hx, hy, false_or]

theorem paths_renamed_ofPath (fields : List String) (hrebound : Rebound x y bound bound')
    (hfresh : root ≠ y) :
    ((ofPath root fields).renamed x y).paths bound' = (ofPath root fields).paths bound := by
  by_cases hroot : root = x
  · rw [renamed_ofPath, if_pos hroot, paths_ofPath, paths_ofPath, if_pos hrebound.new,
      if_pos (hroot ▸ hrebound.old)]
  · simp only [renamed_ofPath_of_ne hroot, paths_ofPath, hrebound.others root hroot hfresh]

mutual

/-- A renamed expression mentions the same free paths where the new name is bound as the old one was. -/
theorem paths_renamed : ∀ (bound bound' : List String) (e : Expr), Rebound x y bound bound' →
    y ∉ e.identifiers → (e.renamed x y).paths bound' = e.paths bound
  | _, _, .literal _, _, _ => rfl
  | bound, bound', .ident name, hrebound, hfresh =>
    paths_renamed_ofPath [] hrebound (List.ne_of_not_mem_cons hfresh).symm
  | bound, bound', .member target field, hrebound, hfresh => by
    have htarget := paths_renamed bound bound' target hrebound hfresh
    cases hpath : (member target field).path? with
    | none =>
      have hrenamed : (member (target.renamed x y) field).path? = none :=
        path?_renamed_of_no_path (e := member target field) hpath
      rw [renamed, paths_member_of_no_path bound' hrenamed, paths_member_of_no_path bound hpath, htarget]
    | some path =>
      obtain ⟨root, fields, heq, -⟩ := eq_ofPath_of_path? hpath
      rw [heq, identifiers_ofPath] at hfresh
      rw [heq]
      exact paths_renamed_ofPath fields hrebound (List.ne_of_not_mem_cons hfresh).symm
  | bound, bound', .index target key, hrebound, hfresh => by
    simp only [identifiers, List.mem_append, not_or] at hfresh
    rw [renamed, paths, paths, paths_renamed bound bound' target hrebound hfresh.1,
      paths_renamed bound bound' key hrebound hfresh.2]
  | bound, bound', .call function args, hrebound, hfresh => by
    rw [renamed, paths, paths, pathsAll_renamed bound bound' args hrebound hfresh]
  | bound, bound', .unary op operand, hrebound, hfresh => by
    rw [renamed, paths, paths, paths_renamed bound bound' operand hrebound hfresh]
  | bound, bound', .binary op left right, hrebound, hfresh => by
    simp only [identifiers, List.mem_append, not_or] at hfresh
    rw [renamed, paths, paths, paths_renamed bound bound' left hrebound hfresh.1,
      paths_renamed bound bound' right hrebound hfresh.2]
  | bound, bound', .ternary condition yes no, hrebound, hfresh => by
    simp only [identifiers, List.mem_append, not_or] at hfresh
    rw [renamed, paths, paths, paths_renamed bound bound' condition hrebound hfresh.1.1,
      paths_renamed bound bound' yes hrebound hfresh.1.2, paths_renamed bound bound' no hrebound hfresh.2]
  | bound, bound', .list items, hrebound, hfresh => by
    rw [renamed, paths, paths, pathsAll_renamed bound bound' items hrebound hfresh]
  | bound, bound', .comprehension kind range var body, hrebound, hfresh => by
    simp only [identifiers, List.mem_append, List.mem_cons, not_or] at hfresh
    obtain ⟨hrange, -, hbody⟩ := hfresh
    rw [renamed, paths, paths, paths_renamed bound bound' range hrebound hrange]
    by_cases hshadow : var = x
    · -- the body is not touched, and `y` is no matter to it
      rw [if_pos hshadow, hshadow]
      refine congrArg _ (paths_congr (x :: bound') (x :: bound) body fun name hname => ?_)
      exact (hrebound.shadowed (ne_of_mem_of_not_mem hname hbody)).symm
    · rw [if_neg hshadow, paths_renamed (var :: bound) (var :: bound') body
        (hrebound.cons var) hbody]
  | bound, bound', .has target, hrebound, hfresh => by
    rw [renamed, paths, paths, paths_renamed bound bound' target hrebound hfresh]

theorem pathsAll_renamed : ∀ (bound bound' : List String) (es : List Expr), Rebound x y bound bound' →
    y ∉ identifiersAll es → pathsAll bound' (renamedAll x y es) = pathsAll bound es
  | _, _, [], _, _ => rfl
  | bound, bound', e :: rest, hrebound, hfresh => by
    simp only [identifiersAll, List.mem_append, not_or] at hfresh
    rw [renamedAll, pathsAll, pathsAll, paths_renamed bound bound' e hrebound hfresh.1,
      pathsAll_renamed bound bound' rest hrebound hfresh.2]

end

mutual

theorem calls_renamed (x y : String) : ∀ e : Expr, (e.renamed x y).calls = e.calls
  | .literal _ | .ident _ => rfl
  | .member target _ => by rw [renamed, calls, calls, calls_renamed x y target]
  | .index target key => by rw [renamed, calls, calls, calls_renamed x y target, calls_renamed x y key]
  | .call function args => by rw [renamed, calls, calls, callsAll_renamed x y args]
  | .unary _ operand => by rw [renamed, calls, calls, calls_renamed x y operand]
  | .binary _ left right => by
    rw [renamed, calls, calls, calls_renamed x y left, calls_renamed x y right]
  | .ternary condition yes no => by
    rw [renamed, calls, calls, calls_renamed x y condition, calls_renamed x y yes, calls_renamed x y no]
  | .list items => by rw [renamed, calls, calls, callsAll_renamed x y items]
  | .comprehension kind range var body => by
    rw [renamed, calls, calls, calls_renamed x y range]
    split
    · rfl
    · rw [calls_renamed x y body]
  | .has target => by rw [renamed, calls, calls, calls_renamed x y target]

theorem callsAll_renamed (x y : String) : ∀ es : List Expr, callsAll (renamedAll x y es) = callsAll es
  | [] => rfl
  | e :: rest => by rw [renamedAll, callsAll, callsAll, calls_renamed x y e, callsAll_renamed x y rest]

end

end TradingRules.Expr
